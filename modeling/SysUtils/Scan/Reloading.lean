import SysUtils.Scan.Exit
import SysUtils.Scan.Origins
import SysUtils.Scan.Skipping

namespace SysUtils.Scan

open Interleaving ThreadPool Paths

variable {n : ℕ} {S : Sys} {stale : ℕ → UInt8} {content : List UInt8} {f L : Str} {l : Loc} {c : Str}

structure Agree (S : Sys) (f L : Str) : Prop where
  both : ∀ stale stale', (symbolReloader S stale' L).isSome = (fileChecker S stale f).isSome
  same : ∀ stale stale' r r', fileChecker S stale f = some r → symbolReloader S stale' L = some r' →
    r' = { r with path := L }

theorem eType_of_checkHeader {h : ElfHeader} (hcheck : h.checkHeader = true) :
    h.eType = 2 ∨ h.eType = 3 := by
  simp only [ElfHeader.checkHeader, ElfHeader.checkType, Bool.and_eq_true, Bool.or_eq_true,
    beq_iff_eq] at hcheck
  exact hcheck.1.2.symm

theorem elfRecord_isSome (S : Sys) (stale : ℕ → UInt8) (path listed : Str) :
    (elfRecord S stale path listed).isSome = (checkIfValidElf S stale path).1 := by
  cases hopen : S.fopen path with
  | none => simp [elfRecord, checkIfValidElf, hopen]
  | some content =>
    have heq := checkIfValidElf_eq hopen stale
    cases hcheck : (ElfHeader.decode (readHeader stale content)).checkHeader with
    | false => simp [elfRecord, heq, hcheck]
    | true => rcases eType_of_checkHeader hcheck with h | h <;> simp [elfRecord, heq, hcheck, h]

theorem elfRecord_listed {path a b : Str} {r r' : FileInfo} (h : elfRecord S stale path a = some r)
    (h' : elfRecord S stale path b = some r') : r' = { r with path := b } := by
  unfold elfRecord at h h'
  split at h
  · rename_i heq
    rw [heq] at h'
    cases h
    cases h'
    rfl
  · rename_i heq
    rw [heq] at h'
    cases h
    cases h'
    rfl
  · cases h

theorem symbolReloader_eq (hreal : S.realpath L = some f) (stale : ℕ → UInt8) :
    symbolReloader S stale L = if validPath f then elfRecord S stale f L else none := by
  cases hvalid : validPath f <;> simp [symbolReloader, symbolTarget, hreal, hvalid, Option.filter]

theorem checkIfValidElf_stale (h : ∀ content ∈ S.fopen f, 24 ≤ content.length) (stale stale' : ℕ → UInt8) :
    checkIfValidElf S stale f = checkIfValidElf S stale' f := by
  cases hopen : S.fopen f with
  | none => simp [checkIfValidElf, hopen]
  | some content =>
    rw [checkIfValidElf_eq hopen, checkIfValidElf_eq hopen,
      decode_congr (readHeader_stale (h content hopen) (by omega))]

theorem checkHeader_staleOnes (hlen : content.length < 24) :
    (ElfHeader.decode (readHeader (fun _ => 1) content)).checkHeader = false := by
  by_contra hcheck
  have h23 := (checkHeader_iff_fits _).mp (by simpa using hcheck) 23
  rw [readHeader_of_le (by omega)] at h23
  cases h23

theorem Agree.of_valid (hreal : S.realpath L = some f) (hvalid : validPath f = true)
    (hlen : ∀ content ∈ S.fopen f, 24 ≤ content.length) : Agree S f L := by
  have hsame (stale stale' : ℕ → UInt8) (listed : Str) :
      elfRecord S stale f listed = elfRecord S stale' f listed := by
    rw [elfRecord, elfRecord, checkIfValidElf_stale hlen stale stale']
  constructor
  · intro stale stale'
    rw [symbolReloader_eq hreal, if_pos hvalid, fileChecker, elfRecord_isSome, elfRecord_isSome,
      checkIfValidElf_stale hlen]
  · intro stale stale' r r' hr hr'
    rw [symbolReloader_eq hreal, if_pos hvalid, hsame stale' stale] at hr'
    exact elfRecord_listed hr hr'

theorem Agree.of_refuted (hreal : S.realpath L = some f)
    (h : ∀ content ∈ S.fopen f, refuted content = true) : Agree S f L := by
  have hnone (stale : ℕ → UInt8) (listed : Str) : elfRecord S stale f listed = none := by
    rw [← Option.not_isSome_iff_eq_none, elfRecord_isSome]
    cases hopen : S.fopen f with
    | none => simp [checkIfValidElf, hopen]
    | some content => simp [checkIfValidElf_eq hopen, checkHeader_of_refuted (h content hopen)]
  constructor
  · intro stale stale'
    rw [symbolReloader_eq hreal, fileChecker, hnone, hnone, ite_self]
  · intro stale stale' r r' hr _
    rw [fileChecker, hnone] at hr
    cases hr

theorem agree_iff (hreal : S.realpath L = some f) : Agree S f L ↔
    ∀ content ∈ S.fopen f, refuted content = true ∨ 24 ≤ content.length ∧ validPath f = true := by
  constructor
  · intro h content hopen
    rw [Option.mem_def] at hopen
    cases hrefuted : refuted content with
    | true => exact .inl rfl
    | false =>
      right
      have hboth (stale' : ℕ → UInt8) : (symbolReloader S stale' L).isSome = true := by
        rw [h.both staleElf stale', fileChecker, elfRecord_isSome, checkIfValidElf_eq hopen]
        exact checkHeader_staleElf hrefuted
      have hvalid : validPath f = true := by
        by_contra hnot
        have hnone := hboth staleElf
        rw [symbolReloader_eq hreal, if_neg hnot] at hnone
        cases hnone
      refine ⟨?_, hvalid⟩
      by_contra hshort
      have hsome := hboth fun _ => 1
      rw [symbolReloader_eq hreal, if_pos hvalid, elfRecord_isSome, checkIfValidElf_eq hopen,
        checkHeader_staleOnes (by omega)] at hsome
      cases hsome
  · intro h
    cases hopen : S.fopen f with
    | none => exact .of_refuted hreal (by simp [hopen])
    | some content =>
      rcases h content hopen with hrefuted | ⟨hlen, hvalid⟩
      · exact .of_refuted hreal (by simpa [hopen] using hrefuted)
      · exact .of_valid hreal hvalid (by simpa [hopen] using hlen)

theorem render_concat (l : Loc) (c : List Char) :
    render (l ++ [c]) = (if l = [] then [] else render l) ++ '/' :: c := by
  by_cases hl : l = []
  · subst hl
    simp [render]
  · simp [render, hl]

theorem validPath_of_append {p q : Str} (h : validPath (p ++ q) = true) : validPath p = true :=
  validPath_iff.mpr fun x hx hp => validPath_iff.mp h x hx (hp.trans (List.prefix_append p q))

theorem validPath_render_concat (hvalid : validPath (render l) = true) :
    validPath (render (l ++ [c])) = true ↔ ¬ (l = [] ∧ ∃ x ∈ skipScanningPrefix, x <+: '/' :: c) := by
  rw [← Bool.not_eq_false, not_iff_not, validPath_eq_false_iff, render_concat]
  by_cases hl : l = []
  · simp [hl]
  · rw [if_neg hl]
    refine iff_of_false ?_ fun h => hl h.1
    rintro ⟨x, hx, hprefix⟩
    rcases List.prefix_or_prefix_of_prefix hprefix (List.prefix_append (render l) ('/' :: c)) with h | h
    · exact validPath_iff.mp hvalid x hx h
    · obtain ⟨more, rfl⟩ := h
      have hmore : more <+: '/' :: c := (List.prefix_append_right_inj _).mp hprefix
      have hone : ∀ y ∈ skipScanningPrefix, y.tail.contains '/' = false := by decide
      have htail := hone _ hx
      obtain ⟨d, ds, rfl⟩ := List.exists_cons_of_ne_nil hl
      cases more with
      | nil => exact validPath_iff.mp hvalid _ hx (by simp)
      | cons ch more =>
        obtain rfl : ch = '/' := (List.cons_prefix_cons.mp hmore).1
        simp [render] at htail

theorem direct_and_symlink_agree_iff {rounds : List (List Str)} {s : ScanState n}
    (hs : Reachable (program n S rounds) s) {t : ScanTask} (ht : t ∈ s.shared.env.visited) {l : Loc}
    (hdir : t.path = render l ∨ t.path = render l ++ "/".toList) {c L : Str}
    (hlink : S.realpath L = some (render (l ++ [c]))) :
    Agree S (render (l ++ [c])) L ↔ ∀ content ∈ S.fopen (render (l ++ [c])),
      refuted content = true ∨ 24 ≤ content.length ∧
        ¬ (l = [] ∧ ∃ x ∈ skipScanningPrefix, x <+: '/' :: c) := by
  have hvisited := ((origins_run hs fun _ _ _ _ => trivial :
    Origins S (fun _ => True) (scanView s)).lists.visited t ht).2
  have hvalid : validPath (render l) = true := by
    rcases hdir with h | h
    · rwa [← h]
    · exact validPath_of_append (h ▸ hvisited)
  rw [agree_iff hlink, validPath_render_concat hvalid]

def linkSys (name : Str) (hname : name ≠ [] ∧ '/' ∉ name ∧ name ≠ "y".toList) : Sys where
  readdir p := if p = "/".toList then some [⟨name, .reg⟩, ⟨"y".toList, .lnk⟩] else none
  fopen p := if p = '/' :: name then some elf32Exec else none
  realpath p := if p = "/y".toList then some ('/' :: name) else none
  named p es h := by
    cases (Option.ite_none_right_eq_some.mp h).2
    obtain ⟨hne, hslash, hy⟩ := hname
    refine ⟨by simpa using hy, ?_⟩
    rintro e he
    rcases List.mem_cons.mp he with rfl | he
    · exact ⟨hne, hslash⟩
    · obtain rfl := List.mem_singleton.mp he
      decide

def scanLink (name : Str) (hname : name ≠ [] ∧ '/' ∉ name ∧ name ≠ "y".toList) :
    Program 1 Client ScanTask ScanPc (Env 1) Answer ClientCode :=
  program 1 (linkSys name hname) [["/".toList]]

theorem direct_and_symlink_agree_x : ∃ s, Reachable (scanLink "x".toList (by decide)) s ∧
    (⟨0, "/".toList⟩ : ScanTask) ∈ s.shared.env.visited ∧
    Agree (linkSys "x".toList (by decide)) "/x".toList "/y".toList := by
  have h : ((threads (scanLink "x".toList (by decide))).run Threads.anyStep (initial (scanLink "x".toList
      (by decide))) (scanSteps (.client .main) 14 ++ scanSteps (.worker 0) 13)).map (fun s => decide
        ((⟨0, "/".toList⟩ : ScanTask) ∈ s.shared.env.visited)) = some true := by decide
  obtain ⟨s, hs, hp⟩ := Threads.exists_steps_of_run h
  have hvisited := of_decide_eq_true hp
  refine ⟨s, hs, hvisited, ?_⟩
  apply (direct_and_symlink_agree_iff hs hvisited (l := []) (.inl rfl) (c := "x".toList) rfl).mpr
  intro content hopen
  obtain rfl : elf32Exec = content := Option.some.inj hopen
  exact .inr (by decide)

theorem dev_link_dropped : ∃ s, Reachable (scanLink "devtool".toList (by decide)) s ∧
    (⟨0, "/".toList⟩ : ScanTask) ∈ s.shared.env.visited ∧
    (linkSys "devtool".toList (by decide)).realpath "/y".toList = some "/devtool".toList ∧
    ¬ Agree (linkSys "devtool".toList (by decide)) "/devtool".toList "/y".toList := by
  have h : ((threads (scanLink "devtool".toList (by decide))).run Threads.anyStep (initial (scanLink
      "devtool".toList (by decide))) (scanSteps (.client .main) 14 ++ scanSteps (.worker 0) 13)).map
        (fun s => decide ((⟨0, "/".toList⟩ : ScanTask) ∈ s.shared.env.visited)) = some true := by decide
  obtain ⟨s, hs, hp⟩ := Threads.exists_steps_of_run h
  refine ⟨s, hs, of_decide_eq_true hp, rfl, fun hagree => ?_⟩
  have hboth := hagree.both (fun _ => 0) (fun _ => 0)
  revert hboth
  decide

end SysUtils.Scan

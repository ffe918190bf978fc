import SysUtils.Scan.Interruption
import SysUtils.Scan.Reloading

namespace SysUtils.Scan

open Interleaving Layouts ThreadPool

variable {n : ℕ} {S : Sys} {roots : List Str}
variable {v v' : Seen ScanTask (Env n)} {content : List UInt8} {path entry : Str} {r : FileInfo}

def Settles (content : List UInt8) : Prop := 24 ≤ content.length ∨ refuted content = true

def Reports (S : Sys) (path entry : Str) (r : FileInfo) : Prop :=
  ∃ content, S.fopen path = some content ∧ 24 ≤ content.length ∧ ElfFile content ∧
    r = ⟨entry, toUType (if ElfClass.class64.field .type content = 2 then .exe else .dyn), md5 path⟩

def Expected (S : Sys) (roots : List Str) (r : FileInfo) : Prop :=
  (∃ t f, Reached S roots t ∧ f ∈ found S .reg t ∧ Reports S f.path f.path r) ∨
    ∃ t l target, Reached S roots t ∧ l ∈ found S .lnk t ∧ S.realpath l.path = some target ∧
      validPath target = true ∧ Reports S target l.path r

theorem ElfFile.type (h : ElfFile content) : ElfClass.class64.field .type content = 2 ∨
    ElfClass.class64.field .type content = 3 := by
  obtain ⟨c, _, htype, _⟩ := h.header
  have hfield : ElfClass.class64.field .type content = c.field .type content := by
    simp only [ElfClass.field, bytesOf_eq (span_type _)]
  rwa [hfield]

theorem elfRecord_of_elfFile (hopen : S.fopen path = some content) (hlen : 24 ≤ content.length)
    (helf : ElfFile content) (stale : ℕ → UInt8) : elfRecord S stale path entry =
      some ⟨entry, toUType (if ElfClass.class64.field .type content = 2 then .exe else .dyn), md5 path⟩ := by
  have hcheck : checkIfValidElf S stale path = _ := checkIfValidElf_of_fopen hopen hlen .class64
  rw [(checkHeader_iff_elfFile hlen .class64).mpr helf] at hcheck
  rcases helf.type with htype | htype <;> simp [elfRecord, hcheck, htype]

theorem elfRecord_of_not (hopen : S.fopen path = some content) (hsettles : Settles content)
    (hnot : ¬ (24 ≤ content.length ∧ ElfFile content)) (stale : ℕ → UInt8) :
    elfRecord S stale path entry = none := by
  have hcheck : (checkIfValidElf S stale path).1 = false := by
    rcases hsettles with hlen | hrefuted
    · rw [checkIfValidElf_of_fopen hopen hlen .class64, Bool.eq_false_iff]
      intro htrue
      exact hnot ⟨hlen, (checkHeader_iff_elfFile hlen .class64).mp htrue⟩
    · rw [checkIfValidElf_eq hopen]
      exact checkHeader_of_refuted hrefuted stale
  rw [← Option.not_isSome_iff_eq_none, elfRecord_isSome, hcheck]
  simp

theorem elfRecord_iff (hsettles : ∀ content ∈ S.fopen path, Settles content) (stale : ℕ → UInt8) :
    elfRecord S stale path entry = some r ↔ Reports S path entry r := by
  cases hopen : S.fopen path with
  | none => simp [elfRecord, checkIfValidElf, Reports, hopen]
  | some content =>
    by_cases helf : 24 ≤ content.length ∧ ElfFile content
    · rw [elfRecord_of_elfFile hopen helf.1 helf.2, Option.some.injEq]
      constructor
      · rintro rfl
        exact ⟨content, hopen, helf.1, helf.2, rfl⟩
      · rintro ⟨content', hopen', _, _, rfl⟩
        rw [hopen] at hopen'
        cases hopen'
        rfl
    · rw [elfRecord_of_not hopen (hsettles content hopen) helf]
      constructor
      · rintro ⟨⟩
      · rintro ⟨content', hopen', hlen, helf', _⟩
        rw [hopen] at hopen'
        cases hopen'
        exact absurd ⟨hlen, helf'⟩ helf

def blank (_ : ℕ) : UInt8 := 0

theorem elfRecord_stale (hsettles : ∀ content ∈ S.fopen path, Settles content) (stale : ℕ → UInt8) :
    elfRecord S stale path entry = elfRecord S blank path entry := by
  ext r
  rw [elfRecord_iff hsettles stale, elfRecord_iff hsettles blank]

def recordsOf (S : Sys) (checked reloaded : List ScanTask) : Multiset FileInfo :=
  (checked.filterMap fun f => fileChecker S blank f.path : List FileInfo) +
    (reloaded.filterMap fun l => symbolReloader S blank l.path : List FileInfo)

def Recorded (S : Sys) (e : Env n) : Prop :=
  (e.appended : Multiset FileInfo) = recordsOf S e.checked e.reloaded

theorem coe_filterMap_concat {α β : Type} (g : α → Option β) (l : List α) (a : α) :
    ((l ++ [a]).filterMap g : Multiset β) = (l.filterMap g : Multiset β) + (g a).toList := by
  rw [List.filterMap_append, ← Multiset.coe_add]
  cases hg : g a <;> simp [hg]

theorem ScanMove.recorded {i : Fin n} {x : Answer} {j j' : Option (Job ScanTask ScanPc)}
    (hsettles : ∀ p, ∀ content ∈ S.fopen p, Settles content) (h : ScanMove S i x v j (v', j'))
    (hr : Recorded S v.env) : Recorded S v'.env := by
  unfold Recorded recordsOf at hr ⊢
  cases h with
  | checkFile t f files symbols =>
    have hf : fileChecker S x.stale f = fileChecker S blank f := elfRecord_stale (hsettles f) x.stale
    simp only [Env.append, hf, coe_filterMap_concat, ← Multiset.coe_add, hr]
    abel
  | reloadSymbol t l symbols =>
    have hl : symbolReloader S x.stale l = symbolReloader S blank l := by
      unfold symbolReloader
      congr 1
      funext target
      exact elfRecord_stale (hsettles target) x.stale
    simp only [Env.append, hl, coe_filterMap_concat, ← Multiset.coe_add, hr]
    abel
  | _ => exact hr

theorem MainMove.ledgers {m m' : Option (Session ScanTask MainPc)} {x : Answer}
    (h : MainMove x v m (v', m')) : v'.env.appended = v.env.appended ∧
      v'.env.checked = v.env.checked ∧ v'.env.reloaded = v.env.reloaded := by
  cases h <;> exact ⟨rfl, rfl, rfl⟩

theorem RecorderMove.appended {l l' : Option (Session ScanTask Recorder)}
    (h : RecorderMove v l (v', l')) : v'.env.appended = v.env.appended := by
  cases h <;> rfl

theorem Recorded.congr (h : Recorded S v.env) (ha : v'.env.appended = v.env.appended)
    (hc : v'.env.checked = v.env.checked) (hr : v'.env.reloaded = v.env.reloaded) :
    Recorded S v'.env := by
  unfold Recorded
  rw [ha, hc, hr]
  exact h

theorem recorded_run {rounds : List (List Str)}
    {ok : ScanState n → Thread n Client → Choice n Client Answer → Prop} {s : ScanState n}
    (hsettles : ∀ p, ∀ content ∈ S.fopen p, Settles content)
    (hs : ReachableBy (program n S rounds) ok s) : Recorded S s.shared.env := by
  apply scan_invariant (I := fun w => Recorded S w.shared.env) .refl hs rfl
  intro u i x q _ _ hm hI
  obtain ⟨v, l⟩ := q
  cases i with
  | worker i => exact ScanMove.recorded hsettles hm hI
  | client c =>
    cases c with
    | main =>
      obtain ⟨ha, hc, hr⟩ := MainMove.ledgers hm
      exact hI.congr ha hc hr
    | recorder =>
      have hp := RecorderMove.progress hm
      exact hI.congr (RecorderMove.appended hm) (congrArg Progress.checked hp)
        (congrArg Progress.reloaded hp)
    | notifier =>
      have hp := NotifierMove.progress hm
      exact hI.congr (NotifierMove.infosKept hm).appended (congrArg Progress.checked hp)
        (congrArg Progress.reloaded hp)
    | user u =>
      have hp := UserMove.progress hm
      exact hI.congr (UserMove.infosKept hm).appended (congrArg Progress.checked hp)
        (congrArg Progress.reloaded hp)

theorem mem_recordsOf {checked reloaded : List ScanTask}
    (hsettles : ∀ p, ∀ content ∈ S.fopen p, Settles content) :
    r ∈ recordsOf S checked reloaded ↔ (∃ f ∈ checked, Reports S f.path f.path r) ∨
      ∃ l ∈ reloaded, ∃ target, S.realpath l.path = some target ∧ validPath target = true ∧
        Reports S target l.path r := by
  have hfile (f : ScanTask) : fileChecker S blank f.path = some r ↔ Reports S f.path f.path r :=
    elfRecord_iff (hsettles f.path) blank
  have hlink (l : ScanTask) : symbolReloader S blank l.path = some r ↔ ∃ target,
      S.realpath l.path = some target ∧ validPath target = true ∧ Reports S target l.path r := by
    simp only [symbolReloader, symbolTarget, Option.bind_eq_some_iff, Option.filter_eq_some_iff,
      and_assoc, elfRecord_iff (hsettles _)]
  simp only [recordsOf, Multiset.mem_add, Multiset.mem_coe, List.mem_filterMap, hfile, hlink]

theorem complete_of_returned (hroots : ∀ r ∈ roots, EndsInSlash r) {s : ScanState n}
    (hs : ReachableBy (program n S [roots]) undisturbed s) (hfin : s.shared.env.dbRecorder = .finished) :
    Complete S roots s.shared.env ∧ s.shared.env.drained = s.shared.env.appended := by
  have hret := returned_run (returnsLast_run hs) hfin
  refine ⟨?_, hret.drained⟩
  refine (settled_of_idle hs (idle_of_notRunning hs hret.notRunning) ?_).complete hroots
  by_contra hne
  have hoff := (scan_phases hs).recorderOff.mp (by simpa using hne)
  rw [hfin] at hoff
  cases hoff

theorem scan_reports (S : Sys) (roots : List Str) (hroots : ∀ r ∈ roots, EndsInSlash r)
    (hsettles : ∀ p, ∀ content ∈ S.fopen p, Settles content) {s : ScanState n}
    (hs : Reachable (program n S [roots]) s) :
    (∀ r ∈ s.shared.env.appended, Expected S roots r) ∧
    (ReachableBy (program n S [roots]) undisturbed s → s.shared.env.dbRecorder = .finished →
      (s.shared.env.drained : Multiset FileInfo) =
        recordsOf S s.shared.env.checked s.shared.env.reloaded ∧
      ∀ r, r ∈ s.shared.env.drained ↔ Expected S roots r) := by
  have hrecorded := recorded_run hsettles hs
  unfold Recorded at hrecorded
  constructor
  · intro r hr
    obtain ⟨_, hchecked, hreloaded⟩ := once_run hroots hs
    rw [← Multiset.mem_coe, hrecorded, mem_recordsOf hsettles] at hr
    rcases hr with ⟨f, hf, hreports⟩ | ⟨l, hl, target, htarget, hvalid, hreports⟩
    · obtain ⟨t, ht, hft⟩ := hchecked.2 f hf
      exact .inl ⟨t, f, ht, hft, hreports⟩
    · obtain ⟨t, ht, hlt⟩ := hreloaded.2 l hl
      exact .inr ⟨t, l, target, ht, hlt, htarget, hvalid, hreports⟩
  · intro hun hfin
    obtain ⟨hcomplete, hdrained⟩ := complete_of_returned hroots hun hfin
    rw [hdrained]
    refine ⟨hrecorded, ?_⟩
    intro r
    rw [← Multiset.mem_coe, hrecorded, mem_recordsOf hsettles]
    unfold Expected
    constructor
    · rintro (⟨f, hf, hreports⟩ | ⟨l, hl, target, hreports⟩)
      · obtain ⟨t, ht, hft⟩ := (hcomplete.checked.2 f).mp hf
        exact .inl ⟨t, f, ht, hft, hreports⟩
      · obtain ⟨t, ht, hlt⟩ := (hcomplete.reloaded.2 l).mp hl
        exact .inr ⟨t, l, target, ht, hlt, hreports⟩
    · rintro (⟨t, f, ht, hft, hreports⟩ | ⟨t, l, target, ht, hlt, hreports⟩)
      · exact .inl ⟨f, (hcomplete.checked.2 f).mpr ⟨t, ht, hft⟩, hreports⟩
      · exact .inr ⟨l, (hcomplete.reloaded.2 l).mpr ⟨t, ht, hlt⟩, target, hreports⟩

theorem settles_oneExecutable (p : Str) : ∀ content ∈ oneExecutable.fopen p, Settles content := by
  intro content hopen
  cases (Option.ite_none_right_eq_some.mp hopen).2
  exact .inl (by decide)

theorem scan_reports_scanOne : ∃ s, ReachableBy scanOne undisturbed s ∧
    s.shared.env.drained = [⟨"/a/x".toList, 4, md5 "/a/x".toList⟩] ∧
    ∀ r, r ∈ s.shared.env.drained ↔ Expected oneExecutable ["/a/".toList] r := by
  have h : ((threads scanOne).run undisturbed (initial scanOne)
      (scanSteps (.client .main) 14 ++ scanSteps (.worker 0) 22 ++ scanSteps (.client .notifier) 5 ++
        scanSteps (.client .recorder) 10)).map (fun s => decide
          (s.shared.env.dbRecorder = .finished ∧
            s.shared.env.drained = [⟨"/a/x".toList, 4, md5 "/a/x".toList⟩])) = some true := by decide
  obtain ⟨s, hs, hp⟩ := Threads.exists_steps_of_run h
  obtain ⟨hfin, hdrained⟩ := of_decide_eq_true hp
  have hroots : ∀ r ∈ ["/a/".toList], EndsInSlash r := by decide
  have hrun : ReachableBy scanOne undisturbed s := hs
  exact ⟨s, hs, hdrained,
    ((scan_reports oneExecutable _ hroots settles_oneExecutable hrun.any).2 hrun hfin).2⟩

end SysUtils.Scan

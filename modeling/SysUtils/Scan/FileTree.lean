import SysUtils.Paths
import SysUtils.Scan.Entries

namespace SysUtils.Scan

open Paths

/-- A file system whose directories list what is in them. A directory that may not be read has no
listing, and neither has a file that may not be opened any bytes. -/
structure FileTree extends Tree (Option (List Dirent)) (Option (List UInt8)) where
  names : ∀ l b es, node l = some (.dir b (some es)) →
    (es.map Dirent.dName).Nodup ∧ ∀ e ∈ es, e.dName ≠ [] ∧ '/' ∉ e.dName
  accurate : ∀ l b es, node l = some (.dir b (some es)) →
    ∀ e ∈ es, e.dName ≠ ".".toList → e.dName ≠ "..".toList →
      (e.dType = .dir → ∃ b' d, node (l ++ [e.dName]) = some (.dir b' d)) ∧
        (e.dType = .reg → ∃ content, node (l ++ [e.dName]) = some (.file content))

namespace FileTree

variable (T : FileTree)

def listingAt (l : Loc) : Option (List Dirent) :=
  match T.node l with
  | some (.dir _ es) => es
  | _ => none

def bytesAt (l : Loc) : Option (List UInt8) :=
  match T.node l with
  | some (.file content) => content
  | some (.dir _ es) => es.map fun _ => []
  | _ => none

theorem listingAt_eq_some {l : Loc} {es : List Dirent} (h : T.listingAt l = some es) :
    ∃ b, T.node l = some (.dir b (some es)) := by
  unfold listingAt at h
  split at h
  · rename_i b es' hn
    exact ⟨b, h ▸ hn⟩
  · cases h

def sys : Sys where
  readdir p := (T.locate p).bind T.listingAt
  fopen p := (T.locate p).bind T.bytesAt
  realpath p := (T.locate p).map render
  named p es h := by
    obtain ⟨l, _, hes⟩ := Option.bind_eq_some_iff.mp h
    obtain ⟨b, hn⟩ := T.listingAt_eq_some hes
    exact T.names l b es hn

end FileTree

def Excluded (l : Loc) : Prop := ∃ pre ∈ skipScanningPrefix, (components pre).tail <+: l

instance (l : Loc) : Decidable (Excluded l) := inferInstanceAs (Decidable (∃ pre ∈ _, _))

def excludedName (c : Str) : Bool := skipScanningPrefix.contains ('/' :: c)

theorem skipScanningPrefix_names :
    ∀ pre ∈ skipScanningPrefix, pre = '/' :: pre.tail ∧ (components pre).tail = [pre.tail] := by
  decide

theorem excluded_cons {c : Str} {l : Loc} : Excluded (c :: l) ↔ excludedName c = true := by
  unfold Excluded excludedName
  rw [List.contains_iff_mem]
  constructor
  · rintro ⟨pre, hpre, hl⟩
    obtain ⟨hslash, hname⟩ := skipScanningPrefix_names pre hpre
    rw [hname] at hl
    have hc : pre.tail = c := (List.cons_prefix_cons.mp hl).1
    rw [← hc, ← hslash]
    exact hpre
  · intro hmem
    refine ⟨_, hmem, ?_⟩
    rw [(skipScanningPrefix_names _ hmem).2]
    exact List.cons_prefix_cons.mpr ⟨rfl, List.nil_prefix⟩

theorem not_excluded_nil : ¬ Excluded [] := by decide

theorem hasPrefix_iff {value pre : Str} : hasPrefix value pre = true ↔ pre <+: value := by
  rw [List.prefix_iff_eq_take]
  unfold hasPrefix
  split_ifs with hlt
  · constructor
    · intro h
      cases h
    · intro h
      have hlen := congrArg List.length h
      rw [List.length_take] at hlen
      omega
  · rw [beq_iff_eq]
    exact eq_comm

theorem validPath_iff {p : Str} : validPath p = true ↔ ∀ pre ∈ skipScanningPrefix, ¬ pre <+: p := by
  simp [validPath, List.any_eq_false, hasPrefix_iff]

theorem validPath_append {c : Str} (hc : excludedName c = true) (rest : Str) :
    validPath ('/' :: c ++ rest) = false := by
  by_contra h
  have hmem : '/' :: c ∈ skipScanningPrefix := List.contains_iff_mem.mp hc
  exact validPath_iff.mp (by simpa using h) _ hmem (List.prefix_append _ _)

theorem validPath_below {r : Str} (hr : EndsInSlash r) (hvalid : validPath r = true)
    (hne : r ≠ "/".toList) (rest : Str) : validPath (r ++ rest) = true := by
  apply validPath_iff.mpr
  intro pre hpre hprefix
  have hshort : r <+: pre := by
    rcases List.prefix_or_prefix_of_prefix (List.prefix_append r rest) hprefix with h | h
    · exact h
    · exact absurd h (validPath_iff.mp hvalid pre hpre)
  obtain ⟨d, rfl⟩ := List.getLast?_eq_some_iff.mp hr
  have hone : ∀ pre ∈ skipScanningPrefix, pre.tail.contains '/' = false := by decide
  cases d with
  | nil => exact hne rfl
  | cons ch d =>
    obtain ⟨more, rfl⟩ := hshort
    have := hone _ hpre
    simp at this

theorem validPath_render {l : Loc} (h : Excluded l) : validPath (render l) = false := by
  cases l with
  | nil => exact absurd h not_excluded_nil
  | cons c l => exact validPath_append (excluded_cons.mp h) _

theorem listing_sys {T : FileTree} {p : Str} {l : Loc} {es : List Dirent} (hl : T.locate p = some l)
    (hes : T.listingAt l = some es) : T.sys.listing p = es := by
  have hread : T.sys.readdir p = some es := Option.bind_eq_some_iff.mpr ⟨l, hl, hes⟩
  simp [Sys.listing, hread]

theorem listing_of_mem {T : FileTree} {p : Str} {e : Dirent} (he : e ∈ T.sys.listing p) :
    ∃ l es, T.locate p = some l ∧ T.listingAt l = some es ∧ T.sys.listing p = es := by
  cases hread : T.sys.readdir p with
  | none => simp [Sys.listing, hread] at he
  | some es =>
    obtain ⟨l, hl, hes⟩ := Option.bind_eq_some_iff.mp hread
    exact ⟨l, es, hl, hes, listing_sys hl hes⟩

theorem locate_child {T : FileTree} {ty : DType} (hty : ty = .dir ∨ ty = .reg) {p : Str} {l : Loc}
    {es : List Dirent} {e : Dirent} (hp : EndsInSlash p) (hl : T.locate p = some l)
    (hes : T.listingAt l = some es) (he : e ∈ listed ty es) :
    T.locate (p ++ e.dName ++ suffix ty) = if T.searchable l then some (l ++ [e.dName]) else none := by
  obtain ⟨hmem, hlisted⟩ := List.mem_filter.mp he
  obtain ⟨hdot, hdots, htype⟩ := of_decide_eq_true hlisted
  obtain ⟨b, hn⟩ := T.listingAt_eq_some hes
  obtain ⟨hdir, hreg⟩ := T.accurate l b es hn e hmem hdot hdots
  rcases hty with rfl | rfl
  · obtain ⟨b', d, hk⟩ := hdir htype
    exact Tree.locate_subdir hp hl hk
  · obtain ⟨content, hk⟩ := hreg htype
    have hsuffix : suffix .reg = [] := rfl
    rw [hsuffix, List.append_nil]
    exact Tree.locate_entry hp hl hk (by simp)

theorem locate_found {T : FileTree} {ty : DType} (hty : ty = .dir ∨ ty = .reg) {t c : ScanTask}
    (ht : EndsInSlash t.path) (hc : c ∈ found T.sys ty t) :
    ∃ l es e, T.locate t.path = some l ∧ T.listingAt l = some es ∧ e ∈ es ∧ e.dType = ty ∧
      c.path = t.path ++ e.dName ++ suffix ty ∧
      ∀ l', T.locate c.path = some l' → T.searchable l = true ∧ l' = l ++ [e.dName] := by
  obtain ⟨_, e, he, hpath⟩ := mem_below.mp hc
  obtain ⟨hmem, hlisted⟩ := List.mem_filter.mp he
  obtain ⟨l, es, hl, hlist, hsys⟩ := listing_of_mem hmem
  rw [hsys] at he hmem
  refine ⟨l, es, e, hl, hlist, hmem, (of_decide_eq_true hlisted).2.2, hpath, ?_⟩
  intro l' hl'
  rw [hpath, locate_child hty ht hl hlist he] at hl'
  split_ifs at hl' with hs
  exact ⟨hs, (Option.some.inj hl').symm⟩

end SysUtils.Scan

import SysUtils.Scan.Completeness
import SysUtils.Scan.FileTree

namespace SysUtils.Scan

open Interleaving ThreadPool Paths

variable {n : ℕ} {given : Str → Prop} {T : FileTree}

/-- The scan of a root does not get into an excluded directory: `valid_path` turns the root away, or it
is outside of all of them and, if it is `/`, no entry that would be handled has the name of one. The test
of the path catches a directory of that name only if the root is spelled `/`. -/
def StaysOut (T : FileTree) (r : Str) : Prop :=
  validPath r = false ∨ ∀ l, T.locate r = some l → ¬ Excluded l ∧
    (l = [] → T.searchable l = true → ∀ es, T.listingAt l = some es → ∀ e ∈ es,
      excludedName e.dName = true → e.dType ≠ .reg ∧ (e.dType = .dir → r = "/".toList))

theorem excluded_entry {T : FileTree} {p : Str} {l : Loc} {es : List Dirent} {e : Dirent}
    (hp : StaysOut T p) (hvalid : validPath p = true) (hl : T.locate p = some l)
    (hs : T.searchable l = true) (hes : T.listingAt l = some es) (he : e ∈ es)
    (hex : Excluded (l ++ [e.dName])) :
    e.dType ≠ .reg ∧ (e.dType = .dir → p = "/".toList) ∧ excludedName e.dName = true := by
  have hout := (hp.resolve_left (by simp [hvalid])) l hl
  cases l with
  | nil =>
    have hname := excluded_cons.mp hex
    obtain ⟨hreg, hdir⟩ := hout.2 rfl hs es hes e he hname
    exact ⟨hreg, hdir, hname⟩
  | cons c l => exact absurd (excluded_cons.mpr (excluded_cons.mp hex)) hout.1

theorem Spawned.staysOut {T : FileTree} {t : ScanTask} (h : Spawned T.sys given t)
    (hgiven : ∀ r, given r → EndsInSlash r ∧ StaysOut T r) :
    EndsInSlash t.path ∧ StaysOut T t.path := by
  induction h with
  | root k hr => exact hgiven _ hr
  | child ht hvalid hc ih =>
    obtain ⟨hslash, hout⟩ := ih
    obtain ⟨l, es, e, hl, hes, he, htype, hpath, hloc⟩ := locate_found (.inl rfl) hslash hc
    refine ⟨hpath ▸ endsInSlash_append _, ?_⟩
    by_cases hex : T.searchable l = true ∧ Excluded (l ++ [e.dName])
    · obtain ⟨_, hdir, hname⟩ := excluded_entry hout hvalid hl hex.1 hes he hex.2
      left
      rw [hpath, hdir htype]
      exact validPath_append hname _
    · right
      intro l' hl'
      obtain ⟨hs, rfl⟩ := hloc l' hl'
      exact ⟨fun he => hex ⟨hs, he⟩, by simp⟩

def handed (S : Sys) (e : Env n) : List Str :=
  e.checked.map ScanTask.path ++ e.reloaded.filterMap fun y => symbolTarget S y.path

structure Clean (T : FileTree) (e : Env n) : Prop where
  visited : ∀ t ∈ e.visited, ∀ l, T.locate t.path = some l → ¬ Excluded l
  handed : ∀ f ∈ handed T.sys e, ∀ l, T.locate f = some l → ¬ Excluded l

theorem clean_of_staysOut {rounds : List (List Str)}
    (hroots : ∀ roots ∈ rounds, ∀ r ∈ roots, EndsInSlash r ∧ StaysOut T r) {s : ScanState n}
    (hs : Reachable (program n T.sys rounds) s) : Clean T s.shared.env := by
  have hlists := (origins_run hs hroots).lists
  constructor
  · intro t ht l hl
    obtain ⟨hspawned, hvalid⟩ := hlists.visited t ht
    have hout := (hspawned.staysOut fun _ h => h).2
    exact (hout.resolve_left (by simp [hvalid]) l hl).1
  · intro f hf l hl hex
    rcases List.mem_append.mp hf with hf | hf
    · obtain ⟨y, hy, rfl⟩ := List.mem_map.mp hf
      obtain ⟨t, hspawned, hvalid, hfound⟩ := hlists.checked y hy
      obtain ⟨hslash, hout⟩ := hspawned.staysOut fun _ h => h
      obtain ⟨l₀, es, e, hl₀, hes, he, htype, _, hloc⟩ := locate_found (.inr rfl) hslash hfound
      obtain ⟨hs, rfl⟩ := hloc l hl
      exact (excluded_entry hout hvalid hl₀ hs hes he hex).1 htype
    · obtain ⟨y, _, hy⟩ := List.mem_filterMap.mp hf
      obtain ⟨hreal, hvalid⟩ := Option.filter_eq_some_iff.mp hy
      obtain ⟨l₀, hl₀, rfl⟩ := Option.map_eq_some_iff.mp hreal
      rw [Tree.locate_render (Tree.real_of_locate hl₀)] at hl
      cases hl
      simp [validPath_render hex] at hvalid

theorem listed_of_excluded {es : List Dirent} {e : Dirent} (he : e ∈ es)
    (hname : excludedName e.dName = true) : e ∈ listed e.dType es := by
  have hdots : excludedName ".".toList = false ∧ excludedName "..".toList = false := by decide
  refine List.mem_filter.mpr ⟨he, decide_eq_true ⟨?_, ?_, rfl⟩⟩
  · intro h
    rw [h, hdots.1] at hname
    cases hname
  · intro h
    rw [h, hdots.2] at hname
    cases hname

theorem staysOut_of_clean {roots : List Str} {e : Env n} (hslash : ∀ r ∈ roots, EndsInSlash r)
    (hcomplete : Complete T.sys roots e) (hclean : Clean T e) : ∀ r ∈ roots, StaysOut T r := by
  intro r hr
  cases hvalid : validPath r with
  | false => exact .inl hvalid
  | true =>
    right
    intro l hl
    obtain ⟨k, hmem⟩ := exists_rootTask hr
    have hroot : Reached T.sys roots ⟨k, r⟩ := .root hmem hvalid
    refine ⟨hclean.visited _ ((hcomplete.traversed.2 _).mpr hroot) l hl, ?_⟩
    rintro rfl hs es hes ent hent hname
    have hlisted : ent ∈ listed ent.dType (T.sys.listing r) := by
      rw [listing_sys hl hes]
      exact listed_of_excluded hent hname
    have hex : Excluded [ent.dName] := excluded_cons.mpr hname
    have hloc {ty : DType} (hty : ty = .dir ∨ ty = .reg) (htype : ent.dType = ty) :
        T.locate (r ++ ent.dName ++ suffix ty) = some [ent.dName] := by
      rw [locate_child hty (hslash r hr) hl hes (htype ▸ listed_of_excluded hent hname), if_pos hs]
      rfl
    constructor
    · intro htype
      have hfound : (⟨k, r ++ ent.dName ++ suffix .reg⟩ : ScanTask) ∈ found T.sys .reg ⟨k, r⟩ :=
        mem_below.mpr ⟨rfl, ent, htype ▸ hlisted, rfl⟩
      have hchecked := (hcomplete.checked.2 _).mpr ⟨_, hroot, hfound⟩
      refine hclean.handed _ ?_ _ (hloc (.inr rfl) htype) hex
      exact List.mem_append_left _ (List.mem_map_of_mem hchecked)
    · intro htype
      by_contra hne
      have hfound : (⟨k, r ++ ent.dName ++ suffix .dir⟩ : ScanTask) ∈ found T.sys .dir ⟨k, r⟩ :=
        mem_below.mpr ⟨rfl, ent, htype ▸ hlisted, rfl⟩
      have hkeep : validPath (r ++ ent.dName ++ suffix .dir) = true := by
        rw [List.append_assoc]
        exact validPath_below (hslash r hr) hvalid hne _
      have hvisited := (hcomplete.traversed.2 _).mpr (.child hroot hfound hkeep)
      exact hclean.visited _ hvisited _ (hloc (.inl rfl) htype) hex

theorem excluded_never_entered (T : FileTree) (rounds : List (List Str))
    (hslash : ∀ roots ∈ rounds, ∀ r ∈ roots, EndsInSlash r) :
    ((∀ roots ∈ rounds, ∀ r ∈ roots, StaysOut T r) →
      ∀ s : ScanState n, Reachable (program n T.sys rounds) s → Clean T s.shared.env) ∧
    ∀ roots, rounds = [roots] →
      ∀ s : ScanState n, ReachableBy (program n T.sys rounds) undisturbed s → ScanOver s →
        (Clean T s.shared.env ↔ ∀ r ∈ roots, StaysOut T r) := by
  have hclean (h : ∀ roots ∈ rounds, ∀ r ∈ roots, StaysOut T r) (s : ScanState n)
      (hs : Reachable (program n T.sys rounds) s) : Clean T s.shared.env :=
    clean_of_staysOut (fun roots hmem r hr => ⟨hslash roots hmem r hr, h roots hmem r hr⟩) hs
  refine ⟨hclean, ?_⟩
  rintro roots rfl s hs hover
  have hroots : ∀ r ∈ roots, EndsInSlash r := hslash roots (.head _)
  constructor
  · exact staysOut_of_clean hroots ((settled_of_scanOver hs hover).complete hroots)
  · intro h
    exact hclean (by simpa using h) s hs.any

def procNode (l : Loc) : Option (Node (Option (List Dirent)) (Option (List UInt8))) :=
  if l = [] then some (.dir true (some [⟨"x".toList, .reg⟩, ⟨"proc".toList, .dir⟩]))
  else if l = ["x".toList] then some (.file (some []))
  else if l = ["proc".toList] then some (.dir true (some []))
  else none

theorem procNode_dir {l : Loc} {b : Bool} {es : List Dirent} (h : procNode l = some (.dir b (some es))) :
    (l = [] ∧ es = [⟨"x".toList, .reg⟩, ⟨"proc".toList, .dir⟩]) ∨ es = [] := by
  unfold procNode at h
  split_ifs at h with hl
  · cases h
    exact .inl ⟨hl, rfl⟩
  · cases h
  · cases h
    exact .inr rfl

def procTree : FileTree where
  node := procNode
  named l c k h := by
    unfold procNode at h
    split_ifs at h with h0 hx hproc
    · simp at h0
    · obtain ⟨rfl, rfl⟩ : l = [] ∧ c = "x".toList := by simpa using List.append_eq_singleton_iff.mp hx
      decide
    · obtain ⟨rfl, rfl⟩ : l = [] ∧ c = "proc".toList := by
        simpa using List.append_eq_singleton_iff.mp hproc
      decide
  rootDir := rfl
  cwd := []
  cwdReal := .root
  maxLinks := 40
  names l b es h := by
    rcases procNode_dir h with ⟨_, rfl⟩ | rfl <;> decide
  accurate l b es h := by
    rcases procNode_dir h with ⟨rfl, rfl⟩ | rfl
    · intro e he _ _
      rcases List.mem_cons.mp he with rfl | he
      · exact ⟨by simp, fun _ => ⟨_, rfl⟩⟩
      · obtain rfl := List.mem_singleton.mp he
        exact ⟨fun _ => ⟨_, _, rfl⟩, by simp⟩
    · simp

def scanProc (root : Str) : Program 1 Client ScanTask ScanPc (Env 1) Answer ClientCode :=
  program 1 procTree.sys [[root]]

theorem excluded_never_entered_scanProc : ∃ s, Reachable (scanProc "/".toList) s ∧
    ⟨0, "/proc/".toList⟩ ∈ s.shared.env.skipped ∧ handed procTree.sys s.shared.env = ["/x".toList] ∧
    ∀ t ∈ s.shared.env.visited, ∀ l, procTree.locate t.path = some l → ¬ Excluded l := by
  have h : ((threads (scanProc "/".toList)).run Threads.anyStep (initial (scanProc "/".toList))
      (scanSteps (.client .main) 14 ++ scanSteps (.worker 0) 43)).map (fun s => decide
        (⟨0, "/proc/".toList⟩ ∈ s.shared.env.skipped ∧
          handed procTree.sys s.shared.env = ["/x".toList])) = some true := by decide
  obtain ⟨s, hs, hp⟩ := Threads.exists_steps_of_run h
  obtain ⟨hskip, hhanded⟩ := of_decide_eq_true hp
  have hslash : ∀ roots ∈ [["/".toList]], ∀ r ∈ roots, EndsInSlash r := by decide
  have hroots : ∀ roots ∈ [["/".toList]], ∀ r ∈ roots, StaysOut procTree r := by
    intro roots hr r hmem
    obtain rfl := List.mem_singleton.mp hr
    obtain rfl := List.mem_singleton.mp hmem
    right
    intro l hl
    have hroot : procTree.locate "/".toList = some [] := by decide
    rw [hroot] at hl
    cases hl
    refine ⟨not_excluded_nil, ?_⟩
    rintro _ _ es ⟨⟩
    decide
  exact ⟨s, hs, hskip, hhanded, ((excluded_never_entered procTree _ hslash).1 hroots s hs).visited⟩

theorem double_slash_enters_proc : (EndsInSlash "//".toList ∧ procTree.locate "//".toList = some [] ∧
      procTree.isDir [] = true) ∧
    ∃ s, Reachable (scanProc "//".toList) s ∧
      ∃ t ∈ s.shared.env.visited, ∃ l, procTree.locate t.path = some l ∧ Excluded l := by
  have h : ((threads (scanProc "//".toList)).run Threads.anyStep (initial (scanProc "//".toList))
      (scanSteps (.client .main) 14 ++ scanSteps (.worker 0) 43)).map (fun s => decide
        (⟨0, "//proc/".toList⟩ ∈ s.shared.env.visited)) = some true := by decide
  obtain ⟨s, hs, hp⟩ := Threads.exists_steps_of_run h
  refine ⟨by decide, s, hs, _, of_decide_eq_true hp, ["proc".toList], by decide, by decide⟩

end SysUtils.Scan

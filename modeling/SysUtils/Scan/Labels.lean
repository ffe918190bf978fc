import SysUtils.Scan.Completeness

namespace SysUtils.Scan

open Interleaving ThreadPool

variable {n n' : ℕ} {S : Sys} {roots : List Str} {ty : DType} {c t : ScanTask}
variable {hide hide' : Str → Str → Bool}

def mask (hide : Str → Str → Bool) (p : Str) (e : Dirent) : Dirent :=
  if hide p e.dName then { e with dType := .unknown } else e

theorem mask_dName (hide : Str → Str → Bool) (p : Str) (e : Dirent) : (mask hide p e).dName = e.dName := by
  unfold mask
  split_ifs <;> rfl

/-- The same file system, whose `readdir` leaves the types open of the entries that `hide` says. -/
def relabel (S : Sys) (hide : Str → Str → Bool) : Sys where
  readdir p := (S.readdir p).map (List.map (mask hide p))
  fopen := S.fopen
  realpath := S.realpath
  named p es h := by
    obtain ⟨es, hes, rfl⟩ := Option.map_eq_some_iff.mp h
    have hnames : (es.map (mask hide p)).map Dirent.dName = es.map Dirent.dName := by
      simp [Function.comp_def, mask_dName]
    obtain ⟨hnodup, hnamed⟩ := S.named p es hes
    refine ⟨hnames ▸ hnodup, ?_⟩
    intro e he
    obtain ⟨e₀, he₀, rfl⟩ := List.mem_map.mp he
    rw [mask_dName]
    exact hnamed e₀ he₀

theorem mem_found_relabel (hty : ty = .dir ∨ ty = .reg ∨ ty = .lnk) :
    c ∈ found (relabel S hide) ty t ↔ c.root = t.root ∧ ∃ e ∈ listed ty (S.listing t.path),
      hide t.path e.dName = false ∧ c.path = t.path ++ e.dName ++ suffix ty := by
  have hlisting : (relabel S hide).listing t.path = (S.listing t.path).map (mask hide t.path) := by
    unfold Sys.listing
    change ((S.readdir t.path).map (List.map (mask hide t.path))).getD [] = _
    cases S.readdir t.path <;> rfl
  have hunknown : DType.unknown ≠ ty := by
    rcases hty with rfl | rfl | rfl <;> decide
  unfold found
  rw [mem_below, hlisting]
  apply and_congr_right
  intro _
  constructor
  · rintro ⟨e, he, hpath⟩
    obtain ⟨hmem, hlisted⟩ := List.mem_filter.mp he
    obtain ⟨e₀, he₀, rfl⟩ := List.mem_map.mp hmem
    obtain ⟨hdot, hdots, htype⟩ := of_decide_eq_true hlisted
    rw [mask_dName] at hpath hdot hdots
    cases hhide : hide t.path e₀.dName with
    | true => exact absurd (by simpa [mask, hhide] using htype) hunknown
    | false =>
      have htype : e₀.dType = ty := by simpa [mask, hhide] using htype
      exact ⟨e₀, List.mem_filter.mpr ⟨he₀, decide_eq_true ⟨hdot, hdots, htype⟩⟩, hhide, hpath⟩
  · rintro ⟨e, he, hhide, hpath⟩
    obtain ⟨hmem, hlisted⟩ := List.mem_filter.mp he
    have hmask : mask hide t.path e = e := by simp [mask, hhide]
    exact ⟨e, List.mem_filter.mpr ⟨hmask ▸ List.mem_map_of_mem hmem, hlisted⟩, hpath⟩

def Env.examined (e : Env n) : DType → List ScanTask
  | .dir => e.visited
  | .reg => e.checked
  | .lnk => e.reloaded
  | _ => []

def SameScan (e : Env n) (e' : Env n') : Prop := ∀ ty c, c ∈ e.examined ty ↔ c ∈ e'.examined ty

def Examined (S : Sys) (roots : List Str) (ty : DType) (c : ScanTask) : Prop :=
  match ty with
  | .dir => Reached S roots c
  | .reg => ∃ t, Reached S roots t ∧ c ∈ found S .reg t
  | .lnk => ∃ t, Reached S roots t ∧ c ∈ found S .lnk t
  | _ => False

theorem Settled.mem_examined {e : Env n} (h : Settled S roots e) (ty : DType) (c : ScanTask) :
    c ∈ e.examined ty ↔ Examined S roots ty c := by
  have hentries {l : List ScanTask} {ty : DType}
      (hl : (l : Multiset ScanTask) = (e.visited : Multiset ScanTask).bind (found S ty)) :
      c ∈ l ↔ ∃ t, Reached S roots t ∧ c ∈ found S ty t := by
    rw [← Multiset.mem_coe, hl, Multiset.mem_bind]
    simp only [Multiset.mem_coe, h.mem_visited]
  cases ty with
  | dir => exact h.mem_visited c
  | reg => exact hentries h.files
  | lnk => exact hentries h.links
  | _ => simp [Env.examined, Examined]

theorem examined_of_found (hty : ty = .dir ∨ ty = .reg ∨ ty = .lnk) (ht : Reached S roots t)
    (hc : c ∈ found S ty t) (hvalid : ty = .dir → validPath c.path = true) : Examined S roots ty c := by
  rcases hty with rfl | rfl | rfl
  · exact .child ht hc (hvalid rfl)
  · exact ⟨t, ht, hc⟩
  · exact ⟨t, ht, hc⟩

theorem Examined.origin (h : Examined S roots ty c) :
    c ∈ rootTasks roots ∨ ∃ t, Reached S roots t ∧ c ∈ found S ty t := by
  cases ty with
  | dir =>
    cases h with
    | root ha _ => exact .inl (Multiset.mem_coe.mp ha)
    | child ht hc _ => exact .inr ⟨_, ht, hc⟩
  | reg => exact .inr h
  | lnk => exact .inr h
  | _ => cases h

def ShowsAt (S : Sys) (hide hide' : Str → Str → Bool) (t : ScanTask) : Prop :=
  ∀ ty, ty = .dir ∨ ty = .reg ∨ ty = .lnk → ∀ e ∈ listed ty (S.listing t.path),
    (ty = .dir → validPath (t.path ++ e.dName ++ suffix ty) = true) →
      hide' t.path e.dName = false → hide t.path e.dName = false

theorem Reached.shown (hshows : ∀ t, Reached (relabel S hide) roots t → ShowsAt S hide hide' t)
    (h : Reached (relabel S hide') roots t) : Reached (relabel S hide) roots t := by
  induction h with
  | root ha hk => exact .root ha hk
  | child _ hc hk ih =>
    obtain ⟨hroot, e, he, hhide, hpath⟩ := (mem_found_relabel (.inl rfl)).mp hc
    refine .child ih ((mem_found_relabel (.inl rfl)).mpr ⟨hroot, e, he, ?_, hpath⟩) hk
    exact hshows _ ih .dir (.inl rfl) e he (fun _ => hpath ▸ hk) hhide

theorem Examined.shown (hshows : ∀ t, Reached (relabel S hide) roots t → ShowsAt S hide hide' t)
    (h : Examined (relabel S hide') roots ty c) : Examined (relabel S hide) roots ty c := by
  have hentries (ty : DType) (hty : ty = .reg ∨ ty = .lnk)
      (h : ∃ t, Reached (relabel S hide') roots t ∧ c ∈ found (relabel S hide') ty t) :
      ∃ t, Reached (relabel S hide) roots t ∧ c ∈ found (relabel S hide) ty t := by
    obtain ⟨t, ht, hc⟩ := h
    have hr := ht.shown hshows
    obtain ⟨hroot, e, he, hhide, hpath⟩ := (mem_found_relabel (.inr hty)).mp hc
    refine ⟨t, hr, (mem_found_relabel (.inr hty)).mpr ⟨hroot, e, he, ?_, hpath⟩⟩
    refine hshows t hr ty (.inr hty) e he ?_ hhide
    rintro rfl
    simp at hty
  cases ty with
  | dir => exact Reached.shown hshows h
  | reg => exact hentries .reg (.inl rfl) h
  | lnk => exact hentries .lnk (.inr rfl) h
  | _ => cases h

theorem found_of_relabel (hty : ty = .dir ∨ ty = .reg ∨ ty = .lnk) (h : c ∈ found (relabel S hide) ty t) :
    c ∈ found S ty t := by
  obtain ⟨hroot, e, he, _, hpath⟩ := (mem_found_relabel hty).mp h
  exact mem_below.mpr ⟨hroot, e, he, hpath⟩

theorem found_of_examined (hty : ty = .dir ∨ ty = .reg ∨ ty = .lnk)
    (ht : Reached (relabel S hide) roots t) (hc : c ∈ found S ty t)
    (h : Examined (relabel S hide) roots ty c) : c ∈ found (relabel S hide) ty t := by
  obtain ⟨r, hr, hunder⟩ := ht.under
  have hroot : c.root = t.root := (mem_below.mp hc).1
  rcases h.origin with hmem | ⟨t', ht', hc'⟩
  · obtain ⟨k, hk, rfl⟩ := List.mem_mapIdx.mp hmem
    obtain ⟨d, hd, _⟩ := hunder
    have hlt := length_lt_of_found hc
    have hkr : k = t.root := hroot
    rw [← hkr, List.getElem?_eq_getElem hk] at hr
    cases hr
    rw [hd, List.length_append] at hlt
    exact absurd hlt (by simp)
  · obtain ⟨r', hr', hunder'⟩ := ht'.under
    have hfound' := found_of_relabel hty hc'
    have hroot' : c.root = t'.root := (mem_below.mp hfound').1
    rw [← hroot', hroot, hr] at hr'
    cases hr'
    rwa [parent_unique hunder hunder' hc hfound']

theorem showsAt_of_examined (ht : Reached (relabel S hide) roots t)
    (ht' : Reached (relabel S hide') roots t)
    (h : ∀ ty c, Examined (relabel S hide') roots ty c → Examined (relabel S hide) roots ty c) :
    ShowsAt S hide hide' t := by
  intro ty hty e he hvalid hhide
  have hfound : (⟨t.root, t.path ++ e.dName ++ suffix ty⟩ : ScanTask) ∈ found (relabel S hide') ty t :=
    (mem_found_relabel hty).mpr ⟨rfl, e, he, hhide, rfl⟩
  have hexamined := h ty _ (examined_of_found hty ht' hfound hvalid)
  have hfound' := found_of_examined hty ht (found_of_relabel hty hfound) hexamined
  obtain ⟨_, e', _, hhide', hpath⟩ := (mem_found_relabel hty).mp hfound'
  have hname : e.dName = e'.dName := by simpa using hpath
  rw [hname]
  exact hhide'

def either (hide hide' : Str → Str → Bool) (p c : Str) : Bool := hide p c || hide' p c

theorem ShowsAt.either_left : ShowsAt S hide (either hide hide') t := by
  intro ty _ e _ _ hshown
  exact (Bool.or_eq_false_iff.mp hshown).1

theorem ShowsAt.either_right : ShowsAt S hide' (either hide hide') t := by
  intro ty _ e _ _ hshown
  exact (Bool.or_eq_false_iff.mp hshown).2

def SameAt (S : Sys) (hide hide' : Str → Str → Bool) (t : ScanTask) : Prop :=
  ShowsAt S hide hide' t ∧ ShowsAt S hide' hide t

theorem examined_eq_iff :
    (∀ ty c, Examined (relabel S hide) roots ty c ↔ Examined (relabel S hide') roots ty c) ↔
      ∀ t, Reached (relabel S (either hide hide')) roots t → SameAt S hide hide' t := by
  constructor
  · intro h t ht
    have hl : Reached (relabel S hide) roots t := ht.shown fun _ _ => ShowsAt.either_left
    have hr : Reached (relabel S hide') roots t := ht.shown fun _ _ => ShowsAt.either_right
    exact ⟨showsAt_of_examined hl hr fun ty c => (h ty c).mpr,
      showsAt_of_examined hr hl fun ty c => (h ty c).mp⟩
  · intro h ty c
    have hl (t : ScanTask) (ht : Reached (relabel S (either hide hide')) roots t) :
        ShowsAt S (either hide hide') hide t := by
      intro ty hty e he hvalid hshown
      exact Bool.or_eq_false_iff.mpr ⟨hshown, (h t ht).2 ty hty e he hvalid hshown⟩
    have hr (t : ScanTask) (ht : Reached (relabel S (either hide hide')) roots t) :
        ShowsAt S (either hide hide') hide' t := by
      intro ty hty e he hvalid hshown
      exact Bool.or_eq_false_iff.mpr ⟨(h t ht).1 ty hty e he hvalid hshown, hshown⟩
    constructor
    · intro hc
      exact (hc.shown hl).shown fun _ _ => ShowsAt.either_right
    · intro hc
      exact (hc.shown hr).shown fun _ _ => ShowsAt.either_left

theorem same_scan_iff (S : Sys) (hide hide' : Str → Str → Bool) (roots : List Str) {s : ScanState n}
    {s' : ScanState n'} (hs : ReachableBy (program n (relabel S hide) [roots]) undisturbed s)
    (hs' : ReachableBy (program n' (relabel S hide') [roots]) undisturbed s') (hover : ScanOver s)
    (hover' : ScanOver s') : SameScan s.shared.env s'.shared.env ↔
      ∀ t, Reached (relabel S (either hide hide')) roots t → SameAt S hide hide' t := by
  have hmem := (settled_of_scanOver hs hover).mem_examined
  have hmem' := (settled_of_scanOver hs' hover').mem_examined
  rw [← examined_eq_iff]
  unfold SameScan
  simp only [hmem, hmem']

def labeledSteps (i : Fin n) (k : ℕ) : List (Thread n Client × Choice n Client Answer) :=
  scanSteps (.client .main) 14 ++ scanSteps (.worker i) k ++ scanSteps (.client .notifier) 5

def besideProc : Sys where
  readdir p := if p = "/".toList then some [⟨"x".toList, .reg⟩, ⟨"proc".toList, .dir⟩] else none
  fopen _ := none
  realpath _ := none
  named p es h := by
    cases (Option.ite_none_right_eq_some.mp h).2
    decide

def scanBesideProc (n : ℕ) (hide : Str → Str → Bool) :
    Program n Client ScanTask ScanPc (Env n) Answer ClientCode :=
  program n (relabel besideProc hide) [["/".toList]]

def hideProc (_ c : Str) : Bool := c == "proc".toList

theorem same_scan_iff_hideProc : ∃ s s', ReachableBy (scanBesideProc 1 fun _ _ => false) undisturbed s ∧
    ReachableBy (scanBesideProc 2 hideProc) undisturbed s' ∧ s.shared.env.skipped ≠ s'.shared.env.skipped ∧
    s.shared.env.checked = [⟨0, "/x".toList⟩] ∧ SameScan s.shared.env s'.shared.env := by
  have h : ((threads (scanBesideProc 1 fun _ _ => false)).run undisturbed
      (initial (scanBesideProc 1 fun _ _ => false)) (labeledSteps 0 43)).map (fun s => decide
        (s.shared.env.notifier = .finished ∧ s.shared.env.skipped = [⟨0, "/proc/".toList⟩] ∧
          s.shared.env.checked = [⟨0, "/x".toList⟩])) = some true := by decide
  have h' : ((threads (scanBesideProc 2 hideProc)).run undisturbed
      (initial (scanBesideProc 2 hideProc)) (labeledSteps 1 24)).map (fun s => decide
        (s.shared.env.notifier = .finished ∧ s.shared.env.skipped = [])) = some true := by decide
  obtain ⟨s, hs, hp⟩ := Threads.exists_steps_of_run h
  obtain ⟨s', hs', hp'⟩ := Threads.exists_steps_of_run h'
  obtain ⟨hover, hskipped, hchecked⟩ := of_decide_eq_true hp
  obtain ⟨hover', hskipped'⟩ := of_decide_eq_true hp'
  refine ⟨s, s', hs, hs', by simp [hskipped, hskipped'], hchecked, ?_⟩
  apply (same_scan_iff besideProc _ _ _ hs hs' (.inr hover) (.inr hover')).mpr
  intro t _
  refine ⟨fun _ _ _ _ _ _ => rfl, ?_⟩
  intro ty _ e he hvalid _
  obtain ⟨hmem, hlisted⟩ := List.mem_filter.mp he
  by_cases ht : t.path = "/".toList
  · rw [ht] at hmem hvalid ⊢
    have hentries : besideProc.listing "/".toList = [⟨"x".toList, .reg⟩, ⟨"proc".toList, .dir⟩] := rfl
    rw [hentries] at hmem
    rcases List.mem_cons.mp hmem with rfl | hmem
    · rfl
    · obtain rfl := List.mem_singleton.mp hmem
      obtain rfl : DType.dir = ty := (of_decide_eq_true hlisted).2.2
      exact absurd (hvalid rfl) (by decide)
  · have hnone : besideProc.listing t.path = [] := congrArg (Option.getD · []) (if_neg ht)
    rw [hnone] at hmem
    cases hmem

def scanLabeled (hide : Str → Str → Bool) : Program 1 Client ScanTask ScanPc (Env 1) Answer ClientCode :=
  program 1 (relabel oneExecutable hide) [["/a/".toList]]

theorem unknown_type_skips_file : ∃ s s',
    ReachableBy (scanLabeled fun _ _ => false) undisturbed s ∧ ScanOver s ∧
      ReachableBy (scanLabeled fun _ c => c == "x".toList) undisturbed s' ∧ ScanOver s' ∧
        ¬ SameScan s.shared.env s'.shared.env := by
  have h : ((threads (scanLabeled fun _ _ => false)).run undisturbed
      (initial (scanLabeled fun _ _ => false)) (labeledSteps 0 22)).map (fun s => decide
        (s.shared.env.notifier = .finished ∧ s.shared.env.checked = [⟨0, "/a/x".toList⟩])) =
          some true := by decide
  have h' : ((threads (scanLabeled fun _ c => c == "x".toList)).run undisturbed
      (initial (scanLabeled fun _ c => c == "x".toList)) (labeledSteps 0 22)).map (fun s => decide
        (s.shared.env.notifier = .finished ∧ s.shared.env.checked = [])) = some true := by decide
  obtain ⟨s, hs, hp⟩ := Threads.exists_steps_of_run h
  obtain ⟨s', hs', hp'⟩ := Threads.exists_steps_of_run h'
  obtain ⟨hover, hchecked⟩ := of_decide_eq_true hp
  obtain ⟨hover', hchecked'⟩ := of_decide_eq_true hp'
  refine ⟨s, s', hs, .inr hover, hs', .inr hover', ?_⟩
  intro hsame
  have hmem := (hsame .reg ⟨0, "/a/x".toList⟩).mp (by simp [Env.examined, hchecked])
  simp [Env.examined, hchecked'] at hmem

end SysUtils.Scan

import SysUtils.Paths.Names
import SysUtils.Scan.Exclusion

namespace SysUtils.Scan

open Interleaving ThreadPool Paths

variable {n : ℕ} {S : Sys} {T : FileTree} {given : Str → Prop} {roots : List Str} {ty : DType}
variable {path p : Str} {e : Dirent} {t : ScanTask}

def putOut (path : Str) (e : Dirent) (ty : DType) : List Str := (({} : Out).add path e).of ty

def Denotes (T : FileTree) (path : Str) (e : Dirent) (p : Str) : Prop :=
  ∃ l q, T.locate path = some l ∧ T.entry q = some (l, e.dName) ∧ p = q ++ suffix e.dType

structure Named (T : FileTree) (s : ScanState n) : Prop where
  collected : ∀ i job, (scanView s).loc (.worker i) = some job → ∀ ty, ∀ p ∈ job.pos.collected.of ty,
    ∃ e ∈ T.sys.listing job.task.path, p ∈ putOut job.task.path e ty ∧ Denotes T job.task.path e p
  denotes : ∀ t ∈ s.shared.env.visited, ∀ e ∈ T.sys.listing t.path, ∀ ty, ∀ p ∈ putOut t.path e ty,
    Denotes T t.path e p
  distinct : ∀ t ∈ s.shared.env.visited, ∀ e ∈ T.sys.listing t.path, ∀ e' ∈ T.sys.listing t.path,
    ∀ ty ty' p, p ∈ putOut t.path e ty → p ∈ putOut t.path e' ty' → e = e'

def NamesRoot (T : FileTree) (r : Str) : Prop :=
  EndsInSlash r ∨ validPath r = false ∨
    ∀ ty, ty = .dir ∨ ty = .reg ∨ ty = .lnk → listed ty (T.sys.listing r) = []

theorem Out.type_of_mem {out : Out} (h : p ∈ out.of ty) : ty = .dir ∨ ty = .reg ∨ ty = .lnk := by
  cases ty <;> simp [Out.of] at h ⊢

theorem mem_putOut (hty : ty = .dir ∨ ty = .reg ∨ ty = .lnk) :
    p ∈ putOut path e ty ↔ e ∈ listed ty [e] ∧ p = path ++ e.dName ++ suffix ty := by
  have htag := Out.tag_add {} ⟨0, path⟩ e hty
  have hempty : tag ⟨0, path⟩ (({} : Out).of ty) = 0 := by
    rcases hty with rfl | rfl | rfl <;> rfl
  rw [hempty, zero_add] at htag
  have hmem : p ∈ putOut path e ty ↔ (⟨0, p⟩ : ScanTask) ∈ tag ⟨0, path⟩ (putOut path e ty) := by
    simp [tag]
  rw [hmem, putOut, htag, mem_below]
  constructor
  · rintro ⟨_, e', he', hp⟩
    obtain rfl := List.mem_singleton.mp (List.mem_of_mem_filter he')
    exact ⟨he', hp⟩
  · rintro ⟨he, hp⟩
    exact ⟨rfl, e, he, hp⟩

theorem mem_putOut_of_listed (path : Str) (hty : ty = .dir ∨ ty = .reg ∨ ty = .lnk) {es : List Dirent}
    (he : e ∈ listed ty es) : path ++ e.dName ++ suffix ty ∈ putOut path e ty :=
  (mem_putOut hty).mpr ⟨List.mem_filter.mpr ⟨.head _, (List.mem_filter.mp he).2⟩, rfl⟩

theorem listed_of_putOut {es : List Dirent} (he : e ∈ es) (hp : p ∈ putOut path e ty) :
    e ∈ listed ty es ∧ e.dType = ty ∧ p = path ++ e.dName ++ suffix ty := by
  obtain ⟨hone, rfl⟩ := (mem_putOut (Out.type_of_mem hp)).mp hp
  have hlisted := (List.mem_filter.mp hone).2
  exact ⟨List.mem_filter.mpr ⟨he, hlisted⟩, (of_decide_eq_true hlisted).2.2, rfl⟩

theorem denotes_of_slash (hpath : EndsInSlash path) (he : e ∈ T.sys.listing path)
    (hp : p ∈ putOut path e ty) : Denotes T path e p := by
  obtain ⟨l, _, hl, _, _⟩ := listing_of_mem he
  obtain ⟨hlisted, htype, rfl⟩ := listed_of_putOut he hp
  obtain ⟨hne, hslash⟩ := named_of_listed hlisted
  refine ⟨l, path ++ e.dName, hl, ?_, by rw [htype]⟩
  rw [Tree.entry_append hpath hslash hne, hl]
  rfl

theorem slash_of_denotes (he : e ∈ T.sys.listing path) (hp : p ∈ putOut path e ty)
    (h : Denotes T path e p) : EndsInSlash path := by
  obtain ⟨l, q, hl, hq, hpq⟩ := h
  obtain ⟨hlisted, htype, rfl⟩ := listed_of_putOut he hp
  rw [htype] at hpq
  rw [← List.append_cancel_right hpq] at hq
  rcases Tree.dir_of_entry (named_of_listed hlisted).2 hq with hnil | hslash
  · rw [hnil] at hl
    cases hl
  · exact hslash

theorem eq_of_append_suffix {ty' : DType} {a b : Str} (ha : '/' ∉ a) (hb : '/' ∉ b)
    (h : a ++ suffix ty = b ++ suffix ty') : a = b := by
  have hsuffix (ty : DType) : suffix ty = [] ∨ suffix ty = ['/'] := by
    cases ty <;> simp [suffix]
  rcases hsuffix ty with h1 | h1 <;> rcases hsuffix ty' with h2 | h2 <;> rw [h1, h2] at h
  · simpa using h
  · exact absurd (by simpa using h) (ne_of_mem_of_not_mem' (by simp : '/' ∈ b ++ ['/']) ha).symm
  · exact absurd (by simpa using h) (ne_of_mem_of_not_mem' (by simp : '/' ∈ a ++ ['/']) hb)
  · exact List.append_cancel_right h

theorem eq_of_putOut {e' : Dirent} {ty' : DType} (he : e ∈ T.sys.listing path)
    (he' : e' ∈ T.sys.listing path) (hp : p ∈ putOut path e ty) (hp' : p ∈ putOut path e' ty') :
    e = e' := by
  obtain ⟨hlisted, _, rfl⟩ := listed_of_putOut he hp
  obtain ⟨hlisted', _, heq⟩ := listed_of_putOut he' hp'
  have hcut : e.dName ++ suffix ty = e'.dName ++ suffix ty' := by simpa using heq
  have hname := eq_of_append_suffix (named_of_listed hlisted).2 (named_of_listed hlisted').2 hcut
  obtain ⟨l, es, hl, hes, hlist⟩ := listing_of_mem he
  obtain ⟨b, hn⟩ := T.listingAt_eq_some hes
  rw [hlist] at he he'
  exact List.inj_on_of_nodup_map (T.names l b es hn).1 he he' hname

theorem Spawned.slash_or_given (h : Spawned S given t) : EndsInSlash t.path ∨ given t.path := by
  cases h with
  | root k hr => exact .inr hr
  | child _ _ hc =>
    obtain ⟨_, e, _, hpath⟩ := mem_below.mp hc
    rw [hpath]
    exact .inl (endsInSlash_append _)

theorem slash_of_putOut (ht : Spawned T.sys (fun r => given r ∧ NamesRoot T r) t)
    (hvalid : validPath t.path = true) (he : e ∈ T.sys.listing t.path) (hp : p ∈ putOut t.path e ty) :
    EndsInSlash t.path := by
  rcases ht.slash_or_given with hslash | ⟨_, hslash | hturned | hnone⟩
  · exact hslash
  · exact hslash
  · simp [hvalid] at hturned
  · have hlisted := (listed_of_putOut he hp).1
    rw [hnone ty (Out.type_of_mem hp)] at hlisted
    cases hlisted

theorem named_of_namesRoot {rounds : List (List Str)}
    (hroots : ∀ roots ∈ rounds, ∀ r ∈ roots, NamesRoot T r) {s : ScanState n}
    (hs : Reachable (program n T.sys rounds) s) : Named T s := by
  have horigins : Origins T.sys (fun r => True ∧ NamesRoot T r) (scanView s) :=
    origins_run hs fun roots hmem r hr => ⟨trivial, hroots roots hmem r hr⟩
  constructor
  · intro i job hjob ty p hp
    have ho := horigins.jobs i job hjob
    have hty := Out.type_of_mem hp
    have hstart : job.pos ≠ .start := by
      intro hstart
      rw [hstart] at hp
      rcases hty with rfl | rfl | rfl <;> cases hp
    have hfound := ho.collected ty hty ⟨job.task.root, p⟩ (Multiset.mem_coe.mpr (List.mem_map_of_mem hp))
    obtain ⟨_, e, he, rfl⟩ := mem_below.mp hfound
    have hmem := List.mem_of_mem_filter he
    have hout := mem_putOut_of_listed job.task.path hty he
    exact ⟨e, hmem, hout, denotes_of_slash (slash_of_putOut ho.task (ho.valid hstart) hmem hout) hmem hout⟩
  · intro t ht e he ty p hp
    obtain ⟨hspawned, hvalid⟩ := horigins.lists.visited t ht
    exact denotes_of_slash (slash_of_putOut hspawned hvalid he hp) he hp
  · intro t _ e he e' he' ty ty' p hp hp'
    exact eq_of_putOut he he' hp hp'

theorem namesRoot_of_named {s : ScanState n} (hsettled : Settled T.sys roots s.shared.env)
    (h : Named T s) : ∀ r ∈ roots, NamesRoot T r := by
  intro r hr
  obtain ⟨k, hmem⟩ := exists_rootTask hr
  by_contra hnot
  unfold NamesRoot at hnot
  push Not at hnot
  obtain ⟨hslash, hvalid, ty, hty, hne⟩ := hnot
  have hvisited := (hsettled.mem_visited _).mpr (.root hmem (by simpa using hvalid))
  obtain ⟨e, he⟩ := List.exists_mem_of_ne_nil _ hne
  have hout := mem_putOut_of_listed r hty he
  have hmem := List.mem_of_mem_filter he
  exact hslash (slash_of_denotes hmem hout (h.denotes _ hvisited e hmem ty _ hout))

theorem paths_name_entries (T : FileTree) (rounds : List (List Str)) :
    ((∀ roots ∈ rounds, ∀ r ∈ roots, NamesRoot T r) →
      ∀ s : ScanState n, Reachable (program n T.sys rounds) s → Named T s) ∧
    ∀ roots, rounds = [roots] →
      ∀ s : ScanState n, ReachableBy (program n T.sys rounds) undisturbed s → ScanOver s →
        (Named T s ↔ ∀ r ∈ roots, NamesRoot T r) := by
  refine ⟨fun h s hs => named_of_namesRoot h hs, ?_⟩
  rintro roots rfl s hs hover
  constructor
  · exact namesRoot_of_named (settled_of_scanOver hs hover)
  · intro h
    exact named_of_namesRoot (by simpa using h) hs.any

theorem paths_name_entries_scanProc : ∃ s, Reachable (scanProc "/".toList) s ∧ Named procTree s ∧
    ⟨0, "/".toList⟩ ∈ s.shared.env.visited := by
  have h : ((threads (scanProc "/".toList)).run Threads.anyStep (initial (scanProc "/".toList))
      (scanSteps (.client .main) 14 ++ scanSteps (.worker 0) 40)).map (fun s => decide
        (⟨0, "/".toList⟩ ∈ s.shared.env.visited)) = some true := by decide
  obtain ⟨s, hs, hp⟩ := Threads.exists_steps_of_run h
  have hroots : ∀ roots ∈ [["/".toList]], ∀ r ∈ roots, NamesRoot procTree r := by
    intro roots hr r hmem
    obtain rfl := List.mem_singleton.mp hr
    obtain rfl := List.mem_singleton.mp hmem
    exact .inl (by decide)
  exact ⟨s, hs, (paths_name_entries procTree _).1 hroots s hs, of_decide_eq_true hp⟩

theorem dot_root_misnames : procTree.locate ".".toList = some [] ∧ procTree.isDir [] = true ∧
    ∃ s, Reachable (scanProc ".".toList) s ∧ ¬ Named procTree s := by
  have h : ((threads (scanProc ".".toList)).run Threads.anyStep (initial (scanProc ".".toList))
      (scanSteps (.client .main) 14 ++ scanSteps (.worker 0) 40)).map (fun s => decide
        (⟨0, ".".toList⟩ ∈ s.shared.env.visited)) = some true := by decide
  obtain ⟨s, hs, hp⟩ := Threads.exists_steps_of_run h
  refine ⟨by decide, by decide, s, hs, ?_⟩
  intro hnamed
  have hdenotes := hnamed.denotes _ (of_decide_eq_true hp) ⟨"x".toList, .reg⟩ (by decide) .reg ".x".toList
    (by decide)
  obtain ⟨l, q, _, hq, hpq⟩ := hdenotes
  obtain rfl : q = ".x".toList := by simpa [suffix] using hpq.symm
  have hentry : procTree.entry ".x".toList = some ([], ".x".toList) := by decide
  rw [hentry] at hq
  cases hq

end SysUtils.Scan

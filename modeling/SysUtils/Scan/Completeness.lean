import SysUtils.Scan.Ledgers

namespace SysUtils.Scan

open Interleaving ThreadPool

variable {n : ℕ} {S : Sys} {roots : List Str}

def OnceEach {α : Type} (l : List α) (p : α → Prop) : Prop := l.Nodup ∧ ∀ a, a ∈ l ↔ p a

structure Complete (S : Sys) (roots : List Str) (e : Env n) : Prop where
  traversed : OnceEach e.visited (Reached S roots)
  checked : OnceEach e.checked fun f => ∃ t, Reached S roots t ∧ f ∈ found S .reg t
  reloaded : OnceEach e.reloaded fun f => ∃ t, Reached S roots t ∧ f ∈ found S .lnk t
  counted : roots.length + (e.visited.map (entryCount S)).sum < 2 ^ 31 →
    e.fileCounts.toInt = roots.length + (e.visited.map (entryCount S)).sum

theorem Balanced.settled {M : Type} [AddCancelCommMonoid M] {f : Job ScanTask ScanPc → M}
    {g : Session ScanTask MainPc → M} {credit due : Progress → M} {w : ScanView n}
    (h : Balanced f g credit due w) (hmain : (w.loc (.client .main)).elim 0 g = 0)
    (hjobs : ∀ i, w.loc (.worker i) = none) : credit (progress w.shared) = due (progress w.shared) := by
  have htotal : total scanner (books f g) w = 0 := by
    apply Finset.sum_eq_zero
    intro k _
    cases k with
    | none => exact hmain
    | some i =>
      change (w.loc (.worker i)).elim 0 f = 0
      rw [hjobs i]
      rfl
  unfold Balanced Balances at h
  rw [htotal, zero_add] at h
  exact h

theorem finished_of_balance {e : Env n} (hvalid : ∀ t ∈ e.visited, validPath t.path = true)
    (hskipped : ∀ t ∈ e.skipped, validPath t.path = false)
    (hb : (e.visited : Multiset ScanTask) + e.skipped =
      rootTasks roots + (e.visited : Multiset ScanTask).bind (found S .dir)) :
    Worklist.Finished (rootTasks roots : Multiset ScanTask) (found S .dir)
      (fun t => validPath t.path = true) e.visited e.skipped :=
  ⟨hb, fun t ht => hvalid t (Multiset.mem_coe.mp ht), fun t ht => by
    simp [hskipped t (Multiset.mem_coe.mp ht)]⟩

theorem Partial.traversed {visited : Multiset ScanTask} (hroots : ∀ r ∈ roots, EndsInSlash r)
    (h : Worklist.Partial (rootTasks roots : Multiset ScanTask) (found S .dir)
      (fun t => validPath t.path = true) visited) : visited.Nodup := by
  apply h.nodup (fun _ _ => length_lt_of_found) (rootTasks_nodup roots)
  · intro t _
    exact found_nodup S .dir t
  · intro a b c ha hb hca hcb
    have ha := (Reached.endsInSlash hroots ha).1
    have hb := (Reached.endsInSlash hroots hb).1
    exact parent_unique (under_nil ha) (under_nil hb) hca hcb
  · intro a c ha hc hroot
    obtain ⟨_, r, hr, hle⟩ := Reached.endsInSlash hroots ha
    obtain ⟨k, hk, rfl⟩ := List.mem_mapIdx.mp (Multiset.mem_coe.mp hroot)
    have hlt := length_lt_of_found hc
    have hka : k = a.root := (mem_below.mp hc).1
    rw [← hka, List.getElem?_eq_getElem hk] at hr
    cases hr
    exact absurd hle (Nat.not_le.mpr hlt)

theorem traversed_once {visited skipped : List ScanTask} (hroots : ∀ r ∈ roots, EndsInSlash r)
    (h : Worklist.Finished (rootTasks roots : Multiset ScanTask) (found S .dir)
      (fun t => validPath t.path = true) visited skipped) : OnceEach visited (Reached S roots) :=
  ⟨Multiset.coe_nodup.mp (Partial.traversed hroots h.toPartial),
    fun _ => h.mem_iff fun _ _ => length_lt_of_found⟩

theorem bind_found_nodup {visited : Multiset ScanTask} (ty : DType) (hroots : ∀ r ∈ roots, EndsInSlash r)
    (hnodup : visited.Nodup) (hreached : ∀ t ∈ visited, Reached S roots t) :
    (visited.bind (found S ty)).Nodup := by
  apply Worklist.nodup_bind hnodup (fun t _ => found_nodup S ty t)
  intro a ha b hb c hca hcb
  have ha := (Reached.endsInSlash hroots (hreached a ha)).1
  have hb := (Reached.endsInSlash hroots (hreached b hb)).1
  exact parent_unique (under_nil ha) (under_nil hb) hca hcb

theorem entries_once {ty : DType} {visited handled : List ScanTask}
    (hroots : ∀ r ∈ roots, EndsInSlash r) (h : OnceEach visited (Reached S roots))
    (hb : (handled : Multiset ScanTask) = (visited : Multiset ScanTask).bind (found S ty)) :
    OnceEach handled fun f => ∃ t, Reached S roots t ∧ f ∈ found S ty t := by
  constructor
  · rw [← Multiset.coe_nodup, hb]
    exact bind_found_nodup ty hroots (Multiset.coe_nodup.mpr h.1) fun t ht => (h.2 t).mp ht
  · intro f
    rw [← Multiset.mem_coe, hb, Multiset.mem_bind]
    simp only [Multiset.mem_coe, h.2]

theorem mainOwes_of_off {l : Session ScanTask MainPc} {ty : DType}
    (hpend : ∀ t, l.pending = some t → l.pos.pushing = true) (hoff : l.pos.recorderOff = false) :
    mainOwes roots ty l = 0 ∧ mainUncounted roots l = 0 := by
  obtain ⟨k, p⟩ := l
  have hp : p = none := by
    cases p with
    | none => rfl
    | some t => exact absurd (ofMain_pushing (hpend t rfl)).1 (by simpa using hoff)
  subst hp
  cases k <;> first | cases hoff | skip
  all_goals exact ⟨by cases ty <;> rfl, rfl⟩

structure Settled (S : Sys) (roots : List Str) (e : Env n) : Prop where
  dirs : Worklist.Finished (rootTasks roots : Multiset ScanTask) (found S .dir)
    (fun t => validPath t.path = true) e.visited e.skipped
  files : (e.checked : Multiset ScanTask) = (e.visited : Multiset ScanTask).bind (found S .reg)
  links : (e.reloaded : Multiset ScanTask) = (e.visited : Multiset ScanTask).bind (found S .lnk)
  count : e.fileCounts = BitVec.ofNat 32 (roots.length + (e.visited.map (entryCount S)).sum)

theorem settled_of_owes {s : ScanState n} (hs : ReachableBy (program n S [roots]) undisturbed s)
    (hidle : Idle s) (howes : ∀ ty, ((scanView s).loc (.client .main)).elim 0 (mainOwes roots ty) = 0 ∧
      ((scanView s).loc (.client .main)).elim 0 (mainUncounted roots) = 0) :
    Settled S roots s.shared.env := by
  have hjobs (i : Fin n) : (scanView s).loc (.worker i) = none := hidle.job _ i
  have horigins : Origins S (fun _ => True) (scanView s) := origins_run hs fun _ _ _ _ => trivial
  have hlists := horigins.lists
  have hcount := (count_run hs).settled (howes .dir).2 hjobs
  have hdirs := (entries_run hs (.inl rfl)).settled (howes .dir).1 hjobs
  have hfiles := (entries_run hs (.inr (.inl rfl))).settled (howes .reg).1 hjobs
  have hlinks := (entries_run hs (.inr (.inr rfl))).settled (howes .lnk).1 hjobs
  have hempty : (scanView s).shared.tasks = [] := hidle.1
  simp only [progress, Progress.handled, Progress.entries, startWith, hempty, Multiset.coe_nil,
    zero_add] at hdirs hfiles hlinks
  exact ⟨finished_of_balance (fun t ht => (hlists.visited t ht).2) hlists.skipped hdirs, hfiles, hlinks,
    hcount⟩

theorem settled_of_idle {s : ScanState n} (hs : ReachableBy (program n S [roots]) undisturbed s)
    (hidle : Idle s) (hoff : ofMain MainPc.recorderOff ((scanView s).loc (.client .main)) = false) :
    Settled S roots s.shared.env := by
  apply settled_of_owes hs hidle
  intro ty
  cases hm : (scanView s).loc (.client .main) with
  | none => exact ⟨rfl, rfl⟩
  | some l =>
    rw [hm] at hoff
    refine mainOwes_of_off ?_ hoff
    intro t ht
    exact (scan_phases hs).pending l.pos t (by rw [hm, ← ht])

theorem Settled.mem_visited {e : Env n} (h : Settled S roots e) (t : ScanTask) :
    t ∈ e.visited ↔ Reached S roots t :=
  h.dirs.mem_iff fun _ _ => length_lt_of_found

theorem Settled.complete {e : Env n} (h : Settled S roots e) (hroots : ∀ r ∈ roots, EndsInSlash r) :
    Complete S roots e := by
  have htraversed := traversed_once hroots h.dirs
  refine ⟨htraversed, entries_once hroots htraversed h.files, entries_once hroots htraversed h.links, ?_⟩
  intro hfits
  have hnat : e.fileCounts.toNat = roots.length + (e.visited.map (entryCount S)).sum := by
    rw [h.count, BitVec.toNat_ofNat]
    exact Nat.mod_eq_of_lt (by omega)
  rw [BitVec.toInt_eq_toNat_of_lt (by omega), hnat]
  push_cast
  rfl

theorem returnsLast_run {s : ScanState n} (h : ReachableBy (program n S [roots]) undisturbed s) :
    ReachableBy (program n S [roots]) (returnsLast S) s := by
  apply Threads.Steps.strengthen h
  intro u i x hu _ _ _ hempty _ j job hj
  obtain ⟨infos, hl⟩ := hempty
  have hr : u.shared.env.running = false := (accounted_run hu _ hl).stopped rfl
  have hnone : (scanView u).loc (.worker j) = none := (idle_of_notRunning hu hr).job _ j
  rw [hnone] at hj
  cases hj

def notifierAt (s : ScanState n) : Option (Session ScanTask NotifierPc) :=
  (scanView s).loc (.client .notifier)

def ScanOver (s : ScanState n) : Prop :=
  (∃ l, notifierAt s = some l ∧ l.pos.past = true) ∨ s.shared.env.notifier = .finished

theorem off_of_scanOver {rounds : List (List Str)} {s : ScanState n}
    (h : Reachable (program n S rounds) s) (hover : ScanOver s) : Idle s ∧
      ofMain MainPc.recorderOff ((scanView s).loc (.client .main)) = false := by
  have hp := scan_phases h
  have hstarted : s.shared.env.notifier ≠ .notJoinable := by
    rcases hover with ⟨l, hl, hpast⟩ | hfin
    · rw [hp.notifierIdle l hl (NotifierPc.ne_idle_of_past hpast)]
      simp
    · simp [hfin]
  have hoff : ofMain MainPc.notifierOff ((scanView s).loc (.client .main)) = false := by
    by_contra hne
    exact hstarted (hp.notifierOff.mp (by simpa using hne))
  constructor
  · rcases hover with ⟨l, hl, hpast⟩ | hfin
    · exact hp.past l hl hpast
    · exact hp.finished hfin
  · cases hm : (scanView s).loc (.client .main) with
    | none =>
      rw [hm] at hoff
      cases hoff
    | some l =>
      rw [hm] at hoff
      obtain ⟨k, p⟩ := l
      cases k <;> first | cases hoff | skip
      rename_i rest
      cases rest with
      | none => cases hoff
      | some rest => rfl

theorem settled_of_scanOver {s : ScanState n} (hs : ReachableBy (program n S [roots]) undisturbed s)
    (hover : ScanOver s) : Settled S roots s.shared.env := by
  obtain ⟨hidle, hoff⟩ := off_of_scanOver hs.any hover
  exact settled_of_idle hs hidle hoff

theorem scan_complete (S : Sys) (roots : List Str) (hroots : ∀ r ∈ roots, EndsInSlash r)
    {s : ScanState n} (hs : ReachableBy (program n S [roots]) undisturbed s) :
    (ScanOver s → Complete S roots s.shared.env) ∧
    (s.shared.env.dbRecorder = .finished → Complete S roots s.shared.env ∧
      s.shared.env.fileInfos = [] ∧ s.shared.env.drained = s.shared.env.appended) := by
  constructor
  · intro hover
    exact (settled_of_scanOver hs hover).complete hroots
  · intro hfin
    have hret := returned_run (returnsLast_run hs) hfin
    refine ⟨?_, hret.empty, hret.drained⟩
    refine (settled_of_idle hs (idle_of_notRunning hs hret.notRunning) ?_).complete hroots
    by_contra hne
    have hoff := (scan_phases hs).recorderOff.mp (by simpa using hne)
    rw [hfin] at hoff
    cases hoff

theorem scan_complete_scanOne : ∃ s, ReachableBy scanOne undisturbed s ∧
    ScanOver s ∧ Complete oneExecutable ["/a/".toList] s.shared.env ∧ s.shared.env.fileCounts = 2 ∧
    s.shared.env.drained ≠ [] ∧ s.shared.env.drained = s.shared.env.appended := by
  have h : ((threads scanOne).run undisturbed (initial scanOne)
      (scanSteps (.client .main) 14 ++ scanSteps (.worker 0) 22 ++ scanSteps (.client .notifier) 5 ++
        scanSteps (.client .recorder) 10)).map (fun s => decide
          (s.shared.env.notifier = .finished ∧ s.shared.env.dbRecorder = .finished ∧
            s.shared.env.fileCounts = 2 ∧ s.shared.env.drained ≠ [])) = some true := by decide
  obtain ⟨s, hs, hp⟩ := Threads.exists_steps_of_run h
  obtain ⟨hnot, hrec, hcount, hne⟩ := of_decide_eq_true hp
  have hroots : ∀ r ∈ ["/a/".toList], EndsInSlash r := by decide
  obtain ⟨hover, hdrained⟩ := scan_complete oneExecutable _ hroots hs
  exact ⟨s, hs, .inr hnot, hover (.inr hnot), hcount, hne, (hdrained hrec).2.2⟩

end SysUtils.Scan

import SysUtils.Scan.Effort
import SysUtils.Scan.Helpers
import SysUtils.Scan.Locks

namespace SysUtils.Scan

open Interleaving ThreadPool

variable {n : ℕ} {S : Sys} {rounds : List (List Str)} {s : ScanState n}
variable {ok : ScanState n → Thread n Client → Choice n Client Answer → Prop}

def CanStep (P : Program n Client ScanTask ScanPc (Env n) Answer ClientCode) (s : ScanState n)
    (i : Thread n Client) : Prop :=
  ∃ x r, x.code.throws = false ∧ (threads P).step i x s.shared (s.loc i) = some r

theorem CanStep.of_code {P : Program n Client ScanTask ScanPc (Env n) Answer ClientCode}
    {i : Thread n Client} {x : Choice n Client Answer}
    {r : Shared n Client ScanTask (Env n) × Loc n ScanTask ScanPc ClientCode i} (hx : x.code = {})
    (hr : (threads P).step i x s.shared (s.loc i) = some r) : CanStep P s i :=
  ⟨x, r, by rw [hx], hr⟩

theorem push_steps {i : Fin n} {t t' : ScanTask} {k : ScanPc} {pc : PushPc}
    (hl : s.loc (.worker i) = .push t k t' pc)
    (hfree : pc = .lock → s.shared.pool.tasksMutex = none) :
    CanStep (program n S rounds) s (.worker i) := by
  obtain ⟨x, q, hx, hq, _⟩ := pushTask_runs (.worker i) t' s.shared.pool pc hfree
  apply CanStep.of_code hx
  rw [hl]
  exact congrArg (Option.map _) hq

theorem tasks_holder_steps {i : Thread n Client} (h : holds i (s.loc i) = true) :
    CanStep (program n S rounds) s i := by
  cases i with
  | worker i =>
    change WorkerPc.holds (s.loc (.worker i)) = true at h
    by_cases hl : WorkerPc.idle (s.loc (.worker i)) = true
    · have hfree (hlock : WorkerPc.locking (s.loc (.worker i)) = true) :
          s.shared.pool.tasksMutex = none := by
        rw [WorkerPc.holds_of_locking hlock] at h
        cases h
      obtain ⟨x, r, hx, hr, _⟩ := worker_idle (program n S rounds) {} i s.shared _ hl hfree
      exact .of_code hx hr
    · cases hi : s.loc (.worker i) with
      | unlockTask t => exact .of_code (x := { code := {} }) rfl (by rw [hi]; rfl)
      | account t => exact .of_code (x := { code := {} }) rfl (by rw [hi]; rfl)
      | push t k t' pc =>
        apply push_steps hi
        rintro rfl
        rw [hi] at h
        cases h
      | _ => rw [hi] at hl h; first | exact absurd rfl hl | cases h
  | client c =>
    change ClientPc.holds (s.loc (.client c)) = true at h
    have hwait (pc : WaitPc) (hpc : pc.holds = true) :
        ∃ r, waitForTasks c ({ code := {} } : Choice n Client Answer) s.shared.pool pc = some r := by
      cases pc <;> first | exact ⟨_, rfl⟩ | cases hpc
    cases hl : s.loc (.client c) with
    | push t pc k =>
      obtain ⟨x, q, hx, hq, _⟩ := pushTask_runs (.client c) t s.shared.pool pc (by
        rintro rfl
        rw [hl] at h
        cases h)
      apply CanStep.of_code hx
      rw [hl]
      exact congrArg (Option.map _) hq
    | wait pc k =>
      obtain ⟨r, hr⟩ := hwait pc (by rw [hl] at h; exact h)
      apply CanStep.of_code (x := { code := {} }) rfl
      rw [hl]
      exact congrArg (Option.map _) hr
    | destroyWait pc =>
      obtain ⟨r, hr⟩ := hwait pc (by rw [hl] at h; exact h)
      apply CanStep.of_code (x := { code := {} }) rfl
      rw [hl]
      exact congrArg (Option.map _) hr
    | _ => rw [hl] at h; cases h

theorem WorkerMove.pushing {i : Fin n} {x : Choice n Client Answer} {v : Shared n Client ScanTask (Env n)}
    {l : WorkerPc ScanTask ScanPc} {r : Shared n Client ScanTask (Env n) × WorkerPc ScanTask ScanPc}
    (h : WorkerMove (program n S rounds) i x v l r)
    (hl : ∀ t k t' pc, l = .push t k t' pc → k.inDirs = true) :
    ∀ t k t' pc, r.2 = .push t k t' pc → k.inDirs = true := by
  cases h with
  | bodyPush t t' k k' e hb =>
    rintro _ _ _ _ ⟨⟩
    have hm := (body_move (v := v.seen) hb).1
    simp only [jobAfter] at hm
    cases hm with
    | pushDir t d dirs files symbols => rfl
  | push t t' k pc pc' p hm =>
    rintro _ _ _ _ ⟨⟩
    exact hl _ _ _ _ rfl
  | relock timedOut hfree => cases timedOut <;> simp
  | _ => simp

theorem pushing_run (hs : ReachableBy (program n S rounds) ok s) {i : Fin n} {t t' : ScanTask}
    {k : ScanPc} {pc : PushPc} (hl : s.loc (.worker i) = .push t k t' pc) : k.inDirs = true := by
  have h : ∀ i t k t' pc, s.loc (.worker i) = .push t k t' pc → k.inDirs = true := by
    apply Threads.Steps.invariant (I := fun s : ScanState n =>
      ∀ i t k t' pc, s.loc (.worker i) = .push t k t' pc → k.inDirs = true) hs
    · intro i t k t' pc hl
      cases hl
    · intro u j x r _ _ hr hI i
      by_cases hij : Thread.worker i = j
      · subst hij
        rw [Config.set_loc_self]
        exact WorkerMove.pushing (worker_move _ hr) (hI i)
      · rw [Config.set_loc_of_ne _ hij]
        exact hI i
  exact h i t k t' pc hl

theorem body_steps {i : Fin n} {t : ScanTask} {k : ScanPc} (hl : s.loc (.worker i) = .body t k)
    (hk : k.inDirs = true ∨ k.inInfos = true) : CanStep (program n S rounds) s (.worker i) := by
  obtain ⟨⟨o, e, k'⟩, hd, _⟩ := doScan_runs S ∅ i t s.shared.env k
    (by rintro out rfl; rcases hk with h | h <;> cases h)
    (by rintro files symbols rfl; rcases hk with h | h <;> cases h)
    (by rintro rfl; rcases hk with h | h <;> cases h)
  have hb : (program n S rounds).body i t {} s.shared.pool.getTasksCount s.shared.pool.isPaused
      s.shared.env k = some (o, e, k') := hd
  have hstep : ∃ r, worker (program n S rounds) i { code := {} } s.shared (.body t k) = some r := by
    simp only [worker, hb]
    cases o <;> exact ⟨_, rfl⟩
  obtain ⟨r, hr⟩ := hstep
  apply CanStep.of_code (x := { code := {} }) rfl
  rw [hl]
  exact hr

theorem worker_holds_infos (hs : ReachableBy (program n S rounds) ok s) {i : Fin n}
    (h : workerIn ScanPc.inInfos (s.loc (.worker i)) = true) :
    ∃ t k, k.inInfos = true ∧ s.loc (.worker i) = .body t k := by
  cases hl : s.loc (.worker i) with
  | body t k => exact ⟨t, k, by rw [hl] at h; exact h, rfl⟩
  | push t k t' pc =>
    have hdirs := pushing_run hs hl
    rw [hl] at h
    change k.inInfos = true at h
    cases k with
    | pushDirs dirs files symbols => cases h
    | _ => cases hdirs
  | _ => rw [hl] at h; cases h

theorem infos_holder_steps (hs : ReachableBy (program n S rounds) ok s) {i : Thread n Client}
    (h : holdsInfos i (s.loc i) = true) :
    holds i (s.loc i) = false ∧ holdsDirs i (s.loc i) = false ∧ CanStep (program n S rounds) s i := by
  cases i with
  | worker i =>
    obtain ⟨t, k, hk, hl⟩ := worker_holds_infos hs h
    refine ⟨by rw [hl]; rfl, ?_, body_steps hl (.inr hk)⟩
    rw [hl]
    cases k <;> first | rfl | cases hk
  | client c =>
    cases c with
    | recorder =>
      obtain ⟨⟨pc, infos⟩, hl⟩ := (outside_run hs).helpers .recorder (by simp)
      change recorderIn (s.loc (.client .recorder)) = true at h
      rw [hl] at h
      refine ⟨by rw [hl]; rfl, rfl, ?_⟩
      cases pc with
      | swap => exact .of_code (x := { code := {} }) rfl (by rw [hl]; rfl)
      | unlock => exact .of_code (x := { code := {} }) rfl (by rw [hl]; rfl)
      | _ => cases h
    | _ => cases h

theorem dirs_holder_steps (hs : ReachableBy (program n S rounds) ok s) {i : Thread n Client}
    (h : holdsDirs i (s.loc i) = true) : CanStep (program n S rounds) s i ∨
      ∃ j, j ≠ i ∧ s.shared.pool.tasksMutex = some j ∧ CanStep (program n S rounds) s j := by
  cases i with
  | client c => cases h
  | worker i =>
    change workerIn ScanPc.inDirs (s.loc (.worker i)) = true at h
    cases hl : s.loc (.worker i) with
    | body t k => exact .inl (body_steps hl (.inl (by rw [hl] at h; exact h)))
    | push t k t' pc =>
      cases hfree : s.shared.pool.tasksMutex with
      | none => exact .inl (push_steps hl fun _ => hfree)
      | some j =>
        have hj : holds j (s.loc j) = true := (ReachableBy.lockInv hs j).mp hfree
        by_cases hji : j = .worker i
        · subst hji
          exact .inl (tasks_holder_steps hj)
        · exact .inr ⟨j, hji, rfl, tasks_holder_steps hj⟩
    | _ => rw [hl] at h; cases h

theorem locks_no_deadlock (S : Sys) (rounds : List (List Str)) {s : ScanState n}
    (hs : Reachable (program n S rounds) s) (i : Thread n Client) :
    (s.shared.pool.tasksMutex = some i ↔ holds i (s.loc i) = true) ∧
    (s.shared.env.fileInfoMutex = some i ↔ holdsInfos i (s.loc i) = true) ∧
    (s.shared.env.dirMutex.map Thread.worker = some i ↔ holdsDirs i (s.loc i) = true) ∧
    (holds i (s.loc i) = true → CanStep (program n S rounds) s i) ∧
    (holdsInfos i (s.loc i) = true → holds i (s.loc i) = false ∧ holdsDirs i (s.loc i) = false ∧
      CanStep (program n S rounds) s i) ∧
    (holdsDirs i (s.loc i) = true → CanStep (program n S rounds) s i ∨
      ∃ j, j ≠ i ∧ s.shared.pool.tasksMutex = some j ∧ CanStep (program n S rounds) s j) := by
  have hlocks := scanLocks_run hs
  refine ⟨ReachableBy.lockInv hs i, hlocks.infos i, hlocks.dirs i, tasks_holder_steps, ?_, ?_⟩
  · exact infos_holder_steps hs
  · exact dirs_holder_steps hs

def nestedDirectory : Sys where
  readdir p := if p = "/a/".toList then some [⟨"d".toList, .dir⟩] else none
  fopen _ := none
  realpath _ := none
  named p es h := by
    cases (Option.ite_none_right_eq_some.mp h).2
    decide

def scanDirectory : Program 1 Client ScanTask ScanPc (Env 1) Answer ClientCode :=
  program 1 nestedDirectory [["/a/".toList, "/b/".toList]]

theorem locks_no_deadlock_scanDirectory : ∃ s, Reachable scanDirectory s ∧
    s.shared.env.dirMutex = some 0 ∧ s.shared.pool.tasksMutex = some (.client .main) ∧
    holdsDirs (.worker 0) (s.loc (.worker 0)) = true ∧ CanStep scanDirectory s (.client .main) := by
  have h : ((threads scanDirectory).run Threads.anyStep (initial scanDirectory)
      (scanSteps (.client .main) 12 ++ scanSteps (.worker 0) 15 ++
        scanSteps (.client .main) 2)).map (fun s => decide
          (s.shared.env.dirMutex = some 0 ∧ s.shared.pool.tasksMutex = some (.client .main))) =
            some true := by decide
  obtain ⟨s, hs, hp⟩ := Threads.exists_steps_of_run h
  obtain ⟨hdirs, htasks⟩ := of_decide_eq_true hp
  have howner := locks_no_deadlock nestedDirectory _ hs (.client .main)
  have hworker := locks_no_deadlock nestedDirectory _ hs (.worker 0)
  exact ⟨s, hs, hdirs, htasks, hworker.2.2.1.mp (congrArg (Option.map Thread.worker) hdirs),
    howner.2.2.2.1 (howner.1.mp htasks)⟩

end SysUtils.Scan

import SysUtils.Scan.Exit
import SysUtils.ThreadPool.Stranding

namespace SysUtils.Scan

open Interleaving ThreadPool

variable {n : ℕ} {S : Sys} {rounds : List (List Str)}
variable {ok : ScanState n → Thread n Client → Choice n Client Answer → Prop}

theorem workerCall_pause {i : Fin n} {x : Choice n Client Answer}
    {s : Shared n Client ScanTask (Env n)} {l : WorkerPc ScanTask ScanPc} :
    isPause (workerCall (program n S rounds) i x s l) = false ∧
      isUnpause (workerCall (program n S rounds) i x s l) = false := by
  cases l with
  | body t k =>
    cases hb : (program n S rounds).body i t x.code s.pool.tasksTotal s.pool.paused s.env k with
    | none => simp [workerCall, hb, isPause, isUnpause]
    | some r =>
      obtain ⟨o, e, k'⟩ := r
      obtain ⟨_, hp, hu⟩ := body_move (v := s.seen) hb
      cases o <;> simp_all [workerCall, isPause, isUnpause]
  | _ => exact ⟨rfl, rfl⟩

theorem client_call {c : Client} {x : Answer} {count : ℕ} {paused : Bool} {e e' : Env n}
    {k k' : ClientCode c} {o : Call ScanTask}
    (h : (program n S rounds).client c x count paused e k = some (o, e', k')) :
    o ≠ .unpause ∧ (o = .pause → c ≠ .main ∧ c ≠ .recorder) := by
  have hv : e = (⟨[], [], paused, e⟩ : Seen ScanTask (Env n)).env := rfl
  rw [hv] at h
  cases c with
  | main =>
    obtain ⟨_, _, _, hp, hu, _⟩ := main_move h
    exact ⟨hu, fun he => absurd he hp⟩
  | recorder =>
    obtain ⟨_, rfl⟩ := writeToDb_move h
    exact ⟨by simp, by simp⟩
  | notifier =>
    refine ⟨?_, fun _ => by simp⟩
    rcases (statusNotifier_move h).2.2 with rfl | rfl <;> simp
  | user u =>
    refine ⟨?_, fun _ => by simp⟩
    rcases (stop_move h).2.2 with rfl | rfl <;> simp

theorem clientCall_pause {c : Client} {x : Choice n Client Answer} {s : Shared n Client ScanTask (Env n)}
    {l : ClientPc ScanTask (ClientCode c)} :
    isUnpause (clientCall (program n S rounds) c x s l) = false ∧
      (isPause (clientCall (program n S rounds) c x s l) = true → c ≠ .main ∧ c ≠ .recorder) := by
  cases l with
  | code k =>
    cases hc : (program n S rounds).client c x.code s.pool.tasksTotal s.pool.paused s.env k with
    | none => simp [clientCall, hc, isPause, isUnpause]
    | some r =>
      obtain ⟨o, e, k'⟩ := r
      have ho := client_call hc
      cases o <;> simp_all [clientCall, isPause, isUnpause]
  | _ => exact ⟨rfl, fun h => by cases h⟩

theorem scan_noUnpause (s : ScanState n) (i : Thread n Client) (x : Choice n Client Answer) :
    noUnpause (program n S rounds) s i x := by
  cases i with
  | worker i => exact workerCall_pause.2
  | client c => exact clientCall_pause.1

theorem notifier_pause {x : Choice n Client Answer} {s : Shared n Client ScanTask (Env n)}
    {l : ClientPc ScanTask NotifierPc}
    (h : isPause (clientCall (program n S rounds) .notifier x s l) = true) : l = .code .stopPause := by
  cases l with
  | code k =>
    cases k with
    | stopPause => rfl
    | idle =>
      by_cases hl : s.env.notifier = .running <;>
        simp [clientCall, program, statusNotifier, hl, isPause] at h
    | _ => simp [clientCall, program, statusNotifier, isPause] at h
  | _ => cases h

def byUser : Thread n Client → Bool
  | .client (.user _) => true
  | _ => false

theorem byUser_of_pause {s : ScanState n} (h : Reachable (program n S rounds) s) {i : Thread n Client}
    {x : Choice n Client Answer} (hx : callsPause (program n S rounds) s i x = true) :
    byUser i = true ∨ s.shared.pool.tasks = [] := by
  cases i with
  | worker i => simp [callsPause, asked, workerCall_pause.1] at hx
  | client c =>
    have hc := clientCall_pause.2 hx
    cases c with
    | main => exact absurd rfl hc.1
    | recorder => exact absurd rfl hc.2
    | user u => exact .inl rfl
    | notifier =>
      right
      have hl := notifier_pause hx
      have hview : (scanView s).loc (.client .notifier) = some ⟨.stopPause, none⟩ := by
        change ClientPc.session (s.loc (.client .notifier)) = _
        rw [hl]
        rfl
      exact ((scan_phases h).past _ hview rfl).1

/-- The user's `stop()` pauses the pool while nothing is queued that no worker is about to take, and
nothing is pushed into a paused pool. -/
def stopsSafely (P : Program n Client ScanTask ScanPc (Env n) Answer ClientCode) (s : ScanState n)
    (i : Thread n Client) (x : Choice n Client Answer) : Prop :=
  (callsPause P s i x = true → byUser i = true → s.shared.pool.paused = false → Emptying s) ∧
    (enqueuing i (s.loc i) = true → s.shared.pool.paused = false)

instance (P : Program n Client ScanTask ScanPc (Env n) Answer ClientCode) (s : ScanState n)
    (i : Thread n Client) (x : Choice n Client Answer) : Decidable (stopsSafely P s i x) :=
  inferInstanceAs (Decidable ((_ → _ → _ → _) ∧ (_ → _)))

theorem stop_strands_nothing (S : Sys) (rounds : List (List Str)) {s : ScanState n}
    (hs : ReachableBy (program n S rounds) (stopsSafely (program n S rounds)) s) : ¬ Stranded s := by
  apply (ReachableBy.conserved hs).not_stranded
  apply Threads.Steps.invariant (I := fun s => s.shared.pool.paused = true → Emptying s) hs
  · intro _
    exact .inl rfl
  · intro u i x r hu hx hr hI
    refine Emptying.step_paused hI hr ?_ hx.2
    intro hcall hp
    rcases byUser_of_pause hu.any hcall with huser | hempty
    · exact hx.1 hcall huser hp
    · exact .inl hempty

theorem stop_strands_nothing_scanOne : ∃ s, ReachableBy scanOne (stopsSafely scanOne) s ∧
    s.shared.pool.paused = true ∧ 0 < s.shared.pool.tasksTotal ∧ ¬ Stranded s := by
  have h : ((threads scanOne).run (stopsSafely scanOne) (initial scanOne)
      (scanSteps (.client .main) 11 ++ scanSteps (.worker 0) 6 ++
        scanSteps (.client (.user 0)) 2)).map (fun s => decide
          (s.shared.pool.paused = true ∧ 0 < s.shared.pool.tasksTotal)) = some true := by decide
  obtain ⟨s, hs, hp⟩ := Threads.exists_steps_of_run h
  obtain ⟨hpaused, htotal⟩ := of_decide_eq_true hp
  exact ⟨s, hs, hpaused, htotal, stop_strands_nothing oneExecutable _ hs⟩

theorem stranded_never_over {s t : ScanState n} (h : Stranded s)
    (ht : (threads (program n S rounds)).Steps Threads.anyStep s t) :
    isScanOver t.shared.pool.getTasksCount = false := by
  have hs := stranded_run h (ht.mono fun u i x _ => scan_noUnpause u i x)
  simpa [isScanOver, Pool.getTasksCount] using Nat.pos_iff_ne_zero.mp hs.2.1

theorem stop_strands_scan : ∃ s, Reachable scanOne s ∧ Stranded s ∧
    ∀ t, (threads scanOne).Steps Threads.anyStep s t →
      isScanOver t.shared.pool.getTasksCount = false := by
  have h : ((threads scanOne).run Threads.anyStep (initial scanOne)
      (scanSteps (.client .main) 11 ++ scanSteps (.client (.user 0)) 2)).map
        (fun s => decide (Stranded s)) = some true := by decide
  obtain ⟨s, hs, hp⟩ := Threads.exists_steps_of_run h
  have hstranded : Stranded s := of_decide_eq_true hp
  exact ⟨s, hs, hstranded, fun t ht => stranded_never_over hstranded ht⟩

end SysUtils.Scan

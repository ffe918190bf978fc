import SysUtils.ThreadPool.Conservation

namespace SysUtils.ThreadPool

open Interleaving

variable {n : ℕ} {γ τ β ε χ : Type} {κ : γ → Type}

/-! Where a worker without a task gets to, step by step, if it is let. -/

def WorkerPc.idle : WorkerPc τ β → Bool
  | .whileRunning | .lock | .ifNotRunning | .predicate | .block | .asleep | .relock _
  | .ifRunning | .ifPaused | .take | .ifWaiting | .notifyDone | .unlock | .leave => true
  | _ => false

def WorkerPc.locking : WorkerPc τ β → Bool
  | .lock | .relock _ => true
  | _ => false

theorem WorkerPc.holds_of_locking {l : WorkerPc τ β} (h : l.locking = true) : l.holds = false := by
  cases l <;> first | rfl | cases h

def WorkerPc.toRelease : WorkerPc τ β → ℕ
  | .ifNotRunning => 6
  | .predicate => 5
  | .ifRunning => 4
  | .ifPaused | .ifWaiting => 3
  | .take | .notifyDone => 2
  | .block | .unlock | .leave => 1
  | _ => 0

def WorkerPc.toTake : WorkerPc τ β → ℕ
  | .ifWaiting => 9
  | .notifyDone => 8
  | .unlock => 7
  | .whileRunning => 6
  | .lock | .block => 5
  | .ifNotRunning | .asleep | .relock false => 4
  | .predicate | .relock true => 3
  | .ifRunning => 2
  | .ifPaused => 1
  | _ => 0

def WorkerPc.toExit : WorkerPc τ β → ℕ
  | .block => 5
  | .asleep | .relock false => 4
  | .predicate | .relock true | .ifPaused | .ifWaiting => 3
  | .lock | .ifRunning | .take | .notifyDone => 2
  | .ifNotRunning | .unlock => 1
  | _ => 0

structure IdleStep (s : Shared n γ τ ε) (l : WorkerPc τ β) (r : Shared n γ τ ε × WorkerPc τ β) : Prop where
  idle : r.2.idle = true
  tasks : r.1.pool.tasks = s.pool.tasks
  total : r.1.pool.tasksTotal = s.pool.tasksTotal
  running : r.1.pool.running = s.pool.running
  paused : r.1.pool.paused = s.pool.paused
  env : r.1.env = s.env
  release : l.holds = true → r.2.toRelease < l.toRelease
  take : s.pool.running = true → s.pool.paused = false → s.pool.tasks ≠ [] → r.2.toTake < l.toTake
  exit : s.pool.running = false → s.pool.tasks = [] → r.2.toExit < l.toExit

inductive IdleMove (s : Shared n γ τ ε) (l : WorkerPc τ β) (r : Shared n γ τ ε × WorkerPc τ β) : Prop where
  | stay (h : IdleStep s l r)
  | took (t : τ) (ht : s.pool.tasks = t :: r.1.pool.tasks) (hr : r.2 = .unlockTask t) (he : r.1.env = s.env)
  | ended (ht : r.1.pool.tasks = s.pool.tasks) (hr : r.2 = .ended) (he : r.1.env = s.env)

theorem exists_notifyOne {α : Type} [DecidableEq α] (cv : Finset α) :
    ∃ who cv', notifyOne cv who = some cv' := by
  by_cases h : cv = ∅
  · exact ⟨none, ∅, by simp [notifyOne, h]⟩
  · obtain ⟨a, ha⟩ := Finset.nonempty_iff_ne_empty.mpr h
    exact ⟨some a, cv.erase a, by simp [notifyOne, ha]⟩

theorem pushTask_goes (code : χ) (me : Thread n γ) (t : τ) (p : Pool n γ τ) (pc : PushPc)
    (hfree : pc = .lock → p.tasksMutex = none) :
    ∃ (x : Choice n γ χ) (r : _), x.code = code ∧ pushTask me x t p pc = some r := by
  cases pc with
  | lock => exact ⟨{ code := code }, _, rfl, if_pos (hfree rfl)⟩
  | notify =>
    obtain ⟨who, cv, hcv⟩ := exists_notifyOne p.taskAvailableCv
    exact ⟨{ code := code, wakeWorker := who }, _, rfl, congrArg (Option.map _) hcv⟩
  | _ => exact ⟨{ code := code }, _, rfl, rfl⟩

theorem WorkerPc.idle_or_ended {l : WorkerPc τ β} (h : l.inFlight = 0) : l.idle = true ∨ l = .ended := by
  cases l <;> first | exact .inl rfl | exact .inr rfl | simp [WorkerPc.inFlight] at h

variable [DecidableEq γ] (P : Program n γ τ β ε χ κ) (code : χ)

theorem worker_idle (i : Fin n) (s : Shared n γ τ ε) (l : WorkerPc τ β) (hl : l.idle = true)
    (hfree : l.locking = true → s.pool.tasksMutex = none) :
    ∃ x r, x.code = code ∧ worker P i x s l = some r ∧ IdleMove s l r := by
  cases l with
  | whileRunning =>
    cases hr : s.pool.running with
    | true =>
      refine ⟨{ code := code }, _, rfl, if_pos hr, .stay ?_⟩
      exact ⟨rfl, rfl, rfl, rfl, rfl, rfl, by simp [WorkerPc.holds], by simp [WorkerPc.toTake],
        by simp [hr]⟩
    | false =>
      refine ⟨{ code := code }, _, rfl, if_neg (ne_true_of_eq_false hr), ?_⟩
      exact .ended rfl rfl rfl
  | lock =>
    refine ⟨{ code := code }, _, rfl, if_pos (hfree rfl), .stay ?_⟩
    exact ⟨rfl, rfl, rfl, rfl, rfl, rfl, by simp [WorkerPc.holds], by simp [WorkerPc.toTake],
      by simp [WorkerPc.toExit]⟩
  | ifNotRunning =>
    refine ⟨{ code := code }, _, rfl, rfl, .stay ?_⟩
    cases hr : s.pool.running with
    | true =>
      exact ⟨rfl, rfl, rfl, rfl, rfl, rfl, by simp [WorkerPc.toRelease], by simp [WorkerPc.toTake],
        by simp [hr]⟩
    | false =>
      exact ⟨rfl, rfl, rfl, rfl, rfl, rfl, by simp [WorkerPc.toRelease], by simp [hr],
        by simp [WorkerPc.toExit]⟩
  | predicate =>
    refine ⟨{ code := code }, _, rfl, rfl, .stay ?_⟩
    by_cases h : s.pool.tasks ≠ [] ∨ s.pool.running = false
    · simp only [h, if_true]
      exact ⟨rfl, rfl, rfl, rfl, rfl, rfl, by simp [WorkerPc.toRelease], by simp [WorkerPc.toTake],
        by simp [WorkerPc.toExit]⟩
    · simp only [h, if_false]
      refine ⟨rfl, rfl, rfl, rfl, rfl, rfl, by simp [WorkerPc.toRelease], ?_, ?_⟩
      · intro _ _ htasks
        exact absurd (.inl htasks) h
      · intro hr _
        exact absurd (.inr hr) h
  | block =>
    refine ⟨{ code := code }, _, rfl, rfl, .stay ?_⟩
    exact ⟨rfl, rfl, rfl, rfl, rfl, rfl, by simp [WorkerPc.toRelease], by simp [WorkerPc.toTake],
      by simp [WorkerPc.toExit]⟩
  | asleep =>
    refine ⟨{ code := code, timeout := true }, _, rfl, rfl, .stay ?_⟩
    exact ⟨rfl, rfl, rfl, rfl, rfl, rfl, by simp [WorkerPc.holds], by simp [WorkerPc.toTake],
      by simp [WorkerPc.toExit]⟩
  | relock timedOut =>
    refine ⟨{ code := code }, _, rfl, if_pos (hfree rfl), .stay ?_⟩
    cases timedOut <;> exact ⟨rfl, rfl, rfl, rfl, rfl, rfl, by simp [WorkerPc.holds],
      by simp [WorkerPc.toTake], by simp [WorkerPc.toExit]⟩
  | ifRunning =>
    refine ⟨{ code := code }, _, rfl, rfl, .stay ?_⟩
    cases hr : s.pool.running with
    | true =>
      exact ⟨rfl, rfl, rfl, rfl, rfl, rfl, by simp [WorkerPc.toRelease], by simp [WorkerPc.toTake],
        by simp [hr]⟩
    | false =>
      exact ⟨rfl, rfl, rfl, rfl, rfl, rfl, by simp [WorkerPc.toRelease], by simp [hr],
        by simp [WorkerPc.toExit]⟩
  | ifPaused =>
    refine ⟨{ code := code }, _, rfl, rfl, .stay ?_⟩
    cases hp : s.pool.paused with
    | true =>
      exact ⟨rfl, rfl, rfl, rfl, rfl, rfl, by simp [WorkerPc.toRelease], by simp [hp],
        by simp [WorkerPc.toExit]⟩
    | false =>
      exact ⟨rfl, rfl, rfl, rfl, rfl, rfl, by simp [WorkerPc.toRelease], by simp [WorkerPc.toTake],
        by simp [WorkerPc.toExit]⟩
  | take =>
    cases ht : s.pool.tasks with
    | nil =>
      refine ⟨{ code := code }, (s, .unlock), rfl, by simp only [worker, ht], .stay ?_⟩
      exact ⟨rfl, rfl, rfl, rfl, rfl, rfl, by simp [WorkerPc.toRelease], by simp [ht],
        by simp [WorkerPc.toExit]⟩
    | cons t ts =>
      refine ⟨{ code := code }, (⟨{ s.pool with tasks := ts, popped := s.pool.popped ++ [t] }, s.env⟩,
        .unlockTask t), rfl, by simp only [worker, ht], .took t ht rfl rfl⟩
  | ifWaiting =>
    refine ⟨{ code := code }, _, rfl, rfl, .stay ?_⟩
    cases s.pool.waiting <;> exact ⟨rfl, rfl, rfl, rfl, rfl, rfl, by simp [WorkerPc.toRelease],
      by simp [WorkerPc.toTake], by simp [WorkerPc.toExit]⟩
  | notifyDone =>
    obtain ⟨who, cv, hcv⟩ := exists_notifyOne s.pool.taskDoneCv
    refine ⟨{ code := code, wakeClient := who }, _, rfl, congrArg (Option.map _) hcv, .stay ?_⟩
    exact ⟨rfl, rfl, rfl, rfl, rfl, rfl, by simp [WorkerPc.toRelease], by simp [WorkerPc.toTake],
      by simp [WorkerPc.toExit]⟩
  | unlock =>
    refine ⟨{ code := code }, _, rfl, rfl, .stay ?_⟩
    exact ⟨rfl, rfl, rfl, rfl, rfl, rfl, by simp [WorkerPc.toRelease], by simp [WorkerPc.toTake],
      by simp [WorkerPc.toExit]⟩
  | leave => exact ⟨{ code := code }, _, rfl, rfl, .ended rfl rfl rfl⟩
  | _ => cases hl

end SysUtils.ThreadPool

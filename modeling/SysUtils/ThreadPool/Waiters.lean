import SysUtils.ThreadPool.Wakeups

namespace SysUtils.ThreadPool

open Interleaving

variable {n : ℕ} {γ τ β ε χ : Type} {κ : γ → Type} [DecidableEq γ]
variable {P : Program n γ τ β ε χ κ} {x : Choice n γ χ}

/-- The steps of a run without `pause()` in which the last completion reaches every sleeper: when it
tests `waiting_` the flag is set if anybody sleeps, and when it notifies at most one does. -/
def lastNotifyReaches (P : Program n γ τ β ε χ κ) (s : State n τ β ε κ) (i : Thread n γ)
    (x : Choice n γ χ) : Prop :=
  callsPause P s i x = false ∧ (s.shared.pool.tasksTotal = 0 → ∀ j, i = .worker j →
    (s.loc (.worker j) = .ifWaiting → s.shared.pool.taskDoneCv ≠ ∅ →
      s.shared.pool.waiting = true) ∧
    (s.loc (.worker j) = .notifyDone → s.shared.pool.taskDoneCv.card ≤ 1))

instance (s : State n τ β ε κ) (i : Thread n γ) (x : Choice n γ χ)
    [∀ l : WorkerPc τ β, Decidable (l = .ifWaiting)] [∀ l : WorkerPc τ β, Decidable (l = .notifyDone)] :
    Decidable (lastNotifyReaches P s i x) :=
  inferInstanceAs (Decidable (_ ∧ (_ → ∀ _, _ → (_ → _ → _) ∧ (_ → _))))

theorem notPaused_run {ok : State n τ β ε κ → Thread n γ → Choice n γ χ → Prop}
    (hok : ∀ s i x, ok s i x → callsPause P s i x = false) {s : State n τ β ε κ}
    (h : ReachableBy P ok s) : s.shared.pool.paused = false := by
  apply Threads.Steps.invariant (I := fun s => s.shared.pool.paused = false) h rfl
  intro u i x r _ hx hr hI
  have hx' : isPause (asked P u i x) = false := hok _ _ _ hx
  simp [step_paused hr, pausedAfter, hx', hI]

theorem covered_of_lastNotifyReaches {s : State n τ β ε κ}
    (h : ReachableBy P (lastNotifyReaches P) s) : Covered s := by
  apply Threads.Steps.invariant h Covered.initial
  intro u i x r hu hx hr hI
  have hl : LockInv mutexOwner holds u := ReachableBy.lockInv hu
  have hpaused : u.shared.pool.paused = false := notPaused_run (fun _ _ _ h => h.1) hu
  apply hI.step (ReachableBy.conserved hu) hl hr (fun hp => by simp [hx.1] at hp)
  rintro j c hj rfl hcom hs
  have hholds : WorkerPc.holds (u.loc (.worker j)) = true := by
    rcases hj with h | h <;> rw [h] <;> rfl
  have hset : WorkerPc.settling (u.loc (.worker j)) = true := by
    rcases hj with h | h <;> rw [h] <;> rfl
  have hleft : WorkerPc.settling r.2 = false := by
    by_contra hne
    exact hs ⟨j, by simpa using hne⟩
  obtain ⟨_, hcv⟩ := hcom.of_worker hl hholds
  have hlast := fun h0 => hx.2 h0 j rfl
  have hzero : r.1.pool.tasksTotal = u.shared.pool.tasksTotal ∧
      r.1.pool.paused = u.shared.pool.paused ∧ u.shared.pool.tasksTotal ≠ 0 := by
    rcases (worker_move P hr).settled hset hleft with ⟨hi, hw, hr1⟩ | ⟨_, he, hr1⟩ | ⟨hi, d, hd, hr1⟩
    · refine ⟨by rw [hr1], by rw [hr1], fun h0 => ?_⟩
      have hne : u.shared.pool.taskDoneCv ≠ ∅ := Finset.ne_empty_of_mem (by rwa [hr1] at hcv)
      simp [(hlast h0).1 hi hne] at hw
    · rw [hr1, he] at hcv
      cases hcv
    · refine ⟨by rw [hr1], by rw [hr1], fun h0 => ?_⟩
      have hmem := hcv
      simp only [hr1, Finset.mem_erase] at hmem
      exact hmem.1 (Finset.card_le_one.mp ((hlast h0).2 hi) c hmem.2 d hd)
  exact .inr ⟨hzero.2.1.trans hpaused, by have := hzero.1; have := hzero.2.2; simp; omega⟩

theorem no_waiter_abandoned (P : Program n γ τ β ε χ κ) {s : State n τ β ε κ}
    (hs : ReachableBy P (lastNotifyReaches P) s) : ¬ Abandoned s := by
  rintro ⟨h0, hset, c, hc⟩
  obtain ⟨_, ht⟩ := (covered_of_lastNotifyReaches hs c (.inr hc)).resolve_left hset
  omega

def twoWaiters : Program 1 (Fin 3) ℕ Unit Unit Unit (fun _ => List (Call ℕ)) :=
  script 1 ![[.wait], [.wait], [.push 7]]

theorem no_waiter_abandoned_twoWaiters :
    ∃ s, ReachableBy twoWaiters (lastNotifyReaches twoWaiters) s ∧
      s.shared.pool.finished = [7] ∧ ¬ Abandoned s := by
  have h : ((threads twoWaiters).run (lastNotifyReaches twoWaiters) (initial twoWaiters)
      (steps (.client 2) 6 ++ steps (.client 0) 5 ++ steps (.worker 0) 12 ++
        [(.worker 0, { code := (), wakeClient := some (0 : Fin 3) })] ++ steps (.worker 0) 1 ++
        steps (.client 1) 5)).map
        (fun s => decide (s.shared.pool.finished = [7])) = some true := by decide
  obtain ⟨s, hs, hp⟩ := Threads.exists_steps_of_run h
  exact ⟨s, hs, of_decide_eq_true hp, no_waiter_abandoned twoWaiters hs⟩

def neverPaused (P : Program n γ τ β ε χ κ) (s : State n τ β ε κ) (i : Thread n γ)
    (x : Choice n γ χ) : Prop := callsPause P s i x = false ∧ x.spurious = false

instance (s : State n τ β ε κ) (i : Thread n γ) (x : Choice n γ χ) :
    Decidable (neverPaused P s i x) := inferInstanceAs (Decidable (_ ∧ _))

theorem second_waiter_abandoned :
    ∃ s, ReachableBy twoWaiters (neverPaused twoWaiters) s ∧ Abandoned s := by
  have h : ((threads twoWaiters).run (neverPaused twoWaiters) (initial twoWaiters)
      (steps (.client 2) 6 ++ steps (.client 0) 5 ++ steps (.client 1) 5 ++ steps (.worker 0) 12 ++
        [(.worker 0, { code := (), wakeClient := some 0 })])).map
        (fun s => decide (Abandoned s)) = some true := by decide
  obtain ⟨s, hs, hp⟩ := Threads.exists_steps_of_run h
  exact ⟨s, hs, of_decide_eq_true hp⟩

end SysUtils.ThreadPool

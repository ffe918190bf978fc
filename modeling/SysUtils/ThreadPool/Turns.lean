import SysUtils.Interleaving.Descent
import SysUtils.ThreadPool.Progress

namespace SysUtils.ThreadPool

open Interleaving

variable {n : ℕ} {γ τ β ε χ : Type} {κ : γ → Type} [DecidableEq γ]

/-! A run of the pool is pushed on by one thread at a time: whoever holds the mutex gives it up, and then
the thread that waits for it goes on. -/

def idleAt : ∀ i : Thread n γ, Loc n τ β κ i → Bool
  | .worker _ => WorkerPc.idle
  | .client _ => fun _ => false

/-- In the states `I` a step of an idle worker is allowed and keeps the measure `f`, unless it takes a task
or returns, and whoever else holds the mutex can lower the measure. -/
structure Turns (P : Program n γ τ β ε χ κ) (code : χ)
    (ok : State n τ β ε κ → Thread n γ → Choice n γ χ → Prop) (f : State n τ β ε κ → ℕ)
    (I : State n τ β ε κ → Prop) : Prop where
  closed : ∀ s t, I s → (threads P).Steps ok s t → I t
  lockInv : ∀ s, I s → LockInv mutexOwner holds s
  allowed : ∀ s i x, x.code = code → ok s (.worker i) x
  moves : ∀ s i x r, I s → WorkerPc.idle (s.loc (.worker i)) = true →
    worker P i x s.shared (s.loc (.worker i)) = some r → IdleMove s.shared (s.loc (.worker i)) r →
    f (s.set (.worker i) r) < f s ∨
      IdleStep s.shared (s.loc (.worker i)) r ∧ f (s.set (.worker i) r) = f s
  held : ∀ s i, I s → holds i (s.loc i) = true → idleAt i (s.loc i) = false → (threads P).Lowers ok f s

structure Stays (P : Program n γ τ β ε χ κ)
    (ok : State n τ β ε κ → Thread n γ → Choice n γ χ → Prop) (f : State n τ β ε κ → ℕ)
    (s u : State n τ β ε κ) : Prop where
  steps : (threads P).Steps ok s u
  tasks : u.shared.pool.tasks = s.shared.pool.tasks
  same : f u = f s
  stays : ∀ i, holds i (s.loc i) = false → u.loc i = s.loc i

variable {P : Program n γ τ β ε χ κ} {code : χ} {s : State n τ β ε κ}
  {ok : State n τ β ε κ → Thread n γ → Choice n γ χ → Prop} {f : State n τ β ε κ → ℕ}
  {I : State n τ β ε κ → Prop}

theorem Stays.refl (s : State n τ β ε κ) : Stays P ok f s s := ⟨.refl, rfl, rfl, fun _ _ => rfl⟩

theorem Turns.lower_or_idle (h : Turns P code ok f I) (hI : I s) {i : Fin n}
    (hl : WorkerPc.idle (s.loc (.worker i)) = true)
    (hfree : WorkerPc.locking (s.loc (.worker i)) = true → s.shared.pool.tasksMutex = none) :
    (threads P).Lowers ok f s ∨ ∃ x r, ok s (.worker i) x ∧
      worker P i x s.shared (s.loc (.worker i)) = some r ∧
      IdleStep s.shared (s.loc (.worker i)) r ∧ f (s.set (.worker i) r) = f s := by
  obtain ⟨x, r, hx, hr, hm⟩ := worker_idle P code i s.shared _ hl hfree
  rcases h.moves s i x r hI hl hr hm with hlt | ⟨hstep, hsame⟩
  · exact .inl (Threads.Lowers.step (i := .worker i) (h.allowed s i x hx) hr hlt)
  · exact .inr ⟨x, r, h.allowed s i x hx, hr, hstep, hsame⟩

theorem Turns.release_or_lower (h : Turns P code ok f I) (hI : I s) {i : Fin n}
    (hl : WorkerPc.idle (s.loc (.worker i)) = true)
    (hh : WorkerPc.holds (s.loc (.worker i)) = true) :
    (threads P).Lowers ok f s ∨ ∃ u, Stays P ok f s u ∧ u.shared.pool.tasksMutex = none := by
  induction hk : WorkerPc.toRelease (s.loc (.worker i)) using Nat.strongRecOn generalizing s with
  | ind k ih =>
    have hfree (hlock : WorkerPc.locking (s.loc (.worker i)) = true) :
        s.shared.pool.tasksMutex = none := by
      rw [WorkerPc.holds_of_locking hlock] at hh
      cases hh
    rcases h.lower_or_idle hI hl hfree with hlow | ⟨x, r, hx, hr, hstep, hsame⟩
    · exact .inl hlow
    have hnext := Threads.Steps.step (T := threads P) (i := .worker i) .refl hx hr
    have hother (j : Thread n γ) (hj : holds j (s.loc j) = false) :
        (s.set (.worker i) r).loc j = s.loc j := by
      apply Config.set_loc_of_ne
      rintro rfl
      change WorkerPc.holds (s.loc (.worker i)) = false at hj
      rw [hh] at hj
      cases hj
    cases hh' : WorkerPc.holds r.2 with
    | false =>
      right
      refine ⟨s.set (.worker i) r, ⟨hnext, hstep.tasks, hsame, hother⟩, ?_⟩
      have hlock := (worker_move _ hr).lockStep
      rw [hh, hh'] at hlock
      rcases hlock with ⟨_, h⟩ | ⟨_, _, h, _⟩ | ⟨h, _⟩
      · cases h
      · cases h
      · exact h
    | true =>
      have hl' : (s.set (.worker i) r).loc (.worker i) = r.2 := Config.set_loc_self s (.worker i) r
      have hless := hstep.release hh
      rcases ih _ (hk ▸ hless) (h.closed s _ hI hnext) (by rw [hl']; exact hstep.idle)
        (by rw [hl']; exact hh') (by rw [hl']) with hlow | ⟨u, hu, hfree⟩
      · exact .inl (Threads.Lowers.after hnext hsame.le hlow)
      · refine .inr ⟨u, ⟨hnext.trans hu.steps, hu.tasks.trans hstep.tasks, hu.same.trans hsame, ?_⟩, hfree⟩
        intro j hj
        have hj' := hother j hj
        exact (hu.stays j (by rw [hj']; exact hj)).trans hj'

theorem Turns.free_or_lower (h : Turns P code ok f I) (hI : I s) :
    (threads P).Lowers ok f s ∨ ∃ u, Stays P ok f s u ∧ u.shared.pool.tasksMutex = none := by
  cases ho : s.shared.pool.tasksMutex with
  | none => exact .inr ⟨s, .refl s, ho⟩
  | some j =>
    have hh := (h.lockInv s hI j).mp ho
    by_cases hl : idleAt j (s.loc j) = true
    · cases j with
      | worker i => exact h.release_or_lower hI hl hh
      | client c => cases hl
    · exact .inl (h.held s j hI hh (Bool.eq_false_iff.mpr hl))

theorem Turns.lower_when_free (h : Turns P code ok f I) (hI : I s)
    (hfree : ∀ u, Stays P ok f s u → u.shared.pool.tasksMutex = none → (threads P).Lowers ok f u) :
    (threads P).Lowers ok f s := by
  rcases h.free_or_lower hI with hlow | ⟨u, hu, hnone⟩
  · exact hlow
  · exact Threads.Lowers.after hu.steps hu.same.le (hfree u hu hnone)

theorem Turns.idle_goes (h : Turns P code ok f I) (hI : I s) {i : Fin n}
    (hl : WorkerPc.idle (s.loc (.worker i)) = true) :
    (threads P).Lowers ok f s ∨ ∃ u x r, Stays P ok f s u ∧ ok u (.worker i) x ∧
      u.loc (.worker i) = s.loc (.worker i) ∧
      worker P i x u.shared (u.loc (.worker i)) = some r ∧
      IdleStep u.shared (s.loc (.worker i)) r ∧ f (u.set (.worker i) r) = f s := by
  have hgo {u : State n τ β ε κ} (hu : Stays P ok f s u) (hi : u.loc (.worker i) = s.loc (.worker i))
      (hfree : WorkerPc.locking (s.loc (.worker i)) = true → u.shared.pool.tasksMutex = none) :
      (threads P).Lowers ok f s ∨ ∃ u x r, Stays P ok f s u ∧ ok u (.worker i) x ∧
        u.loc (.worker i) = s.loc (.worker i) ∧
        worker P i x u.shared (u.loc (.worker i)) = some r ∧
        IdleStep u.shared (s.loc (.worker i)) r ∧ f (u.set (.worker i) r) = f s := by
    rcases h.lower_or_idle (h.closed s u hI hu.steps) (by rw [hi]; exact hl) (by rw [hi]; exact hfree) with
      hlow | ⟨x, r, hx, hr, hstep, hsame⟩
    · exact .inl (Threads.Lowers.after hu.steps hu.same.le hlow)
    · rw [hi] at hstep
      exact .inr ⟨u, x, r, hu, hx, hi, hr, hstep, hsame.trans hu.same⟩
  by_cases hlock : WorkerPc.locking (s.loc (.worker i)) = true
  · rcases h.free_or_lower hI with hlow | ⟨u, hu, hfree⟩
    · exact .inl hlow
    · exact hgo hu (hu.stays _ (WorkerPc.holds_of_locking hlock)) fun _ => hfree
  · exact hgo (.refl s) rfl fun hlocking => absurd hlocking hlock

theorem Turns.lower_idle (h : Turns P code ok f I) (C : State n τ β ε κ → Prop) (m : WorkerPc τ β → ℕ)
    {i : Fin n} (hstays : ∀ s u, C s → Stays P ok f s u → C u)
    (hmoves : ∀ u r, I u → C u → IdleStep u.shared (u.loc (.worker i)) r →
      m r.2 < m (u.loc (.worker i)) ∧ C (u.set (.worker i) r))
    (hI : I s) (hC : C s) (hl : WorkerPc.idle (s.loc (.worker i)) = true) : (threads P).Lowers ok f s := by
  induction hk : m (s.loc (.worker i)) using Nat.strongRecOn generalizing s with
  | ind k ih =>
    rcases h.idle_goes hI hl with hlow | ⟨u, x, r, hu, hx, hi, hr, hstep, hsame⟩
    · exact hlow
    have hloc : (u.set (.worker i) r).loc (.worker i) = r.2 := Config.set_loc_self u (.worker i) r
    have hnext := Threads.Steps.step (T := threads P) (i := .worker i) hu.steps hx hr
    obtain ⟨hless, hC'⟩ := hmoves u r (h.closed s u hI hu.steps) (hstays s u hC hu) (by rw [hi]; exact hstep)
    rw [hi] at hless
    apply Threads.Lowers.after hnext hsame.le
    apply ih _ (hk ▸ hless) (h.closed s _ hI hnext) hC'
    · rw [hloc]
      exact hstep.idle
    · rw [hloc]

theorem Turns.lower_take (h : Turns P code ok f I) {i : Fin n}
    (hopen : ∀ u, I u → u.shared.pool.tasks ≠ [] → u.shared.pool.running = true ∧ u.shared.pool.paused = false)
    (hI : I s) (htasks : s.shared.pool.tasks ≠ []) (hl : WorkerPc.idle (s.loc (.worker i)) = true) :
    (threads P).Lowers ok f s := by
  apply h.lower_idle (fun u => u.shared.pool.tasks ≠ []) WorkerPc.toTake _ _ hI htasks hl
  · intro s u hC hu
    rw [hu.tasks]
    exact hC
  · intro u r hI hC hstep
    obtain ⟨hrun, hpaused⟩ := hopen u hI hC
    refine ⟨hstep.take hrun hpaused hC, ?_⟩
    rw [Config.set_shared, hstep.tasks]
    exact hC

end SysUtils.ThreadPool

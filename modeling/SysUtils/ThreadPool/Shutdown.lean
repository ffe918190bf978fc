import SysUtils.ThreadPool.Endings

namespace SysUtils.ThreadPool

open Interleaving

variable {n : ℕ} {γ τ β ε χ : Type} {κ : γ → Type}

/-! `running_` is cleared by `destroy_threads` alone, and no worker leaves before. -/

def ClientPc.closing {κ : Type} : ClientPc τ κ → Bool
  | .destroyNotify | .destroyJoin | .destroyed => true
  | _ => false

def WorkerPc.leaving : WorkerPc τ β → Bool
  | .leave | .ended => true
  | _ => false

variable [DecidableEq γ] {P : Program n γ τ β ε χ κ} {x : Choice n γ χ}

theorem ClientMove.closing {s : Shared n γ τ ε} {c : γ} {l : ClientPc τ (κ c)}
    {r : Shared n γ τ ε × ClientPc τ (κ c)} (h : ClientMove P c x s l r) :
    r.1.pool.running = s.pool.running ∧ r.2.closing = l.closing ∨
      r.1.pool.running = false ∧ r.2.closing = true := by
  cases h with
  | push t pc pc' k p hm => exact .inl ⟨hm.lasting.1, rfl⟩
  | pushEnd t pc k p hm => exact .inl ⟨hm.lasting.1, rfl⟩
  | wait pc pc' k p hm => exact .inl ⟨hm.lasting.1, rfl⟩
  | waitEnd pc k p hm => exact .inl ⟨hm.lasting.1, rfl⟩
  | destroyWait pc pc' p hm => exact .inl ⟨hm.lasting.1, rfl⟩
  | destroyWaitEnd pc p hm => exact .inl ⟨hm.lasting.1, rfl⟩
  | destroyRunning => exact .inr ⟨rfl, rfl⟩
  | _ => exact .inl ⟨rfl, rfl⟩

theorem WorkerMove.leaving {s : Shared n γ τ ε} {i : Fin n} {l : WorkerPc τ β}
    {r : Shared n γ τ ε × WorkerPc τ β} (h : WorkerMove P i x s l r) (hl : r.2.leaving = true) :
    l.leaving = true ∨ s.pool.running = false := by
  cases h with
  | stop hr => exact .inr hr
  | «break» hr => exact .inr hr
  | leave => exact .inl rfl
  | relock timedOut hfree => cases timedOut <;> cases hl
  | _ => cases hl

theorem WorkerMove.mem_exited {s : Shared n γ τ ε} {i : Fin n} {l : WorkerPc τ β}
    {r : Shared n γ τ ε × WorkerPc τ β} (h : WorkerMove P i x s l r) (hl : r.2 = .ended) :
    i ∈ r.1.pool.exited := by
  cases h with
  | stop hr => exact Finset.mem_insert_self _ _
  | leave => exact Finset.mem_insert_self _ _
  | relock timedOut hfree => cases timedOut <;> cases hl
  | _ => cases hl

structure Shutdown (s : State n τ β ε κ) : Prop where
  closing : s.shared.pool.running = false ↔ ∃ c, (s.loc (.client c)).closing = true
  leaving : ∀ i, (s.loc (.worker i)).leaving = true → s.shared.pool.running = false
  exited : ∀ i, s.loc (.worker i) = .ended → i ∈ s.shared.pool.exited

theorem Shutdown.step {s : State n τ β ε κ} (h : Shutdown s) {i : Thread n γ}
    {r : Shared n γ τ ε × Loc n τ β κ i} (hr : (threads P).step i x s.shared (s.loc i) = some r) :
    Shutdown (s.set i r) := by
  cases i with
  | worker i =>
    have hm := worker_move P hr
    obtain ⟨_, hrun, he⟩ := hm.exited
    refine ⟨?_, ?_, ?_⟩
    · rw [Config.set_shared, hrun, h.closing]
      apply exists_congr
      intro c
      rw [Config.set_loc_of_ne _ (by simp)]
    · intro j hj
      rw [Config.set_shared, hrun]
      by_cases hji : j = i
      · subst hji
        rw [Config.set_loc_self] at hj
        exact (hm.leaving hj).elim (h.leaving j) id
      · rw [Config.set_loc_of_ne _ (by simpa using hji)] at hj
        exact h.leaving j hj
    · intro j hj
      by_cases hji : j = i
      · subst hji
        rw [Config.set_loc_self] at hj
        exact hm.mem_exited hj
      · rw [Config.set_loc_of_ne _ (by simpa using hji)] at hj
        have hmem := h.exited j hj
        rcases he with he | ⟨_, he⟩ <;> rw [Config.set_shared, he]
        · exact hmem
        · exact Finset.mem_insert_of_mem hmem
  | client c =>
    have hm := client_move P hr
    have he := hm.exited.2.1
    have hworker (j : Fin n) : (s.set (.client c) r).loc (.worker j) = s.loc (.worker j) := by
      rw [Config.set_loc_of_ne _ (by simp)]
    refine ⟨?_, ?_, ?_⟩
    · rcases hm.closing with ⟨hrun, hc⟩ | ⟨hrun, hc⟩
      · rw [Config.set_shared, hrun, h.closing]
        apply exists_congr
        intro d
        by_cases hd : d = c
        · subst hd
          rw [Config.set_loc_self, hc]
        · rw [Config.set_loc_of_ne _ (by simpa using hd)]
      · refine ⟨fun _ => ⟨c, ?_⟩, fun _ => hrun⟩
        rw [Config.set_loc_self]
        exact hc
    · intro j hj
      rw [hworker] at hj
      exact hm.exited.1 (h.leaving j hj)
    · intro j hj
      rw [hworker] at hj
      rw [Config.set_shared, he]
      exact h.exited j hj

theorem shutdown_run {ok : State n τ β ε κ → Thread n γ → Choice n γ χ → Prop}
    {s : State n τ β ε κ} (h : ReachableBy P ok s) : Shutdown s := by
  apply Threads.Steps.invariant h
  · refine ⟨?_, ?_, ?_⟩
    · simp [initial, Pool.fresh, ClientPc.closing]
    · intro i hi
      cases hi
    · intro i hi
      cases hi
  · intro u i x r _ _ hr hI
    exact hI.step hr

end SysUtils.ThreadPool

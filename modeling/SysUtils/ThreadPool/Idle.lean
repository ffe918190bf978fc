import SysUtils.ThreadPool.Barrier
import SysUtils.ThreadPool.Jobs

namespace SysUtils.ThreadPool

open Interleaving

variable {n : ℕ} {γ τ β ε χ : Type} {κ : γ → Type}

theorem PushMove.uncounted_le {me : Thread n γ} {t : τ} {p : Pool n γ τ} {pc : PushPc}
    {r : Pool n γ τ × Option PushPc} (h : PushMove me t p pc r) :
    p.tasks.length ≤ r.1.tasks.length ∧ r.2.elim 0 PushPc.uncounted ≤ r.1.tasks.length := by
  cases h <;> simp [PushPc.uncounted]

variable [DecidableEq γ] {P : Program n γ τ β ε χ κ} {x : Choice n γ χ}

def Pushes (P : Program n γ τ β ε χ κ) (c : γ) (k : κ c) : Prop :=
  ∃ x count paused e k₀ t e', P.client c x count paused e k₀ = some (.push t, e', k)

theorem ReachableBy.pushes {ok : State n τ β ε κ → Thread n γ → Choice n γ χ → Prop}
    {s : State n τ β ε κ} (h : ReachableBy P ok s) {c : γ} {t : τ} {pc : PushPc} {k : κ c}
    (hl : s.loc (.client c) = .push t pc k) : Pushes P c k := by
  revert t pc k
  refine Threads.Steps.invariant
    (I := fun s => ∀ {t pc k}, s.loc (.client c) = .push t pc k → Pushes P c k) h ?_ ?_
  · intro t pc k hl
    cases hl
  · intro u i x r _ _ hr hI t pc k hl
    by_cases hi : Thread.client c = i
    · subst hi
      rw [Config.set_loc_self] at hl
      have hm := client_move P hr
      generalize u.loc (.client c) = l at hm hI
      obtain ⟨v, l'⟩ := r
      subst hl
      cases hm with
      | callPush t k₀ k e hc => exact ⟨_, _, _, _, _, _, _, hc⟩
      | push t pc pc' k p hm => exact hI rfl
    · rw [Config.set_loc_of_ne _ hi] at hl
      exact hI hl

theorem WorkerMove.uncounted_le {s : Shared n γ τ ε} {i : Fin n} {l : WorkerPc τ β}
    {r : Shared n γ τ ε × WorkerPc τ β} (h : WorkerMove P i x s l r) :
    (s.pool.tasks.length ≤ r.1.pool.tasks.length ∨ l.holds = true) ∧
      r.2.uncounted ≤ r.1.pool.tasks.length := by
  cases h with
  | push t t' k pc pc' p hm => exact ⟨.inl hm.uncounted_le.1, hm.uncounted_le.2⟩
  | pushEnd t t' k pc p hm => exact ⟨.inl hm.uncounted_le.1, Nat.zero_le _⟩
  | relock timedOut hfree => cases timedOut <;> exact ⟨.inl le_rfl, Nat.zero_le _⟩
  | take t ts ht => exact ⟨.inr rfl, Nat.zero_le _⟩
  | _ => exact ⟨.inl le_rfl, Nat.zero_le _⟩

theorem ClientMove.uncounted_le {s : Shared n γ τ ε} {c : γ} {l : ClientPc τ (κ c)}
    {r : Shared n γ τ ε × ClientPc τ (κ c)} (h : ClientMove P c x s l r) :
    s.pool.tasks.length ≤ r.1.pool.tasks.length ∧ r.2.uncounted ≤ r.1.pool.tasks.length := by
  cases h with
  | push t pc pc' k p hm => exact hm.uncounted_le
  | pushEnd t pc k p hm => exact ⟨hm.uncounted_le.1, Nat.zero_le _⟩
  | wait pc pc' k p hm => exact ⟨hm.tasks_popped.1.symm ▸ le_rfl, Nat.zero_le _⟩
  | waitEnd pc k p hm => exact ⟨hm.tasks_popped.1.symm ▸ le_rfl, Nat.zero_le _⟩
  | destroyWait pc pc' p hm => exact ⟨hm.tasks_popped.1.symm ▸ le_rfl, Nat.zero_le _⟩
  | destroyWaitEnd pc p hm => exact ⟨hm.tasks_popped.1.symm ▸ le_rfl, Nat.zero_le _⟩
  | _ => exact ⟨le_rfl, Nat.zero_le _⟩

theorem ReachableBy.uncounted_le {ok : State n τ β ε κ → Thread n γ → Choice n γ χ → Prop}
    {s : State n τ β ε κ} (h : ReachableBy P ok s) (j : Thread n γ) :
    uncountedAt j (s.loc j) ≤ s.shared.pool.tasks.length := by
  revert j
  refine Threads.Steps.invariant
    (I := fun s => ∀ j, uncountedAt j (s.loc j) ≤ s.shared.pool.tasks.length) h ?_ ?_
  · intro j
    cases j <;> exact Nat.zero_le _
  · intro u i x r hu _ hr hI j
    by_cases hj : j = i
    · subst hj
      rw [Config.set_loc_self]
      cases j with
      | worker i => exact (worker_move P hr).uncounted_le.2
      | client c => exact (client_move P hr).uncounted_le.2
    · rw [Config.set_loc_of_ne _ hj]
      have hlen : u.shared.pool.tasks.length ≤ r.1.pool.tasks.length ∨ holds i (u.loc i) = true := by
        cases i with
        | worker i => exact (worker_move P hr).uncounted_le.1
        | client c => exact .inl (client_move P hr).uncounted_le.1
      rcases hlen with hlen | hholds
      · exact (hI j).trans hlen
      · cases hh : holds j (u.loc j) with
        | true => exact absurd ((ReachableBy.lockInv hu).unique hh hholds) hj
        | false => rw [uncountedAt_of_free _ hh]; exact Nat.zero_le _

def Idle (s : State n τ β ε κ) : Prop := s.shared.pool.tasks = [] ∧ inFlight s = 0

theorem Idle.step {s : State n τ β ε κ} (h : Idle s) {i : Thread n γ}
    {r : Shared n γ τ ε × Loc n τ β κ i} (hr : (threads P).step i x s.shared (s.loc i) = some r)
    (ht : (∃ j, i = .worker j) ∨ r.1.pool.tasks = s.shared.pool.tasks) : Idle (s.set i r) := by
  obtain ⟨htasks, hin⟩ := h
  have hset := inFlight_set s i r
  cases i with
  | worker j =>
    obtain ⟨ht', hj⟩ := (worker_move P hr).idle htasks (inFlight_eq_zero_of_le hin j)
    refine ⟨ht', ?_⟩
    simpa [inFlightAt, hin, hj, inFlight_eq_zero_of_le hin j] using hset
  | client c =>
    refine ⟨(ht.resolve_left (by simp)).trans htasks, ?_⟩
    simpa [inFlightAt, hin] using hset

theorem ReachableBy.idle_of_count {ok : State n τ β ε κ → Thread n γ → Choice n γ χ → Prop}
    {s : State n τ β ε κ} (h : ReachableBy P ok s) (h0 : s.shared.pool.tasksTotal = 0)
    (hc : ∀ c t pc k, s.loc (.client c) ≠ .push t pc k) : Idle s := by
  have hb := (ReachableBy.conserved h).balance
  have hu : uncounted s = 0 := by
    unfold uncounted carried
    cases ho : mutexOwner s.shared with
    | none => rfl
    | some j =>
      simp only [Option.elim_some]
      by_contra hne
      have hj : 1 ≤ uncountedAt j (s.loc j) := Nat.one_le_iff_ne_zero.mpr hne
      have hq := ReachableBy.uncounted_le h j
      have hcarry : uncounted s = uncountedAt j (s.loc j) := by simp [uncounted, carried, ho]
      cases j with
      | client c =>
        cases hl : s.loc (.client c) with
        | push t pc k => exact hc c t pc k hl
        | _ => simp [hl, uncountedAt, ClientPc.uncounted] at hj
      | worker i =>
        cases hl : s.loc (.worker i) with
        | push t k t' pc =>
          have hle := Multiset.card_le_card (worker_inFlight_le s i)
          have hpc : pc.uncounted ≤ 1 := by cases pc <;> simp [PushPc.uncounted]
          simp only [hl, WorkerPc.inFlight, Multiset.card_singleton, uncountedAt,
            WorkerPc.uncounted] at hle hcarry hq hj
          omega
        | _ => simp [hl, uncountedAt, WorkerPc.uncounted] at hj
  rw [h0, hu] at hb
  exact ⟨List.length_eq_zero_iff.mp (by omega), Multiset.card_eq_zero.mp (by omega)⟩

theorem WorkerPc.job_of_inFlight {enter : τ → β} {l : WorkerPc τ β} (h : l.inFlight = 0) :
    l.job enter = none := by
  cases l <;> first | rfl | simp [WorkerPc.inFlight] at h

omit [DecidableEq γ] in
theorem Idle.job {s : State n τ β ε κ} (h : Idle s) (enter : τ → β) (i : Fin n) :
    (view enter s).loc (.worker i) = none :=
  WorkerPc.job_of_inFlight (inFlight_eq_zero_of_le h.2 i)

end SysUtils.ThreadPool

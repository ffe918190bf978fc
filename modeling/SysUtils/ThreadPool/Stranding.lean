import SysUtils.ThreadPool.Sleepers

namespace SysUtils.ThreadPool

open Interleaving

variable {n : ℕ} {γ τ β ε χ : Type} {κ : γ → Type}

def Stranded (s : State n τ β ε κ) : Prop :=
  s.shared.pool.paused = true ∧ 0 < s.shared.pool.tasksTotal ∧ inFlight s = 0 ∧
    ∀ i, s.loc (.worker i) ≠ .take

def Emptying (s : State n τ β ε κ) : Prop :=
  s.shared.pool.tasks = [] ∨ (s.shared.pool.tasks.length = 1 ∧ ∃ i, s.loc (.worker i) = .take)

section Decide

variable [DecidableEq τ] [DecidableEq β]

instance (s : State n τ β ε κ) : Decidable (Stranded s) :=
  inferInstanceAs (Decidable (_ ∧ _ ∧ _ ∧ ∀ i, ¬ (show WorkerPc τ β from s.loc (.worker i)) = .take))

instance (s : State n τ β ε κ) : Decidable (Emptying s) :=
  inferInstanceAs (Decidable (_ ∨ (_ ∧ ∃ i, (show WorkerPc τ β from s.loc (.worker i)) = .take)))

end Decide

theorem Conserved.not_stranded {s : State n τ β ε κ} (h : Conserved s)
    (he : s.shared.pool.paused = true → Emptying s) : ¬ Stranded s := by
  rintro ⟨hp, ht, hin, hnt⟩
  have hb := h.balance
  rcases he hp with hq | ⟨_, i, hi⟩
  · simp only [hq, hin, List.length_nil, Multiset.card_zero] at hb
    omega
  · exact hnt i hi

variable [DecidableEq γ] {P : Program n γ τ β ε χ κ} {x : Choice n γ χ}

theorem Emptying.step {s : State n τ β ε κ} (h : Emptying s) {i : Thread n γ}
    {r : Shared n γ τ ε × Loc n τ β κ i} (hr : (threads P).step i x s.shared (s.loc i) = some r)
    (hi : enqueuing i (s.loc i) = false) : Emptying (s.set i r) := by
  have hkeep (hq : r.1.pool.tasks = s.shared.pool.tasks)
      (hne : ∀ j, s.loc (.worker j) = .take → s.shared.pool.tasks ≠ [] → Thread.worker j ≠ i) :
      Emptying (s.set i r) := by
    rcases h with he | ⟨hlen, j, hj⟩
    · exact .inl (hq.trans he)
    · right
      refine ⟨by simpa [hq] using hlen, j, ?_⟩
      have hji : Thread.worker j ≠ i := by
        apply hne j hj
        intro he
        simp [he] at hlen
      rw [Config.set_loc_of_ne _ hji]
      exact hj
  cases i with
  | client c => exact hkeep ((client_move P hr).queue hi) fun j _ _ => by simp
  | worker k =>
    rcases (worker_move P hr).queue hi with ⟨hq, ht⟩ | ⟨_, t, ht⟩
    · apply hkeep hq
      intro j hj hne hji
      cases hji
      exact hne (ht hj)
    · left
      rcases h with he | ⟨hlen, _⟩
      · simp [he] at ht
      · rw [ht] at hlen
        simpa using hlen

omit [DecidableEq γ] in
theorem asked_of_enqueuing {s : State n τ β ε κ} {i : Thread n γ}
    (h : enqueuing i (s.loc i) = true) : asked P s i x = none := by
  cases i with
  | worker j =>
    cases hl : s.loc (.worker j) with
    | push t k t' pc => simp [asked, hl, workerCall]
    | _ => simp [hl, enqueuing, WorkerPc.enqueuing] at h
  | client c =>
    cases hl : s.loc (.client c) with
    | push t pc k => simp [asked, hl, clientCall]
    | _ => simp [hl, enqueuing, ClientPc.enqueuing] at h

theorem Emptying.step_paused {s : State n τ β ε κ} (h : s.shared.pool.paused = true → Emptying s)
    {i : Thread n γ} {r : Shared n γ τ ε × Loc n τ β κ i}
    (hr : (threads P).step i x s.shared (s.loc i) = some r)
    (hpause : callsPause P s i x = true → s.shared.pool.paused = false → Emptying s)
    (hpush : enqueuing i (s.loc i) = true → s.shared.pool.paused = false) :
    (s.set i r).shared.pool.paused = true → Emptying (s.set i r) := by
  intro hp
  have hafter : pausedAfter (asked P s i x) s.shared.pool.paused = true := by
    rw [← ThreadPool.step_paused hr]
    exact hp
  have hnot : enqueuing i (s.loc i) = false := by
    by_contra hne
    have he : enqueuing i (s.loc i) = true := by simpa using hne
    rw [asked_of_enqueuing he, hpush he] at hafter
    cases hafter
  refine Emptying.step ?_ hr hnot
  cases hold : s.shared.pool.paused with
  | true => exact h hold
  | false =>
    refine hpause ?_ hold
    by_contra hne
    have hq : isPause (asked P s i x) = false := by simpa [callsPause] using hne
    simp [pausedAfter, hq, hold] at hafter

theorem WorkerMove.stranded {s : Shared n γ τ ε} {i : Fin n} {l : WorkerPc τ β}
    {r : Shared n γ τ ε × WorkerPc τ β} (h : WorkerMove P i x s l r) (hp : s.pool.paused = true)
    (hl : l.inFlight = 0) (ht : l ≠ .take) :
    r.1.pool.tasksTotal = s.pool.tasksTotal ∧ r.2.inFlight = 0 ∧ r.2 ≠ .take := by
  cases h with
  | notPaused hf => simp [hp] at hf
  | take t ts hts => exact absurd rfl ht
  | relock timedOut hfree => cases timedOut <;> exact ⟨rfl, rfl, by simp⟩
  | _ => first | exact ⟨rfl, rfl, by simp⟩ | simp [WorkerPc.inFlight] at hl

theorem Stranded.step {s : State n τ β ε κ} (h : Stranded s) {i : Thread n γ}
    {r : Shared n γ τ ε × Loc n τ β κ i} (hr : (threads P).step i x s.shared (s.loc i) = some r)
    (hx : callsUnpause P s i x = false) : Stranded (s.set i r) := by
  obtain ⟨hp, ht, hin, hnt⟩ := h
  have hpaused : r.1.pool.paused = true := by
    have hq : isUnpause (asked P s i x) = false := hx
    rw [ThreadPool.step_paused hr]
    simp [pausedAfter, hq, hp]
  have hset := inFlight_set s i r
  cases i with
  | worker i =>
    obtain ⟨hr1, hr2, hr3⟩ := (worker_move P hr).stranded hp (inFlight_eq_zero_of_le hin i) (hnt i)
    refine ⟨hpaused, by simpa [hr1] using ht, ?_, ?_⟩
    · simpa [inFlightAt, hin, hr2, inFlight_eq_zero_of_le hin i] using hset
    · intro j
      by_cases hj : j = i
      · subst hj
        simpa using hr3
      · rw [Config.set_loc_of_ne _ (by simpa using hj)]
        exact hnt j
  | client c =>
    refine ⟨hpaused, lt_of_lt_of_le ht (client_move P hr).others.1, ?_, ?_⟩
    · simpa [inFlightAt, hin] using hset
    · intro j
      rw [Config.set_loc_of_ne _ (by simp)]
      exact hnt j

theorem stranded_run {s t : State n τ β ε κ} (h : Stranded s)
    (ht : (threads P).Steps (noUnpause P) s t) : Stranded t :=
  ht.invariant h fun _ _ _ _ _ hx hr hI => hI.step hr hx

end SysUtils.ThreadPool

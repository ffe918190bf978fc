import SysUtils.ThreadPool.Barrier

namespace SysUtils.ThreadPool

open Interleaving

variable {n : ℕ} {γ τ β ε χ : Type} {κ : γ → Type}

def WorkerPc.settling : WorkerPc τ β → Bool
  | .unlockTask _ | .body _ _ | .push _ _ _ _ | .lockAgain _ | .account _
  | .ifWaiting | .notifyDone => true
  | _ => false

def ClientPc.inWait {κ : Type} : ClientPc τ κ → Bool
  | .wait _ _ | .destroyWait _ => true
  | _ => false

def ClientPc.atBlock {κ : Type} : ClientPc τ κ → Bool
  | .wait .block _ | .destroyWait .block => true
  | _ => false

def ClientPc.blocked {κ : Type} : ClientPc τ κ → Bool
  | .wait .blocked _ | .destroyWait .blocked => true
  | _ => false

def ClientPc.flagged {κ : Type} : ClientPc τ κ → Bool
  | .wait pc _ | .destroyWait pc => pc != .setWaiting && pc != .unlock
  | _ => false

def Asleep (s : State n τ β ε κ) (c : γ) : Prop :=
  ClientPc.blocked (s.loc (.client c)) = true ∧ c ∈ s.shared.pool.taskDoneCv

def Committed (s : State n τ β ε κ) (c : γ) : Prop :=
  ClientPc.atBlock (s.loc (.client c)) = true ∨ Asleep s c

def Settling (s : State n τ β ε κ) : Prop :=
  ∃ i, WorkerPc.settling (s.loc (.worker i)) = true

def LostWakeUp (s : State n τ β ε κ) : Prop :=
  s.shared.pool.waitPredicate = true ∧ ¬ Settling s ∧ ∃ c, Asleep s c

def Abandoned (s : State n τ β ε κ) : Prop :=
  s.shared.pool.tasksTotal = 0 ∧ ¬ Settling s ∧ ∃ c, Asleep s c

instance (s : State n τ β ε κ) : Decidable (Settling s) := inferInstanceAs (Decidable (∃ _, _))

section Decide

variable [DecidableEq γ]

instance (s : State n τ β ε κ) (c : γ) : Decidable (Asleep s c) :=
  inferInstanceAs (Decidable (_ ∧ _))

instance (s : State n τ β ε κ) (c : γ) : Decidable (Committed s c) :=
  inferInstanceAs (Decidable (_ ∨ _))

variable [Fintype γ]

instance (s : State n τ β ε κ) : Decidable (LostWakeUp s) :=
  inferInstanceAs (Decidable (_ ∧ _ ∧ ∃ _, _))

instance (s : State n τ β ε κ) : Decidable (Abandoned s) :=
  inferInstanceAs (Decidable (_ ∧ _ ∧ ∃ _, _))

end Decide

def Awaited (s : State n τ β ε κ) : Prop :=
  Settling s ∨ (s.shared.pool.paused = false ∧ 0 < s.shared.pool.tasksTotal)

def Covered (s : State n τ β ε κ) : Prop := ∀ c, Committed s c → Awaited s

theorem WorkerPc.settling_of_inFlight {l : WorkerPc τ β} (h : l.inFlight ≠ 0) :
    l.settling = true := by
  cases l <;> first | rfl | exact absurd rfl h

theorem settling_of_inFlight {s : State n τ β ε κ} (h : inFlight s ≠ 0) : Settling s := by
  have hsum : ∑ i, WorkerPc.inFlight (s.loc (.worker i)) ≠ 0 := h
  obtain ⟨i, _, hi⟩ := Finset.exists_ne_zero_of_sum_ne_zero hsum
  exact ⟨i, WorkerPc.settling_of_inFlight hi⟩

theorem Conserved.awaited {s : State n τ β ε κ} (h : Conserved s) (hu : uncounted s = 0)
    (hp : s.shared.pool.waitPredicate = false) : Awaited s := by
  have hb := h.balance
  have ht : s.shared.pool.tasksTotal ≠
      if s.shared.pool.paused then s.shared.pool.tasks.length else 0 := by
    simpa [Pool.waitPredicate] using hp
  cases hpaused : s.shared.pool.paused with
  | true =>
    left
    apply settling_of_inFlight
    intro hin
    simp only [hpaused, ↓reduceIte, hin, Multiset.card_zero] at ht hb
    omega
  | false =>
    right
    simp only [hpaused, Bool.false_eq_true, ↓reduceIte] at ht
    exact ⟨hpaused, Nat.pos_of_ne_zero ht⟩

theorem Covered.initial {P : Program n γ τ β ε χ κ} : Covered (ThreadPool.initial P) := by
  rintro c (h | ⟨h, _⟩) <;> cases h

theorem Covered.not_lostWakeUp {s : State n τ β ε κ} (h : Covered s) : ¬ LostWakeUp s := by
  rintro ⟨hp, hs, c, hc⟩
  obtain ⟨hpaused, ht⟩ := (h c (.inr hc)).resolve_left hs
  simp [Pool.waitPredicate, hpaused] at hp
  omega

theorem PushMove.count_le {me : Thread n γ} {t : τ} {p : Pool n γ τ} {pc : PushPc}
    {r : Pool n γ τ × Option PushPc} (h : PushMove me t p pc r) :
    p.tasksTotal ≤ r.1.tasksTotal ∧ r.1.taskDoneCv = p.taskDoneCv ∧ r.1.waiting = p.waiting := by
  cases h <;> simp

variable [DecidableEq γ] {P : Program n γ τ β ε χ κ} {x : Choice n γ χ}

theorem WorkerMove.unsettled {s : Shared n γ τ ε} {i : Fin n} {l : WorkerPc τ β}
    {r : Shared n γ τ ε × WorkerPc τ β} (h : WorkerMove P i x s l r) (hl : l.settling = false) :
    r.1.pool.paused = s.pool.paused ∧ r.1.pool.tasksTotal = s.pool.tasksTotal ∧
      r.1.pool.taskDoneCv = s.pool.taskDoneCv := by
  cases h with
  | push t t' k pc pc' p hm => cases hl
  | pushEnd t t' k pc p hm => cases hl
  | _ => first | exact ⟨rfl, rfl, rfl⟩ | cases hl

theorem WorkerMove.settled {s : Shared n γ τ ε} {i : Fin n} {l : WorkerPc τ β}
    {r : Shared n γ τ ε × WorkerPc τ β} (h : WorkerMove P i x s l r) (hl : l.settling = true)
    (hr : r.2.settling = false) :
    (l = .ifWaiting ∧ s.pool.waiting = false ∧ r.1 = s) ∨
      (l = .notifyDone ∧ s.pool.taskDoneCv = ∅ ∧ r.1 = s) ∨
      (l = .notifyDone ∧ ∃ c ∈ s.pool.taskDoneCv,
        r.1 = ⟨{ s.pool with taskDoneCv := s.pool.taskDoneCv.erase c }, s.env⟩) := by
  cases h with
  | notWaiting hw => exact .inl ⟨rfl, hw, rfl⟩
  | notifyNone hcv => exact .inr (.inl ⟨rfl, hcv, rfl⟩)
  | notifyDone c hc => exact .inr (.inr ⟨rfl, c, hc, rfl⟩)
  | _ => simp [WorkerPc.settling] at hl hr

theorem WaitMove.others {me : γ} {p : Pool n γ τ} {pc : WaitPc} {r : Pool n γ τ × Option WaitPc}
    (h : WaitMove me p pc r) : r.1.tasksTotal = p.tasksTotal ∧
      ∀ c, c ≠ me → (c ∈ r.1.taskDoneCv ↔ c ∈ p.taskDoneCv) := by
  cases h <;> simp_all

theorem ClientMove.others {s : Shared n γ τ ε} {c : γ} {l : ClientPc τ (κ c)}
    {r : Shared n γ τ ε × ClientPc τ (κ c)} (h : ClientMove P c x s l r) :
    s.pool.tasksTotal ≤ r.1.pool.tasksTotal ∧
      ∀ d, d ≠ c → (d ∈ r.1.pool.taskDoneCv ↔ d ∈ s.pool.taskDoneCv) := by
  cases h with
  | push t pc pc' k p hm => exact ⟨hm.count_le.1, fun d _ => by rw [hm.count_le.2.1]⟩
  | pushEnd t pc k p hm => exact ⟨hm.count_le.1, fun d _ => by rw [hm.count_le.2.1]⟩
  | wait pc pc' k p hm => exact ⟨hm.others.1.ge, hm.others.2⟩
  | waitEnd pc k p hm => exact ⟨hm.others.1.ge, hm.others.2⟩
  | destroyWait pc pc' p hm => exact ⟨hm.others.1.ge, hm.others.2⟩
  | destroyWaitEnd pc p hm => exact ⟨hm.others.1.ge, hm.others.2⟩
  | _ => exact ⟨le_rfl, fun _ _ => Iff.rfl⟩

theorem ClientMove.committed {s : Shared n γ τ ε} {c : γ} {l : ClientPc τ (κ c)}
    {r : Shared n γ τ ε × ClientPc τ (κ c)} (h : ClientMove P c x s l r)
    (hr : r.2.atBlock = true ∨ r.2.blocked = true ∧ c ∈ r.1.pool.taskDoneCv) :
    (l.atBlock = true ∨ l.blocked = true ∧ c ∈ s.pool.taskDoneCv) ∨
      (l.atPredicate = true ∧ s.pool.waitPredicate = false) := by
  cases h with
  | wait pc pc' k p hm =>
    cases hm <;> simp_all [ClientPc.atBlock, ClientPc.blocked, ClientPc.atPredicate]
  | destroyWait pc pc' p hm =>
    cases hm <;> simp_all [ClientPc.atBlock, ClientPc.blocked, ClientPc.atPredicate]
  | _ => simp [ClientPc.atBlock, ClientPc.blocked] at hr

theorem Committed.of_client {s : State n τ β ε κ} {d c : γ}
    {r : Shared n γ τ ε × Loc n τ β κ (.client d)}
    (hr : (threads P).step (.client d) x s.shared (s.loc (.client d)) = some r)
    (h : Committed (s.set (.client d) r) c) :
    Committed s c ∨ (ClientPc.atPredicate (s.loc (.client d)) = true ∧
      s.shared.pool.waitPredicate = false) := by
  by_cases hcd : c = d
  · subst hcd
    exact (client_move P hr).committed (by simpa [Committed, Asleep] using h)
  · left
    have hne : Thread.client c ≠ (Thread.client d : Thread n γ) := by simpa using hcd
    have hcv := (client_move P hr).others.2 c hcd
    simp only [Committed, Asleep, Config.set_loc_of_ne _ hne, Config.set_shared] at h ⊢
    rwa [hcv] at h

theorem Awaited.of_client {s : State n τ β ε κ} (h : Awaited s) {d : γ}
    {r : Shared n γ τ ε × Loc n τ β κ (.client d)}
    (hr : (threads P).step (.client d) x s.shared (s.loc (.client d)) = some r)
    (hx : callsPause P s (.client d) x = true → Settling s) : Awaited (s.set (.client d) r) := by
  have hset (hs : Settling s) : Settling (s.set (.client d) r) := by
    obtain ⟨i, hi⟩ := hs
    exact ⟨i, by rwa [Config.set_loc_of_ne _ (by simp)]⟩
  rcases h with hs | ⟨hp, ht⟩
  · exact .inl (hset hs)
  · cases hx' : callsPause P s (.client d) x with
    | true => exact .inl (hset (hx hx'))
    | false =>
      have hq : isPause (asked P s (.client d) x) = false := hx'
      have hle := (client_move P hr).others.1
      refine .inr ⟨?_, by simpa using lt_of_lt_of_le ht hle⟩
      simp [step_paused hr, pausedAfter, hq, hp]

theorem Covered.step {s : State n τ β ε κ} (h : Covered s) (hc : Conserved s)
    (hl : LockInv mutexOwner holds s) {i : Thread n γ} {r : Shared n γ τ ε × Loc n τ β κ i}
    (hr : (threads P).step i x s.shared (s.loc i) = some r)
    (hpause : callsPause P s i x = true → ∀ c, Committed s c → Settling s)
    (hleave : ∀ j c, s.loc (.worker j) = .ifWaiting ∨ s.loc (.worker j) = .notifyDone →
      i = .worker j → Committed (s.set i r) c → ¬ Settling (s.set i r) → Awaited (s.set i r)) :
    Covered (s.set i r) := by
  intro c hcom
  cases i with
  | client d =>
    rcases Committed.of_client hr hcom with hold | ⟨hat, hp⟩
    · exact (h c hold).of_client hr fun hx => hpause hx c hold
    · have hpaused : callsPause P s (.client d) x = false := by
        have hloc : clientCall P d x s.shared (s.loc (.client d)) = none := by
          cases hs : s.loc (.client d) <;> first | rfl | simp [hs, ClientPc.atPredicate] at hat
        simp [callsPause, asked, hloc, isPause]
      exact (hc.awaited (uncounted_of_atPredicate hl hat) hp).of_client hr
        fun hx => absurd hx (by simp [hpaused])
  | worker j =>
    by_cases hs : Settling (s.set (.worker j) r)
    · exact .inl hs
    have hr2 : WorkerPc.settling r.2 = false := by
      by_contra hne
      exact hs ⟨j, by simpa using hne⟩
    cases hj : WorkerPc.settling (s.loc (.worker j)) with
    | true =>
      refine hleave j c ?_ rfl hcom hs
      rcases (worker_move P hr).settled hj hr2 with ⟨he, _⟩ | ⟨he, _⟩ | ⟨he, _⟩
      · exact .inl he
      · exact .inr he
      · exact .inr he
    | false =>
      obtain ⟨hp, ht, hcv⟩ := (worker_move P hr).unsettled hj
      have hold : Committed s c := by
        simp only [Committed, Asleep, Config.set_shared] at hcom ⊢
        rwa [Config.set_loc_of_ne _ (by simp), hcv] at hcom
      rcases h c hold with ⟨k, hk⟩ | ⟨hp0, ht0⟩
      · have hkj : k ≠ j := fun hkj => by rw [hkj, hj] at hk; cases hk
        exact absurd ⟨k, by rwa [Config.set_loc_of_ne _ (by simpa using hkj)]⟩ hs
      · exact .inr ⟨hp.trans hp0, by simpa [ht] using ht0⟩

end SysUtils.ThreadPool

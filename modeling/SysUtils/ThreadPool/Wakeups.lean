import SysUtils.ThreadPool.Sleepers

namespace SysUtils.ThreadPool

open Interleaving

variable {n : ℕ} {γ τ β ε χ : Type} {κ : γ → Type} [DecidableEq γ]
variable {P : Program n γ τ β ε χ κ} {x : Choice n γ χ}

theorem WorkerMove.taskDoneCv_subset {s : Shared n γ τ ε} {i : Fin n} {l : WorkerPc τ β}
    {r : Shared n γ τ ε × WorkerPc τ β} (h : WorkerMove P i x s l r) :
    r.1.pool.taskDoneCv ⊆ s.pool.taskDoneCv ∧ r.1.pool.waiting = s.pool.waiting := by
  cases h with
  | push t t' k pc pc' p hm => exact ⟨hm.count_le.2.1.subset, hm.count_le.2.2⟩
  | pushEnd t t' k pc p hm => exact ⟨hm.count_le.2.1.subset, hm.count_le.2.2⟩
  | notifyDone c hc => exact ⟨Finset.erase_subset _ _, rfl⟩
  | _ => exact ⟨Finset.Subset.refl _, rfl⟩

theorem ClientMove.blocked_of_mem {s : Shared n γ τ ε} {c : γ} {l : ClientPc τ (κ c)}
    {r : Shared n γ τ ε × ClientPc τ (κ c)} (h : ClientMove P c x s l r)
    (hl : c ∈ s.pool.taskDoneCv → l.blocked = true) (hr : c ∈ r.1.pool.taskDoneCv) :
    r.2.blocked = true := by
  cases h with
  | wait pc pc' k p hm => cases hm <;> simp_all [ClientPc.blocked]
  | waitEnd pc k p hm => cases hm; exact hl hr
  | destroyWait pc pc' p hm => cases hm <;> simp_all [ClientPc.blocked]
  | destroyWaitEnd pc p hm => cases hm; exact hl hr
  | push t pc pc' k p hm => rw [hm.count_le.2.1] at hr; exact hl hr
  | pushEnd t pc k p hm => rw [hm.count_le.2.1] at hr; exact hl hr
  | _ => exact hl hr

theorem blocked_of_mem {ok : State n τ β ε κ → Thread n γ → Choice n γ χ → Prop}
    {s : State n τ β ε κ} (h : ReachableBy P ok s) {c : γ} (hc : c ∈ s.shared.pool.taskDoneCv) :
    ClientPc.blocked (s.loc (.client c)) = true := by
  revert c
  refine Threads.Steps.invariant (I := fun s => ∀ {c}, c ∈ s.shared.pool.taskDoneCv →
    ClientPc.blocked (s.loc (.client c)) = true) h ?_ ?_
  · intro c hc
    simp [initial, Pool.fresh] at hc
  · intro u i x r _ _ hr hI c hc
    cases i with
    | worker j =>
      rw [Config.set_loc_of_ne _ (by simp)]
      exact hI ((worker_move P hr).taskDoneCv_subset.1 hc)
    | client d =>
      by_cases hcd : c = d
      · subst hcd
        rw [Config.set_loc_self]
        exact (client_move P hr).blocked_of_mem hI hc
      · rw [Config.set_loc_of_ne _ (by simpa using hcd)]
        exact hI (((client_move P hr).others.2 c hcd).mp hc)

def OneWaiter (s : State n τ β ε κ) : Prop :=
  ∀ c d, ClientPc.inWait (s.loc (.client c)) = true → ClientPc.inWait (s.loc (.client d)) = true →
    c = d

instance [Fintype γ] (s : State n τ β ε κ) : Decidable (OneWaiter s) :=
  inferInstanceAs (Decidable (∀ _ _, _ → _ → _))

theorem ClientPc.inWait_of_flagged {κ : Type} {l : ClientPc τ κ} (h : l.flagged = true) :
    l.inWait = true := by
  cases l <;> first | rfl | cases h

theorem ClientPc.flagged_of_blocked {κ : Type} {l : ClientPc τ κ} (h : l.blocked = true) :
    l.flagged = true := by
  cases l with
  | wait pc k => cases pc <;> first | rfl | cases h
  | destroyWait pc => cases pc <;> first | rfl | cases h
  | _ => cases h

theorem ClientMove.waiting {s : Shared n γ τ ε} {c : γ} {l : ClientPc τ (κ c)}
    {r : Shared n γ τ ε × ClientPc τ (κ c)} (h : ClientMove P c x s l r) :
    (s.pool.waiting = true → r.1.pool.waiting = true ∨ l.inWait = true) ∧
      (r.2.flagged = true → l.flagged = true ∧ r.1.pool.waiting = s.pool.waiting ∨
        r.1.pool.waiting = true) := by
  cases h with
  | wait pc pc' k p hm => cases hm <;> simp [ClientPc.inWait, ClientPc.flagged]
  | waitEnd pc k p hm => cases hm; simp [ClientPc.inWait, ClientPc.flagged]
  | destroyWait pc pc' p hm => cases hm <;> simp [ClientPc.inWait, ClientPc.flagged]
  | destroyWaitEnd pc p hm => cases hm; simp [ClientPc.inWait, ClientPc.flagged]
  | push t pc pc' k p hm => exact ⟨fun hw => .inl (hm.count_le.2.2.trans hw), fun hf => by cases hf⟩
  | pushEnd t pc k p hm => exact ⟨fun hw => .inl (hm.count_le.2.2.trans hw), fun hf => by cases hf⟩
  | _ => exact ⟨.inl, fun hf => by cases hf⟩

theorem waiting_of_flagged {ok : State n τ β ε κ → Thread n γ → Choice n γ χ → Prop}
    (hone : ∀ s i x, ok s i x → OneWaiter s) {s : State n τ β ε κ} (h : ReachableBy P ok s) {c : γ}
    (hc : ClientPc.flagged (s.loc (.client c)) = true) : s.shared.pool.waiting = true := by
  revert c
  refine Threads.Steps.invariant (I := fun s => ∀ {c},
    ClientPc.flagged (s.loc (.client c)) = true → s.shared.pool.waiting = true) h ?_ ?_
  · intro c hc
    cases hc
  · intro u i x r _ hx hr hI c hc
    cases i with
    | worker j =>
      rw [Config.set_loc_of_ne _ (by simp)] at hc
      exact (worker_move P hr).taskDoneCv_subset.2.trans (hI hc)
    | client d =>
      by_cases hcd : c = d
      · subst hcd
        rw [Config.set_loc_self] at hc
        rcases (client_move P hr).waiting.2 hc with ⟨hl, he⟩ | he
        · exact he.trans (hI hl)
        · exact he
      · rw [Config.set_loc_of_ne _ (by simpa using hcd)] at hc
        refine ((client_move P hr).waiting.1 (hI hc)).resolve_right fun hd => hcd ?_
        exact hone u _ x hx c d (ClientPc.inWait_of_flagged hc) hd

/-- The steps of a run with one waiter at a time in which `pause()` comes only while nobody sleeps, or
while a completion is still to be announced. -/
def pauseSafe (P : Program n γ τ β ε χ κ) (s : State n τ β ε κ) (i : Thread n γ)
    (x : Choice n γ χ) : Prop :=
  OneWaiter s ∧ (callsPause P s i x = true → ∀ c, Committed s c → Settling s)

instance [Fintype γ] (s : State n τ β ε κ) (i : Thread n γ) (x : Choice n γ χ) :
    Decidable (pauseSafe P s i x) := inferInstanceAs (Decidable (_ ∧ (_ → ∀ _, _)))

theorem Committed.of_worker {s : State n τ β ε κ} (hl : LockInv mutexOwner holds s) {j : Fin n}
    {r : Shared n γ τ ε × Loc n τ β κ (.worker j)}
    (hj : WorkerPc.holds (s.loc (.worker j)) = true) {c : γ}
    (h : Committed (s.set (.worker j) r) c) :
    ClientPc.blocked (s.loc (.client c)) = true ∧ c ∈ r.1.pool.taskDoneCv := by
  simp only [Committed, Asleep, Config.set_shared] at h
  rw [Config.set_loc_of_ne _ (by simp)] at h
  apply h.resolve_left
  intro hb
  have hc : ClientPc.holds (s.loc (.client c)) = true := by
    cases hloc : s.loc (.client c) with
    | wait pc k => cases pc <;> simp_all [ClientPc.atBlock, ClientPc.holds, WaitPc.holds]
    | destroyWait pc => cases pc <;> simp_all [ClientPc.atBlock, ClientPc.holds, WaitPc.holds]
    | _ => simp [hloc, ClientPc.atBlock] at hb
  have he := hl.unique (i := .worker j) (j := .client c) hj hc
  cases he

theorem not_committed_of_settled {s : State n τ β ε κ} (hl : LockInv mutexOwner holds s)
    (hone : OneWaiter s)
    (hblocked : ∀ c ∈ s.shared.pool.taskDoneCv, ClientPc.blocked (s.loc (.client c)) = true)
    (hflag : ∀ c, ClientPc.flagged (s.loc (.client c)) = true → s.shared.pool.waiting = true)
    {j : Fin n} {r : Shared n γ τ ε × Loc n τ β κ (.worker j)}
    (hr : (threads P).step (.worker j) x s.shared (s.loc (.worker j)) = some r)
    (hj : s.loc (.worker j) = .ifWaiting ∨ s.loc (.worker j) = .notifyDone)
    (hleft : WorkerPc.settling r.2 = false) (c : γ) : ¬ Committed (s.set (.worker j) r) c := by
  intro hcom
  have hholds : WorkerPc.holds (s.loc (.worker j)) = true := by
    rcases hj with h | h <;> rw [h] <;> rfl
  have hset : WorkerPc.settling (s.loc (.worker j)) = true := by
    rcases hj with h | h <;> rw [h] <;> rfl
  obtain ⟨hb, hcv⟩ := hcom.of_worker hl hholds
  rcases (worker_move P hr).settled hset hleft with ⟨_, hw, _⟩ | ⟨_, he, hr1⟩ | ⟨_, d, hd, hr1⟩
  · rw [hflag c (ClientPc.flagged_of_blocked hb)] at hw
    cases hw
  · rw [hr1, he] at hcv
    cases hcv
  · have hin (e : γ) (he : ClientPc.blocked (s.loc (.client e)) = true) :=
      ClientPc.inWait_of_flagged (ClientPc.flagged_of_blocked he)
    obtain rfl : c = d := hone c d (hin c hb) (hin d (hblocked d hd))
    simp [hr1] at hcv

theorem covered_of_pauseSafe {s : State n τ β ε κ} (h : ReachableBy P (pauseSafe P) s) :
    Covered s := by
  apply Threads.Steps.invariant h Covered.initial
  intro u i x r hu hx hr hI
  have hl : LockInv mutexOwner holds u := ReachableBy.lockInv hu
  apply hI.step (ReachableBy.conserved hu) hl hr hx.2
  intro j c hj hij hcom hs
  subst hij
  have hleft : WorkerPc.settling r.2 = false := by
    by_contra hne
    exact hs ⟨j, by simpa using hne⟩
  exact absurd hcom (not_committed_of_settled hl hx.1 (fun _ => blocked_of_mem hu)
    (fun _ => waiting_of_flagged (fun _ _ _ h => h.1) hu) hr hj hleft c)

theorem no_lost_wakeup (P : Program n γ τ β ε χ κ) {s : State n τ β ε κ}
    (hs : ReachableBy P (pauseSafe P) s) : ¬ LostWakeUp s :=
  (covered_of_pauseSafe hs).not_lostWakeUp

def pauser : Program 1 (Fin 2) ℕ Unit Unit Unit (fun _ => List (Call ℕ)) :=
  script 1 ![[.push 7, .wait], [.pause]]

theorem no_lost_wakeup_pauser : ∃ s, ReachableBy pauser (pauseSafe pauser) s ∧
    s.shared.pool.paused = true ∧ (∃ c, Asleep s c) ∧ ¬ LostWakeUp s := by
  have h : ((threads pauser).run (pauseSafe pauser) (initial pauser)
      (steps (.client 0) 11 ++ steps (.worker 0) 8 ++ steps (.client 1) 1)).map
        (fun s => decide (s.shared.pool.paused = true ∧ ∃ c, Asleep s c)) = some true := by decide
  obtain ⟨s, hs, hp⟩ := Threads.exists_steps_of_run h
  obtain ⟨hpaused, hasleep⟩ := of_decide_eq_true hp
  exact ⟨s, hs, hpaused, hasleep, no_lost_wakeup pauser hs⟩

def oneWaiter (s : State n τ β ε κ) (_ : Thread n γ) (x : Choice n γ χ) : Prop :=
  OneWaiter s ∧ x.spurious = false

instance [Fintype γ] (s : State n τ β ε κ) (i : Thread n γ) (x : Choice n γ χ) :
    Decidable (oneWaiter s i x) := inferInstanceAs (Decidable (_ ∧ _))

theorem pause_loses_wakeup : ∃ s, ReachableBy pauser oneWaiter s ∧ LostWakeUp s := by
  have h : ((threads pauser).run oneWaiter (initial pauser)
      (steps (.client 0) 11 ++ steps (.client 1) 1)).map (fun s => decide (LostWakeUp s)) =
        some true := by decide
  obtain ⟨s, hs, hp⟩ := Threads.exists_steps_of_run h
  exact ⟨s, hs, of_decide_eq_true hp⟩

end SysUtils.ThreadPool

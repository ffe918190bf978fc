import SysUtils.ThreadPool.Conservation

namespace SysUtils.ThreadPool

open Interleaving

variable {n : ℕ} {γ τ β ε χ : Type} {κ : γ → Type}

def ClientPc.atPredicate {κ : Type} : ClientPc τ κ → Bool
  | .wait .predicate _ | .destroyWait .predicate => true
  | _ => false

theorem ClientPc.holds_of_atPredicate {κ : Type} {l : ClientPc τ κ} (h : l.atPredicate = true) :
    l.holds = true ∧ l.uncounted = 0 := by
  cases l with
  | wait pc k => cases pc <;> simp_all [ClientPc.atPredicate, ClientPc.holds, WaitPc.holds,
      ClientPc.uncounted]
  | destroyWait pc => cases pc <;> simp_all [ClientPc.atPredicate, ClientPc.holds, WaitPc.holds,
      ClientPc.uncounted]
  | _ => simp [ClientPc.atPredicate] at h

theorem Conserved.of_waitPredicate {s : State n τ β ε κ} (h : Conserved s) (hu : uncounted s = 0)
    (hp : s.shared.pool.waitPredicate = true) :
    inFlight s = 0 ∧ (s.shared.pool.paused = false → s.shared.pool.tasks = [] ∧
      (s.shared.pool.pushed : Multiset τ) = s.shared.pool.finished) := by
  have hb := h.balance
  have ht : s.shared.pool.tasksTotal =
      if s.shared.pool.paused then s.shared.pool.tasks.length else 0 := by
    simpa [Pool.waitPredicate] using hp
  have hin : inFlight s = 0 := by
    rw [← Multiset.card_eq_zero]
    split_ifs at ht <;> omega
  refine ⟨hin, fun hpaused => ?_⟩
  have hq : s.shared.pool.tasks = [] := by
    rw [← List.length_eq_zero_iff]
    simp only [hpaused, Bool.false_eq_true, ↓reduceIte] at ht
    omega
  refine ⟨hq, ?_⟩
  rw [h.fifo, hq, List.append_nil, h.started, hin, zero_add]

theorem inFlight_eq_zero_of_le {s : State n τ β ε κ} (h : inFlight s = 0) (i : Fin n) :
    WorkerPc.inFlight (s.loc (.worker i)) = 0 := by
  have := worker_inFlight_le s i
  rw [h] at this
  exact Multiset.le_zero.mp this

theorem uncounted_of_atPredicate {s : State n τ β ε κ} (hl : LockInv mutexOwner holds s) {c : γ}
    (hc : ClientPc.atPredicate (s.loc (.client c)) = true) : uncounted s = 0 := by
  obtain ⟨hh, hu⟩ := ClientPc.holds_of_atPredicate hc
  exact (carried_holder hl (i := .client c) hh).trans hu

theorem PushMove.popped {me : Thread n γ} {t : τ} {p : Pool n γ τ} {pc : PushPc}
    {r : Pool n γ τ × Option PushPc} (h : PushMove me t p pc r) : r.1.popped = p.popped := by
  cases h <;> rfl

def PushPc.enqueuing : PushPc → Bool
  | .enqueue => true
  | _ => false

def WorkerPc.enqueuing : WorkerPc τ β → Bool
  | .push _ _ _ pc => pc.enqueuing
  | _ => false

def ClientPc.enqueuing {κ : Type} : ClientPc τ κ → Bool
  | .push _ pc _ => pc.enqueuing
  | _ => false

def enqueuing : ∀ i : Thread n γ, Loc n τ β κ i → Bool
  | .worker _ => WorkerPc.enqueuing
  | .client _ => ClientPc.enqueuing

theorem PushMove.tasks {me : Thread n γ} {t : τ} {p : Pool n γ τ} {pc : PushPc}
    {r : Pool n γ τ × Option PushPc} (h : PushMove me t p pc r) :
    pc.enqueuing = true ∨ r.1.tasks = p.tasks := by
  cases h <;> simp [PushPc.enqueuing]

structure Frozen (popped : List τ) (s : State n τ β ε κ) : Prop where
  paused : s.shared.pool.paused = true
  noTake : ∀ i, s.loc (.worker i) ≠ .take
  popped : s.shared.pool.popped = popped

variable [DecidableEq γ] {P : Program n γ τ β ε χ κ} {x : Choice n γ χ}

theorem WaitMove.tasks_popped {me : γ} {p : Pool n γ τ} {pc : WaitPc}
    {r : Pool n γ τ × Option WaitPc} (h : WaitMove me p pc r) :
    r.1.tasks = p.tasks ∧ r.1.popped = p.popped := by
  cases h <;> exact ⟨rfl, rfl⟩

theorem ClientMove.popped {s : Shared n γ τ ε} {c : γ} {l : ClientPc τ (κ c)}
    {r : Shared n γ τ ε × ClientPc τ (κ c)} (h : ClientMove P c x s l r) :
    r.1.pool.popped = s.pool.popped := by
  cases h with
  | push t pc pc' k p hm => exact hm.popped
  | pushEnd t pc k p hm => exact hm.popped
  | wait pc pc' k p hm => exact hm.tasks_popped.2
  | waitEnd pc k p hm => exact hm.tasks_popped.2
  | destroyWait pc pc' p hm => exact hm.tasks_popped.2
  | destroyWaitEnd pc p hm => exact hm.tasks_popped.2
  | _ => rfl

theorem WorkerMove.queue {s : Shared n γ τ ε} {i : Fin n} {l : WorkerPc τ β}
    {r : Shared n γ τ ε × WorkerPc τ β} (h : WorkerMove P i x s l r) (hl : l.enqueuing = false) :
    (r.1.pool.tasks = s.pool.tasks ∧ (l = .take → s.pool.tasks = [])) ∨
      (l = .take ∧ ∃ t, s.pool.tasks = t :: r.1.pool.tasks) := by
  cases h with
  | take t ts ht => exact .inr ⟨rfl, t, ht⟩
  | empty ht => exact .inl ⟨rfl, fun _ => ht⟩
  | push t t' k pc pc' p hm =>
    exact .inl ⟨hm.tasks.resolve_left (ne_true_of_eq_false hl), fun h => by cases h⟩
  | pushEnd t t' k pc p hm =>
    exact .inl ⟨hm.tasks.resolve_left (ne_true_of_eq_false hl), fun h => by cases h⟩
  | _ => exact .inl ⟨rfl, fun h => by cases h⟩

theorem ClientMove.queue {s : Shared n γ τ ε} {c : γ} {l : ClientPc τ (κ c)}
    {r : Shared n γ τ ε × ClientPc τ (κ c)} (h : ClientMove P c x s l r) (hl : l.enqueuing = false) :
    r.1.pool.tasks = s.pool.tasks := by
  cases h with
  | push t pc pc' k p hm => exact hm.tasks.resolve_left (ne_true_of_eq_false hl)
  | pushEnd t pc k p hm => exact hm.tasks.resolve_left (ne_true_of_eq_false hl)
  | wait pc pc' k p hm => exact hm.tasks_popped.1
  | waitEnd pc k p hm => exact hm.tasks_popped.1
  | destroyWait pc pc' p hm => exact hm.tasks_popped.1
  | destroyWaitEnd pc p hm => exact hm.tasks_popped.1
  | _ => rfl

theorem WorkerMove.popped {s : Shared n γ τ ε} {i : Fin n} {l : WorkerPc τ β}
    {r : Shared n γ τ ε × WorkerPc τ β} (h : WorkerMove P i x s l r)
    (hp : s.pool.paused = true) (hl : l ≠ .take) :
    r.1.pool.popped = s.pool.popped ∧ r.2 ≠ .take := by
  cases h with
  | push t t' k pc pc' p hm => exact ⟨hm.popped, by simp⟩
  | pushEnd t t' k pc p hm => exact ⟨hm.popped, by simp⟩
  | relock timedOut hfree => exact ⟨rfl, by cases timedOut <;> simp⟩
  | notPaused hp' => rw [hp] at hp'; cases hp'
  | take t ts ht => exact absurd rfl hl
  | _ => exact ⟨rfl, by simp⟩

def noUnpause (P : Program n γ τ β ε χ κ) (s : State n τ β ε κ) (i : Thread n γ)
    (x : Choice n γ χ) : Prop := callsUnpause P s i x = false

theorem paused_step {s : State n τ β ε κ} {i : Thread n γ} {r : Shared n γ τ ε × Loc n τ β κ i}
    (hx : noUnpause P s i x) (hr : (threads P).step i x s.shared (s.loc i) = some r)
    (hp : s.shared.pool.paused = true) : r.1.pool.paused = true := by
  have hx' : isUnpause (asked P s i x) = false := hx
  simp [step_paused hr, pausedAfter, hx', hp]

theorem Frozen.step {popped : List τ} {s : State n τ β ε κ} (h : Frozen popped s)
    {i : Thread n γ} {r : Shared n γ τ ε × Loc n τ β κ i} (hx : noUnpause P s i x)
    (hr : (threads P).step i x s.shared (s.loc i) = some r) : Frozen popped (s.set i r) := by
  have hp := paused_step hx hr h.paused
  cases i with
  | worker i =>
    obtain ⟨ho, ht⟩ := (worker_move P hr).popped h.paused (h.noTake i)
    refine ⟨hp, fun j => ?_, ho.trans h.popped⟩
    by_cases hj : j = i
    · subst hj
      simpa using ht
    · rw [Config.set_loc_of_ne _ (fun he => hj (Thread.worker.inj he))]
      exact h.noTake j
  | client c =>
    refine ⟨hp, fun j => ?_, (client_move P hr).popped.trans h.popped⟩
    rw [Config.set_loc_of_ne _ (by simp)]
    exact h.noTake j

theorem paused_run {s t : State n τ β ε κ} (hs : s.shared.pool.paused = true)
    (h : (threads P).Steps (noUnpause P) s t) : t.shared.pool.paused = true :=
  h.invariant (I := fun s => s.shared.pool.paused = true) hs
    fun _ _ _ _ _ hx hr hI => paused_step hx hr hI

def ClientPc.destroying {κ : Type} : ClientPc τ κ → Bool
  | .destroyWait _ | .destroyRunning | .destroyNotify | .destroyJoin | .destroyed => true
  | _ => false

def ClientPc.pastWait {κ : Type} : ClientPc τ κ → Bool
  | .destroyWait .clearWaiting | .destroyWait .unlock
  | .destroyRunning | .destroyNotify | .destroyJoin | .destroyed => true
  | _ => false

def ClientPc.pushing {κ : Type} : ClientPc τ κ → Bool
  | .push _ _ _ => true
  | _ => false

theorem ClientPc.not_enqueuing {κ : Type} {l : ClientPc τ κ} (h : l.pushing = false) :
    l.enqueuing = false := by
  cases l <;> first | rfl | cases h

/-- The steps of a run in which, from the call of `~thread_pool` on, the pool is not paused and only tasks
push. -/
def onlyTasksPush (s : State n τ β ε κ) (_ : Thread n γ) (_ : Choice n γ χ) : Prop :=
  (∃ c, ClientPc.destroying (s.loc (.client c)) = true) →
    s.shared.pool.paused = false ∧ ∀ c, ClientPc.pushing (s.loc (.client c)) = false

theorem ClientPc.destroying_of_pastWait {κ : Type} {l : ClientPc τ κ} (h : l.pastWait = true) :
    l.destroying = true := by
  cases l <;> simp_all [ClientPc.pastWait, ClientPc.destroying]

theorem WorkerMove.idle {s : Shared n γ τ ε} {i : Fin n} {l : WorkerPc τ β}
    {r : Shared n γ τ ε × WorkerPc τ β} (h : WorkerMove P i x s l r) (ht : s.pool.tasks = [])
    (hl : l.inFlight = 0) : r.1.pool.tasks = [] ∧ r.2.inFlight = 0 := by
  cases h with
  | take t ts ht' => rw [ht] at ht'; cases ht'
  | relock timedOut hfree => exact ⟨ht, by cases timedOut <;> rfl⟩
  | push t t' k pc pc' p hm => simp [WorkerPc.inFlight] at hl
  | pushEnd t t' k pc p hm => simp [WorkerPc.inFlight] at hl
  | _ => first | exact ⟨ht, rfl⟩ | simp [WorkerPc.inFlight] at hl

theorem ClientMove.pastWait {s : Shared n γ τ ε} {c : γ} {l : ClientPc τ (κ c)}
    {r : Shared n γ τ ε × ClientPc τ (κ c)} (h : ClientMove P c x s l r)
    (hr : r.2.pastWait = true) :
    l.pastWait = true ∨
      (l.destroying = true ∧ l.atPredicate = true ∧ s.pool.waitPredicate = true) := by
  cases h with
  | destroyWait pc pc' p hm =>
    cases hm <;> simp_all [ClientPc.pastWait, ClientPc.destroying, ClientPc.atPredicate]
  | destroyWaitEnd pc p hm => cases hm; exact .inl rfl
  | _ => first | exact .inl rfl | cases hr

def Emptied (s : State n τ β ε κ) : Prop :=
  (∃ c, ClientPc.pastWait (s.loc (.client c)) = true) →
    s.shared.pool.tasks = [] ∧ inFlight s = 0

theorem Emptied.step {s : State n τ β ε κ} (h : Emptied s) (hc : Conserved s)
    (hl : LockInv mutexOwner holds s) {i : Thread n γ} {r : Shared n γ τ ε × Loc n τ β κ i}
    (hx : onlyTasksPush s i x)
    (hr : (threads P).step i x s.shared (s.loc i) = some r) : Emptied (s.set i r) := by
  rintro ⟨c, hpast⟩
  have hset := inFlight_set s i r
  cases i with
  | worker i =>
    rw [Config.set_loc_of_ne _ (by simp)] at hpast
    obtain ⟨ht, hin⟩ := h ⟨c, hpast⟩
    have hi := inFlight_eq_zero_of_le hin i
    obtain ⟨ht', hi'⟩ := (worker_move P hr).idle ht hi
    refine ⟨ht', ?_⟩
    simpa [inFlightAt, hi, hi', hin] using hset
  | client d =>
    have hsame : inFlight (s.set (.client d) r) = inFlight s := by
      simpa [inFlightAt] using hset
    rw [hsame]
    have hold (hd : ∃ c, ClientPc.pastWait (s.loc (.client c)) = true) :
        r.1.pool.tasks = [] ∧ inFlight s = 0 := by
      obtain ⟨ht, hin⟩ := h hd
      have hquiet := (hx (hd.imp fun _ => ClientPc.destroying_of_pastWait)).2 d
      exact ⟨((client_move P hr).queue (ClientPc.not_enqueuing hquiet)).trans ht, hin⟩
    by_cases hcd : c = d
    · subst hcd
      rw [Config.set_loc_self] at hpast
      rcases (client_move P hr).pastWait hpast with
        hbefore | ⟨hdestroying, hat, hpred⟩
      · exact hold ⟨c, hbefore⟩
      · obtain ⟨hp, hquiet⟩ := hx ⟨c, hdestroying⟩
        obtain ⟨hin, hempty⟩ := hc.of_waitPredicate (uncounted_of_atPredicate hl hat) hpred
        exact ⟨((client_move P hr).queue (ClientPc.not_enqueuing (hquiet c))).trans (hempty hp).1, hin⟩
    · rw [Config.set_loc_of_ne _ (by simpa using hcd)] at hpast
      exact hold ⟨c, hpast⟩

instance [Fintype γ] (s : State n τ β ε κ) (i : Thread n γ) (x : Choice n γ χ) :
    Decidable (onlyTasksPush s i x) := inferInstanceAs (Decidable (_ → _ ∧ ∀ _, _))

end SysUtils.ThreadPool

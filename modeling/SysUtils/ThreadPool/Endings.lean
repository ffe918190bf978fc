import SysUtils.ThreadPool.Barrier

namespace SysUtils.ThreadPool

open Interleaving

variable {n : ℕ} {γ τ β ε χ : Type} {κ : γ → Type} [DecidableEq γ]
variable {P : Program n γ τ β ε χ κ} {x : Choice n γ χ}

/-- While the pool is `closed`, only a worker that is `committed` takes a task, and no worker commits
itself. Committed workers hold the mutex, so there is one at most. -/
structure Latch (P : Program n γ τ β ε χ κ) (closed : Pool n γ τ → Prop)
    (committed : WorkerPc τ β → Bool) : Prop where
  held : ∀ l, committed l = true → l.holds = true
  takes : ∀ i x s l r, worker P i x s l = some r → closed s.pool →
    (r.1.pool.popped = s.pool.popped ∧
      (committed r.2 = true → committed l = true ∧ r.1.pool.tasks = s.pool.tasks)) ∨
    (committed l = true ∧ committed r.2 = false ∧ ∃ task rest, s.pool.tasks = task :: rest ∧
      r.1.pool.popped = s.pool.popped ++ [task])

def StartsOnly (committed : WorkerPc τ β → Bool) (s t : State n τ β ε κ) : Prop :=
  t.shared.pool.popped = s.shared.pool.popped ∨
    ∃ i task rest, committed (s.loc (.worker i)) = true ∧ s.shared.pool.tasks = task :: rest ∧
      t.shared.pool.popped = s.shared.pool.popped ++ [task]

structure NoneTaken (committed : WorkerPc τ β → Bool) (s t : State n τ β ε κ) : Prop where
  popped : t.shared.pool.popped = s.shared.pool.popped
  committed : ∀ i, committed (t.loc (.worker i)) = true →
    committed (s.loc (.worker i)) = true ∧ t.shared.pool.tasks = s.shared.pool.tasks

structure OneTaken (committed : WorkerPc τ β → Bool) (s t : State n τ β ε κ) : Prop where
  starts : StartsOnly committed s t
  nobody : ∀ i, committed (t.loc (.worker i)) = false

variable {closed : Pool n γ τ → Prop} {committed : WorkerPc τ β → Bool} {s t : State n τ β ε κ}

omit [DecidableEq γ] in
theorem StartsOnly.of_popped {u : State n τ β ε κ} (h : StartsOnly committed s t)
    (hp : u.shared.pool.popped = t.shared.pool.popped) : StartsOnly committed s u := by
  unfold StartsOnly
  rw [hp]
  exact h

omit [DecidableEq γ] in
theorem not_enqueuing_of_unheld {i : Thread n γ} {l : Loc n τ β κ i} (h : holds i l = false) :
    enqueuing i l = false := by
  cases i with
  | worker i =>
    cases l with
    | push t t' k pc => cases pc <;> first | rfl | cases h
    | _ => rfl
  | client c =>
    cases l with
    | push t pc k => cases pc <;> first | rfl | cases h
    | _ => rfl

theorem step_tasks {i : Thread n γ} {r : Shared n γ τ ε × Loc n τ β κ i}
    (hr : (threads P).step i x s.shared (s.loc i) = some r) (hl : holds i (s.loc i) = false) :
    r.1.pool.tasks = s.shared.pool.tasks := by
  have henq := not_enqueuing_of_unheld hl
  cases i with
  | client c => exact (client_move P hr).queue henq
  | worker i =>
    rcases (worker_move P hr).queue henq with ⟨ht, _⟩ | ⟨htake, _⟩
    · exact ht
    · rw [htake] at hl
      cases hl

theorem Latch.noneTaken_step (hL : Latch P closed committed) (hl : LockInv mutexOwner holds t)
    (hc : closed t.shared.pool) (h : NoneTaken committed s t) {i : Thread n γ}
    {r : Shared n γ τ ε × Loc n τ β κ i} (hr : (threads P).step i x t.shared (t.loc i) = some r) :
    NoneTaken committed s (t.set i r) ∨ OneTaken committed s (t.set i r) := by
  have hother (j : Fin n) (hj : .worker j ≠ i)
      (hcom : committed ((t.set i r).loc (.worker j)) = true) :
      committed (s.loc (.worker j)) = true ∧ r.1.pool.tasks = s.shared.pool.tasks := by
    rw [Config.set_loc_of_ne _ hj] at hcom
    obtain ⟨hs, ht⟩ := h.committed j hcom
    refine ⟨hs, (step_tasks hr ?_).trans ht⟩
    by_contra hheld
    exact hj (hl.unique (i := .worker j) (hL.held _ hcom) (by simpa using hheld))
  cases i with
  | client c =>
    left
    exact ⟨(client_move P hr).popped.trans h.popped, fun j => hother j (by simp)⟩
  | worker i =>
    rcases hL.takes i x _ _ _ hr hc with ⟨hp, hback⟩ | ⟨hi, hi', task, rest, ht, hp⟩
    · left
      refine ⟨hp.trans h.popped, ?_⟩
      intro j hcom
      by_cases hj : j = i
      · subst hj
        rw [Config.set_loc_self] at hcom
        obtain ⟨hbefore, htasks⟩ := hback hcom
        obtain ⟨hs, ht⟩ := h.committed j hbefore
        exact ⟨hs, htasks.trans ht⟩
      · exact hother j (by simpa using hj) hcom
    · right
      obtain ⟨hs, htasks⟩ := h.committed i hi
      refine ⟨.inr ⟨i, task, rest, hs, htasks.symm.trans ht, ?_⟩, ?_⟩
      · rw [← h.popped]
        exact hp
      · intro j
        by_cases hj : j = i
        · subst hj
          rw [Config.set_loc_self]
          exact hi'
        · rw [Config.set_loc_of_ne _ (by simpa using hj)]
          by_contra hne
          have hheld := hL.held _ (by simpa using hne : committed (t.loc (.worker j)) = true)
          have he := hl.unique (i := .worker j) (j := .worker i) hheld (hL.held _ hi)
          exact hj (Thread.worker.inj he)

theorem Latch.oneTaken_step (hL : Latch P closed committed) (hc : closed t.shared.pool)
    (h : OneTaken committed s t) {i : Thread n γ} {r : Shared n γ τ ε × Loc n τ β κ i}
    (hr : (threads P).step i x t.shared (t.loc i) = some r) : OneTaken committed s (t.set i r) := by
  cases i with
  | client c =>
    refine ⟨h.starts.of_popped (client_move P hr).popped, ?_⟩
    intro j
    rw [Config.set_loc_of_ne _ (by simp)]
    exact h.nobody j
  | worker i =>
    rcases hL.takes i x _ _ _ hr hc with ⟨hp, hback⟩ | ⟨hi, _⟩
    · refine ⟨h.starts.of_popped hp, ?_⟩
      intro j
      by_cases hj : j = i
      · subst hj
        rw [Config.set_loc_self]
        by_contra hne
        have hbefore := (hback (by simpa using hne)).1
        rw [h.nobody j] at hbefore
        cases hbefore
      · rw [Config.set_loc_of_ne _ (by simpa using hj)]
        exact h.nobody j
    · rw [h.nobody i] at hi
      cases hi

theorem Latch.run {ok : State n τ β ε κ → Thread n γ → Choice n γ χ → Prop}
    (hL : Latch P closed committed)
    (hclosed : ∀ s i x r, ok s i x → (threads P).step i x s.shared (s.loc i) = some r →
      closed s.shared.pool → closed r.1.pool)
    (hs : Reachable P s) (hc : closed s.shared.pool) (h : (threads P).Steps ok s t) :
    StartsOnly committed s t := by
  have hI : closed t.shared.pool ∧ (NoneTaken committed s t ∨ OneTaken committed s t) := by
    apply h.invariant (I := fun u => closed u.shared.pool ∧
      (NoneTaken committed s u ∨ OneTaken committed s u)) ⟨hc, .inl ⟨rfl, fun i hi => ⟨hi, rfl⟩⟩⟩
    rintro u i x r hu hx hr ⟨hcu, htaken⟩
    refine ⟨hclosed u i x r hx hr hcu, ?_⟩
    rcases htaken with hnone | hone
    · exact hL.noneTaken_step (ReachableBy.lockInv (Threads.Steps.trans hs hu.any)) hcu hnone hr
    · exact .inr (hL.oneTaken_step hcu hone hr)
  rcases hI.2 with hnone | hone
  · exact .inl hnone.popped
  · exact hone.starts

def WorkerPc.atTake : WorkerPc τ β → Bool
  | .take => true
  | _ => false

def WorkerPc.sawRunning : WorkerPc τ β → Bool
  | .ifPaused | .take => true
  | _ => false

theorem paused_latch : Latch P (fun p => p.paused = true) WorkerPc.atTake where
  held l h := by
    cases l <;> first | rfl | cases h
  takes i x s l r h hp := by
    cases worker_move P h with
    | notPaused hf => rw [hp] at hf; cases hf
    | take t ts ht => exact .inr ⟨rfl, rfl, t, ts, ht, rfl⟩
    | push t t' k pc pc' p hm => exact .inl ⟨hm.popped, fun h => by cases h⟩
    | pushEnd t t' k pc p hm => exact .inl ⟨hm.popped, fun h => by cases h⟩
    | relock timedOut hfree => cases timedOut <;> exact .inl ⟨rfl, fun h => by cases h⟩
    | _ => exact .inl ⟨rfl, fun h => by cases h⟩

/-- `running_` is read before `paused_`: a worker between the two reads is still on its way to take a
task. -/
theorem notRunning_latch : Latch P (fun p => p.running = false) WorkerPc.sawRunning where
  held l h := by
    cases l <;> first | rfl | cases h
  takes i x s l r h hr := by
    have hm := worker_move P h
    cases hm with
    | running => simp [worker, hr] at h
    | take t ts ht => exact .inr ⟨rfl, rfl, t, ts, ht, rfl⟩
    | push t t' k pc pc' p hm => exact .inl ⟨hm.popped, fun h => by cases h⟩
    | pushEnd t t' k pc p hm => exact .inl ⟨hm.popped, fun h => by cases h⟩
    | relock timedOut hfree => cases timedOut <;> exact .inl ⟨rfl, fun h => by cases h⟩
    | notPaused hp => exact .inl ⟨rfl, fun _ => ⟨rfl, rfl⟩⟩
    | _ => exact .inl ⟨rfl, fun h => by cases h⟩

omit [DecidableEq γ] in
theorem PushMove.lasting {me : Thread n γ} {t : τ} {p : Pool n γ τ} {pc : PushPc}
    {r : Pool n γ τ × Option PushPc} (h : PushMove me t p pc r) :
    r.1.running = p.running ∧ r.1.exited = p.exited := by
  cases h <;> exact ⟨rfl, rfl⟩

theorem WaitMove.lasting {me : γ} {p : Pool n γ τ} {pc : WaitPc} {r : Pool n γ τ × Option WaitPc}
    (h : WaitMove me p pc r) : r.1.running = p.running ∧ r.1.exited = p.exited := by
  cases h <;> exact ⟨rfl, rfl⟩

theorem WorkerMove.exited {s : Shared n γ τ ε} {i : Fin n} {l : WorkerPc τ β}
    {r : Shared n γ τ ε × WorkerPc τ β} (h : WorkerMove P i x s l r) :
    l ≠ .ended ∧ r.1.pool.running = s.pool.running ∧ (r.1.pool.exited = s.pool.exited ∨
      r.2 = .ended ∧ r.1.pool.exited = insert i s.pool.exited) := by
  cases h with
  | push t t' k pc pc' p hm => exact ⟨by simp, hm.lasting.1, .inl hm.lasting.2⟩
  | pushEnd t t' k pc p hm => exact ⟨by simp, hm.lasting.1, .inl hm.lasting.2⟩
  | stop hr => exact ⟨by simp, rfl, .inr ⟨rfl, rfl⟩⟩
  | leave => exact ⟨by simp, rfl, .inr ⟨rfl, rfl⟩⟩
  | _ => exact ⟨by simp, rfl, .inl rfl⟩

theorem ClientMove.exited {s : Shared n γ τ ε} {c : γ} {l : ClientPc τ (κ c)}
    {r : Shared n γ τ ε × ClientPc τ (κ c)} (h : ClientMove P c x s l r) :
    (s.pool.running = false → r.1.pool.running = false) ∧ r.1.pool.exited = s.pool.exited ∧
      r.1.pool.finished = s.pool.finished ∧ (r.2 = .destroyed → s.pool.exited = Finset.univ) := by
  cases h with
  | push t pc pc' k p hm =>
    refine ⟨fun hr => hm.lasting.1.trans hr, hm.lasting.2, ?_, by simp⟩
    cases hm <;> rfl
  | pushEnd t pc k p hm =>
    refine ⟨fun hr => hm.lasting.1.trans hr, hm.lasting.2, ?_, by simp⟩
    cases hm
    rfl
  | wait pc pc' k p hm =>
    refine ⟨fun hr => hm.lasting.1.trans hr, hm.lasting.2, ?_, by simp⟩
    cases hm <;> rfl
  | waitEnd pc k p hm =>
    refine ⟨fun hr => hm.lasting.1.trans hr, hm.lasting.2, ?_, by simp⟩
    cases hm
    rfl
  | destroyWait pc pc' p hm =>
    refine ⟨fun hr => hm.lasting.1.trans hr, hm.lasting.2, ?_, by simp⟩
    cases hm <;> rfl
  | destroyWaitEnd pc p hm =>
    refine ⟨fun hr => hm.lasting.1.trans hr, hm.lasting.2, ?_, by simp⟩
    cases hm
    rfl
  | destroyRunning => exact ⟨fun _ => rfl, rfl, rfl, by simp⟩
  | destroyJoin he => exact ⟨id, rfl, rfl, fun _ => he⟩
  | _ => exact ⟨id, rfl, rfl, by simp⟩

theorem notRunning_step {s : State n τ β ε κ} {i : Thread n γ} {r : Shared n γ τ ε × Loc n τ β κ i}
    (hr : (threads P).step i x s.shared (s.loc i) = some r) (h : s.shared.pool.running = false) :
    r.1.pool.running = false := by
  cases i with
  | worker i => exact (worker_move P hr).exited.2.1.trans h
  | client c => exact (client_move P hr).exited.1 h

theorem starts_one_more (P : Program n γ τ β ε χ κ) {s t : State n τ β ε κ} (hs : Reachable P s) :
    (s.shared.pool.paused = true → (threads P).Steps (noUnpause P) s t →
      StartsOnly WorkerPc.atTake s t) ∧
    (s.shared.pool.running = false → (threads P).Steps Threads.anyStep s t →
      StartsOnly WorkerPc.sawRunning s t) := by
  constructor
  · intro hp ht
    apply paused_latch.run _ hs hp ht
    intro u i x r hx hstep
    exact paused_step hx hstep
  · intro hr ht
    apply notRunning_latch.run _ hs hr ht
    intro u i x r _ hstep
    exact notRunning_step hstep

instance (P : Program n γ τ β ε χ κ) (s : State n τ β ε κ) (i : Thread n γ) (x : Choice n γ χ) :
    Decidable (noUnpause P s i x) := inferInstanceAs (Decidable (_ = _))

def pushPause : Program 1 Unit ℕ Unit Unit Unit (fun _ => List (Call ℕ)) :=
  script 1 fun _ => [.push 7, .push 8, .pause]

def pushDestroying : Program 1 Bool ℕ Unit Unit Unit (fun _ => List (Call ℕ)) :=
  script 1 fun c => if c then [.destroy] else [.push 7, .push 8]

theorem starts_one_more_pushPause :
    (∃ s t, Reachable pushPause s ∧ s.shared.pool.paused = true ∧
      (threads pushPause).Steps (noUnpause pushPause) s t ∧ s.shared.pool.popped = [] ∧
      t.shared.pool.popped = [7] ∧ t.shared.pool.tasks = [8] ∧ StartsOnly WorkerPc.atTake s t) ∧
    ∃ s t, Reachable pushDestroying s ∧ s.shared.pool.running = false ∧
      (threads pushDestroying).Steps Threads.anyStep s t ∧ s.shared.pool.popped = [] ∧
      t.shared.pool.popped = [7] ∧ t.shared.pool.tasks = [8] ∧ StartsOnly WorkerPc.sawRunning s t := by
  have h : (((threads pushPause).run Threads.anyStep (initial pushPause)
      (steps (.client ()) 12 ++ steps (.worker 0) 6 ++ steps (.client ()) 1)).bind fun s =>
        ((threads pushPause).run (noUnpause pushPause) s (steps (.worker 0) 12)).map fun t => decide
          (s.shared.pool.paused = true ∧ s.shared.pool.popped = [] ∧
            t.shared.pool.popped = [7] ∧ t.shared.pool.tasks = [8])) = some true := by decide
  have h' : (((threads pushDestroying).run Threads.anyStep (initial pushDestroying)
      (steps (.client true) 6 ++ steps (.client false) 12 ++ steps (.worker 0) 5 ++
        steps (.client true) 1)).bind fun s =>
          ((threads pushDestroying).run Threads.anyStep s (steps (.worker 0) 8)).map fun t => decide
            (s.shared.pool.running = false ∧ s.shared.pool.popped = [] ∧
              t.shared.pool.popped = [7] ∧ t.shared.pool.tasks = [8])) = some true := by decide
  obtain ⟨s, hs, ht⟩ := Option.bind_eq_some_iff.mp h
  obtain ⟨t, ht, hp⟩ := Threads.exists_steps_of_run ht
  obtain ⟨hpaused, hnone, hone, hleft⟩ := of_decide_eq_true hp
  obtain ⟨s', hs', ht'⟩ := Option.bind_eq_some_iff.mp h'
  obtain ⟨t', ht', hp'⟩ := Threads.exists_steps_of_run ht'
  obtain ⟨hrunning, hnone', hone', hleft'⟩ := of_decide_eq_true hp'
  have hreach : Reachable pushPause s := Threads.steps_of_run hs
  have hreach' : Reachable pushDestroying s' := Threads.steps_of_run hs'
  exact ⟨⟨s, t, hreach, hpaused, ht, hnone, hone, hleft, (starts_one_more pushPause hreach).1 hpaused ht⟩,
    s', t', hreach', hrunning, ht', hnone', hone', hleft',
    (starts_one_more pushDestroying hreach').2 hrunning ht'⟩

structure Exits (s : State n τ β ε κ) : Prop where
  ended : ∀ i ∈ s.shared.pool.exited, s.loc (.worker i) = .ended
  joined : ∀ c, s.loc (.client c) = .destroyed → s.shared.pool.exited = Finset.univ

theorem Exits.step {s : State n τ β ε κ} (h : Exits s) {i : Thread n γ}
    {r : Shared n γ τ ε × Loc n τ β κ i} (hr : (threads P).step i x s.shared (s.loc i) = some r) :
    Exits (s.set i r) := by
  cases i with
  | worker i =>
    obtain ⟨hne, _, he⟩ := (worker_move P hr).exited
    have hi : i ∉ s.shared.pool.exited := fun hmem => hne (h.ended i hmem)
    constructor
    · intro j hj
      rcases he with he | ⟨hend, he⟩ <;> rw [Config.set_shared, he] at hj
      · have hji : j ≠ i := fun hji => hi (hji ▸ hj)
        rw [Config.set_loc_of_ne _ (by simpa using hji)]
        exact h.ended j hj
      · by_cases hji : j = i
        · subst hji
          rw [Config.set_loc_self]
          exact hend
        · rw [Config.set_loc_of_ne _ (by simpa using hji)]
          exact h.ended j (Finset.mem_of_mem_insert_of_ne hj hji)
    · intro c hc
      rw [Config.set_loc_of_ne _ (by simp)] at hc
      exact absurd (h.joined c hc ▸ Finset.mem_univ i) hi
  | client c =>
    obtain ⟨_, he, _, hjoin⟩ := (client_move P hr).exited
    constructor
    · intro j hj
      rw [Config.set_shared, he] at hj
      rw [Config.set_loc_of_ne _ (by simp)]
      exact h.ended j hj
    · intro d hd
      rw [Config.set_shared, he]
      by_cases hdc : d = c
      · subst hdc
        rw [Config.set_loc_self] at hd
        exact hjoin hd
      · rw [Config.set_loc_of_ne _ (by simpa using hdc)] at hd
        exact h.joined d hd

theorem exits_run {s : State n τ β ε κ} (h : Reachable P s) : Exits s := by
  apply Threads.Steps.invariant h
  · constructor
    · intro i hi
      cases hi
    · intro c hc
      cases hc
  · intro u i x r _ _ hr hI
    exact hI.step hr

theorem ended_run {s t : State n τ β ε κ} (hs : ∀ i, s.loc (.worker i) = .ended)
    (h : (threads P).Steps Threads.anyStep s t) : (∀ i, t.loc (.worker i) = .ended) ∧
      t.shared.pool.popped = s.shared.pool.popped ∧
      t.shared.pool.finished = s.shared.pool.finished := by
  apply h.invariant (I := fun t => (∀ i, t.loc (.worker i) = .ended) ∧
    t.shared.pool.popped = s.shared.pool.popped ∧
    t.shared.pool.finished = s.shared.pool.finished) ⟨hs, rfl, rfl⟩
  intro u i x r _ _ hr ⟨hend, hp, hf⟩
  cases i with
  | worker i =>
    have hm := worker_move P hr
    rw [hend i] at hm
    cases hm
  | client c =>
    refine ⟨?_, (client_move P hr).popped.trans hp, (client_move P hr).exited.2.2.1.trans hf⟩
    intro i
    rw [Config.set_loc_of_ne _ (by simp)]
    exact hend i

theorem destroyed_pool_ended (P : Program n γ τ β ε χ κ) {s t : State n τ β ε κ} (hs : Reachable P s)
    {c : γ} (hc : s.loc (.client c) = .destroyed) (ht : (threads P).Steps Threads.anyStep s t) :
    (∀ i, t.loc (.worker i) = .ended ∧ t.shared.pool.tasksMutex ≠ some (.worker i)) ∧
    (t.shared.pool.finished : Multiset τ) = t.shared.pool.popped ∧
    t.shared.pool.popped = s.shared.pool.popped ∧
    t.shared.pool.finished = s.shared.pool.finished ∧
    t.shared.pool.pushed = s.shared.pool.popped ++ t.shared.pool.tasks := by
  have hexits := exits_run hs
  have hend (i : Fin n) : s.loc (.worker i) = .ended := by
    apply hexits.ended
    rw [hexits.joined c hc]
    exact Finset.mem_univ i
  have hreach : Reachable P t := Threads.Steps.trans hs ht
  obtain ⟨hend', hp, hf⟩ := ended_run hend ht
  have hcons := ReachableBy.conserved hreach
  have hin : inFlight t = 0 := by
    unfold inFlight total
    apply Finset.sum_eq_zero
    intro i _
    change WorkerPc.inFlight (t.loc (.worker i)) = 0
    rw [hend' i]
    rfl
  refine ⟨fun i => ⟨hend' i, ?_⟩, ?_, hp, hf, ?_⟩
  · intro hm
    have hheld := (ReachableBy.lockInv hreach (.worker i)).mp hm
    change WorkerPc.holds (t.loc (.worker i)) = true at hheld
    rw [hend' i] at hheld
    cases hheld
  · rw [hcons.started, hin, zero_add]
  · rw [← hp]
    exact hcons.fifo

def ClientPc.gone {κ : Type} : ClientPc τ κ → Bool
  | .destroyed => true
  | _ => false

theorem ClientPc.eq_destroyed {κ : Type} {l : ClientPc τ κ} (h : l.gone = true) : l = .destroyed := by
  cases l <;> first | rfl | cases h

def pushDestroy : Program 1 Unit ℕ Unit Unit Unit (fun _ => List (Call ℕ)) :=
  script 1 fun _ => [.push 7, .destroy]

theorem destroyed_pool_ended_pushDestroy : ∃ s, Reachable pushDestroy s ∧
    s.loc (.client ()) = .destroyed ∧ s.shared.pool.popped = [7] ∧ s.loc (.worker 0) = .ended ∧
    (s.shared.pool.finished : Multiset ℕ) = {7} := by
  have h : ((threads pushDestroy).run Threads.anyStep (initial pushDestroy)
      (steps (.client ()) 6 ++ steps (.worker 0) 13 ++ steps (.client ()) 8 ++ steps (.worker 0) 1 ++
        steps (.client ()) 1)).map (fun s => decide
          (ClientPc.gone (s.loc (.client ())) = true ∧ s.shared.pool.popped = [7])) = some true := by
    decide
  obtain ⟨s, hs, hp⟩ := Threads.exists_steps_of_run h
  obtain ⟨hgone, hpopped⟩ := of_decide_eq_true hp
  have hc := ClientPc.eq_destroyed hgone
  obtain ⟨hend, hfin, _⟩ := destroyed_pool_ended pushDestroy hs hc .refl
  refine ⟨s, hs, hc, hpopped, (hend 0).1, ?_⟩
  rw [hfin, hpopped]
  rfl

end SysUtils.ThreadPool

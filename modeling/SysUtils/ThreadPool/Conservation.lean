import Mathlib.Algebra.Order.BigOperators.Group.Finset
import Mathlib.Algebra.Order.Group.Multiset
import Mathlib.Tactic.Abel
import SysUtils.Interleaving.Sums
import SysUtils.ThreadPool.Ownership

namespace SysUtils.ThreadPool

open Interleaving

variable {n : ℕ} {γ τ β ε χ : Type} {κ : γ → Type}

def WorkerPc.inFlight : WorkerPc τ β → Multiset τ
  | .unlockTask t | .body t _ | .push t _ _ _ | .lockAgain t | .account t => {t}
  | _ => 0

def inFlightAt : ∀ i : Thread n γ, Loc n τ β κ i → Multiset τ
  | .worker _ => WorkerPc.inFlight
  | .client _ => fun _ => 0

def inFlight (s : State n τ β ε κ) : Multiset τ := total Thread.worker inFlightAt s

def PushPc.uncounted : PushPc → ℕ
  | .count => 1
  | _ => 0

def WorkerPc.uncounted : WorkerPc τ β → ℕ
  | .push _ _ _ pc => pc.uncounted
  | _ => 0

def ClientPc.uncounted {κ : Type} : ClientPc τ κ → ℕ
  | .push _ pc _ => pc.uncounted
  | _ => 0

def uncountedAt : ∀ i : Thread n γ, Loc n τ β κ i → ℕ
  | .worker _ => WorkerPc.uncounted
  | .client _ => ClientPc.uncounted

def uncounted (s : State n τ β ε κ) : ℕ := carried mutexOwner uncountedAt s

theorem worker_injective : Function.Injective (Thread.worker : Fin n → Thread n γ) :=
  fun _ _ h => Thread.worker.inj h

theorem PushPc.uncounted_of_free {pc : PushPc} (h : pc.holds = false) : pc.uncounted = 0 := by
  cases pc <;> simp_all [PushPc.holds, PushPc.uncounted]

theorem uncountedAt_of_free {i : Thread n γ} (l : Loc n τ β κ i) (h : holds i l = false) :
    uncountedAt i l = 0 := by
  cases i with
  | worker i =>
    cases l with
    | push t k t' pc => exact PushPc.uncounted_of_free h
    | _ => rfl
  | client c =>
    cases l with
    | push t pc k => exact PushPc.uncounted_of_free h
    | _ => rfl

/-- How a step moves tasks along from pushed to finished, `l` and `l'` being what the thread itself
has in flight and `u`, `u'` what it has pushed without counting it. -/
structure Flow (p p' : Pool n γ τ) (l l' : Multiset τ) (u u' : ℕ) : Prop where
  fifo : p.pushed = p.popped ++ p.tasks → p'.pushed = p'.popped ++ p'.tasks
  started : (p'.popped : Multiset τ) + (l + p.finished) = p.popped + (l' + p'.finished)
  counted : p'.tasksTotal + u' + p'.finished.length + p.pushed.length =
    p.tasksTotal + u + p.finished.length + p'.pushed.length

theorem Flow.same {p p' : Pool n γ τ} (l : Multiset τ) (hq : p'.tasks = p.tasks)
    (ht : p'.tasksTotal = p.tasksTotal) (hp : p'.pushed = p.pushed) (ho : p'.popped = p.popped)
    (hf : p'.finished = p.finished) : Flow p p' l l 0 0 where
  fifo h := by rw [hp, ho, hq, h]
  started := by rw [ho, hf]
  counted := by rw [ht, hf, hp]

theorem PushMove.flow {me : Thread n γ} {t : τ} {p : Pool n γ τ} {pc : PushPc}
    {r : Pool n γ τ × Option PushPc} (h : PushMove me t p pc r) (l : Multiset τ) :
    Flow p r.1 l l pc.uncounted (r.2.elim 0 PushPc.uncounted) := by
  cases h with
  | enqueue =>
    refine ⟨fun h => ?_, rfl, ?_⟩
    · simp [h]
    · simp only [PushPc.uncounted, Option.elim_some, List.length_append, List.length_cons,
        List.length_nil]
      omega
  | count =>
    refine ⟨fun h => h, rfl, ?_⟩
    simp only [PushPc.uncounted, Option.elim_some]
  | _ => exact .same l rfl rfl rfl rfl rfl

structure Conserved (s : State n τ β ε κ) : Prop where
  fifo : s.shared.pool.pushed = s.shared.pool.popped ++ s.shared.pool.tasks
  started : (s.shared.pool.popped : Multiset τ) = inFlight s + s.shared.pool.finished
  counted : s.shared.pool.tasksTotal + uncounted s + s.shared.pool.finished.length =
    s.shared.pool.pushed.length

theorem Conserved.balance {s : State n τ β ε κ} (h : Conserved s) :
    s.shared.pool.tasksTotal + uncounted s = s.shared.pool.tasks.length + (inFlight s).card := by
  have hp := congrArg List.length h.fifo
  have ho := congrArg Multiset.card h.started
  have hc := h.counted
  simp only [List.length_append, Multiset.coe_card, Multiset.card_add] at hp ho
  omega

theorem worker_inFlight_le (s : State n τ β ε κ) (i : Fin n) :
    (WorkerPc.inFlight (s.loc (.worker i))) ≤ inFlight s :=
  Finset.single_le_sum (f := fun j => WorkerPc.inFlight (s.loc (Thread.worker j)))
    (fun _ _ => Multiset.zero_le _) (Finset.mem_univ i)

theorem Conserved.account_pos {s : State n τ β ε κ} (h : Conserved s)
    (hl : LockInv mutexOwner holds s) {i : Fin n} {t : τ} (hi : s.loc (.worker i) = .account t) :
    0 < s.shared.pool.tasksTotal := by
  have hu : uncounted s = 0 := by
    have := carried_holder (f := uncountedAt) hl (i := .worker i) (by rw [hi]; rfl)
    rw [hi] at this
    exact this
  have hle := Multiset.card_le_card (worker_inFlight_le s i)
  rw [hi] at hle
  have hb := h.balance
  simp only [WorkerPc.inFlight, Multiset.card_singleton] at hle
  omega

variable [DecidableEq γ]

theorem WaitMove.flow {me : γ} {p : Pool n γ τ} {pc : WaitPc} {r : Pool n γ τ × Option WaitPc}
    (h : WaitMove me p pc r) : Flow p r.1 0 0 0 0 := by
  cases h <;> exact .same 0 rfl rfl rfl rfl rfl

variable {P : Program n γ τ β ε χ κ} {x : Choice n γ χ}

theorem WorkerMove.flow {s : Shared n γ τ ε} {i : Fin n} {l : WorkerPc τ β}
    {r : Shared n γ τ ε × WorkerPc τ β} (h : WorkerMove P i x s l r)
    (hpos : ∀ t, l = .account t → 0 < s.pool.tasksTotal) :
    Flow s.pool r.1.pool l.inFlight r.2.inFlight l.uncounted r.2.uncounted := by
  cases h with
  | relock timedOut hfree => cases timedOut <;> exact .same 0 rfl rfl rfl rfl rfl
  | take t ts ht =>
    refine ⟨fun h => ?_, ?_, rfl⟩
    · simp [h, ht]
    · simp only [WorkerPc.inFlight, ← Multiset.coe_add, Multiset.coe_singleton, zero_add]
      abel
  | push t t' k pc pc' p hm => exact hm.flow _
  | pushEnd t t' k pc p hm => exact hm.flow _
  | account t =>
    have h0 := hpos t rfl
    refine ⟨fun h => h, ?_, ?_⟩
    · simp only [WorkerPc.inFlight, ← Multiset.coe_add, Multiset.coe_singleton, zero_add]
      abel
    · simp only [WorkerPc.uncounted, sizePred, List.length_append, List.length_cons, List.length_nil]
      split_ifs <;> omega
  | _ => exact .same _ rfl rfl rfl rfl rfl

theorem ClientMove.flow {s : Shared n γ τ ε} {c : γ} {l : ClientPc τ (κ c)}
    {r : Shared n γ τ ε × ClientPc τ (κ c)} (h : ClientMove P c x s l r) :
    Flow s.pool r.1.pool 0 0 l.uncounted r.2.uncounted := by
  cases h with
  | push t pc pc' k p hm => exact hm.flow _
  | pushEnd t pc k p hm => exact hm.flow _
  | wait pc pc' k p hm => exact hm.flow
  | waitEnd pc k p hm => exact hm.flow
  | destroyWait pc pc' p hm => exact hm.flow
  | destroyWaitEnd pc p hm => exact hm.flow
  | _ => exact .same _ rfl rfl rfl rfl rfl

theorem inFlight_set (s : State n τ β ε κ) (i : Thread n γ) (r : Shared n γ τ ε × Loc n τ β κ i) :
    inFlight (s.set i r) + inFlightAt i (s.loc i) = inFlight s + inFlightAt i r.2 := by
  cases i with
  | worker i => exact total_set worker_injective i r
  | client c =>
    have h := total_set_of_notMem (e := Thread.worker) (f := inFlightAt) (s := s)
      (i := .client c) (fun k h => by cases h) r
    simpa [inFlightAt, inFlight] using h

theorem Conserved.step {s : State n τ β ε κ} (h : Conserved s) (hl : LockInv mutexOwner holds s)
    {i : Thread n γ} {r : Shared n γ τ ε × Loc n τ β κ i}
    (hr : (threads P).step i x s.shared (s.loc i) = some r) : Conserved (s.set i r) := by
  have hf : Flow s.shared.pool r.1.pool (inFlightAt i (s.loc i)) (inFlightAt i r.2)
      (uncountedAt i (s.loc i)) (uncountedAt i r.2) := by
    cases i with
    | worker i => exact (worker_move P hr).flow fun t ht => h.account_pos hl ht
    | client c => exact (client_move P hr).flow
  have hu : uncounted (s.set i r) + uncountedAt i (s.loc i) = uncounted s + uncountedAt i r.2 :=
    carried_set hl (threads_lockStep hr) uncountedAt_of_free
  have hin := inFlight_set s i r
  refine ⟨hf.fifo h.fifo, ?_, ?_⟩
  · have hs := hf.started
    rw [h.started] at hs
    have he : (r.1.pool.popped : Multiset τ) + (inFlightAt i (s.loc i) + s.shared.pool.finished) =
        inFlight (s.set i r) + r.1.pool.finished +
          (inFlightAt i (s.loc i) + s.shared.pool.finished) := by
      calc _ = (inFlight s + inFlightAt i r.2) + (s.shared.pool.finished + r.1.pool.finished) := by
            rw [hs]; abel
        _ = _ := by rw [← hin]; abel
    exact add_right_cancel he
  · have hc := hf.counted
    have hb := h.counted
    simp only [Config.set_shared]
    omega

theorem ReachableBy.conserved {ok : State n τ β ε κ → Thread n γ → Choice n γ χ → Prop}
    {s : State n τ β ε κ} (h : ReachableBy P ok s) : Conserved s := by
  refine Threads.Steps.invariant h ?_ fun u i x r hu _ hr hI => hI.step (ReachableBy.lockInv hu) hr
  refine ⟨rfl, ?_, ?_⟩
  · simp [initial, inFlight, total, inFlightAt, WorkerPc.inFlight, Pool.fresh]
  · simp [initial, uncounted, carried, mutexOwner, Pool.fresh]

theorem tasks_conserved (P : Program n γ τ β ε χ κ) {s : State n τ β ε κ} (hs : Reachable P s) :
    (s.shared.pool.tasksMutex = none →
      s.shared.pool.tasksTotal = s.shared.pool.getTaskQueued + (inFlight s).card ∧
      s.shared.pool.getTasksRunning = (inFlight s).card) ∧
    (s.shared.pool.pushed : Multiset τ) =
      s.shared.pool.tasks + inFlight s + s.shared.pool.finished ∧
    s.shared.pool.pushed = s.shared.pool.popped ++ s.shared.pool.tasks ∧
    ∀ i t, s.loc (.worker i) = .account t → 0 < s.shared.pool.tasksTotal := by
  have hc := ReachableBy.conserved hs
  refine ⟨fun hfree => ?_, ?_, hc.fifo, fun i t hi => hc.account_pos (ReachableBy.lockInv hs) hi⟩
  · have hu : uncounted s = 0 := carried_free hfree
    have hb := hc.balance
    rw [hu, Nat.add_zero] at hb
    exact ⟨hb, by simp [Pool.getTasksRunning, sizeSub, hb]⟩
  · rw [hc.fifo, ← Multiset.coe_add, hc.started]
    abel

def pushTwo : Program 1 Unit ℕ Unit Unit Unit (fun _ => List (Call ℕ)) :=
  script 1 fun _ => [.push 7, .push 8]

theorem tasks_conserved_pushTwo : ∃ s, Reachable pushTwo s ∧ s.shared.pool.tasks = [8] ∧
    inFlight s = {7} ∧ s.shared.pool.tasksTotal = 2 ∧ s.shared.pool.getTasksRunning = 1 := by
  have h : ((threads pushTwo).run Threads.anyStep (initial pushTwo)
      (steps (.client ()) 12 ++ steps (.worker 0) 8)).map (fun s => decide
        (s.shared.pool.tasksMutex = none ∧ s.shared.pool.tasks = [8] ∧ inFlight s = {7})) =
      some true := by decide
  obtain ⟨s, hs, hp⟩ := Threads.exists_steps_of_run h
  obtain ⟨hfree, htasks, hin⟩ := of_decide_eq_true hp
  obtain ⟨htotal, hrunning⟩ := (tasks_conserved pushTwo hs).1 hfree
  refine ⟨s, hs, htasks, hin, ?_, ?_⟩
  · simpa [htasks, hin, Pool.getTaskQueued] using htotal
  · simpa [hin] using hrunning

end SysUtils.ThreadPool

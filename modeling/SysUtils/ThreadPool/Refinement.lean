import SysUtils.ThreadPool.Jobs

namespace SysUtils.ThreadPool

open Interleaving

variable {n : ℕ} {γ τ β ε χ : Type} {κ : γ → Type} [DecidableEq γ]

/-- A queue without mutex, condition variables and counters: to push a task, to take one and to finish one
is a single step each. -/
def queue (P : Program n γ τ β ε χ κ) : View n τ β ε κ where
  shared := { tasks := [], pushed := [], paused := false, env := P.env }
  loc
  | .worker _ => none
  | .client c => some ⟨P.start c, none⟩

inductive QueueReachable (P : Program n γ τ β ε χ κ) : View n τ β ε κ → Prop where
  | start : QueueReachable P (queue P)
  | step {w : View n τ β ε κ} {i : Thread n γ} {r : Seen τ ε × Role n τ β κ i} (h : QueueReachable P w)
      (x : Choice n γ χ) (count : ℕ) (hr : RoleMove P x count w.shared i (w.loc i) r) :
      QueueReachable P (w.set i r)

omit [DecidableEq γ] in
theorem view_initial (P : Program n γ τ β ε χ κ) : view P.enter (initial P) = queue P := by
  have hloc : (view P.enter (initial P)).loc = (queue P).loc := by
    funext i
    cases i <;> rfl
  have hshared : (view P.enter (initial P)).shared = (queue P).shared := rfl
  calc view P.enter (initial P)
      = ⟨(view P.enter (initial P)).shared, (view P.enter (initial P)).loc⟩ := rfl
    _ = queue P := by rw [hloc, hshared]

theorem pool_refines_queue (P : Program n γ τ β ε χ κ) {s : State n τ β ε κ} (hs : Reachable P s) :
    QueueReachable P (view P.enter s) := by
  apply Threads.Steps.invariant hs
  · rw [view_initial]
    exact .start
  · intro u i x r _ _ hr hI
    rw [view_set]
    exact hI.step x _ (step_role hr)

theorem pool_refines_queue_pushTwo : ∃ s, Reachable pushTwo s ∧
    (view pushTwo.enter s).loc (.worker 0) = some ⟨7, (), none⟩ ∧ (view pushTwo.enter s).shared.tasks = [8] ∧
    QueueReachable pushTwo (view pushTwo.enter s) := by
  have h : ((threads pushTwo).run Threads.anyStep (initial pushTwo)
      (steps (.client ()) 12 ++ steps (.worker 0) 8)).map (fun s => decide
        ((view pushTwo.enter s).loc (.worker 0) = some ⟨7, (), none⟩ ∧
          (view pushTwo.enter s).shared.tasks = [8])) = some true := by decide
  obtain ⟨s, hs, hp⟩ := Threads.exists_steps_of_run h
  obtain ⟨hjob, htasks⟩ := of_decide_eq_true hp
  exact ⟨s, hs, hjob, htasks, pool_refines_queue pushTwo hs⟩

end SysUtils.ThreadPool

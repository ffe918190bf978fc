import SysUtils.ThreadPool.Moves

namespace SysUtils.ThreadPool

open Interleaving

variable {n : ℕ} {γ τ β ε χ : Type} {κ : γ → Type}

def PushPc.holds : PushPc → Bool
  | .enqueue | .count | .unlock => true
  | .lock | .notify => false

def WaitPc.holds : WaitPc → Bool
  | .predicate | .block | .clearWaiting | .unlock => true
  | .setWaiting | .lock | .blocked | .relock => false

def WorkerPc.holds : WorkerPc τ β → Bool
  | .ifNotRunning | .predicate | .block | .ifRunning | .ifPaused | .take | .unlockTask _
  | .account _ | .ifWaiting | .notifyDone | .unlock | .leave => true
  | .push _ _ _ pc => pc.holds
  | .whileRunning | .lock | .asleep | .relock _ | .body _ _ | .lockAgain _ | .ended => false

def ClientPc.holds {κ : Type} : ClientPc τ κ → Bool
  | .push _ pc _ => pc.holds
  | .wait pc _ | .destroyWait pc => pc.holds
  | .code _ | .destroyRunning | .destroyNotify | .destroyJoin | .destroyed => false

def holds : ∀ i : Thread n γ, Loc n τ β κ i → Bool
  | .worker _ => WorkerPc.holds
  | .client _ => ClientPc.holds

def mutexOwner (s : Shared n γ τ ε) : Option (Thread n γ) := s.pool.tasksMutex

theorem PushMove.lockStep {me : Thread n γ} {t : τ} {p : Pool n γ τ} {pc : PushPc}
    {r : Pool n γ τ × Option PushPc} (h : PushMove me t p pc r) :
    LockStep me p.tasksMutex r.1.tasksMutex pc.holds (r.2.elim false PushPc.holds) := by
  cases h with
  | lock hfree => simp [LockStep, PushPc.holds, hfree]
  | _ => simp [LockStep, PushPc.holds]

variable [DecidableEq γ]

theorem WaitMove.lockStep {me : γ} {p : Pool n γ τ} {pc : WaitPc}
    {r : Pool n γ τ × Option WaitPc} (h : WaitMove me p pc r) :
    LockStep (.client me) p.tasksMutex r.1.tasksMutex pc.holds (r.2.elim false WaitPc.holds) := by
  cases h with
  | lock hfree => simp [LockStep, WaitPc.holds, hfree]
  | relock hfree => simp [LockStep, WaitPc.holds, hfree]
  | _ => simp [LockStep, WaitPc.holds]

variable {P : Program n γ τ β ε χ κ} {x : Choice n γ χ} {s : Shared n γ τ ε}

theorem WorkerMove.lockStep {i : Fin n} {l : WorkerPc τ β} {r : Shared n γ τ ε × WorkerPc τ β}
    (h : WorkerMove P i x s l r) :
    LockStep (.worker i) s.pool.tasksMutex r.1.pool.tasksMutex l.holds r.2.holds := by
  cases h with
  | push t t' k pc pc' p hm => exact hm.lockStep
  | pushEnd t t' k pc p hm => exact hm.lockStep
  | relock timedOut hfree => cases timedOut <;> simp [LockStep, WorkerPc.holds, hfree]
  | lock hfree => simp [LockStep, WorkerPc.holds, hfree]
  | lockAgain t hfree => simp [LockStep, WorkerPc.holds, hfree]
  | _ => simp [LockStep, WorkerPc.holds, PushPc.holds, Pool.pause, Pool.unpause]

theorem ClientMove.lockStep {c : γ} {l : ClientPc τ (κ c)}
    {r : Shared n γ τ ε × ClientPc τ (κ c)} (h : ClientMove P c x s l r) :
    LockStep (.client c) s.pool.tasksMutex r.1.pool.tasksMutex l.holds r.2.holds := by
  cases h with
  | push t pc pc' k p hm => exact hm.lockStep
  | pushEnd t pc k p hm => exact hm.lockStep
  | wait pc pc' k p hm => exact hm.lockStep
  | waitEnd pc k p hm => exact hm.lockStep
  | destroyWait pc pc' p hm => exact hm.lockStep
  | destroyWaitEnd pc p hm => exact hm.lockStep
  | _ => simp [LockStep, ClientPc.holds, PushPc.holds, WaitPc.holds, Pool.pause, Pool.unpause]

theorem threads_lockStep {i : Thread n γ} {l : Loc n τ β κ i} {r : Shared n γ τ ε × Loc n τ β κ i}
    (h : (threads P).step i x s l = some r) :
    LockStep i (mutexOwner s) (mutexOwner r.1) (holds i l) (holds i r.2) := by
  cases i with
  | worker i => exact (worker_move P h).lockStep
  | client c => exact (client_move P h).lockStep

theorem ReachableBy.lockInv {ok : State n τ β ε κ → Thread n γ → Choice n γ χ → Prop}
    {s : State n τ β ε κ} (h : ReachableBy P ok s) : LockInv mutexOwner holds s :=
  Threads.Steps.lockInv h (fun i => by cases i <;> simp [initial, mutexOwner, holds, Pool.fresh,
    WorkerPc.holds, ClientPc.holds]) fun _ _ _ _ _ hr => threads_lockStep hr

end SysUtils.ThreadPool

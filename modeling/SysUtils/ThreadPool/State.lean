import Mathlib.Data.Finset.Basic
import Mathlib.Data.Nat.Notation

namespace SysUtils.ThreadPool

def sizePred (x : ℕ) : ℕ := if x = 0 then UInt64.size - 1 else x - 1

def sizeSub (x y : ℕ) : ℕ := if y ≤ x then x - y else x + UInt64.size - y

inductive Thread (n : ℕ) (γ : Type) where
  | worker (i : Fin n)
  | client (c : γ)
  deriving DecidableEq

inductive PushPc where
  | lock | enqueue | count | unlock | notify
  deriving DecidableEq, Repr

/-- Positions inside `wait_for_tasks`. `block` is the wait with its predicate found false and the
mutex still held; `blocked` is the wait with the mutex given up. -/
inductive WaitPc where
  | setWaiting | lock | predicate | block | blocked | relock | clearWaiting | unlock
  deriving DecidableEq, Repr

inductive WorkerPc (τ β : Type) where
  | whileRunning | lock | ifNotRunning
  | predicate | block | asleep | relock (timedOut : Bool)
  | ifRunning | ifPaused | take
  | unlockTask (task : τ)
  | body (task : τ) (k : β)
  | push (task : τ) (k : β) (pushed : τ) (pc : PushPc)
  | lockAgain (task : τ)
  | account (task : τ)
  | ifWaiting | notifyDone | unlock
  | leave | ended
  deriving DecidableEq, Repr

inductive ClientPc (τ κ : Type) where
  | code (k : κ)
  | push (pushed : τ) (pc : PushPc) (k : κ)
  | wait (pc : WaitPc) (k : κ)
  | destroyWait (pc : WaitPc)
  | destroyRunning | destroyNotify | destroyJoin | destroyed
  deriving DecidableEq, Repr

/-- The members of `thread_pool`. A condition variable is the set of the threads that sleep on it and
have not been woken. `exited` are the threads whose `worker` has returned. The last three fields are
history that no step reads. -/
structure Pool (n : ℕ) (γ τ : Type) where
  running : Bool
  waiting : Bool
  paused : Bool
  tasks : List τ
  tasksTotal : ℕ
  tasksMutex : Option (Thread n γ)
  taskAvailableCv : Finset (Fin n)
  taskDoneCv : Finset γ
  exited : Finset (Fin n)
  pushed : List τ
  popped : List τ
  finished : List τ

namespace Pool

variable {n : ℕ} {γ τ : Type}

def fresh : Pool n γ τ :=
  { running := true, waiting := false, paused := false, tasks := [], tasksTotal := 0,
    tasksMutex := none, taskAvailableCv := ∅, taskDoneCv := ∅, exited := ∅,
    pushed := [], popped := [], finished := [] }

def pause (p : Pool n γ τ) : Pool n γ τ := { p with paused := true }

def unpause (p : Pool n γ τ) : Pool n γ τ := { p with paused := false }

def isPaused (p : Pool n γ τ) : Bool := p.paused

def getTasksCount (p : Pool n γ τ) : ℕ := p.tasksTotal

def getTaskQueued (p : Pool n γ τ) : ℕ := p.tasks.length

def getTasksRunning (p : Pool n γ τ) : ℕ := sizeSub p.tasksTotal p.tasks.length

def waitPredicate (p : Pool n γ τ) : Bool :=
  p.tasksTotal == if p.paused then p.tasks.length else 0

end Pool

def notifyOne {α : Type} [DecidableEq α] (cv : Finset α) (who : Option α) : Option (Finset α) :=
  match who with
  | none => if cv = ∅ then some ∅ else none
  | some a => if a ∈ cv then some (cv.erase a) else none

/-- What the pool's surroundings settle in one step: which sleepers a `notify_one` wakes, whether the
50 ms of a worker's wait are over, whether a wait wakes spuriously, and `code` for the program that
uses the pool. -/
structure Choice (n : ℕ) (γ χ : Type) where
  code : χ
  wakeWorker : Option (Fin n) := none
  wakeClient : Option γ := none
  timeout : Bool := false
  spurious : Bool := false

inductive Call (τ : Type) where
  | own | push (t : τ) | pause | unpause | wait | destroy

inductive BodyCall (τ : Type) where
  | own | push (t : τ) | pause | unpause | return | throw

/-- A program that uses a pool of `n` workers: tasks `τ` whose code has positions `β`, clients `c : γ`
whose code has positions `κ c`, and memory `ε` of its own. Both kinds of code may read the two atomics
that the pool shows without its lock. -/
structure Program (n : ℕ) (γ τ β ε χ : Type) (κ : γ → Type) where
  env : ε
  start : (c : γ) → κ c
  enter : τ → β
  body : Fin n → τ → χ → (tasksCount : ℕ) → (isPaused : Bool) → ε → β → Option (BodyCall τ × ε × β)
  client : (c : γ) → χ → (tasksCount : ℕ) → (isPaused : Bool) → ε → κ c → Option (Call τ × ε × κ c)

end SysUtils.ThreadPool

import Mathlib.Data.Fintype.Basic
import SysUtils.Interleaving.Threads
import SysUtils.ThreadPool.State

namespace SysUtils.ThreadPool

open Interleaving

variable {n : ℕ} {γ τ β ε χ : Type} {κ : γ → Type} [DecidableEq γ]

structure Shared (n : ℕ) (γ τ ε : Type) where
  pool : Pool n γ τ
  env : ε

def pushTask (me : Thread n γ) (x : Choice n γ χ) (t : τ) (p : Pool n γ τ) :
    PushPc → Option (Pool n γ τ × Option PushPc)
  | .lock => if p.tasksMutex = none then some ({ p with tasksMutex := some me }, some .enqueue) else none
  | .enqueue => some ({ p with tasks := p.tasks ++ [t], pushed := p.pushed ++ [t] }, some .count)
  | .count => some ({ p with tasksTotal := p.tasksTotal + 1 }, some .unlock)
  | .unlock => some ({ p with tasksMutex := none }, some .notify)
  | .notify => (notifyOne p.taskAvailableCv x.wakeWorker).map
      fun cv => ({ p with taskAvailableCv := cv }, none)

def waitForTasks (me : γ) (x : Choice n γ χ) (p : Pool n γ τ) :
    WaitPc → Option (Pool n γ τ × Option WaitPc)
  | .setWaiting => some ({ p with waiting := true }, some .lock)
  | .lock | .relock =>
      if p.tasksMutex = none then some ({ p with tasksMutex := some (.client me) }, some .predicate)
      else none
  | .predicate => some (p, some (if p.waitPredicate then .clearWaiting else .block))
  | .block => some ({ p with tasksMutex := none, taskDoneCv := insert me p.taskDoneCv }, some .blocked)
  | .blocked =>
      if me ∉ p.taskDoneCv then some (p, some .relock)
      else if x.spurious then some ({ p with taskDoneCv := p.taskDoneCv.erase me }, some .relock)
      else none
  | .clearWaiting => some ({ p with waiting := false }, some .unlock)
  | .unlock => some ({ p with tasksMutex := none }, none)

def worker (P : Program n γ τ β ε χ κ) (i : Fin n) (x : Choice n γ χ) (s : Shared n γ τ ε) :
    WorkerPc τ β → Option (Shared n γ τ ε × WorkerPc τ β)
  | .whileRunning =>
      if s.pool.running then some (s, .lock)
      else some (⟨{ s.pool with exited := insert i s.pool.exited }, s.env⟩, .ended)
  | .lock =>
      if s.pool.tasksMutex = none then
        some (⟨{ s.pool with tasksMutex := some (.worker i) }, s.env⟩, .ifNotRunning)
      else none
  | .ifNotRunning => some (s, if s.pool.running then .predicate else .leave)
  -- wait_until returns when the predicate holds, or with its last value once the 50 ms are over
  | .predicate =>
      some (s, if s.pool.tasks ≠ [] ∨ s.pool.running = false then .ifRunning else .block)
  | .block =>
      some (⟨{ s.pool with tasksMutex := none, taskAvailableCv := insert i s.pool.taskAvailableCv },
        s.env⟩, .asleep)
  | .asleep =>
      if x.timeout then
        some (⟨{ s.pool with taskAvailableCv := s.pool.taskAvailableCv.erase i }, s.env⟩, .relock true)
      else if i ∉ s.pool.taskAvailableCv then some (s, .relock false)
      else if x.spurious then
        some (⟨{ s.pool with taskAvailableCv := s.pool.taskAvailableCv.erase i }, s.env⟩, .relock false)
      else none
  | .relock timedOut =>
      if s.pool.tasksMutex = none then
        some (⟨{ s.pool with tasksMutex := some (.worker i) }, s.env⟩,
          if timedOut then .ifRunning else .predicate)
      else none
  | .ifRunning => some (s, if s.pool.running then .ifPaused else .unlock)
  | .ifPaused => some (s, if s.pool.paused then .unlock else .take)
  | .take =>
      match s.pool.tasks with
      | [] => some (s, .unlock)
      | t :: ts =>
          some (⟨{ s.pool with tasks := ts, popped := s.pool.popped ++ [t] }, s.env⟩, .unlockTask t)
  | .unlockTask t => some (⟨{ s.pool with tasksMutex := none }, s.env⟩, .body t (P.enter t))
  | .body t k =>
      match P.body i t x.code s.pool.getTasksCount s.pool.isPaused s.env k with
      | none => none
      | some (.own, e, k') => some (⟨s.pool, e⟩, .body t k')
      | some (.push t', e, k') => some (⟨s.pool, e⟩, .push t k' t' .lock)
      | some (.pause, e, k') => some (⟨s.pool.pause, e⟩, .body t k')
      | some (.unpause, e, k') => some (⟨s.pool.unpause, e⟩, .body t k')
      | some (.return, e, _) => some (⟨s.pool, e⟩, .lockAgain t)
      | some (.throw, e, _) => some (⟨s.pool, e⟩, .lockAgain t)
  | .push t k t' pc =>
      (pushTask (.worker i) x t' s.pool pc).map fun r =>
        (⟨r.1, s.env⟩, r.2.elim (.body t k) (.push t k t'))
  | .lockAgain t =>
      if s.pool.tasksMutex = none then
        some (⟨{ s.pool with tasksMutex := some (.worker i) }, s.env⟩, .account t)
      else none
  | .account t =>
      some (⟨{ s.pool with
        tasksTotal := sizePred s.pool.tasksTotal, finished := s.pool.finished ++ [t] }, s.env⟩, .ifWaiting)
  | .ifWaiting => some (s, if s.pool.waiting then .notifyDone else .unlock)
  | .notifyDone => (notifyOne s.pool.taskDoneCv x.wakeClient).map
      fun cv => (⟨{ s.pool with taskDoneCv := cv }, s.env⟩, .unlock)
  | .unlock => some (⟨{ s.pool with tasksMutex := none }, s.env⟩, .whileRunning)
  | .leave =>
      some (⟨{ s.pool with tasksMutex := none, exited := insert i s.pool.exited }, s.env⟩, .ended)
  | .ended => none

def client (P : Program n γ τ β ε χ κ) (c : γ) (x : Choice n γ χ) (s : Shared n γ τ ε) :
    ClientPc τ (κ c) → Option (Shared n γ τ ε × ClientPc τ (κ c))
  | .code k =>
      match P.client c x.code s.pool.getTasksCount s.pool.isPaused s.env k with
      | none => none
      | some (.own, e, k') => some (⟨s.pool, e⟩, .code k')
      | some (.push t, e, k') => some (⟨s.pool, e⟩, .push t .lock k')
      | some (.pause, e, k') => some (⟨s.pool.pause, e⟩, .code k')
      | some (.unpause, e, k') => some (⟨s.pool.unpause, e⟩, .code k')
      | some (.wait, e, k') => some (⟨s.pool, e⟩, .wait .setWaiting k')
      | some (.destroy, e, _) => some (⟨s.pool, e⟩, .destroyWait .setWaiting)
  | .push t pc k =>
      (pushTask (.client c) x t s.pool pc).map fun r =>
        (⟨r.1, s.env⟩, r.2.elim (.code k) (fun pc' => .push t pc' k))
  | .wait pc k =>
      (waitForTasks c x s.pool pc).map fun r =>
        (⟨r.1, s.env⟩, r.2.elim (.code k) (fun pc' => .wait pc' k))
  | .destroyWait pc =>
      (waitForTasks c x s.pool pc).map fun r =>
        (⟨r.1, s.env⟩, r.2.elim .destroyRunning .destroyWait)
  | .destroyRunning => some (⟨{ s.pool with running := false }, s.env⟩, .destroyNotify)
  | .destroyNotify => some (⟨{ s.pool with taskAvailableCv := ∅ }, s.env⟩, .destroyJoin)
  | .destroyJoin => if s.pool.exited = Finset.univ then some (s, .destroyed) else none
  | .destroyed => none

abbrev Loc (n : ℕ) (τ β : Type) (κ : γ → Type) : Thread n γ → Type
  | .worker _ => WorkerPc τ β
  | .client c => ClientPc τ (κ c)

def threads (P : Program n γ τ β ε χ κ) :
    Threads (Thread n γ) (Shared n γ τ ε) (Choice n γ χ) (Loc n τ β κ) where
  step
  | .worker i => worker P i
  | .client c => client P c

abbrev State (n : ℕ) (τ β ε : Type) (κ : γ → Type) := Config (Shared n γ τ ε) (Loc n τ β κ)

def initial (P : Program n γ τ β ε χ κ) : State n τ β ε κ where
  shared := ⟨.fresh, P.env⟩
  loc
  | .worker _ => .whileRunning
  | .client c => .code (P.start c)

def workerCall (P : Program n γ τ β ε χ κ) (i : Fin n) (x : Choice n γ χ) (s : Shared n γ τ ε) :
    WorkerPc τ β → Option (Call τ ⊕ BodyCall τ)
  | .body t k => (P.body i t x.code s.pool.tasksTotal s.pool.paused s.env k).map fun r => .inr r.1
  | _ => none

def clientCall (P : Program n γ τ β ε χ κ) (c : γ) (x : Choice n γ χ) (s : Shared n γ τ ε) :
    ClientPc τ (κ c) → Option (Call τ ⊕ BodyCall τ)
  | .code k => (P.client c x.code s.pool.tasksTotal s.pool.paused s.env k).map fun r => .inl r.1
  | _ => none

def asked (P : Program n γ τ β ε χ κ) (s : State n τ β ε κ) (i : Thread n γ) (x : Choice n γ χ) :
    Option (Call τ ⊕ BodyCall τ) :=
  match i with
  | .worker i => workerCall P i x s.shared (s.loc (.worker i))
  | .client c => clientCall P c x s.shared (s.loc (.client c))

def isPause : Option (Call τ ⊕ BodyCall τ) → Bool
  | some (.inl .pause) | some (.inr .pause) => true
  | _ => false

def isUnpause : Option (Call τ ⊕ BodyCall τ) → Bool
  | some (.inl .unpause) | some (.inr .unpause) => true
  | _ => false

def callsPause (P : Program n γ τ β ε χ κ) (s : State n τ β ε κ) (i : Thread n γ)
    (x : Choice n γ χ) : Bool := isPause (asked P s i x)

def callsUnpause (P : Program n γ τ β ε χ κ) (s : State n τ β ε κ) (i : Thread n γ)
    (x : Choice n γ χ) : Bool := isUnpause (asked P s i x)

def ReachableBy (P : Program n γ τ β ε χ κ)
    (ok : State n τ β ε κ → Thread n γ → Choice n γ χ → Prop) (s : State n τ β ε κ) : Prop :=
  (threads P).Steps ok (initial P) s

abbrev Reachable (P : Program n γ τ β ε χ κ) (s : State n τ β ε κ) : Prop :=
  ReachableBy P Threads.anyStep s

def script (n : ℕ) (calls : γ → List (Call τ)) :
    Program n γ τ Unit Unit Unit (fun _ => List (Call τ)) where
  env := ()
  start := calls
  enter _ := ()
  body _ _ _ _ _ _ _ := some (.return, (), ())
  client _ _ _ _ _
  | [] => none
  | call :: calls => some (call, (), calls)

def steps (i : Thread n γ) (k : ℕ) : List (Thread n γ × Choice n γ Unit) :=
  List.replicate k (i, { code := () })

end SysUtils.ThreadPool

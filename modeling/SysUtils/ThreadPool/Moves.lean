import SysUtils.Interleaving.Mutex
import SysUtils.ThreadPool.Steps

namespace SysUtils.ThreadPool

open Interleaving

variable {n : ℕ} {γ τ β ε χ : Type} {κ : γ → Type}

/-! Everything a step can do, once for each function of the pool; the invariants are proved from
these and never unfold a step. -/

inductive PushMove (me : Thread n γ) (t : τ) (p : Pool n γ τ) :
    PushPc → Pool n γ τ × Option PushPc → Prop where
  | lock (hfree : p.tasksMutex = none) :
      PushMove me t p .lock ({ p with tasksMutex := some me }, some .enqueue)
  | enqueue : PushMove me t p .enqueue
      ({ p with tasks := p.tasks ++ [t], pushed := p.pushed ++ [t] }, some .count)
  | count : PushMove me t p .count ({ p with tasksTotal := p.tasksTotal + 1 }, some .unlock)
  | unlock : PushMove me t p .unlock ({ p with tasksMutex := none }, some .notify)
  | notify (cv : Finset (Fin n)) : PushMove me t p .notify ({ p with taskAvailableCv := cv }, none)

theorem pushTask_move {me : Thread n γ} {x : Choice n γ χ} {t : τ} {p : Pool n γ τ} {pc : PushPc}
    {r : Pool n γ τ × Option PushPc} (h : pushTask me x t p pc = some r) : PushMove me t p pc r := by
  cases pc with
  | lock =>
    simp only [pushTask, Option.ite_none_right_eq_some, Option.some.injEq] at h
    obtain ⟨hfree, rfl⟩ := h
    exact .lock hfree
  | enqueue => cases h; exact .enqueue
  | count => cases h; exact .count
  | unlock => cases h; exact .unlock
  | notify =>
    obtain ⟨cv, _, rfl⟩ := Option.map_eq_some_iff.mp h
    exact .notify cv

theorem PushMove.paused {me : Thread n γ} {t : τ} {p : Pool n γ τ} {pc : PushPc}
    {r : Pool n γ τ × Option PushPc} (h : PushMove me t p pc r) : r.1.paused = p.paused := by
  cases h <;> rfl

variable [DecidableEq γ]

inductive WaitMove (me : γ) (p : Pool n γ τ) : WaitPc → Pool n γ τ × Option WaitPc → Prop where
  | setWaiting : WaitMove me p .setWaiting ({ p with waiting := true }, some .lock)
  | lock (hfree : p.tasksMutex = none) :
      WaitMove me p .lock ({ p with tasksMutex := some (.client me) }, some .predicate)
  | holds (hp : p.waitPredicate = true) : WaitMove me p .predicate (p, some .clearWaiting)
  | fails (hp : p.waitPredicate = false) : WaitMove me p .predicate (p, some .block)
  | block : WaitMove me p .block
      ({ p with tasksMutex := none, taskDoneCv := insert me p.taskDoneCv }, some .blocked)
  | notified (hcv : me ∉ p.taskDoneCv) : WaitMove me p .blocked (p, some .relock)
  | spurious : WaitMove me p .blocked ({ p with taskDoneCv := p.taskDoneCv.erase me }, some .relock)
  | relock (hfree : p.tasksMutex = none) :
      WaitMove me p .relock ({ p with tasksMutex := some (.client me) }, some .predicate)
  | clearWaiting : WaitMove me p .clearWaiting ({ p with waiting := false }, some .unlock)
  | unlock : WaitMove me p .unlock ({ p with tasksMutex := none }, none)

theorem waitForTasks_move {me : γ} {x : Choice n γ χ} {p : Pool n γ τ} {pc : WaitPc}
    {r : Pool n γ τ × Option WaitPc} (h : waitForTasks me x p pc = some r) : WaitMove me p pc r := by
  cases pc with
  | setWaiting => cases h; exact .setWaiting
  | lock =>
    simp only [waitForTasks, Option.ite_none_right_eq_some, Option.some.injEq] at h
    obtain ⟨hfree, rfl⟩ := h
    exact .lock hfree
  | predicate =>
    cases hp : p.waitPredicate with
    | true => simp only [waitForTasks, hp] at h; cases h; exact .holds hp
    | false => simp only [waitForTasks, hp] at h; cases h; exact .fails hp
  | block => cases h; exact .block
  | blocked =>
    simp only [waitForTasks] at h
    split_ifs at h with hcv hx
    · cases h; exact .spurious
    · cases h; exact .notified hcv
  | relock =>
    simp only [waitForTasks, Option.ite_none_right_eq_some, Option.some.injEq] at h
    obtain ⟨hfree, rfl⟩ := h
    exact .relock hfree
  | clearWaiting => cases h; exact .clearWaiting
  | unlock => cases h; exact .unlock

variable (P : Program n γ τ β ε χ κ)

inductive WorkerMove (i : Fin n) (x : Choice n γ χ) (s : Shared n γ τ ε) :
    WorkerPc τ β → Shared n γ τ ε × WorkerPc τ β → Prop where
  | again (hr : s.pool.running = true) : WorkerMove i x s .whileRunning (s, .lock)
  | stop (hr : s.pool.running = false) : WorkerMove i x s .whileRunning
      (⟨{ s.pool with exited := insert i s.pool.exited }, s.env⟩, .ended)
  | lock (hfree : s.pool.tasksMutex = none) : WorkerMove i x s .lock
      (⟨{ s.pool with tasksMutex := some (.worker i) }, s.env⟩, .ifNotRunning)
  | stay : WorkerMove i x s .ifNotRunning (s, .predicate)
  | break (hr : s.pool.running = false) : WorkerMove i x s .ifNotRunning (s, .leave)
  | available : WorkerMove i x s .predicate (s, .ifRunning)
  | nothing : WorkerMove i x s .predicate (s, .block)
  | block : WorkerMove i x s .block
      (⟨{ s.pool with tasksMutex := none, taskAvailableCv := insert i s.pool.taskAvailableCv },
        s.env⟩, .asleep)
  | wake (cv : Finset (Fin n)) (timedOut : Bool) : WorkerMove i x s .asleep
      (⟨{ s.pool with taskAvailableCv := cv }, s.env⟩, .relock timedOut)
  | relock (timedOut : Bool) (hfree : s.pool.tasksMutex = none) : WorkerMove i x s (.relock timedOut)
      (⟨{ s.pool with tasksMutex := some (.worker i) }, s.env⟩,
        if timedOut then .ifRunning else .predicate)
  | running : WorkerMove i x s .ifRunning (s, .ifPaused)
  | notRunning : WorkerMove i x s .ifRunning (s, .unlock)
  | skip (hp : s.pool.paused = true) : WorkerMove i x s .ifPaused (s, .unlock)
  | notPaused (hp : s.pool.paused = false) : WorkerMove i x s .ifPaused (s, .take)
  | empty (ht : s.pool.tasks = []) : WorkerMove i x s .take (s, .unlock)
  | take (t : τ) (ts : List τ) (ht : s.pool.tasks = t :: ts) : WorkerMove i x s .take
      (⟨{ s.pool with tasks := ts, popped := s.pool.popped ++ [t] }, s.env⟩, .unlockTask t)
  | call (t : τ) : WorkerMove i x s (.unlockTask t)
      (⟨{ s.pool with tasksMutex := none }, s.env⟩, .body t (P.enter t))
  | bodyOwn (t : τ) (k k' : β) (e : ε)
      (hb : P.body i t x.code s.pool.tasksTotal s.pool.paused s.env k = some (.own, e, k')) :
      WorkerMove i x s (.body t k) (⟨s.pool, e⟩, .body t k')
  | bodyPush (t t' : τ) (k k' : β) (e : ε)
      (hb : P.body i t x.code s.pool.tasksTotal s.pool.paused s.env k = some (.push t', e, k')) :
      WorkerMove i x s (.body t k) (⟨s.pool, e⟩, .push t k' t' .lock)
  | bodyPause (t : τ) (k k' : β) (e : ε)
      (hb : P.body i t x.code s.pool.tasksTotal s.pool.paused s.env k = some (.pause, e, k')) :
      WorkerMove i x s (.body t k) (⟨s.pool.pause, e⟩, .body t k')
  | bodyUnpause (t : τ) (k k' : β) (e : ε)
      (hb : P.body i t x.code s.pool.tasksTotal s.pool.paused s.env k = some (.unpause, e, k')) :
      WorkerMove i x s (.body t k) (⟨s.pool.unpause, e⟩, .body t k')
  | bodyEnd (t : τ) (k k' : β) (e : ε) (o : BodyCall τ) (ho : o = .return ∨ o = .throw)
      (hb : P.body i t x.code s.pool.tasksTotal s.pool.paused s.env k = some (o, e, k')) :
      WorkerMove i x s (.body t k) (⟨s.pool, e⟩, .lockAgain t)
  | push (t t' : τ) (k : β) (pc pc' : PushPc) (p : Pool n γ τ)
      (hm : PushMove (.worker i) t' s.pool pc (p, some pc')) :
      WorkerMove i x s (.push t k t' pc) (⟨p, s.env⟩, .push t k t' pc')
  | pushEnd (t t' : τ) (k : β) (pc : PushPc) (p : Pool n γ τ)
      (hm : PushMove (.worker i) t' s.pool pc (p, none)) :
      WorkerMove i x s (.push t k t' pc) (⟨p, s.env⟩, .body t k)
  | lockAgain (t : τ) (hfree : s.pool.tasksMutex = none) : WorkerMove i x s (.lockAgain t)
      (⟨{ s.pool with tasksMutex := some (.worker i) }, s.env⟩, .account t)
  | account (t : τ) : WorkerMove i x s (.account t)
      (⟨{ s.pool with
        tasksTotal := sizePred s.pool.tasksTotal, finished := s.pool.finished ++ [t] }, s.env⟩,
        .ifWaiting)
  | waiting : WorkerMove i x s .ifWaiting (s, .notifyDone)
  | notWaiting (hw : s.pool.waiting = false) : WorkerMove i x s .ifWaiting (s, .unlock)
  | notifyNone (hcv : s.pool.taskDoneCv = ∅) : WorkerMove i x s .notifyDone (s, .unlock)
  | notifyDone (c : γ) (hc : c ∈ s.pool.taskDoneCv) : WorkerMove i x s .notifyDone
      (⟨{ s.pool with taskDoneCv := s.pool.taskDoneCv.erase c }, s.env⟩, .unlock)
  | unlock : WorkerMove i x s .unlock (⟨{ s.pool with tasksMutex := none }, s.env⟩, .whileRunning)
  | leave : WorkerMove i x s .leave
      (⟨{ s.pool with tasksMutex := none, exited := insert i s.pool.exited }, s.env⟩, .ended)

theorem body_move {i : Fin n} {x : Choice n γ χ} {s : Shared n γ τ ε} {t : τ} {k : β}
    {r : Shared n γ τ ε × WorkerPc τ β} (h : worker P i x s (.body t k) = some r) :
    WorkerMove P i x s (.body t k) r := by
  simp only [worker] at h
  split at h
  · cases h
  · cases h; exact .bodyOwn _ _ _ _ ‹_›
  · cases h; exact .bodyPush _ _ _ _ _ ‹_›
  · cases h; exact .bodyPause _ _ _ _ ‹_›
  · cases h; exact .bodyUnpause _ _ _ _ ‹_›
  · cases h; exact .bodyEnd _ _ _ _ _ (.inl rfl) ‹_›
  · cases h; exact .bodyEnd _ _ _ _ _ (.inr rfl) ‹_›

theorem worker_move {i : Fin n} {x : Choice n γ χ} {s : Shared n γ τ ε} {l : WorkerPc τ β}
    {r : Shared n γ τ ε × WorkerPc τ β} (h : worker P i x s l = some r) :
    WorkerMove P i x s l r := by
  cases l with
  | whileRunning =>
    simp only [worker] at h
    split_ifs at h with hr
    · cases h; exact .again hr
    · cases h; exact .stop (by simpa using hr)
  | lock =>
    simp only [worker, Option.ite_none_right_eq_some, Option.some.injEq] at h
    obtain ⟨hfree, rfl⟩ := h
    exact .lock hfree
  | ifNotRunning =>
    cases hr : s.pool.running with
    | true => simp only [worker, hr] at h; cases h; exact .stay
    | false => simp only [worker, hr] at h; cases h; exact .break hr
  | predicate =>
    simp only [worker, Option.some.injEq] at h
    split_ifs at h
    · cases h; exact .available
    · cases h; exact .nothing
  | block => cases h; exact .block
  | asleep =>
    simp only [worker] at h
    split_ifs at h
    · cases h; exact .wake _ _
    · cases h; exact .wake _ _
    · cases h; exact .wake s.pool.taskAvailableCv _
  | relock timedOut =>
    simp only [worker, Option.ite_none_right_eq_some, Option.some.injEq] at h
    obtain ⟨hfree, rfl⟩ := h
    exact .relock timedOut hfree
  | ifRunning =>
    cases hr : s.pool.running with
    | true => simp only [worker, hr] at h; cases h; exact .running
    | false => simp only [worker, hr] at h; cases h; exact .notRunning
  | ifPaused =>
    cases hp : s.pool.paused with
    | true => simp only [worker, hp] at h; cases h; exact .skip hp
    | false => simp only [worker, hp] at h; cases h; exact .notPaused hp
  | take =>
    cases ht : s.pool.tasks with
    | nil => simp only [worker, ht] at h; cases h; exact .empty ht
    | cons t ts => simp only [worker, ht] at h; cases h; exact .take t ts ht
  | unlockTask t => cases h; exact .call t
  | body t k => exact body_move P h
  | push t k t' pc =>
    obtain ⟨⟨p, pc'⟩, hp, rfl⟩ := Option.map_eq_some_iff.mp h
    cases pc' with
    | none => exact .pushEnd _ _ _ _ _ (pushTask_move hp)
    | some pc' => exact .push _ _ _ _ _ _ (pushTask_move hp)
  | lockAgain t =>
    simp only [worker, Option.ite_none_right_eq_some, Option.some.injEq] at h
    obtain ⟨hfree, rfl⟩ := h
    exact .lockAgain t hfree
  | account t => cases h; exact .account t
  | ifWaiting =>
    cases hw : s.pool.waiting with
    | true => simp only [worker, hw] at h; cases h; exact .waiting
    | false => simp only [worker, hw] at h; cases h; exact .notWaiting hw
  | notifyDone =>
    simp only [worker] at h
    obtain ⟨cv, hcv, rfl⟩ := Option.map_eq_some_iff.mp h
    unfold notifyOne at hcv
    cases hx : x.wakeClient with
    | none =>
      simp only [hx, Option.ite_none_right_eq_some, Option.some.injEq] at hcv
      obtain ⟨he, rfl⟩ := hcv
      rw [← he]
      exact .notifyNone he
    | some c =>
      simp only [hx, Option.ite_none_right_eq_some, Option.some.injEq] at hcv
      obtain ⟨hc, rfl⟩ := hcv
      exact .notifyDone c hc
  | unlock => cases h; exact .unlock
  | leave => cases h; exact .leave
  | ended => cases h

inductive ClientMove (c : γ) (x : Choice n γ χ) (s : Shared n γ τ ε) :
    ClientPc τ (κ c) → Shared n γ τ ε × ClientPc τ (κ c) → Prop where
  | own (k k' : κ c) (e : ε)
      (hc : P.client c x.code s.pool.tasksTotal s.pool.paused s.env k = some (.own, e, k')) :
      ClientMove c x s (.code k) (⟨s.pool, e⟩, .code k')
  | callPush (t : τ) (k k' : κ c) (e : ε)
      (hc : P.client c x.code s.pool.tasksTotal s.pool.paused s.env k = some (.push t, e, k')) :
      ClientMove c x s (.code k) (⟨s.pool, e⟩, .push t .lock k')
  | callPause (k k' : κ c) (e : ε)
      (hc : P.client c x.code s.pool.tasksTotal s.pool.paused s.env k = some (.pause, e, k')) :
      ClientMove c x s (.code k) (⟨s.pool.pause, e⟩, .code k')
  | callUnpause (k k' : κ c) (e : ε)
      (hc : P.client c x.code s.pool.tasksTotal s.pool.paused s.env k = some (.unpause, e, k')) :
      ClientMove c x s (.code k) (⟨s.pool.unpause, e⟩, .code k')
  | callWait (k k' : κ c) (e : ε)
      (hc : P.client c x.code s.pool.tasksTotal s.pool.paused s.env k = some (.wait, e, k')) :
      ClientMove c x s (.code k) (⟨s.pool, e⟩, .wait .setWaiting k')
  | callDestroy (k k' : κ c) (e : ε)
      (hc : P.client c x.code s.pool.tasksTotal s.pool.paused s.env k = some (.destroy, e, k')) :
      ClientMove c x s (.code k) (⟨s.pool, e⟩, .destroyWait .setWaiting)
  | push (t : τ) (pc pc' : PushPc) (k : κ c) (p : Pool n γ τ)
      (hm : PushMove (.client c) t s.pool pc (p, some pc')) :
      ClientMove c x s (.push t pc k) (⟨p, s.env⟩, .push t pc' k)
  | pushEnd (t : τ) (pc : PushPc) (k : κ c) (p : Pool n γ τ)
      (hm : PushMove (.client c) t s.pool pc (p, none)) :
      ClientMove c x s (.push t pc k) (⟨p, s.env⟩, .code k)
  | wait (pc pc' : WaitPc) (k : κ c) (p : Pool n γ τ) (hm : WaitMove c s.pool pc (p, some pc')) :
      ClientMove c x s (.wait pc k) (⟨p, s.env⟩, .wait pc' k)
  | waitEnd (pc : WaitPc) (k : κ c) (p : Pool n γ τ) (hm : WaitMove c s.pool pc (p, none)) :
      ClientMove c x s (.wait pc k) (⟨p, s.env⟩, .code k)
  | destroyWait (pc pc' : WaitPc) (p : Pool n γ τ) (hm : WaitMove c s.pool pc (p, some pc')) :
      ClientMove c x s (.destroyWait pc) (⟨p, s.env⟩, .destroyWait pc')
  | destroyWaitEnd (pc : WaitPc) (p : Pool n γ τ) (hm : WaitMove c s.pool pc (p, none)) :
      ClientMove c x s (.destroyWait pc) (⟨p, s.env⟩, .destroyRunning)
  | destroyRunning : ClientMove c x s .destroyRunning
      (⟨{ s.pool with running := false }, s.env⟩, .destroyNotify)
  | destroyNotify : ClientMove c x s .destroyNotify
      (⟨{ s.pool with taskAvailableCv := ∅ }, s.env⟩, .destroyJoin)
  | destroyJoin (he : s.pool.exited = Finset.univ) : ClientMove c x s .destroyJoin (s, .destroyed)

theorem code_move {c : γ} {x : Choice n γ χ} {s : Shared n γ τ ε} {k : κ c}
    {r : Shared n γ τ ε × ClientPc τ (κ c)} (h : client P c x s (.code k) = some r) :
    ClientMove P c x s (.code k) r := by
  simp only [client] at h
  split at h
  · cases h
  · cases h; exact .own _ _ _ ‹_›
  · cases h; exact .callPush _ _ _ _ ‹_›
  · cases h; exact .callPause _ _ _ ‹_›
  · cases h; exact .callUnpause _ _ _ ‹_›
  · cases h; exact .callWait _ _ _ ‹_›
  · cases h; exact .callDestroy _ _ _ ‹_›

theorem client_move {c : γ} {x : Choice n γ χ} {s : Shared n γ τ ε} {l : ClientPc τ (κ c)}
    {r : Shared n γ τ ε × ClientPc τ (κ c)} (h : client P c x s l = some r) :
    ClientMove P c x s l r := by
  cases l with
  | code k => exact code_move P h
  | push t pc k =>
    obtain ⟨⟨p, pc'⟩, hp, rfl⟩ := Option.map_eq_some_iff.mp h
    cases pc' with
    | none => exact .pushEnd _ _ _ _ (pushTask_move hp)
    | some pc' => exact .push _ _ _ _ _ (pushTask_move hp)
  | wait pc k =>
    obtain ⟨⟨p, pc'⟩, hp, rfl⟩ := Option.map_eq_some_iff.mp h
    cases pc' with
    | none => exact .waitEnd _ _ _ (waitForTasks_move hp)
    | some pc' => exact .wait _ _ _ _ (waitForTasks_move hp)
  | destroyWait pc =>
    obtain ⟨⟨p, pc'⟩, hp, rfl⟩ := Option.map_eq_some_iff.mp h
    cases pc' with
    | none => exact .destroyWaitEnd _ _ (waitForTasks_move hp)
    | some pc' => exact .destroyWait _ _ _ (waitForTasks_move hp)
  | destroyRunning => cases h; exact .destroyRunning
  | destroyNotify => cases h; exact .destroyNotify
  | destroyJoin =>
    simp only [client, Option.ite_none_right_eq_some, Option.some.injEq] at h
    obtain ⟨he, rfl⟩ := h
    exact .destroyJoin he
  | destroyed => cases h

theorem WaitMove.paused {me : γ} {p : Pool n γ τ} {pc : WaitPc}
    {r : Pool n γ τ × Option WaitPc} (h : WaitMove me p pc r) : r.1.paused = p.paused := by
  cases h <;> rfl

def pausedAfter (o : Option (Call τ ⊕ BodyCall τ)) (paused : Bool) : Bool :=
  if isPause o then true else if isUnpause o then false else paused

variable {P}

theorem WorkerMove.paused {i : Fin n} {x : Choice n γ χ} {s : Shared n γ τ ε} {l : WorkerPc τ β}
    {r : Shared n γ τ ε × WorkerPc τ β} (h : WorkerMove P i x s l r) :
    r.1.pool.paused = pausedAfter (workerCall P i x s l) s.pool.paused := by
  cases h with
  | push t t' k pc pc' p hm => exact hm.paused
  | pushEnd t t' k pc p hm => exact hm.paused
  | bodyOwn t k k' e hb => simp [workerCall, hb, pausedAfter, isPause, isUnpause]
  | bodyPush t t' k k' e hb => simp [workerCall, hb, pausedAfter, isPause, isUnpause]
  | bodyPause t k k' e hb => simp [workerCall, hb, pausedAfter, isPause, Pool.pause]
  | bodyUnpause t k k' e hb => simp [workerCall, hb, pausedAfter, isPause, isUnpause, Pool.unpause]
  | bodyEnd t k k' e o ho hb =>
    rcases ho with rfl | rfl <;> simp [workerCall, hb, pausedAfter, isPause, isUnpause]
  | _ => rfl

theorem ClientMove.paused {c : γ} {x : Choice n γ χ} {s : Shared n γ τ ε} {l : ClientPc τ (κ c)}
    {r : Shared n γ τ ε × ClientPc τ (κ c)} (h : ClientMove P c x s l r) :
    r.1.pool.paused = pausedAfter (clientCall P c x s l) s.pool.paused := by
  cases h with
  | push t pc pc' k p hm => exact hm.paused
  | pushEnd t pc k p hm => exact hm.paused
  | wait pc pc' k p hm => exact hm.paused
  | waitEnd pc k p hm => exact hm.paused
  | destroyWait pc pc' p hm => exact hm.paused
  | destroyWaitEnd pc p hm => exact hm.paused
  | own k k' e hc => simp [clientCall, hc, pausedAfter, isPause, isUnpause]
  | callPush t k k' e hc => simp [clientCall, hc, pausedAfter, isPause, isUnpause]
  | callPause k k' e hc => simp [clientCall, hc, pausedAfter, isPause, Pool.pause]
  | callUnpause k k' e hc => simp [clientCall, hc, pausedAfter, isPause, isUnpause, Pool.unpause]
  | callWait k k' e hc => simp [clientCall, hc, pausedAfter, isPause, isUnpause]
  | callDestroy k k' e hc => simp [clientCall, hc, pausedAfter, isPause, isUnpause]
  | _ => rfl

theorem step_paused {s : State n τ β ε κ} {i : Thread n γ} {x : Choice n γ χ}
    {r : Shared n γ τ ε × Loc n τ β κ i} (hr : (threads P).step i x s.shared (s.loc i) = some r) :
    r.1.pool.paused = pausedAfter (asked P s i x) s.shared.pool.paused := by
  cases i with
  | worker i => exact (worker_move P hr).paused
  | client c => exact (client_move P hr).paused

end SysUtils.ThreadPool

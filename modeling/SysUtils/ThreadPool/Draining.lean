import SysUtils.ThreadPool.Shutdown
import SysUtils.ThreadPool.Turns

namespace SysUtils.ThreadPool

open Interleaving

variable {n : ℕ} {γ τ β ε χ : Type} {κ : γ → Type}

def Spends (enter : τ → β) (cost : τ → β → ℕ) (t : τ) (k k' : β) : BodyCall τ → Prop
  | .own | .unpause => cost t k' < cost t k
  | .push t' => cost t k' + cost t' (enter t') < cost t k
  | .pause => False
  | .return | .throw => True

structure Terminates (P : Program n γ τ β ε χ κ) (cost : τ → β → ℕ) : Prop where
  goes : ∀ i t count paused e k, ∃ code r, P.body i t code count paused e k = some r
  spends : ∀ i t code count paused e k call e' k',
    P.body i t code count paused e k = some (call, e', k') → Spends P.enter cost t k k' call

def busy (s : State n τ β ε κ) (i : Thread n γ) (_ : Choice n γ χ) : Prop :=
  (∃ j, i = .worker j) ∨ s.shared.pool.tasksMutex = some i

section

variable (enter : τ → β) (cost : τ → β → ℕ)

def weight (t : τ) : ℕ := 12 * cost t (enter t) + 5

def PushPc.work (t : τ) : PushPc → ℕ
  | .lock => weight enter cost t + 5
  | .enqueue => weight enter cost t + 4
  | .count => 3
  | .unlock => 2
  | .notify => 1

def WaitPc.work : WaitPc → ℕ
  | .predicate => 3
  | .block | .clearWaiting => 2
  | .unlock => 1
  | .setWaiting | .lock | .blocked | .relock => 0

def WorkerPc.work : WorkerPc τ β → ℕ
  | .unlockTask t => weight enter cost t
  | .body t k => 12 * cost t k + 4
  | .push t k t' pc => 12 * cost t k + 4 + PushPc.work enter cost t' pc
  | .lockAgain _ => 3
  | .account _ => 2
  | .ended => 0
  | _ => 1

def ClientPc.work {κ : Type} : ClientPc τ κ → ℕ
  | .push t pc _ => if pc.holds then PushPc.work enter cost t pc else 0
  | .wait pc _ | .destroyWait pc => pc.work
  | _ => 0

def workerWork : ∀ i : Thread n γ, Loc n τ β κ i → ℕ
  | .worker _ => WorkerPc.work enter cost
  | .client _ => fun _ => 0

def clientWork : ∀ i : Thread n γ, Loc n τ β κ i → ℕ
  | .worker _ => fun _ => 0
  | .client _ => ClientPc.work enter cost

def queued (p : Pool n γ τ) : ℕ := (p.tasks.map (weight enter cost)).sum

def left (s : State n τ β ε κ) : ℕ :=
  queued enter cost s.shared.pool + total Thread.worker (workerWork enter cost) s +
    carried mutexOwner (clientWork enter cost) s

end

variable {enter : τ → β} {cost : τ → β → ℕ}

theorem ClientPc.work_of_free {κ : Type} {l : ClientPc τ κ} (h : l.holds = false) : l.work enter cost = 0 := by
  cases l with
  | push t pc k => cases pc <;> first | rfl | cases h
  | wait pc k => cases pc <;> first | rfl | cases h
  | destroyWait pc => cases pc <;> first | rfl | cases h
  | _ => rfl

theorem clientWork_of_free (i : Thread n γ) (l : Loc n τ β κ i) (h : holds i l = false) :
    clientWork enter cost i l = 0 := by
  cases i with
  | worker i => rfl
  | client c => exact ClientPc.work_of_free h

variable [DecidableEq γ] {P : Program n γ τ β ε χ κ} {s : State n τ β ε κ} {x : Choice n γ χ}

variable (enter cost) in
theorem left_set (hl : LockInv mutexOwner holds s) {i : Thread n γ} {r : Shared n γ τ ε × Loc n τ β κ i}
    (hr : (threads P).step i x s.shared (s.loc i) = some r) :
    left enter cost (s.set i r) + queued enter cost s.shared.pool +
        (workerWork enter cost i (s.loc i) + clientWork enter cost i (s.loc i)) =
      left enter cost s + queued enter cost r.1.pool +
        (workerWork enter cost i r.2 + clientWork enter cost i r.2) := by
  have hc := carried_set (f := clientWork enter cost) hl (threads_lockStep hr)
    fun l hfree => clientWork_of_free i l hfree
  have hw : total Thread.worker (workerWork enter cost) (s.set i r) + workerWork enter cost i (s.loc i) =
      total Thread.worker (workerWork enter cost) s + workerWork enter cost i r.2 := by
    cases i with
    | worker i => exact total_set worker_injective i r
    | client c => simpa [workerWork] using total_set_of_notMem (fun k h => by cases h) r
  simp only [left, Config.set_shared]
  omega

theorem drain_busy (hl : LockInv mutexOwner holds s) {i : Thread n γ} {r : Shared n γ τ ε × Loc n τ β κ i}
    (hx : busy s i x) (hr : (threads P).step i x s.shared (s.loc i) = some r)
    (hlt : queued enter cost r.1.pool + (workerWork enter cost i r.2 + clientWork enter cost i r.2) <
      queued enter cost s.shared.pool +
        (workerWork enter cost i (s.loc i) + clientWork enter cost i (s.loc i))) :
    (threads P).Lowers busy (left enter cost) s := by
  have hset := left_set enter cost hl hr
  exact Threads.Lowers.step hx hr (by omega)

theorem drain_worker (hl : LockInv mutexOwner holds s) {i : Fin n} {r : Shared n γ τ ε × WorkerPc τ β}
    (hr : worker P i x s.shared (s.loc (.worker i)) = some r)
    (hlt : queued enter cost r.1.pool + WorkerPc.work enter cost r.2 <
      queued enter cost s.shared.pool + WorkerPc.work enter cost (s.loc (.worker i))) :
    (threads P).Lowers busy (left enter cost) s :=
  drain_busy (i := .worker i) hl (.inl ⟨i, rfl⟩) hr hlt

variable (enter cost) in
omit [DecidableEq γ] in
theorem PushMove.work {me : Thread n γ} {t : τ} {p : Pool n γ τ} {pc : PushPc}
    {r : Pool n γ τ × Option PushPc} (h : PushMove me t p pc r) :
    queued enter cost r.1 + r.2.elim 0 (PushPc.work enter cost t) <
      queued enter cost p + PushPc.work enter cost t pc := by
  cases h with
  | enqueue =>
    simp only [queued, PushPc.work, List.map_append, List.sum_append, List.map_singleton, List.sum_singleton,
      Option.elim_some]
    omega
  | _ => simp [queued, PushPc.work]

theorem drain_push (code : χ) (hl : LockInv mutexOwner holds s) {i : Fin n} {t t' : τ} {k : β} {pc : PushPc}
    (hi : s.loc (.worker i) = .push t k t' pc) (hfree : pc = .lock → s.shared.pool.tasksMutex = none) :
    (threads P).Lowers busy (left enter cost) s := by
  obtain ⟨x, ⟨p, pc'⟩, _, hq⟩ := pushTask_goes code (.worker i) t' s.shared.pool pc hfree
  have hwork := (pushTask_move hq).work enter cost
  apply drain_worker (r := (⟨p, s.shared.env⟩, pc'.elim (.body t k) (.push t k t'))) (x := x) hl
  · rw [hi]
    simp only [worker, hq, Option.map_some]
  · rw [hi]
    cases pc' with
    | none => simp only [Option.elim_none, WorkerPc.work] at hwork ⊢; omega
    | some pc' => simp only [Option.elim_some, WorkerPc.work] at hwork ⊢; omega

theorem drain_body (hP : Terminates P cost) (hl : LockInv mutexOwner holds s) {i : Fin n} {t : τ} {k : β}
    (hi : s.loc (.worker i) = .body t k) : (threads P).Lowers busy (left P.enter cost) s := by
  obtain ⟨code, ⟨call, e, k'⟩, hb⟩ :=
    hP.goes i t s.shared.pool.getTasksCount s.shared.pool.isPaused s.shared.env k
  have hspends := hP.spends _ _ _ _ _ _ _ _ _ _ hb
  have hgo (p : Pool n γ τ) (l : WorkerPc τ β)
      (hr : worker P i { code := code } s.shared (.body t k) = some (⟨p, e⟩, l))
      (htasks : p.tasks = s.shared.pool.tasks)
      (hlt : WorkerPc.work P.enter cost l < 12 * cost t k + 4) :
      (threads P).Lowers busy (left P.enter cost) s := by
    apply drain_worker hl (by rw [hi]; exact hr)
    have hk : WorkerPc.work P.enter cost (.body t k) = 12 * cost t k + 4 := rfl
    rw [hi, hk]
    simp only [queued, htasks]
    omega
  cases call with
  | own =>
    apply hgo s.shared.pool (.body t k') (by simp only [worker, hb]) rfl
    simp only [Spends, WorkerPc.work] at hspends ⊢
    omega
  | push t' =>
    apply hgo s.shared.pool (.push t k' t' .lock) (by simp only [worker, hb]) rfl
    simp only [Spends, WorkerPc.work, PushPc.work, weight] at hspends ⊢
    omega
  | pause => exact hspends.elim
  | unpause =>
    apply hgo s.shared.pool.unpause (.body t k') (by simp only [worker, hb]) rfl
    simp only [Spends, WorkerPc.work] at hspends ⊢
    omega
  | «return» =>
    apply hgo s.shared.pool (.lockAgain t) (by simp only [worker, hb]) rfl
    simp only [WorkerPc.work]
    omega
  | throw =>
    apply hgo s.shared.pool (.lockAgain t) (by simp only [worker, hb]) rfl
    simp only [WorkerPc.work]
    omega

theorem drain_unlockTask (code : χ) (hl : LockInv mutexOwner holds s) {i : Fin n} {t : τ}
    (hi : s.loc (.worker i) = .unlockTask t) : (threads P).Lowers busy (left P.enter cost) s := by
  apply drain_worker (x := { code := code }) hl (by rw [hi]; rfl)
  rw [hi]
  simp only [queued, WorkerPc.work, weight]
  omega

theorem drain_account (code : χ) (hl : LockInv mutexOwner holds s) {i : Fin n} {t : τ}
    (hi : s.loc (.worker i) = .account t) : (threads P).Lowers busy (left P.enter cost) s := by
  apply drain_worker (x := { code := code }) hl (by rw [hi]; rfl)
  rw [hi]
  simp [queued, WorkerPc.work]

theorem drain_client (hl : LockInv mutexOwner holds s) {c : γ} {r : Shared n γ τ ε × ClientPc τ (κ c)}
    (hh : ClientPc.holds (s.loc (.client c)) = true)
    (hr : client P c x s.shared (s.loc (.client c)) = some r)
    (hlt : queued enter cost r.1.pool + ClientPc.work enter cost r.2 <
      queued enter cost s.shared.pool + ClientPc.work enter cost (s.loc (.client c))) :
    (threads P).Lowers busy (left enter cost) s := by
  apply drain_busy (i := .client c) hl (.inr ((hl (.client c)).mpr hh)) hr
  simp only [workerWork, clientWork]
  omega

theorem waitForTasks_gives_up (code : χ) (me : γ) (p : Pool n γ τ) {pc : WaitPc} (hpc : pc.holds = true) :
    ∃ p' pc', waitForTasks me ({ code := code } : Choice n γ χ) p pc = some (p', pc') ∧
      p'.tasks = p.tasks ∧ pc'.elim 0 WaitPc.work < pc.work := by
  cases pc with
  | predicate =>
    refine ⟨_, _, rfl, rfl, ?_⟩
    cases p.waitPredicate <;> simp [WaitPc.work]
  | block => exact ⟨_, _, rfl, rfl, by simp [WaitPc.work]⟩
  | clearWaiting => exact ⟨_, _, rfl, rfl, by simp [WaitPc.work]⟩
  | unlock => exact ⟨_, _, rfl, rfl, by simp [WaitPc.work]⟩
  | _ => cases hpc

theorem drain_holder (code : χ) (hl : LockInv mutexOwner holds s) {c : γ}
    (hh : ClientPc.holds (s.loc (.client c)) = true) : (threads P).Lowers busy (left enter cost) s := by
  cases hc : s.loc (.client c) with
  | push t pc k =>
    have hpc : pc.holds = true := by
      rw [hc] at hh
      exact hh
    obtain ⟨x, ⟨p, pc'⟩, _, hq⟩ := pushTask_goes code (.client c) t s.shared.pool pc (by rintro rfl; cases hpc)
    have hwork : queued enter cost p + pc'.elim 0 (PushPc.work enter cost t) <
        queued enter cost s.shared.pool + PushPc.work enter cost t pc := (pushTask_move hq).work enter cost
    have hk : ClientPc.work enter cost (.push t pc k) = PushPc.work enter cost t pc := if_pos hpc
    have hle : ClientPc.work enter cost (pc'.elim (.code k) (fun pc' => .push t pc' k)) ≤
        pc'.elim 0 (PushPc.work enter cost t) := by
      cases pc' with
      | none => exact Nat.zero_le _
      | some pc' =>
        simp only [Option.elim_some, ClientPc.work]
        split <;> omega
    apply drain_client (x := x)
      (r := (⟨p, s.shared.env⟩, pc'.elim (.code k) (fun pc' => .push t pc' k))) hl hh
    · rw [hc]
      simp only [client, hq, Option.map_some]
    · rw [hc, hk]
      exact (Nat.add_le_add_left hle _).trans_lt hwork
  | wait pc k =>
    have hpc : pc.holds = true := by
      rw [hc] at hh
      exact hh
    obtain ⟨p, pc', hq, htasks, hlt⟩ := waitForTasks_gives_up code c s.shared.pool hpc
    have hk : ClientPc.work enter cost (pc'.elim (.code k) (fun pc' => .wait pc' k)) = pc'.elim 0 WaitPc.work := by
      cases pc' <;> rfl
    apply drain_client (x := { code := code })
      (r := (⟨p, s.shared.env⟩, pc'.elim (.code k) (fun pc' => .wait pc' k))) hl hh
    · rw [hc]
      simp only [client, hq, Option.map_some]
    · rw [hc, hk]
      simp only [queued, htasks]
      exact Nat.add_lt_add_left hlt _
  | destroyWait pc =>
    have hpc : pc.holds = true := by
      rw [hc] at hh
      exact hh
    obtain ⟨p, pc', hq, htasks, hlt⟩ := waitForTasks_gives_up code c s.shared.pool hpc
    have hk : ClientPc.work enter cost (pc'.elim .destroyRunning .destroyWait : ClientPc τ (κ c)) =
        pc'.elim 0 WaitPc.work := by
      cases pc' <;> rfl
    apply drain_client (x := { code := code })
      (r := (⟨p, s.shared.env⟩, pc'.elim .destroyRunning .destroyWait)) hl hh
    · rw [hc]
      simp only [client, hq, Option.map_some]
    · rw [hc, hk]
      simp only [queued, htasks]
      exact Nat.add_lt_add_left hlt _
  | _ => rw [hc] at hh; cases hh

variable (enter cost) in
omit [DecidableEq γ] in
theorem WorkerPc.work_of_idle {l : WorkerPc τ β} (h : l.idle = true) : WorkerPc.work enter cost l = 1 := by
  cases l <;> first | rfl | cases h

theorem left_idle (hl : LockInv mutexOwner holds s) {i : Fin n} {r : Shared n γ τ ε × WorkerPc τ β}
    (hidle : WorkerPc.idle (s.loc (.worker i)) = true)
    (hr : worker P i x s.shared (s.loc (.worker i)) = some r)
    (hm : IdleMove s.shared (s.loc (.worker i)) r) :
    left enter cost (s.set (.worker i) r) < left enter cost s ∨
      IdleStep s.shared (s.loc (.worker i)) r ∧ left enter cost (s.set (.worker i) r) = left enter cost s := by
  have hset := left_set enter cost (i := .worker i) hl hr
  have hone := WorkerPc.work_of_idle enter cost hidle
  simp only [workerWork, clientWork, hone] at hset
  cases hm with
  | stay h =>
    have hone' := WorkerPc.work_of_idle enter cost h.idle
    have hqueued : queued enter cost r.1.pool = queued enter cost s.shared.pool := by simp only [queued, h.tasks]
    exact .inr ⟨h, by omega⟩
  | took t ht hr he =>
    have hweight : WorkerPc.work enter cost r.2 = weight enter cost t := by
      rw [hr]
      rfl
    have hqueued : queued enter cost s.shared.pool = weight enter cost t + queued enter cost r.1.pool := by
      simp only [queued, ht, List.map_cons, List.sum_cons]
    exact .inl (by omega)
  | ended ht hr he =>
    have hzero : WorkerPc.work enter cost r.2 = 0 := by
      rw [hr]
      rfl
    have hqueued : queued enter cost r.1.pool = queued enter cost s.shared.pool := by simp only [queued, ht]
    exact .inl (by omega)

structure Open (P : Program n γ τ β ε χ κ) (s : State n τ β ε κ) : Prop where
  reachable : Reachable P s
  running : s.shared.pool.running = true
  notPaused : s.shared.pool.paused = false

theorem ClientMove.running_of_holds {v : Shared n γ τ ε} {c : γ} {l : ClientPc τ (κ c)}
    {r : Shared n γ τ ε × ClientPc τ (κ c)} (h : ClientMove P c x v l r) (hh : l.holds = true) :
    r.1.pool.running = v.pool.running := by
  cases h with
  | push t pc pc' k p hm => exact hm.lasting.1
  | pushEnd t pc k p hm => exact hm.lasting.1
  | wait pc pc' k p hm => exact hm.lasting.1
  | waitEnd pc k p hm => exact hm.lasting.1
  | destroyWait pc pc' p hm => exact hm.lasting.1
  | destroyWaitEnd pc p hm => exact hm.lasting.1
  | destroyRunning => cases hh
  | _ => rfl

omit [DecidableEq γ] in
theorem busy_asks (hP : Terminates P cost) (hl : LockInv mutexOwner holds s) {i : Thread n γ}
    (hx : busy s i x) : isPause (asked P s i x) = false := by
  cases i with
  | worker i =>
    change isPause (workerCall P i x s.shared (s.loc (.worker i))) = false
    cases hi : s.loc (.worker i) with
    | body t k =>
      cases hb : P.body i t x.code s.shared.pool.tasksTotal s.shared.pool.paused s.shared.env k with
      | none => simp only [workerCall, hb, Option.map_none, isPause]
      | some r =>
        obtain ⟨call, e, k'⟩ := r
        have hspends := hP.spends _ _ _ _ _ _ _ _ _ _ hb
        cases call with
        | pause => exact hspends.elim
        | _ => simp only [workerCall, hb, Option.map_some, isPause]
    | _ => rfl
  | client c =>
    have hh : ClientPc.holds (s.loc (.client c)) = true := (hl (.client c)).mp (hx.resolve_left (by simp))
    change isPause (clientCall P c x s.shared (s.loc (.client c))) = false
    cases hc : s.loc (.client c) with
    | code k => rw [hc] at hh; cases hh
    | _ => rfl

theorem Open.step (h : Open P s) (hP : Terminates P cost) {i : Thread n γ}
    {r : Shared n γ τ ε × Loc n τ β κ i} (hx : busy s i x)
    (hr : (threads P).step i x s.shared (s.loc i) = some r) : Open P (s.set i r) := by
  have hl := ReachableBy.lockInv h.reachable
  refine ⟨Threads.Steps.step h.reachable trivial hr, ?_, ?_⟩
  · cases i with
    | worker i => exact (worker_move P hr).exited.2.1.trans h.running
    | client c =>
      have hh : ClientPc.holds (s.loc (.client c)) = true := (hl (.client c)).mp (hx.resolve_left (by simp))
      exact ((client_move P hr).running_of_holds hh).trans h.running
  · have hpaused := step_paused hr
    rw [pausedAfter, busy_asks hP hl hx, h.notPaused] at hpaused
    simpa using hpaused

theorem turns_busy (hP : Terminates P cost) (code : χ) : Turns P code busy (left P.enter cost) (Open P) where
  closed s t hs hst := hst.invariant hs fun _ _ _ _ _ hx hr hI => hI.step hP hx hr
  lockInv _ hs := ReachableBy.lockInv hs.reachable
  allowed _ i _ _ := .inl ⟨i, rfl⟩
  moves _ _ _ _ hs hidle hr hm := left_idle (ReachableBy.lockInv hs.reachable) hidle hr hm
  held s i hs hh hidle := by
    have hl := ReachableBy.lockInv hs.reachable
    cases i with
    | worker i =>
      change WorkerPc.holds (s.loc (.worker i)) = true at hh
      have hbegun : WorkerPc.idle (s.loc (.worker i)) ≠ true := Bool.eq_false_iff.mp hidle
      cases hi : s.loc (.worker i) with
      | unlockTask t => exact drain_unlockTask code hl hi
      | account t => exact drain_account code hl hi
      | push t k t' pc =>
        apply drain_push code hl hi
        rintro rfl
        rw [hi] at hh
        cases hh
      | _ => rw [hi] at hh hbegun; first | exact absurd rfl hbegun | cases hh
    | client c => exact drain_holder code hl hh

theorem drain_begun (hP : Terminates P cost) (code : χ) (hs : Open P s) {i : Fin n}
    (hi : WorkerPc.inFlight (s.loc (.worker i)) ≠ 0) : (threads P).Lowers busy (left P.enter cost) s := by
  have hT := turns_busy hP code
  have hl := ReachableBy.lockInv hs.reachable
  cases hloc : s.loc (.worker i) with
  | unlockTask t => exact drain_unlockTask code hl hloc
  | account t => exact drain_account code hl hloc
  | body t k => exact drain_body hP hl hloc
  | push t k t' pc =>
    by_cases hpc : pc = .lock
    · subst hpc
      apply hT.lower_when_free hs
      intro u hu hfree
      have hstay : u.loc (.worker i) = .push t k t' .lock := (hu.stays _ (by rw [hloc]; rfl)).trans hloc
      exact drain_push code (hT.lockInv u (hT.closed s u hs hu.steps)) hstay fun _ => hfree
    · exact drain_push code hl hloc fun h => absurd h hpc
  | lockAgain t =>
    apply hT.lower_when_free hs
    intro u hu hfree
    have hstay : u.loc (.worker i) = .lockAgain t := (hu.stays _ (by rw [hloc]; rfl)).trans hloc
    apply drain_worker (x := { code := code }) (hT.lockInv u (hT.closed s u hs hu.steps))
      (by rw [hstay]; exact if_pos hfree)
    rw [hstay]
    simp [queued, WorkerPc.work]
  | _ => rw [hloc] at hi; exact absurd rfl hi

theorem pool_can_drain [Inhabited χ] (P : Program n γ τ β ε χ κ) (hn : 0 < n) (hP : Terminates P cost)
    (hs : Reachable P s) (hrun : s.shared.pool.running = true) (hpaused : s.shared.pool.paused = false) :
    ∃ t, (threads P).Steps busy s t ∧ t.shared.pool.tasks = [] ∧ inFlight t = 0 ∧
      (t.shared.pool.finished : Multiset τ) = t.shared.pool.pushed := by
  have hT := turns_busy hP default
  have hopen : Open P s := ⟨hs, hrun, hpaused⟩
  obtain ⟨t, ht, hdone⟩ := Threads.Steps.exists_goal (s := s) (f := left P.enter cost)
    (fun t => t.shared.pool.tasks = [] ∧ inFlight t = 0) fun t ht hgoal => by
      have hI := hT.closed s t hopen ht
      by_cases hbegun : ∃ i, WorkerPc.inFlight (t.loc (.worker i)) ≠ 0
      · obtain ⟨i, hi⟩ := hbegun
        exact drain_begun hP default hI hi
      · have hnone (i : Fin n) : WorkerPc.inFlight (t.loc (.worker i)) = 0 := by
          by_contra h
          exact hbegun ⟨i, h⟩
        have htasks : t.shared.pool.tasks ≠ [] := by
          intro hempty
          apply hgoal ⟨hempty, _⟩
          unfold inFlight total
          exact Finset.sum_eq_zero fun i _ => hnone i
        rcases WorkerPc.idle_or_ended (hnone ⟨0, hn⟩) with hidle | hend
        · exact hT.lower_take (fun u hu _ => ⟨hu.running, hu.notPaused⟩) hI htasks hidle
        · have hclosed := (shutdown_run hI.reachable).leaving _ (by rw [hend]; rfl)
          rw [hI.running] at hclosed
          cases hclosed
  refine ⟨t, ht, hdone.1, hdone.2, ?_⟩
  have hcons := ReachableBy.conserved (hT.closed s t hopen ht).reachable
  rw [hcons.fifo, hdone.1, List.append_nil, hcons.started, hdone.2, zero_add]

omit [DecidableEq γ] in
theorem script_terminates (calls : γ → List (Call τ)) : Terminates (script n calls) fun _ _ => 0 where
  goes _ _ _ _ _ _ := ⟨(), _, rfl⟩
  spends := by
    rintro _ _ _ _ _ _ _ _ _ _ ⟨⟩
    trivial

theorem pool_can_drain_pushTwo : ∃ s, Reachable pushTwo s ∧
    s.shared.pool.tasksMutex = some (.client ()) ∧ s.shared.pool.tasks = [7, 8] ∧
    ∃ t, (threads pushTwo).Steps busy s t ∧ t.shared.pool.tasks = [] ∧ inFlight t = 0 := by
  have h : ((threads pushTwo).run Threads.anyStep (initial pushTwo) (steps (.client ()) 9)).map
      (fun s => decide (s.shared.pool.tasksMutex = some (.client ()) ∧ s.shared.pool.tasks = [7, 8] ∧
        s.shared.pool.running = true ∧ s.shared.pool.paused = false)) = some true := by decide
  obtain ⟨s, hs, hp⟩ := Threads.exists_steps_of_run h
  obtain ⟨hmutex, htasks, hrun, hpaused⟩ := of_decide_eq_true hp
  obtain ⟨t, ht, hempty, hin, _⟩ :=
    pool_can_drain pushTwo Nat.one_pos (script_terminates _) hs hrun hpaused
  exact ⟨s, hs, hmutex, htasks, t, ht, hempty, hin⟩

end SysUtils.ThreadPool

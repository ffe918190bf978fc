import SysUtils.Interleaving.Threads
import SysUtils.Scan.Phases

namespace SysUtils.Scan.Lifecycle

open Interleaving

inductive Who where
  | owner | body (k : ℕ)
  deriving DecidableEq, Repr

inductive Call where
  | start | stop (doWait : Bool) | wait | destroy
  deriving DecidableEq, Repr

/-- What a step leaves open: which call the owner makes, and whether the method asks `stopRequested`, goes
on without asking, or returns. -/
inductive Choice where
  | call (c : Call) | stopRequested | goOn | return
  deriving DecidableEq, Repr

inductive OwnerPc where
  | idle | newThread | join | resetRequest | destroyed
  deriving DecidableEq, Repr

/-- The members of a `Thread`, and its process. `started` counts the threads that have begun, and `asked`
says whether `stop` has been called since the last one has. -/
structure Members where
  stopRequest : Bool
  internalThread : Option ℕ
  started : ℕ
  returned : ℕ → Bool
  terminated : Bool
  asked : Bool

abbrev Loc : Who → Type
  | .owner => OwnerPc
  -- whether the method has seen a request
  | .body _ => Bool

abbrev State := Config Members Loc

def owner (x : Choice) (m : Members) : OwnerPc → Option (Members × OwnerPc)
  | .idle =>
      match x with
      | .call .start => some ({ m with stopRequest := false }, .newThread)
      | .call (.stop doWait) =>
          some ({ m with stopRequest := true, asked := true }, if doWait then .join else .idle)
      | .call .wait => some (m, .join)
      | .call .destroy => some ({ m with terminated := m.internalThread.isSome }, .destroyed)
      | _ => none
  | .newThread =>
      -- the new thread begins, and assigning it to one that is joinable terminates the process
      some ({ m with
        started := m.started + 1
        asked := false
        internalThread := some m.started
        terminated := m.internalThread.isSome }, .idle)
  | .join =>
      match m.internalThread with
      | none => some (m, .resetRequest)
      | some k => if m.returned k then some ({ m with internalThread := none }, .resetRequest) else none
  | .resetRequest => some ({ m with stopRequest := false }, .idle)
  | .destroyed => none

def Members.runs (m : Members) (k : ℕ) : Bool := decide (k < m.started) && !m.returned k

def body (k : ℕ) (x : Choice) (m : Members) (seen : Bool) : Option (Members × Bool) :=
  if m.runs k then
    match x with
    | .stopRequested => some (m, seen || m.stopRequest)
    | .goOn => some (m, seen)
    | .return => some ({ m with returned := Function.update m.returned k true }, seen)
    | .call _ => none
  else none

def threads : Threads Who Members Choice Loc where
  step
    | .owner, x, m, pc => if m.terminated then none else owner x m pc
    | .body k, x, m, seen => if m.terminated then none else body k x m seen

def start : State := ⟨⟨false, none, 0, fun _ => false, false, false⟩, fun
  | .owner => .idle
  | .body _ => false⟩

structure Alive (m : Members) (pc : OwnerPc) (seen : ℕ → Bool) : Prop where
  alone : ∀ k, m.runs k = true → m.internalThread = some k
  unborn : ∀ k, m.started ≤ k → seen k = false ∧ m.returned k = false
  fresh : pc = .newThread → m.stopRequest = false
  joined : pc = .resetRequest → m.internalThread = none
  heard : ∀ k, m.runs k = true → seen k = true → m.asked = true
  asked : ∀ k, m.runs k = true → pc ≠ .newThread → m.stopRequest = m.asked
  requested : m.stopRequest = true → m.asked = true

variable {m m' : Members} {pc pc' : OwnerPc} {seen : ℕ → Bool} {x : Choice}

theorem runs_iff {k : ℕ} : m.runs k = true ↔ k < m.started ∧ m.returned k = false := by
  simp [Members.runs]

theorem Alive.newThread (h : Alive m .newThread seen) (hnone : m.internalThread = none) (hm' : m' =
    { m with
      started := m.started + 1
      asked := false
      internalThread := some m.started
      terminated := m.internalThread.isSome }) : Alive m' .idle seen := by
  have hold {k : ℕ} (hk : m'.runs k = true) : k = m.started := by
    obtain ⟨hlt, hret⟩ := runs_iff.mp hk
    rw [hm'] at hlt hret
    simp only at hlt hret
    by_contra hne
    have hrun : m.runs k = true := runs_iff.mpr ⟨by omega, hret⟩
    have halone := h.alone k hrun
    rw [hnone] at halone
    cases halone
  have hrequest := h.fresh rfl
  subst hm'
  constructor
  · intro k hk
    rw [hold hk]
  · intro k hk
    exact h.unborn k (by simp only at hk; omega)
  · rintro ⟨⟩
  · rintro ⟨⟩
  · intro k hk hseen
    rw [hold hk, (h.unborn _ le_rfl).1] at hseen
    cases hseen
  · intro k _ _
    exact hrequest
  · intro hstop
    rw [hrequest] at hstop
    cases hstop

theorem Alive.owner (h : Alive m pc seen) (hr : owner x m pc = some (m', pc')) (halive : m'.terminated = false) :
    Alive m' pc' seen := by
  cases pc with
  | idle =>
    cases x with
    | call c =>
      cases c with
      | start =>
        cases hr
        exact ⟨h.alone, h.unborn, fun _ => rfl, by rintro ⟨⟩, h.heard,
          fun _ _ hne => absurd rfl hne, by rintro ⟨⟩⟩
      | stop doWait =>
        cases hr
        refine ⟨h.alone, h.unborn, ?_, ?_, fun _ _ _ => rfl, fun _ _ _ => rfl, fun _ => rfl⟩
        · cases doWait <;> rintro ⟨⟩
        · cases doWait <;> rintro ⟨⟩
      | wait | destroy =>
        cases hr
        exact ⟨h.alone, h.unborn, by rintro ⟨⟩, by rintro ⟨⟩, h.heard,
          fun k hk _ => h.asked k hk (by rintro ⟨⟩), h.requested⟩
    | _ => cases hr
  | newThread =>
    cases hr
    exact h.newThread (Option.isSome_eq_false_iff.mp halive |> Option.isNone_iff_eq_none.mp) rfl
  | join =>
    simp only [Lifecycle.owner] at hr
    cases hthread : m.internalThread with
    | none =>
      rw [hthread] at hr
      cases hr
      exact ⟨h.alone, h.unborn, by rintro ⟨⟩, fun _ => hthread, h.heard,
        fun k hk _ => h.asked k hk (by rintro ⟨⟩), h.requested⟩
    | some k =>
      rw [hthread] at hr
      obtain ⟨hret, hr⟩ := Option.ite_none_right_eq_some.mp hr
      cases hr
      have hnone (j : ℕ) : m.runs j ≠ true := by
        intro hj
        obtain rfl : k = j := Option.some.inj (hthread.symm.trans (h.alone j hj))
        rw [(runs_iff.mp hj).2] at hret
        cases hret
      exact ⟨fun j hj => absurd hj (hnone j), h.unborn, by rintro ⟨⟩, fun _ => rfl, fun j hj => absurd hj (hnone j),
        fun j hj => absurd hj (hnone j), h.requested⟩
  | resetRequest =>
    cases hr
    have hnone (j : ℕ) : m.runs j ≠ true := by
      intro hj
      have halone := h.alone j hj
      rw [h.joined rfl] at halone
      cases halone
    exact ⟨h.alone, h.unborn, by rintro ⟨⟩, by rintro ⟨⟩, h.heard,
      fun j hj => absurd hj (hnone j), by rintro ⟨⟩⟩
  | destroyed => cases hr

theorem Alive.body (h : Alive m pc seen) {k : ℕ} {b : Bool} (hr : body k x m (seen k) = some (m', b)) :
    Alive m' pc (Function.update seen k b) := by
  obtain ⟨hk, hr⟩ := Option.ite_none_right_eq_some.mp hr
  have hborn : k < m.started := (runs_iff.mp hk).1
  have hunborn (j : ℕ) (hj : m.started ≤ j) : Function.update seen k b j = false ∧ m.returned j = false := by
    rw [Function.update_of_ne (by omega)]
    exact h.unborn j hj
  cases x with
  | call c => cases hr
  | goOn =>
    cases hr
    rw [Function.update_eq_self]
    exact h
  | stopRequested =>
    cases hr
    refine ⟨h.alone, hunborn, h.fresh, h.joined, ?_, h.asked, h.requested⟩
    intro j hj hseen
    by_cases hjk : j = k
    · rw [hjk, Function.update_self, Bool.or_eq_true] at hseen
      exact hseen.elim (h.heard k hk) h.requested
    · rw [Function.update_of_ne hjk] at hseen
      exact h.heard j hj hseen
  | «return» =>
    cases hr
    rw [Function.update_eq_self]
    have hstill {j : ℕ} (hj : ({ m with returned := Function.update m.returned k true } : Members).runs j = true) :
        m.runs j = true := by
      obtain ⟨hlt, hret⟩ := runs_iff.mp hj
      refine runs_iff.mpr ⟨hlt, ?_⟩
      by_cases hjk : j = k
      · rw [hjk] at hret
        simp at hret
      · simpa only [Function.update_of_ne hjk] using hret
    have hunborn' (j : ℕ) (hj : m.started ≤ j) :
        seen j = false ∧ Function.update m.returned k true j = false := by
      rw [Function.update_of_ne (by omega)]
      exact h.unborn j hj
    exact ⟨fun j hj => h.alone j (hstill hj), hunborn', h.fresh, h.joined, fun j hj => h.heard j (hstill hj),
      fun j hj => h.asked j (hstill hj), h.requested⟩

theorem alive_run {ok : State → Who → Choice → Prop} {s : State} (hs : threads.Steps ok start s)
    (halive : s.shared.terminated = false) : Alive s.shared (s.loc .owner) fun k => s.loc (.body k) := by
  revert halive
  apply hs.invariant (I := fun s => s.shared.terminated = false →
    Alive s.shared (s.loc .owner) fun k => s.loc (.body k))
  · intro _
    constructor <;> simp [start, Members.runs]
  · intro u i x r _ _ hr hI
    cases i with
    | owner =>
      obtain ⟨hrunning, hr⟩ := Option.ite_none_left_eq_some.mp hr
      intro halive
      have h := (hI (by simpa using hrunning)).owner hr halive
      have hloc : (fun k => (u.set .owner r).loc (.body k)) = fun k => u.loc (.body k) := by
        funext k
        exact Config.set_loc_of_ne _ (by simp) _
      rw [Config.set_shared, Config.set_loc_self, hloc]
      exact h
    | body k =>
      obtain ⟨hrunning, hr⟩ := Option.ite_none_left_eq_some.mp hr
      intro halive
      have h := (hI (by simpa using hrunning)).body hr
      have hloc : (fun j => (u.set (.body k) r).loc (.body j)) =
          Function.update (fun j => u.loc (.body j)) k r.2 := by
        funext j
        by_cases hjk : j = k
        · subst hjk
          rw [Config.set_loc_self, Function.update_self]
        · rw [Config.set_loc_of_ne _ (by simpa using hjk), Function.update_of_ne hjk]
      rw [Config.set_shared, Config.set_loc_of_ne _ (by simp), hloc]
      exact h

/-- In every run whose process has not been terminated: at most one thread runs the method, and it is the one
that can be joined. While it runs, no `wait` is about to reset the request, which is there exactly when `stop`
has been called since the thread began, save between the two statements of a further `start`. -/
theorem thread_lifecycle {s : State} (hs : threads.Steps Threads.anyStep start s)
    (halive : s.shared.terminated = false) :
    (∀ j k, s.shared.runs j = true → s.shared.runs k = true → j = k) ∧
    ∀ k, s.shared.runs k = true → s.shared.internalThread = some k ∧ s.loc .owner ≠ .resetRequest ∧
      (s.loc .owner ≠ .newThread → s.shared.stopRequest = s.shared.asked) ∧
      (s.loc (.body k) = true → s.shared.asked = true) := by
  have h := alive_run hs halive
  constructor
  · intro j k hj hk
    exact Option.some.inj ((h.alone j hj).symm.trans (h.alone k hk))
  · intro k hk
    refine ⟨h.alone k hk, ?_, h.asked k hk, h.heard k hk⟩
    intro hreset
    have hjoined := h.joined hreset
    rw [h.alone k hk] at hjoined
    cases hjoined

theorem thread_lifecycle_restart : ∃ s, threads.Steps Threads.anyStep start s ∧ s.shared.runs 1 = true ∧
    s.shared.runs 0 = false ∧ s.shared.stopRequest = true ∧ s.shared.asked = true ∧
    s.shared.internalThread = some 1 := by
  have h : (threads.run Threads.anyStep start [(.owner, .call .start), (.owner, .goOn), (.body 0, .return),
      (.owner, .call .wait), (.owner, .goOn), (.owner, .goOn), (.owner, .call .start), (.owner, .goOn),
      (.owner, .call (.stop false)), (.body 1, .stopRequested)]).map (fun s => decide
        (s.shared.terminated = false ∧ s.shared.runs 1 = true ∧ s.shared.runs 0 = false ∧
          s.loc (.body 1) = true ∧ s.loc .owner = .idle ∧ s.shared.stopRequest = true)) = some true := by
    decide
  obtain ⟨s, hs, hp⟩ := Threads.exists_steps_of_run h
  obtain ⟨halive, hrun, hreturned, hseen, _, hrequest⟩ := of_decide_eq_true hp
  obtain ⟨hjoinable, _, _, hasked⟩ := (thread_lifecycle hs halive).2 1 hrun
  exact ⟨s, hs, hrun, hreturned, hrequest, hasked hseen, hjoinable⟩

/-! The life of a helper in the scan is what a `Thread` shows of itself. -/

def life (m : Members) : Life :=
  match m.internalThread with
  | none => .notJoinable
  | some k => if m.returned k then .finished else .running

inductive LifeStep : Life → Life → Prop where
  | start : LifeStep .notJoinable .running
  | return : LifeStep .running .finished
  | join : LifeStep .finished .notJoinable
  | stay (l : Life) : LifeStep l l

theorem life_of_thread {k : ℕ} (h : m.internalThread = some k) :
    life m = if m.returned k then .finished else .running := by
  rw [life, h]

theorem owner_life (h : Alive m pc seen) (hr : owner x m pc = some (m', pc')) (halive : m'.terminated = false) :
    LifeStep (life m) (life m') := by
  cases pc with
  | idle =>
    cases x with
    | call c => cases c <;> cases hr <;> exact .stay _
    | _ => cases hr
  | newThread =>
    cases hr
    have hnone : m.internalThread = none :=
      Option.isNone_iff_eq_none.mp (Option.isSome_eq_false_iff.mp halive)
    have hbefore : life m = .notJoinable := by rw [life, hnone]
    rw [hbefore, life_of_thread rfl, (h.unborn m.started le_rfl).2]
    exact .start
  | join =>
    simp only [owner] at hr
    cases hthread : m.internalThread with
    | none =>
      rw [hthread] at hr
      cases hr
      exact .stay _
    | some k =>
      rw [hthread] at hr
      obtain ⟨hret, hr⟩ := Option.ite_none_right_eq_some.mp hr
      cases hr
      rw [life_of_thread hthread, if_pos hret]
      exact .join
  | resetRequest =>
    cases hr
    exact .stay _
  | destroyed => cases hr

theorem body_life (h : Alive m pc seen) {k : ℕ} {b : Bool} (hr : body k x m (seen k) = some (m', b)) :
    LifeStep (life m) (life m') := by
  obtain ⟨hk, hr⟩ := Option.ite_none_right_eq_some.mp hr
  cases x with
  | call c => cases hr
  | goOn => cases hr; exact .stay _
  | stopRequested => cases hr; exact .stay _
  | «return» =>
    cases hr
    have hthread := h.alone k hk
    have hafter : life { m with returned := Function.update m.returned k true } = .finished := by
      rw [life_of_thread (m := { m with returned := Function.update m.returned k true }) hthread]
      exact if_pos (Function.update_self k true m.returned)
    rw [hafter, life_of_thread hthread, (runs_iff.mp hk).2]
    exact .return

theorem lifeStep_join {l : Life} (h : l ≠ .running) : LifeStep l .notJoinable := by
  cases l with
  | notJoinable => exact .stay _
  | running => exact absurd rfl h
  | finished => exact .join

def LivesStep {n : ℕ} (e e' : Env n) : Prop :=
  LifeStep e.dbRecorder e'.dbRecorder ∧ LifeStep e.notifier e'.notifier

theorem livesStep_of_eq {n : ℕ} {e e' : Env n} (h : e'.dbRecorder = e.dbRecorder) (h' : e'.notifier = e.notifier) :
    LivesStep e e' := by
  unfold LivesStep
  rw [h, h']
  exact ⟨.stay _, .stay _⟩

section

open ThreadPool

variable {n : ℕ} {v v' : Seen ScanTask (Env n)} {idle : Prop} {main : Option (Session ScanTask MainPc)}
  {recorder : Option (Session ScanTask Recorder)} {notifier : Option (Session ScanTask NotifierPc)}

theorem mainMove_lives {main' : Option (Session ScanTask MainPc)} {x : Answer}
    (h : MainMove x v main (v', main')) (hp : Phases idle v.env main recorder notifier) :
    LivesStep v.env v'.env := by
  cases h with
  | startRecorder rest =>
    have hoff : v.env.dbRecorder = .notJoinable := hp.recorderOff.mp rfl
    refine ⟨?_, .stay _⟩
    rw [hoff]
    exact .start
  | startNotifier rest =>
    have hoff : v.env.notifier = .notJoinable := hp.notifierOff.mp rfl
    refine ⟨.stay _, ?_⟩
    rw [hoff]
    exact .start
  | joinNotifier rest hl => exact ⟨.stay _, lifeStep_join hl⟩
  | joinRecorder rest hl => exact ⟨lifeStep_join hl, .stay _⟩
  | _ => exact ⟨.stay _, .stay _⟩

theorem recorderMove_lives {recorder' : Option (Session ScanTask Recorder)}
    (h : RecorderMove v recorder (v', recorder')) (hp : Phases idle v.env main recorder notifier) :
    LivesStep v.env v'.env := by
  cases h with
  | «return» infos he =>
    have hon : v.env.dbRecorder = .running := hp.recorderIdle _ rfl (by simp)
    refine ⟨?_, .stay _⟩
    rw [hon]
    exact .return
  | _ => exact ⟨.stay _, .stay _⟩

theorem notifierMove_lives {notifier' : Option (Session ScanTask NotifierPc)} {count : ℕ}
    (h : NotifierMove count v notifier (v', notifier')) (hp : Phases idle v.env main recorder notifier) :
    LivesStep v.env v'.env := by
  cases h with
  | «return» =>
    have hon : v.env.notifier = .running := hp.notifierIdle _ rfl (by simp)
    refine ⟨.stay _, ?_⟩
    rw [hon]
    exact .return
  | _ => exact ⟨.stay _, .stay _⟩

theorem scan_lives {S : Sys} {rounds : List (List Str)} {s : ScanState n}
    (hs : Reachable (program n S rounds) s) {i : Thread n Client} {x : ThreadPool.Choice n Client Answer}
    {r : Shared n Client ScanTask (Env n) × ThreadPool.Loc n ScanTask ScanPc ClientCode i}
    (hr : (ThreadPool.threads (program n S rounds)).step i x s.shared (s.loc i) = some r) :
    LivesStep s.shared.env r.1.env := by
  have hm := scan_move hs hr
  have hp := scan_phases hs
  cases i with
  | worker i =>
    obtain ⟨_, _, hrecorder, hnotifier, _⟩ := ScanMove.frame hm
    exact livesStep_of_eq hrecorder hnotifier
  | client c =>
    cases c with
    | main => exact mainMove_lives hm hp
    | recorder => exact recorderMove_lives hm hp
    | notifier => exact notifierMove_lives hm hp
    | user u =>
      obtain ⟨_, _, hrecorder, hnotifier, _⟩ := UserMove.frame hm
      exact livesStep_of_eq hrecorder hnotifier

end

theorem thread_life {s : State} (hs : threads.Steps Threads.anyStep start s) {i : Who} {x : Choice}
    {r : Members × Loc i} (hr : threads.step i x s.shared (s.loc i) = some r) (halive : r.1.terminated = false) :
    LifeStep (life s.shared) (life r.1) := by
  cases i with
  | owner =>
    obtain ⟨hrunning, hr⟩ := Option.ite_none_left_eq_some.mp hr
    exact owner_life (alive_run hs (by simpa using hrunning)) hr halive
  | body k =>
    obtain ⟨hrunning, hr⟩ := Option.ite_none_left_eq_some.mp hr
    exact body_life (alive_run hs (by simpa using hrunning)) hr

theorem lives_simulate :
    (∀ s i x r, threads.Steps Threads.anyStep start s → threads.step i x s.shared (s.loc i) = some r →
      r.1.terminated = false → LifeStep (life s.shared) (life r.1)) ∧
    ∀ n S rounds (s : ScanState n) i x r, ThreadPool.Reachable (program n S rounds) s →
      (ThreadPool.threads (program n S rounds)).step i x s.shared (s.loc i) = some r →
      LifeStep s.shared.env.dbRecorder r.1.env.dbRecorder ∧ LifeStep s.shared.env.notifier r.1.env.notifier :=
  ⟨fun _ _ _ _ hs hr halive => thread_life hs hr halive, fun _ _ _ _ _ _ _ hs hr => scan_lives hs hr⟩

theorem lives_simulate_newThread : ∃ s r, threads.Steps Threads.anyStep start s ∧
    threads.step .owner .goOn s.shared (s.loc .owner) = some r ∧ life r.1 = .running ∧
    LifeStep (life s.shared) (life r.1) := by
  have h : (threads.run Threads.anyStep start [(.owner, .call .start)]).map (fun s =>
      (threads.step .owner .goOn s.shared (s.loc .owner)).any fun r => decide
        (r.1.terminated = false ∧ life r.1 = .running)) = some true := by decide
  obtain ⟨s, hs, hp⟩ := Threads.exists_steps_of_run h
  obtain ⟨r, hr, hlife⟩ := (Option.any_eq_true _ _).mp hp
  obtain ⟨halive, hrunning⟩ := of_decide_eq_true hlife
  exact ⟨s, r, hs, hr, hrunning, lives_simulate.1 s .owner .goOn r hs hr halive⟩

end SysUtils.Scan.Lifecycle

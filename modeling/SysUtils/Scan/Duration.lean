import SysUtils.Scan.Exit

namespace SysUtils.Scan

open Interleaving ThreadPool

variable {n : ℕ} {S : Sys} {rounds : List (List Str)} {s : ScanState n} {t0 t : ℤ}

/-- What the clock showed when `launch()` last read it, and at the end of each call of `do_scan` that went
through its directory. -/
structure Clock where
  launched : Option ℤ
  completed : List ℤ
  deriving DecidableEq, Repr

def Clock.unread : Clock := ⟨none, []⟩

def Clock.afterWorker (c : Clock) (x : Answer) : WorkerPc ScanTask ScanPc → Clock
  | .body _ .setTimeEnd => if x.throws then c else { c with completed := c.completed ++ [x.now] }
  | _ => c

def Clock.afterMain (c : Clock) (x : Answer) : ClientPc ScanTask MainPc → Clock
  | .code (.setTimeStart _) => { c with launched := some x.now }
  | _ => c

def Clock.after (c : Clock) (s : ScanState n) (i : Thread n Client) (x : Choice n Client Answer) : Clock :=
  match i with
  | .worker i => c.afterWorker x.code (s.loc (.worker i))
  | .client .main => c.afterMain x.code (s.loc (.client .main))
  | .client _ => c

inductive Timed (S : Sys) (rounds : List (List Str)) : ScanState n → Clock → Prop
  | start : Timed S rounds (initial (program n S rounds)) .unread
  | step {s t : ScanState n} {c : Clock} {i : Thread n Client} {x : Choice n Client Answer}
      (h : Timed S rounds s c) (hn : (threads (program n S rounds)).next s i x = some t) :
      Timed S rounds t (c.after s i x)

structure Clocked (e : Env n) (c : Clock) : Prop where
  timeStart : e.timeStart = c.launched.elim 0 (BitVec.ofInt 32)
  timeEnd : e.timeEnd = c.completed.getLast?.elim 0 (BitVec.ofInt 32)

variable {c : Clock} {e e' : Env n} {x : Answer}

theorem Clocked.congr (h : Clocked e c) (hstart : e'.timeStart = e.timeStart)
    (hend : e'.timeEnd = e.timeEnd) : Clocked e' c := by
  constructor
  · rw [hstart]
    exact h.timeStart
  · rw [hend]
    exact h.timeEnd

theorem doScan_times {i : Fin n} {t : ScanTask} {k k' : ScanPc} {o : BodyCall ScanTask}
    (h : doScan S i t x e k = some (o, e', k')) : e'.timeStart = e.timeStart ∧
      (k ≠ .setTimeEnd → e'.timeEnd = e.timeEnd) ∧
      (k = .setTimeEnd → e'.timeEnd = BitVec.ofInt 32 x.now) := by
  cases k with
  | setTimeEnd =>
    cases h
    exact ⟨rfl, fun hne => absurd rfl hne, fun _ => rfl⟩
  | start =>
    unfold doScan at h
    split_ifs at h <;> cases h <;> exact ⟨rfl, fun _ => rfl, by rintro ⟨⟩⟩
  | traverse rest out =>
    cases rest with
    | nil =>
      cases h
      exact ⟨rfl, fun _ => rfl, by rintro ⟨⟩⟩
    | cons entry rest =>
      cases h
      exact ⟨rfl, fun _ => rfl, by rintro ⟨⟩⟩
  | lockDirs out | lockInfos files symbols =>
    simp only [doScan, Option.ite_none_right_eq_some] at h
    cases h.2
    exact ⟨rfl, fun _ => rfl, by rintro ⟨⟩⟩
  | pushDirs dirs files symbols =>
    cases dirs <;> cases h <;> exact ⟨rfl, fun _ => rfl, by rintro ⟨⟩⟩
  | check files symbols =>
    cases files with
    | cons f files =>
      cases h
      exact ⟨rfl, fun _ => rfl, by rintro ⟨⟩⟩
    | nil => cases symbols <;> cases h <;> exact ⟨rfl, fun _ => rfl, by rintro ⟨⟩⟩
  | opendir | collect entry rest out | count out =>
    cases h
    exact ⟨rfl, fun _ => rfl, by rintro ⟨⟩⟩

theorem Clocked.body {i : Fin n} {t : ScanTask} {x : Choice n Client Answer} {count : ℕ} {paused : Bool}
    {k k' : ScanPc} {o : BodyCall ScanTask} (h : Clocked e c)
    (hb : (program n S rounds).body i t x.code count paused e k = some (o, e', k')) :
    Clocked e' (c.afterWorker x.code (.body t k)) := by
  simp only [program] at hb
  split_ifs at hb with hx
  · cases hb
    have hc : c.afterWorker x.code (.body t k) = c := by
      cases k <;> first | rfl | exact if_pos hx
    rw [hc]
    exact h.congr rfl rfl
  · obtain ⟨hstart, hkeep, hset⟩ := doScan_times hb
    by_cases hk : k = .setTimeEnd
    · subst hk
      have hc : c.afterWorker x.code (.body t .setTimeEnd) =
          { c with completed := c.completed ++ [x.code.now] } := if_neg hx
      rw [hc]
      constructor
      · rw [hstart]
        exact h.timeStart
      · rw [hset rfl, List.getLast?_concat]
        rfl
    · have hc : c.afterWorker x.code (.body t k) = c := by
        cases k <;> first | rfl | exact absurd rfl hk
      rw [hc]
      exact h.congr hstart (hkeep hk)

theorem Clocked.worker {i : Fin n} {x : Choice n Client Answer} {s : Shared n Client ScanTask (Env n)}
    {l : WorkerPc ScanTask ScanPc} {r : Shared n Client ScanTask (Env n) × WorkerPc ScanTask ScanPc}
    (h : Clocked s.env c) (hm : WorkerMove (program n S rounds) i x s l r) :
    Clocked r.1.env (c.afterWorker x.code l) := by
  cases hm with
  | bodyOwn t k k' e hb => exact h.body hb
  | bodyPush t t' k k' e hb => exact h.body hb
  | bodyPause t k k' e hb => exact h.body hb
  | bodyUnpause t k k' e hb => exact h.body hb
  | bodyEnd t k k' e o ho hb => exact h.body hb
  | _ => exact h

theorem main_times {k k' : MainPc} {o : Call ScanTask} (h : main x e k = some (o, e', k')) :
    e'.timeEnd = e.timeEnd ∧ (e'.timeStart = (match k with
      | .setTimeStart _ => BitVec.ofInt 32 x.now
      | _ => e.timeStart)) := by
  cases k with
  | addPaths paths rest => cases paths <;> cases h <;> exact ⟨rfl, rfl⟩
  | pushRoots j rest =>
    simp only [main] at h
    split at h <;> cases h <;> exact ⟨rfl, rfl⟩
  | startRecorder rest | startNotifier rest =>
    simp only [main, Option.ite_none_right_eq_some] at h
    cases h.2
    exact ⟨rfl, rfl⟩
  | joinNotifier rest | joinRecorder rest =>
    simp only [main, Option.ite_none_left_eq_some] at h
    cases h.2
    exact ⟨rfl, rfl⟩
  | _ =>
    cases h
    exact ⟨rfl, rfl⟩

theorem Clocked.main {k k' : MainPc} {o : Call ScanTask} (h : Clocked e c)
    (hc : Scan.main x e k = some (o, e', k')) : Clocked e' (c.afterMain x (.code k)) := by
  obtain ⟨hend, hstart⟩ := main_times hc
  cases k with
  | setTimeStart rest =>
    constructor
    · rw [hstart]
      rfl
    · rw [hend]
      exact h.timeEnd
  | _ => exact h.congr hstart hend

theorem RecorderMove.times {v v' : Seen ScanTask (Env n)} {r r' : Option (Session ScanTask Recorder)}
    (h : RecorderMove v r (v', r')) :
    v'.env.timeStart = v.env.timeStart ∧ v'.env.timeEnd = v.env.timeEnd := by
  cases h <;> exact ⟨rfl, rfl⟩

theorem NotifierMove.times {count : ℕ} {v v' : Seen ScanTask (Env n)}
    {f f' : Option (Session ScanTask NotifierPc)} (h : NotifierMove count v f (v', f')) :
    v'.env.timeStart = v.env.timeStart ∧ v'.env.timeEnd = v.env.timeEnd := by
  cases h <;> exact ⟨rfl, rfl⟩

theorem UserMove.times {v v' : Seen ScanTask (Env n)} {u u' : Option (Session ScanTask UserPc)}
    (h : UserMove v u (v', u')) :
    v'.env.timeStart = v.env.timeStart ∧ v'.env.timeEnd = v.env.timeEnd := by
  cases h <;> exact ⟨rfl, rfl⟩

theorem helper_times {d : Client} {x : Choice n Client Answer} {count : ℕ} {paused : Bool}
    {k k' : ClientCode d} {o : Call ScanTask} (hd : d ≠ .main)
    (hc : (program n S rounds).client d x.code count paused e k = some (o, e', k')) :
    e'.timeStart = e.timeStart ∧ e'.timeEnd = e.timeEnd := by
  have hv : e = (⟨[], [], false, e⟩ : Seen ScanTask (Env n)).env := rfl
  rw [hv] at hc
  cases d with
  | main => exact absurd rfl hd
  | recorder => exact RecorderMove.times (writeToDb_move hc).1
  | notifier =>
    obtain ⟨hown, hpause, rfl | rfl⟩ := statusNotifier_move hc
    · exact NotifierMove.times (hown rfl)
    · exact NotifierMove.times (hpause rfl)
  | user u =>
    obtain ⟨hown, hpause, rfl | rfl⟩ := stop_move hc
    · exact UserMove.times (hown rfl)
    · exact UserMove.times (hpause rfl)

theorem Clocked.client {s : Shared n Client ScanTask (Env n)} {d : Client} {x : Choice n Client Answer}
    {l : ClientPc ScanTask (ClientCode d)}
    {r : Shared n Client ScanTask (Env n) × ClientPc ScanTask (ClientCode d)} (h : Clocked s.env c)
    (hd : d ≠ .main) (hm : ClientMove (program n S rounds) d x s l r) : Clocked r.1.env c := by
  cases hm with
  | own k k' e hc | callPush t k k' e hc | callPause k k' e hc | callUnpause k k' e hc
  | callWait k k' e hc | callDestroy k k' e hc =>
    obtain ⟨hstart, hend⟩ := helper_times hd hc
    exact h.congr hstart hend
  | _ => exact h

theorem Clocked.owner {s : Shared n Client ScanTask (Env n)} {x : Choice n Client Answer}
    {l : ClientPc ScanTask (ClientCode .main)}
    {r : Shared n Client ScanTask (Env n) × ClientPc ScanTask (ClientCode .main)} (h : Clocked s.env c)
    (hm : ClientMove (program n S rounds) .main x s l r) :
    Clocked r.1.env (c.afterMain x.code l) := by
  cases hm with
  | own k k' e hc | callPush t k k' e hc | callPause k k' e hc | callUnpause k k' e hc
  | callWait k k' e hc | callDestroy k k' e hc => exact h.main hc
  | _ => exact h

theorem Timed.clocked (h : Timed S rounds s c) : Clocked s.shared.env c := by
  induction h with
  | start => exact ⟨rfl, rfl⟩
  | @step s t c i x _ hn ih =>
    obtain ⟨r, hr, rfl⟩ := Threads.next_eq_some.mp hn
    cases i with
    | worker i => exact ih.worker (worker_move _ hr)
    | client d =>
      cases d with
      | main => exact ih.owner (client_move _ hr)
      | recorder | notifier | user u => exact ih.client (by simp) (client_move _ hr)

def Env.duration (e : Env n) : ℤ := e.timeEnd.toInt - e.timeStart.toInt

def Clock.elapsed (c : Clock) (t0 : ℤ) : ℤ := c.completed.getLast?.elim 0 fun t => t - t0

structure RightDuration (e : Env n) (c : Clock) (t0 : ℤ) : Prop where
  fits : - 2 ^ 31 ≤ e.duration ∧ e.duration < 2 ^ 31
  nonneg : 0 ≤ e.duration
  le : e.duration ≤ c.elapsed t0

def SameEra (t0 t : ℤ) : Prop := (t0 + 2 ^ 31) / 2 ^ 32 = (t + 2 ^ 31) / 2 ^ 32

theorem toInt_narrowed (t : ℤ) :
    (BitVec.ofInt 32 t).toInt = t - (t + 2 ^ 31) / 2 ^ 32 * 2 ^ 32 := by
  rw [BitVec.toInt_ofInt, Int.bmod_def]
  split_ifs <;> omega

theorem narrowed_difference (hle : t0 ≤ t) (hlt : t < t0 + 2 ^ 31) :
    (- 2 ^ 31 ≤ (BitVec.ofInt 32 t).toInt - (BitVec.ofInt 32 t0).toInt ∧
      (BitVec.ofInt 32 t).toInt - (BitVec.ofInt 32 t0).toInt ≤ t - t0 ∧
      0 ≤ (BitVec.ofInt 32 t).toInt - (BitVec.ofInt 32 t0).toInt) ↔ SameEra t0 t := by
  rw [toInt_narrowed, toInt_narrowed]
  unfold SameEra
  omega

theorem narrowed_eq_zero_iff : (BitVec.ofInt 32 t0).toInt = 0 ↔ 2 ^ 32 ∣ t0 := by
  rw [toInt_narrowed]
  omega

theorem duration_right_iff (h : Timed S rounds s c) (hlaunch : c.launched = some t0)
    (hrange : ∀ t ∈ c.completed, t0 ≤ t ∧ t < t0 + 2 ^ 31) :
    RightDuration s.shared.env c t0 ↔ c.completed.getLast?.elim (2 ^ 32 ∣ t0) (SameEra t0) := by
  have hclock := h.clocked
  have hstart : s.shared.env.timeStart = BitVec.ofInt 32 t0 := by
    rw [hclock.timeStart, hlaunch]
    rfl
  have hend := hclock.timeEnd
  cases hlast : c.completed.getLast? with
  | none =>
    rw [hlast] at hend
    have hduration : s.shared.env.duration = - (BitVec.ofInt 32 t0).toInt := by
      unfold Env.duration
      rw [hstart, hend]
      simp
    have helapsed : c.elapsed t0 = 0 := by
      unfold Clock.elapsed
      rw [hlast]
      rfl
    change _ ↔ 2 ^ 32 ∣ t0
    rw [← narrowed_eq_zero_iff]
    constructor
    · rintro ⟨_, hnonneg, hle⟩
      omega
    · intro hzero
      constructor <;> omega
  | some t =>
    rw [hlast] at hend
    obtain ⟨hle, hlt⟩ := hrange t (List.mem_of_getLast? hlast)
    have hduration : s.shared.env.duration =
        (BitVec.ofInt 32 t).toInt - (BitVec.ofInt 32 t0).toInt := by
      unfold Env.duration
      rw [hstart, hend]
      rfl
    have helapsed : c.elapsed t0 = t - t0 := by
      unfold Clock.elapsed
      rw [hlast]
      rfl
    change _ ↔ SameEra t0 t
    rw [← narrowed_difference hle hlt, ← hduration]
    constructor
    · rintro ⟨⟨hmin, _⟩, hnonneg, hmax⟩
      exact ⟨hmin, helapsed ▸ hmax, hnonneg⟩
    · rintro ⟨hmin, hmax, hnonneg⟩
      exact ⟨⟨hmin, by omega⟩, hnonneg, helapsed ▸ hmax⟩

def replay (S : Sys) (rounds : List (List Str)) : ScanState n → Clock →
    List (Thread n Client × Choice n Client Answer) → Option (ScanState n × Clock)
  | s, c, [] => some (s, c)
  | s, c, (i, x) :: as =>
      ((threads (program n S rounds)).next s i x).bind fun t => replay S rounds t (c.after s i x) as

theorem Timed.replay {as : List (Thread n Client × Choice n Client Answer)} {t : ScanState n} {c' : Clock}
    (h : Timed S rounds s c) (hrun : Scan.replay S rounds s c as = some (t, c')) : Timed S rounds t c' := by
  induction as generalizing s c with
  | nil =>
    cases hrun
    exact h
  | cons a as ih =>
    obtain ⟨i, x⟩ := a
    obtain ⟨u, hu, hrest⟩ := Option.bind_eq_some_iff.mp hrun
    exact ih (h.step hu) hrest

def timedStep (i : Thread n Client) (now : ℤ) : List (Thread n Client × Choice n Client Answer) :=
  [(i, { code := { now } })]

def oneDirectory (t0 t : ℤ) : List (Thread 1 Client × Choice 1 Client Answer) :=
  scanSteps (.client .main) 4 ++ timedStep (.client .main) t0 ++ scanSteps (.client .main) 8 ++
    scanSteps (.worker (Fin.last 0)) 19 ++ timedStep (.worker (Fin.last 0)) t

def noDirectory (t0 : ℤ) : List (Thread 1 Client × Choice 1 Client Answer) :=
  scanSteps (.client .main) 3 ++ timedStep (.client .main) t0 ++ scanSteps (.client .main) 3 ++
    scanSteps (.client .notifier) 5 ++ scanSteps (.client .main) 1 ++ scanSteps (.client .recorder) 3 ++
    scanSteps (.client .main) 3

theorem duration_right_quarter_second : ∃ s : ScanState 1,
    RightDuration s.shared.env ⟨some 1700000000000, [1700000000250]⟩ 1700000000000 := by
  have hrun : ((replay oneExecutable [["/a/".toList]] (initial scanOne) .unread
      (oneDirectory 1700000000000 1700000000250)).map Prod.snd) =
        some ⟨some 1700000000000, [1700000000250]⟩ := by decide
  obtain ⟨⟨s, c⟩, hs, rfl⟩ := Option.map_eq_some_iff.mp hrun
  have hera : SameEra 1700000000000 1700000000250 := by
    unfold SameEra
    decide
  refine ⟨s, (duration_right_iff (Timed.start.replay hs) rfl ?_).mpr hera⟩
  intro t ht
  rw [List.mem_singleton.mp ht]
  decide

theorem duration_wrong_without_directory : ∃ s : ScanState 1,
    Timed oneExecutable [[]] s ⟨some 1700000000000, []⟩ ∧ s.loc (.client .main) = .code .destroy ∧
    s.shared.env.duration = 807049216 ∧
    ¬ RightDuration s.shared.env ⟨some 1700000000000, []⟩ 1700000000000 := by
  have hrun : ((replay oneExecutable [[]] (initial (program 1 oneExecutable [[]])) .unread
      (noDirectory 1700000000000)).map fun p => decide (p.2 = ⟨some 1700000000000, []⟩ ∧
        p.1.loc (.client .main) = .code .destroy ∧ p.1.shared.env.duration = 807049216)) = some true := by
    decide
  obtain ⟨⟨s, c⟩, hs, hp⟩ := Option.map_eq_some_iff.mp hrun
  obtain ⟨rfl, hdestroy, hduration⟩ := of_decide_eq_true hp
  refine ⟨s, Timed.start.replay hs, hdestroy, hduration, ?_⟩
  intro h
  have hle := h.le
  rw [hduration] at hle
  revert hle
  decide

end SysUtils.Scan

import SysUtils.Scan.Interruption
import SysUtils.ThreadPool.Progress

namespace SysUtils.Scan

open Interleaving ThreadPool

variable {n : ℕ} {S : Sys} {roots : List Str}

/-! How much is left to be done until the scanner is destroyed, apart from waiting. -/

def PushPc.effort : PushPc → ℕ
  | .lock => 18
  | .enqueue => 17
  | .count => 3
  | .unlock => 2
  | .notify => 1

def Out.effort (out : Out) : ℕ := 19 * out.dirs.length + out.files.length + out.symbols.length

def ScanPc.effort : ScanPc → ℕ
  | .start => 11
  | .opendir => 10
  | .traverse rest out => 9 + 21 * rest.length + out.effort
  | .collect _ rest out => 29 + 21 * rest.length + out.effort
  | .count out => 8 + out.effort
  | .lockDirs out => 7 + out.effort
  | .pushDirs dirs files symbols => 6 + 19 * dirs.length + files.length + symbols.length
  | .lockInfos files symbols => 5 + files.length + symbols.length
  | .check files symbols => 4 + files.length + symbols.length
  | .setTimeEnd => 3

def WorkerPc.effort : WorkerPc ScanTask ScanPc → ℕ
  | .unlockTask _ => 13
  | .body _ k => k.effort + 1
  | .push _ k _ pc => k.effort + PushPc.effort pc + 1
  | .lockAgain _ => 3
  | .account _ => 2
  | .ended => 0
  | _ => 1

def MainPc.effort (m : ℕ) : MainPc → ℕ
  | .addPaths paths _ => 63 + 19 * m + paths.length
  | .setRunning _ => 62 + 19 * m
  | .setFileCounts _ => 61 + 19 * m
  | .setTimeStart _ => 60 + 19 * m
  | .pushRoots k _ => 59 + 19 * (m - k)
  | .startRecorder _ => 58
  | .startNotifier _ => 50
  | .joinNotifier (some _) => 42
  | .joinRecorder (some _) => 34
  | .joinNotifier none => 26
  | .joinRecorder none => 18
  | .destroy => 10

def WaitPc.effort : WaitPc → ℕ
  | .block => 9
  | .setWaiting | .blocked => 8
  | .lock | .relock => 7
  | .predicate => 6
  | .clearWaiting => 5
  | .unlock => 4

def mainEffort (m : ℕ) : ClientPc ScanTask MainPc → ℕ
  | .code k => k.effort m
  | .push _ pc k => k.effort m + PushPc.effort pc
  | .destroyWait pc => WaitPc.effort pc
  | .destroyRunning => 3
  | .destroyNotify => 2
  | .destroyJoin => 1
  | .wait _ _ | .destroyed => 0

def NotifierPc.effort (life : Life) : NotifierPc → ℕ
  | .idle => if life = .running then 5 else 0
  | .sleep => 5
  | .whileNotOver => 4
  | .stopRunning => 3
  | .stopPause => 2
  | .scanOver => 1

def RecorderPc.effort (life : Life) : RecorderPc → ℕ
  | .idle => if life = .running then 2 else 0
  | _ => 1

def notifierEffort (life : Life) : ClientPc ScanTask NotifierPc → ℕ
  | .code k => k.effort life
  | _ => 0

def recorderEffort (life : Life) : ClientPc ScanTask Recorder → ℕ
  | .code k => k.pc.effort life
  | _ => 0

def workerEffortAt : ∀ i : Thread n Client, Loc n ScanTask ScanPc ClientCode i → ℕ
  | .worker _ => WorkerPc.effort
  | .client _ => fun _ => 0

def treeLeft (S : Sys) (tree : Finset ScanTask) (e : Env n) : ℕ :=
  ∑ t ∈ tree \ e.visited.toFinset, 21 * (S.listing t.path).length

def sharedEffort (S : Sys) (tree : Finset ScanTask) (v : Shared n Client ScanTask (Env n)) : ℕ :=
  treeLeft S tree v.env + 13 * v.pool.tasks.length

def clientsEffort (m : ℕ) (s : ScanState n) : ℕ :=
  mainEffort m (s.loc (.client .main)) +
    notifierEffort s.shared.env.notifier (s.loc (.client .notifier)) +
    recorderEffort s.shared.env.dbRecorder (s.loc (.client .recorder))

def effort (S : Sys) (tree : Finset ScanTask) (m : ℕ) (s : ScanState n) : ℕ :=
  sharedEffort S tree s.shared + total Thread.worker workerEffortAt s + clientsEffort m s

variable {tree : Finset ScanTask} {m : ℕ} {s : ScanState n}

theorem workerEffort_set (s : ScanState n) (i : Thread n Client)
    (r : Shared n Client ScanTask (Env n) × Loc n ScanTask ScanPc ClientCode i) :
    total Thread.worker workerEffortAt (s.set i r) + workerEffortAt i (s.loc i) =
      total Thread.worker workerEffortAt s + workerEffortAt i r.2 := by
  cases i with
  | worker i => exact total_set worker_injective i r
  | client c =>
    have h := total_set_of_notMem (e := Thread.worker) (f := workerEffortAt) (s := s)
      (i := .client c) (fun k h => by cases h) r
    simpa [workerEffortAt] using h

variable (S tree m s) in
theorem effort_worker (i : Fin n) {r : Shared n Client ScanTask (Env n) × WorkerPc ScanTask ScanPc}
    (hn : r.1.env.notifier = s.shared.env.notifier) (hd : r.1.env.dbRecorder = s.shared.env.dbRecorder) :
    effort S tree m (s.set (.worker i) r) + sharedEffort S tree s.shared +
        WorkerPc.effort (s.loc (.worker i)) =
      effort S tree m s + sharedEffort S tree r.1 + WorkerPc.effort r.2 := by
  have hw := workerEffort_set s (.worker i) r
  have hloc (c : Client) : (s.set (.worker i) r).loc (.client c) = s.loc (.client c) := by
    rw [Config.set_loc_of_ne _ (by simp)]
  simp only [workerEffortAt] at hw
  simp only [effort, clientsEffort, Config.set_shared, hloc, hn, hd]
  omega

variable (S tree m s) in
theorem effort_client {c : Client} (r : Shared n Client ScanTask (Env n) × ClientPc ScanTask (ClientCode c)) :
    effort S tree m (s.set (.client c) r) + sharedEffort S tree s.shared + clientsEffort m s =
      effort S tree m s + sharedEffort S tree r.1 + clientsEffort m (s.set (.client c) r) := by
  have hw := workerEffort_set s (.client c) r
  simp only [workerEffortAt] at hw
  simp only [effort, Config.set_shared]
  omega

theorem Out.effort_add (out : Out) (path : Str) (entry : Dirent) :
    (out.add path entry).effort ≤ out.effort + 19 := by
  unfold Out.add Out.effort
  split_ifs
  · omega
  · cases entry.dType <;> simp only [List.length_append, List.length_singleton] <;> omega

theorem treeLeft_visit {e : Env n} {t : ScanTask} (ht : t ∈ tree) (hv : t ∉ e.visited) :
    treeLeft S tree { e with visited := e.visited ++ [t] } + 21 * (S.listing t.path).length =
      treeLeft S tree e := by
  unfold treeLeft
  have hmem : t ∈ tree \ e.visited.toFinset := by simp [ht, hv]
  have hsplit : tree \ (e.visited ++ [t]).toFinset = (tree \ e.visited.toFinset).erase t := by
    ext c
    simp only [Finset.mem_sdiff, List.mem_toFinset, List.mem_append, List.mem_singleton,
      Finset.mem_erase]
    tauto
  rw [hsplit, add_comm]
  exact Finset.add_sum_erase _ (fun t => 21 * (S.listing t.path).length) hmem

def BodyCall.effort (k : ScanPc) : BodyCall ScanTask → ℕ
  | .push _ => k.effort + 18
  | .return | .throw => 2
  | _ => k.effort

structure Runs (S : Sys) (tree : Finset ScanTask) (e : Env n) (k : ScanPc)
    (r : BodyCall ScanTask × Env n × ScanPc) : Prop where
  call : r.1 ≠ .throw ∧ r.1 ≠ .pause ∧ r.1 ≠ .unpause
  helpers : r.2.1.notifier = e.notifier ∧ r.2.1.dbRecorder = e.dbRecorder
  less : treeLeft S tree r.2.1 + BodyCall.effort r.2.2 r.1 < treeLeft S tree e + k.effort

variable (S tree) in
theorem doScan_runs (i : Fin n) (t : ScanTask) (e : Env n) (k : ScanPc)
    (hdirs : ∀ out, k = .lockDirs out → e.dirMutex = none)
    (hinfos : ∀ files symbols, k = .lockInfos files symbols → e.fileInfoMutex = none)
    (hfresh : k = .opendir → t ∈ tree ∧ t ∉ e.visited) :
    ∃ r, doScan S i t {} e k = some r ∧ Runs S tree e k r := by
  have hown {e' : Env n} {k' : ScanPc} (hh : e'.notifier = e.notifier ∧ e'.dbRecorder = e.dbRecorder)
      (hv : e'.visited = e.visited) (hk : k'.effort < k.effort) : Runs S tree e k (.own, e', k') :=
    ⟨by simp, hh, by simpa [treeLeft, hv, BodyCall.effort] using hk⟩
  cases k with
  | start =>
    cases hr : e.running with
    | false => exact ⟨_, if_pos hr, by simp, ⟨rfl, rfl⟩, by simp [BodyCall.effort, ScanPc.effort]⟩
    | true =>
      cases hp : validPath t.path with
      | false =>
        refine ⟨_, (if_neg (by simp [hr])).trans (if_pos hp), by simp, ⟨rfl, rfl⟩, ?_⟩
        simp [BodyCall.effort, ScanPc.effort, treeLeft]
      | true =>
        refine ⟨_, (if_neg (by simp [hr])).trans (if_neg (by simp [hp])), hown ⟨rfl, rfl⟩ rfl ?_⟩
        simp [ScanPc.effort]
  | opendir =>
    obtain ⟨hmem, hnew⟩ := hfresh rfl
    have hleft := treeLeft_visit (S := S) hmem hnew
    refine ⟨_, rfl, by simp, ⟨rfl, rfl⟩, ?_⟩
    simp only [BodyCall.effort]
    cases hd : S.readdir t.path with
    | none => simp only [Option.elim_none, ScanPc.effort, Out.effort, List.length_nil]; omega
    | some es =>
      simp only [Sys.listing, hd, Option.getD_some] at hleft
      simp only [Option.elim_some, ScanPc.effort, Out.effort, List.length_nil]
      omega
  | traverse rest out =>
    cases rest with
    | nil => exact ⟨_, rfl, hown ⟨rfl, rfl⟩ rfl (by simp only [ScanPc.effort, List.length_nil]; omega)⟩
    | cons entry rest =>
      refine ⟨_, rfl, hown ⟨rfl, rfl⟩ rfl ?_⟩
      split_ifs <;>
      · simp only [ScanPc.effort, List.length_cons]
        omega
  | collect entry rest out =>
    refine ⟨_, rfl, hown ⟨rfl, rfl⟩ rfl ?_⟩
    have hadd := Out.effort_add out t.path entry
    simp only [ScanPc.effort]
    omega
  | count out => exact ⟨_, rfl, hown ⟨rfl, rfl⟩ rfl (by simp [ScanPc.effort])⟩
  | lockDirs out =>
    refine ⟨_, if_pos (hdirs out rfl), hown ⟨rfl, rfl⟩ rfl ?_⟩
    simp only [ScanPc.effort, Out.effort]
    omega
  | pushDirs dirs files symbols =>
    cases dirs with
    | nil => exact ⟨_, rfl, hown ⟨rfl, rfl⟩ rfl (by simp only [ScanPc.effort, List.length_nil]; omega)⟩
    | cons d dirs =>
      refine ⟨_, rfl, by simp, ⟨rfl, rfl⟩, ?_⟩
      simp only [BodyCall.effort, ScanPc.effort, List.length_cons]
      omega
  | lockInfos files symbols =>
    exact ⟨_, if_pos (hinfos files symbols rfl), hown ⟨rfl, rfl⟩ rfl (by simp [ScanPc.effort])⟩
  | check files symbols =>
    cases files with
    | cons f files => exact ⟨_, rfl, hown ⟨rfl, rfl⟩ rfl (by simp [ScanPc.effort])⟩
    | nil =>
      cases symbols with
      | nil => exact ⟨_, rfl, hown ⟨rfl, rfl⟩ rfl (by simp [ScanPc.effort])⟩
      | cons l symbols => exact ⟨_, rfl, hown ⟨rfl, rfl⟩ rfl (by simp [ScanPc.effort])⟩
  | setTimeEnd => exact ⟨_, rfl, by simp, ⟨rfl, rfl⟩, by simp [BodyCall.effort, ScanPc.effort, treeLeft]⟩

theorem pushTask_runs (me : Thread n Client) (t : ScanTask) (p : Pool n Client ScanTask) (pc : PushPc)
    (hfree : pc = .lock → p.tasksMutex = none) :
    ∃ (x : Choice n Client Answer) (r : _), x.code = {} ∧ pushTask me x t p pc = some r ∧
      13 * r.1.tasks.length + r.2.elim 0 PushPc.effort < 13 * p.tasks.length + PushPc.effort pc := by
  obtain ⟨x, r, hx, hq⟩ := pushTask_goes ({} : Answer) me t p pc hfree
  refine ⟨x, r, hx, hq, ?_⟩
  cases pushTask_move hq with
  | enqueue =>
    simp only [List.length_append, List.length_singleton, Option.elim_some, PushPc.effort]
    omega
  | _ => simp [PushPc.effort]

def WaitPc.locking : WaitPc → Bool
  | .lock | .relock => true
  | _ => false

theorem waitForTasks_runs (me : Client) (p : Pool n Client ScanTask) (pc : WaitPc)
    (hfree : WaitPc.locking pc = true → p.tasksMutex = none) (hdone : p.waitPredicate = true) :
    ∃ (x : Choice n Client Answer) (r : _), x.code = {} ∧ waitForTasks me x p pc = some r ∧
      r.1.tasks = p.tasks ∧ r.2.elim 3 WaitPc.effort < WaitPc.effort pc := by
  cases pc with
  | lock => exact ⟨{ code := {} }, _, rfl, if_pos (hfree rfl), rfl, by simp [WaitPc.effort]⟩
  | relock => exact ⟨{ code := {} }, _, rfl, if_pos (hfree rfl), rfl, by simp [WaitPc.effort]⟩
  | predicate =>
    refine ⟨{ code := {} }, _, rfl, rfl, rfl, ?_⟩
    simp [hdone, WaitPc.effort]
  | blocked =>
    by_cases hme : me ∈ p.taskDoneCv
    · refine ⟨{ code := {}, spurious := true }, _, rfl, (if_neg (not_not.mpr hme)).trans (if_pos rfl),
        rfl, by simp [WaitPc.effort]⟩
    · exact ⟨{ code := {} }, _, rfl, if_pos hme, rfl, by simp [WaitPc.effort]⟩
  | _ => exact ⟨{ code := {} }, _, rfl, rfl, rfl, by simp [WaitPc.effort]⟩

end SysUtils.Scan

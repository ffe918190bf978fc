import Mathlib.Data.BitVec
import SysUtils.Scan.Files
import SysUtils.ThreadPool.Steps

namespace SysUtils.Scan

open ThreadPool

/-- A call `do_scan(path)`; `root` says which of the paths in `unscanned_dirs_` it descends from. -/
structure ScanTask where
  root : ℕ
  path : Str
  deriving DecidableEq, Repr

/-- The threads beside the pool's: the one that owns the scanner, its two helpers, and others that may
call `stop()`. -/
inductive Client where
  | main | recorder | notifier | user (u : ℕ)
  deriving DecidableEq, Repr

/-- A `Thread<scan_private>`: not started or joined, started, or returned and not yet joined. -/
inductive Life where
  | notJoinable | running | finished
  deriving DecidableEq, Repr

/-- The members of `scan_private`. The last six fields are history that no step reads: the calls of
`do_scan` that traversed their directory and those that `valid_path` turned away, the arguments of
`file_checker` and of `symbol_reloader`, what was ever appended to `file_infos_`, and what the recorder
has drained. -/
structure Env (n : ℕ) where
  running : Bool := false
  dirMutex : Option (Fin n) := none
  unscannedDirs : List Str := []
  fileInfoMutex : Option (Thread n Client) := none
  fileInfos : List FileInfo := []
  dbRecorder : Life := .notJoinable
  notifier : Life := .notJoinable
  fileCounts : BitVec 32 := 0
  timeStart : BitVec 32 := 0
  timeEnd : BitVec 32 := 0
  visited : List ScanTask := []
  skipped : List ScanTask := []
  checked : List ScanTask := []
  reloaded : List ScanTask := []
  appended : List FileInfo := []
  drained : List FileInfo := []

/-- What the system settles in one step: the clock, what the stack holds where a header is read, and
whether the code of a task throws. -/
structure Answer where
  now : ℤ := 0
  stale : ℕ → UInt8 := fun _ => 0
  throws : Bool := false

inductive ScanPc where
  | start
  | opendir
  | traverse (rest : List Dirent) (out : Out)
  | collect (entry : Dirent) (rest : List Dirent) (out : Out)
  | count (out : Out)
  | lockDirs (out : Out)
  | pushDirs (dirs files symbols : List Str)
  | lockInfos (files symbols : List Str)
  | check (files symbols : List Str)
  | setTimeEnd
  deriving DecidableEq

def ScanPc.collected : ScanPc → Out
  | .traverse _ out | .collect _ _ out | .count out | .lockDirs out => out
  | .pushDirs dirs files symbols => ⟨dirs, files, symbols⟩
  | .lockInfos files symbols | .check files symbols => ⟨[], files, symbols⟩
  | .start | .opendir | .setTimeEnd => {}

/-- What a call of `do_scan(path)` handles even if `running_` is cleared now. -/
def ScanPc.toHandle (path : Str) : ScanPc → Out
  | .collect entry _ out => out.add path entry
  | k => k.collected

def ScanPc.unread : ScanPc → List Dirent
  | .traverse rest _ => rest
  | .collect entry rest _ => entry :: rest
  | _ => []

variable {n : ℕ}

def Env.unwind (i : Fin n) (e : Env n) : Env n :=
  { e with
    dirMutex := if e.dirMutex = some i then none else e.dirMutex
    fileInfoMutex := if e.fileInfoMutex = some (.worker i) then none else e.fileInfoMutex }

def Env.append (e : Env n) (r : Option FileInfo) : Env n :=
  { e with fileInfos := e.fileInfos ++ r.toList, appended := e.appended ++ r.toList }

def doScan (S : Sys) (i : Fin n) (t : ScanTask) (x : Answer) (e : Env n) :
    ScanPc → Option (BodyCall ScanTask × Env n × ScanPc)
  | .start =>
      if e.running = false then some (.return, e, .start)
      else if validPath t.path = false then
        some (.return, { e with skipped := e.skipped ++ [t] }, .start)
      else some (.own, e, .opendir)
  | .opendir =>
      -- a call that has passed its test of `running_` goes on even if it has been cleared since
      some (.own, { e with visited := e.visited ++ [t] },
        (S.readdir t.path).elim (.count {}) fun es => .traverse es {})
  | .traverse [] out => some (.own, e, .count out)
  | .traverse (entry :: rest) out =>
      some (.own, e, if e.running then .collect entry rest out else .count out)
  | .collect entry rest out => some (.own, e, .traverse rest (out.add t.path entry))
  | .count out =>
      some (.own, { e with fileCounts := e.fileCounts + BitVec.ofNat 32 out.size }, .lockDirs out)
  | .lockDirs out =>
      if e.dirMutex = none then
        some (.own, { e with dirMutex := some i }, .pushDirs out.dirs out.files out.symbols)
      else none
  | .pushDirs (d :: dirs) files symbols => some (.push ⟨t.root, d⟩, e, .pushDirs dirs files symbols)
  | .pushDirs [] files symbols => some (.own, { e with dirMutex := none }, .lockInfos files symbols)
  | .lockInfos files symbols =>
      if e.fileInfoMutex = none then
        some (.own, { e with fileInfoMutex := some (.worker i) }, .check files symbols)
      else none
  | .check (f :: files) symbols =>
      some (.own, { e.append (fileChecker S x.stale f) with checked := e.checked ++ [⟨t.root, f⟩] },
        .check files symbols)
  | .check [] (l :: symbols) =>
      some (.own,
        { e.append (symbolReloader S x.stale l) with reloaded := e.reloaded ++ [⟨t.root, l⟩] },
        .check [] symbols)
  | .check [] [] => some (.own, { e with fileInfoMutex := none }, .setTimeEnd)
  | .setTimeEnd => some (.return, { e with timeEnd := BitVec.ofInt 32 x.now }, .setTimeEnd)

/-- Positions of the thread that owns the scanner. It makes rounds of `add_path`, `launch()` and
`wait()`, of which `rest` are to come, and then destroys the scanner; `none` stands for the `wait()` of
the destructor. -/
inductive MainPc where
  | addPaths (paths : List Str) (rest : List (List Str))
  | setRunning (rest : List (List Str))
  | setFileCounts (rest : List (List Str))
  | setTimeStart (rest : List (List Str))
  | pushRoots (k : ℕ) (rest : List (List Str))
  | startRecorder (rest : List (List Str))
  | startNotifier (rest : List (List Str))
  | joinNotifier (rest : Option (List (List Str)))
  | joinRecorder (rest : Option (List (List Str)))
  | destroy
  deriving DecidableEq, Repr

def nextRound : List (List Str) → MainPc
  | [] => .joinNotifier none
  | paths :: rest => .addPaths paths rest

def main (x : Answer) (e : Env n) : MainPc → Option (Call ScanTask × Env n × MainPc)
  | .addPaths (p :: paths) rest =>
      some (.own, { e with unscannedDirs := e.unscannedDirs ++ [p] }, .addPaths paths rest)
  | .addPaths [] rest => some (.own, e, .setRunning rest)
  | .setRunning rest => some (.own, { e with running := true }, .setFileCounts rest)
  | .setFileCounts rest =>
      some (.own, { e with fileCounts := BitVec.ofNat 32 e.unscannedDirs.length }, .setTimeStart rest)
  | .setTimeStart rest =>
      some (.own, { e with timeStart := BitVec.ofInt 32 x.now }, .pushRoots 0 rest)
  | .pushRoots k rest =>
      match e.unscannedDirs[k]? with
      | some dir => some (.push ⟨k, dir⟩, e, .pushRoots (k + 1) rest)
      | none => some (.own, e, .startRecorder rest)
  -- assigning to a std::thread that is still joinable would terminate the program
  | .startRecorder rest =>
      if e.dbRecorder = .notJoinable then
        some (.own, { e with dbRecorder := .running }, .startNotifier rest)
      else none
  | .startNotifier rest =>
      if e.notifier = .notJoinable then
        some (.own, { e with notifier := .running }, .joinNotifier (some rest))
      else none
  | .joinNotifier rest =>
      if e.notifier = .running then none
      else some (.own, { e with notifier := .notJoinable }, .joinRecorder rest)
  | .joinRecorder rest =>
      if e.dbRecorder = .running then none
      else some (.own, { e with dbRecorder := .notJoinable }, rest.elim .destroy nextRound)
  | .destroy => some (.destroy, e, .destroy)

inductive RecorderPc where
  | idle | whileRunning | ifEmpty | sleep | lock | swap | unlock | clear
  deriving DecidableEq, Repr

structure Recorder where
  pc : RecorderPc
  localFileInfos : List FileInfo

def writeToDb (e : Env n) (l : Recorder) : Option (Call ScanTask × Env n × Recorder) :=
  match l.pc with
  | .idle => if e.dbRecorder = .running then some (.own, e, ⟨.whileRunning, []⟩) else none
  | .whileRunning => some (.own, e, { l with pc := if e.running then .sleep else .ifEmpty })
  | .ifEmpty =>
      if e.fileInfos = [] then some (.own, { e with dbRecorder := .finished }, ⟨.idle, []⟩)
      else some (.own, e, { l with pc := .sleep })
  | .sleep => some (.own, e, { l with pc := .lock })
  | .lock =>
      if e.fileInfoMutex = none then
        some (.own, { e with fileInfoMutex := some (.client .recorder) }, { l with pc := .swap })
      else none
  | .swap => some (.own, { e with fileInfos := l.localFileInfos }, ⟨.unlock, e.fileInfos⟩)
  | .unlock => some (.own, { e with fileInfoMutex := none }, { l with pc := .clear })
  | .clear => some (.own, { e with drained := e.drained ++ l.localFileInfos }, ⟨.whileRunning, []⟩)

inductive NotifierPc where
  | idle | whileNotOver | sleep | stopRunning | stopPause | scanOver
  deriving DecidableEq, Repr

def isScanOver (tasksCount : ℕ) : Bool := tasksCount == 0

def statusNotifier (tasksCount : ℕ) (e : Env n) :
    NotifierPc → Option (Call ScanTask × Env n × NotifierPc)
  | .idle => if e.notifier = .running then some (.own, e, .whileNotOver) else none
  | .whileNotOver => some (.own, e, if isScanOver tasksCount then .stopRunning else .sleep)
  | .sleep => some (.own, e, .whileNotOver)
  | .stopRunning => some (.own, { e with running := false }, .stopPause)
  | .stopPause => some (.pause, e, .scanOver)
  | .scanOver => some (.own, { e with notifier := .finished }, .idle)

inductive UserPc where
  | stopRunning | stopPause
  deriving DecidableEq, Repr

def stop (e : Env n) : UserPc → Option (Call ScanTask × Env n × UserPc)
  | .stopRunning => some (.own, { e with running := false }, .stopPause)
  | .stopPause => some (.pause, e, .stopRunning)

abbrev ClientCode : Client → Type
  | .main => MainPc
  | .recorder => Recorder
  | .notifier => NotifierPc
  | .user _ => UserPc

def program (n : ℕ) (S : Sys) (rounds : List (List Str)) :
    Program n Client ScanTask ScanPc (Env n) Answer ClientCode where
  env := {}
  start
  | .main => nextRound rounds
  | .recorder => ⟨.idle, []⟩
  | .notifier => .idle
  | .user _ => .stopRunning
  enter _ := .start
  body i t x _ _ e k := if x.throws then some (.throw, e.unwind i, k) else doScan S i t x e k
  client
  | .main => fun x _ _ e k => main x e k
  | .recorder => fun _ _ _ e k => writeToDb e k
  | .notifier => fun _ tasksCount _ e k => statusNotifier tasksCount e k
  | .user _ => fun _ _ _ e k => stop e k

abbrev ScanState (n : ℕ) := State n ScanTask ScanPc (Env n) ClientCode

end SysUtils.Scan

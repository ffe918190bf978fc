import SysUtils.Scan.Program
import SysUtils.ThreadPool.Idle

namespace SysUtils.Scan

open Interleaving ThreadPool

variable {n : ℕ}

/-! Everything a step of the scan can do, once for each function of `scan_private`. -/

inductive ScanMove (S : Sys) (i : Fin n) (x : Answer) (v : Seen ScanTask (Env n)) :
    Option (Job ScanTask ScanPc) → Seen ScanTask (Env n) × Option (Job ScanTask ScanPc) → Prop where
  | skip (j : Option (Job ScanTask ScanPc)) : ScanMove S i x v j (v, j)
  | begin (t : ScanTask) (ts : List ScanTask) (ht : v.tasks = t :: ts) :
      ScanMove S i x v none ({ v with tasks := ts }, some ⟨t, .start, none⟩)
  | enqueue (t t' : ScanTask) (k : ScanPc) : ScanMove S i x v (some ⟨t, k, some t'⟩)
      ({ v with tasks := v.tasks ++ [t'], pushed := v.pushed ++ [t'] }, some ⟨t, k, none⟩)
  | throw (t : ScanTask) (k : ScanPc) (hx : x.throws = true) :
      ScanMove S i x v (some ⟨t, k, none⟩) ({ v with env := v.env.unwind i }, none)
  | notRunning (t : ScanTask) (hr : v.env.running = false) :
      ScanMove S i x v (some ⟨t, .start, none⟩) (v, none)
  | notValid (t : ScanTask) (hp : validPath t.path = false) :
      ScanMove S i x v (some ⟨t, .start, none⟩)
        ({ v with env := { v.env with skipped := v.env.skipped ++ [t] } }, none)
  | valid (t : ScanTask) (hr : v.env.running = true) (hp : validPath t.path = true) :
      ScanMove S i x v (some ⟨t, .start, none⟩) (v, some ⟨t, .opendir, none⟩)
  | opendir (t : ScanTask) :
      ScanMove S i x v (some ⟨t, .opendir, none⟩)
        ({ v with env := { v.env with visited := v.env.visited ++ [t] } },
          some ⟨t, (S.readdir t.path).elim (.count {}) fun es => .traverse es {}, none⟩)
  | traversed (t : ScanTask) (out : Out) :
      ScanMove S i x v (some ⟨t, .traverse [] out, none⟩) (v, some ⟨t, .count out, none⟩)
  | break (t : ScanTask) (entry : Dirent) (rest : List Dirent) (out : Out)
      (hr : v.env.running = false) :
      ScanMove S i x v (some ⟨t, .traverse (entry :: rest) out, none⟩) (v, some ⟨t, .count out, none⟩)
  | readdir (t : ScanTask) (entry : Dirent) (rest : List Dirent) (out : Out)
      (hr : v.env.running = true) :
      ScanMove S i x v (some ⟨t, .traverse (entry :: rest) out, none⟩)
        (v, some ⟨t, .collect entry rest out, none⟩)
  | collect (t : ScanTask) (entry : Dirent) (rest : List Dirent) (out : Out) :
      ScanMove S i x v (some ⟨t, .collect entry rest out, none⟩)
        (v, some ⟨t, .traverse rest (out.add t.path entry), none⟩)
  | count (t : ScanTask) (out : Out) :
      ScanMove S i x v (some ⟨t, .count out, none⟩)
        ({ v with env := { v.env with fileCounts := v.env.fileCounts + BitVec.ofNat 32 out.size } },
          some ⟨t, .lockDirs out, none⟩)
  | lockDirs (t : ScanTask) (out : Out) :
      ScanMove S i x v (some ⟨t, .lockDirs out, none⟩)
        ({ v with env := { v.env with dirMutex := some i } },
          some ⟨t, .pushDirs out.dirs out.files out.symbols, none⟩)
  | pushDir (t : ScanTask) (d : Str) (dirs files symbols : List Str) :
      ScanMove S i x v (some ⟨t, .pushDirs (d :: dirs) files symbols, none⟩)
        (v, some ⟨t, .pushDirs dirs files symbols, some ⟨t.root, d⟩⟩)
  | unlockDirs (t : ScanTask) (files symbols : List Str) :
      ScanMove S i x v (some ⟨t, .pushDirs [] files symbols, none⟩)
        ({ v with env := { v.env with dirMutex := none } }, some ⟨t, .lockInfos files symbols, none⟩)
  | lockInfos (t : ScanTask) (files symbols : List Str) :
      ScanMove S i x v (some ⟨t, .lockInfos files symbols, none⟩)
        ({ v with env := { v.env with fileInfoMutex := some (.worker i) } },
          some ⟨t, .check files symbols, none⟩)
  | checkFile (t : ScanTask) (f : Str) (files symbols : List Str) :
      ScanMove S i x v (some ⟨t, .check (f :: files) symbols, none⟩)
        ({ v with env := { v.env.append (fileChecker S x.stale f) with
            checked := v.env.checked ++ [⟨t.root, f⟩] } }, some ⟨t, .check files symbols, none⟩)
  | reloadSymbol (t : ScanTask) (l : Str) (symbols : List Str) :
      ScanMove S i x v (some ⟨t, .check [] (l :: symbols), none⟩)
        ({ v with env := { v.env.append (symbolReloader S x.stale l) with
            reloaded := v.env.reloaded ++ [⟨t.root, l⟩] } }, some ⟨t, .check [] symbols, none⟩)
  | unlockInfos (t : ScanTask) :
      ScanMove S i x v (some ⟨t, .check [] [], none⟩)
        ({ v with env := { v.env with fileInfoMutex := none } }, some ⟨t, .setTimeEnd, none⟩)
  | setTimeEnd (t : ScanTask) :
      ScanMove S i x v (some ⟨t, .setTimeEnd, none⟩)
        ({ v with env := { v.env with timeEnd := BitVec.ofInt 32 x.now } }, none)

inductive MainMove (x : Answer) (v : Seen ScanTask (Env n)) : Option (Session ScanTask MainPc) →
    Seen ScanTask (Env n) × Option (Session ScanTask MainPc) → Prop where
  | skip (l : Option (Session ScanTask MainPc)) : MainMove x v l (v, l)
  | enqueue (t : ScanTask) (k : MainPc) : MainMove x v (some ⟨k, some t⟩)
      ({ v with tasks := v.tasks ++ [t], pushed := v.pushed ++ [t] }, some ⟨k, none⟩)
  | addPath (p : Str) (paths : List Str) (rest : List (List Str)) :
      MainMove x v (some ⟨.addPaths (p :: paths) rest, none⟩)
        ({ v with env := { v.env with unscannedDirs := v.env.unscannedDirs ++ [p] } },
          some ⟨.addPaths paths rest, none⟩)
  | launch (rest : List (List Str)) :
      MainMove x v (some ⟨.addPaths [] rest, none⟩) (v, some ⟨.setRunning rest, none⟩)
  | setRunning (rest : List (List Str)) :
      MainMove x v (some ⟨.setRunning rest, none⟩)
        ({ v with env := { v.env with running := true } }, some ⟨.setFileCounts rest, none⟩)
  | setFileCounts (rest : List (List Str)) :
      MainMove x v (some ⟨.setFileCounts rest, none⟩)
        ({ v with env := { v.env with
            fileCounts := BitVec.ofNat 32 v.env.unscannedDirs.length } },
          some ⟨.setTimeStart rest, none⟩)
  | setTimeStart (rest : List (List Str)) :
      MainMove x v (some ⟨.setTimeStart rest, none⟩)
        ({ v with env := { v.env with timeStart := BitVec.ofInt 32 x.now } },
          some ⟨.pushRoots 0 rest, none⟩)
  | pushRoot (k : ℕ) (dir : Str) (rest : List (List Str)) (hd : v.env.unscannedDirs[k]? = some dir) :
      MainMove x v (some ⟨.pushRoots k rest, none⟩) (v, some ⟨.pushRoots (k + 1) rest, some ⟨k, dir⟩⟩)
  | rootsPushed (k : ℕ) (rest : List (List Str)) (hd : v.env.unscannedDirs[k]? = none) :
      MainMove x v (some ⟨.pushRoots k rest, none⟩) (v, some ⟨.startRecorder rest, none⟩)
  | startRecorder (rest : List (List Str)) :
      MainMove x v (some ⟨.startRecorder rest, none⟩)
        ({ v with env := { v.env with dbRecorder := .running } }, some ⟨.startNotifier rest, none⟩)
  | startNotifier (rest : List (List Str)) :
      MainMove x v (some ⟨.startNotifier rest, none⟩)
        ({ v with env := { v.env with notifier := .running } }, some ⟨.joinNotifier (some rest), none⟩)
  | joinNotifier (rest : Option (List (List Str))) (hl : v.env.notifier ≠ .running) :
      MainMove x v (some ⟨.joinNotifier rest, none⟩)
        ({ v with env := { v.env with notifier := .notJoinable } }, some ⟨.joinRecorder rest, none⟩)
  | joinRecorder (rest : Option (List (List Str))) (hl : v.env.dbRecorder ≠ .running) :
      MainMove x v (some ⟨.joinRecorder rest, none⟩)
        ({ v with env := { v.env with dbRecorder := .notJoinable } },
          some ⟨rest.elim .destroy nextRound, none⟩)
  | destroy : MainMove x v (some ⟨.destroy, none⟩) (v, none)

inductive RecorderMove (v : Seen ScanTask (Env n)) : Option (Session ScanTask Recorder) →
    Seen ScanTask (Env n) × Option (Session ScanTask Recorder) → Prop where
  | skip (l : Option (Session ScanTask Recorder)) : RecorderMove v l (v, l)
  | begin (infos : List FileInfo) (hl : v.env.dbRecorder = .running) :
      RecorderMove v (some ⟨⟨.idle, infos⟩, none⟩) (v, some ⟨⟨.whileRunning, []⟩, none⟩)
  | running (infos : List FileInfo) :
      RecorderMove v (some ⟨⟨.whileRunning, infos⟩, none⟩) (v, some ⟨⟨.sleep, infos⟩, none⟩)
  | notRunning (infos : List FileInfo) (hr : v.env.running = false) :
      RecorderMove v (some ⟨⟨.whileRunning, infos⟩, none⟩) (v, some ⟨⟨.ifEmpty, infos⟩, none⟩)
  | return (infos : List FileInfo) (he : v.env.fileInfos = []) :
      RecorderMove v (some ⟨⟨.ifEmpty, infos⟩, none⟩)
        ({ v with env := { v.env with dbRecorder := .finished } }, some ⟨⟨.idle, []⟩, none⟩)
  | notEmpty (infos : List FileInfo) :
      RecorderMove v (some ⟨⟨.ifEmpty, infos⟩, none⟩) (v, some ⟨⟨.sleep, infos⟩, none⟩)
  | sleep (infos : List FileInfo) :
      RecorderMove v (some ⟨⟨.sleep, infos⟩, none⟩) (v, some ⟨⟨.lock, infos⟩, none⟩)
  | lock (infos : List FileInfo) :
      RecorderMove v (some ⟨⟨.lock, infos⟩, none⟩)
        ({ v with env := { v.env with fileInfoMutex := some (.client .recorder) } },
          some ⟨⟨.swap, infos⟩, none⟩)
  | swap (infos : List FileInfo) :
      RecorderMove v (some ⟨⟨.swap, infos⟩, none⟩)
        ({ v with env := { v.env with fileInfos := infos } }, some ⟨⟨.unlock, v.env.fileInfos⟩, none⟩)
  | unlock (infos : List FileInfo) :
      RecorderMove v (some ⟨⟨.unlock, infos⟩, none⟩)
        ({ v with env := { v.env with fileInfoMutex := none } }, some ⟨⟨.clear, infos⟩, none⟩)
  | clear (infos : List FileInfo) :
      RecorderMove v (some ⟨⟨.clear, infos⟩, none⟩)
        ({ v with env := { v.env with drained := v.env.drained ++ infos } },
          some ⟨⟨.whileRunning, []⟩, none⟩)

inductive NotifierMove (count : ℕ) (v : Seen ScanTask (Env n)) :
    Option (Session ScanTask NotifierPc) →
      Seen ScanTask (Env n) × Option (Session ScanTask NotifierPc) → Prop where
  | skip (l : Option (Session ScanTask NotifierPc)) : NotifierMove count v l (v, l)
  | begin (hl : v.env.notifier = .running) :
      NotifierMove count v (some ⟨.idle, none⟩) (v, some ⟨.whileNotOver, none⟩)
  | scanOver (h0 : count = 0) :
      NotifierMove count v (some ⟨.whileNotOver, none⟩) (v, some ⟨.stopRunning, none⟩)
  | notOver : NotifierMove count v (some ⟨.whileNotOver, none⟩) (v, some ⟨.sleep, none⟩)
  | sleep : NotifierMove count v (some ⟨.sleep, none⟩) (v, some ⟨.whileNotOver, none⟩)
  | stopRunning : NotifierMove count v (some ⟨.stopRunning, none⟩)
      ({ v with env := { v.env with running := false } }, some ⟨.stopPause, none⟩)
  | stopPause : NotifierMove count v (some ⟨.stopPause, none⟩)
      ({ v with paused := true }, some ⟨.scanOver, none⟩)
  | return : NotifierMove count v (some ⟨.scanOver, none⟩)
      ({ v with env := { v.env with notifier := .finished } }, some ⟨.idle, none⟩)

inductive UserMove (v : Seen ScanTask (Env n)) : Option (Session ScanTask UserPc) →
    Seen ScanTask (Env n) × Option (Session ScanTask UserPc) → Prop where
  | skip (l : Option (Session ScanTask UserPc)) : UserMove v l (v, l)
  | stopRunning : UserMove v (some ⟨.stopRunning, none⟩)
      ({ v with env := { v.env with running := false } }, some ⟨.stopPause, none⟩)
  | stopPause : UserMove v (some ⟨.stopPause, none⟩) ({ v with paused := true }, some ⟨.stopRunning, none⟩)

abbrev ScanView (n : ℕ) := View n ScanTask ScanPc (Env n) ClientCode

abbrev ScanRole (n : ℕ) : Thread n Client → Type := Role n ScanTask ScanPc ClientCode

def Move (S : Sys) (x : Answer) (count : ℕ) (v : Seen ScanTask (Env n)) :
    ∀ i : Thread n Client, ScanRole n i → Seen ScanTask (Env n) × ScanRole n i → Prop
  | .worker i => ScanMove S i x v
  | .client .main => MainMove x v
  | .client .recorder => RecorderMove v
  | .client .notifier => NotifierMove count v
  | .client (.user _) => UserMove v

def scanView (s : ScanState n) : ScanView n := view (fun _ => .start) s

end SysUtils.Scan

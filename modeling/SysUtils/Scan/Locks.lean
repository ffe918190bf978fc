import SysUtils.Scan.Inversion

namespace SysUtils.Scan

open Interleaving ThreadPool

variable {n : ℕ} {S : Sys} {rounds : List (List Str)}

/-! The two mutexes of `scan_private`, beside the one of its pool. -/

def ScanPc.inDirs : ScanPc → Bool
  | .pushDirs _ _ _ => true
  | _ => false

def ScanPc.inInfos : ScanPc → Bool
  | .check _ _ => true
  | _ => false

def RecorderPc.inInfos : RecorderPc → Bool
  | .swap | .unlock => true
  | _ => false

def workerIn (p : ScanPc → Bool) : WorkerPc ScanTask ScanPc → Bool
  | .body _ k | .push _ k _ _ => p k
  | _ => false

def recorderIn : ClientPc ScanTask Recorder → Bool
  | .code k | .push _ _ k | .wait _ k => k.pc.inInfos
  | _ => false

def holdsDirs : ∀ i : Thread n Client, Loc n ScanTask ScanPc ClientCode i → Bool
  | .worker _ => workerIn ScanPc.inDirs
  | .client _ => fun _ => false

def holdsInfos : ∀ i : Thread n Client, Loc n ScanTask ScanPc ClientCode i → Bool
  | .worker _ => workerIn ScanPc.inInfos
  | .client .recorder => recorderIn
  | .client _ => fun _ => false

def dirOwner (s : Shared n Client ScanTask (Env n)) : Option (Thread n Client) :=
  s.env.dirMutex.map Thread.worker

def infoOwner (s : Shared n Client ScanTask (Env n)) : Option (Thread n Client) := s.env.fileInfoMutex

def afterCall (p : ScanPc → Bool) (k : ScanPc) : BodyCall ScanTask → Bool
  | .return | .throw => false
  | _ => p k

theorem doScan_locks {i : Fin n} {t : ScanTask} {x : Answer} {k k' : ScanPc} {e e' : Env n}
    {o : BodyCall ScanTask} (h : doScan S i t x e k = some (o, e', k')) :
    LockStep i e.dirMutex e'.dirMutex k.inDirs (afterCall ScanPc.inDirs k' o) ∧
      LockStep (.worker i) e.fileInfoMutex e'.fileInfoMutex k.inInfos (afterCall ScanPc.inInfos k' o) := by
  have hkeep {e' : Env n} {k' : ScanPc} (hd : e'.dirMutex = e.dirMutex)
      (hi : e'.fileInfoMutex = e.fileInfoMutex) (hk : k'.inDirs = k.inDirs ∧ k'.inInfos = k.inInfos) :
      LockStep i e.dirMutex e'.dirMutex k.inDirs k'.inDirs ∧
        LockStep (.worker i) e.fileInfoMutex e'.fileInfoMutex k.inInfos k'.inInfos :=
    ⟨.same hd hk.1, .same hi hk.2⟩
  cases k with
  | start =>
    simp only [doScan] at h
    split_ifs at h with hr hp
    · cases h
      exact ⟨.same rfl rfl, .same rfl rfl⟩
    · cases h
      exact ⟨.same rfl rfl, .same rfl rfl⟩
    · cases h
      exact hkeep rfl rfl ⟨rfl, rfl⟩
  | opendir =>
    cases h
    apply hkeep rfl rfl
    cases S.readdir t.path <;> exact ⟨rfl, rfl⟩
  | traverse rest out =>
    cases rest with
    | nil => cases h; exact hkeep rfl rfl ⟨rfl, rfl⟩
    | cons entry rest =>
      cases h
      apply hkeep rfl rfl
      cases e.running <;> exact ⟨rfl, rfl⟩
  | collect entry rest out => cases h; exact hkeep rfl rfl ⟨rfl, rfl⟩
  | count out => cases h; exact hkeep rfl rfl ⟨rfl, rfl⟩
  | lockDirs out =>
    simp only [doScan, Option.ite_none_right_eq_some] at h
    obtain ⟨hfree, h⟩ := h
    cases h
    exact ⟨.inr (.inl ⟨hfree, rfl, rfl, rfl⟩), .same rfl rfl⟩
  | pushDirs dirs files symbols =>
    cases dirs with
    | nil => cases h; exact ⟨.inr (.inr ⟨rfl, rfl, rfl⟩), .same rfl rfl⟩
    | cons d dirs => cases h; exact hkeep rfl rfl ⟨rfl, rfl⟩
  | lockInfos files symbols =>
    simp only [doScan, Option.ite_none_right_eq_some] at h
    obtain ⟨hfree, h⟩ := h
    cases h
    exact ⟨.same rfl rfl, .inr (.inl ⟨hfree, rfl, rfl, rfl⟩)⟩
  | check files symbols =>
    cases files with
    | cons f files => cases h; exact hkeep rfl rfl ⟨rfl, rfl⟩
    | nil =>
      cases symbols with
      | nil => cases h; exact ⟨.same rfl rfl, .inr (.inr ⟨rfl, rfl, rfl⟩)⟩
      | cons l symbols => cases h; exact hkeep rfl rfl ⟨rfl, rfl⟩
  | setTimeEnd => cases h; exact ⟨.same rfl rfl, .same rfl rfl⟩

theorem unwind_locks {i : Fin n} {k : ScanPc} {e : Env n} (hd : e.dirMutex = some i ↔ k.inDirs = true)
    (hi : e.fileInfoMutex = some (.worker i) ↔ k.inInfos = true) :
    LockStep i e.dirMutex (e.unwind i).dirMutex k.inDirs false ∧
      LockStep (.worker i) e.fileInfoMutex (e.unwind i).fileInfoMutex k.inInfos false := by
  constructor
  · cases hk : k.inDirs with
    | false => exact .inl ⟨by simp [Env.unwind, hd, hk], rfl⟩
    | true => exact .inr (.inr ⟨by simp [Env.unwind, hd.mpr hk], rfl, rfl⟩)
  · cases hk : k.inInfos with
    | false => exact .inl ⟨by simp [Env.unwind, hi, hk], rfl⟩
    | true => exact .inr (.inr ⟨by simp [Env.unwind, hi.mpr hk], rfl, rfl⟩)

theorem body_locks {i : Fin n} {t : ScanTask} {x : Answer} {count : ℕ} {paused : Bool} {k k' : ScanPc}
    {e e' : Env n} {o : BodyCall ScanTask} (hd : e.dirMutex = some i ↔ k.inDirs = true)
    (hi : e.fileInfoMutex = some (.worker i) ↔ k.inInfos = true)
    (h : (program n S rounds).body i t x count paused e k = some (o, e', k')) :
    LockStep i e.dirMutex e'.dirMutex k.inDirs (afterCall ScanPc.inDirs k' o) ∧
      LockStep (.worker i) e.fileInfoMutex e'.fileInfoMutex k.inInfos (afterCall ScanPc.inInfos k' o) := by
  simp only [program] at h
  split_ifs at h
  · cases h
    exact unwind_locks hd hi
  · exact doScan_locks h

variable {s : Shared n Client ScanTask (Env n)}

theorem WorkerMove.scanLocks {i : Fin n} {x : Choice n Client Answer} {l : WorkerPc ScanTask ScanPc}
    {r : Shared n Client ScanTask (Env n) × WorkerPc ScanTask ScanPc}
    (hd : s.env.dirMutex = some i ↔ workerIn ScanPc.inDirs l = true)
    (hi : s.env.fileInfoMutex = some (.worker i) ↔ workerIn ScanPc.inInfos l = true)
    (h : WorkerMove (program n S rounds) i x s l r) :
    LockStep i s.env.dirMutex r.1.env.dirMutex (workerIn ScanPc.inDirs l) (workerIn ScanPc.inDirs r.2) ∧
      LockStep (.worker i) s.env.fileInfoMutex r.1.env.fileInfoMutex (workerIn ScanPc.inInfos l)
        (workerIn ScanPc.inInfos r.2) := by
  cases h with
  | bodyOwn t k k' e hb => exact body_locks hd hi hb
  | bodyPush t t' k k' e hb => exact body_locks hd hi hb
  | bodyPause t k k' e hb => exact body_locks hd hi hb
  | bodyUnpause t k k' e hb => exact body_locks hd hi hb
  | bodyEnd t k k' e o ho hb =>
    rcases ho with rfl | rfl
    · exact body_locks hd hi hb
    · exact body_locks hd hi hb
  | relock timedOut hfree => cases timedOut <;> exact ⟨.same rfl rfl, .same rfl rfl⟩
  | _ => exact ⟨.same rfl rfl, .same rfl rfl⟩

theorem writeToDb_locks {l l' : Recorder} {e e' : Env n} {o : Call ScanTask}
    (h : writeToDb e l = some (o, e', l')) :
    e'.dirMutex = e.dirMutex ∧ LockStep (Thread.client .recorder : Thread n Client) e.fileInfoMutex
      e'.fileInfoMutex l.pc.inInfos l'.pc.inInfos := by
  obtain ⟨pc, infos⟩ := l
  cases pc with
  | idle =>
    simp only [writeToDb, Option.ite_none_right_eq_some] at h
    cases h.2
    exact ⟨rfl, .same rfl rfl⟩
  | whileRunning =>
    cases h
    refine ⟨rfl, .same rfl ?_⟩
    cases e.running <;> rfl
  | ifEmpty =>
    simp only [writeToDb] at h
    split_ifs at h
    · cases h
      exact ⟨rfl, .same rfl rfl⟩
    · cases h
      exact ⟨rfl, .same rfl rfl⟩
  | sleep => cases h; exact ⟨rfl, .same rfl rfl⟩
  | lock =>
    simp only [writeToDb, Option.ite_none_right_eq_some] at h
    obtain ⟨hfree, h⟩ := h
    cases h
    exact ⟨rfl, .inr (.inl ⟨hfree, rfl, rfl, rfl⟩)⟩
  | swap => cases h; exact ⟨rfl, .same rfl rfl⟩
  | unlock => cases h; exact ⟨rfl, .inr (.inr ⟨rfl, rfl, rfl⟩)⟩
  | clear => cases h; exact ⟨rfl, .same rfl rfl⟩

theorem client_locks {c : Client} {x : Answer} {count : ℕ} {paused : Bool} {e e' : Env n}
    {k k' : ClientCode c} {o : Call ScanTask} (hc : c ≠ .recorder)
    (h : (program n S rounds).client c x count paused e k = some (o, e', k')) :
    e'.dirMutex = e.dirMutex ∧ e'.fileInfoMutex = e.fileInfoMutex := by
  cases c with
  | main =>
    change main x e k = _ at h
    cases k with
    | addPaths paths rest => cases paths <;> cases h <;> exact ⟨rfl, rfl⟩
    | pushRoots j rest =>
      simp only [main] at h
      split at h <;> cases h <;> exact ⟨rfl, rfl⟩
    | startRecorder rest =>
      simp only [main, Option.ite_none_right_eq_some] at h
      cases h.2
      exact ⟨rfl, rfl⟩
    | startNotifier rest =>
      simp only [main, Option.ite_none_right_eq_some] at h
      cases h.2
      exact ⟨rfl, rfl⟩
    | joinNotifier rest =>
      simp only [main, Option.ite_none_left_eq_some] at h
      cases h.2
      exact ⟨rfl, rfl⟩
    | joinRecorder rest =>
      simp only [main, Option.ite_none_left_eq_some] at h
      cases h.2
      exact ⟨rfl, rfl⟩
    | _ => cases h; exact ⟨rfl, rfl⟩
  | recorder => exact absurd rfl hc
  | notifier =>
    change statusNotifier count e k = _ at h
    cases k with
    | idle =>
      simp only [statusNotifier, Option.ite_none_right_eq_some] at h
      cases h.2
      exact ⟨rfl, rfl⟩
    | _ => cases h; exact ⟨rfl, rfl⟩
  | user u =>
    change stop e k = _ at h
    cases k <;> cases h <;> exact ⟨rfl, rfl⟩

theorem ClientMove.scanLocks {c : Client} {x : Choice n Client Answer}
    {l : ClientPc ScanTask (ClientCode c)}
    {r : Shared n Client ScanTask (Env n) × ClientPc ScanTask (ClientCode c)}
    (h : ClientMove (program n S rounds) c x s l r) : r.1.env.dirMutex = s.env.dirMutex ∧
      LockStep (.client c) s.env.fileInfoMutex r.1.env.fileInfoMutex (holdsInfos (n := n) (.client c) l)
        (holdsInfos (n := n) (.client c) r.2) := by
  by_cases hc : c = .recorder
  · subst hc
    cases h with
    | own k k' e hc => exact writeToDb_locks hc
    | callPush t k k' e hc => exact writeToDb_locks hc
    | callPause k k' e hc => exact writeToDb_locks hc
    | callUnpause k k' e hc => exact writeToDb_locks hc
    | callWait k k' e hc => exact writeToDb_locks hc
    | callDestroy k k' e hc => cases (writeToDb_move (v := s.seen) hc).2
    | _ => exact ⟨rfl, .same rfl rfl⟩
  · have hnone (l : ClientPc ScanTask (ClientCode c)) : holdsInfos (n := n) (.client c) l = false := by
      cases c <;> first | rfl | exact absurd rfl hc
    have hkeep {r : Shared n Client ScanTask (Env n) × ClientPc ScanTask (ClientCode c)}
        (he : r.1.env.dirMutex = s.env.dirMutex ∧ r.1.env.fileInfoMutex = s.env.fileInfoMutex) :
        r.1.env.dirMutex = s.env.dirMutex ∧ LockStep (.client c) s.env.fileInfoMutex
          r.1.env.fileInfoMutex (holdsInfos (n := n) (.client c) l)
            (holdsInfos (n := n) (.client c) r.2) :=
      ⟨he.1, .same he.2 (by rw [hnone, hnone])⟩
    cases h with
    | own k k' e hb => exact hkeep (client_locks hc hb)
    | callPush t k k' e hb => exact hkeep (client_locks hc hb)
    | callPause k k' e hb => exact hkeep (client_locks hc hb)
    | callUnpause k k' e hb => exact hkeep (client_locks hc hb)
    | callWait k k' e hb => exact hkeep (client_locks hc hb)
    | callDestroy k k' e hb => exact hkeep (client_locks hc hb)
    | _ => exact hkeep ⟨rfl, rfl⟩

structure ScanLocks (s : ScanState n) : Prop where
  dirs : LockInv dirOwner holdsDirs s
  infos : LockInv infoOwner holdsInfos s

theorem ScanLocks.step {s : ScanState n} (h : ScanLocks s) {i : Thread n Client}
    {x : Choice n Client Answer} {r : Shared n Client ScanTask (Env n) × Loc n ScanTask ScanPc ClientCode i}
    (hr : (threads (program n S rounds)).step i x s.shared (s.loc i) = some r) :
    ScanLocks (s.set i r) := by
  cases i with
  | worker i =>
    have hd : s.shared.env.dirMutex = some i ↔ workerIn ScanPc.inDirs (s.loc (.worker i)) = true := by
      simpa [dirOwner, holdsDirs] using h.dirs (.worker i)
    obtain ⟨hdirs, hinfos⟩ := WorkerMove.scanLocks hd (h.infos (.worker i)) (worker_move _ hr)
    exact ⟨h.dirs.set (hdirs.map Thread.worker), h.infos.set hinfos⟩
  | client c =>
    obtain ⟨hdirs, hinfos⟩ := ClientMove.scanLocks (client_move _ hr)
    exact ⟨h.dirs.set (.same (congrArg (Option.map Thread.worker) hdirs) rfl), h.infos.set hinfos⟩

theorem scanLocks_run {ok : ScanState n → Thread n Client → Choice n Client Answer → Prop}
    {s : ScanState n} (h : ReachableBy (program n S rounds) ok s) : ScanLocks s := by
  apply Threads.Steps.invariant h
  · constructor
    · intro i
      cases i <;> simp [initial, dirOwner, holdsDirs, program, workerIn]
    · intro i
      rcases i with i | c
      · simp [initial, infoOwner, holdsInfos, program, workerIn]
      · cases c <;> simp [initial, infoOwner, holdsInfos, program, recorderIn, RecorderPc.inInfos]
  · intro u i x r _ _ hr hI
    exact hI.step hr

end SysUtils.Scan

import SysUtils.Scan.Turns

namespace SysUtils.Scan

open Interleaving ThreadPool

variable {n : ℕ} {S : Sys} {roots : List Str} {tree : Finset ScanTask} {s : ScanState n}

theorem lower_notifier_step {k k' : NotifierPc} {e : Env n} {p : Pool n Client ScanTask}
    (hl : s.loc (.client .notifier) = .code k)
    (hr : client (program n S [roots]) .notifier { code := {} } s.shared (.code k) =
      some (⟨p, e⟩, .code k'))
    (hp : p.tasks = s.shared.pool.tasks)
    (he : e.dbRecorder = s.shared.env.dbRecorder ∧ e.visited = s.shared.env.visited)
    (hlt : NotifierPc.effort e.notifier k' < NotifierPc.effort s.shared.env.notifier k) :
    Lower S roots tree s := by
  apply lower_client (c := .notifier) (x := { code := {} }) (r := (⟨p, e⟩, .code k')) rfl rfl
    (by rw [hl]; exact hr)
  have htree : treeLeft S tree e = treeLeft S tree s.shared.env := by
    simp only [treeLeft, he.2]
  have hc : clientsEffort roots.length (s.set (.client .notifier) (⟨p, e⟩, .code k')) <
      clientsEffort roots.length s := by
    unfold clientsEffort
    rw [Config.set_loc_self, Config.set_loc_of_ne _ (by simp), Config.set_loc_of_ne _ (by simp), hl,
      Config.set_shared, he.1]
    change mainEffort _ _ + NotifierPc.effort e.notifier k' + _ <
      mainEffort _ _ + NotifierPc.effort s.shared.env.notifier k + _
    omega
  simp only [sharedEffort, htree, hp]
  omega

theorem lower_notifier (hs : ReachableBy (program n S [roots]) undisturbed s) (hidle : Idle s)
    (hn : s.shared.env.notifier = .running) : Lower S roots tree s := by
  obtain ⟨k, hl⟩ := (outside_run hs).helpers .notifier (by simp)
  have h0 := Idle.total hidle hs
  change NotifierPc at k
  cases k with
  | idle =>
    apply lower_notifier_step hl (by simp only [client, program, statusNotifier, hn, if_true]; rfl) rfl ⟨rfl, rfl⟩
    simp [NotifierPc.effort, hn]
  | whileNotOver =>
    apply lower_notifier_step hl (by simp only [client, program, statusNotifier, Pool.getTasksCount, h0]; rfl)
      rfl ⟨rfl, rfl⟩
    simp [NotifierPc.effort, isScanOver]
  | sleep => exact lower_notifier_step hl rfl rfl ⟨rfl, rfl⟩ (by simp [NotifierPc.effort])
  | stopRunning => exact lower_notifier_step hl rfl rfl ⟨rfl, rfl⟩ (by simp [NotifierPc.effort])
  | stopPause => exact lower_notifier_step hl rfl rfl ⟨rfl, rfl⟩ (by simp [NotifierPc.effort])
  | scanOver => exact lower_notifier_step hl rfl rfl ⟨rfl, rfl⟩ (by simp [NotifierPc.effort])

theorem recorderEffort_of_ne {life : Life} {l : Recorder} (h : l.pc ≠ .idle) :
    recorderEffort life (.code l) = 1 := by
  obtain ⟨pc, infos⟩ := l
  cases pc <;> first | rfl | exact absurd rfl h

structure Same (e e' : Env n) : Prop where
  notifier : e'.notifier = e.notifier
  dbRecorder : e'.dbRecorder = e.dbRecorder
  visited : e'.visited = e.visited

variable (S roots tree) in
theorem recorder_goes {l l' : Recorder} {e : Env n} (hl : s.loc (.client .recorder) = .code l)
    (hw : writeToDb s.shared.env l = some (.own, e, l')) (hne : l.pc ≠ .idle) (hne' : l'.pc ≠ .idle)
    (he : Same s.shared.env e) :
    (threads (program n S [roots])).Steps undisturbed s
        (s.set (.client .recorder) (⟨s.shared.pool, e⟩, .code l')) ∧
      effort S tree roots.length (s.set (.client .recorder) (⟨s.shared.pool, e⟩, .code l')) =
        effort S tree roots.length s := by
  constructor
  · apply Threads.Steps.step (x := { code := {} }) .refl ⟨rfl, rfl⟩
    rw [hl]
    change client (program n S [roots]) .recorder { code := {} } s.shared (.code l) = _
    simp only [client, program, hw]
  · have h := effort_client S tree roots.length s (c := .recorder) (⟨s.shared.pool, e⟩, .code l')
    have hc : clientsEffort roots.length (s.set (.client .recorder) (⟨s.shared.pool, e⟩, .code l')) =
        clientsEffort roots.length s := by
      unfold clientsEffort
      rw [Config.set_loc_self, Config.set_loc_of_ne _ (by simp), Config.set_loc_of_ne _ (by simp), hl,
        recorderEffort_of_ne hne, recorderEffort_of_ne hne', Config.set_shared, he.notifier]
    have htree : treeLeft S tree e = treeLeft S tree s.shared.env := by
      simp only [treeLeft, he.visited]
    simp only [sharedEffort, htree] at h
    omega

variable (S roots tree) in
theorem recorder_unlocks {infos : List FileInfo} (hl : s.loc (.client .recorder) = .code ⟨.unlock, infos⟩) :
    ∃ u, (threads (program n S [roots])).Steps undisturbed s u ∧
      effort S tree roots.length u = effort S tree roots.length s ∧
      u.shared.env.fileInfoMutex = none ∧ ∀ i : Fin n, u.loc (.worker i) = s.loc (.worker i) := by
  obtain ⟨hst, hsame⟩ := recorder_goes S roots tree hl rfl (by simp)
    (by simp) ⟨rfl, rfl, rfl⟩
  exact ⟨_, hst, hsame, rfl, fun i => Config.set_loc_of_ne _ (by simp) _⟩

variable (tree) in
theorem recorder_releases (hs : ReachableBy (program n S [roots]) undisturbed s)
    (ho : s.shared.env.fileInfoMutex = some (.client .recorder)) :
    ∃ u, (threads (program n S [roots])).Steps undisturbed s u ∧
      effort S tree roots.length u = effort S tree roots.length s ∧
      u.shared.env.fileInfoMutex = none ∧ ∀ i : Fin n, u.loc (.worker i) = s.loc (.worker i) := by
  have hin : recorderIn (s.loc (.client .recorder)) = true := ((scanLocks_run hs).infos _).mp ho
  obtain ⟨⟨pc, infos⟩, hl⟩ := (outside_run hs).helpers .recorder (by simp)
  rw [hl] at hin
  cases pc with
  | unlock => exact recorder_unlocks S roots tree hl
  | swap =>
    obtain ⟨hst, hsame⟩ := recorder_goes S roots tree hl rfl (by simp)
      (by simp) ⟨rfl, rfl, rfl⟩
    have hu := Config.set_loc_self s (.client .recorder) (⟨s.shared.pool,
      { s.shared.env with fileInfos := infos }⟩, .code ⟨.unlock, s.shared.env.fileInfos⟩)
    obtain ⟨v, hv, hvsame, hfree, hstay⟩ := recorder_unlocks S roots tree hu
    refine ⟨v, hst.trans hv, hvsame.trans hsame, hfree, fun i => (hstay i).trans ?_⟩
    exact Config.set_loc_of_ne _ (by simp) _
  | _ => cases hin

def RecorderPc.toReturn (empty : Bool) : RecorderPc → ℕ
  | .idle => 0
  | .ifEmpty => if empty then 1 else 8
  | .whileRunning => if empty then 2 else 9
  | .clear => if empty then 3 else 10
  | .unlock => if empty then 4 else 11
  | .swap => 5
  | .lock => 6
  | .sleep => 7

theorem lower_recorder_step {l l' : Recorder} {e : Env n}
    (hl : s.loc (.client .recorder) = .code l) (hw : writeToDb s.shared.env l = some (.own, e, l'))
    (he : e.notifier = s.shared.env.notifier ∧ e.visited = s.shared.env.visited)
    (hlt : RecorderPc.effort e.dbRecorder l'.pc < RecorderPc.effort s.shared.env.dbRecorder l.pc) :
    Lower S roots tree s := by
  have hr : client (program n S [roots]) .recorder { code := {} } s.shared
      (s.loc (.client .recorder)) = some (⟨s.shared.pool, e⟩, .code l') := by
    rw [hl]
    simp only [client, program, hw]
  apply lower_client rfl rfl hr
  have htree : treeLeft S tree e = treeLeft S tree s.shared.env := by
    simp only [treeLeft, he.2]
  have hc : clientsEffort roots.length (s.set (.client .recorder) (⟨s.shared.pool, e⟩, .code l')) <
      clientsEffort roots.length s := by
    unfold clientsEffort
    rw [Config.set_loc_self, Config.set_loc_of_ne _ (by simp), Config.set_loc_of_ne _ (by simp), hl,
      Config.set_shared, he.1]
    change _ + RecorderPc.effort e.dbRecorder l'.pc < _ + RecorderPc.effort s.shared.env.dbRecorder l.pc
    omega
  simp only [sharedEffort, htree]
  omega

theorem infos_free (hs : ReachableBy (program n S [roots]) undisturbed s) (hidle : Idle s)
    {l : Recorder} (hl : s.loc (.client .recorder) = .code l) (hout : l.pc.inInfos = false) :
    s.shared.env.fileInfoMutex = none := by
  cases hheld : s.shared.env.fileInfoMutex with
  | none => rfl
  | some j =>
    have hin := ((scanLocks_run hs).infos j).mp hheld
    cases j with
    | worker i =>
      obtain ⟨t, k, _, hi | ⟨t', pc, hi⟩⟩ := workerIn_cases hin
      · have hzero := inFlight_eq_zero_of_le hidle.2 i
        rw [hi] at hzero
        simp [WorkerPc.inFlight] at hzero
      · have hzero := inFlight_eq_zero_of_le hidle.2 i
        rw [hi] at hzero
        simp [WorkerPc.inFlight] at hzero
    | client c =>
      cases c with
      | recorder =>
        change recorderIn (s.loc (.client .recorder)) = true at hin
        rw [hl] at hin
        change l.pc.inInfos = true at hin
        rw [hout] at hin
        cases hin
      | _ => cases hin

theorem lower_recorder (hs : ReachableBy (program n S [roots]) undisturbed s) (hidle : Idle s)
    (hd : s.shared.env.dbRecorder = .running) (hrun : s.shared.env.running = false) {l : Recorder}
    (hl : s.loc (.client .recorder) = .code l) : Lower S roots tree s := by
  induction hk : RecorderPc.toReturn (s.shared.env.fileInfos.isEmpty) l.pc using Nat.strongRecOn
    generalizing s l with
  | ind k ih =>
    have hgo {e : Env n} {l' : Recorder} (hw : writeToDb s.shared.env l = some (.own, e, l'))
        (hne : l.pc ≠ .idle) (hne' : l'.pc ≠ .idle) (he : Same s.shared.env e)
        (hr : e.running = s.shared.env.running)
        (hlt : RecorderPc.toReturn e.fileInfos.isEmpty l'.pc < k) : Lower S roots tree s := by
      obtain ⟨hst, hsame⟩ := recorder_goes S roots tree hl hw hne hne' he
      have hstep : client (program n S [roots]) .recorder { code := {} } s.shared
          (s.loc (.client .recorder)) = some (⟨s.shared.pool, e⟩, .code l') := by
        rw [hl]
        simp only [client, program, hw]
      apply Threads.Lowers.after hst hsame.le
      apply ih _ hlt (hs.trans hst) (hidle.step (i := .client .recorder) hstep (.inr rfl))
        (he.dbRecorder.trans hd) (hr.trans hrun) (Config.set_loc_self s (.client .recorder) _) rfl
    have hview : (scanView s).loc (.client .recorder) = some ⟨l, none⟩ := congrArg ClientPc.session hl
    have hswapped := (accounted_run hs _ hview).swapped
    obtain ⟨pc, infos⟩ := l
    cases pc with
    | idle =>
      apply lower_recorder_step hl (if_pos hd) ⟨rfl, rfl⟩
      simp [RecorderPc.effort, hd]
    | whileRunning =>
      apply hgo rfl (by simp) (by simp [hrun]) ⟨rfl, rfl, rfl⟩ rfl
      rw [← hk]
      simp only [hrun]
      cases s.shared.env.fileInfos.isEmpty <;> simp [RecorderPc.toReturn]
    | ifEmpty =>
      by_cases hempty : s.shared.env.fileInfos = []
      · apply lower_recorder_step hl (if_pos hempty) ⟨rfl, rfl⟩
        simp [RecorderPc.effort]
      · apply hgo (if_neg hempty) (by simp) (by simp) ⟨rfl, rfl, rfl⟩ rfl
        rw [← hk]
        simp [RecorderPc.toReturn, hempty]
    | sleep =>
      apply hgo rfl (by simp) (by simp) ⟨rfl, rfl, rfl⟩ rfl
      rw [← hk]
      simp [RecorderPc.toReturn]
    | lock =>
      apply hgo (if_pos (infos_free hs hidle hl rfl)) (by simp) (by simp) ⟨rfl, rfl, rfl⟩ rfl
      rw [← hk]
      simp [RecorderPc.toReturn]
    | swap =>
      apply hgo rfl (by simp) (by simp) ⟨rfl, rfl, rfl⟩ rfl
      have hinfos : infos = [] := hswapped (by simp) (by simp)
      rw [← hk, hinfos]
      simp [RecorderPc.toReturn]
    | unlock =>
      apply hgo rfl (by simp) (by simp) ⟨rfl, rfl, rfl⟩ rfl
      rw [← hk]
      cases s.shared.env.fileInfos.isEmpty <;> simp [RecorderPc.toReturn]
    | clear =>
      apply hgo rfl (by simp) (by simp) ⟨rfl, rfl, rfl⟩ rfl
      rw [← hk]
      cases s.shared.env.fileInfos.isEmpty <;> simp [RecorderPc.toReturn]

theorem notifierEffort_le (life life' : Life) (l : ClientPc ScanTask NotifierPc) :
    notifierEffort life' l ≤ notifierEffort life l + 5 := by
  cases l with
  | code k =>
    cases k with
    | idle =>
      simp only [notifierEffort, NotifierPc.effort]
      split_ifs <;> omega
    | _ => simp [notifierEffort, NotifierPc.effort]
  | _ => simp [notifierEffort]

theorem recorderEffort_le (life life' : Life) (l : ClientPc ScanTask Recorder) :
    recorderEffort life' l ≤ recorderEffort life l + 2 := by
  cases l with
  | code k =>
    obtain ⟨pc, infos⟩ := k
    cases pc with
    | idle =>
      simp only [recorderEffort, RecorderPc.effort]
      split_ifs <;> omega
    | _ => simp [recorderEffort, RecorderPc.effort]
  | _ => simp [recorderEffort]

theorem lower_main_own {k k' : MainPc} {e : Env n} (hl : s.loc (.client .main) = .code k)
    (hm : main {} s.shared.env k = some (.own, e, k')) (hv : e.visited = s.shared.env.visited)
    (hlt : k'.effort roots.length + 7 < k.effort roots.length ∨
      k'.effort roots.length < k.effort roots.length ∧ e.notifier = s.shared.env.notifier ∧
        e.dbRecorder = s.shared.env.dbRecorder) : Lower S roots tree s := by
  apply lower_main (x := { code := {} }) (r := (⟨s.shared.pool, e⟩, .code k')) rfl
  · rw [hl]
    simp only [client, program, hm]
  · have htree : treeLeft S tree e = treeLeft S tree s.shared.env := by
      simp only [treeLeft, hv]
    have hn := notifierEffort_le s.shared.env.notifier e.notifier (s.loc (.client .notifier))
    have hr := recorderEffort_le s.shared.env.dbRecorder e.dbRecorder (s.loc (.client .recorder))
    simp only [sharedEffort, clientsEffort, htree, hl, mainEffort]
    rcases hlt with hlt | ⟨hlt, hn', hr'⟩
    · omega
    · rw [hn', hr']
      omega

theorem lower_code (hs : ReachableBy (program n S [roots]) undisturbed s) (hidle : Idle s) {k : MainPc}
    (hl : s.loc (.client .main) = .code k) : Lower S roots tree s := by
  have hview : (scanView s).loc (.client .main) = some ⟨k, none⟩ := congrArg ClientPc.session hl
  have hp := scan_phases hs
  have hnotifier := hp.notifierOff
  have hrecorder := hp.recorderOff
  rw [hview] at hnotifier hrecorder
  cases k with
  | addPaths paths rest =>
    cases paths with
    | nil => exact lower_main_own hl rfl rfl (.inr ⟨by simp [MainPc.effort], rfl, rfl⟩)
    | cons p paths => exact lower_main_own hl rfl rfl (.inr ⟨by simp [MainPc.effort], rfl, rfl⟩)
  | setRunning rest => exact lower_main_own hl rfl rfl (.inr ⟨by simp [MainPc.effort], rfl, rfl⟩)
  | setFileCounts rest => exact lower_main_own hl rfl rfl (.inr ⟨by simp [MainPc.effort], rfl, rfl⟩)
  | setTimeStart rest => exact lower_main_own hl rfl rfl (.inr ⟨by simp [MainPc.effort], rfl, rfl⟩)
  | pushRoots j rest =>
    cases hd : s.shared.env.unscannedDirs[j]? with
    | none =>
      apply lower_main_own hl (by simp only [main, hd]; rfl) rfl
      exact .inr ⟨by simp only [MainPc.effort]; omega, rfl, rfl⟩
    | some dir =>
      have hj : j < roots.length := by
        have hlen := congrArg List.length (dirs_run hs)
        have hlt := (List.getElem?_eq_some_iff.mp hd).1
        rw [List.length_append] at hlen
        omega
      apply lower_main_of_env (x := { code := {} })
        (r := (s.shared, .push ⟨j, dir⟩ .lock (.pushRoots (j + 1) rest))) rfl
      · rw [hl]
        simp only [client, program, main, hd]
      · rfl
      · rw [hl]
        simp only [mainEffort, MainPc.effort, PushPc.effort]
        omega
  | startRecorder rest =>
    exact lower_main_own hl (if_pos (hrecorder.mp rfl)) rfl (.inl (by simp [MainPc.effort]))
  | startNotifier rest =>
    exact lower_main_own hl (if_pos (hnotifier.mp rfl)) rfl (.inl (by simp [MainPc.effort]))
  | joinNotifier rest =>
    by_cases hrun : s.shared.env.notifier = .running
    · exact lower_notifier hs hidle hrun
    · apply lower_main_own hl (if_neg hrun) rfl
      left
      cases rest <;> simp [MainPc.effort]
  | joinRecorder rest =>
    by_cases hrun : s.shared.env.dbRecorder = .running
    · cases rest with
      | none =>
        rw [hrecorder.mp rfl] at hrun
        cases hrun
      | some rest =>
        obtain ⟨l, hrl⟩ := (outside_run hs).helpers .recorder (by simp)
        exact lower_recorder hs hidle hrun ((halted_run hs).joining _ hview rfl) hrl
    · apply lower_main_own hl (if_neg hrun) rfl
      left
      have hlast := lastRound_run hs
      rw [hview] at hlast
      cases rest with
      | none => simp [MainPc.effort]
      | some rest =>
        cases rest with
        | nil => simp [MainPc.effort, nextRound]
        | cons paths rest => cases hlast
  | destroy =>
    apply lower_main_of_env (x := { code := {} }) (r := (s.shared, .destroyWait .setWaiting)) rfl
    · rw [hl]
      rfl
    · rfl
    · rw [hl]
      simp [mainEffort, MainPc.effort, WaitPc.effort]

theorem lower_main_pushing (hs : ReachableBy (program n S [roots]) undisturbed s) {t : ScanTask}
    {k : MainPc} {pc : PushPc} (hl : s.loc (.client .main) = .push t pc k) : Lower S roots tree s := by
  by_cases hpc : pc = .lock
  · subst hpc
    apply (scan_turns n S roots tree).lower_when_free hs
    intro u hu hfree
    have hstay : u.loc (.client .main) = .push t .lock k := (hu.stays _ (by rw [hl]; rfl)).trans hl
    exact lower_main_push hstay fun _ => hfree
  · exact lower_main_push hl fun h => absurd h hpc

theorem lower_main_waiting (hs : ReachableBy (program n S [roots]) undisturbed s) {pc : WaitPc}
    (hl : s.loc (.client .main) = .destroyWait pc) : Lower S roots tree s := by
  have hdone {u : ScanState n} (hu : ReachableBy (program n S [roots]) undisturbed u)
      (hl : u.loc (.client .main) = .destroyWait pc) : u.shared.pool.waitPredicate = true :=
    waitPredicate_of_idle (idle_of_destroying hu (by rw [hl]; rfl)) hu
  by_cases hlock : WaitPc.locking pc = true
  · apply (scan_turns n S roots tree).lower_when_free hs
    intro u hu hfree
    have hstay : u.loc (.client .main) = .destroyWait pc :=
      (hu.stays _ (by rw [hl]; exact WaitPc.holds_of_locking hlock)).trans hl
    exact lower_main_wait hstay (fun _ => hfree) (hdone (hs.trans hu.steps) hstay)
  · exact lower_main_wait hl (fun h => absurd h hlock) (hdone hs hl)

end SysUtils.Scan

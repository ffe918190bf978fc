import SysUtils.Scan.Effort
import SysUtils.Scan.Helpers
import SysUtils.Scan.Locks
import SysUtils.ThreadPool.Shutdown
import SysUtils.ThreadPool.Turns

namespace SysUtils.Scan

open Interleaving ThreadPool

variable {n : ℕ} {S : Sys} {roots : List Str} {tree : Finset ScanTask} {s : ScanState n}

abbrev Lower (S : Sys) (roots : List Str) (tree : Finset ScanTask) (s : ScanState n) : Prop :=
  (threads (program n S [roots])).Lowers undisturbed (effort S tree roots.length) s

theorem lower_worker {i : Fin n} {x : Choice n Client Answer}
    {r : Shared n Client ScanTask (Env n) × WorkerPc ScanTask ScanPc} (hx : x.code = {})
    (hr : worker (program n S [roots]) i x s.shared (s.loc (.worker i)) = some r)
    (hh : r.1.env.notifier = s.shared.env.notifier ∧ r.1.env.dbRecorder = s.shared.env.dbRecorder)
    (hlt : sharedEffort S tree r.1 + WorkerPc.effort r.2 <
      sharedEffort S tree s.shared + WorkerPc.effort (s.loc (.worker i))) : Lower S roots tree s := by
  apply Threads.Lowers.step (i := .worker i) ⟨rfl, by rw [hx]⟩ hr
  have h := effort_worker S tree roots.length s i hh.1 hh.2
  omega

theorem lower_client {c : Client} {x : Choice n Client Answer}
    {r : Shared n Client ScanTask (Env n) × ClientPc ScanTask (ClientCode c)}
    (hc : byUser (.client c : Thread n Client) = false)
    (hx : x.code = {})
    (hr : client (program n S [roots]) c x s.shared (s.loc (.client c)) = some r)
    (hlt : sharedEffort S tree r.1 + clientsEffort roots.length (s.set (.client c) r) <
      sharedEffort S tree s.shared + clientsEffort roots.length s) : Lower S roots tree s := by
  apply Threads.Lowers.step (i := .client c) ⟨hc, by rw [hx]⟩ hr
  have h := effort_client S tree roots.length s r
  omega

theorem lower_main {x : Choice n Client Answer}
    {r : Shared n Client ScanTask (Env n) × ClientPc ScanTask MainPc} (hx : x.code = {})
    (hr : client (program n S [roots]) .main x s.shared (s.loc (.client .main)) = some r)
    (hlt : sharedEffort S tree r.1 + mainEffort roots.length r.2 +
        notifierEffort r.1.env.notifier (s.loc (.client .notifier)) +
        recorderEffort r.1.env.dbRecorder (s.loc (.client .recorder)) <
      sharedEffort S tree s.shared + clientsEffort roots.length s) : Lower S roots tree s := by
  apply lower_client rfl hx hr
  have hc : clientsEffort roots.length (s.set (.client .main) r) = mainEffort roots.length r.2 +
      notifierEffort r.1.env.notifier (s.loc (.client .notifier)) +
      recorderEffort r.1.env.dbRecorder (s.loc (.client .recorder)) := by
    unfold clientsEffort
    rw [Config.set_loc_self, Config.set_loc_of_ne _ (by simp), Config.set_loc_of_ne _ (by simp)]
    rfl
  omega

theorem lower_unlockTask {i : Fin n} {t : ScanTask} (hl : s.loc (.worker i) = .unlockTask t) :
    Lower S roots tree s := by
  apply lower_worker (x := { code := {} }) rfl (by rw [hl]; rfl) ⟨rfl, rfl⟩
  rw [hl]
  simp [sharedEffort, WorkerPc.effort, program, ScanPc.effort]

theorem lower_account {i : Fin n} {t : ScanTask} (hl : s.loc (.worker i) = .account t) :
    Lower S roots tree s := by
  apply lower_worker (x := { code := {} }) rfl (by rw [hl]; rfl) ⟨rfl, rfl⟩
  rw [hl]
  simp [sharedEffort, WorkerPc.effort]

theorem lower_push {i : Fin n} {t t' : ScanTask} {k : ScanPc} {pc : PushPc}
    (hl : s.loc (.worker i) = .push t k t' pc)
    (hfree : pc = .lock → s.shared.pool.tasksMutex = none) : Lower S roots tree s := by
  obtain ⟨x, ⟨p, pc'⟩, hx, hq, hlt⟩ := pushTask_runs (.worker i) t' s.shared.pool pc hfree
  apply lower_worker (i := i) (r := (⟨p, s.shared.env⟩, pc'.elim (.body t k) (.push t k t'))) hx
  · rw [hl]
    simp only [worker, hq, Option.map_some]
  · exact ⟨rfl, rfl⟩
  · rw [hl]
    simp only [sharedEffort, WorkerPc.effort]
    cases pc' with
    | none => simp only [Option.elim_none] at hlt ⊢; omega
    | some pc' => simp only [Option.elim_some] at hlt ⊢; omega

theorem opendir_fresh (hroots : ∀ r ∈ roots, EndsInSlash r)
    (hs : ReachableBy (program n S [roots]) undisturbed s) {i : Fin n} {t : ScanTask}
    (hl : s.loc (.worker i) = .body t .opendir) : Reached S roots t ∧ t ∉ s.shared.env.visited := by
  have hstep : worker (program n S [roots]) i { code := {} } s.shared (.body t .opendir) =
      some (⟨s.shared.pool, { s.shared.env with visited := s.shared.env.visited ++ [t] }⟩,
        .body t ((S.readdir t.path).elim (.count {}) fun es => .traverse es {})) := rfl
  have hnext := Threads.Steps.step (i := .worker i) (x := { code := {} }) hs ⟨rfl, rfl⟩
    (by rw [hl]; exact hstep)
  obtain ⟨hnodup, hreached⟩ := (once_run hroots hnext).1
  simp only [Config.set_shared] at hnodup hreached
  refine ⟨hreached t (by simp), ?_⟩
  intro hmem
  exact (List.nodup_append.mp hnodup).2.2 t hmem t (by simp) rfl

theorem lower_body (hroots : ∀ r ∈ roots, EndsInSlash r) (htree : ∀ t, Reached S roots t → t ∈ tree)
    (hs : ReachableBy (program n S [roots]) undisturbed s) {i : Fin n} {t : ScanTask} {k : ScanPc}
    (hl : s.loc (.worker i) = .body t k)
    (hdirs : ∀ out, k = .lockDirs out → s.shared.env.dirMutex = none)
    (hinfos : ∀ files symbols, k = .lockInfos files symbols → s.shared.env.fileInfoMutex = none) :
    Lower S roots tree s := by
  have hfresh (hk : k = .opendir) : t ∈ tree ∧ t ∉ s.shared.env.visited := by
    subst hk
    exact (opendir_fresh hroots hs hl).imp_left (htree t)
  obtain ⟨⟨o, e, k'⟩, hd, hruns⟩ := doScan_runs S tree i t s.shared.env k hdirs hinfos hfresh
  have hb : (program n S [roots]).body i t {} s.shared.pool.tasksTotal s.shared.pool.paused s.shared.env k =
      some (o, e, k') := hd
  have hless := hruns.less
  have hnext (p : WorkerPc ScanTask ScanPc) (hp : WorkerPc.effort p = BodyCall.effort k' o + 1)
      (hstep : worker (program n S [roots]) i { code := {} } s.shared (.body t k) =
        some (⟨s.shared.pool, e⟩, p)) : Lower S roots tree s := by
    apply lower_worker (x := { code := {} }) rfl (by rw [hl]; exact hstep) hruns.helpers
    have hk : WorkerPc.effort (.body t k) = k.effort + 1 := rfl
    rw [hl, hk, hp]
    simp only [sharedEffort] at hless ⊢
    omega
  cases o with
  | own => exact hnext (.body t k') rfl (by simp [worker, hb, Pool.getTasksCount, Pool.isPaused])
  | push t' => exact hnext (.push t k' t' .lock) rfl (by simp [worker, hb, Pool.getTasksCount, Pool.isPaused])
  | «return» => exact hnext (.lockAgain t) rfl (by simp [worker, hb, Pool.getTasksCount, Pool.isPaused])
  | pause => exact absurd rfl hruns.call.2.1
  | unpause => exact absurd rfl hruns.call.2.2
  | throw => exact absurd rfl hruns.call.1

theorem lower_main_of_env {x : Choice n Client Answer}
    {r : Shared n Client ScanTask (Env n) × ClientPc ScanTask MainPc} (hx : x.code = {})
    (hr : client (program n S [roots]) .main x s.shared (s.loc (.client .main)) = some r)
    (he : r.1.env = s.shared.env)
    (hlt : 13 * r.1.pool.tasks.length + mainEffort roots.length r.2 <
      13 * s.shared.pool.tasks.length + mainEffort roots.length (s.loc (.client .main))) :
    Lower S roots tree s := by
  apply lower_main hx hr
  simp only [sharedEffort, clientsEffort, he]
  omega

theorem lower_main_push {t : ScanTask} {k : MainPc} {pc : PushPc}
    (hl : s.loc (.client .main) = .push t pc k)
    (hfree : pc = .lock → s.shared.pool.tasksMutex = none) : Lower S roots tree s := by
  obtain ⟨x, ⟨p, pc'⟩, hx, hq, hlt⟩ := pushTask_runs (.client .main) t s.shared.pool pc hfree
  apply lower_main_of_env (r := (⟨p, s.shared.env⟩, pc'.elim (.code k) (fun pc' => .push t pc' k))) hx
  · rw [hl]
    simp only [client, hq, Option.map_some]
  · rfl
  · rw [hl]
    simp only [mainEffort]
    cases pc' with
    | none => simp only [Option.elim_none] at hlt ⊢; omega
    | some pc' => simp only [Option.elim_some] at hlt ⊢; omega

theorem lower_main_wait {pc : WaitPc} (hl : s.loc (.client .main) = .destroyWait pc)
    (hfree : WaitPc.locking pc = true → s.shared.pool.tasksMutex = none)
    (hdone : s.shared.pool.waitPredicate = true) : Lower S roots tree s := by
  obtain ⟨x, ⟨p, pc'⟩, hx, hq, ht, hlt⟩ := waitForTasks_runs .main s.shared.pool pc hfree hdone
  apply lower_main_of_env (r := (⟨p, s.shared.env⟩, pc'.elim .destroyRunning .destroyWait)) hx
  · rw [hl]
    simp only [client, hq, Option.map_some]
  · rfl
  · rw [hl]
    simp only at ht
    simp only [mainEffort, ht]
    cases pc' with
    | none => simp only [Option.elim_none] at hlt ⊢; omega
    | some pc' => simp only [Option.elim_some] at hlt ⊢; omega

theorem effort_of_idle {l : WorkerPc ScanTask ScanPc} (h : l.idle = true) : WorkerPc.effort l = 1 := by
  cases l <;> first | rfl | cases h

theorem effort_idle {i : Fin n} {r : Shared n Client ScanTask (Env n) × WorkerPc ScanTask ScanPc}
    (hl : WorkerPc.idle (s.loc (.worker i)) = true) (hm : IdleMove s.shared (s.loc (.worker i)) r) :
    effort S tree roots.length (s.set (.worker i) r) < effort S tree roots.length s ∨
      IdleStep s.shared (s.loc (.worker i)) r ∧
        effort S tree roots.length (s.set (.worker i) r) = effort S tree roots.length s := by
  have hone := effort_of_idle hl
  cases hm with
  | took t ht hp he =>
    left
    have heff := effort_worker S tree roots.length s i (r := r) (by rw [he]) (by rw [he])
    have hthirteen : WorkerPc.effort r.2 = 13 := by
      rw [hp]
      rfl
    have hlen := congrArg List.length ht
    simp only [List.length_cons] at hlen
    simp only [sharedEffort, he] at heff
    omega
  | ended ht hp he =>
    left
    have heff := effort_worker S tree roots.length s i (r := r) (by rw [he]) (by rw [he])
    have hzero : WorkerPc.effort r.2 = 0 := by
      rw [hp]
      rfl
    simp only [sharedEffort, he, ht] at heff
    omega
  | stay h =>
    refine .inr ⟨h, ?_⟩
    have heff := effort_worker S tree roots.length s i (r := r) (by rw [h.env]) (by rw [h.env])
    have hone' := effort_of_idle h.idle
    simp only [sharedEffort, h.env, h.tasks] at heff
    omega

theorem WaitPc.holds_of_locking {pc : WaitPc} (h : WaitPc.locking pc = true) : pc.holds = false := by
  cases pc <;> first | rfl | cases h

theorem Idle.total (h : Idle s) (hs : ReachableBy (program n S [roots]) undisturbed s) :
    s.shared.pool.tasksTotal = 0 := by
  have hb := (ReachableBy.conserved hs).balance
  rw [h.1, h.2] at hb
  simp only [List.length_nil, Multiset.card_zero] at hb
  omega

theorem waitPredicate_of_idle (h : Idle s) (hs : ReachableBy (program n S [roots]) undisturbed s) :
    s.shared.pool.waitPredicate = true := by
  simp [Pool.waitPredicate, Idle.total h hs, h.1]

theorem idle_of_destroying (hs : ReachableBy (program n S [roots]) undisturbed s)
    (hm : ClientPc.session (s.loc (.client .main)) = none) : Idle s := by
  apply (scan_phases hs).resting
  change ofMain MainPc.resting (ClientPc.session (s.loc (.client .main))) = true
  rw [hm]
  rfl

theorem lower_holder (hs : ReachableBy (program n S [roots]) undisturbed s) {i : Thread n Client}
    (hh : holds i (s.loc i) = true) (hidle : idleAt i (s.loc i) = false) : Lower S roots tree s := by
  cases i with
  | worker i =>
    change WorkerPc.holds (s.loc (.worker i)) = true at hh
    have hl : WorkerPc.idle (s.loc (.worker i)) ≠ true := Bool.eq_false_iff.mp hidle
    cases hi : s.loc (.worker i) with
    | unlockTask t => exact lower_unlockTask hi
    | account t => exact lower_account hi
    | push t k t' pc =>
      apply lower_push hi
      rintro rfl
      rw [hi] at hh
      cases hh
    | _ => rw [hi] at hl hh; first | exact absurd rfl hl | cases hh
  | client c =>
    change ClientPc.holds (s.loc (.client c)) = true at hh
    have hout := outside_run hs
    by_cases hc : c = .main
    · subst hc
      cases hl : s.loc (.client .main) with
      | push t pc k =>
        apply lower_main_push hl
        rintro rfl
        rw [hl] at hh
        cases hh
      | wait pc k => exact absurd hl (hout.main pc k)
      | destroyWait pc =>
        have hempty : Idle s := idle_of_destroying hs (by rw [hl]; rfl)
        apply lower_main_wait hl _ (waitPredicate_of_idle hempty hs)
        intro hlock
        rw [hl] at hh
        change pc.holds = true at hh
        rw [WaitPc.holds_of_locking hlock] at hh
        cases hh
      | _ => rw [hl] at hh; cases hh
    · obtain ⟨k, hk⟩ := hout.helpers c hc
      rw [hk] at hh
      cases hh

variable (n S roots tree) in
theorem scan_turns : Turns (program n S [roots]) {} undisturbed (effort S tree roots.length)
    (ReachableBy (program n S [roots]) undisturbed) where
  closed _ _ hs hst := hs.trans hst
  lockInv _ hs := ReachableBy.lockInv hs
  allowed _ _ _ hx := ⟨rfl, by rw [hx]⟩
  moves _ _ _ _ _ hl _ hm := effort_idle hl hm
  held _ _ hs hh hidle := lower_holder hs hh hidle

theorem workerIn_cases {p : ScanPc → Bool} {l : WorkerPc ScanTask ScanPc} (h : workerIn p l = true) :
    ∃ t k, p k = true ∧ (l = .body t k ∨ ∃ t' pc, l = .push t k t' pc) := by
  cases l with
  | body t k => exact ⟨t, k, h, .inl rfl⟩
  | push t k t' pc => exact ⟨t, k, h, .inr ⟨t', pc, rfl⟩⟩
  | _ => cases h

end SysUtils.Scan

import SysUtils.Scan.ClientTurns

namespace SysUtils.Scan

open Interleaving ThreadPool

variable {n : ℕ} {S : Sys} {roots : List Str} {tree : Finset ScanTask} {s : ScanState n}

theorem lower_pushing (hs : ReachableBy (program n S [roots]) undisturbed s) {i : Fin n}
    {t t' : ScanTask} {k : ScanPc} {pc : PushPc} (hl : s.loc (.worker i) = .push t k t' pc) :
    Lower S roots tree s := by
  by_cases hpc : pc = .lock
  · subst hpc
    apply (scan_turns n S roots tree).lower_when_free hs
    intro u hu hfree
    have hstay : u.loc (.worker i) = .push t k t' .lock := (hu.stays _ (by rw [hl]; rfl)).trans hl
    exact lower_push hstay fun _ => hfree
  · exact lower_push hl fun h => absurd h hpc

theorem lower_lockAgain (hs : ReachableBy (program n S [roots]) undisturbed s) {i : Fin n}
    {t : ScanTask} (hl : s.loc (.worker i) = .lockAgain t) : Lower S roots tree s := by
  apply (scan_turns n S roots tree).lower_when_free hs
  intro u hu hfree
  have hstay : u.loc (.worker i) = .lockAgain t := (hu.stays _ (by rw [hl]; rfl)).trans hl
  apply lower_worker (x := { code := {} }) rfl (by rw [hstay]; exact if_pos hfree) ⟨rfl, rfl⟩
  rw [hstay]
  simp [sharedEffort, WorkerPc.effort]

theorem lower_critical (hroots : ∀ r ∈ roots, EndsInSlash r) (htree : ∀ t, Reached S roots t → t ∈ tree)
    (hs : ReachableBy (program n S [roots]) undisturbed s) {i : Fin n} {p : ScanPc → Bool}
    (hp : ∀ k, p k = true → k.inDirs = true ∨ k.inInfos = true)
    (hi : workerIn p (s.loc (.worker i)) = true) : Lower S roots tree s := by
  obtain ⟨t, k, hk, hl | ⟨t', pc, hl⟩⟩ := workerIn_cases hi
  · apply lower_body hroots htree hs hl
    · rintro out rfl
      rcases hp _ hk with h | h <;> cases h
    · rintro files symbols rfl
      rcases hp _ hk with h | h <;> cases h
  · exact lower_pushing hs hl

theorem lower_job (hroots : ∀ r ∈ roots, EndsInSlash r) (htree : ∀ t, Reached S roots t → t ∈ tree)
    (hs : ReachableBy (program n S [roots]) undisturbed s) {i : Fin n}
    (hi : WorkerPc.inFlight (s.loc (.worker i)) ≠ 0) : Lower S roots tree s := by
  have hlocks := scanLocks_run hs
  cases hl : s.loc (.worker i) with
  | unlockTask t => exact lower_unlockTask hl
  | account t => exact lower_account hl
  | push t k t' pc => exact lower_pushing hs hl
  | lockAgain t => exact lower_lockAgain hs hl
  | body t k =>
    by_cases hdirs : ∀ out, k = .lockDirs out → s.shared.env.dirMutex = none
    · by_cases hinfos : ∀ files symbols, k = .lockInfos files symbols →
          s.shared.env.fileInfoMutex = none
      · exact lower_body hroots htree hs hl hdirs hinfos
      · push Not at hinfos
        obtain ⟨files, symbols, rfl, hheld⟩ := hinfos
        obtain ⟨j, hj⟩ := Option.ne_none_iff_exists'.mp hheld
        have hin := (hlocks.infos j).mp hj
        cases j with
        | worker j => exact lower_critical hroots htree hs (fun _ h => .inr h) hin
        | client c =>
          cases c with
          | recorder =>
            obtain ⟨u, hu, hsame, hfree, hstay⟩ := recorder_releases tree hs hj
            apply Threads.Lowers.after hu hsame.le
            apply lower_body hroots htree (hs.trans hu) ((hstay i).trans hl) (by simp)
            exact fun _ _ _ => hfree
          | _ => cases hin
    · push Not at hdirs
      obtain ⟨out, rfl, hheld⟩ := hdirs
      obtain ⟨j, hj⟩ := Option.ne_none_iff_exists'.mp hheld
      have hin := (hlocks.dirs (.worker j)).mp (congrArg (Option.map Thread.worker) hj)
      exact lower_critical hroots htree hs (fun _ h => .inl h) hin
  | _ => rw [hl] at hi; exact absurd rfl hi

theorem session_of_closing (hs : ReachableBy (program n S [roots]) undisturbed s)
    (h : s.shared.pool.running = false) : ClientPc.session (s.loc (.client .main)) = none := by
  obtain ⟨c, hc⟩ := (shutdown_run hs).closing.mp h
  by_cases hm : c = .main
  · subst hm
    cases hl : s.loc (.client .main) <;> rw [hl] at hc <;> first | rfl | cases hc
  · obtain ⟨k, hk⟩ := (outside_run hs).helpers c hm
    rw [hk] at hc
    cases hc

theorem open_of_tasks (hs : ReachableBy (program n S [roots]) undisturbed s)
    (htasks : s.shared.pool.tasks ≠ []) :
    s.shared.pool.running = true ∧ s.shared.pool.paused = false := by
  constructor
  · cases hr : s.shared.pool.running with
    | true => rfl
    | false => exact absurd (idle_of_destroying hs (session_of_closing hs hr)).1 htasks
  · rcases ready_run (launchesUnpaused_run hs) with hready | ha
    · exact hready.2
    · exact absurd ha.idle.1 htasks

theorem lower_take (hs : ReachableBy (program n S [roots]) undisturbed s) {i : Fin n}
    (hl : WorkerPc.idle (s.loc (.worker i)) = true) (htasks : s.shared.pool.tasks ≠ []) :
    Lower S roots tree s :=
  (scan_turns n S roots tree).lower_take (fun _ hu => open_of_tasks hu) hs htasks hl

theorem lower_exit (hs : ReachableBy (program n S [roots]) undisturbed s) {i : Fin n}
    (hl : WorkerPc.idle (s.loc (.worker i)) = true) (hm : s.loc (.client .main) = .destroyJoin) :
    Lower S roots tree s := by
  apply (scan_turns n S roots tree).lower_idle (fun u => u.loc (.client .main) = .destroyJoin)
    WorkerPc.toExit _ _ hs hm hl
  · intro s u hm hu
    exact (hu.stays _ (by rw [hm]; rfl)).trans hm
  · intro u r hu hm hstep
    have hrun : u.shared.pool.running = false := (shutdown_run hu).closing.mpr ⟨.main, by rw [hm]; rfl⟩
    have hempty : u.shared.pool.tasks = [] := (idle_of_destroying hu (by rw [hm]; rfl)).1
    refine ⟨hstep.exit hrun hempty, ?_⟩
    rw [Config.set_loc_of_ne _ (by simp)]
    exact hm

end SysUtils.Scan

import SysUtils.Scan.WorkerTurns

namespace SysUtils.Scan

open Interleaving ThreadPool

variable {n : ℕ} {S : Sys} {roots : List Str} {tree : Finset ScanTask} {s : ScanState n}

theorem lower_of_not_destroyed (hn : 0 < n) (hroots : ∀ r ∈ roots, EndsInSlash r)
    (htree : ∀ t, Reached S roots t → t ∈ tree)
    (hs : ReachableBy (program n S [roots]) undisturbed s)
    (hm : s.loc (.client .main) ≠ .destroyed) : Lower S roots tree s := by
  by_cases hjob : ∃ i, WorkerPc.inFlight (s.loc (.worker i)) ≠ 0
  · obtain ⟨i, hi⟩ := hjob
    exact lower_job hroots htree hs hi
  have hnone (i : Fin n) : WorkerPc.inFlight (s.loc (.worker i)) = 0 := by
    by_contra h
    exact hjob ⟨i, h⟩
  by_cases htasks : s.shared.pool.tasks = []
  · have hin : inFlight s = 0 := by
      unfold inFlight total
      exact Finset.sum_eq_zero fun i _ => hnone i
    have hidle : Idle s := ⟨htasks, hin⟩
    cases hl : s.loc (.client .main) with
    | code k => exact lower_code hs hidle hl
    | push t pc k => exact lower_main_pushing hs hl
    | wait pc k => exact absurd hl ((outside_run hs).main pc k)
    | destroyWait pc => exact lower_main_waiting hs hl
    | destroyRunning =>
      apply lower_main_of_env (x := { code := {} }) rfl (by rw [hl]; rfl) rfl
      rw [hl]
      simp [mainEffort]
    | destroyNotify =>
      apply lower_main_of_env (x := { code := {} }) rfl (by rw [hl]; rfl) rfl
      rw [hl]
      simp [mainEffort]
    | destroyJoin =>
      by_cases hall : s.shared.pool.exited = Finset.univ
      · apply lower_main_of_env (x := { code := {} }) rfl (by rw [hl]; exact if_pos hall) rfl
        rw [hl]
        simp [mainEffort]
      · obtain ⟨i, hi⟩ : ∃ i, i ∉ s.shared.pool.exited := by
          by_contra h
          push Not at h
          exact hall (Finset.eq_univ_of_forall h)
        rcases WorkerPc.idle_or_ended (hnone i) with hidle | hend
        · exact lower_exit hs hidle hl
        · exact absurd ((shutdown_run hs).exited i hend) hi
    | destroyed => exact absurd hl hm
  · rcases WorkerPc.idle_or_ended (hnone ⟨0, hn⟩) with hidle | hend
    · exact lower_take hs hidle htasks
    · have hclosed := (shutdown_run hs).leaving _ (by rw [hend]; rfl)
      rw [(open_of_tasks hs htasks).1] at hclosed
      cases hclosed

theorem scan_can_finish (S : Sys) (roots : List Str) (hn : 0 < n)
    (hroots : ∀ r ∈ roots, EndsInSlash r) (hfinite : {t | Reached S roots t}.Finite) {s : ScanState n}
    (hs : ReachableBy (program n S [roots]) undisturbed s) :
    ∃ t, (threads (program n S [roots])).Steps undisturbed s t ∧
      t.loc (.client .main) = .destroyed ∧ (∀ i, t.loc (.worker i) = .ended) ∧
      Complete S roots t.shared.env := by
  obtain ⟨t, ht, hdestroyed⟩ := Threads.Steps.exists_goal (s := s)
    (fun t => t.loc (.client .main) = .destroyed) fun t ht hm =>
      lower_of_not_destroyed hn hroots (fun c hc => hfinite.mem_toFinset.mpr hc) (hs.trans ht) hm
  have hreach := hs.trans ht
  have hexits := exits_run hreach.any
  have hgone : (scanView t).loc (.client .main) = none := congrArg ClientPc.session hdestroyed
  refine ⟨t, ht, hdestroyed, ?_, ?_⟩
  · intro i
    apply hexits.ended
    rw [hexits.joined _ hdestroyed]
    exact Finset.mem_univ i
  · apply Settled.complete _ hroots
    apply settled_of_owes hreach (idle_of_destroying hreach hgone)
    intro ty
    rw [hgone]
    exact ⟨rfl, rfl⟩

theorem found_oneExecutable (t : ScanTask) : found oneExecutable .dir t = 0 := by
  have hlisted : listed .dir (oneExecutable.listing t.path) = [] := by
    simp only [Sys.listing, oneExecutable]
    split_ifs <;> rfl
  simp [found, below, hlisted]

theorem reached_oneExecutable {t : ScanTask} (h : Reached oneExecutable ["/a/".toList] t) :
    t = ⟨0, "/a/".toList⟩ := by
  cases h with
  | root ha hk => simpa [rootTasks] using ha
  | child ha hb hk => simp [found_oneExecutable] at hb

theorem scan_can_finish_scanOne : ∃ s, ReachableBy scanOne undisturbed s ∧
    s.shared.env.fileInfoMutex = some (.worker 0) ∧
    ∃ t, (threads scanOne).Steps undisturbed s t ∧ t.loc (.client .main) = .destroyed ∧
      Complete oneExecutable ["/a/".toList] t.shared.env := by
  have h : ((threads scanOne).run undisturbed (initial scanOne)
      (scanSteps (.client .main) 11 ++ scanSteps (.worker 0) 17)).map (fun s => decide
        (s.shared.env.fileInfoMutex = some (.worker 0))) = some true := by decide
  obtain ⟨s, hs, hp⟩ := Threads.exists_steps_of_run h
  have hfinite : {t | Reached oneExecutable ["/a/".toList] t}.Finite :=
    (Set.finite_singleton _).subset fun t ht => reached_oneExecutable ht
  obtain ⟨t, ht, hm, _, hcomplete⟩ :=
    scan_can_finish oneExecutable ["/a/".toList] Nat.one_pos (by decide) hfinite hs
  exact ⟨s, hs, of_decide_eq_true hp, t, ht, hm, hcomplete⟩

end SysUtils.Scan

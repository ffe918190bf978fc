import SysUtils.Scan.Recorder

namespace SysUtils.Scan

open Interleaving ThreadPool

variable {n : ℕ} {S : Sys} {v v' : Seen ScanTask (Env n)}

def Out.Silent (S : Sys) (out : Out) : Prop :=
  (∀ f ∈ out.files, ∀ stale, fileChecker S stale f = none) ∧
    ∀ l ∈ out.symbols, ∀ stale, symbolReloader S stale l = none

def Quiet (S : Sys) (j : Option (Job ScanTask ScanPc)) : Prop :=
  ∀ job, j = some job → (job.pos.toHandle job.task.path).Silent S

theorem Out.silent_empty (S : Sys) : ({} : Out).Silent S := by
  simp [Out.Silent]

theorem quiet_none (S : Sys) : Quiet S none := by
  rintro job ⟨⟩

theorem ScanMove.quiet {i : Fin n} {x : Answer} {j j' : Option (Job ScanTask ScanPc)}
    (h : ScanMove S i x v j (v', j')) (hr : v.env.running = false) (hj : Quiet S j) :
    Quiet S j' ∧ v'.env.fileInfos = v.env.fileInfos ∧ v'.env.appended = v.env.appended ∧
      v'.env.drained = v.env.drained := by
  cases h with
  | skip => exact ⟨hj, rfl, rfl, rfl⟩
  | begin t ts ht =>
    refine ⟨?_, rfl, rfl, rfl⟩
    rintro job ⟨⟩
    exact Out.silent_empty S
  | opendir t =>
    refine ⟨?_, rfl, rfl, rfl⟩
    rintro job ⟨⟩
    cases S.readdir t.path <;> exact Out.silent_empty S
  | readdir t entry rest out hrun => simp [hr] at hrun
  | checkFile t f files symbols =>
    have hs := hj _ rfl
    have hf := hs.1 f (.head _) x.stale
    refine ⟨?_, by simp [Env.append, hf], by simp [Env.append, hf], rfl⟩
    rintro job ⟨⟩
    exact ⟨fun g hg => hs.1 g (List.mem_cons_of_mem _ hg), hs.2⟩
  | reloadSymbol t l symbols =>
    have hs := hj _ rfl
    have hl := hs.2 l (.head _) x.stale
    refine ⟨?_, by simp [Env.append, hl], by simp [Env.append, hl], rfl⟩
    rintro job ⟨⟩
    exact ⟨hs.1, fun g hg => hs.2 g (List.mem_cons_of_mem _ hg)⟩
  | unlockInfos t =>
    refine ⟨?_, rfl, rfl, rfl⟩
    rintro job ⟨⟩
    exact Out.silent_empty S
  | throw t k hx => exact ⟨quiet_none S, rfl, rfl, rfl⟩
  | notRunning t hr => exact ⟨quiet_none S, rfl, rfl, rfl⟩
  | notValid t hp => exact ⟨quiet_none S, rfl, rfl, rfl⟩
  | setTimeEnd t => exact ⟨quiet_none S, rfl, rfl, rfl⟩
  | _ =>
    have hs := hj _ rfl
    refine ⟨?_, rfl, rfl, rfl⟩
    rintro job ⟨⟩
    exact hs

structure Returned (S : Sys) (w : ScanView n) : Prop where
  launched : ofMain MainPc.launched (w.loc (.client .main)) = true
  off : w.shared.env.dbRecorder ≠ .running
  notRunning : w.shared.env.running = false
  empty : w.shared.env.fileInfos = []
  drained : w.shared.env.drained = w.shared.env.appended
  quiet : ∀ i, Quiet S (w.loc (.worker i))

theorem RecorderMove.of_off {r r' : Option (Session ScanTask Recorder)} (h : RecorderMove v r (v', r'))
    (hr : v.env.dbRecorder ≠ .running) (hidle : ∀ l, r = some l → l.pos.pc = .idle) : v' = v := by
  cases h with
  | skip => rfl
  | begin infos hl => exact absurd hl hr
  | _ => exact absurd (hidle _ rfl) (by simp)

theorem RecorderMove.finishes {r r' : Option (Session ScanTask Recorder)} (h : RecorderMove v r (v', r'))
    (hold : v.env.dbRecorder ≠ .finished) (hfin : v'.env.dbRecorder = .finished) :
    ∃ infos, r = some ⟨⟨.ifEmpty, infos⟩, none⟩ ∧ v.env.fileInfos = [] ∧
      v' = { v with env := { v.env with dbRecorder := .finished } } := by
  cases h with
  | «return» infos he => exact ⟨infos, rfl, he, rfl⟩
  | _ => exact absurd hfin hold

theorem MainMove.dbRecorder {x : Answer} {m m' : Option (Session ScanTask MainPc)}
    (h : MainMove x v m (v', m')) : v'.env.dbRecorder = v.env.dbRecorder ∨
      v'.env.dbRecorder = .running ∨ v'.env.dbRecorder = .notJoinable := by
  cases h <;> simp

theorem MainMove.infos {x : Answer} {m m' : Option (Session ScanTask MainPc)}
    (h : MainMove x v m (v', m')) : v'.env.fileInfos = v.env.fileInfos ∧
      v'.env.appended = v.env.appended ∧ v'.env.drained = v.env.drained := by
  cases h <;> exact ⟨rfl, rfl, rfl⟩

theorem Returned.step {w : ScanView n} (h : Returned S w)
    (hidle : ∀ l, w.loc (.client .recorder) = some l → l.pos.pc = .idle) {i : Thread n Client}
    {x : Answer} {count : ℕ} {q : Seen ScanTask (Env n) × ScanRole n i}
    (hm : Move S x count w.shared i (w.loc i) q) : Returned S (w.set i q) := by
  obtain ⟨v, l⟩ := q
  have hkept (hk : InfosKept w.shared.env v.env) (hi : ∃ c, i = .client c ∧ c ≠ .main) :
      Returned S (w.set i (v, l)) := by
    obtain ⟨c, rfl, hc⟩ := hi
    refine ⟨?_, by simpa [hk.dbRecorder] using h.off, hk.running h.notRunning, ?_, ?_, ?_⟩
    · rw [Config.set_loc_of_ne _ (by simpa using hc.symm)]
      exact h.launched
    · simpa [hk.fileInfos] using h.empty
    · simpa [hk.drained, hk.appended] using h.drained
    · intro i
      rw [Config.set_loc_of_ne _ (by simp)]
      exact h.quiet i
  cases i with
  | worker i =>
    obtain ⟨hr, _, hd, _⟩ := ScanMove.frame hm
    obtain ⟨hq, hf, ha, hdr⟩ := ScanMove.quiet hm h.notRunning (h.quiet i)
    refine ⟨?_, by simpa [hd] using h.off, by simpa [hr] using h.notRunning, by simpa [hf] using h.empty,
      by simpa [hdr, ha] using h.drained, ?_⟩
    · rw [Config.set_loc_of_ne _ (by simp)]
      exact h.launched
    · intro j
      by_cases hj : j = i
      · subst hj
        simpa using hq
      · rw [Config.set_loc_of_ne _ (by simpa using hj)]
        exact h.quiet j
  | client c =>
    cases c with
    | main =>
      obtain ⟨hl, hr, hd⟩ := MainMove.launched hm h.launched
      obtain ⟨hf, ha, hdr⟩ := MainMove.infos hm
      refine ⟨by simpa using hl, hd h.off, by simpa [hr] using h.notRunning, by simpa [hf] using h.empty,
        by simpa [hdr, ha] using h.drained, ?_⟩
      intro i
      rw [Config.set_loc_of_ne _ (by simp)]
      exact h.quiet i
    | recorder =>
      have hv : v = w.shared := RecorderMove.of_off hm h.off hidle
      subst hv
      exact hkept ⟨rfl, rfl, rfl, rfl, id⟩ ⟨.recorder, rfl, by simp⟩
    | notifier => exact hkept (NotifierMove.infosKept hm) ⟨.notifier, rfl, by simp⟩
    | user u => exact hkept (UserMove.infosKept hm) ⟨.user u, rfl, by simp⟩

theorem Returned.recorderIdle {s : ScanState n} (h : Returned S (scanView s)) (hp : PhasesOf s) :
    ∀ l, (scanView s).loc (.client .recorder) = some l → l.pos.pc = .idle := by
  intro l hl
  by_contra hne
  exact h.off (hp.recorderIdle l hl hne)

/-- Whenever `write_to_db_` returns, no call of `do_scan` in flight has a record left to append, also none
for an entry whose test of `running_` it has passed and which it has not collected yet. -/
def returnsLast (S : Sys) (s : ScanState n) (i : Thread n Client) (_ : Choice n Client Answer) : Prop :=
  i = .client .recorder →
    (∃ infos, (scanView s).loc (.client .recorder) = some ⟨⟨.ifEmpty, infos⟩, none⟩) →
    s.shared.env.fileInfos = [] → ∀ j, Quiet S ((scanView s).loc (.worker j))

theorem returned_run {roots : List Str} {s : ScanState n}
    (h : ReachableBy (program n S [roots]) (returnsLast S) s)
    (hfin : (scanView s).shared.env.dbRecorder = .finished) : Returned S (scanView s) := by
  revert hfin
  apply scan_invariant (I := fun w => w.shared.env.dbRecorder = .finished → Returned S w) .refl h
  · intro hfin
    cases hfin
  · intro u i x q hu hx hm hI hfin
    by_cases hold : (scanView u).shared.env.dbRecorder = .finished
    · exact (hI hold).step ((hI hold).recorderIdle (scan_phases hu)) hm
    · obtain ⟨v, l⟩ := q
      replace hfin : v.env.dbRecorder = .finished := hfin
      cases i with
      | worker i =>
        rw [(ScanMove.frame hm).2.2.1] at hfin
        exact absurd hfin hold
      | client c =>
        cases c with
        | main =>
          rcases MainMove.dbRecorder hm with hd | hd | hd <;> rw [hd] at hfin
          · exact absurd hfin hold
          · cases hfin
          · cases hfin
        | recorder =>
          obtain ⟨infos, hl, hempty, rfl⟩ := RecorderMove.finishes hm hold hfin
          have hp := scan_phases hu
          have ha := accounted_run hu _ hl
          have hrun : u.shared.env.dbRecorder = .running := hp.recorderIdle _ hl (by simp)
          have hoff : ofMain MainPc.recorderOff ((scanView u).loc (.client .main)) = false := by
            by_contra hne
            have hd := hp.recorderOff.mp (by simpa using hne)
            rw [hrun] at hd
            cases hd
          have hinfos : infos = [] := ha.swapped (by simp) (by simp)
          refine ⟨?_, by simp, ha.stopped rfl, hempty, ?_, ?_⟩
          · rw [Config.set_loc_of_ne _ (by simp)]
            exact ofMain_launched hoff (lastRound_run hu)
          · have happ := ha.appended
            rw [hempty, hinfos] at happ
            simpa using happ.symm
          · intro j
            rw [Config.set_loc_of_ne _ (by simp)]
            exact hx rfl ⟨infos, hl⟩ hempty j
        | notifier =>
          rw [(NotifierMove.infosKept hm).dbRecorder] at hfin
          exact absurd hfin hold
        | user u =>
          rw [(UserMove.infosKept hm).dbRecorder] at hfin
          exact absurd hfin hold

theorem Returned.run {roots : List Str}
    {ok : ScanState n → Thread n Client → Choice n Client Answer → Prop} {s t : ScanState n}
    (h : Returned S (scanView s)) (hs : Reachable (program n S [roots]) s)
    (ht : (threads (program n S [roots])).Steps ok s t) : Returned S (scanView t) := by
  apply scan_invariant (I := Returned S) hs ht h
  intro u i x q hu _ hm hI
  exact hI.step (hI.recorderIdle (scan_phases (Threads.Steps.trans hs hu.any))) hm

theorem recorder_loses_nothing (S : Sys) (roots : List Str) {s t : ScanState n}
    (hs : ReachableBy (program n S [roots]) (returnsLast S) s)
    (hret : s.shared.env.dbRecorder = .finished)
    (ht : (threads (program n S [roots])).Steps Threads.anyStep s t) :
    t.shared.env.fileInfos = [] ∧ t.shared.env.drained = t.shared.env.appended := by
  have h := (returned_run hs hret).run hs.any ht
  exact ⟨h.empty, h.drained⟩

def oneExecutable : Sys where
  readdir p := if p = "/a/".toList then some [⟨"x".toList, .reg⟩] else none
  fopen p := if p = "/a/x".toList then
    some [0x7f, 0x45, 0x4c, 0x46, 2, 1, 1, 0, 0, 0, 0, 0, 0, 0, 0, 0, 2, 0, 62, 0, 1, 0, 0, 0] else none
  realpath _ := none
  named p es h := by
    cases (Option.ite_none_right_eq_some.mp h).2
    decide

def scanSteps (i : Thread n Client) (k : ℕ) : List (Thread n Client × Choice n Client Answer) :=
  List.replicate k (i, { code := {} })

def scanOne : Program 1 Client ScanTask ScanPc (Env 1) Answer ClientCode :=
  program 1 oneExecutable [["/a/".toList]]

def recorderAlone (s : ScanState n) (i : Thread n Client) (_ : Choice n Client Answer) : Prop :=
  i = .client .recorder → ∀ j, ((scanView s).loc (.worker j)).isNone = true

instance (s : ScanState n) (i : Thread n Client) (x : Choice n Client Answer) :
    Decidable (recorderAlone s i x) := inferInstanceAs (Decidable (_ → ∀ _, _))

theorem recorder_loses_nothing_scanOne : ∃ s, ReachableBy scanOne (returnsLast oneExecutable) s ∧
    s.shared.env.dbRecorder = .finished ∧ s.shared.env.appended ≠ [] ∧
    s.shared.env.drained = s.shared.env.appended := by
  have h : ((threads scanOne).run recorderAlone (initial scanOne)
      (scanSteps (.client .main) 13 ++ scanSteps (.worker 0) 20 ++ scanSteps (.client .recorder) 7 ++
        scanSteps (.client (.user 0)) 1 ++ scanSteps (.client .recorder) 2)).map (fun s => decide
          (s.shared.env.dbRecorder = .finished ∧ s.shared.env.appended ≠ [])) = some true := by decide
  obtain ⟨s, hs, hp⟩ := Threads.exists_steps_of_run h
  obtain ⟨hret, happ⟩ := of_decide_eq_true hp
  have hrun : ReachableBy scanOne (returnsLast oneExecutable) s := by
    refine Threads.Steps.mono ?_ hs
    intro u i x hx hi _ _ j job hj
    have hnone := hx hi j
    rw [hj] at hnone
    cases hnone
  exact ⟨s, hrun, hret, happ, (recorder_loses_nothing oneExecutable _ hrun hret .refl).2⟩

theorem forced_exit_loses_record : ∃ s t, Reachable scanOne s ∧ s.shared.env.dbRecorder = .finished ∧
    (threads scanOne).Steps Threads.anyStep s t ∧ t.shared.env.fileInfos ≠ [] := by
  have h : (((threads scanOne).run Threads.anyStep (initial scanOne)
      (scanSteps (.client .main) 13 ++ scanSteps (.worker 0) 13 ++ scanSteps (.client (.user 0)) 1 ++
        scanSteps (.client .recorder) 3)).bind fun s => ((threads scanOne).run Threads.anyStep s
          (scanSteps (.worker 0) 5)).map fun t => decide
            (s.shared.env.dbRecorder = .finished ∧ t.shared.env.fileInfos ≠ [])) = some true := by
    decide
  obtain ⟨s, hs, ht⟩ := Option.bind_eq_some_iff.mp h
  obtain ⟨t, ht, hp⟩ := Threads.exists_steps_of_run ht
  obtain ⟨hret, hinfos⟩ := of_decide_eq_true hp
  exact ⟨s, t, Threads.steps_of_run hs, hret, ht, hinfos⟩

end SysUtils.Scan

import SysUtils.Scan.Stop

namespace SysUtils.Scan

open Interleaving ThreadPool

variable {n : ℕ} {S : Sys} {rounds : List (List Str)}
variable {v v' : Seen ScanTask (Env n)} {idle idle' : Prop}
variable {m m' : Option (Session ScanTask MainPc)} {r : Option (Session ScanTask Recorder)}
  {f f' : Option (Session ScanTask NotifierPc)}

def MainPc.launching : MainPc → Bool
  | .setFileCounts _ | .setTimeStart _ | .pushRoots _ _ => true
  | _ => false

def MainPc.pushed (k : ℕ) : MainPc → Bool
  | .pushRoots j _ => k < j
  | .startRecorder _ | .startNotifier _ | .joinNotifier (some _) | .joinRecorder (some _) => true
  | _ => false

def MainPc.atSetRunning : MainPc → Bool
  | .setRunning _ => true
  | _ => false

theorem MainPc.launching_of_pushing {k : MainPc} (h : k.pushing = true) : k.launching = true := by
  cases k <;> first | rfl | cases h

theorem MainPc.notifierOff_of_launching {k : MainPc} (h : k.launching = true) :
    k.notifierOff = true := by
  cases k <;> first | rfl | cases h

def Ready (v : Seen ScanTask (Env n)) : Prop := v.env.running = true ∧ v.paused = false

structure AtRest (idle : Prop) (e : Env n) (m : Option (Session ScanTask MainPc)) : Prop where
  idle : idle
  noRoots : ∀ l, m = some l → l.pos.launching = true → e.unscannedDirs = [] ∧ l.pending = none

theorem MainMove.ready {x : Answer} (h : MainMove x v m (v', m')) (hp : Phases idle v.env m r f)
    (hidle : v'.tasks = v.tasks → idle → idle')
    (hlaunch : ∀ l, m = some l → l.pos.atSetRunning = true →
      v.paused = false ∨ v.env.unscannedDirs = [])
    (hI : Ready v ∨ AtRest idle v.env m) : Ready v' ∨ AtRest idle' v'.env m' := by
  cases h with
  | skip => exact hI.imp id fun ha => ⟨hidle rfl ha.idle, ha.noRoots⟩
  | enqueue t k =>
    apply hI.imp id
    intro ha
    have hk := MainPc.launching_of_pushing (hp.pending k t rfl)
    exact absurd (ha.noRoots _ rfl hk).2 (by simp)
  | setRunning rest =>
    rcases hlaunch _ rfl rfl with hpaused | hnone
    · exact .inl ⟨rfl, hpaused⟩
    · refine .inr ⟨hidle rfl (hp.resting rfl), ?_⟩
      rintro l ⟨⟩ _
      exact ⟨hnone, rfl⟩
  | setFileCounts rest =>
    refine hI.imp id fun ha => ⟨hidle rfl ha.idle, ?_⟩
    rintro l ⟨⟩ _
    exact ⟨(ha.noRoots _ rfl rfl).1, rfl⟩
  | setTimeStart rest =>
    refine hI.imp id fun ha => ⟨hidle rfl ha.idle, ?_⟩
    rintro l ⟨⟩ _
    exact ⟨(ha.noRoots _ rfl rfl).1, rfl⟩
  | pushRoot k dir rest hd =>
    apply hI.imp id
    intro ha
    rw [(ha.noRoots _ rfl rfl).1] at hd
    cases hd
  | joinRecorder rest hl =>
    refine hI.imp id fun ha => ⟨hidle rfl ha.idle, ?_⟩
    rintro l ⟨⟩ hk
    cases rest with
    | none => cases hk
    | some rest => cases rest <;> cases hk
  | destroy => exact hI.imp id fun ha => ⟨hidle rfl ha.idle, by simp⟩
  | _ =>
    refine hI.imp id fun ha => ⟨hidle rfl ha.idle, ?_⟩
    rintro l ⟨⟩ hk
    cases hk

theorem NotifierMove.ready {count : ℕ} (h : NotifierMove count v f (v', f'))
    (hp : Phases idle v.env m r f) (hidle : idle → idle') (hI : Ready v ∨ AtRest idle v.env m) :
    Ready v' ∨ AtRest idle' v'.env m := by
  have hrest (l : Session ScanTask NotifierPc) (hl : f = some l) (hk : l.pos.past = true) :
      AtRest idle' v.env m := by
    refine ⟨hidle (hp.past l hl hk), ?_⟩
    intro k hm hlaunch
    have hoff : ofMain MainPc.notifierOff m = true := by
      rw [hm]
      exact MainPc.notifierOff_of_launching hlaunch
    exact absurd ((hp.noNotifier hoff).2 l hl) (NotifierPc.ne_idle_of_past hk)
  cases h with
  | stopRunning =>
    have h := hrest _ rfl rfl
    exact .inr ⟨h.idle, h.noRoots⟩
  | stopPause =>
    have h := hrest _ rfl rfl
    exact .inr ⟨h.idle, h.noRoots⟩
  | _ => exact hI.imp id fun ha => ⟨hidle ha.idle, ha.noRoots⟩

def RootsPushed (v : Seen ScanTask (Env n)) (m : Option (Session ScanTask MainPc)) : Prop :=
  ∀ l, m = some l → ∀ k dir, v.env.unscannedDirs[k]? = some dir → l.pos.pushed k = true →
    ⟨k, dir⟩ ∈ v.pushed ∨ l.pending = some ⟨k, dir⟩

theorem MainMove.keeps_rootsPushed {x : Answer} (h : MainMove x v m (v', m')) (hI : RootsPushed v m) :
    RootsPushed v' m' := by
  cases h with
  | skip => exact hI
  | enqueue t k =>
    rintro l ⟨⟩ j dir hd hk
    left
    rcases hI _ rfl j dir hd hk with hin | hpend
    · exact List.mem_append_left _ hin
    · cases hpend
      simp
  | pushRoot k dir rest hd =>
    rintro l ⟨⟩ j dir' hd' hk
    have hjk : j < k + 1 := by simpa [MainPc.pushed] using hk
    rcases Nat.lt_succ_iff_lt_or_eq.mp hjk with hlt | rfl
    · left
      exact (hI _ rfl j dir' hd' (by simpa [MainPc.pushed] using hlt)).resolve_right (by simp)
    · right
      rw [hd] at hd'
      cases hd'
      rfl
  | rootsPushed k rest hd =>
    rintro l ⟨⟩ j dir hd' _
    apply hI _ rfl j dir hd'
    have hj : j < k := by
      have hlen := List.getElem?_eq_none_iff.mp hd
      have hjlen := (List.getElem?_eq_some_iff.mp hd').1
      omega
    simpa [MainPc.pushed] using hj
  | startRecorder rest =>
    rintro l ⟨⟩ j dir hd _
    exact hI _ rfl j dir hd rfl
  | startNotifier rest =>
    rintro l ⟨⟩ j dir hd _
    exact hI _ rfl j dir hd rfl
  | joinNotifier rest hl =>
    rintro l ⟨⟩ j dir hd hk
    cases rest with
    | none => cases hk
    | some rest => exact hI _ rfl j dir hd rfl
  | joinRecorder rest hl =>
    rintro l ⟨⟩ j dir _ hk
    cases rest with
    | none => cases hk
    | some rest => cases rest <;> cases hk
  | setTimeStart rest =>
    rintro l ⟨⟩ j dir _ hk
    simp [MainPc.pushed] at hk
  | destroy =>
    rintro l ⟨⟩
  | _ =>
    rintro l ⟨⟩ j dir _ hk
    cases hk

variable {ok : ScanState n → Thread n Client → Choice n Client Answer → Prop}

theorem rootsPushed_run {s : ScanState n} (h : ReachableBy (program n S rounds) ok s) :
    RootsPushed (scanView s).shared ((scanView s).loc (.client .main)) := by
  apply scan_invariant (I := fun w => RootsPushed w.shared (w.loc (.client .main))) .refl h
  · rintro l ⟨⟩ k dir hd _
    cases hd
  · intro u i x q _ _ hm hI
    obtain ⟨v, l'⟩ := q
    have hkeep (hd : v.env.unscannedDirs = (scanView u).shared.env.unscannedDirs)
        (hp : (scanView u).shared.pushed ⊆ v.pushed) :
        RootsPushed v ((scanView u).loc (.client .main)) := by
      intro l hl k dir hk
      rw [hd] at hk
      intro hpushed
      exact (hI l hl k dir hk hpushed).imp (fun hin => hp hin) id
    cases i with
    | worker i =>
      rw [Config.set_loc_of_ne _ (by simp)]
      obtain ⟨_, hd, _, _, _, hp⟩ := ScanMove.frame hm
      exact hkeep hd hp
    | client c =>
      cases c with
      | main =>
        rw [Config.set_loc_self]
        exact MainMove.keeps_rootsPushed hm hI
      | recorder =>
        rw [Config.set_loc_of_ne _ (by simp)]
        obtain ⟨_, _, hd, _, hp⟩ := RecorderMove.frame hm
        exact hkeep hd fun _ ht => hp ▸ ht
      | notifier =>
        rw [Config.set_loc_of_ne _ (by simp)]
        obtain ⟨_, hd, hp⟩ := NotifierMove.frame hm
        exact hkeep hd fun _ ht => hp ▸ ht
      | user u =>
        rw [Config.set_loc_of_ne _ (by simp)]
        obtain ⟨_, hd, _, _, hp⟩ := UserMove.frame hm
        exact hkeep hd fun _ ht => hp ▸ ht

/-- The steps of rounds in which nobody else calls `stop()` and every `launch()` finds the pool not
paused, or has no root to push. -/
def launchesUnpaused (s : ScanState n) (i : Thread n Client) (_ : Choice n Client Answer) : Prop :=
  byUser i = false ∧ (i = .client .main →
    (mainAt s).any (fun l => l.pos.atSetRunning) = true →
    s.shared.pool.paused = false ∨ s.shared.env.unscannedDirs = [])

instance (s : ScanState n) (i : Thread n Client) (x : Choice n Client Answer) :
    Decidable (launchesUnpaused s i x) := inferInstanceAs (Decidable (_ ∧ (_ → _ → _)))

theorem ready_run {s : ScanState n} (h : ReachableBy (program n S rounds) launchesUnpaused s) :
    Ready (scanView s).shared ∨
      AtRest (Idle s) s.shared.env ((scanView s).loc (.client .main)) := by
  refine Threads.Steps.invariant (I := fun s => Ready (scanView s).shared ∨
    AtRest (Idle s) s.shared.env ((scanView s).loc (.client .main))) h ?_ ?_
  · refine .inr ⟨initial_phases.resting ?_, ?_⟩
    · cases rounds <;> rfl
    · rintro l ⟨⟩ _
      exact ⟨rfl, rfl⟩
  · intro u i x r hu hx hr hI
    have hm := scan_move hu.any hr
    have hp := scan_phases hu
    have hview : scanView (u.set i r) = (scanView u).set i (r.1.seen, role (fun _ => .start) i r.2) :=
      view_set _ u i r
    have hidle (ht : (∃ j, i = .worker j) ∨ r.1.pool.tasks = u.shared.pool.tasks) (hi : Idle u) :
        Idle (u.set i r) := hi.step hr ht
    rw [hview]
    have hkeep (hpaused : r.1.pool.paused = u.shared.pool.paused)
        (hrun : r.1.env.running = u.shared.env.running)
        (hdirs : r.1.env.unscannedDirs = u.shared.env.unscannedDirs)
        (ht : (∃ j, i = .worker j) ∨ r.1.pool.tasks = u.shared.pool.tasks) :
        Ready r.1.seen ∨ AtRest (Idle (u.set i r)) r.1.env ((scanView u).loc (.client .main)) := by
      apply hI.imp
      · intro hready
        exact ⟨hrun.trans hready.1, hpaused.trans hready.2⟩
      · intro ha
        refine ⟨hidle ht ha.idle, ?_⟩
        rw [hdirs]
        exact ha.noRoots
    cases i with
    | worker i =>
      obtain ⟨hrun, hdirs, _, _, hpaused, _⟩ := ScanMove.frame hm
      simpa [Config.set] using hkeep hpaused hrun hdirs (.inl ⟨i, rfl⟩)
    | client c =>
      cases c with
      | main =>
        have hlaunch (l) (hl : (scanView u).loc (.client .main) = some l)
            (hk : l.pos.atSetRunning = true) : u.shared.pool.paused = false ∨
              u.shared.env.unscannedDirs = [] := hx.2 rfl (by unfold mainAt; rw [hl]; exact hk)
        simpa [Config.set] using MainMove.ready hm hp (fun ht => hidle (.inr ht)) hlaunch hI
      | recorder =>
        obtain ⟨ht, hrun, hdirs, hpaused, _⟩ := RecorderMove.frame hm
        simpa [Config.set] using hkeep hpaused hrun hdirs (.inr ht)
      | notifier =>
        simpa [Config.set] using
          NotifierMove.ready hm hp (hidle (.inr (NotifierMove.frame hm).1)) hI
      | user c => cases hx.1

def MainPc.launchDone : MainPc → Bool
  | .startRecorder _ | .startNotifier _ | .joinNotifier (some _) | .joinRecorder (some _) => true
  | _ => false

def noStop (_ : ScanState n) (i : Thread n Client) (_ : Choice n Client Answer) : Prop :=
  byUser i = false

instance (s : ScanState n) (i : Thread n Client) (x : Choice n Client Answer) :
    Decidable (noStop s i x) := inferInstanceAs (Decidable (_ = _))

def Stuck (P : Program n Client ScanTask ScanPc (Env n) Answer ClientCode) (s : ScanState n) : Prop :=
  (mainAt s).any (fun l => l.pos.launchDone) = true ∧
    s.shared.env.running = true ∧ s.shared.pool.tasks ≠ [] ∧ s.shared.pool.paused = true ∧
    ∀ t, (threads P).Steps noStop s t → t.shared.pool.paused = true

theorem relaunched_scan_runs (S : Sys) (rounds : List (List Str)) {s : ScanState n}
    (hs : ReachableBy (program n S rounds) launchesUnpaused s) :
    ¬ Stuck (program n S rounds) s ∧
    (s.shared.pool.tasks ≠ [] ∨ inFlight s ≠ 0 →
      s.shared.env.running = true ∧ s.shared.pool.paused = false) ∧
    ∀ rest, mainAt s = some ⟨.joinRecorder (some rest), none⟩ →
      inFlight s = 0 ∧ ∀ k dir, s.shared.env.unscannedDirs[k]? = some dir →
        ⟨k, dir⟩ ∈ s.shared.pool.finished := by
  have hlive : s.shared.pool.tasks ≠ [] ∨ inFlight s ≠ 0 →
      s.shared.env.running = true ∧ s.shared.pool.paused = false := by
    intro hleft
    rcases ready_run hs with hready | ha
    · exact hready
    · rcases hleft with htasks | hin
      · exact absurd ha.idle.1 htasks
      · exact absurd ha.idle.2 hin
  refine ⟨?_, hlive, ?_⟩
  · rintro ⟨_, _, htasks, hpaused, _⟩
    have hp := (hlive (.inl htasks)).2
    rw [hpaused] at hp
    cases hp
  · intro rest hm
    obtain ⟨htasks, hin⟩ : Idle s := (scan_phases hs).resting (by unfold mainAt at hm; rw [hm]; rfl)
    refine ⟨hin, ?_⟩
    intro k dir hd
    have hpushed := (rootsPushed_run hs _ hm k dir hd rfl).resolve_right (by simp)
    have hcons := ReachableBy.conserved hs
    have hmem : (⟨k, dir⟩ : ScanTask) ∈ (s.shared.pool.popped : Multiset ScanTask) := by
      have hfifo := hcons.fifo
      rw [htasks, List.append_nil] at hfifo
      rw [← hfifo]
      exact hpushed
    rw [hcons.started, hin, zero_add] at hmem
    exact hmem

def scanTwice : Program 1 Client ScanTask ScanPc (Env 1) Answer ClientCode :=
  program 1 oneExecutable [["/b/".toList], ["/a/".toList]]

def firstRound : List (Thread 1 Client × Choice 1 Client Answer) :=
  scanSteps (.client .main) 14 ++ scanSteps (.worker 0) 21 ++ scanSteps (.client .notifier) 5 ++
    scanSteps (.client .recorder) 3

theorem relaunched_scan_runs_scanTwice : ∃ s, ReachableBy scanTwice launchesUnpaused s ∧
    ¬ Stuck scanTwice s ∧ ⟨0, "/b/".toList⟩ ∈ s.shared.pool.finished := by
  have h : ((threads scanTwice).run launchesUnpaused (initial scanTwice)
      (firstRound ++ scanSteps (.client .main) 1)).map (fun s => decide
        (mainAt s = some ⟨.joinRecorder (some [["/a/".toList]]), none⟩ ∧
          s.shared.env.unscannedDirs[0]? = some "/b/".toList)) = some true := by decide
  obtain ⟨s, hs, hp⟩ := Threads.exists_steps_of_run h
  obtain ⟨hm, hd⟩ := of_decide_eq_true hp
  obtain ⟨hstuck, _, hroots⟩ := relaunched_scan_runs oneExecutable _ hs
  exact ⟨s, hs, hstuck, (hroots _ hm).2 0 _ hd⟩

theorem second_launch_stuck : ∃ s, ReachableBy scanTwice noStop s ∧ Stuck scanTwice s := by
  have h : ((threads scanTwice).run noStop (initial scanTwice)
      (firstRound ++ scanSteps (.client .main) 22)).map (fun s => decide
        ((mainAt s).any (fun l => l.pos.launchDone) = true ∧
          s.shared.env.running = true ∧ s.shared.pool.tasks ≠ [] ∧ s.shared.pool.paused = true)) =
            some true := by decide
  obtain ⟨s, hs, hp⟩ := Threads.exists_steps_of_run h
  obtain ⟨hm, hrun, htasks, hpaused⟩ := of_decide_eq_true hp
  refine ⟨s, hs, hm, hrun, htasks, hpaused, ?_⟩
  intro t ht
  exact paused_run hpaused (ht.mono fun u i x _ => scan_noUnpause u i x)

end SysUtils.Scan

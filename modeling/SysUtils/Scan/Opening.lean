import SysUtils.Scan.Rounds

namespace SysUtils.Scan

open Interleaving ThreadPool

variable {n : ℕ} {S : Sys} {roots : List Str}
variable {v v' : Seen ScanTask (Env n)} {m m' : Option (Session ScanTask MainPc)}

def undisturbed (_ : ScanState n) (i : Thread n Client) (x : Choice n Client Answer) : Prop :=
  byUser i = false ∧ x.code.throws = false

instance (s : ScanState n) (i : Thread n Client) (x : Choice n Client Answer) :
    Decidable (undisturbed s i x) := inferInstanceAs (Decidable (_ ∧ _))

def MainPc.toAdd : MainPc → List Str
  | .addPaths paths _ => paths
  | _ => []

def MainPc.opening : MainPc → Bool
  | .addPaths _ _ | .setRunning _ | .setFileCounts _ => true
  | _ => false

theorem MainPc.off_of_opening {k : MainPc} (h : k.opening = true) :
    k.notifierOff = true ∧ k.resting = true := by
  cases k <;> first | exact ⟨rfl, rfl⟩ | cases h

structure Opening (roots : List Str) (v : Seen ScanTask (Env n))
    (m : Option (Session ScanTask MainPc)) : Prop where
  dirs : v.env.unscannedDirs ++ m.elim [] (fun l => l.pos.toAdd) = roots
  fresh : ∀ l, m = some l → l.pos.opening = true → v.paused = false ∧ v.env.fileCounts = 0

theorem nextRound_of_lastRound {rest : Option (List (List Str))}
    (h : MainPc.lastRound (.joinRecorder rest) = true) :
    rest.elim .destroy nextRound = .destroy ∨ rest.elim .destroy nextRound = .joinNotifier none := by
  cases rest with
  | none => exact .inl rfl
  | some rest =>
    cases rest with
    | nil => exact .inr rfl
    | cons paths rest => cases h

theorem MainMove.keeps_opening {x : Answer} (h : MainMove x v m (v', m'))
    (hlast : ofMain MainPc.lastRound m = true) (ho : Opening roots v m) : Opening roots v' m' := by
  cases h with
  | skip => exact ho
  | enqueue t k =>
    refine ⟨ho.dirs, ?_⟩
    rintro l ⟨⟩ hk
    exact ho.fresh _ rfl hk
  | addPath p paths rest =>
    refine ⟨by simpa [MainPc.toAdd] using ho.dirs, ?_⟩
    rintro l ⟨⟩ _
    exact ho.fresh _ rfl rfl
  | launch rest =>
    refine ⟨ho.dirs, ?_⟩
    rintro l ⟨⟩ _
    exact ho.fresh _ rfl rfl
  | setRunning rest =>
    refine ⟨ho.dirs, ?_⟩
    rintro l ⟨⟩ _
    exact ho.fresh _ rfl rfl
  | joinRecorder rest hl =>
    rcases nextRound_of_lastRound hlast with hnext | hnext
    all_goals
      rw [hnext]
      refine ⟨ho.dirs, ?_⟩
      rintro l ⟨⟩ hk
      cases hk
  | destroy => exact ⟨ho.dirs, by simp⟩
  | _ =>
    refine ⟨ho.dirs, ?_⟩
    rintro l ⟨⟩ hk
    cases hk

theorem Opening.congr (h : Opening roots v m) (hd : v'.env.unscannedDirs = v.env.unscannedDirs)
    (hfresh : ∀ l, m = some l → l.pos.opening = true →
      v'.paused = v.paused ∧ v'.env.fileCounts = v.env.fileCounts) : Opening roots v' m := by
  refine ⟨hd ▸ h.dirs, ?_⟩
  intro l hl hk
  obtain ⟨hp, hc⟩ := hfresh l hl hk
  rw [hp, hc]
  exact h.fresh l hl hk

theorem ScanMove.of_none {i : Fin n} {x : Answer} {j : Option (Job ScanTask ScanPc)}
    (h : ScanMove S i x v none (v', j)) : v'.env = v.env := by
  cases h <;> rfl

theorem RecorderMove.fileCounts {r r' : Option (Session ScanTask Recorder)}
    (h : RecorderMove v r (v', r')) : v'.env.fileCounts = v.env.fileCounts := by
  cases h <;> rfl

theorem NotifierMove.fileCounts {count : ℕ} {f f' : Option (Session ScanTask NotifierPc)}
    (h : NotifierMove count v f (v', f')) (hf : ∀ l, f = some l → l.pos = .idle) :
    v'.paused = v.paused ∧ v'.env.fileCounts = v.env.fileCounts := by
  cases h with
  | stopPause => cases hf _ rfl
  | _ => exact ⟨rfl, rfl⟩

theorem opening_run {s : ScanState n} (h : ReachableBy (program n S [roots]) undisturbed s) :
    Opening roots (scanView s).shared ((scanView s).loc (.client .main)) := by
  apply scan_invariant (I := fun w => Opening roots w.shared (w.loc (.client .main))) .refl h
  · exact ⟨rfl, fun _ _ _ => ⟨rfl, rfl⟩⟩
  · intro u i x q hu hx hm hI
    obtain ⟨v, l'⟩ := q
    have hp := scan_phases hu
    cases i with
    | worker i =>
      rw [Config.set_loc_of_ne _ (by simp)]
      obtain ⟨_, hd, _, _, hpaused, _⟩ := ScanMove.frame hm
      apply hI.congr hd
      intro l hl hk
      have hidle : Idle u := hp.resting (by rw [hl]; exact (MainPc.off_of_opening hk).2)
      have hnone : (scanView u).loc (.worker i) = none := hidle.job _ i
      rw [hnone] at hm
      exact ⟨hpaused, congrArg Env.fileCounts (ScanMove.of_none hm)⟩
    | client c =>
      cases c with
      | main =>
        rw [Config.set_loc_self]
        exact MainMove.keeps_opening hm (lastRound_run hu) hI
      | recorder =>
        rw [Config.set_loc_of_ne _ (by simp)]
        obtain ⟨_, _, hd, hpaused, _⟩ := RecorderMove.frame hm
        exact hI.congr hd fun _ _ _ => ⟨hpaused, RecorderMove.fileCounts hm⟩
      | notifier =>
        rw [Config.set_loc_of_ne _ (by simp)]
        apply hI.congr (NotifierMove.frame hm).2.1
        intro l hl hk
        apply NotifierMove.fileCounts hm
        exact (hp.noNotifier (by rw [hl]; exact (MainPc.off_of_opening hk).1)).2
      | user u => cases hx.1

theorem launchesUnpaused_run {s : ScanState n} (h : ReachableBy (program n S [roots]) undisturbed s) :
    ReachableBy (program n S [roots]) launchesUnpaused s := by
  apply Threads.Steps.strengthen h
  intro u i x hu hx _
  refine ⟨hx.1, ?_⟩
  intro _ hm
  left
  have ho := opening_run hu
  unfold mainAt at hm
  cases hl : (scanView u).loc (.client .main) with
  | none =>
    rw [hl] at hm
    cases hm
  | some l =>
    rw [hl] at hm
    have hk : l.pos.opening = true := by
      cases hpos : l.pos <;> simp_all [MainPc.atSetRunning, MainPc.opening]
    exact (ho.fresh l hl hk).1

theorem idle_of_notRunning {s : ScanState n} (h : ReachableBy (program n S [roots]) undisturbed s)
    (hr : s.shared.env.running = false) : Idle s := by
  rcases ready_run (launchesUnpaused_run h) with hready | ha
  · have hrun : s.shared.env.running = true := hready.1
    simp [hr] at hrun
  · exact ha.idle

theorem running_of_job {s : ScanState n} (h : ReachableBy (program n S [roots]) undisturbed s)
    {i : Fin n} (hj : (scanView s).loc (.worker i) ≠ none) : (scanView s).shared.env.running = true := by
  cases hr : (scanView s).shared.env.running with
  | true => rfl
  | false => exact absurd ((idle_of_notRunning h hr).job _ i) hj

end SysUtils.Scan

import SysUtils.Scan.Phases

namespace SysUtils.Scan

open Interleaving ThreadPool

variable {n : ℕ} {S : Sys} {rounds : List (List Str)}
variable {v v' : Seen ScanTask (Env n)} {m m' : Option (Session ScanTask MainPc)}
  {r r' : Option (Session ScanTask Recorder)}

def MainPc.lastRound : MainPc → Bool
  | .addPaths _ rest | .setRunning rest | .setFileCounts rest | .setTimeStart rest
  | .pushRoots _ rest | .startRecorder rest | .startNotifier rest => rest.isEmpty
  | .joinNotifier rest | .joinRecorder rest => rest.all List.isEmpty
  | .destroy => true

def MainPc.launched : MainPc → Bool
  | .startNotifier rest => rest.isEmpty
  | .joinNotifier rest | .joinRecorder rest => rest.all List.isEmpty
  | .destroy => true
  | _ => false

theorem ofMain_elim_nextRound {rest : Option (List (List Str))} (h : rest.all List.isEmpty = true) :
    ofMain MainPc.launched (some ⟨rest.elim .destroy nextRound, none⟩) = true := by
  cases rest with
  | none => rfl
  | some rest =>
    cases rest with
    | nil => rfl
    | cons paths rest => cases h

theorem MainMove.launched {x : Answer} (h : MainMove x v m (v', m'))
    (hm : ofMain MainPc.launched m = true) : ofMain MainPc.launched m' = true ∧
      v'.env.running = v.env.running ∧ (v.env.dbRecorder ≠ .running → v'.env.dbRecorder ≠ .running) := by
  cases h with
  | skip => exact ⟨hm, rfl, id⟩
  | enqueue t k => exact ⟨hm, rfl, id⟩
  | startNotifier rest => exact ⟨hm, rfl, id⟩
  | joinNotifier rest hl => exact ⟨hm, rfl, id⟩
  | joinRecorder rest hl => exact ⟨ofMain_elim_nextRound hm, rfl, fun _ => by simp⟩
  | destroy => exact ⟨rfl, rfl, id⟩
  | _ => cases hm

theorem ofMain_lastRound_of_launched {m : Option (Session ScanTask MainPc)}
    (h : ofMain MainPc.launched m = true) : ofMain MainPc.lastRound m = true := by
  cases m with
  | none => rfl
  | some l =>
    obtain ⟨k, p⟩ := l
    cases k <;> first | exact h | cases h

theorem MainMove.lastRound {x : Answer} (h : MainMove x v m (v', m'))
    (hm : ofMain MainPc.lastRound m = true) : ofMain MainPc.lastRound m' = true := by
  cases h with
  | joinRecorder rest hl => exact ofMain_lastRound_of_launched (ofMain_elim_nextRound hm)
  | destroy => rfl
  | _ => exact hm

theorem ofMain_launched {m : Option (Session ScanTask MainPc)}
    (hr : ofMain MainPc.recorderOff m = false) (hm : ofMain MainPc.lastRound m = true) :
    ofMain MainPc.launched m = true := by
  cases m with
  | none => cases hr
  | some l =>
    obtain ⟨k, p⟩ := l
    cases k <;> first | exact hm | cases hr

theorem lastRound_run {ok : ScanState n → Thread n Client → Choice n Client Answer → Prop}
    {roots : List Str} {s : ScanState n} (h : ReachableBy (program n S [roots]) ok s) :
    ofMain MainPc.lastRound ((scanView s).loc (.client .main)) = true := by
  refine scan_invariant (I := fun w => ofMain MainPc.lastRound (w.loc (.client .main)) = true)
    .refl h rfl ?_
  intro u i x q _ _ hm hI
  by_cases hi : Thread.client Client.main = i
  · subst hi
    rw [Config.set_loc_self]
    exact MainMove.lastRound hm hI
  · rw [Config.set_loc_of_ne _ hi]
    exact hI

structure Accounted (e : Env n) (l : Recorder) : Prop where
  appended : e.appended = e.drained ++ l.localFileInfos ++ e.fileInfos
  swapped : l.pc ≠ .unlock → l.pc ≠ .clear → l.localFileInfos = []
  stopped : l.pc = .ifEmpty → e.running = false

theorem Accounted.append {e : Env n} {l : Recorder} (h : Accounted e l) (o : Option FileInfo) :
    Accounted (e.append o) l :=
  ⟨by simp [Env.append, h.appended], h.swapped, h.stopped⟩

theorem ScanMove.accounted {i : Fin n} {x : Answer} {j j' : Option (Job ScanTask ScanPc)} {l : Recorder}
    (h : ScanMove S i x v j (v', j')) (ha : Accounted v.env l) : Accounted v'.env l := by
  cases h with
  | checkFile t f files symbols =>
    have h := ha.append (fileChecker S x.stale f)
    exact ⟨h.appended, h.swapped, h.stopped⟩
  | reloadSymbol t p symbols =>
    have h := ha.append (symbolReloader S x.stale p)
    exact ⟨h.appended, h.swapped, h.stopped⟩
  | _ => exact ⟨ha.appended, ha.swapped, ha.stopped⟩

theorem MainMove.accounted {x : Answer} {l : Recorder} (h : MainMove x v m (v', m'))
    (ha : Accounted v.env l) (hoff : ofMain MainPc.recorderOff m = true → l.pc = .idle) :
    Accounted v'.env l := by
  cases h with
  | setRunning rest =>
    refine ⟨ha.appended, ha.swapped, ?_⟩
    intro hl
    rw [hoff rfl] at hl
    cases hl
  | _ => exact ⟨ha.appended, ha.swapped, ha.stopped⟩

theorem RecorderMove.accounted (h : RecorderMove v r (v', r'))
    (ha : ∀ l, r = some l → Accounted v.env l.pos) : ∀ l, r' = some l → Accounted v'.env l.pos := by
  cases h with
  | skip => exact ha
  | begin infos hl =>
    rintro l ⟨⟩
    have h := ha _ rfl
    have hi : infos = [] := h.swapped (by simp) (by simp)
    subst hi
    exact ⟨h.appended, fun _ _ => rfl, by simp⟩
  | notRunning infos hr =>
    rintro l ⟨⟩
    have h := ha _ rfl
    exact ⟨h.appended, fun _ _ => h.swapped (by simp) (by simp), fun _ => hr⟩
  | «return» infos he =>
    rintro l ⟨⟩
    have h := ha _ rfl
    have hi : infos = [] := h.swapped (by simp) (by simp)
    subst hi
    exact ⟨h.appended, fun _ _ => rfl, by simp⟩
  | swap infos =>
    rintro l ⟨⟩
    have h := ha _ rfl
    have hi : infos = [] := h.swapped (by simp) (by simp)
    subst hi
    exact ⟨by simpa using h.appended, by simp, by simp⟩
  | unlock infos =>
    rintro l ⟨⟩
    exact ⟨(ha _ rfl).appended, by simp, by simp⟩
  | clear infos =>
    rintro l ⟨⟩
    exact ⟨by simpa using (ha _ rfl).appended, fun _ _ => rfl, by simp⟩
  | _ =>
    rintro l ⟨⟩
    have h := ha _ rfl
    exact ⟨h.appended, fun _ _ => h.swapped (by simp) (by simp), by simp⟩

structure InfosKept (e e' : Env n) : Prop where
  fileInfos : e'.fileInfos = e.fileInfos
  appended : e'.appended = e.appended
  drained : e'.drained = e.drained
  dbRecorder : e'.dbRecorder = e.dbRecorder
  running : e.running = false → e'.running = false

theorem NotifierMove.infosKept {count : ℕ} {f f' : Option (Session ScanTask NotifierPc)}
    (h : NotifierMove count v f (v', f')) : InfosKept v.env v'.env := by
  cases h <;> first
    | exact ⟨rfl, rfl, rfl, rfl, id⟩
    | exact ⟨rfl, rfl, rfl, rfl, fun _ => rfl⟩

theorem UserMove.infosKept {g g' : Option (Session ScanTask UserPc)} (h : UserMove v g (v', g')) :
    InfosKept v.env v'.env := by
  cases h <;> first
    | exact ⟨rfl, rfl, rfl, rfl, id⟩
    | exact ⟨rfl, rfl, rfl, rfl, fun _ => rfl⟩

theorem Accounted.of_kept {e e' : Env n} {l : Recorder} (h : Accounted e l) (hk : InfosKept e e') :
    Accounted e' l :=
  ⟨by rw [hk.appended, hk.drained, hk.fileInfos, h.appended], h.swapped,
    fun hl => hk.running (h.stopped hl)⟩

theorem accounted_run {ok : ScanState n → Thread n Client → Choice n Client Answer → Prop}
    {s : ScanState n} (h : ReachableBy (program n S rounds) ok s) :
    ∀ l, (scanView s).loc (.client .recorder) = some l → Accounted (scanView s).shared.env l.pos := by
  refine scan_invariant (I := fun w => ∀ l, w.loc (.client .recorder) = some l →
    Accounted w.shared.env l.pos) .refl h ?_ ?_
  · rintro l ⟨⟩
    exact ⟨rfl, fun _ _ => rfl, fun _ => rfl⟩
  · intro u i x q hu _ hm hI l hl
    obtain ⟨v, l'⟩ := q
    cases i with
    | worker i =>
      rw [Config.set_loc_of_ne _ (by simp)] at hl
      exact ScanMove.accounted hm (hI l hl)
    | client c =>
      cases c with
      | main =>
        rw [Config.set_loc_of_ne _ (by simp)] at hl
        apply MainMove.accounted hm (hI l hl)
        intro hoff
        by_contra hne
        have hp := scan_phases hu
        have hrun := hp.recorderIdle l hl hne
        rw [hp.recorderOff.mp hoff] at hrun
        cases hrun
      | recorder =>
        rw [Config.set_loc_self] at hl
        exact RecorderMove.accounted hm hI l hl
      | notifier =>
        rw [Config.set_loc_of_ne _ (by simp)] at hl
        exact (hI l hl).of_kept (NotifierMove.infosKept hm)
      | user u =>
        rw [Config.set_loc_of_ne _ (by simp)] at hl
        exact (hI l hl).of_kept (UserMove.infosKept hm)

end SysUtils.Scan

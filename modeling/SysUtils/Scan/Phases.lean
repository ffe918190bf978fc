import SysUtils.Scan.Inversion

namespace SysUtils.Scan

open Interleaving ThreadPool

variable {n : ℕ} {S : Sys} {rounds : List (List Str)}

def MainPc.recorderOff : MainPc → Bool
  | .startNotifier _ | .joinNotifier (some _) | .joinRecorder (some _) => false
  | _ => true

def MainPc.notifierOff : MainPc → Bool
  | .joinNotifier (some _) => false
  | _ => true

def MainPc.resting : MainPc → Bool
  | .addPaths _ _ | .setRunning _ | .setFileCounts _ | .setTimeStart _ | .joinRecorder _
  | .joinNotifier none | .destroy => true
  | _ => false

def MainPc.pushing : MainPc → Bool
  | .pushRoots _ _ => true
  | _ => false

def ofMain (p : MainPc → Bool) (m : Option (Session ScanTask MainPc)) : Bool :=
  m.elim true fun l => p l.pos

def NotifierPc.past : NotifierPc → Bool
  | .stopRunning | .stopPause | .scanOver => true
  | .idle | .whileNotOver | .sleep => false

structure Phases (idle : Prop) (e : Env n) (m : Option (Session ScanTask MainPc))
    (r : Option (Session ScanTask Recorder)) (f : Option (Session ScanTask NotifierPc)) : Prop where
  pending : ∀ k t, m = some ⟨k, some t⟩ → k.pushing = true
  recorderOff : ofMain MainPc.recorderOff m = true ↔ e.dbRecorder = .notJoinable
  notifierOff : ofMain MainPc.notifierOff m = true ↔ e.notifier = .notJoinable
  recorderIdle : ∀ l, r = some l → l.pos.pc ≠ .idle → e.dbRecorder = .running
  notifierIdle : ∀ l, f = some l → l.pos ≠ .idle → e.notifier = .running
  past : ∀ l, f = some l → l.pos.past = true → idle
  finished : e.notifier = .finished → idle
  resting : ofMain MainPc.resting m = true → idle

variable {v v' : Seen ScanTask (Env n)} {idle idle' : Prop}
variable {m m' : Option (Session ScanTask MainPc)} {r r' : Option (Session ScanTask Recorder)}
  {f f' : Option (Session ScanTask NotifierPc)}

theorem ofMain_nextRound (rest : Option (List (List Str))) :
    ofMain MainPc.recorderOff (some ⟨rest.elim .destroy nextRound, none⟩) = true ∧
      ofMain MainPc.notifierOff (some ⟨rest.elim .destroy nextRound, none⟩) = true := by
  cases rest with
  | none => exact ⟨rfl, rfl⟩
  | some rest => cases rest <;> exact ⟨rfl, rfl⟩

theorem ofMain_pushing {k : MainPc} (h : k.pushing = true) :
    k.recorderOff = true ∧ k.notifierOff = true ∧ k.resting = false := by
  cases k <;> simp_all [MainPc.pushing, MainPc.recorderOff, MainPc.notifierOff, MainPc.resting]

theorem NotifierPc.ne_idle_of_past {k : NotifierPc} (h : k.past = true) : k ≠ .idle := by
  intro hk
  simp [hk, NotifierPc.past] at h

theorem Phases.noNotifier {e : Env n} (h : Phases idle e m r f) (hm : ofMain MainPc.notifierOff m = true) :
    e.notifier ≠ .finished ∧ ∀ l, f = some l → l.pos = .idle := by
  have hn := h.notifierOff.mp hm
  refine ⟨by simp [hn], ?_⟩
  intro l hl
  by_contra hne
  exact absurd (h.notifierIdle l hl hne) (by simp [hn])

theorem Phases.advance {e e' : Env n} (hp : Phases idle e m r f) (hidle : idle → idle')
    (hd : e'.dbRecorder = e.dbRecorder) (hn : e'.notifier = e.notifier)
    (hrec : ofMain MainPc.recorderOff m' = ofMain MainPc.recorderOff m)
    (hnot : ofMain MainPc.notifierOff m' = ofMain MainPc.notifierOff m)
    (hpend : ∀ k t, m' = some ⟨k, some t⟩ → k.pushing = true)
    (hrest : ofMain MainPc.resting m' = true → idle) : Phases idle' e' m' r f := by
  refine ⟨hpend, ?_, ?_, ?_, ?_, fun l hl hk => hidle (hp.past l hl hk), ?_, fun hm => hidle (hrest hm)⟩
  · rw [hrec, hd]
    exact hp.recorderOff
  · rw [hnot, hn]
    exact hp.notifierOff
  · rw [hd]
    exact hp.recorderIdle
  · rw [hn]
    exact hp.notifierIdle
  · rw [hn]
    exact fun hf => hidle (hp.finished hf)

theorem MainMove.phases {x : Answer} (h : MainMove x v m (v', m')) (hp : Phases idle v.env m r f)
    (hidle : v'.tasks = v.tasks → idle → idle') : Phases idle' v'.env m' r f := by
  cases h with
  | skip l => exact hp.advance (hidle rfl) rfl rfl rfl rfl hp.pending hp.resting
  | enqueue t k =>
    obtain ⟨_, hn, hk⟩ := ofMain_pushing (hp.pending k t rfl)
    obtain ⟨hf, hidle⟩ := hp.noNotifier hn
    refine ⟨by simp, hp.recorderOff, hp.notifierOff, hp.recorderIdle, hp.notifierIdle, ?_, ?_, ?_⟩
    · intro l hl hpast
      exact absurd (hidle l hl) (NotifierPc.ne_idle_of_past hpast)
    · intro hfin
      exact absurd hfin hf
    · intro hm
      simp [ofMain, hk] at hm
  | addPath p paths rest =>
    exact hp.advance (hidle rfl) rfl rfl rfl rfl (by simp) fun _ => hp.resting rfl
  | launch rest => exact hp.advance (hidle rfl) rfl rfl rfl rfl (by simp) fun _ => hp.resting rfl
  | setRunning rest => exact hp.advance (hidle rfl) rfl rfl rfl rfl (by simp) fun _ => hp.resting rfl
  | setFileCounts rest =>
    exact hp.advance (hidle rfl) rfl rfl rfl rfl (by simp) fun _ => hp.resting rfl
  | startRecorder rest =>
    have hi := hidle rfl
    exact ⟨by simp, by simp [ofMain, MainPc.recorderOff], hp.notifierOff, fun _ _ _ => rfl,
      hp.notifierIdle, fun l hl hk => hi (hp.past l hl hk), fun hf => hi (hp.finished hf),
      by simp [ofMain, MainPc.resting]⟩
  | startNotifier rest =>
    have hi := hidle rfl
    exact ⟨by simp, hp.recorderOff, by simp [ofMain, MainPc.notifierOff], hp.recorderIdle,
      fun _ _ _ => rfl, fun l hl hk => hi (hp.past l hl hk), by simp, by simp [ofMain, MainPc.resting]⟩
  | joinNotifier rest hl =>
    have hi := hidle rfl
    have hresting : idle := by
      cases rest with
      | none => exact hp.resting rfl
      | some rest =>
        apply hp.finished
        have hoff := hp.notifierOff
        cases hn : v.env.notifier <;> simp_all [ofMain, MainPc.notifierOff]
    have hoff : ∀ l, f = some l → l.pos = .idle := by
      intro l hf
      by_contra hne
      exact hl (hp.notifierIdle l hf hne)
    refine ⟨by simp, ?_, by simp [ofMain, MainPc.notifierOff], hp.recorderIdle, ?_,
      fun l hl hk => hi (hp.past l hl hk), by simp, fun _ => hi hresting⟩
    · cases rest <;> exact hp.recorderOff
    · intro l hf hne
      exact absurd (hoff l hf) hne
  | joinRecorder rest hl =>
    have hi := hidle rfl
    obtain ⟨hr, hn⟩ := ofMain_nextRound rest
    have hoff : ∀ l, r = some l → l.pos.pc = .idle := by
      intro l hf
      by_contra hne
      exact hl (hp.recorderIdle l hf hne)
    refine ⟨by simp, by simp [hr], ?_, ?_, hp.notifierIdle, fun l hl hk => hi (hp.past l hl hk),
      fun hf => hi (hp.finished hf), fun _ => hi (hp.resting rfl)⟩
    · exact ⟨fun _ => hp.notifierOff.mp rfl, fun _ => hn⟩
    · intro l hf hne
      exact absurd (hoff l hf) hne
  | destroy => exact hp.advance (hidle rfl) rfl rfl rfl rfl (by simp) fun _ => hp.resting rfl
  | _ =>
    exact hp.advance (hidle rfl) rfl rfl rfl rfl (by simp [MainPc.pushing])
      (by simp [ofMain, MainPc.resting])

theorem RecorderMove.phases (h : RecorderMove v r (v', r')) (hp : Phases idle v.env m r f)
    (hidle : idle → idle') : Phases idle' v'.env m r' f := by
  have hrun (l : Session ScanTask Recorder) (hl : r = some l) (hk : l.pos.pc ≠ .idle) :
      v.env.dbRecorder = .running := hp.recorderIdle l hl hk
  cases h with
  | skip l =>
    exact ⟨hp.pending, hp.recorderOff, hp.notifierOff, hp.recorderIdle, hp.notifierIdle,
      fun l hl hk => hidle (hp.past l hl hk), fun hf => hidle (hp.finished hf),
      fun hm => hidle (hp.resting hm)⟩
  | begin infos hl =>
    refine ⟨hp.pending, hp.recorderOff, hp.notifierOff, ?_, hp.notifierIdle,
      fun l hl hk => hidle (hp.past l hl hk), fun hf => hidle (hp.finished hf),
      fun hm => hidle (hp.resting hm)⟩
    rintro l ⟨⟩ _
    exact hl
  | «return» infos he =>
    refine ⟨hp.pending, ?_, hp.notifierOff, ?_, hp.notifierIdle,
      fun l hl hk => hidle (hp.past l hl hk), fun hf => hidle (hp.finished hf),
      fun hm => hidle (hp.resting hm)⟩
    · rw [hp.recorderOff, hrun _ rfl (by simp)]
      simp
    · rintro l ⟨⟩ hne
      exact absurd rfl hne
  | _ =>
    refine ⟨hp.pending, hp.recorderOff, hp.notifierOff, ?_, hp.notifierIdle,
      fun l hl hk => hidle (hp.past l hl hk), fun hf => hidle (hp.finished hf),
      fun hm => hidle (hp.resting hm)⟩
    rintro l ⟨⟩ _
    exact hrun _ rfl (by simp)

theorem Phases.notify {e : Env n} (hp : Phases idle e m r f) (hidle : idle → idle')
    (hrun : ∀ l, f' = some l → l.pos ≠ .idle → e.notifier = .running)
    (hpast : ∀ l, f' = some l → l.pos.past = true → idle) : Phases idle' e m r f' :=
  ⟨hp.pending, hp.recorderOff, hp.notifierOff, hp.recorderIdle, hrun,
    fun l hl hk => hidle (hpast l hl hk), fun hf => hidle (hp.finished hf), fun hm => hidle (hp.resting hm)⟩

theorem NotifierMove.phases {count : ℕ} (h : NotifierMove count v f (v', f'))
    (hp : Phases idle v.env m r f) (hidle : idle → idle')
    (hcount : ∀ l, f = some l → l.pos ≠ .idle → count = 0 → idle) :
    Phases idle' v'.env m r f' := by
  have hrun (l : Session ScanTask NotifierPc) (hl : f = some l) (hk : l.pos ≠ .idle) :
      v.env.notifier = .running := hp.notifierIdle l hl hk
  cases h with
  | skip l => exact hp.notify hidle hp.notifierIdle hp.past
  | begin hl =>
    apply hp.notify hidle (fun _ _ _ => hl)
    rintro l ⟨⟩ hk
    cases hk
  | scanOver h0 =>
    exact hp.notify hidle (fun _ _ _ => hrun _ rfl (by simp)) fun _ _ _ => hcount _ rfl (by simp) h0
  | «return» =>
    refine ⟨hp.pending, hp.recorderOff, ?_, hp.recorderIdle, ?_, ?_, fun _ => hidle (hp.past _ rfl rfl),
      fun hm => hidle (hp.resting hm)⟩
    · rw [hp.notifierOff, hrun _ rfl (by simp)]
      simp
    · rintro l ⟨⟩ hne
      exact absurd rfl hne
    · rintro l ⟨⟩ hk
      cases hk
  | notOver =>
    apply hp.notify hidle (fun _ _ _ => hrun _ rfl (by simp))
    rintro l ⟨⟩ hk
    cases hk
  | sleep =>
    apply hp.notify hidle (fun _ _ _ => hrun _ rfl (by simp))
    rintro l ⟨⟩ hk
    cases hk
  | stopRunning =>
    have hold : Phases idle' v.env m r (some ⟨.stopPause, none⟩) :=
      hp.notify hidle (fun _ _ _ => hrun _ rfl (by simp)) fun _ _ _ => hp.past _ rfl rfl
    exact hold.advance id rfl rfl rfl rfl hold.pending hold.resting
  | stopPause =>
    exact hp.notify hidle (fun _ _ _ => hrun _ rfl (by simp)) fun _ _ _ => hp.past _ rfl rfl

theorem ScanMove.frame {i : Fin n} {x : Answer} {j j' : Option (Job ScanTask ScanPc)}
    (h : ScanMove S i x v j (v', j')) : v'.env.running = v.env.running ∧
      v'.env.unscannedDirs = v.env.unscannedDirs ∧ v'.env.dbRecorder = v.env.dbRecorder ∧
      v'.env.notifier = v.env.notifier ∧ v'.paused = v.paused ∧ v.pushed ⊆ v'.pushed := by
  cases h with
  | enqueue t t' k => exact ⟨rfl, rfl, rfl, rfl, rfl, List.subset_append_left _ _⟩
  | _ => exact ⟨rfl, rfl, rfl, rfl, rfl, List.Subset.refl _⟩

theorem RecorderMove.frame (h : RecorderMove v r (v', r')) : v'.tasks = v.tasks ∧
    v'.env.running = v.env.running ∧ v'.env.unscannedDirs = v.env.unscannedDirs ∧
    v'.paused = v.paused ∧ v'.pushed = v.pushed := by
  cases h <;> exact ⟨rfl, rfl, rfl, rfl, rfl⟩

theorem NotifierMove.frame {count : ℕ} (h : NotifierMove count v f (v', f')) : v'.tasks = v.tasks ∧
    v'.env.unscannedDirs = v.env.unscannedDirs ∧ v'.pushed = v.pushed := by
  cases h <;> exact ⟨rfl, rfl, rfl⟩

theorem UserMove.frame {g g' : Option (Session ScanTask UserPc)} (h : UserMove v g (v', g')) :
    v'.tasks = v.tasks ∧ v'.env.unscannedDirs = v.env.unscannedDirs ∧
    v'.env.dbRecorder = v.env.dbRecorder ∧ v'.env.notifier = v.env.notifier ∧ v'.pushed = v.pushed := by
  cases h <;> exact ⟨rfl, rfl, rfl, rfl, rfl⟩

def mainAt (s : ScanState n) : Option (Session ScanTask MainPc) := (scanView s).loc (.client .main)

def PhasesOf (s : ScanState n) : Prop :=
  Phases (Idle s) s.shared.env ((scanView s).loc (.client .main)) ((scanView s).loc (.client .recorder))
    ((scanView s).loc (.client .notifier))

variable {ok : ScanState n → Thread n Client → Choice n Client Answer → Prop}

theorem idle_of_notifier {s : ScanState n} (h : ReachableBy (program n S rounds) ok s)
    (hp : PhasesOf s) (h0 : s.shared.pool.tasksTotal = 0) {l : Session ScanTask NotifierPc}
    (hl : (scanView s).loc (.client .notifier) = some l) (hne : l.pos ≠ .idle) : Idle s := by
  apply ReachableBy.idle_of_count h h0
  intro c t pc k hs
  obtain ⟨j, rest, rfl, hk⟩ := pushes_iff (ReachableBy.pushes h hs)
  cases hk
  have hm : (scanView s).loc (.client .main) = some ⟨.pushRoots (j + 1) rest, pc.pending t⟩ := by
    change ClientPc.session (s.loc (.client .main)) = _
    rw [hs]
    rfl
  exact hne ((hp.noNotifier (by rw [hm]; rfl)).2 l hl)

theorem initial_phases : PhasesOf (initial (program n S rounds)) := by
  have hidle : Idle (initial (program n S rounds)) := by
    refine ⟨rfl, ?_⟩
    simp [initial, inFlight, total, inFlightAt, WorkerPc.inFlight]
  obtain ⟨hr, hn⟩ := ofMain_nextRound (some rounds)
  refine ⟨?_, ⟨fun _ => rfl, fun _ => hr⟩, ⟨fun _ => rfl, fun _ => hn⟩, ?_, ?_, ?_, fun _ => hidle,
    fun _ => hidle⟩
  · rintro k t ⟨⟩
  · rintro l ⟨⟩ hne
    exact absurd rfl hne
  · rintro l ⟨⟩ hne
    exact absurd rfl hne
  · rintro l ⟨⟩ hk
    cases hk

theorem scan_phases {s : ScanState n} (h : ReachableBy (program n S rounds) ok s) : PhasesOf s := by
  apply Threads.Steps.invariant (I := PhasesOf) h initial_phases
  intro u i x r hu _ hr hI
  have hm := scan_move hu.any hr
  have hview : scanView (u.set i r) = (scanView u).set i (r.1.seen, role (fun _ => .start) i r.2) :=
    view_set _ u i r
  have hidle (ht : (∃ j, i = .worker j) ∨ r.1.pool.tasks = u.shared.pool.tasks) (hi : Idle u) :
      Idle (u.set i r) := hi.step hr ht
  unfold PhasesOf at hI ⊢
  rw [hview]
  cases i with
  | worker i =>
    obtain ⟨_, _, hd, hn, _⟩ := ScanMove.frame hm
    simpa [Config.set] using hI.advance (hidle (.inl ⟨i, rfl⟩)) hd hn rfl rfl hI.pending hI.resting
  | client c =>
    cases c with
    | main => simpa [Config.set] using MainMove.phases hm hI fun ht => hidle (.inr ht)
    | recorder =>
      simpa [Config.set] using RecorderMove.phases hm hI (hidle (.inr (RecorderMove.frame hm).1))
    | notifier =>
      have hcount (l : Session ScanTask NotifierPc)
          (hl : (scanView u).loc (.client .notifier) = some l) (hne : l.pos ≠ .idle)
          (h0 : u.shared.pool.tasksTotal = 0) : Idle u := idle_of_notifier hu hI h0 hl hne
      simpa [Config.set] using
        NotifierMove.phases hm hI (hidle (.inr (NotifierMove.frame hm).1)) hcount
    | user c =>
      obtain ⟨ht, _, hd, hn, _⟩ := UserMove.frame hm
      simpa [Config.set] using hI.advance (hidle (.inr ht)) hd hn rfl rfl hI.pending hI.resting

end SysUtils.Scan

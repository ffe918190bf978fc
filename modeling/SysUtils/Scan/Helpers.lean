import SysUtils.Scan.Recorder

namespace SysUtils.Scan

open Interleaving ThreadPool

variable {n : ℕ} {S : Sys} {rounds : List (List Str)}
variable {ok : ScanState n → Thread n Client → Choice n Client Answer → Prop}

/-! Where the clients can be: only the owner is ever inside the pool, and there it does not call
`wait_for_tasks` but to destroy it. -/

structure Outside (s : ScanState n) : Prop where
  helpers : ∀ c, c ≠ .main → ∃ k, s.loc (.client c) = .code k
  main : ∀ pc k, s.loc (.client .main) ≠ .wait pc k

theorem main_calls {x : Answer} {count : ℕ} {paused : Bool} {e e' : Env n} {k k' : MainPc}
    {o : Call ScanTask} (h : (program n S rounds).client .main x count paused e k = some (o, e', k')) :
    o ≠ .wait :=
  (main_move (v := ⟨[], [], false, e⟩) h).2.2.2.2.2

theorem helper_calls {c : Client} (hc : c ≠ .main) {x : Answer} {count : ℕ} {paused : Bool}
    {e e' : Env n} {k k' : ClientCode c} {o : Call ScanTask}
    (h : (program n S rounds).client c x count paused e k = some (o, e', k')) :
    o = .own ∨ o = .pause := by
  cases c with
  | main => exact absurd rfl hc
  | recorder => exact .inl (writeToDb_move (v := ⟨[], [], false, e⟩) h).2
  | notifier => exact (statusNotifier_move (v := ⟨[], [], false, e⟩) h).2.2
  | user u => exact (stop_move (v := ⟨[], [], false, e⟩) h).2.2

theorem ClientMove.helper {c : Client} (hc : c ≠ .main) {x : Choice n Client Answer}
    {s : Shared n Client ScanTask (Env n)} {k : ClientCode c}
    {r : Shared n Client ScanTask (Env n) × ClientPc ScanTask (ClientCode c)}
    (h : ClientMove (program n S rounds) c x s (.code k) r) : ∃ k', r.2 = .code k' := by
  cases h with
  | own k k' e hb => exact ⟨k', rfl⟩
  | callPause k k' e hb => exact ⟨k', rfl⟩
  | callUnpause k k' e hb => exact ⟨k', rfl⟩
  | callPush t k k' e hb => rcases helper_calls hc hb with h | h <;> cases h
  | callWait k k' e hb => rcases helper_calls hc hb with h | h <;> cases h
  | callDestroy k k' e hb => rcases helper_calls hc hb with h | h <;> cases h

theorem ClientMove.owner {x : Choice n Client Answer} {s : Shared n Client ScanTask (Env n)}
    {l : ClientPc ScanTask (ClientCode .main)}
    {r : Shared n Client ScanTask (Env n) × ClientPc ScanTask (ClientCode .main)}
    (h : ClientMove (program n S rounds) .main x s l r) (hl : ∀ pc k, l ≠ .wait pc k) :
    ∀ pc k, r.2 ≠ .wait pc k := by
  cases h with
  | callWait k k' e hb => exact absurd rfl (main_calls hb)
  | wait pc pc' k p hm => exact absurd rfl (hl pc k)
  | _ => simp

theorem outside_run {s : ScanState n} (h : ReachableBy (program n S rounds) ok s) : Outside s := by
  apply Threads.Steps.invariant h
  · exact ⟨fun c _ => ⟨_, rfl⟩, by simp [initial]⟩
  · intro u i x r _ _ hr hI
    cases i with
    | worker i =>
      refine ⟨fun c hc => ?_, ?_⟩
      · rw [Config.set_loc_of_ne _ (by simp)]
        exact hI.helpers c hc
      · rw [Config.set_loc_of_ne _ (by simp)]
        exact hI.main
    | client d =>
      refine ⟨fun c hc => ?_, ?_⟩
      · by_cases hd : c = d
        · subst hd
          rw [Config.set_loc_self]
          obtain ⟨k, hk⟩ := hI.helpers c hc
          have hm := client_move _ hr
          rw [hk] at hm
          exact ClientMove.helper hc hm
        · rw [Config.set_loc_of_ne _ (by simpa using hd)]
          exact hI.helpers c hc
      · by_cases hd : Client.main = d
        · subst hd
          rw [Config.set_loc_self]
          exact ClientMove.owner (client_move _ hr) hI.main
        · rw [Config.set_loc_of_ne _ (by simpa using hd)]
          exact hI.main

def NotifierPc.stopped : NotifierPc → Bool
  | .stopPause | .scanOver => true
  | _ => false

def MainPc.joiningRecorder : MainPc → Bool
  | .joinRecorder (some _) => true
  | _ => false

structure Halted (e : Env n) (m : Option (Session ScanTask MainPc))
    (f : Option (Session ScanTask NotifierPc)) : Prop where
  stopped : ∀ l, f = some l → l.pos.stopped = true → e.running = false
  finished : e.notifier = .finished → e.running = false
  joining : ∀ l, m = some l → l.pos.joiningRecorder = true → e.running = false

variable {v v' : Seen ScanTask (Env n)} {idle : Prop}
variable {m m' : Option (Session ScanTask MainPc)} {r r' : Option (Session ScanTask Recorder)}
  {f f' : Option (Session ScanTask NotifierPc)}

theorem MainMove.halted {x : Answer} (h : MainMove x v m (v', m')) (hp : Phases idle v.env m r f)
    (hI : Halted v.env m f) : Halted v'.env m' f := by
  cases h with
  | skip => exact hI
  | setRunning rest =>
    obtain ⟨hfin, hf⟩ := hp.noNotifier rfl
    refine ⟨?_, fun h => absurd h hfin, ?_⟩
    · intro l hl hs
      rw [hf l hl] at hs
      cases hs
    · rintro l ⟨⟩ hk
      cases hk
  | startNotifier rest =>
    refine ⟨hI.stopped, by simp, ?_⟩
    rintro l ⟨⟩ hk
    cases hk
  | joinNotifier rest hl =>
    refine ⟨hI.stopped, by simp, ?_⟩
    rintro l ⟨⟩ hk
    cases rest with
    | none => cases hk
    | some rest =>
      apply hI.finished
      have hoff := hp.notifierOff
      cases hn : v.env.notifier <;> simp_all [ofMain, MainPc.notifierOff]
  | joinRecorder rest hl =>
    refine ⟨hI.stopped, hI.finished, ?_⟩
    rintro l ⟨⟩ hk
    cases rest with
    | none => cases hk
    | some rest => cases rest <;> cases hk
  | enqueue t k =>
    refine ⟨hI.stopped, hI.finished, ?_⟩
    rintro l ⟨⟩ hk
    exact hI.joining _ rfl hk
  | destroy => exact ⟨hI.stopped, hI.finished, by simp⟩
  | _ =>
    refine ⟨hI.stopped, hI.finished, ?_⟩
    rintro l ⟨⟩ hk
    cases hk

theorem NotifierMove.halted {count : ℕ} (h : NotifierMove count v f (v', f')) (hI : Halted v.env m f) :
    Halted v'.env m f' := by
  cases h with
  | skip => exact hI
  | stopRunning => exact ⟨fun _ _ _ => rfl, fun _ => rfl, fun _ _ _ => rfl⟩
  | stopPause => exact ⟨fun _ _ _ => hI.stopped _ rfl rfl, hI.finished, hI.joining⟩
  | «return» =>
    have hr : v.env.running = false := hI.stopped _ rfl rfl
    exact ⟨fun _ _ _ => hr, fun _ => hr, fun _ _ _ => hr⟩
  | _ =>
    refine ⟨?_, hI.finished, hI.joining⟩
    rintro l ⟨⟩ hk
    cases hk

theorem RecorderMove.notifier (h : RecorderMove v r (v', r')) : v'.env.notifier = v.env.notifier := by
  cases h <;> rfl

theorem Halted.congr {e e' : Env n} (h : Halted e m f) (hr : e.running = false → e'.running = false)
    (hn : e'.notifier = e.notifier) : Halted e' m f :=
  ⟨fun l hl hk => hr (h.stopped l hl hk), fun hf => hr (h.finished (hn ▸ hf)),
    fun l hl hk => hr (h.joining l hl hk)⟩

theorem halted_run {s : ScanState n} (h : ReachableBy (program n S rounds) ok s) :
    Halted s.shared.env ((scanView s).loc (.client .main)) ((scanView s).loc (.client .notifier)) := by
  apply scan_invariant (I := fun w => Halted w.shared.env (w.loc (.client .main))
    (w.loc (.client .notifier))) .refl h
  · refine ⟨?_, fun _ => rfl, fun _ _ _ => rfl⟩
    rintro l ⟨⟩ _
    rfl
  · intro u i x q hu _ hm hI
    obtain ⟨v, l⟩ := q
    cases i with
    | worker i =>
      rw [Config.set_loc_of_ne _ (by simp), Config.set_loc_of_ne _ (by simp)]
      obtain ⟨hr, _, hd, hn, _⟩ := ScanMove.frame hm
      exact hI.congr (fun h => hr.trans h) hn
    | client c =>
      cases c with
      | main =>
        rw [Config.set_loc_self, Config.set_loc_of_ne _ (by simp)]
        exact MainMove.halted hm (scan_phases hu) hI
      | recorder =>
        rw [Config.set_loc_of_ne _ (by simp), Config.set_loc_of_ne _ (by simp)]
        exact hI.congr (fun h => (RecorderMove.frame hm).2.1.trans h) (RecorderMove.notifier hm)
      | notifier =>
        rw [Config.set_loc_self, Config.set_loc_of_ne _ (by simp)]
        exact NotifierMove.halted hm hI
      | user u =>
        rw [Config.set_loc_of_ne _ (by simp), Config.set_loc_of_ne _ (by simp)]
        exact hI.congr (UserMove.infosKept hm).running (UserMove.frame hm).2.2.2.1

end SysUtils.Scan

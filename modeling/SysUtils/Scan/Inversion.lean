import SysUtils.Scan.Moves

namespace SysUtils.Scan

open Interleaving ThreadPool

variable {n : ℕ} {S : Sys} {rounds : List (List Str)} {v : Seen ScanTask (Env n)}

def jobAfter (t : ScanTask) (k : ScanPc) : BodyCall ScanTask → Option (Job ScanTask ScanPc)
  | .push t' => some ⟨t, k, some t'⟩
  | .return | .throw => none
  | .own | .pause | .unpause => some ⟨t, k, none⟩

theorem doScan_move {i : Fin n} {t : ScanTask} {x : Answer} {k k' : ScanPc} {e : Env n}
    {o : BodyCall ScanTask} (h : doScan S i t x v.env k = some (o, e, k')) :
    ScanMove S i x v (some ⟨t, k, none⟩) ({ v with env := e }, jobAfter t k' o) ∧
      o ≠ .pause ∧ o ≠ .unpause := by
  cases k with
  | start =>
    simp only [doScan] at h
    split_ifs at h with hr hp
    · cases h
      exact ⟨.notRunning t hr, by simp⟩
    · cases h
      exact ⟨.notValid t hp, by simp⟩
    · cases h
      exact ⟨.valid t (by simpa using hr) (by simpa using hp), by simp⟩
  | opendir => cases h; exact ⟨.opendir t, by simp⟩
  | traverse rest out =>
    cases rest with
    | nil => cases h; exact ⟨.traversed t out, by simp⟩
    | cons entry rest =>
      cases hr : v.env.running with
      | false =>
        simp only [doScan, hr] at h
        cases h
        exact ⟨.break t entry rest out hr, by simp⟩
      | true =>
        simp only [doScan, hr] at h
        cases h
        exact ⟨.readdir t entry rest out hr, by simp⟩
  | collect entry rest out => cases h; exact ⟨.collect t entry rest out, by simp⟩
  | count out => cases h; exact ⟨.count t out, by simp⟩
  | lockDirs out =>
    simp only [doScan, Option.ite_none_right_eq_some] at h
    cases h.2
    exact ⟨.lockDirs t out, by simp⟩
  | pushDirs dirs files symbols =>
    cases dirs with
    | nil => cases h; exact ⟨.unlockDirs t files symbols, by simp⟩
    | cons d dirs => cases h; exact ⟨.pushDir t d dirs files symbols, by simp⟩
  | lockInfos files symbols =>
    simp only [doScan, Option.ite_none_right_eq_some] at h
    cases h.2
    exact ⟨.lockInfos t files symbols, by simp⟩
  | check files symbols =>
    cases files with
    | cons f files => cases h; exact ⟨.checkFile t f files symbols, by simp⟩
    | nil =>
      cases symbols with
      | nil => cases h; exact ⟨.unlockInfos t, by simp⟩
      | cons l symbols => cases h; exact ⟨.reloadSymbol t l symbols, by simp⟩
  | setTimeEnd => cases h; exact ⟨.setTimeEnd t, by simp⟩

theorem body_move {i : Fin n} {t : ScanTask} {x : Answer} {count : ℕ} {paused : Bool} {k k' : ScanPc}
    {e : Env n} {o : BodyCall ScanTask}
    (h : (program n S rounds).body i t x count paused v.env k = some (o, e, k')) :
    ScanMove S i x v (some ⟨t, k, none⟩) ({ v with env := e }, jobAfter t k' o) ∧
      o ≠ .pause ∧ o ≠ .unpause := by
  simp only [program] at h
  split_ifs at h with hx
  · cases h
    exact ⟨.throw t k hx, by simp⟩
  · exact doScan_move h

theorem main_move {x : Answer} {k k' : MainPc} {e : Env n} {o : Call ScanTask}
    (h : main x v.env k = some (o, e, k')) :
    (o = .own → MainMove x v (some ⟨k, none⟩) ({ v with env := e }, some ⟨k', none⟩)) ∧
    (∀ t, o = .push t → MainMove x v (some ⟨k, none⟩) ({ v with env := e }, some ⟨k', some t⟩)) ∧
    (o = .destroy → MainMove x v (some ⟨k, none⟩) ({ v with env := e }, none)) ∧
    o ≠ .pause ∧ o ≠ .unpause ∧ o ≠ .wait := by
  cases k with
  | addPaths paths rest =>
    cases paths with
    | nil => cases h; exact ⟨fun _ => .launch rest, by simp⟩
    | cons p paths => cases h; exact ⟨fun _ => .addPath p paths rest, by simp⟩
  | setRunning rest => cases h; exact ⟨fun _ => .setRunning rest, by simp⟩
  | setFileCounts rest => cases h; exact ⟨fun _ => .setFileCounts rest, by simp⟩
  | setTimeStart rest => cases h; exact ⟨fun _ => .setTimeStart rest, by simp⟩
  | pushRoots j rest =>
    simp only [main] at h
    split at h
    · rename_i dir hd
      cases h
      exact ⟨by simp, fun t ht => by cases ht; exact .pushRoot j dir rest hd, by simp⟩
    · rename_i hd
      cases h
      exact ⟨fun _ => .rootsPushed j rest hd, by simp⟩
  | startRecorder rest =>
    simp only [main, Option.ite_none_right_eq_some] at h
    cases h.2
    exact ⟨fun _ => .startRecorder rest, by simp⟩
  | startNotifier rest =>
    simp only [main, Option.ite_none_right_eq_some] at h
    cases h.2
    exact ⟨fun _ => .startNotifier rest, by simp⟩
  | joinNotifier rest =>
    simp only [main, Option.ite_none_left_eq_some] at h
    obtain ⟨hl, h⟩ := h
    cases h
    exact ⟨fun _ => .joinNotifier rest hl, by simp⟩
  | joinRecorder rest =>
    simp only [main, Option.ite_none_left_eq_some] at h
    obtain ⟨hl, h⟩ := h
    cases h
    exact ⟨fun _ => .joinRecorder rest hl, by simp⟩
  | destroy => cases h; exact ⟨by simp, by simp, fun _ => .destroy, by simp⟩

theorem writeToDb_move {l l' : Recorder} {e : Env n} {o : Call ScanTask}
    (h : writeToDb v.env l = some (o, e, l')) :
    RecorderMove v (some ⟨l, none⟩) ({ v with env := e }, some ⟨l', none⟩) ∧ o = .own := by
  obtain ⟨pc, infos⟩ := l
  cases pc with
  | idle =>
    simp only [writeToDb, Option.ite_none_right_eq_some] at h
    obtain ⟨hl, h⟩ := h
    cases h
    exact ⟨.begin infos hl, rfl⟩
  | whileRunning =>
    cases hr : v.env.running with
    | true => simp only [writeToDb, hr] at h; cases h; exact ⟨.running infos, rfl⟩
    | false => simp only [writeToDb, hr] at h; cases h; exact ⟨.notRunning infos hr, rfl⟩
  | ifEmpty =>
    simp only [writeToDb] at h
    split_ifs at h with he
    · cases h; exact ⟨.return infos he, rfl⟩
    · cases h; exact ⟨.notEmpty infos, rfl⟩
  | sleep => cases h; exact ⟨.sleep infos, rfl⟩
  | lock =>
    simp only [writeToDb, Option.ite_none_right_eq_some] at h
    cases h.2
    exact ⟨.lock infos, rfl⟩
  | swap => cases h; exact ⟨.swap infos, rfl⟩
  | unlock => cases h; exact ⟨.unlock infos, rfl⟩
  | clear => cases h; exact ⟨.clear infos, rfl⟩

theorem statusNotifier_move {count : ℕ} {k k' : NotifierPc} {e : Env n} {o : Call ScanTask}
    (h : statusNotifier count v.env k = some (o, e, k')) :
    (o = .own → NotifierMove count v (some ⟨k, none⟩) ({ v with env := e }, some ⟨k', none⟩)) ∧
    (o = .pause → NotifierMove count v (some ⟨k, none⟩)
      ({ v with paused := true, env := e }, some ⟨k', none⟩)) ∧
    (o = .own ∨ o = .pause) := by
  cases k with
  | idle =>
    simp only [statusNotifier, Option.ite_none_right_eq_some] at h
    obtain ⟨hl, h⟩ := h
    cases h
    exact ⟨fun _ => .begin hl, by simp⟩
  | whileNotOver =>
    by_cases h0 : count = 0
    · simp only [statusNotifier, isScanOver, h0, beq_self_eq_true, ↓reduceIte] at h
      cases h
      exact ⟨fun _ => .scanOver h0, by simp⟩
    · have hb : (count == 0) = false := by simpa using h0
      simp only [statusNotifier, isScanOver, hb, Bool.false_eq_true, ↓reduceIte] at h
      cases h
      exact ⟨fun _ => .notOver, by simp⟩
  | sleep => cases h; exact ⟨fun _ => .sleep, by simp⟩
  | stopRunning => cases h; exact ⟨fun _ => .stopRunning, by simp⟩
  | stopPause => cases h; exact ⟨by simp, fun _ => .stopPause, by simp⟩
  | scanOver => cases h; exact ⟨fun _ => .return, by simp⟩

theorem stop_move {k k' : UserPc} {e : Env n} {o : Call ScanTask} (h : stop v.env k = some (o, e, k')) :
    (o = .own → UserMove v (some ⟨k, none⟩) ({ v with env := e }, some ⟨k', none⟩)) ∧
    (o = .pause → UserMove v (some ⟨k, none⟩) ({ v with paused := true, env := e }, some ⟨k', none⟩)) ∧
    (o = .own ∨ o = .pause) := by
  cases k with
  | stopRunning => cases h; exact ⟨fun _ => .stopRunning, by simp⟩
  | stopPause => cases h; exact ⟨by simp, fun _ => .stopPause, by simp⟩

theorem pushes_iff {c : Client} {k : ClientCode c} (h : Pushes (program n S rounds) c k) :
    ∃ j rest, c = .main ∧ HEq k (MainPc.pushRoots (j + 1) rest) := by
  obtain ⟨x, count, paused, e, k₀, t, e', hc⟩ := h
  cases c with
  | main =>
    have hm := (main_move (v := ⟨[], [], false, e⟩) hc).2.1 t rfl
    cases hm with
    | pushRoot j dir rest hd => exact ⟨j, rest, rfl, HEq.rfl⟩
  | recorder =>
    have := (writeToDb_move (v := ⟨[], [], false, e⟩) hc).2
    cases this
  | notifier => rcases (statusNotifier_move (v := ⟨[], [], false, e⟩) hc).2.2 with h | h <;> cases h
  | user u => rcases (stop_move (v := ⟨[], [], false, e⟩) hc).2.2 with h | h <;> cases h

theorem JobMove.scan {i : Fin n} {x : Choice n Client Answer} {count : ℕ}
    {j : Option (Job ScanTask ScanPc)} {r : Seen ScanTask (Env n) × Option (Job ScanTask ScanPc)}
    (h : JobMove (program n S rounds) i x count v j r) : ScanMove S i x.code v j r := by
  cases h with
  | skip => exact .skip j
  | start t ts ht => exact .begin t ts ht
  | own t k k' e hb => exact (body_move hb).1
  | push t t' k k' e hb => exact (body_move hb).1
  | pause t k k' e hb => exact absurd rfl (body_move hb).2.1
  | unpause t k k' e hb => exact absurd rfl (body_move hb).2.2
  | finish t k k' e o ho hb =>
    have hm := (body_move hb).1
    rcases ho with rfl | rfl <;> exact hm
  | enqueue t t' k => exact .enqueue t t' k

theorem SessionMove.scan {c : Client} {x : Choice n Client Answer} {count : ℕ}
    {l : Option (Session ScanTask (ClientCode c))}
    {r : Seen ScanTask (Env n) × Option (Session ScanTask (ClientCode c))}
    (h : SessionMove (program n S rounds) c x count v l r)
    (hp : ∀ t k, l = some ⟨k, some t⟩ → c = .main) : Move S x.code count v (.client c) l r := by
  cases h with
  | skip => cases c <;> constructor
  | own k k' e o ho hc =>
    cases c with
    | main =>
      rcases ho with rfl | rfl
      · exact (main_move hc).1 rfl
      · exact absurd rfl (main_move hc).2.2.2.2.2
    | recorder => exact (writeToDb_move hc).1
    | notifier =>
      obtain rfl : o = .own := by
        rcases (statusNotifier_move hc).2.2 with h | h
        · exact h
        · rcases ho with ho | ho <;> rw [h] at ho <;> cases ho
      exact (statusNotifier_move hc).1 rfl
    | user u =>
      obtain rfl : o = .own := by
        rcases (stop_move hc).2.2 with h | h
        · exact h
        · rcases ho with ho | ho <;> rw [h] at ho <;> cases ho
      exact (stop_move hc).1 rfl
  | push t k k' e hc =>
    cases c with
    | main => exact (main_move hc).2.1 t rfl
    | recorder => cases (writeToDb_move hc).2
    | notifier => rcases (statusNotifier_move hc).2.2 with h | h <;> cases h
    | user u => rcases (stop_move hc).2.2 with h | h <;> cases h
  | pause k k' e hc =>
    cases c with
    | main => exact absurd rfl (main_move hc).2.2.2.1
    | recorder => cases (writeToDb_move hc).2
    | notifier => exact (statusNotifier_move hc).2.1 rfl
    | user u => exact (stop_move hc).2.1 rfl
  | unpause k k' e hc =>
    cases c with
    | main => exact absurd rfl (main_move hc).2.2.2.2.1
    | recorder => cases (writeToDb_move hc).2
    | notifier => rcases (statusNotifier_move hc).2.2 with h | h <;> cases h
    | user u => rcases (stop_move hc).2.2 with h | h <;> cases h
  | destroy k k' e hc =>
    cases c with
    | main => exact (main_move hc).2.2.1 rfl
    | recorder => cases (writeToDb_move hc).2
    | notifier => rcases (statusNotifier_move hc).2.2 with h | h <;> cases h
    | user u => rcases (stop_move hc).2.2 with h | h <;> cases h
  | enqueue t k =>
    obtain rfl := hp t k rfl
    exact .enqueue t k

variable {ok : ScanState n → Thread n Client → Choice n Client Answer → Prop}

theorem main_of_pending {s : ScanState n} (h : ReachableBy (program n S rounds) ok s) {c : Client}
    {t : ScanTask} {k : ClientCode c} (hl : (scanView s).loc (.client c) = some ⟨k, some t⟩) :
    c = .main := by
  have hl' : ClientPc.session (s.loc (.client c)) = some ⟨k, some t⟩ := hl
  cases hs : s.loc (.client c) with
  | push t' pc k' =>
    obtain ⟨_, _, hc, _⟩ := pushes_iff (ReachableBy.pushes h hs)
    exact hc
  | _ => simp [hs, ClientPc.session] at hl'

theorem scan_move {u : ScanState n} (hu : Reachable (program n S rounds) u) {i : Thread n Client}
    {x : Choice n Client Answer} {r : Shared n Client ScanTask (Env n) × Loc n ScanTask ScanPc ClientCode i}
    (hr : (threads (program n S rounds)).step i x u.shared (u.loc i) = some r) :
    Move S x.code u.shared.pool.tasksTotal (scanView u).shared i ((scanView u).loc i)
      (r.1.seen, role (fun _ => .start) i r.2) := by
  have hm := step_role hr
  cases i with
  | worker i => exact JobMove.scan hm
  | client c => exact SessionMove.scan hm fun t k hl => main_of_pending hu hl

theorem scan_invariant {I : ScanView n → Prop} {s t : ScanState n}
    (hs : Reachable (program n S rounds) s) (h : (threads (program n S rounds)).Steps ok s t)
    (h0 : I (scanView s))
    (hstep : ∀ u i x r, (threads (program n S rounds)).Steps ok s u → ok u i x →
      Move S x.code u.shared.pool.tasksTotal (scanView u).shared i ((scanView u).loc i) r →
      I (scanView u) → I ((scanView u).set i r)) : I (scanView t) := by
  apply h.invariant (I := fun s => I (scanView s)) h0
  intro u i x r hu hx hr hI
  unfold scanView at hI ⊢
  rw [view_set]
  exact hstep u i x _ hu hx (scan_move (Threads.Steps.trans hs hu.any) hr) hI

end SysUtils.Scan

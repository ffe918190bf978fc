import SysUtils.ProcessLock.Balance

namespace SysUtils.ProcessLock

variable {G μ O : Type} [DecidableEq G] [DecidableEq O] [Fintype G] {M : Mutexes μ O}

def Op.waits : Op G μ → Bool
  | .lock _ _ | .tryLockFor _ _ => true
  | _ => false

structure Sound (M : Mutexes μ O) (s : State G μ O) (op : Op G μ) (res : Outcome)
    (t : State G μ O) : Prop where
  balanced : Balanced M t
  untouched : op.waits = true → res.succeeded = false → t.hold = s.hold
  released : (∀ g, t.guards g = none) → ∀ o, t.hold o = 0
  alive : res ≠ .terminated

def SoundRun (M : Mutexes μ O) : State G μ O → List (Op G μ) → Prop
  | _, [] => True
  | s, op :: ops =>
      match step M s op with
      | none => True
      | some (res, t) => Sound M s op res t ∧ SoundRun M t ops

omit [Fintype G] in
def abandonsRun (M : Mutexes μ O) : State G μ O → List (Op G μ) → Bool
  | _, [] => false
  | s, op :: ops =>
      abandons M s op ||
        match step M s op with
        | none => false
        | some (_, t) => abandonsRun M t ops

def initial : State G μ O := ⟨fun _ => none, fun _ => 0⟩

structure Inv (M : Mutexes μ O) (k : O → ℕ) (s : State G μ O) : Prop where
  surplus : Surplus M k s
  backed : ∀ g v, s.guards g = some v → Backed M v

omit [DecidableEq G] in
theorem Inv.balanced {s : State G μ O} (h : Inv M 0 s) : Balanced M s := h.surplus

omit [DecidableEq G] in
theorem Inv.initial : Inv M 0 (initial : State G μ O) where
  surplus _ := by simp [ProcessLock.initial, ownedSum]
  backed _ _ h := by cases h

omit [DecidableEq G] in
theorem Balanced.released {s : State G μ O} (h : Balanced M s) (hg : ∀ g, s.guards g = none)
    (o : O) : s.hold o = 0 := by
  rw [h o]
  simp [ownedSum, hg]

variable {k : O → ℕ}

theorem Inv.put {s : State G μ O} (h : Inv M k s) {g : G} {v : Option (Guard μ)} {hold : Hold O}
    (hv : ∀ o, hold o + owned M o (s.guards g) = s.hold o + owned M o v)
    (hb : ∀ w, v = some w → Backed M w) : Inv M k (s.put g v hold) where
  surplus := h.surplus.put hv
  backed j w hw := by
    by_cases hj : j = g
    · subst hj
      exact hb w (by simpa [State.put] using hw)
    · exact h.backed j w (by simpa [State.put, Function.update_of_ne hj] using hw)

theorem Inv.construct {s : State G μ O} (h : Inv M k s) {g : G} {v : Guard μ} (hg : s.guards g = none)
    (hv : v.owns = false) : Inv M k (s.put g (some v) s.hold) := by
  apply h.put
  · intro o
    rw [hg, owned_of_not_owns o hv]
    rfl
  · rintro w ⟨⟩ ho
    rw [hv] at ho
    cases ho

theorem Inv.wait {s : State G μ O} (h : Inv M k s) {g : G} {v v' : Guard μ} {hold : Hold O} {ok : Bool}
    (hg : s.guards g = some v) (hw : WaitSpec M v v' s.hold hold ok) :
    Inv M k (s.put g (some v') hold) := by
  apply h.put
  · rw [hg]
    exact hw.balance
  · rintro w ⟨⟩
    exact hw.backed

omit [Fintype G] [DecidableEq O] in
theorem backed_move {s : State G μ O} (h : ∀ g v, s.guards g = some v → Backed M v) {g f : G}
    {hold : Hold O} (j : G) (w : Guard μ)
    (hw : ((s.put g (s.guards f) hold).put f (some .empty) hold).guards j = some w) :
    Backed M w := by
  by_cases hjf : j = f
  · subst hjf
    obtain rfl : Guard.empty = w := by simpa [State.put] using hw
    intro ho
    cases ho
  · by_cases hjg : j = g
    · subst hjg
      exact h f w (by simpa [State.put, Function.update_of_ne hjf] using hw)
    · exact h j w (by simpa [State.put, Function.update_of_ne hjf, Function.update_of_ne hjg] using hw)

omit [DecidableEq G] in
theorem Inv.owned_le {s : State G μ O} (h : Inv M k s) {g : G} {v : Guard μ}
    (hg : s.guards g = some v) (o : O) : owned M o (some v) ≤ s.hold o := by
  rw [← hg]
  exact h.surplus.owned_le o g

theorem Inv.step {s t : State G μ O} (h : Inv M k s) {op : Op G μ} {res : Outcome}
    (hs : step M s op = some (res, t)) (ha : abandons M s op = false) :
    Inv M k t ∧ (op.waits = true → res.succeeded = false → t.hold = s.hold) ∧ res ≠ .terminated := by
  cases op with
  | construct g =>
    simp only [ProcessLock.step] at hs
    split at hs
    · rename_i hg
      cases hs
      exact ⟨h.construct hg rfl, by simp [Op.waits], by simp⟩
    · cases hs
  | constructOn g m =>
    simp only [ProcessLock.step] at hs
    split at hs
    · rename_i hg
      cases hs
      exact ⟨h.construct hg rfl, by simp [Op.waits], by simp⟩
    · cases hs
  | lock g r =>
    obtain ⟨v, hg, he⟩ := Option.map_eq_some_iff.mp hs
    have hw := Guard.lock_spec hg (h.backed g v hg) ha
    obtain ⟨rfl, rfl⟩ := Prod.mk.inj he
    refine ⟨h.wait hg hw, fun _ => hw.failed, ?_⟩
    cases (v.lock M r s.hold).1 <;> simp [outcome]
  | tryLockFor g r =>
    obtain ⟨v, hg, he⟩ := Option.map_eq_some_iff.mp hs
    have hw := Guard.tryLockFor_spec hg (h.backed g v hg) ha
    obtain ⟨rfl, rfl⟩ := Prod.mk.inj he
    refine ⟨h.wait hg hw, fun _ => hw.failed, ?_⟩
    cases (v.tryLockFor M r s.hold).1 <;> simp [outcomeBool]
  | unlock g =>
    obtain ⟨v, hg, he⟩ := Option.map_eq_some_iff.mp hs
    obtain ⟨hb, hv⟩ := Guard.unlock_spec (h.backed g v hg) (h.owned_le hg)
    obtain ⟨rfl, rfl⟩ := Prod.mk.inj he
    refine ⟨h.put (by rw [hg]; exact hv) (by rintro w ⟨⟩; exact hb), by simp [Op.waits], ?_⟩
    cases (v.unlock M s.hold).1 <;> simp [outcome]
  | moveConstruct g f =>
    simp only [ProcessLock.step] at hs
    split at hs
    · rename_i v hg hf
      cases hs
      have hgf : g ≠ f := fun hgf => by rw [hgf, hf] at hg; cases hg
      rw [← hf]
      exact ⟨⟨h.surplus.move hgf (by simp [hg]), backed_move h.backed⟩, by simp [Op.waits], by simp⟩
    · cases hs
  | moveAssign g f =>
    simp only [ProcessLock.step] at hs
    split at hs
    · rename_i v w hg hf
      split_ifs at hs with hgf
      · cases hs
        exact ⟨h, by simp [Op.waits], by simp⟩
      · obtain ⟨hold', hr, hv⟩ := Guard.release_ok (h.backed g v hg) (h.owned_le hg)
        simp only [hr] at hs
        cases hs
        rw [← hf]
        exact ⟨⟨h.surplus.move hgf (by simpa [hg] using hv), backed_move h.backed⟩,
          by simp [Op.waits], by simp⟩
    · cases hs
  | destroy g =>
    obtain ⟨v, hg, he⟩ := Option.map_eq_some_iff.mp hs
    obtain ⟨hold', hr, hv⟩ := Guard.release_ok (h.backed g v hg) (h.owned_le hg)
    simp only [hr] at he
    cases he
    exact ⟨h.put (by simpa [hg] using hv) (by simp), by simp [Op.waits], by simp⟩

def waitAbandoned : Error := .mutexError WaitResult.abandoned.code "process_mutex lock error!"

omit [Fintype G] in
theorem abandons_step {s : State G μ O} {op : Op G μ} (ha : abandons M s op = true) :
    ∃ o, step M s op =
      some (.threw waitAbandoned, ⟨s.guards, Function.update s.hold o (s.hold o + 1)⟩) := by
  have key (g : G) (r : WaitResult) (ha : abandons M s (.lock g r) = true) :
      ∃ v m k, s.guards g = some v ∧ v.validate = .ok m ∧ (M.deref m).mutexHandle = some k ∧
        r = .abandoned := by
    simp only [abandons] at ha
    split at ha
    · rename_i m hp hg
      obtain ⟨hk, hr⟩ := Bool.and_eq_true_iff.mp ha
      obtain ⟨k, hk⟩ := Option.isSome_iff_exists.mp hk
      exact ⟨_, m, k, hg, rfl, hk, by simpa using hr⟩
    · cases ha
  have hsame {g : G} {v : Guard μ} (hg : s.guards g = some v) (hold : Hold O) :
      s.put g (some v) hold = ⟨s.guards, hold⟩ := by
    rw [← hg]
    exact congrArg (fun guards => (⟨guards, hold⟩ : State G μ O)) (Function.update_eq_self g s.guards)
  cases op with
  | lock g r =>
    obtain ⟨v, m, k, hg, hv, hk, rfl⟩ := key g r ha
    refine ⟨M.object k, ?_⟩
    rw [← hsame hg]
    simp [step, hg, Guard.lock, hv, ProcessMutex.lock, waitForSingleObject, hk, WaitResult.acquires,
      waitAbandoned, outcome]
  | tryLockFor g r =>
    obtain ⟨v, m, k, hg, hv, hk, rfl⟩ := key g r ha
    refine ⟨M.object k, ?_⟩
    rw [← hsame hg]
    simp [step, hg, Guard.tryLockFor, hv, ProcessMutex.tryLockFor, waitForSingleObject, hk,
      WaitResult.acquires, waitAbandoned, outcomeBool]
  | _ => cases ha

theorem abandons_not_balanced {s : State G μ O} (h : Balanced M s) {op : Op G μ}
    (ha : abandons M s op = true) : ∃ res t, step M s op = some (res, t) ∧ ¬ Balanced M t := by
  obtain ⟨o, hs⟩ := abandons_step ha
  refine ⟨_, _, hs, ?_⟩
  intro ht
  have hbefore := h o
  have hafter := ht o
  simp only [Function.update_self] at hafter
  omega

theorem soundRun_iff {s : State G μ O} (h : Inv M 0 s) (ops : List (Op G μ)) :
    SoundRun M s ops ↔ abandonsRun M s ops = false := by
  induction ops generalizing s with
  | nil => simp [SoundRun, abandonsRun]
  | cons op ops ih =>
    cases ha : abandons M s op with
    | true =>
      obtain ⟨res, t, ht, hb⟩ := abandons_not_balanced h.balanced ha
      simp only [SoundRun, abandonsRun, ha, ht, Bool.true_or, Bool.true_eq_false, iff_false]
      exact fun hs => hb hs.1.balanced
    | false =>
      cases hs : step M s op with
      | none => simp [SoundRun, abandonsRun, ha, hs]
      | some r =>
        obtain ⟨res, t⟩ := r
        obtain ⟨hi, hu, hn⟩ := h.step hs ha
        simp only [SoundRun, abandonsRun, ha, hs, Bool.false_or, ih hi, and_iff_right_iff_imp]
        exact fun _ => ⟨hi.balanced, hu, hi.balanced.released, hn⟩

theorem guards_own_iff (M : Mutexes μ O) (ops : List (Op G μ)) :
    SoundRun M initial ops ↔ abandonsRun M initial ops = false :=
  soundRun_iff Inv.initial ops

theorem abandoned_lock_leaks :
    ¬ SoundRun (G := Fin 1) (⟨fun _ => ⟨some 4⟩, fun _ => ()⟩ : Mutexes Unit Unit) initial
      [.constructOn 0 (), .lock 0 .abandoned] := by
  intro h
  have hb := h.2.1.balanced ()
  exact absurd hb (by decide)

end SysUtils.ProcessLock

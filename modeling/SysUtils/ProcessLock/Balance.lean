import SysUtils.ProcessLock.Runs

namespace SysUtils.ProcessLock

open Interleaving

variable {G μ O : Type} [DecidableEq G] [DecidableEq O] {M : Mutexes μ O}

@[simp] theorem owned_none (o : O) : owned M o none = 0 := rfl

@[simp] theorem owned_empty (o : O) : owned M o (some Guard.empty) = 0 := by
  simp [owned, Guard.empty]

@[simp] theorem owned_on (o : O) (m : μ) : owned M o (some (Guard.on m)) = 0 := by
  simp [owned, Guard.on]

theorem owned_of_not_owns (o : O) {v : Guard μ} (h : v.owns = false) : owned M o (some v) = 0 := by
  simp [owned, h]

theorem ownedSum_update [Fintype G] (o : O) (guards : G → Option (Guard μ)) (g : G)
    (v : Option (Guard μ)) : ownedSum M o (Function.update guards g v) + owned M o (guards g) =
      ownedSum M o guards + owned M o v := by
  have hcomp : (fun j => owned M o (Function.update guards g v j)) =
      Function.update (fun j => owned M o (guards j)) g (owned M o v) :=
    Function.comp_update (owned M o) guards g v
  unfold ownedSum
  rw [hcomp]
  exact sum_update_add (fun j => owned M o (guards j)) g (owned M o v)

def Surplus [Fintype G] (M : Mutexes μ O) (k : O → ℕ) (s : State G μ O) : Prop :=
  ∀ o, s.hold o = ownedSum M o s.guards + k o

variable {k : O → ℕ}

theorem Surplus.put [Fintype G] {s : State G μ O} (h : Surplus M k s) {g : G} {v : Option (Guard μ)}
    {hold : Hold O} (hv : ∀ o, hold o + owned M o (s.guards g) = s.hold o + owned M o v) :
    Surplus M k (s.put g v hold) := by
  intro o
  have hsum := ownedSum_update (M := M) o s.guards g v
  have hb := h o
  have ho := hv o
  change hold o = ownedSum M o (Function.update s.guards g v) + k o
  omega

theorem Surplus.move [Fintype G] {s : State G μ O} (h : Surplus M k s) {g f : G} (hgf : g ≠ f)
    {hold : Hold O} (hv : ∀ o, hold o + owned M o (s.guards g) = s.hold o) :
    Surplus M k ((s.put g (s.guards f) hold).put f (some .empty) hold) := by
  intro o
  have hfirst := ownedSum_update (M := M) o s.guards g (s.guards f)
  have hsecond := ownedSum_update (M := M) o (Function.update s.guards g (s.guards f)) f (some .empty)
  rw [Function.update_of_ne hgf.symm, owned_empty] at hsecond
  have hb := h o
  have ho := hv o
  change hold o = ownedSum M o (Function.update (Function.update s.guards g (s.guards f)) f _) + k o
  omega

omit [DecidableEq G] in
theorem Surplus.owned_le [Fintype G] {s : State G μ O} (h : Surplus M k s) (o : O) (g : G) :
    owned M o (s.guards g) ≤ s.hold o := by
  rw [h o]
  apply le_add_right
  exact Finset.single_le_sum (f := fun j => owned M o (s.guards j)) (fun _ _ => Nat.zero_le _)
    (Finset.mem_univ g)

theorem Guard.owned_of_owns {v : Guard μ} (ho : v.owns = true) {o : O} (ht : target M v = some o)
    (o' : O) : owned M o' (some v) = if o = o' then 1 else 0 := by
  simp [owned, ho, ht]

theorem ProcessMutex.unlock_ok {m : μ} {hold : Hold O} {o : O}
    (ht : (M.deref m).mutexHandle.map M.object = some o) (hpos : 0 < hold o) :
    (M.deref m).unlock M hold = .ok (Function.update hold o (hold o - 1)) := by
  obtain ⟨h, hh, rfl⟩ := Option.map_eq_some_iff.mp ht
  have hne : hold (M.object h) ≠ 0 := by omega
  simp [ProcessMutex.unlock, releaseMutex, hh, hne]

theorem update_pred {hold : Hold O} {o : O} (hpos : 0 < hold o) (o' : O) :
    Function.update hold o (hold o - 1) o' + (if o = o' then 1 else 0) = hold o' := by
  by_cases h : o' = o
  · subst h
    simp only [Function.update_self, ↓reduceIte]
    omega
  · simp [Function.update_of_ne h, Ne.symm h]

theorem update_succ (hold : Hold O) (o o' : O) :
    Function.update hold o (hold o + 1) o' = hold o' + (if o = o' then 1 else 0) := by
  by_cases h : o' = o
  · subst h
    simp
  · simp [Function.update_of_ne h, Ne.symm h]

theorem Guard.release_ok {v : Guard μ} {hold : Hold O} (hb : Backed M v)
    (hle : ∀ o, owned M o (some v) ≤ hold o) :
    ∃ hold', v.release M hold = .ok hold' ∧ ∀ o, hold' o + owned M o (some v) = hold o := by
  by_cases ho : v.owns = true
  · obtain ⟨o, ht⟩ := Option.isSome_iff_exists.mp (hb ho)
    obtain ⟨m, hm, hk⟩ := Option.bind_eq_some_iff.mp ht
    have hpos : 0 < hold o := by
      have := hle o
      rw [Guard.owned_of_owns ho ht, if_pos rfl] at this
      omega
    refine ⟨Function.update hold o (hold o - 1), ?_, fun o' => ?_⟩
    · simp only [Guard.release, ho, ↓reduceDIte, hm, Option.get_some]
      exact ProcessMutex.unlock_ok hk hpos
    · rw [Guard.owned_of_owns ho ht]
      exact update_pred hpos o'
  · exact ⟨hold, by simp [Guard.release, ho], fun o => by
      rw [owned_of_not_owns o (by simpa using ho), Nat.add_zero]⟩

theorem Guard.unlock_spec {v : Guard μ} {hold : Hold O} (hb : Backed M v)
    (hle : ∀ o, owned M o (some v) ≤ hold o) :
    Backed M (v.unlock M hold).2.1 ∧ ∀ o, (v.unlock M hold).2.2 o + owned M o (some v) =
      hold o + owned M o (some (v.unlock M hold).2.1) := by
  by_cases ho : v.owns = true
  · obtain ⟨o, ht⟩ := Option.isSome_iff_exists.mp (hb ho)
    obtain ⟨m, hm, hk⟩ := Option.bind_eq_some_iff.mp ht
    have hpos : 0 < hold o := by
      have := hle o
      rw [Guard.owned_of_owns ho ht, if_pos rfl] at this
      omega
    have hu : v.unlock M hold = (.ok (), Guard.on m, Function.update hold o (hold o - 1)) := by
      simp [Guard.unlock, hm, ho, ProcessMutex.unlock_ok hk hpos]
    rw [hu]
    refine ⟨fun h => (by cases h), fun o' => ?_⟩
    rw [Guard.owned_of_owns ho ht, owned_on, update_pred hpos, Nat.add_zero]
  · have hu : v.unlock M hold = (.error (.systemError .operationNotPermitted), v, hold) := by
      cases hm : v.pmtx <;> simp [Guard.unlock, hm, ho]
    rw [hu]
    exact ⟨hb, fun _ => rfl⟩

theorem Guard.validate_ok {v : Guard μ} {m : μ} (h : v.validate = .ok m) :
    v.pmtx = some m ∧ v.owns = false := by
  unfold Guard.validate at h
  split at h
  · cases h
  · split_ifs at h with ho
    cases h
    exact ⟨by assumption, by simpa using ho⟩

structure WaitSpec (M : Mutexes μ O) (v v' : Guard μ) (hold hold' : Hold O) (ok : Bool) : Prop where
  backed : Backed M v'
  balance : ∀ o, hold' o + owned M o (some v) = hold o + owned M o (some v')
  failed : ok = false → hold' = hold

theorem WaitSpec.refl {v : Guard μ} (hb : Backed M v) (hold : Hold O) :
    WaitSpec M v v hold hold false := ⟨hb, fun _ => rfl, fun _ => rfl⟩

theorem WaitSpec.acquired {v : Guard μ} {m : μ} {h : Handle} (hv : v.owns = false)
    (hh : (M.deref m).mutexHandle = some h) (hold : Hold O) :
    WaitSpec M v (.owning m) hold (Function.update hold (M.object h) (hold (M.object h) + 1)) true where
  backed _ := by simp [target, Guard.owning, hh]
  balance o := by
    rw [owned_of_not_owns o hv, Guard.owned_of_owns (o := M.object h) rfl (by simp [target,
      Guard.owning, hh]), update_succ, Nat.add_zero]
  failed h := by cases h

omit [DecidableEq G] [DecidableEq O] in
theorem abandons_of_validate {s : State G μ O} {g : G} {v : Guard μ} {m : μ} {h : Handle}
    (hg : s.guards g = some v) (hv : v.validate = .ok m) (hh : (M.deref m).mutexHandle = some h)
    (r : WaitResult) : abandons M s (.lock g r) = (r == .abandoned) := by
  obtain ⟨hm, ho⟩ := Guard.validate_ok hv
  obtain ⟨p, b, hp⟩ := v
  simp only at hm ho
  subst hm ho
  simp [abandons, hg, hh]

omit [DecidableEq G] in
theorem Guard.lock_spec {s : State G μ O} {g : G} {v : Guard μ} {r : WaitResult}
    (hg : s.guards g = some v) (hb : Backed M v) (ha : abandons M s (.lock g r) = false) :
    WaitSpec M v (v.lock M r s.hold).2.1 s.hold (v.lock M r s.hold).2.2
      (outcome (v.lock M r s.hold).1).succeeded := by
  cases hval : v.validate with
  | error e => simpa [Guard.lock, hval, outcome, Outcome.succeeded] using WaitSpec.refl hb s.hold
  | ok m =>
    obtain ⟨hm, ho⟩ := Guard.validate_ok hval
    cases hh : (M.deref m).mutexHandle with
    | none =>
      simpa [Guard.lock, hval, ProcessMutex.lock, waitForSingleObject, hh, outcome, Outcome.succeeded] using
        WaitSpec.refl hb s.hold
    | some h =>
      rw [abandons_of_validate hg hval hh] at ha
      cases r with
      | object0 =>
        simpa [Guard.lock, hval, ProcessMutex.lock, waitForSingleObject, hh, outcome,
          Outcome.succeeded, WaitResult.acquires] using WaitSpec.acquired ho hh s.hold
      | abandoned => cases ha
      | timeout => simpa [Guard.lock, hval, ProcessMutex.lock, waitForSingleObject, hh, outcome,
          Outcome.succeeded, WaitResult.acquires] using WaitSpec.refl hb s.hold
      | failed => simpa [Guard.lock, hval, ProcessMutex.lock, waitForSingleObject, hh, outcome,
          Outcome.succeeded, WaitResult.acquires] using WaitSpec.refl hb s.hold

omit [DecidableEq G] in
theorem Guard.tryLockFor_spec {s : State G μ O} {g : G} {v : Guard μ} {r : WaitResult}
    (hg : s.guards g = some v) (hb : Backed M v) (ha : abandons M s (.tryLockFor g r) = false) :
    WaitSpec M v (v.tryLockFor M r s.hold).2.1 s.hold (v.tryLockFor M r s.hold).2.2
      (outcomeBool (v.tryLockFor M r s.hold).1).succeeded := by
  cases hval : v.validate with
  | error e =>
    simpa [Guard.tryLockFor, hval, outcomeBool, Outcome.succeeded] using WaitSpec.refl hb s.hold
  | ok m =>
    obtain ⟨hm, ho⟩ := Guard.validate_ok hval
    cases hh : (M.deref m).mutexHandle with
    | none =>
      simpa [Guard.tryLockFor, hval, ProcessMutex.tryLockFor, waitForSingleObject, hh, outcomeBool,
        Outcome.succeeded] using WaitSpec.refl hb s.hold
    | some h =>
      have ha' : abandons M s (.lock g r) = false := ha
      rw [abandons_of_validate hg hval hh] at ha'
      cases r with
      | object0 =>
        simpa [Guard.tryLockFor, hval, ProcessMutex.tryLockFor, waitForSingleObject, hh, outcomeBool,
          Outcome.succeeded, WaitResult.acquires] using WaitSpec.acquired ho hh s.hold
      | abandoned => cases ha'
      | timeout =>
        have hon : v = Guard.on m := by
          obtain ⟨p, b, hp⟩ := v
          simp only at hm ho
          subst hm ho
          rfl
        simpa [Guard.tryLockFor, hval, ProcessMutex.tryLockFor, waitForSingleObject, hh, outcomeBool,
          Outcome.succeeded, WaitResult.acquires, ← hon] using WaitSpec.refl hb s.hold
      | failed => simpa [Guard.tryLockFor, hval, ProcessMutex.tryLockFor, waitForSingleObject, hh,
          outcomeBool, Outcome.succeeded, WaitResult.acquires] using WaitSpec.refl hb s.hold

end SysUtils.ProcessLock

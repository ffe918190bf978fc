import Mathlib.Data.Fintype.Basic
import SysUtils.ProcessLock.Balance

namespace SysUtils.ProcessLock

open Interleaving

variable {μ O : Type} [DecidableEq O] {M : Mutexes μ O}

theorem waitForSingleObject_grows {h : Option Handle} {r : WaitResult} {hold : Hold O}
    {o : O} (hlt : hold o < (waitForSingleObject M h r hold).2 o) :
    h.map M.object = some o ∧ r.acquires = true := by
  cases h with
  | none => exact absurd hlt (lt_irrefl _)
  | some h =>
    simp only [waitForSingleObject] at hlt
    split_ifs at hlt with hr
    · rw [update_succ] at hlt
      split_ifs at hlt with ho
      · exact ⟨congrArg some ho, hr⟩
      · omega
    · exact absurd hlt (lt_irrefl _)

theorem ProcessMutex.unlock_le {m : ProcessMutex} {hold hold' : Hold O}
    (h : m.unlock M hold = .ok hold') (o : O) : hold' o ≤ hold o := by
  unfold ProcessMutex.unlock releaseMutex at h
  cases hh : m.mutexHandle with
  | none => simp [hh] at h
  | some k =>
    simp only [hh] at h
    split_ifs at h with hz
    cases h
    have hpred := update_pred (Nat.pos_of_ne_zero hz) o
    omega

theorem Guard.release_le {v : Guard μ} {hold hold' : Hold O}
    (h : v.release M hold = .ok hold') (o : O) : hold' o ≤ hold o := by
  unfold Guard.release at h
  split_ifs at h with ho
  · exact ProcessMutex.unlock_le h o
  · cases h
    exact le_rfl

theorem Guard.unlock_le (v : Guard μ) (hold : Hold O) (o : O) :
    (v.unlock M hold).2.2 o ≤ hold o := by
  unfold Guard.unlock
  cases v.pmtx with
  | none => exact le_rfl
  | some m =>
    dsimp only
    split_ifs with ho
    · exact le_rfl
    · cases hu : (M.deref m).unlock M hold with
      | error e => exact le_rfl
      | ok hold' => exact ProcessMutex.unlock_le hu o

theorem Guard.lock_hold (v : Guard μ) (r : WaitResult) (hold : Hold O) :
    (v.lock M r hold).2.2 = match v.validate with
      | .error _ => hold
      | .ok m => (waitForSingleObject M (M.deref m).mutexHandle r hold).2 := by
  unfold Guard.lock
  cases v.validate with
  | error e => rfl
  | ok m =>
    unfold ProcessMutex.lock
    dsimp only
    split_ifs <;> rfl

theorem Guard.tryLockFor_hold (v : Guard μ) (r : WaitResult) (hold : Hold O) :
    (v.tryLockFor M r hold).2.2 = (v.lock M r hold).2.2 := by
  rw [Guard.lock_hold]
  unfold Guard.tryLockFor
  cases v.validate with
  | error e => rfl
  | ok m =>
    unfold ProcessMutex.tryLockFor
    dsimp only
    split_ifs <;> rfl

variable {G : Type}

def waitedFor (M : Mutexes μ O) (s : State G μ O) (g : G) : Option O :=
  (s.guards g).bind fun v =>
    match v.validate with
    | .ok m => (M.deref m).mutexHandle.map M.object
    | .error _ => none

theorem Guard.lock_grows {s : State G μ O} {g : G} {v : Guard μ} {r : WaitResult}
    {o : O} (hg : s.guards g = some v) (hlt : s.hold o < (v.lock M r s.hold).2.2 o) :
    r.acquires = true ∧ waitedFor M s g = some o := by
  rw [Guard.lock_hold] at hlt
  cases hv : v.validate with
  | error e => simp [hv] at hlt
  | ok m =>
    rw [hv] at hlt
    obtain ⟨ho, hr⟩ := waitForSingleObject_grows hlt
    exact ⟨hr, by simp [waitedFor, hg, hv, ho]⟩

/-! The threads of any number of processes that share the kernel mutexes `o : O`. -/

/-- How often each thread holds each mutex, and the mutexes whose last owner ended without giving them
back. -/
structure KernelMutexes (ι O : Type) where
  hold : ι → Hold O
  abandoned : O → Bool

variable {ι : Type}

structure Exclusive (k : KernelMutexes ι O) : Prop where
  one : ∀ o i j, k.hold i o ≠ 0 → k.hold j o ≠ 0 → i = j
  free : ∀ o, k.abandoned o = true → ∀ i, k.hold i o = 0

variable [DecidableEq ι] [Fintype ι]

def KernelMutexes.heldElsewhere (k : KernelMutexes ι O) (i : ι) (o : O) : Bool :=
  decide (∃ j, j ≠ i ∧ k.hold j o ≠ 0)

/-- What `WaitForSingleObject` may answer to thread `i`; only a wait that is not `INFINITE` times out. -/
def KernelMutexes.answers (k : KernelMutexes ι O) (i : ι) (o : O) (finite : Bool) : WaitResult → Bool
  | .object0 => !k.heldElsewhere i o && !k.abandoned o
  | .abandoned => !k.heldElsewhere i o && k.abandoned o
  | .timeout => finite && k.heldElsewhere i o
  | .failed => true

def allowed (M : Mutexes μ O) (k : KernelMutexes ι O) (i : ι) (s : State G μ O) : Op G μ → Bool
  | .lock g r => (waitedFor M s g).all fun o => k.answers i o false r
  | .tryLockFor g r => (waitedFor M s g).all fun o => k.answers i o true r
  | _ => true

omit [DecidableEq O] in
theorem abandoned_of_allowed {k : KernelMutexes ι O} {i : ι} {s : State G μ O} {op : Op G μ}
    (ha : allowed M k i s op = true) (hab : abandons M s op = true) : ∃ o, k.abandoned o = true := by
  have key (g : G) (r : WaitResult) (finite : Bool)
      (ha : (waitedFor M s g).all (fun o => k.answers i o finite r) = true)
      (hab : abandons M s (.lock g r) = true) : ∃ o, k.abandoned o = true := by
    simp only [abandons] at hab
    split at hab
    · rename_i m hp hg
      obtain ⟨hk, hr⟩ := Bool.and_eq_true_iff.mp hab
      obtain ⟨h, hh⟩ := Option.isSome_iff_exists.mp hk
      obtain rfl : r = .abandoned := by simpa using hr
      have hwaited : waitedFor M s g = some (M.object h) := by simp [waitedFor, hg, Guard.validate, hh]
      rw [hwaited] at ha
      exact ⟨_, (Bool.and_eq_true_iff.mp ha).2⟩
    · cases hab
  cases op with
  | lock g r => exact key g r false ha hab
  | tryLockFor g r => exact key g r true ha hab
  | _ => cases hab

inductive Act (G μ : Type) where
  | op (op : Op G μ)
  /-- The thread ends, and none of its guards is destroyed. -/
  | end

abbrev Guards (G μ : Type) := G → Option (Guard μ)

def KernelMutexes.seenBy (k : KernelMutexes ι O) (i : ι) (guards : Guards G μ) : State G μ O :=
  ⟨guards, k.hold i⟩

def KernelMutexes.after (k : KernelMutexes ι O) (i : ι) (hold : Hold O) : KernelMutexes ι O where
  hold := Function.update k.hold i hold
  abandoned o := k.abandoned o && hold o == 0

def KernelMutexes.abandon (k : KernelMutexes ι O) (i : ι) : KernelMutexes ι O where
  hold := Function.update k.hold i fun _ => 0
  abandoned o := k.abandoned o || k.hold i o != 0

omit [DecidableEq O] in
theorem KernelMutexes.not_heldElsewhere {k : KernelMutexes ι O} {i j : ι} {o : O} (h : k.heldElsewhere i o = false)
    (hj : k.hold j o ≠ 0) : j = i := by
  by_contra hne
  exact absurd ⟨j, hne, hj⟩ (of_decide_eq_false h)

omit [DecidableEq O] in
theorem Exclusive.after {k : KernelMutexes ι O} (h : Exclusive k) {i : ι} {hold : Hold O}
    (hgrows : ∀ o, k.hold i o < hold o → k.heldElsewhere i o = false) :
    Exclusive (k.after i hold) := by
  have hi (o : O) (j : ι) (hne : j ≠ i) (hj : k.hold j o ≠ 0) : hold o = 0 := by
    by_contra hpos
    by_cases hlt : k.hold i o < hold o
    · exact hne (KernelMutexes.not_heldElsewhere (hgrows o hlt) hj)
    · exact hne (h.one o j i hj (by omega))
  have hother (j : ι) (hne : j ≠ i) : (k.after i hold).hold j = k.hold j := Function.update_of_ne hne _ _
  have hself : (k.after i hold).hold i = hold := Function.update_self _ _ _
  constructor
  · intro o a b ha hb
    by_cases hai : a = i
    · by_cases hbi : b = i
      · rw [hai, hbi]
      · rw [hother b hbi] at hb
        rw [hai, hself] at ha
        exact absurd (hi o b hbi hb) ha
    · rw [hother a hai] at ha
      by_cases hbi : b = i
      · rw [hbi, hself] at hb
        exact absurd (hi o a hai ha) hb
      · rw [hother b hbi] at hb
        exact h.one o a b ha hb
  · intro o hab j
    obtain ⟨hold₀, hz⟩ := Bool.and_eq_true_iff.mp hab
    by_cases hj : j = i
    · rw [hj, hself]
      simpa using hz
    · rw [hother j hj]
      exact h.free o hold₀ j

omit [Fintype ι] [DecidableEq O] in
theorem Exclusive.abandon {k : KernelMutexes ι O} (h : Exclusive k) (i : ι) : Exclusive (k.abandon i) := by
  have hother (j : ι) (hne : j ≠ i) : (k.abandon i).hold j = k.hold j := Function.update_of_ne hne _ _
  have hself (o : O) : (k.abandon i).hold i o = 0 := by
    simp [KernelMutexes.abandon]
  constructor
  · intro o a b ha hb
    have hai : a ≠ i := by
      rintro rfl
      exact ha (hself o)
    have hbi : b ≠ i := by
      rintro rfl
      exact hb (hself o)
    rw [hother a hai] at ha
    rw [hother b hbi] at hb
    exact h.one o a b ha hb
  · intro o hab j
    by_cases hj : j = i
    · rw [hj]
      exact hself o
    · rw [hother j hj]
      by_contra hne
      rcases Bool.or_eq_true_iff.mp hab with hab | hheld
      · exact hne (h.free o hab j)
      · exact hj (h.one o j i hne (by simpa using hheld))

variable [DecidableEq G]

theorem allowed_grows {k : KernelMutexes ι O} {i : ι} {s t : State G μ O} {op : Op G μ}
    {res : Outcome} (ha : allowed M k i s op = true) (hs : step M s op = some (res, t)) {o : O}
    (hlt : s.hold o < t.hold o) : k.heldElsewhere i o = false := by
  have hgranted {finite : Bool} {r : WaitResult} (hr : r.acquires = true)
      (h : k.answers i o finite r = true) : k.heldElsewhere i o = false := by
    cases r with
    | object0 => simpa using (Bool.and_eq_true_iff.mp h).1
    | abandoned => simpa using (Bool.and_eq_true_iff.mp h).1
    | timeout => cases hr
    | failed => cases hr
  cases op with
  | construct g =>
    simp only [step] at hs
    split at hs <;> cases hs
    exact absurd hlt (lt_irrefl _)
  | constructOn g m =>
    simp only [step] at hs
    split at hs <;> cases hs
    exact absurd hlt (lt_irrefl _)
  | lock g r =>
    obtain ⟨v, hg, he⟩ := Option.map_eq_some_iff.mp hs
    obtain ⟨rfl, rfl⟩ := Prod.mk.inj he
    obtain ⟨hr, ho⟩ := Guard.lock_grows hg hlt
    simp only [allowed, ho, Option.all_some] at ha
    exact hgranted hr ha
  | tryLockFor g r =>
    obtain ⟨v, hg, he⟩ := Option.map_eq_some_iff.mp hs
    obtain ⟨rfl, rfl⟩ := Prod.mk.inj he
    simp only [State.put, Guard.tryLockFor_hold] at hlt
    obtain ⟨hr, ho⟩ := Guard.lock_grows hg hlt
    simp only [allowed, ho, Option.all_some] at ha
    exact hgranted hr ha
  | unlock g =>
    obtain ⟨v, hg, he⟩ := Option.map_eq_some_iff.mp hs
    obtain ⟨rfl, rfl⟩ := Prod.mk.inj he
    exact absurd hlt (Nat.not_lt.mpr (Guard.unlock_le v s.hold o))
  | moveConstruct g f =>
    simp only [step] at hs
    split at hs <;> cases hs
    exact absurd hlt (lt_irrefl _)
  | moveAssign g f =>
    simp only [step] at hs
    split at hs
    · rename_i v w hg hf
      split_ifs at hs with hgf
      · cases hs
        exact absurd hlt (lt_irrefl _)
      · split at hs
        · cases hs
          exact absurd hlt (lt_irrefl _)
        · rename_i hold' hr
          cases hs
          exact absurd hlt (Nat.not_lt.mpr (Guard.release_le hr o))
    · cases hs
  | destroy g =>
    obtain ⟨v, hg, he⟩ := Option.map_eq_some_iff.mp hs
    split at he
    · cases he
      exact absurd hlt (lt_irrefl _)
    · rename_i hold' hr
      cases he
      exact absurd hlt (Nat.not_lt.mpr (Guard.release_le hr o))

def threads (M : ι → Mutexes μ O) :
    Threads ι (KernelMutexes ι O) (Act G μ) (fun _ => Guards G μ) where
  step i x k guards :=
    match x with
    | .op op =>
        if allowed (M i) k i (k.seenBy i guards) op then
          (step (M i) (k.seenBy i guards) op).map fun r => (k.after i r.2.hold, r.2.guards)
        else none
    | .end => some (k.abandon i, fun _ => none)

abbrev System (ι G μ O : Type) := Config (KernelMutexes ι O) (fun _ : ι => Guards G μ)

def start : System ι G μ O := ⟨⟨fun _ _ => 0, fun _ => false⟩, fun _ _ => none⟩

theorem seenBy_other {M : ι → Mutexes μ O} {s : System ι G μ O} {i j : ι} (hij : j ≠ i) {x : Act G μ}
    {r : KernelMutexes ι O × Guards G μ} (hr : (threads M).step i x s.shared (s.loc i) = some r) :
    (s.set i r).shared.seenBy j ((s.set i r).loc j) = s.shared.seenBy j (s.loc j) := by
  rw [Config.set_loc_of_ne _ hij, Config.set_shared]
  unfold KernelMutexes.seenBy
  cases x with
  | op op =>
    simp only [threads, Option.ite_none_right_eq_some] at hr
    obtain ⟨_, ⟨res, t⟩, _, rfl⟩ := hr.imp_right Option.map_eq_some_iff.mp
    simp only [KernelMutexes.after, Function.update_of_ne hij]
  | «end» =>
    cases hr
    simp only [KernelMutexes.abandon, Function.update_of_ne hij]

theorem op_step {M : ι → Mutexes μ O} {s : System ι G μ O} {i : ι} {op : Op G μ}
    {r : KernelMutexes ι O × Guards G μ}
    (hr : (threads M).step i (.op op) s.shared (s.loc i) = some r) :
    allowed (M i) s.shared i (s.shared.seenBy i (s.loc i)) op = true ∧
      ∃ res t, step (M i) (s.shared.seenBy i (s.loc i)) op = some (res, t) ∧
        r = (s.shared.after i t.hold, t.guards) ∧
        (s.set i r).shared.seenBy i ((s.set i r).loc i) = t := by
  simp only [threads, Option.ite_none_right_eq_some] at hr
  obtain ⟨ha, hr⟩ := hr
  obtain ⟨⟨res, t⟩, hs, rfl⟩ := Option.map_eq_some_iff.mp hr
  refine ⟨ha, res, t, hs, rfl, ?_⟩
  rw [Config.set_loc_self, Config.set_shared]
  simp [KernelMutexes.seenBy, KernelMutexes.after]

end SysUtils.ProcessLock

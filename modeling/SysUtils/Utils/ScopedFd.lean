import Mathlib.Algebra.Order.Group.Multiset
import Mathlib.Data.Int.Order.Basic
import SysUtils.Holdings

namespace SysUtils.Utils

open Holdings

structure Descriptors where
  opened : Finset ℤ
  created : List ℤ
  closed : List ℤ

namespace Descriptors

def answers (d : Descriptors) (fd : ℤ) : Bool := decide (fd < 0 ∨ fd ∉ d.opened)

def open_ (d : Descriptors) (fd : ℤ) : Descriptors :=
  if fd < 0 then d else { d with opened := insert fd d.opened, created := d.created ++ [fd] }

def close (d : Descriptors) (fd : ℤ) : Descriptors :=
  { d with opened := d.opened.erase fd, closed := d.closed ++ [fd] }

end Descriptors

structure ScopedFd where
  fd : ℤ
  deriving DecidableEq, Repr

def ScopedFd.destroy (o : ScopedFd) (d : Descriptors) : Descriptors := if 0 ≤ o.fd then d.close o.fd else d

/-- What is done with the `ScopedFd` objects `g : G`; `fd` is what `open` returns. The class has no copy
constructor, but the copy assignment that the compiler declares. -/
inductive FdOp (G : Type) where
  | construct (g : G) (fd : ℤ)
  | assign (g from_ : G)
  | assignInt (g : G) (fd : ℤ)
  | destroy (g : G)

structure FdObjects (G : Type) where
  fds : G → Option ScopedFd
  descriptors : Descriptors

namespace FdObjects

variable {G : Type} [DecidableEq G]

def initial : FdObjects G := ⟨fun _ => none, ⟨∅, [], []⟩⟩

def step (s : FdObjects G) : FdOp G → Option (FdObjects G)
  | .construct g fd =>
      match s.fds g, s.descriptors.answers fd with
      | none, true => some ⟨Function.update s.fds g (some ⟨fd⟩), s.descriptors.open_ fd⟩
      | _, _ => none
  | .assign g from_ =>
      match s.fds g, s.fds from_ with
      | some _, some rhs => some { s with fds := Function.update s.fds g (some rhs) }
      | _, _ => none
  -- the integer is converted to a temporary object, which is copied and destroyed
  | .assignInt g fd =>
      match s.fds g, s.descriptors.answers fd with
      | some _, true =>
          some ⟨Function.update s.fds g (some ⟨fd⟩), (ScopedFd.mk fd).destroy (s.descriptors.open_ fd)⟩
      | _, _ => none
  | .destroy g =>
      (s.fds g).map fun o => ⟨Function.update s.fds g none, o.destroy s.descriptors⟩

omit [DecidableEq G] in
def owned (o : ScopedFd) : Option ℤ := if 0 ≤ o.fd then some o.fd else none

omit [DecidableEq G] in
def heldBy (fds : G → Option ScopedFd) (g : G) : Option ℤ := (fds g).bind owned

structure Accounted (s : FdObjects G) : Prop where
  exact : Exact (heldBy s.fds) s.descriptors.opened
  balance : (s.descriptors.created : Multiset ℤ) = s.descriptors.opened.val + s.descriptors.closed

def overwrites (s : FdObjects G) : FdOp G → Bool
  | .assign g from_ => decide (g ≠ from_ ∧ (heldBy s.fds g ≠ none ∨ heldBy s.fds from_ ≠ none))
  | .assignInt g fd => decide (heldBy s.fds g ≠ none ∨ 0 ≤ fd)
  | _ => false

theorem heldBy_update (fds : G → Option ScopedFd) (g : G) (o : Option ScopedFd) :
    heldBy (Function.update fds g o) = Function.update (heldBy fds) g (o.bind owned) := by
  funext j
  by_cases hj : j = g
  · subst hj
    simp [heldBy]
  · simp [heldBy, Function.update_of_ne hj]

theorem owned_of_neg {fd : ℤ} (h : fd < 0) : owned ⟨fd⟩ = none := if_neg (Int.not_le.mpr h)

theorem owned_of_nonneg {fd : ℤ} (h : 0 ≤ fd) : owned ⟨fd⟩ = some fd := if_pos h

variable {s t : FdObjects G} {g f : G} {fd : ℤ}

theorem Accounted.keep (h : Accounted s) {o : Option ScopedFd} (hg : heldBy s.fds g = o.bind owned) :
    Accounted { s with fds := Function.update s.fds g o } := by
  refine ⟨?_, h.balance⟩
  rw [heldBy_update, ← hg, Function.update_eq_self]
  exact h.exact

theorem Accounted.construct (h : Accounted s) (hg : s.fds g = none) (hfd : s.descriptors.answers fd = true) :
    Accounted ⟨Function.update s.fds g (some ⟨fd⟩), s.descriptors.open_ fd⟩ := by
  have hnone : heldBy s.fds g = none := by simp [heldBy, hg]
  unfold Descriptors.open_
  split_ifs with hneg
  · apply h.keep
    rw [hnone, Option.bind_some, owned_of_neg hneg]
  · have hfresh : fd ∉ s.descriptors.opened := (of_decide_eq_true hfd).resolve_left hneg
    constructor
    · rw [heldBy_update, Option.bind_some, owned_of_nonneg (Int.not_lt.mp hneg)]
      exact h.exact.acquire hnone hfresh
    · change ((s.descriptors.created ++ [fd] : List ℤ) : Multiset ℤ) =
        (insert fd s.descriptors.opened).val + s.descriptors.closed
      rw [Finset.insert_val_of_notMem hfresh, Multiset.cons_add, ← h.balance, ← Multiset.coe_add,
        Multiset.add_comm]
      rfl

theorem Accounted.destroy (h : Accounted s) {o : ScopedFd} (hg : s.fds g = some o) :
    Accounted ⟨Function.update s.fds g none, o.destroy s.descriptors⟩ := by
  have hheld : heldBy s.fds g = owned o := by simp [heldBy, hg]
  unfold ScopedFd.destroy
  split_ifs with hfd
  · rw [owned_of_nonneg hfd] at hheld
    have hopen : o.fd ∈ s.descriptors.opened := (h.exact.open_iff o.fd).mpr ⟨g, hheld⟩
    constructor
    · rw [heldBy_update]
      exact h.exact.release hheld
    · change (s.descriptors.created : Multiset ℤ) =
        (s.descriptors.opened.erase o.fd).val + (s.descriptors.closed ++ [o.fd] : List ℤ)
      rw [Finset.erase_val, ← Multiset.coe_add]
      calc (s.descriptors.created : Multiset ℤ)
          = s.descriptors.opened.val + s.descriptors.closed := h.balance
        _ = {o.fd} + s.descriptors.opened.val.erase o.fd + s.descriptors.closed := by
          rw [Multiset.singleton_add, Multiset.cons_erase hopen]
        _ = s.descriptors.opened.val.erase o.fd + (s.descriptors.closed + ([o.fd] : List ℤ)) := by
          rw [add_comm ({o.fd} : Multiset ℤ), add_assoc, add_comm ({o.fd} : Multiset ℤ)]
          rfl
  · apply h.keep
    rw [hheld, owned_of_neg (Int.not_le.mp hfd)]
    rfl

theorem Accounted.assign_iff (h : Accounted s) {rhs : ScopedFd} (hf : s.fds f = some rhs) :
    Accounted { s with fds := Function.update s.fds g (some rhs) } ↔
      ¬ (g ≠ f ∧ (heldBy s.fds g ≠ none ∨ heldBy s.fds f ≠ none)) := by
  have hrhs : heldBy s.fds f = owned rhs := by simp [heldBy, hf]
  constructor
  · rintro ht ⟨hne, hheld⟩
    have hexact : Exact (Function.update (heldBy s.fds) g (heldBy s.fds f)) s.descriptors.opened := by
      have := ht.exact
      rwa [heldBy_update, Option.bind_some, ← hrhs] at this
    cases hfd : heldBy s.fds f with
    | some k =>
      apply hne
      apply hexact.unique g f k
      · rw [Function.update_self, hfd]
      · rw [Function.update_of_ne hne.symm, hfd]
    | none =>
      obtain ⟨k, hk⟩ := Option.ne_none_iff_exists'.mp (hheld.resolve_right (not_not.mpr hfd))
      have hopen : k ∈ s.descriptors.opened := (h.exact.open_iff k).mpr ⟨g, hk⟩
      refine not_exact_of_lost hopen ?_ hexact
      exact h.exact.lost_of_update hk (by rw [hfd]; exact Option.some_ne_none k |>.symm)
  · intro hok
    apply h.keep
    by_cases hgf : g = f
    · rw [hgf, hrhs]
      rfl
    · have hnone := not_or.mp fun hheld => hok ⟨hgf, hheld⟩
      rw [not_not.mp hnone.1, Option.bind_some, ← hrhs, not_not.mp hnone.2]

theorem Accounted.assignInt_iff (h : Accounted s) :
    Accounted ⟨Function.update s.fds g (some ⟨fd⟩), (ScopedFd.mk fd).destroy (s.descriptors.open_ fd)⟩ ↔
      ¬ (heldBy s.fds g ≠ none ∨ 0 ≤ fd) := by
  by_cases hneg : fd < 0
  · have hsame : (ScopedFd.mk fd).destroy (s.descriptors.open_ fd) = s.descriptors := by
      simp [ScopedFd.destroy, Descriptors.open_, hneg]
    rw [hsame]
    constructor
    · rintro ht (hheld | hpos)
      · obtain ⟨k, hk⟩ := Option.ne_none_iff_exists'.mp hheld
        have hopen : k ∈ s.descriptors.opened := (h.exact.open_iff k).mpr ⟨g, hk⟩
        have hexact := ht.exact
        rw [heldBy_update, Option.bind_some, owned_of_neg hneg] at hexact
        exact not_exact_of_lost hopen (h.exact.lost_of_update hk (Option.some_ne_none k).symm) hexact
      · omega
    · intro hok
      apply h.keep
      rw [not_not.mp (not_or.mp hok).1, Option.bind_some, owned_of_neg hneg]
  · have hpos : 0 ≤ fd := Int.not_lt.mp hneg
    refine iff_of_false ?_ (not_not.mpr (.inr hpos))
    intro ht
    have hmem := (ht.exact.open_iff fd).mpr ⟨g, by
      rw [heldBy_update, Function.update_self, Option.bind_some, owned_of_nonneg hpos]⟩
    simp [ScopedFd.destroy, Descriptors.close, hpos] at hmem

theorem accounted_step_iff (h : Accounted s) {op : FdOp G} (hs : s.step op = some t) :
    Accounted t ↔ s.overwrites op = false := by
  cases op with
  | construct g fd =>
    simp only [step] at hs
    split at hs
    · cases hs
      exact iff_of_true (h.construct (by assumption) (by assumption)) rfl
    · cases hs
  | assign g f =>
    simp only [step] at hs
    split at hs
    · cases hs
      rw [h.assign_iff (by assumption)]
      exact decide_eq_false_iff_not.symm
    · cases hs
  | assignInt g fd =>
    simp only [step] at hs
    split at hs
    · cases hs
      rw [h.assignInt_iff]
      exact decide_eq_false_iff_not.symm
    · cases hs
  | destroy g =>
    obtain ⟨o, hg, rfl⟩ := Option.map_eq_some_iff.mp hs
    exact iff_of_true (h.destroy hg) rfl

theorem descriptors_accounted_iff (ops : List (FdOp G)) :
    Always step Accounted (initial : FdObjects G) ops ↔
      Somewhere step overwrites (initial : FdObjects G) ops = false := by
  apply always_iff fun s op t hs ht => accounted_step_iff hs ht
  exact ⟨Exact.empty, rfl⟩

example : ¬ Always step Accounted (initial : FdObjects (Fin 1)) [.construct 0 (-1), .assignInt 0 3] := by
  rintro h
  have hmem := ((h _ rfl).2 _ rfl).1.exact.open_iff 3
  revert hmem
  decide

end FdObjects

end SysUtils.Utils

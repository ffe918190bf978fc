import Mathlib.Algebra.Order.BigOperators.Group.Finset
import SysUtils.Interleaving.Sums
import SysUtils.ProcessLock.Guard

namespace SysUtils.ProcessLock

open Interleaving

inductive Op (G μ : Type) where
  | construct (g : G)
  | constructOn (g : G) (m : μ)
  | lock (g : G) (r : WaitResult)
  | tryLockFor (g : G) (r : WaitResult)
  | unlock (g : G)
  | moveConstruct (g from_ : G)
  | moveAssign (g from_ : G)
  | destroy (g : G)

inductive Outcome where
  | returned | returnedBool (b : Bool) | threw (e : Error) | terminated
  deriving DecidableEq, Repr

def Outcome.succeeded : Outcome → Bool
  | .returned | .returnedBool true => true
  | .returnedBool false | .threw _ | .terminated => false

structure State (G μ O : Type) where
  guards : G → Option (Guard μ)
  hold : Hold O

variable {G μ O : Type} [DecidableEq G] [DecidableEq O]

def State.put (s : State G μ O) (g : G) (v : Option (Guard μ)) (hold : Hold O) : State G μ O :=
  ⟨Function.update s.guards g v, hold⟩

def outcome : Except Error Unit → Outcome
  | .ok () => .returned
  | .error e => .threw e

def outcomeBool : Except Error Bool → Outcome
  | .ok b => .returnedBool b
  | .error e => .threw e

def step (M : Mutexes μ O) (s : State G μ O) : Op G μ → Option (Outcome × State G μ O)
  | .construct g =>
      match s.guards g with
      | none => some (.returned, s.put g (some .empty) s.hold)
      | some _ => none
  | .constructOn g m =>
      match s.guards g with
      | none => some (.returned, s.put g (some (.on m)) s.hold)
      | some _ => none
  | .lock g r =>
      (s.guards g).map fun v =>
        let res := v.lock M r s.hold
        (outcome res.1, s.put g (some res.2.1) res.2.2)
  | .tryLockFor g r =>
      (s.guards g).map fun v =>
        let res := v.tryLockFor M r s.hold
        (outcomeBool res.1, s.put g (some res.2.1) res.2.2)
  | .unlock g =>
      (s.guards g).map fun v =>
        let res := v.unlock M s.hold
        (outcome res.1, s.put g (some res.2.1) res.2.2)
  | .moveConstruct g from_ =>
      match s.guards g, s.guards from_ with
      | none, some v => some (.returned, (s.put g (some v) s.hold).put from_ (some .empty) s.hold)
      | _, _ => none
  | .moveAssign g from_ =>
      match s.guards g, s.guards from_ with
      | some v, some w =>
          if g = from_ then some (.returned, s)
          else
            match v.release M s.hold with
            | .error e => some (.threw e, s)
            | .ok hold' => some (.returned, (s.put g (some w) hold').put from_ (some .empty) hold')
      | _, _ => none
  | .destroy g =>
      (s.guards g).map fun v =>
        match v.release M s.hold with
        | .error _ => (.terminated, s)
        | .ok hold' => (.returned, s.put g none hold')

def target (M : Mutexes μ O) (v : Guard μ) : Option O :=
  v.pmtx.bind fun m => (M.deref m).mutexHandle.map M.object

def owned (M : Mutexes μ O) (o : O) : Option (Guard μ) → ℕ
  | none => 0
  | some v => if v.owns = true ∧ target M v = some o then 1 else 0

def Backed (M : Mutexes μ O) (v : Guard μ) : Prop := v.owns = true → (target M v).isSome = true

def ownedSum [Fintype G] (M : Mutexes μ O) (o : O) (guards : G → Option (Guard μ)) : ℕ :=
  ∑ g, owned M o (guards g)

def Balanced [Fintype G] (M : Mutexes μ O) (s : State G μ O) : Prop :=
  ∀ o, s.hold o = ownedSum M o s.guards

def abandons (M : Mutexes μ O) (s : State G μ O) : Op G μ → Bool
  | .lock g r | .tryLockFor g r =>
      match s.guards g with
      | some ⟨some m, false, _⟩ => (M.deref m).mutexHandle.isSome && r == .abandoned
      | _ => false
  | _ => false

end SysUtils.ProcessLock

import Mathlib.Data.Nat.Notation
import Mathlib.Logic.Function.Basic

namespace SysUtils.ProcessLock

inductive WaitResult where
  | object0 | abandoned | timeout | failed
  deriving DecidableEq, Repr

def WaitResult.code : WaitResult → ℕ
  | .object0 => 0
  | .abandoned => 0x80
  | .timeout => 0x102
  | .failed => 0xFFFFFFFF

def WaitResult.acquires : WaitResult → Bool
  | .object0 | .abandoned => true
  | .timeout | .failed => false

inductive Errc where
  | operationNotPermitted | resourceDeadlockWouldOccur
  deriving DecidableEq, Repr

inductive Error where
  | mutexError (code : ℕ) (what : String)
  | systemError (code : Errc)
  deriving DecidableEq, Repr

abbrev Handle := ℕ

structure ProcessMutex where
  mutexHandle : Option Handle

structure Mutexes (μ O : Type) where
  deref : μ → ProcessMutex
  object : Handle → O

variable {μ O : Type} [DecidableEq O]

abbrev Hold (O : Type) := O → ℕ

/-- The system chooses the result, except that it can only fail on a null handle. -/
def waitForSingleObject (M : Mutexes μ O) (h : Option Handle) (r : WaitResult) (hold : Hold O) :
    WaitResult × Hold O :=
  match h with
  | none => (.failed, hold)
  | some h =>
      (r, if r.acquires then Function.update hold (M.object h) (hold (M.object h) + 1) else hold)

def releaseMutex (M : Mutexes μ O) (h : Option Handle) (hold : Hold O) : Except ℕ (Hold O) :=
  match h with
  | none => .error 6
  | some h =>
      if hold (M.object h) = 0 then .error 288
      else .ok (Function.update hold (M.object h) (hold (M.object h) - 1))

namespace ProcessMutex

def lock (M : Mutexes μ O) (m : ProcessMutex) (r : WaitResult) (hold : Hold O) :
    Except Error Unit × Hold O :=
  let (ec, hold') := waitForSingleObject M m.mutexHandle r hold
  if ec ≠ .object0 then (.error (.mutexError ec.code "process_mutex lock error!"), hold')
  else (.ok (), hold')

def tryLockFor (M : Mutexes μ O) (m : ProcessMutex) (r : WaitResult) (hold : Hold O) :
    Except Error Bool × Hold O :=
  let (ec, hold') := waitForSingleObject M m.mutexHandle r hold
  if ec = .timeout then (.ok false, hold')
  else if ec = .object0 then (.ok true, hold')
  else (.error (.mutexError ec.code "process_mutex lock error!"), hold')

def unlock (M : Mutexes μ O) (m : ProcessMutex) (hold : Hold O) : Except Error (Hold O) :=
  match releaseMutex M m.mutexHandle hold with
  | .ok hold' => .ok hold'
  | .error ec => .error (.mutexError ec "process_mutex unlock error!")

end ProcessMutex

structure Guard (μ : Type) where
  pmtx : Option μ
  owns : Bool
  pointed : owns = true → pmtx.isSome = true

namespace Guard

def empty : Guard μ := ⟨none, false, by simp⟩

def on (m : μ) : Guard μ := ⟨some m, false, by simp⟩

def owning (m : μ) : Guard μ := ⟨some m, true, by simp⟩

def validate (g : Guard μ) : Except Error μ :=
  match g.pmtx with
  | none => .error (.systemError .operationNotPermitted)
  | some m => if g.owns then .error (.systemError .resourceDeadlockWouldOccur) else .ok m

def lock (M : Mutexes μ O) (g : Guard μ) (r : WaitResult) (hold : Hold O) :
    Except Error Unit × Guard μ × Hold O :=
  match g.validate with
  | .error e => (.error e, g, hold)
  | .ok m =>
      match (M.deref m).lock M r hold with
      | (.error e, hold') => (.error e, g, hold')
      | (.ok (), hold') => (.ok (), owning m, hold')

def tryLockFor (M : Mutexes μ O) (g : Guard μ) (r : WaitResult) (hold : Hold O) :
    Except Error Bool × Guard μ × Hold O :=
  match g.validate with
  | .error e => (.error e, g, hold)
  | .ok m =>
      match (M.deref m).tryLockFor M r hold with
      | (.error e, hold') => (.error e, g, hold')
      | (.ok true, hold') => (.ok true, owning m, hold')
      | (.ok false, hold') => (.ok false, on m, hold')

def release (M : Mutexes μ O) (g : Guard μ) (hold : Hold O) : Except Error (Hold O) :=
  if h : g.owns = true then (M.deref (g.pmtx.get (g.pointed h))).unlock M hold else .ok hold

def unlock (M : Mutexes μ O) (g : Guard μ) (hold : Hold O) :
    Except Error Unit × Guard μ × Hold O :=
  match g.pmtx with
  | none => (.error (.systemError .operationNotPermitted), g, hold)
  | some m =>
      if g.owns = false then (.error (.systemError .operationNotPermitted), g, hold)
      else
        match (M.deref m).unlock M hold with
        | .error e => (.error e, g, hold)
        | .ok hold' => (.ok (), on m, hold')

end Guard

end SysUtils.ProcessLock

import Mathlib.Algebra.Order.Group.Multiset
import SysUtils.Holdings
import SysUtils.ProcessLock.Runs

namespace SysUtils.ProcessLock

open Holdings

/-- The handles of a process. `created` are the handles that `CreateMutexA` has returned and `closed` the
arguments of `CloseHandle`, both of all time. -/
structure Kernel where
  opened : Finset Handle
  created : List Handle
  closed : List Handle

namespace Kernel

def answers (k : Kernel) : Except ℕ Handle → Bool
  | .ok h => decide (h ∉ k.opened)
  | .error _ => true

def createMutexA (k : Kernel) : Except ℕ Handle → Option Handle × Kernel
  | .ok h => (some h, { k with opened := insert h k.opened, created := k.created ++ [h] })
  | .error _ => (none, k)

def closeHandle (k : Kernel) (h : Handle) : Bool × Kernel :=
  (decide (h ∈ k.opened), { k with opened := k.opened.erase h, closed := k.closed ++ [h] })

end Kernel

namespace ProcessMutex

def empty : ProcessMutex := ⟨none⟩

def lastError : Except ℕ Handle → ℕ
  | .ok _ => 0
  | .error ec => ec

def createMutex (k : Kernel) (r : Except ℕ Handle) : Option Error × ProcessMutex × Kernel :=
  let (handle, k') := k.createMutexA r
  (if handle = none then some (.mutexError (lastError r) "error occured while creating mutex!")
    else none, ⟨handle⟩, k')

def destroy (m : ProcessMutex) (k : Kernel) : Kernel :=
  match m.mutexHandle with
  | none => k
  | some h => (k.closeHandle h).2

end ProcessMutex

inductive MutexOp (G : Type) where
  | construct (g : G)
  | constructNew (g : G) (r : Except ℕ Handle)
  | createMutex (g : G) (r : Except ℕ Handle)
  | moveConstruct (g from_ : G)
  | moveAssign (g from_ : G)
  | destroy (g : G)

structure Objects (G : Type) where
  mutexes : G → Option ProcessMutex
  kernel : Kernel

namespace Objects

variable {G : Type} [DecidableEq G]

def initial : Objects G := ⟨fun _ => none, ⟨∅, [], []⟩⟩

def put (s : Objects G) (g : G) (m : Option ProcessMutex) : Objects G :=
  { s with mutexes := Function.update s.mutexes g m }

def threw : Option Error → Outcome
  | none => .returned
  | some e => .threw e

def step (s : Objects G) : MutexOp G → Option (Outcome × Objects G)
  | .construct g =>
      match s.mutexes g with
      | none => some (.returned, s.put g (some .empty))
      | some _ => none
  | .constructNew g r =>
      match s.mutexes g, s.kernel.answers r with
      | none, true =>
          -- a constructor that throws leaves no object behind
          match ProcessMutex.createMutex s.kernel r with
          | (none, m, k') => some (.returned, { s.put g (some m) with kernel := k' })
          | (some e, _, k') => some (.threw e, { s with kernel := k' })
      | _, _ => none
  | .createMutex g r =>
      match s.mutexes g, s.kernel.answers r with
      | some _, true =>
          let res := ProcessMutex.createMutex s.kernel r
          some (threw res.1, { s.put g (some res.2.1) with kernel := res.2.2 })
      | _, _ => none
  | .moveConstruct g from_ =>
      match s.mutexes g, s.mutexes from_ with
      | none, some oth => some (.returned, (s.put g (some ⟨oth.mutexHandle⟩)).put from_ (some ⟨none⟩))
      | _, _ => none
  | .moveAssign g from_ =>
      match s.mutexes g, s.mutexes from_ with
      | some _, some oth => some (.returned, (s.put g (some ⟨oth.mutexHandle⟩)).put from_ (some ⟨none⟩))
      | _, _ => none
  | .destroy g =>
      (s.mutexes g).map fun m => (.returned, { s.put g none with kernel := m.destroy s.kernel })

omit [DecidableEq G] in
def handleOf (mutexes : G → Option ProcessMutex) (g : G) : Option Handle :=
  (mutexes g).bind ProcessMutex.mutexHandle

structure Accounted (s : Objects G) : Prop where
  exact : Exact (handleOf s.mutexes) s.kernel.opened
  balance : (s.kernel.created : Multiset Handle) = s.kernel.opened.val + s.kernel.closed
  released : (∀ g, s.mutexes g = none) → (s.kernel.created : Multiset Handle) = s.kernel.closed

def AccountedRun : Objects G → List (MutexOp G) → Prop
  | _, [] => True
  | s, op :: ops =>
      match s.step op with
      | none => True
      | some (_, t) => Accounted t ∧ AccountedRun t ops

def overwrites (s : Objects G) : MutexOp G → Bool
  | .createMutex g _ | .moveAssign g _ => (handleOf s.mutexes g).isSome
  | _ => false

def overwritesRun : Objects G → List (MutexOp G) → Bool
  | _, [] => false
  | s, op :: ops =>
      match s.step op with
      | none => false
      | some (_, t) => s.overwrites op || overwritesRun t ops

omit [DecidableEq G] in
theorem Accounted.of_exact {s : Objects G} (he : Exact (handleOf s.mutexes) s.kernel.opened)
    (hb : (s.kernel.created : Multiset Handle) = s.kernel.opened.val + s.kernel.closed) : Accounted s := by
  refine ⟨he, hb, fun hdead => ?_⟩
  have hempty : s.kernel.opened = ∅ := he.of_none fun g => by simp [handleOf, hdead g]
  rw [hb, hempty]
  exact zero_add _

theorem handleOf_update (mutexes : G → Option ProcessMutex) (g : G) (m : Option ProcessMutex) :
    handleOf (Function.update mutexes g m) =
      Function.update (handleOf mutexes) g (m.bind ProcessMutex.mutexHandle) := by
  funext j
  by_cases hj : j = g
  · subst hj
    simp [handleOf]
  · simp [handleOf, Function.update_of_ne hj]

theorem Accounted.same {s : Objects G} (h : Accounted s) {g : G} {m : Option ProcessMutex}
    (hg : handleOf s.mutexes g = none) (hm : m.bind ProcessMutex.mutexHandle = none) :
    Accounted (s.put g m) := by
  refine .of_exact ?_ h.balance
  change Exact (handleOf (Function.update s.mutexes g m)) s.kernel.opened
  rw [handleOf_update, hm, ← hg, Function.update_eq_self]
  exact h.exact

theorem Accounted.create {s : Objects G} (h : Accounted s) {g : G} {k : Handle}
    (hg : handleOf s.mutexes g = none) (hk : s.kernel.answers (.ok k) = true) :
    Accounted { s.put g (some ⟨some k⟩) with kernel := (s.kernel.createMutexA (.ok k)).2 } := by
  have hfresh : k ∉ s.kernel.opened := of_decide_eq_true hk
  refine .of_exact ?_ ?_
  · change Exact (handleOf (Function.update s.mutexes g (some ⟨some k⟩))) (insert k s.kernel.opened)
    rw [handleOf_update]
    exact h.exact.acquire hg hfresh
  · change ((s.kernel.created ++ [k] : List Handle) : Multiset Handle) =
      (insert k s.kernel.opened).val + s.kernel.closed
    rw [Finset.insert_val_of_notMem hfresh, Multiset.cons_add, ← h.balance, ← Multiset.coe_add,
      Multiset.add_comm]
    rfl

theorem Accounted.move {s : Objects G} (h : Accounted s) {g f : G} {oth : ProcessMutex}
    (hg : handleOf s.mutexes g = none) (hf : s.mutexes f = some oth) :
    Accounted ((s.put g (some ⟨oth.mutexHandle⟩)).put f (some ⟨none⟩)) := by
  refine .of_exact ?_ h.balance
  have hoth : handleOf s.mutexes f = oth.mutexHandle := by simp [handleOf, hf]
  change Exact (handleOf (Function.update (Function.update s.mutexes g _) f _)) s.kernel.opened
  rw [handleOf_update, handleOf_update, Option.bind_some, Option.bind_some, ← hoth]
  exact h.exact.transfer hg

theorem Accounted.destroy {s : Objects G} (h : Accounted s) {g : G} {m : ProcessMutex}
    (hg : s.mutexes g = some m) :
    Accounted { s.put g none with kernel := m.destroy s.kernel } := by
  have hm : handleOf s.mutexes g = m.mutexHandle := by simp [handleOf, hg]
  cases hk : m.mutexHandle with
  | none =>
    have hkernel : m.destroy s.kernel = s.kernel := by simp [ProcessMutex.destroy, hk]
    rw [hkernel]
    exact h.same (hm.trans hk) rfl
  | some k =>
    rw [hk] at hm
    have hopen : k ∈ s.kernel.opened := (h.exact.open_iff k).mpr ⟨g, hm⟩
    have hkernel : m.destroy s.kernel = (s.kernel.closeHandle k).2 := by simp [ProcessMutex.destroy, hk]
    rw [hkernel]
    refine .of_exact ?_ ?_
    · change Exact (handleOf (Function.update s.mutexes g none)) (s.kernel.opened.erase k)
      rw [handleOf_update]
      exact h.exact.release hm
    · change (s.kernel.created : Multiset Handle) =
        (s.kernel.opened.erase k).val + (s.kernel.closed ++ [k] : List Handle)
      rw [Finset.erase_val, ← Multiset.coe_add]
      calc (s.kernel.created : Multiset Handle)
          = s.kernel.opened.val + s.kernel.closed := h.balance
        _ = {k} + s.kernel.opened.val.erase k + s.kernel.closed := by
          rw [Multiset.singleton_add, Multiset.cons_erase hopen]
        _ = s.kernel.opened.val.erase k + (s.kernel.closed + ([k] : List Handle)) := by
          rw [add_comm ({k} : Multiset Handle), add_assoc, add_comm ({k} : Multiset Handle)]
          rfl

theorem Accounted.step {s t : Objects G} (h : Accounted s) {op : MutexOp G} {res : Outcome}
    (hs : s.step op = some (res, t)) (ho : s.overwrites op = false) : Accounted t := by
  have hdead {g : G} (hg : s.mutexes g = none) : handleOf s.mutexes g = none := by simp [handleOf, hg]
  cases op with
  | construct g =>
    simp only [Objects.step] at hs
    split at hs
    · rename_i hg
      cases hs
      exact h.same (hdead hg) rfl
    · cases hs
  | constructNew g r =>
    simp only [Objects.step] at hs
    split at hs
    · rename_i hg ha
      cases r with
      | ok k =>
        cases hs
        exact h.create (hdead hg) ha
      | error ec =>
        cases hs
        exact h
    · cases hs
  | createMutex g r =>
    have hg : handleOf s.mutexes g = none := by simpa [overwrites] using ho
    simp only [Objects.step] at hs
    split at hs
    · rename_i ha
      cases r with
      | ok k =>
        cases hs
        exact h.create hg ha
      | error ec =>
        cases hs
        exact h.same hg rfl
    · cases hs
  | moveConstruct g f =>
    simp only [Objects.step] at hs
    split at hs
    · rename_i hg hf
      cases hs
      exact h.move (hdead hg) hf
    · cases hs
  | moveAssign g f =>
    have hg : handleOf s.mutexes g = none := by simpa [overwrites] using ho
    simp only [Objects.step] at hs
    split at hs
    · rename_i hf
      cases hs
      exact h.move hg hf
    · cases hs
  | destroy g =>
    obtain ⟨m, hg, he⟩ := Option.map_eq_some_iff.mp hs
    cases he
    exact h.destroy hg

omit [DecidableEq G] in
theorem not_accounted_of_lost {s t : Objects G} (h : Accounted s) {g : G} {k : Handle}
    (hg : handleOf s.mutexes g = some k) (hopen : s.kernel.opened ⊆ t.kernel.opened)
    (hlost : ∀ j, handleOf t.mutexes j ≠ some k) : ¬ Accounted t :=
  fun ht => not_exact_of_lost (hopen ((h.exact.open_iff k).mpr ⟨g, hg⟩)) hlost ht.exact

theorem overwrites_not_accounted {s t : Objects G} (h : Accounted s) {op : MutexOp G} {res : Outcome}
    (hs : s.step op = some (res, t)) (ho : s.overwrites op = true) : ¬ Accounted t := by
  cases op with
  | createMutex g r =>
    obtain ⟨k, hk⟩ := Option.isSome_iff_exists.mp ho
    simp only [step] at hs
    split at hs
    · rename_i ha
      cases r with
      | ok k' =>
        cases hs
        have hfresh : (some k' : Option Handle) ≠ some k := by
          rintro ⟨⟩
          exact of_decide_eq_true ha ((h.exact.open_iff k).mpr ⟨g, hk⟩)
        apply not_accounted_of_lost h hk (Finset.subset_insert _ _)
        change ∀ j, handleOf (Function.update s.mutexes g _) j ≠ some k
        rw [handleOf_update]
        exact h.exact.lost_of_update hk hfresh
      | error ec =>
        cases hs
        refine not_accounted_of_lost h hk (Finset.Subset.refl _) ?_
        change ∀ j, handleOf (Function.update s.mutexes g _) j ≠ some k
        rw [handleOf_update]
        exact h.exact.lost_of_update hk fun hnull => by cases hnull
    · cases hs
  | moveAssign g f =>
    obtain ⟨k, hk⟩ := Option.isSome_iff_exists.mp ho
    simp only [step] at hs
    split at hs
    · rename_i oth _ hf
      cases hs
      have hoth : handleOf s.mutexes f = oth.mutexHandle := by simp [handleOf, hf]
      refine not_accounted_of_lost h hk (Finset.Subset.refl _) ?_
      change ∀ j, handleOf (Function.update (Function.update s.mutexes g _) f _) j ≠ some k
      rw [handleOf_update, handleOf_update, Option.bind_some, Option.bind_some, ← hoth]
      exact h.exact.lost_of_transfer hk
    · cases hs
  | _ => cases ho

omit [DecidableEq G] in
theorem Accounted.initial : Accounted (Objects.initial : Objects G) := by
  refine .of_exact ?_ rfl
  exact Exact.empty

theorem accountedRun_iff {s : Objects G} (h : Accounted s) (ops : List (MutexOp G)) :
    AccountedRun s ops ↔ overwritesRun s ops = false := by
  induction ops generalizing s with
  | nil => simp [AccountedRun, overwritesRun]
  | cons op ops ih =>
    cases hs : s.step op with
    | none => simp [AccountedRun, overwritesRun, hs]
    | some r =>
      obtain ⟨res, t⟩ := r
      cases ho : s.overwrites op with
      | true =>
        have ht := overwrites_not_accounted h hs ho
        simp [AccountedRun, overwritesRun, hs, ho, ht]
      | false =>
        have ht := h.step hs ho
        simp [AccountedRun, overwritesRun, hs, ho, ht, ih ht]

theorem handles_accounted_iff (ops : List (MutexOp G)) :
    AccountedRun initial ops ↔ overwritesRun initial ops = false :=
  accountedRun_iff Accounted.initial ops

theorem self_move_leaks_handle :
    ¬ AccountedRun (initial : Objects (Fin 1)) [.constructNew 0 (.ok 4), .moveAssign 0 0] := by
  rintro ⟨_, hmoved, _⟩
  obtain ⟨g, hg⟩ := (hmoved.exact.open_iff 4).mp (by decide)
  revert g
  decide

end Objects

end SysUtils.ProcessLock

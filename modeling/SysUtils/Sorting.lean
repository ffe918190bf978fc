import Mathlib.Data.List.Sort
import Mathlib.Order.RelClasses

namespace SysUtils.Sorting

variable {α ε : Type}

abbrev Sorter (α ε : Type) := (α → α → Except ε Bool) → List α → Except ε (List α)

def Ordered (lt : α → α → Bool) (xs : List α) : Prop := xs.Pairwise fun a b => lt b a = false

abbrev StrictWeak (lt : α → α → Bool) : Prop := IsStrictWeakOrder α fun a b => lt a b = true

def Correct (sort : Sorter α ε) : Prop :=
  ∀ lt : α → α → Bool, StrictWeak lt → ∀ xs, ∃ ys,
    sort (fun a b => .ok (lt a b)) xs = .ok ys ∧ ys.Perm xs ∧ Ordered lt ys

def insert (cmp : α → α → Except ε Bool) (a : α) : List α → Except ε (List α)
  | [] => .ok [a]
  | b :: bs => do
      if ← cmp b a then
        let cs ← insert cmp a bs
        .ok (b :: cs)
      else .ok (a :: b :: bs)

def insertionSort : Sorter α ε := fun cmp xs => xs.foldrM (insert cmp) []

theorem not_lt_trans {lt : α → α → Bool} (h : StrictWeak lt) {a b c : α} (hba : lt b a = false)
    (hcb : lt c b = false) : lt c a = false := by
  by_contra hca
  rw [Bool.not_eq_false] at hca
  have hab : lt a b = false := by
    by_contra hab
    rw [Bool.not_eq_false] at hab
    have hlt := h.trans c a b hca hab
    rw [hcb] at hlt
    cases hlt
  have hbc : lt b c = false := by
    by_contra hbc
    rw [Bool.not_eq_false] at hbc
    have hlt := h.trans b c a hbc hca
    rw [hba] at hlt
    cases hlt
  have hincomp := h.incomp_trans a b c ⟨by simp [hab], by simp [hba]⟩ ⟨by simp [hbc], by simp [hcb]⟩
  exact hincomp.2 hca

theorem insert_ok (lt : α → α → Bool) (a : α) (xs : List α) :
    insert (fun a b => (.ok (lt a b) : Except ε Bool)) a xs =
      .ok (xs.orderedInsert (fun a b => lt b a = false) a) := by
  induction xs with
  | nil => rfl
  | cons b bs ih =>
    simp only [insert, ih, List.orderedInsert_cons]
    cases lt b a <;> rfl

theorem insertionSort_correct : Correct (insertionSort : Sorter α ε) := by
  intro lt hlt xs
  have hsort : insertionSort (fun a b => (.ok (lt a b) : Except ε Bool)) xs =
      .ok (xs.insertionSort fun a b => lt b a = false) := by
    unfold insertionSort
    induction xs with
    | nil => rfl
    | cons a xs ih =>
      rw [List.foldrM_cons, ih]
      exact insert_ok lt a _
  have htotal : Std.Total fun a b => lt b a = false := by
    constructor
    intro a b
    by_contra hboth
    rw [not_or, Bool.not_eq_false, Bool.not_eq_false] at hboth
    exact hlt.irrefl a (hlt.trans a b a hboth.2 hboth.1)
  have htrans : IsTrans α fun a b => lt b a = false :=
    ⟨fun a b c hba hcb => not_lt_trans hlt hba hcb⟩
  exact ⟨_, hsort, List.perm_insertionSort _ xs, List.pairwise_insertionSort _ xs⟩

end SysUtils.Sorting

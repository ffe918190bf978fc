import Mathlib.Algebra.BigOperators.Fin
import Mathlib.Algebra.Order.BigOperators.Group.Finset
import Mathlib.Data.Fintype.BigOperators
import SysUtils.Interleaving.Threads

namespace SysUtils.Interleaving

variable {ι κ S M : Type} {L : ι → Type} [Fintype κ] [AddCommMonoid M]

theorem sum_update_add [DecidableEq κ] (g : κ → M) (k : κ) (a : M) :
    ∑ j, Function.update g k a j + g k = ∑ j, g j + a := by
  rw [Finset.sum_update_of_mem (Finset.mem_univ k),
    Finset.sum_eq_add_sum_sdiff_singleton_of_mem (Finset.mem_univ k) g]
  ac_rfl

variable [DecidableEq ι]

def total (e : κ → ι) (f : ∀ i, L i → M) (s : Config S L) : M :=
  ∑ k, f (e k) (s.loc (e k))

variable {e : κ → ι} {f : ∀ i, L i → M} {s : Config S L}

theorem total_set (he : Function.Injective e) (k : κ) (r : S × L (e k)) :
    total e f (s.set (e k) r) + f (e k) (s.loc (e k)) = total e f s + f (e k) r.2 := by
  classical
  have hterm : (fun j => f (e j) ((s.set (e k) r).loc (e j))) =
      Function.update (fun j => f (e j) (s.loc (e j))) k (f (e k) r.2) := by
    funext j
    by_cases hj : j = k
    · subst hj
      simp
    · rw [Config.set_loc_of_ne _ (fun h => hj (he h)), Function.update_of_ne hj]
  unfold total
  rw [hterm]
  exact sum_update_add _ k _

theorem total_set_of_notMem {i : ι} (hi : ∀ k, e k ≠ i) (r : S × L i) :
    total e f (s.set i r) = total e f s := by
  apply Finset.sum_congr rfl
  intro j _
  rw [Config.set_loc_of_ne _ (hi j)]

/-- What the threads `e k` still owe and what has been credited make up what is due. -/
def Balances (e : κ → ι) (f : ∀ i, L i → M) (credit due : S → M) (s : Config S L) : Prop :=
  total e f s + credit s.shared = due s.shared

theorem Balances.set_of_notMem {credit due : S → M} (h : Balances e f credit due s) {i : ι}
    (hi : ∀ k, e k ≠ i) {r : S × L i} (hc : credit r.1 = credit s.shared)
    (hd : due r.1 = due s.shared) : Balances e f credit due (s.set i r) := by
  unfold Balances at h ⊢
  rw [total_set_of_notMem hi, Config.set_shared, hc, hd, h]

end SysUtils.Interleaving

namespace SysUtils.Interleaving

variable {ι κ S M : Type} {L : ι → Type} [Fintype κ] [AddCancelCommMonoid M] [DecidableEq ι]
variable {e : κ → ι} {f : ∀ i, L i → M} {s : Config S L} {credit due : S → M}

theorem Balances.set (h : Balances e f credit due s) (he : Function.Injective e) (k : κ)
    {r : S × L (e k)}
    (hr : f (e k) r.2 + credit r.1 + due s.shared = f (e k) (s.loc (e k)) + credit s.shared + due r.1) :
    Balances e f credit due (s.set (e k) r) := by
  have ht := total_set (f := f) (s := s) he k r
  unfold Balances at h ⊢
  rw [Config.set_shared]
  apply add_right_cancel (b := f (e k) (s.loc (e k)) + due s.shared)
  calc total e f (s.set (e k) r) + credit r.1 + (f (e k) (s.loc (e k)) + due s.shared)
      = (total e f (s.set (e k) r) + f (e k) (s.loc (e k))) + credit r.1 + due s.shared := by ac_rfl
    _ = total e f s + (f (e k) r.2 + credit r.1 + due s.shared) := by rw [ht]; ac_rfl
    _ = (total e f s + credit s.shared) + f (e k) (s.loc (e k)) + due r.1 := by rw [hr]; ac_rfl
    _ = due r.1 + (f (e k) (s.loc (e k)) + due s.shared) := by rw [h]; ac_rfl

end SysUtils.Interleaving

namespace SysUtils.Interleaving

variable {ι κ S M : Type} {L : ι → Type} [Fintype κ] [DecidableEq ι]
variable [AddCommMonoid M] [PartialOrder M]

def Covers (e : κ → ι) (f : ∀ i, L i → M) (credit due : S → M) (s : Config S L) : Prop :=
  total e f s + credit s.shared ≤ due s.shared

variable {e : κ → ι} {f : ∀ i, L i → M} {s : Config S L} {credit due : S → M}

theorem Covers.set_of_notMem (h : Covers e f credit due s) {i : ι} (hi : ∀ k, e k ≠ i) {r : S × L i}
    (hc : credit r.1 = credit s.shared) (hd : due r.1 = due s.shared) :
    Covers e f credit due (s.set i r) := by
  unfold Covers at h ⊢
  rwa [total_set_of_notMem hi, Config.set_shared, hc, hd]

variable [IsOrderedCancelAddMonoid M]

theorem Covers.set (h : Covers e f credit due s) (he : Function.Injective e) (k : κ) {r : S × L (e k)}
    (hr : f (e k) r.2 + credit r.1 + due s.shared ≤
      f (e k) (s.loc (e k)) + credit s.shared + due r.1) : Covers e f credit due (s.set (e k) r) := by
  have ht := total_set (f := f) (s := s) he k r
  unfold Covers at h ⊢
  rw [Config.set_shared]
  apply le_of_add_le_add_right (a := f (e k) (s.loc (e k)) + due s.shared)
  calc total e f (s.set (e k) r) + credit r.1 + (f (e k) (s.loc (e k)) + due s.shared)
      = (total e f (s.set (e k) r) + f (e k) (s.loc (e k))) + credit r.1 + due s.shared := by ac_rfl
    _ = total e f s + (f (e k) r.2 + credit r.1 + due s.shared) := by rw [ht]; ac_rfl
    _ ≤ total e f s + (f (e k) (s.loc (e k)) + credit s.shared + due r.1) := by gcongr
    _ = (total e f s + credit s.shared) + (f (e k) (s.loc (e k)) + due r.1) := by ac_rfl
    _ ≤ due s.shared + (f (e k) (s.loc (e k)) + due r.1) := by gcongr
    _ = due r.1 + (f (e k) (s.loc (e k)) + due s.shared) := by ac_rfl

end SysUtils.Interleaving

import Mathlib.Data.List.DropRight

namespace SysUtils.Strings

variable {α : Type} {p : α → Bool} {as bs xs : List α} {c : α}

def findFirst (p : α → Bool) (xs : List α) (i : ℕ) : Option ℕ :=
  ((xs.drop i).findIdx? p).map fun k => i + k

def findLast (p : α → Bool) (xs : List α) (k : ℕ) : Option ℕ :=
  ((xs.take k).reverse.findIdx? p).map fun j => (xs.take k).length - 1 - j

theorem findFirst_eq_none {i : ℕ} : findFirst p xs i = none ↔ ∀ x ∈ xs.drop i, p x = false := by
  simp [findFirst]

theorem findFirst_eq_some {i k : ℕ} (h : findFirst p xs i = some k) : i ≤ k ∧ k < xs.length ∧
    ∃ c, p c = true ∧ xs.drop i = (xs.drop i).take (k - i) ++ c :: xs.drop (k + 1) ∧
      ∀ x ∈ (xs.drop i).take (k - i), p x = false := by
  obtain ⟨j, hj, rfl⟩ := Option.map_eq_some_iff.mp h
  obtain ⟨hlt, hp, hbefore⟩ := List.findIdx?_eq_some_iff_getElem.mp hj
  have hlen : j < xs.length - i := by simpa using hlt
  have hsub : i + j - i = j := by omega
  refine ⟨by omega, by omega, (xs.drop i)[j], hp, ?_, ?_⟩
  · rw [hsub]
    conv_lhs => rw [← List.take_append_drop j (xs.drop i), List.drop_eq_getElem_cons hlt]
    rw [List.drop_drop]
    rfl
  · rw [hsub]
    intro x hx
    obtain ⟨k, hk, rfl⟩ := List.mem_take_iff_getElem.mp hx
    simpa using hbefore k (by
      rw [List.length_drop] at hk
      omega)

theorem findLast_eq_none {k : ℕ} : findLast p xs k = none ↔ ∀ x ∈ xs.take k, p x = false := by
  simp [findLast]

theorem findLast_append (hc : p c = true) (hbs : ∀ x ∈ bs, p x = false) {k : ℕ}
    (hk : xs.take k = as ++ c :: bs) : findLast p xs k = some as.length := by
  have hnone : bs.reverse.findIdx? p = none := by simpa using hbs
  unfold findLast
  rw [hk]
  simp only [List.reverse_append, List.reverse_cons, List.append_assoc, List.singleton_append,
    List.findIdx?_append, hnone, List.findIdx?_cons, hc]
  simp

theorem take_findLast (p : α → Bool) (xs : List α) (k : ℕ) :
    ((findLast p xs k).elim [] fun pos => xs.take (pos + 1)) = (xs.take k).rdropWhile fun x => !p x := by
  have hrest : ∀ x ∈ (xs.take k).rtakeWhile fun x => !p x, p x = false := by
    intro x hx
    simpa using List.mem_rtakeWhile_imp hx
  have hsplit : (xs.take k).rdropWhile (fun x => !p x) ++ (xs.take k).rtakeWhile (fun x => !p x) =
      xs.take k := List.rdropWhile_append_rtakeWhile
  rcases List.eq_nil_or_concat' ((xs.take k).rdropWhile fun x => !p x) with hnil | ⟨as, c, hcut⟩
  · have hnone : findLast p xs k = none := by
      rw [findLast_eq_none, ← hsplit, hnil]
      exact hrest
    rw [hnone, hnil]
    rfl
  · have hc : p c = true := by
      have hlast := List.rdropWhile_last_not (fun x => !p x) (xs.take k) (by simp [hcut])
      simpa [hcut] using hlast
    rw [hcut, List.append_assoc, List.singleton_append] at hsplit
    have hprefix : as ++ [c] <+: xs := by
      rw [← hcut]
      exact (List.rdropWhile_prefix _ _).trans (List.take_prefix k xs)
    rw [findLast_append hc hrest hsplit.symm, hcut, Option.elim_some]
    simpa using (List.prefix_iff_eq_take.mp hprefix).symm

def interleave (pieces : List (List α)) (delims : List α) : List α :=
  (List.zipWith (· ++ ·) pieces (delims.map (fun x => [x]) ++ [[]])).flatten

theorem interleave_splitOnP (p : α → Bool) (xs : List α) :
    interleave (xs.splitOnP p) (xs.filter p) = xs :=
  List.splitOnP_spec xs

theorem length_splitOnP (p : α → Bool) (xs : List α) :
    (xs.splitOnP p).length = (xs.filter p).length + 1 := by
  induction xs with
  | nil => rfl
  | cons x xs ih =>
    rw [List.splitOnP_cons_eq_if_modifyHead]
    by_cases hx : p x = true <;> simp [hx, ih]

theorem not_of_mem_splitOnP (p : α → Bool) (xs : List α) :
    ∀ piece ∈ xs.splitOnP p, ∀ x ∈ piece, p x = false := by
  induction xs with
  | nil => simp
  | cons x xs ih =>
    rw [List.splitOnP_cons_eq_if_modifyHead]
    by_cases hx : p x = true
    · simpa [hx] using ih
    · obtain ⟨piece, pieces, hsplit⟩ := List.exists_cons_of_ne_nil (List.splitOnP_ne_nil p xs)
      rw [hsplit] at ih
      simpa [hx, hsplit] using ih

def Delimited (p : α → Bool) (xs piece : List α) : Prop :=
  ∃ as bs, xs = as ++ piece ++ bs ∧ (∀ c ∈ as.getLast?, p c = true) ∧ ∀ c ∈ bs.head?, p c = true

theorem Delimited.append (hc : p c = true) {piece : List α} (h : Delimited p xs piece) :
    Delimited p (as ++ c :: xs) piece := by
  obtain ⟨ds, bs, rfl, hds, hbs⟩ := h
  refine ⟨as ++ c :: ds, bs, by simp, ?_, hbs⟩
  intro x hx
  rcases List.eq_nil_or_concat' ds with rfl | ⟨ds', d, rfl⟩
  · have heq : c = x := by simpa using hx
    rwa [← heq]
  · apply hds
    have hend : as ++ c :: (ds' ++ [d]) = as ++ c :: ds' ++ [d] := by simp
    rw [hend, List.getLast?_concat] at hx
    rwa [List.getLast?_concat]

theorem Delimited.mem_splitOnP {piece : List α} (h : Delimited p xs piece)
    (hpiece : ∀ x ∈ piece, p x = false) : piece ∈ xs.splitOnP p := by
  obtain ⟨as, bs, rfl, has, hbs⟩ := h
  have hfirst : piece ∈ (piece ++ bs).splitOnP p := by
    cases bs with
    | nil => simp [List.splitOnP_eq_singleton hpiece]
    | cons b bs => simp [List.splitOnP_append_cons_of_forall_mem hpiece b (hbs b rfl)]
  rw [List.append_assoc]
  rcases List.eq_nil_or_concat' as with rfl | ⟨as', a, rfl⟩
  · exact hfirst
  · have ha : p a = true := has a (by simp)
    rw [List.append_assoc, List.singleton_append, List.splitOnP_append_cons _ _ ha]
    exact List.mem_append_right _ hfirst

theorem delimited_of_mem_splitOnP {piece : List α} (h : piece ∈ xs.splitOnP p) :
    Delimited p xs piece := by
  induction hlen : xs.length using Nat.strong_induction_on generalizing xs with
  | _ n ih =>
    by_cases hnone : ∀ x ∈ xs, p x = false
    · rw [List.splitOnP_eq_singleton hnone, List.mem_singleton] at h
      exact ⟨[], [], by simp [h], by simp, by simp⟩
    · -- the first delimiter ends the first piece
      cases hfirst : findFirst p xs 0 with
      | none => exact absurd (findFirst_eq_none.mp hfirst) hnone
      | some k =>
        obtain ⟨_, hk, c, hc, hxs, hbefore⟩ := findFirst_eq_some hfirst
        rw [List.drop_zero] at hxs hbefore
        rw [hxs, List.splitOnP_append_cons_of_forall_mem hbefore c hc, List.mem_cons] at h
        rw [hxs]
        rcases h with rfl | h
        · exact ⟨[], c :: xs.drop (k + 1), by simp, by simp, by simpa using hc⟩
        · apply Delimited.append hc
          apply ih _ _ h rfl
          rw [← hlen, List.length_drop]
          omega

theorem mem_splitOnP_iff {piece : List α} :
    piece ∈ xs.splitOnP p ↔ (∀ x ∈ piece, p x = false) ∧ Delimited p xs piece :=
  ⟨fun h => ⟨not_of_mem_splitOnP p xs piece h, delimited_of_mem_splitOnP h⟩,
    fun h => h.2.mem_splitOnP h.1⟩

end SysUtils.Strings

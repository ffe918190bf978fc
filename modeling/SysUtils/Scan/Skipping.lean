import SysUtils.Scan.FileTree
import SysUtils.Scan.Verdict

namespace SysUtils.Scan

open Paths

variable {x p : Str}

def AtOrBelow (x p : Str) : Prop := p = x ∨ x ++ "/".toList <+: p

def Sibling (x p : Str) : Prop := ∃ c, c ≠ '/' ∧ x ++ [c] <+: p

theorem prefix_iff_atOrBelow : x <+: p ↔ AtOrBelow x p ∨ Sibling x p := by
  constructor
  · rintro ⟨rest, rfl⟩
    cases rest with
    | nil => exact .inl (.inl (List.append_nil x))
    | cons c rest =>
      have hc : x ++ [c] <+: x ++ c :: rest := ⟨rest, by simp⟩
      by_cases hslash : c = '/'
      · exact .inl (.inr (hslash ▸ hc))
      · exact .inr ⟨c, hslash, hc⟩
  · rintro ((rfl | h) | ⟨c, _, h⟩)
    · exact List.prefix_rfl
    · exact (List.prefix_append x _).trans h
    · exact (List.prefix_append x _).trans h

theorem AtOrBelow.not_sibling (h : AtOrBelow x p) : ¬ Sibling x p := by
  rintro ⟨c, hc, hp⟩
  rcases h with rfl | h
  · have := hp.length_le
    simp at this
  · have heq : x ++ "/".toList = x ++ [c] :=
      (List.prefix_of_prefix_length_le h hp (by simp)).eq_of_length (by simp)
    exact hc (by simpa using (List.append_cancel_left heq).symm)

theorem validPath_eq_false_iff : validPath p = false ↔ ∃ x ∈ skipScanningPrefix, x <+: p := by
  have h := not_congr (validPath_iff (p := p))
  rw [Bool.not_eq_true] at h
  rw [h]
  push Not
  rfl

theorem eq_of_skipScanningPrefix {x y : Str} (hx : x ∈ skipScanningPrefix) (hy : y ∈ skipScanningPrefix)
    (hxp : x <+: p) (hyp : y <+: p) : x = y := by
  have hapart : ∀ x ∈ skipScanningPrefix, ∀ y ∈ skipScanningPrefix, x <+: y → x = y := by decide
  rcases List.prefix_or_prefix_of_prefix hxp hyp with h | h
  · exact hapart x hx y hy h
  · exact (hapart y hy x hx h).symm

def Plain (p : Str) : Prop :=
  p.head? = some '/' ∧ ¬ "//".toList <:+: p ∧ ".".toList ∉ components p ∧ "..".toList ∉ components p

instance (p : Str) : Decidable (Plain p) := inferInstanceAs (Decidable (_ ∧ _))

theorem whole_directories_iff (p : Str) :
    (validPath p = false ↔ ∃ x ∈ skipScanningPrefix, AtOrBelow x p) ↔
      ∀ x ∈ skipScanningPrefix, ¬ Sibling x p := by
  rw [validPath_eq_false_iff]
  constructor
  · intro h x hx hsibling
    obtain ⟨y, hy, hbelow⟩ := h.mp ⟨x, hx, prefix_iff_atOrBelow.mpr (.inr hsibling)⟩
    have hyx : y = x := eq_of_skipScanningPrefix hy hx (prefix_iff_atOrBelow.mpr (.inl hbelow))
      (prefix_iff_atOrBelow.mpr (.inr hsibling))
    exact hbelow.not_sibling (hyx ▸ hsibling)
  · intro h
    constructor
    · rintro ⟨x, hx, hp⟩
      exact ⟨x, hx, (prefix_iff_atOrBelow.mp hp).resolve_right (h x hx)⟩
    · rintro ⟨x, hx, hp⟩
      exact ⟨x, hx, prefix_iff_atOrBelow.mpr (.inl hp)⟩

theorem sibling_excluded : Plain "/system/".toList ∧ ¬ (validPath "/system/".toList = false ↔
    ∃ x ∈ skipScanningPrefix, AtOrBelow x "/system/".toList) := by
  refine ⟨by decide, fun h => ?_⟩
  obtain ⟨x, hx, hbelow⟩ := h.mp (by decide)
  revert x
  unfold AtOrBelow
  decide

end SysUtils.Scan

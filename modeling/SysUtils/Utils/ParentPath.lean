import Mathlib.Logic.Function.Iterate
import SysUtils.Paths.Names
import SysUtils.Strings

namespace SysUtils.Utils

open Paths Strings

variable {p d c : List Char} {k : ℕ}

def parentPath (path : List Char) : List Char :=
  match findLast (fun ch => ch ≠ '/') path path.length with
  | none => []
  | some pos =>
      match findLast (fun ch => ch = '/') path (pos + 1) with
      | none => []
      | some pos =>
          match findLast (fun ch => ch ≠ '/') path (pos + 1) with
          | none => []
          | some pos => path.take (pos + 1)

theorem parentPath_slashes (k : ℕ) : parentPath (List.replicate k '/') = [] := by
  have hnone : findLast (fun ch => ch ≠ '/') (List.replicate k '/') (List.replicate k '/').length =
      none := findLast_eq_none.mpr (by simp)
  unfold parentPath
  rw [hnone]

theorem parentPath_lastName (h : LastName p d c k) :
    parentPath p = d.rdropWhile fun ch => ch = '/' := by
  obtain ⟨c', x, rfl⟩ := (List.eq_nil_or_concat' c).resolve_left h.ne_nil
  obtain ⟨hc', hx⟩ : '/' ∉ c' ∧ x ≠ '/' := by simpa [eq_comm] using h.noSlash
  have hwhole : p.take p.length = d ++ c' ++ x :: List.replicate k '/' := by
    rw [List.take_length, h.eq]
    simp
  have hend : findLast (fun ch => ch ≠ '/') p p.length = some (d ++ c').length :=
    findLast_append (by simpa using hx) (by simp) hwhole
  have hupto : p.take ((d ++ c').length + 1) = d ++ (c' ++ [x]) := by
    rw [h.eq]
    exact List.take_left' (by simp [Nat.add_assoc])
  have hname : ∀ ch ∈ c' ++ [x], decide (ch = '/') = false := by
    intro ch hch
    simpa using fun heq : ch = '/' => h.noSlash (heq ▸ hch)
  unfold parentPath
  rw [hend]
  rcases h.dir with rfl | hd
  · have hnone : findLast (fun ch => ch = '/') p (([] ++ c').length + 1) = none := by
      rw [findLast_eq_none, hupto]
      exact hname
    simp only [hnone]
    rfl
  · obtain ⟨d', rfl⟩ := List.getLast?_eq_some_iff.mp hd
    have hslash : findLast (fun ch => ch = '/') p ((d' ++ ['/'] ++ c').length + 1) = some d'.length :=
      findLast_append rfl hname (by rw [hupto, List.append_assoc]; rfl)
    have hdir : p.take (d'.length + 1) = d' ++ ['/'] := by
      rw [h.eq, List.append_assoc]
      exact List.take_left' (by simp)
    have hrest : (findLast (fun ch => ch ≠ '/') p (d'.length + 1)).elim [] (fun pos => p.take (pos + 1)) =
        (d' ++ ['/']).rdropWhile fun ch => ch = '/' := by
      rw [take_findLast, hdir]
      simp
    simp only [hslash]
    rw [← hrest]
    cases findLast (fun ch => ch ≠ '/') p (d'.length + 1) <;> rfl

theorem parentPath_cases (p : List Char) : (names p).length < 2 ∧ parentPath p = [] ∨
    2 ≤ (names p).length ∧
      ∃ d c k e b j, LastName p d c k ∧ LastName d e b j ∧ parentPath p = e ++ b := by
  rcases slashes_or_lastName p with hp | ⟨d, c, k, hp⟩
  · left
    rw [hp, names_slashes, parentPath_slashes]
    exact ⟨Nat.zero_lt_two, rfl⟩
  · have hparent := parentPath_lastName hp
    rcases slashes_or_lastName d with hd | ⟨e, b, j, hd⟩
    · left
      rw [hp.names_eq, hparent, hd, names_slashes]
      simp
    · right
      refine ⟨?_, d, c, k, e, b, j, hp, hd, hparent.trans hd.rdropWhile_eq⟩
      simp [hp.names_eq, hd.names_eq]

example : parentPath "/foo/bar//".toList = "/foo".toList ∧ parentPath "//foo".toList = [] := by decide

theorem parentPath_append_slashes (p : List Char) (m : ℕ) :
    parentPath (p ++ List.replicate m '/') = parentPath p := by
  rcases slashes_or_lastName p with hp | ⟨d, c, k, hp⟩
  · rw [hp, List.replicate_append_replicate, parentPath_slashes, parentPath_slashes]
  · rw [parentPath_lastName hp, parentPath_lastName (hp.append_slash m)]

theorem names_parentPath (p : List Char) : (names (parentPath p)).length = (names p).length - 1 := by
  rcases parentPath_cases p with ⟨hlt, hnil⟩ | ⟨_, d, c, k, e, b, j, hp, hd, heq⟩
  · rw [hnil, names_nil, List.length_nil]
    omega
  · rw [heq, hp.names_eq, hd.names_eq, hd.trim.names_eq]
    simp

theorem parentPath_length_lt (hp : p ≠ []) : (parentPath p).length < p.length := by
  rcases parentPath_cases p with ⟨_, hnil⟩ | ⟨_, d, c, k, e, b, j, hp, hd, heq⟩
  · rw [hnil]
    exact List.length_pos_iff.mpr hp
  · have hlen := List.length_pos_iff.mpr hp.ne_nil
    rw [heq, hp.eq, hd.eq]
    simp only [List.length_append]
    omega

theorem parentPath_iterate {n : ℕ} (hn : 1 ≤ n) (hp : (names p).length ≤ n) : parentPath^[n] p = [] := by
  induction n generalizing p with
  | zero => omega
  | succ n ih =>
    rw [Function.iterate_succ_apply]
    rcases parentPath_cases p with ⟨_, hnil⟩ | ⟨htwo, _⟩
    · rw [hnil]
      exact Function.iterate_fixed rfl n
    · apply ih (by omega)
      rw [names_parentPath]
      omega

theorem parentPath_components (p : List Char) :
    ((names p).length < 2 → parentPath p = []) ∧
    (2 ≤ (names p).length → ∃ d c k e b j, LastName p d c k ∧ LastName d e b j ∧ parentPath p = e ++ b) ∧
    (parentPath p).getLast? ≠ some '/' ∧
    (∀ m, parentPath (p ++ List.replicate m '/') = parentPath p) ∧
    (p ≠ [] → (parentPath p).length < p.length) ∧
    parentPath^[max 1 (names p).length] p = [] := by
  refine ⟨?_, ?_, ?_, parentPath_append_slashes p, parentPath_length_lt,
    parentPath_iterate (le_max_left _ _) (le_max_right _ _)⟩
  · intro hlt
    rcases parentPath_cases p with ⟨_, hnil⟩ | ⟨htwo, _⟩
    · exact hnil
    · omega
  · intro hle
    rcases parentPath_cases p with ⟨hlt, _⟩ | ⟨_, hparts⟩
    · omega
    · exact hparts
  · rcases parentPath_cases p with ⟨_, hnil⟩ | ⟨_, d, c, k, e, b, j, _, hd, heq⟩
    · simp [hnil]
    · rw [heq]
      exact hd.getLast?_ne

end SysUtils.Utils

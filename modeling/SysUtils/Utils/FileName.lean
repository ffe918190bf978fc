import Mathlib.Data.List.Destutter
import SysUtils.Utils.ParentPath
import SysUtils.Utils.Tokens

namespace SysUtils.Utils

open Paths Strings

variable {p d c x y : List Char} {k : ℕ}

def filenameFromPath (filepath : List Char) (includeExtension : Bool) : List Char :=
  let pathTokens := tokenizeString filepath [] "/".toList false
  match pathTokens.getLast? with
  | none => []
  | some filename =>
      if includeExtension then filename
      else filename.take ((findLast (fun ch => ch = '.') filename filename.length).getD filename.length)

theorem tokens_slash (p q : List Char) : tokenizeString (p ++ '/' :: q) [] "/".toList false =
    tokenizeString p [] "/".toList false ++ tokenizeString q [] "/".toList false := by
  simp only [tokenizeString_eq, List.nil_append]
  exact List.splitOnP_append_cons _ _ (by decide)

theorem tokens_name (hc : '/' ∉ c) : tokenizeString c [] "/".toList false = [c] := by
  rw [tokenizeString_eq, List.nil_append]
  apply List.splitOnP_eq_singleton
  intro ch hch
  have hne : ch ≠ '/' := by
    rintro rfl
    exact hc hch
  simpa using hne

theorem filenameFromPath_slash (p q : List Char) (ext : Bool) :
    filenameFromPath (p ++ '/' :: q) ext = filenameFromPath q ext := by
  have hne : tokenizeString q [] "/".toList false ≠ [] := by
    rw [tokenizeString_eq]
    exact List.splitOnP_ne_nil _ _
  simp only [filenameFromPath, tokens_slash, List.getLast?_append_of_ne_nil _ hne]

theorem filenameFromPath_name (hc : '/' ∉ c) : filenameFromPath c true = c := by
  unfold filenameFromPath
  rw [tokens_name hc]
  rfl

theorem filenameFromPath_lastName (h : LastName p d c k) :
    filenameFromPath p true = if k = 0 then c else [] := by
  rw [h.eq]
  cases k with
  | zero =>
    rw [List.replicate_zero, List.append_nil, if_pos rfl]
    rcases h.dir with rfl | hd
    · exact filenameFromPath_name h.noSlash
    · obtain ⟨d', rfl⟩ := List.getLast?_eq_some_iff.mp hd
      rw [List.append_assoc, List.singleton_append, filenameFromPath_slash, filenameFromPath_name h.noSlash]
  | succ k =>
    rw [List.replicate_succ', ← List.append_assoc, filenameFromPath_slash, if_neg (Nat.succ_ne_zero k)]
    exact filenameFromPath_name (by simp)

def collapse (p : List Char) : List Char := p.destutter fun a b => a ≠ '/' ∨ b ≠ '/'

def tidy (p : List Char) : List Char := (collapse p).rdropWhile fun ch => ch = '/'

theorem collapse_slash_slash (x y : List Char) :
    collapse (x ++ '/' :: '/' :: y) = collapse (x ++ '/' :: y) := by
  have hfrom (a : Char) (x : List Char) :
      (x ++ '/' :: '/' :: y).destutter' (fun a b => a ≠ '/' ∨ b ≠ '/') a =
        (x ++ '/' :: y).destutter' (fun a b => a ≠ '/' ∨ b ≠ '/') a := by
    induction x generalizing a with
    | nil => by_cases ha : a = '/' <;> simp [ha]
    | cons b x ih => simp only [List.cons_append, List.destutter'_cons, ih]
  unfold collapse
  cases x with
  | nil => simp [List.destutter_cons']
  | cons a x => exact hfrom a x

theorem collapse_slashes (x y : List Char) (k : ℕ) :
    collapse (x ++ List.replicate (k + 1) '/' ++ y) = collapse (x ++ '/' :: y) := by
  induction k with
  | zero => simp
  | succ k ih =>
    rw [← ih, List.replicate_succ, List.replicate_succ]
    simp only [List.append_assoc, List.cons_append]
    exact collapse_slash_slash x _

theorem filter_collapse (p : List Char) :
    (collapse p).filter (fun ch => ch ≠ '/') = p.filter fun ch => ch ≠ '/' := by
  have hfrom (a : Char) (p : List Char) :
      (p.destutter' (fun a b => a ≠ '/' ∨ b ≠ '/') a).filter (fun ch => ch ≠ '/') =
        (a :: p).filter fun ch => ch ≠ '/' := by
    induction p generalizing a with
    | nil => rfl
    | cons b p ih =>
      rw [List.destutter'_cons]
      by_cases hab : a ≠ '/' ∨ b ≠ '/'
      · rw [if_pos hab]
        simp only [List.filter_cons, ih]
      · obtain ⟨rfl, rfl⟩ : a = '/' ∧ b = '/' := by
          push Not at hab
          exact hab
        rw [if_neg hab, ih '/']
        rfl
  cases p with
  | nil => rfl
  | cons a p => exact hfrom a p

theorem filter_tidy (p : List Char) :
    (tidy p).filter (fun ch => ch ≠ '/') = p.filter fun ch => ch ≠ '/' := by
  have hslashes : ((collapse p).rtakeWhile fun ch => ch = '/').filter (fun ch => ch ≠ '/') = [] := by
    rw [List.filter_eq_nil_iff]
    intro ch hch
    simpa using List.mem_rtakeWhile_imp hch
  rw [← filter_collapse p]
  conv_rhs => rw [← List.rdropWhile_append_rtakeWhile (l := collapse p) (p := fun ch => ch = '/'),
    List.filter_append, hslashes, List.append_nil]
  rfl

theorem parent_and_filename_iff (p : List Char) (htwo : 2 ≤ (names p).length) :
    tidy (parentPath p ++ "/".toList ++ filenameFromPath p true) = tidy p ↔ p.getLast? ≠ some '/' := by
  obtain ⟨hlt, _⟩ | ⟨_, d, c, k, e, b, j, hp, hd, hparent⟩ := parentPath_cases p
  · omega
  rw [hparent, filenameFromPath_lastName hp]
  cases k with
  | zero =>
    have hlast : p.getLast? ≠ some '/' := by
      rw [hp.eq, List.replicate_zero, List.append_nil]
      exact hp.getLast?_ne
    obtain ⟨i, rfl⟩ : ∃ i, j = i + 1 := by
      cases j with
      | zero =>
        have hdir := hp.dir.resolve_left (by simp [hd.eq, hd.ne_nil])
        rw [hd.eq, List.replicate_zero, List.append_nil] at hdir
        exact absurd hdir hd.getLast?_ne
      | succ i => exact ⟨i, rfl⟩
    have hcollapse : collapse (e ++ b ++ "/".toList ++ c) = collapse p := by
      rw [hp.eq, hd.eq, List.replicate_zero, List.append_nil, collapse_slashes, List.append_assoc]
      rfl
    simp only [if_pos, tidy, hcollapse, hlast, ne_eq, not_false_eq_true]
  | succ k =>
    have hlast : p.getLast? = some '/' := by
      rw [hp.eq, List.replicate_succ', ← List.append_assoc, List.getLast?_concat]
    simp only [if_neg (Nat.succ_ne_zero k), hlast, ne_eq, not_true_eq_false, iff_false]
    intro heq
    have hchars := congrArg (List.filter fun ch => decide (ch ≠ '/')) heq
    rw [filter_tidy, filter_tidy, hp.eq, hd.eq] at hchars
    have hc : c.filter (fun ch => ch ≠ '/') = [] := by simpa using hchars
    apply hp.ne_nil
    rw [List.filter_eq_nil_iff] at hc
    apply List.eq_nil_iff_forall_not_mem.mpr
    intro ch hch
    have hslash : ch = '/' := by simpa using hc ch hch
    exact hp.noSlash (hslash ▸ hch)

theorem parent_and_filename_bar : tidy (parentPath "/foo//bar".toList ++ "/".toList ++
    filenameFromPath "/foo//bar".toList true) = tidy "/foo//bar".toList :=
  (parent_and_filename_iff "/foo//bar".toList (by decide)).mpr (by decide)

theorem trailing_slash_no_filename : 2 ≤ (names "/foo/bar/".toList).length ∧
    filenameFromPath "/foo/bar/".toList true = [] ∧
    tidy (parentPath "/foo/bar/".toList ++ "/".toList ++ filenameFromPath "/foo/bar/".toList true) ≠
      tidy "/foo/bar/".toList := by
  have hp : LastName "/foo/bar/".toList "/foo/".toList "bar".toList 1 :=
    ⟨rfl, by decide, by decide, .inr (by decide)⟩
  have hname : filenameFromPath "/foo/bar/".toList true = [] := filenameFromPath_lastName hp
  refine ⟨by decide, hname, ?_⟩
  rw [hname]
  decide

end SysUtils.Utils

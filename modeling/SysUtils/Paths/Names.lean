import Mathlib.Data.List.DropRight
import SysUtils.Paths

namespace SysUtils.Paths

variable {δ φ : Type} {p q c d : List Char} {k : ℕ}

def names (p : List Char) : List (List Char) := (components p).filter fun c => c ≠ []

theorem names_slash (p q : List Char) : names (p ++ '/' :: q) = names p ++ names q := by
  rw [names, components_slash, List.filter_append]
  rfl

theorem names_name (hc : '/' ∉ c) (hne : c ≠ []) : names c = [c] := by
  rw [names, components_name hc]
  simp [hne]

theorem names_nil : names [] = [] := rfl

theorem names_slashes (k : ℕ) : names (List.replicate k '/') = [] := by
  induction k with
  | zero => rfl
  | succ k ih => rw [List.replicate_succ, ← List.nil_append ('/' :: _), names_slash, ih, names_nil]; rfl

theorem names_append_slashes (p : List Char) (k : ℕ) : names (p ++ List.replicate k '/') = names p := by
  cases k with
  | zero => rw [List.replicate_zero, List.append_nil]
  | succ k => rw [List.replicate_succ, names_slash, names_slashes, List.append_nil]

structure LastName (p d c : List Char) (k : ℕ) : Prop where
  eq : p = d ++ c ++ List.replicate k '/'
  ne_nil : c ≠ []
  noSlash : '/' ∉ c
  dir : d = [] ∨ d.getLast? = some '/'

theorem slashes_or_lastName (p : List Char) :
    p = List.replicate p.length '/' ∨ ∃ d c k, LastName p d c k := by
  induction p using List.reverseRecOn with
  | nil => exact .inl rfl
  | append_singleton p ch ih =>
    by_cases hch : ch = '/'
    · subst hch
      rcases ih with ih | ⟨d, c, k, ih⟩
      · left
        rw [List.length_append, List.length_singleton, List.replicate_succ', ← ih]
      · right
        refine ⟨d, c, k + 1, ?_, ih.ne_nil, ih.noSlash, ih.dir⟩
        rw [List.replicate_succ', ← List.append_assoc, ← ih.eq]
    · right
      rcases ih with ih | ⟨d, c, k, ih⟩
      · refine ⟨p, [ch], 0, by simp, by simp, by simpa using Ne.symm hch, ?_⟩
        rw [ih]
        cases p.length with
        | zero => exact .inl rfl
        | succ m => exact .inr (by simp [List.replicate_succ'])
      · cases k with
        | zero =>
          refine ⟨d, c ++ [ch], 0, by simp [ih.eq], by simp, ?_, ih.dir⟩
          simpa [ih.noSlash] using Ne.symm hch
        | succ k =>
          refine ⟨p, [ch], 0, by simp, by simp, by simpa using Ne.symm hch, .inr ?_⟩
          rw [ih.eq, List.replicate_succ', ← List.append_assoc, List.getLast?_concat]

theorem LastName.names_eq (h : LastName p d c k) : names p = names d ++ [c] := by
  rw [h.eq, names_append_slashes]
  rcases h.dir with rfl | hd
  · rw [List.nil_append, names_name h.noSlash h.ne_nil]
    rfl
  · obtain ⟨d', rfl⟩ := List.getLast?_eq_some_iff.mp hd
    rw [List.append_assoc, List.singleton_append, names_slash, names_slash, names_nil, List.append_nil,
      names_name h.noSlash h.ne_nil]

theorem LastName.append_slash (h : LastName p d c k) (m : ℕ) :
    LastName (p ++ List.replicate m '/') d c (k + m) where
  eq := by rw [h.eq, List.append_assoc, List.replicate_append_replicate]
  ne_nil := h.ne_nil
  noSlash := h.noSlash
  dir := h.dir

theorem LastName.trim (h : LastName p d c k) : LastName (d ++ c) d c 0 where
  eq := by simp
  ne_nil := h.ne_nil
  noSlash := h.noSlash
  dir := h.dir

theorem LastName.getLast?_ne (h : LastName p d c k) : (d ++ c).getLast? ≠ some '/' := by
  rw [List.getLast?_append_of_ne_nil _ h.ne_nil]
  intro hlast
  exact h.noSlash (List.mem_of_getLast? hlast)

theorem LastName.rdropWhile_eq (h : LastName p d c k) : p.rdropWhile (fun ch => ch = '/') = d ++ c := by
  obtain ⟨c', x, hc⟩ := (List.eq_nil_or_concat' c).resolve_left h.ne_nil
  have hx : x ≠ '/' := by
    rintro rfl
    exact h.noSlash (by simp [hc])
  rw [h.eq, hc, ← List.append_assoc]
  clear h
  induction k with
  | zero => simp [hx]
  | succ k ih =>
    rw [List.replicate_succ', ← List.append_assoc, List.rdropWhile_concat_pos _ _ _ (by simp), ih]

theorem eq_rdropWhile_slashes (hd : d.getLast? = some '/') :
    ∃ m, d = d.rdropWhile (fun ch => ch = '/') ++ List.replicate (m + 1) '/' := by
  have hsplit : d.rdropWhile (fun ch => ch = '/') ++ d.rtakeWhile (fun ch => ch = '/') = d :=
    List.rdropWhile_append_rtakeWhile
  have hslashes : d.rtakeWhile (fun ch => ch = '/') =
      List.replicate (d.rtakeWhile fun ch => ch = '/').length '/' :=
    List.eq_replicate_of_mem fun ch hch => by simpa using List.mem_rtakeWhile_imp hch
  have hne : d.rtakeWhile (fun ch => ch = '/') ≠ [] := by
    obtain ⟨d', rfl⟩ := List.getLast?_eq_some_iff.mp hd
    rw [List.rtakeWhile_concat_pos _ _ _ (by simp)]
    simp
  obtain ⟨m, hm⟩ := Nat.exists_eq_succ_of_ne_zero (mt List.length_eq_zero_iff.mp hne)
  rw [hm] at hslashes
  exact ⟨m, by rw [← hslashes, hsplit]⟩

def Tree.entry (T : Tree δ φ) (p : List Char) : Option (Loc × List Char) :=
  let d := p.rdropWhile fun ch => ch ≠ '/'
  let c := p.rtakeWhile fun ch => ch ≠ '/'
  if c = [] then none else (if d = [] then some T.cwd else T.locate d).map fun l => (l, c)

variable {T : Tree δ φ} {l : Loc}

theorem rtakeWhile_noSlash (p : List Char) (hc : '/' ∉ c) :
    (p ++ c).rtakeWhile (fun ch => ch ≠ '/') = p.rtakeWhile (fun ch => ch ≠ '/') ++ c := by
  have hall : ∀ ch ∈ c.reverse, decide (ch ≠ '/') = true := by
    intro ch hch
    exact decide_eq_true fun h => hc (h ▸ List.mem_reverse.mp hch)
  simp only [List.rtakeWhile, List.reverse_append, List.takeWhile_append_of_pos hall, List.reverse_reverse]

theorem rdropWhile_noSlash (p : List Char) (hc : '/' ∉ c) :
    (p ++ c).rdropWhile (fun ch => ch ≠ '/') = p.rdropWhile (fun ch => ch ≠ '/') := by
  have hall : ∀ ch ∈ c.reverse, decide (ch ≠ '/') = true := by
    intro ch hch
    exact decide_eq_true fun h => hc (h ▸ List.mem_reverse.mp hch)
  simp only [List.rdropWhile, List.reverse_append, List.dropWhile_append_of_pos hall]

theorem rtakeWhile_noSlash_eq_nil :
    p.rtakeWhile (fun ch => ch ≠ '/') = [] ↔ p = [] ∨ p.getLast? = some '/' := by
  rcases List.eq_nil_or_concat p with rfl | ⟨d, ch, rfl⟩
  · simp
  · by_cases hch : ch = '/' <;> simp [hch]

theorem append_name_inj (hp : p = [] ∨ p.getLast? = some '/') (hq : q = [] ∨ q.getLast? = some '/')
    (hc : '/' ∉ c) (hd : '/' ∉ d) (h : p ++ c = q ++ d) : p = q ∧ c = d := by
  have hcd : c = d := by
    have hlast := congrArg (List.rtakeWhile fun ch => ch ≠ '/') h
    simpa only [rtakeWhile_noSlash _ hc, rtakeWhile_noSlash _ hd, rtakeWhile_noSlash_eq_nil.mpr hp,
      rtakeWhile_noSlash_eq_nil.mpr hq, List.nil_append] using hlast
  subst hcd
  exact ⟨List.append_cancel_right h, rfl⟩

theorem Tree.entry_append (hp : p.getLast? = some '/') (hc : '/' ∉ c) (hne : c ≠ []) :
    T.entry (p ++ c) = (T.locate p).map fun l => (l, c) := by
  obtain ⟨d, rfl⟩ := List.getLast?_eq_some_iff.mp hp
  unfold Tree.entry
  simp only [rtakeWhile_noSlash _ hc, rdropWhile_noSlash _ hc]
  rw [List.rtakeWhile_concat_neg _ _ _ (by simp), List.rdropWhile_concat_neg _ _ _ (by simp)]
  simp [hne]

theorem Tree.entry_name (T : Tree δ φ) (hc : '/' ∉ c) (hne : c ≠ []) : T.entry c = some (T.cwd, c) := by
  have hlast := rtakeWhile_noSlash [] hc
  have hdir := rdropWhile_noSlash [] hc
  rw [List.nil_append] at hlast hdir
  unfold Tree.entry
  simp only [hlast, hdir]
  simp [hne]

theorem Tree.dir_of_entry (hc : '/' ∉ c) (h : T.entry (p ++ c) = some (l, c)) :
    p = [] ∨ p.getLast? = some '/' := by
  unfold Tree.entry at h
  simp only [rtakeWhile_noSlash _ hc] at h
  split_ifs at h
  all_goals
    obtain ⟨_, _, heq⟩ := Option.map_eq_some_iff.mp h
    exact rtakeWhile_noSlash_eq_nil.mp (List.append_left_eq_self.mp (Prod.mk.inj heq).2)

end SysUtils.Paths

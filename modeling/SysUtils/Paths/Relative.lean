import SysUtils.Paths.Names
import SysUtils.Strings

namespace SysUtils.Paths

variable {δ φ : Type} {links : ℕ} {l cwd : Loc} {c t x : List Char} {cs : List (List Char)}

namespace Nodes

variable {T : Nodes δ φ}

theorem isDir_of_searchable (h : T.searchable l = true) : T.isDir l = true := by
  unfold searchable at h
  unfold isDir
  split at h
  · rfl
  · cases h

theorem walk_empty_cons : T.walk links l ([] :: cs) = if T.isDir l then T.walk links l cs else none := by
  cases links <;> rfl

theorem walk_of_not_searchable (hc : c ≠ []) (h : T.searchable l = false) :
    T.walk links l (c :: cs) = none := by
  cases links <;> simp [walk, walkWith, hc, h]

theorem walk_empties (hc : c ≠ []) (m : ℕ) :
    T.walk links l (List.replicate m [] ++ c :: cs) = T.walk links l (c :: cs) := by
  induction m with
  | zero => rfl
  | succ m ih =>
    rw [List.replicate_succ, List.cons_append, walk_empty_cons, ih]
    cases hdir : T.isDir l with
    | true => rfl
    | false =>
      have hs : T.searchable l = false := by
        by_contra hne
        rw [isDir_of_searchable (by simpa using hne)] at hdir
        cases hdir
      rw [walk_of_not_searchable hc hs]
      rfl

theorem walk_zero_prefix {r : ℕ × Loc} (h : T.walk 0 l cs = some r) :
    l.take (l.length - cs.length) <+: r.2 := by
  induction cs generalizing l with
  | nil =>
    cases h
    simp
  | cons c cs ih =>
    have hshort (l' : Loc) (hl : l.take (l.length - (cs.length + 1)) <+: l'.take (l'.length - cs.length))
        (h : T.walk 0 l' cs = some r) : l.take (l.length - (cs.length + 1)) <+: r.2 :=
      hl.trans (ih h)
    simp only [walk, walkWith] at h
    split_ifs at h with h1 h2 h3 h4 h5
    · exact hshort l (List.take_prefix_take_left (by omega)) h
    · exact hshort l (List.take_prefix_take_left (by omega)) h
    · refine hshort l.dropLast ?_ h
      rw [List.dropLast_eq_take, List.take_take, List.length_take]
      exact List.take_prefix_take_left (by omega)
    · split at h
      · cases h
      · cases h
      · refine hshort (l ++ [c]) ?_ h
        refine List.prefix_of_prefix_length_le ((List.take_prefix _ l).trans (List.prefix_append l [c]))
          (List.take_prefix _ _) ?_
        simp only [List.length_take, List.length_append, List.length_singleton]
        omega

end Nodes

theorem components_slashes (q t : List Char) (m : ℕ) :
    components (q ++ List.replicate (m + 1) '/' ++ t) =
      components q ++ (List.replicate m [] ++ components t) := by
  induction m generalizing q with
  | zero => simpa using components_slash q t
  | succ m ih =>
    have hcut : q ++ List.replicate (m + 1 + 1) '/' ++ t =
        (q ++ ['/']) ++ List.replicate (m + 1) '/' ++ t := by
      simp [List.replicate_succ]
    rw [hcut, ih, components_slash q [], List.append_assoc]
    rfl

theorem components_relative (ht : t ≠ []) (hrel : t.head? ≠ some '/') :
    ∃ c cs, c ≠ [] ∧ components t = c :: cs := by
  obtain ⟨ch, t, rfl⟩ := List.exists_cons_of_ne_nil ht
  have hch : ch ≠ '/' := by simpa using hrel
  obtain ⟨c, cs, hcs⟩ := List.exists_cons_of_ne_nil (List.splitOnP_ne_nil (· == '/') t)
  refine ⟨ch :: c, cs, by simp, ?_⟩
  unfold components
  rw [List.splitOn_eq_splitOnP, List.splitOnP_cons_eq_if_modifyHead, hcs]
  simp [hch]

theorem Tree.locate_slashes (T : Tree δ φ) (q : List Char) (ht : t ≠ []) (hrel : t.head? ≠ some '/')
    (m : ℕ) : T.locate (q ++ List.replicate (m + 1) '/' ++ t) = T.locate (q ++ '/' :: t) := by
  obtain ⟨c, cs, hc, hcs⟩ := components_relative ht hrel
  have hstart : start T.cwd (q ++ List.replicate (m + 1) '/' ++ t) = start T.cwd (q ++ '/' :: t) := by
    cases q <;> simp [start, List.replicate_succ]
  unfold Tree.locate
  rw [if_neg (by simp [List.replicate_succ]), if_neg (by simp), hstart, components_slashes,
    components_slash, hcs, Nodes.walk_append, Nodes.walk_append]
  simp only [Nodes.walk_empties hc]

def ValidName (c : List Char) : Prop := c ≠ [] ∧ c ≠ ['.'] ∧ c ≠ ['.', '.'] ∧ '/' ∉ c

instance (c : List Char) : Decidable (ValidName c) := inferInstanceAs (Decidable (_ ∧ _))

def linkNode (cwd : Loc) (c t : List Char) (l : Loc) : Option (Node Unit Unit) :=
  if l = cwd ++ [c] then some (.lnk t) else if ∀ d ∈ l, ValidName d then some (.dir true ()) else none

theorem linkNode_dir (h : ∀ d ∈ l, ValidName d) (hl : l ≠ cwd ++ [c]) :
    linkNode cwd c t l = some (.dir true ()) := by
  unfold linkNode
  rw [if_neg hl, if_pos h]

def linkNodes (cwd : Loc) (c t : List Char) (hc : ValidName c) : Nodes Unit Unit where
  node := linkNode cwd c t
  named l d k h := by
    unfold linkNode at h
    split_ifs at h with hl hvalid
    · obtain ⟨_, hd⟩ := List.append_inj' hl rfl
      obtain rfl : d = c := by simpa using hd
      exact hc
    · exact hvalid d (by simp)

theorem linkNodes_real (hc : ValidName c) (hl : l.length ≤ cwd.length) (h : ∀ d ∈ l, ValidName d) :
    (linkNodes cwd c t hc).Real l := by
  induction l using List.reverseRecOn with
  | nil => exact .root
  | append_singleton l d ih =>
    rw [List.length_append, List.length_singleton] at hl
    have hnode {l : Loc} (hl : l.length ≤ cwd.length) (h : ∀ d ∈ l, ValidName d) :
        (linkNodes cwd c t hc).node l = some (.dir true ()) := by
      apply linkNode_dir h
      rintro rfl
      rw [List.length_append, List.length_singleton] at hl
      omega
    have hup : ∀ e ∈ l, ValidName e := fun e he => h e (List.mem_append_left _ he)
    refine .child (ih (by omega) hup) ?_ (hnode (by simpa using hl) h) (by simp)
    simp [Nodes.searchable, hnode (by omega) hup]

def linkTree (cwd : Loc) (c t : List Char) (hc : ValidName c) (hcwd : ∀ d ∈ cwd, ValidName d) :
    Tree Unit Unit where
  toNodes := linkNodes cwd c t hc
  rootDir := by
    simp [Nodes.isDir, linkNodes, linkNode]
  cwd := cwd
  cwdReal := linkNodes_real hc (Nat.le_refl _) hcwd
  maxLinks := 0

theorem linkNodes_walk (hc : ValidName c) (hx : x ∈ cwd) (hcs : ∀ d ∈ cs, '/' ∉ d ∧ d ≠ x)
    (hl : ∀ d ∈ l, ValidName d ∧ d ≠ x) :
    ∃ l', (linkNodes cwd c t hc).walk 0 l cs = some (0, l') ∧ x ∉ l' := by
  induction cs generalizing l with
  | nil => exact ⟨l, rfl, fun hmem => (hl x hmem).2 rfl⟩
  | cons d cs ih =>
    have hnode {l : Loc} (hl : ∀ d ∈ l, ValidName d ∧ d ≠ x) :
        (linkNodes cwd c t hc).node l = some (.dir true ()) := by
      apply linkNode_dir (fun d hd => (hl d hd).1)
      rintro rfl
      exact (hl x (List.mem_append_left _ hx)).2 rfl
    have hs : (linkNodes cwd c t hc).searchable l = true := by simp [Nodes.searchable, hnode hl]
    have hdir := Nodes.isDir_of_searchable hs
    have hrest (l : Loc) (hl : ∀ d ∈ l, ValidName d ∧ d ≠ x) :
        ∃ l', (linkNodes cwd c t hc).walk 0 l cs = some (0, l') ∧ x ∉ l' :=
      ih (fun e he => hcs e (.tail _ he)) hl
    simp only [Nodes.walk, Nodes.walkWith] at hrest ⊢
    split_ifs with h1 h2 h3 h4
    · exact hrest l hl
    · simp [hs] at h2
    · exact hrest l hl
    · exact hrest l.dropLast fun e he => hl e (List.dropLast_subset l he)
    · have hbelow : ∀ e ∈ l ++ [d], ValidName e ∧ e ≠ x := by
        intro e he
        rcases List.mem_append.mp he with he | he
        · exact hl e he
        · obtain rfl := List.mem_singleton.mp he
          obtain ⟨hslash, hne⟩ := hcs e (.head _)
          exact ⟨⟨h1, h3, h4, hslash⟩, hne⟩
      rw [hnode hbelow]
      exact hrest _ hbelow

theorem noSlash_of_components (t : List Char) : ∀ c ∈ components t, '/' ∉ c := by
  intro c hc hslash
  unfold components at hc
  rw [List.splitOn_eq_splitOnP] at hc
  simpa using Strings.not_of_mem_splitOnP _ _ c hc '/' hslash

def freshName (t : List Char) : List Char := 'x' :: (components t).flatten

theorem freshName_valid (t : List Char) : ValidName (freshName t) := by
  refine ⟨by simp [freshName], by simp [freshName], by simp [freshName], ?_⟩
  intro hslash
  rcases List.mem_cons.mp hslash with hx | hmem
  · cases hx
  · obtain ⟨c, hc, hmem⟩ := List.mem_flatten.mp hmem
    exact noSlash_of_components t c hc hmem

theorem ne_freshName {t c : List Char} (hc : c ∈ components t) : c ≠ freshName t := by
  rintro rfl
  have hlen := (List.sublist_flatten_of_mem hc).length_le
  simp only [freshName, List.length_cons] at hlen
  omega

theorem exists_relative_ne_absolute (hc : ValidName c) (ht : t ≠ []) (hrel : t.head? ≠ some '/') :
    ∃ T : Tree Unit Unit, T.searchable T.cwd = true ∧ T.node (T.cwd ++ [c]) = some (.lnk t) ∧
      T.locate ('/' :: t) ≠ T.locate t := by
  let cwd : Loc := List.replicate ((components t).length + 1) (freshName t)
  have hcwd : ∀ d ∈ cwd, ValidName d := by
    intro d hd
    rw [List.eq_of_mem_replicate hd]
    exact freshName_valid t
  have hmem : freshName t ∈ cwd := List.mem_replicate.mpr ⟨Nat.succ_ne_zero _, rfl⟩
  refine ⟨linkTree cwd c t hc hcwd, ?_, if_pos rfl, ?_⟩
  · have hnode : (linkTree cwd c t hc hcwd).node cwd = some (.dir true ()) := linkNode_dir hcwd (by simp)
    change (linkTree cwd c t hc hcwd).searchable cwd = true
    simp [Nodes.searchable, hnode]
  · intro heq
    obtain ⟨l, hwalk, hl⟩ := linkNodes_walk (t := t) (l := []) hc hmem
      (fun d hd => ⟨noSlash_of_components t d hd, ne_freshName hd⟩) (by simp)
    have habs : (linkTree cwd c t hc hcwd).locate ('/' :: t) = some l := by
      have hcomp : components ('/' :: t) = [] :: components t := components_slash [] t
      have hwhole : (linkTree cwd c t hc hcwd).walk 0 [] ([] :: components t) = some (0, l) := by
        rw [Nodes.walk_empty_cons, if_pos (linkTree cwd c t hc hcwd).rootDir]
        exact hwalk
      unfold Tree.locate
      rw [if_neg (by simp), hcomp]
      exact congrArg (Option.map Prod.snd) hwhole
    rw [habs] at heq
    unfold Tree.locate at heq
    rw [if_neg ht] at heq
    obtain ⟨r, hr, hrl⟩ := Option.map_eq_some_iff.mp heq.symm
    have hstart : start (linkTree cwd c t hc hcwd).cwd t = cwd := if_neg hrel
    rw [hstart] at hr
    have hclimb := Nodes.walk_zero_prefix hr
    rw [hrl] at hclimb
    refine hl (hclimb.subset ?_)
    simp [cwd]

end SysUtils.Paths

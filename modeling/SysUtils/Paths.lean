import Mathlib.Data.Nat.Notation
import Mathlib.Data.List.Basic

namespace SysUtils.Paths

def components (p : List Char) : List (List Char) := p.splitOn '/'

abbrev Loc := List (List Char)

inductive Node (δ φ : Type) where
  | dir (searchable : Bool) (data : δ)
  | lnk (target : List Char)
  | file (data : φ)

structure Nodes (δ φ : Type) where
  node : Loc → Option (Node δ φ)
  named : ∀ l c k, node (l ++ [c]) = some k → c ≠ [] ∧ c ≠ ['.'] ∧ c ≠ ['.', '.'] ∧ '/' ∉ c

variable {δ φ : Type}

namespace Nodes

variable (T : Nodes δ φ)

def isDir (l : Loc) : Bool :=
  match T.node l with
  | some (.dir _ _) => true
  | _ => false

def searchable (l : Loc) : Bool :=
  match T.node l with
  | some (.dir b _) => b
  | _ => false

/-- Follows the names from `l`. At a link `follow` takes over; otherwise `links` is handed on, the number
of links that may still be followed. -/
def walkWith (links : ℕ) (follow : Loc → List (List Char) → Option (ℕ × Loc)) :
    Loc → List (List Char) → Option (ℕ × Loc)
  | l, [] => some (links, l)
  | l, c :: cs =>
      if c = [] then if T.isDir l then walkWith links follow l cs else none
      else if T.searchable l = false then none
      else if c = ['.'] then walkWith links follow l cs
      else if c = ['.', '.'] then walkWith links follow l.dropLast cs
      else
        match T.node (l ++ [c]) with
        | none => none
        | some (.lnk target) => follow (if target.head? = some '/' then [] else l) (components target ++ cs)
        | some _ => walkWith links follow (l ++ [c]) cs

def walk : ℕ → Loc → List (List Char) → Option (ℕ × Loc)
  | 0 => T.walkWith 0 fun _ _ => none
  | links + 1 => T.walkWith (links + 1) (walk links)

inductive Real : Loc → Prop where
  | root : Real []
  | child {l : Loc} {c : List Char} {k : Node δ φ} (hl : Real l) (hs : T.searchable l = true)
      (hk : T.node (l ++ [c]) = some k) (hlnk : ∀ target, k ≠ .lnk target) : Real (l ++ [c])

variable {T} {links : ℕ} {follow : Loc → List (List Char) → Option (ℕ × Loc)}

theorem walkWith_append (hfollow : ∀ l cs ds, follow l (cs ++ ds) =
      (follow l cs).bind fun r => T.walk r.1 r.2 ds)
    (hself : T.walk links = T.walkWith links follow) (l : Loc) (cs ds : List (List Char)) :
    T.walkWith links follow l (cs ++ ds) =
      (T.walkWith links follow l cs).bind fun r => T.walk r.1 r.2 ds := by
  induction cs generalizing l with
  | nil => simp [walkWith, hself]
  | cons c cs ih =>
    simp only [List.cons_append, walkWith]
    split_ifs
    · exact ih l
    · rfl
    · rfl
    · exact ih l
    · exact ih _
    · split
      · rfl
      · rw [← List.append_assoc]
        exact hfollow _ _ _
      · exact ih _

theorem walk_append (links : ℕ) (l : Loc) (cs ds : List (List Char)) :
    T.walk links l (cs ++ ds) = (T.walk links l cs).bind fun r => T.walk r.1 r.2 ds := by
  induction links generalizing l cs ds with
  | zero => exact walkWith_append (fun _ _ _ => rfl) rfl l cs ds
  | succ links ih => exact walkWith_append ih rfl l cs ds

theorem walk_empty {l : Loc} : T.walk links l [[]] = if T.isDir l then some (links, l) else none := by
  cases links <;> rfl

theorem walk_name {l : Loc} {c : List Char} {k : Node δ φ} (hk : T.node (l ++ [c]) = some k)
    (hlnk : ∀ target, k ≠ .lnk target) (cs : List (List Char)) :
    T.walk links l (c :: cs) = if T.searchable l then T.walk links (l ++ [c]) cs else none := by
  obtain ⟨hne, hdot, hdots, _⟩ := T.named l c k hk
  cases links with
  | zero =>
    cases k <;> cases hs : T.searchable l <;> simp_all [walk, walkWith]
  | succ links =>
    cases k <;> cases hs : T.searchable l <;> simp_all [walk, walkWith]

theorem Real.dropLast {l : Loc} (h : T.Real l) : T.Real l.dropLast := by
  cases h with
  | root => exact .root
  | child hl => simpa using hl

theorem walkWith_real (hfollow : ∀ l cs r, T.Real l → follow l cs = some r → T.Real r.2) {l : Loc}
    {cs : List (List Char)} {r : ℕ × Loc} (hl : T.Real l)
    (h : T.walkWith links follow l cs = some r) : T.Real r.2 := by
  induction cs generalizing l with
  | nil =>
    cases h
    exact hl
  | cons c cs ih =>
    simp only [walkWith] at h
    split_ifs at h with h1 h2 h3 h4 h5
    · exact ih hl h
    · exact ih hl h
    · exact ih hl.dropLast h
    · have hs : T.searchable l = true := by simpa using h3
      split at h
      · cases h
      · refine hfollow _ _ _ ?_ h
        split_ifs
        · exact .root
        · exact hl
      · rename_i k hlnk hk
        exact ih (.child hl hs hk hlnk) h

theorem walk_real {l : Loc} {cs : List (List Char)} {r : ℕ × Loc} (hl : T.Real l)
    (h : T.walk links l cs = some r) : T.Real r.2 := by
  induction links generalizing l cs r with
  | zero => exact walkWith_real (fun _ _ _ _ h => by cases h) hl h
  | succ links ih => exact walkWith_real (fun _ _ _ hl h => ih hl h) hl h

theorem Real.walk {l : Loc} (h : T.Real l) : T.walk links [] l = some (links, l) := by
  induction h with
  | root => cases links <;> rfl
  | child hl hs hk hlnk ih =>
    rw [walk_append, ih, Option.bind_some, walk_name hk hlnk, if_pos hs]
    cases links <;> rfl

theorem Real.noSlash {l : Loc} (h : T.Real l) : ∀ c ∈ l, '/' ∉ c := by
  induction h with
  | root => simp
  | child hl hs hk _ ih =>
    intro c hc
    rcases List.mem_append.mp hc with hc | hc
    · exact ih c hc
    · obtain rfl := List.mem_singleton.mp hc
      exact (T.named _ _ _ hk).2.2.2

end Nodes

structure Tree (δ φ : Type) extends Nodes δ φ where
  rootDir : toNodes.isDir [] = true
  cwd : Loc
  cwdReal : toNodes.Real cwd
  maxLinks : ℕ

def start (cwd : Loc) (p : List Char) : Loc := if p.head? = some '/' then [] else cwd

namespace Tree

variable (T : Tree δ φ)

def locate (p : List Char) : Option Loc :=
  if p = [] then none else (T.walk T.maxLinks (start T.cwd p) (components p)).map Prod.snd

end Tree

def render (l : Loc) : List Char := if l = [] then ['/'] else l.flatMap fun c => '/' :: c

theorem components_slash (p q : List Char) : components (p ++ '/' :: q) = components p ++ components q :=
  List.splitOn_append_cons_self p q

theorem components_name {c : List Char} (hc : '/' ∉ c) : components c = [c] :=
  List.splitOn_eq_singleton hc

theorem components_names {c : List Char} {l : Loc} (hc : '/' ∉ c) (hl : ∀ d ∈ l, '/' ∉ d) :
    components (c ++ l.flatMap fun d => '/' :: d) = c :: l := by
  induction l generalizing c with
  | nil => simpa using components_name hc
  | cons d l ih =>
    have hflat : (d :: l).flatMap (fun d => '/' :: d) = '/' :: (d ++ l.flatMap fun d => '/' :: d) := by
      simp
    rw [hflat, components_slash, components_name hc,
      ih (hl d (.head _)) fun e he => hl e (.tail _ he)]
    rfl

variable {T : Tree δ φ} {p q c : List Char} {l l' : Loc}

theorem Tree.real_of_locate (h : T.locate p = some l) : T.Real l := by
  unfold Tree.locate at h
  split_ifs at h
  obtain ⟨r, hr, rfl⟩ := Option.map_eq_some_iff.mp h
  refine Nodes.walk_real ?_ hr
  unfold start
  split_ifs
  · exact .root
  · exact T.cwdReal

theorem Tree.locate_render (h : T.Real l) : T.locate (render l) = some l := by
  have hroot : T.walk T.maxLinks [] [[]] = some (T.maxLinks, []) := by
    rw [Nodes.walk_empty, if_pos T.rootDir]
  by_cases hl : l = []
  · subst hl
    have hc : components (render []) = [[]] ++ [[]] := components_slash [] []
    have hs : start T.cwd (render []) = [] := rfl
    unfold Tree.locate
    rw [hs, hc, Nodes.walk_append, hroot, Option.bind_some, hroot]
    rfl
  · have hrender : render l = l.flatMap fun c => '/' :: c := if_neg hl
    have hc : components (render l) = [[]] ++ l := by
      rw [hrender]
      simpa using components_names (c := []) (by simp) h.noSlash
    obtain ⟨d, ds, rfl⟩ := List.exists_cons_of_ne_nil hl
    have hs : start T.cwd (render (d :: ds)) = [] := rfl
    have hne : render (d :: ds) ≠ [] := by simp [render]
    unfold Tree.locate
    rw [if_neg hne, hs, hc, Nodes.walk_append, hroot, Option.bind_some, h.walk]
    rfl

theorem Tree.locate_append (hp : p.getLast? = some '/') (hl : T.locate p = some l) :
    ∃ links, ∀ q, T.locate (p ++ q) = (T.walk links l (components q)).map Prod.snd := by
  obtain ⟨d, rfl⟩ := List.getLast?_eq_some_iff.mp hp
  have hstart (q : List Char) : start T.cwd (d ++ ['/'] ++ q) = start T.cwd (d ++ ['/']) := by
    cases d <;> simp [start]
  have hcomp (q : List Char) : components (d ++ ['/'] ++ q) = components d ++ components q := by
    rw [← components_slash]
    simp
  have hcomp' : components (d ++ ['/']) = components d ++ [[]] := components_slash d []
  unfold Tree.locate at hl
  rw [if_neg (by simp), hcomp', Nodes.walk_append] at hl
  cases hw : T.walk T.maxLinks (start T.cwd (d ++ ['/'])) (components d) with
  | none => simp [hw] at hl
  | some r =>
    rw [hw, Option.bind_some, Nodes.walk_empty] at hl
    cases hdir : T.isDir r.2 with
    | false => simp [hdir] at hl
    | true =>
      obtain rfl : r.2 = l := by simpa [hdir] using hl
      refine ⟨r.1, ?_⟩
      intro q
      unfold Tree.locate
      rw [if_neg (by simp), hstart, hcomp, Nodes.walk_append, hw, Option.bind_some]

theorem Tree.locate_entry {k : Node δ φ} (hp : p.getLast? = some '/') (hl : T.locate p = some l)
    (hk : T.node (l ++ [c]) = some k) (hlnk : ∀ target, k ≠ .lnk target) :
    T.locate (p ++ c) = if T.searchable l then some (l ++ [c]) else none := by
  obtain ⟨links, hwalk⟩ := Tree.locate_append hp hl
  rw [hwalk, components_name (T.named l c k hk).2.2.2, Nodes.walk_name hk hlnk]
  split_ifs
  · cases links <;> rfl
  · rfl

theorem Tree.locate_subdir {b : Bool} {d : δ} (hp : p.getLast? = some '/') (hl : T.locate p = some l)
    (hk : T.node (l ++ [c]) = some (.dir b d)) :
    T.locate (p ++ c ++ ['/']) = if T.searchable l then some (l ++ [c]) else none := by
  obtain ⟨links, hwalk⟩ := Tree.locate_append hp hl
  have hdir : T.isDir (l ++ [c]) = true := by simp [Nodes.isDir, hk]
  rw [List.append_assoc, hwalk, components_slash c [], components_name (T.named l c _ hk).2.2.2]
  change Option.map _ (T.walk links l (c :: [[]])) = _
  rw [Nodes.walk_name hk (by simp), Nodes.walk_empty, if_pos hdir]
  split_ifs <;> rfl

end SysUtils.Paths

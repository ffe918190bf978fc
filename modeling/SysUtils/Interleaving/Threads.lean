import Mathlib.Logic.Function.Basic
import Mathlib.Logic.Relation
import Mathlib.Tactic.SplitIfs

namespace SysUtils.Interleaving

/-- Threads over one shared state `S`. Thread `i` has local states of type `L i`; the value of type
`χ` settles whatever the thread's next step leaves open. -/
structure Threads (ι S χ : Type) (L : ι → Type) where
  step : (i : ι) → χ → S → L i → Option (S × L i)

structure Config (S : Type) {ι : Type} (L : ι → Type) where
  shared : S
  loc : ∀ i, L i

variable {ι S χ : Type} {L : ι → Type} [DecidableEq ι]

namespace Config

def set (s : Config S L) (i : ι) (r : S × L i) : Config S L :=
  ⟨r.1, Function.update s.loc i r.2⟩

@[simp] theorem set_shared (s : Config S L) (i : ι) (r : S × L i) :
    (s.set i r).shared = r.1 := rfl

@[simp] theorem set_loc_self (s : Config S L) (i : ι) (r : S × L i) :
    (s.set i r).loc i = r.2 := Function.update_self i r.2 s.loc

theorem set_loc_of_ne (s : Config S L) {i j : ι} (h : j ≠ i) (r : S × L i) :
    (s.set i r).loc j = s.loc j := Function.update_of_ne h r.2 s.loc

end Config

namespace Threads

variable (T : Threads ι S χ L)

def next (s : Config S L) (i : ι) (x : χ) : Option (Config S L) :=
  (T.step i x s.shared (s.loc i)).map (s.set i)

/-- The runs all of whose steps meet the condition `ok`, which sees the state before the step. -/
def Steps (ok : Config S L → ι → χ → Prop) : Config S L → Config S L → Prop :=
  Relation.ReflTransGen (fun s t => ∃ i x, ok s i x ∧ T.next s i x = some t)

def anyStep : Config S L → ι → χ → Prop := fun _ _ _ => True

instance (s : Config S L) (i : ι) (x : χ) : Decidable (anyStep s i x) :=
  inferInstanceAs (Decidable True)

variable {T} {ok ok' : Config S L → ι → χ → Prop} {s t u : Config S L}

theorem next_eq_some {i : ι} {x : χ} :
    T.next s i x = some t ↔ ∃ r, T.step i x s.shared (s.loc i) = some r ∧ s.set i r = t := by
  simp [next]

theorem Steps.trans (hst : T.Steps ok s t) (htu : T.Steps ok t u) : T.Steps ok s u :=
  Relation.ReflTransGen.trans hst htu

theorem Steps.mono (hok : ∀ s i x, ok s i x → ok' s i x) (h : T.Steps ok s t) :
    T.Steps ok' s t :=
  Relation.ReflTransGen.mono (fun _ _ ⟨i, x, hx, hn⟩ => ⟨i, x, hok _ _ _ hx, hn⟩) _ _ h

theorem Steps.any (h : T.Steps ok s t) : T.Steps anyStep s t :=
  h.mono fun _ _ _ _ => trivial

theorem Steps.invariant {I : Config S L → Prop} (h : T.Steps ok s t) (hs : I s)
    (hstep : ∀ u i x r, T.Steps ok s u → ok u i x → T.step i x u.shared (u.loc i) = some r →
      I u → I (u.set i r)) : I t := by
  induction h with
  | refl => exact hs
  | tail hsu hut ih =>
    obtain ⟨i, x, hx, hn⟩ := hut
    obtain ⟨r, hr, rfl⟩ := next_eq_some.mp hn
    exact hstep _ i x r hsu hx hr ih

theorem Steps.strengthen (h : T.Steps ok s t)
    (hok : ∀ u i x, T.Steps ok s u → ok u i x → T.Steps ok' s u → ok' u i x) : T.Steps ok' s t := by
  induction h with
  | refl => exact .refl
  | tail hsu hut ih =>
    obtain ⟨i, x, hx, hn⟩ := hut
    exact .tail ih ⟨i, x, hok _ i x hsu hx ih, hn⟩

section Schedules

variable (T) (ok) [∀ s i x, Decidable (ok s i x)]

def run : Config S L → List (ι × χ) → Option (Config S L)
  | s, [] => some s
  | s, (i, x) :: as => if ok s i x then (T.next s i x).bind (fun t => run t as) else none

variable {T} {ok}

theorem steps_of_run {as : List (ι × χ)} (h : T.run ok s as = some t) : T.Steps ok s t := by
  induction as generalizing s with
  | nil =>
    obtain rfl : s = t := by simpa [run] using h
    exact .refl
  | cons a as ih =>
    obtain ⟨i, x⟩ := a
    simp only [run] at h
    split_ifs at h with hx
    obtain ⟨u, hu, hut⟩ := Option.bind_eq_some_iff.mp h
    exact Relation.ReflTransGen.head ⟨i, x, hx, hu⟩ (ih hut)

theorem exists_steps_of_run {as : List (ι × χ)} {p : Config S L → Bool}
    (h : (T.run ok s as).map p = some true) : ∃ t, T.Steps ok s t ∧ p t = true := by
  obtain ⟨t, ht, hp⟩ := Option.map_eq_some_iff.mp h
  exact ⟨t, steps_of_run ht, hp⟩

end Schedules

end Threads

end SysUtils.Interleaving

import Mathlib.Data.Finset.Insert
import Mathlib.Data.Finset.Erase
import Mathlib.Logic.Function.Basic

namespace SysUtils.Holdings

variable {G H : Type}

structure Exact (held : G → Option H) (opened : Finset H) : Prop where
  unique : ∀ g g' h, held g = some h → held g' = some h → g = g'
  open_iff : ∀ h, h ∈ opened ↔ ∃ g, held g = some h

variable {held held' : G → Option H} {opened opened' : Finset H} {g f : G} {h : H}

theorem Exact.empty : Exact (fun _ : G => (none : Option H)) ∅ where
  unique _ _ _ hg := by cases hg
  open_iff := by simp

theorem Exact.of_none (he : Exact held opened) (hnone : ∀ g, held g = none) : opened = ∅ := by
  apply Finset.eq_empty_of_forall_notMem
  intro h hh
  obtain ⟨g, hg⟩ := (he.open_iff h).mp hh
  rw [hnone g] at hg
  cases hg

theorem not_exact_of_lost (hh : h ∈ opened) (hlost : ∀ g, held g ≠ some h) : ¬ Exact held opened :=
  fun he => (he.open_iff h).mp hh |>.elim hlost

variable [DecidableEq G] [DecidableEq H]

theorem Exact.acquire (he : Exact held opened) (hg : held g = none) (hfresh : h ∉ opened) :
    Exact (Function.update held g (some h)) (insert h opened) := by
  have hnew (j : G) : held j ≠ some h := fun hj => hfresh ((he.open_iff h).mpr ⟨j, hj⟩)
  constructor
  · intro i j k hi hj
    by_cases hig : i = g <;> by_cases hjg : j = g
    · rw [hig, hjg]
    · subst hig
      rw [Function.update_self] at hi
      rw [Function.update_of_ne hjg, ← hi] at hj
      exact absurd hj (hnew j)
    · subst hjg
      rw [Function.update_self] at hj
      rw [Function.update_of_ne hig, ← hj] at hi
      exact absurd hi (hnew i)
    · rw [Function.update_of_ne hig] at hi
      rw [Function.update_of_ne hjg] at hj
      exact he.unique i j k hi hj
  · intro k
    rw [Finset.mem_insert, he.open_iff]
    constructor
    · rintro (rfl | ⟨j, hj⟩)
      · exact ⟨g, Function.update_self ..⟩
      · have hjg : j ≠ g := by
          rintro rfl
          rw [hg] at hj
          cases hj
        exact ⟨j, by rw [Function.update_of_ne hjg, hj]⟩
    · rintro ⟨j, hj⟩
      by_cases hjg : j = g
      · subst hjg
        rw [Function.update_self] at hj
        exact .inl (Option.some.inj hj).symm
      · rw [Function.update_of_ne hjg] at hj
        exact .inr ⟨j, hj⟩

theorem Exact.release (he : Exact held opened) (hg : held g = some h) :
    Exact (Function.update held g none) (opened.erase h) := by
  have hstay {j : G} {k : H} (hj : Function.update held g none j = some k) : j ≠ g ∧ held j = some k := by
    by_cases hjg : j = g
    · subst hjg
      rw [Function.update_self] at hj
      cases hj
    · rw [Function.update_of_ne hjg] at hj
      exact ⟨hjg, hj⟩
  constructor
  · intro i j k hi hj
    exact he.unique i j k (hstay hi).2 (hstay hj).2
  · intro k
    rw [Finset.mem_erase, he.open_iff]
    constructor
    · rintro ⟨hne, j, hj⟩
      have hjg : j ≠ g := by
        rintro rfl
        rw [hg] at hj
        exact hne (Option.some.inj hj).symm
      exact ⟨j, by rw [Function.update_of_ne hjg, hj]⟩
    · rintro ⟨j, hj⟩
      obtain ⟨hjg, hj⟩ := hstay hj
      refine ⟨?_, j, hj⟩
      rintro rfl
      exact hjg (he.unique j g k hj hg)

omit [DecidableEq H] in
theorem Exact.lost_of_update (he : Exact held opened) (hg : held g = some h) {v : Option H}
    (hv : v ≠ some h) (j : G) : Function.update held g v j ≠ some h := by
  intro hj
  by_cases hjg : j = g
  · subst hjg
    rw [Function.update_self] at hj
    exact hv hj
  · rw [Function.update_of_ne hjg] at hj
    exact hjg (he.unique j g h hj hg)

omit [DecidableEq H] in
theorem Exact.lost_of_transfer (he : Exact held opened) (hg : held g = some h) (j : G) :
    Function.update (Function.update held g (held f)) f none j ≠ some h := by
  intro hj
  by_cases hjf : j = f
  · subst hjf
    rw [Function.update_self] at hj
    cases hj
  · rw [Function.update_of_ne hjf] at hj
    by_cases hfg : f = g
    · subst hfg
      rw [Function.update_eq_self] at hj
      exact hjf (he.unique j f h hj hg)
    · exact he.lost_of_update hg (fun hf => hfg (he.unique f g h hf hg)) j hj

omit [DecidableEq H] in
theorem Exact.transfer (he : Exact held opened) (hg : held g = none) :
    Exact (Function.update (Function.update held g (held f)) f none) opened := by
  by_cases hgf : g = f
  · subst hgf
    rwa [hg, Function.update_idem, ← hg, Function.update_eq_self]
  have hval (j : G) : Function.update (Function.update held g (held f)) f none j =
      if j = f then none else if j = g then held f else held j := by
    simp only [Function.update_apply]
  have hback {j : G} {k : H} (hj : Function.update (Function.update held g (held f)) f none j = some k) :
      (j = g ∧ held f = some k) ∨ (j ≠ g ∧ j ≠ f ∧ held j = some k) := by
    rw [hval] at hj
    split_ifs at hj with hjf hjg
    · exact .inl ⟨hjg, hj⟩
    · exact .inr ⟨hjg, hjf, hj⟩
  constructor
  · intro i j k hi hj
    rcases hback hi with ⟨hig, hi'⟩ | ⟨_, hif, hi'⟩ <;> rcases hback hj with ⟨hjg, hj'⟩ | ⟨_, hjf, hj'⟩
    · rw [hig, hjg]
    · exact absurd (he.unique j f k hj' hi') hjf
    · exact absurd (he.unique i f k hi' hj') hif
    · exact he.unique i j k hi' hj'
  · intro k
    rw [he.open_iff]
    constructor
    · rintro ⟨j, hj⟩
      by_cases hjf : j = f
      · subst hjf
        exact ⟨g, by rw [hval, if_neg hgf, if_pos rfl, hj]⟩
      · have hjg : j ≠ g := by
          rintro rfl
          rw [hg] at hj
          cases hj
        exact ⟨j, by rw [hval, if_neg hjf, if_neg hjg, hj]⟩
    · rintro ⟨j, hj⟩
      rcases hback hj with ⟨_, hj⟩ | ⟨_, _, hj⟩
      · exact ⟨f, hj⟩
      · exact ⟨j, hj⟩

section

variable {S O : Type} (step : S → O → Option S)

/-- `Good` holds after each operation of a run, which ends in front of an operation that is not possible. -/
def Always (Good : S → Prop) : S → List O → Prop
  | _, [] => True
  | s, op :: ops => ∀ t ∈ step s op, Good t ∧ Always Good t ops

def Somewhere (bad : S → O → Bool) : S → List O → Bool
  | _, [] => false
  | s, op :: ops => (step s op).elim false fun t => bad s op || Somewhere bad t ops

variable {step} {Good : S → Prop} {bad : S → O → Bool}

theorem always_iff (hstep : ∀ s op t, Good s → step s op = some t → (Good t ↔ bad s op = false)) {s : S}
    (hs : Good s) (ops : List O) : Always step Good s ops ↔ Somewhere step bad s ops = false := by
  induction ops generalizing s with
  | nil => simp [Always, Somewhere]
  | cons op ops ih =>
    cases ht : step s op with
    | none => simp [Always, Somewhere, ht]
    | some t =>
      have hgood := hstep s op t hs ht
      cases hbad : bad s op with
      | true => simp [Always, Somewhere, ht, hbad, hgood]
      | false =>
        have hgt : Good t := hgood.mpr hbad
        simp [Always, Somewhere, ht, hbad, hgt, ih hgt]

end

end SysUtils.Holdings

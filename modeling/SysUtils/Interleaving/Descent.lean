import Mathlib.Data.Nat.Notation
import SysUtils.Interleaving.Threads

namespace SysUtils.Interleaving.Threads

variable {ι S χ : Type} {L : ι → Type} [DecidableEq ι] {T : Threads ι S χ L}
variable {ok : Config S L → ι → χ → Prop} {s t : Config S L}

theorem Steps.step {i : ι} {x : χ} {r : S × L i} (h : T.Steps ok s t) (hx : ok t i x)
    (hr : T.step i x t.shared (t.loc i) = some r) : T.Steps ok s (t.set i r) :=
  Relation.ReflTransGen.tail h ⟨i, x, hx, next_eq_some.mpr ⟨r, hr, rfl⟩⟩

def Lowers (T : Threads ι S χ L) (ok : Config S L → ι → χ → Prop) (f : Config S L → ℕ)
    (s : Config S L) : Prop := ∃ t, T.Steps ok s t ∧ f t < f s

variable {f : Config S L → ℕ}

theorem Lowers.step {i : ι} {x : χ} {r : S × L i} (hx : ok s i x)
    (hr : T.step i x s.shared (s.loc i) = some r) (hlt : f (s.set i r) < f s) : T.Lowers ok f s :=
  ⟨s.set i r, Steps.step .refl hx hr, hlt⟩

theorem Lowers.after (hst : T.Steps ok s t) (hle : f t ≤ f s) (h : T.Lowers ok f t) :
    T.Lowers ok f s := by
  obtain ⟨u, htu, hlt⟩ := h
  exact ⟨u, hst.trans htu, Nat.lt_of_lt_of_le hlt hle⟩

theorem Steps.exists_goal (goal : Config S L → Prop)
    (h : ∀ t, T.Steps ok s t → ¬ goal t → T.Lowers ok f t) : ∃ t, T.Steps ok s t ∧ goal t := by
  induction hk : f s using Nat.strongRecOn generalizing s with
  | ind k ih =>
    by_cases hg : goal s
    · exact ⟨s, .refl, hg⟩
    · obtain ⟨u, hsu, hlt⟩ := h s .refl hg
      obtain ⟨t, hut, ht⟩ := ih (f u) (hk ▸ hlt) (fun t hut => h t (hsu.trans hut)) rfl
      exact ⟨t, hsu.trans hut, ht⟩

end SysUtils.Interleaving.Threads

import Mathlib.Data.Nat.Notation
import SysUtils.Interleaving.Threads

namespace SysUtils.Interleaving

variable {ι S χ : Type} {L : ι → Type}

/-- What a step of thread `i` may do to a mutex: leave it and its own claim alone, take it while it
is free, or give it back. `o` is the recorded owner, `h` whether the thread's position holds it. -/
def LockStep (i : ι) (o o' : Option ι) (h h' : Bool) : Prop :=
  (o' = o ∧ h' = h) ∨ (o = none ∧ o' = some i ∧ h = false ∧ h' = true) ∨
    (o' = none ∧ h = true ∧ h' = false)

theorem LockStep.same {i : ι} {o o' : Option ι} {h h' : Bool} (ho : o' = o) (hh : h' = h) :
    LockStep i o o' h h' := .inl ⟨ho, hh⟩

theorem LockStep.map {κ : Type} (f : ι → κ) {i : ι} {o o' : Option ι} {h h' : Bool}
    (hs : LockStep i o o' h h') : LockStep (f i) (o.map f) (o'.map f) h h' := by
  rcases hs with ⟨rfl, rfl⟩ | ⟨rfl, rfl, rfl, rfl⟩ | ⟨rfl, rfl, rfl⟩
  · exact .same rfl rfl
  · exact .inr (.inl ⟨rfl, rfl, rfl, rfl⟩)
  · exact .inr (.inr ⟨rfl, rfl, rfl⟩)

theorem LockStep.own {i : ι} {o o' : Option ι} {h h' : Bool} (hs : LockStep i o o' h h')
    (ho : o = some i ↔ h = true) : o' = some i ↔ h' = true := by
  rcases hs with ⟨rfl, rfl⟩ | ⟨_, rfl, _, rfl⟩ | ⟨rfl, _, rfl⟩
  · exact ho
  · simp
  · simp

theorem LockStep.other {i j : ι} {o o' : Option ι} {h h' k : Bool} (hs : LockStep i o o' h h')
    (hi : o = some i ↔ h = true) (hj : o = some j ↔ k = true) (hij : j ≠ i) :
    o' = some j ↔ k = true := by
  rcases hs with ⟨rfl, rfl⟩ | ⟨rfl, rfl, rfl, _⟩ | ⟨rfl, rfl, _⟩
  · exact hj
  · simpa [hij.symm] using hj
  · have ho : o = some i := hi.mpr rfl
    simpa [ho, hij.symm] using hj

def LockInv (owner : S → Option ι) (holds : ∀ i, L i → Bool) (s : Config S L) : Prop :=
  ∀ i, owner s.shared = some i ↔ holds i (s.loc i) = true

variable {owner : S → Option ι} {holds : ∀ i, L i → Bool} {s : Config S L}

theorem LockInv.unique (h : LockInv owner holds s) {i j : ι} (hi : holds i (s.loc i) = true)
    (hj : holds j (s.loc j) = true) : i = j := by
  have he := ((h i).mpr hi).symm.trans ((h j).mpr hj)
  simpa using he

def carried (owner : S → Option ι) (f : ∀ i, L i → ℕ) (s : Config S L) : ℕ :=
  (owner s.shared).elim 0 fun i => f i (s.loc i)

variable {f : ∀ i, L i → ℕ}

theorem carried_free (hf : owner s.shared = none) : carried owner f s = 0 := by
  simp [carried, hf]

theorem carried_holder (h : LockInv owner holds s) {i : ι} (hi : holds i (s.loc i) = true) :
    carried owner f s = f i (s.loc i) := by
  simp [carried, (h i).mpr hi]

variable [DecidableEq ι]

theorem LockInv.set (h : LockInv owner holds s) {i : ι} {r : S × L i}
    (hs : LockStep i (owner s.shared) (owner r.1) (holds i (s.loc i)) (holds i r.2)) :
    LockInv owner holds (s.set i r) := by
  intro j
  by_cases hj : j = i
  · subst hj
    simpa using hs.own (h j)
  · simpa [Config.set_loc_of_ne _ hj] using hs.other (h i) (h j) hj

theorem Threads.Steps.lockInv {T : Threads ι S χ L} {ok : Config S L → ι → χ → Prop}
    {t : Config S L} (h : T.Steps ok s t) (h0 : LockInv owner holds s)
    (hstep : ∀ i x u l r, T.step i x u l = some r →
      LockStep i (owner u) (owner r.1) (holds i l) (holds i r.2)) :
    LockInv owner holds t :=
  h.invariant h0 fun _ i x _ _ _ hr hI => hI.set (hstep i x _ _ _ hr)

theorem carried_set (h : LockInv owner holds s) {i : ι} {r : S × L i}
    (hs : LockStep i (owner s.shared) (owner r.1) (holds i (s.loc i)) (holds i r.2))
    (hf : ∀ l : L i, holds i l = false → f i l = 0) :
    carried owner f (s.set i r) + f i (s.loc i) = carried owner f s + f i r.2 := by
  cases hh : holds i (s.loc i) with
  | true =>
    have hb : carried owner f s = f i (s.loc i) := carried_holder h hh
    cases hh' : holds i r.2 with
    | true =>
      have ha : carried owner f (s.set i r) = f i r.2 := by
        simpa using carried_holder (h.set hs) (i := i) (by simpa using hh')
      omega
    | false =>
      have ho : owner r.1 = none := by
        rcases hs with ⟨_, he⟩ | ⟨_, _, he, _⟩ | ⟨ho, _, _⟩
        · simp [hh, hh'] at he
        · simp [hh] at he
        · exact ho
      have ha : carried owner f (s.set i r) = 0 := carried_free (by simpa using ho)
      have := hf r.2 hh'
      omega
  | false =>
    have hz : f i (s.loc i) = 0 := hf _ hh
    rcases hs with ⟨ho, he⟩ | ⟨hn, ho, _, he⟩ | ⟨_, he, _⟩
    · have hz' : f i r.2 = 0 := hf _ (by rw [he, hh])
      have hne : owner s.shared ≠ some i := by simp [h i, hh]
      have : carried owner f (s.set i r) = carried owner f s := by
        unfold carried
        simp only [Config.set_shared, ho]
        cases hc : owner s.shared with
        | none => rfl
        | some j =>
          have hj : j ≠ i := fun hji => hne (by rw [hc, hji])
          simp [Config.set_loc_of_ne _ hj]
      omega
    · have hb : carried owner f s = 0 := carried_free hn
      have ha : carried owner f (s.set i r) = f i r.2 := by
        simp [carried, ho]
      omega
    · simp [hh] at he

end SysUtils.Interleaving

import Mathlib.Data.Multiset.Bind

namespace SysUtils.Worklist

variable {α : Type}

inductive Reached (roots : Multiset α) (children : α → Multiset α) (keep : α → Prop) : α → Prop where
  | root {a : α} (ha : a ∈ roots) (hk : keep a) : Reached roots children keep a
  | child {a b : α} (ha : Reached roots children keep a) (hb : b ∈ children a) (hk : keep b) :
      Reached roots children keep b

/-- A traversal that has worked off its list: what was taken from it is `done` or turned away, and what
was put on it are the roots and the children of what is done. -/
structure Finished (roots : Multiset α) (children : α → Multiset α) (keep : α → Prop)
    (done skipped : Multiset α) : Prop where
  balance : done + skipped = roots + done.bind children
  kept : ∀ a ∈ done, keep a
  turned : ∀ a ∈ skipped, ¬ keep a

variable {roots : Multiset α} {children : α → Multiset α} {keep : α → Prop} {done skipped : Multiset α}
variable {rank : α → ℕ}

theorem Finished.mem_of_mem (h : Finished roots children keep done skipped) {a : α} (ha : keep a)
    (hput : a ∈ roots ∨ ∃ b ∈ done, a ∈ children b) : a ∈ done := by
  have hmem : a ∈ done + skipped := by
    rw [h.balance, Multiset.mem_add, Multiset.mem_bind]
    exact hput
  rcases Multiset.mem_add.mp hmem with hdone | hskip
  · exact hdone
  · exact absurd ha (h.turned a hskip)

structure Partial (roots : Multiset α) (children : α → Multiset α) (keep : α → Prop)
    (done : Multiset α) : Prop where
  covered : done ≤ roots + done.bind children
  kept : ∀ a ∈ done, keep a

theorem Finished.toPartial (h : Finished roots children keep done skipped) :
    Partial roots children keep done :=
  ⟨h.balance ▸ Multiset.le_add_right done skipped, h.kept⟩

theorem Partial.reached (h : Partial roots children keep done)
    (hrank : ∀ a b, b ∈ children a → rank a < rank b) {a : α} (ha : a ∈ done) :
    Reached roots children keep a := by
  induction hn : rank a using Nat.strong_induction_on generalizing a with
  | _ k ih =>
    rcases Multiset.mem_add.mp (Multiset.mem_of_le h.covered ha) with hroot | hput
    · exact .root hroot (h.kept a ha)
    · obtain ⟨b, hb, hab⟩ := Multiset.mem_bind.mp hput
      have hlt := hrank b a hab
      exact .child (ih (rank b) (by omega) hb rfl) hab (h.kept a ha)

theorem Finished.mem_iff (h : Finished roots children keep done skipped)
    (hrank : ∀ a b, b ∈ children a → rank a < rank b) {a : α} :
    a ∈ done ↔ Reached roots children keep a := by
  constructor
  · exact h.toPartial.reached hrank
  · intro ha
    induction ha with
    | root hr hk => exact h.mem_of_mem hk (.inl hr)
    | child _ hb hk ih => exact h.mem_of_mem hk (.inr ⟨_, ih, hb⟩)

theorem count_bind_le_one [DecidableEq α] {a p : α} (hp : done.count p ≤ 1)
    (hnodup : (children p).Nodup) (hother : ∀ b ∈ done, b ≠ p → a ∉ children b) :
    (done.bind children).count a ≤ 1 := by
  have hsplit : done = Multiset.replicate (done.count p) p + done.filter (fun b => ¬ b = p) := by
    rw [← Multiset.filter_eq' done p, Multiset.filter_add_not]
  have hzero : ((done.filter fun b => ¬ b = p).bind children).count a = 0 := by
    rw [Multiset.count_eq_zero, Multiset.mem_bind]
    rintro ⟨b, hb, hab⟩
    obtain ⟨hb, hne⟩ := Multiset.mem_filter.mp hb
    exact hother b hb hne hab
  have hone := Multiset.nodup_iff_count_le_one.mp hnodup a
  rw [hsplit, Multiset.add_bind, Multiset.count_add, hzero]
  rcases Nat.le_one_iff_eq_zero_or_eq_one.mp hp with h0 | h1
  · simp [h0]
  · simpa [h1] using hone

theorem Partial.nodup (h : Partial roots children keep done)
    (hrank : ∀ a b, b ∈ children a → rank a < rank b) (hroots : roots.Nodup)
    (hchildren : ∀ a, Reached roots children keep a → (children a).Nodup)
    (hparent : ∀ a b c, Reached roots children keep a → Reached roots children keep b →
      c ∈ children a → c ∈ children b → a = b)
    (hroot : ∀ a c, Reached roots children keep a → c ∈ children a → c ∉ roots) : done.Nodup := by
  classical
  rw [Multiset.nodup_iff_count_le_one]
  intro a
  induction hn : rank a using Nat.strong_induction_on generalizing a with
  | _ k ih =>
    have hle : done.count a ≤ roots.count a + (done.bind children).count a := by
      rw [← Multiset.count_add]
      exact Multiset.count_le_of_le a h.covered
    have hrone := Multiset.nodup_iff_count_le_one.mp hroots a
    by_cases hput : ∃ p ∈ done, a ∈ children p
    · obtain ⟨p, hp, hap⟩ := hput
      have hpr := h.reached hrank hp
      have hzero : roots.count a = 0 := Multiset.count_eq_zero.mpr (hroot p a hpr hap)
      have hbind : (done.bind children).count a ≤ 1 := by
        refine count_bind_le_one (ih (rank p) ?_ p rfl) (hchildren p hpr) ?_
        · have := hrank p a hap
          omega
        · intro b hb hne hab
          exact hne (hparent b p a (h.reached hrank hb) hpr hab hap)
      omega
    · have hzero : (done.bind children).count a = 0 := by
        rw [Multiset.count_eq_zero, Multiset.mem_bind]
        exact hput
      omega

theorem nodup_bind {β : Type} {f : α → Multiset β} (hdone : done.Nodup)
    (hf : ∀ a ∈ done, (f a).Nodup)
    (hparent : ∀ a ∈ done, ∀ b ∈ done, ∀ c, c ∈ f a → c ∈ f b → a = b) : (done.bind f).Nodup := by
  refine Multiset.nodup_bind.mpr ⟨hf, Multiset.Nodup.pairwise ?_ hdone⟩
  intro a ha b hb hne
  apply Multiset.disjoint_left.mpr
  intro c hca hcb
  exact hne (hparent a ha b hb c hca hcb)

end SysUtils.Worklist

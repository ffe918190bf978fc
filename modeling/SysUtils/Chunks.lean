import Mathlib.Algebra.BigOperators.Group.List.Basic
import Mathlib.Algebra.Ring.Nat

namespace SysUtils.Chunks

variable {α : Type} {table items as : List α} {size : α → ℕ} {room k next remaining : ℕ}

def total (size : α → ℕ) (as : List α) : ℕ := (as.map size).sum

/-- One piece of a table, read from index `k` on into `room` bytes: the entries, the index to go on from, and
the bytes that the rest needs. Where the whole rest fits, some of it is read. -/
structure Chunk (table : List α) (size : α → ℕ) (room k : ℕ) (items : List α) (next remaining : ℕ) :
    Prop where
  run : items <+: table.drop k
  next_eq : next = k + items.length
  remaining_eq : remaining = total size (table.drop next)
  exhausted : remaining = 0 ↔ table.length ≤ next
  progress : items = [] → total size (table.drop k) ≤ room → table.length ≤ k

theorem Chunk.drop_eq (h : Chunk table size room k items next remaining) :
    table.drop k = items ++ table.drop next := by
  obtain ⟨rest, hrest⟩ := h.run
  rw [h.next_eq, ← List.drop_drop, ← hrest, List.drop_left]

theorem Chunk.last (h : Chunk table size room k items next remaining) (hzero : remaining = 0) :
    table.drop k = items := by
  rw [h.drop_eq, List.drop_of_length_le (h.exhausted.mp hzero), List.append_nil]

def measure (table : List α) (size : α → ℕ) (room k : ℕ) : ℕ :=
  2 * (table.length - k) + if total size (table.drop k) ≤ room then 0 else 1

theorem Chunk.measure_lt (h : Chunk table size room k items next remaining) (hmore : remaining ≠ 0)
    {room' : ℕ} (hroom : remaining ≤ room') :
    measure table size room' next < measure table size room k := by
  have hleft : next < table.length := Nat.lt_of_not_le (mt h.exhausted.mpr hmore)
  have hnext := h.next_eq
  unfold measure
  rw [if_pos (h.remaining_eq ▸ hroom)]
  rcases Nat.eq_zero_or_pos items.length with hnil | hpos
  · have hsmall : ¬ total size (table.drop k) ≤ room := by
      intro hle
      have hend := h.progress (List.length_eq_zero_iff.mp hnil) hle
      omega
    rw [if_neg hsmall]
    omega
  · omega

def longest (size : α → ℕ) : ℕ → List α → List α
  | _, [] => []
  | room, a :: as => if size a ≤ room then a :: longest size (room - size a) as else []

theorem longest_prefix (size : α → ℕ) (room : ℕ) (as : List α) : longest size room as <+: as := by
  induction as generalizing room with
  | nil => exact List.prefix_refl _
  | cons a as ih =>
    unfold longest
    split_ifs
    · exact List.cons_prefix_cons.mpr ⟨rfl, ih _⟩
    · exact List.nil_prefix

theorem total_drop_longest (size : α → ℕ) (room : ℕ) (as : List α) :
    total size (as.drop (longest size room as).length) = 0 ↔ as.length ≤ (longest size room as).length := by
  induction as generalizing room with
  | nil => simp [total]
  | cons a as ih =>
    unfold longest
    split_ifs with hfits
    · simpa using ih (room - size a)
    · simp only [total, List.length_nil, List.drop_zero, List.map_cons, List.sum_cons, List.length_cons]
      omega

theorem chunk_longest (table : List α) (size : α → ℕ) (room k : ℕ) :
    Chunk table size room k (longest size room (table.drop k))
      (k + (longest size room (table.drop k)).length)
      (total size (table.drop (k + (longest size room (table.drop k)).length))) where
  run := longest_prefix size room _
  next_eq := rfl
  remaining_eq := rfl
  exhausted := by
    rw [← List.drop_drop, total_drop_longest, List.length_drop]
    omega
  progress hnil hroom := by
    cases hrest : table.drop k with
    | nil => exact List.drop_eq_nil_iff.mp hrest
    | cons a as =>
      rw [hrest] at hnil hroom
      simp only [total, List.map_cons, List.sum_cons] at hroom
      simp only [longest, if_pos (show size a ≤ room by omega)] at hnil
      cases hnil

end SysUtils.Chunks

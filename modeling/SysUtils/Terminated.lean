import Mathlib.Data.List.Infix

namespace SysUtils.Terminated

variable {α : Type} {z : α} {w xs : List α} {ws : List (List α)}

def encode (z : α) (ws : List (List α)) : List α := (ws.flatMap fun w => w ++ [z]) ++ [z]

def Closed (z : α) (xs : List α) : Prop := xs = [z] ∨ [z, z] <:+ xs

theorem Closed.mem (h : Closed z xs) : z ∈ xs := by
  rcases h with rfl | h
  · exact .head _
  · exact h.subset (.head _)

theorem Closed.behind (h : Closed z (w ++ z :: xs)) (hw : z ∉ w) (hne : w ≠ []) : Closed z xs := by
  rcases h with h | h
  · obtain ⟨hnil, _⟩ | ⟨_, hnil⟩ := List.append_eq_singleton_iff.mp h
    · exact absurd hnil hne
    · cases hnil
  · have htail : xs <:+ w ++ z :: xs := ⟨w ++ [z], by simp⟩
    rcases List.suffix_or_suffix_of_suffix h htail with hsub | hsub
    · exact .inr hsub
    · rcases List.suffix_cons_iff.mp hsub with rfl | hsub
      · exact .inr (List.suffix_refl _)
      · rcases List.suffix_cons_iff.mp hsub with rfl | hsub
        · exact .inl rfl
        · -- the string would end with a terminator
          obtain rfl := List.suffix_nil.mp hsub
          obtain ⟨ys, hys⟩ := h
          have hend : ys ++ [z] ++ [z] = w ++ [z] := by simpa using hys
          rw [← List.append_cancel_right hend] at hw
          simp at hw

theorem closed_encode : Closed z (encode z ws) := by
  rcases List.eq_nil_or_concat ws with rfl | ⟨ws, w, rfl⟩
  · exact .inl rfl
  · exact .inr ⟨(ws.flatMap fun w => w ++ [z]) ++ w, by simp [encode]⟩

variable [DecidableEq α]

def decode (z : α) (xs : List α) : List (List α) := (xs.splitOn z).takeWhile fun w => w ≠ []

theorem splitOn_terminated (hw : z ∉ w) : (w ++ z :: xs).splitOn z = w :: xs.splitOn z := by
  simp only [List.splitOn_eq_splitOnP]
  apply List.splitOnP_append_cons_of_forall_mem
  · intro x hx
    simpa using ne_of_mem_of_not_mem hx hw
  · simp

theorem decode_terminated (hw : z ∉ w) (hne : w ≠ []) : decode z (w ++ z :: xs) = w :: decode z xs := by
  unfold decode
  rw [splitOn_terminated hw, List.takeWhile_cons_of_pos (by simpa using hne)]

theorem decode_empty : decode z (z :: xs) = [] := by
  unfold decode
  rw [← List.nil_append (z :: xs), splitOn_terminated List.not_mem_nil]
  rfl

theorem decode_encode (xs : List α) (hws : ∀ w ∈ ws, w ≠ [] ∧ z ∉ w) :
    decode z (encode z ws ++ xs) = ws := by
  induction ws with
  | nil => exact decode_empty
  | cons w ws ih =>
    obtain ⟨hne, hw⟩ := hws w (by simp)
    have hcons : encode z (w :: ws) ++ xs = w ++ z :: (encode z ws ++ xs) := by simp [encode]
    rw [hcons, decode_terminated hw hne, ih fun w hw => hws w (by simp [hw])]

end SysUtils.Terminated

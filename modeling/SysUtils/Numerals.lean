import Mathlib.Tactic.IntervalCases

namespace SysUtils.Numerals

variable {b d : ℕ} {c : Char} {cs ds : List Char}

def digitVal (c : Char) : ℕ :=
  if 48 ≤ c.toNat ∧ c.toNat ≤ 57 then c.toNat - 48
  else if 97 ≤ c.toNat ∧ c.toNat ≤ 122 then c.toNat - 87
  else if 65 ≤ c.toNat ∧ c.toNat ≤ 90 then c.toNat - 55
  else 36

def isDigit (b : ℕ) (c : Char) : Bool := digitVal c < b

def value (b : ℕ) (cs : List Char) : ℕ := cs.foldl (fun v c => v * b + digitVal c) 0

theorem value_concat (b : ℕ) (cs : List Char) (c : Char) :
    value b (cs ++ [c]) = value b cs * b + digitVal c := by
  unfold value
  rw [List.foldl_append]
  rfl

theorem value_zeros (b k : ℕ) (cs : List Char) : value b (List.replicate k '0' ++ cs) = value b cs := by
  induction k with
  | zero => rfl
  | succ k ih =>
    rw [← ih]
    simp [value, List.replicate_succ, digitVal]

theorem digitVal_digitChar (hd : d < 16) : digitVal d.digitChar = d := by
  interval_cases d <;> rfl

theorem value_toDigits (hb : 1 < b) (hb' : b ≤ 16) (n : ℕ) : value b (Nat.toDigits b n) = n := by
  induction n using Nat.strongRecOn with
  | ind n ih =>
    by_cases hn : n < b
    · rw [Nat.toDigits_of_lt_base hn]
      simpa [value] using digitVal_digitChar (hn.trans_le hb')
    · rw [Nat.toDigits_of_base_le hb (Nat.le_of_not_lt hn), value_concat,
        ih _ (Nat.div_lt_self (by omega) hb),
        digitVal_digitChar ((Nat.mod_lt n (by omega)).trans_le hb')]
      exact Nat.div_add_mod' n b

theorem isDigit_of_mem_toDigits (hb : 1 < b) (hb' : b ≤ 16) (n : ℕ) (hc : c ∈ Nat.toDigits b n) :
    isDigit b c = true := by
  induction n using Nat.strongRecOn generalizing c with
  | ind n ih =>
    have hdigit {d : ℕ} (hd : d < b) : isDigit b d.digitChar = true := by
      unfold isDigit
      rw [digitVal_digitChar (hd.trans_le hb')]
      exact decide_eq_true hd
    by_cases hn : n < b
    · rw [Nat.toDigits_of_lt_base hn, List.mem_singleton] at hc
      rw [hc]
      exact hdigit hn
    · rw [Nat.toDigits_of_base_le hb (Nat.le_of_not_lt hn), List.mem_append, List.mem_singleton] at hc
      rcases hc with hc | rfl
      · exact ih _ (Nat.div_lt_self (by omega) hb) hc
      · exact hdigit (Nat.mod_lt n (by omega))

theorem isDigit_zero (hb : 0 < b) : isDigit b '0' = true := decide_eq_true hb

end SysUtils.Numerals

import SysUtils.Streams

namespace SysUtils.Formatting

open Numerals Streams

structure OStream where
  text : List Char
  width : ℕ
  fill : Char
  flag : Basefield

namespace OStream

def fresh : OStream := ⟨[], 0, ' ', .dec⟩

def setw (n : ℕ) (os : OStream) : OStream := { os with width := n }

def setfill (c : Char) (os : OStream) : OStream := { os with fill := c }

def hex (os : OStream) : OStream := { os with flag := .hex }

def write (os : OStream) (s : List Char) : OStream :=
  { os with text := os.text ++ (List.replicate (os.width - s.length) os.fill ++ s), width := 0 }

def putInt (T : IntType) (n : ℤ) (os : OStream) : OStream := os.write (put T os.flag n)

def putChar (c : Char) (os : OStream) : OStream := os.write [c]

end OStream

def getWord (s old : List Char) : List Char :=
  match s.dropWhile isSpace with
  | [] => old
  | c :: field => (c :: field).takeWhile fun ch => !isSpace ch

variable {s : List Char}

theorem getWord_of_noSpace (hs : ∀ c ∈ s, isSpace c = false) : getWord s [] = s := by
  cases s with
  | nil => rfl
  | cons c s =>
    have hdrop : (c :: s).dropWhile isSpace = c :: s := List.dropWhile_cons_of_neg (by simp [hs])
    unfold getWord
    rw [hdrop]
    apply List.takeWhile_eq_self_iff.mpr
    intro ch hch
    rw [hs ch hch]
    rfl

def twoDigits (b : ℕ) : List Char := [(b / 16).digitChar, (b % 16).digitChar]

theorem padded_twoDigits {b : ℕ} (hb : b < 256) :
    List.replicate (2 - (Nat.toDigits 16 b).length) '0' ++ Nat.toDigits 16 b = twoDigits b := by
  unfold twoDigits
  by_cases hsmall : b < 16
  · rw [Nat.toDigits_of_lt_base hsmall, Nat.div_eq_of_lt hsmall, Nat.mod_eq_of_lt hsmall]
    rfl
  · rw [Nat.toDigits_of_base_le (by decide) (Nat.le_of_not_lt hsmall), Nat.toDigits_of_lt_base (by omega)]
    rfl

theorem isDigit_of_mem_twoDigits {b : ℕ} (hb : b < 256) {c : Char} (hc : c ∈ twoDigits b) :
    isDigit 16 c = true := by
  have hdigit {d : ℕ} (hd : d < 16) : isDigit 16 d.digitChar = true := by
    unfold isDigit
    rw [digitVal_digitChar hd]
    exact decide_eq_true hd
  rcases List.mem_cons.mp hc with rfl | hc
  · exact hdigit (by omega)
  · rw [List.mem_singleton.mp hc]
    exact hdigit (by omega)

theorem value_twoDigits {b : ℕ} (hb : b < 256) : value 16 (twoDigits b) = b := by
  have hhigh : digitVal (b / 16).digitChar = b / 16 := digitVal_digitChar (by omega)
  have hlow : digitVal (b % 16).digitChar = b % 16 := digitVal_digitChar (by omega)
  simp only [value, twoDigits, List.foldl_cons, List.foldl_nil, hhigh, hlow]
  omega

end SysUtils.Formatting

import Mathlib.Algebra.Order.Ring.Int
import Mathlib.Data.List.TakeWhile
import SysUtils.Numerals

namespace SysUtils.Streams

open Numerals

variable {base v : ℕ} {s ws sign pre ds tail : List Char} {negative : Bool}

def signedValue (negative : Bool) (v : ℕ) : ℤ := if negative then -v else v

structure IntType where
  isSigned : Bool
  bits : ℕ
  bits_ge : 16 ≤ bits

namespace IntType

def max (T : IntType) : ℤ := if T.isSigned then 2 ^ (T.bits - 1) - 1 else 2 ^ T.bits - 1

def min (T : IntType) : ℤ := if T.isSigned then - 2 ^ (T.bits - 1) else 0

def Holds (T : IntType) (n : ℤ) : Prop := T.min ≤ n ∧ n ≤ T.max

/-- What is stored for the numeral of `v`: one that is out of range is clamped, and the negative of one that an
unsigned type holds wraps around. -/
def stored (T : IntType) (negative : Bool) (v : ℕ) : ℤ :=
  if T.isSigned then
    if negative then Max.max T.min (-v) else Min.min T.max v
  else if T.max < v then T.max
  else if negative then (-v) % 2 ^ T.bits
  else v

end IntType

inductive Basefield where
  | oct | dec | hex | none
  deriving DecidableEq, Repr

def setbase (base : ℕ) : Basefield :=
  if base = 8 then .oct else if base = 10 then .dec else if base = 16 then .hex else .none

/-- `operator<<`: other than in decimal the bits are written as an unsigned number. -/
def put (T : IntType) (flag : Basefield) (n : ℤ) : List Char :=
  match flag with
  | .oct => Nat.toDigits 8 (n % 2 ^ T.bits).toNat
  | .hex => Nat.toDigits 16 (n % 2 ^ T.bits).toNat
  | .dec | .none => if n < 0 then '-' :: Nat.toDigits 10 n.natAbs else Nat.toDigits 10 n.natAbs

def isSpace (c : Char) : Bool := c.toNat = 32 ∨ 9 ≤ c.toNat ∧ c.toNat ≤ 13

def splitSign : List Char → Bool × List Char
  | '+' :: rest => (false, rest)
  | '-' :: rest => (true, rest)
  | rest => (false, rest)

def hexPrefix : List Char → Option (List Char)
  | '0' :: 'x' :: rest | '0' :: 'X' :: rest => some rest
  | _ => .none

def splitRadix (flag : Basefield) (s : List Char) : ℕ × List Char :=
  match flag with
  | .oct => (8, s)
  | .dec => (10, s)
  | .hex => (16, (hexPrefix s).getD s)
  | .none =>
      match hexPrefix s with
      | some rest => (16, rest)
      | .none => if s.head? = some '0' then (8, s) else (10, s)

/-- `operator>>` into a variable that holds `num`: without a field nothing is stored, and a field without
digits stores 0. -/
def get (T : IntType) (flag : Basefield) (s : List Char) (num : ℤ) : ℤ :=
  match s.dropWhile isSpace with
  | [] => num
  | c :: field =>
      let signed := splitSign (c :: field)
      let radix := splitRadix flag signed.2
      T.stored signed.1 (value radix.1 (radix.2.takeWhile (isDigit radix.1)))

structure Numeral (base : ℕ) (s ws sign pre ds tail : List Char) : Prop where
  eq : s = ws ++ (sign ++ (pre ++ (ds ++ tail)))
  spaces : ∀ c ∈ ws, isSpace c = true
  signs : sign = [] ∨ sign = ['+'] ∨ sign = ['-']
  prefixes : pre = [] ∨ base = 16 ∧ (pre = ['0', 'x'] ∨ pre = ['0', 'X'])
  ne_nil : ds ≠ []
  digits : ∀ c ∈ ds, isDigit base c = true
  ends : ∀ c ∈ tail.head?, isDigit base c = false
  longest : base = 16 → pre = [] → ∀ rest, hexPrefix (ds ++ tail) = some rest →
    ∀ c ∈ rest.head?, isDigit 16 c = false

def LeadingNumeral (base : ℕ) (s : List Char) (negative : Bool) (v : ℕ) : Prop :=
  ∃ ws sign pre ds tail, Numeral base s ws sign pre ds tail ∧ negative = decide (sign = ['-']) ∧
    v = value base ds

theorem digitVal_of_isSpace {c : Char} (hc : isSpace c = true) : digitVal c = 36 := by
  have hc : c.toNat = 32 ∨ 9 ≤ c.toNat ∧ c.toNat ≤ 13 := by simpa [isSpace] using hc
  unfold digitVal
  rw [if_neg (by omega), if_neg (by omega), if_neg (by omega)]

theorem isSpace_of_isDigit {c : Char} (hbase : base ≤ 16) (hc : isDigit base c = true) :
    isSpace c = false := by
  have hlt : digitVal c < base := of_decide_eq_true hc
  by_contra hspace
  rw [Bool.not_eq_false] at hspace
  rw [digitVal_of_isSpace hspace] at hlt
  omega

theorem splitSign_cons {c : Char} (hplus : c ≠ '+') (hminus : c ≠ '-') (s : List Char) :
    splitSign (c :: s) = (false, c :: s) := by
  unfold splitSign
  split
  · simp_all
  · simp_all
  · rfl

theorem takeWhile_digits (hds : ∀ c ∈ ds, isDigit base c = true)
    (htail : ∀ c ∈ tail.head?, isDigit base c = false) : (ds ++ tail).takeWhile (isDigit base) = ds := by
  have hnil : tail.takeWhile (isDigit base) = [] := by
    cases tail with
    | nil => rfl
    | cons c tail =>
      have hc := htail c rfl
      simp [hc]
  rw [List.takeWhile_append_of_pos hds, hnil, List.append_nil]

theorem Numeral.head (h : Numeral base s ws sign pre ds tail) (hbase : base ≤ 16) :
    ∃ c rest, pre ++ (ds ++ tail) = c :: rest ∧ isSpace c = false ∧ c ≠ '+' ∧ c ≠ '-' := by
  rcases h.prefixes with rfl | ⟨_, rfl | rfl⟩
  · obtain ⟨c, ds', rfl⟩ := List.exists_cons_of_ne_nil h.ne_nil
    have hc := h.digits c (.head _)
    refine ⟨c, ds' ++ tail, rfl, isSpace_of_isDigit hbase hc, ?_, ?_⟩
    · rintro rfl
      exact absurd (of_decide_eq_true hc) (Nat.not_lt.mpr (hbase.trans (by decide)))
    · rintro rfl
      exact absurd (of_decide_eq_true hc) (Nat.not_lt.mpr (hbase.trans (by decide)))
  · exact ⟨'0', 'x' :: (ds ++ tail), rfl, by decide, by decide, by decide⟩
  · exact ⟨'0', 'X' :: (ds ++ tail), rfl, by decide, by decide, by decide⟩

theorem Numeral.dropWhile (h : Numeral base s ws sign pre ds tail) (hbase : base ≤ 16) :
    s.dropWhile isSpace = sign ++ (pre ++ (ds ++ tail)) := by
  obtain ⟨c, rest, hrest, hc, _⟩ := h.head hbase
  rw [h.eq, List.dropWhile_append_of_pos h.spaces, hrest]
  rcases h.signs with rfl | rfl | rfl
  · exact List.dropWhile_cons_of_neg (by simp [hc])
  · exact List.dropWhile_cons_of_neg (by decide)
  · exact List.dropWhile_cons_of_neg (by decide)

theorem Numeral.splitSign (h : Numeral base s ws sign pre ds tail) (hbase : base ≤ 16) :
    splitSign (sign ++ (pre ++ (ds ++ tail))) = (decide (sign = ['-']), pre ++ (ds ++ tail)) := by
  obtain ⟨c, rest, hrest, _, hplus, hminus⟩ := h.head hbase
  rcases h.signs with rfl | rfl | rfl
  · rw [hrest]
    exact splitSign_cons hplus hminus rest
  · rfl
  · rfl

theorem hexPrefix_eq_some {rest : List Char} (h : hexPrefix s = some rest) :
    s = '0' :: 'x' :: rest ∨ s = '0' :: 'X' :: rest := by
  unfold hexPrefix at h
  split at h
  · exact .inl (by rw [Option.some.inj h])
  · exact .inr (by rw [Option.some.inj h])
  · cases h

theorem digits_of_hexPrefix {rest : List Char} (hne : ds ≠ []) (hds : ∀ c ∈ ds, isDigit 16 c = true)
    (h : hexPrefix (ds ++ tail) = some rest) : ds = ['0'] := by
  obtain ⟨c, ds', rfl⟩ := List.exists_cons_of_ne_nil hne
  cases ds' with
  | nil =>
    have hc : c = '0' := by rcases hexPrefix_eq_some h with heq | heq <;> exact (List.cons.inj heq).1
    rw [hc]
  | cons x ds' =>
    have hx := hds x (by simp)
    have hletter : x = 'x' ∨ x = 'X' := by
      rcases hexPrefix_eq_some h with heq | heq
      · exact .inl (List.cons.inj (List.cons.inj heq).2).1
      · exact .inr (List.cons.inj (List.cons.inj heq).2).1
    rcases hletter with rfl | rfl
    · exact absurd hx (by decide)
    · exact absurd hx (by decide)

theorem get_of_space (T : IntType) (flag : Basefield) (hs : ∀ c ∈ s, isSpace c = true) (num : ℤ) :
    get T flag s num = num := by
  have hnone : s.dropWhile isSpace = [] := List.dropWhile_eq_nil_iff.mpr hs
  unfold get
  rw [hnone]

theorem get_of_not_space (T : IntType) (flag : Basefield) {c : Char} (hc : c ∈ s) (hspace : isSpace c = false)
    (num num' : ℤ) : get T flag s num = get T flag s num' := by
  unfold get
  cases hfield : s.dropWhile isSpace with
  | nil =>
    have hall := List.dropWhile_eq_nil_iff.mp hfield c hc
    rw [hspace] at hall
    cases hall
  | cons d field => rfl

theorem Numeral.value_eq (h : Numeral base s ws sign pre ds tail) (hbase : base = 8 ∨ base = 10 ∨ base = 16) :
    let radix := splitRadix (setbase base) (pre ++ (ds ++ tail))
    value radix.1 (radix.2.takeWhile (isDigit radix.1)) = value base ds := by
  have hread : value base ((ds ++ tail).takeWhile (isDigit base)) = value base ds := by
    rw [takeWhile_digits h.digits h.ends]
  rcases hbase with rfl | rfl | rfl
  · obtain rfl := h.prefixes.resolve_right fun hhex => absurd hhex.1 (by decide)
    exact hread
  · obtain rfl := h.prefixes.resolve_right fun hhex => absurd hhex.1 (by decide)
    exact hread
  · rcases h.prefixes with rfl | ⟨_, rfl | rfl⟩
    · change value 16 (((hexPrefix (ds ++ tail)).getD (ds ++ tail)).takeWhile (isDigit 16)) = _
      cases hpre : hexPrefix (ds ++ tail) with
      | none => exact hread
      | some rest =>
        have hstop := h.longest rfl rfl rest hpre
        have hnone := takeWhile_digits (List.forall_mem_nil _) hstop
        rw [Option.getD_some, digits_of_hexPrefix h.ne_nil h.digits hpre]
        rw [List.nil_append] at hnone
        rw [hnone]
        rfl
    · exact hread
    · exact hread

theorem get_of_leadingNumeral (T : IntType) (hbase : base = 8 ∨ base = 10 ∨ base = 16)
    (h : LeadingNumeral base s negative v) (num : ℤ) :
    get T (setbase base) s num = T.stored negative v := by
  obtain ⟨ws, sign, pre, ds, tail, hparts, rfl, rfl⟩ := h
  have hle : base ≤ 16 := by omega
  obtain ⟨c, rest, hrest, _⟩ := hparts.head hle
  have hfield := hparts.dropWhile hle
  have hsign := hparts.splitSign hle
  have hvalue := hparts.value_eq hbase
  obtain ⟨d, field, hcons⟩ := List.exists_cons_of_ne_nil
    (show sign ++ (pre ++ (ds ++ tail)) ≠ [] by simp [hrest])
  unfold get
  rw [hfield, hcons]
  simp only [← hcons, hsign]
  exact congrArg _ hvalue

namespace IntType

variable {T : IntType} {n : ℤ}

theorem max_nonneg (T : IntType) : 0 ≤ T.max := by
  have hpow (k : ℕ) : (1 : ℤ) ≤ 2 ^ k := one_le_pow₀ (by decide)
  have hhalf := hpow (T.bits - 1)
  have hwhole := hpow T.bits
  unfold max
  split_ifs <;> omega

theorem max_lt (T : IntType) : T.max < 2 ^ T.bits := by
  have hpow : (2 : ℤ) ^ (T.bits - 1) ≤ 2 ^ T.bits := pow_le_pow_right₀ (by decide) (Nat.sub_le _ _)
  unfold max
  split_ifs <;> omega

theorem stored_nonneg (T : IntType) (v : ℕ) : 0 ≤ T.stored false v := by
  have hmax := T.max_nonneg
  unfold stored
  simp only [Bool.false_eq_true, if_false]
  split_ifs <;> omega

theorem min_of_unsigned (h : ¬ T.isSigned = true) : T.min = 0 := if_neg h

theorem stored_of_holds {negative : Bool} {v : ℕ} (h : T.Holds (signedValue negative v)) :
    T.stored negative v = signedValue negative v := by
  obtain ⟨hmin, hmax⟩ := h
  unfold stored
  unfold signedValue at *
  cases negative with
  | true =>
    simp only [if_true] at hmin hmax ⊢
    split_ifs with hsigned hbig
    · omega
    · have hzero := min_of_unsigned hsigned
      have hnonneg := T.max_nonneg
      omega
    · have hzero := min_of_unsigned hsigned
      have hv : (-v : ℤ) = 0 := by omega
      rw [hv]
      rfl
  | false =>
    simp only [Bool.false_eq_true, if_false] at hmin hmax ⊢
    split_ifs <;> omega

theorem Holds.stored_eq (h : T.Holds n) : T.stored (decide (n < 0)) n.natAbs = n := by
  have habs : signedValue (decide (n < 0)) n.natAbs = n := by
    unfold signedValue
    by_cases hn : n < 0
    · rw [if_pos (decide_eq_true hn)]
      omega
    · rw [if_neg (by simpa using hn)]
      omega
  rw [stored_of_holds (habs.symm ▸ h), habs]

theorem stored_of_max_lt {v : ℕ} (hv : T.max < v) : T.stored false v = T.max := by
  unfold stored
  simp only [Bool.false_eq_true, if_false, if_pos hv]
  split_ifs <;> omega

end IntType

section

variable {T : IntType} {n : ℤ}

theorem put_of_nonneg (h : T.Holds n) (hn : 0 ≤ n) (hbase : base = 8 ∨ base = 10 ∨ base = 16) :
    put T (setbase base) n = Nat.toDigits base n.natAbs := by
  have hmod : (n % 2 ^ T.bits).toNat = n.natAbs := by
    rw [Int.emod_eq_of_lt hn (h.2.trans_lt T.max_lt)]
    omega
  rcases hbase with rfl | rfl | rfl
  · change Nat.toDigits 8 (n % 2 ^ T.bits).toNat = _
    rw [hmod]
  · exact if_neg (Int.not_lt.mpr hn)
  · change Nat.toDigits 16 (n % 2 ^ T.bits).toNat = _
    rw [hmod]

theorem put_of_neg (hn : n < 0) : put T (setbase 10) n = '-' :: Nat.toDigits 10 n.natAbs := if_pos hn

theorem put_bits (hbase : base = 8 ∨ base = 16) :
    put T (setbase base) n = Nat.toDigits base (n % 2 ^ T.bits).toNat := by
  rcases hbase with rfl | rfl <;> rfl

theorem numeral_plain (hws : ∀ c ∈ ws, isSpace c = true) (hsign : sign = [] ∨ sign = ['+'] ∨ sign = ['-'])
    (hne : ds ≠ []) (hds : ∀ c ∈ ds, isDigit base c = true) :
    Numeral base (ws ++ (sign ++ ds)) ws sign [] ds [] where
  eq := by simp
  spaces := hws
  signs := hsign
  prefixes := .inl rfl
  ne_nil := hne
  digits := hds
  ends := nofun
  longest := by
    rintro rfl - rest hrest
    rw [digits_of_hexPrefix hne hds hrest] at hrest
    cases hrest

theorem isSpace_replicate (k : ℕ) : ∀ c ∈ List.replicate k ' ', isSpace c = true := by
  intro c hc
  rw [List.eq_of_mem_replicate hc]
  rfl

theorem leadingNumeral_padded {c : Char} (hbase : base = 8 ∨ base = 10 ∨ base = 16) (k v : ℕ)
    (hc : c = ' ' ∨ c = '0') :
    LeadingNumeral base (List.replicate k c ++ Nat.toDigits base v) false v := by
  have hdigits : ∀ d ∈ Nat.toDigits base v, isDigit base d = true :=
    fun d hd => isDigit_of_mem_toDigits (by omega) (by omega) v hd
  have hvalue := value_toDigits (show 1 < base by omega) (by omega) v
  rcases hc with rfl | rfl
  · exact ⟨List.replicate k ' ', [], [], _, [],
      numeral_plain (isSpace_replicate k) (.inl rfl) Nat.toDigits_ne_nil hdigits, rfl, hvalue.symm⟩
  · refine ⟨[], [], [], List.replicate k '0' ++ Nat.toDigits base v, [],
      numeral_plain (fun _ hc => absurd hc List.not_mem_nil) (.inl rfl) ?_ ?_, rfl, ?_⟩
    · simp [Nat.toDigits_ne_nil]
    · intro d hd
      rcases List.mem_append.mp hd with hd | hd
      · rw [List.eq_of_mem_replicate hd]
        exact isDigit_zero (by omega)
      · exact hdigits d hd
    · rw [value_zeros, hvalue]

theorem leadingNumeral_negative (k v : ℕ) :
    LeadingNumeral 10 (List.replicate k ' ' ++ '-' :: Nat.toDigits 10 v) true v :=
  ⟨List.replicate k ' ', ['-'], [], _, [],
    numeral_plain (isSpace_replicate k) (.inr (.inr rfl)) Nat.toDigits_ne_nil
      fun _ hd => isDigit_of_mem_toDigits (by decide) (by decide) v hd,
    rfl, (value_toDigits (by decide) (by decide) v).symm⟩

theorem leadingNumeral_zeros (k : ℕ) (s : List Char) :
    LeadingNumeral 10 (List.replicate (k + 1) '0' ++ '-' :: s) false 0 := by
  refine ⟨[], [], [], List.replicate (k + 1) '0', '-' :: s, ?_, rfl, ?_⟩
  · refine ⟨rfl, nofun, .inl rfl, .inl rfl, by simp, ?_, ?_, nofun⟩
    · intro c hc
      rw [List.eq_of_mem_replicate hc]
      rfl
    · rintro c ⟨⟩
      rfl
  · have hzeros := value_zeros 10 (k + 1) []
    rw [List.append_nil] at hzeros
    exact hzeros.symm

end

end SysUtils.Streams

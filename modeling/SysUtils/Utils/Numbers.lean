import SysUtils.Streams

namespace SysUtils.Utils

open Numerals Streams

variable {T : IntType} {n align : ℤ} {base k m : ℕ} {c : Char} {s : List Char}

def removePrefix (pre value : List Char) : List Char :=
  if value.take pre.length = pre then value.drop pre.length else value

/-- The types that `numberToString` and `stringToNumber` are used at: `uint8_t`, which a stream would read and
write as a character, has its own. -/
inductive NumberType where
  | uint8
  | wide (T : IntType)

def uint16 : IntType := ⟨false, 16, by decide⟩

def unsignedInt : IntType := ⟨false, 32, by decide⟩

def appendChars (alignChar : Char) : ℕ → List Char → List Char
  | 0, result => result
  | charsToAdd + 1, result => appendChars alignChar charsToAdd (result ++ [alignChar])

def wideToString (T : IntType) (number : ℤ) (pre : List Char) (base : ℕ) (align : ℤ) (alignChar : Char) :
    List Char :=
  let numberString := put T (setbase base) number
  let result :=
    if 0 < align ∧ numberString.length < align.toNat then
      appendChars alignChar (align.toNat - numberString.length) pre
    else pre
  result ++ numberString

/-- `stale` is what the variable `num` holds before it is read. -/
def stringToWide (T : IntType) (s : List Char) (base : ℕ) (stale : ℤ) : ℤ := get T (setbase base) s stale

namespace NumberType

def numberToString : NumberType → ℤ → List Char → ℕ → ℤ → Char → List Char
  | .uint8 => wideToString uint16
  | .wide T => wideToString T

def stringToNumber : NumberType → List Char → ℕ → ℤ → ℤ
  | .uint8, s, base, stale => stringToWide unsignedInt s base stale % 2 ^ 8
  | .wide T, s, base, stale => stringToWide T s base stale

def isSigned : NumberType → Bool
  | .uint8 => false
  | .wide T => T.isSigned

def max : NumberType → ℤ
  | .uint8 => 2 ^ 8 - 1
  | .wide T => T.max

def Holds : NumberType → ℤ → Prop
  | .uint8, n => 0 ≤ n ∧ n ≤ 2 ^ 8 - 1
  | .wide T, n => T.Holds n

end NumberType

theorem appendChars_eq (c : Char) (k : ℕ) (s : List Char) :
    appendChars c k s = s ++ List.replicate k c := by
  induction k generalizing s with
  | zero => simp [appendChars]
  | succ k ih => rw [appendChars, ih, List.append_assoc, List.singleton_append, ← List.replicate_succ]

theorem removePrefix_append (pre s : List Char) : removePrefix pre (pre ++ s) = s := by
  unfold removePrefix
  rw [List.take_left', List.drop_left'] <;> simp

def padding (T : IntType) (n : ℤ) (base : ℕ) (align : ℤ) : ℕ :=
  align.toNat - (put T (setbase base) n).length

theorem wideToString_eq (T : IntType) (n : ℤ) (pre : List Char) (base : ℕ) (align : ℤ) (c : Char) :
    wideToString T n pre base align c =
      pre ++ (List.replicate (padding T n base align) c ++ put T (setbase base) n) := by
  unfold wideToString padding
  simp only [appendChars_eq]
  split_ifs with halign
  · rw [List.append_assoc]
  · rw [Nat.sub_eq_zero_of_le (by omega), List.replicate_zero, List.nil_append]

theorem read_padded (hbase : base = 8 ∨ base = 10 ∨ base = 16) (hc : c = ' ' ∨ c = '0') (h : T.Holds n)
    (hn : 0 ≤ n) (k : ℕ) (stale : ℤ) :
    stringToWide T (List.replicate k c ++ Nat.toDigits base n.natAbs) base stale = n := by
  have hread := get_of_leadingNumeral T hbase (leadingNumeral_padded hbase k n.natAbs hc) stale
  have hstored := h.stored_eq
  rw [decide_eq_false (Int.not_lt.mpr hn)] at hstored
  exact hread.trans hstored

theorem read_negative (h : T.Holds n) (hn : n < 0) (hc : c = ' ' ∨ c = '0') (k : ℕ) (stale : ℤ) :
    stringToWide T (List.replicate k c ++ put T (setbase 10) n) 10 stale = n ↔ c = ' ' ∨ k = 0 := by
  rw [put_of_neg hn]
  have hstored := h.stored_eq
  rw [decide_eq_true hn] at hstored
  have hspaces (k : ℕ) :
      stringToWide T (List.replicate k ' ' ++ '-' :: Nat.toDigits 10 n.natAbs) 10 stale = n :=
    (get_of_leadingNumeral T (.inr (.inl rfl)) (leadingNumeral_negative k n.natAbs) stale).trans hstored
  rcases hc with rfl | rfl
  · exact ⟨fun _ => .inl rfl, fun _ => hspaces k⟩
  · cases k with
    | zero => exact ⟨fun _ => .inr rfl, fun _ => hspaces 0⟩
    | succ k =>
      have hread := get_of_leadingNumeral T (.inr (.inl rfl))
        (leadingNumeral_zeros k (Nat.toDigits 10 n.natAbs)) stale
      have hnonneg := T.stored_nonneg 0
      rw [stringToWide, hread]
      constructor
      · intro heq
        omega
      · rintro (hspace | hzero)
        · cases hspace
        · cases hzero

theorem read_bits (hbase : base = 8 ∨ base = 16) (hn : n < 0) (hc : c = ' ' ∨ c = '0') (k : ℕ) (stale : ℤ) :
    stringToWide T (List.replicate k c ++ put T (setbase base) n) base stale ≠ n := by
  have hbase' : base = 8 ∨ base = 10 ∨ base = 16 := by omega
  have hread := get_of_leadingNumeral T hbase'
    (leadingNumeral_padded hbase' k (n % 2 ^ T.bits).toNat hc) stale
  have hnonneg := T.stored_nonneg (n % 2 ^ T.bits).toNat
  rw [put_bits hbase, stringToWide, hread]
  omega

theorem wide_round_trip_iff (h : T.Holds n) (hbase : base = 8 ∨ base = 10 ∨ base = 16)
    (hc : c = ' ' ∨ c = '0') (pre : List Char) (stale : ℤ) :
    stringToWide T (removePrefix pre (wideToString T n pre base align c)) base stale = n ↔
      0 ≤ n ∨ base = 10 ∧ (c = ' ' ∨ align ≤ (Nat.toDigits 10 n.natAbs).length + 1) := by
  rw [wideToString_eq, removePrefix_append]
  by_cases hn : 0 ≤ n
  · rw [put_of_nonneg h hn hbase, read_padded hbase hc h hn]
    exact ⟨fun _ => .inl hn, fun _ => rfl⟩
  · have hneg : n < 0 := Int.not_le.mp hn
    by_cases hten : base = 10
    · subst hten
      have hlen : padding T n 10 align = 0 ↔ align ≤ (Nat.toDigits 10 n.natAbs).length + 1 := by
        rw [padding, put_of_neg hneg, List.length_cons]
        omega
      rw [read_negative h hneg hc, hlen]
      simp [hn]
    · have hbits := read_bits (T := T) (show base = 8 ∨ base = 16 by omega) hneg hc
        (padding T n base align) stale
      simp [hbits, hn, hten]

theorem number_round_trip_iff (T : NumberType) (h : T.Holds n) (hbase : base = 8 ∨ base = 10 ∨ base = 16)
    (pre : List Char) (align : ℤ) (hc : c = ' ' ∨ c = '0') (stale : ℤ) :
    T.stringToNumber (removePrefix pre (T.numberToString n pre base align c)) base stale = n ↔
      0 ≤ n ∨ base = 10 ∧ (c = ' ' ∨ align ≤ (Nat.toDigits 10 n.natAbs).length + 1) := by
  cases T with
  | wide T => exact wide_round_trip_iff h hbase hc pre stale
  | uint8 =>
    obtain ⟨hn, hmax⟩ := h
    have hfits16 : uint16.Holds n := ⟨hn, hmax.trans (by decide)⟩
    have hfits32 : unsignedInt.Holds n := ⟨hn, hmax.trans (by decide)⟩
    have hread := read_padded hbase hc hfits32 hn (padding uint16 n base align) stale
    have hbyte : n % 2 ^ 8 = n := Int.emod_eq_of_lt hn (by omega)
    change stringToWide unsignedInt (removePrefix pre (wideToString uint16 n pre base align c)) base stale %
      2 ^ 8 = n ↔ _
    rw [wideToString_eq, removePrefix_append, put_of_nonneg hfits16 hn hbase, hread, hbyte]
    exact ⟨fun _ => .inl hn, fun _ => rfl⟩

theorem round_trip_minimum : (NumberType.wide ⟨true, 64, by decide⟩).stringToNumber
    (removePrefix "n=".toList ((NumberType.wide ⟨true, 64, by decide⟩).numberToString (-2 ^ 63) "n=".toList 10
      30 ' ')) 10 7 = -2 ^ 63 :=
  (number_round_trip_iff (.wide ⟨true, 64, by decide⟩) (by constructor <;> decide) (.inr (.inl rfl))
    "n=".toList 30 (.inl rfl) 7).mpr (.inr ⟨rfl, .inl rfl⟩)

theorem negative_not_read_back :
    (NumberType.wide ⟨true, 16, by decide⟩).Holds (-1) ∧
    (NumberType.wide ⟨true, 16, by decide⟩).stringToNumber (removePrefix "0x".toList
      ((NumberType.wide ⟨true, 16, by decide⟩).numberToString (-1) "0x".toList 16 (-1) ' ')) 16 0 = 32767 ∧
    (NumberType.wide ⟨true, 16, by decide⟩).numberToString (-5) [] 10 4 '0' = "00-5".toList ∧
    (NumberType.wide ⟨true, 16, by decide⟩).stringToNumber (removePrefix []
      ((NumberType.wide ⟨true, 16, by decide⟩).numberToString (-5) [] 10 4 '0')) 10 0 = 0 := by
  refine ⟨by constructor <;> decide, by decide, by decide, by decide⟩

structure WellDefined (T : NumberType) (s : List Char) (base : ℕ) : Prop where
  determined : ∀ stale stale', T.stringToNumber s base stale = T.stringToNumber s base stale'
  fits : ∀ negative v stale, LeadingNumeral base s negative v → T.Holds (signedValue negative v) →
    T.stringToNumber s base stale = signedValue negative v
  clamped : ∀ v stale, LeadingNumeral base s false v → T.max < v → T.stringToNumber s base stale = T.max

theorem stringToNumber_of_space (T : NumberType) (hs : ∀ c ∈ s, isSpace c = true) (stale : ℤ) :
    T.stringToNumber s base stale = match T with
      | .uint8 => stale % 2 ^ 8
      | .wide _ => stale := by
  cases T with
  | uint8 => exact congrArg (· % 2 ^ 8) (get_of_space unsignedInt _ hs stale)
  | wide T => exact get_of_space T _ hs stale

theorem not_wellDefined_of_space (T : NumberType) (hs : ∀ c ∈ s, isSpace c = true) :
    ¬ WellDefined T s base := by
  intro h
  have heq := h.determined 0 1
  rw [stringToNumber_of_space T hs, stringToNumber_of_space T hs] at heq
  cases T <;> cases heq

theorem determined_of_not_space (T : NumberType) (hc : c ∈ s) (hspace : isSpace c = false)
    (stale stale' : ℤ) : T.stringToNumber s base stale = T.stringToNumber s base stale' := by
  cases T with
  | uint8 =>
    exact congrArg (· % 2 ^ 8) (get_of_not_space unsignedInt (setbase base) hc hspace stale stale')
  | wide T => exact get_of_not_space T (setbase base) hc hspace stale stale'

theorem wide_wellDefined (hbase : base = 8 ∨ base = 10 ∨ base = 16) (hc : c ∈ s)
    (hspace : isSpace c = false) : WellDefined (.wide T) s base where
  determined := determined_of_not_space _ hc hspace
  fits _ _ stale h hfits :=
    (get_of_leadingNumeral T hbase h stale).trans (IntType.stored_of_holds hfits)
  clamped _ stale h hlarge :=
    (get_of_leadingNumeral T hbase h stale).trans (IntType.stored_of_max_lt hlarge)

theorem byte_of_numeral (hbase : base = 8 ∨ base = 10 ∨ base = 16) {v : ℕ}
    (h : LeadingNumeral base s false v) (stale : ℤ) :
    NumberType.uint8.stringToNumber s base stale = if v < 2 ^ 32 then (v : ℤ) % 2 ^ 8 else 2 ^ 8 - 1 := by
  have hread : stringToWide unsignedInt s base stale = unsignedInt.stored false v :=
    get_of_leadingNumeral unsignedInt hbase h stale
  change stringToWide unsignedInt s base stale % 2 ^ 8 = _
  rw [hread]
  by_cases hv : v < 2 ^ 32
  · have hfits : unsignedInt.Holds (signedValue false v) :=
      ⟨Int.natCast_nonneg v, show (v : ℤ) ≤ 2 ^ 32 - 1 by omega⟩
    rw [if_pos hv, IntType.stored_of_holds hfits]
    rfl
  · have hlarge : unsignedInt.max < v := show (2 ^ 32 - 1 : ℤ) < v by omega
    rw [if_neg hv, IntType.stored_of_max_lt hlarge]
    rfl

theorem byte_fits (hbase : base = 8 ∨ base = 10 ∨ base = 16) {negative : Bool} {v : ℕ}
    (h : LeadingNumeral base s negative v) (hfits : NumberType.uint8.Holds (signedValue negative v))
    (stale : ℤ) : NumberType.uint8.stringToNumber s base stale = signedValue negative v := by
  obtain ⟨hmin, hmax⟩ := hfits
  have hread : stringToWide unsignedInt s base stale = signedValue negative v :=
    (get_of_leadingNumeral unsignedInt hbase h stale).trans
      (IntType.stored_of_holds ⟨hmin, hmax.trans (by decide)⟩)
  change stringToWide unsignedInt s base stale % 2 ^ 8 = _
  rw [hread]
  exact Int.emod_eq_of_lt hmin (by omega)

theorem parse_wellDefined_iff (T : NumberType) (hbase : base = 8 ∨ base = 10 ∨ base = 16)
    (s : List Char) : WellDefined T s base ↔ (∃ c ∈ s, isSpace c = false) ∧
      (T = .uint8 → ∀ v, LeadingNumeral base s false v → 2 ^ 8 ≤ v → v % 2 ^ 8 = 2 ^ 8 - 1 ∨ 2 ^ 32 ≤ v) := by
  constructor
  · intro h
    constructor
    · by_contra hnone
      push Not at hnone
      exact not_wellDefined_of_space T (fun c hc => by simpa using hnone c hc) h
    · rintro rfl v hv hlarge
      have hclamped := h.clamped v 0 hv (show (2 ^ 8 - 1 : ℤ) < v by omega)
      rw [byte_of_numeral hbase hv] at hclamped
      change _ = (2 ^ 8 - 1 : ℤ) at hclamped
      split_ifs at hclamped with hfits
      · omega
      · omega
  · rintro ⟨⟨c, hc, hspace⟩, hbyte⟩
    cases T with
    | wide T => exact wide_wellDefined hbase hc hspace
    | uint8 =>
      refine ⟨determined_of_not_space _ hc hspace, ?_, ?_⟩
      · intro negative v stale h hfits
        exact byte_fits hbase h hfits stale
      · intro v stale h hlarge
        have hlarge : (2 ^ 8 - 1 : ℤ) < v := hlarge
        have hlow := hbyte rfl v h (by omega)
        rw [byte_of_numeral hbase h]
        change _ = (2 ^ 8 - 1 : ℤ)
        split_ifs with hfits
        · omega
        · rfl

theorem parse_wellDefined_tail : WellDefined (.wide uint16) " 12ab".toList 10 :=
  (parse_wellDefined_iff (.wide uint16) (.inr (.inl rfl)) " 12ab".toList).mpr
    ⟨⟨'1', by decide, by decide⟩, nofun⟩

theorem blank_and_large_byte :
    NumberType.stringToNumber (.wide uint16) " ".toList 10 7 = 7 ∧
    NumberType.stringToNumber .uint8 "300".toList 10 0 = 44 ∧
    ¬ WellDefined (.wide uint16) " ".toList 10 ∧ ¬ WellDefined .uint8 "300".toList 10 := by
  have hnumeral : LeadingNumeral 10 "300".toList false 300 :=
    leadingNumeral_padded (.inr (.inl rfl)) 0 300 (.inl rfl)
  refine ⟨by decide, by decide, not_wellDefined_of_space _ (isSpace_replicate 1), ?_⟩
  intro h
  have hclamped := h.clamped 300 0 hnumeral (by decide)
  revert hclamped
  decide

end SysUtils.Utils

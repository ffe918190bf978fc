import SysUtils.Multibyte

namespace SysUtils.Convertor

open Multibyte Multibyte.Code

inductive Failure where
  | lengthError
  | outOfBounds
  deriving DecidableEq, Repr

variable {ω : Type} (C : Code ω)

section

variable [DecidableEq ω]

/-- The loop, for the next `n` characters; `text` begins at the pointer 0, and `mbrtowc` returns the sizes
`-2` and `-1` for the bytes it cannot convert. -/
def wideString (text : List UInt8) : ℕ → ℤ → List UInt8 → Except Failure (List ω)
  | 0, _, _ => .ok []
  | n + 1, ptr, state =>
      if ptr < 0 then .error .outOfBounds
      else
        match C.mbrtowc state (text.drop ptr.toNat) with
        | .char c length =>
            (wideString text n (ptr + if c = C.nul then 0 else length) []).map (c :: ·)
        | .incomplete state => (wideString text n (ptr - 2) state).map (C.nul :: ·)
        | .invalid => (wideString text n (ptr - 1) []).map (C.nul :: ·)

def toWstring (str : List UInt8) : Except Failure (List ω) :=
  let sz := C.mblen str
  if sz < 0 then .error .lengthError
  else wideString C (str.takeWhile fun b => b ≠ 0) sz.toNat 0 []

def toString (wstr : List ω) : List UInt8 :=
  -- `(size_t)-1 + 1` is 0
  let sz := match C.wcstombs wstr with
    | none => 0
    | some bs => bs.length + 1
  let stored := C.stored sz wstr
  stored ++ (List.replicate sz 0).drop stored.length

end

def firstLength (w : List ω) : ℕ := ((w.head?.bind C.code).map List.length).getD 0

variable {C} {w : List ω} {bs : List UInt8}

theorem mblen_of_encodes (h : C.Encodes w bs) (rest : List UInt8) :
    C.mblen (bs ++ 0 :: rest) = firstLength C w := by
  cases h with
  | nil => rfl
  | cons hcode hc hw =>
    rw [List.append_assoc, mblen_code hcode hc]
    simp [firstLength, hcode]

theorem takeWhile_of_encodes (h : C.Encodes w bs) :
    (bs ++ [0]).takeWhile (fun b => b ≠ 0) = bs := by
  have hzero := h.zero_notMem
  rw [List.takeWhile_append_of_pos]
  · simp
  · intro b hb
    simpa using ne_of_mem_of_not_mem hb hzero

variable [DecidableEq ω]

theorem length_of_wideString {text : List UInt8} {n : ℕ} {ptr : ℤ} {state : List UInt8}
    (h : wideString C text n ptr state = .ok w) : w.length = n := by
  induction n generalizing ptr state w with
  | zero =>
    obtain rfl : [] = w := Except.ok.inj h
    rfl
  | succ n ih =>
    have hcons {c : ω} {rest : Except Failure (List ω)}
        (hrest : ∀ v, rest = .ok v → v.length = n) (h : rest.map (c :: ·) = .ok w) :
        w.length = n + 1 := by
      cases rest with
      | error e => cases h
      | ok v =>
        obtain rfl : c :: v = w := Except.ok.inj h
        rw [List.length_cons, hrest v rfl]
    unfold wideString at h
    split at h
    · cases h
    · split at h
      · exact hcons (fun v hv => ih hv) h
      · exact hcons (fun v hv => ih hv) h
      · exact hcons (fun v hv => ih hv) h

theorem wideString_of_encodes {text : List UInt8} (pos : ℕ) (h : C.Encodes w bs)
    (hrest : text.drop pos = bs) : wideString C text w.length pos [] = .ok w := by
  induction h generalizing pos with
  | nil => rfl
  | @cons c code bs w hcode hc hw ih =>
    have hread := mbrtowc_code [] hcode (code_ne_nil hcode) bs
    have hnext : text.drop (pos + code.length) = bs := by
      rw [← List.drop_drop, hrest, List.drop_left]
    have hpos : ¬ (pos : ℤ) < 0 := by omega
    have htail := ih (pos + code.length) hnext
    rw [List.length_cons, wideString, if_neg hpos, Int.toNat_natCast, hrest, hread]
    simp only [if_neg hc]
    rw [← Int.natCast_add, htail]
    rfl

theorem toString_of_wcstombs (h : C.wcstombs w = some bs) : toString C w = bs ++ [0] := by
  simp only [toString, h, stored_of_wcstombs h]
  rw [List.drop_of_length_le (by simp), List.append_nil]

theorem toString_of_encodes (h : C.Encodes w bs) : toString C w = bs ++ [0] :=
  toString_of_wcstombs (wcstombs_of_encodes h)

theorem zero_mem_toString (w : List ω) : toString C w = [] ∨ 0 ∈ toString C w := by
  cases hsz : C.wcstombs w with
  | none =>
    left
    simp only [toString, hsz, stored_zero]
    rfl
  | some bs =>
    right
    rw [toString_of_wcstombs hsz]
    simp

theorem toWstring_terminated (h : C.Encodes w bs) :
    toWstring C (bs ++ [0]) = wideString C bs (firstLength C w) 0 [] := by
  have hsize : ¬ (firstLength C w : ℤ) < 0 := by omega
  simp only [toWstring, mblen_of_encodes h, if_neg hsize, takeWhile_of_encodes h, Int.toNat_natCast]

theorem toWstring_toString_iff (h : C.Encodes w bs) :
    toWstring C (toString C w) = .ok w ↔ w.length = firstLength C w := by
  rw [toString_of_encodes h, toWstring_terminated h]
  constructor
  · exact length_of_wideString
  · intro hlength
    rw [← hlength]
    exact wideString_of_encodes 0 h rfl

theorem toString_toWstring_ne (h : C.Encodes w bs) :
    (toWstring C bs).map (toString C) ≠ .ok bs := by
  intro hback
  cases hwide : toWstring C bs with
  | error e =>
    rw [hwide] at hback
    cases hback
  | ok v =>
    rw [hwide] at hback
    have hv : toString C v = bs := Except.ok.inj hback
    rcases zero_mem_toString (C := C) v with hnil | hzero
    · rw [hv] at hnil
      subst hnil
      obtain rfl : [] = v := Except.ok.inj hwide
      cases hv
    · rw [hv] at hzero
      exact h.zero_notMem hzero

structure RoundTrips (C : Code ω) (w : List ω) (bs : List UInt8) : Prop where
  narrow : toString C w = bs
  wide : toWstring C (toString C w) = .ok w
  back : (toWstring C bs).map (toString C) = .ok bs

theorem not_roundTrips (C : Code ω) (w : List ω) (bs : List UInt8) (h : C.Encodes w bs) :
    ¬ RoundTrips C w bs ∧ toString C w ≠ bs ∧
    (toWstring C (toString C w) = .ok w ↔ w.length = firstLength C w) ∧
    (toWstring C bs).map (toString C) ≠ .ok bs := by
  have hnarrow : toString C w ≠ bs := by
    rw [toString_of_encodes h]
    simp
  refine ⟨?_, hnarrow, toWstring_toString_iff h, toString_toWstring_ne h⟩
  intro hround
  exact hnarrow hround.narrow

theorem toNat_widened (b : UInt8) : (UInt16.ofNat b.toNat).toNat = b.toNat :=
  UInt16.toNat_ofNat_of_lt' (b.toNat_lt.trans (by decide))

def latin : Code UInt16 where
  code c := if c.toNat < 256 then some [UInt8.ofNat c.toNat] else none
  nul := 0
  decode bs := match bs with
    | [b] => some (UInt16.ofNat b.toNat)
    | _ => none
  begins bs := bs.length < 2
  code_nul := rfl
  eq_nul c bs hcode hzero := by
    split at hcode
    · obtain rfl := Option.some.inj hcode
      have hbyte := congrArg UInt8.toNat (List.mem_singleton.mp hzero)
      apply UInt16.toNat_inj.mp
      simp only [UInt8.toNat_ofNat, UInt8.toNat_ofNat', UInt16.toNat_ofNat] at hbyte ⊢
      omega
    · cases hcode
  ne_nil c := by split <;> simp
  prefixFree c d bs cs hc hd hprefix := by
    split at hc
    · split at hd
      · obtain rfl := Option.some.inj hc
        obtain rfl := Option.some.inj hd
        obtain ⟨_, heq⟩ := hprefix
        have hbyte := congrArg UInt8.toNat (List.cons.inj heq).1
        apply UInt16.toNat_inj.mp
        simp only [UInt8.toNat_ofNat'] at hbyte
        omega
      · cases hd
    · cases hc
  decode_iff bs c := by
    split
    · rename_i b
      constructor
      · intro hdecode
        obtain rfl := Option.some.inj hdecode
        rw [toNat_widened, if_pos b.toNat_lt, UInt8.ofNat_toNat]
      · intro hcode
        split at hcode
        · have hbyte := (List.cons.inj (Option.some.inj hcode)).1
          rw [← hbyte, UInt8.toNat_ofNat_of_lt' (by assumption), UInt16.ofNat_toNat]
        · cases hcode
    · rename_i hsingle
      constructor
      · rintro ⟨⟩
      · intro hcode
        split at hcode
        · exact absurd (Option.some.inj hcode).symm (hsingle _)
        · cases hcode
  begins_iff bs := by
    rw [decide_eq_true_iff]
    constructor
    · intro hlength
      cases bs with
      | nil => exact ⟨0, [0], rfl, List.nil_prefix⟩
      | cons b bs =>
        have hnil : bs = [] := by
          rw [List.length_cons] at hlength
          exact List.length_eq_zero_iff.mp (by omega)
        subst hnil
        refine ⟨UInt16.ofNat b.toNat, [b], ?_, List.prefix_refl [b]⟩
        rw [toNat_widened, if_pos b.toNat_lt, UInt8.ofNat_toNat]
    · rintro ⟨c, cs, hcode, hprefix⟩
      split at hcode
      · obtain rfl := Option.some.inj hcode
        have hle := hprefix.length_le
        rw [List.length_singleton] at hle
        omega
      · cases hcode

theorem not_roundTrips_ab : ¬ RoundTrips latin [97, 98] [97, 98] ∧
    toString latin [97, 98] ≠ [97, 98] ∧
    (toWstring latin (toString latin [97, 98]) = .ok [97, 98] ↔ 2 = 1) ∧
    (toWstring latin [97, 98]).map (toString latin) ≠ .ok [97, 98] := by
  have hencodes : latin.Encodes [97, 98] [97, 98] := by
    have ha : latin.code 97 = some [97] := rfl
    have hb : latin.code 98 = some [98] := rfl
    have ha0 : (97 : UInt16) ≠ 0 := by decide
    have hb0 : (98 : UInt16) ≠ 0 := by decide
    exact .cons ha ha0 (.cons hb hb0 .nil)
  exact not_roundTrips latin [97, 98] [97, 98] hencodes

theorem ab_comes_back_as_a : toString latin [97, 98] = [97, 98, 0] ∧
    toWstring latin (toString latin [97, 98]) = .ok [97] ∧
    (toWstring latin [97, 98]).map (toString latin) = .ok [97, 0] ∧
    ¬ RoundTrips latin [97, 98] [97, 98] := by
  have hnarrow : toString latin [97, 98] = [97, 98, 0] := by decide
  refine ⟨hnarrow, by decide, by decide, ?_⟩
  intro hround
  rw [hround.narrow] at hnarrow
  cases hnarrow

end SysUtils.Convertor

import Mathlib.Data.List.Infix

namespace SysUtils.Multibyte

/-- An injective, prefix-free code of wide characters by bytes. The byte zero is the code of `nul` and stands
in no other code. -/
structure Code (ω : Type) where
  code : ω → Option (List UInt8)
  nul : ω
  decode : List UInt8 → Option ω
  begins : List UInt8 → Bool
  code_nul : code nul = some [0]
  eq_nul : ∀ c bs, code c = some bs → 0 ∈ bs → c = nul
  ne_nil : ∀ c, code c ≠ some []
  prefixFree : ∀ c d bs cs, code c = some bs → code d = some cs → bs <+: cs → c = d
  decode_iff : ∀ bs c, decode bs = some c ↔ code c = some bs
  begins_iff : ∀ bs, begins bs = true ↔ ∃ c cs, code c = some cs ∧ bs <+: cs

inductive Conversion (ω : Type) where
  | char (c : ω) (length : ℕ)
  | incomplete (state : List UInt8)
  | invalid
  deriving DecidableEq, Repr

def Conversion.further {ω : Type} : Conversion ω → Conversion ω
  | .char c length => .char c (length + 1)
  | .incomplete state => .incomplete state
  | .invalid => .invalid

namespace Code

variable {ω : Type} (C : Code ω)

/-- `state` holds the bytes that earlier calls have found incomplete. -/
def mbrtowc : List UInt8 → List UInt8 → Conversion ω
  | state, [] => .incomplete state
  | state, b :: bs =>
      match C.decode (state ++ [b]) with
      | some c => .char c 1
      | none => if C.begins (state ++ [b]) then (mbrtowc (state ++ [b]) bs).further else .invalid

def mblen (bs : List UInt8) : ℤ :=
  match bs with
  | [] => 0
  | b :: bs =>
      if b = 0 then 0
      else
        match C.mbrtowc [] (b :: bs) with
        | .char _ length => length
        | _ => -1

section

variable [DecidableEq ω]

def wcstombs : List ω → Option (List UInt8)
  | [] => some []
  | c :: w => if c = C.nul then some [] else (C.code c).bind fun bs => (wcstombs w).map (bs ++ ·)

def stored : ℕ → List ω → List UInt8
  | n, [] => [0].take n
  | n, c :: w =>
      if c = C.nul then [0].take n
      else
        match C.code c with
        | none => []
        | some bs => if bs.length ≤ n then bs ++ stored (n - bs.length) w else []

end

inductive Encodes : List ω → List UInt8 → Prop
  | nil : Encodes [] []
  | cons {c : ω} {code bs : List UInt8} {w : List ω} (hcode : C.code c = some code) (hc : c ≠ C.nul)
      (hw : Encodes w bs) : Encodes (c :: w) (code ++ bs)

variable {C} {c : ω} {w : List ω} {bs code : List UInt8}

theorem decode_of_part {part : List UInt8} (hcode : C.code c = some (part ++ bs)) (hne : bs ≠ []) :
    C.decode part = none := by
  cases hdecode : C.decode part with
  | none => rfl
  | some d =>
    have hd := (C.decode_iff part d).mp hdecode
    obtain rfl := C.prefixFree d c part (part ++ bs) hd hcode (List.prefix_append part bs)
    rw [hcode] at hd
    exact absurd (List.self_eq_append_right.mp (Option.some.inj hd).symm) hne

theorem begins_of_part {part : List UInt8} (hcode : C.code c = some (part ++ bs)) : C.begins part = true := by
  apply (C.begins_iff part).mpr
  exact ⟨c, part ++ bs, hcode, List.prefix_append part bs⟩

theorem mbrtowc_code (state : List UInt8) (hcode : C.code c = some (state ++ bs)) (hne : bs ≠ [])
    (rest : List UInt8) : C.mbrtowc state (bs ++ rest) = .char c bs.length := by
  induction bs generalizing state with
  | nil => exact absurd rfl hne
  | cons b bs ih =>
    have hassoc : state ++ b :: bs = (state ++ [b]) ++ bs := by rw [List.append_assoc, List.singleton_append]
    rw [hassoc] at hcode
    rw [List.cons_append, mbrtowc]
    by_cases hnil : bs = []
    · subst hnil
      rw [List.append_nil] at hcode
      rw [(C.decode_iff _ c).mpr hcode]
      rfl
    · rw [decode_of_part hcode hnil]
      simp only [begins_of_part hcode, if_true, ih (state ++ [b]) hcode hnil]
      rfl

theorem code_ne_nil (hcode : C.code c = some code) : code ≠ [] := by
  rintro rfl
  exact C.ne_nil c hcode

theorem zero_notMem_code (hcode : C.code c = some code) (hc : c ≠ C.nul) : 0 ∉ code :=
  fun hzero => hc (C.eq_nul c code hcode hzero)

theorem Encodes.zero_notMem (h : C.Encodes w bs) : 0 ∉ bs := by
  induction h with
  | nil => exact List.not_mem_nil
  | cons hcode hc _ ih =>
    intro hzero
    rcases List.mem_append.mp hzero with hzero | hzero
    · exact zero_notMem_code hcode hc hzero
    · exact ih hzero

theorem mblen_code (hcode : C.code c = some code) (hc : c ≠ C.nul) (rest : List UInt8) :
    C.mblen (code ++ rest) = code.length := by
  have hread := mbrtowc_code [] hcode (code_ne_nil hcode) rest
  have hzero := zero_notMem_code hcode hc
  cases code with
  | nil => exact absurd rfl (code_ne_nil hcode)
  | cons b bs =>
    have hb : b ≠ 0 := by
      rintro rfl
      exact hzero (.head _)
    rw [List.cons_append] at hread ⊢
    simp only [mblen, if_neg hb, hread]

variable [DecidableEq ω]

theorem wcstombs_of_encodes (h : C.Encodes w bs) : C.wcstombs w = some bs := by
  induction h with
  | nil => rfl
  | cons hcode hc _ ih => simp only [wcstombs, if_neg hc, hcode, ih, Option.bind_some, Option.map_some]

theorem stored_of_wcstombs (h : C.wcstombs w = some bs) : C.stored (bs.length + 1) w = bs ++ [0] := by
  induction w generalizing bs with
  | nil =>
    obtain rfl : [] = bs := Option.some.inj h
    rfl
  | cons c w ih =>
    unfold wcstombs at h
    unfold stored
    by_cases hc : c = C.nul
    · rw [if_pos hc] at h ⊢
      obtain rfl : [] = bs := Option.some.inj h
      rfl
    · rw [if_neg hc] at h ⊢
      obtain ⟨code, hcode, hrest⟩ := Option.bind_eq_some_iff.mp h
      obtain ⟨rest, hw, rfl⟩ := Option.map_eq_some_iff.mp hrest
      have hfits : code.length ≤ (code ++ rest).length + 1 := by
        rw [List.length_append]
        omega
      have hleft : (code ++ rest).length + 1 - code.length = rest.length + 1 := by
        rw [List.length_append]
        omega
      simp only [hcode, if_pos hfits, hleft, ih hw, List.append_assoc]

theorem stored_zero (w : List ω) : C.stored 0 w = [] := by
  cases w with
  | nil => rfl
  | cons c w =>
    unfold stored
    split
    · rfl
    · split
      · rfl
      · rename_i code hcode
        have hpos := List.length_pos_of_ne_nil (code_ne_nil hcode)
        rw [if_neg (by omega)]

end Code

end SysUtils.Multibyte

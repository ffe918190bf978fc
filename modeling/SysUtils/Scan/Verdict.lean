import Mathlib.Tactic.IntervalCases
import SysUtils.Scan.Elf

namespace SysUtils.Scan

open Layouts

variable {stale stale' : ℕ → UInt8} {content : List UInt8}

def fits : ℕ → UInt8 → Bool
  | 0, b => b == 0x7f
  | 1, b => b == 0x45
  | 2, b => b == 0x4c
  | 3, b => b == 0x46
  | 4, b => b == 2 || b == 1
  | 6, b => b == 1
  | 16, b => b == 3 || b == 2
  | 20, b => b == 1
  | 17, b | 21, b | 22, b | 23, b => b == 0
  | _, _ => true

theorem littleEndian_eq_zero {bytes : List UInt8} : littleEndian bytes = 0 ↔ ∀ b ∈ bytes, b = 0 := by
  induction bytes with
  | nil => simp [littleEndian]
  | cons b bytes ih =>
    have hcons : littleEndian (b :: bytes) = b.toNat + 256 * littleEndian bytes := rfl
    have hb : b.toNat = 0 ↔ b = 0 := by
      rw [← UInt8.toNat_inj]
      rfl
    rw [hcons, List.forall_mem_cons, ← ih, ← hb]
    omega

theorem littleEndian_cons_eq (b v : UInt8) (bytes : List UInt8) :
    littleEndian (b :: bytes) = v.toNat ↔ b = v ∧ ∀ c ∈ bytes, c = 0 := by
  have hcons : littleEndian (b :: bytes) = b.toNat + 256 * littleEndian bytes := rfl
  have hlt := b.toNat_lt
  have hv := v.toNat_lt
  rw [hcons, ← littleEndian_eq_zero, ← UInt8.toNat_inj]
  omega

theorem checkHeader_iff_fits (h : ℕ → UInt8) :
    (ElfHeader.decode h).checkHeader = true ↔ ∀ k, fits k (h k) = true := by
  have htype (v : UInt8) : (littleEndian [h 16, h 17] = v.toNat) ↔ h 16 = v ∧ h 17 = 0 := by
    simpa using littleEndian_cons_eq (h 16) v [h 17]
  have hversion : (littleEndian [h 20, h 21, h 22, h 23] = 1) ↔
      h 20 = 1 ∧ h 21 = 0 ∧ h 22 = 0 ∧ h 23 = 0 := by
    simpa using littleEndian_cons_eq (h 20) 1 [h 21, h 22, h 23]
  have h3 := htype 3
  have h2 := htype 2
  change littleEndian [h 16, h 17] = 3 ↔ _ at h3
  change littleEndian [h 16, h 17] = 2 ↔ _ at h2
  simp only [ElfHeader.checkHeader, ElfHeader.checkIdent, ElfHeader.checkElfMagic,
    ElfHeader.checkElfVersion, ElfHeader.checkClass, ElfHeader.checkType, ElfHeader.checkFileVersion,
    ElfHeader.decode, Bool.and_eq_true, Bool.or_eq_true, beq_iff_eq, h3, h2, hversion,
    List.cons.injEq, and_true]
  constructor
  · rintro ⟨⟨⟨⟨⟨h0, h1, h2, h3⟩, h6⟩, h4⟩, htype⟩, h20, h21, h22, h23⟩ k
    have h16 : h 16 = 3 ∨ h 16 = 2 := htype.imp And.left And.left
    have h17 : h 17 = 0 := htype.elim And.right And.right
    unfold fits
    split <;> simp [h0, h1, h2, h3, h4, h6, h16, h17, h20, h21, h22, h23]
  · intro hk
    have h0 := hk 0
    have h1 := hk 1
    have h2 := hk 2
    have h3 := hk 3
    have h4 := hk 4
    have h6 := hk 6
    have h16 := hk 16
    have h17 := hk 17
    have h20 := hk 20
    have h21 := hk 21
    have h22 := hk 22
    have h23 := hk 23
    simp only [fits, beq_iff_eq, Bool.or_eq_true] at h0 h1 h2 h3 h4 h6 h16 h17 h20 h21 h22 h23
    exact ⟨⟨⟨⟨⟨h0, h1, h2, h3⟩, h6⟩, h4⟩, h16.imp (⟨·, h17⟩) (⟨·, h17⟩)⟩, h20, h21, h22, h23⟩

theorem fits_of_le {k : ℕ} (hk : 24 ≤ k) (b : UInt8) : fits k b = true := by
  unfold fits
  split <;> first | omega | rfl

def refuted (content : List UInt8) : Bool := content.zipIdx.any fun x => !fits x.2 x.1

theorem refuted_iff : refuted content = true ↔
    ∃ (k : ℕ) (hk : k < content.length), fits k content[k] = false := by
  simp only [refuted, List.any_eq_true, Bool.not_eq_true', Prod.exists, List.mem_zipIdx_iff_getElem?]
  constructor
  · rintro ⟨b, k, hb, hfits⟩
    obtain ⟨hk, rfl⟩ := List.getElem?_eq_some_iff.mp hb
    exact ⟨k, hk, hfits⟩
  · rintro ⟨k, hk, hfits⟩
    exact ⟨content[k], k, List.getElem?_eq_getElem hk, hfits⟩

theorem checkHeader_of_refuted (h : refuted content = true) (stale : ℕ → UInt8) :
    (ElfHeader.decode (readHeader stale content)).checkHeader = false := by
  obtain ⟨k, hk, hfits⟩ := refuted_iff.mp h
  have hk24 : k < 24 := by
    by_contra hle
    rw [fits_of_le (by omega)] at hfits
    cases hfits
  by_contra hcheck
  have hall := (checkHeader_iff_fits _).mp (by simpa using hcheck) k
  rw [readHeader_of_lt hk (by omega), hfits] at hall
  cases hall

def staleElf (k : ℕ) : UInt8 := elf32Exec.getD k 0

theorem fits_staleElf (k : ℕ) : fits k (staleElf k) = true := by
  by_cases hk : k < 24
  · interval_cases k <;> decide
  · exact fits_of_le (by omega) _

theorem checkHeader_staleElf (h : refuted content = false) :
    (ElfHeader.decode (readHeader staleElf content)).checkHeader = true := by
  apply (checkHeader_iff_fits _).mpr
  intro k
  by_cases hk : k < content.length
  · by_cases h64 : k < 64
    · rw [readHeader_of_lt hk h64]
      by_contra hfits
      have hyes : refuted content = true := refuted_iff.mpr ⟨k, hk, by simpa using hfits⟩
      rw [h] at hyes
      cases hyes
    · exact fits_of_le (by omega) _
  · rw [readHeader_of_le (by omega)]
    exact fits_staleElf k

theorem decode_congr {h h' : ℕ → UInt8} (heq : ∀ k < 24, h k = h' k) :
    ElfHeader.decode h = ElfHeader.decode h' := by
  simp only [ElfHeader.decode, heq 0 (by omega), heq 1 (by omega), heq 2 (by omega), heq 3 (by omega),
    heq 4 (by omega), heq 6 (by omega), heq 16 (by omega), heq 17 (by omega), heq 20 (by omega),
    heq 21 (by omega), heq 22 (by omega), heq 23 (by omega)]

theorem readHeader_stale {m : ℕ} (hm : m ≤ content.length) (h64 : m ≤ 64) :
    ∀ k < m, readHeader stale content k = readHeader stale' content k := by
  intro k hk
  rw [readHeader_of_lt (by omega) (by omega), readHeader_of_lt (by omega) (by omega)]

theorem eType_congr {h h' : ℕ → UInt8} (heq : ∀ k < 18, h k = h' k) :
    (ElfHeader.decode h).eType = (ElfHeader.decode h').eType := by
  simp only [ElfHeader.decode, heq 16 (by omega), heq 17 (by omega)]

def staleType (b : UInt8) (k : ℕ) : UInt8 := if k = 17 then b else 0

theorem eType_staleType (hlen : content.length < 18) :
    (ElfHeader.decode (readHeader (staleType 0) content)).eType ≠
      (ElfHeader.decode (readHeader (staleType 1) content)).eType := by
  have hlow : readHeader (staleType 0) content 16 = readHeader (staleType 1) content 16 := by
    by_cases hk : 16 < content.length
    · rw [readHeader_of_lt hk (by omega), readHeader_of_lt hk (by omega)]
    · rw [readHeader_of_le (by omega), readHeader_of_le (by omega)]
      rfl
  have hhigh (b : UInt8) : readHeader (staleType b) content 17 = b := by
    rw [readHeader_of_le (by omega)]
    rfl
  simp only [ElfHeader.decode, hlow, hhigh]
  intro h
  have hbytes (b : UInt8) : littleEndian [readHeader (staleType 1) content 16, b] =
      (readHeader (staleType 1) content 16).toNat + 256 * (b.toNat + 256 * 0) := rfl
  rw [hbytes, hbytes] at h
  simp at h

structure FromFile (S : Sys) (path : Str) : Prop where
  independent : ∀ stale stale', checkIfValidElf S stale path = checkIfValidElf S stale' path
  short : ∀ content ∈ S.fopen path, content.length < byteSize ElfClass.class32.ehdr →
    ∀ stale, (checkIfValidElf S stale path).1 = false

def Decides (content : List UInt8) : Prop :=
  byteSize ElfClass.class32.ehdr ≤ content.length ∨ 18 ≤ content.length ∧ refuted content = true

theorem FromFile.of_decides {S : Sys} {path : Str} (h : ∀ content ∈ S.fopen path, Decides content) :
    FromFile S path := by
  cases hopen : S.fopen path with
  | none => exact ⟨by simp [checkIfValidElf, hopen], by simp [hopen]⟩
  | some content =>
    have hcheck := checkIfValidElf_eq hopen
    rcases h content hopen with hlong | ⟨h18, hrefuted⟩
    · rw [byteSize_ehdr32] at hlong
      constructor
      · intro stale stale'
        rw [hcheck, hcheck, decode_congr (readHeader_stale (by omega) (by omega))]
      · rintro _ hc hshort
        rw [hopen, Option.mem_some_iff] at hc
        rw [byteSize_ehdr32, ← hc] at hshort
        omega
    · constructor
      · intro stale stale'
        rw [hcheck, hcheck, checkHeader_of_refuted hrefuted, checkHeader_of_refuted hrefuted,
          eType_congr (readHeader_stale h18 (by omega))]
      · intro _ _ _ stale
        rw [hcheck]
        exact checkHeader_of_refuted hrefuted stale

theorem FromFile.decides {S : Sys} {path : Str} (h : FromFile S path) :
    ∀ content ∈ S.fopen path, Decides content := by
  intro content hopen
  rw [Option.mem_def] at hopen
  by_contra hnot
  obtain ⟨hshort, hnot⟩ := not_or.mp hnot
  by_cases h18 : 18 ≤ content.length
  · have hrefuted : refuted content = false := by simpa using fun hr => hnot ⟨h18, hr⟩
    have hfalse := h.short content hopen (Nat.lt_of_not_le hshort) staleElf
    rw [checkIfValidElf_eq hopen, checkHeader_staleElf hrefuted] at hfalse
    cases hfalse
  · have hsame := congrArg Prod.snd (h.independent (staleType 0) (staleType 1))
    rw [checkIfValidElf_eq hopen, checkIfValidElf_eq hopen] at hsame
    exact eType_staleType (by omega) hsame

theorem verdict_from_file_iff (S : Sys) (path : Str) :
    FromFile S path ↔ ∀ content ∈ S.fopen path, Decides content :=
  ⟨FromFile.decides, FromFile.of_decides⟩

theorem empty_file_inherits_header :
    (checkIfValidElf (fileSys []) staleElf "/a".toList).1 = true ∧
      (checkIfValidElf (fileSys []) (fun _ => 0) "/a".toList).1 = false ∧
      ¬ FromFile (fileSys []) "/a".toList := by
  have hyes : (checkIfValidElf (fileSys []) staleElf "/a".toList).1 = true := by decide
  refine ⟨hyes, by decide, fun h => ?_⟩
  rw [h.short [] rfl (by decide)] at hyes
  cases hyes

end SysUtils.Scan

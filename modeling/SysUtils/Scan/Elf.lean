import SysUtils.Layouts
import SysUtils.Scan.Files

namespace SysUtils.Scan

open Layouts

inductive EhdrMember where
  | ident | type | machine | version | entry | phoff | shoff | flags | ehsize | phentsize | phnum
  | shentsize | shnum | shstrndx
  deriving DecidableEq, Repr

inductive ElfClass where
  | class32 | class64
  deriving DecidableEq, Repr

def ElfClass.code : ElfClass → UInt8
  | .class32 => 1
  | .class64 => 2

def ElfClass.addr : ElfClass → ℕ
  | .class32 => 4
  | .class64 => 8

def ElfClass.ehdr (c : ElfClass) : List (Member EhdrMember) :=
  [⟨.ident, 1, 16⟩, ⟨.type, 2, 1⟩, ⟨.machine, 2, 1⟩, ⟨.version, 4, 1⟩, ⟨.entry, c.addr, 1⟩,
    ⟨.phoff, c.addr, 1⟩, ⟨.shoff, c.addr, 1⟩, ⟨.flags, 4, 1⟩, ⟨.ehsize, 2, 1⟩, ⟨.phentsize, 2, 1⟩,
    ⟨.phnum, 2, 1⟩, ⟨.shentsize, 2, 1⟩, ⟨.shnum, 2, 1⟩, ⟨.shstrndx, 2, 1⟩]

def ElfClass.field (c : ElfClass) (m : EhdrMember) (content : List UInt8) : ℕ :=
  littleEndian (bytesOf c.ehdr m content)

example : byteSize ElfClass.class64.ehdr = 64 := by decide

theorem byteSize_ehdr32 : byteSize ElfClass.class32.ehdr = 52 := by decide

theorem span_type (c : ElfClass) : span c.ehdr .type = (16, 2) := by cases c <;> decide

theorem span_version (c : ElfClass) : span c.ehdr .version = (20, 4) := by cases c <;> decide

variable {stale stale' : ℕ → UInt8} {content : List UInt8} {k : ℕ}

theorem readHeader_of_lt (hk : k < content.length) (h64 : k < 64) :
    readHeader stale content k = content[k] := by
  simp [readHeader, hk, h64]

theorem readHeader_of_le (hk : content.length ≤ k) : readHeader stale content k = stale k := by
  have hnone : (content.take 64)[k]? = none := by
    rw [List.getElem?_eq_none_iff, List.length_take]
    omega
  rw [readHeader, hnone, Option.getD_none]

theorem readHeader_slice (stale : ℕ → UInt8) (k m : ℕ) (hlen : k + m ≤ content.length)
    (h64 : k + m ≤ 64) :
    (content.drop k).take m = (List.range m).map fun j => readHeader stale content (k + j) := by
  apply List.ext_getElem
  · simp
    omega
  · intro j h1 h2
    have hj : j < m := by simpa using h2
    have hbyte : readHeader stale content (k + j) = content[k + j] :=
      readHeader_of_lt (by omega) (by omega)
    simp [hbyte]

theorem decode_readHeader (stale : ℕ → UInt8) (hlen : 24 ≤ content.length) (c : ElfClass) :
    ElfHeader.decode (readHeader stale content) =
      ⟨content.take 4, content.getD 4 0, content.getD 6 0, c.field .type content,
        c.field .version content⟩ := by
  have hlen0 : 0 + 4 ≤ content.length := by omega
  have hlen16 : 16 + 2 ≤ content.length := by omega
  have hlen20 : 20 + 4 ≤ content.length := by omega
  have hmagic := readHeader_slice stale 0 4 hlen0 (by omega)
  have htype := readHeader_slice stale 16 2 hlen16 (by omega)
  have hversion := readHeader_slice stale 20 4 hlen20 (by omega)
  have hclass : readHeader stale content 4 = content.getD 4 0 := by
    rw [readHeader_of_lt (by omega) (by omega), List.getD_eq_getElem?_getD,
      List.getElem?_eq_getElem, Option.getD_some]
  have hident : readHeader stale content 6 = content.getD 6 0 := by
    rw [readHeader_of_lt (by omega) (by omega), List.getD_eq_getElem?_getD,
      List.getElem?_eq_getElem, Option.getD_some]
  rw [List.drop_zero] at hmagic
  rw [ElfClass.field, ElfClass.field, bytesOf_eq (span_type c), bytesOf_eq (span_version c), hmagic,
    htype, hversion, ← hclass, ← hident]
  rfl

structure ElfFile (content : List UInt8) : Prop where
  magic : content.take 4 = [0x7f, 0x45, 0x4c, 0x46]
  identVersion : content[6]? = some 1
  header : ∃ c : ElfClass, content[4]? = some c.code ∧
    (c.field .type content = 2 ∨ c.field .type content = 3) ∧ c.field .version content = 1

theorem checkIfValidElf_eq {S : Sys} {path : Str} (h : S.fopen path = some content) (stale : ℕ → UInt8) :
    checkIfValidElf S stale path = ((ElfHeader.decode (readHeader stale content)).checkHeader,
      (ElfHeader.decode (readHeader stale content)).eType) := by
  rw [checkIfValidElf, h]

theorem checkIfValidElf_of_fopen {S : Sys} {path : Str} (h : S.fopen path = some content)
    (hlen : 24 ≤ content.length) (c : ElfClass) : checkIfValidElf S stale path =
      ((ElfHeader.mk (content.take 4) (content.getD 4 0) (content.getD 6 0) (c.field .type content)
        (c.field .version content)).checkHeader, c.field .type content) := by
  rw [checkIfValidElf_eq h, decode_readHeader stale hlen c]

theorem getElem?_eq_some_getD (hk : k < content.length) (b : UInt8) :
    content[k]? = some b ↔ content.getD k 0 = b := by
  rw [List.getD_eq_getElem?_getD, List.getElem?_eq_getElem hk, Option.getD_some, Option.some.injEq]

theorem checkHeader_iff_elfFile (hlen : 24 ≤ content.length) (c : ElfClass) :
    (ElfHeader.mk (content.take 4) (content.getD 4 0) (content.getD 6 0) (c.field .type content)
      (c.field .version content)).checkHeader = true ↔ ElfFile content := by
  have hfield (c' : ElfClass) (m : EhdrMember) (hm : m = .type ∨ m = .version) :
      c'.field m content = c.field m content := by
    rcases hm with rfl | rfl
    · simp only [ElfClass.field, bytesOf_eq (span_type _)]
    · simp only [ElfClass.field, bytesOf_eq (span_version _)]
  simp only [ElfHeader.checkHeader, ElfHeader.checkIdent, ElfHeader.checkElfMagic,
    ElfHeader.checkElfVersion, ElfHeader.checkClass, ElfHeader.checkType, ElfHeader.checkFileVersion,
    Bool.and_eq_true, Bool.or_eq_true, beq_iff_eq]
  constructor
  · rintro ⟨⟨⟨⟨hmagic, hident⟩, hclass⟩, htype⟩, hversion⟩
    have hown : ∃ c' : ElfClass, content.getD 4 0 = c'.code := by
      rcases hclass with h2 | h1
      · exact ⟨.class64, h2⟩
      · exact ⟨.class32, h1⟩
    obtain ⟨c', hc⟩ := hown
    refine ⟨hmagic, (getElem?_eq_some_getD (by omega) _).mpr hident, c',
      (getElem?_eq_some_getD (by omega) _).mpr hc, ?_, ?_⟩
    · rw [hfield _ _ (.inl rfl)]
      exact htype.symm
    · rw [hfield _ _ (.inr rfl)]
      exact hversion
  · rintro ⟨hmagic, hident, c', hclass, htype, hversion⟩
    rw [hfield _ _ (.inl rfl)] at htype
    rw [hfield _ _ (.inr rfl)] at hversion
    refine ⟨⟨⟨⟨hmagic, (getElem?_eq_some_getD (by omega) _).mp hident⟩, ?_⟩, htype.symm⟩, hversion⟩
    have hc := (getElem?_eq_some_getD (by omega) _).mp hclass
    cases c' with
    | class32 => exact .inr hc
    | class64 => exact .inl hc

theorem one_layout_serves_both (S : Sys) (stale : ℕ → UInt8) {path : Str} {content : List UInt8}
    (h : S.fopen path = some content) (hlen : 64 ≤ content.length) :
    ((checkIfValidElf S stale path).1 = true ↔ ElfFile content) ∧
    ∀ c : ElfClass, content[4]? = some c.code →
      (checkIfValidElf S stale path).2 = c.field .type content := by
  constructor
  · rw [checkIfValidElf_of_fopen h (by omega) .class64]
    exact checkHeader_iff_elfFile (by omega) .class64
  · intro c _
    rw [checkIfValidElf_of_fopen h (by omega) c]

def fileSys (content : List UInt8) : Sys where
  readdir _ := none
  fopen _ := some content
  realpath _ := none
  named _ _ h := by cases h

def elf32Exec : List UInt8 :=
  [0x7f, 0x45, 0x4c, 0x46, 1, 1, 1] ++ List.replicate 9 0 ++ [2, 0, 3, 0, 1, 0, 0, 0] ++
    List.replicate 40 0

theorem one_layout_serves_both_elf32 :
    (checkIfValidElf (fileSys elf32Exec) (fun _ => 0xff) "/a".toList).1 = true ∧
      (checkIfValidElf (fileSys elf32Exec) (fun _ => 0xff) "/a".toList).2 = 2 := by
  have hopen : (fileSys elf32Exec).fopen "/a".toList = some elf32Exec := rfl
  have h := one_layout_serves_both (fileSys elf32Exec) (fun _ => 0xff) hopen (by decide)
  refine ⟨h.1.mpr ⟨by decide, by decide, .class32, by decide, by decide, by decide⟩, ?_⟩
  rw [h.2 .class32 (by decide)]
  decide

end SysUtils.Scan

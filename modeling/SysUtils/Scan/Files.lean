import Mathlib.Data.Nat.Notation

namespace SysUtils.Scan

abbrev Str := List Char

inductive DType where
  | unknown | fifo | chr | dir | blk | reg | lnk | sock | wht
  deriving DecidableEq, Repr

structure Dirent where
  dName : Str
  dType : DType
  deriving DecidableEq, Repr

/-- The file system as the scan sees it. A directory that `opendir` refuses has no listing, and what
`fopen` and `fread` find in a file is its bytes. -/
structure Sys where
  readdir : Str → Option (List Dirent)
  fopen : Str → Option (List UInt8)
  realpath : Str → Option Str
  named : ∀ p es, readdir p = some es →
    (es.map Dirent.dName).Nodup ∧ ∀ e ∈ es, e.dName ≠ [] ∧ '/' ∉ e.dName

def hasPrefix (value pre : Str) : Bool :=
  if value.length < pre.length then false else value.take pre.length == pre

def skipScanningPrefix : List Str :=
  ["/sys".toList, "/proc".toList, "/dev".toList, "/run".toList, "/mnt".toList]

def validPath (path : Str) : Bool := !skipScanningPrefix.any fun pre => hasPrefix path pre

def readHeader (stale : ℕ → UInt8) (content : List UInt8) (k : ℕ) : UInt8 :=
  (content.take 64)[k]?.getD (stale k)

def littleEndian (bytes : List UInt8) : ℕ := bytes.foldr (fun b v => b.toNat + 256 * v) 0

structure ElfHeader where
  magic : List UInt8
  elfClass : UInt8
  elfVersion : UInt8
  eType : ℕ
  eVersion : ℕ

def ElfHeader.decode (h : ℕ → UInt8) : ElfHeader where
  magic := [h 0, h 1, h 2, h 3]
  elfClass := h 4
  elfVersion := h 6
  eType := littleEndian [h 16, h 17]
  eVersion := littleEndian [h 20, h 21, h 22, h 23]

namespace ElfHeader

def checkElfMagic (h : ElfHeader) : Bool := h.magic == [0x7f, 0x45, 0x4c, 0x46]

def checkElfVersion (h : ElfHeader) : Bool := h.elfVersion == 1

def checkClass (h : ElfHeader) : Bool := h.elfClass == 2 || h.elfClass == 1

def checkIdent (h : ElfHeader) : Bool := h.checkElfMagic && h.checkElfVersion && h.checkClass

def checkType (h : ElfHeader) : Bool := h.eType == 3 || h.eType == 2

def checkFileVersion (h : ElfHeader) : Bool := h.eVersion == 1

def checkHeader (h : ElfHeader) : Bool := h.checkIdent && h.checkType && h.checkFileVersion

end ElfHeader

/-- `check_if_valid_elf` with `elf_type` zero before the call: the verdict and `elf_type` after it. -/
def checkIfValidElf (S : Sys) (stale : ℕ → UInt8) (path : Str) : Bool × ℕ :=
  match S.fopen path with
  | none => (false, 0)
  | some content =>
      let h := ElfHeader.decode (readHeader stale content)
      (h.checkHeader, h.eType)

inductive FileType where
  | lnk | dir | elf | dyn | exe
  deriving DecidableEq, Repr

def toUType : FileType → ℕ
  | .lnk => 0 | .dir => 1 | .elf => 2 | .dyn => 3 | .exe => 4

def md5 (_ : Str) : Str := "to be determined".toList

structure FileInfo where
  path : Str
  fileType : ℕ
  md5 : Str
  deriving DecidableEq, Repr

def elfRecord (S : Sys) (stale : ℕ → UInt8) (path listed : Str) : Option FileInfo :=
  match checkIfValidElf S stale path with
  | (true, 2) => some ⟨listed, toUType .exe, md5 path⟩
  | (true, 3) => some ⟨listed, toUType .dyn, md5 path⟩
  | _ => none

def fileChecker (S : Sys) (stale : ℕ → UInt8) (fullpath : Str) : Option FileInfo :=
  elfRecord S stale fullpath fullpath

def symbolTarget (S : Sys) (symbolicPath : Str) : Option Str :=
  (S.realpath symbolicPath).filter validPath

def symbolReloader (S : Sys) (stale : ℕ → UInt8) (symbolicPath : Str) : Option FileInfo :=
  (symbolTarget S symbolicPath).bind fun target => elfRecord S stale target symbolicPath

structure Out where
  dirs : List Str := []
  files : List Str := []
  symbols : List Str := []
  deriving DecidableEq, Repr

/-- What the loop of `traverse_dir_` collects when it has read an entry. -/
def Out.add (out : Out) (path : Str) (entry : Dirent) : Out :=
  if entry.dName = ".".toList ∨ entry.dName = "..".toList then out
  else
    let fullpath := path ++ entry.dName
    match entry.dType with
    | .dir => { out with dirs := out.dirs ++ [fullpath ++ "/".toList] }
    | .reg => { out with files := out.files ++ [fullpath] }
    | .lnk => { out with symbols := out.symbols ++ [fullpath] }
    | _ => out

def Out.size (out : Out) : ℕ := out.dirs.length + out.files.length + out.symbols.length

end SysUtils.Scan

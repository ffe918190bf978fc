import Mathlib.Algebra.Group.Nat.Defs
import SysUtils.Resources

namespace SysUtils.Registry

open Resources

abbrev WChar := UInt16

abbrev HKey := ℕ

structure RegistryError where
  message : String
  errorCode : ℤ
  deriving DecidableEq, Repr

def errorSuccess : ℤ := 0

def null : HKey := 0

def keyRead : UInt32 := 0x20019

def keyWow64_32key : UInt32 := 0x200

def keyWow64_64key : UInt32 := 0x100

def hkeyCurrentUser : HKey := 0x80000001

def hkeyLocalMachine : HKey := 0x80000002

def ascii (s : String) : List UInt8 := s.toList.map fun c => UInt8.ofNat c.toNat

inductive Thrown where
  | registryError (e : RegistryError)
  | lengthError
  deriving DecidableEq, Repr

abbrev Session (α : Type) := Program HKey Thrown α

structure ValueAnswer where
  retCode : ℤ
  memory : List UInt8
  dataSize : UInt32
  deriving DecidableEq, Repr

structure InfoAnswer where
  retCode : ℤ
  subKeyCount : UInt32
  maxSubKeyLen : UInt32
  valueCount : UInt32
  maxValueNameLen : UInt32
  deriving DecidableEq, Repr

structure NameAnswer (χ : Type) where
  retCode : ℤ
  name : List χ
  type : UInt32
  deriving DecidableEq, Repr

/-- `advapi32.dll` for one type of characters. Its answers may depend on how many calls were made before; a
key is opened with a status and a handle. -/
structure Api (χ : Type) where
  exportsRegGetValue : Bool
  regGetValue : ℕ → HKey → Option (List χ) → Option (List χ) → UInt32 → Option (List UInt8) → UInt32 →
    ValueAnswer
  regOpenKeyEx : ℕ → HKey → List χ → UInt32 → ℤ × HKey
  regQueryValueEx : ℕ → HKey → Option (List χ) → UInt32 → Option (List UInt8) → UInt32 → ValueAnswer
  regQueryInfoKey : ℕ → HKey → InfoAnswer
  regEnumKeyEx : ℕ → HKey → ℕ → UInt32 → NameAnswer χ
  regEnumValue : ℕ → HKey → ℕ → UInt32 → NameAnswer χ
  opened_ne_null : ∀ n hKey subKey sam,
    (regOpenKeyEx n hKey subKey sam).1 = errorSuccess → (regOpenKeyEx n hKey subKey sam).2 ≠ null

def Api.failing {χ : Type} : Api χ where
  exportsRegGetValue := false
  regGetValue _ _ _ _ _ _ _ := ⟨2, [], 0⟩
  regOpenKeyEx _ _ _ _ := (2, null)
  regQueryValueEx _ _ _ _ _ _ := ⟨2, [], 0⟩
  regQueryInfoKey _ _ := ⟨6, 0, 0, 0, 0⟩
  regEnumKeyEx _ _ _ _ := ⟨259, [], 0⟩
  regEnumValue _ _ _ _ := ⟨259, [], 0⟩
  opened_ne_null _ _ _ _ := by rintro ⟨⟩

def Api.opening {χ : Type} : Api χ :=
  { Api.failing with
    regOpenKeyEx := fun _ _ _ _ => (errorSuccess, 7)
    opened_ne_null := fun _ _ _ _ _ => by decide }

variable {χ : Type} (api : Api χ)

def openedKey (answer : ℤ × HKey) : Option HKey := if answer.1 = errorSuccess then some answer.2 else none

def openKey (hKey : HKey) (subKey : List χ) (sam : UInt32) : Session (ℤ × HKey) :=
  opening (fun n => api.regOpenKeyEx n hKey subKey sam) openedKey

theorem run_openKey_ok (trace : Trace HKey) {hKey : HKey} {subKey : List χ} {sam : UInt32}
    (h : (api.regOpenKeyEx trace.length hKey subKey sam).1 = errorSuccess) :
    (openKey api hKey subKey sam).run trace =
      .ok (api.regOpenKeyEx trace.length hKey subKey sam)
        (.opened (api.regOpenKeyEx trace.length hKey subKey sam).2 :: trace) := by
  unfold openKey
  rw [run_opening, openedKey, if_pos h]
  rfl

theorem run_openKey_error (trace : Trace HKey) {hKey : HKey} {subKey : List χ} {sam : UInt32}
    (h : (api.regOpenKeyEx trace.length hKey subKey sam).1 ≠ errorSuccess) :
    (openKey api hKey subKey sam).run trace =
      .ok (api.regOpenKeyEx trace.length hKey subKey sam) (.other :: trace) := by
  unfold openKey
  rw [run_opening, openedKey, if_neg h]
  rfl

end SysUtils.Registry

import SysUtils.Registry.Fallback

namespace SysUtils.Registry

open Resources

section

variable (api : Api UInt8) (maxSize : ℕ)

def versionPath : List UInt8 := ascii "SOFTWARE\\Microsoft\\Windows NT\\CurrentVersion"

def getWindowsVersionInfo (value : List UInt8) : Session (List UInt8) :=
  tryCatch (regGetStringA api maxSize hkeyLocalMachine versionPath value)
    fun
      | .registryError _ => pure []
      | .lengthError => throw .lengthError

def productName : List UInt8 := ascii "ProductName"

def editionID : List UInt8 := ascii "EditionID"

def displayVersion : List UInt8 := ascii "DisplayVersion"

def csdVersion : List UInt8 := ascii "CSDVersion"

def getWindowsProductName : Session (List UInt8) := getWindowsVersionInfo api maxSize productName

def getCurrentVersion : Session (List UInt8) := getWindowsVersionInfo api maxSize (ascii "CurrentVersion")

def getEditionID : Session (List UInt8) := getWindowsVersionInfo api maxSize editionID

def getDisplayVersion : Session (List UInt8) := getWindowsVersionInfo api maxSize displayVersion

def getWindowsCSDVersion : Session (List UInt8) := getWindowsVersionInfo api maxSize csdVersion

def getWendousInfo : Session (List UInt8) := do
  let csd ← getWindowsCSDVersion api maxSize
  if csd = [] then do
    -- windows 10; the compiler chooses the order of these calls
    let product ← getWindowsProductName api maxSize
    let edition ← getEditionID api maxSize
    let display ← getDisplayVersion api maxSize
    pure (product ++ ascii " " ++ edition ++ ascii " " ++ display)
  else do
    -- windows xp,7,8
    let product ← getWindowsProductName api maxSize
    pure (product ++ ascii " " ++ csd)

end

section

variable {χ : Type} {K : CharType χ} [DecidableEq χ] (state : State K) (exported : Bool) (hKey : HKey)
  (subKey value : List χ)

def stringFound : Option (Value K) := found state exported hKey (K.cStr subKey) (K.cStr value) rrfRtRegSz

def textAt : Option (List χ) :=
  (stringFound state exported hKey subKey value).map fun v => (charsOf K v.bytes).dropLast

def Readable (maxSize : ℕ) : Prop := ∀ v, stringFound state exported hKey subKey value = some v →
  v.bytes.length / K.size ≠ 0 ∧ v.bytes.length / K.size ≤ maxSize

variable {state exported hKey subKey value} {api : Api χ} {maxSize : ℕ}

theorem run_regGetString_text (trace : Trace HKey)
    (hfollows : Follows state api hKey (K.cStr subKey) (K.cStr value))
    (hreadable : Readable state exported hKey subKey value maxSize) :
    match textAt state exported hKey subKey value with
    | some text => ∃ trace', (regGetString K (on api exported) maxSize hKey subKey value).run trace = .ok text trace'
    | none => ∃ e trace', (regGetString K (on api exported) maxSize hKey subKey value).run trace =
        .error (.registryError e) trace' := by
  unfold textAt
  cases hfound : stringFound state exported hKey subKey value with
  | none => exact run_regGetString_missing maxSize trace hfollows hfound
  | some v =>
    obtain ⟨hne, hfits⟩ := hreadable v hfound
    obtain ⟨rest, _, trace', hsize, hread⟩ := run_readString_found maxSize trace hfollows hfound hfits
    exact ⟨trace', run_regGetString hread hsize (Nat.le_refl _) hfits hne⟩

end

section

variable {state : State narrow} {exported : Bool} {api : Api UInt8} {maxSize : ℕ}

theorem run_getWindowsVersionInfo (trace : Trace HKey) {value : List UInt8}
    (hfollows : Follows state api hkeyLocalMachine (narrow.cStr versionPath) (narrow.cStr value))
    (hreadable : Readable state exported hkeyLocalMachine versionPath value maxSize) :
    ∃ trace', (getWindowsVersionInfo (on api exported) maxSize value).run trace =
      .ok ((textAt state exported hkeyLocalMachine versionPath value).getD []) trace' := by
  have htext := run_regGetString_text trace hfollows hreadable
  unfold getWindowsVersionInfo regGetStringA
  rw [run_tryCatch]
  cases h : textAt state exported hkeyLocalMachine versionPath value with
  | none =>
    rw [h] at htext
    obtain ⟨e, trace', hrun⟩ := htext
    exact ⟨trace', by rw [hrun]; rfl⟩
  | some text =>
    rw [h] at htext
    obtain ⟨trace', hrun⟩ := htext
    exact ⟨trace', by rw [hrun]; rfl⟩

theorem keeps_getWindowsVersionInfo (api : Api UInt8) (value : List UInt8) :
    Keeps (getWindowsVersionInfo api maxSize value) := by
  apply keeps_regGetString.tryCatch
  intro e
  cases e with
  | registryError e => exact keeps_pure _
  | lengthError => exact keeps_throw _

theorem keeps_getWendousInfo (api : Api UInt8) : Keeps (getWendousInfo api maxSize) := by
  apply (keeps_getWindowsVersionInfo api csdVersion).bind
  intro csd
  split
  · apply (keeps_getWindowsVersionInfo api productName).bind
    intro product
    apply (keeps_getWindowsVersionInfo api editionID).bind
    intro edition
    apply (keeps_getWindowsVersionInfo api displayVersion).bind
    intro display
    exact keeps_pure _
  · apply (keeps_getWindowsVersionInfo api productName).bind
    intro product
    exact keeps_pure _

def describe (text : List UInt8 → List UInt8) : List UInt8 :=
  if text csdVersion = [] then
    text productName ++ ascii " " ++ text editionID ++ ascii " " ++ text displayVersion
  else text productName ++ ascii " " ++ text csdVersion

theorem wendousInfo_exact (exported : Bool)
    (hfollows : ∀ value ∈ [productName, editionID, displayVersion, csdVersion],
      Follows state api hkeyLocalMachine (narrow.cStr versionPath) (narrow.cStr value))
    (hreadable : ∀ value ∈ [productName, editionID, displayVersion, csdVersion],
      Readable state exported hkeyLocalMachine versionPath value maxSize) :
    Tidy (final ((getWendousInfo (on api exported) maxSize).run [])) ∧
    ∃ trace, (getWendousInfo (on api exported) maxSize).run [] =
      .ok (describe fun value => (textAt state exported hkeyLocalMachine versionPath value).getD []) trace := by
  have hinfo (value : List UInt8) (hvalue : value ∈ [productName, editionID, displayVersion, csdVersion])
      (trace : Trace HKey) :=
    run_getWindowsVersionInfo trace (hfollows value hvalue) (hreadable value hvalue)
  refine ⟨fun held => keeps_getWendousInfo _ [] held, ?_⟩
  obtain ⟨t₁, hcsd⟩ := hinfo csdVersion (by simp) []
  obtain ⟨t₂, hproduct⟩ := hinfo productName (by simp) t₁
  obtain ⟨t₃, hedition⟩ := hinfo editionID (by simp) t₂
  obtain ⟨t₄, hdisplay⟩ := hinfo displayVersion (by simp) t₃
  unfold getWendousInfo describe getWindowsCSDVersion getWindowsProductName getEditionID getDisplayVersion
  rw [run_bind_ok hcsd]
  split_ifs with hnone
  · rw [run_bind_ok hproduct, run_bind_ok hedition, run_bind_ok hdisplay]
    exact ⟨t₄, rfl⟩
  · rw [run_bind_ok hproduct]
    exact ⟨t₂, rfl⟩

theorem wendousInfo_exact_stringA : ∃ trace, (getWendousInfo (on (constantly stringA) true) 100).run [] =
    .ok (ascii "a a") trace := by
  refine (wendousInfo_exact true (fun _ _ => constantly_follows stringA _ _ _) ?_).2
  rintro value _ _ ⟨⟩
  exact ⟨by decide, by decide⟩

end

end SysUtils.Registry

import SysUtils.Registry.WholeStrings

namespace SysUtils.Registry

open Resources

structure Value {χ : Type} (K : CharType χ) where
  type : UInt32
  bytes : List UInt8
  fits : bytes.length < 2 ^ 32
  terminated : type = regSz → EndsNul K bytes

abbrev State {χ : Type} (K : CharType χ) := HKey → List χ → Option (List χ → Option (Value K))

structure Answers (bytes : List UInt8) (pvData : Option (List UInt8)) (cbData : UInt32) (answer : ValueAnswer) :
    Prop where
  success : answer.retCode = errorSuccess ↔ ∀ memory, pvData = some memory → bytes.length ≤ cbData.toNat
  gives : answer.retCode = errorSuccess → Gives bytes pvData cbData answer

section

variable {χ : Type} {K : CharType χ} (state : State K) (api : Api χ)

def lookup (hKey : HKey) (subKey value : List χ) : Option (Value K) :=
  (state hKey subKey).bind fun key => key value

/-- The registry answers for one value from a state that does not change. `RegGetValue` fails if the value is
of another type than the one that is asked for, and `RegQueryValueEx` ignores the type. -/
structure Follows (hKey : HKey) (subKey value : List χ) : Prop where
  getValue : ∀ n dwFlags pvData cbData v, lookup state hKey subKey value = some v → v.type = lpTypeOf dwFlags →
    Answers v.bytes pvData cbData
      (api.regGetValue n hKey (some subKey) (some value) dwFlags pvData cbData)
  getValue_error : ∀ n dwFlags pvData cbData,
    (∀ v, lookup state hKey subKey value = some v → v.type ≠ lpTypeOf dwFlags) →
    (api.regGetValue n hKey (some subKey) (some value) dwFlags pvData cbData).retCode ≠ errorSuccess
  openKey : ∀ n, (api.regOpenKeyEx n hKey subKey keyRead).1 = errorSuccess ↔ state hKey subKey ≠ none
  queryValue : ∀ n lpType pvData cbData v, lookup state hKey subKey value = some v →
    Answers v.bytes pvData cbData
      (api.regQueryValueEx (n + 1) (api.regOpenKeyEx n hKey subKey keyRead).2 (some value) lpType pvData cbData)
  queryValue_error : ∀ n lpType pvData cbData, lookup state hKey subKey value = none →
    (api.regOpenKeyEx n hKey subKey keyRead).1 = errorSuccess →
    (api.regQueryValueEx (n + 1) (api.regOpenKeyEx n hKey subKey keyRead).2 (some value) lpType pvData
      cbData).retCode ≠ errorSuccess

def on (exported : Bool) : Api χ := { api with exportsRegGetValue := exported }

def SameOutcome {α : Type} (x y : Session α) : Prop :=
  (∃ e e' trace trace', x.run [] = .error (.registryError e) trace ∧
    y.run [] = .error (.registryError e') trace') ∨
  ∃ a trace trace', x.run [] = .ok a trace ∧ y.run [] = .ok a trace'

def found (exported : Bool) (hKey : HKey) (subKey value : List χ) (dwFlags : UInt32) : Option (Value K) :=
  (lookup state hKey subKey value).filter fun v => !exported || v.type = lpTypeOf dwFlags

variable {state api} {exported : Bool} {hKey : HKey} {subKey value : List χ} {dwFlags : UInt32}

theorem valueAt_found (hfollows : Follows state api hKey subKey value) (hflags : lpTypeOf dwFlags ≠ 0) {v : Value K}
    (hfound : found state exported hKey subKey value dwFlags = some v) (pvData : Option (List UInt8))
    (cbData : UInt32) (n : ℕ) :
    ∃ answer, valueAt (on api exported) hKey (some subKey) (some value) dwFlags pvData cbData n = .ok answer ∧
      Answers v.bytes pvData cbData answer := by
  obtain ⟨hlookup, htype⟩ := Option.filter_eq_some_iff.mp hfound
  cases exported with
  | true =>
    exact ⟨_, rfl, hfollows.getValue n dwFlags pvData cbData v hlookup (by simpa using htype)⟩
  | false =>
    have hopen : (api.regOpenKeyEx n hKey subKey keyRead).1 = errorSuccess := by
      apply (hfollows.openKey n).mpr
      intro hnone
      rw [lookup, hnone] at hlookup
      cases hlookup
    have hanswers := hfollows.queryValue n (lpTypeOf dwFlags) pvData cbData v hlookup
    exact ⟨_, valueAt_opened (on api false) Bool.false_ne_true hKey hflags hopen _ pvData cbData, hanswers⟩

theorem granted_none (hfollows : Follows state api hKey subKey value) (hflags : lpTypeOf dwFlags ≠ 0)
    (hfound : found state exported hKey subKey value dwFlags = none) (pvData : Option (List UInt8))
    (cbData : UInt32) (n : ℕ) :
    granted (valueAt (on api exported) hKey (some subKey) (some value) dwFlags pvData cbData n) = none := by
  apply Option.eq_none_iff_forall_ne_some.mpr
  intro answer hanswer
  obtain ⟨hvalue, hret⟩ := granted_eq_some.mp hanswer
  have hother := Option.filter_eq_none_iff.mp hfound
  cases exported with
  | true =>
    obtain rfl := Except.ok.inj hvalue
    refine hfollows.getValue_error n dwFlags pvData cbData ?_ hret
    intro v hv htype
    exact hother v hv (by simpa using htype)
  | false =>
    have hlookup : lookup state hKey subKey value = none := by
      apply Option.eq_none_iff_forall_ne_some.mpr
      intro v hv
      exact hother v hv rfl
    by_cases hopen : (api.regOpenKeyEx n hKey subKey keyRead).1 = errorSuccess
    · rw [valueAt_opened (on api false) Bool.false_ne_true hKey hflags hopen] at hvalue
      obtain rfl := Except.ok.inj hvalue
      exact hfollows.queryValue_error n _ pvData cbData hlookup hopen hret
    · rw [valueAt_unopened (on api false) Bool.false_ne_true hKey hflags hopen] at hvalue
      cases hvalue

theorem found_exported (dwFlags : UInt32) {v : Value K} (hlookup : lookup state hKey subKey value = some v) :
    found state true hKey subKey value dwFlags = if v.type = lpTypeOf dwFlags then some v else none := by
  rw [found, hlookup]
  by_cases htype : v.type = lpTypeOf dwFlags
  · rw [if_pos htype]
    exact Option.filter_some_pos (by simpa using htype)
  · rw [if_neg htype]
    exact Option.filter_some_neg (by simpa using htype)

theorem found_fallback (dwFlags : UInt32) : found state false hKey subKey value dwFlags = lookup state hKey subKey value := by
  cases hlookup : lookup state hKey subKey value with
  | none => rw [found, hlookup, Option.filter_none]
  | some v => rw [found, hlookup, Option.filter_some_pos (by simp)]

theorem found_missing (exported : Bool) (dwFlags : UInt32)
    (hlookup : lookup state hKey subKey value = none) :
    found state exported hKey subKey value dwFlags = none := by
  rw [found, hlookup]
  rfl

theorem SameOutcome.registryError {α : Type} {x y : Session α} {e : RegistryError} {trace : Trace HKey}
    (h : SameOutcome x y) (hx : x.run [] = .error (.registryError e) trace) :
    ∃ e' trace', y.run [] = .error (.registryError e') trace' := by
  obtain ⟨_, e', _, trace', _, hy⟩ | ⟨_, _, _, hok, _⟩ := h
  · exact ⟨e', trace', hy⟩
  · rw [hx] at hok
    cases hok

theorem SameOutcome.ne_lengthError {α : Type} {x y : Session α} (h : SameOutcome x y) (trace : Trace HKey) :
    x.run [] ≠ .error .lengthError trace := by
  intro hx
  obtain ⟨_, _, _, _, hrun, _⟩ | ⟨_, _, _, hrun, _⟩ := h <;>
  · rw [hx] at hrun
    cases hrun

variable [DecidableEq χ] (maxSize : ℕ)

theorem run_regGetString_missing (trace : Trace HKey)
    (hfollows : Follows state api hKey (K.cStr subKey) (K.cStr value))
    (hfound : found state exported hKey (K.cStr subKey) (K.cStr value) rrfRtRegSz = none) :
    ∃ e trace', (regGetString K (on api exported) maxSize hKey subKey value).run trace =
      .error (.registryError e) trace' := by
  have hnone := granted_none hfollows (by decide) hfound none 0 trace.length
  obtain ⟨e, he⟩ := run_readString_denied trace maxSize hnone
  exact ⟨e, _, run_bind_error he⟩

theorem run_readString_found (trace : Trace HKey) (hfollows : Follows state api hKey (K.cStr subKey) (K.cStr value)) {v : Value K}
    (hfound : found state exported hKey (K.cStr subKey) (K.cStr value) rrfRtRegSz = some v)
    (hfits : v.bytes.length / K.size ≤ maxSize) :
    ∃ rest dataSize trace', dataSize.toNat = v.bytes.length ∧
      (readString K (on api exported) maxSize hKey subKey value).run trace =
        .ok (chars K (v.bytes.length / K.size) (v.bytes ++ rest), dataSize) trace' := by
  obtain ⟨answer, hvalue, hanswers⟩ := valueAt_found hfollows (by decide) hfound none 0 trace.length
  have hret := hanswers.success.mpr (by simp)
  have hsize := (hanswers.gives hret).size
  rw [← hsize] at hfits
  obtain ⟨answer', hvalue', hanswers'⟩ := valueAt_found hfollows (by decide) hfound
    (some (stringBuffer K (answer.dataSize.toNat / K.size))) answer.dataSize
    (secondCall K (on api exported) hKey subKey trace.length)
  have hret' : answer'.retCode = errorSuccess := by
    apply hanswers'.success.mpr
    intro memory _
    rw [hsize]
  have hgives' := hanswers'.gives hret'
  obtain ⟨trace', hread⟩ := run_readString trace (granted_eq_some.mpr ⟨hvalue, hret⟩) hfits
    (granted_eq_some.mpr ⟨hvalue', hret'⟩)
  rw [(hgives'.read _ rfl).2, hsize] at hread
  exact ⟨_, answer'.dataSize, trace', hgives'.size, hread⟩

theorem run_regGetString_long (hfollows : Follows state api hKey (K.cStr subKey) (K.cStr value)) {v : Value K}
    (hfound : found state exported hKey (K.cStr subKey) (K.cStr value) rrfRtRegSz = some v)
    (hlong : maxSize < v.bytes.length / K.size) :
    ∃ trace, (regGetString K (on api exported) maxSize hKey subKey value).run [] =
      .error .lengthError trace := by
  obtain ⟨answer, hvalue, hanswers⟩ := valueAt_found hfollows (by decide) hfound none 0 0
  have hret := hanswers.success.mpr (by simp)
  rw [← (hanswers.gives hret).size] at hlong
  have hread := run_readString_long [] (granted_eq_some.mpr ⟨hvalue, hret⟩) hlong
  exact ⟨_, run_bind_error hread⟩

theorem regGetString_ne_registryError (hfollows : Follows state api hKey (K.cStr subKey) (K.cStr value)) {v : Value K}
    (hfound : found state exported hKey (K.cStr subKey) (K.cStr value) rrfRtRegSz = some v)
    (e : RegistryError) (trace : Trace HKey) :
    (regGetString K (on api exported) maxSize hKey subKey value).run [] ≠ .error (.registryError e) trace := by
  intro hrun
  by_cases hlong : maxSize < v.bytes.length / K.size
  · obtain ⟨trace', hthrown⟩ := run_regGetString_long maxSize hfollows hfound hlong
    rw [hthrown] at hrun
    cases hrun
  · obtain ⟨rest, dataSize, trace', _, hread⟩ := run_readString_found maxSize [] hfollows hfound (Nat.le_of_not_lt hlong)
    rw [regGetString, run_bind_ok hread] at hrun
    simp only [resized] at hrun
    split at hrun <;> cases hrun

theorem regGetString_same_iff (hfollows : Follows state api hKey (K.cStr subKey) (K.cStr value)) :
    SameOutcome (regGetString K (on api true) maxSize hKey subKey value)
        (regGetString K (on api false) maxSize hKey subKey value) ↔
      lookup state hKey (K.cStr subKey) (K.cStr value) = none ∨
        ∃ v, lookup state hKey (K.cStr subKey) (K.cStr value) = some v ∧ v.type = regSz ∧
          v.bytes.length / K.size ≤ maxSize := by
  cases hlookup : lookup state hKey (K.cStr subKey) (K.cStr value) with
  | none =>
    refine iff_of_true (.inl ?_) (.inl rfl)
    obtain ⟨e, trace, he⟩ := run_regGetString_missing maxSize [] hfollows (found_missing true rrfRtRegSz hlookup)
    obtain ⟨e', trace', he'⟩ := run_regGetString_missing maxSize [] hfollows (found_missing false rrfRtRegSz hlookup)
    exact ⟨e, e', trace, trace', he, he'⟩
  | some v =>
    have hfallback := (found_fallback rrfRtRegSz).trans hlookup
    have hexported : found state true hKey (K.cStr subKey) (K.cStr value) rrfRtRegSz =
        if v.type = regSz then some v else none := found_exported rrfRtRegSz hlookup
    by_cases htype : v.type = regSz
    · rw [if_pos htype] at hexported
      by_cases hlong : maxSize < v.bytes.length / K.size
      · refine iff_of_false ?_ ?_
        · obtain ⟨trace, hthrown⟩ := run_regGetString_long maxSize hfollows hexported hlong
          intro hsame
          exact hsame.ne_lengthError trace hthrown
        · rintro (hnone | ⟨_, ⟨⟩, _, hle⟩)
          · cases hnone
          · omega
      · have hfits := Nat.le_of_not_lt hlong
        have hne := (v.terminated htype).ne_zero
        refine iff_of_true (.inr ?_) (.inr ⟨v, rfl, htype, hfits⟩)
        obtain ⟨rest, _, trace, hsize, hread⟩ := run_readString_found maxSize [] hfollows hexported hfits
        obtain ⟨rest', _, trace', hsize', hread'⟩ := run_readString_found maxSize [] hfollows hfallback hfits
        exact ⟨_, trace, trace', run_regGetString hread hsize (Nat.le_refl _) hfits hne,
          run_regGetString hread' hsize' (Nat.le_refl _) hfits hne⟩
    · rw [if_neg htype] at hexported
      refine iff_of_false ?_ ?_
      · obtain ⟨e, trace, hthrown⟩ := run_regGetString_missing maxSize [] hfollows hexported
        intro hsame
        obtain ⟨e', trace', hrun⟩ := hsame.registryError hthrown
        exact regGetString_ne_registryError maxSize hfollows hfallback e' trace' hrun
      · rintro (hnone | ⟨_, ⟨⟩, hsz, _⟩)
        · cases hnone
        · exact htype hsz

end

section

variable {state : State wide} {api : Api WChar} {exported : Bool} {hKey : HKey} {subKey value : List WChar}

theorem run_regGetDWord_missing (hfollows : Follows state api hKey (wide.cStr subKey) (wide.cStr value))
    (hfound : found state exported hKey (wide.cStr subKey) (wide.cStr value) rrfRtRegDword = none) :
    ∃ e trace, (regGetDWord (on api exported) hKey subKey value).run [] = .error (.registryError e) trace := by
  have hnone := granted_none hfollows (by decide) hfound (some [0, 0, 0, 0]) 4 0
  obtain ⟨e, he⟩ := run_checked_none (on api exported) hKey _ _ rrfRtRegDword _ _
    "Can not read DWORD from registry" [] hnone
  exact ⟨e, _, run_bind_error he⟩

theorem run_regGetDWord_long (hfollows : Follows state api hKey (wide.cStr subKey) (wide.cStr value)) {v : Value wide}
    (hfound : found state exported hKey (wide.cStr subKey) (wide.cStr value) rrfRtRegDword = some v)
    (hlong : 4 < v.bytes.length) :
    ∃ e trace, (regGetDWord (on api exported) hKey subKey value).run [] = .error (.registryError e) trace := by
  obtain ⟨answer, hvalue, hanswers⟩ := valueAt_found hfollows (by decide) hfound (some [0, 0, 0, 0]) 4 0
  have hnone : granted (valueAt (on api exported) hKey (some (wide.cStr subKey)) (some (wide.cStr value))
      rrfRtRegDword (some [0, 0, 0, 0]) 4 0) = none := by
    apply Option.eq_none_iff_forall_ne_some.mpr
    intro other hother
    obtain ⟨hother, hret⟩ := granted_eq_some.mp hother
    rw [hvalue] at hother
    obtain rfl := Except.ok.inj hother
    have hle : v.bytes.length ≤ 4 := hanswers.success.mp hret _ rfl
    omega
  obtain ⟨e, he⟩ := run_checked_none (on api exported) hKey _ _ rrfRtRegDword _ _
    "Can not read DWORD from registry" [] hnone
  exact ⟨e, _, run_bind_error he⟩

theorem run_regGetDWord_found (hfollows : Follows state api hKey (wide.cStr subKey) (wide.cStr value)) {v : Value wide}
    (hfound : found state exported hKey (wide.cStr subKey) (wide.cStr value) rrfRtRegDword = some v)
    (hle : v.bytes.length ≤ 4) :
    ∃ trace, (regGetDWord (on api exported) hKey subKey value).run [] =
      .ok (dwordOf (v.bytes ++ List.drop v.bytes.length [0, 0, 0, 0])) trace := by
  obtain ⟨answer, hvalue, hanswers⟩ := valueAt_found hfollows (by decide) hfound (some [0, 0, 0, 0]) 4 0
  have hret := hanswers.success.mpr fun _ _ => hle
  have hread := run_checked_some (on api exported) hKey _ _ rrfRtRegDword _ _
    "Can not read DWORD from registry" [] (granted_eq_some.mpr ⟨hvalue, hret⟩)
  rw [← ((hanswers.gives hret).read _ rfl).2]
  exact ⟨_, run_bind_ok hread⟩

theorem regGetDWord_same_iff (hfollows : Follows state api hKey (wide.cStr subKey) (wide.cStr value)) :
    SameOutcome (regGetDWord (on api true) hKey subKey value) (regGetDWord (on api false) hKey subKey value) ↔
      lookup state hKey (wide.cStr subKey) (wide.cStr value) = none ∨
        ∃ v, lookup state hKey (wide.cStr subKey) (wide.cStr value) = some v ∧
          (v.type = regDword ∨ 4 < v.bytes.length) := by
  cases hlookup : lookup state hKey (wide.cStr subKey) (wide.cStr value) with
  | none =>
    refine iff_of_true (.inl ?_) (.inl rfl)
    obtain ⟨e, trace, he⟩ := run_regGetDWord_missing hfollows (found_missing true rrfRtRegDword hlookup)
    obtain ⟨e', trace', he'⟩ := run_regGetDWord_missing hfollows (found_missing false rrfRtRegDword hlookup)
    exact ⟨e, e', trace, trace', he, he'⟩
  | some v =>
    have hfallback := (found_fallback rrfRtRegDword).trans hlookup
    have hexported : found state true hKey (wide.cStr subKey) (wide.cStr value) rrfRtRegDword =
        if v.type = regDword then some v else none := found_exported rrfRtRegDword hlookup
    by_cases htype : v.type = regDword
    · rw [if_pos htype] at hexported
      refine iff_of_true ?_ (.inr ⟨v, rfl, .inl htype⟩)
      by_cases hlong : 4 < v.bytes.length
      · obtain ⟨e, trace, he⟩ := run_regGetDWord_long hfollows hexported hlong
        obtain ⟨e', trace', he'⟩ := run_regGetDWord_long hfollows hfallback hlong
        exact .inl ⟨e, e', trace, trace', he, he'⟩
      · obtain ⟨trace, hread⟩ := run_regGetDWord_found hfollows hexported (Nat.le_of_not_lt hlong)
        obtain ⟨trace', hread'⟩ := run_regGetDWord_found hfollows hfallback (Nat.le_of_not_lt hlong)
        exact .inr ⟨_, trace, trace', hread, hread'⟩
    · rw [if_neg htype] at hexported
      obtain ⟨e, trace, he⟩ := run_regGetDWord_missing hfollows hexported
      by_cases hlong : 4 < v.bytes.length
      · obtain ⟨e', trace', he'⟩ := run_regGetDWord_long hfollows hfallback hlong
        exact iff_of_true (.inl ⟨e, e', trace, trace', he, he'⟩) (.inr ⟨v, rfl, .inr hlong⟩)
      · obtain ⟨trace', hread⟩ := run_regGetDWord_found hfollows hfallback (Nat.le_of_not_lt hlong)
        refine iff_of_false ?_ ?_
        · intro hsame
          obtain ⟨e', trace'', hrun⟩ := hsame.registryError he
          rw [hread] at hrun
          cases hrun
        · rintro (hnone | ⟨_, ⟨⟩, hdword | hlen⟩)
          · cases hnone
          · exact htype hdword
          · exact hlong hlen

end

theorem same_outcome_iff {stateW : State wide} {stateA : State narrow} {apiW : Api WChar} {apiA : Api UInt8}
    (maxSizeW maxSizeA : ℕ) (hKey : HKey) (subKeyW valueW : List WChar) (subKeyA valueA : List UInt8)
    (hW : Follows stateW apiW hKey (wide.cStr subKeyW) (wide.cStr valueW))
    (hA : Follows stateA apiA hKey (narrow.cStr subKeyA) (narrow.cStr valueA)) :
    (SameOutcome (regGetDWord (on apiW true) hKey subKeyW valueW)
        (regGetDWord (on apiW false) hKey subKeyW valueW) ↔
      lookup stateW hKey (wide.cStr subKeyW) (wide.cStr valueW) = none ∨
        ∃ v, lookup stateW hKey (wide.cStr subKeyW) (wide.cStr valueW) = some v ∧
          (v.type = regDword ∨ 4 < v.bytes.length)) ∧
    (SameOutcome (regGetStringW (on apiW true) maxSizeW hKey subKeyW valueW)
        (regGetStringW (on apiW false) maxSizeW hKey subKeyW valueW) ↔
      lookup stateW hKey (wide.cStr subKeyW) (wide.cStr valueW) = none ∨
        ∃ v, lookup stateW hKey (wide.cStr subKeyW) (wide.cStr valueW) = some v ∧ v.type = regSz ∧
          v.bytes.length / 2 ≤ maxSizeW) ∧
    (SameOutcome (regGetStringA (on apiA true) maxSizeA hKey subKeyA valueA)
        (regGetStringA (on apiA false) maxSizeA hKey subKeyA valueA) ↔
      lookup stateA hKey (narrow.cStr subKeyA) (narrow.cStr valueA) = none ∨
        ∃ v, lookup stateA hKey (narrow.cStr subKeyA) (narrow.cStr valueA) = some v ∧ v.type = regSz ∧
          v.bytes.length / 1 ≤ maxSizeA) :=
  ⟨regGetDWord_same_iff hW, regGetString_same_iff maxSizeW hW, regGetString_same_iff maxSizeA hA⟩

section

variable {χ : Type} {K : CharType χ}

def constantly (v : Value K) : Api χ :=
  { holding v.bytes with
    regGetValue := fun _ _ _ _ dwFlags pvData cbData =>
      if v.type = lpTypeOf dwFlags then answerWith v.bytes pvData cbData else ⟨1630, [], 0⟩ }

theorem answerWith_answers (v : Value K) (pvData : Option (List UInt8)) (cbData : UInt32) :
    Answers v.bytes pvData cbData (answerWith v.bytes pvData cbData) := by
  constructor
  · cases pvData with
    | none => exact iff_of_true rfl (by simp)
    | some memory =>
      unfold answerWith
      by_cases hle : v.bytes.length ≤ cbData.toNat
      · simp [hle]
      · simp [hle, errorSuccess]
  · exact answerWith_gives v.fits

theorem constantly_follows (v : Value K) (hKey : HKey) (subKey value : List χ) :
    Follows (fun _ _ => some fun _ => some v) (constantly v) hKey subKey value where
  getValue := by
    rintro n dwFlags pvData cbData _ ⟨⟩ htype
    simp only [constantly, if_pos htype]
    exact answerWith_answers v pvData cbData
  getValue_error := by
    intro n dwFlags pvData cbData hother
    simp only [constantly, if_neg (hother v rfl)]
    decide
  openKey _ := iff_of_true rfl (by simp)
  queryValue := by
    rintro n lpType pvData cbData _ ⟨⟩
    exact answerWith_answers v pvData cbData
  queryValue_error := by
    rintro _ _ _ _ ⟨⟩

end

def binaryOne : Value wide := ⟨3, [1, 0, 0, 0], by decide, by decide⟩

def stringA : Value narrow := ⟨regSz, [97, 0], by decide, by decide⟩

theorem same_outcome_binary :
    (SameOutcome (regGetDWord (on (constantly binaryOne) true) 1 [115] [118])
        (regGetDWord (on (constantly binaryOne) false) 1 [115] [118]) ↔
      some binaryOne = none ∨ ∃ v, some binaryOne = some v ∧ (v.type = regDword ∨ 4 < v.bytes.length)) ∧
    (SameOutcome (regGetStringW (on (constantly binaryOne) true) 100 1 [115] [118])
        (regGetStringW (on (constantly binaryOne) false) 100 1 [115] [118]) ↔
      some binaryOne = none ∨
        ∃ v, some binaryOne = some v ∧ v.type = regSz ∧ v.bytes.length / 2 ≤ 100) ∧
    (SameOutcome (regGetStringA (on (constantly stringA) true) 100 1 [115] [118])
        (regGetStringA (on (constantly stringA) false) 100 1 [115] [118]) ↔
      some stringA = none ∨ ∃ v, some stringA = some v ∧ v.type = regSz ∧ v.bytes.length / 1 ≤ 100) :=
  same_outcome_iff 100 100 1 [115] [118] [115] [118] (constantly_follows binaryOne 1 _ _)
    (constantly_follows stringA 1 _ _)

theorem binary_read_as_dword :
    Follows (fun _ _ => some fun _ => some binaryOne) (constantly binaryOne) 1 [115] [118] ∧
    (∃ trace, (regGetDWord (on (constantly binaryOne) true) 1 [115] [118]).run [] =
      .error (.registryError ⟨"Can not read DWORD from registry", 1630⟩) trace) ∧
    (∃ trace, (regGetDWord (on (constantly binaryOne) false) 1 [115] [118]).run [] = .ok 1 trace) ∧
    ¬ SameOutcome (regGetDWord (on (constantly binaryOne) true) 1 [115] [118])
      (regGetDWord (on (constantly binaryOne) false) 1 [115] [118]) := by
  have hexported : (regGetDWord (on (constantly binaryOne) true) 1 [115] [118]).run [] =
      .error (.registryError ⟨"Can not read DWORD from registry", 1630⟩) _ := rfl
  have hfallback : (regGetDWord (on (constantly binaryOne) false) 1 [115] [118]).run [] = .ok 1 _ := rfl
  refine ⟨constantly_follows binaryOne 1 _ _, ⟨_, hexported⟩, ⟨_, hfallback⟩, ?_⟩
  intro hsame
  obtain ⟨e, trace, hrun⟩ := hsame.registryError hexported
  rw [hfallback] at hrun
  cases hrun

end SysUtils.Registry

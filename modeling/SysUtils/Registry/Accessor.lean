import SysUtils.Registry.Api

namespace SysUtils.Registry

open Resources

def rrfRtRegSz : UInt32 := 2

def rrfRtRegDword : UInt32 := 0x10

def regSz : UInt32 := 1

def regDword : UInt32 := 4

def lpTypeOf (dwFlags : UInt32) : UInt32 :=
  if dwFlags = rrfRtRegSz then regSz else if dwFlags = rrfRtRegDword then regDword else 0

section

variable {χ : Type} (api : Api χ)

def subKeyHandle (hkey : HKey) : Option (List χ) → Session HKey
  | none => pure hkey
  | some lpSubKey => do
      let answer ← openKey api hkey lpSubKey keyRead
      if answer.1 ≠ errorSuccess then throw (.registryError ⟨"Registry key open error", answer.1⟩)
      else pure answer.2

def closeKey (hkey : HKey) : Session Unit := if hkey ≠ null then closing hkey else pure ()

section

variable (hkey : HKey) (lpSubKey lpValue : Option (List χ)) (dwFlags : UInt32) (pvData : Option (List UInt8))
  (cbData : UInt32)

def regGetValueSp : Session ValueAnswer :=
  if api.exportsRegGetValue then ask fun n => api.regGetValue n hkey lpSubKey lpValue dwFlags pvData cbData
  else
    -- XP 32 bit
    let lpType := lpTypeOf dwFlags
    if lpType = 0 then throw (.registryError ⟨"Unimplement reg type", 0⟩)
    else do
      let subNewHkey ← subKeyHandle api hkey lpSubKey
      let answer ← ask fun n => api.regQueryValueEx n subNewHkey lpValue lpType pvData cbData
      closeKey subNewHkey
      pure answer

def valueAt (n : ℕ) : Except Thrown ValueAnswer :=
  if api.exportsRegGetValue then .ok (api.regGetValue n hkey lpSubKey lpValue dwFlags pvData cbData)
  else if lpTypeOf dwFlags = 0 then .error (.registryError ⟨"Unimplement reg type", 0⟩)
  else
    match lpSubKey with
    | none => .ok (api.regQueryValueEx n hkey lpValue (lpTypeOf dwFlags) pvData cbData)
    | some subKey =>
        let answer := api.regOpenKeyEx n hkey subKey keyRead
        if answer.1 ≠ errorSuccess then .error (.registryError ⟨"Registry key open error", answer.1⟩)
        else .ok (api.regQueryValueEx (n + 1) answer.2 lpValue (lpTypeOf dwFlags) pvData cbData)

def valueEvents (n : ℕ) : Trace HKey :=
  if api.exportsRegGetValue then [.other]
  else if lpTypeOf dwFlags = 0 then []
  else
    match lpSubKey with
    | none => if hkey ≠ null then [.closed hkey, .other] else [.other]
    | some subKey =>
        let answer := api.regOpenKeyEx n hkey subKey keyRead
        if answer.1 ≠ errorSuccess then [.other] else [.closed answer.2, .other, .opened answer.2]

theorem run_closeKey (trace : Trace HKey) : (closeKey hkey).run trace =
    .ok () (if hkey ≠ null then .closed hkey :: trace else trace) := by
  unfold closeKey
  split <;> rfl

theorem run_subKeyHandle_ok {subKey : List χ} {trace : Trace HKey}
    (hopen : (api.regOpenKeyEx trace.length hkey subKey keyRead).1 = errorSuccess) :
    (subKeyHandle api hkey (some subKey)).run trace =
      .ok (api.regOpenKeyEx trace.length hkey subKey keyRead).2
        (.opened (api.regOpenKeyEx trace.length hkey subKey keyRead).2 :: trace) := by
  unfold subKeyHandle
  rw [run_bind_ok (run_openKey_ok api trace hopen), if_neg (not_not_intro hopen)]
  rfl

theorem run_subKeyHandle_error {subKey : List χ} {trace : Trace HKey}
    (hopen : (api.regOpenKeyEx trace.length hkey subKey keyRead).1 ≠ errorSuccess) :
    (subKeyHandle api hkey (some subKey)).run trace =
      .error (.registryError ⟨"Registry key open error",
        (api.regOpenKeyEx trace.length hkey subKey keyRead).1⟩) (.other :: trace) := by
  unfold subKeyHandle
  rw [run_bind_ok (run_openKey_error api trace hopen), if_pos hopen]
  rfl

theorem run_regGetValueSp (trace : Trace HKey) :
    (regGetValueSp api hkey lpSubKey lpValue dwFlags pvData cbData).run trace =
      ended (valueAt api hkey lpSubKey lpValue dwFlags pvData cbData trace.length)
        (valueEvents api hkey lpSubKey dwFlags trace.length) trace := by
  unfold regGetValueSp valueAt valueEvents
  by_cases hexport : api.exportsRegGetValue
  · simp only [if_pos hexport]
    rfl
  by_cases htype : lpTypeOf dwFlags = 0
  · simp only [if_neg hexport, if_pos htype]
    rfl
  simp only [if_neg hexport, if_neg htype]
  cases lpSubKey with
  | none =>
    rw [run_bind_ok (x := subKeyHandle api hkey none) rfl, run_bind_ok (run_ask _ trace),
      run_bind_ok (run_closeKey hkey _)]
    split <;> rfl
  | some subKey =>
    by_cases hopen : (api.regOpenKeyEx trace.length hkey subKey keyRead).1 = errorSuccess
    · have hne := api.opened_ne_null trace.length hkey subKey keyRead hopen
      rw [run_bind_ok (run_subKeyHandle_ok api hkey hopen), run_bind_ok (run_ask _ _),
        run_bind_ok (run_closeKey _ _)]
      simp only [if_pos hne, if_neg (not_not_intro hopen)]
      rfl
    · rw [run_bind_error (run_subKeyHandle_error api hkey hopen)]
      simp only [if_pos hopen]
      rfl

end

theorem valueAt_opened (hexport : ¬ api.exportsRegGetValue = true) (hkey : HKey) {subKey : List χ} {dwFlags : UInt32}
    (hflags : lpTypeOf dwFlags ≠ 0) {n : ℕ} (hopen : (api.regOpenKeyEx n hkey subKey keyRead).1 = errorSuccess)
    (lpValue : Option (List χ)) (pvData : Option (List UInt8)) (cbData : UInt32) :
    valueAt api hkey (some subKey) lpValue dwFlags pvData cbData n =
      .ok (api.regQueryValueEx (n + 1) (api.regOpenKeyEx n hkey subKey keyRead).2 lpValue (lpTypeOf dwFlags)
        pvData cbData) := by
  unfold valueAt
  simp only [if_neg hexport, if_neg hflags, if_neg (not_not_intro hopen)]

theorem valueAt_unopened (hexport : ¬ api.exportsRegGetValue = true) (hkey : HKey) {subKey : List χ}
    {dwFlags : UInt32} (hflags : lpTypeOf dwFlags ≠ 0) {n : ℕ}
    (hopen : (api.regOpenKeyEx n hkey subKey keyRead).1 ≠ errorSuccess)
    (lpValue : Option (List χ)) (pvData : Option (List UInt8)) (cbData : UInt32) :
    valueAt api hkey (some subKey) lpValue dwFlags pvData cbData n =
      .error (.registryError ⟨"Registry key open error", (api.regOpenKeyEx n hkey subKey keyRead).1⟩) := by
  unfold valueAt
  simp only [if_neg hexport, if_neg hflags, if_pos hopen]

theorem valueAt_ne_lengthError (hkey : HKey) (lpSubKey lpValue : Option (List χ)) (dwFlags : UInt32)
    (pvData : Option (List UInt8)) (cbData : UInt32) (n : ℕ) :
    valueAt api hkey lpSubKey lpValue dwFlags pvData cbData n ≠ .error .lengthError := by
  unfold valueAt
  split
  · rintro ⟨⟩
  · split
    · rintro ⟨⟩
    · split
      · rintro ⟨⟩
      · simp only
        split <;> rintro ⟨⟩

end

def regGetValueASp : Api UInt8 → HKey → Option (List UInt8) → Option (List UInt8) → UInt32 →
    Option (List UInt8) → UInt32 → Session ValueAnswer := regGetValueSp

def regGetValueWSp : Api WChar → HKey → Option (List WChar) → Option (List WChar) → UInt32 →
    Option (List UInt8) → UInt32 → Session ValueAnswer := regGetValueSp

structure CharType (χ : Type) where
  size : ℕ
  pos : 0 < size
  nul : χ
  ofBytes : List UInt8 → χ

def narrow : CharType UInt8 := ⟨1, by decide, 0, fun bytes => bytes.headD 0⟩

def wide : CharType WChar :=
  ⟨2, by decide, 0, fun bytes => UInt16.ofNat ((bytes.headD 0).toNat + 256 * (bytes.getD 1 0).toNat)⟩

def granted : Except Thrown ValueAnswer → Option ValueAnswer
  | .ok answer => if answer.retCode = errorSuccess then some answer else none
  | .error _ => none

def checked (message : String) (x : Session ValueAnswer) : Session ValueAnswer := do
  let answer ← x
  if answer.retCode ≠ errorSuccess then throw (.registryError ⟨message, answer.retCode⟩) else pure answer

section

variable {χ : Type} (K : CharType χ)

def chars (n : ℕ) (memory : List UInt8) : List χ :=
  (List.range n).map fun i => K.ofBytes ((memory.drop (i * K.size)).take K.size)

def resized (maxSize : ℕ) (data : List χ) (n : ℕ) : Session (List χ) :=
  if n > maxSize then throw .lengthError
  else pure (data.take n ++ List.replicate (n - data.length) K.nul)

def stringBuffer (n : ℕ) : List UInt8 := List.replicate ((n + 1) * K.size) 0

variable [DecidableEq χ]

def CharType.cStr (s : List χ) : List χ := s.takeWhile fun c => c ≠ K.nul

variable (api : Api χ) (maxSize : ℕ) (hKey : HKey) (subKey value : List χ)

def getString (pvData : Option (List UInt8)) (cbData : UInt32) : Session ValueAnswer :=
  checked "Can not read string from registry"
    (regGetValueSp api hKey (some (K.cStr subKey)) (some (K.cStr value)) rrfRtRegSz pvData cbData)

def readString : Session (List χ × UInt32) := do
  let answer ← getString K api hKey subKey value none 0
  let data ← resized K maxSize [] (answer.dataSize.toNat / K.size)
  let answer ← getString K api hKey subKey value (some (stringBuffer K data.length)) answer.dataSize
  pure (chars K data.length answer.memory, answer.dataSize)

def regGetString : Session (List χ) := do
  let read ← readString K api maxSize hKey subKey value
  -- a `DWORD`, as the size is
  let stringLength := UInt32.ofNat (read.2.toNat / K.size) - 1
  resized K maxSize read.1 stringLength.toNat

end

def regGetStringW : Api WChar → ℕ → HKey → List WChar → List WChar → Session (List WChar) :=
  regGetString wide

def regGetStringA : Api UInt8 → ℕ → HKey → List UInt8 → List UInt8 → Session (List UInt8) :=
  regGetString narrow

def dwordOf (memory : List UInt8) : UInt32 :=
  (memory.take 4).foldr (fun b n => UInt32.ofNat b.toNat + 256 * n) 0

def regGetDWord (api : Api WChar) (hKey : HKey) (subKey value : List WChar) : Session UInt32 := do
  let answer ← checked "Can not read DWORD from registry"
    (regGetValueSp api hKey (some (wide.cStr subKey)) (some (wide.cStr value)) rrfRtRegDword
      (some [0, 0, 0, 0]) 4)
  pure (dwordOf answer.memory)

theorem keeps_regGetValueSp {χ : Type} (api : Api χ) (hkey : HKey) (lpSubKey : List χ) (lpValue : Option (List χ)) (dwFlags : UInt32)
    (pvData : Option (List UInt8)) (cbData : UInt32) :
    Keeps (regGetValueSp api hkey (some lpSubKey) lpValue dwFlags pvData cbData) := by
  intro trace held
  rw [run_regGetValueSp, final_ended]
  unfold valueEvents
  split
  · rfl
  · split
    · rfl
    · simp only
      split
      · rfl
      · exact settle_closed rfl

theorem keeps_checked {message : String} {x : Session ValueAnswer} (hx : Keeps x) : Keeps (checked message x) := by
  apply hx.bind
  intro answer
  split
  · exact keeps_throw _
  · exact keeps_pure _

theorem granted_eq_some {outcome : Except Thrown ValueAnswer} {answer : ValueAnswer} :
    granted outcome = some answer ↔ outcome = .ok answer ∧ answer.retCode = errorSuccess := by
  cases outcome with
  | error e => simp [granted]
  | ok a =>
    have hgranted : granted (.ok a) = if a.retCode = errorSuccess then some a else none := rfl
    rw [hgranted]
    constructor
    · intro h
      split at h
      · obtain rfl := Option.some.inj h
        exact ⟨rfl, by assumption⟩
      · cases h
    · rintro ⟨⟨⟩, hret⟩
      exact if_pos hret

section

variable {χ : Type} (api : Api χ) (hkey : HKey) (lpSubKey lpValue : Option (List χ)) (dwFlags : UInt32)
  (pvData : Option (List UInt8)) (cbData : UInt32) (message : String) (trace : Trace HKey)

theorem run_checked_some {answer : ValueAnswer}
    (h : granted (valueAt api hkey lpSubKey lpValue dwFlags pvData cbData trace.length) = some answer) :
    (checked message (regGetValueSp api hkey lpSubKey lpValue dwFlags pvData cbData)).run trace =
      .ok answer (valueEvents api hkey lpSubKey dwFlags trace.length ++ trace) := by
  obtain ⟨hvalue, hret⟩ := granted_eq_some.mp h
  have hrun := run_regGetValueSp api hkey lpSubKey lpValue dwFlags pvData cbData trace
  rw [hvalue] at hrun
  unfold checked
  rw [run_bind_ok hrun, if_neg (not_not_intro hret)]
  rfl

theorem run_checked_none
    (h : granted (valueAt api hkey lpSubKey lpValue dwFlags pvData cbData trace.length) = none) :
    ∃ e, (checked message (regGetValueSp api hkey lpSubKey lpValue dwFlags pvData cbData)).run trace =
      .error (.registryError e) (valueEvents api hkey lpSubKey dwFlags trace.length ++ trace) := by
  have hrun := run_regGetValueSp api hkey lpSubKey lpValue dwFlags pvData cbData trace
  cases hvalue : valueAt api hkey lpSubKey lpValue dwFlags pvData cbData trace.length with
  | error e =>
    rw [hvalue] at hrun
    unfold checked
    rw [run_bind_error hrun]
    cases e with
    | registryError e => exact ⟨e, rfl⟩
    | lengthError => exact (valueAt_ne_lengthError _ _ _ _ _ _ _ _ hvalue).elim
  | ok a =>
    have hret : a.retCode ≠ errorSuccess := by
      intro hret
      rw [granted_eq_some.mpr ⟨hvalue, hret⟩] at h
      cases h
    rw [hvalue] at hrun
    refine ⟨⟨message, a.retCode⟩, ?_⟩
    unfold checked
    rw [run_bind_ok hrun, if_pos hret]
    rfl

end

section

variable {χ : Type} (K : CharType χ) {maxSize : ℕ}

theorem run_resized {n : ℕ} (data : List χ) (trace : Trace HKey) (h : n ≤ maxSize) :
    (resized K maxSize data n).run trace =
      .ok (data.take n ++ List.replicate (n - data.length) K.nul) trace := by
  unfold resized
  rw [if_neg (Nat.not_lt.mpr h)]
  rfl

theorem run_resized_error {n : ℕ} (data : List χ) (trace : Trace HKey) (h : maxSize < n) :
    (resized K maxSize data n).run trace = .error .lengthError trace := by
  unfold resized
  rw [if_pos h]
  rfl

theorem keeps_resized (data : List χ) (n : ℕ) : Keeps (resized K maxSize data n) := by
  unfold resized
  split
  · exact keeps_throw _
  · exact keeps_pure _

variable [DecidableEq χ] (api : Api χ) (hKey : HKey) (subKey value : List χ)

def stringAt (pvData : Option (List UInt8)) (cbData : UInt32) (n : ℕ) : Option ValueAnswer :=
  granted (valueAt api hKey (some (K.cStr subKey)) (some (K.cStr value)) rrfRtRegSz pvData cbData n)

def stringEvents (n : ℕ) : Trace HKey := valueEvents api hKey (some (K.cStr subKey)) rrfRtRegSz n

def secondCall (n : ℕ) : ℕ := (stringEvents K api hKey subKey n).length + n

def dataAt (answer : ValueAnswer) (n : ℕ) : Option ValueAnswer :=
  stringAt K api hKey subKey value (some (stringBuffer K (answer.dataSize.toNat / K.size))) answer.dataSize n

def FitsAt (maxSize n : ℕ) : Prop :=
  ∀ answer, stringAt K api hKey subKey value none 0 n = some answer →
    answer.dataSize.toNat / K.size ≤ maxSize ∧
    ∀ answer', dataAt K api hKey subKey value answer (secondCall K api hKey subKey n) = some answer' →
      (UInt32.ofNat (answer'.dataSize.toNat / K.size) - 1).toNat ≤ maxSize

variable {K api hKey subKey value} (trace : Trace HKey) {answer answer' : ValueAnswer}

theorem secondCall_eq : secondCall K api hKey subKey trace.length =
    (stringEvents K api hKey subKey trace.length ++ trace).length := List.length_append.symm

theorem run_readString_denied (maxSize : ℕ)
    (h : stringAt K api hKey subKey value none 0 trace.length = none) :
    ∃ e, (readString K api maxSize hKey subKey value).run trace =
      .error (.registryError e) (stringEvents K api hKey subKey trace.length ++ trace) := by
  obtain ⟨e, he⟩ := run_checked_none api hKey _ _ rrfRtRegSz none 0 "Can not read string from registry" trace h
  exact ⟨e, run_bind_error he⟩

theorem run_readString_long (h : stringAt K api hKey subKey value none 0 trace.length = some answer)
    (hlong : maxSize < answer.dataSize.toNat / K.size) :
    (readString K api maxSize hKey subKey value).run trace =
      .error .lengthError (stringEvents K api hKey subKey trace.length ++ trace) := by
  have hsize := run_checked_some api hKey _ _ rrfRtRegSz none 0 "Can not read string from registry" trace h
  unfold readString getString
  rw [run_bind_ok hsize, run_bind_error (run_resized_error K [] _ hlong)]
  rfl

theorem run_readString_second (h : stringAt K api hKey subKey value none 0 trace.length = some answer)
    (hfits : answer.dataSize.toNat / K.size ≤ maxSize) {trace' : Trace HKey}
    (htrace : trace' = stringEvents K api hKey subKey trace.length ++ trace) :
    (readString K api maxSize hKey subKey value).run trace =
      ((do
        let answer' ← getString K api hKey subKey value
          (some (stringBuffer K (answer.dataSize.toNat / K.size))) answer.dataSize
        pure (chars K (answer.dataSize.toNat / K.size) answer'.memory, answer'.dataSize) :
          Session (List χ × UInt32))).run trace' := by
  have hsize := run_checked_some api hKey _ _ rrfRtRegSz none 0 "Can not read string from registry" trace h
  subst htrace
  unfold readString
  rw [getString, run_bind_ok hsize, run_bind_ok (run_resized K [] _ hfits)]
  simp only [List.take_nil, List.nil_append, List.length_nil, Nat.sub_zero, List.length_replicate]
  rfl

theorem run_readString_unread (h : stringAt K api hKey subKey value none 0 trace.length = some answer)
    (hfits : answer.dataSize.toNat / K.size ≤ maxSize)
    (h' : dataAt K api hKey subKey value answer (secondCall K api hKey subKey trace.length) = none) :
    ∃ e trace', (readString K api maxSize hKey subKey value).run trace = .error (.registryError e) trace' := by
  rw [secondCall_eq] at h'
  obtain ⟨e, he⟩ := run_checked_none api hKey _ _ rrfRtRegSz _ _ "Can not read string from registry" _ h'
  exact ⟨e, _, (run_readString_second trace h hfits rfl).trans (run_bind_error he)⟩

theorem run_readString (h : stringAt K api hKey subKey value none 0 trace.length = some answer)
    (hfits : answer.dataSize.toNat / K.size ≤ maxSize)
    (h' : dataAt K api hKey subKey value answer (secondCall K api hKey subKey trace.length) = some answer') :
    ∃ trace', (readString K api maxSize hKey subKey value).run trace =
      .ok (chars K (answer.dataSize.toNat / K.size) answer'.memory, answer'.dataSize) trace' := by
  rw [secondCall_eq] at h'
  have hread := run_checked_some api hKey _ _ rrfRtRegSz _ _ "Can not read string from registry" _ h'
  exact ⟨_, (run_readString_second trace h hfits rfl).trans (run_bind_ok hread)⟩

variable (K api hKey subKey value) in
theorem readString_cases (maxSize : ℕ) :
    (stringAt K api hKey subKey value none 0 trace.length = none ∧ ∃ e trace',
      (readString K api maxSize hKey subKey value).run trace = .error (.registryError e) trace') ∨
    ∃ answer, stringAt K api hKey subKey value none 0 trace.length = some answer ∧
      ((maxSize < answer.dataSize.toNat / K.size ∧ ∃ trace',
          (readString K api maxSize hKey subKey value).run trace = .error .lengthError trace') ∨
        answer.dataSize.toNat / K.size ≤ maxSize ∧
          ((dataAt K api hKey subKey value answer (secondCall K api hKey subKey trace.length) = none ∧
              ∃ e trace', (readString K api maxSize hKey subKey value).run trace =
                .error (.registryError e) trace') ∨
            ∃ answer' trace',
              dataAt K api hKey subKey value answer (secondCall K api hKey subKey trace.length) = some answer' ∧
              (readString K api maxSize hKey subKey value).run trace =
                .ok (chars K (answer.dataSize.toNat / K.size) answer'.memory, answer'.dataSize) trace')) := by
  cases h : stringAt K api hKey subKey value none 0 trace.length with
  | none =>
    obtain ⟨e, he⟩ := run_readString_denied trace maxSize h
    exact .inl ⟨rfl, e, _, he⟩
  | some answer =>
    refine .inr ⟨answer, rfl, ?_⟩
    by_cases hlong : maxSize < answer.dataSize.toNat / K.size
    · exact .inl ⟨hlong, _, run_readString_long trace h hlong⟩
    · have hfits := Nat.le_of_not_lt hlong
      refine .inr ⟨hfits, ?_⟩
      cases h' : dataAt K api hKey subKey value answer (secondCall K api hKey subKey trace.length) with
      | none => exact .inl ⟨rfl, run_readString_unread trace h hfits h'⟩
      | some answer' =>
        obtain ⟨trace', hread⟩ := run_readString trace h hfits h'
        exact .inr ⟨answer', trace', rfl, hread⟩

theorem readString_inv {read : List χ × UInt32} {trace' : Trace HKey}
    (hrun : (readString K api maxSize hKey subKey value).run trace = .ok read trace') :
    ∃ answer answer', stringAt K api hKey subKey value none 0 trace.length = some answer ∧
      answer.dataSize.toNat / K.size ≤ maxSize ∧
      dataAt K api hKey subKey value answer (secondCall K api hKey subKey trace.length) = some answer' ∧
      read = (chars K (answer.dataSize.toNat / K.size) answer'.memory, answer'.dataSize) := by
  obtain ⟨_, _, _, he⟩ | ⟨answer, h, ⟨_, _, he⟩ | ⟨hfits, ⟨_, _, _, he⟩ | ⟨answer', _, h', hread⟩⟩⟩ :=
    readString_cases K api hKey subKey value trace maxSize
  · rw [he] at hrun
    cases hrun
  · rw [he] at hrun
    cases hrun
  · rw [he] at hrun
    cases hrun
  · rw [hread] at hrun
    cases hrun
    exact ⟨answer, answer', h, hfits, h', rfl⟩

theorem regGetString_fits_iff : (∀ trace',
    (regGetString K api maxSize hKey subKey value).run trace ≠ .error .lengthError trace') ↔
      FitsAt K api hKey subKey value maxSize trace.length := by
  unfold FitsAt regGetString
  obtain ⟨h, _, _, he⟩ | ⟨answer, h, ⟨hlong, _, he⟩ | ⟨hfits, ⟨h', _, _, he⟩ | ⟨answer', _, h', hread⟩⟩⟩ :=
    readString_cases K api hKey subKey value trace maxSize
  · rw [run_bind_error he, h]
    exact iff_of_true (by rintro _ ⟨⟩) (by rintro _ ⟨⟩)
  · rw [run_bind_error he]
    refine iff_of_false (fun hall => hall _ rfl) ?_
    intro hall
    exact Nat.not_le.mpr hlong (hall answer h).1
  · rw [run_bind_error he, h]
    refine iff_of_true (by rintro _ ⟨⟩) ?_
    rintro _ ⟨⟩
    refine ⟨hfits, ?_⟩
    rw [h']
    rintro _ ⟨⟩
  · rw [run_bind_ok hread, h]
    simp only
    by_cases hlast : maxSize < (UInt32.ofNat (answer'.dataSize.toNat / K.size) - 1).toNat
    · rw [run_resized_error K _ _ hlast]
      refine iff_of_false (fun hall => hall _ rfl) ?_
      intro hall
      exact Nat.not_le.mpr hlast ((hall answer rfl).2 answer' h')
    · rw [run_resized K _ _ (Nat.le_of_not_lt hlast)]
      refine iff_of_true (by rintro _ ⟨⟩) ?_
      rintro _ ⟨⟩
      refine ⟨hfits, ?_⟩
      rw [h']
      rintro _ ⟨⟩
      exact Nat.le_of_not_lt hlast

theorem keeps_regGetString : Keeps (regGetString K api maxSize hKey subKey value) := by
  have hget (pvData : Option (List UInt8)) (cbData : UInt32) :
      Keeps (getString K api hKey subKey value pvData cbData) :=
    keeps_checked (keeps_regGetValueSp _ _ _ _ _ _ _)
  apply Keeps.bind
  · apply (hget _ _).bind
    intro answer
    apply (keeps_resized K _ _).bind
    intro data
    apply (hget _ _).bind
    intro answer'
    exact keeps_pure _
  · intro read
    exact keeps_resized K _ _

end

end SysUtils.Registry

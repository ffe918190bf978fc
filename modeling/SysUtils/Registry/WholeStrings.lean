import SysUtils.Registry.Accessor

namespace SysUtils.Registry

open Resources

section

variable {χ : Type} (K : CharType χ)

def charsOf (bytes : List UInt8) : List χ := chars K (bytes.length / K.size) bytes

def EndsNul (bytes : List UInt8) : Prop := (charsOf K bytes).getLast? = some K.nul

instance [DecidableEq χ] (bytes : List UInt8) : Decidable (EndsNul K bytes) := by
  unfold EndsNul
  infer_instance

variable [DecidableEq χ]

def stored (bytes : List UInt8) : List χ :=
  if EndsNul K bytes then (charsOf K bytes).dropLast else charsOf K bytes

structure Gives (bytes : List UInt8) (pvData : Option (List UInt8)) (cbData : UInt32) (answer : ValueAnswer) :
    Prop where
  size : answer.dataSize.toNat = bytes.length
  read : ∀ memory, pvData = some memory →
    bytes.length ≤ cbData.toNat ∧ answer.memory = bytes ++ memory.drop bytes.length

variable (api : Api χ) (maxSize : ℕ) (hKey : HKey) (subKey value : List χ) (content : ℕ → List UInt8)

/-- A value that holds the bytes `content n` when `n` calls were made before. Where the calls succeed,
`RegGetValue` supplies a missing terminator, and `RegQueryValueEx` gives what is stored. -/
structure Serves : Prop where
  getValue : ∀ n pvData cbData answer,
    api.regGetValue n hKey (some (K.cStr subKey)) (some (K.cStr value)) rrfRtRegSz pvData cbData = answer →
    answer.retCode = errorSuccess →
    ∃ bytes, charsOf K bytes = stored K (content n) ++ [K.nul] ∧ Gives bytes pvData cbData answer
  queryValue : ∀ n pvData cbData h answer,
    api.regOpenKeyEx n hKey (K.cStr subKey) keyRead = (errorSuccess, h) →
    api.regQueryValueEx (n + 1) h (some (K.cStr value)) regSz pvData cbData = answer →
    answer.retCode = errorSuccess → Gives (content (n + 1)) pvData cbData answer

def lastRead : ℕ := if api.exportsRegGetValue then 1 else 4

structure Whole : Prop where
  whole : ∀ s trace, (regGetString K api maxSize hKey subKey value).run [] = .ok s trace →
    s = stored K (content (lastRead api))
  noWrap : ∀ data dataSize trace,
    (readString K api maxSize hKey subKey value).run [] = .ok (data, dataSize) trace →
    dataSize.toNat / K.size ≠ 0

def BothRead : Prop :=
  ∃ answer answer', stringAt K api hKey subKey value none 0 0 = some answer ∧
    answer.dataSize.toNat / K.size ≤ maxSize ∧ dataAt K api hKey subKey value answer 3 = some answer'

variable {K api maxSize hKey subKey value content}

omit [DecidableEq χ] in
theorem length_charsOf (bytes : List UInt8) : (charsOf K bytes).length = bytes.length / K.size := by
  simp [charsOf, chars]

omit [DecidableEq χ] in
theorem EndsNul.ne_zero {bytes : List UInt8} (h : EndsNul K bytes) : bytes.length / K.size ≠ 0 := by
  intro hzero
  rw [← length_charsOf] at hzero
  rw [EndsNul, List.length_eq_zero_iff.mp hzero] at h
  cases h

omit [DecidableEq χ] in
theorem take_chars {m n : ℕ} (hle : m ≤ n) (memory : List UInt8) :
    (chars K n memory).take m = chars K m memory := by
  unfold chars
  rw [← List.map_take, List.take_range, Nat.min_eq_left hle]

omit [DecidableEq χ] in
theorem chars_append (bytes rest : List UInt8) :
    chars K (bytes.length / K.size) (bytes ++ rest) = charsOf K bytes := by
  apply List.map_congr_left
  intro i hi
  have hlt := List.mem_range.mp hi
  have hend : (i + 1) * K.size ≤ bytes.length := by
    calc (i + 1) * K.size ≤ bytes.length / K.size * K.size := Nat.mul_le_mul_right K.size hlt
      _ ≤ bytes.length := Nat.div_mul_le_self ..
  rw [Nat.succ_mul] at hend
  rw [List.drop_append_of_le_length (by omega), List.take_append_of_le_length]
  rw [List.length_drop]
  omega

theorem stored_of_endsNul {bytes : List UInt8} (h : EndsNul K bytes) :
    stored K bytes = (charsOf K bytes).dropLast := if_pos h

theorem endsNul_of_stored {bytes : List UInt8} (hne : bytes.length / K.size ≠ 0)
    (h : (charsOf K bytes).dropLast = stored K bytes) : EndsNul K bytes := by
  by_contra hnot
  have hlength := congrArg List.length h
  unfold stored at hlength
  rw [if_neg hnot, List.length_dropLast, length_charsOf] at hlength
  omega

theorem run_regGetString {bytes rest : List UInt8} {n : ℕ} {dataSize : UInt32} {trace trace' : Trace HKey}
    (hread : (readString K api maxSize hKey subKey value).run trace =
      .ok (chars K n (bytes ++ rest), dataSize) trace')
    (hsize : dataSize.toNat = bytes.length) (hle : bytes.length / K.size ≤ n) (hn : n ≤ maxSize)
    (hne : bytes.length / K.size ≠ 0) :
    (regGetString K api maxSize hKey subKey value).run trace = .ok (charsOf K bytes).dropLast trace' := by
  have hcount : dataSize.toNat / K.size < 2 ^ 32 := (Nat.div_le_self _ _).trans_lt dataSize.toNat_lt
  have hlength : (UInt32.ofNat (dataSize.toNat / K.size) - 1).toNat = bytes.length / K.size - 1 := by
    rw [hsize] at hcount ⊢
    have hone : (1 : UInt32) ≤ UInt32.ofNat (bytes.length / K.size) := by
      rw [UInt32.le_iff_toNat_le, UInt32.toNat_ofNat_of_lt' hcount]
      exact Nat.one_le_iff_ne_zero.mpr hne
    rw [UInt32.toNat_sub_of_le _ _ hone, UInt32.toNat_ofNat_of_lt' hcount]
    rfl
  have hlast : bytes.length / K.size - 1 ≤ n := (Nat.sub_le _ _).trans hle
  have htake : (chars K n (bytes ++ rest)).take (bytes.length / K.size - 1) = (charsOf K bytes).dropLast := by
    rw [List.dropLast_eq_take, length_charsOf, ← chars_append bytes rest, take_chars hlast,
      take_chars (Nat.sub_le _ _)]
  have hfull : bytes.length / K.size - 1 - (chars K n (bytes ++ rest)).length = 0 := by
    rw [chars, List.length_map, List.length_range, Nat.sub_eq_zero_of_le hlast]
  unfold regGetString
  rw [run_bind_ok hread]
  simp only [hlength]
  rw [run_resized K _ _ (hlast.trans hn), htake, hfull, List.replicate_zero, List.append_nil]

theorem stringAt_gives (hserves : Serves K api hKey subKey value content) {pvData : Option (List UInt8)}
    {cbData : UInt32} {n : ℕ} {answer : ValueAnswer}
    (h : stringAt K api hKey subKey value pvData cbData n = some answer) :
    ∃ bytes, Gives bytes pvData cbData answer ∧
      if api.exportsRegGetValue then
        charsOf K bytes = stored K (content n) ++ [K.nul] ∧ (stringEvents K api hKey subKey n).length = 1
      else bytes = content (n + 1) ∧ (stringEvents K api hKey subKey n).length = 3 := by
  obtain ⟨hvalue, hret⟩ := granted_eq_some.mp h
  unfold valueAt at hvalue
  unfold stringEvents valueEvents
  by_cases hexport : api.exportsRegGetValue
  · simp only [if_pos hexport] at hvalue ⊢
    obtain ⟨bytes, hchars, hgives⟩ := hserves.getValue n pvData cbData answer (Except.ok.inj hvalue) hret
    exact ⟨bytes, hgives, hchars, rfl⟩
  · have htype : ¬ lpTypeOf rrfRtRegSz = 0 := by decide
    simp only [if_neg hexport, if_neg htype] at hvalue ⊢
    by_cases hopen : (api.regOpenKeyEx n hKey (K.cStr subKey) keyRead).1 = errorSuccess
    · rw [if_neg (not_not_intro hopen)] at hvalue
      rw [if_neg (not_not_intro hopen)]
      have hpair : api.regOpenKeyEx n hKey (K.cStr subKey) keyRead =
          (errorSuccess, (api.regOpenKeyEx n hKey (K.cStr subKey) keyRead).2) := Prod.ext hopen rfl
      have hgives := hserves.queryValue n pvData cbData _ answer hpair (Except.ok.inj hvalue) hret
      exact ⟨content (n + 1), hgives, rfl, rfl⟩
    · rw [if_pos hopen] at hvalue
      cases hvalue

theorem readString_gives (hserves : Serves K api hKey subKey value content) {read : List χ × UInt32}
    {trace : Trace HKey} (hrun : (readString K api maxSize hKey subKey value).run [] = .ok read trace) :
    ∃ bytes rest n, read.1 = chars K n (bytes ++ rest) ∧ read.2.toNat = bytes.length ∧
      bytes.length / K.size ≤ n ∧ n ≤ maxSize ∧
      if api.exportsRegGetValue then charsOf K bytes = stored K (content 1) ++ [K.nul]
      else BothRead K api maxSize hKey subKey value ∧ bytes = content 4 := by
  obtain ⟨answer, answer', hsize, hfits, hdata, rfl⟩ := readString_inv [] hrun
  obtain ⟨_, _, hevents⟩ := stringAt_gives hserves hsize
  obtain ⟨bytes, hgives, hbytes⟩ := stringAt_gives hserves hdata
  obtain ⟨hle, hmemory⟩ := hgives.read _ rfl
  have hread : (chars K (answer.dataSize.toNat / K.size) answer'.memory, answer'.dataSize).1 =
      chars K (answer.dataSize.toNat / K.size) (bytes ++ _) := congrArg (chars K _) hmemory
  refine ⟨bytes, _, _, hread, hgives.size, Nat.div_le_div_right hle, hfits, ?_⟩
  unfold secondCall at hbytes hdata
  rw [List.length_nil] at hevents hbytes hdata
  by_cases hexport : api.exportsRegGetValue
  · rw [if_pos hexport] at hevents hbytes ⊢
    rw [hevents.2] at hbytes
    exact hbytes.1
  · rw [if_neg hexport] at hevents hbytes ⊢
    rw [hevents.2] at hbytes hdata
    exact ⟨⟨answer, answer', hsize, hfits, hdata⟩, hbytes.1⟩

theorem whole_of_terminated (hserves : Serves K api hKey subKey value content)
    (hend : ∀ bytes, (if api.exportsRegGetValue then charsOf K bytes = stored K (content 1) ++ [K.nul]
      else BothRead K api maxSize hKey subKey value ∧ bytes = content 4) →
      bytes.length / K.size ≠ 0 ∧ (charsOf K bytes).dropLast = stored K (content (lastRead api))) :
    Whole K api maxSize hKey subKey value content := by
  constructor
  · intro s trace hrun
    cases hread : (readString K api maxSize hKey subKey value).run [] with
    | error e trace' =>
      rw [regGetString, run_bind_error hread] at hrun
      cases hrun
    | ok read trace' =>
      obtain ⟨bytes, rest, n, hchars, hsize, hle, hn, hbytes⟩ := readString_gives hserves hread
      obtain ⟨hne, hlast⟩ := hend bytes hbytes
      have hpair : read = (chars K n (bytes ++ rest), read.2) := Prod.ext hchars rfl
      rw [hpair] at hread
      rw [run_regGetString hread hsize hle hn hne] at hrun
      cases hrun
      exact hlast
  · intro data dataSize trace hrun
    obtain ⟨bytes, rest, n, _, hsize, _, _, hbytes⟩ := readString_gives hserves hrun
    obtain ⟨hne, _⟩ := hend bytes hbytes
    change dataSize.toNat = bytes.length at hsize
    rw [hsize]
    exact hne

theorem endsNul_of_whole (hserves : Serves K api hKey subKey value content)
    (hexport : ¬ api.exportsRegGetValue = true) (hboth : BothRead K api maxSize hKey subKey value)
    (hwhole : Whole K api maxSize hKey subKey value content) : EndsNul K (content 4) := by
  obtain ⟨answer, answer', hsize, hfits, hdata⟩ := hboth
  obtain ⟨_, _, hevents⟩ := stringAt_gives hserves hsize
  rw [if_neg hexport] at hevents
  have hsecond : secondCall K api hKey subKey 0 = 3 := by
    rw [secondCall, hevents.2]
  rw [← hsecond] at hdata
  obtain ⟨trace, hread⟩ := run_readString [] hsize hfits hdata
  obtain ⟨bytes, rest, n, hchars, hlength, hle, hn, hbytes⟩ := readString_gives hserves hread
  rw [if_neg hexport] at hbytes
  obtain rfl := hbytes.2
  have hne := hwhole.noWrap _ _ _ hread
  change answer'.dataSize.toNat = _ at hlength
  change chars K _ answer'.memory = _ at hchars
  rw [hlength] at hne
  rw [hchars] at hread
  have hstring := run_regGetString hread hlength hle hn hne
  have hlast := hwhole.whole _ _ hstring
  rw [lastRead, if_neg hexport] at hlast
  exact endsNul_of_stored hne hlast

theorem whole_iff (hserves : Serves K api hKey subKey value content) :
    Whole K api maxSize hKey subKey value content ↔
      api.exportsRegGetValue = true ∨ ¬ BothRead K api maxSize hKey subKey value ∨ EndsNul K (content 4) := by
  by_cases hexport : api.exportsRegGetValue = true
  · refine iff_of_true (whole_of_terminated hserves ?_) (.inl hexport)
    intro bytes hbytes
    rw [if_pos hexport] at hbytes
    rw [lastRead, if_pos hexport, hbytes, List.dropLast_concat, ← length_charsOf, hbytes, List.length_append]
    exact ⟨Nat.succ_ne_zero _, rfl⟩
  · constructor
    · intro hwhole
      by_cases hboth : BothRead K api maxSize hKey subKey value
      · exact .inr (.inr (endsNul_of_whole hserves hexport hboth hwhole))
      · exact .inr (.inl hboth)
    · intro hcond
      apply whole_of_terminated hserves
      intro bytes hbytes
      rw [if_neg hexport] at hbytes
      obtain ⟨hboth, rfl⟩ := hbytes
      rcases hcond with hcond | hcond | hend
      · exact absurd hcond hexport
      · exact absurd hboth hcond
      · rw [lastRead, if_neg hexport]
        exact ⟨hend.ne_zero, (stored_of_endsNul hend).symm⟩

end

theorem strings_whole_iff (apiW : Api WChar) (apiA : Api UInt8) (maxSizeW maxSizeA : ℕ) (hKey : HKey)
    (subKeyW valueW : List WChar) (subKeyA valueA : List UInt8) (contentW contentA : ℕ → List UInt8)
    (hW : Serves wide apiW hKey subKeyW valueW contentW)
    (hA : Serves narrow apiA hKey subKeyA valueA contentA) :
    (Whole wide apiW maxSizeW hKey subKeyW valueW contentW ↔ apiW.exportsRegGetValue = true ∨
      ¬ BothRead wide apiW maxSizeW hKey subKeyW valueW ∨ EndsNul wide (contentW 4)) ∧
    (Whole narrow apiA maxSizeA hKey subKeyA valueA contentA ↔ apiA.exportsRegGetValue = true ∨
      ¬ BothRead narrow apiA maxSizeA hKey subKeyA valueA ∨ EndsNul narrow (contentA 4)) :=
  ⟨whole_iff hW, whole_iff hA⟩

def answerWith (bytes : List UInt8) (pvData : Option (List UInt8)) (cbData : UInt32) : ValueAnswer :=
  match pvData with
  | none => ⟨errorSuccess, [], UInt32.ofNat bytes.length⟩
  | some memory =>
      if bytes.length ≤ cbData.toNat then
        ⟨errorSuccess, bytes ++ memory.drop bytes.length, UInt32.ofNat bytes.length⟩
      else ⟨234, memory, UInt32.ofNat bytes.length⟩

theorem answerWith_gives {bytes : List UInt8} {pvData : Option (List UInt8)} {cbData : UInt32}
    (hbytes : bytes.length < 2 ^ 32) (hret : (answerWith bytes pvData cbData).retCode = errorSuccess) :
    Gives bytes pvData cbData (answerWith bytes pvData cbData) := by
  cases pvData with
  | none => exact ⟨UInt32.toNat_ofNat_of_lt' hbytes, by simp⟩
  | some memory =>
    unfold answerWith at hret ⊢
    simp only at hret ⊢
    by_cases hle : bytes.length ≤ cbData.toNat
    · rw [if_pos hle]
      refine ⟨UInt32.toNat_ofNat_of_lt' hbytes, ?_⟩
      rintro _ ⟨⟩
      exact ⟨hle, rfl⟩
    · rw [if_neg hle] at hret
      cases hret

def holding {χ : Type} (bytes : List UInt8) : Api χ :=
  { Api.opening with regQueryValueEx := fun _ _ _ _ pvData cbData => answerWith bytes pvData cbData }

theorem holding_serves {χ : Type} [DecidableEq χ] (K : CharType χ) (hKey : HKey) (subKey value : List χ)
    {bytes : List UInt8} (hbytes : bytes.length < 2 ^ 32) :
    Serves K (holding bytes) hKey subKey value fun _ => bytes where
  getValue := by
    rintro n pvData cbData answer rfl hret
    cases hret
  queryValue := by
    rintro n pvData cbData h answer _ rfl hret
    exact answerWith_gives hbytes hret

theorem strings_whole_ab :
    (Whole wide (holding [97, 0, 98, 0]) 100 1 [115] [118] (fun _ => [97, 0, 98, 0]) ↔ false = true ∨
      ¬ BothRead wide (holding [97, 0, 98, 0]) 100 1 [115] [118] ∨ EndsNul wide [97, 0, 98, 0]) ∧
    (Whole narrow (holding [97, 98, 0]) 100 1 [115] [118] (fun _ => [97, 98, 0]) ↔ false = true ∨
      ¬ BothRead narrow (holding [97, 98, 0]) 100 1 [115] [118] ∨ EndsNul narrow [97, 98, 0]) :=
  strings_whole_iff (holding [97, 0, 98, 0]) (holding [97, 98, 0]) 100 100 1 [115] [118] [115] [118] _ _
    (holding_serves wide 1 [115] [118] (by decide)) (holding_serves narrow 1 [115] [118] (by decide))

theorem unterminated_loses_character :
    Serves wide (holding [97, 0, 98, 0]) 1 [115] [118] (fun _ => [97, 0, 98, 0]) ∧
    Serves narrow (holding []) 1 [115] [118] (fun _ => []) ∧
    (∃ trace, (regGetStringW (holding [97, 0, 98, 0]) 100 1 [115] [118]).run [] = .ok [97] trace) ∧
    stored wide [97, 0, 98, 0] = [97, 98] ∧
    (∃ trace, (readString narrow (holding []) 100 1 [115] [118]).run [] = .ok ([], 0) trace) ∧
    ¬ Whole wide (holding [97, 0, 98, 0]) 100 1 [115] [118] (fun _ => [97, 0, 98, 0]) ∧
    ¬ Whole narrow (holding []) 100 1 [115] [118] fun _ => [] := by
  have hrun : (regGetStringW (holding [97, 0, 98, 0]) 100 1 [115] [118]).run [] = .ok [97] _ := rfl
  have hstored : stored wide [97, 0, 98, 0] = [97, 98] := by decide
  have hempty : (readString narrow (holding []) 100 1 [115] [118]).run [] = .ok ([], 0) _ := rfl
  refine ⟨holding_serves wide 1 [115] [118] (by decide), holding_serves narrow 1 [115] [118] (by decide),
    ⟨_, hrun⟩, hstored, ⟨_, hempty⟩, ?_, ?_⟩
  · intro hwhole
    have hlost := hwhole.whole _ _ hrun
    rw [hstored] at hlost
    cases hlost
  · intro hwhole
    exact hwhole.noWrap _ _ _ hempty rfl

end SysUtils.Registry

import SysUtils.Registry.Accessor
import SysUtils.Registry.Enumeration

namespace SysUtils.Registry

open Resources

def subPath : List UInt8 := ascii "SOFTWARE\\Microsoft\\Windows\\CurrentVersion\\Uninstall"

def displayName : List UInt8 := ascii "DisplayName"

section

variable (api : Api UInt8) (maxSize : ℕ)

def appName (subKey : HKey) (str : List UInt8) : Session (Option (List UInt8)) :=
  tryCatch
    (do
      let appName ← regGetStringA api maxSize subKey str displayName
      pure (some appName))
    fun
      | .registryError _ => pure none
      | .lengthError => throw .lengthError

def appNames (subKey : HKey) : List (List UInt8) → Session (List (List UInt8))
  | [] => pure []
  | str :: strs => do
      let name ← appName api maxSize subKey str
      let appList ← appNames subKey strs
      pure (name.toList ++ appList)

def appListOf (subKey : HKey) : Session (List (List UInt8)) := do
  let vecString ← regEnumKeysA api subKey
  appNames api maxSize subKey vecString

def getInstalledAppList (view : UInt32) : Session (List (List UInt8)) := do
  let answer ← openKey api hkeyLocalMachine subPath (keyRead ||| view)
  if answer.1 ≠ errorSuccess then throw (.registryError ⟨"error open registry key", answer.1⟩)
  else do
    let appList ← appListOf api maxSize answer.2
    closing answer.2
    pure appList

def getInstalledAppList32 : Session (List (List UInt8)) := getInstalledAppList api maxSize keyWow64_32key

def getInstalledAppList64 : Session (List (List UInt8)) := getInstalledAppList api maxSize keyWow64_64key

def AllFit (subKey : HKey) : List (List UInt8) → Trace HKey → Prop
  | [], _ => True
  | str :: strs, trace =>
      FitsAt narrow api subKey str displayName maxSize trace.length ∧
        AllFit subKey strs (final ((regGetStringA api maxSize subKey str displayName).run trace))

variable {api maxSize}

theorem run_appName (subKey : HKey) (str : List UInt8) {trace : Trace HKey}
    (hfits : FitsAt narrow api subKey str displayName maxSize trace.length) :
    ∃ name, (appName api maxSize subKey str).run trace =
      .ok name (final ((regGetStringA api maxSize subKey str displayName).run trace)) := by
  have hescape := (regGetString_fits_iff trace).mpr hfits
  unfold appName
  rw [run_tryCatch, EStateM.run_bind]
  cases hrun : (regGetStringA api maxSize subKey str displayName).run trace with
  | ok s trace' => exact ⟨some s, rfl⟩
  | error e trace' =>
    cases e with
    | registryError e => exact ⟨none, rfl⟩
    | lengthError => exact (hescape trace' hrun).elim

theorem run_appName_error (subKey : HKey) (str : List UInt8) {trace : Trace HKey}
    (hfits : ¬ FitsAt narrow api subKey str displayName maxSize trace.length) :
    ∃ e trace', (appName api maxSize subKey str).run trace = .error e trace' := by
  have hescape := mt (regGetString_fits_iff trace).mp hfits
  push Not at hescape
  obtain ⟨trace', hrun⟩ := hescape
  exact ⟨.lengthError, trace', run_tryCatch_error (run_bind_error hrun)⟩

theorem appNames_returns_iff (subKey : HKey) (strs : List (List UInt8)) (trace : Trace HKey) :
    (∃ names trace', (appNames api maxSize subKey strs).run trace = .ok names trace') ↔
      AllFit api maxSize subKey strs trace := by
  induction strs generalizing trace with
  | nil => exact iff_of_true ⟨[], trace, rfl⟩ trivial
  | cons str strs ih =>
    unfold appNames AllFit
    by_cases hfits : FitsAt narrow api subKey str displayName maxSize trace.length
    · obtain ⟨name, hname⟩ := run_appName subKey str hfits
      rw [run_bind_ok hname, ← ih, and_iff_right hfits]
      constructor
      · rintro ⟨names, trace', hrun⟩
        cases hrest : (appNames api maxSize subKey strs).run
            (final ((regGetStringA api maxSize subKey str displayName).run trace)) with
        | ok rest trace'' => exact ⟨rest, trace'', rfl⟩
        | error e trace'' =>
          rw [run_bind_error hrest] at hrun
          cases hrun
      · rintro ⟨rest, trace', hrest⟩
        exact ⟨_, trace', run_bind_ok hrest⟩
    · obtain ⟨e, trace', he⟩ := run_appName_error subKey str hfits
      rw [run_bind_error he]
      refine iff_of_false ?_ fun h => hfits h.1
      rintro ⟨_, _, hrun⟩
      cases hrun

theorem keeps_appName (subKey : HKey) (str : List UInt8) : Keeps (appName api maxSize subKey str) := by
  apply Keeps.tryCatch
  · apply keeps_regGetString.bind
    intro s
    exact keeps_pure _
  · intro e
    cases e with
    | registryError e => exact keeps_pure _
    | lengthError => exact keeps_throw _

theorem keeps_appNames (subKey : HKey) (strs : List (List UInt8)) : Keeps (appNames api maxSize subKey strs) := by
  induction strs with
  | nil => exact keeps_pure _
  | cons str strs ih =>
    apply (keeps_appName subKey str).bind
    intro name
    apply ih.bind
    intro names
    exact keeps_pure _

theorem keeps_appListOf (subKey : HKey) : Keeps (appListOf api maxSize subKey) := by
  apply (keeps_regEnumKeysA api subKey).bind
  intro strs
  exact keeps_appNames subKey strs

variable (api maxSize)

def appKey (view : UInt32) : ℤ × HKey := api.regOpenKeyEx 0 hkeyLocalMachine subPath (keyRead ||| view)

def Completes (subKey : HKey) : Prop :=
  let read := fun call index size => api.regEnumKeyEx call subKey index size
  let count := (api.regQueryInfoKey 1 subKey).subKeyCount.toNat
  Enumerated api subKey InfoAnswer.subKeyCount InfoAnswer.maxSubKeyLen read 1 ∧
    AllFit api maxSize subKey
      ((List.range count).map fun i => (entry api subKey InfoAnswer.maxSubKeyLen read 1 i).name)
      (List.replicate count .other ++ [.other, .opened subKey])

variable {api maxSize}

theorem appListOf_returns_iff (subKey : HKey) :
    (∃ names trace, (appListOf api maxSize subKey).run [.opened subKey] = .ok names trace) ↔
      Completes api maxSize subKey := by
  unfold appListOf regEnumKeysA Completes
  by_cases henumerated : Enumerated api subKey InfoAnswer.subKeyCount InfoAnswer.maxSubKeyLen
      (fun call index size => api.regEnumKeyEx call subKey index size) 1
  · have hkeys := run_enumerate NameAnswer.name [.opened subKey] henumerated
    rw [run_bind_ok hkeys, and_iff_right henumerated]
    exact appNames_returns_iff subKey _ _
  · obtain ⟨e, trace', he⟩ := run_enumerate_error NameAnswer.name [.opened subKey] henumerated
    rw [run_bind_error he]
    refine iff_of_false ?_ fun h => henumerated h.1
    rintro ⟨_, _, hrun⟩
    cases hrun

theorem getInstalledAppList_tidy_iff (view : UInt32) :
    Tidy (final ((getInstalledAppList api maxSize view).run [])) ↔
      (appKey api view).1 ≠ errorSuccess ∨ Completes api maxSize (appKey api view).2 := by
  unfold getInstalledAppList appKey
  by_cases hopen : (api.regOpenKeyEx 0 hkeyLocalMachine subPath (keyRead ||| view)).1 = errorSuccess
  · rw [run_bind_ok (run_openKey_ok api [] hopen), List.length_nil, if_neg (not_not_intro hopen),
      or_iff_right (not_not_intro hopen), ← appListOf_returns_iff]
    exact tidy_around_iff (keeps_appListOf _) id _
  · rw [run_bind_ok (run_openKey_error api [] hopen), List.length_nil, if_pos hopen]
    exact iff_of_true (fun held => rfl) (.inl hopen)

end

theorem regGetValueSp_tidy_iff {χ : Type} (api : Api χ) (hkey : HKey) (lpSubKey lpValue : Option (List χ))
    (dwFlags : UInt32) (pvData : Option (List UInt8)) (cbData : UInt32) :
    Tidy (final ((regGetValueSp api hkey lpSubKey lpValue dwFlags pvData cbData).run [])) ↔
      api.exportsRegGetValue = true ∨ lpTypeOf dwFlags = 0 ∨ lpSubKey ≠ none ∨ hkey = null := by
  cases lpSubKey with
  | some subKey =>
    refine iff_of_true ?_ (.inr (.inr (.inl (Option.some_ne_none subKey))))
    intro held
    exact keeps_regGetValueSp api hkey subKey lpValue dwFlags pvData cbData [] held
  | none =>
    rw [run_regGetValueSp, final_ended, List.append_nil]
    unfold valueEvents
    by_cases hexport : api.exportsRegGetValue
    · rw [if_pos hexport]
      exact iff_of_true (fun held => rfl) (.inl hexport)
    · by_cases htype : lpTypeOf dwFlags = 0
      · rw [if_neg hexport, if_pos htype]
        exact iff_of_true (fun held => rfl) (.inr (.inl htype))
      · rw [if_neg hexport, if_neg htype]
        by_cases hnull : hkey = null
        · simp only [hnull, ne_eq, not_true_eq_false, if_false]
          exact iff_of_true (fun held => rfl) (.inr (.inr (.inr trivial)))
        · simp only [ne_eq, hnull, not_false_eq_true, if_true]
          refine iff_of_false ?_ ?_
          · intro htidy
            cases htidy 0
          · rintro (h | h | h | h)
            · exact hexport h
            · exact htype h
            · exact h trivial
            · exact h

theorem keys_closed_iff (apiA : Api UInt8) (apiW : Api WChar) (maxSize : ℕ) (hkey : HKey)
    (lpSubKeyA lpValueA : Option (List UInt8)) (lpSubKeyW lpValueW : Option (List WChar)) (dwFlags : UInt32)
    (pvData : Option (List UInt8)) (cbData : UInt32) :
    (Tidy (final ((regGetValueASp apiA hkey lpSubKeyA lpValueA dwFlags pvData cbData).run [])) ↔
      apiA.exportsRegGetValue = true ∨ lpTypeOf dwFlags = 0 ∨ lpSubKeyA ≠ none ∨ hkey = null) ∧
    (Tidy (final ((regGetValueWSp apiW hkey lpSubKeyW lpValueW dwFlags pvData cbData).run [])) ↔
      apiW.exportsRegGetValue = true ∨ lpTypeOf dwFlags = 0 ∨ lpSubKeyW ≠ none ∨ hkey = null) ∧
    (Tidy (final ((getInstalledAppList32 apiA maxSize).run [])) ↔
      (appKey apiA keyWow64_32key).1 ≠ errorSuccess ∨
        Completes apiA maxSize (appKey apiA keyWow64_32key).2) ∧
    (Tidy (final ((getInstalledAppList64 apiA maxSize).run [])) ↔
      (appKey apiA keyWow64_64key).1 ≠ errorSuccess ∨
        Completes apiA maxSize (appKey apiA keyWow64_64key).2) :=
  ⟨regGetValueSp_tidy_iff .., regGetValueSp_tidy_iff .., getInstalledAppList_tidy_iff _,
    getInstalledAppList_tidy_iff _⟩

theorem key_leaks_or_is_closed_twice :
    (getInstalledAppList32 Api.opening 100).run [] =
      .error (.registryError ⟨"Cannot query key info fromthe registry", 6⟩) [.other, .opened 7] ∧
    ¬ Tidy (final ((getInstalledAppList32 Api.opening 100).run [])) ∧
    ¬ Tidy (final ((regGetValueASp Api.opening 5 none none rrfRtRegSz none 0).run [])) := by
  have hthrown : (getInstalledAppList32 Api.opening 100).run [] =
      .error (.registryError ⟨"Cannot query key info fromthe registry", 6⟩) [.other, .opened 7] := rfl
  refine ⟨hthrown, ?_, ?_⟩
  · intro htidy
    have hopen := htidy 0
    rw [hthrown] at hopen
    exact Multiset.cons_ne_zero (Option.some.inj hopen)
  · intro htidy
    cases htidy 0

end SysUtils.Registry

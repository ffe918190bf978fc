import SysUtils.Registry.Actions
import SysUtils.Registry.Names
import SysUtils.Registry.Versions

namespace SysUtils.Registry

open Resources

section

variable {state : State narrow} {exported : Bool} {api : Api UInt8} {maxSize : ℕ} {subKey : HKey}

theorem run_appName_text {str : List UInt8} (trace : Trace HKey)
    (hfollows : Follows state api subKey (narrow.cStr str) (narrow.cStr displayName))
    (hreadable : Readable state exported subKey str displayName maxSize) :
    ∃ trace', (appName (on api exported) maxSize subKey str).run trace =
      .ok (textAt state exported subKey str displayName) trace' := by
  have htext := run_regGetString_text trace hfollows hreadable
  unfold appName regGetStringA
  rw [run_tryCatch]
  cases h : textAt state exported subKey str displayName with
  | none =>
    rw [h] at htext
    obtain ⟨e, trace', hrun⟩ := htext
    exact ⟨trace', by rw [run_bind_error hrun]; rfl⟩
  | some text =>
    rw [h] at htext
    obtain ⟨trace', hrun⟩ := htext
    exact ⟨trace', by rw [run_bind_ok hrun]; rfl⟩

theorem run_appNames (strs : List (List UInt8)) (trace : Trace HKey)
    (hfollows : ∀ str ∈ strs, Follows state api subKey (narrow.cStr str) (narrow.cStr displayName))
    (hreadable : ∀ str ∈ strs, Readable state exported subKey str displayName maxSize) :
    ∃ trace', (appNames (on api exported) maxSize subKey strs).run trace =
      .ok (strs.filterMap fun str => textAt state exported subKey str displayName) trace' := by
  induction strs generalizing trace with
  | nil => exact ⟨trace, rfl⟩
  | cons str strs ih =>
    obtain ⟨middle, hfirst⟩ := run_appName_text trace (hfollows str (.head _)) (hreadable str (.head _))
    obtain ⟨trace', hrest⟩ := ih middle (fun s hs => hfollows s (.tail _ hs)) fun s hs => hreadable s (.tail _ hs)
    refine ⟨trace', ?_⟩
    unfold appNames
    rw [run_bind_ok hfirst, run_bind_ok hrest, List.filterMap_cons]
    cases textAt state exported subKey str displayName <;> rfl

theorem installed_apps_exact {ω : Type} {P : CodePage ω} {key : Key ω} (exported : Bool) (view : UInt32)
    (hopen : (appKey api view).1 = errorSuccess) (hkey : Unchanging P.encode key api (appKey api view).2)
    (hroomy : Roomy P.encode key.subKeys)
    (hfollows : ∀ name ∈ key.subKeys,
      Follows state api (appKey api view).2 (narrow.cStr (P.encode name)) (narrow.cStr displayName))
    (hreadable : ∀ name ∈ key.subKeys,
      Readable state exported (appKey api view).2 (P.encode name) displayName maxSize) :
    Tidy (final ((getInstalledAppList (on api exported) maxSize view).run [])) ∧
    ∃ trace, (getInstalledAppList (on api exported) maxSize view).run [] =
      .ok (key.subKeys.filterMap fun name =>
        textAt state exported (appKey api view).2 (P.encode name) displayName) trace := by
  have hkeys : Unchanging P.encode key (on api exported) (appKey api view).2 := ⟨hkey.info, hkey.subKeyCount,
    hkey.maxSubKeyLen, hkey.valueCount, hkey.maxValueNameLen, hkey.enumKey, hkey.enumValue⟩
  obtain ⟨middle, hnames⟩ := hkeys.listed_subKeys.run hroomy [.opened (appKey api view).2]
  obtain ⟨trace, happs⟩ := run_appNames (key.subKeys.map P.encode) middle
    (by simpa using hfollows) (by simpa using hreadable)
  have hlist : (appListOf (on api exported) maxSize (appKey api view).2).run [.opened (appKey api view).2] =
      .ok _ trace := (run_bind_ok hnames).trans happs
  rw [List.filterMap_map] at hlist
  have hopened : (openKey (on api exported) hkeyLocalMachine subPath (keyRead ||| view)).run [] =
      .ok (appKey api view) [.opened (appKey api view).2] := run_openKey_ok (on api exported) [] hopen
  have hbody : (getInstalledAppList (on api exported) maxSize view).run [] =
      (do
        let appList ← appListOf (on api exported) maxSize (appKey api view).2
        closing (appKey api view).2
        pure appList : Session _).run [.opened (appKey api view).2] := by
    unfold getInstalledAppList
    rw [run_bind_ok hopened, if_neg (not_not_intro hopen)]
  rw [hbody]
  refine ⟨(tidy_around_iff (keeps_appListOf _) id _).mpr ⟨_, trace, hlist⟩, ?_⟩
  rw [run_bind_ok hlist]
  exact ⟨_, rfl⟩

end

def singleByte : CodePage UInt8 := ⟨fun c => [c], fun _ => .inl rfl⟩

def twoKeys : Key UInt8 := ⟨[[65], [66]], [], by decide, by decide, by decide, by decide⟩

def twoApps : Api UInt8 :=
  { constantly stringA with
    regQueryInfoKey := (listing singleByte.encode twoKeys).regQueryInfoKey
    regEnumKeyEx := (listing singleByte.encode twoKeys).regEnumKeyEx
    regEnumValue := (listing singleByte.encode twoKeys).regEnumValue }

theorem twoApps_unchanging (hKey : HKey) : Unchanging singleByte.encode twoKeys twoApps hKey :=
  have h := listing_unchanging singleByte.encode twoKeys hKey
  ⟨h.info, h.subKeyCount, h.maxSubKeyLen, h.valueCount, h.maxValueNameLen, h.enumKey, h.enumValue⟩

theorem twoApps_follows (hKey : HKey) (subKey value : List UInt8) :
    Follows (fun _ _ => some fun _ => some stringA) twoApps hKey subKey value :=
  have h := constantly_follows stringA hKey subKey value
  ⟨h.getValue, h.getValue_error, h.openKey, h.queryValue, h.queryValue_error⟩

theorem installed_apps_exact_twoApps :
    ∃ trace, (getInstalledAppList (on twoApps true) 100 keyWow64_32key).run [] = .ok [[97], [97]] trace := by
  refine (installed_apps_exact true keyWow64_32key rfl (twoApps_unchanging _) (by unfold Roomy; decide)
    (fun _ _ => twoApps_follows _ _ _) ?_).2
  rintro name _ _ ⟨⟩
  exact ⟨by decide, by decide⟩

end SysUtils.Registry

import Mathlib.Data.Finset.Union
import SysUtils.Registry.Names

namespace SysUtils.Registry

open Resources

structure Visit where
  hKey : HKey
  path : List UInt8
  sam : UInt32
  deriving DecidableEq, Repr

def startupPaths : List (List UInt8) :=
  [ascii "SOFTWARE\\Microsoft\\Windows\\CurrentVersion\\Run",
    ascii "SOFTWARE\\Microsoft\\Windows\\CurrentVersion\\RunOnce",
    ascii "SOFTWARE\\Microsoft\\Windows\\CurrentVersion\\RunOnceEx"]

def startupKeys : List HKey := [hkeyLocalMachine, hkeyCurrentUser]

def visits : List Visit :=
  startupKeys.flatMap fun hKey => startupPaths.flatMap fun path =>
    [⟨hKey, path, keyRead ||| keyWow64_32key⟩, ⟨hKey, path, keyRead ||| keyWow64_64key⟩]

section

variable (api : Api UInt8)

def visit (v : Visit) (startups : Finset (List UInt8)) : Session (Finset (List UInt8)) := do
  let answer ← openKey api v.hKey v.path v.sam
  if answer.1 = errorSuccess then do
    let currEnumKeys ← regEnumValueNamesA api answer.2
    closing answer.2
    pure (startups ∪ currEnumKeys.toFinset)
  else pure startups

def visitAll : List Visit → Finset (List UInt8) → Session (Finset (List UInt8))
  | [], startups => pure startups
  | v :: vs, startups => do
      let startups ← visit api v startups
      visitAll vs startups

/-- The process is terminated where an exception would leave a function that is `noexcept`. -/
inductive Terminate where
  | terminate
  deriving DecidableEq, Repr

def noexcept {α : Type} (x : Session α) : Program HKey Terminate α := EStateM.adaptExcept (fun _ => .terminate) x

def dumpInfo : Program HKey Terminate (Finset (List UInt8)) := noexcept (visitAll api visits ∅)

structure Opening where
  visit : Visit
  handle : HKey
  time : ℕ

namespace Opening

variable (o : Opening)

def count : ℕ := (api.regQueryInfoKey o.time o.handle).valueCount.toNat

def read (call index : ℕ) (size : UInt32) : NameAnswer UInt8 := api.regEnumValue call o.handle index size

def Read : Prop := Enumerated api o.handle InfoAnswer.valueCount InfoAnswer.maxValueNameLen (o.read api) o.time

def names : List (List UInt8) :=
  (List.range (o.count api)).map fun i =>
    (entry api o.handle InfoAnswer.maxValueNameLen (o.read api) o.time i).name

end Opening

def openingAt (n : ℕ) (v : Visit) : Opening := ⟨v, (api.regOpenKeyEx n v.hKey v.path v.sam).2, n + 1⟩

def openings : ℕ → List Visit → List Opening
  | _, [] => []
  | n, v :: vs =>
      if (api.regOpenKeyEx n v.hKey v.path v.sam).1 = errorSuccess then
        openingAt api n v :: openings (n + 3 + (openingAt api n v).count api) vs
      else openings (n + 1) vs

variable {api}

theorem run_visit_unopened {v : Visit} (startups : Finset (List UInt8)) {trace : Trace HKey}
    (hopen : (api.regOpenKeyEx trace.length v.hKey v.path v.sam).1 ≠ errorSuccess) :
    (visit api v startups).run trace = .ok startups (.other :: trace) := by
  unfold visit
  rw [run_bind_ok (run_openKey_error api trace hopen), if_neg hopen]
  rfl

theorem run_names {o : Opening} (trace : Trace HKey) (htime : trace.length = o.time) (hread : o.Read api) :
    (regEnumValueNamesA api o.handle).run trace =
      .ok (o.names api) (List.replicate (o.count api) .other ++ .other :: trace) := by
  unfold Opening.Read at hread
  unfold Opening.names Opening.count
  rw [← htime] at hread ⊢
  exact run_enumerate NameAnswer.name trace hread

theorem run_names_error {o : Opening} (trace : Trace HKey) (htime : trace.length = o.time)
    (hread : ¬ o.Read api) :
    ∃ e trace', (regEnumValueNamesA api o.handle).run trace = .error e trace' := by
  unfold Opening.Read at hread
  rw [← htime] at hread
  obtain ⟨e, trace', he⟩ := run_enumerate_error NameAnswer.name trace hread
  exact ⟨_, trace', he⟩

theorem run_visit_opened {v : Visit} (startups : Finset (List UInt8)) {trace : Trace HKey}
    (hopen : (api.regOpenKeyEx trace.length v.hKey v.path v.sam).1 = errorSuccess) :
    (visit api v startups).run trace =
      (do
        let currEnumKeys ← regEnumValueNamesA api (openingAt api trace.length v).handle
        closing (openingAt api trace.length v).handle
        pure (startups ∪ currEnumKeys.toFinset) : Session (Finset (List UInt8))).run
          (.opened (openingAt api trace.length v).handle :: trace) := by
  unfold visit
  rw [run_bind_ok (run_openKey_ok api trace hopen), if_pos hopen]
  rfl

theorem run_visit {v : Visit} (startups : Finset (List UInt8)) {trace : Trace HKey}
    (hopen : (api.regOpenKeyEx trace.length v.hKey v.path v.sam).1 = errorSuccess)
    (hread : (openingAt api trace.length v).Read api) :
    ∃ trace', (visit api v startups).run trace =
        .ok (startups ∪ ((openingAt api trace.length v).names api).toFinset) trace' ∧
      trace'.length = trace.length + 3 + (openingAt api trace.length v).count api ∧
      ∀ held, settle held trace' = settle held trace := by
  have hnames := run_names (.opened (openingAt api trace.length v).handle :: trace) rfl hread
  have hkept := keeps_regEnumValueNamesA api (openingAt api trace.length v).handle
    (.opened (openingAt api trace.length v).handle :: trace)
  rw [hnames] at hkept
  rw [run_visit_opened startups hopen, run_bind_ok hnames]
  refine ⟨_, rfl, ?_, ?_⟩
  · simp only [List.length_cons, List.length_append, List.length_replicate]
    omega
  · intro held
    exact settle_closed (hkept held)

theorem run_visit_error {v : Visit} (startups : Finset (List UInt8)) {trace : Trace HKey}
    (hopen : (api.regOpenKeyEx trace.length v.hKey v.path v.sam).1 = errorSuccess)
    (hread : ¬ (openingAt api trace.length v).Read api) :
    ∃ e trace', (visit api v startups).run trace = .error e trace' := by
  obtain ⟨e, trace', he⟩ := run_names_error
    (.opened (openingAt api trace.length v).handle :: trace) rfl hread
  rw [run_visit_opened startups hopen]
  exact ⟨e, trace', run_bind_error he⟩

theorem run_visitAll (vs : List Visit) (startups : Finset (List UInt8)) (trace : Trace HKey)
    (hread : ∀ o ∈ openings api trace.length vs, o.Read api) :
    ∃ trace', (visitAll api vs startups).run trace =
        .ok (startups ∪ ((openings api trace.length vs).flatMap fun o => o.names api).toFinset) trace' ∧
      ∀ held, settle held trace' = settle held trace := by
  induction vs generalizing startups trace with
  | nil =>
    refine ⟨trace, ?_, fun held => rfl⟩
    rw [openings, List.flatMap_nil, List.toFinset_nil, Finset.union_empty]
    rfl
  | cons v vs ih =>
    unfold visitAll
    unfold openings at hread ⊢
    by_cases hopen : (api.regOpenKeyEx trace.length v.hKey v.path v.sam).1 = errorSuccess
    · rw [if_pos hopen] at hread ⊢
      obtain ⟨trace', hvisit, hlength, hkept⟩ := run_visit startups hopen (hread _ (.head _))
      rw [← hlength] at hread ⊢
      obtain ⟨trace'', hrest, hkept'⟩ := ih _ trace' fun o ho => hread o (.tail _ ho)
      refine ⟨trace'', ?_, fun held => (hkept' held).trans (hkept held)⟩
      rw [run_bind_ok hvisit, hrest, List.flatMap_cons, List.toFinset_append, Finset.union_assoc]
    · rw [if_neg hopen] at hread ⊢
      obtain ⟨trace', hrest, hkept⟩ := ih startups (.other :: trace) hread
      refine ⟨trace', ?_, hkept⟩
      rw [run_bind_ok (run_visit_unopened startups hopen)]
      exact hrest

theorem run_visitAll_error (vs : List Visit) (startups : Finset (List UInt8)) (trace : Trace HKey)
    (hread : ¬ ∀ o ∈ openings api trace.length vs, o.Read api) :
    ∃ e trace', (visitAll api vs startups).run trace = .error e trace' := by
  induction vs generalizing startups trace with
  | nil => exact absurd (fun o ho => absurd ho List.not_mem_nil) hread
  | cons v vs ih =>
    unfold visitAll
    unfold openings at hread
    by_cases hopen : (api.regOpenKeyEx trace.length v.hKey v.path v.sam).1 = errorSuccess
    · rw [if_pos hopen] at hread
      by_cases hfirst : (openingAt api trace.length v).Read api
      · obtain ⟨trace', hvisit, hlength, _⟩ := run_visit startups hopen hfirst
        rw [← hlength, List.forall_mem_cons, not_and] at hread
        obtain ⟨e, trace'', he⟩ := ih (startups ∪ _) trace' (hread hfirst)
        exact ⟨e, trace'', (run_bind_ok hvisit).trans he⟩
      · obtain ⟨e, trace', he⟩ := run_visit_error startups hopen hfirst
        exact ⟨e, trace', run_bind_error he⟩
    · rw [if_neg hopen] at hread
      obtain ⟨e, trace', he⟩ := ih startups (.other :: trace) hread
      exact ⟨e, trace', (run_bind_ok (run_visit_unopened startups hopen)).trans he⟩

theorem mem_openings {vs : List Visit} {n : ℕ} {o : Opening} (ho : o ∈ openings api n vs) :
    ∃ v ∈ vs, ∃ m, o = openingAt api m v ∧ (api.regOpenKeyEx m v.hKey v.path v.sam).1 = errorSuccess := by
  induction vs generalizing n with
  | nil => exact absurd ho List.not_mem_nil
  | cons v vs ih =>
    unfold openings at ho
    split at ho
    · rcases List.mem_cons.mp ho with rfl | ho
      · exact ⟨v, .head _, n, rfl, by assumption⟩
      · obtain ⟨w, hw, m, hm⟩ := ih ho
        exact ⟨w, .tail _ hw, m, hm⟩
    · obtain ⟨w, hw, m, hm⟩ := ih ho
      exact ⟨w, .tail _ hw, m, hm⟩

section

variable (api) (values : ℕ → Visit → Finset (List UInt8))

def Lists : Prop :=
  ∀ o ∈ openings api 0 visits, ∀ i,
    (entry api o.handle InfoAnswer.maxValueNameLen (o.read api) o.time i).retCode = errorSuccess →
    (entry api o.handle InfoAnswer.maxValueNameLen (o.read api) o.time i).name ∈
      values (o.time + 1 + i) o.visit

structure FullyRead (o : Opening) : Prop where
  read : o.Read api
  all : values o.time o.visit ⊆ (o.names api).toFinset

structure Survives : Prop where
  returns : ∃ startups trace, (dumpInfo api).run [] = .ok startups trace
  complete : ∀ startups trace, (dumpInfo api).run [] = .ok startups trace →
    ∀ o ∈ openings api 0 visits, FullyRead api values o → values o.time o.visit ⊆ startups
  sound : ∀ startups trace, (dumpInfo api).run [] = .ok startups trace →
    ∀ name ∈ startups, ∃ v ∈ visits, ∃ n, name ∈ values n v
  tidy : Tidy (final ((dumpInfo api).run []))

end

variable {values : ℕ → Visit → Finset (List UInt8)}

theorem run_noexcept_ok {α : Type} {x : Session α} {a : α} {trace trace' : Trace HKey}
    (hx : x.run trace = .ok a trace') : (noexcept x).run trace = .ok a trace' := by
  rw [noexcept, EStateM.run_adaptExcept, hx]

theorem run_noexcept_error {α : Type} {x : Session α} {e : Thrown} {trace trace' : Trace HKey}
    (hx : x.run trace = .error e trace') : (noexcept x).run trace = .error .terminate trace' := by
  rw [noexcept, EStateM.run_adaptExcept, hx]

theorem name_of_read (hlists : Lists api values) {o : Opening} (ho : o ∈ openings api 0 visits)
    (hread : o.Read api) {name : List UInt8} (hname : name ∈ o.names api) :
    ∃ v ∈ visits, ∃ n, name ∈ values n v := by
  obtain ⟨i, hi, rfl⟩ := List.mem_map.mp hname
  obtain ⟨v, hv, m, rfl, _⟩ := mem_openings ho
  exact ⟨v, hv, _, hlists _ ho i (hread.2 i (List.mem_range.mp hi))⟩

theorem dumpInfo_survives_iff (hlists : Lists api values) :
    Survives api values ↔ ∀ o ∈ openings api 0 visits, o.Read api := by
  constructor
  · intro hsurvives
    by_contra hread
    obtain ⟨startups, trace, hrun⟩ := hsurvives.returns
    obtain ⟨e, trace', he⟩ := run_visitAll_error visits ∅ [] hread
    rw [dumpInfo, run_noexcept_error he] at hrun
    cases hrun
  · intro hread
    obtain ⟨trace, hall, hkept⟩ := run_visitAll visits ∅ [] hread
    have hrun : (dumpInfo api).run [] = _ := run_noexcept_ok hall
    have hresult {startups : Finset (List UInt8)} {trace' : Trace HKey}
        (hrun' : (dumpInfo api).run [] = .ok startups trace') (name : List UInt8) :
        name ∈ startups ↔ ∃ o ∈ openings api 0 visits, name ∈ o.names api := by
      rw [hrun] at hrun'
      cases hrun'
      rw [Finset.empty_union, List.mem_toFinset, List.mem_flatMap]
      rfl
    refine ⟨⟨_, trace, hrun⟩, ?_, ?_, ?_⟩
    · intro startups trace' hrun' o ho hfully name hname
      apply (hresult hrun' name).mpr
      exact ⟨o, ho, List.mem_toFinset.mp (hfully.all hname)⟩
    · intro startups trace' hrun' name hname
      obtain ⟨o, ho, hread'⟩ := (hresult hrun' name).mp hname
      exact name_of_read hlists ho (hread o ho) hread'
    · intro held
      rw [hrun]
      exact hkept held

end

def oneKey (key : Key UInt16) : Api UInt8 :=
  { listing doubleByte.encode key with
    regOpenKeyEx := fun _ _ _ _ => (errorSuccess, 7)
    opened_ne_null := fun _ _ _ _ _ => by decide }

theorem oneKey_unchanging (key : Key UInt16) (hKey : HKey) :
    Unchanging doubleByte.encode key (oneKey key) hKey :=
  have h := listing_unchanging doubleByte.encode key hKey
  ⟨h.info, h.subKeyCount, h.maxSubKeyLen, h.valueCount, h.maxValueNameLen, h.enumKey, h.enumValue⟩

def twoNames : Key UInt16 where
  subKeys := []
  values := [([0x3042], 1), ([97, 98], 1)]
  subKeys_length := by decide
  values_length := by decide
  subKey_length := by decide
  value_length := by decide

theorem oneKey_lists (key : Key UInt16) : Lists (oneKey key) fun _ _ =>
    (key.valueNames.map doubleByte.encode).toFinset := by
  intro o _ i hret
  rw [List.mem_toFinset]
  by_cases hi : i < key.valueNames.length
  · have hname := ((oneKey_unchanging key o.handle).stores_value _ i _ hi).name_eq hret
    exact List.mem_map.mpr ⟨_, List.getElem_mem hi, hname.symm⟩
  · have hnone : key.values[i]? = none := by simpa [Key.valueNames] using hi
    have hcode : (entry (oneKey key) o.handle InfoAnswer.maxValueNameLen (o.read (oneKey key)) o.time i).retCode =
        259 := by simp [entry, Opening.read, oneKey, listing, hnone]
    rw [hcode] at hret
    cases hret

theorem dumpInfo_survives_twoNames :
    (openings (oneKey twoNames) 0 visits).length = 12 ∧
    Survives (oneKey twoNames) fun _ _ => {[0x82, 0x42], [97, 98]} := by
  have hroomy : Roomy doubleByte.encode twoNames.valueNames := by
    unfold Roomy
    decide
  refine ⟨rfl, (dumpInfo_survives_iff (oneKey_lists twoNames)).mpr ?_⟩
  intro o _
  exact ((oneKey_unchanging twoNames o.handle).listed_valueNames.enumerated_iff o.time).mpr hroomy

def deleted : Api UInt8 :=
  { Api.failing with
    regOpenKeyEx := fun n _ _ _ => if n = 0 then (errorSuccess, 7) else (2, null)
    regQueryInfoKey := fun _ _ => ⟨errorSuccess, 0, 0, 1, 3⟩
    opened_ne_null := by
      intro n _ _ _
      split
      · intro _
        decide
      · rintro ⟨⟩ }

theorem deleted_lists (values : ℕ → Visit → Finset (List UInt8)) : Lists deleted values := by
  rintro o ho i ⟨⟩

theorem deleted_value_terminates :
    (dumpInfo deleted).run [] = .error .terminate [.other, .other, .opened 7] ∧
    Lists deleted (fun _ _ => ∅) ∧ ¬ Survives deleted fun _ _ => ∅ := by
  have hrun : (dumpInfo deleted).run [] = .error .terminate [.other, .other, .opened 7] := rfl
  refine ⟨hrun, deleted_lists _, ?_⟩
  intro hsurvives
  obtain ⟨startups, trace, hok⟩ := hsurvives.returns
  rw [hrun] at hok
  cases hok

end SysUtils.Registry

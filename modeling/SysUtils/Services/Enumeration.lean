import Mathlib.Logic.Relation
import SysUtils.Chunks

namespace SysUtils.Services

open Chunks

structure Service where
  serviceName : List Char
  displayName : List Char
  currentState : ℤ
  deriving DecidableEq, Repr

structure SysinfoError where
  message : String
  errorCode : ℕ
  deriving DecidableEq, Repr

abbrev Handle := ℕ

def errorMoreData : ℕ := 234

structure EnumAnswer where
  lastError : Option ℕ
  entries : List Service
  nRemaining : ℕ
  resumePoint : ℕ
  deriving DecidableEq, Repr

def EnumAnswer.failure (a : EnumAnswer) : Option ℕ := a.lastError.filter fun ec => ec ≠ errorMoreData

structure Ask where
  call : ℕ
  nAllocated : ℕ
  resumePoint : ℕ

def firstAsk : Ask := ⟨0, 64 * 1024, 0⟩

/-- The service manager during a call of `Init`. A call of `EnumServicesStatusExA` fails, or it reads a chunk
of the services that the filter selects, with `ERROR_MORE_DATA` as long as some remain. -/
structure Scm where
  openSCManagerA : Except ℕ Handle
  table : ℕ → ℕ → List Service
  bytes : Service → ℕ
  enumServicesStatusExA : ℕ → ℕ → Ask → EnumAnswer
  chunked : ∀ type status ask, (enumServicesStatusExA type status ask).failure = none →
    Chunk (table type status) bytes ask.nAllocated ask.resumePoint
      (enumServicesStatusExA type status ask).entries (enumServicesStatusExA type status ask).resumePoint
      (enumServicesStatusExA type status ask).nRemaining

def enlarged (buf : Option ℕ) (nAllocated nRemaining : ℕ) : Option ℕ × ℕ :=
  if buf = none ∨ nAllocated < nRemaining then (some nRemaining, nRemaining) else (buf, nAllocated)

theorem le_enlarged (buf : Option ℕ) (nAllocated nRemaining : ℕ) :
    nRemaining ≤ (enlarged buf nAllocated nRemaining).2 := by
  unfold enlarged
  split_ifs <;> simp only <;> omega

def appendEntries (servs : List Service) (buf : Option ℕ) (entries : List Service) :
    List Service × Option ℕ :=
  if entries.length > 0 then
    let cache := buf
    (servs ++ entries.map fun e => ⟨e.serviceName, e.displayName, e.currentState⟩, cache)
  else (servs, buf)

variable (scm : Scm) (type status : ℕ)

def enumerate (ask : Ask) (buf : Option ℕ) (servs : List Service) :
    Option SysinfoError × List Service :=
  let answer := scm.enumServicesStatusExA type status ask
  match h : answer.failure with
  | some ec => (some ⟨"Can't enumerate services", ec⟩, servs)
  | none =>
      let appended := appendEntries servs buf answer.entries
      if hlast : answer.nRemaining = 0 then (none, appended.1)
      else
        let buffer := enlarged appended.2 ask.nAllocated answer.nRemaining
        enumerate ⟨ask.call + 1, buffer.2, answer.resumePoint⟩ buffer.1 appended.1
termination_by Chunks.measure (scm.table type status) scm.bytes ask.nAllocated ask.resumePoint
decreasing_by
  exact (scm.chunked type status ask h).measure_lt hlast (le_enlarged _ _ _)

structure InitRun where
  error : Option SysinfoError
  servs : List Service
  opened : List Handle
  deriving DecidableEq, Repr

def init (servs : List Service) (opened : List Handle) : InitRun :=
  match scm.openSCManagerA with
  | .error ec => ⟨some ⟨"open sc handle error", ec⟩, servs, opened⟩
  | .ok hsc =>
      match enumerate scm type status firstAsk (some (64 * 1024)) servs with
      | (some e, servs) => ⟨some e, servs, hsc :: opened⟩
      | (none, servs) => ⟨none, servs, (hsc :: opened).erase hsc⟩

variable {scm type status}

theorem appendEntries_eq (servs : List Service) (buf : Option ℕ) (entries : List Service) :
    appendEntries servs buf entries = (servs ++ entries, buf) := by
  cases entries with
  | nil => simp [appendEntries]
  | cons e entries => simp [appendEntries]

theorem enlarged_eq (nAllocated nRemaining : ℕ) : enlarged (some nAllocated) nAllocated nRemaining =
    (some (max nAllocated nRemaining), max nAllocated nRemaining) := by
  unfold enlarged
  by_cases hsmall : nAllocated < nRemaining
  · rw [if_pos (.inr hsmall), Nat.max_eq_right (Nat.le_of_lt hsmall)]
  · rw [if_neg (by simpa using hsmall), Nat.max_eq_left (Nat.le_of_not_lt hsmall)]

def Scm.next (scm : Scm) (type status : ℕ) (ask : Ask) : Ask :=
  let answer := scm.enumServicesStatusExA type status ask
  ⟨ask.call + 1, max ask.nAllocated answer.nRemaining, answer.resumePoint⟩

def Scm.Leads (scm : Scm) (type status : ℕ) (ask ask' : Ask) : Prop :=
  (scm.enumServicesStatusExA type status ask).failure = none ∧
    (scm.enumServicesStatusExA type status ask).nRemaining ≠ 0 ∧ ask' = scm.next type status ask

theorem enumerate_eq (ask : Ask) (servs : List Service) :
    enumerate scm type status ask (some ask.nAllocated) servs =
      match (scm.enumServicesStatusExA type status ask).failure with
      | some ec => (some ⟨"Can't enumerate services", ec⟩, servs)
      | none =>
          if (scm.enumServicesStatusExA type status ask).nRemaining = 0 then
            (none, servs ++ (scm.enumServicesStatusExA type status ask).entries)
          else
            enumerate scm type status (scm.next type status ask) (some (scm.next type status ask).nAllocated)
              (servs ++ (scm.enumServicesStatusExA type status ask).entries) := by
  conv_lhs => rw [enumerate]
  split
  · rename_i ec h
    rw [h]
  · rename_i h
    rw [h]
    simp only [appendEntries_eq, enlarged_eq]
    rfl

theorem enumerate_failed {ask : Ask} {ec : ℕ} (servs : List Service)
    (h : (scm.enumServicesStatusExA type status ask).failure = some ec) :
    enumerate scm type status ask (some ask.nAllocated) servs =
      (some ⟨"Can't enumerate services", ec⟩, servs) := by
  rw [enumerate_eq, h]

theorem enumerate_last {ask : Ask} (servs : List Service)
    (h : (scm.enumServicesStatusExA type status ask).failure = none)
    (hlast : (scm.enumServicesStatusExA type status ask).nRemaining = 0) :
    enumerate scm type status ask (some ask.nAllocated) servs =
      (none, servs ++ (scm.enumServicesStatusExA type status ask).entries) := by
  rw [enumerate_eq, h]
  exact if_pos hlast

theorem enumerate_more {ask : Ask} (servs : List Service)
    (h : (scm.enumServicesStatusExA type status ask).failure = none)
    (hmore : (scm.enumServicesStatusExA type status ask).nRemaining ≠ 0) :
    enumerate scm type status ask (some ask.nAllocated) servs =
      enumerate scm type status (scm.next type status ask) (some (scm.next type status ask).nAllocated)
        (servs ++ (scm.enumServicesStatusExA type status ask).entries) := by
  rw [enumerate_eq, h]
  exact if_neg hmore

def Scm.FailsFrom (scm : Scm) (type status : ℕ) (ask : Ask) : Prop :=
  ∃ ask', Relation.ReflTransGen (scm.Leads type status) ask ask' ∧
    (scm.enumServicesStatusExA type status ask').failure ≠ none

theorem failsFrom_iff {ask : Ask} (h : (scm.enumServicesStatusExA type status ask).failure = none) :
    scm.FailsFrom type status ask ↔ (scm.enumServicesStatusExA type status ask).nRemaining ≠ 0 ∧
      scm.FailsFrom type status (scm.next type status ask) := by
  constructor
  · rintro ⟨ask', hpath, hfails⟩
    rcases hpath.cases_head with rfl | ⟨mid, ⟨_, hmore, rfl⟩, hpath⟩
    · exact absurd h hfails
    · exact ⟨hmore, ask', hpath, hfails⟩
  · rintro ⟨hmore, ask', hpath, hfails⟩
    exact ⟨ask', hpath.head ⟨h, hmore, rfl⟩, hfails⟩

theorem enumerate_spec (ask : Ask) (servs : List Service) :
    (¬ scm.FailsFrom type status ask → enumerate scm type status ask (some ask.nAllocated) servs =
      (none, servs ++ (scm.table type status).drop ask.resumePoint)) ∧
    (scm.FailsFrom type status ask →
      (enumerate scm type status ask (some ask.nAllocated) servs).1 ≠ none) := by
  induction hm : Chunks.measure (scm.table type status) scm.bytes ask.nAllocated ask.resumePoint
    using Nat.strongRecOn generalizing ask servs with
  | ind m ih =>
    cases h : (scm.enumServicesStatusExA type status ask).failure with
    | some ec =>
      have hfails : scm.FailsFrom type status ask := ⟨ask, .refl, by simp [h]⟩
      rw [enumerate_failed servs h]
      exact ⟨fun hnot => absurd hfails hnot, fun _ => nofun⟩
    | none =>
      have hchunk := scm.chunked type status ask h
      rw [failsFrom_iff h]
      by_cases hlast : (scm.enumServicesStatusExA type status ask).nRemaining = 0
      · rw [enumerate_last servs h hlast, hchunk.last hlast]
        exact ⟨fun _ => rfl, fun hfails => absurd hlast hfails.1⟩
      · have hlt := hchunk.measure_lt hlast
          (Nat.le_max_right ask.nAllocated (scm.enumServicesStatusExA type status ask).nRemaining)
        rw [hm] at hlt
        have hnext := ih _ hlt (scm.next type status ask)
          (servs ++ (scm.enumServicesStatusExA type status ask).entries) rfl
        rw [enumerate_more servs h hlast, hchunk.drop_eq, ← List.append_assoc]
        simp only [hlast, ne_eq, not_false_eq_true, true_and]
        exact hnext

def Scm.Struck (scm : Scm) (type status : ℕ) : Prop :=
  (∃ hsc, scm.openSCManagerA = .ok hsc) ∧ scm.FailsFrom type status firstAsk

theorem init_of_struck (servs : List Service) (opened : List Handle) (h : scm.Struck type status) :
    (init scm type status servs opened).error ≠ none ∧
      (init scm type status servs opened).opened.length = opened.length + 1 := by
  obtain ⟨⟨hsc, hopen⟩, hfails⟩ := h
  have hthrows := (enumerate_spec firstAsk servs).2 hfails
  unfold init
  rw [hopen]
  simp only
  split
  · exact ⟨nofun, rfl⟩
  · rename_i henum
    exact absurd (congrArg Prod.fst henum) hthrows

theorem init_of_not_struck (opened : List Handle) (h : ¬ scm.Struck type status) :
    (∃ ec, scm.openSCManagerA = .error ec ∧
      init scm type status [] opened = ⟨some ⟨"open sc handle error", ec⟩, [], opened⟩) ∨
    (∃ hsc, scm.openSCManagerA = .ok hsc) ∧
      init scm type status [] opened = ⟨none, scm.table type status, opened⟩ := by
  cases hopen : scm.openSCManagerA with
  | error ec =>
    left
    refine ⟨ec, rfl, ?_⟩
    unfold init
    rw [hopen]
  | ok hsc =>
    right
    have henum := (enumerate_spec firstAsk []).1 fun hfails => h ⟨⟨hsc, hopen⟩, hfails⟩
    refine ⟨⟨hsc, rfl⟩, ?_⟩
    unfold init
    rw [hopen]
    change (match enumerate scm type status firstAsk (some firstAsk.nAllocated) [] with
      | (some e, servs) => (⟨some e, servs, hsc :: opened⟩ : InitRun)
      | (none, servs) => ⟨none, servs, (hsc :: opened).erase hsc⟩) = _
    rw [henum]
    simp [firstAsk]

theorem init_complete {hsc : Handle} (opened : List Handle) (hopen : scm.openSCManagerA = .ok hsc)
    (hok : ∀ ask, (scm.enumServicesStatusExA type status ask).failure = none) :
    init scm type status [] opened = ⟨none, scm.table type status, opened⟩ := by
  have hstruck : ¬ scm.Struck type status := fun ⟨_, ask, _, hfails⟩ => hfails (hok ask)
  rcases init_of_not_struck opened hstruck with ⟨ec, herror, _⟩ | ⟨_, hinit⟩
  · rw [hopen] at herror
    cases herror
  · exact hinit

def scmOf (openSCManagerA : Except ℕ Handle) (table : List Service) (bytes : Service → ℕ)
    (fails : ℕ → Option ℕ) : Scm where
  openSCManagerA := openSCManagerA
  table _ _ := table
  bytes := bytes
  enumServicesStatusExA _ _ ask :=
    let run := longest bytes ask.nAllocated (table.drop ask.resumePoint)
    let nRemaining := total bytes (table.drop (ask.resumePoint + run.length))
    match fails ask.call with
    | some ec => ⟨some ec, run, nRemaining, ask.resumePoint + run.length⟩
    | none =>
        ⟨if nRemaining = 0 then none else some errorMoreData, run, nRemaining, ask.resumePoint + run.length⟩
  chunked _ _ ask _ := by
    have hchunk := chunk_longest table bytes ask.nAllocated ask.resumePoint
    cases fails ask.call <;> exact hchunk

theorem failure_scmOf {openSCManagerA : Except ℕ Handle} {table : List Service} {bytes : Service → ℕ}
    (ask : Ask) : ((scmOf openSCManagerA table bytes fun _ => none).enumServicesStatusExA type status
      ask).failure = none := by
  simp only [scmOf, EnumAnswer.failure]
  split_ifs <;> rfl

theorem init_complete_large :
    (init (scmOf (.ok 7) [⟨"a".toList, "A".toList, 4⟩, ⟨"b".toList, "B".toList, 1⟩] (fun _ => 40000)
      fun _ => none) 0x3b 3 [] []).servs = [⟨"a".toList, "A".toList, 4⟩, ⟨"b".toList, "B".toList, 1⟩] :=
  congrArg InitRun.servs (init_complete [] rfl failure_scmOf)

end SysUtils.Services

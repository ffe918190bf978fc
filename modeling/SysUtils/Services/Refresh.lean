import SysUtils.Services.Enumeration

namespace SysUtils.Services

def serviceDriver : ℕ := 0x0b

def serviceWin32 : ℕ := 0x30

def serviceStateAll : ℕ := 3

def defaultType : ℕ := serviceDriver ||| serviceWin32

structure Process where
  servs : Option (List Service)
  opened : List Handle
  deriving DecidableEq, Repr

inductive Call where
  | getInstance
  | dumpInfo
  | resetFilter (serviceType serviceStatus : ℕ)
  | resetAndDump (serviceType serviceStatus : ℕ)

structure Request where
  call : Call
  constructing : Scm
  resetting : Scm

namespace Process

def initial : Process := ⟨none, []⟩

def getInstance (p : Process) (scm : Scm) : Option SysinfoError × Process :=
  match p.servs with
  | some _ => (none, p)
  | none =>
      let run := init scm defaultType serviceStateAll [] p.opened
      match run.error with
      | some e => (some e, { p with opened := run.opened })
      | none => (none, ⟨some run.servs, run.opened⟩)

def clear (p : Process) : Process := { p with servs := p.servs.map fun _ => [] }

def resetFilter (p : Process) (constructing resetting : Scm) (serviceType serviceStatus : ℕ) :
    Option SysinfoError × Process :=
  match p.getInstance constructing with
  | (some e, p) => (some e, p)
  | (none, p) =>
      let p := p.clear
      let run := init resetting serviceType serviceStatus (p.servs.getD []) p.opened
      (run.error, ⟨some run.servs, run.opened⟩)

def reply (dumps : Bool) (result : Option SysinfoError × Process) :
    Except SysinfoError (Option (List Service)) :=
  match result.1 with
  | some e => .error e
  | none => .ok (if dumps then result.2.servs else none)

def serve (p : Process) (r : Request) : Except SysinfoError (Option (List Service)) × Process :=
  match r.call with
  | .getInstance =>
      let result := p.getInstance r.constructing
      (reply false result, result.2)
  | .dumpInfo =>
      let result := p.getInstance r.constructing
      (reply true result, result.2)
  | .resetFilter serviceType serviceStatus =>
      let result := p.resetFilter r.constructing r.resetting serviceType serviceStatus
      (reply false result, result.2)
  | .resetAndDump serviceType serviceStatus =>
      let result := p.resetFilter r.constructing r.resetting serviceType serviceStatus
      (reply true result, result.2)

end Process

def Call.filter : Call → Option (ℕ × ℕ)
  | .getInstance | .dumpInfo => none
  | .resetFilter serviceType serviceStatus | .resetAndDump serviceType serviceStatus =>
      some (serviceType, serviceStatus)

def Request.enumeration (p : Process) (r : Request) : Option (List Service) :=
  match r.call.filter with
  | some (serviceType, serviceStatus) => some (r.resetting.table serviceType serviceStatus)
  | none =>
      if p.servs = none then some (r.constructing.table defaultType serviceStateAll) else none

def Request.completed (p : Process) (r : Request) (last : Option (List Service)) : Option (List Service) :=
  match (p.serve r).1 with
  | .error _ => last
  | .ok _ => (r.enumeration p).or last

structure Sound (p : Process) (last : Option (List Service)) : Prop where
  whole : ∀ servs, p.servs = some servs → servs = [] ∨ last = some servs
  closed : p.opened = []

def SoundRun : Process → Option (List Service) → List Request → Prop
  | _, _, [] => True
  | p, last, r :: rs =>
      Sound (p.serve r).2 (r.completed p last) ∧
        (∀ servs, (p.serve r).1 = .ok (some servs) → servs = [] ∨ r.completed p last = some servs) ∧
        SoundRun (p.serve r).2 (r.completed p last) rs

def Request.Strikes (p : Process) (r : Request) : Prop :=
  (p.servs = none ∧ r.constructing.Struck defaultType serviceStateAll) ∨
  ((p.servs = none → ∃ hsc, r.constructing.openSCManagerA = .ok hsc) ∧
    ∃ type status, r.call.filter = some (type, status) ∧ r.resetting.Struck type status)

def Unstruck : Process → List Request → Prop
  | _, [] => True
  | p, r :: rs => ¬ r.Strikes p ∧ Unstruck (p.serve r).2 rs

variable {p : Process} {r : Request} {scm resetting : Scm} {type status : ℕ}
  {last : Option (List Service)}

def Process.run (p : Process) (r : Request) : Option SysinfoError × Process :=
  match r.call.filter with
  | none => p.getInstance r.constructing
  | some (serviceType, serviceStatus) =>
      p.resetFilter r.constructing r.resetting serviceType serviceStatus

theorem serve_eq (p : Process) (r : Request) :
    ∃ dumps, p.serve r = (Process.reply dumps (p.run r), (p.run r).2) := by
  obtain ⟨call, constructing, resetting⟩ := r
  cases call with
  | getInstance | resetFilter => exact ⟨false, rfl⟩
  | dumpInfo | resetAndDump => exact ⟨true, rfl⟩

theorem dumped_eq {servs : List Service} (h : (p.serve r).1 = .ok (some servs)) :
    (p.serve r).2.servs = some servs := by
  obtain ⟨dumps, hserve⟩ := serve_eq p r
  rw [hserve] at h ⊢
  cases hrun : (p.run r).1 with
  | some e =>
    simp only [Process.reply, hrun] at h
    cases h
  | none =>
    simp only [Process.reply, hrun, Except.ok.injEq] at h
    cases dumps with
    | false => cases h
    | true => exact h

theorem getInstance_of_not_struck
    (h : p.servs = none → ¬ scm.Struck defaultType serviceStateAll) :
    (p.servs = none ∧ (∃ ec, scm.openSCManagerA = .error ec) ∧ ∃ e, p.getInstance scm = (some e, p)) ∨
    (p.servs = none ∧ (∃ hsc, scm.openSCManagerA = .ok hsc) ∧
      p.getInstance scm = (none, ⟨some (scm.table defaultType serviceStateAll), p.opened⟩)) ∨
    ∃ servs, p.servs = some servs ∧ p.getInstance scm = (none, p) := by
  obtain ⟨servs, opened⟩ := p
  cases servs with
  | some servs => exact .inr (.inr ⟨servs, rfl, rfl⟩)
  | none =>
    rcases init_of_not_struck opened (h rfl) with ⟨ec, hopen, hinit⟩ | ⟨hopen, hinit⟩
    · left
      refine ⟨rfl, ⟨ec, hopen⟩, ⟨"open sc handle error", ec⟩, ?_⟩
      simp only [Process.getInstance, hinit]
    · right
      left
      refine ⟨rfl, hopen, ?_⟩
      simp only [Process.getInstance, hinit]

theorem getInstance_of_struck (hnone : p.servs = none) (h : scm.Struck defaultType serviceStateAll) :
    ∃ e opened, p.getInstance scm = (some e, ⟨none, opened⟩) ∧ opened.length = p.opened.length + 1 := by
  obtain ⟨servs, opened⟩ := p
  obtain rfl : servs = none := hnone
  obtain ⟨hthrows, hopened⟩ := init_of_struck [] opened h
  obtain ⟨e, he⟩ := Option.ne_none_iff_exists'.mp hthrows
  refine ⟨e, _, ?_, hopened⟩
  simp only [Process.getInstance, he]

theorem resetFilter_eq {q : Process} {servs : List Service} (hget : p.getInstance scm = (none, q))
    (hservs : q.servs = some servs) : p.resetFilter scm resetting type status =
      ((init resetting type status [] q.opened).error,
        ⟨some (init resetting type status [] q.opened).servs,
          (init resetting type status [] q.opened).opened⟩) := by
  unfold Process.resetFilter
  rw [hget]
  simp only [Process.clear, hservs, Option.map_some, Option.getD_some]

theorem completed_eq (p : Process) (r : Request) (last : Option (List Service)) :
    r.completed p last = if (p.run r).1 = none then (r.enumeration p).or last else last := by
  obtain ⟨dumps, hserve⟩ := serve_eq p r
  unfold Request.completed
  rw [hserve]
  cases hrun : (p.run r).1 with
  | some e => simp [Process.reply, hrun]
  | none => simp [Process.reply, hrun]

theorem sound_resetFilter {q : Process} {servs : List Service} (hget : p.getInstance scm = (none, q))
    (hservs : q.servs = some servs) (hopened : q.opened = []) (h : ¬ resetting.Struck type status) :
    Sound (p.resetFilter scm resetting type status).2
      (if (p.resetFilter scm resetting type status).1 = none then some (resetting.table type status)
        else last) := by
  rw [resetFilter_eq hget hservs]
  rcases init_of_not_struck q.opened h with ⟨ec, _, hinit⟩ | ⟨_, hinit⟩
  · rw [hinit]
    refine ⟨?_, hopened⟩
    rintro _ ⟨⟩
    exact .inl rfl
  · rw [hinit]
    refine ⟨?_, hopened⟩
    rintro _ ⟨⟩
    exact .inr rfl

theorem Sound.step (h : Sound p last) (hr : ¬ r.Strikes p) :
    Sound (p.serve r).2 (r.completed p last) := by
  obtain ⟨dumps, hserve⟩ := serve_eq p r
  have hconstruct : p.servs = none → ¬ r.constructing.Struck defaultType serviceStateAll :=
    fun hnone hstruck => hr (.inl ⟨hnone, hstruck⟩)
  rw [hserve, completed_eq]
  change Sound (p.run r).2 _
  unfold Process.run Request.enumeration
  cases hfilter : r.call.filter with
  | none =>
    rcases getInstance_of_not_struck hconstruct with
      ⟨_, _, e, hget⟩ | ⟨hnone, _, hget⟩ | ⟨servs, hservs, hget⟩
    · simpa [hget] using h
    · simp only [hget, hnone, if_true, Option.some_or]
      refine ⟨?_, h.closed⟩
      rintro _ ⟨⟩
      exact .inr rfl
    · simpa [hget, hservs] using h
  | some filter =>
    obtain ⟨type, status⟩ := filter
    have hreset : (p.servs = none → ∃ hsc, r.constructing.openSCManagerA = .ok hsc) →
        ¬ r.resetting.Struck type status :=
      fun hopen hstruck => hr (.inr ⟨hopen, type, status, hfilter, hstruck⟩)
    rcases getInstance_of_not_struck hconstruct with
      ⟨_, _, e, hget⟩ | ⟨_, hopen, hget⟩ | ⟨servs, hservs, hget⟩
    · have hrun : p.resetFilter r.constructing r.resetting type status = (some e, p) := by
        unfold Process.resetFilter
        rw [hget]
      simpa [hrun] using h
    · exact sound_resetFilter hget rfl h.closed (hreset fun _ => hopen)
    · exact sound_resetFilter hget hservs h.closed (hreset fun hnone => by simp [hservs] at hnone)

theorem run_of_getInstance {e : SysinfoError} {q : Process}
    (hget : p.getInstance r.constructing = (some e, q)) : p.run r = (some e, q) := by
  unfold Process.run
  cases r.call.filter with
  | none => exact hget
  | some filter =>
    unfold Process.resetFilter
    simp only [hget]

theorem opened_of_strikes (hr : r.Strikes p) : 0 < (p.serve r).2.opened.length := by
  obtain ⟨dumps, hserve⟩ := serve_eq p r
  rw [hserve]
  change 0 < (p.run r).2.opened.length
  by_cases hfirst : p.servs = none ∧ r.constructing.Struck defaultType serviceStateAll
  · obtain ⟨e, opened, hget, hlen⟩ := getInstance_of_struck hfirst.1 hfirst.2
    rw [run_of_getInstance hget, hlen]
    exact Nat.succ_pos _
  · obtain ⟨hopen, type, status, hfilter, hstruck⟩ := hr.resolve_left hfirst
    have hreset {q : Process} {servs : List Service} (hget : p.getInstance r.constructing = (none, q))
        (hservs : q.servs = some servs) : 0 < (p.run r).2.opened.length := by
      unfold Process.run
      rw [hfilter]
      simp only [resetFilter_eq hget hservs, (init_of_struck [] q.opened hstruck).2]
      exact Nat.succ_pos _
    rcases getInstance_of_not_struck fun hnone hstruck => hfirst ⟨hnone, hstruck⟩ with
      ⟨hnone, ⟨ec, herror⟩, _⟩ | ⟨_, _, hget⟩ | ⟨servs, hservs, hget⟩
    · obtain ⟨hsc, hok⟩ := hopen hnone
      rw [herror] at hok
      cases hok
    · exact hreset hget rfl
    · exact hreset hget hservs

theorem soundRun_iff (h : Sound p last) (rs : List Request) :
    SoundRun p last rs ↔ Unstruck p rs := by
  induction rs generalizing p last with
  | nil => exact Iff.rfl
  | cons r rs ih =>
    by_cases hr : r.Strikes p
    · have hopened := opened_of_strikes hr
      constructor
      · rintro ⟨hsound, _⟩
        rw [hsound.closed] at hopened
        exact absurd hopened (Nat.lt_irrefl 0)
      · rintro ⟨hnot, _⟩
        exact absurd hr hnot
    · have hstep := h.step hr
      have hdumped := fun servs hdump => hstep.whole servs (dumped_eq hdump)
      constructor
      · rintro ⟨_, _, hrest⟩
        exact ⟨hr, (ih hstep).mp hrest⟩
      · rintro ⟨_, hrest⟩
        exact ⟨hstep, hdumped, (ih hstep).mpr hrest⟩

theorem Sound.initial : Sound .initial none := ⟨nofun, rfl⟩

theorem refresh_sound_iff (rs : List Request) : SoundRun .initial none rs ↔ Unstruck .initial rs :=
  soundRun_iff Sound.initial rs

def twoServices : List Service := [⟨"a".toList, "A".toList, 4⟩, ⟨"b".toList, "B".toList, 1⟩]

def brokenOff : Scm := scmOf (.ok 8) twoServices (fun _ => 40000) fun call => if call = 1 then some 5 else none

def listed : Scm := scmOf (.ok 7) twoServices (fun _ => 40000) fun _ => none

theorem init_brokenOff (opened : List Handle) : init brokenOff 0x30 3 [] opened =
    ⟨some ⟨"Can't enumerate services", 5⟩, [⟨"a".toList, "A".toList, 4⟩], 8 :: opened⟩ := by
  have hfirst : brokenOff.enumServicesStatusExA 0x30 3 firstAsk =
      ⟨some errorMoreData, [⟨"a".toList, "A".toList, 4⟩], 40000, 1⟩ := by decide +kernel
  have hnext : brokenOff.next 0x30 3 firstAsk = ⟨1, 65536, 1⟩ := by
    simp only [Scm.next, hfirst]
    rfl
  have hsecond : (brokenOff.enumServicesStatusExA 0x30 3 ⟨1, 65536, 1⟩).failure = some 5 := by decide
  have henum : enumerate brokenOff 0x30 3 firstAsk (some (64 * 1024)) [] =
      (some ⟨"Can't enumerate services", 5⟩, [⟨"a".toList, "A".toList, 4⟩]) := by
    change enumerate brokenOff 0x30 3 firstAsk (some firstAsk.nAllocated) [] = _
    rw [enumerate_more [] (by rw [hfirst]; rfl) (by rw [hfirst]; nofun), hnext,
      enumerate_failed _ hsecond, hfirst]
    rfl
  have hopen : brokenOff.openSCManagerA = .ok 8 := rfl
  unfold init
  rw [hopen]
  simp only [henum]

theorem partial_list_dumped : ¬ SoundRun .initial none
      [⟨.dumpInfo, listed, listed⟩, ⟨.resetFilter 0x30 3, listed, brokenOff⟩] ∧
    (Process.serve ⟨some twoServices, []⟩ ⟨.resetFilter 0x30 3, listed, brokenOff⟩).2 =
      ⟨some [⟨"a".toList, "A".toList, 4⟩], [8]⟩ := by
  have hserve : (Process.serve ⟨some twoServices, []⟩ ⟨.resetFilter 0x30 3, listed, brokenOff⟩).2 =
      ⟨some [⟨"a".toList, "A".toList, 4⟩], [8]⟩ := by
    change (Process.resetFilter ⟨some twoServices, []⟩ listed brokenOff 0x30 3).2 = _
    rw [resetFilter_eq (q := ⟨some twoServices, []⟩) rfl rfl, init_brokenOff]
  have hinit : init listed defaultType serviceStateAll [] [] = ⟨none, twoServices, []⟩ := by
    have hnot : ¬ listed.Struck defaultType serviceStateAll :=
      fun ⟨_, ask, _, hfails⟩ => hfails (failure_scmOf ask)
    rcases init_of_not_struck [] hnot with ⟨ec, hopen, _⟩ | ⟨_, hinit⟩
    · cases hopen
    · exact hinit
  have hget : (Process.serve .initial ⟨.dumpInfo, listed, listed⟩).2 = ⟨some twoServices, []⟩ := by
    change (Process.getInstance .initial listed).2 = _
    simp only [Process.getInstance, Process.initial, hinit]
  refine ⟨?_, hserve⟩
  rintro ⟨_, _, hsound, _⟩
  have hclosed := hsound.closed
  rw [hget, hserve] at hclosed
  cases hclosed

end SysUtils.Services

import SysUtils.NetCards.MacAddress
import SysUtils.Resources
import SysUtils.Services.Enumeration

namespace SysUtils.NetCards

open Resources
open Services (SysinfoError)

structure IP where
  ipAddr : List UInt8
  ipMask : List UInt8
  gateway : List UInt8
  deriving DecidableEq, Repr

structure NetCard where
  netCardName : List UInt8
  netCardDesc : List UInt8
  netCardMac : List Char
  netCardType : Int32
  ips : List IP
  deriving DecidableEq

structure IpAddrString where
  ipAddress : List UInt8
  ipMask : List UInt8

structure AdapterInfo where
  adapterName : List UInt8
  description : List UInt8
  mac : Adapter
  type : UInt32
  ipAddressList : IpAddrString
  ipAddressNext : List IpAddrString
  gateway : List UInt8

def cString (array : List UInt8) : List UInt8 := array.takeWhile fun c => c ≠ 0

abbrev Pointer := ℕ

inductive Block where
  | adapterInfo (p : Pointer)
  | bytes (p : Pointer)
  deriving DecidableEq, Repr

inductive Thrown where
  | sysinfoError (e : SysinfoError)
  /-- Undefined: a read in front of a string. -/
  | outOfBounds
  deriving DecidableEq, Repr

abbrev Session (α : Type) := Program Block Thrown α

def errorSuccess : ℕ := 0

def errorBufferOverflow : ℕ := 111

structure Answer where
  retCode : ℕ
  adapterSz : UInt32
  first : AdapterInfo
  next : List AdapterInfo

structure System where
  sizeofAdapterInfo : UInt32
  getAdaptersInfo : ℕ → UInt32 → Answer

def newAdapterInfo : Session Pointer := opening id fun p => some (.adapterInfo p)

def newBytes : Session Pointer := opening id fun p => some (.bytes p)

def delete (p : Pointer) : Session Unit := closing (.adapterInfo p)

def ipsOf (info : AdapterInfo) : List IP :=
  (info.ipAddressList :: info.ipAddressNext).map fun s =>
    ⟨cString s.ipAddress, cString s.ipMask, cString info.gateway⟩

def netCard (info : AdapterInfo) : Option NetCard :=
  (netCardMac info.mac).map fun mac =>
    ⟨cString info.adapterName, cString info.description, mac, info.type.toInt32, ipsOf info⟩

def appendCards : List AdapterInfo → List NetCard → Session (List NetCard)
  | [], netCards => pure netCards
  | info :: infos, netCards =>
      match netCard info with
      | none => throw .outOfBounds
      | some card => appendCards infos (netCards ++ [card])

def readAdapters (p : Pointer) (answer : Answer) (netCards : List NetCard) : Session (List NetCard) :=
  if answer.retCode ≠ errorSuccess then do
    delete p
    throw (.sysinfoError ⟨"NetCards Info Error!", answer.retCode⟩)
  else
    -- what is deleted behind the loop is the null pointer
    appendCards (answer.first :: answer.next) netCards

variable (sys : System)

def init (netCards : List NetCard) : Session (List NetCard) := do
  let p ← newAdapterInfo
  let answer ← ask fun n => sys.getAdaptersInfo n sys.sizeofAdapterInfo
  if answer.retCode = errorBufferOverflow then do
    delete p
    let p ← newBytes
    let answer ← ask fun n => sys.getAdaptersInfo n answer.adapterSz
    readAdapters p answer netCards
  else readAdapters p answer netCards

def firstAnswer (n : ℕ) : Answer := sys.getAdaptersInfo (n + 1) sys.sizeofAdapterInfo

def secondAnswer (n : ℕ) : Answer := sys.getAdaptersInfo (n + 4) (firstAnswer sys n).adapterSz

def lastAnswer (n : ℕ) : Answer :=
  if (firstAnswer sys n).retCode = errorBufferOverflow then secondAnswer sys n else firstAnswer sys n

def Answer.cards (answer : Answer) : Option (List NetCard) := (answer.first :: answer.next).mapM netCard

theorem run_appendCards (infos : List AdapterInfo) (netCards : List NetCard) (trace : Trace Block) :
    (appendCards infos netCards).run trace =
      match infos.mapM netCard with
      | some cards => .ok (netCards ++ cards) trace
      | none => .error .outOfBounds trace := by
  induction infos generalizing netCards with
  | nil => simp [appendCards]
  | cons info infos ih =>
    unfold appendCards
    rw [List.mapM_cons]
    cases netCard info with
    | none => rfl
    | some card =>
      simp only [ih]
      cases infos.mapM netCard with
      | none => rfl
      | some cards => simp

section

variable (n : ℕ)

def initOutcome (netCards : List NetCard) : Except Thrown (List NetCard) :=
  if (lastAnswer sys n).retCode ≠ errorSuccess then
    .error (.sysinfoError ⟨"NetCards Info Error!", (lastAnswer sys n).retCode⟩)
  else
    match (lastAnswer sys n).cards with
    | none => .error .outOfBounds
    | some cards => .ok (netCards ++ cards)

def initEvents : Trace Block :=
  if (firstAnswer sys n).retCode = errorBufferOverflow then
    (if (secondAnswer sys n).retCode ≠ errorSuccess then [.closed (.adapterInfo (n + 3))] else []) ++
      [.other, .opened (.bytes (n + 3)), .closed (.adapterInfo n), .other, .opened (.adapterInfo n)]
  else
    (if (firstAnswer sys n).retCode ≠ errorSuccess then [.closed (.adapterInfo n)] else []) ++
      [.other, .opened (.adapterInfo n)]

end

theorem run_readAdapters (p : Pointer) (answer : Answer) (netCards : List NetCard) (trace : Trace Block) :
    (readAdapters p answer netCards).run trace =
      if answer.retCode ≠ errorSuccess then
        .error (.sysinfoError ⟨"NetCards Info Error!", answer.retCode⟩) (.closed (.adapterInfo p) :: trace)
      else
        match answer.cards with
        | none => .error .outOfBounds trace
        | some cards => .ok (netCards ++ cards) trace := by
  unfold readAdapters
  split_ifs with hret
  · rfl
  · rw [run_appendCards]
    unfold Answer.cards
    cases (answer.first :: answer.next).mapM netCard <;> rfl

theorem run_init (netCards : List NetCard) (trace : Trace Block) :
    (init sys netCards).run trace =
      ended (initOutcome sys trace.length netCards) (initEvents sys trace.length) trace := by
  have hfirst : (init sys netCards).run trace =
      (if (firstAnswer sys trace.length).retCode = errorBufferOverflow then do
        delete trace.length
        let p ← newBytes
        let answer ← ask fun n => sys.getAdaptersInfo n (firstAnswer sys trace.length).adapterSz
        readAdapters p answer netCards
      else readAdapters trace.length (firstAnswer sys trace.length) netCards : Session _).run
        (.other :: .opened (.adapterInfo trace.length) :: trace) := rfl
  rw [hfirst]
  unfold initOutcome initEvents lastAnswer
  by_cases hover : (firstAnswer sys trace.length).retCode = errorBufferOverflow
  · rw [if_pos hover, if_pos hover, if_pos hover]
    have hsecond : (do
        delete trace.length
        let p ← newBytes
        let answer ← ask fun n => sys.getAdaptersInfo n (firstAnswer sys trace.length).adapterSz
        readAdapters p answer netCards : Session _).run
          (.other :: .opened (.adapterInfo trace.length) :: trace) =
        (readAdapters (trace.length + 3) (secondAnswer sys trace.length) netCards).run
          (.other :: .opened (.bytes (trace.length + 3)) :: .closed (.adapterInfo trace.length) :: .other ::
            .opened (.adapterInfo trace.length) :: trace) := rfl
    rw [hsecond, run_readAdapters]
    split_ifs with hret
    · rfl
    · cases (secondAnswer sys trace.length).cards <;> rfl
  · rw [if_neg hover, if_neg hover, if_neg hover, run_readAdapters]
    split_ifs with hret
    · rfl
    · cases (firstAnswer sys trace.length).cards <;> rfl

theorem settle_init (netCards : List NetCard) :
    settle 0 (final ((init sys netCards).run [])) =
      if (firstAnswer sys 0).retCode = errorBufferOverflow then
        if (secondAnswer sys 0).retCode ≠ errorSuccess then none else some {.bytes 3}
      else if (firstAnswer sys 0).retCode ≠ errorSuccess then some 0 else some {.adapterInfo 0} := by
  rw [run_init, final_ended, List.append_nil, List.length_nil]
  unfold initEvents
  split_ifs <;> rfl

/-- `Init` gives its buffer back exactly when the first call fails for another reason than a small buffer: the
list that is read is not deleted, and a second buffer is deleted as an `IP_ADAPTER_INFO`. -/
theorem init_gives_back_iff (netCards : List NetCard) :
    (Tidy (final ((init sys netCards).run [])) ↔
      (firstAnswer sys 0).retCode ≠ errorBufferOverflow ∧ (firstAnswer sys 0).retCode ≠ errorSuccess) ∧
    (settle 0 (final ((init sys netCards).run [])) = none ↔
      (firstAnswer sys 0).retCode = errorBufferOverflow ∧ (secondAnswer sys 0).retCode ≠ errorSuccess) ∧
    ((∃ block, settle 0 (final ((init sys netCards).run [])) = some {block}) ↔
      (lastAnswer sys 0).retCode = errorSuccess) := by
  have hsettle := settle_init sys netCards
  refine ⟨?_, ?_, ?_⟩
  · constructor
    · intro htidy
      have hopen := htidy 0
      rw [hsettle] at hopen
      split_ifs at hopen with hover hsecond hfirst
      · exact absurd (Option.some.inj hopen) (Multiset.singleton_ne_zero _)
      · exact ⟨hover, hfirst⟩
      · exact absurd (Option.some.inj hopen) (Multiset.singleton_ne_zero _)
    · rintro ⟨hover, hfirst⟩ held
      rw [run_init, final_ended, List.append_nil, List.length_nil, initEvents, if_neg hover, if_pos hfirst]
      exact @settle_closed _ _ _ [] _ held rfl
  · rw [hsettle]
    split_ifs with hover hsecond hfirst <;> simp_all
  · rw [hsettle]
    unfold lastAnswer
    split_ifs with hover hsecond hfirst <;> simp_all

structure Describes (info : AdapterInfo) (card : NetCard) : Prop where
  name : card.netCardName = cString info.adapterName
  desc : card.netCardDesc = cString info.description
  mac : Formatted info.mac.bytes card.netCardMac
  type : card.netCardType = info.type.toInt32
  ips : List.Forall₂ (fun s ip => ip = ⟨cString s.ipAddress, cString s.ipMask, cString info.gateway⟩)
    (info.ipAddressList :: info.ipAddressNext) card.ips

structure Reports (table : ℕ → AdapterInfo × List AdapterInfo) (needed : ℕ → UInt32) : Prop where
  fits : ∀ n size, needed n ≤ size → (sys.getAdaptersInfo n size).retCode = errorSuccess ∧
    ((sys.getAdaptersInfo n size).first, (sys.getAdaptersInfo n size).next) = table n
  small : ∀ n size, size < needed n → (sys.getAdaptersInfo n size).retCode = errorBufferOverflow ∧
    (sys.getAdaptersInfo n size).adapterSz = needed n

theorem bytes_eq_nil_iff (a : Adapter) : a.bytes = [] ↔ a.addressLength = 0 := by
  have hfits := a.fits
  rw [← List.length_eq_zero_iff, Adapter.bytes, List.length_take]
  omega

theorem netCard_of_address {info : AdapterInfo} (h : info.mac.addressLength ≠ 0) :
    ∃ card, netCard info = some card ∧ Describes info card := by
  have hbytes : info.mac.bytes ≠ [] := mt (bytes_eq_nil_iff info.mac).mp h
  have hmac := netCardMac_eq info.mac
  rw [if_neg hbytes] at hmac
  refine ⟨_, by rw [netCard, hmac]; rfl, rfl, rfl, ⟨rfl, readMac_parts _ hbytes⟩, rfl, ?_⟩
  exact List.forall₂_map_right_iff.mpr (List.forall₂_same.mpr fun _ _ => rfl)

theorem netCard_of_no_address {info : AdapterInfo} (h : info.mac.addressLength = 0) : netCard info = none := by
  rw [netCard, netCardMac_eq, if_pos ((bytes_eq_nil_iff info.mac).mpr h)]
  rfl

theorem cards_of_addresses {infos : List AdapterInfo} (h : ∀ info ∈ infos, info.mac.addressLength ≠ 0) :
    ∃ cards, infos.mapM netCard = some cards ∧ List.Forall₂ Describes infos cards := by
  induction infos with
  | nil => exact ⟨[], rfl, .nil⟩
  | cons info infos ih =>
    obtain ⟨card, hcard, hdescribes⟩ := netCard_of_address (h info (.head _))
    obtain ⟨cards, hcards, hall⟩ := ih fun other hother => h other (.tail _ hother)
    refine ⟨card :: cards, ?_, .cons hdescribes hall⟩
    rw [List.mapM_cons, hcard, hcards]
    rfl

theorem addresses_of_cards {infos : List AdapterInfo} {cards : List NetCard}
    (h : infos.mapM netCard = some cards) : ∀ info ∈ infos, info.mac.addressLength ≠ 0 := by
  induction infos generalizing cards with
  | nil => exact fun _ hinfo => by cases hinfo
  | cons info infos ih =>
    rw [List.mapM_cons] at h
    obtain ⟨card, hcard, h⟩ := Option.bind_eq_some_iff.mp h
    obtain ⟨rest, hrest, _⟩ := Option.bind_eq_some_iff.mp h
    intro other hother
    rcases List.mem_cons.mp hother with rfl | hother
    · intro hzero
      rw [netCard_of_no_address hzero] at hcard
      cases hcard
    · exact ih hrest other hother

section

variable {table : ℕ → AdapterInfo × List AdapterInfo} {needed : ℕ → UInt32}

def Roomy (needed : ℕ → UInt32) (n : ℕ) : Prop :=
  needed (n + 1) ≤ sys.sizeofAdapterInfo ∨ needed (n + 4) ≤ needed (n + 1)

def lastCall (needed : ℕ → UInt32) (n : ℕ) : ℕ := if needed (n + 1) ≤ sys.sizeofAdapterInfo then n + 1 else n + 4

def tableAt (table : ℕ → AdapterInfo × List AdapterInfo) (n : ℕ) : List AdapterInfo := (table n).1 :: (table n).2

variable {sys}

theorem Reports.lastAnswer (h : Reports sys table needed) (n : ℕ) :
    (Roomy sys needed n → (lastAnswer sys n).retCode = errorSuccess ∧
      (lastAnswer sys n).first :: (lastAnswer sys n).next = tableAt table (lastCall sys needed n)) ∧
    (¬ Roomy sys needed n → (lastAnswer sys n).retCode = errorBufferOverflow) := by
  unfold NetCards.lastAnswer lastCall Roomy
  by_cases hfirst : needed (n + 1) ≤ sys.sizeofAdapterInfo
  · obtain ⟨hret, htable⟩ := h.fits (n + 1) sys.sizeofAdapterInfo hfirst
    have hover : (firstAnswer sys n).retCode ≠ errorBufferOverflow := by
      rw [firstAnswer, hret]
      decide
    rw [if_neg hover, if_pos hfirst, tableAt, ← htable]
    exact ⟨fun _ => ⟨hret, rfl⟩, fun hnot => absurd (.inl hfirst) hnot⟩
  · obtain ⟨hover, hsize⟩ := h.small (n + 1) sys.sizeofAdapterInfo (UInt32.not_le.mp hfirst)
    have hfirstOver : (firstAnswer sys n).retCode = errorBufferOverflow := hover
    have hsecond : secondAnswer sys n = sys.getAdaptersInfo (n + 4) (needed (n + 1)) := by
      rw [← hsize]
      rfl
    rw [if_pos hfirstOver, if_neg hfirst, hsecond, or_iff_right hfirst]
    constructor
    · intro hle
      obtain ⟨hret, htable⟩ := h.fits (n + 4) (needed (n + 1)) hle
      rw [tableAt, ← htable]
      exact ⟨hret, rfl⟩
    · intro hgrown
      exact (h.small (n + 4) (needed (n + 1)) (UInt32.not_le.mp hgrown)).1

theorem Reports.initOutcome (h : Reports sys table needed) (netCards : List NetCard) (n : ℕ) :
    (Roomy sys needed n → initOutcome sys n netCards =
      match (tableAt table (lastCall sys needed n)).mapM netCard with
      | none => .error .outOfBounds
      | some cards => .ok (netCards ++ cards)) ∧
    (¬ Roomy sys needed n → initOutcome sys n netCards =
      .error (.sysinfoError ⟨"NetCards Info Error!", errorBufferOverflow⟩)) := by
  obtain ⟨hroomy, hgrown⟩ := h.lastAnswer n
  unfold NetCards.initOutcome
  constructor
  · intro hr
    obtain ⟨hret, htable⟩ := hroomy hr
    rw [if_neg (not_not_intro hret), Answer.cards, htable]
  · intro hr
    have hret := hgrown hr
    rw [hret, if_pos (by decide)]

end

theorem init_lists_iff {sys : System} {table : ℕ → AdapterInfo × List AdapterInfo} {needed : ℕ → UInt32}
    (h : Reports sys table needed) (netCards : List NetCard) (trace : Trace Block) :
    ((∃ cards trace', (init sys netCards).run trace = .ok (netCards ++ cards) trace' ∧
      List.Forall₂ Describes (tableAt table (lastCall sys needed trace.length)) cards) ↔
        Roomy sys needed trace.length ∧
          ∀ info ∈ tableAt table (lastCall sys needed trace.length), info.mac.addressLength ≠ 0) ∧
    (¬ Roomy sys needed trace.length → ∃ trace', (init sys netCards).run trace =
      .error (.sysinfoError ⟨"NetCards Info Error!", errorBufferOverflow⟩) trace') := by
  obtain ⟨hroomy, hgrown⟩ := h.initOutcome netCards trace.length
  rw [run_init]
  constructor
  · constructor
    · rintro ⟨cards, trace', hrun, _⟩
      have hr : Roomy sys needed trace.length := by
        by_contra hnot
        rw [hgrown hnot] at hrun
        cases hrun
      rw [hroomy hr] at hrun
      cases hcards : (tableAt table (lastCall sys needed trace.length)).mapM netCard with
      | none => rw [hcards] at hrun; cases hrun
      | some cards => exact ⟨hr, addresses_of_cards hcards⟩
    · rintro ⟨hr, haddresses⟩
      obtain ⟨cards, hcards, hall⟩ := cards_of_addresses haddresses
      refine ⟨cards, initEvents sys trace.length ++ trace, ?_, hall⟩
      rw [hroomy hr, hcards]
      rfl
  · intro hnot
    rw [hgrown hnot]
    exact ⟨_, rfl⟩

def ethernet (name : UInt8) : AdapterInfo :=
  ⟨[name, 0], [], ⟨[0, 10, 255, 1, 2, 3, 0, 0], 6, by decide⟩, 6, ⟨[49, 0], [50, 0]⟩, [⟨[51, 0], [52, 0]⟩], [53, 0]⟩

def plugged (later : ℕ) : ℕ → AdapterInfo × List AdapterInfo :=
  fun n => if n < later then (ethernet 97, []) else (ethernet 97, [ethernet 98])

def plugging (later : ℕ) (sizes : ℕ → UInt32) : System where
  sizeofAdapterInfo := 640
  getAdaptersInfo n size :=
    if sizes n ≤ size then ⟨errorSuccess, size, (plugged later n).1, (plugged later n).2⟩
    else ⟨errorBufferOverflow, sizes n, ethernet 97, []⟩

theorem plugging_reports (later : ℕ) (sizes : ℕ → UInt32) :
    Reports (plugging later sizes) (plugged later) sizes where
  fits n size hle := by
    have hanswer : (plugging later sizes).getAdaptersInfo n size = _ := if_pos hle
    rw [hanswer]
    exact ⟨rfl, rfl⟩
  small n size hlt := by
    have hanswer : (plugging later sizes).getAdaptersInfo n size = _ := if_neg (UInt32.not_le.mpr hlt)
    rw [hanswer]
    exact ⟨rfl, rfl⟩

def growing : ℕ → UInt32 := fun n => if n < 3 then 1280 else 1920

theorem init_lists_plugged :
    (∃ cards trace', (init (plugging 3 fun _ => 1280) []).run [] = .ok cards trace' ∧
      List.Forall₂ Describes [ethernet 97, ethernet 98] cards) ∧
    ∃ trace', (init (plugging 3 growing) []).run [] =
      .error (.sysinfoError ⟨"NetCards Info Error!", 111⟩) trace' := by
  refine ⟨(init_lists_iff (plugging_reports 3 fun _ => 1280) [] []).1.mpr ⟨.inr (by decide), ?_⟩, ?_⟩
  · intro info hinfo
    rcases List.mem_cons.mp hinfo with rfl | hinfo
    · decide
    · rw [List.mem_singleton.mp hinfo]
      decide
  · exact (init_lists_iff (plugging_reports 3 growing) [] []).2 (by unfold Roomy; decide)

end SysUtils.NetCards

import SysUtils.NetCards.Adapters

namespace SysUtils.NetCards

open Resources
open Services (SysinfoError)

inductive Call where
  | getInstance | dumpInfo | reflush | reflushAndDumpInfo
  deriving DecidableEq, Repr

abbrev Process := Option (List NetCard)

abbrev Reply := Except SysinfoError (Option (List NetCard))

variable (sys : System)

def attempt {α : Type} (x : Session α) : Session (Except SysinfoError α) :=
  tryCatch
    (do
      let a ← x
      pure (.ok a))
    fun
      | .sysinfoError e => pure (.error e)
      | .outOfBounds => throw .outOfBounds

/-- `Instance`: an instance whose constructor throws is constructed again at the next call. -/
def getInstance : Process → Session (Except SysinfoError (List NetCard))
  | some netCards => pure (.ok netCards)
  | none => attempt (init sys [])

def reflush (p : Process) : Session (Except SysinfoError Unit × Process) := do
  match ← getInstance sys p with
  | .error e => pure (.error e, none)
  | .ok _ =>
      -- `Clear`
      match ← attempt (init sys []) with
      | .error e => pure (.error e, some [])
      | .ok netCards => pure (.ok (), some netCards)

def serve (p : Process) : Call → Session (Reply × Process)
  | .getInstance => do
      match ← getInstance sys p with
      | .error e => pure (.error e, none)
      | .ok netCards => pure (.ok none, some netCards)
  | .dumpInfo => do
      match ← getInstance sys p with
      | .error e => pure (.error e, none)
      | .ok netCards => pure (.ok (some netCards), some netCards)
  | .reflush => do
      match ← reflush sys p with
      | (.error e, p) => pure (.error e, p)
      | (.ok (), p) => pure (.ok none, p)
  | .reflushAndDumpInfo => do
      match ← reflush sys p with
      | (.error e, p) => pure (.error e, p)
      | (.ok (), p) => pure (.ok p, p)

def serveAll (p : Process) : List Call → Session (List Reply × Process)
  | [] => pure ([], p)
  | call :: calls => do
      let (reply, p) ← serve sys p call
      let (replies, p) ← serveAll p calls
      pure (reply :: replies, p)

def Listed (n : ℕ) (netCards : List NetCard) : Prop :=
  (lastAnswer sys n).retCode = errorSuccess ∧ (lastAnswer sys n).cards = some netCards

def Leaks (trace trace' : Trace Block) (k : ℕ) : Prop :=
  ∀ m', settle 0 trace' = some m' → ∃ m, settle 0 trace = some m ∧ m'.card = m.card + k

theorem Leaks.refl (trace : Trace Block) : Leaks trace trace 0 := fun m h => ⟨m, h, rfl⟩

theorem Leaks.trans {trace trace' trace'' : Trace Block} {k k' : ℕ} (h : Leaks trace trace' k)
    (h' : Leaks trace' trace'' k') : Leaks trace trace'' (k + k') := by
  intro m'' hm''
  obtain ⟨m', hm', hcard'⟩ := h' m'' hm''
  obtain ⟨m, hm, hcard⟩ := h m' hm'
  exact ⟨m, hm, by omega⟩

theorem leaks_other (trace : Trace Block) : Leaks trace (.other :: trace) 0 := fun m h => ⟨m, h, rfl⟩

theorem leaks_opened (block : Block) (trace : Trace Block) : Leaks trace (.opened block :: trace) 1 := by
  intro m' hm'
  obtain ⟨m, hm, rfl⟩ := Option.map_eq_some_iff.mp hm'
  exact ⟨m, hm, Multiset.card_cons block m⟩

theorem Leaks.closed {trace trace' : Trace Block} {k : ℕ} (h : Leaks trace trace' (k + 1)) (block : Block) :
    Leaks trace (.closed block :: trace') k := by
  intro m' hm'
  obtain ⟨m₁, hm₁, hclose⟩ := Option.bind_eq_some_iff.mp hm'
  obtain ⟨hmem, hm'⟩ := Option.ite_none_right_eq_some.mp hclose
  obtain rfl := Option.some.inj hm'
  obtain ⟨m, hm, hcard⟩ := h m₁ hm₁
  have herase := Multiset.card_erase_add_one hmem
  exact ⟨m, hm, by omega⟩

theorem leaks_init (netCards : List NetCard) (trace : Trace Block) :
    Leaks trace (final ((init sys netCards).run trace))
      (if (lastAnswer sys trace.length).retCode = errorSuccess then 1 else 0) := by
  have hfirst := (leaks_opened (.adapterInfo trace.length) trace).trans (leaks_other _)
  have hsecond := (hfirst.closed (.adapterInfo trace.length)).trans
    ((leaks_opened (.bytes (trace.length + 3)) _).trans (leaks_other _))
  rw [run_init, final_ended]
  unfold initEvents lastAnswer
  by_cases hover : (firstAnswer sys trace.length).retCode = errorBufferOverflow
  · rw [if_pos hover, if_pos hover]
    by_cases hret : (secondAnswer sys trace.length).retCode = errorSuccess
    · rw [if_neg (not_not_intro hret), if_pos hret]
      exact hsecond
    · rw [if_pos hret, if_neg hret]
      exact hsecond.closed _
  · rw [if_neg hover, if_neg hover]
    by_cases hret : (firstAnswer sys trace.length).retCode = errorSuccess
    · rw [if_neg (not_not_intro hret), if_pos hret]
      exact hfirst
    · rw [if_pos hret, if_neg hret]
      exact hfirst.closed _

theorem run_attempt {α : Type} (x : Session α) (trace : Trace Block) :
    (attempt x).run trace = match x.run trace with
      | .ok a trace' => .ok (.ok a) trace'
      | .error (.sysinfoError e) trace' => .ok (.error e) trace'
      | .error .outOfBounds trace' => .error .outOfBounds trace' := by
  unfold attempt
  rw [run_tryCatch]
  cases h : x.run trace with
  | ok a trace' => rw [run_bind_ok h]; rfl
  | error e trace' => rw [run_bind_error h]; cases e <;> rfl

theorem listed_of_initOutcome {n : ℕ} {netCards : List NetCard} (h : initOutcome sys n [] = .ok netCards) :
    Listed sys n netCards := by
  unfold initOutcome at h
  split_ifs at h with hret
  cases hcards : (lastAnswer sys n).cards with
  | none => rw [hcards] at h; cases h
  | some cards =>
    rw [hcards] at h
    obtain rfl := Except.ok.inj h
    exact ⟨not_not.mp hret, hcards⟩

theorem not_success_of_initOutcome {n : ℕ} {e : SysinfoError}
    (h : initOutcome sys n [] = .error (.sysinfoError e)) : (lastAnswer sys n).retCode ≠ errorSuccess := by
  unfold initOutcome at h
  split_ifs at h with hret
  · exact hret
  · cases hcards : (lastAnswer sys n).cards <;> rw [hcards] at h <;> cases h

theorem attempt_init (trace : Trace Block) : Yields (attempt (init sys [])) trace fun result trace' =>
    trace.length ≤ trace'.length ∧
    match result with
    | .error _ => Leaks trace trace' 0
    | .ok netCards => Listed sys trace.length netCards ∧ Leaks trace trace' 1 := by
  have hleaks := leaks_init sys [] trace
  intro result trace' hresult
  rw [run_init, final_ended] at hleaks
  rw [run_attempt, run_init] at hresult
  have hlonger : trace.length ≤ (initEvents sys trace.length ++ trace).length := by simp
  cases houtcome : initOutcome sys trace.length [] with
  | ok netCards =>
    rw [houtcome] at hresult
    cases hresult
    have hlisted := listed_of_initOutcome sys houtcome
    rw [if_pos hlisted.1] at hleaks
    exact ⟨hlonger, hlisted, hleaks⟩
  | error e =>
    rw [houtcome] at hresult
    cases e with
    | sysinfoError e =>
      cases hresult
      rw [if_neg (not_success_of_initOutcome sys houtcome)] at hleaks
      exact ⟨hlonger, hleaks⟩
    | outOfBounds => cases hresult

def Call.reflushes : Call → Bool
  | .reflush | .reflushAndDumpInfo => true
  | .getInstance | .dumpInfo => false

def succeeds {α : Type} : Except SysinfoError α → Bool
  | .ok _ => true
  | .error _ => false

def leaked (p p' : Process) (reflushed : Bool) : ℕ :=
  (if p = none ∧ p' ≠ none then 1 else 0) + if reflushed then 1 else 0

structure Served (p : Process) (trace : Trace Block) (call : Call) (reply : Reply) (p' : Process)
    (trace' : Trace Block) : Prop where
  dumped : ∀ netCards, reply = .ok (some netCards) → p' = some netCards
  whole : ∀ netCards, p' = some netCards → p = p' ∨ netCards = [] ∨ ∃ n, trace.length ≤ n ∧ Listed sys n netCards
  fresh : call.reflushes = true → succeeds reply = true → ∃ n netCards, trace.length ≤ n ∧ p' = some netCards ∧
    Listed sys n netCards
  cleared : call.reflushes = true → succeeds reply = false → p' = none ∨ p' = some []
  constructed : p ≠ none → p' ≠ none
  leaks : Leaks trace trace' (leaked p p' (call.reflushes && succeeds reply))

theorem getInstance_yields (p : Process) (trace : Trace Block) :
    Yields (getInstance sys p) trace fun result trace' =>
      trace.length ≤ trace'.length ∧
      match result with
      | .error _ => p = none ∧ Leaks trace trace' 0
      | .ok netCards => (p = some netCards ∧ Leaks trace trace' 0) ∨
          (p = none ∧ Listed sys trace.length netCards ∧ Leaks trace trace' 1) := by
  cases p with
  | some netCards => exact Yields.pure ⟨le_rfl, .inl ⟨rfl, .refl trace⟩⟩
  | none =>
    intro result trace' hrun
    obtain ⟨hlonger, hresult⟩ := attempt_init sys trace result trace' hrun
    cases result with
    | error e => exact ⟨hlonger, rfl, hresult⟩
    | ok netCards => exact ⟨hlonger, .inr ⟨rfl, hresult⟩⟩

theorem reflush_yields (p : Process) (trace : Trace Block) :
    Yields (reflush sys p) trace fun result trace' =>
      match result with
      | (.error _, p') => (p = none ∧ p' = none ∧ Leaks trace trace' 0) ∨
          (p' = some [] ∧ Leaks trace trace' (leaked p p' false))
      | (.ok (), p') => ∃ n netCards, trace.length ≤ n ∧ p' = some netCards ∧ Listed sys n netCards ∧
          Leaks trace trace' (leaked p p' true) := by
  unfold reflush
  refine (getInstance_yields sys p trace).bind ?_
  rintro (e | netCards) middle ⟨hlonger, hget⟩
  · exact Yields.pure (.inl ⟨hget.1, rfl, hget.2⟩)
  · refine (attempt_init sys middle).bind ?_
    have hconstructed : Leaks trace middle (if p = none then 1 else 0) := by
      rcases hget with ⟨rfl, hleaks⟩ | ⟨rfl, _, hleaks⟩
      · exact hleaks
      · exact hleaks
    rintro (e | netCards) trace' ⟨_, hinit⟩
    · apply Yields.pure
      right
      refine ⟨rfl, ?_⟩
      simpa [leaked] using hconstructed.trans hinit
    · apply Yields.pure
      refine ⟨middle.length, netCards, hlonger, rfl, hinit.1, ?_⟩
      simpa [leaked] using hconstructed.trans hinit.2

theorem serve_yields (p : Process) (trace : Trace Block) (call : Call) :
    Yields (serve sys p call) trace fun result trace' => Served sys p trace call result.1 result.2 trace' := by
  have hget (call : Call) (hcall : call.reflushes = false) (dump : List NetCard → Option (List NetCard))
      (hdump : ∀ cards cards', dump cards = some cards' → cards' = cards) :
      Yields (do
        match ← getInstance sys p with
        | .error e => pure (.error e, none)
        | .ok netCards => pure (.ok (dump netCards), some netCards) : Session (Reply × Process)) trace
          fun result trace' => Served sys p trace call result.1 result.2 trace' := by
    refine (getInstance_yields sys p trace).bind ?_
    rintro (e | netCards) trace' ⟨_, hresult⟩
    · apply Yields.pure
      obtain ⟨rfl, hleaks⟩ := hresult
      refine ⟨nofun, nofun, by simp [hcall], by simp [hcall], fun h => absurd rfl h, ?_⟩
      simpa [leaked, hcall] using hleaks
    · apply Yields.pure
      refine ⟨?_, ?_, by simp [hcall], by simp [hcall], fun _ => nofun, ?_⟩
      · rintro cards hreply
        rw [hdump netCards cards (Except.ok.inj hreply)]
      · rintro _ ⟨⟩
        rcases hresult with ⟨hp, _⟩ | ⟨_, hlisted, _⟩
        · exact .inl hp
        · exact .inr (.inr ⟨_, le_rfl, hlisted⟩)
      · rcases hresult with ⟨rfl, hleaks⟩ | ⟨rfl, _, hleaks⟩
        · simpa [leaked, hcall] using hleaks
        · simpa [leaked, hcall] using hleaks
  have hreflush (call : Call) (hcall : call.reflushes = true) (dump : Process → Option (List NetCard))
      (hdump : ∀ q cards, dump q = some cards → q = some cards) :
      Yields (do
        match ← reflush sys p with
        | (.error e, q) => pure (.error e, q)
        | (.ok (), q) => pure (.ok (dump q), q) : Session (Reply × Process)) trace
          fun result trace' => Served sys p trace call result.1 result.2 trace' := by
    refine (reflush_yields sys p trace).bind ?_
    rintro ⟨e | u, q⟩ trace' hresult
    · apply Yields.pure
      refine ⟨nofun, ?_, by simp [succeeds], ?_, ?_, ?_⟩
      · rcases hresult with ⟨_, rfl, _⟩ | ⟨rfl, _⟩
        · exact nofun
        · rintro _ ⟨⟩
          exact .inr (.inl rfl)
      · intro _ _
        exact hresult.imp (fun h => h.2.1) fun h => h.1
      · rintro hne rfl
        rcases hresult with ⟨hnone, _⟩ | ⟨hsome, _⟩
        · exact hne hnone
        · cases hsome
      · rcases hresult with ⟨rfl, rfl, hleaks⟩ | ⟨_, hleaks⟩
        · simpa [leaked, succeeds] using hleaks
        · simpa [succeeds] using hleaks
    · apply Yields.pure
      obtain ⟨n, netCards, hn, rfl, hlisted, hleaks⟩ := hresult
      refine ⟨?_, ?_, fun _ _ => ⟨n, netCards, hn, rfl, hlisted⟩, by simp [succeeds], fun _ => nofun, ?_⟩
      · intro cards hreply
        exact hdump _ cards (Except.ok.inj hreply)
      · rintro _ ⟨⟩
        exact .inr (.inr ⟨n, hn, hlisted⟩)
      · simpa [hcall, succeeds] using hleaks
  cases call with
  | getInstance => exact hget .getInstance rfl (fun _ => none) nofun
  | dumpInfo => exact hget .dumpInfo rfl some fun _ _ h => (Option.some.inj h).symm
  | reflush => exact hreflush .reflush rfl (fun _ => none) nofun
  | reflushAndDumpInfo => exact hreflush .reflushAndDumpInfo rfl id fun _ _ h => h

def reflushed (calls : List Call) (replies : List Reply) : ℕ :=
  (calls.zip replies).countP fun c => c.1.reflushes && succeeds c.2

def Whole (p : Process) : Prop := ∀ netCards, p = some netCards → netCards = [] ∨ ∃ n, Listed sys n netCards

variable {sys} {p p' : Process} {trace trace' : Trace Block} {call : Call} {reply : Reply}

theorem Served.keepsWhole (h : Served sys p trace call reply p' trace') (hp : Whole sys p) : Whole sys p' := by
  intro netCards hcards
  rcases h.whole netCards hcards with rfl | hnil | ⟨n, _, hlisted⟩
  · exact hp netCards hcards
  · exact .inl hnil
  · exact .inr ⟨n, hlisted⟩

theorem leaked_trans {p₁ p₂ p₃ : Process} (h : p₁ ≠ none → p₂ ≠ none) (h' : p₂ ≠ none → p₃ ≠ none) (r : Bool)
    (k : ℕ) : leaked p₁ p₂ r + ((if p₂ = none ∧ p₃ ≠ none then 1 else 0) + k) =
      (if p₁ = none ∧ p₃ ≠ none then 1 else 0) + ((if r then 1 else 0) + k) := by
  unfold leaked
  cases p₁ with
  | none => cases p₂ <;> cases p₃ <;> simp_all <;> omega
  | some netCards =>
    obtain ⟨_, rfl⟩ := Option.ne_none_iff_exists'.mp (h nofun)
    simp

variable (sys)

theorem serveAll_yields (p : Process) (trace : Trace Block) (calls : List Call) :
    Yields (serveAll sys p calls) trace fun result trace' =>
      (Whole sys p → Whole sys result.2) ∧ (p ≠ none → result.2 ≠ none) ∧
      Leaks trace trace' ((if p = none ∧ result.2 ≠ none then 1 else 0) + reflushed calls result.1) := by
  induction calls generalizing p trace with
  | nil =>
    apply Yields.pure
    refine ⟨id, id, ?_⟩
    cases p <;> exact .refl trace
  | cons call calls ih =>
    refine (serve_yields sys p trace call).bind ?_
    rintro ⟨reply, q⟩ middle hserved
    refine (ih q middle).bind ?_
    rintro ⟨replies, p'⟩ trace' ⟨hwhole, hconstructed, hleaks⟩
    apply Yields.pure
    refine ⟨fun h => hwhole (hserved.keepsWhole h), fun h => hconstructed (hserved.constructed h), ?_⟩
    have hall := hserved.leaks.trans hleaks
    rw [leaked_trans hserved.constructed hconstructed] at hall
    rw [reflushed, List.zip_cons_cons, List.countP_cons]
    rw [Nat.add_comm (List.countP _ _)]
    exact hall

theorem reflush_reads_anew (sys : System) (calls : List Call) {replies : List Reply} {p p' : Process}
    {trace trace' : Trace Block} {call : Call} {reply : Reply}
    (hcalls : (serveAll sys none calls).run [] = .ok (replies, p) trace)
    (hcall : (serve sys p call).run trace = .ok (reply, p') trace') :
    (∀ netCards, reply = .ok (some netCards) → netCards = [] ∨ ∃ n, Listed sys n netCards) ∧
    (call.reflushes = true → succeeds reply = true → ∃ n netCards, trace.length ≤ n ∧ p' = some netCards ∧
      Listed sys n netCards) ∧
    (call.reflushes = true → succeeds reply = false → p' = none ∨ p' = some []) ∧
    ∀ m, settle 0 trace = some m → m.card = (if p = none then 0 else 1) + reflushed calls replies := by
  obtain ⟨hwhole, _, hleaks⟩ := serveAll_yields sys none [] calls _ _ hcalls
  have hserved := serve_yields sys p trace call _ _ hcall
  refine ⟨?_, hserved.fresh, hserved.cleared, ?_⟩
  · intro netCards hreply
    exact hserved.keepsWhole (hwhole nofun) netCards (hserved.dumped netCards hreply)
  · intro m hm
    obtain ⟨m₀, hm₀, hcard⟩ := hleaks m hm
    obtain rfl : 0 = m₀ := Option.some.inj hm₀
    rw [hcard, Multiset.card_zero, Nat.zero_add]
    cases p <;> simp

def twoCards : System := plugging 0 fun _ => 1

theorem attempt_twoCards : ∃ cards, ∀ trace, (attempt (init twoCards [])).run trace =
    .ok (.ok cards) (.other :: .opened (.adapterInfo trace.length) :: trace) := by
  have haddresses : ∀ info ∈ tableAt (plugged 0) 0, info.mac.addressLength ≠ 0 := by
    intro info hinfo
    rcases List.mem_cons.mp hinfo with rfl | hinfo
    · decide
    · rw [List.mem_singleton.mp hinfo]
      decide
  obtain ⟨cards, hcards, _⟩ := cards_of_addresses haddresses
  refine ⟨cards, ?_⟩
  intro trace
  have hsmall : (1 : UInt32) ≤ 640 := by decide
  have houtcome := ((plugging_reports 0 fun _ => 1).initOutcome [] trace.length).1 (.inl hsmall)
  have htable : tableAt (plugged 0) (lastCall (plugging 0 fun _ => 1) (fun _ => 1) trace.length) =
      tableAt (plugged 0) 0 := rfl
  rw [htable, hcards] at houtcome
  have hread : initOutcome twoCards trace.length [] = .ok cards := houtcome
  rw [run_attempt, run_init, hread]
  rfl

theorem reflush_reads_anew_twoCards : ∃ replies p trace p' trace' netCards,
    (serveAll twoCards none [.dumpInfo]).run [] = .ok (replies, p) trace ∧
    (serve twoCards p .reflushAndDumpInfo).run trace = .ok (.ok (some netCards), p') trace' ∧
    ∃ n netCards, trace.length ≤ n ∧ p' = some netCards ∧ Listed twoCards n netCards := by
  obtain ⟨cards, hattempt⟩ := attempt_twoCards
  have hdump : (serve twoCards none .dumpInfo).run [] =
      .ok (.ok (some cards), some cards) [.other, .opened (.adapterInfo 0)] := by
    unfold serve getInstance
    rw [run_bind_ok (hattempt [])]
    rfl
  have hcalls : (serveAll twoCards none [.dumpInfo]).run [] =
      .ok ([.ok (some cards)], some cards) [.other, .opened (.adapterInfo 0)] := by
    unfold serveAll
    rw [run_bind_ok hdump]
    rfl
  have hcall (trace : Trace Block) : (serve twoCards (some cards) .reflushAndDumpInfo).run trace =
      .ok (.ok (some cards), some cards) (.other :: .opened (.adapterInfo trace.length) :: trace) := by
    have hreflush : (reflush twoCards (some cards)).run trace =
        .ok (.ok (), some cards) (.other :: .opened (.adapterInfo trace.length) :: trace) := by
      change (attempt (init twoCards []) >>= _).run trace = _
      rw [run_bind_ok (hattempt trace)]
      rfl
    unfold serve
    rw [run_bind_ok hreflush]
    rfl
  exact ⟨_, _, _, _, _, _, hcalls, hcall _, (reflush_reads_anew twoCards _ hcalls (hcall _)).2.1 rfl rfl⟩

end SysUtils.NetCards

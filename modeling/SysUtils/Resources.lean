import Mathlib.Data.Multiset.AddSub

namespace SysUtils.Resources

inductive Event (H : Type) where
  | opened (h : H)
  | closed (h : H)
  | other
  deriving DecidableEq, Repr

/-- The events so far, the newest first. -/
abbrev Trace (H : Type) := List (Event H)

abbrev Program (H ε α : Type) := EStateM ε (Trace H) α

variable {H ε α β : Type}

def final : EStateM.Result ε (Trace H) α → Trace H
  | .ok _ trace => trace
  | .error _ trace => trace

def ended (outcome : Except ε α) (events trace : Trace H) : EStateM.Result ε (Trace H) α :=
  match outcome with
  | .ok a => .ok a (events ++ trace)
  | .error e => .error e (events ++ trace)

def ask (answer : ℕ → α) : Program H ε α := fun trace => .ok (answer trace.length) (.other :: trace)

def opening (answer : ℕ → α) (handle : α → Option H) : Program H ε α := fun trace =>
  .ok (answer trace.length) (((handle (answer trace.length)).elim .other .opened) :: trace)

def closing (h : H) : Program H ε Unit := fun trace => .ok () (.closed h :: trace)

section

variable [DecidableEq H]

/-- The resources that are open after the events when `held` were before; `none` is the closing of one that
is not open. -/
def settle (held : Multiset H) : Trace H → Option (Multiset H)
  | [] => some held
  | .opened h :: trace => (settle held trace).map fun m => h ::ₘ m
  | .closed h :: trace => (settle held trace).bind fun m => if h ∈ m then some (m.erase h) else none
  | .other :: trace => settle held trace

def Tidy (trace : Trace H) : Prop := ∀ held, settle held trace = some held

def Keeps (x : Program H ε α) : Prop :=
  ∀ trace held, settle held (final (x.run trace)) = settle held trace

end

theorem run_tryCatch (x : Program H ε α) (handle : ε → Program H ε α) (trace : Trace H) :
    (tryCatch x handle).run trace = match x.run trace with
      | .ok a trace' => .ok a trace'
      | .error e trace' => (handle e).run trace' := by
  change EStateM.tryCatch x handle trace = _
  unfold EStateM.tryCatch EStateM.run
  cases x trace <;> rfl

theorem run_tryCatch_error {x : Program H ε α} {handle : ε → Program H ε α} {e : ε} {trace trace' : Trace H}
    (hx : x.run trace = .error e trace') : (tryCatch x handle).run trace = (handle e).run trace' := by
  rw [run_tryCatch, hx]

theorem run_ask (answer : ℕ → α) (trace : Trace H) :
    (ask answer : Program H ε α).run trace = .ok (answer trace.length) (.other :: trace) := rfl

theorem run_opening (answer : ℕ → α) (handle : α → Option H) (trace : Trace H) :
    (opening answer handle : Program H ε α).run trace =
      .ok (answer trace.length) (((handle (answer trace.length)).elim .other .opened) :: trace) := rfl

theorem run_bind_ok {x : Program H ε α} {f : α → Program H ε β} {a : α} {trace trace' : Trace H}
    (hx : x.run trace = .ok a trace') : (x >>= f).run trace = (f a).run trace' := by
  rw [EStateM.run_bind, hx]

theorem run_bind_error {x : Program H ε α} {f : α → Program H ε β} {e : ε} {trace trace' : Trace H}
    (hx : x.run trace = .error e trace') : (x >>= f).run trace = .error e trace' := by
  rw [EStateM.run_bind, hx]

def Yields (x : Program H ε α) (trace : Trace H) (Q : α → Trace H → Prop) : Prop :=
  ∀ a trace', x.run trace = .ok a trace' → Q a trace'

theorem Yields.pure {a : α} {trace : Trace H} {Q : α → Trace H → Prop} (h : Q a trace) :
    Yields (pure a : Program H ε α) trace Q := by
  rintro _ _ ⟨⟩
  exact h

theorem Yields.bind {x : Program H ε α} {f : α → Program H ε β} {trace : Trace H} {Q : α → Trace H → Prop}
    {R : β → Trace H → Prop} (hx : Yields x trace Q) (hf : ∀ a trace', Q a trace' → Yields (f a) trace' R) :
    Yields (x >>= f) trace R := by
  intro b trace' hrun
  cases hfirst : x.run trace with
  | ok a middle =>
    rw [run_bind_ok hfirst] at hrun
    exact hf a middle (hx a middle hfirst) b trace' hrun
  | error e middle =>
    rw [run_bind_error hfirst] at hrun
    cases hrun

theorem final_ended (outcome : Except ε α) (events trace : Trace H) :
    final (ended outcome events trace) = events ++ trace := by
  cases outcome <;> rfl

variable [DecidableEq H] {x : Program H ε α} {f : α → Program H ε β}

theorem keeps_pure (a : α) : Keeps (pure a : Program H ε α) := fun _ _ => rfl

theorem keeps_throw (e : ε) : Keeps (throw e : Program H ε α) := fun _ _ => rfl

theorem keeps_ask (answer : ℕ → α) : Keeps (ask answer : Program H ε α) := fun _ _ => rfl

theorem Keeps.bind (hx : Keeps x) (hf : ∀ a, Keeps (f a)) : Keeps (x >>= f) := by
  intro trace held
  have hkept := hx trace held
  cases hrun : x.run trace with
  | ok a trace' =>
    rw [hrun] at hkept
    rw [run_bind_ok hrun, hf a trace' held]
    exact hkept
  | error e trace' =>
    rw [hrun] at hkept
    rw [run_bind_error hrun]
    exact hkept

theorem Keeps.tryCatch {handle : ε → Program H ε α} (hx : Keeps x) (hhandle : ∀ e, Keeps (handle e)) :
    Keeps (tryCatch x handle) := by
  intro trace held
  have hkept := hx trace held
  rw [run_tryCatch]
  cases hrun : x.run trace with
  | ok a trace' =>
    rw [hrun] at hkept
    exact hkept
  | error e trace' =>
    rw [hrun] at hkept
    rw [← hkept]
    exact hhandle e trace' held

theorem settle_closed {h : H} {trace trace' : Trace H} {held : Multiset H}
    (hbody : settle held trace' = settle held (.opened h :: trace)) :
    settle held (.closed h :: trace') = settle held trace := by
  have hopened : settle held (.opened h :: trace) = (settle held trace).map fun m => h ::ₘ m := rfl
  have hclosed : settle held (.closed h :: trace') =
      (settle held trace').bind fun m => if h ∈ m then some (m.erase h) else none := rfl
  rw [hclosed, hbody, hopened]
  cases settle held trace with
  | none => rfl
  | some m =>
    rw [Option.map_some, Option.bind_some, if_pos (Multiset.mem_cons_self h m), Multiset.erase_cons_head]

theorem settle_around (hx : Keeps x) (g : α → β) (h : H) (trace : Trace H) (held : Multiset H) :
    settle held (final ((do let a ← x; closing h; pure (g a) : Program H ε β).run (.opened h :: trace))) =
      match x.run (.opened h :: trace) with
      | .ok _ _ => settle held trace
      | .error _ _ => (settle held trace).map fun m => h ::ₘ m := by
  have hkept := hx (.opened h :: trace) held
  cases hrun : x.run (.opened h :: trace) with
  | ok a trace' =>
    rw [hrun] at hkept
    rw [run_bind_ok hrun]
    exact settle_closed hkept
  | error e trace' =>
    rw [hrun] at hkept
    rw [run_bind_error hrun]
    exact hkept

theorem tidy_around_iff (hx : Keeps x) (g : α → β) (h : H) :
    Tidy (final ((do let a ← x; closing h; pure (g a) : Program H ε β).run [.opened h])) ↔
      ∃ a trace, x.run [.opened h] = .ok a trace := by
  have hsettle := settle_around hx g h []
  cases hrun : x.run [.opened h] with
  | ok a trace =>
    refine iff_of_true ?_ ⟨a, trace, rfl⟩
    intro held
    rw [hsettle, hrun]
    rfl
  | error e trace =>
    refine iff_of_false ?_ (by rintro ⟨_, _, ⟨⟩⟩)
    intro htidy
    have hopen := htidy 0
    rw [hsettle, hrun] at hopen
    exact Multiset.cons_ne_zero (Option.some.inj hopen)

end SysUtils.Resources

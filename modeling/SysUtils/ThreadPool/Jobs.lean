import SysUtils.ThreadPool.Conservation

namespace SysUtils.ThreadPool

open Interleaving

variable {n : ℕ} {γ τ β ε χ : Type} {κ : γ → Type}

/-! The pool as the code that uses it sees it: a queue, and workers that run the code of the tasks they
take from it. -/

structure Job (τ β : Type) where
  task : τ
  pos : β
  pending : Option τ
  deriving DecidableEq

structure Session (τ κ : Type) where
  pos : κ
  pending : Option τ
  deriving DecidableEq

def PushPc.pending (t : τ) : PushPc → Option τ
  | .lock | .enqueue => some t
  | .count | .unlock | .notify => none

def WorkerPc.job (enter : τ → β) : WorkerPc τ β → Option (Job τ β)
  | .unlockTask t => some ⟨t, enter t, none⟩
  | .body t k => some ⟨t, k, none⟩
  | .push t k t' pc => some ⟨t, k, pc.pending t'⟩
  | _ => none

def ClientPc.session {κ : Type} : ClientPc τ κ → Option (Session τ κ)
  | .code k | .wait _ k => some ⟨k, none⟩
  | .push t pc k => some ⟨k, pc.pending t⟩
  | .destroyWait _ | .destroyRunning | .destroyNotify | .destroyJoin | .destroyed => none

abbrev Role (n : ℕ) (τ β : Type) (κ : γ → Type) : Thread n γ → Type
  | .worker _ => Option (Job τ β)
  | .client c => Option (Session τ (κ c))

structure Seen (τ ε : Type) where
  tasks : List τ
  pushed : List τ
  paused : Bool
  env : ε

def Shared.seen (s : Shared n γ τ ε) : Seen τ ε := ⟨s.pool.tasks, s.pool.pushed, s.pool.paused, s.env⟩

@[simp] theorem Shared.seen_env (s : Shared n γ τ ε) : s.seen.env = s.env := rfl

abbrev View (n : ℕ) (τ β ε : Type) (κ : γ → Type) := Config (Seen τ ε) (Role n τ β κ)

def role (enter : τ → β) : ∀ i : Thread n γ, Loc n τ β κ i → Role n τ β κ i
  | .worker _ => WorkerPc.job enter
  | .client _ => ClientPc.session

def view (enter : τ → β) (s : State n τ β ε κ) : View n τ β ε κ where
  shared := s.shared.seen
  loc i := role enter i (s.loc i)

inductive JobMove (P : Program n γ τ β ε χ κ) (i : Fin n) (x : Choice n γ χ) (count : ℕ)
    (v : Seen τ ε) : Option (Job τ β) → Seen τ ε × Option (Job τ β) → Prop where
  | skip (j : Option (Job τ β)) : JobMove P i x count v j (v, j)
  | start (t : τ) (ts : List τ) (ht : v.tasks = t :: ts) :
      JobMove P i x count v none ({ v with tasks := ts }, some ⟨t, P.enter t, none⟩)
  | own (t : τ) (k k' : β) (e : ε) (hb : P.body i t x.code count v.paused v.env k = some (.own, e, k')) :
      JobMove P i x count v (some ⟨t, k, none⟩) ({ v with env := e }, some ⟨t, k', none⟩)
  | push (t t' : τ) (k k' : β) (e : ε)
      (hb : P.body i t x.code count v.paused v.env k = some (.push t', e, k')) :
      JobMove P i x count v (some ⟨t, k, none⟩) ({ v with env := e }, some ⟨t, k', some t'⟩)
  | pause (t : τ) (k k' : β) (e : ε)
      (hb : P.body i t x.code count v.paused v.env k = some (.pause, e, k')) :
      JobMove P i x count v (some ⟨t, k, none⟩)
        ({ v with paused := true, env := e }, some ⟨t, k', none⟩)
  | unpause (t : τ) (k k' : β) (e : ε)
      (hb : P.body i t x.code count v.paused v.env k = some (.unpause, e, k')) :
      JobMove P i x count v (some ⟨t, k, none⟩)
        ({ v with paused := false, env := e }, some ⟨t, k', none⟩)
  | finish (t : τ) (k k' : β) (e : ε) (o : BodyCall τ) (ho : o = .return ∨ o = .throw)
      (hb : P.body i t x.code count v.paused v.env k = some (o, e, k')) :
      JobMove P i x count v (some ⟨t, k, none⟩) ({ v with env := e }, none)
  | enqueue (t t' : τ) (k : β) :
      JobMove P i x count v (some ⟨t, k, some t'⟩)
        ({ v with tasks := v.tasks ++ [t'], pushed := v.pushed ++ [t'] }, some ⟨t, k, none⟩)

inductive SessionMove (P : Program n γ τ β ε χ κ) (c : γ) (x : Choice n γ χ) (count : ℕ)
    (v : Seen τ ε) :
    Option (Session τ (κ c)) → Seen τ ε × Option (Session τ (κ c)) → Prop where
  | skip (l : Option (Session τ (κ c))) : SessionMove P c x count v l (v, l)
  | own (k k' : κ c) (e : ε) (o : Call τ) (ho : o = .own ∨ o = .wait)
      (hc : P.client c x.code count v.paused v.env k = some (o, e, k')) :
      SessionMove P c x count v (some ⟨k, none⟩) ({ v with env := e }, some ⟨k', none⟩)
  | push (t : τ) (k k' : κ c) (e : ε)
      (hc : P.client c x.code count v.paused v.env k = some (.push t, e, k')) :
      SessionMove P c x count v (some ⟨k, none⟩) ({ v with env := e }, some ⟨k', some t⟩)
  | pause (k k' : κ c) (e : ε) (hc : P.client c x.code count v.paused v.env k = some (.pause, e, k')) :
      SessionMove P c x count v (some ⟨k, none⟩) ({ v with paused := true, env := e }, some ⟨k', none⟩)
  | unpause (k k' : κ c) (e : ε)
      (hc : P.client c x.code count v.paused v.env k = some (.unpause, e, k')) :
      SessionMove P c x count v (some ⟨k, none⟩) ({ v with paused := false, env := e }, some ⟨k', none⟩)
  | destroy (k k' : κ c) (e : ε)
      (hc : P.client c x.code count v.paused v.env k = some (.destroy, e, k')) :
      SessionMove P c x count v (some ⟨k, none⟩) ({ v with env := e }, none)
  | enqueue (t : τ) (k : κ c) :
      SessionMove P c x count v (some ⟨k, some t⟩)
        ({ v with tasks := v.tasks ++ [t], pushed := v.pushed ++ [t] }, some ⟨k, none⟩)

def RoleMove (P : Program n γ τ β ε χ κ) (x : Choice n γ χ) (count : ℕ) (v : Seen τ ε) :
    ∀ i : Thread n γ, Role n τ β κ i → Seen τ ε × Role n τ β κ i → Prop
  | .worker i => JobMove P i x count v
  | .client c => SessionMove P c x count v

variable [DecidableEq γ] {P : Program n γ τ β ε χ κ} {x : Choice n γ χ}

theorem WorkerMove.job {s : Shared n γ τ ε} {i : Fin n} {l : WorkerPc τ β}
    {r : Shared n γ τ ε × WorkerPc τ β} (h : WorkerMove P i x s l r) :
    JobMove P i x s.pool.tasksTotal s.seen (l.job P.enter) (r.1.seen, r.2.job P.enter) := by
  cases h with
  | take t ts ht => exact .start t ts ht
  | bodyOwn t k k' e hb => exact .own t k k' e hb
  | bodyPush t t' k k' e hb => exact .push t t' k k' e hb
  | bodyPause t k k' e hb => exact .pause t k k' e hb
  | bodyUnpause t k k' e hb => exact .unpause t k k' e hb
  | bodyEnd t k k' e o ho hb => exact .finish t k k' e o ho hb
  | push t t' k pc pc' p hm =>
    cases hm with
    | enqueue => exact .enqueue t t' k
    | _ => exact .skip _
  | pushEnd t t' k pc p hm => cases hm; exact .skip _
  | relock timedOut hfree => cases timedOut <;> exact .skip _
  | _ => exact .skip _

theorem ClientMove.session {s : Shared n γ τ ε} {c : γ} {l : ClientPc τ (κ c)}
    {r : Shared n γ τ ε × ClientPc τ (κ c)} (h : ClientMove P c x s l r) :
    SessionMove P c x s.pool.tasksTotal s.seen l.session (r.1.seen, r.2.session) := by
  cases h with
  | own k k' e hc => exact .own k k' e _ (.inl rfl) hc
  | callPush t k k' e hc => exact .push t k k' e hc
  | callPause k k' e hc => exact .pause k k' e hc
  | callUnpause k k' e hc => exact .unpause k k' e hc
  | callWait k k' e hc => exact .own k k' e _ (.inr rfl) hc
  | callDestroy k k' e hc => exact .destroy k k' e hc
  | push t pc pc' k p hm =>
    cases hm with
    | enqueue => exact .enqueue t k
    | _ => exact .skip _
  | pushEnd t pc k p hm => cases hm; exact .skip _
  | wait pc pc' k p hm => cases hm <;> exact .skip _
  | waitEnd pc k p hm => cases hm; exact .skip _
  | destroyWait pc pc' p hm => cases hm <;> exact .skip _
  | destroyWaitEnd pc p hm => cases hm; exact .skip _
  | _ => exact .skip _

theorem view_set (enter : τ → β) (s : State n τ β ε κ) (i : Thread n γ)
    (r : Shared n γ τ ε × Loc n τ β κ i) :
    view enter (s.set i r) = (view enter s).set i (r.1.seen, role enter i r.2) := by
  have hloc : (view enter (s.set i r)).loc = ((view enter s).set i (r.1.seen, role enter i r.2)).loc := by
    funext j
    by_cases hj : j = i
    · subst hj
      simp [view]
    · simp [view, Config.set_loc_of_ne _ hj]
  simpa [view, Config.set] using hloc

theorem step_role {s : State n τ β ε κ} {i : Thread n γ} {r : Shared n γ τ ε × Loc n τ β κ i}
    (hr : (threads P).step i x s.shared (s.loc i) = some r) :
    RoleMove P x s.shared.pool.tasksTotal (view P.enter s).shared i ((view P.enter s).loc i)
      (r.1.seen, role P.enter i r.2) := by
  cases i with
  | worker i => exact (worker_move P hr).job
  | client c => exact (client_move P hr).session

end SysUtils.ThreadPool

import SysUtils.ProcessLock.Ownership
import SysUtils.ProcessLock.Processes

namespace SysUtils.ProcessLock

open Interleaving

variable {ι G μ O : Type} [DecidableEq ι] [Fintype ι] [DecidableEq G] [Fintype G] [DecidableEq O]
variable {M : Mutexes μ O}

theorem Inv.leak {k : O → ℕ} {s t : State G μ O} (h : Inv M k s) {op : Op G μ}
    {res : Outcome} (hs : ProcessLock.step M s op = some (res, t)) :
    ∃ k', Inv M k' t ∧ (∀ o, k o ≤ k' o) ∧ (abandons M s op = false → k' = k) := by
  cases ha : abandons M s op with
  | false => exact ⟨k, (h.step hs ha).1, fun _ => le_rfl, fun _ => rfl⟩
  | true =>
    obtain ⟨o, hs'⟩ := abandons_step ha
    rw [hs] at hs'
    cases hs'
    refine ⟨Function.update k o (k o + 1), ⟨?_, h.backed⟩, ?_, by simp⟩
    · intro o'
      have hsum := h.surplus o'
      have hhold := update_succ s.hold o o'
      have hk := update_succ k o o'
      simp only
      omega
    · intro o'
      have hk := update_succ k o o'
      omega

omit [Fintype ι] [DecidableEq G] in
theorem Inv.clear {M : Mutexes μ O} (k : KernelMutexes ι O) (i : ι) :
    Inv M 0 ((k.abandon i).seenBy i (fun _ => none : Guards G μ)) := by
  constructor
  · intro o
    simp [KernelMutexes.seenBy, KernelMutexes.abandon, ownedSum]
  · intro g v hv
    cases hv

/-- `leaked i o` is how often thread `i` holds `o` without a guard that owns it. -/
structure Shares (M : ι → Mutexes μ O) (leaked : ι → O → ℕ) (s : System ι G μ O) : Prop where
  each : ∀ i, Inv (M i) (leaked i) (s.shared.seenBy i (s.loc i))
  exclusive : Exclusive s.shared

variable {M : ι → Mutexes μ O}

theorem Shares.step {leaked : ι → O → ℕ} {s : System ι G μ O} (h : Shares M leaked s) {i : ι}
    {x : Act G μ} {r : KernelMutexes ι O × Guards G μ}
    (hr : (threads M).step i x s.shared (s.loc i) = some r) :
    ∃ leaked', Shares M leaked' (s.set i r) ∧ (∀ j o, (j = i → x ≠ .end) → leaked j o ≤ leaked' j o) ∧
      ((∀ op, x = .op op → abandons (M i) (s.shared.seenBy i (s.loc i)) op = false) →
        leaked = 0 → leaked' = 0) := by
  have hone (k : O → ℕ) (hi : Inv (M i) k ((s.set i r).shared.seenBy i ((s.set i r).loc i))) (j : ι) :
      Inv (M j) (Function.update leaked i k j) ((s.set i r).shared.seenBy j ((s.set i r).loc j)) := by
    by_cases hj : j = i
    · subst hj
      rw [Function.update_self]
      exact hi
    · rw [Function.update_of_ne hj, seenBy_other hj hr]
      exact h.each j
  have hzero {k : O → ℕ} (hk : k = 0) (hl : leaked = 0) : Function.update leaked i k = 0 := by
    rw [hk, hl]
    exact Function.update_eq_self i 0
  cases x with
  | op op =>
    obtain ⟨ha, res, t, hs, he, hview⟩ := op_step hr
    obtain ⟨k, hk, hle, hsame⟩ := (h.each i).leak hs
    refine ⟨Function.update leaked i k, ⟨hone k (by rw [hview]; exact hk), ?_⟩, ?_, ?_⟩
    · rw [Config.set_shared, he]
      exact h.exclusive.after fun o hlt => allowed_grows ha hs hlt
    · intro j o _
      by_cases hj : j = i
      · subst hj
        rw [Function.update_self]
        exact hle o
      · rw [Function.update_of_ne hj]
    · intro habandons hl
      exact hzero ((hsame (habandons op rfl)).trans (congrFun hl i)) hl
  | «end» =>
    cases hr
    refine ⟨Function.update leaked i 0, ⟨hone 0 ?_, h.exclusive.abandon i⟩, ?_, fun _ => hzero rfl⟩
    · rw [Config.set_loc_self, Config.set_shared]
      exact Inv.clear s.shared i
    · intro j o hj
      have hne : j ≠ i := fun hji => hj hji rfl
      rw [Function.update_of_ne hne]

omit [DecidableEq ι] [Fintype ι] [DecidableEq G] in
theorem shares_start : Shares M 0 (start : System ι G μ O) where
  each _ := ⟨fun _ => by simp [start, KernelMutexes.seenBy, ownedSum], fun _ _ hv => by cases hv⟩
  exclusive := ⟨fun _ _ _ hi => absurd rfl hi, fun _ h => by cases h⟩

theorem shares_run {ok : System ι G μ O → ι → Act G μ → Prop} {s : System ι G μ O}
    (hs : (threads M).Steps ok start s) : ∃ leaked, Shares M leaked s := by
  apply hs.invariant (I := fun s => ∃ leaked, Shares M leaked s) ⟨0, shares_start⟩
  intro u i x r _ _ hr ⟨leaked, hI⟩
  obtain ⟨leaked', hI', _⟩ := hI.step hr
  exact ⟨leaked', hI'⟩

omit [DecidableEq ι] [Fintype ι] [DecidableEq G] in
theorem Shares.held {leaked : ι → O → ℕ} {s : System ι G μ O} (h : Shares M leaked s) {i : ι} {g : G}
    {v : Guard μ} (hg : s.loc i g = some v) (ho : v.owns = true) {o : O}
    (ht : target (M i) v = some o) : s.shared.hold i o ≠ 0 := by
  have hle := (h.each i).owned_le (g := g) hg o
  rw [Guard.owned_of_owns ho ht, if_pos rfl] at hle
  exact Nat.ne_of_gt hle

omit [DecidableEq G] in
theorem Shares.excludes {leaked : ι → O → ℕ} {s : System ι G μ O} (h : Shares M leaked s) {i j : ι}
    {o : O} (hi : s.shared.hold i o ≠ 0) (hji : j ≠ i) : s.shared.hold j o = 0 ∧
      s.shared.heldElsewhere j o = true ∧
      ∀ g w, s.loc j g = some w → w.owns = true → target (M j) w ≠ some o := by
  have hzero : s.shared.hold j o = 0 := by
    by_contra hj
    exact hji (h.exclusive.one o j i hj hi)
  refine ⟨hzero, decide_eq_true ⟨i, hji.symm, hi⟩, ?_⟩
  intro g w hw ho ht
  exact h.held hw ho ht hzero

theorem guards_exclude (M : ι → Mutexes μ O) {s : System ι G μ O}
    (hs : (threads M).Steps Threads.anyStep start s) {i : ι} {g : G} {v : Guard μ}
    (hg : s.loc i g = some v) (ho : v.owns = true) :
    ∃ o, target (M i) v = some o ∧ 0 < s.shared.hold i o ∧ ∀ j, j ≠ i → s.shared.hold j o = 0 ∧
      s.shared.heldElsewhere j o = true ∧
      ∀ g w, s.loc j g = some w → w.owns = true → target (M j) w ≠ some o := by
  obtain ⟨leaked, h⟩ := shares_run hs
  obtain ⟨o, ht⟩ := Option.isSome_iff_exists.mp ((h.each i).backed g v hg ho)
  have hheld := h.held hg ho ht
  exact ⟨o, ht, Nat.pos_of_ne_zero hheld, fun j hj => h.excludes hheld hj⟩

def twoProcesses : Fin 2 → Mutexes Unit Unit := fun _ => ⟨fun _ => ⟨some 4⟩, fun _ => ()⟩

abbrev TwoProcesses := System (Fin 2) (Fin 1) Unit Unit

theorem guards_exclude_lockBusy : ∃ s : TwoProcesses,
    (threads twoProcesses).Steps Threads.anyStep start s ∧ 0 < s.shared.hold 0 () ∧
      s.shared.hold 1 () = 0 := by
  have h : ((threads twoProcesses).run Threads.anyStep (start : TwoProcesses)
      [(0, .op (.constructOn 0 ())), (0, .op (.lock 0 .object0)), (1, .op (.constructOn 0 ())),
        (1, .op (.tryLockFor 0 .timeout))]).map (fun s => (s.loc 0 0).any (·.owns)) = some true := by
    decide
  obtain ⟨s, hs, hp⟩ := Threads.exists_steps_of_run h
  obtain ⟨v, hg, ho⟩ := (Option.any_eq_true _ _).mp hp
  obtain ⟨o, _, hheld, hothers⟩ := guards_exclude twoProcesses hs hg ho
  exact ⟨s, hs, hheld, (hothers 1 (by decide)).1⟩

def endsClean (s : System ι G μ O) (i : ι) : Act G μ → Prop
  | .op _ => True
  | .end => ∀ o, s.shared.hold i o = 0

theorem unowned_mutex_free (M : ι → Mutexes μ O) {s : System ι G μ O}
    (hs : (threads M).Steps endsClean start s) {o : O}
    (hno : ∀ i g v, s.loc i g = some v → v.owns = true → target (M i) v ≠ some o) (i : ι) :
    s.shared.hold i o = 0 ∧ s.shared.answers i o false .object0 = true := by
  have h : Shares M 0 s ∧ ∀ o, s.shared.abandoned o = false := by
    apply hs.invariant (I := fun s => Shares M 0 s ∧ ∀ o, s.shared.abandoned o = false)
      ⟨shares_start, fun _ => rfl⟩
    intro u j x r _ hx hr ⟨hI, hab⟩
    obtain ⟨leaked, hI', _, hzero⟩ := hI.step hr
    cases x with
    | op op =>
      obtain ⟨ha, res, t, _, rfl, _⟩ := op_step hr
      have hclean : abandons (M j) (u.shared.seenBy j (u.loc j)) op = false := by
        by_contra hne
        obtain ⟨o, ho⟩ := abandoned_of_allowed ha (by simpa using hne)
        rw [hab o] at ho
        cases ho
      have hleaked := hzero (by rintro _ ⟨⟩; exact hclean) rfl
      subst hleaked
      exact ⟨hI', fun o => by simp [KernelMutexes.after, hab o]⟩
    | «end» =>
      cases hr
      have hleaked := hzero (by rintro _ ⟨⟩) rfl
      subst hleaked
      refine ⟨hI', fun o => ?_⟩
      have hheld : u.shared.hold j o = 0 := hx o
      simp [KernelMutexes.abandon, hab o, hheld]
  obtain ⟨hI, hab⟩ := h
  have hfree (j : ι) : s.shared.hold j o = 0 := by
    have hsurplus : s.shared.hold j o = ownedSum (M j) o (s.loc j) := (hI.each j).surplus o
    rw [hsurplus]
    apply Finset.sum_eq_zero
    intro g _
    cases hg : s.loc j g with
    | none => rfl
    | some v =>
      unfold owned
      exact if_neg fun h => hno j g v hg h.1 h.2
  refine ⟨hfree i, ?_⟩
  simp [KernelMutexes.answers, KernelMutexes.heldElsewhere, hfree, hab o]

instance (s : System (Fin 2) G μ Unit) (i : Fin 2) (x : Act G μ) : Decidable (endsClean s i x) :=
  match x with
  | .op _ => inferInstanceAs (Decidable True)
  | .end => inferInstanceAs (Decidable (∀ o, s.shared.hold i o = 0))

theorem unowned_mutex_free_lockUnlock : ∃ s : TwoProcesses,
    (threads twoProcesses).Steps endsClean start s ∧ (s.loc 0 0).isSome = true ∧
      s.shared.answers 1 () false .object0 = true := by
  have h : ((threads twoProcesses).run endsClean (start : TwoProcesses)
      [(0, .op (.constructOn 0 ())), (0, .op (.lock 0 .object0)), (0, .op (.unlock 0))]).map
        (fun s => (s.loc 0 0).isSome && decide (∀ i g, (s.loc i g).all (!·.owns) = true)) =
          some true := by decide
  obtain ⟨s, hs, hp⟩ := Threads.exists_steps_of_run h
  obtain ⟨hsome, hno⟩ := Bool.and_eq_true_iff.mp hp
  refine ⟨s, hs, hsome, (unowned_mutex_free twoProcesses hs ?_ 1).2⟩
  intro i g v hg ho
  have hfree := of_decide_eq_true hno i g
  simp [hg, ho] at hfree

def staysOn (i : ι) (_ : System ι G μ O) (j : ι) : Act G μ → Prop
  | .op _ => True
  | .end => j ≠ i

theorem abandoned_wait_poisons (M : ι → Mutexes μ O) {s : System ι G μ O}
    (hs : (threads M).Steps Threads.anyStep start s) {i : ι} {op : Op G μ} {r : KernelMutexes ι O × Guards G μ}
    (hr : (threads M).step i (.op op) s.shared (s.loc i) = some r)
    (ha : abandons (M i) (s.shared.seenBy i (s.loc i)) op = true) :
    ∃ o, ProcessLock.step (M i) (s.shared.seenBy i (s.loc i)) op =
        some (.threw waitAbandoned, r.1.seenBy i r.2) ∧
      r.1.hold i o = s.shared.hold i o + 1 ∧ r.2 = s.loc i ∧
      ∀ t, (threads M).Steps (staysOn i) (s.set i r) t → 0 < t.shared.hold i o ∧
        ∀ j, j ≠ i → t.shared.hold j o = 0 ∧ t.shared.heldElsewhere j o = true ∧
          ∀ g w, t.loc j g = some w → w.owns = true → target (M j) w ≠ some o := by
  obtain ⟨leaked, h⟩ := shares_run hs
  obtain ⟨o, hthrew⟩ := abandons_step ha
  obtain ⟨_, res, t, ht, rfl, hview⟩ := op_step hr
  rw [ht] at hthrew
  cases hthrew
  obtain ⟨leaked', h', hle, _⟩ := h.step hr
  have hleak : 0 < leaked' i o := by
    have hbefore := (h.each i).surplus o
    have hafter := (h'.each i).surplus o
    rw [hview] at hafter
    simp only [KernelMutexes.seenBy, Function.update_self] at hbefore hafter
    omega
  refine ⟨o, ?_, by simp [KernelMutexes.after, KernelMutexes.seenBy], rfl, ?_⟩
  · rw [Config.set_loc_self, Config.set_shared] at hview
    rw [ht, hview]
  intro t ht
  obtain ⟨leaked'', hI, hpos⟩ : ∃ leaked, Shares M leaked t ∧ 0 < leaked i o := by
    apply ht.invariant (I := fun t => ∃ leaked, Shares M leaked t ∧ 0 < leaked i o) ⟨leaked', h', hleak⟩
    rintro u j x r _ hx hr ⟨l, hI, hpos⟩
    obtain ⟨l', hI', hle, _⟩ := hI.step hr
    refine ⟨l', hI', hpos.trans_le (hle i o ?_)⟩
    rintro rfl rfl
    exact hx rfl
  have hheld : t.shared.hold i o ≠ 0 := by
    have hsurplus : t.shared.hold i o = ownedSum (M i) o (t.loc i) + leaked'' i o := (hI.each i).surplus o
    omega
  exact ⟨Nat.pos_of_ne_zero hheld, fun j hj => hI.excludes hheld hj⟩

theorem abandoned_wait_poisons_endHolding : ∃ (s : TwoProcesses) (r : _),
    (threads twoProcesses).Steps Threads.anyStep start s ∧
      (threads twoProcesses).step 1 (.op (.lock 0 .abandoned)) s.shared (s.loc 1) = some r ∧
      ProcessLock.step (twoProcesses 1) (s.shared.seenBy 1 (s.loc 1)) (.lock 0 .abandoned) =
        some (.threw waitAbandoned, r.1.seenBy 1 r.2) ∧
      ∀ t, (threads twoProcesses).Steps (staysOn 1) (s.set 1 r) t → t.shared.hold 0 () = 0 := by
  have h : ((threads twoProcesses).run Threads.anyStep (start : TwoProcesses)
      [(0, .op (.constructOn 0 ())), (0, .op (.lock 0 .object0)), (0, .end),
        (1, .op (.constructOn 0 ()))]).map (fun s =>
          ((threads twoProcesses).step 1 (.op (.lock 0 .abandoned)) s.shared (s.loc 1)).isSome &&
            abandons (twoProcesses 1) (s.shared.seenBy 1 (s.loc 1)) (.lock 0 .abandoned)) =
              some true := by decide
  obtain ⟨s, hs, hp⟩ := Threads.exists_steps_of_run h
  obtain ⟨hsome, ha⟩ := Bool.and_eq_true_iff.mp hp
  obtain ⟨r, hr⟩ := Option.isSome_iff_exists.mp hsome
  obtain ⟨o, hthrew, _, _, hpoison⟩ := abandoned_wait_poisons twoProcesses hs hr ha
  exact ⟨s, r, hs, hr, hthrew, fun t ht => ((hpoison t ht).2 0 (by decide)).1⟩

end SysUtils.ProcessLock

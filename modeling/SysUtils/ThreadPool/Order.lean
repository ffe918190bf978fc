import SysUtils.ThreadPool.Endings

namespace SysUtils.ThreadPool

open Interleaving

variable {n : ℕ} {γ τ β ε χ : Type} {κ : γ → Type}

theorem coe_take_le {l l' : List τ} (h : l <+: l') (k : ℕ) :
    (l.take k : Multiset τ) ≤ (l'.take k : Multiset τ) :=
  Multiset.coe_le.mpr (h.take k).sublist.subperm

theorem prefix_of_take_le {l l' : List τ}
    (h : ∀ k ≤ l.length, (l.take k : Multiset τ) ≤ (l'.take k : Multiset τ)) : l <+: l' := by
  induction l generalizing l' with
  | nil => exact List.nil_prefix
  | cons a l ih =>
    cases l' with
    | nil => simpa using h 1 (by simp)
    | cons b l' =>
      have hab : a = b := by simpa using h 1 (by simp)
      subst hab
      apply List.prefix_cons_inj a |>.mpr
      apply ih
      intro k hk
      have hcons := h (k + 1) (by simpa using hk)
      simpa only [List.take_succ_cons, ← Multiset.cons_coe, Multiset.cons_le_cons_iff] using hcons

def Ordered (p : Pool n γ τ) : Prop :=
  ∀ k ≤ p.finished.length, (p.finished.take k : Multiset τ) ≤ (p.pushed.take (k + (n - 1)) : Multiset τ)

theorem Ordered.mono {p p' : Pool n γ τ} (h : Ordered p) (hp : p.pushed <+: p'.pushed)
    (hf : p'.finished = p.finished) : Ordered p' := by
  intro k hk
  rw [hf] at hk ⊢
  exact (h k hk).trans (coe_take_le hp _)

theorem Ordered.finish {p p' : Pool n γ τ} (h : Ordered p) (hp : p'.pushed = p.pushed) {t : τ}
    (hf : p'.finished = p.finished ++ [t])
    (hlast : (p'.finished : Multiset τ) ≤ (p'.pushed.take (p'.finished.length + (n - 1)) : Multiset τ)) :
    Ordered p' := by
  intro k hk
  rcases hk.lt_or_eq with hlt | rfl
  · have hle : k ≤ p.finished.length := by
      rw [hf, List.length_append, List.length_singleton] at hlt
      omega
    rw [hf, hp, List.take_append_of_le_length hle]
    exact h k hle
  · rw [List.take_length]
    exact hlast

theorem WorkerPc.card_inFlight_le (l : WorkerPc τ β) : l.inFlight.card ≤ 1 := by
  cases l <;> simp [WorkerPc.inFlight]

theorem card_inFlight_lt (s : State n τ β ε κ) {i : Fin n}
    (hi : WorkerPc.inFlight (s.loc (.worker i)) = 0) : (inFlight s).card < n := by
  unfold inFlight total
  rw [Multiset.card_sum]
  calc ∑ j, (WorkerPc.inFlight (s.loc (Thread.worker j))).card
      < ∑ _j : Fin n, 1 := by
        apply Finset.sum_lt_sum (fun j _ => WorkerPc.card_inFlight_le _)
        exact ⟨i, Finset.mem_univ i, by rw [hi]; exact Nat.one_pos⟩
    _ = n := by simp

theorem Conserved.finished_le {s : State n τ β ε κ} (h : Conserved s) {i : Fin n}
    (hi : WorkerPc.inFlight (s.loc (.worker i)) = 0) :
    (s.shared.pool.finished : Multiset τ) ≤
      (s.shared.pool.pushed.take (s.shared.pool.finished.length + (n - 1)) : Multiset τ) := by
  have hcard := card_inFlight_lt s hi
  have hlength : s.shared.pool.popped.length = (inFlight s).card + s.shared.pool.finished.length := by
    simpa using congrArg Multiset.card h.started
  have hpopped : s.shared.pool.popped <+:
      s.shared.pool.pushed.take (s.shared.pool.finished.length + (n - 1)) := by
    apply List.prefix_take_iff.mpr
    exact ⟨h.fifo ▸ List.prefix_append _ _, by omega⟩
  calc (s.shared.pool.finished : Multiset τ)
      ≤ inFlight s + s.shared.pool.finished := Multiset.le_add_left _ _
    _ = s.shared.pool.popped := h.started.symm
    _ ≤ _ := Multiset.coe_le.mpr hpopped.sublist.subperm

variable [DecidableEq γ] {P : Program n γ τ β ε χ κ} {x : Choice n γ χ}

omit [DecidableEq γ] in
theorem PushMove.history {me : Thread n γ} {t : τ} {p : Pool n γ τ} {pc : PushPc}
    {r : Pool n γ τ × Option PushPc} (h : PushMove me t p pc r) :
    p.pushed <+: r.1.pushed ∧ r.1.finished = p.finished := by
  cases h with
  | enqueue => exact ⟨List.prefix_append _ _, rfl⟩
  | _ => exact ⟨List.prefix_rfl, rfl⟩

theorem WaitMove.history {me : γ} {p : Pool n γ τ} {pc : WaitPc} {r : Pool n γ τ × Option WaitPc}
    (h : WaitMove me p pc r) : p.pushed <+: r.1.pushed ∧ r.1.finished = p.finished := by
  cases h <;> exact ⟨List.prefix_rfl, rfl⟩

theorem ClientMove.history {s : Shared n γ τ ε} {c : γ} {l : ClientPc τ (κ c)}
    {r : Shared n γ τ ε × ClientPc τ (κ c)} (h : ClientMove P c x s l r) :
    s.pool.pushed <+: r.1.pool.pushed ∧ r.1.pool.finished = s.pool.finished := by
  cases h with
  | push t pc pc' k p hm => exact hm.history
  | pushEnd t pc k p hm => exact hm.history
  | wait pc pc' k p hm => exact hm.history
  | waitEnd pc k p hm => exact hm.history
  | destroyWait pc pc' p hm => exact hm.history
  | destroyWaitEnd pc p hm => exact hm.history
  | _ => exact ⟨List.prefix_rfl, rfl⟩

theorem WorkerMove.history {s : Shared n γ τ ε} {i : Fin n} {l : WorkerPc τ β}
    {r : Shared n γ τ ε × WorkerPc τ β} (h : WorkerMove P i x s l r) :
    (s.pool.pushed <+: r.1.pool.pushed ∧ r.1.pool.finished = s.pool.finished) ∨
      (r.2 = .ifWaiting ∧ r.1.pool.pushed = s.pool.pushed ∧
        ∃ t, r.1.pool.finished = s.pool.finished ++ [t]) := by
  cases h with
  | push t t' k pc pc' p hm => exact .inl hm.history
  | pushEnd t t' k pc p hm => exact .inl hm.history
  | account t => exact .inr ⟨rfl, rfl, t, rfl⟩
  | _ => exact .inl ⟨List.prefix_rfl, rfl⟩

theorem Ordered.step {s : State n τ β ε κ} (hs : Reachable P s) (h : Ordered s.shared.pool)
    {i : Thread n γ} {r : Shared n γ τ ε × Loc n τ β κ i}
    (hr : (threads P).step i x s.shared (s.loc i) = some r) : Ordered r.1.pool := by
  cases i with
  | client c =>
    obtain ⟨hp, hf⟩ := (client_move P hr).history
    exact h.mono hp hf
  | worker i =>
    rcases (worker_move P hr).history with ⟨hp, hf⟩ | ⟨hl, hp, t, hf⟩
    · exact h.mono hp hf
    · have hconserved := (ReachableBy.conserved hs).step (ReachableBy.lockInv hs) hr
      refine h.finish hp hf (hconserved.finished_le (i := i) ?_)
      rw [Config.set_loc_self, hl]
      rfl

theorem overtaking_bounded (P : Program n γ τ β ε χ κ) {s : State n τ β ε κ} (hs : Reachable P s) :
    Ordered s.shared.pool ∧ (n = 1 → s.shared.pool.finished <+: s.shared.pool.pushed) := by
  have hordered : Ordered s.shared.pool := by
    apply Threads.Steps.invariant hs
    · intro k hk
      simp [initial, Pool.fresh]
    · intro u i x r hu _ hr hI
      exact hI.step hu hr
  refine ⟨hordered, ?_⟩
  rintro rfl
  exact prefix_of_take_le hordered

def finishTwo : Program 2 Unit ℕ Unit Unit Unit (fun _ => List (Call ℕ)) :=
  script 2 fun _ => [.push 7, .push 8]

theorem overtaking_bounded_finishTwo : ∃ s, Reachable finishTwo s ∧ s.shared.pool.pushed = [7, 8] ∧
    s.shared.pool.finished = [8] ∧ Ordered s.shared.pool := by
  have h : ((threads finishTwo).run Threads.anyStep (initial finishTwo)
      (steps (.client ()) 12 ++ steps (.worker 0) 8 ++ steps (.worker 1) 11)).map (fun s => decide
        (s.shared.pool.pushed = [7, 8] ∧ s.shared.pool.finished = [8])) = some true := by decide
  obtain ⟨s, hs, hp⟩ := Threads.exists_steps_of_run h
  obtain ⟨hpushed, hfinished⟩ := of_decide_eq_true hp
  exact ⟨s, hs, hpushed, hfinished, (overtaking_bounded finishTwo hs).1⟩

end SysUtils.ThreadPool

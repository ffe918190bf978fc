import SysUtils.Registry.Api

namespace SysUtils.Registry

open Resources

section

variable {χ β : Type}

def enumFrom (read : ℕ → ℕ → NameAnswer χ) (item : NameAnswer χ → β) : ℕ → ℕ → Session (List β)
  | 0, _ => pure []
  | n + 1, index => do
      let answer ← ask fun call => read call index
      if answer.retCode ≠ errorSuccess then
        throw (.registryError ⟨"Cannot get value info from the registry", answer.retCode⟩)
      else do
        let values ← enumFrom read item n (index + 1)
        pure (item answer :: values)

variable (api : Api χ) (hKey : HKey)

def enumerate (count maxLen : InfoAnswer → UInt32) (read : ℕ → ℕ → UInt32 → NameAnswer χ)
    (item : NameAnswer χ → β) : Session (List β) := do
  let info ← ask fun call => api.regQueryInfoKey call hKey
  if info.retCode ≠ errorSuccess then
    throw (.registryError ⟨"Cannot query key info fromthe registry", info.retCode⟩)
  else enumFrom (fun call index => read call index (maxLen info + 1)) item (count info).toNat 0

end

def regEnumKeysA (api : Api UInt8) (hKey : HKey) : Session (List (List UInt8)) :=
  enumerate api hKey InfoAnswer.subKeyCount InfoAnswer.maxSubKeyLen
    (fun call index size => api.regEnumKeyEx call hKey index size) NameAnswer.name

def regEnumValuesA (api : Api UInt8) (hKey : HKey) : Session (List (List UInt8 × UInt32)) :=
  enumerate api hKey InfoAnswer.valueCount InfoAnswer.maxValueNameLen
    (fun call index size => api.regEnumValue call hKey index size) fun answer => (answer.name, answer.type)

def regEnumValueNamesA (api : Api UInt8) (hKey : HKey) : Session (List (List UInt8)) :=
  enumerate api hKey InfoAnswer.valueCount InfoAnswer.maxValueNameLen
    (fun call index size => api.regEnumValue call hKey index size) NameAnswer.name

def regEnumKeysW (api : Api WChar) (hKey : HKey) : Session (List (List WChar)) :=
  enumerate api hKey InfoAnswer.subKeyCount InfoAnswer.maxSubKeyLen
    (fun call index size => api.regEnumKeyEx call hKey index size) NameAnswer.name

def regEnumValuesW (api : Api WChar) (hKey : HKey) : Session (List (List WChar × UInt32)) :=
  enumerate api hKey InfoAnswer.valueCount InfoAnswer.maxValueNameLen
    (fun call index size => api.regEnumValue call hKey index size) fun answer => (answer.name, answer.type)

section

variable {χ β : Type} (read : ℕ → ℕ → NameAnswer χ) (item : NameAnswer χ → β)

def readAt (start index i : ℕ) : NameAnswer χ := read (start + i) (index + i)

theorem readAt_succ (start index i : ℕ) :
    readAt read (start + 1) (index + 1) i = readAt read start index (i + 1) := by
  unfold readAt
  rw [Nat.add_right_comm start 1 i, Nat.add_right_comm index 1 i]
  rfl

theorem run_enumFrom (n index : ℕ) (trace : Trace HKey)
    (h : ∀ i < n, (readAt read trace.length index i).retCode = errorSuccess) :
    (enumFrom read item n index).run trace =
      .ok ((List.range n).map fun i => item (readAt read trace.length index i))
        (List.replicate n .other ++ trace) := by
  induction n generalizing index trace with
  | zero => rfl
  | succ n ih =>
    have hfirst : (read trace.length index).retCode = errorSuccess := h 0 (Nat.succ_pos n)
    have hrest : ∀ i < n, (readAt read (Event.other :: trace).length (index + 1) i).retCode = errorSuccess := by
      intro i hi
      rw [List.length_cons, readAt_succ]
      exact h (i + 1) (by omega)
    unfold enumFrom
    rw [run_bind_ok (run_ask _ trace), if_neg (not_not_intro hfirst),
      run_bind_ok (ih (index + 1) (.other :: trace) hrest)]
    simp only [List.length_cons, readAt_succ, List.range_succ_eq_map, List.map_cons, List.map_map]
    rw [List.replicate_succ', List.append_assoc]
    rfl

theorem run_enumFrom_error (n index : ℕ) (trace : Trace HKey) {i : ℕ} (hi : i < n)
    (h : (readAt read trace.length index i).retCode ≠ errorSuccess) :
    ∃ e trace', (enumFrom read item n index).run trace = .error (.registryError e) trace' := by
  induction n generalizing index trace i with
  | zero => omega
  | succ n ih =>
    unfold enumFrom
    rw [run_bind_ok (run_ask _ trace)]
    by_cases hfirst : (read trace.length index).retCode = errorSuccess
    · rw [if_neg (not_not_intro hfirst)]
      cases i with
      | zero => exact absurd hfirst h
      | succ i =>
        rw [← readAt_succ] at h
        obtain ⟨e, trace', hrest⟩ := ih (index + 1) (.other :: trace) (Nat.lt_of_succ_lt_succ hi) h
        exact ⟨e, trace', run_bind_error hrest⟩
    · rw [if_pos hfirst]
      exact ⟨_, _, rfl⟩

theorem keeps_enumFrom (n index : ℕ) : Keeps (enumFrom read item n index) := by
  induction n generalizing index with
  | zero => exact keeps_pure _
  | succ n ih =>
    unfold enumFrom
    apply (keeps_ask _).bind
    intro answer
    split
    · exact keeps_throw _
    · apply (ih (index + 1)).bind
      intro values
      exact keeps_pure _

end

section

variable {χ β : Type} (api : Api χ) (hKey : HKey) (count maxLen : InfoAnswer → UInt32)
  (read : ℕ → ℕ → UInt32 → NameAnswer χ) (item : NameAnswer χ → β)

def entry (n i : ℕ) : NameAnswer χ :=
  read (n + 1 + i) i (maxLen (api.regQueryInfoKey n hKey) + 1)

def Enumerated (n : ℕ) : Prop :=
  (api.regQueryInfoKey n hKey).retCode = errorSuccess ∧
    ∀ i < (count (api.regQueryInfoKey n hKey)).toNat,
      (entry api hKey maxLen read n i).retCode = errorSuccess

variable {api hKey count maxLen read}

theorem readAt_entry (trace : Trace HKey) (i : ℕ) :
    readAt (fun call index => read call index (maxLen (api.regQueryInfoKey trace.length hKey) + 1))
      (Event.other :: trace).length 0 i = entry api hKey maxLen read trace.length i := by
  unfold readAt entry
  rw [Nat.zero_add, List.length_cons]

theorem run_enumerate (trace : Trace HKey) (h : Enumerated api hKey count maxLen read trace.length) :
    (enumerate api hKey count maxLen read item).run trace =
      .ok ((List.range (count (api.regQueryInfoKey trace.length hKey)).toNat).map fun i =>
          item (entry api hKey maxLen read trace.length i))
        (List.replicate (count (api.regQueryInfoKey trace.length hKey)).toNat .other ++ .other :: trace) := by
  obtain ⟨hinfo, hread⟩ := h
  unfold enumerate
  rw [run_bind_ok (run_ask _ trace), if_neg (not_not_intro hinfo), run_enumFrom _ item _ 0 (.other :: trace)]
  · simp only [readAt_entry]
  · intro i hi
    rw [readAt_entry]
    exact hread i hi

theorem run_enumerate_error (trace : Trace HKey) (h : ¬ Enumerated api hKey count maxLen read trace.length) :
    ∃ e trace', (enumerate api hKey count maxLen read item).run trace = .error (.registryError e) trace' := by
  unfold enumerate
  rw [run_bind_ok (run_ask _ trace)]
  by_cases hinfo : (api.regQueryInfoKey trace.length hKey).retCode = errorSuccess
  · rw [if_neg (not_not_intro hinfo)]
    obtain ⟨i, hi, hfail⟩ : ∃ i, i < (count (api.regQueryInfoKey trace.length hKey)).toNat ∧
        (entry api hKey maxLen read trace.length i).retCode ≠ errorSuccess := by
      by_contra hall
      push Not at hall
      exact h ⟨hinfo, hall⟩
    rw [← readAt_entry] at hfail
    exact run_enumFrom_error _ item _ 0 (.other :: trace) hi hfail
  · rw [if_pos hinfo]
    exact ⟨_, _, rfl⟩

theorem keeps_enumerate : Keeps (enumerate api hKey count maxLen read item) := by
  unfold enumerate
  apply (keeps_ask _).bind
  intro info
  split
  · exact keeps_throw _
  · exact keeps_enumFrom _ _ _ _

end

theorem keeps_regEnumKeysA (api : Api UInt8) (hKey : HKey) : Keeps (regEnumKeysA api hKey) := keeps_enumerate _

theorem keeps_regEnumValueNamesA (api : Api UInt8) (hKey : HKey) : Keeps (regEnumValueNamesA api hKey) :=
  keeps_enumerate _

end SysUtils.Registry

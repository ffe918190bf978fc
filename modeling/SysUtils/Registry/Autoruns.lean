import SysUtils.Registry.Startups

namespace SysUtils.Registry

open Resources

section

variable {ω : Type} (P : CodePage ω) (keyAt : Visit → Option (Key ω)) (api : Api UInt8)

structure Keeping : Prop where
  opens : ∀ n v, (api.regOpenKeyEx n v.hKey v.path v.sam).1 = errorSuccess ↔ (keyAt v).isSome
  unchanging : ∀ n v key, keyAt v = some key →
    Unchanging P.encode key api (api.regOpenKeyEx n v.hKey v.path v.sam).2

def AutorunsFit : Prop := ∀ v ∈ visits, ∀ key, keyAt v = some key → Roomy P.encode key.valueNames

def autoruns : List (List UInt8) :=
  visits.flatMap fun v => ((keyAt v).elim [] Key.valueNames).map P.encode

variable {P keyAt api} {key : Key ω} {hKey : HKey}

theorem Unchanging.read_iff {o : Opening} (h : Unchanging P.encode key api o.handle) :
    o.Read api ↔ Roomy P.encode key.valueNames := h.listed_valueNames.enumerated_iff o.time

theorem Unchanging.names_eq {o : Opening} (h : Unchanging P.encode key api o.handle) (hread : o.Read api) :
    o.names api = key.valueNames.map P.encode := h.listed_valueNames.items_eq hread

theorem Keeping.opened (h : Keeping P keyAt api) {n : ℕ} {o : Opening} (ho : o ∈ openings api n visits) :
    o.visit ∈ visits ∧ ∃ key, keyAt o.visit = some key ∧ Unchanging P.encode key api o.handle := by
  obtain ⟨v, hv, m, rfl, hopen⟩ := mem_openings ho
  obtain ⟨key, hkey⟩ := Option.isSome_iff_exists.mp ((h.opens m v).mp hopen)
  exact ⟨hv, key, hkey, h.unchanging m v key hkey⟩

theorem Keeping.exists_opening (h : Keeping P keyAt api) {v : Visit} (hkey : (keyAt v).isSome) {vs : List Visit}
    (hv : v ∈ vs) (n : ℕ) : ∃ o ∈ openings api n vs, o.visit = v := by
  induction vs generalizing n with
  | nil => exact absurd hv List.not_mem_nil
  | cons w vs ih =>
    unfold openings
    rcases List.mem_cons.mp hv with rfl | hv
    · rw [if_pos ((h.opens n v).mpr hkey)]
      exact ⟨openingAt api n v, .head _, rfl⟩
    · split
      · obtain ⟨o, ho, hvisit⟩ := ih hv (n + 3 + (openingAt api n w).count api)
        exact ⟨o, .tail _ ho, hvisit⟩
      · exact ih hv (n + 1)

theorem Keeping.all_read_iff (h : Keeping P keyAt api) (n : ℕ) :
    (∀ o ∈ openings api n visits, o.Read api) ↔ AutorunsFit P keyAt := by
  constructor
  · intro hread v hv key hkey
    obtain ⟨o, ho, rfl⟩ := h.exists_opening (Option.isSome_iff_exists.mpr ⟨key, hkey⟩) hv n
    obtain ⟨_, key', hkey', hunchanging⟩ := h.opened ho
    obtain rfl : key' = key := Option.some.inj (hkey'.symm.trans hkey)
    exact hunchanging.read_iff.mp (hread o ho)
  · intro hfit o ho
    obtain ⟨hv, key, hkey, hunchanging⟩ := h.opened ho
    exact hunchanging.read_iff.mpr (hfit o.visit hv key hkey)

theorem Keeping.names_of_opened (h : Keeping P keyAt api) {n : ℕ} {o : Opening} (ho : o ∈ openings api n visits)
    (hread : o.Read api) : o.names api = ((keyAt o.visit).elim [] Key.valueNames).map P.encode := by
  obtain ⟨_, key, hkey, hunchanging⟩ := h.opened ho
  rw [hunchanging.names_eq hread, hkey]
  rfl

theorem Keeping.mem_autoruns_iff (h : Keeping P keyAt api) (n : ℕ)
    (hread : ∀ o ∈ openings api n visits, o.Read api) (name : List UInt8) :
    (∃ o ∈ openings api n visits, name ∈ o.names api) ↔ name ∈ autoruns P keyAt := by
  unfold autoruns
  rw [List.mem_flatMap]
  constructor
  · rintro ⟨o, ho, hname⟩
    rw [h.names_of_opened ho (hread o ho)] at hname
    exact ⟨o.visit, (h.opened ho).1, hname⟩
  · rintro ⟨v, hv, hname⟩
    have hkey : (keyAt v).isSome := by
      cases hkey : keyAt v with
      | none => simp [hkey] at hname
      | some key => rfl
    obtain ⟨o, ho, rfl⟩ := h.exists_opening hkey hv n
    refine ⟨o, ho, ?_⟩
    rw [h.names_of_opened ho (hread o ho)]
    exact hname

theorem autoruns_exact (h : Keeping P keyAt api) :
    (AutorunsFit P keyAt → Tidy (final ((dumpInfo api).run [])) ∧
      ∃ trace, (dumpInfo api).run [] = .ok (autoruns P keyAt).toFinset trace) ∧
    (¬ AutorunsFit P keyAt → ∃ trace, (dumpInfo api).run [] = .error .terminate trace) := by
  rw [← h.all_read_iff 0]
  constructor
  · intro hread
    obtain ⟨trace, hall, hkept⟩ := run_visitAll visits ∅ [] hread
    have hrun : (dumpInfo api).run [] = _ := run_noexcept_ok hall
    constructor
    · intro held
      rw [hrun]
      exact hkept held
    · refine ⟨trace, ?_⟩
      rw [hrun, Finset.empty_union]
      congr 1
      ext name
      rw [List.mem_toFinset, List.mem_flatMap, List.mem_toFinset]
      exact h.mem_autoruns_iff 0 hread name
  · intro hread
    obtain ⟨e, trace, he⟩ := run_visitAll_error visits ∅ [] hread
    exact ⟨trace, run_noexcept_error he⟩

end

theorem oneKey_keeping (key : Key UInt16) : Keeping doubleByte (fun _ => some key) (oneKey key) where
  opens _ _ := ⟨fun _ => rfl, fun _ => rfl⟩
  unchanging := by
    rintro _ _ _ ⟨⟩
    exact oneKey_unchanging key _

theorem autoruns_exact_twoNames :
    (∃ trace, (dumpInfo (oneKey twoNames)).run [] = .ok {[0x82, 0x42], [97, 98]} trace) ∧
    ∃ trace, (dumpInfo (oneKey oneName)).run [] = .error .terminate trace := by
  have hfit : AutorunsFit doubleByte fun _ => some twoNames := by
    rintro _ _ _ ⟨⟩
    unfold Roomy
    decide
  have hlong : ¬ AutorunsFit doubleByte fun _ => some oneName := by
    intro h
    have hbytes := h _ (List.head_mem (by decide : visits ≠ [])) oneName rfl [0x3042] (by decide)
    revert hbytes
    decide
  exact ⟨((autoruns_exact (oneKey_keeping twoNames)).1 hfit).2,
    (autoruns_exact (oneKey_keeping oneName)).2 hlong⟩

end SysUtils.Registry

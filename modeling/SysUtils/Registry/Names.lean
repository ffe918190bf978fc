import SysUtils.Registry.Enumeration

namespace SysUtils.Registry

open Resources

def errorMoreData : ℤ := 234

structure CodePage (ω : Type) where
  ansi : ω → List UInt8
  oneOrTwo : ∀ c, (ansi c).length = 1 ∨ (ansi c).length = 2

def CodePage.encode {ω : Type} (P : CodePage ω) (name : List ω) : List UInt8 := name.flatMap P.ansi

def longest {ω : Type} (names : List (List ω)) : ℕ := (names.map List.length).foldr max 0

/-- A key with the names of its sub-keys, and the names and types of its values; the lengths and numbers of
names are those that a registry can have. -/
structure Key (ω : Type) where
  subKeys : List (List ω)
  values : List (List ω × UInt32)
  subKeys_length : subKeys.length < 2 ^ 32
  values_length : values.length < 2 ^ 32
  subKey_length : ∀ name ∈ subKeys, name.length ≤ 255
  value_length : ∀ name ∈ values.map Prod.fst, name.length ≤ 16383

section

variable {ω χ β : Type} (encode : List ω → List χ) (key : Key ω) (api : Api χ) (hKey : HKey)

def Key.valueNames : List (List ω) := key.values.map Prod.fst

structure Stores (name : List ω) (size : UInt32) (answer : NameAnswer χ) : Prop where
  fits : (encode name).length < size.toNat → answer.retCode = errorSuccess ∧ answer.name = encode name
  more : size.toNat ≤ (encode name).length → answer.retCode = errorMoreData

/-- The key does not change; the longest name is reported in characters, before they are encoded. -/
structure Unchanging : Prop where
  info : ∀ n, (api.regQueryInfoKey n hKey).retCode = errorSuccess
  subKeyCount : ∀ n, (api.regQueryInfoKey n hKey).subKeyCount.toNat = key.subKeys.length
  maxSubKeyLen : ∀ n, (api.regQueryInfoKey n hKey).maxSubKeyLen.toNat = longest key.subKeys
  valueCount : ∀ n, (api.regQueryInfoKey n hKey).valueCount.toNat = key.values.length
  maxValueNameLen : ∀ n, (api.regQueryInfoKey n hKey).maxValueNameLen.toNat = longest key.valueNames
  enumKey : ∀ n i size name, key.subKeys[i]? = some name →
    Stores encode name size (api.regEnumKeyEx n hKey i size)
  enumValue : ∀ n i size name type, key.values[i]? = some (name, type) →
    Stores encode name size (api.regEnumValue n hKey i size) ∧
    ((api.regEnumValue n hKey i size).retCode = errorSuccess → (api.regEnumValue n hKey i size).type = type)

def Roomy (names : List (List ω)) : Prop := ∀ name ∈ names, (encode name).length ≤ longest names

structure Listed (count maxLen : InfoAnswer → UInt32) (read : ℕ → ℕ → UInt32 → NameAnswer χ)
    (item : NameAnswer χ → β) (names : List (List ω)) (items : List β) : Prop where
  info : ∀ n, (api.regQueryInfoKey n hKey).retCode = errorSuccess
  count : ∀ n, (count (api.regQueryInfoKey n hKey)).toNat = names.length
  maxLen : ∀ n, (maxLen (api.regQueryInfoKey n hKey)).toNat = longest names
  long : longest names ≤ 16383
  length : items.length = names.length
  stores : ∀ n i size (hi : i < names.length), Stores encode names[i] size (read n i size)
  item : ∀ n i size (hi : i < items.length), (read n i size).retCode = errorSuccess →
    item (read n i size) = items[i]

def Returns (x : Session β) (result : β) : Prop := ∃ trace, x.run [] = .ok result trace

variable {encode key api hKey}

theorem longest_le {names : List (List ω)} {bound : ℕ} (h : ∀ name ∈ names, name.length ≤ bound) :
    longest names ≤ bound := by
  induction names with
  | nil => exact Nat.zero_le bound
  | cons name names ih =>
    have hrest := ih fun name hname => h name (.tail _ hname)
    exact max_le (h name (.head _)) hrest

theorem toNat_size {maxLen : UInt32} (h : maxLen.toNat ≤ 16383) : (maxLen + 1).toNat = maxLen.toNat + 1 := by
  rw [UInt32.toNat_add]
  exact Nat.mod_eq_of_lt (by change maxLen.toNat + 1 < _; omega)

theorem Stores.success_iff {name : List ω} {size : UInt32} {answer : NameAnswer χ}
    (h : Stores encode name size answer) : answer.retCode = errorSuccess ↔ (encode name).length < size.toNat := by
  constructor
  · intro hret
    by_contra hmore
    rw [h.more (Nat.le_of_not_lt hmore)] at hret
    cases hret
  · intro hfits
    exact (h.fits hfits).1

theorem Stores.name_eq {name : List ω} {size : UInt32} {answer : NameAnswer χ}
    (h : Stores encode name size answer) (hret : answer.retCode = errorSuccess) : answer.name = encode name :=
  (h.fits (h.success_iff.mp hret)).2

theorem not_returns {x : Session β} {e : Thrown} {trace : Trace HKey} (hx : x.run [] = .error e trace)
    (result : β) : ¬ Returns x result := by
  rintro ⟨trace', hrun⟩
  rw [hx] at hrun
  cases hrun

namespace Listed

variable {count maxLen : InfoAnswer → UInt32} {read : ℕ → ℕ → UInt32 → NameAnswer χ}
  {item : NameAnswer χ → β} {names : List (List ω)} {items : List β}

theorem enumerated_iff (h : Listed encode api hKey count maxLen read item names items) (n : ℕ) :
    Enumerated api hKey count maxLen read n ↔ Roomy encode names := by
  have hsize : (maxLen (api.regQueryInfoKey n hKey) + 1).toNat = longest names + 1 := by
    rw [toNat_size, h.maxLen]
    rw [h.maxLen]
    exact h.long
  have hentry (i : ℕ) (hi : i < names.length) : (entry api hKey maxLen read n i).retCode = errorSuccess ↔
      (encode names[i]).length ≤ longest names := by
    have hsuccess := (h.stores (n + 1 + i) i (maxLen (api.regQueryInfoKey n hKey) + 1) hi).success_iff
    rw [hsize, Nat.lt_succ_iff] at hsuccess
    exact hsuccess
  constructor
  · rintro ⟨_, hread⟩ name hname
    obtain ⟨i, hi, rfl⟩ := List.mem_iff_getElem.mp hname
    exact (hentry i hi).mp (hread i (by rw [h.count]; exact hi))
  · intro hroomy
    refine ⟨h.info n, ?_⟩
    intro i hi
    rw [h.count] at hi
    exact (hentry i hi).mpr (hroomy _ (List.getElem_mem hi))

theorem items_eq (h : Listed encode api hKey count maxLen read item names items) {n : ℕ}
    (hread : Enumerated api hKey count maxLen read n) :
    ((List.range (count (api.regQueryInfoKey n hKey)).toNat).map fun i =>
      item (entry api hKey maxLen read n i)) = items := by
  have hcount : (count (api.regQueryInfoKey n hKey)).toNat = items.length := (h.count n).trans h.length.symm
  apply List.ext_getElem
  · rw [List.length_map, List.length_range, hcount]
  · intro i _ hi
    rw [List.getElem_map, List.getElem_range]
    exact h.item _ i _ hi (hread.2 i (hcount ▸ hi))

theorem run (h : Listed encode api hKey count maxLen read item names items) (hroomy : Roomy encode names)
    (trace : Trace HKey) :
    ∃ trace', (enumerate api hKey count maxLen read item).run trace = .ok items trace' := by
  have hread := (h.enumerated_iff trace.length).mpr hroomy
  have hrun := run_enumerate item trace hread
  rw [h.items_eq hread] at hrun
  exact ⟨_, hrun⟩

theorem returns_iff (h : Listed encode api hKey count maxLen read item names items) :
    Returns (enumerate api hKey count maxLen read item) items ↔ Roomy encode names := by
  constructor
  · intro hreturns
    rw [← h.enumerated_iff 0]
    by_contra hnot
    obtain ⟨e, trace, hthrown⟩ := run_enumerate_error item [] hnot
    exact not_returns hthrown items hreturns
  · intro hroomy
    exact h.run hroomy []

end Listed

namespace Unchanging

theorem listed_subKeys (h : Unchanging encode key api hKey) :
    Listed encode api hKey InfoAnswer.subKeyCount InfoAnswer.maxSubKeyLen
      (fun call index size => api.regEnumKeyEx call hKey index size) NameAnswer.name key.subKeys
      (key.subKeys.map encode) where
  info := h.info
  count := h.subKeyCount
  maxLen := h.maxSubKeyLen
  long := longest_le fun name hname => (key.subKey_length name hname).trans (by decide)
  length := List.length_map _
  stores n i size hi := h.enumKey n i size _ (List.getElem?_eq_getElem hi)
  item n i size hi hret := by
    rw [List.length_map] at hi
    rw [List.getElem_map]
    exact (h.enumKey n i size _ (List.getElem?_eq_getElem hi)).name_eq hret

theorem stores_value (h : Unchanging encode key api hKey) (n i : ℕ) (size : UInt32)
    (hi : i < key.valueNames.length) :
    Stores encode key.valueNames[i] size (api.regEnumValue n hKey i size) := by
  have hvalue : i < key.values.length := by simpa [Key.valueNames] using hi
  have hname : key.valueNames[i] = key.values[i].1 := List.getElem_map _
  rw [hname]
  exact (h.enumValue n i size _ _ (List.getElem?_eq_getElem hvalue)).1

theorem listed_values (h : Unchanging encode key api hKey) :
    Listed encode api hKey InfoAnswer.valueCount InfoAnswer.maxValueNameLen
      (fun call index size => api.regEnumValue call hKey index size)
      (fun answer => (answer.name, answer.type)) key.valueNames
      (key.values.map fun v => (encode v.1, v.2)) where
  info := h.info
  count n := by rw [h.valueCount, Key.valueNames, List.length_map]
  maxLen := h.maxValueNameLen
  long := longest_le key.value_length
  length := by rw [List.length_map, Key.valueNames, List.length_map]
  stores := h.stores_value
  item n i size hi hret := by
    rw [List.length_map] at hi
    obtain ⟨hstored, htype⟩ := h.enumValue n i size _ _ (List.getElem?_eq_getElem hi)
    rw [List.getElem_map, hstored.name_eq hret, htype hret]
    rfl

theorem listed_valueNames (h : Unchanging encode key api hKey) :
    Listed encode api hKey InfoAnswer.valueCount InfoAnswer.maxValueNameLen
      (fun call index size => api.regEnumValue call hKey index size) NameAnswer.name key.valueNames
      (key.valueNames.map encode) where
  info := h.info
  count := h.listed_values.count
  maxLen := h.maxValueNameLen
  long := longest_le key.value_length
  length := List.length_map _
  stores := h.stores_value
  item n i size hi hret := by
    rw [List.length_map] at hi
    rw [List.getElem_map]
    exact (h.stores_value n i size hi).name_eq hret

end Unchanging

theorem enumerators_iff {P : CodePage ω} {api : Api UInt8} (hkey : Unchanging P.encode key api hKey) :
    (Returns (regEnumKeysA api hKey) (key.subKeys.map P.encode) ↔ Roomy P.encode key.subKeys) ∧
    (Returns (regEnumValuesA api hKey) (key.values.map fun v => (P.encode v.1, v.2)) ↔
      Roomy P.encode key.valueNames) ∧
    (Returns (regEnumValueNamesA api hKey) (key.valueNames.map P.encode) ↔ Roomy P.encode key.valueNames) :=
  ⟨hkey.listed_subKeys.returns_iff, hkey.listed_values.returns_iff, hkey.listed_valueNames.returns_iff⟩

def storeName (encode : List ω → List χ) (name : List ω) (type size : UInt32) : NameAnswer χ :=
  if (encode name).length < size.toNat then ⟨errorSuccess, encode name, type⟩ else ⟨errorMoreData, [], 0⟩

def listing (encode : List ω → List χ) (key : Key ω) : Api χ :=
  { Api.failing with
    regQueryInfoKey := fun _ _ => ⟨errorSuccess, .ofNat key.subKeys.length, .ofNat (longest key.subKeys),
      .ofNat key.values.length, .ofNat (longest key.valueNames)⟩
    regEnumKeyEx := fun _ _ i size =>
      (key.subKeys[i]?.map fun name => storeName encode name 0 size).getD ⟨259, [], 0⟩
    regEnumValue := fun _ _ i size =>
      (key.values[i]?.map fun v => storeName encode v.1 v.2 size).getD ⟨259, [], 0⟩ }

theorem storeName_stores (name : List ω) (type size : UInt32) :
    Stores encode name size (storeName encode name type size) := by
  unfold storeName
  constructor
  · intro hfits
    rw [if_pos hfits]
    exact ⟨rfl, rfl⟩
  · intro hmore
    rw [if_neg (Nat.not_lt.mpr hmore)]

theorem listing_unchanging (encode : List ω → List χ) (key : Key ω) (hKey : HKey) :
    Unchanging encode key (listing encode key) hKey where
  info _ := rfl
  subKeyCount _ := UInt32.toNat_ofNat_of_lt' key.subKeys_length
  maxSubKeyLen _ := by
    have hle : longest key.subKeys ≤ 255 := longest_le key.subKey_length
    exact UInt32.toNat_ofNat_of_lt' (hle.trans_lt (by decide))
  valueCount _ := UInt32.toNat_ofNat_of_lt' key.values_length
  maxValueNameLen _ := by
    have hle : longest key.valueNames ≤ 16383 := longest_le key.value_length
    exact UInt32.toNat_ofNat_of_lt' (hle.trans_lt (by decide))
  enumKey n i size name hname := by
    simp only [listing, hname, Option.map_some, Option.getD_some]
    exact storeName_stores name 0 size
  enumValue n i size name type hname := by
    simp only [listing, hname, Option.map_some, Option.getD_some]
    refine ⟨storeName_stores name type size, ?_⟩
    intro hret
    unfold storeName at hret ⊢
    split at hret
    · rw [if_pos (by assumption)]
    · cases hret

end

def doubleByte : CodePage UInt16 where
  ansi c := if c < 128 then [c.toUInt8] else [0x82, c.toUInt8]
  oneOrTwo c := by split <;> simp

def severalNames : Key UInt16 where
  subKeys := [[97], [0x3042, 98], [97, 98, 99]]
  values := [([97, 98], 1), ([], 4), ([0x3042], 1)]
  subKeys_length := by decide
  values_length := by decide
  subKey_length := by decide
  value_length := by decide

theorem enumerators_severalNames :
    Returns (regEnumKeysA (listing doubleByte.encode severalNames) 1) [[97], [0x82, 0x42, 98], [97, 98, 99]] ∧
    Returns (regEnumValuesA (listing doubleByte.encode severalNames) 1)
      [([97, 98], 1), ([], 4), ([0x82, 0x42], 1)] ∧
    Returns (regEnumValueNamesA (listing doubleByte.encode severalNames) 1) [[97, 98], [], [0x82, 0x42]] := by
  obtain ⟨hkeys, hvalues, hnames⟩ := enumerators_iff (P := doubleByte) (listing_unchanging _ severalNames 1)
  have hsubKeys : Roomy doubleByte.encode severalNames.subKeys := by
    unfold Roomy
    decide
  have hvalueNames : Roomy doubleByte.encode severalNames.valueNames := by
    unfold Roomy
    decide
  exact ⟨hkeys.mpr hsubKeys, hvalues.mpr hvalueNames, hnames.mpr hvalueNames⟩

def oneName : Key UInt16 where
  subKeys := [[0x3042]]
  values := [([0x3042], 1)]
  subKeys_length := by decide
  values_length := by decide
  subKey_length := by decide
  value_length := by decide

theorem double_byte_name_does_not_fit :
    Unchanging doubleByte.encode oneName (listing doubleByte.encode oneName) 1 ∧
    (∃ trace, (regEnumKeysA (listing doubleByte.encode oneName) 1).run [] =
      .error (.registryError ⟨"Cannot get value info from the registry", 234⟩) trace) ∧
    ¬ Returns (regEnumKeysA (listing doubleByte.encode oneName) 1) [[0x82, 0x42]] ∧
    ¬ Returns (regEnumValuesA (listing doubleByte.encode oneName) 1) [([0x82, 0x42], 1)] ∧
    ¬ Returns (regEnumValueNamesA (listing doubleByte.encode oneName) 1) [[0x82, 0x42]] := by
  have hkeys : (regEnumKeysA (listing doubleByte.encode oneName) 1).run [] =
      .error (.registryError ⟨"Cannot get value info from the registry", 234⟩) _ := rfl
  have hvalues : (regEnumValuesA (listing doubleByte.encode oneName) 1).run [] =
      .error (.registryError ⟨"Cannot get value info from the registry", 234⟩) _ := rfl
  have hnames : (regEnumValueNamesA (listing doubleByte.encode oneName) 1).run [] =
      .error (.registryError ⟨"Cannot get value info from the registry", 234⟩) _ := rfl
  exact ⟨listing_unchanging _ oneName 1, ⟨_, hkeys⟩, not_returns hkeys _, not_returns hvalues _,
    not_returns hnames _⟩

theorem le_longest {ω : Type} {names : List (List ω)} {name : List ω} (h : name ∈ names) :
    name.length ≤ longest names := by
  induction h with
  | head names => exact le_max_left _ _
  | tail other _ ih => exact ih.trans (le_max_right _ _)

theorem roomy_id {ω : Type} (names : List (List ω)) : Roomy id names := fun _ => le_longest

theorem wide_enumerators_complete {key : Key WChar} {api : Api WChar} {hKey : HKey}
    (hkey : Unchanging id key api hKey) (trace : Trace HKey) :
    (∃ trace', (regEnumKeysW api hKey).run trace = .ok key.subKeys trace') ∧
    ∃ trace', (regEnumValuesW api hKey).run trace = .ok key.values trace' := by
  have hkeys := hkey.listed_subKeys.run (roomy_id _) trace
  have hvalues := hkey.listed_values.run (roomy_id _) trace
  have hsame : key.values.map (fun v => (id v.1, v.2)) = key.values := List.map_id key.values
  rw [List.map_id] at hkeys
  rw [hsame] at hvalues
  exact ⟨hkeys, hvalues⟩

theorem wide_enumerators_complete_severalNames :
    (∃ trace, (regEnumKeysW (listing id severalNames) 1).run [] =
      .ok [[97], [0x3042, 98], [97, 98, 99]] trace) ∧
    ∃ trace, (regEnumValuesW (listing id severalNames) 1).run [] =
      .ok [([97, 98], 1), ([], 4), ([0x3042], 1)] trace :=
  wide_enumerators_complete (listing_unchanging id severalNames 1) []

end SysUtils.Registry

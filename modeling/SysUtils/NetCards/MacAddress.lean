import SysUtils.Formatting

namespace SysUtils.NetCards

open Formatting Numerals Streams

structure Adapter where
  address : List UInt8
  addressLength : ℕ
  fits : addressLength ≤ address.length

def Adapter.bytes (a : Adapter) : List UInt8 := a.address.take a.addressLength

theorem sixteen_le : 16 ≤ 32 := by decide

def int : IntType := ⟨true, 32, sixteen_le⟩

def putPart (macPart : ℤ) (ss : OStream) : OStream :=
  ((((ss.setw 2).setfill '0').hex).putInt int macPart).putChar '-'

def putParts (a : Adapter) (idx : ℕ) (ss : OStream) : OStream :=
  if h : idx < a.addressLength then
    putParts a (idx + 1) (putPart (a.address.get ⟨idx, h.trans_le a.fits⟩).toNat ss)
  else ss
termination_by a.addressLength - idx

/-- `none` is a read in front of the string. -/
def netCardMac (a : Adapter) : Option (List Char) :=
  let ss := putParts a 0 .fresh
  let netCardMac := getWord ss.text []
  match netCardMac.getLast? with
  | none => none
  | some last =>
      some (if last = '-' then netCardMac.eraseIdx (netCardMac.length - 1) else netCardMac)

def parts (bytes : List UInt8) : List (List Char) := bytes.map fun b => twoDigits b.toNat

def readMac (mac : List Char) : List UInt8 :=
  if mac = [] then [] else (mac.splitOn '-').map fun part => UInt8.ofNat (value 16 part)

theorem putPart_text (b : UInt8) (ss : OStream) :
    (putPart b.toNat ss).text = ss.text ++ (twoDigits b.toNat ++ ['-']) := by
  have hb := b.toNat_lt
  have hput : put int .hex b.toNat = Nat.toDigits 16 b.toNat := by
    have hbits : (b.toNat : ℤ) % 2 ^ 32 = b.toNat := Int.emod_eq_of_lt (by omega) (by omega)
    change Nat.toDigits 16 ((b.toNat : ℤ) % 2 ^ 32).toNat = _
    rw [hbits, Int.toNat_natCast]
  change (ss.text ++ (List.replicate (2 - (put int .hex b.toNat).length) '0' ++ put int .hex b.toNat)) ++
    (List.replicate (0 - 1) '0' ++ ['-']) = _
  rw [hput, padded_twoDigits hb, List.append_assoc]
  rfl

theorem putParts_text (a : Adapter) (idx : ℕ) (ss : OStream) : (putParts a idx ss).text =
    ss.text ++ (parts (a.bytes.drop idx)).flatMap fun part => part ++ ['-'] := by
  fun_induction putParts a idx ss with
  | case1 idx ss h ih =>
    have hlen : idx < a.bytes.length := by
      unfold Adapter.bytes
      have := a.fits
      rw [List.length_take]
      omega
    have hget : a.bytes[idx] = a.address.get ⟨idx, h.trans_le a.fits⟩ := List.getElem_take
    rw [ih, putPart_text, List.drop_eq_getElem_cons hlen, hget]
    simp only [parts, List.map_cons, List.flatMap_cons, List.append_assoc]
  | case2 idx ss h =>
    have hnil : a.bytes.drop idx = [] := by
      apply List.drop_of_length_le
      unfold Adapter.bytes
      rw [List.length_take]
      omega
    rw [hnil]
    simp [parts]

theorem flatMap_concat_eq (ps : List (List Char)) (hne : ps ≠ []) :
    (ps.flatMap fun part => part ++ ['-']) = ['-'].intercalate ps ++ ['-'] := by
  induction ps with
  | nil => exact absurd rfl hne
  | cons p ps ih =>
    cases ps with
    | nil => simp
    | cons q ps =>
      rw [List.flatMap_cons, ih (List.cons_ne_nil q ps), List.intercalate_cons_cons]
      simp only [List.append_assoc]

theorem dash_notMem_parts (bytes : List UInt8) : ∀ part ∈ parts bytes, '-' ∉ part := by
  intro part hpart hdash
  obtain ⟨b, _, rfl⟩ := List.mem_map.mp hpart
  have hdigit := isDigit_of_mem_twoDigits b.toNat_lt hdash
  revert hdigit
  decide

theorem noSpace_parts (bytes : List UInt8) :
    ∀ c ∈ (parts bytes).flatMap fun part => part ++ ['-'], isSpace c = false := by
  intro c hc
  obtain ⟨part, hpart, hc⟩ := List.mem_flatMap.mp hc
  obtain ⟨b, _, rfl⟩ := List.mem_map.mp hpart
  rcases List.mem_append.mp hc with hc | hc
  · exact isSpace_of_isDigit (Nat.le_refl 16) (isDigit_of_mem_twoDigits b.toNat_lt hc)
  · rw [List.mem_singleton.mp hc]
    rfl

theorem readMac_parts (bytes : List UInt8) (hne : bytes ≠ []) :
    readMac (['-'].intercalate (parts bytes)) = bytes := by
  have hparts : parts bytes ≠ [] := by simpa [parts] using hne
  have hmac : ['-'].intercalate (parts bytes) ≠ [] := by
    obtain ⟨b, bs, rfl⟩ := List.exists_cons_of_ne_nil hne
    cases bs <;> simp [parts, twoDigits]
  unfold readMac
  rw [if_neg hmac, List.splitOn_intercalate '-' (dash_notMem_parts bytes) hparts]
  unfold parts
  rw [List.map_map]
  apply List.map_id''
  intro b
  simp only [Function.comp_apply, value_twoDigits b.toNat_lt, UInt8.ofNat_toNat]

theorem netCardMac_eq (a : Adapter) : netCardMac a =
    if a.bytes = [] then none else some (['-'].intercalate (parts a.bytes)) := by
  have htext : getWord (putParts a 0 .fresh).text [] =
      (parts a.bytes).flatMap fun part => part ++ ['-'] := by
    rw [putParts_text, List.drop_zero]
    exact getWord_of_noSpace (noSpace_parts a.bytes)
  unfold netCardMac
  simp only [htext]
  by_cases hnil : a.bytes = []
  · rw [hnil]
    rfl
  · have hparts : parts a.bytes ≠ [] := by simpa [parts] using hnil
    rw [flatMap_concat_eq _ hparts, if_neg hnil, List.getLast?_concat]
    simp only [if_true, List.eraseIdx_length_sub_one, List.dropLast_concat]

structure Formatted (bytes : List UInt8) (mac : List Char) : Prop where
  text : mac = ['-'].intercalate (parts bytes)
  read : readMac mac = bytes

theorem mac_formatted_iff (a : Adapter) :
    (∃ mac, netCardMac a = some mac ∧ Formatted a.bytes mac) ↔ a.addressLength ≠ 0 := by
  have hbytes : a.bytes = [] ↔ a.addressLength = 0 := by
    have := a.fits
    rw [← List.length_eq_zero_iff, Adapter.bytes, List.length_take]
    omega
  rw [netCardMac_eq, ne_eq, ← hbytes]
  constructor
  · rintro ⟨mac, hmac, _⟩ hnil
    rw [if_pos hnil] at hmac
    cases hmac
  · intro hne
    exact ⟨_, if_neg hne, rfl, readMac_parts a.bytes hne⟩

theorem no_address_reads_before_string :
    netCardMac ⟨[0, 0, 0, 0, 0, 0, 0, 0], 0, by decide⟩ = none ∧
    ¬ ∃ mac, netCardMac ⟨[0, 0, 0, 0, 0, 0, 0, 0], 0, by decide⟩ = some mac ∧ Formatted [] mac := by
  have hnone : netCardMac ⟨[0, 0, 0, 0, 0, 0, 0, 0], 0, by decide⟩ = none := netCardMac_eq _
  refine ⟨hnone, ?_⟩
  rintro ⟨mac, hmac, _⟩
  rw [hnone] at hmac
  cases hmac

example : netCardMac ⟨[0, 10, 255, 1, 2, 3, 0, 0], 6, by decide⟩ = some "00-0a-ff-01-02-03".toList := by
  rw [netCardMac_eq]
  decide

end SysUtils.NetCards

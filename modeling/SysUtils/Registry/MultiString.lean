import SysUtils.Registry.Api
import SysUtils.Strings
import SysUtils.Terminated

namespace SysUtils.Registry

open Strings Terminated

structure Answer where
  retCode : ℤ
  buffer : List WChar
  dataSize : ℕ

abbrev RegGetValueW := HKey → List WChar → List WChar → ℕ → Option (List WChar) → ℕ → Answer

def rrfRtRegMultiSz : ℕ := 0x20

def sizeofWChar : ℕ := 2

def resize (data : List WChar) (n : ℕ) : List WChar :=
  data.take n ++ List.replicate (n - data.length) 0

/-- `wcslen` of what begins at `pos`; it would read past the end where no NUL follows. -/
def wcslen (data : List WChar) (pos : ℕ) : Option ℕ :=
  (findFirst (fun c => c = 0) data pos).map fun k => k - pos

def multiStringFrom (data : List WChar) (pos : ℕ) (result : List (List WChar)) :
    Option (List (List WChar)) :=
  if hpos : pos < data.length then
    if data[pos] = 0 then some result
    else
      match wcslen data pos with
      | none => none
      | some length =>
          multiStringFrom data (pos + length + 1) (result ++ [(data.drop pos).take length])
  else none
termination_by data.length - pos

def multiStringError (retCode : ℤ) : RegistryError :=
  ⟨"Can not read multi-string from registry", retCode⟩

section

variable (query read : RegGetValueW) (hKey : HKey) (subKey value : List WChar)

def queried : Answer := query hKey subKey value rrfRtRegMultiSz none 0

def got : Answer :=
  let dataSize := (queried query hKey subKey value).dataSize
  read hKey subKey value rrfRtRegMultiSz (some (resize [] (dataSize / sizeofWChar))) dataSize

/-- The registry answers `query` to the first call and `read` to the second; `none` is a read past the end
of the data. -/
def regGetMultiString : Option (Except RegistryError (List (List WChar))) :=
  let retCode := (queried query hKey subKey value).retCode
  if retCode ≠ errorSuccess then some (.error (multiStringError retCode))
  else
    let answer := got query read hKey subKey value
    if answer.retCode ≠ errorSuccess then some (.error (multiStringError answer.retCode))
    else (multiStringFrom (resize answer.buffer (answer.dataSize / sizeofWChar)) 0 []).map .ok

end

theorem multiStringFrom_eq (data : List WChar) (pos : ℕ) (result : List (List WChar))
    (hclosed : Closed 0 (data.drop pos)) :
    multiStringFrom data pos result = some (result ++ decode 0 (data.drop pos)) := by
  fun_induction multiStringFrom data pos result with
  | case1 pos result hpos hnul =>
    rw [List.drop_eq_getElem_cons hpos, hnul, decode_empty, List.append_nil]
  | case2 pos result hpos hchar hlen =>
    have hnone := findFirst_eq_none.mp (Option.map_eq_none_iff.mp hlen)
    simpa using hnone 0 hclosed.mem
  | case3 pos result hpos hchar length hlen ih =>
    obtain ⟨k, hk, rfl⟩ := Option.map_eq_some_iff.mp hlen
    obtain ⟨hle, hlt, c, hc, hdrop, hbefore⟩ := findFirst_eq_some hk
    have hc : c = 0 := by simpa using hc
    subst hc
    have hnul : (0 : WChar) ∉ (data.drop pos).take (k - pos) := fun h => by simpa using hbefore 0 h
    have hne : (data.drop pos).take (k - pos) ≠ [] := by
      intro hnil
      rw [hnil, List.drop_eq_getElem_cons hpos, List.nil_append, List.cons.injEq] at hdrop
      exact hchar hdrop.1
    have hnext : pos + (k - pos) + 1 = k + 1 := by omega
    have hbehind : Closed 0 (data.drop (k + 1)) := by
      rw [hdrop] at hclosed
      exact hclosed.behind hnul hne
    rw [hnext] at ih
    rw [hnext, ih hbehind, List.append_assoc]
    conv_rhs => rw [hdrop]
    rw [decode_terminated hnul hne]
    rfl
  | case4 pos result hpos =>
    rw [List.drop_of_length_le (by omega)] at hclosed
    simpa using hclosed.mem

structure Answer.Holds (a : Answer) (content : List WChar) : Prop where
  success : a.retCode = errorSuccess
  size : a.dataSize / sizeofWChar = content.length
  holds : content <+: a.buffer

theorem resize_of_holds {a : Answer} {content : List WChar} (h : a.Holds content) :
    resize a.buffer (a.dataSize / sizeofWChar) = content := by
  have hle := h.holds.length_le
  unfold resize
  rw [h.size, ← List.prefix_iff_eq_take.mp h.holds, Nat.sub_eq_zero_of_le hle, List.replicate_zero,
    List.append_nil]

variable {query read : RegGetValueW} {hKey : HKey} {subKey value : List WChar}

theorem regGetMultiString_closed {content : List WChar}
    (hquery : (queried query hKey subKey value).retCode = errorSuccess)
    (hread : (got query read hKey subKey value).Holds content) (hclosed : Closed 0 content) :
    regGetMultiString query read hKey subKey value = some (.ok (decode 0 content)) := by
  have hstrings := multiStringFrom_eq content 0 [] hclosed
  rw [List.drop_zero, List.nil_append] at hstrings
  simp only [regGetMultiString, hquery, hread.success, ne_eq, not_true_eq_false, if_false]
  rw [resize_of_holds hread, hstrings]
  rfl

theorem regGetMultiString_exact (hquery : (queried query hKey subKey value).retCode = errorSuccess) :
    (∀ content, Closed 0 content → (got query read hKey subKey value).Holds content →
      regGetMultiString query read hKey subKey value = some (.ok (decode 0 content))) ∧
    ∀ ws : List (List WChar), (∀ w ∈ ws, w ≠ [] ∧ 0 ∉ w) →
      (got query read hKey subKey value).Holds (encode 0 ws) →
      regGetMultiString query read hKey subKey value = some (.ok ws) := by
  constructor
  · intro content hclosed hread
    exact regGetMultiString_closed hquery hread hclosed
  · intro ws hws hread
    have hdecode := decode_encode [] hws
    rw [List.append_nil] at hdecode
    rw [regGetMultiString_closed hquery hread closed_encode, hdecode]

def valueHolding (n : ℕ) (content : List WChar) : RegGetValueW := fun _ _ _ _ buffer _ =>
  match buffer with
  | none => ⟨errorSuccess, [], n⟩
  | some buffer =>
      if content.length ≤ buffer.length then
        ⟨errorSuccess, content ++ buffer.drop content.length, sizeofWChar * content.length⟩
      else ⟨234, buffer, sizeofWChar * content.length⟩

theorem regGetMultiString_shrunk :
    regGetMultiString (valueHolding 16 [97, 0, 98, 0, 0]) (valueHolding 16 [97, 0, 98, 0, 0]) 1 [115] [118] =
      some (.ok [[97], [98]]) ∧
    regGetMultiString (valueHolding 16 [97, 0, 0, 98, 0, 0]) (valueHolding 16 [97, 0, 0, 98, 0, 0]) 1 [115]
      [118] = some (.ok [[97]]) :=
  ⟨(regGetMultiString_exact rfl).2 [[97], [98]] (by decide) ⟨rfl, rfl, by decide⟩,
    (regGetMultiString_exact rfl).1 [97, 0, 0, 98, 0, 0] (.inr (by decide)) ⟨rfl, rfl, by decide⟩⟩

end SysUtils.Registry

import SysUtils.Strings

namespace SysUtils.Utils

open Strings

variable {α : Type}

def emplaceToken (str : List α) (ignoreEmpty : Bool) (lastPos pos : ℕ) (tokens : List (List α)) :
    List (List α) :=
  if pos ≠ lastPos ∨ ignoreEmpty = false then tokens ++ [(str.drop lastPos).take (pos - lastPos)]
  else tokens

def kept (ignoreEmpty : Bool) (pieces : List (List α)) : List (List α) :=
  if ignoreEmpty then pieces.filter fun t => t ≠ [] else pieces

theorem emplaceToken_eq (str : List α) (ignoreEmpty : Bool) {lastPos pos : ℕ} (hle : lastPos ≤ pos)
    (hlen : pos ≤ str.length) (tokens : List (List α)) :
    emplaceToken str ignoreEmpty lastPos pos tokens =
      tokens ++ kept ignoreEmpty [(str.drop lastPos).take (pos - lastPos)] := by
  have hempty : (str.drop lastPos).take (pos - lastPos) = [] ↔ pos = lastPos := by
    rw [← List.length_eq_zero_iff, List.length_take, List.length_drop]
    omega
  unfold emplaceToken kept
  cases ignoreEmpty with
  | false => simp
  | true =>
    by_cases hpos : pos = lastPos
    · simp [hpos]
    · simp [hpos, hempty]

theorem kept_cons (ignoreEmpty : Bool) (piece : List α) (pieces : List (List α)) :
    kept ignoreEmpty (piece :: pieces) = kept ignoreEmpty [piece] ++ kept ignoreEmpty pieces := by
  cases ignoreEmpty with
  | false => rfl
  | true => by_cases hpiece : piece = [] <;> simp [kept, hpiece]

variable [DecidableEq α]

def tokenizeFrom (str delimiters : List α) (ignoreEmpty : Bool) (lastPos : ℕ)
    (tokens : List (List α)) : List (List α) :=
  match h : findFirst (fun c => delimiters.contains c) str lastPos with
  | none => emplaceToken str ignoreEmpty lastPos str.length tokens
  | some pos =>
      tokenizeFrom str delimiters ignoreEmpty (pos + 1) (emplaceToken str ignoreEmpty lastPos pos tokens)
termination_by str.length - lastPos
decreasing_by
  obtain ⟨hle, hlt, _⟩ := findFirst_eq_some h
  omega

def tokenizeString (str : List α) (tokens : List (List α)) (delimiters : List α) (ignoreEmpty : Bool) :
    List (List α) :=
  tokenizeFrom str delimiters ignoreEmpty 0 tokens

theorem tokenizeFrom_eq (str delimiters : List α) (ignoreEmpty : Bool) (lastPos : ℕ)
    (tokens : List (List α)) (hpos : lastPos ≤ str.length) :
    tokenizeFrom str delimiters ignoreEmpty lastPos tokens =
      tokens ++ kept ignoreEmpty ((str.drop lastPos).splitOnP fun c => delimiters.contains c) := by
  fun_induction tokenizeFrom str delimiters ignoreEmpty lastPos tokens with
  | case1 lastPos tokens h =>
    rw [emplaceToken_eq str ignoreEmpty hpos (Nat.le_refl _),
      List.splitOnP_eq_singleton (findFirst_eq_none.mp h), List.take_of_length_le (by simp)]
  | case2 lastPos tokens pos h ih =>
    obtain ⟨hle, hlt, c, hc, hdrop, hbefore⟩ := findFirst_eq_some h
    have hsplit : (str.drop lastPos).splitOnP (fun c => delimiters.contains c) =
        (str.drop lastPos).take (pos - lastPos) ::
          (str.drop (pos + 1)).splitOnP fun c => delimiters.contains c := by
      conv_lhs => rw [hdrop]
      exact List.splitOnP_append_cons_of_forall_mem hbefore c hc _
    rw [ih (by omega), emplaceToken_eq str ignoreEmpty hle (by omega), hsplit,
      kept_cons ignoreEmpty _ (List.splitOnP _ _), List.append_assoc]

theorem tokenizeString_eq (str : List α) (tokens : List (List α)) (delimiters : List α)
    (ignoreEmpty : Bool) : tokenizeString str tokens delimiters ignoreEmpty =
      tokens ++ kept ignoreEmpty (str.splitOnP fun c => delimiters.contains c) :=
  tokenizeFrom_eq str delimiters ignoreEmpty 0 tokens (Nat.zero_le _)

example : tokenizeString "aa:bb::cc:".toList [] ":".toList false =
    ["aa".toList, "bb".toList, [], "cc".toList, []] := by
  rw [tokenizeString_eq]
  decide

theorem tokenize_lossless (str delimiters : List α) : ∃ pieces : List (List α),
    (∀ tokens, tokenizeString str tokens delimiters false = tokens ++ pieces) ∧
    (∀ piece ∈ pieces, ∀ c ∈ piece, c ∉ delimiters) ∧
    pieces.length = (str.filter fun c => delimiters.contains c).length + 1 ∧
    interleave pieces (str.filter fun c => delimiters.contains c) = str ∧
    ∀ tokens, tokenizeString str tokens delimiters true = tokens ++ pieces.filter fun t => t ≠ [] := by
  refine ⟨str.splitOnP fun c => delimiters.contains c, ?_, ?_, length_splitOnP _ _,
    interleave_splitOnP _ _, ?_⟩
  · intro tokens
    exact tokenizeString_eq str tokens delimiters false
  · intro piece hpiece c hc
    simpa using not_of_mem_splitOnP _ _ piece hpiece c hc
  · intro tokens
    exact tokenizeString_eq str tokens delimiters true

def hasToken (str delimiters pattern : List α) : Bool :=
  let tokens := tokenizeString str [] delimiters true
  if tokens.isEmpty then false else tokens.any fun str => str == pattern

theorem hasToken_iff_mem (str delimiters pattern : List α) : hasToken str delimiters pattern = true ↔
    pattern ∈ tokenizeString str [] delimiters true := by
  unfold hasToken
  cases tokenizeString str [] delimiters true <;> simp [@eq_comm _ pattern]

theorem hasToken_iff_delimited (str delimiters pattern : List α) :
    hasToken str delimiters pattern = true ↔
      pattern ≠ [] ∧ (∀ c ∈ pattern, c ∉ delimiters) ∧ ∃ a b, str = a ++ pattern ++ b ∧
        (a = [] ∨ ∃ c ∈ delimiters, a.getLast? = some c) ∧
        (b = [] ∨ ∃ c ∈ delimiters, b.head? = some c) := by
  have hlast (a : List α) : (∀ c ∈ a.getLast?, c ∈ delimiters) ↔
      (a = [] ∨ ∃ c ∈ delimiters, a.getLast? = some c) := by
    rcases List.eq_nil_or_concat' a with rfl | ⟨a, c, rfl⟩ <;> simp
  have hhead (b : List α) : (∀ c ∈ b.head?, c ∈ delimiters) ↔
      (b = [] ∨ ∃ c ∈ delimiters, b.head? = some c) := by
    cases b <;> simp
  rw [hasToken_iff_mem, tokenizeString_eq, List.nil_append, kept, if_pos rfl, List.mem_filter,
    mem_splitOnP_iff, Delimited]
  simp only [List.contains_eq_mem, decide_eq_true_eq, decide_eq_false_iff_not, hlast, hhead]
  constructor
  · rintro ⟨⟨hpiece, hparts⟩, hne⟩
    exact ⟨hne, hpiece, hparts⟩
  · rintro ⟨hne, hpiece, hparts⟩
    exact ⟨⟨hpiece, hparts⟩, hne⟩

end SysUtils.Utils

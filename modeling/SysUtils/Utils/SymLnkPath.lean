import SysUtils.Paths.Relative
import SysUtils.Utils.ParentPath

namespace SysUtils.Utils

open Paths

variable {p d c t : List Char} {k : ℕ}

structure Stat where
  isLnk : Bool
  stSize : ℤ
  deriving DecidableEq, Repr

/-- The system calls, and the capacity that a string of `n` characters has. The target that `readlink`
finds is given whole; the call copies what fits into the buffer. -/
structure LinkSys where
  lstat : List Char → Option Stat
  readlink : List Char → Option (List Char)
  capacity : ℕ → ℕ
  capacity_ge : ∀ n, n ≤ capacity n

def Stat.sized (st : Stat) : Stat := if st.stSize < 1 then { st with stSize := 4096 } else st

def readSymLnk (L : LinkSys) (linkpath : List Char) (st : Stat) : List Char :=
  if st.stSize < 1 ∨ st.stSize > 1024 * 1024 then []
  else
    match L.readlink linkpath with
    | none => []
    | some target =>
        let buffer := target.take (L.capacity st.stSize.toNat)
        let linkSize : ℤ := buffer.length
        if linkSize ≤ 0 ∨ linkSize > st.stSize then []
        else if buffer.head? = some '/' then buffer
        else parentPath linkpath ++ "/".toList ++ buffer

def symLnkPath (L : LinkSys) (linkpath : List Char) (stUser : Option Stat) :
    List Char × Option Stat :=
  match stUser.orElse fun _ => L.lstat linkpath with
  | none => ([], stUser)
  | some st =>
      if st.isLnk = false then ([], stUser)
      else (readSymLnk L linkpath st.sized, stUser.map fun _ => st.sized)

theorem Stat.sized_pos (st : Stat) : 1 ≤ st.sized.stSize := by
  unfold Stat.sized
  split_ifs
  · exact (by decide : (1 : ℤ) ≤ 4096)
  · omega

def Fits (st : Stat) (t : List Char) : Prop :=
  t.length ≤ st.sized.stSize ∧ st.sized.stSize ≤ 1024 * 1024

theorem symLnkPath_relative (L : LinkSys) {st : Stat} (hstat : L.lstat p = some st)
    (hlnk : st.isLnk = true) (hread : L.readlink p = some t)
    (hwhole : t.length ≤ L.capacity st.sized.stSize.toNat) (ht : t ≠ []) (hrel : t.head? ≠ some '/') :
    (Fits st t → (symLnkPath L p none).1 = parentPath p ++ '/' :: t) ∧
      (¬ Fits st t → (symLnkPath L p none).1 = []) := by
  have hpos := st.sized_pos
  have hlen := List.length_pos_iff.mpr ht
  have hresult : (symLnkPath L p none).1 = readSymLnk L p st.sized := by
    simp [symLnkPath, hstat, hlnk]
  rw [hresult]
  unfold readSymLnk Fits
  simp only [hread, List.take_of_length_le hwhole]
  constructor
  · rintro ⟨hle, hmax⟩
    rw [if_neg (by omega), if_neg (by omega), if_neg hrel]
    simp
  · intro hnot
    by_cases hmax : st.sized.stSize < 1 ∨ st.sized.stSize > 1024 * 1024
    · rw [if_pos hmax]
    · rw [if_neg hmax, if_pos (by omega)]

def IsLink {δ φ : Type} (T : Tree δ φ) (p t : List Char) : Prop :=
  ∃ l c, T.entry p = some (l, c) ∧ T.searchable l = true ∧ T.node (l ++ [c]) = some (.lnk t)

def NextToLink (d c t p : List Char) : Prop :=
  p ≠ [] ∧ ∀ {δ φ : Type} (T : Tree δ φ), IsLink T (d ++ c) t → T.locate p = T.locate (d ++ t)

theorem absolute_or_names (hp : LastName p d c k) :
    p.head? = some '/' ∨ 2 ≤ (names p).length ↔ d ≠ [] := by
  rw [hp.names_eq, List.length_append, List.length_singleton]
  constructor
  · rintro h rfl
    rcases h with hslash | hlen
    · rw [hp.eq, List.nil_append, List.head?_append_of_ne_nil _ hp.ne_nil] at hslash
      exact hp.noSlash (List.mem_of_head? hslash)
    · simp [names_nil] at hlen
  · intro hd
    rcases slashes_or_lastName d with hslashes | ⟨e, b, j, hlast⟩
    · left
      obtain ⟨ch, rest, rfl⟩ := List.exists_cons_of_ne_nil hd
      have hmem : ch ∈ ch :: rest := .head _
      rw [hslashes] at hmem
      rw [hp.eq, List.eq_of_mem_replicate hmem]
      rfl
    · right
      simp [hlast.names_eq]

/-- A relative target is looked up next to the link, unless the link's own path is a single relative name:
then the root is taken for the working directory. -/
theorem relative_link_iff (L : LinkSys) {st : Stat} (hp : LastName p d c k)
    (hdots : c ≠ ".".toList ∧ c ≠ "..".toList) (hstat : L.lstat p = some st) (hlnk : st.isLnk = true)
    (hread : L.readlink p = some t) (hwhole : t.length ≤ L.capacity st.sized.stSize.toNat) (ht : t ≠ [])
    (hrel : t.head? ≠ some '/') : NextToLink d c t (symLnkPath L p none).1 ↔
      Fits st t ∧ (p.head? = some '/' ∨ 2 ≤ (names p).length) := by
  obtain ⟨hfits, hnot⟩ := symLnkPath_relative L hstat hlnk hread hwhole ht hrel
  rw [absolute_or_names hp]
  constructor
  · rintro ⟨hne, hall⟩
    have hf : Fits st t := by
      by_contra hf
      exact hne (hnot hf)
    refine ⟨hf, ?_⟩
    rintro rfl
    obtain ⟨T, hs, hk, hlocate⟩ := exists_relative_ne_absolute (c := c)
      ⟨hp.ne_nil, hdots.1, hdots.2, hp.noSlash⟩ ht hrel
    have hlink : IsLink T ([] ++ c) t := ⟨T.cwd, c, T.entry_name hp.noSlash hp.ne_nil, hs, hk⟩
    have heq := hall T hlink
    rw [hfits hf, parentPath_lastName hp] at heq
    exact hlocate heq
  · rintro ⟨hf, hd⟩
    rw [hfits hf, parentPath_lastName hp]
    refine ⟨by simp, ?_⟩
    intro δ φ T _
    obtain ⟨m, hm⟩ := eq_rdropWhile_slashes (hp.dir.resolve_left hd)
    conv_rhs => rw [hm]
    exact (T.locate_slashes _ ht hrel m).symm

def linkTo (t : List Char) : LinkSys where
  lstat _ := some ⟨true, t.length⟩
  readlink _ := some t
  capacity n := max n 15
  capacity_ge n := Nat.le_max_left n 15

theorem relative_link_iff_linkTo :
    NextToLink "/a/".toList "l".toList "x".toList (symLnkPath (linkTo "x".toList) "/a/l".toList none).1 := by
  have hp : LastName "/a/l".toList "/a/".toList "l".toList 0 :=
    ⟨rfl, by decide, by decide, .inr (by decide)⟩
  exact (relative_link_iff (linkTo "x".toList) hp (by decide) rfl rfl rfl (by decide) (by decide)
    (by decide)).mpr ⟨⟨by decide, by decide⟩, .inl rfl⟩

def workTree : Tree Unit Unit := linkTree ["work".toList] "l".toList "x".toList (by decide) (by decide)

theorem relative_link_read_from_root : IsLink workTree "l".toList "x".toList ∧
    (symLnkPath (linkTo "x".toList) "l".toList none).1 = "/x".toList ∧
    workTree.locate "/x".toList = some ["x".toList] ∧
    workTree.locate "x".toList = some ["work".toList, "x".toList] ∧
    ¬ NextToLink [] "l".toList "x".toList (symLnkPath (linkTo "x".toList) "l".toList none).1 := by
  have hlink : IsLink workTree "l".toList "x".toList :=
    ⟨["work".toList], "l".toList, by decide, by decide, rfl⟩
  have hresult : (symLnkPath (linkTo "x".toList) "l".toList none).1 = "/x".toList := by decide
  have hroot : workTree.locate "/x".toList = some ["x".toList] := by decide
  have hwork : workTree.locate "x".toList = some ["work".toList, "x".toList] := by decide
  refine ⟨hlink, hresult, hroot, hwork, ?_⟩
  rintro ⟨_, hall⟩
  have heq := hall workTree hlink
  rw [hresult, List.nil_append, hroot, hwork] at heq
  cases heq

def resolved (linkpath target : List Char) : List Char :=
  if target.head? = some '/' then target else parentPath linkpath ++ "/".toList ++ target

def Untruncated (L : LinkSys) (linkpath : List Char) (stUser : Option Stat) : Prop :=
  (symLnkPath L linkpath stUser).1 = [] ∨
    ∃ target, L.readlink linkpath = some target ∧ (symLnkPath L linkpath stUser).1 = resolved linkpath target

def Roomy (L : LinkSys) (linkpath : List Char) (stUser : Option Stat) : Prop :=
  ∀ st target, (stUser.orElse fun _ => L.lstat linkpath) = some st → st.isLnk = true →
    st.sized.stSize ≤ 1024 * 1024 → L.readlink linkpath = some target →
    L.capacity st.sized.stSize.toNat = st.sized.stSize.toNat → target.length ≤ st.sized.stSize.toNat

theorem resolved_take_ne {n : ℕ} (hn : 0 < n) (hlt : n < t.length) :
    resolved p (t.take n) ≠ resolved p t := by
  have hlen : (t.take n).length < t.length := by
    rw [List.length_take]
    omega
  have hhead : (t.take n).head? = t.head? := by
    rw [List.head?_take, if_neg (by omega)]
  unfold resolved
  rw [hhead]
  intro heq
  have hlens := congrArg List.length heq
  split_ifs at hlens
  · omega
  · simp only [List.length_append] at hlens
    omega

theorem resolved_ne_nil (ht : t ≠ []) : resolved p t ≠ [] := by
  unfold resolved
  split_ifs
  · exact ht
  · simp

theorem readSymLnk_eq (L : LinkSys) {st : Stat} {n : ℕ} (hn : st.stSize = n) (hpos : 1 ≤ n)
    (hmax : n ≤ 1024 * 1024) (hread : L.readlink p = some t) : readSymLnk L p st =
      if t = [] ∨ (n < t.length ∧ n < L.capacity n) then []
      else resolved p (t.take (L.capacity n)) := by
  have hcap := L.capacity_ge n
  have hempty : t = [] ↔ t.length = 0 := List.length_eq_zero_iff.symm
  have hlen : (t.take (L.capacity n)).length = 0 ∨ n < (t.take (L.capacity n)).length ↔
      t = [] ∨ (n < t.length ∧ n < L.capacity n) := by
    rw [List.length_take, hempty]
    omega
  unfold readSymLnk resolved
  rw [hn, if_neg (by omega), Int.toNat_natCast]
  simp only [hread]
  by_cases hout : t = [] ∨ (n < t.length ∧ n < L.capacity n)
  · have hlen := hlen.mpr hout
    rw [if_pos hout, if_pos (by omega)]
  · have hlen := mt hlen.mp hout
    rw [if_neg hout, if_neg (by omega)]

theorem readSymLnk_untruncated_iff (L : LinkSys) {st : Stat} {n : ℕ} (hn : st.stSize = n) (hpos : 1 ≤ n)
    (hread : L.readlink p = some t) : readSymLnk L p st = [] ∨ readSymLnk L p st = resolved p t ↔
      (n ≤ 1024 * 1024 → L.capacity n = n → t.length ≤ n) := by
  by_cases hmax : n ≤ 1024 * 1024
  · have hcap := L.capacity_ge n
    rw [readSymLnk_eq L hn hpos hmax hread]
    by_cases hout : t = [] ∨ (n < t.length ∧ n < L.capacity n)
    · simp only [if_pos hout, true_or, true_iff]
      rintro - heq
      rcases hout with rfl | hout
      · exact Nat.zero_le n
      · omega
    · rw [not_or] at hout
      have hne : resolved p (t.take (L.capacity n)) ≠ [] := by
        apply resolved_ne_nil
        rw [ne_eq, List.take_eq_nil_iff, not_or]
        exact ⟨by omega, hout.1⟩
      simp only [if_neg (not_or.mpr hout), hne, false_or]
      by_cases hlong : L.capacity n < t.length
      · have hcut := resolved_take_ne (p := p) (by omega) hlong
        simp only [hcut, false_iff, hmax, true_implies]
        omega
      · rw [List.take_of_length_le (by omega)]
        simp only [true_iff]
        omega
  · have hnil : readSymLnk L p st = [] := by
      unfold readSymLnk
      rw [if_pos (by omega)]
    simp [hnil, hmax]

theorem untruncated_iff_roomy (L : LinkSys) (p : List Char) (stUser : Option Stat) :
    Untruncated L p stUser ↔ Roomy L p stUser := by
  unfold Untruncated Roomy symLnkPath
  cases stUser.orElse fun _ => L.lstat p with
  | none => simp
  | some st =>
    cases hlnk : st.isLnk with
    | false =>
      simp only [hlnk, if_true, true_or, true_iff]
      rintro st' t ⟨⟩ htrue
      rw [hlnk] at htrue
      cases htrue
    | true =>
      have hpos := st.sized_pos
      have hn : st.sized.stSize = st.sized.stSize.toNat := (Int.toNat_of_nonneg (by omega)).symm
      simp only [hlnk, Bool.true_eq_false, if_false]
      cases hread : L.readlink p with
      | none =>
        have hnil : readSymLnk L p st.sized = [] := by
          unfold readSymLnk
          simp [hread]
        simp [hnil]
      | some t =>
        have hiff := readSymLnk_untruncated_iff L hn (by omega) hread
        constructor
        · rintro hwhole st' t' ⟨⟩ _ hmax ⟨⟩ hcap
          refine hiff.mp ?_ (by omega) hcap
          simpa using hwhole
        · intro hroomy
          have hwhole := hiff.mpr fun hmax hcap => hroomy st t rfl hlnk (by omega) rfl hcap
          simpa using hwhole

theorem stale_size_truncates :
    (symLnkPath (linkTo "/a/target/of/17ch".toList) "/a/l".toList (some ⟨true, 16⟩)).1 =
      "/a/target/of/17c".toList ∧
    ¬ Untruncated (linkTo "/a/target/of/17ch".toList) "/a/l".toList (some ⟨true, 16⟩) := by
  have hresult : (symLnkPath (linkTo "/a/target/of/17ch".toList) "/a/l".toList (some ⟨true, 16⟩)).1 =
      "/a/target/of/17c".toList := by decide
  refine ⟨hresult, ?_⟩
  rintro (hnil | ⟨t, ⟨⟩, heq⟩)
  · rw [hresult] at hnil
    cases hnil
  · rw [hresult] at heq
    revert heq
    decide

end SysUtils.Utils

import Mathlib.Algebra.Order.Group.Multiset
import Mathlib.Data.Multiset.Bind
import SysUtils.Paths.Names
import SysUtils.Scan.Program
import SysUtils.Worklist

namespace SysUtils.Scan

open Paths

variable {S : Sys} {roots : List Str} {ty : DType} {p : Str} {t t' c : ScanTask}

def listed (ty : DType) (es : List Dirent) : List Dirent :=
  es.filter fun e => e.dName ≠ ".".toList ∧ e.dName ≠ "..".toList ∧ e.dType = ty

def suffix : DType → Str
  | .dir => "/".toList
  | _ => []

def below (ty : DType) (t : ScanTask) (es : List Dirent) : Multiset ScanTask :=
  ((listed ty es).map fun e => ScanTask.mk t.root (t.path ++ e.dName ++ suffix ty) : List ScanTask)

def Sys.listing (S : Sys) (path : Str) : List Dirent := (S.readdir path).getD []

def found (S : Sys) (ty : DType) (t : ScanTask) : Multiset ScanTask := below ty t (S.listing t.path)

def countListed (es : List Dirent) : ℕ :=
  (listed .dir es).length + (listed .reg es).length + (listed .lnk es).length

def entryCount (S : Sys) (t : ScanTask) : ℕ := countListed (S.listing t.path)

def rootTasks (roots : List Str) : List ScanTask := roots.mapIdx ScanTask.mk

def Reached (S : Sys) (roots : List Str) : ScanTask → Prop :=
  Worklist.Reached (rootTasks roots) (found S .dir) fun t => validPath t.path = true

theorem below_cons (ty : DType) (t : ScanTask) (e : Dirent) (es : List Dirent) :
    below ty t (e :: es) = below ty t [e] + below ty t es := by
  have h : listed ty (e :: es) = listed ty [e] ++ listed ty es := List.filter_append [e] es
  simp only [below, h, List.map_append, Multiset.coe_add]

theorem card_below (ty : DType) (t : ScanTask) (es : List Dirent) :
    (below ty t es).card = (listed ty es).length := by
  simp [below]

def tag (t : ScanTask) (paths : List Str) : Multiset ScanTask :=
  (paths.map (ScanTask.mk t.root) : List ScanTask)

theorem tag_cons (t : ScanTask) (p : Str) (ps : List Str) : tag t (p :: ps) = {⟨t.root, p⟩} + tag t ps := by
  simp [tag]

def Out.of (out : Out) : DType → List Str
  | .dir => out.dirs
  | .reg => out.files
  | .lnk => out.symbols
  | _ => []

theorem Out.tag_add (out : Out) (t : ScanTask) (e : Dirent) {ty : DType}
    (hty : ty = .dir ∨ ty = .reg ∨ ty = .lnk) :
    tag t ((out.add t.path e).of ty) = tag t (out.of ty) + below ty t [e] := by
  by_cases hdot : e.dName = ".".toList ∨ e.dName = "..".toList
  · have hl : listed ty [e] = [] := by
      rcases hdot with h | h <;> simp [listed, h]
    simp only [Out.add, hdot, ↓reduceIte, below, hl]
    simp
  · have hl : listed ty [e] = if e.dType = ty then [e] else [] := by
      by_cases h : e.dType = ty <;> simp_all [listed]
    simp only [Out.add, hdot, ↓reduceIte, below, hl]
    rcases hty with rfl | rfl | rfl <;> cases e.dType <;> simp [Out.of, tag, suffix, ← Multiset.coe_add]

theorem countListed_cons (e : Dirent) (es : List Dirent) :
    countListed (e :: es) = countListed [e] + countListed es := by
  have h (ty : DType) : (listed ty (e :: es)).length = (listed ty [e]).length + (listed ty es).length := by
    rw [← List.length_append]
    exact congrArg List.length (List.filter_append [e] es)
  unfold countListed
  have := h .dir
  have := h .reg
  have := h .lnk
  omega

theorem Out.size_add (out : Out) (path : Str) (e : Dirent) :
    (out.add path e).size = out.size + countListed [e] := by
  have hsize (out : Out) : out.size = (tag ⟨0, path⟩ (out.of .dir)).card +
      (tag ⟨0, path⟩ (out.of .reg)).card + (tag ⟨0, path⟩ (out.of .lnk)).card := by
    simp [tag, Out.of, Out.size]
  have hadd (ty : DType) (hty : ty = .dir ∨ ty = .reg ∨ ty = .lnk) :
      (tag ⟨0, path⟩ ((out.add path e).of ty)).card =
        (tag ⟨0, path⟩ (out.of ty)).card + (listed ty [e]).length := by
    rw [out.tag_add ⟨0, path⟩ e hty, Multiset.card_add, card_below]
  rw [hsize, hsize out, hadd .dir (by simp), hadd .reg (by simp), hadd .lnk (by simp)]
  unfold countListed
  omega

theorem mem_below {ty : DType} {t c : ScanTask} {es : List Dirent} :
    c ∈ below ty t es ↔
      c.root = t.root ∧ ∃ e ∈ listed ty es, c.path = t.path ++ e.dName ++ suffix ty := by
  obtain ⟨root, path⟩ := c
  simp only [below, Multiset.mem_coe, List.mem_map, ScanTask.mk.injEq]
  constructor
  · rintro ⟨e, he, hroot, hpath⟩
    exact ⟨hroot.symm, e, he, hpath.symm⟩
  · rintro ⟨hroot, e, he, hpath⟩
    exact ⟨e, he, hroot.symm, hpath.symm⟩

def EndsInSlash (p : Str) : Prop := p.getLast? = some '/'

instance (p : Str) : Decidable (EndsInSlash p) := inferInstanceAs (Decidable (_ = _))

theorem endsInSlash_append (p : Str) : EndsInSlash (p ++ "/".toList) := by
  simp [EndsInSlash]

theorem named_of_listed {e : Dirent} (he : e ∈ listed ty (S.listing p)) :
    e.dName ≠ [] ∧ '/' ∉ e.dName := by
  have hmem := List.mem_of_mem_filter he
  unfold Sys.listing at hmem
  cases hes : S.readdir p with
  | none => simp [hes] at hmem
  | some es => exact (S.named p es hes).2 e (by simpa [hes] using hmem)

theorem length_lt_of_found (h : c ∈ found S ty t) : t.path.length < c.path.length := by
  obtain ⟨_, e, he, hpath⟩ := mem_below.mp h
  have hne := List.length_pos_iff.mpr (named_of_listed he).1
  rw [hpath]
  simp only [List.length_append]
  omega

def Under (r p : Str) : Prop := ∃ d, p = r ++ d ∧ (d = [] ∨ EndsInSlash d)

theorem under_nil (h : EndsInSlash p) : Under [] p := ⟨p, rfl, .inr h⟩

theorem parent_unique {r : Str} (ht : Under r t.path) (ht' : Under r t'.path) (h : c ∈ found S ty t)
    (h' : c ∈ found S ty t') : t = t' := by
  obtain ⟨hroot, e, he, hpath⟩ := mem_below.mp h
  obtain ⟨hroot', e', he', hpath'⟩ := mem_below.mp h'
  obtain ⟨d, hd, hdir⟩ := ht
  obtain ⟨d', hd', hdir'⟩ := ht'
  have hcut : d ++ e.dName = d' ++ e'.dName := by
    rw [hpath, hd, hd'] at hpath'
    simpa using List.append_cancel_right hpath'
  obtain ⟨hdd, _⟩ := append_name_inj hdir hdir' (named_of_listed he).2 (named_of_listed he').2 hcut
  have hp : t.path = t'.path := by rw [hd, hd', hdd]
  cases t
  cases t'
  cases hp
  cases hroot
  cases hroot'
  rfl

theorem found_nodup (S : Sys) (ty : DType) (t : ScanTask) : (found S ty t).Nodup := by
  have hnames : ((S.listing t.path).map Dirent.dName).Nodup := by
    unfold Sys.listing
    cases hes : S.readdir t.path with
    | none => exact List.nodup_nil
    | some es => exact (S.named t.path es hes).1
  have hsub : ((listed ty (S.listing t.path)).map Dirent.dName).Nodup :=
    hnames.sublist (List.filter_sublist.map _)
  have hinj : Function.Injective fun name => ScanTask.mk t.root (t.path ++ name ++ suffix ty) := by
    intro a b hab
    simpa using hab
  have hmap := hsub.map hinj
  rw [List.map_map] at hmap
  exact hmap

theorem Reached.endsInSlash (hroots : ∀ r ∈ roots, EndsInSlash r) (h : Reached S roots t) :
    EndsInSlash t.path ∧ ∃ r, roots[t.root]? = some r ∧ r.length ≤ t.path.length := by
  induction h with
  | root ha _ =>
    obtain ⟨k, hk, rfl⟩ := List.mem_mapIdx.mp ha
    exact ⟨hroots _ (List.getElem_mem hk), roots[k], List.getElem?_eq_getElem hk, le_rfl⟩
  | child _ hb _ ih =>
    obtain ⟨_, r, hr, hle⟩ := ih
    obtain ⟨hroot, e, _, hpath⟩ := mem_below.mp hb
    refine ⟨?_, r, hroot ▸ hr, hle.trans (length_lt_of_found hb).le⟩
    rw [hpath]
    exact endsInSlash_append _

theorem Reached.under (h : Reached S roots t) : ∃ r, roots[t.root]? = some r ∧ Under r t.path := by
  induction h with
  | root ha _ =>
    obtain ⟨k, hk, rfl⟩ := List.mem_mapIdx.mp ha
    exact ⟨roots[k], List.getElem?_eq_getElem hk, [], (List.append_nil _).symm, .inl rfl⟩
  | child _ hb _ ih =>
    obtain ⟨r, hr, d, hd, _⟩ := ih
    obtain ⟨hroot, e, _, hpath⟩ := mem_below.mp hb
    refine ⟨r, hroot ▸ hr, d ++ e.dName ++ "/".toList, ?_, .inr (endsInSlash_append _)⟩
    rw [hpath, hd]
    simp [suffix]

theorem exists_rootTask {r : Str} (hr : r ∈ roots) : ∃ k, (⟨k, r⟩ : ScanTask) ∈ rootTasks roots := by
  obtain ⟨k, hk, hkr⟩ := List.mem_iff_getElem.mp hr
  exact ⟨k, List.mem_mapIdx.mpr ⟨k, hk, by rw [hkr]⟩⟩

theorem rootTasks_nodup (roots : List Str) : (rootTasks roots : Multiset ScanTask).Nodup := by
  have hmap : (rootTasks roots).map ScanTask.root = List.range roots.length := by
    apply List.ext_getElem
    · simp [rootTasks]
    · intro k h1 h2
      simp [rootTasks]
  exact List.Nodup.of_map ScanTask.root (hmap ▸ List.nodup_range)

end SysUtils.Scan

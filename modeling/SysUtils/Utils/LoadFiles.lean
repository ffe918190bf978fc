import Mathlib.Algebra.BigOperators.Group.List.Basic
import Mathlib.Algebra.Ring.Int.Defs
import SysUtils.Sorting

namespace SysUtils.Utils

open Sorting

inductive Thrown where
  | stdException
  | derived (type : List Char)
  deriving DecidableEq, Repr

abbrev LoadPath := List Char × List Char

structure Callbacks (Dirent : Type) where
  dName : Dirent → List Char
  filter : List Char → Dirent → Except Thrown (List Char)
  loader : List Char → List Char → Except Thrown ℤ
  sorter : LoadPath → LoadPath → Except Thrown Bool

inductive Exit where
  | returned (retval : ℤ)
  | threw (e : Thrown)
  | readUnopened
  deriving DecidableEq, Repr

structure LoadRun where
  exit : Exit
  calls : List LoadPath
  left : ℕ
  deriving DecidableEq, Repr

def enoent : ℕ := 2

def isDots (filename : List Char) : Bool := filename = ".".toList ∨ filename = "..".toList

def fullpath (directory filename : List Char) : List Char := directory ++ "/".toList ++ filename

variable {Dirent : Type} (cb : Callbacks Dirent) (sort : Sorter LoadPath Thrown) (directory : List Char)

def readEntry (loadpaths : List LoadPath) (entry : Dirent) : Except Thrown (List LoadPath) :=
  if isDots (cb.dName entry) then .ok loadpaths
  else
    match cb.filter (fullpath directory (cb.dName entry)) entry with
    | .error e => .error e
    | .ok loadpath =>
        let loadpaths :=
          if loadpath ≠ [] then loadpaths ++ [(loadpath, fullpath directory (cb.dName entry))]
          else loadpaths
        sort cb.sorter loadpaths

def loadPaths (loader : List Char → List Char → Except Thrown ℤ) :
    List LoadPath → ℤ → Except Thrown ℤ × List LoadPath
  | [], retval => (.ok retval, [])
  | loadpath :: loadpaths, retval =>
      match loader loadpath.1 loadpath.2 with
      | .error e => (.error e, [loadpath])
      | .ok r =>
          let loaded := loadPaths loader loadpaths (retval + r)
          (loaded.1, loadpath :: loaded.2)

def loadEntries (entries : List Dirent) : Except Thrown ℤ × List LoadPath :=
  match entries.foldlM (readEntry cb sort directory) [] with
  | .error e => (.error e, [])
  | .ok loadpaths => loadPaths cb.loader loadpaths 0

def loadFiles (opendir : List Char → Except ℕ (List Dirent)) (directoryRequired : Bool) : LoadRun :=
  match opendir directory with
  | .error errno =>
      if directoryRequired = false ∧ errno = enoent then ⟨.returned 0, [], 0⟩
      -- `readdir` is called with a null pointer
      else ⟨.readUnopened, [], 0⟩
  | .ok entries =>
      -- no path calls `closedir`
      match loadEntries cb sort directory entries with
      | (.ok retval, calls) => ⟨.returned retval, calls, 1⟩
      -- `throw e` copies the `std::exception` in it
      | (.error _, calls) => ⟨.threw .stdException, calls, 1⟩

def quiet (dName : Dirent → List Char) (filter : List Char → Dirent → List Char)
    (loader : List Char → List Char → ℤ) (lt : LoadPath → LoadPath → Bool) : Callbacks Dirent where
  dName := dName
  filter p entry := .ok (filter p entry)
  loader p q := .ok (loader p q)
  sorter a b := .ok (lt a b)

variable (dName : Dirent → List Char) (filter : List Char → Dirent → List Char)
  (loader : List Char → List Char → ℤ) (lt : LoadPath → LoadPath → Bool)

def selected (entry : Dirent) : Option LoadPath :=
  let path := fullpath directory (dName entry)
  if isDots (dName entry) then none else if filter path entry = [] then none else some (filter path entry, path)

variable {cb sort lt}

theorem readEntry_sorts {entry : Dirent} (hdots : isDots (dName entry) = false) (loadpaths : List LoadPath) :
    readEntry (quiet dName filter loader lt) sort directory loadpaths entry =
      sort (fun a b => .ok (lt a b)) (loadpaths ++ (selected directory dName filter entry).toList) := by
  unfold readEntry selected
  by_cases hempty : filter (fullpath directory (dName entry)) entry = []
  · simp [quiet, hdots, hempty]
  · simp [quiet, hdots, hempty]

theorem readEntry_quiet (hsort : Correct sort) (hlt : StrictWeak lt) {loadpaths : List LoadPath}
    (hordered : Ordered lt loadpaths) (entry : Dirent) :
    ∃ ys, readEntry (quiet dName filter loader lt) sort directory loadpaths entry = .ok ys ∧
      ys.Perm (loadpaths ++ (selected directory dName filter entry).toList) ∧ Ordered lt ys := by
  cases hdots : isDots (dName entry) with
  | true =>
    refine ⟨loadpaths, if_pos hdots, ?_, hordered⟩
    simp [selected, hdots]
  | false =>
    rw [readEntry_sorts directory dName filter loader hdots]
    exact hsort lt hlt _

theorem readEntries_quiet (hsort : Correct sort) (hlt : StrictWeak lt) (entries : List Dirent)
    {loadpaths : List LoadPath} (hordered : Ordered lt loadpaths) :
    ∃ ys, entries.foldlM (readEntry (quiet dName filter loader lt) sort directory) loadpaths = .ok ys ∧
      ys.Perm (loadpaths ++ entries.filterMap (selected directory dName filter)) ∧ Ordered lt ys := by
  induction entries generalizing loadpaths with
  | nil => exact ⟨loadpaths, rfl, by simp, hordered⟩
  | cons entry entries ih =>
    obtain ⟨xs, hxs, hperm, hxs'⟩ := readEntry_quiet directory dName filter loader hsort hlt hordered entry
    obtain ⟨ys, hys, hperm', hys'⟩ := ih hxs'
    refine ⟨ys, ?_, ?_, hys'⟩
    · rw [List.foldlM_cons, hxs]
      exact hys
    · have hcons : (entry :: entries).filterMap (selected directory dName filter) =
          (selected directory dName filter entry).toList ++
            entries.filterMap (selected directory dName filter) := by
        simp only [List.filterMap_eq_flatMap_toList, List.flatMap_cons]
      rw [hcons, ← List.append_assoc]
      exact hperm'.trans (hperm.append_right _)

theorem loadPaths_quiet (loadpaths : List LoadPath) (retval : ℤ) :
    loadPaths (quiet dName filter loader lt).loader loadpaths retval =
      (.ok (retval + (loadpaths.map fun l => loader l.1 l.2).sum), loadpaths) := by
  induction loadpaths generalizing retval with
  | nil => simp [loadPaths]
  | cons loadpath loadpaths ih =>
    have hloader : (quiet dName filter loader lt).loader loadpath.1 loadpath.2 =
      .ok (loader loadpath.1 loadpath.2) := rfl
    simp only [loadPaths, hloader, ih, List.map_cons, List.sum_cons, add_assoc]

theorem loadFiles_loads_selected {opendir : List Char → Except ℕ (List Dirent)} {entries : List Dirent}
    (directoryRequired : Bool) (hopen : opendir directory = .ok entries) (hsort : Correct sort)
    (hlt : StrictWeak lt) :
    let run := loadFiles (quiet dName filter loader lt) sort directory opendir directoryRequired
    run.calls.Perm (entries.filterMap (selected directory dName filter)) ∧ Ordered lt run.calls ∧
      run.exit = .returned (run.calls.map fun l => loader l.1 l.2).sum := by
  intro run
  obtain ⟨ys, hys, hperm, hordered⟩ := readEntries_quiet directory dName filter loader hsort hlt
    entries List.Pairwise.nil
  have hentries : loadEntries (quiet dName filter loader lt) sort directory entries =
      (.ok (ys.map fun l => loader l.1 l.2).sum, ys) := by
    unfold loadEntries
    rw [hys]
    simpa using loadPaths_quiet dName filter loader ys 0
  have hrun : run = ⟨.returned (ys.map fun l => loader l.1 l.2).sum, ys, 1⟩ := by
    simp only [run, loadFiles, hopen, hentries]
  rw [hrun]
  exact ⟨hperm, hordered, rfl⟩

theorem shorter_strictWeak : StrictWeak fun a b : LoadPath => decide (a.1.length < b.1.length) where
  irrefl a := by simp
  trans a b c := by
    simp only [decide_eq_true_eq]
    omega
  incomp_trans a b c := by
    simp only [decide_eq_true_eq]
    omega

theorem loadFiles_two_of_four :
    (loadFiles (quiet id (fun path name => if name = "skip".toList then [] else path) (fun p _ => p.length)
      fun a b => decide (a.1.length < b.1.length)) insertionSort "/d".toList
      (fun _ => .ok [".".toList, "long".toList, "skip".toList, "b".toList]) true).exit = .returned 11 :=
  (loadFiles_loads_selected "/d".toList id (fun path name => if name = "skip".toList then [] else path)
    (fun p _ => p.length) true rfl insertionSort_correct shorter_strictWeak).2.2

structure FailsCleanly (cb : Callbacks Dirent) (sort : Sorter LoadPath Thrown) (directory : List Char)
    (opendir : List Char → Except ℕ (List Dirent)) (directoryRequired : Bool) (run : LoadRun) : Prop where
  unread : run.exit ≠ .readUnopened
  closed : run.left = 0
  missing : opendir directory = .error enoent → directoryRequired = false → run.exit = .returned 0
  loaded : ∀ retval, run.exit = .returned retval →
    (opendir directory = .error enoent ∧ directoryRequired = false) ∨
      ∃ entries, opendir directory = .ok entries ∧ (loadEntries cb sort directory entries).1 = .ok retval
  typed : ∀ entries e, opendir directory = .ok entries → run.exit = .threw e →
    (loadEntries cb sort directory entries).1 = .error e

theorem loadFiles_left (cb : Callbacks Dirent) (sort : Sorter LoadPath Thrown)
    (opendir : List Char → Except ℕ (List Dirent)) {entries : List Dirent} (directoryRequired : Bool)
    (hopen : opendir directory = .ok entries) :
    (loadFiles cb sort directory opendir directoryRequired).left = 1 := by
  simp only [loadFiles, hopen]
  split <;> rfl

/-- Only an optional directory that is missing ends as it should: a directory that was opened is never
closed, and one that cannot be opened is read all the same. -/
theorem loadFiles_failsCleanly_iff (cb : Callbacks Dirent) (sort : Sorter LoadPath Thrown)
    (directory : List Char) (opendir : List Char → Except ℕ (List Dirent)) (directoryRequired : Bool) :
    FailsCleanly cb sort directory opendir directoryRequired
      (loadFiles cb sort directory opendir directoryRequired) ↔
    opendir directory = .error enoent ∧ directoryRequired = false := by
  cases hopen : opendir directory with
  | ok entries =>
    have hleft := loadFiles_left directory cb sort opendir directoryRequired hopen
    constructor
    · intro h
      rw [h.closed] at hleft
      cases hleft
    · rintro ⟨⟨⟩, _⟩
  | error errno =>
    by_cases hmissing : directoryRequired = false ∧ errno = enoent
    · have hrun : loadFiles cb sort directory opendir directoryRequired = ⟨.returned 0, [], 0⟩ := by
        simp only [loadFiles, hopen]
        exact if_pos hmissing
      rw [hrun]
      constructor
      · rintro -
        exact ⟨congrArg Except.error hmissing.2, hmissing.1⟩
      · rintro ⟨herror, hrequired⟩
        refine ⟨nofun, rfl, fun _ _ => rfl, fun _ _ => .inl ⟨hopen.trans herror, hrequired⟩, ?_⟩
        rintro entries e hok ⟨⟩
    · have hrun : loadFiles cb sort directory opendir directoryRequired = ⟨.readUnopened, [], 0⟩ := by
        simp only [loadFiles, hopen]
        exact if_neg hmissing
      rw [hrun]
      constructor
      · intro h
        exact absurd rfl h.unread
      · rintro ⟨⟨⟩, hrequired⟩
        exact absurd ⟨hrequired, rfl⟩ hmissing

theorem stream_left_open_and_type_lost :
    ¬ FailsCleanly (quiet id (fun path _ => path) (fun _ _ => 0) fun _ _ => false) insertionSort
      "/d".toList (fun _ => .ok []) true (loadFiles (quiet id (fun path _ => path) (fun _ _ => 0) fun _ _ =>
        false) insertionSort "/d".toList (fun _ => .ok []) true) ∧
    (loadFiles (quiet id (fun path _ => path) (fun _ _ => 0) fun _ _ => false) insertionSort
      "/d".toList (fun _ => .error 13) true).exit = .readUnopened ∧
    (loadFiles ⟨id, fun _ _ => .error (.derived "bad_alloc".toList), fun _ _ => .ok 0, fun _ _ => .ok false⟩
      insertionSort "/d".toList (fun _ => .ok ["f".toList]) true).exit = .threw .stdException := by
  refine ⟨?_, rfl, rfl⟩
  intro h
  cases h.closed

end SysUtils.Utils

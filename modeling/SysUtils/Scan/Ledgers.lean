import SysUtils.Interleaving.Sums
import SysUtils.Scan.Opening
import SysUtils.Scan.Origins

namespace SysUtils.Scan

open Interleaving ThreadPool

variable {n : ℕ} {S : Sys} {roots : List Str} {ty : DType}
variable {v v' : Seen ScanTask (Env n)} {m m' : Option (Session ScanTask MainPc)}

/-! What the owner and the workers still owe a scan, balanced against what has been done. -/

def scanner : Option (Fin n) → Thread n Client
  | none => .client .main
  | some i => .worker i

theorem scanner_injective : Function.Injective (scanner : Option (Fin n) → Thread n Client) := by
  intro a b h
  cases a <;> cases b <;> simp_all [scanner]

variable {M : Type} [AddCancelCommMonoid M]

def books (f : Job ScanTask ScanPc → M) (g : Session ScanTask MainPc → M) :
    ∀ i : Thread n Client, ScanRole n i → M
  | .worker _ => fun j => j.elim 0 f
  | .client .main => fun l => l.elim 0 g
  | .client _ => fun _ => 0

def Balanced (f : Job ScanTask ScanPc → M) (g : Session ScanTask MainPc → M)
    (credit due : Progress → M) : ScanView n → Prop :=
  Balances scanner (books f g) (fun v => credit (progress v)) fun v => due (progress v)

theorem balanced_initial {f : Job ScanTask ScanPc → M} {g : Session ScanTask MainPc → M}
    {credit due : Progress → M}
    (h0 : g ⟨.addPaths roots [], none⟩ + credit ⟨[], [], [], [], [], 0⟩ = due ⟨[], [], [], [], [], 0⟩) :
    Balanced f g credit due (scanView (initial (program n S [roots]))) := by
  have hworkers : ∑ i : Fin n, books f g (scanner (some i))
      ((scanView (initial (program n S [roots]))).loc (scanner (some i))) = 0 :=
    Finset.sum_eq_zero fun i _ => rfl
  unfold Balanced Balances total
  rw [Fintype.sum_option, hworkers, add_zero]
  exact h0

theorem balanced_run {f : Job ScanTask ScanPc → M} {g : Session ScanTask MainPc → M}
    {credit due : Progress → M} {s : ScanState n}
    (hs : ReachableBy (program n S [roots]) undisturbed s)
    (h0 : g ⟨.addPaths roots [], none⟩ + credit ⟨[], [], [], [], [], 0⟩ = due ⟨[], [], [], [], [], 0⟩)
    (hworker : ∀ (v v' : Seen ScanTask (Env n)) i x j j', ScanMove S i x v j (v', j') → x.throws = false →
      (j ≠ none → v.env.running = true) →
      j'.elim 0 f + credit (progress v') + due (progress v) =
        j.elim 0 f + credit (progress v) + due (progress v'))
    (hmain : ∀ (v v' : Seen ScanTask (Env n)) x m m', MainMove x v m (v', m') →
      ofMain MainPc.lastRound m = true →
      Opening roots v m →
      m'.elim 0 g + credit (progress v') + due (progress v) =
        m.elim 0 g + credit (progress v) + due (progress v')) :
    Balanced f g credit due (scanView s) := by
  apply scan_invariant (I := Balanced f g credit due) .refl hs (balanced_initial h0)
  intro u i x q hu hx hm hI
  obtain ⟨v, l⟩ := q
  cases i with
  | worker i =>
    apply Balances.set hI scanner_injective (some i)
    exact hworker _ _ _ _ _ _ hm hx.2 fun hj => running_of_job hu hj
  | client c =>
    cases c with
    | main =>
      apply Balances.set hI scanner_injective none
      exact hmain _ _ _ _ _ hm (lastRound_run hu) (opening_run hu)
    | recorder =>
      have hp := RecorderMove.progress hm
      refine Balances.set_of_notMem hI ?_ (congrArg credit hp) (congrArg due hp)
      intro k
      cases k <;> simp [scanner]
    | notifier =>
      have hp := NotifierMove.progress hm
      refine Balances.set_of_notMem hI ?_ (congrArg credit hp) (congrArg due hp)
      intro k
      cases k <;> simp [scanner]
    | user u => cases hx.1

def workerCalls (j : Job ScanTask ScanPc) : DType → Multiset ScanTask
  | .dir => (if j.pos = .start ∨ j.pos = .opendir then {j.task} else 0) + j.pending.elim 0 fun t => {t}
  | _ => 0

def workerOwes (ty : DType) (j : Job ScanTask ScanPc) : Multiset ScanTask :=
  workerCalls j ty + (tag j.task (j.pos.collected.of ty) + below ty j.task j.pos.unread)

def MainPc.rootsLeft (roots : List Str) : MainPc → List ScanTask
  | .addPaths _ _ | .setRunning _ | .setFileCounts _ | .setTimeStart _ => rootTasks roots
  | .pushRoots k _ => (rootTasks roots).drop k
  | _ => []

def mainOwes (roots : List Str) (ty : DType) (l : Session ScanTask MainPc) : Multiset ScanTask :=
  match ty with
  | .dir => (l.pos.rootsLeft roots : Multiset ScanTask) + l.pending.elim 0 fun t => {t}
  | _ => 0

def Progress.handled (p : Progress) : DType → Multiset ScanTask
  | .dir => (p.tasks : Multiset ScanTask) + p.visited + p.skipped
  | .reg => p.checked
  | .lnk => p.reloaded
  | _ => 0

def startWith (roots : List Str) : DType → Multiset ScanTask
  | .dir => rootTasks roots
  | _ => 0

def Progress.entries (S : Sys) (roots : List Str) (ty : DType) (p : Progress) : Multiset ScanTask :=
  startWith roots ty + (p.visited : Multiset ScanTask).bind (found S ty)

theorem coe_cons (t : ScanTask) (ts : List ScanTask) :
    ((t :: ts : List ScanTask) : Multiset ScanTask) = {t} + (ts : Multiset ScanTask) := rfl

theorem coe_concat (ts : List ScanTask) (t : ScanTask) :
    ((ts ++ [t] : List ScanTask) : Multiset ScanTask) = (ts : Multiset ScanTask) + {t} :=
  (Multiset.coe_add ts [t]).symm

theorem workerOwes_start (t : ScanTask) : workerOwes .dir ⟨t, .start, none⟩ = {t} := rfl

theorem workerOwes_pending (t t' : ScanTask) (k : ScanPc) :
    workerOwes .dir ⟨t, k, some t'⟩ = {t'} + workerOwes .dir ⟨t, k, none⟩ := by
  simp only [workerOwes, workerCalls, Option.elim_some, Option.elim_none]
  abel

theorem workerOwes_opendir (S : Sys) (ty : DType) (t : ScanTask) :
    workerOwes ty ⟨t, (S.readdir t.path).elim (.count {}) fun es => .traverse es {}, none⟩ =
      found S ty t := by
  unfold found Sys.listing
  cases S.readdir t.path with
  | none => cases ty <;> rfl
  | some es =>
    have hcalls : workerCalls ⟨t, .traverse es {}, none⟩ ty = 0 := by
      cases ty <;> rfl
    have htag : tag t (({} : Out).of ty) = 0 := by
      cases ty <;> rfl
    simp only [Option.elim_some, Option.getD_some, workerOwes, hcalls, ScanPc.collected, ScanPc.unread,
      htag, zero_add]

theorem ScanMove.owes {i : Fin n} {x : Answer} {j j' : Option (Job ScanTask ScanPc)}
    (hty : ty = .dir ∨ ty = .reg ∨ ty = .lnk) (h : ScanMove S i x v j (v', j'))
    (hx : x.throws = false) (hr : j ≠ none → v.env.running = true) :
    j'.elim 0 (workerOwes ty) + (progress v').handled ty + (progress v).entries S roots ty =
      j.elim 0 (workerOwes ty) + (progress v).handled ty + (progress v').entries S roots ty := by
  cases h with
  | throw t k hthrow => simp [hx] at hthrow
  | notRunning t hnot => simp [hr (by simp)] at hnot
  | «break» t entry rest out hnot => simp [hr (by simp)] at hnot
  | begin t ts ht =>
    rcases hty with rfl | rfl | rfl
    · simp only [Option.elim_some, Option.elim_none, workerOwes_start, progress, Progress.handled,
        Progress.entries, ht, coe_cons]
      abel
    · rfl
    · rfl
  | enqueue t t' k =>
    rcases hty with rfl | rfl | rfl
    · simp only [Option.elim_some, workerOwes_pending, progress, Progress.handled, Progress.entries,
        coe_concat]
      abel
    · rfl
    · rfl
  | notValid t hp =>
    rcases hty with rfl | rfl | rfl
    · simp only [Option.elim_some, Option.elim_none, workerOwes_start, progress, Progress.handled,
        Progress.entries, coe_concat]
      abel
    · rfl
    · rfl
  | opendir t =>
    have hcall : workerOwes .dir ⟨t, .opendir, none⟩ = {t} := rfl
    simp only [Option.elim_some, workerOwes_opendir, progress, Progress.entries, coe_concat,
      Multiset.add_bind, Multiset.singleton_bind]
    rcases hty with rfl | rfl | rfl
    · simp only [hcall, Progress.handled, coe_concat]
      abel
    · change _ = 0 + _ + _
      simp only [Progress.handled]
      abel
    · change _ = 0 + _ + _
      simp only [Progress.handled]
      abel
  | collect t entry rest out =>
    have hcalls : workerCalls ⟨t, .traverse rest (out.add t.path entry), none⟩ ty =
        workerCalls ⟨t, .collect entry rest out, none⟩ ty := by
      rcases hty with rfl | rfl | rfl <;> rfl
    simp only [Option.elim_some, workerOwes, hcalls, ScanPc.collected, ScanPc.unread,
      Out.tag_add _ _ _ hty, below_cons ty t entry rest]
    abel
  | pushDir t d dirs files symbols =>
    rcases hty with rfl | rfl | rfl
    · simp only [Option.elim_some, workerOwes, workerCalls, ScanPc.collected, ScanPc.unread, Out.of,
        tag_cons, Option.elim_none, reduceCtorEq, or_false, if_false]
      abel
    · rfl
    · rfl
  | checkFile t f files symbols =>
    rcases hty with rfl | rfl | rfl
    · rfl
    · simp only [Option.elim_some, workerOwes, workerCalls, ScanPc.collected, ScanPc.unread, Out.of,
        tag_cons, progress, Progress.handled, Progress.entries, coe_concat]
      abel
    · rfl
  | reloadSymbol t l symbols =>
    rcases hty with rfl | rfl | rfl
    · rfl
    · rfl
    · simp only [Option.elim_some, workerOwes, workerCalls, ScanPc.collected, ScanPc.unread, Out.of,
        tag_cons, progress, Progress.handled, Progress.entries, coe_concat]
      abel
  | setTimeEnd t => rcases hty with rfl | rfl | rfl <;> rfl
  | _ => rfl

theorem rootTasks_drop {k : ℕ} {dir : Str} (hd : roots[k]? = some dir) :
    (rootTasks roots).drop k = ⟨k, dir⟩ :: (rootTasks roots).drop (k + 1) := by
  have hk : (rootTasks roots)[k]? = some ⟨k, dir⟩ := by simp [rootTasks, hd]
  obtain ⟨hlt, he⟩ := List.getElem?_eq_some_iff.mp hk
  rw [List.drop_eq_getElem_cons hlt, he]

theorem MainMove.owes {x : Answer} (hty : ty = .dir ∨ ty = .reg ∨ ty = .lnk)
    (h : MainMove x v m (v', m'))
    (hlast : ofMain MainPc.lastRound m = true)
    (ho : v.env.unscannedDirs ++ m.elim [] (fun l => l.pos.toAdd) = roots) :
    m'.elim 0 (mainOwes roots ty) + (progress v').handled ty + (progress v).entries S roots ty =
      m.elim 0 (mainOwes roots ty) + (progress v).handled ty + (progress v').entries S roots ty := by
  rcases hty with rfl | rfl | rfl
  · cases h with
    | enqueue t k =>
      simp only [Option.elim_some, Option.elim_none, mainOwes, progress, Progress.handled,
        Progress.entries, coe_concat]
      abel
    | pushRoot k dir rest hd =>
      have hdirs : v.env.unscannedDirs = roots := by simpa [MainPc.toAdd] using ho
      rw [hdirs] at hd
      simp only [Option.elim_some, Option.elim_none, mainOwes, MainPc.rootsLeft, rootTasks_drop hd,
        coe_cons]
      abel
    | rootsPushed k rest hd =>
      have hdirs : v.env.unscannedDirs = roots := by simpa [MainPc.toAdd] using ho
      have hle : (rootTasks roots).length ≤ k := by
        rw [hdirs] at hd
        simpa [rootTasks] using hd
      simp only [Option.elim_some, mainOwes, MainPc.rootsLeft, List.drop_eq_nil_of_le hle]
    | joinRecorder rest hl =>
      rcases nextRound_of_lastRound hlast with hnext | hnext <;> rw [hnext] <;> rfl
    | _ => rfl
  · cases h <;> rfl
  · cases h <;> rfl

theorem entries_run {s : ScanState n} (hs : ReachableBy (program n S [roots]) undisturbed s)
    (hty : ty = .dir ∨ ty = .reg ∨ ty = .lnk) :
    Balanced (workerOwes ty) (mainOwes roots ty) (fun p => p.handled ty)
      (fun p => p.entries S roots ty) (scanView s) := by
  apply balanced_run hs
  · rcases hty with rfl | rfl | rfl <;>
      simp [Progress.handled, Progress.entries, startWith, mainOwes, MainPc.rootsLeft]
  · intro v v' i x j j' hm hx hr
    exact ScanMove.owes hty hm hx hr
  · intro v v' x m m' hm hlast ho
    exact MainMove.owes hty hm hlast ho.dirs

def ScanPc.uncounted : ScanPc → ℕ
  | .traverse rest out => out.size + countListed rest
  | .collect entry rest out => out.size + countListed (entry :: rest)
  | .count out => out.size
  | _ => 0

def workerUncounted (j : Job ScanTask ScanPc) : BitVec 32 := BitVec.ofNat 32 j.pos.uncounted

def mainUncounted (roots : List Str) (l : Session ScanTask MainPc) : BitVec 32 :=
  if l.pos.opening then BitVec.ofNat 32 roots.length else 0

def Progress.count (S : Sys) (roots : List Str) (p : Progress) : BitVec 32 :=
  BitVec.ofNat 32 (roots.length + (p.visited.map (entryCount S)).sum)

theorem ScanMove.uncounted {i : Fin n} {x : Answer} {j j' : Option (Job ScanTask ScanPc)}
    (h : ScanMove S i x v j (v', j')) (hx : x.throws = false) (hr : j ≠ none → v.env.running = true) :
    j'.elim 0 workerUncounted + (progress v').fileCounts + (progress v).count S roots =
      j.elim 0 workerUncounted + (progress v).fileCounts + (progress v').count S roots := by
  cases h with
  | throw t k hthrow => simp [hx] at hthrow
  | notRunning t hnot => simp [hr (by simp)] at hnot
  | «break» t entry rest out hnot => simp [hr (by simp)] at hnot
  | opendir t =>
    have hpos : ((S.readdir t.path).elim (.count {}) fun es => .traverse es {} : ScanPc).uncounted =
        entryCount S t := by
      unfold entryCount Sys.listing
      cases S.readdir t.path with
      | none => rfl
      | some es => exact Nat.zero_add _
    simp only [Option.elim_some, workerUncounted, hpos, progress, Progress.count, List.map_append,
      List.sum_append, List.map_cons, List.map_nil, List.sum_cons, List.sum_nil, BitVec.ofNat_add]
    simp only [ScanPc.uncounted]
    abel
  | collect t entry rest out =>
    simp only [Option.elim_some, workerUncounted, ScanPc.uncounted, Out.size_add,
      countListed_cons entry rest, Nat.add_assoc]
  | count t out =>
    simp only [Option.elim_some, workerUncounted, ScanPc.uncounted, progress, Progress.count,
      BitVec.ofNat_add, BitVec.zero_add]
    abel
  | _ => rfl

theorem MainMove.uncounted {x : Answer} (h : MainMove x v m (v', m'))
    (hlast : ofMain MainPc.lastRound m = true) (ho : Opening roots v m) :
    m'.elim 0 (mainUncounted roots) + (progress v').fileCounts + (progress v).count S roots =
      m.elim 0 (mainUncounted roots) + (progress v).fileCounts + (progress v').count S roots := by
  cases h with
  | setFileCounts rest =>
    have hdirs : v.env.unscannedDirs = roots := by simpa [MainPc.toAdd] using ho.dirs
    simp only [Option.elim_some, mainUncounted, MainPc.opening, progress, Progress.count, hdirs,
      (ho.fresh _ rfl rfl).2, Bool.false_eq_true, if_false, if_true, zero_add, add_zero]
  | joinRecorder rest hl =>
    rcases nextRound_of_lastRound hlast with hnext | hnext <;> rw [hnext] <;> rfl
  | _ => rfl

theorem count_run {s : ScanState n} (hs : ReachableBy (program n S [roots]) undisturbed s) :
    Balanced workerUncounted (mainUncounted roots) Progress.fileCounts (fun p => p.count S roots)
      (scanView s) := by
  apply balanced_run hs
  · simp [mainUncounted, MainPc.opening, Progress.count]
  · intro v v' i x j j' hm hx hr
    exact ScanMove.uncounted hm hx hr
  · intro v v' x m m' hm hlast ho
    exact MainMove.uncounted hm hlast ho

end SysUtils.Scan

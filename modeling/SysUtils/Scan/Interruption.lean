import SysUtils.Scan.Completeness
import SysUtils.ThreadPool.Endings

namespace SysUtils.Scan

open Interleaving ThreadPool

variable {n : ℕ} {S : Sys} {roots : List Str} {ty : DType}
variable {v v' : Seen ScanTask (Env n)} {m m' : Option (Session ScanTask MainPc)}
  {j j' : Option (Job ScanTask ScanPc)}

/-! A scan that is stopped or whose tasks throw does a part of what the undisturbed one does. -/

def undisturbedView (v : Seen ScanTask (Env n)) : Seen ScanTask (Env n) :=
  { v with env := { v.env with running := true } }

structure Drops (v v' : Seen ScanTask (Env n)) (j j' : Option (Job ScanTask ScanPc)) : Prop where
  progress : progress v' = progress v
  owes : ∀ ty, j'.elim 0 (workerOwes ty) ≤ j.elim 0 (workerOwes ty)

theorem ScanMove.undisturbed_or_drops {i : Fin n} {x : Answer} (h : ScanMove S i x v j (v', j')) :
    ScanMove S i { x with throws := false } (undisturbedView v) j (undisturbedView v', j') ∨
      Drops v v' j j' := by
  cases h with
  | throw t k hx => exact .inr ⟨rfl, fun _ => Multiset.zero_le _⟩
  | notRunning t hr => exact .inr ⟨rfl, fun _ => Multiset.zero_le _⟩
  | «break» t entry rest out hr =>
    refine .inr ⟨rfl, fun ty => ?_⟩
    have hcalls : workerCalls ⟨t, .count out, none⟩ ty =
        workerCalls ⟨t, .traverse (entry :: rest) out, none⟩ ty := by
      cases ty <;> rfl
    simp only [Option.elim_some, workerOwes, hcalls, ScanPc.collected, ScanPc.unread]
    gcongr
    simp [below, listed]
  | skip => exact .inl (.skip _)
  | begin t ts ht => exact .inl (.begin t ts ht)
  | enqueue t t' k => exact .inl (.enqueue t t' k)
  | notValid t hp => exact .inl (.notValid t hp)
  | valid t hr hp => exact .inl (.valid t rfl hp)
  | opendir t => exact .inl (.opendir t)
  | traversed t out => exact .inl (.traversed t out)
  | readdir t entry rest out hr => exact .inl (.readdir t entry rest out rfl)
  | collect t entry rest out => exact .inl (.collect t entry rest out)
  | count t out => exact .inl (.count t out)
  | lockDirs t out => exact .inl (.lockDirs t out)
  | pushDir t d dirs files symbols => exact .inl (.pushDir t d dirs files symbols)
  | unlockDirs t files symbols => exact .inl (.unlockDirs t files symbols)
  | lockInfos t files symbols => exact .inl (.lockInfos t files symbols)
  | checkFile t f files symbols =>
    exact .inl (.checkFile (x := { x with throws := false }) t f files symbols)
  | reloadSymbol t l symbols =>
    exact .inl (.reloadSymbol (x := { x with throws := false }) t l symbols)
  | unlockInfos t => exact .inl (.unlockInfos t)
  | setTimeEnd t => exact .inl (.setTimeEnd (x := { x with throws := false }) t)

theorem ScanMove.owes_le {i : Fin n} {x : Answer} (hty : ty = .dir ∨ ty = .reg ∨ ty = .lnk)
    (h : ScanMove S i x v j (v', j')) :
    j'.elim 0 (workerOwes ty) + (progress v').handled ty + (progress v).entries S roots ty ≤
      j.elim 0 (workerOwes ty) + (progress v).handled ty + (progress v').entries S roots ty := by
  rcases h.undisturbed_or_drops with hu | ⟨hp, hle⟩
  · exact (ScanMove.owes hty hu rfl fun _ => rfl).le
  · rw [hp]
    gcongr
    exact hle ty

theorem MainMove.dirs {x : Answer} (h : MainMove x v m (v', m'))
    (hlast : ofMain MainPc.lastRound m = true)
    (hd : v.env.unscannedDirs ++ m.elim [] (fun l => l.pos.toAdd) = roots) :
    v'.env.unscannedDirs ++ m'.elim [] (fun l => l.pos.toAdd) = roots := by
  cases h with
  | addPath p paths rest => simpa [MainPc.toAdd] using hd
  | joinRecorder rest hl =>
    rcases nextRound_of_lastRound hlast with hnext | hnext <;> rw [hnext] <;> exact hd
  | _ => exact hd

variable {ok : ScanState n → Thread n Client → Choice n Client Answer → Prop}

theorem dirs_run {s : ScanState n} (hs : ReachableBy (program n S [roots]) ok s) :
    s.shared.env.unscannedDirs ++ ((scanView s).loc (.client .main)).elim [] (fun l => l.pos.toAdd) =
      roots := by
  apply scan_invariant (I := fun w => w.shared.env.unscannedDirs ++
    (w.loc (.client .main)).elim [] (fun l => l.pos.toAdd) = roots) .refl hs rfl
  intro u i x q hu _ hm hI
  obtain ⟨v, l⟩ := q
  cases i with
  | worker i =>
    rw [Config.set_loc_of_ne _ (by simp), Config.set_shared, (ScanMove.frame hm).2.1]
    exact hI
  | client c =>
    cases c with
    | main =>
      rw [Config.set_loc_self]
      exact MainMove.dirs hm (lastRound_run hu) hI
    | recorder =>
      rw [Config.set_loc_of_ne _ (by simp), Config.set_shared, (RecorderMove.frame hm).2.2.1]
      exact hI
    | notifier =>
      rw [Config.set_loc_of_ne _ (by simp), Config.set_shared, (NotifierMove.frame hm).2.1]
      exact hI
    | user u =>
      rw [Config.set_loc_of_ne _ (by simp), Config.set_shared, (UserMove.frame hm).2.1]
      exact hI

def toPush (j : Job ScanTask ScanPc) : Multiset ScanTask :=
  j.pending.elim 0 (fun t => {t}) + (tag j.task j.pos.collected.dirs + below .dir j.task j.pos.unread)

def rootsAndFound (S : Sys) (roots : List Str) (v : Seen ScanTask (Env n)) : Multiset ScanTask :=
  (rootTasks roots : Multiset ScanTask) + (v.env.visited : Multiset ScanTask).bind (found S .dir)

theorem toPush_opendir (S : Sys) (t : ScanTask) :
    toPush ⟨t, (S.readdir t.path).elim (.count {}) fun es => .traverse es {}, none⟩ = found S .dir t := by
  unfold found Sys.listing
  cases S.readdir t.path with
  | none => rfl
  | some es => simp [toPush, ScanPc.collected, ScanPc.unread, tag]

theorem ScanMove.pushes_le {i : Fin n} {x : Answer} (h : ScanMove S i x v j (v', j')) :
    j'.elim 0 toPush + (v'.pushed : Multiset ScanTask) + rootsAndFound S roots v ≤
      j.elim 0 toPush + (v.pushed : Multiset ScanTask) + rootsAndFound S roots v' := by
  have hdrop (k k' : Multiset ScanTask) (hk : k' ≤ k) (p q : Multiset ScanTask) :
      k' + p + q ≤ k + p + q := by
    gcongr
  cases h with
  | throw t k hx => exact hdrop _ _ (Multiset.zero_le _) _ _
  | notRunning t hr => exact hdrop _ _ (Multiset.zero_le _) _ _
  | notValid t hp => exact hdrop _ _ (Multiset.zero_le _) _ _
  | setTimeEnd t => exact hdrop _ _ (Multiset.zero_le _) _ _
  | «break» t entry rest out hr =>
    apply hdrop
    simp only [Option.elim_some, toPush, ScanPc.collected, ScanPc.unread]
    gcongr
    simp [below, listed]
  | enqueue t t' k =>
    apply le_of_eq
    simp only [Option.elim_some, toPush, Option.elim_none, coe_concat, rootsAndFound]
    abel
  | opendir t =>
    apply le_of_eq
    simp only [Option.elim_some, toPush_opendir, rootsAndFound, coe_concat, Multiset.add_bind,
      Multiset.singleton_bind]
    have h0 : toPush ⟨t, .opendir, none⟩ = 0 := rfl
    rw [h0]
    abel
  | collect t entry rest out =>
    apply le_of_eq
    have hadd : tag t (out.add t.path entry).dirs = tag t out.dirs + below .dir t [entry] :=
      Out.tag_add out t entry (.inl rfl)
    simp only [Option.elim_some, toPush, ScanPc.collected, ScanPc.unread, hadd,
      below_cons .dir t entry rest, Option.elim_none]
    abel
  | pushDir t d dirs files symbols =>
    apply le_of_eq
    simp only [Option.elim_some, Option.elim_none, toPush, ScanPc.collected, ScanPc.unread, tag_cons]
    abel
  | _ => exact le_rfl

theorem MainMove.pushes {x : Answer} (h : MainMove x v m (v', m'))
    (hlast : ofMain MainPc.lastRound m = true)
    (ho : v.env.unscannedDirs ++ m.elim [] (fun l => l.pos.toAdd) = roots) :
    m'.elim 0 (mainOwes roots .dir) + (v'.pushed : Multiset ScanTask) + rootsAndFound S roots v =
      m.elim 0 (mainOwes roots .dir) + (v.pushed : Multiset ScanTask) + rootsAndFound S roots v' := by
  cases h with
  | enqueue t k =>
    simp only [Option.elim_some, Option.elim_none, mainOwes, coe_concat, rootsAndFound]
    abel
  | pushRoot k dir rest hd =>
    have hdirs : v.env.unscannedDirs = roots := by simpa [MainPc.toAdd] using ho
    rw [hdirs] at hd
    simp only [Option.elim_some, Option.elim_none, mainOwes, MainPc.rootsLeft, rootTasks_drop hd,
      coe_cons]
    abel
  | rootsPushed k rest hd =>
    have hdirs : v.env.unscannedDirs = roots := by simpa [MainPc.toAdd] using ho
    have hle : (rootTasks roots).length ≤ k := by
      rw [hdirs] at hd
      simpa [rootTasks] using hd
    simp only [Option.elim_some, mainOwes, MainPc.rootsLeft, List.drop_eq_nil_of_le hle]
  | joinRecorder rest hl =>
    rcases nextRound_of_lastRound hlast with hnext | hnext <;> rw [hnext] <;> rfl
  | _ => rfl

theorem initial_covered {f : Job ScanTask ScanPc → Multiset ScanTask}
    {g : Session ScanTask MainPc → Multiset ScanTask} {c d : Seen ScanTask (Env n) → Multiset ScanTask}
    (h : g ⟨.addPaths roots [], none⟩ + c ⟨[], [], false, {}⟩ ≤ d ⟨[], [], false, {}⟩) :
    Covers scanner (books f g) c d (scanView (initial (program n S [roots]))) := by
  have hworkers : ∑ i : Fin n, books f g (scanner (some i))
      ((scanView (initial (program n S [roots]))).loc (scanner (some i))) = 0 :=
    Finset.sum_eq_zero fun i _ => rfl
  unfold Covers total
  rw [Fintype.sum_option, hworkers, add_zero]
  exact h

theorem covered_run {f : Job ScanTask ScanPc → Multiset ScanTask}
    {g : Session ScanTask MainPc → Multiset ScanTask} {c d : Seen ScanTask (Env n) → Multiset ScanTask}
    {s : ScanState n} (hs : ReachableBy (program n S [roots]) ok s)
    (hstart : g ⟨.addPaths roots [], none⟩ + c ⟨[], [], false, {}⟩ ≤ d ⟨[], [], false, {}⟩)
    (hsame : ∀ v v', progress v' = progress v → v'.pushed = v.pushed →
      c v' = c v ∧ d v' = d v)
    (hworker : ∀ v v' i x j j', ScanMove S i x v j (v', j') →
      j'.elim 0 f + c v' + d v ≤ j.elim 0 f + c v + d v')
    (hmain : ∀ v v' x m m', MainMove x v m (v', m') → ofMain MainPc.lastRound m = true →
      v.env.unscannedDirs ++ m.elim [] (fun l => l.pos.toAdd) = roots →
      m'.elim 0 g + c v' + d v ≤ m.elim 0 g + c v + d v') :
    c s.shared.seen ≤ d s.shared.seen := by
  have h : Covers scanner (books f g) c d (scanView s) := by
    apply scan_invariant (I := Covers scanner (books f g) c d) .refl hs (initial_covered hstart)
    intro u i x q hu _ hm hI
    obtain ⟨v, l⟩ := q
    have hbystander (e : Client) (he : e ≠ .main) (hi : i = .client e)
        (hp : progress v = progress (scanView u).shared) (hpushed : v.pushed = (scanView u).shared.pushed) :
        Covers scanner (books f g) c d ((scanView u).set i (v, l)) := by
      subst hi
      obtain ⟨hcredit, hdue⟩ := hsame _ _ hp hpushed
      apply Covers.set_of_notMem hI _ hcredit hdue
      intro k hk
      cases k with
      | none => exact he (Thread.client.inj hk).symm
      | some k => cases hk
    cases i with
    | worker i =>
      apply Covers.set hI scanner_injective (some i)
      exact hworker _ _ _ _ _ _ hm
    | client e =>
      cases e with
      | main =>
        apply Covers.set hI scanner_injective none
        exact hmain _ _ _ _ _ hm (lastRound_run hu) (dirs_run hu)
      | recorder =>
        exact hbystander .recorder (by simp) rfl (RecorderMove.progress hm) (RecorderMove.frame hm).2.2.2.2
      | notifier =>
        exact hbystander .notifier (by simp) rfl (NotifierMove.progress hm) (NotifierMove.frame hm).2.2
      | user u =>
        exact hbystander (.user u) (by simp) rfl (UserMove.progress hm) (UserMove.frame hm).2.2.2.2
  exact le_trans (le_add_of_nonneg_left (Multiset.zero_le _)) h

theorem handled_le {s : ScanState n} (hs : ReachableBy (program n S [roots]) ok s)
    (hty : ty = .dir ∨ ty = .reg ∨ ty = .lnk) :
    (progress s.shared.seen).handled ty ≤ (progress s.shared.seen).entries S roots ty := by
  apply covered_run (f := workerOwes ty) (g := mainOwes roots ty)
    (c := fun v => (progress v).handled ty) (d := fun v => (progress v).entries S roots ty) hs
  · rcases hty with rfl | rfl | rfl <;>
      simp [progress, Progress.handled, Progress.entries, startWith, mainOwes, MainPc.rootsLeft]
  · intro v v' hp _
    exact ⟨by rw [hp], by rw [hp]⟩
  · intro v v' i x j j' hm
    exact ScanMove.owes_le hty hm
  · intro v v' x m m' hm hlast hd
    exact (MainMove.owes hty hm hlast hd).le

theorem pushed_le {s : ScanState n} (hs : ReachableBy (program n S [roots]) ok s) :
    (s.shared.pool.pushed : Multiset ScanTask) ≤ rootsAndFound S roots s.shared.seen := by
  apply covered_run (f := toPush) (g := mainOwes roots .dir)
    (c := fun v => (v.pushed : Multiset ScanTask)) (d := rootsAndFound S roots) hs
  · simp [rootsAndFound, mainOwes, MainPc.rootsLeft]
  · intro v v' hp hpushed
    injection hp with _ hvisited
    exact ⟨by rw [hpushed], by simp only [rootsAndFound, hvisited]⟩
  · intro v v' i x j j' hm
    exact ScanMove.pushes_le hm
  · intro v v' x m m' hm hlast hd
    exact (MainMove.pushes hm hlast hd).le

def AtMostOnce {α : Type} (l : List α) (p : α → Prop) : Prop := l.Nodup ∧ ∀ a ∈ l, p a

theorem traversed_partial {s : ScanState n} (hs : ReachableBy (program n S [roots]) ok s) :
    Worklist.Partial (rootTasks roots : Multiset ScanTask) (found S .dir)
      (fun t => validPath t.path = true) s.shared.env.visited := by
  have horigins : Origins S (fun _ => True) (scanView s) := origins_run hs fun _ _ _ _ => trivial
  constructor
  · have h := handled_le hs (.inl rfl)
    simp only [progress, Progress.handled, Progress.entries, startWith, Shared.seen] at h
    refine le_trans ?_ h
    calc (s.shared.env.visited : Multiset ScanTask)
        ≤ s.shared.env.visited + (s.shared.pool.tasks + s.shared.env.skipped) :=
          Multiset.le_add_right _ _
      _ = s.shared.pool.tasks + s.shared.env.visited + s.shared.env.skipped := by abel
  · intro t ht
    exact (horigins.lists.visited t (Multiset.mem_coe.mp ht)).2

theorem handled_once {s : ScanState n} {handled : List ScanTask} (hroots : ∀ r ∈ roots, EndsInSlash r)
    (hvisited : AtMostOnce s.shared.env.visited (Reached S roots))
    (hle : (handled : Multiset ScanTask) ≤ (s.shared.env.visited : Multiset ScanTask).bind (found S ty)) :
    AtMostOnce handled fun f => ∃ t, Reached S roots t ∧ f ∈ found S ty t := by
  constructor
  · apply Multiset.coe_nodup.mp
    apply Multiset.nodup_of_le hle
    exact bind_found_nodup ty hroots (Multiset.coe_nodup.mpr hvisited.1) hvisited.2
  · intro f hf
    obtain ⟨t, ht, hft⟩ := Multiset.mem_bind.mp (Multiset.mem_of_le hle (Multiset.mem_coe.mpr hf))
    exact ⟨t, hvisited.2 t ht, hft⟩

theorem once_run {s : ScanState n} (hroots : ∀ r ∈ roots, EndsInSlash r)
    (hs : ReachableBy (program n S [roots]) ok s) :
    AtMostOnce s.shared.env.visited (Reached S roots) ∧
    AtMostOnce s.shared.env.checked (fun f => ∃ t, Reached S roots t ∧ f ∈ found S .reg t) ∧
    AtMostOnce s.shared.env.reloaded (fun f => ∃ t, Reached S roots t ∧ f ∈ found S .lnk t) := by
  have hpartial := traversed_partial hs
  have hvisited : AtMostOnce s.shared.env.visited (Reached S roots) :=
    ⟨Multiset.coe_nodup.mp (Partial.traversed hroots hpartial),
      fun t ht => hpartial.reached (fun _ _ => length_lt_of_found) (Multiset.mem_coe.mpr ht)⟩
  have hfiles := handled_le hs (.inr (.inl rfl))
  have hlinks := handled_le hs (.inr (.inr rfl))
  simp only [progress, Progress.handled, Progress.entries, startWith, zero_add, Shared.seen] at hfiles hlinks
  exact ⟨hvisited, handled_once hroots hvisited hfiles, handled_once hroots hvisited hlinks⟩

theorem scan_at_most_once (S : Sys) (roots : List Str) (hroots : ∀ r ∈ roots, EndsInSlash r)
    {s : ScanState n} (hs : Reachable (program n S [roots]) s) :
    AtMostOnce s.shared.env.visited (Reached S roots) ∧
    AtMostOnce s.shared.env.checked (fun f => ∃ t, Reached S roots t ∧ f ∈ found S .reg t) ∧
    AtMostOnce s.shared.env.reloaded (fun f => ∃ t, Reached S roots t ∧ f ∈ found S .lnk t) ∧
    ∀ tree : Finset ScanTask, (∀ t, Reached S roots t → t ∈ tree) →
      s.shared.env.visited.length ≤ tree.card ∧
      s.shared.pool.pushed.length ≤ roots.length + ∑ t ∈ tree, (found S .dir t).card := by
  obtain ⟨hvisited, hchecked, hreloaded⟩ := once_run hroots hs
  refine ⟨hvisited, hchecked, hreloaded, ?_⟩
  intro tree htree
  have hsub : s.shared.env.visited.toFinset ⊆ tree := by
    intro t ht
    exact htree t (hvisited.2 t (List.mem_toFinset.mp ht))
  constructor
  · rw [← List.toFinset_card_of_nodup hvisited.1]
    exact Finset.card_le_card hsub
  · have hcard := Multiset.card_le_card (pushed_le hs)
    simp only [rootsAndFound, Multiset.card_add, Multiset.coe_card, Multiset.card_bind, rootTasks,
      List.length_mapIdx, Shared.seen] at hcard
    have hsum : ((s.shared.env.visited : Multiset ScanTask).map
        (Multiset.card ∘ found S .dir)).sum = ∑ t ∈ s.shared.env.visited.toFinset, (found S .dir t).card := by
      rw [List.sum_toFinset _ hvisited.1, Multiset.map_coe, Multiset.sum_coe]
      rfl
    have hmono := Finset.sum_le_sum_of_subset (f := fun t => (found S .dir t).card) hsub
    omega

theorem scan_at_most_once_scanOne : ∃ s, Reachable scanOne s ∧ s.shared.env.running = false ∧
    s.shared.env.checked = [⟨0, "/a/x".toList⟩] ∧
    AtMostOnce s.shared.env.visited (Reached oneExecutable ["/a/".toList]) := by
  have h : ((threads scanOne).run Threads.anyStep (initial scanOne)
      (scanSteps (.client .main) 11 ++ scanSteps (.worker 0) 11 ++ scanSteps (.client (.user 0)) 2 ++
        scanSteps (.worker 0) 7)).map (fun s => decide
          (s.shared.env.running = false ∧ s.shared.env.checked = [⟨0, "/a/x".toList⟩])) = some true := by
    decide
  obtain ⟨s, hs, hp⟩ := Threads.exists_steps_of_run h
  obtain ⟨hrun, hchecked⟩ := of_decide_eq_true hp
  have hroots : ∀ r ∈ ["/a/".toList], EndsInSlash r := by decide
  exact ⟨s, hs, hrun, hchecked, (scan_at_most_once oneExecutable _ hroots hs).1⟩

def noLaunch (s : ScanState n) (i : Thread n Client) (_ : Choice n Client Answer) : Prop :=
  i = .client .main → (mainAt s).any (fun l => l.pos.atSetRunning) = false

instance (s : ScanState n) (i : Thread n Client) (x : Choice n Client Answer) :
    Decidable (noLaunch s i x) := inferInstanceAs (Decidable (_ → _))

def Env.done (e : Env n) : DType → List ScanTask
  | .dir => e.visited
  | .reg => e.checked
  | .lnk => e.reloaded
  | _ => []

def leftOf (ty : DType) (j : Option (Job ScanTask ScanPc)) : Multiset ScanTask :=
  j.elim 0 fun job => match ty with
    | .dir => if job.pos = .opendir then {job.task} else 0
    | ty => tag job.task ((job.pos.toHandle job.task.path).of ty)

def leftAt (ty : DType) : ∀ i : Thread n Client, ScanRole n i → Multiset ScanTask
  | .worker _ => leftOf ty
  | .client _ => fun _ => 0

/-- What the calls in flight still open and handle, because they have passed their test of `running_`. -/
def leftToHandle (ty : DType) (s : ScanState n) : Multiset ScanTask :=
  total Thread.worker (leftAt ty) (scanView s)

theorem leftOf_opendir (S : Sys) (hty : ty = .dir ∨ ty = .reg ∨ ty = .lnk) (t : ScanTask) :
    leftOf ty (some ⟨t, (S.readdir t.path).elim (.count {}) fun es => .traverse es {}, none⟩) = 0 := by
  rcases hty with rfl | rfl | rfl <;> cases S.readdir t.path <;> rfl

theorem ScanMove.stopped {i : Fin n} {x : Answer} (hty : ty = .dir ∨ ty = .reg ∨ ty = .lnk)
    (h : ScanMove S i x v j (v', j')) (hr : v.env.running = false) :
    leftOf ty j' + (v'.env.done ty : Multiset ScanTask) ≤ leftOf ty j + v.env.done ty := by
  have hdrop (k p : Multiset ScanTask) : 0 + p ≤ k + p := by
    gcongr
    exact Multiset.zero_le _
  cases h with
  | valid t hrun hp => simp [hr] at hrun
  | readdir t entry rest out hrun => simp [hr] at hrun
  | throw t k hx => rcases hty with rfl | rfl | rfl <;> exact hdrop _ _
  | notRunning t hr => exact hdrop _ _
  | notValid t hp => rcases hty with rfl | rfl | rfl <;> exact hdrop _ _
  | setTimeEnd t => rcases hty with rfl | rfl | rfl <;> exact hdrop _ _
  | opendir t =>
    rw [leftOf_opendir S hty]
    rcases hty with rfl | rfl | rfl
    · apply le_of_eq
      simp only [leftOf, Option.elim_some, if_true, Env.done, coe_concat]
      abel
    · exact hdrop _ _
    · exact hdrop _ _
  | checkFile t f files symbols =>
    apply le_of_eq
    rcases hty with rfl | rfl | rfl
    · rfl
    · simp only [leftOf, Option.elim_some, ScanPc.toHandle, ScanPc.collected, Out.of, tag_cons, Env.done,
        coe_concat]
      abel
    · rfl
  | reloadSymbol t l symbols =>
    apply le_of_eq
    rcases hty with rfl | rfl | rfl
    · rfl
    · rfl
    · simp only [leftOf, Option.elim_some, ScanPc.toHandle, ScanPc.collected, Out.of, tag_cons, Env.done,
        coe_concat]
      abel
  | _ =>
    apply le_of_eq
    rcases hty with rfl | rfl | rfl <;> rfl

theorem MainMove.stopped {x : Answer} (h : MainMove x v m (v', m'))
    (hm : m.any (fun l => l.pos.atSetRunning) = false) :
    v'.env.running = v.env.running ∧ v'.env.done ty = v.env.done ty := by
  cases ty <;> cases h <;> first | exact ⟨rfl, rfl⟩ | cases hm

theorem done_of_progress (h : progress v' = progress v) : v'.env.done ty = v.env.done ty := by
  injection h with _ hvisited _ hchecked hreloaded
  cases ty <;> first | rfl | assumption

structure CutOff (ty : DType) (bound : Multiset ScanTask) (w : ScanView n) : Prop where
  running : w.shared.env.running = false
  covers : Covers Thread.worker (leftAt ty) (fun v => (v.env.done ty : Multiset ScanTask)) (fun _ => bound) w

theorem CutOff.of_client {bound : Multiset ScanTask} {w : ScanView n} (h : CutOff ty bound w) {c : Client}
    {q : Seen ScanTask (Env n) × ScanRole n (.client c)} (hr : q.1.env.running = false)
    (hd : q.1.env.done ty = w.shared.env.done ty) : CutOff ty bound (w.set (.client c) q) :=
  ⟨hr, h.covers.set_of_notMem (by simp) (congrArg Multiset.ofList hd) rfl⟩

theorem cutOff_run {rounds : List (List Str)} {s t : ScanState n} (hty : ty = .dir ∨ ty = .reg ∨ ty = .lnk)
    (hs : Reachable (program n S rounds) s) (hr : s.shared.env.running = false)
    (ht : (threads (program n S rounds)).Steps noLaunch s t) :
    CutOff ty (leftToHandle ty s + s.shared.env.done ty) (scanView t) := by
  apply scan_invariant (I := CutOff ty (leftToHandle ty s + s.shared.env.done ty)) hs ht ⟨hr, le_rfl⟩
  intro u i x q _ hx hm hI
  obtain ⟨v, l⟩ := q
  cases i with
  | worker i =>
    refine ⟨(ScanMove.frame hm).1.trans hI.running, ?_⟩
    apply hI.covers.set worker_injective i
    exact add_le_add (ScanMove.stopped hty hm hI.running) le_rfl
  | client c =>
    cases c with
    | main =>
      obtain ⟨hrun, hd⟩ := MainMove.stopped hm (hx rfl)
      exact hI.of_client (hrun.trans hI.running) hd
    | recorder =>
      exact hI.of_client ((RecorderMove.frame hm).2.1.trans hI.running)
        (done_of_progress (RecorderMove.progress hm))
    | notifier =>
      exact hI.of_client ((NotifierMove.infosKept hm).running hI.running)
        (done_of_progress (NotifierMove.progress hm))
    | user u =>
      exact hI.of_client ((UserMove.infosKept hm).running hI.running)
        (done_of_progress (UserMove.progress hm))

theorem done_le {rounds : List (List Str)} {s t : ScanState n} (hty : ty = .dir ∨ ty = .reg ∨ ty = .lnk)
    (hs : Reachable (program n S rounds) s) (hr : s.shared.env.running = false)
    (ht : (threads (program n S rounds)).Steps noLaunch s t) :
    (t.shared.env.done ty : Multiset ScanTask) ≤ leftToHandle ty s + s.shared.env.done ty :=
  le_trans (le_add_of_nonneg_left (Multiset.zero_le _)) (cutOff_run hty hs hr ht).covers

theorem stop_cuts_off (S : Sys) (rounds : List (List Str)) {s t : ScanState n}
    (hs : Reachable (program n S rounds) s) (hr : s.shared.env.running = false)
    (ht : (threads (program n S rounds)).Steps noLaunch s t) :
    t.shared.env.running = false ∧
    (t.shared.env.visited : Multiset ScanTask) ≤ leftToHandle .dir s + s.shared.env.visited ∧
    (t.shared.env.checked : Multiset ScanTask) ≤ leftToHandle .reg s + s.shared.env.checked ∧
    (t.shared.env.reloaded : Multiset ScanTask) ≤ leftToHandle .lnk s + s.shared.env.reloaded ∧
    (s.shared.pool.paused = true → StartsOnly WorkerPc.atTake s t) := by
  refine ⟨(cutOff_run (.inl rfl) hs hr ht).running, done_le (.inl rfl) hs hr ht,
    done_le (.inr (.inl rfl)) hs hr ht, done_le (.inr (.inr rfl)) hs hr ht, ?_⟩
  intro hp
  apply paused_latch.run _ hs hp ht
  intro u i x r _ hstep
  exact paused_step (scan_noUnpause u i x) hstep

theorem stop_cuts_off_scanOne : ∃ s t, Reachable scanOne s ∧ s.shared.env.running = false ∧
    s.shared.env.checked = [] ∧ leftToHandle .reg s = {⟨0, "/a/x".toList⟩} ∧
    (threads scanOne).Steps noLaunch s t ∧ t.shared.env.checked = [⟨0, "/a/x".toList⟩] ∧
    (t.shared.env.checked : Multiset ScanTask) ≤ leftToHandle .reg s + s.shared.env.checked := by
  have h : (((threads scanOne).run Threads.anyStep (initial scanOne)
      (scanSteps (.client .main) 11 ++ scanSteps (.worker 0) 11 ++
        scanSteps (.client (.user 0)) 2)).bind fun s => ((threads scanOne).run noLaunch s
          (scanSteps (.worker 0) 7)).map fun t => decide
            (s.shared.env.running = false ∧ s.shared.env.checked = [] ∧
              leftToHandle .reg s = {⟨0, "/a/x".toList⟩} ∧
              t.shared.env.checked = [⟨0, "/a/x".toList⟩])) = some true := by decide
  obtain ⟨s, hs, ht⟩ := Option.bind_eq_some_iff.mp h
  obtain ⟨t, ht, hp⟩ := Threads.exists_steps_of_run ht
  obtain ⟨hr, hnone, hleft, hchecked⟩ := of_decide_eq_true hp
  have hreach : Reachable scanOne s := Threads.steps_of_run hs
  exact ⟨s, t, hreach, hr, hnone, hleft, ht, hchecked,
    (stop_cuts_off oneExecutable _ hreach hr ht).2.2.1⟩

end SysUtils.Scan

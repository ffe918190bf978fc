import SysUtils.Scan.Entries
import SysUtils.Scan.Phases

namespace SysUtils.Scan

open Interleaving ThreadPool

variable {n : ℕ} {S : Sys} {rounds : List (List Str)} {given : Str → Prop}
variable {v v' : Seen ScanTask (Env n)} {m m' : Option (Session ScanTask MainPc)}
  {j j' : Option (Job ScanTask ScanPc)}

inductive Spawned (S : Sys) (given : Str → Prop) : ScanTask → Prop where
  | root (k : ℕ) {r : Str} (hr : given r) : Spawned S given ⟨k, r⟩
  | child {t c : ScanTask} (ht : Spawned S given t) (hp : validPath t.path = true)
      (hc : c ∈ found S .dir t) : Spawned S given c

def Comes (S : Sys) (given : Str → Prop) (ty : DType) (f : ScanTask) : Prop :=
  ∃ t, Spawned S given t ∧ validPath t.path = true ∧ f ∈ found S ty t

structure JobOrigin (S : Sys) (given : Str → Prop) (job : Job ScanTask ScanPc) : Prop where
  task : Spawned S given job.task
  pending : ∀ t, job.pending = some t → Spawned S given t
  valid : job.pos ≠ .start → validPath job.task.path = true
  unread : job.pos.unread ⊆ S.listing job.task.path
  collected : ∀ ty, ty = .dir ∨ ty = .reg ∨ ty = .lnk →
    ∀ c ∈ tag job.task (job.pos.collected.of ty), c ∈ found S ty job.task

structure ListOrigin (S : Sys) (given : Str → Prop) (v : Seen ScanTask (Env n)) : Prop where
  dirs : ∀ r ∈ v.env.unscannedDirs, given r
  tasks : ∀ t ∈ v.tasks, Spawned S given t
  visited : ∀ t ∈ v.env.visited, Spawned S given t ∧ validPath t.path = true
  skipped : ∀ t ∈ v.env.skipped, validPath t.path = false
  checked : ∀ f ∈ v.env.checked, Comes S given .reg f
  reloaded : ∀ f ∈ v.env.reloaded, Comes S given .lnk f

structure Progress where
  tasks : List ScanTask
  visited : List ScanTask
  skipped : List ScanTask
  checked : List ScanTask
  reloaded : List ScanTask
  fileCounts : BitVec 32

def progress (v : Seen ScanTask (Env n)) : Progress :=
  ⟨v.tasks, v.env.visited, v.env.skipped, v.env.checked, v.env.reloaded, v.env.fileCounts⟩

theorem RecorderMove.progress {r r' : Option (Session ScanTask Recorder)}
    (h : RecorderMove v r (v', r')) : progress v' = progress v := by
  cases h <;> rfl

theorem NotifierMove.progress {count : ℕ} {f f' : Option (Session ScanTask NotifierPc)}
    (h : NotifierMove count v f (v', f')) : progress v' = progress v := by
  cases h <;> rfl

theorem UserMove.progress {g g' : Option (Session ScanTask UserPc)} (h : UserMove v g (v', g')) :
    progress v' = progress v := by
  cases h <;> rfl

theorem ListOrigin.congr (h : ListOrigin S given v) (hp : progress v' = progress v)
    (hd : v'.env.unscannedDirs = v.env.unscannedDirs) : ListOrigin S given v' := by
  injection hp with htasks hvisited hskipped hchecked hreloaded
  exact ⟨hd ▸ h.dirs, htasks ▸ h.tasks, hvisited ▸ h.visited, hskipped ▸ h.skipped,
    hchecked ▸ h.checked, hreloaded ▸ h.reloaded⟩

def MainPc.toCome : MainPc → List (List Str)
  | .addPaths paths rest => paths :: rest
  | .setRunning rest | .setFileCounts rest | .setTimeStart rest | .pushRoots _ rest
  | .startRecorder rest | .startNotifier rest => rest
  | .joinNotifier rest | .joinRecorder rest => rest.getD []
  | .destroy => []

structure MainOrigin (S : Sys) (given : Str → Prop) (l : Session ScanTask MainPc) : Prop where
  toCome : ∀ paths ∈ l.pos.toCome, ∀ r ∈ paths, given r
  pending : ∀ t, l.pending = some t → Spawned S given t

theorem mem_found_of_mem {ty : DType} {t c : ScanTask} {es : List Dirent}
    (hes : es ⊆ S.listing t.path) (hc : c ∈ below ty t es) : c ∈ found S ty t := by
  obtain ⟨hroot, e, he, hpath⟩ := mem_below.mp hc
  refine mem_below.mpr ⟨hroot, e, ?_, hpath⟩
  obtain ⟨hmem, hty⟩ := List.mem_filter.mp he
  exact List.mem_filter.mpr ⟨hes hmem, hty⟩

theorem forall_mem_concat {α : Type} {P : α → Prop} {l : List α} {a : α} (hl : ∀ c ∈ l, P c)
    (ha : P a) : ∀ c ∈ l ++ [a], P c := by
  intro c hc
  rcases List.mem_append.mp hc with hc | hc
  · exact hl c hc
  · obtain rfl := List.mem_singleton.mp hc
    exact ha

theorem JobOrigin.start {t : ScanTask} (ht : Spawned S given t) : JobOrigin S given ⟨t, .start, none⟩ := by
  refine ⟨ht, by simp, by simp, by simp [ScanPc.unread], ?_⟩
  rintro ty (rfl | rfl | rfl) c hc <;> simp [tag, ScanPc.collected, Out.of] at hc

theorem JobOrigin.valid_path {t : ScanTask} (ht : Spawned S given t) (hp : validPath t.path = true) :
    JobOrigin S given ⟨t, .opendir, none⟩ := by
  refine ⟨ht, by simp, fun _ => hp, by simp [ScanPc.unread], ?_⟩
  rintro ty (rfl | rfl | rfl) c hc <;> simp [tag, ScanPc.collected, Out.of] at hc

theorem JobOrigin.opendir {t : ScanTask} (ht : Spawned S given t) (hp : validPath t.path = true) :
    JobOrigin S given
      ⟨t, (S.readdir t.path).elim (.count {}) fun es => .traverse es {}, none⟩ := by
  refine ⟨ht, by simp, fun _ => hp, ?_, ?_⟩
  · cases hes : S.readdir t.path with
    | none => exact List.nil_subset _
    | some es => simp [Sys.listing, hes, ScanPc.unread]
  · cases S.readdir t.path with
    | none => rintro ty (rfl | rfl | rfl) c hc <;> simp [tag, ScanPc.collected, Out.of] at hc
    | some es => rintro ty (rfl | rfl | rfl) c hc <;> simp [tag, ScanPc.collected, Out.of] at hc

theorem JobOrigin.next {t : ScanTask} {k k' : ScanPc} {q q' : Option ScanTask}
    (h : JobOrigin S given ⟨t, k, q⟩) (hk : k ≠ .start) (hq : ∀ c, q' = some c → Spawned S given c)
    (hunread : k'.unread ⊆ k.unread) (hcollected : ∀ ty, k'.collected.of ty ⊆ k.collected.of ty) :
    JobOrigin S given ⟨t, k', q'⟩ := by
  refine ⟨h.task, hq, fun _ => h.valid hk, List.Subset.trans hunread h.unread, ?_⟩
  intro ty hty c hc
  refine h.collected ty hty c (Multiset.mem_coe.mpr ?_)
  exact List.map_subset _ (hcollected ty) (Multiset.mem_coe.mp hc)

theorem JobOrigin.add {t : ScanTask} {entry : Dirent} {rest : List Dirent} {out : Out}
    (h : JobOrigin S given ⟨t, .collect entry rest out, none⟩) :
    JobOrigin S given ⟨t, .traverse rest (out.add t.path entry), none⟩ := by
  refine ⟨h.task, by simp, fun _ => h.valid (by simp), ?_, ?_⟩
  · exact List.Subset.trans (List.subset_cons_self entry rest) h.unread
  · intro ty hty c hc
    rw [ScanPc.collected, Out.tag_add _ _ _ hty, Multiset.mem_add] at hc
    rcases hc with hc | hc
    · exact h.collected ty hty c hc
    · refine mem_found_of_mem ?_ hc
      intro e he
      obtain rfl := List.mem_singleton.mp he
      exact h.unread (.head _)

theorem JobOrigin.comes {ty : DType} {t : ScanTask} {k : ScanPc} {q : Option ScanTask} {c : Str}
    (h : JobOrigin S given ⟨t, k, q⟩) (hk : k ≠ .start) (hty : ty = .dir ∨ ty = .reg ∨ ty = .lnk)
    (hc : c ∈ k.collected.of ty) : Comes S given ty ⟨t.root, c⟩ := by
  refine ⟨t, h.task, h.valid hk, h.collected ty hty _ (Multiset.mem_coe.mpr ?_)⟩
  exact List.mem_map_of_mem hc

theorem ScanMove.origin {i : Fin n} {x : Answer} (h : ScanMove S i x v j (v', j'))
    (hv : ListOrigin S given v) (hj : ∀ job, j = some job → JobOrigin S given job) :
    ListOrigin S given v' ∧ ∀ job, j' = some job → JobOrigin S given job := by
  obtain ⟨hdirs, htasks, hvisited, hskipped, hchecked, hreloaded⟩ := hv
  cases h with
  | skip => exact ⟨⟨hdirs, htasks, hvisited, hskipped, hchecked, hreloaded⟩, hj⟩
  | begin t ts ht =>
    rw [ht] at htasks
    refine ⟨⟨hdirs, fun c hc => htasks c (.tail _ hc), hvisited, hskipped, hchecked, hreloaded⟩, ?_⟩
    rintro job ⟨⟩
    exact JobOrigin.start (htasks t (.head _))
  | enqueue t t' k =>
    have hjob := hj _ rfl
    refine ⟨⟨hdirs, forall_mem_concat htasks (hjob.pending t' rfl), hvisited, hskipped, hchecked,
      hreloaded⟩, ?_⟩
    rintro job ⟨⟩
    exact ⟨hjob.task, by simp, hjob.valid, hjob.unread, hjob.collected⟩
  | throw t k hx => exact ⟨⟨hdirs, htasks, hvisited, hskipped, hchecked, hreloaded⟩, by simp⟩
  | notRunning t hr => exact ⟨⟨hdirs, htasks, hvisited, hskipped, hchecked, hreloaded⟩, by simp⟩
  | notValid t hp =>
    exact ⟨⟨hdirs, htasks, hvisited, forall_mem_concat hskipped hp, hchecked, hreloaded⟩, by simp⟩
  | valid t hr hp =>
    refine ⟨⟨hdirs, htasks, hvisited, hskipped, hchecked, hreloaded⟩, ?_⟩
    rintro job ⟨⟩
    exact JobOrigin.valid_path (hj _ rfl).task hp
  | opendir t =>
    have hjob := hj _ rfl
    have hp := hjob.valid (by simp)
    refine ⟨⟨hdirs, htasks, forall_mem_concat hvisited ⟨hjob.task, hp⟩, hskipped, hchecked, hreloaded⟩, ?_⟩
    rintro job ⟨⟩
    exact JobOrigin.opendir hjob.task hp
  | collect t entry rest out =>
    refine ⟨⟨hdirs, htasks, hvisited, hskipped, hchecked, hreloaded⟩, ?_⟩
    rintro job ⟨⟩
    exact (hj _ rfl).add
  | pushDir t d dirs files symbols =>
    have hjob := hj _ rfl
    have hd : Comes S given .dir ⟨t.root, d⟩ := hjob.comes (by simp) (by simp) (.head _)
    obtain ⟨t₀, ht₀, hp₀, hfound⟩ := hd
    refine ⟨⟨hdirs, htasks, hvisited, hskipped, hchecked, hreloaded⟩, ?_⟩
    rintro job ⟨⟩
    refine hjob.next (by simp) ?_ (List.Subset.refl _) ?_
    · rintro c ⟨⟩
      exact .child ht₀ hp₀ hfound
    · intro ty
      cases ty <;> simp [ScanPc.collected, Out.of]
  | checkFile t f files symbols =>
    have hjob := hj _ rfl
    have hf : Comes S given .reg ⟨t.root, f⟩ := hjob.comes (by simp) (by simp) (.head _)
    refine ⟨⟨hdirs, htasks, hvisited, hskipped, forall_mem_concat hchecked hf, hreloaded⟩, ?_⟩
    rintro job ⟨⟩
    refine hjob.next (by simp) (by simp) (List.Subset.refl _) ?_
    intro ty
    cases ty <;> simp [ScanPc.collected, Out.of]
  | reloadSymbol t l symbols =>
    have hjob := hj _ rfl
    have hl : Comes S given .lnk ⟨t.root, l⟩ := hjob.comes (by simp) (by simp) (.head _)
    refine ⟨⟨hdirs, htasks, hvisited, hskipped, hchecked, forall_mem_concat hreloaded hl⟩, ?_⟩
    rintro job ⟨⟩
    refine hjob.next (by simp) (by simp) (List.Subset.refl _) ?_
    intro ty
    cases ty <;> simp [ScanPc.collected, Out.of]
  | setTimeEnd t => exact ⟨⟨hdirs, htasks, hvisited, hskipped, hchecked, hreloaded⟩, by simp⟩
  | _ =>
    refine ⟨⟨hdirs, htasks, hvisited, hskipped, hchecked, hreloaded⟩, ?_⟩
    rintro job ⟨⟩
    apply (hj _ rfl).next (by simp) (by simp) (by simp [ScanPc.unread])
    intro ty
    cases ty <;> simp [ScanPc.collected, Out.of]

theorem MainMove.origin {x : Answer} (h : MainMove x v m (v', m')) (hv : ListOrigin S given v)
    (hm : ∀ l, m = some l → MainOrigin S given l) :
    ListOrigin S given v' ∧ ∀ l, m' = some l → MainOrigin S given l := by
  cases h with
  | skip => exact ⟨hv, hm⟩
  | enqueue t k =>
    have hl := hm _ rfl
    refine ⟨⟨hv.dirs, forall_mem_concat hv.tasks (hl.pending t rfl), hv.visited, hv.skipped,
      hv.checked, hv.reloaded⟩, ?_⟩
    rintro l ⟨⟩
    exact ⟨hl.toCome, by simp⟩
  | addPath p paths rest =>
    have hl := hm _ rfl
    have hp : (given p ∧ ∀ r ∈ paths, given r) ∧ ∀ rs ∈ rest, ∀ r ∈ rs, given r := by
      simpa [MainPc.toCome] using hl.toCome
    refine ⟨⟨forall_mem_concat hv.dirs hp.1.1, hv.tasks, hv.visited, hv.skipped, hv.checked,
      hv.reloaded⟩, ?_⟩
    rintro l ⟨⟩
    exact ⟨by simpa [MainPc.toCome] using ⟨hp.1.2, hp.2⟩, by simp⟩
  | launch rest =>
    refine ⟨hv, ?_⟩
    rintro l ⟨⟩
    exact ⟨fun rs hrs => (hm _ rfl).toCome rs (.tail _ hrs), by simp⟩
  | pushRoot k dir rest hd =>
    refine ⟨hv, ?_⟩
    rintro l ⟨⟩
    refine ⟨(hm _ rfl).toCome, ?_⟩
    rintro t ⟨⟩
    exact .root k (hv.dirs dir (List.mem_of_getElem? hd))
  | joinRecorder rest hl =>
    refine ⟨⟨hv.dirs, hv.tasks, hv.visited, hv.skipped, hv.checked, hv.reloaded⟩, ?_⟩
    have hcome := (hm _ rfl).toCome
    rintro l ⟨⟩
    refine ⟨?_, by simp⟩
    cases rest with
    | none => exact hcome
    | some rest => cases rest <;> exact hcome
  | destroy => exact ⟨hv, by simp⟩
  | _ =>
    refine ⟨⟨hv.dirs, hv.tasks, hv.visited, hv.skipped, hv.checked, hv.reloaded⟩, ?_⟩
    rintro l ⟨⟩
    exact ⟨(hm _ rfl).toCome, by simp⟩

structure Origins (S : Sys) (given : Str → Prop) (w : ScanView n) : Prop where
  lists : ListOrigin S given w.shared
  jobs : ∀ i job, w.loc (.worker i) = some job → JobOrigin S given job
  main : ∀ l, w.loc (.client .main) = some l → MainOrigin S given l

variable {ok : ScanState n → Thread n Client → Choice n Client Answer → Prop}

theorem origins_run {s : ScanState n} (h : ReachableBy (program n S rounds) ok s)
    (hgiven : ∀ roots ∈ rounds, ∀ r ∈ roots, given r) : Origins S given (scanView s) := by
  apply scan_invariant (I := Origins S given) .refl h
  · refine ⟨⟨by rintro r ⟨⟩, by rintro r ⟨⟩, by rintro r ⟨⟩, by rintro r ⟨⟩, by rintro r ⟨⟩,
      by rintro r ⟨⟩⟩, by rintro i job ⟨⟩, ?_⟩
    rintro l ⟨⟩
    refine ⟨?_, by simp⟩
    cases rounds with
    | nil => intro rs hrs; cases hrs
    | cons roots rest => exact hgiven
  · intro u i x q _ _ hm hI
    obtain ⟨v, l⟩ := q
    have hclient (c : Client) (hc : Client.main ≠ c) (hlc : i = .client c)
        (hp : progress v = progress (scanView u).shared)
        (hd : v.env.unscannedDirs = (scanView u).shared.env.unscannedDirs) :
        Origins S given ((scanView u).set i (v, l)) := by
      subst hlc
      refine ⟨hI.lists.congr hp hd, ?_, ?_⟩
      · intro i
        rw [Config.set_loc_of_ne _ (by simp)]
        exact hI.jobs i
      · rw [Config.set_loc_of_ne _ (by simpa using hc)]
        exact hI.main
    cases i with
    | worker i =>
      obtain ⟨hlists, hjob⟩ := ScanMove.origin hm hI.lists (hI.jobs i)
      refine ⟨hlists, ?_, ?_⟩
      · intro k
        by_cases hk : k = i
        · subst hk
          rw [Config.set_loc_self]
          exact hjob
        · rw [Config.set_loc_of_ne _ (by simpa using hk)]
          exact hI.jobs k
      · rw [Config.set_loc_of_ne _ (by simp)]
        exact hI.main
    | client c =>
      cases c with
      | main =>
        obtain ⟨hlists, hmain⟩ := MainMove.origin hm hI.lists hI.main
        refine ⟨hlists, ?_, ?_⟩
        · intro i
          rw [Config.set_loc_of_ne _ (by simp)]
          exact hI.jobs i
        · rw [Config.set_loc_self]
          exact hmain
      | recorder =>
        exact hclient _ (by simp) rfl (RecorderMove.progress hm) (RecorderMove.frame hm).2.2.1
      | notifier =>
        exact hclient _ (by simp) rfl (NotifierMove.progress hm) (NotifierMove.frame hm).2.1
      | user u =>
        exact hclient _ (by simp) rfl (UserMove.progress hm) (UserMove.frame hm).2.1

end SysUtils.Scan

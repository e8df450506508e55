import Mntrs.Writeback.QueueEffect

/-!
# The dedup set and the tasks in flight

Two accounts of `writeback_pending` along runs of the machine. A path in the set has a task on
its way as long as no dequeue drops the last task of a registered path: the vanished-file exit
of the worker (`src/src/writeback.rs:556-583`) does not take the path out of the set. And no path
has two tasks on their way as long as nothing clears or bypasses the registration of a path
with a task in flight: `unlink` and `forget` clear it, and the start-up recovery posts tasks
without it.
-/

namespace Mntrs

open Base

/-- No request in progress and nothing registered or on its way. -/
def Sys.AtStart (s : Sys) : Prop :=
  s.call = .idle ∧ s.fs.writeback = ⟨∅, [], [], []⟩

/-- Every registered path has a task in the channel, the delay queue or an upload. -/
def PendingCovered (s : Sys) : Prop :=
  ∀ p ∈ s.fs.writeback.pending, 0 < s.fs.tasksOf p

/-- No path has two tasks in the channel, the delay queue and the uploads. -/
def OneTaskPerPath (s : Sys) : Prop := ∀ p, s.fs.tasksOf p ≤ 1

/-- The tasks in flight. -/
abbrev MntrsFs.tasks (fs : MntrsFs) : List WritebackTask := fs.writeback.tasks Upload.task

/-! ### Registered paths have a task -/

/-- The path whose task a dequeue drops because the cache file is gone. -/
def vanishes (s : Sys) : Label → Option Path
  | .dequeue i =>
    (s.fs.writeback.queue[i]?.filter (fun t ↦ taskData s.fs t = none)).map (·.remotePath)
  | _ => none

/-- The step does not drop the only task of a registered path. -/
def NoVanishedTask (s : Sys) (l : Label) : Prop :=
  ∀ p ∈ vanishes s l, p ∈ s.fs.writeback.pending → 1 < s.fs.tasksOf p

/-- The registered paths are covered, and a channel without receiver never got a task. -/
structure PendingAccount (s : Sys) : Prop where
  covered : s.fs.writeback.Covered WritebackTask.remotePath Upload.task
  dead : s.fs.receiverAlive = false → s.fs.tasks = []

variable {l : Label} {s : Sys}

section

variable {cfg : Config} {q : WritebackQueue}

private theorem ne_dead_of_mem {t : WritebackTask} (h : PendingAccount s) (ht : t ∈ s.fs.tasks) :
    s.fs.receiverAlive ≠ false := by
  intro hdead
  rw [h.dead hdead] at ht
  cases ht

private theorem covered_cancel (h : PendingAccount s) (p : Path) :
    (s.fs.writeback.cancel p).Covered WritebackTask.remotePath Upload.task :=
  h.covered.of_perm (.refl _) (Finset.erase_subset _ _)

private theorem covered_uploadEffect {i : Nat} (h : PendingAccount s)
    (heff : UploadEffect s.fs i q) : q.Covered WritebackTask.remotePath Upload.task := by
  obtain ⟨u, hu, ⟨u', hu', -, rfl⟩ | rfl | ⟨-, t, hpath, -, -, rfl⟩ | ⟨hdead, -⟩⟩ := heff
  · exact h.covered.of_perm (.of_eq (DedupQueue.tasks_advance hu hu')) (Finset.Subset.refl _)
  · refine h.covered.of_removed (DedupQueue.tasks_retire _ hu) (Finset.erase_subset _ _) ?_
    intro hmem
    exact absurd rfl (Finset.ne_of_mem_erase hmem)
  · exact h.covered.of_replaced (DedupQueue.tasks_retire _ hu) (DedupQueue.tasks_post _ _ _) hpath
      (Finset.Subset.refl _)
  · have hmem : u.task ∈ s.fs.tasks :=
      (DedupQueue.tasks_retire _ hu).symm.subset List.mem_cons_self
    exact absurd hdead (ne_dead_of_mem h hmem)

private theorem covered_queueEffect (h : PendingAccount s) (hguard : NoVanishedTask s l)
    (heff : queueEffect cfg s q l) : q.Covered WritebackTask.remotePath Upload.task := by
  cases l with
  | fuse =>
    obtain (rfl | ⟨p, task, -, rfl, -, hp, -, rfl⟩) | ⟨p, -, rfl⟩ := heff
    · exact h.covered
    · refine h.covered.of_cons (DedupQueue.tasks_submit _ _ _ hp) ?_
      intro k hk
      rw [DedupQueue.pending_submit _ _ hp, Finset.mem_insert] at hk
      exact hk.symm
    · exact covered_cancel h p
  | unlink parent name env | forget ino nlookup =>
    obtain rfl | ⟨p, -, rfl⟩ := heff
    · exact h.covered
    · exact covered_cancel h p
  | recover n unreadable =>
    obtain rfl | ⟨t, -, -, -, -, rfl⟩ := heff
    · exact h.covered
    · exact h.covered.of_cons (DedupQueue.tasks_post _ _ _) (fun k hk ↦ .inl hk)
  | recv =>
    obtain ⟨hperm, hpending⟩ := DedupQueue.tasks_recv Upload.task heff
    exact h.covered.of_perm hperm hpending.subset
  | dequeue i =>
    obtain ⟨t, ht, ⟨data, -, rfl⟩ | ⟨hgone, rfl⟩⟩ := heff
    · exact h.covered.of_perm (DedupQueue.tasks_start ht) (Finset.Subset.refl _)
    · exact h.covered.of_removed (DedupQueue.tasks_drop ht) (Finset.Subset.refl _)
        (hguard t.remotePath (by simp [vanishes, ht, hgone]))
  | attempt i outcome | upload i => exact covered_uploadEffect h heff
  | _ =>
    obtain rfl := heff
    exact h.covered

private theorem tasks_eq_nil_queueEffect (hdead : s.fs.receiverAlive = false)
    (hnil : s.fs.tasks = []) (heff : queueEffect cfg s q l) : q.tasks Upload.task = [] := by
  have hstages : s.fs.writeback.chan = [] ∧ s.fs.writeback.queue = [] ∧
      s.fs.writeback.running = [] := by
    simpa [DedupQueue.tasks, and_assoc] using hnil
  have hupload : ∀ i, ¬ UploadEffect s.fs i q := by
    rintro i ⟨u, hu, -⟩
    simp [hstages.2.2] at hu
  cases l with
  | fuse =>
    obtain (rfl | ⟨_, _, -, -, -, -, halive, -⟩) | ⟨p, -, rfl⟩ := heff
    · exact hnil
    · simp [hdead] at halive
    · exact hnil
  | unlink parent name env | forget ino nlookup =>
    obtain rfl | ⟨p, -, rfl⟩ := heff <;> exact hnil
  | recover n unreadable =>
    obtain rfl | ⟨_, -, -, -, halive, -⟩ := heff
    · exact hnil
    · simp [hdead] at halive
  | recv => simp [queueEffect, DedupQueue.recv, hstages.1] at heff
  | dequeue i => simp [queueEffect, hstages.2.1] at heff
  | attempt i outcome | upload i => exact absurd heff (hupload i)
  | _ =>
    obtain rfl := heff
    exact hnil

end

/-- One step keeps the account. -/
theorem PendingAccount.step {cfg : Config} {t : Sys} (h : PendingAccount s)
    (hguard : NoVanishedTask s l) (hstep : Mntrs.step cfg l s = some t) : PendingAccount t where
  covered := covered_queueEffect h hguard (stepEffect hstep).queue
  dead hdead := by
    rw [(stepEffect hstep).alive] at hdead
    exact tasks_eq_nil_queueEffect hdead (h.dead hdead) (stepEffect hstep).queue

theorem Sys.AtStart.pendingAccount (h : s.AtStart) : PendingAccount s where
  covered := by simp [DedupQueue.Covered, h.2]
  dead _ := by simp [MntrsFs.tasks, DedupQueue.tasks, h.2]

/-- In a run without a vanished last task, a registered path always has a task on its way. -/
theorem pending_covered_of_run {cfg : Config} {s t : Sys} (hstart : s.AtStart)
    (hrun : GuardedRun (step cfg) NoVanishedTask s t) : PendingCovered t :=
  (hrun.invariant PendingAccount (fun _ _ _ hacc hguard hstep ↦ hacc.step hguard hstep)
    hstart.pendingAccount).covered

/-- A mount with the empty cache file of `a` open under handle 1. -/
def freshlyOpened (cfg : Config) : Sys where
  fs := { MntrsFs.mounted (fun _ ↦ none) (Disk.empty.create (cfg.writeBufferPath ['a']) [] 0) with
    handles := AList.singleton 1 (.write ⟨['a'], some 0, none, false, none, none, none⟩) }
  call := .idle
  written _ := none

/-- A write of two bytes to `a`, from its start to its return. -/
def writeTwo : List Label := [.write 2 1 0 [7, 7] .ok, .fuse, .fuse, .fuse, .fuse]

/-- The task at the front of the channel is received and comes due. -/
def dequeueFront : List Label := [.recv, .dequeue 0]

instance NoVanishedTask.decidable (s : Sys) (l : Label) : Decidable (NoVanishedTask s l) :=
  inferInstanceAs (Decidable (∀ p ∈ vanishes s l, _ → _))

/-- A write whose upload is running: its path is registered and covered. -/
theorem pending_covered_of_run_sample :
    ∃ t, GuardedRun (step (.plain .writes)) NoVanishedTask (freshlyOpened (.plain .writes)) t ∧
      ['a'] ∈ t.fs.writeback.pending ∧ PendingCovered t := by
  obtain ⟨t, hrun, ht⟩ := exists_guardedRun (step (.plain .writes)) NoVanishedTask
    (['a'] ∈ ·.fs.writeback.pending) (writeTwo ++ dequeueFront)
    (freshlyOpened (.plain .writes)) (by decide) (by decide)
  exact ⟨t, hrun, ht, pending_covered_of_run ⟨rfl, rfl⟩ hrun⟩

/-- A cache of one byte. -/
def oneByteCache : Config := { Config.plain .writes with cacheMaxSize := 1 }

/-- A write of two bytes into a cache of one evicts its own cache file after its task went out.
The dequeue drops the task, and the path stays registered with no task left. -/
theorem pending_left_without_task :
    ∃ t, GuardedRun (step oneByteCache) (fun _ _ ↦ True) (freshlyOpened oneByteCache) t ∧
      ¬ PendingCovered t := by
  obtain ⟨t, hrun, hpending, hnone⟩ := exists_guardedRun (step oneByteCache) (fun _ _ ↦ True)
    (fun t ↦ ['a'] ∈ t.fs.writeback.pending ∧ t.fs.tasksOf ['a'] = 0)
    (writeTwo ++ dequeueFront) (freshlyOpened oneByteCache) (by decide) (by decide)
  refine ⟨t, hrun, fun hcovered ↦ ?_⟩
  have := hcovered ['a'] hpending
  omega

/-! ### Paths have one task -/

/-- The path a step hands to the worker through the dedup set. -/
def handsOver (cfg : Config) (s : Sys) : Label → Option Path
  | .fuse => sending cfg s
  | _ => none

/-- The step neither clears the registration of a path with a task in flight, nor posts a
recovered task of such a path, nor hands over a path whose recovered task is in flight. -/
def RespectsTasks (cfg : Config) (s : Sys) (l : Label) : Prop :=
  (∀ p ∈ cancels cfg s l, s.fs.tasksOf p = 0) ∧
  (∀ p ∈ recovers s l, s.fs.tasksOf p = 0) ∧
  (∀ p ∈ handsOver cfg s l, p ∉ s.fs.writeback.pending →
    ∀ t ∈ s.fs.tasks, t.remotePath = p → t.ino ≠ inoRecoverySentinel)

/-- One task a path, and every task registered but the recovered ones. -/
abbrev TaskAccount (q : WritebackQueue) : Prop :=
  q.Exclusive WritebackTask.remotePath Upload.task (·.ino = inoRecoverySentinel)

section

variable {cfg : Config} {q : WritebackQueue}

private theorem taskAccount_cancelEffect (h : TaskAccount s.fs.writeback)
    (hguard : RespectsTasks cfg s l) (heff : CancelEffect cfg s l q) : TaskAccount q := by
  obtain ⟨p, hp, rfl⟩ := heff
  exact h.cancel (hguard.1 p hp)

private theorem taskAccount_uploadEffect {i : Nat} (h : TaskAccount s.fs.writeback)
    (heff : UploadEffect s.fs i q) : TaskAccount q := by
  obtain ⟨u, hu, ⟨u', hu', -, rfl⟩ | rfl | ⟨-, t, hpath, hino, -, rfl⟩ | ⟨-, rfl⟩⟩ := heff
  · exact h.of_perm (.of_eq (DedupQueue.tasks_advance hu hu')) rfl
  · have hretired := DedupQueue.tasks_retire Upload.task hu
    exact (h.of_removed hretired rfl).cancel (h.idle_of_removed hretired)
  · refine h.of_replaced (DedupQueue.tasks_retire _ hu) (DedupQueue.tasks_post _ _ _) hpath ?_ rfl
    exact fun hrecovered ↦ hino.trans hrecovered
  · exact h.of_removed (DedupQueue.tasks_retire _ hu) rfl

private theorem taskAccount_queueEffect (h : TaskAccount s.fs.writeback)
    (hguard : RespectsTasks cfg s l) (heff : queueEffect cfg s q l) : TaskAccount q := by
  cases l with
  | fuse =>
    obtain (rfl | ⟨p, task, hsend, rfl, -, hp, -, rfl⟩) | hcancel := heff
    · exact h
    · have hpending := DedupQueue.pending_submit s.fs.writeback task hp
      refine h.of_cons (DedupQueue.tasks_submit _ _ _ hp) ?_ ?_ (.inl ?_)
      · rw [hpending]
        exact Finset.subset_insert _ _
      · exact h.idle_of_notMem hp (hguard.2.2 _ hsend hp)
      · rw [hpending]
        exact Finset.mem_insert_self _ _
    · exact taskAccount_cancelEffect h hguard hcancel
  | unlink parent name env | forget ino nlookup =>
    obtain rfl | hcancel := heff
    · exact h
    · exact taskAccount_cancelEffect h hguard hcancel
  | recover n unreadable =>
    obtain rfl | ⟨t, ht, hino, -, -, rfl⟩ := heff
    · exact h
    · exact h.of_cons (DedupQueue.tasks_post _ _ _) (Finset.Subset.refl _) (hguard.2.1 _ ht)
        (.inr hino)
  | recv =>
    obtain ⟨hperm, hpending⟩ := DedupQueue.tasks_recv Upload.task heff
    exact h.of_perm hperm hpending
  | dequeue i =>
    obtain ⟨t, ht, ⟨data, -, rfl⟩ | ⟨-, rfl⟩⟩ := heff
    · exact h.of_perm (DedupQueue.tasks_start ht) rfl
    · exact h.of_removed (DedupQueue.tasks_drop ht) rfl
  | attempt i outcome | upload i => exact taskAccount_uploadEffect h heff
  | _ =>
    obtain rfl := heff
    exact h

end

/-- One step keeps the account of tasks. -/
theorem taskAccount_step {cfg : Config} {t : Sys} (h : TaskAccount s.fs.writeback)
    (hguard : RespectsTasks cfg s l) (hstep : step cfg l s = some t) : TaskAccount t.fs.writeback :=
  taskAccount_queueEffect h hguard (stepEffect hstep).queue

theorem Sys.AtStart.taskAccount (h : s.AtStart) : TaskAccount s.fs.writeback where
  unique p := by simp [DedupQueue.inFlight, DedupQueue.tasks, h.2]
  registered t ht := by simp [DedupQueue.tasks, h.2] at ht

/-- In a run that respects the tasks in flight, no path ever has two of them. -/
theorem one_task_per_path_of_run {cfg : Config} {s t : Sys} (hstart : s.AtStart)
    (hrun : GuardedRun (step cfg) (RespectsTasks cfg) s t) : OneTaskPerPath t :=
  (hrun.invariant (fun s ↦ TaskAccount s.fs.writeback)
    (fun _ _ _ hacc hguard hstep ↦ taskAccount_step hacc hguard hstep) hstart.taskAccount).unique

instance RespectsTasks.decidable (cfg : Config) (s : Sys) (l : Label) :
    Decidable (RespectsTasks cfg s l) :=
  inferInstanceAs (Decidable ((∀ p ∈ cancels cfg s l, _) ∧ (∀ p ∈ recovers s l, _) ∧
    (∀ p ∈ handsOver cfg s l, _ → ∀ t ∈ s.fs.tasks, _ → _)))

/-- The cache file of `a` left over by a crash, with its sidecar, opened again. -/
def leftOver : Sys :=
  let s := freshlyOpened (.plain .writes)
  { s with fs := { s.fs with
    disk := s.fs.disk.writeDirty ((Config.plain .writes).writeBufferPath ['a']) ['a'] } }

/-- The recovery of the sidecar of `a`. -/
def recoverA : Label := .recover ((Config.plain .writes).writeBufferPath ['a']) false

/-- A recovery whose upload is over before the path is written again. -/
theorem one_task_per_path_of_run_sample :
    ∃ t, GuardedRun (step (.plain .writes)) (RespectsTasks (.plain .writes)) leftOver t ∧
      t.fs.tasksOf ['a'] = 1 ∧ OneTaskPerPath t := by
  obtain ⟨t, hrun, ht⟩ := exists_guardedRun (step (.plain .writes)) (RespectsTasks (.plain .writes))
    (·.fs.tasksOf ['a'] = 1)
    ([recoverA, .recv, .dequeue 0, .attempt 0 .ok] ++ List.replicate 5 (.upload 0) ++ writeTwo)
    leftOver (by decide) (by decide)
  exact ⟨t, hrun, ht, one_task_per_path_of_run ⟨rfl, rfl⟩ hrun⟩

/-- A recovered task is not registered, so a write hands over a second one. -/
theorem two_tasks_for_recovered_path :
    ∃ t, GuardedRun (step (.plain .writes)) (fun _ _ ↦ True) leftOver t ∧ ¬ OneTaskPerPath t := by
  obtain ⟨t, hrun, ht⟩ := exists_guardedRun (step (.plain .writes)) (fun _ _ ↦ True)
    (·.fs.tasksOf ['a'] = 2) (recoverA :: writeTwo) leftOver (by decide) (by decide)
  refine ⟨t, hrun, fun hone ↦ ?_⟩
  have := hone ['a']
  omega

end Mntrs

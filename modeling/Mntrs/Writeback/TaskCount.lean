import Mntrs.Writeback.Pending

/-!
# The count of writeback tasks

`PENDING_COUNT` (`src/src/writeback.rs:124`) goes up when the worker takes a task out of the channel
(`465-540`) and down when the put of a task has succeeded, its cache file has vanished or its last
retry has failed. A task that is sent again at the end of a cycle stays counted (`1031-1034`), and
is counted once more when it is received. `CountMove` says what a step does to the tasks and to
the count; that the count covers the tasks, and when it is exact, follow from it.
-/

namespace Mntrs

open Base

/-- The tasks of the delay queue and the uploads that have yet to put their bytes. -/
def countedTasks (q : WritebackQueue) : Nat :=
  q.queue.length + q.running.countP Upload.attempting

/-- The tasks of the channel that were sent again at the end of a cycle. -/
def resentTasks (q : WritebackQueue) : Nat := q.chan.countP (fun t ↦ decide (t.retryCycle ≠ 0))

/-- The count covers the tasks it stands for. -/
def Counted (fs : MntrsFs) : Prop := countedTasks fs.writeback ≤ fs.pendingCount.toNat

/-- The count does not run over, and no request outside the model touches it. -/
def CountKept (s : Sys) : Label → Prop
  | .recv => s.fs.pendingCount.toNat + 1 < 2 ^ 64
  | .other fs => fs.pendingCount = s.fs.pendingCount
  | _ => True

/-- What a step does to the counted tasks, to the tasks sent again and to the count. -/
inductive CountMove (fs fs' : MntrsFs) : Label → Prop
  | kept (l : Label) (hcounted : countedTasks fs'.writeback = countedTasks fs.writeback)
      (hresent : resentTasks fs'.writeback = resentTasks fs.writeback)
      (hcount : fs'.pendingCount = fs.pendingCount) : CountMove fs fs' l
  | received (t : WritebackTask) (hhead : fs.writeback.chan.head? = some t)
      (hcounted : countedTasks fs'.writeback = countedTasks fs.writeback + 1)
      (hresent : resentTasks fs'.writeback + (if t.retryCycle ≠ 0 then 1 else 0) =
        resentTasks fs.writeback)
      (hcount : fs'.pendingCount = fs.pendingCount + 1) : CountMove fs fs' .recv
  | finished (l : Label) (hcounted : countedTasks fs'.writeback + 1 = countedTasks fs.writeback)
      (hresent : resentTasks fs'.writeback = resentTasks fs.writeback)
      (hcount : fs'.pendingCount = fs.pendingCount - 1) : CountMove fs fs' l
  | resent (l : Label) (hcounted : countedTasks fs'.writeback + 1 = countedTasks fs.writeback)
      (hresent : fs.receiverAlive = true →
        resentTasks fs'.writeback = resentTasks fs.writeback + 1)
      (hcount : fs'.pendingCount = fs.pendingCount) : CountMove fs fs' l

section

variable {cfg : Config} {s t : Sys} {fs fs' : MntrsFs} {q : WritebackQueue} {l : Label} {i : Nat}

private theorem toNat_succ {n : UInt64} (h : n.toNat + 1 < 2 ^ 64) :
    (n + 1).toNat = n.toNat + 1 := by
  exact Nat.mod_eq_of_lt h

private theorem toNat_pred {n : UInt64} (h : 0 < n.toNat) : (n - 1).toNat + 1 = n.toNat := by
  have hone : (1 : UInt64) ≤ n := UInt64.le_iff_toNat_le.mpr h
  rw [UInt64.toNat_sub_of_le _ _ hone]
  exact Nat.sub_add_cancel h

private theorem countedTasks_advance {u : Upload} (u' : Upload)
    (hu : q.running[i]? = some u) :
    countedTasks (q.advance i u') + u.attempting.toNat = countedTasks q + u'.attempting.toNat := by
  obtain ⟨hi, rfl⟩ := List.getElem?_eq_some_iff.mp hu
  have hi' : i < (q.running.set i u').length := by simpa using hi
  have hold := (List.getElem_cons_eraseIdx_perm hi).countP_eq Upload.attempting
  have hnew := (List.getElem_cons_eraseIdx_perm hi').countP_eq Upload.attempting
  rw [List.getElem_set_self, List.eraseIdx_set_eq] at hnew
  simp only [List.countP_cons] at hold hnew
  simp only [countedTasks, DedupQueue.advance]
  cases hthen : q.running[i].attempting <;> cases hnow : u'.attempting <;>
    simp only [hthen, hnow, Bool.toNat_true, Bool.toNat_false, if_true, Bool.false_eq_true,
      if_false] at hold hnew ⊢ <;> omega

private theorem countedTasks_retire {u : Upload} (hu : q.running[i]? = some u) :
    countedTasks (q.retire i) + u.attempting.toNat = countedTasks q := by
  obtain ⟨hi, rfl⟩ := List.getElem?_eq_some_iff.mp hu
  have hold := (List.getElem_cons_eraseIdx_perm hi).countP_eq Upload.attempting
  simp only [List.countP_cons] at hold
  simp only [countedTasks, DedupQueue.retire]
  cases hthen : q.running[i].attempting <;>
    simp only [hthen, Bool.toNat_true, Bool.toNat_false, if_true, Bool.false_eq_true,
      if_false] at hold ⊢ <;> omega

private theorem countedTasks_drop {t : WritebackTask} (ht : q.queue[i]? = some t) :
    countedTasks (q.drop i) + 1 = countedTasks q := by
  obtain ⟨hi, -⟩ := List.getElem?_eq_some_iff.mp ht
  simp only [countedTasks, DedupQueue.drop, List.length_eraseIdx, if_pos hi]
  omega

private theorem resentTasks_post {task : WritebackTask} :
    resentTasks (q.post task) = resentTasks q + if task.retryCycle ≠ 0 then 1 else 0 := by
  simp [resentTasks, DedupQueue.post, List.countP_append, List.countP_singleton]

private theorem countMove_attempt {outcome : PutOutcome}
    (h : uploadAttempt fs i outcome = some fs') : CountMove fs fs' (.attempt i outcome) := by
  obtain ⟨u, n, hu, hn, heffect⟩ := attempted h
  have hattempting : u.attempting = true := by simp [Upload.attempting, hn]
  have hretire := countedTasks_retire hu
  rw [hattempting] at hretire
  have hput : ∀ reached, (putFailed fs u reached).pendingCount = fs.pendingCount := by
    intro reached
    rw [putFailed_frame]
  cases heffect with
  | put =>
    have hnext := countedTasks_advance { u with stage := .removeSidecar } hu
    rw [hattempting] at hnext
    exact .finished _ hnext rfl rfl
  | again reached =>
    have hnext := countedTasks_advance { u with stage := .attempt (n + 1) } hu
    rw [hattempting] at hnext
    exact .kept _ (Nat.add_right_cancel hnext) rfl (hput reached)
  | gaveUp => exact .finished _ hretire rfl rfl
  | resent reached =>
    refine .resent _ hretire (fun _ ↦ ?_) (hput reached)
    exact resentTasks_post.trans (if_pos (Nat.succ_ne_zero _) ▸ rfl)
  | lost reached hdead =>
    refine .resent _ hretire (fun halive ↦ ?_) (hput reached)
    rw [hdead] at halive
    cases halive

/-- Past its put, an upload is not counted any more, and sends no task of a later cycle. -/
private theorem countMove_upload (h : uploadStep fs i = some fs') :
    CountMove fs fs' (.upload i) := by
  have heffect := uploadEffect_step h
  obtain ⟨u, _, _, _, _, hu, -, hframe⟩ := uploadStep_frame h
  have hpast : u.attempting = false := by
    unfold Upload.attempting
    split
    · next n hn => simp [uploadStep, hu, hn] at h
    · rfl
  have hcount : fs'.pendingCount = fs.pendingCount := by rw [hframe]
  have hretire := countedTasks_retire hu
  rw [hpast] at hretire
  obtain ⟨u₁, hu₁, heffect⟩ := heffect
  obtain rfl : u₁ = u := Option.some.inj (hu₁.symm.trans hu)
  obtain ⟨u', -, hstays, hq⟩ | hq | ⟨-, task, -, -, hfresh, hq⟩ | ⟨-, hq⟩ := heffect
  · have hpast' : u'.attempting = false := by
      rw [hpast] at hstays
      exact Bool.eq_false_iff.mpr (fun htrue ↦ absurd (hstays htrue) (by decide))
    have hnext := countedTasks_advance u' hu
    rw [hpast, hpast'] at hnext
    exact .kept _ (hq ▸ hnext) (by rw [hq]; rfl) hcount
  · exact .kept _ (hq ▸ hretire) (by rw [hq]; rfl) hcount
  · have hzero : task.retryCycle = 0 := hfresh.resolve_right (by simp [hpast])
    refine .kept _ (hq ▸ hretire) ?_ hcount
    rw [hq, resentTasks_post, if_neg (not_not.mpr hzero)]
    rfl
  · exact .kept _ (hq ▸ hretire) (by rw [hq]; rfl) hcount

private theorem tasks_queueEffect (hcounts : countsTasks l = false) (hupload : ∀ i, l ≠ .upload i)
    (h : queueEffect cfg s q l) :
    countedTasks q = countedTasks s.fs.writeback ∧ resentTasks q = resentTasks s.fs.writeback := by
  have hpost : ∀ task : WritebackTask, task.retryCycle = 0 →
      resentTasks (s.fs.writeback.post task) = resentTasks s.fs.writeback := by
    intro task hzero
    rw [resentTasks_post, if_neg (not_not.mpr hzero), Nat.add_zero]
  cases l with
  | fuse =>
    obtain (rfl | ⟨p, task, -, -, hzero, hp, -, rfl⟩) | ⟨p, -, rfl⟩ := h
    · exact ⟨rfl, rfl⟩
    · rw [DedupQueue.submit, if_neg hp]
      exact ⟨rfl, hpost task hzero⟩
    · exact ⟨rfl, rfl⟩
  | unlink parent name env | forget ino nlookup =>
    obtain rfl | ⟨p, -, rfl⟩ := h <;> exact ⟨rfl, rfl⟩
  | recover n unreadable =>
    obtain rfl | ⟨task, -, -, hzero, -, rfl⟩ := h
    · exact ⟨rfl, rfl⟩
    · exact ⟨rfl, hpost task hzero⟩
  | recv | dequeue i | attempt i outcome => cases hcounts
  | upload i => exact absurd rfl (hupload i)
  | _ =>
    obtain rfl := h
    exact ⟨rfl, rfl⟩

/-- Every step moves the tasks and their count together. -/
theorem countMove_step (hrecount : ¬ recounts s l) (h : step cfg l s = some t) :
    CountMove s.fs t.fs l := by
  have heffect := stepEffect h
  cases l with
  | recv =>
    obtain ⟨fs, hrecv, rfl⟩ := exists_workerStep h
    simp only [workerStep, workerRecv, DedupQueue.recv] at hrecv
    cases hchan : s.fs.writeback.chan with
    | nil => simp [hchan] at hrecv
    | cons task rest =>
      simp only [hchan] at hrecv
      cases hrecv
      refine .received task (by rw [hchan]; rfl) ?_ ?_ rfl
      · simp only [countedTasks, List.length_append, List.length_singleton]
        omega
      · simp only [resentTasks, hchan, List.countP_cons, decide_eq_true_eq]
  | dequeue i =>
    obtain ⟨fs, hdequeue, rfl⟩ := exists_workerStep h
    simp only [workerStep, workerDequeue] at hdequeue
    split at hdequeue
    · cases hdequeue
    · next task ht =>
      have hdrop := countedTasks_drop ht
      split at hdequeue
      · cases hdequeue
        refine .kept _ ?_ rfl rfl
        simp only [countedTasks, DedupQueue.start, DedupQueue.drop, List.countP_append,
          List.countP_singleton, Upload.attempting, if_true] at hdrop ⊢
        omega
      · cases hdequeue
        exact .finished _ hdrop rfl rfl
  | attempt i outcome =>
    obtain ⟨fs, hattempt, rfl⟩ := exists_workerStep h
    exact countMove_attempt hattempt
  | upload i =>
    obtain ⟨fs, hupload, rfl⟩ := exists_workerStep h
    exact countMove_upload hupload
  | _ =>
    obtain ⟨hcounted, hresent⟩ := tasks_queueEffect rfl (by simp) heffect.queue
    exact .kept _ hcounted hresent (heffect.count rfl hrecount)

/-- One step keeps the count above the tasks. -/
theorem Counted.step (h : Counted s.fs) (hkept : CountKept s l) (hstep : step cfg l s = some t) :
    Counted t.fs := by
  have hrecount : ¬ recounts s l := by
    cases l with
    | other fs => exact not_not.mpr hkept
    | _ => exact id
  unfold Counted at h ⊢
  cases countMove_step hrecount hstep with
  | kept _ hcounted _ hcount => rwa [hcounted, hcount]
  | received task _ hcounted _ hcount =>
    rw [hcounted, hcount, toNat_succ hkept]
    exact Nat.succ_le_succ h
  | finished _ hcounted _ hcount =>
    have hpred := toNat_pred (n := s.fs.pendingCount) (by omega)
    rw [hcount]
    omega
  | resent _ hcounted _ hcount =>
    rw [hcount]
    omega

theorem Counted.eq_nil (h : Counted fs) (hzero : fs.pendingCount = 0) :
    fs.writeback.queue = [] ∧ ∀ u ∈ fs.writeback.running, u.attempting = false := by
  have hnone : countedTasks fs.writeback = 0 := by
    unfold Counted at h
    rw [hzero] at h
    exact Nat.le_zero.mp h
  obtain ⟨hqueue, hrunning⟩ := Nat.add_eq_zero_iff.mp hnone
  refine ⟨List.length_eq_zero_iff.mp hqueue, fun u hu ↦ ?_⟩
  simpa using List.countP_eq_zero.mp hrunning u hu

end

/-! ### When the count is exact -/

/-- The tasks the worker has received and neither finished nor dropped: in the delay queue,
uploading, or sent again and not yet received. -/
def unfinishedTasks (q : WritebackQueue) : Nat := countedTasks q + resentTasks q

/-- The count is the number of unfinished tasks. -/
def CountExact (fs : MntrsFs) : Prop :=
  fs.pendingCount = UInt64.ofNat (unfinishedTasks fs.writeback)

/-- The step does not receive a task that was sent again, and no request outside the model touches
the count. -/
def CountsOnce (s : Sys) : Label → Prop
  | .recv => ∀ t ∈ s.fs.writeback.chan.head?, t.retryCycle = 0
  | .other fs => fs.pendingCount = s.fs.pendingCount
  | _ => True

/-- One step keeps an exact count exact. -/
private theorem CountExact.step {cfg : Config} {s t : Sys} {l : Label} (h : CountExact s.fs)
    (halive : s.fs.receiverAlive) (honce : CountsOnce s l) (hstep : step cfg l s = some t) :
    CountExact t.fs := by
  have hrecount : ¬ recounts s l := by
    cases l with
    | other fs => exact not_not.mpr honce
    | _ => exact id
  unfold CountExact unfinishedTasks at h ⊢
  cases countMove_step hrecount hstep with
  | kept _ hcounted hresent hcount => rw [hcounted, hresent, hcount, h]
  | received task hhead hcounted hresent hcount =>
    rw [if_neg (not_not.mpr (honce task hhead)), Nat.add_zero] at hresent
    rw [hcounted, hresent, hcount, h, Nat.add_right_comm, UInt64.ofNat_add _ 1]
    rfl
  | finished _ hcounted hresent hcount =>
    rw [hcount, h, ← hcounted, hresent, Nat.add_right_comm, UInt64.ofNat_add _ 1]
    exact UInt64.add_sub_cancel _ 1
  | resent _ hcounted hresent hcount =>
    rw [hcount, h, ← hcounted, hresent halive, Nat.add_right_comm, Nat.add_assoc]

/-- In a run that receives no task for a second time, the count is the number of unfinished tasks,
and zero when no work is left. -/
theorem pending_count_of_run {cfg : Config} {s t : Sys} (hstart : s.AtStart)
    (halive : s.fs.receiverAlive = true) (hzero : s.fs.pendingCount = 0)
    (hrun : GuardedRun (step cfg) CountsOnce s t) :
    CountExact t.fs ∧ (t.fs.tasks = [] → t.fs.pendingCount = 0) := by
  have hexact : CountExact t.fs := by
    refine (hrun.invariant (fun s ↦ s.fs.receiverAlive = true ∧ CountExact s.fs) ?_ ⟨halive, ?_⟩).2
    · intro s t l hs honce hstep
      exact ⟨(stepEffect hstep).alive.trans hs.1, hs.2.step hs.1 honce hstep⟩
    · rw [CountExact, hzero, hstart.2]
      rfl
  refine ⟨hexact, fun hnil ↦ ?_⟩
  have hstages : t.fs.writeback.chan = [] ∧ t.fs.writeback.queue = [] ∧
      t.fs.writeback.running = [] := by
    simpa [DedupQueue.tasks, and_assoc] using hnil
  rw [hexact, unfinishedTasks, countedTasks, resentTasks, hstages.1, hstages.2.1, hstages.2.2]
  rfl

instance CountsOnce.decidable (s : Sys) (l : Label) : Decidable (CountsOnce s l) := by
  unfold CountsOnce
  split <;> infer_instance

/-- Attempts of the first upload that fail. -/
def failedAttempts (n : Nat) : List Label := List.replicate n (.attempt 0 (.failed false))

/-- An attempt that succeeds, to the end of the upload. -/
def uploadWhole : List Label := .attempt 0 .ok :: List.replicate 5 (.upload 0)

/-- An upload that fails once and is over: the count went up to one and is back at zero. -/
theorem pending_count_of_run_sample :
    ∃ t, GuardedRun (step (.plain .writes)) CountsOnce (freshlyOpened (.plain .writes)) t ∧
      t.fs.tasks = [] ∧ CountExact t.fs ∧ t.fs.pendingCount = 0 := by
  obtain ⟨t, hrun, htasks⟩ := exists_guardedRun (step (.plain .writes)) CountsOnce (·.fs.tasks = [])
    (writeTwo ++ dequeueFront ++ failedAttempts 1 ++ uploadWhole)
    (freshlyOpened (.plain .writes)) (by decide) (by decide)
  obtain ⟨hexact, hzero⟩ := pending_count_of_run ⟨rfl, rfl⟩ rfl rfl hrun
  exact ⟨t, hrun, htasks, hexact, hzero htasks⟩

/-- Five failed attempts send the task again, and the worker counts it again when it receives it:
after the upload of the second cycle no work is left, and the count stays at one. -/
theorem resent_task_counts_twice :
    ∃ t, GuardedRun (step (.plain .writes)) (fun _ _ ↦ True) (freshlyOpened (.plain .writes)) t ∧
      t.fs.tasks = [] ∧ t.fs.pendingCount = 1 ∧ ¬ CountExact t.fs := by
  obtain ⟨t, hrun, htasks, hcount, hone⟩ := exists_guardedRun (step (.plain .writes))
    (fun _ _ ↦ True)
    (fun t ↦ t.fs.tasks = [] ∧ t.fs.pendingCount = 1 ∧
      t.fs.pendingCount ≠ UInt64.ofNat (unfinishedTasks t.fs.writeback))
    (writeTwo ++ dequeueFront ++ failedAttempts 5 ++ dequeueFront ++ uploadWhole)
    (freshlyOpened (.plain .writes)) (by decide) (by decide)
  exact ⟨t, hrun, htasks, hcount, hone⟩

end Mntrs

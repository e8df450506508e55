import Mntrs.System

/-!
# Uploads that never succeed

A task whose every attempt fails goes through cycles of five attempts (`src/src/writeback.rs:649`),
each of which ends with the task sent again under the next cycle number, until that number exceeds
`MAX_REENQUEUE_CYCLES` (`957-958`). `Standing` says where such a task is and how many attempts it
has left. The cycles run from the task's own number up to ten inclusive, so that a new task is
attempted eleven times five times.
-/

namespace Mntrs

open Base

/-- What the fate of a task depends on: the tasks of its path, the path's registration, the cache
file, its sidecar and the channel. -/
structure TaskView where
  waiting : Multiset WritebackTask
  uploads : Multiset Upload
  registered : Bool
  cacheFile : Bool
  sidecar : Bool
  alive : Bool

def taskView (task : WritebackTask) (fs : MntrsFs) : TaskView where
  waiting := fs.writeback.waiting WritebackTask.remotePath task.remotePath
  uploads := fs.writeback.jobs (·.task.remotePath) task.remotePath
  registered := decide (task.remotePath ∈ fs.writeback.pending)
  cacheFile := fs.disk.exists? task.writeBufferPath
  sidecar := (fs.disk.dirty task.writeBufferPath).isSome
  alive := fs.receiverAlive

/-- The step is an attempt of an upload of the path. -/
def attempts (p : Path) (s : Sys) : Label → Bool
  | .attempt i _ => s.fs.writeback.running[i]?.any (fun u ↦ decide (u.task.remotePath = p))
  | _ => false

/-- The step takes a task of the path off the delay queue. -/
def dequeues (p : Path) (s : Sys) : Label → Bool
  | .dequeue i => s.fs.writeback.queue[i]?.any (fun t ↦ decide (t.remotePath = p))
  | _ => false

def Label.fails : Label → Bool
  | .attempt _ (.failed _) => true
  | _ => false

/-- The attempts on the path fail, its tasks leave the delay queue at any time, and every other step
leaves them, the cache file and the sidecar as they are. -/
def AlwaysFails (cfg : Config) (task : WritebackTask) (s : Sys) (l : Label) : Prop :=
  (attempts task.remotePath s l = true ∧ l.fails = true) ∨ dequeues task.remotePath s l = true ∨
    (attempts task.remotePath s l = false ∧
      ∀ t, step cfg l s = some t → taskView task t.fs = taskView task s.fs)

/-- The attempts of the remaining cycles of a task. -/
def cycleAttempts (cycle : Nat) : Nat := uploadAttempts * (maxReenqueueCycles - cycle + 1)

/-- Where the only task of a path stands, with the attempts it has left. -/
inductive Standing (task : WritebackTask) (v : TaskView) : Nat → Prop
  | waiting (c : Nat) (hwaiting : v.waiting = { { task with retryCycle := c } })
      (huploads : v.uploads = 0) : Standing task v (cycleAttempts c)
  | uploading (c k : Nat) (data : Bytes) (hwaiting : v.waiting = 0)
      (huploads : v.uploads = { ⟨{ task with retryCycle := c }, data, .attempt k⟩ }) :
      Standing task v (uploadAttempts - 1 - k + 1 + uploadAttempts * (maxReenqueueCycles - c))
  | givenUp (hwaiting : v.waiting = 0) (huploads : v.uploads = 0)
      (hregistered : v.registered = false) : Standing task v 0

/-- The task stands somewhere, with its cache file in place, a sidecar if it had one, and the worker
running. -/
structure Retrying (task : WritebackTask) (marked : Bool) (fs : MntrsFs) (left : Nat) : Prop where
  standing : Standing task (taskView task fs) left
  cacheFile : fs.disk.exists? task.writeBufferPath = true
  sidecar : (fs.disk.dirty task.writeBufferPath).isSome = marked
  alive : fs.receiverAlive = true

section

variable {cfg : Config} {s t : Sys} {task : WritebackTask} {marked : Bool} {fs fs' : MntrsFs}
  {left i : Nat}

private theorem Retrying.dequeue (h : Retrying task marked fs left)
    (hdisk : task.inMemoryPayload = none)
    {t : WritebackTask} (ht : fs.writeback.queue[i]? = some t)
    (hpath : t.remotePath = task.remotePath) (hstep : workerDequeue fs i = some fs') :
    Retrying task marked fs' left ∧ (taskView task fs').uploads ≠ 0 := by
  have htake := DedupQueue.waiting_drop ht hpath
  obtain ⟨hstanding, hfile, hsidecar, halive⟩ := h
  cases hstanding with
  | waiting c hwaiting huploads =>
    obtain ⟨rfl, hrest⟩ := (Multiset.singleton_eq_cons_iff _).mp (hwaiting.symm.trans htake)
    obtain ⟨data, hdata⟩ : ∃ data, taskData fs { task with retryCycle := c } = some data := by
      obtain ⟨f, hf⟩ := Option.isSome_iff_exists.mp hfile
      exact ⟨fs.disk.data f, by simp [taskData, hdisk, Disk.read, hf]⟩
    simp only [workerDequeue, ht, hdata] at hstep
    cases hstep
    have hjobs := DedupQueue.jobs_start (fun u : Upload ↦ u.task.remotePath) fs.writeback i
      (show (⟨{ task with retryCycle := c }, data, .attempt 0⟩ : Upload).task.remotePath =
        task.remotePath from rfl)
    rw [show fs.writeback.jobs _ task.remotePath = 0 from huploads] at hjobs
    have hleft : cycleAttempts c =
        uploadAttempts - 1 - 0 + 1 + uploadAttempts * (maxReenqueueCycles - c) := by
      simp only [cycleAttempts, uploadAttempts, maxReenqueueCycles]
      omega
    rw [hleft]
    refine ⟨⟨.uploading c 0 data hrest hjobs, hfile, hsidecar, halive⟩, fun hnone ↦ ?_⟩
    exact Multiset.cons_ne_zero (hjobs.symm.trans hnone)
  | uploading c k data hwaiting =>
    exact absurd (htake.symm.trans hwaiting) Multiset.cons_ne_zero
  | givenUp hwaiting => exact absurd (htake.symm.trans hwaiting) Multiset.cons_ne_zero

private theorem Retrying.attempt (h : Retrying task marked fs left) {outcome : PutOutcome}
    (hfails : (Label.attempt i outcome).fails)
    (hown : fs.writeback.running[i]?.any (fun u ↦ decide (u.task.remotePath = task.remotePath)))
    (hstep : uploadAttempt fs i outcome = some fs') :
    ∃ m, Retrying task marked fs' m ∧ 1 + m = left := by
  obtain ⟨u, n, hu, hn, heffect⟩ := attempted hstep
  have hpath : u.task.remotePath = task.remotePath := by simpa [hu] using hown
  have htake := DedupQueue.jobs_retire (fun u : Upload ↦ u.task.remotePath) hu hpath
  obtain ⟨hstanding, hfile, hsidecar, halive⟩ := h
  have hplace : ∀ {m}, Standing task (taskView task fs') m → Retrying task marked fs' m := by
    obtain ⟨_, _, _, rfl⟩ := uploadAttempt_frame hstep
    exact fun hstanding ↦ ⟨hstanding, hfile, hsidecar, halive⟩
  cases hstanding with
  | uploading c k data hwaiting huploads =>
    obtain ⟨rfl, hrest⟩ := (Multiset.singleton_eq_cons_iff _).mp (huploads.symm.trans htake)
    obtain rfl : k = n := UploadStage.attempt.inj hn
    cases heffect with
    | put => cases hfails
    | again reached hnext =>
      have hjobs := DedupQueue.jobs_advance (fun u : Upload ↦ u.task.remotePath) hu
        (show (⟨{ task with retryCycle := c }, data, .attempt (k + 1)⟩ : Upload).task.remotePath =
          task.remotePath from rfl)
      rw [hrest] at hjobs
      refine ⟨_, hplace (.uploading c (k + 1) data hwaiting hjobs), ?_⟩
      omega
    | gaveUp reached hlast hcycle =>
      refine ⟨0, hplace (.givenUp hwaiting hrest ?_), ?_⟩
      · exact decide_eq_false (Finset.notMem_erase _ _)
      · simp only [uploadAttempts, maxReenqueueCycles] at hlast hcycle ⊢
        omega
    | resent reached hlast hcycle =>
      have hpost := DedupQueue.waiting_post (fs.writeback.retire i)
        (show ({ task with retryCycle := c + 1 } : WritebackTask).remotePath = task.remotePath
          from rfl)
      rw [show (fs.writeback.retire i).waiting _ task.remotePath = 0 from hwaiting] at hpost
      refine ⟨_, hplace (.waiting (c + 1) hpost hrest), ?_⟩
      simp only [cycleAttempts, uploadAttempts, maxReenqueueCycles] at hlast hcycle ⊢
      omega
    | lost reached hdead =>
      rw [halive] at hdead
      cases hdead
  | waiting c hwaiting huploads | givenUp hwaiting huploads =>
    exact absurd (htake.symm.trans huploads) Multiset.cons_ne_zero

/-- One step takes one attempt off, or none. -/
private theorem Retrying.next (hdisk : task.inMemoryPayload = none) {l : Label}
    (h : Retrying task marked s.fs left) (hfails : AlwaysFails cfg task s l)
    (hstep : step cfg l s = some t) :
    ∃ m, Retrying task marked t.fs m ∧ (attempts task.remotePath s l).toNat + m = left := by
  obtain ⟨hattempts, hfail⟩ | hdequeues | ⟨hnone, hkept⟩ := hfails
  · cases l with
    | attempt i outcome =>
      obtain ⟨fs, hattempt, rfl⟩ := exists_workerStep hstep
      rw [hattempts]
      exact h.attempt hfail hattempts hattempt
    | _ => cases hattempts
  · cases l with
    | dequeue i =>
      obtain ⟨fs, hdequeue, rfl⟩ := exists_workerStep hstep
      obtain ⟨t, ht, hpath⟩ := (Option.any_eq_true _ _).mp hdequeues
      exact ⟨left, (h.dequeue hdisk ht (of_decide_eq_true hpath) hdequeue).1, Nat.zero_add left⟩
    | _ => cases hdequeues
  · have hview := hkept t hstep
    rw [hnone]
    refine ⟨left, ⟨hview ▸ h.standing, ?_, ?_, ?_⟩, Nat.zero_add left⟩
    · exact (congrArg TaskView.cacheFile hview).trans h.cacheFile
    · exact (congrArg TaskView.sidecar hview).trans h.sidecar
    · exact (congrArg TaskView.alive hview).trans h.alive

/-! ### The worker gets to the end -/

private theorem taskView_recv (hstep : step cfg .recv s = some t) :
    taskView task t.fs = taskView task s.fs := by
  obtain ⟨fs, hrecv, rfl⟩ := exists_workerStep hstep
  simp only [workerStep, workerRecv] at hrecv
  split at hrecv <;> cases hrecv
  rename_i q hq
  simp [taskView, DedupQueue.waiting_recv hq, DedupQueue.jobs_recv hq,
    (DedupQueue.tasks_recv Upload.task hq).2]

/-- A waiting task is received, after the tasks before it, and dequeued. -/
private theorem Retrying.exists_uploading (cfg : Config) (hdisk : task.inMemoryPayload = none)
    (h : Retrying task marked s.fs left) (hwaiting : (taskView task s.fs).waiting ≠ 0) :
    ∃ t, GuardedRun (step cfg) (AlwaysFails cfg task) s t ∧ Retrying task marked t.fs left ∧
      (taskView task t.fs).uploads ≠ 0 := by
  -- by induction on the channel: what is before the task is received first
  induction hchan : s.fs.writeback.chan generalizing s with
  | nil =>
    obtain ⟨w, hw⟩ := Multiset.exists_mem_of_ne_zero hwaiting
    simp only [taskView, DedupQueue.waiting, hchan, List.nil_append, Multiset.mem_filter,
      Multiset.mem_coe] at hw
    obtain ⟨i, hi⟩ := List.mem_iff_getElem?.mp hw.1
    obtain ⟨fs, hfs⟩ : ∃ fs, workerDequeue s.fs i = some fs := by
      simp only [workerDequeue, hi]
      split <;> exact ⟨_, rfl⟩
    have hguard : AlwaysFails cfg task s (.dequeue i) :=
      .inr (.inl (by simp [dequeues, hi, hw.2]))
    exact ⟨{ s with fs := fs }, .single ⟨_, hguard, by simp [step, workerStep, hfs]⟩,
      h.dequeue hdisk hi hw.2 hfs⟩
  | cons x rest ih =>
    have hguard : AlwaysFails cfg task s .recv :=
      .inr (.inr ⟨rfl, fun t hstep ↦ taskView_recv hstep⟩)
    obtain ⟨t, hstep, hrest⟩ : ∃ t, step cfg .recv s = some t ∧ t.fs.writeback.chan = rest := by
      simp only [step, workerStep, workerRecv, DedupQueue.recv, hchan]
      exact ⟨_, rfl, rfl⟩
    obtain ⟨m, hm, hleft⟩ := h.next hdisk hguard hstep
    obtain rfl : m = left := by simpa [attempts] using hleft
    obtain ⟨u, hrun, hu⟩ := ih hm (by rwa [taskView_recv hstep]) hrest
    exact ⟨u, .head ⟨.recv, hguard, hstep⟩ hrun, hu⟩

private theorem Standing.attempting {v : TaskView} {u : Upload} (h : Standing task v left)
    (hu : u ∈ v.uploads) : ∃ k, u.stage = .attempt k := by
  cases h with
  | uploading c k data _ hone =>
    rw [hone, Multiset.mem_singleton] at hu
    exact ⟨k, by rw [hu]⟩
  | waiting c _ hnone | givenUp _ hnone => simp [hnone] at hu

/-- A task with attempts left is on its way. -/
private theorem Standing.eq_zero {v : TaskView} (h : Standing task v left)
    (hwaiting : v.waiting = 0)
    (huploads : v.uploads = 0) : left = 0 ∧ v.registered = false := by
  cases h with
  | waiting c hone => simp [hone] at hwaiting
  | uploading c k data _ hone => simp [hone] at huploads
  | givenUp _ _ hregistered => exact ⟨rfl, hregistered⟩

private theorem Retrying.exists_attempt (cfg : Config) (h : Retrying task marked s.fs (left + 1))
    (huploads : (taskView task s.fs).uploads ≠ 0) :
    ∃ t, GuardedStep (step cfg) (AlwaysFails cfg task) s t ∧ Retrying task marked t.fs left := by
  obtain ⟨u, hu⟩ := Multiset.exists_mem_of_ne_zero huploads
  obtain ⟨k, hk⟩ := h.standing.attempting hu
  simp only [taskView, DedupQueue.jobs, Multiset.mem_filter, Multiset.mem_coe] at hu
  obtain ⟨i, hi⟩ := List.mem_iff_getElem?.mp hu.1
  obtain ⟨fs, hfs⟩ : ∃ fs, uploadAttempt s.fs i (.failed false) = some fs := by
    simp only [uploadAttempt, hi, hk]
    split <;> exact ⟨_, rfl⟩
  have hown : attempts task.remotePath s (.attempt i (.failed false)) = true := by
    simp [attempts, hi, hu.2]
  obtain ⟨m, hm, hleft⟩ := h.attempt rfl hown hfs
  obtain rfl : m = left := by omega
  exact ⟨{ s with fs := fs }, ⟨_, .inl ⟨hown, rfl⟩, by simp [step, workerStep, hfs]⟩, hm⟩

/-- The worker can always go on until the path is given up. -/
private theorem Retrying.exists_givenUp (cfg : Config) (hdisk : task.inMemoryPayload = none)
    (h : Retrying task marked s.fs left) :
    ∃ t, GuardedRun (step cfg) (AlwaysFails cfg task) s t ∧ Retrying task marked t.fs 0 := by
  induction left generalizing s with
  | zero => exact ⟨s, .refl, h⟩
  | succ left ih =>
    obtain ⟨t, hrun, ht, huploads⟩ : ∃ t, GuardedRun (step cfg) (AlwaysFails cfg task) s t ∧
        Retrying task marked t.fs (left + 1) ∧ (taskView task t.fs).uploads ≠ 0 := by
      by_cases huploads : (taskView task s.fs).uploads = 0
      · refine h.exists_uploading cfg hdisk (fun hwaiting ↦ ?_)
        exact absurd (h.standing.eq_zero hwaiting huploads).1 (Nat.succ_ne_zero left)
      · exact ⟨s, .refl, h, huploads⟩
    obtain ⟨u, hstep, hu⟩ := ht.exists_attempt cfg huploads
    obtain ⟨v, hrest, hv⟩ := ih hu
    exact ⟨v, (hrun.tail hstep).trans hrest, hv⟩

/-! ### The attempts of a task -/

private theorem tasksOf_eq_zero_iff : fs.tasksOf task.remotePath = 0 ↔
    (taskView task fs).waiting = 0 ∧ (taskView task fs).uploads = 0 := by
  refine ⟨fun h ↦ ⟨DedupQueue.waiting_eq_zero h, DedupQueue.jobs_eq_zero h⟩, ?_⟩
  rintro ⟨hwaiting, huploads⟩
  simp only [taskView, DedupQueue.waiting, DedupQueue.jobs, Multiset.filter_eq_nil,
    Multiset.mem_coe] at hwaiting huploads
  refine DedupQueue.inFlight_eq_zero_iff.mpr (fun t ht ↦ ?_)
  rcases List.mem_append.mp ht with hwaits | hruns
  · exact hwaiting t hwaits
  · obtain ⟨u, hu, rfl⟩ := List.mem_map.mp hruns
    exact huploads u hu

end

/-- The worker gives the path up after so many attempts. It can always get there; when no task of
the path is left the attempts were that many and the path is not registered, and nothing is sent
for it any more; the cache file stays, and so does a sidecar. -/
structure GivesUpAfter (cfg : Config) (task : WritebackTask) (s : Sys) (k : Nat) : Prop where
  ends : ∃ t, GuardedRun (step cfg) (AlwaysFails cfg task) s t ∧ t.fs.tasksOf task.remotePath = 0
  attempts : ∀ ls t, exec (step cfg) ls s = some t → Admits (step cfg) (AlwaysFails cfg task) ls s →
    t.fs.tasksOf task.remotePath = 0 →
      countSteps (step cfg) (attempts task.remotePath) ls s = k ∧
      task.remotePath ∉ t.fs.writeback.pending ∧
      ∀ u, GuardedRun (step cfg) (AlwaysFails cfg task) t u → u.fs.tasksOf task.remotePath = 0
  files : ∀ t, GuardedRun (step cfg) (AlwaysFails cfg task) s t →
    t.fs.disk.exists? task.writeBufferPath = true ∧
      (t.fs.disk.dirty task.writeBufferPath).isSome = (s.fs.disk.dirty task.writeBufferPath).isSome

/-- The task is the only one of its path, carries no bytes of its own, and waits with its cache file
in place and the worker running. -/
structure TaskReady (task : WritebackTask) (s : Sys) : Prop where
  diskBacked : task.inMemoryPayload = none
  waiting : s.fs.writeback.waiting WritebackTask.remotePath task.remotePath = {task}
  uploads : s.fs.writeback.jobs (·.task.remotePath) task.remotePath = 0
  cacheFile : s.fs.disk.exists? task.writeBufferPath = true
  alive : s.fs.receiverAlive = true

section

variable {cfg : Config} {task : WritebackTask} {marked : Bool} {s t : Sys}

/-- A run takes off as many attempts as it makes. -/
private theorem Retrying.run (hdisk : task.inMemoryPayload = none) {ls : List Label} {left : Nat}
    (hs : Retrying task marked s.fs left) (hrun : exec (step cfg) ls s = some t)
    (hadmits : Admits (step cfg) (AlwaysFails cfg task) ls s) :
    ∃ m, Retrying task marked t.fs m ∧
      countSteps (step cfg) (attempts task.remotePath) ls s + m = left :=
  countSteps_add_of_measure (fun s left ↦ Retrying task marked s.fs left)
    (fun _ _ _ _ hs ↦ hs.next hdisk) hs hrun hadmits

private theorem Retrying.eq_zero_iff {left : Nat} (h : Retrying task marked s.fs left) :
    s.fs.tasksOf task.remotePath = 0 ↔ left = 0 := by
  rw [tasksOf_eq_zero_iff]
  refine ⟨fun hnone ↦ (h.standing.eq_zero hnone.1 hnone.2).1, ?_⟩
  intro hzero
  cases h.standing with
  | waiting c => simp [cycleAttempts, uploadAttempts] at hzero
  | uploading c k data => simp at hzero
  | givenUp hwaiting huploads => exact ⟨hwaiting, huploads⟩

/-- The cycles of a task run from its own number to the last one inclusive. -/
theorem TaskReady.givesUpAfter (cfg : Config) (h : TaskReady task s) :
    GivesUpAfter cfg task s (cycleAttempts task.retryCycle) := by
  have hstart : Retrying task _ s.fs (cycleAttempts task.retryCycle) :=
    ⟨.waiting task.retryCycle h.waiting h.uploads, h.cacheFile, rfl, h.alive⟩
  refine ⟨?_, fun ls t hls hadmits hnone ↦ ?_, fun t hrun ↦ ?_⟩
  · obtain ⟨t, hrun, ht⟩ := hstart.exists_givenUp cfg h.diskBacked
    exact ⟨t, hrun, ht.eq_zero_iff.mpr rfl⟩
  · obtain ⟨m, hm, hcount⟩ := hstart.run h.diskBacked hls hadmits
    obtain rfl := hm.eq_zero_iff.mp hnone
    have hview := tasksOf_eq_zero_iff.mp hnone
    refine ⟨hcount, of_decide_eq_false (hm.standing.eq_zero hview.1 hview.2).2, fun u hrun ↦ ?_⟩
    obtain ⟨ls', hls', hadmits'⟩ := hrun.exists_exec
    obtain ⟨k, hk, hzero⟩ := hm.run h.diskBacked hls' hadmits'
    exact hk.eq_zero_iff.mpr (Nat.add_eq_zero_iff.mp hzero).2
  · obtain ⟨ls, hls, hadmits⟩ := hrun.exists_exec
    obtain ⟨m, hm, -⟩ := hstart.run h.diskBacked hls hadmits
    exact ⟨hm.cacheFile, hm.sidecar⟩

/-- A path is given up after one number of attempts only. -/
theorem GivesUpAfter.unique {k k' : Nat} (h : GivesUpAfter cfg task s k)
    (h' : GivesUpAfter cfg task s k') : k = k' := by
  obtain ⟨t, hrun, hnone⟩ := h.ends
  obtain ⟨ls, hls, hadmits⟩ := hrun.exists_exec
  exact (h.attempts ls t hls hadmits hnone).1.symm.trans (h'.attempts ls t hls hadmits hnone).1

/-- A task is attempted fifty times exactly when it starts in the cycle after the one a new task
starts in. -/
theorem gives_up_as_documented_iff (h : TaskReady task s) :
    GivesUpAfter cfg task s (uploadAttempts * maxReenqueueCycles) ↔ task.retryCycle = 1 := by
  have hafter := h.givesUpAfter cfg
  constructor
  · intro hdocumented
    have hcount := hdocumented.unique hafter
    simp only [cycleAttempts, uploadAttempts, maxReenqueueCycles] at hcount
    omega
  · intro hone
    rw [hone] at hafter
    exact hafter

end

/-- A task of `a` in a cycle. -/
def taskOfA (cycle : Nat) : WritebackTask :=
  { writebackTask (.plain .writes) 2 ['a'] none with retryCycle := cycle }

/-- A mount with that task in the channel, its cache file and its sidecar. -/
def taskSent (cycle : Nat) : Sys where
  fs := { MntrsFs.mounted (fun _ ↦ none)
      ((Disk.empty.create (taskOfA cycle).writeBufferPath [] 0).writeDirty
        (taskOfA cycle).writeBufferPath ['a']) with
    writeback := ⟨{['a']}, [taskOfA cycle], [], []⟩ }
  call := .idle
  written _ := none

theorem taskReady_taskSent (cycle : Nat) : TaskReady (taskOfA cycle) (taskSent cycle) where
  diskBacked := rfl
  waiting := by simp [DedupQueue.waiting, taskSent]
  uploads := rfl
  cacheFile := by simp [taskSent, MntrsFs.mounted, Disk.exists?, Disk.create, Disk.writeDirty]
  alive := rfl

/-- A task sent again once has fifty attempts left. -/
theorem gives_up_as_documented_iff_sample :
    TaskReady (taskOfA 1) (taskSent 1) ∧
      GivesUpAfter (.plain .writes) (taskOfA 1) (taskSent 1) 50 :=
  ⟨taskReady_taskSent 1, (gives_up_as_documented_iff (taskReady_taskSent 1)).mpr rfl⟩

/-- A new task is attempted fifty-five times. -/
theorem new_task_is_attempted_fifty_five_times :
    GivesUpAfter (.plain .writes) (taskOfA 0) (taskSent 0) 55 ∧
      ¬ GivesUpAfter (.plain .writes) (taskOfA 0) (taskSent 0)
        (uploadAttempts * maxReenqueueCycles) := by
  have hafter := (taskReady_taskSent 0).givesUpAfter (.plain .writes)
  refine ⟨hafter, fun hdocumented ↦ ?_⟩
  have hcount := hdocumented.unique hafter
  simp [cycleAttempts, uploadAttempts, maxReenqueueCycles, taskOfA] at hcount

end Mntrs

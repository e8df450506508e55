import Mathlib.Data.List.Nodup
import Mathlib.Data.List.Perm.Basic
import Mntrs.Base.Machine
import Mntrs.Writeback.Worker

/-!
# The order in which delayed uploads start

The loop of the writeback worker (`src/src/writeback.rs:465-550`) empties its channel into a
`DelayQueue`, where a task gets its deadline, and then waits: for the channel if the queue is
empty, else for the next entry of the queue, during which it does not look at the channel. A failed
upload sends its task again with one more cycle (`1001-1030`) and then cools down. The model has a
clock in milliseconds that may move on at any moment, and a send at any moment; the queue gives its
expired entries out by their deadlines, in any order where these are equal. Its runs are runs of the
mount's channel and queue, which leave the deadlines out.
-/

namespace Mntrs.Deadlines

open Base

/-- `REENQUEUE_COOLDOWN`. -/
def reenqueueCooldown : Nat := 60000

/-- What decides when a `WritebackTask` is uploaded; `Duration::MAX` is no delay of its own. -/
structure DelayedTask where
  remotePath : Path
  retryCycle : Nat
  perTaskDelay : Option Nat
deriving DecidableEq, Repr

/-- How long a task waits; `delay` is the delay the worker was spawned with. -/
def DelayedTask.waits (delay : Nat) (t : DelayedTask) : Nat :=
  if t.retryCycle = 0 then t.perTaskDelay.getD delay else reenqueueCooldown

/-- A task that was sent, with the number and the time of the send. -/
structure Sent where
  number : Nat
  task : DelayedTask
  sentAt : Nat
deriving DecidableEq, Repr

/-- An entry of the delay queue. -/
structure Queued where
  sent : Sent
  enqueueAt : Nat
deriving DecidableEq, Repr

/-- Where the loop stands: it empties the channel, waits for it, or waits for the queue. -/
inductive Stage where
  | draining | idle | waiting
deriving DecidableEq, Repr

/-- The worker, and the tasks it has dequeued so far. -/
structure Worker where
  clock : Nat
  sends : Nat
  chan : List Sent
  queue : List Queued
  stage : Stage
  dequeued : List Sent
deriving DecidableEq, Repr

/-- A worker that was just spawned. -/
def spawned : Worker := ⟨0, 0, [], [], .draining, []⟩

/-- Time passes, someone sends a task, the loop takes one from the channel, finds the channel
empty, or is given an entry of the queue. -/
inductive Label where
  | tick (ms : Nat)
  | send (t : DelayedTask)
  | take
  | drained
  | expire (i : Nat)
deriving DecidableEq, Repr

/-- The deadline of a task: when it was sent and its delay. -/
def Sent.deadline (delay : Nat) (a : Sent) : Nat := a.sentAt + a.task.waits delay

/-- The entry the loop makes of a task it takes now. -/
def Worker.enqueue (delay : Nat) (w : Worker) (a : Sent) : Queued :=
  ⟨a, w.clock + a.task.waits delay⟩

/-- An entry that the queue may give out. -/
def Worker.Expired (w : Worker) (b : Queued) : Prop :=
  b.enqueueAt ≤ w.clock ∧ ∀ x ∈ w.queue, b.enqueueAt ≤ x.enqueueAt

instance (w : Worker) (b : Queued) : Decidable (w.Expired b) := inferInstanceAs (Decidable (_ ∧ _))

/-- One step. -/
def step (delay : Nat) (l : Label) (w : Worker) : Option Worker :=
  match l with
  | .tick ms => some { w with clock := w.clock + ms }
  | .send t => some { w with sends := w.sends + 1, chan := w.chan ++ [⟨w.sends, t, w.clock⟩] }
  | .take =>
    match w.chan with
    | [] => none
    | a :: chan =>
      if w.stage = .waiting then none
      else some { w with
        chan := chan
        queue := w.queue ++ [w.enqueue delay a]
        stage := .draining }
  | .drained =>
    if w.stage = .draining ∧ w.chan = [] then
      some { w with stage := if w.queue = [] then .idle else .waiting }
    else none
  | .expire i =>
    match w.queue[i]? with
    | none => none
    | some b =>
      if w.stage = .waiting ∧ w.Expired b then
        some { w with
          queue := w.queue.eraseIdx i
          stage := .draining
          dequeued := w.dequeued ++ [b.sent] }
      else none

/-! ### The order of the deadlines -/

/-- The first task is sent before the deadline of the second has passed and has the earlier
deadline. -/
def Ahead (delay : Nat) (a b : Sent) : Prop :=
  a.sentAt < b.deadline delay ∧ a.deadline delay < b.deadline delay

instance (delay : Nat) (a b : Sent) : Decidable (Ahead delay a b) :=
  inferInstanceAs (Decidable (_ ∧ _))

/-- The tasks that were sent. -/
def Worker.tasks (w : Worker) : List Sent := w.chan ++ w.queue.map Queued.sent ++ w.dequeued

/-- A task that was dequeued has all those ahead of it before it. -/
def InOrder (delay : Nat) (w : Worker) : Prop :=
  ∀ j b, w.dequeued[j]? = some b → ∀ a ∈ w.tasks, Ahead delay a b → a ∈ w.dequeued.take j

/-- When the loop takes a task it is early enough for its entry to stand in the order of the
deadlines, and an entry is given out only while no task ahead of it waits in the channel. -/
def guard (delay : Nat) (w : Worker) : Label → Prop
  | .take => ∀ a ∈ w.chan.head?, ∀ x ∈ w.queue,
    (Ahead delay a x.sent → (w.enqueue delay a).enqueueAt < x.enqueueAt) ∧
    (Ahead delay x.sent a → x.enqueueAt < (w.enqueue delay a).enqueueAt)
  | .expire i => ∀ b ∈ w.queue[i]?, ∀ a ∈ w.chan, ¬ Ahead delay a b.sent
  | _ => True

instance (delay : Nat) (w : Worker) : (l : Label) → Decidable (guard delay w l)
  | .take => inferInstanceAs (Decidable (∀ a ∈ w.chan.head?, ∀ x ∈ w.queue, _ ∧ _))
  | .expire i => inferInstanceAs (Decidable (∀ b ∈ w.queue[i]?, ∀ a ∈ w.chan, ¬ _))
  | .tick _ | .send _ | .drained => isTrue trivial

/-- The queue stands in the order of the deadlines, and what was dequeued is in it. -/
structure Kept (delay : Nat) (w : Worker) : Prop where
  order : InOrder delay w
  past : ∀ b ∈ w.dequeued, b.deadline delay ≤ w.clock
  sent : ∀ a ∈ w.chan, a.sentAt ≤ w.clock
  late : ∀ x ∈ w.queue, x.sent.deadline delay ≤ x.enqueueAt
  queued : ∀ x ∈ w.queue, ∀ y ∈ w.queue, Ahead delay x.sent y.sent → x.enqueueAt < y.enqueueAt
  numbered : ∀ a ∈ w.tasks, a.number < w.sends
  distinct : w.tasks.Nodup

variable {delay : Nat} {w w' : Worker}

theorem not_ahead_self (a : Sent) : ¬ Ahead delay a a := fun h ↦ Nat.lt_irrefl _ h.2

theorem kept_spawned (delay : Nat) : Kept delay spawned := by
  constructor <;> simp [spawned, InOrder, Worker.tasks]

theorem Kept.tick (h : Kept delay w) (ms : Nat) : Kept delay { w with clock := w.clock + ms } :=
  { h with
    past := fun b hb ↦ Nat.le_add_right_of_le (h.past b hb)
    sent := fun a ha ↦ Nat.le_add_right_of_le (h.sent a ha) }

/-- What is sent now is not ahead of what was dequeued. -/
theorem Kept.send (h : Kept delay w) (t : DelayedTask) :
    Kept delay { w with sends := w.sends + 1, chan := w.chan ++ [⟨w.sends, t, w.clock⟩] } := by
  have htasks : ({ w with
      sends := w.sends + 1, chan := w.chan ++ [⟨w.sends, t, w.clock⟩] } : Worker).tasks.Perm
        (⟨w.sends, t, w.clock⟩ :: w.tasks) := by
    simp only [Worker.tasks, List.append_assoc, List.singleton_append]
    exact List.perm_middle
  refine ⟨fun j b hb a ha hahead ↦ ?_, h.past, fun a ha ↦ ?_, h.late, h.queued, fun a ha ↦ ?_, ?_⟩
  · rcases List.mem_cons.mp (htasks.mem_iff.mp ha) with rfl | ha
    · exact absurd (h.past b (List.mem_of_getElem? hb)) (Nat.not_le.mpr hahead.1)
    · exact h.order j b hb a ha hahead
  · rcases List.mem_append.mp ha with ha | ha
    · exact h.sent a ha
    · cases List.mem_singleton.mp ha
      exact Nat.le_refl _
  · rcases List.mem_cons.mp (htasks.mem_iff.mp ha) with rfl | ha
    · exact Nat.lt_succ_self _
    · exact Nat.lt_succ_of_lt (h.numbered a ha)
  · rw [htasks.nodup_iff]
    exact List.nodup_cons.mpr ⟨fun hmem ↦ Nat.lt_irrefl _ (h.numbered _ hmem), h.distinct⟩

/-- A task goes from the channel to its place in the queue. -/
theorem Kept.take {a : Sent} {chan : List Sent} (h : Kept delay w) (hchan : w.chan = a :: chan)
    (hguard : guard delay w .take) :
    Kept delay { w with
      chan := chan
      queue := w.queue ++ [w.enqueue delay a]
      stage := .draining } := by
  have htasks : ({ w with
      chan := chan
      queue := w.queue ++ [w.enqueue delay a]
      stage := .draining } : Worker).tasks.Perm w.tasks := by
    simp only [Worker.tasks, hchan, List.map_append, List.map_cons, List.map_nil, List.cons_append,
      List.append_assoc, List.nil_append, Worker.enqueue]
    rw [← List.append_assoc, ← List.append_assoc]
    exact List.perm_middle
  have hplace := hguard a (by simp [hchan])
  refine ⟨fun j b hb x hx ↦ h.order j b hb x (htasks.mem_iff.mp hx), h.past,
    fun x hx ↦ h.sent x (by simp [hchan, hx]), fun x hx ↦ ?_, fun x hx y hy hahead ↦ ?_,
    fun x hx ↦ h.numbered x (htasks.mem_iff.mp hx), htasks.nodup_iff.mpr h.distinct⟩
  · rcases List.mem_append.mp hx with hx | hx
    · exact h.late x hx
    · cases List.mem_singleton.mp hx
      exact Nat.add_le_add_right (h.sent a (by simp [hchan])) _
  · rcases List.mem_append.mp hx with hx | hx <;> rcases List.mem_append.mp hy with hy | hy
    · exact h.queued x hx y hy hahead
    · cases List.mem_singleton.mp hy
      exact (hplace x hx).2 hahead
    · cases List.mem_singleton.mp hx
      exact (hplace y hy).1 hahead
    · cases List.mem_singleton.mp hx
      cases List.mem_singleton.mp hy
      exact absurd hahead (not_ahead_self a)

/-- The state after an entry was given out. -/
def Worker.dequeue (w : Worker) (i : Nat) (b : Queued) : Worker :=
  { w with
    queue := w.queue.eraseIdx i
    stage := .draining
    dequeued := w.dequeued ++ [b.sent] }

variable {i : Nat} {b : Queued}

theorem tasks_dequeue (hb : w.queue[i]? = some b) : (w.dequeue i b).tasks.Perm w.tasks := by
  obtain ⟨hi, rfl⟩ := List.getElem?_eq_some_iff.mp hb
  have hqueue := (List.getElem_cons_eraseIdx_perm hi).map Queued.sent
  simp only [Worker.tasks, Worker.dequeue, List.append_assoc]
  refine List.Perm.append_left _ ?_
  rw [← List.append_assoc]
  refine List.perm_append_comm.trans ?_
  exact hqueue.append_right _

/-- The positions of the tasks that were dequeued, after one more. -/
theorem getElem?_concat_eq_some {l : List Sent} {x y : Sent} {j : Nat}
    (h : (l ++ [x])[j]? = some y) : l[j]? = some y ∧ j < l.length ∨ j = l.length ∧ y = x := by
  rcases Nat.lt_or_ge j l.length with hj | hj
  · rw [List.getElem?_append_left hj] at h
    exact .inl ⟨h, hj⟩
  · rw [List.getElem?_append_right hj, List.getElem?_singleton] at h
    split at h <;> cases h
    exact .inr ⟨by omega, rfl⟩

/-- An entry with the earliest deadline of the queue has nothing ahead of it there. -/
theorem Kept.dequeue (h : Kept delay w) (hb : w.queue[i]? = some b) (hexpired : w.Expired b)
    (hguard : guard delay w (.expire i)) : Kept delay (w.dequeue i b) := by
  have hmem := List.mem_of_getElem? hb
  have htasks := tasks_dequeue hb
  refine ⟨fun j c hc a ha hahead ↦ ?_, fun c hc ↦ ?_, h.sent,
    fun x hx ↦ h.late x (List.mem_of_mem_eraseIdx hx),
    fun x hx y hy ↦ h.queued x (List.mem_of_mem_eraseIdx hx) y (List.mem_of_mem_eraseIdx hy),
    fun a ha ↦ h.numbered a (htasks.mem_iff.mp ha), htasks.nodup_iff.mpr h.distinct⟩
  · have ha := htasks.mem_iff.mp ha
    rcases getElem?_concat_eq_some hc with ⟨hc, hj⟩ | ⟨rfl, rfl⟩
    · rw [Worker.dequeue, List.take_append_of_le_length (Nat.le_of_lt hj)]
      exact h.order j c hc a ha hahead
    · rw [Worker.dequeue, List.take_left]
      simp only [Worker.tasks, List.mem_append, List.mem_map] at ha
      rcases ha with (ha | ⟨x, hx, rfl⟩) | ha
      · exact absurd hahead (hguard b hb a ha)
      · exact absurd (h.queued x hx b hmem hahead) (Nat.not_lt.mpr (hexpired.2 x hx))
      · exact ha
  · rcases List.mem_append.mp hc with hc | hc
    · exact h.past c hc
    · cases List.mem_singleton.mp hc
      exact Nat.le_trans (h.late b hmem) hexpired.1

theorem exists_of_expire (h : step delay (.expire i) w = some w') :
    ∃ b, w.queue[i]? = some b ∧ w.Expired b ∧ w' = w.dequeue i b := by
  unfold step at h
  cases hb : w.queue[i]? with
  | none => simp [hb] at h
  | some b =>
    simp only [hb] at h
    split at h <;> cases h
    rename_i hready
    exact ⟨b, rfl, hready.2, rfl⟩

theorem kept_step {l : Label} (h : Kept delay w) (hguard : guard delay w l)
    (hstep : step delay l w = some w') : Kept delay w' := by
  cases l with
  | tick ms =>
    cases hstep
    exact h.tick ms
  | send t =>
    cases hstep
    exact h.send t
  | take =>
    unfold step at hstep
    simp only at hstep
    split at hstep
    · cases hstep
    · next a chan hchan =>
      split at hstep <;> cases hstep
      exact h.take hchan hguard
  | drained =>
    unfold step at hstep
    simp only at hstep
    split at hstep <;> cases hstep
    exact { h with }
  | expire i =>
    obtain ⟨b, hb, hexpired, rfl⟩ := exists_of_expire hstep
    exact h.dequeue hb hexpired hguard

/-- An entry that is given out before a task ahead of it in the channel is out of order. -/
theorem guard_of_inOrder (hkept : Kept delay w) (hstep : step delay (.expire i) w = some w')
    (h : InOrder delay w') : guard delay w (.expire i) := by
  obtain ⟨b, hb, -, rfl⟩ := exists_of_expire hstep
  intro b' hb' a ha hahead
  cases Option.some.inj (hb.symm.trans hb')
  have htask : a ∈ w.tasks := by simp [Worker.tasks, ha]
  have hlast : (w.dequeue i b).dequeued[w.dequeued.length]? = some b.sent := by
    simp [Worker.dequeue]
  have hbefore := h _ _ hlast a ((tasks_dequeue hb).mem_iff.mpr htask) hahead
  rw [Worker.dequeue, List.take_left] at hbefore
  -- a task of the channel was not dequeued
  have hdisjoint := List.disjoint_of_nodup_append hkept.distinct
  exact hdisjoint (List.mem_append_left _ ha) hbefore

/-- In every run whose steps meet the condition the tasks are dequeued in the order of their
deadlines, and from there a dequeue keeps the order exactly when it meets the condition. -/
theorem dequeues_in_order (hrun : GuardedRun (step delay) (guard delay) spawned w) :
    InOrder delay w ∧ ∀ i w', step delay (.expire i) w = some w' →
      (InOrder delay w' ↔ guard delay w (.expire i)) := by
  have hkept := hrun.invariant (Kept delay) (fun _ _ _ h hg hs ↦ kept_step h hg hs)
    (kept_spawned delay)
  refine ⟨hkept.order, fun i w' hstep ↦ ⟨guard_of_inOrder hkept hstep, fun h ↦ ?_⟩⟩
  exact (kept_step hkept h hstep).order

/-- A retry that cools down. -/
def retry : DelayedTask := ⟨['r'], 1, none⟩

/-- A small file that is to be uploaded at once. -/
def smallFile : DelayedTask := ⟨['s'], 0, some 0⟩

/-- Both are sent before the worker waits. -/
def bothSent : List Label := [.send retry, .send smallFile, .take, .take, .drained, .expire 1]

/-- The small file goes first. -/
theorem dequeues_in_order_sample : ∃ w, exec (step 5000) bothSent spawned = some w ∧
    w.dequeued = [⟨1, smallFile, 0⟩] ∧ InOrder 5000 w := by
  have hrun : exec (step 5000) bothSent spawned =
      some ⟨0, 2, [], [⟨⟨0, retry, 0⟩, 60000⟩], .draining, [⟨1, smallFile, 0⟩]⟩ := rfl
  exact ⟨_, hrun, rfl, (dequeues_in_order (guardedRun_of_exec hrun (by decide))).1⟩

/-- The small file is sent while the worker waits for the retry. -/
def sentWhileWaiting : List Label :=
  [.send retry, .take, .drained, .tick 1, .send smallFile, .tick 59999, .expire 0]

/-- The small file, due at 1, is not looked at until the retry has cooled down. -/
theorem small_file_waits : ∃ w, exec (step 5000) sentWhileWaiting spawned = some w ∧
    w.clock = 60000 ∧ w.dequeued = [⟨0, retry, 0⟩] ∧ w.chan = [⟨1, smallFile, 1⟩] ∧
    Ahead 5000 ⟨1, smallFile, 1⟩ ⟨0, retry, 0⟩ :=
  ⟨_, rfl, rfl, rfl, rfl, by decide⟩

/-! ### The mount's queue -/

/-- What the mount's tasks and the delayed ones have in common. -/
def keyOf (t : WritebackTask) : Path × Nat := (t.remotePath, t.retryCycle)

/-- The same of a task that was sent. -/
def Sent.key (a : Sent) : Path × Nat := (a.task.remotePath, a.task.retryCycle)

/-- The mount's channel and queue hold the tasks of the worker. -/
structure Holds (fs : MntrsFs) (w : Worker) : Prop where
  alive : fs.receiverAlive = true
  chan : fs.writeback.chan.map keyOf = w.chan.map Sent.key
  queue : fs.writeback.queue.map keyOf = w.queue.map (Sent.key ∘ Queued.sent)

/-- What the mount does at a step. -/
def MountStep (l : Label) (fs fs' : MntrsFs) : Prop :=
  match l with
  | .tick _ | .drained => fs' = fs
  | .send t => ∃ task, keyOf task = (t.remotePath, t.retryCycle) ∧ fs' = sendTask fs task
  | .take => workerRecv fs = some fs'
  | .expire i => workerDequeue fs i = some fs'

theorem holds_workerDequeue {fs : MntrsFs} (h : Holds fs w) (hb : w.queue[i]? = some b) :
    ∃ fs', workerDequeue fs i = some fs' ∧ Holds fs' (w.dequeue i b) := by
  have hkey := congrArg (·[i]?) h.queue
  simp only [List.getElem?_map, hb] at hkey
  obtain ⟨task, htask, -⟩ := Option.map_eq_some_iff.mp hkey
  have herase : (fs.writeback.queue.eraseIdx i).map keyOf =
      (w.queue.eraseIdx i).map (Sent.key ∘ Queued.sent) := by
    rw [← List.eraseIdx_map, h.queue, List.eraseIdx_map]
  unfold workerDequeue
  simp only [htask]
  cases taskData fs task with
  | some data | none => exact ⟨_, rfl, h.alive, h.chan, herase⟩

theorem exists_mountStep {fs : MntrsFs} {l : Label} (h : Holds fs w)
    (hstep : step delay l w = some w') : ∃ fs', MountStep l fs fs' ∧ Holds fs' w' := by
  cases l with
  | tick ms =>
    cases hstep
    exact ⟨fs, rfl, h.alive, h.chan, h.queue⟩
  | send t =>
    cases hstep
    refine ⟨_, ⟨⟨0, t.remotePath, 0, none, false, t.retryCycle⟩, rfl, rfl⟩, ?_⟩
    rw [sendTask, if_pos h.alive]
    exact ⟨h.alive, by simp [DedupQueue.post, h.chan, keyOf, Sent.key], h.queue⟩
  | take =>
    unfold step at hstep
    simp only at hstep
    split at hstep
    · cases hstep
    · next a chan hchan =>
      split at hstep <;> cases hstep
      have hkeys := h.chan
      rw [hchan, List.map_cons, List.map_eq_cons_iff] at hkeys
      obtain ⟨task, rest, hmount, htask, hrest⟩ := hkeys
      have hrecv : fs.writeback.recv = some { fs.writeback with
          chan := rest, queue := fs.writeback.queue ++ [task] } := by
        simp [DedupQueue.recv, hmount]
      refine ⟨{ fs with
        writeback := { fs.writeback with chan := rest, queue := fs.writeback.queue ++ [task] }
        pendingCount := fs.pendingCount + 1 }, ?_, h.alive, hrest, ?_⟩
      · simp [MountStep, workerRecv, hrecv]
      · simp [h.queue, htask, Worker.enqueue]
  | drained =>
    unfold step at hstep
    simp only at hstep
    split at hstep <;> cases hstep
    exact ⟨fs, rfl, h.alive, h.chan, h.queue⟩
  | expire i =>
    obtain ⟨b, hb, -, rfl⟩ := exists_of_expire hstep
    exact holds_workerDequeue h hb

/-- Every run of the worker is one of the mount's channel and queue. -/
theorem exists_mountRun {guard : Worker → Label → Prop} {start : MntrsFs} (hstart : Holds start w)
    (hrun : GuardedRun (step delay) guard w w') :
    ∃ fs, Relation.ReflTransGen (fun fs fs' ↦ ∃ l, MountStep l fs fs') start fs ∧ Holds fs w' := by
  refine hrun.invariant (fun w ↦ ∃ fs, Relation.ReflTransGen _ start fs ∧ Holds fs w) ?_
    ⟨start, .refl, hstart⟩
  rintro w l w' ⟨fs, hreached, hholds⟩ - hstep
  obtain ⟨fs', hmount, hholds'⟩ := exists_mountStep hholds hstep
  exact ⟨fs', hreached.tail ⟨l, hmount⟩, hholds'⟩

end Mntrs.Deadlines

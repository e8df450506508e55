import Mntrs.System

/-!
# What a step does to the writeback queue

Every step of the machine moves the writeback queue by one operation of the keyed queue, or
leaves it alone. `queueEffect` says which, label by label, together with what the step found
in the state before; the accounts of the dedup set are derived from it.
-/

namespace Mntrs

open Base

variable {cfg : Config} {l : Label} {fs fs' : MntrsFs} {i : Nat} {s t : Sys}

/-- The writeback queue with its keys. -/
abbrev WritebackQueue := DedupQueue Path WritebackTask Upload

/-- The path a request in progress is about to hand to the worker. -/
def sending (cfg : Config) (s : Sys) : Option Path :=
  match s.call with
  | .writeSend c present => if present then some c.path else none
  | .flushSend c => if c.shouldEnqueue then some c.path else none
  | .releaseSend c =>
    if c.payload.isSome ∨ s.fs.disk.exists? (cfg.writeBufferPath c.path) then some c.path else none
  | _ => none

/-- What the hand-over of a request does: nothing, or a submission of a new task of its path. -/
def SendEffect (cfg : Config) (s : Sys) (q : WritebackQueue) : Prop :=
  q = s.fs.writeback ∨
    ∃ p task, sending cfg s = some p ∧ task.remotePath = p ∧ task.retryCycle = 0 ∧
      p ∉ s.fs.writeback.pending ∧ s.fs.receiverAlive = true ∧ q = s.fs.writeback.submit p task

/-- What an upload does: it goes on, it settles its path, or it sends its task again. Past its put
it never attempts another one, and sends a new task. -/
def UploadEffect (fs : MntrsFs) (i : Nat) (q : WritebackQueue) : Prop :=
  ∃ u, fs.writeback.running[i]? = some u ∧
    ((∃ u', u'.task = u.task ∧ (u'.attempting → u.attempting) ∧ q = fs.writeback.advance i u') ∨
      q = (fs.writeback.retire i).cancel u.task.remotePath ∨
      (fs.receiverAlive = true ∧ ∃ t, t.remotePath = u.task.remotePath ∧ t.ino = u.task.ino ∧
        (t.retryCycle = 0 ∨ u.attempting) ∧ q = (fs.writeback.retire i).post t) ∨
      (fs.receiverAlive = false ∧ q = fs.writeback.retire i))

/-- The path a step takes out of the dedup set on behalf of a request. -/
def cancels (cfg : Config) (s : Sys) : Label → Option Path
  | .fuse =>
    match s.call with
    | .unlinkLocal c => some c.path
    | _ => none
  | .unlink parent name _ => unlinkCancels cfg s.fs parent name
  | .forget ino nlookup => forgets s.fs ino nlookup
  | _ => none

/-- The path a step posts a task for without looking at the dedup set. -/
def recovers (s : Sys) : Label → Option Path
  | .recover n unreadable =>
    if s.fs.disk.exists? n ∧ unreadable = false then (s.fs.disk.dirty n).map trim else none
  | _ => none

/-- A request may take a path out of the dedup set. -/
def CancelEffect (cfg : Config) (s : Sys) (l : Label) (q : WritebackQueue) : Prop :=
  ∃ p, cancels cfg s l = some p ∧ q = s.fs.writeback.cancel p

/-- The queue after a step, by label. -/
def queueEffect (cfg : Config) (s : Sys) (q : WritebackQueue) : Label → Prop
  | .fuse => SendEffect cfg s q ∨ CancelEffect cfg s .fuse q
  | .unlink parent name env =>
    q = s.fs.writeback ∨ CancelEffect cfg s (.unlink parent name env) q
  | .forget ino nlookup => q = s.fs.writeback ∨ CancelEffect cfg s (.forget ino nlookup) q
  | .recover n unreadable => q = s.fs.writeback ∨
      ∃ t, recovers s (.recover n unreadable) = some t.remotePath ∧
        t.ino = inoRecoverySentinel ∧ t.retryCycle = 0 ∧ s.fs.receiverAlive = true ∧
        q = s.fs.writeback.post t
  | .recv => s.fs.writeback.recv = some q
  | .dequeue i => ∃ t, s.fs.writeback.queue[i]? = some t ∧
      ((∃ data, taskData s.fs t = some data ∧
          q = s.fs.writeback.start i ⟨t, data, .attempt 0⟩) ∨
        (taskData s.fs t = none ∧ q = s.fs.writeback.drop i))
  | .attempt i _ => UploadEffect s.fs i q
  | .upload i => UploadEffect s.fs i q
  | _ => q = s.fs.writeback

/-- The steps of the worker that count tasks. -/
def countsTasks : Label → Bool
  | .recv | .dequeue _ | .attempt .. => true
  | _ => false

/-- A request that is not modelled further may count tasks. -/
def recounts (s : Sys) : Label → Prop
  | .other fs => fs.pendingCount ≠ s.fs.pendingCount
  | _ => False

/-- What a step does to the queue, to the channel's receiver and to the count of tasks. No step
drops the receiver: the worker holds a sender of its own channel. And only the worker counts. -/
structure StepEffect (cfg : Config) (s : Sys) (l : Label) (fs : MntrsFs) : Prop where
  queue : queueEffect cfg s fs.writeback l
  alive : fs.receiverAlive = s.fs.receiverAlive
  count : countsTasks l = false → ¬ recounts s l → fs.pendingCount = s.fs.pendingCount

/-! ### Requests -/

private theorem sendEffect_enqueue {p : Path} (ino : Ino) (payload : Option Bytes)
    (hsend : sending cfg s = some p) :
    SendEffect cfg s (enqueueWriteback s.fs p (writebackTask cfg ino p payload)).2.writeback := by
  unfold enqueueWriteback
  split
  · split
    · exact .inl rfl
    · next hp =>
      split
      · next halive => exact .inr ⟨p, _, hsend, rfl, rfl, hp, halive, rfl⟩
      · exact .inl rfl
  · exact .inl rfl

/-- The progress of a request hands over its path, or cancels the path it unlinks, or leaves
the queue alone; it leaves the backend alone. -/
theorem stepEffect_continueCall (h : continueCall cfg s = some t) :
    StepEffect cfg s .fuse t.fs ∧ t.fs.backend = s.fs.backend := by
  unfold continueCall at h
  split at h
  · cases h
  · next c hcall =>
    obtain ⟨_, _, _, hframe⟩ := writeBuffer_frame cfg s.fs c
    split at h <;> next heq =>
      cases h
      rw [heq] at hframe
      simp only at hframe
      rw [hframe]
      exact ⟨⟨.inl (.inl rfl), rfl, fun _ _ ↦ rfl⟩, rfl⟩
  · cases h
    exact ⟨⟨.inl (.inl rfl), rfl, fun _ _ ↦ rfl⟩, rfl⟩
  · next c present hcall =>
    cases h
    have hsend : SendEffect cfg s (writeSend cfg s.fs c present).writeback := by
      unfold writeSend
      split
      · next hpresent => exact sendEffect_enqueue _ _ (by simp [sending, hcall, hpresent])
      · exact .inl rfl
    rw [writeSend_frame] at hsend ⊢
    exact ⟨⟨.inl hsend, rfl, fun _ _ ↦ rfl⟩, rfl⟩
  · next c hcall =>
    cases h
    obtain ⟨_, _, _, _, hframe⟩ := markDirty_frame cfg (writeIndex cfg s.fs c) c
    rw [writeFinish, hframe, writeIndex_frame]
    exact ⟨⟨.inl (.inl rfl), rfl, fun _ _ ↦ rfl⟩, rfl⟩
  · cases h
    rw [flushSidecar_frame]
    exact ⟨⟨.inl (.inl rfl), rfl, fun _ _ ↦ rfl⟩, rfl⟩
  · next c hcall =>
    cases h
    have hsend : SendEffect cfg s (flushSend cfg s.fs c).2.writeback := by
      unfold flushSend
      split
      · next hdue => exact sendEffect_enqueue _ _ (by simp [sending, hcall, hdue])
      · exact .inl rfl
    rw [flushSend_frame] at hsend ⊢
    exact ⟨⟨.inl hsend, rfl, fun _ _ ↦ rfl⟩, rfl⟩
  · cases h
    rw [flushClean_frame]
    exact ⟨⟨.inl (.inl rfl), rfl, fun _ _ ↦ rfl⟩, rfl⟩
  · cases h
    rw [releaseSidecar_frame]
    exact ⟨⟨.inl (.inl rfl), rfl, fun _ _ ↦ rfl⟩, rfl⟩
  · next c hcall =>
    cases h
    have hsend : SendEffect cfg s (releaseSend cfg s.fs c).writeback := by
      unfold releaseSend
      split
      · next hdue => exact sendEffect_enqueue _ _ (by simp [sending, hcall, hdue])
      · exact .inl rfl
    rw [releaseSend_frame] at hsend ⊢
    exact ⟨⟨.inl hsend, rfl, fun _ _ ↦ rfl⟩, rfl⟩
  · cases h
    rw [releaseDrop_frame]
    exact ⟨⟨.inl (.inl rfl), rfl, fun _ _ ↦ rfl⟩, rfl⟩
  · next c hcall =>
    cases h
    obtain ⟨_, _, _, _, _, _, hframe, -⟩ := unlinkLocal_frame cfg s.fs c
    rw [hframe]
    exact ⟨⟨.inr ⟨c.path, by simp only [cancels, hcall], rfl⟩, rfl, fun _ _ ↦ rfl⟩, rfl⟩

/-- The start of a request leaves the queue alone, cancels a path, or posts a recovered task. -/
theorem stepEffect_startCall (h : startCall cfg s l = some t) : StepEffect cfg s l t.fs := by
  unfold startCall at h
  split at h
  · split at h
    · next hbegin =>
      obtain ⟨_, hfs, -⟩ := writeBegin_frame hbegin
      cases h
      rw [hfs]
      exact ⟨rfl, rfl, fun _ _ ↦ rfl⟩
    · cases h
      exact ⟨rfl, rfl, fun _ _ ↦ rfl⟩
  · split at h <;> cases h <;> exact ⟨rfl, rfl, fun _ _ ↦ rfl⟩
  · split at h
    · cases h
      exact ⟨rfl, rfl, fun _ _ ↦ rfl⟩
    · cases h
      rw [releaseDrop_frame]
      exact ⟨rfl, rfl, fun _ _ ↦ rfl⟩
    · cases h
      exact ⟨rfl, rfl, fun _ _ ↦ rfl⟩
  · split at h
    · next hbegin =>
      obtain ⟨p, hp, hq, halive, hcount⟩ := unlinkBegin_inl hbegin
      cases h
      exact ⟨.inr ⟨p, hp, hq⟩, halive, fun _ _ ↦ hcount⟩
    · next hbegin =>
      obtain ⟨_, _, _, _, hfs⟩ := unlinkBegin_inr hbegin
      cases h
      rw [hfs]
      exact ⟨.inl rfl, rfl, fun _ _ ↦ rfl⟩
  · next ino nlookup =>
    cases h
    obtain ⟨hqueue, halive, hcount⟩ := forget_queue s.fs ino nlookup
    exact ⟨hqueue, halive, fun _ _ ↦ hcount⟩
  · cases h
    simp only [recoverSidecar]
    split
    · exact ⟨.inl rfl, rfl, fun _ _ ↦ rfl⟩
    · next text htext =>
      split
      · exact ⟨.inl rfl, rfl, fun _ _ ↦ rfl⟩
      · next hpresent =>
        split
        · exact ⟨.inl rfl, rfl, fun _ _ ↦ rfl⟩
        · next hreadable =>
          split
          · exact ⟨.inl rfl, rfl, fun _ _ ↦ rfl⟩
          · split
            · next halive =>
              refine ⟨.inr ⟨_, ?_, rfl, rfl, halive, rfl⟩, rfl, fun _ _ ↦ rfl⟩
              simp [recovers, htext, hpresent, hreadable]
            · exact ⟨.inl rfl, rfl, fun _ _ ↦ rfl⟩
  · split at h <;> cases h
    rename_i hsame
    exact ⟨hsame.1, hsame.2, fun _ hcount ↦ not_not.mp hcount⟩
  · cases h

/-! ### Workers -/

/-- Sending a task posts it, unless the receiver is gone. -/
theorem writeback_sendTask (fs : MntrsFs) (t : WritebackTask) :
    (sendTask fs t).writeback =
      if fs.receiverAlive then fs.writeback.post t else fs.writeback := by
  unfold sendTask
  split <;> rfl

theorem uploadEffect_attempt {outcome : PutOutcome} (h : uploadAttempt fs i outcome = some fs') :
    UploadEffect fs i fs'.writeback := by
  obtain ⟨u, n, hu, hn, heffect⟩ := attempted h
  have hattempting : u.attempting = true := by simp [Upload.attempting, hn]
  refine ⟨u, hu, ?_⟩
  cases heffect with
  | put => exact .inl ⟨{ u with stage := .removeSidecar }, rfl, fun _ ↦ hattempting, rfl⟩
  | again => exact .inl ⟨{ u with stage := .attempt (n + 1) }, rfl, fun _ ↦ hattempting, rfl⟩
  | gaveUp => exact .inr (.inl rfl)
  | resent _ _ _ halive =>
    exact .inr (.inr (.inl ⟨halive, { u.task with retryCycle := u.task.retryCycle + 1 }, rfl, rfl,
      .inr hattempting, rfl⟩))
  | lost _ hdead => exact .inr (.inr (.inr ⟨hdead, rfl⟩))

/-- A later step of an upload goes on, settles its path, or sends a task with the newer bytes. -/
theorem uploadEffect_step (h : uploadStep fs i = some fs') : UploadEffect fs i fs'.writeback := by
  unfold uploadStep at h
  split at h
  · cases h
  · next u hu =>
    refine ⟨u, hu, ?_⟩
    split at h
    · cases h
    · cases h
      exact .inl ⟨{ u with stage := .removeCache }, rfl, nofun, rfl⟩
    · cases h
      exact .inl ⟨{ u with stage := .compare }, rfl, nofun, rfl⟩
    · split at h
      · next current _ =>
        cases h
        refine .inr (.inr ?_)
        rw [writeback_sendTask]
        split
        · next halive =>
          exact .inl ⟨halive, { u.task with inMemoryPayload := some current, retryCycle := 0 }, rfl,
            rfl, .inl rfl, rfl⟩
        · next hdead => exact .inr ⟨Bool.eq_false_iff.mpr hdead, rfl⟩
      · cases h
        exact .inl ⟨{ u with stage := .removeBuffer }, rfl, nofun, rfl⟩
    · cases h
      exact .inl ⟨{ u with stage := .clear }, rfl, nofun, rfl⟩
    · cases h
      exact .inr (.inl rfl)

/-- A worker's step moves the queue by its label. -/
theorem stepEffect_workerStep (h : workerStep cfg s.fs l = some fs) : StepEffect cfg s l fs := by
  unfold workerStep at h
  split at h
  · unfold workerRecv at h
    split at h <;> cases h
    rename_i q hq
    exact ⟨hq, rfl, nofun⟩
  · unfold workerDequeue at h
    split at h
    · cases h
    · next t ht =>
      split at h
      · next data hdata =>
        cases h
        exact ⟨⟨t, ht, .inl ⟨data, hdata, rfl⟩⟩, rfl, nofun⟩
      · next hdata =>
        cases h
        exact ⟨⟨t, ht, .inr ⟨hdata, rfl⟩⟩, rfl, nofun⟩
  · have hqueue := uploadEffect_attempt h
    obtain ⟨_, _, _, rfl⟩ := uploadAttempt_frame h
    exact ⟨hqueue, rfl, nofun⟩
  · have hqueue := uploadEffect_step h
    obtain ⟨_, _, _, _, _, -, -, rfl⟩ := uploadStep_frame h
    exact ⟨hqueue, rfl, fun _ _ ↦ rfl⟩
  · unfold workerDropBlocks at h
    split at h <;> cases h
    rw [dropBlockCacheForPath_frame]
    exact ⟨rfl, rfl, fun _ _ ↦ rfl⟩
  · unfold poolExecute at h
    split at h <;> cases h
    exact ⟨rfl, rfl, fun _ _ ↦ rfl⟩
  · obtain ⟨_, _, _, rfl⟩ := pumpStep_frame h
    exact ⟨rfl, rfl, fun _ _ ↦ rfl⟩
  · cases h

/-- Every step moves the queue by its label. -/
theorem stepEffect (h : step cfg l s = some t) : StepEffect cfg s l t.fs := by
  unfold step at h
  split at h
  · exact (stepEffect_continueCall h).1
  all_goals
    split at h
    · first
        | exact stepEffect_startCall h
        | next hw =>
          cases h
          exact stepEffect_workerStep hw
    · cases h

end Mntrs

import Mntrs.Fs.Write

/-!
# The writeback worker

Models `src/src/writeback.rs`: the start-up recovery of `.dirty` sidecars (`254-351`) and the worker
of `spawn_with_off_mode_buffers` (`440-1040`). The worker's loop moves tasks from the channel to
the delay queue and from there to upload tasks; an upload makes up to five attempts and then
either settles or sends its task again, for at most `maxReenqueueCycles` cycles. The worker
holds a sender of its own channel, so the channel stays open as long as it runs.
-/

namespace Mntrs

open Base

/-- `MAX_REENQUEUE_CYCLES`. -/
def maxReenqueueCycles : Nat := 10

/-- The attempts of one cycle. -/
def uploadAttempts : Nat := 5

/-- `INO_RECOVERY_SENTINEL`: the inode number of recovered tasks. -/
def inoRecoverySentinel : Ino := 0

/-- The outcome of one upload attempt. A failed or timed-out attempt may have reached the
backend all the same. -/
inductive PutOutcome where
  | ok
  | failed (landed : Bool)
deriving DecidableEq, Repr

/-- `RecoveryStats`, `src/src/writeback.rs:181-200`. -/
structure RecoveryStats where
  recovered : Nat
  orphanSidecarsRemoved : Nat
  noSender : Nat
  sendFailed : Nat
  readFailed : Nat
deriving DecidableEq, Repr

/-- The sidecars counted in some bucket. -/
def RecoveryStats.total (s : RecoveryStats) : Nat :=
  s.recovered + s.orphanSidecarsRemoved + s.noSender + s.sendFailed + s.readFailed

/-- One sidecar of the recovery loop, `272-348`. The task is sent without entering the path into
the dedup set. -/
def recoverSidecar (cfg : Config) (unreadable : CacheName → Bool) (fs : MntrsFs)
    (stats : RecoveryStats) (n : CacheName) : MntrsFs × RecoveryStats :=
  match fs.disk.dirty n with
  | none => (fs, stats)
  | some text =>
    if fs.disk.exists? n = false then
      ({ fs with disk := fs.disk.removeDirty n },
        { stats with orphanSidecarsRemoved := stats.orphanSidecarsRemoved + 1 })
    else if unreadable n then (fs, { stats with readFailed := stats.readFailed + 1 })
    else if fs.writebackSender = false then (fs, { stats with noSender := stats.noSender + 1 })
    else if fs.receiverAlive then
      ({ fs with
          writeback := fs.writeback.post
            ⟨inoRecoverySentinel, trim text, n, none, cfg.cacheMode.deleteCacheOnSuccess, 0⟩ },
        { stats with recovered := stats.recovered + 1 })
    else (fs, { stats with sendFailed := stats.sendFailed + 1 })

/-- `recover_dirty_sidecars`, `src/src/writeback.rs:254-351`, over the names a directory scan
yields. -/
def recoverDirtySidecars (cfg : Config) (unreadable : CacheName → Bool) (names : List CacheName)
    (fs : MntrsFs) : MntrsFs × RecoveryStats :=
  names.foldl (fun (fs, stats) n ↦ recoverSidecar cfg unreadable fs stats n) (fs, ⟨0, 0, 0, 0, 0⟩)

/-- An upload that has yet to put its bytes. -/
def Upload.attempting (u : Upload) : Bool :=
  match u.stage with
  | .attempt _ => true
  | _ => false

/-- `tx.send` from the worker's side: a send to a dropped receiver is ignored. -/
def sendTask (fs : MntrsFs) (t : WritebackTask) : MntrsFs :=
  if fs.receiverAlive then { fs with writeback := fs.writeback.post t } else fs

/-- The worker receives a task into the delay queue. -/
def workerRecv (fs : MntrsFs) : Option MntrsFs :=
  match fs.writeback.recv with
  | none => none
  | some q => some { fs with writeback := q, pendingCount := fs.pendingCount + 1 }

/-- The bytes a task uploads: its payload, or the cache file as it is now. -/
def taskData (fs : MntrsFs) (t : WritebackTask) : Option Bytes :=
  match t.inMemoryPayload with
  | some payload => some payload
  | none => fs.disk.read t.writeBufferPath

/-- A task leaves the delay queue, `543-590`: it becomes an upload of the bytes it finds, or is
dropped with its sidecar when the cache file has vanished. The dedup set is left alone. -/
def workerDequeue (fs : MntrsFs) (i : Nat) : Option MntrsFs :=
  match fs.writeback.queue[i]? with
  | none => none
  | some t =>
    match taskData fs t with
    | some data => some { fs with writeback := fs.writeback.start i ⟨t, data, .attempt 0⟩ }
    | none =>
      some { fs with
        writeback := fs.writeback.drop i
        pendingCount := fs.pendingCount - 1
        disk := fs.disk.removeDirty t.writeBufferPath }

/-- The bytes of an upload reach the backend. -/
def putLanded (fs : MntrsFs) (u : Upload) : MntrsFs :=
  { fs with backend := Function.update fs.backend u.task.remotePath (some u.data) }

/-- A failed put may have reached the backend. -/
def putFailed (fs : MntrsFs) (u : Upload) (reached : Bool) : MntrsFs :=
  if reached then putLanded fs u else fs

/-- The end of a cycle without success, `957-1035`: the task is sent again, or given up after
the last cycle. -/
def uploadExhausted (fs : MntrsFs) (i : Nat) (u : Upload) : MntrsFs :=
  let next := u.task.retryCycle + 1
  if maxReenqueueCycles < next then
    { fs with
      writeback := (fs.writeback.retire i).cancel u.task.remotePath
      pendingCount := fs.pendingCount - 1 }
  else
    sendTask { fs with writeback := fs.writeback.retire i } { u.task with retryCycle := next }

/-- One attempt of an upload, `600-760,885-955`. -/
def uploadAttempt (fs : MntrsFs) (i : Nat) (outcome : PutOutcome) : Option MntrsFs :=
  match fs.writeback.running[i]? with
  | none => none
  | some u =>
    match u.stage with
    | .attempt n =>
      match outcome with
      | .ok =>
        some { putLanded fs u with
          writeback := fs.writeback.advance i { u with stage := .removeSidecar }
          pendingCount := fs.pendingCount - 1 }
      | .failed reached =>
        if n + 1 < uploadAttempts then
          some { putFailed fs u reached with
            writeback := fs.writeback.advance i { u with stage := .attempt (n + 1) } }
        else some (uploadExhausted (putFailed fs u reached) i u)
    | _ => none

/-- The off-mode bytes that have moved on since the upload took its copy. -/
def movedOn (fs : MntrsFs) (u : Upload) : Option Bytes :=
  match fs.offModeBuffers u.task.remotePath with
  | none => none
  | some b => if (fs.buffers b).data = u.data then none else some (fs.buffers b).data

/-- The steps of an upload after its success, `772-884`: the sidecar, the cache file in minimal
mode, the comparison with the off-mode buffer, that buffer's entry, and the dedup set. -/
def uploadStep (fs : MntrsFs) (i : Nat) : Option MntrsFs :=
  match fs.writeback.running[i]? with
  | none => none
  | some u =>
    let path := u.task.remotePath
    match u.stage with
    | .attempt _ => none
    | .removeSidecar =>
      some { fs with
        disk := if u.task.inMemoryPayload.isNone then fs.disk.removeDirty u.task.writeBufferPath
          else fs.disk
        writeback := fs.writeback.advance i { u with stage := .removeCache } }
    | .removeCache =>
      some { fs with
        disk := if u.task.deleteCacheOnSuccess && u.task.inMemoryPayload.isNone then
            fs.disk.removeWhole u.task.writeBufferPath
          else fs.disk
        writeback := fs.writeback.advance i { u with stage := .compare } }
    | .compare =>
      match movedOn fs u with
      | some current =>
        some (sendTask
          { fs with
            writeback := fs.writeback.retire i
            blockDrops := fs.blockDrops ++ [path] }
          { u.task with inMemoryPayload := some current, retryCycle := 0 })
      | none =>
        some { fs with writeback := fs.writeback.advance i { u with stage := .removeBuffer } }
    | .removeBuffer =>
      some { fs with
        offModeBuffers := Function.update fs.offModeBuffers path none
        writeback := fs.writeback.advance i { u with stage := .clear } }
    | .clear =>
      some { fs with
        writeback := (fs.writeback.retire i).cancel path
        blockDrops := fs.blockDrops ++ [path] }

/-- The blocking task that drops the block cache of an uploaded path. -/
def workerDropBlocks (cfg : Config) (fs : MntrsFs) : Option MntrsFs :=
  match fs.blockDrops with
  | [] => none
  | p :: rest => some (dropBlockCacheForPath cfg { fs with blockDrops := rest } p)

theorem putFailed_frame (fs : MntrsFs) (u : Upload) (reached : Bool) :
    putFailed fs u reached = { fs with backend := (putFailed fs u reached).backend } := by
  unfold putFailed
  split <;> rfl

theorem sendTask_frame (fs : MntrsFs) (t : WritebackTask) :
    sendTask fs t = { fs with writeback := (sendTask fs t).writeback } := by
  unfold sendTask
  split <;> rfl

/-- What an attempt of an upload comes to: its bytes are put, it is repeated, or it ends the cycle
and the path is given up, the task is sent again, or the task is lost with the receiver. -/
inductive Attempted (fs : MntrsFs) (i : Nat) (u : Upload) (n : Nat) :
    PutOutcome → MntrsFs → Prop
  | put : Attempted fs i u n .ok
      { putLanded fs u with
        writeback := fs.writeback.advance i { u with stage := .removeSidecar }
        pendingCount := fs.pendingCount - 1 }
  | again (reached : Bool) (hnext : n + 1 < uploadAttempts) :
    Attempted fs i u n (.failed reached)
      { putFailed fs u reached with
        writeback := fs.writeback.advance i { u with stage := .attempt (n + 1) } }
  | gaveUp (reached : Bool) (hlast : uploadAttempts ≤ n + 1)
      (hcycle : maxReenqueueCycles < u.task.retryCycle + 1) :
    Attempted fs i u n (.failed reached)
      { putFailed fs u reached with
        writeback := (fs.writeback.retire i).cancel u.task.remotePath
        pendingCount := fs.pendingCount - 1 }
  | resent (reached : Bool) (hlast : uploadAttempts ≤ n + 1)
      (hcycle : u.task.retryCycle + 1 ≤ maxReenqueueCycles) (halive : fs.receiverAlive = true) :
    Attempted fs i u n (.failed reached)
      { putFailed fs u reached with
        writeback := (fs.writeback.retire i).post
          { u.task with retryCycle := u.task.retryCycle + 1 } }
  | lost (reached : Bool) (hdead : fs.receiverAlive = false) :
    Attempted fs i u n (.failed reached)
      { putFailed fs u reached with writeback := fs.writeback.retire i }

variable {fs fs' : MntrsFs} {i : Nat} {outcome : PutOutcome}

theorem attempted (h : uploadAttempt fs i outcome = some fs') :
    ∃ u n, fs.writeback.running[i]? = some u ∧ u.stage = .attempt n ∧
      Attempted fs i u n outcome fs' := by
  unfold uploadAttempt at h
  split at h
  · cases h
  · next u hu =>
    split at h
    · next n hn =>
      refine ⟨u, n, hu, hn, ?_⟩
      split at h
      · cases h
        exact .put
      · next reached =>
        split at h
        · next hnext =>
          cases h
          exact .again reached hnext
        · next hlast =>
          cases h
          have hlast := Nat.not_lt.mp hlast
          unfold uploadExhausted sendTask
          simp only
          split
          · next hcycle => cases reached <;> exact .gaveUp _ hlast hcycle
          · next hcycle =>
            have hcycle := Nat.not_lt.mp hcycle
            split
            · next halive => cases reached <;> exact .resent _ hlast hcycle halive
            · next hdead =>
              have hdead := Bool.eq_false_iff.mpr hdead
              cases reached <;> exact .lost _ hdead
    · cases h

theorem uploadAttempt_frame (h : uploadAttempt fs i outcome = some fs') :
    ∃ backend writeback pendingCount, fs' =
      { fs with backend := backend, writeback := writeback, pendingCount := pendingCount } := by
  obtain ⟨u, n, -, -, heffect⟩ := attempted h
  cases heffect with
  | put => exact ⟨_, _, _, rfl⟩
  | _ reached =>
    rw [putFailed_frame]
    exact ⟨_, _, _, rfl⟩

/-- An upload past its put unlinks at most its sidecar or its cache file. -/
theorem uploadStep_frame (h : uploadStep fs i = some fs') :
    ∃ u disk writeback offModeBuffers blockDrops, fs.writeback.running[i]? = some u ∧
      disk ∈ [fs.disk, fs.disk.removeDirty u.task.writeBufferPath,
        fs.disk.removeWhole u.task.writeBufferPath] ∧
      fs' =
        { fs with
          disk := disk
          writeback := writeback
          offModeBuffers := offModeBuffers
          blockDrops := blockDrops } := by
  unfold uploadStep at h
  split at h
  · cases h
  · next u hu =>
    split at h
    · cases h
    · cases h
      refine ⟨u, _, _, _, _, hu, ?_, rfl⟩
      split <;> simp
    · cases h
      refine ⟨u, _, _, _, _, hu, ?_, rfl⟩
      split <;> simp
    · split at h
      · cases h
        rw [sendTask_frame]
        exact ⟨u, _, _, _, _, hu, .head _, rfl⟩
      · cases h
        exact ⟨u, _, _, _, _, hu, .head _, rfl⟩
    all_goals
      cases h
      exact ⟨u, _, _, _, _, hu, .head _, rfl⟩

end Mntrs

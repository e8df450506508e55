import Mntrs.Base.Machine
import Mntrs.Base.Notify
import Mntrs.Delete.PumpEffects

/-!
# Wake-ups of the delete pump

The deleter with its notification cell and with the calls that use it, cut at the points where
another thread can come in: `enqueue` checks the flag, queues the job and then notifies one task if
the queue was empty; `flush` raises the epoch and then notifies all; `cancel_pending` and
`fail_all_pending` (`src/src/concurrent_delete.rs:381-523` and `773-829`) go lock by lock. A slot
that has acknowledged an epoch creates a future, polls it and sleeps until it is notified.
-/

namespace Mntrs

open Base

/-- What a job is answered: the outcome of its batch, `Interrupted` by a cancel, or `BrokenPipe` by
the shutdown. -/
inductive DeleteReply where
  | closed (landed : Bool)
  | interrupted
  | brokenPipe
deriving DecidableEq, Repr

/-- A slot is between `Deleter::delete` and the push to its ledger. -/
def PumpStage.recording : PumpStage → Bool
  | record _ => true
  | _ => false

/-- The deleter and the calls in progress: those that may still queue a job, those that have yet to
notify one task or all, and the replies that were sent, each with its channel. -/
structure DeleterSys where
  state : DeleteState
  notify : Notify
  entering : List Path
  notifying : Nat
  flushing : Nat
  sent : List (Nat × DeleteReply)

/-- A deleter right after `spawn`. -/
def DeleterSys.spawned (backend : Path → Option Bytes) (tombs : Finset Path)
    (workerCount : Nat) : DeleterSys :=
  ⟨⟨backend, tombs, .spawn workerCount⟩, .new, [], 0, 0, []⟩

/-- The steps of the calls and of the slots. -/
inductive DeleterLabel where
  | enqueue (path : Path)
  | push (i : Nat)
  | notifyOne
  | cancelQueue (path : Path)
  | cancelLedger (slot : Nat) (path : Path)
  | clearTombstone (path : Path)
  | flushBegin
  | notifyWaiters
  | stopAccepting
  | failClose (slot : Nat) (keys : List Path) (landed : Bool)
  | failQueue
  | failLedger (slot : Nat)
  | pump (l : PumpLabel)
  | create (slot : Nat)
  | poll (slot : Nat)
deriving DecidableEq, Repr

namespace DeleterSys

/-- Replace the deleter. -/
def setDeleter (s : DeleterSys) (d : ConcurrentDeleter) : DeleterSys :=
  { s with state := { s.state with deleter := d } }

/-- The second half of `enqueue`: the job is queued, and one task is notified afterwards if the
queue was empty. -/
def push (s : DeleterSys) (path : Path) : DeleterSys :=
  let d := s.state.deleter
  { s.setDeleter { d with
      pending := d.pending ++ [⟨path, d.nextJob, d.barrierEpoch⟩]
      nextJob := d.nextJob + 1 } with
    notifying := if d.pending = [] then s.notifying + 1 else s.notifying }

/-- The jobs of a list that a call answers, with its reply. -/
def replies (jobs : List PendingDelete) (drop : PendingDelete → Bool) (reply : DeleteReply) :
    List (Nat × DeleteReply) :=
  (jobs.filter drop).map (fun job ↦ (job.resultTx, reply))

/-- Some jobs of the queue are answered and leave it. -/
def dropQueued (s : DeleterSys) (drop : PendingDelete → Bool) (reply : DeleteReply) :
    DeleterSys :=
  let d := s.state.deleter
  { s.setDeleter { d with pending := d.pending.filter (fun job ↦ !drop job) } with
    sent := s.sent ++ replies d.pending drop reply }

/-- Some jobs of a ledger are answered and leave it. -/
def dropRecorded (s : DeleterSys) (k : Nat) (slot : DeleterSlot) (drop : PendingDelete → Bool)
    (reply : DeleteReply) : DeleterSys :=
  let d := s.state.deleter
  { s.setDeleter { d with
      slots := d.slots.set k { slot with ledger := slot.ledger.filter (fun job ↦ !drop job) } } with
    sent := s.sent ++ replies slot.ledger drop reply }

/-- Clear the tombstones of some paths. -/
def clearTombs (s : DeleterSys) (paths : List Path) : DeleterSys :=
  { s with state := { s.state with tombs := s.state.tombs.filter (· ∉ paths) } }

/-- The close that `fail_all_pending` asks the batch deleter of a slot for: the backend executes
some deletes, and all of them if it lands. -/
def failClose (s : DeleterSys) (k : Nat) (slot : DeleterSlot) (keys : List Path) (landed : Bool) :
    DeleterSys :=
  let d := s.state.deleter
  if landed then
    { s with
      state := { s.state with
        backend := deleteObjects s.state.backend slot.batch
        deleter := { d with slots := d.slots.set k { slot with batch := [] } } } }
  else
    { s with
      state := { s.state with
        backend := deleteObjects s.state.backend (slot.batch.filter (· ∈ keys)) } }

/-- The reply to the job that a slot resolves. -/
def resolvedBy (slot : DeleterSlot) (action : PumpAction) : List (Nat × DeleteReply) :=
  match action, slot.stage with
  | .resolve, .resolve landed (job :: _) => [(job.resultTx, .closed landed)]
  | _, _ => []

end DeleterSys

/-- A step of a slot, which a sleeping one takes only when it is notified. -/
def slotPump (s : DeleterSys) (l : PumpLabel) : Option DeleterSys :=
  match s.state.deleter.slots[l.slot]? with
  | none => none
  | some slot =>
    if l.action = .wake then
      if s.notify.task l.slot = .notified then
        (s.state.pump l).map
          (fun state ↦ { s with state := state, notify := s.notify.resume l.slot })
      else none
    else
      (s.state.pump l).map
        (fun state ↦ { s with
          state := state
          sent := s.sent ++ DeleterSys.resolvedBy slot l.action })

/-- One step. -/
def deleterStep (l : DeleterLabel) (s : DeleterSys) : Option DeleterSys :=
  match l with
  | .enqueue path =>
    if s.state.deleter.accepting then some { s with entering := s.entering ++ [path] } else none
  | .push i =>
    s.entering[i]?.map (fun path ↦ { s.push path with entering := s.entering.eraseIdx i })
  | .notifyOne =>
    if 0 < s.notifying then
      some { s with notifying := s.notifying - 1, notify := s.notify.notifyOne }
    else none
  | .cancelQueue path => some (s.dropQueued (fun job ↦ job.relativePath = path) .interrupted)
  | .cancelLedger k path => s.state.deleter.slots[k]?.map (fun slot ↦
      s.dropRecorded k slot (fun job ↦ job.relativePath = path) .interrupted)
  | .clearTombstone path => some (s.clearTombs [path])
  | .flushBegin =>
    some { s.setDeleter s.state.deleter.flushBegin with flushing := s.flushing + 1 }
  | .notifyWaiters =>
    if 0 < s.flushing then
      some { s with flushing := s.flushing - 1, notify := s.notify.notifyWaiters }
    else none
  | .stopAccepting => some (s.setDeleter { s.state.deleter with accepting := false })
  | .failClose k keys landed =>
    match s.state.deleter.slots[k]? with
    | none => none
    -- the slot holds the lock of its batch deleter until the job is recorded
    | some slot => if slot.stage.recording then none else some (s.failClose k slot keys landed)
  | .failQueue =>
    let paths := s.state.deleter.pending.map PendingDelete.relativePath
    some ((s.dropQueued (fun _ ↦ true) .brokenPipe).clearTombs paths)
  | .failLedger k => s.state.deleter.slots[k]?.map (fun slot ↦
      (s.dropRecorded k slot (fun _ ↦ true) .brokenPipe).clearTombs
        (slot.ledger.map PendingDelete.relativePath))
  | .pump l => slotPump s l
  | .create k =>
    match s.state.deleter.slots[k]? with
    | some slot =>
      if slot.stage = .wait ∧ s.notify.task k = .idle then
        some { s with notify := s.notify.create k }
      else none
    | none => none
  | .poll k =>
    match s.notify.task k with
    | .created _ => some { s with notify := s.notify.poll k }
    | _ => none

/-- A slot's step is the effect of its stage, and a sleeping slot goes on once it is notified. -/
theorem slotPump_cases {s t : DeleterSys} {l : PumpLabel} (h : slotPump s l = some t) :
    ∃ slot s' slot', s.state.deleter.slots[l.slot]? = some slot ∧
      SlotEffect s.state slot l.action s' slot' ∧
      (l.action = .wake ∧ s.notify.task l.slot = .notified ∧
          t = { s with
            state := s'.setSlot l.slot slot'
            notify := s.notify.resume l.slot } ∨
        l.action ≠ .wake ∧
          t = { s with
            state := s'.setSlot l.slot slot'
            sent := s.sent ++ DeleterSys.resolvedBy slot l.action }) := by
  unfold slotPump at h
  split at h
  · cases h
  · next slot hslot =>
    split at h
    · next hwake =>
      split at h
      · next hnotified =>
        obtain ⟨state, hpump, rfl⟩ := Option.map_eq_some_iff.mp h
        obtain ⟨slot₁, s', slot', hslot₁, heffect, rfl⟩ := DeleteState.pump_cases hpump
        exact ⟨slot₁, s', slot', hslot₁, heffect, .inl ⟨hwake, hnotified, rfl⟩⟩
      · cases h
    · next hwake =>
      obtain ⟨state, hpump, rfl⟩ := Option.map_eq_some_iff.mp h
      obtain ⟨slot₁, s', slot', hslot₁, heffect, rfl⟩ := DeleteState.pump_cases hpump
      cases Option.some.inj (hslot.symm.trans hslot₁)
      exact ⟨slot, s', slot', hslot, heffect, .inr ⟨hwake, rfl⟩⟩

/-- A slot that waits only goes back to the queue. -/
theorem SlotEffect.of_wait {s s' : DeleteState} {slot slot' : DeleterSlot} {a : PumpAction}
    (h : SlotEffect s slot a s' slot') (hstage : slot.stage = .wait) (ha : a ≠ .wake) :
    slot' = slot ∧ s'.deleter = s.deleter := by
  cases h with
  | request => exact ⟨rfl, rfl⟩
  | wake => exact absurd rfl ha
  | _ => simp_all

end Mntrs

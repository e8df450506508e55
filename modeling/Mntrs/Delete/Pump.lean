import Mntrs.Model.State

/-!
# The delete pump

Models `src/src/concurrent_delete.rs`: `enqueue`, `cancel_pending`, `flush`, and `pump_loop` with
`flush_with_retry` as the steps of one slot, cut wherever another thread can come in; and the two
ways the mount deletes on the backend, `enqueue_backend_delete` and `delete_backend_strict`
(`src/src/lib.rs:2037-2118`). A slot takes jobs off the shared queue one by one, hands each path to
its batch deleter, records it, and closes the batch. The batch deleter is opendal's: it buffers
the keys it is given until a request that contains them succeeds. A wake-up may come at any
time.
-/

namespace Mntrs

/-- `DEFAULT_MAX_RETRIES`. -/
def deleteMaxRetries : Nat := 3

/-- The number of buffered keys at which opendal's deleter sends a request on its own. -/
def maxBatchSize : Nat := 1000

/-- `opendal_to_io_error`, `src/src/util.rs:640-656`. -/
def opendalToIoError (e : ErrorKind) (op : String) : IoError :=
  let kind : IoErrorKind := match e with
    | .notFound => .notFound
    | .alreadyExists => .alreadyExists
    | .permissionDenied => .permissionDenied
    | .isADirectory => .isADirectory
    | .notADirectory => .notADirectory
    | .unsupported => .unsupported
    | .rateLimited => .wouldBlock
    | _ => .other
  ⟨kind, op ++ " failed", some e⟩

/-- The jobs a stage holds. -/
def PumpStage.jobs : PumpStage → List PendingDelete
  | delete job => [job]
  | record job => [job]
  | close _ toFlush => toFlush
  | resolve _ toFlush => toFlush
  | _ => []

/-- The jobs in the custody of a slot. -/
def DeleterSlot.jobs (s : DeleterSlot) : List PendingDelete := s.ledger ++ s.stage.jobs

/-- The paths a slot holds. -/
def DeleterSlot.held (s : DeleterSlot) : List Path :=
  s.jobs.map PendingDelete.relativePath ++ s.batch

/-- A request of the slot's batch deleter is running: a close, or the flush of a full buffer. -/
def DeleterSlot.requesting (s : DeleterSlot) : Bool :=
  match s.stage with
  | .record _ => decide (maxBatchSize ≤ s.batch.length)
  | .close _ _ => true
  | _ => false

namespace ConcurrentDeleter

/-- `enqueue`: a closed deleter takes no job. -/
def enqueue (d : ConcurrentDeleter) (path : Path) : Option ConcurrentDeleter :=
  if d.accepting then
    some { d with
      pending := d.pending ++ [⟨path, d.nextJob, d.barrierEpoch⟩]
      nextJob := d.nextJob + 1 }
  else none

/-- The start of `flush`: the caller waits for the new epoch. -/
def flushBegin (d : ConcurrentDeleter) : ConcurrentDeleter :=
  { d with barrierEpoch := d.barrierEpoch + 1 }

/-- The end of `flush`: every slot acknowledged the epoch. The result is the sum of the sizes of
the slots' last batches. -/
def flushEnd (d : ConcurrentDeleter) (epoch : Nat) : Option Nat :=
  if d.slots.all (fun s ↦ epoch ≤ s.barrierAck) then
    some (d.slots.map DeleterSlot.lastFlushCount).sum
  else none

/-- Send an outcome on the channels of some jobs. -/
def send (outcomes : Nat → Option DeleteOutcome) (jobs : List PendingDelete)
    (outcome : DeleteOutcome) : Nat → Option DeleteOutcome :=
  fun i ↦ if i ∈ jobs.map PendingDelete.resultTx then some outcome else outcomes i

/-- The jobs of a path that `cancel_pending` finds: in the queue and in the ledgers. -/
def cancelled (d : ConcurrentDeleter) (path : Path) : List PendingDelete :=
  (d.pending ++ d.slots.flatMap DeleterSlot.ledger).filter (fun job ↦ job.relativePath = path)

/-- The queue and ledger half of `cancel_pending`. What the batch deleters buffer stays. -/
def cancel (d : ConcurrentDeleter) (path : Path) : ConcurrentDeleter :=
  let keep := fun job : PendingDelete ↦ decide (job.relativePath ≠ path)
  { d with
    pending := d.pending.filter keep
    slots := d.slots.map (fun s ↦ { s with ledger := s.ledger.filter keep })
    outcomes := send d.outcomes (d.cancelled path) .cancelled }

/-- The jobs that are not resolved. -/
def jobs (d : ConcurrentDeleter) : List PendingDelete :=
  d.pending ++ d.slots.flatMap DeleterSlot.jobs

/-- The paths that some part of the deleter still holds. -/
def held (d : ConcurrentDeleter) : List Path :=
  d.pending.map PendingDelete.relativePath ++ d.slots.flatMap DeleterSlot.held

end ConcurrentDeleter

/-- What the pump works on: the backend, the tombstones it shares with the mount, and the
deleter. -/
structure DeleteState where
  backend : Path → Option Bytes
  tombs : Finset Path
  deleter : ConcurrentDeleter

/-- What a slot does next, with what its backend calls answer. -/
inductive PumpAction where
  | pop
  /-- `Deleter::delete`: whether the key gets into the buffer, and whether a full buffer is
  flushed -/
  | delete (staged flushed : Bool)
  | record
  | take
  /-- the backend executes some deletes of a running request -/
  | request (keys : List Path)
  /-- the end of `Deleter::close` -/
  | close (landed : Bool)
  | resolve
  | load
  | store
  | wake
deriving DecidableEq, Repr

/-- A step of a slot. -/
structure PumpLabel where
  slot : Nat
  action : PumpAction
deriving DecidableEq, Repr

/-- Delete objects on the backend. -/
def deleteObjects (backend : Path → Option Bytes) (paths : List Path) : Path → Option Bytes :=
  fun p ↦ if p ∈ paths then none else backend p

/-- `cancel_pending`: the jobs of a path, and its tombstone in any case. -/
def cancelPending (s : DeleteState) (path : Path) : DeleteState :=
  { s with tombs := s.tombs.erase path, deleter := s.deleter.cancel path }

/-- One step of `pump_loop`, `src/src/concurrent_delete.rs:564-653`, with `flush_with_retry`,
`669-760`. A failed close is retried `deleteMaxRetries` times with the jobs back in the ledger,
then they are given up. -/
def slotStep (s : DeleteState) (slot : DeleterSlot) :
    PumpAction → Option (DeleteState × DeleterSlot)
  | .pop => match slot.stage, s.deleter.pending with
    | .drain, [] => some (s, { slot with stage := .take 0 })
    | .drain, job :: rest =>
      some ({ s with deleter := { s.deleter with pending := rest } },
        { slot with stage := .delete job })
    | _, _ => none
  | .delete staged flushed => match slot.stage with
    | .delete job =>
      let batch := if staged then slot.batch.insert job.relativePath else slot.batch
      if flushed ∧ maxBatchSize ≤ batch.length then
        some ({ s with backend := deleteObjects s.backend batch },
          { slot with batch := [], stage := .record job })
      else some (s, { slot with batch := batch, stage := .record job })
    | _ => none
  | .record => match slot.stage with
    | .record job => some (s, { slot with ledger := slot.ledger ++ [job], stage := .drain })
    | _ => none
  | .take => match slot.stage with
    | .take attempt =>
      if slot.ledger = [] then some (s, { slot with stage := .loadEpoch })
      else some (s, { slot with ledger := [], stage := .close attempt slot.ledger })
    | _ => none
  | .request keys =>
    if slot.requesting then
      some ({ s with backend := deleteObjects s.backend (slot.batch.filter (· ∈ keys)) }, slot)
    else none
  | .close landed => match slot.stage with
    | .close attempt toFlush =>
      if landed then
        some ({ s with backend := deleteObjects s.backend slot.batch },
          { slot with
            batch := []
            stage := .resolve true toFlush
            lastFlushCount := toFlush.length })
      else if attempt < deleteMaxRetries then
        some (s, { slot with ledger := slot.ledger ++ toFlush, stage := .take (attempt + 1) })
      else some (s, { slot with stage := .resolve false toFlush })
    | _ => none
  | .resolve => match slot.stage with
    | .resolve landed (job :: rest) =>
      some ({ s with
          tombs := s.tombs.erase job.relativePath
          deleter := { s.deleter with
            outcomes := ConcurrentDeleter.send s.deleter.outcomes [job] (.closed landed) } },
        { slot with stage := .resolve landed rest })
    | .resolve _ [] => some (s, { slot with stage := .loadEpoch })
    | _ => none
  | .load => match slot.stage with
    | .loadEpoch => some (s, { slot with stage := .storeAck s.deleter.barrierEpoch })
    | _ => none
  | .store => match slot.stage with
    | .storeAck epoch =>
      some (s, { slot with barrierAck := max slot.barrierAck epoch, stage := .wait })
    | _ => none
  | .wake => match slot.stage with
    | .wait => some (s, { slot with stage := .drain })
    | _ => none

/-- Put a slot back. -/
def DeleteState.setSlot (s : DeleteState) (i : Nat) (slot : DeleterSlot) : DeleteState :=
  { s with deleter := { s.deleter with slots := s.deleter.slots.set i slot } }

/-- A step of the pump. -/
def DeleteState.pump (s : DeleteState) (l : PumpLabel) : Option DeleteState :=
  match s.deleter.slots[l.slot]? with
  | none => none
  | some slot => (slotStep s slot l.action).map (fun r ↦ r.1.setSlot l.slot r.2)

/-- A step of the pump of a mount. -/
def pumpStep (fs : MntrsFs) (l : PumpLabel) : Option MntrsFs :=
  match fs.concurrentDeleter with
  | none => none
  | some d => (DeleteState.pump ⟨fs.backend, fs.deleteTombstones, d⟩ l).map (fun s ↦
    { fs with
      backend := s.backend
      deleteTombstones := s.tombs
      concurrentDeleter := some s.deleter })

/-- The steps of the pump while a request waits for it; a step that is not possible is none. -/
def runPump (fs : MntrsFs) (labels : List PumpLabel) : MntrsFs :=
  labels.foldl (fun fs l ↦ (pumpStep fs l).getD fs) fs

/-- The outcomes of the backend calls of a synchronous delete. -/
structure DeleteEnv where
  /-- error of `op.delete` -/
  failure : Option ErrorKind
  /-- what the pump does until the barrier is acknowledged or times out -/
  pump : List PumpLabel
deriving DecidableEq, Repr

/-- Every call succeeds. -/
def DeleteEnv.ok : DeleteEnv := ⟨none, []⟩

/-- `enqueue_backend_delete`: `none` without a deleter or with a closed one. -/
def enqueueBackendDelete (fs : MntrsFs) (path : Path) : Option MntrsFs :=
  match fs.concurrentDeleter with
  | none => none
  | some d => (d.enqueue path).map (fun d ↦ { fs with concurrentDeleter := some d })

/-- `ConcurrentDeleter::flush` of a mount, with the steps of the pump while it waits. -/
def flushDeleter (fs : MntrsFs) (d : ConcurrentDeleter) (pump : List PumpLabel) :
    Except IoError Nat × MntrsFs :=
  let fs := runPump { fs with concurrentDeleter := some d.flushBegin } pump
  match fs.concurrentDeleter.bind (fun d' ↦ d'.flushEnd (d.barrierEpoch + 1)) with
  | some total => (.ok total, fs)
  | none => (.error ⟨.timedOut, "concurrent_deleter: flush barrier timeout (30s)", none⟩, fs)

/-- `delete_backend_strict`: with a deleter, enqueue and wait for the barrier, whose success
says nothing about the batch; without one, `op.delete` with `NotFound` as success. -/
def deleteBackendStrict (fs : MntrsFs) (path : Path) (label : String) (env : DeleteEnv) :
    Except IoError Unit × MntrsFs :=
  match fs.concurrentDeleter with
  | some d =>
    let (result, fs) := flushDeleter fs ((d.enqueue path).getD d) env.pump
    (result.map (fun _ ↦ ()), fs)
  | none =>
    match env.failure with
    | none => (.ok (), { fs with backend := Function.update fs.backend path none })
    | some .notFound => (.ok (), fs)
    | some e => (.error (opendalToIoError e label), fs)

/-! ### What a step of the pump does -/

/-- The effects of a step of a slot, each with its guard. -/
inductive SlotEffect (s : DeleteState) (slot : DeleterSlot) :
    PumpAction → DeleteState → DeleterSlot → Prop where
  | drained (hstage : slot.stage = .drain) (hpending : s.deleter.pending = []) :
      SlotEffect s slot .pop s { slot with stage := .take 0 }
  | pop {job : PendingDelete} {rest : List PendingDelete} (hstage : slot.stage = .drain)
      (hpending : s.deleter.pending = job :: rest) :
      SlotEffect s slot .pop { s with deleter := { s.deleter with pending := rest } }
        { slot with stage := .delete job }
  | delete {job : PendingDelete} {staged flushed : Bool} {batch : List Path}
      (hstage : slot.stage = .delete job)
      (hbatch : batch = if staged then slot.batch.insert job.relativePath else slot.batch) :
      SlotEffect s slot (.delete staged flushed) s
        { slot with batch := batch, stage := .record job }
  | flush {job : PendingDelete} {staged flushed : Bool} {batch : List Path}
      (hstage : slot.stage = .delete job)
      (hbatch : batch = if staged then slot.batch.insert job.relativePath else slot.batch) :
      SlotEffect s slot (.delete staged flushed)
        { s with backend := deleteObjects s.backend batch }
        { slot with batch := [], stage := .record job }
  | record {job : PendingDelete} (hstage : slot.stage = .record job) :
      SlotEffect s slot .record s
        { slot with ledger := slot.ledger ++ [job], stage := .drain }
  | skip {attempt : Nat} (hstage : slot.stage = .take attempt) (hledger : slot.ledger = []) :
      SlotEffect s slot .take s { slot with stage := .loadEpoch }
  | take {attempt : Nat} (hstage : slot.stage = .take attempt) :
      SlotEffect s slot .take s { slot with ledger := [], stage := .close attempt slot.ledger }
  | request (keys : List Path) :
      SlotEffect s slot (.request keys)
        { s with backend := deleteObjects s.backend (slot.batch.filter (· ∈ keys)) } slot
  | land {attempt : Nat} {toFlush : List PendingDelete}
      (hstage : slot.stage = .close attempt toFlush) :
      SlotEffect s slot (.close true) { s with backend := deleteObjects s.backend slot.batch }
        { slot with
          batch := []
          stage := .resolve true toFlush
          lastFlushCount := toFlush.length }
  | retry {attempt : Nat} {toFlush : List PendingDelete}
      (hstage : slot.stage = .close attempt toFlush) (hattempt : attempt < deleteMaxRetries) :
      SlotEffect s slot (.close false) s
        { slot with ledger := slot.ledger ++ toFlush, stage := .take (attempt + 1) }
  | giveUp {attempt : Nat} {toFlush : List PendingDelete}
      (hstage : slot.stage = .close attempt toFlush) (hattempt : deleteMaxRetries ≤ attempt) :
      SlotEffect s slot (.close false) s { slot with stage := .resolve false toFlush }
  | resolve {landed : Bool} {job : PendingDelete} {rest : List PendingDelete}
      (hstage : slot.stage = .resolve landed (job :: rest)) :
      SlotEffect s slot .resolve
        { s with
          tombs := s.tombs.erase job.relativePath
          deleter := { s.deleter with
            outcomes := ConcurrentDeleter.send s.deleter.outcomes [job] (.closed landed) } }
        { slot with stage := .resolve landed rest }
  | finish {landed : Bool} (hstage : slot.stage = .resolve landed []) :
      SlotEffect s slot .resolve s { slot with stage := .loadEpoch }
  | load (hstage : slot.stage = .loadEpoch) :
      SlotEffect s slot .load s { slot with stage := .storeAck s.deleter.barrierEpoch }
  | store {epoch : Nat} (hstage : slot.stage = .storeAck epoch) :
      SlotEffect s slot .store s
        { slot with barrierAck := max slot.barrierAck epoch, stage := .wait }
  | wake (hstage : slot.stage = .wait) :
      SlotEffect s slot .wake s { slot with stage := .drain }

variable {s t : DeleteState} {l : PumpLabel}

/-- Every step of a slot has one of the effects. -/
theorem slotEffect_of_slotStep {s' : DeleteState} {slot slot' : DeleterSlot} {a : PumpAction}
    (h : slotStep s slot a = some (s', slot')) : SlotEffect s slot a s' slot' := by
  cases a <;> simp only [slotStep] at h
  case pop =>
    split at h <;> cases h
    · exact .drained ‹_› ‹_›
    · exact .pop ‹_› ‹_›
  case delete staged flushed =>
    split at h
    · next job hstage =>
      generalize hbatch : (if staged = true then slot.batch.insert job.relativePath
        else slot.batch) = batch at h
      split at h <;> cases h
      · exact .flush hstage hbatch.symm
      · exact .delete hstage hbatch.symm
    · cases h
  case record =>
    split at h <;> cases h
    exact .record ‹_›
  case take =>
    split at h
    · next attempt hstage =>
      split at h
      · next hledger =>
        cases h
        exact .skip hstage hledger
      · cases h
        exact .take hstage
    · cases h
  case request keys =>
    split at h <;> cases h
    exact .request keys
  case close landed =>
    split at h
    · next attempt toFlush hstage =>
      split at h
      · next hlanded =>
        cases h
        cases hlanded
        exact .land hstage
      · next hlanded =>
        rw [Bool.not_eq_true] at hlanded
        cases hlanded
        split at h
        · next hattempt =>
          cases h
          exact .retry hstage hattempt
        · next hattempt =>
          cases h
          exact .giveUp hstage (Nat.le_of_not_lt hattempt)
    · cases h
  case resolve =>
    split at h <;> cases h
    · exact .resolve ‹_›
    · exact .finish ‹_›
  case load =>
    split at h <;> cases h
    exact .load ‹_›
  case store =>
    split at h <;> cases h
    exact .store ‹_›
  case wake =>
    split at h <;> cases h
    exact .wake ‹_›

/-- A step of the pump is one of a slot. -/
theorem DeleteState.exists_slotStep (h : s.pump l = some t) :
    ∃ slot s' slot', s.deleter.slots[l.slot]? = some slot ∧
      slotStep s slot l.action = some (s', slot') ∧ t = s'.setSlot l.slot slot' := by
  unfold DeleteState.pump at h
  split at h
  · cases h
  · next slot hslot =>
    obtain ⟨⟨s', slot'⟩, hstep, rfl⟩ := Option.map_eq_some_iff.mp h
    exact ⟨slot, s', slot', hslot, hstep, rfl⟩

/-- A step of the pump is the effect of one slot. -/
theorem DeleteState.pump_cases (h : s.pump l = some t) :
    ∃ slot s' slot', s.deleter.slots[l.slot]? = some slot ∧ SlotEffect s slot l.action s' slot' ∧
      t = s'.setSlot l.slot slot' := by
  obtain ⟨slot, s', slot', hslot, hstep, ht⟩ := DeleteState.exists_slotStep h
  exact ⟨slot, s', slot', hslot, slotEffect_of_slotStep hstep, ht⟩

theorem pumpStep_frame {fs fs' : MntrsFs} (h : pumpStep fs l = some fs') :
    ∃ backend tombs deleter, fs' =
      { fs with
        backend := backend
        deleteTombstones := tombs
        concurrentDeleter := deleter } := by
  unfold pumpStep at h
  split at h
  · cases h
  · obtain ⟨s, -, rfl⟩ := Option.map_eq_some_iff.mp h
    exact ⟨_, _, _, rfl⟩

theorem runPump_frame (fs : MntrsFs) (labels : List PumpLabel) :
    ∃ backend tombs deleter, runPump fs labels =
      { fs with
        backend := backend
        deleteTombstones := tombs
        concurrentDeleter := deleter } := by
  induction labels generalizing fs with
  | nil => exact ⟨_, _, _, rfl⟩
  | cons l labels ih =>
    obtain ⟨b, tombs, d, hrest⟩ := ih ((pumpStep fs l).getD fs)
    refine ⟨b, tombs, d, ?_⟩
    change runPump ((pumpStep fs l).getD fs) labels = _
    rw [hrest]
    cases hstep : pumpStep fs l with
    | none => rfl
    | some fs' =>
      obtain ⟨b', tombs', d', rfl⟩ := pumpStep_frame hstep
      rfl

/-- A barrier leaves what the pump leaves while it waits. -/
theorem flushDeleter_snd (fs : MntrsFs) (d : ConcurrentDeleter) (pump : List PumpLabel) :
    (flushDeleter fs d pump).2 =
      runPump { fs with concurrentDeleter := some d.flushBegin } pump := by
  unfold flushDeleter
  simp only
  split <;> rfl

theorem deleteBackendStrict_frame (fs : MntrsFs) (path : Path) (label : String)
    (env : DeleteEnv) :
    (deleteBackendStrict fs path label env).2 =
      { fs with
        backend := (deleteBackendStrict fs path label env).2.backend
        concurrentDeleter := (deleteBackendStrict fs path label env).2.concurrentDeleter
        deleteTombstones := (deleteBackendStrict fs path label env).2.deleteTombstones } := by
  unfold deleteBackendStrict
  split
  · next d _ =>
    obtain ⟨b, tombs, d', hrun⟩ := runPump_frame
      { fs with concurrentDeleter := some ((d.enqueue path).getD d).flushBegin } env.pump
    rw [flushDeleter_snd, hrun]
  · split <;> rfl

end Mntrs

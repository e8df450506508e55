import Mathlib.Algebra.GroupWithZero.Nat
import Mntrs.Base.Machine
import Mntrs.Model.Path

/-!
# The prefetcher of a handle

Models `src/src/prefetcher.rs`: `PartQueue` (`35-213`), the download loop of
`HandlePrefetcher::new` (`691-967`) with `read_and_push` (`546-647`), `pop` (`1013-1043`) and
`cancel` (`981-993`). The loop is cut where other threads can run in between: at its top, while a
range read runs, before a push, and after the last iteration. The answers of the memory limiter
and of the backend and the windows of the backpressure controller come with the steps. Overflow of
the offset and a clamp with crossed bounds are the panics of the loop.
-/

namespace Mntrs

open Base

/-- `Part`. -/
structure Part where
  offset : Nat
  data : Bytes
deriving DecidableEq, Repr

/-- The first offset after a part. -/
def Part.stop (part : Part) : Nat := part.offset + part.data.length

/-- `PartQueue`, with the cancel flag it shares. -/
structure PartQueue where
  parts : List Part
  maxBytes : Nat
  currentBytes : Nat
  finished : Bool
  error : Option String
  cancelled : Bool
deriving DecidableEq, Repr

/-- `PushOutcome`, with the queue after a push that lands. -/
inductive PushOutcome where
  | ok (queue : PartQueue)
  | cancelled
  | full
  | overlap (backEnd : Nat)
deriving DecidableEq, Repr

namespace PartQueue

/-- `PartQueue::new`. -/
def new (maxBytes : Nat) : PartQueue := ⟨[], maxBytes, 0, false, none, false⟩

/-- `is_terminal`. -/
def isTerminal (q : PartQueue) : Bool := q.finished || q.error.isSome || q.cancelled

/-- `is_full_for`. -/
def isFullFor (q : PartQueue) (len : Nat) : Bool := decide (q.maxBytes < q.currentBytes + len)

/-- `push`. -/
def push (q : PartQueue) (part : Part) : PushOutcome :=
  let landed := PushOutcome.ok { q with
    parts := q.parts ++ [part]
    currentBytes := q.currentBytes + part.data.length }
  if q.isTerminal then .cancelled
  else if q.isFullFor part.data.length then .full
  else match q.parts.getLast? with
    | some back => if part.offset < back.stop then .overlap back.stop else landed
    | none => landed

/-- The loop of `pop`: parts that end before the offset are dropped until one covers it or starts
after it. -/
def popLoop (offset : Nat) : List Part → Nat → Option Part × List Part × Nat
  | [], bytes => (none, [], bytes)
  | front :: rest, bytes =>
    if front.offset ≤ offset ∧ offset < front.stop then
      (some front, rest, bytes - front.data.length)
    else if front.stop ≤ offset then popLoop offset rest (bytes - front.data.length)
    else (none, front :: rest, bytes)

/-- `pop`. -/
def pop (q : PartQueue) (offset : Nat) : Option Part × PartQueue :=
  let (part, parts, bytes) := popLoop offset q.parts q.currentBytes
  (part, { q with parts := parts, currentBytes := bytes })

/-- `set_finished`. -/
def setFinished (q : PartQueue) : PartQueue := { q with finished := true }

/-- `set_error`. -/
def setError (q : PartQueue) (err : String) : PartQueue := { q with error := some err }

/-- The bytes of the queued parts. -/
def queuedBytes (q : PartQueue) : Nat := (q.parts.map (fun part ↦ part.data.length)).sum

end PartQueue

/-- What a prefetcher is made with. The controller asserts the order of its windows. -/
structure PrefetchConfig where
  fileSize : Nat
  maxQueueBytes : Nat
  chunkSize : Nat
  minWindow : Nat
  maxWindow : Nat
  min_le_max : minWindow ≤ maxWindow

/-- A file of five bytes, read in windows of two to four. -/
def fiveBytes : PrefetchConfig := ⟨5, 8, 4, 2, 4, by decide⟩

/-- `Ord::clamp`, which panics when its bounds are crossed. -/
def clamp? (x low high : Nat) : Option Nat :=
  if low ≤ high then some (max low (min x high)) else none

/-- The size of the first chunk. -/
def PrefetchConfig.firstChunk (cfg : PrefetchConfig) : Nat :=
  max cfg.minWindow (min cfg.chunkSize cfg.maxWindow)

/-- Where the download thread stands: at the top of the loop, in a range read up to an offset with
some bytes reserved, with the part it read, after the loop, at its end, or dead. -/
inductive PrefetchStage where
  | top
  | reading (reserved stop : Nat)
  | pushing (reserved stop : Nat) (part : Part)
  | leaving
  | ended
  | panicked
deriving DecidableEq, Repr

/-- A prefetcher: the locals of its download thread, its queue and flags, the bytes it has reserved
with the memory limiter, and the bytes of the pops that have yet to give them back. -/
structure Prefetcher where
  stage : PrefetchStage
  offset : Nat
  consecutiveTransient : Nat
  localWindowOverride : Option Nat
  stickyMaxWindow : Option Nat
  queue : PartQueue
  downloadDone : Bool
  reserved : Int
  inFlightReserved : UInt64
  releasing : List Nat
deriving DecidableEq, Repr

/-- `HandlePrefetcher::new`. -/
def Prefetcher.start (cfg : PrefetchConfig) : Prefetcher :=
  ⟨.top, 0, 0, none, none, .new cfg.maxQueueBytes, false, 0, 0, []⟩

/-- What a range read comes to: bytes, an error that `is_transient_range_read_error` knows, or
another one. -/
inductive RangeRead where
  | ok (data : Bytes)
  | transient
  | failed (message : String)
deriving DecidableEq, Repr

/-- `MAX_CONSECUTIVE_TRANSIENT_READ_ERRORS`. -/
def maxConsecutiveTransientReadErrors : Nat := 5

/-- `apply_sticky_floor`. -/
def applyStickyFloor (current : Option Nat) (newWindow : Nat) : Option Nat :=
  match current with
  | none => some newWindow
  | some floor => some (min floor newWindow)

namespace Prefetcher

/-- A successful `try_reserve` of the download thread. -/
def reserve (s : Prefetcher) (n : Nat) : Prefetcher :=
  { s with reserved := s.reserved + n, inFlightReserved := s.inFlightReserved + UInt64.ofNat n }

/-- `release` with the counter of the prefetcher. -/
def release (s : Prefetcher) (n : Nat) : Prefetcher :=
  { s with reserved := s.reserved - n, inFlightReserved := s.inFlightReserved - UInt64.ofNat n }

/-- The bytes the download thread holds reserved for the part it works on. -/
def inHand (s : Prefetcher) : Nat :=
  match s.stage with
  | .reading reserved _ | .pushing reserved _ _ => reserved
  | _ => 0

/-- The window of an iteration, `757-764`: what a transient error left for the retry, else the
first chunk or the controller's window under the sticky floor. -/
def nextWindow (cfg : PrefetchConfig) (s : Prefetcher) (currentWindow : Nat) : Nat :=
  match s.localWindowOverride with
  | some w => w
  | none =>
    let w := if s.offset = 0 then cfg.firstChunk else currentWindow
    match s.stickyMaxWindow with
    | some floor => min w floor
    | none => w

/-- The end of the chunk of an iteration, in the file. -/
def chunkEnd (cfg : PrefetchConfig) (s : Prefetcher) (currentWindow : Nat) : Nat :=
  min (s.offset + nextWindow cfg s currentWindow) cfg.fileSize

/-- One iteration up to its range read, `735-819`: the answers of the limiter are those to the
chunk and to the halved chunk. A chunk that cannot be reserved is skipped. -/
def iterate (cfg : PrefetchConfig) (s : Prefetcher) (currentWindow : Nat)
    (fits shrunkFits : Bool) : Prefetcher :=
  if ¬ s.offset < cfg.fileSize ∨ s.queue.cancelled then { s with stage := .leaving }
  else if 2 ^ 64 ≤ s.offset + nextWindow cfg s currentWindow then { s with stage := .panicked }
  else
    let stop := chunkEnd cfg s currentWindow
    let chunk := stop - s.offset
    let s := { s with localWindowOverride := none }
    if fits then { s.reserve chunk with stage := .reading chunk stop }
    else match clamp? (chunk / 2) cfg.minWindow chunk with
      | none => { s with stage := .panicked }
      | some shrunk =>
        if shrunkFits then
          { s.reserve shrunk with stage := .reading shrunk (min (s.offset + shrunk) cfg.fileSize) }
        else { s with offset := s.offset + shrunk }

/-- A transient error, `861-890` and `915-961`: the reservation goes back, and the range is tried
again with half the window, five times in a row at most. -/
def transientError (cfg : PrefetchConfig) (s : Prefetcher) (reserved : Nat) : Prefetcher :=
  let n := s.consecutiveTransient + 1
  let s := { s.release reserved with consecutiveTransient := n }
  if maxConsecutiveTransientReadErrors < n then
    { s with
      queue := s.queue.setError ("prefetch gave up after " ++ toString n ++
        " consecutive transient range errors")
      stage := .leaving }
  else match clamp? (reserved / 2) cfg.minWindow reserved with
    | none => { s with stage := .panicked }
    | some newWindow =>
      { s with
        stickyMaxWindow := applyStickyFloor s.stickyMaxWindow newWindow
        localWindowOverride := some newWindow
        stage := .top }

/-- The end of a range read. -/
def finishRead (cfg : PrefetchConfig) (s : Prefetcher) (reserved stop : Nat) :
    RangeRead → Prefetcher
  | .ok data => { s with stage := .pushing reserved stop ⟨s.offset, data⟩ }
  | .transient => s.transientError cfg reserved
  | .failed message =>
    { s.release reserved with
      queue := s.queue.setError ("prefetch read failed: " ++ message)
      stage := .leaving }

/-- The push of a part, `589-646`; `none` while the thread is parked on a full queue. -/
def pushPart (s : Prefetcher) (reserved stop : Nat) (part : Part) : Option Prefetcher :=
  if s.queue.isTerminal then some { s.release reserved with stage := .leaving }
  else if s.queue.isFullFor reserved then none
  else match s.queue.push part with
    | .ok queue =>
      some { s with queue := queue, consecutiveTransient := 0, offset := stop, stage := .top }
    | .cancelled => some { s.release reserved with stage := .leaving }
    | .full => none
    | .overlap backEnd =>
      some { s.release reserved with consecutiveTransient := 0, offset := backEnd, stage := .top }

/-- `pop`, up to the end of its lock: what it took is given back in a step of its own. -/
def popPart (s : Prefetcher) (offset : Nat) : Prefetcher :=
  let (part, queue) := s.queue.pop offset
  let taken := match part with
    | some part => [part.data.length]
    | none => []
  { s with queue := queue, releasing := s.releasing ++ taken }

end Prefetcher

/-- The steps of the download thread, and those of the readers of the handle. -/
inductive PrefetchLabel where
  | iterate (currentWindow : Nat) (fits shrunkFits : Bool)
  | read (outcome : RangeRead)
  | push
  | leave
  | pop (offset : Nat)
  | release (i : Nat)
  | cancel
deriving DecidableEq, Repr

/-- The steps of the download thread. -/
def PrefetchLabel.ofThread : PrefetchLabel → Bool
  | .iterate _ _ _ | .read _ | .push | .leave => true
  | .pop _ | .release _ | .cancel => false

/-- One step of a prefetcher. -/
def prefetchStep (cfg : PrefetchConfig) (l : PrefetchLabel) (s : Prefetcher) : Option Prefetcher :=
  match l, s.stage with
  | .iterate w fits shrunkFits, .top => some (s.iterate cfg w fits shrunkFits)
  | .read outcome, .reading reserved stop => some (s.finishRead cfg reserved stop outcome)
  | .push, .pushing reserved stop part => s.pushPart reserved stop part
  | .leave, .leaving =>
    some { s with queue := s.queue.setFinished, downloadDone := true, stage := .ended }
  | .pop offset, _ => some (s.popPart offset)
  | .release i, _ =>
    s.releasing[i]?.map (fun n ↦ { s.release n with releasing := s.releasing.eraseIdx i })
  | .cancel, _ => some { s with queue := { s.queue with cancelled := true } }
  | _, _ => none

/-! ### The queue -/

variable {q : PartQueue} {part : Part}

namespace PartQueue

/-- A push that lands appends its part, which does not start before the end of the last one. -/
theorem push_eq_ok {q' : PartQueue} (h : q.push part = .ok q') :
    q' = { q with
      parts := q.parts ++ [part]
      currentBytes := q.currentBytes + part.data.length } := by
  simp only [push] at h
  split at h
  · cases h
  · split at h
    · cases h
    · split at h
      · split at h <;> cases h
        rfl
      · cases h
        rfl

/-- An overlap is with the last part. -/
theorem push_eq_overlap {backEnd : Nat} (h : q.push part = .overlap backEnd) :
    ∃ back ∈ q.parts, backEnd = back.stop ∧ part.offset < back.stop := by
  simp only [push] at h
  split at h
  · cases h
  · split at h
    · cases h
    · split at h
      · next back hback =>
        split at h <;> cases h
        rename_i hlt
        exact ⟨back, List.mem_of_getLast? hback, rfl, hlt⟩
      · cases h

/-- Only a queue without room for a part is full for it. -/
theorem push_eq_full (h : q.push part = .full) : q.isFullFor part.data.length = true := by
  simp only [push] at h
  split at h
  · cases h
  · split at h
    · assumption
    · split at h
      · split at h <;> cases h
      · cases h

theorem popLoop_spec (offset : Nat) (parts : List Part) :
    ∃ gone, parts = gone ++ (popLoop offset parts
        (parts.map (fun part ↦ part.data.length)).sum).2.1 ∧
      (popLoop offset parts (parts.map (fun part ↦ part.data.length)).sum).2.2 =
        ((popLoop offset parts (parts.map (fun part ↦ part.data.length)).sum).2.1.map
          (fun part ↦ part.data.length)).sum := by
  induction parts with
  | nil => exact ⟨[], rfl, rfl⟩
  | cons front rest ih =>
    have hsum : ((front :: rest).map (fun part ↦ part.data.length)).sum - front.data.length =
        (rest.map (fun part ↦ part.data.length)).sum := by simp
    rw [popLoop, hsum]
    split
    · exact ⟨[front], rfl, rfl⟩
    · split
      · obtain ⟨gone, hgone, hbytes⟩ := ih
        refine ⟨front :: gone, ?_, hbytes⟩
        rw [List.cons_append, ← hgone]
      · exact ⟨[], rfl, rfl⟩

/-- The count of a queue is that of its parts after a pop, if it was before. -/
theorem pop_spec (offset : Nat) (h : q.currentBytes = q.queuedBytes) :
    (q.pop offset).2.currentBytes = (q.pop offset).2.queuedBytes ∧
      (∀ part ∈ (q.pop offset).2.parts, part ∈ q.parts) ∧
      (q.pop offset).2 = { q with
        parts := (q.pop offset).2.parts
        currentBytes := (q.pop offset).2.currentBytes } := by
  obtain ⟨gone, hgone, hbytes⟩ := popLoop_spec offset q.parts
  simp only [pop, queuedBytes, h]
  refine ⟨hbytes, ?_, trivial⟩
  intro part hpart
  rw [hgone]
  exact List.mem_append_right _ hpart

end PartQueue

end Mntrs

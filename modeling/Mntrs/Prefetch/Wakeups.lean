import Mntrs.Prefetch.Prefetcher

/-!
# Wake-ups of the download thread

The lock of the part queue and its condition variable, cut where another thread can come in:
`read_and_push` (`src/src/prefetcher.rs:594-646`) looks at the terminal flags and at the room under
the lock and gives it up only by parking; `pop` (`1013-1023`) notifies under the lock if it freed
bytes; `cancel` (`982-992`) and the start of `drop` (`1060-1066`) set the flag without the lock and
then take it to notify.
-/

namespace Mntrs

open Base

/-- Where the download thread stands with a part: elsewhere, at the lock, inside it before and
after its look at the terminal flags, or parked. -/
inductive PusherPoint where
  | away
  | locking (reserved : Nat) (part : Part)
  | checking (reserved : Nat) (part : Part)
  | pushing (reserved : Nat) (part : Part)
  | parked (reserved : Nat) (part : Part)
deriving DecidableEq, Repr

/-- The thread holds the lock. -/
def PusherPoint.inside : PusherPoint → Bool
  | checking _ _ | pushing _ _ => true
  | away | locking _ _ | parked _ _ => false

/-- A notification: a parked thread goes for the lock. -/
def PusherPoint.notified : PusherPoint → PusherPoint
  | parked reserved part => locking reserved part
  | point => point

/-- A caller inside the lock, about to notify: after a pop that freed bytes or not, or in a
cancel. -/
inductive QueueCaller where
  | popped (freed : Bool)
  | cancel
deriving DecidableEq, Repr

/-- The queue, the thread, the caller inside the lock, and the number of cancels that have set the
flag and wait for the lock. -/
structure WakeState where
  queue : PartQueue
  pusher : PusherPoint
  caller : Option QueueCaller
  cancelling : Nat
deriving DecidableEq, Repr

/-- A new prefetcher. -/
def WakeState.start (maxBytes : Nat) : WakeState := ⟨.new maxBytes, .away, none, 0⟩

/-- The steps of the thread (with spurious wake-ups and the ends of a read that fails and of the
thread) and of the callers. -/
inductive WakeLabel where
  | arrive (reserved : Nat) (part : Part)
  | lock
  | check
  | push
  | spurious
  | setError (err : String)
  | setFinished
  | pop (offset : Nat)
  | popNotify
  | cancel
  | cancelLock
  | cancelNotify
deriving DecidableEq, Repr

/-- The thread at its look at the room, `609-645`: it parks or leaves the lock. -/
def WakeState.pushPart (s : WakeState) (reserved : Nat) (part : Part) : WakeState :=
  if s.queue.isFullFor reserved then { s with pusher := .parked reserved part }
  else match s.queue.push part with
    | .ok queue => { s with queue := queue, pusher := .away }
    | .cancelled | .overlap _ => { s with pusher := .away }
    | .full => { s with pusher := .parked reserved part }

/-- One step. -/
def wakeStep (l : WakeLabel) (s : WakeState) : Option WakeState :=
  match l, s.pusher, s.caller with
  | .arrive reserved part, .away, _ => some { s with pusher := .locking reserved part }
  | .lock, .locking reserved part, none => some { s with pusher := .checking reserved part }
  | .check, .checking reserved part, _ =>
    some { s with pusher := if s.queue.isTerminal then .away else .pushing reserved part }
  | .push, .pushing reserved part, _ => some (s.pushPart reserved part)
  | .spurious, .parked reserved part, _ => some { s with pusher := .locking reserved part }
  | .setError err, .away, none => some { s with queue := s.queue.setError err }
  | .setFinished, .away, none => some { s with queue := s.queue.setFinished }
  | .pop offset, _, none =>
    if s.pusher.inside then none
    else
      let queue := (s.queue.pop offset).2
      some { s with
        queue := queue
        caller := some (.popped (queue.currentBytes < s.queue.currentBytes)) }
  | .popNotify, _, some (.popped freed) =>
    some { s with pusher := if freed then s.pusher.notified else s.pusher, caller := none }
  | .cancel, _, _ =>
    some { s with queue := { s.queue with cancelled := true }, cancelling := s.cancelling + 1 }
  | .cancelLock, _, none =>
    if s.pusher.inside ∨ s.cancelling = 0 then none
    else some { s with caller := some .cancel, cancelling := s.cancelling - 1 }
  | .cancelNotify, _, some .cancel => some { s with pusher := s.pusher.notified, caller := none }
  | _, _, _ => none

/-- There is no room for the part, or for the range it was read for. -/
def PartQueue.TooFull (q : PartQueue) (reserved : Nat) (part : Part) : Prop :=
  q.isFullFor reserved = true ∨ q.isFullFor part.data.length = true

/-- The thread is past its look at the terminal flags. -/
def PusherPoint.past : PusherPoint → Bool
  | pushing _ _ | parked _ _ => true
  | away | locking _ _ | checking _ _ => false

/-- One holder of the lock; and a thread past its look at the flags has missed neither a flag nor
room without somebody on the way to wake it. -/
structure Watched (s : WakeState) : Prop where
  exclusive : s.caller.isSome → s.pusher.inside = false
  open_ : s.pusher.past = true → s.queue.finished = false ∧ s.queue.error = none
  flag : s.pusher.past = true → s.queue.cancelled = true →
    s.caller = some .cancel ∨ 0 < s.cancelling
  room : ∀ reserved part, s.pusher = .parked reserved part →
    s.queue.TooFull reserved part ∨ s.caller = some (.popped true)

variable {s t : WakeState}

private theorem past_notified (p : PusherPoint) : p.notified.past = true → p.inside = true := by
  cases p <;> simp [PusherPoint.notified, PusherPoint.past, PusherPoint.inside]

private theorem notified_ne_parked (p : PusherPoint) (reserved : Nat) (part : Part) :
    p.notified ≠ .parked reserved part := by
  cases p <;> simp [PusherPoint.notified]

/-- A notification under the lock leaves nobody parked. -/
private theorem Watched.notify (h : Watched s) (hcaller : s.caller.isSome) :
    Watched { s with pusher := s.pusher.notified, caller := none } := by
  have hout := h.exclusive hcaller
  have hpast : s.pusher.notified.past ≠ true := by
    intro hpast
    rw [past_notified _ hpast] at hout
    cases hout
  exact ⟨nofun, fun hp ↦ absurd hp hpast, fun hp ↦ absurd hp hpast,
    fun reserved part hp ↦ absurd hp (notified_ne_parked _ reserved part)⟩

private theorem Watched.push (h : Watched s) {reserved : Nat} {part : Part}
    (hpusher : s.pusher = .pushing reserved part) : Watched (s.pushPart reserved part) := by
  have hpast : s.pusher.past = true := by rw [hpusher]; rfl
  have hparked : s.queue.TooFull reserved part →
      Watched { s with pusher := .parked reserved part } := by
    intro hfull
    refine ⟨fun _ ↦ rfl, fun _ ↦ h.open_ hpast, fun _ ↦ h.flag hpast, fun reserved' part' hp ↦ ?_⟩
    cases hp
    exact .inl hfull
  unfold WakeState.pushPart
  split
  · next hfull => exact hparked (.inl hfull)
  · split
    · exact ⟨fun _ ↦ rfl, nofun, nofun, nofun⟩
    · exact ⟨fun _ ↦ rfl, nofun, nofun, nofun⟩
    · exact ⟨fun _ ↦ rfl, nofun, nofun, nofun⟩
    · next hfull => exact hparked (.inr (PartQueue.push_eq_full hfull))

private theorem currentBytes_pop_le (q : PartQueue) (offset : Nat) :
    (q.pop offset).2.currentBytes ≤ q.currentBytes := by
  suffices h : ∀ parts bytes, (PartQueue.popLoop offset parts bytes).2.2 ≤ bytes from h _ _
  intro parts
  induction parts with
  | nil => exact fun bytes ↦ Nat.le_refl bytes
  | cons front rest ih =>
    intro bytes
    rw [PartQueue.popLoop]
    split
    · exact Nat.sub_le _ _
    · split
      · exact Nat.le_trans (ih _) (Nat.sub_le _ _)
      · exact Nat.le_refl bytes

/-- A pop that frees nothing leaves the room as it is; one that frees bytes is about to notify. -/
private theorem Watched.pop (h : Watched s) (hfree : s.caller = none)
    (hout : s.pusher.inside = false) (offset : Nat) :
    Watched { s with
      queue := (s.queue.pop offset).2
      caller := some (.popped ((s.queue.pop offset).2.currentBytes < s.queue.currentBytes)) } := by
  refine ⟨fun _ ↦ hout, h.open_, fun hp hcancelled ↦ ?_, fun reserved part hp ↦ ?_⟩
  · exact .inr ((h.flag hp hcancelled).resolve_left (by simp [hfree]))
  · have hfull := (h.room reserved part hp).resolve_right (by simp [hfree])
    by_cases hless : (s.queue.pop offset).2.currentBytes < s.queue.currentBytes
    · exact .inr (by simp [hless])
    · left
      have hsame : (s.queue.pop offset).2.currentBytes = s.queue.currentBytes :=
        Nat.le_antisymm (currentBytes_pop_le _ _) (Nat.not_lt.mp hless)
      have hmax : (s.queue.pop offset).2.maxBytes = s.queue.maxBytes := rfl
      simpa only [PartQueue.TooFull, PartQueue.isFullFor, hsame, hmax] using hfull

/-- Every step keeps the thread watched. -/
theorem Watched.step {l : WakeLabel} (h : Watched s) (hstep : wakeStep l s = some t) :
    Watched t := by
  unfold wakeStep at hstep
  split at hstep
  · cases hstep
    exact ⟨fun _ ↦ rfl, nofun, nofun, nofun⟩
  · next hcaller =>
    cases hstep
    exact ⟨by simp [hcaller], nofun, nofun, nofun⟩
  · next hpusher =>
    cases hstep
    have hnone : s.caller.isSome → False := fun hsome ↦ by
      have := h.exclusive hsome
      simp [hpusher, PusherPoint.inside] at this
    by_cases hterminal : s.queue.isTerminal = true
    · simp only [hterminal, if_true]
      exact ⟨fun _ ↦ rfl, nofun, nofun, nofun⟩
    · simp only [hterminal, Bool.false_eq_true, if_false]
      simp only [PartQueue.isTerminal, Bool.or_eq_true, not_or, Bool.not_eq_true,
        Option.isSome_eq_false_iff, Option.isNone_iff_eq_none] at hterminal
      refine ⟨fun hsome ↦ (hnone hsome).elim, fun _ ↦ hterminal.1, fun _ hcancelled ↦ ?_, nofun⟩
      rw [hterminal.2] at hcancelled
      cases hcancelled
  · next hpusher =>
    cases hstep
    exact h.push hpusher
  · cases hstep
    exact ⟨fun _ ↦ rfl, nofun, nofun, nofun⟩
  · next hpusher _ =>
    cases hstep
    refine ⟨h.exclusive, ?_, ?_, ?_⟩ <;> simp [hpusher, PusherPoint.past]
  · next hpusher _ =>
    cases hstep
    refine ⟨h.exclusive, ?_, ?_, ?_⟩ <;> simp [hpusher, PusherPoint.past]
  · next hcaller =>
    split at hstep <;> cases hstep
    rename_i hout
    exact h.pop hcaller (by simpa using hout) _
  · next freed hcaller =>
    cases hstep
    have hsome : s.caller.isSome := by simp [hcaller]
    cases freed with
    | true => exact h.notify hsome
    | false =>
      refine ⟨nofun, h.open_, fun hp hc ↦ ?_, fun reserved part hp ↦ ?_⟩
      · exact .inr ((h.flag hp hc).resolve_left (by simp [hcaller]))
      · exact .inl ((h.room reserved part hp).resolve_right (by simp [hcaller]))
  · cases hstep
    exact ⟨h.exclusive, h.open_, fun _ _ ↦ .inr (Nat.succ_pos _), h.room⟩
  · next hcaller =>
    split at hstep
    · cases hstep
    · next hout =>
      rw [not_or] at hout
      cases hstep
      refine ⟨fun _ ↦ by simpa using hout.1, h.open_, fun _ _ ↦ .inl rfl, fun reserved part hp ↦ ?_⟩
      exact .inl ((h.room reserved part hp).resolve_right (by simp [hcaller]))
  · next hcaller =>
    cases hstep
    exact h.notify (by simp [hcaller])
  · cases hstep

/-- **No lost wake-up.** Whatever the interleaving of the thread with pops, cancels and the drop: a
parked thread waits for room in a queue that is not terminal, or somebody is about to wake it. A
caller inside the lock wakes it in its next step, and a cancel on its way to the lock can take it
unless a caller holds it. -/
theorem no_lost_wakeup {maxBytes : Nat} {ls : List WakeLabel} {s : WakeState}
    (hrun : exec wakeStep ls (.start maxBytes) = some s) {reserved : Nat} {part : Part}
    (hparked : s.pusher = .parked reserved part) :
    (s.queue.isTerminal = false ∧ s.queue.TooFull reserved part) ∨
    (∃ l t, (l = .popNotify ∨ l = .cancelNotify) ∧ wakeStep l s = some t ∧
      t.pusher = .locking reserved part) ∨
    0 < s.cancelling ∧ (s.caller = none → ∃ t, wakeStep .cancelLock s = some t ∧
      t.caller = some .cancel ∧ t.pusher = .parked reserved part) := by
  have h : Watched s :=
    (guardedRun_of_exec hrun (admits_of_forall (fun _ _ ↦ trivial) _ _)).invariant Watched
      (fun _ _ _ h _ hstep ↦ h.step hstep) ⟨nofun, nofun, nofun, nofun⟩
  have hpast : s.pusher.past = true := by rw [hparked]; rfl
  by_cases hcancel : s.caller = some .cancel
  · exact .inr (.inl ⟨.cancelNotify, { s with pusher := s.pusher.notified, caller := none },
      .inr rfl, by simp [wakeStep, hcancel], by simp [hparked, PusherPoint.notified]⟩)
  by_cases hpopped : s.caller = some (.popped true)
  · exact .inr (.inl ⟨.popNotify, { s with pusher := s.pusher.notified, caller := none },
      .inl rfl, by simp [wakeStep, hpopped], by simp [hparked, PusherPoint.notified]⟩)
  by_cases hflag : s.queue.cancelled = true
  · have hpos := (h.flag hpast hflag).resolve_left hcancel
    refine .inr (.inr ⟨hpos, fun hnone ↦ ?_⟩)
    exact ⟨{ s with caller := some .cancel, cancelling := s.cancelling - 1 },
      by simp [wakeStep, hnone, hparked, PusherPoint.inside, Nat.ne_of_gt hpos], rfl, hparked⟩
  · left
    have hopen := h.open_ hpast
    exact ⟨by simp [PartQueue.isTerminal, hopen.1, hopen.2, hflag],
      (h.room reserved part hparked).resolve_right hpopped⟩

/-- A thread parked on a full queue while a pop that freed its room has yet to notify. -/
theorem no_lost_wakeup_sample : ∃ s, exec wakeStep
    [.arrive 2 ⟨0, [1, 2]⟩, .lock, .check, .push, .arrive 2 ⟨2, [3, 4]⟩, .lock, .check, .push,
      .pop 0] (.start 2) = some s ∧
    ((s.queue.isTerminal = false ∧ s.queue.TooFull 2 ⟨2, [3, 4]⟩) ∨
    (∃ l t, (l = .popNotify ∨ l = .cancelNotify) ∧ wakeStep l s = some t ∧
      t.pusher = .locking 2 ⟨2, [3, 4]⟩) ∨
    0 < s.cancelling ∧ (s.caller = none → ∃ t, wakeStep .cancelLock s = some t ∧
      t.caller = some .cancel ∧ t.pusher = .parked 2 ⟨2, [3, 4]⟩)) := by
  obtain ⟨s, hrun, hparked⟩ := exists_exec wakeStep (fun s ↦ s.pusher = .parked 2 ⟨2, [3, 4]⟩)
    [.arrive 2 ⟨0, [1, 2]⟩, .lock, .check, .push, .arrive 2 ⟨2, [3, 4]⟩, .lock, .check, .push,
      .pop 0] (.start 2) (by decide)
  exact ⟨s, hrun, no_lost_wakeup hrun hparked⟩

end Mntrs

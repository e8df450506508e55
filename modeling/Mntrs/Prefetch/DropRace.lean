import Mathlib.Algebra.GroupWithZero.Nat
import Mathlib.Algebra.Order.BigOperators.Group.List
import Mathlib.Algebra.Order.Group.Nat
import Mntrs.Base.Machine

/-!
# Dropping a prefetcher while its thread runs

The two accounts of a prefetcher, cut at their atomic operations: what it has reserved with the
shared memory limiter and given back, and its counter `in_flight_reserved`. The download thread
reserves, then counts; it takes a chunk it gives up out of the counter and then releases it
(`src/src/prefetcher.rs:772-932`). `drop` (`1060-1087`) sets the flag, waits at most 200 ms for the
thread, releases what it finds in the counter and resets it. Sizes and outcomes come with the steps;
the pops of the readers are over when the drop starts.
-/

namespace Mntrs

open Base

/-- Where the download thread stands: at the top of its loop, with a chunk it has chosen, reserved,
or reserved and counted (from there to the end of `read_and_push`), with a chunk out of the counter
that is still to be released, after the loop, at its end, or dead. -/
inductive ThreadPoint where
  | top
  | chosen (n : Nat)
  | reserved (n : Nat)
  | working (n : Nat)
  | returning (n : Nat) (more : Bool)
  | left
  | ended
  | panicked
deriving DecidableEq, Repr

/-- Where `drop` stands: not called, in its wait, with the residual it has loaded or released, and
after the reset. -/
inductive DropPoint where
  | idle
  | waiting
  | loaded (residual : Nat)
  | released (residual : Nat)
  | done
deriving DecidableEq, Repr

/-- A prefetcher with the lengths of its queued parts, all it has ever reserved and released, its
counter, and whether a subtraction from the counter has wrapped. -/
structure DropRace where
  fileSize : Nat
  offset : Nat
  thread : ThreadPoint
  drop : DropPoint
  cancelled : Bool
  queued : List Nat
  reserved : Nat
  released : Nat
  inFlightReserved : Nat
  underflowed : Bool
deriving DecidableEq, Repr

/-- A new prefetcher. -/
def DropRace.start (fileSize : Nat) : DropRace :=
  ⟨fileSize, 0, .top, .idle, false, [], 0, 0, 0, false⟩

/-- `fetch_sub` on the counter. -/
def DropRace.fetchSub (s : DropRace) (n : Nat) : DropRace :=
  { s with
    inFlightReserved := (s.inFlightReserved + 2 ^ 64 - n) % 2 ^ 64
    underflowed := s.underflowed || decide (s.inFlightReserved < n) }

/-- The steps. A chunk the limiter refuses is shrunk and then skipped; a chunk that is read is
pushed or given up, with the offset the loop goes on from, if it does. -/
inductive DropLabel where
  | iterate (n : Nat)
  | shrink (n : Nat)
  | skip
  | panic
  | reserve
  | count
  | push (len : Nat)
  | giveUp (offset : Nat) (more : Bool)
  | giveBack
  | finish
  | pop (i : Nat)
  | dropStale (i : Nat)
  | cancel
  | dropFlag
  | dropLoad
  | dropRelease
  | dropStore
deriving DecidableEq, Repr

/-- One step of the download thread. -/
def dropThreadStep (l : DropLabel) (s : DropRace) : Option DropRace :=
  match l, s.thread with
  | .iterate n, .top =>
    if s.fileSize ≤ s.offset ∨ s.cancelled then some { s with thread := .left }
    else if s.offset + n ≤ s.fileSize then some { s with thread := .chosen n }
    else none
  | .shrink n, .chosen chunk => if n ≤ chunk then some { s with thread := .chosen n } else none
  | .skip, .chosen n => some { s with thread := .top, offset := s.offset + n }
  | .panic, .chosen _ | .panic, .top => some { s with thread := .panicked }
  | .reserve, .chosen n => some { s with thread := .reserved n, reserved := s.reserved + n }
  | .count, .reserved n =>
    some { s with
      thread := .working n
      inFlightReserved := (s.inFlightReserved + n) % 2 ^ 64 }
  | .push len, .working n =>
    if s.cancelled then none
    else some { s with thread := .top, offset := s.offset + n, queued := s.queued ++ [len] }
  | .giveUp offset more, .working n =>
    if s.offset ≤ offset then
      some { s.fetchSub n with thread := .returning n more, offset := offset }
    else none
  | .giveBack, .returning n more =>
    some { s with thread := if more then .top else .left, released := s.released + n }
  | .finish, .left => some { s with thread := .ended }
  | _, _ => none

/-- One step of the readers, before the drop, or of the drop. -/
def dropStep (l : DropLabel) (s : DropRace) : Option DropRace :=
  match l, s.drop with
  | .pop i, .idle => s.queued[i]?.map fun n ↦
    { s.fetchSub n with queued := s.queued.eraseIdx i, released := s.released + n }
  | .dropStale i, .idle => some { s with queued := s.queued.eraseIdx i }
  | .cancel, .idle => some { s with cancelled := true }
  | .dropFlag, .idle => some { s with cancelled := true, drop := .waiting }
  | .dropLoad, .waiting =>
    some { s with
      drop := if 0 < s.inFlightReserved then .loaded s.inFlightReserved else .done }
  | .dropRelease, .loaded residual =>
    some { s with drop := .released residual, released := s.released + residual }
  | .dropStore, .released _ => some { s with drop := .done, inFlightReserved := 0 }
  | l, _ => dropThreadStep l s

/-- The counter holds a chunk of the thread. -/
def ThreadPoint.counted : ThreadPoint → Nat
  | working n => n
  | top | chosen _ | reserved _ | returning _ _ | left | ended | panicked => 0

/-- What the thread has reserved and has to push or release. -/
def ThreadPoint.owed : ThreadPoint → Nat
  | reserved n | working n | returning n _ => n
  | top | chosen _ | left | ended | panicked => 0

/-- The chunk of the file the thread works on. -/
def ThreadPoint.chunk : ThreadPoint → Nat
  | chosen n | reserved n | working n => n
  | top | returning _ _ | left | ended | panicked => 0

/-- A range read returns at most its range; and when `drop` reads the counter and when it resets
it, the counter holds no chunk of the thread. -/
def DropObeys (s : DropRace) : DropLabel → Prop
  | .push len => len ≤ s.thread.chunk
  | .dropLoad | .dropStore => s.thread.counted = 0
  | _ => True

instance (s : DropRace) (l : DropLabel) : Decidable (DropObeys s l) := by
  cases l <;> (dsimp only [DropObeys]; infer_instance)

/-- What of the bytes kept for pushed parts the counter still holds. -/
def DropPoint.counted (kept : Nat) : DropPoint → Nat
  | idle | waiting | loaded _ | released _ => kept
  | done => 0

/-- What of them is still reserved. -/
def DropPoint.owed (kept : Nat) : DropPoint → Nat
  | idle | waiting | loaded _ => kept
  | released _ | done => 0

/-- The accounts agree, with some bytes kept for parts that were pushed. They are distinct bytes of
the file, so the counter does not wrap. -/
structure Balanced (s : DropRace) (kept : Nat) : Prop where
  counter : s.inFlightReserved = s.drop.counted kept + s.thread.counted
  ledger : s.reserved = s.released + s.drop.owed kept + s.thread.owed
  parts : s.drop = .idle → s.queued.sum ≤ kept
  before : kept ≤ s.offset
  inFile : kept ≤ s.fileSize ∧ (0 < s.thread.chunk → s.offset + s.thread.chunk ≤ s.fileSize)
  flag : s.drop ≠ .idle → s.cancelled = true
  residual : ∀ n, s.drop = .loaded n ∨ s.drop = .released n → n = kept
  size : s.fileSize < 2 ^ 64
  exact_ : s.underflowed = false

variable {s t : DropRace} {kept : Nat}

section

variable (h : Balanced s kept)
include h

private theorem Balanced.counter_le : s.inFlightReserved ≤ kept + s.thread.counted := by
  rw [h.counter]
  cases s.drop <;> simp [DropPoint.counted]

private theorem Balanced.fetchSub {n : Nat} (hn : n ≤ s.inFlightReserved) :
    s.fetchSub n = { s with inFlightReserved := s.inFlightReserved - n } := by
  have hcounter := h.counter_le
  have hchunk : s.thread.counted ≤ s.thread.chunk := by
    cases s.thread <;> simp [ThreadPoint.counted, ThreadPoint.chunk]
  have hfits : s.inFlightReserved < 2 ^ 64 := by
    have := h.inFile
    have := h.before
    have := h.size
    omega
  have hsub : (s.inFlightReserved + 2 ^ 64 - n) % 2 ^ 64 = s.inFlightReserved - n := by omega
  rw [DropRace.fetchSub, hsub]
  simp [Nat.not_lt.mpr hn]

/-- The thread moves a chunk through both accounts and keeps nothing. -/
private theorem Balanced.move {point : ThreadPoint} (hthread : s.thread = point)
    (thread : ThreadPoint) {offset reserved released inFlight : Nat}
    (hcounter : inFlight + point.counted = s.inFlightReserved + thread.counted)
    (hledger : reserved + s.released + point.owed = s.reserved + released + thread.owed)
    (hoffset : s.offset ≤ offset) (hchunk : 0 < thread.chunk → offset + thread.chunk ≤ s.fileSize) :
    Balanced { s with
      thread := thread
      offset := offset
      reserved := reserved
      released := released
      inFlightReserved := inFlight } kept :=
  { h with
    counter := by have := hthread ▸ h.counter; simp only; omega
    ledger := by have := hthread ▸ h.ledger; simp only; omega
    before := h.before.trans hoffset
    inFile := ⟨h.inFile.1, hchunk⟩ }

/-- A step of the thread keeps the accounts; a push adds its chunk to what is kept. -/
private theorem Balanced.threadStep {l : DropLabel} (hobeys : DropObeys s l)
    (hstep : dropThreadStep l s = some t) : ∃ kept, Balanced t kept := by
  have hfile := h.inFile.2
  unfold dropThreadStep at hstep
  split at hstep
  · next n hthread =>
    split at hstep
    · cases hstep
      exact ⟨kept, h.move hthread .left rfl rfl le_rfl nofun⟩
    · split at hstep <;> cases hstep
      rename_i hle
      exact ⟨kept, h.move hthread (.chosen n) rfl rfl le_rfl fun _ ↦ hle⟩
  · next n chunk hthread =>
    rw [hthread] at hfile
    split at hstep <;> cases hstep
    rename_i hle
    refine ⟨kept, h.move hthread (.chosen n) rfl rfl le_rfl fun hpos ↦ ?_⟩
    simp only [ThreadPoint.chunk] at hfile hpos ⊢
    omega
  · next n hthread =>
    cases hstep
    exact ⟨kept, h.move hthread .top rfl rfl (Nat.le_add_right _ _) nofun⟩
  · next hthread =>
    cases hstep
    exact ⟨kept, h.move hthread .panicked rfl rfl le_rfl nofun⟩
  · next hthread =>
    cases hstep
    exact ⟨kept, h.move hthread .panicked rfl rfl le_rfl nofun⟩
  · next n hthread =>
    rw [hthread] at hfile
    cases hstep
    exact ⟨kept, h.move hthread (.reserved n) rfl (by simp only [ThreadPoint.owed]; omega) le_rfl
      hfile⟩
  · next n hthread =>
    rw [hthread] at hfile
    cases hstep
    have hfits : s.inFlightReserved + n < 2 ^ 64 := by
      have hcounter := h.counter_le
      have hbefore := h.before
      have hsize := h.size
      have hkept := h.inFile.1
      simp only [hthread, ThreadPoint.counted, ThreadPoint.chunk] at hcounter hfile
      omega
    exact ⟨kept, h.move hthread (.working n) (Nat.mod_eq_of_lt hfits) rfl le_rfl hfile⟩
  · next len n hthread =>
    split at hstep <;> cases hstep
    rename_i hflag
    have hidle : s.drop = .idle := by
      by_contra hidle
      exact hflag (h.flag hidle)
    have hcounter := h.counter
    have hledger := h.ledger
    have hparts := h.parts hidle
    have hbefore := h.before
    have hkept := h.inFile.1
    simp only [DropObeys, hthread, hidle, ThreadPoint.counted, ThreadPoint.owed,
      ThreadPoint.chunk, DropPoint.counted, DropPoint.owed] at hobeys hcounter hledger hfile
    refine ⟨kept + n, ?_, ?_, fun _ ↦ ?_, Nat.add_le_add_right hbefore n, ⟨?_, nofun⟩, h.flag,
      ?_, h.size, h.exact_⟩
    · simpa [hidle, ThreadPoint.counted, DropPoint.counted] using hcounter
    · simp only [hidle, ThreadPoint.owed, DropPoint.owed]
      omega
    · simp only [List.sum_append, List.sum_cons, List.sum_nil]
      omega
    · simp only
      omega
    · simp [hidle]
  · next offset more n hthread =>
    split at hstep <;> cases hstep
    rename_i hle
    have hn : n ≤ s.inFlightReserved := by
      have hcounter := h.counter
      rw [hthread] at hcounter
      simp only [ThreadPoint.counted] at hcounter
      omega
    rw [h.fetchSub hn]
    exact ⟨kept, h.move hthread (.returning n more) (Nat.sub_add_cancel hn) rfl
      hle nofun⟩
  · next n more hthread =>
    cases hstep
    cases more with
    | true =>
      exact ⟨kept, h.move hthread .top rfl (by simp only [ThreadPoint.owed]; omega) le_rfl nofun⟩
    | false =>
      exact ⟨kept, h.move hthread .left rfl (by simp only [ThreadPoint.owed]; omega) le_rfl nofun⟩
  · next hthread =>
    cases hstep
    exact ⟨kept, h.move hthread .ended rfl rfl le_rfl nofun⟩
  · cases hstep

/-- The drop moves on and gives back what it takes out of what is owed. -/
private theorem Balanced.atDrop {point : DropPoint} (hpoint : s.drop = point)
    (hbegun : point ≠ .idle) (drop : DropPoint) (hdrop : drop ≠ .idle) {released inFlight : Nat}
    (hcounter : inFlight = drop.counted kept + s.thread.counted)
    (hledger : released + drop.owed kept = s.released + point.owed kept)
    (hresidual : ∀ n, drop = .loaded n ∨ drop = .released n → n = kept) :
    Balanced { s with drop := drop, released := released, inFlightReserved := inFlight } kept :=
  { h with
    counter := hcounter
    ledger := by have := hpoint ▸ h.ledger; simp only; omega
    parts := fun hidle ↦ absurd hidle hdrop
    flag := fun _ ↦ h.flag (hpoint ▸ hbegun)
    residual := hresidual }

/-- Every step keeps the accounts. -/
theorem Balanced.step {l : DropLabel} (hobeys : DropObeys s l) (hstep : dropStep l s = some t) :
    ∃ kept, Balanced t kept := by
  unfold dropStep at hstep
  split at hstep
  · next i hidle =>
    obtain ⟨n, hi, rfl⟩ := Option.map_eq_some_iff.mp hstep
    obtain ⟨hlt, hn⟩ := List.getElem?_eq_some_iff.mp hi
    have hsum := (List.getElem_cons_eraseIdx_perm hlt).sum_eq
    rw [List.sum_cons, hn] at hsum
    have hparts := h.parts hidle
    have hcounter := h.counter
    have hledger := h.ledger
    rw [hidle] at hcounter hledger
    simp only [DropPoint.counted, DropPoint.owed] at hcounter hledger
    rw [h.fetchSub (by omega)]
    refine ⟨kept - n, ?_, ?_, fun _ ↦ ?_, ?_, ⟨?_, h.inFile.2⟩, h.flag, ?_, h.size, h.exact_⟩
    · simp only [hidle, DropPoint.counted]
      omega
    · simp only [hidle, DropPoint.owed]
      omega
    · simp only
      omega
    · exact (Nat.sub_le _ _).trans h.before
    · exact (Nat.sub_le _ _).trans h.inFile.1
    · simp [hidle]
  · next i hidle =>
    cases hstep
    exact ⟨kept, { h with
      parts := fun _ ↦ ((List.eraseIdx_sublist _ i).sum_le_sum (by simp)).trans (h.parts hidle) }⟩
  · cases hstep
    exact ⟨kept, { h with flag := fun _ ↦ rfl }⟩
  · next hidle =>
    cases hstep
    have hcounter := h.counter
    have hledger := h.ledger
    rw [hidle] at hcounter hledger
    exact ⟨kept, { h with
      counter := hcounter
      ledger := hledger
      parts := nofun
      flag := fun _ ↦ rfl
      residual := nofun }⟩
  · next hwaiting =>
    cases hstep
    -- The counter holds what is kept and nothing of the thread.
    have hzero : s.thread.counted = 0 := hobeys
    have hcounter : s.inFlightReserved = kept := by
      have := h.counter
      rwa [hwaiting, hzero] at this
    split
    · refine ⟨kept, h.atDrop hwaiting nofun (.loaded s.inFlightReserved) nofun ?_ rfl ?_⟩
      · rw [hzero]
        exact hcounter
      · rintro n (hn | hn) <;> cases hn
        exact hcounter
    · next hempty =>
      have hkept : kept = 0 := by omega
      refine ⟨kept, h.atDrop hwaiting nofun .done nofun ?_ ?_ nofun⟩
      · rw [hzero, hcounter, hkept]
        rfl
      · rw [hkept]
        rfl
  · next residual hloaded =>
    cases hstep
    have hkept := h.residual residual (.inl hloaded)
    refine ⟨kept, h.atDrop hloaded nofun (.released residual) nofun ?_ ?_ ?_⟩
    · have := h.counter
      rwa [hloaded] at this
    · rw [hkept]
      rfl
    · rintro n (hn | hn) <;> cases hn
      exact hkept
  · next hreleased =>
    cases hstep
    have hzero : s.thread.counted = 0 := hobeys
    refine ⟨kept, h.atDrop hreleased nofun .done nofun ?_ rfl nofun⟩
    rw [hzero]
    rfl
  · exact h.threadStep hobeys hstep

end

/-- The thread is over. -/
def ThreadPoint.over : ThreadPoint → Bool
  | ended | panicked => true
  | _ => false

/-- **The drop balances the budget**, in every run in which it neither reads nor resets the counter
while that holds a chunk of the thread: the counter never underflows, no more is ever released than
was reserved, and when drop and thread are over everything is released and the counter is zero. -/
theorem drop_balances_of_run {fileSize : Nat} (hsize : fileSize < 2 ^ 64) {s : DropRace}
    (hrun : GuardedRun dropStep DropObeys (.start fileSize) s) :
    s.underflowed = false ∧ s.released ≤ s.reserved ∧
      (s.drop = .done → s.thread.over = true →
        s.released = s.reserved ∧ s.inFlightReserved = 0) := by
  have hstart : Balanced (.start fileSize) 0 :=
    ⟨rfl, rfl, fun _ ↦ Nat.le_refl 0, Nat.zero_le _, ⟨Nat.zero_le _, nofun⟩, nofun, nofun, hsize,
      rfl⟩
  obtain ⟨kept, h⟩ := hrun.invariant (fun s ↦ ∃ kept, Balanced s kept)
    (fun _ _ _ ⟨_, h⟩ hobeys hstep ↦ h.step hobeys hstep) ⟨0, hstart⟩
  have hcounter := h.counter
  have hledger := h.ledger
  refine ⟨h.exact_, by omega, fun hdone hover ↦ ?_⟩
  have hthread : s.thread.counted = 0 ∧ s.thread.owed = 0 := by
    cases hpoint : s.thread <;> simp_all [ThreadPoint.over, ThreadPoint.counted, ThreadPoint.owed]
  simp only [hdone, hthread, DropPoint.counted, DropPoint.owed] at hcounter hledger
  exact ⟨by omega, hcounter⟩

/-- A part of four bytes is left in the queue and a second read ends after the drop has set the
flag, before its wait is over. -/
theorem drop_balances_of_run_sample : ∃ s : DropRace, s.reserved = 8 ∧ s.drop = .done ∧
    s.thread.over = true ∧ s.underflowed = false ∧ s.released = s.reserved ∧
    s.inFlightReserved = 0 := by
  obtain ⟨s, hrun, hreserved, hdrop, hover⟩ := exists_guardedRun dropStep DropObeys
    (fun s ↦ s.reserved = 8 ∧ s.drop = .done ∧ s.thread.over = true)
    [.iterate 4, .reserve, .count, .push 4, .iterate 4, .reserve, .count, .dropFlag,
      .giveUp 4 false,
      .giveBack, .finish, .dropLoad, .dropRelease, .dropStore] (.start 8) (by decide) (by decide)
  have h := drop_balances_of_run (by decide) hrun
  exact ⟨s, hreserved, hdrop, hover, h.1, (h.2.2 hdrop hover).1, (h.2.2 hdrop hover).2⟩

/-- The wait of the drop expires during the read of a chunk of four bytes: the drop releases them
and resets the counter, and the thread, once its read is over, takes them out of the counter and
releases them again. -/
theorem expired_wait_releases_twice : ∃ s, exec dropStep
    [.iterate 4, .reserve, .count, .dropFlag, .dropLoad, .dropRelease, .dropStore, .giveUp 0 false,
      .giveBack, .finish] (.start 4) = some s ∧
    s.drop = .done ∧ s.thread.over = true ∧ s.underflowed = true ∧ s.reserved = 4 ∧
    s.released = 8 ∧ s.inFlightReserved = 2 ^ 64 - 4 :=
  exists_exec dropStep _ _ _ (by decide)

end Mntrs

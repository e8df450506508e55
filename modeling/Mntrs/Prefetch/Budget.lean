import Mathlib.Algebra.BigOperators.Group.List.Basic
import Mntrs.Prefetch.Prefetcher

/-!
# The budget of a prefetcher

The bytes a prefetcher has reserved are those of its parts, of the chunk its thread works on and of
the pops that have yet to give theirs back, as long as reads return their whole range and pops drop
nothing. A part that is shorter than its range gives back less than was reserved for it, and a
dropped part nothing.
-/

namespace Mntrs

open Base

/-- A range read returns its whole range, and a pop does not start after the end of the first
part. -/
def BudgetObeys (s : Prefetcher) : PrefetchLabel → Prop
  | .read (.ok data) => data.length = s.inHand
  | .pop offset => ∀ part, s.queue.parts.head? = some part → offset < part.stop
  | _ => True

instance (s : Prefetcher) (l : PrefetchLabel) : Decidable (BudgetObeys s l) := by
  unfold BudgetObeys
  split
  · infer_instance
  · exact decidable_of_iff (∀ part ∈ s.queue.parts.head?, _ < part.stop) Iff.rfl
  · infer_instance

variable {n : Nat} {cfg : PrefetchConfig}

namespace Prefetcher

/-- The bytes that are queued, worked on or about to be given back. -/
def held (s : Prefetcher) : Nat := s.queue.queuedBytes + s.inHand + s.releasing.sum

/-- The reservation and the counter are for the bytes held, and a part in hand is as long as the
reservation for it. -/
structure Accounted (s : Prefetcher) : Prop where
  reserved : s.reserved = s.held
  inFlight : s.inFlightReserved = UInt64.ofNat s.held
  whole : ∀ reserved stop part, s.stage = .pushing reserved stop part →
    part.data.length = reserved

variable {s t : Prefetcher}

/-- Taking a reservation for what is held from now on. -/
theorem Accounted.reserve (h : s.Accounted) (hheld : t.held = s.held + n)
    (hreserved : t.reserved = (s.reserve n).reserved)
    (hflight : t.inFlightReserved = (s.reserve n).inFlightReserved)
    (hwhole : ∀ reserved stop part, t.stage = .pushing reserved stop part →
      part.data.length = reserved) : t.Accounted where
  reserved := by
    rw [hreserved, hheld, Prefetcher.reserve, h.reserved]
    exact (Int.natCast_add s.held n).symm
  inFlight := by
    rw [hflight, hheld, UInt64.ofNat_add, Prefetcher.reserve, h.inFlight]
  whole := hwhole

/-- Giving back a reservation for what is held no longer. -/
theorem Accounted.release (h : s.Accounted) (hheld : s.held = t.held + n)
    (hreserved : t.reserved = (s.release n).reserved)
    (hflight : t.inFlightReserved = (s.release n).inFlightReserved)
    (hwhole : ∀ reserved stop part, t.stage = .pushing reserved stop part →
      part.data.length = reserved) : t.Accounted where
  reserved := by
    rw [hreserved, Prefetcher.release, h.reserved, hheld]
    push_cast
    exact Int.add_sub_cancel _ _
  inFlight := by
    rw [hflight, Prefetcher.release, h.inFlight, hheld, UInt64.ofNat_add, UInt64.add_sub_cancel]
  whole := hwhole

/-- Moving bytes from one place to another. -/
theorem Accounted.congr (h : s.Accounted) (hheld : t.held = s.held)
    (hreserved : t.reserved = s.reserved) (hflight : t.inFlightReserved = s.inFlightReserved)
    (hwhole : ∀ reserved stop part, t.stage = .pushing reserved stop part →
      part.data.length = reserved) : t.Accounted where
  reserved := by rw [hreserved, hheld, h.reserved]
  inFlight := by rw [hflight, hheld, h.inFlight]
  whole := hwhole

theorem accounted_start (cfg : PrefetchConfig) : (Prefetcher.start cfg).Accounted where
  reserved := rfl
  inFlight := rfl
  whole := by simp [Prefetcher.start]

/-- An iteration reserves the chunk it reads. -/
theorem Accounted.iterate (h : s.Accounted) (hstage : s.stage = .top) (w : Nat)
    (fits shrunkFits : Bool) : (s.iterate cfg w fits shrunkFits).Accounted := by
  have hheld : s.held = s.queue.queuedBytes + s.releasing.sum := by
    simp [held, inHand, hstage]
  unfold Prefetcher.iterate
  split
  · exact h.congr (by rw [hheld]; rfl) rfl rfl (by simp)
  · split
    · exact h.congr (by rw [hheld]; rfl) rfl rfl (by simp)
    · simp only
      split
      · refine h.reserve ?_ rfl rfl (by simp)
        rw [hheld]
        simp only [held, inHand, Prefetcher.reserve]
        omega
      · split
        · exact h.congr (by rw [hheld]; rfl) rfl rfl (by simp)
        · split
          · refine h.reserve ?_ rfl rfl (by simp)
            rw [hheld]
            simp only [held, inHand, Prefetcher.reserve]
            omega
          · exact h.congr (by rw [hheld]; simp [held, inHand, hstage]) rfl rfl (by simp [hstage])

/-- The end of a read hands its chunk on or gives the reservation back. -/
theorem Accounted.finishRead (h : s.Accounted) {reserved stop : Nat}
    (hstage : s.stage = .reading reserved stop) {outcome : RangeRead}
    (hobeys : BudgetObeys s (.read outcome)) :
    (s.finishRead cfg reserved stop outcome).Accounted := by
  have hheld : s.held = s.queue.queuedBytes + s.releasing.sum + reserved := by
    simp only [held, inHand, hstage]
    omega
  have hin : s.inHand = reserved := by simp [inHand, hstage]
  cases outcome with
  | ok data =>
    have hlen : data.length = reserved := by rw [← hin]; exact hobeys
    refine h.congr ?_ rfl rfl ?_
    · rw [hheld]
      simp only [held, inHand, Prefetcher.finishRead]
      omega
    · intro reserved' stop' part hpart
      cases hpart
      exact hlen
  | failed message => exact h.release (by rw [hheld]; rfl) rfl rfl (by simp [Prefetcher.finishRead])
  | transient =>
    unfold Prefetcher.finishRead Prefetcher.transientError
    simp only
    split
    · exact h.release (by rw [hheld]; rfl) rfl rfl (by simp)
    · split <;> exact h.release (by rw [hheld]; rfl) rfl rfl (by simp)

/-- A push moves its chunk into the queue, or gives the reservation back. -/
theorem Accounted.pushPart (h : s.Accounted) {reserved stop : Nat} {part : Part}
    (hstage : s.stage = .pushing reserved stop part)
    (hpush : s.pushPart reserved stop part = some t) : t.Accounted := by
  have hheld : s.held = s.queue.queuedBytes + s.releasing.sum + reserved := by
    simp only [held, inHand, hstage]
    omega
  have hlen := h.whole reserved stop part hstage
  unfold Prefetcher.pushPart at hpush
  split at hpush
  · cases hpush
    exact h.release (by rw [hheld]; rfl) rfl rfl (by simp)
  · split at hpush
    · cases hpush
    · split at hpush <;> cases hpush
      · next heq =>
        rw [PartQueue.push_eq_ok heq]
        refine h.congr ?_ rfl rfl (by simp)
        rw [hheld]
        simp only [held, inHand, PartQueue.queuedBytes, List.map_append, List.sum_append,
          List.map_cons, List.map_nil, List.sum_cons, List.sum_nil]
        omega
      · exact h.release (by rw [hheld]; rfl) rfl rfl (by simp)
      · exact h.release (by rw [hheld]; rfl) rfl rfl (by simp)

theorem popLoop_of_fresh {parts : List Part} {offset : Nat} (bytes : Nat)
    (h : ∀ part, parts.head? = some part → offset < part.stop) :
    (PartQueue.popLoop offset parts bytes = (none, parts, bytes)) ∨
      ∃ front rest, parts = front :: rest ∧
        PartQueue.popLoop offset parts bytes = (some front, rest, bytes - front.data.length) := by
  cases parts with
  | nil => exact .inl rfl
  | cons front rest =>
    have hfront := h front rfl
    by_cases hstart : front.offset ≤ offset
    · exact .inr ⟨front, rest, rfl, if_pos ⟨hstart, hfront⟩⟩
    · left
      rw [PartQueue.popLoop, if_neg (fun hcover ↦ hstart hcover.1), if_neg (by omega)]

/-- A pop moves the bytes of its part to those to be given back. -/
theorem Accounted.popPart (h : s.Accounted) {offset : Nat} (hobeys : BudgetObeys s (.pop offset)) :
    (s.popPart offset).Accounted := by
  obtain heq | ⟨front, rest, hparts, heq⟩ :=
    popLoop_of_fresh s.queue.currentBytes hobeys
  · refine h.congr ?_ rfl rfl h.whole
    simp [Prefetcher.popPart, PartQueue.pop, heq, held, inHand, PartQueue.queuedBytes]
  · refine h.congr ?_ rfl rfl h.whole
    simp only [Prefetcher.popPart, PartQueue.pop, heq, held, inHand, PartQueue.queuedBytes,
      List.sum_append, List.sum_cons, List.sum_nil]
    rw [hparts, List.map_cons, List.sum_cons]
    omega

theorem Accounted.giveBack (h : s.Accounted) {i : Nat} (hi : s.releasing[i]? = some n) :
    { s.release n with releasing := s.releasing.eraseIdx i }.Accounted := by
  refine h.release ?_ rfl rfl h.whole
  obtain ⟨hlt, rfl⟩ := List.getElem?_eq_some_iff.mp hi
  have hsum := (List.getElem_cons_eraseIdx_perm hlt).sum_eq
  rw [List.sum_cons] at hsum
  simp only [held, inHand, Prefetcher.release]
  omega

end Prefetcher

open Prefetcher

variable {s t : Prefetcher}

/-- Every step keeps the account. -/
theorem Prefetcher.Accounted.step (h : s.Accounted) {l : PrefetchLabel} (hobeys : BudgetObeys s l)
    (hstep : prefetchStep cfg l s = some t) : t.Accounted := by
  unfold prefetchStep at hstep
  split at hstep
  · next hstage =>
    cases hstep
    exact h.iterate hstage _ _ _
  · next hstage =>
    cases hstep
    exact h.finishRead hstage hobeys
  · next hstage => exact h.pushPart hstage hstep
  · next hstage =>
    cases hstep
    refine h.congr ?_ rfl rfl (by simp)
    simp [held, inHand, hstage, PartQueue.setFinished, PartQueue.queuedBytes]
  · cases hstep
    exact h.popPart hobeys
  · obtain ⟨n, hn, rfl⟩ := Option.map_eq_some_iff.mp hstep
    exact h.giveBack hn
  · cases hstep
    exact h.congr rfl rfl rfl h.whole
  · cases hstep

/-- The download loop is between two reads, or over. -/
def Prefetcher.BetweenReads (s : Prefetcher) : Prop :=
  match s.stage with
  | .reading _ _ | .pushing _ _ _ => False
  | .top | .leaving | .ended | .panicked => True

instance (s : Prefetcher) : Decidable s.BetweenReads := by
  unfold BetweenReads
  split <;> infer_instance

theorem inHand_of_betweenReads (h : s.BetweenReads) : s.inHand = 0 := by
  unfold BetweenReads at h
  unfold inHand
  split at h
  · cases h
  · cases h
  all_goals next heq => rw [heq]

/-- **The budget.** In every run whose reads return their whole range and whose pops drop nothing,
the prefetcher has reserved, whenever the loop is between reads, the bytes of its queue and of
the parts that pops have taken and not yet given back. -/
theorem prefetch_budget_of_run
    (hrun : GuardedRun (prefetchStep cfg) BudgetObeys (.start cfg) s)
    (hbetween : s.BetweenReads) :
    s.reserved = (s.queue.queuedBytes + s.releasing.sum : Nat) ∧
      s.inFlightReserved = UInt64.ofNat (s.queue.queuedBytes + s.releasing.sum) := by
  have h : s.Accounted := hrun.invariant Prefetcher.Accounted
    (fun s l t h hl ht ↦ h.step hl ht) (accounted_start cfg)
  have hheld : s.held = s.queue.queuedBytes + s.releasing.sum := by
    rw [held, inHand_of_betweenReads hbetween]
    rfl
  exact ⟨hheld ▸ h.reserved, hheld ▸ h.inFlight⟩

/-- Two chunks, of which the first is popped. -/
def fetchAndPop : List PrefetchLabel :=
  [.iterate 2 true true, .read (.ok [1, 2, 3, 4]), .push, .pop 0, .release 0,
    .iterate 3 true true, .read (.ok [5]), .push]

theorem prefetch_budget_of_run_sample :
    ∃ s, GuardedRun (prefetchStep fiveBytes) BudgetObeys (.start fiveBytes) s ∧
      s.queue.parts = [⟨4, [5]⟩] ∧ s.releasing = [] ∧ s.reserved = s.queue.queuedBytes ∧
      s.inFlightReserved = UInt64.ofNat s.queue.queuedBytes := by
  obtain ⟨s, hrun, hparts, hbetween, hreleased⟩ :=
    exists_guardedRun (prefetchStep fiveBytes) BudgetObeys
      (fun s ↦ s.queue.parts = [⟨4, [5]⟩] ∧ s.BetweenReads ∧ s.releasing = []) fetchAndPop
      (.start fiveBytes) (by decide) (by decide)
  have h := prefetch_budget_of_run hrun hbetween
  rw [hreleased] at h
  exact ⟨s, hrun, hparts, hreleased, h⟩

/-- A read of two of four bytes leaves four reserved for two queued; a pop after the end of the
only part leaves four reserved for none. -/
theorem short_reads_and_drops_leak :
    (∃ s, exec (prefetchStep fiveBytes) [.iterate 2 true true, .read (.ok [1, 2]), .push]
        (.start fiveBytes) = some s ∧
      s.stage = .top ∧ s.releasing = [] ∧ s.queue.queuedBytes = 2 ∧ s.reserved = 4 ∧
      s.inFlightReserved = 4) ∧
    ∃ s, exec (prefetchStep fiveBytes)
        [.iterate 2 true true, .read (.ok [1, 2, 3, 4]), .push, .pop 4]
        (.start fiveBytes) = some s ∧
      s.stage = .top ∧ s.releasing = [] ∧ s.queue.queuedBytes = 0 ∧ s.reserved = 4 ∧
      s.inFlightReserved = 4 :=
  ⟨exists_exec (prefetchStep fiveBytes) (fun s ↦ s.stage = .top ∧ s.releasing = [] ∧
      s.queue.queuedBytes = 2 ∧ s.reserved = 4 ∧ s.inFlightReserved = 4) _ _ (by decide),
    exists_exec (prefetchStep fiveBytes) (fun s ↦ s.stage = .top ∧ s.releasing = [] ∧
      s.queue.queuedBytes = 0 ∧ s.reserved = 4 ∧ s.inFlightReserved = 4) _ _ (by decide)⟩

end Mntrs

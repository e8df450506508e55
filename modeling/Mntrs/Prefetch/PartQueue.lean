import Mntrs.Prefetch.Prefetcher

/-!
# The part queue over any calls

`pop` looks at the front of the queue only. That is enough because `push` refuses a part that
starts before the end of the last one: the parts stay in order and apart, and everything in front
of a part that covers an offset ends before that offset.
-/

namespace Mntrs

/-- A call on a part queue; the cancel flag is set from outside. -/
inductive QueueCall where
  | push (part : Part)
  | pop (offset : Nat)
  | setFinished
  | setError (err : String)
  | cancel
deriving DecidableEq, Repr

/-- The part covers the offset. -/
def Part.Covers (part : Part) (offset : Nat) : Prop :=
  part.offset ≤ offset ∧ offset < part.stop

namespace PartQueue

/-- The queue after a call. A push that does not land leaves it as it is. -/
def call (q : PartQueue) : QueueCall → PartQueue
  | .push part =>
    match q.push part with
    | .ok q' => q'
    | .cancelled | .full | .overlap _ => q
  | .pop offset => (q.pop offset).2
  | .setFinished => q.setFinished
  | .setError err => q.setError err
  | .cancel => { q with cancelled := true }

/-- The parts are in order and apart, and their bytes are counted and within the bound. -/
structure Sound (maxBytes : Nat) (q : PartQueue) : Prop where
  apart : q.parts.Pairwise (fun a b ↦ a.stop ≤ b.offset)
  counted : q.currentBytes = q.queuedBytes
  bound : q.maxBytes = maxBytes
  bounded : q.currentBytes ≤ maxBytes

variable {maxBytes : Nat} {q : PartQueue}

/-- The loop of `pop` drops what ends before the offset and takes the next part if it covers
it. -/
theorem popLoop_eq (offset : Nat) (parts : List Part) (bytes : Nat) :
    ∃ stale, parts = stale ++ (popLoop offset parts bytes).1.toList ++
        (popLoop offset parts bytes).2.1 ∧
      (∀ part ∈ stale, part.stop ≤ offset) ∧
      (∀ part ∈ (popLoop offset parts bytes).1, part.Covers offset) ∧
      ((popLoop offset parts bytes).1 = none →
        ∀ part, (popLoop offset parts bytes).2.1.head? = some part → offset < part.offset) := by
  induction parts generalizing bytes with
  | nil => exact ⟨[], rfl, by simp, by simp [popLoop], by simp [popLoop]⟩
  | cons front rest ih =>
    rw [popLoop]
    split
    · next hcovers => exact ⟨[], rfl, by simp, by simpa [Part.Covers] using hcovers, by simp⟩
    · next hcovers =>
      split
      · next hstale =>
        obtain ⟨stale, hparts, hstales, hpart, hnone⟩ := ih (bytes - front.data.length)
        refine ⟨front :: stale, ?_, ?_, hpart, hnone⟩
        · rw [List.cons_append, List.cons_append, ← hparts]
        · simpa using ⟨hstale, hstales⟩
      · next hlive =>
        refine ⟨[], rfl, by simp, by simp, ?_⟩
        intro _ part hhead
        cases hhead
        by_contra hle
        exact hcovers ⟨by omega, by omega⟩

theorem pop_parts (q : PartQueue) (offset : Nat) :
    ∃ stale, q.parts = stale ++ (q.pop offset).1.toList ++ (q.pop offset).2.parts ∧
      ∀ part ∈ stale, part.stop ≤ offset := by
  obtain ⟨stale, hparts, hstale, -⟩ := popLoop_eq offset q.parts q.currentBytes
  exact ⟨stale, hparts, hstale⟩

/-- In a sound queue `pop` finds the part that covers the offset. -/
theorem Sound.pop_eq_some_iff (h : q.Sound maxBytes) (offset : Nat) (part : Part) :
    (q.pop offset).1 = some part ↔ part ∈ q.parts ∧ part.Covers offset := by
  obtain ⟨stale, hparts, hstale, hcovers, hnone⟩ := popLoop_eq offset q.parts q.currentBytes
  change _ = stale ++ (q.pop offset).1.toList ++ _ at hparts
  constructor
  · intro hpop
    rw [hpop] at hparts
    refine ⟨?_, hcovers part hpop⟩
    rw [hparts]
    simp
  · rintro ⟨hmem, hcover⟩
    have hapart := h.apart
    rw [hparts] at hmem hapart
    rw [List.append_assoc, List.mem_append] at hmem
    rw [List.append_assoc, List.pairwise_append] at hapart
    have hnotStale : part ∉ stale := fun hin ↦ by
      have := hstale part hin
      have := hcover.2
      omega
    have hlater := hmem.resolve_left hnotStale
    cases hpop : (q.pop offset).1 with
    | some front =>
      -- two parts that cover one offset are the same
      rw [hpop] at hlater hapart
      rcases List.mem_cons.mp hlater with rfl | hrest
      · rfl
      · have hfront := hcovers front hpop
        have := (List.pairwise_cons.mp hapart.2.1).1 part hrest
        have := hcover.1
        have := hfront.2
        omega
    | none =>
      rw [hpop] at hlater hapart
      cases hhead : (popLoop offset q.parts q.currentBytes).2.1 with
      | nil => simp [hhead] at hlater
      | cons front rest =>
        have hfront := hnone hpop front (by rw [hhead]; rfl)
        rw [hhead] at hlater
        rcases List.mem_cons.mp hlater with rfl | hrest
        · have := hcover.1
          omega
        · have hsplit := hapart.2.1
          rw [hhead] at hsplit
          have := (List.pairwise_cons.mp hsplit).1 part hrest
          have := hcover.1
          simp only [Part.stop] at *
          omega

/-- A push keeps the parts apart, and counts its part. -/
theorem Sound.push (h : q.Sound maxBytes) {part : Part} {q' : PartQueue}
    (hpush : q.push part = .ok q') :
    q'.Sound maxBytes := by
  obtain ⟨hroom, hafter⟩ : q.isFullFor part.data.length = false ∧
      ∀ back, q.parts.getLast? = some back → back.stop ≤ part.offset := by
    simp only [PartQueue.push] at hpush
    split at hpush
    · cases hpush
    · split at hpush
      · cases hpush
      · next hroom =>
        refine ⟨by simpa using hroom, fun back hback ↦ ?_⟩
        rw [hback] at hpush
        simp only at hpush
        split at hpush
        · cases hpush
        · next hlt => omega
  rw [push_eq_ok hpush]
  refine ⟨?_, ?_, h.bound, ?_⟩
  · rw [List.pairwise_append]
    refine ⟨h.apart, List.pairwise_singleton _ _, ?_⟩
    intro a ha b hb
    obtain rfl := List.mem_singleton.mp hb
    obtain ⟨front, back, hback⟩ : ∃ front back, q.parts = front ++ [back] := by
      rcases List.eq_nil_or_concat q.parts with hnil | ⟨front, back, hconcat⟩
      · simp [hnil] at ha
      · exact ⟨front, back, by simpa using hconcat⟩
    have hlast := hafter back (by simp [hback])
    have hapart := h.apart
    rw [hback] at ha hapart
    rcases List.mem_append.mp ha with hfront | hlastMem
    · have := (List.pairwise_append.mp hapart).2.2 a hfront back (by simp)
      simp only [Part.stop] at *
      omega
    · obtain rfl := List.mem_singleton.mp hlastMem
      exact hlast
  · simp [queuedBytes, h.counted]
  · simp only [isFullFor, h.bound, decide_eq_false_iff_not] at hroom
    exact Nat.not_lt.mp hroom

/-- Every call keeps a queue sound. -/
theorem Sound.call (h : q.Sound maxBytes) (c : QueueCall) : (q.call c).Sound maxBytes := by
  cases c with
  | push part =>
    simp only [PartQueue.call]
    split
    · next hpush => exact h.push hpush
    all_goals exact h
  | pop offset =>
    obtain ⟨stale, hparts, -⟩ := q.pop_parts offset
    have hcounted := (q.pop_spec offset h.counted).1
    refine ⟨?_, hcounted, h.bound, ?_⟩
    · have hapart := h.apart
      rw [hparts] at hapart
      exact (List.pairwise_append.mp hapart).2.1
    · have hbytes : q.queuedBytes = (stale.map (fun part ↦ part.data.length)).sum +
          ((q.pop offset).1.toList.map (fun part ↦ part.data.length)).sum +
          (q.pop offset).2.queuedBytes := by
        rw [queuedBytes, hparts]
        simp [queuedBytes, Nat.add_assoc]
      have hbounded := h.counted ▸ h.bounded
      change (q.pop offset).2.currentBytes ≤ maxBytes
      omega
  | setFinished | setError err | cancel => exact ⟨h.apart, h.counted, h.bound, h.bounded⟩

theorem sound_new (maxBytes : Nat) : (new maxBytes).Sound maxBytes :=
  ⟨.nil, rfl, rfl, Nat.zero_le _⟩

/-- **The part queue.** After any calls the parts are in increasing order and apart, their bytes
are counted and at most the bound; a push that does not land changes nothing; a pop returns a part
exactly if a queued part covers the offset, and then that part, and removes nothing else but parts
that end at or before the offset. -/
theorem queue_after_calls (maxBytes : Nat) (calls : List QueueCall) :
    let q := calls.foldl PartQueue.call (new maxBytes)
    q.parts.Pairwise (fun a b ↦ a.stop ≤ b.offset) ∧
    (q.currentBytes = (q.parts.map (fun part ↦ part.data.length)).sum ∧
      q.currentBytes ≤ maxBytes) ∧
    (∀ part, (∀ q', q.push part ≠ .ok q') → q.call (.push part) = q) ∧
    (∀ offset part, (q.pop offset).1 = some part ↔ part ∈ q.parts ∧ part.Covers offset) ∧
    ∀ offset, ∃ stale, q.parts = stale ++ (q.pop offset).1.toList ++ (q.call (.pop offset)).parts ∧
      ∀ part ∈ stale, part.stop ≤ offset := by
  intro q
  have h : q.Sound maxBytes := by
    suffices hfold : ∀ q₀ : PartQueue, q₀.Sound maxBytes →
        (calls.foldl PartQueue.call q₀).Sound maxBytes from hfold _ (sound_new maxBytes)
    induction calls with
    | nil => exact fun q₀ h ↦ h
    | cons c calls ih => exact fun q₀ h ↦ ih _ (h.call c)
  refine ⟨h.apart, ⟨h.counted, h.bounded⟩, ?_, h.pop_eq_some_iff, q.pop_parts⟩
  intro part hfails
  simp only [PartQueue.call]
  split
  · next q' hpush => exact absurd hpush (hfails q')
  all_goals rfl

end PartQueue

end Mntrs

import Mntrs.Prefetch.Prefetcher

/-!
# The download loop ends

Each iteration of the loop moves on in the file, leaves, or is one of at most five retries in a
row. The thread dies in a clamp when the file has less than the smallest window left and the
memory limiter refuses the chunk or the read fails; it parks for good when the queue is smaller
than a chunk.
-/

namespace Mntrs

open Base

variable {fits shrunkFits : Bool} {reserved stop w : Nat} {part : Part}

/-- The windows are those of the controller; no chunk is refused and no read is tried again where
less than the smallest window is left; and a range read returns at most its range. -/
def LoopObeys (cfg : PrefetchConfig) (s : Prefetcher) : PrefetchLabel → Prop
  | .iterate w fits _ => cfg.minWindow ≤ w ∧ w ≤ cfg.maxWindow ∧
      (s.offset < cfg.fileSize → fits = false → s.offset + cfg.minWindow ≤ cfg.fileSize)
  | .read (.ok data) => data.length ≤ s.inHand
  | .read .transient => s.consecutiveTransient < maxConsecutiveTransientReadErrors →
      s.offset + cfg.minWindow ≤ cfg.fileSize
  | _ => True

/-- The smallest window is not empty, offsets do not overflow, and a chunk fits into the queue. -/
structure PrefetchConfig.Sound (cfg : PrefetchConfig) : Prop where
  min_pos : 0 < cfg.minWindow
  span : cfg.fileSize + cfg.maxWindow ≤ 2 ^ 64
  queue : cfg.maxWindow ≤ cfg.maxQueueBytes

/-- A chunk of the file at an offset. -/
structure Chunk (cfg : PrefetchConfig) (offset reserved stop : Nat) : Prop where
  pos : 0 < reserved
  le_max : reserved ≤ cfg.maxWindow
  stop_eq : stop = offset + reserved
  inside : stop ≤ cfg.fileSize
  min_le : offset + cfg.minWindow ≤ cfg.fileSize → cfg.minWindow ≤ reserved

/-- What the stage of the thread says about its locals. -/
def StageSound (cfg : PrefetchConfig) (s : Prefetcher) : Prop :=
  match s.stage with
  | .top => s.consecutiveTransient ≤ maxConsecutiveTransientReadErrors
  | .reading reserved stop => s.consecutiveTransient ≤ maxConsecutiveTransientReadErrors ∧
      Chunk cfg s.offset reserved stop
  | .pushing reserved stop part =>
      s.consecutiveTransient ≤ maxConsecutiveTransientReadErrors ∧
      Chunk cfg s.offset reserved stop ∧ part.offset = s.offset ∧ part.data.length ≤ reserved
  | .leaving => True
  | .ended => s.queue.finished = true ∧ s.downloadDone = true
  | .panicked => False

/-- What holds of a prefetcher at any time: its parts lie in the file before the offset of its
thread, and its windows keep their bounds. -/
structure LoopSound (cfg : PrefetchConfig) (s : Prefetcher) : Prop where
  bytes : s.queue.currentBytes = s.queue.queuedBytes
  maxBytes : s.queue.maxBytes = cfg.maxQueueBytes
  before : ∀ part ∈ s.queue.parts, part.stop ≤ s.offset
  inside : s.offset ≤ cfg.fileSize
  retry : ∀ w, s.localWindowOverride = some w → cfg.minWindow ≤ w ∧ w ≤ cfg.maxWindow
  sticky : ∀ w, s.stickyMaxWindow = some w → cfg.minWindow ≤ w
  stage : StageSound cfg s

instance (cfg : PrefetchConfig) (s : Prefetcher) (l : PrefetchLabel) :
    Decidable (LoopObeys cfg s l) :=
  match l with
  | .iterate _ _ _ => inferInstanceAs (Decidable (_ ≤ _ ∧ _ ≤ _ ∧ (_ < _ → _ = _ → _ ≤ _)))
  | .read (.ok _) => inferInstanceAs (Decidable (_ ≤ _))
  | .read .transient => inferInstanceAs (Decidable (_ < _ → _ ≤ _))
  | .read (.failed _) | .push | .leave | .pop _ | .release _ | .cancel => isTrue trivial

variable {cfg : PrefetchConfig} {s t : Prefetcher}

theorem loopSound_start (cfg : PrefetchConfig) : LoopSound cfg (.start cfg) where
  bytes := rfl
  maxBytes := rfl
  before := by simp [Prefetcher.start, PartQueue.new]
  inside := Nat.zero_le _
  retry := by simp [Prefetcher.start]
  sticky := by simp [Prefetcher.start]
  stage := Nat.zero_le _

theorem firstChunk_mem (cfg : PrefetchConfig) :
    cfg.minWindow ≤ cfg.firstChunk ∧ cfg.firstChunk ≤ cfg.maxWindow := by
  have := cfg.min_le_max
  simp only [PrefetchConfig.firstChunk]
  omega

theorem LoopSound.nextWindow_mem (h : LoopSound cfg s) (hmin : cfg.minWindow ≤ w)
    (hmax : w ≤ cfg.maxWindow) :
    cfg.minWindow ≤ s.nextWindow cfg w ∧ s.nextWindow cfg w ≤ cfg.maxWindow := by
  unfold Prefetcher.nextWindow
  split
  · next heq => exact h.retry _ heq
  · have hplain : cfg.minWindow ≤ (if s.offset = 0 then cfg.firstChunk else w) ∧
        (if s.offset = 0 then cfg.firstChunk else w) ≤ cfg.maxWindow := by
      split
      · exact firstChunk_mem cfg
      · exact ⟨hmin, hmax⟩
    simp only
    split
    · next floor heq =>
      have hfloor := h.sticky floor heq
      omega
    · exact hplain

theorem clamp?_half (n low : Nat) (hlow : low ≤ n) :
    ∃ m, clamp? (n / 2) low n = some m ∧ low ≤ m ∧ m ≤ n := by
  refine ⟨_, if_pos hlow, ?_, ?_⟩ <;> omega

/-- What an iteration comes to: it leaves, starts the read of a chunk or of a halved chunk, or
skips a halved chunk. -/
theorem LoopSound.iterate_cases (hcfg : cfg.Sound) (h : LoopSound cfg s)
    (hobeys : LoopObeys cfg s (.iterate w fits shrunkFits)) :
    s.iterate cfg w fits shrunkFits = { s with stage := .leaving } ∨
    (∃ reserved stop, Chunk cfg s.offset reserved stop ∧ stop ≤ s.chunkEnd cfg w ∧
      s.iterate cfg w fits shrunkFits =
        { s.reserve reserved with
          localWindowOverride := none
          stage := .reading reserved stop }) ∨
    ∃ shrunk, 0 < shrunk ∧ s.offset + shrunk ≤ s.chunkEnd cfg w ∧
      s.iterate cfg w fits shrunkFits =
        { s with localWindowOverride := none, offset := s.offset + shrunk } := by
  obtain ⟨hmin, hmax, hroom⟩ := hobeys
  obtain ⟨hwmin, hwmax⟩ := h.nextWindow_mem hmin hmax
  have hpos := hcfg.min_pos
  have hspan := hcfg.span
  unfold Prefetcher.iterate
  split
  · exact .inl rfl
  · next hin =>
    rw [not_or, not_not] at hin
    rw [if_neg (by omega)]
    right
    have hend : s.chunkEnd cfg w = min (s.offset + s.nextWindow cfg w) cfg.fileSize := rfl
    split
    · left
      refine ⟨_, _, ?_, Nat.le_refl _, rfl⟩
      constructor <;> omega
    · next hfits =>
      have hleft := hroom hin.1 (by simpa using hfits)
      obtain ⟨shrunk, hclamp, hlow, hhigh⟩ :=
        clamp?_half (s.chunkEnd cfg w - s.offset) cfg.minWindow (by omega)
      simp only [hclamp]
      split
      · left
        refine ⟨shrunk, min (s.offset + shrunk) cfg.fileSize, ?_, by omega, rfl⟩
        constructor <;> omega
      · right
        exact ⟨shrunk, by omega, by omega, rfl⟩

/-- What a transient error comes to: the sixth in a row ends the loop, the others halve the
window. -/
theorem transientError_cases (hcfg : cfg.Sound) (hchunk : Chunk cfg s.offset reserved stop)
    (hobeys : LoopObeys cfg s (.read .transient)) :
    (∃ err, s.transientError cfg reserved =
      { s.release reserved with
        consecutiveTransient := s.consecutiveTransient + 1
        queue := s.queue.setError err
        stage := .leaving }) ∨
    s.consecutiveTransient < maxConsecutiveTransientReadErrors ∧
      ∃ w, 0 < w ∧ cfg.minWindow ≤ w ∧ w ≤ reserved ∧ s.transientError cfg reserved =
        { s.release reserved with
          consecutiveTransient := s.consecutiveTransient + 1
          stickyMaxWindow := applyStickyFloor s.stickyMaxWindow w
          localWindowOverride := some w
          stage := .top } := by
  unfold Prefetcher.transientError
  simp only
  split
  · exact .inl ⟨_, rfl⟩
  · next hfew =>
    have hfew : s.consecutiveTransient < maxConsecutiveTransientReadErrors := by omega
    have hpos := hcfg.min_pos
    obtain ⟨w, hclamp, hlow, hhigh⟩ := clamp?_half _ _ (hchunk.min_le (hobeys hfew))
    refine .inr ⟨hfew, w, by omega, hlow, hhigh, ?_⟩
    rw [hclamp]
    rfl

/-- What a push comes to: the queue is terminal, or the part is appended. Parts do not overlap. -/
theorem LoopSound.pushPart_cases (h : LoopSound cfg s) (hpart : part.offset = s.offset)
    (hpush : s.pushPart reserved stop part = some t) :
    t = { s.release reserved with stage := .leaving } ∨
      t = { s with
        queue := { s.queue with
          parts := s.queue.parts ++ [part]
          currentBytes := s.queue.currentBytes + part.data.length }
        consecutiveTransient := 0
        offset := stop
        stage := .top } := by
  unfold Prefetcher.pushPart at hpush
  split at hpush
  · cases hpush
    exact .inl rfl
  · split at hpush
    · cases hpush
    · split at hpush
      · next heq =>
        cases hpush
        rw [PartQueue.push_eq_ok heq]
        exact .inr rfl
      · cases hpush
        exact .inl rfl
      · cases hpush
      · next heq =>
        obtain ⟨back, hback, -, hlt⟩ := PartQueue.push_eq_overlap heq
        have := h.before back hback
        omega

/-! ### What a step keeps -/

theorem sticky_applyStickyFloor {low : Nat} {current : Option Nat} {new : Nat}
    (hcurrent : ∀ w, current = some w → low ≤ w) (hnew : low ≤ new)
    (h : applyStickyFloor current new = some w) : low ≤ w := by
  cases current with
  | none =>
    cases h
    exact hnew
  | some floor =>
    cases h
    have := hcurrent floor rfl
    omega

variable {outcome : RangeRead} {l : PrefetchLabel}

section

variable (h : LoopSound cfg s)
include h

/-- A step that moves neither the offset nor the queue keeps what holds of them. -/
theorem LoopSound.congr (hqueue : t.queue.parts = s.queue.parts)
    (hbytes : t.queue.currentBytes = s.queue.currentBytes)
    (hmax : t.queue.maxBytes = s.queue.maxBytes) (hoffset : t.offset = s.offset)
    (hretry : ∀ w, t.localWindowOverride = some w → cfg.minWindow ≤ w ∧ w ≤ cfg.maxWindow)
    (hsticky : ∀ w, t.stickyMaxWindow = some w → cfg.minWindow ≤ w) (hstage : StageSound cfg t) :
    LoopSound cfg t where
  bytes := by rw [hbytes, h.bytes, PartQueue.queuedBytes, PartQueue.queuedBytes, hqueue]
  maxBytes := hmax.trans h.maxBytes
  before := by
    rw [hqueue, hoffset]
    exact h.before
  inside := by
    rw [hoffset]
    exact h.inside
  retry := hretry
  sticky := hsticky
  stage := hstage

/-- An iteration. -/
theorem LoopSound.iterate (hcfg : cfg.Sound)
    (hobeys : LoopObeys cfg s (.iterate w fits shrunkFits)) (hstage : s.stage = .top) :
    LoopSound cfg (s.iterate cfg w fits shrunkFits) := by
  have hfew : s.consecutiveTransient ≤ maxConsecutiveTransientReadErrors := by
    simpa only [StageSound, hstage] using h.stage
  obtain heq | ⟨reserved, stop, hchunk, -, heq⟩ | ⟨shrunk, -, hend, heq⟩ :=
    h.iterate_cases hcfg hobeys
  · rw [heq]
    exact h.congr rfl rfl rfl rfl h.retry h.sticky trivial
  · rw [heq]
    exact h.congr rfl rfl rfl rfl (by simp) h.sticky ⟨hfew, hchunk⟩
  · rw [heq]
    have hinside : s.offset + shrunk ≤ cfg.fileSize := Nat.le_trans hend (Nat.min_le_right _ _)
    exact {
      bytes := h.bytes
      maxBytes := h.maxBytes
      before := fun part hpart ↦ Nat.le_trans (h.before part hpart) (Nat.le_add_right _ _)
      inside := hinside
      retry := by simp
      sticky := h.sticky
      stage := by
        unfold StageSound
        simpa only [hstage] using hfew }

/-- The end of a range read. -/
theorem LoopSound.finishRead (hcfg : cfg.Sound) (hobeys : LoopObeys cfg s (.read outcome))
    (hstage : s.stage = .reading reserved stop) :
    LoopSound cfg (s.finishRead cfg reserved stop outcome) := by
  obtain ⟨hfew, hchunk⟩ : s.consecutiveTransient ≤ maxConsecutiveTransientReadErrors ∧
      Chunk cfg s.offset reserved stop := by
    simpa only [StageSound, hstage] using h.stage
  cases outcome with
  | ok data =>
    have hlen : data.length ≤ reserved := by
      simpa only [LoopObeys, Prefetcher.inHand, hstage] using hobeys
    exact h.congr rfl rfl rfl rfl h.retry h.sticky ⟨hfew, hchunk, rfl, hlen⟩
  | failed message => exact h.congr rfl rfl rfl rfl h.retry h.sticky trivial
  | transient =>
    obtain ⟨err, heq⟩ | ⟨hless, w, -, hlow, hhigh, heq⟩ :=
      transientError_cases hcfg hchunk hobeys
    · rw [Prefetcher.finishRead, heq]
      exact h.congr rfl rfl rfl rfl h.retry h.sticky trivial
    · rw [Prefetcher.finishRead, heq]
      refine h.congr rfl rfl rfl rfl ?_ ?_ hless
      · intro w' hw'
        cases hw'
        exact ⟨hlow, Nat.le_trans hhigh hchunk.le_max⟩
      · intro w' hw'
        exact sticky_applyStickyFloor h.sticky hlow hw'

/-- A push. -/
theorem LoopSound.pushPart (hstage : s.stage = .pushing reserved stop part)
    (hpush : s.pushPart reserved stop part = some t) : LoopSound cfg t := by
  obtain ⟨-, hchunk, hpart, hlen⟩ :
      s.consecutiveTransient ≤ maxConsecutiveTransientReadErrors ∧
      Chunk cfg s.offset reserved stop ∧ part.offset = s.offset ∧
      part.data.length ≤ reserved := by
    simpa only [StageSound, hstage] using h.stage
  have hstop := hchunk.stop_eq
  obtain rfl | rfl := h.pushPart_cases hpart hpush
  · exact h.congr rfl rfl rfl rfl h.retry h.sticky trivial
  · exact {
      bytes := by
        simp [PartQueue.queuedBytes, h.bytes]
      maxBytes := h.maxBytes
      before := by
        intro p hp
        obtain hp | hp := List.mem_append.mp hp
        · have := h.before p hp
          show p.stop ≤ stop
          omega
        · cases List.mem_singleton.mp hp
          show part.offset + part.data.length ≤ stop
          omega
      inside := hchunk.inside
      retry := h.retry
      sticky := h.sticky
      stage := Nat.zero_le _ }

/-- A pop. -/
theorem LoopSound.popPart (offset : Nat) : LoopSound cfg (s.popPart offset) := by
  obtain ⟨hbytes, hparts, -⟩ := s.queue.pop_spec offset h.bytes
  exact {
    bytes := hbytes
    maxBytes := h.maxBytes
    before := fun part hpart ↦ h.before part (hparts part hpart)
    inside := h.inside
    retry := h.retry
    sticky := h.sticky
    stage := h.stage }

/-- Every step keeps the loop sound. -/
theorem LoopSound.step (hcfg : cfg.Sound) (hobeys : LoopObeys cfg s l)
    (hstep : prefetchStep cfg l s = some t) : LoopSound cfg t := by
  unfold prefetchStep at hstep
  split at hstep
  · next hstage =>
    cases hstep
    exact h.iterate hcfg hobeys hstage
  · next hstage =>
    cases hstep
    exact h.finishRead hcfg hobeys hstage
  · next hstage => exact h.pushPart hstage hstep
  · cases hstep
    exact h.congr rfl rfl rfl rfl h.retry h.sticky ⟨rfl, rfl⟩
  · cases hstep
    exact h.popPart _
  · obtain ⟨n, -, rfl⟩ := Option.map_eq_some_iff.mp hstep
    exact h.congr rfl rfl rfl rfl h.retry h.sticky h.stage
  · cases hstep
    exact h.congr rfl rfl rfl rfl h.retry h.sticky h.stage
  · cases hstep

end

/-! ### What a step moves -/

/-- What the thread still has to do: the rest of the file, the retries at this offset, and the
stages of the iteration. -/
def loopMeasure (cfg : PrefetchConfig) (s : Prefetcher) : Nat :=
  let retries := 6 * (cfg.fileSize - s.offset) +
    (maxConsecutiveTransientReadErrors - s.consecutiveTransient)
  match s.stage with
  | .top => 3 * retries + 4
  | .reading _ _ => 3 * retries + 3
  | .pushing _ _ _ => 3 * retries + 2
  | .leaving => 1
  | .ended | .panicked => 0

/-- The end of an iteration: the thread has moved on, or is in one of five retries. -/
def Advances (s t : Prefetcher) : Prop :=
  s.offset < t.offset ∨ t.offset = s.offset ∧
    t.consecutiveTransient = s.consecutiveTransient + 1 ∧
    t.consecutiveTransient ≤ maxConsecutiveTransientReadErrors

/-- What a step of the thread does with its chunk: one that comes back to the top of the loop
advances, a chunk that is read or skipped is a part of the chunk of the iteration, and a retry has
a window between one byte and the chunk that failed. -/
structure IterationStep (cfg : PrefetchConfig) (l : PrefetchLabel) (s t : Prefetcher) : Prop where
  advances : t.stage = .top → Advances s t
  chunk : ∀ w fits shrunkFits reserved stop, l = .iterate w fits shrunkFits →
    t.stage = .reading reserved stop → 1 ≤ reserved ∧ reserved ≤ s.chunkEnd cfg w - s.offset
  skipped : ∀ w fits shrunkFits, l = .iterate w fits shrunkFits → t.stage = .top →
    t.offset ≤ s.chunkEnd cfg w
  retried : ∀ w, l = .read .transient → t.stage = .top → t.localWindowOverride = some w →
    1 ≤ w ∧ w ≤ s.inHand
  lowers : loopMeasure cfg t < loopMeasure cfg s

theorem loopMeasure_lt_of_advances (hstage : t.stage = .top) (hadvances : Advances s t)
    (hinside : t.offset ≤ cfg.fileSize)
    (hs : 3 * (6 * (cfg.fileSize - s.offset) +
      (maxConsecutiveTransientReadErrors - s.consecutiveTransient)) + 2 ≤ loopMeasure cfg s) :
    loopMeasure cfg t < loopMeasure cfg s := by
  refine Nat.lt_of_lt_of_le ?_ hs
  simp only [loopMeasure, hstage]
  simp only [maxConsecutiveTransientReadErrors, Advances] at *
  omega

theorem LoopSound.iterationStep_iterate (hcfg : cfg.Sound) (h : LoopSound cfg s)
    (hobeys : LoopObeys cfg s (.iterate w fits shrunkFits)) (hstage : s.stage = .top) :
    IterationStep cfg (.iterate w fits shrunkFits) s (s.iterate cfg w fits shrunkFits) := by
  have hmeasure : loopMeasure cfg s = 3 * (6 * (cfg.fileSize - s.offset) +
      (maxConsecutiveTransientReadErrors - s.consecutiveTransient)) + 4 := by
    simp [loopMeasure, hstage]
  obtain heq | ⟨reserved, stop, hchunk, hend, heq⟩ | ⟨shrunk, hpos, hend, heq⟩ :=
    h.iterate_cases hcfg hobeys
  · rw [heq]
    constructor <;> simp [loopMeasure, hstage]
  · rw [heq]
    have hpos := hchunk.pos
    have hstop := hchunk.stop_eq
    refine ⟨by simp, ?_, by simp, by simp, ?_⟩
    · intro w' _ _ reserved' stop' hl hreading
      cases hl
      cases hreading
      omega
    · rw [hmeasure]
      simp only [loopMeasure, Prefetcher.reserve]
      omega
  · rw [heq]
    have hinside : s.offset + shrunk ≤ cfg.fileSize := Nat.le_trans hend (Nat.min_le_right _ _)
    have hadvances : Advances s
        { s with localWindowOverride := none, offset := s.offset + shrunk } :=
      .inl (Nat.lt_add_of_pos_right hpos)
    refine ⟨fun _ ↦ hadvances, ?_, ?_, by simp, ?_⟩
    · simp [hstage]
    · intro w' _ _ hl _
      cases hl
      exact hend
    · exact loopMeasure_lt_of_advances hstage hadvances hinside (by omega)

theorem LoopSound.iterationStep_read (hcfg : cfg.Sound) (h : LoopSound cfg s)
    (hobeys : LoopObeys cfg s (.read outcome)) (hstage : s.stage = .reading reserved stop) :
    IterationStep cfg (.read outcome) s (s.finishRead cfg reserved stop outcome) := by
  obtain ⟨hfew, hchunk⟩ : s.consecutiveTransient ≤ maxConsecutiveTransientReadErrors ∧
      Chunk cfg s.offset reserved stop := by
    simpa only [StageSound, hstage] using h.stage
  cases outcome with
  | ok data => constructor <;> simp [Prefetcher.finishRead, loopMeasure, hstage]
  | failed message =>
    constructor <;> simp [Prefetcher.finishRead, loopMeasure, hstage, Prefetcher.release]
  | transient =>
    obtain ⟨err, heq⟩ | ⟨hless, w, hpos, -, hhigh, heq⟩ :=
      transientError_cases hcfg hchunk hobeys
    · rw [Prefetcher.finishRead, heq]
      constructor <;> simp [loopMeasure, hstage, Prefetcher.release]
    · rw [Prefetcher.finishRead, heq]
      have hadvances : Advances s
          { s.release reserved with
            consecutiveTransient := s.consecutiveTransient + 1
            stickyMaxWindow := applyStickyFloor s.stickyMaxWindow w
            localWindowOverride := some w
            stage := .top } :=
        .inr ⟨rfl, rfl, hless⟩
      refine ⟨fun _ ↦ hadvances, by simp, by simp, ?_, ?_⟩
      · intro w' _ _ hw'
        cases hw'
        simp only [Prefetcher.inHand, hstage]
        omega
      · refine loopMeasure_lt_of_advances rfl hadvances h.inside ?_
        simp only [loopMeasure, hstage]
        omega

theorem LoopSound.iterationStep_push (h : LoopSound cfg s)
    (hstage : s.stage = .pushing reserved stop part)
    (hpush : s.pushPart reserved stop part = some t) : IterationStep cfg .push s t := by
  obtain ⟨-, hchunk, hpart, -⟩ :
      s.consecutiveTransient ≤ maxConsecutiveTransientReadErrors ∧
      Chunk cfg s.offset reserved stop ∧ part.offset = s.offset ∧
      part.data.length ≤ reserved := by
    simpa only [StageSound, hstage] using h.stage
  obtain rfl | heq := h.pushPart_cases hpart hpush
  · constructor <;> simp [loopMeasure, hstage, Prefetcher.release]
  · have hpos := hchunk.pos
    have hstop := hchunk.stop_eq
    have hadvances : Advances s t := by
      left
      rw [heq]
      show s.offset < stop
      omega
    refine ⟨fun _ ↦ hadvances, by simp, by simp, by simp, ?_⟩
    refine loopMeasure_lt_of_advances (by rw [heq]) hadvances (by rw [heq]; exact hchunk.inside) ?_
    simp only [loopMeasure, hstage]
    omega

/-- Every step of the thread. -/
theorem LoopSound.iterationStep (hcfg : cfg.Sound) (h : LoopSound cfg s)
    (hobeys : LoopObeys cfg s l) (hown : l.ofThread) (hstep : prefetchStep cfg l s = some t) :
    IterationStep cfg l s t := by
  unfold prefetchStep at hstep
  split at hstep
  · next hstage =>
    cases hstep
    exact h.iterationStep_iterate hcfg hobeys hstage
  · next hstage =>
    cases hstep
    exact h.iterationStep_read hcfg hobeys hstage
  · next hstage => exact h.iterationStep_push hstage hstep
  · next hstage =>
    cases hstep
    constructor <;> simp [loopMeasure, hstage]
  · cases hown
  · cases hown
  · cases hown
  · cases hstep

theorem loopMeasure_eq_of_reader (hown : l.ofThread = false)
    (hstep : prefetchStep cfg l s = some t) : loopMeasure cfg t = loopMeasure cfg s := by
  unfold prefetchStep at hstep
  split at hstep
  · cases hown
  · cases hown
  · cases hown
  · cases hown
  · cases hstep
    rfl
  · obtain ⟨n, -, rfl⟩ := Option.map_eq_some_iff.mp hstep
    rfl
  · cases hstep
    rfl
  · cases hstep

/-- A pusher is parked only on a queue with parts in it, whose readers can wake it. -/
theorem LoopSound.pushPart_enabled (hcfg : cfg.Sound) (h : LoopSound cfg s) (stop : Nat)
    (hle : reserved ≤ cfg.maxWindow) (hlen : part.data.length ≤ reserved)
    (hempty : s.queue.parts = []) : ∃ t, s.pushPart reserved stop part = some t := by
  have hbytes : s.queue.currentBytes = 0 := by
    rw [h.bytes, PartQueue.queuedBytes, hempty]
    rfl
  have hroom : ∀ n ≤ reserved, s.queue.isFullFor n = false := by
    intro n hn
    have hqueue := hcfg.queue
    simp only [PartQueue.isFullFor, hbytes, h.maxBytes, decide_eq_false_iff_not]
    omega
  unfold Prefetcher.pushPart
  split
  · exact ⟨_, rfl⟩
  · rw [hroom reserved (Nat.le_refl _)]
    simp only [Bool.false_eq_true, if_false]
    split
    · exact ⟨_, rfl⟩
    · exact ⟨_, rfl⟩
    · next heq =>
      have hfull := PartQueue.push_eq_full heq
      rw [hroom _ hlen] at hfull
      cases hfull
    · exact ⟨_, rfl⟩

/-- A thread that has not ended can take a step, or is parked with parts in the queue. -/
theorem LoopSound.progress (hcfg : cfg.Sound) (h : LoopSound cfg s) (hstage : s.stage ≠ .ended) :
    (∃ l t, l.ofThread = true ∧ LoopObeys cfg s l ∧ prefetchStep cfg l s = some t) ∨
      s.queue.parts ≠ [] ∧ s.queue.isTerminal = false := by
  have hsound := h.stage
  cases hs : s.stage with
  | top =>
    have hstep : prefetchStep cfg (.iterate cfg.minWindow true true) s =
        some (s.iterate cfg cfg.minWindow true true) := by
      simp [prefetchStep, hs]
    exact .inl ⟨.iterate cfg.minWindow true true, _, rfl,
      ⟨Nat.le_refl _, cfg.min_le_max, by simp⟩, hstep⟩
  | reading reserved stop =>
    have hstep : prefetchStep cfg (.read (.ok [])) s =
        some (s.finishRead cfg reserved stop (.ok [])) := by
      simp [prefetchStep, hs]
    exact .inl ⟨.read (.ok []), _, rfl, Nat.zero_le _, hstep⟩
  | pushing reserved stop part =>
    obtain ⟨-, hchunk, -, hlen⟩ :
        s.consecutiveTransient ≤ maxConsecutiveTransientReadErrors ∧
        Chunk cfg s.offset reserved stop ∧ part.offset = s.offset ∧
        part.data.length ≤ reserved := by
      simpa only [StageSound, hs] using hsound
    by_cases hempty : s.queue.parts = []
    · obtain ⟨t, ht⟩ := h.pushPart_enabled hcfg stop hchunk.le_max hlen hempty
      refine .inl ⟨.push, t, rfl, trivial, ?_⟩
      simp only [prefetchStep, hs]
      exact ht
    · cases hterminal : s.queue.isTerminal with
      | false => exact .inr ⟨hempty, rfl⟩
      | true =>
        have hstep : prefetchStep cfg .push s =
            some { s.release reserved with stage := .leaving } := by
          simp [prefetchStep, hs, Prefetcher.pushPart, hterminal]
        exact .inl ⟨.push, _, rfl, trivial, hstep⟩
  | leaving =>
    have hstep : prefetchStep cfg .leave s =
        some { s with queue := s.queue.setFinished, downloadDone := true, stage := .ended } := by
      simp [prefetchStep, hs]
    exact .inl ⟨.leave, _, rfl, trivial, hstep⟩
  | ended => exact absurd hs hstage
  | panicked => simp [StageSound, hs] at hsound

/-- **The download loop ends.** In every run, whatever the limiter, the backend and the readers do
within the conditions, the thread does not panic and the parts lie in the file; each of its steps
is a step of an iteration that moves on; it takes at most as many steps as the file allows; it can
go on unless it waits for a reader of a queue with parts in it; and at its end the queue is
finished and the thread marked as done. -/
theorem download_loop_ends_of_run (hcfg : cfg.Sound) {ls : List PrefetchLabel}
    (hrun : exec (prefetchStep cfg) ls (.start cfg) = some s)
    (hobeys : Admits (prefetchStep cfg) (LoopObeys cfg) ls (.start cfg)) :
    s.stage ≠ .panicked ∧
    (∀ part ∈ s.queue.parts, part.stop ≤ cfg.fileSize) ∧
    (∀ l t, l.ofThread = true → LoopObeys cfg s l → prefetchStep cfg l s = some t →
      IterationStep cfg l s t) ∧
    ls.countP PrefetchLabel.ofThread ≤ 18 * cfg.fileSize + 19 ∧
    (s.stage ≠ .ended →
      (∃ l t, l.ofThread = true ∧ LoopObeys cfg s l ∧ prefetchStep cfg l s = some t) ∨
        s.queue.parts ≠ [] ∧ s.queue.isTerminal = false) ∧
    (s.stage = .ended → s.queue.finished = true ∧ s.downloadDone = true) := by
  have hstep : ∀ s l t, LoopSound cfg s → LoopObeys cfg s l → prefetchStep cfg l s = some t →
      LoopSound cfg t := fun s l t h hl ht ↦ h.step hcfg hl ht
  have h : LoopSound cfg s :=
    (guardedRun_of_exec hrun hobeys).invariant (LoopSound cfg) hstep (loopSound_start cfg)
  refine ⟨?_, ?_, ?_, ?_, h.progress hcfg, ?_⟩
  · intro hpanicked
    have := h.stage
    simp [StageSound, hpanicked] at this
  · intro part hpart
    exact Nat.le_trans (h.before part hpart) h.inside
  · intro l t hown hl ht
    exact h.iterationStep hcfg hl hown ht
  · have hlt : ∀ s l t, LoopSound cfg s → LoopObeys cfg s l → prefetchStep cfg l s = some t →
        l.ofThread = true → loopMeasure cfg t < loopMeasure cfg s :=
      fun s l t h hl ht hown ↦ (h.iterationStep hcfg hl hown ht).lowers
    have hle : ∀ s l t, LoopSound cfg s → LoopObeys cfg s l → prefetchStep cfg l s = some t →
        loopMeasure cfg t ≤ loopMeasure cfg s := by
      intro s l t h hl ht
      cases hown : l.ofThread with
      | true => exact Nat.le_of_lt (hlt s l t h hl ht hown)
      | false => exact Nat.le_of_eq (loopMeasure_eq_of_reader hown ht)
    have hbound := countP_add_le_of_measure PrefetchLabel.ofThread (loopMeasure cfg) hstep hle hlt
      (loopSound_start cfg) hrun hobeys
    simp only [loopMeasure, Prefetcher.start, maxConsecutiveTransientReadErrors] at hbound
    omega
  · intro hended
    simpa only [StageSound, hended] using h.stage

/-- A transient error, a chunk that is refused once, and the rest of the file. -/
def fetchFive : List PrefetchLabel :=
  [.iterate 2 true true, .read .transient, .iterate 2 false true, .read (.ok [1, 2]), .push,
    .pop 0, .iterate 3 true true, .read (.ok [3, 4]), .push, .iterate 3 true true,
    .read (.ok [5]), .push, .iterate 3 true true, .leave]

theorem download_loop_ends_of_run_sample :
    ∃ s, exec (prefetchStep fiveBytes) fetchFive (.start fiveBytes) = some s ∧
      s.stage ≠ .panicked ∧ fetchFive.countP PrefetchLabel.ofThread ≤ 18 * 5 + 19 ∧
      s.queue.finished = true ∧ s.downloadDone = true := by
  obtain ⟨s, hrun, hended⟩ := exists_exec (prefetchStep fiveBytes) (fun s ↦ s.stage = .ended)
    fetchFive (.start fiveBytes) (by decide)
  obtain ⟨halive, -, -, hcount, -, hdone⟩ := download_loop_ends_of_run
    ⟨by decide, by decide, by decide⟩ hrun (by decide)
  exact ⟨s, hrun, halive, hcount, hdone hended⟩

/-- When the limiter refuses the last chunk of a file, and that chunk is smaller than the smallest
window, the bounds of the clamp are crossed: the thread dies without marking its end. -/
theorem refused_tail_panics :
    ∃ s, exec (prefetchStep fiveBytes)
        [.iterate 4 true true, .read (.ok [1, 2, 3, 4]), .push, .iterate 4 false false]
        (.start fiveBytes) = some s ∧
      s.stage = .panicked ∧ s.queue.finished = false ∧ s.downloadDone = false :=
  exists_exec (prefetchStep fiveBytes)
    (fun s ↦ s.stage = .panicked ∧ s.queue.finished = false ∧ s.downloadDone = false) _ _
    (by decide)

end Mntrs

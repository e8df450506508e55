import Mntrs.Model.State
import Mntrs.Prefetch.Prefetcher

/-!
# Room for a part

`read_and_push` parks while a part does not fit, also when the queue is empty and the part is
larger than the whole queue. The queue is sized from `--vfs-prefetch-queue-mb`
(`compute_prefetch_queue_bytes`, `src/src/lib.rs:1351-1358`) and the chunks from the read chunk
size and the windows of the controller (`maybe_create_prefetcher`, `1309-1337`), and nothing
relates the two.
-/

namespace Mntrs

open Base

/-- The options of a mount that size its prefetchers. -/
structure PrefetchOptions where
  prefetchThreshold : Nat
  prefetchQueueMb : Nat
  readAhead : Nat
  readChunkSize : Nat
deriving DecidableEq, Repr

/-- `compute_prefetch_queue_bytes`. -/
def computePrefetchQueueBytes (mode : CacheMode) (opts : PrefetchOptions) : Nat :=
  let base := max opts.prefetchQueueMb 1 * 1024 * 1024
  if mode = .full ∧ 0 < opts.readAhead then min (base + opts.readAhead) (2 ^ 64 - 1) else base

/-- `maybe_create_prefetcher`, with the windows of `BackpressureController::new`. -/
def maybeCreatePrefetcher (mode : CacheMode) (opts : PrefetchOptions) (fileSize : Nat) :
    Option PrefetchConfig :=
  if opts.prefetchThreshold = 0 ∨ fileSize < opts.prefetchThreshold then none
  else some {
    fileSize := fileSize
    maxQueueBytes := computePrefetchQueueBytes mode opts
    chunkSize := max 131072 (min opts.readChunkSize (16 * 1024 * 1024))
    minWindow := 128 * 1024
    maxWindow := 64 * 1024 * 1024
    min_le_max := by decide }

/-- The thread is parked, and waits for room in an empty queue. -/
def Prefetcher.WaitsOnEmpty (s : Prefetcher) : Prop :=
  s.queue.parts = [] ∧ s.queue.isTerminal = false ∧
    ∃ reserved stop part, s.stage = .pushing reserved stop part ∧
      s.pushPart reserved stop part = none

/-- The chunk of an iteration fits into the queue, and a range read returns at most its range. -/
def ChunkFits (cfg : PrefetchConfig) (s : Prefetcher) : PrefetchLabel → Prop
  | .iterate w _ _ => s.chunkEnd cfg w - s.offset ≤ cfg.maxQueueBytes
  | .read (.ok data) => data.length ≤ s.inHand
  | _ => True

instance (cfg : PrefetchConfig) (s : Prefetcher) (l : PrefetchLabel) :
    Decidable (ChunkFits cfg s l) :=
  match l with
  | .iterate _ _ _ | .read (.ok _) => inferInstanceAs (Decidable (_ ≤ _))
  | .read .transient | .read (.failed _) | .push | .leave | .pop _ | .release _ | .cancel =>
    isTrue trivial

/-- The queue is counted, and what the thread has in hand fits into it when it is empty. -/
structure Fitting (cfg : PrefetchConfig) (s : Prefetcher) : Prop where
  bytes : s.queue.currentBytes = s.queue.queuedBytes
  maxBytes : s.queue.maxBytes = cfg.maxQueueBytes
  hand : s.inHand ≤ cfg.maxQueueBytes
  part : ∀ reserved stop part, s.stage = .pushing reserved stop part →
    part.data.length ≤ reserved

variable {cfg : PrefetchConfig} {s t : Prefetcher}

section

variable (h : Fitting cfg s)
include h

private theorem Fitting.congr (hparts : t.queue.parts = s.queue.parts)
    (hbytes : t.queue.currentBytes = s.queue.currentBytes)
    (hmax : t.queue.maxBytes = s.queue.maxBytes) (hhand : t.inHand ≤ cfg.maxQueueBytes)
    (hpart : ∀ reserved stop part, t.stage = .pushing reserved stop part →
      part.data.length ≤ reserved) : Fitting cfg t where
  bytes := by rw [hbytes, h.bytes, PartQueue.queuedBytes, PartQueue.queuedBytes, hparts]
  maxBytes := hmax.trans h.maxBytes
  hand := hhand
  part := hpart

private theorem Fitting.iterate {w : Nat} {fits shrunkFits : Bool}
    (hfits : s.chunkEnd cfg w - s.offset ≤ cfg.maxQueueBytes) (hstage : s.stage = .top) :
    Fitting cfg (s.iterate cfg w fits shrunkFits) := by
  unfold Prefetcher.iterate
  split
  · exact h.congr rfl rfl rfl (Nat.zero_le _) (by simp)
  · split
    · exact h.congr rfl rfl rfl (Nat.zero_le _) (by simp)
    · simp only
      split
      · exact h.congr rfl rfl rfl hfits (by simp)
      · split
        · exact h.congr rfl rfl rfl (Nat.zero_le _) (by simp)
        · next shrunk hclamp =>
          have hle : shrunk ≤ s.chunkEnd cfg w - s.offset := by
            unfold clamp? at hclamp
            split at hclamp <;> cases hclamp
            omega
          split
          · exact h.congr rfl rfl rfl (hle.trans hfits) (by simp)
          · exact h.congr rfl rfl rfl (by simp [Prefetcher.inHand, hstage]) (by simp [hstage])

private theorem Fitting.finishRead {reserved stop : Nat} {outcome : RangeRead}
    (hfits : ChunkFits cfg s (.read outcome)) (hstage : s.stage = .reading reserved stop) :
    Fitting cfg (s.finishRead cfg reserved stop outcome) := by
  have hhand : s.inHand = reserved := by simp [Prefetcher.inHand, hstage]
  cases outcome with
  | ok data =>
    refine h.congr rfl rfl rfl (hhand ▸ h.hand) ?_
    intro reserved' stop' part hpart
    cases hpart
    exact hhand ▸ hfits
  | failed message => exact h.congr rfl rfl rfl (Nat.zero_le _) (by simp [Prefetcher.finishRead])
  | transient =>
    unfold Prefetcher.finishRead Prefetcher.transientError
    simp only
    split
    · exact h.congr rfl rfl rfl (Nat.zero_le _) (by simp)
    · split <;> exact h.congr rfl rfl rfl (Nat.zero_le _) (by simp)

private theorem Fitting.pushPart {reserved stop : Nat} {part : Part}
    (hpush : s.pushPart reserved stop part = some t) : Fitting cfg t := by
  unfold Prefetcher.pushPart at hpush
  split at hpush
  · cases hpush
    exact h.congr rfl rfl rfl (Nat.zero_le _) (by simp)
  · split at hpush
    · cases hpush
    · split at hpush <;> cases hpush
      · next heq =>
        rw [PartQueue.push_eq_ok heq]
        refine ⟨?_, h.maxBytes, Nat.zero_le _, by simp⟩
        simp [PartQueue.queuedBytes, h.bytes]
      · exact h.congr rfl rfl rfl (Nat.zero_le _) (by simp)
      · exact h.congr rfl rfl rfl (Nat.zero_le _) (by simp)

/-- Every step whose chunk fits keeps the thread's part fitting. -/
theorem Fitting.step {l : PrefetchLabel} (hfits : ChunkFits cfg s l)
    (hstep : prefetchStep cfg l s = some t) : Fitting cfg t := by
  unfold prefetchStep at hstep
  split at hstep
  · next hstage =>
    cases hstep
    exact h.iterate hfits hstage
  · next hstage =>
    cases hstep
    exact h.finishRead hfits hstage
  · exact h.pushPart hstep
  · cases hstep
    exact h.congr rfl rfl rfl (Nat.zero_le _) (by simp)
  · cases hstep
    obtain ⟨hbytes, -, -⟩ := s.queue.pop_spec _ h.bytes
    exact ⟨hbytes, h.maxBytes, h.hand, h.part⟩
  · obtain ⟨n, -, rfl⟩ := Option.map_eq_some_iff.mp hstep
    exact h.congr rfl rfl rfl h.hand h.part
  · cases hstep
    exact h.congr rfl rfl rfl h.hand h.part
  · cases hstep

/-- An empty queue has room for what fits into it. -/
theorem Fitting.not_waitsOnEmpty : ¬ s.WaitsOnEmpty := by
  rintro ⟨hempty, hlive, reserved, stop, part, hstage, hpush⟩
  have hhand : s.inHand = reserved := by simp [Prefetcher.inHand, hstage]
  have hroom : ∀ n ≤ reserved, s.queue.isFullFor n = false := by
    intro n hn
    have hle := hhand ▸ h.hand
    have hzero : s.queue.currentBytes = 0 := by
      rw [h.bytes, PartQueue.queuedBytes, hempty]
      rfl
    simp only [PartQueue.isFullFor, hzero, h.maxBytes, decide_eq_false_iff_not]
    omega
  have hlen := h.part reserved stop part hstage
  simp [Prefetcher.pushPart, PartQueue.push, hlive, hroom reserved (Nat.le_refl _), hroom _ hlen,
    hempty] at hpush

end

/-- **The producer is not stuck on its own.** In every run, for every size of queue, chunk, windows
and file, whose iterations reserve chunks that fit into the queue, the thread never waits for room
in an empty queue. -/
theorem never_waits_on_empty_of_run
    (hrun : GuardedRun (prefetchStep cfg) (ChunkFits cfg) (.start cfg) s) : ¬ s.WaitsOnEmpty := by
  refine Fitting.not_waitsOnEmpty (hrun.invariant (Fitting cfg)
    (fun s l t h hl ht ↦ h.step hl ht) ⟨rfl, rfl, Nat.zero_le _, ?_⟩)
  simp [Prefetcher.start]

theorem never_waits_on_empty_of_run_sample :
    ∃ s, GuardedRun (prefetchStep fiveBytes) (ChunkFits fiveBytes) (.start fiveBytes) s ∧
      s.stage = .pushing 4 4 ⟨0, [1, 2, 3, 4]⟩ ∧ ¬ s.WaitsOnEmpty := by
  obtain ⟨s, hrun, hstage⟩ := exists_guardedRun (prefetchStep fiveBytes) (ChunkFits fiveBytes)
    (fun s ↦ s.stage = .pushing 4 4 ⟨0, [1, 2, 3, 4]⟩)
    [.iterate 2 true true, .read (.ok [1, 2, 3, 4])] (.start fiveBytes) (by decide) (by decide)
  exact ⟨s, hrun, hstage, never_waits_on_empty_of_run hrun⟩

/-- A first chunk that is larger than the queue is waited for, whatever was read. -/
theorem waitsOnEmpty_of_large_chunk (hsmall : cfg.maxQueueBytes < cfg.firstChunk)
    (hfile : cfg.firstChunk ≤ cfg.fileSize) (hspan : cfg.fileSize < 2 ^ 64) (w : Nat)
    (data : Bytes) : ∃ s,
      exec (prefetchStep cfg) [.iterate w true true, .read (.ok data)] (.start cfg) = some s ∧
        s.WaitsOnEmpty := by
  have hend : (Prefetcher.start cfg).chunkEnd cfg w = cfg.firstChunk := by
    simp [Prefetcher.chunkEnd, Prefetcher.nextWindow, Prefetcher.start, hfile]
  have hiterate : (Prefetcher.start cfg).iterate cfg w true true =
      { (Prefetcher.start cfg).reserve cfg.firstChunk with
        stage := .reading cfg.firstChunk cfg.firstChunk } := by
    have hpos : 0 < cfg.fileSize := by omega
    unfold Prefetcher.iterate
    simp only [hend]
    simp [Prefetcher.nextWindow, Prefetcher.start, PartQueue.new, hpos, Prefetcher.reserve]
    omega
  refine ⟨{ (Prefetcher.start cfg).reserve cfg.firstChunk with
    stage := .pushing cfg.firstChunk cfg.firstChunk ⟨0, data⟩ }, ?_, rfl, rfl, _, _, _, rfl, ?_⟩
  · simp only [exec, prefetchStep, Prefetcher.start] at hiterate ⊢
    simp [hiterate, Prefetcher.finishRead, Prefetcher.reserve]
  · simp [Prefetcher.pushPart, Prefetcher.reserve, Prefetcher.start, PartQueue.new,
      PartQueue.isTerminal, PartQueue.isFullFor, hsmall]

/-- A mount with a queue of eight MiB and the default chunk size: the first chunk of a file of
sixteen MiB never fits. -/
theorem first_chunk_never_fits : ∃ cfg,
    maybeCreatePrefetcher .writes ⟨16777216, 8, 0, 134217728⟩ 16777216 = some cfg ∧
      ∀ w data, ∃ s,
        exec (prefetchStep cfg) [.iterate w true true, .read (.ok data)] (.start cfg) = some s ∧
          s.WaitsOnEmpty :=
  ⟨_, rfl, fun w data ↦ waitsOnEmpty_of_large_chunk (by decide) (by decide) (by decide) w data⟩

end Mntrs

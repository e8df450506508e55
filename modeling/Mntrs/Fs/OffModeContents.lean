import Mntrs.Fs.WriteContents

/-!
# What an off-mode write leaves in the pending buffer

The off-mode branch of `MntrsFs::write` (`src/src/lib.rs:5692-5767,5786-5857`) as a function on
buffer contents. The gap before the write is fetched against the length of the buffer; an empty
buffer of a file that should not be empty is then seeded once more, under the lock. Outside the
writes that extend a buffer just seeded, the handler overlays the data on the content it finds,
with the hole before the write taken from the backend up to `gapBackfillMax`.
-/

namespace Mntrs

open Base

variable {data v : Bytes} {offset : Nat}

/-- A handle is open for writing on an off-mode buffer. -/
def BufferedOn (fs : MntrsFs) (fh : Fh) (path : Path) (b : BufId) : Prop :=
  ∃ h, fs.handles.lookup fh = some (.write h) ∧ h.path = path ∧ h.inMemoryBuffer = some b ∧
    h.writeBufferFd = none

/-- The content an off-mode write starts from: what the buffer holds, or for an empty buffer the
object, if the file should not be empty and the object is no shorter than its known size. -/
def offModeCurrent (v : Bytes) (fetched : Option Bytes) (knownSize offset : Nat) : Bytes :=
  if v.isEmpty ∧ (0 < knownSize ∨ 0 < offset) then
    match fetched with
    | some bytes => if knownSize ≤ bytes.length then bytes else v
    | none => v
  else v

/-- The size an inode is known to have. -/
def knownSize (fs : MntrsFs) (ino : Ino) : Nat :=
  ((fs.inodes.lookup ino).map InodeEntry.size).getD 0

/-- The subtraction that bounds the gap underflows, which is a panic where overflow is checked. -/
def spliceUnderflows (v : Bytes) (gap : Option Bytes) (offset : Nat) (data : Bytes) : Bool :=
  gap.isSome && decide (v.length < offset + data.length) && decide (offset < v.length)

/-- The write extends a buffer that it has just seeded, elsewhere than at its end: the gap was
fetched for the empty buffer and does not fit the seeded one. -/
def ExtendsSeed (v : Bytes) (fetched : Option Bytes) (knownSize offset : Nat) (data : Bytes) :
    Prop :=
  v = [] ∧ 0 < offset ∧ offset ≤ gapBackfillMax ∧
    ∃ bytes, fetched = some bytes ∧ bytes ≠ [] ∧ knownSize ≤ bytes.length ∧
      bytes.length ≠ offset ∧ bytes.length < offset + data.length

theorem take_gap {g : Bytes} (hv : v.length ≤ offset) (hcap : offset - v.length ≤ gapBackfillMax) :
    g.take (min g.length ((offset + 2 ^ 64 - v.length) % 2 ^ 64)) =
      g.take (offset - v.length) := by
  have hsmall : offset - v.length < 2 ^ 64 := Nat.lt_of_le_of_lt hcap (by decide)
  have hshift : offset + 2 ^ 64 - v.length = offset - v.length + 2 ^ 64 := by omega
  rw [hshift, Nat.add_mod_right, Nat.mod_eq_of_lt hsmall, Nat.min_comm, ← List.take_eq_take_min]

theorem spliceBuffer_of_le (h : offset + data.length ≤ v.length) (gap : Option Bytes)
    (fill : Nat → UInt8) : spliceBuffer v gap offset data = overlay fill v offset data := by
  have hsplice := splice_eq_overlay 0 v offset data
  simp only [if_neg (Nat.not_lt.mpr h)] at hsplice
  simp only [spliceBuffer, if_neg (Nat.not_lt.mpr h)]
  rw [hsplice]
  apply overlay_congr_fill
  intro i hi hio
  omega

theorem spliceBuffer_none (h : v.length < offset + data.length) :
    spliceBuffer v none offset data = overlay (fun _ ↦ 0) v offset data := by
  have hsplice := splice_eq_overlay 0 v offset data
  simp only [if_pos h] at hsplice
  simp only [spliceBuffer, if_pos h]
  exact hsplice

/-- A gap that starts at the end of the buffer and ends at the write is the fill of the hole. -/
theorem spliceBuffer_some {g : Bytes} (h : v.length < offset + data.length) (hv : v.length ≤ offset)
    (hcap : offset - v.length ≤ gapBackfillMax) :
    spliceBuffer v (some g) offset data =
      overlay (fun i ↦ g.getD (i - v.length) 0) v offset data := by
  have hlen : v.length + (g.take (offset - v.length)).length ≤ offset := by
    rw [List.length_take]
    omega
  simp only [spliceBuffer, if_pos h, take_gap hv hcap]
  have hsplice := splice_eq_overlay 0 (v ++ g.take (offset - v.length)) offset data
  refine hsplice.trans ?_
  rw [overlay_append 0 v _ data hlen]
  apply overlay_congr_fill
  intro i hi hio
  rw [List.getD_eq_getElem?_getD, List.getD_eq_getElem?_getD, List.getElem?_take,
    if_pos (by omega)]

/-- A write starts from its buffer, or from the object where the buffer is empty. -/
theorem offModeCurrent_cases (v : Bytes) (fetched : Option Bytes) (known offset : Nat) :
    offModeCurrent v fetched known offset = v ∨
      v = [] ∧ ∃ bytes, fetched = some bytes ∧ known ≤ bytes.length ∧
        offModeCurrent v fetched known offset = bytes := by
  unfold offModeCurrent
  split
  · next hempty =>
    split
    · next bytes =>
      split
      · next hknown => exact .inr ⟨List.isEmpty_iff.mp hempty.1, bytes, rfl, hknown, rfl⟩
      · exact .inl rfl
    · exact .inl rfl
  · exact .inl rfl

/-- The gap that is fetched for a buffer of some length, where the object is as given. -/
def gapFor (obj : Option Bytes) (len offset : Nat) : Option Bytes :=
  if len < offset ∧ offset - len ≤ gapBackfillMax then some (slice (obj.getD []) len offset)
  else none

theorem gapFill_of_le {obj : Option Bytes} {i : Nat} (h : (obj.getD []).length ≤ i)
    (len offset : Nat) : gapFill obj len offset i = 0 := by
  unfold gapFill
  split
  · rw [List.getD_eq_getElem?_getD, List.getElem?_eq_none h, Option.getD_none]
  · rfl

theorem spliceBuffer_gapFor (obj : Option Bytes) (v : Bytes) (offset : Nat) (data : Bytes) :
    spliceBuffer v (gapFor obj v.length offset) offset data =
        overlay (gapFill obj v.length offset) v offset data ∧
      spliceUnderflows v (gapFor obj v.length offset) offset data = false := by
  by_cases hlen : v.length < offset + data.length
  · by_cases hgap : v.length < offset ∧ offset - v.length ≤ gapBackfillMax
    · rw [gapFor, if_pos hgap]
      refine ⟨?_, by simp [spliceUnderflows]; omega⟩
      rw [spliceBuffer_some hlen (Nat.le_of_lt hgap.1) hgap.2]
      apply overlay_congr_fill
      intro i hi hio
      rw [gapFill, if_pos hgap.2, List.getD_eq_getElem?_getD, getElem?_slice _ (by omega)]
      congr 2
      omega
    · rw [gapFor, if_neg hgap]
      refine ⟨?_, rfl⟩
      rw [spliceBuffer_none hlen]
      apply overlay_congr_fill
      intro i hi hio
      rw [gapFill, if_neg (fun hcap ↦ hgap ⟨by omega, hcap⟩)]
  · exact ⟨spliceBuffer_of_le (by omega) _ _, by simp [spliceUnderflows]; omega⟩

/-- The gap of the empty buffer fits a seeded one only where nothing of it is used. -/
theorem spliceBuffer_seeded {bytes : Bytes} {known : Nat} (hknown : known ≤ bytes.length)
    (hseed : ¬ ExtendsSeed [] (some bytes) known offset data) :
    spliceBuffer bytes (gapFor (some bytes) 0 offset) offset data =
        overlay (gapFill (some bytes) 0 offset) bytes offset data ∧
      spliceUnderflows bytes (gapFor (some bytes) 0 offset) offset data = false := by
  have hfill : ∀ i, bytes.length ≤ i → gapFill (some bytes) 0 offset i = 0 :=
    fun i hi ↦ gapFill_of_le hi 0 offset
  by_cases hlen : bytes.length < offset + data.length
  · by_cases hgap : 0 < offset ∧ offset - 0 ≤ gapBackfillMax
    · -- the write is at the end of the object, or the object is empty
      have hfits : bytes = [] ∨ bytes.length = offset := by
        by_contra hnot
        rw [not_or] at hnot
        exact hseed ⟨rfl, hgap.1, hgap.2, bytes, rfl, hnot.1, hknown, hnot.2, hlen⟩
      rw [gapFor, if_pos hgap]
      have hle : bytes.length ≤ offset := by
        rcases hfits with rfl | heq
        · exact Nat.zero_le offset
        · exact Nat.le_of_eq heq
      refine ⟨?_, by simp [spliceUnderflows]; omega⟩
      rw [spliceBuffer_some hlen hle (by omega)]
      apply overlay_congr_fill
      intro i hi hio
      rw [hfill i hi]
      rcases hfits with rfl | heq
      · simp [slice]
      · omega
    · rw [gapFor, if_neg hgap]
      refine ⟨?_, rfl⟩
      rw [spliceBuffer_none hlen]
      apply overlay_congr_fill
      intro i hi _
      rw [hfill i hi]
  · exact ⟨spliceBuffer_of_le (by omega) _ _, by simp [spliceUnderflows]; omega⟩

section OffMode

variable {cfg : Config} {fs : MntrsFs} {fh : Fh} {path : Path} {b : BufId}

/-- What the gap fetch of an off-mode write brings: the object's bytes from the end of the buffer
to the write, when there is a hole of at most the cap. -/
theorem fetchGap_offMode (hmode : cfg.cacheMode.diskWriteBuffer = false)
    (hbuffer : handleBuffer fs fh = some b) {env : WriteEnv} {gap : Option Bytes}
    (hanswer : env.gapRead = some .notFound → fs.backend path = none)
    (hgap : fetchGap cfg fs fh path none offset env = .ok gap) :
    gap = gapFor (fs.backend path) (fs.buffers b).data.length offset := by
  unfold gapFor
  simp only [fetchGap, hmode, Bool.false_eq_true, if_false, hbuffer] at hgap
  by_cases hzero : offset = 0
  · rw [if_pos hzero] at hgap
    cases hgap
    rw [if_neg (by omega)]
  · rw [if_neg hzero] at hgap
    by_cases hhole : (fs.buffers b).data.length < offset
    · rw [if_pos hhole] at hgap
      by_cases hcap : offset - (fs.buffers b).data.length ≤ gapBackfillMax
      · rw [if_pos hcap] at hgap
        rw [if_pos ⟨hhole, hcap⟩]
        unfold readRange at hgap
        cases hfail : env.gapRead with
        | some e =>
          rw [hfail] at hgap
          cases e with
          | notFound =>
            cases hgap
            simp [hanswer hfail, slice]
          | _ => cases hgap
        | none =>
          rw [hfail] at hgap
          cases hobj : fs.backend path with
          | none =>
            rw [hobj] at hgap
            cases hgap
            simp [slice]
          | some obj =>
            rw [hobj] at hgap
            cases hgap
            rfl
      · rw [if_neg hcap] at hgap
        cases hgap
        rw [if_neg (fun h ↦ hcap h.2)]
    · rw [if_neg hhole] at hgap
      cases hgap
      rw [if_neg (fun h ↦ hhole h.1)]

/-- An off-mode write that succeeds fetched its gap and spliced the data into the content it
started from. -/
theorem write_ok_of_buffered (hmode : cfg.cacheMode.diskWriteBuffer = false)
    (hdirect : cfg.directIo = false) (hopen : BufferedOn fs fh path b) {ino : Ino} {n : Nat}
    {env : WriteEnv} (hok : (write cfg fs ino fh offset data env).1 = .ok n) :
    ∃ gap, fetchGap cfg fs fh path none offset env = .ok gap ∧
      ((write cfg fs ino fh offset data env).2.buffers b).data =
        spliceBuffer (offModeCurrent (fs.buffers b).data (fetchBackendBytes fs env.seedRead path)
          (knownSize fs ino) offset) gap offset data := by
  obtain ⟨h, hh, rfl, hbuf, hfd⟩ := hopen
  have htarget : writeTarget fs fh = some (h.path, none) := by simp [writeTarget, hh, hfd]
  have hbuffer : handleBuffer fs fh = some b := by simp [handleBuffer, hh, hbuf]
  cases hgap : fetchGap cfg fs fh h.path none offset env with
  | error e => simp [write, writeBegin, htarget, hdirect, hgap] at hok
  | ok gap =>
    refine ⟨gap, rfl, ?_⟩
    set c : WriteCall := ⟨ino, fh, h.path, none, offset, data, gap, env⟩ with hc
    have hwrite : write cfg fs ino fh offset data env =
        (.ok data.length, writeFinish cfg (writeEnqueue cfg (writeOffMode fs c) c) c) := by
      simp [write, writeBegin, htarget, hdirect, hgap, writeRest, writeBuffer, hmode, hc]
    have hstate : ∃ registered, writeOffMode fs c =
        { fs with
          buffers := Function.update fs.buffers b
            { fs.buffers b with
              data := spliceBuffer (offModeCurrent (fs.buffers b).data
                (fetchBackendBytes fs env.seedRead h.path) (knownSize fs ino) offset) gap offset
                data
              dirty := true }
          offModeBuffers := registered } := by
      simp only [writeOffMode, hc, hbuffer]
      exact ⟨_, rfl⟩
    obtain ⟨registered, hstate⟩ := hstate
    have hkept : (writeIndex cfg (writeEnqueue cfg (writeOffMode fs c) c) c).handles =
        fs.handles := by
      rw [writeIndex_frame, writeEnqueue_frame, hstate]
    rw [hwrite, writeFinish, markDirty_of_write (h := h) (by rw [hkept]; exact hh)]
    rw [writeIndex_frame, writeEnqueue_frame, hstate]
    simp

end OffMode

/-- An off-mode write that returns `Ok`, and does not extend a buffer it has just seeded elsewhere
than at its end, overlays the data on the content it started from. The hole before the write gets
the bytes the object has there, up to the cap of the gap, and zeros otherwise; nothing
underflows. -/
theorem off_mode_write_overlays {cfg : Config} {fs : MntrsFs} {fh : Fh} {path : Path} {b : BufId}
    {ino : Ino} {offset n : Nat} {data : Bytes} {env : WriteEnv}
    (hmode : cfg.cacheMode.diskWriteBuffer = false) (hdirect : cfg.directIo = false)
    (hopen : BufferedOn fs fh path b)
    (hanswer : env.gapRead = some .notFound → fs.backend path = none)
    (hok : (write cfg fs ino fh offset data env).1 = .ok n)
    (hseed : ¬ ExtendsSeed (fs.buffers b).data (fetchBackendBytes fs env.seedRead path)
      (knownSize fs ino) offset data) :
    let current := offModeCurrent (fs.buffers b).data (fetchBackendBytes fs env.seedRead path)
      (knownSize fs ino) offset
    IsOverlay (gapFill (fs.backend path) (fs.buffers b).data.length offset) current offset data
        ((write cfg fs ino fh offset data env).2.buffers b).data ∧
      ∀ gap, fetchGap cfg fs fh path none offset env = .ok gap →
        spliceUnderflows current gap offset data = false := by
  intro current
  obtain ⟨h, hh, hpath, hbuf, hfd⟩ := id hopen
  have hbuffer : handleBuffer fs fh = some b := by simp [handleBuffer, hh, hbuf]
  obtain ⟨gap, hgap, hdata⟩ := write_ok_of_buffered hmode hdirect hopen hok
  have hfor := fetchGap_offMode hmode hbuffer hanswer hgap
  have hsplice : spliceBuffer current gap offset data =
        overlay (gapFill (fs.backend path) (fs.buffers b).data.length offset) current offset data ∧
      spliceUnderflows current gap offset data = false := by
    rw [hfor]
    rcases offModeCurrent_cases (fs.buffers b).data (fetchBackendBytes fs env.seedRead path)
      (knownSize fs ino) offset with hsame | ⟨hempty, bytes, hfetched, hknown, hbytes⟩
    · rw [show current = (fs.buffers b).data from hsame]
      exact spliceBuffer_gapFor _ _ offset data
    · have hobj : fs.backend path = some bytes := by
        unfold fetchBackendBytes at hfetched
        split at hfetched
        · cases hfetched
        · exact hfetched
      rw [show current = bytes from hbytes, hempty, hobj]
      rw [hempty, hfetched] at hseed
      exact spliceBuffer_seeded hknown hseed
  constructor
  · rw [hdata, hsplice.1]
    exact isOverlay_overlay _ _ _ _
  · intro gap' hgap'
    rw [hgap] at hgap'
    cases hgap'
    exact hsplice.2

/-- A mount in off mode with one handle on a buffer of two bytes, over an object of four. -/
def twoPendingOfFour : MntrsFs :=
  { MntrsFs.mounted (Function.update (fun _ ↦ none) ['a'] (some [1, 2, 3, 4])) .empty with
    handles := AList.singleton 1 (.write ⟨['a'], none, some 0, false, none, none, none⟩)
    buffers := fun _ ↦ ⟨[1, 2], true, false⟩ }

/-- A write one past the end of the pending bytes. -/
theorem off_mode_write_overlays_sample :
    IsOverlay (gapFill (some [1, 2, 3, 4]) 2 3) [1, 2] 3 [9]
      ((write (.plain .off) twoPendingOfFour 2 1 3 [9] .ok).2.buffers 0).data :=
  (@off_mode_write_overlays (.plain .off) twoPendingOfFour 1 ['a'] 0 2 3 1 [9] .ok rfl rfl
    ⟨_, rfl, rfl, rfl, rfl⟩ (fun h ↦ by cases h) rfl (fun h ↦ by cases h.1)).1

/-- The hole of that write is not left zero: it gets the byte the object has there. -/
theorem off_mode_write_fills_hole :
    (write (.plain .off) twoPendingOfFour 2 1 3 [9] .ok).1 = .ok 1 ∧
      ¬ IsOverlay (fun _ ↦ 0) (twoPendingOfFour.buffers 0).data 3 [9]
        ((write (.plain .off) twoPendingOfFour 2 1 3 [9] .ok).2.buffers 0).data := by
  refine ⟨rfl, ?_⟩
  intro hover
  have hfill := hover.filled 2 (by decide) (by decide)
  revert hfill
  decide

end Mntrs

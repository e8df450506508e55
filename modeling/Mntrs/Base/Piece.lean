import Mathlib.Data.List.TakeWhile
import Mntrs.Base.Overlay

/-!
# Pieces of a sequence

A reader that keeps parts of a sequence in several places answers each request from one of
them. `IsPiece w a d` says that `d` is what `w` holds from position `a` on, as far as `d`
reaches; a slice of a piece is then a slice of `w` that may stop early. `cutBlocks` cuts a
piece into the aligned blocks it covers.
-/

namespace Mntrs.Base

variable {α : Type*}

/-- `d` is a part of `w` that starts at position `a`. -/
def IsPiece (w : List α) (a : Nat) (d : List α) : Prop := d <+: w.drop a

/-- The length of a slice. -/
theorem length_slice (w : List α) (o stop : Nat) :
    (slice w o stop).length = min (stop - o) (w.length - o) := by
  simp [slice]

/-- Two slices from one position are equal exactly when they stop at the same place or past
the end. -/
theorem slice_eq_slice_iff {w : List α} {o stop stop' : Nat} :
    slice w o stop = slice w o stop' ↔
      min stop w.length - o = min stop' w.length - o := by
  constructor
  · intro h
    have hlength := congrArg List.length h
    simp only [length_slice] at hlength
    omega
  · intro h
    simp only [slice]
    rw [List.take_eq_take_iff]
    simp only [List.length_drop]
    omega

namespace IsPiece

variable {w d : List α} {a : Nat}

/-- The whole sequence is a piece of itself. -/
theorem refl (w : List α) : IsPiece w 0 w := by simp [IsPiece]

/-- A slice is a piece. -/
theorem of_slice (w : List α) (a stop : Nat) : IsPiece w a (slice w a stop) :=
  List.take_prefix _ _

/-- A piece is the slice of its length. -/
theorem eq_slice (h : IsPiece w a d) : d = slice w a (a + d.length) := by
  rw [slice, Nat.add_sub_cancel_left]
  exact List.prefix_iff_eq_take.mp h

theorem slice_eq (h : IsPiece w a d) (i n : Nat) :
    slice d i (i + n) = slice w (a + i) (min (a + i + n) (a + d.length)) := by
  conv_lhs => rw [h.eq_slice, slice_slice]
  apply slice_eq_slice_iff.mpr
  omega

/-- A slice from a position of the sequence at or after the start of the piece. -/
theorem slice_from (h : IsPiece w a d) {o : Nat} (hle : a ≤ o) (n : Nat) :
    slice d (o - a) (o - a + n) = slice w o (min (o + n) (a + d.length)) := by
  rw [h.slice_eq, Nat.add_sub_cancel' hle]

/-- The same for a piece from the start. -/
theorem slice_zero (h : IsPiece w 0 d) (o n : Nat) :
    slice d o (o + n) = slice w o (min (o + n) d.length) := by
  rw [h.slice_eq]
  simp

end IsPiece

/-- The aligned blocks of size `B` that a piece starting at `offset` covers, with their
numbers. A partial block at the start is left out, and one at the end unless `tail` is set. -/
def cutBlocks (B offset : Nat) (d : List α) (tail : Bool) : List (Nat × List α) :=
  let inBlock := offset % B
  let (dataStart, first) :=
    if 0 < inBlock then (B - inBlock, offset / B + 1) else (0, offset / B)
  let count := (d.length - dataStart + B - 1) / B
  let kept := (List.range count).takeWhile (fun i ↦ tail || dataStart + (i + 1) * B ≤ d.length)
  kept.map (fun i ↦ (first + i, slice d (dataStart + i * B) (dataStart + (i + 1) * B)))

/-- Every block cut from a piece is the block of the sequence under its number, when a partial
block is kept only at the end of the sequence. -/
theorem eq_of_mem_cutBlocks {B offset k : Nat} {w d b : List α} {tail : Bool} (hB : 0 < B)
    (hpiece : IsPiece w offset d) (htail : tail = true → w.length ≤ offset + d.length)
    (hmem : (k, b) ∈ cutBlocks B offset d tail) : b = slice w (k * B) ((k + 1) * B) := by
  unfold cutBlocks at hmem
  -- the first block starts at the first multiple of `B` that is not below the offset
  obtain ⟨dataStart, first, hpair, hfirst⟩ : ∃ dataStart first,
      (if 0 < offset % B then (B - offset % B, offset / B + 1) else (0, offset / B)) =
        (dataStart, first) ∧ offset + dataStart = first * B := by
    have hdiv := Nat.div_add_mod' offset B
    have hlt := Nat.mod_lt offset hB
    split
    · refine ⟨_, _, rfl, ?_⟩
      rw [Nat.add_mul]
      omega
    · exact ⟨_, _, rfl, by omega⟩
  simp only [hpair, List.mem_map, Prod.mk.injEq] at hmem
  obtain ⟨i, hi, rfl, rfl⟩ := hmem
  have hkeep := List.mem_takeWhile_imp hi
  have hstart : offset + (dataStart + i * B) = (first + i) * B := by
    rw [Nat.add_mul]
    omega
  have hwidth : dataStart + (i + 1) * B = dataStart + i * B + B := by
    rw [Nat.add_mul]
    omega
  have hstop : (first + i + 1) * B = (first + i) * B + B := by
    rw [Nat.add_mul, Nat.one_mul]
  rw [hwidth, hpiece.slice_eq, hstart]
  simp only [Bool.or_eq_true, decide_eq_true_eq] at hkeep
  apply slice_eq_slice_iff.mpr
  rcases hkeep with hkeep | hkeep
  · have := htail hkeep
    omega
  · omega

end Mntrs.Base

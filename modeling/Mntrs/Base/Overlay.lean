import Mathlib.Data.List.Basic

/-!
# Files as lists: truncation, positioned writes and overlays

A file is a list over an arbitrary type with a filler for holes. `setLen` and
`writeAt` are the two primitives a program uses on an open file; `overlay` is the
file a positioned write is meant to leave, with the hole before the write taken from
a fill function. `IsOverlay` says the same position by position.
-/

namespace Mntrs.Base

universe u

variable {α : Type u}

/-- Cut a file to `n` positions, or extend it to `n` with the filler. -/
def setLen (zero : α) (f : List α) (n : Nat) : List α :=
  f.take n ++ List.replicate (n - f.length) zero

/-- Write `d` at position `o`. A write past the end leaves a hole of fillers; a write
of no data leaves the file as it is. -/
def writeAt (zero : α) (f : List α) (o : Nat) : List α → List α
  | [] => f
  | d => f.take o ++ List.replicate (o - f.length) zero ++ d ++ f.drop (o + d.length)

/-- The file a write of `d` at `o` is meant to leave: `d` over `f`, the hole between
the end of `f` and `o` filled position by position. -/
def overlay (fill : Nat → α) (f : List α) (o : Nat) (d : List α) : List α :=
  f.take o ++ (List.range' f.length (o - f.length)).map fill ++ d ++ f.drop (o + d.length)

/-- The slice of a file between two positions, clipped to the file. -/
def slice (f : List α) (start stop : Nat) : List α :=
  (f.drop start).take (stop - start)

/-- `g` is `d` written over `f` at `o`, stated position by position. -/
structure IsOverlay (fill : Nat → α) (f : List α) (o : Nat) (d g : List α) : Prop where
  length_eq : g.length = max f.length (o + d.length)
  written : ∀ i, i < d.length → g[o + i]? = d[i]?
  kept : ∀ i, i < f.length → (i < o ∨ o + d.length ≤ i) → g[i]? = f[i]?
  filled : ∀ i, f.length ≤ i → i < o → g[i]? = some (fill i)

variable {i o : Nat} {d : List α}

section

variable (fill : Nat → α) (f : List α)

@[simp] theorem length_setLen (zero : α) (f : List α) (n : Nat) :
    (setLen zero f n).length = n := by
  simp only [setLen, List.length_append, List.length_take, List.length_replicate]
  omega

@[simp] theorem length_overlay (o : Nat) (d : List α) :
    (overlay fill f o d).length = max f.length (o + d.length) := by
  simp only [overlay, List.length_append, List.length_take, List.length_map,
    List.length_range', List.length_drop]
  omega

/-- The slice of a file never reaches past its two ends. -/
theorem length_slice_le (start stop : Nat) : (slice f start stop).length ≤ stop - start := by
  simp only [slice, List.length_take]
  omega

/-- A position of a slice is the position of the file shifted by its start. -/
theorem getElem?_slice {start stop : Nat} (h : i < stop - start) :
    (slice f start stop)[i]? = f[start + i]? := by
  simp [slice, h]

/-- A slice of a slice is the slice at the shifted position, clipped to the outer one. -/
theorem slice_slice (start stop i n : Nat) :
    slice (slice f start stop) i (i + n) =
      slice f (start + i) (start + i + min n (stop - start - i)) := by
  simp only [slice, List.drop_take, List.drop_drop, List.take_take]
  congr 1
  omega

/-- The front of a slice is a shorter slice. -/
theorem take_slice (start m n : Nat) :
    (slice f start (start + m)).take n = slice f start (start + min n m) := by
  simp only [slice, List.take_take]
  congr 1
  omega

/-- Before the write an overlay is the file, then the fill of the hole. -/
theorem getElem?_overlay_of_lt (d : List α) (h : i < o) :
    (overlay fill f o d)[i]? = if i < f.length then f[i]? else some (fill i) := by
  have hhead : i < (f.take o ++ (List.range' f.length (o - f.length)).map fill).length := by
    simp only [List.length_append, List.length_take, List.length_map, List.length_range']
    omega
  rw [overlay, List.append_assoc _ d, List.getElem?_append_left hhead]
  by_cases hf : i < f.length
  · rw [if_pos hf, List.getElem?_append_left (by simp; omega), List.getElem?_take, if_pos h]
  · rw [if_neg hf, List.getElem?_append_right (by simp; omega)]
    have hlt : i - (f.take o).length < o - f.length := by simp; omega
    rw [List.getElem?_map, List.getElem?_range' hlt]
    simp only [List.length_take, Option.map_some, Option.some.injEq]
    congr 1
    omega

theorem getElem?_overlay_of_le (d : List α) (h : o ≤ i) :
    (overlay fill f o d)[i]? = if i < o + d.length then d[i - o]? else f[i]? := by
  have hlen : (f.take o ++ (List.range' f.length (o - f.length)).map fill).length = o := by
    simp only [List.length_append, List.length_take, List.length_map, List.length_range']
    omega
  rw [overlay, List.append_assoc _ d, List.getElem?_append_right (by omega), hlen]
  by_cases hd : i < o + d.length
  · rw [if_pos hd, List.getElem?_append_left (by omega)]
  · rw [if_neg hd, List.getElem?_append_right (by omega), List.getElem?_drop]
    congr 1
    omega

/-- From the write on, an overlay of a file that ends no later is the data. -/
theorem drop_overlay {f : List α} (h : f.length ≤ o + d.length) :
    (overlay fill f o d).drop o = d := by
  rw [overlay, List.drop_eq_nil_of_le h, List.append_nil]
  apply List.drop_left'
  simp only [List.length_append, List.length_take, List.length_map, List.length_range']
  omega

/-- The overlay function meets its position-by-position description. -/
theorem isOverlay_overlay (o : Nat) (d : List α) : IsOverlay fill f o d (overlay fill f o d) where
  length_eq := length_overlay fill f o d
  written i hi := by
    rw [getElem?_overlay_of_le fill f d (Nat.le_add_right o i), if_pos (by omega),
      Nat.add_sub_cancel_left]
  kept i hi hout := by
    rcases hout with h | h
    · rw [getElem?_overlay_of_lt fill f d h, if_pos hi]
    · rw [getElem?_overlay_of_le fill f d (by omega), if_neg (by omega)]
  filled i hf ho := by
    rw [getElem?_overlay_of_lt fill f d ho, if_neg (by omega)]

/-- Overlays depend on the fill only inside the hole. -/
theorem overlay_congr_fill {fill fill' : Nat → α} {f : List α}
    (h : ∀ i, f.length ≤ i → i < o → fill i = fill' i) :
    overlay fill f o d = overlay fill' f o d := by
  have hmap : (List.range' f.length (o - f.length)).map fill =
      (List.range' f.length (o - f.length)).map fill' := by
    apply List.map_congr_left
    intro i hi
    rw [List.mem_range'_1] at hi
    exact h i hi.1 (by omega)
  rw [overlay, overlay, hmap]

theorem getElem?_setLen (zero : α) (f : List α) {n : Nat} (h : i < n) :
    (setLen zero f n)[i]? = if i < f.length then f[i]? else some zero := by
  by_cases hf : i < f.length
  · rw [if_pos hf, setLen, List.getElem?_append_left (by simp; omega), List.getElem?_take,
      if_pos h]
  · rw [if_neg hf, setLen, List.getElem?_append_right (by simp; omega),
      List.getElem?_replicate, if_pos (by simp; omega)]

theorem writeAt_of_ne_nil (zero : α) (f : List α) (o : Nat) (h : d ≠ []) :
    writeAt zero f o d = overlay (fun _ ↦ zero) f o d := by
  cases d with
  | nil => exact absurd rfl h
  | cons a d => simp [writeAt, overlay]

/-- Writing at the end of a file appends. -/
theorem writeAt_length (zero : α) (f d : List α) : writeAt zero f f.length d = f ++ d := by
  cases d with
  | nil | cons a d => simp [writeAt]

/-- Setting the length to the end of the write and then writing overlays the file cut at
that end: whatever the file held past the write is gone. -/
theorem writeAt_setLen (zero : α) (f : List α) (o : Nat) (d : List α) :
    writeAt zero (setLen zero f (o + d.length)) o d =
      overlay (fun _ ↦ zero) (f.take (o + d.length)) o d := by
  have hcut : setLen zero f o = overlay (fun _ ↦ zero) (f.take o) o [] := by
    have hgap : o - min o f.length = o - f.length := by omega
    simp [setLen, overlay, hgap, List.take_take]
  by_cases hd : d = []
  · subst d
    simpa [writeAt] using hcut
  · rw [writeAt_of_ne_nil zero _ o hd]
    apply List.ext_getElem?
    intro i
    rcases Nat.lt_or_ge i o with hi | hi
    · rw [getElem?_overlay_of_lt _ _ _ hi, getElem?_overlay_of_lt _ _ _ hi, length_setLen,
        if_pos (Nat.lt_add_right _ hi), getElem?_setLen zero f (Nat.lt_add_right _ hi),
        List.length_take]
      by_cases hf : i < f.length
      · rw [if_pos hf, if_pos (by omega), List.getElem?_take, if_pos (by omega)]
      · rw [if_neg hf, if_neg (by omega)]
    · rw [getElem?_overlay_of_le _ _ _ hi, getElem?_overlay_of_le _ _ _ hi]
      by_cases hin : i < o + d.length
      · rw [if_pos hin, if_pos hin]
      · rw [if_neg hin, if_neg hin, List.getElem?_eq_none (by simp; omega),
          List.getElem?_eq_none (by simp; omega)]

/-- Bytes appended up to the write act as the fill of the hole. -/
theorem overlay_append (zero : α) (f g : List α) (d : List α) (h : f.length + g.length ≤ o) :
    overlay (fun _ ↦ zero) (f ++ g) o d =
      overlay (fun i ↦ g.getD (i - f.length) zero) f o d := by
  apply List.ext_getElem?
  intro i
  rcases Nat.lt_or_ge i o with hi | hi
  · rw [getElem?_overlay_of_lt _ _ _ hi, getElem?_overlay_of_lt _ _ _ hi, List.length_append]
    by_cases hf : i < f.length
    · rw [if_pos (by omega), if_pos hf, List.getElem?_append_left hf]
    · rw [if_neg hf, List.getElem?_append_right (by omega), List.getD_eq_getElem?_getD]
      by_cases hg : i - f.length < g.length
      · rw [if_pos (by omega), List.getElem?_eq_getElem hg, Option.getD_some]
      · rw [if_neg (by omega), List.getElem?_eq_none (by omega), Option.getD_none]
  · rw [getElem?_overlay_of_le _ _ _ hi, getElem?_overlay_of_le _ _ _ hi]
    by_cases hin : i < o + d.length
    · rw [if_pos hin, if_pos hin]
    · rw [if_neg hin, if_neg hin, List.getElem?_eq_none (by simp; omega),
        List.getElem?_eq_none (by omega)]

/-- Extending a file up to the end of the data and putting the data in place overlays it with a
hole of fillers. -/
theorem splice_eq_overlay (zero : α) (f : List α) (o : Nat) (d : List α) :
    let g := if f.length < o + d.length then setLen zero f (o + d.length) else f
    g.take o ++ d ++ g.drop (o + d.length) = overlay (fun _ ↦ zero) f o d := by
  intro g
  have hlen : o + d.length ≤ g.length := by
    simp only [g]
    split
    · exact Nat.le_of_eq (length_setLen zero f _).symm
    · omega
  have hget : ∀ i, i < o + d.length →
      g[i]? = if i < f.length then f[i]? else some zero := by
    intro i hi
    simp only [g]
    split
    · exact getElem?_setLen zero f hi
    · rw [if_pos (by omega)]
  have hrest : g.drop (o + d.length) = f.drop (o + d.length) := by
    simp only [g]
    split
    · rw [List.drop_eq_nil_of_le (by simp), List.drop_eq_nil_of_le (by omega)]
    · rfl
  apply List.ext_getElem?
  intro i
  rcases Nat.lt_or_ge i o with hi | hi
  · rw [List.append_assoc, List.getElem?_append_left (by rw [List.length_take]; omega),
      List.getElem?_take, if_pos hi, hget i (by omega), getElem?_overlay_of_lt _ _ _ hi]
  · rw [List.append_assoc, List.getElem?_append_right (by rw [List.length_take]; omega), hrest,
      List.length_take, Nat.min_eq_left (by omega), getElem?_overlay_of_le _ _ _ hi]
    by_cases hin : i < o + d.length
    · rw [if_pos hin, List.getElem?_append_left (by omega)]
    · rw [if_neg hin, List.getElem?_append_right (by omega), List.getElem?_drop]
      congr 1
      omega

end

/-! ### Writes inside a file -/

end Mntrs.Base

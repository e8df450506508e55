import Mathlib.Algebra.BigOperators.Group.List.Basic
import Mathlib.Algebra.GroupWithZero.Nat

/-!
# Pages of a list

What fits into a page from the front of a list, and what a search for the first element that a
predicate rejects answers on a list that the predicate splits.
-/

namespace Mntrs.Base

universe u

variable {α : Type u}

/-- The elements at the front that fit into some room. -/
def takeFitting (size : α → Nat) : Nat → List α → List α
  | _, [] => []
  | room, a :: l => if size a ≤ room then a :: takeFitting size (room - size a) l else []

/-- The elements up to the first one that does not fit. -/
theorem exists_takeFitting (size : α → Nat) (room : Nat) (l : List α) :
    ∃ rest, l = takeFitting size room l ++ rest ∧
      ((takeFitting size room l).map size).sum ≤ room ∧
      ∀ a ∈ rest.head?, room < ((takeFitting size room l).map size).sum + size a := by
  induction l generalizing room with
  | nil => exact ⟨[], rfl, Nat.zero_le _, fun _ h ↦ by cases h⟩
  | cons a l ih =>
    by_cases ha : size a ≤ room
    · obtain ⟨rest, hl, hsum, hnext⟩ := ih (room - size a)
      rw [takeFitting, if_pos ha]
      refine ⟨rest, by rw [List.cons_append, ← hl], ?_, ?_⟩
      · rw [List.map_cons, List.sum_cons]
        omega
      · intro b hb
        have hroom := hnext b hb
        rw [List.map_cons, List.sum_cons]
        omega
    · rw [takeFitting, if_neg ha]
      refine ⟨a :: l, rfl, Nat.zero_le _, ?_⟩
      rintro b ⟨⟩
      simpa using ha

/-- A front that fits and is followed by something that does not. -/
theorem takeFitting_append {size : α → Nat} {room : Nat} {page rest : List α}
    (hsum : (page.map size).sum ≤ room)
    (hnext : ∀ a ∈ rest.head?, room < (page.map size).sum + size a) :
    takeFitting size room (page ++ rest) = page := by
  induction page generalizing room with
  | nil =>
    cases rest with
    | nil => rfl
    | cons a rest =>
      have hroom := hnext a rfl
      simp only [List.map_nil, List.sum_nil, Nat.zero_add] at hroom
      rw [List.nil_append, takeFitting, if_neg (Nat.not_le.mpr hroom)]
  | cons a page ih =>
    rw [List.map_cons, List.sum_cons] at hsum hnext
    rw [List.cons_append, takeFitting, if_pos (by omega), ih (by omega)]
    intro b hb
    have hroom := hnext b hb
    omega

theorem mem_of_mem_takeFitting {size : α → Nat} {room : Nat} {l : List α} {a : α}
    (h : a ∈ takeFitting size room l) : a ∈ l := by
  obtain ⟨rest, hl, -⟩ := exists_takeFitting size room l
  rw [hl]
  exact List.mem_append_left rest h

/-- The predicate holds on a front of the list and nowhere after it. -/
def Partitioned (p : α → Bool) (l : List α) : Prop := ∀ a ∈ l.dropWhile p, p a = false

/-- A search for the end of the front, which may answer anything where there is none. -/
def IsPartitionPoint (search : (α → Bool) → List α → Nat) : Prop :=
  ∀ p l, Partitioned p l → l.drop (search p l) = l.dropWhile p

instance (p : α → Bool) (l : List α) : Decidable (Partitioned p l) :=
  inferInstanceAs (Decidable (∀ a ∈ l.dropWhile p, p a = false))

/-- A search that answers something fixed where there is no such front. -/
def partitionPointOr (other : List α → Nat) (p : α → Bool) (l : List α) : Nat :=
  if Partitioned p l then (l.takeWhile p).length else other l

theorem isPartitionPoint_partitionPointOr (other : List α → Nat) :
    IsPartitionPoint (partitionPointOr other) := by
  intro p l hsplit
  rw [partitionPointOr, if_pos hsplit]
  nth_rewrite 2 [← List.takeWhile_append_dropWhile (p := p) (l := l)]
  exact List.drop_left

end Mntrs.Base

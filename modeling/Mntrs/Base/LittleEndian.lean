import Mathlib.Algebra.Order.Ring.Nat
import Mathlib.Data.List.Basic

/-!
# Little-endian numbers and checked slices

What a parser of a binary format does with its input: take a range of it, subtract lengths and
read numbers of a fixed width. The range and the subtraction are checked, and `none` is the panic
of a program that gets them wrong.
-/

namespace Mntrs.Base

universe u

variable {α : Type u}

/-- `xs[start..stop]`. -/
def slice? (xs : List α) (start stop : Nat) : Option (List α) :=
  if start ≤ stop ∧ stop ≤ xs.length then some ((xs.take stop).drop start) else none

/-- `a - b` of unsigned numbers. -/
def checkedSub (a b : Nat) : Option Nat := if b ≤ a then some (a - b) else none

/-- A range inside the list is taken. -/
theorem slice?_of_le {xs : List α} {start stop : Nat} (hle : start ≤ stop)
    (hlen : stop ≤ xs.length) : slice? xs start stop = some ((xs.take stop).drop start) := by
  simp [slice?, hle, hlen]

/-- The middle of three lists is the range between their lengths. -/
theorem slice?_append (front : List α) {middle rest : List α} {start stop : Nat}
    (hstart : start = front.length) (hstop : stop = front.length + middle.length) :
    slice? (front ++ (middle ++ rest)) start stop = some middle := by
  subst hstart hstop
  rw [slice?_of_le (Nat.le_add_right _ _) (by simp), List.take_append]
  simp

/-- A range behind a first list is one of the second list. -/
theorem slice?_append_right (front xs : List α) (start stop : Nat) :
    slice? (front ++ xs) (front.length + start) (front.length + stop) = slice? xs start stop := by
  simp [slice?, List.take_length_add_append, List.drop_length_add_append]

/-- A difference that is not negative is computed. -/
theorem checkedSub_of_le {a b : Nat} (h : b ≤ a) : checkedSub a b = some (a - b) := by
  simp [checkedSub, h]

/-- The `w` bytes of a number, the low one first. -/
def leBytes : Nat → Nat → List UInt8
  | 0, _ => []
  | w + 1, n => UInt8.ofNat n :: leBytes w (n / 256)

/-- The number some bytes spell, the low one first. -/
def leNat : List UInt8 → Nat
  | [] => 0
  | b :: bs => b.toNat + 256 * leNat bs

@[simp] theorem length_leBytes (w n : Nat) : (leBytes w n).length = w := by
  induction w generalizing n with
  | zero => rfl
  | succ w ih => simp [leBytes, ih]

theorem leNat_leBytes (w n : Nat) : leNat (leBytes w n) = n % 256 ^ w := by
  induction w generalizing n with
  | zero => simp [leBytes, leNat, Nat.mod_one]
  | succ w ih =>
    rw [leBytes, leNat, ih, pow_succ', Nat.mod_mul]
    simp

/-- The bytes of a number that fits their width spell it. -/
theorem leNat_leBytes_of_lt {w n : Nat} (h : n < 256 ^ w) : leNat (leBytes w n) = n := by
  rw [leNat_leBytes, Nat.mod_eq_of_lt h]

end Mntrs.Base

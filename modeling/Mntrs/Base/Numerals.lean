import Mathlib.Data.Nat.Digits.Defs
import Mathlib.Tactic.IntervalCases

/-!
# Numerals

Numbers written in a base up to sixteen, filled up with zeros to a width, and the reader of such
numerals. The reader takes digits of either case and gets back what was written, whatever the
width.
-/

namespace Mntrs.Base

/-- The value of a hexadecimal digit of either case. -/
def digitValue (c : Char) : Option Nat :=
  if '0' ≤ c ∧ c ≤ '9' then some (c.toNat - 48)
  else if 'a' ≤ c ∧ c ≤ 'f' then some (c.toNat - 87)
  else if 'A' ≤ c ∧ c ≤ 'F' then some (c.toNat - 55)
  else none

/-- The value of a digit of a base. -/
def readDigit (b : Nat) (c : Char) : Option Nat :=
  (digitValue c).filter (· < b)

/-- Digits read on from the value of those before them. -/
def readDigits (b : Nat) : Nat → List Char → Option Nat
  | value, [] => some value
  | value, c :: cs => do readDigits b (b * value + (← readDigit b c)) cs

/-- The numeral of a number, with zeros before it up to a width. -/
def padded (b width n : Nat) : List Char := List.leftpad width '0' (Nat.toDigits b n)

variable {b n m : Nat} {c : Char} {cs : List Char}

theorem padded_ne_nil (b width n : Nat) : padded b width n ≠ [] := by
  simp [padded, List.leftpad, Nat.toDigits_ne_nil]

theorem length_padded (hb : 1 < b) {width : Nat} (hwidth : 0 < width) (hn : n < b ^ width) :
    (padded b width n).length = width := by
  have hle := (Nat.length_toDigits_le_iff hb hwidth).mpr hn
  rw [padded, List.length_leftpad]
  exact Nat.max_eq_left hle

theorem readDigit_digitChar (hb : b ≤ 16) (hn : n < b) :
    readDigit b (Nat.digitChar n) = some n := by
  have hvalue : digitValue (Nat.digitChar n) = some n := by
    have hlt : n < 16 := by omega
    interval_cases n <;> rfl
  simp [readDigit, hvalue, hn]

theorem readDigit_of_mem {value : Nat} (h : readDigits b value cs = some m) :
    ∀ c ∈ cs, readDigit b c ≠ none := by
  induction cs generalizing value with
  | nil => simp
  | cons d cs ih =>
    obtain ⟨digit, hdigit, hrest⟩ := Option.bind_eq_some_iff.mp h
    intro c hc
    rcases List.mem_cons.mp hc with rfl | hc
    · simp [hdigit]
    · exact ih hrest c hc

section

variable (h1 : 1 < b) (hb : b ≤ 16) (width : Nat) (rest : List Char)

include h1 hb

theorem readDigits_toDigits :
    readDigits b 0 (Nat.toDigits b n ++ rest) = readDigits b n rest := by
  induction n using Nat.strongRecOn generalizing rest with
  | _ n ih =>
    by_cases hlt : n < b
    · rw [Nat.toDigits_of_lt_base hlt]
      simp [readDigits, readDigit_digitChar hb hlt]
    · have hsmaller : n / b < n := Nat.div_lt_self (by omega) h1
      have hdigit : n % b < b := Nat.mod_lt n (by omega)
      rw [Nat.toDigits_of_base_le h1 (by omega), List.append_assoc, ih _ hsmaller]
      simp [readDigits, readDigit_digitChar hb hdigit, Nat.div_add_mod]

/-- A numeral at the start of a text is read as its number. -/
theorem readDigits_padded :
    readDigits b 0 (padded b width n ++ rest) = readDigits b n rest := by
  have hzeros : ∀ k, readDigits b 0 (List.replicate k '0' ++ (Nat.toDigits b n ++ rest)) =
      readDigits b n rest := by
    intro k
    induction k with
    | zero => exact readDigits_toDigits h1 hb rest
    | succ k ih =>
      have hzero : readDigit b '0' = some 0 := readDigit_digitChar (n := 0) hb (by omega)
      rw [List.replicate_succ, List.cons_append, readDigits, hzero]
      exact ih
  rw [padded, List.leftpad, List.append_assoc]
  exact hzeros _

theorem readDigits_padded_self : readDigits b 0 (padded b width n) = some n := by
  have hread : readDigits b 0 (padded b width n ++ []) = some n :=
    readDigits_padded h1 hb width []
  rwa [List.append_nil] at hread

/-- Numerals of one width tell numbers apart. -/
theorem padded_inj (h : padded b width n = padded b width m) : n = m := by
  apply Option.some.inj
  rw [← readDigits_padded_self h1 hb width, h, readDigits_padded_self h1 hb width]

/-- A numeral holds digits only. -/
theorem readDigit_of_mem_padded (h : c ∈ padded b width n) : readDigit b c ≠ none :=
  readDigit_of_mem (readDigits_padded_self h1 hb width) c h

end

end Mntrs.Base

import Mathlib.Logic.Function.Iterate
import Mathlib.Tactic.SplitIfs

/-!
# The proleptic Gregorian calendar

Dates with the lengths of the months, and the date a number of days after another, by counting
days one at a time. A function from day counts that agrees with the count of one day more is the
calendar.
-/

namespace Mntrs.Base

def isLeap (year : Int) : Bool := year % 4 = 0 && (year % 100 ≠ 0 || year % 400 = 0)

def daysInMonth (leap : Bool) : Nat → Nat
  | 2 => if leap then 29 else 28
  | 4 | 6 | 9 | 11 => 30
  | _ => 31

/-- A year, a month from one and a day from one. -/
@[ext]
structure Ymd where
  year : Int
  month : Nat
  day : Nat
  deriving DecidableEq

/-- The month and the day exist in the year. -/
def Ymd.Valid (d : Ymd) : Prop :=
  1 ≤ d.month ∧ d.month ≤ 12 ∧ 1 ≤ d.day ∧ d.day ≤ daysInMonth (isLeap d.year) d.month

instance (d : Ymd) : Decidable d.Valid := inferInstanceAs (Decidable (_ ∧ _ ∧ _ ∧ _))

/-- The next day, which is the first of a month after the last of one. -/
def Ymd.next (d : Ymd) : Ymd :=
  if d.day < daysInMonth (isLeap d.year) d.month then { d with day := d.day + 1 }
  else if d.month < 12 then ⟨d.year, d.month + 1, 1⟩
  else ⟨d.year + 1, 1, 1⟩

theorem daysInMonth_pos (leap : Bool) (month : Nat) : 1 ≤ daysInMonth leap month := by
  unfold daysInMonth
  split
  · split <;> omega
  · omega
  · omega
  · omega
  · omega
  · omega

theorem Ymd.Valid.next {d : Ymd} (h : d.Valid) : d.next.Valid := by
  obtain ⟨hmonth, hmonth', hday, _⟩ := h
  unfold Ymd.next
  split_ifs with hlt hdec
  · exact ⟨hmonth, hmonth', Nat.succ_le_succ (Nat.zero_le _), hlt⟩
  · exact ⟨Nat.succ_le_succ (Nat.zero_le _), hdec, Nat.le_refl 1, daysInMonth_pos _ _⟩
  · exact ⟨Nat.le_refl 1, by simp, Nat.le_refl 1, daysInMonth_pos _ _⟩

/-- No two days have one day after them. -/
theorem Ymd.Valid.next_inj {d e : Ymd} (hd : d.Valid) (he : e.Valid) (h : d.next = e.next) :
    d = e := by
  obtain ⟨hmonth, hmonth', hday, hlast⟩ := hd
  obtain ⟨kmonth, kmonth', kday, klast⟩ := he
  unfold Ymd.next at h
  -- a last day of a month is known by the month, and its next is a first
  split_ifs at h <;> simp only [Ymd.mk.injEq] at h <;> obtain ⟨hy, hm, hd⟩ := h
  · exact Ymd.ext hy hm (by omega)
  · omega
  · omega
  · omega
  · have hsame : d.month = e.month := by omega
    exact Ymd.ext hy hsame (by simp only [hy, hsame] at *; omega)
  · omega
  · omega
  · omega
  · have hsame : d.month = e.month := by omega
    have hyear : d.year = e.year := by omega
    exact Ymd.ext hyear hsame (by simp only [hyear, hsame] at *; omega)

/-- A day of the calendar. -/
structure Date extends Ymd where
  valid : toYmd.Valid

theorem Date.toYmd_inj {d e : Date} (h : d.toYmd = e.toYmd) : d = e := by
  cases d
  cases e
  cases h
  rfl

def Date.next (d : Date) : Date := ⟨d.toYmd.next, d.valid.next⟩

theorem Date.next_injective : Function.Injective Date.next := by
  intro d e h
  exact Date.toYmd_inj (d.valid.next_inj e.valid (congrArg Date.toYmd h))

/-- A date is so many days after another; for a negative count, before it. -/
def DaysAfter (start : Date) : Int → Date → Prop
  | .ofNat k, d => Date.next^[k] start = d
  | .negSucc k, d => Date.next^[k + 1] d = start

/-- What moves by a day with every count is the calendar. -/
theorem daysAfter_iff {f : Int → Date} (hstep : ∀ z, f (z + 1) = (f z).next) (z : Int) (d : Date) :
    DaysAfter (f 0) z d ↔ d = f z := by
  have hrun : ∀ (k : Nat) (z : Int), Date.next^[k] (f z) = f (z + k) := by
    intro k
    induction k with
    | zero => simp
    | succ k ih =>
      intro z
      rw [Function.iterate_succ_apply, ← hstep, ih]
      congr 1
      omega
  cases z with
  | ofNat k =>
    rw [DaysAfter, hrun, Int.zero_add]
    exact eq_comm
  | negSucc k =>
    have hback : f 0 = Date.next^[k + 1] (f (Int.negSucc k)) := by
      rw [hrun]
      congr 1
      omega
    rw [hback]
    exact (Date.next_injective.iterate (k + 1)).eq_iff

end Mntrs.Base

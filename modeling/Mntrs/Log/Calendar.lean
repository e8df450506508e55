import Mathlib.Algebra.GroupWithZero.Nat
import Mathlib.Algebra.Ring.Int.Defs
import Mathlib.Order.Monotone.Basic
import Mathlib.Tactic.Set
import Mntrs.Base.Calendar

/-!
# Dates of log lines

Models `civil_from_days` (`src/src/error_log.rs:107-131`) and `epoch_to_ymdhms`
(`src/src/cmd/dirty.rs:153-172`). Both count years from March, so that a leap day is the last day
of its year, in cycles of 400 years.
-/

namespace Mntrs

open Base

/-- A value of type `i64`, where the arithmetic wraps. -/
def wrapI64 (x : Int) : Int := Int.bmod x (2 ^ 64)

/-- `as i32`. -/
def asI32 (x : Int) : Int := Int.bmod x (2 ^ 32)

/-- `as u32`. -/
def asU32 (x : Int) : Nat := (x % 2 ^ 32).toNat

/-- `civil_from_days`. Its division rounds towards zero; the operations that can leave `i64` are
the first two sums and the product. -/
def civilFromDays (daysSinceEpoch : Int) : Int × Nat × Nat :=
  let z := wrapI64 (daysSinceEpoch + 719468)
  let era := if z ≥ 0 then z.tdiv 146097 else (wrapI64 (z - 146096)).tdiv 146097
  let doe := wrapI64 (z - wrapI64 (era * 146097))
  let yoe := (doe - doe.tdiv 1460 + doe.tdiv 36524 - doe.tdiv 146096).tdiv 365
  let y := yoe + era * 400
  let doy := doe - (365 * yoe + yoe.tdiv 4 - yoe.tdiv 100)
  let mp := (5 * doy + 2).tdiv 153
  let day := asU32 (doy - (153 * mp + 2).tdiv 5 + 1)
  let month := if mp < 10 then mp + 3 else mp - 9
  let year := y + if month ≤ 2 then 1 else 0
  (asI32 year, asU32 month, day)

/-- The date and the time of day that `epoch_to_ymdhms` returns. -/
structure DateTime where
  year : Int
  month : Nat
  day : Nat
  hour : Nat
  min : Nat
  sec : Nat
  deriving DecidableEq

/-- `epoch_to_ymdhms`. The day of the era is cast to `u32` before the divisions. -/
def epochToYmdhms (secs : UInt64) : DateTime :=
  let days : Int := (secs.toNat / 86400 : Nat)
  let rem := secs.toNat % 86400
  let z := days + 719468
  let era := (if z ≥ 0 then z else z - 146096).tdiv 146097
  let doe := asU32 (z - era * 146097)
  let yoe := (doe - doe / 1460 + doe / 36524 - doe / 146096) / 365
  let y : Int := yoe + era * 400
  let doy := doe - (365 * yoe + yoe / 4 - yoe / 100)
  let mp := (5 * doy + 2) / 153
  let d := doy - (153 * mp + 2) / 5 + 1
  let m := if mp < 10 then mp + 3 else mp - 9
  let y := if m ≤ 2 then y + 1 else y
  ⟨asI32 y, m, d, rem / 3600, rem % 3600 / 60, rem % 60⟩

/-! ## Years and days of an era -/

/-- The year, from March, of a day of an era. -/
def yearOfEra (doe : Nat) : Nat := (doe - doe / 1460 + doe / 36524 - doe / 146096) / 365

/-- The first day of a year of an era. -/
def yearStart (yoe : Nat) : Nat := 365 * yoe + yoe / 4 - yoe / 100

/-- The days of a year from March, whose February is in the next year. -/
def yearLength (yoe : Nat) : Nat := if isLeap (yoe + 1 : Nat) then 366 else 365

/-- The month and the day of a day of a year from March. -/
def monthDay (doy : Nat) : Nat × Nat :=
  let mp := (5 * doy + 2) / 153
  (if mp < 10 then mp + 3 else mp - 9, doy - (153 * mp + 2) / 5 + 1)

/-- The date of a day of a year of an era. -/
def marchDate (era : Int) (yoe doy : Nat) : Ymd :=
  let md := monthDay doy
  ⟨yoe + era * 400 + (if md.1 ≤ 2 then 1 else 0), md.1, md.2⟩

variable {era : Int} {yoe doy doe : Nat}

theorem yearOfEra_mono : Monotone yearOfEra := by
  apply monotone_nat_of_le_succ
  intro n
  apply Nat.div_le_div_right
  omega

/-- The first and the last day of a year are in it, and the next year begins after it. -/
theorem yearOfEra_bounds : ∀ y < 400, yearOfEra (yearStart y) = y ∧
    yearOfEra (yearStart y + yearLength y - 1) = y ∧
    yearStart y + yearLength y = (if y = 399 then 146097 else yearStart (y + 1)) ∧
    yearStart y + yearLength y ≤ 146097 := by
  decide +kernel

theorem yearLength_pos (yoe : Nat) : 0 < yearLength yoe := by
  unfold yearLength
  split <;> omega

/-- The days from the first to the last of a year are in it. -/
theorem yearOfEra_eq (hyoe : yoe < 400) (hdoy : doy < yearLength yoe) :
    yearOfEra (yearStart yoe + doy) = yoe := by
  obtain ⟨hstart, hlast, _, _⟩ := yearOfEra_bounds yoe hyoe
  apply le_antisymm
  · calc yearOfEra (yearStart yoe + doy)
        ≤ yearOfEra (yearStart yoe + yearLength yoe - 1) := yearOfEra_mono (by omega)
      _ = yoe := hlast
  · calc yoe = yearOfEra (yearStart yoe) := hstart.symm
      _ ≤ yearOfEra (yearStart yoe + doy) := yearOfEra_mono (by omega)

/-- Every day of an era is in some year. -/
theorem exists_year (h : doe < 146097) :
    ∃ yoe doy, yoe < 400 ∧ doy < yearLength yoe ∧ doe = yearStart yoe + doy := by
  induction doe with
  | zero => exact ⟨0, 0, by decide, yearLength_pos 0, rfl⟩
  | succ doe ih =>
    obtain ⟨yoe, doy, hyoe, hdoy, rfl⟩ := ih (by omega)
    have hnext := (yearOfEra_bounds yoe hyoe).2.2.1
    by_cases hlast : doy + 1 < yearLength yoe
    · exact ⟨yoe, doy + 1, hyoe, hlast, rfl⟩
    · -- the day after the last of a year is the first of the next
      split at hnext
      · omega
      · exact ⟨yoe + 1, 0, by omega, yearLength_pos _, by omega⟩

/-! ## Months and days of a year -/

private theorem monthDay_valid : ∀ leap : Bool, ∀ doy < if leap then 366 else 365,
    1 ≤ (monthDay doy).1 ∧ (monthDay doy).1 ≤ 12 ∧ 1 ≤ (monthDay doy).2 ∧
      (monthDay doy).2 ≤ daysInMonth leap (monthDay doy).1 := by
  decide +kernel

private theorem monthDay_succ : ∀ leap : Bool, ∀ doy < if leap then 365 else 364,
    ((monthDay doy).2 < daysInMonth leap (monthDay doy).1 ∧
      monthDay (doy + 1) = ((monthDay doy).1, (monthDay doy).2 + 1)) ∨
    ((monthDay doy).2 = daysInMonth leap (monthDay doy).1 ∧ (monthDay doy).1 ≠ 2 ∧
      monthDay (doy + 1) =
        if (monthDay doy).1 < 12 then ((monthDay doy).1 + 1, 1) else (1, 1)) := by
  decide +kernel

private theorem monthDay_last : ∀ leap : Bool,
    monthDay (if leap then 365 else 364) = (2, daysInMonth leap 2) := by
  decide +kernel

/-- Only February depends on the year. -/
theorem daysInMonth_of_ne (leap leap' : Bool) {month : Nat} (h : month ≠ 2) :
    daysInMonth leap month = daysInMonth leap' month := by
  unfold daysInMonth
  split
  · exact absurd rfl h
  all_goals rfl

theorem isLeap_add_eras (year era : Int) : isLeap (year + era * 400) = isLeap year := by
  have h4 : (year + era * 400) % 4 = year % 4 := by omega
  have h100 : (year + era * 400) % 100 = year % 100 := by omega
  have h400 : (year + era * 400) % 400 = year % 400 := by omega
  rw [isLeap, h4, h100, h400, isLeap]

theorem marchDate_year (era : Int) (yoe doy : Nat) : (marchDate era yoe doy).year =
    yoe + era * 400 + if (monthDay doy).1 ≤ 2 then 1 else 0 := rfl

/-- The last day of the month of a day. The February of a year from March is in the next year. -/
private theorem daysInMonth_marchDate (era : Int) (yoe doy : Nat) :
    daysInMonth (isLeap (marchDate era yoe doy).year) (marchDate era yoe doy).month =
      daysInMonth (isLeap (yoe + 1 : Nat)) (monthDay doy).1 := by
  by_cases hfeb : (monthDay doy).1 = 2
  · have hyear : (marchDate era yoe doy).year = (yoe + 1 : Nat) + era * 400 := by
      rw [marchDate_year, ]
      omega
    rw [hyear, isLeap_add_eras]
    rfl
  · exact daysInMonth_of_ne _ _ hfeb

private theorem next_marchDate (era : Int) (yoe doy : Nat) : (marchDate era yoe doy).next =
    if (monthDay doy).2 < daysInMonth (isLeap (yoe + 1 : Nat)) (monthDay doy).1 then
      ⟨(marchDate era yoe doy).year, (monthDay doy).1, (monthDay doy).2 + 1⟩
    else if (monthDay doy).1 < 12 then
      ⟨(marchDate era yoe doy).year, (monthDay doy).1 + 1, 1⟩
    else ⟨(marchDate era yoe doy).year + 1, 1, 1⟩ := by
  rw [Ymd.next, daysInMonth_marchDate]
  rfl

theorem marchDate_valid (h : doy < yearLength yoe) : (marchDate era yoe doy).Valid := by
  obtain ⟨hmonth, hmonth', hday, hlast⟩ := monthDay_valid (isLeap (yoe + 1 : Nat)) doy h
  refine ⟨hmonth, hmonth', hday, ?_⟩
  rw [daysInMonth_marchDate]
  exact hlast

/-- The next day within a year from March. -/
theorem marchDate_succ (h : doy + 1 < yearLength yoe) :
    (marchDate era yoe doy).next = marchDate era yoe (doy + 1) := by
  have hdoy : doy < if isLeap (yoe + 1 : Nat) then 365 else 364 := by
    unfold yearLength at h
    split_ifs at h ⊢ <;> omega
  rw [next_marchDate, marchDate_year]
  rcases monthDay_succ (isLeap (yoe + 1 : Nat)) doy hdoy with
    ⟨hday, hnext⟩ | ⟨hday, hfeb, hnext⟩
  · rw [if_pos hday, marchDate, hnext]
  · rw [if_neg (Nat.not_lt.mpr hday.ge), marchDate, hnext]
    -- a new month is in the same year unless it is January
    by_cases hdec : (monthDay doy).1 < 12
    · have hsame : (monthDay doy).1 + 1 ≤ 2 ↔ (monthDay doy).1 ≤ 2 := by omega
      simp [if_pos hdec, hsame]
    · have hlate : ¬(monthDay doy).1 ≤ 2 := by omega
      simp [hdec, hlate]

/-- The last day of a year from March is the end of February. -/
theorem marchDate_last (h : doy + 1 = yearLength yoe) :
    (marchDate era yoe doy).next = ⟨yoe + 1 + era * 400, 3, 1⟩ := by
  have hdoy : doy = if isLeap (yoe + 1 : Nat) then 365 else 364 := by
    unfold yearLength at h
    split_ifs at h ⊢ <;> omega
  have hlast := monthDay_last (isLeap (yoe + 1 : Nat))
  rw [← hdoy] at hlast
  rw [next_marchDate, marchDate_year, hlast]
  simp
  omega

/-! ## The calendar -/

/-- The date of a day count, in exact arithmetic. -/
def civil (days : Int) : Ymd :=
  let z := days + 719468
  let doe := (z % 146097).toNat
  marchDate (z / 146097) (yearOfEra doe) (doe - yearStart (yearOfEra doe))

variable {days : Int}

theorem exists_marchDate (days : Int) : ∃ (era : Int) (yoe doy : Nat), yoe < 400 ∧
    doy < yearLength yoe ∧ days + 719468 = era * 146097 + (yearStart yoe + doy : Nat) := by
  have hdoe : ((days + 719468) % 146097).toNat < 146097 := by omega
  obtain ⟨yoe, doy, hyoe, hdoy, heq⟩ := exists_year hdoe
  exact ⟨(days + 719468) / 146097, yoe, doy, hyoe, hdoy, by omega⟩

theorem civil_eq (era : Int) (yoe doy : Nat) (hyoe : yoe < 400) (hdoy : doy < yearLength yoe)
    (h : days + 719468 = era * 146097 + (yearStart yoe + doy : Nat)) :
    civil days = marchDate era yoe doy := by
  have hend := (yearOfEra_bounds yoe hyoe).2.2.2
  have hera : (days + 719468) / 146097 = era := by omega
  have hdoe : ((days + 719468) % 146097).toNat = yearStart yoe + doy := by omega
  rw [civil, hera, hdoe, yearOfEra_eq hyoe hdoy, Nat.add_sub_cancel_left]

/-- One more day is the next day. -/
theorem civil_succ (days : Int) : civil (days + 1) = (civil days).next := by
  obtain ⟨era, yoe, doy, hyoe, hdoy, h⟩ := exists_marchDate days
  have hnext := (yearOfEra_bounds yoe hyoe).2.2.1
  rw [civil_eq era yoe doy hyoe hdoy h]
  by_cases hlast : doy + 1 < yearLength yoe
  · rw [marchDate_succ hlast]
    exact civil_eq era yoe (doy + 1) hyoe hlast (by omega)
  · rw [marchDate_last (by omega)]
    split_ifs at hnext with hend
    · -- the first of March after an era
      have hzero : yearStart 0 = 0 := rfl
      rw [civil_eq (era + 1) 0 0 (by decide) (yearLength_pos 0) (by omega)]
      simp [marchDate, monthDay]
      omega
    · rw [civil_eq era (yoe + 1) 0 (by omega) (yearLength_pos _) (by omega)]
      simp [marchDate, monthDay]

theorem civil_valid (days : Int) : (civil days).Valid := by
  obtain ⟨era, yoe, doy, hyoe, hdoy, h⟩ := exists_marchDate days
  rw [civil_eq era yoe doy hyoe hdoy h]
  exact marchDate_valid hdoy

/-- The date of a day count. -/
def date (days : Int) : Date := ⟨civil days, civil_valid days⟩

theorem date_succ (days : Int) : date (days + 1) = (date days).next :=
  Date.toYmd_inj (civil_succ days)

/-- The first of January 1970. -/
def unixEpoch : Date := ⟨⟨1970, 1, 1⟩, by decide⟩

theorem date_zero : date 0 = unixEpoch := Date.toYmd_inj (by decide)

theorem daysAfter_unixEpoch (days : Int) (d : Date) :
    DaysAfter unixEpoch days d ↔ d = date days := by
  exact daysAfter_iff date_succ days d

/-! ## The code computes the calendar -/

theorem wrapI64_eq {x : Int} (h : -2 ^ 63 ≤ x) (h' : x < 2 ^ 63) : wrapI64 x = x :=
  Int.bmod_eq_of_le (by omega) (by omega)

theorem asI32_eq {x : Int} (h : -2 ^ 31 ≤ x) (h' : x < 2 ^ 31) : asI32 x = x :=
  Int.bmod_eq_of_le (by omega) (by omega)

theorem asU32_eq {n : Nat} (h : n < 2 ^ 32) : asU32 n = n := by
  unfold asU32
  omega

/-- The era, whose quotient is rounded down although the division rounds towards zero. -/
private theorem era_eq {z : Int} (h : -2 ^ 62 ≤ z) :
    (if z ≥ 0 then z.tdiv 146097 else (wrapI64 (z - 146096)).tdiv 146097) = z / 146097 := by
  split_ifs with hz
  · exact Int.tdiv_eq_ediv_of_nonneg hz
  · have hneg : z - 146096 = -(146096 - z) := by omega
    rw [wrapI64_eq (by omega) (by omega), hneg, Int.neg_tdiv,
      Int.tdiv_eq_ediv_of_nonneg (by omega)]
    omega

private theorem yearOfEra_cast (k : Nat) :
    ((k : Int) - (k : Int).tdiv 1460 + (k : Int).tdiv 36524 - (k : Int).tdiv 146096).tdiv 365 =
      (yearOfEra k : Nat) := by
  simp only [Int.tdiv_eq_ediv_of_nonneg (Int.natCast_nonneg k)]
  rw [Int.tdiv_eq_ediv_of_nonneg (by omega), yearOfEra]
  omega

private theorem yearStart_cast (k : Nat) :
    365 * (k : Int) + (k : Int).tdiv 4 - (k : Int).tdiv 100 = (yearStart k : Nat) := by
  simp only [Int.tdiv_eq_ediv_of_nonneg (Int.natCast_nonneg k)]
  rw [yearStart]
  omega

/-- The month and the day of a day of a year, computed in `i64` and cast. -/
private theorem monthDay_cast : ∀ doy : Nat, doy < 366 →
    asU32 ((doy : Int) - (153 * (5 * (doy : Int) + 2).tdiv 153 + 2).tdiv 5 + 1) =
      (monthDay doy).2 ∧
    (if (5 * (doy : Int) + 2).tdiv 153 < 10 then (5 * (doy : Int) + 2).tdiv 153 + 3
      else (5 * (doy : Int) + 2).tdiv 153 - 9) = (monthDay doy).1 ∧ (monthDay doy).1 ≤ 12 := by
  decide +kernel

theorem civilFromDays_eq (h : -2 ^ 60 ≤ days) (h' : days < 2 ^ 60) :
    civilFromDays days = (asI32 (civil days).year, (civil days).month, (civil days).day) := by
  obtain ⟨era, yoe, doy, hyoe, hdoy, heq⟩ := exists_marchDate days
  have hend := (yearOfEra_bounds yoe hyoe).2.2.2
  have hz : wrapI64 (days + 719468) = days + 719468 := wrapI64_eq (by omega) (by omega)
  have hera : (days + 719468) / 146097 = era := by omega
  have hdoe : wrapI64 (days + 719468 - wrapI64 (era * 146097)) = (yearStart yoe + doy : Nat) := by
    have hproduct : wrapI64 (era * 146097) = era * 146097 := wrapI64_eq (by omega) (by omega)
    rw [wrapI64_eq (by omega) (by omega)]
    omega
  have hdoy' : ((yearStart yoe + doy : Nat) : Int) - (yearStart yoe : Nat) = doy := by omega
  have hlong : doy < 366 := by
    unfold yearLength at hdoy
    split_ifs at hdoy <;> omega
  obtain ⟨hday, hmonth, hle⟩ := monthDay_cast doy hlong
  rw [civil_eq era yoe doy hyoe hdoy heq]
  unfold civilFromDays
  dsimp only
  rw [hz, era_eq (by omega), hera, hdoe, yearOfEra_cast, yearOfEra_eq hyoe hdoy, yearStart_cast,
    hdoy', hday, hmonth, asU32_eq (by omega)]
  have hfeb : ((monthDay doy).1 : Int) ≤ 2 ↔ (monthDay doy).1 ≤ 2 := by omega
  simp only [hfeb]
  rfl

/-- A year of 32 bits is within 2⁶⁰ days. -/
theorem days_bounds (hlow : -2 ^ 31 ≤ (civil days).year) (hhigh : (civil days).year < 2 ^ 31) :
    -2 ^ 60 ≤ days ∧ days < 2 ^ 60 := by
  obtain ⟨era, yoe, doy, hyoe, hdoy, heq⟩ := exists_marchDate days
  have hend := (yearOfEra_bounds yoe hyoe).2.2.2
  rw [civil_eq era yoe doy hyoe hdoy heq, marchDate_year] at hlow hhigh
  constructor <;> split_ifs at hlow hhigh <;> omega

/-- The date of `epoch_to_ymdhms` is that of its whole days, for every count of seconds. -/
theorem epochToYmdhms_eq (secs : UInt64) :
    epochToYmdhms secs =
      let date := civil (secs.toNat / 86400 : Nat)
      let rem := secs.toNat % 86400
      ⟨asI32 date.year, date.month, date.day, rem / 3600, rem % 3600 / 60, rem % 60⟩ := by
  set days : Int := ((secs.toNat / 86400 : Nat) : Int) with hdays
  have hz : days + 719468 ≥ 0 := by omega
  obtain ⟨era, hera⟩ : ∃ era, (days + 719468).tdiv 146097 = era := ⟨_, rfl⟩
  obtain ⟨doe, hdoe⟩ : ∃ doe, asU32 (days + 719468 - era * 146097) = doe := ⟨_, rfl⟩
  have hcivil : civil days =
      marchDate era (yearOfEra doe) (doe - yearStart (yearOfEra doe)) := by
    have hfloor : (days + 719468) / 146097 = era := by
      rw [← hera, Int.tdiv_eq_ediv_of_nonneg hz]
    have hcast : ((days + 719468) % 146097).toNat = doe := by
      rw [← hdoe, asU32]
      omega
    rw [civil, hfloor, hcast]
  -- the year is counted up in a branch here
  have hyear : ∀ yoe doy, (marchDate era yoe doy).year =
      if (monthDay doy).1 ≤ 2 then yoe + era * 400 + 1 else yoe + era * 400 := by
    intro yoe doy
    rw [marchDate_year]
    split_ifs
    · rfl
    · exact Int.add_zero _
  unfold epochToYmdhms
  dsimp only
  rw [if_pos hz, hera, hdoe, hcivil, hyear]
  rfl

/-- A day count has one date. In the years that fit into 32 bits `civil_from_days` returns it.
`epoch_to_ymdhms` returns, for every count of seconds, the date of `civil_from_days` and the time
of the day. -/
theorem calendar_agrees :
    (∀ (days : Int) (d : Date), DaysAfter unixEpoch days d → -2 ^ 31 ≤ d.year →
      d.year < 2 ^ 31 → civilFromDays days = (d.year, d.month, d.day)) ∧
    (∀ days : Int, ∃ d : Date, DaysAfter unixEpoch days d) ∧
    ∀ secs : UInt64,
      let t := epochToYmdhms secs
      (t.year, t.month, t.day) = civilFromDays (secs.toNat / 86400 : Nat) ∧
        t.hour < 24 ∧ t.min < 60 ∧ t.sec < 60 ∧
        secs.toNat % 86400 = t.hour * 3600 + t.min * 60 + t.sec := by
  refine ⟨fun days d hd hlow hhigh ↦ ?_, fun days ↦ ?_, fun secs ↦ ?_⟩
  · rw [daysAfter_unixEpoch] at hd
    subst hd
    obtain ⟨hnear, hnear'⟩ := days_bounds hlow hhigh
    have hyear : asI32 (civil days).year = (civil days).year := asI32_eq hlow hhigh
    rw [civilFromDays_eq hnear hnear', hyear]
    rfl
  · exact ⟨date days, (daysAfter_unixEpoch days _).mpr rfl⟩
  · have hlt : secs.toNat < 2 ^ 64 := secs.toNat_lt
    rw [epochToYmdhms_eq, civilFromDays_eq (by omega) (by omega)]
    refine ⟨rfl, ?_, ?_, ?_, ?_⟩
    · show secs.toNat % 86400 / 3600 < 24
      omega
    · show secs.toNat % 86400 % 3600 / 60 < 60
      omega
    · show secs.toNat % 86400 % 60 < 60
      omega
    · show _ = secs.toNat % 86400 / 3600 * 3600 + secs.toNat % 86400 % 3600 / 60 * 60 +
        secs.toNat % 86400 % 60
      omega

/-- The leap day of the year 2000, and the day before the epoch. -/
theorem calendar_agrees_sample :
    civilFromDays 11016 = (2000, 2, 29) ∧ civilFromDays (-1) = (1969, 12, 31) :=
  ⟨calendar_agrees.1 11016 (date 11016) ((daysAfter_unixEpoch _ _).mpr rfl) (by decide)
      (by decide),
    calendar_agrees.1 (-1) (date (-1)) ((daysAfter_unixEpoch _ _).mpr rfl) (by decide)
      (by decide)⟩

end Mntrs

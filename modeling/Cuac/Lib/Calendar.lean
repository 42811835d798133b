import Mathlib.Order.Monotone.Basic
import Mathlib.Tactic.Common
import Mathlib.Tactic.IntervalCases

/-!
# The proleptic Gregorian calendar

Days since 1970-01-01 and calendar dates, in the arithmetic of eras of 400
years that start on the first of March. Division truncates, as it does in C, so
negative counts take a correction.

Main results:

* `floorDivMod_eq` — the corrected division rounds down.
* `daysFromCivil_civilFromDays` — the day count of the date of a day count.
* `civilFromDays_range` — months and days are in range.
* `isDate_civilFromDays` — and the date is one of the calendar.
* `daysFromCivil_eq_gregorianDay` — the arithmetic of eras counts the days of the
  calendar.
-/

namespace Cuac.Lib

/-- Quotient and remainder, rounded down: truncating division, corrected where
the remainder is negative. -/
def floorDivMod (a n : Int) : Int × Int :=
  if a.tmod n < 0 then (a.tdiv n - 1, a.tmod n + n) else (a.tdiv n, a.tmod n)

theorem floorDivMod_eq {a n : Int} (hn : 0 < n) : floorDivMod a n = (a / n, a % n) := by
  have hquotient := Int.tdiv_mul_add_tmod a n
  have hrange := Int.emod_lt_of_pos a hn
  have hpos := Int.emod_nonneg a (by omega : n ≠ 0)
  have hsign : n.sign = 1 := Int.sign_eq_one_of_pos hn
  have habs : (n.natAbs : Int) = n := by omega
  have hmod : a.tmod n = a % n - if 0 ≤ a ∨ n ∣ a then 0 else n := by
    rw [Int.tmod_eq_emod]
    split <;> omega
  have hdiv : a.tdiv n = a / n + if 0 ≤ a ∨ n ∣ a then 0 else 1 := by
    rw [Int.tdiv_eq_ediv, hsign]
  unfold floorDivMod
  rw [hmod, hdiv]
  by_cases hfloor : 0 ≤ a ∨ n ∣ a
  · simp only [if_pos hfloor, Int.add_zero, Int.sub_zero, if_neg (by omega : ¬a % n < 0)]
  · simp only [if_neg hfloor, if_pos (by omega : a % n - n < 0)]
    rw [Int.add_sub_cancel, Int.sub_add_cancel]

/-- The era of a count that may be negative. -/
def era (count length : Int) : Int :=
  (if 0 ≤ count then count else count - (length - 1)).tdiv length

theorem era_eq (count : Int) {length : Int} (hlength : 0 < length) :
    era count length = count / length := by
  unfold era
  by_cases h : 0 ≤ count
  · rw [if_pos h, Int.tdiv_eq_ediv_of_nonneg h]
  · rw [if_neg h, Int.tdiv_eq_ediv, Int.sign_eq_one_of_pos hlength]
    have hdivmod := Int.mul_ediv_add_emod count length
    have hlow := Int.emod_nonneg count (by omega : length ≠ 0)
    have hhigh := Int.emod_lt_of_pos count hlength
    by_cases hdvd : length ∣ count - (length - 1)
    · -- The corrected count is a multiple: the remainder was `length - 1`.
      obtain ⟨q, hq⟩ := hdvd
      rw [if_pos (Or.inr ⟨q, hq⟩), hq, Int.mul_ediv_cancel_left q (by omega : length ≠ 0)]
      have hcount : count = length * q + (length - 1) := by omega
      rw [hcount, Int.mul_add_ediv_left q (length - 1) (by omega),
        Int.ediv_eq_zero_of_lt (by omega) (by omega)]
    · rw [if_neg (by omega)]
      have hrem : count % length ≠ length - 1 := by
        intro hrem
        exact hdvd ⟨count / length, by rw [hrem] at hdivmod; omega⟩
      have hcount : count - (length - 1) =
          length * (count / length - 1) + (count % length + 1) := by
        rw [Int.mul_sub, Int.mul_one]
        omega
      have hsmall : (count % length + 1) / length = 0 :=
        Int.ediv_eq_zero_of_lt (by omega) (by omega)
      rw [hcount, Int.mul_add_ediv_left _ _ (by omega), hsmall]
      omega

structure Date where
  year : Int
  month : Nat
  day : Nat
  deriving DecidableEq, Repr

-- ---------------------------------------------------------------------------
-- A day of an era
-- ---------------------------------------------------------------------------

/-- The days of an era with its leap days taken out. -/
def leaplessDay (dayOfEra : Nat) : Nat :=
  dayOfEra - dayOfEra / 1460 + dayOfEra / 36524 - dayOfEra / 146096

def yearOfEra (dayOfEra : Nat) : Nat :=
  leaplessDay dayOfEra / 365

/-- The first day of a year of an era. -/
def yearStart (yearOfEra : Nat) : Nat :=
  365 * yearOfEra + yearOfEra / 4 - yearOfEra / 100

def monthPrime (dayOfYear : Nat) : Nat :=
  (5 * dayOfYear + 2) / 153

def dayOfMonth (dayOfYear monthPrime : Nat) : Nat :=
  dayOfYear - (153 * monthPrime + 2) / 5 + 1

def civilFromDays (days : Int) : Date :=
  let shifted := days + 719468
  let dayOfEra := (shifted - era shifted 146097 * 146097).toNat
  let year := (yearOfEra dayOfEra : Int) + era shifted 146097 * 400
  let dayOfYear := dayOfEra - yearStart (yearOfEra dayOfEra)
  let month := if monthPrime dayOfYear < 10 then monthPrime dayOfYear + 3
    else monthPrime dayOfYear - 9
  ⟨if month ≤ 2 then year + 1 else year, month, dayOfMonth dayOfYear (monthPrime dayOfYear)⟩

def daysFromCivil (date : Date) : Int :=
  let year := if date.month ≤ 2 then date.year - 1 else date.year
  let yearOfEra := (year - era year 400 * 400).toNat
  let adjustedMonth := if 2 < date.month then date.month - 3 else date.month + 9
  let dayOfYear := (153 * adjustedMonth + 2) / 5 + date.day - 1
  let dayOfEra := yearStart yearOfEra + dayOfYear
  era year 400 * 146097 + dayOfEra - 719468

theorem leaplessDay_mono : Monotone leaplessDay := by
  refine monotone_nat_of_le_succ fun day => ?_
  unfold leaplessDay
  omega

/-- The first and the last day of each year of an era, without leap days. -/
theorem leaplessDay_year : ∀ year, year < 400 →
    365 * year ≤ leaplessDay (yearStart year) ∧
      leaplessDay (yearStart (year + 1) - 1) ≤ 365 * year + 364 := by
  decide +kernel

theorem yearOfEra_lt {dayOfEra : Nat} (h : dayOfEra < 146097) : yearOfEra dayOfEra < 400 := by
  unfold yearOfEra leaplessDay
  omega

/-- The year of a day is the one whose days enclose it. -/
theorem yearStart_yearOfEra {dayOfEra : Nat} (h : dayOfEra < 146097) :
    yearStart (yearOfEra dayOfEra) ≤ dayOfEra ∧
      dayOfEra ≤ yearStart (yearOfEra dayOfEra) + 365 := by
  have hyear := yearOfEra_lt h
  have hdef : yearOfEra dayOfEra = leaplessDay dayOfEra / 365 := rfl
  constructor
  · -- A day before the year's first one has a smaller leapless day.
    by_contra hbefore
    have hpos : 0 < yearOfEra dayOfEra := by
      rcases Nat.eq_zero_or_pos (yearOfEra dayOfEra) with hzero | hpos
      · rw [hzero] at hbefore
        simp [yearStart] at hbefore
      · exact hpos
    have hlast := (leaplessDay_year (yearOfEra dayOfEra - 1) (by omega)).2
    rw [Nat.sub_add_cancel hpos] at hlast
    have hmono := leaplessDay_mono (show dayOfEra ≤ yearStart (yearOfEra dayOfEra) - 1 by omega)
    omega
  · by_contra hafter
    have hnext : yearStart (yearOfEra dayOfEra + 1) ≤ yearStart (yearOfEra dayOfEra) + 366 := by
      unfold yearStart
      omega
    have hlater : yearOfEra dayOfEra + 1 < 400 := by
      have hbound : dayOfEra ≤ yearStart 399 + 365 := by
        have : yearStart 399 = 145731 := by decide
        omega
      rcases Nat.lt_or_ge (yearOfEra dayOfEra + 1) 400 with hlt | hge
      · exact hlt
      · have hlastYear : yearOfEra dayOfEra = 399 := by omega
        rw [hlastYear] at hafter
        omega
    have hfirst := (leaplessDay_year (yearOfEra dayOfEra + 1) hlater).1
    have hmono := leaplessDay_mono
      (show yearStart (yearOfEra dayOfEra + 1) ≤ dayOfEra by omega)
    omega

-- ---------------------------------------------------------------------------
-- The two directions
-- ---------------------------------------------------------------------------

theorem civilFromDays_range (days : Int) :
    1 ≤ (civilFromDays days).month ∧ (civilFromDays days).month ≤ 12 ∧
      1 ≤ (civilFromDays days).day ∧ (civilFromDays days).day ≤ 31 := by
  have hera := era_eq (days + 719468) (show (0 : Int) < 146097 by decide)
  have hday : (days + 719468 - era (days + 719468) 146097 * 146097).toNat < 146097 := by
    rw [hera]
    omega
  obtain ⟨hlow, hhigh⟩ := yearStart_yearOfEra hday
  unfold civilFromDays monthPrime dayOfMonth
  simp only
  refine ⟨?_, ?_, ?_, ?_⟩ <;> (try split) <;> omega

theorem daysFromCivil_civilFromDays (days : Int) :
    daysFromCivil (civilFromDays days) = days := by
  have hera := era_eq (days + 719468) (show (0 : Int) < 146097 by decide)
  generalize hcount : era (days + 719468) 146097 = e at hera
  generalize hdoe : (days + 719468 - e * 146097).toNat = dayOfEra
  have hday : dayOfEra < 146097 := by omega
  have hback : (dayOfEra : Int) = days + 719468 - e * 146097 := by omega
  obtain ⟨hlow, hhigh⟩ := yearStart_yearOfEra hday
  have hyear := yearOfEra_lt hday
  generalize hyoe : yearOfEra dayOfEra = y at hlow hhigh hyear
  generalize hdoy : dayOfEra - yearStart y = dayOfYear at hhigh
  have hyearEra : era ((y : Int) + e * 400) 400 = e := by
    rw [era_eq _ (by decide)]
    omega
  have hmonth : monthPrime dayOfYear ≤ 11 := by
    unfold monthPrime
    omega
  have hdayOfMonth : (153 * monthPrime dayOfYear + 2) / 5 ≤ dayOfYear := by
    unfold monthPrime
    omega
  unfold civilFromDays daysFromCivil
  simp only [hcount, hdoe, hyoe, hdoy]
  generalize monthPrime dayOfYear = mp at hmonth hdayOfMonth
  unfold dayOfMonth
  by_cases hearly : mp < 10
  · simp only [if_pos hearly, if_neg (show ¬mp + 3 ≤ 2 by omega),
      if_pos (show 2 < mp + 3 by omega), hyearEra]
    rw [show (((y : Int) + e * 400) - e * 400).toNat = y by omega,
      show mp + 3 - 3 = mp by omega]
    omega
  · simp only [if_neg hearly, if_pos (show mp - 9 ≤ 2 by omega),
      if_neg (show ¬2 < mp - 9 by omega)]
    rw [show (y : Int) + e * 400 + 1 - 1 = y + e * 400 by omega, hyearEra,
      show (((y : Int) + e * 400) - e * 400).toNat = y by omega,
      show mp - 9 + 9 = mp by omega]
    omega

-- ---------------------------------------------------------------------------
-- The calendar itself
-- ---------------------------------------------------------------------------

def isLeapYear (year : Int) : Bool :=
  year % 4 == 0 && (year % 100 != 0 || year % 400 == 0)

def monthLength (year : Int) : Nat → Nat
  | 2 => if isLeapYear year then 29 else 28
  | 4 | 6 | 9 | 11 => 30
  | _ => 31

/-- The days of a year before its `month`th month. -/
def daysBefore (year : Int) (month : Nat) : Nat :=
  ((List.range (month - 1)).map fun earlier => monthLength year (earlier + 1)).sum

/-- Days since 1970-01-01, counted: whole years with their leap days, whole months,
and days. -/
def gregorianDay (year : Int) (month day : Nat) : Int :=
  365 * (year - 1) + (year - 1) / 4 - (year - 1) / 100 + (year - 1) / 400 +
    daysBefore year month + day - 719163

/-- A date that is in the calendar. -/
def IsDate (date : Date) : Prop :=
  1 ≤ date.month ∧ date.month ≤ 12 ∧ 1 ≤ date.day ∧ date.day ≤ monthLength date.year date.month

instance (date : Date) : Decidable (IsDate date) := by
  unfold IsDate
  infer_instance

/-- The days of the years before, an era at a time and all at once. -/
theorem yearStart_era (year : Int) :
    year / 400 * 146097 + yearStart (year - year / 400 * 400).toNat =
      365 * year + year / 4 - year / 100 + year / 400 := by
  unfold yearStart
  omega

theorem isLeapYear_eq_true {year : Int} :
    isLeapYear year = true ↔ year % 4 = 0 ∧ (year % 100 ≠ 0 ∨ year % 400 = 0) := by
  simp [isLeapYear]

/-- A leap year has one day more for the years that follow. -/
theorem leapDay (year : Int) :
    year / 4 - year / 100 + year / 400 =
      (year - 1) / 4 - (year - 1) / 100 + (year - 1) / 400 + if isLeapYear year then 1 else 0 := by
  by_cases hleap : isLeapYear year = true
  · rw [if_pos hleap]
    rw [isLeapYear_eq_true] at hleap
    omega
  · rw [if_neg hleap]
    rw [isLeapYear_eq_true] at hleap
    omega

/-- March is the first month of the eras' years. -/
theorem daysBefore_of_early (year : Int) {month : Nat} (hlow : 1 ≤ month) (hearly : month ≤ 2) :
    daysBefore year month + 306 = (153 * (month + 9) + 2) / 5 := by
  interval_cases month <;> rfl

theorem daysBefore_of_late (year : Int) {month : Nat} (hlate : 2 < month) (hhigh : month ≤ 12) :
    daysBefore year month =
      (153 * (month - 3) + 2) / 5 + 59 + if isLeapYear year then 1 else 0 := by
  have hfirst : daysBefore year (0 + 1) = 0 := rfl
  have hnext (earlier : Nat) :
      daysBefore year (earlier + 2) = daysBefore year (earlier + 1) +
        monthLength year (earlier + 1) := by
    simp [daysBefore, List.range_succ]
  have hfebruary : (if isLeapYear year then 29 else 28) = 28 + if isLeapYear year then 1 else 0 := by
    split <;> rfl
  interval_cases month <;> simp only [hnext, hfirst, monthLength, hfebruary] <;> omega

theorem daysFromCivil_eq_gregorianDay {date : Date} (hmonth : 1 ≤ date.month ∧ date.month ≤ 12)
    (hday : 1 ≤ date.day) :
    daysFromCivil date = gregorianDay date.year date.month date.day := by
  obtain ⟨year, month, day⟩ := date
  obtain ⟨hlow, hhigh⟩ := hmonth
  simp only at hlow hhigh hday
  unfold daysFromCivil gregorianDay
  simp only [era_eq _ (show (0 : Int) < 400 by decide)]
  by_cases hearly : month ≤ 2
  · have hbefore := daysBefore_of_early year hlow hearly
    have hyears := yearStart_era (year - 1)
    rw [if_pos hearly, if_neg (by omega)]
    omega
  · have hbefore := daysBefore_of_late year (by omega : 2 < month) hhigh
    have hyears := yearStart_era year
    have hleap := leapDay year
    rw [if_neg hearly, if_pos (by omega)]
    by_cases h : isLeapYear year = true
    · rw [if_pos h] at hleap hbefore
      omega
    · rw [if_neg h] at hleap hbefore
      omega

/-- The years of an era that have a day after the 365th: those before a leap year's March. -/
theorem leapDay_yearOfEra : ∀ year, year < 400 → yearOfEra (yearStart year + 365) = year →
    (year + 1) % 4 = 0 ∧ ((year + 1) % 100 ≠ 0 ∨ (year + 1) % 400 = 0) := by
  decide +kernel

theorem isDate_civilFromDays (days : Int) : IsDate (civilFromDays days) := by
  obtain ⟨hmonth, hmonth', hday, -⟩ := civilFromDays_range days
  refine ⟨hmonth, hmonth', hday, ?_⟩
  have hera := era_eq (days + 719468) (show (0 : Int) < 146097 by decide)
  generalize hcount : era (days + 719468) 146097 = e at hera
  generalize hdoe : (days + 719468 - e * 146097).toNat = dayOfEra
  have hbound : dayOfEra < 146097 := by omega
  obtain ⟨hlow, hhigh⟩ := yearStart_yearOfEra hbound
  have hyear := yearOfEra_lt hbound
  have hleap (hlast : dayOfEra = yearStart (yearOfEra dayOfEra) + 365) :=
    leapDay_yearOfEra _ hyear (by rw [← hlast])
  unfold civilFromDays
  simp only [hcount, hdoe]
  generalize yearOfEra dayOfEra = y at *
  generalize hdoy : dayOfEra - yearStart y = dayOfYear
  have hmp : monthPrime dayOfYear = (5 * dayOfYear + 2) / 153 := rfl
  unfold dayOfMonth
  have hmp' : monthPrime dayOfYear ≤ 11 := by omega
  generalize monthPrime dayOfYear = mp at *
  by_cases hfebruary : mp = 11
  · subst hfebruary
    simp only [Nat.reduceLT, Nat.reduceSub, Nat.reduceLeDiff, if_true, if_false, monthLength]
    split
    · omega
    · rename_i hcommon
      rw [isLeapYear_eq_true] at hcommon
      omega
  · have hearlier : mp ≤ 10 := by omega
    clear hleap hmonth hmonth' hday hera
    interval_cases mp <;>
      simp only [monthLength, Nat.reduceLT, Nat.reduceAdd, Nat.reduceSub, if_true, if_false] <;> omega

theorem monthLength_le (year : Int) (month : Nat) : monthLength year month ≤ 31 := by
  unfold monthLength
  split
  · split <;> decide
  all_goals decide

theorem gregorianDay_range {date : Date} (hyear : 1 ≤ date.year ∧ date.year ≤ 9999)
    (hdate : IsDate date) :
    -719162 ≤ gregorianDay date.year date.month date.day ∧
      gregorianDay date.year date.month date.day ≤ 2932926 := by
  obtain ⟨hmonth, hmonth', hday, hday'⟩ := hdate
  have hlast := monthLength_le date.year date.month
  have hbefore : daysBefore date.year date.month ≤ 335 := by
    by_cases hearly : date.month ≤ 2
    · have hdays := daysBefore_of_early date.year hmonth hearly
      omega
    · have hdays := daysBefore_of_late date.year (by omega : 2 < date.month) hmonth'
      split at hdays <;> omega
  unfold gregorianDay
  omega

end Cuac.Lib

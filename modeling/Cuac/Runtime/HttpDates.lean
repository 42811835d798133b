import Cuac.Runtime.TimestamptzCodec
import Cuac.Runtime.RateLimitGuidance

/-!
# Runtime — the dates of HTTP

What the functions below the parsers compute, in terms of the calendar, and how a
year of two digits is resolved: to the latest year with those digits that is not
more than fifty calendar years after the receipt.

The code tests the rolling occurrence by whole years and then by its position in
the year. The first test keeps a date exactly fifty years back, which is the
`HalfCenturySlip`: fifty years on would be the year, where the date is not ahead
there. A receipt in the first half of its century never meets it.

Main results:

* `tryBuildHttpTimestamp_eq` — the instant of a date that exists on its weekday.
* `resolveYear_eq` — the year is the resolving one unless it slips.
* `rfc850_year_resolution` — when a date is read as it should be.
-/

namespace Cuac.Runtime.Resilience

open Cuac.Lib
open Cuac.Lib.Watched
open Cuac.Connector

-- ---------------------------------------------------------------------------
-- Numbers
-- ---------------------------------------------------------------------------

theorem value_pair {a b : UInt8} (ha : isDigit a = true) (hb : isDigit b = true) :
    (value [a, b] : Int) = ((a.toNat : Int) - 48) * 10 + b.toNat - 48 := by
  have hda := digit_range ha
  have hdb := digit_range hb
  simp only [value, List.foldl_cons, List.foldl_nil]
  omega

theorem tryParseTwoDigits_eq {text : Bytes} {offset : Nat} (h : offset + 2 ≤ text.length)
    (hdigits : ∀ b ∈ field text offset 2, isDigit b = true) :
    tryParseTwoDigits text offset = .ok (value (field text offset 2) : Nat) := by
  have hfield : field text offset 2 = [byteAt text offset, byteAt text (offset + 1)] := by
    rw [field_succ (by omega), field_succ (by omega)]
    simp [field]
  rw [hfield] at hdigits ⊢
  have htens := hdigits (byteAt text offset) (by simp)
  have hunits := hdigits (byteAt text (offset + 1)) (by simp)
  have htens' := digit_range htens
  have hunits' := digit_range hunits
  rw [tryParseTwoDigits, htens, hunits]
  have hguard : (decide (offset + 2 > text.length) || !true || !true) = false := by
    simp
    omega
  rw [hguard, refuseIf_false, ok_bind, int32s_ok (by
    simp only [List.mem_cons, List.not_mem_nil, or_false, forall_eq_or_imp, forall_eq]
    omega), value_pair htens hunits]
  rfl

/-- Two digits, or none. -/
theorem answers_tryParseTwoDigits (text : Bytes) (offset : Nat) :
    Answers (fun n : Int => ∃ m : Nat, m < 100 ∧ n = m) (tryParseTwoDigits text offset) := by
  by_cases h : offset + 2 ≤ text.length ∧ isDigit (byteAt text offset) = true ∧
      isDigit (byteAt text (offset + 1)) = true
  · have hdigits : ∀ b ∈ field text offset 2, isDigit b = true := by
      rw [field_succ (by omega), field_succ (by omega)]
      simp [h.2.1, h.2.2, field]
    rw [tryParseTwoDigits_eq h.1 hdigits]
    have hbound := value_lt hdigits
    rw [length_field h.1] at hbound
    exact Answers.ok ⟨_, hbound, rfl⟩
  · have hguard : (decide (offset + 2 > text.length) || !isDigit (byteAt text offset) ||
        !isDigit (byteAt text (offset + 1))) = true := by
      by_contra hguard
      simp only [Bool.or_eq_true, decide_eq_true_eq, Bool.not_eq_true', not_or, not_lt,
        Bool.not_eq_false] at hguard
      exact h ⟨by omega, hguard.1.2, hguard.2⟩
    rw [tryParseTwoDigits, hguard]
    exact Answers.refused

theorem answers_fourDigitsFrom (text : Bytes) (index count seen : Nat)
    (hseen : (seen + 1) * 10 ^ count ≤ 10 ^ 4) :
    Answers (fun n : Int => ∃ m : Nat, m < 10000 ∧ n = m) (fourDigitsFrom text index count seen) := by
  induction count generalizing index seen with
  | zero => exact Answers.ok ⟨seen, by omega, rfl⟩
  | succ count ih =>
    rw [fourDigitsFrom]
    refine Answers.refuseIf fun hdigit => ?_
    have hrange := digit_range (by simpa using hdigit : isDigit (byteAt text index) = true)
    have hnext : seen * 10 + ((byteAt text index).toNat - 48) + 1 ≤ (seen + 1) * 10 := by omega
    have hstep : (seen * 10 + ((byteAt text index).toNat - 48) + 1) * 10 ^ count ≤ 10 ^ 4 :=
      calc (seen * 10 + ((byteAt text index).toNat - 48) + 1) * 10 ^ count
          ≤ (seen + 1) * 10 * 10 ^ count := Nat.mul_le_mul_right _ hnext
        _ = (seen + 1) * 10 ^ (count + 1) := by rw [Nat.pow_succ, Nat.mul_assoc, Nat.mul_comm 10]
        _ ≤ 10 ^ 4 := hseen
    have hpow : 1 ≤ 10 ^ count := Nat.one_le_pow _ _ (by decide)
    have hsmall : seen * 10 + ((byteAt text index).toNat - 48) + 1 ≤ 10 ^ 4 :=
      Nat.le_trans (Nat.le_mul_of_pos_right _ hpow) hstep
    have hcast : (seen : Int) * 10 + ((byteAt text index).toNat - 48) =
        ((seen * 10 + ((byteAt text index).toNat - 48) : Nat) : Int) := by omega
    rw [uint32s_ok (by
      simp only [List.mem_cons, List.not_mem_nil, or_false, forall_eq_or_imp, forall_eq]
      omega), ok_bind]
    simp only [List.getLastD_cons, List.getLastD_nil]
    rw [hcast]
    exact ih _ _ hstep

theorem answers_tryParseFourDigits (text : Bytes) (offset : Nat) :
    Answers (fun n : Int => ∃ m : Nat, m < 10000 ∧ n = m) (tryParseFourDigits text offset) :=
  Answers.refuseIf fun _ => answers_fourDigitsFrom text offset 4 0 (by decide)

-- ---------------------------------------------------------------------------
-- Instants
-- ---------------------------------------------------------------------------

theorem daysFromCivil_eq_timestamptz {year month day : Int} (h : 1 ≤ year) :
    daysFromCivil year month day = Timestamptz.daysFromCivil year month day := by
  unfold daysFromCivil Timestamptz.daysFromCivil
  generalize hadjusted : year - (if month ≤ 2 then 1 else 0) = adjusted
  have hpos : 0 ≤ adjusted := by
    rw [← hadjusted]
    split <;> omega
  by_cases hinside : adjusted ≤ 9223372036854775807
  · have hdiv := Int.tdiv_eq_ediv_of_nonneg hpos (b := 400)
    rw [int64_ok (by omega), ok_bind, ok_bind, if_pos hpos, hdiv, int64_ok (by omega), int64s_ok (by
      simp only [List.mem_cons, List.not_mem_nil, or_false, forall_eq_or_imp, forall_eq]
      omega)]
    rfl
  · have hoverflow : int64 adjusted = .error .overflow := if_neg (by omega)
    rw [hoverflow]
    rfl

/-- The receipt's instant, broken down. -/
def CivilTime.ofMilliseconds (milliseconds : Int) : CivilTime where
  year := (civilFromDays (milliseconds / 86400000)).year
  month := (civilFromDays (milliseconds / 86400000)).month
  day := (civilFromDays (milliseconds / 86400000)).day
  hour := milliseconds / 3600000 % 24
  minute := milliseconds / 60000 % 60
  second := milliseconds / 1000 % 60

theorem tryCivilTimeFromMilliseconds_eq {milliseconds : Int}
    (h : -9223372036854775808 ≤ milliseconds ∧ milliseconds ≤ 9223372036854775807) :
    tryCivilTimeFromMilliseconds milliseconds =
      if 1 ≤ (CivilTime.ofMilliseconds milliseconds).year ∧
          (CivilTime.ofMilliseconds milliseconds).year ≤ 9999 then
        .ok (CivilTime.ofMilliseconds milliseconds)
      else .error .refused := by
  have hunsigned {steps : List Int} (hsteps : ∀ n ∈ steps, 0 ≤ n ∧ n ≤ 4294967295) :
      uint32s steps = .ok (steps.getLastD 0) := uint32s_ok hsteps
  have hwithin : 0 ≤ milliseconds % 86400000 := by omega
  have hhour : 0 ≤ milliseconds % 86400000 % 3600000 := by omega
  have hminute : 0 ≤ milliseconds % 86400000 % 3600000 % 60000 := by omega
  rw [tryCivilTimeFromMilliseconds, correctedDivMod_eq (by decide) h, ok_bind]
  dsimp only
  rw [breakDownDays_eq hunsigned (by omega), ok_bind]
  by_cases hyear : 1 ≤ (CivilTime.ofMilliseconds milliseconds).year ∧
      (CivilTime.ofMilliseconds milliseconds).year ≤ 9999
  · have hguard : (decide ((civilFromDays (milliseconds / 86400000)).year < 1) ||
        decide ((civilFromDays (milliseconds / 86400000)).year > 9999)) = false := by
      simp only [CivilTime.ofMilliseconds] at hyear
      simp only [Bool.or_eq_false_iff, decide_eq_false_iff_not]
      omega
    rw [if_pos hyear, hguard, refuseIf_false, ok_bind, Int.tdiv_eq_ediv_of_nonneg hwithin,
      int64_ok (by omega), ok_bind, uint32_ok (by omega), ok_bind,
      Int.tmod_eq_emod_of_nonneg hwithin, int64_ok (by omega), ok_bind,
      Int.tdiv_eq_ediv_of_nonneg hhour, int64_ok (by omega), ok_bind, uint32_ok (by omega), ok_bind,
      Int.tmod_eq_emod_of_nonneg hhour, int64_ok (by omega), ok_bind,
      Int.tdiv_eq_ediv_of_nonneg hminute, int64_ok (by omega), ok_bind, uint32_ok (by omega),
      ok_bind]
    have hhours : milliseconds % 86400000 / 3600000 = milliseconds / 3600000 % 24 := by omega
    have hminutes : milliseconds % 86400000 % 3600000 / 60000 = milliseconds / 60000 % 60 :=
      by omega
    have hseconds : milliseconds % 86400000 % 3600000 % 60000 / 1000 =
        milliseconds / 1000 % 60 := by omega
    rw [hhours, hminutes, hseconds]
    rfl
  · have hguard : (decide ((civilFromDays (milliseconds / 86400000)).year < 1) ||
        decide ((civilFromDays (milliseconds / 86400000)).year > 9999)) = true := by
      simp only [CivilTime.ofMilliseconds] at hyear
      simp only [Bool.or_eq_true, decide_eq_true_eq]
      omega
    rw [if_neg hyear, hguard]
    rfl

-- ---------------------------------------------------------------------------
-- Building a timestamp
-- ---------------------------------------------------------------------------

/-- A date and a time that exist, on that weekday. A leap second is the second after
the minute's last. -/
def NamesInstant (weekday : Int) (date : Date) (hour minute second : Nat) : Prop :=
  IsDate date ∧ hour < 24 ∧ minute < 60 ∧ second ≤ 60 ∧
    (gregorianDay date.year date.month date.day + 4) % 7 = weekday

instance (weekday : Int) (date : Date) (hour minute second : Nat) :
    Decidable (NamesInstant weekday date hour minute second) := by
  unfold NamesInstant
  infer_instance

/-- The instant in milliseconds since 1970. -/
def instantMilliseconds (date : Date) (hour minute second : Nat) : Int :=
  (gregorianDay date.year date.month date.day * 86400 + hour * 3600 + minute * 60 + second) * 1000

/-- The guard before anything is computed. -/
theorem timestampGuard_eq_false {weekday : Int} {date : Date} {hour minute second : Nat}
    (hyear : 0 ≤ date.year) :
    (decide (weekday < 0) || date.year == 0 || (date.month : Int) == 0 ||
      decide ((date.month : Int) > 12) || (date.day : Int) == 0 ||
      decide ((date.day : Int) > daysInMonth date.year date.month) || decide ((hour : Int) > 23) ||
      decide ((minute : Int) > 59) || decide ((second : Int) > 60)) = false ↔
    0 ≤ weekday ∧ 1 ≤ date.year ∧ IsDate date ∧ hour < 24 ∧ minute < 60 ∧ second ≤ 60 := by
  unfold IsDate daysInMonth
  by_cases hmonth : 1 ≤ date.month ∧ date.month ≤ 12
  · rw [Timestamptz.daysInMonth_eq hmonth]
    simp only [Bool.or_eq_false_iff, decide_eq_false_iff_not, beq_eq_false_iff_ne]
    omega
  · simp only [Bool.or_eq_false_iff, decide_eq_false_iff_not, beq_eq_false_iff_ne]
    omega

theorem weekday_range (n : Int) : -7 < n.tmod 7 ∧ n.tmod 7 < 7 :=
  ⟨Int.lt_tmod_of_pos n (by decide), Int.tmod_lt_of_pos n (by decide)⟩

/-- A remainder that may be negative, corrected. -/
theorem corrected_weekday (n : Int) : (n.tmod 7 + 7).tmod 7 = n % 7 := by
  have hrange := weekday_range n
  have hsum := Int.mul_tdiv_add_tmod n 7
  rw [Int.tmod_eq_emod_of_nonneg (by omega)]
  omega

theorem tryBuildHttpTimestamp_eq (weekday : Int) {date : Date}
    (hyear : 0 ≤ date.year ∧ date.year ≤ 9999) (hour minute second : Nat) :
    tryBuildHttpTimestamp weekday date.year date.month date.day hour minute second =
      if 1 ≤ date.year ∧ NamesInstant weekday date hour minute second then
        .ok (instantMilliseconds date hour minute second)
      else .error .refused := by
  have hguard := @timestampGuard_eq_false weekday date hour minute second hyear.1
  unfold tryBuildHttpTimestamp
  by_cases hpast : 0 ≤ weekday ∧ 1 ≤ date.year ∧ IsDate date ∧ hour < 24 ∧ minute < 60 ∧ second ≤ 60
  · obtain ⟨hweekday, hfirst, hdate, hhour, hminute, hsecond⟩ := hpast
    have hdays := gregorianDay_range ⟨hfirst, hyear.2⟩ hdate
    rw [hguard.mpr ⟨hweekday, hfirst, hdate, hhour, hminute, hsecond⟩, refuseIf_false, ok_bind,
      daysFromCivil_eq_timestamptz hfirst, Timestamptz.daysFromCivil_eq ⟨hfirst, hyear.2⟩ hdate,
      ok_bind]
    have hweek := weekday_range (gregorianDay date.year date.month date.day + 4)
    rw [int64s_ok (by
      simp only [List.mem_cons, List.not_mem_nil, or_false, forall_eq_or_imp, forall_eq,
        corrected_weekday]
      omega), ok_bind]
    simp only [List.getLastD_cons, List.getLastD_nil, corrected_weekday]
    by_cases hday : (gregorianDay date.year date.month date.day + 4) % 7 = weekday
    · have hsame : ((gregorianDay date.year date.month date.day + 4) % 7 != weekday) = false := by
        simpa using hday
      rw [hsame, refuseIf_false, ok_bind, uint32s_ok (by
        simp only [List.mem_cons, List.not_mem_nil, or_false, forall_eq_or_imp, forall_eq]
        omega), ok_bind]
      simp only [List.getLastD_cons, List.getLastD_nil]
      rw [int64s_ok (by
        simp only [List.mem_cons, List.not_mem_nil, or_false, forall_eq_or_imp, forall_eq]
        omega), ok_bind]
      simp only [List.getLastD_cons, List.getLastD_nil]
      rw [int64_ok (by omega), if_pos ⟨hfirst, hdate, hhour, hminute, hsecond, hday⟩,
        instantMilliseconds]
      congr 1
      omega
    · have hother : ((gregorianDay date.year date.month date.day + 4) % 7 != weekday) = true := by
        simpa using hday
      rw [hother, if_neg (fun h => hday h.2.2.2.2.2)]
      rfl
  · rw [if_neg (by
      rintro ⟨hfirst, hdate, hhour, hminute, hsecond, hday⟩
      exact hpast ⟨by omega, hfirst, hdate, hhour, hminute, hsecond⟩)]
    have hrefused := mt hguard.mp hpast
    rw [Bool.eq_true_of_not_eq_false hrefused]
    rfl

-- ---------------------------------------------------------------------------
-- The second form
-- ---------------------------------------------------------------------------

/-- A date as RFC 850 writes it. -/
structure Rfc850Date where
  weekday : Nat
  day : Nat
  month : Nat
  shortYear : Nat
  hour : Nat
  minute : Nat
  second : Nat
  deriving DecidableEq, Repr

namespace Rfc850Date

/-- What follows the name of the weekday. -/
def tail (date : Rfc850Date) : Bytes :=
  byte ',' :: byte ' ' :: (fixedDigits 2 date.day ++ byte '-' :: (months.getD (date.month - 1) [] ++
    byte '-' :: (fixedDigits 2 date.shortYear ++ byte ' ' :: (fixedDigits 2 date.hour ++
      byte ':' :: (fixedDigits 2 date.minute ++ byte ':' :: (fixedDigits 2 date.second ++
        ascii " GMT"))))))

def text (date : Rfc850Date) : Bytes := longWeekdays.getD date.weekday [] ++ date.tail

/-- The names exist and every number has two digits. -/
structure Valid (date : Rfc850Date) : Prop where
  weekday : date.weekday < 7
  month : 1 ≤ date.month ∧ date.month ≤ 12
  day : date.day < 100
  shortYear : date.shortYear < 100
  hour : date.hour < 100
  minute : date.minute < 100
  second : date.second < 100

/-- The date in the given year. -/
def inYear (date : Rfc850Date) (year : Int) : Date := ⟨year, date.month, date.day⟩

/-- The month and what follows it. -/
def position (date : Rfc850Date) : List Int :=
  [date.month, date.day, date.hour, date.minute, date.second]

/-- The date of that year is more than fifty calendar years after the receipt. -/
def Ahead (date : Rfc850Date) (receipt : CivilTime) (year : Int) : Prop :=
  (receipt.year + 50) :: [receipt.month, receipt.day, receipt.hour, receipt.minute,
  receipt.second] <
    year :: date.position

/-- The latest year with those last digits that is not ahead. -/
def Resolves (date : Rfc850Date) (receipt : CivilTime) (year : Int) : Prop :=
  year % 100 = date.shortYear ∧ ¬date.Ahead receipt year ∧ date.Ahead receipt (year + 100)

instance (date : Rfc850Date) (receipt : CivilTime) (year : Int) :
    Decidable (date.Resolves receipt year) := by
  unfold Resolves Ahead
  infer_instance

def NamesInstantOf (date : Rfc850Date) (year : Int) : Prop :=
  NamesInstant date.weekday (date.inYear year) date.hour date.minute date.second

instance (date : Rfc850Date) (year : Int) : Decidable (date.NamesInstantOf year) := by
  unfold NamesInstantOf
  infer_instance

def milliseconds (date : Rfc850Date) (year : Int) : Int :=
  instantMilliseconds (date.inYear year) date.hour date.minute date.second

/-- Later in its year than the receipt in its own. -/
def later (date : Rfc850Date) (receipt : CivilTime) : Bool :=
  isLaterInYear date.month date.day date.hour date.minute date.second receipt

end Rfc850Date

open Rfc850Date

variable {date : Rfc850Date} {receipt : CivilTime}

-- ---------------------------------------------------------------------------
-- The year
-- ---------------------------------------------------------------------------

theorem isLaterInYear_eq_true {month day hour minute second : Int} :
    isLaterInYear month day hour minute second receipt = true ↔
      [receipt.month, receipt.day, receipt.hour, receipt.minute, receipt.second] <
        [month, day, hour, minute, second] := by
  unfold isLaterInYear
  simp only [List.cons_lt_cons_iff, bne_iff_ne, ne_eq]
  split_ifs <;> simp <;> omega

theorem ahead_iff {year : Int} :
    date.Ahead receipt year ↔
      receipt.year + 50 < year ∨ receipt.year + 50 = year ∧ date.later receipt = true := by
  rw [Ahead, List.cons_lt_cons_iff, later, isLaterInYear_eq_true, Rfc850Date.position]

/-- The first year ahead. -/
theorem ahead_iff_le {year : Int} :
    date.Ahead receipt year ↔ receipt.year + (if date.later receipt then 50 else 51) ≤ year := by
  rw [ahead_iff]
  split <;> simp [*] <;> omega

theorem resolves_unique {year other : Int} (h : date.Resolves receipt year)
    (h' : date.Resolves receipt other) : other = year := by
  obtain ⟨hdigits, hbefore, hahead⟩ := h
  obtain ⟨hdigits', hbefore', hahead'⟩ := h'
  rw [ahead_iff_le] at hbefore hahead hbefore' hahead'
  omega

/-- The year goes wrong where the rolling occurrence is fifty years back in the
receipt's own century and the one fifty years on is not ahead. -/
def HalfCenturySlip (date : Rfc850Date) (receipt : CivilTime) : Prop :=
  receipt.year % 100 = date.shortYear + 50 ∧ date.later receipt = false

instance (date : Rfc850Date) (receipt : CivilTime) : Decidable (HalfCenturySlip date receipt) := by
  unfold HalfCenturySlip
  infer_instance

/-- What the code resolves the year to. -/
theorem resolveYear_eq (hvalid : date.Valid) (hreceipt : 1 ≤ receipt.year ∧ receipt.year ≤ 9999) :
    ∃ year, resolveYear receipt date.shortYear (date.later receipt) = .ok year ∧
      year % 100 = date.shortYear ∧ (-100 ≤ year ∧ year ≤ 10100) ∧
      (date.Resolves receipt year ↔ ¬HalfCenturySlip date receipt) := by
  have hshort := hvalid.shortYear
  have hcentury := Int.tdiv_eq_ediv_of_nonneg (b := 100) (by omega : 0 ≤ receipt.year)
  generalize hfirst : receipt.year / 100 * 100 + (date.shortYear : Int) = first
  generalize hrolling : (if first < receipt.year - 50 then first + 100 else first) = rolling
  have hrange : 0 ≤ rolling ∧ rolling ≤ 10198 := by
    rw [← hrolling]
    split <;> omega
  refine ⟨if decide (rolling > receipt.year + 50) || (rolling == receipt.year + 50 &&
    date.later receipt)
    then rolling - 100 else rolling, ?_, ?_, ?_, ?_⟩
  · rw [resolveYear, hcentury, hfirst, int64s_ok (by
      simp only [List.mem_cons, List.not_mem_nil, or_false, forall_eq_or_imp, forall_eq]
      omega), ok_bind]
    simp only [List.getLastD_cons, List.getLastD_nil]
    rw [int64_ok (by omega), ok_bind, hrolling, int64_ok (by omega), ok_bind, int64_ok (by omega),
      ok_bind,
      int64_ok (by split <;> omega)]
  · rw [← hrolling, ← hfirst]
    split <;> split <;> omega
  · constructor
    · split <;> omega
    · split
      · omega
      · rename_i hkept
        simp only [Bool.or_eq_true, decide_eq_true_eq, not_or] at hkept
        omega
  · rw [Resolves, ahead_iff_le, ahead_iff_le, HalfCenturySlip, ← hrolling, ← hfirst]
    -- The two tests of the code against the one window of a hundred years.
    cases hlater : date.later receipt <;> simp only [Bool.and_true, Bool.and_false, Bool.or_false,
      Bool.or_eq_true, decide_eq_true_eq, beq_iff_eq, if_true, if_false, Bool.false_eq_true,
      and_true, and_false, reduceCtorEq, not_false_eq_true, iff_true] <;>
      split_ifs <;> omega

theorem existsUnique_resolves (hvalid : date.Valid) : ∃! year, date.Resolves receipt year := by
  have hshort := hvalid.shortYear
  generalize hfirst : receipt.year + (if date.later receipt then 50 else 51) = first
  refine existsUnique_of_exists_of_unique ⟨first - 100 +
    ((date.shortYear : Int) - (first - 100)) % 100, ?_, ?_, ?_⟩
    fun _ _ h h' => resolves_unique h' h
  · omega
  · rw [ahead_iff_le, hfirst]
    omega
  · rw [ahead_iff_le, hfirst]
    omega

-- ---------------------------------------------------------------------------
-- The text
-- ---------------------------------------------------------------------------

theorem longWeekdayIndex_text (hvalid : date.Valid) :
    longWeekdayIndex date.text = some (date.weekday,
    (longWeekdays.getD date.weekday []).length) := by
  have hweekday := hvalid.weekday
  rw [text]
  generalize date.weekday = weekday at *
  have htail : date.tail = byte ',' :: date.tail.tail := rfl
  rw [htail]
  generalize date.tail.tail = rest
  interval_cases weekday <;> 
    simp [longWeekdayIndex, longWeekdays, field, byteAt, ascii, List.findIdx?_cons]

theorem month_bytes (hvalid : date.Valid) :
    ∃ a b c, months.getD (date.month - 1) [] = [a, b, c] ∧ months.findIdx? ([a, b, c] == ·) =
    some (date.month - 1) := by
  obtain ⟨hlow, hhigh⟩ := hvalid.month
  generalize date.month = month at *
  interval_cases month <;> exact ⟨_, _, _, rfl, by decide⟩

theorem byteAt_text (index : Nat) :
    byteAt date.text ((longWeekdays.getD date.weekday []).length + index) =
    byteAt date.tail index := by
  rw [byteAt_add, text, List.drop_left]

theorem field_text (index count : Nat) :
    field date.text ((longWeekdays.getD date.weekday []).length + index) count =
      field date.tail index count := by
  rw [field_add, text, List.drop_left]

theorem tryParseRfc850Date_text (hvalid : date.Valid) (wall : Int) :
    tryParseRfc850Date date.text wall = (do
      let receipt ← tryCivilTimeFromMilliseconds wall
      let year ← resolveYear receipt date.shortYear (date.later receipt)
      refuseIf (decide (year < 1) || decide (year > 9999))
      tryBuildHttpTimestamp date.weekday year date.month date.day date.hour date.minute
        date.second) := by
  obtain ⟨a, b, c, hmonth, hindex⟩ := month_bytes hvalid
  have hlow := hvalid.month
  have htail : date.tail =
      byte ',' :: byte ' ' :: digit (date.day / 10) :: digit date.day :: byte '-' ::
      a :: b :: c :: byte '-' :: digit (date.shortYear / 10) :: digit date.shortYear :: byte ' ' ::
      digit (date.hour / 10) :: digit date.hour :: byte ':' :: digit (date.minute / 10) ::
      digit date.minute :: byte ':' :: digit (date.second / 10) :: digit date.second ::
      ascii " GMT" := by
    rw [tail, hmonth]
    rfl
  have hlength : date.text.length = (longWeekdays.getD date.weekday []).length + 24 := by
    rw [text, List.length_append, htail]
    rfl
  have htwo (index n : Nat) (hn : n < 100) (hplace : index + 2 ≤ 24)
      (h : field date.tail index 2 = [digit (n / 10), digit n]) :
      tryParseTwoDigits date.text ((longWeekdays.getD date.weekday []).length + index) =
      .ok (n : Int) := by
    rw [tryParseTwoDigits_eq (by omega) (by rw [field_text, h]; exact isDigit_two n), field_text, h,
      value_two hn]
  have hframe : isRfc850Frame date.text (longWeekdays.getD date.weekday []).length = true := by
    simp only [isRfc850Frame, hlength, byteAt_text, field_text, htail]
    simp [byteAt, field]
    decide
  have hmonthIndex : monthIndex date.text ((longWeekdays.getD date.weekday []).length + 5) =
      date.month := by
    have hfield : field date.tail 5 3 = [a, b, c] := by
      rw [htail]
      rfl
    rw [monthIndex, field_text, hfield, hindex]
    show ((date.month - 1 : Nat) : Int) + 1 = date.month
    omega
  have hnamed : ((date.month : Int) == 0) = false := by
    simp only [beq_eq_false_iff_ne]
    omega
  have hfound : ofOption (longWeekdayIndex date.text) =
      .ok (date.weekday, (longWeekdays.getD date.weekday []).length) := by
    rw [longWeekdayIndex_text hvalid, ofOption]
  rw [tryParseRfc850Date, hfound, ok_bind]
  dsimp only
  rw [hframe, Bool.not_true, refuseIf_false, ok_bind, hmonthIndex, hnamed, refuseIf_false, ok_bind,
    htwo 2 date.day hvalid.day (by decide) (by rw [htail]; rfl), ok_bind,
    htwo 9 date.shortYear hvalid.shortYear (by decide) (by rw [htail]; rfl), ok_bind,
    htwo 12 date.hour hvalid.hour (by decide) (by rw [htail]; rfl), ok_bind,
    htwo 15 date.minute hvalid.minute (by decide) (by rw [htail]; rfl), ok_bind,
    htwo 18 date.second hvalid.second (by decide) (by rw [htail]; rfl), ok_bind]
  rfl

-- ---------------------------------------------------------------------------
-- Reading a date of the second form
-- ---------------------------------------------------------------------------

/-- A wall-clock reading in the years 1 to 9999. -/
def InYears (wall : Int) : Prop :=
  gregorianDay 1 1 1 * 86400000 ≤ wall ∧ wall < gregorianDay 10000 1 1 * 86400000

/-- The year is the one that resolves, and the date is read in it. -/
def ReadsResolved (date : Rfc850Date) (wall : Int) : Prop :=
  ∃ year, (∀ other, date.Resolves (.ofMilliseconds wall) other ↔ other = year) ∧
    resolveYear (.ofMilliseconds wall) date.shortYear (date.later (.ofMilliseconds wall)) =
    .ok year ∧
    tryParseRfc850Date date.text wall =
      if date.NamesInstantOf year then .ok (date.milliseconds year) else .error .refused

theorem rfc850_year_resolution {date : Rfc850Date} {wall : Int} (hvalid : date.Valid)
    (hwall : InYears wall) :
    (∃! year, date.Resolves (.ofMilliseconds wall) year) ∧
      (ReadsResolved date wall ↔
        ¬HalfCenturySlip date (.ofMilliseconds wall) ∧
          ∀ year, date.Resolves (.ofMilliseconds wall) year → date.NamesInstantOf year →
            1 ≤ year ∧ year ≤ 9999) := by
  refine ⟨existsUnique_resolves hvalid, ?_⟩
  have hfirst : gregorianDay 1 1 1 = -719162 := by decide
  have hlast : gregorianDay 10000 1 1 = 2932897 := by decide
  rw [InYears, hfirst, hlast] at hwall
  have hreceipt : 1 ≤ (CivilTime.ofMilliseconds wall).year ∧
      (CivilTime.ofMilliseconds wall).year ≤ 9999 :=
    Instant.year_range (by omega) (by omega)
  have hcivil : tryCivilTimeFromMilliseconds wall = .ok (.ofMilliseconds wall) := by
    rw [tryCivilTimeFromMilliseconds_eq (by omega), if_pos hreceipt]
  obtain ⟨year, hresolved, hdigits, hrange, hslip⟩ := resolveYear_eq hvalid hreceipt
  have hparse : tryParseRfc850Date date.text wall =
      if (1 ≤ year ∧ year ≤ 9999) ∧ date.NamesInstantOf year then .ok (date.milliseconds year)
      else .error .refused := by
    rw [tryParseRfc850Date_text hvalid, hcivil, ok_bind, hresolved, ok_bind]
    by_cases hinside : 1 ≤ year ∧ year ≤ 9999
    · have hguard : (decide (year < 1) || decide (year > 9999)) = false := by
        simp only [Bool.or_eq_false_iff, decide_eq_false_iff_not]
        omega
      have hbuilt := @tryBuildHttpTimestamp_eq date.weekday (date.inYear year)
        ⟨by simp only [inYear]; omega, hinside.2⟩ date.hour date.minute date.second
      rw [hguard, refuseIf_false, ok_bind]
      refine hbuilt.trans ?_
      by_cases hnames : date.NamesInstantOf year
      · rw [if_pos ⟨hinside.1, hnames⟩, if_pos ⟨hinside, hnames⟩]
        rfl
      · rw [if_neg (fun h => hnames h.2), if_neg (fun h => hnames h.2)]
    · have hguard : (decide (year < 1) || decide (year > 9999)) = true := by
        simp only [Bool.or_eq_true, decide_eq_true_eq]
        omega
      rw [hguard, if_neg (fun h => hinside h.1)]
      rfl
  constructor
  · rintro ⟨year', hunique, hresolved', hread⟩
    obtain rfl : year = year' := Except.ok.inj (hresolved.symm.trans hresolved')
    refine ⟨hslip.mp ((hunique year).mpr rfl), ?_⟩
    intro other hother hnames
    obtain rfl := (hunique other).mp hother
    by_contra houtside
    rw [hparse, if_neg (fun h => houtside h.1), if_pos hnames] at hread
    cases hread
  · rintro ⟨hnone, hinside⟩
    have hres := hslip.mpr hnone
    refine ⟨year, fun other => ⟨fun hother => resolves_unique hres hother, ?_⟩, hresolved, ?_⟩
    · rintro rfl
      exact hres
    · rw [hparse]
      by_cases hnames : date.NamesInstantOf year
      · rw [if_pos ⟨hinside year hres hnames, hnames⟩, if_pos hnames]
      · rw [if_neg (fun h => hnames h.2), if_neg hnames]

/-- The first of January '25, received in the middle of 2075 or of 2025. -/
def newYear (weekday : Nat) : Rfc850Date := ⟨weekday, 1, 1, 25, 0, 0, 0⟩

theorem newYear_valid {weekday : Nat} (h : weekday < 7) : (newYear weekday).Valid :=
  ⟨h, by simp [newYear], by simp [newYear], by simp [newYear], by simp [newYear],
    by simp [newYear], by simp [newYear]⟩

theorem rfc850_year_resolution_2025 : ReadsResolved (newYear 3) 1751328000000 := by
  have hresolves : (newYear 3).Resolves (.ofMilliseconds 1751328000000) 2025 := by decide +kernel
  refine (rfc850_year_resolution (newYear_valid (by decide)) ⟨by decide, by decide⟩).2.mpr
    ⟨by decide +kernel, ?_⟩
  intro year hyear _
  rw [resolves_unique hresolves hyear]
  decide

/-- Fifty years on the day is not ahead, and it is a Monday; the code reads 2025, a
Wednesday, and refuses. -/
theorem rfc850_half_century_refused :
    (newYear 1).Valid ∧ InYears 3329164800000 ∧
      (newYear 1).Resolves (.ofMilliseconds 3329164800000) 2125 ∧ (newYear 1).NamesInstantOf 2125 ∧
      tryParseRfc850Date (newYear 1).text 3329164800000 = .error .refused ∧
      ¬ReadsResolved (newYear 1) 3329164800000 := by
  have hresolves : (newYear 1).Resolves (.ofMilliseconds 3329164800000) 2125 := by decide +kernel
  have hnames : (newYear 1).NamesInstantOf 2125 := by decide +kernel
  have hrefused : tryParseRfc850Date (newYear 1).text 3329164800000 = .error .refused := by
    decide +kernel
  refine ⟨newYear_valid (by decide), ⟨by decide, by decide⟩, hresolves, hnames, hrefused, ?_⟩
  rintro ⟨year, hunique, -, hread⟩
  obtain rfl := (hunique 2125).mp hresolves
  rw [hrefused, if_pos hnames] at hread
  cases hread

end Cuac.Runtime.Resilience

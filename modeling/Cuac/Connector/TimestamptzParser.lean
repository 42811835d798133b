import Cuac.Lib.Fields
import Cuac.Lib.Overflow
import Cuac.Connector.Timestamptz

/-!
# Connector — reading a timestamp

`ParseTimestamptz` and Runtime's `Parse`: a date, a time with at most six digits
of a fraction, and `Z` or an offset of at most fourteen hours. Every operation of
the two is watched, and so are those of the renderer.

Both read digits and walk over the fraction and the offset with the same loops;
Connector's code counts the days in place, Runtime's has functions for it.
-/

namespace Cuac.Connector

open Cuac.Lib
open Cuac.Lib.Watched

-- ---------------------------------------------------------------------------
-- What the copies share
-- ---------------------------------------------------------------------------

def digitsFrom (value : Bytes) : Nat → Nat → Int → Watched Int
  | _, 0, parsed => .ok parsed
  | index, count + 1, parsed => do
    let parsed ← uint32s [parsed * 10, parsed * 10 + ((byteAt value index).toNat - 48)]
    digitsFrom value (index + 1) count parsed

/-- `parse_digits` and `Digits` -/
def parseDigits (value : Bytes) (start count : Nat) : Watched Int := digitsFrom value start count 0

def digitPositions : List Nat := [0, 1, 2, 3, 5, 6, 8, 9, 11, 12, 14, 15, 17, 18]

def hasDigits (value : Bytes) : Bool :=
  digitPositions.all fun index => isDigit (byteAt value index)

def hasSeparators (value : Bytes) : Bool :=
  byteAt value 4 == byte '-' && byteAt value 7 == byte '-' && byteAt value 10 == byte 'T' &&
    byteAt value 13 == byte ':' && byteAt value 16 == byte ':'

/-- The zeros a short fraction is continued with. -/
def scaleFraction : Nat → Int → Watched Int
  | 0, fraction => .ok fraction
  | turns + 1, fraction => do
    let fraction ← int64 (fraction * 10)
    scaleFraction turns fraction

/-- Where the fraction ends, and its microseconds. -/
def parseFraction (value : Bytes) : Watched (Nat × Int) :=
  if 19 < value.length && byteAt value 19 == byte '.' then do
    let digits := ((value.drop 20).takeWhile isDigit).length
    refuseIf (digits == 0 || decide (digits > 6))
    let fraction ← parseDigits value 20 digits
    let fraction ← scaleFraction (6 - digits) fraction
    pure (20 + digits, fraction)
  else pure (19, 0)

def isOffset (value : Bytes) (cursor : Nat) : Bool :=
  cursor + 6 == value.length && (byteAt value cursor == byte '+' ||
  byteAt value cursor == byte '-') &&
    isDigit (byteAt value (cursor + 1)) && isDigit (byteAt value (cursor + 2)) &&
    byteAt value (cursor + 3) == byte ':' && isDigit (byteAt value (cursor + 4)) &&
    isDigit (byteAt value (cursor + 5))

/-- The seconds of an offset, with its sign. -/
def offsetSeconds (negative : Bool) (hour minute : Int) : Watched Int := do
  let seconds ← uint32s [hour * 3600, minute * 60, hour * 3600 + minute * 60]
  if negative then int64 (-seconds) else pure seconds

/-- Where the offset ends, and its seconds. -/
def parseOffset (value : Bytes) (cursor : Nat) : Watched (Nat × Int) :=
  if decide (cursor < value.length) && byteAt value cursor == byte 'Z' then pure (cursor + 1, 0)
  else if isOffset value cursor then do
    let negative := byteAt value cursor == byte '-'
    let hour ← parseDigits value (cursor + 1) 2
    let minute ← parseDigits value (cursor + 4) 2
    refuseIf (decide (hour > 14) || decide (minute > 59) || (hour == 14 && minute != 0) ||
      (negative && hour == 0 && minute == 0))
    let seconds ← offsetSeconds negative hour minute
    pure (cursor + 6, seconds)
  else .error .refused

def daysTable : List Int := [31, 28, 31, 30, 31, 30, 31, 31, 30, 31, 30, 31]

-- ---------------------------------------------------------------------------
-- Connector's parser
-- ---------------------------------------------------------------------------

def isTimestamptz (microseconds : Int) : Bool :=
  decide (-62135596800000000 ≤ microseconds) && decide (microseconds ≤ 253402300799999999)

def parseTimestamptz (value : Bytes) : Watched Int := do
  refuseIf (decide (value.length < 20) || decide (value.length > 32))
  refuseIf (!hasDigits value)
  refuseIf (!hasSeparators value)
  let year ← parseDigits value 0 4
  let month ← parseDigits value 5 2
  let day ← parseDigits value 8 2
  let hour ← parseDigits value 11 2
  let minute ← parseDigits value 14 2
  let second ← parseDigits value 17 2
  let leapYear := year % 4 == 0 && (year % 100 != 0 || year % 400 == 0)
  refuseIf (year == 0 || month == 0 || decide (month > 12) || day == 0 ||
    decide (day > if month == 2 && leapYear then 29 else daysTable.getD (month - 1).toNat 0) ||
    decide (hour > 23) || decide (minute > 59) || decide (second > 59))
  let (cursor, fraction) ← parseFraction value
  let (cursor, offset) ← parseOffset value cursor
  refuseIf (cursor != value.length)
  let adjustedYear ← int64 (year - if month ≤ 2 then 1 else 0)
  let era ← int64s [if adjustedYear ≥ 0 then adjustedYear else adjustedYear - 399,
    (if adjustedYear ≥ 0 then adjustedYear else adjustedYear - 399).tdiv 400]
  let yearOfEra ← int64s [era * 400, adjustedYear - era * 400] >>= uint32
  let adjustedMonth ← uint32 (if month > 2 then month - 3 else month + 9)
  let dayOfYear ← uint32s [153 * adjustedMonth, 153 * adjustedMonth + 2,
    (153 * adjustedMonth + 2) / 5 + day, (153 * adjustedMonth + 2) / 5 + day - 1]
  let dayOfEra ← uint32s [yearOfEra * 365, yearOfEra * 365 + yearOfEra / 4,
    yearOfEra * 365 + yearOfEra / 4 - yearOfEra / 100,
    yearOfEra * 365 + yearOfEra / 4 - yearOfEra / 100 + dayOfYear]
  let days ← int64s [era * 146097, era * 146097 + dayOfEra, era * 146097 + dayOfEra - 719468]
  let daySeconds ← uint32s [hour * 3600, minute * 60, hour * 3600 + minute * 60,
    hour * 3600 + minute * 60 + second]
  let localSeconds ← int64s [days * 86400, days * 86400 + daySeconds]
  let candidate ← int64s [localSeconds - offset, (localSeconds - offset) * 1000000,
    (localSeconds - offset) * 1000000 + fraction]
  refuseIf (!isTimestamptz candidate)
  pure candidate

-- ---------------------------------------------------------------------------
-- The renderer's breakdown
-- ---------------------------------------------------------------------------

/-- A quotient and a remainder, corrected where the remainder is negative. -/
def correctedDivMod (a n : Int) : Watched (Int × Int) := do
  let quotient ← int64 (a.tdiv n)
  let remainder ← int64 (a.tmod n)
  if remainder < 0 then do
    let remainder ← int64 (remainder + n)
    let quotient ← int64 (quotient - 1)
    pure (quotient, remainder)
  else pure (quotient, remainder)

/-- The days are counted in an unsigned type that differs between the copies. -/
def breakDownDays (unsigned : List Int → Watched Int) (days : Int) : Watched Date := do
  let shifted ← int64 (days + 719468)
  let era ← int64s [if shifted ≥ 0 then shifted else shifted - 146096,
    (if shifted ≥ 0 then shifted else shifted - 146096).tdiv 146097]
  let dayOfEra ← int64s [era * 146097, shifted - era * 146097]
  let dayOfEra ← unsigned [dayOfEra]
  let yearOfEra ← unsigned [dayOfEra - dayOfEra / 1460,
    dayOfEra - dayOfEra / 1460 + dayOfEra / 36524,
    dayOfEra - dayOfEra / 1460 + dayOfEra / 36524 - dayOfEra / 146096,
    (dayOfEra - dayOfEra / 1460 + dayOfEra / 36524 - dayOfEra / 146096) / 365]
  let year ← int64s [yearOfEra, era * 400, yearOfEra + era * 400]
  let dayOfYear ← unsigned [365 * yearOfEra, 365 * yearOfEra + yearOfEra / 4,
    365 * yearOfEra + yearOfEra / 4 - yearOfEra / 100,
    dayOfEra - (365 * yearOfEra + yearOfEra / 4 - yearOfEra / 100)]
  let monthPrime ← unsigned [5 * dayOfYear, 5 * dayOfYear + 2, (5 * dayOfYear + 2) / 153]
  let day ← unsigned [153 * monthPrime, 153 * monthPrime + 2,
    dayOfYear - (153 * monthPrime + 2) / 5, dayOfYear - (153 * monthPrime + 2) / 5 + 1]
  let month ← unsigned [if monthPrime < 10 then monthPrime + 3 else monthPrime - 9]
  let month ← uint32 month
  let year ← int64 (year + if month ≤ 2 then 1 else 0)
  pure ⟨year, month.toNat, day.toNat⟩

/-- What the renderers compute before they format. -/
def breakDown (microseconds : Int) : Watched Instant := do
  let (seconds, fraction) ← correctedDivMod microseconds 1000000
  let (days, daySeconds) ← correctedDivMod seconds 86400
  let date ← breakDownDays uint64s days
  let hour ← int64 (daySeconds.tdiv 3600)
  let minute ← int64s [daySeconds.tmod 3600, (daySeconds.tmod 3600).tdiv 60]
  let second ← int64 (daySeconds.tmod 60)
  pure ⟨date, hour, minute, second, fraction⟩

end Cuac.Connector

-- ---------------------------------------------------------------------------
-- Runtime's parser
-- ---------------------------------------------------------------------------

namespace Cuac.Runtime.Timestamptz

open Cuac.Lib
open Cuac.Lib.Watched
open Cuac.Connector

def inRange (value : Int) : Bool :=
  decide (-62135596800000000 ≤ value) && decide (value ≤ 253402300799999999)

def leapYear (year : Int) : Bool := year % 4 == 0 && (year % 100 != 0 || year % 400 == 0)

def daysInMonth (year month : Int) : Int :=
  if month == 2 && leapYear year then 29 else daysTable.getD (month - 1).toNat 0

/-- `DaysFromCivil` -/
def daysFromCivil (year month day : Int) : Watched Int := do
  let year ← int64 (year - if month ≤ 2 then 1 else 0)
  let era ← int64s [if year ≥ 0 then year else year - 399,
    (if year ≥ 0 then year else year - 399).tdiv 400]
  let yearOfEra ← int64s [era * 400, year - era * 400] >>= uint32
  let adjustedMonth ← uint32 (if month > 2 then month - 3 else month + 9)
  let dayOfYear ← uint32s [153 * adjustedMonth, 153 * adjustedMonth + 2,
    (153 * adjustedMonth + 2) / 5 + day, (153 * adjustedMonth + 2) / 5 + day - 1]
  let dayOfEra ← uint32s [yearOfEra * 365, yearOfEra * 365 + yearOfEra / 4,
    yearOfEra * 365 + yearOfEra / 4 - yearOfEra / 100,
    yearOfEra * 365 + yearOfEra / 4 - yearOfEra / 100 + dayOfYear]
  int64s [era * 146097, era * 146097 + dayOfEra, era * 146097 + dayOfEra - 719468]

def parse (value : Bytes) : Watched Int := do
  refuseIf (decide (value.length < 20) || decide (value.length > 32))
  refuseIf (!hasDigits value)
  refuseIf (!hasSeparators value)
  let year ← parseDigits value 0 4
  let month ← parseDigits value 5 2
  let day ← parseDigits value 8 2
  let hour ← parseDigits value 11 2
  let minute ← parseDigits value 14 2
  let second ← parseDigits value 17 2
  refuseIf (year == 0 || month == 0 || decide (month > 12) || day == 0 ||
    decide (day > daysInMonth year month) || decide (hour > 23) || decide (minute > 59) ||
    decide (second > 59))
  let (cursor, fraction) ← parseFraction value
  let (cursor, offset) ← parseOffset value cursor
  refuseIf (cursor != value.length)
  let days ← daysFromCivil year month day
  let daySeconds ← uint32s [hour * 3600, minute * 60, hour * 3600 + minute * 60,
    hour * 3600 + minute * 60 + second]
  let localSeconds ← int64s [days * 86400, days * 86400 + daySeconds]
  let candidate ← int64s [localSeconds - offset, (localSeconds - offset) * 1000000,
    (localSeconds - offset) * 1000000 + fraction]
  refuseIf (!inRange candidate)
  pure candidate

end Cuac.Runtime.Timestamptz

import Cuac.Connector.TimestamptzParser
import Cuac.Runtime.HttpRetryController

/-!
# Runtime — rate-limit guidance

`ParseRateLimitGuidance` and what it reads: decimal seconds, and dates in the
three forms of HTTP. All arithmetic is watched.

A date of the second form has a year of two digits, which is resolved against the
wall clock at the receipt of the response.
-/

namespace Cuac.Runtime.Resilience

open Cuac.Lib
open Cuac.Lib.Watched
open Cuac.Connector

-- ---------------------------------------------------------------------------
-- Numbers
-- ---------------------------------------------------------------------------

/-- The loop over the digits refuses what passes the maximum, before it is added. -/
def parseDecimalFrom (maximum : Int) : Bytes → Int → Watched Int
  | [], parsed => .ok parsed
  | b :: rest, parsed => do
    refuseIf (!isDigit b)
    let digit ← int32s [b.toNat - 48]
    let room ← uint64s [maximum - digit, (maximum - digit) / 10]
    refuseIf (decide (parsed > room))
    let parsed ← uint64s [parsed * 10, parsed * 10 + digit]
    parseDecimalFrom maximum rest parsed

/-- A decimal number of any length that does not pass the maximum. -/
def tryParseDecimal (value : Bytes) (maximum : Int) : Watched Int := do
  refuseIf value.isEmpty
  parseDecimalFrom maximum value 0

/-- Two digits at an offset. -/
def tryParseTwoDigits (value : Bytes) (offset : Nat) : Watched Int := do
  refuseIf (decide (offset + 2 > value.length) || !isDigit (byteAt value offset) ||
    !isDigit (byteAt value (offset + 1)))
  let tens : Int := (byteAt value offset).toNat
  let units : Int := (byteAt value (offset + 1)).toNat
  int32s [tens - 48, (tens - 48) * 10, (tens - 48) * 10 + units, (tens - 48) * 10 + units - 48]

/-- The loop over the four digits of a year. -/
def fourDigitsFrom (value : Bytes) : Nat → Nat → Int → Watched Int
  | _, 0, parsed => .ok parsed
  | index, count + 1, parsed => do
    refuseIf (!isDigit (byteAt value index))
    let parsed ← uint32s [parsed * 10, parsed * 10 + ((byteAt value index).toNat - 48)]
    fourDigitsFrom value (index + 1) count parsed

/-- Four digits at an offset. -/
def tryParseFourDigits (value : Bytes) (offset : Nat) : Watched Int := do
  refuseIf (decide (offset + 4 > value.length))
  fourDigitsFrom value offset 4 0

-- ---------------------------------------------------------------------------
-- Names
-- ---------------------------------------------------------------------------

/-- The names of the months as they stand in a date. -/
def months : List Bytes :=
  ["Jan", "Feb", "Mar", "Apr", "May", "Jun", "Jul", "Aug", "Sep", "Oct", "Nov", "Dec"].map ascii

/-- The short names of the weekdays, from Sunday on. -/
def weekdays : List Bytes := ["Sun", "Mon", "Tue", "Wed", "Thu", "Fri", "Sat"].map ascii

/-- The long names of the weekdays, from Sunday on. -/
def longWeekdays : List Bytes :=
  ["Sunday", "Monday", "Tuesday", "Wednesday", "Thursday", "Friday", "Saturday"].map ascii

/-- Zero where no month is named. -/
def monthIndex (value : Bytes) (offset : Nat) : Int :=
  match months.findIdx? (field value offset 3 == ·) with
  | some index => index + 1
  | none => 0

/-- Negative where no weekday is named. -/
def weekdayIndex (value : Bytes) : Int :=
  match weekdays.findIdx? (field value 0 3 == ·) with
  | some index => index
  | none => -1

/-- The weekday and the length of its name. -/
def longWeekdayIndex (value : Bytes) : Option (Nat × Nat) :=
  (longWeekdays.findIdx? fun weekday =>
    decide (value.length > weekday.length) && field value 0 weekday.length == weekday &&
      byteAt value weekday.length == byte ',').map fun index =>
    (index, (longWeekdays.getD index []).length)

-- ---------------------------------------------------------------------------
-- Instants
-- ---------------------------------------------------------------------------

def daysInMonth (year month : Int) : Int := Timestamptz.daysInMonth year month

/-- Its years are not negative, so the division needs no correction. -/
def daysFromCivil (year month day : Int) : Watched Int := do
  let adjustedYear ← int64 (year - if month ≤ 2 then 1 else 0)
  let era ← int64 (adjustedYear.tdiv 400)
  let yearOfEra ← int64s [era * 400, adjustedYear - era * 400] >>= uint32
  let adjustedMonth ← uint32 (if month > 2 then month - 3 else month + 9)
  let dayOfYear ← uint32s [153 * adjustedMonth, 153 * adjustedMonth + 2,
    (153 * adjustedMonth + 2) / 5 + day, (153 * adjustedMonth + 2) / 5 + day - 1]
  let dayOfEra ← uint32s [yearOfEra * 365, yearOfEra * 365 + yearOfEra / 4,
    yearOfEra * 365 + yearOfEra / 4 - yearOfEra / 100,
    yearOfEra * 365 + yearOfEra / 4 - yearOfEra / 100 + dayOfYear]
  int64s [era * 146097, era * 146097 + dayOfEra, era * 146097 + dayOfEra - 719468]

/-- A date with its time of day. -/
structure CivilTime where
  year : Int
  month : Int
  day : Int
  hour : Int
  minute : Int
  second : Int
  deriving DecidableEq, Repr

/-- The date and time at which the clock stands. -/
def tryCivilTimeFromMilliseconds (milliseconds : Int) : Watched CivilTime := do
  let (days, withinDay) ← correctedDivMod milliseconds 86400000
  let date ← breakDownDays uint32s days
  refuseIf (decide (date.year < 1) || decide (date.year > 9999))
  let hour ← int64 (withinDay.tdiv 3600000) >>= uint32
  let withinDay ← int64 (withinDay.tmod 3600000)
  let minute ← int64 (withinDay.tdiv 60000) >>= uint32
  let withinDay ← int64 (withinDay.tmod 60000)
  let second ← int64 (withinDay.tdiv 1000) >>= uint32
  pure ⟨date.year, date.month, date.day, hour, minute, second⟩

/-- Whether a day and time comes later in the year than the reference does. -/
def isLaterInYear (month day hour minute second : Int) (reference : CivilTime) : Bool :=
  if month != reference.month then decide (month > reference.month)
  else if day != reference.day then decide (day > reference.day)
  else if hour != reference.hour then decide (hour > reference.hour)
  else if minute != reference.minute then decide (minute > reference.minute)
  else if second != reference.second then decide (second > reference.second)
  else false

/-- The instant of a date that exists, on the weekday that it was given. -/
def tryBuildHttpTimestamp (weekday year month day hour minute second : Int) : Watched Int := do
  refuseIf (decide (weekday < 0) || year == 0 || month == 0 || decide (month > 12) || day == 0 ||
    decide (day > daysInMonth year month) || decide (hour > 23) || decide (minute > 59) ||
    decide (second > 60))
  let days ← daysFromCivil year month day
  let computedWeekday ← int64s [days + 4, (days + 4).tmod 7, (days + 4).tmod 7 + 7,
    ((days + 4).tmod 7 + 7).tmod 7]
  refuseIf (computedWeekday != weekday)
  let daySeconds ← uint32s [hour * 3600, minute * 60, hour * 3600 + minute * 60,
    hour * 3600 + minute * 60 + second]
  let seconds ← int64s [days * 86400, days * 86400 + daySeconds]
  int64 (seconds * 1000)

-- ---------------------------------------------------------------------------
-- The three forms of a date
-- ---------------------------------------------------------------------------

/-- The fixed bytes of `Sun, 06 Nov 1994 08:49:37 GMT`. -/
def isImfFrame (value : Bytes) : Bool :=
  value.length == 29 && byteAt value 3 == byte ',' && byteAt value 4 == byte ' ' &&
    byteAt value 7 == byte ' ' && byteAt value 11 == byte ' ' && byteAt value 16 == byte ' ' &&
    byteAt value 19 == byte ':' && byteAt value 22 == byte ':' && byteAt value 25 == byte ' ' &&
    field value 26 3 == ascii "GMT"

/-- The preferred form, whose year has four digits. -/
def tryParseImfFixdate (value : Bytes) : Watched Int := do
  refuseIf (!isImfFrame value)
  let month := monthIndex value 8
  let weekday := weekdayIndex value
  refuseIf (decide (weekday < 0) || month == 0)
  let day ← tryParseTwoDigits value 5
  let year ← tryParseFourDigits value 12
  let hour ← tryParseTwoDigits value 17
  let minute ← tryParseTwoDigits value 20
  let second ← tryParseTwoDigits value 23
  refuseIf (year == 0 || day == 0 || decide (day > daysInMonth year month))
  tryBuildHttpTimestamp weekday year month day hour minute second

/-- The fixed bytes of `Sunday, 06-Nov-94 08:49:37 GMT`, behind the name of the weekday. -/
def isRfc850Frame (value : Bytes) (length : Nat) : Bool :=
  value.length == length + 24 && byteAt value (length + 1) == byte ' ' &&
    byteAt value (length + 4) == byte '-' && byteAt value (length + 8) == byte '-' &&
    byteAt value (length + 11) == byte ' ' && byteAt value (length + 14) == byte ':' &&
    byteAt value (length + 17) == byte ':' && byteAt value (length + 20) == byte ' ' &&
    field value (length + 21) 3 == ascii "GMT"

/-- The rolling occurrence of a year of two digits. `later` says that the date comes
later in its year than the receipt in its own. -/
def resolveYear (receipt : CivilTime) (shortYear : Int) (later : Bool) : Watched Int := do
  let year ← int64s [receipt.year.tdiv 100, receipt.year.tdiv 100 * 100,
    receipt.year.tdiv 100 * 100 + shortYear]
  let low ← int64 (receipt.year - 50)
  let year ← int64 (if year < low then year + 100 else year)
  let high ← int64 (receipt.year + 50)
  int64 (if decide (year > high) || (year == high && later) then year - 100 else year)

/-- The form whose year has two digits, read against the year of the receipt. -/
def tryParseRfc850Date (value : Bytes) (receiptWallMilliseconds : Int) : Watched Int := do
  let (weekday, length) ← ofOption (longWeekdayIndex value)
  refuseIf (!isRfc850Frame value length)
  let month := monthIndex value (length + 5)
  refuseIf (month == 0)
  let day ← tryParseTwoDigits value (length + 2)
  let shortYear ← tryParseTwoDigits value (length + 9)
  let hour ← tryParseTwoDigits value (length + 12)
  let minute ← tryParseTwoDigits value (length + 15)
  let second ← tryParseTwoDigits value (length + 18)
  let receipt ← tryCivilTimeFromMilliseconds receiptWallMilliseconds
  let year ← resolveYear receipt shortYear (isLaterInYear month day hour minute second receipt)
  refuseIf (decide (year < 1) || decide (year > 9999))
  tryBuildHttpTimestamp weekday year month day hour minute second

/-- The fixed bytes of `Sun Nov  6 08:49:37 1994`. -/
def isAsctimeFrame (value : Bytes) : Bool :=
  value.length == 24 && byteAt value 3 == byte ' ' && byteAt value 7 == byte ' ' &&
    byteAt value 10 == byte ' ' && byteAt value 13 == byte ':' && byteAt value 16 == byte ':' &&
    byteAt value 19 == byte ' '

/-- A day below ten may have a blank for its first digit. -/
def asctimeDay (value : Bytes) : Watched Int :=
  if byteAt value 8 == byte ' ' && isDigit (byteAt value 9) then
    int32s [(byteAt value 9).toNat - 48]
  else tryParseTwoDigits value 8

/-- The form of the C library, whose day is padded with a space. -/
def tryParseAsctimeDate (value : Bytes) : Watched Int := do
  refuseIf (!isAsctimeFrame value)
  let weekday := weekdayIndex value
  let month := monthIndex value 4
  let day ← asctimeDay value
  refuseIf (month == 0)
  let hour ← tryParseTwoDigits value 11
  let minute ← tryParseTwoDigits value 14
  let second ← tryParseTwoDigits value 17
  let year ← tryParseFourDigits value 20
  tryBuildHttpTimestamp weekday year month day hour minute second

/-- The three forms, tried in turn. -/
def tryParseHttpDate (value : Bytes) (receiptWallMilliseconds : Int) : Watched Int :=
  orElse (tryParseImfFixdate value)
    (orElse (tryParseRfc850Date value receiptWallMilliseconds) (tryParseAsctimeDate value))

-- ---------------------------------------------------------------------------
-- Guidance
-- ---------------------------------------------------------------------------

/-- A delay is added to the steady clock where the sum fits. -/
def tryAddDelay (steady delay : Int) : Watched Int := do
  refuseIf (decide (delay > 9223372036854775807))
  let latest ← int64 (9223372036854775807 - delay)
  refuseIf (decide (steady > latest))
  int64 (steady + delay)

/-- The delay until an instant, none where it has passed. -/
def tryAbsoluteDelay (target reference : Int) : Watched Int :=
  if target ≤ reference then pure 0
  else if reference < 0 then do
    let latest ← int64 (9223372036854775807 + reference)
    refuseIf (decide (target > latest))
    int64 (target - reference) >>= uint64
  else int64 (target - reference) >>= uint64

/-- The seconds whose milliseconds a signed value holds. -/
def maximumSeconds : Int := 9223372036854775807 / 1000

/-- The delay one value asks for. -/
def observationDelay (format : RateLimitGuidanceFormat) (value : Bytes)
    (receiptWallMilliseconds dateReference : Int) : Watched Int :=
  match format with
  | .deltaSeconds => do
    let seconds ← tryParseDecimal value maximumSeconds
    uint64 (seconds * 1000)
  | .retryAfter =>
    orElse (do
      let seconds ← tryParseDecimal value maximumSeconds
      uint64 (seconds * 1000)) (do
      let target ← tryParseHttpDate value receiptWallMilliseconds
      tryAbsoluteDelay target dateReference)
  | .unixSeconds => do
    let seconds ← tryParseDecimal value maximumSeconds
    let target ← uint64 (seconds * 1000) >>= int64
    tryAbsoluteDelay target dateReference

/-- `HasDuplicateField` -/
def hasDuplicateField (prior : List RateLimitGuidanceObservation) (name : Bytes) : Bool :=
  prior.any fun observation => observation.canonicalFieldName == name

/-- What the loop has found. -/
structure LatestGuidance where
  found : Bool
  delay : Int
  eligible : Int
  deriving DecidableEq, Repr

/-- The longer of two delays is kept. -/
def LatestGuidance.observe (latest : LatestGuidance) (delay eligible : Int) : LatestGuidance :=
  if delay > latest.delay then ⟨true, delay, eligible⟩ else { latest with found := true }

/-- One turn of the loop. -/
def observeGuidance (receipt : RateLimitClockReceipt) (dateReference : Int)
    (prior : List RateLimitGuidanceObservation) (observation : RateLimitGuidanceObservation)
    (latest : LatestGuidance) : Watched LatestGuidance := do
  refuseIf (observation.canonicalFieldName.isEmpty ||
    hasDuplicateField prior observation.canonicalFieldName ||
    decide (observation.values.length > 1))
  match observation.values with
  | [] => pure latest
  | value :: _ => do
    let delay ← observationDelay observation.format value receipt.wallMilliseconds dateReference
    let eligible ← tryAddDelay receipt.steadyMilliseconds delay
    pure (latest.observe delay eligible)

/-- The loop over the declared headers and the values that each of them has. -/
def guidanceFrom (receipt : RateLimitClockReceipt) (dateReference : Int) :
    List RateLimitGuidanceObservation → List RateLimitGuidanceObservation → LatestGuidance →
      Watched LatestGuidance
  | _, [], latest => .ok latest
  | prior, observation :: rest, latest => do
    let latest ← observeGuidance receipt dateReference prior observation latest
    guidanceFrom receipt dateReference (prior ++ [observation]) rest latest

/-- The `Date` field where there is one, else the receipt's wall time. -/
def dateReferenceOf (dateValues : List Bytes) (receipt : RateLimitClockReceipt) : Watched Int :=
  match dateValues with
  | [] => pure receipt.wallMilliseconds
  | [value] => tryParseHttpDate value receipt.wallMilliseconds
  | _ => .error .refused

/-- `Failure` -/
def guidanceFailure (reason : RateLimitGuidanceReason) : RateLimitGuidanceResult :=
  ⟨reason, 0, 0, false⟩

/-- The verdict on the longest delay that was found. -/
def concludeGuidance (latest : LatestGuidance) (maximumDelayMilliseconds : UInt64) :
    RateLimitGuidanceResult :=
  if !latest.found then guidanceFailure .guidanceMissing
  else if latest.delay > maximumDelayMilliseconds.toNat then guidanceFailure .guidanceExceedsPolicy
  else ⟨.none, latest.eligible, UInt64.ofNat latest.delay.toNat, latest.delay == 0⟩

/-- The guidance of one response. -/
def parseRateLimitGuidance (input : RateLimitGuidanceInput) : Watched RateLimitGuidanceResult :=
  orElse (do
    let dateReference ← dateReferenceOf input.dateValues input.receipt
    let latest ← guidanceFrom input.receipt dateReference [] input.guidance
      ⟨false, 0, input.receipt.steadyMilliseconds⟩
    pure (concludeGuidance latest input.maximumDelayMilliseconds))
    (.ok (guidanceFailure .malformedGuidance))

end Cuac.Runtime.Resilience

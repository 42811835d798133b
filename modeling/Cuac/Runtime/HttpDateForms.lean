import Cuac.Runtime.HttpDates
import Mathlib.Data.List.GetD

/-!
# Runtime — what a date of HTTP says

The three forms as texts, and the instant that each of them names. `Denotes` says so by
the calendar; a year of two digits is the one that resolves, or fifty years before the
receipt where it slips.

Each parser is taken apart once: a text that it accepts is the text of a date, and on
the text of a date it answers as the calendar says. The lengths keep the forms apart.

Main results:

* `tryParseImfFixdate_text`, `tryParseAsctimeDate_text` — the answer on a date's text.
* `tryParseRfc850Date_eq_ok` — what the parser of the second form accepts.
* `tryParseHttpDate_eq_ok` — a text is read as the instant that it denotes.
-/

namespace Cuac.Runtime.Resilience

open Cuac.Lib
open Cuac.Lib.Watched
open Cuac.Connector

-- ---------------------------------------------------------------------------
-- Numbers at a place
-- ---------------------------------------------------------------------------

variable {text : Bytes} {offset : Nat}

theorem exists_fixedDigits {width : Nat} (h : offset + width ≤ text.length)
    (hdigits : ∀ b ∈ field text offset width, isDigit b = true) :
    ∃ n, n < 10 ^ width ∧ field text offset width = fixedDigits width n := by
  have hwidth := length_field h
  have hbound := value_lt hdigits
  have hfixed := fixedDigits_value hdigits
  rw [hwidth] at hbound hfixed
  exact ⟨_, hbound, hfixed.symm⟩

theorem exists_of_tryParseTwoDigits {parsed : Int}
    (h : tryParseTwoDigits text offset = .ok parsed) :
    ∃ n, n < 100 ∧ field text offset 2 = fixedDigits 2 n := by
  unfold tryParseTwoDigits at h
  obtain ⟨_, hguard, -⟩ := bind_eq_ok.mp h
  simp only [refuseIf, throwIf_eq_ok, Bool.or_eq_false_iff, decide_eq_false_iff_not,
    Bool.not_eq_false'] at hguard
  obtain ⟨⟨hlong, htens⟩, hunits⟩ := hguard
  have hroom : offset + 2 ≤ text.length := by omega
  refine exists_fixedDigits hroom ?_
  rw [field_succ (by omega), field_succ (by omega)]
  simp [htens, hunits, field]

theorem tryParseTwoDigits_of_field {n : Nat} (h : field text offset 2 = fixedDigits 2 n)
    (hlong : offset + 2 ≤ text.length) (hn : n < 100) :
    tryParseTwoDigits text offset = .ok (n : Int) := by
  rw [tryParseTwoDigits_eq hlong (by rw [h]; exact isDigit_fixedDigits 2 n), h,
    value_fixedDigits hn]

theorem fourDigitsFrom_eq {index count : Nat} {seen : Int} (hlong : index + count ≤ text.length)
    (h : ∀ b ∈ field text index count, isDigit b = true) :
    fourDigitsFrom text index count seen = digitsFrom text index count seen := by
  induction count generalizing index seen with
  | zero => rfl
  | succ count ih =>
    rw [field_succ (by omega)] at h
    rw [fourDigitsFrom, digitsFrom, h _ List.mem_cons_self, Bool.not_true, refuseIf_false, ok_bind]
    congr 1
    funext parsed
    exact ih (by omega) fun b hb => h b (List.mem_cons_of_mem _ hb)

theorem isDigit_of_fourDigitsFrom {index count : Nat} {seen parsed : Int}
    (hlong : index + count ≤ text.length) (h : fourDigitsFrom text index count seen = .ok parsed) :
    ∀ b ∈ field text index count, isDigit b = true := by
  induction count generalizing index seen with
  | zero =>
    intro b hb
    simp [field] at hb
  | succ count ih =>
    rw [fourDigitsFrom] at h
    obtain ⟨_, hdigit, h⟩ := bind_eq_ok.mp h
    obtain ⟨_, -, h⟩ := bind_eq_ok.mp h
    simp only [refuseIf, throwIf_eq_ok, Bool.not_eq_false'] at hdigit
    rw [field_succ (by omega)]
    intro b hb
    rcases List.mem_cons.mp hb with rfl | hb
    · exact hdigit
    · exact ih (by omega) h b hb

theorem exists_of_tryParseFourDigits {parsed : Int}
    (h : tryParseFourDigits text offset = .ok parsed) :
    ∃ n, n < 10000 ∧ field text offset 4 = fixedDigits 4 n := by
  unfold tryParseFourDigits at h
  obtain ⟨_, hlong, h⟩ := bind_eq_ok.mp h
  simp only [refuseIf, throwIf_eq_ok, decide_eq_false_iff_not, not_lt] at hlong
  exact exists_fixedDigits hlong (isDigit_of_fourDigitsFrom hlong h)

theorem tryParseFourDigits_of_field {n : Nat} (h : field text offset 4 = fixedDigits 4 n)
    (hlong : offset + 4 ≤ text.length) (hn : n < 10000) :
    tryParseFourDigits text offset = .ok (n : Int) := by
  have hdigits : ∀ b ∈ field text offset 4, isDigit b = true := by
    rw [h]
    exact isDigit_fixedDigits 4 n
  have hguard : decide (offset + 4 > text.length) = false := by simpa using hlong
  have hparsed := Connector.parseDigits_eq hlong (by decide) hdigits
  rw [h, value_fixedDigits hn] at hparsed
  rw [tryParseFourDigits, hguard, refuseIf_false, ok_bind, fourDigitsFrom_eq hlong hdigits]
  exact hparsed

-- ---------------------------------------------------------------------------
-- Names at a place
-- ---------------------------------------------------------------------------

/-- A month is found where its name stands. -/
theorem exists_of_monthIndex (h : monthIndex text offset ≠ 0) :
    ∃ month, (1 ≤ month ∧ month ≤ 12) ∧ field text offset 3 = months.getD (month - 1) [] := by
  unfold monthIndex at h
  split at h
  · rename_i index hindex
    obtain ⟨hlt, hname, -⟩ := List.findIdx?_eq_some_iff_getElem.mp hindex
    have hlength : months.length = 12 := rfl
    refine ⟨index + 1, by omega, ?_⟩
    rw [Nat.add_sub_cancel, List.getD_eq_getElem _ _ hlt]
    exact beq_iff_eq.mp hname
  · exact absurd rfl h

/-- The name of a month is found as its number. -/
theorem monthIndex_of_field {month : Nat} (h : 1 ≤ month ∧ month ≤ 12)
    (hname : field text offset 3 = months.getD (month - 1) []) :
    monthIndex text offset = month := by
  have hindex : months.findIdx? (months.getD (month - 1) [] == ·) = some (month - 1) := by
    obtain ⟨hlow, hhigh⟩ := h
    interval_cases month <;> decide
  rw [monthIndex, hname, hindex]
  show ((month - 1 : Nat) : Int) + 1 = month
  omega

/-- A weekday is found where its name stands. -/
theorem exists_of_weekdayIndex (h : 0 ≤ weekdayIndex text) :
    ∃ weekday, weekday < 7 ∧ field text 0 3 = weekdays.getD weekday [] := by
  unfold weekdayIndex at h
  split at h
  · rename_i index hindex
    obtain ⟨hlt, hname, -⟩ := List.findIdx?_eq_some_iff_getElem.mp hindex
    refine ⟨index, hlt, ?_⟩
    rw [List.getD_eq_getElem _ _ hlt]
    exact beq_iff_eq.mp hname
  · omega

/-- The name of a weekday is found as its number. -/
theorem weekdayIndex_of_field {weekday : Nat} (h : weekday < 7)
    (hname : field text 0 3 = weekdays.getD weekday []) : weekdayIndex text = weekday := by
  have hindex : weekdays.findIdx? (weekdays.getD weekday [] == ·) = some weekday := by
    interval_cases weekday <;> decide
  rw [weekdayIndex, hname, hindex]

/-- The short name of a weekday has three letters. -/
theorem weekday_bytes {weekday : Nat} (h : weekday < 7) :
    ∃ a b c, weekdays.getD weekday [] = [a, b, c] := by
  interval_cases weekday <;> exact ⟨_, _, _, rfl⟩

/-- The name of a month has three letters. -/
theorem named_month {month : Nat} (h : 1 ≤ month ∧ month ≤ 12) :
    ∃ a b c, months.getD (month - 1) [] = [a, b, c] := by
  obtain ⟨hlow, hhigh⟩ := h
  interval_cases month <;> exact ⟨_, _, _, rfl⟩

-- ---------------------------------------------------------------------------
-- Dates with a year of four digits
-- ---------------------------------------------------------------------------

/-- A date as the first and the third form write it. -/
structure FullDate where
  weekday : Nat
  year : Nat
  month : Nat
  day : Nat
  hour : Nat
  minute : Nat
  second : Nat
  deriving DecidableEq, Repr

/-- The day of the third form: one below ten may have a blank for its first digit. -/
def blankDay (day : Nat) (blank : Bool) : Bytes :=
  if blank then [byte ' ', digit day] else fixedDigits 2 day

namespace FullDate

variable (date : FullDate)

/-- The date as `Sun, 06 Nov 1994 08:49:37 GMT`. -/
def imfText : Bytes :=
  weekdays.getD date.weekday [] ++ byte ',' :: byte ' ' :: (fixedDigits 2 date.day ++ byte ' ' ::
    (months.getD (date.month - 1) [] ++ byte ' ' :: (fixedDigits 4 date.year ++ byte ' ' ::
      (fixedDigits 2 date.hour ++ byte ':' :: (fixedDigits 2 date.minute ++ byte ':' ::
        (fixedDigits 2 date.second ++ ascii " GMT"))))))

/-- The date as `Sun Nov  6 08:49:37 1994`, with a space or a zero in front of a short day. -/
def asctimeText (blank : Bool) : Bytes :=
  weekdays.getD date.weekday [] ++ byte ' ' :: (months.getD (date.month - 1) [] ++ byte ' ' ::
    (blankDay date.day blank ++ byte ' ' :: (fixedDigits 2 date.hour ++ byte ':' ::
      (fixedDigits 2 date.minute ++ byte ':' :: (fixedDigits 2 date.second ++ byte ' ' ::
        fixedDigits 4 date.year)))))

/-- The names exist and every number has its digits. -/
structure Valid : Prop where
  weekday : date.weekday < 7
  month : 1 ≤ date.month ∧ date.month ≤ 12
  day : date.day < 100
  year : date.year < 10000
  hour : date.hour < 100
  minute : date.minute < 100
  second : date.second < 100

/-- The date exists, on its weekday. -/
def Exists : Prop :=
  1 ≤ date.year ∧ date.year < 10000 ∧
    NamesInstant date.weekday ⟨date.year, date.month, date.day⟩ date.hour date.minute date.second

instance : Decidable date.Exists := by
  unfold Exists
  infer_instance

/-- The instant of the date, in milliseconds of the wall clock. -/
def milliseconds : Int :=
  instantMilliseconds ⟨date.year, date.month, date.day⟩ date.hour date.minute date.second

variable {date}

/-- A date that exists has fields that fit its text. -/
theorem Exists.valid (h : date.Exists) : date.Valid := by
  obtain ⟨-, hyear, ⟨hlow, hhigh, -, hday⟩, hhour, hminute, hsecond, hweekday⟩ := h
  have hlength := monthLength_le date.year date.month
  dsimp only at hlow hhigh hday
  exact ⟨by omega, ⟨hlow, hhigh⟩, by omega, hyear, by omega, by omega, by omega⟩

/-- What the calendar says of the numbers of a date. -/
theorem Valid.built (h : date.Valid) :
    tryBuildHttpTimestamp date.weekday date.year date.month date.day date.hour date.minute
        date.second =
      if date.Exists then .ok date.milliseconds else .error .refused := by
  have hyear := h.year
  have hbuilt := @tryBuildHttpTimestamp_eq date.weekday ⟨date.year, date.month, date.day⟩
    ⟨by simp only; omega, by simp only; omega⟩ date.hour date.minute date.second
  refine hbuilt.trans ?_
  by_cases hexists : date.Exists
  · have hfirst : (1 : Int) ≤ date.year := Int.ofNat_le.mpr hexists.1
    rw [if_pos hexists, if_pos ⟨hfirst, hexists.2.2⟩]
    rfl
  · rw [if_neg hexists, if_neg]
    rintro ⟨hfirst, hnames⟩
    exact hexists ⟨Int.ofNat_le.mp hfirst, hyear, hnames⟩

end FullDate

variable {date : FullDate}

-- ---------------------------------------------------------------------------
-- The first form
-- ---------------------------------------------------------------------------

/-- What is read in the preferred form is the text of a date. -/
theorem exists_of_tryParseImfFixdate {t : Int} (h : tryParseImfFixdate text = .ok t) :
    ∃ date : FullDate, date.Valid ∧ text = date.imfText := by
  unfold tryParseImfFixdate at h
  obtain ⟨_, hframe, h⟩ := bind_eq_ok.mp h
  obtain ⟨_, hnamed, h⟩ := bind_eq_ok.mp h
  obtain ⟨_, hday, h⟩ := bind_eq_ok.mp h
  obtain ⟨_, hyear, h⟩ := bind_eq_ok.mp h
  obtain ⟨_, hhour, h⟩ := bind_eq_ok.mp h
  obtain ⟨_, hminute, h⟩ := bind_eq_ok.mp h
  obtain ⟨_, hsecond, -⟩ := bind_eq_ok.mp h
  simp only [refuseIf, throwIf_eq_ok, Bool.not_eq_false', isImfFrame, Bool.and_eq_true,
    beq_iff_eq] at hframe
  simp only [refuseIf, throwIf_eq_ok, Bool.or_eq_false_iff, decide_eq_false_iff_not, not_lt,
    beq_eq_false_iff_ne] at hnamed
  obtain ⟨⟨⟨⟨⟨⟨⟨⟨⟨hlength, hcomma⟩, h4⟩, h7⟩, h11⟩, h16⟩, h19⟩, h22⟩, h25⟩, hzone⟩ := hframe
  obtain ⟨weekday, hweekday, hfield⟩ := exists_of_weekdayIndex hnamed.1
  obtain ⟨month, hmonth, hfield₈⟩ := exists_of_monthIndex hnamed.2
  obtain ⟨day, hday, hfield₅⟩ := exists_of_tryParseTwoDigits hday
  obtain ⟨year, hyear, hfield₁₂⟩ := exists_of_tryParseFourDigits hyear
  obtain ⟨hour, hhour, hfield₁₇⟩ := exists_of_tryParseTwoDigits hhour
  obtain ⟨minute, hminute, hfield₂₀⟩ := exists_of_tryParseTwoDigits hminute
  obtain ⟨second, hsecond, hfield₂₃⟩ := exists_of_tryParseTwoDigits hsecond
  refine ⟨⟨weekday, year, month, day, hour, minute, second⟩,
    ⟨hweekday, hmonth, hday, hyear, hhour, hminute, hsecond⟩, ?_⟩
  -- The text is put together from the fields and the bytes between them, place by place.
  show text.drop 0 = FullDate.imfText _
  unfold FullDate.imfText
  refine drop_eq_append hfield (drop_eq_cons (by omega) hcomma (drop_eq_cons (by omega) h4 ?_))
  refine drop_eq_append hfield₅ (drop_eq_cons (by omega) h7 ?_)
  refine drop_eq_append hfield₈ (drop_eq_cons (by omega) h11 ?_)
  refine drop_eq_append hfield₁₂ (drop_eq_cons (by omega) h16 ?_)
  refine drop_eq_append hfield₁₇ (drop_eq_cons (by omega) h19 ?_)
  refine drop_eq_append hfield₂₀ (drop_eq_cons (by omega) h22 ?_)
  refine drop_eq_append hfield₂₃ (drop_eq_cons (by omega) h25 ?_)
  exact drop_eq_field (by omega) hzone

/-- The text of a date is read as its instant when the date exists, and refused otherwise. -/
theorem tryParseImfFixdate_text (hvalid : date.Valid) :
    tryParseImfFixdate date.imfText =
      if date.Exists then .ok date.milliseconds else .error .refused := by
  obtain ⟨p, q, r, hweekday⟩ := weekday_bytes hvalid.weekday
  obtain ⟨a, b, c, hmonth⟩ := named_month hvalid.month
  have htext : date.imfText =
      p :: q :: r :: byte ',' :: byte ' ' :: digit (date.day / 10) :: digit date.day :: byte ' ' ::
      a :: b :: c :: byte ' ' :: digit (date.year / 10 / 10 / 10) :: digit (date.year / 10 / 10) ::
      digit (date.year / 10) :: digit date.year :: byte ' ' :: digit (date.hour / 10) ::
      digit date.hour :: byte ':' :: digit (date.minute / 10) :: digit date.minute :: byte ':' ::
      digit (date.second / 10) :: digit date.second :: ascii " GMT" := by
    rw [FullDate.imfText, hweekday, hmonth]
    rfl
  have hlength : date.imfText.length = 29 := by
    rw [htext]
    rfl
  have htwo {index n : Nat} (h : field date.imfText index 2 = fixedDigits 2 n)
      (hplace : index + 2 ≤ 29) (hn : n < 100) :
      tryParseTwoDigits date.imfText index = .ok (n : Int) :=
    tryParseTwoDigits_of_field h (by omega) hn
  have hframe : isImfFrame date.imfText = true := by
    simp only [isImfFrame, htext]
    simp [byteAt, field]
    decide
  have hnamed :
      (decide (weekdayIndex date.imfText < 0) || monthIndex date.imfText 8 == 0) = false := by
    rw [weekdayIndex_of_field hvalid.weekday (by rw [htext, hweekday]; rfl),
      monthIndex_of_field hvalid.month (by rw [htext, hmonth]; rfl)]
    have hlow := hvalid.month.1
    simp only [Bool.or_eq_false_iff, decide_eq_false_iff_not, beq_eq_false_iff_ne]
    omega
  rw [tryParseImfFixdate, hframe, Bool.not_true, refuseIf_false, ok_bind]
  dsimp only
  rw [hnamed, refuseIf_false, ok_bind, htwo (by rw [htext]; rfl) (by decide) hvalid.day, ok_bind,
    tryParseFourDigits_of_field (by rw [htext]; rfl) (by omega) hvalid.year, ok_bind,
    htwo (by rw [htext]; rfl) (by decide) hvalid.hour, ok_bind,
    htwo (by rw [htext]; rfl) (by decide) hvalid.minute, ok_bind,
    htwo (by rw [htext]; rfl) (by decide) hvalid.second, ok_bind,
    weekdayIndex_of_field hvalid.weekday (by rw [htext, hweekday]; rfl),
    monthIndex_of_field hvalid.month (by rw [htext, hmonth]; rfl)]
  -- the parser looks at the day once more before the date is built
  cases hguard : ((date.year : Int) == 0 || (date.day : Int) == 0 ||
    decide ((date.day : Int) > daysInMonth date.year date.month)) with
  | false =>
    rw [refuseIf_false, ok_bind]
    exact hvalid.built
  | true =>
    rw [if_neg]
    · rfl
    · intro hexists
      obtain ⟨hfirst, -, ⟨hlow, hhigh, hday, hlast⟩, -⟩ := hexists
      dsimp only at hlow hhigh hday hlast
      rw [daysInMonth, Timestamptz.daysInMonth_eq ⟨hlow, hhigh⟩] at hguard
      simp only [Bool.or_eq_true, beq_iff_eq, decide_eq_true_eq] at hguard
      omega

-- ---------------------------------------------------------------------------
-- The third form
-- ---------------------------------------------------------------------------

/-- The day of the month stands with a space or a zero in front. -/
theorem exists_of_asctimeDay {parsed : Int} (h : asctimeDay text = .ok parsed)
    (hlong : 10 ≤ text.length) :
    ∃ day blank, day < 100 ∧ (blank = true → day < 10) ∧ field text 8 2 = blankDay day blank := by
  unfold asctimeDay at h
  split at h
  · rename_i hblank
    simp only [Bool.and_eq_true, beq_iff_eq] at hblank
    have hrange := digit_range hblank.2
    refine ⟨(byteAt text 9).toNat - 48, true, by omega, fun _ => by omega, ?_⟩
    have hdigit : digit ((byteAt text 9).toNat - 48) = byteAt text 9 := by
      rw [← UInt8.toNat_inj, toNat_digit]
      omega
    rw [field_succ (by omega), field_succ (by omega), hblank.1]
    show [byte ' ', byteAt text 9] = [byte ' ', digit ((byteAt text 9).toNat - 48)]
    rw [hdigit]
  · obtain ⟨day, hday, hfield⟩ := exists_of_tryParseTwoDigits h
    exact ⟨day, false, hday, fun heq => absurd heq Bool.false_ne_true, hfield⟩

/-- Both ways of writing the day are read. -/
theorem asctimeDay_of_field {day : Nat} {blank : Bool} (h : field text 8 2 = blankDay day blank)
    (hlong : 10 ≤ text.length) (hday : day < 100) (hblank : blank = true → day < 10) :
    asctimeDay text = .ok (day : Int) := by
  have hpair : [byteAt text 8, byteAt text 9] = blankDay day blank := by
    rw [← h, field_succ (by omega), field_succ (by omega)]
    rfl
  unfold asctimeDay
  cases blank with
  | true =>
    obtain ⟨hfirst, hsecond⟩ := List.cons.inj hpair
    obtain ⟨hsecond, -⟩ := List.cons.inj hsecond
    have hten := hblank rfl
    rw [hfirst, hsecond, isDigit_digit, if_pos (by decide), toNat_digit, int32s_ok (by
      simp only [List.mem_cons, List.not_mem_nil, or_false, forall_eq]
      omega)]
    simp only [List.getLastD_cons, List.getLastD_nil]
    congr 1
    omega
  | false =>
    obtain ⟨hfirst, -⟩ := List.cons.inj hpair
    have hdigit : (byteAt text 8 == byte ' ') = false := by
      have hne := toNat_digit (day / 10)
      rw [hfirst, beq_eq_false_iff_ne, ne_eq, ← UInt8.toNat_inj, hne]
      show ¬48 + day / 10 % 10 = 32
      omega
    rw [hdigit, Bool.false_and, if_neg Bool.false_ne_true]
    exact tryParseTwoDigits_of_field h (by omega) hday

/-- What is read in the form of the C library is the text of a date. -/
theorem exists_of_tryParseAsctimeDate {t : Int} (h : tryParseAsctimeDate text = .ok t) :
    ∃ (date : FullDate) (blank : Bool),
      date.Valid ∧ (blank = true → date.day < 10) ∧ text = date.asctimeText blank := by
  unfold tryParseAsctimeDate at h
  obtain ⟨_, hframe, h⟩ := bind_eq_ok.mp h
  obtain ⟨_, hday, h⟩ := bind_eq_ok.mp h
  obtain ⟨_, hnamed, h⟩ := bind_eq_ok.mp h
  obtain ⟨_, hhour, h⟩ := bind_eq_ok.mp h
  obtain ⟨_, hminute, h⟩ := bind_eq_ok.mp h
  obtain ⟨_, hsecond, h⟩ := bind_eq_ok.mp h
  obtain ⟨_, hyear, h⟩ := bind_eq_ok.mp h
  -- only building the date refuses a weekday without a name
  unfold tryBuildHttpTimestamp at h
  obtain ⟨_, hbuilt, -⟩ := bind_eq_ok.mp h
  simp only [refuseIf, throwIf_eq_ok, Bool.or_eq_false_iff, decide_eq_false_iff_not, not_lt]
    at hbuilt
  simp only [refuseIf, throwIf_eq_ok, Bool.not_eq_false', isAsctimeFrame, Bool.and_eq_true,
    beq_iff_eq] at hframe
  simp only [refuseIf, throwIf_eq_ok, beq_eq_false_iff_ne] at hnamed
  obtain ⟨⟨⟨⟨⟨⟨hlength, h3⟩, h7⟩, h10⟩, h13⟩, h16⟩, h19⟩ := hframe
  obtain ⟨weekday, hweekday, hfield⟩ :=
    exists_of_weekdayIndex hbuilt.1.1.1.1.1.1.1.1
  obtain ⟨month, hmonth, hfield₄⟩ := exists_of_monthIndex hnamed
  obtain ⟨day, blank, hday, hblank, hfield₈⟩ := exists_of_asctimeDay hday (by omega)
  obtain ⟨hour, hhour, hfield₁₁⟩ := exists_of_tryParseTwoDigits hhour
  obtain ⟨minute, hminute, hfield₁₄⟩ := exists_of_tryParseTwoDigits hminute
  obtain ⟨second, hsecond, hfield₁₇⟩ := exists_of_tryParseTwoDigits hsecond
  obtain ⟨year, hyear, hfield₂₀⟩ := exists_of_tryParseFourDigits hyear
  refine ⟨⟨weekday, year, month, day, hour, minute, second⟩, blank,
    ⟨hweekday, hmonth, hday, hyear, hhour, hminute, hsecond⟩, hblank, ?_⟩
  show text.drop 0 = FullDate.asctimeText _ _
  unfold FullDate.asctimeText
  refine drop_eq_append hfield (drop_eq_cons (by omega) h3 ?_)
  refine drop_eq_append hfield₄ (drop_eq_cons (by omega) h7 ?_)
  refine drop_eq_append hfield₈ (drop_eq_cons (by omega) h10 ?_)
  refine drop_eq_append hfield₁₁ (drop_eq_cons (by omega) h13 ?_)
  refine drop_eq_append hfield₁₄ (drop_eq_cons (by omega) h16 ?_)
  refine drop_eq_append hfield₁₇ (drop_eq_cons (by omega) h19 ?_)
  exact drop_eq_field (by omega) hfield₂₀

/-- The text of a date is read as its instant when the date exists, and refused otherwise. -/
theorem tryParseAsctimeDate_text {blank : Bool} (hvalid : date.Valid)
    (hblank : blank = true → date.day < 10) :
    tryParseAsctimeDate (date.asctimeText blank) =
      if date.Exists then .ok date.milliseconds else .error .refused := by
  obtain ⟨p, q, r, hweekday⟩ := weekday_bytes hvalid.weekday
  obtain ⟨a, b, c, hmonth⟩ := named_month hvalid.month
  obtain ⟨u, v, hday⟩ : ∃ u v, blankDay date.day blank = [u, v] := by
    cases blank <;> exact ⟨_, _, rfl⟩
  have htext : date.asctimeText blank =
      p :: q :: r :: byte ' ' :: a :: b :: c :: byte ' ' :: u :: v :: byte ' ' ::
      digit (date.hour / 10) :: digit date.hour :: byte ':' :: digit (date.minute / 10) ::
      digit date.minute :: byte ':' :: digit (date.second / 10) :: digit date.second :: byte ' ' ::
      fixedDigits 4 date.year := by
    rw [FullDate.asctimeText, hweekday, hmonth, hday]
    rfl
  have hlength : (date.asctimeText blank).length = 24 := by
    rw [htext]
    rfl
  have htwo {index n : Nat} (h : field (date.asctimeText blank) index 2 = fixedDigits 2 n)
      (hplace : index + 2 ≤ 24) (hn : n < 100) :
      tryParseTwoDigits (date.asctimeText blank) index = .ok (n : Int) :=
    tryParseTwoDigits_of_field h (by omega) hn
  have hframe : isAsctimeFrame (date.asctimeText blank) = true := by
    rw [isAsctimeFrame, hlength, htext]
    simp [byteAt]
  have hnamed : (monthIndex (date.asctimeText blank) 4 == 0) = false := by
    rw [monthIndex_of_field hvalid.month (by rw [htext, hmonth]; rfl)]
    have hlow := hvalid.month.1
    simp only [beq_eq_false_iff_ne]
    omega
  rw [tryParseAsctimeDate, hframe, Bool.not_true, refuseIf_false, ok_bind]
  dsimp only
  rw [asctimeDay_of_field (by rw [htext, hday]; rfl) (by omega) hvalid.day hblank, ok_bind, hnamed,
    refuseIf_false, ok_bind, htwo (by rw [htext]; rfl) (by decide) hvalid.hour, ok_bind,
    htwo (by rw [htext]; rfl) (by decide) hvalid.minute, ok_bind,
    htwo (by rw [htext]; rfl) (by decide) hvalid.second, ok_bind,
    tryParseFourDigits_of_field (by rw [htext]; rfl) (by omega) hvalid.year, ok_bind,
    weekdayIndex_of_field hvalid.weekday (by rw [htext, hweekday]; rfl),
    monthIndex_of_field hvalid.month (by rw [htext, hmonth]; rfl)]
  exact hvalid.built

-- ---------------------------------------------------------------------------
-- The second form
-- ---------------------------------------------------------------------------

/-- A long weekday is found where its name stands. -/
theorem exists_of_longWeekdayIndex {index length : Nat}
    (h : longWeekdayIndex text = some (index, length)) :
    index < 7 ∧ length < text.length ∧ field text 0 length = longWeekdays.getD index [] ∧
      byteAt text length = byte ',' ∧ length = (longWeekdays.getD index []).length := by
  unfold longWeekdayIndex at h
  obtain ⟨found, hfound, hpair⟩ := Option.map_eq_some_iff.mp h
  obtain ⟨rfl, rfl⟩ := Prod.mk.inj hpair
  obtain ⟨hlt, hname, -⟩ := List.findIdx?_eq_some_iff_getElem.mp hfound
  rw [← List.getD_eq_getElem _ [] hlt] at hname
  simp only [Bool.and_eq_true, decide_eq_true_eq, beq_iff_eq] at hname
  exact ⟨hlt, hname.1.1, hname.1.2, hname.2, rfl⟩

/-- The long name of a weekday has at least six letters. -/
theorem longWeekday_length {weekday : Nat} (h : weekday < 7) :
    6 ≤ (longWeekdays.getD weekday []).length := by
  interval_cases weekday <;> decide

/-- What is read in the two-digit form is the text of a date without its century. -/
theorem exists_of_tryParseRfc850Date {wall t : Int} (h : tryParseRfc850Date text wall = .ok t) :
    ∃ date : Rfc850Date, date.Valid ∧ text = date.text := by
  unfold tryParseRfc850Date at h
  obtain ⟨⟨weekday, length⟩, hfound, h⟩ := bind_eq_ok.mp h
  dsimp only at h
  obtain ⟨_, hframe, h⟩ := bind_eq_ok.mp h
  obtain ⟨_, hnamed, h⟩ := bind_eq_ok.mp h
  obtain ⟨_, hday, h⟩ := bind_eq_ok.mp h
  obtain ⟨_, hshort, h⟩ := bind_eq_ok.mp h
  obtain ⟨_, hhour, h⟩ := bind_eq_ok.mp h
  obtain ⟨_, hminute, h⟩ := bind_eq_ok.mp h
  obtain ⟨_, hsecond, -⟩ := bind_eq_ok.mp h
  have hindex : longWeekdayIndex text = some (weekday, length) := by
    cases hlong : longWeekdayIndex text with
    | none =>
      rw [hlong] at hfound
      cases hfound
    | some pair =>
      rw [hlong] at hfound
      exact congrArg some (Except.ok.inj hfound)
  obtain ⟨hweekday, hroom, hfield, hcomma, hname⟩ := exists_of_longWeekdayIndex hindex
  simp only [refuseIf, throwIf_eq_ok, Bool.not_eq_false', isRfc850Frame, Bool.and_eq_true,
    beq_iff_eq] at hframe
  simp only [refuseIf, throwIf_eq_ok, beq_eq_false_iff_ne] at hnamed
  obtain ⟨⟨⟨⟨⟨⟨⟨⟨hlength, h1⟩, h4⟩, h8⟩, h11⟩, h14⟩, h17⟩, h20⟩, hzone⟩ := hframe
  obtain ⟨month, hmonth, hfield₅⟩ := exists_of_monthIndex hnamed
  obtain ⟨day, hday, hfield₂⟩ := exists_of_tryParseTwoDigits hday
  obtain ⟨shortYear, hshort, hfield₉⟩ := exists_of_tryParseTwoDigits hshort
  obtain ⟨hour, hhour, hfield₁₂⟩ := exists_of_tryParseTwoDigits hhour
  obtain ⟨minute, hminute, hfield₁₅⟩ := exists_of_tryParseTwoDigits hminute
  obtain ⟨second, hsecond, hfield₁₈⟩ := exists_of_tryParseTwoDigits hsecond
  refine ⟨⟨weekday, day, month, shortYear, hour, minute, second⟩,
    ⟨hweekday, hmonth, hday, hshort, hhour, hminute, hsecond⟩, ?_⟩
  unfold Rfc850Date.text Rfc850Date.tail
  rw [← List.take_append_drop length text]
  refine congr_arg₂ (· ++ ·) hfield (drop_eq_cons (by omega) hcomma (drop_eq_cons (by omega) h1 ?_))
  refine drop_eq_append hfield₂ (drop_eq_cons (by omega) h4 ?_)
  refine drop_eq_append hfield₅ (drop_eq_cons (by omega) h8 ?_)
  refine drop_eq_append hfield₉ (drop_eq_cons (by omega) h11 ?_)
  refine drop_eq_append hfield₁₂ (drop_eq_cons (by omega) h14 ?_)
  refine drop_eq_append hfield₁₅ (drop_eq_cons (by omega) h17 ?_)
  refine drop_eq_append hfield₁₈ (drop_eq_cons (by omega) h20 ?_)
  exact drop_eq_field (by omega) hzone

/-- The year a date is read in: the one that resolves, or fifty years before the receipt
where it slips. -/
def Rfc850Date.ReadIn (date : Rfc850Date) (receipt : CivilTime) (year : Int) : Prop :=
  (¬HalfCenturySlip date receipt ∧ date.Resolves receipt year) ∨
    (HalfCenturySlip date receipt ∧ year = receipt.year - 50)

/-- At exactly fifty years the code keeps the year that the form leaves behind. -/
theorem resolveYear_slip {date : Rfc850Date} {receipt : CivilTime}
    (h : HalfCenturySlip date receipt) (hreceipt : 1 ≤ receipt.year ∧ receipt.year ≤ 9999) :
    resolveYear receipt date.shortYear (date.later receipt) = .ok (receipt.year - 50) := by
  obtain ⟨hdigits, hlater⟩ := h
  have hcentury := Int.tdiv_eq_ediv_of_nonneg (b := 100) (by omega : 0 ≤ receipt.year)
  have hfirst : receipt.year / 100 * 100 + (date.shortYear : Int) = receipt.year - 50 := by omega
  rw [resolveYear, hcentury, hfirst, int64s_ok (by
    simp only [List.mem_cons, List.not_mem_nil, or_false, forall_eq_or_imp, forall_eq]
    omega), ok_bind]
  simp only [List.getLastD_cons, List.getLastD_nil]
  rw [int64_ok (by omega), ok_bind, if_neg (by omega), int64_ok (by omega), ok_bind,
    int64_ok (by omega), ok_bind, if_neg (by simp; omega), int64_ok (by omega)]

/-- The year that the code resolves, in the calendar's terms. -/
theorem resolveYear_eq_ok {date : Rfc850Date} {receipt : CivilTime} {year : Int}
    (hvalid : date.Valid) (hreceipt : 1 ≤ receipt.year ∧ receipt.year ≤ 9999) :
    resolveYear receipt date.shortYear (date.later receipt) = .ok year ↔
      date.ReadIn receipt year := by
  unfold Rfc850Date.ReadIn
  by_cases hslip : HalfCenturySlip date receipt
  · rw [resolveYear_slip hslip hreceipt, Except.ok.injEq]
    simp [hslip, eq_comm]
  · obtain ⟨resolved, hresolved, -, -, hiff⟩ := resolveYear_eq hvalid hreceipt
    have hreads := hiff.mpr hslip
    rw [hresolved, Except.ok.injEq]
    simp only [hslip, not_false_eq_true, true_and, false_and, or_false]
    constructor
    · rintro rfl
      exact hreads
    · intro hother
      exact resolves_unique hother hreads

/-- The two-digit form is read in the century that the receipt gives it. -/
theorem tryParseRfc850Date_eq_ok {wall t : Int}
    (hwall : -9223372036854775808 ≤ wall ∧ wall ≤ 9223372036854775807) :
    tryParseRfc850Date text wall = .ok t ↔
      ∃ (date : Rfc850Date) (year : Int), date.Valid ∧ text = date.text ∧
        (1 ≤ (CivilTime.ofMilliseconds wall).year ∧ (CivilTime.ofMilliseconds wall).year ≤ 9999) ∧
        date.ReadIn (.ofMilliseconds wall) year ∧ (1 ≤ year ∧ year ≤ 9999) ∧
        date.NamesInstantOf year ∧ t = date.milliseconds year := by
  have hread {date : Rfc850Date} (hvalid : date.Valid) :
      tryParseRfc850Date date.text wall = .ok t ↔
        ∃ year : Int,
          (1 ≤ (CivilTime.ofMilliseconds wall).year ∧
            (CivilTime.ofMilliseconds wall).year ≤ 9999) ∧
          date.ReadIn (.ofMilliseconds wall) year ∧ (1 ≤ year ∧ year ≤ 9999) ∧
          date.NamesInstantOf year ∧ t = date.milliseconds year := by
    rw [tryParseRfc850Date_text hvalid, tryCivilTimeFromMilliseconds_eq hwall]
    by_cases hreceipt : 1 ≤ (CivilTime.ofMilliseconds wall).year ∧
        (CivilTime.ofMilliseconds wall).year ≤ 9999
    · rw [if_pos hreceipt, ok_bind]
      simp only [bind_eq_ok, resolveYear_eq_ok hvalid hreceipt, refuseIf, throwIf_eq_ok,
        Bool.or_eq_false_iff, decide_eq_false_iff_not, not_lt, exists_const, hreceipt, true_and,
        and_self]
      refine exists_congr fun year => and_congr_right fun _ => ?_
      refine and_congr_right fun hinside => ?_
      have hbuilt := @tryBuildHttpTimestamp_eq date.weekday (date.inYear year)
        ⟨by simp only [Rfc850Date.inYear]; omega, hinside.2⟩ date.hour date.minute date.second
      refine (Iff.of_eq (congrArg (· = _) hbuilt)).trans ?_
      split
      · rename_i hnames
        rw [Except.ok.injEq]
        exact ⟨fun heq => ⟨hnames.2, heq.symm⟩, fun heq => heq.2.symm⟩
      · rename_i hnames
        constructor
        · intro heq
          cases heq
        · intro heq
          exact absurd ⟨hinside.1, heq.1⟩ hnames
    · rw [if_neg hreceipt]
      constructor
      · intro heq
        cases heq
      · rintro ⟨_, hinside, -⟩
        exact absurd hinside hreceipt
  constructor
  · intro h
    obtain ⟨date, hvalid, rfl⟩ := exists_of_tryParseRfc850Date h
    obtain ⟨year, hyear⟩ := (hread hvalid).mp h
    exact ⟨date, year, hvalid, rfl, hyear⟩
  · rintro ⟨date, year, hvalid, rfl, hyear⟩
    exact (hread hvalid).mpr ⟨year, hyear⟩

-- ---------------------------------------------------------------------------
-- All three
-- ---------------------------------------------------------------------------

/-- The text names the instant, where the response was received at `wall`. -/
inductive Denotes (wall : Int) : Bytes → Int → Prop
  | imfFixdate {date : FullDate} (hexists : date.Exists) :
      Denotes wall date.imfText date.milliseconds
  | rfc850 {date : Rfc850Date} {year : Int} (hvalid : date.Valid)
      (hreceipt : 1 ≤ (CivilTime.ofMilliseconds wall).year ∧
        (CivilTime.ofMilliseconds wall).year ≤ 9999)
      (hread : date.ReadIn (.ofMilliseconds wall) year) (hyear : 1 ≤ year ∧ year ≤ 9999)
      (hnames : date.NamesInstantOf year) : Denotes wall date.text (date.milliseconds year)
  | asctime {date : FullDate} {blank : Bool} (hblank : blank = true → date.day < 10)
      (hexists : date.Exists) : Denotes wall (date.asctimeText blank) date.milliseconds

/-- The preferred form has one length. -/
theorem refused_of_imfLength (h : text.length ≠ 29) :
    tryParseImfFixdate text = .error .refused := by
  have hframe : isImfFrame text = false := by
    simp [isImfFrame, h]
  rw [tryParseImfFixdate, hframe]
  rfl

/-- The form of the C library has one length. -/
theorem refused_of_asctimeLength (h : text.length ≠ 24) :
    tryParseAsctimeDate text = .error .refused := by
  have hframe : isAsctimeFrame text = false := by
    simp [isAsctimeFrame, h]
  rw [tryParseAsctimeDate, hframe]
  rfl

/-- The two-digit form is longer than the other two. -/
theorem refused_of_rfc850Length (h : text.length < 30) (wall : Int) :
    tryParseRfc850Date text wall = .error .refused := by
  unfold tryParseRfc850Date
  cases hindex : longWeekdayIndex text with
  | none => rfl
  | some pair =>
    obtain ⟨weekday, length⟩ := pair
    obtain ⟨hweekday, -, -, -, hlength⟩ := exists_of_longWeekdayIndex hindex
    have hsix := longWeekday_length hweekday
    have hframe : isRfc850Frame text length = false := by
      have hne : text.length ≠ length + 24 := by omega
      simp [isRfc850Frame, hne]
    rw [ofOption, ok_bind]
    dsimp only
    rw [hframe]
    rfl

/-- At most one of the three forms has the length of a text. -/
theorem tryParseHttpDate_cases (wall t : Int) :
    tryParseHttpDate text wall = .ok t ↔
      tryParseImfFixdate text = .ok t ∨ tryParseRfc850Date text wall = .ok t ∨
        tryParseAsctimeDate text = .ok t := by
  unfold tryParseHttpDate
  by_cases himf : text.length = 29
  · rw [refused_of_asctimeLength (by omega), refused_of_rfc850Length (by omega)]
    cases himf : tryParseImfFixdate text with
    | ok parsed => simp [orElse]
    | error stop => cases stop <;> simp [orElse]
  · rw [refused_of_imfLength himf]
    by_cases hasctime : text.length = 24
    · rw [refused_of_rfc850Length (by omega)]
      simp [orElse]
    · rw [refused_of_asctimeLength hasctime]
      cases hrfc : tryParseRfc850Date text wall with
      | ok parsed => simp [orElse]
      | error stop => cases stop <;> simp [orElse]

/-- A text is read as the instant that it denotes, and as none if it denotes none. -/
theorem tryParseHttpDate_eq_ok {wall t : Int}
    (hwall : -9223372036854775808 ≤ wall ∧ wall ≤ 9223372036854775807) :
    tryParseHttpDate text wall = .ok t ↔ Denotes wall text t := by
  rw [tryParseHttpDate_cases]
  constructor
  · rintro (h | h | h)
    · obtain ⟨date, hvalid, rfl⟩ := exists_of_tryParseImfFixdate h
      rw [tryParseImfFixdate_text hvalid] at h
      split at h
      · rename_i hexists
        obtain rfl := Except.ok.inj h
        exact .imfFixdate hexists
      · cases h
    · obtain ⟨date, year, hvalid, rfl, hreceipt, hread, hyear, hnames, rfl⟩ :=
        (tryParseRfc850Date_eq_ok hwall).mp h
      exact .rfc850 hvalid hreceipt hread hyear hnames
    · obtain ⟨date, blank, hvalid, hblank, rfl⟩ := exists_of_tryParseAsctimeDate h
      rw [tryParseAsctimeDate_text hvalid hblank] at h
      split at h
      · rename_i hexists
        obtain rfl := Except.ok.inj h
        exact .asctime hblank hexists
      · cases h
  · intro h
    cases h with
    | imfFixdate hexists =>
      left
      rw [tryParseImfFixdate_text hexists.valid, if_pos hexists]
    | rfc850 hvalid hreceipt hread hyear hnames =>
      right; left
      exact (tryParseRfc850Date_eq_ok hwall).mpr
        ⟨_, _, hvalid, rfl, hreceipt, hread, hyear, hnames, rfl⟩
    | asctime hblank hexists =>
      right; right
      rw [tryParseAsctimeDate_text hexists.valid hblank, if_pos hexists]

end Cuac.Runtime.Resilience

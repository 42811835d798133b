import Cuac.Connector.TimestamptzSpelling
import Cuac.Semantics.PlannedOperation
import Cuac.Runtime.RestMaterialization

/-!
# Runtime — the codec of timestamps

Connector's and Runtime's parser are one function. It accepts the texts of the
spellings whose instant is in the years 1 to 9999, and the three renderers write
the one spelling with six digits and `Z`.

A text passes in two stages. `Framed` texts have digits and separators in their
first nineteen bytes and are cut into numbers there; what follows is read by the
lemmas about the fraction and the zone. No operation on the way leaves its type.

Main results:

* `parse_text` and `parse_cases` — every spelling is read as the instant it
  denotes, and everything else is refused.
* `breakDown_eq` — the renderers' arithmetic stays inside.
* `timestamptz_codec` — the renderings agree, and both parsers give the value back.
-/

namespace Cuac.Runtime.Timestamptz

open Cuac.Lib
open Cuac.Lib.Watched
open Cuac.Connector

/-- The two parsers take the same steps on every text. -/
theorem parse_eq_parseTimestamptz (text : Bytes) : parse text = parseTimestamptz text := by
  unfold parse parseTimestamptz daysFromCivil
  simp only [bind_assoc]
  rfl

/-- The count of days stays inside and is the calendar's. -/
theorem daysFromCivil_eq {date : Date} (hyear : 1 ≤ date.year ∧ date.year ≤ 9999)
    (hdate : IsDate date) :
    daysFromCivil date.year date.month date.day =
      .ok (gregorianDay date.year date.month date.day) := by
  obtain ⟨hmonth, hmonth', hday, hday'⟩ := hdate
  have hlength : monthLength date.year date.month ≤ 31 := monthLength_le _ _
  rw [← daysFromCivil_eq_gregorianDay ⟨hmonth, hmonth'⟩ hday]
  obtain ⟨year, month, day⟩ := date
  simp only at *
  unfold daysFromCivil Lib.daysFromCivil
  generalize hadjusted : year - (if (month : Int) ≤ 2 then 1 else 0) = adjusted
  generalize hshift : (if (month : Int) > 2 then (month : Int) - 3 else month + 9) = shift
  have hyearOf : (if month ≤ 2 then year - 1 else year) = adjusted := by
    rw [← hadjusted]; split <;> split <;> omega
  have hshiftOf : ((if 2 < month then month - 3 else month + 9 : Nat) : Int) = shift := by
    rw [← hshift]; split <;> split <;> omega
  have hrange : 0 ≤ adjusted ∧ adjusted ≤ 9999 := by
    rw [← hadjusted]; split <;> omega
  have hmonths : 0 ≤ shift ∧ shift ≤ 11 := by
    rw [← hshift]; split <;> omega
  have hera : (if adjusted ≥ 0 then adjusted else adjusted - 399).tdiv 400 = adjusted / 400 := by
    rw [if_pos hrange.1, Int.tdiv_eq_ediv_of_nonneg hrange.1]
  simp only [hyearOf, era_eq _ (show (0 : Int) < 400 by decide)]
  generalize hs : (if 2 < month then month - 3 else month + 9 : Nat) = s at *
  rw [int64_ok (by omega), ok_bind, int64s_ok (by
    simp only [List.mem_cons, List.not_mem_nil, or_false, forall_eq_or_imp, forall_eq, hera]
    rw [if_pos hrange.1]
    omega), ok_bind]
  simp only [List.getLastD_cons, List.getLastD_nil, hera]
  rw [int64s_ok (by
    simp only [List.mem_cons, List.not_mem_nil, or_false, forall_eq_or_imp, forall_eq]
    omega), ok_bind]
  simp only [List.getLastD_cons, List.getLastD_nil]
  generalize hyoe : adjusted - adjusted / 400 * 400 = yearOf
  have hyears : 0 ≤ yearOf ∧ yearOf < 400 := by omega
  rw [uint32_ok (by omega), ok_bind, uint32_ok (by omega), ok_bind, uint32s_ok (by
    simp only [List.mem_cons, List.not_mem_nil, or_false, forall_eq_or_imp, forall_eq]
    omega), ok_bind]
  simp only [List.getLastD_cons, List.getLastD_nil]
  rw [uint32s_ok (by
    simp only [List.mem_cons, List.not_mem_nil, or_false, forall_eq_or_imp, forall_eq]
    omega), ok_bind]
  simp only [List.getLastD_cons, List.getLastD_nil]
  rw [int64s_ok (by
    simp only [List.mem_cons, List.not_mem_nil, or_false, forall_eq_or_imp, forall_eq]
    omega)]
  simp only [List.getLastD_cons, List.getLastD_nil, yearStart]
  congr 1
  omega

-- ---------------------------------------------------------------------------
-- The frame: the first nineteen bytes
-- ---------------------------------------------------------------------------

/-- The text has the length and the fixed positions of a timestamp. -/
structure Framed (text : Bytes) : Prop where
  long : 20 ≤ text.length
  short : text.length ≤ 32
  digits : hasDigits text = true
  separators : hasSeparators text = true

/-- The guard on a date and a time. -/
def clockRefused (year month day hour minute second : Int) : Bool :=
  year == 0 || month == 0 || decide (month > 12) || day == 0 ||
    decide (day > daysInMonth year month) || decide (hour > 23) || decide (minute > 59) ||
    decide (second > 59)

/-- The table of the source has the lengths of the Gregorian months. -/
theorem daysInMonth_eq {year : Int} {month : Nat} (h : 1 ≤ month ∧ month ≤ 12) :
    daysInMonth year month = monthLength year month := by
  obtain ⟨hlow, hhigh⟩ := h
  interval_cases month <;> first | rfl | skip
  show (if leapYear year then (29 : Int) else 28) = (if isLeapYear year then 29 else 28 : Nat)
  have hleap : leapYear year = isLeapYear year := rfl
  rw [hleap]
  split <;> rfl

/-- The fields that are not refused are a date from year one on and a time of day. -/
theorem clockRefused_eq_false {year month day hour minute second : Nat} :
    clockRefused year month day hour minute second = false ↔
      1 ≤ year ∧ IsDate ⟨year, month, day⟩ ∧ hour < 24 ∧ minute < 60 ∧ second < 60 := by
  unfold clockRefused IsDate
  by_cases hmonth : 1 ≤ month ∧ month ≤ 12
  · rw [daysInMonth_eq hmonth]
    simp only [Bool.or_eq_false_iff, decide_eq_false_iff_not, beq_eq_false_iff_ne]
    omega
  · simp only [Bool.or_eq_false_iff, decide_eq_false_iff_not, beq_eq_false_iff_ne]
    omega

/-- In a framed text the six fields of date and time are digits. -/
theorem isDigit_frame {text : Bytes} (h : Framed text) :
    (∀ b ∈ field text 0 4, isDigit b = true) ∧ (∀ b ∈ field text 5 2, isDigit b = true) ∧
      (∀ b ∈ field text 8 2, isDigit b = true) ∧ (∀ b ∈ field text 11 2, isDigit b = true) ∧
      (∀ b ∈ field text 14 2, isDigit b = true) ∧ (∀ b ∈ field text 17 2, isDigit b = true) := by
  have hlong := h.long
  have hdigits := h.digits
  simp only [hasDigits, digitPositions, List.all_cons, List.all_nil, Bool.and_eq_true] at hdigits
  have hfield (start count : Nat) (hstart : start + count ≤ 19)
      (hall : ∀ index, start ≤ index → index < start + count → isDigit (byteAt text index) = true) :
      ∀ b ∈ field text start count, isDigit b = true := isDigit_field (by omega) hall
  refine ⟨hfield 0 4 (by omega) ?_, hfield 5 2 (by omega) ?_, hfield 8 2 (by omega) ?_,
    hfield 11 2 (by omega) ?_, hfield 14 2 (by omega) ?_, hfield 17 2 (by omega) ?_⟩ <;>
    (intro index hlow hhigh; interval_cases index <;> simp only [hdigits])

/-- The number of a field. -/
def number (text : Bytes) (start count : Nat) : Nat := value (field text start count)

/-- On a framed text the parser works on six numbers and on what follows the seconds. -/
theorem parse_of_framed {text : Bytes} (h : Framed text) :
    parse text = (do
      refuseIf (clockRefused (number text 0 4) (number text 5 2) (number text 8 2)
        (number text 11 2) (number text 14 2) (number text 17 2))
      let (cursor, fraction) ← parseFraction text
      let (cursor, offset) ← parseOffset text cursor
      refuseIf (cursor != text.length)
      let days ← daysFromCivil (number text 0 4) (number text 5 2) (number text 8 2)
      let daySeconds ← uint32s [(number text 11 2 : Int) * 3600, (number text 14 2 : Int) * 60,
        (number text 11 2 : Int) * 3600 + number text 14 2 * 60,
        (number text 11 2 : Int) * 3600 + number text 14 2 * 60 + number text 17 2]
      let localSeconds ← int64s [days * 86400, days * 86400 + daySeconds]
      let candidate ← int64s [localSeconds - offset, (localSeconds - offset) * 1000000,
        (localSeconds - offset) * 1000000 + fraction]
      refuseIf (!inRange candidate)
      pure candidate) := by
  obtain ⟨hyear, hmonth, hday, hhour, hminute, hsecond⟩ := isDigit_frame h
  have hlong := h.long
  have hshort := h.short
  have hlength : (decide (text.length < 20) || decide (text.length > 32)) = false := by
    simp only [Bool.or_eq_false_iff, decide_eq_false_iff_not]
    omega
  rw [parse, hlength, h.digits, h.separators]
  rw [refuseIf_false, ok_bind, Bool.not_true, refuseIf_false, ok_bind, ok_bind,
    Connector.parseDigits_eq (by omega) (by decide) hyear, ok_bind,
    Connector.parseDigits_eq (by omega) (by decide) hmonth, ok_bind,
    Connector.parseDigits_eq (by omega) (by decide) hday, ok_bind,
    Connector.parseDigits_eq (by omega) (by decide) hhour, ok_bind,
    Connector.parseDigits_eq (by omega) (by decide) hminute, ok_bind,
    Connector.parseDigits_eq (by omega) (by decide) hsecond, ok_bind]
  rfl

/-- Any other text is refused. -/
theorem parse_of_not_framed {text : Bytes} (h : ¬Framed text) : parse text = .error .refused := by
  by_cases hlength : (decide (text.length < 20) || decide (text.length > 32)) = true
  · rw [parse, hlength]
    rfl
  · by_cases hdigits : hasDigits text = true
    · by_cases hseparators : hasSeparators text = true
      · simp only [Bool.or_eq_true, decide_eq_true_eq] at hlength
        exact absurd ⟨by omega, by omega, hdigits, hseparators⟩ h
      · rw [parse, Bool.eq_false_of_not_eq_true hlength, hdigits,
          Bool.eq_false_of_not_eq_true hseparators]
        rfl
    · rw [parse, Bool.eq_false_of_not_eq_true hlength, Bool.eq_false_of_not_eq_true hdigits]
      rfl

/-- A framed text, cut into its numbers and the rest. -/
theorem text_of_framed {text : Bytes} (h : Framed text) :
    text = fixedDigits 4 (number text 0 4) ++ byte '-' :: (fixedDigits 2 (number text 5 2) ++
      byte '-' :: (fixedDigits 2 (number text 8 2) ++
      byte 'T' :: (fixedDigits 2 (number text 11 2) ++
        byte ':' :: (fixedDigits 2 (number text 14 2) ++ byte ':' ::
          (fixedDigits 2 (number text 17 2) ++ text.drop 19))))) := by
  obtain ⟨hyear, hmonth, hday, hhour, hminute, hsecond⟩ := isDigit_frame h
  have hlong := h.long
  have hseparators := h.separators
  simp only [hasSeparators, Bool.and_eq_true, beq_iff_eq] at hseparators
  obtain ⟨⟨⟨⟨hfirst, hsecondDash⟩, htime⟩, hcolon⟩, hcolon'⟩ := hseparators
  have hwidth (start count : Nat) (hstart : start + count ≤ 19)
      (hdigits : ∀ b ∈ field text start count, isDigit b = true) :
      fixedDigits count (number text start count) = field text start count := by
    have hback := fixedDigits_value hdigits
    rwa [length_field (by omega)] at hback
  rw [hwidth 0 4 (by omega) hyear, hwidth 5 2 (by omega) hmonth, hwidth 8 2 (by omega) hday,
    hwidth 11 2 (by omega) hhour, hwidth 14 2 (by omega) hminute, hwidth 17 2 (by omega) hsecond]
  have hstart : text.drop 0 = field text 0 4 ++ byteAt text 4 :: text.drop 5 :=
    drop_eq_field_append (by omega)
  have hdrop5 : text.drop 5 = field text 5 2 ++ byteAt text 7 :: text.drop 8 :=
    drop_eq_field_append (by omega)
  have hdrop8 : text.drop 8 = field text 8 2 ++ byteAt text 10 :: text.drop 11 :=
    drop_eq_field_append (by omega)
  have hdrop11 : text.drop 11 = field text 11 2 ++ byteAt text 13 :: text.drop 14 :=
    drop_eq_field_append (by omega)
  have hdrop14 : text.drop 14 = field text 14 2 ++ byteAt text 16 :: text.drop 17 :=
    drop_eq_field_append (by omega)
  have hdrop17 : text.drop 17 = field text 17 2 ++ text.drop 19 := by
    rw [field, show 19 = 17 + 2 from rfl, ← List.drop_drop, List.take_append_drop]
  rw [hfirst, List.drop_zero] at hstart
  rw [hsecondDash] at hdrop5
  rw [htime] at hdrop8
  rw [hcolon] at hdrop11
  rw [hcolon'] at hdrop14
  rw [← hdrop17, ← hdrop14, ← hdrop11, ← hdrop8, ← hdrop5, ← hstart]

-- ---------------------------------------------------------------------------
-- Every spelling is read, and nothing else
-- ---------------------------------------------------------------------------

/-- A zone takes one to six bytes. -/
theorem zone_length (zone : Zone) : 1 ≤ zone.text.length ∧ zone.text.length ≤ 6 := by
  cases zone <;> simp [Zone.text, fixedDigits_two]

/-- A fraction takes at most seven bytes, the point among them. -/
theorem fractionText_length {digits : Bytes} (h : digits.length ≤ 6) :
    (fractionText digits).length ≤ 7 := by
  unfold fractionText
  split
  · simp
  · rw [List.length_cons]
    omega

/-- A zone starts neither with a point nor with a digit, so the fraction ends in front of it. -/
theorem head_zone {zone : Zone} {b : UInt8} (h : b ∈ zone.text.head?) :
    b ≠ byte '.' ∧ isDigit b = false := by
  cases zone with
  | utc =>
    obtain rfl : byte 'Z' = b := by simpa [Zone.text] using h
    decide
  | offset negative hour minute =>
    obtain rfl : (if negative then byte '-' else byte '+') = b := by simpa [Zone.text] using h
    cases negative <;> decide

/-- Behind the seconds of a spelling come its fraction and its zone. -/
theorem drop_text (spelling : Spelling) :
    spelling.text.drop 19 = fractionText spelling.fraction ++ spelling.zone.text := rfl

/-- The date and time take nineteen bytes of a spelling. -/
theorem length_text (spelling : Spelling) :
    spelling.text.length = 19 + (fractionText spelling.fraction).length +
    spelling.zone.text.length := by
  simp only [Spelling.text, List.length_append, List.length_cons, length_fixedDigits]
  omega

/-- A valid spelling is framed. -/
theorem framed_text {spelling : Spelling} (h : spelling.Valid) : Framed spelling.text := by
  have hzone := zone_length spelling.zone
  have hfraction := fractionText_length h.fraction
  have hlength := length_text spelling
  have hdigit (n : Nat) : isDigit (digit n) = true := isDigit_digit n
  refine ⟨by omega, by omega, ?_, rfl⟩
  simp [hasDigits, digitPositions, Spelling.text, fixedDigits, byteAt, hdigit]

/-- The six numbers of a valid spelling are its date and time. -/
theorem number_text {spelling : Spelling} (h : spelling.Valid) :
    (number spelling.text 0 4 : Int) = spelling.date.year ∧
      number spelling.text 5 2 = spelling.date.month ∧ number spelling.text 8 2 =
      spelling.date.day ∧
      number spelling.text 11 2 = spelling.hour ∧ number spelling.text 14 2 = spelling.minute ∧
      number spelling.text 17 2 = spelling.second := by
  obtain ⟨⟨hyear, hyear'⟩, ⟨-, hmonth, -, hday⟩, hhour, hminute, hsecond, -, -, -⟩ := h
  have hlast := monthLength_le spelling.date.year spelling.date.month
  have hvalue (width n : Nat) (hn : n < 10 ^ width) : value (fixedDigits width n) = n :=
    value_fixedDigits hn
  refine ⟨?_, hvalue 2 _ (by omega), hvalue 2 _ (by omega), hvalue 2 _ (by omega),
    hvalue 2 _ (by omega), hvalue 2 _ (by omega)⟩
  have hfour := hvalue 4 spelling.date.year.toNat (by omega)
  have hnumber : number spelling.text 0 4 = spelling.date.year.toNat := hfour
  omega

/-- A valid spelling is read as its instant, or refused where the instant lies outside the
profile. -/
theorem parse_text {spelling : Spelling} (h : spelling.Valid) :
    parse spelling.text =
      if inRange spelling.microseconds then .ok spelling.microseconds else .error .refused := by
  obtain ⟨hyear, hmonth, hday, hhour, hminute, hsecond⟩ := number_text h
  have hclock : clockRefused spelling.date.year spelling.date.month spelling.date.day spelling.hour
      spelling.minute spelling.second = false := by
    have hyears := h.year
    have hnat : spelling.date.year = (spelling.date.year.toNat : Int) := by omega
    rw [hnat, clockRefused_eq_false, ← hnat]
    exact ⟨by omega, h.date, h.hour, h.minute, h.second⟩
  have hfraction := fraction_lt h.digits h.fraction
  have hdays := gregorianDay_range h.year h.date
  have hzone := seconds_range h.zone
  have hhours := h.hour
  have hminutes := h.minute
  have hseconds := h.second
  have hoffset : spelling.text.drop (19 + (fractionText spelling.fraction).length) =
      spelling.zone.text ++ [] := by
    rw [drop_append_length (drop_text spelling), List.append_nil]
  rw [parse_of_framed (framed_text h), hyear, hmonth, hday, hhour, hminute, hsecond, hclock,
    refuseIf_false, ok_bind,
    parseFraction_of h.digits h.fraction (drop_text spelling) (by
      intro b hb
      split
      · exact (head_zone hb).1
      · exact (head_zone hb).2), ok_bind]
  dsimp only
  rw [parseOffset_of h.zone hoffset (fun _ => rfl), ok_bind]
  dsimp only
  rw [← length_text, bne_self_eq_false, refuseIf_false, ok_bind,
    daysFromCivil_eq h.year h.date, ok_bind, uint32s_ok (by
      simp only [List.mem_cons, List.not_mem_nil, or_false, forall_eq_or_imp, forall_eq]
      omega), ok_bind]
  have hmicros : (gregorianDay spelling.date.year spelling.date.month spelling.date.day * 86400 +
      ((spelling.hour : Int) * 3600 + spelling.minute * 60 + spelling.second) -
        spelling.zone.seconds) * 1000000 +
        (value spelling.fraction * 10 ^ (6 - spelling.fraction.length) : Nat) =
      spelling.microseconds := by
    rw [Spelling.microseconds]
    push_cast
    omega
  simp only [List.getLastD_cons, List.getLastD_nil]
  rw [int64s_ok (by
      simp only [List.mem_cons, List.not_mem_nil, or_false, forall_eq_or_imp, forall_eq]
      omega), ok_bind]
  simp only [List.getLastD_cons, List.getLastD_nil]
  rw [int64s_ok (by
      simp only [List.mem_cons, List.not_mem_nil, or_false, forall_eq_or_imp, forall_eq]
      omega), ok_bind]
  simp only [List.getLastD_cons, List.getLastD_nil]
  rw [hmicros]
  by_cases hrange : inRange spelling.microseconds = true
  · rw [if_pos hrange, hrange]
    rfl
  · rw [if_neg hrange, Bool.eq_false_of_not_eq_true hrange]
    rfl

/-- What the parser does not refuse is a valid spelling. -/
theorem parse_cases (text : Bytes) :
    parse text = .error .refused ∨ ∃ spelling : Spelling, spelling.Valid ∧ spelling.text =
    text := by
  by_cases hframed : Framed text
  swap
  · exact Or.inl (parse_of_not_framed hframed)
  rw [parse_of_framed hframed]
  by_cases hclock : clockRefused (number text 0 4) (number text 5 2) (number text 8 2)
      (number text 11 2) (number text 14 2) (number text 17 2) = true
  · left
    rw [hclock]
    rfl
  rw [Bool.eq_false_of_not_eq_true hclock, refuseIf_false, ok_bind]
  obtain ⟨hyear, hdate, hhour, hminute, hsecond⟩ :=
    clockRefused_eq_false.mp (Bool.eq_false_of_not_eq_true hclock)
  rcases parseFraction_cases text with hrefused | ⟨digits, hdigits, hlength, hfraction, hparsed⟩
  · left
    rw [hrefused]
    rfl
  rw [hparsed, ok_bind]
  dsimp only
  rcases parseOffset_cases text (19 + (fractionText digits).length) with
    hrefused | ⟨zone, hzone, hoffset, hparsed'⟩
  · left
    rw [hrefused]
    rfl
  rw [hparsed', ok_bind]
  dsimp only
  by_cases hend : 19 + (fractionText digits).length + zone.text.length = text.length
  · right
    have hbound : number text 0 4 < 10 ^ 4 := by
      have hlong := hframed.long
      have hdigit := value_lt (isDigit_frame hframed).1
      rwa [length_field (by omega)] at hdigit
    refine ⟨⟨⟨number text 0 4, number text 5 2, number text 8 2⟩, number text 11 2,
      number text 14 2,
      number text 17 2, digits, zone⟩, ⟨by simp only; omega, hdate, hhour, hminute, hsecond,
      hdigits,
        hlength, hzone⟩, ?_⟩
    rw [hend, List.drop_length, List.append_nil] at hoffset
    rw [hoffset] at hfraction
    conv_rhs => rw [text_of_framed hframed, hfraction]
    rfl
  · left
    have hrefused : (19 + (fractionText digits).length + zone.text.length != text.length) =
      true := by
      simpa using hend
    rw [hrefused]
    rfl

/-- What both parsers accept. -/
theorem parse_eq_ok {text : Bytes} {microseconds : Int} :
    parse text = .ok microseconds ↔
      ∃ spelling : Spelling, spelling.Valid ∧ spelling.text = text ∧
        spelling.microseconds = microseconds ∧ inRange microseconds = true := by
  constructor
  · intro h
    rcases parse_cases text with hrefused | ⟨spelling, hvalid, rfl⟩
    · rw [hrefused] at h
      cases h
    · rw [parse_text hvalid] at h
      split at h
      · rename_i hrange
        obtain rfl := Except.ok.inj h
        exact ⟨spelling, hvalid, rfl, rfl, hrange⟩
      · cases h
  · rintro ⟨spelling, hvalid, rfl, rfl, hrange⟩
    rw [parse_text hvalid, if_pos hrange]

/-- The parser leaves the range of no type it computes in. -/
theorem parse_ne_overflow (text : Bytes) : parse text ≠ .error .overflow := by
  intro h
  rcases parse_cases text with hrefused | ⟨spelling, hvalid, rfl⟩
  · rw [hrefused] at h
    cases h
  · rw [parse_text hvalid] at h
    split at h <;> cases h

-- ---------------------------------------------------------------------------
-- The renderers
-- ---------------------------------------------------------------------------

/-- The renderer breaks an instant down by the calendar. -/
theorem breakDown_eq {microseconds : Int} (h : inRange microseconds = true) :
    breakDown microseconds = .ok (Instant.ofMicroseconds microseconds) := by
  simp only [inRange, Bool.and_eq_true, decide_eq_true_eq] at h
  have hseconds : 0 ≤ microseconds / 1000000 % 86400 := by omega
  have hminutes : 0 ≤ microseconds / 1000000 % 86400 % 3600 := by omega
  rw [Instant.ofMicroseconds_eq, breakDown,
    correctedDivMod_eq (by decide) (by omega), ok_bind]
  dsimp only
  rw [correctedDivMod_eq (by decide) (by omega), ok_bind]
  dsimp only
  rw [breakDownDays_eq (fun h => uint64s_ok fun n hn => by have := h n hn; omega) (by omega), ok_bind, Int.tdiv_eq_ediv_of_nonneg hseconds,
    Int.tmod_eq_emod_of_nonneg hseconds, Int.tdiv_eq_ediv_of_nonneg hminutes,
    Int.tmod_eq_emod_of_nonneg hseconds, int64_ok (by omega), ok_bind, int64s_ok (by
    simp only [List.mem_cons, List.not_mem_nil, or_false, forall_eq_or_imp, forall_eq]
    omega), ok_bind, int64_ok (by omega), ok_bind]
  rfl

/-- The spelling the renderers choose. -/
def canonicalSpelling (instant : Instant) : Spelling where
  date := instant.date
  hour := instant.hour.toNat
  minute := instant.minute.toNat
  second := instant.second.toNat
  fraction := fixedDigits 6 instant.fraction.toNat
  zone := .utc

/-- The text of an instant is one of its spellings. -/
theorem text_canonicalSpelling {instant : Instant} (h : instant.Fits) :
    (canonicalSpelling instant).text = instant.text := by
  obtain ⟨hyear, hmonth, hday, hhour, hminute, hsecond, hfraction⟩ := h
  rw [Instant.text_of_fits ⟨hyear, hmonth, hday, hhour, hminute, hsecond, hfraction⟩]
  have habs (n : Int) (hn : 0 ≤ n) : n.toNat = n.natAbs := by omega
  rw [Spelling.text, canonicalSpelling]
  dsimp only
  rw [habs _ (by omega), habs _ hhour.1, habs _ hminute.1, habs _ hsecond.1, habs _ hfraction.1]
  rfl

/-- The canonical spelling of a date is valid. -/
theorem valid_canonicalSpelling {instant : Instant} (h : instant.Fits)
    (hdate : IsDate instant.date) : (canonicalSpelling instant).Valid := by
  obtain ⟨hyear, -, -, hhour, hminute, hsecond, hfraction⟩ := h
  exact {
    year := hyear
    date := hdate
    hour := by simp only [canonicalSpelling]; omega
    minute := by simp only [canonicalSpelling]; omega
    second := by simp only [canonicalSpelling]; omega
    digits := isDigit_fixedDigits _ _
    fraction := by rw [canonicalSpelling, length_fixedDigits]
    zone := trivial }

/-- The canonical spelling denotes the instant it was made from. -/
theorem microseconds_canonicalSpelling {instant : Instant} (h : instant.Fits) :
    (canonicalSpelling instant).microseconds = instant.microseconds := by
  obtain ⟨-, hmonth, hday, hhour, hminute, hsecond, hfraction⟩ := h
  have hvalue : value (fixedDigits 6 instant.fraction.toNat) = instant.fraction.toNat :=
    value_fixedDigits (by omega)
  rw [Spelling.microseconds, canonicalSpelling, Instant.microseconds,
    daysFromCivil_eq_gregorianDay hmonth hday.1]
  dsimp only [Zone.seconds]
  rw [hvalue, length_fixedDigits]
  omega

/-- The years 1 to 9999. -/
def InProfile (microseconds : Int) : Prop :=
  gregorianDay 1 1 1 * 86400000000 ≤ microseconds ∧
    microseconds < gregorianDay 10000 1 1 * 86400000000

/-- The check of the source is the profile's range. -/
theorem inRange_eq_true {microseconds : Int} :
    inRange microseconds = true ↔ InProfile microseconds := by
  have hfirst : gregorianDay 1 1 1 = -719162 := by decide
  have hlast : gregorianDay 10000 1 1 = 2932897 := by decide
  simp only [inRange, InProfile, hfirst, hlast, Bool.and_eq_true, decide_eq_true_eq]
  omega

theorem timestamptz_codec :
    (∀ microseconds : Int64, InProfile microseconds.toInt →
      ∃ text : Bytes, text.length = 27 ∧
        Connector.canonicalTimestamptz microseconds = .ok text ∧
        Semantics.canonicalTimestamptz microseconds = .ok text ∧
        Runtime.canonicalTimestamptz microseconds = .ok text ∧
        breakDown microseconds.toInt = .ok (Instant.ofMicroseconds microseconds.toInt) ∧
        parseTimestamptz text = .ok microseconds.toInt ∧
        parse text = .ok microseconds.toInt) ∧
    ∀ text : Bytes,
      parseTimestamptz text = parse text ∧ parse text ≠ .error .overflow ∧
        ∀ microseconds : Int, parse text = .ok microseconds ↔
          ∃ spelling : Spelling, spelling.Valid ∧ spelling.text = text ∧
            spelling.microseconds = microseconds ∧ InProfile microseconds := by
  constructor
  · intro microseconds h
    have hrange := inRange_eq_true.mpr h
    have hfits := Instant.fits_ofMicroseconds hrange
    have hdate : IsDate (Instant.ofMicroseconds microseconds.toInt).date := by
      rw [Instant.ofMicroseconds_eq]
      exact isDate_civilFromDays _
    have hparse : parse (Instant.ofMicroseconds microseconds.toInt).text =
      .ok microseconds.toInt := by
      rw [parse_eq_ok]
      refine ⟨_, valid_canonicalSpelling hfits hdate, text_canonicalSpelling hfits, ?_, hrange⟩
      rw [microseconds_canonicalSpelling hfits, Instant.microseconds_ofMicroseconds]
    refine ⟨(Instant.ofMicroseconds microseconds.toInt).text, Instant.length_text hfits,
      canonicalTimestamptz_eq_ok.mpr ⟨hrange, rfl⟩, canonicalTimestamptz_eq_ok.mpr ⟨hrange, rfl⟩,
      canonicalTimestamptz_eq_ok.mpr ⟨hrange, rfl⟩, breakDown_eq hrange, ?_, hparse⟩
    rw [← parse_eq_parseTimestamptz]
    exact hparse
  · intro text
    refine ⟨(parse_eq_parseTimestamptz text).symm, parse_ne_overflow text, ?_⟩
    intro microseconds
    rw [parse_eq_ok]
    simp only [inRange_eq_true]

end Cuac.Runtime.Timestamptz

import Mathlib.Data.List.TakeWhile
import Cuac.Connector.TimestamptzParser

/-!
# Connector — what the parsers of timestamps accept

A `Spelling` is a date, a time, a fraction and a zone with their text and the
instant they denote in the calendar. Both parsers accept the texts of spellings
whose instant is in the profile and nothing else.
-/

namespace Cuac.Connector

open Cuac.Lib
open Cuac.Lib.Watched

-- ---------------------------------------------------------------------------
-- Runs of digits
-- ---------------------------------------------------------------------------

/-- The loop never leaves its type: what it has read stays below a power of ten. -/
theorem digitsFrom_eq {text : Bytes} {start count seen : Nat} (h : start + count ≤ text.length)
    (hdigits : ∀ b ∈ field text start count, isDigit b = true)
    (hseen : (seen + 1) * 10 ^ count ≤ 10 ^ 9) :
    digitsFrom text start count seen =
      .ok ((field text start count).foldl (fun seen b => seen * 10 +
      (b.toNat - 48)) seen : Nat) := by
  induction count generalizing start seen with
  | zero => simp [digitsFrom, field]
  | succ count ih =>
    rw [field_succ (by omega)] at hdigits ⊢
    have hdigit := digit_range (hdigits _ List.mem_cons_self)
    have hpow : 1 ≤ 10 ^ count := Nat.one_le_pow _ _ (by decide)
    have hnext : seen * 10 + ((byteAt text start).toNat - 48) + 1 ≤ (seen + 1) * 10 := by omega
    have hstep : (seen * 10 + ((byteAt text start).toNat - 48) + 1) * 10 ^ count ≤ 10 ^ 9 :=
      calc (seen * 10 + ((byteAt text start).toNat - 48) + 1) * 10 ^ count
          ≤ (seen + 1) * 10 * 10 ^ count := Nat.mul_le_mul_right _ hnext
        _ = (seen + 1) * 10 ^ (count + 1) := by rw [Nat.pow_succ, Nat.mul_assoc, Nat.mul_comm 10]
        _ ≤ 10 ^ 9 := hseen
    have hsmall : seen * 10 + ((byteAt text start).toNat - 48) + 1 ≤ 10 ^ 9 :=
      Nat.le_trans (Nat.le_mul_of_pos_right _ hpow) hstep
    rw [digitsFrom, uint32s_ok (by
      simp only [List.mem_cons, List.not_mem_nil, or_false, forall_eq_or_imp, forall_eq]
      omega), ok_bind, List.foldl_cons]
    have hcast :
        [(seen : Int) * 10, (seen : Int) * 10 + ((byteAt text start).toNat - 48)].getLastD 0 =
          ((seen * 10 + ((byteAt text start).toNat - 48) : Nat) : Int) := by
      show (seen : Int) * 10 + ((byteAt text start).toNat - 48) = _
      omega
    rw [hcast]
    exact ih (by omega) (fun b hb => hdigits b (List.mem_cons_of_mem _ hb)) hstep

theorem parseDigits_eq {text : Bytes} {start count : Nat} (h : start + count ≤ text.length)
    (hcount : count ≤ 9) (hdigits : ∀ b ∈ field text start count, isDigit b = true) :
    parseDigits text start count = .ok (value (field text start count) : Nat) := by
  refine digitsFrom_eq h hdigits ?_
  rw [Nat.zero_add, Nat.one_mul]
  exact Nat.pow_le_pow_right (by decide) hcount

-- ---------------------------------------------------------------------------
-- Spellings
-- ---------------------------------------------------------------------------

/-- The zone of a timestamp, `Z` or an offset. -/
inductive Zone
  | utc
  | offset (negative : Bool) (hour minute : Nat)
  deriving DecidableEq, Repr

namespace Zone

def text : Zone → Bytes
  | utc => [byte 'Z']
  | offset negative hour minute =>
    (if negative then byte '-' else byte '+') ::
      (fixedDigits 2 hour ++ byte ':' :: fixedDigits 2 minute)

/-- How far the local time is ahead. -/
def seconds : Zone → Int
  | utc => 0
  | offset negative hour minute =>
    if negative then -(hour * 3600 + minute * 60 : Nat) else (hour * 3600 + minute * 60 : Nat)

/-- At most fourteen hours, and no `-00:00`. -/
def Valid : Zone → Prop
  | utc => True
  | offset negative hour minute =>
    minute < 60 ∧ hour * 60 + minute ≤ 840 ∧ (negative = true → hour * 60 + minute ≠ 0)

end Zone

/-- A point in time as it is written. No digits stand for no fraction. -/
structure Spelling where
  date : Date
  hour : Nat
  minute : Nat
  second : Nat
  fraction : Bytes
  zone : Zone
  deriving DecidableEq, Repr

/-- The fraction with its point, or nothing. -/
def fractionText (digits : Bytes) : Bytes :=
  if digits = [] then [] else byte '.' :: digits

namespace Spelling

def text (spelling : Spelling) : Bytes :=
  fixedDigits 4 spelling.date.year.toNat ++ byte '-' :: (fixedDigits 2 spelling.date.month ++
    byte '-' :: (fixedDigits 2 spelling.date.day ++ byte 'T' :: (fixedDigits 2 spelling.hour ++
      byte ':' :: (fixedDigits 2 spelling.minute ++ byte ':' :: (fixedDigits 2 spelling.second ++
        (fractionText spelling.fraction ++ spelling.zone.text))))))

/-- The fields of a spelling exist in the calendar, and its zone is one that the profile knows. -/
structure Valid (spelling : Spelling) : Prop where
  year : 1 ≤ spelling.date.year ∧ spelling.date.year ≤ 9999
  date : IsDate spelling.date
  hour : spelling.hour < 24
  minute : spelling.minute < 60
  second : spelling.second < 60
  digits : ∀ b ∈ spelling.fraction, isDigit b = true
  fraction : spelling.fraction.length ≤ 6
  zone : spelling.zone.Valid

/-- The instant in the proleptic Gregorian calendar, in microseconds since 1970. -/
def microseconds (spelling : Spelling) : Int :=
  (gregorianDay spelling.date.year spelling.date.month spelling.date.day * 86400 +
    spelling.hour * 3600 + spelling.minute * 60 + spelling.second - spelling.zone.seconds) *
      1000000 + value spelling.fraction * 10 ^ (6 - spelling.fraction.length)

end Spelling

-- ---------------------------------------------------------------------------
-- The fraction
-- ---------------------------------------------------------------------------

/-- A short fraction is scaled without leaving its type. -/
theorem scaleFraction_eq {turns n : Nat} (h : n * 10 ^ turns < 10 ^ 9) :
    scaleFraction turns n = .ok (n * 10 ^ turns : Nat) := by
  induction turns generalizing n with
  | zero => simp [scaleFraction]
  | succ turns ih =>
    have hshift : n * 10 ^ (turns + 1) = n * 10 * 10 ^ turns := by
      rw [Nat.pow_succ, Nat.mul_assoc, Nat.mul_comm 10]
    have hpow : 1 ≤ 10 ^ turns := Nat.one_le_pow _ _ (by decide)
    rw [hshift] at h ⊢
    have hsmall : n * 10 ≤ n * 10 * 10 ^ turns := Nat.le_mul_of_pos_right _ hpow
    rw [scaleFraction, int64_ok (by omega), ok_bind]
    exact ih h

/-- A fraction of up to six digits is less than a second. -/
theorem fraction_lt {digits : Bytes} (h : ∀ b ∈ digits, isDigit b = true)
    (hlength : digits.length ≤ 6) : value digits * 10 ^ (6 - digits.length) < 10 ^ 6 := by
  have hvalue := value_lt h
  calc value digits * 10 ^ (6 - digits.length)
      < 10 ^ digits.length * 10 ^ (6 - digits.length) :=
        Nat.mul_lt_mul_of_pos_right hvalue (Nat.pow_pos (by decide))
    _ = 10 ^ 6 := by rw [← Nat.pow_add, Nat.add_sub_cancel' hlength]

/-- The digits in front of a byte that is none are taken. -/
theorem takeWhile_append {digits rest : Bytes} (hdigits : ∀ b ∈ digits, isDigit b = true)
    (hrest : ∀ b ∈ rest.head?, isDigit b = false) :
    (digits ++ rest).takeWhile isDigit = digits := by
  rw [List.takeWhile_append_of_pos hdigits]
  cases rest with
  | nil => simp
  | cons b rest => simp [hrest b rfl]

/-- A fraction is read where it stands behind the seconds. -/
theorem parseFraction_of {text digits rest : Bytes} (hdigits : ∀ b ∈ digits, isDigit b = true)
    (hlength : digits.length ≤ 6) (h : text.drop 19 = fractionText digits ++ rest)
    (hrest : ∀ b ∈ rest.head?, if digits = [] then b ≠ byte '.' else isDigit b = false) :
    parseFraction text = .ok (19 + (fractionText digits).length,
      (value digits * 10 ^ (6 - digits.length) : Nat)) := by
  by_cases hnone : digits = []
  · subst hnone
    have hpoint : (19 < text.length && byteAt text 19 == byte '.') = false := by
      by_cases hlong : 19 < text.length
      · rw [drop_eq_byteAt_cons hlong] at h
        have hhead := hrest (byteAt text 19) (by rw [← show _ = rest from h]; rfl)
        simpa [hlong] using hhead
      · simp [hlong]
    rw [parseFraction, if_neg (by rw [hpoint]; decide)]
    rfl
  · have htext : fractionText digits = byte '.' :: digits := if_neg hnone
    simp only [if_neg hnone] at hrest
    rw [htext] at h ⊢
    have hlong := length_of_drop h (by simp)
    rw [List.length_cons] at hlong
    have hcons : byteAt text 19 :: text.drop 20 = byte '.' :: (digits ++ rest) := by
      rw [← drop_eq_byteAt_cons (by omega), h]
      rfl
    obtain ⟨hpoint, hafter⟩ := List.cons.inj hcons
    have hfield := field_of_drop hafter
    have hvalue := fraction_lt hdigits hlength
    rw [parseFraction, if_pos (by simp [hpoint]; omega), hafter, takeWhile_append hdigits hrest]
    dsimp only
    have hkept : (digits.length == 0 || decide (digits.length > 6)) = false := by
      simp [hnone, hlength]
    rw [hkept, refuseIf_false, ok_bind,
      parseDigits_eq (by omega) (by omega) (by rw [hfield]; exact hdigits), ok_bind, hfield,
      scaleFraction_eq (by omega), ok_bind, List.length_cons]
    exact congrArg (fun n => Except.ok (n, _)) (by omega)

/-- What a fraction that is read consists of. -/
theorem parseFraction_cases (text : Bytes) :
    parseFraction text = .error .refused ∨
      ∃ digits : Bytes, (∀ b ∈ digits, isDigit b = true) ∧ digits.length ≤ 6 ∧
        text.drop 19 = fractionText digits ++ text.drop (19 + (fractionText digits).length) ∧
        parseFraction text = .ok (19 + (fractionText digits).length,
          (value digits * 10 ^ (6 - digits.length) : Nat)) := by
  by_cases hpoint : 19 < text.length ∧ byteAt text 19 = byte '.'
  · obtain ⟨hlong, hpoint⟩ := hpoint
    generalize hdigits : (text.drop 20).takeWhile isDigit = digits
    by_cases hkept : digits.length = 0 ∨ digits.length > 6
    · left
      rw [parseFraction, if_pos (by simp [hpoint, hlong]), hdigits]
      dsimp only
      have hrefused : (digits.length == 0 || decide (digits.length > 6)) = true := by
        simpa using hkept
      rw [hrefused]
      rfl
    · right
      have hall : ∀ b ∈ digits, isDigit b = true := by
        intro b hb
        rw [← hdigits] at hb
        exact List.mem_takeWhile_imp hb
      have hnone : digits ≠ [] := by
        rintro rfl
        exact hkept (Or.inl rfl)
      have hdrop : text.drop 19 = fractionText digits ++ (text.drop 20).dropWhile isDigit := by
        rw [fractionText, if_neg hnone, drop_eq_byteAt_cons hlong, hpoint, List.cons_append,
          ← hdigits,
          List.takeWhile_append_dropWhile]
      refine ⟨digits, hall, by omega, ?_, ?_⟩
      · rw [drop_append_length hdrop, hdrop]
      · refine parseFraction_of hall (by omega) hdrop ?_
        intro b hb
        rw [if_neg hnone]
        have := List.head?_dropWhile_not isDigit (text.drop 20)
        rw [Option.mem_def.mp hb] at this
        simpa using this
  · right
    refine ⟨[], by simp, by simp, by simp [fractionText], ?_⟩
    refine @parseFraction_of text [] (text.drop 19) (by simp) (by simp) (by simp [fractionText]) ?_
    intro b hb hdot
    rcases Nat.lt_or_ge 19 text.length with hlong | hshort
    · rw [drop_eq_byteAt_cons hlong] at hb
      have hhead : byteAt text 19 = b := by simpa using hb
      exact hpoint ⟨hlong, hhead.trans hdot⟩
    · rw [List.drop_eq_nil_of_le hshort] at hb
      cases hb

-- ---------------------------------------------------------------------------
-- The zone
-- ---------------------------------------------------------------------------

/-- A text of two digits, written out. -/
theorem fixedDigits_two (n : Nat) : fixedDigits 2 n = [digit (n / 10), digit n] := rfl

/-- The value of a text of two digits. -/
theorem value_two {n : Nat} (h : n < 100) : value [digit (n / 10), digit n] = n :=
  @value_fixedDigits 2 n h

theorem isDigit_two (n : Nat) : ∀ b ∈ [digit (n / 10), digit n], isDigit b = true :=
  isDigit_fixedDigits 2 n

/-- An offset is turned into seconds without leaving its type. -/
theorem offsetSeconds_eq {hour minute : Nat} (negative : Bool) (hhour : hour ≤ 14)
    (hminute : minute < 60) :
    offsetSeconds negative hour minute = .ok (Zone.offset negative hour minute).seconds := by
  have hsum : ((hour : Int) * 3600 + minute * 60) = (hour * 3600 + minute * 60 : Nat) := by omega
  rw [offsetSeconds, uint32s_ok (by
    simp only [List.mem_cons, List.not_mem_nil, or_false, forall_eq_or_imp, forall_eq]
    omega), ok_bind]
  show (if negative = true then int64 (-((hour : Int) * 3600 + minute * 60)) else
    pure ((hour : Int) * 3600 + minute * 60)) = _
  rw [hsum, Zone.seconds]
  by_cases hsign : negative = true
  · rw [if_pos hsign, if_pos hsign, int64_ok (by omega)]
  · rw [if_neg hsign, if_neg hsign]
    rfl

/-- The text of an offset has the frame of one. -/
theorem isOffset_of {text : Bytes} {cursor : Nat} {negative : Bool} {hour minute : Nat}
    (h : text.drop cursor = (Zone.offset negative hour minute).text) :
    isOffset text cursor = true := by
  have hlength := congrArg List.length h
  rw [List.length_drop] at hlength
  simp only [Zone.text, fixedDigits_two, List.length_cons, List.length_append,
    List.length_nil] at hlength
  have hsign := byteAt_add text cursor 0
  rw [Nat.add_zero] at hsign
  simp only [isOffset, hsign, byteAt_add text cursor, h]
  cases negative <;>
    simp [Zone.text, fixedDigits_two, byteAt, isDigit_digit] <;> omega

/-- An offset is less than fourteen hours from the meridian, or just as much. -/
theorem seconds_range {zone : Zone} (h : zone.Valid) :
    -50400 ≤ zone.seconds ∧ zone.seconds ≤ 50400 := by
  cases zone with
  | utc => decide
  | offset negative hour minute =>
    simp only [Zone.Valid] at h
    simp only [Zone.seconds]
    split <;> omega

/-- The guard on an offset. -/
def offsetRefused (negative : Bool) (hour minute : Int) : Bool :=
  decide (hour > 14) || decide (minute > 59) || (hour == 14 && minute != 0) ||
    (negative && hour == 0 && minute == 0)

/-- It lets exactly the valid ones through. -/
theorem offsetRefused_eq_false (negative : Bool) (hour minute : Nat) :
    offsetRefused negative hour minute = false ↔ (Zone.offset negative hour minute).Valid := by
  simp only [offsetRefused, Bool.or_eq_false_iff, decide_eq_false_iff_not, Bool.and_eq_false_iff,
    Zone.Valid]
  cases negative <;> simp <;> omega

/-- The parser of the offset works on two numbers and a sign. -/
theorem parseOffset_eq {text : Bytes} {cursor : Nat} {negative : Bool} {hour minute : Nat}
    (h : text.drop cursor = (Zone.offset negative hour minute).text) (hhour : hour < 100)
    (hminute : minute < 100) :
    parseOffset text cursor = (do
      refuseIf (offsetRefused negative hour minute)
      let seconds ← offsetSeconds negative hour minute
      pure (cursor + 6, seconds)) := by
  have hsign : byteAt text cursor = if negative then byte '-' else byte '+' := by
    have hsign := byteAt_add text cursor 0
    rw [h] at hsign
    exact hsign
  have hfirst : field text (cursor + 1) 2 = [digit (hour / 10), digit hour] := by
    rw [field_add, h]
    rfl
  have hsecond : field text (cursor + 4) 2 = [digit (minute / 10), digit minute] := by
    rw [field_add, h]
    rfl
  have hlength := congrArg List.length h
  rw [List.length_drop] at hlength
  simp only [Zone.text, fixedDigits_two, List.length_cons, List.length_append,
    List.length_nil] at hlength
  have hnegative : (byteAt text cursor == byte '-') = negative := by
    rw [hsign]
    cases negative <;> rfl
  have hutc : byteAt text cursor ≠ byte 'Z' := by
    rw [hsign]
    cases negative <;> decide
  rw [parseOffset, if_neg (by simp [hutc]), if_pos (isOffset_of h), hnegative]
  dsimp only
  rw [parseDigits_eq (by omega) (by omega) (by rw [hfirst]; exact isDigit_two hour), ok_bind,
    parseDigits_eq (by omega) (by omega) (by rw [hsecond]; exact isDigit_two minute), ok_bind,
    hfirst, hsecond, value_two hhour, value_two hminute]
  rfl

/-- A zone is read where it stands at the end. -/
theorem parseOffset_of {text rest : Bytes} {cursor : Nat} {zone : Zone} (hzone : zone.Valid)
    (h : text.drop cursor = zone.text ++ rest) (hrest : zone ≠ .utc → rest = []) :
    parseOffset text cursor = .ok (cursor + zone.text.length, zone.seconds) := by
  cases zone with
  | utc =>
    have hlong : cursor + 1 ≤ text.length := length_of_drop h (by simp [Zone.text])
    have hcons : byteAt text cursor :: text.drop (cursor + 1) = byte 'Z' :: rest := by
      rw [← drop_eq_byteAt_cons (by omega), h]
      rfl
    rw [parseOffset, if_pos (by simp [(List.cons.inj hcons).1]; omega)]
    rfl
  | offset negative hour minute =>
    rw [hrest (by simp), List.append_nil] at h
    have hbound : hour ≤ 14 ∧ minute < 60 := by
      simp only [Zone.Valid] at hzone
      omega
    rw [parseOffset_eq h (by omega) (by omega),
      (offsetRefused_eq_false negative hour minute).mpr hzone, refuseIf_false, ok_bind,
      offsetSeconds_eq negative hbound.1 hbound.2, ok_bind]
    rfl

/-- The text of an offset is cut into its two numbers. -/
theorem drop_of_isOffset {text : Bytes} {cursor : Nat} (h : isOffset text cursor = true) :
    ∃ negative hour minute, hour < 100 ∧ minute < 100 ∧
      text.drop cursor = (Zone.offset negative hour minute).text := by
  simp only [isOffset, Bool.and_eq_true, beq_iff_eq, Bool.or_eq_true] at h
  obtain ⟨⟨⟨⟨⟨⟨hlength, hsign⟩, htens⟩, hunits⟩, hcolon⟩, htens'⟩, hunits'⟩ := h
  have hfirst : ∀ b ∈ field text (cursor + 1) 2, isDigit b = true := by
    rw [field_succ (by omega), field_succ (by omega)]
    simp [htens, hunits, field]
  have hsecond : ∀ b ∈ field text (cursor + 4) 2, isDigit b = true := by
    rw [field_succ (by omega), field_succ (by omega)]
    simp [htens', hunits', field]
  have hwidth : (field text (cursor + 1) 2).length = 2 := length_field (by omega)
  have hwidth' : (field text (cursor + 4) 2).length = 2 := length_field (by omega)
  have hhour := fixedDigits_value hfirst
  have hminute := fixedDigits_value hsecond
  have hbound := value_lt hfirst
  have hbound' := value_lt hsecond
  rw [hwidth] at hhour hbound
  rw [hwidth'] at hminute hbound'
  refine ⟨byteAt text cursor == byte '-', value (field text (cursor + 1) 2),
    value (field text (cursor + 4) 2), hbound, hbound', ?_⟩
  have hlast : text.drop (cursor + 4) = field text (cursor + 4) 2 := by
    rw [field, List.take_of_length_le (by rw [List.length_drop]; omega)]
  rw [Zone.text, hhour, hminute, drop_eq_byteAt_cons (by omega),
    @drop_eq_field_append text (cursor + 1) 2 (by omega),
    show cursor + 1 + 2 = cursor + 3 by omega, hcolon, hlast]
  rcases hsign with hsign | hsign
  · rw [hsign]
    rfl
  · rw [hsign]
    rfl

/-- What the parser of the offset does not refuse is a zone. -/
theorem parseOffset_cases (text : Bytes) (cursor : Nat) :
    parseOffset text cursor = .error .refused ∨
      ∃ zone : Zone, zone.Valid ∧
        text.drop cursor = zone.text ++ text.drop (cursor + zone.text.length) ∧
        parseOffset text cursor = .ok (cursor + zone.text.length, zone.seconds) := by
  by_cases hutc : cursor < text.length ∧ byteAt text cursor = byte 'Z'
  · right
    have hdrop : text.drop cursor = Zone.utc.text ++ text.drop (cursor + 1) := by
      rw [drop_eq_byteAt_cons hutc.1, hutc.2]
      rfl
    exact ⟨.utc, trivial, hdrop, parseOffset_of trivial hdrop (fun h => absurd rfl h)⟩
  · by_cases hoffset : isOffset text cursor = true
    · obtain ⟨negative, hour, minute, hhour, hminute, hdrop⟩ := drop_of_isOffset hoffset
      by_cases hzone : (Zone.offset negative hour minute).Valid
      · right
        have hwhole : text.drop cursor = (Zone.offset negative hour minute).text ++ [] := by
          rw [hdrop, List.append_nil]
        refine ⟨.offset negative hour minute, hzone, ?_, parseOffset_of hzone hwhole (fun _ => rfl)⟩
        rw [drop_append_length hwhole, hwhole]
      · left
        have hrefused : offsetRefused negative hour minute = true := by
          rw [← offsetRefused_eq_false] at hzone
          simpa using hzone
        rw [parseOffset_eq hdrop hhour hminute, hrefused]
        rfl
    · left
      rw [parseOffset, if_neg (by simpa using hutc), if_neg hoffset]

-- ---------------------------------------------------------------------------
-- The renderer's breakdown
-- ---------------------------------------------------------------------------

/-- The corrected division is division towards negative infinity. -/
theorem correctedDivMod_eq {a n : Int} (hn : 1000 ≤ n ∧ n ≤ 1000000000)
    (ha : -9223372036854775808 ≤ a ∧ a ≤ 9223372036854775807) :
    correctedDivMod a n = .ok (a / n, a % n) := by
  have hpos : 0 < n := by omega
  have hfloor := @floorDivMod_eq a n hpos
  have hlow := Int.emod_nonneg a (by omega : n ≠ 0)
  have hhigh := Int.emod_lt_of_pos a hpos
  have hquotient : -10000000000000000 ≤ a / n := (Int.le_ediv_iff_mul_le hpos).mpr (by omega)
  have hquotient' : a / n ≤ 10000000000000000 := Int.ediv_le_of_le_mul hpos (by omega)
  unfold floorDivMod at hfloor
  unfold correctedDivMod
  split at hfloor
  · rename_i hnegative
    obtain ⟨hdiv, hmod⟩ := Prod.mk.inj hfloor
    rw [int64_ok (by omega), ok_bind, int64_ok (by omega), ok_bind, if_pos hnegative,
      int64_ok (by omega), ok_bind, int64_ok (by omega), ok_bind, hdiv, hmod]
    rfl
  · rename_i hpositive
    obtain ⟨hdiv, hmod⟩ := Prod.mk.inj hfloor
    rw [int64_ok (by omega), ok_bind, int64_ok (by omega), ok_bind, if_neg hpositive, hdiv, hmod]
    rfl

/-- A month and a day of an era, in any unsigned type of 32 bits or more. -/
theorem breakDownDays_eq {unsigned : List Int → Watched Int} {days : Int}
    (hunsigned : ∀ {steps : List Int}, (∀ n ∈ steps, 0 ≤ n ∧ n ≤ 4294967295) →
      unsigned steps = .ok (steps.getLastD 0))
    (hdays : -1000000000000 ≤ days ∧ days ≤ 1000000000000) :
    breakDownDays unsigned days = .ok (civilFromDays days) := by
  have hera := era_eq (days + 719468) (show (0 : Int) < 146097 by decide)
  have hcorrected : (if days + 719468 ≥ 0 then days + 719468 else days + 719468 - 146096).tdiv 146097 =
      (days + 719468) / 146097 := hera
  unfold breakDownDays civilFromDays
  rw [int64_ok (by omega), ok_bind, hcorrected, int64s_ok (by
    simp only [List.mem_cons, List.not_mem_nil, or_false, forall_eq_or_imp, forall_eq]
    split <;> omega), ok_bind]
  simp only [List.getLastD_cons, List.getLastD_nil, hera]
  rw [int64s_ok (by
    simp only [List.mem_cons, List.not_mem_nil, or_false, forall_eq_or_imp, forall_eq]
    omega), ok_bind]
  simp only [List.getLastD_cons, List.getLastD_nil]
  generalize hcount : (days + 719468) / 146097 = e
  generalize hdoe : (days + 719468 - e * 146097).toNat = dayOfEra
  have hday : dayOfEra < 146097 := by omega
  have hback : days + 719468 - e * 146097 = (dayOfEra : Int) := by omega
  obtain ⟨hstart, hend⟩ := yearStart_yearOfEra hday
  have hyear := yearOfEra_lt hday
  have hyearOf : ((dayOfEra : Int) - dayOfEra / 1460 + dayOfEra / 36524 - dayOfEra / 146096) / 365 =
      (yearOfEra dayOfEra : Int) := by
    unfold yearOfEra leaplessDay
    omega
  rw [hback, hunsigned (by
    simp only [List.mem_cons, List.not_mem_nil, or_false, forall_eq]
    omega), ok_bind]
  simp only [List.getLastD_cons, List.getLastD_nil]
  rw [hunsigned (by
    simp only [List.mem_cons, List.not_mem_nil, or_false, forall_eq_or_imp, forall_eq]
    omega), ok_bind]
  simp only [List.getLastD_cons, List.getLastD_nil, hyearOf]
  generalize yearOfEra dayOfEra = y at *
  have hstartOf : 365 * (y : Int) + y / 4 - y / 100 = (yearStart y : Int) := by
    unfold yearStart
    omega
  rw [int64s_ok (by
    simp only [List.mem_cons, List.not_mem_nil, or_false, forall_eq_or_imp, forall_eq]
    omega), ok_bind, hunsigned (by
    simp only [List.mem_cons, List.not_mem_nil, or_false, forall_eq_or_imp, forall_eq]
    omega), ok_bind]
  simp only [List.getLastD_cons, List.getLastD_nil, hstartOf]
  generalize hdoy : dayOfEra - yearStart y = dayOfYear
  have hdoyOf : (dayOfEra : Int) - yearStart y = (dayOfYear : Int) := by omega
  have hprime : (5 * (dayOfYear : Int) + 2) / 153 = (monthPrime dayOfYear : Int) := by
    unfold monthPrime
    omega
  have hbound : monthPrime dayOfYear ≤ 11 ∧
      (153 * monthPrime dayOfYear + 2) / 5 ≤ dayOfYear := by
    unfold monthPrime
    omega
  rw [hdoyOf, hunsigned (by
    simp only [List.mem_cons, List.not_mem_nil, or_false, forall_eq_or_imp, forall_eq]
    omega), ok_bind]
  simp only [List.getLastD_cons, List.getLastD_nil, hprime]
  generalize monthPrime dayOfYear = mp at *
  rw [hunsigned (by
    simp only [List.mem_cons, List.not_mem_nil, or_false, forall_eq_or_imp, forall_eq]
    omega), ok_bind]
  simp only [List.getLastD_cons, List.getLastD_nil]
  have hmonth : (if (mp : Int) < 10 then (mp : Int) + 3 else mp - 9) =
      ((if mp < 10 then mp + 3 else mp - 9 : Nat) : Int) := by
    split <;> split <;> omega
  have hmonth' : (if mp < 10 then mp + 3 else mp - 9) ≤ 12 := by split <;> omega
  rw [hmonth]
  generalize (if mp < 10 then mp + 3 else mp - 9) = month at *
  rw [hunsigned (by
    simp only [List.mem_cons, List.not_mem_nil, or_false, forall_eq]
    omega), ok_bind]
  simp only [List.getLastD_cons, List.getLastD_nil]
  rw [uint32_ok (by omega), ok_bind, int64_ok (by split <;> omega), ok_bind]
  have hdayOf : ((dayOfYear : Int) - (153 * mp + 2) / 5 + 1).toNat = dayOfMonth dayOfYear mp := by
    unfold dayOfMonth
    omega
  have hyearIs : (y : Int) + e * 400 + (if (month : Int) ≤ 2 then 1 else 0) =
      if month ≤ 2 then (y : Int) + e * 400 + 1 else y + e * 400 := by
    split <;> split <;> omega
  rw [hdayOf, hyearIs, Int.toNat_natCast]
  rfl

end Cuac.Connector

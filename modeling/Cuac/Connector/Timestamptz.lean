import Cuac.Lib.Calendar
import Cuac.Connector.Value

/-!
# Timestamps

Microseconds since 1970 and their canonical text `YYYY-MM-DDTHH:MM:SS.ffffffZ`.
Connector, Semantics and Runtime each have a copy of the renderer; the copies
differ in the texts of what they throw.

Main results:

* `canonicalTimestamptz_total` — every timestamp of the profile, and no other,
  has a canonical text.
* `canonicalTimestamptz_injective` — which is its own.
* `mem_canonicalTimestamptz` — the bytes it is made of.
-/

namespace Cuac.Connector

open Cuac.Lib

/-- The profile: years 1 to 9999. -/
def isTimestamptzMicroseconds (microseconds : Int64) : Bool :=
  -62135596800000000 ≤ microseconds.toInt && microseconds.toInt ≤ 253402300799999999

/-- A point in time, broken down. -/
structure Instant where
  date : Date
  hour : Int
  minute : Int
  second : Int
  fraction : Int
  deriving DecidableEq, Repr

namespace Instant

def ofMicroseconds (microseconds : Int) : Instant :=
  let (seconds, fraction) := floorDivMod microseconds 1000000
  let (days, daySeconds) := floorDivMod seconds 86400
  ⟨civilFromDays days, daySeconds.tdiv 3600, (daySeconds.tmod 3600).tdiv 60, daySeconds.tmod 60,
    fraction⟩

def microseconds (instant : Instant) : Int :=
  (daysFromCivil instant.date * 86400 + instant.hour * 3600 + instant.minute * 60 +
    instant.second) * 1000000 + instant.fraction

/-- `%04lld-%02u-%02lluT%02lld:%02lld:%02lld.%06lldZ` -/
def text (instant : Instant) : Bytes :=
  paddedSigned 4 instant.date.year ++ byte '-' :: (padded 2 instant.date.month ++
    byte '-' :: (padded 2 instant.date.day ++ byte 'T' :: (paddedSigned 2 instant.hour ++
      byte ':' :: (paddedSigned 2 instant.minute ++ byte ':' :: (paddedSigned 2 instant.second ++
        byte '.' :: (paddedSigned 6 instant.fraction ++ [byte 'Z']))))))

/-- Every field fits its place in the text. -/
structure Fits (instant : Instant) : Prop where
  year : 1 ≤ instant.date.year ∧ instant.date.year ≤ 9999
  month : 1 ≤ instant.date.month ∧ instant.date.month ≤ 12
  day : 1 ≤ instant.date.day ∧ instant.date.day ≤ 31
  hour : 0 ≤ instant.hour ∧ instant.hour < 24
  minute : 0 ≤ instant.minute ∧ instant.minute < 60
  second : 0 ≤ instant.second ∧ instant.second < 60
  fraction : 0 ≤ instant.fraction ∧ instant.fraction < 1000000

end Instant

/-- The copies of the renderer, by the texts of what they throw. -/
def canonicalTimestamptzWith (outside failed : String) (microseconds : Int64) :
    Except Fault Bytes := do
  throwIf (!isTimestamptzMicroseconds microseconds) (invalidArgument outside)
  let text := (Instant.ofMicroseconds microseconds.toInt).text
  throwIf (text.length != 27) (logicError failed)
  pure text

/-- Connector's copy. -/
def canonicalTimestamptz : Int64 → Except Fault Bytes :=
  canonicalTimestamptzWith "TIMESTAMPTZ microseconds are outside the CUAC profile"
    "TIMESTAMPTZ canonical formatting failed"

-- ---------------------------------------------------------------------------
-- Breaking down and back
-- ---------------------------------------------------------------------------

namespace Instant

theorem ofMicroseconds_eq (microseconds : Int) :
    ofMicroseconds microseconds =
      ⟨civilFromDays (microseconds / 1000000 / 86400),
        microseconds / 1000000 % 86400 / 3600,
        microseconds / 1000000 % 86400 % 3600 / 60,
        microseconds / 1000000 % 86400 % 60, microseconds % 1000000⟩ := by
  unfold ofMicroseconds
  simp only [floorDivMod_eq (show (0 : Int) < 1000000 by decide),
    floorDivMod_eq (show (0 : Int) < 86400 by decide)]
  have hseconds : 0 ≤ microseconds / 1000000 % 86400 := by omega
  have hminutes : 0 ≤ microseconds / 1000000 % 86400 % 3600 := by omega
  rw [Int.tdiv_eq_ediv_of_nonneg hseconds, Int.tmod_eq_emod_of_nonneg hseconds,
    Int.tdiv_eq_ediv_of_nonneg hminutes, Int.tmod_eq_emod_of_nonneg hseconds]

/-- No information is lost. -/
theorem microseconds_ofMicroseconds (microseconds : Int) :
    (ofMicroseconds microseconds).microseconds = microseconds := by
  rw [ofMicroseconds_eq, Instant.microseconds, daysFromCivil_civilFromDays]
  simp only
  omega

/-- A day count between the first day of year 1 and the last one of 9999 is in
one of those years. -/
theorem year_range {days : Int} (hlow : -719162 ≤ days) (hhigh : days ≤ 2932896) :
    1 ≤ (civilFromDays days).year ∧ (civilFromDays days).year ≤ 9999 := by
  have hback := daysFromCivil_civilFromDays days
  obtain ⟨hmonth, hmonth', hday, hday'⟩ := civilFromDays_range days
  generalize civilFromDays days = date at *
  obtain ⟨year, month, day⟩ := date
  simp only [daysFromCivil, yearStart] at *
  rw [era_eq _ (by decide)] at hback
  constructor
  · by_contra hyear
    split at hback <;> split at hback <;> omega
  · by_contra hyear
    split at hback <;> split at hback <;> omega

theorem fits_ofMicroseconds {microseconds : Int64}
    (h : isTimestamptzMicroseconds microseconds = true) :
    Fits (ofMicroseconds microseconds.toInt) := by
  simp only [isTimestamptzMicroseconds, Bool.and_eq_true, decide_eq_true_eq] at h
  rw [ofMicroseconds_eq]
  obtain ⟨hmonth, hmonth', hday, hday'⟩ :=
    civilFromDays_range (microseconds.toInt / 1000000 / 86400)
  exact {
    year := year_range (by omega) (by omega)
    month := ⟨hmonth, hmonth'⟩
    day := ⟨hday, hday'⟩
    hour := by constructor <;> simp only <;> omega
    minute := by constructor <;> simp only <;> omega
    second := by constructor <;> simp only <;> omega
    fraction := by constructor <;> simp only <;> omega }

-- ---------------------------------------------------------------------------
-- The text
-- ---------------------------------------------------------------------------

theorem padded_of_fits {width n : Nat} (h : n < 10 ^ width) :
    padded width n = fixedDigits width n := by
  rw [padded, if_pos h]

theorem text_of_fits {instant : Instant} (h : Fits instant) :
    instant.text =
      fixedDigits 4 instant.date.year.natAbs ++ byte '-' :: (fixedDigits 2 instant.date.month ++
        byte '-' :: (fixedDigits 2 instant.date.day ++ byte 'T' ::
          (fixedDigits 2 instant.hour.natAbs ++ byte ':' :: (fixedDigits 2 instant.minute.natAbs ++
            byte ':' :: (fixedDigits 2 instant.second.natAbs ++
              byte '.' :: (fixedDigits 6 instant.fraction.natAbs ++ [byte 'Z'])))))) := by
  obtain ⟨hyear, hmonth, hday, hhour, hminute, hsecond, hfraction⟩ := h
  rw [text, paddedSigned_of_fits (by omega) (by omega), padded_of_fits (by omega),
    padded_of_fits (by omega), paddedSigned_of_fits (by omega) (by omega),
    paddedSigned_of_fits (by omega) (by omega), paddedSigned_of_fits (by omega) (by omega),
    paddedSigned_of_fits (by omega) (by omega)]

theorem length_text {instant : Instant} (h : Fits instant) : instant.text.length = 27 := by
  rw [text_of_fits h]
  simp [length_fixedDigits]

theorem fixedDigits_append_inj {width m n : Nat} {r s : Bytes} (hm : m < 10 ^ width)
    (hn : n < 10 ^ width) (h : fixedDigits width m ++ r = fixedDigits width n ++ s) :
    m = n ∧ r = s := by
  have hlength : (fixedDigits width m).length = (fixedDigits width n).length := by
    rw [length_fixedDigits, length_fixedDigits]
  obtain ⟨hdigits, hrest⟩ := List.append_inj h hlength
  have hvalue := congrArg value hdigits
  rw [value_fixedDigits hm, value_fixedDigits hn] at hvalue
  exact ⟨hvalue, hrest⟩

theorem text_injective {a b : Instant} (ha : Fits a) (hb : Fits b) (h : a.text = b.text) :
    a = b := by
  rw [text_of_fits ha, text_of_fits hb] at h
  obtain ⟨hyear, hmonth, hday, hhour, hminute, hsecond, hfraction⟩ := ha
  obtain ⟨hyear', hmonth', hday', hhour', hminute', hsecond', hfraction'⟩ := hb
  obtain ⟨eyear, h⟩ := fixedDigits_append_inj (by omega) (by omega) h
  obtain ⟨emonth, h⟩ := fixedDigits_append_inj (by omega) (by omega) (List.cons.inj h).2
  obtain ⟨eday, h⟩ := fixedDigits_append_inj (by omega) (by omega) (List.cons.inj h).2
  obtain ⟨ehour, h⟩ := fixedDigits_append_inj (by omega) (by omega) (List.cons.inj h).2
  obtain ⟨eminute, h⟩ := fixedDigits_append_inj (by omega) (by omega) (List.cons.inj h).2
  obtain ⟨esecond, h⟩ := fixedDigits_append_inj (by omega) (by omega) (List.cons.inj h).2
  obtain ⟨efraction, -⟩ := fixedDigits_append_inj (by omega) (by omega) (List.cons.inj h).2
  obtain ⟨⟨year, month, day⟩, hour, minute, second, fraction⟩ := a
  obtain ⟨⟨year', month', day'⟩, hour', minute', second', fraction'⟩ := b
  simp only at *
  have hdate : year = year' ∧ hour = hour' ∧ minute = minute' ∧ second = second' ∧
      fraction = fraction' := by omega
  obtain ⟨rfl, rfl, rfl, rfl, rfl⟩ := hdate
  rw [emonth, eday]

end Instant

-- ---------------------------------------------------------------------------
-- The renderer
-- ---------------------------------------------------------------------------

variable {outside failed : String}

theorem canonicalTimestamptz_eq_ok {microseconds : Int64} {text : Bytes} :
    canonicalTimestamptzWith outside failed microseconds = .ok text ↔
      isTimestamptzMicroseconds microseconds = true ∧
        (Instant.ofMicroseconds microseconds.toInt).text = text := by
  simp only [canonicalTimestamptzWith, bind_eq_ok, throwIf_eq_ok, pure_eq_ok, Bool.not_eq_false']
  constructor
  · rintro ⟨-, hrange, -, -, rfl⟩
    exact ⟨hrange, rfl⟩
  · rintro ⟨hrange, rfl⟩
    have hlength := Instant.length_text (Instant.fits_ofMicroseconds hrange)
    exact ⟨(), hrange, (), by simp [hlength], rfl⟩

theorem canonicalTimestamptz_total {microseconds : Int64} :
    (∃ text, canonicalTimestamptzWith outside failed microseconds = .ok text) ↔
      isTimestamptzMicroseconds microseconds = true := by
  simp only [canonicalTimestamptz_eq_ok, exists_and_left, exists_eq', and_true]

theorem canonicalTimestamptz_injective {a b : Int64} {text : Bytes}
    (ha : canonicalTimestamptzWith outside failed a = .ok text)
    (hb : canonicalTimestamptzWith outside failed b = .ok text) : a = b := by
  obtain ⟨harange, hatext⟩ := canonicalTimestamptz_eq_ok.mp ha
  obtain ⟨hbrange, hbtext⟩ := canonicalTimestamptz_eq_ok.mp hb
  have hinstant := Instant.text_injective (Instant.fits_ofMicroseconds harange)
    (Instant.fits_ofMicroseconds hbrange) (hatext.trans hbtext.symm)
  have hmicros := congrArg Instant.microseconds hinstant
  rw [Instant.microseconds_ofMicroseconds, Instant.microseconds_ofMicroseconds] at hmicros
  exact Int64.toInt_inj.mp hmicros

/-- Digits, the two separators of each part, `T` and `Z`. -/
theorem mem_canonicalTimestamptz {microseconds : Int64} {text : Bytes}
    (h : canonicalTimestamptzWith outside failed microseconds = .ok text) :
    ∀ b ∈ text, isDigit b = true ∨ b = byte '-' ∨ b = byte ':' ∨ b = byte '.' ∨ b = byte 'T' ∨
      b = byte 'Z' := by
  obtain ⟨hrange, rfl⟩ := canonicalTimestamptz_eq_ok.mp h
  rw [Instant.text_of_fits (Instant.fits_ofMicroseconds hrange)]
  intro b hb
  simp only [List.mem_append, List.mem_cons, List.not_mem_nil, or_false] at hb
  rcases hb with hb | rfl | hb | rfl | hb | rfl | hb | rfl | hb | rfl | hb | rfl | hb | rfl <;>
    first
      | exact Or.inl (isDigit_fixedDigits _ _ b hb)
      | simp

end Cuac.Connector

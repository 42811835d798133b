import Mathlib.Data.FinEnum
import Mathlib.Order.Bounds.Defs
import Cuac.Runtime.HttpDateForms

/-!
# Runtime — what guidance comes to

Every parser answers without an overflow. `denotedDelay` is the delay a value asks
for, and the loop over the observations collects the delays of `Sound` ones, of
distinct fields, and keeps the longest. What it keeps is `Collected`, which says
nothing about the order.

Main results:

* `answers_tryParseHttpDate`, `observationDelay_eq` — the parsers and what they return.
* `guidanceFrom_of`, `guidanceFrom_refused` — the loop.
* `guidance_parsed` — the result for every input and every order of its observations.
-/

namespace Cuac.Runtime.Resilience

open Cuac.Lib
open Cuac.Lib.Watched
open Cuac.Connector

/-- A value of `int64_t`. -/
def IsInt64 (n : Int) : Prop := -9223372036854775808 ≤ n ∧ n ≤ 9223372036854775807

-- ---------------------------------------------------------------------------
-- Dates answer
-- ---------------------------------------------------------------------------

/-- A timestamp the parsers can build. -/
def IsTimestamp (milliseconds : Int) : Prop :=
  -62135596800000 ≤ milliseconds ∧ milliseconds ≤ 253405000000000

theorem answers_tryBuildHttpTimestamp (weekday : Int) {year month day hour minute second : Nat}
    (hyear : year < 10000) :
    Answers IsTimestamp (tryBuildHttpTimestamp weekday year month day hour minute second) := by
  have hbuilt := @tryBuildHttpTimestamp_eq weekday ⟨year, month, day⟩
    ⟨by simp only; omega, by simp only; omega⟩ hour minute second
  simp only at hbuilt
  rw [hbuilt]
  split
  · rename_i hnames
    obtain ⟨hfirst, hdate, hhour, hminute, hsecond, -⟩ := hnames
    have hdays := gregorianDay_range ⟨hfirst, by simp only; omega⟩ hdate
    refine Answers.ok ⟨?_, ?_⟩ <;> simp only [instantMilliseconds] at hdays ⊢ <;> omega
  · exact Answers.refused

theorem monthIndex_eq (text : Bytes) (offset : Nat) : ∃ m : Nat, monthIndex text offset = m := by
  unfold monthIndex
  split
  · rename_i index _
    exact ⟨index + 1, by push_cast; rfl⟩
  · exact ⟨0, rfl⟩

theorem answers_tryParseImfFixdate (text : Bytes) :
    Answers IsTimestamp (tryParseImfFixdate text) := by
  obtain ⟨month, hmonth⟩ := monthIndex_eq text 8
  unfold tryParseImfFixdate
  rw [hmonth]
  refine Answers.refuseIf fun _ => Answers.refuseIf fun _ => ?_
  refine (answers_tryParseTwoDigits text 5).bind ?_
  rintro _ ⟨day, -, rfl⟩
  refine (answers_tryParseFourDigits text 12).bind ?_
  rintro _ ⟨year, hyear, rfl⟩
  refine (answers_tryParseTwoDigits text 17).bind ?_
  rintro _ ⟨hour, -, rfl⟩
  refine (answers_tryParseTwoDigits text 20).bind ?_
  rintro _ ⟨minute, -, rfl⟩
  refine (answers_tryParseTwoDigits text 23).bind ?_
  rintro _ ⟨second, -, rfl⟩
  exact Answers.refuseIf fun _ => answers_tryBuildHttpTimestamp _ hyear

theorem answers_asctimeDay (text : Bytes) :
    Answers (fun n : Int => ∃ m : Nat, n = m) (asctimeDay text) := by
  unfold asctimeDay
  split
  · rename_i hblank
    simp only [Bool.and_eq_true, beq_iff_eq] at hblank
    have hrange := digit_range hblank.2
    rw [int32s_ok (by
      simp only [List.mem_cons, List.not_mem_nil, or_false, forall_eq]
      omega)]
    refine Answers.ok ⟨(byteAt text 9).toNat - 48, ?_⟩
    simp only [List.getLastD_cons, List.getLastD_nil]
    omega
  · refine (answers_tryParseTwoDigits text 8).imp ?_
    rintro _ ⟨day, -, rfl⟩
    exact ⟨day, rfl⟩

theorem answers_tryParseAsctimeDate (text : Bytes) :
    Answers IsTimestamp (tryParseAsctimeDate text) := by
  obtain ⟨month, hmonth⟩ := monthIndex_eq text 4
  unfold tryParseAsctimeDate
  rw [hmonth]
  refine Answers.refuseIf fun _ => ?_
  refine (answers_asctimeDay text).bind ?_
  rintro _ ⟨day, rfl⟩
  refine Answers.refuseIf fun _ => ?_
  refine (answers_tryParseTwoDigits text 11).bind ?_
  rintro _ ⟨hour, -, rfl⟩
  refine (answers_tryParseTwoDigits text 14).bind ?_
  rintro _ ⟨minute, -, rfl⟩
  refine (answers_tryParseTwoDigits text 17).bind ?_
  rintro _ ⟨second, -, rfl⟩
  refine (answers_tryParseFourDigits text 20).bind ?_
  rintro _ ⟨year, hyear, rfl⟩
  exact answers_tryBuildHttpTimestamp _ hyear

theorem answers_resolveYear {receipt : CivilTime} {shortYear : Nat} (later : Bool)
    (hreceipt : 1 ≤ receipt.year ∧ receipt.year ≤ 9999) (hshort : shortYear < 100) :
    Answers (fun _ => True) (resolveYear receipt shortYear later) := by
  have hcentury := Int.tdiv_eq_ediv_of_nonneg (b := 100) (by omega : 0 ≤ receipt.year)
  rw [resolveYear, hcentury, int64s_ok (by
    simp only [List.mem_cons, List.not_mem_nil, or_false, forall_eq_or_imp, forall_eq]
    omega), ok_bind]
  simp only [List.getLastD_cons, List.getLastD_nil]
  rw [int64_ok (by omega), ok_bind, int64_ok (by split <;> omega), ok_bind, int64_ok (by omega),
    ok_bind,
    int64_ok (by split <;> split <;> omega)]
  exact Answers.ok trivial

theorem answers_tryParseRfc850Date (text : Bytes) {wall : Int} (hwall : IsInt64 wall) :
    Answers IsTimestamp (tryParseRfc850Date text wall) := by
  unfold tryParseRfc850Date
  refine (Answers.ofOption (P := fun _ => True) fun _ _ => trivial).bind ?_
  rintro ⟨weekday, length⟩ -
  dsimp only
  obtain ⟨month, hmonth⟩ := monthIndex_eq text (length + 5)
  rw [hmonth]
  refine Answers.refuseIf fun _ => Answers.refuseIf fun _ => ?_
  refine (answers_tryParseTwoDigits text _).bind ?_
  rintro _ ⟨day, -, rfl⟩
  refine (answers_tryParseTwoDigits text _).bind ?_
  rintro _ ⟨shortYear, hshort, rfl⟩
  refine (answers_tryParseTwoDigits text _).bind ?_
  rintro _ ⟨hour, -, rfl⟩
  refine (answers_tryParseTwoDigits text _).bind ?_
  rintro _ ⟨minute, -, rfl⟩
  refine (answers_tryParseTwoDigits text _).bind ?_
  rintro _ ⟨second, -, rfl⟩
  rw [tryCivilTimeFromMilliseconds_eq hwall]
  split
  · rename_i hyears
    rw [ok_bind]
    refine (answers_resolveYear _ hyears hshort).bind fun year _ => ?_
    refine Answers.refuseIf fun hyear => ?_
    simp only [Bool.or_eq_false_iff, decide_eq_false_iff_not] at hyear
    obtain ⟨n, rfl⟩ : ∃ n : Nat, year = n := ⟨year.toNat, by omega⟩
    exact answers_tryBuildHttpTimestamp _ (by omega)
  · exact Answers.refused

theorem answers_tryParseHttpDate (text : Bytes) {wall : Int} (hwall : IsInt64 wall) :
    Answers IsTimestamp (tryParseHttpDate text wall) :=
  (answers_tryParseImfFixdate text).orElse
    ((answers_tryParseRfc850Date text hwall).orElse (answers_tryParseAsctimeDate text))

-- ---------------------------------------------------------------------------
-- Decimal seconds
-- ---------------------------------------------------------------------------

/-- Reading on from `seen`. -/
def valueFrom (seen : Nat) (digits : Bytes) : Nat :=
  digits.foldl (fun seen b => seen * 10 + (b.toNat - 48)) seen

theorem le_valueFrom (seen : Nat) (digits : Bytes) : seen ≤ valueFrom seen digits := by
  induction digits generalizing seen with
  | nil => exact Nat.le_refl seen
  | cons b digits ih =>
    exact Nat.le_trans (by omega) (ih (seen * 10 + (b.toNat - 48)))

theorem parseDecimalFrom_eq {maximum : Int} (hmaximum : 9 ≤ maximum ∧
    maximum ≤ 18446744073709551615)
    {seen : Nat} (hseen : (seen : Int) ≤ maximum) (digits : Bytes) :
    parseDecimalFrom maximum digits seen =
      if (∀ b ∈ digits, isDigit b = true) ∧ (valueFrom seen digits : Int) ≤ maximum then
        .ok (valueFrom seen digits : Nat)
      else .error .refused := by
  induction digits generalizing seen with
  | nil =>
    rw [if_pos ⟨by simp, hseen⟩]
    rfl
  | cons b digits ih =>
    rw [parseDecimalFrom]
    by_cases hdigit : isDigit b = true
    swap
    · rw [Bool.eq_false_of_not_eq_true hdigit, if_neg (fun h => hdigit (h.1 b List.mem_cons_self))]
      rfl
    have hrange := digit_range hdigit
    rw [hdigit, Bool.not_true, refuseIf_false, ok_bind, int32s_ok (by
      simp only [List.mem_cons, List.not_mem_nil, or_false, forall_eq]
      omega), ok_bind]
    simp only [List.getLastD_cons, List.getLastD_nil]
    rw [uint64s_ok (by
      simp only [List.mem_cons, List.not_mem_nil, or_false, forall_eq_or_imp, forall_eq]
      omega), ok_bind]
    simp only [List.getLastD_cons, List.getLastD_nil]
    have hnext : (seen : Int) * 10 + ((b.toNat : Int) - 48) =
        ((seen * 10 + (b.toNat - 48) : Nat) : Int) := by omega
    by_cases hroom : (seen : Int) > (maximum - ((b.toNat : Int) - 48)) / 10
    · -- The number is above the maximum already, and reading on does not make it smaller.
      have hover := le_valueFrom (seen * 10 + (b.toNat - 48)) digits
      have hvalue : valueFrom seen (b :: digits) = valueFrom (seen * 10 +
        (b.toNat - 48)) digits := rfl
      rw [if_neg (by rw [hvalue]; omega), decide_eq_true hroom]
      rfl
    · rw [decide_eq_false hroom, refuseIf_false, ok_bind, uint64s_ok (by
        simp only [List.mem_cons, List.not_mem_nil, or_false, forall_eq_or_imp, forall_eq]
        omega), ok_bind]
      simp only [List.getLastD_cons, List.getLastD_nil]
      rw [hnext, ih (by omega)]
      simp only [List.forall_mem_cons, hdigit, true_and]
      rfl

/-- Decimal seconds whose milliseconds a signed value holds. -/
def decimalSeconds (value : Bytes) : Option Int :=
  if value ≠ [] ∧ (∀ b ∈ value, isDigit b = true) ∧ (Lib.value value : Int) ≤ 9223372036854775 then
    some (Lib.value value)
  else none

theorem tryParseDecimal_eq (value : Bytes) :
    tryParseDecimal value maximumSeconds = ofOption (decimalSeconds value) := by
  have hmaximum : maximumSeconds = 9223372036854775 := by decide
  rw [tryParseDecimal, hmaximum, decimalSeconds]
  by_cases hempty : value = []
  · subst hempty
    rfl
  · have hparsed := @parseDecimalFrom_eq 9223372036854775 (by decide) 0 (by decide) value
    have hvalue : valueFrom 0 value = Lib.value value := rfl
    rw [show value.isEmpty = false by simpa using hempty, refuseIf_false, ok_bind]
    refine hparsed.trans ?_
    rw [hvalue]
    by_cases hkept : (∀ b ∈ value, isDigit b = true) ∧ (Lib.value value : Int) ≤ 9223372036854775
    · rw [if_pos hkept, if_pos ⟨hempty, hkept⟩]
      rfl
    · rw [if_neg hkept, if_neg (fun h => hkept h.2)]
      rfl

theorem decimalSeconds_range {value : Bytes} {seconds : Int} (h : decimalSeconds value =
    some seconds) :
    0 ≤ seconds ∧ seconds ≤ 9223372036854775 := by
  unfold decimalSeconds at h
  split at h
  · rename_i hkept
    obtain rfl := Option.some.inj h
    exact ⟨by omega, hkept.2.2⟩
  · cases h

-- ---------------------------------------------------------------------------
-- Delays
-- ---------------------------------------------------------------------------

theorem tryAbsoluteDelay_eq {target reference : Int} (htarget : IsInt64 target)
    (hreference : IsInt64 reference) :
    tryAbsoluteDelay target reference =
      if max 0 (target - reference) ≤ 9223372036854775807 then .ok (max 0 (target - reference))
      else .error .refused := by
  obtain ⟨hlow, hhigh⟩ := htarget
  obtain ⟨hlow', hhigh'⟩ := hreference
  unfold tryAbsoluteDelay
  by_cases hpast : target ≤ reference
  · rw [if_pos hpast, show max 0 (target - reference) = 0 by omega]
    rfl
  · rw [if_neg hpast, show max 0 (target - reference) = target - reference by omega]
    by_cases hnegative : reference < 0
    · rw [if_pos hnegative, int64_ok (by omega), ok_bind]
      by_cases hfar : target > 9223372036854775807 + reference
      · rw [decide_eq_true hfar, if_neg (by omega)]
        rfl
      · rw [decide_eq_false hfar, refuseIf_false, ok_bind, int64_ok (by omega), ok_bind,
          uint64_ok (by omega), if_pos (by omega)]
    · rw [if_neg hnegative, int64_ok (by omega), ok_bind, uint64_ok (by omega), if_pos (by omega)]

theorem tryAddDelay_eq {steady delay : Int} (hsteady : IsInt64 steady) (hdelay : 0 ≤ delay) :
    tryAddDelay steady delay =
      if delay ≤ 9223372036854775807 ∧ steady + delay ≤ 9223372036854775807 then .ok (steady +
        delay)
      else .error .refused := by
  obtain ⟨hlow, hhigh⟩ := hsteady
  unfold tryAddDelay
  by_cases hlong : delay > 9223372036854775807
  · rw [decide_eq_true hlong, if_neg (by omega)]
    rfl
  · rw [decide_eq_false hlong, refuseIf_false, ok_bind, int64_ok (by omega), ok_bind]
    by_cases hlate : steady > 9223372036854775807 - delay
    · rw [decide_eq_true hlate, if_neg (by omega)]
      rfl
    · rw [decide_eq_false hlate, refuseIf_false, ok_bind, int64_ok (by omega), if_pos (by omega)]

/-- The absolute time a text names, where it is a date of one of the three forms. -/
def httpDate (value : Bytes) (wall : Int) : Option Int := (tryParseHttpDate value wall).toOption

/-- The date of a text is the instant that the text denotes in one of the three forms. -/
theorem httpDate_eq_some {value : Bytes} {wall t : Int} (hwall : IsInt64 wall) :
    httpDate value wall = some t ↔ Denotes wall value t := by
  rw [← tryParseHttpDate_eq_ok hwall, httpDate]
  cases tryParseHttpDate value wall with
  | ok parsed => simp only [Except.toOption, Option.some.injEq, Except.ok.injEq]
  | error stop => simp only [Except.toOption, reduceCtorEq]

theorem tryParseHttpDate_eq (value : Bytes) {wall : Int} (hwall : IsInt64 wall) :
    tryParseHttpDate value wall = ofOption (httpDate value wall) ∧
      ∀ t, httpDate value wall = some t → IsInt64 t := by
  unfold httpDate
  rcases answers_tryParseHttpDate value hwall with hrefused | ⟨t, ht, hrange⟩
  · rw [hrefused]
    exact ⟨rfl, fun t h => (nomatch h)⟩
  · rw [ht]
    refine ⟨rfl, fun t' h => ?_⟩
    obtain rfl := Option.some.inj h
    unfold IsTimestamp at hrange
    unfold IsInt64
    omega

/-- The delay a value denotes: seconds from now, or a time on the clock of the `Date`
field or the receipt. -/
def denotedDelay (format : RateLimitGuidanceFormat) (value : Bytes)
  (wall reference : Int) : Option Int :=
  match format with
  | .deltaSeconds => (decimalSeconds value).map (· * 1000)
  | .retryAfter =>
    match decimalSeconds value with
    | some seconds => some (seconds * 1000)
    | none => (httpDate value wall).map fun target => max 0 (target - reference)
  | .unixSeconds => (decimalSeconds value).map fun seconds => max 0 (seconds * 1000 - reference)

theorem denotedDelay_nonneg {format : RateLimitGuidanceFormat} {value : Bytes}
    {wall reference delay : Int}
    (h : denotedDelay format value wall reference = some delay) : 0 ≤ delay := by
  unfold denotedDelay at h
  split at h
  · obtain ⟨seconds, hseconds, rfl⟩ := Option.map_eq_some_iff.mp h
    have := decimalSeconds_range hseconds
    omega
  · split at h
    · rename_i seconds hseconds
      obtain rfl := Option.some.inj h
      have := decimalSeconds_range hseconds
      omega
    · obtain ⟨target, -, rfl⟩ := Option.map_eq_some_iff.mp h
      omega
  · obtain ⟨seconds, -, rfl⟩ := Option.map_eq_some_iff.mp h
    omega

/-- What a computation answers when it keeps what it computes below the largest signed
value. -/
def kept (delay? : Option Int) : Option Int := delay?.filter (· ≤ 9223372036854775807)

theorem tryAbsoluteDelay_eq_kept {target reference : Int} (htarget : IsInt64 target)
    (hreference : IsInt64 reference) :
    tryAbsoluteDelay target reference = ofOption (kept (some (max 0 (target - reference)))) := by
  rw [tryAbsoluteDelay_eq htarget hreference, kept, Option.filter_some]
  split <;> rename_i hfits
  · rw [decide_eq_true hfits]
    rfl
  · rw [decide_eq_false hfits]
    rfl

theorem observationDelay_eq (format : RateLimitGuidanceFormat) (value : Bytes)
    {wall reference : Int}
    (hwall : IsInt64 wall) (hreference : IsInt64 reference) :
    observationDelay format value wall reference =
      ofOption (kept (denotedDelay format value wall reference)) := by
  have hmilliseconds {seconds : Int} (h : decimalSeconds value = some seconds) :
      uint64 (seconds * 1000) = ofOption (kept (some (seconds * 1000))) ∧
      IsInt64 (seconds * 1000) := by
    have hrange := decimalSeconds_range h
    rw [uint64_ok (by omega), kept, Option.filter_some, decide_eq_true (by omega)]
    exact ⟨rfl, by unfold IsInt64; omega⟩
  unfold observationDelay denotedDelay
  cases format with
  | deltaSeconds =>
    simp only [tryParseDecimal_eq]
    match hseconds : decimalSeconds value with
    | none => rfl
    | some seconds => exact (hmilliseconds hseconds).1
  | retryAfter =>
    obtain ⟨hdate, hrange⟩ := tryParseHttpDate_eq value hwall
    simp only [tryParseDecimal_eq, hdate]
    match hseconds : decimalSeconds value with
    | some seconds =>
      rw [ofOption, ok_bind, (hmilliseconds hseconds).1]
      have hrange := decimalSeconds_range hseconds
      rw [kept, Option.filter_some, decide_eq_true (by omega)]
      rfl
    | none =>
      match htarget : httpDate value wall with
      | none => rfl
      | some target => exact tryAbsoluteDelay_eq_kept (hrange target htarget) hreference
  | unixSeconds =>
    simp only [tryParseDecimal_eq]
    match hseconds : decimalSeconds value with
    | none => rfl
    | some seconds =>
      have hrange := decimalSeconds_range hseconds
      rw [ofOption, ok_bind, uint64_ok (by omega), ok_bind, int64_ok (by omega), ok_bind]
      exact tryAbsoluteDelay_eq_kept (hmilliseconds hseconds).2 hreference

-- ---------------------------------------------------------------------------
-- One observation
-- ---------------------------------------------------------------------------

/-- The delay of a value, if the time it makes eligible can be represented. -/
def observedDelay (receipt : RateLimitClockReceipt) (reference : Int)
  (format : RateLimitGuidanceFormat)
    (value : Bytes) : Option Int :=
  (denotedDelay format value receipt.wallMilliseconds reference).filter fun delay =>
    delay ≤ 9223372036854775807 ∧ receipt.steadyMilliseconds + delay ≤ 9223372036854775807

/-- An observation with a name, at most one value, and a delay for it. -/
structure Sound (receipt : RateLimitClockReceipt) (reference : Int)
    (observation : RateLimitGuidanceObservation) : Prop where
  named : observation.canonicalFieldName ≠ []
  single : observation.values.length ≤ 1
  parsed : ∀ value ∈ observation.values,
    (observedDelay receipt reference observation.format value).isSome = true

/-- The delays of the values that are present. -/
def presentDelays (receipt : RateLimitClockReceipt) (reference : Int)
    (guidance : List RateLimitGuidanceObservation) : List Int :=
  guidance.flatMap fun observation =>
    observation.values.filterMap (observedDelay receipt reference observation.format)

variable {receipt : RateLimitClockReceipt} {reference : Int}

theorem observedDelay_nonneg {format : RateLimitGuidanceFormat} {value : Bytes} {delay : Int}
    (h : observedDelay receipt reference format value = some delay) : 0 ≤ delay :=
  denotedDelay_nonneg (Option.filter_eq_some_iff.mp h).1

def LatestGuidance.observeAll (steady : Int) (latest : LatestGuidance) (delays : List Int) :
    LatestGuidance :=
  delays.foldl (fun latest delay => latest.observe delay (steady + delay)) latest

/-- A value is parsed, and the time it makes eligible represented, in one. -/
theorem observe_value (latest : LatestGuidance) (format : RateLimitGuidanceFormat) (value : Bytes)
    (hwall : IsInt64 receipt.wallMilliseconds) (hsteady : IsInt64 receipt.steadyMilliseconds)
    (hreference : IsInt64 reference) :
    (do
      let delay ← observationDelay format value receipt.wallMilliseconds reference
      let eligible ← tryAddDelay receipt.steadyMilliseconds delay
      pure (latest.observe delay eligible)) =
    match observedDelay receipt reference format value with
    | some delay => .ok (latest.observe delay (receipt.steadyMilliseconds + delay))
    | none => .error .refused := by
  rw [observationDelay_eq format value hwall hreference, observedDelay]
  match hdelay : denotedDelay format value receipt.wallMilliseconds reference with
  | none => rfl
  | some delay =>
    have hnonneg := denotedDelay_nonneg hdelay
    rw [kept, Option.filter_some, Option.filter_some]
    by_cases hfits : delay ≤ 9223372036854775807
    · rw [decide_eq_true hfits, if_pos rfl, ofOption, ok_bind, tryAddDelay_eq hsteady hnonneg]
      by_cases hlast : receipt.steadyMilliseconds + delay ≤ 9223372036854775807
      · rw [if_pos ⟨hfits, hlast⟩, if_pos (decide_eq_true ⟨hfits, hlast⟩)]
        rfl
      · rw [if_neg (fun h => hlast h.2), if_neg (by simp [hlast])]
        rfl
    · rw [decide_eq_false hfits, if_neg (by decide), if_neg (by simp [hfits])]
      rfl

/-- A new field, with a name and at most one value. -/
def Fresh (prior : List RateLimitGuidanceObservation) (observation : RateLimitGuidanceObservation) :
    Prop :=
  ∀ earlier ∈ prior, earlier.canonicalFieldName ≠ observation.canonicalFieldName

theorem observationGuard_eq_false {prior : List RateLimitGuidanceObservation}
    {observation : RateLimitGuidanceObservation} :
    (observation.canonicalFieldName.isEmpty ||
      hasDuplicateField prior observation.canonicalFieldName ||
      decide (observation.values.length > 1)) = false ↔
    observation.canonicalFieldName ≠ [] ∧ Fresh prior observation ∧
    observation.values.length ≤ 1 := by
  simp [hasDuplicateField, Fresh, and_assoc]

section Turn

variable (hwall : IsInt64 receipt.wallMilliseconds) (hsteady : IsInt64 receipt.steadyMilliseconds)
  (hreference : IsInt64 reference)
include hwall hsteady hreference

theorem observeGuidance_of {prior : List RateLimitGuidanceObservation}
    {observation : RateLimitGuidanceObservation} (latest : LatestGuidance)
    (hsound : Sound receipt reference observation) (hfresh : Fresh prior observation) :
    observeGuidance receipt reference prior observation latest =
      .ok (latest.observeAll receipt.steadyMilliseconds
        (presentDelays receipt reference [observation])) := by
  obtain ⟨hnamed, hsingle, hparsed⟩ := hsound
  rw [observeGuidance, observationGuard_eq_false.mpr ⟨hnamed, hfresh, hsingle⟩, refuseIf_false,
    ok_bind]
  rw [presentDelays, List.flatMap_singleton]
  match hvalues : observation.values with
  | [] => rfl
  | value :: rest =>
    rw [hvalues] at hsingle hparsed
    obtain rfl : rest = [] := by simpa using hsingle
    obtain ⟨delay, hdelay⟩ := Option.isSome_iff_exists.mp (hparsed value (by simp))
    dsimp only
    rw [observe_value latest observation.format value hwall hsteady hreference, hdelay,
      List.filterMap_cons_some hdelay]
    rfl

theorem observeGuidance_refused {prior : List RateLimitGuidanceObservation}
    {observation : RateLimitGuidanceObservation} (latest : LatestGuidance)
    (h : ¬(Sound receipt reference observation ∧ Fresh prior observation)) :
    observeGuidance receipt reference prior observation latest = .error .refused := by
  by_cases hguard : observation.canonicalFieldName ≠ [] ∧ Fresh prior observation ∧
      observation.values.length ≤ 1
  · obtain ⟨hnamed, hfresh, hsingle⟩ := hguard
    rw [observeGuidance, observationGuard_eq_false.mpr ⟨hnamed, hfresh, hsingle⟩, refuseIf_false,
      ok_bind]
    match hvalues : observation.values with
    | [] => exact absurd ⟨⟨hnamed, hsingle, by simp [hvalues]⟩, hfresh⟩ h
    | value :: rest =>
      obtain rfl : rest = [] := by
        rw [hvalues] at hsingle
        simpa using hsingle
      dsimp only
      rw [observe_value latest observation.format value hwall hsteady hreference]
      match hdelay : observedDelay receipt reference observation.format value with
      | none => rfl
      | some delay =>
        refine absurd ⟨⟨hnamed, hsingle, ?_⟩, hfresh⟩ h
        intro other hother
        rw [hvalues, List.mem_singleton] at hother
        rw [hother, hdelay]
        rfl
  · rw [observeGuidance, Bool.eq_true_of_not_eq_false (mt observationGuard_eq_false.mp hguard)]
    rfl

-- ---------------------------------------------------------------------------
-- The loop
-- ---------------------------------------------------------------------------

/-- The loop collects the delays of sound observations of distinct fields. -/
theorem guidanceFrom_of {prior rest : List RateLimitGuidanceObservation} (latest : LatestGuidance)
    (hsound : ∀ observation ∈ rest, Sound receipt reference observation)
    (hdistinct : (rest.map (·.canonicalFieldName)).Nodup)
    (hfresh : ∀ observation ∈ rest, Fresh prior observation) :
    guidanceFrom receipt reference prior rest latest =
      .ok (latest.observeAll receipt.steadyMilliseconds (presentDelays receipt reference rest)) := by
  induction rest generalizing prior latest with
  | nil => rfl
  | cons observation rest ih =>
    rw [List.map_cons, List.nodup_cons] at hdistinct
    rw [guidanceFrom, observeGuidance_of hwall hsteady hreference latest (hsound _ List.mem_cons_self)
      (hfresh _ List.mem_cons_self), ok_bind,
      ih _ (fun o ho => hsound o (List.mem_cons_of_mem _ ho)) hdistinct.2 ?_]
    · rw [LatestGuidance.observeAll, LatestGuidance.observeAll, ← List.foldl_append]
      simp only [presentDelays, List.flatMap_cons, List.flatMap_nil, List.append_nil]
      rfl
    · intro other hother earlier hearlier
      rcases List.mem_append.mp hearlier with hearlier | hearlier
      · exact hfresh other (List.mem_cons_of_mem _ hother) earlier hearlier
      · rw [List.mem_singleton.mp hearlier]
        intro hsame
        exact hdistinct.1 (hsame ▸ List.mem_map_of_mem hother)

theorem guidanceFrom_refused {prior rest : List RateLimitGuidanceObservation}
    (latest : LatestGuidance)
    (h : ¬((∀ observation ∈ rest, Sound receipt reference observation) ∧
      (rest.map (·.canonicalFieldName)).Nodup ∧ ∀ observation ∈ rest, Fresh prior observation)) :
    guidanceFrom receipt reference prior rest latest = .error .refused := by
  induction rest generalizing prior latest with
  | nil => exact absurd ⟨by simp, by simp, by simp⟩ h
  | cons observation rest ih =>
    rw [guidanceFrom]
    by_cases hfirst : Sound receipt reference observation ∧ Fresh prior observation
    · rw [observeGuidance_of hwall hsteady hreference latest hfirst.1 hfirst.2, ok_bind]
      refine ih _ ?_
      rintro ⟨hsound, hdistinct, hfresh⟩
      refine h ⟨List.forall_mem_cons.mpr ⟨hfirst.1, hsound⟩, ?_,
        List.forall_mem_cons.mpr ⟨hfirst.2, fun o ho earlier hearlier =>
          hfresh o ho earlier (List.mem_append_left _ hearlier)⟩⟩
      rw [List.map_cons, List.nodup_cons]
      refine ⟨?_, hdistinct⟩
      intro hmem
      obtain ⟨other, hother, hsame⟩ := List.mem_map.mp hmem
      exact hfresh other hother observation (by simp) hsame.symm
    · rw [observeGuidance_refused hwall hsteady hreference latest hfirst]
      rfl

end Turn

-- ---------------------------------------------------------------------------
-- The latest
-- ---------------------------------------------------------------------------

/-- What has been found after some delays: the longest, and when it ends. -/
structure Collected (steady : Int) (delays : List Int) (latest : LatestGuidance) : Prop where
  found : latest.found = true ↔ delays ≠ []
  eligible : latest.eligible = steady + latest.delay
  longest : ∀ delay ∈ delays, delay ≤ latest.delay
  attained : delays ≠ [] → latest.delay ∈ delays
  start : delays = [] → latest.delay = 0

theorem Collected.observe {steady delay : Int} {delays : List Int} {latest : LatestGuidance}
    (h : Collected steady delays latest) (hdelay : 0 ≤ delay) :
    Collected steady (delays ++ [delay]) (latest.observe delay (steady + delay)) := by
  unfold LatestGuidance.observe
  split
  · rename_i hlonger
    refine ⟨by simp, rfl, ?_, by simp, by simp⟩
    intro other hother
    rcases List.mem_append.mp hother with hother | hother
    · have := h.longest other hother
      simp only
      omega
    · rw [List.mem_singleton.mp hother]
  · rename_i hkept
    refine ⟨by simp, h.eligible, ?_, ?_, by simp⟩
    · intro other hother
      rcases List.mem_append.mp hother with hother | hother
      · exact h.longest other hother
      · rw [List.mem_singleton.mp hother]
        simp only
        omega
    · intro _
      by_cases hnone : delays = []
      · have hzero := h.start hnone
        simp only [hnone, List.nil_append, List.mem_singleton]
        omega
      · exact List.mem_append_left _ (h.attained hnone)

theorem collected_observeAll {steady : Int} {seen delays : List Int} {latest : LatestGuidance}
    (h : Collected steady seen latest) (hdelays : ∀ delay ∈ delays, 0 ≤ delay) :
    Collected steady (seen ++ delays) (latest.observeAll steady delays) := by
  induction delays generalizing seen latest with
  | nil => simpa [LatestGuidance.observeAll] using h
  | cons delay delays ih =>
    have hrest := ih (h.observe (hdelays delay List.mem_cons_self))
      fun d hd => hdelays d (List.mem_cons_of_mem _ hd)
    rwa [List.append_assoc] at hrest

theorem presentDelays_nonneg {guidance : List RateLimitGuidanceObservation} :
    ∀ delay ∈ presentDelays receipt reference guidance, 0 ≤ delay := by
  intro delay hdelay
  obtain ⟨observation, -, hmem⟩ := List.mem_flatMap.mp hdelay
  obtain ⟨value, -, hvalue⟩ := List.mem_filterMap.mp hmem
  exact observedDelay_nonneg hvalue

-- ---------------------------------------------------------------------------
-- The result
-- ---------------------------------------------------------------------------

/-- The instant delays to absolute times are counted from. -/
def DateReference (input : RateLimitGuidanceInput) (reference : Int) : Prop :=
  input.dateValues = [] ∧ reference = input.receipt.wallMilliseconds ∨
    ∃ value, input.dateValues = [value] ∧ httpDate value input.receipt.wallMilliseconds =
    some reference

/-- At most one `Date`, which is one; sound observations of distinct fields. -/
def WellFormed (input : RateLimitGuidanceInput) (reference : Int) : Prop :=
  DateReference input reference ∧
    (∀ observation ∈ input.guidance, Sound input.receipt reference observation) ∧
    (input.guidance.map (·.canonicalFieldName)).Nodup

theorem dateReferenceOf_eq {input : RateLimitGuidanceInput}
    (hwall : IsInt64 input.receipt.wallMilliseconds) :
    (∃ reference, DateReference input reference ∧ IsInt64 reference ∧
      (∀ other, DateReference input other → other = reference) ∧
      dateReferenceOf input.dateValues input.receipt = .ok reference) ∨
    (∀ reference, ¬DateReference input reference) ∧
      dateReferenceOf input.dateValues input.receipt = .error .refused := by
  unfold DateReference dateReferenceOf
  match hvalues : input.dateValues with
  | [] =>
    left
    exact ⟨_, Or.inl ⟨rfl, rfl⟩, hwall, by simp, rfl⟩
  | [value] =>
    obtain ⟨hparsed, hrange⟩ := tryParseHttpDate_eq value hwall
    dsimp only
    rw [hparsed]
    match hdate : httpDate value input.receipt.wallMilliseconds with
    | none =>
      right
      refine ⟨?_, rfl⟩
      rintro reference (⟨h, -⟩ | ⟨other, h, hother⟩)
      · cases h
      · obtain rfl : value = other := by simpa using h
        rw [hdate] at hother
        cases hother
    | some reference =>
      left
      refine ⟨reference, Or.inr ⟨value, rfl, hdate⟩, hrange reference hdate, ?_, rfl⟩
      rintro other (⟨h, -⟩ | ⟨value', h, hother⟩)
      · cases h
      · obtain rfl : value = value' := by simpa using h
        rw [hdate] at hother
        exact (Option.some.inj hother).symm
  | _ :: _ :: _ =>
    right
    refine ⟨?_, rfl⟩
    rintro reference (⟨h, -⟩ | ⟨value, h, -⟩) <;> cases h

theorem parseRateLimitGuidance_malformed {input : RateLimitGuidanceInput}
    (hwall : IsInt64 input.receipt.wallMilliseconds)
    (hsteady : IsInt64 input.receipt.steadyMilliseconds) (h : ∀ reference,
      ¬WellFormed input reference) :
    parseRateLimitGuidance input = .ok (guidanceFailure .malformedGuidance) := by
  unfold parseRateLimitGuidance
  rcases dateReferenceOf_eq hwall with ⟨reference, hdate, hrange, -, hread⟩ | ⟨-, hrefused⟩
  · rw [hread, ok_bind, guidanceFrom_refused hwall hsteady hrange _ (fun hall =>
      h reference ⟨hdate, hall.1, hall.2.1⟩)]
    rfl
  · rw [hrefused]
    rfl

theorem parseRateLimitGuidance_wellFormed {input : RateLimitGuidanceInput} {reference : Int}
    (hwall : IsInt64 input.receipt.wallMilliseconds)
    (hsteady : IsInt64 input.receipt.steadyMilliseconds) (h : WellFormed input reference) :
    ∃ latest, Collected input.receipt.steadyMilliseconds
        (presentDelays input.receipt reference input.guidance) latest ∧
      parseRateLimitGuidance input =
        .ok (concludeGuidance latest input.maximumDelayMilliseconds) := by
  obtain ⟨hdate, hsound, hdistinct⟩ := h
  rcases dateReferenceOf_eq hwall with ⟨only, -, hrange, hunique, hread⟩ | ⟨hnone, -⟩
  · obtain rfl := hunique reference hdate
    have hstart : Collected input.receipt.steadyMilliseconds []
        ⟨false, 0, input.receipt.steadyMilliseconds⟩ := by
      refine ⟨by simp, by simp, by simp, by simp, by simp⟩
    refine ⟨_, collected_observeAll hstart presentDelays_nonneg, ?_⟩
    unfold parseRateLimitGuidance
    rw [hread, ok_bind, guidanceFrom_of hwall hsteady hrange _ hsound hdistinct (by simp [Fresh])]
    rfl
  · exact absurd hdate (hnone reference)

-- ---------------------------------------------------------------------------
-- The order of the observations
-- ---------------------------------------------------------------------------

/-- What is found does not depend on the order. -/
theorem Collected.eq_of_perm {steady : Int} {delays delays' : List Int}
    {latest latest' : LatestGuidance}
    (h : Collected steady delays latest) (h' : Collected steady delays' latest')
    (hperm : delays.Perm delays') : latest = latest' := by
  have hempty : delays = [] ↔ delays' = [] := by
    constructor
    · rintro rfl
      exact hperm.nil_eq.symm
    · rintro rfl
      exact hperm.eq_nil
  have hfound : latest.found = latest'.found := by
    rw [Bool.eq_iff_iff, h.found, h'.found]
    exact not_congr hempty
  have hdelay : latest.delay = latest'.delay := by
    by_cases hnone : delays = []
    · rw [h.start hnone, h'.start (hempty.mp hnone)]
    · have hle := h'.longest _ (hperm.subset (h.attained hnone))
      have hge := h.longest _ (hperm.symm.subset (h'.attained (mt hempty.mpr hnone)))
      omega
  have heligible : latest.eligible = latest'.eligible := by
    rw [h.eligible, h'.eligible, hdelay]
  obtain ⟨found, delay, eligible⟩ := latest
  simp only at hfound hdelay heligible
  rw [hfound, hdelay, heligible]

/-- An input whose clock readings are the values of their types. -/
def received (guidance : List RateLimitGuidanceObservation) (dateValues : List Bytes)
    (wall steady : Int64) (maximum : UInt64) : RateLimitGuidanceInput where
  guidance := guidance
  dateValues := dateValues
  receipt := ⟨wall.toInt, steady.toInt⟩
  maximumDelayMilliseconds := maximum

variable {guidance : List RateLimitGuidanceObservation} {dateValues : List Bytes}
  {wall steady : Int64} {maximum : UInt64}

theorem isInt64_toInt (n : Int64) : IsInt64 n.toInt := by
  have hlow := n.le_toInt
  have hhigh := n.toInt_lt
  unfold IsInt64
  omega

theorem wellFormed_perm {reordered : List RateLimitGuidanceObservation}
    (h : reordered.Perm guidance) :
    WellFormed (received reordered dateValues wall steady maximum) reference ↔
      WellFormed (received guidance dateValues wall steady maximum) reference := by
  have hnames := (h.map (·.canonicalFieldName)).nodup_iff
  unfold WellFormed
  simp only [received, h.mem_iff, hnames]
  rfl

theorem parseRateLimitGuidance_perm {reordered : List RateLimitGuidanceObservation}
    (h : reordered.Perm guidance) :
    parseRateLimitGuidance (received reordered dateValues wall steady maximum) =
      parseRateLimitGuidance (received guidance dateValues wall steady maximum) := by
  have hwall := isInt64_toInt wall
  have hsteady := isInt64_toInt steady
  by_cases hwell : ∃ reference,
    WellFormed (received guidance dateValues wall steady maximum) reference
  · obtain ⟨reference, hwell⟩ := hwell
    obtain ⟨latest, hcollected, hparsed⟩ :=
      parseRateLimitGuidance_wellFormed hwall hsteady hwell
    obtain ⟨latest', hcollected', hparsed'⟩ :=
      parseRateLimitGuidance_wellFormed hwall hsteady ((wellFormed_perm h).mpr hwell)
    rw [hparsed, hparsed', hcollected'.eq_of_perm hcollected (h.flatMap_right _)]
    rfl
  · rw [parseRateLimitGuidance_malformed hwall hsteady (fun r hr => hwell ⟨r, hr⟩),
      parseRateLimitGuidance_malformed hwall hsteady (fun r hr => hwell ⟨r,
      (wellFormed_perm h).mp hr⟩)]

/-- Nothing is collected where no value is present. -/
theorem presentDelays_eq_nil
    (hsound : ∀ observation ∈ guidance, Sound receipt reference observation) :
    presentDelays receipt reference guidance = [] ↔
      ∀ observation ∈ guidance, observation.values = [] := by
  rw [presentDelays, List.flatMap_eq_nil_iff]
  refine forall_congr' fun observation => forall_congr' fun hmem => ?_
  constructor
  · intro hnone
    match hvalues : observation.values with
    | [] => rfl
    | value :: rest =>
      have hvalue : value ∈ observation.values := by rw [hvalues]; exact List.mem_cons_self
      obtain ⟨delay, hdelay⟩ := Option.isSome_iff_exists.mp ((hsound _ hmem).parsed value hvalue)
      have hpresent : delay ∈ observation.values.filterMap
          (observedDelay receipt reference observation.format) :=
        List.mem_filterMap.mpr ⟨value, hvalue, hdelay⟩
      rw [hnone] at hpresent
      cases hpresent
  · intro hnone
    rw [hnone]
    rfl

theorem presentDelays_le :
    ∀ delay ∈ presentDelays receipt reference guidance, delay ≤ 9223372036854775807 := by
  intro delay hdelay
  obtain ⟨observation, -, hmem⟩ := List.mem_flatMap.mp hdelay
  obtain ⟨value, -, hvalue⟩ := List.mem_filterMap.mp hmem
  have hkept := (Option.filter_eq_some_iff.mp hvalue).2
  simp only [decide_eq_true_eq] at hkept
  exact hkept.1

theorem guidance_parsed (guidance : List RateLimitGuidanceObservation) (dateValues : List Bytes)
    (wall steady : Int64) (maximum : UInt64) :
    (∀ value t, httpDate value wall.toInt = some t ↔ Denotes wall.toInt value t) ∧
    ∃ result, parseRateLimitGuidance (received guidance dateValues wall steady maximum) =
    .ok result ∧
      (∀ reordered, reordered.Perm guidance →
        parseRateLimitGuidance (received reordered dateValues wall steady maximum) = .ok result) ∧
      (result.reason = .malformedGuidance ↔
        ∀ reference, ¬WellFormed (received guidance dateValues wall steady maximum) reference) ∧
      (result.reason = .guidanceMissing ↔
        (∃ reference, WellFormed (received guidance dateValues wall steady maximum) reference) ∧
          ∀ observation ∈ guidance, observation.values = []) ∧
      ∀ reference, WellFormed (received guidance dateValues wall steady maximum) reference →
        (∃ observation ∈ guidance, observation.values ≠ []) →
        ∃ delay, IsGreatest
            {d | d ∈ presentDelays ⟨wall.toInt, steady.toInt⟩ reference guidance} delay ∧
          (result.reason = .guidanceExceedsPolicy ↔ (maximum.toNat : Int) < delay) ∧
          (delay ≤ maximum.toNat → result.reason = .none ∧
            result.eligibleSteadyMilliseconds = steady.toInt + delay ∧
            (result.delayMilliseconds.toNat : Int) = delay ∧
            (result.immediate = true ↔ delay = 0)) := by
  have hwall := isInt64_toInt wall
  have hsteady := isInt64_toInt steady
  refine ⟨fun value t => httpDate_eq_some hwall, ?_⟩
  by_cases hwell : ∃ reference,
    WellFormed (received guidance dateValues wall steady maximum) reference
  swap
  · have hparsed := parseRateLimitGuidance_malformed hwall hsteady (fun r hr => hwell ⟨r, hr⟩)
    refine ⟨_, hparsed, fun reordered hperm => (parseRateLimitGuidance_perm hperm).trans hparsed,
      ?_, ?_, ?_⟩
    · exact ⟨fun _ r hr => hwell ⟨r, hr⟩, fun _ => rfl⟩
    · exact ⟨fun h => (nomatch h), fun h => absurd h.1 hwell⟩
    · exact fun r hr => absurd ⟨r, hr⟩ hwell
  obtain ⟨reference, hwell⟩ := hwell
  obtain ⟨latest, hcollected, hparsed⟩ := parseRateLimitGuidance_wellFormed hwall hsteady hwell
  have hunique : ∀ other, WellFormed (received guidance dateValues wall steady maximum) other →
      other = reference := by
    intro other hother
    rcases @dateReferenceOf_eq (received guidance dateValues wall steady maximum) hwall with
      ⟨only, -, -, honly, -⟩ | ⟨hnone, -⟩
    · rw [honly other hother.1, honly reference hwell.1]
    · exact absurd hwell.1 (hnone reference)
  have hempty := @presentDelays_eq_nil ⟨wall.toInt, steady.toInt⟩ reference guidance hwell.2.1
  refine ⟨_, hparsed, fun reordered hperm => (parseRateLimitGuidance_perm hperm).trans hparsed, ?_⟩
  by_cases hnone : presentDelays ⟨wall.toInt, steady.toInt⟩ reference guidance = []
  · have hmissing : concludeGuidance latest maximum = guidanceFailure .guidanceMissing := by
      have hfound : latest.found = false :=
        Bool.eq_false_of_not_eq_true (mt hcollected.found.mp (not_not.mpr hnone))
      rw [concludeGuidance, hfound]
      rfl
    rw [show (received guidance dateValues wall steady maximum).maximumDelayMilliseconds = maximum
      from rfl, hmissing]
    refine ⟨⟨fun h => (nomatch h), fun h => absurd hwell (h reference)⟩,
      ⟨fun _ => ⟨⟨reference, hwell⟩, hempty.mp hnone⟩, fun _ => rfl⟩, ?_⟩
    rintro other - ⟨observation, hmem, hvalues⟩
    exact absurd (hempty.mp hnone observation hmem) hvalues
  · have hfound : latest.found = true := hcollected.found.mpr hnone
    have hgreatest : IsGreatest
        {d | d ∈ presentDelays ⟨wall.toInt, steady.toInt⟩ reference guidance} latest.delay :=
      ⟨hcollected.attained hnone, hcollected.longest⟩
    have hbound := presentDelays_le _ hgreatest.1
    have hnonneg := presentDelays_nonneg _ hgreatest.1
    rw [show (received guidance dateValues wall steady maximum).maximumDelayMilliseconds = maximum
      from rfl]
    by_cases hexceeds : latest.delay > maximum.toNat
    · have hconclude : concludeGuidance latest maximum =
        guidanceFailure .guidanceExceedsPolicy := by
        rw [concludeGuidance, hfound, if_neg (by decide), if_pos hexceeds]
      rw [hconclude]
      refine ⟨⟨fun h => (nomatch h), fun h => absurd hwell (h reference)⟩,
        ⟨fun h => (nomatch h), fun h => absurd (hempty.mpr h.2) hnone⟩, ?_⟩
      intro other hother _
      obtain rfl := hunique other hother
      exact ⟨_, hgreatest, ⟨fun _ => hexceeds, fun _ => rfl⟩, fun h => by omega⟩
    · have hconclude : concludeGuidance latest maximum =
          ⟨.none, latest.eligible, UInt64.ofNat latest.delay.toNat, latest.delay == 0⟩ := by
        rw [concludeGuidance, hfound, if_neg (by decide), if_neg hexceeds]
      rw [hconclude]
      refine ⟨⟨fun h => (nomatch h), fun h => absurd hwell (h reference)⟩,
        ⟨fun h => (nomatch h), fun h => absurd (hempty.mpr h.2) hnone⟩, ?_⟩
      intro other hother _
      obtain rfl := hunique other hother
      have hcast : ((UInt64.ofNat latest.delay.toNat).toNat : Int) = latest.delay := by
        have hfits : latest.delay.toNat < 18446744073709551616 := by omega
        rw [UInt64.toNat_ofNat_of_lt' hfits]
        omega
      exact ⟨_, hgreatest, ⟨fun h => (nomatch h), fun h => absurd h hexceeds⟩,
        fun _ => ⟨rfl, hcollected.eligible, hcast, beq_iff_eq⟩⟩

end Cuac.Runtime.Resilience

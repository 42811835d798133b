import Cuac.Lib.Overflow
import Cuac.Lib.Tally
import Cuac.Runtime.HttpRetryController

/-!
# Runtime — retry delays

`ComputeRetryDelayMilliseconds` doubles a base of ten milliseconds, spreads the
result by a seed and clamps it. The watched version below does the same
arithmetic and looks at every step of it. The product that mixes the attempt
into the seed is meant to wrap and stays outside it.

Main results:

* `watchedRetryDelay_eq` — no other operation leaves 64 bits.
* `retry_delay` — the delay lies around the clamped nominal one.
-/

namespace Cuac.Runtime.Resilience

open Cuac.Lib
open Cuac.Lib.Watched

-- ---------------------------------------------------------------------------
-- The watched arithmetic
-- ---------------------------------------------------------------------------

/-- `failed_attempt * 0x9e3779b97f4a7c15`, watched. -/
def watchedMixing (failedAttempt : UInt64) : Watched Int :=
  uint64 (failedAttempt.toNat * 0x9e3779b97f4a7c15)

def watchedDoubling (maxDelay : Int) : Nat → Int → Watched Int
  | 0, nominal => .ok nominal
  | turns + 1, nominal =>
    if nominal < maxDelay then
      if nominal > maxDelay / 2 then watchedDoubling maxDelay turns maxDelay
      else do
        let doubled ← uint64 (nominal * 2)
        watchedDoubling maxDelay turns doubled
    else .ok nominal

/-- `nominal * percent / 100`, or `nominal` when the guard finds no room for the product. -/
def watchedShare (nominal percent : Int) : Watched Int :=
  if nominal > 18446744073709551615 / percent then .ok nominal
  else do
    let product ← uint64 (nominal * percent)
    pure (product / 100)

def watchedLower (nominal : Int) : Watched Int :=
  if nominal > (18446744073709551615 - 99) / 75 then .ok nominal
  else do
    let sum ← uint64s [nominal * 75, nominal * 75 + 99]
    pure (sum / 100)

/-- `ComputeRetryDelayMilliseconds`; `mixed` is the seed with the attempt mixed in. -/
def watchedRetryDelay (failedAttempt maxDelay mixed : UInt64) : Watched Int :=
  if failedAttempt == 0 || maxDelay == 0 then .ok 0
  else do
    let doubled ← watchedDoubling maxDelay.toNat (failedAttempt.toNat - 1) 10
    let nominal := min doubled maxDelay.toNat
    let percent ← uint64 (75 + mixed.toNat % 51)
    let jittered ← watchedShare nominal percent
    let lower ← watchedLower nominal
    let upper ← watchedShare nominal 125
    pure (min maxDelay.toNat (max 1 (max lower (min upper jittered))))

-- ---------------------------------------------------------------------------
-- Doubling
-- ---------------------------------------------------------------------------

/-- The delay without jitter. -/
def nominalDelay (failedAttempt maxDelay : UInt64) : Nat :=
  min (10 * 2 ^ (failedAttempt.toNat - 1)) maxDelay.toNat

/-- A product that fits is the product. -/
theorem toNat_mul_of_lt {a b : UInt64} (h : a.toNat * b.toNat < 2 ^ 64) :
    (a * b).toNat = a.toNat * b.toNat := by
  rw [UInt64.toNat_mul, Nat.mod_eq_of_lt h]

/-- The loop stops at the ceiling, so a double never passes it. -/
theorem doubleUpTo_spec (maxDelay : UInt64) (turns : Nat) (nominal : UInt64) :
    watchedDoubling maxDelay.toNat turns nominal.toNat =
        .ok (doubleUpTo maxDelay turns nominal).toNat ∧
      min (doubleUpTo maxDelay turns nominal).toNat maxDelay.toNat =
        min (nominal.toNat * 2 ^ turns) maxDelay.toNat := by
  induction turns generalizing nominal with
  | zero => exact ⟨rfl, by rw [pow_zero, Nat.mul_one]; rfl⟩
  | succ turns ih =>
    have hpos : 1 ≤ 2 ^ turns := Nat.one_le_two_pow
    have hmax := maxDelay.toNat_lt
    have hhalf : (maxDelay / 2).toNat = maxDelay.toNat / 2 := UInt64.toNat_div _ _
    have hpower : nominal.toNat * 2 ^ (turns + 1) = nominal.toNat * 2 * 2 ^ turns := by
      rw [pow_succ', Nat.mul_assoc]
    rw [watchedDoubling, doubleUpTo, hpower]
    by_cases hless : nominal < maxDelay
    · have hless' := UInt64.lt_iff_toNat_lt.mp hless
      rw [if_pos hless, if_pos (by omega)]
      by_cases hover : nominal > maxDelay / 2
      · have hover' := UInt64.lt_iff_toNat_lt.mp hover
        have hfull : maxDelay.toNat ≤ nominal.toNat * 2 * 2 ^ turns :=
          Nat.le_trans (by omega) (Nat.le_mul_of_pos_right _ hpos)
        obtain ⟨hwatched, hmin⟩ := ih maxDelay
        rw [if_pos hover, if_pos (by omega)]
        refine ⟨hwatched, hmin.trans ?_⟩
        rw [min_eq_right hfull, min_eq_right (Nat.le_mul_of_pos_right _ hpos)]
      · have hroom := UInt64.not_lt.mp hover
        rw [UInt64.le_iff_toNat_le] at hroom
        have hdouble : (nominal * 2).toNat = nominal.toNat * 2 :=
          toNat_mul_of_lt (show nominal.toNat * 2 < 2 ^ 64 by omega)
        obtain ⟨hwatched, hmin⟩ := ih (nominal * 2)
        rw [hdouble] at hwatched hmin
        rw [if_neg hover, if_neg (by omega), uint64_ok (by omega)]
        exact ⟨hwatched, hmin⟩
    · have hless' : maxDelay.toNat ≤ nominal.toNat :=
        UInt64.le_iff_toNat_le.mp (UInt64.not_lt.mp hless)
      have hfull : maxDelay.toNat ≤ nominal.toNat * 2 * 2 ^ turns :=
        Nat.le_trans (by omega) (Nat.le_mul_of_pos_right _ hpos)
      rw [if_neg hless, if_neg (by omega), min_eq_right hless', min_eq_right hfull]
      exact ⟨rfl, rfl⟩

-- ---------------------------------------------------------------------------
-- Jitter
-- ---------------------------------------------------------------------------

/-- A share as the code computes it. -/
def shareOf (nominal percent : UInt64) : UInt64 :=
  if nominal > 0xFFFFFFFFFFFFFFFF / percent then nominal else nominal * percent / 100

theorem shareOf_spec {nominal percent : UInt64} (hlow : 75 ≤ percent.toNat) :
    watchedShare nominal.toNat percent.toNat = .ok (shareOf nominal percent).toNat ∧
      ((shareOf nominal percent).toNat = nominal.toNat ∨
        (shareOf nominal percent).toNat = nominal.toNat * percent.toNat / 100) := by
  have hroom : (0xFFFFFFFFFFFFFFFF / percent).toNat = 18446744073709551615 / percent.toNat :=
    UInt64.toNat_div _ _
  have hcast : (18446744073709551615 : Int) / percent.toNat =
      ((18446744073709551615 / percent.toNat : Nat) : Int) := rfl
  rw [watchedShare, shareOf, hcast]
  by_cases hover : nominal > 0xFFFFFFFFFFFFFFFF / percent
  · have hover' := UInt64.lt_iff_toNat_lt.mp hover
    rw [if_pos hover, if_pos (by omega)]
    exact ⟨rfl, Or.inl rfl⟩
  · have hfits : nominal.toNat ≤ 18446744073709551615 / percent.toNat := by
      rw [← hroom]
      exact UInt64.le_iff_toNat_le.mp (UInt64.not_lt.mp hover)
    have hproduct : nominal.toNat * percent.toNat ≤ 18446744073709551615 :=
      (Nat.le_div_iff_mul_le (by omega)).mp hfits
    have hexact : (nominal * percent / 100).toNat = nominal.toNat * percent.toNat / 100 := by
      rw [UInt64.toNat_div, toNat_mul_of_lt (by omega)]
      rfl
    have hwatched : uint64 (nominal.toNat * percent.toNat) =
        .ok ((nominal.toNat * percent.toNat : Nat) : Int) := by
      rw [uint64_ok (by omega)]
      rfl
    rw [if_neg hover, if_neg (by omega), hwatched, hexact]
    exact ⟨rfl, Or.inr rfl⟩

/-- Three quarters, rounded up. -/
def lowerOf (nominal : UInt64) : UInt64 :=
  if nominal > (0xFFFFFFFFFFFFFFFF - 99) / 75 then nominal else (nominal * 75 + 99) / 100

theorem lowerOf_spec {nominal : UInt64} (hpos : 1 ≤ nominal.toNat) :
    watchedLower nominal.toNat = .ok (lowerOf nominal).toNat ∧
      (nominal.toNat * 75 + 99) / 100 ≤ (lowerOf nominal).toNat ∧
      (lowerOf nominal).toNat ≤ nominal.toNat := by
  have hroom : ((0xFFFFFFFFFFFFFFFF - 99) / 75 : UInt64).toNat =
      (18446744073709551615 - 99) / 75 := by decide
  rw [watchedLower, lowerOf]
  by_cases hover : nominal > (0xFFFFFFFFFFFFFFFF - 99) / 75
  · have hover' := UInt64.lt_iff_toNat_lt.mp hover
    rw [if_pos hover, if_pos (by omega)]
    exact ⟨rfl, by omega, Nat.le_refl _⟩
  · have hfits := UInt64.le_iff_toNat_le.mp (UInt64.not_lt.mp hover)
    rw [hroom] at hfits
    have hproduct : (nominal * 75).toNat = nominal.toNat * 75 :=
      toNat_mul_of_lt (show nominal.toNat * 75 < 2 ^ 64 by omega)
    have hsum : (nominal * 75 + 99).toNat = nominal.toNat * 75 + 99 := by
      rw [toNat_add_of_lt (by rw [hproduct]; exact (by omega : nominal.toNat * 75 + 99 < 2 ^ 64)),
        hproduct]
      rfl
    have hexact : ((nominal * 75 + 99) / 100).toNat = (nominal.toNat * 75 + 99) / 100 := by
      rw [UInt64.toNat_div, hsum]
      rfl
    have hwatched : uint64s [(nominal.toNat : Int) * 75, (nominal.toNat : Int) * 75 + 99] =
        .ok ((nominal.toNat * 75 + 99 : Nat) : Int) := by
      rw [uint64s_ok (by
        simp only [List.forall_mem_cons, List.not_mem_nil, false_implies, implies_true, and_true]
        omega)]
      rfl
    rw [if_neg hover, if_neg (by omega), hwatched, hexact]
    exact ⟨rfl, Nat.le_refl _, by omega⟩

-- ---------------------------------------------------------------------------
-- The delay
-- ---------------------------------------------------------------------------

/-- The seed with the attempt mixed in. -/
def mixedSeed (failedAttempt seed : UInt64) : UInt64 :=
  seed ^^^ (failedAttempt * 0x9e3779b97f4a7c15)

theorem toNat_percent (mixed : UInt64) :
    (75 + mixed % 51).toNat = 75 + mixed.toNat % 51 := by
  have hrest : (mixed % 51).toNat = mixed.toNat % 51 := UInt64.toNat_mod _ _
  rw [toNat_add_of_lt (by rw [hrest]; exact (by omega : 75 + mixed.toNat % 51 < 2 ^ 64)), hrest]
  rfl

/-- The delay in the words of its parts. -/
theorem computeRetryDelayMilliseconds_eq {failedAttempt maxDelay seed : UInt64}
    (h : ¬(failedAttempt == 0 || maxDelay == 0) = true) :
    computeRetryDelayMilliseconds failedAttempt maxDelay seed =
      min maxDelay (max 1
        (max (lowerOf (min (doubleUpTo maxDelay (failedAttempt.toNat - 1) 10) maxDelay))
          (min (shareOf (min (doubleUpTo maxDelay (failedAttempt.toNat - 1) 10) maxDelay) 125)
            (shareOf (min (doubleUpTo maxDelay (failedAttempt.toNat - 1) 10) maxDelay)
              (75 + mixedSeed failedAttempt seed % 51))))) := by
  rw [computeRetryDelayMilliseconds, if_neg h]
  rfl

/-- The watched arithmetic goes through, and its bounds. -/
theorem delay_spec {failedAttempt maxDelay seed : UInt64} (hattempt : failedAttempt ≠ 0)
    (hmax : maxDelay ≠ 0) :
    watchedRetryDelay failedAttempt maxDelay (mixedSeed failedAttempt seed) =
        .ok (computeRetryDelayMilliseconds failedAttempt maxDelay seed).toNat ∧
      (nominalDelay failedAttempt maxDelay * 75 + 99) / 100 ≤
        (computeRetryDelayMilliseconds failedAttempt maxDelay seed).toNat ∧
      (computeRetryDelayMilliseconds failedAttempt maxDelay seed).toNat ≤
        nominalDelay failedAttempt maxDelay * 125 / 100 ∧
      1 ≤ (computeRetryDelayMilliseconds failedAttempt maxDelay seed).toNat ∧
      (computeRetryDelayMilliseconds failedAttempt maxDelay seed).toNat ≤ maxDelay.toNat := by
  have hstart : ¬(failedAttempt == 0 || maxDelay == 0) = true := by
    simp [hattempt, hmax]
  have hsome : 1 ≤ maxDelay.toNat := by
    have hne : maxDelay.toNat ≠ 0 := fun h => hmax (UInt64.toNat_inj.mp h)
    omega
  obtain ⟨hdoubling, hmin⟩ := doubleUpTo_spec maxDelay (failedAttempt.toNat - 1) 10
  rw [computeRetryDelayMilliseconds_eq hstart, watchedRetryDelay, if_neg hstart]
  generalize doubleUpTo maxDelay (failedAttempt.toNat - 1) 10 = doubled at *
  have hnominal : (min doubled maxDelay).toNat = nominalDelay failedAttempt maxDelay := by
    rw [toNat_min, hmin, nominalDelay]
    rfl
  have hpos : 1 ≤ (min doubled maxDelay).toNat := by
    have hpower : 1 ≤ 2 ^ (failedAttempt.toNat - 1) := Nat.one_le_two_pow
    rw [hnominal, nominalDelay]
    omega
  have hbelow : (min doubled maxDelay).toNat ≤ maxDelay.toNat := by
    rw [toNat_min]
    exact min_le_right _ _
  have hcast : min (doubled.toNat : Int) maxDelay.toNat = ((min doubled maxDelay).toNat : Int) := by
    rw [toNat_min]
    omega
  -- The jitter is a share between 75 and 125 per cent of the nominal delay.
  have hpercent := toNat_percent (mixedSeed failedAttempt seed)
  have hrange : 75 ≤ (75 + mixedSeed failedAttempt seed % 51).toNat := by
    rw [hpercent]
    omega
  obtain ⟨hjittered, -⟩ := @shareOf_spec (min doubled maxDelay) _ hrange
  obtain ⟨hupper, hshare⟩ := @shareOf_spec (min doubled maxDelay) 125 (by decide)
  obtain ⟨hlower, hthree, hself⟩ := lowerOf_spec hpos
  have hwatched : uint64 (75 + (mixedSeed failedAttempt seed).toNat % 51) =
      .ok ((75 + mixedSeed failedAttempt seed % 51).toNat : Int) := by
    rw [uint64_ok (by omega), hpercent]
    rfl
  have hhundred : ((125 : UInt64).toNat : Int) = 125 := rfl
  rw [hhundred] at hupper
  rw [hnominal] at hthree hself hshare hpos hbelow
  have hfive : (125 : UInt64).toNat = 125 := rfl
  rw [hfive] at hshare
  have hdoublingInt : watchedDoubling (maxDelay.toNat : Int) (failedAttempt.toNat - 1) 10 =
      .ok (doubled.toNat : Int) := hdoubling
  rw [toNat_min maxDelay, toNat_max, toNat_max, toNat_min (shareOf _ _)]
  -- Only the first part is about the watched run; the bounds are arithmetic from here on.
  refine ⟨?_, ?_, ?_, ?_, ?_⟩
  · rw [hdoublingInt, ok_bind]
    dsimp only
    rw [hcast, hwatched, ok_bind, hjittered, ok_bind, hlower, ok_bind, hupper, ok_bind]
    have hone : ((1 : UInt64).toNat : Int) = 1 := rfl
    refine congrArg Except.ok ?_
    omega
  all_goals
    have hone : (1 : UInt64).toNat = 1 := rfl
    omega

/-- From the first attempt on, the delay is within a quarter of the nominal one and
under the ceiling, and no step of its arithmetic leaves 64 bits. -/
theorem retry_delay (failedAttempt maxDelay seed : UInt64) (hattempt : failedAttempt ≠ 0) :
    watchedRetryDelay failedAttempt maxDelay (mixedSeed failedAttempt seed) =
        .ok (computeRetryDelayMilliseconds failedAttempt maxDelay seed).toNat ∧
      (nominalDelay failedAttempt maxDelay * 75 + 99) / 100 ≤
        (computeRetryDelayMilliseconds failedAttempt maxDelay seed).toNat ∧
      (computeRetryDelayMilliseconds failedAttempt maxDelay seed).toNat ≤
        nominalDelay failedAttempt maxDelay * 125 / 100 ∧
      (computeRetryDelayMilliseconds failedAttempt maxDelay seed).toNat ≤ maxDelay.toNat ∧
      (0 < maxDelay → 1 ≤ (computeRetryDelayMilliseconds failedAttempt maxDelay seed).toNat) := by
  by_cases hmax : maxDelay = 0
  · subst hmax
    have hend : (failedAttempt == 0 || (0 : UInt64) == 0) = true := by simp
    have hnominal : nominalDelay failedAttempt 0 = 0 := Nat.min_zero _
    rw [watchedRetryDelay, computeRetryDelayMilliseconds, if_pos hend, if_pos hend, hnominal]
    exact ⟨rfl, Nat.le_refl 0, Nat.zero_le _, Nat.le_refl 0, fun h => absurd h (by decide)⟩
  · obtain ⟨hwatched, hlow, hhigh, hsome, hceiling⟩ := @delay_spec _ _ seed hattempt hmax
    exact ⟨hwatched, hlow, hhigh, hceiling, fun _ => hsome⟩

theorem retry_delay_third :
    8 ≤ (computeRetryDelayMilliseconds 3 10 7).toNat ∧
      (computeRetryDelayMilliseconds 3 10 7).toNat ≤ 10 := by
  have h := retry_delay 3 10 7 (by decide)
  have hnominal : nominalDelay 3 10 = 10 := by decide
  rw [hnominal] at h
  exact ⟨h.2.1, h.2.2.2.1⟩

/-- Before the first attempt there is no delay, and mixing a second one into the seed wraps. -/
theorem no_attempt_no_delay :
    computeRetryDelayMilliseconds 0 1 0 = 0 ∧ watchedMixing 2 = .error .overflow := by
  decide

end Cuac.Runtime.Resilience

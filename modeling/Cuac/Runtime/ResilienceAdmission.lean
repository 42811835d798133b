import Cuac.Runtime.ResiliencePolicies

/-!
# Runtime — admission of the resilience policies

Main results:

* `retry_admitted`, `rateLimit_admitted` — what one policy is admitted with.
* `collapse_le` — policies that collapse to a single attempt stay in order.
* `resilience_narrows` — admission only narrows, covers every page and is monotone in the
  profile.
-/

namespace Cuac.Runtime.Resilience

open Cuac.Lib

-- ---------------------------------------------------------------------------
-- Collapsing
-- ---------------------------------------------------------------------------

theorem collapse_le {step delay waiting step' delay' waiting' : UInt64}
    (hstep : step ≤ step') (hdelay : delay ≤ delay') (hwaiting : waiting ≤ waiting') :
    (collapse step delay waiting).1 ≤ (collapse step' delay' waiting').1 ∧
      (collapse step delay waiting).2.1 ≤ (collapse step' delay' waiting').2.1 ∧
      (collapse step delay waiting).2.2 ≤ (collapse step' delay' waiting').2.2 := by
  simp only [UInt64.le_iff_toNat_le] at hstep hdelay hwaiting
  have hzero (n : UInt64) : n = 0 ↔ n.toNat = 0 := by
    rw [← UInt64.toNat_inj]
    rfl
  unfold collapse
  simp only [Bool.or_eq_true, decide_eq_true_eq, beq_iff_eq, UInt64.le_iff_toNat_le, hzero,
    UInt64.reduceToNat]
  split <;> split <;> simp only [UInt64.reduceToNat] <;> omega

/-- What is left is no more than there was, a single attempt apart. -/
theorem collapse_bounds {step delay waiting : UInt64} (hstep : 1 ≤ step) :
    1 ≤ (collapse step delay waiting).1 ∧ (collapse step delay waiting).1 ≤ step ∧
      (collapse step delay waiting).2.1 ≤ delay ∧ (collapse step delay waiting).2.2 ≤ waiting := by
  unfold collapse
  split
  · exact ⟨UInt64.le_refl 1, hstep, UInt64.zero_le, UInt64.zero_le⟩
  · exact ⟨hstep, UInt64.le_refl _, UInt64.le_refl _, UInt64.le_refl _⟩

-- ---------------------------------------------------------------------------
-- What is admitted
-- ---------------------------------------------------------------------------

section Admitted

variable {plan : PlannedScan} {profile : HttpExecutionProfile}

/-- Attempts, delay and waiting of the admitted retry policy. -/
def retryTriple (plan : PlannedScan) (profile : HttpExecutionProfile) : UInt64 × UInt64 × UInt64 :=
  if plan.retryPolicy.enabled then
    collapse (min plan.retryPolicy.maxAttemptsPerStep profile.maxRetryAttemptsPerStep)
      (min plan.retryPolicy.maxDelayMilliseconds profile.maxRetryDelayMilliseconds)
      (min plan.retryPolicy.maxCumulativeWaitingMillisecondsPerScan
        profile.maxRetryWaitingMillisecondsPerScan)
  else (1, 0, 0)

/-- The attempts of a scan: no more than planned, than the operator's, and than every page may
make. -/
def retryScan (plan : PlannedScan) (profile : HttpExecutionProfile) : Nat :=
  let bound := min plan.retryPolicy.maxAttemptsPerScan.toNat profile.maxRetryAttemptsPerScan.toNat
  if plan.retryPolicy.enabled then min bound (plan.pages.toNat * (retryTriple plan profile).1.toNat)
  else bound

theorem toNat_mul_of_div {pages step : UInt64} (hstep : 1 ≤ step) (h : pages ≤ 96 / step) :
    (pages * step).toNat = pages.toNat * step.toNat ∧ pages.toNat * step.toNat ≤ 96 := by
  rw [UInt64.le_iff_toNat_le] at hstep
  rw [UInt64.le_iff_toNat_le, UInt64.toNat_div] at h
  have hproduct : pages.toNat * step.toNat ≤ 96 :=
    (Nat.le_div_iff_mul_le hstep).mp h
  exact ⟨toNat_mul_of_lt (by omega), hproduct⟩

theorem retryTriple_step_le (hprofile : 1 ≤ profile.maxRetryAttemptsPerStep) :
    1 ≤ (retryTriple plan profile).1 := by
  unfold retryTriple
  split
  · rename_i henabled
    refine (collapse_bounds ?_).1
    rw [RetryPlan.enabled, decide_eq_true_eq] at henabled
    rw [UInt64.le_iff_toNat_le] at hprofile ⊢
    have hplanned := UInt64.lt_iff_toNat_lt.mp henabled
    rw [toNat_min]
    simp only [UInt64.reduceToNat] at hprofile hplanned ⊢
    omega
  · exact UInt64.le_refl 1

theorem step_le_three {retry : RetryPlan} (h : retry.isWithinHardBounds = true) :
    retry.maxAttemptsPerStep ≤ 3 := by
  unfold RetryPlan.isWithinHardBounds at h
  split at h
  · simp only [Bool.and_eq_true, beq_iff_eq] at h
    rw [h.1.1.1]
    decide
  · simp only [Bool.and_eq_true, decide_eq_true_eq] at h
    exact h.1.1.1.1.1.1

/-- Where every page is covered, the shape of a scan is so many attempts for each page. -/
theorem shape_eq {step bound shape : UInt64} (hleast : 1 ≤ step)
    (hshape : (if plan.scanBudgets.isSome && decide (plan.pages ≤ 96 / step) then
      plan.pages * step else step) = shape)
    (hcovers : min bound shape ≥ plan.pages) (hstep : step ≤ 3) :
    shape.toNat = plan.pages.toNat * step.toNat := by
  rw [ge_iff_le, UInt64.le_iff_toNat_le, toNat_min] at hcovers
  split at hshape
  · rename_i hcond
    rw [Bool.and_eq_true, decide_eq_true_eq] at hcond
    rw [← hshape]
    exact (toNat_mul_of_div hleast hcond.2).1
  · rename_i hcond
    subst hshape
    match hbudgets : plan.scanBudgets with
    | none =>
      rw [PlannedScan.pages, hbudgets]
      simp
    | some budgets =>
      exfalso
      rw [hbudgets, Option.isSome_some, Bool.true_and, decide_eq_true_eq, UInt64.not_le,
        UInt64.lt_iff_toNat_lt, UInt64.toNat_div] at hcond
      rw [UInt64.le_iff_toNat_le] at hleast hstep
      simp only [UInt64.reduceToNat] at hcond hleast hstep
      have hdiv : 96 / 3 ≤ 96 / step.toNat := Nat.div_le_div_left hstep hleast
      omega

/-- The parts of an admitted retry policy. -/
structure RetryAdmitted (plan : PlannedScan) (profile : HttpExecutionProfile) (retry : RetryPlan) :
    Prop where
  planned : plan.retryPolicy.isWithinHardBounds = true
  operator : 1 ≤ profile.maxRetryAttemptsPerStep
  step : retry.maxAttemptsPerStep = (retryTriple plan profile).1
  delay : retry.maxDelayMilliseconds = (retryTriple plan profile).2.1
  waiting : retry.maxCumulativeWaitingMillisecondsPerScan = (retryTriple plan profile).2.2
  scan : retry.maxAttemptsPerScan.toNat = retryScan plan profile
  covers : plan.pages ≤ retry.maxAttemptsPerScan

theorem retry_admitted {retry : RetryPlan} (h : tryAdmitRetryPolicy plan profile = some retry) :
    RetryAdmitted plan profile retry := by
  unfold tryAdmitRetryPolicy at h
  dsimp only at h
  split at h
  · cases h
  rename_i hguard
  simp only [Bool.or_eq_true, not_or, bne_iff_ne, ne_eq, Bool.not_eq_true', beq_iff_eq,
    decide_eq_true_eq, not_not, Bool.not_eq_false] at hguard
  obtain ⟨⟨⟨⟨⟨⟨⟨⟨-, hplanned⟩, -⟩, hzero⟩, -⟩, -⟩, -⟩, -⟩, -⟩ := hguard
  have hoperator : 1 ≤ profile.maxRetryAttemptsPerStep := by
    rw [UInt64.le_iff_toNat_le]
    rw [← UInt64.toNat_inj] at hzero
    simp only [UInt64.reduceToNat] at hzero ⊢
    omega
  split at h
  · rename_i hdisabled
    have henabled : ¬plan.retryPolicy.enabled = true := by
      rw [Bool.not_eq_true', ← Bool.not_eq_true] at hdisabled
      exact hdisabled
    split at h
    · rename_i hcovers
      obtain rfl := Option.some.inj h
      have htriple : retryTriple plan profile = (1, 0, 0) := if_neg henabled
      refine ⟨hplanned, hoperator, ?_, ?_, ?_, ?_, hcovers⟩
      · rw [htriple]
      · rw [htriple]
      · rw [htriple]
      · rw [retryScan, if_neg henabled, toNat_min]
    · cases h
  · rename_i henabled
    rw [Bool.not_eq_true', Bool.not_eq_false] at henabled
    have hleast := @retryTriple_step_le plan profile hoperator
    have htriple := if_pos henabled ▸ retryTriple.eq_1 plan profile
    rw [← htriple] at h
    match hsame : retryTriple plan profile with
    | (step, delay, waiting) =>
      rw [hsame] at h hleast
      dsimp only at h hleast
      generalize hshape : (if plan.scanBudgets.isSome && decide (plan.pages ≤ 96 / step) then
        plan.pages * step else step) = shape at h
      split at h
      · rename_i hcond
        rw [Bool.and_eq_true, decide_eq_true_eq] at hcond
        obtain ⟨hcovers, hbounds⟩ := hcond
        obtain rfl := Option.some.inj h
        have hfinal := shape_eq hleast hshape hcovers (step_le_three hbounds)
        refine ⟨hplanned, hoperator, by rw [hsame], by rw [hsame], by rw [hsame], ?_, hcovers⟩
        rw [retryScan, if_pos henabled, hsame, toNat_min, toNat_min, hfinal]
      · cases h

/-- Attempts, delay and waiting of the admitted rate-limit policy. -/
def rateLimitTriple (plan : PlannedScan) (profile : HttpExecutionProfile) :
    UInt64 × UInt64 × UInt64 :=
  if plan.rateLimitPolicy.waitingEnabled && profile.allowsRateLimitWaiting then
    collapse (min plan.rateLimitPolicy.maxAttemptsPerStep profile.maxRateLimitAttemptsPerStep)
      (min plan.rateLimitPolicy.maxDelayMilliseconds profile.maxRateLimitDelayMilliseconds)
      (min plan.rateLimitPolicy.maxCumulativeWaitingMillisecondsPerScan
        profile.maxRateLimitWaitingMillisecondsPerScan)
  else (1, 0, 0)

def rateLimitScan (plan : PlannedScan) (profile : HttpExecutionProfile) : Nat :=
  if (rateLimitTriple plan profile).1 > 1 then
    min profile.maxRateLimitAttemptsPerScan.toNat
      (plan.pages.toNat * (rateLimitTriple plan profile).1.toNat)
  else 1

/-- The parts of an admitted rate-limit policy. -/
structure RateLimitAdmitted (plan : PlannedScan) (profile : HttpExecutionProfile)
    (rateLimit : AdmittedRateLimitPolicy) : Prop where
  planned : plan.rateLimitPolicy.isWithinHardBounds = true
  step : rateLimit.maxAttemptsPerStep = (rateLimitTriple plan profile).1
  delay : rateLimit.maxDelayMilliseconds = (rateLimitTriple plan profile).2.1
  waiting : rateLimit.maxCumulativeWaitingMillisecondsPerScan = (rateLimitTriple plan profile).2.2
  scan : rateLimit.maxAttemptsPerScan.toNat = rateLimitScan plan profile
  paused : (rateLimitTriple plan profile).1 ≤ 1 → rateLimit = singleAttempt plan

theorem singleAttempt_admitted (hplanned : plan.rateLimitPolicy.isWithinHardBounds = true)
    (h : rateLimitTriple plan profile = (1, 0, 0)) :
    RateLimitAdmitted plan profile (singleAttempt plan) := by
  refine ⟨hplanned, by rw [h]; rfl, by rw [h]; rfl, by rw [h]; rfl, ?_, fun _ => rfl⟩
  rw [rateLimitScan, h, if_neg (by decide)]
  rfl

theorem rateLimit_admitted {rateLimit : AdmittedRateLimitPolicy}
    (h : tryAdmitRateLimitPolicy plan profile = some rateLimit) :
    RateLimitAdmitted plan profile rateLimit := by
  unfold tryAdmitRateLimitPolicy at h
  dsimp only at h
  split at h
  · cases h
  rename_i hguard
  simp only [Bool.or_eq_true, not_or, bne_iff_ne, ne_eq, Bool.not_eq_true', not_not,
    Bool.not_eq_false] at hguard
  have hplanned := hguard.1.2
  split at h
  · rename_i hidle
    obtain rfl := Option.some.inj h
    refine singleAttempt_admitted hplanned (if_neg ?_)
    rw [Bool.and_eq_true]
    rintro ⟨hwaiting, -⟩
    have hdeclared : plan.rateLimitPolicy.declared = true := by
      rw [RateLimitPlan.waitingEnabled, Bool.and_eq_true] at hwaiting
      exact hwaiting.1
    rw [hwaiting, hdeclared] at hidle
    cases hidle
  rename_i hactive
  simp only [Bool.or_eq_true, not_or, Bool.not_eq_true', Bool.not_eq_false] at hactive
  split at h
  · rename_i hoff
    obtain rfl := Option.some.inj h
    refine singleAttempt_admitted hplanned (if_neg ?_)
    rw [Bool.and_eq_true]
    rintro ⟨-, hallowed⟩
    rw [hallowed] at hoff
    cases hoff
  rename_i hallowed
  rw [Bool.not_eq_true', Bool.not_eq_false] at hallowed
  have hon : (plan.rateLimitPolicy.waitingEnabled && profile.allowsRateLimitWaiting) = true := by
    rw [hactive.2, hallowed]
    rfl
  split at h
  · rename_i hcollapsed
    obtain rfl := Option.some.inj h
    refine singleAttempt_admitted hplanned ((if_pos hon).trans ?_)
    exact if_pos hcollapsed
  rename_i hwhole
  have htriple : rateLimitTriple plan profile =
      (min plan.rateLimitPolicy.maxAttemptsPerStep profile.maxRateLimitAttemptsPerStep,
        min plan.rateLimitPolicy.maxDelayMilliseconds profile.maxRateLimitDelayMilliseconds,
        min plan.rateLimitPolicy.maxCumulativeWaitingMillisecondsPerScan
          profile.maxRateLimitWaitingMillisecondsPerScan) :=
    (if_pos hon).trans (if_neg hwhole)
  simp only [Bool.or_eq_true, not_or, decide_eq_true_eq, UInt64.not_le] at hwhole
  split at h
  · cases h
  rename_i hpages
  simp only [Bool.or_eq_true, not_or, decide_eq_true_eq, gt_iff_lt, UInt64.not_lt] at hpages
  obtain rfl := Option.some.inj h
  have hproduct := (toNat_mul_of_div (UInt64.le_of_lt hwhole.1.1) hpages.2).1
  refine ⟨hplanned, by rw [htriple], by rw [htriple], by rw [htriple], ?_, ?_⟩
  · rw [rateLimitScan, htriple, if_pos hwhole.1.1, toNat_min, hproduct]
  · intro hidle
    rw [htriple] at hidle
    exact absurd hwhole.1.1 (UInt64.not_lt.mpr hidle)

theorem rateLimitTriple_step_le : 1 ≤ (rateLimitTriple plan profile).1 := by
  unfold rateLimitTriple
  split
  · unfold collapse
    split
    · exact UInt64.le_refl 1
    · rename_i hwhole
      simp only [Bool.or_eq_true, not_or, decide_eq_true_eq, UInt64.not_le] at hwhole
      exact UInt64.le_of_lt hwhole.1.1
  · exact UInt64.le_refl 1

/-- The parts of the combined policy. -/
structure Combined (plan : PlannedScan) (profile : HttpExecutionProfile) (retry : RetryPlan)
    (rateLimit : AdmittedRateLimitPolicy) (resilience : AdmittedResiliencePolicy) : Prop where
  step : resilience.maxAttemptsPerStep.toNat =
    max retry.maxAttemptsPerStep.toNat rateLimit.maxAttemptsPerStep.toNat
  scan : resilience.maxAttemptsPerScan.toNat =
    max retry.maxAttemptsPerScan.toNat rateLimit.maxAttemptsPerScan.toNat
  waiting : resilience.maxCumulativeWaitingMillisecondsPerScan.toNat =
    if profile.maxCombinedWaitingMillisecondsPerScan = 0 then
      retry.maxCumulativeWaitingMillisecondsPerScan.toNat
    else
      min (retry.maxCumulativeWaitingMillisecondsPerScan.toNat +
          rateLimit.maxCumulativeWaitingMillisecondsPerScan.toNat)
        profile.maxCombinedWaitingMillisecondsPerScan.toNat
  scan_le : resilience.maxAttemptsPerScan ≤ plan.resiliencePolicy.maxAttemptsPerScan
  waiting_le : resilience.maxCumulativeWaitingMillisecondsPerScan ≤
    plan.resiliencePolicy.maxCumulativeWaitingMillisecondsPerScan
  covers : plan.pages ≤ resilience.maxAttemptsPerScan

/-- A sum there is room for is the sum. -/
theorem toNat_add_of_room {a b : UInt64} (h : a ≤ 18446744073709551615 - b) :
    (a + b).toNat = a.toNat + b.toNat := by
  have hb := b.toNat_lt
  have hmax : b ≤ 18446744073709551615 := by
    rw [UInt64.le_iff_toNat_le]
    simp only [UInt64.reduceToNat]
    omega
  rw [UInt64.le_iff_toNat_le, UInt64.toNat_sub_of_le _ _ hmax] at h
  simp only [UInt64.reduceToNat] at h
  rw [UInt64.toNat_add, Nat.mod_eq_of_lt (by omega)]

theorem combine_admitted {retry : RetryPlan} {rateLimit : AdmittedRateLimitPolicy}
    {resilience : AdmittedResiliencePolicy}
    (h : combine plan profile retry rateLimit = some resilience) :
    Combined plan profile retry rateLimit resilience := by
  unfold combine at h
  dsimp only at h
  split at h
  · cases h
  rename_i hscan
  split at h
  · cases h
  rename_i hsum
  split at h
  · cases h
  generalize hcap : (if profile.maxCombinedWaitingMillisecondsPerScan == 0 then
    retry.maxCumulativeWaitingMillisecondsPerScan
    else profile.maxCombinedWaitingMillisecondsPerScan) = cap at h
  split at h
  · rename_i hcond
    rw [Bool.and_eq_true, decide_eq_true_eq, decide_eq_true_eq] at hcond
    obtain rfl := Option.some.inj h
    refine ⟨toNat_max _ _, toNat_max _ _, ?_, UInt64.not_lt.mp hscan, hcond.2, hcond.1⟩
    have hadd := toNat_add_of_room (UInt64.not_lt.mp hsum)
    rw [toNat_min, hadd, ← hcap]
    by_cases hzero : profile.maxCombinedWaitingMillisecondsPerScan = 0
    · rw [if_pos hzero, if_pos (beq_iff_eq.mpr hzero)]
      omega
    · rw [if_neg hzero, if_neg fun h => hzero (beq_iff_eq.mp h)]
  · cases h

/-- The parts of what is admitted. -/
theorem admitted_parts {retry : RetryPlan} {rateLimit : AdmittedRateLimitPolicy}
    {resilience : AdmittedResiliencePolicy}
    (h : tryAdmitResiliencePolicies plan profile = some (retry, rateLimit, resilience)) :
    plan.pages ≠ 0 ∧ RetryAdmitted plan profile retry ∧ RateLimitAdmitted plan profile rateLimit ∧
      Combined plan profile retry rateLimit resilience := by
  unfold tryAdmitResiliencePolicies at h
  dsimp only at h
  split at h
  · cases h
  rename_i hguard
  simp only [Bool.or_eq_true, not_or, beq_iff_eq] at hguard
  simp only [Option.bind_eq_bind, Option.bind_eq_some_iff, Option.some.injEq, Prod.mk.injEq] at h
  obtain ⟨retry', hretry, rateLimit', hrateLimit, resilience', hresilience, rfl, rfl, rfl⟩ := h
  exact ⟨hguard.1.1.2, retry_admitted hretry, rateLimit_admitted hrateLimit,
    combine_admitted hresilience⟩

end Admitted

-- ---------------------------------------------------------------------------
-- Narrowing
-- ---------------------------------------------------------------------------

/-- What is admitted is at most what was planned and what the operator allows. A plan that
does not wait on rate limits plans no attempts for it, and is admitted with a single one. -/
structure Narrowed (plan : PlannedScan) (profile : HttpExecutionProfile) (retry : RetryPlan)
    (rateLimit : AdmittedRateLimitPolicy) (resilience : AdmittedResiliencePolicy) : Prop where
  retryStep : retry.maxAttemptsPerStep ≤ plan.retryPolicy.maxAttemptsPerStep ∧
    retry.maxAttemptsPerStep ≤ profile.maxRetryAttemptsPerStep
  retryScan : retry.maxAttemptsPerScan ≤ plan.retryPolicy.maxAttemptsPerScan ∧
    retry.maxAttemptsPerScan ≤ profile.maxRetryAttemptsPerScan
  retryDelay : retry.maxDelayMilliseconds ≤ plan.retryPolicy.maxDelayMilliseconds ∧
    retry.maxDelayMilliseconds ≤ profile.maxRetryDelayMilliseconds
  retryWaiting :
    retry.maxCumulativeWaitingMillisecondsPerScan ≤
        plan.retryPolicy.maxCumulativeWaitingMillisecondsPerScan ∧
      retry.maxCumulativeWaitingMillisecondsPerScan ≤ profile.maxRetryWaitingMillisecondsPerScan
  rateLimitStep : plan.rateLimitPolicy.waitingEnabled = true →
    rateLimit.maxAttemptsPerStep ≤ plan.rateLimitPolicy.maxAttemptsPerStep
  rateLimitDelay : rateLimit.maxDelayMilliseconds ≤ plan.rateLimitPolicy.maxDelayMilliseconds
  rateLimitWaiting : rateLimit.maxCumulativeWaitingMillisecondsPerScan ≤
    plan.rateLimitPolicy.maxCumulativeWaitingMillisecondsPerScan
  rateLimitScan : rateLimit.maxAttemptsPerScan ≤ plan.resiliencePolicy.maxAttemptsPerScan
  rateLimitIdle : plan.rateLimitPolicy.waitingEnabled = false →
    plan.rateLimitPolicy.maxAttemptsPerStep = 0 ∧ rateLimit = singleAttempt plan
  rateLimitOperator : profile.allowsRateLimitWaiting = true →
    rateLimit.maxAttemptsPerStep ≤ profile.maxRateLimitAttemptsPerStep ∧
      rateLimit.maxAttemptsPerScan ≤ profile.maxRateLimitAttemptsPerScan ∧
      rateLimit.maxDelayMilliseconds ≤ profile.maxRateLimitDelayMilliseconds ∧
      rateLimit.maxCumulativeWaitingMillisecondsPerScan ≤
        profile.maxRateLimitWaitingMillisecondsPerScan
  combinedStep : resilience.maxAttemptsPerStep ≤ plan.resiliencePolicy.maxAttemptsPerStep
  combinedScan : resilience.maxAttemptsPerScan ≤ plan.resiliencePolicy.maxAttemptsPerScan
  combinedWaiting : resilience.maxCumulativeWaitingMillisecondsPerScan ≤
    plan.resiliencePolicy.maxCumulativeWaitingMillisecondsPerScan
  combinedOperator : profile.maxCombinedWaitingMillisecondsPerScan ≠ 0 →
    resilience.maxCumulativeWaitingMillisecondsPerScan ≤
      profile.maxCombinedWaitingMillisecondsPerScan
  covers : plan.pages ≤ resilience.maxAttemptsPerScan

theorem planRateLimit_waitingEnabled (operation : SelectedOperation) :
    (planRateLimit operation).waitingEnabled = operation.rateLimitPolicy.waitingEnabled := by
  rw [RateLimitPlan.waitingEnabled, Connector.CompiledRateLimitPolicy.waitingEnabled]
  show (operation.rateLimitPolicy.declared && (planRateLimitMode operation.rateLimitPolicy.mode ==
    .wait || planRateLimitMode operation.rateLimitPolicy.mode == .waitIfDeadlineAllows)) = _
  cases operation.rateLimitPolicy.mode <;> rfl

/-- The planner gives a step the larger of the two policies' attempts. -/
theorem planResilience_step {operation : SelectedOperation} {plan : PlannedScan}
    (h : planResilience operation = some plan) :
    plan.resiliencePolicy.maxAttemptsPerStep = max plan.retryPolicy.maxAttemptsPerStep
      (if plan.rateLimitPolicy.waitingEnabled then plan.rateLimitPolicy.maxAttemptsPerStep
        else 1) := by
  simp only [planResilience, Option.bind_eq_bind, Option.bind_eq_some_iff] at h
  obtain ⟨waiting, -, ⟨ordinary, aggregate, budgets⟩, -, h⟩ := h
  dsimp only at h
  rw [Option.ite_none_right_eq_some] at h
  obtain ⟨-, h⟩ := h
  obtain rfl := Option.some.inj h
  dsimp only
  rw [planRateLimit_waitingEnabled]
  rfl

theorem waiting_planned {policy : RateLimitPlan} (h : policy.isWithinHardBounds = true)
    (hidle : policy.waitingEnabled = false) : policy.maxAttemptsPerStep = 0 := by
  unfold RateLimitPlan.isWithinHardBounds at h
  split at h
  · simp only [Bool.and_eq_true, beq_iff_eq] at h
    exact h.1.1.2
  split at h
  · cases h
  split at h
  · cases h
  split at h
  · cases h
  split at h
  · cases h
  split at h
  · simp only [Bool.and_eq_true, beq_iff_eq] at h
    exact h.1.1.2
  · rw [hidle] at h
    cases h

section Narrowing

variable {plan : PlannedScan} {profile profile' : HttpExecutionProfile}

theorem min_le_both (a b : UInt64) : min a b ≤ a ∧ min a b ≤ b := by
  rw [UInt64.le_iff_toNat_le, UInt64.le_iff_toNat_le, toNat_min]
  omega

theorem min_le_min_left (a : UInt64) {b c : UInt64} (h : b ≤ c) : min a b ≤ min a c := by
  rw [UInt64.le_iff_toNat_le] at h ⊢
  rw [toNat_min, toNat_min]
  omega

theorem one_le_iff {n : UInt64} : 1 ≤ n ↔ n ≠ 0 := by
  rw [UInt64.le_iff_toNat_le, ne_eq, ← UInt64.toNat_inj]
  simp only [UInt64.reduceToNat]
  omega

/-- A policy that does not retry is planned with a single attempt. -/
theorem disabled_planned {policy : RetryPlan} (h : policy.isWithinHardBounds = true)
    (hdisabled : ¬policy.enabled = true) : policy.maxAttemptsPerStep = 1 := by
  rw [RetryPlan.isWithinHardBounds, if_pos (by simpa using hdisabled)] at h
  simp only [Bool.and_eq_true, beq_iff_eq] at h
  exact h.1.1.1

/-- What a retry policy keeps of the planned values and of the operator's. -/
theorem retryTriple_le (hplanned : plan.retryPolicy.isWithinHardBounds = true)
    (hoperator : 1 ≤ profile.maxRetryAttemptsPerStep) :
    ((retryTriple plan profile).1 ≤ plan.retryPolicy.maxAttemptsPerStep ∧
      (retryTriple plan profile).1 ≤ profile.maxRetryAttemptsPerStep) ∧
    ((retryTriple plan profile).2.1 ≤ plan.retryPolicy.maxDelayMilliseconds ∧
      (retryTriple plan profile).2.1 ≤ profile.maxRetryDelayMilliseconds) ∧
    ((retryTriple plan profile).2.2 ≤ plan.retryPolicy.maxCumulativeWaitingMillisecondsPerScan ∧
      (retryTriple plan profile).2.2 ≤ profile.maxRetryWaitingMillisecondsPerScan) := by
  unfold retryTriple
  split
  · rename_i henabled
    have hstep : 1 ≤ min plan.retryPolicy.maxAttemptsPerStep profile.maxRetryAttemptsPerStep := by
      rw [RetryPlan.enabled, decide_eq_true_eq] at henabled
      rw [UInt64.le_iff_toNat_le] at hoperator ⊢
      have hmore := UInt64.lt_iff_toNat_lt.mp henabled
      rw [toNat_min]
      simp only [UInt64.reduceToNat] at hoperator hmore ⊢
      omega
    obtain ⟨-, hkept, hdelay, hwaiting⟩ := @collapse_bounds _
      (min plan.retryPolicy.maxDelayMilliseconds profile.maxRetryDelayMilliseconds)
      (min plan.retryPolicy.maxCumulativeWaitingMillisecondsPerScan
        profile.maxRetryWaitingMillisecondsPerScan) hstep
    exact ⟨⟨UInt64.le_trans hkept (min_le_both _ _).1, UInt64.le_trans hkept (min_le_both _ _).2⟩,
      ⟨UInt64.le_trans hdelay (min_le_both _ _).1, UInt64.le_trans hdelay (min_le_both _ _).2⟩,
      UInt64.le_trans hwaiting (min_le_both _ _).1, UInt64.le_trans hwaiting (min_le_both _ _).2⟩
  · rename_i hdisabled
    rw [disabled_planned hplanned hdisabled]
    exact ⟨⟨UInt64.le_refl 1, hoperator⟩, ⟨UInt64.zero_le, UInt64.zero_le⟩, UInt64.zero_le,
      UInt64.zero_le⟩

theorem retryScan_le : retryScan plan profile ≤ plan.retryPolicy.maxAttemptsPerScan.toNat ∧
    retryScan plan profile ≤ profile.maxRetryAttemptsPerScan.toNat := by
  unfold retryScan
  dsimp only
  split <;> omega

/-- A policy that waits on rate limits is planned with a second attempt. -/
theorem waits_planned {policy : RateLimitPlan} (h : policy.isWithinHardBounds = true)
    (hwaits : policy.waitingEnabled = true) : 1 ≤ policy.maxAttemptsPerStep := by
  have hdeclared : policy.declared = true ∧ policy.mode ≠ .fail := by
    rw [RateLimitPlan.waitingEnabled, Bool.and_eq_true] at hwaits
    refine ⟨hwaits.1, fun hfail => ?_⟩
    rw [hfail] at hwaits
    exact absurd hwaits.2 (by decide)
  unfold RateLimitPlan.isWithinHardBounds at h
  rw [if_neg (by rw [hdeclared.1]; decide)] at h
  split at h
  · cases h
  split at h
  · cases h
  split at h
  · cases h
  split at h
  · cases h
  rw [if_neg fun hfail => hdeclared.2 (beq_iff_eq.mp hfail)] at h
  simp only [Bool.and_eq_true, decide_eq_true_eq] at h
  obtain ⟨⟨⟨⟨⟨⟨-, htwo⟩, -⟩, -⟩, -⟩, -⟩, -⟩ := h
  exact UInt64.le_trans (by decide) htwo

theorem allowed_caps (h : profile.allowsRateLimitWaiting = true) :
    profile.maxRateLimitAttemptsPerStep ≠ 0 ∧ profile.maxRateLimitAttemptsPerScan ≠ 0 ∧
      profile.maxRateLimitDelayMilliseconds ≠ 0 ∧
      profile.maxRateLimitWaitingMillisecondsPerScan ≠ 0 ∧
      profile.maxCombinedWaitingMillisecondsPerScan ≠ 0 := by
  simp only [HttpExecutionProfile.allowsRateLimitWaiting, Bool.not_eq_true', Bool.or_eq_false_iff,
    beq_eq_false_iff_ne] at h
  obtain ⟨⟨⟨⟨hstep, hscan⟩, hdelay⟩, hwaiting⟩, hcombined⟩ := h
  exact ⟨hstep, hscan, hdelay, hwaiting, hcombined⟩

/-- What a rate-limit policy keeps of the planned values and of the operator's. -/
theorem rateLimitTriple_le (hplanned : plan.rateLimitPolicy.isWithinHardBounds = true) :
    (plan.rateLimitPolicy.waitingEnabled = true →
      (rateLimitTriple plan profile).1 ≤ plan.rateLimitPolicy.maxAttemptsPerStep) ∧
    (rateLimitTriple plan profile).2.1 ≤ plan.rateLimitPolicy.maxDelayMilliseconds ∧
    (rateLimitTriple plan profile).2.2 ≤
      plan.rateLimitPolicy.maxCumulativeWaitingMillisecondsPerScan ∧
    (profile.allowsRateLimitWaiting = true →
      (rateLimitTriple plan profile).1 ≤ profile.maxRateLimitAttemptsPerStep ∧
        (rateLimitTriple plan profile).2.1 ≤ profile.maxRateLimitDelayMilliseconds ∧
        (rateLimitTriple plan profile).2.2 ≤ profile.maxRateLimitWaitingMillisecondsPerScan) := by
  unfold rateLimitTriple
  split
  · rename_i hon
    rw [Bool.and_eq_true] at hon
    have hstep : 1 ≤ min plan.rateLimitPolicy.maxAttemptsPerStep
        profile.maxRateLimitAttemptsPerStep := by
      have hfirst := waits_planned hplanned hon.1
      have hsecond := one_le_iff.mpr (allowed_caps hon.2).1
      rw [UInt64.le_iff_toNat_le] at hfirst hsecond ⊢
      rw [toNat_min]
      omega
    obtain ⟨-, hkept, hdelay, hwaiting⟩ := @collapse_bounds _
      (min plan.rateLimitPolicy.maxDelayMilliseconds profile.maxRateLimitDelayMilliseconds)
      (min plan.rateLimitPolicy.maxCumulativeWaitingMillisecondsPerScan
        profile.maxRateLimitWaitingMillisecondsPerScan) hstep
    refine ⟨fun _ => UInt64.le_trans hkept (min_le_both _ _).1,
      UInt64.le_trans hdelay (min_le_both _ _).1, UInt64.le_trans hwaiting (min_le_both _ _).1,
      fun _ => ⟨UInt64.le_trans hkept (min_le_both _ _).2, ?_, ?_⟩⟩
    · exact UInt64.le_trans hdelay (min_le_both _ _).2
    · exact UInt64.le_trans hwaiting (min_le_both _ _).2
  · refine ⟨fun hwaits => waits_planned hplanned hwaits, UInt64.zero_le, UInt64.zero_le,
      fun hallowed => ⟨?_, UInt64.zero_le, UInt64.zero_le⟩⟩
    exact one_le_iff.mpr (allowed_caps hallowed).1

/-- The attempts of a scan stay under what the operator allows. -/
theorem rateLimitScan_le (hallowed : profile.allowsRateLimitWaiting = true) :
    rateLimitScan plan profile ≤ profile.maxRateLimitAttemptsPerScan.toNat := by
  unfold rateLimitScan
  split
  · omega
  · exact UInt64.le_iff_toNat_le.mp (one_le_iff.mpr (allowed_caps hallowed).2.1)

/-- An operation that does not wait on rate limits keeps to a single attempt. -/
theorem rateLimitTriple_idle (h : plan.rateLimitPolicy.waitingEnabled = false) :
    rateLimitTriple plan profile = (1, 0, 0) := by
  rw [rateLimitTriple, h]
  rfl

theorem narrowed {operation : SelectedOperation} {retry : RetryPlan}
    {rateLimit : AdmittedRateLimitPolicy} {resilience : AdmittedResiliencePolicy}
    (hplan : planResilience operation = some plan)
    (h : tryAdmitResiliencePolicies plan profile = some (retry, rateLimit, resilience)) :
    Narrowed plan profile retry rateLimit resilience := by
  obtain ⟨-, hretry, hrate, hcombined⟩ := admitted_parts h
  obtain ⟨hretryStep, hretryDelay, hretryWaiting⟩ := retryTriple_le hretry.planned hretry.operator
  obtain ⟨hrateStep, hrateDelay, hrateWaiting, hoperator⟩ :=
    @rateLimitTriple_le plan profile hrate.planned
  have hscan := hcombined.scan_le
  -- One bullet for each bound of the structure, in its order.
  constructor
  · rw [hretry.step]
    exact hretryStep
  · rw [UInt64.le_iff_toNat_le, UInt64.le_iff_toNat_le, hretry.scan]
    exact retryScan_le
  · rw [hretry.delay]
    exact hretryDelay
  · rw [hretry.waiting]
    exact hretryWaiting
  · rw [hrate.step]
    exact hrateStep
  · rw [hrate.delay]
    exact hrateDelay
  · rw [hrate.waiting]
    exact hrateWaiting
  · rw [UInt64.le_iff_toNat_le] at hscan ⊢
    have hparts := hcombined.scan
    omega
  · intro hidle
    refine ⟨waiting_planned hrate.planned hidle, hrate.paused ?_⟩
    rw [rateLimitTriple_idle hidle]
    exact UInt64.le_refl 1
  · intro hallowed
    rw [hrate.step, hrate.delay, hrate.waiting]
    refine ⟨(hoperator hallowed).1, ?_, (hoperator hallowed).2⟩
    rw [UInt64.le_iff_toNat_le, hrate.scan]
    exact rateLimitScan_le hallowed
  · have hstep : rateLimit.maxAttemptsPerStep ≤
        (if plan.rateLimitPolicy.waitingEnabled then plan.rateLimitPolicy.maxAttemptsPerStep
          else 1) := by
      rw [hrate.step]
      split
      · rename_i hwaits
        exact hrateStep hwaits
      · rename_i hidle
        rw [rateLimitTriple_idle (Bool.eq_false_of_not_eq_true hidle)]
        exact UInt64.le_refl 1
    have hmax := hcombined.step
    have hfirst := hretryStep.1
    rw [← hretry.step] at hfirst
    rw [planResilience_step hplan]
    rw [UInt64.le_iff_toNat_le] at hstep hfirst ⊢
    rw [toNat_max]
    omega
  · exact hscan
  · exact hcombined.waiting_le
  · intro hon
    rw [UInt64.le_iff_toNat_le, hcombined.waiting, if_neg hon]
    omega
  · exact hcombined.covers

end Narrowing

-- ---------------------------------------------------------------------------
-- Smaller profiles
-- ---------------------------------------------------------------------------

/-- A profile with smaller retry and rate-limit caps and the same combined cap. -/
structure HttpExecutionProfile.Smaller (profile profile' : HttpExecutionProfile) : Prop where
  retryStep : profile.maxRetryAttemptsPerStep ≤ profile'.maxRetryAttemptsPerStep
  retryScan : profile.maxRetryAttemptsPerScan ≤ profile'.maxRetryAttemptsPerScan
  retryDelay : profile.maxRetryDelayMilliseconds ≤ profile'.maxRetryDelayMilliseconds
  retryWaiting :
    profile.maxRetryWaitingMillisecondsPerScan ≤ profile'.maxRetryWaitingMillisecondsPerScan
  rateLimitStep : profile.maxRateLimitAttemptsPerStep ≤ profile'.maxRateLimitAttemptsPerStep
  rateLimitScan : profile.maxRateLimitAttemptsPerScan ≤ profile'.maxRateLimitAttemptsPerScan
  rateLimitDelay : profile.maxRateLimitDelayMilliseconds ≤ profile'.maxRateLimitDelayMilliseconds
  rateLimitWaiting : profile.maxRateLimitWaitingMillisecondsPerScan ≤
    profile'.maxRateLimitWaitingMillisecondsPerScan
  combined : profile.maxCombinedWaitingMillisecondsPerScan =
    profile'.maxCombinedWaitingMillisecondsPerScan

/-- Every bound of the first is at most that of the second. -/
structure BoundsLe (retry retry' : RetryPlan) (rateLimit rateLimit' : AdmittedRateLimitPolicy)
    (resilience resilience' : AdmittedResiliencePolicy) : Prop where
  retryStep : retry.maxAttemptsPerStep ≤ retry'.maxAttemptsPerStep
  retryScan : retry.maxAttemptsPerScan ≤ retry'.maxAttemptsPerScan
  retryDelay : retry.maxDelayMilliseconds ≤ retry'.maxDelayMilliseconds
  retryWaiting : retry.maxCumulativeWaitingMillisecondsPerScan ≤
    retry'.maxCumulativeWaitingMillisecondsPerScan
  rateLimitStep : rateLimit.maxAttemptsPerStep ≤ rateLimit'.maxAttemptsPerStep
  rateLimitScan : rateLimit.maxAttemptsPerScan ≤ rateLimit'.maxAttemptsPerScan
  rateLimitDelay : rateLimit.maxDelayMilliseconds ≤ rateLimit'.maxDelayMilliseconds
  rateLimitWaiting : rateLimit.maxCumulativeWaitingMillisecondsPerScan ≤
    rateLimit'.maxCumulativeWaitingMillisecondsPerScan
  combinedStep : resilience.maxAttemptsPerStep ≤ resilience'.maxAttemptsPerStep
  combinedScan : resilience.maxAttemptsPerScan ≤ resilience'.maxAttemptsPerScan
  combinedWaiting : resilience.maxCumulativeWaitingMillisecondsPerScan ≤
    resilience'.maxCumulativeWaitingMillisecondsPerScan

section Smaller

variable {plan : PlannedScan} {profile profile' : HttpExecutionProfile}

theorem retryTriple_mono (h : profile.Smaller profile') :
    (retryTriple plan profile).1 ≤ (retryTriple plan profile').1 ∧
      (retryTriple plan profile).2.1 ≤ (retryTriple plan profile').2.1 ∧
      (retryTriple plan profile).2.2 ≤ (retryTriple plan profile').2.2 := by
  unfold retryTriple
  split
  · exact collapse_le (min_le_min_left _ h.retryStep) (min_le_min_left _ h.retryDelay)
      (min_le_min_left _ h.retryWaiting)
  · exact ⟨UInt64.le_refl _, UInt64.le_refl _, UInt64.le_refl _⟩

theorem retryScan_mono (h : profile.Smaller profile') :
    retryScan plan profile ≤ retryScan plan profile' := by
  have hscan := UInt64.le_iff_toNat_le.mp h.retryScan
  have hstep := UInt64.le_iff_toNat_le.mp (@retryTriple_mono plan _ _ h).1
  have hshape := Nat.mul_le_mul_left plan.pages.toNat hstep
  unfold retryScan
  dsimp only
  split <;> omega

/-- A larger profile waits on rate limits where a smaller one does. -/
theorem allowed_mono (h : profile.Smaller profile')
    (hallowed : profile.allowsRateLimitWaiting = true) :
    profile'.allowsRateLimitWaiting = true := by
  obtain ⟨hstep, hscan, hdelay, hwaiting, hcombined⟩ := allowed_caps hallowed
  have hgrows {a b : UInt64} (hle : a ≤ b) (ha : a ≠ 0) : b ≠ 0 :=
    one_le_iff.mp (UInt64.le_trans (one_le_iff.mpr ha) hle)
  rw [h.combined] at hcombined
  simp only [HttpExecutionProfile.allowsRateLimitWaiting, Bool.not_eq_true', Bool.or_eq_false_iff,
    beq_eq_false_iff_ne]
  exact ⟨⟨⟨⟨hgrows h.rateLimitStep hstep, hgrows h.rateLimitScan hscan⟩,
    hgrows h.rateLimitDelay hdelay⟩, hgrows h.rateLimitWaiting hwaiting⟩, hcombined⟩

theorem rateLimitTriple_mono (h : profile.Smaller profile') :
    (rateLimitTriple plan profile).1 ≤ (rateLimitTriple plan profile').1 ∧
      (rateLimitTriple plan profile).2.1 ≤ (rateLimitTriple plan profile').2.1 ∧
      (rateLimitTriple plan profile).2.2 ≤ (rateLimitTriple plan profile').2.2 := by
  by_cases hon : (plan.rateLimitPolicy.waitingEnabled && profile.allowsRateLimitWaiting) = true
  · have hparts := (Bool.and_eq_true _ _).mp hon
    have hon' : (plan.rateLimitPolicy.waitingEnabled && profile'.allowsRateLimitWaiting) = true :=
      (Bool.and_eq_true _ _).mpr ⟨hparts.1, allowed_mono h hparts.2⟩
    rw [rateLimitTriple, rateLimitTriple, if_pos hon, if_pos hon']
    exact collapse_le (min_le_min_left _ h.rateLimitStep) (min_le_min_left _ h.rateLimitDelay)
      (min_le_min_left _ h.rateLimitWaiting)
  · have hidle : rateLimitTriple plan profile = (1, 0, 0) := if_neg hon
    rw [hidle]
    exact ⟨rateLimitTriple_step_le, UInt64.zero_le, UInt64.zero_le⟩

/-- A scan that waits on rate limits has an attempt at least. -/
theorem one_le_rateLimitScan (hpages : plan.pages ≠ 0) : 1 ≤ rateLimitScan plan profile := by
  unfold rateLimitScan
  split
  · rename_i hmore
    have hallowed : profile.allowsRateLimitWaiting = true := by
      by_contra hoff
      have hidle : rateLimitTriple plan profile = (1, 0, 0) :=
        if_neg fun hon => hoff ((Bool.and_eq_true _ _).mp hon).2
      rw [hidle] at hmore
      exact absurd hmore (by decide)
    have hcap := UInt64.le_iff_toNat_le.mp (one_le_iff.mpr (allowed_caps hallowed).2.1)
    have hfirst := UInt64.le_iff_toNat_le.mp (one_le_iff.mpr hpages)
    have hstep := UInt64.le_iff_toNat_le.mp (@rateLimitTriple_step_le plan profile)
    have hproduct := Nat.mul_le_mul hfirst hstep
    simp only [UInt64.reduceToNat] at hcap hproduct
    omega
  · exact Nat.le_refl 1

theorem rateLimitScan_mono (hpages : plan.pages ≠ 0) (h : profile.Smaller profile') :
    rateLimitScan plan profile ≤ rateLimitScan plan profile' := by
  have hstep := (@rateLimitTriple_mono plan _ _ h).1
  by_cases hmore : (rateLimitTriple plan profile).1 > 1
  · have hmore' : (rateLimitTriple plan profile').1 > 1 := by
      rw [gt_iff_lt, UInt64.lt_iff_toNat_lt] at hmore ⊢
      rw [UInt64.le_iff_toNat_le] at hstep
      omega
    have hcap := UInt64.le_iff_toNat_le.mp h.rateLimitScan
    have hshape := Nat.mul_le_mul_left plan.pages.toNat (UInt64.le_iff_toNat_le.mp hstep)
    rw [rateLimitScan, rateLimitScan, if_pos hmore, if_pos hmore']
    omega
  · have hone : rateLimitScan plan profile = 1 := if_neg hmore
    rw [hone]
    exact one_le_rateLimitScan hpages

theorem bounds_mono {retry retry' : RetryPlan} {rateLimit rateLimit' : AdmittedRateLimitPolicy}
    {resilience resilience' : AdmittedResiliencePolicy} (hsmaller : profile.Smaller profile')
    (h : tryAdmitResiliencePolicies plan profile = some (retry, rateLimit, resilience))
    (h' : tryAdmitResiliencePolicies plan profile' = some (retry', rateLimit', resilience')) :
    BoundsLe retry retry' rateLimit rateLimit' resilience resilience' := by
  obtain ⟨hpages, hretry, hrate, hcombined⟩ := admitted_parts h
  obtain ⟨-, hretry', hrate', hcombined'⟩ := admitted_parts h'
  obtain ⟨hretryStep, hretryDelay, hretryWaiting⟩ := @retryTriple_mono plan _ _ hsmaller
  obtain ⟨hrateStep, hrateDelay, hrateWaiting⟩ := @rateLimitTriple_mono plan _ _ hsmaller
  have hretryScan := @retryScan_mono plan _ _ hsmaller
  have hrateScan := rateLimitScan_mono hpages hsmaller
  rw [← hretry.step, ← hretry'.step] at hretryStep
  rw [← hretry.delay, ← hretry'.delay] at hretryDelay
  rw [← hretry.waiting, ← hretry'.waiting] at hretryWaiting
  rw [← hrate.step, ← hrate'.step] at hrateStep
  rw [← hrate.delay, ← hrate'.delay] at hrateDelay
  rw [← hrate.waiting, ← hrate'.waiting] at hrateWaiting
  rw [← hretry.scan, ← hretry'.scan] at hretryScan
  rw [← hrate.scan, ← hrate'.scan] at hrateScan
  refine ⟨hretryStep, UInt64.le_iff_toNat_le.mpr hretryScan, hretryDelay, hretryWaiting,
    hrateStep, UInt64.le_iff_toNat_le.mpr hrateScan, hrateDelay, hrateWaiting, ?_, ?_, ?_⟩
  · rw [UInt64.le_iff_toNat_le] at hretryStep hrateStep ⊢
    rw [hcombined.step, hcombined'.step]
    omega
  · rw [UInt64.le_iff_toNat_le, hcombined.scan, hcombined'.scan]
    omega
  · rw [UInt64.le_iff_toNat_le] at hretryWaiting hrateWaiting ⊢
    rw [hcombined.waiting, hcombined'.waiting, hsmaller.combined]
    split <;> omega

end Smaller

/-- Admission only narrows what was planned and what the operator allows, leaves every page an
attempt, and gives a smaller profile no more than a larger one. -/
theorem resilience_narrows {operation : SelectedOperation} {plan : PlannedScan}
    (hplan : planResilience operation = some plan) :
    (∀ profile retry rateLimit resilience,
      tryAdmitResiliencePolicies plan profile = some (retry, rateLimit, resilience) →
        Narrowed plan profile retry rateLimit resilience) ∧
    ∀ profile profile' retry rateLimit resilience retry' rateLimit' resilience',
      HttpExecutionProfile.Smaller profile profile' →
      tryAdmitResiliencePolicies plan profile = some (retry, rateLimit, resilience) →
      tryAdmitResiliencePolicies plan profile' = some (retry', rateLimit', resilience') →
        BoundsLe retry retry' rateLimit rateLimit' resilience resilience' :=
  ⟨fun _ _ _ _ h => narrowed hplan h,
    fun _ _ _ _ _ _ _ _ hsmaller h h' => bounds_mono hsmaller h h'⟩

/-- A paginated operation that retries and waits on rate limits. -/
def waitingOperation : SelectedOperation where
  connectorName := ascii "example"
  packageMajorVersion := 1
  replayClass := .replayableRead
  retryRecommendation := ⟨3, 100, 250⟩
  rateLimitPolicy :=
    { declared := true
      mode := .wait
      statuses := [429]
      operationFamily := ascii "rest"
      scope := .shared
      guidance := [⟨ascii "retry-after", .retryAfter⟩]
      remainingQuotaHeader := []
      remoteBucketHeader := []
      maxAttemptsPerStep := 2
      maxDelayMilliseconds := 30000
      maxCumulativeWaitingMillisecondsPerScan := 20000 }
  maxPages := some 4

/-- The operator halves the attempts and caps what both policies wait together. -/
def narrowProfile : HttpExecutionProfile := ⟨2, 6, 50, 200, 2, 8, 1000, 5000, 4000⟩

theorem resilience_narrows_waiting : ∃ plan retry rateLimit resilience,
    planResilience waitingOperation = some plan ∧
      tryAdmitResiliencePolicies plan narrowProfile = some (retry, rateLimit, resilience) ∧
      rateLimit.waitingEnabled = true ∧
      Narrowed plan narrowProfile retry rateLimit resilience := by
  have hrun : ((planResilience waitingOperation).bind fun plan =>
      tryAdmitResiliencePolicies plan narrowProfile).any (·.2.1.waitingEnabled) = true := by
    decide +kernel
  match hplan : planResilience waitingOperation with
  | none =>
    rw [hplan] at hrun
    cases hrun
  | some plan =>
    rw [hplan, Option.bind_some] at hrun
    match hgranted : tryAdmitResiliencePolicies plan narrowProfile with
    | none =>
      rw [hgranted] at hrun
      cases hrun
    | some (retry, rateLimit, resilience) =>
      rw [hgranted] at hrun
      exact ⟨plan, retry, rateLimit, resilience, rfl, hgranted, hrun,
        (resilience_narrows hplan).1 _ _ _ _ hgranted⟩

/-- An operation that declares neither policy. -/
def plainOperation : SelectedOperation where
  connectorName := ascii "example"
  packageMajorVersion := 1
  replayClass := .replayableRead
  retryRecommendation := ⟨0, 0, 0⟩
  rateLimitPolicy :=
    { declared := false
      mode := .fail
      statuses := []
      operationFamily := []
      scope := .shared
      guidance := []
      remainingQuotaHeader := []
      remoteBucketHeader := []
      maxAttemptsPerStep := 0
      maxDelayMilliseconds := 0
      maxCumulativeWaitingMillisecondsPerScan := 0 }
  maxPages := none

/-- The single attempt of an operation without a rate-limit policy is more than the none that
is planned for it. -/
theorem single_attempt_unplanned :
    ((planResilience plainOperation).bind fun plan =>
      (tryAdmitResiliencePolicies plan narrowProfile).map fun admitted =>
        (admitted.2.1.maxAttemptsPerStep, plan.rateLimitPolicy.maxAttemptsPerStep)) =
      some (1, 0) := by
  decide +kernel

end Cuac.Runtime.Resilience

import Cuac.Connector.Catalog
import Cuac.Runtime.RetryDelay

/-!
# Runtime — resilience policies

The resilience part of a plan as the planner writes it, and its admission under the
profile of an operator: the retry policy, the rate-limit policy and what both may spend
together. A policy that its bounds leave nothing to do is admitted as a single attempt.
-/

namespace Cuac.Runtime.Resilience

open Cuac.Lib

-- ---------------------------------------------------------------------------
-- Plans
-- ---------------------------------------------------------------------------

inductive FeatureState
  | disabled
  | enabled
  deriving DecidableEq, Repr

def FeatureState.of (on : Bool) : FeatureState := if on then .enabled else .disabled

/-- `RetryPlan::IsWithinHardBounds` -/
def RetryPlan.isWithinHardBounds (policy : RetryPlan) : Bool :=
  if !policy.enabled then
    policy.maxAttemptsPerStep == 1 && policy.maxAttemptsPerScan > 0 &&
      policy.maxDelayMilliseconds == 0 && policy.maxCumulativeWaitingMillisecondsPerScan == 0
  else
    policy.maxAttemptsPerStep ≤ 3 && policy.maxAttemptsPerScan > 0 &&
      policy.maxAttemptsPerScan ≤ 96 && policy.maxDelayMilliseconds > 0 &&
      policy.maxDelayMilliseconds ≤ 100 && policy.maxCumulativeWaitingMillisecondsPerScan > 0 &&
      policy.maxCumulativeWaitingMillisecondsPerScan ≤ 250

structure RateLimitPlan where
  declared : Bool
  mode : RateLimitMode
  statuses : List UInt16
  operationFamily : Bytes
  guidance : List PlannedRateLimitGuidance
  remainingQuotaHeader : Bytes
  remoteBucketHeader : Bytes
  maxAttemptsPerStep : UInt64
  maxDelayMilliseconds : UInt64
  maxCumulativeWaitingMillisecondsPerScan : UInt64
  packageMajorVersion : UInt32
  deriving DecidableEq, Repr

def isOperationFamilyCharacter (b : UInt8) (first : Bool) : Bool :=
  (byte 'a' ≤ b && b ≤ byte 'z') ||
    (!first && ((byte '0' ≤ b && b ≤ byte '9') || b == byte '_'))

def isCanonicalOperationFamily (value : Bytes) : Bool :=
  match value with
  | [] => false
  | first :: rest =>
    value.length ≤ 64 && isOperationFamilyCharacter first true &&
      rest.all fun b => isOperationFamilyCharacter b false

def isHttpTokenCharacter (b : UInt8) : Bool :=
  (byte 'a' ≤ b && b ≤ byte 'z') || (byte '0' ≤ b && b ≤ byte '9') || b == byte '!' ||
    b == byte '#' || b == byte '$' || b == byte '%' || b == byte '&' || b == 0x27 ||
    b == byte '*' || b == byte '+' || b == byte '-' || b == byte '.' || b == byte '^' ||
    b == byte '_' || b == 0x60 || b == byte '|' || b == byte '~'

def isCanonicalRateLimitHeaderName (value : Bytes) : Bool :=
  !value.isEmpty && value.length ≤ 64 && value != ascii "date" && value.all isHttpTokenCharacter

/-- Each status against the one before it. -/
def statusesOrdered : Option UInt16 → List UInt16 → Bool
  | _, [] => true
  | previous, status :: rest =>
    !(status < 400 || status > 599 || status == 401 || status == 403 || status == 407 ||
        previous.any (· ≥ status)) && statusesOrdered (some status) rest

/-- Each guidance field against the ones before it. -/
def guidanceDistinct (policy : RateLimitPlan) :
    List PlannedRateLimitGuidance → List PlannedRateLimitGuidance → Bool
  | _, [] => true
  | previous, field :: rest =>
    !(!isCanonicalRateLimitHeaderName field.headerName ||
        (!policy.remainingQuotaHeader.isEmpty && field.headerName == policy.remainingQuotaHeader) ||
        (!policy.remoteBucketHeader.isEmpty && field.headerName == policy.remoteBucketHeader)) &&
      !(previous.any fun other => other.headerName == field.headerName) &&
      guidanceDistinct policy (previous ++ [field]) rest

def RateLimitPlan.waitingEnabled (policy : RateLimitPlan) : Bool :=
  policy.declared && (policy.mode == .wait || policy.mode == .waitIfDeadlineAllows)

/-- `RateLimitPlan::IsWithinHardBounds` -/
def RateLimitPlan.isWithinHardBounds (policy : RateLimitPlan) : Bool :=
  if !policy.declared then
    policy.statuses.isEmpty && policy.operationFamily.isEmpty && policy.guidance.isEmpty &&
      policy.remainingQuotaHeader.isEmpty && policy.remoteBucketHeader.isEmpty &&
      policy.maxAttemptsPerStep == 0 && policy.maxDelayMilliseconds == 0 &&
      policy.maxCumulativeWaitingMillisecondsPerScan == 0
  else if policy.statuses.isEmpty || policy.statuses.length > 8 ||
      !isCanonicalOperationFamily policy.operationFamily then false
  else if !statusesOrdered none policy.statuses then false
  else if !guidanceDistinct policy [] policy.guidance then false
  else if (!policy.remainingQuotaHeader.isEmpty &&
        !isCanonicalRateLimitHeaderName policy.remainingQuotaHeader) ||
      (!policy.remoteBucketHeader.isEmpty &&
        !isCanonicalRateLimitHeaderName policy.remoteBucketHeader) ||
      (!policy.remainingQuotaHeader.isEmpty &&
        policy.remainingQuotaHeader == policy.remoteBucketHeader) then false
  else if policy.mode == .fail then
    policy.guidance.isEmpty && policy.remainingQuotaHeader.isEmpty &&
      policy.remoteBucketHeader.isEmpty && policy.maxAttemptsPerStep == 0 &&
      policy.maxDelayMilliseconds == 0 && policy.maxCumulativeWaitingMillisecondsPerScan == 0
  else
    policy.waitingEnabled && !policy.guidance.isEmpty && policy.guidance.length ≤ 4 &&
      policy.maxAttemptsPerStep ≥ 2 && policy.maxAttemptsPerStep ≤ 3 &&
      policy.maxDelayMilliseconds > 0 && policy.maxDelayMilliseconds ≤ 30000 &&
      policy.maxCumulativeWaitingMillisecondsPerScan > 0 &&
      policy.maxCumulativeWaitingMillisecondsPerScan ≤ 30000

structure ResiliencePlan where
  maxAttemptsPerStep : UInt64
  maxAttemptsPerScan : UInt64
  maxCumulativeWaitingMillisecondsPerScan : UInt64
  deriving DecidableEq, Repr

/-- `ResiliencePlan::IsWithinHardBounds` -/
def ResiliencePlan.isWithinHardBounds (policy : ResiliencePlan) : Bool :=
  policy.maxAttemptsPerStep > 0 && policy.maxAttemptsPerStep ≤ 3 &&
    policy.maxAttemptsPerScan ≥ policy.maxAttemptsPerStep && policy.maxAttemptsPerScan ≤ 96 &&
    policy.maxCumulativeWaitingMillisecondsPerScan ≤ 30000

/-- What admission reads of the budgets of a paginated scan. -/
structure ScanBudgets where
  requestAttempts : UInt64
  pages : UInt64
  deriving DecidableEq, Repr

/-- What admission reads of a plan. Without pagination there are no scan budgets. -/
structure PlannedScan where
  connectorName : Bytes
  replayClass : Connector.ReplayClass
  retry : FeatureState
  retryPolicy : RetryPlan
  rateLimit : FeatureState
  rateLimitPolicy : RateLimitPlan
  resiliencePolicy : ResiliencePlan
  requestAttempts : UInt64
  scanBudgets : Option ScanBudgets
  deriving DecidableEq, Repr

-- ---------------------------------------------------------------------------
-- The planner
-- ---------------------------------------------------------------------------

/-- `BoundedProduct`; `none` where it throws. -/
def boundedProduct (left right ceiling : UInt64) : Option UInt64 :=
  if left == 0 || right == 0 || left > 18446744073709551615 / right then none
  else some (min (left * right) ceiling)

/-- `BoundedSum`; `none` where it throws. -/
def boundedSum (left right ceiling : UInt64) : Option UInt64 :=
  if left > 18446744073709551615 - right then none else some (min (left + right) ceiling)

def planRateLimitMode : Connector.RateLimitMode → RateLimitMode
  | .fail => .fail
  | .wait => .wait
  | .waitIfDeadlineAllows => .waitIfDeadlineAllows

def planRateLimitGuidanceFormat : Connector.RateLimitGuidanceFormat → RateLimitGuidanceFormat
  | .retryAfter => .retryAfter
  | .deltaSeconds => .deltaSeconds
  | .unixSeconds => .unixSeconds

/-- What the planner reads of the selected operation. -/
structure SelectedOperation where
  connectorName : Bytes
  packageMajorVersion : UInt32
  replayClass : Connector.ReplayClass
  retryRecommendation : Connector.CompiledRetryRecommendation
  rateLimitPolicy : Connector.CompiledRateLimitPolicy
  /-- The pages of a scan; without pagination there are none. -/
  maxPages : Option UInt64

def retryAttemptsPerStep (operation : SelectedOperation) : UInt64 :=
  if operation.retryRecommendation.enabled then
    operation.retryRecommendation.maxAttemptsPerStep.toUInt64
  else 1

def rateLimitAttemptsPerStep (operation : SelectedOperation) : UInt64 :=
  if operation.rateLimitPolicy.waitingEnabled then
    operation.rateLimitPolicy.maxAttemptsPerStep.toUInt64
  else 1

def planRateLimit (operation : SelectedOperation) : RateLimitPlan :=
  let policy := operation.rateLimitPolicy
  { declared := policy.declared
    mode := planRateLimitMode policy.mode
    statuses := policy.statuses.map Nat.toUInt16
    operationFamily := policy.operationFamily
    guidance := policy.guidance.map fun field =>
      ⟨field.headerName, planRateLimitGuidanceFormat field.format⟩
    remainingQuotaHeader := policy.remainingQuotaHeader
    remoteBucketHeader := policy.remoteBucketHeader
    maxAttemptsPerStep := policy.maxAttemptsPerStep.toUInt64
    maxDelayMilliseconds := policy.maxDelayMilliseconds.toUInt64
    maxCumulativeWaitingMillisecondsPerScan :=
      policy.maxCumulativeWaitingMillisecondsPerScan.toUInt64
    packageMajorVersion := if policy.declared then operation.packageMajorVersion else 0 }

/-- `ScanResourceBudgets::IsWithinPaginatedScanBounds`, its attempts and pages. -/
def ScanBudgets.isWithinPaginatedScanBounds (budgets : ScanBudgets) : Bool :=
  budgets.requestAttempts ≥ budgets.pages && budgets.pages > 0 && budgets.pages ≤ 32 &&
    budgets.requestAttempts ≤ 96 && budgets.requestAttempts ≤ budgets.pages * 3

/-- The attempts of a scan: of retries, of both policies, and the scan budgets. -/
def planAttempts (operation : SelectedOperation) :
    Option (UInt64 × UInt64 × Option ScanBudgets) :=
  let attempts := max (retryAttemptsPerStep operation) (rateLimitAttemptsPerStep operation)
  match operation.maxPages with
  | none => some (retryAttemptsPerStep operation, attempts, none)
  | some pages => do
    let aggregate ← boundedProduct pages attempts 96
    let ordinary ← boundedProduct pages (retryAttemptsPerStep operation) 96
    let budgets : ScanBudgets := ⟨aggregate, pages⟩
    if budgets.isWithinPaginatedScanBounds then some (ordinary, aggregate, some budgets) else none

/-- The check of the finished plan. -/
def PlannedScan.isCoherent (plan : PlannedScan) : Bool :=
  plan.retryPolicy.isWithinHardBounds && plan.rateLimitPolicy.isWithinHardBounds &&
    plan.resiliencePolicy.isWithinHardBounds &&
    (plan.retry == .enabled) == plan.retryPolicy.enabled &&
    (plan.rateLimit == .enabled) == plan.rateLimitPolicy.declared &&
    plan.replayClass == .replayableRead &&
    plan.resiliencePolicy.maxAttemptsPerStep == plan.requestAttempts &&
    plan.scanBudgets.all (plan.resiliencePolicy.maxAttemptsPerScan == ·.requestAttempts)

/-- The resilience part of `ScanPlanBuilder::Build`; `none` where it throws. -/
def planResilience (operation : SelectedOperation) : Option PlannedScan := do
  let retry := operation.retryRecommendation
  let rateLimitPolicy := planRateLimit operation
  let attempts := max (retryAttemptsPerStep operation) (rateLimitAttemptsPerStep operation)
  let retryWaiting :=
    if retry.enabled then retry.maxCumulativeWaitingMillisecondsPerScan.toUInt64 else 0
  let waiting ←
    boundedSum retryWaiting rateLimitPolicy.maxCumulativeWaitingMillisecondsPerScan 30000
  let (ordinary, aggregate, budgets) ← planAttempts operation
  let plan : PlannedScan :=
    { connectorName := operation.connectorName
      replayClass := operation.replayClass
      retry := .of retry.enabled
      retryPolicy :=
        { maxAttemptsPerStep := retryAttemptsPerStep operation
          maxAttemptsPerScan := ordinary
          maxDelayMilliseconds := if retry.enabled then retry.maxDelayMilliseconds.toUInt64 else 0
          maxCumulativeWaitingMillisecondsPerScan := retryWaiting }
      rateLimit := .of rateLimitPolicy.declared
      rateLimitPolicy := rateLimitPolicy
      resiliencePolicy := ⟨attempts, aggregate, waiting⟩
      requestAttempts := attempts
      scanBudgets := budgets }
  if plan.isCoherent then some plan else none

-- ---------------------------------------------------------------------------
-- Admission
-- ---------------------------------------------------------------------------

/-- What admission reads of the operator's profile. -/
structure HttpExecutionProfile where
  maxRetryAttemptsPerStep : UInt64
  maxRetryAttemptsPerScan : UInt64
  maxRetryDelayMilliseconds : UInt64
  maxRetryWaitingMillisecondsPerScan : UInt64
  maxRateLimitAttemptsPerStep : UInt64
  maxRateLimitAttemptsPerScan : UInt64
  maxRateLimitDelayMilliseconds : UInt64
  maxRateLimitWaitingMillisecondsPerScan : UInt64
  maxCombinedWaitingMillisecondsPerScan : UInt64
  deriving DecidableEq, Repr

structure AdmittedResiliencePolicy where
  maxAttemptsPerStep : UInt64
  maxAttemptsPerScan : UInt64
  maxCumulativeWaitingMillisecondsPerScan : UInt64
  deriving DecidableEq, Repr

/-- The pages of a scan; one without pagination. -/
def PlannedScan.pages (plan : PlannedScan) : UInt64 :=
  match plan.scanBudgets with
  | none => 1
  | some budgets => budgets.pages

/-- Attempts, delay and waiting that leave nothing to do are a single attempt. -/
def collapse (step delay waiting : UInt64) : UInt64 × UInt64 × UInt64 :=
  if step ≤ 1 || delay == 0 || waiting == 0 then (1, 0, 0) else (step, delay, waiting)

def tryAdmitRetryPolicy (plan : PlannedScan) (profile : HttpExecutionProfile) :
    Option RetryPlan :=
  let planned := plan.retryPolicy
  if plan.replayClass != .replayableRead || !planned.isWithinHardBounds ||
      (plan.retry == .enabled) != planned.enabled || profile.maxRetryAttemptsPerStep == 0 ||
      profile.maxRetryAttemptsPerStep > 3 || profile.maxRetryAttemptsPerScan == 0 ||
      profile.maxRetryAttemptsPerScan > 96 || profile.maxRetryDelayMilliseconds > 100 ||
      profile.maxRetryWaitingMillisecondsPerScan > 250 then none
  else if !planned.enabled then
    let scan := min planned.maxAttemptsPerScan profile.maxRetryAttemptsPerScan
    if scan ≥ plan.pages then some ⟨1, scan, 0, 0⟩ else none
  else
    let (step, delay, waiting) := collapse
      (min planned.maxAttemptsPerStep profile.maxRetryAttemptsPerStep)
      (min planned.maxDelayMilliseconds profile.maxRetryDelayMilliseconds)
      (min planned.maxCumulativeWaitingMillisecondsPerScan
        profile.maxRetryWaitingMillisecondsPerScan)
    let shapeMax :=
      if plan.scanBudgets.isSome && plan.pages ≤ 96 / step then plan.pages * step else step
    let scan := min (min planned.maxAttemptsPerScan profile.maxRetryAttemptsPerScan) shapeMax
    let result : RetryPlan := ⟨step, scan, delay, waiting⟩
    if scan ≥ plan.pages && result.isWithinHardBounds then some result else none

/-- The policy that does not wait. -/
def singleAttempt (plan : PlannedScan) : AdmittedRateLimitPolicy :=
  let planned := plan.rateLimitPolicy
  { declared := planned.declared
    connectorId := plan.connectorName
    mode := planned.mode
    statuses := planned.statuses
    operationFamily := planned.operationFamily
    guidance := planned.guidance
    remainingQuotaHeader := planned.remainingQuotaHeader
    remoteBucketHeader := planned.remoteBucketHeader
    maxAttemptsPerStep := 1
    maxAttemptsPerScan := 1
    maxDelayMilliseconds := 0
    maxCumulativeWaitingMillisecondsPerScan := 0
    packageMajorVersion := planned.packageMajorVersion
    waitingEnabled := false }

/-- The operator left rate-limit waiting on. -/
def HttpExecutionProfile.allowsRateLimitWaiting (profile : HttpExecutionProfile) : Bool :=
  !(profile.maxRateLimitAttemptsPerStep == 0 || profile.maxRateLimitAttemptsPerScan == 0 ||
    profile.maxRateLimitDelayMilliseconds == 0 ||
    profile.maxRateLimitWaitingMillisecondsPerScan == 0 ||
    profile.maxCombinedWaitingMillisecondsPerScan == 0)

def tryAdmitRateLimitPolicy (plan : PlannedScan) (profile : HttpExecutionProfile) :
    Option AdmittedRateLimitPolicy :=
  let planned := plan.rateLimitPolicy
  if plan.replayClass != .replayableRead || !planned.isWithinHardBounds ||
      (plan.rateLimit == .enabled) != planned.declared then none
  else if !planned.declared || !planned.waitingEnabled then some (singleAttempt plan)
  else if !profile.allowsRateLimitWaiting then some (singleAttempt plan)
  else
    let step := min planned.maxAttemptsPerStep profile.maxRateLimitAttemptsPerStep
    let delay := min planned.maxDelayMilliseconds profile.maxRateLimitDelayMilliseconds
    let waiting := min planned.maxCumulativeWaitingMillisecondsPerScan
      profile.maxRateLimitWaitingMillisecondsPerScan
    if step ≤ 1 || delay == 0 || waiting == 0 then some (singleAttempt plan)
    else if plan.pages == 0 || plan.pages > 96 / step then none
    else
      let scan := min profile.maxRateLimitAttemptsPerScan (plan.pages * step)
      some { singleAttempt plan with
        maxAttemptsPerStep := step
        maxAttemptsPerScan := scan
        maxDelayMilliseconds := delay
        maxCumulativeWaitingMillisecondsPerScan := waiting
        waitingEnabled := scan ≥ plan.pages }

/-- What the two policies may spend together. -/
def combine (plan : PlannedScan) (profile : HttpExecutionProfile) (retry : RetryPlan)
    (rateLimit : AdmittedRateLimitPolicy) : Option AdmittedResiliencePolicy :=
  let planned := plan.resiliencePolicy
  let step := max retry.maxAttemptsPerStep rateLimit.maxAttemptsPerStep
  let scan := max retry.maxAttemptsPerScan rateLimit.maxAttemptsPerScan
  let retryWaiting := retry.maxCumulativeWaitingMillisecondsPerScan
  let rateLimitWaiting := rateLimit.maxCumulativeWaitingMillisecondsPerScan
  if scan > planned.maxAttemptsPerScan then none
  else if retryWaiting > 18446744073709551615 - rateLimitWaiting then none
  else if profile.maxCombinedWaitingMillisecondsPerScan != 0 &&
      profile.maxCombinedWaitingMillisecondsPerScan < retryWaiting then none
  else
    let cap :=
      if profile.maxCombinedWaitingMillisecondsPerScan == 0 then retryWaiting
      else profile.maxCombinedWaitingMillisecondsPerScan
    let waiting := min (retryWaiting + rateLimitWaiting) cap
    if scan ≥ plan.pages && waiting ≤ planned.maxCumulativeWaitingMillisecondsPerScan then
      some ⟨step, scan, waiting⟩
    else none

def PlannedScan.plannedAttempts (plan : PlannedScan) : UInt64 :=
  match plan.scanBudgets with
  | none => plan.requestAttempts
  | some budgets => budgets.requestAttempts

def tryAdmitResiliencePolicies (plan : PlannedScan) (profile : HttpExecutionProfile) :
    Option (RetryPlan × AdmittedRateLimitPolicy × AdmittedResiliencePolicy) := do
  let planned := plan.resiliencePolicy
  if !planned.isWithinHardBounds || plan.pages == 0 ||
      planned.maxAttemptsPerStep != plan.requestAttempts ||
      planned.maxAttemptsPerScan != plan.plannedAttempts then none
  else do
    let retry ← tryAdmitRetryPolicy plan profile
    let rateLimit ← tryAdmitRateLimitPolicy plan profile
    let resilience ← combine plan profile retry rateLimit
    some (retry, rateLimit, resilience)

end Cuac.Runtime.Resilience

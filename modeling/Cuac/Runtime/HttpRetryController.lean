import Cuac.Lib.Throwing
import Cuac.Runtime.RateLimitCoordinator
import Cuac.Runtime.ResourceLedger
import Cuac.Runtime.RestScan

/-!
# Runtime — the retry controller

`ExecuteHttpStepWithRetry` with its ledger, its budgets and the objects it owns:
the quota permit, the request permit, the buffer and the wait reservations. One
turn of its loop reads a `TurnEnv`: flags, clocks and the answers of the
admission controller, the coordinator and the transport. A call that has not
come to its end with the turns it was given is `unfinished`.

The log keeps, in order, every charge to the ledger, every attempt handed to the
transport with the quota permit held at that moment, and every wait.
-/

namespace Cuac.Runtime.Resilience

open Cuac.Lib
open Cuac.Runtime.RateLimit

-- ---------------------------------------------------------------------------
-- Policies
-- ---------------------------------------------------------------------------

structure RetryPlan where
  maxAttemptsPerStep : UInt64
  maxAttemptsPerScan : UInt64
  maxDelayMilliseconds : UInt64
  maxCumulativeWaitingMillisecondsPerScan : UInt64
  deriving DecidableEq, Repr

def RetryPlan.enabled (policy : RetryPlan) : Bool :=
  policy.maxAttemptsPerStep > 1

inductive RateLimitGuidanceFormat
  | retryAfter
  | deltaSeconds
  | unixSeconds
  deriving DecidableEq, Repr

structure PlannedRateLimitGuidance where
  headerName : Bytes
  format : RateLimitGuidanceFormat
  deriving DecidableEq, Repr

structure AdmittedRateLimitPolicy where
  declared : Bool
  connectorId : Bytes
  mode : RateLimitMode
  statuses : List UInt16
  operationFamily : Bytes
  guidance : List PlannedRateLimitGuidance
  remainingQuotaHeader : Bytes
  remoteBucketHeader : Bytes
  maxAttemptsPerStep : UInt64
  maxAttemptsPerScan : UInt64
  maxDelayMilliseconds : UInt64
  maxCumulativeWaitingMillisecondsPerScan : UInt64
  packageMajorVersion : UInt32
  waitingEnabled : Bool
  deriving DecidableEq, Repr

namespace AdmittedRateLimitPolicy

def isWaitingEnabled (policy : AdmittedRateLimitPolicy) : Bool :=
  policy.declared && policy.waitingEnabled

def matchesStatus (policy : AdmittedRateLimitPolicy) (status : UInt32) : Bool :=
  policy.declared && policy.statuses.any fun s => s.toUInt32 == status

end AdmittedRateLimitPolicy

-- ---------------------------------------------------------------------------
-- Responses and guidance
-- ---------------------------------------------------------------------------

structure HttpObservedHeader where
  name : Bytes
  value : Bytes
  deriving DecidableEq, Repr

structure HttpResponseMetadata where
  linkFieldValues : List Bytes
  retainedBytes : UInt64
  retryAfterPresent : Bool
  rateLimitFields : List HttpObservedHeader
  dateFieldValues : List Bytes
  deriving DecidableEq, Repr

structure HttpResponse where
  status : UInt32
  headerBytes : UInt64
  responseBytes : UInt64
  decompressedResponseBytes : UInt64
  body : Bytes
  metadata : HttpResponseMetadata
  deriving DecidableEq, Repr

/-- How `transport->Execute` ends. -/
inductive Transfer
  | response (response : HttpResponse)
  | attemptFailure (failure : HttpAttemptFailure)
  | attemptCancelled (facts : HttpAttemptFacts)
  | raised (raise : LocalRaise)
  deriving DecidableEq, Repr

structure RateLimitClockReceipt where
  wallMilliseconds : Int
  steadyMilliseconds : Int
  deriving DecidableEq, Repr

inductive RateLimitGuidanceReason
  | none
  | guidanceMissing
  | malformedGuidance
  | guidanceExceedsPolicy
  deriving DecidableEq, Repr

structure RateLimitGuidanceObservation where
  canonicalFieldName : Bytes
  format : RateLimitGuidanceFormat
  values : List Bytes
  deriving DecidableEq, Repr

structure RateLimitGuidanceInput where
  guidance : List RateLimitGuidanceObservation
  dateValues : List Bytes
  receipt : RateLimitClockReceipt
  maximumDelayMilliseconds : UInt64
  deriving DecidableEq, Repr

structure RateLimitGuidanceResult where
  reason : RateLimitGuidanceReason
  eligibleSteadyMilliseconds : Int
  delayMilliseconds : UInt64
  immediate : Bool
  deriving DecidableEq, Repr

def valuesFor (metadata : HttpResponseMetadata) (name : Bytes) : List Bytes :=
  (metadata.rateLimitFields.filter fun field => field.name == name).map HttpObservedHeader.value

def isDeclaredField (policy : AdmittedRateLimitPolicy) (name : Bytes) : Bool :=
  policy.guidance.any (fun guidance => guidance.headerName == name) ||
    (!policy.remainingQuotaHeader.isEmpty && policy.remainingQuotaHeader == name) ||
    (!policy.remoteBucketHeader.isEmpty && policy.remoteBucketHeader == name)

def hasOnlyDeclaredFields (policy : AdmittedRateLimitPolicy) (metadata : HttpResponseMetadata) :
    Bool :=
  metadata.rateLimitFields.all fun field => isDeclaredField policy field.name

/-- The loop of `TryParseUnsigned`. -/
def parseUnsignedFrom : UInt64 → Bytes → Option UInt64
  | parsed, [] => some parsed
  | parsed, b :: rest =>
    if b < 0x30 || b > 0x39 then none
    else
      let digit := (b - 0x30).toUInt64
      if parsed > (0xFFFFFFFFFFFFFFFF - digit) / 10 then none
      else parseUnsignedFrom (parsed * 10 + digit) rest

def tryParseUnsigned (value : Bytes) : Option UInt64 :=
  if value.isEmpty then none else parseUnsignedFrom 0 value

def validateRemaining (policy : AdmittedRateLimitPolicy) (metadata : HttpResponseMetadata) : Bool :=
  if policy.remainingQuotaHeader.isEmpty then true
  else
    match valuesFor metadata policy.remainingQuotaHeader with
    | [] => true
    | [value] => (tryParseUnsigned value).isSome
    | _ => false

def isBlank (b : UInt8) : Bool := b == 0x20 || b == 0x09

/-- `TryBucket`: `none` when the field is unusable, else the bucket if there is one. -/
def tryBucket (policy : AdmittedRateLimitPolicy) (metadata : HttpResponseMetadata) :
    Option (Option Bytes) :=
  if policy.remoteBucketHeader.isEmpty then some none
  else
    match valuesFor metadata policy.remoteBucketHeader with
    | [] => some none
    | [value] =>
      let trimmed := ((value.dropWhile isBlank).reverse.dropWhile isBlank).reverse
      if trimmed.isEmpty || trimmed.length > 128 then none
      else if trimmed.all fun b => 0x21 ≤ b && b ≤ 0x7e then some (some trimmed)
      else none
    | _ => none

def guidanceInput (policy : AdmittedRateLimitPolicy) (metadata : HttpResponseMetadata)
    (receipt : RateLimitClockReceipt) : RateLimitGuidanceInput where
  guidance := policy.guidance.map fun guidance =>
    ⟨guidance.headerName, guidance.format, valuesFor metadata guidance.headerName⟩
  dateValues := metadata.dateFieldValues
  receipt := receipt
  maximumDelayMilliseconds := policy.maxDelayMilliseconds

-- ---------------------------------------------------------------------------
-- Classification
-- ---------------------------------------------------------------------------

def isRetryableGatewayResponse (response : HttpResponse) : Bool :=
  isGatewayStatus response.status && !response.metadata.retryAfterPresent

def guidanceReason : RateLimitGuidanceReason → Option RateLimitReason
  | .none => none
  | .guidanceMissing => some .guidanceMissing
  | .malformedGuidance => some .malformedGuidance
  | .guidanceExceedsPolicy => some .guidanceExceedsPolicy

/-- `AcquireReason`; `none` is the reason `NONE`. -/
def acquireReason (status : RateLimitAcquireStatus) (budgetBound : Bool) : Option RateLimitReason :=
  match status with
  | .queueSaturated => some .queueSaturated
  | .schedulerClosed => some .schedulerClosed
  | .ticketExhausted => some .ticketExhausted
  | .deadlineReached => some (if budgetBound then .waitingExhausted else .deadlineInsufficient)
  | .acquired | .cancelled => none

-- ---------------------------------------------------------------------------
-- Delays and clocks
-- ---------------------------------------------------------------------------

/-- The doubling loop of `ComputeRetryDelayMilliseconds`; `turns` is how often
it may still go round. -/
def doubleUpTo (maxDelay : UInt64) : Nat → UInt64 → UInt64
  | 0, nominal => nominal
  | turns + 1, nominal =>
    if nominal < maxDelay then
      doubleUpTo maxDelay turns (if nominal > maxDelay / 2 then maxDelay else nominal * 2)
    else nominal

def computeRetryDelayMilliseconds (failedAttempt maxDelay seed : UInt64) : UInt64 :=
  if failedAttempt == 0 || maxDelay == 0 then 0
  else
    let nominal := min (doubleUpTo maxDelay (failedAttempt.toNat - 1) 10) maxDelay
    let percent := 75 + (seed ^^^ (failedAttempt * 0x9e3779b97f4a7c15)) % 51
    let jittered :=
      if nominal > 0xFFFFFFFFFFFFFFFF / percent then nominal else nominal * percent / 100
    let lower :=
      if nominal > (0xFFFFFFFFFFFFFFFF - 99) / 75 then nominal else (nominal * 75 + 99) / 100
    let upper := if nominal > 0xFFFFFFFFFFFFFFFF / 125 then nominal else nominal * 125 / 100
    min maxDelay (max 1 (max lower (min upper jittered)))

/-- A steady time point in milliseconds. -/
def steadyMilliseconds (nanoseconds : Int) : Int := nanoseconds.tdiv 1000000

def remainingOf (limit used : UInt64) : UInt64 :=
  if used ≥ limit then 0 else limit - used

def addBounded (base : Int) (amount : UInt64) : Int :=
  if (amount.toNat : Int) > 2 ^ 63 - 1 ∨ base > 2 ^ 63 - 1 - amount.toNat then 2 ^ 63 - 1
  else base + amount.toNat

/-- What a wait took by its two clock readings. -/
def elapsedMilliseconds (started completed : Int) : UInt64 :=
  if completed > started then (completed - started).toNat.toUInt64 else 0

-- ---------------------------------------------------------------------------
-- The call and what it owns
-- ---------------------------------------------------------------------------

/-- What the call throws, by where it comes from. -/
inductive StepError
  | executionCancelled
  | scanResourceError (error : ScanResourceError)
  | rateLimitFailure (status : UInt32) (reason : Option RateLimitReason)
  | closedAdmission (status : UInt32)
  | gatewayFailure (status : UInt32)
  | attemptFailure (failure : HttpAttemptFailure)
  | callee (raise : LocalRaise)
  deriving DecidableEq, Repr

/-- How a call may stop short of returning. -/
inductive Halt
  | threw (error : StepError)
  /-- The turns given do not bring the call to its end. -/
  | unfinished
  deriving DecidableEq, Repr

/-- An attempt handed to the transport. -/
structure Attempt (ι ρ : Type) where
  request : ρ
  permit : Option (QuotaBucketKey ι)
  transfer : Transfer
  receipt : RateLimitClockReceipt
  deriving DecidableEq, Repr

inductive Action (ι ρ : Type)
  | charge (call : LedgerCall)
  | attempt (attempt : Attempt ι ρ)
  /-- A retry wait of this length begins. -/
  | plan (started : Int) (delay : UInt64)
  | sleep (slice : UInt64)
  /-- The readings of the clock around a slice. -/
  | woke (before after : Int)
  /-- The clock has reached the end of a retry wait. -/
  | reached (now : Int)
  /-- A wait in the coordinator, from `started` to `completed`; it was asked to
  end by `deadline`. -/
  | queue (key : QuotaBucketKey ι) (started deadline completed : Int)
  deriving DecidableEq, Repr

structure Controller (ι ρ : Type) where
  ledger : ScanResourceAccounting
  /-- Repeats of the whole scan. -/
  ordinaryRetryRepeats : UInt64
  rateLimitRepeats : UInt64
  ordinaryStepRepeats : UInt64
  rateLimitStepRepeats : UInt64
  immediateSeen : Bool
  /-- The bucket of the step's first rate-limited response, once there is one. -/
  frozenBucket : Option (Option Bytes)
  frozenRateLimitStatus : UInt32
  quotaKey : Option (QuotaBucketKey ι)
  permit : Option (QuotaBucketKey ι)
  requestPermit : Bool
  bufferReservation : Bool
  waitReservation : Bool
  log : List (Action ι ρ)
  deriving DecidableEq, Repr

structure HttpRequest (ρ : Type) where
  content : ρ
  bodyBytes : UInt64
  deriving DecidableEq, Repr

/-- What is fixed for one call. -/
structure StepConfig (ι ρ : Type) where
  policy : RetryPlan
  rateLimit : AdmittedRateLimitPolicy
  destination : RateLimitDestinationKey
  principal : RateLimitPrincipalToken ι
  maxMetadataBytes : UInt64
  jitterSeed : UInt64
  requestFactory : UInt64 → Except LocalRaise (HttpRequest ρ)
  parseRateLimitGuidance : RateLimitGuidanceInput → RateLimitGuidanceResult

/-- One wait for a quota permit. -/
structure QuotaEnv where
  started : Int
  /-- `AcquireRecoveryWaitAdmission`; `none` when it grants. -/
  reservation : Option LocalRaise
  /-- `Acquire` or `Requeue`. -/
  answer : Except LocalRaise RateLimitAcquireStatus
  completed : Int
  admissionClosed : Bool

/-- One turn of a retry wait. -/
structure SliceEnv where
  cancelled : Bool
  now : Int
  before : Int
  fails : Option LocalRaise
  after : Int

structure WaitEnv where
  reservation : Option LocalRaise
  started : Int
  slices : List SliceEnv
  cancelledAfter : Bool

structure TurnEnv where
  cancelled : Bool
  quota : QuotaEnv
  admissionWaited : UInt64
  admissionLimit : UInt64
  /-- `AcquireRequest`; `none` when it grants. -/
  admission : Option LocalRaise
  buffers : Option LocalRaise
  attemptAt : Int
  /-- The request outgrows its capacity envelope. -/
  requestFails : Option LocalRaise
  transfer : Transfer
  transportMilliseconds : UInt64
  receipt : RateLimitClockReceipt
  rateLimit : QuotaEnv
  /-- Bytes the response's Link fields keep. -/
  linkBytes : UInt64
  /-- Narrowing the buffers to the response: whether a reservation is left. -/
  retained : Except LocalRaise Bool
  wait : WaitEnv

variable {ι ρ : Type}

/-- A statement of the call. -/
abbrev Step (ι ρ α : Type) : Type := Throwing (Controller ι ρ) Halt α

namespace Step

def fail {α : Type} (error : StepError) : Step ι ρ α := Throwing.throw (.threw error)

def failWhen (bad : Bool) (error : StepError) : Step ι ρ Unit :=
  Throwing.throwWhen bad (.threw error)

/-- A callee that may throw. -/
def guardedBy : Option LocalRaise → Step ι ρ Unit
  | none => pure ()
  | some raise => fail (.callee raise)

def note (action : Action ι ρ) : Step ι ρ Unit :=
  Throwing.modify fun s => { s with log := s.log ++ [action] }

/-- A call to the ledger; what it throws goes on. -/
def charge (call : LedgerCall) : Step ι ρ Unit := do
  let s ← Throwing.get
  let (error, ledger) := s.ledger.call call
  Throwing.modify fun s => { s with ledger := ledger, log := s.log ++ [.charge call] }
  match error with
  | none => pure ()
  | some error => fail (.scanResourceError error)

def requireRetryAttemptResources (bodyBytes : UInt64) : Step ι ρ Unit := do
  let s ← Throwing.get
  match s.ledger.requireRetryAttemptResources bodyBytes with
  | .ok () => pure ()
  | .error error => fail (.scanResourceError error)

/-- `AcquireRecoveryWaitAdmission`. -/
def reserveWaiter (reservation : Option LocalRaise) : Step ι ρ Unit := do
  guardedBy reservation
  Throwing.modify fun s => { s with waitReservation := true }

def releaseWaiter : Step ι ρ Unit :=
  Throwing.modify fun s => { s with waitReservation := false }

end Step

-- ---------------------------------------------------------------------------
-- Waiting for quota
-- ---------------------------------------------------------------------------

/-- The end of a wait in the coordinator: the permit is the caller's exactly
when it was acquired, the time is charged, and anything but a grant throws. -/
def settleQuota (key : QuotaBucketKey ι) (limitedBy : UInt32) (budgetBound : Bool)
    (env : QuotaEnv) (status : RateLimitAcquireStatus) : Step ι ρ Unit := do
  Throwing.modify fun s =>
    { s with permit := if status = .acquired then some key else none }
  let waited := elapsedMilliseconds env.started env.completed
  if waited != 0 then Step.charge (.commitRateLimitWait waited)
  Step.failWhen (status == .cancelled) .executionCancelled
  Step.failWhen (status == .schedulerClosed && env.admissionClosed) (.closedAdmission limitedBy)
  Step.failWhen (status != .acquired)
    (.rateLimitFailure limitedBy (acquireReason status budgetBound))

/-- `Acquire` or `Requeue`, under a wait reservation. -/
def awaitQuota (key : QuotaBucketKey ι) (limitedBy : UInt32) (deadline : Int) (budgetBound : Bool)
    (env : QuotaEnv) : Step ι ρ Unit := do
  Step.note (.queue key env.started deadline env.completed)
  match env.answer with
  | .error raise => Step.fail (.callee raise)
  | .ok status => settleQuota key limitedBy budgetBound env status

/-- What is left of the waiting budgets for quota. -/
def Controller.quotaAuthority (s : Controller ι ρ) (rateLimit : AdmittedRateLimitPolicy) :
    UInt64 :=
  min
    (remainingOf s.ledger.profile.scan.cumulativeWaitingMilliseconds
      s.ledger.counters.cumulativeWaitingMilliseconds)
    (remainingOf rateLimit.maxCumulativeWaitingMillisecondsPerScan
      s.ledger.counters.cumulativeRateLimitWaitingMilliseconds)

/-- A step under quota whose permit has been given back acquires it again. -/
def reacquireQuota (config : StepConfig ι ρ) (env : QuotaEnv) : Step ι ρ Unit := do
  let s ← Throwing.get
  match s.quotaKey, s.permit with
  | some key, none =>
    let authority := s.quotaAuthority config.rateLimit
    Step.failWhen (authority == 0)
      (.rateLimitFailure s.frozenRateLimitStatus (some .waitingExhausted))
    let scanDeadline := steadyMilliseconds s.ledger.deadline
    let budgetLimit := addBounded env.started authority
    Step.reserveWaiter env.reservation
    awaitQuota key s.frozenRateLimitStatus (min scanDeadline budgetLimit)
      (budgetLimit ≤ scanDeadline) env
    Step.releaseWaiter
  | _, _ => pure ()

-- ---------------------------------------------------------------------------
-- One attempt
-- ---------------------------------------------------------------------------

def exceedsLimits (allowance : PageResourceAllowance) (maxMetadataBytes : UInt64)
    (response : HttpResponse) : Bool :=
  response.headerBytes > allowance.headerBytes ||
    response.responseBytes > allowance.wireResponseBytes ||
    response.decompressedResponseBytes > allowance.decompressedResponseBytes ||
    response.body.length > response.decompressedResponseBytes.toNat ||
    response.metadata.retainedBytes > maxMetadataBytes

/-- What an attempt that did not raise comes to. -/
inductive Completed
  | response (response : HttpResponse)
  | failure (failure : HttpAttemptFailure)
  | cancelled (facts : HttpAttemptFacts)
  deriving DecidableEq, Repr

def completeTransfer (config : StepConfig ι ρ) (allowance : PageResourceAllowance) :
    Transfer → Step ι ρ Completed
  | .response response => do
    Step.failWhen (exceedsLimits allowance config.maxMetadataBytes response)
      (.callee (.executionError
        (localError .resource "" "HTTP response exceeded an execution budget")))
    pure (.response response)
  | .attemptFailure failure => pure (.failure failure)
  | .attemptCancelled facts => pure (.cancelled facts)
  | .raised raise => Step.fail (.callee raise)

/-- Hand the request to the transport. -/
def transferRequest (config : StepConfig ι ρ) (env : TurnEnv) (request : HttpRequest ρ)
    (allowance : PageResourceAllowance) : Step ι ρ Completed := do
  Step.guardedBy env.requestFails
  if request.bodyBytes != 0 then Step.charge (.commitRequestBody request.bodyBytes)
  Step.charge .commitRemoteRequest
  let s ← Throwing.get
  Step.note (.attempt ⟨request.content, s.permit, env.transfer, env.receipt⟩)
  Step.charge (.commitRemoteTransportTime env.transportMilliseconds)
  completeTransfer config allowance env.transfer

/-- `ExecuteOneAdmittedTransportAttempt`, with the request's body size. -/
def executeOneAdmittedTransportAttempt (config : StepConfig ι ρ) (env : TurnEnv) :
    Step ι ρ (Completed × UInt64) := do
  let s ← Throwing.get
  match config.requestFactory s.ledger.activeAllowance.serializedRequestBodyBytes with
  | .error raise => Step.fail (.callee raise)
  | .ok request => do
    let completed ← transferRequest config env request s.ledger.activeAllowance
    Throwing.modify fun s => { s with requestPermit := false }
    pure (completed, request.bodyBytes)

-- ---------------------------------------------------------------------------
-- A rate-limited response
-- ---------------------------------------------------------------------------

/-- Freeze the bucket of the step, or insist on it. -/
def freezeBucket (status : UInt32) (bucket : Option Bytes) : Step ι ρ Unit := do
  let s ← Throwing.get
  match s.frozenBucket with
  | some frozen =>
    Step.failWhen (bucket != frozen) (.rateLimitFailure status (some .bucketChanged))
  | none => Throwing.modify fun s => { s with frozenBucket := some bucket }

/-- One immediate repeat in a row. -/
def noteImmediate (status : UInt32) (immediate : Bool) : Step ι ρ Unit := do
  let s ← Throwing.get
  Step.failWhen (immediate && s.immediateSeen) (.rateLimitFailure status (some .repeatedImmediate))
  Throwing.modify fun s => { s with immediateSeen := immediate }

/-- Repeats of a scan a policy leaves room for beyond one attempt per page. -/
def scanRepeatLimit (maxAttemptsPerScan : UInt64) (ledger : ScanResourceAccounting) : UInt64 :=
  let pages := ledger.profile.scan.pages
  if maxAttemptsPerScan > pages then maxAttemptsPerScan - pages else 0

def Controller.quotaRepeatRefused (s : Controller ι ρ) (rateLimit : AdmittedRateLimitPolicy) :
    Bool :=
  s.rateLimitStepRepeats ≥ rateLimit.maxAttemptsPerStep - 1 ||
    s.rateLimitRepeats ≥ scanRepeatLimit rateLimit.maxAttemptsPerScan s.ledger ||
    !s.ledger.canBeginRetryAttempt

def StepConfig.quotaBucketKey (config : StepConfig ι ρ) (bucket : Option Bytes) :
    QuotaBucketKey ι :=
  ⟨config.destination,
    ⟨config.rateLimit.connectorId, config.rateLimit.packageMajorVersion.toUInt64,
      config.rateLimit.operationFamily⟩,
    config.principal, bucket⟩

/-- The wait after guidance, and the permit it ends with. -/
def waitAsGuided (config : StepConfig ι ρ) (env : TurnEnv) (status : UInt32)
    (guidance : RateLimitGuidanceResult) : Step ι ρ Unit := do
  let s ← Throwing.get
  let authority := s.quotaAuthority config.rateLimit
  let scanDeadline := steadyMilliseconds s.ledger.deadline
  let budgetLimit := addBounded env.rateLimit.started authority
  let deadlineAllows := config.rateLimit.mode == .waitIfDeadlineAllows
  Step.failWhen (authority == 0 && !guidance.immediate)
    (.rateLimitFailure status (some .waitingExhausted))
  Step.failWhen (deadlineAllows && decide (guidance.eligibleSteadyMilliseconds ≥ scanDeadline))
    (.rateLimitFailure status (some .deadlineInsufficient))
  Step.failWhen (deadlineAllows && decide (guidance.eligibleSteadyMilliseconds > budgetLimit))
    (.rateLimitFailure status (some .waitingExhausted))
  Throwing.modify fun s => { s with bufferReservation := false }
  Step.reserveWaiter env.rateLimit.reservation
  let key := config.quotaBucketKey (s.frozenBucket.getD none)
  Throwing.modify fun s => { s with quotaKey := some key, frozenRateLimitStatus := status }
  awaitQuota key status (min scanDeadline budgetLimit) (budgetLimit ≤ scanDeadline) env.rateLimit
  Throwing.modify fun s =>
    { s with
      rateLimitStepRepeats := s.rateLimitStepRepeats + 1
      rateLimitRepeats := s.rateLimitRepeats + 1 }
  Step.releaseWaiter

/-- A response whose status the rate-limit policy declares. -/
def settleRateLimited (config : StepConfig ι ρ) (env : TurnEnv) (response : HttpResponse)
    (bodyBytes : UInt64) : Step ι ρ Unit := do
  let rateLimit := config.rateLimit
  let metadata := response.metadata
  let status := response.status
  Step.charge (.commitAttemptFailure
    ⟨response.headerBytes, response.responseBytes, response.decompressedResponseBytes⟩)
  Step.failWhen (rateLimit.mode == .fail || !rateLimit.isWaitingEnabled)
    (.rateLimitFailure status (some .policyFail))
  Step.failWhen (!hasOnlyDeclaredFields rateLimit metadata || !validateRemaining rateLimit metadata)
    (.rateLimitFailure status (some .malformedGuidance))
  match tryBucket rateLimit metadata with
  | none => Step.fail (.rateLimitFailure status (some .malformedGuidance))
  | some bucket => do
    freezeBucket status bucket
    let guidance := config.parseRateLimitGuidance (guidanceInput rateLimit metadata env.receipt)
    Step.failWhen (guidance.reason != .none)
      (.rateLimitFailure status (guidanceReason guidance.reason))
    noteImmediate status guidance.immediate
    let s ← Throwing.get
    Step.failWhen (s.quotaRepeatRefused rateLimit)
      (.rateLimitFailure status (some .attemptsExhausted))
    Step.requireRetryAttemptResources bodyBytes
    waitAsGuided config env status guidance

-- ---------------------------------------------------------------------------
-- An ordinary repeat
-- ---------------------------------------------------------------------------

def Controller.repeatRefused (s : Controller ι ρ) (policy : RetryPlan) : Bool :=
  !policy.enabled || s.ordinaryStepRepeats ≥ policy.maxAttemptsPerStep - 1 ||
    s.ordinaryRetryRepeats ≥ scanRepeatLimit policy.maxAttemptsPerScan s.ledger ||
    !s.ledger.canBeginRetryAttempt

def waitingSpent : StepError :=
  .scanResourceError
    ⟨"cumulative_waiting_milliseconds", "scan exhausted its cumulative-waiting budget"⟩

def wallTimeSpent : StepError :=
  .scanResourceError ⟨"wall_milliseconds", "scan exceeded its wall-time budget"⟩

/-- The wait loop: sleep a slice, then charge what it took. -/
def waitSlices (delay : UInt64) (waitDeadline : Int) :
    List SliceEnv → UInt64 → Step ι ρ Unit
  | [], waited => if waited < delay then Throwing.throw .unfinished else pure ()
  | env :: rest, waited =>
    if waited < delay then do
      Step.failWhen env.cancelled .executionCancelled
      let s ← Throwing.get
      Step.failWhen (decide (env.now ≥ s.ledger.deadline)) wallTimeSpent
      if env.before ≥ waitDeadline then do
        Step.note (.reached env.before)
        Step.charge (.commitRetryWait (delay - waited))
      else do
        Step.note (.sleep (min 5 (waitDeadline - env.before).toNat.toUInt64))
        Step.guardedBy env.fails
        Step.note (.woke env.before env.after)
        if env.after ≤ env.before then waitSlices delay waitDeadline rest waited
        else do
          let debit := min (delay - waited) (env.after - env.before).toNat.toUInt64
          Step.charge (.commitRetryWait debit)
          waitSlices delay waitDeadline rest (waited + debit)
    else pure ()

/-- The delay before a repeat, within what is left of both waiting budgets. -/
def Controller.retryDelay (s : Controller ι ρ) (config : StepConfig ι ρ) : UInt64 :=
  min
    (min
      (computeRetryDelayMilliseconds s.ledger.currentStepAttempts
        config.policy.maxDelayMilliseconds config.jitterSeed)
      (config.policy.maxCumulativeWaitingMillisecondsPerScan -
        s.ledger.counters.cumulativeRetryWaitingMilliseconds))
    (s.ledger.profile.scan.cumulativeWaitingMilliseconds -
      s.ledger.counters.cumulativeWaitingMilliseconds)

/-- Everything between a retryable failure and the next turn. -/
def waitToRepeat (config : StepConfig ι ρ) (env : WaitEnv) : Step ι ρ Unit := do
  Throwing.modify fun s => { s with bufferReservation := false, permit := none }
  let s ← Throwing.get
  let counters := s.ledger.counters
  Step.failWhen
    (decide (counters.cumulativeRetryWaitingMilliseconds ≥
        config.policy.maxCumulativeWaitingMillisecondsPerScan) ||
      decide (counters.cumulativeWaitingMilliseconds ≥
        s.ledger.profile.scan.cumulativeWaitingMilliseconds)) waitingSpent
  let delay := s.retryDelay config
  Step.failWhen (delay == 0) waitingSpent
  Step.reserveWaiter env.reservation
  Step.note (.plan env.started delay)
  waitSlices delay (addBounded env.started delay) env.slices 0
  Step.failWhen env.cancelledAfter .executionCancelled
  Throwing.modify fun s =>
    { s with
      ordinaryStepRepeats := s.ordinaryStepRepeats + 1
      ordinaryRetryRepeats := s.ordinaryRetryRepeats + 1 }
  Step.releaseWaiter

-- ---------------------------------------------------------------------------
-- The loop
-- ---------------------------------------------------------------------------

/-- What the call returns. -/
structure RetriedHttpResponse where
  response : HttpResponse
  allowance : PageResourceAllowance
  deriving DecidableEq, Repr

/-- `DiscardRateLimitMetadata`. -/
def discardRateLimitMetadata (linkBytes : UInt64) (response : HttpResponse) : HttpResponse :=
  { response with
    metadata := { response.metadata with
      rateLimitFields := []
      dateFieldValues := []
      retainedBytes := linkBytes } }

/-- `RetainOnlyCompleteResponseBytes`. -/
def retainOnlyCompleteResponseBytes : Except LocalRaise Bool → Step ι ρ Unit
  | .error raise => Step.fail (.callee raise)
  | .ok kept => Throwing.modify fun s => { s with bufferReservation := kept }

def returnResponse (env : TurnEnv) (response : HttpResponse) :
    Step ι ρ (Option RetriedHttpResponse) := do
  let s ← Throwing.get
  Step.charge (.commitTransport
    ⟨response.headerBytes, response.responseBytes, response.decompressedResponseBytes⟩)
  retainOnlyCompleteResponseBytes env.retained
  pure (some ⟨discardRateLimitMetadata env.linkBytes response, s.ledger.activeAllowance⟩)

/-- The checks before an ordinary repeat; `error` is what the failed attempt
comes to if there is none. -/
def repeatOrFail (config : StepConfig ι ρ) (env : TurnEnv) (bodyBytes : UInt64)
    (retryable : Bool) (error : StepError) : Step ι ρ (Option RetriedHttpResponse) := do
  let s ← Throwing.get
  Step.failWhen (!retryable || s.repeatRefused config.policy) error
  Step.requireRetryAttemptResources bodyBytes
  waitToRepeat config env.wait
  pure none

/-- Where a completed attempt leads: the response, another turn, or a throw. -/
def settle (config : StepConfig ι ρ) (env : TurnEnv) (bodyBytes : UInt64) :
    Completed → Step ι ρ (Option RetriedHttpResponse)
  | .response response =>
    if config.rateLimit.matchesStatus response.status then do
      settleRateLimited config env response bodyBytes
      pure none
    else if !isRetryableGatewayResponse response then returnResponse env response
    else do
      Step.charge (.commitAttemptFailure
        ⟨response.headerBytes, response.responseBytes, response.decompressedResponseBytes⟩)
      repeatOrFail config env bodyBytes true (.gatewayFailure response.status)
  | .cancelled facts => do
    Step.charge (.commitAttemptFailure
      ⟨facts.headerBytes, facts.responseBytes, facts.decompressedResponseBytes⟩)
    Step.fail .executionCancelled
  | .failure failure => do
    let facts := failure.facts
    Step.charge (.commitAttemptFailure
      ⟨facts.headerBytes, facts.responseBytes, facts.decompressedResponseBytes⟩)
    repeatOrFail config env bodyBytes (isRetryableTransportFailure failure)
      (.attemptFailure failure)

/-- `AcquireRequestAdmission` and `ReserveAttemptBuffers`. -/
def admitAttempt (env : TurnEnv) : Step ι ρ Unit := do
  if env.admissionWaited != 0 then
    Step.charge (.commitAdmissionWait env.admissionWaited env.admissionLimit)
  Step.guardedBy env.admission
  Throwing.modify fun s => { s with requestPermit := true }
  Step.guardedBy env.buffers
  Throwing.modify fun s => { s with bufferReservation := true }

/-- One turn of the loop; `none` when it goes round again. -/
def takeTurn (config : StepConfig ι ρ) (env : TurnEnv) :
    Step ι ρ (Option RetriedHttpResponse) := do
  Step.failWhen env.cancelled .executionCancelled
  reacquireQuota config env.quota
  admitAttempt env
  Step.charge (.beginAttempt env.attemptAt)
  let (completed, bodyBytes) ← executeOneAdmittedTransportAttempt config env
  settle config env bodyBytes completed

def takeTurns (config : StepConfig ι ρ) : List TurnEnv → Step ι ρ RetriedHttpResponse
  | [] => Throwing.throw .unfinished
  | env :: rest => do
    match ← takeTurn config env with
    | some returned => pure returned
    | none => takeTurns config rest

/-- The state of a scan before its first step. -/
def Controller.fresh (ledger : ScanResourceAccounting) : Controller ι ρ where
  ledger := ledger
  ordinaryRetryRepeats := 0
  rateLimitRepeats := 0
  ordinaryStepRepeats := 0
  rateLimitStepRepeats := 0
  immediateSeen := false
  frozenBucket := none
  frozenRateLimitStatus := 0
  quotaKey := none
  permit := none
  requestPermit := false
  bufferReservation := false
  waitReservation := false
  log := []

/-- The locals at the top of the call. -/
def Controller.enter (s : Controller ι ρ) : Controller ι ρ :=
  { s with
    ordinaryStepRepeats := 0
    rateLimitStepRepeats := 0
    immediateSeen := false
    frozenBucket := none
    frozenRateLimitStatus := 0
    quotaKey := none
    permit := none
    requestPermit := false
    bufferReservation := false
    waitReservation := false
    log := [] }

/-- Leaving the call destroys what it owns; a returned response takes its buffer
reservation along. -/
def Controller.leave (s : Controller ι ρ) (returned : Bool) : Controller ι ρ :=
  { s with
    permit := none
    requestPermit := false
    waitReservation := false
    bufferReservation := returned && s.bufferReservation }

/-- `ExecuteHttpStepWithRetry`. -/
def executeHttpStepWithRetry (config : StepConfig ι ρ) (beginAt : Int) (turns : List TurnEnv)
    (s : Controller ι ρ) : Except Halt RetriedHttpResponse × Controller ι ρ :=
  let body : Step ι ρ RetriedHttpResponse := do
    Step.charge (.beginStep beginAt)
    takeTurns config turns
  match body s.enter with
  | (.ok returned, s) => (.ok returned, s.leave true)
  | (.error (.threw error), s) => (.error (.threw error), s.leave false)
  | (.error .unfinished, s) => (.error .unfinished, s)

end Cuac.Runtime.Resilience

import Cuac.Runtime.Transport

/-!
# Runtime — the scans over REST

How a scan over REST fails: the attempt loop that repeats a request, the status
checks of the single-response and of the paginated stream, and the handlers at
the end of their `Next`.

`Raised` keeps an exception by the site that throws it, so that what happened
and how it is reported stay apart; `Raised.executionError?` is the error the
site constructs and `Raised.report` what the handlers let out.

The ledger, the admission controller, the rate-limit scheduler and the decoder
answer through the arguments: each either lets the step go on or raises. What a
rate-limited response comes to (guidance, bucket, budgets) is one answer; every
refusal there is thrown by one function.
-/

namespace Cuac.Runtime

open Cuac.Lib

-- ---------------------------------------------------------------------------
-- Policies
-- ---------------------------------------------------------------------------

structure RetryPlan where
  maxAttemptsPerStep : UInt64
  maxAttemptsPerScan : UInt64
  deriving DecidableEq, Repr

def RetryPlan.enabled (plan : RetryPlan) : Bool :=
  plan.maxAttemptsPerStep > 1

inductive RateLimitMode
  | fail
  | wait
  | waitIfDeadlineAllows
  deriving DecidableEq, Repr

structure RateLimitPolicy where
  declared : Bool
  mode : RateLimitMode
  statuses : List UInt16
  waitingEnabled : Bool
  deriving DecidableEq, Repr

def RateLimitPolicy.isWaitingEnabled (policy : RateLimitPolicy) : Bool :=
  policy.declared && policy.waitingEnabled

def RateLimitPolicy.matchesStatus (policy : RateLimitPolicy) (status : UInt32) : Bool :=
  policy.declared && policy.statuses.any fun s => s.toUInt32 == status

inductive RateLimitReason
  | policyFail
  | guidanceMissing
  | malformedGuidance
  | guidanceExceedsPolicy
  | bucketChanged
  | repeatedImmediate
  | attemptsExhausted
  | waitingExhausted
  | deadlineInsufficient
  | queueSaturated
  | schedulerClosed
  | ticketExhausted
  deriving DecidableEq, Repr

/-- The admitted profile of a scan, as far as failures depend on it. -/
structure RestProfile where
  paginated : Bool
  requiresBearer : Bool
  requiresApiKey : Bool
  retry : RetryPlan
  rateLimit : RateLimitPolicy
  /-- Pages the scan may fetch. -/
  pages : UInt64
  deriving DecidableEq, Repr

-- ---------------------------------------------------------------------------
-- Throw sites
-- ---------------------------------------------------------------------------

inductive StatusRejection
  | authentication
  | authorization
  | nonSuccess
  deriving DecidableEq, Repr

def isGatewayStatus (status : UInt32) : Bool :=
  status == 502 || status == 503 || status == 504

def isRetryableGatewayResponse (response : HttpResponse) : Bool :=
  isGatewayStatus response.status && !response.retryAfterPresent

/-- A gateway response the loop would repeat. -/
def GatewayResponse : Type :=
  { response : HttpResponse // isRetryableGatewayResponse response = true }
  deriving DecidableEq, Repr

/-- An exception on its way to the handlers of `Next`, by where it was thrown. -/
inductive Raised
  | callee (raise : LocalRaise)
  /-- The transport could not start. -/
  | transportFailure (safeMessage : Bytes)
  /-- A failed attempt that is not repeated. -/
  | attemptFailure (failure : HttpAttemptFailure)
  /-- A response the declared rate-limit policy matches. -/
  | rateLimited (status : UInt32) (reason : RateLimitReason)
  /-- A gateway response that is not repeated. -/
  | gateway (response : GatewayResponse)
  /-- A response the status check rejects. -/
  | rejected (rejection : StatusRejection) (status : UInt32) (retryAfterPresent : Bool)
  deriving DecidableEq, Repr

/-- The class `HttpStatusFailureProperties` assigns. -/
def httpStatusFailureClass (status : UInt32) (authRejected retryAfterPresent : Bool) :
    FailureClass :=
  if status == 429 || (isGatewayStatus status && retryAfterPresent) then .rateLimit
  else if authRejected && (status == 401 || status == 403) then .authorization
  else .remoteStatus

def nonSuccessMessage : Bytes := ascii "HTTP endpoint returned a non-success status"

/-- The `ExecutionError` a site throws; `none` where it throws something else. -/
def Raised.executionError? : Raised → Option ExecutionError
  | .callee (.executionError error) => some error.toExecutionError
  | .callee _ => none
  | .transportFailure safeMessage => some (transportError safeMessage)
  | .attemptFailure failure =>
    let error := failure.error.toExecutionError
    some { error with classified := some (failureClassFromError error) }
  | .rateLimited _ _ => some ⟨.httpStatus, [], nonSuccessMessage, some .rateLimit⟩
  | .gateway response =>
    some ⟨.httpStatus, [], nonSuccessMessage,
      some (httpStatusFailureClass response.val.status false false)⟩
  | .rejected .authentication status retryAfterPresent =>
    some ⟨.authentication, ascii "http_status", ascii "HTTP endpoint rejected authentication",
      some (httpStatusFailureClass status true retryAfterPresent)⟩
  | .rejected .authorization status retryAfterPresent =>
    some ⟨.authorization, ascii "http_status", ascii "HTTP endpoint denied authorization",
      some (httpStatusFailureClass status true retryAfterPresent)⟩
  | .rejected .nonSuccess status retryAfterPresent =>
    some ⟨.httpStatus, [], nonSuccessMessage,
      some (httpStatusFailureClass status false retryAfterPresent)⟩

def linkPaginationFailureClass : LinkPaginationErrorKind → FailureClass
  | .malformed => .protocol
  | .policy => .destinationPolicy
  | .state => .protocol

/-- The handlers of `Next`. Only the paginated stream has one for pagination
errors; what no handler names is reported as a failed request. -/
def Raised.report (paginated : Bool) (raised : Raised) : Thrown :=
  match raised.executionError? with
  | some error =>
    .executionError { error with classified := some (failureClassFromError error) }
  | none =>
    let unnamed : Thrown := .executionError (transportError (ascii "HTTP request failed"))
    match raised with
    | .callee .executionCancelled => .executionCancelled
    | .callee (.linkPaginationError kind field safeMessage) =>
      if paginated then
        .executionError ⟨.policy, field, safeMessage, some (linkPaginationFailureClass kind)⟩
      else unnamed
    | .callee (.scanResourceError field safeMessage) =>
      .executionError ⟨.resource, field, safeMessage, some .resourceBudget⟩
    | .callee .badAlloc =>
      .executionError ⟨.resource, ascii "decoded_memory_bytes",
        ascii "execution could not be allocated within its memory budget", none⟩
    | _ => unnamed

-- ---------------------------------------------------------------------------
-- The attempt loop
-- ---------------------------------------------------------------------------

/-- What a rate-limited step comes to. -/
inductive RateLimitAnswer
  | go
  | fail (reason : RateLimitReason)
  | raise (raise : LocalRaise)
  deriving DecidableEq, Repr

/-- What one turn of the loop reads from outside. -/
structure AttemptEnv where
  /-- The cancellation check. -/
  before : Option LocalRaise
  /-- Acquiring the quota again after its permit has been given back. -/
  quota : RateLimitAnswer
  /-- Request admission, attempt buffers, the start of the attempt and its request. -/
  admission : Option LocalRaise
  run : CurlRun
  /-- The response is larger than the attempt was allowed. -/
  exceeded : Bool
  /-- Committing what the attempt has used. -/
  commit : Option LocalRaise
  rateLimit : RateLimitAnswer
  canBeginRetryAttempt : Bool
  /-- Resources for another attempt, and the wait before it. -/
  wait : Option LocalRaise

/-- `ExecuteOneAdmittedTransportAttempt` once the request is built. -/
def AttemptEnv.transfer (env : AttemptEnv) : TransferResult :=
  match env.run.performCurlTransfer with
  | .response response =>
    if env.exceeded then
      .raised (.executionError
        (localError .resource "" "HTTP response exceeded an execution budget"))
    else .response response
  | result => result

structure StepState where
  ordinaryStepRepeats : UInt64
  /-- Repeats of the whole scan. -/
  ordinaryRetryRepeats : UInt64
  /-- The status whose quota is being observed. -/
  quotaStatus : Option UInt32
  permitValid : Bool
  deriving DecidableEq, Repr

/-- One turn either ends the step or repeats it. -/
inductive AttemptVerdict
  | finish (result : Except Raised HttpResponse)
  | again (state : StepState)

def isRetryableTransportFailure (failure : HttpAttemptFailure) : Bool :=
  let facts := failure.facts
  if facts.responseStatus != 0 || facts.headerBytes != 0 || facts.responseBytes != 0 ||
      facts.decompressedResponseBytes != 0 then false
  else
    match failure.kind with
    | .couldNotResolveHost | .couldNotConnect | .sendFailed | .emptyResponse | .receiveFailed =>
      true
    | .other => false

namespace RestProfile

def scanRepeatLimit (profile : RestProfile) : UInt64 :=
  if profile.retry.maxAttemptsPerScan > profile.pages then
    profile.retry.maxAttemptsPerScan - profile.pages
  else 0

/-- Whether an ordinary repeat is out of budget. -/
def repeatRefused (profile : RestProfile) (env : AttemptEnv) (s : StepState) : Bool :=
  !profile.retry.enabled || s.ordinaryStepRepeats ≥ profile.retry.maxAttemptsPerStep - 1 ||
    s.ordinaryRetryRepeats ≥ profile.scanRepeatLimit || !env.canBeginRetryAttempt

/-- The wait before an ordinary repeat; it gives the quota permit back. -/
def repeatOrdinary (env : AttemptEnv) (s : StepState) : AttemptVerdict :=
  match env.wait with
  | some raise => .finish (.error (.callee raise))
  | none =>
    .again { s with
      ordinaryStepRepeats := s.ordinaryStepRepeats + 1
      ordinaryRetryRepeats := s.ordinaryRetryRepeats + 1
      permitValid := false }

/-- A response the rate-limit policy matches. -/
def rateLimitResponse (profile : RestProfile) (env : AttemptEnv) (status : UInt32)
    (s : StepState) : AttemptVerdict :=
  if profile.rateLimit.mode == .fail || !profile.rateLimit.isWaitingEnabled then
    .finish (.error (.rateLimited status .policyFail))
  else
    match env.rateLimit with
    | .fail reason => .finish (.error (.rateLimited status reason))
    | .raise raise => .finish (.error (.callee raise))
    | .go => .again { s with quotaStatus := some status, permitValid := true }

def completeResponse (profile : RestProfile) (env : AttemptEnv) (response : HttpResponse)
    (s : StepState) : AttemptVerdict :=
  if profile.rateLimit.matchesStatus response.status then
    profile.rateLimitResponse env response.status s
  else if h : isRetryableGatewayResponse response = true then
    if profile.repeatRefused env s then .finish (.error (.gateway ⟨response, h⟩))
    else repeatOrdinary env s
  else .finish (.ok response)

def failedAttempt (profile : RestProfile) (env : AttemptEnv) (failure : HttpAttemptFailure)
    (s : StepState) : AttemptVerdict :=
  if !isRetryableTransportFailure failure || profile.repeatRefused env s then
    .finish (.error (.attemptFailure failure))
  else repeatOrdinary env s

/-- What an attempt's end comes to; its usage is committed first. -/
def settleAttempt (profile : RestProfile) (env : AttemptEnv) (s : StepState) : AttemptVerdict :=
  match env.transfer with
  | .raised raise => .finish (.error (.callee raise))
  | .transportFailure safeMessage => .finish (.error (.transportFailure safeMessage))
  | .attemptCancelled _ => .finish (.error (.callee (env.commit.getD .executionCancelled)))
  | .response response =>
    match env.commit with
    | some raise => .finish (.error (.callee raise))
    | none => profile.completeResponse env response s
  | .attemptFailure failure =>
    match env.commit with
    | some raise => .finish (.error (.callee raise))
    | none => profile.failedAttempt env failure s

/-- Acquire the quota again if its permit has been given back. -/
def requireQuota (env : AttemptEnv) (s : StepState) : Except Raised StepState :=
  match s.quotaStatus with
  | none => .ok s
  | some status =>
    if s.permitValid then .ok s
    else
      match env.quota with
      | .go => .ok { s with permitValid := true }
      | .fail reason => .error (.rateLimited status reason)
      | .raise raise => .error (.callee raise)

def attemptOnce (profile : RestProfile) (env : AttemptEnv) (s : StepState) : AttemptVerdict :=
  match env.before with
  | some raise => .finish (.error (.callee raise))
  | none =>
    match requireQuota env s with
    | .error raised => .finish (.error raised)
    | .ok s =>
      match env.admission with
      | some raise => .finish (.error (.callee raise))
      | none => profile.settleAttempt env s

/-- The loop. `none` when the turns given do not bring it to an end. -/
def executeHttpStepWithRetry (profile : RestProfile) :
    List AttemptEnv → StepState → Option (StepState × Except Raised HttpResponse)
  | [], _ => none
  | env :: rest, s =>
    match profile.attemptOnce env s with
    | .finish result => some (s, result)
    | .again s => profile.executeHttpStepWithRetry rest s

-- ---------------------------------------------------------------------------
-- The streams
-- ---------------------------------------------------------------------------

/-- The status check of the single-response stream. -/
def checkSingleStatus (profile : RestProfile) (response : HttpResponse) : Option Raised :=
  let authenticated := profile.requiresBearer || profile.requiresApiKey
  if authenticated && response.status == 401 then
    some (.rejected .authentication response.status response.retryAfterPresent)
  else if authenticated && response.status == 403 then
    some (.rejected .authorization response.status response.retryAfterPresent)
  else if response.status < 200 || response.status ≥ 300 then
    some (.rejected .nonSuccess response.status response.retryAfterPresent)
  else none

/-- `CheckStatus` of the paginated stream. -/
def checkStatus (response : HttpResponse) : Option Raised :=
  if response.status == 401 then
    some (.rejected .authentication response.status response.retryAfterPresent)
  else if response.status == 403 then
    some (.rejected .authorization response.status response.retryAfterPresent)
  else if response.status != 200 then
    some (.rejected .nonSuccess response.status response.retryAfterPresent)
  else none

/-- What fetching and handing out one page reads from outside. -/
structure PageEnv (β : Type) where
  /-- The check before the step. -/
  start : Option LocalRaise
  attempts : List AttemptEnv
  /-- Retaining the response, and the deadline. -/
  accept : Option LocalRaise
  /-- Decoding the page and advancing the pagination. -/
  decode : Option LocalRaise
  /-- The batches handed out of the page. -/
  batches : List β
  /-- Raised after them. -/
  finish : Option LocalRaise

variable {β : Type}

/-- The step of one page up to its rows. -/
def fetchPage (profile : RestProfile) (env : PageEnv β) (repeats : UInt64) :
    Option (UInt64 × Option Raised) :=
  match env.start with
  | some raise => some (repeats, some (.callee raise))
  | none =>
    match profile.executeHttpStepWithRetry env.attempts ⟨0, repeats, none, false⟩ with
    | none => none
    | some (s, .error raised) => some (s.ordinaryRetryRepeats, some raised)
    | some (s, .ok response) =>
      match env.accept with
      | some raise => some (s.ordinaryRetryRepeats, some (.callee raise))
      | none =>
        let rejected :=
          if profile.paginated then checkStatus response else profile.checkSingleStatus response
        some (s.ordinaryRetryRepeats, rejected.or (env.decode.map .callee))

/-- A whole scan: what it hands out and what ends it, if anything is raised. -/
def runPages (profile : RestProfile) :
    List (PageEnv β) → UInt64 → Option (List β × Option Raised)
  | [], _ => some ([], none)
  | env :: rest, repeats =>
    match profile.fetchPage env repeats with
    | none => none
    | some (_, some raised) => some ([], some raised)
    | some (repeats, none) =>
      match env.finish with
      | some raise => some (env.batches, some (.callee raise))
      | none =>
        match profile.runPages rest repeats with
        | none => none
        | some (batches, raised) => some (env.batches ++ batches, raised)

/-- The scan of a profile; a single-response scan fetches one page. -/
def runScan (profile : RestProfile) (pages : List (PageEnv β)) :
    Option (List β × Option Raised) :=
  profile.runPages (if profile.paginated then pages else pages.take 1) 0

end RestProfile

end Cuac.Runtime

import Cuac.Lib.Checked
import Cuac.Lib.Tally

/-!
# Runtime — the scan ledger

`ScanResourceAccounting`: the counters one scan debits, the limits they are
checked against, and the state that orders the calls. A call returns or throws
with the ledger it leaves behind; a throw keeps what was written before it.

Time points are nanoseconds of the steady clock. They are exact integers here;
that no sum of them leaves the clock's 64 bits is part of what is proved about
runs.
-/

namespace Cuac.Runtime

open Cuac.Lib

-- ---------------------------------------------------------------------------
-- Limits and counters
-- ---------------------------------------------------------------------------

/-- The failure of a check, with the field that it names. -/
structure ScanResourceError where
  field : String
  safeMessage : String
  deriving DecidableEq, Repr

/-- The limits of one page. -/
structure PageResourceLimits where
  requestAttempts : UInt64
  headerBytes : UInt64
  wireResponseBytes : UInt64
  decompressedResponseBytes : UInt64
  decodedRecords : UInt64
  decodedMemoryBytes : UInt64
  activeRequests : UInt64
  /-- Zero denotes a bodyless protocol profile. -/
  serializedRequestBodyBytes : UInt64
  deriving DecidableEq, Repr

/-- The limits of the whole scan. -/
structure ScanResourceLimits where
  requestAttempts : UInt64
  pages : UInt64
  headerBytes : UInt64
  wireResponseBytes : UInt64
  decompressedResponseBytes : UInt64
  decodedRecords : UInt64
  retainedDecodedMemoryBytes : UInt64
  maxWallMilliseconds : UInt64
  activeRequests : UInt64
  serializedRequestBodyBytes : UInt64
  cumulativeWaitingMilliseconds : UInt64
  cumulativeRetryWaitingMilliseconds : UInt64
  cumulativeRateLimitWaitingMilliseconds : UInt64
  deriving DecidableEq, Repr

/-- The limits that a scan is accounted against. -/
structure ScanResourceProfile where
  page : PageResourceLimits
  scan : ScanResourceLimits
  deriving DecidableEq, Repr

/-- What one attempt may still use, the smaller of what page and scan leave. -/
structure PageResourceAllowance where
  headerBytes : UInt64
  wireResponseBytes : UInt64
  decompressedResponseBytes : UInt64
  decodedRecords : UInt64
  decodedMemoryBytes : UInt64
  serializedRequestBodyBytes : UInt64
  deadline : Int
  deriving DecidableEq, Repr

/-- What the transport of one attempt used. -/
structure TransportResourceUsage where
  headerBytes : UInt64
  wireResponseBytes : UInt64
  decompressedResponseBytes : UInt64
  deriving DecidableEq, Repr

/-- What the decoding of one page used. -/
structure DecodedPageResourceUsage where
  decodedRecords : UInt64
  decodedMemoryBytes : UInt64
  deriving DecidableEq, Repr

/-- What the scan has used so far. -/
structure ScanResourceCounters where
  requestAttempts : UInt64
  remoteRequests : UInt64
  pages : UInt64
  headerBytes : UInt64
  wireResponseBytes : UInt64
  decompressedResponseBytes : UInt64
  decodedRecords : UInt64
  retainedDecodedMemoryBytes : UInt64
  peakDecodedMemoryBytes : UInt64
  activeRequests : UInt64
  serializedRequestBodyBytes : UInt64
  cumulativeWaitingMilliseconds : UInt64
  cumulativeRetryWaitingMilliseconds : UInt64
  cumulativeRateLimitWaitingMilliseconds : UInt64
  cumulativeRemoteTransportMilliseconds : UInt64
  cumulativeAdmissionWaitingMilliseconds : UInt64
  deriving DecidableEq, Repr

/-- Where the scan stands: between pages, inside a step, an attempt or a page, or at its end. -/
inductive ScanResourceState
  | ready
  | stepActive
  | requestActive
  | requestBodyCommitted
  | transportCommitted
  | pageDecoded
  | exhausted
  | failed
  deriving DecidableEq, Repr

/-- The ledger of one scan. -/
structure ScanResourceAccounting where
  profile : ScanResourceProfile
  counters : ScanResourceCounters
  state : ScanResourceState
  deadlineStarted : Bool
  startedAt : Int
  deadline : Int
  activeAllowance : PageResourceAllowance
  currentStepAttempts : UInt64
  currentStepPageCommitted : Bool
  currentAttemptRemoteCommitted : Bool
  deriving DecidableEq, Repr

-- ---------------------------------------------------------------------------
-- Checked arithmetic
-- ---------------------------------------------------------------------------

/-- A counter that has passed its limit makes the profile invalid. -/
def profileError : ScanResourceError :=
  ⟨"resource_profile", "scan resource profile is invalid"⟩

/-- What a limit leaves. -/
def remaining (limit used : UInt64) : Except ScanResourceError UInt64 :=
  if used > limit then .error profileError else .ok (limit - used)

/-- An addition that neither passes its limit nor leaves 64 bits. -/
def addChecked (current amount limit : UInt64) : Except ScanResourceError UInt64 :=
  if current > limit || amount > limit - current || amount > 0xFFFFFFFFFFFFFFFF - current then
    .error ⟨"resource_accounting", "scan resource accounting overflowed"⟩
  else .ok (current + amount)

/-- A use that has to lie within the allowance. -/
def requireWithin (used allowed : UInt64) (field : String) : Except ScanResourceError Unit :=
  throwIf (used > allowed) ⟨field, "page exceeded its resource allowance"⟩

/-- The largest duration of the steady clock, in nanoseconds. -/
def maxDuration : Int := 2 ^ 63 - 1

/-- `duration_cast` to milliseconds of the largest duration. -/
def maxClockMilliseconds : UInt64 := 9223372036854

/-- The wall time of a scan, in nanoseconds. -/
def ScanResourceProfile.wallTime (profile : ScanResourceProfile) : Int :=
  profile.scan.maxWallMilliseconds.toNat * 1000000

/-- `ValidateProfile`. -/
def ScanResourceProfile.isValid (profile : ScanResourceProfile) : Bool :=
  let page := profile.page
  let scan := profile.scan
  !(page.requestAttempts == 0 || page.requestAttempts > 3 || page.activeRequests != 1 ||
    scan.activeRequests != 1 || scan.requestAttempts < scan.pages || scan.requestAttempts > 96 ||
    page.headerBytes == 0 || page.wireResponseBytes == 0 || page.decompressedResponseBytes == 0 ||
    page.decodedRecords == 0 || page.decodedMemoryBytes == 0 || scan.requestAttempts == 0 ||
    scan.pages == 0 || scan.headerBytes == 0 || scan.wireResponseBytes == 0 ||
    scan.decompressedResponseBytes == 0 || scan.decodedRecords == 0 ||
    scan.retainedDecodedMemoryBytes == 0 || scan.maxWallMilliseconds == 0 ||
    ((page.serializedRequestBodyBytes == 0) != (scan.serializedRequestBodyBytes == 0)) ||
    scan.cumulativeRetryWaitingMilliseconds > scan.cumulativeWaitingMilliseconds ||
    scan.cumulativeRateLimitWaitingMilliseconds > scan.cumulativeWaitingMilliseconds) &&
  !(scan.maxWallMilliseconds > 0x7FFFFFFFFFFFFFFF ||
    scan.maxWallMilliseconds > maxClockMilliseconds)

namespace ScanResourceAccounting

def zeroCounters : ScanResourceCounters :=
  ⟨0, 0, 0, 0, 0, 0, 0, 0, 0, 0, 0, 0, 0, 0, 0, 0⟩

/-- The constructor. -/
def new (profile : ScanResourceProfile) : Except ScanResourceError ScanResourceAccounting :=
  if profile.isValid then
    .ok ⟨profile, zeroCounters, .ready, false, 0, 0, ⟨0, 0, 0, 0, 0, 0, 0⟩, 0, false, false⟩
  else .error profileError

-- ---------------------------------------------------------------------------
-- Failure
-- ---------------------------------------------------------------------------

/-- How a failed call leaves the ledger, and what `AbortPage` does. -/
def abortPage (s : ScanResourceAccounting) : ScanResourceAccounting :=
  { s with
    counters := { s.counters with activeRequests := 0, retainedDecodedMemoryBytes := 0 }
    state := .failed }

/-- `Fail`. -/
def fail {α : Type} (s : ScanResourceAccounting) (error : ScanResourceError) :
    Except ScanResourceError α × ScanResourceAccounting :=
  (.error error, s.abortPage)

/-- The checks of `RequireReadyForNext`, in order. -/
def nextStepFault (s : ScanResourceAccounting) (now : Int) : Option ScanResourceError :=
  let used := s.counters
  let scan := s.profile.scan
  if s.deadlineStarted && decide (now ≥ s.deadline) then
    some ⟨"wall_milliseconds", "scan exceeded its wall-time budget"⟩
  else if used.pages ≥ scan.pages then
    some ⟨"pages", "scan exhausted its page budget"⟩
  else if used.requestAttempts ≥ scan.requestAttempts then
    some ⟨"request_attempts", "scan exhausted its request-attempt budget"⟩
  else if used.headerBytes ≥ scan.headerBytes then
    some ⟨"header_bytes", "scan exhausted its response-header budget"⟩
  else if used.wireResponseBytes ≥ scan.wireResponseBytes then
    some ⟨"response_bytes", "scan exhausted its wire-response budget"⟩
  else if used.decompressedResponseBytes ≥ scan.decompressedResponseBytes then
    some ⟨"decompressed_bytes", "scan exhausted its decompressed-response budget"⟩
  else if used.decodedRecords ≥ scan.decodedRecords then
    some ⟨"decoded_records", "scan exhausted its decoded-record budget"⟩
  else if scan.serializedRequestBodyBytes != 0 &&
      decide (used.serializedRequestBodyBytes ≥ scan.serializedRequestBodyBytes) then
    some ⟨"request_body_bytes", "scan exhausted its serialized-request-body budget"⟩
  else none

def requireReadyForNext (s : ScanResourceAccounting) (now : Int) :
    Except ScanResourceError Unit × ScanResourceAccounting :=
  match s.nextStepFault now with
  | some error => s.fail error
  | none => (.ok (), s)

-- ---------------------------------------------------------------------------
-- Steps and attempts
-- ---------------------------------------------------------------------------

/-- The part of `BeginStep` that starts the one deadline of the scan. -/
def startDeadline (s : ScanResourceAccounting) (now : Int) :
    Except ScanResourceError ScanResourceAccounting :=
  if s.deadlineStarted then .ok s
  else if now > maxDuration - s.profile.wallTime then
    .error ⟨"wall_milliseconds", "scan wall-time budget cannot be represented"⟩
  else
    .ok { s with
      deadline := now + s.profile.wallTime
      startedAt := now
      deadlineStarted := true }

/-- The first step starts the deadline. -/
def beginStep (s : ScanResourceAccounting) (now : Int) :
    Except ScanResourceError Unit × ScanResourceAccounting :=
  if s.state != .ready then
    s.fail ⟨"resource_state", "scan resource state cannot begin a traversal step"⟩
  else
    match s.startDeadline now with
    | .error error => s.fail error
    | .ok s =>
      match s.requireReadyForNext now with
      | (.error error, s) => (.error error, s)
      | (.ok (), s) =>
        (.ok (), { s with
          currentStepAttempts := 0
          currentStepPageCommitted := false
          state := .stepActive })

/-- What the request body of an attempt may still use. -/
def bodyAllowance (s : ScanResourceAccounting) : Except ScanResourceError UInt64 :=
  if s.profile.page.serializedRequestBodyBytes == 0 then .ok 0
  else
    (remaining s.profile.scan.serializedRequestBodyBytes
      s.counters.serializedRequestBodyBytes).map (min s.profile.page.serializedRequestBodyBytes)

/-- What an attempt may use: page authority, or what the scan has left of it. -/
def allowance (s : ScanResourceAccounting) : Except ScanResourceError PageResourceAllowance := do
  let page := s.profile.page
  let scan := s.profile.scan
  let header ← remaining scan.headerBytes s.counters.headerBytes
  let wire ← remaining scan.wireResponseBytes s.counters.wireResponseBytes
  let decompressed ←
    remaining scan.decompressedResponseBytes s.counters.decompressedResponseBytes
  let records ← remaining scan.decodedRecords s.counters.decodedRecords
  let body ← s.bodyAllowance
  pure ⟨min page.headerBytes header, min page.wireResponseBytes wire,
    min page.decompressedResponseBytes decompressed, min page.decodedRecords records,
    min page.decodedMemoryBytes scan.retainedDecodedMemoryBytes, body, s.deadline⟩

/-- Only the first attempt of a step is charged a page. -/
def pageCharge (s : ScanResourceAccounting) : Except ScanResourceError UInt64 :=
  if s.currentStepPageCommitted then .ok s.counters.pages
  else addChecked s.counters.pages 1 s.profile.scan.pages

/-- The counters and the allowance of the attempt about to begin. -/
def attemptCharges (s : ScanResourceAccounting) :
    Except ScanResourceError (UInt64 × UInt64 × UInt64 × UInt64 × PageResourceAllowance) := do
  let stepAttempts ← addChecked s.currentStepAttempts 1 s.profile.page.requestAttempts
  let scanAttempts ← addChecked s.counters.requestAttempts 1 s.profile.scan.requestAttempts
  let pages ← s.pageCharge
  let active ← addChecked s.counters.activeRequests 1 s.profile.scan.activeRequests
  let allowance ← s.allowance
  pure (stepAttempts, scanAttempts, pages, active, allowance)

/-- An attempt is counted, and gets the allowance that page and scan leave. -/
def beginAttempt (s : ScanResourceAccounting) (now : Int) :
    Except ScanResourceError PageResourceAllowance × ScanResourceAccounting :=
  let pagesSpent := !s.currentStepPageCommitted && decide (s.counters.pages ≥ s.profile.scan.pages)
  if s.state != .stepActive then
    s.fail ⟨"resource_state", "scan resource state cannot begin an attempt"⟩
  else if now ≥ s.deadline then
    s.fail ⟨"wall_milliseconds", "scan exceeded its wall-time budget"⟩
  else if pagesSpent || decide (s.currentStepAttempts ≥ s.profile.page.requestAttempts) ||
      decide (s.counters.requestAttempts ≥ s.profile.scan.requestAttempts) then
    s.fail (if pagesSpent then ⟨"pages", "scan exhausted its page budget"⟩
      else ⟨"request_attempts", "scan exhausted its request-attempt budget"⟩)
  else
    match s.attemptCharges with
    | .error error => s.fail error
    | .ok (stepAttempts, scanAttempts, pages, active, allowance) =>
      (.ok allowance, { s with
        currentStepAttempts := stepAttempts
        counters := { s.counters with
          requestAttempts := scanAttempts
          pages := pages
          activeRequests := active }
        currentStepPageCommitted := true
        currentAttemptRemoteCommitted := false
        activeAllowance := allowance
        state := .requestActive })

-- ---------------------------------------------------------------------------
-- Commits
-- ---------------------------------------------------------------------------

/-- The body of a request must not be empty and must fit what is left. -/
def requestBodyCharge (s : ScanResourceAccounting) (bodyBytes : UInt64) :
    Except ScanResourceError UInt64 := do
  throwIf (bodyBytes == 0) ⟨"request_body_bytes", "serialized request body cannot be empty"⟩
  requireWithin bodyBytes s.activeAllowance.serializedRequestBodyBytes "request_body_bytes"
  addChecked s.counters.serializedRequestBodyBytes bodyBytes
    s.profile.scan.serializedRequestBodyBytes

/-- Charges the body of the request, once in an attempt. -/
def commitRequestBody (s : ScanResourceAccounting) (bodyBytes : UInt64) :
    Except ScanResourceError Unit × ScanResourceAccounting :=
  if s.state != .requestActive || s.profile.page.serializedRequestBodyBytes == 0 then
    s.fail ⟨"resource_state", "scan resource state cannot commit a request body"⟩
  else
    match s.requestBodyCharge bodyBytes with
    | .error error => s.fail error
    | .ok charged =>
      (.ok (), { s with
        counters := { s.counters with serializedRequestBodyBytes := charged }
        state := .requestBodyCommitted })

/-- The request is complete and may be handed to the transport. -/
def requestReady (s : ScanResourceAccounting) : Bool :=
  let bodyless := s.profile.page.serializedRequestBodyBytes == 0
  (s.state == .requestActive && bodyless) || (s.state == .requestBodyCommitted && !bodyless)

/-- Counts a request that went out, once in an attempt. -/
def commitRemoteRequest (s : ScanResourceAccounting) :
    Except ScanResourceError Unit × ScanResourceAccounting :=
  if !s.requestReady || s.currentAttemptRemoteCommitted then
    s.fail ⟨"resource_state", "scan resource state cannot commit a remote request"⟩
  else
    match addChecked s.counters.remoteRequests 1 s.profile.scan.requestAttempts with
    | .error error => s.fail error
    | .ok charged =>
      (.ok (), { s with
        counters := { s.counters with remoteRequests := charged }
        currentAttemptRemoteCommitted := true })

/-- The use of an attempt has to lie within its allowance. -/
def requireUsageWithin (s : ScanResourceAccounting) (usage : TransportResourceUsage) :
    Except ScanResourceError Unit := do
  requireWithin usage.headerBytes s.activeAllowance.headerBytes "header_bytes"
  requireWithin usage.wireResponseBytes s.activeAllowance.wireResponseBytes "response_bytes"
  requireWithin usage.decompressedResponseBytes s.activeAllowance.decompressedResponseBytes
    "decompressed_bytes"

/-- The three byte counters are written one after the other. -/
def chargeUsage (s : ScanResourceAccounting) (usage : TransportResourceUsage)
    (nextState : ScanResourceState) : Except ScanResourceError Unit × ScanResourceAccounting :=
  let scan := s.profile.scan
  match addChecked s.counters.headerBytes usage.headerBytes scan.headerBytes with
  | .error error => s.fail error
  | .ok header =>
    let s := { s with counters := { s.counters with headerBytes := header } }
    match addChecked s.counters.wireResponseBytes usage.wireResponseBytes
      scan.wireResponseBytes with
    | .error error => s.fail error
    | .ok wire =>
      let s := { s with counters := { s.counters with wireResponseBytes := wire } }
      match addChecked s.counters.decompressedResponseBytes usage.decompressedResponseBytes
        scan.decompressedResponseBytes with
      | .error error => s.fail error
      | .ok decompressed =>
        (.ok (), { s with
          counters := { s.counters with
            decompressedResponseBytes := decompressed
            activeRequests := 0 }
          state := nextState })

/-- Charges what the transport used and goes on to the given state. -/
def commitAttemptUsage (s : ScanResourceAccounting) (usage : TransportResourceUsage)
    (nextState : ScanResourceState) : Except ScanResourceError Unit × ScanResourceAccounting :=
  if !s.requestReady then
    s.fail ⟨"resource_state", "scan resource state cannot commit transport"⟩
  else
    match s.requireUsageWithin usage with
    | .error error => s.fail error
    | .ok () => s.chargeUsage usage nextState

/-- A failed attempt is charged and leaves the step open for another one. -/
def commitAttemptFailure (s : ScanResourceAccounting) (usage : TransportResourceUsage) :
    Except ScanResourceError Unit × ScanResourceAccounting :=
  s.commitAttemptUsage usage .stepActive

/-- A successful attempt is charged and leaves its page to be decoded. -/
def commitTransport (s : ScanResourceAccounting) (usage : TransportResourceUsage) :
    Except ScanResourceError Unit × ScanResourceAccounting :=
  s.commitAttemptUsage usage .transportCommitted

/-- The decoded page has to lie within the allowance and within what the scan leaves. -/
def decodedCharge (s : ScanResourceAccounting) (usage : DecodedPageResourceUsage) :
    Except ScanResourceError UInt64 := do
  requireWithin usage.decodedRecords s.activeAllowance.decodedRecords "decoded_records"
  requireWithin usage.decodedMemoryBytes s.activeAllowance.decodedMemoryBytes
    "decoded_memory_bytes"
  addChecked s.counters.decodedRecords usage.decodedRecords s.profile.scan.decodedRecords

/-- Charges what the decoding used. -/
def commitDecodedPage (s : ScanResourceAccounting) (usage : DecodedPageResourceUsage) :
    Except ScanResourceError Unit × ScanResourceAccounting :=
  if s.state != .transportCommitted then
    s.fail ⟨"resource_state", "scan resource state cannot commit decoded page"⟩
  else
    match s.decodedCharge usage with
    | .error error => s.fail error
    | .ok charged =>
      (.ok (), { s with
        counters := { s.counters with
          decodedRecords := charged
          retainedDecodedMemoryBytes := usage.decodedMemoryBytes
          peakDecodedMemoryBytes := max s.counters.peakDecodedMemoryBytes usage.decodedMemoryBytes }
        state := .pageDecoded })

/-- Ends the step, with the scan ready for the next page or exhausted. -/
def completePage (s : ScanResourceAccounting) (hasNext : Bool) (now : Int) :
    Except ScanResourceError Unit × ScanResourceAccounting :=
  if s.state != .pageDecoded then
    s.fail ⟨"resource_state", "scan resource state cannot complete page"⟩
  else
    let s := { s with counters := { s.counters with retainedDecodedMemoryBytes := 0 } }
    if now ≥ s.deadline then
      s.fail ⟨"wall_milliseconds", "scan exceeded its wall-time budget"⟩
    else
      let s := { s with currentStepAttempts := 0, currentStepPageCommitted := false }
      if !hasNext then (.ok (), { s with state := .exhausted })
      else ({ s with state := .ready } : ScanResourceAccounting).requireReadyForNext now

-- ---------------------------------------------------------------------------
-- Waiting
-- ---------------------------------------------------------------------------

def waitingError : ScanResourceError :=
  ⟨"cumulative_waiting_milliseconds", "scan exceeded its cumulative-waiting budget"⟩

/-- The waiting budget of one mechanism: its counter and its limit. -/
structure WaitBudget where
  used : ScanResourceCounters → UInt64
  charge : ScanResourceCounters → UInt64 → ScanResourceCounters
  limit : ScanResourceLimits → UInt64

/-- The budget of the waits between retries. -/
def retryWaiting : WaitBudget :=
  ⟨(·.cumulativeRetryWaitingMilliseconds),
    fun counters used => { counters with cumulativeRetryWaitingMilliseconds := used },
    (·.cumulativeRetryWaitingMilliseconds)⟩

/-- The budget of the waits for a rate limit. -/
def rateLimitWaiting : WaitBudget :=
  ⟨(·.cumulativeRateLimitWaitingMilliseconds),
    fun counters used => { counters with cumulativeRateLimitWaitingMilliseconds := used },
    (·.cumulativeRateLimitWaitingMilliseconds)⟩

/-- `CommitRetryWait` and `CommitRateLimitWait`. The shared counter is written
before the mechanism's own is checked. -/
def commitWait (own : WaitBudget) (refusal : String) (s : ScanResourceAccounting)
    (milliseconds : UInt64) : Except ScanResourceError Unit × ScanResourceAccounting :=
  if s.state != .stepActive then s.fail ⟨"resource_state", refusal⟩
  else
    match addChecked s.counters.cumulativeWaitingMilliseconds milliseconds
      s.profile.scan.cumulativeWaitingMilliseconds with
    | .error _ => s.fail waitingError
    | .ok waited =>
      let s := { s with counters := { s.counters with cumulativeWaitingMilliseconds := waited } }
      match addChecked (own.used s.counters) milliseconds (own.limit s.profile.scan) with
      | .error _ => s.fail waitingError
      | .ok used => (.ok (), { s with counters := own.charge s.counters used })

/-- Charges a wait between retries. -/
def commitRetryWait : ScanResourceAccounting → UInt64 →
    Except ScanResourceError Unit × ScanResourceAccounting :=
  commitWait retryWaiting "scan resource state cannot commit a wait"

/-- Charges a wait for a rate limit. -/
def commitRateLimitWait : ScanResourceAccounting → UInt64 →
    Except ScanResourceError Unit × ScanResourceAccounting :=
  commitWait rateLimitWaiting "scan resource state cannot commit a rate-limit wait"

/-- Charges a wait for admission, which has a limit of its own. -/
def commitAdmissionWait (s : ScanResourceAccounting) (milliseconds limit : UInt64) :
    Except ScanResourceError Unit × ScanResourceAccounting :=
  if s.state != .stepActive then
    s.fail ⟨"resource_state", "scan resource state cannot commit admission waiting"⟩
  else
    match addChecked s.counters.cumulativeAdmissionWaitingMilliseconds milliseconds limit with
    | .error _ =>
      s.fail ⟨"admission_waiting_milliseconds",
        "scan exceeded its cumulative admission-waiting budget"⟩
    | .ok waiting =>
      (.ok (), { s with
        counters := { s.counters with cumulativeAdmissionWaitingMilliseconds := waiting } })

/-- Charges the time that the transport took. -/
def commitRemoteTransportTime (s : ScanResourceAccounting) (milliseconds : UInt64) :
    Except ScanResourceError Unit × ScanResourceAccounting :=
  if s.state != .requestActive && s.state != .requestBodyCommitted then
    s.fail ⟨"resource_state", "scan resource state cannot commit remote transport time"⟩
  else
    match addChecked s.counters.cumulativeRemoteTransportMilliseconds milliseconds
      0xFFFFFFFFFFFFFFFF with
    | .error _ => s.fail ⟨"wall_milliseconds", "scan remote transport accounting overflowed"⟩
    | .ok transport =>
      (.ok (), { s with
        counters := { s.counters with cumulativeRemoteTransportMilliseconds := transport } })

-- ---------------------------------------------------------------------------
-- Retry authority
-- ---------------------------------------------------------------------------

/-- Whether another attempt would fit the counters of the step and of the scan. -/
def canBeginRetryAttempt (s : ScanResourceAccounting) : Bool :=
  s.state == .stepActive && decide (s.currentStepAttempts < s.profile.page.requestAttempts) &&
    decide (s.counters.requestAttempts < s.profile.scan.requestAttempts)

/-- Throws without touching the ledger. -/
def requireRetryAttemptResources (s : ScanResourceAccounting) (bodyBytes : UInt64) :
    Except ScanResourceError Unit :=
  let used := s.counters
  let page := s.profile.page
  let scan := s.profile.scan
  if !s.canBeginRetryAttempt then
    .error ⟨"request_attempts", "scan exhausted its request-attempt budget"⟩
  else if used.headerBytes ≥ scan.headerBytes then
    .error ⟨"header_bytes", "scan exhausted its response-header budget"⟩
  else if used.wireResponseBytes ≥ scan.wireResponseBytes then
    .error ⟨"response_bytes", "scan exhausted its wire-response budget"⟩
  else if used.decompressedResponseBytes ≥ scan.decompressedResponseBytes then
    .error ⟨"decompressed_bytes", "scan exhausted its decompressed-response budget"⟩
  else if page.serializedRequestBodyBytes == 0 then
    throwIf (bodyBytes != 0)
      ⟨"request_body_bytes", "bodyless scan cannot begin a body-bearing retry"⟩
  else
    throwIf (bodyBytes == 0 || bodyBytes > page.serializedRequestBodyBytes ||
        used.serializedRequestBodyBytes > scan.serializedRequestBodyBytes ||
        bodyBytes > scan.serializedRequestBodyBytes - used.serializedRequestBodyBytes)
      ⟨"request_body_bytes", "scan exhausted its serialized-request-body budget"⟩

end ScanResourceAccounting

end Cuac.Runtime

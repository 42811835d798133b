import Cuac.Lib.Permits
import Cuac.Runtime.Authenticators
import Cuac.Runtime.PaginatedScan

/-!
# Runtime — the paginated GraphQL stream

`GraphqlBatchStream`: the pages of a connection, each asked for with the end
cursor of the one before it. The stream owns a cursor state, a decoded page, the
authorization, the scan permit and four reservations; a `Next` changes all of
them and may throw between any two steps.

The decoder is an argument of the configuration, as is what the library
allocates for a string. Clocks, flags, reservations and allocations are in the
`GraphqlPullEnv`s, one for each turn of the loop. What is subtracted from a
memory budget, and the budget the decoder gets, are written down. Diagnostics
are left out; the buffers of a response belong to the step that asked for it.

The calls of the stream are a sequence; `Cancel` and `Close` set the flag before
they take the lock, so `flag` is a call of its own.
-/

namespace Cuac.Runtime.GraphqlScan

open Cuac.Lib
open Cuac.Lib.Paging
open Cuac.Lib.Permits
open Cuac.Runtime.Authentication
open Cuac.Runtime.Pagination
open Cuac.Runtime.RateLimit
open Cuac.Runtime.Resilience

-- ---------------------------------------------------------------------------
-- The cursor
-- ---------------------------------------------------------------------------

inductive GraphqlCursorErrorKind
  | profile
  | resourceBudget
  | protocol
  deriving DecidableEq, Repr

structure GraphqlCursorError where
  kind : GraphqlCursorErrorKind
  safeMessage : String
  deriving DecidableEq, Repr

def GraphqlCursorError.field : Bytes := ascii "pagination.cursor"

structure GraphqlCursorState where
  maxPages : UInt64
  maxCursorBytes : UInt64
  requestedPages : UInt64
  exhausted : Bool
  failed : Bool
  /-- The filled places of `seen`; there are 32. -/
  seen : List Bytes
  deriving DecidableEq, Repr

namespace GraphqlCursorState

def new (maxPages maxCursorBytes : UInt64) : Except GraphqlCursorError GraphqlCursorState :=
  if maxPages == 0 || maxPages > 32 || maxCursorBytes == 0 || maxCursorBytes > 512 then
    .error ⟨.profile, "GraphQL cursor profile is invalid"⟩
  else .ok ⟨maxPages, maxCursorBytes, 0, false, false, []⟩

def currentCursor (c : GraphqlCursorState) : Option Bytes :=
  if c.exhausted || c.failed then none else c.seen.getLast?

/-- The loop of `RetainedMemoryBytes`; `allocation` is zero for a cursor kept inside its
object. -/
def retainedFrom (allocation : Bytes → UInt64) : UInt64 → List Bytes → UInt64
  | result, [] => result
  | result, cursor :: rest =>
    if allocation cursor > 0xFFFFFFFFFFFFFFFF - result then 0xFFFFFFFFFFFFFFFF
    else retainedFrom allocation (result + allocation cursor) rest

def retainedMemoryBytes (allocation : Bytes → UInt64) (c : GraphqlCursorState) : UInt64 :=
  retainedFrom allocation 0 c.seen

def release (c : GraphqlCursorState) : GraphqlCursorState := { c with seen := [] }

def fail (c : GraphqlCursorState) : GraphqlCursorState := { c with failed := true }.release

/-- A call on the cursor state: what it throws, and what it leaves. -/
abbrev Outcome := Option GraphqlCursorError × GraphqlCursorState

def reject (c : GraphqlCursorState) (kind : GraphqlCursorErrorKind) (message : String) : Outcome :=
  (some ⟨kind, message⟩, c.fail)

def markRequestStarted (c : GraphqlCursorState) : Outcome :=
  if c.failed || c.exhausted || c.requestedPages ≥ c.maxPages then
    c.reject .resourceBudget "GraphQL cursor traversal exceeded its page authority"
  else (none, { c with requestedPages := c.requestedPages + 1 })

def advance (c : GraphqlCursorState) (hasNext : Bool) (endCursor : Bytes) : Outcome :=
  if c.failed || c.exhausted || c.requestedPages == 0 then
    c.reject .protocol "GraphQL cursor state cannot advance"
  else if !hasNext then (none, { c with exhausted := true }.release)
  else if endCursor.isEmpty then
    c.reject .protocol "GraphQL continuation cursor is missing"
  else if endCursor.length > c.maxCursorBytes.toNat then
    c.reject .resourceBudget "GraphQL continuation cursor exceeded its byte budget"
  else if c.seen.contains endCursor then
    c.reject .protocol "GraphQL continuation cursor repeated"
  else if c.seen.length ≥ 32 then
    c.reject .resourceBudget "GraphQL cursor traversal exceeded its page authority"
  else (none, { c with seen := c.seen ++ [endCursor] })

end GraphqlCursorState

-- ---------------------------------------------------------------------------
-- The stream
-- ---------------------------------------------------------------------------

structure GraphqlDecodeLimits where
  maxRecords : UInt64
  maxStringBytes : UInt64
  maxJsonNesting : UInt64
  maxDecodedMemoryBytes : UInt64
  deadline : Int

/-- What `DecodeGraphqlResponse` returns. -/
structure DecodedGraphqlPage (ν : Type) where
  rows : List ν
  hasNext : Bool
  endCursor : Bytes
  retainedMemoryBytes : UInt64
  deriving DecidableEq, Repr

/-- A page the stream has installed. -/
structure CursorPage (ν : Type) where
  rows : List ν
  hasNext : Bool
  endCursor : Bytes
  deriving DecidableEq, Repr

/-- A request handed to the transport; `answered` when its response is the one the step
has returned. -/
structure Asked (ι : Type) where
  attempt : Attempt ι Authentication.HttpRequest
  answered : Bool

structure GraphqlScanConfig (ι ν : Type) where
  profile : AuthorizedGraphqlProfile
  maxPages : UInt64
  batchRows : UInt64
  decodedMemoryBytes : UInt64
  extractedStringBytes : UInt64
  jsonNesting : UInt64
  columns : Nat
  retry : Resilience.RetryPlan
  rateLimit : AdmittedRateLimitPolicy
  resources : ScanResourceProfile
  authorization : ScanAuthorization
  destination : RateLimitDestinationKey
  principal : RateLimitPrincipalToken ι
  retrySeed : UInt64
  parseRateLimitGuidance : RateLimitGuidanceInput → RateLimitGuidanceResult
  decodeGraphqlResponse : Bytes → GraphqlDecodeLimits → Except LocalRaise (DecodedGraphqlPage ν)
  /-- What a string holds once so many bytes are reserved. -/
  capacity : Nat → Nat
  /-- What the library allocates for a cursor, beside its object. -/
  cursorAllocation : Bytes → UInt64
  /-- `sizeof(TypedRow)` -/
  rowBytes : UInt64
  /-- `sizeof(OutputValueType)` -/
  typeBytes : UInt64

structure GraphqlBatchStream (ι ν : Type) where
  /-- The ledger and the state of the retry controller. -/
  controller : Controller ι Authentication.HttpRequest
  cursor : GraphqlCursorState
  cancelled : Bool
  closed : Bool
  exhausted : Bool
  terminalException : Option Thrown
  pageLoaded : Bool
  pageHasNext : Bool
  decoded : List ν
  decodedMemoryBytes : UInt64
  decodedMemoryAllowance : UInt64
  offset : Nat
  rowsEmitted : UInt64
  register : Register
  authorization : Option Nat
  scanPermit : Option Nat
  pageBytesReservation : Option Nat
  pageRowsReservation : Option Nat
  handoffBytesReservation : Option Nat
  handoffRowsReservation : Option Nat
  /-- Every request sent, page installed and batch handed out. -/
  trace : List (Event (Asked ι) (CursorPage ν) ν)
  /-- Every subtraction from a memory budget: from what, and how much. -/
  subtractions : List (UInt64 × UInt64)
  /-- The memory limit of every call to the decoder. -/
  decodeLimits : List UInt64

/-- One turn of the loop of `Next`. -/
structure GraphqlPullEnv where
  cancelled : Bool
  now : Int
  /-- Narrowing the reservation of a used page to the cursors. -/
  narrow : Option LocalRaise
  completedAt : Int
  /-- The state check of `ProduceBatch`. -/
  produceCheck : Option LocalRaise
  handoffBytes : Option LocalRaise
  handoffRows : Option LocalRaise
  /-- What the vectors of the batch hold once they are reserved. -/
  rowCapacity : Nat
  columnCapacity : Nat
  /-- Allocating the batch, moving its rows, the state checks and the alignment. -/
  assemble : Option LocalRaise
  beginAt : Int
  turns : List TurnEnv
  /-- `RetainOnlyCompleteResponseBytes` -/
  retain : Option LocalRaise
  /-- The state check on the response. -/
  accept : Option LocalRaise
  reserveBytes : Option LocalRaise
  reserveRows : Option LocalRaise
  /-- What stops the decoder from outside. -/
  decoding : Option LocalRaise
  /-- The state check after decoding. -/
  decodedCheck : Option LocalRaise

inductive GraphqlError
  | step (error : StepError)
  | rejected (rejection : StatusRejection) (status : UInt32) (retryAfterPresent : Bool)
  | ledger (error : ScanResourceError)
  | callee (raise : LocalRaise)
  | cursor (error : GraphqlCursorError)
  deriving DecidableEq, Repr

inductive GraphqlHalt
  | threw (error : GraphqlError)
  /-- The turns given do not bring the pull to its end. -/
  | unfinished
  deriving DecidableEq, Repr

/-- `GraphqlCursorFailureProperties` -/
def GraphqlCursorErrorKind.failureClass : GraphqlCursorErrorKind → FailureClass
  | .profile => .configuration
  | .resourceBudget => .resourceBudget
  | .protocol => .protocol

/-- The handlers of `Next`. -/
def GraphqlError.report : GraphqlError → Thrown
  | .step .executionCancelled => .executionCancelled
  | .step (.scanResourceError error) => Raised.report false (.callee (ledgerRaise error))
  | .step (.rateLimitFailure _ _) =>
    .executionError ⟨.httpStatus, [], nonSuccessMessage, some .rateLimit⟩
  | .step (.closedAdmission _) => Raised.report false (.callee (.executionError admissionClosed))
  | .step (.gatewayFailure status) =>
    .executionError ⟨.httpStatus, [], nonSuccessMessage,
      some (httpStatusFailureClass status false false)⟩
  | .step (.attemptFailure failure) => Raised.report false (.attemptFailure failure)
  | .step (.callee raise) => Raised.report false (.callee raise)
  | .rejected rejection status retryAfterPresent =>
    Raised.report false (.rejected rejection status retryAfterPresent)
  | .ledger error => Raised.report false (.callee (ledgerRaise error))
  | .callee raise => Raised.report false (.callee raise)
  | .cursor error =>
    .executionError ⟨.policy, GraphqlCursorError.field, ascii error.safeMessage,
      some error.kind.failureClass⟩

variable {ι ν α : Type}

-- ---------------------------------------------------------------------------
-- Permits
-- ---------------------------------------------------------------------------

namespace GraphqlBatchStream

/-- The places a permit can be in. -/
def slots (s : GraphqlBatchStream ι ν) : List (Option Nat) :=
  [s.authorization, s.scanPermit, s.pageBytesReservation, s.pageRowsReservation,
    s.handoffBytesReservation, s.handoffRowsReservation]

def releaseAuthorization (s : GraphqlBatchStream ι ν) : GraphqlBatchStream ι ν :=
  { s with register := s.register.release s.authorization, authorization := none }

def releaseScanPermit (s : GraphqlBatchStream ι ν) : GraphqlBatchStream ι ν :=
  { s with register := s.register.release s.scanPermit, scanPermit := none }

def releasePageBytes (s : GraphqlBatchStream ι ν) : GraphqlBatchStream ι ν :=
  { s with
    register := s.register.release s.pageBytesReservation
    pageBytesReservation := none }

def releasePageRows (s : GraphqlBatchStream ι ν) : GraphqlBatchStream ι ν :=
  { s with
    register := s.register.release s.pageRowsReservation
    pageRowsReservation := none }

def releaseHandoffBytes (s : GraphqlBatchStream ι ν) : GraphqlBatchStream ι ν :=
  { s with
    register := s.register.release s.handoffBytesReservation
    handoffBytesReservation := none }

def releaseHandoffRows (s : GraphqlBatchStream ι ν) : GraphqlBatchStream ι ν :=
  { s with
    register := s.register.release s.handoffRowsReservation
    handoffRowsReservation := none }

/-- The end of a local that holds a permit. -/
def giveBack (permit : Nat) (s : GraphqlBatchStream ι ν) : GraphqlBatchStream ι ν :=
  { s with register := s.register.release (some permit) }

end GraphqlBatchStream

/-- A statement of a pull. -/
abbrev GraphqlPull (ι ν α : Type) : Type := Throwing (GraphqlBatchStream ι ν) GraphqlHalt α

namespace GraphqlPull

def fail (error : GraphqlError) : GraphqlPull ι ν α := Throwing.throw (.threw error)

def failWhen (bad : Bool) (error : GraphqlError) : GraphqlPull ι ν Unit :=
  Throwing.throwWhen bad (.threw error)

def guardedBy : Option LocalRaise → GraphqlPull ι ν Unit
  | none => pure ()
  | some raise => fail (.callee raise)

/-- A call to the ledger. -/
def charge (call : LedgerCall) : GraphqlPull ι ν Unit := do
  let s ← Throwing.get
  let (error, ledger) := s.controller.ledger.call call
  Throwing.modify fun s => { s with controller := { s.controller with ledger := ledger } }
  match error with
  | none => pure ()
  | some error => fail (.ledger error)

/-- A call to the cursor state. -/
def onCursor (call : GraphqlCursorState → GraphqlCursorState.Outcome) : GraphqlPull ι ν Unit := do
  let s ← Throwing.get
  let (error, cursor) := call s.cursor
  Throwing.modify fun s => { s with cursor := cursor }
  match error with
  | none => pure ()
  | some error => fail (.cursor error)

/-- `from - amount`, in 64 bits. -/
def subtract (budget amount : UInt64) : GraphqlPull ι ν UInt64 := do
  Throwing.modify fun s => { s with subtractions := s.subtractions ++ [(budget, amount)] }
  pure (budget - amount)

/-- A reservation of the admission controller, which may refuse. -/
def reserve (refused : Option LocalRaise) : GraphqlPull ι ν Nat := do
  guardedBy refused
  let s ← Throwing.get
  Throwing.modify fun s => { s with register := s.register.issue }
  pure s.register.issued

/-- What is left to do while a local holds a permit; unwinding gives it back. -/
def holding (permit : Nat) (rest : GraphqlPull ι ν α) : GraphqlPull ι ν α := fun s =>
  match rest s with
  | (.ok a, s) => (.ok a, s)
  | (.error halt, s) => (.error halt, s.giveBack permit)

end GraphqlPull

-- ---------------------------------------------------------------------------
-- Fetching a page
-- ---------------------------------------------------------------------------

/-- Building a request raises no transport or status error. -/
def localRaise (error : ExecutionError) : LocalRaise :=
  let raise (stage : LocalStage) : LocalRaise :=
    .executionError ⟨stage, error.field, error.safeMessage, error.classified⟩
  match error.stage with
  | .decode => raise .decode
  | .schema => raise .schema
  | .policy => raise .policy
  | .resource => raise .resource
  | .internal => raise .internal
  | .authentication => raise .authentication
  | .authorization => raise .authorization
  | .remoteProtocol => raise .remoteProtocol
  | .transport | .httpStatus => .unknown

namespace GraphqlScanConfig

/-- The request of a page, with its credential. -/
def buildRequest (config : GraphqlScanConfig ι ν) (cursor : Option Bytes) (allowance : UInt64) :
    Except ExecutionError Authentication.HttpRequest := do
  let request ← buildAdmittedGraphqlRequest config.capacity
    config.profile.toAdmittedGraphqlRequestProfile cursor allowance
  if config.profile.requiresBearer then
    Bearer.authorizeGraphql config.profile request config.authorization
  else pure request

/-- The request factory handed to the retry controller. -/
def requestFactory (config : GraphqlScanConfig ι ν) (cursor : Option Bytes) (allowance : UInt64) :
    Except LocalRaise (Resilience.HttpRequest Authentication.HttpRequest) :=
  match config.buildRequest cursor allowance with
  | .ok request => .ok ⟨request, request.body.length.toUInt64⟩
  | .error error => .error (localRaise error)

/-- `GraphqlMetadataBudget` -/
def metadataBudget (config : GraphqlScanConfig ι ν) : UInt64 :=
  if !config.rateLimit.isWaitingEnabled then 0
  else min config.profile.headerBytes config.decodedMemoryBytes

def stepConfig (config : GraphqlScanConfig ι ν) (cursor : Option Bytes) :
    StepConfig ι Authentication.HttpRequest where
  policy := config.retry
  rateLimit := config.rateLimit
  destination := config.destination
  principal := config.principal
  maxMetadataBytes := config.metadataBudget
  jitterSeed := config.retrySeed
  requestFactory := config.requestFactory cursor
  parseRateLimitGuidance := config.parseRateLimitGuidance

end GraphqlScanConfig

/-- The requests of a step; the last one is answered if the step has returned. -/
def asked (attempts : List (Attempt ι Authentication.HttpRequest)) : Bool → List (Asked ι)
  | false => attempts.map (⟨·, false⟩)
  | true => attempts.dropLast.map (⟨·, false⟩) ++ attempts.getLast?.toList.map (⟨·, true⟩)

/-- `ExecuteHttpStepWithRetry` with this cursor. -/
def executePageStep (config : GraphqlScanConfig ι ν) (env : GraphqlPullEnv)
    (requestCursor : Option Bytes) : GraphqlPull ι ν RetriedHttpResponse := fun s =>
  let (result, controller) :=
    executeHttpStepWithRetry (config.stepConfig requestCursor) env.beginAt env.turns s.controller
  let answered := match result with
    | .ok _ => true
    | .error _ => false
  let s :=
    { s with
      controller := controller
      trace := s.trace ++ (asked (attemptsOf controller.log) answered).map .requested }
  match result with
  | .ok returned => (.ok returned, s)
  | .error (.threw error) => (.error (.threw (.step error)), s)
  | .error .unfinished => (.error .unfinished, s)

def discardGraphqlLinkMetadata (response : Resilience.HttpResponse) : Resilience.HttpResponse :=
  { response with
    metadata := { response.metadata with linkFieldValues := [], retainedBytes := 0 } }

/-- `CheckStatus`. -/
def checkStatus (response : Resilience.HttpResponse) : GraphqlPull ι ν Unit := do
  let retryAfterPresent := response.metadata.retryAfterPresent
  GraphqlPull.failWhen (response.status == 401)
    (.rejected .authentication response.status retryAfterPresent)
  GraphqlPull.failWhen (response.status == 403)
    (.rejected .authorization response.status retryAfterPresent)
  GraphqlPull.failWhen (response.status != 200)
    (.rejected .nonSuccess response.status retryAfterPresent)

def resourceRaise (field message : String) : GraphqlError :=
  .callee (.executionError (localError .resource field message))

/-- Metadata is never kept for a GraphQL response. -/
def checkMetadata (response : Resilience.HttpResponse) : GraphqlPull ι ν Unit :=
  GraphqlPull.failWhen (!response.metadata.linkFieldValues.isEmpty ||
      !response.metadata.rateLimitFields.isEmpty || !response.metadata.dateFieldValues.isEmpty)
    (resourceRaise "" "HTTP response exceeded an execution budget")

/-- What the decoder may use of the page's memory budget. -/
def decodeMemory (config : GraphqlScanConfig ι ν) (allowance retained : UInt64) :
    GraphqlPull ι ν UInt64 := do
  let s ← Throwing.get
  let before := s.cursor.retainedMemoryBytes config.cursorAllocation
  let exhausted := resourceRaise "decoded_memory_bytes"
    "GraphQL cursor state exhausted the decoded-memory budget"
  GraphqlPull.failWhen (decide (retained > allowance)) exhausted
  let free ← GraphqlPull.subtract allowance retained
  GraphqlPull.failWhen (decide (before ≥ free)) exhausted
  let free ← GraphqlPull.subtract allowance retained
  GraphqlPull.subtract free before

/-- A first page reserves its bytes, a later one grows what the cursors were left. -/
def reservePageBytes (env : GraphqlPullEnv) : GraphqlPull ι ν Unit := do
  let s ← Throwing.get
  if s.pageBytesReservation.isSome then GraphqlPull.guardedBy env.reserveBytes
  else do
    let permit ← GraphqlPull.reserve env.reserveBytes
    Throwing.modify fun s => { s.releasePageBytes with pageBytesReservation := some permit }

def decodePage (config : GraphqlScanConfig ι ν) (env : GraphqlPullEnv) (body : Bytes)
    (limits : GraphqlDecodeLimits) : GraphqlPull ι ν (DecodedGraphqlPage ν) := do
  Throwing.modify fun s =>
    { s with decodeLimits := s.decodeLimits ++ [limits.maxDecodedMemoryBytes] }
  GraphqlPull.guardedBy env.decoding
  match config.decodeGraphqlResponse body limits with
  | .ok page => pure page
  | .error raise => GraphqlPull.fail (.callee raise)

/-- The cursor moves on first; then the page is weighed, committed and installed. -/
def installPage (config : GraphqlScanConfig ι ν) (allowance retained : UInt64) (rowsPermit : Nat)
    (page : DecodedGraphqlPage ν) : GraphqlPull ι ν Unit := do
  Throwing.modify fun s => { s with pageHasNext := page.hasNext }
  GraphqlPull.onCursor fun c => c.advance page.hasNext page.endCursor
  let s ← Throwing.get
  let after := s.cursor.retainedMemoryBytes config.cursorAllocation
  let exceeded := resourceRaise "decoded_memory_bytes"
    "GraphQL page and cursor exceeded the decoded-memory budget"
  GraphqlPull.failWhen (decide (page.retainedMemoryBytes > allowance)) exceeded
  let free ← GraphqlPull.subtract allowance page.retainedMemoryBytes
  GraphqlPull.failWhen (decide (after > free)) exceeded
  let retainedMemory := page.retainedMemoryBytes + after + retained
  GraphqlPull.charge (.commitDecodedPage ⟨page.rows.length.toUInt64, retainedMemory⟩)
  Throwing.modify fun s =>
    { s.releasePageRows with
      decodedMemoryBytes := retainedMemory
      decodedMemoryAllowance := allowance
      decoded := page.rows
      pageRowsReservation := some rowsPermit
      offset := 0
      pageLoaded := true
      trace := s.trace ++ [.accepted ⟨page.rows, page.hasNext, page.endCursor⟩] }

def fetchPage (config : GraphqlScanConfig ι ν) (env : GraphqlPullEnv) : GraphqlPull ι ν Unit := do
  let s ← Throwing.get
  let requestCursor := s.cursor.currentCursor
  GraphqlPull.onCursor GraphqlCursorState.markRequestStarted
  let returned ← executePageStep config env requestCursor
  let response := discardGraphqlLinkMetadata returned.response
  GraphqlPull.guardedBy env.retain
  let allowance := returned.allowance
  GraphqlPull.guardedBy env.accept
  checkMetadata response
  checkStatus response
  let memory ← decodeMemory config allowance.decodedMemoryBytes response.metadata.retainedBytes
  reservePageBytes env
  let rowsPermit ← GraphqlPull.reserve env.reserveRows
  GraphqlPull.holding rowsPermit do
    let page ← decodePage config env response.body
      ⟨allowance.decodedRecords, config.extractedStringBytes, config.jsonNesting, memory,
        allowance.deadline⟩
    GraphqlPull.guardedBy env.decodedCheck
    installPage config allowance.decodedMemoryBytes response.metadata.retainedBytes rowsPermit page

-- ---------------------------------------------------------------------------
-- A pull
-- ---------------------------------------------------------------------------

/-- The check at the head of the loop. -/
def checkState (env : GraphqlPullEnv) : GraphqlPull ι ν Unit := do
  let s ← Throwing.get
  GraphqlPull.failWhen env.cancelled (.callee .executionCancelled)
  GraphqlPull.failWhen
    (s.controller.ledger.deadlineStarted && decide (env.now ≥ s.controller.ledger.deadline))
    (resourceRaise "wall_milliseconds" "execution exceeded its wall-time budget")

def handoffExceeded : GraphqlError :=
  resourceRaise "decoded_memory_bytes" "typed batch handoff exceeded its decoded-memory budget"

/-- `TypedBatchHandoffMemoryBytes` -/
def typedBatchHandoffMemoryBytes (config : GraphqlScanConfig ι ν) (rowCapacity columnCapacity : Nat) :
    GraphqlPull ι ν UInt64 := do
  let rows := rowCapacity.toUInt64
  let columns := columnCapacity.toUInt64
  GraphqlPull.failWhen
    ((rows != 0 && decide (rows > 0xFFFFFFFFFFFFFFFF / config.rowBytes)) ||
      (columns != 0 && decide (columns > 0xFFFFFFFFFFFFFFFF / config.typeBytes))) handoffExceeded
  let rowBytes := rows * config.rowBytes
  let columnBytes := columns * config.typeBytes
  GraphqlPull.failWhen (decide (columnBytes > 0xFFFFFFFFFFFFFFFF - rowBytes)) handoffExceeded
  pure (rowBytes + columnBytes)

/-- `RequireTypedBatchHandoffMemory` -/
def requireTypedBatchHandoffMemory (config : GraphqlScanConfig ι ν) (rowCapacity columnCapacity : Nat) :
    GraphqlPull ι ν Unit := do
  let handoffBytes ← typedBatchHandoffMemoryBytes config rowCapacity columnCapacity
  let s ← Throwing.get
  GraphqlPull.failWhen (decide (s.decodedMemoryBytes > s.decodedMemoryAllowance)) handoffExceeded
  let free ← GraphqlPull.subtract s.decodedMemoryAllowance s.decodedMemoryBytes
  GraphqlPull.failWhen (decide (handoffBytes > free)) handoffExceeded

/-- The batch is put together and handed over with its reservations. -/
def handOver (config : GraphqlScanConfig ι ν) (env : GraphqlPullEnv) (count : Nat)
    (reserved : UInt64) (bytesPermit rowsPermit : Nat) : GraphqlPull ι ν (Option (List ν)) := do
  requireTypedBatchHandoffMemory config env.rowCapacity env.columnCapacity
  let held ← typedBatchHandoffMemoryBytes config env.rowCapacity env.columnCapacity
  GraphqlPull.failWhen (decide (held > reserved)) (resourceRaise "decoded_memory_bytes"
    "typed batch capacity exceeded its reserved admission envelope")
  GraphqlPull.guardedBy env.assemble
  let s ← Throwing.get
  let batch := (s.decoded.drop s.offset).take count
  Throwing.modify fun s =>
    { s.releaseHandoffBytes.releaseHandoffRows with
      offset := s.offset + count
      rowsEmitted := s.rowsEmitted + count.toUInt64
      handoffBytesReservation := some bytesPermit
      handoffRowsReservation := some rowsPermit
      trace := s.trace ++ [.delivered batch] }
  pure (some batch)

/-- `ProduceBatch`. -/
def produceBatch (config : GraphqlScanConfig ι ν) (env : GraphqlPullEnv) :
    GraphqlPull ι ν (Option (List ν)) := do
  GraphqlPull.guardedBy env.produceCheck
  let s ← Throwing.get
  let count := min (s.decoded.length - s.offset) config.batchRows.toNat
  GraphqlPull.failWhen (count == 0)
    (.callee (.executionError (localError .internal ""
      "runtime attempted to produce an empty successful batch")))
  requireTypedBatchHandoffMemory config count config.columns
  let reserved ← typedBatchHandoffMemoryBytes config count config.columns
  let bytesPermit ← GraphqlPull.reserve env.handoffBytes
  GraphqlPull.holding bytesPermit do
    let rowsPermit ← GraphqlPull.reserve env.handoffRows
    GraphqlPull.holding rowsPermit (handOver config env count reserved bytesPermit rowsPermit)

/-- The cursors of the pages still ahead stay reserved; the last page leaves none. -/
def freePage (config : GraphqlScanConfig ι ν) (env : GraphqlPullEnv) (hasNext : Bool) :
    GraphqlPull ι ν Unit := do
  Throwing.modify fun s => { s with decoded := [] }.releasePageRows
  let s ← Throwing.get
  if hasNext then
    if s.cursor.retainedMemoryBytes config.cursorAllocation == 0 then
      Throwing.modify GraphqlBatchStream.releasePageBytes
    else GraphqlPull.guardedBy env.narrow
  else
    Throwing.modify fun s => { s with cursor := s.cursor.release }.releasePageBytes

/-- A page that is used up is completed; `false` when it was the last one. -/
def finishPage (config : GraphqlScanConfig ι ν) (env : GraphqlPullEnv) : GraphqlPull ι ν Bool := do
  let s ← Throwing.get
  if s.pageLoaded then do
    freePage config env s.pageHasNext
    Throwing.modify fun s => { s with offset := 0, pageLoaded := false }
    GraphqlPull.charge (.completePage s.pageHasNext env.completedAt)
    if s.pageHasNext then pure true
    else do
      Throwing.modify fun s =>
        { s with exhausted := true }.releaseAuthorization.releaseScanPermit
      pure false
  else pure true

/-- The loop of `Next`; `none` is `false`. -/
def pull (config : GraphqlScanConfig ι ν) : List GraphqlPullEnv → GraphqlPull ι ν (Option (List ν))
  | [] => Throwing.throw .unfinished
  | env :: rest => do
    checkState env
    let s ← Throwing.get
    if s.pageLoaded && decide (s.offset < s.decoded.length) then produceBatch config env
    else do
      let more ← finishPage config env
      if more then do
        fetchPage config env
        pull config rest
      else pure none

-- ---------------------------------------------------------------------------
-- The calls
-- ---------------------------------------------------------------------------

namespace GraphqlBatchStream

/-- The members at the end of `ReleasePrivateState`, in its order. -/
def releasePermits (s : GraphqlBatchStream ι ν) : GraphqlBatchStream ι ν :=
  s.releasePageBytes.releasePageRows.releaseHandoffBytes.releaseHandoffRows.releaseAuthorization
    |>.releaseScanPermit

/-- `ReleasePrivateState`. -/
def releasePrivateState (s : GraphqlBatchStream ι ν) : GraphqlBatchStream ι ν :=
  releasePermits
    { s with
      controller :=
        { s.controller with
          ledger :=
            if s.controller.ledger.state = .exhausted then s.controller.ledger
            else s.controller.ledger.abortPage }
      decoded := []
      cursor := s.cursor.fail
      decodedMemoryBytes := 0
      decodedMemoryAllowance := 0
      offset := 0
      pageLoaded := false }

/-- `RememberCurrentFailure`. -/
def rememberCurrentFailure (s : GraphqlBatchStream ι ν) (thrown : Thrown) :
    GraphqlBatchStream ι ν :=
  { s with terminalException := some thrown, cancelled := true }.releasePrivateState

/-- How a `Next` may stop short of returning. -/
inductive NextHalt
  | threw (thrown : Thrown)
  | unfinished
  deriving DecidableEq, Repr

/-- What every `Next` begins with. -/
def releaseHandoff (s : GraphqlBatchStream ι ν) : GraphqlBatchStream ι ν :=
  s.releaseHandoffBytes.releaseHandoffRows

/-- A `Next` once the last batch is given up. -/
def nextAfresh (config : GraphqlScanConfig ι ν) (envs : List GraphqlPullEnv)
    (s : GraphqlBatchStream ι ν) :
    Except NextHalt (Option (List ν)) × GraphqlBatchStream ι ν :=
  if s.closed then (.ok none, s)
  else
    match s.terminalException with
    | some thrown => (.error (.threw thrown), s)
    | none =>
      if s.exhausted then (.ok none, s)
      else if s.cancelled then (.error (.threw .executionCancelled), s)
      else
        match pull config envs s with
        | (.ok batch, s) => (.ok batch, s)
        | (.error (.threw error), s) =>
          (.error (.threw error.report), s.rememberCurrentFailure error.report)
        | (.error .unfinished, s) => (.error .unfinished, s)

def next (config : GraphqlScanConfig ι ν) (envs : List GraphqlPullEnv)
    (s : GraphqlBatchStream ι ν) :
    Except NextHalt (Option (List ν)) × GraphqlBatchStream ι ν :=
  s.releaseHandoff.nextAfresh config envs

/-- The store both `Cancel` and `Close` begin with. -/
def flag (s : GraphqlBatchStream ι ν) : GraphqlBatchStream ι ν := { s with cancelled := true }

def cancel (s : GraphqlBatchStream ι ν) : GraphqlBatchStream ι ν :=
  if s.closed then s.flag else s.flag.releasePrivateState

def close (s : GraphqlBatchStream ι ν) : GraphqlBatchStream ι ν :=
  if s.closed then s.flag else { s.flag with closed := true }.releasePrivateState

end GraphqlBatchStream

/-- A `ScanResourceError` or `GraphqlCursorError` of the constructor. -/
def openingError (field : Bytes) (message : String) (classified : Option FailureClass) : Thrown :=
  .executionError ⟨.resource, field, ascii message, classified⟩

/-- `OpenGraphqlPaginatedScan`. The stream is given the authorization and the scan permit. -/
def openGraphqlPaginatedScan (config : GraphqlScanConfig ι ν) (cancellationRequested : Bool) :
    Except Thrown (GraphqlBatchStream ι ν) :=
  if cancellationRequested then .error .executionCancelled
  else
    match ScanResourceAccounting.new config.resources with
    | .error error => .error (openingError (ascii error.field) error.safeMessage none)
    | .ok ledger =>
      match GraphqlCursorState.new config.maxPages 512 with
      | .error error =>
        .error (openingError GraphqlCursorError.field error.safeMessage
          (some error.kind.failureClass))
      | .ok cursor => .ok
        { controller := .fresh ledger
          cursor := cursor
          cancelled := false
          closed := false
          exhausted := false
          terminalException := none
          pageLoaded := false
          pageHasNext := false
          decoded := []
          decodedMemoryBytes := 0
          decodedMemoryAllowance := 0
          offset := 0
          rowsEmitted := 0
          register := ⟨2, []⟩
          authorization := some 0
          scanPermit := some 1
          pageBytesReservation := none
          pageRowsReservation := none
          handoffBytesReservation := none
          handoffRowsReservation := none
          trace := []
          subtractions := []
          decodeLimits := [] }

inductive GraphqlStreamCall
  | next (envs : List GraphqlPullEnv)
  | flag
  | cancel
  | close

namespace GraphqlBatchStream

def call (config : GraphqlScanConfig ι ν) (s : GraphqlBatchStream ι ν) :
    GraphqlStreamCall → GraphqlBatchStream ι ν
  | .next envs => (s.next config envs).2
  | .flag => s.flag
  | .cancel => s.cancel
  | .close => s.close

def after (config : GraphqlScanConfig ι ν) (s : GraphqlBatchStream ι ν)
    (calls : List GraphqlStreamCall) : GraphqlBatchStream ι ν :=
  calls.foldl (call config) s

end GraphqlBatchStream

end Cuac.Runtime.GraphqlScan

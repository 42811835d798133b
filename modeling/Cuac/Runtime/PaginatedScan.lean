import Cuac.Runtime.LinkPagination
import Cuac.Runtime.RetryDiscipline

/-!
# Runtime — the paginated REST stream

`PaginatedBatchStream`: one page at a time, fetched through the retry controller,
decoded, and handed out in batches. A pull crosses empty pages; a failure is
remembered and repeated.

The decoder and the Link header parser are arguments of the configuration; what
clocks, flags, reservations and allocations do to a pull is in its `PullEnv`s,
one for each turn of the loop. Diagnostics, the scan permit and the reservations
of a page leave no trace here.

Mutual exclusion makes the calls of the stream a sequence. `Cancel` and `Close`
set the flag before they take the lock, so `flag` is a call of its own.
-/

namespace Cuac.Runtime.Pagination

open Cuac.Lib
open Cuac.Lib.Paging
open Cuac.Runtime.RateLimit
open Cuac.Runtime.Resilience

-- ---------------------------------------------------------------------------
-- The stream
-- ---------------------------------------------------------------------------

/-- What `DecodeJsonPage` returns. -/
structure JsonPage (ν : Type) where
  rows : List ν
  /-- The continuation in the body; empty when there is none. -/
  nextUrl : Bytes
  retainedMemoryBytes : UInt64
  deriving DecidableEq, Repr

/-- A page the stream has installed. -/
structure AcceptedPage (ν : Type) where
  page : UInt64
  rows : List ν
  hasNext : Bool
  deriving DecidableEq, Repr

structure PageScanConfig (ι ν : Type) where
  profile : PaginatedRestProfile
  /-- What a string holds once so many bytes are reserved. -/
  capacity : Nat → Nat
  destination : RateLimitDestinationKey
  principal : RateLimitPrincipalToken ι
  retrySeed : UInt64
  parseRateLimitGuidance : RateLimitGuidanceInput → RateLimitGuidanceResult
  parseLinkHeaderFields : List Bytes → LinkHeaderVisits
  /-- The decoder on a body, within a memory budget. -/
  decodeJsonPage : Bytes → UInt64 → Except LocalRaise (JsonPage ν)
  /-- The authenticator; `none` when it attaches its credential. -/
  authorize : PageRequest → Option LocalRaise

structure PageStream (ι ν : Type) where
  /-- The ledger and the state of the retry controller. -/
  controller : Controller ι PageRequest
  pagination : LinkPaginationState
  cancelled : Bool
  closed : Bool
  exhausted : Bool
  terminalException : Option Thrown
  pageLoaded : Bool
  pageHasNext : Bool
  decoded : List ν
  offset : Nat
  rowsEmitted : UInt64
  /-- Every request sent, page installed and batch handed out. -/
  trace : List (Event (Attempt ι PageRequest) (AcceptedPage ν) ν)
  deriving DecidableEq, Repr

/-- One turn of the loop of `Next`. -/
structure PullEnv where
  cancelled : Bool
  now : Int
  /-- The state check of `ProduceBatch`. -/
  produceCheck : Option LocalRaise
  /-- Handoff memory, reservations, later state checks and alignment. -/
  handoff : Option LocalRaise
  completedAt : Int
  beginAt : Int
  turns : List TurnEnv
  /-- The state check on the response. -/
  accept : Option LocalRaise
  reserve : Option LocalRaise
  /-- What stops the decoder from outside. -/
  decoding : Option LocalRaise
  /-- The state check after decoding, and staging the pagination state. -/
  staging : Option LocalRaise

inductive PageError
  | step (error : StepError)
  | rejected (rejection : StatusRejection) (status : UInt32) (retryAfterPresent : Bool)
  | ledger (error : ScanResourceError)
  | callee (raise : LocalRaise)
  deriving DecidableEq, Repr

inductive PullHalt
  | threw (error : PageError)
  /-- The turns given do not bring the pull to its end. -/
  | unfinished
  deriving DecidableEq, Repr

def ledgerRaise (error : ScanResourceError) : LocalRaise :=
  .scanResourceError (ascii error.field) (ascii error.safeMessage)

def admissionClosed : LocalError :=
  { localError .resource "admission" "local Runtime admission closed during quota waiting" with
    classified := some .localAdmission }

/-- The handlers of `Next`. -/
def PageError.report : PageError → Thrown
  | .step .executionCancelled => .executionCancelled
  | .step (.scanResourceError error) => Raised.report true (.callee (ledgerRaise error))
  | .step (.rateLimitFailure _ _) =>
    .executionError ⟨.httpStatus, [], nonSuccessMessage, some .rateLimit⟩
  | .step (.closedAdmission _) => Raised.report true (.callee (.executionError admissionClosed))
  | .step (.gatewayFailure status) =>
    .executionError ⟨.httpStatus, [], nonSuccessMessage,
      some (httpStatusFailureClass status false false)⟩
  | .step (.attemptFailure failure) => Raised.report true (.attemptFailure failure)
  | .step (.callee raise) => Raised.report true (.callee raise)
  | .rejected rejection status retryAfterPresent =>
    Raised.report true (.rejected rejection status retryAfterPresent)
  | .ledger error => Raised.report true (.callee (ledgerRaise error))
  | .callee raise => Raised.report true (.callee raise)

variable {ι ν : Type}

/-- A statement of a pull. -/
abbrev Pull (ι ν α : Type) : Type := Throwing (PageStream ι ν) PullHalt α

namespace Pull

def fail {α : Type} (error : PageError) : Pull ι ν α := Throwing.throw (.threw error)

def failWhen (bad : Bool) (error : PageError) : Pull ι ν Unit :=
  Throwing.throwWhen bad (.threw error)

def guardedBy : Option LocalRaise → Pull ι ν Unit
  | none => pure ()
  | some raise => fail (.callee raise)

/-- A call to the ledger. -/
def charge (call : LedgerCall) : Pull ι ν Unit := do
  let s ← Throwing.get
  let (error, ledger) := s.controller.ledger.call call
  Throwing.modify fun s => { s with controller := { s.controller with ledger := ledger } }
  match error with
  | none => pure ()
  | some error => fail (.ledger error)

end Pull

-- ---------------------------------------------------------------------------
-- Fetching a page
-- ---------------------------------------------------------------------------

namespace PageScanConfig

/-- The request factory handed to the retry controller. -/
def requestFactory (config : PageScanConfig ι ν) (page : UInt64) :
    Except LocalRaise (HttpRequest PageRequest) := do
  let request ← config.profile.buildPageRequest config.capacity page
  match if config.profile.requiresCredential then config.authorize request else none with
  | some raise => .error raise
  | none => pure ⟨request, 0⟩

def stepConfig (config : PageScanConfig ι ν) (page : UInt64) : StepConfig ι PageRequest where
  policy := config.profile.retry
  rateLimit := config.profile.rateLimit
  destination := config.destination
  principal := config.principal
  maxMetadataBytes := min config.profile.headerBytes config.profile.decodedMemoryBytes
  jitterSeed := config.retrySeed
  requestFactory := fun _ => config.requestFactory page
  parseRateLimitGuidance := config.parseRateLimitGuidance

end PageScanConfig

/-- `ExecuteHttpStepWithRetry` for the current page. -/
def executePageStep (config : PageScanConfig ι ν) (env : PullEnv) :
    Pull ι ν RetriedHttpResponse := fun s =>
  let (result, controller) :=
    executeHttpStepWithRetry (config.stepConfig s.pagination.currentPage) env.beginAt env.turns
      s.controller
  let s :=
    { s with
      controller := controller
      trace := s.trace ++ (attemptsOf controller.log).map .requested }
  match result with
  | .ok returned => (.ok returned, s)
  | .error (.threw error) => (.error (.threw (.step error)), s)
  | .error .unfinished => (.error .unfinished, s)

/-- `CheckStatus`. -/
def checkStatus (response : Resilience.HttpResponse) : Pull ι ν Unit := do
  let retryAfterPresent := response.metadata.retryAfterPresent
  Pull.failWhen (response.status == 401)
    (.rejected .authentication response.status retryAfterPresent)
  Pull.failWhen (response.status == 403)
    (.rejected .authorization response.status retryAfterPresent)
  Pull.failWhen (response.status != 200) (.rejected .nonSuccess response.status retryAfterPresent)

def decodePage (config : PageScanConfig ι ν) (body : Bytes) (memory : UInt64) :
    Pull ι ν (JsonPage ν) :=
  match config.decodeJsonPage body memory with
  | .ok page => pure page
  | .error raise => Pull.fail (.callee raise)

/-- The transition of a copy of the pagination state. -/
def stagePagination (config : PageScanConfig ι ν) (response : Resilience.HttpResponse)
    (page : JsonPage ν) (staged : LinkPaginationState) :
    Except LinkPaginationError LinkPageTransition × LinkPaginationState :=
  match config.profile.paginationStrategy with
  | .responseNextUrl => staged.advanceBody config.profile page.nextUrl
  | .shortPage => staged.advanceByCount config.profile page.rows.length
  | _ =>
    staged.advance config.profile
      (config.parseLinkHeaderFields response.metadata.linkFieldValues)

/-- Commit the decoded page and install it. -/
def installPage (page : JsonPage ν) (metadataBytes : UInt64) :
    Except LinkPaginationError LinkPageTransition × LinkPaginationState → Pull ι ν Unit
  | (.error error, _) => Pull.fail (.callee error.toRaise)
  | (.ok transition, staged) => do
    Pull.charge (.commitDecodedPage
      ⟨page.rows.length.toUInt64, page.retainedMemoryBytes + metadataBytes⟩)
    Throwing.modify fun s =>
      { s with
        decoded := page.rows
        pagination := staged
        offset := 0
        pageHasNext := transition.hasNext
        pageLoaded := true
        trace := s.trace ++
          [.accepted ⟨s.pagination.currentPage, page.rows, transition.hasNext⟩] }

def fetchPage (config : PageScanConfig ι ν) (env : PullEnv) : Pull ι ν Unit := do
  let returned ← executePageStep config env
  let response := returned.response
  let memory := returned.allowance.decodedMemoryBytes
  Pull.guardedBy env.accept
  checkStatus response
  Pull.failWhen (decide (response.metadata.retainedBytes ≥ memory))
    (.callee (.executionError (localError .resource "decoded_memory_bytes"
      "HTTP response metadata exhausted the decoded-page memory budget")))
  Pull.guardedBy env.reserve
  Pull.guardedBy env.decoding
  let page ← decodePage config response.body (memory - response.metadata.retainedBytes)
  Pull.guardedBy env.staging
  let s ← Throwing.get
  installPage page response.metadata.retainedBytes
    (stagePagination config response page s.pagination)

-- ---------------------------------------------------------------------------
-- A pull
-- ---------------------------------------------------------------------------

/-- The check at the head of the loop. -/
def checkState (env : PullEnv) : Pull ι ν Unit := do
  let s ← Throwing.get
  Pull.failWhen env.cancelled (.callee .executionCancelled)
  Pull.failWhen
    (s.controller.ledger.deadlineStarted && decide (env.now ≥ s.controller.ledger.deadline))
    (.callee (.executionError (localError .resource "wall_milliseconds"
      "execution exceeded its wall-time budget")))

/-- `ProduceBatch`. -/
def produceBatch (config : PageScanConfig ι ν) (env : PullEnv) : Pull ι ν (Option (List ν)) := do
  Pull.guardedBy env.produceCheck
  let s ← Throwing.get
  let count := min (s.decoded.length - s.offset) config.profile.batchRows.toNat
  Pull.failWhen (count == 0)
    (.callee (.executionError (localError .internal ""
      "runtime attempted to produce an empty successful batch")))
  Pull.guardedBy env.handoff
  let batch := (s.decoded.drop s.offset).take count
  Throwing.modify fun s =>
    { s with
      offset := s.offset + count
      rowsEmitted := s.rowsEmitted + count.toUInt64
      trace := s.trace ++ [.delivered batch] }
  pure (some batch)

/-- A page that is used up is completed; `false` when it was the last one. -/
def finishPage (env : PullEnv) : Pull ι ν Bool := do
  let s ← Throwing.get
  if s.pageLoaded then do
    Throwing.modify fun s => { s with decoded := [], offset := 0, pageLoaded := false }
    Pull.charge (.completePage s.pageHasNext env.completedAt)
    if s.pageHasNext then pure true
    else do
      Throwing.modify fun s => { s with exhausted := true }
      pure false
  else pure true

/-- The loop of `Next`; `none` is `false`. -/
def pull (config : PageScanConfig ι ν) : List PullEnv → Pull ι ν (Option (List ν))
  | [] => Throwing.throw .unfinished
  | env :: rest => do
    checkState env
    let s ← Throwing.get
    if s.pageLoaded && decide (s.offset < s.decoded.length) then produceBatch config env
    else do
      let more ← finishPage env
      if more then do
        fetchPage config env
        pull config rest
      else pure none

-- ---------------------------------------------------------------------------
-- The calls
-- ---------------------------------------------------------------------------

namespace PageStream

/-- `ReleasePrivateState`. -/
def release (s : PageStream ι ν) : PageStream ι ν :=
  { s with
    controller :=
      { s.controller with
        ledger :=
          if s.controller.ledger.state = .exhausted then s.controller.ledger
          else s.controller.ledger.abortPage }
    decoded := []
    offset := 0
    pageLoaded := false }

/-- `RememberCurrentFailure`. -/
def remember (s : PageStream ι ν) (thrown : Thrown) : PageStream ι ν :=
  { s with terminalException := some thrown, cancelled := true }.release

/-- How a `Next` may stop short of returning. -/
inductive NextHalt
  | threw (thrown : Thrown)
  | unfinished
  deriving DecidableEq, Repr

def next (config : PageScanConfig ι ν) (envs : List PullEnv) (s : PageStream ι ν) :
    Except NextHalt (Option (List ν)) × PageStream ι ν :=
  if s.closed then (.ok none, s)
  else
    match s.terminalException with
    | some thrown => (.error (.threw thrown), s)
    | none =>
      if s.exhausted then (.ok none, s)
      else if s.cancelled then (.error (.threw .executionCancelled), s)
      else
        match pull config envs s with
        | (.ok batch, s) => (.ok batch, s)
        | (.error (.threw error), s) => (.error (.threw error.report), s.remember error.report)
        | (.error .unfinished, s) => (.error .unfinished, s)

/-- The store both `Cancel` and `Close` begin with. -/
def flag (s : PageStream ι ν) : PageStream ι ν := { s with cancelled := true }

def cancel (s : PageStream ι ν) : PageStream ι ν :=
  if s.closed then s.flag else s.flag.release

def close (s : PageStream ι ν) : PageStream ι ν :=
  if s.closed then s.flag else { s.flag with closed := true }.release

def openPaginatedRestScan (config : PageScanConfig ι ν) :
    Except ScanResourceError (PageStream ι ν) :=
  (ScanResourceAccounting.new config.profile.resources).map fun ledger =>
    { controller := .fresh ledger
      pagination := .new config.profile
      cancelled := false
      closed := false
      exhausted := false
      terminalException := none
      pageLoaded := false
      pageHasNext := false
      decoded := []
      offset := 0
      rowsEmitted := 0
      trace := [] }

end PageStream

inductive StreamCall
  | next (envs : List PullEnv)
  | flag
  | cancel
  | close

namespace PageStream

def call (config : PageScanConfig ι ν) (s : PageStream ι ν) : StreamCall → PageStream ι ν
  | .next envs => (s.next config envs).2
  | .flag => s.flag
  | .cancel => s.cancel
  | .close => s.close

def after (config : PageScanConfig ι ν) (s : PageStream ι ν) (calls : List StreamCall) :
    PageStream ι ν :=
  calls.foldl (call config) s

end PageStream

end Cuac.Runtime.Pagination

import Cuac.Runtime.Failure

/-!
# Runtime — one transfer

What one request attempt may end with, and how the installed transport decides
it after libcurl returns. libcurl itself, the callbacks' flags and the chunk
decoder's answer are arguments.

Errors of the other layers (planner, decoder, admission, ledger) never carry the
transport or the status stage, which `LocalStage` says in the type.
-/

namespace Cuac.Runtime

open Cuac.Lib

-- ---------------------------------------------------------------------------
-- Exceptions in flight
-- ---------------------------------------------------------------------------

/-- The stages used outside the transport and the status checks. -/
inductive LocalStage
  | decode
  | schema
  | policy
  | resource
  | internal
  | authentication
  | authorization
  | remoteProtocol
  deriving DecidableEq, Repr

def LocalStage.toErrorStage : LocalStage → ErrorStage
  | .decode => .decode
  | .schema => .schema
  | .policy => .policy
  | .resource => .resource
  | .internal => .internal
  | .authentication => .authentication
  | .authorization => .authorization
  | .remoteProtocol => .remoteProtocol

structure LocalError where
  stage : LocalStage
  field : Bytes
  safeMessage : Bytes
  classified : Option FailureClass
  deriving DecidableEq, Repr

def LocalError.toExecutionError (error : LocalError) : ExecutionError :=
  ⟨error.stage.toErrorStage, error.field, error.safeMessage, error.classified⟩

def localError (stage : LocalStage) (field safeMessage : String) : LocalError :=
  ⟨stage, ascii field, ascii safeMessage, none⟩

inductive LinkPaginationErrorKind
  | malformed
  | policy
  | state
  deriving DecidableEq, Repr

/-- What the code around a transfer may raise. -/
inductive LocalRaise
  | executionError (error : LocalError)
  | executionCancelled
  | scanResourceError (field safeMessage : Bytes)
  | linkPaginationError (kind : LinkPaginationErrorKind) (field safeMessage : Bytes)
  | badAlloc
  | unknown
  deriving DecidableEq, Repr

-- ---------------------------------------------------------------------------
-- One attempt
-- ---------------------------------------------------------------------------

inductive HttpTransportFailureKind
  | couldNotResolveHost
  | couldNotConnect
  | sendFailed
  | emptyResponse
  | receiveFailed
  | other
  deriving DecidableEq, Repr

structure HttpAttemptFacts where
  responseStatus : UInt32
  headerBytes : UInt64
  responseBytes : UInt64
  decompressedResponseBytes : UInt64
  deriving DecidableEq, Repr

/-- The error a failed attempt carries: one of the transport's own, or the local
one it wraps. -/
inductive AttemptError
  | transport (safeMessage : Bytes)
  | callee (error : LocalError)
  deriving DecidableEq, Repr

def transportError (safeMessage : Bytes) : ExecutionError :=
  ⟨.transport, [], safeMessage, none⟩

def AttemptError.toExecutionError : AttemptError → ExecutionError
  | .transport safeMessage => transportError safeMessage
  | .callee error => error.toExecutionError

structure HttpAttemptFailure where
  kind : HttpTransportFailureKind
  facts : HttpAttemptFacts
  error : AttemptError
  deriving DecidableEq, Repr

structure HttpResponse where
  status : UInt32
  headerBytes : UInt64
  responseBytes : UInt64
  decompressedResponseBytes : UInt64
  retryAfterPresent : Bool
  deriving DecidableEq, Repr

/-- How one attempt ends. -/
inductive TransferResult
  | response (response : HttpResponse)
  | attemptFailure (failure : HttpAttemptFailure)
  | attemptCancelled (facts : HttpAttemptFacts)
  /-- A transport error outside any attempt: no handle, no configuration. -/
  | transportFailure (safeMessage : Bytes)
  | raised (raise : LocalRaise)
  deriving DecidableEq, Repr

-- ---------------------------------------------------------------------------
-- The installed transport
-- ---------------------------------------------------------------------------

inductive CurlCode
  | ok
  | couldntResolveHost
  | couldntConnect
  | sendError
  | gotNothing
  | recvError
  | operationTimedout
  | filesizeExceeded
  /-- Any other code. -/
  | unlisted
  deriving DecidableEq, Repr

def classifyCurlFailure : CurlCode → HttpTransportFailureKind
  | .couldntResolveHost => .couldNotResolveHost
  | .couldntConnect => .couldNotConnect
  | .sendError => .sendFailed
  | .gotNothing => .emptyResponse
  | .recvError => .receiveFailed
  | _ => .other

/-- How far the preparation of a transfer gets. -/
inductive CurlSetup
  | ready
  /-- Input validation, header building, the deadline or a cancellation. -/
  | refused (raise : LocalRaise)
  | unavailable
  | configurationFailed
  deriving DecidableEq, Repr

inductive ChunkDecode
  | decoded (bytes : UInt64)
  | cancelled
  | malformed
  | failed (error : LocalError)
  | badAlloc
  | unknown
  deriving DecidableEq, Repr

/-- What the callbacks have noted when libcurl returns. -/
structure CurlTransferState where
  headerBytes : UInt64
  responseBytes : UInt64
  bodyBytes : UInt64
  cancelled : Bool
  addressDenied : Bool
  timedOut : Bool
  headerOversized : Bool
  responseOversized : Bool
  transferEncodingUnsupported : Bool
  decompressedOversized : Bool
  metadataOversized : Bool
  bodyAllocationFailed : Bool
  metadataAllocationFailed : Bool
  transferChunked : Bool
  contentEncoded : Bool
  retryAfterPresent : Bool
  deriving DecidableEq, Repr

structure CurlRun where
  setup : CurlSetup
  maxResponseBytes : UInt64
  transferResult : CurlCode
  /-- `CURLINFO_RESPONSE_CODE`; `none` when it cannot be read or is out of range. -/
  responseStatus : Option UInt32
  cancellationRequested : Bool
  state : CurlTransferState
  chunked : ChunkDecode
  deriving DecidableEq, Repr

namespace CurlRun

def observedFacts (run : CurlRun) (status : UInt32) (responseBytes bodyBytes : UInt64) :
    HttpAttemptFacts :=
  ⟨status, run.state.headerBytes, responseBytes, bodyBytes⟩

/-- `fail_attempt`. -/
def failAttempt (facts : HttpAttemptFacts) (error : AttemptError) : TransferResult :=
  .attemptFailure ⟨.other, facts, error⟩

/-- The tail of a transfer libcurl has completed. -/
def finishTransfer (run : CurlRun) (status : UInt32) (responseBytes bodyBytes : UInt64) :
    TransferResult :=
  if responseBytes > run.maxResponseBytes then
    failAttempt (run.observedFacts status responseBytes bodyBytes)
      (.callee (localError .resource "response_bytes" "HTTP response exceeded its byte budget"))
  else
    .response
      ⟨status, run.state.headerBytes, responseBytes, bodyBytes, run.state.retryAfterPresent⟩

def decodeTransfer (run : CurlRun) (status : UInt32) : TransferResult :=
  let state := run.state
  if state.transferChunked then
    if state.contentEncoded then
      failAttempt (run.observedFacts status state.responseBytes state.bodyBytes)
        (.transport (ascii "HTTP chunked response used unsupported content encoding"))
    else
      let facts := run.observedFacts status state.bodyBytes state.bodyBytes
      match run.chunked with
      | .decoded bytes => run.finishTransfer status state.bodyBytes bytes
      | .cancelled => .attemptCancelled facts
      | .malformed =>
        failAttempt facts (.transport (ascii "HTTP response used malformed chunk framing"))
      | .failed error => failAttempt facts (.callee { error with classified := none })
      | .badAlloc =>
        failAttempt facts
          (.callee (localError .resource "" "HTTP transport exceeded available memory"))
      | .unknown => failAttempt facts (.transport (ascii "HTTP response decoding failed"))
  else run.finishTransfer status state.responseBytes state.bodyBytes

/-- The checks after `curl_easy_perform`, in the source's order. -/
def inspectTransfer (run : CurlRun) : TransferResult :=
  let state := run.state
  match run.responseStatus with
  | none =>
    failAttempt (run.observedFacts 0 state.responseBytes state.bodyBytes)
      (.transport (ascii "HTTP transport returned invalid metadata"))
  | some status =>
    let facts := run.observedFacts status state.responseBytes state.bodyBytes
    let fail (stage : LocalStage) (field safeMessage : String) : TransferResult :=
      failAttempt facts (.callee (localError stage field safeMessage))
    if state.cancelled || run.cancellationRequested then .attemptCancelled facts
    else if state.addressDenied then
      fail .policy "" "resolved address is outside network policy"
    else if state.timedOut || run.transferResult == .operationTimedout then
      fail .resource "wall_milliseconds" "execution exceeded its wall-time budget"
    else if state.headerOversized then
      fail .resource "header_bytes" "HTTP response exceeded its header budget"
    else if state.responseOversized || run.transferResult == .filesizeExceeded then
      fail .resource "response_bytes" "HTTP response exceeded its byte budget"
    else if state.transferEncodingUnsupported then
      failAttempt facts (.transport (ascii "HTTP response used unsupported transfer framing"))
    else if state.decompressedOversized then
      fail .resource "decompressed_bytes" "HTTP response exceeded its decompressed-byte budget"
    else if state.metadataOversized then
      fail .resource "decoded_memory_bytes" "HTTP response metadata exceeded its memory budget"
    else if state.bodyAllocationFailed then
      fail .resource "decompressed_bytes" "HTTP response could not be buffered within its budget"
    else if state.metadataAllocationFailed then
      fail .resource "decoded_memory_bytes"
        "HTTP response metadata could not be retained within its memory budget"
    else if run.transferResult != .ok then
      .attemptFailure
        ⟨classifyCurlFailure run.transferResult, facts,
          .transport (ascii "HTTP request failed")⟩
    else run.decodeTransfer status

/-- `PerformCurlTransfer`, its handlers included. -/
def performCurlTransfer (run : CurlRun) : TransferResult :=
  match run.setup with
  | .refused .badAlloc =>
    .raised (.executionError
      (localError .resource "" "HTTP transport exceeded available memory"))
  | .refused (.executionError error) => .raised (.executionError error)
  | .refused .executionCancelled => .raised .executionCancelled
  | .refused _ => .transportFailure (ascii "HTTP request failed")
  | .unavailable => .transportFailure (ascii "HTTP transport is unavailable")
  | .configurationFailed => .transportFailure (ascii "HTTP transport configuration failed")
  | .ready => run.inspectTransfer

end CurlRun

end Cuac.Runtime

import Cuac.Lib.Bytes

/-!
# Runtime — failures

The redacted failure vocabulary that crosses from the runtime to the adapter.
An error may carry explicit properties; of these the model keeps the failure
class, the only one a modelled function reads back.
-/

namespace Cuac.Runtime

open Cuac.Lib

inductive ErrorStage
  | transport
  | httpStatus
  | decode
  | schema
  | policy
  | resource
  | internal
  | authentication
  | authorization
  | remoteProtocol
  deriving DecidableEq, Repr

inductive FailureClass
  | configuration
  | authorization
  | credentialProvider
  | destinationPolicy
  | transport
  | timeout
  | remoteStatus
  | rateLimit
  | protocol
  | decode
  | schema
  | resourceBudget
  | cancellation
  | internal
  | localAdmission
  deriving DecidableEq, Repr

structure ExecutionError where
  stage : ErrorStage
  field : Bytes
  safeMessage : Bytes
  /-- The class of the attached properties; `none` for an unclassified error. -/
  classified : Option FailureClass
  deriving DecidableEq, Repr

/-- The coarse fallback for an error without properties. -/
def classifyFailureClass : ErrorStage → FailureClass
  | .transport => .transport
  | .httpStatus => .remoteStatus
  | .decode => .decode
  | .schema => .schema
  | .policy => .destinationPolicy
  | .resource => .resourceBudget
  | .internal => .internal
  | .authentication => .credentialProvider
  | .authorization => .authorization
  | .remoteProtocol => .protocol

/-- `FailurePropertiesFromError(error).failure_class`. -/
def failureClassFromError (error : ExecutionError) : FailureClass :=
  error.classified.getD (classifyFailureClass error.stage)

/-- What a call may throw: a classified error, the cancellation marker, or
anything else. -/
inductive Thrown
  | executionError (error : ExecutionError)
  | executionCancelled
  | other
  deriving DecidableEq, Repr

inductive ScanOutcome
  | notStarted
  | running
  | succeeded
  | failed
  | cancelled
  | closed
  deriving DecidableEq, Repr

end Cuac.Runtime

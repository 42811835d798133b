import Mathlib.Logic.Function.Basic
import Cuac.Lib.Machine
import Cuac.Lib.Sorted

/-!
# The generation registry

`RuntimeGenerationRegistry` keeps the active snapshot behind an atomic pointer and
serializes publications with one mutex. A stage takes the mutex and leaves it in the
lease it returns; whichever of commit, discard, assignment and destruction comes first
gives it back. `Snapshot` and the first store of `Close` do not take the mutex.

Any number of threads run calls. A step is one access to the shared state together with
the work on local values around it; the readings of the cancellation flag and whether
`try_lock_for` gives up are chosen by the event. Snapshots are named by their address:
`snapshots` holds every one that was built. `waiting_stages` is left out.
-/

namespace Cuac.Runtime.Generations

open Cuac.Lib

-- ---------------------------------------------------------------------------
-- Values
-- ---------------------------------------------------------------------------

inductive RuntimeGenerationFailure
  | registryClosing
  | staleBase
  | invalidLocalPackage
  | connectorAlreadyActive
  | connectorNotActive
  | reloadDecisionMismatch
  | reloadRejected
  deriving DecidableEq, Repr

inductive PackageReloadClassification
  | exactNoOp
  | compatibleProvenancePatch
  | compatibleProvenanceMinor
  | compatibleAppendOnlyMinor
  | rejectedPackageIdentity
  | incompatibleReload
  deriving DecidableEq, Repr

/-- What the registry reads of a `CompiledLocalPackage`. -/
structure CompiledLocalPackage where
  isValid : Bool
  connectorId : Bytes
  handle : Nat
  deriving DecidableEq, Repr

structure RuntimeGenerationOwner where
  connectorId : Bytes
  handle : Nat
  deriving DecidableEq, Repr

/-- `new RuntimeGenerationOwner(std::move(candidate))` -/
def CompiledLocalPackage.owner (package : CompiledLocalPackage) : RuntimeGenerationOwner :=
  ⟨package.connectorId, package.handle⟩

structure PackageReloadDecision where
  classification : PackageReloadClassification
  connectorId : Bytes
  activeGeneration : Nat
  candidateGeneration : Nat
  deriving DecidableEq, Repr

namespace PackageReloadDecision

variable (decision : PackageReloadDecision)

def isCompatible : Bool :=
  decision.classification ≠ .rejectedPackageIdentity ∧
    decision.classification ≠ .incompatibleReload

def changed : Bool :=
  decision.classification = .compatibleProvenancePatch ∨
    decision.classification = .compatibleProvenanceMinor ∨
    decision.classification = .compatibleAppendOnlyMinor

def «matches» (active candidate : Nat) : Bool :=
  decision.activeGeneration = active ∧ decision.candidateGeneration = candidate

end PackageReloadDecision

/-- The generations of a snapshot. -/
abbrev RuntimeGenerationSnapshot := List RuntimeGenerationOwner

def RuntimeGenerationSnapshot.find (snapshot : RuntimeGenerationSnapshot) (connectorId : Bytes) :
    Option RuntimeGenerationOwner :=
  findBy (·.connectorId) snapshot connectorId

/-- What a call throws. -/
inductive StageError
  | cancelled
  | generation (failure : RuntimeGenerationFailure)
      (rejection : Option PackageReloadClassification)
  | invalidArgument
  deriving DecidableEq, Repr

def StageError.of (failure : RuntimeGenerationFailure) : StageError := .generation failure none

def loadOwners (base : RuntimeGenerationSnapshot) (candidate : RuntimeGenerationOwner) :
    RuntimeGenerationSnapshot :=
  insertAt (·.connectorId) candidate base

def reloadOwners (base : RuntimeGenerationSnapshot) (candidate : RuntimeGenerationOwner) :
    Except StageError RuntimeGenerationSnapshot :=
  match replaceFirst (·.connectorId) candidate base with
  | some owners => .ok owners
  | none => .error (.of .connectorNotActive)

-- ---------------------------------------------------------------------------
-- The work of a stage on its base
-- ---------------------------------------------------------------------------

inductive StageKind
  | load
  | reload (decision : PackageReloadDecision)
  deriving DecidableEq, Repr

/-- The arguments of `StageLoad` and `StageReload`. -/
structure Stage where
  candidate : CompiledLocalPackage
  base : Option Nat
  kind : StageKind
  deriving DecidableEq, Repr

/-- A `RuntimeStagedGeneration`, before its lease. -/
inductive Staged
  | unchanged (owner : RuntimeGenerationOwner)
  | changed (owner : RuntimeGenerationOwner) (target : RuntimeGenerationSnapshot)
  deriving DecidableEq, Repr

/-- The checks of the constructor of `RuntimeStagedGeneration`. -/
def checkStaged (owner : RuntimeGenerationOwner) (target : RuntimeGenerationSnapshot)
    (staged : Staged) : Except StageError Staged :=
  if target.find owner.connectorId = some owner then .ok staged else .error .invalidArgument

/-- `StageLoad` after `RequireCurrentBase`; `cancelled` is what its poll reads. -/
def stageLoad (base : RuntimeGenerationSnapshot) (candidate : CompiledLocalPackage)
    (cancelled : Bool) : Except StageError Staged :=
  if !candidate.isValid then .error (.of .invalidLocalPackage)
  else if (base.find candidate.connectorId).isSome then .error (.of .connectorAlreadyActive)
  else
    let target := loadOwners base candidate.owner
    if cancelled then .error .cancelled
    else checkStaged candidate.owner target (.changed candidate.owner target)

/-- `StageReload` after `RequireCurrentBase`, with what its two polls read. -/
def stageReload (base : RuntimeGenerationSnapshot) (candidate : CompiledLocalPackage)
    (decision : PackageReloadDecision) (cancelled cancelledLater : Bool) :
    Except StageError Staged :=
  if !candidate.isValid then .error (.of .invalidLocalPackage)
  else match base.find candidate.connectorId with
    | none => .error (.of .connectorNotActive)
    | some active =>
      if decision.connectorId ≠ candidate.connectorId ∨
          !decision.matches active.handle candidate.handle then
        .error (.of .reloadDecisionMismatch)
      else if !decision.isCompatible then
        .error (.generation .reloadRejected (some decision.classification))
      else if cancelled then .error .cancelled
      else if !decision.changed then checkStaged active base (.unchanged active)
      else
        match reloadOwners base candidate.owner with
        | .error e => .error e
        | .ok target =>
          if cancelledLater then .error .cancelled
          else checkStaged candidate.owner target (.changed candidate.owner target)

def Stage.run (stage : Stage) (base : RuntimeGenerationSnapshot)
    (cancelled cancelledLater : Bool) : Except StageError Staged :=
  match stage.kind with
  | .load => stageLoad base stage.candidate cancelled
  | .reload decision => stageReload base stage.candidate decision cancelled cancelledLater

-- ---------------------------------------------------------------------------
-- Shared state
-- ---------------------------------------------------------------------------

/-- A `RuntimeGenerationPublicationState` that is pending. The code keeps `target`; the
other fields say what the target was built from. -/
structure Publication where
  target : Nat
  base : Nat
  stage : Stage
  deriving DecidableEq, Repr

inductive Call
  | snapshot
  | stage (stage : Stage)
  | commit (lease : Nat)
  | discard (lease : Nat)
  | destroy (lease : Nat)
  | move (source : Nat)
  | assign (target source : Nat)
  | close
  deriving DecidableEq, Repr

/-- The leases a call names. -/
def Call.leases : Call → List Nat
  | .commit lease | .discard lease | .destroy lease | .move lease => [lease]
  | .assign target source => [target, source]
  | _ => []

inductive Result
  | snapshot (active : Nat)
  | staged (lease : Nat)
  | unchanged
  | failed (error : StageError)
  | moved (lease : Nat)
  | finished
  | closed
  deriving DecidableEq, Repr

/-- Where a thread is: the next access it makes. -/
inductive Phase
  /-- Between calls, with what the last one returned. -/
  | idle (last : Option Result)
  | entered (call : Call)
  | snapshotOpen
  | snapshotLoaded (active : Option Nat)
  | stageWaiting (stage : Stage)
  | stageTimedOut (stage : Stage)
  | stageLocked (stage : Stage)
  | stageChecked (stage : Stage)
  | stageBased (stage : Stage) (base : Nat)
  /-- The assignment has discarded what the target held. -/
  | assignReleasing (target source : Nat)
  | assigning (target source : Nat)
  | closeWaiting
  | closeDraining
  /-- The call gives the mutex back and returns. -/
  | releasing (result : Result)
  deriving DecidableEq, Repr

/-- The phases in which the lock of the call owns the mutex. -/
def Phase.critical : Phase → Bool
  | .stageLocked _ | .stageChecked _ | .stageBased _ _ | .assignReleasing _ _ | .closeDraining
  | .releasing _ => true
  | _ => false

/-- The `std::unique_lock` that owns the mutex: a local one, or that of a lease. -/
inductive Holder
  | call (thread : Nat)
  | lease (lease : Nat)
  deriving DecidableEq, Repr

inductive Entry
  | began (thread : Nat) (call : Call)
  | ended (thread : Nat) (result : Result)
  | published (thread : Nat) (publication : Publication)
  deriving DecidableEq, Repr

structure State where
  closing : Bool
  mutex : Option Holder
  active : Option Nat
  snapshots : List RuntimeGenerationSnapshot
  /-- What each lease holds; a null pointer is `none`. -/
  leases : Nat → Option Publication
  nextLease : Nat
  phases : Nat → Phase
  /-- What happened, latest first. -/
  log : List Entry

def State.initial : State where
  closing := false
  mutex := none
  active := some 0
  snapshots := [[]]
  leases := fun _ => none
  nextLease := 0
  phases := fun _ => .idle none
  log := []

namespace State

variable (s : State)

/-- The generations of the snapshot with this address. -/
def content (snapshot : Nat) : RuntimeGenerationSnapshot := s.snapshots.getD snapshot []

def goto (t : Nat) (phase : Phase) : State :=
  { s with phases := Function.update s.phases t phase }

/-- The call of `t` returns. -/
def finish (t : Nat) (result : Result) : State :=
  { s.goto t (.idle (some result)) with log := .ended t result :: s.log }

def lock (t : Nat) : State := { s with mutex := some (.call t) }

def unlock : State := { s with mutex := none }

/-- The publication of a lease is moved to a local variable of `t`. -/
def take (t lease : Nat) : State :=
  { s with leases := Function.update s.leases lease none, mutex := some (.call t) }

/-- A new lease takes over the lock of `t` and a snapshot built for it. -/
def issue (stage : Stage) (base : Nat) (target : RuntimeGenerationSnapshot) : State :=
  { s with
    snapshots := s.snapshots ++ [target]
    leases := Function.update s.leases s.nextLease (some ⟨s.snapshots.length, base, stage⟩)
    nextLease := s.nextLease + 1
    mutex := some (.lease s.nextLease) }

/-- `publication = std::move(other.publication)`; what the target held is destroyed. -/
def transfer (target source : Nat) : State :=
  match s.leases source with
  | some publication =>
    { s with
      leases := Function.update (Function.update s.leases source none) target (some publication)
      mutex := some (.lease target) }
  | none =>
    { s with
      leases := Function.update s.leases target none
      mutex := if s.mutex = some (.lease target) then none else s.mutex }

/-- The exchange of `Commit`. -/
def publish (t : Nat) (publication : Publication) : State :=
  { s with active := some publication.target, log := .published t publication :: s.log }

end State

-- ---------------------------------------------------------------------------
-- Steps
-- ---------------------------------------------------------------------------

/-- What the environment decides in one step. -/
structure Readings where
  cancelled : Bool
  cancelledLater : Bool
  /-- `try_lock_for` succeeds if it can. -/
  acquired : Bool
  deriving DecidableEq, Repr

/-- The cancellation and closing checks that `AcquireStage` makes three times. -/
def State.stageCheck (s : State) (readings : Readings) : Option StageError :=
  if readings.cancelled then some .cancelled
  else if s.closing then some (.of .registryClosing)
  else none

/-- The first access of a call. -/
def State.enter (s : State) (t : Nat) (readings : Readings) : Call → State
  | .snapshot =>
    if s.closing then s.finish t (.failed (.of .registryClosing)) else s.goto t .snapshotOpen
  | .stage stage =>
    match s.stageCheck readings with
    | some e => s.finish t (.failed e)
    | none => s.goto t (.stageWaiting stage)
  | .commit lease =>
    match s.leases lease with
    | none => s.finish t .finished
    | some publication =>
      ((s.take t lease).publish t publication).goto t (.releasing .finished)
  | .discard lease | .destroy lease =>
    match s.leases lease with
    | none => s.finish t .finished
    | some _ => (s.take t lease).goto t (.releasing .finished)
  | .move source =>
    let lease := s.nextLease
    ({ s.transfer lease source with nextLease := lease + 1 }).finish t (.moved lease)
  | .assign target source =>
    if target = source then s.finish t .finished
    else match s.leases target with
      | none => s.goto t (.assigning target source)
      | some _ => (s.take t target).goto t (.assignReleasing target source)
  | .close => { s with closing := true }.goto t .closeWaiting

/-- One access of thread `t`. -/
def State.advance (s : State) (t : Nat) (readings : Readings) : State :=
  match s.phases t with
  | .idle _ => s
  | .entered call => s.enter t readings call
  | .snapshotOpen => s.goto t (.snapshotLoaded s.active)
  | .snapshotLoaded active =>
    match s.closing, active with
    | false, some active => s.finish t (.snapshot active)
    | _, _ => s.finish t (.failed (.of .registryClosing))
  | .stageWaiting stage =>
    if readings.acquired && s.mutex.isNone then (s.lock t).goto t (.stageLocked stage)
    else s.goto t (.stageTimedOut stage)
  | .stageTimedOut stage =>
    match s.stageCheck readings with
    | some e => s.finish t (.failed e)
    | none => s.goto t (.stageWaiting stage)
  | .stageLocked stage =>
    match s.stageCheck readings with
    | some e => s.goto t (.releasing (.failed e))
    | none => s.goto t (.stageChecked stage)
  | .stageChecked stage =>
    match stage.base with
    | none => s.goto t (.releasing (.failed (.of .staleBase)))
    | some base =>
      if s.active = some base then s.goto t (.stageBased stage base)
      else s.goto t (.releasing (.failed (.of .staleBase)))
  | .stageBased stage base =>
    match stage.run (s.content base) readings.cancelled readings.cancelledLater with
    | .error e => s.goto t (.releasing (.failed e))
    | .ok (.unchanged _) => s.goto t (.releasing .unchanged)
    | .ok (.changed _ target) =>
      (s.issue stage base target).finish t (.staged s.nextLease)
  | .assignReleasing target source => s.unlock.goto t (.assigning target source)
  | .assigning target source => (s.transfer target source).finish t .finished
  | .closeWaiting => if s.mutex.isNone then (s.lock t).goto t .closeDraining else s
  | .closeDraining => { s with active := none }.goto t (.releasing .closed)
  | .releasing result => s.unlock.finish t result

inductive Action
  | begin (call : Call)
  | advance (readings : Readings)
  deriving DecidableEq, Repr

structure Event where
  thread : Nat
  action : Action
  deriving DecidableEq, Repr

/-- A thread starts a call when it is in none, on leases that were issued. -/
def State.begin (s : State) (t : Nat) (call : Call) : State :=
  match s.phases t with
  | .idle _ =>
    if call.leases.all (· < s.nextLease) then
      { s.goto t (.entered call) with log := .began t call :: s.log }
    else s
  | _ => s

def State.step (s : State) (e : Event) : State :=
  match e.action with
  | .begin call => s.begin e.thread call
  | .advance readings => s.advance e.thread readings

def registry : Machine State Event where
  start := .initial
  step := State.step

end Cuac.Runtime.Generations

import Cuac.Lib.Bytes
import Cuac.Lib.Machine
import Cuac.Lib.Tally

/-!
# Admission — the controller

The executor-local capacity authority: eight resources, each counted globally
and per connector, destination, principal and bulkhead, and three queues that
are counted the same way. Every operation runs under one mutex, so the model is
one function per critical section on a shared `State`:

* `acquireQueued` — from taking the lock to the first wait or return;
* `poll` — one wake of a waiting thread, up to its next wait or return;
* `waitThrows` — a wait that ends in an exception;
* `acquireImmediate`, `resizeBytes`, `release`, `close`.

What a section reads from outside (clock readings, cancellation, whether an
allocation or the materialization hook throws) is an argument of the section.
A thrown exception keeps the state its handlers leave behind.

A permit is a handle that exactly one object owns; moving it between objects
changes nothing here, and destroying it or assigning over it is `release`.
`State.granted` holds the tickets a dispatch has granted and whose threads have
not collected them yet. `State.grants` and `Counters.borrowed` are history
variables: who was granted over which queue, and whether a subtraction ever
borrowed.
-/

namespace Cuac.Admission

open Cuac.Lib

-- ---------------------------------------------------------------------------
-- Identities
-- ---------------------------------------------------------------------------

inductive AdmissionDirectPrincipal
  | bearer
  | credential
  deriving DecidableEq, Repr

inductive AdmissionProtocol
  | rest
  | graphql
  deriving DecidableEq, Repr

/-- `α` is the type of opaque authority identities: they are compared and
hashed, nothing else. -/
inductive AdmissionPrincipalToken (α : Type)
  | anonymous
  | direct (principal : AdmissionDirectPrincipal)
  | opaqueAuthority (identity : α)
  deriving DecidableEq, Repr

structure AdmissionDestinationKey where
  scheme : Bytes
  host : Bytes
  explicitPort : UInt16
  deriving DecidableEq, Repr

structure BulkheadKey (α : Type) where
  connectorId : Bytes
  destination : AdmissionDestinationKey
  relationId : Bytes
  protocol : AdmissionProtocol
  operationId : Bytes
  principal : AdmissionPrincipalToken α
  deriving DecidableEq, Repr

structure AdmissionIdentity (α : Type) where
  connectorId : Bytes
  destination : AdmissionDestinationKey
  complete : Bool
  relationId : Bytes
  protocol : AdmissionProtocol
  operationId : Bytes
  principal : AdmissionPrincipalToken α
  deriving DecidableEq, Repr

namespace AdmissionIdentity

variable {α : Type}

/-- Sufficient for credential resolution only. -/
def preliminary (connectorId : Bytes) (destination : AdmissionDestinationKey) :
    AdmissionIdentity α :=
  ⟨connectorId, destination, false, [], .rest, [], .anonymous⟩

def toBulkhead (identity : AdmissionIdentity α) : BulkheadKey α :=
  ⟨identity.connectorId, identity.destination, identity.relationId, identity.protocol,
    identity.operationId, identity.principal⟩

def usesPrincipal (identity : AdmissionIdentity α) : Bool :=
  identity.complete &&
    match identity.principal with
    | .opaqueAuthority _ => true
    | _ => false

/-- The principal key an identity is counted under, if any. -/
def principalKey (identity : AdmissionIdentity α) : Option (AdmissionPrincipalToken α) :=
  if identity.usesPrincipal then some identity.principal else none

/-- The bulkhead an identity is counted under, if any. -/
def bulkheadKey (identity : AdmissionIdentity α) : Option (BulkheadKey α) :=
  if identity.complete then some identity.toBulkhead else none

end AdmissionIdentity

-- ---------------------------------------------------------------------------
-- Hashes
-- ---------------------------------------------------------------------------

/-- `std::hash` and the opaque identities' own hash. -/
class StdHash (α : Type) where
  string : Bytes → UInt64
  u16 : UInt16 → UInt64
  u8 : UInt8 → UInt64
  opaqueIdentity : α → UInt64

/-- One concrete choice, to run the model with. -/
instance : StdHash Nat where
  string := fun bytes => bytes.foldl (fun h b => h * 31 + b.toUInt64) 7
  u16 := fun port => port.toUInt64
  u8 := fun tag => tag.toUInt64
  opaqueIdentity := fun identity => UInt64.ofNat identity

section Hashes

variable {α : Type} [StdHash α]

def combineHash (left right : UInt64) : UInt64 :=
  left ^^^ (right + (0x9e3779b9 : UInt64) + (left <<< (6 : UInt64)) + (left >>> (2 : UInt64)))

variable (α) in
def stringHash (key : Bytes) : UInt64 :=
  StdHash.string α key

variable (α) in
def destinationHash (key : AdmissionDestinationKey) : UInt64 :=
  combineHash (combineHash (stringHash α key.scheme) (stringHash α key.host))
    (StdHash.u16 α key.explicitPort)

def principalHash : AdmissionPrincipalToken α → UInt64
  | .anonymous => 0
  | .direct .bearer => StdHash.u8 α 0
  | .direct .credential => StdHash.u8 α 1
  | .opaqueAuthority identity => StdHash.opaqueIdentity identity

def bulkheadHash (key : BulkheadKey α) : UInt64 :=
  let result := stringHash α key.connectorId
  let result := combineHash result (destinationHash α key.destination)
  let result := combineHash result (stringHash α key.relationId)
  let result := combineHash result
    (StdHash.u8 α (match key.protocol with | .rest => 0 | .graphql => 1))
  let result := combineHash result (stringHash α key.operationId)
  combineHash result (principalHash key.principal)

end Hashes

-- ---------------------------------------------------------------------------
-- Limits, observations and statuses
-- ---------------------------------------------------------------------------

structure AdmissionDimensionLimits where
  global : UInt64
  connector : UInt64
  destination : UInt64
  principal : UInt64
  bulkhead : UInt64
  deriving DecidableEq, Repr

structure AdmissionProfile where
  credentialResolutions : AdmissionDimensionLimits
  queuedCredentialResolutions : AdmissionDimensionLimits
  activeScans : AdmissionDimensionLimits
  inFlightRequests : AdmissionDimensionLimits
  queuedScanAdmissions : AdmissionDimensionLimits
  queuedRequestAdmissions : AdmissionDimensionLimits
  retryWaiters : AdmissionDimensionLimits
  rateLimitWaiters : AdmissionDimensionLimits
  bufferedBytes : AdmissionDimensionLimits
  bufferedRows : AdmissionDimensionLimits
  cacheResidentBytes : AdmissionDimensionLimits
  providerQueueTimeoutMilliseconds : UInt64
  scanQueueTimeoutMilliseconds : UInt64
  requestQueueTimeoutMilliseconds : UInt64
  aggregateRequestWaitingMilliseconds : UInt64
  interruptSliceMilliseconds : UInt64
  deriving DecidableEq, Repr

def AdmissionProfile.hard : AdmissionProfile where
  credentialResolutions := ⟨16, 8, 8, 0, 0⟩
  queuedCredentialResolutions := ⟨64, 16, 16, 0, 0⟩
  activeScans := ⟨64, 16, 16, 8, 4⟩
  inFlightRequests := ⟨32, 8, 8, 4, 2⟩
  queuedScanAdmissions := ⟨256, 64, 64, 32, 16⟩
  queuedRequestAdmissions := ⟨256, 64, 64, 32, 16⟩
  retryWaiters := ⟨32, 16, 16, 8, 4⟩
  rateLimitWaiters := ⟨32, 16, 16, 8, 4⟩
  bufferedBytes := ⟨256 * 1024 * 1024, 128 * 1024 * 1024, 128 * 1024 * 1024, 64 * 1024 * 1024,
    32 * 1024 * 1024⟩
  bufferedRows := ⟨6400, 3200, 3200, 1600, 800⟩
  cacheResidentBytes := ⟨64 * 1024 * 1024, 32 * 1024 * 1024, 32 * 1024 * 1024,
    32 * 1024 * 1024, 32 * 1024 * 1024⟩
  providerQueueTimeoutMilliseconds := 1000
  scanQueueTimeoutMilliseconds := 1000
  requestQueueTimeoutMilliseconds := 1000
  aggregateRequestWaitingMilliseconds := 5000
  interruptSliceMilliseconds := 5

def validateDimension (value hard : AdmissionDimensionLimits) : Bool :=
  value.global ≤ hard.global && value.connector ≤ hard.connector &&
    value.destination ≤ hard.destination && value.principal ≤ hard.principal &&
    value.bulkhead ≤ hard.bulkhead

/-- A profile may only narrow the installed hard limits. -/
def validateProfile (profile : AdmissionProfile) : Bool :=
  let hard := AdmissionProfile.hard
  validateDimension profile.credentialResolutions hard.credentialResolutions &&
    validateDimension profile.queuedCredentialResolutions hard.queuedCredentialResolutions &&
    validateDimension profile.activeScans hard.activeScans &&
    validateDimension profile.inFlightRequests hard.inFlightRequests &&
    validateDimension profile.queuedScanAdmissions hard.queuedScanAdmissions &&
    validateDimension profile.queuedRequestAdmissions hard.queuedRequestAdmissions &&
    validateDimension profile.retryWaiters hard.retryWaiters &&
    validateDimension profile.rateLimitWaiters hard.rateLimitWaiters &&
    validateDimension profile.bufferedBytes hard.bufferedBytes &&
    validateDimension profile.bufferedRows hard.bufferedRows &&
    validateDimension profile.cacheResidentBytes hard.cacheResidentBytes &&
    profile.providerQueueTimeoutMilliseconds ≤ hard.providerQueueTimeoutMilliseconds &&
    profile.scanQueueTimeoutMilliseconds ≤ hard.scanQueueTimeoutMilliseconds &&
    profile.requestQueueTimeoutMilliseconds ≤ hard.requestQueueTimeoutMilliseconds &&
    profile.aggregateRequestWaitingMilliseconds ≤ hard.aggregateRequestWaitingMilliseconds &&
    profile.interruptSliceMilliseconds != 0 &&
    profile.interruptSliceMilliseconds ≤ hard.interruptSliceMilliseconds

inductive AdmissionReason
  | none
  | credentialResolutionQueueSaturated
  | credentialResolutionQueueTimeout
  | scanQueueSaturated
  | scanQueueTimeout
  | requestQueueSaturated
  | requestQueueTimeout
  | admissionWaitingExhausted
  | retryWaitSaturated
  | rateLimitWaitSaturated
  | bufferedBytesExhausted
  | bufferedRowsExhausted
  | cacheResidentBytesExhausted
  | runtimeClosed
  | ticketExhausted
  deriving DecidableEq, Repr

inductive AdmissionScope
  | none
  | global
  | connector
  | destination
  | principal
  | bulkhead
  deriving DecidableEq, Repr

structure AdmissionObservation where
  reason : AdmissionReason
  scope : AdmissionScope
  limit : UInt64
  observed : UInt64
  requested : UInt64
  waitedMilliseconds : Nat
  waiting : Bool
  deriving DecidableEq, Repr

def emptyObservation : AdmissionObservation :=
  ⟨.none, .none, 0, 0, 0, 0, false⟩

inductive AdmissionAcquireStatus
  | acquired
  | rejected
  | cancelled
  | scanDeadlineReached
  deriving DecidableEq, Repr

structure AdmissionWaitPolicy where
  queueDeadlineMilliseconds : Int
  hasAggregateDeadline : Bool
  aggregateDeadlineMilliseconds : Int
  hasScanDeadline : Bool
  scanDeadlineMilliseconds : Int
  deriving DecidableEq, Repr

inductive ResourceKind
  | credentialResolution
  | activeScan
  | request
  | retryWaiter
  | rateLimitWaiter
  | bufferedBytes
  | bufferedRows
  | cacheResidentBytes
  deriving DecidableEq, Repr

/-- The three real queues; the source's `NONE` is refused on entry and no caller
passes it. -/
inductive QueueKind
  | credentialResolution
  | scan
  | request
  deriving DecidableEq, Repr

/-- The resource each queued entry point acquires. -/
def QueueKind.resource : QueueKind → ResourceKind
  | .credentialResolution => .credentialResolution
  | .scan => .activeScan
  | .request => .request

def resourceLimits (profile : AdmissionProfile) : ResourceKind → AdmissionDimensionLimits
  | .credentialResolution => profile.credentialResolutions
  | .activeScan => profile.activeScans
  | .request => profile.inFlightRequests
  | .retryWaiter => profile.retryWaiters
  | .rateLimitWaiter => profile.rateLimitWaiters
  | .bufferedBytes => profile.bufferedBytes
  | .bufferedRows => profile.bufferedRows
  | .cacheResidentBytes => profile.cacheResidentBytes

def queueLimits (profile : AdmissionProfile) : QueueKind → AdmissionDimensionLimits
  | .credentialResolution => profile.queuedCredentialResolutions
  | .scan => profile.queuedScanAdmissions
  | .request => profile.queuedRequestAdmissions

def saturatedReason : QueueKind → AdmissionReason
  | .credentialResolution => .credentialResolutionQueueSaturated
  | .scan => .scanQueueSaturated
  | .request => .requestQueueSaturated

def timeoutReason : QueueKind → AdmissionReason
  | .credentialResolution => .credentialResolutionQueueTimeout
  | .scan => .scanQueueTimeout
  | .request => .requestQueueTimeout

-- ---------------------------------------------------------------------------
-- Counters
-- ---------------------------------------------------------------------------

structure Counters (α : Type) where
  global : UInt64
  connectors : List (KeyCount Bytes)
  destinations : List (KeyCount AdmissionDestinationKey)
  principals : List (KeyCount (AdmissionPrincipalToken α))
  bulkheads : List (KeyCount (BulkheadKey α))
  /-- History: some subtraction took more than the counter held. -/
  borrowed : Bool
  deriving DecidableEq, Repr

def Counters.empty {α : Type} : Counters α :=
  ⟨0, [], [], [], [], false⟩

/-- The keyed dimensions, in the order `addUsage` charges them. -/
inductive Dimension
  | connector
  | destination
  | principal
  | bulkhead
  deriving DecidableEq, Repr

def exceeds (observed requested limit : UInt64) : Bool :=
  requested > limit || observed > limit - requested

section Counting

variable {α : Type} [DecidableEq α] [StdHash α]

/-- The first dimension in which `amount` more would not fit; scope `none` when
it fits everywhere. -/
def checkFits (counts : Counters α) (identity : AdmissionIdentity α) (amount : UInt64)
    (limits : AdmissionDimensionLimits) : AdmissionObservation :=
  let result := { emptyObservation with requested := amount }
  if exceeds counts.global amount limits.global then
    { result with scope := .global, limit := limits.global, observed := counts.global }
  else
    let connector := countFor (stringHash α) counts.connectors identity.connectorId
    if exceeds connector amount limits.connector then
      { result with scope := .connector, limit := limits.connector, observed := connector }
    else
      let destination := countFor (destinationHash α) counts.destinations identity.destination
      if exceeds destination amount limits.destination then
        { result with scope := .destination, limit := limits.destination, observed := destination }
      else
        let principal := countFor principalHash counts.principals identity.principal
        if identity.usesPrincipal && exceeds principal amount limits.principal then
          { result with scope := .principal, limit := limits.principal, observed := principal }
        else
          let bulkhead := countFor bulkheadHash counts.bulkheads identity.toBulkhead
          if identity.complete && exceeds bulkhead amount limits.bulkhead then
            { result with scope := .bulkhead, limit := limits.bulkhead, observed := bulkhead }
          else result

/-- `AddCount`: only a key without an entry allocates, and that may throw. -/
def tryAddCount {κ : Type} [DecidableEq κ] (hashOf : κ → UInt64) (fails : Bool)
    (counts : List (KeyCount κ)) (key : κ) (amount : UInt64) : Option (List (KeyCount κ)) :=
  if fails && !counts.any (KeyCount.isFor hashOf key) then none
  else some (addCount hashOf counts key amount)

/-- `SubtractCount` of an optional key, with the borrow it may cause. -/
def takeCount {κ : Type} [DecidableEq κ] (hashOf : κ → UInt64) (counts : List (KeyCount κ))
    (key : κ) (amount : UInt64) : List (KeyCount κ) × Bool :=
  (subtractCount hashOf counts key amount, decide (countFor hashOf counts key < amount))

def dischargeGlobal (c : Counters α) (amount : UInt64) : Counters α :=
  { c with global := c.global - amount, borrowed := c.borrowed || decide (c.global < amount) }

def dischargeConnector (c : Counters α) (identity : AdmissionIdentity α) (amount : UInt64) :
    Counters α :=
  let (connectors, borrow) := takeCount (stringHash α) c.connectors identity.connectorId amount
  { c with connectors := connectors, borrowed := c.borrowed || borrow }

def dischargeDestination (c : Counters α) (identity : AdmissionIdentity α) (amount : UInt64) :
    Counters α :=
  let (destinations, borrow) :=
    takeCount (destinationHash α) c.destinations identity.destination amount
  { c with destinations := destinations, borrowed := c.borrowed || borrow }

def dischargePrincipal (c : Counters α) (identity : AdmissionIdentity α) (amount : UInt64) :
    Counters α :=
  if identity.usesPrincipal then
    let (principals, borrow) := takeCount principalHash c.principals identity.principal amount
    { c with principals := principals, borrowed := c.borrowed || borrow }
  else c

def dischargeBulkhead (c : Counters α) (identity : AdmissionIdentity α) (amount : UInt64) :
    Counters α :=
  if identity.complete then
    let (bulkheads, borrow) := takeCount bulkheadHash c.bulkheads identity.toBulkhead amount
    { c with bulkheads := bulkheads, borrowed := c.borrowed || borrow }
  else c

def subtractUsage (c : Counters α) (identity : AdmissionIdentity α) (amount : UInt64) :
    Counters α :=
  let c := dischargeGlobal c amount
  let c := dischargeConnector c identity amount
  let c := dischargeDestination c identity amount
  let c := dischargePrincipal c identity amount
  dischargeBulkhead c identity amount

/-- Charge every dimension of an identity. When an allocation throws, the
dimensions charged so far are discharged again: `error` carries what is left. -/
def addUsage (fails : Dimension → Bool) (c : Counters α) (identity : AdmissionIdentity α)
    (amount : UInt64) : Except (Counters α) (Counters α) :=
  let c := { c with global := c.global + amount }
  match tryAddCount (stringHash α) (fails .connector) c.connectors identity.connectorId amount with
  | none => .error (dischargeGlobal c amount)
  | some connectors =>
    let c := { c with connectors := connectors }
    match tryAddCount (destinationHash α) (fails .destination) c.destinations
        identity.destination amount with
    | none => .error (dischargeConnector (dischargeGlobal c amount) identity amount)
    | some destinations =>
      let c := { c with destinations := destinations }
      match (if identity.usesPrincipal then
          tryAddCount principalHash (fails .principal) c.principals identity.principal amount
        else some c.principals) with
      | none =>
        .error (dischargeDestination
          (dischargeConnector (dischargeGlobal c amount) identity amount) identity amount)
      | some principals =>
        let c := { c with principals := principals }
        match (if identity.complete then
            tryAddCount bulkheadHash (fails .bulkhead) c.bulkheads identity.toBulkhead amount
          else some c.bulkheads) with
        | none =>
          .error (dischargePrincipal (dischargeDestination
            (dischargeConnector (dischargeGlobal c amount) identity amount) identity amount)
            identity amount)
        | some bulkheads => .ok { c with bulkheads := bulkheads }

end Counting

-- ---------------------------------------------------------------------------
-- Shared state
-- ---------------------------------------------------------------------------

/-- A queued acquisition. Ordinals are drawn per queue and never reused, so
queue and ordinal stand for the ticket's address. -/
structure Ticket (α : Type) where
  queue : QueueKind
  identity : AdmissionIdentity α
  ordinal : UInt64
  wait : AdmissionWaitPolicy
  started : Int
  grantedAt : Int
  lastBlocking : AdmissionObservation
  deriving DecidableEq, Repr

def Ticket.resource {α : Type} (ticket : Ticket α) : ResourceKind :=
  ticket.queue.resource

def Ticket.is {α : Type} (queue : QueueKind) (ordinal : UInt64) (ticket : Ticket α) : Bool :=
  ticket.queue == queue && ticket.ordinal == ordinal

def ticketExpired {α : Type} (ticket : Ticket α) (now : Int) : Bool :=
  now ≥ ticket.wait.queueDeadlineMilliseconds ||
    (ticket.wait.hasAggregateDeadline && now ≥ ticket.wait.aggregateDeadlineMilliseconds) ||
    (ticket.wait.hasScanDeadline && now ≥ ticket.wait.scanDeadlineMilliseconds)

def accountedWait {α : Type} (ticket : Ticket α) (ended : Int) : Nat :=
  let waited := (ended - ticket.started).toNat
  if ticket.wait.hasAggregateDeadline then
    min waited (ticket.wait.aggregateDeadlineMilliseconds - ticket.started).toNat
  else waited

structure PermitHandle (α : Type) where
  resource : ResourceKind
  identity : AdmissionIdentity α
  amount : UInt64
  deriving DecidableEq, Repr

/-- History of one grant: who got it and which tickets were left waiting. -/
inductive Grant (α : Type)
  | queued (ticket : Ticket α) (now : Int) (waiting : List (Ticket α))
  | immediate (resource : ResourceKind) (identity : AdmissionIdentity α)
      (waiting : List (Ticket α))

structure State (α : Type) where
  terminalReason : AdmissionReason
  nextTicket : QueueKind → UInt64
  profile : AdmissionProfile
  resources : ResourceKind → Counters α
  queues : QueueKind → Counters α
  tickets : List (Ticket α)
  granted : List (Ticket α)
  permits : List (PermitHandle α)
  grants : List (Grant α)

def State.initial {α : Type} (profile : AdmissionProfile) (initialTicket : UInt64) : State α where
  terminalReason := .none
  nextTicket := fun _ => initialTicket
  profile := profile
  resources := fun _ => .empty
  queues := fun _ => .empty
  tickets := []
  granted := []
  permits := []
  grants := []

section Sections

variable {α : Type} [DecidableEq α] [StdHash α]

def State.setResource (s : State α) (resource : ResourceKind) (counts : Counters α) : State α :=
  { s with resources := Function.update s.resources resource counts }

def State.setQueue (s : State α) (queue : QueueKind) (counts : Counters α) : State α :=
  { s with queues := Function.update s.queues queue counts }

-- ---------------------------------------------------------------------------
-- Dispatch
-- ---------------------------------------------------------------------------

/-- What one dispatch reads: the clock, and which of its allocations throw. -/
structure DispatchEnv where
  now : Int
  fails : QueueKind → UInt64 → Dimension → Bool

/-- The scan of `GrantEligibleLocked`: `kept` has been passed over, the vector
is always `kept ++ rest`. An exception stops the scan where it stands. -/
def grantEligibleFrom (env : DispatchEnv) (resource : ResourceKind) :
    List (Ticket α) → List (Ticket α) → State α → Except (State α) (State α)
  | kept, [], s => .ok { s with tickets := kept }
  | kept, pending :: rest, s =>
    if pending.resource != resource || ticketExpired pending env.now then
      grantEligibleFrom env resource (kept ++ [pending]) rest s
    else
      let blocking := checkFits (s.resources resource) pending.identity 1
        (resourceLimits s.profile resource)
      if blocking.scope != .none then
        grantEligibleFrom env resource (kept ++ [{ pending with lastBlocking := blocking }]) rest s
      else
        match addUsage (env.fails pending.queue pending.ordinal) (s.resources resource)
            pending.identity 1 with
        | .error counts =>
          .error { s.setResource resource counts with tickets := kept ++ pending :: rest }
        | .ok counts =>
          let s := s.setResource resource counts
          let s := s.setQueue pending.queue
            (subtractUsage (s.queues pending.queue) pending.identity 1)
          grantEligibleFrom env resource kept rest
            { s with
              granted := s.granted ++ [{ pending with grantedAt := env.now }]
              grants := s.grants ++ [.queued pending env.now (kept ++ rest)] }

def grantEligibleLocked (env : DispatchEnv) (resource : ResourceKind) (s : State α) :
    Except (State α) (State α) :=
  if s.terminalReason != .none then .ok s
  else grantEligibleFrom env resource [] s.tickets s

/-- A dispatch whose exception is swallowed. -/
def dispatchQuietly (env : DispatchEnv) (resource : ResourceKind) (s : State α) : State α :=
  match grantEligibleLocked env resource s with
  | .ok s => s
  | .error s => s

def removeTicketLocked (s : State α) (queue : QueueKind) (ordinal : UInt64) : State α :=
  match s.tickets.find? (Ticket.is queue ordinal) with
  | none => s
  | some ticket =>
    { s.setQueue ticket.queue (subtractUsage (s.queues ticket.queue) ticket.identity 1) with
      tickets := s.tickets.eraseP (Ticket.is queue ordinal) }

-- ---------------------------------------------------------------------------
-- Queued acquisition
-- ---------------------------------------------------------------------------

/-- How a section of an acquisition ends. -/
inductive AcquireOutcome
  | returned (status : AdmissionAcquireStatus) (observation : AdmissionObservation)
  | waiting
  | threw
  deriving DecidableEq, Repr

/-- What one turn of the wait loop reads. -/
structure PollEnv where
  cancelled : Bool
  now : Int
  dispatch : DispatchEnv
  /-- The hook or the allocation of the permit throws. -/
  materializationFails : Bool
  /-- The dispatch made while an exception unwinds. -/
  recovery : DispatchEnv

/-- The handler around the wait loop: give back whatever the ticket holds, then
dispatch once more. -/
def unwind (env : PollEnv) (queue : QueueKind) (ordinal : UInt64) (s : State α) : State α :=
  let s := match s.granted.find? (Ticket.is queue ordinal) with
    | some ticket =>
      { s.setResource ticket.resource
          (subtractUsage (s.resources ticket.resource) ticket.identity 1) with
        granted := s.granted.eraseP (Ticket.is queue ordinal) }
    | none => removeTicketLocked s queue ordinal
  dispatchQuietly env.recovery queue.resource s

/-- A granted ticket becomes a permit. The caller's own later `Release`, when it
finds itself cancelled after unlocking, is a `release` of that permit. -/
def collect (env : PollEnv) (ticket : Ticket α) (s : State α) : State α × AcquireOutcome :=
  if env.materializationFails then
    (unwind env ticket.queue ticket.ordinal s, .threw)
  else
    ({ s with
        granted := s.granted.eraseP (Ticket.is ticket.queue ticket.ordinal)
        permits := s.permits ++ [⟨ticket.resource, ticket.identity, 1⟩] },
      .returned .acquired
        { emptyObservation with waitedMilliseconds := accountedWait ticket ticket.grantedAt })

/-- One turn of the wait loop of the thread that owns the ticket. -/
def poll (env : PollEnv) (queue : QueueKind) (ordinal : UInt64) (s : State α) :
    State α × AcquireOutcome :=
  match s.granted.find? (Ticket.is queue ordinal) with
  | some ticket => collect env ticket s
  | none =>
    match s.tickets.find? (Ticket.is queue ordinal) with
    | none => (s, .waiting)
    | some ticket =>
      let waited := accountedWait ticket env.now
      let removed := removeTicketLocked s queue ordinal
      if s.terminalReason != .none then
        (removed, .returned .rejected
          { emptyObservation with reason := s.terminalReason, waitedMilliseconds := waited })
      else if env.cancelled then
        (removed, .returned .cancelled { emptyObservation with waitedMilliseconds := waited })
      else if ticket.wait.hasScanDeadline && env.now ≥ ticket.wait.scanDeadlineMilliseconds then
        (removed, .returned .scanDeadlineReached
          { emptyObservation with waitedMilliseconds := waited })
      else if ticket.wait.hasAggregateDeadline &&
          env.now ≥ ticket.wait.aggregateDeadlineMilliseconds then
        (removed, .returned .rejected
          { ticket.lastBlocking with
            reason := .admissionWaitingExhausted, waitedMilliseconds := waited })
      else if env.now ≥ ticket.wait.queueDeadlineMilliseconds then
        (removed, .returned .rejected
          { ticket.lastBlocking with reason := timeoutReason queue, waitedMilliseconds := waited })
      else
        match grantEligibleLocked env.dispatch queue.resource s with
        | .error s => (unwind env queue ordinal s, .threw)
        | .ok s =>
          match s.granted.find? (Ticket.is queue ordinal) with
          | some ticket => collect env ticket s
          | none => (s, .waiting)

/-- `WaitFor` throws under the lock it has taken again. The ticket may have been
granted while it waited, so the handler sees either case. -/
def waitThrows (env : PollEnv) (queue : QueueKind) (ordinal : UInt64) (s : State α) : State α :=
  if s.granted.any (Ticket.is queue ordinal) || s.tickets.any (Ticket.is queue ordinal) then
    unwind env queue ordinal s
  else s

/-- What the first section of a queued acquisition reads. -/
structure AcquireEnv where
  cancelled : Bool
  evaluated : Int
  started : Int
  /-- `new PermitHandle` on the fast path throws. -/
  permitFails : Bool
  /-- Allocations of the usage charged here throw. -/
  usageFails : Dimension → Bool
  /-- `make_shared<Ticket>` throws. -/
  ticketFails : Bool
  /-- Growing the ticket vector throws. -/
  pushFails : Bool
  dispatch : DispatchEnv
  poll : PollEnv

/-- The slow path: take a ticket, dispatch, and look at it once. -/
def enqueue (env : AcquireEnv) (queue : QueueKind) (identity : AdmissionIdentity α)
    (wait : AdmissionWaitPolicy) (blocking : AdmissionObservation) (s : State α) :
    State α × AcquireOutcome :=
  let queueBlocking := checkFits (s.queues queue) identity 1 (queueLimits s.profile queue)
  if queueBlocking.scope != .none then
    (s, .returned .rejected { queueBlocking with reason := saturatedReason queue })
  else if s.nextTicket queue == 0xFFFFFFFFFFFFFFFF then
    ({ s with terminalReason := .ticketExhausted },
      .returned .rejected { emptyObservation with reason := .ticketExhausted })
  else
    let ordinal := s.nextTicket queue
    let ticket : Ticket α := ⟨queue, identity, ordinal, wait, env.started, env.started, blocking⟩
    let s := { s with nextTicket := Function.update s.nextTicket queue (ordinal + 1) }
    if env.ticketFails then (s, .threw)
    else
      match addUsage env.usageFails (s.queues queue) identity 1 with
      | .error counts => (s.setQueue queue counts, .threw)
      | .ok counts =>
        if env.pushFails then (s.setQueue queue (subtractUsage counts identity 1), .threw)
        else
          let s := { s.setQueue queue counts with tickets := s.tickets ++ [ticket] }
          match grantEligibleLocked env.dispatch queue.resource s with
          | .error s => (unwind env.poll queue ordinal s, .threw)
          | .ok s => poll env.poll queue ordinal s

def acquireQueued (env : AcquireEnv) (queue : QueueKind) (identity : AdmissionIdentity α)
    (wait : AdmissionWaitPolicy) (s : State α) : State α × AcquireOutcome :=
  if (queue != .credentialResolution && !identity.complete) ||
      wait.queueDeadlineMilliseconds < 0 then
    (s, .threw)
  else if s.terminalReason != .none then
    (s, .returned .rejected { emptyObservation with reason := s.terminalReason })
  else if env.cancelled then
    (s, .returned .cancelled emptyObservation)
  else if wait.hasScanDeadline && env.evaluated ≥ wait.scanDeadlineMilliseconds then
    (s, .returned .scanDeadlineReached emptyObservation)
  else if wait.hasAggregateDeadline && env.evaluated ≥ wait.aggregateDeadlineMilliseconds then
    (s, .returned .rejected
      { emptyObservation with reason := .admissionWaitingExhausted, requested := 1 })
  else if env.evaluated ≥ wait.queueDeadlineMilliseconds then
    (s, .returned .rejected { emptyObservation with reason := timeoutReason queue, requested := 1 })
  else
    let resource := queue.resource
    let blocking := checkFits (s.resources resource) identity 1 (resourceLimits s.profile resource)
    if blocking.scope != .none && blocking.limit < blocking.requested then
      (s, .returned .rejected { blocking with reason := saturatedReason queue })
    else if blocking.scope == .none &&
        !s.tickets.any (fun ticket => ticket.resource == resource) then
      -- fast path: nothing waits for this resource
      if env.permitFails then (s, .threw)
      else
        match addUsage env.usageFails (s.resources resource) identity 1 with
        | .error counts => (s.setResource resource counts, .threw)
        | .ok counts =>
          ({ s.setResource resource counts with
              permits := s.permits ++ [⟨resource, identity, 1⟩]
              grants := s.grants ++ [.immediate resource identity s.tickets] },
            .returned .acquired emptyObservation)
    else enqueue env queue identity wait blocking s

/-- Credential resolution runs before the principal is known. -/
def acquireCredentialResolution (env : AcquireEnv) (identity : AdmissionIdentity α)
    (wait : AdmissionWaitPolicy) (s : State α) : State α × AcquireOutcome :=
  if identity.complete then (s, .threw)
  else acquireQueued env .credentialResolution identity wait s

def acquireScan (env : AcquireEnv) (identity : AdmissionIdentity α)
    (wait : AdmissionWaitPolicy) (s : State α) : State α × AcquireOutcome :=
  acquireQueued env .scan identity wait s

def acquireRequest (env : AcquireEnv) (identity : AdmissionIdentity α)
    (wait : AdmissionWaitPolicy) (s : State α) : State α × AcquireOutcome :=
  acquireQueued env .request identity wait s

-- ---------------------------------------------------------------------------
-- Immediate acquisition, resize, release, close
-- ---------------------------------------------------------------------------

/-- The resources that are never queued for, with the reason of their refusal. -/
inductive ImmediateKind
  | retryWaiter
  | rateLimitWaiter
  | bufferedBytes
  | bufferedRows
  | cacheResidentBytes
  deriving DecidableEq, Repr

def ImmediateKind.resource : ImmediateKind → ResourceKind
  | .retryWaiter => .retryWaiter
  | .rateLimitWaiter => .rateLimitWaiter
  | .bufferedBytes => .bufferedBytes
  | .bufferedRows => .bufferedRows
  | .cacheResidentBytes => .cacheResidentBytes

def ImmediateKind.reason : ImmediateKind → AdmissionReason
  | .retryWaiter => .retryWaitSaturated
  | .rateLimitWaiter => .rateLimitWaitSaturated
  | .bufferedBytes => .bufferedBytesExhausted
  | .bufferedRows => .bufferedRowsExhausted
  | .cacheResidentBytes => .cacheResidentBytesExhausted

def acquireImmediate (permitFails : Bool) (usageFails : Dimension → Bool) (kind : ImmediateKind)
    (identity : AdmissionIdentity α) (amount : UInt64) (s : State α) :
    State α × AcquireOutcome :=
  if !identity.complete || amount == 0 then (s, .threw)
  else if s.terminalReason != .none then
    (s, .returned .rejected { emptyObservation with reason := s.terminalReason })
  else
    let resource := kind.resource
    let blocking := checkFits (s.resources resource) identity amount
      (resourceLimits s.profile resource)
    if blocking.scope != .none then
      (s, .returned .rejected { blocking with reason := kind.reason })
    else if permitFails then (s, .threw)
    else
      match addUsage usageFails (s.resources resource) identity amount with
      | .error counts => (s.setResource resource counts, .threw)
      | .ok counts =>
        ({ s.setResource resource counts with
            permits := s.permits ++ [⟨resource, identity, amount⟩]
            grants := s.grants ++ [.immediate resource identity s.tickets] },
          .returned .acquired emptyObservation)

/-- The two resizable reservations. -/
inductive ResizeKind
  | bufferedBytes
  | cacheResidentBytes
  deriving DecidableEq, Repr

def ResizeKind.immediate : ResizeKind → ImmediateKind
  | .bufferedBytes => .bufferedBytes
  | .cacheResidentBytes => .cacheResidentBytes

/-- `ResizeBufferedBytes` and `ResizeCacheResidentBytes` on the permit at
`index`. Shrinking stays possible after close. -/
def resizeBytes (usageFails : Dimension → Bool) (kind : ResizeKind) (index : Nat) (bytes : UInt64)
    (s : State α) : State α × AcquireOutcome :=
  match s.permits[index]? with
  | none => (s, .threw)
  | some handle =>
    let resource := kind.immediate.resource
    if bytes == 0 || handle.resource != resource then (s, .threw)
    else if bytes == handle.amount then (s, .returned .acquired emptyObservation)
    else if bytes < handle.amount then
      ({ s.setResource resource
            (subtractUsage (s.resources resource) handle.identity (handle.amount - bytes)) with
          permits := s.permits.set index { handle with amount := bytes } },
        .returned .acquired emptyObservation)
    else if s.terminalReason != .none then
      (s, .returned .rejected { emptyObservation with reason := s.terminalReason })
    else
      let requested := bytes - handle.amount
      let blocking := checkFits (s.resources resource) handle.identity requested
        (resourceLimits s.profile resource)
      if blocking.scope != .none then
        (s, .returned .rejected { blocking with reason := kind.immediate.reason })
      else
        match addUsage usageFails (s.resources resource) handle.identity requested with
        | .error counts => (s.setResource resource counts, .threw)
        | .ok counts =>
          ({ s.setResource resource counts with
              permits := s.permits.set index { handle with amount := bytes } },
            .returned .acquired emptyObservation)

/-- `Permit::Release`: give the amount back, then dispatch; nothing escapes. A
permit without a handle releases nothing. -/
def release (env : DispatchEnv) (index : Nat) (s : State α) : State α :=
  match s.permits[index]? with
  | none => s
  | some handle =>
    let s := { s.setResource handle.resource
        (subtractUsage (s.resources handle.resource) handle.identity handle.amount) with
      permits := s.permits.eraseIdx index }
    dispatchQuietly env handle.resource s

def close (s : State α) : State α :=
  { s with
    terminalReason := if s.terminalReason = .none then .runtimeClosed else s.terminalReason }

-- ---------------------------------------------------------------------------
-- The machine
-- ---------------------------------------------------------------------------

/-- The atomic sections, each with what it reads from outside. -/
inductive Event (α : Type)
  | acquireCredentialResolution (env : AcquireEnv) (identity : AdmissionIdentity α)
      (wait : AdmissionWaitPolicy)
  | acquireScan (env : AcquireEnv) (identity : AdmissionIdentity α) (wait : AdmissionWaitPolicy)
  | acquireRequest (env : AcquireEnv) (identity : AdmissionIdentity α) (wait : AdmissionWaitPolicy)
  | poll (env : PollEnv) (queue : QueueKind) (ordinal : UInt64)
  | waitThrows (env : PollEnv) (queue : QueueKind) (ordinal : UInt64)
  | acquireImmediate (permitFails : Bool) (usageFails : Dimension → Bool) (kind : ImmediateKind)
      (identity : AdmissionIdentity α) (amount : UInt64)
  | resize (usageFails : Dimension → Bool) (kind : ResizeKind) (index : Nat) (bytes : UInt64)
  | release (env : DispatchEnv) (index : Nat)
  | close

def step (s : State α) : Event α → State α
  | .acquireCredentialResolution env identity wait =>
    (acquireCredentialResolution env identity wait s).1
  | .acquireScan env identity wait => (acquireScan env identity wait s).1
  | .acquireRequest env identity wait => (acquireRequest env identity wait s).1
  | .poll env queue ordinal => (poll env queue ordinal s).1
  | .waitThrows env queue ordinal => waitThrows env queue ordinal s
  | .acquireImmediate permitFails usageFails kind identity amount =>
    (acquireImmediate permitFails usageFails kind identity amount s).1
  | .resize usageFails kind index bytes => (resizeBytes usageFails kind index bytes s).1
  | .release env index => release env index s
  | .close => close s

/-- The controller under an arbitrary interleaving of its sections. -/
def controller (profile : AdmissionProfile) (initialTicket : UInt64) :
    Machine (State α) (Event α) where
  start := State.initial profile initialTicket
  step := step

end Sections

end Cuac.Admission

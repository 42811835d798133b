import Cuac.Lib.Bytes
import Cuac.Lib.Keyed

/-!
# Runtime — the rate-limit coordinator

One FIFO queue of tickets and at most one permit per quota bucket, all under one
mutex. A call is a sequence of locked sections: `Acquire` and `Requeue` hold the
mutex until their first wait, and every wakeup of a waiter is one more turn of
the loop in `WaitForTicket`. What the environment decides inside a section (the
cancellation flag, the clock, a failed allocation) is an argument of it.
-/

namespace Cuac.Runtime.RateLimit

open Cuac.Lib

-- ---------------------------------------------------------------------------
-- Keys, limits and statuses
-- ---------------------------------------------------------------------------

/-- `RateLimitPrincipalToken`; `ι` is the type of opaque identities up to `Equals`. -/
inductive RateLimitPrincipalToken (ι : Type) where
  | anonymous
  | shared (tag : Bytes)
  | opaqueAuthority (identity : ι)
  deriving DecidableEq, Repr

structure RateLimitDestinationKey where
  scheme : Bytes
  host : Bytes
  explicitPort : UInt16
  deriving DecidableEq, Repr

structure RateLimitOperationKey where
  connectorId : Bytes
  packageMajor : UInt64
  operationFamily : Bytes
  deriving DecidableEq, Repr

/-- An absent remote bucket retains no value, so it is an option here. -/
structure QuotaBucketKey (ι : Type) where
  destination : RateLimitDestinationKey
  operation : RateLimitOperationKey
  principal : RateLimitPrincipalToken ι
  remoteBucket : Option Bytes
  deriving DecidableEq, Repr

structure RateLimitCoordinatorLimits where
  waitersPerKey : UInt64
  totalWaiters : UInt64
  interruptSliceMilliseconds : UInt64
  deriving DecidableEq, Repr

def hardLimits : RateLimitCoordinatorLimits := ⟨64, 4096, 5⟩

inductive RateLimitAcquireStatus where
  | acquired
  | queueSaturated
  | schedulerClosed
  | cancelled
  | deadlineReached
  | ticketExhausted
  deriving DecidableEq, Repr

/-- The next slice of a wait for `target`, in milliseconds. -/
def waitSlice (now target : Int) (maximumSlice : UInt64) : Int :=
  if target ≤ now then 0
  else if now ≤ 2 ^ 63 - 1 - maximumSlice.toNat ∧ target > now + maximumSlice.toNat then
    maximumSlice.toNat
  else target - now

-- ---------------------------------------------------------------------------
-- Shared state
-- ---------------------------------------------------------------------------

structure BucketState where
  eligibleSteadyMilliseconds : Int
  permitted : Bool
  tickets : List UInt64
  deriving DecidableEq, Repr

/-- What the mutex guards. `terminalStatus` is `acquired` while the coordinator
is open. -/
structure SharedState (ι : Type) where
  terminalStatus : RateLimitAcquireStatus
  nextTicket : UInt64
  totalWaiters : UInt64
  limits : RateLimitCoordinatorLimits
  buckets : List (QuotaBucketKey ι × BucketState)
  deriving DecidableEq, Repr

/-- The constructor; the clock is never null here. -/
def SharedState.new {ι : Type} (limits : RateLimitCoordinatorLimits) (initialTicket : UInt64) :
    Option (SharedState ι) :=
  if initialTicket == 0 || decide (limits.waitersPerKey > hardLimits.waitersPerKey) ||
      decide (limits.totalWaiters > hardLimits.totalWaiters) ||
      limits.interruptSliceMilliseconds == 0 ||
      decide (limits.interruptSliceMilliseconds > hardLimits.interruptSliceMilliseconds) then
    none
  else some ⟨.acquired, initialTicket, 0, limits, []⟩

/-- A bucket without a permit and without a ticket is erased. -/
def BucketState.unlessIdle (b : BucketState) : Option BucketState :=
  if !b.permitted && b.tickets.isEmpty then none else some b

variable {ι : Type} [DecidableEq ι]

namespace SharedState

def bucket (shared : SharedState ι) (key : QuotaBucketKey ι) : Option BucketState :=
  shared.buckets.lookup key

def setBucket (shared : SharedState ι) (key : QuotaBucketKey ι) (b : Option BucketState) :
    SharedState ι :=
  { shared with buckets := assign key b shared.buckets }

/-- `std::find` and `erase` of one ticket of a bucket; an idle bucket goes. -/
def eraseTicketLocked (shared : SharedState ι) (key : QuotaBucketKey ι) (b : BucketState)
    (ticket : UInt64) : SharedState ι :=
  let shared :=
    if ticket ∈ b.tickets then { shared with totalWaiters := shared.totalWaiters - 1 } else shared
  shared.setBucket key (BucketState.unlessIdle { b with tickets := b.tickets.erase ticket })

/-- The loop of `EnterTerminalLocked`: every queue is emptied and only buckets
with a permit stay. -/
def drain : UInt64 → List (QuotaBucketKey ι × BucketState) →
    UInt64 × List (QuotaBucketKey ι × BucketState)
  | total, [] => (total, [])
  | total, (key, b) :: rest =>
    let (total, rest) := drain (total - b.tickets.length.toUInt64) rest
    (total, if b.permitted then (key, { b with tickets := [] }) :: rest else rest)

def enterTerminalLocked (shared : SharedState ι) (status : RateLimitAcquireStatus) :
    SharedState ι :=
  if shared.terminalStatus != .acquired then shared
  else
    let (total, buckets) := drain shared.totalWaiters shared.buckets
    { shared with terminalStatus := status, totalWaiters := total, buckets := buckets }

end SharedState

-- ---------------------------------------------------------------------------
-- The wait loop
-- ---------------------------------------------------------------------------

/-- How a locked section ends. -/
inductive Turn where
  | returned (status : RateLimitAcquireStatus)
  | granted
  | threw
  | waits (slice : Int)
  deriving DecidableEq, Repr

/-- What one turn reads outside the shared state. -/
structure Reading where
  cancelled : Bool
  now : Int
  deriving DecidableEq, Repr

/-- One turn of the loop in `WaitForTicket`, from the top to the next wait. -/
def waitTurn (reading : Reading) (key : QuotaBucketKey ι) (ticket : UInt64) (deadline : Int)
    (shared : SharedState ι) : Turn × SharedState ι :=
  if shared.terminalStatus != .acquired then (.returned shared.terminalStatus, shared)
  else match shared.bucket key with
    | none => (.returned .schedulerClosed, shared)
    | some b =>
      let now := reading.now
      if reading.cancelled then (.returned .cancelled, shared.eraseTicketLocked key b ticket)
      else if b.permitted = false ∧ b.tickets.head? = some ticket ∧
          b.eligibleSteadyMilliseconds ≤ now ∧ now ≤ deadline then
        (.granted,
          shared.setBucket key (some { b with tickets := b.tickets.tail, permitted := true }))
      else if deadline ≤ now ∨ deadline < b.eligibleSteadyMilliseconds then
        (.returned .deadlineReached, shared.eraseTicketLocked key b ticket)
      else
        let target :=
          if b.eligibleSteadyMilliseconds > now then min b.eligibleSteadyMilliseconds deadline
          else deadline
        (.waits (waitSlice now target shared.limits.interruptSliceMilliseconds), shared)

/-- The handler around the loop, when the wait itself throws. -/
def waitThrew (key : QuotaBucketKey ι) (ticket : UInt64) (shared : SharedState ι) :
    SharedState ι :=
  match shared.bucket key with
  | none => shared
  | some b => shared.eraseTicketLocked key b ticket

-- ---------------------------------------------------------------------------
-- Acquire and Requeue, up to the wait loop
-- ---------------------------------------------------------------------------

/-- A call before it reaches the loop: finished, or queued with a ticket. -/
inductive Entry where
  | returned (status : RateLimitAcquireStatus)
  | threw
  | queued (ticket : UInt64)
  deriving DecidableEq, Repr

/-- Where an allocation on the way to the queue may fail, and what the
cancellation flag reads. -/
structure EntryEnv where
  handleFails : Bool
  cancelled : Bool
  bucketFails : Bool
  pushFails : Bool
  deriving DecidableEq, Repr

def BucketState.waiters (b : BucketState) : UInt64 :=
  b.tickets.length.toUInt64 + if b.permitted then 1 else 0

/-- Raise a bucket's embargo. -/
def BucketState.extend (b : BucketState) (eligible : Int) : BucketState :=
  { b with eligibleSteadyMilliseconds := max b.eligibleSteadyMilliseconds eligible }

/-- Draw a ticket and append it to the bucket. -/
def pushTicket (env : EntryEnv) (key : QuotaBucketKey ι) (b : BucketState)
    (shared : SharedState ι) : Entry × SharedState ι :=
  let ticket := shared.nextTicket
  let shared := { shared with nextTicket := ticket + 1 }
  if env.pushFails then (.threw, shared.setBucket key b.unlessIdle)
  else
    let shared := shared.setBucket key (some { b with tickets := b.tickets ++ [ticket] })
    (.queued ticket, { shared with totalWaiters := shared.totalWaiters + 1 })

/-- The limits, the ticket counter and the table, in this order; `found` is what
the table has for the key. -/
def enqueue (env : EntryEnv) (key : QuotaBucketKey ι) (eligible : Int)
    (found : Option BucketState) (shared : SharedState ι) : Entry × SharedState ι :=
  let keyWaiters := (found.map BucketState.waiters).getD 0
  if keyWaiters ≥ shared.limits.waitersPerKey ∨
      shared.totalWaiters ≥ shared.limits.totalWaiters then
    (.returned .queueSaturated, shared)
  else if shared.nextTicket == 0xFFFFFFFFFFFFFFFF then
    (.returned .ticketExhausted, shared.enterTerminalLocked .ticketExhausted)
  else if found.isNone && env.bucketFails then (.threw, shared)
  else pushTicket env key (found.getD ⟨eligible, false, []⟩) shared

def acquire (env : EntryEnv) (key : QuotaBucketKey ι) (eligible : Int) (shared : SharedState ι) :
    Entry × SharedState ι :=
  if env.handleFails then (.threw, shared)
  else if shared.terminalStatus != .acquired then (.returned shared.terminalStatus, shared)
  else if env.cancelled then (.returned .cancelled, shared)
  else match shared.bucket key with
    | none => enqueue env key eligible none shared
    | some b =>
      let b := b.extend eligible
      enqueue env key eligible (some b) (shared.setBucket key (some b))

/-- Turn the permit of a bucket into the ticket just drawn. -/
def requeueTicket (env : EntryEnv) (key : QuotaBucketKey ι) (b : BucketState)
    (shared : SharedState ι) : Entry × SharedState ι :=
  if shared.nextTicket == 0xFFFFFFFFFFFFFFFF then
    (.returned .ticketExhausted, shared.enterTerminalLocked .ticketExhausted)
  else
    let ticket := shared.nextTicket
    let shared := { shared with nextTicket := ticket + 1 }
    if env.pushFails then (.threw, shared)
    else
      (.queued ticket, shared.setBucket key
        (some { b with tickets := b.tickets ++ [ticket], permitted := false }))

/-- `Requeue` of a permit for `key`. A call that returns on the way gives the
permit up in a section of its own (`complete`). -/
def requeue (env : EntryEnv) (key : QuotaBucketKey ι) (eligible : Int) (shared : SharedState ι) :
    Entry × SharedState ι :=
  if shared.terminalStatus != .acquired then (.returned shared.terminalStatus, shared)
  else if env.cancelled then (.returned .cancelled, shared)
  else if env.handleFails then (.threw, shared)
  else match shared.bucket key with
    | none => (.threw, shared)
    | some b =>
      if !b.permitted then (.threw, shared)
      else
        let b := b.extend eligible
        requeueTicket env key b (shared.setBucket key (some b))

-- ---------------------------------------------------------------------------
-- Permits and closing
-- ---------------------------------------------------------------------------

def extendEligibleTime (key : QuotaBucketKey ι) (eligible : Int) (shared : SharedState ι) :
    Bool × SharedState ι :=
  match shared.bucket key with
  | none => (false, shared)
  | some b =>
    if shared.terminalStatus != .acquired || !b.permitted then (false, shared)
    else (true, shared.setBucket key (some (b.extend eligible)))

def complete (key : QuotaBucketKey ι) (shared : SharedState ι) : SharedState ι :=
  match shared.bucket key with
  | none => shared
  | some b =>
    if b.permitted then
      let b := { b with permitted := false }
      let shared := { shared with totalWaiters := shared.totalWaiters - 1 }
      shared.setBucket key (if b.tickets.isEmpty then none else some b)
    else shared

def close (shared : SharedState ι) : SharedState ι :=
  if shared.terminalStatus != .acquired then shared
  else shared.enterTerminalLocked .schedulerClosed

end Cuac.Runtime.RateLimit

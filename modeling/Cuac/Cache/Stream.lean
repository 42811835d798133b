import Cuac.Cache.ResultCache

/-!
# Cache — the cached scan stream

A stream that serves a scan either from the cache or from the remote stream it
wraps, and publishes a complete scan when it has seen one. The nine modes and
the functions keep the source's names; each function takes the shared `World`
and its own stream, and returns both.

The wrapped stream is a script: the batches it will produce and how it ends.
Sizes, admission answers, clock readings and failing allocations are arguments
of the calls. `Stream.found`, `origin`, `delivered`, `sawEnd`, `abandoned` and
`published` are history variables.
-/

namespace Cuac.Cache

open Cuac.Runtime

-- ---------------------------------------------------------------------------
-- State
-- ---------------------------------------------------------------------------

/-- How the wrapped stream ends. -/
inductive Ending
  | exhausted
  | threw (thrown : Thrown)
  deriving DecidableEq, Repr

/-- What a wrapped stream will do when pulled. -/
structure Script (β : Type) where
  batches : List β
  ending : Ending
  deriving DecidableEq, Repr

inductive Mode
  | freshHitReplay
  | accumulatingMiss
  | barrierBuffering
  | barrierFreshServe
  | barrierDrainEmit
  | barrierDrainedUncached
  | staleServe
  | drained
  | failed
  deriving DecidableEq, Repr

inductive CacheStatus
  | miss
  | freshHit
  | refreshed
  | staleServed
  | expiredDuringRefresh
  | storeBypassedCapacity
  | refreshStreamedCapacity
  deriving DecidableEq, Repr

structure StreamConfig (κ : Type) where
  key : κ
  policy : FreshnessPolicy
  maxCandidateBytes : UInt64
  /-- An admission runtime is installed. -/
  admissionRuntime : Bool
  deriving DecidableEq, Repr

structure Stream (κ β : Type) where
  config : StreamConfig κ
  underlying : Option (Script β)
  mode : Mode
  replayEntry : Option (CacheEntry β)
  staleEntry : Option (CacheEntry β)
  cachedBatches : List β
  pendingUncachedBatch : Option β
  replayIndex : Nat
  hitAgeMilliseconds : UInt64
  hitStoredAtMilliseconds : UInt64
  deliveryAgeMilliseconds : UInt64
  candidateSizeBytes : UInt64
  candidatePermit : Option Permit
  candidateCacheable : Bool
  diagnosticsStatus : CacheStatus
  diagnosticsRefreshAttempted : Bool
  staleCauseFailureClass : FailureClass
  rowsReturned : UInt64
  profileOutcome : ScanOutcome
  profileStarted : Bool
  profileFinished : Bool
  terminalFailureClass : Option FailureClass
  cancelled : Bool
  closed : Bool
  terminalException : Option Thrown
  /-- History: what the lookup at construction found. -/
  found : CacheLookupResult β
  /-- History: the script as it was at construction. -/
  origin : Script β
  /-- History: the batches `next` has handed out. -/
  delivered : List β
  /-- History: the wrapped stream has reported its end. -/
  sawEnd : Bool
  /-- History: some batch could not be retained. -/
  abandoned : Bool
  /-- History: the entry this stream has made resident. -/
  published : Option (CacheEntry β)

/-- What is replayed behind the barrier: the published entry, or the private
buffer when nothing was published. -/
def Stream.replaySource {κ β : Type} (s : Stream κ β) : List β :=
  match s.replayEntry with
  | some entry => entry.batches
  | none => s.cachedBatches

/-- What all streams share: the cache, the entries still owned by somebody, and
the permits the admission controller counts as live. -/
structure World (κ β : Type) where
  cache : ResultCache κ β
  allocated : List (CacheEntry β)
  live : List Permit
  nextPermit : Permit
  nextEntry : Nat

/-- One stream next to what it shares. -/
structure Scene (κ β : Type) where
  world : World κ β
  stream : Stream κ β

/-- The answers to one attempt to retain a batch. -/
structure RetainEnv where
  /-- Retained bytes of the batch; `none` when adding them up throws. -/
  batchBytes : Option UInt64
  /-- The controller reserves or resizes to the new size. -/
  reserved : Bool
  /-- Copying the batch into the buffer throws. -/
  pushFails : Bool
  /-- The controller accepts the smaller size after that. -/
  rolledBack : Bool

/-- What one call of `next` reads from outside. -/
structure NextEnv where
  cancellationRequested : Bool
  now : UInt64
  /-- Answers for the batch at each position of the buffer. -/
  retain : Nat → RetainEnv
  publish : PublishEnv
  /-- Copying a replayed batch throws. -/
  copyFails : Bool

/-- How a serving function ends. -/
inductive Served (β : Type)
  | produced (batch : β)
  | drained
  | threw (thrown : Thrown)
  deriving DecidableEq, Repr

section Serving

variable {κ β : Type} [DecidableEq κ]

namespace Scene

-- ---------------------------------------------------------------------------
-- The candidate and its permit
-- ---------------------------------------------------------------------------

/-- `Permit::Release` on the candidate's permit. -/
def releaseCandidatePermit (s : Scene κ β) : Scene κ β :=
  match s.stream.candidatePermit with
  | none => s
  | some permit =>
    ⟨{ s.world with live := s.world.live.erase permit },
      { s.stream with candidatePermit := none }⟩

def reserveCandidateBytes (env : RetainEnv) (s : Scene κ β) : Scene κ β × Bool :=
  if !s.stream.config.admissionRuntime then (s, true)
  else
    match s.stream.candidatePermit with
    | some _ => (s, env.reserved)
    | none =>
      if env.reserved then
        (⟨{ s.world with
              live := s.world.nextPermit :: s.world.live
              nextPermit := s.world.nextPermit + 1 },
            { s.stream with candidatePermit := some s.world.nextPermit }⟩, true)
      else (s, false)

def rollBackCandidateReservation (env : RetainEnv) (sizeBytes : UInt64) (s : Scene κ β) :
    Scene κ β :=
  match s.stream.candidatePermit with
  | none => s
  | some _ =>
    if sizeBytes == 0 then s.releaseCandidatePermit
    else if env.rolledBack then s
    else s.releaseCandidatePermit

def retainCandidateBatch (env : RetainEnv) (batch : β) (s : Scene κ β) : Scene κ β × Bool :=
  match env.batchBytes with
  | none => (s, false)
  | some batchSize =>
    let limit := s.stream.config.maxCandidateBytes
    if batchSize > limit || s.stream.candidateSizeBytes > limit - batchSize then (s, false)
    else
      let previousSize := s.stream.candidateSizeBytes
      let nextSize := previousSize + batchSize
      let (s, reserved) := s.reserveCandidateBytes env
      if !reserved then (s, false)
      else if env.pushFails then (s.rollBackCandidateReservation env previousSize, false)
      else
        (⟨s.world, { s.stream with
            cachedBatches := s.stream.cachedBatches ++ [batch]
            candidateSizeBytes := nextSize }⟩, true)

def clearCandidate (s : Scene κ β) : Scene κ β :=
  let s := s.releaseCandidatePermit
  ⟨s.world, { s.stream with cachedBatches := [], candidateSizeBytes := 0 }⟩

def clearReplayEntries (s : Scene κ β) : Scene κ β :=
  ⟨s.world, { s.stream with replayEntry := none, staleEntry := none }⟩

/-- `PublishReserved` of the candidate. On success buffer and permit have moved
into the new entry. -/
def publishReserved (env : PublishEnv) (s : Scene κ β) : Scene κ β × Option (CacheEntry β) :=
  let candidate : CacheEntry β :=
    ⟨s.world.nextEntry, s.stream.cachedBatches, env.now, s.stream.candidateSizeBytes,
      s.stream.candidatePermit⟩
  match s.world.cache.publishReserved env s.stream.config.key candidate with
  | (cache, false) => (⟨{ s.world with cache := cache }, s.stream⟩, none)
  | (cache, true) =>
    (⟨{ s.world with
          cache := cache
          allocated := s.world.allocated ++ [candidate]
          nextEntry := s.world.nextEntry + 1 },
        { s.stream with
          cachedBatches := []
          candidatePermit := none
          published := some candidate }⟩, some candidate)

def publishCandidate (env : PublishEnv) (s : Scene κ β) : Scene κ β :=
  if !s.stream.candidateCacheable then s
  else
    let (s, published) := s.publishReserved env
    let s := (⟨s.world, { s.stream with
      diagnosticsStatus :=
        if published.isSome then .refreshed else .storeBypassedCapacity }⟩ : Scene κ β)
    let s := s.clearCandidate
    ⟨s.world, { s.stream with candidateCacheable := false }⟩

-- ---------------------------------------------------------------------------
-- Serving
-- ---------------------------------------------------------------------------

def setMode (mode : Mode) (s : Scene κ β) : Scene κ β :=
  ⟨s.world, { s.stream with mode := mode }⟩

def serveFreshHit (env : NextEnv) (s : Scene κ β) : Scene κ β × Served β :=
  match s.stream.replayEntry.bind fun entry => entry.batches[s.stream.replayIndex]? with
  | none => (⟨s.world, { s.stream with replayEntry := none, mode := .drained }⟩, .drained)
  | some batch =>
    if env.copyFails then (s, .threw .other)
    else
      (⟨s.world, { s.stream with replayIndex := s.stream.replayIndex + 1 }⟩, .produced batch)

def serveAccumulatingMiss (env : NextEnv) (s : Scene κ β) : Scene κ β × Served β :=
  match s.stream.underlying with
  | none => (s.setMode .drained, .drained)
  | some script =>
    match script.batches with
    | [] =>
      match script.ending with
      | .threw thrown => (s, .threw thrown)
      | .exhausted =>
        let s : Scene κ β := ⟨s.world, { s.stream with sawEnd := true }⟩
        ((s.publishCandidate env.publish).setMode .drained, .drained)
    | batch :: rest =>
      let s : Scene κ β :=
        ⟨s.world, { s.stream with underlying := some ⟨rest, script.ending⟩ }⟩
      if s.stream.candidateCacheable then
        match s.retainCandidateBatch (env.retain s.stream.cachedBatches.length) batch with
        | (s, true) => (s, .produced batch)
        | (s, false) =>
          let s : Scene κ β := ⟨s.world, { s.stream with
            diagnosticsStatus := .storeBypassedCapacity, abandoned := true }⟩
          let s := s.clearCandidate
          (⟨s.world, { s.stream with candidateCacheable := false }⟩, .produced batch)
      else (s, .produced batch)

def serveBarrierFresh (env : NextEnv) (s : Scene κ β) : Scene κ β × Served β :=
  match s.stream.replaySource[s.stream.replayIndex]? with
  | none =>
    let s : Scene κ β := ⟨s.world, { s.stream with replayEntry := none }⟩
    (s.clearCandidate.setMode .drained, .drained)
  | some batch =>
    if env.copyFails then (s, .threw .other)
    else
      (⟨s.world, { s.stream with replayIndex := s.stream.replayIndex + 1 }⟩, .produced batch)

def serveBarrierDrainedUncached (s : Scene κ β) : Scene κ β × Served β :=
  match s.stream.underlying with
  | none => (s.setMode .drained, .drained)
  | some script =>
    match script.batches with
    | [] =>
      match script.ending with
      | .threw thrown => (s, .threw thrown)
      | .exhausted => (⟨s.world, { s.stream with sawEnd := true }⟩, .drained)
    | batch :: rest =>
      (⟨s.world, { s.stream with underlying := some ⟨rest, script.ending⟩ }⟩, .produced batch)

def serveBarrierDrainEmit (env : NextEnv) (s : Scene κ β) : Scene κ β × Served β :=
  match s.stream.cachedBatches[s.stream.replayIndex]? with
  | some batch =>
    if env.copyFails then (s, .threw .other)
    else
      (⟨s.world, { s.stream with replayIndex := s.stream.replayIndex + 1 }⟩, .produced batch)
  | none =>
    let s := s.clearCandidate
    let s : Scene κ β := ⟨s.world, { s.stream with replayIndex := 0 }⟩
    match s.stream.pendingUncachedBatch with
    | some batch =>
      (⟨s.world, { s.stream with pendingUncachedBatch := none }⟩, .produced batch)
    | none => (s.setMode .barrierDrainedUncached).serveBarrierDrainedUncached

def serveStale (env : NextEnv) (s : Scene κ β) : Scene κ β × Served β :=
  match s.stream.staleEntry.bind fun entry => entry.batches[s.stream.replayIndex]? with
  | none => (⟨s.world, { s.stream with staleEntry := none, mode := .drained }⟩, .drained)
  | some batch =>
    if env.copyFails then (s, .threw .other)
    else
      (⟨s.world, { s.stream with replayIndex := s.stream.replayIndex + 1 }⟩, .produced batch)

end Scene

/-- Decided from the stage alone. -/
def isEligibleStaleFailure (error : ExecutionError) : Bool :=
  error.stage == .transport || error.stage == .httpStatus

namespace Scene

/-- Give the refresh up for the stale entry. -/
def switchToStale (age : UInt64) (error : ExecutionError) (s : Scene κ β) : Scene κ β :=
  clearCandidate ⟨s.world, { s.stream with
    deliveryAgeMilliseconds := age
    staleCauseFailureClass := failureClassFromError error
    diagnosticsStatus := .staleServed
    mode := .staleServe
    replayIndex := 0
    underlying := none }⟩

/-- The refresh has failed behind the barrier. -/
def failBarrier (env : NextEnv) (thrown : Thrown) (s : Scene κ β) : Scene κ β × Served β :=
  match thrown with
  | .executionError error =>
    if isEligibleStaleFailure error then
      let age := entryAge env.now s.stream.hitStoredAtMilliseconds
      if age < s.stream.config.policy.staleLimit then
        (s.switchToStale age error).serveStale env
      else
        (⟨s.world, { s.stream with
            diagnosticsStatus := .expiredDuringRefresh, mode := .failed }⟩, .threw thrown)
    else (s.setMode .failed, .threw thrown)
  | _ => (s.setMode .failed, .threw thrown)

/-- The refresh has ended cleanly behind the barrier. -/
def acceptBarrier (env : NextEnv) (s : Scene κ β) : Scene κ β × Served β :=
  let s : Scene κ β := ⟨s.world, { s.stream with sawEnd := true }⟩
  let (s, published) := s.publishReserved env.publish
  let s : Scene κ β := ⟨s.world, { s.stream with
    staleEntry := none
    replayIndex := 0
    diagnosticsStatus := if published.isSome then .refreshed else .storeBypassedCapacity
    replayEntry := if published.isSome then published else s.stream.replayEntry
    candidateSizeBytes := if published.isSome then 0 else s.stream.candidateSizeBytes
    hitAgeMilliseconds := 0
    mode := .barrierFreshServe
    underlying := none }⟩
  s.serveBarrierFresh env

/-- A batch of the refresh could not be retained: replay the buffered prefix,
then this batch, then continue from the wrapped stream. -/
def abandonBarrier (env : NextEnv) (batch : β) (s : Scene κ β) : Scene κ β × Served β :=
  let s : Scene κ β := ⟨s.world, { s.stream with
    diagnosticsStatus := .refreshStreamedCapacity
    pendingUncachedBatch := some batch
    replayIndex := 0
    mode := .barrierDrainEmit
    staleEntry := none
    abandoned := true }⟩
  s.serveBarrierDrainEmit env

/-- One call pulls the whole refresh behind the barrier. -/
def serveBarrierBufferingFrom (env : NextEnv) (ending : Ending) :
    List β → Scene κ β → Scene κ β × Served β
  | [], s =>
    match ending with
    | .threw thrown => s.failBarrier env thrown
    | .exhausted => s.acceptBarrier env
  | batch :: rest, s =>
    let s : Scene κ β := ⟨s.world, { s.stream with underlying := some ⟨rest, ending⟩ }⟩
    match s.retainCandidateBatch (env.retain s.stream.cachedBatches.length) batch with
    | (s, true) => serveBarrierBufferingFrom env ending rest s
    | (s, false) => s.abandonBarrier env batch

def serveBarrierBuffering (env : NextEnv) (s : Scene κ β) : Scene κ β × Served β :=
  match s.stream.underlying with
  | none => (s.setMode .drained, .drained)
  | some script => serveBarrierBufferingFrom env script.ending script.batches s

-- ---------------------------------------------------------------------------
-- The calls
-- ---------------------------------------------------------------------------

def serve (env : NextEnv) (s : Scene κ β) : Scene κ β × Served β :=
  match s.stream.mode with
  | .freshHitReplay => s.serveFreshHit env
  | .accumulatingMiss => s.serveAccumulatingMiss env
  | .barrierBuffering => s.serveBarrierBuffering env
  | .barrierFreshServe => s.serveBarrierFresh env
  | .barrierDrainEmit => s.serveBarrierDrainEmit env
  | .barrierDrainedUncached => s.serveBarrierDrainedUncached
  | .staleServe => s.serveStale env
  | .drained => (s, .drained)
  | .failed => (s, .drained)

end Scene

namespace Stream

def startProfile (s : Stream κ β) : Stream κ β :=
  if s.profileStarted || s.profileFinished then s
  else { s with profileStarted := true, profileOutcome := .running }

def finishProfile (outcome : ScanOutcome) (failure : Option FailureClass) (s : Stream κ β) :
    Stream κ β :=
  match s.profileOutcome with
  | .notStarted | .running =>
    { s with
      profileOutcome := outcome, profileFinished := true, terminalFailureClass := failure }
  | _ => s

end Stream

/-- How a call of `next` ends. -/
inductive NextResult (β : Type)
  | batch (batch : β)
  | finished
  | threw (thrown : Thrown)
  deriving DecidableEq, Repr

def rowProfilingError : ExecutionError :=
  ⟨.resource, Lib.ascii "decoded_records",
    Lib.ascii "cached scan row profiling exceeded its bounded counter", none⟩

/-- The class a terminal failure is recorded under. -/
def terminalClass : Thrown → FailureClass
  | .executionError error => failureClassFromError error
  | _ => .internal

namespace Scene

/-- The handlers of `next`. -/
def rethrow (thrown : Thrown) (s : Scene κ β) : Scene κ β × NextResult β :=
  match thrown with
  | .executionCancelled =>
    let s : Scene κ β := ⟨s.world, { s.stream with cancelled := true }⟩
    let s := s.clearCandidate.clearReplayEntries
    (⟨s.world, s.stream.finishProfile .cancelled none⟩, .threw thrown)
  | _ =>
    let s : Scene κ β :=
      ⟨s.world, { s.stream with terminalException := some thrown, mode := .failed }⟩
    let s := s.clearCandidate.clearReplayEntries
    (⟨s.world, s.stream.finishProfile .failed (some (terminalClass thrown))⟩, .threw thrown)

def cancel (s : Scene κ β) : Scene κ β :=
  let s : Scene κ β :=
    if s.stream.profileFinished then s
    else ⟨s.world, { s.stream with cancelled := true }.finishProfile .cancelled none⟩
  let s := s.clearCandidate.clearReplayEntries
  ⟨s.world, { s.stream with pendingUncachedBatch := none }⟩

def close (s : Scene κ β) : Scene κ β :=
  if s.stream.closed then s
  else
    let stream := { s.stream with closed := true }
    let stream := if stream.profileFinished then stream else stream.finishProfile .closed none
    let s := (⟨s.world, stream⟩ : Scene κ β).clearCandidate.clearReplayEntries
    ⟨s.world, { s.stream with
      pendingUncachedBatch := none, candidateCacheable := false, mode := .drained }⟩

/-- The destructor. -/
def destroy (s : Scene κ β) : Scene κ β :=
  s.cancel.close

variable (rowCount : β → UInt64)

/-- Hand a batch out, unless its rows overflow the counter. -/
def deliver (batch : β) (s : Scene κ β) : Scene κ β × NextResult β :=
  if rowCount batch > maxWord - s.stream.rowsReturned then
    s.rethrow (.executionError rowProfilingError)
  else
    (⟨s.world, { s.stream with
        rowsReturned := s.stream.rowsReturned + rowCount batch
        delivered := s.stream.delivered ++ [batch] }⟩, .batch batch)

def next (env : NextEnv) (s : Scene κ β) : Scene κ β × NextResult β :=
  if s.stream.closed then (s, .finished)
  else
    match s.stream.terminalException with
    | some thrown => (s, .threw thrown)
    | none =>
      if s.stream.cancelled then (s, .threw .executionCancelled)
      else if s.stream.profileOutcome == .succeeded then (s, .finished)
      else if env.cancellationRequested then (s.cancel, .threw .executionCancelled)
      else
        match (⟨s.world, s.stream.startProfile⟩ : Scene κ β).serve env with
        | (s, .threw thrown) => s.rethrow thrown
        | (s, .drained) =>
          let stream := { s.stream with mode := .drained }
          (⟨s.world, stream.finishProfile .succeeded none⟩, .finished)
        | (s, .produced batch) => s.deliver rowCount batch

end Scene

-- ---------------------------------------------------------------------------
-- Construction
-- ---------------------------------------------------------------------------

def Stream.open (config : StreamConfig κ) (script : Script β) (now : UInt64)
    (cache : ResultCache κ β) : Stream κ β :=
  let found := cache.lookup config.key config.policy now
  let stream : Stream κ β :=
    { config := config
      underlying := some script
      mode := .accumulatingMiss
      replayEntry := none
      staleEntry := none
      cachedBatches := []
      pendingUncachedBatch := none
      replayIndex := 0
      hitAgeMilliseconds := 0
      hitStoredAtMilliseconds := 0
      deliveryAgeMilliseconds := 0
      candidateSizeBytes := 0
      candidatePermit := none
      candidateCacheable := true
      diagnosticsStatus := .miss
      diagnosticsRefreshAttempted := false
      staleCauseFailureClass := .internal
      rowsReturned := 0
      profileOutcome := .notStarted
      profileStarted := false
      profileFinished := false
      terminalFailureClass := none
      cancelled := false
      closed := false
      terminalException := none
      found := found
      origin := script
      delivered := []
      sawEnd := false
      abandoned := false
      published := none }
  match found with
  | .freshHit entry age =>
    { stream with
      replayEntry := some entry
      hitAgeMilliseconds := age
      hitStoredAtMilliseconds := entry.storedAtMilliseconds
      diagnosticsStatus := .freshHit
      mode := .freshHitReplay
      underlying := none }
  | .staleCandidate entry age =>
    { stream with
      staleEntry := some entry
      hitAgeMilliseconds := age
      hitStoredAtMilliseconds := entry.storedAtMilliseconds
      diagnosticsRefreshAttempted := true
      mode := .barrierBuffering }
  | _ => stream

end Serving

-- ---------------------------------------------------------------------------
-- What the primitives do to the stream
-- ---------------------------------------------------------------------------

section Primitives

variable {κ β : Type}

namespace Scene

@[simp] theorem releaseCandidatePermit_stream (s : Scene κ β) :
    s.releaseCandidatePermit.stream = { s.stream with candidatePermit := none } := by
  unfold releaseCandidatePermit
  split
  · rename_i hnone
    rw [← hnone]
  · rfl

@[simp] theorem clearCandidate_stream (s : Scene κ β) :
    s.clearCandidate.stream =
      { s.stream with cachedBatches := [], candidateSizeBytes := 0, candidatePermit := none } := by
  simp [clearCandidate]

@[simp] theorem clearReplayEntries_stream (s : Scene κ β) :
    s.clearReplayEntries.stream = { s.stream with replayEntry := none, staleEntry := none } := rfl

@[simp] theorem setMode_stream (s : Scene κ β) (mode : Mode) :
    (s.setMode mode).stream = { s.stream with mode := mode } := rfl

@[simp] theorem switchToStale_stream (age : UInt64) (error : ExecutionError) (s : Scene κ β) :
    (s.switchToStale age error).stream = { s.stream with
      deliveryAgeMilliseconds := age
      staleCauseFailureClass := failureClassFromError error
      diagnosticsStatus := .staleServed
      mode := .staleServe
      replayIndex := 0
      underlying := none
      cachedBatches := []
      candidateSizeBytes := 0
      candidatePermit := none } := by
  simp only [switchToStale, clearCandidate_stream]

theorem reserveCandidateBytes_stream (env : RetainEnv) (s : Scene κ β) :
    ∃ permit, (s.reserveCandidateBytes env).1.stream =
      { s.stream with candidatePermit := permit } := by
  unfold reserveCandidateBytes
  split
  · exact ⟨s.stream.candidatePermit, rfl⟩
  · split
    · exact ⟨s.stream.candidatePermit, rfl⟩
    · split
      · exact ⟨some s.world.nextPermit, rfl⟩
      · exact ⟨s.stream.candidatePermit, rfl⟩

theorem rollBackCandidateReservation_stream (env : RetainEnv) (size : UInt64) (s : Scene κ β) :
    ∃ permit, (s.rollBackCandidateReservation env size).stream =
      { s.stream with candidatePermit := permit } := by
  unfold rollBackCandidateReservation
  split
  · exact ⟨s.stream.candidatePermit, rfl⟩
  · split
    · exact ⟨none, s.releaseCandidatePermit_stream⟩
    · split
      · exact ⟨s.stream.candidatePermit, rfl⟩
      · exact ⟨none, s.releaseCandidatePermit_stream⟩

/-- A batch is either appended to the buffer or leaves it as it was. -/
theorem retainCandidateBatch_stream (env : RetainEnv) (batch : β) (s : Scene κ β) :
    ∃ permit size,
      ((s.retainCandidateBatch env batch).2 = true ∧
        (s.retainCandidateBatch env batch).1.stream = { s.stream with
          cachedBatches := s.stream.cachedBatches ++ [batch]
          candidateSizeBytes := size
          candidatePermit := permit }) ∨
      ((s.retainCandidateBatch env batch).2 = false ∧
        (s.retainCandidateBatch env batch).1.stream = { s.stream with
          candidatePermit := permit }) := by
  unfold retainCandidateBatch
  split
  · exact ⟨s.stream.candidatePermit, 0, Or.inr ⟨rfl, rfl⟩⟩
  rename_i batchSize _
  dsimp only
  split
  · exact ⟨s.stream.candidatePermit, 0, Or.inr ⟨rfl, rfl⟩⟩
  obtain ⟨permit, hreserve⟩ := s.reserveCandidateBytes_stream env
  split
  · exact ⟨permit, 0, Or.inr ⟨rfl, hreserve⟩⟩
  split
  · obtain ⟨permit', hroll⟩ := (s.reserveCandidateBytes env).1.rollBackCandidateReservation_stream
      env s.stream.candidateSizeBytes
    refine ⟨permit', 0, Or.inr ⟨rfl, ?_⟩⟩
    rw [hroll, hreserve]
  · refine ⟨permit, s.stream.candidateSizeBytes + batchSize, Or.inl ⟨rfl, ?_⟩⟩
    dsimp only
    rw [hreserve]

/-- A publication either leaves the stream alone or moves buffer and permit
into the entry it returns. -/
theorem publishReserved_stream [DecidableEq κ] (env : PublishEnv) (s : Scene κ β) :
    ((s.publishReserved env).2 = none ∧ (s.publishReserved env).1.stream = s.stream) ∨
      ∃ entry, (s.publishReserved env).2 = some entry ∧ entry.batches = s.stream.cachedBatches ∧
        (s.publishReserved env).1.stream = { s.stream with
          cachedBatches := [], candidatePermit := none, published := some entry } := by
  unfold publishReserved
  dsimp only
  split
  · exact Or.inl ⟨rfl, rfl⟩
  · exact Or.inr ⟨_, rfl, rfl, rfl⟩

end Scene

end Primitives

end Cuac.Cache

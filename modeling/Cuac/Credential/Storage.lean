import Cuac.Credential.Codec
import Cuac.Lib.Machine
import Cuac.Lib.Throwing

/-!
# The persistent credential store

The directory is an index file, an `index.pending` file and one record file for
each id. Every file operation is an `attempt`: the environment lets it succeed,
lets it fail with a storage failure, or stops the process there, and an
interrupted write leaves a prefix of its bytes. The rename is atomic, and effects
reach the directory in their order.

A mutation first looks its name up and keeps the iterator. `CleanPriorIntent`
then may publish a copy of the entries, and swaps it in: the map that the
iterator points into is freed. What is read through it afterwards is not
determined, so it comes from the request, as `dangling`.

Opening the directory, its lock and the checks on ownership and mode are one
attempt; the test faults are attempts like any other.
-/

namespace Cuac.Credential

open Cuac.Lib Throwing

-- ---------------------------------------------------------------------------
-- Files and memory
-- ---------------------------------------------------------------------------

/-- Record files, by record id. -/
abbrev Records := Std.ExtTreeMap Bytes Bytes compare

/-- The selected index, the records, and what the process holds of them. -/
structure Core where
  index : Option Bytes
  records : Records
  opened : Bool
  entries : PersistentEntries
  cleanupId : Bytes

/-- What becomes of a file operation; an interrupted write leaves a prefix. -/
inductive Outcome
  | ok
  | fail (written : Nat)
  | stop (written : Nat)
  deriving DecidableEq, Repr

structure Store where
  core : Core
  pending : Option Bytes
  /-- What the environment will do. -/
  outcomes : List Outcome

/-- How a call ends early. Nothing catches `stopped`. -/
inductive Interruption
  | storageFailure
  | autocommitRequired
  | conflict
  | missing
  | stopped
  deriving DecidableEq, Repr

abbrev Program := Throwing Store Interruption

/-- One file operation: its effect, and what it leaves when a write is torn. -/
def attemptTorn (effect : Store → Store) (torn : Nat → Store → Store) : Program Unit := fun s =>
  match s.outcomes with
  | [] => (.error .stopped, s)
  | .ok :: rest => (.ok (), { effect s with outcomes := rest })
  | .fail written :: rest => (.error .storageFailure, { torn written s with outcomes := rest })
  | .stop written :: rest => (.error .stopped, { torn written s with outcomes := rest })

/-- A file operation that happens or does not. -/
def attempt (effect : Store → Store) : Program Unit :=
  attemptTorn effect fun _ s => s

/-- Opening, checking or synchronizing a file: nothing changes. -/
def touch : Program Unit := attempt id

def Core.withRecords (c : Core) (records : Records) : Core := { c with records := records }

def Store.withCore (s : Store) (core : Core) : Store := { s with core := core }

def Store.withPending (s : Store) (pending : Option Bytes) : Store := { s with pending := pending }

-- ---------------------------------------------------------------------------
-- Steps of a mutation
-- ---------------------------------------------------------------------------

/-- `RecordFile`: only hex ids have a file. -/
def recordFile (recordId : Bytes) : Program Unit :=
  throwWhen (!isHexId recordId) .storageFailure

def removeRecordIfPresent (recordId : Bytes) : Program Unit := do
  recordFile recordId
  touch
  let s ← get
  if s.core.records.contains recordId then do
    attempt fun s => s.withCore (s.core.withRecords (s.core.records.erase recordId))
    touch
  else pure ()

/-- Unlinks a pending file that an earlier call left. -/
def removeStalePending : Program Unit := do
  touch
  let s ← get
  if s.pending.isSome then attempt fun s => s.withPending none
  else pure ()

/-- `renameat`, which selects the pending index. -/
def renamePending : Program Unit :=
  attempt fun s => { s with core := { s.core with index := s.pending }, pending := none }

def publishIndex (nextEntries : PersistentEntries) (nextCleanup : Bytes) : Program Unit :=
  match encodeIndex nextEntries nextCleanup with
  | none => throw .storageFailure
  | some bytes => do
    removeStalePending
    attempt fun s => s.withPending (some [])
    touch
    attemptTorn (fun s => s.withPending (some bytes))
      fun written s => s.withPending (some (bytes.take written))
    touch
    renamePending
    modify fun s => s.withCore { s.core with entries := nextEntries, cleanupId := nextCleanup }
    touch

def cleanPriorIntent : Program Unit := do
  let s ← get
  if s.core.cleanupId.isEmpty then pure ()
  else do
    removeRecordIfPresent s.core.cleanupId
    publishIndex s.core.entries []

/-- `try { … } catch (...) {}`; a stopped process does not go on. -/
def catchFailures (m : Program Unit) : Program Unit := fun s =>
  match m s with
  | (.error .stopped, s) => (.error .stopped, s)
  | (_, s) => (.ok (), s)

def settleCommittedCleanupNoThrow : Program Unit :=
  catchFailures cleanPriorIntent

def writeRecord (metadata : PersistentMetadata) (payload : Bytes) : Program Unit :=
  match encodeRecord metadata payload with
  | none => throw .storageFailure
  | some bytes => do
    recordFile metadata.recordId
    let s ← get
    throwWhen (s.core.records.contains metadata.recordId) .storageFailure
    attempt fun s => s.withCore (s.core.withRecords (s.core.records.insert metadata.recordId []))
    touch
    attemptTorn
      (fun s => s.withCore (s.core.withRecords (s.core.records.insert metadata.recordId bytes)))
      fun written s => s.withCore
        (s.core.withRecords (s.core.records.insert metadata.recordId (bytes.take written)))
    touch
    touch

/-- What the process holds after reading the index. -/
def Core.loaded (c : Core) (entries : PersistentEntries) (cleanupId : Bytes) : Core :=
  { c with opened := true, entries := entries, cleanupId := cleanupId }

/-- Loads the index, unless it is loaded. -/
def ensureOpen : Program Unit := do
  touch
  let s ← get
  if s.core.opened then pure ()
  else
    match s.core.index with
    | none => modify fun s => s.withCore (s.core.loaded ∅ [])
    | some bytes => do
      throwWhen (maxIndexBytes < bytes.length) .storageFailure
      match decodeIndex bytes with
      | none => throw .storageFailure
      | some (entries, cleanupId) =>
        modify fun s => s.withCore (s.core.loaded entries cleanupId)

-- ---------------------------------------------------------------------------
-- Mutations
-- ---------------------------------------------------------------------------

inductive OnCreateConflict
  | errorOnConflict
  | ignoreOnConflict
  | replaceOnConflict
  | alterOnConflict
  deriving DecidableEq, Repr

def lowerHexDigit (n : UInt8) : UInt8 :=
  if n < 10 then byte '0' + n else byte 'a' + (n - 10)

/-- `HexId`: two lower-case digits for each byte. -/
def hexId (identity : CredentialIdentity) : Bytes :=
  identity.bytes.flatMap fun b : UInt8 => [lowerHexDigit (b >>> 4), lowerHexDigit (b &&& 0x0F)]

/-- A secret as its constructor lets it through. -/
structure NewSecret where
  secret : CuacSecret
  authority : isNonZeroIdentity secret.authority = true
  revision : isNonZeroIdentity secret.revision = true

structure StoreRequest where
  autoCommit : Bool
  /-- The secret is of this extension's type and has no scope. -/
  isCuacSecret : Bool
  new : NewSecret
  onConflict : OnCreateConflict
  /-- The identity that `NewRecordId` generates. -/
  generated : CredentialIdentity
  /-- What a read through a freed iterator yields. -/
  dangling : PersistentMetadata

structure DropRequest where
  autoCommit : Bool
  name : Bytes
  throwIfMissing : Bool
  dangling : PersistentMetadata

/-- `found->second` after `CleanPriorIntent`, which frees the map if it had an
intent to settle. -/
def throughIterator (dangling : PersistentMetadata) (cleanupBefore : Bytes)
    (found : PersistentMetadata) : PersistentMetadata :=
  if cleanupBefore.isEmpty then found else dangling

/-- The entry of a new secret: a replacement keeps the authority. -/
def newMetadata (request : StoreRequest) (replaced : Option PersistentMetadata) :
    PersistentMetadata where
  name := request.new.secret.name
  source := request.new.secret.source
  authority := (replaced.map (·.authority)).getD request.new.secret.authority
  revision := request.new.secret.revision
  recordId := hexId request.generated

/-- The second half of `StorePersistent`. -/
def publishSecret (request : StoreRequest) (key : Bytes) (found : Option PersistentMetadata) :
    Program PersistentMetadata := do
  let before ← get
  cleanPriorIntent
  let replaced := found.map (throughIterator request.dangling before.core.cleanupId)
  let metadata := newMetadata request replaced
  let superseded := (replaced.map (·.recordId)).getD []
  let cleaned ← get
  publishIndex cleaned.core.entries metadata.recordId
  writeRecord metadata request.new.secret.payload
  let written ← get
  publishIndex (written.core.entries.insert key metadata) superseded
  settleCommittedCleanupNoThrow
  pure metadata

def storePersistent (request : StoreRequest) : Program PersistentMetadata := do
  throwWhen (!request.autoCommit) .autocommitRequired
  throwWhen (!request.isCuacSecret) .storageFailure
  ensureOpen
  match normalizedName request.new.secret.name with
  | none => throw .storageFailure
  | some key => do
    let s ← get
    match s.core.entries[key]? with
    | some found =>
      match request.onConflict with
      | .errorOnConflict => throw .conflict
      | .ignoreOnConflict => pure found
      | .replaceOnConflict => publishSecret request key (some found)
      | .alterOnConflict => throw .storageFailure
    | none => do
      throwWhen (request.onConflict == .alterOnConflict) .storageFailure
      throwWhen (maxLiveRecords ≤ s.core.entries.size) .storageFailure
      publishSecret request key none

/-- The second half of `DropPersistent`. -/
def publishDrop (request : DropRequest) (key : Bytes) (found : PersistentMetadata) :
    Program Unit := do
  let before ← get
  cleanPriorIntent
  let removed := (throughIterator request.dangling before.core.cleanupId found).recordId
  let cleaned ← get
  publishIndex (cleaned.core.entries.erase key) removed
  settleCommittedCleanupNoThrow

def dropPersistent (request : DropRequest) : Program Unit := do
  throwWhen (!request.autoCommit) .autocommitRequired
  ensureOpen
  match normalizedName request.name with
  | none => throw .storageFailure
  | some key => do
    let s ← get
    match s.core.entries[key]? with
    | none => throwWhen request.throwIfMissing .missing
    | some found => publishDrop request key found

-- ---------------------------------------------------------------------------
-- Runs
-- ---------------------------------------------------------------------------

inductive Event
  | store (request : StoreRequest) (outcomes : List Outcome)
  | drop (request : DropRequest) (outcomes : List Outcome)
  /-- A lookup, which may open the store. -/
  | read (outcomes : List Outcome)
  /-- The process ends and another one starts. -/
  | restart

/-- A new process holds nothing. -/
def Store.restarted (s : Store) : Store :=
  s.withCore { s.core with opened := false, entries := ∅, cleanupId := [] }

/-- The store after a call: a stopped process is followed by another one. -/
def settleCall {α : Type} (m : Program α) (s : Store) (outcomes : List Outcome) : Store :=
  match m { s with outcomes := outcomes } with
  | (.error .stopped, s) => s.restarted
  | (_, s) => s

def step (s : Store) : Event → Store
  | .store request outcomes => settleCall (storePersistent request) s outcomes
  | .drop request outcomes => settleCall (dropPersistent request) s outcomes
  | .read outcomes => settleCall ensureOpen s outcomes
  | .restart => s.restarted

/-- The directory is empty at first. -/
def storage : Machine Store Event where
  start := ⟨⟨none, ∅, false, ∅, []⟩, none, []⟩
  step := step

end Cuac.Credential

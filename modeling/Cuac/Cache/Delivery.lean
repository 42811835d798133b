import Mathlib.Data.List.Basic
import Cuac.Cache.Stream
import Cuac.Lib.Machine

/-!
# Cache — delivery

What the consumer of a cached stream sees, whatever the cache held, whatever
the wrapped stream does and however the calls are mixed: a prefix of one
sequence of batches. The batches are of an arbitrary type, so they may carry
their origin, and "one sequence" excludes mixing two sources.

`Progress` says, mode by mode, how the batches handed out so far and the ones
still held by the stream make up that sequence. It holds as long as the stream
serves; a stream that has stopped serving keeps what it has handed out.

Main results:

* `serve_progress` — one call of the serving function of each mode.
* `call_delivers` — every call keeps the invariant.
* `cached_stream_delivery` — the statement over all sequences of calls.
-/

namespace Cuac.Cache

open Cuac.Lib Cuac.Runtime

variable {κ β : Type}

-- ---------------------------------------------------------------------------
-- The sequence a stream draws from
-- ---------------------------------------------------------------------------

def NotFresh (found : CacheLookupResult β) : Prop :=
  ∀ entry age, found ≠ .freshHit entry age

/-- The sequence a stream may be serving: the fresh entry it found, the stale
one after an eligible failure, or its script. Once `done`, the script has to
have ended cleanly. -/
inductive Draws (done : Prop) (found : CacheLookupResult β) (origin : Script β) : List β → Prop
  | fresh {entry age} : found = .freshHit entry age → Draws done found origin entry.batches
  | stale {entry age error} : found = .staleCandidate entry age →
      origin.ending = .threw (.executionError error) → isEligibleStaleFailure error = true →
      Draws done found origin entry.batches
  | remote : NotFresh found → (done → origin.ending = .exhausted) →
      Draws done found origin origin.batches

theorem Draws.mono {done done' : Prop} {found : CacheLookupResult β} {origin : Script β}
    {sequence : List β} (h : Draws done found origin sequence) (himp : done' → done) :
    Draws done' found origin sequence := by
  cases h with
  | fresh hfound => exact .fresh hfound
  | stale hfound hending heligible => exact .stale hfound hending heligible
  | remote hfound hending => exact .remote hfound fun hdone => hending (himp hdone)

/-- How the delivered and the held batches of a serving stream make up its
sequence. -/
inductive Progress (s : Stream κ β) : Prop
  | freshHit (entry : CacheEntry β) (age : UInt64) (mode : s.mode = .freshHitReplay)
      (found : s.found = .freshHit entry age) (replay : s.replayEntry = some entry)
      (delivered : s.delivered = entry.batches.take s.replayIndex)
  | miss (script : Script β) (mode : s.mode = .accumulatingMiss) (found : NotFresh s.found)
      (underlying : s.underlying = some script) (ending : script.ending = s.origin.ending)
      (batches : s.delivered ++ script.batches = s.origin.batches)
  | buffering (entry : CacheEntry β) (age : UInt64) (script : Script β)
      (mode : s.mode = .barrierBuffering) (found : s.found = .staleCandidate entry age)
      (candidate : s.staleEntry = some entry) (replay : s.replayEntry = none)
      (delivered : s.delivered = []) (underlying : s.underlying = some script)
      (ending : script.ending = s.origin.ending)
      (batches : s.cachedBatches ++ script.batches = s.origin.batches)
  | accepted (mode : s.mode = .barrierFreshServe) (found : NotFresh s.found)
      (ending : s.origin.ending = .exhausted) (source : s.replaySource = s.origin.batches)
      (delivered : s.delivered = s.origin.batches.take s.replayIndex)
  | draining (script : Script β) (mode : s.mode = .barrierDrainEmit) (found : NotFresh s.found)
      (underlying : s.underlying = some script) (ending : script.ending = s.origin.ending)
      (batches : s.delivered ++ (s.cachedBatches.drop s.replayIndex ++
        (s.pendingUncachedBatch.toList ++ script.batches)) = s.origin.batches)
  | uncached (script : Script β) (mode : s.mode = .barrierDrainedUncached)
      (found : NotFresh s.found) (underlying : s.underlying = some script)
      (ending : script.ending = s.origin.ending)
      (batches : s.delivered ++ script.batches = s.origin.batches)
  | stale (entry : CacheEntry β) (age : UInt64) (error : ExecutionError)
      (mode : s.mode = .staleServe) (found : s.found = .staleCandidate entry age)
      (ending : s.origin.ending = .threw (.executionError error))
      (eligible : isEligibleStaleFailure error = true) (candidate : s.staleEntry = some entry)
      (delivered : s.delivered = entry.batches.take s.replayIndex)

theorem notFresh_of_stale {found : CacheLookupResult β} {entry : CacheEntry β} {age : UInt64}
    (h : found = .staleCandidate entry age) : NotFresh found := by
  intro e a hfresh
  rw [h] at hfresh
  cases hfresh

/-- A serving stream has delivered a prefix of a sequence it draws from. -/
theorem Progress.delivered_prefix {s : Stream κ β} (h : Progress s) :
    ∃ sequence, Draws False s.found s.origin sequence ∧ s.delivered <+: sequence := by
  cases h with
  | freshHit entry age _ found _ delivered =>
    exact ⟨_, .fresh found, delivered ▸ List.take_prefix _ _⟩
  | miss script _ found _ _ batches =>
    exact ⟨_, .remote found False.elim, ⟨_, batches⟩⟩
  | buffering entry age script _ found _ _ delivered _ _ _ =>
    exact ⟨_, .remote (notFresh_of_stale found) False.elim, delivered ▸ List.nil_prefix⟩
  | accepted _ found _ _ delivered =>
    exact ⟨_, .remote found False.elim, delivered ▸ List.take_prefix _ _⟩
  | draining script _ found _ _ batches =>
    exact ⟨_, .remote found False.elim, ⟨_, batches⟩⟩
  | uncached script _ found _ _ batches =>
    exact ⟨_, .remote found False.elim, ⟨_, batches⟩⟩
  | stale entry age error _ found ending eligible _ delivered =>
    exact ⟨_, .stale found ending eligible, delivered ▸ List.take_prefix _ _⟩

-- ---------------------------------------------------------------------------
-- One call of a serving function
-- ---------------------------------------------------------------------------

/-- What serving leaves alone. -/
structure Frame (s s' : Stream κ β) : Prop where
  found : s'.found = s.found
  origin : s'.origin = s.origin
  delivered : s'.delivered = s.delivered
  outcome : s'.profileOutcome = s.profileOutcome
  finished : s'.profileFinished = s.profileFinished
  cancelled : s'.cancelled = s.cancelled
  closed : s'.closed = s.closed
  exception : s'.terminalException = s.terminalException

theorem Frame.trans {a b c : Stream κ β} (hab : Frame a b) (hbc : Frame b c) : Frame a c where
  found := hbc.found.trans hab.found
  origin := hbc.origin.trans hab.origin
  delivered := hbc.delivered.trans hab.delivered
  outcome := hbc.outcome.trans hab.outcome
  finished := hbc.finished.trans hab.finished
  cancelled := hbc.cancelled.trans hab.cancelled
  closed := hbc.closed.trans hab.closed
  exception := hbc.exception.trans hab.exception

/-- What a serving call amounts to for the consumer. -/
def Serving (s s' : Stream κ β) : Served β → Prop
  | .produced batch => Progress { s' with delivered := s.delivered ++ [batch] }
  | .drained => Draws True s.found s.origin s.delivered
  | .threw _ => True

/-- A call that frames the stream and serves the consumer. -/
def ServesFrom (s : Stream κ β) (result : Scene κ β × Served β) : Prop :=
  Frame s result.1.stream ∧ Serving s result.1.stream result.2

/-- Serving after a step that only changes what the frame leaves free. -/
theorem ServesFrom.of_frame {s s' : Stream κ β} {result : Scene κ β × Served β}
    (hframe : Frame s s') (h : ServesFrom s' result) : ServesFrom s result := by
  refine ⟨hframe.trans h.1, ?_⟩
  have hserving := h.2
  unfold Serving at hserving ⊢
  cases hresult : result.2 with
  | produced batch =>
    rw [hresult] at hserving
    dsimp only at hserving ⊢
    rw [hframe.delivered] at hserving
    exact hserving
  | drained =>
    rw [hresult] at hserving
    dsimp only at hserving ⊢
    rw [hframe.found, hframe.origin, hframe.delivered] at hserving
    exact hserving
  | threw thrown => trivial

theorem take_succ_of_getElem? {l : List β} {i : Nat} {b : β} (h : l[i]? = some b) :
    l.take (i + 1) = l.take i ++ [b] := by
  rw [List.take_add_one, h]
  rfl

theorem take_of_getElem?_none {l : List β} {i : Nat} (h : l[i]? = none) : l.take i = l :=
  List.take_of_length_le (List.getElem?_eq_none_iff.mp h)

theorem serveFreshHit_serves (env : NextEnv) {s : Scene κ β} {entry : CacheEntry β} {age : UInt64}
    (mode : s.stream.mode = .freshHitReplay) (found : s.stream.found = .freshHit entry age)
    (replay : s.stream.replayEntry = some entry)
    (delivered : s.stream.delivered = entry.batches.take s.stream.replayIndex) :
    ServesFrom s.stream (s.serveFreshHit env) := by
  unfold Scene.serveFreshHit
  rw [replay]
  split
  · rename_i hend
    refine ⟨⟨rfl, rfl, rfl, rfl, rfl, rfl, rfl, rfl⟩, ?_⟩
    show Draws True s.stream.found s.stream.origin s.stream.delivered
    rw [delivered, take_of_getElem?_none hend]
    exact .fresh found
  · rename_i batch hbatch
    split
    · exact ⟨⟨rfl, rfl, rfl, rfl, rfl, rfl, rfl, rfl⟩, trivial⟩
    · refine ⟨⟨rfl, rfl, rfl, rfl, rfl, rfl, rfl, rfl⟩, .freshHit entry age mode found replay ?_⟩
      show s.stream.delivered ++ [batch] = entry.batches.take (s.stream.replayIndex + 1)
      rw [delivered, take_succ_of_getElem? hbatch]

theorem serveStale_serves (env : NextEnv) {s : Scene κ β} (entry : CacheEntry β) (age : UInt64)
    (error : ExecutionError) (mode : s.stream.mode = .staleServe)
    (found : s.stream.found = .staleCandidate entry age)
    (ending : s.stream.origin.ending = .threw (.executionError error))
    (eligible : isEligibleStaleFailure error = true) (candidate : s.stream.staleEntry = some entry)
    (delivered : s.stream.delivered = entry.batches.take s.stream.replayIndex) :
    ServesFrom s.stream (s.serveStale env) := by
  unfold Scene.serveStale
  rw [candidate]
  split
  · rename_i hend
    refine ⟨⟨rfl, rfl, rfl, rfl, rfl, rfl, rfl, rfl⟩, ?_⟩
    show Draws True s.stream.found s.stream.origin s.stream.delivered
    rw [delivered, take_of_getElem?_none hend]
    exact .stale found ending eligible
  · rename_i batch hbatch
    split
    · exact ⟨⟨rfl, rfl, rfl, rfl, rfl, rfl, rfl, rfl⟩, trivial⟩
    · refine ⟨⟨rfl, rfl, rfl, rfl, rfl, rfl, rfl, rfl⟩,
        .stale entry age error mode found ending eligible candidate ?_⟩
      show s.stream.delivered ++ [batch] = entry.batches.take (s.stream.replayIndex + 1)
      rw [delivered, take_succ_of_getElem? hbatch]

theorem serveBarrierFresh_serves (env : NextEnv) {s : Scene κ β}
    (mode : s.stream.mode = .barrierFreshServe) (found : NotFresh s.stream.found)
    (ending : s.stream.origin.ending = .exhausted)
    (source : s.stream.replaySource = s.stream.origin.batches)
    (delivered : s.stream.delivered = s.stream.origin.batches.take s.stream.replayIndex) :
    ServesFrom s.stream (s.serveBarrierFresh env) := by
  unfold Scene.serveBarrierFresh
  rw [source]
  split
  · rename_i hend
    refine ⟨?_, ?_⟩
    · simp only [Scene.setMode_stream, Scene.clearCandidate_stream]
      exact ⟨rfl, rfl, rfl, rfl, rfl, rfl, rfl, rfl⟩
    · show Draws True s.stream.found s.stream.origin s.stream.delivered
      rw [delivered, take_of_getElem?_none hend]
      exact .remote found fun _ => ending
  · rename_i batch hbatch
    split
    · exact ⟨⟨rfl, rfl, rfl, rfl, rfl, rfl, rfl, rfl⟩, trivial⟩
    · refine ⟨⟨rfl, rfl, rfl, rfl, rfl, rfl, rfl, rfl⟩, .accepted mode found ending source ?_⟩
      show s.stream.delivered ++ [batch] = s.stream.origin.batches.take (s.stream.replayIndex + 1)
      rw [delivered, take_succ_of_getElem? hbatch]

theorem serveBarrierDrainedUncached_serves {s : Scene κ β} (script : Script β)
    (mode : s.stream.mode = .barrierDrainedUncached) (found : NotFresh s.stream.found)
    (underlying : s.stream.underlying = some script)
    (ending : script.ending = s.stream.origin.ending)
    (batches : s.stream.delivered ++ script.batches = s.stream.origin.batches) :
    ServesFrom s.stream s.serveBarrierDrainedUncached := by
  unfold Scene.serveBarrierDrainedUncached
  rw [underlying]
  dsimp only
  split
  · rename_i hnil
    rw [hnil, List.append_nil] at batches
    split
    · exact ⟨⟨rfl, rfl, rfl, rfl, rfl, rfl, rfl, rfl⟩, trivial⟩
    · rename_i hend
      refine ⟨⟨rfl, rfl, rfl, rfl, rfl, rfl, rfl, rfl⟩, ?_⟩
      show Draws True s.stream.found s.stream.origin s.stream.delivered
      rw [batches]
      exact .remote found fun _ => ending.symm.trans hend
  · rename_i batch rest hcons
    refine ⟨⟨rfl, rfl, rfl, rfl, rfl, rfl, rfl, rfl⟩,
      .uncached ⟨rest, script.ending⟩ mode found rfl ending ?_⟩
    show (s.stream.delivered ++ [batch]) ++ rest = s.stream.origin.batches
    rw [List.append_assoc, ← batches, hcons]
    rfl

theorem serveBarrierDrainEmit_serves (env : NextEnv) {s : Scene κ β} (script : Script β)
    (mode : s.stream.mode = .barrierDrainEmit) (found : NotFresh s.stream.found)
    (underlying : s.stream.underlying = some script)
    (ending : script.ending = s.stream.origin.ending)
    (batches : s.stream.delivered ++ (s.stream.cachedBatches.drop s.stream.replayIndex ++
      (s.stream.pendingUncachedBatch.toList ++ script.batches)) = s.stream.origin.batches) :
    ServesFrom s.stream (s.serveBarrierDrainEmit env) := by
  unfold Scene.serveBarrierDrainEmit
  split
  · rename_i batch hbatch
    split
    · exact ⟨⟨rfl, rfl, rfl, rfl, rfl, rfl, rfl, rfl⟩, trivial⟩
    · refine ⟨⟨rfl, rfl, rfl, rfl, rfl, rfl, rfl, rfl⟩,
        .draining script mode found underlying ending ?_⟩
      obtain ⟨hlt, hget⟩ := List.getElem?_eq_some_iff.mp hbatch
      rw [List.drop_eq_getElem_cons hlt, hget] at batches
      show (s.stream.delivered ++ [batch]) ++ _ = s.stream.origin.batches
      rw [List.append_assoc, ← batches]
      rfl
  · rename_i hend
    rw [List.drop_eq_nil_of_le (List.getElem?_eq_none_iff.mp hend), List.nil_append] at batches
    dsimp only
    have hcleared : Frame s.stream { s.clearCandidate.stream with replayIndex := 0 } := by
      rw [Scene.clearCandidate_stream]
      exact ⟨rfl, rfl, rfl, rfl, rfl, rfl, rfl, rfl⟩
    split
    · rename_i batch hpending
      simp only [Scene.clearCandidate_stream] at hpending
      rw [hpending] at batches
      refine ⟨hcleared.trans ⟨rfl, rfl, rfl, rfl, rfl, rfl, rfl, rfl⟩, ?_⟩
      refine .draining script ?_ ?_ ?_ ?_ ?_ <;>
        simp only [Scene.clearCandidate_stream]
      · exact mode
      · exact found
      · exact underlying
      · exact ending
      · simpa using batches
    · rename_i hpending
      simp only [Scene.clearCandidate_stream] at hpending
      rw [hpending] at batches
      let turned : Scene κ β := ⟨s.clearCandidate.world, { s.clearCandidate.stream with
        replayIndex := 0, mode := .barrierDrainedUncached }⟩
      have hturn : Frame s.stream turned.stream :=
        hcleared.trans ⟨rfl, rfl, rfl, rfl, rfl, rfl, rfl, rfl⟩
      have hstream : turned.stream = { s.stream with
          cachedBatches := [], candidateSizeBytes := 0, candidatePermit := none
          replayIndex := 0, mode := .barrierDrainedUncached } := by
        simp only [turned, Scene.clearCandidate_stream]
      refine ServesFrom.of_frame hturn
        (serveBarrierDrainedUncached_serves (s := turned) script rfl ?_ ?_ ?_ ?_) <;> rw [hstream]
      · exact found
      · exact underlying
      · exact ending
      · simpa using batches

-- ---------------------------------------------------------------------------
-- The barrier
-- ---------------------------------------------------------------------------

/-- The buffering stream: nothing delivered, everything pulled is buffered. -/
structure Buffering (s : Stream κ β) (entry : CacheEntry β) (age : UInt64) : Prop where
  mode : s.mode = .barrierBuffering
  found : s.found = .staleCandidate entry age
  candidate : s.staleEntry = some entry
  replay : s.replayEntry = none
  delivered : s.delivered = []

theorem failBarrier_serves (env : NextEnv) {s : Scene κ β} {entry : CacheEntry β} {age : UInt64}
    {thrown : Thrown} (h : Buffering s.stream entry age)
    (ending : s.stream.origin.ending = .threw thrown) :
    ServesFrom s.stream (s.failBarrier env thrown) := by
  unfold Scene.failBarrier
  split
  · rename_i error
    split
    · rename_i eligible
      dsimp only
      split
      · -- the stale entry is served from its beginning
        have hswitched : Frame s.stream (s.switchToStale
            (entryAge env.now s.stream.hitStoredAtMilliseconds) error).stream := by
          rw [Scene.switchToStale_stream]
          exact ⟨rfl, rfl, rfl, rfl, rfl, rfl, rfl, rfl⟩
        refine ServesFrom.of_frame hswitched
          (serveStale_serves env entry age error ?_ ?_ ?_ eligible ?_ ?_) <;>
          simp only [Scene.switchToStale_stream]
        · exact h.found
        · exact ending
        · exact h.candidate
        · rw [h.delivered, List.take_zero]
      · exact ⟨⟨rfl, rfl, rfl, rfl, rfl, rfl, rfl, rfl⟩, trivial⟩
    · exact ⟨⟨rfl, rfl, rfl, rfl, rfl, rfl, rfl, rfl⟩, trivial⟩
  · exact ⟨⟨rfl, rfl, rfl, rfl, rfl, rfl, rfl, rfl⟩, trivial⟩

-- ---------------------------------------------------------------------------
-- Between calls
-- ---------------------------------------------------------------------------

/-- The profile of a stream is no part of its progress. -/
theorem Progress.profile {s : Stream κ β} (h : Progress s) (rows : UInt64) (started : Bool)
    (outcome : ScanOutcome) :
    Progress { s with
      rowsReturned := rows, profileStarted := started, profileOutcome := outcome } := by
  cases h with
  | freshHit entry age mode found replay delivered =>
    exact .freshHit entry age mode found replay delivered
  | miss script mode found underlying ending batches =>
    exact .miss script mode found underlying ending batches
  | buffering entry age script mode found candidate replay delivered underlying ending batches =>
    exact .buffering entry age script mode found candidate replay delivered underlying ending
      batches
  | accepted mode found ending source delivered =>
    exact .accepted mode found ending source delivered
  | draining script mode found underlying ending batches =>
    exact .draining script mode found underlying ending batches
  | uncached script mode found underlying ending batches =>
    exact .uncached script mode found underlying ending batches
  | stale entry age error mode found ending eligible candidate delivered =>
    exact .stale entry age error mode found ending eligible candidate delivered

/-- What has been handed out, and all of it after a success. -/
def Sourced (s : Stream κ β) : Prop :=
  ∃ sequence, Draws (s.profileOutcome = .succeeded) s.found s.origin sequence ∧
    s.delivered <+: sequence ∧ (s.profileOutcome = .succeeded → s.delivered = sequence)

/-- The next call will serve. -/
structure Live (s : Stream κ β) : Prop where
  closed : s.closed = false
  cancelled : s.cancelled = false
  exception : s.terminalException = none
  outcome : s.profileOutcome = .notStarted ∨ s.profileOutcome = .running
  finished : s.profileFinished = false

/-- No later call will serve. -/
def Stopped (s : Stream κ β) : Prop :=
  s.closed = true ∨ s.cancelled = true ∨ s.terminalException.isSome = true ∨
    s.profileOutcome = .succeeded

/-- The invariant between calls. -/
structure Delivers (found : CacheLookupResult β) (origin : Script β) (s : Stream κ β) : Prop where
  found : s.found = found
  origin : s.origin = origin
  state : (Live s ∧ Progress s) ∨ (Stopped s ∧ Sourced s)

theorem Live.not_succeeded {s : Stream κ β} (h : Live s) : s.profileOutcome ≠ .succeeded := by
  rcases h.outcome with ho | ho <;> rw [ho] <;> decide

theorem Live.not_stopped {s : Stream κ β} (h : Live s) : ¬Stopped s := by
  rintro (hs | hs | hs | hs)
  · rw [h.closed] at hs
    cases hs
  · rw [h.cancelled] at hs
    cases hs
  · rw [h.exception] at hs
    cases hs
  · exact h.not_succeeded hs

theorem Live.sourced {s : Stream κ β} (h : Live s) (hprogress : Progress s) : Sourced s := by
  obtain ⟨sequence, hdraws, hprefix⟩ := hprogress.delivered_prefix
  exact ⟨sequence, hdraws.mono h.not_succeeded, hprefix, fun hs => absurd hs h.not_succeeded⟩

theorem Delivers.sourced {found : CacheLookupResult β} {origin : Script β} {s : Stream κ β}
    (h : Delivers found origin s) : Sourced s := by
  rcases h.state with ⟨hlive, hprogress⟩ | ⟨-, hsourced⟩
  · exact hlive.sourced hprogress
  · exact hsourced

/-- Stopping a stream keeps what it has handed out. -/
theorem Sourced.congr {s s' : Stream κ β} (h : Sourced s) (hfound : s'.found = s.found)
    (horigin : s'.origin = s.origin) (hdelivered : s'.delivered = s.delivered)
    (houtcome : s'.profileOutcome = .succeeded → s.profileOutcome = .succeeded) : Sourced s' := by
  obtain ⟨sequence, hdraws, hprefix, hall⟩ := h
  refine ⟨sequence, ?_, ?_, fun hs => ?_⟩
  · rw [hfound, horigin]
    exact hdraws.mono houtcome
  · rw [hdelivered]
    exact hprefix
  · rw [hdelivered]
    exact hall (houtcome hs)

/-- Finishing with anything but a success makes no success and takes none back. -/
theorem finishProfile_spec (outcome : ScanOutcome) (failure : Option FailureClass)
    (s : Stream κ β) (h : outcome ≠ .succeeded) :
    ∃ outcome' finished class', s.finishProfile outcome failure = { s with
        profileOutcome := outcome', profileFinished := finished, terminalFailureClass := class' } ∧
      (outcome' = .succeeded ↔ s.profileOutcome = .succeeded) := by
  unfold Stream.finishProfile
  split
  · rename_i hbefore
    exact ⟨outcome, true, failure, rfl, by rw [hbefore]; simp [h]⟩
  · rename_i hbefore
    exact ⟨outcome, true, failure, rfl, by rw [hbefore]; simp [h]⟩
  · exact ⟨s.profileOutcome, s.profileFinished, s.terminalFailureClass, rfl, Iff.rfl⟩

/-- Starting the profile keeps a live stream live. -/
theorem startProfile_spec {s : Stream κ β} (h : Live s) :
    ∃ started outcome, s.startProfile = { s with
        profileStarted := started, profileOutcome := outcome } ∧ Live s.startProfile := by
  unfold Stream.startProfile
  split
  · exact ⟨s.profileStarted, s.profileOutcome, rfl, h⟩
  · exact ⟨true, .running, rfl, h.closed, h.cancelled, h.exception, Or.inr rfl, h.finished⟩

/-- A live stream that is drained succeeds. -/
theorem finishProfile_succeeded {s : Stream κ β}
    (h : s.profileOutcome = .notStarted ∨ s.profileOutcome = .running) :
    s.finishProfile .succeeded none = { s with
      profileOutcome := .succeeded, profileFinished := true, terminalFailureClass := none } := by
  unfold Stream.finishProfile
  rcases h with ho | ho <;> simp only [ho]

theorem Live.of_frame {s s' : Stream κ β} (h : Live s) (hframe : Frame s s') : Live s' where
  closed := hframe.closed.trans h.closed
  cancelled := hframe.cancelled.trans h.cancelled
  exception := hframe.exception.trans h.exception
  outcome := hframe.outcome ▸ h.outcome
  finished := hframe.finished.trans h.finished

/-- A failed call drops every buffer and records why. -/
theorem rethrow_stream (thrown : Thrown) (s : Scene κ β) :
    ∃ cancelled exception mode outcome finished failure,
      (s.rethrow thrown).1.stream = { s.stream with
        cancelled := cancelled, terminalException := exception, mode := mode
        profileOutcome := outcome, profileFinished := finished, terminalFailureClass := failure
        cachedBatches := [], candidateSizeBytes := 0, candidatePermit := none
        replayEntry := none, staleEntry := none } ∧
      (cancelled = true ∨ exception.isSome = true) ∧
      (outcome = .succeeded ↔ s.stream.profileOutcome = .succeeded) := by
  unfold Scene.rethrow
  split
  · dsimp only
    obtain ⟨outcome, finished, failure, hfinish, hiff⟩ := finishProfile_spec .cancelled none
      (Scene.clearReplayEntries (Scene.clearCandidate
        ⟨s.world, { s.stream with cancelled := true }⟩)).stream (by decide)
    simp only [Scene.clearReplayEntries_stream, Scene.clearCandidate_stream] at hfinish hiff ⊢
    exact ⟨true, s.stream.terminalException, s.stream.mode, outcome, finished, failure, hfinish,
      Or.inl rfl, hiff⟩
  · dsimp only
    obtain ⟨outcome, finished, failure, hfinish, hiff⟩ := finishProfile_spec .failed
      (some (terminalClass thrown)) (Scene.clearReplayEntries (Scene.clearCandidate
        ⟨s.world, { s.stream with terminalException := some thrown, mode := .failed }⟩)).stream
      (by decide)
    simp only [Scene.clearReplayEntries_stream, Scene.clearCandidate_stream] at hfinish hiff ⊢
    exact ⟨s.stream.cancelled, some thrown, .failed, outcome, finished, failure, hfinish,
      Or.inr rfl, hiff⟩

theorem cancel_stream (s : Scene κ β) :
    ∃ cancelled outcome finished failure, s.cancel.stream = { s.stream with
        cancelled := cancelled, profileOutcome := outcome, profileFinished := finished
        terminalFailureClass := failure, cachedBatches := [], candidateSizeBytes := 0
        candidatePermit := none, replayEntry := none, staleEntry := none
        pendingUncachedBatch := none } ∧
      (cancelled = true ∨ s.stream.profileFinished = true ∧ cancelled = s.stream.cancelled) ∧
      (outcome = .succeeded ↔ s.stream.profileOutcome = .succeeded) := by
  unfold Scene.cancel
  simp only [Scene.clearReplayEntries_stream, Scene.clearCandidate_stream]
  split
  · rename_i hfinished
    exact ⟨s.stream.cancelled, s.stream.profileOutcome, s.stream.profileFinished,
      s.stream.terminalFailureClass, rfl, Or.inr ⟨hfinished, rfl⟩, Iff.rfl⟩
  · obtain ⟨outcome, finished, failure, hfinish, hiff⟩ :=
      finishProfile_spec .cancelled none { s.stream with cancelled := true } (by decide)
    rw [hfinish]
    exact ⟨true, outcome, finished, failure, rfl, Or.inl rfl, hiff⟩

theorem close_stream (s : Scene κ β) (h : s.stream.closed = false) :
    ∃ outcome finished failure, s.close.stream = { s.stream with
        closed := true, profileOutcome := outcome, profileFinished := finished
        terminalFailureClass := failure, cachedBatches := [], candidateSizeBytes := 0
        candidatePermit := none, replayEntry := none, staleEntry := none
        pendingUncachedBatch := none, candidateCacheable := false, mode := .drained } ∧
      (outcome = .succeeded ↔ s.stream.profileOutcome = .succeeded) := by
  unfold Scene.close
  rw [h]
  simp only [Bool.false_eq_true, ↓reduceIte, Scene.clearReplayEntries_stream,
    Scene.clearCandidate_stream]
  split
  · exact ⟨s.stream.profileOutcome, s.stream.profileFinished, s.stream.terminalFailureClass, rfl,
      Iff.rfl⟩
  · obtain ⟨outcome, finished, failure, hfinish, hiff⟩ :=
      finishProfile_spec .closed none { s.stream with closed := true } (by decide)
    rw [hfinish]
    exact ⟨outcome, finished, failure, rfl, hiff⟩

/-- A failed call stops the stream. -/
theorem rethrow_stops (thrown : Thrown) (s : Scene κ β) (h : Sourced s.stream) :
    (s.rethrow thrown).1.stream.found = s.stream.found ∧
      (s.rethrow thrown).1.stream.origin = s.stream.origin ∧
      Stopped (s.rethrow thrown).1.stream ∧ Sourced (s.rethrow thrown).1.stream := by
  obtain ⟨cancelled, exception, mode, outcome, finished, failure, hstream, hwhy, hiff⟩ :=
    rethrow_stream thrown s
  rw [hstream]
  refine ⟨rfl, rfl, ?_, h.congr rfl rfl rfl hiff.mp⟩
  rcases hwhy with hcancelled | hexception
  · exact Or.inr (Or.inl hcancelled)
  · exact Or.inr (Or.inr (Or.inl hexception))

/-- A cancelled stream has stopped, whether or not it had finished before. -/
theorem cancel_stopped {s : Scene κ β} (h : Live s.stream ∨ Stopped s.stream) :
    Stopped s.cancel.stream := by
  obtain ⟨cancelled, outcome, finished, failure, hstream, hwhy, hiff⟩ := cancel_stream s
  rw [hstream]
  rcases hwhy with hcancelled | ⟨hfinished, hsame⟩
  · exact Or.inr (Or.inl hcancelled)
  · rcases h with hlive | hstopped
    · rw [hlive.finished] at hfinished
      cases hfinished
    · rcases hstopped with hs | hs | hs | hs
      · exact Or.inl hs
      · exact Or.inr (Or.inl (hsame.trans hs))
      · exact Or.inr (Or.inr (Or.inl hs))
      · exact Or.inr (Or.inr (Or.inr (hiff.mpr hs)))

theorem cancel_delivers {found : CacheLookupResult β} {origin : Script β} {s : Scene κ β}
    (h : Delivers found origin s.stream) : Delivers found origin s.cancel.stream := by
  have hsourced := h.sourced
  have hstopped : Stopped s.cancel.stream :=
    cancel_stopped (h.state.imp (fun hl => hl.1) fun hs => hs.1)
  obtain ⟨cancelled, outcome, finished, failure, hstream, -, hiff⟩ := cancel_stream s
  rw [hstream] at hstopped ⊢
  exact ⟨h.found, h.origin, Or.inr ⟨hstopped, hsourced.congr rfl rfl rfl hiff.mp⟩⟩

theorem close_delivers {found : CacheLookupResult β} {origin : Script β} {s : Scene κ β}
    (h : Delivers found origin s.stream) : Delivers found origin s.close.stream := by
  cases hclosed : s.stream.closed with
  | true =>
    unfold Scene.close
    rw [hclosed]
    exact h
  | false =>
    have hsourced := h.sourced
    obtain ⟨outcome, finished, failure, hstream, hiff⟩ := close_stream s hclosed
    rw [hstream]
    exact ⟨h.found, h.origin, Or.inr ⟨Or.inl rfl, hsourced.congr rfl rfl rfl hiff.mp⟩⟩

variable [DecidableEq κ]

theorem publishCandidate_frame (env : PublishEnv) (s : Scene κ β) :
    Frame s.stream (s.publishCandidate env).stream := by
  unfold Scene.publishCandidate
  split
  · exact ⟨rfl, rfl, rfl, rfl, rfl, rfl, rfl, rfl⟩
  · dsimp only
    rw [Scene.clearCandidate_stream]
    rcases s.publishReserved_stream env with ⟨-, hstream⟩ | ⟨entry, -, -, hstream⟩
    · dsimp only
      rw [hstream]
      exact ⟨rfl, rfl, rfl, rfl, rfl, rfl, rfl, rfl⟩
    · dsimp only
      rw [hstream]
      exact ⟨rfl, rfl, rfl, rfl, rfl, rfl, rfl, rfl⟩

theorem serveAccumulatingMiss_serves (env : NextEnv) {s : Scene κ β} (script : Script β)
    (mode : s.stream.mode = .accumulatingMiss) (found : NotFresh s.stream.found)
    (underlying : s.stream.underlying = some script)
    (ending : script.ending = s.stream.origin.ending)
    (batches : s.stream.delivered ++ script.batches = s.stream.origin.batches) :
    ServesFrom s.stream (s.serveAccumulatingMiss env) := by
  unfold Scene.serveAccumulatingMiss
  rw [underlying]
  dsimp only
  split
  · rename_i hnil
    rw [hnil, List.append_nil] at batches
    split
    · exact ⟨⟨rfl, rfl, rfl, rfl, rfl, rfl, rfl, rfl⟩, trivial⟩
    · rename_i hend
      let seen : Scene κ β := ⟨s.world, { s.stream with sawEnd := true }⟩
      have hseen : Frame s.stream seen.stream := ⟨rfl, rfl, rfl, rfl, rfl, rfl, rfl, rfl⟩
      have hpublished := publishCandidate_frame env.publish seen
      refine ⟨(hseen.trans hpublished).trans ⟨rfl, rfl, rfl, rfl, rfl, rfl, rfl, rfl⟩, ?_⟩
      show Draws True s.stream.found s.stream.origin s.stream.delivered
      rw [batches]
      exact .remote found fun _ => ending.symm.trans hend
  · rename_i batch rest hcons
    have hnext : (s.stream.delivered ++ [batch]) ++ rest = s.stream.origin.batches := by
      rw [List.append_assoc, ← batches, hcons]
      rfl
    split
    · -- the batch is retained, or the candidate given up; it is handed out either way
      obtain ⟨permit, size, ⟨hkept, hstream⟩ | ⟨hkept, hstream⟩⟩ :=
        Scene.retainCandidateBatch_stream (env.retain s.stream.cachedBatches.length) batch
          (⟨s.world, { s.stream with underlying := some ⟨rest, script.ending⟩ }⟩ : Scene κ β)
      · split
        · rename_i s' hresult
          rw [hresult] at hstream
          dsimp only at hstream
          refine ⟨?_, ?_⟩
          · rw [hstream]
            exact ⟨rfl, rfl, rfl, rfl, rfl, rfl, rfl, rfl⟩
          · rw [hstream]
            exact .miss ⟨rest, script.ending⟩ mode found rfl ending hnext
        · rename_i s' hresult
          rw [hresult] at hkept
          cases hkept
      · split
        · rename_i s' hresult
          rw [hresult] at hkept
          cases hkept
        · rename_i s' hresult
          rw [hresult] at hstream
          dsimp only at hstream
          refine ⟨?_, ?_⟩
          · simp only [Scene.clearCandidate_stream, hstream]
            exact ⟨rfl, rfl, rfl, rfl, rfl, rfl, rfl, rfl⟩
          · simp only [Scene.clearCandidate_stream, hstream]
            exact .miss ⟨rest, script.ending⟩ mode found rfl ending hnext
    · exact ⟨⟨rfl, rfl, rfl, rfl, rfl, rfl, rfl, rfl⟩,
        .miss ⟨rest, script.ending⟩ mode found rfl ending hnext⟩

theorem acceptBarrier_serves (env : NextEnv) {s : Scene κ β} {entry : CacheEntry β} {age : UInt64}
    (h : Buffering s.stream entry age) (ending : s.stream.origin.ending = .exhausted)
    (batches : s.stream.cachedBatches = s.stream.origin.batches) :
    ServesFrom s.stream (s.acceptBarrier env) := by
  unfold Scene.acceptBarrier
  dsimp only
  rcases Scene.publishReserved_stream env.publish
      (⟨s.world, { s.stream with sawEnd := true }⟩ : Scene κ β) with
    ⟨hnone, hstream⟩ | ⟨published, hsome, hbatches, hstream⟩
  · -- refused: the private buffer is replayed
    rw [hnone, hstream]
    refine ServesFrom.of_frame ?_ (serveBarrierFresh_serves env ?_ ?_ ?_ ?_ ?_)
    · exact ⟨rfl, rfl, rfl, rfl, rfl, rfl, rfl, rfl⟩
    · rfl
    · exact notFresh_of_stale h.found
    · exact ending
    · have hreplay : s.stream.replaySource = s.stream.origin.batches := by
        unfold Stream.replaySource
        rw [h.replay]
        exact batches
      exact hreplay
    · show s.stream.delivered = s.stream.origin.batches.take 0
      rw [h.delivered, List.take_zero]
  · rw [hsome, hstream]
    refine ServesFrom.of_frame ?_ (serveBarrierFresh_serves env ?_ ?_ ?_ ?_ ?_)
    · exact ⟨rfl, rfl, rfl, rfl, rfl, rfl, rfl, rfl⟩
    · rfl
    · exact notFresh_of_stale h.found
    · exact ending
    · show published.batches = s.stream.origin.batches
      exact hbatches.trans batches
    · show s.stream.delivered = s.stream.origin.batches.take 0
      rw [h.delivered, List.take_zero]

theorem serveBarrierBufferingFrom_serves (env : NextEnv) (rest : List β) {s : Scene κ β}
    {entry : CacheEntry β} {age : UInt64} (h : Buffering s.stream entry age)
    (batches : s.stream.cachedBatches ++ rest = s.stream.origin.batches) :
    ServesFrom s.stream (s.serveBarrierBufferingFrom env s.stream.origin.ending rest) := by
  generalize hending : s.stream.origin.ending = ending
  induction rest generalizing s with
  | nil =>
    unfold Scene.serveBarrierBufferingFrom
    rw [List.append_nil] at batches
    split
    · exact failBarrier_serves env h hending
    · exact acceptBarrier_serves env h hending batches
  | cons batch rest ih =>
    unfold Scene.serveBarrierBufferingFrom
    dsimp only
    obtain ⟨permit, size, ⟨hkept, hstream⟩ | ⟨hkept, hstream⟩⟩ :=
      Scene.retainCandidateBatch_stream (env.retain s.stream.cachedBatches.length) batch
        (⟨s.world, { s.stream with underlying := some ⟨rest, ending⟩ }⟩ : Scene κ β)
    · split
      · rename_i s' hresult
        rw [hresult] at hstream
        dsimp only at hstream
        have hframe : Frame s.stream s'.stream := by
          rw [hstream]
          exact ⟨rfl, rfl, rfl, rfl, rfl, rfl, rfl, rfl⟩
        refine ServesFrom.of_frame hframe (ih (s := s') ?_ ?_ ?_) <;> rw [hstream]
        · exact ⟨h.mode, h.found, h.candidate, h.replay, h.delivered⟩
        · show (s.stream.cachedBatches ++ [batch]) ++ rest = s.stream.origin.batches
          rw [List.append_assoc]
          exact batches
        · exact hending
      · rename_i s' hresult
        rw [hresult] at hkept
        cases hkept
    · split
      · rename_i s' hresult
        rw [hresult] at hkept
        cases hkept
      · -- the batch that could not be retained waits behind the buffer
        rename_i s' hresult
        rw [hresult] at hstream
        dsimp only at hstream
        unfold Scene.abandonBarrier
        rw [hstream]
        refine ServesFrom.of_frame ?_
          (serveBarrierDrainEmit_serves env ⟨rest, ending⟩ ?_ ?_ ?_ ?_ ?_)
        · exact ⟨rfl, rfl, rfl, rfl, rfl, rfl, rfl, rfl⟩
        · rfl
        · exact notFresh_of_stale h.found
        · rfl
        · exact hending.symm
        · show s.stream.delivered ++ (s.stream.cachedBatches.drop 0 ++ ([batch] ++ rest)) = _
          rw [h.delivered]
          exact batches

/-- Every mode serves its sequence. -/
theorem serve_progress (env : NextEnv) {s : Scene κ β} (h : Progress s.stream) :
    ServesFrom s.stream (s.serve env) := by
  unfold Scene.serve
  cases h with
  | freshHit entry age mode found replay delivered =>
    rw [mode]
    exact serveFreshHit_serves env mode found replay delivered
  | miss script mode found underlying ending batches =>
    rw [mode]
    exact serveAccumulatingMiss_serves env script mode found underlying ending batches
  | buffering entry age script mode found candidate replay delivered underlying ending batches =>
    rw [mode]
    dsimp only
    unfold Scene.serveBarrierBuffering
    rw [underlying]
    dsimp only
    rw [ending]
    exact serveBarrierBufferingFrom_serves env script.batches
      ⟨mode, found, candidate, replay, delivered⟩ batches
  | accepted mode found ending source delivered =>
    rw [mode]
    exact serveBarrierFresh_serves env mode found ending source delivered
  | draining script mode found underlying ending batches =>
    rw [mode]
    exact serveBarrierDrainEmit_serves env script mode found underlying ending batches
  | uncached script mode found underlying ending batches =>
    rw [mode]
    exact serveBarrierDrainedUncached_serves script mode found underlying ending batches
  | stale entry age error mode found ending eligible candidate delivered =>
    rw [mode]
    exact serveStale_serves env entry age error mode found ending eligible candidate delivered

-- ---------------------------------------------------------------------------
-- Calls
-- ---------------------------------------------------------------------------

variable (rowCount : β → UInt64)

/-- A stopped stream is turned away. -/
theorem next_of_stopped (env : NextEnv) {s : Scene κ β} (h : Stopped s.stream) :
    (s.next rowCount env).1 = s := by
  unfold Scene.next
  split
  · rfl
  rename_i hclosed
  split
  · rfl
  rename_i hexception
  split
  · rfl
  rename_i hcancelled
  split
  · rfl
  rename_i houtcome
  rcases h with hs | hs | hs | hs
  · exact absurd hs hclosed
  · exact absurd hs hcancelled
  · rw [hexception] at hs
    cases hs
  · exact absurd (beq_iff_eq.mpr hs) houtcome

/-- A live stream is cancelled or serves. -/
theorem next_of_live (env : NextEnv) {s : Scene κ β} (h : Live s.stream) :
    s.next rowCount env =
      if env.cancellationRequested then (s.cancel, .threw .executionCancelled)
      else
        match (⟨s.world, s.stream.startProfile⟩ : Scene κ β).serve env with
        | (s, .threw thrown) => s.rethrow thrown
        | (s, .drained) =>
          (⟨s.world, { s.stream with mode := .drained }.finishProfile .succeeded none⟩, .finished)
        | (s, .produced batch) => s.deliver rowCount batch := by
  have houtcome : (s.stream.profileOutcome == .succeeded) = false :=
    beq_eq_false_iff_ne.mpr h.not_succeeded
  unfold Scene.next
  rw [h.closed, h.exception, h.cancelled, houtcome]
  rfl

theorem next_delivers {found : CacheLookupResult β} {origin : Script β} (env : NextEnv)
    {s : Scene κ β} (h : Delivers found origin s.stream) :
    Delivers found origin (s.next rowCount env).1.stream := by
  rcases h.state with ⟨hlive, hprogress⟩ | ⟨hstopped, -⟩
  swap
  · rw [next_of_stopped rowCount env hstopped]
    exact h
  rw [next_of_live rowCount env hlive]
  split
  · exact cancel_delivers h
  -- Starting the profile touches nothing that delivery depends on.
  obtain ⟨profile, outcome, hstream, hlive⟩ := startProfile_spec hlive
  have hprogress : Progress s.stream.startProfile := by
    rw [hstream]
    exact hprogress.profile _ _ _
  let started : Scene κ β := ⟨s.world, s.stream.startProfile⟩
  obtain ⟨hframe, hserving⟩ := serve_progress (s := started) env hprogress
  have hafter : Sourced (started.serve env).1.stream :=
    (hlive.sourced hprogress).congr hframe.found hframe.origin hframe.delivered
      fun hs => hframe.outcome ▸ hs
  have hlive' := hlive.of_frame hframe
  have hf : (started.serve env).1.stream.found = found := by
    rw [hframe.found, ← h.found]
    show s.stream.startProfile.found = _
    rw [hstream]
  have ho : (started.serve env).1.stream.origin = origin := by
    rw [hframe.origin, ← h.origin]
    show s.stream.startProfile.origin = _
    rw [hstream]
  show Delivers found origin (match started.serve env with
    | (s, .threw thrown) => s.rethrow thrown
    | (s, .drained) =>
      (⟨s.world, { s.stream with mode := .drained }.finishProfile .succeeded none⟩, .finished)
    | (s, .produced batch) => s.deliver rowCount batch).1.stream
  split
  -- A failure stops the stream with what was delivered so far.
  · rename_i s' thrown hserve
    rw [hserve] at hafter hf ho
    obtain ⟨hf', ho', hstopped, hkept⟩ := rethrow_stops thrown s' hafter
    exact ⟨hf'.trans hf, ho'.trans ho, Or.inr ⟨hstopped, hkept⟩⟩
  · rename_i s' hserve
    rw [hserve] at hframe hserving hlive' hf ho
    dsimp only at hframe hlive' hf ho
    dsimp only
    rw [finishProfile_succeeded (s := { s'.stream with mode := .drained }) hlive'.outcome]
    refine ⟨hf, ho, Or.inr ⟨Or.inr (Or.inr (Or.inr rfl)), s'.stream.delivered, ?_, ?_, ?_⟩⟩
    · show Draws _ s'.stream.found s'.stream.origin s'.stream.delivered
      rw [hframe.found, hframe.origin, hframe.delivered]
      exact Draws.mono hserving fun _ => trivial
    · exact List.prefix_refl _
    · exact fun _ => rfl
  -- A batch is delivered unless the row count overflows, which fails the stream.
  · rename_i s' batch hserve
    rw [hserve] at hframe hserving hlive' hafter hf ho
    dsimp only at hframe hlive' hf ho hafter
    unfold Scene.deliver
    split
    · obtain ⟨hf', ho', hstopped, hkept⟩ :=
        rethrow_stops (.executionError rowProfilingError) s' hafter
      exact ⟨hf'.trans hf, ho'.trans ho, Or.inr ⟨hstopped, hkept⟩⟩
    · refine ⟨hf, ho, Or.inl ⟨⟨hlive'.closed, hlive'.cancelled, hlive'.exception, hlive'.outcome,
        hlive'.finished⟩, ?_⟩⟩
      have hnext : Progress { s'.stream with
          delivered := started.stream.delivered ++ [batch] } := hserving
      rw [← hframe.delivered] at hnext
      exact hnext.profile _ _ _

inductive Call
  | next (env : NextEnv)
  | cancel
  | close
  | destroy

/-- One call on a stream; the result of `next` is in the stream's history. -/
def Call.apply (call : Call) (s : Scene κ β) : Scene κ β :=
  match call with
  | .next env => (s.next rowCount env).1
  | .cancel => s.cancel
  | .close => s.close
  | .destroy => s.destroy

theorem call_delivers {found : CacheLookupResult β} {origin : Script β} (call : Call)
    {s : Scene κ β} (h : Delivers found origin s.stream) :
    Delivers found origin (call.apply rowCount s).stream := by
  cases call with
  | next env => exact next_delivers rowCount env h
  | cancel => exact cancel_delivers h
  | close => exact close_delivers h
  | destroy => exact close_delivers (cancel_delivers h)

theorem open_delivers (config : StreamConfig κ) (script : Script β) (now : UInt64)
    (cache : ResultCache κ β) :
    Delivers (cache.lookup config.key config.policy now) script
      (Stream.open config script now cache) := by
  unfold Stream.open
  dsimp only
  split
  · rename_i entry age hfound
    exact ⟨rfl, rfl, Or.inl ⟨⟨rfl, rfl, rfl, Or.inl rfl, rfl⟩,
      .freshHit entry age rfl hfound rfl rfl⟩⟩
  · rename_i entry age hfound
    exact ⟨rfl, rfl, Or.inl ⟨⟨rfl, rfl, rfl, Or.inl rfl, rfl⟩,
      .buffering entry age script rfl hfound rfl rfl rfl rfl rfl rfl⟩⟩
  · rename_i hfresh _
    exact ⟨rfl, rfl, Or.inl ⟨⟨rfl, rfl, rfl, Or.inl rfl, rfl⟩,
      .miss script rfl hfresh rfl rfl rfl⟩⟩

/-- One stream under any sequence of calls. What other streams do to the shared
world in between is arbitrary: every call comes with the world it finds. -/
def streamMachine (config : StreamConfig κ) (script : Script β) (now : UInt64)
    (cache : ResultCache κ β) : Machine (Stream κ β) (Call × World κ β) where
  start := Stream.open config script now cache
  step := fun s e => (e.1.apply rowCount ⟨e.2, s⟩).stream

/-- The consumer gets a prefix of one sequence, and all of it when the scan
reports success: the fresh entry found at construction, the stale candidate
after an eligible failure of the refresh, or the wrapped stream's batches. -/
theorem cached_stream_delivery {config : StreamConfig κ} {script : Script β} {now : UInt64}
    {cache : ResultCache κ β} {s : Stream κ β}
    (h : (streamMachine rowCount config script now cache).Reachable s) :
    ∃ sequence, s.delivered <+: sequence ∧
      (s.profileOutcome = .succeeded → s.delivered = sequence) ∧
      ((∃ entry age, cache.lookup config.key config.policy now = .freshHit entry age ∧
          sequence = entry.batches) ∨
        (∃ entry age error, cache.lookup config.key config.policy now = .staleCandidate entry age ∧
          script.ending = .threw (.executionError error) ∧ isEligibleStaleFailure error = true ∧
          sequence = entry.batches) ∨
        ((∀ entry age, cache.lookup config.key config.policy now ≠ .freshHit entry age) ∧
          sequence = script.batches ∧
          (s.profileOutcome = .succeeded → script.ending = .exhausted))) := by
  have hdelivers : Delivers (cache.lookup config.key config.policy now) script s :=
    h.invariant (open_delivers config script now cache)
      fun s e hs => call_delivers rowCount e.1 (s := ⟨e.2, s⟩) hs
  obtain ⟨sequence, hdraws, hprefix, hall⟩ := hdelivers.sourced
  rw [hdelivers.found, hdelivers.origin] at hdraws
  refine ⟨sequence, hprefix, hall, ?_⟩
  cases hdraws with
  | fresh hfound => exact Or.inl ⟨_, _, hfound, rfl⟩
  | stale hfound hending heligible =>
    exact Or.inr (Or.inl ⟨_, _, _, hfound, hending, heligible, rfl⟩)
  | remote hfound hending => exact Or.inr (Or.inr ⟨hfound, rfl, hending⟩)

-- ---------------------------------------------------------------------------
-- A refresh that outgrows the buffer
-- ---------------------------------------------------------------------------

/-- A store with one old entry of two batches. -/
def staleStore : ResultCache Nat Nat :=
  ⟨4, 1000, 1000, [(1, ⟨⟨0, [10, 11], 0, 20, none⟩, 0⟩)], 1, 20, false⟩

def staleWorld : World Nat Nat := ⟨staleStore, [], [], 0, 1⟩

/-- Serve stale for 1000 ms after 10 fresh ones; retain at most 25 bytes. -/
def staleConfig : StreamConfig Nat := ⟨1, ⟨.staleIfError, 10, 1000⟩, 25, false⟩

/-- Every batch takes ten bytes, nothing throws. -/
def tenBytes : NextEnv :=
  ⟨false, 100, fun _ => ⟨some 10, true, false, true⟩, ⟨100, false, false⟩, false⟩

def fourPulls : List (Call × World Nat Nat) :=
  List.replicate 4 (.next tenBytes, staleWorld)

theorem cached_stream_delivery_of_three_batches :
    let s := (streamMachine (fun _ => 1) staleConfig ⟨[1, 2, 3], .exhausted⟩ 100 staleStore).run
      fourPulls
    s.profileOutcome = .succeeded ∧ ∃ sequence, s.delivered <+: sequence ∧
      (s.profileOutcome = .succeeded → s.delivered = sequence) := by
  refine ⟨by decide, ?_⟩
  obtain ⟨sequence, hprefix, hall, -⟩ := cached_stream_delivery (fun _ => 1)
    ((Machine.reachable_iff_run (streamMachine (fun _ => 1) staleConfig ⟨[1, 2, 3], .exhausted⟩
      100 staleStore) _).mpr ⟨fourPulls, rfl⟩)
  exact ⟨sequence, hprefix, hall⟩

end Cuac.Cache

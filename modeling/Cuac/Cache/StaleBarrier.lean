import Cuac.Cache.Delivery
import Cuac.Runtime.RestScan

/-!
# Cache — what the stale barrier serves for

The contract closes the causes for which a stale entry may be served: a
transient transport failure, a fully received 502, 503 or 504, an exhausted
declared rate limit. The barrier decides from the error's stage alone, and the
stage is chosen by many throw sites; `leaksStale` lists those that report an
eligible stage for another cause.

Main results:

* `report_eligible` — which causes the barrier takes for eligible.
* `stale_cause` — what stands behind a stale delivery, in every reachable state.
* `stale_served_exactly_when_declared` — when the barrier keeps to the contract.
-/

namespace Cuac.Cache

open Cuac.Lib Cuac.Runtime

-- ---------------------------------------------------------------------------
-- Causes
-- ---------------------------------------------------------------------------

/-- The closed set of the contract. -/
def inStaleMatrix : Raised → Bool
  | .attemptFailure failure => isRetryableTransportFailure failure
  | .gateway _ => true
  | .rejected .nonSuccess status _ => isGatewayStatus status
  | .rateLimited _ _ => true
  | _ => false

/-- Causes outside the contract that are reported under an eligible stage. -/
def leaksStale (paginated : Bool) : Raised → Bool
  -- any other status the check calls a non-success
  | .rejected .nonSuccess status _ => !isGatewayStatus status
  -- framing and metadata errors, and transfers that broke off or failed for good
  | .attemptFailure failure =>
    match failure.error with
    | .transport _ => !isRetryableTransportFailure failure
    | .callee _ => false
  -- no handle, no configuration
  | .transportFailure _ => true
  -- exceptions no handler names
  | .callee .unknown => true
  | .callee (.linkPaginationError _ _ _) => !paginated
  | _ => false

theorem localStage_ineligible (error : LocalError) (classified : Option FailureClass) :
    isEligibleStaleFailure { error.toExecutionError with classified := classified } = false := by
  cases h : error.stage <;>
    simp [isEligibleStaleFailure, LocalError.toExecutionError, LocalStage.toErrorStage, h]

/-- What is reported under an eligible stage is in the contract or leaks. -/
theorem report_eligible {paginated : Bool} {raised : Raised} {error : ExecutionError}
    (hreport : raised.report paginated = .executionError error)
    (heligible : isEligibleStaleFailure error = true) :
    inStaleMatrix raised = true ∨ leaksStale paginated raised = true := by
  -- Each raise is reported with its own stage, and only transport and status stages are
  -- eligible.
  cases raised with
  | callee raise =>
    cases raise with
    | executionError error =>
      simp only [Raised.report, Raised.executionError?, Thrown.executionError.injEq] at hreport
      rw [← hreport, localStage_ineligible] at heligible
      cases heligible
    | executionCancelled => simp [Raised.report, Raised.executionError?] at hreport
    | scanResourceError field safeMessage =>
      simp only [Raised.report, Raised.executionError?, Thrown.executionError.injEq] at hreport
      rw [← hreport] at heligible
      simp [isEligibleStaleFailure] at heligible
    | linkPaginationError kind field safeMessage =>
      cases paginated with
      | true =>
        simp only [Raised.report, Raised.executionError?, if_true,
          Thrown.executionError.injEq] at hreport
        rw [← hreport] at heligible
        simp [isEligibleStaleFailure] at heligible
      | false => exact Or.inr rfl
    | badAlloc =>
      simp only [Raised.report, Raised.executionError?, Thrown.executionError.injEq] at hreport
      rw [← hreport] at heligible
      simp [isEligibleStaleFailure] at heligible
    | unknown => exact Or.inr rfl
  | transportFailure safeMessage => exact Or.inr rfl
  | attemptFailure failure =>
    obtain ⟨kind, facts, attemptError⟩ := failure
    cases attemptError with
    | transport safeMessage =>
      cases hretry : isRetryableTransportFailure ⟨kind, facts, .transport safeMessage⟩ with
      | true => exact Or.inl hretry
      | false =>
        refine Or.inr ?_
        show (!isRetryableTransportFailure ⟨kind, facts, .transport safeMessage⟩) = true
        rw [hretry]
        rfl
    | callee error =>
      simp only [Raised.report, Raised.executionError?, AttemptError.toExecutionError,
        Thrown.executionError.injEq] at hreport
      rw [← hreport, localStage_ineligible] at heligible
      cases heligible
  | rateLimited status reason => exact Or.inl rfl
  | gateway response => exact Or.inl rfl
  | rejected rejection status retryAfterPresent =>
    cases rejection with
    | authentication | authorization =>
      simp only [Raised.report, Raised.executionError?, Thrown.executionError.injEq] at hreport
      rw [← hreport] at heligible
      simp [isEligibleStaleFailure] at heligible
    | nonSuccess =>
      cases hgateway : isGatewayStatus status with
      | true => exact Or.inl hgateway
      | false =>
        refine Or.inr ?_
        show (!isGatewayStatus status) = true
        rw [hgateway]
        rfl

/-- A leaking cause is reported under an eligible stage. -/
theorem leaksStale_eligible {paginated : Bool} {raised : Raised}
    (h : leaksStale paginated raised = true) :
    ∃ error, raised.report paginated = .executionError error ∧
      isEligibleStaleFailure error = true := by
  cases raised with
  | callee raise =>
    cases raise with
    | executionError | executionCancelled | scanResourceError | badAlloc => cases h
    | linkPaginationError kind field safeMessage =>
      cases paginated with
      | true => cases h
      | false => exact ⟨_, rfl, rfl⟩
    | unknown => exact ⟨_, rfl, rfl⟩
  | transportFailure safeMessage => exact ⟨_, rfl, rfl⟩
  | attemptFailure failure =>
    obtain ⟨kind, facts, attemptError⟩ := failure
    cases attemptError with
    | transport safeMessage => exact ⟨_, rfl, rfl⟩
    | callee error => cases h
  | rateLimited | gateway => cases h
  | rejected rejection status retryAfterPresent =>
    cases rejection with
    | authentication | authorization => cases h
    | nonSuccess => exact ⟨_, rfl, rfl⟩

theorem leaksStale_not_inStaleMatrix {paginated : Bool} {raised : Raised}
    (h : leaksStale paginated raised = true) : inStaleMatrix raised = false := by
  cases raised with
  | callee raise => rfl
  | transportFailure safeMessage => rfl
  | attemptFailure failure =>
    obtain ⟨kind, facts, attemptError⟩ := failure
    cases attemptError with
    | transport safeMessage =>
      have h : (!isRetryableTransportFailure ⟨kind, facts, .transport safeMessage⟩) = true := h
      exact Bool.not_eq_true' _ ▸ h
    | callee error => cases h
  | rateLimited | gateway => cases h
  | rejected rejection status retryAfterPresent =>
    cases rejection with
    | authentication | authorization => cases h
    | nonSuccess =>
      have h : (!isGatewayStatus status) = true := h
      exact Bool.not_eq_true' _ ▸ h

-- ---------------------------------------------------------------------------
-- Who sets the status
-- ---------------------------------------------------------------------------

variable {κ β : Type}

/-- A result that has not turned stale. -/
def Unturned (s : Stream κ β) (result : Scene κ β × Served β) : Prop :=
  result.1.stream.diagnosticsStatus = .staleServed → s.diagnosticsStatus = .staleServed

theorem serveStale_status (env : NextEnv) (s : Scene κ β) :
    (s.serveStale env).1.stream.diagnosticsStatus = s.stream.diagnosticsStatus := by
  unfold Scene.serveStale
  split
  · rfl
  · split <;> rfl

theorem serveFreshHit_unturned (env : NextEnv) (s : Scene κ β) :
    Unturned s.stream (s.serveFreshHit env) := by
  unfold Scene.serveFreshHit
  split
  · exact id
  · split <;> exact id

theorem serveBarrierFresh_unturned (env : NextEnv) (s : Scene κ β) :
    Unturned s.stream (s.serveBarrierFresh env) := by
  unfold Scene.serveBarrierFresh
  split
  · intro hstatus
    simpa using hstatus
  · split <;> exact id

theorem serveBarrierDrainedUncached_unturned (s : Scene κ β) :
    Unturned s.stream s.serveBarrierDrainedUncached := by
  unfold Scene.serveBarrierDrainedUncached
  split
  · exact id
  split
  · split <;> exact id
  · exact id

theorem serveBarrierDrainEmit_unturned (env : NextEnv) (s : Scene κ β) :
    Unturned s.stream (s.serveBarrierDrainEmit env) := by
  unfold Scene.serveBarrierDrainEmit
  split
  · split <;> exact id
  · dsimp only
    split
    · intro hstatus
      simpa using hstatus
    · intro hstatus
      have hturned := serveBarrierDrainedUncached_unturned _ hstatus
      simpa using hturned

/-- The barrier turns stale for an eligible failure only. -/
def TurnsFor (ending : Ending) (s : Stream κ β) (result : Scene κ β × Served β) : Prop :=
  result.1.stream.diagnosticsStatus = .staleServed → s.diagnosticsStatus = .staleServed ∨
    ∃ error, ending = .threw (.executionError error) ∧ isEligibleStaleFailure error = true

theorem failBarrier_turns (env : NextEnv) (thrown : Thrown) (s : Scene κ β) :
    TurnsFor (.threw thrown) s.stream (s.failBarrier env thrown) := by
  intro hstatus
  unfold Scene.failBarrier at hstatus
  split at hstatus
  · rename_i error
    split at hstatus
    · rename_i heligible
      exact Or.inr ⟨error, rfl, heligible⟩
    · exact Or.inl hstatus
  · exact Or.inl hstatus

variable [DecidableEq κ]

theorem acceptBarrier_turns (env : NextEnv) (s : Scene κ β) :
    TurnsFor .exhausted s.stream (s.acceptBarrier env) := by
  intro hstatus
  unfold Scene.acceptBarrier at hstatus
  dsimp only at hstatus
  have hbefore := serveBarrierFresh_unturned env _ hstatus
  dsimp only at hbefore
  split at hbefore <;> cases hbefore

theorem serveBarrierBufferingFrom_turns (env : NextEnv) (ending : Ending) (rest : List β)
    (s : Scene κ β) :
    TurnsFor ending s.stream (s.serveBarrierBufferingFrom env ending rest) := by
  induction rest generalizing s with
  | nil =>
    unfold Scene.serveBarrierBufferingFrom
    split
    · exact failBarrier_turns env _ s
    · exact acceptBarrier_turns env s
  | cons batch rest ih =>
    unfold Scene.serveBarrierBufferingFrom
    dsimp only
    obtain ⟨permit, size, ⟨hkept, hstream⟩ | ⟨hkept, hstream⟩⟩ :=
      Scene.retainCandidateBatch_stream (env.retain s.stream.cachedBatches.length) batch
        (⟨s.world, { s.stream with underlying := some ⟨rest, ending⟩ }⟩ : Scene κ β)
    · split
      · rename_i s' hresult
        rw [hresult] at hstream
        dsimp only at hstream
        intro hstatus
        rcases ih s' hstatus with hs | hcause
        · rw [hstream] at hs
          exact Or.inl hs
        · exact Or.inr hcause
      · rename_i s' hresult
        rw [hresult] at hkept
        cases hkept
    · split
      · rename_i s' hresult
        rw [hresult] at hkept
        cases hkept
      · rename_i s' hresult
        intro hstatus
        unfold Scene.abandonBarrier at hstatus
        have hbefore := serveBarrierDrainEmit_unturned env _ hstatus
        cases hbefore

theorem publishCandidate_status (env : PublishEnv) (s : Scene κ β)
    (h : (s.publishCandidate env).stream.diagnosticsStatus = .staleServed) :
    s.stream.diagnosticsStatus = .staleServed := by
  unfold Scene.publishCandidate at h
  split at h
  · exact h
  · simp only [Scene.clearCandidate_stream] at h
    split at h <;> cases h

theorem serveAccumulatingMiss_unturned (env : NextEnv) (s : Scene κ β) :
    Unturned s.stream (s.serveAccumulatingMiss env) := by
  unfold Scene.serveAccumulatingMiss
  split
  · exact id
  split
  · split
    · exact id
    · intro hstatus
      simp only [Scene.setMode_stream] at hstatus
      have hseen := publishCandidate_status env.publish
        (⟨s.world, { s.stream with sawEnd := true }⟩ : Scene κ β) hstatus
      exact hseen
  · dsimp only
    split
    · rename_i batch rest _ _
      obtain ⟨permit, size, ⟨-, hstream⟩ | ⟨-, hstream⟩⟩ :=
        Scene.retainCandidateBatch_stream (env.retain s.stream.cachedBatches.length) batch
          (⟨s.world, { s.stream with underlying := some ⟨rest, _⟩ }⟩ : Scene κ β)
      · split
        · rename_i s' hresult
          rw [hresult] at hstream
          dsimp only at hstream
          intro hstatus
          rw [hstream] at hstatus
          exact hstatus
        · intro hstatus
          simp at hstatus
      · split
        · rename_i s' hresult
          rw [hresult] at hstream
          dsimp only at hstream
          intro hstatus
          rw [hstream] at hstatus
          exact hstatus
        · intro hstatus
          simp at hstatus
    · exact id

/-- What stands behind a stale delivery: a stale candidate and an eligible
failure of the refresh. -/
def StaleCause (found : CacheLookupResult β) (origin : Script β) : Prop :=
  (∃ entry age, found = .staleCandidate entry age) ∧
    ∃ error, origin.ending = .threw (.executionError error) ∧ isEligibleStaleFailure error = true

theorem serve_turns (env : NextEnv) {s : Scene κ β} (h : Progress s.stream)
    (hstatus : (s.serve env).1.stream.diagnosticsStatus = .staleServed) :
    s.stream.diagnosticsStatus = .staleServed ∨ StaleCause s.stream.found s.stream.origin := by
  unfold Scene.serve at hstatus
  cases h with
  | freshHit entry age mode =>
    rw [mode] at hstatus
    exact Or.inl (serveFreshHit_unturned env s hstatus)
  | miss script mode =>
    rw [mode] at hstatus
    exact Or.inl (serveAccumulatingMiss_unturned env s hstatus)
  | buffering entry age script mode found candidate replay delivered underlying ending =>
    rw [mode] at hstatus
    dsimp only at hstatus
    unfold Scene.serveBarrierBuffering at hstatus
    rw [underlying] at hstatus
    refine (serveBarrierBufferingFrom_turns env script.ending script.batches s hstatus).imp_right
      fun hcause => ⟨⟨entry, age, found⟩, ?_⟩
    rw [← ending]
    exact hcause
  | accepted mode =>
    rw [mode] at hstatus
    exact Or.inl (serveBarrierFresh_unturned env s hstatus)
  | draining script mode =>
    rw [mode] at hstatus
    exact Or.inl (serveBarrierDrainEmit_unturned env s hstatus)
  | uncached script mode =>
    rw [mode] at hstatus
    exact Or.inl (serveBarrierDrainedUncached_unturned s hstatus)
  | stale entry age error mode =>
    rw [mode] at hstatus
    dsimp only at hstatus
    rw [serveStale_status] at hstatus
    exact Or.inl hstatus

-- ---------------------------------------------------------------------------
-- Every reachable state
-- ---------------------------------------------------------------------------

/-- The invariant: delivery as usual, and a cause behind every stale status. -/
structure Caused (found : CacheLookupResult β) (origin : Script β) (s : Stream κ β) : Prop where
  delivers : Delivers found origin s
  cause : s.diagnosticsStatus = .staleServed → StaleCause found origin

omit [DecidableEq κ] in
theorem rethrow_status (thrown : Thrown) (s : Scene κ β) :
    (s.rethrow thrown).1.stream.diagnosticsStatus = s.stream.diagnosticsStatus := by
  obtain ⟨_, _, _, _, _, _, hstream, -⟩ := rethrow_stream thrown s
  rw [hstream]

omit [DecidableEq κ] in
theorem finishProfile_status (outcome : ScanOutcome) (failure : Option FailureClass)
    (s : Stream κ β) : (s.finishProfile outcome failure).diagnosticsStatus = s.diagnosticsStatus := by
  unfold Stream.finishProfile
  split <;> rfl

omit [DecidableEq κ] in
theorem cancel_status (s : Scene κ β) :
    s.cancel.stream.diagnosticsStatus = s.stream.diagnosticsStatus := by
  obtain ⟨_, _, _, _, hstream, -⟩ := cancel_stream s
  rw [hstream]

omit [DecidableEq κ] in
theorem close_status (s : Scene κ β) :
    s.close.stream.diagnosticsStatus = s.stream.diagnosticsStatus := by
  cases hclosed : s.stream.closed with
  | true =>
    unfold Scene.close
    rw [hclosed]
    rfl
  | false =>
    obtain ⟨_, _, _, hstream, -⟩ := close_stream s hclosed
    rw [hstream]

variable (rowCount : β → UInt64)

/-- After serving, the call keeps the status. -/
theorem next_status (env : NextEnv) {s : Scene κ β} (hlive : Live s.stream)
    (hrequested : env.cancellationRequested = false) :
    (s.next rowCount env).1.stream.diagnosticsStatus =
      ((⟨s.world, s.stream.startProfile⟩ : Scene κ β).serve env).1.stream.diagnosticsStatus := by
  rw [next_of_live rowCount env hlive, hrequested]
  simp only [Bool.false_eq_true, if_false]
  rcases (⟨s.world, s.stream.startProfile⟩ : Scene κ β).serve env with ⟨s', served⟩
  cases served with
  | threw thrown => exact rethrow_status thrown s'
  | drained => exact finishProfile_status _ _ _
  | produced batch =>
    dsimp only
    unfold Scene.deliver
    split
    · exact rethrow_status _ s'
    · rfl

theorem next_cause {found : CacheLookupResult β} {origin : Script β} (env : NextEnv)
    {s : Scene κ β} (h : Caused found origin s.stream)
    (hstatus : (s.next rowCount env).1.stream.diagnosticsStatus = .staleServed) :
    StaleCause found origin := by
  rcases h.delivers.state with ⟨hlive, hprogress⟩ | ⟨hstopped, -⟩
  swap
  · rw [next_of_stopped rowCount env hstopped] at hstatus
    exact h.cause hstatus
  cases hrequested : env.cancellationRequested with
  | true =>
    rw [next_of_live rowCount env hlive, hrequested] at hstatus
    simp only [if_true, cancel_status] at hstatus
    exact h.cause hstatus
  | false =>
    rw [next_status rowCount env hlive hrequested] at hstatus
    obtain ⟨profile, outcome, hstream, -⟩ := startProfile_spec hlive
    rw [hstream] at hstatus
    rcases serve_turns (s := ⟨s.world, { s.stream with
        profileStarted := profile, profileOutcome := outcome }⟩) env
      (hprogress.profile _ _ _) hstatus with hs | hcause
    · exact h.cause hs
    · rw [← h.delivers.found, ← h.delivers.origin]
      exact hcause

theorem call_caused {found : CacheLookupResult β} {origin : Script β} (call : Call)
    {s : Scene κ β} (h : Caused found origin s.stream) :
    Caused found origin (call.apply rowCount s).stream := by
  refine ⟨call_delivers rowCount call h.delivers, fun hstatus => ?_⟩
  cases call with
  | next env => exact next_cause rowCount env h hstatus
  | cancel => exact h.cause (cancel_status s ▸ hstatus)
  | close => exact h.cause (close_status s ▸ hstatus)
  | destroy =>
    have hcancel : s.cancel.stream.diagnosticsStatus = .staleServed :=
      close_status s.cancel ▸ hstatus
    exact h.cause (cancel_status s ▸ hcancel)

theorem open_status (config : StreamConfig κ) (script : Script β) (now : UInt64)
    (cache : ResultCache κ β) :
    (Stream.open config script now cache).diagnosticsStatus ≠ .staleServed := by
  unfold Stream.open
  dsimp only
  split <;> exact fun h => nomatch h

/-- In every reachable state, a stale status has an eligible failure behind it. -/
theorem stale_cause {config : StreamConfig κ} {script : Script β} {now : UInt64}
    {cache : ResultCache κ β} {s : Stream κ β}
    (h : (streamMachine rowCount config script now cache).Reachable s)
    (hstatus : s.diagnosticsStatus = .staleServed) :
    StaleCause (cache.lookup config.key config.policy now) script := by
  have hcaused : Caused (cache.lookup config.key config.policy now) script s :=
    h.invariant ⟨open_delivers config script now cache,
        fun hopen => absurd hopen (open_status config script now cache)⟩
      fun s e hs => call_caused rowCount e.1 (s := ⟨e.2, s⟩) hs
  exact hcaused.cause hstatus

-- ---------------------------------------------------------------------------
-- A refresh that fails within the window
-- ---------------------------------------------------------------------------

/-- Nothing is cancelled, every batch is retained, and the clock stands where the
candidate was stored. -/
def openWindow (storedAt : UInt64) : NextEnv :=
  ⟨false, storedAt, fun _ => ⟨some 0, true, false, true⟩, ⟨0, false, false⟩, false⟩

omit [DecidableEq κ] in
/-- A batch of no bytes is retained whenever the controller agrees. -/
theorem retainCandidateBatch_free (env : RetainEnv) (hbytes : env.batchBytes = some 0)
    (hreserved : env.reserved = true) (hpush : env.pushFails = false) (batch : β) {s : Scene κ β}
    (hsize : s.stream.candidateSizeBytes ≤ s.stream.config.maxCandidateBytes) :
    ∃ permit w, s.retainCandidateBatch env batch =
      (⟨w, { s.stream with
        cachedBatches := s.stream.cachedBatches ++ [batch], candidatePermit := permit }⟩, true) := by
  have hfits : (decide ((0 : UInt64) > s.stream.config.maxCandidateBytes) ||
      decide (s.stream.candidateSizeBytes > s.stream.config.maxCandidateBytes - 0)) = false := by
    rw [UInt64.sub_zero, Bool.or_eq_false_iff, decide_eq_false_iff_not, decide_eq_false_iff_not]
    exact ⟨UInt64.not_lt.mpr UInt64.zero_le, UInt64.not_lt.mpr hsize⟩
  obtain ⟨permit, w, hreserve⟩ : ∃ permit w, s.reserveCandidateBytes env =
      (⟨w, { s.stream with candidatePermit := permit }⟩, true) := by
    unfold Scene.reserveCandidateBytes
    rw [hreserved]
    split
    · exact ⟨s.stream.candidatePermit, s.world, rfl⟩
    · split
      · exact ⟨s.stream.candidatePermit, s.world, rfl⟩
      · exact ⟨some s.world.nextPermit, _, rfl⟩
  refine ⟨permit, w, ?_⟩
  unfold Scene.retainCandidateBatch
  simp only [hbytes, hfits, hreserve, hpush, Bool.false_eq_true, if_false, Bool.not_true,
    UInt64.add_zero]

theorem serveBarrierBufferingFrom_stale {error : ExecutionError} {storedAt : UInt64}
    (heligible : isEligibleStaleFailure error = true) (rest : List β) {s : Scene κ β}
    (hsize : s.stream.candidateSizeBytes ≤ s.stream.config.maxCandidateBytes)
    (hstored : s.stream.hitStoredAtMilliseconds = storedAt)
    (hwindow : 0 < s.stream.config.policy.staleLimit) :
    (s.serveBarrierBufferingFrom (openWindow storedAt) (.threw (.executionError error))
      rest).1.stream.diagnosticsStatus = .staleServed := by
  induction rest generalizing s with
  | nil =>
    have hage : entryAge storedAt s.stream.hitStoredAtMilliseconds <
        s.stream.config.policy.staleLimit := by
      have hzero : entryAge storedAt storedAt = 0 := by simp [entryAge]
      rw [hstored, hzero]
      exact hwindow
    show (s.failBarrier (openWindow storedAt) _).1.stream.diagnosticsStatus = _
    unfold Scene.failBarrier
    dsimp only [openWindow]
    rw [heligible, if_pos rfl, if_pos hage, serveStale_status, Scene.switchToStale_stream]
  | cons batch rest ih =>
    unfold Scene.serveBarrierBufferingFrom
    dsimp only
    obtain ⟨permit, w, hretain⟩ := retainCandidateBatch_free
      ((openWindow storedAt).retain s.stream.cachedBatches.length) rfl rfl rfl batch
      (s := ⟨s.world, { s.stream with
        underlying := some ⟨rest, .threw (.executionError error)⟩ }⟩) hsize
    rw [hretain]
    exact ih hsize hstored hwindow

theorem staleLimit_pos_of_stale {cache : ResultCache κ β} {key : κ}
    {policy : FreshnessPolicy} {now : UInt64} {entry : CacheEntry β} {age : UInt64}
    (h : cache.lookup key policy now = .staleCandidate entry age) : 0 < policy.staleLimit := by
  unfold ResultCache.lookup at h
  split at h
  · cases h
  split at h
  · cases h
  split at h
  · cases h
  dsimp only at h
  split at h
  · cases h
  split at h
  · rename_i hwindow
    rw [Bool.and_eq_true, decide_eq_true_eq] at hwindow
    exact UInt64.lt_of_le_of_lt (UInt64.zero_le) hwindow.2
  · cases h

/-- A stale candidate and an eligible failure are enough for a stale delivery. -/
theorem stale_reachable {config : StreamConfig κ} {script : Script β} {now : UInt64}
    {cache : ResultCache κ β}
    (h : StaleCause (cache.lookup config.key config.policy now) script) :
    ∃ s, (streamMachine rowCount config script now cache).Reachable s ∧
      s.diagnosticsStatus = .staleServed := by
  obtain ⟨⟨entry, age, hfound⟩, error, hending, heligible⟩ := h
  let env := openWindow entry.storedAtMilliseconds
  let w : World κ β := ⟨cache, [], [], 0, 0⟩
  let opened := Stream.open config script now cache
  refine ⟨_, .step (.next env, w) .start, ?_⟩
  have hopened : opened = { opened with
      mode := .barrierBuffering, underlying := some script, candidateSizeBytes := 0
      hitStoredAtMilliseconds := entry.storedAtMilliseconds, config := config } := by
    show Stream.open config script now cache = _
    unfold opened Stream.open
    rw [hfound]
  have hlive : Live opened := by
    rw [hopened]
    unfold opened Stream.open
    rw [hfound]
    exact ⟨rfl, rfl, rfl, Or.inl rfl, rfl⟩
  show ((⟨w, opened⟩ : Scene κ β).next rowCount env).1.stream.diagnosticsStatus = _
  rw [next_status rowCount env hlive rfl]
  obtain ⟨profile, outcome, hstream, -⟩ := startProfile_spec hlive
  dsimp only
  rw [hstream, hopened]
  show (Scene.serveBarrierBufferingFrom env script.ending script.batches
    _).1.stream.diagnosticsStatus = _
  rw [hending]
  exact serveBarrierBufferingFrom_stale heligible script.batches (UInt64.zero_le) rfl
    (staleLimit_pos_of_stale hfound)

-- ---------------------------------------------------------------------------
-- The contract
-- ---------------------------------------------------------------------------

/-- A finished scan over REST as the stream a cached stream wraps. -/
def restScript (profile : RestProfile) (scan : List β × Option Raised) : Script β :=
  ⟨scan.1, match scan.2 with
    | none => .exhausted
    | some raised => .threw (raised.report profile.paginated)⟩

/-- The barrier keeps to the contract exactly when no stale candidate meets a
failure that leaks. -/
theorem stale_served_exactly_when_declared {config : StreamConfig κ} {now : UInt64}
    {cache : ResultCache κ β} (profile : RestProfile) (pages : List (RestProfile.PageEnv β)) :
    ∀ scan, profile.runScan pages = some scan →
      ((∀ s, (streamMachine rowCount config (restScript profile scan) now cache).Reachable s →
          s.diagnosticsStatus = .staleServed →
          ∃ raised, scan.2 = some raised ∧ inStaleMatrix raised = true) ↔
        ¬((∃ entry age, cache.lookup config.key config.policy now = .staleCandidate entry age) ∧
          ∃ raised, scan.2 = some raised ∧ leaksStale profile.paginated raised = true)) := by
  intro scan _
  constructor
  · rintro hcontract ⟨hcandidate, raised, hraised, hleaks⟩
    obtain ⟨error, hreport, heligible⟩ := leaksStale_eligible hleaks
    have hending : (restScript profile scan).ending = .threw (.executionError error) := by
      simp only [restScript, hraised, hreport]
    obtain ⟨s, hs, hstatus⟩ := stale_reachable rowCount ⟨hcandidate, error, hending, heligible⟩
    obtain ⟨raised', hraised', hmatrix⟩ := hcontract s hs hstatus
    rw [hraised, Option.some.injEq] at hraised'
    rw [← hraised', leaksStale_not_inStaleMatrix hleaks] at hmatrix
    cases hmatrix
  · intro hleaks s hs hstatus
    obtain ⟨hcandidate, error, hending, heligible⟩ := stale_cause rowCount hs hstatus
    cases hraised : scan.2 with
    | none =>
      simp only [restScript, hraised] at hending
      cases hending
    | some raised =>
      simp only [restScript, hraised, Ending.threw.injEq] at hending
      refine ⟨raised, rfl, ?_⟩
      rcases report_eligible hending heligible with hmatrix | hleak
      · exact hmatrix
      · exact absurd ⟨hcandidate, raised, hraised, hleak⟩ hleaks

-- ---------------------------------------------------------------------------
-- Two refreshes
-- ---------------------------------------------------------------------------

/-- A single-response scan with a bearer token, no repeats and no declared rate
limit. -/
def plainProfile : RestProfile :=
  ⟨false, true, false, ⟨1, 1⟩, ⟨false, .fail, [], false⟩, 1⟩

/-- A complete response without a body. -/
def answered (status : UInt32) : CurlRun :=
  ⟨.ready, 1000, .ok, some status, false,
    ⟨100, 0, 0, false, false, false, false, false, false, false, false, false, false, false, false,
      false⟩, .unknown⟩

def answeredPage (status : UInt32) : RestProfile.PageEnv Nat :=
  ⟨none, [⟨none, .go, none, answered status, false, none, .go, false, none⟩], none, none, [], none⟩

theorem stale_served_exactly_when_declared_for_503 :
    plainProfile.runScan [answeredPage 503] =
        some ([], some (.gateway ⟨⟨503, 100, 0, 0, false⟩, rfl⟩)) ∧
      ∀ s, (streamMachine (fun _ => 1) staleConfig
          (restScript plainProfile ([], some (.gateway ⟨⟨503, 100, 0, 0, false⟩, rfl⟩))) 100
          staleStore).Reachable s →
        s.diagnosticsStatus = .staleServed →
        ∃ raised, some (Raised.gateway ⟨⟨503, 100, 0, 0, false⟩, rfl⟩) = some raised ∧
          inStaleMatrix raised = true := by
  refine ⟨by decide, (stale_served_exactly_when_declared (fun _ => 1) plainProfile
    [answeredPage 503] _ (by decide)).mpr ?_⟩
  rintro ⟨-, raised, hraised, hleaks⟩
  obtain rfl := Option.some.inj hraised
  cases hleaks

/-- A 404 answers the refresh, and the stale rows are served. -/
theorem not_found_serves_stale :
    plainProfile.runScan [answeredPage 404] = some ([], some (.rejected .nonSuccess 404 false)) ∧
      inStaleMatrix (.rejected .nonSuccess 404 false) = false ∧
      ((streamMachine (fun _ => 1) staleConfig
          (restScript plainProfile ([], some (.rejected .nonSuccess 404 false))) 100
          staleStore).run [(.next tenBytes, staleWorld)]).diagnosticsStatus = .staleServed ∧
      ((streamMachine (fun _ => 1) staleConfig
          (restScript plainProfile ([], some (.rejected .nonSuccess 404 false))) 100
          staleStore).run [(.next tenBytes, staleWorld)]).delivered = [10] := by
  decide

end Cuac.Cache

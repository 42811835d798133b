import Cuac.Cache.Delivery

/-!
# Cache — publication

What streams that share one cache do to it. A call either leaves every resident
entry alone (`Quiet`) or makes one complete scan resident (`Publishes`), and in
both cases the permits stay with their owners: a candidate, or an entry
somebody still owns.

`Candidate` says, mode by mode, what the private buffer is worth; `Honest` is
the invariant of one stream.

Main results:

* `serve_effect` — what one serving call does to the cache and the permits.
* `call_honest` — every call keeps a stream honest.
* `call_of_stopped` — a stopped stream leaves the cache alone.
-/

namespace Cuac.Cache

open Cuac.Lib Cuac.Runtime

variable {κ β : Type}

-- ---------------------------------------------------------------------------
-- Permits and their owners
-- ---------------------------------------------------------------------------

def permitsOf (entries : List (CacheEntry β)) : List Permit :=
  entries.filterMap CacheEntry.admissionPermit

/-- The entries a stream owns a share of. -/
def Stream.pins (s : Stream κ β) : List (CacheEntry β) :=
  s.replayEntry.toList ++ s.staleEntry.toList

/-- The live permits are the candidate's, the ones of the entries still
allocated and `others`, each of them once. -/
structure Held (others : List Permit) (s : Scene κ β) : Prop where
  owned : (s.stream.candidatePermit.toList ++ (others ++ permitsOf s.world.allocated)).Perm
    s.world.live
  distinct : s.world.live.Nodup
  issued : ∀ p ∈ s.world.live, p < s.world.nextPermit

/-- A step that makes nothing resident and takes nothing away. -/
structure Quiet (s s' : Scene κ β) : Prop where
  config : s'.stream.config = s.stream.config
  origin : s'.stream.origin = s.stream.origin
  published : s'.stream.published = s.stream.published
  entries : s'.world.cache.entries = s.world.cache.entries
  allocated : s'.world.allocated = s.world.allocated
  nextEntry : s'.world.nextEntry = s.world.nextEntry
  pins : ∀ x ∈ s'.stream.pins, x ∈ s.stream.pins
  held : ∀ others, Held others s → Held others s'

theorem Quiet.refl (s : Scene κ β) : Quiet s s :=
  ⟨rfl, rfl, rfl, rfl, rfl, rfl, fun _ h => h, fun _ h => h⟩

theorem Quiet.trans {a b c : Scene κ β} (hab : Quiet a b) (hbc : Quiet b c) : Quiet a c where
  config := hbc.config.trans hab.config
  origin := hbc.origin.trans hab.origin
  published := hbc.published.trans hab.published
  entries := hbc.entries.trans hab.entries
  allocated := hbc.allocated.trans hab.allocated
  nextEntry := hbc.nextEntry.trans hab.nextEntry
  pins := fun x hx => hab.pins x (hbc.pins x hx)
  held := fun others h => hbc.held others (hab.held others h)

/-- A change of the stream alone that keeps its permit is quiet. -/
theorem Quiet.of_stream {s : Scene κ β} {t : Stream κ β} (hconfig : t.config = s.stream.config)
    (horigin : t.origin = s.stream.origin) (hpublished : t.published = s.stream.published)
    (hpermit : t.candidatePermit = s.stream.candidatePermit)
    (hpins : ∀ x ∈ t.pins, x ∈ s.stream.pins) : Quiet s ⟨s.world, t⟩ where
  config := hconfig
  origin := horigin
  published := hpublished
  entries := rfl
  allocated := rfl
  nextEntry := rfl
  pins := hpins
  held := fun others h => ⟨by
    show (t.candidatePermit.toList ++ _).Perm _
    rw [hpermit]
    exact h.owned, h.distinct, h.issued⟩

theorem releaseCandidatePermit_quiet (s : Scene κ β) : Quiet s s.releaseCandidatePermit := by
  unfold Scene.releaseCandidatePermit
  split
  · exact .refl s
  · rename_i permit hpermit
    refine ⟨rfl, rfl, rfl, rfl, rfl, rfl, fun _ h => h, fun others h => ⟨?_, ?_, ?_⟩⟩
    · have howned := h.owned
      rw [hpermit] at howned
      have herase := howned.erase permit
      rw [Option.toList_some, List.singleton_append, List.erase_cons_head] at herase
      exact herase
    · exact h.distinct.erase permit
    · exact fun p hp => h.issued p (List.mem_of_mem_erase hp)

theorem clearCandidate_quiet (s : Scene κ β) : Quiet s s.clearCandidate :=
  (releaseCandidatePermit_quiet s).trans (.of_stream rfl rfl rfl rfl fun _ h => h)

theorem clearReplayEntries_quiet (s : Scene κ β) : Quiet s s.clearReplayEntries :=
  .of_stream rfl rfl rfl rfl fun x hx => by simp [Stream.pins] at hx

theorem reserveCandidateBytes_quiet (env : RetainEnv) (s : Scene κ β) :
    Quiet s (s.reserveCandidateBytes env).1 := by
  unfold Scene.reserveCandidateBytes
  split
  · exact .refl s
  split
  · exact .refl s
  rename_i hnone
  split
  · -- a fresh permit
    refine ⟨rfl, rfl, rfl, rfl, rfl, rfl, fun _ h => h, fun others h => ⟨?_, ?_, ?_⟩⟩
    · have howned := h.owned
      rw [hnone] at howned
      exact howned.cons s.world.nextPermit
    · exact List.nodup_cons.mpr
        ⟨fun hmem => Nat.lt_irrefl _ (h.issued _ hmem), h.distinct⟩
    · intro p hp
      rcases List.mem_cons.mp hp with rfl | hp
      · exact Nat.lt_succ_self _
      · exact Nat.lt_succ_of_lt (h.issued p hp)
  · exact .refl s

theorem rollBackCandidateReservation_quiet (env : RetainEnv) (size : UInt64) (s : Scene κ β) :
    Quiet s (s.rollBackCandidateReservation env size) := by
  unfold Scene.rollBackCandidateReservation
  split
  · exact .refl s
  split
  · exact releaseCandidatePermit_quiet s
  split
  · exact .refl s
  · exact releaseCandidatePermit_quiet s

theorem retainCandidateBatch_quiet (env : RetainEnv) (batch : β) (s : Scene κ β) :
    Quiet s (s.retainCandidateBatch env batch).1 := by
  unfold Scene.retainCandidateBatch
  split
  · exact .refl s
  dsimp only
  split
  · exact .refl s
  have hreserve := reserveCandidateBytes_quiet env s
  split
  · exact hreserve
  split
  · exact hreserve.trans (rollBackCandidateReservation_quiet env _ _)
  · exact hreserve.trans (.of_stream rfl rfl rfl rfl fun _ h => h)

-- ---------------------------------------------------------------------------
-- Publishing
-- ---------------------------------------------------------------------------

/-- A step that makes the stream's complete scan resident. -/
structure Publishes (s s' : Scene κ β) (entry : CacheEntry β) : Prop where
  config : s'.stream.config = s.stream.config
  origin : s'.stream.origin = s.stream.origin
  before : s.stream.published = none
  published : s'.stream.published = some entry
  complete : entry.batches = s.stream.origin.batches
  ended : s.stream.origin.ending = .exhausted
  entries : ∀ kv ∈ s'.world.cache.entries, kv ∈ s.world.cache.entries ∨
    (kv.1 = s.stream.config.key ∧ kv.2.entry = entry)
  allocated : s'.world.allocated = s.world.allocated ++ [entry]
  id : entry.id = s.world.nextEntry
  nextEntry : s'.world.nextEntry = s.world.nextEntry + 1
  pins : ∀ x ∈ s'.stream.pins, x ∈ s.stream.pins ∨ x = entry
  held : ∀ others, Held others s → Held others s'

theorem Publishes.quiet {a b c : Scene κ β} {entry : CacheEntry β} (hab : Publishes a b entry)
    (hbc : Quiet b c) : Publishes a c entry where
  config := hbc.config.trans hab.config
  origin := hbc.origin.trans hab.origin
  before := hab.before
  published := hbc.published.trans hab.published
  complete := hab.complete
  ended := hab.ended
  entries := fun kv hkv => hab.entries kv (hbc.entries ▸ hkv)
  allocated := hbc.allocated.trans hab.allocated
  id := hab.id
  nextEntry := hbc.nextEntry.trans hab.nextEntry
  pins := fun x hx => hab.pins x (hbc.pins x hx)
  held := fun others h => hbc.held others (hab.held others h)

theorem Quiet.publishes {a b c : Scene κ β} {entry : CacheEntry β} (hab : Quiet a b)
    (hbc : Publishes b c entry) : Publishes a c entry where
  config := hbc.config.trans hab.config
  origin := hbc.origin.trans hab.origin
  before := hab.published.symm.trans hbc.before
  published := hbc.published
  complete := hbc.complete.trans (by rw [hab.origin])
  ended := by rw [← hab.origin]; exact hbc.ended
  entries := fun kv hkv => by
    have := hbc.entries kv hkv
    rwa [hab.entries, hab.config] at this
  allocated := by rw [hbc.allocated, hab.allocated]
  id := hbc.id.trans hab.nextEntry
  nextEntry := by rw [hbc.nextEntry, hab.nextEntry]
  pins := fun x hx => (hbc.pins x hx).imp_left (hab.pins x)
  held := fun others h => hbc.held others (hab.held others h)

/-- The stream that has published may own a share of its entry. -/
theorem Publishes.of_stream {a b : Scene κ β} {entry : CacheEntry β} {t : Stream κ β}
    (h : Publishes a b entry) (hconfig : t.config = b.stream.config)
    (horigin : t.origin = b.stream.origin) (hpublished : t.published = b.stream.published)
    (hpermit : t.candidatePermit = b.stream.candidatePermit)
    (hpins : ∀ x ∈ t.pins, x ∈ b.stream.pins ∨ x = entry) : Publishes a ⟨b.world, t⟩ entry where
  config := hconfig.trans h.config
  origin := horigin.trans h.origin
  before := h.before
  published := hpublished.trans h.published
  complete := h.complete
  ended := h.ended
  entries := h.entries
  allocated := h.allocated
  id := h.id
  nextEntry := h.nextEntry
  pins := fun x hx => (hpins x hx).elim (h.pins x) Or.inr
  held := fun others hheld => by
    obtain ⟨howned, hdistinct, hissued⟩ := h.held others hheld
    refine ⟨?_, hdistinct, hissued⟩
    show (t.candidatePermit.toList ++ _).Perm _
    rw [hpermit]
    exact howned

/-- What a call does to the world. -/
def Effect (s s' : Scene κ β) : Prop :=
  Quiet s s' ∨ ∃ entry, Publishes s s' entry

theorem Effect.quiet {a b c : Scene κ β} (hab : Effect a b) (hbc : Quiet b c) : Effect a c := by
  rcases hab with hq | ⟨entry, hp⟩
  · exact Or.inl (hq.trans hbc)
  · exact Or.inr ⟨entry, hp.quiet hbc⟩

theorem Quiet.effect {a b c : Scene κ β} (hab : Quiet a b) (hbc : Effect b c) : Effect a c := by
  rcases hbc with hq | ⟨entry, hp⟩
  · exact Or.inl (hab.trans hq)
  · exact Or.inr ⟨entry, hab.publishes hp⟩

/-- One call publishes at most once. -/
theorem Effect.trans {a b c : Scene κ β} (hab : Effect a b) (hbc : Effect b c) : Effect a c := by
  rcases hab with hq | ⟨entry, hp⟩
  · exact hq.effect hbc
  · rcases hbc with hq | ⟨other, hp'⟩
    · exact Or.inr ⟨entry, hp.quiet hq⟩
    · have hbefore := hp'.before
      rw [hp.published] at hbefore
      cases hbefore

-- ---------------------------------------------------------------------------
-- What the private buffer is worth
-- ---------------------------------------------------------------------------

/-- What a serving stream may do with its buffer, its permit and the cache. -/
inductive Candidate (s : Stream κ β) : Prop
  | idle (mode : s.mode = .freshHitReplay ∨ s.mode = .staleServe)
      (permit : s.candidatePermit = none) (published : s.published = none)
  | retaining (mode : s.mode = .accumulatingMiss) (cacheable : s.candidateCacheable = true)
      (buffer : s.cachedBatches = s.delivered) (abandoned : s.abandoned = false)
      (published : s.published = none)
  | bypassing (mode : s.mode = .accumulatingMiss) (cacheable : s.candidateCacheable = false)
      (permit : s.candidatePermit = none) (published : s.published = none)
  | buffering (mode : s.mode = .barrierBuffering) (abandoned : s.abandoned = false)
      (published : s.published = none)
  | accepted (mode : s.mode = .barrierFreshServe)
  | draining (mode : s.mode = .barrierDrainEmit) (published : s.published = none)
  | uncached (mode : s.mode = .barrierDrainedUncached) (permit : s.candidatePermit = none)
      (published : s.published = none)

/-- A stream that has published has seen a clean end, has retained everything,
and has published all of it. -/
def Sound (s : Stream κ β) : Prop :=
  ∀ entry, s.published = some entry → s.sawEnd = true ∧ s.abandoned = false ∧
    entry.batches = s.origin.batches ∧ s.origin.ending = .exhausted

theorem sound_of_unpublished {s : Stream κ β} (h : s.published = none) : Sound s := by
  intro entry hentry
  rw [h] at hentry
  cases hentry

/-- What a serving call leaves of the candidate. -/
structure After (s : Stream κ β) (result : Scene κ β × Served β) : Prop where
  sound : Sound result.1.stream
  produced : ∀ batch, result.2 = .produced batch →
    Candidate { result.1.stream with delivered := s.delivered ++ [batch] }
  drained : result.2 = .drained → result.1.stream.candidatePermit = none

/-- The candidate of a call that cannot publish any more. -/
theorem After.of_unpublished {s : Stream κ β} {result : Scene κ β × Served β}
    (hpublished : result.1.stream.published = none)
    (hproduced : ∀ batch, result.2 = .produced batch →
      Candidate { result.1.stream with delivered := s.delivered ++ [batch] })
    (hdrained : result.2 = .drained → result.1.stream.candidatePermit = none) :
    After s result :=
  ⟨sound_of_unpublished hpublished, hproduced, hdrained⟩

/-- Only the delivered batches of the stream before the call matter. -/
theorem After.of_delivered {s t : Stream κ β} {result : Scene κ β × Served β}
    (hdelivered : t.delivered = s.delivered) (h : After t result) : After s result :=
  ⟨h.sound, fun batch hb => hdelivered ▸ h.produced batch hb, h.drained⟩

/-- What a serving call does to the world and to the candidate. -/
def Settles (s : Scene κ β) (result : Scene κ β × Served β) : Prop :=
  Effect s result.1 ∧ After s.stream result

theorem Settles.of_effect {s t : Scene κ β} {result : Scene κ β × Served β} (heffect : Effect s t)
    (hdelivered : t.stream.delivered = s.stream.delivered) (h : Settles t result) :
    Settles s result :=
  ⟨heffect.trans h.1, h.2.of_delivered hdelivered⟩

theorem Settles.of_quiet {s t : Scene κ β} {result : Scene κ β × Served β} (hquiet : Quiet s t)
    (hdelivered : t.stream.delivered = s.stream.delivered) (h : Settles t result) :
    Settles s result :=
  .of_effect (.inl hquiet) hdelivered h

theorem serveFreshHit_effect (env : NextEnv) {s : Scene κ β}
    (mode : s.stream.mode = .freshHitReplay) (permit : s.stream.candidatePermit = none)
    (published : s.stream.published = none) :
    Settles s (s.serveFreshHit env) := by
  unfold Scene.serveFreshHit
  split
  · refine ⟨.inl (.of_stream rfl rfl rfl rfl fun x hx => ?_), .of_unpublished published
      (fun _ h => nomatch h) fun _ => permit⟩
    exact List.mem_append_right _ hx
  · split
    · exact ⟨.inl (.refl s), .of_unpublished published (fun _ h => nomatch h) fun _ => permit⟩
    · exact ⟨.inl (.of_stream rfl rfl rfl rfl fun _ h => h), .of_unpublished published
        (fun _ _ => .idle (Or.inl mode) permit published) fun _ => permit⟩

theorem serveStale_effect (env : NextEnv) {s : Scene κ β}
    (mode : s.stream.mode = .staleServe) (permit : s.stream.candidatePermit = none)
    (published : s.stream.published = none) :
    Settles s (s.serveStale env) := by
  unfold Scene.serveStale
  split
  · refine ⟨.inl (.of_stream rfl rfl rfl rfl fun x hx => ?_), .of_unpublished published
      (fun _ h => nomatch h) fun _ => permit⟩
    have hx : x ∈ s.stream.replayEntry.toList := by simpa [Stream.pins] using hx
    exact List.mem_append_left _ hx
  · split
    · exact ⟨.inl (.refl s), .of_unpublished published (fun _ h => nomatch h) fun _ => permit⟩
    · exact ⟨.inl (.of_stream rfl rfl rfl rfl fun _ h => h), .of_unpublished published
        (fun _ _ => .idle (Or.inr mode) permit published) fun _ => permit⟩

theorem serveBarrierFresh_effect (env : NextEnv) {s : Scene κ β}
    (mode : s.stream.mode = .barrierFreshServe) (sound : Sound s.stream) :
    Settles s (s.serveBarrierFresh env) := by
  unfold Scene.serveBarrierFresh
  split
  · let dropped : Scene κ β := ⟨s.world, { s.stream with replayEntry := none }⟩
    have hdropped : Quiet s dropped :=
      .of_stream rfl rfl rfl rfl fun x hx => List.mem_append_right _ hx
    have hcleared := hdropped.trans (clearCandidate_quiet dropped)
    refine ⟨.inl (hcleared.trans (.of_stream rfl rfl rfl rfl fun _ h => h)), ?_,
      (fun _ h => nomatch h), fun _ => ?_⟩
    · simp only [Scene.setMode_stream, Scene.clearCandidate_stream]
      exact sound
    · simp only [Scene.setMode_stream, Scene.clearCandidate_stream]
  · split
    · exact ⟨.inl (.refl s), sound, (fun _ h => nomatch h), fun h => nomatch h⟩
    · exact ⟨.inl (.of_stream rfl rfl rfl rfl fun _ h => h), sound, (fun _ _ => .accepted mode),
        fun h => nomatch h⟩

theorem serveBarrierDrainedUncached_effect {s : Scene κ β}
    (mode : s.stream.mode = .barrierDrainedUncached) (permit : s.stream.candidatePermit = none)
    (published : s.stream.published = none) :
    Settles s s.serveBarrierDrainedUncached := by
  unfold Scene.serveBarrierDrainedUncached
  split
  · exact ⟨.inl (.of_stream rfl rfl rfl rfl fun _ h => h), .of_unpublished published
      (fun _ h => nomatch h) fun _ => permit⟩
  split
  · split
    · exact ⟨.inl (.refl s), .of_unpublished published (fun _ h => nomatch h) fun _ => permit⟩
    · exact ⟨.inl (.of_stream rfl rfl rfl rfl fun _ h => h), .of_unpublished published
        (fun _ h => nomatch h) fun _ => permit⟩
  · exact ⟨.inl (.of_stream rfl rfl rfl rfl fun _ h => h), .of_unpublished published
      (fun _ _ => .uncached mode permit published) fun _ => permit⟩

theorem serveBarrierDrainEmit_effect (env : NextEnv) {s : Scene κ β}
    (mode : s.stream.mode = .barrierDrainEmit) (published : s.stream.published = none) :
    Settles s (s.serveBarrierDrainEmit env) := by
  unfold Scene.serveBarrierDrainEmit
  split
  · split
    · exact ⟨.inl (.refl s), .of_unpublished published (fun _ h => nomatch h) fun h => nomatch h⟩
    · exact ⟨.inl (.of_stream rfl rfl rfl rfl fun _ h => h), .of_unpublished published
        (fun _ _ => .draining mode published) fun h => nomatch h⟩
  · dsimp only
    have hcleared := clearCandidate_quiet s
    split
    · refine ⟨.inl (hcleared.trans (.of_stream rfl rfl rfl rfl fun _ h => h)), .of_unpublished ?_
        (fun _ _ => .draining ?_ ?_) fun h => nomatch h⟩ <;>
        simp only [Scene.clearCandidate_stream]
      · exact published
      · exact mode
      · exact published
    · let turned : Scene κ β := ⟨s.clearCandidate.world, { s.clearCandidate.stream with
        replayIndex := 0, mode := .barrierDrainedUncached }⟩
      have hturned : Quiet s turned :=
        hcleared.trans (.of_stream rfl rfl rfl rfl fun _ h => h)
      have hdelivered : turned.stream.delivered = s.stream.delivered := by
        simp only [turned, Scene.clearCandidate_stream]
      have hsettles := serveBarrierDrainedUncached_effect (s := turned) rfl
        (by simp only [turned, Scene.clearCandidate_stream])
        (by simp only [turned, Scene.clearCandidate_stream, published])
      exact Settles.of_quiet hturned hdelivered hsettles

theorem switchToStale_quiet (age : UInt64) (error : ExecutionError) (s : Scene κ β) :
    Quiet s (s.switchToStale age error) := by
  have hswitched : Quiet s ⟨s.world, { s.stream with
      deliveryAgeMilliseconds := age
      staleCauseFailureClass := failureClassFromError error
      diagnosticsStatus := .staleServed
      mode := .staleServe
      replayIndex := 0
      underlying := none }⟩ := .of_stream rfl rfl rfl rfl fun _ h => h
  exact hswitched.trans (clearCandidate_quiet _)

theorem failBarrier_effect (env : NextEnv) {s : Scene κ β} (thrown : Thrown)
    (published : s.stream.published = none) :
    Settles s (s.failBarrier env thrown) := by
  unfold Scene.failBarrier
  split
  · rename_i error
    split
    · dsimp only
      split
      · have hswitched := switchToStale_quiet
          (entryAge env.now s.stream.hitStoredAtMilliseconds) error s
        have hsettles := serveStale_effect env
          (s := s.switchToStale (entryAge env.now s.stream.hitStoredAtMilliseconds) error)
          (by simp only [Scene.switchToStale_stream])
          (by simp only [Scene.switchToStale_stream])
          (by simp only [Scene.switchToStale_stream, published])
        exact Settles.of_quiet hswitched (by simp only [Scene.switchToStale_stream]) hsettles
      · exact ⟨.inl (.of_stream rfl rfl rfl rfl fun _ h => h), .of_unpublished published
          (fun _ h => nomatch h) fun h => nomatch h⟩
    · exact ⟨.inl (.of_stream rfl rfl rfl rfl fun _ h => h), .of_unpublished published
        (fun _ h => nomatch h) fun h => nomatch h⟩
  · exact ⟨.inl (.of_stream rfl rfl rfl rfl fun _ h => h), .of_unpublished published
      (fun _ h => nomatch h) fun h => nomatch h⟩

-- ---------------------------------------------------------------------------
-- Calls that serve nothing
-- ---------------------------------------------------------------------------

/-- The invariant of one stream between calls. -/
structure Honest (s : Stream κ β) : Prop where
  sound : Sound s
  state : (Live s ∧ Progress s ∧ Candidate s) ∨ (Stopped s ∧ s.candidatePermit = none)

theorem finishProfile_quiet (outcome : ScanOutcome) (failure : Option FailureClass)
    (w : World κ β) (s : Stream κ β) : Quiet ⟨w, s⟩ ⟨w, s.finishProfile outcome failure⟩ := by
  unfold Stream.finishProfile
  split <;> exact .of_stream rfl rfl rfl rfl fun _ h => h

/-- Dropping every buffer and finishing the profile. -/
theorem clearAll_quiet (outcome : ScanOutcome) (failure : Option FailureClass) (s : Scene κ β) :
    Quiet s ⟨s.clearCandidate.clearReplayEntries.world,
      s.clearCandidate.clearReplayEntries.stream.finishProfile outcome failure⟩ := by
  have hcleared := (clearCandidate_quiet s).trans (clearReplayEntries_quiet _)
  exact hcleared.trans (finishProfile_quiet _ _ _ _)

theorem rethrow_quiet (thrown : Thrown) (s : Scene κ β) : Quiet s (s.rethrow thrown).1 := by
  unfold Scene.rethrow
  split
  · have hnoted : Quiet s ⟨s.world, { s.stream with cancelled := true }⟩ :=
      .of_stream rfl rfl rfl rfl fun _ h => h
    exact hnoted.trans (clearAll_quiet _ _ _)
  · have hnoted : Quiet s
        ⟨s.world, { s.stream with terminalException := some thrown, mode := .failed }⟩ :=
      .of_stream rfl rfl rfl rfl fun _ h => h
    exact hnoted.trans (clearAll_quiet _ _ _)

theorem rethrow_honest (thrown : Thrown) {s : Scene κ β} (hsound : Sound s.stream) :
    Honest (s.rethrow thrown).1.stream := by
  obtain ⟨cancelled, exception, mode, outcome, finished, failure, hstream, hwhy, -⟩ :=
    rethrow_stream thrown s
  rw [hstream]
  refine ⟨hsound, Or.inr ⟨?_, rfl⟩⟩
  rcases hwhy with hcancelled | hexception
  · exact Or.inr (Or.inl hcancelled)
  · exact Or.inr (Or.inr (Or.inl hexception))

theorem cancel_quiet (s : Scene κ β) : Quiet s s.cancel := by
  have hnoted : Quiet s (if s.stream.profileFinished then s
      else ⟨s.world, { s.stream with cancelled := true }.finishProfile .cancelled none⟩) := by
    split
    · exact .refl s
    · have hflag : Quiet s ⟨s.world, { s.stream with cancelled := true }⟩ :=
        .of_stream rfl rfl rfl rfl fun _ h => h
      exact hflag.trans (finishProfile_quiet _ _ _ _)
  have hcleared := hnoted.trans (.trans (clearCandidate_quiet _) (clearReplayEntries_quiet _))
  exact hcleared.trans (.of_stream rfl rfl rfl rfl fun _ h => h)

theorem cancel_honest {s : Scene κ β} (h : Honest s.stream) : Honest s.cancel.stream := by
  have hstopped : Stopped s.cancel.stream :=
    cancel_stopped (h.state.imp (fun hl => hl.1) fun hs => hs.1)
  obtain ⟨cancelled, outcome, finished, failure, hstream, -, -⟩ := cancel_stream s
  rw [hstream] at hstopped ⊢
  exact ⟨h.sound, Or.inr ⟨hstopped, rfl⟩⟩

theorem close_quiet (s : Scene κ β) : Quiet s s.close := by
  unfold Scene.close
  split
  · exact .refl s
  dsimp only
  have hflag : Quiet s ⟨s.world, { s.stream with closed := true }⟩ :=
    .of_stream rfl rfl rfl rfl fun _ h => h
  have hnoted : Quiet s ⟨s.world, if s.stream.profileFinished then { s.stream with closed := true }
      else { s.stream with closed := true }.finishProfile .closed none⟩ := by
    split
    · exact hflag
    · exact hflag.trans (finishProfile_quiet _ _ _ _)
  have hcleared := hnoted.trans (.trans (clearCandidate_quiet _) (clearReplayEntries_quiet _))
  exact hcleared.trans (.of_stream rfl rfl rfl rfl fun _ h => h)

theorem close_honest {s : Scene κ β} (h : Honest s.stream) : Honest s.close.stream := by
  cases hclosed : s.stream.closed with
  | true =>
    unfold Scene.close
    rw [hclosed]
    exact h
  | false =>
    obtain ⟨outcome, finished, failure, hstream, -⟩ := close_stream s hclosed
    rw [hstream]
    exact ⟨h.sound, Or.inr ⟨Or.inl rfl, rfl⟩⟩

/-- Counters are no part of the candidate. -/
theorem Candidate.profile {s : Stream κ β} (h : Candidate s) (rows : UInt64) (started : Bool)
    (outcome : ScanOutcome) :
    Candidate { s with
      rowsReturned := rows, profileStarted := started, profileOutcome := outcome } := by
  cases h with
  | idle mode permit published => exact .idle mode permit published
  | retaining mode cacheable buffer abandoned published =>
    exact .retaining mode cacheable buffer abandoned published
  | bypassing mode cacheable permit published => exact .bypassing mode cacheable permit published
  | buffering mode abandoned published => exact .buffering mode abandoned published
  | accepted mode => exact .accepted mode
  | draining mode published => exact .draining mode published
  | uncached mode permit published => exact .uncached mode permit published

variable [DecidableEq κ]

/-- Publishing a complete buffer: refused and quiet, or resident with its permit
moved along. -/
theorem publishReserved_effect (env : PublishEnv) {s : Scene κ β}
    (hbefore : s.stream.published = none) (hended : s.stream.origin.ending = .exhausted)
    (hcomplete : s.stream.cachedBatches = s.stream.origin.batches) :
    ((s.publishReserved env).2 = none ∧ Quiet s (s.publishReserved env).1) ∨
      ∃ entry, (s.publishReserved env).2 = some entry ∧
        Publishes s (s.publishReserved env).1 entry := by
  unfold Scene.publishReserved
  dsimp only
  split
  · rename_i cache hrefused
    refine Or.inl ⟨rfl, rfl, rfl, rfl, publishReserved_refused hrefused, rfl, rfl,
      fun _ h => h, fun others h => ⟨h.owned, h.distinct, h.issued⟩⟩
  · rename_i cache hpublished
    refine Or.inr ⟨_, rfl, rfl, rfl, hbefore, rfl, hcomplete, hended, ?_, rfl, rfl, rfl,
      fun x hx => Or.inl hx, fun others h => ⟨?_, h.distinct, h.issued⟩⟩
    · intro kv hkv
      rcases publishReserved_resident hpublished hkv with hold | ⟨-, hkey, hentry⟩
      · exact Or.inl hold
      · exact Or.inr ⟨hkey, hentry⟩
    · -- the permit moves from the candidate to the entry
      refine List.Perm.trans ?_ h.owned
      simp only [Option.toList_none, List.nil_append, permitsOf, List.filterMap_append]
      cases s.stream.candidatePermit with
      | none => simp
      | some permit =>
        simp only [List.filterMap_cons, List.filterMap_nil, Option.toList_some,
          List.singleton_append]
        rw [← List.append_assoc]
        exact List.perm_append_singleton permit _

/-- A clean end in the accumulating mode publishes the buffer, if it is still
worth anything. -/
theorem publishCandidate_effect (env : PublishEnv) {s : Scene κ β}
    (hbefore : s.stream.published = none) (hended : s.stream.origin.ending = .exhausted)
    (hend : s.stream.sawEnd = true)
    (hcandidate : s.stream.candidateCacheable = true →
      s.stream.cachedBatches = s.stream.origin.batches ∧ s.stream.abandoned = false)
    (hbypass : s.stream.candidateCacheable = false → s.stream.candidatePermit = none) :
    Effect s (s.publishCandidate env) ∧ Sound (s.publishCandidate env).stream ∧
      (s.publishCandidate env).stream.candidatePermit = none := by
  cases hcacheable : s.stream.candidateCacheable with
  | false =>
    have hsame : s.publishCandidate env = s := by
      unfold Scene.publishCandidate
      rw [hcacheable]
      rfl
    rw [hsame]
    exact ⟨.inl (.refl s), sound_of_unpublished hbefore, hbypass hcacheable⟩
  | true =>
    obtain ⟨hcomplete, hkept⟩ := hcandidate hcacheable
    -- after the publication itself everything is quiet
    have hrest : Quiet (s.publishReserved env).1 (s.publishCandidate env) := by
      unfold Scene.publishCandidate
      rw [hcacheable]
      let noted : Scene κ β := ⟨(s.publishReserved env).1.world,
        { (s.publishReserved env).1.stream with
          diagnosticsStatus := if (s.publishReserved env).2.isSome then .refreshed
            else .storeBypassedCapacity }⟩
      have hnoted : Quiet (s.publishReserved env).1 noted :=
        .of_stream rfl rfl rfl rfl fun _ h => h
      exact (hnoted.trans (clearCandidate_quiet noted)).trans
        (.of_stream rfl rfl rfl rfl fun _ h => h)
    have hstream : (s.publishCandidate env).stream =
        { (s.publishReserved env).1.stream with
          diagnosticsStatus := if (s.publishReserved env).2.isSome then .refreshed
            else .storeBypassedCapacity
          cachedBatches := []
          candidateSizeBytes := 0
          candidatePermit := none
          candidateCacheable := false } := by
      unfold Scene.publishCandidate
      rw [hcacheable]
      simp [Scene.clearCandidate_stream]
    rw [hstream]
    rcases publishReserved_effect env hbefore hended hcomplete with
      ⟨-, hquiet⟩ | ⟨entry, -, hpublishes⟩
    · exact ⟨.inl (hquiet.trans hrest),
        sound_of_unpublished (hquiet.published.trans hbefore), rfl⟩
    · refine ⟨.inr ⟨entry, hpublishes.quiet hrest⟩, ?_, rfl⟩
      rcases s.publishReserved_stream env with ⟨-, hsame⟩ | ⟨entry', -, -, hmoved⟩
      · have := hpublishes.published
        rw [hsame, hbefore] at this
        cases this
      · intro e he
        have hentry : e = entry := by
          have := hpublishes.published
          rw [show (s.publishReserved env).1.stream.published = some e from he] at this
          exact Option.some.inj this
        subst hentry
        rw [hmoved]
        exact ⟨hend, hkept, hpublishes.complete, hended⟩

theorem serveAccumulatingMiss_effect (env : NextEnv) {s : Scene κ β} (script : Script β)
    (mode : s.stream.mode = .accumulatingMiss) (underlying : s.stream.underlying = some script)
    (ending : script.ending = s.stream.origin.ending)
    (batches : s.stream.delivered ++ script.batches = s.stream.origin.batches)
    (published : s.stream.published = none)
    (hretaining : s.stream.candidateCacheable = true →
      s.stream.cachedBatches = s.stream.delivered ∧ s.stream.abandoned = false)
    (hbypass : s.stream.candidateCacheable = false → s.stream.candidatePermit = none) :
    Settles s (s.serveAccumulatingMiss env) := by
  unfold Scene.serveAccumulatingMiss
  rw [underlying]
  dsimp only
  split
  · rename_i hnil
    rw [hnil, List.append_nil] at batches
    split
    · exact ⟨.inl (.refl s), .of_unpublished published (fun _ h => nomatch h) fun h => nomatch h⟩
    -- The stream ended cleanly with everything retained, so the candidate is the origin.
    · rename_i hend
      let seen : Scene κ β := ⟨s.world, { s.stream with sawEnd := true }⟩
      have hseen : Quiet s seen := .of_stream rfl rfl rfl rfl fun _ h => h
      obtain ⟨heffect, hsound, hpermit⟩ := publishCandidate_effect env.publish (s := seen)
        published (ending.symm.trans hend) rfl
        (fun hc => ⟨(hretaining hc).1.trans batches, (hretaining hc).2⟩) hbypass
      exact ⟨hseen.effect (heffect.quiet (.of_stream rfl rfl rfl rfl fun _ h => h)),
        hsound, (fun _ h => nomatch h), fun _ => hpermit⟩
  · rename_i batch rest hcons
    let pulled : Scene κ β := ⟨s.world, { s.stream with underlying := some ⟨rest, script.ending⟩ }⟩
    have hpulled : Quiet s pulled := .of_stream rfl rfl rfl rfl fun _ h => h
    split
    -- The batch is retained if there is room; otherwise the candidate is given up.
    · rename_i hcacheable
      obtain ⟨hbuffer, hkept⟩ := hretaining hcacheable
      have hretain := hpulled.trans (retainCandidateBatch_quiet
        (env.retain s.stream.cachedBatches.length) batch pulled)
      obtain ⟨permit, size, ⟨hkeeps, hstream⟩ | ⟨hkeeps, hstream⟩⟩ :=
        pulled.retainCandidateBatch_stream (env.retain s.stream.cachedBatches.length) batch
      · split
        · rename_i s' hresult
          change pulled.retainCandidateBatch _ _ = _ at hresult
          rw [hresult] at hstream hretain
          dsimp only at hstream hretain
          refine ⟨.inl hretain, .of_unpublished ?_ (fun b hb => ?_) fun h => nomatch h⟩
          · rw [hstream]
            exact published
          · obtain rfl := Served.produced.inj hb
            rw [hstream]
            refine .retaining mode hcacheable ?_ hkept published
            show s.stream.cachedBatches ++ [batch] = s.stream.delivered ++ [batch]
            rw [hbuffer]
        · rename_i s' hresult
          change pulled.retainCandidateBatch _ _ = _ at hresult
          rw [hresult] at hkeeps
          cases hkeeps
      · split
        · rename_i s' hresult
          change pulled.retainCandidateBatch _ _ = _ at hresult
          rw [hresult] at hkeeps
          cases hkeeps
        · rename_i s' hresult
          change pulled.retainCandidateBatch _ _ = _ at hresult
          rw [hresult] at hstream hretain
          dsimp only at hstream hretain
          -- Without room the candidate is cleared and the batches are only passed on.
          let given : Scene κ β := ⟨s'.world, { s'.stream with
            diagnosticsStatus := .storeBypassedCapacity, abandoned := true }⟩
          have hgiven : Quiet s' given := .of_stream rfl rfl rfl rfl fun _ h => h
          have hcleared := (hretain.trans hgiven).trans (clearCandidate_quiet given)
          have hgone : given.clearCandidate.stream.published = none := by
            rw [Scene.clearCandidate_stream]
            show s'.stream.published = none
            rw [hstream]
            exact published
          refine ⟨.inl (hcleared.trans (.of_stream rfl rfl rfl rfl fun _ h => h)),
            .of_unpublished hgone (fun b hb => ?_) fun h => nomatch h⟩
          refine .bypassing ?_ rfl ?_ hgone
          · show given.clearCandidate.stream.mode = _
            rw [Scene.clearCandidate_stream]
            show s'.stream.mode = _
            rw [hstream]
            exact mode
          · show given.clearCandidate.stream.candidatePermit = none
            rw [Scene.clearCandidate_stream]
    · rename_i hcacheable
      have hcacheable : s.stream.candidateCacheable = false := by simpa using hcacheable
      exact ⟨.inl hpulled, .of_unpublished published
        (fun _ _ => .bypassing mode hcacheable (hbypass hcacheable) published)
        fun h => nomatch h⟩

/-- A clean end behind the barrier publishes the buffer, or replays it
unpublished. -/
theorem acceptBarrier_effect (env : NextEnv) {s : Scene κ β}
    (published : s.stream.published = none) (ended : s.stream.origin.ending = .exhausted)
    (complete : s.stream.cachedBatches = s.stream.origin.batches)
    (kept : s.stream.abandoned = false) :
    Settles s (s.acceptBarrier env) := by
  let seen : Scene κ β := ⟨s.world, { s.stream with sawEnd := true }⟩
  have hseen : Quiet s seen := .of_stream rfl rfl rfl rfl fun _ h => h
  unfold Scene.acceptBarrier
  dsimp only
  rcases publishReserved_effect env.publish (s := seen) published ended complete with
    ⟨hnone, hquiet⟩ | ⟨entry, hsome, hpublishes⟩
  · rcases seen.publishReserved_stream env.publish with ⟨-, hstream⟩ | ⟨entry', hsome, -, -⟩
    swap
    · rw [hnone] at hsome
      cases hsome
    rw [hnone, hstream]
    refine Settles.of_quiet ?_ ?_ (serveBarrierFresh_effect env ?_ ?_)
    · refine hseen.trans (hquiet.trans (.of_stream ?_ ?_ ?_ ?_ fun x hx => ?_)) <;> rw [hstream]
      have hx : x ∈ s.stream.replayEntry.toList := by simpa [Stream.pins] using hx
      exact List.mem_append_left _ hx
    · rfl
    · rfl
    · exact sound_of_unpublished published
  · rcases seen.publishReserved_stream env.publish with ⟨hnone, -⟩ | ⟨entry', hsome', -, hstream⟩
    · rw [hsome] at hnone
      cases hnone
    obtain rfl : entry = entry' := by
      rw [hsome] at hsome'
      exact Option.some.inj hsome'
    rw [hsome, hstream]
    refine Settles.of_effect (.inr ⟨entry, ?_⟩) ?_ (serveBarrierFresh_effect env ?_ ?_)
    · refine (hseen.publishes hpublishes).of_stream ?_ ?_ ?_ ?_ fun x hx => Or.inr ?_
      · rw [hstream]
      · rw [hstream]
      · rw [hstream]
      · rw [hstream]
      · simpa [Stream.pins] using hx
    · rfl
    · rfl
    · intro e he
      obtain rfl := Option.some.inj he
      exact ⟨rfl, kept, hpublishes.complete, ended⟩

/-- One call pulls the whole refresh; `rest` is what is still to come. -/
theorem serveBarrierBufferingFrom_effect (env : NextEnv) (rest : List β) {s : Scene κ β}
    (mode : s.stream.mode = .barrierBuffering)
    (batches : s.stream.cachedBatches ++ rest = s.stream.origin.batches)
    (kept : s.stream.abandoned = false) (published : s.stream.published = none) :
    Settles s (s.serveBarrierBufferingFrom env s.stream.origin.ending rest) := by
  generalize hending : s.stream.origin.ending = ending
  induction rest generalizing s with
  | nil =>
    unfold Scene.serveBarrierBufferingFrom
    rw [List.append_nil] at batches
    split
    · exact failBarrier_effect env _ published
    · exact acceptBarrier_effect env published hending batches kept
  | cons batch rest ih =>
    unfold Scene.serveBarrierBufferingFrom
    dsimp only
    let pulled : Scene κ β := ⟨s.world, { s.stream with underlying := some ⟨rest, ending⟩ }⟩
    have hpulled : Quiet s pulled := .of_stream rfl rfl rfl rfl fun _ h => h
    have hretain := hpulled.trans (retainCandidateBatch_quiet
      (env.retain s.stream.cachedBatches.length) batch pulled)
    obtain ⟨permit, size, ⟨hkeeps, hstream⟩ | ⟨hkeeps, hstream⟩⟩ :=
      pulled.retainCandidateBatch_stream (env.retain s.stream.cachedBatches.length) batch
    · split
      · rename_i s' hresult
        change pulled.retainCandidateBatch _ _ = _ at hresult
        rw [hresult] at hstream hretain
        dsimp only at hstream hretain
        refine Settles.of_quiet hretain ?_ (ih (s := s') ?_ ?_ ?_ ?_ ?_) <;> rw [hstream]
        · exact mode
        · show (s.stream.cachedBatches ++ [batch]) ++ rest = s.stream.origin.batches
          rw [List.append_assoc]
          exact batches
        · exact kept
        · exact published
        · exact hending
      · rename_i s' hresult
        change pulled.retainCandidateBatch _ _ = _ at hresult
        rw [hresult] at hkeeps
        cases hkeeps
    · split
      · rename_i s' hresult
        change pulled.retainCandidateBatch _ _ = _ at hresult
        rw [hresult] at hkeeps
        cases hkeeps
      · rename_i s' hresult
        change pulled.retainCandidateBatch _ _ = _ at hresult
        rw [hresult] at hstream hretain
        dsimp only at hstream hretain
        unfold Scene.abandonBarrier
        dsimp only
        refine Settles.of_quiet ?_ ?_ (serveBarrierDrainEmit_effect env ?_ ?_)
        · refine hretain.trans (.of_stream rfl rfl rfl rfl fun x hx => ?_)
          have hx : x ∈ s'.stream.replayEntry.toList := by simpa [Stream.pins] using hx
          exact List.mem_append_left _ hx
        · show s'.stream.delivered = s.stream.delivered
          rw [hstream]
        · rfl
        · show s'.stream.published = none
          rw [hstream]
          exact published

/-- What one serving call does to the cache, the permits and the candidate. -/
theorem serve_effect (env : NextEnv) {s : Scene κ β} (hprogress : Progress s.stream)
    (hcandidate : Candidate s.stream) (hsound : Sound s.stream) : Settles s (s.serve env) := by
  unfold Scene.serve
  -- The mode decides which branch serves; the candidate state of any other mode is impossible.
  cases hprogress with
  | freshHit entry age mode found replay delivered =>
    rw [mode]
    cases hcandidate with
    | idle _ permit published => exact serveFreshHit_effect env mode permit published
    | retaining m | bypassing m | buffering m | accepted m | draining m | uncached m =>
      rw [mode] at m
      cases m
  | miss script mode found underlying ending batches =>
    rw [mode]
    cases hcandidate with
    | retaining _ cacheable buffer kept published =>
      refine serveAccumulatingMiss_effect env script mode underlying ending batches published
        (fun _ => ⟨buffer, kept⟩) fun h => ?_
      rw [cacheable] at h
      cases h
    | bypassing _ cacheable permit published =>
      refine serveAccumulatingMiss_effect env script mode underlying ending batches published
        (fun h => ?_) fun _ => permit
      rw [cacheable] at h
      cases h
    | idle m =>
      rw [mode] at m
      rcases m with m | m <;> cases m
    | buffering m | accepted m | draining m | uncached m =>
      rw [mode] at m
      cases m
  | buffering entry age script mode found candidate replay delivered underlying ending batches =>
    rw [mode]
    dsimp only
    unfold Scene.serveBarrierBuffering
    rw [underlying]
    dsimp only
    rw [ending]
    cases hcandidate with
    | buffering _ kept published =>
      exact serveBarrierBufferingFrom_effect env script.batches mode batches kept published
    | idle m =>
      rw [mode] at m
      rcases m with m | m <;> cases m
    | retaining m | bypassing m | accepted m | draining m | uncached m =>
      rw [mode] at m
      cases m
  | accepted mode found ending source delivered =>
    rw [mode]
    exact serveBarrierFresh_effect env mode hsound
  | draining script mode found underlying ending batches =>
    rw [mode]
    cases hcandidate with
    | draining _ published => exact serveBarrierDrainEmit_effect env mode published
    | idle m =>
      rw [mode] at m
      rcases m with m | m <;> cases m
    | retaining m | bypassing m | buffering m | accepted m | uncached m =>
      rw [mode] at m
      cases m
  | uncached script mode found underlying ending batches =>
    rw [mode]
    cases hcandidate with
    | uncached _ permit published =>
      exact serveBarrierDrainedUncached_effect mode permit published
    | idle m =>
      rw [mode] at m
      rcases m with m | m <;> cases m
    | retaining m | bypassing m | buffering m | accepted m | draining m =>
      rw [mode] at m
      cases m
  | stale entry age error mode found ending eligible candidate delivered =>
    rw [mode]
    cases hcandidate with
    | idle _ permit published => exact serveStale_effect env mode permit published
    | retaining m | bypassing m | buffering m | accepted m | draining m | uncached m =>
      rw [mode] at m
      cases m

-- ---------------------------------------------------------------------------
-- Calls
-- ---------------------------------------------------------------------------

variable (rowCount : β → UInt64)

theorem next_honest (env : NextEnv) {s : Scene κ β} (h : Honest s.stream) :
    Effect s (s.next rowCount env).1 ∧ Honest (s.next rowCount env).1.stream := by
  rcases h.state with ⟨hlive, hprogress, hcandidate⟩ | ⟨hstopped, -⟩
  swap
  · rw [next_of_stopped rowCount env hstopped]
    exact ⟨.inl (.refl s), h⟩
  rw [next_of_live rowCount env hlive]
  split
  · exact ⟨.inl (cancel_quiet s), cancel_honest h⟩
  obtain ⟨profile, outcome, hstream, hlive⟩ := startProfile_spec hlive
  let started : Scene κ β := ⟨s.world, s.stream.startProfile⟩
  have hstarted : Quiet s started := by
    refine .of_stream ?_ ?_ ?_ ?_ fun x hx => ?_
    · rw [hstream]
    · rw [hstream]
    · rw [hstream]
    · rw [hstream]
    · rw [hstream] at hx
      exact hx
  have hprogress : Progress started.stream := by
    show Progress s.stream.startProfile
    rw [hstream]
    exact hprogress.profile _ _ _
  have hcandidate : Candidate started.stream := by
    show Candidate s.stream.startProfile
    rw [hstream]
    exact hcandidate.profile _ _ _
  have hsound : Sound started.stream := by
    show Sound s.stream.startProfile
    rw [hstream]
    exact h.sound
  -- Serving keeps the progress and has one of the effects; what is left is how the call reports
  -- it.
  obtain ⟨hframe, hserving⟩ := serve_progress env hprogress
  obtain ⟨heffect, hafter⟩ := serve_effect env hprogress hcandidate hsound
  have heffect := hstarted.effect heffect
  have hlive' := hlive.of_frame hframe
  have hfold : (⟨s.world, s.stream.startProfile⟩ : Scene κ β) = started := rfl
  rw [hfold]
  rcases hserve : started.serve env with ⟨s', served⟩
  rw [hserve] at hframe hserving heffect hafter hlive'
  dsimp only at hframe heffect hlive'
  cases served with
  | threw thrown =>
    exact ⟨heffect.quiet (rethrow_quiet thrown s'), rethrow_honest thrown hafter.sound⟩
  | drained =>
    dsimp only
    rw [finishProfile_succeeded (s := { s'.stream with mode := .drained }) hlive'.outcome]
    exact ⟨heffect.quiet (.of_stream rfl rfl rfl rfl fun _ h => h),
      hafter.sound, Or.inr ⟨Or.inr (Or.inr (Or.inr rfl)), hafter.drained rfl⟩⟩
  | produced batch =>
    dsimp only
    unfold Scene.deliver
    split
    · exact ⟨heffect.quiet (rethrow_quiet _ s'), rethrow_honest _ hafter.sound⟩
    · have hnext : Progress { s'.stream with
          delivered := started.stream.delivered ++ [batch] } := hserving
      have hcandidate := hafter.produced batch rfl
      rw [← hframe.delivered] at hnext hcandidate
      exact ⟨heffect.quiet (.of_stream rfl rfl rfl rfl fun _ h => h), hafter.sound,
        Or.inl ⟨⟨hlive'.closed, hlive'.cancelled, hlive'.exception, hlive'.outcome,
          hlive'.finished⟩, hnext.profile _ _ _, hcandidate.profile _ _ _⟩⟩

/-- Every call keeps a stream honest. -/
theorem call_honest (call : Call) {s : Scene κ β} (h : Honest s.stream) :
    Effect s (call.apply rowCount s) ∧ Honest (call.apply rowCount s).stream := by
  cases call with
  | next env => exact next_honest rowCount env h
  | cancel => exact ⟨.inl (cancel_quiet s), cancel_honest h⟩
  | close => exact ⟨.inl (close_quiet s), close_honest h⟩
  | destroy =>
    exact ⟨.inl ((cancel_quiet s).trans (close_quiet _)), close_honest (cancel_honest h)⟩

/-- A stream that has stopped does nothing to the cache any more. -/
theorem call_of_stopped (call : Call) {s : Scene κ β} (h : Stopped s.stream) :
    Quiet s (call.apply rowCount s) := by
  cases call with
  | next env =>
    show Quiet s (s.next rowCount env).1
    rw [next_of_stopped rowCount env h]
    exact .refl s
  | cancel => exact cancel_quiet s
  | close => exact close_quiet s
  | destroy => exact (cancel_quiet s).trans (close_quiet _)

theorem open_honest (config : StreamConfig κ) (script : Script β) (now : UInt64)
    (cache : ResultCache κ β) : Honest (Stream.open config script now cache) := by
  unfold Stream.open
  dsimp only
  split
  · rename_i entry age hfound
    exact ⟨sound_of_unpublished rfl, Or.inl ⟨⟨rfl, rfl, rfl, Or.inl rfl, rfl⟩,
      .freshHit entry age rfl hfound rfl rfl, .idle (Or.inl rfl) rfl rfl⟩⟩
  · rename_i entry age hfound
    exact ⟨sound_of_unpublished rfl, Or.inl ⟨⟨rfl, rfl, rfl, Or.inl rfl, rfl⟩,
      .buffering entry age script rfl hfound rfl rfl rfl rfl rfl rfl, .buffering rfl rfl rfl⟩⟩
  · rename_i hfresh _
    exact ⟨sound_of_unpublished rfl, Or.inl ⟨⟨rfl, rfl, rfl, Or.inl rfl, rfl⟩,
      .miss script rfl hfresh rfl rfl rfl, .retaining rfl rfl rfl rfl rfl⟩⟩

end Cuac.Cache

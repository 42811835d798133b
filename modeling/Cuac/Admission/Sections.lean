import Cuac.Admission.Controller

/-!
# Admission — invariants of the critical sections

A section is a short program over a few primitive changes of the shared state:
dispatch, take a ticket out, give a grant back, turn a grant into a permit,
draw an ordinal, charge a queue, charge a permit, resize a permit, give a
permit back. `SectionInvariant` says that a predicate survives each primitive
where the sections use it; the sections are then walked once, here.

Main results:

* `acquireQueued_cases`, `acquireImmediate_cases` — what an acquisition can do.
* `SectionInvariant.step` — such a predicate survives every section.
* `SectionInvariant.reachable` — and so holds in every reachable state.
-/

namespace Cuac.Admission

open Cuac.Lib

variable {α : Type} [DecidableEq α] [StdHash α]

-- ---------------------------------------------------------------------------
-- Primitive changes
-- ---------------------------------------------------------------------------

/-- What an operation leaves behind, whether it returns or throws. -/
def Leaves (P : State α → Prop) : Except (State α) (State α) → Prop
  | .ok s => P s
  | .error s => P s

/-- The state an immediate charge of a resource leaves: the permit and its
grant, or the counters of a rolled-back charge. -/
def chargePermit (usageFails : Dimension → Bool) (p : PermitHandle α) (s : State α) : State α :=
  match addUsage usageFails (s.resources p.resource) p.identity p.amount with
  | .error counts => s.setResource p.resource counts
  | .ok counts =>
    { s.setResource p.resource counts with
      permits := s.permits ++ [p]
      grants := s.grants ++ [.immediate p.resource p.identity s.tickets] }

/-- A granted ticket nobody will collect gives its charge back. -/
def State.takeBack (s : State α) (queue : QueueKind) (ordinal : UInt64) (ticket : Ticket α) :
    State α :=
  { s.setResource ticket.resource
      (subtractUsage (s.resources ticket.resource) ticket.identity 1) with
    granted := s.granted.eraseP (Ticket.is queue ordinal) }

/-- A permit gives its charge back; the dispatch is still to come. -/
def State.giveBack (s : State α) (index : Nat) (handle : PermitHandle α) : State α :=
  { s.setResource handle.resource
      (subtractUsage (s.resources handle.resource) handle.identity handle.amount) with
    permits := s.permits.eraseIdx index }

/-- Draw the ticket's ordinal, charge its queue and append it, or stop at the
exception on the way. -/
def enqueueTicket (usageFails : Dimension → Bool) (pushFails : Bool) (ticket : Ticket α)
    (s : State α) : State α :=
  let s := { s with
    nextTicket := Function.update s.nextTicket ticket.queue (s.nextTicket ticket.queue + 1) }
  match addUsage usageFails (s.queues ticket.queue) ticket.identity 1 with
  | .error counts => s.setQueue ticket.queue counts
  | .ok counts =>
    if pushFails then s.setQueue ticket.queue (subtractUsage counts ticket.identity 1)
    else { s.setQueue ticket.queue counts with tickets := s.tickets ++ [ticket] }

/-- A predicate that survives every primitive change the sections make. -/
structure SectionInvariant (I : State α → Prop) : Prop where
  dispatch : ∀ {s} (env : DispatchEnv) (resource : ResourceKind), I s →
    Leaves I (grantEligibleLocked env resource s)
  removeTicket : ∀ {s} (queue : QueueKind) (ordinal : UInt64), I s →
    I (removeTicketLocked s queue ordinal)
  takeBack : ∀ {s queue ordinal ticket}, I s →
    s.granted.find? (Ticket.is queue ordinal) = some ticket →
    I (s.takeBack queue ordinal ticket)
  collect : ∀ {s queue ordinal ticket}, I s →
    s.granted.find? (Ticket.is queue ordinal) = some ticket →
    I { s with
      granted := s.granted.eraseP (Ticket.is queue ordinal)
      permits := s.permits ++ [⟨ticket.resource, ticket.identity, 1⟩] }
  terminate : ∀ {s} (reason : AdmissionReason), I s → I { s with terminalReason := reason }
  spend : ∀ {s} (queue : QueueKind), I s → s.nextTicket queue ≠ 0xFFFFFFFFFFFFFFFF →
    I { s with nextTicket := Function.update s.nextTicket queue (s.nextTicket queue + 1) }
  enqueueTicket : ∀ {s ticket} (usageFails : Dimension → Bool) (pushFails : Bool), I s →
    ticket.ordinal = s.nextTicket ticket.queue →
    s.nextTicket ticket.queue ≠ 0xFFFFFFFFFFFFFFFF →
    (checkFits (s.queues ticket.queue) ticket.identity 1
      (queueLimits s.profile ticket.queue)).scope = .none →
    I (enqueueTicket usageFails pushFails ticket s)
  chargePermit : ∀ {s p} (usageFails : Dimension → Bool), I s → 0 < p.amount.toNat →
    (checkFits (s.resources p.resource) p.identity p.amount
      (resourceLimits s.profile p.resource)).scope = .none →
    ((∃ kind : ImmediateKind, p.resource = kind.resource) ∨
      ∀ t ∈ s.tickets, t.resource ≠ p.resource) →
    I (chargePermit usageFails p s)
  resize : ∀ {s} (usageFails : Dimension → Bool) (kind : ResizeKind) (index : Nat)
    (bytes : UInt64), I s → I (resizeBytes usageFails kind index bytes s).1
  giveBack : ∀ {s index handle}, I s → s.permits[index]? = some handle →
    I (s.giveBack index handle)

-- ---------------------------------------------------------------------------
-- The sections
-- ---------------------------------------------------------------------------

/-- What the first section of a queued acquisition can do to the state. -/
theorem acquireQueued_cases (env : AcquireEnv) (queue : QueueKind)
    (identity : AdmissionIdentity α) (wait : AdmissionWaitPolicy) (s : State α) :
    (acquireQueued env queue identity wait s).1 = s ∨
      (s.terminalReason = .none ∧
        (checkFits (s.resources queue.resource) identity 1
          (resourceLimits s.profile queue.resource)).scope = .none ∧
        (∀ t ∈ s.tickets, t.resource ≠ queue.resource) ∧
        (acquireQueued env queue identity wait s).1 =
          chargePermit env.usageFails ⟨queue.resource, identity, 1⟩ s) ∨
      (s.terminalReason = .none ∧
        ∃ blocking, (acquireQueued env queue identity wait s).1 =
          (enqueue env queue identity wait blocking s).1) := by
  generalize hr : acquireQueued env queue identity wait s = result
  unfold acquireQueued at hr
  split at hr
  · exact Or.inl (by rw [← hr])
  split at hr
  · exact Or.inl (by rw [← hr])
  rename_i hopen
  have hopen : s.terminalReason = .none := by simpa using hopen
  split at hr
  · exact Or.inl (by rw [← hr])
  split at hr
  · exact Or.inl (by rw [← hr])
  split at hr
  · exact Or.inl (by rw [← hr])
  split at hr
  · exact Or.inl (by rw [← hr])
  dsimp only at hr
  split at hr
  · exact Or.inl (by rw [← hr])
  split at hr
  · rename_i hfast
    simp only [Bool.and_eq_true, beq_iff_eq, Bool.not_eq_true', List.any_eq_false] at hfast
    split at hr
    · exact Or.inl (by rw [← hr])
    · refine Or.inr (Or.inl ⟨hopen, hfast.1, hfast.2, ?_⟩)
      rw [chargePermit, ← hr]
      cases addUsage env.usageFails (s.resources queue.resource) identity 1 <;> rfl
  · exact Or.inr (Or.inr ⟨hopen, _, by rw [← hr]⟩)

/-- What an immediate acquisition can do to the state. -/
theorem acquireImmediate_cases (permitFails : Bool) (usageFails : Dimension → Bool)
    (kind : ImmediateKind) (identity : AdmissionIdentity α) (amount : UInt64) (s : State α) :
    (acquireImmediate permitFails usageFails kind identity amount s).1 = s ∨
      (s.terminalReason = .none ∧ 0 < amount.toNat ∧
        (checkFits (s.resources kind.resource) identity amount
          (resourceLimits s.profile kind.resource)).scope = .none ∧
        (acquireImmediate permitFails usageFails kind identity amount s).1 =
          chargePermit usageFails ⟨kind.resource, identity, amount⟩ s) := by
  generalize hr : acquireImmediate permitFails usageFails kind identity amount s = result
  unfold acquireImmediate at hr
  split at hr
  · exact Or.inl (by rw [← hr])
  rename_i hbad
  split at hr
  · exact Or.inl (by rw [← hr])
  rename_i hopen
  dsimp only at hr
  split at hr
  · exact Or.inl (by rw [← hr])
  rename_i hscope
  split at hr
  · exact Or.inl (by rw [← hr])
  have hpos : 0 < amount.toNat := by
    simp only [Bool.or_eq_true, beq_iff_eq, not_or] at hbad
    exact Nat.pos_of_ne_zero fun h0 => hbad.2 (UInt64.toNat_inj.mp h0)
  refine Or.inr ⟨by simpa using hopen, hpos, by simpa using hscope, ?_⟩
  rw [chargePermit, ← hr]
  cases addUsage usageFails (s.resources kind.resource) identity amount <;> rfl

/-- What the slow path can do to the state. -/
theorem enqueue_cases (env : AcquireEnv) (queue : QueueKind) (identity : AdmissionIdentity α)
    (wait : AdmissionWaitPolicy) (blocking : AdmissionObservation) (s : State α) :
    (enqueue env queue identity wait blocking s).1 = s ∨
      (enqueue env queue identity wait blocking s).1 =
        { s with terminalReason := .ticketExhausted } ∨
      (s.nextTicket queue ≠ 0xFFFFFFFFFFFFFFFF ∧
        (checkFits (s.queues queue) identity 1 (queueLimits s.profile queue)).scope = .none ∧
        ∃ ticket : Ticket α, ticket.queue = queue ∧ ticket.identity = identity ∧
          ticket.ordinal = s.nextTicket queue ∧
          ((enqueue env queue identity wait blocking s).1 =
              { s with
                nextTicket := Function.update s.nextTicket queue (s.nextTicket queue + 1) } ∨
            (enqueue env queue identity wait blocking s).1 =
              enqueueTicket env.usageFails env.pushFails ticket s ∨
            (∃ s', grantEligibleLocked env.dispatch queue.resource
                (enqueueTicket env.usageFails env.pushFails ticket s) = .error s' ∧
              (enqueue env queue identity wait blocking s).1 =
                unwind env.poll queue ticket.ordinal s') ∨
            ∃ s', grantEligibleLocked env.dispatch queue.resource
                (enqueueTicket env.usageFails env.pushFails ticket s) = .ok s' ∧
              (enqueue env queue identity wait blocking s).1 =
                (poll env.poll queue ticket.ordinal s').1)) := by
  generalize hr : enqueue env queue identity wait blocking s = result
  unfold enqueue at hr
  dsimp only at hr
  split at hr
  · exact Or.inl (by rw [← hr])
  rename_i hqueue
  split at hr
  · exact Or.inr (Or.inl (by rw [← hr]))
  rename_i hroom
  refine Or.inr (Or.inr ⟨by simpa using hroom, by simpa using hqueue,
    ⟨queue, identity, s.nextTicket queue, wait, env.started, env.started, blocking⟩,
    rfl, rfl, rfl, ?_⟩)
  split at hr
  · exact Or.inl (by rw [← hr])
  refine Or.inr ?_
  rw [enqueueTicket]
  dsimp only
  -- Either container can throw before the ticket is in; afterwards the grant decides.
  cases hcase : addUsage env.usageFails (s.queues queue) identity 1 with
  | error counts =>
    rw [hcase] at hr
    exact Or.inl (by rw [← hr])
  | ok counts =>
    rw [hcase] at hr
    dsimp only at hr ⊢
    cases hpush : env.pushFails with
    | true =>
      rw [hpush] at hr
      exact Or.inl (by rw [← hr]; rfl)
    | false =>
      rw [hpush] at hr
      refine Or.inr ?_
      rw [if_neg (by decide)] at hr ⊢
      split at hr
      · rename_i s' hgrant
        exact Or.inl ⟨s', hgrant, by rw [← hr]⟩
      · rename_i s' hgrant
        exact Or.inr ⟨s', hgrant, by rw [← hr]⟩

namespace SectionInvariant

variable {I : State α → Prop} (hI : SectionInvariant I)

include hI

theorem dispatchQuietly (env : DispatchEnv) (resource : ResourceKind) {s : State α} (h : I s) :
    I (dispatchQuietly env resource s) := by
  have hleaves := hI.dispatch env resource h
  rw [Admission.dispatchQuietly]
  split <;> rename_i hcase <;> rw [hcase] at hleaves <;> exact hleaves

theorem unwind (env : PollEnv) (queue : QueueKind) (ordinal : UInt64) {s : State α} (h : I s) :
    I (unwind env queue ordinal s) := by
  rw [Admission.unwind]
  apply hI.dispatchQuietly
  split
  · rename_i ticket hfind
    exact hI.takeBack h hfind
  · exact hI.removeTicket queue ordinal h

theorem collectGranted (env : PollEnv) {ticket : Ticket α} {s : State α} (h : I s)
    {queue : QueueKind} {ordinal : UInt64}
    (hfind : s.granted.find? (Ticket.is queue ordinal) = some ticket) :
    I (Admission.collect env ticket s).1 := by
  have hself : queue = ticket.queue ∧ ordinal = ticket.ordinal := by
    have := List.find?_some hfind
    simp only [Ticket.is, Bool.and_eq_true, beq_iff_eq] at this
    exact ⟨this.1.symm, this.2.symm⟩
  obtain ⟨rfl, rfl⟩ := hself
  rw [Admission.collect]
  split
  · exact hI.unwind env _ _ h
  · exact hI.collect h hfind

theorem poll (env : PollEnv) (queue : QueueKind) (ordinal : UInt64) {s : State α} (h : I s) :
    I (poll env queue ordinal s).1 := by
  have hremoved := hI.removeTicket queue ordinal h
  have hleaves := hI.dispatch env.dispatch queue.resource h
  rw [Admission.poll]
  split
  · rename_i ticket hfind
    exact hI.collectGranted env h hfind
  split
  · exact h
  dsimp only
  split
  · exact hremoved
  split
  · exact hremoved
  split
  · exact hremoved
  split
  · exact hremoved
  split
  · exact hremoved
  split
  · rename_i hcase
    rw [hcase] at hleaves
    exact hI.unwind env queue ordinal hleaves
  · rename_i s' hcase
    rw [hcase] at hleaves
    split
    · rename_i hfind
      exact hI.collectGranted env hleaves hfind
    · exact hleaves

theorem waitThrows (env : PollEnv) (queue : QueueKind) (ordinal : UInt64) {s : State α} (h : I s) :
    I (waitThrows env queue ordinal s) := by
  rw [Admission.waitThrows]
  split
  · exact hI.unwind env queue ordinal h
  · exact h

theorem enqueue (env : AcquireEnv) (queue : QueueKind) (identity : AdmissionIdentity α)
    (wait : AdmissionWaitPolicy) (blocking : AdmissionObservation) {s : State α} (h : I s) :
    I (enqueue env queue identity wait blocking s).1 := by
  rcases enqueue_cases env queue identity wait blocking s with
    hsame | hexhausted | ⟨hroom, hscope, ticket, rfl, rfl, hordinal, hcases⟩
  · rw [hsame]
    exact h
  · rw [hexhausted]
    exact hI.terminate _ h
  have hticket := hI.enqueueTicket env.usageFails env.pushFails h hordinal hroom hscope
  have hleaves := hI.dispatch env.dispatch ticket.queue.resource hticket
  rcases hcases with hspent | hthrown | ⟨s', hgrant, heq⟩ | ⟨s', hgrant, heq⟩
  · rw [hspent]
    exact hI.spend ticket.queue h hroom
  · rw [hthrown]
    exact hticket
  · rw [heq]
    rw [hgrant] at hleaves
    exact hI.unwind env.poll _ _ hleaves
  · rw [heq]
    rw [hgrant] at hleaves
    exact hI.poll env.poll _ _ hleaves

theorem acquireQueued (env : AcquireEnv) (queue : QueueKind) (identity : AdmissionIdentity α)
    (wait : AdmissionWaitPolicy) {s : State α} (h : I s) :
    I (acquireQueued env queue identity wait s).1 := by
  rcases acquireQueued_cases env queue identity wait s with
    hsame | ⟨-, hscope, hfree, hcharge⟩ | ⟨-, blocking, henqueue⟩
  · rw [hsame]
    exact h
  · rw [hcharge]
    exact hI.chargePermit env.usageFails h one_pos_toNat hscope (Or.inr hfree)
  · rw [henqueue]
    exact hI.enqueue env queue identity wait blocking h

theorem acquireImmediate (permitFails : Bool) (usageFails : Dimension → Bool)
    (kind : ImmediateKind) (identity : AdmissionIdentity α) (amount : UInt64) {s : State α}
    (h : I s) : I (acquireImmediate permitFails usageFails kind identity amount s).1 := by
  rcases acquireImmediate_cases permitFails usageFails kind identity amount s with
    hsame | ⟨-, hpos, hscope, hcharge⟩
  · rw [hsame]
    exact h
  · rw [hcharge]
    exact hI.chargePermit usageFails h hpos hscope (Or.inl ⟨kind, rfl⟩)

theorem release (env : DispatchEnv) (index : Nat) {s : State α} (h : I s) :
    I (release env index s) := by
  rw [Admission.release]
  split
  · exact h
  · rename_i handle hget
    exact hI.dispatchQuietly env _ (hI.giveBack h hget)

theorem step {s : State α} (e : Event α) (h : I s) : I (step s e) := by
  cases e with
  | acquireCredentialResolution env identity wait =>
    show I (acquireCredentialResolution env identity wait s).1
    unfold acquireCredentialResolution
    split
    · exact h
    · exact hI.acquireQueued env _ identity wait h
  | acquireScan env identity wait => exact hI.acquireQueued env _ identity wait h
  | acquireRequest env identity wait => exact hI.acquireQueued env _ identity wait h
  | poll env queue ordinal => exact hI.poll env queue ordinal h
  | waitThrows env queue ordinal => exact hI.waitThrows env queue ordinal h
  | acquireImmediate permitFails usageFails kind identity amount =>
    exact hI.acquireImmediate permitFails usageFails kind identity amount h
  | resize usageFails kind index bytes => exact hI.resize usageFails kind index bytes h
  | release env index => exact hI.release env index h
  | close => exact hI.terminate _ h

theorem reachable {profile : AdmissionProfile} {initialTicket : UInt64} {s : State α}
    (hinitial : I (State.initial profile initialTicket))
    (h : (controller profile initialTicket).Reachable s) : I s :=
  h.invariant hinitial fun _ e hs => hI.step e hs

end SectionInvariant

end Cuac.Admission

import Cuac.Admission.Charges
import Cuac.Admission.Sections

/-!
# Admission — accounting

A resource is *held* by live permits and by granted tickets nobody has
collected yet, a queue is *held* by the tickets waiting in it, and a counter is
the sum of what is held under its key. `Accounted` states this of the whole
state together with the limits. Every critical section keeps it, so it holds
under every interleaving.

Main results:

* `accounted_sections` — every primitive change of a section keeps the accounts.
* `poll_issues`, `acquireQueued_issues`, `acquireImmediate_issues` — a section
  adds the permit it returns and no other; `gives_back` — what a release returns.
* `admission_accounting` — counters, limits, underflow and the empty controller,
  over all interleavings.
-/

namespace Cuac.Admission

open Cuac.Lib

variable {α : Type}

-- ---------------------------------------------------------------------------
-- Who holds what
-- ---------------------------------------------------------------------------

/-- What live permits and granted, uncollected tickets hold of a resource. -/
def heldBy (permits : List (PermitHandle α)) (granted : List (Ticket α))
    (resource : ResourceKind) : List (Charge α) :=
  ((permits.filter fun p => p.resource = resource).map fun p => (p.identity, p.amount)) ++
    ((granted.filter fun t => t.resource = resource).map fun t => (t.identity, 1))

/-- What the waiting tickets hold of a queue. -/
def waitingIn (tickets : List (Ticket α)) (queue : QueueKind) : List (Charge α) :=
  (tickets.filter fun t => t.queue = queue).map fun t => (t.identity, 1)

def State.held (s : State α) (resource : ResourceKind) : List (Charge α) :=
  heldBy s.permits s.granted resource

def State.waiting (s : State α) (queue : QueueKind) : List (Charge α) :=
  waitingIn s.tickets queue

theorem find?_perm {β : Type} {p : β → Bool} {l : List β} {a : β} (h : l.find? p = some a) :
    (a :: l.eraseP p).Perm l := by
  obtain ⟨hpa, front, back, rfl, hfront⟩ := List.find?_eq_some_iff_append.mp h
  rw [List.eraseP_append_right _ (by simpa using hfront), List.eraseP_cons_of_pos hpa]
  exact List.perm_middle.symm

theorem heldBy_perm {permits permits' : List (PermitHandle α)} {granted granted' : List (Ticket α)}
    (hp : permits.Perm permits') (hg : granted.Perm granted') (r : ResourceKind) :
    (heldBy permits granted r).Perm (heldBy permits' granted' r) :=
  ((hp.filter _).map _).append ((hg.filter _).map _)

theorem heldBy_cons_permit (p : PermitHandle α) (permits : List (PermitHandle α))
    (granted : List (Ticket α)) (r : ResourceKind) :
    heldBy (p :: permits) granted r =
      if p.resource = r then (p.identity, p.amount) :: heldBy permits granted r
      else heldBy permits granted r := by
  rw [heldBy, List.filter_cons]
  split <;> rename_i h <;> simp [heldBy] at h ⊢ <;> simp [h]

theorem heldBy_cons_granted (t : Ticket α) (permits : List (PermitHandle α))
    (granted : List (Ticket α)) (r : ResourceKind) :
    (heldBy permits (t :: granted) r).Perm
      (if t.resource = r then (t.identity, 1) :: heldBy permits granted r
        else heldBy permits granted r) := by
  by_cases h : t.resource = r
  · rw [if_pos h, heldBy, List.filter_cons, if_pos (by simpa using h)]
    exact List.perm_middle
  · rw [if_neg h, heldBy, List.filter_cons, if_neg (by simpa using h)]
    exact List.Perm.refl _

/-- A permit of the same resource and identity takes over a part of a charge, or
takes on more of it. -/
theorem heldBy_set {permits : List (PermitHandle α)} (granted : List (Ticket α)) {index : Nat}
    {p : PermitHandle α} (hget : permits[index]? = some p) (bytes : UInt64) (r : ResourceKind) :
    ∃ others, (heldBy permits granted r).Perm
        (if p.resource = r then (p.identity, p.amount) :: others else others) ∧
      (heldBy (permits.set index { p with amount := bytes }) granted r).Perm
        (if p.resource = r then (p.identity, bytes) :: others else others) := by
  obtain ⟨hlt, hp⟩ := List.getElem?_eq_some_iff.mp hget
  refine ⟨heldBy (permits.eraseIdx index) granted r, ?_, ?_⟩
  · rw [← heldBy_cons_permit, ← hp]
    exact heldBy_perm (List.getElem_cons_eraseIdx_perm hlt).symm (.refl _) r
  · have hcons := heldBy_cons_permit { p with amount := bytes } (permits.eraseIdx index) granted r
    dsimp only at hcons
    rw [← hcons]
    exact heldBy_perm (List.set_perm_cons_eraseIdx hlt _) (.refl _) r

theorem waitingIn_perm {tickets tickets' : List (Ticket α)} (h : tickets.Perm tickets')
    (q : QueueKind) : (waitingIn tickets q).Perm (waitingIn tickets' q) :=
  (h.filter _).map _

theorem waitingIn_cons (t : Ticket α) (tickets : List (Ticket α)) (q : QueueKind) :
    waitingIn (t :: tickets) q =
      if t.queue = q then (t.identity, 1) :: waitingIn tickets q else waitingIn tickets q := by
  rw [waitingIn, List.filter_cons]
  split <;> rename_i h <;> simp [waitingIn] at h ⊢ <;> simp [h]

section Usage

variable [DecidableEq α]

/-- What live permits and granted, uncollected tickets of a resource amount to
under a key. -/
def State.liveUsage (s : State α) (resource : ResourceKind) (key : UsageKey α) : Nat :=
  ((s.permits.filter fun p => p.resource = resource && key.covers p.identity).map
      fun p => p.amount.toNat).sum +
    (s.granted.filter fun t => t.resource = resource && key.covers t.identity).length

/-- How many tickets wait in a queue under a key. -/
def State.waitingCount (s : State α) (queue : QueueKind) (key : UsageKey α) : Nat :=
  (s.tickets.filter fun t => t.queue = queue && key.covers t.identity).length

theorem chargedUnder_held (s : State α) (resource : ResourceKind) (key : UsageKey α) :
    chargedUnder key (s.held resource) = s.liveUsage resource key := by
  simp only [chargedUnder, State.held, heldBy, State.liveUsage, List.filter_append,
    List.map_append, List.sum_append, List.filter_map, List.map_map, List.filter_filter]
  congr 1
  · simp [Function.comp_def, Bool.and_comm]
  · simp [Function.comp_def, Bool.and_comm]

theorem chargedUnder_waiting (s : State α) (queue : QueueKind) (key : UsageKey α) :
    chargedUnder key (s.waiting queue) = s.waitingCount queue key := by
  simp [chargedUnder, State.waiting, waitingIn, State.waitingCount, List.filter_map,
    List.filter_filter, Function.comp_def, Bool.and_comm]

end Usage

section Accounted

variable [DecidableEq α] [StdHash α] {profile : AdmissionProfile}

/-- Every counter is the sum of what is held under its key, no key is held
beyond its limit, and no permit is empty. -/
structure Accounted (profile : AdmissionProfile) (s : State α) : Prop where
  profileKept : s.profile = profile
  resources : ∀ r, Accounts (s.resources r) (s.held r)
  queues : ∀ q, Accounts (s.queues q) (s.waiting q)
  resourcesWithin : ∀ r, Within (resourceLimits s.profile r) (s.held r)
  queuesWithin : ∀ q, Within (queueLimits s.profile q) (s.waiting q)
  amounts : ∀ p ∈ s.permits, 0 < p.amount.toNat

theorem accounted_initial (profile : AdmissionProfile) (initialTicket : UInt64) :
    Accounted profile (State.initial profile initialTicket : State α) where
  profileKept := rfl
  resources := fun _ => accounts_empty
  queues := fun _ => accounts_empty
  resourcesWithin := fun _ => .nil _
  queuesWithin := fun _ => .nil _
  amounts := by simp [State.initial]

/-- Change one resource's counters together with who holds it. -/
theorem Accounted.updateResource {s : State α} (h : Accounted profile s)
    (resource : ResourceKind) {counts : Counters α} {permits : List (PermitHandle α)}
    {granted : List (Ticket α)}
    (hother : ∀ r, r ≠ resource → (heldBy permits granted r).Perm (s.held r))
    (hcounts : Accounts counts (heldBy permits granted resource))
    (hwithin : Within (resourceLimits s.profile resource) (heldBy permits granted resource))
    (hamounts : ∀ p ∈ permits, 0 < p.amount.toNat) :
    Accounted profile
      { s.setResource resource counts with permits := permits, granted := granted } where
  profileKept := h.profileKept
  resources := fun r => by
    by_cases hr : r = resource
    · subst hr
      simpa [State.setResource, State.held] using hcounts
    · simpa [State.setResource, State.held, hr] using (h.resources r).perm (hother r hr).symm
  queues := h.queues
  resourcesWithin := fun r => by
    by_cases hr : r = resource
    · subst hr
      exact hwithin
    · exact (h.resourcesWithin r).anti (.of_perm (hother r hr))
  queuesWithin := h.queuesWithin
  amounts := hamounts

/-- Change one queue's counters together with who waits in it. -/
theorem Accounted.updateQueue {s : State α} (h : Accounted profile s) (queue : QueueKind)
    {counts : Counters α} {tickets : List (Ticket α)}
    (hother : ∀ q, q ≠ queue → (waitingIn tickets q).Perm (s.waiting q))
    (hcounts : Accounts counts (waitingIn tickets queue))
    (hwithin : Within (queueLimits s.profile queue) (waitingIn tickets queue)) :
    Accounted profile { s.setQueue queue counts with tickets := tickets } where
  profileKept := h.profileKept
  resources := h.resources
  queues := fun q => by
    by_cases hq : q = queue
    · subst hq
      simpa [State.setQueue, State.waiting] using hcounts
    · simpa [State.setQueue, State.waiting, hq] using (h.queues q).perm (hother q hq).symm
  resourcesWithin := h.resourcesWithin
  queuesWithin := fun q => by
    by_cases hq : q = queue
    · subst hq
      exact hwithin
    · exact (h.queuesWithin q).anti (.of_perm (hother q hq))
  amounts := h.amounts

/-- Tickets may be reordered or annotated freely. -/
theorem Accounted.retick {s : State α} (h : Accounted profile s) {tickets : List (Ticket α)}
    (hsame : ∀ q, (waitingIn tickets q).Perm (s.waiting q)) :
    Accounted profile { s with tickets := tickets } where
  profileKept := h.profileKept
  resources := h.resources
  queues := fun q => (h.queues q).perm (hsame q).symm
  resourcesWithin := h.resourcesWithin
  queuesWithin := fun q => (h.queuesWithin q).anti (.of_perm (hsame q))
  amounts := h.amounts

/-- Closing, drawing an ordinal and recording history touch no account. -/
theorem Accounted.forget {s : State α} (h : Accounted profile s) (terminalReason : AdmissionReason)
    (nextTicket : QueueKind → UInt64) (grants : List (Grant α)) :
    Accounted profile { s with
      terminalReason := terminalReason, nextTicket := nextTicket, grants := grants } where
  profileKept := h.profileKept
  resources := h.resources
  queues := h.queues
  resourcesWithin := h.resourcesWithin
  queuesWithin := h.queuesWithin
  amounts := h.amounts

/-- A thrown charge changes nothing that is accounted for. -/
theorem Accounted.setResource_error {s : State α} (h : Accounted profile s)
    {resource : ResourceKind} {counts : Counters α} (hcounts : Accounts counts (s.held resource)) :
    Accounted profile (s.setResource resource counts) :=
  h.updateResource resource (fun _ _ => .refl _) hcounts (h.resourcesWithin resource) h.amounts

-- ---------------------------------------------------------------------------
-- Charging and discharging holders
-- ---------------------------------------------------------------------------

/-- A new permit for a charge that fits. -/
theorem Accounted.addPermit {s : State α} (h : Accounted profile s) {p : PermitHandle α}
    {counts : Counters α} (hpos : 0 < p.amount.toNat)
    (hcounts : Accounts counts ((p.identity, p.amount) :: s.held p.resource))
    (hfits : Fits (resourceLimits s.profile p.resource) (s.held p.resource) p.identity p.amount) :
    Accounted profile { s.setResource p.resource counts with permits := s.permits ++ [p] } := by
  have hperm : ∀ r, (heldBy (s.permits ++ [p]) s.granted r).Perm
      (if p.resource = r then (p.identity, p.amount) :: s.held r else s.held r) := by
    intro r
    rw [State.held, ← heldBy_cons_permit]
    exact heldBy_perm (List.perm_append_singleton ..) (.refl _) r
  have hself := hperm p.resource
  rw [if_pos rfl] at hself
  refine h.updateResource p.resource (fun r hr => ?_) (hcounts.perm hself.symm)
    (((h.resourcesWithin _).add hfits).anti (.of_perm hself)) ?_
  · have hr' := hperm r
    rw [if_neg (Ne.symm hr)] at hr'
    exact hr'
  · intro x hx
    rcases List.mem_append.mp hx with hx | hx
    · exact h.amounts x hx
    · rw [List.mem_singleton.mp hx]
      exact hpos

/-- A ticket leaves the queue it waits in. -/
theorem Accounted.dropTicket {s : State α} (h : Accounted profile s) {t : Ticket α}
    {tickets : List (Ticket α)} (hperm : (t :: tickets).Perm s.tickets) :
    Accounted profile { s.setQueue t.queue (subtractUsage (s.queues t.queue) t.identity 1) with
      tickets := tickets } := by
  have hwait : ∀ q, (waitingIn (t :: tickets) q).Perm (s.waiting q) :=
    fun q => waitingIn_perm hperm q
  have hself := hwait t.queue
  rw [waitingIn_cons, if_pos rfl] at hself
  refine h.updateQueue t.queue (fun q hq => ?_) ?_ ?_
  · simpa [waitingIn_cons, Ne.symm hq] using hwait q
  · exact Accounts.subtract ((h.queues t.queue).perm hself.symm) one_pos_toNat
  · exact ((h.queuesWithin t.queue).anti (.of_perm hself)).anti
      (.of_sublist (List.sublist_cons_self ..))

/-- A waiting ticket is granted: it stops holding its queue and starts holding
its resource. -/
theorem Accounted.grant {s : State α} (h : Accounted profile s) {t : Ticket α} (t' : Ticket α)
    {tickets : List (Ticket α)} {counts : Counters α} (hperm : (t :: tickets).Perm s.tickets)
    (hqueue : t'.queue = t.queue) (hidentity : t'.identity = t.identity)
    (hcounts : Accounts counts ((t.identity, 1) :: s.held t.resource))
    (hfits : Fits (resourceLimits s.profile t.resource) (s.held t.resource) t.identity 1) :
    Accounted profile { (s.setResource t.resource counts).setQueue t.queue
        (subtractUsage (s.queues t.queue) t.identity 1) with
      tickets := tickets, granted := s.granted ++ [t'] } := by
  have hheld : ∀ r, (heldBy s.permits (s.granted ++ [t']) r).Perm
      (if t.resource = r then (t.identity, 1) :: s.held r else s.held r) := by
    intro r
    have hcons := heldBy_cons_granted t' s.permits s.granted r
    rw [Ticket.resource, hqueue, hidentity] at hcons
    exact (heldBy_perm (.refl _) (List.perm_append_singleton ..) r).trans hcons
  have hself := hheld t.resource
  rw [if_pos rfl] at hself
  have hres := h.updateResource t.resource
    (fun r hr => by simpa [Ne.symm hr] using hheld r) (hcounts.perm hself.symm)
    (((h.resourcesWithin _).add hfits).anti (.of_perm hself)) h.amounts
  exact hres.dropTicket hperm

/-- A holder gives its whole charge back. -/
theorem Accounted.dropHolder {s : State α} (h : Accounted profile s) {resource : ResourceKind}
    {identity : AdmissionIdentity α} {amount : UInt64} {permits : List (PermitHandle α)}
    {granted : List (Ticket α)} (hpos : 0 < amount.toNat)
    (hself : ((identity, amount) :: heldBy permits granted resource).Perm (s.held resource))
    (hother : ∀ r, r ≠ resource → (heldBy permits granted r).Perm (s.held r))
    (hamounts : ∀ p ∈ permits, 0 < p.amount.toNat) :
    Accounted profile
      { s.setResource resource (subtractUsage (s.resources resource) identity amount) with
        permits := permits, granted := granted } :=
  h.updateResource resource hother
    (Accounts.subtract ((h.resources resource).perm hself.symm) hpos)
    (((h.resourcesWithin resource).anti (.of_perm hself)).anti
      (.of_sublist (List.sublist_cons_self ..)))
    hamounts

theorem Accounted.dropGranted {s : State α} (h : Accounted profile s) {t : Ticket α}
    {granted : List (Ticket α)} (hperm : (t :: granted).Perm s.granted) :
    Accounted profile { s.setResource t.resource
        (subtractUsage (s.resources t.resource) t.identity 1) with granted := granted } := by
  have hheld : ∀ r, (if t.resource = r then (t.identity, 1) :: heldBy s.permits granted r
      else heldBy s.permits granted r).Perm (s.held r) := fun r =>
    (heldBy_cons_granted t s.permits granted r).symm.trans (heldBy_perm (.refl _) hperm r)
  have hself := hheld t.resource
  rw [if_pos rfl] at hself
  refine h.dropHolder one_pos_toNat hself (fun r hr => ?_) h.amounts
  have hr' := hheld r
  rw [if_neg (Ne.symm hr)] at hr'
  exact hr'

theorem Accounted.dropPermit {s : State α} (h : Accounted profile s) {p : PermitHandle α}
    {permits : List (PermitHandle α)} (hperm : (p :: permits).Perm s.permits) :
    Accounted profile { s.setResource p.resource
        (subtractUsage (s.resources p.resource) p.identity p.amount) with
      permits := permits } := by
  have hheld : ∀ r, (if p.resource = r then (p.identity, p.amount) :: heldBy permits s.granted r
      else heldBy permits s.granted r).Perm (s.held r) := by
    intro r
    rw [← heldBy_cons_permit]
    exact heldBy_perm hperm (.refl _) r
  have hself := hheld p.resource
  rw [if_pos rfl] at hself
  have hmem : ∀ x, x ∈ p :: permits → 0 < x.amount.toNat :=
    fun x hx => h.amounts x (hperm.subset hx)
  refine h.dropHolder (hmem p (List.mem_cons_self ..)) hself (fun r hr => ?_)
    (fun x hx => hmem x (List.mem_cons_of_mem _ hx))
  have hr' := hheld r
  rw [if_neg (Ne.symm hr)] at hr'
  exact hr'

/-- Collecting moves the charge from the granted ticket to the permit. -/
theorem Accounted.collect {s : State α} (h : Accounted profile s) {t : Ticket α}
    {granted : List (Ticket α)} (hperm : (t :: granted).Perm s.granted) :
    Accounted profile { s with
      granted := granted, permits := s.permits ++ [⟨t.resource, t.identity, 1⟩] } := by
  have hheld : ∀ r, (heldBy (s.permits ++ [⟨t.resource, t.identity, 1⟩]) granted r).Perm
      (s.held r) := by
    intro r
    have hmoved := heldBy_perm (List.perm_append_singleton (⟨t.resource, t.identity, 1⟩ :
      PermitHandle α) s.permits) (.refl granted) r
    rw [heldBy_cons_permit] at hmoved
    exact (hmoved.trans (heldBy_cons_granted t s.permits granted r).symm).trans
      (heldBy_perm (.refl _) hperm r)
  exact {
    profileKept := h.profileKept
    resources := fun r => (h.resources r).perm (hheld r).symm
    queues := h.queues
    resourcesWithin := fun r => (h.resourcesWithin r).anti (.of_perm (hheld r))
    queuesWithin := h.queuesWithin
    amounts := by
      intro p hp
      rcases List.mem_append.mp hp with hp | hp
      · exact h.amounts p hp
      · rw [List.mem_singleton.mp hp]
        exact one_pos_toNat }

-- ---------------------------------------------------------------------------
-- The critical sections
-- ---------------------------------------------------------------------------

/-- The state after the scan has granted `pending`, with `waiting` left. -/
def grantPending (now : Int) (pending : Ticket α) (waiting : List (Ticket α))
    (counts : Counters α) (s : State α) : State α :=
  let s := s.setResource pending.resource counts
  let s := s.setQueue pending.queue (subtractUsage (s.queues pending.queue) pending.identity 1)
  { s with
    granted := s.granted ++ [{ pending with grantedAt := now }]
    grants := s.grants ++ [.queued pending now waiting] }

/-- What one turn of the scan can do, in terms of what is held. -/
theorem grantEligibleFrom_turn (env : DispatchEnv) (resource : ResourceKind)
    (kept : List (Ticket α)) (pending : Ticket α) (rest : List (Ticket α)) (s : State α)
    (h : Accounts (s.resources resource) (s.held resource)) :
    ((pending.resource ≠ resource ∨ ticketExpired pending env.now = true) ∧
      grantEligibleFrom env resource kept (pending :: rest) s =
        grantEligibleFrom env resource (kept ++ [pending]) rest s) ∨
    (pending.resource = resource ∧ ticketExpired pending env.now = false ∧
      ¬ Fits (resourceLimits s.profile resource) (s.held resource) pending.identity 1 ∧
      ∃ blocking, grantEligibleFrom env resource kept (pending :: rest) s =
        grantEligibleFrom env resource (kept ++ [{ pending with lastBlocking := blocking }])
          rest s) ∨
    (pending.resource = resource ∧ ticketExpired pending env.now = false ∧
      Fits (resourceLimits s.profile resource) (s.held resource) pending.identity 1 ∧
      ((∃ counts, addUsage (env.fails pending.queue pending.ordinal) (s.resources resource)
            pending.identity 1 = .error counts ∧
          Accounts counts (s.held resource) ∧
          grantEligibleFrom env resource kept (pending :: rest) s =
            .error { s.setResource resource counts with tickets := kept ++ pending :: rest }) ∨
        ∃ counts, Accounts counts ((pending.identity, 1) :: s.held resource) ∧
          grantEligibleFrom env resource kept (pending :: rest) s =
            grantEligibleFrom env resource kept rest
              (grantPending env.now pending (kept ++ rest) counts s))) := by
  rw [grantEligibleFrom]
  split
  · rename_i hskip
    simp only [Bool.or_eq_true, bne_iff_ne] at hskip
    exact Or.inl ⟨hskip, rfl⟩
  rename_i hskip
  simp only [Bool.or_eq_true, bne_iff_ne, not_or, not_not, Bool.not_eq_true] at hskip
  obtain ⟨hresource, hlive⟩ := hskip
  have hcheck := checkFits_scope_none_iff h pending.identity 1 (resourceLimits s.profile resource)
  dsimp only
  split
  · rename_i hblocked
    refine Or.inr (Or.inl ⟨hresource, hlive, ?_, _, rfl⟩)
    rw [← hcheck]
    simpa using hblocked
  rename_i hfits
  have hfits : Fits (resourceLimits s.profile resource) (s.held resource) pending.identity 1 := by
    rw [← hcheck]
    simpa using hfits
  have hadd := Accounts.addUsage (env.fails pending.queue pending.ordinal) h one_pos_toNat hfits
  refine Or.inr (Or.inr ⟨hresource, hlive, hfits, ?_⟩)
  cases hcase : addUsage (env.fails pending.queue pending.ordinal) (s.resources resource)
      pending.identity 1 with
  | error counts =>
    rw [hcase] at hadd
    exact Or.inl ⟨counts, rfl, hadd, rfl⟩
  | ok counts =>
    rw [hcase] at hadd
    subst hresource
    exact Or.inr ⟨counts, hadd, rfl⟩

theorem Accounted.grantPending {s : State α} {kept rest : List (Ticket α)} {pending : Ticket α}
    (h : Accounted profile { s with tickets := kept ++ pending :: rest }) (now : Int)
    {counts : Counters α}
    (hcounts : Accounts counts ((pending.identity, 1) :: s.held pending.resource))
    (hfits : Fits (resourceLimits s.profile pending.resource) (s.held pending.resource)
      pending.identity 1) :
    Accounted profile { grantPending now pending (kept ++ rest) counts s with
      tickets := kept ++ rest } := by
  have hgrant := h.grant { pending with grantedAt := now }
    (List.perm_middle.symm : (pending :: (kept ++ rest)).Perm _) rfl rfl hcounts hfits
  exact hgrant.forget _ _ _

/-- A blocked ticket only has its last observation changed. -/
theorem Accounted.noteBlocked {s : State α} {kept rest : List (Ticket α)} {pending : Ticket α}
    (h : Accounted profile { s with tickets := kept ++ pending :: rest })
    (blocking : AdmissionObservation) :
    Accounted profile { s with
      tickets := (kept ++ [{ pending with lastBlocking := blocking }]) ++ rest } := by
  refine h.retick fun q => ?_
  by_cases hq : pending.queue = q <;> simp [State.waiting, waitingIn, hq]

theorem grantEligibleFrom_accounted (env : DispatchEnv) (resource : ResourceKind)
    (kept rest : List (Ticket α)) (s : State α)
    (h : Accounted profile { s with tickets := kept ++ rest }) :
    Leaves (Accounted profile) (grantEligibleFrom env resource kept rest s) := by
  induction rest generalizing kept s with
  | nil =>
    rw [List.append_nil] at h
    exact h
  | cons pending rest ih =>
    rcases grantEligibleFrom_turn env resource kept pending rest s (h.resources resource) with
      ⟨-, hturn⟩ | ⟨-, -, -, blocking, hturn⟩ |
      ⟨rfl, -, hfits, ⟨counts, -, hcounts, hturn⟩ | ⟨counts, hcounts, hturn⟩⟩
    · rw [hturn]
      exact ih _ _ (by simpa using h)
    · rw [hturn]
      exact ih _ _ (h.noteBlocked blocking)
    · rw [hturn]
      exact h.setResource_error hcounts
    · rw [hturn]
      exact ih _ _ (h.grantPending env.now hcounts hfits)

theorem grantEligibleLocked_accounted (env : DispatchEnv) (resource : ResourceKind)
    {s : State α} (h : Accounted profile s) :
    Leaves (Accounted profile) (grantEligibleLocked env resource s) := by
  rw [grantEligibleLocked]
  split
  · exact h
  · exact grantEligibleFrom_accounted env resource [] s.tickets s h

theorem removeTicketLocked_accounted {s : State α} (h : Accounted profile s) (queue : QueueKind)
    (ordinal : UInt64) : Accounted profile (removeTicketLocked s queue ordinal) := by
  rw [removeTicketLocked]
  split
  · exact h
  · rename_i ticket hfind
    exact h.dropTicket (find?_perm hfind)

/-- A new ticket for a queue it fits in. -/
theorem Accounted.addTicket {s : State α} (h : Accounted profile s) {t : Ticket α}
    {counts : Counters α} (hcounts : Accounts counts ((t.identity, 1) :: s.waiting t.queue))
    (hfits : Fits (queueLimits s.profile t.queue) (s.waiting t.queue) t.identity 1) :
    Accounted profile { s.setQueue t.queue counts with tickets := s.tickets ++ [t] } := by
  have hwait : ∀ q, (waitingIn (s.tickets ++ [t]) q).Perm
      (if t.queue = q then (t.identity, 1) :: s.waiting q else s.waiting q) := by
    intro q
    rw [State.waiting, ← waitingIn_cons]
    exact waitingIn_perm (List.perm_append_singleton ..) q
  have hself := hwait t.queue
  rw [if_pos rfl] at hself
  refine h.updateQueue t.queue (fun q hq => ?_) (hcounts.perm hself.symm)
    (((h.queuesWithin _).add hfits).anti (.of_perm hself))
  have hq' := hwait q
  rw [if_neg (Ne.symm hq)] at hq'
  exact hq'

/-- A thrown or undone charge of a queue changes nothing that is accounted for. -/
theorem Accounted.setQueue_error {s : State α} (h : Accounted profile s) {queue : QueueKind}
    {counts : Counters α} (hcounts : Accounts counts (s.waiting queue)) :
    Accounted profile (s.setQueue queue counts) :=
  h.updateQueue queue (fun _ _ => .refl _) hcounts (h.queuesWithin queue)

theorem chargePermit_accounted (usageFails : Dimension → Bool) {p : PermitHandle α} {s : State α}
    (h : Accounted profile s) (hpos : 0 < p.amount.toNat)
    (hscope : (checkFits (s.resources p.resource) p.identity p.amount
      (resourceLimits s.profile p.resource)).scope = .none) :
    Accounted profile (chargePermit usageFails p s) := by
  have hfits := (checkFits_scope_none_iff (h.resources p.resource) p.identity p.amount _).mp hscope
  have hadd := Accounts.addUsage usageFails (h.resources p.resource) hpos hfits
  rw [chargePermit]
  split
  · rename_i counts hcase
    rw [hcase] at hadd
    exact h.setResource_error hadd
  · rename_i counts hcase
    rw [hcase] at hadd
    have hpermit := h.addPermit hpos hadd hfits
    exact hpermit.forget _ _ _

/-- The bytes of a permit change together with its counters. -/
theorem Accounted.setPermit {s : State α} (h : Accounted profile s) {index : Nat}
    {p : PermitHandle α} (hget : s.permits[index]? = some p) {bytes : UInt64}
    (hpos : 0 < bytes.toNat) {counts : Counters α}
    (hcounts : ∀ others, (s.held p.resource).Perm ((p.identity, p.amount) :: others) →
      Accounts counts ((p.identity, bytes) :: others) ∧
        Within (resourceLimits s.profile p.resource) ((p.identity, bytes) :: others)) :
    Accounted profile { s.setResource p.resource counts with
      permits := s.permits.set index { p with amount := bytes } } := by
  obtain ⟨others, hbefore, hafter⟩ := heldBy_set s.granted hget bytes p.resource
  rw [if_pos rfl] at hbefore hafter
  obtain ⟨haccounts, hwithin⟩ := hcounts others hbefore
  refine h.updateResource p.resource (fun r hr => ?_) (haccounts.perm hafter.symm)
    (hwithin.anti (.of_perm hafter)) ?_
  · obtain ⟨others, hbefore, hafter⟩ := heldBy_set s.granted hget bytes r
    rw [if_neg (Ne.symm hr)] at hbefore hafter
    exact hafter.trans hbefore.symm
  · intro x hx
    rcases List.mem_or_eq_of_mem_set hx with hx | rfl
    · exact h.amounts x hx
    · exact hpos

/-- Shrinking a permit gives the difference back. -/
theorem Accounted.shrink {s : State α} (h : Accounted profile s) {index : Nat}
    {p : PermitHandle α} (hget : s.permits[index]? = some p) {bytes : UInt64}
    (hpos : 0 < bytes.toNat) (hlt : bytes.toNat < p.amount.toNat) :
    Accounted profile { s.setResource p.resource
        (subtractUsage (s.resources p.resource) p.identity (p.amount - bytes)) with
      permits := s.permits.set index { p with amount := bytes } } := by
  have hdiff : (p.amount - bytes).toNat = p.amount.toNat - bytes.toNat :=
    toNat_sub_of_toNat_le hlt.le
  refine h.setPermit hget hpos fun others hheld => ?_
  have hsplit := dominated_split (i := p.identity) (a := p.amount) (b := p.amount - bytes)
    (c := bytes) others (by omega)
  have hbefore := ((h.resources _).perm hheld).congr hsplit.1 hsplit.2
  have hwithin := ((h.resourcesWithin _).anti (.of_perm hheld.symm)).anti hsplit.2
  exact ⟨Accounts.subtract hbefore (by omega),
    hwithin.anti (.of_sublist (List.sublist_cons_self ..))⟩

/-- Growing a permit charges the difference, which was found to fit. -/
theorem Accounted.grow {s : State α} (h : Accounted profile s) {index : Nat}
    {p : PermitHandle α} (hget : s.permits[index]? = some p) {bytes : UInt64}
    (hlt : p.amount.toNat < bytes.toNat) {counts : Counters α}
    (hcounts : Accounts counts ((p.identity, bytes - p.amount) :: s.held p.resource))
    (hfits : Fits (resourceLimits s.profile p.resource) (s.held p.resource) p.identity
      (bytes - p.amount)) :
    Accounted profile { s.setResource p.resource counts with
      permits := s.permits.set index { p with amount := bytes } } := by
  have hdiff : (bytes - p.amount).toNat = bytes.toNat - p.amount.toNat :=
    toNat_sub_of_toNat_le hlt.le
  refine h.setPermit hget (Nat.zero_lt_of_lt hlt) fun others hheld => ?_
  have hsplit := dominated_split (i := p.identity) (a := bytes) (b := bytes - p.amount)
    (c := p.amount) others (by omega)
  have hwithin := ((h.resourcesWithin _).add hfits).anti (.of_perm (hheld.cons _).symm)
  exact ⟨(hcounts.perm (hheld.cons _)).congr hsplit.2 hsplit.1, hwithin.anti hsplit.1⟩

theorem resizeBytes_accounted (usageFails : Dimension → Bool) (kind : ResizeKind) (index : Nat)
    (bytes : UInt64) {s : State α} (h : Accounted profile s) :
    Accounted profile (resizeBytes usageFails kind index bytes s).1 := by
  rw [resizeBytes]
  split
  · exact h
  rename_i handle hget
  dsimp only
  split
  · exact h
  rename_i hvalid
  simp only [Bool.or_eq_true, beq_iff_eq, bne_iff_ne, not_or, not_not] at hvalid
  obtain ⟨hbytes, hresource⟩ := hvalid
  have hpos : 0 < bytes.toNat :=
    Nat.pos_of_ne_zero fun h0 => hbytes (UInt64.toNat_inj.mp h0)
  rw [← hresource]
  split
  · exact h
  rename_i hne
  split
  · rename_i hlt
    exact h.shrink hget hpos (UInt64.lt_iff_toNat_lt.mp hlt)
  · rename_i hge
    have hlt : handle.amount.toNat < bytes.toNat := by
      have hle := Nat.not_lt.mp (mt UInt64.lt_iff_toNat_lt.mpr hge)
      have hne : bytes.toNat ≠ handle.amount.toNat := fun h0 =>
        hne (beq_iff_eq.mpr (UInt64.toNat_inj.mp h0))
      omega
    have hmore : 0 < (bytes - handle.amount).toNat := by
      rw [toNat_sub_of_toNat_le hlt.le]
      omega
    split
    · exact h
    split
    · exact h
    rename_i hscope
    have hfits := (checkFits_scope_none_iff (h.resources handle.resource) handle.identity
      (bytes - handle.amount) _).mp (by simpa using hscope)
    have hadd := Accounts.addUsage usageFails (h.resources handle.resource) hmore hfits
    split
    · rename_i counts hcase
      rw [hcase] at hadd
      exact h.setResource_error hadd
    · rename_i counts hcase
      rw [hcase] at hadd
      exact h.grow hget hlt hadd hfits

/-- Drawing an ordinal and charging the queue, whatever throws on the way. -/
theorem enqueueTicket_accounted {s : State α} (h : Accounted profile s) {ticket : Ticket α}
    (hscope : (checkFits (s.queues ticket.queue) ticket.identity 1
      (queueLimits s.profile ticket.queue)).scope = .none)
    (usageFails : Dimension → Bool) (pushFails : Bool) :
    Accounted profile (enqueueTicket usageFails pushFails ticket s) := by
  have hfits := (checkFits_scope_none_iff (h.queues ticket.queue) ticket.identity 1 _).mp hscope
  have hadd := Accounts.addUsage usageFails (h.queues ticket.queue) one_pos_toNat hfits
  have hspent := h.forget s.terminalReason (Function.update s.nextTicket ticket.queue
    (s.nextTicket ticket.queue + 1)) s.grants
  rw [enqueueTicket]
  split
  · rename_i counts hcase
    rw [hcase] at hadd
    exact hspent.setQueue_error hadd
  · rename_i counts hcase
    rw [hcase] at hadd
    split
    · exact hspent.setQueue_error (Accounts.subtract hadd one_pos_toNat)
    · exact hspent.addTicket hadd hfits

/-- Every primitive change of the sections keeps the accounts. -/
theorem accounted_sections : SectionInvariant (Accounted profile : State α → Prop) where
  dispatch := fun env resource h => grantEligibleLocked_accounted env resource h
  removeTicket := fun queue ordinal h => removeTicketLocked_accounted h queue ordinal
  takeBack := fun h hfind => h.dropGranted (find?_perm hfind)
  collect := fun h hfind => h.collect (find?_perm hfind)
  terminate := fun reason h => h.forget reason _ _
  spend := fun _ h _ => h.forget _ _ _
  enqueueTicket := fun usageFails pushFails h _ _ hscope =>
    enqueueTicket_accounted h hscope usageFails pushFails
  chargePermit := fun usageFails h hpos hscope _ => chargePermit_accounted usageFails h hpos hscope
  resize := fun usageFails kind index bytes h => resizeBytes_accounted usageFails kind index bytes h
  giveBack := fun h hget => by
    obtain ⟨hlt, rfl⟩ := List.getElem?_eq_some_iff.mp hget
    exact h.dropPermit (List.getElem_cons_eraseIdx_perm hlt)

theorem reachable_accounted {profile : AdmissionProfile} {initialTicket : UInt64} {s : State α}
    (h : (controller profile initialTicket).Reachable s) : Accounted profile s :=
  accounted_sections.reachable (accounted_initial profile initialTicket) h

-- ---------------------------------------------------------------------------
-- Live permits
-- ---------------------------------------------------------------------------

/-- A section that ends with `acquired` adds one permit, any other adds none. -/
inductive Issues (s : State α) (resource : ResourceKind) (amount : UInt64) :
    State α × AcquireOutcome → Prop
  | issued {s' : State α} (identity : AdmissionIdentity α) (observation : AdmissionObservation) :
      s'.permits = s.permits ++ [⟨resource, identity, amount⟩] →
      Issues s resource amount (s', .returned .acquired observation)
  | kept {s' : State α} {outcome : AcquireOutcome} :
      s'.permits = s.permits → (∀ observation, outcome ≠ .returned .acquired observation) →
      Issues s resource amount (s', outcome)

omit [DecidableEq α] [StdHash α] in
theorem Issues.of_permits {s s₀ : State α} {resource : ResourceKind} {amount : UInt64}
    {r : State α × AcquireOutcome} (hpermits : s₀.permits = s.permits)
    (h : Issues s₀ resource amount r) : Issues s resource amount r := by
  cases h with
  | issued identity observation hadded => exact .issued identity observation (hpermits ▸ hadded)
  | kept hkept hnone => exact .kept (hkept.trans hpermits) hnone

theorem permits_grantEligibleFrom (env : DispatchEnv) (resource : ResourceKind)
    (kept rest : List (Ticket α)) (s : State α) :
    Leaves (fun s' => s'.permits = s.permits) (grantEligibleFrom env resource kept rest s) := by
  induction rest generalizing kept s with
  | nil => rfl
  | cons pending rest ih =>
    rw [grantEligibleFrom]
    dsimp only
    split
    · exact ih _ s
    split
    · exact ih _ s
    split
    · rfl
    · exact ih kept _

theorem permits_grantEligibleLocked (env : DispatchEnv) (resource : ResourceKind) (s : State α) :
    Leaves (fun s' => s'.permits = s.permits) (grantEligibleLocked env resource s) := by
  rw [grantEligibleLocked]
  split
  · rfl
  · exact permits_grantEligibleFrom env resource [] s.tickets s

theorem permits_of_dispatch {env : DispatchEnv} {resource : ResourceKind} {s : State α}
    {r : Except (State α) (State α)} (hcase : grantEligibleLocked env resource s = r) :
    Leaves (fun s' => s'.permits = s.permits) r :=
  hcase ▸ permits_grantEligibleLocked env resource s

theorem permits_dispatchQuietly (env : DispatchEnv) (resource : ResourceKind) (s : State α) :
    (dispatchQuietly env resource s).permits = s.permits := by
  have hleaves := permits_grantEligibleLocked env resource s
  rw [dispatchQuietly]
  split <;> rename_i hcase <;> rw [hcase] at hleaves <;> exact hleaves

theorem permits_removeTicketLocked (s : State α) (queue : QueueKind) (ordinal : UInt64) :
    (removeTicketLocked s queue ordinal).permits = s.permits := by
  rw [removeTicketLocked]
  split <;> rfl

theorem permits_unwind (env : PollEnv) (queue : QueueKind) (ordinal : UInt64) (s : State α) :
    (unwind env queue ordinal s).permits = s.permits := by
  rw [unwind, permits_dispatchQuietly]
  split
  · rfl
  · exact permits_removeTicketLocked s queue ordinal

theorem permits_waitThrows (env : PollEnv) (queue : QueueKind) (ordinal : UInt64) (s : State α) :
    (waitThrows env queue ordinal s).permits = s.permits := by
  rw [waitThrows]
  split
  · exact permits_unwind env queue ordinal s
  · rfl

theorem collect_issues (env : PollEnv) {queue : QueueKind} {ordinal : UInt64} {ticket : Ticket α}
    {s : State α} (hfind : s.granted.find? (Ticket.is queue ordinal) = some ticket) :
    Issues s queue.resource 1 (collect env ticket s) := by
  have hqueue : ticket.queue = queue := by
    have hself := List.find?_some hfind
    simp only [Ticket.is, Bool.and_eq_true, beq_iff_eq] at hself
    exact hself.1
  rw [collect]
  split
  · exact .kept (permits_unwind env _ _ s) (fun _ => by simp)
  · subst hqueue
    exact .issued ticket.identity _ rfl

theorem poll_issues (env : PollEnv) (queue : QueueKind) (ordinal : UInt64) (s : State α) :
    Issues s queue.resource 1 (poll env queue ordinal s) := by
  have hremoved := permits_removeTicketLocked s queue ordinal
  have hleaves := permits_grantEligibleLocked env.dispatch queue.resource s
  rw [poll]
  split
  · rename_i ticket hfind
    exact collect_issues env hfind
  split
  · exact .kept rfl (fun _ => by simp)
  dsimp only
  -- every way out of the queue takes the ticket along
  split
  · exact .kept hremoved (fun _ => by simp)
  split
  · exact .kept hremoved (fun _ => by simp)
  split
  · exact .kept hremoved (fun _ => by simp)
  split
  · exact .kept hremoved (fun _ => by simp)
  split
  · exact .kept hremoved (fun _ => by simp)
  split
  · rename_i s' hcase
    rw [hcase] at hleaves
    exact .kept ((permits_unwind env queue ordinal s').trans hleaves) (fun _ => by simp)
  · rename_i s' hcase
    rw [hcase] at hleaves
    split
    · rename_i hfind
      exact (collect_issues env hfind).of_permits hleaves
    · exact .kept hleaves (fun _ => by simp)

theorem enqueue_issues (env : AcquireEnv) (queue : QueueKind) (identity : AdmissionIdentity α)
    (wait : AdmissionWaitPolicy) (blocking : AdmissionObservation) (s : State α) :
    Issues s queue.resource 1 (enqueue env queue identity wait blocking s) := by
  rw [enqueue]
  dsimp only
  split
  · exact .kept rfl (fun _ => by simp)
  split
  · exact .kept rfl (fun _ => by simp)
  split
  · exact .kept rfl (fun _ => by simp)
  split
  · exact .kept rfl (fun _ => by simp)
  split
  · exact .kept rfl (fun _ => by simp)
  split
  · rename_i s' hcase
    have hkept := permits_of_dispatch hcase
    exact .kept ((permits_unwind env.poll queue _ s').trans hkept) (fun _ => by simp)
  · rename_i s' hcase
    exact (poll_issues env.poll queue _ s').of_permits (permits_of_dispatch hcase)

theorem acquireQueued_issues (env : AcquireEnv) (queue : QueueKind)
    (identity : AdmissionIdentity α) (wait : AdmissionWaitPolicy) (s : State α) :
    Issues s queue.resource 1 (acquireQueued env queue identity wait s) := by
  rw [acquireQueued]
  split
  · exact .kept rfl (fun _ => by simp)
  split
  · exact .kept rfl (fun _ => by simp)
  split
  · exact .kept rfl (fun _ => by simp)
  split
  · exact .kept rfl (fun _ => by simp)
  split
  · exact .kept rfl (fun _ => by simp)
  split
  · exact .kept rfl (fun _ => by simp)
  dsimp only
  split
  · exact .kept rfl (fun _ => by simp)
  split
  · split
    · exact .kept rfl (fun _ => by simp)
    split
    · exact .kept rfl (fun _ => by simp)
    · exact .issued identity _ rfl
  · exact enqueue_issues env queue identity wait _ s

theorem acquireImmediate_issues (permitFails : Bool) (usageFails : Dimension → Bool)
    (kind : ImmediateKind) (identity : AdmissionIdentity α) (amount : UInt64) (s : State α) :
    Issues s kind.resource amount
      (acquireImmediate permitFails usageFails kind identity amount s) := by
  rw [acquireImmediate]
  split
  · exact .kept rfl (fun _ => by simp)
  split
  · exact .kept rfl (fun _ => by simp)
  dsimp only
  split
  · exact .kept rfl (fun _ => by simp)
  split
  · exact .kept rfl (fun _ => by simp)
  split
  · exact .kept rfl (fun _ => by simp)
  · exact .issued identity _ rfl

/-- What a permit held under a key. -/
def PermitHandle.usage (handle : PermitHandle α) (resource : ResourceKind) (key : UsageKey α) :
    Nat :=
  if handle.resource = resource && key.covers handle.identity then handle.amount.toNat else 0

theorem liveUsage_giveBack {s : State α} {index : Nat} {handle : PermitHandle α}
    (hget : s.permits[index]? = some handle) (resource : ResourceKind) (key : UsageKey α) :
    (s.giveBack index handle).liveUsage resource key + handle.usage resource key =
      s.liveUsage resource key := by
  obtain ⟨hlt, rfl⟩ := List.getElem?_eq_some_iff.mp hget
  have hperm := List.getElem_cons_eraseIdx_perm hlt
  have hsum := ((hperm.filter fun p : PermitHandle α =>
    p.resource = resource && key.covers p.identity).map fun p => p.amount.toNat).sum_eq
  have hpermits : (s.giveBack index s.permits[index]).permits = s.permits.eraseIdx index := rfl
  have hgranted : (s.giveBack index s.permits[index]).granted = s.granted := rfl
  rw [State.liveUsage, State.liveUsage, hpermits, hgranted, ← hsum, List.filter_cons,
    PermitHandle.usage]
  split
  · rw [List.map_cons, List.sum_cons]
    omega
  · rfl

/-- A release takes its permit out of the live ones, gives back exactly what the
permit held, and then dispatches. -/
structure GivesBack (env : DispatchEnv) (s : State α) (index : Nat) (handle : PermitHandle α) :
    Prop where
  permits : (release env index s).permits = s.permits.eraseIdx index
  dispatched : release env index s = dispatchQuietly env handle.resource (s.giveBack index handle)
  usage : ∀ resource key,
    (((s.giveBack index handle).resources resource).recorded key).toNat +
      handle.usage resource key = ((s.resources resource).recorded key).toNat

theorem gives_back {s : State α} (h : Accounted profile s) (env : DispatchEnv) {index : Nat}
    {handle : PermitHandle α} (hget : s.permits[index]? = some handle) :
    GivesBack env s index handle := by
  have hreleased : release env index s =
      dispatchQuietly env handle.resource (s.giveBack index handle) := by
    rw [release, hget]
    rfl
  refine ⟨?_, hreleased, fun resource key => ?_⟩
  · rw [hreleased, permits_dispatchQuietly]
    rfl
  · have hafter := ((accounted_sections.giveBack h hget).resources resource).recorded_eq key
    have hbefore := (h.resources resource).recorded_eq key
    rw [chargedUnder_held] at hafter hbefore
    rw [hafter, hbefore, liveUsage_giveBack hget]

-- ---------------------------------------------------------------------------
-- All interleavings
-- ---------------------------------------------------------------------------

/-- Under every interleaving the recorded usage is what the live permits and
the granted, uncollected tickets amount to, the queue counters count the
waiting tickets, both stay within the profile, no subtraction ever borrows, and
an idle controller is an empty one. A permit comes alive in the section that
returns it, and a release gives back exactly what its permit held. -/
theorem admission_accounting {profile : AdmissionProfile} {initialTicket : UInt64} {s : State α}
    (h : (controller profile initialTicket).Reachable s) :
    (∀ resource key,
      ((s.resources resource).recorded key).toNat = s.liveUsage resource key ∧
        s.liveUsage resource key ≤ (key.limit (resourceLimits profile resource)).toNat) ∧
    (∀ queue key,
      ((s.queues queue).recorded key).toNat = s.waitingCount queue key ∧
        s.waitingCount queue key ≤ (key.limit (queueLimits profile queue)).toNat) ∧
    (∀ resource, (s.resources resource).borrowed = false) ∧
    (∀ queue, (s.queues queue).borrowed = false) ∧
    (s.permits = [] → s.granted = [] → s.tickets = [] →
      (∀ resource, s.resources resource = Counters.empty) ∧
        ∀ queue, s.queues queue = Counters.empty) ∧
    (∀ env queue identity wait,
      Issues s queue.resource 1 (acquireQueued env queue identity wait s)) ∧
    (∀ env queue ordinal, Issues s queue.resource 1 (poll env queue ordinal s)) ∧
    (∀ permitFails usageFails kind identity amount,
      Issues s kind.resource amount
        (acquireImmediate permitFails usageFails kind identity amount s)) ∧
    (∀ env queue ordinal, (waitThrows env queue ordinal s).permits = s.permits) ∧
    ∀ env index handle, s.permits[index]? = some handle → GivesBack env s index handle := by
  have hacc := reachable_accounted h
  obtain rfl := hacc.profileKept
  refine ⟨?_, ?_, fun r => (hacc.resources r).settled, fun q => (hacc.queues q).settled, ?_,
    fun env queue identity wait => acquireQueued_issues env queue identity wait s,
    fun env queue ordinal => poll_issues env queue ordinal s,
    fun permitFails usageFails kind identity amount =>
      acquireImmediate_issues permitFails usageFails kind identity amount s,
    fun env queue ordinal => permits_waitThrows env queue ordinal s,
    fun env index handle hget => gives_back hacc env hget⟩
  · intro resource key
    have hexact := (hacc.resources resource).recorded_eq key
    rw [chargedUnder_held] at hexact
    exact ⟨hexact,
      hexact ▸ (hacc.resources resource).recorded_le (hacc.resourcesWithin resource) key⟩
  · intro queue key
    have hexact := (hacc.queues queue).recorded_eq key
    rw [chargedUnder_waiting] at hexact
    exact ⟨hexact, hexact ▸ (hacc.queues queue).recorded_le (hacc.queuesWithin queue) key⟩
  · intro hpermits hgranted htickets
    refine ⟨fun r => Ledger.eq_empty ?_, fun q => Ledger.eq_empty ?_⟩
    · have := hacc.resources r
      rwa [State.held, hpermits, hgranted] at this
    · have := hacc.queues q
      rwa [State.waiting, htickets] at this

end Accounted

/-- A profile narrowed to a single scan. -/
def oneScanProfile : AdmissionProfile :=
  { AdmissionProfile.hard with activeScans := ⟨1, 1, 1, 1, 1⟩ }

def quietDispatch : DispatchEnv := ⟨0, fun _ _ _ => false⟩

def quietPoll : PollEnv := ⟨false, 0, quietDispatch, false, quietDispatch⟩

def quietAcquire : AcquireEnv :=
  ⟨false, 0, 0, false, fun _ => false, false, false, quietDispatch, quietPoll⟩

def scanOf (operationId : Bytes) : AdmissionIdentity Nat :=
  ⟨ascii "crm", ⟨ascii "https", ascii "api.example", 443⟩, true, ascii "people", .rest,
    operationId, .opaqueAuthority 7⟩

def waitUntil (deadline : Int) : AdmissionWaitPolicy := ⟨deadline, false, 0, false, 0⟩

/-- One scan is admitted, a second one waits for it. -/
def oneHeldOneWaiting : List (Event Nat) :=
  [.acquireScan quietAcquire (scanOf (ascii "list")) (waitUntil 1000),
    .acquireScan quietAcquire (scanOf (ascii "list")) (waitUntil 1000)]

theorem admission_accounting_one_held_one_waiting :
    let s := (controller oneScanProfile 1).run oneHeldOneWaiting
    s.liveUsage .activeScan .global = 1 ∧ s.waitingCount .scan .global = 1 ∧
      ((s.resources .activeScan).recorded .global).toNat = s.liveUsage .activeScan .global ∧
      ((s.queues .scan).recorded .global).toNat = s.waitingCount .scan .global := by
  have h := admission_accounting ((Machine.reachable_iff_run (controller oneScanProfile 1) _).mpr
    ⟨oneHeldOneWaiting, rfl⟩)
  exact ⟨by decide, by decide, (h.1 .activeScan .global).1, (h.2.1 .scan .global).1⟩

end Cuac.Admission

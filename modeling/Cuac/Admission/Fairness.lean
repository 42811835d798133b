import Cuac.Admission.Accounting

/-!
# Admission — fairness

A dispatch scans one vector of tickets in arrival order and grants whatever
fits. What that gives to waiting threads:

* `Grant.Fair` — a grant passed over no older, unexpired ticket of the same
  resource and identity, and an immediate one passed over no ticket of its
  resource at all. Usage only grows during a scan, so a ticket that did not fit
  blocks every later ticket of its identity.
* `Serves` — a dispatch grants every unexpired ticket that fits on top of what
  the tickets before it were granted by the same dispatch, whatever else is
  still blocked.

Main results:

* `step_fair` — every atomic section keeps the order of the vector and the
  fairness of its history.
* `dispatch_serves` — a dispatch without allocation failures serves.
* `admission_fairness` — the statement over all interleavings.
-/

namespace Cuac.Admission

open Cuac.Lib

variable {α : Type}

-- ---------------------------------------------------------------------------
-- Order of the vector
-- ---------------------------------------------------------------------------

/-- What identifies a ticket: it keeps these while it waits. -/
def Ticket.stamp (t : Ticket α) : QueueKind × UInt64 :=
  (t.queue, t.ordinal)

/-- Earlier ordinals come first, within each queue. -/
def Earlier (a b : QueueKind × UInt64) : Prop :=
  a.1 = b.1 → a.2 < b.2

/-- The vector is in arrival order and every ordinal in it has been drawn. -/
structure Ordered (nextTicket : QueueKind → UInt64) (tickets : List (Ticket α)) : Prop where
  sorted : (tickets.map Ticket.stamp).Pairwise Earlier
  drawn : ∀ x ∈ tickets.map Ticket.stamp, x.2 < nextTicket x.1

theorem Ordered.sublist {nextTicket : QueueKind → UInt64} {a b : List (Ticket α)}
    (h : Ordered nextTicket b) (hab : (a.map Ticket.stamp).Sublist (b.map Ticket.stamp)) :
    Ordered nextTicket a where
  sorted := h.sorted.sublist hab
  drawn := fun x hx => h.drawn x (hab.subset hx)

theorem lt_succ_of_ne_max {n : UInt64} (h : n ≠ 0xFFFFFFFFFFFFFFFF) : n < n + 1 := by
  have hne : n.toNat ≠ (0xFFFFFFFFFFFFFFFF : UInt64).toNat := fun h0 => h (UInt64.toNat_inj.mp h0)
  have hmax : (0xFFFFFFFFFFFFFFFF : UInt64).toNat = 2 ^ 64 - 1 := by decide
  have hword := n.toNat_lt
  have hone : (1 : UInt64).toNat = 1 := by decide
  rw [UInt64.lt_iff_toNat_lt, toNat_add_of_lt (by omega)]
  omega

/-- Drawing an ordinal leaves the drawn ones drawn. -/
theorem Ordered.spend {nextTicket : QueueKind → UInt64} {tickets : List (Ticket α)}
    {queue : QueueKind} (h : Ordered nextTicket tickets)
    (hroom : nextTicket queue ≠ 0xFFFFFFFFFFFFFFFF) :
    Ordered (Function.update nextTicket queue (nextTicket queue + 1)) tickets where
  sorted := h.sorted
  drawn := by
    intro x hx
    have hx := h.drawn x hx
    by_cases hq : x.1 = queue
    · rw [hq, Function.update_self]
      rw [hq] at hx
      exact UInt64.lt_trans hx (lt_succ_of_ne_max hroom)
    · rw [Function.update_of_ne hq]
      exact hx

/-- A ticket with the ordinal just drawn goes to the end. -/
theorem Ordered.push {nextTicket : QueueKind → UInt64} {tickets : List (Ticket α)}
    (h : Ordered nextTicket tickets) {t : Ticket α} (hordinal : t.ordinal = nextTicket t.queue)
    (hroom : nextTicket t.queue ≠ 0xFFFFFFFFFFFFFFFF) :
    Ordered (Function.update nextTicket t.queue (nextTicket t.queue + 1)) (tickets ++ [t]) := by
  have hspent := h.spend hroom
  refine ⟨?_, ?_⟩
  · rw [List.map_append, List.pairwise_append]
    refine ⟨h.sorted, List.pairwise_singleton _ _, fun x hx y hy hqueue => ?_⟩
    obtain rfl := List.mem_singleton.mp hy
    have hx := h.drawn x hx
    rw [hqueue] at hx
    show x.2 < t.ordinal
    rw [hordinal]
    exact hx
  · intro x hx
    rw [List.map_append, List.mem_append] at hx
    rcases hx with hx | hx
    · exact hspent.drawn x hx
    · obtain rfl := List.mem_singleton.mp hx
      show t.ordinal < Function.update nextTicket t.queue (nextTicket t.queue + 1) t.queue
      rw [Function.update_self, hordinal]
      exact lt_succ_of_ne_max hroom

-- ---------------------------------------------------------------------------
-- Fair grants
-- ---------------------------------------------------------------------------

/-- Nobody with a better claim was left waiting. -/
def Grant.Fair : Grant α → Prop
  | .queued t now waiting =>
    ∀ u ∈ waiting, u.resource = t.resource → u.identity = t.identity → u.ordinal < t.ordinal →
      ticketExpired u now = true
  | .immediate resource _ waiting => ∀ u ∈ waiting, u.resource ≠ resource

theorem queue_eq_of_resource_eq {a b : QueueKind} (h : a.resource = b.resource) : a = b := by
  cases a <;> cases b <;> first | rfl | cases h

/-- The resources acquired immediately are never queued for. -/
theorem queue_resource_ne_immediate (queue : QueueKind) (kind : ImmediateKind) :
    queue.resource ≠ kind.resource := by
  cases queue <;> cases kind <;> exact fun h => nomatch h

section Passed

variable [DecidableEq α]

/-- Every ticket the scan has passed over is of another resource, expired, or
does not fit what is held by now. -/
def Passed (now : Int) (resource : ResourceKind) (s : State α) (kept : List (Ticket α)) : Prop :=
  ∀ u ∈ kept, u.resource = resource → ticketExpired u now = false →
    ¬ Fits (resourceLimits s.profile resource) (s.held resource) u.identity 1

theorem Passed.snoc {now : Int} {resource : ResourceKind} {s : State α} {kept : List (Ticket α)}
    {t : Ticket α} (h : Passed now resource s kept)
    (ht : t.resource = resource → ticketExpired t now = false →
      ¬ Fits (resourceLimits s.profile resource) (s.held resource) t.identity 1) :
    Passed now resource s (kept ++ [t]) := by
  intro u hu
  rcases List.mem_append.mp hu with hu | hu
  · exact h u hu
  · obtain rfl := List.mem_singleton.mp hu
    exact ht

/-- The ticket the scan grants next overtakes nobody of its identity. -/
theorem Passed.fair_grant {now : Int} {s : State α} {kept rest : List (Ticket α)} {t : Ticket α}
    {nextTicket : QueueKind → UInt64} (h : Passed now t.resource s kept)
    (hordered : Ordered nextTicket (kept ++ t :: rest))
    (hfits : Fits (resourceLimits s.profile t.resource) (s.held t.resource) t.identity 1) :
    (Grant.queued t now (kept ++ rest)).Fair := by
  intro u hu hresource hidentity holder
  rcases List.mem_append.mp hu with hu | hu
  · cases hlive : ticketExpired u now with
    | true => rfl
    | false =>
      rw [← hidentity] at hfits
      exact absurd hfits (h u hu hresource hlive)
  · -- tickets behind it are younger
    have hsorted := hordered.sorted
    rw [List.map_append, List.pairwise_append, List.map_cons, List.pairwise_cons] at hsorted
    have hyounger := hsorted.2.1.1 u.stamp (List.mem_map_of_mem hu)
      (queue_eq_of_resource_eq hresource.symm)
    exact absurd (UInt64.lt_trans holder hyounger) (UInt64.lt_irrefl _)

end Passed

/-- Has a dispatch granted the ticket, with its thread still to collect it? -/
def State.hasGranted (s : State α) (t : Ticket α) : Bool :=
  s.granted.any (Ticket.is t.queue t.ordinal)

/-- The dispatch from `before` to `after` grants every unexpired ticket that
fits on top of what the tickets before it have been granted. -/
def Serves [DecidableEq α] (now : Int) (resource : ResourceKind) (before after : State α) : Prop :=
  ∀ older t younger, before.tickets = older ++ t :: younger → t.resource = resource →
    ticketExpired t now = false →
    Fits (resourceLimits before.profile resource)
      (((older.filter fun u => u.resource = resource && after.hasGranted u).map
        fun u => (u.identity, 1)) ++ before.held resource) t.identity 1 →
    after.hasGranted t = true

section Fair

variable [DecidableEq α] [StdHash α] {profile : AdmissionProfile}

/-- The vector is in order and the history is fair. -/
structure LinedUp (s : State α) : Prop where
  ordered : Ordered s.nextTicket s.tickets
  history : ∀ g ∈ s.grants, g.Fair

structure FairState (profile : AdmissionProfile) (s : State α) : Prop extends LinedUp s where
  accounted : Accounted profile s

theorem held_grantPending (now : Int) (pending : Ticket α) (waiting : List (Ticket α))
    (counts : Counters α) (s : State α) :
    ((grantPending now pending waiting counts s).held pending.resource).Perm
      ((pending.identity, 1) :: s.held pending.resource) := by
  have hmoved := heldBy_perm (.refl s.permits)
    (List.perm_append_singleton { pending with grantedAt := now } s.granted) pending.resource
  have hcons := heldBy_cons_granted { pending with grantedAt := now } s.permits s.granted
    pending.resource
  rw [if_pos (show ({ pending with grantedAt := now } : Ticket α).resource = pending.resource
    from rfl)] at hcons
  exact hmoved.trans hcons

/-- Grants only take capacity away from the tickets passed over. -/
theorem Passed.grantPending {now : Int} {s : State α} {kept : List (Ticket α)} {t : Ticket α}
    (h : Passed now t.resource s kept) (waiting : List (Ticket α)) (counts : Counters α) :
    Passed now t.resource (grantPending now t waiting counts s) kept := by
  intro u hu hresource hlive hfits
  refine h u hu hresource hlive (hfits.anti ?_)
  exact (Dominated.of_sublist (List.sublist_cons_self ..)).trans
    (.of_perm (held_grantPending now t waiting counts s).symm)

theorem grantEligibleFrom_fair (env : DispatchEnv) (resource : ResourceKind)
    (kept rest : List (Ticket α)) (s : State α)
    (h : FairState profile { s with tickets := kept ++ rest })
    (hpassed : Passed env.now resource s kept) :
    Leaves (FairState profile) (grantEligibleFrom env resource kept rest s) := by
  induction rest generalizing kept s with
  | nil =>
    rw [List.append_nil] at h
    exact h
  | cons pending rest ih =>
    have hacc := h.accounted
    rcases grantEligibleFrom_turn env resource kept pending rest s (hacc.resources resource) with
      ⟨hskip, hturn⟩ | ⟨-, -, hblocked, blocking, hturn⟩ |
      ⟨rfl, hlive, hfits, ⟨counts, -, hcounts, hturn⟩ | ⟨counts, hcounts, hturn⟩⟩
    · rw [hturn]
      refine ih _ _ (by simpa using h) (hpassed.snoc fun hresource hlive => ?_)
      rcases hskip with hother | hexpired
      · exact absurd hresource hother
      · rw [hexpired] at hlive
        cases hlive
    · rw [hturn]
      have hnoted : FairState profile { s with
          tickets := (kept ++ [{ pending with lastBlocking := blocking }]) ++ rest } :=
        ⟨⟨h.ordered.sublist (by simp [Ticket.stamp]), h.history⟩, hacc.noteBlocked blocking⟩
      exact ih _ _ hnoted (hpassed.snoc fun _ _ => hblocked)
    · rw [hturn]
      exact ⟨⟨h.ordered, h.history⟩, hacc.setResource_error hcounts⟩
    · rw [hturn]
      refine ih _ _ ⟨⟨?_, ?_⟩, hacc.grantPending env.now hcounts hfits⟩
        (hpassed.grantPending (kept ++ rest) counts)
      · exact h.ordered.sublist (by simp)
      · intro g hg
        rcases List.mem_append.mp hg with hg | hg
        · exact h.history g hg
        · obtain rfl := List.mem_singleton.mp hg
          exact hpassed.fair_grant h.ordered hfits

theorem LinedUp.removeTicket {s : State α} (h : LinedUp s) (queue : QueueKind)
    (ordinal : UInt64) : LinedUp (removeTicketLocked s queue ordinal) := by
  unfold removeTicketLocked
  split
  · exact h
  · exact ⟨h.ordered.sublist (List.eraseP_sublist.map _), h.history⟩

theorem LinedUp.enqueueTicket {s : State α} (h : LinedUp s) {ticket : Ticket α}
    (usageFails : Dimension → Bool) (pushFails : Bool)
    (hordinal : ticket.ordinal = s.nextTicket ticket.queue)
    (hroom : s.nextTicket ticket.queue ≠ 0xFFFFFFFFFFFFFFFF) :
    LinedUp (enqueueTicket usageFails pushFails ticket s) := by
  unfold Admission.enqueueTicket
  dsimp only
  split
  · exact ⟨h.ordered.spend hroom, h.history⟩
  · split
    · exact ⟨h.ordered.spend hroom, h.history⟩
    · exact ⟨h.ordered.push hordinal hroom, h.history⟩

/-- An immediate charge is only made where nobody waits for the resource. -/
theorem LinedUp.chargePermit {s : State α} (h : LinedUp s) {p : PermitHandle α}
    (usageFails : Dimension → Bool)
    (hfree : (∃ kind : ImmediateKind, p.resource = kind.resource) ∨
      ∀ t ∈ s.tickets, t.resource ≠ p.resource) :
    LinedUp (chargePermit usageFails p s) := by
  unfold Admission.chargePermit
  split
  · exact ⟨h.ordered, h.history⟩
  · refine ⟨h.ordered, fun g hg => ?_⟩
    rcases List.mem_append.mp hg with hg | hg
    · exact h.history g hg
    · obtain rfl := List.mem_singleton.mp hg
      intro u hu
      rcases hfree with ⟨kind, hkind⟩ | hfree
      · show u.queue.resource ≠ p.resource
        rw [hkind]
        exact queue_resource_ne_immediate u.queue kind
      · exact hfree u hu

theorem LinedUp.resize {s : State α} (h : LinedUp s) (usageFails : Dimension → Bool)
    (kind : ResizeKind) (index : Nat) (bytes : UInt64) :
    LinedUp (resizeBytes usageFails kind index bytes s).1 := by
  unfold resizeBytes
  split
  · exact h
  dsimp only
  repeat' split
  all_goals exact ⟨h.ordered, h.history⟩

/-- Every primitive change of the sections keeps the order and the history. -/
theorem fair_sections : SectionInvariant (FairState profile : State α → Prop) where
  dispatch := fun {s} env resource h => by
    rw [grantEligibleLocked]
    split
    · exact h
    · exact grantEligibleFrom_fair env resource [] s.tickets s h fun _ hu =>
        absurd hu List.not_mem_nil
  removeTicket := fun queue ordinal h =>
    ⟨h.removeTicket queue ordinal, accounted_sections.removeTicket queue ordinal h.accounted⟩
  takeBack := fun h hfind =>
    ⟨⟨h.ordered, h.history⟩, accounted_sections.takeBack h.accounted hfind⟩
  collect := fun h hfind =>
    ⟨⟨h.ordered, h.history⟩, accounted_sections.collect h.accounted hfind⟩
  terminate := fun reason h =>
    ⟨⟨h.ordered, h.history⟩, accounted_sections.terminate reason h.accounted⟩
  spend := fun queue h hroom =>
    ⟨⟨h.ordered.spend hroom, h.history⟩, accounted_sections.spend queue h.accounted hroom⟩
  enqueueTicket := fun usageFails pushFails h hordinal hroom hscope =>
    ⟨h.enqueueTicket usageFails pushFails hordinal hroom,
      accounted_sections.enqueueTicket usageFails pushFails h.accounted hordinal hroom hscope⟩
  chargePermit := fun usageFails h hpos hscope hfree =>
    ⟨h.chargePermit usageFails hfree,
      accounted_sections.chargePermit usageFails h.accounted hpos hscope hfree⟩
  resize := fun usageFails kind index bytes h =>
    ⟨h.resize usageFails kind index bytes,
      accounted_sections.resize usageFails kind index bytes h.accounted⟩
  giveBack := fun h hget =>
    ⟨⟨h.ordered, h.history⟩, accounted_sections.giveBack h.accounted hget⟩

theorem reachable_fair {initialTicket : UInt64} {s : State α}
    (h : (controller profile initialTicket).Reachable s) : FairState profile s :=
  fair_sections.reachable ⟨⟨⟨List.Pairwise.nil, fun _ hx => nomatch hx⟩, fun _ hg => nomatch hg⟩,
    accounted_initial profile initialTicket⟩ h

-- ---------------------------------------------------------------------------
-- Served tickets
-- ---------------------------------------------------------------------------

omit [DecidableEq α] [StdHash α] in
theorem hasGranted_of_mem {s : State α} {t : Ticket α} {now : Int}
    (h : { t with grantedAt := now } ∈ s.granted) : s.hasGranted t = true :=
  List.any_eq_true.mpr ⟨_, h, by simp [Ticket.is]⟩

/-- Only allocations throw while charging. -/
theorem addUsage_ne_error {fails : Dimension → Bool} (hfails : ∀ d, fails d = false)
    (c : Counters α) (identity : AdmissionIdentity α) (amount : UInt64) (counts : Counters α) :
    addUsage fails c identity amount ≠ .error counts := by
  have hsome : ∀ {κ : Type} [DecidableEq κ] (hashOf : κ → UInt64) (l : List (KeyCount κ)) (k : κ),
      tryAddCount hashOf false l k amount = some (addCount hashOf l k amount) := fun _ _ _ => rfl
  unfold addUsage
  simp only [hfails, hsome]
  split_ifs <;> simp

/-- Without allocation failures a scan goes through, and never takes a grant
back. -/
theorem grantEligibleFrom_ok {env : DispatchEnv} (hfails : ∀ q o d, env.fails q o d = false)
    (resource : ResourceKind) (kept rest : List (Ticket α)) (s : State α)
    (h : Accounted profile { s with tickets := kept ++ rest }) :
    ∃ s', grantEligibleFrom env resource kept rest s = .ok s' ∧
      ∀ g ∈ s.granted, g ∈ s'.granted := by
  induction rest generalizing kept s with
  | nil => exact ⟨_, rfl, fun g hg => hg⟩
  | cons pending rest ih =>
    rcases grantEligibleFrom_turn env resource kept pending rest s (h.resources resource) with
      ⟨-, hturn⟩ | ⟨-, -, -, blocking, hturn⟩ |
      ⟨rfl, -, hfits, ⟨counts, hthrown, -, -⟩ | ⟨counts, hcounts, hturn⟩⟩
    · rw [hturn]
      exact ih _ _ (by simpa using h)
    · rw [hturn]
      exact ih _ _ (h.noteBlocked blocking)
    · exact absurd hthrown (addUsage_ne_error (hfails _ _) _ _ _ _)
    · rw [hturn]
      obtain ⟨s', hok, hkeeps⟩ := ih _ _ (h.grantPending env.now hcounts hfits)
      exact ⟨s', hok, fun g hg => hkeeps g (List.mem_append_left _ hg)⟩

/-- The scan up to a ticket: if it fits on top of what the tickets before it
are granted by this scan, it is granted too. -/
theorem grantEligibleFrom_serves {env : DispatchEnv} (hfails : ∀ q o d, env.fails q o d = false)
    (kept older younger : List (Ticket α)) (t : Ticket α) (s : State α)
    (hlive : ticketExpired t env.now = false)
    (h : Accounted profile { s with tickets := kept ++ (older ++ t :: younger) }) :
    ∃ (s' : State α) (newly : List (Ticket α)),
      grantEligibleFrom env t.resource kept (older ++ t :: younger) s = .ok s' ∧
      newly.Sublist older ∧ (∀ u ∈ newly, u.resource = t.resource ∧ s'.hasGranted u = true) ∧
      (∀ g ∈ s.granted, g ∈ s'.granted) ∧
      (Fits (resourceLimits s.profile t.resource)
          ((newly.map fun u => (u.identity, 1)) ++ s.held t.resource) t.identity 1 →
        s'.hasGranted t = true) := by
  induction older generalizing kept s with
  | nil =>
    obtain ⟨s', hok, hkeeps⟩ := grantEligibleFrom_ok hfails t.resource kept (t :: younger) s h
    refine ⟨s', [], hok, List.nil_sublist _, fun _ hu => (nomatch hu), hkeeps, fun hfits => ?_⟩
    rcases grantEligibleFrom_turn env t.resource kept t younger s (h.resources t.resource) with
      ⟨hskip, -⟩ | ⟨-, -, hblocked, -⟩ |
      ⟨-, -, hfits, ⟨counts, hthrown, -, -⟩ | ⟨counts, hcounts, hturn⟩⟩
    · rw [hlive] at hskip
      simp at hskip
    · exact absurd hfits hblocked
    · exact absurd hthrown (addUsage_ne_error (hfails _ _) _ _ _ _)
    · obtain ⟨s'', hok', hkeeps'⟩ := grantEligibleFrom_ok hfails t.resource kept younger _
        (h.grantPending env.now hcounts hfits)
      have hsame : s' = s'' := by
        have hboth := hok.symm.trans (hturn.trans hok')
        exact Except.ok.inj hboth
      subst hsame
      exact hasGranted_of_mem (hkeeps' _ (List.mem_append_right _ (List.mem_singleton_self _)))
  | cons u older ih =>
    rcases grantEligibleFrom_turn env t.resource kept u (older ++ t :: younger) s
        (h.resources t.resource) with
      ⟨-, hturn⟩ | ⟨-, -, -, blocking, hturn⟩ |
      ⟨hresource, -, hfits, ⟨counts, hthrown, -, -⟩ | ⟨counts, hcounts, hturn⟩⟩
    · obtain ⟨s', newly, hok, hsub, hrest⟩ := ih (kept ++ [u]) s (by simpa using h)
      exact ⟨s', newly, hturn.trans hok, hsub.cons _, hrest⟩
    · obtain ⟨s', newly, hok, hsub, hrest⟩ :=
        ih (kept ++ [{ u with lastBlocking := blocking }]) s (h.noteBlocked blocking)
      exact ⟨s', newly, hturn.trans hok, hsub.cons _, hrest⟩
    · exact absurd hthrown (addUsage_ne_error (hfails _ _) _ _ _ _)
    · have hnext := h.grantPending env.now (hresource ▸ hcounts) (hresource ▸ hfits)
      obtain ⟨s', newly, hok, hsub, hnewly, hkeeps, hserved⟩ := ih kept _ hnext
      refine ⟨s', u :: newly, hturn.trans hok, hsub.cons_cons _, ?_,
        fun g hg => hkeeps g (List.mem_append_left _ hg), fun hfit => hserved (hfit.anti ?_)⟩
      · intro x hx
        rcases List.mem_cons.mp hx with rfl | hx
        · exact ⟨hresource, hasGranted_of_mem
            (hkeeps _ (List.mem_append_right _ (List.mem_singleton_self _)))⟩
        · exact hnewly x hx
      · -- the grant just made moves from the held charges to the new ones
        have hheld := held_grantPending env.now u (kept ++ (older ++ t :: younger)) counts s
        rw [hresource] at hheld
        exact .of_perm ((hheld.append_left _).trans List.perm_middle)

theorem dispatch_serves {env : DispatchEnv} (hfails : ∀ q o d, env.fails q o d = false)
    (resource : ResourceKind) {s : State α} (h : Accounted profile s)
    (hopen : s.terminalReason = .none) :
    Serves env.now resource s (dispatchQuietly env resource s) := by
  rintro older t younger htickets rfl hlive hfits
  have hacc : Accounted profile { s with tickets := [] ++ (older ++ t :: younger) } := by
    rw [List.nil_append, ← htickets]
    exact h
  obtain ⟨s', newly, hok, hsub, hnewly, -, hserved⟩ :=
    grantEligibleFrom_serves hfails [] older younger t s hlive hacc
  have hdispatch : dispatchQuietly env t.resource s = s' := by
    rw [dispatchQuietly, grantEligibleLocked, if_neg (by simp [hopen]), htickets, hok]
  rw [hdispatch] at hfits ⊢
  refine hserved (hfits.anti (.of_sublist ?_))
  refine List.Sublist.append (List.Sublist.map _ ?_) (List.Sublist.refl _)
  have hall : newly.filter (fun u => decide (u.resource = t.resource) && s'.hasGranted u) = newly :=
    List.filter_eq_self.mpr fun u hu => by simp [hnewly u hu]
  rw [← hall]
  exact hsub.filter _

/-- In every interleaving: a queued grant leaves no older, unexpired ticket of
the same resource and identity waiting; an immediate acquisition leaves no
ticket of its resource waiting; and when a permit or an uncollected grant gives
capacity back to an open controller, the dispatch that follows grants every
unexpired ticket that fits at its turn. -/
theorem admission_fairness {initialTicket : UInt64} {s : State α}
    (h : (controller profile initialTicket).Reachable s) :
    (∀ t now waiting, Grant.queued t now waiting ∈ s.grants →
      ∀ u ∈ waiting, u.resource = t.resource → u.identity = t.identity → u.ordinal < t.ordinal →
        ticketExpired u now = true) ∧
    (∀ resource identity waiting, Grant.immediate resource identity waiting ∈ s.grants →
      ∀ u ∈ waiting, u.resource ≠ resource) ∧
    (∀ env index handle, s.permits[index]? = some handle → s.terminalReason = .none →
      (∀ q o d, env.fails q o d = false) →
      Serves env.now handle.resource (s.giveBack index handle) (release env index s)) ∧
    (∀ env queue ordinal ticket, s.granted.find? (Ticket.is queue ordinal) = some ticket →
      env.materializationFails = true → s.terminalReason = .none →
      (∀ q o d, env.recovery.fails q o d = false) →
      Serves env.recovery.now ticket.resource (s.takeBack queue ordinal ticket)
        (poll env queue ordinal s).1) := by
  have hfair := reachable_fair h
  refine ⟨fun t now waiting hg => hfair.history _ hg,
    fun resource identity waiting hg => hfair.history _ hg, ?_, ?_⟩
  · intro env index handle hget hopen hfails
    have hrelease : release env index s =
        dispatchQuietly env handle.resource (s.giveBack index handle) := by
      unfold release
      rw [hget]
      rfl
    rw [hrelease]
    exact dispatch_serves hfails _ (accounted_sections.giveBack hfair.accounted hget) hopen
  · intro env queue ordinal ticket hfind hthrows hopen hfails
    have hself := List.find?_some hfind
    simp only [Ticket.is, Bool.and_eq_true, beq_iff_eq] at hself
    obtain ⟨rfl, rfl⟩ := hself
    have hpoll : (poll env ticket.queue ticket.ordinal s).1 = dispatchQuietly env.recovery
        ticket.resource (s.takeBack ticket.queue ticket.ordinal ticket) := by
      unfold poll
      rw [hfind]
      simp only [collect, hthrows, if_true, unwind, hfind]
      rfl
    rw [hpoll]
    exact dispatch_serves hfails _ (accounted_sections.takeBack hfair.accounted hfind) hopen

end Fair

/-- One scan runs; two others, of different bulkheads, wait for it. -/
def oneHeldTwoWaiting : List (Event Nat) :=
  [.acquireScan quietAcquire (scanOf (ascii "list")) (waitUntil 1000),
    .acquireScan quietAcquire (scanOf (ascii "search")) (waitUntil 1000),
    .acquireScan quietAcquire (scanOf (ascii "export")) (waitUntil 1000)]

theorem admission_fairness_two_waiting :
    let s := (controller oneScanProfile 1).run oneHeldTwoWaiting
    Serves 0 .activeScan (s.giveBack 0 ⟨.activeScan, scanOf (ascii "list"), 1⟩)
      (release quietDispatch 0 s) := by
  have h := admission_fairness ((Machine.reachable_iff_run (controller oneScanProfile 1) _).mpr
    ⟨oneHeldTwoWaiting, rfl⟩)
  exact h.2.2.1 quietDispatch 0 _ (by decide) (by decide) (fun _ _ _ => rfl)

/-- Fitting when the capacity comes back is not enough: an older ticket of
another identity may take it first. -/
theorem younger_fitting_ticket_not_granted :
    ∃ (s : State Nat) (index : Nat) (handle : PermitHandle Nat) (t : Ticket Nat),
      (controller oneScanProfile 1).Reachable s ∧ s.terminalReason = .none ∧
      s.permits[index]? = some handle ∧ t ∈ s.tickets ∧ t.resource = handle.resource ∧
      ticketExpired t quietDispatch.now = false ∧
      (∀ u ∈ s.tickets, u.identity = t.identity → u = t) ∧
      Fits (resourceLimits s.profile handle.resource)
        ((s.giveBack index handle).held handle.resource) t.identity 1 ∧
      (release quietDispatch index s).hasGranted t = false := by
  refine ⟨(controller oneScanProfile 1).run oneHeldTwoWaiting, 0,
    ⟨.activeScan, scanOf (ascii "list"), 1⟩,
    ((controller oneScanProfile 1).run oneHeldTwoWaiting).tickets.getLast (by decide),
    (Machine.reachable_iff_run _ _).mpr ⟨_, rfl⟩, ?_⟩
  refine ⟨by decide, by decide, List.getLast_mem _, by decide, by decide, by decide, ?_, by decide⟩
  exact ⟨by decide, by decide, by decide, fun _ => by decide, fun _ => by decide⟩

end Cuac.Admission

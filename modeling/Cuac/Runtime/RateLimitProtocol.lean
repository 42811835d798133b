import Cuac.Lib.Machine
import Cuac.Lib.Tally
import Cuac.Runtime.RateLimitCoordinator

/-!
# Runtime — the rate-limit protocol

The coordinator with its callers: threads inside `WaitForTicket` and live
permits. Every locked section is one event, so a run is an interleaving of the
callers' sections; wakeups come in any order and any number.

The invariant has two halves. `Counted` is about the table alone: no idle
bucket, every bucket and the table within the limits, the counter exact.
`Linked` ties the table to the callers: a bucket is marked exactly when its one
permit is alive, and its queue is the list of its waiters in ticket order.

Main results:

* `serve_outcome` — what one section does, from any state that meets the invariant.
* `serve_embargo` — which sections raise an embargo, and to what.
* `waits_bounded` — a wait is short and stops at the caller's deadline.
* `rate_limit_protocol` — what holds at every moment of every run.
-/

namespace Cuac.Runtime.RateLimit

open Cuac.Lib

-- ---------------------------------------------------------------------------
-- The system
-- ---------------------------------------------------------------------------

/-- A thread inside `WaitForTicket`. -/
structure Waiter (ι : Type) where
  key : QuotaBucketKey ι
  ticket : UInt64
  deadline : Int
  deriving DecidableEq, Repr

/-- The shared state, the waiting threads and the live permits. A permit is no
more than its handle's key. -/
structure System (ι : Type) where
  shared : SharedState ι
  waiters : List (Waiter ι)
  permits : List (QuotaBucketKey ι)
  deriving DecidableEq, Repr

variable {ι : Type} [DecidableEq ι]

namespace System

def initial (shared : SharedState ι) : System ι := ⟨shared, [], []⟩

/-- The waiters other than the one with this ticket. -/
def others (s : System ι) (ticket : UInt64) : List (Waiter ι) :=
  s.waiters.filter fun w => w.ticket ≠ ticket

/-- One turn of a waiter, and the waiter again when it leaves with the permit.
Its thread stays only if it waits on. -/
def turn (reading : Reading) (w : Waiter ι) (s : System ι) : Option (Waiter ι) × System ι :=
  match waitTurn reading w.key w.ticket w.deadline s.shared with
  | (.waits _, shared) => (none, { s with shared := shared })
  | (.granted, shared) => (some w, ⟨shared, s.others w.ticket, w.key :: s.permits⟩)
  | (.returned _, shared) => (none, { s with shared := shared, waiters := s.others w.ticket })
  | (.threw, shared) => (none, { s with shared := shared, waiters := s.others w.ticket })

/-- The end of a call's first section: with a ticket it takes its first turn
under the same lock. -/
def enter (entry : Entry × SharedState ι) (reading : Reading) (key : QuotaBucketKey ι)
    (deadline : Int) (permits : List (QuotaBucketKey ι)) (s : System ι) :
    Option (Waiter ι) × System ι :=
  match entry with
  | (.queued ticket, shared) =>
    turn reading ⟨key, ticket, deadline⟩
      ⟨shared, s.waiters ++ [⟨key, ticket, deadline⟩], permits⟩
  | (.returned _, shared) => (none, { s with shared := shared })
  | (.threw, shared) => (none, { s with shared := shared })

end System

/-- The locked sections of the callers. A permit is named by its key, a waiter
by its ticket; naming none of them does nothing. -/
inductive Event (ι : Type) where
  | acquire (env : EntryEnv) (reading : Reading) (key : QuotaBucketKey ι)
      (eligible deadline : Int)
  | wake (reading : Reading) (ticket : UInt64)
  | waitThrew (ticket : UInt64)
  | requeue (env : EntryEnv) (reading : Reading) (key : QuotaBucketKey ι)
      (eligible deadline : Int)
  | complete (key : QuotaBucketKey ι)
  | extendEligibleTime (key : QuotaBucketKey ι) (eligible : Int)
  | close
  deriving DecidableEq, Repr

/-- The clock a section reads. -/
def Event.now : Event ι → Option Int
  | .acquire _ reading _ _ _ | .wake reading _ | .requeue _ reading _ _ _ => some reading.now
  | .waitThrew _ | .complete _ | .extendEligibleTime _ _ | .close => none

def Waiter.has (ticket : UInt64) (w : Waiter ι) : Bool :=
  w.ticket == ticket

/-- One locked section, with the waiter it grants a permit to. -/
def System.serve (s : System ι) : Event ι → Option (Waiter ι) × System ι
  | .acquire env reading key eligible deadline =>
    s.enter (acquire env key eligible s.shared) reading key deadline s.permits
  | .wake reading ticket =>
    match s.waiters.find? (Waiter.has ticket) with
    | none => (none, s)
    | some w => s.turn reading w
  | .waitThrew ticket =>
    match s.waiters.find? (Waiter.has ticket) with
    | none => (none, s)
    | some w =>
      (none,
        { s with shared := waitThrew w.key w.ticket s.shared, waiters := s.others w.ticket })
  | .requeue env reading key eligible deadline =>
    if key ∈ s.permits then
      s.enter (requeue env key eligible s.shared) reading key deadline (s.permits.erase key)
    else (none, s)
  | .complete key =>
    if key ∈ s.permits then
      (none, { s with shared := complete key s.shared, permits := s.permits.erase key })
    else (none, s)
  | .extendEligibleTime key eligible =>
    if key ∈ s.permits then
      (none, { s with shared := (extendEligibleTime key eligible s.shared).2 })
    else (none, s)
  | .close => (none, { s with shared := close s.shared })

/-- The protocol as a machine. -/
def rateLimiter (shared : SharedState ι) : Machine (System ι) (Event ι) :=
  ⟨System.initial shared, fun s e => (s.serve e).2⟩

-- ---------------------------------------------------------------------------
-- The table
-- ---------------------------------------------------------------------------

/-- Waiting tickets and the permit of a bucket. -/
def BucketState.occupancy (b : BucketState) : Nat :=
  b.tickets.length + if b.permitted then 1 else 0

/-- The occupancy of a bucket that may be absent. -/
def occupancyOf (b : Option BucketState) : Nat :=
  (b.map BucketState.occupancy).getD 0

@[simp] theorem occupancyOf_none : occupancyOf none = 0 := rfl

@[simp] theorem occupancyOf_some (b : BucketState) : occupancyOf (some b) = b.occupancy := rfl

theorem occupancyOf_unlessIdle (b : BucketState) : occupancyOf b.unlessIdle = b.occupancy := by
  rw [BucketState.unlessIdle]
  split
  · rename_i hidle
    simp only [Bool.and_eq_true, Bool.not_eq_true', List.isEmpty_iff] at hidle
    simp [BucketState.occupancy, hidle.1, hidle.2]
  · rfl

theorem unlessIdle_eq_some {b kept : BucketState} (h : b.unlessIdle = some kept) :
    kept = b ∧ 0 < b.occupancy := by
  rw [BucketState.unlessIdle] at h
  split at h
  · cases h
  · rename_i hbusy
    obtain rfl := Option.some.inj h
    refine ⟨rfl, ?_⟩
    rw [BucketState.occupancy]
    simp only [Bool.and_eq_true, Bool.not_eq_true', List.isEmpty_iff, not_and] at hbusy
    cases hpermitted : b.permitted with
    | true => simp
    | false => simpa using List.length_pos_of_ne_nil (hbusy hpermitted)

def permittedIn (b : Option BucketState) : Bool :=
  (b.map BucketState.permitted).getD false

def queueIn (b : Option BucketState) : List UInt64 :=
  (b.map BucketState.tickets).getD []

theorem permittedIn_unlessIdle (b : BucketState) : permittedIn b.unlessIdle = b.permitted := by
  rw [BucketState.unlessIdle]
  split
  · rename_i hidle
    simp only [Bool.and_eq_true, Bool.not_eq_true'] at hidle
    rw [hidle.1]
    rfl
  · rfl

theorem queueIn_unlessIdle (b : BucketState) : queueIn b.unlessIdle = b.tickets := by
  rw [BucketState.unlessIdle]
  split
  · rename_i hidle
    simp only [Bool.and_eq_true, List.isEmpty_iff] at hidle
    rw [hidle.2]
    rfl
  · rfl

theorem occupancyOf_eq (b : Option BucketState) :
    occupancyOf b = (queueIn b).length + if permittedIn b then 1 else 0 := by
  cases b <;> rfl

/-- Two buckets that may differ in their embargo only. -/
structure Alike (v u : Option BucketState) : Prop where
  permitted : permittedIn v = permittedIn u
  queue : queueIn v = queueIn u
  present : v.isSome = u.isSome

theorem Alike.occupancy {v u : Option BucketState} (h : Alike v u) :
    occupancyOf v = occupancyOf u := by
  rw [occupancyOf_eq, occupancyOf_eq, h.permitted, h.queue]

/-- No bucket is idle, every bucket and the table are within the limits, and
the counter is the table's occupancy. -/
structure Counted (shared : SharedState ι) : Prop where
  keys : (shared.buckets.map Prod.fst).Nodup
  occupied : ∀ {key b}, shared.bucket key = some b → 0 < b.occupancy
  perKey : ∀ {key b}, shared.bucket key = some b →
    b.occupancy ≤ shared.limits.waitersPerKey.toNat
  counted : shared.totalWaiters.toNat = weigh BucketState.occupancy shared.buckets
  bounded : shared.totalWaiters.toNat ≤ shared.limits.totalWaiters.toNat
  hardPerKey : shared.limits.waitersPerKey.toNat ≤ 64
  hardTotal : shared.limits.totalWaiters.toNat ≤ 4096

/-- Everything the books say about a table that differs in one bucket. -/
structure Rebucketed (key : QuotaBucketKey ι) (v : Option BucketState)
    (before after : SharedState ι) : Prop where
  buckets : after.buckets = assign key v before.buckets
  limits : after.limits = before.limits
  terminal : after.terminalStatus = before.terminalStatus

namespace Counted

variable {shared after : SharedState ι} {key : QuotaBucketKey ι} {v : Option BucketState}

theorem bucket_eq (h : Counted shared) (hset : Rebucketed key v shared after)
    (k : QuotaBucketKey ι) :
    after.bucket k = if k = key then v else shared.bucket k := by
  rw [SharedState.bucket, hset.buckets]
  exact lookup_assign h.keys k

theorem bucket_setBucket (h : Counted shared) (key : QuotaBucketKey ι)
    (v : Option BucketState) : (shared.setBucket key v).bucket key = v := by
  have hset : Rebucketed key v shared (shared.setBucket key v) := ⟨rfl, rfl, rfl⟩
  rw [h.bucket_eq hset, if_pos rfl]

/-- Replacing one bucket keeps the books when the counter moves with it. -/
theorem set (h : Counted shared) (hset : Rebucketed key v shared after)
    (hv : ∀ b, v = some b → 0 < b.occupancy ∧ b.occupancy ≤ shared.limits.waitersPerKey.toNat)
    (htotal : after.totalWaiters.toNat + occupancyOf (shared.bucket key) =
      shared.totalWaiters.toNat + occupancyOf v)
    (hbound : after.totalWaiters.toNat ≤ shared.limits.totalWaiters.toNat) :
    Counted after where
  keys := by
    rw [hset.buckets]
    exact nodup_keys_assign h.keys
  occupied := by
    intro k b hb
    rw [h.bucket_eq hset] at hb
    split at hb
    · exact (hv b hb).1
    · exact h.occupied hb
  perKey := by
    intro k b hb
    rw [hset.limits]
    rw [h.bucket_eq hset] at hb
    split at hb
    · exact (hv b hb).2
    · exact h.perKey hb
  counted := by
    have hmoved := weigh_assign BucketState.occupancy key v shared.buckets
    have hcounted := h.counted
    change _ + occupancyOf (shared.bucket key) = _ + occupancyOf v at hmoved
    rw [hset.buckets]
    omega
  bounded := by
    rw [hset.limits]
    exact hbound
  hardPerKey := hset.limits ▸ h.hardPerKey
  hardTotal := hset.limits ▸ h.hardTotal

theorem occupancy_le_total (h : Counted shared) {b : BucketState}
    (hb : shared.bucket key = some b) : b.occupancy ≤ shared.totalWaiters.toNat := by
  rw [h.counted]
  exact weigh_le_of_lookup hb

/-- An occupant leaves: a bucket that keeps another stays, an idle one is erased. -/
theorem shrink (h : Counted shared) {b b' : BucketState} (hb : shared.bucket key = some b)
    (hset : Rebucketed key b'.unlessIdle shared after) (hone : b.occupancy = b'.occupancy + 1)
    (htotal : after.totalWaiters = shared.totalWaiters - 1) : Counted after := by
  have hle := h.occupancy_le_total hb
  have hper := h.perKey hb
  have hbounded := h.bounded
  have hsub : after.totalWaiters.toNat = shared.totalWaiters.toNat - 1 := by
    rw [htotal]
    exact toNat_sub_of_toNat_le (by show 1 ≤ _; omega)
  refine h.set hset ?_ ?_ (by omega)
  · intro kept hkept
    obtain ⟨rfl, hpos⟩ := unlessIdle_eq_some hkept
    exact ⟨hpos, by omega⟩
  · rw [hb, occupancyOf_some, occupancyOf_unlessIdle]
    omega

/-- A change inside one bucket that keeps its occupancy. -/
theorem replace (h : Counted shared) (hset : Rebucketed key v shared after)
    (hsame : occupancyOf v = occupancyOf (shared.bucket key))
    (hpresent : v.isSome = (shared.bucket key).isSome)
    (htotal : after.totalWaiters = shared.totalWaiters) : Counted after := by
  refine h.set hset ?_ ?_ (htotal ▸ h.bounded)
  · rintro b rfl
    obtain ⟨b', hb⟩ := Option.isSome_iff_exists.mp hpresent.symm
    rw [hb, occupancyOf_some, occupancyOf_some] at hsame
    rw [hsame]
    exact ⟨h.occupied hb, h.perKey hb⟩
  · rw [hsame, htotal]

/-- One more occupant, below both limits. -/
theorem grow (h : Counted shared) {b' : BucketState}
    (hset : Rebucketed key (some b') shared after)
    (hone : b'.occupancy = occupancyOf (shared.bucket key) + 1)
    (htotal : after.totalWaiters = shared.totalWaiters + 1)
    (hkey : occupancyOf (shared.bucket key) < shared.limits.waitersPerKey.toNat)
    (hroom : shared.totalWaiters.toNat < shared.limits.totalWaiters.toNat) : Counted after := by
  have hhard := h.hardTotal
  have hadd : after.totalWaiters.toNat = shared.totalWaiters.toNat + 1 := by
    rw [htotal]
    exact toNat_add_of_lt (by show _ + 1 < _; omega)
  refine h.set hset ?_ ?_ (by omega)
  · intro other hother
    obtain rfl := Option.some.inj hother
    omega
  · rw [occupancyOf_some]
    omega

end Counted

-- ---------------------------------------------------------------------------
-- Closing the table
-- ---------------------------------------------------------------------------

omit [DecidableEq ι] in
theorem mem_drain {total : UInt64} {buckets : List (QuotaBucketKey ι × BucketState)}
    {kv : QuotaBucketKey ι × BucketState} :
    kv ∈ (SharedState.drain total buckets).2 ↔
      ∃ b, (kv.1, b) ∈ buckets ∧ b.permitted = true ∧ kv.2 = { b with tickets := [] } := by
  induction buckets generalizing total with
  | nil => simp [SharedState.drain]
  | cons first rest ih =>
    obtain ⟨k, b⟩ := first
    rw [SharedState.drain]
    dsimp only
    by_cases hpermitted : b.permitted = true
    · rw [if_pos hpermitted]
      simp only [List.mem_cons, ih, Prod.mk.injEq]
      constructor
      · rintro (rfl | ⟨b', hmem, hrest⟩)
        · exact ⟨b, Or.inl ⟨rfl, rfl⟩, hpermitted, rfl⟩
        · exact ⟨b', Or.inr hmem, hrest⟩
      · rintro ⟨b', ⟨hk, rfl⟩ | hmem, hp, hkv⟩
        · exact Or.inl (Prod.ext hk hkv)
        · exact Or.inr ⟨b', hmem, hp, hkv⟩
    · rw [if_neg hpermitted]
      simp only [List.mem_cons, ih, Prod.mk.injEq]
      constructor
      · rintro ⟨b', hmem, hrest⟩
        exact ⟨b', Or.inr hmem, hrest⟩
      · rintro ⟨b', ⟨-, rfl⟩ | hmem, hp, hkv⟩
        · exact absurd hp hpermitted
        · exact ⟨b', hmem, hp, hkv⟩

omit [DecidableEq ι] in
theorem drain_keys (total : UInt64) (buckets : List (QuotaBucketKey ι × BucketState)) :
    ((SharedState.drain total buckets).2.map Prod.fst).Sublist (buckets.map Prod.fst) := by
  induction buckets generalizing total with
  | nil => exact List.Sublist.refl _
  | cons first rest ih =>
    obtain ⟨k, b⟩ := first
    rw [SharedState.drain]
    dsimp only
    split
    · exact (ih _).cons_cons _
    · exact (ih _).cons _

omit [DecidableEq ι] in
/-- The loop takes every queue off the counter; the permits stay on it. -/
theorem drain_counts {total : UInt64} {buckets : List (QuotaBucketKey ι × BucketState)}
    (h : weigh BucketState.occupancy buckets ≤ total.toNat) :
    (SharedState.drain total buckets).1.toNat + weigh BucketState.occupancy buckets =
      total.toNat + weigh BucketState.occupancy (SharedState.drain total buckets).2 := by
  induction buckets generalizing total with
  | nil => rfl
  | cons first rest ih =>
    obtain ⟨k, b⟩ := first
    rw [SharedState.drain]
    dsimp only
    rw [weigh_cons] at h ⊢
    dsimp only at h ⊢
    rw [BucketState.occupancy] at h ⊢
    have hmax := total.toNat_lt
    have hlength : (b.tickets.length.toUInt64).toNat = b.tickets.length :=
      UInt64.toNat_ofNat_of_lt' (by show _ < 2 ^ 64; omega)
    have hsub : (total - b.tickets.length.toUInt64).toNat = total.toNat - b.tickets.length := by
      rw [toNat_sub_of_toNat_le (by omega), hlength]
    have hrest := @ih (total - b.tickets.length.toUInt64) (by omega)
    by_cases hpermitted : b.permitted = true
    · rw [if_pos hpermitted] at h ⊢
      rw [if_pos hpermitted, weigh_cons]
      simp only [BucketState.occupancy, List.length_nil, if_pos hpermitted]
      omega
    · rw [if_neg hpermitted] at h ⊢
      rw [if_neg hpermitted]
      omega

omit [DecidableEq ι] in
theorem drain_le (total : UInt64) (buckets : List (QuotaBucketKey ι × BucketState)) :
    weigh BucketState.occupancy (SharedState.drain total buckets).2 ≤
      weigh BucketState.occupancy buckets := by
  induction buckets generalizing total with
  | nil => exact Nat.le_refl _
  | cons first rest ih =>
    obtain ⟨k, b⟩ := first
    have hrest := ih (total - b.tickets.length.toUInt64)
    rw [SharedState.drain]
    dsimp only
    split
    · rename_i hpermitted
      simp only [weigh_cons, BucketState.occupancy, List.length_nil, if_pos hpermitted]
      omega
    · rw [weigh_cons]
      omega

/-- What closing leaves of a bucket. -/
def drained (b : Option BucketState) : Option BucketState :=
  (b.filter BucketState.permitted).map fun b => { b with tickets := [] }

theorem bucket_enterTerminalLocked {shared : SharedState ι} (h : Counted shared)
    (hopen : shared.terminalStatus = .acquired) (status : RateLimitAcquireStatus)
    (key : QuotaBucketKey ι) :
    (shared.enterTerminalLocked status).bucket key = drained (shared.bucket key) := by
  rw [SharedState.enterTerminalLocked, hopen]
  show (SharedState.drain shared.totalWaiters shared.buckets).2.lookup key = _
  have hnodup := h.keys.sublist (drain_keys shared.totalWaiters shared.buckets)
  ext b
  constructor
  · intro hb
    obtain ⟨b', hmem, hpermitted, rfl⟩ := mem_drain.mp (mem_of_lookup hb)
    have hfind : shared.bucket key = some b' := lookup_of_mem h.keys hmem
    simp [drained, hfind, Option.filter, hpermitted]
  · intro hb
    rw [drained, Option.map_eq_some_iff] at hb
    obtain ⟨b', hfilter, rfl⟩ := hb
    obtain ⟨hfind, hpermitted⟩ := Option.filter_eq_some_iff.mp hfilter
    exact lookup_of_mem hnodup
      (mem_drain.mpr ⟨b', mem_of_lookup hfind, hpermitted, rfl⟩)

omit [DecidableEq ι] in
theorem terminalStatus_enterTerminalLocked {shared : SharedState ι}
    (hopen : shared.terminalStatus = .acquired) (status : RateLimitAcquireStatus) :
    (shared.enterTerminalLocked status).terminalStatus = status := by
  rw [SharedState.enterTerminalLocked, hopen]
  rfl

theorem Counted.enterTerminalLocked {shared : SharedState ι} (h : Counted shared)
    (hopen : shared.terminalStatus = .acquired) (status : RateLimitAcquireStatus) :
    Counted (shared.enterTerminalLocked status) := by
  have hbucket := bucket_enterTerminalLocked h hopen status
  have hdrains := drain_counts (Nat.le_of_eq h.counted.symm)
  have hcounted := h.counted
  have hbounded := h.bounded
  have hkept : ∀ {key b}, (shared.enterTerminalLocked status).bucket key = some b →
      ∃ b', shared.bucket key = some b' ∧ b.occupancy = 1 := by
    intro key b hb
    rw [hbucket, drained, Option.map_eq_some_iff] at hb
    obtain ⟨b', hfilter, rfl⟩ := hb
    obtain ⟨hfind, hpermitted⟩ := Option.filter_eq_some_iff.mp hfilter
    exact ⟨b', hfind, by simp [BucketState.occupancy, hpermitted]⟩
  have hshape : (shared.enterTerminalLocked status).limits = shared.limits ∧
      (shared.enterTerminalLocked status).totalWaiters =
        (SharedState.drain shared.totalWaiters shared.buckets).1 ∧
      (shared.enterTerminalLocked status).buckets =
        (SharedState.drain shared.totalWaiters shared.buckets).2 := by
    rw [SharedState.enterTerminalLocked, hopen]
    exact ⟨rfl, rfl, rfl⟩
  obtain ⟨hlimits, htotal, hbuckets⟩ := hshape
  constructor
  · rw [hbuckets]
    exact h.keys.sublist (drain_keys ..)
  · intro key b hb
    obtain ⟨-, -, hone⟩ := hkept hb
    omega
  · intro key b hb
    obtain ⟨b', hfind, hone⟩ := hkept hb
    have hpos := h.occupied hfind
    have hper := h.perKey hfind
    rw [hlimits]
    omega
  · rw [htotal, hbuckets]
    omega
  · rw [htotal, hlimits]
    have hle := drain_le shared.totalWaiters shared.buckets
    omega
  · rw [hlimits]
    exact h.hardPerKey
  · rw [hlimits]
    exact h.hardTotal

-- ---------------------------------------------------------------------------
-- Callers
-- ---------------------------------------------------------------------------

/-- The tickets of the threads that wait for a key, in the order of the list. -/
def ticketsFor (key : QuotaBucketKey ι) (waiters : List (Waiter ι)) : List UInt64 :=
  (waiters.filter fun w => w.key = key).map Waiter.ticket

/-- The table agrees with its callers. -/
structure Linked (s : System ι) : Prop where
  held : ∀ key, s.permits.count key = if permittedIn (s.shared.bucket key) then 1 else 0
  queued : s.shared.terminalStatus = .acquired →
    ∀ key, queueIn (s.shared.bucket key) = ticketsFor key s.waiters
  closed : s.shared.terminalStatus ≠ .acquired → ∀ key, queueIn (s.shared.bucket key) = []
  ordered : s.waiters.Pairwise fun a b => a.ticket < b.ticket
  drawn : ∀ w ∈ s.waiters, w.ticket < s.shared.nextTicket

structure Books (s : System ι) : Prop where
  counted : Counted s.shared
  linked : Linked s

omit [DecidableEq ι] in
theorem mem_others {s : System ι} {ticket : UInt64} {w : Waiter ι} :
    w ∈ s.others ticket ↔ w ∈ s.waiters ∧ w.ticket ≠ ticket := by
  simp [System.others]

/-- Without one thread the queue of its key loses its ticket. -/
theorem ticketsFor_others (s : System ι) (ticket : UInt64) (key : QuotaBucketKey ι) :
    ticketsFor key (s.others ticket) = (ticketsFor key s.waiters).filter fun t => t ≠ ticket := by
  rw [ticketsFor, ticketsFor, System.others, List.filter_comm, List.filter_map]
  rfl

theorem mem_ticketsFor {key : QuotaBucketKey ι} {waiters : List (Waiter ι)} {ticket : UInt64} :
    ticket ∈ ticketsFor key waiters ↔ ∃ w ∈ waiters, w.key = key ∧ w.ticket = ticket := by
  simp only [ticketsFor, List.mem_map, List.mem_filter, decide_eq_true_eq]
  constructor
  · rintro ⟨w, ⟨hmem, hkey⟩, rfl⟩
    exact ⟨w, hmem, hkey, rfl⟩
  · rintro ⟨w, hmem, hkey, rfl⟩
    exact ⟨w, ⟨hmem, hkey⟩, rfl⟩

namespace Linked

variable {s : System ι} {w : Waiter ι}

/-- A ticket has one owner. -/
theorem unique (h : Linked s) {w' : Waiter ι} (hw : w ∈ s.waiters) (hw' : w' ∈ s.waiters)
    (hticket : w'.ticket = w.ticket) : w' = w := by
  have hnodup : (s.waiters.map Waiter.ticket).Nodup :=
    List.pairwise_map.mpr (h.ordered.imp fun hlt => UInt64.ne_of_lt hlt)
  exact List.inj_on_of_nodup_map hnodup hw' hw hticket

theorem ticketsFor_sorted (h : Linked s) (key : QuotaBucketKey ι) :
    (ticketsFor key s.waiters).Pairwise (· < ·) :=
  List.pairwise_map.mpr (h.ordered.sublist List.filter_sublist)

/-- The queue of a key without a waiter: its own key loses the ticket, the
others keep theirs. -/
theorem ticketsFor_leave (h : Linked s) (hw : w ∈ s.waiters) (key : QuotaBucketKey ι) :
    ticketsFor key (s.others w.ticket) =
      if key = w.key then (ticketsFor key s.waiters).erase w.ticket
      else ticketsFor key s.waiters := by
  rw [ticketsFor_others]
  split
  · have hnodup : (ticketsFor key s.waiters).Nodup :=
      (h.ticketsFor_sorted key).imp fun hlt => UInt64.ne_of_lt hlt
    rw [hnodup.erase_eq_filter]
    congr 1
    funext t
    by_cases ht : t = w.ticket <;> simp [ht]
  · rename_i hkey
    refine List.filter_eq_self.mpr ?_
    intro t ht
    obtain ⟨w', hmem, rfl, rfl⟩ := mem_ticketsFor.mp ht
    have hne : w'.ticket ≠ w.ticket := by
      intro heq
      exact hkey (congrArg Waiter.key (h.unique hw hmem heq))
    simpa using hne

/-- A waiter of an open coordinator is in the queue of its bucket. -/
theorem waiting (h : Linked s) (hopen : s.shared.terminalStatus = .acquired)
    (hw : w ∈ s.waiters) :
    ∃ b, s.shared.bucket w.key = some b ∧ w.ticket ∈ b.tickets := by
  have hmem : w.ticket ∈ queueIn (s.shared.bucket w.key) := by
    rw [h.queued hopen]
    exact mem_ticketsFor.mpr ⟨w, hw, rfl, rfl⟩
  cases hb : s.shared.bucket w.key with
  | none => simp [hb, queueIn] at hmem
  | some b => exact ⟨b, rfl, by simpa [hb, queueIn] using hmem⟩

theorem ordered_others (h : Linked s) (ticket : UInt64) :
    (s.others ticket).Pairwise fun a b => a.ticket < b.ticket :=
  h.ordered.sublist List.filter_sublist

theorem drawn_others (h : Linked s) (ticket : UInt64) :
    ∀ w ∈ s.others ticket, w.ticket < s.shared.nextTicket :=
  fun w hw => h.drawn w (mem_others.mp hw).1

end Linked

theorem complete_eq {shared : SharedState ι} {key : QuotaBucketKey ι} {b : BucketState}
    (hb : shared.bucket key = some b) (hpermitted : b.permitted = true) :
    complete key shared =
      SharedState.setBucket { shared with totalWaiters := shared.totalWaiters - 1 } key
        (BucketState.unlessIdle { b with permitted := false }) := by
  rw [complete, hb]
  simp [hpermitted, BucketState.unlessIdle]

namespace Books

variable {s : System ι} {after : SharedState ι} {key : QuotaBucketKey ι}
  {v : Option BucketState} {waiters : List (Waiter ι)} {permits : List (QuotaBucketKey ι)}

/-- The callers' half, when one bucket changes: its own permit and queue have to
follow, those of the other keys are as they were. -/
theorem relink (h : Books s) (hset : Rebucketed key v s.shared after)
    (hheld : ∀ k, permits.count k =
      if k = key then (if permittedIn v then 1 else 0) else s.permits.count k)
    (hqueued : s.shared.terminalStatus = .acquired →
      ∀ k, (if k = key then queueIn v else ticketsFor k s.waiters) = ticketsFor k waiters)
    (hclosed : s.shared.terminalStatus ≠ .acquired → queueIn v = [])
    (hordered : waiters.Pairwise fun a b => a.ticket < b.ticket)
    (hdrawn : ∀ w ∈ waiters, w.ticket < after.nextTicket) :
    Linked ⟨after, waiters, permits⟩ where
  held := by
    intro k
    rw [hheld, h.counted.bucket_eq hset]
    split
    · rfl
    · exact h.linked.held k
  queued := by
    intro hopen k
    have hopen : s.shared.terminalStatus = .acquired := hset.terminal ▸ hopen
    rw [h.counted.bucket_eq hset, ← hqueued hopen k]
    split
    · rfl
    · exact h.linked.queued hopen k
  closed := by
    intro hopen k
    have hopen : s.shared.terminalStatus ≠ .acquired := hset.terminal ▸ hopen
    rw [h.counted.bucket_eq hset]
    split
    · exact hclosed hopen
    · exact h.linked.closed hopen k
  ordered := hordered
  drawn := hdrawn

/-- Threads leave, permits and queues stay. -/
theorem depart (h : Books s) (hclosed : s.shared.terminalStatus ≠ .acquired)
    (ticket : UInt64) : Books { s with waiters := s.others ticket } where
  counted := h.counted
  linked :=
    { held := h.linked.held
      queued := fun hopen => absurd hopen hclosed
      closed := h.linked.closed
      ordered := h.linked.ordered_others ticket
      drawn := h.linked.drawn_others ticket }

/-- A bucket whose mark stays keeps its permit. -/
theorem count_unchanged (h : Books s) (key : QuotaBucketKey ι) (v : Option BucketState)
    (hpermitted : permittedIn v = permittedIn (s.shared.bucket key)) (k : QuotaBucketKey ι) :
    s.permits.count k =
      if k = key then (if permittedIn v then 1 else 0) else s.permits.count k := by
  split
  · rename_i hk
    subst hk
    rw [h.linked.held, hpermitted]
  · rfl

/-- A bucket changes its embargo at most; tickets may be spent meanwhile. -/
theorem embargo (h : Books s) (hset : Rebucketed key v s.shared after)
    (halike : Alike v (s.shared.bucket key))
    (htotal : after.totalWaiters = s.shared.totalWaiters)
    (hnext : s.shared.nextTicket ≤ after.nextTicket) : Books { s with shared := after } := by
  refine ⟨h.counted.replace hset halike.occupancy halike.present htotal,
    h.relink hset (h.count_unchanged key v halike.permitted) ?_ ?_ h.linked.ordered ?_⟩
  · intro hopen k
    split
    · rename_i hk
      subst hk
      rw [← h.linked.queued hopen, halike.queue]
    · rfl
  · intro hclosed
    rw [halike.queue]
    exact h.linked.closed hclosed key
  · intro w hw
    exact UInt64.lt_of_lt_of_le (h.linked.drawn w hw) hnext

/-- A waiter gives its ticket up. -/
theorem leave (h : Books s) {w : Waiter ι} {b : BucketState} (hw : w ∈ s.waiters)
    (hb : s.shared.bucket w.key = some b) :
    Books { s with
      shared := s.shared.eraseTicketLocked w.key b w.ticket
      waiters := s.others w.ticket } := by
  by_cases hopen : s.shared.terminalStatus = .acquired
  · obtain ⟨_, hbucket, hmem⟩ := h.linked.waiting hopen hw
    obtain rfl := Option.some.inj (hb.symm.trans hbucket)
    have herase : s.shared.eraseTicketLocked w.key b w.ticket =
        SharedState.setBucket { s.shared with totalWaiters := s.shared.totalWaiters - 1 } w.key
          (BucketState.unlessIdle { b with tickets := b.tickets.erase w.ticket }) := by
      rw [SharedState.eraseTicketLocked, if_pos hmem]
    have hset : Rebucketed w.key
        (BucketState.unlessIdle { b with tickets := b.tickets.erase w.ticket }) s.shared
        (s.shared.eraseTicketLocked w.key b w.ticket) := by
      rw [herase]
      exact ⟨rfl, rfl, rfl⟩
    have hone : b.occupancy =
        BucketState.occupancy { b with tickets := b.tickets.erase w.ticket } + 1 := by
      have hlength := List.length_erase_of_mem hmem
      have hpos := List.length_pos_of_mem hmem
      simp only [BucketState.occupancy]
      omega
    refine ⟨h.counted.shrink hb hset hone (by rw [herase]; rfl),
      h.relink hset (h.count_unchanged _ _ ?_) ?_ (absurd hopen) (h.linked.ordered_others _) ?_⟩
    · rw [permittedIn_unlessIdle, hb]
      rfl
    · intro _ k
      rw [h.linked.ticketsFor_leave hw, ← h.linked.queued hopen, queueIn_unlessIdle]
      split
      · rename_i hk
        subst hk
        rw [hb]
        rfl
      · rfl
    · rw [herase]
      exact h.linked.drawn_others _
  · -- the queues are empty, so the bucket stays for its permit
    have hnil : b.tickets = [] := by simpa [hb, queueIn] using h.linked.closed hopen w.key
    have hpermitted : b.permitted = true := by
      have hpos := h.counted.occupied hb
      rw [BucketState.occupancy, hnil] at hpos
      by_contra hfree
      simp [hfree] at hpos
    have hsame : s.shared.eraseTicketLocked w.key b w.ticket =
        s.shared.setBucket w.key (some b) := by
      have hmem : w.ticket ∉ b.tickets := by simp [hnil]
      rw [SharedState.eraseTicketLocked, if_neg hmem, List.erase_of_not_mem hmem,
        BucketState.unlessIdle, if_neg (by simp [hpermitted])]
    have halike : Alike (some b) (s.shared.bucket w.key) := by
      rw [hb]
      exact ⟨rfl, rfl, rfl⟩
    rw [hsame]
    have hkept : Books { s with shared := s.shared.setBucket w.key (some b) } :=
      h.embargo ⟨rfl, rfl, rfl⟩ halike rfl (UInt64.le_refl _)
    exact hkept.depart hopen w.ticket

/-- The oldest waiter of a free bucket gets the permit. -/
theorem grant (h : Books s) {w : Waiter ι} {b : BucketState} (hw : w ∈ s.waiters)
    (hopen : s.shared.terminalStatus = .acquired) (hb : s.shared.bucket w.key = some b)
    (hfree : b.permitted = false) (hhead : b.tickets.head? = some w.ticket) :
    Books ⟨s.shared.setBucket w.key (some { b with tickets := b.tickets.tail, permitted := true }),
      s.others w.ticket, w.key :: s.permits⟩ := by
  obtain ⟨rest, htickets⟩ := List.head?_eq_some_iff.mp hhead
  have hset : Rebucketed w.key (some { b with tickets := b.tickets.tail, permitted := true })
      s.shared (s.shared.setBucket w.key
        (some { b with tickets := b.tickets.tail, permitted := true })) := ⟨rfl, rfl, rfl⟩
  refine ⟨h.counted.replace hset ?_ (by rw [hb]; rfl) rfl,
    h.relink hset ?_ ?_ (absurd hopen) (h.linked.ordered_others _) (h.linked.drawn_others _)⟩
  · simp [hb, BucketState.occupancy, hfree, htickets]
  · intro k
    by_cases hk : k = w.key
    · subst hk
      rw [List.count_cons_self, h.linked.held, hb, if_pos rfl]
      simp [permittedIn, hfree]
    · rw [List.count_cons_of_ne (Ne.symm hk), if_neg hk]
  · intro _ k
    rw [h.linked.ticketsFor_leave hw, ← h.linked.queued hopen]
    split
    · rename_i hk
      subst hk
      rw [hb]
      simp [queueIn, htickets]
    · rfl

theorem lt_succ_of_ne_max {n : UInt64} (h : n ≠ 0xFFFFFFFFFFFFFFFF) : n < n + 1 := by
  have hmax : (0xFFFFFFFFFFFFFFFF : UInt64).toNat = 2 ^ 64 - 1 := by decide
  have hne : n.toNat ≠ 2 ^ 64 - 1 := fun heq => h (UInt64.toNat_inj.mp (heq.trans hmax.symm))
  have hlt := n.toNat_lt
  have hadd : (n + 1).toNat = n.toNat + 1 := toNat_add_of_lt (by show _ + 1 < _; omega)
  rw [UInt64.lt_iff_toNat_lt]
  omega

/-- A thread joins a queue with the ticket just drawn. -/
theorem join (h : Books s) (deadline : Int) {b' : BucketState}
    (hopen : s.shared.terminalStatus = .acquired)
    (hroom : s.shared.nextTicket ≠ 0xFFFFFFFFFFFFFFFF)
    (hset : Rebucketed key (some b') s.shared after) (hcounted : Counted after)
    (hnext : after.nextTicket = s.shared.nextTicket + 1)
    (htickets : b'.tickets = queueIn (s.shared.bucket key) ++ [s.shared.nextTicket])
    (hheld : ∀ k, permits.count k =
      if k = key then (if b'.permitted then 1 else 0) else s.permits.count k) :
    Books ⟨after, s.waiters ++ [⟨key, s.shared.nextTicket, deadline⟩], permits⟩ := by
  have hlt := lt_succ_of_ne_max hroom
  refine ⟨hcounted, h.relink hset hheld ?_ (absurd hopen) ?_ ?_⟩
  · intro _ k
    have hsnoc : ticketsFor k (s.waiters ++ [⟨key, s.shared.nextTicket, deadline⟩]) =
        ticketsFor k s.waiters ++ if key = k then [s.shared.nextTicket] else [] := by
      by_cases hk : key = k <;> simp [ticketsFor, List.filter_append, hk]
    rw [hsnoc]
    by_cases hk : k = key
    · subst hk
      rw [if_pos rfl, if_pos rfl, ← h.linked.queued hopen]
      exact htickets
    · rw [if_neg hk, if_neg (Ne.symm hk), List.append_nil]
  · refine List.pairwise_append.mpr ⟨h.linked.ordered, List.pairwise_singleton _ _, ?_⟩
    intro w hw w' hw'
    rw [List.mem_singleton.mp hw']
    exact h.linked.drawn w hw
  · intro w hw
    rw [hnext]
    rcases List.mem_append.mp hw with hold | hnew
    · exact UInt64.lt_trans (h.linked.drawn w hold) hlt
    · rw [List.mem_singleton.mp hnew]
      exact hlt

/-- A permit that is alive marks its bucket. -/
theorem marked (h : Books s) (hmem : key ∈ s.permits) :
    ∃ b, s.shared.bucket key = some b ∧ b.permitted = true := by
  have hpos := List.count_pos_iff.mpr hmem
  rw [h.linked.held] at hpos
  cases hb : s.shared.bucket key with
  | none => simp [hb, permittedIn] at hpos
  | some b =>
    refine ⟨b, rfl, ?_⟩
    by_contra hfree
    simp [hb, permittedIn, hfree] at hpos

/-- Without its permit a bucket is not marked. -/
theorem count_erase (h : Books s) (hmem : key ∈ s.permits) (k : QuotaBucketKey ι) :
    (s.permits.erase key).count k = if k = key then 0 else s.permits.count k := by
  obtain ⟨b, hb, hpermitted⟩ := h.marked hmem
  by_cases hk : k = key
  · subst hk
    rw [if_pos rfl, List.count_erase_self, h.linked.held, hb]
    simp [permittedIn, hpermitted]
  · rw [if_neg hk, List.count_erase_of_ne hk]

/-- A permit completes. -/
theorem complete (h : Books s) (hmem : key ∈ s.permits) :
    Books { s with shared := RateLimit.complete key s.shared, permits := s.permits.erase key } := by
  obtain ⟨b, hb, hpermitted⟩ := h.marked hmem
  rw [complete_eq hb hpermitted]
  have hset : Rebucketed key (BucketState.unlessIdle { b with permitted := false }) s.shared
      (SharedState.setBucket { s.shared with totalWaiters := s.shared.totalWaiters - 1 } key
        (BucketState.unlessIdle { b with permitted := false })) := ⟨rfl, rfl, rfl⟩
  refine ⟨h.counted.shrink hb hset ?_ rfl, h.relink hset ?_ ?_ ?_ h.linked.ordered h.linked.drawn⟩
  · simp [BucketState.occupancy, hpermitted]
  · intro k
    rw [h.count_erase hmem, permittedIn_unlessIdle]
    rfl
  · intro hopen k
    rw [queueIn_unlessIdle, ← h.linked.queued hopen]
    split
    · rename_i hk
      subst hk
      rw [hb]
      rfl
    · rfl
  · intro hclosed
    rw [queueIn_unlessIdle]
    simpa [hb, queueIn] using h.linked.closed hclosed key

/-- Closing keeps the marked buckets and empties the queues. -/
theorem enterTerminalLocked (h : Books s) {status : RateLimitAcquireStatus}
    (hopen : s.shared.terminalStatus = .acquired) (hstatus : status ≠ .acquired) :
    Books { s with shared := s.shared.enterTerminalLocked status } where
  counted := h.counted.enterTerminalLocked hopen status
  linked :=
    { held := by
        intro k
        rw [bucket_enterTerminalLocked h.counted hopen, h.linked.held]
        cases hb : s.shared.bucket k with
        | none => rfl
        | some b => cases hp : b.permitted <;> simp [drained, Option.filter, permittedIn, hp]
      queued := by
        intro hterminal
        rw [terminalStatus_enterTerminalLocked hopen] at hterminal
        exact absurd hterminal hstatus
      closed := by
        intro _ k
        rw [bucket_enterTerminalLocked h.counted hopen]
        cases hb : s.shared.bucket k with
        | none => rfl
        | some b => cases hp : b.permitted <;> simp [drained, Option.filter, queueIn, hp]
      ordered := h.linked.ordered
      drawn := by
        have hnext : (s.shared.enterTerminalLocked status).nextTicket = s.shared.nextTicket := by
          rw [SharedState.enterTerminalLocked]
          split <;> rfl
        rw [hnext]
        exact h.linked.drawn }

end Books

-- ---------------------------------------------------------------------------
-- What a section does
-- ---------------------------------------------------------------------------

/-- Buckets that survive keep their embargo or raise it. -/
def Embargoed (before after : SharedState ι) : Prop :=
  ∀ key b b', before.bucket key = some b → after.bucket key = some b' →
    b.eligibleSteadyMilliseconds ≤ b'.eligibleSteadyMilliseconds

/-- Every bucket survives, with its embargo or a later one. -/
def Extended (before after : SharedState ι) : Prop :=
  ∀ key b, before.bucket key = some b →
    ∃ b', after.bucket key = some b' ∧
      b.eligibleSteadyMilliseconds ≤ b'.eligibleSteadyMilliseconds

/-- A section that grants nothing. -/
structure Quiet (s s' : System ι) : Prop where
  books : Books s'
  limits : s'.shared.limits = s.shared.limits
  embargoed : Embargoed s.shared s'.shared
  permits : s'.permits.Sublist s.permits
  waiters : s.shared.terminalStatus ≠ .acquired → s'.waiters.Sublist s.waiters
  closed : s.shared.terminalStatus ≠ .acquired →
    s'.shared.terminalStatus = s.shared.terminalStatus

/-- A section at `now` that grants the permit of `w.key` to `w`. -/
structure Grants (s : System ι) (w : Waiter ι) (now : Int) (s' : System ι) : Prop where
  books : Books s'
  limits : s'.shared.limits = s.shared.limits
  embargoed : Embargoed s.shared s'.shared
  opened : s.shared.terminalStatus = .acquired
  oldest : ∀ ticket ∈ queueIn (s.shared.bucket w.key), w.ticket ≤ ticket
  permits : ∃ rest, s'.permits = w.key :: rest ∧ rest.Sublist s.permits
  eligible : ∃ b, s'.shared.bucket w.key = some b ∧ b.eligibleSteadyMilliseconds ≤ now
  inTime : now ≤ w.deadline

/-- What any section does that `w` may be granted in. -/
def Serves (s : System ι) (w : Waiter ι) (now : Option Int)
    (result : Option (Waiter ι) × System ι) : Prop :=
  match result with
  | (none, s') => Quiet s s'
  | (some w', s') => w' = w ∧ ∃ time, now = some time ∧ Grants s w time s'

theorem Extended.embargoed {a b c : SharedState ι} (h : Extended a b) (h' : Embargoed b c) :
    Embargoed a c := by
  intro key x z hx hz
  obtain ⟨y, hy, hle⟩ := h key x hx
  exact Int.le_trans hle (h' key y z hy hz)

theorem Quiet.refl {s : System ι} (h : Books s) : Quiet s s where
  books := h
  limits := rfl
  embargoed := by
    intro key b b' hb hb'
    obtain rfl := Option.some.inj (hb.symm.trans hb')
    exact Int.le_refl _
  permits := List.Sublist.refl _
  waiters := fun _ => List.Sublist.refl _
  closed := fun _ => rfl

/-- One bucket is replaced. -/
theorem Counted.embargoed {shared after : SharedState ι} {key : QuotaBucketKey ι}
    {v : Option BucketState} (h : Counted shared) (hset : Rebucketed key v shared after)
    (hv : ∀ {b b'}, shared.bucket key = some b → v = some b' →
      b.eligibleSteadyMilliseconds ≤ b'.eligibleSteadyMilliseconds) : Embargoed shared after := by
  intro k b b' hb hb'
  rw [h.bucket_eq hset] at hb'
  split at hb'
  · rename_i hk
    subst hk
    exact hv hb hb'
  · obtain rfl := Option.some.inj (hb.symm.trans hb')
    exact Int.le_refl _

theorem Counted.extended {shared after : SharedState ι} {key : QuotaBucketKey ι}
    {b' : BucketState} (h : Counted shared) (hset : Rebucketed key (some b') shared after)
    (hb' : ∀ {b}, shared.bucket key = some b →
      b.eligibleSteadyMilliseconds ≤ b'.eligibleSteadyMilliseconds) : Extended shared after := by
  intro k b hb
  rw [h.bucket_eq hset]
  split
  · rename_i hk
    subst hk
    exact ⟨b', rfl, hb' hb⟩
  · exact ⟨b, hb, Int.le_refl _⟩

/-- Giving a ticket up is quiet. -/
theorem Books.leave_quiet {s : System ι} (h : Books s) {w : Waiter ι} {b : BucketState}
    (hw : w ∈ s.waiters) (hb : s.shared.bucket w.key = some b) :
    Quiet s { s with
      shared := s.shared.eraseTicketLocked w.key b w.ticket
      waiters := s.others w.ticket } where
  books := h.leave hw hb
  limits := by
    rw [SharedState.eraseTicketLocked]
    split <;> rfl
  embargoed := by
    have hset : Rebucketed w.key
        (BucketState.unlessIdle { b with tickets := b.tickets.erase w.ticket }) s.shared
        (s.shared.eraseTicketLocked w.key b w.ticket) := by
      rw [SharedState.eraseTicketLocked]
      split <;> exact ⟨rfl, rfl, rfl⟩
    refine h.counted.embargoed hset ?_
    intro b₀ b₁ hb₀ hb₁
    obtain ⟨rfl, -⟩ := unlessIdle_eq_some hb₁
    obtain rfl := Option.some.inj (hb.symm.trans hb₀)
    exact Int.le_refl _
  permits := List.Sublist.refl _
  waiters := fun _ => List.filter_sublist
  closed := by
    intro _
    rw [SharedState.eraseTicketLocked]
    split <;> rfl

/-- A thread leaves a closed coordinator. -/
theorem Books.depart_quiet {s : System ι} (h : Books s)
    (hclosed : s.shared.terminalStatus ≠ .acquired) (ticket : UInt64) :
    Quiet s { s with waiters := s.others ticket } where
  books := h.depart hclosed ticket
  limits := rfl
  embargoed := (Quiet.refl h).embargoed
  permits := List.Sublist.refl _
  waiters := fun _ => List.filter_sublist
  closed := fun _ => rfl

theorem Books.grants {s : System ι} (h : Books s) {w : Waiter ι} {b : BucketState} {now : Int}
    (hw : w ∈ s.waiters) (hopen : s.shared.terminalStatus = .acquired)
    (hb : s.shared.bucket w.key = some b) (hfree : b.permitted = false)
    (hhead : b.tickets.head? = some w.ticket)
    (heligible : b.eligibleSteadyMilliseconds ≤ now) (hintime : now ≤ w.deadline) :
    Grants s w now ⟨s.shared.setBucket w.key
        (some { b with tickets := b.tickets.tail, permitted := true }),
      s.others w.ticket, w.key :: s.permits⟩ where
  books := h.grant hw hopen hb hfree hhead
  limits := rfl
  embargoed := by
    refine h.counted.embargoed ⟨rfl, rfl, rfl⟩ ?_
    intro b₀ b₁ hb₀ hb₁
    obtain rfl := Option.some.inj hb₁
    obtain rfl := Option.some.inj (hb.symm.trans hb₀)
    exact Int.le_refl _
  opened := hopen
  oldest := by
    intro ticket hmem
    obtain ⟨rest, htickets⟩ := List.head?_eq_some_iff.mp hhead
    have hsorted := h.linked.ticketsFor_sorted w.key
    rw [← h.linked.queued hopen, hb] at hsorted
    rw [hb] at hmem
    change List.Pairwise _ b.tickets at hsorted
    change ticket ∈ b.tickets at hmem
    rw [htickets] at hsorted hmem
    rcases List.mem_cons.mp hmem with rfl | hrest
    · exact UInt64.le_refl _
    · exact UInt64.le_of_lt (List.rel_of_pairwise_cons hsorted hrest)
  permits := ⟨s.permits, rfl, List.Sublist.refl _⟩
  eligible := by
    exact ⟨_, h.counted.bucket_setBucket _ _, heligible⟩
  inTime := hintime

/-- A turn of a waiting thread. -/
theorem turn_serves {s : System ι} (h : Books s) (reading : Reading) {w : Waiter ι}
    (hw : w ∈ s.waiters) : Serves s w (some reading.now) (s.turn reading w) := by
  unfold System.turn waitTurn
  by_cases hopen : s.shared.terminalStatus = .acquired
  · obtain ⟨b, hb, hmem⟩ := h.linked.waiting hopen hw
    have hleave := h.leave_quiet hw hb
    rw [if_neg (by simp [hopen]), hb]
    dsimp only
    by_cases hcancelled : reading.cancelled = true
    · rw [if_pos hcancelled]
      exact hleave
    rw [if_neg hcancelled]
    by_cases hgrant : b.permitted = false ∧ b.tickets.head? = some w.ticket ∧
        b.eligibleSteadyMilliseconds ≤ reading.now ∧ reading.now ≤ w.deadline
    · rw [if_pos hgrant]
      obtain ⟨hfree, hhead, heligible, hintime⟩ := hgrant
      exact ⟨rfl, reading.now, rfl, h.grants hw hopen hb hfree hhead heligible hintime⟩
    rw [if_neg hgrant]
    by_cases hlate : w.deadline ≤ reading.now ∨ w.deadline < b.eligibleSteadyMilliseconds
    · rw [if_pos hlate]
      exact hleave
    · rw [if_neg hlate]
      exact Quiet.refl h
  · rw [if_pos (by simpa using hopen)]
    exact h.depart_quiet hopen w.ticket

/-- A section whose first part grants nothing and loses no bucket. -/
theorem Serves.after {s mid : System ι} {w : Waiter ι} {now : Option Int}
    {result : Option (Waiter ι) × System ι} (h : Serves mid w now result)
    (hopen : s.shared.terminalStatus = .acquired) (hextended : Extended s.shared mid.shared)
    (hlimits : mid.shared.limits = s.shared.limits) (hpermits : mid.permits.Sublist s.permits)
    (hqueue : ∀ ticket ∈ queueIn (s.shared.bucket w.key),
      ticket ∈ queueIn (mid.shared.bucket w.key)) : Serves s w now result := by
  obtain ⟨_ | w', s'⟩ := result
  · exact ⟨h.books, h.limits.trans hlimits, hextended.embargoed h.embargoed, h.permits.trans hpermits,
      fun hclosed => absurd hopen hclosed, fun hclosed => absurd hopen hclosed⟩
  · obtain ⟨rfl, time, hnow, hgrants⟩ := h
    obtain ⟨rest, hrest, hsub⟩ := hgrants.permits
    exact ⟨rfl, time, hnow, hgrants.books, hgrants.limits.trans hlimits,
      hextended.embargoed hgrants.embargoed, hopen,
      fun ticket hmem => hgrants.oldest ticket (hqueue ticket hmem),
      ⟨rest, hrest, hsub.trans hpermits⟩, hgrants.eligible, hgrants.inTime⟩

/-- The coordinator closes itself for want of tickets, or is closed. -/
theorem Books.terminal_quiet {s : System ι} (h : Books s) {status : RateLimitAcquireStatus}
    (hopen : s.shared.terminalStatus = .acquired) (hstatus : status ≠ .acquired) :
    Quiet s { s with shared := s.shared.enterTerminalLocked status } where
  books := h.enterTerminalLocked hopen hstatus
  limits := by
    rw [SharedState.enterTerminalLocked]
    split <;> rfl
  embargoed := by
    intro key b b' hb hb'
    rw [bucket_enterTerminalLocked h.counted hopen, hb, drained, Option.map_eq_some_iff] at hb'
    obtain ⟨b₀, hfilter, rfl⟩ := hb'
    obtain ⟨hsome, -⟩ := Option.filter_eq_some_iff.mp hfilter
    obtain rfl := Option.some.inj hsome
    exact Int.le_refl _
  permits := List.Sublist.refl _
  waiters := fun hclosed => absurd hopen hclosed
  closed := fun hclosed => absurd hopen hclosed

/-- A bucket's embargo is raised, or stays. -/
theorem Books.embargo_quiet {s : System ι} {after : SharedState ι} {key : QuotaBucketKey ι}
    {v : Option BucketState} (h : Books s) (hset : Rebucketed key v s.shared after)
    (halike : Alike v (s.shared.bucket key))
    (hraised : ∀ {b b'}, s.shared.bucket key = some b → v = some b' →
      b.eligibleSteadyMilliseconds ≤ b'.eligibleSteadyMilliseconds)
    (htotal : after.totalWaiters = s.shared.totalWaiters)
    (hnext : s.shared.nextTicket ≤ after.nextTicket) : Quiet s { s with shared := after } where
  books := h.embargo hset halike htotal hnext
  limits := hset.limits
  embargoed := h.counted.embargoed hset hraised
  permits := List.Sublist.refl _
  waiters := fun _ => List.Sublist.refl _
  closed := fun _ => hset.terminal

/-- A ticket is drawn and lost. -/
theorem Books.spend_quiet {s : System ι} (h : Books s) {next : UInt64}
    (hnext : s.shared.nextTicket ≤ next) :
    Quiet s { s with shared := { s.shared with nextTicket := next } } where
  books :=
    { counted := ⟨h.counted.keys, h.counted.occupied, h.counted.perKey, h.counted.counted,
        h.counted.bounded, h.counted.hardPerKey, h.counted.hardTotal⟩
      linked := { h.linked with
        drawn := fun w hw => UInt64.lt_of_lt_of_le (h.linked.drawn w hw) hnext } }
  limits := rfl
  embargoed := (Quiet.refl h).embargoed
  permits := List.Sublist.refl _
  waiters := fun _ => List.Sublist.refl _
  closed := fun _ => rfl

/-- A ticket is drawn for the bucket `b`, which is in the table or new. -/
theorem pushTicket_serves {s : System ι} (h : Books s) (env : EntryEnv) (reading : Reading)
    {key : QuotaBucketKey ι} (deadline : Int) {b : BucketState}
    (hopen : s.shared.terminalStatus = .acquired) (hbase : b.unlessIdle = s.shared.bucket key)
    (hroom : s.shared.nextTicket ≠ 0xFFFFFFFFFFFFFFFF)
    (hkey : b.occupancy < s.shared.limits.waitersPerKey.toNat)
    (htotal : s.shared.totalWaiters.toNat < s.shared.limits.totalWaiters.toNat) :
    Serves s ⟨key, s.shared.nextTicket, deadline⟩ (some reading.now)
      (s.enter (pushTicket env key b s.shared) reading key deadline s.permits) := by
  have hqueue : queueIn (s.shared.bucket key) = b.tickets := hbase ▸ queueIn_unlessIdle b
  have hpermitted : permittedIn (s.shared.bucket key) = b.permitted :=
    hbase ▸ permittedIn_unlessIdle b
  have hoccupancy : occupancyOf (s.shared.bucket key) = b.occupancy :=
    hbase ▸ occupancyOf_unlessIdle b
  unfold pushTicket
  by_cases hpush : env.pushFails = true
  · rw [if_pos hpush]
    have hset : Rebucketed key b.unlessIdle s.shared
        (SharedState.setBucket { s.shared with nextTicket := s.shared.nextTicket + 1 } key
          b.unlessIdle) := ⟨rfl, rfl, rfl⟩
    refine h.embargo_quiet hset ?_ ?_ rfl (UInt64.le_of_lt (Books.lt_succ_of_ne_max hroom))
    · rw [hbase]
      exact ⟨rfl, rfl, rfl⟩
    · intro b₀ b₁ hb₀ hb₁
      rw [hbase] at hb₁
      obtain rfl := Option.some.inj (hb₀.symm.trans hb₁)
      exact Int.le_refl _
  · rw [if_neg hpush]
    -- with the ticket in the queue, the first turn follows under the same lock
    have hset : Rebucketed key (some { b with tickets := b.tickets ++ [s.shared.nextTicket] })
        s.shared
        { (SharedState.setBucket { s.shared with nextTicket := s.shared.nextTicket + 1 } key
          (some { b with tickets := b.tickets ++ [s.shared.nextTicket] })) with
          totalWaiters := s.shared.totalWaiters + 1 } := ⟨rfl, rfl, rfl⟩
    have hone : BucketState.occupancy { b with tickets := b.tickets ++ [s.shared.nextTicket] } =
        occupancyOf (s.shared.bucket key) + 1 := by
      rw [hoccupancy]
      simp only [BucketState.occupancy, List.length_append, List.length_singleton]
      omega
    have hcounted := h.counted.grow hset hone rfl (by omega) htotal
    have hheld := h.count_unchanged key
      (some { b with tickets := b.tickets ++ [s.shared.nextTicket] }) hpermitted.symm
    have hjoined := h.join deadline hopen hroom hset hcounted rfl (by rw [hqueue]) hheld
    have hturn := turn_serves hjoined reading (List.mem_append_right _ (List.mem_singleton_self _))
    refine hturn.after hopen (h.counted.extended hset ?_) rfl (List.Sublist.refl _) ?_
    · intro b₀ hb₀
      obtain ⟨rfl, -⟩ := unlessIdle_eq_some (hbase.trans hb₀)
      exact Int.le_refl _
    · intro ticket hmem
      rw [hqueue] at hmem
      rw [show _ = some _ from (h.counted.bucket_eq hset key).trans (if_pos rfl)]
      exact List.mem_append_left _ hmem

/-- The counter the limit is compared with does not wrap. -/
theorem Counted.waiters_toNat {shared : SharedState ι} (h : Counted shared)
    (key : QuotaBucketKey ι) :
    (((shared.bucket key).map BucketState.waiters).getD 0).toNat =
      occupancyOf (shared.bucket key) := by
  cases hb : shared.bucket key with
  | none => rfl
  | some b =>
    have hper := h.perKey hb
    have hhard := h.hardPerKey
    simp only [Option.map_some, Option.getD_some, occupancyOf_some, BucketState.waiters]
    rw [BucketState.occupancy] at hper ⊢
    have hlength : (b.tickets.length.toUInt64).toNat = b.tickets.length :=
      UInt64.toNat_ofNat_of_lt' (by show _ < 2 ^ 64; omega)
    split
    · rename_i hpermitted
      rw [if_pos hpermitted] at hper
      have hone : (1 : UInt64).toNat = 1 := by decide
      rw [toNat_add_of_lt (by omega), hlength, hone]
    · rw [toNat_add_of_lt (by simp [hlength]; omega), hlength]
      rfl

theorem enqueue_serves {s : System ι} (h : Books s) (env : EntryEnv) (reading : Reading)
    (key : QuotaBucketKey ι) (eligible deadline : Int)
    (hopen : s.shared.terminalStatus = .acquired) :
    Serves s ⟨key, s.shared.nextTicket, deadline⟩ (some reading.now)
      (s.enter (enqueue env key eligible (s.shared.bucket key) s.shared) reading key deadline
        s.permits) := by
  have hwaiters := h.counted.waiters_toNat key
  unfold enqueue
  dsimp only
  by_cases hsaturated : ((s.shared.bucket key).map BucketState.waiters).getD 0 ≥
      s.shared.limits.waitersPerKey ∨ s.shared.totalWaiters ≥ s.shared.limits.totalWaiters
  · rw [if_pos hsaturated]
    exact Quiet.refl h
  rw [if_neg hsaturated]
  by_cases hexhausted : s.shared.nextTicket = 0xFFFFFFFFFFFFFFFF
  · rw [if_pos (by simpa using hexhausted)]
    exact h.terminal_quiet hopen (by decide)
  rw [if_neg (by simpa using hexhausted)]
  by_cases hbucket : ((s.shared.bucket key).isNone && env.bucketFails) = true
  · rw [if_pos hbucket]
    exact Quiet.refl h
  rw [if_neg hbucket]
  simp only [ge_iff_le, not_or, UInt64.not_le, UInt64.lt_iff_toNat_lt, hwaiters] at hsaturated
  have hbase : ((s.shared.bucket key).getD ⟨eligible, false, []⟩).unlessIdle =
      s.shared.bucket key := by
    cases hb : s.shared.bucket key with
    | none => rfl
    | some b =>
      rw [Option.getD_some, BucketState.unlessIdle, if_neg]
      intro hidle
      have hpos := h.counted.occupied hb
      simp only [Bool.and_eq_true, Bool.not_eq_true', List.isEmpty_iff] at hidle
      simp [BucketState.occupancy, hidle.1, hidle.2] at hpos
  refine pushTicket_serves h env reading deadline hopen hbase hexhausted ?_ hsaturated.2
  rw [← occupancyOf_unlessIdle, hbase]
  exact hsaturated.1

/-- A bucket whose embargo is raised where it stands. -/
theorem Books.extend_quiet {s : System ι} (h : Books s) {key : QuotaBucketKey ι}
    {b : BucketState} (hb : s.shared.bucket key = some b) (eligible : Int) :
    Quiet s { s with shared := s.shared.setBucket key (some (b.extend eligible)) } ∧
      Extended s.shared (s.shared.setBucket key (some (b.extend eligible))) := by
  have hset : Rebucketed key (some (b.extend eligible)) s.shared
      (s.shared.setBucket key (some (b.extend eligible))) := ⟨rfl, rfl, rfl⟩
  have hraised : b.eligibleSteadyMilliseconds ≤ (b.extend eligible).eligibleSteadyMilliseconds :=
    Int.le_max_left ..
  constructor
  · refine h.embargo_quiet hset ?_ ?_ rfl (UInt64.le_refl _)
    · rw [hb]
      exact ⟨rfl, rfl, rfl⟩
    · intro b₀ b₁ hb₀ hb₁
      obtain rfl := Option.some.inj hb₁
      obtain rfl := Option.some.inj (hb.symm.trans hb₀)
      exact hraised
  · refine h.counted.extended hset ?_
    intro b₀ hb₀
    obtain rfl := Option.some.inj (hb.symm.trans hb₀)
    exact hraised

/-- A new waiter of `Acquire`, or none. -/
theorem acquire_serves {s : System ι} (h : Books s) (env : EntryEnv) (reading : Reading)
    (key : QuotaBucketKey ι) (eligible deadline : Int) :
    Serves s ⟨key, s.shared.nextTicket, deadline⟩ (some reading.now)
      (s.enter (acquire env key eligible s.shared) reading key deadline s.permits) := by
  unfold acquire
  by_cases hhandle : env.handleFails = true
  · rw [if_pos hhandle]
    exact Quiet.refl h
  rw [if_neg hhandle]
  by_cases hopen : s.shared.terminalStatus = .acquired
  · rw [if_neg (by simp [hopen])]
    by_cases hcancelled : env.cancelled = true
    · rw [if_pos hcancelled]
      exact Quiet.refl h
    rw [if_neg hcancelled]
    cases hb : s.shared.bucket key with
    | none =>
      have hserves := enqueue_serves h env reading key eligible deadline hopen
      rw [hb] at hserves
      exact hserves
    | some b =>
      obtain ⟨hquiet, hextended⟩ := h.extend_quiet hb eligible
      have hfound := h.counted.bucket_setBucket key (some (b.extend eligible))
      have hserves := enqueue_serves hquiet.books env reading key eligible deadline hopen
      rw [hfound] at hserves
      refine hserves.after hopen hextended rfl (List.Sublist.refl _) ?_
      intro ticket hmem
      rw [hb] at hmem
      rw [hfound]
      exact hmem
  · rw [if_pos (by simpa using hopen)]
    exact Quiet.refl h

theorem requeueTicket_serves {s : System ι} (h : Books s) (env : EntryEnv) (reading : Reading)
    {key : QuotaBucketKey ι} (deadline : Int) {b : BucketState}
    (hopen : s.shared.terminalStatus = .acquired) (hmem : key ∈ s.permits)
    (hb : s.shared.bucket key = some b) (hpermitted : b.permitted = true) :
    Serves s ⟨key, s.shared.nextTicket, deadline⟩ (some reading.now)
      (s.enter (requeueTicket env key b s.shared) reading key deadline
        (s.permits.erase key)) := by
  unfold requeueTicket
  by_cases hexhausted : s.shared.nextTicket = 0xFFFFFFFFFFFFFFFF
  · rw [if_pos (by simpa using hexhausted)]
    exact h.terminal_quiet hopen (by decide)
  rw [if_neg (by simpa using hexhausted)]
  dsimp only
  by_cases hpush : env.pushFails = true
  · rw [if_pos hpush]
    exact h.spend_quiet (UInt64.le_of_lt (Books.lt_succ_of_ne_max hexhausted))
  rw [if_neg hpush]
  have hset : Rebucketed key
      (some { b with tickets := b.tickets ++ [s.shared.nextTicket], permitted := false }) s.shared
      (SharedState.setBucket { s.shared with nextTicket := s.shared.nextTicket + 1 } key
        (some { b with tickets := b.tickets ++ [s.shared.nextTicket], permitted := false })) :=
    ⟨rfl, rfl, rfl⟩
  have hcounted : Counted _ := h.counted.replace hset
    (by simp [hb, BucketState.occupancy, hpermitted]) (by rw [hb]; rfl) rfl
  have hjoined := h.join deadline hopen hexhausted hset hcounted rfl (by rw [hb]; rfl)
    (h.count_erase hmem)
  have hturn := turn_serves hjoined reading (List.mem_append_right _ (List.mem_singleton_self _))
  refine hturn.after hopen (h.counted.extended hset ?_) rfl List.erase_sublist ?_
  · intro b₀ hb₀
    obtain rfl := Option.some.inj (hb.symm.trans hb₀)
    exact Int.le_refl _
  · intro ticket hticket
    rw [hb] at hticket
    rw [show _ = some _ from (h.counted.bucket_eq hset key).trans (if_pos rfl)]
    exact List.mem_append_left _ hticket

/-- A permit turns back into a ticket, or stays what it was. -/
theorem requeue_serves {s : System ι} (h : Books s) (env : EntryEnv) (reading : Reading)
    {key : QuotaBucketKey ι} (eligible deadline : Int) (hmem : key ∈ s.permits) :
    Serves s ⟨key, s.shared.nextTicket, deadline⟩ (some reading.now)
      (s.enter (requeue env key eligible s.shared) reading key deadline (s.permits.erase key)) := by
  obtain ⟨b, hb, hpermitted⟩ := h.marked hmem
  unfold requeue
  by_cases hopen : s.shared.terminalStatus = .acquired
  · rw [if_neg (by simp [hopen])]
    by_cases hcancelled : env.cancelled = true
    · rw [if_pos hcancelled]
      exact Quiet.refl h
    rw [if_neg hcancelled]
    by_cases hhandle : env.handleFails = true
    · rw [if_pos hhandle]
      exact Quiet.refl h
    rw [if_neg hhandle, hb]
    dsimp only
    rw [if_neg (by simp [hpermitted])]
    obtain ⟨hquiet, hextended⟩ := h.extend_quiet hb eligible
    have hfound := h.counted.bucket_setBucket key (some (b.extend eligible))
    have hserves := requeueTicket_serves hquiet.books env reading deadline hopen hmem hfound
      hpermitted
    refine hserves.after hopen hextended rfl (List.Sublist.refl _) ?_
    intro ticket hticket
    rw [hb] at hticket
    rw [hfound]
    exact hticket
  · rw [if_pos (by simpa using hopen)]
    exact Quiet.refl h

/-- What a whole section does: nothing is granted, or one permit is, to a thread
that waits already or to the one that just drew its ticket. -/
def Outcome (s : System ι) (now : Option Int) (result : Option (Waiter ι) × System ι) : Prop :=
  match result with
  | (none, s') => Quiet s s'
  | (some w, s') => (w ∈ s.waiters ∨ w.ticket = s.shared.nextTicket) ∧
      ∃ time, now = some time ∧ Grants s w time s'

theorem Serves.outcome {s : System ι} {w : Waiter ι} {now : Option Int}
    {result : Option (Waiter ι) × System ι} (h : Serves s w now result)
    (hw : w ∈ s.waiters ∨ w.ticket = s.shared.nextTicket) : Outcome s now result := by
  obtain ⟨_ | w', s'⟩ := result
  · exact h
  · obtain ⟨rfl, hgrants⟩ := h
    exact ⟨hw, hgrants⟩

/-- Completing a permit is quiet. -/
theorem Books.complete_quiet {s : System ι} (h : Books s) {key : QuotaBucketKey ι}
    (hmem : key ∈ s.permits) :
    Quiet s { s with shared := RateLimit.complete key s.shared,
                     permits := s.permits.erase key } := by
  obtain ⟨b, hb, hpermitted⟩ := h.marked hmem
  have hshape := complete_eq hb hpermitted
  refine ⟨h.complete hmem, ?_, ?_, List.erase_sublist, fun _ => List.Sublist.refl _, fun _ => ?_⟩
  · rw [hshape]
    rfl
  · have hset : Rebucketed key (BucketState.unlessIdle { b with permitted := false }) s.shared
        (RateLimit.complete key s.shared) := by
      rw [hshape]
      exact ⟨rfl, rfl, rfl⟩
    refine h.counted.embargoed hset ?_
    intro b₀ b₁ hb₀ hb₁
    obtain ⟨rfl, -⟩ := unlessIdle_eq_some hb₁
    obtain rfl := Option.some.inj (hb.symm.trans hb₀)
    exact Int.le_refl _
  · rw [hshape]
    rfl

theorem serve_outcome {s : System ι} (h : Books s) (e : Event ι) :
    Outcome s e.now (s.serve e) := by
  cases e with
  | acquire env reading key eligible deadline =>
    exact (acquire_serves h env reading key eligible deadline).outcome (Or.inr rfl)
  | wake reading ticket =>
    show Outcome s (some reading.now) (match s.waiters.find? (Waiter.has ticket) with
      | none => (none, s)
      | some w => s.turn reading w)
    split
    · exact Quiet.refl h
    · rename_i w hfind
      have hw := List.mem_of_find?_eq_some hfind
      exact (turn_serves h reading hw).outcome (Or.inl hw)
  | waitThrew ticket =>
    show Outcome s none (match s.waiters.find? (Waiter.has ticket) with
      | none => (none, s)
      | some w =>
        (none,
          { s with shared := waitThrew w.key w.ticket s.shared, waiters := s.others w.ticket }))
    split
    · exact Quiet.refl h
    · rename_i w hfind
      have hw := List.mem_of_find?_eq_some hfind
      rw [waitThrew]
      split
      · rename_i hb
        -- only a closed coordinator has lost a waiter's bucket
        have hclosed : s.shared.terminalStatus ≠ .acquired := by
          intro hopen
          obtain ⟨b, hb', -⟩ := h.linked.waiting hopen hw
          rw [hb] at hb'
          cases hb'
        exact h.depart_quiet hclosed w.ticket
      · rename_i b hb
        exact h.leave_quiet hw hb
  | requeue env reading key eligible deadline =>
    by_cases hmem : key ∈ s.permits
    · rw [System.serve, if_pos hmem]
      exact (requeue_serves h env reading eligible deadline hmem).outcome (Or.inr rfl)
    · rw [System.serve, if_neg hmem]
      exact Quiet.refl h
  | complete key =>
    by_cases hmem : key ∈ s.permits
    · rw [System.serve, if_pos hmem]
      exact h.complete_quiet hmem
    · rw [System.serve, if_neg hmem]
      exact Quiet.refl h
  | extendEligibleTime key eligible =>
    by_cases hmem : key ∈ s.permits
    · rw [System.serve, if_pos hmem]
      obtain ⟨b, hb, hpermitted⟩ := h.marked hmem
      rw [extendEligibleTime, hb]
      dsimp only
      split
      · exact Quiet.refl h
      · exact (h.extend_quiet hb eligible).1
    · rw [System.serve, if_neg hmem]
      exact Quiet.refl h
  | close =>
    show Quiet s { s with shared := close s.shared }
    rw [close]
    split
    · exact Quiet.refl h
    · rename_i hopen
      exact h.terminal_quiet (by simpa using hopen) (by decide)

-- ---------------------------------------------------------------------------
-- Embargoes
-- ---------------------------------------------------------------------------

/-- The time a bucket is embargoed until. -/
def SharedState.embargo (shared : SharedState ι) (key : QuotaBucketKey ι) : Option Int :=
  (shared.bucket key).map BucketState.eligibleSteadyMilliseconds

/-- The time a section asks a bucket to be embargoed until, if it gets as far as
the bucket. -/
def Event.asks (s : System ι) (key : QuotaBucketKey ι) : Event ι → Option Int
  | .acquire env _ k eligible _ =>
    if s.shared.terminalStatus = .acquired ∧ env.handleFails = false ∧ env.cancelled = false ∧
        k = key then some eligible
    else none
  | .requeue env _ k eligible _ =>
    if s.shared.terminalStatus = .acquired ∧ env.handleFails = false ∧ env.cancelled = false ∧
        k ∈ s.permits ∧ k = key then some eligible
    else none
  | .extendEligibleTime k eligible =>
    if s.shared.terminalStatus = .acquired ∧ k ∈ s.permits ∧ k = key then some eligible else none
  | .wake _ _ | .waitThrew _ | .complete _ | .close => none

/-- Every bucket of the table is embargoed until the time wanted of it. -/
structure Meets (want : QuotaBucketKey ι → Option Int) (shared : SharedState ι) : Prop where
  keys : (shared.buckets.map Prod.fst).Nodup
  embargo : ∀ {key b}, shared.bucket key = some b →
    want key = some b.eligibleSteadyMilliseconds

namespace Meets

variable {want : QuotaBucketKey ι → Option Int} {shared after : SharedState ι}
  {key : QuotaBucketKey ι} {v : Option BucketState}

theorem bucket_eq (h : Meets want shared) (hbuckets : after.buckets = assign key v shared.buckets)
    (k : QuotaBucketKey ι) : after.bucket k = if k = key then v else shared.bucket k := by
  rw [SharedState.bucket, hbuckets]
  exact lookup_assign h.keys k

/-- One bucket is replaced by one with the embargo wanted of it, or erased. -/
theorem set (h : Meets want shared) (hbuckets : after.buckets = assign key v shared.buckets)
    (hv : ∀ b, v = some b → want key = some b.eligibleSteadyMilliseconds) : Meets want after where
  keys := by
    rw [hbuckets]
    exact nodup_keys_assign h.keys
  embargo := by
    intro k b hb
    rw [h.bucket_eq hbuckets] at hb
    split at hb
    · rename_i hk
      rw [hk]
      exact hv b hb
    · exact h.embargo hb

omit [DecidableEq ι] in
theorem unlessIdle {b : BucketState} (hb : want key = some b.eligibleSteadyMilliseconds) :
    ∀ kept, b.unlessIdle = some kept → want key = some kept.eligibleSteadyMilliseconds := by
  intro kept hkept
  obtain ⟨rfl, -⟩ := unlessIdle_eq_some hkept
  exact hb

theorem eraseTicketLocked (h : Meets want shared) {b : BucketState}
    (hb : shared.bucket key = some b) (ticket : UInt64) :
    Meets want (shared.eraseTicketLocked key b ticket) := by
  have hwant := h.embargo hb
  have hkept := unlessIdle (b := { b with tickets := b.tickets.erase ticket }) hwant
  rw [SharedState.eraseTicketLocked]
  split
  · exact h.set rfl hkept
  · exact h.set rfl hkept

theorem enterTerminalLocked (h : Meets want shared) (status : RateLimitAcquireStatus) :
    Meets want (shared.enterTerminalLocked status) := by
  rw [SharedState.enterTerminalLocked]
  split
  · exact h
  refine ⟨h.keys.sublist (drain_keys ..), fun {k b} hb => ?_⟩
  obtain ⟨drained, hmem, -, hdrained⟩ := mem_drain.mp (mem_of_lookup hb)
  have hwant := h.embargo (lookup_of_mem h.keys hmem)
  obtain rfl : b = { drained with tickets := [] } := hdrained
  exact hwant

theorem waitTurn (h : Meets want shared) (reading : Reading) (key : QuotaBucketKey ι)
    (ticket : UInt64) (deadline : Int) :
    Meets want (RateLimit.waitTurn reading key ticket deadline shared).2 := by
  rw [RateLimit.waitTurn]
  split
  · exact h
  split
  · exact h
  rename_i b hb
  dsimp only
  split
  · exact h.eraseTicketLocked hb ticket
  have hwant := h.embargo hb
  split
  · refine h.set rfl fun granted hgranted => ?_
    obtain rfl := Option.some.inj hgranted
    exact hwant
  split
  · exact h.eraseTicketLocked hb ticket
  · exact h

theorem turn {s : System ι} (h : Meets want s.shared) (reading : Reading) (w : Waiter ι) :
    Meets want (s.turn reading w).2.shared := by
  have hturn := h.waitTurn reading w.key w.ticket w.deadline
  rw [System.turn]
  split <;> rename_i hcase <;> rw [hcase] at hturn <;> exact hturn

theorem enter {s : System ι} {entry : Entry × SharedState ι} (h : Meets want entry.2)
    (reading : Reading) (key : QuotaBucketKey ι) (deadline : Int)
    (permits : List (QuotaBucketKey ι)) :
    Meets want (s.enter entry reading key deadline permits).2.shared := by
  obtain ⟨entry, shared⟩ := entry
  cases entry with
  | queued ticket => exact turn (s := ⟨shared, _, permits⟩) h reading _
  | returned status => exact h
  | threw => exact h

theorem pushTicket (h : Meets want shared) (env : EntryEnv) {b : BucketState}
    (hb : want key = some b.eligibleSteadyMilliseconds) :
    Meets want (RateLimit.pushTicket env key b shared).2 := by
  rw [RateLimit.pushTicket]
  dsimp only
  split
  · exact h.set rfl (unlessIdle hb)
  · refine h.set rfl fun queued hqueued => ?_
    obtain rfl := Option.some.inj hqueued
    exact hb

theorem enqueue (h : Meets want shared) (env : EntryEnv) (eligible : Int)
    {found : Option BucketState}
    (hfound : want key = some (found.getD ⟨eligible, false, []⟩).eligibleSteadyMilliseconds) :
    Meets want (RateLimit.enqueue env key eligible found shared).2 := by
  rw [RateLimit.enqueue]
  split
  · exact h
  split
  · exact h.enterTerminalLocked _
  split
  · exact h
  · exact h.pushTicket env hfound

theorem requeueTicket (h : Meets want shared) (env : EntryEnv) {b : BucketState}
    (hb : want key = some b.eligibleSteadyMilliseconds) :
    Meets want (RateLimit.requeueTicket env key b shared).2 := by
  rw [RateLimit.requeueTicket]
  split
  · exact h.enterTerminalLocked _
  dsimp only
  split
  · exact ⟨h.keys, h.embargo⟩
  · refine h.set rfl fun queued hqueued => ?_
    obtain rfl := Option.some.inj hqueued
    exact hb

theorem complete (h : Meets want shared) (key : QuotaBucketKey ι) :
    Meets want (RateLimit.complete key shared) := by
  rw [RateLimit.complete]
  split
  · exact h
  rename_i b hb
  have hwant := h.embargo hb
  split
  · refine h.set rfl fun freed hfreed => ?_
    split at hfreed
    · cases hfreed
    · obtain rfl := Option.some.inj hfreed
      exact hwant
  · exact h

theorem close (h : Meets want shared) : Meets want (RateLimit.close shared) := by
  rw [RateLimit.close]
  split
  · exact h
  · exact h.enterTerminalLocked _

end Meets

theorem Books.meets {s : System ι} (h : Books s) : Meets s.shared.embargo s.shared :=
  ⟨h.counted.keys, fun hb => by rw [SharedState.embargo, hb]; rfl⟩

/-- What a section wants of a bucket it raises to `eligible`. -/
def raisedTo (shared : SharedState ι) (key : QuotaBucketKey ι) (eligible : Int)
    (k : QuotaBucketKey ι) : Option Int :=
  Option.merge max (shared.embargo k) (if key = k then some eligible else none)

/-- Raising the bucket where it stands. -/
theorem Books.meets_extend {s : System ι} (h : Books s) {key : QuotaBucketKey ι}
    {b : BucketState} (hb : s.shared.bucket key = some b) (eligible : Int) :
    Meets (raisedTo s.shared key eligible) (s.shared.setBucket key (some (b.extend eligible))) := by
  have hset : Rebucketed key (some (b.extend eligible)) s.shared
      (s.shared.setBucket key (some (b.extend eligible))) := ⟨rfl, rfl, rfl⟩
  refine ⟨nodup_keys_assign h.counted.keys, ?_⟩
  intro k b' hb'
  rw [h.counted.bucket_eq hset] at hb'
  rw [raisedTo]
  split at hb'
  · rename_i hk
    subst hk
    obtain rfl := Option.some.inj hb'
    rw [SharedState.embargo, hb, if_pos rfl]
    rfl
  · rename_i hk
    rw [SharedState.embargo, hb', if_neg (Ne.symm hk)]
    rfl

theorem raisedTo_self {shared : SharedState ι} {key : QuotaBucketKey ι} {b : BucketState}
    (hb : shared.bucket key = some b) (eligible : Int) :
    raisedTo shared key eligible key = some (b.extend eligible).eligibleSteadyMilliseconds := by
  rw [raisedTo, SharedState.embargo, hb, if_pos rfl]
  rfl

/-- A section raises an embargo exactly by what it asks for, and no section
lowers one: every bucket it leaves is embargoed until the later of the two. -/
theorem serve_embargo {s : System ι} (h : Books s) (e : Event ι) :
    Meets (fun key => Option.merge max (s.shared.embargo key) (e.asks s key))
      (s.serve e).2.shared := by
  have hkept : Meets (fun key => Option.merge max (s.shared.embargo key) none) s.shared := by
    simpa using h.meets
  cases e with
  | acquire env reading key eligible deadline =>
    apply Meets.enter
    rw [acquire]
    by_cases hreached : s.shared.terminalStatus = .acquired ∧ env.handleFails = false ∧
        env.cancelled = false
    · obtain ⟨hopen, hhandle, hcancelled⟩ := hreached
      have hasks : ∀ k, (Event.acquire env reading key eligible deadline).asks s k =
          if key = k then some eligible else none := fun k => by
        simp [Event.asks, hopen, hhandle, hcancelled]
      simp only [hasks]
      rw [if_neg (by simp [hhandle]), if_neg (by simp [hopen]), if_neg (by simp [hcancelled])]
      cases hb : s.shared.bucket key with
      | none =>
        -- no bucket yet: the new one starts with the time asked for
        refine Meets.enqueue ⟨h.counted.keys, ?_⟩ env eligible ?_
        · intro k b hk
          have hne : key ≠ k := fun heq => by
            rw [heq, hk] at hb
            cases hb
          rw [SharedState.embargo, hk, if_neg hne]
          rfl
        · rw [SharedState.embargo, hb, if_pos rfl]
          rfl
      | some b => exact (h.meets_extend hb eligible).enqueue env eligible (raisedTo_self hb eligible)
    · have hasks : ∀ k, (Event.acquire env reading key eligible deadline).asks s k = none :=
        fun k => if_neg fun hall => hreached ⟨hall.1, hall.2.1, hall.2.2.1⟩
      simp only [hasks]
      split
      · exact hkept
      split
      · exact hkept
      split
      · exact hkept
      · rename_i hhandle hopen hcancelled
        exact absurd ⟨by simpa using hopen, by simpa using hhandle, by simpa using hcancelled⟩
          hreached
  | wake reading ticket =>
    show Meets (fun key => Option.merge max (s.shared.embargo key) none)
      (System.serve s (.wake reading ticket)).2.shared
    rw [System.serve]
    split
    · exact hkept
    · exact hkept.turn reading _
  | waitThrew ticket =>
    show Meets (fun key => Option.merge max (s.shared.embargo key) none)
      (System.serve s (.waitThrew ticket)).2.shared
    rw [System.serve]
    split
    · exact hkept
    · rename_i w _
      show Meets _ (waitThrew w.key w.ticket s.shared)
      rw [waitThrew]
      split
      · exact hkept
      · rename_i b hb
        exact hkept.eraseTicketLocked hb w.ticket
  | requeue env reading key eligible deadline =>
    rw [System.serve]
    by_cases hreached : s.shared.terminalStatus = .acquired ∧ env.handleFails = false ∧
        env.cancelled = false ∧ key ∈ s.permits
    · obtain ⟨hopen, hhandle, hcancelled, hmem⟩ := hreached
      obtain ⟨b, hb, hpermitted⟩ := h.marked hmem
      have hasks : ∀ k, (Event.requeue env reading key eligible deadline).asks s k =
          if key = k then some eligible else none := fun k => by
        simp [Event.asks, hopen, hhandle, hcancelled, hmem]
      simp only [hasks]
      rw [if_pos hmem]
      apply Meets.enter
      rw [requeue, if_neg (by simp [hopen]), if_neg (by simp [hcancelled]),
        if_neg (by simp [hhandle]), hb]
      dsimp only
      rw [if_neg (by simp [hpermitted])]
      exact (h.meets_extend hb eligible).requeueTicket env (raisedTo_self hb eligible)
    · have hasks : ∀ k, (Event.requeue env reading key eligible deadline).asks s k = none :=
        fun k => if_neg fun hall => hreached ⟨hall.1, hall.2.1, hall.2.2.1, hall.2.2.2.1⟩
      simp only [hasks]
      by_cases hmem : key ∈ s.permits
      · rw [if_pos hmem]
        apply Meets.enter
        rw [requeue]
        split
        · exact hkept
        split
        · exact hkept
        split
        · exact hkept
        · rename_i hopen hcancelled hhandle
          exact absurd ⟨by simpa using hopen, by simpa using hhandle, by simpa using hcancelled,
            hmem⟩ hreached
      · rw [if_neg hmem]
        exact hkept
  | complete key =>
    show Meets (fun key => Option.merge max (s.shared.embargo key) none)
      (System.serve s (.complete key)).2.shared
    rw [System.serve]
    split
    · exact hkept.complete key
    · exact hkept
  | extendEligibleTime key eligible =>
    rw [System.serve]
    by_cases hreached : s.shared.terminalStatus = .acquired ∧ key ∈ s.permits
    · obtain ⟨hopen, hmem⟩ := hreached
      obtain ⟨b, hb, hpermitted⟩ := h.marked hmem
      have hasks : ∀ k, (Event.extendEligibleTime key eligible).asks s k =
          if key = k then some eligible else none := fun k => by
        simp [Event.asks, hopen, hmem]
      simp only [hasks]
      rw [if_pos hmem, extendEligibleTime, hb]
      dsimp only
      rw [if_neg (by simp [hopen, hpermitted])]
      exact h.meets_extend hb eligible
    · have hasks : ∀ k, (Event.extendEligibleTime key eligible).asks s k = none :=
        fun k => if_neg fun hall => hreached ⟨hall.1, hall.2.1⟩
      simp only [hasks]
      by_cases hmem : key ∈ s.permits
      · obtain ⟨b, hb, -⟩ := h.marked hmem
        have hclosed : s.shared.terminalStatus ≠ .acquired := fun hopen => hreached ⟨hopen, hmem⟩
        rw [if_pos hmem, extendEligibleTime, hb]
        dsimp only
        rw [if_pos (by simp [hclosed])]
        exact hkept
      · rw [if_neg hmem]
        exact hkept
  | close => exact hkept.close

-- ---------------------------------------------------------------------------
-- Whole runs
-- ---------------------------------------------------------------------------

/-- The sections of a run, from any state. -/
def System.runFrom (s : System ι) (es : List (Event ι)) : System ι :=
  es.foldl (fun s e => (s.serve e).2) s

theorem runFrom_cons (s : System ι) (e : Event ι) (es : List (Event ι)) :
    s.runFrom (e :: es) = (s.serve e).2.runFrom es := rfl

theorem Outcome.books {s : System ι} {now : Option Int} {result : Option (Waiter ι) × System ι}
    (h : Outcome s now result) : Books result.2 := by
  obtain ⟨_ | w, s'⟩ := result
  · exact Quiet.books h
  · obtain ⟨-, _, -, hgrants⟩ := h
    exact hgrants.books

theorem Outcome.limits {s : System ι} {now : Option Int} {result : Option (Waiter ι) × System ι}
    (h : Outcome s now result) : result.2.shared.limits = s.shared.limits := by
  obtain ⟨_ | w, s'⟩ := result
  · exact Quiet.limits h
  · obtain ⟨-, _, -, hgrants⟩ := h
    exact hgrants.limits

theorem Outcome.embargoed {s : System ι} {now : Option Int}
    {result : Option (Waiter ι) × System ι} (h : Outcome s now result) :
    Embargoed s.shared result.2.shared := by
  obtain ⟨_ | w, s'⟩ := result
  · exact Quiet.embargoed h
  · obtain ⟨-, _, -, hgrants⟩ := h
    exact hgrants.embargoed

/-- A closed coordinator grants nothing. -/
theorem Outcome.of_closed {s : System ι} {now : Option Int}
    {result : Option (Waiter ι) × System ι} (h : Outcome s now result)
    (hclosed : s.shared.terminalStatus ≠ .acquired) :
    result.1 = none ∧ Quiet s result.2 := by
  obtain ⟨_ | w, s'⟩ := result
  · exact ⟨rfl, h⟩
  · obtain ⟨-, _, -, hgrants⟩ := h
    exact absurd hgrants.opened hclosed

omit [DecidableEq ι] in
theorem new_eq_some {limits : RateLimitCoordinatorLimits} {initialTicket : UInt64}
    {shared : SharedState ι} (h : SharedState.new limits initialTicket = some shared) :
    shared = ⟨.acquired, initialTicket, 0, limits, []⟩ ∧
      limits.waitersPerKey.toNat ≤ 64 ∧ limits.totalWaiters.toNat ≤ 4096 := by
  unfold SharedState.new at h
  split at h
  · cases h
  · rename_i hvalid
    obtain rfl := Option.some.inj h
    simp only [Bool.or_eq_true, decide_eq_true_eq, not_or, gt_iff_lt, UInt64.not_lt,
      UInt64.le_iff_toNat_le] at hvalid
    obtain ⟨⟨⟨⟨-, hkey⟩, htotal⟩, -⟩, -⟩ := hvalid
    exact ⟨rfl, hkey, htotal⟩

theorem new_books {limits : RateLimitCoordinatorLimits} {initialTicket : UInt64}
    {shared : SharedState ι} (h : SharedState.new limits initialTicket = some shared) :
    Books (System.initial shared) := by
  obtain ⟨rfl, hkey, htotal⟩ := new_eq_some h
  constructor
  · exact ⟨List.nodup_nil, (fun hb => nomatch hb), (fun hb => nomatch hb), rfl, Nat.zero_le _, hkey,
      htotal⟩
  · exact ⟨fun _ => rfl, fun _ _ => rfl, fun _ _ => rfl, List.Pairwise.nil,
      fun _ hw => nomatch hw⟩

theorem reachable_books {limits : RateLimitCoordinatorLimits} {initialTicket : UInt64}
    {shared : SharedState ι} {s : System ι}
    (hnew : SharedState.new limits initialTicket = some shared)
    (hreach : (rateLimiter shared).Reachable s) : Books s ∧ s.shared.limits = limits := by
  refine hreach.invariant (I := fun s => Books s ∧ s.shared.limits = limits) ?_ ?_
  · obtain ⟨rfl, -, -⟩ := new_eq_some hnew
    exact ⟨new_books hnew, rfl⟩
  · intro s e h
    have houtcome := serve_outcome h.1 e
    exact ⟨houtcome.books, houtcome.limits.trans h.2⟩

/-- While a bucket stays in the table its embargo only moves forward. -/
theorem embargo_run {s : System ι} (h : Books s) {key : QuotaBucketKey ι} (es : List (Event ι))
    (hstays : ∀ n ≤ es.length, ((s.runFrom (es.take n)).shared.bucket key).isSome)
    {b b' : BucketState} (hb : s.shared.bucket key = some b)
    (hb' : (s.runFrom es).shared.bucket key = some b') :
    b.eligibleSteadyMilliseconds ≤ b'.eligibleSteadyMilliseconds := by
  induction es generalizing s b with
  | nil =>
    obtain rfl := Option.some.inj (hb.symm.trans hb')
    exact Int.le_refl _
  | cons e es ih =>
    have houtcome := serve_outcome h e
    have hnext := hstays 1 (by simp)
    obtain ⟨mid, hmid⟩ := Option.isSome_iff_exists.mp hnext
    have hstep := houtcome.embargoed key b mid hb hmid
    refine Int.le_trans hstep (ih houtcome.books ?_ hmid hb')
    intro n hn
    exact hstays (n + 1) (by simpa using hn)

/-- A thread that gets a turn at a closed coordinator leaves. -/
theorem wake_leaves {s : System ι} (hclosed : s.shared.terminalStatus ≠ .acquired)
    (reading : Reading) (ticket : UInt64) :
    ∀ w ∈ (s.serve (.wake reading ticket)).2.waiters, w ∈ s.waiters ∧ w.ticket ≠ ticket := by
  intro w hw
  rw [System.serve] at hw
  split at hw
  · rename_i hfind
    have hnone := List.find?_eq_none.mp hfind w hw
    exact ⟨hw, by simpa [Waiter.has] using hnone⟩
  · rename_i w' hfind
    have hticket : w'.ticket = ticket := by simpa [Waiter.has] using List.find?_some hfind
    rw [System.turn, waitTurn, if_pos (by simpa using hclosed), hticket] at hw
    exact mem_others.mp hw

/-- After closing: nothing is granted, nobody joins, whoever gets a turn leaves. -/
theorem closed_run {s : System ι} (h : Books s) (hclosed : s.shared.terminalStatus ≠ .acquired)
    (es : List (Event ι)) :
    (∀ n e, es[n]? = some e → ((s.runFrom (es.take n)).serve e).1 = none) ∧
      ∀ w ∈ (s.runFrom es).waiters, w ∈ s.waiters ∧ ∀ reading, .wake reading w.ticket ∉ es := by
  induction es generalizing s with
  | nil => exact ⟨fun n e he => by simp at he, fun w hw => ⟨hw, fun _ hmem => nomatch hmem⟩⟩
  | cons e es ih =>
    obtain ⟨hnone, hquiet⟩ := (serve_outcome h e).of_closed hclosed
    have hstill : (s.serve e).2.shared.terminalStatus ≠ .acquired := by
      rw [hquiet.closed hclosed]
      exact hclosed
    obtain ⟨hgrants, hwaiters⟩ := ih hquiet.books hstill
    refine ⟨?_, ?_⟩
    · intro n e' he'
      cases n with
      | zero =>
        obtain rfl := Option.some.inj he'
        exact hnone
      | succ n => exact hgrants n e' he'
    · intro w hw
      obtain ⟨hmem, hnot⟩ := hwaiters w hw
      refine ⟨(hquiet.waiters hclosed).subset hmem, fun reading hwake => ?_⟩
      rcases List.mem_cons.mp hwake with rfl | hrest
      · exact (wake_leaves hclosed reading w.ticket w hmem).2 rfl
      · exact hnot reading hrest

/-- `Close` closes. -/
theorem close_closes {s : System ι} : (s.serve .close).2.shared.terminalStatus ≠ .acquired := by
  show (close s.shared).terminalStatus ≠ .acquired
  rw [close]
  split
  · rename_i hclosed
    simpa using hclosed
  · rename_i hopen
    rw [terminalStatus_enterTerminalLocked (by simpa using hopen)]
    decide

theorem occupancyOf_le {shared : SharedState ι} (h : Counted shared) (key : QuotaBucketKey ι) :
    occupancyOf (shared.bucket key) ≤ shared.limits.waitersPerKey.toNat := by
  cases hb : shared.bucket key with
  | none => exact Nat.zero_le _
  | some b => exact h.perKey hb

theorem waitSlice_le {now target : Int} (maximumSlice : UInt64) (htarget : target ≤ 2 ^ 63 - 1)
    (hlater : now < target) :
    waitSlice now target maximumSlice ≤ maximumSlice.toNat ∧
      now + waitSlice now target maximumSlice ≤ target := by
  unfold waitSlice
  rw [if_neg (by omega)]
  split
  · rename_i hlong
    omega
  · rename_i hshort
    omega

/-- A thread that waits on comes back after a bounded slice, which does not run
past its deadline. -/
theorem waits_bounded {reading : Reading} {key : QuotaBucketKey ι} {ticket : UInt64}
    {deadline slice : Int} {shared after : SharedState ι} (hdeadline : deadline ≤ 2 ^ 63 - 1)
    (h : waitTurn reading key ticket deadline shared = (.waits slice, after)) :
    slice ≤ shared.limits.interruptSliceMilliseconds.toNat ∧ reading.now + slice ≤ deadline := by
  unfold waitTurn at h
  split at h
  · cases h
  split at h
  · cases h
  rename_i b _
  dsimp only at h
  split at h
  · cases h
  split at h
  · cases h
  split at h
  · cases h
  rename_i htime
  obtain ⟨hturn, -⟩ := Prod.mk.inj h
  obtain rfl := Turn.waits.inj hturn
  rw [not_or] at htime
  have htarget : ∀ target : Int, target ≤ deadline → reading.now < target →
      waitSlice reading.now target shared.limits.interruptSliceMilliseconds ≤
          shared.limits.interruptSliceMilliseconds.toNat ∧
        reading.now + waitSlice reading.now target shared.limits.interruptSliceMilliseconds ≤
          deadline := by
    intro target hle hlater
    have hslice := waitSlice_le shared.limits.interruptSliceMilliseconds
      (Int.le_trans hle hdeadline) hlater
    omega
  refine htarget _ ?_ ?_
  · split
    · exact Int.min_le_right ..
    · exact Int.le_refl _
  · split
    · exact Int.lt_min.mpr ⟨by omega, by omega⟩
    · omega

/-- The protocol, at every moment of every interleaving: one permit per key at
most; the counter is what the table holds and within the limits; a permit goes
to the oldest ticket of its bucket, at a time its embargo and its deadline
allow; an embargo never moves back, and moves up to exactly what `Acquire`,
`Requeue` and `ExtendEligibleTime` ask for; and after `Close` nothing is granted and
every waiter that gets a turn is gone. -/
theorem rate_limit_protocol {limits : RateLimitCoordinatorLimits} {initialTicket : UInt64}
    {shared : SharedState ι} {s : System ι}
    (hnew : SharedState.new limits initialTicket = some shared)
    (hreach : (rateLimiter shared).Reachable s) :
    (∀ key, s.permits.count key ≤ 1) ∧
    (s.shared.totalWaiters.toNat = weigh BucketState.occupancy s.shared.buckets ∧
      (∀ key, s.permits.count key = if permittedIn (s.shared.bucket key) then 1 else 0) ∧
      (s.shared.terminalStatus = .acquired →
        ∀ key, queueIn (s.shared.bucket key) = ticketsFor key s.waiters) ∧
      s.shared.totalWaiters.toNat ≤ limits.totalWaiters.toNat ∧
      ∀ key, occupancyOf (s.shared.bucket key) ≤ limits.waitersPerKey.toNat) ∧
    (∀ e w s', s.serve e = (some w, s') →
      (w ∈ s.waiters ∨ w.ticket = s.shared.nextTicket) ∧
      (∀ ticket ∈ queueIn (s.shared.bucket w.key), w.ticket ≤ ticket) ∧
      ∃ now, e.now = some now ∧ now ≤ w.deadline ∧
        ∃ b, s'.shared.bucket w.key = some b ∧ b.eligibleSteadyMilliseconds ≤ now) ∧
    (∀ e s', s.serve e = (none, s') → s'.permits.Sublist s.permits) ∧
    (∀ key es b b', (∀ n ≤ es.length, ((s.runFrom (es.take n)).shared.bucket key).isSome) →
      s.shared.bucket key = some b → (s.runFrom es).shared.bucket key = some b' →
      b.eligibleSteadyMilliseconds ≤ b'.eligibleSteadyMilliseconds) ∧
    (∀ e key b, (s.serve e).2.shared.bucket key = some b →
      Option.merge max (s.shared.embargo key) (e.asks s key) =
        some b.eligibleSteadyMilliseconds) ∧
    ∀ es, (∀ n e, es[n]? = some e →
        (((s.serve .close).2.runFrom (es.take n)).serve e).1 = none) ∧
      ((∀ w ∈ s.waiters, ∃ reading, Event.wake reading w.ticket ∈ es) →
        ((s.serve .close).2.runFrom es).waiters = []) := by
  obtain ⟨hbooks, hlimits⟩ := reachable_books hnew hreach
  refine ⟨?_, ⟨hbooks.counted.counted, hbooks.linked.held, hbooks.linked.queued, ?_, ?_⟩,
    ?_, ?_, ?_, fun e key b hb => (serve_embargo hbooks e).embargo hb, ?_⟩
  · intro key
    rw [hbooks.linked.held]
    split <;> decide
  · rw [← hlimits]
    exact hbooks.counted.bounded
  · intro key
    rw [← hlimits]
    exact occupancyOf_le hbooks.counted key
  · intro e w s' hserve
    have houtcome := serve_outcome hbooks e
    rw [hserve] at houtcome
    obtain ⟨hwaiting, now, hnow, hgrants⟩ := houtcome
    exact ⟨hwaiting, hgrants.oldest, now, hnow, hgrants.inTime, hgrants.eligible⟩
  · intro e s' hserve
    have houtcome := serve_outcome hbooks e
    rw [hserve] at houtcome
    exact Quiet.permits houtcome
  · intro key es b b' hstays hb hb'
    exact embargo_run hbooks es hstays hb hb'
  · intro es
    have hclosed := (serve_outcome hbooks .close).books
    obtain ⟨hgrants, hwaiters⟩ := closed_run hclosed close_closes es
    refine ⟨hgrants, fun hwoken => ?_⟩
    refine List.eq_nil_iff_forall_not_mem.mpr fun w hw => ?_
    obtain ⟨hmem, hnot⟩ := hwaiters w hw
    obtain ⟨reading, hwake⟩ := hwoken w hmem
    exact hnot reading hwake

/-- Two callers of one bucket: the first gets its permit at once, the second
raises the embargo to 20 and waits; then the first completes. -/
def handover (key : QuotaBucketKey Nat) : List (Event Nat) :=
  [.acquire ⟨false, false, false, false⟩ ⟨false, 10⟩ key 5 100,
    .acquire ⟨false, false, false, false⟩ ⟨false, 11⟩ key 20 100,
    .complete key]

def apiQuota : QuotaBucketKey Nat :=
  ⟨⟨ascii "https", ascii "api.example", 443⟩, ⟨ascii "tickets", 1, ascii "list"⟩,
    .opaqueAuthority 7, none⟩

theorem rate_limit_protocol_handover :
    (((rateLimiter ⟨.acquired, 1, 0, ⟨2, 4, 5⟩, []⟩).run (handover apiQuota)).serve
        (.wake ⟨false, 20⟩ 2)).1 = some ⟨apiQuota, 2, 100⟩ ∧
      ∀ key, ((rateLimiter ⟨.acquired, 1, 0, ⟨2, 4, 5⟩, []⟩).run
        (handover apiQuota)).permits.count key ≤ 1 := by
  have hnew : SharedState.new (ι := Nat) ⟨2, 4, 5⟩ 1 =
      some ⟨.acquired, 1, 0, ⟨2, 4, 5⟩, []⟩ := by decide
  have hreach := (Machine.reachable_iff_run (rateLimiter ⟨.acquired, 1, 0, ⟨2, 4, 5⟩, []⟩) _).mpr
    ⟨handover apiQuota, rfl⟩
  exact ⟨by decide +kernel, (rate_limit_protocol hnew hreach).1⟩

end Cuac.Runtime.RateLimit

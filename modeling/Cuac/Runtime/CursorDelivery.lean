import Cuac.Runtime.CredentialAttachment
import Cuac.Runtime.GraphqlPaginatedScan
import Cuac.Runtime.PageDelivery
import Mathlib.Data.List.Chain

/-!
# Runtime — what a paginated GraphQL stream delivers

Over every sequence of calls: the requests, pages and batches of a stream are
`Orderly`, the cursor of a request is the end cursor of the page before it, a
response that is not accepted is the last thing that happens, and every permit
comes back once.

As in the REST stream a pull is `Idle` or `Loaded`. Between the response of a
step and its page there is `Fetched`, and once the cursor has moved `Advanced`.
`held` are the permits in the locals of a pull; whatever is thrown leaves `Based`
behind with those given back, and `rememberCurrentFailure` ends the stream there.

Main results:

* `pull_yields` — what one pull does.
* `graphql_stream_delivery` — what any sequence of calls does.
-/

namespace Cuac.Runtime.GraphqlScan

open Cuac.Lib
open Cuac.Lib.Paging
open Cuac.Lib.Permits
open Cuac.Lib.Throwing
open Cuac.Runtime.Authentication
open Cuac.Runtime.Resilience

variable {ι ν : Type}

-- ---------------------------------------------------------------------------
-- The discipline of the stream
-- ---------------------------------------------------------------------------

/-- A page is the answer to its request, decoded. -/
def Accepts (config : GraphqlScanConfig ι ν) (a : Asked ι) (page : CursorPage ν) : Prop :=
  a.answered = true ∧ ∃ response limits decoded,
    a.attempt.transfer = .response response ∧ response.status = 200 ∧
    config.decodeGraphqlResponse response.body limits = .ok decoded ∧
    page = ⟨decoded.rows, decoded.hasNext, decoded.endCursor⟩

/-- The cursor that leads on from these pages. -/
def endCursorOf (pages : List (CursorPage ν)) : Option Bytes :=
  pages.getLast?.map CursorPage.endCursor

def cursorRules (config : GraphqlScanConfig ι ν) : Rules (Asked ι) (CursorPage ν) ν where
  rows := CursorPage.rows
  mayRequest pages a :=
    (∀ page ∈ pages, page.hasNext = true) ∧
      a.attempt.request.body =
        graphqlBody config.profile.toAdmittedGraphqlRequestProfile (endCursorOf pages)
  answers := Accepts config
  batchRows := config.batchRows.toNat

/-- After a request whose response came back, the next event is its page. -/
def Heeded (event next : Event (Asked ι) (CursorPage ν) ν) : Prop :=
  ∀ a, event = .requested a → a.answered = true → ∃ page, next = .accepted page

/-- Every page has been handed on, and the last one promises no other. -/
def Finished (config : GraphqlScanConfig ι ν)
    (trace : List (Event (Asked ι) (CursorPage ν) ν)) : Prop :=
  (∃ earlier last, acceptedOf trace = earlier ++ [last] ∧ last.hasNext = false) ∧
    handedOn trace = (cursorRules config).given trace

/-- The last event is not a response that waits for its page. -/
def Settled (trace : List (Event (Asked ι) (CursorPage ν) ν)) : Prop :=
  ∀ event ∈ trace.getLast?, ∀ a, event = .requested a → a.answered = false

/-- What holds at all times; `held` are the permits of the locals. -/
structure Based (config : GraphqlScanConfig ι ν) (held : List Nat)
    (s : GraphqlBatchStream ι ν) : Prop where
  sound : Sound s.controller.ledger
  orderly : Orderly (cursorRules config) s.trace
  heeded : s.trace.IsChain Heeded
  books : Accounted s.register (s.slots ++ held.map some)
  subtracted : ∀ pair ∈ s.subtractions, pair.2 ≤ pair.1
  limits : ∀ limit ∈ s.decodeLimits, 0 < limit

/-- The cursor stands behind these pages. -/
structure CursorAt (pages : List (CursorPage ν)) (c : GraphqlCursorState) : Prop where
  running : c.exhausted = false
  usable : c.failed = false
  seen : c.seen = pages.map CursorPage.endCursor

/-- No page at hand, another one promised, and everything handed on. -/
structure Ready (config : GraphqlScanConfig ι ν) (held : List Nat) (s : GraphqlBatchStream ι ν) :
    Prop extends Based config held s where
  unloaded : s.pageLoaded = false
  promised : ∀ page ∈ acceptedOf s.trace, page.hasNext = true
  handed : handedOn s.trace = (cursorRules config).given s.trace
  position : CursorAt (acceptedOf s.trace) s.cursor

structure Idle (config : GraphqlScanConfig ι ν) (s : GraphqlBatchStream ι ν) : Prop
    extends Ready config [] s where
  settled : Settled s.trace

/-- A page at hand, from `offset` on. -/
structure Loaded (config : GraphqlScanConfig ι ν) (held : List Nat) (s : GraphqlBatchStream ι ν) :
    Prop extends Based config held s where
  loaded : s.pageLoaded = true
  promised : ∃ earlier last, acceptedOf s.trace = earlier ++ [last] ∧
    (∀ page ∈ earlier, page.hasNext = true) ∧ last.hasNext = s.pageHasNext
  rest : handedOn s.trace ++ s.decoded.drop s.offset = (cursorRules config).given s.trace
  position : s.pageHasNext = true → CursorAt (acceptedOf s.trace) s.cursor
  settled : Settled s.trace

def Live (config : GraphqlScanConfig ι ν) (s : GraphqlBatchStream ι ν) : Prop :=
  Idle config s ∨ Loaded config [] s

/-- The flags are as they were, and nothing was handed out. -/
structure Steady (s s' : GraphqlBatchStream ι ν) : Prop where
  cancelled : s'.cancelled = s.cancelled
  closed : s'.closed = s.closed
  terminalException : s'.terminalException = s.terminalException
  exhausted : s'.exhausted = s.exhausted
  delivered : deliveredOf s'.trace = deliveredOf s.trace
  handoffBytes : s'.handoffBytesReservation = s.handoffBytesReservation
  handoffRows : s'.handoffRowsReservation = s.handoffRowsReservation
  released : ∀ permit ∈ s.register.released, permit ∈ s'.register.released

theorem Steady.refl (s : GraphqlBatchStream ι ν) : Steady s s :=
  ⟨rfl, rfl, rfl, rfl, rfl, rfl, rfl, fun _ hpermit => hpermit⟩

theorem Steady.trans {s₁ s₂ s₃ : GraphqlBatchStream ι ν} (h : Steady s₁ s₂) (h' : Steady s₂ s₃) :
    Steady s₁ s₃ :=
  ⟨h'.cancelled.trans h.cancelled, h'.closed.trans h.closed,
    h'.terminalException.trans h.terminalException, h'.exhausted.trans h.exhausted,
    h'.delivered.trans h.delivered, h'.handoffBytes.trans h.handoffBytes,
    h'.handoffRows.trans h.handoffRows, fun permit hpermit =>
      h'.released permit (h.released permit hpermit)⟩

theorem Steady.release {s s' : GraphqlBatchStream ι ν} (slot : Option Nat) (h : Steady s s') :
    Steady s { s' with register := s'.register.release slot } :=
  { h with released := fun permit hpermit => Register.mem_release (h.released permit hpermit) }

/-- A statement of a pull that started from `s₀` has thrown. -/
structure Threw (config : GraphqlScanConfig ι ν) (held : List Nat) (s₀ : GraphqlBatchStream ι ν)
    (halt : GraphqlHalt) (s : GraphqlBatchStream ι ν) : Prop where
  based : Based config held s
  steady : Steady s₀ s
  finished : halt ≠ .unfinished

/-- How a statement of a pull that started from `s₀` may stop it. -/
def Halted (config : GraphqlScanConfig ι ν) (s₀ : GraphqlBatchStream ι ν) (halt : GraphqlHalt)
    (s : GraphqlBatchStream ι ν) : Prop :=
  Based config [] s ∧ Steady s₀ s ∧ (halt = .unfinished → Live config s)

variable {config : GraphqlScanConfig ι ν} {held : List Nat} {s₀ s : GraphqlBatchStream ι ν}

theorem Based.threw {error : GraphqlError} (h : Based config held s) (hsteady : Steady s₀ s) :
    Threw config held s₀ (.threw error) s :=
  ⟨h, hsteady, fun hunfinished => (nomatch hunfinished)⟩

theorem Threw.halted {halt : GraphqlHalt} (h : Threw config [] s₀ halt s) :
    Halted config s₀ halt s :=
  ⟨h.based, h.steady, fun hunfinished => absurd hunfinished h.finished⟩

-- ---------------------------------------------------------------------------
-- The small statements
-- ---------------------------------------------------------------------------

section Statements

variable {α : Type} {Q : Unit → GraphqlBatchStream ι ν → Prop}
  {E : GraphqlHalt → GraphqlBatchStream ι ν → Prop}

@[simp] theorem yields_graphqlFail {error : GraphqlError} {Q : α → GraphqlBatchStream ι ν → Prop} :
    Yields (GraphqlPull.fail error : GraphqlPull ι ν α) s Q E ↔ E (.threw error) s := Iff.rfl

@[simp] theorem yields_graphqlFailWhen {bad : Bool} {error : GraphqlError} :
    Yields (GraphqlPull.failWhen bad error) s Q E ↔
      (bad = true → E (.threw error) s) ∧ (bad = false → Q () s) := yields_throwWhen

@[simp] theorem yields_graphqlGuardedBy {raise? : Option LocalRaise} :
    Yields (GraphqlPull.guardedBy raise?) s Q E ↔
      (∀ raise, raise? = some raise → E (.threw (.callee raise)) s) ∧
        (raise? = none → Q () s) := by
  cases raise? <;> simp [GraphqlPull.guardedBy]

/-- The state a charge leaves, whether it throws or not. -/
def GraphqlBatchStream.charged (s : GraphqlBatchStream ι ν) (c : LedgerCall) :
    GraphqlBatchStream ι ν :=
  { s with controller := { s.controller with ledger := (s.controller.ledger.call c).2 } }

theorem yields_graphqlCharge {c : LedgerCall} :
    Yields (GraphqlPull.charge c) s Q E ↔
      ((s.controller.ledger.call c).1 = none → Q () (s.charged c)) ∧
      ∀ error, (s.controller.ledger.call c).1 = some error →
        E (.threw (.ledger error)) (s.charged c) := by
  unfold GraphqlPull.charge
  simp only [yields_bind, yields_get]
  cases hcall : s.controller.ledger.call c with
  | mk error ledger =>
    cases error with
    | none => simp [GraphqlBatchStream.charged, hcall]
    | some error => simp [GraphqlBatchStream.charged, hcall]

theorem yields_onCursor {call : GraphqlCursorState → GraphqlCursorState.Outcome} :
    Yields (GraphqlPull.onCursor call) s Q E ↔
      ((call s.cursor).1 = none → Q () { s with cursor := (call s.cursor).2 }) ∧
      ∀ error, (call s.cursor).1 = some error →
        E (.threw (.cursor error)) { s with cursor := (call s.cursor).2 } := by
  unfold GraphqlPull.onCursor
  simp only [yields_bind, yields_get]
  cases hcall : call s.cursor with
  | mk error cursor =>
    cases error with
    | none => simp
    | some error => simp

@[simp] theorem yields_subtract {budget amount : UInt64}
    {Q : UInt64 → GraphqlBatchStream ι ν → Prop} :
    Yields (GraphqlPull.subtract budget amount) s Q E ↔
      Q (budget - amount) { s with subtractions := s.subtractions ++ [(budget, amount)] } :=
  Iff.rfl

theorem yields_reserve {refused : Option LocalRaise} {Q : Nat → GraphqlBatchStream ι ν → Prop} :
    Yields (GraphqlPull.reserve refused) s Q E ↔
      (∀ raise, refused = some raise → E (.threw (.callee raise)) s) ∧
        (refused = none → Q s.register.issued { s with register := s.register.issue }) := by
  simp [GraphqlPull.reserve]

theorem yields_holding {permit : Nat} {rest : GraphqlPull ι ν α}
    {Q : α → GraphqlBatchStream ι ν → Prop} :
    Yields (GraphqlPull.holding permit rest) s Q E ↔
      Yields rest s Q fun halt s => E halt (s.giveBack permit) := by
  unfold Yields GraphqlPull.holding
  cases rest s with
  | mk result s' => cases result <;> rfl

end Statements

-- ---------------------------------------------------------------------------
-- Permits
-- ---------------------------------------------------------------------------

theorem Based.charge {c : LedgerCall} (h : Based config held s) : Based config held (s.charged c) :=
  { h with sound := ((call_effect h.sound c).sound h.sound).1 }

theorem Based.subtract {budget amount : UInt64} (h : Based config held s) (hle : amount ≤ budget) :
    Based config held { s with subtractions := s.subtractions ++ [(budget, amount)] } := by
  refine { h with subtracted := fun pair hpair => ?_ }
  rcases List.mem_append.mp hpair with hold | hnew
  · exact h.subtracted pair hold
  · rw [List.mem_singleton.mp hnew]
    exact hle

/-- A permit is issued to a local. -/
theorem Based.issue (h : Based config held s) :
    Based config (s.register.issued :: held) { s with register := s.register.issue } := by
  refine { h with books := ?_ }
  exact h.books.issue.perm List.perm_middle.symm

theorem Based.giveBack {permit : Nat} (h : Based config (permit :: held) s) :
    Based config held (s.giveBack permit) :=
  { h with books := (h.books.perm List.perm_middle).release_head }

theorem Threw.giveBack {permit : Nat} {halt : GraphqlHalt}
    (h : Threw config (permit :: held) s₀ halt s) :
    Threw config held s₀ halt (s.giveBack permit) :=
  ⟨h.based.giveBack, h.steady.release (some permit), h.finished⟩

/-- What a body throws while a local holds a permit is thrown with the permit given back. -/
theorem holding_yields {α : Type} {permit : Nat} {rest : GraphqlPull ι ν α}
    {Q : α → GraphqlBatchStream ι ν → Prop}
    (h : Yields rest s Q (Threw config (permit :: held) s₀)) :
    Yields (GraphqlPull.holding permit rest) s Q (Threw config held s₀) :=
  yields_holding.mpr (h.mono (fun _ _ hdone => hdone) fun _ _ hthrew => hthrew.giveBack)

theorem Based.releaseAuthorization (h : Based config held s) :
    Based config held s.releaseAuthorization :=
  { h with books := h.books.release [] _ }

theorem Based.releaseScanPermit (h : Based config held s) : Based config held s.releaseScanPermit :=
  { h with books := h.books.release [s.authorization] _ }

theorem Based.releasePageBytes (h : Based config held s) : Based config held s.releasePageBytes :=
  { h with books := h.books.release [s.authorization, s.scanPermit] _ }

theorem Based.releasePageRows (h : Based config held s) : Based config held s.releasePageRows :=
  { h with books := h.books.release [s.authorization, s.scanPermit, s.pageBytesReservation] _ }

theorem Based.releaseHandoffBytes (h : Based config held s) :
    Based config held s.releaseHandoffBytes :=
  { h with
    books := h.books.release
      [s.authorization, s.scanPermit, s.pageBytesReservation, s.pageRowsReservation] _ }

theorem Based.releaseHandoffRows (h : Based config held s) :
    Based config held s.releaseHandoffRows :=
  { h with
    books := h.books.release
      [s.authorization, s.scanPermit, s.pageBytesReservation, s.pageRowsReservation,
        s.handoffBytesReservation] _ }

/-- A local's permit moves into the page. -/
theorem Based.placePageBytes {permit : Nat} (h : Based config (permit :: held) s) :
    Based config held { s.releasePageBytes with pageBytesReservation := some permit } := by
  have hbooks := h.releasePageBytes.books.perm List.perm_middle
  exact { h with books := hbooks.place [s.authorization, s.scanPermit] _ }

theorem Based.placePageRows {permit : Nat} (h : Based config (permit :: held) s) :
    Based config held { s.releasePageRows with pageRowsReservation := some permit } := by
  have hbooks := h.releasePageRows.books.perm List.perm_middle
  exact
    { h with books := hbooks.place [s.authorization, s.scanPermit, s.pageBytesReservation] _ }

/-- The permits of a batch move from their locals into the stream. -/
theorem Based.placeHandoff {bytesPermit rowsPermit : Nat}
    (h : Based config (rowsPermit :: bytesPermit :: held) s) :
    Based config held { s.releaseHandoffBytes.releaseHandoffRows with
      handoffBytesReservation := some bytesPermit
      handoffRowsReservation := some rowsPermit } := by
  have hrows := h.releaseHandoffBytes.releaseHandoffRows.books.perm List.perm_middle
  have hplaced := hrows.place
    [s.authorization, s.scanPermit, s.pageBytesReservation, s.pageRowsReservation, none] _
  have hbytes := hplaced.perm (@List.perm_middle _ (some bytesPermit)
    [s.authorization, s.scanPermit, s.pageBytesReservation, s.pageRowsReservation, none,
      some rowsPermit] (held.map some))
  have hbooks := hbytes.place
    [s.authorization, s.scanPermit, s.pageBytesReservation, s.pageRowsReservation] _
  exact { h with books := hbooks }

-- ---------------------------------------------------------------------------
-- The cursor
-- ---------------------------------------------------------------------------

theorem CursorAt.currentCursor {pages : List (CursorPage ν)} {c : GraphqlCursorState}
    (h : CursorAt pages c) : c.currentCursor = endCursorOf pages := by
  unfold GraphqlCursorState.currentCursor endCursorOf
  rw [h.running, h.usable, h.seen, List.getLast?_map]
  rfl

theorem CursorAt.markRequestStarted {pages : List (CursorPage ν)} {c : GraphqlCursorState}
    (h : CursorAt pages c) (hok : c.markRequestStarted.1 = none) :
    CursorAt pages c.markRequestStarted.2 := by
  unfold GraphqlCursorState.markRequestStarted at hok ⊢
  split at hok
  · cases hok
  · rw [if_neg ‹_›]
    exact ⟨h.running, h.usable, h.seen⟩

/-- A cursor that has moved on to another page stands behind the new one too. -/
theorem CursorAt.advance {pages : List (CursorPage ν)} {c : GraphqlCursorState}
    {page : DecodedGraphqlPage ν} (h : CursorAt pages c)
    (hok : (c.advance page.hasNext page.endCursor).1 = none) (hnext : page.hasNext = true) :
    CursorAt (pages ++ [⟨page.rows, page.hasNext, page.endCursor⟩])
      (c.advance page.hasNext page.endCursor).2 := by
  unfold GraphqlCursorState.advance at hok ⊢
  split at hok
  · cases hok
  rw [if_neg ‹_›]
  rw [hnext] at hok ⊢
  rw [if_neg (by decide)] at hok ⊢
  split at hok
  · cases hok
  rw [if_neg ‹_›]
  split at hok
  · cases hok
  rw [if_neg ‹_›]
  split at hok
  · cases hok
  rw [if_neg ‹_›]
  split at hok
  · cases hok
  rw [if_neg ‹_›]
  refine ⟨h.running, h.usable, ?_⟩
  show c.seen ++ [page.endCursor] = _
  rw [h.seen, List.map_append, List.map_singleton]

-- ---------------------------------------------------------------------------
-- Fetching a page
-- ---------------------------------------------------------------------------

theorem requestFactory_body {cursor : Option Bytes} {allowance : UInt64}
    {request : Resilience.HttpRequest Authentication.HttpRequest}
    (h : config.requestFactory cursor allowance = .ok request) :
    request.content.body =
      graphqlBody config.profile.toAdmittedGraphqlRequestProfile cursor := by
  unfold GraphqlScanConfig.requestFactory at h
  cases hbuild : config.buildRequest cursor allowance with
  | error error =>
    rw [hbuild] at h
    cases h
  | ok built =>
    rw [hbuild] at h
    rw [← Except.ok.inj h]
    unfold GraphqlScanConfig.buildRequest at hbuild
    obtain ⟨plain, hplain, hauthorized⟩ := bind_eq_ok.mp hbuild
    have hbody : plain.body =
        graphqlBody config.profile.toAdmittedGraphqlRequestProfile cursor := by
      obtain ⟨-, -, -, rfl⟩ := buildAdmittedGraphqlRequest_eq_ok.mp hplain
      rfl
    split at hauthorized
    · -- the credential is a header
      rw [Bearer.authorizeGraphql, bind_eq_ok] at hauthorized
      obtain ⟨-, -, happended⟩ := hauthorized
      rw [(appendBearer_eq_ok.mp happended).2.2]
      exact hbody
    · rw [← Except.ok.inj hauthorized]
      exact hbody

/-- The step of a page has been answered by this attempt. -/
structure Fetched (config : GraphqlScanConfig ι ν) (held : List Nat)
    (returned : RetriedHttpResponse) (a : Asked ι) (s : GraphqlBatchStream ι ν) : Prop
    extends Ready config held s where
  asked : ∃ earlier, s.trace = earlier ++ [.requested a]
  isAnswered : a.answered = true
  answered : ∃ response linkBytes, a.attempt.transfer = .response response ∧
    returned.response = discardRateLimitMetadata linkBytes response

theorem settled_nil : Settled ([] : List (Event (Asked ι) (CursorPage ν) ν)) :=
  fun _ h => (nomatch h)

theorem settled_concat {trace : List (Event (Asked ι) (CursorPage ν) ν)}
    {event : Event (Asked ι) (CursorPage ν) ν} :
    Settled (trace ++ [event]) ↔ ∀ a, event = .requested a → a.answered = false := by
  simp [Settled]

/-- One more event, on a log whose last response has its page. -/
theorem heeded_concat {trace : List (Event (Asked ι) (CursorPage ν) ν)}
    {event : Event (Asked ι) (CursorPage ν) ν} (h : trace.IsChain Heeded)
    (hevent : ∀ a, trace.getLast? = some (.requested a) → a.answered = true →
      ∃ page, event = .accepted page) :
    (trace ++ [event]).IsChain Heeded := by
  refine List.isChain_append.mpr ⟨h, List.isChain_singleton _, ?_⟩
  intro last hlast next hnext a ha hanswered
  have hnext : next = event := by simpa using hnext.symm
  rw [hnext]
  exact hevent a (by rw [← ha]; exact hlast) hanswered

theorem Settled.heeded {trace : List (Event (Asked ι) (CursorPage ν) ν)}
    {event : Event (Asked ι) (CursorPage ν) ν} (h : Settled trace) (hchain : trace.IsChain Heeded) :
    (trace ++ [event]).IsChain Heeded := by
  refine heeded_concat hchain fun a hlast hanswered => ?_
  rw [h _ hlast a rfl] at hanswered
  cases hanswered

/-- Unanswered requests leave the log settled. -/
theorem Settled.requests {trace : List (Event (Asked ι) (CursorPage ν) ν)}
    (attempts : List (Attempt ι Authentication.HttpRequest)) (h : Settled trace)
    (hchain : trace.IsChain Heeded) :
    Settled (trace ++ (asked attempts false).map .requested) ∧
      (trace ++ (asked attempts false).map Event.requested).IsChain Heeded := by
  unfold asked
  induction attempts using List.reverseRecOn with
  | nil => simpa using ⟨h, hchain⟩
  | append_singleton attempts a ih =>
    rw [List.map_append, List.map_append, ← List.append_assoc]
    refine ⟨settled_concat.mpr fun other hother => ?_, ih.1.heeded ih.2⟩
    rw [← Event.requested.inj hother]

theorem mem_asked {attempts : List (Attempt ι Authentication.HttpRequest)} {answered : Bool}
    {a : Asked ι} (h : a ∈ asked attempts answered) : a.attempt ∈ attempts := by
  cases answered with
  | false =>
    obtain ⟨attempt, hattempt, rfl⟩ := List.mem_map.mp h
    exact hattempt
  | true =>
    rcases List.mem_append.mp h with hearlier | hlast
    · obtain ⟨attempt, hattempt, rfl⟩ := List.mem_map.mp hearlier
      exact List.dropLast_subset _ hattempt
    · obtain ⟨attempt, hattempt, rfl⟩ := List.mem_map.mp hlast
      exact List.mem_of_getLast? (Option.mem_toList.mp hattempt)

/-- The requests of a step, each with the cursor of the page it asks for. -/
theorem Ready.requestAll {requests : List (Asked ι)}
    {controller : Controller ι Authentication.HttpRequest}
    (h : Ready config held s) (hsound : Sound controller.ledger)
    (hasked : ∀ a ∈ requests, a.attempt.request.body =
      graphqlBody config.profile.toAdmittedGraphqlRequestProfile s.cursor.currentCursor)
    (hchain : (s.trace ++ requests.map Event.requested).IsChain Heeded) :
    let s' := { s with controller := controller, trace := s.trace ++ requests.map .requested }
    Ready config held s' ∧ Steady s s' := by
  obtain ⟨horderly, haccepted, hdelivered⟩ :=
    h.orderly.requestAll requests
      (fun a ha => ⟨h.promised, by rw [hasked a ha, h.position.currentCursor]⟩) h.handed
  refine ⟨⟨⟨hsound, horderly, hchain, h.books, h.subtracted, h.limits⟩, h.unloaded, ?_, ?_, ?_⟩,
    ⟨rfl, rfl, rfl, rfl, hdelivered, rfl, rfl, fun _ hpermit => hpermit⟩⟩
  · rw [haccepted]
    exact h.promised
  · rw [handedOn, Rules.given, haccepted, hdelivered]
    exact h.handed
  · rw [haccepted]
    exact h.position

theorem executePageStep_yields {env : GraphqlPullEnv} (h : Idle config s) :
    Yields (executePageStep config env s.cursor.currentCursor) s
      (fun returned s' => Steady s s' ∧ ∃ a, Fetched config [] returned a s')
      (Halted config s) := by
  obtain ⟨⟨settled, pending, htracked⟩, hanswered, -⟩ :=
    executeHttpStepWithRetry_ended (config.stepConfig s.cursor.currentCursor) env.beginAt
      env.turns h.sound
  unfold Yields executePageStep
  cases hrun : executeHttpStepWithRetry (config.stepConfig s.cursor.currentCursor) env.beginAt
    env.turns s.controller with
  | mk result controller =>
    rw [hrun] at htracked hanswered
    have hsound := (htracked.sound h.sound).1
    have hasked (answered : Bool) : ∀ a ∈ asked (attemptsOf controller.log) answered,
        a.attempt.request.body = graphqlBody config.profile.toAdmittedGraphqlRequestProfile
          s.cursor.currentCursor := by
      intro a ha
      obtain ⟨limit, request, hrequest, hcontent⟩ := htracked.requested a.attempt (mem_asked ha)
      rw [hcontent]
      exact requestFactory_body hrequest
    cases result with
    | ok returned =>
      obtain ⟨earlier, a, response, linkBytes, hattempts, htransfer, hreturned⟩ :=
        hanswered returned rfl
      have hattempts : attemptsOf controller.log = earlier ++ [a] := hattempts
      have hsplit : (asked (attemptsOf controller.log) true).map
            (Event.requested (π := CursorPage ν) (ν := ν)) =
          (asked earlier false).map .requested ++ [.requested ⟨a, true⟩] := by
        simp [asked, hattempts]
      obtain ⟨hsettled, hchain⟩ := h.settled.requests earlier h.heeded
      obtain ⟨hready, hsteady⟩ := h.toReady.requestAll hsound (hasked true) (by
        rw [hsplit, ← List.append_assoc]
        exact hsettled.heeded hchain)
      refine ⟨hsteady, ⟨a, true⟩, hready, ⟨s.trace ++ (asked earlier false).map .requested, ?_⟩,
        rfl, ⟨response, linkBytes, htransfer, hreturned⟩⟩
      show s.trace ++ (asked (attemptsOf controller.log) true).map .requested = _
      rw [hsplit, List.append_assoc]
    | error halt =>
      obtain ⟨hsettled, hchain⟩ := h.settled.requests (attemptsOf controller.log) h.heeded
      obtain ⟨hready, hsteady⟩ := h.toReady.requestAll hsound (hasked false) hchain
      cases halt with
      | threw error => exact (hready.toBased.threw hsteady).halted
      | unfinished => exact ⟨hready.toBased, hsteady, fun _ => Or.inl ⟨hready, hsettled⟩⟩

section Response

variable {returned : RetriedHttpResponse} {a : Asked ι}

theorem Fetched.subtract {budget amount : UInt64} (h : Fetched config held returned a s)
    (hle : amount ≤ budget) : Fetched config held returned a
      { s with subtractions := s.subtractions ++ [(budget, amount)] } :=
  { h with subtracted := (h.toBased.subtract hle).subtracted }

theorem checkMetadata_yields {response : Resilience.HttpResponse} (h : Based config held s)
    (hsteady : Steady s₀ s) :
    Yields (checkMetadata response) s (fun _ s' => s' = s) (Threw config held s₀) := by
  simp only [checkMetadata, yields_graphqlFailWhen]
  exact ⟨fun _ => h.threw hsteady, fun _ => trivial⟩

theorem checkStatus_yields {response : Resilience.HttpResponse} (h : Based config held s)
    (hsteady : Steady s₀ s) :
    Yields (checkStatus response) s (fun _ s' => s' = s ∧ response.status = 200)
      (Threw config held s₀) := by
  simp only [checkStatus, yields_bind, yields_graphqlFailWhen, bne_eq_false_iff_eq]
  exact ⟨fun _ => h.threw hsteady, fun _ => ⟨fun _ => h.threw hsteady, fun _ =>
    ⟨fun _ => h.threw hsteady, fun hstatus => ⟨trivial, hstatus⟩⟩⟩⟩

/-- What is left after a smaller amount is not zero. -/
theorem sub_pos_of_lt {budget amount : UInt64} (h : amount < budget) : 0 < budget - amount := by
  rw [UInt64.lt_iff_toNat_lt] at h ⊢
  rw [UInt64.toNat_sub_of_le _ _ (UInt64.le_iff_toNat_le.mpr h.le)]
  show 0 < _
  omega

/-- The decoder is never called with nothing left. -/
theorem decodeMemory_yields {allowance retained : UInt64} (h : Fetched config held returned a s)
    (hsteady : Steady s₀ s) :
    Yields (decodeMemory config allowance retained) s
      (fun memory s' => Fetched config held returned a s' ∧ Steady s₀ s' ∧ 0 < memory)
      (Threw config held s₀) := by
  simp only [decodeMemory, yields_bind, yields_get, yields_graphqlFailWhen, yields_subtract,
    decide_eq_true_eq, decide_eq_false_iff_not, gt_iff_lt, ge_iff_le, UInt64.not_lt,
    UInt64.not_le]
  refine ⟨fun _ => h.toBased.threw hsteady, fun hretained => ?_⟩
  have hfirst := h.subtract hretained
  refine ⟨fun _ => hfirst.toBased.threw { hsteady with }, fun hfree => ?_⟩
  exact ⟨(hfirst.subtract hretained).subtract (UInt64.le_of_lt hfree), { hsteady with }, sub_pos_of_lt hfree⟩

theorem reservePageBytes_yields {env : GraphqlPullEnv} (h : Fetched config [] returned a s)
    (hsteady : Steady s₀ s) :
    Yields (reservePageBytes env) s
      (fun _ s' => Fetched config [] returned a s' ∧ Steady s₀ s') (Threw config [] s₀) := by
  unfold reservePageBytes
  rw [yields_bind, yields_get]
  split
  · rw [yields_graphqlGuardedBy]
    exact ⟨fun _ _ => h.toBased.threw hsteady, fun _ => ⟨h, hsteady⟩⟩
  · rw [yields_bind, yields_reserve]
    refine ⟨fun _ _ => h.toBased.threw hsteady, fun _ => ?_⟩
    rw [yields_modify]
    have hissued : Steady s₀ { s with register := s.register.issue } := { hsteady with }
    exact ⟨{ h with books := h.toBased.issue.placePageBytes.books },
      { hissued.release s.pageBytesReservation with }⟩

theorem decodePage_yields {env : GraphqlPullEnv} {body : Bytes} {limits : GraphqlDecodeLimits}
    (h : Fetched config held returned a s) (hsteady : Steady s₀ s)
    (hlimit : 0 < limits.maxDecodedMemoryBytes) :
    Yields (decodePage config env body limits) s
      (fun page s' => Fetched config held returned a s' ∧ Steady s₀ s' ∧
        config.decodeGraphqlResponse body limits = .ok page) (Threw config held s₀) := by
  unfold decodePage
  rw [yields_bind, yields_modify, yields_bind, yields_graphqlGuardedBy]
  have hnoted : Fetched config held returned a
      { s with decodeLimits := s.decodeLimits ++ [limits.maxDecodedMemoryBytes] } := by
    refine { h with limits := fun limit hmem => ?_ }
    rcases List.mem_append.mp hmem with hold | hnew
    · exact h.limits limit hold
    · rw [List.mem_singleton.mp hnew]
      exact hlimit
  refine ⟨fun _ _ => hnoted.toBased.threw { hsteady with }, fun _ => ?_⟩
  cases hdecoded : config.decodeGraphqlResponse body limits with
  | error raise => exact hnoted.toBased.threw { hsteady with }
  | ok page => exact ⟨hnoted, { hsteady with }, rfl⟩

/-- The cursor has moved on from a response whose page is still to be installed. -/
structure Advanced (config : GraphqlScanConfig ι ν) (held : List Nat) (a : Asked ι)
    (page : DecodedGraphqlPage ν) (s : GraphqlBatchStream ι ν) : Prop
    extends Based config held s where
  promised : ∀ page ∈ acceptedOf s.trace, page.hasNext = true
  handed : handedOn s.trace = (cursorRules config).given s.trace
  asked : ∃ earlier, s.trace = earlier ++ [.requested a]
  accepts : Accepts config a ⟨page.rows, page.hasNext, page.endCursor⟩
  announced : s.pageHasNext = page.hasNext
  position : page.hasNext = true →
    CursorAt (acceptedOf s.trace ++ [⟨page.rows, page.hasNext, page.endCursor⟩]) s.cursor

theorem Fetched.advance {page : DecodedGraphqlPage ν} {limits : GraphqlDecodeLimits}
    (h : Fetched config held returned a s) (hstatus : returned.response.status = 200)
    (hdecoded : config.decodeGraphqlResponse returned.response.body limits = .ok page)
    (hok : (s.cursor.advance page.hasNext page.endCursor).1 = none) :
    Advanced config held a page { s with
      pageHasNext := page.hasNext
      cursor := (s.cursor.advance page.hasNext page.endCursor).2 } := by
  obtain ⟨response, linkBytes, htransfer, hreturned⟩ := h.answered
  rw [hreturned] at hstatus hdecoded
  exact ⟨{ h.toBased with }, h.promised, h.handed, h.asked,
    ⟨h.isAnswered, response, limits, page, htransfer, hstatus, hdecoded, rfl⟩, rfl,
    fun hnext => h.position.advance hok hnext⟩

/-- The page is installed behind its request. -/
theorem Advanced.install {permit : Nat} {page : DecodedGraphqlPage ν}
    {retainedMemory allowance : UInt64} (h : Advanced config (permit :: held) a page s) :
    Loaded config held
      { s.releasePageRows with
        decodedMemoryBytes := retainedMemory
        decodedMemoryAllowance := allowance
        decoded := page.rows
        pageRowsReservation := some permit
        offset := 0
        pageLoaded := true
        trace := s.trace ++ [.accepted ⟨page.rows, page.hasNext, page.endCursor⟩] } := by
  obtain ⟨earlier, htrace⟩ := h.asked
  have haccepted : acceptedOf (s.trace ++ [.accepted ⟨page.rows, page.hasNext, page.endCursor⟩]) =
      acceptedOf s.trace ++ [⟨page.rows, page.hasNext, page.endCursor⟩] := acceptedOf_concat _ _
  refine ⟨{ h.toBased.placePageRows with
      orderly := h.orderly.accept ⟨earlier, a, htrace, h.accepts⟩
      heeded := heeded_concat h.heeded fun _ _ _ => ⟨_, rfl⟩ }, rfl,
    ⟨acceptedOf s.trace, _, haccepted, h.promised, h.announced.symm⟩, ?_, ?_,
    settled_concat.mpr fun _ hrequest => (nomatch hrequest)⟩
  · simp only [handedOn, Rules.given, deliveredOf_concat, acceptedOf_concat, Event.batch?,
      Event.page?, Option.toList_none, Option.toList_some, List.append_nil, List.flatMap_append,
      List.flatMap_singleton, List.drop_zero]
    exact congrArg (· ++ page.rows) h.handed
  · intro hnext
    rw [haccepted]
    exact h.position (h.announced.symm.trans hnext)

theorem installPage_yields {permit : Nat} {page : DecodedGraphqlPage ν}
    {limits : GraphqlDecodeLimits} {allowance retained : UInt64}
    (h : Fetched config (permit :: held) returned a s) (hsteady : Steady s₀ s)
    (hstatus : returned.response.status = 200)
    (hdecoded : config.decodeGraphqlResponse returned.response.body limits = .ok page) :
    Yields (installPage config allowance retained permit page) s
      (fun _ s' => Loaded config held s' ∧ Steady s₀ s') (Threw config (permit :: held) s₀) := by
  unfold installPage
  rw [yields_bind, yields_modify, yields_bind, yields_onCursor]
  refine ⟨fun hok => ?_, fun _ _ => Based.threw { h.toBased with } { hsteady with }⟩
  have hadvanced := h.advance hstatus hdecoded hok
  generalize hmoved : ({ s with
    pageHasNext := page.hasNext
    cursor := (s.cursor.advance page.hasNext page.endCursor).2 } : GraphqlBatchStream ι ν) = s₁
    at hadvanced ⊢
  have hsteady₁ : Steady s₀ s₁ := by
    rw [← hmoved]
    exact { hsteady with }
  rw [yields_bind, yields_get]
  simp only [yields_bind, yields_graphqlFailWhen, yields_subtract, yields_graphqlCharge,
    yields_modify, decide_eq_true_eq, decide_eq_false_iff_not, gt_iff_lt, UInt64.not_lt]
  refine ⟨fun _ => hadvanced.toBased.threw hsteady₁, fun hweight => ?_⟩
  have hsubtracted : Advanced config (permit :: held) a page
      { s₁ with subtractions := s₁.subtractions ++ [(allowance, page.retainedMemoryBytes)] } :=
    { hadvanced with subtracted := (hadvanced.toBased.subtract hweight).subtracted }
  refine ⟨fun _ => hsubtracted.toBased.threw { hsteady₁ with }, fun _ => ⟨fun _ => ?_,
    fun _ _ => hsubtracted.toBased.charge.threw { hsteady₁ with }⟩⟩
  refine ⟨Advanced.install { hsubtracted with sound := hsubtracted.toBased.charge.sound }, ?_⟩
  refine { hsteady₁.release s₁.pageRowsReservation with delivered := ?_ }
  show deliveredOf (s₁.trace ++ [_]) = _
  rw [deliveredOf_concat]
  exact (List.append_nil _).trans hsteady₁.delivered

end Response

theorem Idle.start (h : Idle config s) (hok : s.cursor.markRequestStarted.1 = none) :
    Idle config { s with cursor := s.cursor.markRequestStarted.2 } :=
  { h with position := h.position.markRequestStarted hok }

/-- Starting a request does not move the cursor. -/
theorem CursorAt.current_started {pages : List (CursorPage ν)} {c : GraphqlCursorState}
    (h : CursorAt pages c) (hok : c.markRequestStarted.1 = none) :
    c.currentCursor = c.markRequestStarted.2.currentCursor := by
  rw [h.currentCursor, (h.markRequestStarted hok).currentCursor]

theorem fetchPage_yields {env : GraphqlPullEnv} (h : Idle config s) :
    Yields (fetchPage config env) s (fun _ s' => Loaded config [] s' ∧ Steady s s')
      (Halted config s) := by
  unfold fetchPage
  rw [yields_bind, yields_get, yields_bind, yields_onCursor]
  refine ⟨fun hok => ?_, fun _ _ =>
    ⟨{ h.toBased with }, { Steady.refl s with }, fun hunfinished => (nomatch hunfinished)⟩⟩
  rw [h.position.current_started hok]
  refine ((executePageStep_yields (h.start hok)).mono (fun _ _ hdone => hdone)
    fun _ _ hhalted => ⟨hhalted.1, { hhalted.2.1 with }, hhalted.2.2⟩).bind ?_
  rintro returned s₁ ⟨hstarted, a, hfetched⟩
  have hsteady : Steady s s₁ := { hstarted with }
  have hthrew {error : GraphqlError} : Halted config s (.threw error) s₁ :=
    (hfetched.toBased.threw hsteady).halted
  simp only [yields_bind, yields_graphqlGuardedBy]
  refine ⟨fun _ _ => hthrew, fun _ => ⟨fun _ _ => hthrew, fun _ => ?_⟩⟩
  refine (checkMetadata_yields hfetched.toBased hsteady).mono ?_ fun _ _ he => he.halted
  rintro _ s₂ rfl
  refine (checkStatus_yields hfetched.toBased hsteady).mono ?_ fun _ _ he => he.halted
  rintro _ s₃ ⟨rfl, hstatus⟩
  refine (decodeMemory_yields hfetched hsteady).mono ?_ fun _ _ he => he.halted
  rintro memory s₄ ⟨hfetched₄, hsteady₄, hmemory⟩
  refine (reservePageBytes_yields hfetched₄ hsteady₄).mono ?_ fun _ _ he => he.halted
  rintro _ s₅ ⟨hfetched₅, hsteady₅⟩
  rw [yields_reserve]
  refine ⟨fun _ _ => (hfetched₅.toBased.threw hsteady₅).halted, fun _ => ?_⟩
  have hissued : Fetched config [s₅.register.issued] returned a
      { s₅ with register := s₅.register.issue } :=
    { hfetched₅ with books := hfetched₅.toBased.issue.books }
  refine (holding_yields ?_).mono (fun _ _ hdone => hdone) fun _ _ he => he.halted
  refine (decodePage_yields hissued { hsteady₅ with } hmemory).bind ?_
  rintro page s₆ ⟨hfetched₆, hsteady₆, hdecoded⟩
  rw [yields_bind, yields_graphqlGuardedBy]
  refine ⟨fun _ _ => hfetched₆.toBased.threw hsteady₆, fun _ => ?_⟩
  exact installPage_yields hfetched₆ hsteady₆ hstatus hdecoded

-- ---------------------------------------------------------------------------
-- A pull
-- ---------------------------------------------------------------------------

theorem Live.toBased (h : Live config s) : Based config [] s := by
  rcases h with h | h
  · exact h.toBased
  · exact h.toBased

theorem checkState_yields {env : GraphqlPullEnv} (h : Live config s) (hsteady : Steady s₀ s) :
    Yields (checkState env) s (fun _ s' => s' = s) (Halted config s₀) := by
  have hthrew {error : GraphqlError} : Halted config s₀ (.threw error) s :=
    (h.toBased.threw hsteady).halted
  simp only [checkState, yields_bind, yields_get, yields_graphqlFailWhen]
  exact ⟨fun _ => hthrew, fun _ => ⟨fun _ => hthrew, fun _ => trivial⟩⟩

/-- A batch is handed out of the page at hand. -/
structure Handed (config : GraphqlScanConfig ι ν) (s₀ : GraphqlBatchStream ι ν) (batch : List ν)
    (s : GraphqlBatchStream ι ν) : Prop where
  loaded : Loaded config [] s
  cancelled : s.cancelled = s₀.cancelled
  closed : s.closed = s₀.closed
  terminalException : s.terminalException = s₀.terminalException
  exhausted : s.exhausted = s₀.exhausted
  delivered : deliveredOf s.trace = deliveredOf s₀.trace ++ [batch]
  released : ∀ permit ∈ s₀.register.released, permit ∈ s.register.released

theorem typedBatchHandoffMemoryBytes_yields {rowCapacity columnCapacity : Nat}
    (h : Based config held s) (hsteady : Steady s₀ s) :
    Yields (typedBatchHandoffMemoryBytes config rowCapacity columnCapacity) s
      (fun _ s' => s' = s) (Threw config held s₀) := by
  simp only [typedBatchHandoffMemoryBytes, yields_bind, yields_graphqlFailWhen, yields_pure]
  exact ⟨fun _ => h.threw hsteady, fun _ => ⟨fun _ => h.threw hsteady, fun _ => trivial⟩⟩

theorem requireTypedBatchHandoffMemory_yields {rowCapacity columnCapacity : Nat}
    (h : Loaded config held s) (hsteady : Steady s₀ s) :
    Yields (requireTypedBatchHandoffMemory config rowCapacity columnCapacity) s
      (fun _ s' => Loaded config held s' ∧ Steady s₀ s' ∧ s'.decoded = s.decoded ∧
        s'.offset = s.offset) (Threw config held s₀) := by
  unfold requireTypedBatchHandoffMemory
  refine (typedBatchHandoffMemoryBytes_yields h.toBased hsteady).bind ?_
  rintro bytes s' rfl
  simp only [yields_bind, yields_get, yields_graphqlFailWhen, yields_subtract,
    decide_eq_true_eq, decide_eq_false_iff_not, gt_iff_lt, UInt64.not_lt]
  refine ⟨fun _ => h.toBased.threw hsteady, fun hretained => ?_⟩
  have hsubtracted := h.toBased.subtract hretained
  refine ⟨fun _ => hsubtracted.threw { hsteady with }, fun _ => ?_⟩
  exact ⟨{ h with subtracted := hsubtracted.subtracted }, { hsteady with }, trivial, trivial⟩

/-- What is taken off the page is a batch, and leaves the rest. -/
theorem Loaded.deliver {count : Nat} {bytesPermit rowsPermit : Nat}
    (h : Loaded config [rowsPermit, bytesPermit] s) (hsteady : Steady s₀ s)
    (hcount : count = min (s.decoded.length - s.offset) config.batchRows.toNat)
    (hpositive : count ≠ 0) :
    Handed config s₀ ((s.decoded.drop s.offset).take count)
      { s.releaseHandoffBytes.releaseHandoffRows with
        offset := s.offset + count
        rowsEmitted := s.rowsEmitted + count.toUInt64
        handoffBytesReservation := some bytesPermit
        handoffRowsReservation := some rowsPermit
        trace := s.trace ++ [.delivered ((s.decoded.drop s.offset).take count)] } := by
  have hlength : ((s.decoded.drop s.offset).take count).length = count := by
    rw [List.length_take, List.length_drop]
    omega
  have hbatch : (s.decoded.drop s.offset).take count ≠ [] ∧
      ((s.decoded.drop s.offset).take count).length ≤ (cursorRules config).batchRows := by
    constructor
    · intro hnil
      rw [hnil] at hlength
      exact hpositive hlength.symm
    · rw [hlength]
      show count ≤ config.batchRows.toNat
      omega
  have hrows : handedOn s.trace ++ (s.decoded.drop s.offset).take count ++
      s.decoded.drop (s.offset + count) = (cursorRules config).given s.trace := by
    rw [List.append_assoc, ← List.drop_drop, List.take_append_drop]
    exact h.rest
  have haccepted (batch : List ν) :
      acceptedOf (s.trace ++ [.delivered batch]) = acceptedOf s.trace := by
    rw [acceptedOf_concat]
    exact List.append_nil _
  refine ⟨⟨{ h.toBased.placeHandoff with
      orderly := h.orderly.deliver hbatch hrows
      heeded := h.settled.heeded h.heeded }, h.loaded, ?_, ?_, ?_,
    settled_concat.mpr fun _ hrequest => (nomatch hrequest)⟩, hsteady.cancelled, hsteady.closed,
    hsteady.terminalException, hsteady.exhausted, ?_,
    ((hsteady.release s.handoffBytesReservation).release s.handoffRowsReservation).released⟩
  · obtain ⟨earlier, last, heq, hlast⟩ := h.promised
    exact ⟨earlier, last, (haccepted _).trans heq, hlast⟩
  · simp only [handedOn, Rules.given, deliveredOf_concat, acceptedOf_concat, Event.batch?,
      Event.page?, Option.toList_none, Option.toList_some, List.append_nil, List.flatten_append,
      List.flatten_singleton]
    exact hrows
  · intro hnext
    show CursorAt (acceptedOf (s.trace ++ [_])) s.cursor
    rw [haccepted]
    exact h.position hnext
  · show deliveredOf (s.trace ++ [_]) = _
    rw [deliveredOf_concat, hsteady.delivered]
    rfl

theorem handOver_yields {env : GraphqlPullEnv} {count bytesPermit rowsPermit : Nat}
    {reserved : UInt64} (h : Loaded config [rowsPermit, bytesPermit] s) (hsteady : Steady s₀ s)
    (hcount : count = min (s.decoded.length - s.offset) config.batchRows.toNat)
    (hpositive : count ≠ 0) :
    Yields (handOver config env count reserved bytesPermit rowsPermit) s
      (fun returned s' => ∃ batch, returned = some batch ∧ Handed config s₀ batch s')
      (Threw config [rowsPermit, bytesPermit] s₀) := by
  unfold handOver
  refine (requireTypedBatchHandoffMemory_yields h hsteady).bind ?_
  rintro _ s₁ ⟨hloaded₁, hsteady₁, hdecoded, hoffset⟩
  refine (typedBatchHandoffMemoryBytes_yields hloaded₁.toBased hsteady₁).bind ?_
  rintro _ s₂ rfl
  have hthrew {error : GraphqlError} :
      Threw config [rowsPermit, bytesPermit] s₀ (.threw error) s₂ := hloaded₁.toBased.threw hsteady₁
  simp only [yields_bind, yields_graphqlFailWhen, yields_graphqlGuardedBy, yields_get,
    yields_modify, yields_pure]
  refine ⟨fun _ => hthrew, fun _ => ⟨fun _ _ => hthrew, fun _ => ⟨_, rfl, ?_⟩⟩⟩
  exact hloaded₁.deliver hsteady₁ (by rw [hcount, hdecoded, hoffset]) hpositive

theorem produceBatch_yields {env : GraphqlPullEnv} (h : Loaded config [] s)
    (hsteady : Steady s₀ s) :
    Yields (produceBatch config env) s
      (fun returned s' => ∃ batch, returned = some batch ∧ Handed config s₀ batch s')
      (Threw config [] s₀) := by
  have hthrew {error : GraphqlError} : Threw config [] s₀ (.threw error) s := h.toBased.threw hsteady
  unfold produceBatch
  rw [yields_bind, yields_graphqlGuardedBy]
  refine ⟨fun _ _ => hthrew, fun _ => ?_⟩
  rw [yields_bind, yields_get, yields_bind, yields_graphqlFailWhen]
  refine ⟨fun _ => hthrew, fun hcount => ?_⟩
  have hpositive : min (s.decoded.length - s.offset) config.batchRows.toNat ≠ 0 := by
    simpa using hcount
  refine (requireTypedBatchHandoffMemory_yields h hsteady).bind ?_
  rintro _ s₁ ⟨hloaded₁, hsteady₁, hdecoded, hoffset⟩
  refine (typedBatchHandoffMemoryBytes_yields hloaded₁.toBased hsteady₁).bind ?_
  rintro reserved s₂ rfl
  rw [← hdecoded, ← hoffset] at hpositive
  rw [← hdecoded, ← hoffset]
  -- the two permits are locals until the batch is complete
  rw [yields_bind, yields_reserve]
  refine ⟨fun _ _ => hloaded₁.toBased.threw hsteady₁, fun _ => ?_⟩
  refine holding_yields ?_
  have hbytes : Loaded config [s₂.register.issued]
      { s₂ with register := s₂.register.issue } :=
    { hloaded₁ with books := hloaded₁.toBased.issue.books }
  rw [yields_bind, yields_reserve]
  refine ⟨fun _ _ => hbytes.toBased.threw { hsteady₁ with }, fun _ => ?_⟩
  refine holding_yields ?_
  exact handOver_yields { hbytes with books := hbytes.toBased.issue.books } { hsteady₁ with } rfl
    hpositive

/-- The stream has come to its end, and keeps at most the permits of a batch. -/
structure Ended (config : GraphqlScanConfig ι ν) (s₀ s : GraphqlBatchStream ι ν) : Prop
    extends Based config [] s where
  finished : Finished config s.trace
  exhausted : s.exhausted = true
  cancelled : s.cancelled = s₀.cancelled
  closed : s.closed = s₀.closed
  terminalException : s.terminalException = s₀.terminalException
  delivered : deliveredOf s.trace = deliveredOf s₀.trace
  released : ∀ permit ∈ s₀.register.released, permit ∈ s.register.released
  freed : s.slots =
    [none, none, none, none, s₀.handoffBytesReservation, s₀.handoffRowsReservation]

/-- A used page is given up; the cursors stay reserved while another page is ahead. -/
structure PageFreed (config : GraphqlScanConfig ι ν) (hasNext : Bool)
    (s s' : GraphqlBatchStream ι ν) : Prop extends Based config [] s' where
  steady : Steady s s'
  trace : s'.trace = s.trace
  cursor : hasNext = true → s'.cursor = s.cursor
  pageBytes : hasNext = false → s'.pageBytesReservation = none
  pageRows : s'.pageRowsReservation = none

theorem freePage_yields {env : GraphqlPullEnv} {hasNext : Bool} (h : Based config [] s) :
    Yields (freePage config env hasNext) s (fun _ s' => PageFreed config hasNext s s')
      (Threw config [] s) := by
  unfold freePage
  rw [yields_bind, yields_modify, yields_bind, yields_get]
  have hrows : Based config [] { s with decoded := [] }.releasePageRows :=
    Based.releasePageRows { h with }
  have hsteady := (Steady.refl s).release s.pageRowsReservation
  cases hasNext with
  | true =>
    rw [if_pos rfl]
    split
    · rw [yields_modify]
      exact ⟨hrows.releasePageBytes, { hsteady.release s.pageBytesReservation with }, rfl, fun _ => rfl,
        fun hlast => (nomatch hlast), rfl⟩
    · rw [yields_graphqlGuardedBy]
      exact ⟨fun _ _ => hrows.threw { hsteady with }, fun _ =>
        ⟨hrows, { hsteady with }, rfl, fun _ => rfl, fun hlast => (nomatch hlast), rfl⟩⟩
  | false =>
    rw [if_neg (by decide), yields_modify]
    exact ⟨Based.releasePageBytes { hrows with },
      { hsteady.release s.pageBytesReservation with }, rfl, fun hnext => (nomatch hnext), fun _ => rfl, rfl⟩

/-- With its page used up, a loaded stream has handed on every row. -/
theorem Loaded.used (h : Loaded config [] s)
    (hused : ¬(s.pageLoaded && decide (s.offset < s.decoded.length)) = true) :
    handedOn s.trace = (cursorRules config).given s.trace := by
  have hempty : s.decoded.drop s.offset = [] := by
    rw [h.loaded, Bool.true_and, decide_eq_true_eq, not_lt] at hused
    exact List.drop_eq_nil_of_le hused
  have hrest := h.rest
  rw [hempty, List.append_nil] at hrest
  exact hrest

/-- A used page that promises another one leaves the stream idle. -/
theorem PageFreed.idle {s' : GraphqlBatchStream ι ν} {c : LedgerCall}
    (hfreed : PageFreed config true s s') (h : Loaded config [] s) (hnext : s.pageHasNext = true)
    (hhanded : handedOn s.trace = (cursorRules config).given s.trace) :
    Idle config ({ s' with offset := 0, pageLoaded := false }.charged c) := by
  have hbased : Based config [] ({ s' with offset := 0, pageLoaded := false }.charged c) :=
    Based.charge { hfreed.toBased with }
  refine ⟨⟨hbased, rfl, ?_, ?_, ?_⟩, ?_⟩
  · show ∀ page ∈ acceptedOf s'.trace, page.hasNext = true
    rw [hfreed.trace]
    obtain ⟨earlier, last, haccepted, hearlier, hlast⟩ := h.promised
    intro page hpage
    rw [haccepted] at hpage
    rcases List.mem_append.mp hpage with hold | hnew
    · exact hearlier page hold
    · rw [List.mem_singleton.mp hnew, hlast]
      exact hnext
  · show handedOn s'.trace = (cursorRules config).given s'.trace
    rw [hfreed.trace]
    exact hhanded
  · show CursorAt (acceptedOf s'.trace) s'.cursor
    rw [hfreed.trace, hfreed.cursor rfl]
    exact h.position hnext
  · show Settled s'.trace
    rw [hfreed.trace]
    exact h.settled

/-- A used page that is the last one ends the stream. -/
theorem PageFreed.ended {s' : GraphqlBatchStream ι ν} {c : LedgerCall}
    (hfreed : PageFreed config false s s') (h : Loaded config [] s) (hlast : s.pageHasNext = false)
    (hsteady : Steady s₀ s) (hhanded : handedOn s.trace = (cursorRules config).given s.trace) :
    Ended config s₀ { { s' with offset := 0, pageLoaded := false }.charged c with
      exhausted := true }.releaseAuthorization.releaseScanPermit := by
  have hcharged : Based config [] ({ s' with offset := 0, pageLoaded := false }.charged c) :=
    Based.charge { hfreed.toBased with }
  have hended : Based config [] { { s' with offset := 0, pageLoaded := false }.charged c with
      exhausted := true } := { hcharged with }
  have hall := hsteady.trans hfreed.steady
  refine ⟨hended.releaseAuthorization.releaseScanPermit, ?_, rfl, hall.cancelled, hall.closed,
    hall.terminalException, hall.delivered,
    ((hall.release s'.authorization).release s'.scanPermit).released, ?_⟩
  · show Finished config s'.trace
    rw [hfreed.trace]
    obtain ⟨earlier, last, haccepted, -, hflag⟩ := h.promised
    exact ⟨⟨earlier, last, haccepted, hflag.trans hlast⟩, hhanded⟩
  · show [none, none, s'.pageBytesReservation, s'.pageRowsReservation, s'.handoffBytesReservation,
      s'.handoffRowsReservation] = _
    rw [hfreed.pageBytes rfl, hfreed.pageRows, hall.handoffBytes, hall.handoffRows]

theorem finishPage_yields {env : GraphqlPullEnv} (h : Live config s) (hsteady : Steady s₀ s)
    (hused : ¬(s.pageLoaded && decide (s.offset < s.decoded.length)) = true) :
    Yields (finishPage config env) s
      (fun more s' => (more = true → Idle config s' ∧ Steady s₀ s') ∧
        (more = false → Ended config s₀ s'))
      (Halted config s₀) := by
  unfold finishPage
  rw [yields_bind, yields_get]
  rcases h with h | h
  · rw [if_neg (by rw [h.unloaded]; decide), yields_pure]
    exact ⟨fun _ => ⟨h, hsteady⟩, fun hmore => (nomatch hmore)⟩
  · rw [if_pos h.loaded]
    have hhanded := h.used hused
    refine ((freePage_yields h.toBased).mono (fun _ _ hdone => hdone) fun _ _ hthrew =>
      Threw.halted ⟨hthrew.based, hsteady.trans hthrew.steady, hthrew.finished⟩).bind ?_
    intro _ s₁ hfreed
    have hsteady₁ := hsteady.trans hfreed.steady
    rw [yields_bind, yields_modify, yields_bind, yields_graphqlCharge]
    refine ⟨fun _ => ?_, fun _ _ => ?_⟩
    · cases hnext : s.pageHasNext with
      | true =>
        rw [hnext] at hfreed
        rw [if_pos rfl, yields_pure]
        exact ⟨fun _ => ⟨hfreed.idle h hnext hhanded, { hsteady₁ with }⟩, fun h => (nomatch h)⟩
      | false =>
        rw [hnext] at hfreed
        rw [if_neg (by decide), yields_bind, yields_modify, yields_pure]
        exact ⟨fun h => (nomatch h), fun _ => hfreed.ended h hnext hsteady hhanded⟩
    · have hbased : Based config [] { s₁ with offset := 0, pageLoaded := false } :=
        { hfreed.toBased with }
      exact (hbased.charge.threw { hsteady₁ with }).halted

/-- What a pull returns. -/
def Pulled (config : GraphqlScanConfig ι ν) (s₀ : GraphqlBatchStream ι ν)
    (returned : Option (List ν)) (s : GraphqlBatchStream ι ν) : Prop :=
  match returned with
  | some batch => Handed config s₀ batch s
  | none => Ended config s₀ s

theorem pull_yields (envs : List GraphqlPullEnv) (h : Live config s) (hsteady : Steady s₀ s) :
    Yields (pull config envs) s (Pulled config s₀) (Halted config s₀) := by
  induction envs generalizing s with
  | nil => exact ⟨h.toBased, hsteady, fun _ => h⟩
  | cons env rest ih =>
    unfold pull
    refine (checkState_yields h hsteady).bind ?_
    rintro _ s' rfl
    rw [yields_bind, yields_get]
    by_cases hleft : (s'.pageLoaded && decide (s'.offset < s'.decoded.length)) = true
    · rw [if_pos hleft]
      have hloaded : Loaded config [] s' := by
        rcases h with h | h
        · rw [h.unloaded, Bool.false_and] at hleft
          cases hleft
        · exact h
      refine (produceBatch_yields hloaded hsteady).mono ?_ fun _ _ he => he.halted
      rintro returned s'' ⟨batch, rfl, hhanded⟩
      exact hhanded
    · rw [if_neg hleft]
      refine (finishPage_yields h hsteady hleft).bind ?_
      rintro more s₁ ⟨hmore, hdone⟩
      cases more with
      | true =>
        obtain ⟨hidle, hsteady₁⟩ := hmore rfl
        rw [if_pos rfl]
        have hfetch : Yields (fetchPage config env) s₁
            (fun _ s₂ => Loaded config [] s₂ ∧ Steady s₀ s₂) (Halted config s₀) := by
          refine (fetchPage_yields hidle).mono ?_ ?_
          · rintro _ s₂ ⟨hloaded, hsteady₂⟩
            exact ⟨hloaded, hsteady₁.trans hsteady₂⟩
          · rintro halt s₂ ⟨hbased, hsteady₂, hlive⟩
            exact ⟨hbased, hsteady₁.trans hsteady₂, hlive⟩
        refine hfetch.bind ?_
        rintro _ s₂ ⟨hloaded, hsteady₂⟩
        exact ih (Or.inr hloaded) hsteady₂
      | false =>
        rw [if_neg (by decide), yields_pure]
        exact hdone rfl

-- ---------------------------------------------------------------------------
-- The calls
-- ---------------------------------------------------------------------------

/-- `Next`, `Cancel` and `Close` once they have the lock. -/
def GraphqlStreamCall.locks : GraphqlStreamCall → Bool
  | .flag => false
  | _ => true

def GraphqlStreamCall.stops : GraphqlStreamCall → Bool
  | .cancel | .close => true
  | _ => false

/-- Exhausted, failed, closed, or cancelled by a call that has come to its end. -/
def Terminal (stopped : Bool) (s : GraphqlBatchStream ι ν) : Prop :=
  s.exhausted = true ∨ s.closed = true ∨ s.terminalException ≠ none ∨ stopped = true

/-- What holds between calls; `stopped` when a `Cancel` or `Close` was among them. -/
structure Kept (config : GraphqlScanConfig ι ν) (stopped : Bool) (s : GraphqlBatchStream ι ν) :
    Prop extends Based config [] s where
  marked : s.closed = true ∨ s.terminalException ≠ none ∨ stopped = true → s.cancelled = true
  live : s.cancelled = false → s.exhausted = false → Live config s
  finished : s.exhausted = true → Finished config s.trace
  freed : Terminal stopped s → ∀ slot ∈ s.slots, slot = none

variable {stopped : Bool}

theorem Based.releasePermits (h : Based config [] s) : Based config [] s.releasePermits :=
  h.releasePageBytes.releasePageRows.releaseHandoffBytes.releaseHandoffRows.releaseAuthorization
    |>.releaseScanPermit

theorem Based.releasePrivateState (h : Based config [] s) :
    Based config [] s.releasePrivateState := by
  refine Based.releasePermits { h with sound := ?_ }
  show Sound (if _ then _ else _)
  split
  · exact h.sound
  · exact ((call_effect h.sound .abortPage).sound h.sound).1

theorem releasePrivateState_slots (s : GraphqlBatchStream ι ν) :
    ∀ slot ∈ s.releasePrivateState.slots, slot = none := by
  intro slot hslot
  have hslot : slot ∈ List.replicate 6 (none : Option Nat) := hslot
  exact List.eq_of_mem_replicate hslot

/-- The permits of the last batch come back with the private state. -/
theorem releasePrivateState_handoff {permit : Nat}
    (h : s.handoffBytesReservation = some permit ∨ s.handoffRowsReservation = some permit) :
    permit ∈ s.releasePrivateState.register.released := by
  refine Register.mem_release (Register.mem_release ?_)
  rcases h with hbytes | hrows
  · refine Register.mem_release ?_
    show permit ∈ (Register.release _ s.handoffBytesReservation).released
    rw [hbytes]
    exact Register.mem_release_self
  · show permit ∈ (Register.release _ s.handoffRowsReservation).released
    rw [hrows]
    exact Register.mem_release_self

theorem Kept.flag (h : Kept config stopped s) : Kept config stopped s.flag :=
  ⟨{ h.toBased with }, fun _ => rfl, fun hcancelled => (nomatch hcancelled), h.finished, h.freed⟩

/-- A flagged stream may be released, closed or left with a failure. -/
theorem Based.stop {s' : GraphqlBatchStream ι ν} (h : Based config [] s')
    (hcancelled : s'.cancelled = true)
    (hfinished : s'.exhausted = true → Finished config s'.trace) :
    Kept config stopped s'.releasePrivateState := by
  refine ⟨h.releasePrivateState, fun _ => hcancelled, fun hlive => ?_, hfinished,
    fun _ => releasePrivateState_slots s'⟩
  have hlive : s'.cancelled = false := hlive
  rw [hcancelled] at hlive
  cases hlive

/-- A closed stream has nothing left to give back. -/
theorem Kept.flagClosed (h : Kept config stopped s) (hclosed : s.closed = true) :
    Kept config true s.flag :=
  ⟨{ h.toBased with }, fun _ => rfl, fun hcancelled => (nomatch hcancelled), h.finished,
    fun _ => h.freed (Or.inr (Or.inl hclosed))⟩

theorem Kept.cancel (h : Kept config stopped s) : Kept config true s.cancel := by
  unfold GraphqlBatchStream.cancel
  split
  · exact h.flagClosed ‹_›
  · exact h.flag.toBased.stop rfl h.finished

theorem Kept.close (h : Kept config stopped s) : Kept config true s.close := by
  unfold GraphqlBatchStream.close
  split
  · exact h.flagClosed ‹_›
  · exact Based.stop { h.flag.toBased with } rfl h.finished

theorem Live.releaseHandoff (h : Live config s) : Live config s.releaseHandoff := by
  have hbased := h.toBased.releaseHandoffBytes.releaseHandoffRows
  rcases h with h | h
  · exact Or.inl { h with books := hbased.books }
  · exact Or.inr { h with books := hbased.books }

theorem Kept.releaseHandoff (h : Kept config stopped s) : Kept config stopped s.releaseHandoff := by
  refine ⟨h.toBased.releaseHandoffBytes.releaseHandoffRows, h.marked,
    fun hcancelled hrunning => (h.live hcancelled hrunning).releaseHandoff, h.finished,
    fun hterminal slot hslot => ?_⟩
  have hslot : slot ∈ [s.authorization, s.scanPermit, s.pageBytesReservation,
      s.pageRowsReservation] ++ [none, none] := hslot
  rcases List.mem_append.mp hslot with hkept | hnone
  · exact h.freed hterminal slot (List.mem_append_left
      [s.handoffBytesReservation, s.handoffRowsReservation] hkept)
  · simpa using hnone

theorem releaseHandoff_released {permit : Nat}
    (h : s.handoffBytesReservation = some permit ∨ s.handoffRowsReservation = some permit) :
    permit ∈ s.releaseHandoff.register.released := by
  rcases h with hbytes | hrows
  · refine Register.mem_release ?_
    show permit ∈ (Register.release _ s.handoffBytesReservation).released
    rw [hbytes]
    exact Register.mem_release_self
  · show permit ∈ (Register.release _ s.handoffRowsReservation).released
    rw [hrows]
    exact Register.mem_release_self

/-- A stream that has thrown this and will throw it again. -/
structure Dead (thrown : Thrown) (s : GraphqlBatchStream ι ν) : Prop where
  unclosed : s.closed = false
  remembered : s.terminalException = some thrown ∨
    s.terminalException = none ∧ s.exhausted = false ∧ s.cancelled = true ∧
      thrown = .executionCancelled

/-- What a `Next` does to a stream. -/
structure NextDone (config : GraphqlScanConfig ι ν) (stopped : Bool) (s : GraphqlBatchStream ι ν)
    (r : Except GraphqlBatchStream.NextHalt (Option (List ν)) × GraphqlBatchStream ι ν) :
    Prop where
  kept : Kept config stopped r.2
  delivered : deliveredOf r.2.trace = deliveredOf s.trace ++ Pagination.batchOf r.1
  ended : r.1 = .ok none → s.closed = true ∨ Finished config r.2.trace
  dead : ∀ thrown, r.1 = .error (.threw thrown) → Dead thrown r.2
  released : ∀ permit ∈ s.register.released, permit ∈ r.2.register.released

/-- Nothing happens: the stream answers from its flags. -/
theorem Kept.answered {result : Except GraphqlBatchStream.NextHalt (Option (List ν))}
    (h : Kept config stopped s) (hbatch : Pagination.batchOf result = [])
    (hended : result = .ok none → s.closed = true ∨ s.exhausted = true)
    (hdead : ∀ thrown, result = .error (.threw thrown) → Dead thrown s) :
    NextDone config stopped s (result, s) := by
  refine ⟨h, ?_, fun hnone => ?_, hdead, fun _ hpermit => hpermit⟩
  · rw [hbatch, List.append_nil]
  · rcases hended hnone with hclosed | hexhausted
    · exact Or.inl hclosed
    · exact Or.inr (h.finished hexhausted)

/-- The flags of a stream that a pull has not stopped. -/
theorem Kept.carry {s' : GraphqlBatchStream ι ν} (h : Kept config stopped s)
    (hrunning : s.cancelled = false) (hbased : Based config [] s') (hclosed : s'.closed = s.closed)
    (hterminal : s'.terminalException = s.terminalException)
    (hlive : s'.exhausted = false → Live config s')
    (hfinished : s'.exhausted = true →
      Finished config s'.trace ∧ ∀ slot ∈ s'.slots, slot = none) :
    Kept config stopped s' := by
  have hunmarked : ¬(s'.closed = true ∨ s'.terminalException ≠ none ∨ stopped = true) := by
    intro hmarked
    rw [hclosed, hterminal] at hmarked
    rw [h.marked hmarked] at hrunning
    cases hrunning
  refine ⟨hbased, fun hmarked => absurd hmarked hunmarked, fun _ => hlive,
    fun hdone => (hfinished hdone).1, fun hstop => ?_⟩
  rcases hstop with hexhausted | hmarked
  · exact (hfinished hexhausted).2
  · exact absurd hmarked hunmarked

theorem Handed.next_done {batch : List ν} {s' : GraphqlBatchStream ι ν} (h : Kept config stopped s)
    (huncancelled : s.cancelled = false) (hrunning : s.exhausted = false)
    (hhanded : Handed config s batch s') :
    NextDone config stopped s (.ok (some batch), s') := by
  refine ⟨?_, hhanded.delivered, fun hnone => (nomatch hnone), fun _ hthrown => (nomatch hthrown),
    hhanded.released⟩
  refine h.carry huncancelled hhanded.loaded.toBased hhanded.closed
    hhanded.terminalException (fun _ => Or.inr hhanded.loaded) fun hdone => ?_
  rw [hhanded.exhausted, hrunning] at hdone
  cases hdone

theorem Ended.next_done {s' : GraphqlBatchStream ι ν} (h : Kept config stopped s)
    (huncancelled : s.cancelled = false) (hbytes : s.handoffBytesReservation = none)
    (hrows : s.handoffRowsReservation = none) (hended : Ended config s s') :
    NextDone config stopped s (.ok none, s') := by
  refine ⟨?_, hended.delivered.trans (List.append_nil _).symm, fun _ => Or.inr hended.finished,
    fun _ hthrown => (nomatch hthrown), hended.released⟩
  refine h.carry huncancelled hended.toBased hended.closed
    hended.terminalException (fun hrunning => ?_) fun _ => ⟨hended.finished, fun slot hslot => ?_⟩
  · rw [hended.exhausted] at hrunning
    cases hrunning
  · rw [hended.freed, hbytes, hrows] at hslot
    exact List.eq_of_mem_replicate (show slot ∈ List.replicate 6 none from hslot)

theorem Halted.threw_done {error : GraphqlError} {s' : GraphqlBatchStream ι ν}
    (hrunning : s.exhausted = false) (hunclosed : s.closed = false)
    (hhalted : Halted config s (.threw error) s') :
    NextDone config stopped s
      (.error (.threw error.report), s'.rememberCurrentFailure error.report) := by
  obtain ⟨hbased, hsteady, -⟩ := hhalted
  refine ⟨Based.stop { hbased with } rfl fun hdone => ?_,
    hsteady.delivered.trans (List.append_nil _).symm, fun hnone => (nomatch hnone),
    fun thrown hthrown => ?_, fun permit hpermit => ?_⟩
  · have hdone : s'.exhausted = true := hdone
    rw [hsteady.exhausted, hrunning] at hdone
    cases hdone
  · rw [← GraphqlBatchStream.NextHalt.threw.inj (Except.error.inj hthrown)]
    exact ⟨hsteady.closed.trans hunclosed, Or.inl rfl⟩
  · have hkept := hsteady.released permit hpermit
    exact Register.mem_release (Register.mem_release (Register.mem_release (Register.mem_release
      (Register.mem_release (Register.mem_release hkept)))))

theorem Halted.unfinished_done {s' : GraphqlBatchStream ι ν} (h : Kept config stopped s)
    (huncancelled : s.cancelled = false) (hrunning : s.exhausted = false)
    (hhalted : Halted config s .unfinished s') :
    NextDone config stopped s (.error .unfinished, s') := by
  obtain ⟨hbased, hsteady, hlive⟩ := hhalted
  refine ⟨?_, hsteady.delivered.trans (List.append_nil _).symm, fun hnone => (nomatch hnone),
    fun _ hthrown => (nomatch hthrown), hsteady.released⟩
  refine h.carry huncancelled hbased hsteady.closed hsteady.terminalException
    (fun _ => hlive rfl) fun hdone => ?_
  rw [hsteady.exhausted, hrunning] at hdone
  cases hdone

theorem nextAfresh_done (h : Kept config stopped s) (hbytes : s.handoffBytesReservation = none)
    (hrows : s.handoffRowsReservation = none) (envs : List GraphqlPullEnv) :
    NextDone config stopped s (s.nextAfresh config envs) := by
  unfold GraphqlBatchStream.nextAfresh
  by_cases hclosed : s.closed = true
  · rw [if_pos hclosed]
    exact h.answered rfl (fun _ => Or.inl hclosed) (fun _ hthrown => (nomatch hthrown))
  have hunclosed : s.closed = false := by simpa using hclosed
  rw [if_neg hclosed]
  cases hterminal : s.terminalException with
  | some thrown =>
    refine h.answered rfl (fun hnone => (nomatch hnone)) fun again hagain => ?_
    rw [← GraphqlBatchStream.NextHalt.threw.inj (Except.error.inj hagain)]
    exact ⟨hunclosed, Or.inl hterminal⟩
  | none =>
    dsimp only
    by_cases hexhausted : s.exhausted = true
    · rw [if_pos hexhausted]
      exact h.answered rfl (fun _ => Or.inr hexhausted) (fun _ hthrown => (nomatch hthrown))
    have hrunning : s.exhausted = false := by simpa using hexhausted
    rw [if_neg hexhausted]
    by_cases hcancelled : s.cancelled = true
    · rw [if_pos hcancelled]
      refine h.answered rfl (fun hnone => (nomatch hnone)) fun again hagain => ?_
      have hthrown := GraphqlBatchStream.NextHalt.threw.inj (Except.error.inj hagain)
      exact ⟨hunclosed, Or.inr ⟨hterminal, hrunning, hcancelled, hthrown.symm⟩⟩
    have huncancelled : s.cancelled = false := by simpa using hcancelled
    rw [if_neg hcancelled]
    have hpull := pull_yields envs (h.live huncancelled hrunning) (Steady.refl s)
    unfold Yields at hpull
    cases hrun : pull config envs s with
    | mk result s' =>
      rw [hrun] at hpull
      match result, hpull with
      | .ok (some batch), hhanded => exact Handed.next_done h huncancelled hrunning hhanded
      | .ok none, hended => exact Ended.next_done h huncancelled hbytes hrows hended
      | .error (.threw error), hhalted => exact Halted.threw_done hrunning hunclosed hhalted
      | .error .unfinished, hhalted =>
        exact Halted.unfinished_done h huncancelled hrunning hhalted

theorem next_done (h : Kept config stopped s) (envs : List GraphqlPullEnv) :
    NextDone config stopped s.releaseHandoff (s.next config envs) :=
  nextAfresh_done h.releaseHandoff rfl rfl envs

theorem call_kept (h : Kept config stopped s) (c : GraphqlStreamCall) :
    Kept config (stopped || c.stops) (s.call config c) := by
  cases c with
  | next envs =>
    rw [show (stopped || (GraphqlStreamCall.next envs).stops) = stopped from Bool.or_false _]
    exact (next_done h envs).kept
  | flag =>
    rw [show (stopped || GraphqlStreamCall.flag.stops) = stopped from Bool.or_false _]
    exact h.flag
  | cancel =>
    rw [show (stopped || GraphqlStreamCall.cancel.stops) = true from Bool.or_true _]
    exact h.cancel
  | close =>
    rw [show (stopped || GraphqlStreamCall.close.stops) = true from Bool.or_true _]
    exact h.close

theorem after_kept (h : Kept config stopped s) (calls : List GraphqlStreamCall) :
    Kept config (stopped || calls.any GraphqlStreamCall.stops) (s.after config calls) := by
  induction calls generalizing s stopped with
  | nil =>
    rw [List.any_nil, Bool.or_false]
    exact h
  | cons c rest ih =>
    rw [List.any_cons, ← Bool.or_assoc]
    exact ih (call_kept h c)

/-- A call that takes the lock gives the last batch's permits back. -/
theorem call_handoff (h : Kept config stopped s) {c : GraphqlStreamCall} (hc : c.locks = true)
    {permit : Nat}
    (hpermit : s.handoffBytesReservation = some permit ∨ s.handoffRowsReservation = some permit) :
    permit ∈ (s.call config c).register.released := by
  have hopen : s.closed = false := by
    by_contra hclosed
    have hfreed := h.freed (Or.inr (Or.inl (by simpa using hclosed)))
    rcases hpermit with hbytes | hrows
    · have hnone := hfreed s.handoffBytesReservation (by simp [GraphqlBatchStream.slots])
      rw [hbytes] at hnone
      cases hnone
    · have hnone := hfreed s.handoffRowsReservation (by simp [GraphqlBatchStream.slots])
      rw [hrows] at hnone
      cases hnone
  cases c with
  | next envs => exact (next_done h envs).released permit (releaseHandoff_released hpermit)
  | flag => cases hc
  | cancel =>
    rw [GraphqlBatchStream.call, GraphqlBatchStream.cancel, if_neg (by rw [hopen]; decide)]
    exact releasePrivateState_handoff hpermit
  | close =>
    rw [GraphqlBatchStream.call, GraphqlBatchStream.close, if_neg (by rw [hopen]; decide)]
    exact releasePrivateState_handoff (s := { s.flag with closed := true }) hpermit

theorem open_kept {cancellationRequested : Bool}
    (hopen : openGraphqlPaginatedScan config cancellationRequested = .ok s) :
    Kept config false s := by
  unfold openGraphqlPaginatedScan at hopen
  split at hopen
  · cases hopen
  cases hnew : ScanResourceAccounting.new config.resources with
  | error error =>
    rw [hnew] at hopen
    cases hopen
  | ok ledger =>
    cases hcursor : GraphqlCursorState.new config.maxPages 512 with
    | error error =>
      rw [hnew, hcursor] at hopen
      cases hopen
    | ok cursor =>
      rw [hnew, hcursor] at hopen
      have hfresh : CursorAt ([] : List (CursorPage ν)) cursor := by
        unfold GraphqlCursorState.new at hcursor
        split at hcursor
        · cases hcursor
        · rw [← Except.ok.inj hcursor]
          exact ⟨rfl, rfl, rfl⟩
      have hbooks : Accounted ⟨2, []⟩ [some 0, some 1, none, none, none, none] := by
        intro permit
        simp only [List.count_cons, List.count_nil]
        match permit with
        | 0 => rfl
        | 1 => rfl
        | n + 2 => simp
      have hstart : Based config [] s := by
        rw [← Except.ok.inj hopen]
        exact ⟨(new_eq_ok hnew).1, Orderly.nil, List.isChain_nil, hbooks,
          fun _ hpair => (nomatch hpair), fun _ hlimit => (nomatch hlimit)⟩
      rw [← Except.ok.inj hopen] at hstart ⊢
      refine ⟨hstart, ?_, fun _ _ => Or.inl ⟨⟨hstart, rfl, ?_, rfl, hfresh⟩, settled_nil⟩, ?_, ?_⟩
      · rintro (hclosed | hterminal | hstopped)
        · cases hclosed
        · exact absurd rfl hterminal
        · cases hstopped
      · intro page hpage
        cases hpage
      · intro hexhausted
        cases hexhausted
      · rintro (hexhausted | hclosed | hterminal | hstopped)
        · cases hexhausted
        · cases hclosed
        · exact absurd rfl hterminal
        · cases hstopped

-- ---------------------------------------------------------------------------
-- After a failure
-- ---------------------------------------------------------------------------

def GraphqlStreamCall.closes : GraphqlStreamCall → Bool
  | .close => true
  | _ => false

theorem next_of_dead {thrown : Thrown} (h : Dead thrown s) (envs : List GraphqlPullEnv) :
    s.next config envs = (.error (.threw thrown), s.releaseHandoff) := by
  have hunclosed : ¬s.releaseHandoff.closed = true := by
    show ¬s.closed = true
    rw [h.unclosed]
    decide
  unfold GraphqlBatchStream.next GraphqlBatchStream.nextAfresh
  rw [if_neg hunclosed]
  have hsame : s.releaseHandoff.terminalException = s.terminalException := rfl
  rw [hsame]
  rcases h.remembered with hterminal | ⟨hterminal, hrunning, hcancelled, hthrown⟩
  · rw [hterminal]
  · have hrunning' : ¬s.releaseHandoff.exhausted = true := by
      show ¬s.exhausted = true
      rw [hrunning]
      decide
    have hcancelled' : s.releaseHandoff.cancelled = true := hcancelled
    rw [hterminal]
    dsimp only
    rw [if_neg hrunning', if_pos hcancelled', hthrown]

theorem next_of_closed (h : s.closed = true) (envs : List GraphqlPullEnv) :
    s.next config envs = (.ok none, s.releaseHandoff) := by
  have hclosed : s.releaseHandoff.closed = true := h
  unfold GraphqlBatchStream.next GraphqlBatchStream.nextAfresh
  rw [if_pos hclosed]

theorem call_of_closed (config : GraphqlScanConfig ι ν) (h : s.closed = true)
    (c : GraphqlStreamCall) :
    (s.call config c).closed = true ∧ (s.call config c).trace = s.trace := by
  cases c with
  | next envs =>
    rw [GraphqlBatchStream.call, next_of_closed h]
    exact ⟨h, rfl⟩
  | flag => exact ⟨h, rfl⟩
  | cancel =>
    rw [GraphqlBatchStream.call, GraphqlBatchStream.cancel, if_pos h]
    exact ⟨h, rfl⟩
  | close =>
    rw [GraphqlBatchStream.call, GraphqlBatchStream.close, if_pos h]
    exact ⟨h, rfl⟩

theorem after_of_closed (config : GraphqlScanConfig ι ν) (h : s.closed = true)
    (calls : List GraphqlStreamCall) :
    (s.after config calls).closed = true ∧ (s.after config calls).trace = s.trace := by
  induction calls generalizing s with
  | nil => exact ⟨h, rfl⟩
  | cons c rest ih =>
    obtain ⟨hclosed, htrace⟩ := call_of_closed config h c
    obtain ⟨hclosed', htrace'⟩ := ih hclosed
    exact ⟨hclosed', htrace'.trans htrace⟩

theorem Dead.mark {thrown : Thrown} {s' : GraphqlBatchStream ι ν} (h : Dead thrown s)
    (hclosed : s'.closed = s.closed) (hterminal : s'.terminalException = s.terminalException)
    (hexhausted : s'.exhausted = s.exhausted) (hcancelled : s.cancelled = true → s'.cancelled = true) :
    Dead thrown s' := by
  refine ⟨hclosed.trans h.unclosed, ?_⟩
  rw [hterminal, hexhausted]
  rcases h.remembered with hthrown | ⟨hnone, hrunning, hwas, hthrown⟩
  · exact Or.inl hthrown
  · exact Or.inr ⟨hnone, hrunning, hcancelled hwas, hthrown⟩

theorem call_of_dead (config : GraphqlScanConfig ι ν) {thrown : Thrown} (h : Dead thrown s)
    {c : GraphqlStreamCall} (hc : c.closes = false) :
    Dead thrown (s.call config c) ∧ (s.call config c).trace = s.trace := by
  cases c with
  | next envs =>
    rw [GraphqlBatchStream.call, next_of_dead h]
    exact ⟨h.mark rfl rfl rfl (fun hcancelled => hcancelled), rfl⟩
  | flag => exact ⟨h.mark rfl rfl rfl (fun _ => rfl), rfl⟩
  | cancel =>
    rw [GraphqlBatchStream.call, GraphqlBatchStream.cancel, if_neg (by rw [h.unclosed]; decide)]
    exact ⟨h.mark rfl rfl rfl (fun _ => rfl), rfl⟩
  | close => cases hc

theorem close_of_dead {thrown : Thrown} (h : Dead thrown s) :
    s.close.closed = true ∧ s.close.trace = s.trace := by
  rw [GraphqlBatchStream.close, if_neg (by rw [h.unclosed]; decide)]
  exact ⟨rfl, rfl⟩

/-- A failed stream throws the same until it is closed, and does nothing else. -/
theorem after_of_dead {thrown : Thrown} (h : Dead thrown s) (calls : List GraphqlStreamCall)
    (envs : List GraphqlPullEnv) :
    (s.after config calls).trace = s.trace ∧
      ((s.after config calls).next config envs).1 =
        if calls.any GraphqlStreamCall.closes then .ok none else .error (.threw thrown) := by
  induction calls generalizing s with
  | nil =>
    refine ⟨rfl, ?_⟩
    show (s.next config envs).1 = _
    rw [next_of_dead h]
    rfl
  | cons c rest ih =>
    rw [List.any_cons]
    cases hc : c.closes with
    | false =>
      obtain ⟨hdead, htrace⟩ := call_of_dead config h hc
      obtain ⟨htrace', hnext⟩ := ih hdead
      exact ⟨htrace'.trans htrace, hnext⟩
    | true =>
      have hclose : s.call config c = s.close := by
        cases c with
        | close => rfl
        | next | flag | cancel => cases hc
      obtain ⟨hclosed, htrace⟩ := close_of_dead h
      obtain ⟨hclosed', htrace'⟩ := after_of_closed config hclosed rest
      have hafter : s.after config (c :: rest) = s.close.after config rest := by
        rw [← hclose]
        rfl
      rw [hafter, next_of_closed hclosed']
      exact ⟨htrace'.trans htrace, rfl⟩

-- ---------------------------------------------------------------------------
-- The stream
-- ---------------------------------------------------------------------------

/-- What a paginated GraphQL stream asks for, accepts, hands out and gives back, whatever
calls are made to it and whatever comes back. -/
theorem graphql_stream_delivery {config : GraphqlScanConfig ι ν} {cancellationRequested : Bool}
    {s₀ : GraphqlBatchStream ι ν}
    (hopen : openGraphqlPaginatedScan config cancellationRequested = .ok s₀)
    (calls : List GraphqlStreamCall) :
    let s := s₀.after config calls
    -- rows, pages and requests
    Orderly (cursorRules config) s.trace ∧ s.trace.IsChain Heeded ∧
    -- memory
    (∀ pair ∈ s.subtractions, pair.2 ≤ pair.1) ∧ (∀ limit ∈ s.decodeLimits, 0 < limit) ∧
    -- permits
    (∀ permit, s.register.released.count permit ≤ 1) ∧
    (Terminal (calls.any GraphqlStreamCall.stops) s →
      (∀ slot ∈ s.slots, slot = none) ∧
        ∀ permit < s.register.issued, s.register.released.count permit = 1) ∧
    (∀ c, GraphqlStreamCall.locks c = true → ∀ permit,
      s.handoffBytesReservation = some permit ∨ s.handoffRowsReservation = some permit →
        permit ∈ (s.call config c).register.released) ∧
    -- the next call
    ∀ envs,
      let r := s.next config envs
      deliveredOf r.2.trace = deliveredOf s.trace ++ Pagination.batchOf r.1 ∧
      (r.1 = .ok none → s.closed = true ∨ Finished config r.2.trace) ∧
      ∀ thrown, r.1 = .error (.threw thrown) → ∀ later again,
        (r.2.after config later).trace = r.2.trace ∧
        ((r.2.after config later).next config again).1 =
          if later.any GraphqlStreamCall.closes then .ok none else .error (.threw thrown) := by
  intro s
  have hkept : Kept config (calls.any GraphqlStreamCall.stops) s :=
    after_kept (open_kept hopen) calls
  have hbooks : Accounted s.register s.slots := by
    have hbooks := hkept.books
    rw [List.map_nil, List.append_nil] at hbooks
    exact hbooks
  refine ⟨hkept.orderly, hkept.heeded, hkept.subtracted, hkept.limits, hbooks.count_le_one,
    fun hterminal => ?_, fun c hc permit hpermit => call_handoff hkept hc hpermit, fun envs => ?_⟩
  · have hfreed := hkept.freed hterminal
    exact ⟨hfreed, fun permit hissued => hbooks.once hfreed hissued⟩
  · have hdone := next_done hkept envs
    refine ⟨hdone.delivered, hdone.ended, fun thrown hthrown later again => ?_⟩
    exact after_of_dead (hdone.dead thrown hthrown) later again

-- ---------------------------------------------------------------------------
-- Two pages
-- ---------------------------------------------------------------------------

def itemProfile : AuthorizedGraphqlProfile where
  toAdmittedGraphqlRequestProfile :=
    { tightProfile with
      maxRequestBodyBytes := 1024
      maxRequestBodyBytes_pos := by decide
      maxRequestBodyBytes_le := by decide }
  requiresBearer := false
  headerBytes := 100
  headers_owned := by decide +kernel
  path_safe := by decide +kernel

/-- `[1,2]` stands for a page of two nodes that goes on, any other body for a last page. -/
def itemScan : GraphqlScanConfig Unit Nat where
  profile := itemProfile
  maxPages := 3
  batchRows := 2
  decodedMemoryBytes := 100
  extractedStringBytes := 100
  jsonNesting := 10
  columns := 1
  retry := ⟨1, 3, 0, 0⟩
  rateLimit := ⟨false, [], .fail, [], [], [], [], [], 1, 1, 0, 0, 0, false⟩
  resources :=
    ⟨⟨1, 100, 100, 100, 10, 100, 1, 1024⟩,
      ⟨3, 3, 300, 300, 300, 30, 100, 1000, 1, 3072, 0, 0, 0⟩⟩
  authorization := itemKey
  destination := ⟨[], [], 0⟩
  principal := .anonymous
  retrySeed := 0
  parseRateLimitGuidance := fun _ => ⟨.guidanceMissing, 0, 0, false⟩
  decodeGraphqlResponse := fun body _ =>
    if body = Pagination.twoRows then .ok ⟨[1, 2], true, ascii "c1", 10⟩ else .ok ⟨[3], false, [], 5⟩
  capacity := id
  cursorAllocation := fun _ => 0
  rowBytes := 8
  typeBytes := 1

def itemEnv (body : Bytes) : GraphqlPullEnv where
  cancelled := false
  now := 2
  narrow := none
  completedAt := 2
  produceCheck := none
  handoffBytes := none
  handoffRows := none
  rowCapacity := 1
  columnCapacity := 1
  assemble := none
  beginAt := 0
  turns := [repeatTurn (.response ⟨200, 10, 5, 5, body, ⟨[], 0, false, [], []⟩⟩)]
  retain := none
  accept := none
  reserveBytes := none
  reserveRows := none
  decoding := none
  decodedCheck := none

/-- Two pages, each in one batch, and the end. -/
def itemCalls : List GraphqlStreamCall :=
  [.next [itemEnv Pagination.twoRows, itemEnv []], .next [itemEnv [], itemEnv []],
    .next [itemEnv []]]

def itemStream : GraphqlBatchStream Unit Nat where
  controller := .fresh ⟨itemScan.resources, ScanResourceAccounting.zeroCounters, .ready,
    false, 0, 0, ⟨0, 0, 0, 0, 0, 0, 0⟩, 0, false, false⟩
  cursor := ⟨3, 512, 0, false, false, []⟩
  cancelled := false
  closed := false
  exhausted := false
  terminalException := none
  pageLoaded := false
  pageHasNext := false
  decoded := []
  decodedMemoryBytes := 0
  decodedMemoryAllowance := 0
  offset := 0
  rowsEmitted := 0
  register := ⟨2, []⟩
  authorization := some 0
  scanPermit := some 1
  pageBytesReservation := none
  pageRowsReservation := none
  handoffBytesReservation := none
  handoffRowsReservation := none
  trace := []
  subtractions := []
  decodeLimits := []

theorem graphql_stream_delivery_two_pages :
    openGraphqlPaginatedScan itemScan false = .ok itemStream ∧
    deliveredOf (itemStream.after itemScan itemCalls).trace = [[1, 2], [3]] ∧
    Orderly (cursorRules itemScan) (itemStream.after itemScan itemCalls).trace ∧
    (itemStream.after itemScan itemCalls).exhausted = true ∧
    ∀ permit < (itemStream.after itemScan itemCalls).register.issued,
      (itemStream.after itemScan itemCalls).register.released.count permit = 1 := by
  have hopen : openGraphqlPaginatedScan itemScan false = .ok itemStream := by
    rfl
  have hdelivered : deliveredOf (itemStream.after itemScan itemCalls).trace = [[1, 2], [3]] := by
    decide +kernel
  have hexhausted : (itemStream.after itemScan itemCalls).exhausted = true := by
    decide +kernel
  obtain ⟨horderly, -, -, -, -, hreleased, -⟩ := graphql_stream_delivery hopen itemCalls
  exact ⟨hopen, hdelivered, horderly, hexhausted, (hreleased (Or.inl hexhausted)).2⟩

end Cuac.Runtime.GraphqlScan

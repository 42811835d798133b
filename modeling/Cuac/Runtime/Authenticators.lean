import Cuac.Runtime.GraphqlRequestBody
import Cuac.Runtime.RestMaterialization

/-!
# Runtime — attaching a credential

`BearerAuthenticator` and `ApiKeyAuthenticator` take a finished request, recognise it as
one that the admitted profile builds, and add the credential: as a header, or as a field
of the query. A profile keeps what admission found out about its request; the checks of
admission that nothing here reads (columns, budgets other than the header bytes, the
network) are left out.

`capacity` is what a string holds once so many bytes are reserved; the library decides.
-/

namespace Cuac.Runtime.Authentication

open Cuac.Lib Cuac.Connector Cuac.Semantics Cuac.Runtime

/-- `HttpRequest` -/
abbrev HttpRequest := GraphqlRequest

def resourceError (field message : String) : ExecutionError :=
  ⟨.resource, ascii field, ascii message, none⟩

-- ---------------------------------------------------------------------------
-- Headers
-- ---------------------------------------------------------------------------

def asciiLower (b : UInt8) : UInt8 :=
  if byte 'A' ≤ b && b ≤ byte 'Z' then b - byte 'A' + byte 'a' else b

def equalsAsciiIgnoreCase (left right : Bytes) : Bool :=
  left.map asciiLower == right.map asciiLower

def containsAsciiIgnoreCase (value needle : Bytes) : Bool :=
  (value.map asciiLower).tails.any fun rest => needle.isPrefixOf rest

def isLetter (b : UInt8) : Bool :=
  (byte 'A' ≤ b && b ≤ byte 'Z') || (byte 'a' ≤ b && b ≤ byte 'z')

def isHeaderName (name : Bytes) : Bool :=
  !name.isEmpty && name.length ≤ 63 && name.head?.any isLetter &&
    name.tail.all fun b => isLetter b || isDigit b || b == byte '-'

def isHeaderSpace (b : UInt8) : Bool := b == 0x20 || b == 0x09

def isHeaderValue (value : Bytes) : Bool :=
  value.length ≤ 1024 && !value.head?.any isHeaderSpace && !value.getLast?.any isHeaderSpace &&
    value.all fun b => b == 0x09 || (0x20 ≤ b && b ≤ 0x7E)

def runtimeOwnedHeaders : List Bytes :=
  [ascii "authorization", ascii "proxy-authorization", ascii "host", ascii "connection",
    ascii "content-length", ascii "transfer-encoding", ascii "trailer", ascii "te",
    ascii "upgrade", ascii "keep-alive", ascii "proxy-connection", ascii "expect", ascii "range",
    ascii "cookie", ascii "set-cookie", ascii "accept-encoding"]

def isRuntimeOwnedHeader (name : Bytes) : Bool :=
  runtimeOwnedHeaders.any (equalsAsciiIgnoreCase name) ||
    containsAsciiIgnoreCase name (ascii "token") || containsAsciiIgnoreCase name (ascii "secret") ||
    containsAsciiIgnoreCase name (ascii "api-key") || containsAsciiIgnoreCase name (ascii "apikey")

/-- `TryAccumulateRequestHeaderBytes`: four bytes frame a field. -/
def tryAccumulateRequestHeaderBytes (limit nameBytes valueBytes total : Nat) : Option Nat :=
  if limit < total || limit < nameBytes || limit < valueBytes then none
  else if limit - total < nameBytes then none
  else if limit - (total + nameBytes) < 4 then none
  else if limit - (total + nameBytes + 4) < valueBytes then none
  else some (total + nameBytes + 4 + valueBytes)

def accumulateHeaders (limit : Nat) : List HttpHeader → Nat → Option Nat
  | [], total => some total
  | header :: rest, total => do
    let total ← tryAccumulateRequestHeaderBytes limit header.name.length header.value.length total
    accumulateHeaders limit rest total

/-- The locals of the loop over the declared headers. -/
structure HeaderCopy where
  result : List HttpHeader
  contentTypeSeen : Bool
  headerBytes : Nat

/-- One turn of the loop. -/
def copyHeader (graphql : Bool) (limit : Nat) (s : HeaderCopy) (header : HttpHeader) :
    Option HeaderCopy :=
  if !isHeaderName header.name || !isHeaderValue header.value then none
  else if s.result.any fun existing => equalsAsciiIgnoreCase existing.name header.name then none
  else if equalsAsciiIgnoreCase header.name (ascii "content-type") then
    if !graphql || s.contentTypeSeen || header.value != ascii "application/json" then none
    else do
      let total ← tryAccumulateRequestHeaderBytes limit header.name.length header.value.length
        s.headerBytes
      pure ⟨s.result, true, total⟩
  else if isRuntimeOwnedHeader header.name then none
  else do
    let total ← tryAccumulateRequestHeaderBytes limit header.name.length header.value.length
      s.headerBytes
    pure ⟨s.result ++ [header], s.contentTypeSeen, total⟩

def copyHeaders (graphql : Bool) (limit : Nat) : List HttpHeader → HeaderCopy → Option HeaderCopy
  | [], s => some s
  | header :: rest, s => do
    let s ← copyHeader graphql limit s header
    copyHeaders graphql limit rest s

def tryCopyFixedHeaders (planned : List HttpHeader) (graphql : Bool) (maxHeaderBytes : UInt64) :
    Option (List HttpHeader) :=
  if 32 < planned.length then none
  else do
    let s ← copyHeaders graphql maxHeaderBytes.toNat planned ⟨[], false, 0⟩
    if s.contentTypeSeen == graphql then some s.result else none

-- ---------------------------------------------------------------------------
-- Targets
-- ---------------------------------------------------------------------------

/-- The bytes of a field in a target, its separator included. -/
def fitsFields (total : Nat) : List AdmittedQueryParameter → Bool
  | [] => true
  | parameter :: rest =>
    let fieldBytes := 1 + parameter.name.length + 1 + parameter.encodedValue.length
    if 8192 - total < fieldBytes then false else fitsFields (total + fieldBytes) rest

def fitsRestRequestTarget (path : Bytes) (query : List AdmittedQueryParameter)
    (additionalBytes : Nat) : Bool :=
  if 8192 < path.length || 8192 - path.length < additionalBytes then false
  else fitsFields (path.length + additionalBytes) query

/-- The fields of a page: the number takes the place of the declared value. -/
def pageFields (query : List AdmittedQueryParameter) (page : Option (Bytes × UInt64)) :
    List (Bytes × Bytes) :=
  query.map fun parameter =>
    match page with
    | some (name, number) =>
      (parameter.name,
        if parameter.name == name then decimal number.toNat else parameter.encodedValue)
    | none => (parameter.name, parameter.encodedValue)

def targetOverBudget : ExecutionError :=
  resourceError "request_target" "HTTP request target exceeded its byte budget"

def targetBytes (total : Nat) : List (Bytes × Bytes) → Except ExecutionError Nat
  | [] => pure total
  | (name, value) :: rest => do
    let addition := 2 + name.length + value.length
    throwIf (decide (8192 < total) || decide (8192 - total < addition)) targetOverBudget
    targetBytes (total + addition) rest

/-- The query of a target, from `?` on. -/
def queryText : Bool → List (Bytes × Bytes) → Bytes
  | _, [] => []
  | first, (name, value) :: rest =>
    byte (if first then '?' else '&') :: (name ++ byte '=' :: value) ++ queryText false rest

def buildRestTarget (capacity : Nat → Nat) (path : Bytes) (fields : List (Bytes × Bytes)) :
    Except ExecutionError Bytes := do
  let bytes ← targetBytes path.length fields
  throwIf (!hasBoundedHttpStringCapacity (capacity bytes) (UInt64.ofNat bytes))
    (resourceError "request_target" "HTTP request target exceeded its admitted capacity envelope")
  let result := path ++ queryText true fields
  throwIf (result.length != bytes)
    (resourceError "request_target" "HTTP request target exceeded its admitted capacity envelope")
  pure result

-- ---------------------------------------------------------------------------
-- Profiles
-- ---------------------------------------------------------------------------

structure RequiredCredential where
  bearer : Bool
  apiKey : Bool
  headerPlacement : Bool
  placementName : Bytes
  deriving DecidableEq, Repr

/-- What a field of the target is called by the credential, if it is one. -/
def RequiredCredential.inQuery (credential : RequiredCredential) : Bool :=
  credential.apiKey && !credential.headerPlacement

/-- What both kinds of REST profiles are built from, with what admission found out. -/
structure AdmittedRequest where
  path : Bytes
  queryParameters : List AdmittedQueryParameter
  headers : List HttpHeader
  credential : RequiredCredential
  headerBytes : UInt64
  path_safe : isSafeRequestPath path = true
  names_safe : ∀ p ∈ queryParameters, isSafeEncodedQueryName p.name = true
  values_safe : ∀ p ∈ queryParameters, isSafeEncodedQueryValue p.encodedValue = true
  headers_fit : ∃ total, accumulateHeaders headerBytes.toNat headers 0 = some total
  headers_owned : ∀ h ∈ headers, equalsAsciiIgnoreCase h.name (ascii "authorization") = false
  header_free : credential.apiKey = true → credential.headerPlacement = true →
    ∀ h ∈ headers, equalsAsciiIgnoreCase h.name credential.placementName = false
  query_free : credential.inQuery = true → ∀ p ∈ queryParameters, p.name ≠ credential.placementName
  /-- The package compiler names a query field with `IsQueryName`. -/
  placement_safe : credential.inQuery = true →
    isSafeEncodedQueryName credential.placementName = true

/-- A request without headers of its own that no credential is put into. -/
def AdmittedRequest.plain (path : Bytes) (queryParameters : List AdmittedQueryParameter)
    (headerBytes : UInt64) (path_safe : isSafeRequestPath path = true)
    (names_safe : ∀ p ∈ queryParameters, isSafeEncodedQueryName p.name = true)
    (values_safe : ∀ p ∈ queryParameters, isSafeEncodedQueryValue p.encodedValue = true) :
    AdmittedRequest where
  path := path
  queryParameters := queryParameters
  headers := []
  credential := ⟨false, false, false, []⟩
  headerBytes := headerBytes
  path_safe := path_safe
  names_safe := names_safe
  values_safe := values_safe
  headers_fit := ⟨0, rfl⟩
  headers_owned := fun _ hheader => absurd hheader List.not_mem_nil
  header_free := fun hkey => absurd hkey Bool.false_ne_true
  query_free := fun hquery => absurd hquery Bool.false_ne_true
  placement_safe := fun hquery => absurd hquery Bool.false_ne_true

structure AdmittedRestRequestProfile extends AdmittedRequest where
  method : Bytes
  scheme : Bytes
  host : Bytes
  port : UInt16

structure AdmittedPaginatedRestRequestProfile extends AdmittedRequest where
  method : Bytes
  scheme : Bytes
  host : Bytes
  port : UInt16
  pageNumberParameter : Bytes
  firstPage : UInt64
  pageIncrement : UInt64
  maxPages : UInt64

/-- A GraphQL profile with the part of it that authorization reads. -/
structure AuthorizedGraphqlProfile extends AdmittedGraphqlRequestProfile where
  requiresBearer : Bool
  headerBytes : UInt64
  headers_owned : ∀ h ∈ headers, equalsAsciiIgnoreCase h.name (ascii "authorization") = false
  path_safe : isSafeRequestPath path = true

def buildAdmittedRestRequest (capacity : Nat → Nat) (profile : AdmittedRestRequestProfile) :
    Except ExecutionError HttpRequest := do
  let target ← buildRestTarget capacity profile.path (pageFields profile.queryParameters none)
  pure ⟨profile.method, profile.scheme, profile.host, profile.port, target, profile.headers, [], []⟩

/-- The target of a page. -/
def pageTarget (capacity : Nat → Nat) (profile : AdmittedPaginatedRestRequestProfile)
    (page : UInt64) : Except ExecutionError Bytes :=
  buildRestTarget capacity profile.path
    (pageFields profile.queryParameters (some (profile.pageNumberParameter, page)))

def buildAdmittedPaginatedRestPageRequest (capacity : Nat → Nat)
    (profile : AdmittedPaginatedRestRequestProfile) (page : UInt64) :
    Except ExecutionError HttpRequest := do
  throwIf (profile.maxPages == 0 || profile.pageIncrement == 0 ||
      decide ((0xFFFFFFFFFFFFFFFF - profile.firstPage) / profile.pageIncrement < profile.maxPages - 1))
    ⟨.policy, ascii "pagination.page", ascii "paginated REST profile cannot advance safely", none⟩
  let lastPage := profile.firstPage + (profile.maxPages - 1) * profile.pageIncrement
  throwIf (decide (page < profile.firstPage) || decide (lastPage < page) ||
      (page - profile.firstPage) % profile.pageIncrement != 0)
    ⟨.policy, ascii "pagination.page", ascii "REST page is outside the admitted request profile",
      none⟩
  let target ← pageTarget capacity profile page
  pure ⟨profile.method, profile.scheme, profile.host, profile.port, target, profile.headers, [], []⟩

-- ---------------------------------------------------------------------------
-- Admission
-- ---------------------------------------------------------------------------

/-- A `PlannedAuthenticationObligation`, as far as a request depends on it. -/
structure AuthenticationObligation where
  required : Bool
  authenticator : Authenticator
  placement : CredentialPlacement
  placementName : Bytes
  placement_safe : placement = .queryNamed → isSafeEncodedQueryName placementName = true

/-- The credential that `HasAuthentication` reads off an obligation. -/
def AuthenticationObligation.credential (obligation : AuthenticationObligation) :
    Option RequiredCredential :=
  if !obligation.required then
    if obligation.authenticator = .none && obligation.placement = .none then
      some ⟨false, false, false, []⟩
    else none
  else if obligation.authenticator = .bearer && obligation.placement = .authorizationHeader then
    some ⟨true, false, false, []⟩
  else if obligation.authenticator = .apiKey && (obligation.placement = .headerNamed ||
      obligation.placement = .queryNamed) && !obligation.placementName.isEmpty then
    some ⟨false, true, obligation.placement = .headerNamed, obligation.placementName⟩
  else none

structure MaterializedRestRequest where
  path : Bytes
  query : List AdmittedQueryParameter
  headers : List HttpHeader

/-- The credential's own field is declared nowhere else. -/
def placementIsFree (obligation : AuthenticationObligation) (request : MaterializedRestRequest) :
    Bool :=
  if obligation.required && obligation.authenticator = .apiKey then
    match obligation.placement with
    | .headerNamed =>
      request.headers.all fun header => !equalsAsciiIgnoreCase header.name obligation.placementName
    | .queryNamed => request.query.all fun parameter => parameter.name != obligation.placementName
    | _ => true
  else true

/-- `TryMaterializeRestRequest`, less its columns and its records path. -/
def tryMaterializeRestRequest [CLibrary] (operation : PlannedRestOperation)
    (obligation : AuthenticationObligation) (conditional : RestConditionalBindingAuthority)
    (headerBytes : UInt64) : Except Fault (Option MaterializedRestRequest) := do
  match ← tryCopyPermanentPath operation with
  | none => pure none
  | some path =>
    match ← tryCopyPermanentQuery operation.queryBindings conditional with
    | none => pure none
    | some query =>
      if !fitsRestRequestTarget path query 0 then pure none
      else
        match tryCopyFixedHeaders operation.headers false headerBytes with
        | none => pure none
        | some headers =>
          let request : MaterializedRestRequest := ⟨path, query, headers⟩
          pure (if placementIsFree obligation request then some request else none)

-- ---------------------------------------------------------------------------
-- Authorizations
-- ---------------------------------------------------------------------------

inductive AuthorizationKind
  | anonymous
  | bearer
  | credential
  deriving DecidableEq, Repr

def isSafeBearerToken (token : Bytes) : Bool :=
  !token.isEmpty && token.all fun b => 0x21 ≤ b && b ≤ 0x7E

/-- `BearerTokenByteLimit` and `CredentialByteLimit` -/
def credentialByteLimit : Nat := 8192

/-- A `ScanAuthorization`. A token exists only where its constructor accepted it. -/
structure ScanAuthorization where
  kind : AuthorizationKind
  valid : Bool
  token : Bytes
  token_safe : kind ≠ .anonymous →
    isSafeBearerToken token = true ∧ token.length ≤ credentialByteLimit

def authenticationError (message : String) : ExecutionError :=
  ⟨.authentication, ascii "authorization", ascii message, none⟩

/-- `BearerAuthenticator::CopyToken` -/
def copyBearerToken (authorization : ScanAuthorization) : Except ExecutionError Bytes := do
  throwIf (!authorization.valid || authorization.kind == .anonymous)
    (authenticationError "bearer authorization capability is invalid")
  pure authorization.token

/-- `ApiKeyAuthenticator::CopyToken` -/
def copyApiKeyToken (authorization : ScanAuthorization) : Except ExecutionError Bytes := do
  throwIf (!authorization.valid || authorization.kind != .credential)
    (authenticationError "api-key authorization capability is invalid")
  pure authorization.token

def headersOverBudget : ExecutionError :=
  resourceError "header_bytes" "HTTP request headers exceed their aggregate limit"

def accumulateContentType (limit : Nat) (contentType : Bytes) (total : Nat) : Option Nat :=
  if contentType.isEmpty then some total
  else tryAccumulateRequestHeaderBytes limit (ascii "Content-Type").length contentType.length total

/-- The bytes of the headers with one more, each check in turn. -/
def headerBytesWith (limit : Nat) (request : HttpRequest) (nameBytes valueBytes : Nat) :
    Option Nat := do
  let total ← accumulateHeaders limit request.headers 0
  let total ← accumulateContentType limit request.contentType total
  tryAccumulateRequestHeaderBytes limit nameBytes valueBytes total

/-- `request.headers.push_back({name, value})`, within the budget. -/
def appendHeader (maxHeaderBytes : UInt64) (request : HttpRequest) (name value : Bytes)
    (withinLimit : Bool) : Except ExecutionError HttpRequest := do
  throwIf (!withinLimit ||
      (headerBytesWith maxHeaderBytes.toNat request name.length value.length).isNone)
    headersOverBudget
  pure { request with headers := request.headers ++ [⟨name, value⟩] }

def appendBearer (maxHeaderBytes : UInt64) (request : HttpRequest)
    (authorization : ScanAuthorization) : Except ExecutionError HttpRequest := do
  let token ← copyBearerToken authorization
  appendHeader maxHeaderBytes request (ascii "Authorization") (ascii "Bearer " ++ token)
    (token.length ≤ credentialByteLimit)

/-- `TryFormUrlEncodedSize`; the sizes here stay far from the end of 64 bits. -/
def formUrlEncodedSize (value : Bytes) : Nat :=
  (value.map fun b => if isUnreserved b || b == 0x20 then 1 else 3).sum

def appendQueryField (capacity : Nat → Nat) (placementName : Bytes) (request : HttpRequest)
    (value : Bytes) : Except ExecutionError HttpRequest := do
  throwIf (decide (credentialByteLimit < value.length))
    (resourceError "header_bytes" "api-key value exceeds its request-field limit")
  let separator := byte (if request.target.contains (byte '?') then '&' else '?')
  let growth := 1 + placementName.length + 1 + formUrlEncodedSize value
  throwIf (decide (8192 < request.target.length) || decide (8192 - request.target.length < growth))
    (resourceError "header_bytes" "REST request target exceeds its length limit")
  throwIf (!hasBoundedHttpStringCapacity (capacity (formUrlEncodedSize value))
      (UInt64.ofNat (formUrlEncodedSize value)))
    (resourceError "request_target" "form value exceeded its admitted capacity envelope")
  let encoded := formUrlEncode value
  throwIf (encoded.length != formUrlEncodedSize value)
    (resourceError "request_target" "form value exceeded its admitted capacity envelope")
  let finalSize := request.target.length + growth
  throwIf (!hasBoundedHttpStringCapacity (capacity finalSize) (UInt64.ofNat finalSize))
    (resourceError "authorization"
      "api-key query parameter exceeded its admitted capacity envelope")
  let replacement := request.target ++ separator :: (placementName ++ byte '=' :: encoded)
  throwIf (replacement.length != finalSize)
    (resourceError "authorization"
      "api-key query parameter exceeded its admitted capacity envelope")
  pure { request with target := replacement }

def appendApiKey (capacity : Nat → Nat) (maxHeaderBytes : UInt64) (credential : RequiredCredential)
    (request : HttpRequest) (authorization : ScanAuthorization) :
    Except ExecutionError HttpRequest := do
  let value ← copyApiKeyToken authorization
  if credential.headerPlacement then
    appendHeader maxHeaderBytes request credential.placementName value
      (value.length ≤ credentialByteLimit)
  else appendQueryField capacity credential.placementName request value

-- ---------------------------------------------------------------------------
-- Recognisers
-- ---------------------------------------------------------------------------

/-- `SameHeaders`; `reserved` is the header that the credential will take, if any. -/
def sameHeaders (actual expected : List HttpHeader) (reserved : Option Bytes) : Bool :=
  actual == expected &&
    actual.all fun header => !reserved.any fun name => equalsAsciiIgnoreCase header.name name

def isAdmittedRestRequest (capacity : Nat → Nat) (profile : AdmittedRestRequestProfile)
    (request : HttpRequest) (reserved : Option Bytes) : Except ExecutionError Bool := do
  let expected ← buildAdmittedRestRequest capacity profile
  pure (request.method == expected.method && request.scheme == expected.scheme &&
    request.host == expected.host && request.port == expected.port &&
    request.target == expected.target && request.body.isEmpty && request.contentType.isEmpty &&
    sameHeaders request.headers expected.headers reserved)

/-- The loop over the pages, for so many more of them. -/
def isPageTarget (capacity : Nat → Nat) (profile : AdmittedPaginatedRestRequestProfile)
    (target : Bytes) : Nat → UInt64 → Except ExecutionError Bool
  | 0, _ => pure false
  | remaining + 1, page => do
    let built ← buildAdmittedPaginatedRestPageRequest capacity profile page
    if built.target == target then pure true
    else if 0xFFFFFFFFFFFFFFFF - profile.pageIncrement < page then pure false
    else isPageTarget capacity profile target remaining (page + profile.pageIncrement)

def isAdmittedPaginatedRestRequest (capacity : Nat → Nat)
    (profile : AdmittedPaginatedRestRequestProfile) (request : HttpRequest)
    (reserved : Option Bytes) : Except ExecutionError Bool :=
  if request.method != profile.method || request.scheme != profile.scheme ||
      request.host != profile.host || request.port != profile.port || !request.body.isEmpty ||
      !request.contentType.isEmpty || !sameHeaders request.headers profile.headers reserved then
    pure false
  else isPageTarget capacity profile request.target profile.maxPages.toNat profile.firstPage

def isAdmittedGraphqlRequest (profile : AuthorizedGraphqlProfile) (request : HttpRequest) : Bool :=
  request.method == profile.method && request.scheme == profile.scheme &&
    request.host == profile.host && request.port == profile.port &&
    request.target == profile.path &&
    sameHeaders request.headers profile.headers (some (ascii "authorization")) &&
    !request.body.isEmpty && request.body.length ≤ profile.maxRequestBodyBytes.toNat &&
    request.contentType == ascii "application/json" &&
    isAdmittedGraphqlBody profile.toAdmittedGraphqlRequestProfile request.body

-- ---------------------------------------------------------------------------
-- Authenticators
-- ---------------------------------------------------------------------------

def outsideProfile (kind : String) : ExecutionError :=
  ⟨.policy, ascii "authorization",
    ascii (kind ++ " authorization is outside the admitted execution profile"), none⟩

namespace Bearer

def authorizeRest (capacity : Nat → Nat) (profile : AdmittedRestRequestProfile)
    (request : HttpRequest) (authorization : ScanAuthorization) :
    Except ExecutionError HttpRequest := do
  throwIf (!profile.credential.bearer) (outsideProfile "bearer")
  let admitted ← isAdmittedRestRequest capacity profile request (some (ascii "authorization"))
  throwIf (!admitted) (outsideProfile "bearer")
  appendBearer profile.headerBytes request authorization

def authorizePaginatedRest (capacity : Nat → Nat) (profile : AdmittedPaginatedRestRequestProfile)
    (request : HttpRequest) (authorization : ScanAuthorization) :
    Except ExecutionError HttpRequest := do
  throwIf (!profile.credential.bearer) (outsideProfile "bearer")
  let admitted ← isAdmittedPaginatedRestRequest capacity profile request
    (some (ascii "authorization"))
  throwIf (!admitted) (outsideProfile "bearer")
  appendBearer profile.headerBytes request authorization

def authorizeGraphql (profile : AuthorizedGraphqlProfile) (request : HttpRequest)
    (authorization : ScanAuthorization) : Except ExecutionError HttpRequest := do
  throwIf (!profile.requiresBearer || !isAdmittedGraphqlRequest profile request)
    (outsideProfile "bearer")
  appendBearer profile.headerBytes request authorization

end Bearer

namespace ApiKey

/-- Query placement reserves no header. -/
def reserved (credential : RequiredCredential) : Option Bytes :=
  if credential.headerPlacement then some credential.placementName else none

def authorizeRest (capacity : Nat → Nat) (profile : AdmittedRestRequestProfile)
    (request : HttpRequest) (authorization : ScanAuthorization) :
    Except ExecutionError HttpRequest := do
  throwIf (!profile.credential.apiKey) (outsideProfile "api-key")
  let admitted ← isAdmittedRestRequest capacity profile request (reserved profile.credential)
  throwIf (!admitted) (outsideProfile "api-key")
  appendApiKey capacity profile.headerBytes profile.credential request authorization

def authorizePaginatedRest (capacity : Nat → Nat) (profile : AdmittedPaginatedRestRequestProfile)
    (request : HttpRequest) (authorization : ScanAuthorization) :
    Except ExecutionError HttpRequest := do
  throwIf (!profile.credential.apiKey) (outsideProfile "api-key")
  let admitted ← isAdmittedPaginatedRestRequest capacity profile request
    (reserved profile.credential)
  throwIf (!admitted) (outsideProfile "api-key")
  appendApiKey capacity profile.headerBytes profile.credential request authorization

end ApiKey

end Cuac.Runtime.Authentication

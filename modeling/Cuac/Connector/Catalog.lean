import Cuac.Connector.Value

/-!
# The compiled catalog

The immutable values a compiled package hands to planning: relations with their
columns, inputs, predicate mappings and operations.

An enumeration with one value (the method `GET`, the encoding
`FORM_URLENCODED`, the operator `EQUALS`, the proof profile and the like) says
nothing, so its fields and the checks that they have that value are left out.
The encoding of a path segment is its source's. A declaration is a plain
structure here; `Cuac.Connector.Declaration` has the checks that the
constructors and the relation make.
-/

namespace Cuac.Connector

open Cuac.Lib

-- ---------------------------------------------------------------------------
-- Columns and inputs
-- ---------------------------------------------------------------------------

/-- Whether a column holds one value or an array of them. -/
inductive ColumnShape
  | scalar
  | array
  deriving DecidableEq, Repr

/-- A declared output column: its name, its logical type, and where the extractor finds it
in a record. -/
structure CompiledColumn where
  name : Bytes
  logicalType : Bytes
  nullable : Bool
  extractor : Bytes
  shape : ColumnShape
  elementType : ScalarKind
  elementNullable : Bool
  extractorSegments : List Bytes

/-- One SQL argument of a relation. An absent default, a NULL default and a
concrete one are three states. -/
structure CompiledRelationInput where
  name : Bytes
  type : ScalarKind
  nullable : Bool
  default : Option CompiledScalarValue

-- ---------------------------------------------------------------------------
-- Predicate mappings
-- ---------------------------------------------------------------------------

/-- What the provider promises about the rows a mapped predicate leaves: exactly the
matching ones, or at least those. -/
inductive PredicateAccuracy
  | exact
  | superset
  deriving DecidableEq, Repr

/-- Which occurrences of a row survive when the provider filters: all of the matching ones,
or exactly those. -/
inductive OccurrencePreservation
  | allMatchingBaseOccurrences
  | exactMatchingBaseOccurrences
  deriving DecidableEq, Repr

/-- One conditional request input: `columnName = typedLiteral` may be sent as the
input `remoteInputName` of one operation. -/
structure CompiledPredicateMapping where
  name : Bytes
  columnName : Bytes
  typedLiteral : CompiledScalarValue
  operationName : Bytes
  remoteInputName : Bytes
  encodedRemoteValue : Bytes
  accuracy : PredicateAccuracy
  proofIdentityValue : Bytes
  baseDomainValue : Bytes
  matchingFixture : Bytes
  falseOrNullFixture : Bytes
  duplicatesFixture : Bytes
  occurrencePreservation : OccurrencePreservation

-- ---------------------------------------------------------------------------
-- Operations
-- ---------------------------------------------------------------------------

inductive UrlScheme
  | http
  | https
  deriving DecidableEq, Repr

/-- The scheme, host and port a request goes to; two destinations are the same when all
three agree. -/
structure HttpOrigin where
  scheme : UrlScheme
  host : Bytes
  port : UInt16
  deriving DecidableEq

/-- A header line that an operation declares with its fixed value. -/
structure HttpHeader where
  name : Bytes
  value : Bytes
  deriving DecidableEq

/-- Where the value of a declared query parameter comes from when a request is built. -/
inductive QueryValueSource
  | fixed
  | relationInput
  | conditionalInput
  | pageSize
  | pageNumber
  deriving DecidableEq, Repr

/-- One ordered query field of a REST request. -/
structure CompiledQueryParameter where
  name : Bytes
  encodedValue : Bytes
  source : QueryValueSource
  sourceId : Bytes
  omitWhenUnbound : Bool
  omitWhenNull : Bool
  decodedValue : Option CompiledScalarValue

/-- One slot of a request path: bytes of the package, or an input by name. -/
inductive CompiledRestPathSegment
  | literal (value : Bytes)
  | relationInput (id : Bytes) (type : ScalarKind)

/-- The request a REST operation declares: origin, path, query parameters and headers,
before any value is bound. -/
structure CompiledRestRequest where
  origin : HttpOrigin
  path : Bytes
  pathSegments : List CompiledRestPathSegment
  queryParameters : List CompiledQueryParameter
  headers : List HttpHeader

/-- How the next page of a REST operation is found; `disabled` stands for a single request. -/
inductive PaginationStrategy
  | disabled
  | linkHeader
  | responseNextUrl
  | shortPage
  deriving DecidableEq, Repr

/-- The page declaration of a REST operation; every other field is empty or zero
where the strategy is `disabled`. -/
structure CompiledPagination where
  strategy : PaginationStrategy
  pageSizeParameter : Bytes
  pageSize : Nat
  pageNumberParameter : Bytes
  firstPage : Nat
  pageIncrement : Nat
  maxPagesPerScan : Nat
  nextUrlPath : Bytes

/-- Where the rows stand in a response: at many matches of a path, in a root array, or as
one root object. -/
inductive ResponseSource
  | jsonPathMany
  | rootArray
  | rootObject
  deriving DecidableEq, Repr

/-- A REST operation: its request, its pagination and the place of the records in a response. -/
structure CompiledRestOperation where
  retryEnabled : Bool
  pagination : CompiledPagination
  request : CompiledRestRequest
  responseSource : ResponseSource
  recordsExtractor : Bytes
  recordsExtractorSegments : List Bytes

/-- The bounds of a cursor pagination; the cursor itself is read from the response. -/
structure GraphqlCursorPagination where
  pageSize : Nat
  maxPagesPerScan : Nat

/-- A GraphQL operation, as far as planning passes it on. Its recipe, variables
and response paths enter the planner only through its profile check. -/
structure CompiledGraphqlOperation where
  document : Bytes
  documentDigest : Bytes
  endpointOrigin : HttpOrigin
  endpointPath : Bytes
  cursor : GraphqlCursorPagination
  maxSerializedRequestBodyBytesPerRequest : Nat
  maxSerializedRequestBodyBytesPerScan : Nat
  retryEnabled : Bool

/-- The two protocols an operation can be declared for. -/
inductive CompiledProtocolOperation
  | rest (operation : CompiledRestOperation)
  | graphql (operation : CompiledGraphqlOperation)

/-- How many rows an operation that succeeds may return. -/
inductive OperationCardinality
  | zeroToMany
  | exactlyOneOnSuccess
  deriving DecidableEq, Repr

/-- What may be assumed about sending the operation's request a second time. -/
inductive ReplayClass
  | nonReplayable
  | replayableRead
  | replayableWithIdempotencyMechanism
  | unknown
  deriving DecidableEq, Repr

/-- What a package recommends about retries; a host policy can only narrow it. -/
structure CompiledRetryRecommendation where
  maxAttemptsPerStep : Nat
  maxDelayMilliseconds : Nat
  maxCumulativeWaitingMillisecondsPerScan : Nat

/-- A recommendation of at most one attempt recommends no retry. -/
def CompiledRetryRecommendation.enabled (retry : CompiledRetryRecommendation) : Bool :=
  1 < retry.maxAttemptsPerStep

/-- What a scan does when the provider reports its rate limit: give up, wait, or wait if the
deadline leaves time. -/
inductive RateLimitMode
  | fail
  | wait
  | waitIfDeadlineAllows
  deriving DecidableEq, Repr

/-- Whether a bucket belongs to one credential's authority or is shared by all of them. -/
inductive RateLimitPrincipalScope
  | credentialAuthority
  | shared
  deriving DecidableEq, Repr

/-- The three ways in which a guidance header can name the time at which to try again. -/
inductive RateLimitGuidanceFormat
  | retryAfter
  | deltaSeconds
  | unixSeconds
  deriving DecidableEq, Repr

/-- A header that the package declares to hold guidance, and the format to read it in. -/
structure RateLimitGuidance where
  headerName : Bytes
  format : RateLimitGuidanceFormat
  deriving DecidableEq

/-- The rate-limit policy of an operation, with the statuses and headers that announce the
limit. -/
structure CompiledRateLimitPolicy where
  declared : Bool
  mode : RateLimitMode
  statuses : List Nat
  operationFamily : Bytes
  scope : RateLimitPrincipalScope
  guidance : List RateLimitGuidance
  remainingQuotaHeader : Bytes
  remoteBucketHeader : Bytes
  maxAttemptsPerStep : Nat
  maxDelayMilliseconds : Nat
  maxCumulativeWaitingMillisecondsPerScan : Nat

/-- Waiting is enabled by a declared policy in one of the two waiting modes. -/
def CompiledRateLimitPolicy.waitingEnabled (policy : CompiledRateLimitPolicy) : Bool :=
  policy.declared && (policy.mode == .wait || policy.mode == .waitIfDeadlineAllows)

/-- An operation may require inputs of the relation and conditional inputs of its
predicate mappings; the two namespaces are distinct. -/
inductive RequiredInputReference
  | relationInput (id : Bytes)
  | conditionalInput (id : Bytes)
  deriving DecidableEq

/-- A base operation of a relation, with the selector that says which inputs it requires. -/
structure CompiledOperation where
  name : Bytes
  fallback : Bool
  cardinality : OperationCardinality
  selector : List RequiredInputReference
  protocolOperation : CompiledProtocolOperation
  replayClass : ReplayClass
  retryRecommendation : CompiledRetryRecommendation
  rateLimitPolicy : CompiledRateLimitPolicy

/-- `internal::OperationOrigin` -/
def CompiledOperation.origin (operation : CompiledOperation) : HttpOrigin :=
  match operation.protocolOperation with
  | .rest rest => rest.request.origin
  | .graphql graphql => graphql.endpointOrigin

-- ---------------------------------------------------------------------------
-- Relations and connectors
-- ---------------------------------------------------------------------------

/-- How a credential is presented: as a bearer token, as an API key, or not at all. -/
inductive Authenticator
  | none
  | bearer
  | apiKey
  deriving DecidableEq, Repr

/-- The place in the request at which the authenticator puts the credential. -/
inductive CredentialPlacement
  | none
  | authorizationHeader
  | headerNamed
  | queryNamed
  deriving DecidableEq, Repr

/-- The authentication a relation declares, with the destinations that may be sent the
credential. -/
structure CompiledAuthenticationPolicy where
  required : Bool
  logicalCredential : Bytes
  authenticator : Authenticator
  placement : CredentialPlacement
  placementName : Bytes
  destinations : List HttpOrigin

/-- Where a relation does not narrow the response bytes, the connector's ceiling
holds. -/
structure ResponseByteNarrowing where
  perPage : Nat
  perScan : Nat

/-- The ceilings a relation declares on the bytes, records and strings of a scan. -/
structure CompiledResourceCeilings where
  responseBytes : Option ResponseByteNarrowing
  maxRecordsPerPage : Nat
  maxRecordsPerScan : Nat
  maxExtractedStringBytes : Nat

/-- What a connector allows a request to reach: schemes, hosts, redirects and special
address ranges. -/
structure CompiledNetworkPolicy where
  allowedSchemes : List Bytes
  allowedHosts : List Bytes
  redirectsEnabled : Bool
  privateAddressesEnabled : Bool
  linkLocalAddressesEnabled : Bool
  loopbackAddressesEnabled : Bool
  maxResponseBytes : Nat
  allowedOrigins : List HttpOrigin

/-- A relation of a connector: its columns, inputs, predicate mappings and the operations
that can answer a scan. -/
structure CompiledRelation where
  name : Bytes
  columns : List CompiledColumn
  inputs : List CompiledRelationInput
  predicateMappings : List CompiledPredicateMapping
  operations : List CompiledOperation
  authentication : CompiledAuthenticationPolicy
  resourceCeilings : CompiledResourceCeilings

/-- A compiled connector package, as the planner receives it. -/
structure CompiledConnector where
  connectorName : Bytes
  version : Bytes
  relations : List CompiledRelation
  networkPolicy : CompiledNetworkPolicy

/-- The relation of the given name, the first one if a name were declared twice. -/
def CompiledConnector.findRelation (connector : CompiledConnector) (name : Bytes) :
    Option CompiledRelation :=
  connector.relations.find? fun relation => relation.name == name

end Cuac.Connector

import Cuac.Runtime.Authenticators
import Cuac.Runtime.LinkPagination

/-!
# Runtime — admission of a paginated REST scan

`HasSupportedRestPagination`, which runs after the request of the plan has been
materialized. Of the pages it looks at the first and the last only: their numbers
have to be signed 64-bit values, and a target with the first number has to leave
room for the digits that the last one has more.

The enumerations of the plan that have a single value are left out.
-/

namespace Cuac.Runtime.PageAdmission

open Cuac.Lib Cuac.Connector Cuac.Semantics Cuac.Runtime Cuac.Runtime.Authentication
open Cuac.Runtime.Pagination (PlannedPaginationStrategy)

-- ---------------------------------------------------------------------------
-- Budgets
-- ---------------------------------------------------------------------------

/-- The budgets of one page, as the plan carries them. -/
structure ResourceBudgets where
  requestAttempts : UInt64
  responseBytes : UInt64
  headerBytes : UInt64
  decompressedBytes : UInt64
  decodedRecords : UInt64
  extractedStringBytes : UInt64
  jsonNesting : UInt64
  decodedMemoryBytes : UInt64
  batchRows : UInt64
  wallMilliseconds : UInt64
  concurrency : UInt64
  serializedRequestBodyBytes : UInt64
  deriving DecidableEq, Repr

/-- The budgets of the whole scan, as the plan carries them. -/
structure ScanResourceBudgets where
  requestAttempts : UInt64
  pages : UInt64
  responseBytes : UInt64
  headerBytes : UInt64
  decompressedBytes : UInt64
  decodedRecords : UInt64
  extractedStringBytes : UInt64
  jsonNesting : UInt64
  decodedMemoryBytes : UInt64
  batchRows : UInt64
  wallMilliseconds : UInt64
  concurrency : UInt64
  serializedRequestBodyBytes : UInt64
  deriving DecidableEq, Repr

/-- `value > 0 && value <= maximum` -/
def isWithin (value maximum : UInt64) : Bool := 0 < value && value ≤ maximum

/-- The ceilings that the host sets to the budgets of a page. -/
def ResourceBudgets.isWithinPaginatedPageBounds (budgets : ResourceBudgets) : Bool :=
  isWithin budgets.requestAttempts 3 && isWithin budgets.responseBytes 8388608 &&
    isWithin budgets.headerBytes 16384 && isWithin budgets.decompressedBytes 8388608 &&
    isWithin budgets.decodedRecords 100 && isWithin budgets.extractedStringBytes 512 &&
    isWithin budgets.jsonNesting 16 && isWithin budgets.decodedMemoryBytes 2097152 &&
    isWithin budgets.batchRows 64 && isWithin budgets.wallMilliseconds 30000 &&
    budgets.concurrency == 1 && budgets.serializedRequestBodyBytes ≤ 16384

/-- The ceilings that the host sets to the budgets of a scan. -/
def ScanResourceBudgets.isWithinPaginatedScanBounds (budgets : ScanResourceBudgets) : Bool :=
  budgets.pages ≤ budgets.requestAttempts && isWithin budgets.pages 32 &&
    budgets.requestAttempts ≤ 96 && budgets.requestAttempts ≤ budgets.pages * 3 &&
    isWithin budgets.responseBytes 67108864 && isWithin budgets.headerBytes 524288 &&
    isWithin budgets.decompressedBytes 67108864 && isWithin budgets.decodedRecords 3200 &&
    isWithin budgets.extractedStringBytes 512 && isWithin budgets.jsonNesting 16 &&
    isWithin budgets.decodedMemoryBytes 2097152 && isWithin budgets.batchRows 64 &&
    isWithin budgets.wallMilliseconds 30000 && budgets.concurrency == 1 &&
    budgets.serializedRequestBodyBytes ≤ 262144

-- ---------------------------------------------------------------------------
-- The plan
-- ---------------------------------------------------------------------------

/-- The page parameters of the plan, and the target that a page has to keep. -/
structure PlannedPaginationTarget where
  origin : HttpOrigin
  path : Bytes
  pageSizeParameter : Bytes
  pageSize : UInt64
  pageNumberParameter : Bytes
  firstPage : UInt64
  pageIncrement : UInt64

/-- The pagination part of a plan. -/
structure PaginationPlan where
  strategy : PlannedPaginationStrategy
  supportsTotal : Bool
  supportsResume : Bool
  pageBudgets : ResourceBudgets
  scanBudgets : ScanResourceBudgets
  target : PlannedPaginationTarget

/-- A REST plan, as far as materialization and pagination read it. -/
structure ScanPlan [CLibrary] where
  operation : PlannedRestOperation
  obligation : AuthenticationObligation
  pagination : PaginationPlan
  budgets : ResourceBudgets

variable [CLibrary]

-- ---------------------------------------------------------------------------
-- The page's field
-- ---------------------------------------------------------------------------

/-- The loops over the fields and the bindings: each page found takes back one found
before. -/
def pageFound {α : Type} (isPage good : α → Bool) (found : Bool) : List α → Bool
  | [] => found
  | a :: rest => pageFound isPage good (if isPage a then !found && good a else found) rest

/-- The value bound to the page parameter is the first page. -/
def isFirstPage (target : PlannedPaginationTarget) : Scalar → Bool
  | .bigint value => decide (0 < value.toInt) && value.toInt == target.firstPage.toNat
  | _ => false

/-- The page parameters of the plan stand among the query parameters, bound as the plan says. -/
def hasPageBindings (plan : ScanPlan) (query : List AdmittedQueryParameter) : Bool :=
  let target := plan.pagination.target
  if plan.operation.resultColumns.isEmpty then
    pageFound (fun parameter => parameter.name == target.pageNumberParameter)
      (fun parameter => parameter.encodedValue == decimal target.firstPage.toNat) false query
  else
    pageFound (fun binding => binding.fields.source == .pageNumber)
      (fun binding => binding.fields.name == target.pageNumberParameter &&
        isFirstPage target binding.fields.value) false plan.operation.queryBindings

/-- The longest target of the scan fits, which is the one of the last page. -/
def fitsEveryPageTarget (plan : ScanPlan) (query : List AdmittedQueryParameter) : Bool :=
  let target := plan.pagination.target
  let lastPage := target.firstPage + (plan.pagination.scanBudgets.pages - 1) * target.pageIncrement
  let firstPageBytes := (decimal target.firstPage.toNat).length
  let lastPageBytes := (decimal lastPage.toNat).length
  let pageGrowthBytes := if firstPageBytes < lastPageBytes then lastPageBytes - firstPageBytes else 0
  fitsRestRequestTarget plan.operation.path query pageGrowthBytes

omit [CLibrary] in
/-- Every page number of the scan is a positive signed 64-bit value. -/
def isSignedBigintPageSequence (firstPage pageIncrement pageCount : UInt64) : Bool :=
  decide (0 < pageCount) && decide (0 < pageIncrement) &&
    decide (firstPage ≤ 0x7FFFFFFFFFFFFFFF) &&
    decide (pageCount - 1 ≤ (0x7FFFFFFFFFFFFFFF - firstPage) / pageIncrement)

-- ---------------------------------------------------------------------------
-- Admission
-- ---------------------------------------------------------------------------

/-- The operation is one that pages can be asked of. -/
def hasPaginatedOperation (plan : ScanPlan) : Bool :=
  plan.operation.cardinality == .zeroToMany &&
    (plan.operation.responseSource == .rootArray ||
      plan.operation.responseSource == .jsonPathMany) &&
    (plan.pagination.strategy == .linkHeader || plan.pagination.strategy == .responseNextUrl ||
      plan.pagination.strategy == .shortPage)

/-- The budgets lie within the host's bounds. -/
def hasPageBudgets (plan : ScanPlan) (maxDecodedRecords : UInt64) : Bool :=
  !plan.pagination.supportsTotal && !plan.pagination.supportsResume &&
    plan.pagination.pageBudgets.isWithinPaginatedPageBounds &&
    plan.pagination.scanBudgets.isWithinPaginatedScanBounds &&
    plan.pagination.pageBudgets.serializedRequestBodyBytes == 0 &&
    plan.pagination.scanBudgets.serializedRequestBodyBytes == 0 &&
    decide (plan.budgets = plan.pagination.pageBudgets) &&
    plan.pagination.pageBudgets.decodedRecords ≤ maxDecodedRecords

/-- The target of the plan is the one of its operation, with safe parameter names and page numbers
that stay positive. -/
def hasPageTarget (plan : ScanPlan) : Bool :=
  let target := plan.pagination.target
  let hasPageSize := !target.pageSizeParameter.isEmpty
  !(plan.pagination.strategy == .shortPage && !hasPageSize) &&
    target.origin == plan.operation.origin && target.path == plan.operation.path &&
    isSafeEncodedQueryName target.pageNumberParameter && target.firstPage != 0 &&
    target.pageIncrement != 0 && plan.pagination.scanBudgets.pages != 0 &&
    target.firstPage ≤ 0x7FFFFFFFFFFFFFFF &&
    isSignedBigintPageSequence target.firstPage target.pageIncrement
      plan.pagination.scanBudgets.pages &&
    !(hasPageSize && (!isSafeEncodedQueryName target.pageSizeParameter ||
      target.pageSizeParameter == target.pageNumberParameter || target.pageSize == 0 ||
      target.pageSize > 0x7FFFFFFFFFFFFFFF))

/-- One page fits the budgets of the scan, whose attempts are enough for one on each page and not
more than all its pages have. -/
def hasCoherentBudgets (plan : ScanPlan) : Bool :=
  let page := plan.pagination.pageBudgets
  let scan := plan.pagination.scanBudgets
  page.requestAttempts != 0 && scan.pages ≤ 0xFFFFFFFFFFFFFFFF / page.requestAttempts &&
    scan.pages ≤ scan.requestAttempts && scan.requestAttempts ≤ scan.pages * page.requestAttempts &&
    page.responseBytes ≤ scan.responseBytes && page.headerBytes ≤ scan.headerBytes &&
    page.decompressedBytes ≤ scan.decompressedBytes && page.decodedRecords ≤ scan.decodedRecords &&
    page.decodedMemoryBytes ≤ scan.decodedMemoryBytes

/-- All that a plan must satisfy before its first page is asked for. -/
def hasSupportedRestPagination (plan : ScanPlan) (maxDecodedRecords : UInt64)
    (query : List AdmittedQueryParameter) : Bool :=
  hasPaginatedOperation plan && hasPageBudgets plan maxDecodedRecords && hasPageTarget plan &&
    hasPageBindings plan query && fitsEveryPageTarget plan query && hasCoherentBudgets plan

/-- `HasPaginatedShape`, less the checks on the authority, the resilience and the
network: what a plan is admitted with. -/
def hasPaginatedShape (plan : ScanPlan) (conditional : RestConditionalBindingAuthority)
    (maxDecodedRecords : UInt64) : Except Fault (Option MaterializedRestRequest) := do
  match ← tryMaterializeRestRequest plan.operation plan.obligation conditional
      plan.budgets.headerBytes with
  | none => pure none
  | some request =>
    pure (if hasSupportedRestPagination plan maxDecodedRecords request.query then some request
      else none)

end Cuac.Runtime.PageAdmission

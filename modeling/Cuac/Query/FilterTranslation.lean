import Cuac.Connector.Timestamptz
import Cuac.Connector.Catalog
import Cuac.Query.ScanRequest

/-!
# Translation of DuckDB's filters

DuckDB hands the filters of a scan to `TranslateComplexFilters` as bound expressions.
Equalities of a column with a literal and their Boolean combinations become a requested
predicate; every other expression becomes an opaque leaf. The whole tree shares one
budget of nodes, and an expression that does not fit becomes opaque as a whole.

A null pointer is `none`. Of an expression only what the adapter reads is kept.
-/

namespace Cuac.Query

open Cuac.Lib Cuac.Connector

-- ---------------------------------------------------------------------------
-- Bound expressions
-- ---------------------------------------------------------------------------

/-- The column types of the database, those that the planner knows by name. -/
inductive LogicalType
  | bigint
  | varchar
  | boolean
  | double
  | timestampTz
  | other (id : Nat)
  deriving DecidableEq, Repr

/-- A DuckDB value: NULL of a type, a value of a type that predicates know, or another one. -/
inductive DuckdbValue
  | null (type : LogicalType)
  | scalar (value : Scalar)
  | other (type payload : Nat)
  deriving DecidableEq

/-- The database type of a scalar. -/
def ScalarKind.logicalType : ScalarKind → LogicalType
  | .boolean => .boolean
  | .bigint => .bigint
  | .varchar => .varchar
  | .double => .double
  | .timestamptz => .timestampTz

/-- A value has a type even when it is NULL. -/
def DuckdbValue.type : DuckdbValue → LogicalType
  | .null type => type
  | .scalar value => ScalarKind.logicalType value.kind
  | .other type _ => .other type

/-- The comparisons, of which only equality is translated. -/
inductive ComparisonType
  | equal
  | other (id : Nat)
  deriving DecidableEq, Repr

/-- The two conjunctions, and what else the node can stand for. -/
inductive ConjunctionType
  | and
  | or
  | other (id : Nat)
  deriving DecidableEq, Repr

/-- The operators, of which only negation is translated. -/
inductive OperatorType
  | not
  | other (id : Nat)
  deriving DecidableEq, Repr

/-- A bound filter expression of the database. -/
inductive Expression
  | columnRef (returnType : LogicalType) (depth tableIndex columnIndex : Nat)
  | constant (returnType : LogicalType) (value : DuckdbValue)
  | comparison (type : ComparisonType) (returnType : LogicalType) (left right : Expression)
  | conjunction (type : ConjunctionType) (returnType : LogicalType)
      (children : List (Option Expression))
  | operator (type : OperatorType) (returnType : LogicalType) (children : List (Option Expression))
  | other (returnType : LogicalType) (id : Nat)

/-- One entry of `GetColumnIds`. -/
structure ColumnId where
  primaryIndex : Nat
  isVirtualColumn : Bool
  deriving DecidableEq, Repr

/-- The scan that the expressions are bound to. -/
structure LogicalGet where
  names : List Bytes
  returnedTypes : List LogicalType
  tableIndex : Nat
  columnIds : List ColumnId
  deriving DecidableEq, Repr

-- ---------------------------------------------------------------------------
-- Comparisons
-- ---------------------------------------------------------------------------

/-- The scalar kind of a database type that has one. -/
def requestedType : LogicalType → Option ScalarKind
  | .bigint => some .bigint
  | .varchar => some .varchar
  | .boolean => some .boolean
  | .double => some .double
  | .timestampTz => some .timestamptz
  | .other _ => none

/-- The declared column behind a position of the scan. -/
def declaredIndex (get : LogicalGet) (columnIndex : Nat) : Option Nat :=
  match get.columnIds with
  | [] => if columnIndex = 0 then some 0 else none
  | ids =>
    match ids[columnIndex]? with
    | none => none
    | some id => if id.isVirtualColumn then none else some id.primaryIndex

/-- A reference to a column of this scan, with its place and kind. -/
def resolveBoundColumn (get : LogicalGet) : Expression → Option (Nat × ScalarKind)
  | .columnRef returnType depth tableIndex columnIndex =>
    if get.names.isEmpty || get.names.length ≠ get.returnedTypes.length then none
    else if depth ≠ 0 || tableIndex ≠ get.tableIndex then none
    else
      match declaredIndex get columnIndex with
      | none => none
      | some index =>
        if get.returnedTypes[index]? = some returnType then
          (requestedType returnType).map fun kind => (index, kind)
        else none
  | _ => none

/-- The named constructors of `RequestedPredicateValue`. -/
def requestedValue : Scalar → Except Fault Scalar
  | .double value => pure (.double value.normalizeZero)
  | .timestamptz microseconds => do
    throwIf (!isTimestamptzMicroseconds microseconds)
      (invalidArgument "requested TIMESTAMPTZ predicate is outside the CUAC profile")
    pure (.timestamptz microseconds)
  | value => pure value

/-- The literal range that the adapter checks itself. -/
def literalInRange : Scalar → Bool
  | .timestamptz microseconds =>
    -62135596800000000 ≤ microseconds.toInt && microseconds.toInt ≤ 253402300799999999
  | _ => true

/-- A constant of just the expected kind. -/
def requestedLiteral (expected : ScalarKind) : Expression → Except Fault (Option Scalar)
  | .constant returnType (.scalar value) =>
    if ScalarKind.logicalType value.kind ≠ returnType then pure none
    else if value.kind ≠ expected then pure none
    else if !literalInRange value then pure none
    else some <$> requestedValue value
  | _ => pure none

/-- `RequestedPredicate::Comparison` with its operator `EQUALS`. -/
def comparisonNode (index : Nat) (type : ScalarKind) (literal : Scalar) :
    Except Fault RequestedPredicate := do
  throwIf (type != literal.kind)
    (invalidArgument "requested predicate comparison column and literal types disagree")
  pure (.comparison index type literal)

/-- One orientation of the equality. -/
def columnAndLiteral (get : LogicalGet) (column literal : Expression) :
    Except Fault (Option (Nat × ScalarKind × Scalar)) :=
  match resolveBoundColumn get column with
  | none => pure none
  | some (index, kind) => do
    let value ← requestedLiteral kind literal
    pure (value.map fun value => (index, kind, value))

/-- An equality of a column and a constant, either way round. -/
def translateComparison (get : LogicalGet) : Expression → Except Fault (Option RequestedPredicate)
  | .comparison .equal .boolean left right => do
    let forward ← columnAndLiteral get left right
    let found ← match forward with
      | some found => pure (some found)
      | none => columnAndLiteral get right left
    match found with
    | none => pure none
    | some (index, kind, literal) => some <$> comparisonNode index kind literal
  | _ => pure none

-- ---------------------------------------------------------------------------
-- Boolean nodes
-- ---------------------------------------------------------------------------

/-- The loop of `BooleanNode` over its children. -/
def measureChildren : Nat → Nat → List RequestedPredicate → Except Fault (Nat × Nat)
  | depth, nodeCount, [] => pure (depth, nodeCount)
  | depth, nodeCount, child :: rest => do
    throwIf (decide (maxRequestedPredicateNodes - nodeCount < child.nodeCount))
      (invalidArgument "requested predicate exceeds its node limit")
    measureChildren (max depth (child.depth + 1)) (nodeCount + child.nodeCount) rest

/-- A connective of the request, which has to stay within its bounds. -/
def booleanNode (node : List RequestedPredicate → RequestedPredicate)
    (children : List RequestedPredicate) : Except Fault RequestedPredicate := do
  throwIf (decide (children.length < 2))
    (invalidArgument "requested predicate Boolean node requires at least two children")
  let (depth, nodeCount) ← measureChildren 1 1 children
  throwIf (decide (maxRequestedPredicateDepth < depth) ||
      decide (maxRequestedPredicateNodes < nodeCount))
    (invalidArgument "requested predicate exceeds its structural limits")
  pure (node children)

def conjunctionNode : List RequestedPredicate → Except Fault RequestedPredicate :=
  booleanNode .conjunction

def disjunctionNode : List RequestedPredicate → Except Fault RequestedPredicate :=
  booleanNode .disjunction

/-- A negation of the request, which has to stay within its bounds. -/
def negationNode (child : RequestedPredicate) : Except Fault RequestedPredicate := do
  throwIf (decide (maxRequestedPredicateDepth < child.depth + 1) ||
      decide (maxRequestedPredicateNodes < child.nodeCount + 1))
    (invalidArgument "requested predicate negation exceeds its structural limits")
  pure (.negation child)

-- ---------------------------------------------------------------------------
-- Translation
-- ---------------------------------------------------------------------------

/-- What the translation has used of its budget, and the next place to mark. -/
structure TranslationState where
  nodeCount : Nat
  nextPosition : UInt64
  exceededBudget : Bool
  deriving DecidableEq, Repr

/-- A translated expression and whether all of it was read. -/
structure TranslationResult where
  candidate : RequestedPredicate
  complete : Bool

/-- A marked place for what is not translated. -/
def unsupported (position : UInt64) : TranslationResult := ⟨.unsupported position, false⟩

mutual

/-- One expression, translated as far as it can be read. -/
def translateExpression (get : LogicalGet) (expression : Expression) (depth : Nat)
    (state : TranslationState) : Except Fault (TranslationResult × TranslationState) :=
  let position := state.nextPosition
  let state := { state with nextPosition := position + 1 }
  if maxRequestedPredicateDepth < depth || maxRequestedPredicateNodes ≤ state.nodeCount then
    pure (unsupported position, { state with exceededBudget := true })
  else do
    let state := { state with nodeCount := state.nodeCount + 1 }
    match ← translateComparison get expression with
    | some comparison => pure (⟨comparison, true⟩, state)
    | none =>
      match expression with
      | .conjunction .and _ children => do
        if children.length < 2 then pure (unsupported position, state)
        else
          match ← translateChildren get children (depth + 1) state with
          | (none, state) => pure (unsupported position, state)
          | (some (children, complete), state) =>
            let candidate ← conjunctionNode children
            pure (⟨candidate, complete⟩, state)
      | .conjunction .or _ children => do
        if children.length < 2 then pure (unsupported position, state)
        else
          match ← translateChildren get children (depth + 1) state with
          | (none, state) => pure (unsupported position, state)
          | (some (children, complete), state) =>
            let candidate ← disjunctionNode children
            pure (⟨candidate, complete⟩, state)
      | .operator .not _ children => do
        match ← translateOnly get children (depth + 1) state with
        | (none, state) => pure (unsupported position, state)
        | (some translated, state) =>
          let candidate ← negationNode translated.candidate
          pure (⟨candidate, translated.complete⟩, state)
      | _ => pure (unsupported position, state)

/-- The loop over the children: `none` where it returns early. -/
def translateChildren (get : LogicalGet) (children : List (Option Expression)) (depth : Nat)
    (state : TranslationState) :
    Except Fault (Option (List RequestedPredicate × Bool) × TranslationState) :=
  match children with
  | [] => pure (some ([], true), state)
  | child :: rest => do
    match ← translateChild get child depth state with
    | (none, state) => pure (none, state)
    | (some translated, state) =>
      let (others, state) ← translateChildren get rest depth state
      pure (others.map fun (children, complete) =>
        (translated.candidate :: children, translated.complete && complete), state)

/-- The only child of a negation. -/
def translateOnly (get : LogicalGet) (children : List (Option Expression)) (depth : Nat)
    (state : TranslationState) : Except Fault (Option TranslationResult × TranslationState) :=
  match children with
  | [child] => translateChild get child depth state
  | _ => pure (none, state)

/-- A child that is missing, or that exceeds the budget, makes its parent opaque. -/
def translateChild (get : LogicalGet) (child : Option Expression) (depth : Nat)
    (state : TranslationState) : Except Fault (Option TranslationResult × TranslationState) :=
  match child with
  | none => pure (none, state)
  | some child => do
    let (translated, state) ← translateExpression get child depth state
    pure (if state.exceededBudget then none else some translated, state)

end

/-- The loop over the filters that are present. -/
def translateFilters (get : LogicalGet) (filters : List Expression) (depth : Nat)
    (state : TranslationState) :
    Except Fault (Option (List RequestedPredicate × Bool) × TranslationState) :=
  match filters with
  | [] => pure (some ([], true), state)
  | filter :: rest => do
    match ← translateChild get (some filter) depth state with
    | (none, state) => pure (none, state)
    | (some translated, state) =>
      let (others, state) ← translateFilters get rest depth state
      pure (others.map fun (children, complete) =>
        (translated.candidate :: children, translated.complete && complete), state)

/-- The translated filters and how much of them the database keeps. -/
structure ComplexFilterTranslation where
  candidate : RequestedPredicate
  retainedScope : RetainedPredicateScope

/-- The filters of a scan, taken as one conjunction. -/
def translateComplexFilters (get : LogicalGet) (filters : List (Option Expression)) :
    Except Fault ComplexFilterTranslation := do
  let present := filters.filterMap id
  if present.length = 0 then pure ⟨.unrestricted, .unrestricted⟩
  else
    let state : TranslationState := ⟨if 1 < present.length then 1 else 0, 0, false⟩
    if maxRequestedPredicateNodes < state.nodeCount then
      pure ⟨.unsupported 0, .completeDuckdbFilter⟩
    else
      match ← translateFilters get present (if 1 < present.length then 2 else 1) state with
      | (none, _) => pure ⟨.unsupported 0, .completeDuckdbFilter⟩
      | (some (translated, complete), _) =>
        let candidate ← match translated with
          | [candidate] => pure candidate
          | translated => conjunctionNode translated
        pure ⟨candidate, if complete then .requestedPredicate else .completeDuckdbFilter⟩

-- ---------------------------------------------------------------------------
-- The planner's check
-- ---------------------------------------------------------------------------

/-- A request that asks the provider for nothing. -/
def ScanRequest.isConservative (request : ScanRequest) (connectorName : Bytes)
    (relation : CompiledRelation) : Bool :=
  request.connectorName == connectorName && request.relationName == relation.name &&
    request.projectedColumns == relation.columns.map (·.name) && request.orderings.isEmpty &&
    !request.hasLimit && !request.hasOffset && !request.capabilities.projection &&
    !request.capabilities.filter && !request.capabilities.ordering &&
    !request.capabilities.limit && !request.capabilities.offset &&
    !request.capabilities.progress && request.capabilities.cancellation

/-- `ValidateRequest` of the scan planner. -/
def validateRequest (connectorName : Bytes) (relation : CompiledRelation) (request : ScanRequest) :
    Except Fault Unit := do
  throwIf (!request.isConservative connectorName relation)
    (logicError "planner received a non-conservative scan request for the selected relation")
  let unrestricted := request.requestedPredicate.isUnrestricted
  throwIf ((unrestricted && request.retainedPredicateScope == .requestedPredicate) ||
      (!unrestricted && request.retainedPredicateScope == .unrestricted))
    (logicError "planner received contradictory requested and retained predicate states")
  throwIf (!unrestricted && request.retainedPredicateScope == .completeDuckdbFilter &&
      !request.requestedPredicate.containsOpaque)
    (logicError "fully represented candidate contradicts its opaque complete-filter scope")

end Cuac.Query

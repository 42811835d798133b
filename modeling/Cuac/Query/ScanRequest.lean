import Cuac.Connector.Value

/-!
# Scan requests

What Query hands to planning: the explicit inputs of a scan, the structure it
could translate from DuckDB's filter, and what the adapter can do.

A requested predicate is a tree over typed equality comparisons, with opaque
leaves where Query could not translate. Its depth and its number of nodes are
bounded; both are recomputed here where the source caches them in each node.
-/

namespace Cuac.Query

open Cuac.Lib Cuac.Connector

-- ---------------------------------------------------------------------------
-- Predicates
-- ---------------------------------------------------------------------------

/-- The depth up to which a predicate is taken over from a scan. -/
def maxRequestedPredicateDepth : Nat := 16
/-- The number of nodes up to which a predicate is taken over from a scan. -/
def maxRequestedPredicateNodes : Nat := 64

/-- The predicate of a scan as the planner sees it; what it cannot read is marked. -/
inductive RequestedPredicate
  | unrestricted
  | comparison (boundColumnIndex : Nat) (boundColumnType : ScalarKind) (literal : Scalar)
  | conjunction (children : List RequestedPredicate)
  | disjunction (children : List RequestedPredicate)
  | negation (child : RequestedPredicate)
  | unsupported (position : UInt64)

namespace RequestedPredicate

mutual

def depth : RequestedPredicate → Nat
  | unrestricted => 1
  | comparison _ _ _ => 1
  | conjunction children => max 1 (deepest children + 1)
  | disjunction children => max 1 (deepest children + 1)
  | negation child => child.depth + 1
  | unsupported _ => 1

def deepest : List RequestedPredicate → Nat
  | [] => 0
  | child :: rest => max child.depth (deepest rest)

end

mutual

/-- The leaves and connectives of a predicate. -/
def nodeCount : RequestedPredicate → Nat
  | unrestricted => 1
  | comparison _ _ _ => 1
  | conjunction children => nodeCounts children + 1
  | disjunction children => nodeCounts children + 1
  | negation child => child.nodeCount + 1
  | unsupported _ => 1

def nodeCounts : List RequestedPredicate → Nat
  | [] => 0
  | child :: rest => child.nodeCount + nodeCounts rest

end

mutual

/-- Same shape and same leaves; literals compare as `RequestedPredicateValue` does. -/
def structurallyEquals : RequestedPredicate → RequestedPredicate → Bool
  | unrestricted, unrestricted => true
  | comparison i t a, comparison j u b => i == j && t == u && a.same b
  | conjunction xs, conjunction ys => allStructurallyEqual xs ys
  | disjunction xs, disjunction ys => allStructurallyEqual xs ys
  | negation x, negation y => structurallyEquals x y
  | unsupported m, unsupported n => m == n
  | _, _ => false

def allStructurallyEqual : List RequestedPredicate → List RequestedPredicate → Bool
  | [], [] => true
  | x :: xs, y :: ys => structurallyEquals x y && allStructurallyEqual xs ys
  | _, _ => false

end

mutual

/-- `ContainsOpaqueUnsupportedPosition` -/
def containsOpaque : RequestedPredicate → Bool
  | unsupported _ => true
  | conjunction children => anyContainsOpaque children
  | disjunction children => anyContainsOpaque children
  | negation child => child.containsOpaque
  | unrestricted => false
  | comparison _ _ _ => false

def anyContainsOpaque : List RequestedPredicate → Bool
  | [] => false
  | child :: rest => child.containsOpaque || anyContainsOpaque rest

end

/-- The predicate that asks for nothing. -/
def isUnrestricted : RequestedPredicate → Bool
  | unrestricted => true
  | _ => false

end RequestedPredicate

/-- What DuckDB will still evaluate itself. -/
inductive RetainedPredicateScope
  | unrestricted
  | requestedPredicate
  | completeDuckdbFilter
  deriving DecidableEq, Repr

-- ---------------------------------------------------------------------------
-- Requests
-- ---------------------------------------------------------------------------

/-- One supplied argument. NULL is a supplied value; omission is absence. -/
structure ExplicitInput where
  identifier : Bytes
  kind : ScalarKind
  value : Option Scalar
  typed : ∀ v ∈ value, v.kind = kind

/-- What the adapter reports that it can hand down. -/
structure AdapterCapabilities where
  projection : Bool
  filter : Bool
  selectivePredicate : Bool
  retainsPredicate : Bool
  ordering : Bool
  limit : Bool
  offset : Bool
  progress : Bool
  cancellation : Bool
  secretManager : Bool

/-- The package generation that the scan was bound to. -/
structure ScanGenerationIdentity where
  specIdentifier : Bytes
  connectorId : Bytes
  packageVersion : Bytes
  packageDigest : Bytes

/-- The request that the planner receives for one scan. -/
structure ScanRequest where
  connectorName : Bytes
  relationName : Bytes
  explicitInputs : List ExplicitInput
  projectedColumns : List Bytes
  requestedPredicate : RequestedPredicate
  retainedPredicateScope : RetainedPredicateScope
  orderings : List Bytes
  hasLimit : Bool
  hasOffset : Bool
  capabilities : AdapterCapabilities
  secretReference : Option Bytes
  generationIdentity : ScanGenerationIdentity

end Cuac.Query

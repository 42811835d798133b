import Cuac.Lib.Kleene
import Cuac.Semantics.PredicateClassifier

/-!
# Soundness of predicate pushdown

What a predicate means on a row, in SQL's three-valued logic, and what a remote
restriction means; a classification never loses a row that the whole predicate
selects, and calls itself exact only where the two mean the same.

A row is anything that has a value for each column name. An untranslated part of
the predicate may mean anything on a row, also where two of them carry the same
position number: its meaning is given by the path to it.

Main results:

* `truth_conjunctiveMatches` — a tree with nothing unmapped is the conjunction of
  its matches.
* `pushdown_sound` — the classification is sound.
-/

namespace Cuac.Predicate

open Cuac.Lib Cuac.Connector Cuac.Query Cuac.Semantics

-- ---------------------------------------------------------------------------
-- Equality of values
-- ---------------------------------------------------------------------------

/-- SQL equality of two values that are not NULL: DuckDB's NaN equals itself. -/
def sqlEqual (a b : Scalar) : Bool :=
  a.same b ||
    match a, b with
    | .double v, .double w => v.isNan && w.isNan
    | _, _ => false

theorem isZero_of_ieeeEq {a b : Double} (h : a.ieeeEq b = true) :
    a.isNan = false ∧ b.isNan = false ∧ (a = b ∨ (a.isZero = true ∧ b.isZero = true)) := by
  simpa [Double.ieeeEq, and_assoc] using h

theorem ieeeEq_congr {a b : Double} (h : a.ieeeEq b = true) (v : Double) :
    v.ieeeEq a = v.ieeeEq b := by
  obtain ⟨hna, hnb, rfl | ⟨hza, hzb⟩⟩ := isZero_of_ieeeEq h
  · rfl
  · -- a value equals a zero exactly when it is one
    have hzero : ∀ z : Double, z.isZero = true → ((v == z) || (v.isZero && z.isZero)) = v.isZero := by
      intro z hz
      rw [hz, Bool.and_true]
      by_cases hvz : v = z
      · rw [hvz, hz, Bool.or_true]
      · rw [beq_false_of_ne hvz, Bool.false_or]
    unfold Double.ieeeEq
    rw [hna, hnb, hzero a hza, hzero b hzb]

/-- Literals that the code calls the same select the same values. -/
theorem sqlEqual_congr {a b : Scalar} (h : a.same b = true) (v : Scalar) :
    sqlEqual v a = sqlEqual v b := by
  cases a with
  | double x =>
    cases b with
    | double y =>
      have heq : x.ieeeEq y = true := h
      obtain ⟨hnx, hny, -⟩ := isZero_of_ieeeEq heq
      cases v with
      | double w => simp only [sqlEqual, Scalar.same, ieeeEq_congr heq, hnx, hny, Bool.and_false]
      | _ => rfl
    | _ => cases h
  | boolean x => cases b <;> first | cases h | (simp only [Scalar.same, beq_iff_eq] at h; rw [h])
  | bigint x => cases b <;> first | cases h | (simp only [Scalar.same, beq_iff_eq] at h; rw [h])
  | varchar x => cases b <;> first | cases h | (simp only [Scalar.same, beq_iff_eq] at h; rw [h])
  | timestamptz x => cases b <;> first | cases h | (simp only [Scalar.same, beq_iff_eq] at h; rw [h])

/-- `value = literal` -/
def equals (value : Option Scalar) (literal : Scalar) : Truth :=
  match value with
  | some value => Truth.ofBool (sqlEqual value literal)
  | none => .unknown

theorem equals_congr {a b : Scalar} (h : a.same b = true) (value : Option Scalar) :
    equals value a = equals value b := by
  cases value with
  | none => rfl
  | some v => simp only [equals, sqlEqual_congr h]

-- ---------------------------------------------------------------------------
-- Meanings
-- ---------------------------------------------------------------------------

section Meaning

variable {ρ : Type} (columns : List CompiledColumn)
  (cell : ρ → Bytes → Option Scalar) (hidden : ρ → List Nat → Truth)

/-- The meaning of a comparison with a bound column. -/
def comparisonTruth (row : ρ) (index : Nat) (literal : Scalar) : Truth :=
  match columns[index]? with
  | some column => equals (cell row column.name) literal
  | none => .unknown

mutual

/-- The meaning of the predicate at `path`. -/
def truth (row : ρ) (path : List Nat) : RequestedPredicate → Truth
  | .unrestricted => .yes
  | .comparison index _ literal => comparisonTruth columns cell row index literal
  | .conjunction children => Truth.all (truths row path 0 children)
  | .disjunction children => Truth.any (truths row path 0 children)
  | .negation child => (truth row (0 :: path) child).not
  | .unsupported _ => hidden row path

/-- The meanings of the children from number `next` on. -/
def truths (row : ρ) (path : List Nat) (next : Nat) : List RequestedPredicate → List Truth
  | [] => []
  | child :: rest => truth row (next :: path) child :: truths row path (next + 1) rest

end

/-- The meaning of the equality that a mapping declares. -/
def mappingTruth (mapping : CompiledPredicateMapping) (row : ρ) : Truth :=
  match mapping.typedLiteral.value with
  | some literal => equals (cell row mapping.columnName) literal
  | none => .unknown

/-- What a remote system that honours a mapping's declaration may do with it: an
exact mapping is its equality, a superset mapping is implied by it. -/
def Implements (mapping : CompiledPredicateMapping) (restriction : ρ → Truth) : Prop :=
  match mapping.accuracy with
  | .exact => ∀ row, restriction row = mappingTruth cell mapping row
  | .superset => ∀ row, mappingTruth cell mapping row = .yes → restriction row = .yes

/-- The restrictions that a decision may stand for. -/
def Restricts (relation : CompiledRelation) (operation : CompiledOperation)
    (decision : PredicatePlanDecision) (restriction : ρ → Truth) : Prop :=
  match decision.remotePredicate with
  | .trueForBaseDomain => ∀ row, restriction row = .yes
  | .typedEquality =>
    ∃ mapping ∈ relation.predicateMappings, mapping.operationName = operation.name ∧
      planTypedEquality mapping = decision.typedEquality ∧ Implements cell mapping restriction
  | .completeDuckdbFilter => True

end Meaning

-- ---------------------------------------------------------------------------
-- Matches
-- ---------------------------------------------------------------------------

section Matches

variable {ρ : Type} {relation : CompiledRelation} {operation : CompiledOperation}
  {cell : ρ → Bytes → Option Scalar} {hidden : ρ → List Nat → Truth}

/-- The meaning of a matched comparison; a comparison does not depend on its path. -/
def candidateTruth (relation : CompiledRelation) (cell : ρ → Bytes → Option Scalar)
    (hidden : ρ → List Nat → Truth) (row : ρ) (found : MatchedCandidate) : Truth :=
  truth relation.columns cell hidden row [] found.candidate

/-- A match's comparison means what its mapping declares. -/
theorem candidateTruth_eq {found : MatchedCandidate} (h : IsMatch relation operation found)
    (row : ρ) :
    candidateTruth relation cell hidden row found = mappingTruth cell found.mapping row := by
  obtain ⟨mapping, candidate⟩ := found
  obtain ⟨-, happlies⟩ := h
  cases candidate with
  | comparison index type literal =>
    simp only [mappingApplies, Bool.and_eq_true] at happlies
    obtain ⟨-, happlies⟩ := happlies
    cases hcolumn : relation.columns[index]? with
    | none => simp [hcolumn] at happlies
    | some column =>
      simp only [hcolumn, Bool.and_eq_true, beq_iff_eq, typedLiteralMatches] at happlies
      obtain ⟨⟨⟨-, hname⟩, -⟩, hliteral⟩ := happlies
      cases hvalue : mapping.typedLiteral.value with
      | none => simp [hvalue] at hliteral
      | some value =>
        have hsame : value.same literal = true := by simpa [hvalue] using hliteral
        simp only [candidateTruth, truth, comparisonTruth, mappingTruth, hcolumn, hvalue, hname]
        exact (equals_congr hsame _).symm
  | _ => cases happlies

/-- Matches that the code calls equivalent mean the same. -/
theorem candidateTruth_congr {left right : MatchedCandidate}
    (hleft : IsMatch relation operation left) (hright : IsMatch relation operation right)
    (h : sameMappingAndBinding left right = true) (row : ρ) :
    candidateTruth relation cell hidden row left =
      candidateTruth relation cell hidden row right := by
  obtain ⟨leftMapping, leftCandidate⟩ := left
  obtain ⟨rightMapping, rightCandidate⟩ := right
  simp only [sameMappingAndBinding, Bool.and_eq_true] at h
  obtain ⟨⟨⟨⟨⟨⟨⟨⟨⟨⟨⟨⟨hstructure, -⟩, -⟩, -⟩, -⟩, -⟩, -⟩, -⟩, -⟩, -⟩, -⟩, -⟩, -⟩ := h
  cases leftCandidate with
  | comparison index type literal =>
    cases rightCandidate with
    | comparison index' type' literal' =>
      simp only [RequestedPredicate.structurallyEquals, Bool.and_eq_true, beq_iff_eq] at hstructure
      obtain ⟨⟨rfl, -⟩, hsame⟩ := hstructure
      simp only [candidateTruth, truth, comparisonTruth]
      split
      · exact equals_congr hsame _
      · rfl
    | _ => cases hright.2
  | _ => cases hleft.2

mutual

/-- A row the tree selects is selected by every match. -/
theorem candidateTruth_of_truth (row : ρ) : ∀ (predicate : RequestedPredicate) {path : List Nat},
    truth relation.columns cell hidden row path predicate = .yes →
    ∀ found ∈ conjunctiveMatches relation operation predicate,
      candidateTruth relation cell hidden row found = .yes
  | .comparison index type literal, path, h, found, hfound => by
    rw [conjunctiveMatches, List.mem_map] at hfound
    obtain ⟨mapping, -, rfl⟩ := hfound
    simpa only [candidateTruth, truth] using h
  | .conjunction children, path, h, found, hfound => by
    rw [truth, Truth.all_eq_yes] at h
    rw [conjunctiveMatches] at hfound
    exact candidateTruth_of_truths row children h found hfound
  | .unrestricted, path, h, found, hfound => by simp [conjunctiveMatches] at hfound
  | .disjunction _, path, h, found, hfound => by simp [conjunctiveMatches] at hfound
  | .negation _, path, h, found, hfound => by simp [conjunctiveMatches] at hfound
  | .unsupported _, path, h, found, hfound => by simp [conjunctiveMatches] at hfound

theorem candidateTruth_of_truths (row : ρ) :
    ∀ (children : List RequestedPredicate) {path : List Nat} {next : Nat},
    (∀ t ∈ truths relation.columns cell hidden row path next children, t = .yes) →
    ∀ found ∈ allConjunctiveMatches relation operation children,
      candidateTruth relation cell hidden row found = .yes
  | [], path, next, h, found, hfound => by simp [allConjunctiveMatches] at hfound
  | child :: rest, path, next, h, found, hfound => by
    rw [truths, List.forall_mem_cons] at h
    rw [allConjunctiveMatches, List.mem_append] at hfound
    rcases hfound with hfound | hfound
    · exact candidateTruth_of_truth row child h.1 found hfound
    · exact candidateTruth_of_truths row rest h.2 found hfound

end

mutual

/-- Where nothing is unmapped, the tree is the conjunction of its matches. -/
theorem truth_conjunctiveMatches (row : ρ) : ∀ (predicate : RequestedPredicate) {path : List Nat},
    hasUnmappedStructure relation operation predicate = false →
    truth relation.columns cell hidden row path predicate =
      Truth.all ((conjunctiveMatches relation operation predicate).map
        (candidateTruth relation cell hidden row))
  | .unrestricted, path, h => by simp [truth, conjunctiveMatches]
  | .comparison index type literal, path, h => by
    rw [hasUnmappedStructure, List.isEmpty_eq_false_iff] at h
    refine (Truth.all_eq_of_forall (by simpa using h) fun t ht => ?_).symm
    obtain ⟨found, hfound, rfl⟩ := List.mem_map.mp ht
    rw [conjunctiveMatches, List.mem_map] at hfound
    obtain ⟨mapping, -, rfl⟩ := hfound
    simp only [candidateTruth, truth]
  | .conjunction children, path, h => by
    rw [hasUnmappedStructure] at h
    rw [truth, conjunctiveMatches, truths_allConjunctiveMatches row children h]
  | .disjunction _, path, h => by simp [hasUnmappedStructure] at h
  | .negation _, path, h => by simp [hasUnmappedStructure] at h
  | .unsupported _, path, h => by simp [hasUnmappedStructure] at h

theorem truths_allConjunctiveMatches (row : ρ) :
    ∀ (children : List RequestedPredicate) {path : List Nat} {next : Nat},
    anyUnmappedStructure relation operation children = false →
    Truth.all (truths relation.columns cell hidden row path next children) =
      Truth.all ((allConjunctiveMatches relation operation children).map
        (candidateTruth relation cell hidden row))
  | [], path, next, h => by rw [truths, allConjunctiveMatches, List.map_nil]
  | child :: rest, path, next, h => by
    rw [anyUnmappedStructure, Bool.or_eq_false_iff] at h
    rw [truths, allConjunctiveMatches, Truth.all_cons, List.map_append, Truth.all_append,
      truth_conjunctiveMatches row child h.1, truths_allConjunctiveMatches row rest h.2]

end

/-- Hence the first match alone, where all agree. -/
theorem truth_eq_front (row : ρ) {predicate : RequestedPredicate} {path : List Nat}
    {front : MatchedCandidate} {rest : List MatchedCandidate}
    (hfound : conjunctiveMatches relation operation predicate = front :: rest)
    (hequivalent : allMatchesEquivalent (front :: rest) = true)
    (hmapped : hasUnmappedStructure relation operation predicate = false) :
    truth relation.columns cell hidden row path predicate =
      candidateTruth relation cell hidden row front := by
  have hmatch : ∀ found ∈ front :: rest, IsMatch relation operation found := by
    intro found hmem
    rw [← hfound] at hmem
    exact isMatch_of_mem predicate hmem
  rw [truth_conjunctiveMatches row predicate hmapped, hfound]
  refine Truth.all_eq_of_forall (by simp) fun t ht => ?_
  obtain ⟨found, hmem, rfl⟩ := List.mem_map.mp ht
  rcases List.mem_cons.mp hmem with rfl | hrest
  · rfl
  · have hsame : sameMappingAndBinding front found = true :=
      List.all_eq_true.mp hequivalent found hrest
    exact (candidateTruth_congr (hmatch front List.mem_cons_self) (hmatch found hmem) hsame
      row).symm

end Matches

-- ---------------------------------------------------------------------------
-- Decisions
-- ---------------------------------------------------------------------------

section Sound

variable {ρ : Type} {relation : CompiledRelation} {operation : CompiledOperation}
  {request : ScanRequest} {decision : PredicatePlanDecision}
  {cell : ρ → Bytes → Option Scalar} {hidden : ρ → List Nat → Truth} {restriction : ρ → Truth}

theorem validateMappingFacts_eq_ok {mapping : CompiledPredicateMapping}
    (h : validateMappingFacts operation mapping = .ok ()) :
    mapping.operationName = operation.name ∧ mapping.remoteInputName ≠ [] ∧
      mapping.typedLiteral.value ≠ none ∧
      mapping.occurrencePreservation = expectedOccurrences mapping.accuracy := by
  simp only [validateMappingFacts, bind_eq_ok, throwIf_eq_ok, Bool.or_eq_false_iff,
    bne_eq_false_iff_eq, CompiledScalarValue.isNull] at h
  obtain ⟨-, ⟨hname, hremote⟩, ⟨⟨⟨⟨⟨⟨hliteral, -⟩, -⟩, -⟩, -⟩, -⟩, hoccurrences⟩⟩ := h
  refine ⟨hname, by simpa using hremote, fun hnull => ?_, hoccurrences⟩
  rw [hnull] at hliteral
  cases hliteral

theorem expectedOccurrences_injective {a b : PredicateAccuracy}
    (h : expectedOccurrences a = expectedOccurrences b) : a = b := by
  cases a <;> cases b <;> first | rfl | cases h

/-- Mappings of one operation with one planned equality mean the same. -/
theorem implements_of_plan_eq {mapping other : CompiledPredicateMapping}
    (hmapping : validateMappingFacts operation mapping = .ok ())
    (hother : validateMappingFacts operation other = .ok ())
    (hplan : planTypedEquality other = planTypedEquality mapping)
    (h : Implements cell other restriction) : Implements cell mapping restriction := by
  obtain ⟨-, -, hvalue, hoccurrences⟩ := validateMappingFacts_eq_ok hmapping
  obtain ⟨-, -, -, hoccurrences'⟩ := validateMappingFacts_eq_ok hother
  obtain ⟨value, hvalue⟩ := Option.ne_none_iff_exists'.mp hvalue
  cases hvalue' : other.typedLiteral.value with
  | none => simp [planTypedEquality, hvalue, hvalue'] at hplan
  | some value' =>
    simp only [planTypedEquality, hvalue, hvalue', Option.map_some, Option.some.injEq,
      TypedEqualityDecision.mk.injEq] at hplan
    obtain ⟨hcolumn, rfl, -, -, -, hsame⟩ := hplan
    have haccuracy : other.accuracy = mapping.accuracy :=
      expectedOccurrences_injective (hoccurrences'.symm.trans (hsame.trans hoccurrences))
    have htruth : ∀ row, mappingTruth cell other row = mappingTruth cell mapping row := by
      intro row
      simp only [mappingTruth, hvalue, hvalue', hcolumn]
    unfold Implements at h ⊢
    rw [haccuracy] at h
    simpa only [htruth] using h

/-- A superset mapping's restriction and an exact one's both let the equality through. -/
theorem Implements.of_yes {mapping : CompiledPredicateMapping}
    (h : Implements cell mapping restriction) {row : ρ}
    (hrow : mappingTruth cell mapping row = .yes) : restriction row = .yes := by
  unfold Implements at h
  split at h
  · rw [h row, hrow]
  · exact h row hrow

/-- What a selection rests on. -/
theorem selectedMatches_eq_cons {front : MatchedCandidate} {rest : List MatchedCandidate}
    (h : selectedMatches relation operation request = front :: rest) :
    conjunctiveMatches relation operation request.requestedPredicate = front :: rest ∧
      allMatchesEquivalent (front :: rest) = true := by
  unfold selectedMatches at h
  split at h
  · rename_i hselect
    rw [Bool.and_eq_true, h] at hselect
    exact ⟨h, hselect.2⟩
  · cases h

/-- The accuracy of a selection is exact only for an exact mapping with nothing
unmapped. -/
theorem isSelection_eq {front : MatchedCandidate} {rest : List MatchedCandidate}
    (h : IsSelection relation operation request front rest decision) :
    decision.remotePredicate = .typedEquality ∧ decision.residualOwner = .duckdb ∧
      decision.typedEquality = planTypedEquality front.mapping ∧
      (decision.remoteAccuracy = .exact →
        front.mapping.accuracy = .exact ∧
          hasUnmappedStructure relation operation request.requestedPredicate = false) := by
  obtain ⟨residual, -, h⟩ := bind_eq_ok.mp h
  obtain rfl := pure_eq_ok.mp h
  refine ⟨rfl, rfl, rfl, fun hexact => ?_⟩
  simp only at hexact
  split at hexact
  · rename_i hselection
    simp only [isExactSelection, Bool.and_eq_true, beq_iff_eq, Bool.not_eq_true'] at hselection
    exact hselection.1
  · cases hexact

theorem isFallback_eq (h : IsFallback relation operation request decision) :
    decision.remotePredicate = .trueForBaseDomain ∧ decision.residualOwner = .duckdb ∧
      decision.remoteAccuracy = .unsupported := by
  obtain ⟨category, reason, -, h⟩ := h
  obtain ⟨residual, -, h⟩ := bind_eq_ok.mp h
  obtain ⟨equality, -, h⟩ := bind_eq_ok.mp h
  obtain rfl := pure_eq_ok.mp h
  exact ⟨rfl, rfl, rfl⟩

/-- A selected mapping's restriction lets every row through that the whole
predicate selects, and an exact one is the whole predicate. -/
theorem selection_sound {front : MatchedCandidate} {rest : List MatchedCandidate}
    (hclassify : classify relation operation request = .ok decision)
    (hselected : selectedMatches relation operation request = front :: rest)
    (h : IsSelection relation operation request front rest decision)
    (hrestricts : Restricts cell relation operation decision restriction) :
    (∀ row, truth relation.columns cell hidden row [] request.requestedPredicate = .yes →
        restriction row = .yes) ∧
      (decision.remoteAccuracy = .exact → ∀ row, restriction row =
        truth relation.columns cell hidden row [] request.requestedPredicate) := by
  obtain ⟨hfound, hequivalent⟩ := selectedMatches_eq_cons hselected
  obtain ⟨hremote, -, htyped, hexact⟩ := isSelection_eq h
  have hfront : IsMatch relation operation front :=
    isMatch_of_mem request.requestedPredicate (by rw [hfound]; exact List.mem_cons_self)
  have hname : front.mapping.operationName = operation.name := by
    obtain ⟨mapping, candidate⟩ := front
    have happlies := hfront.2
    cases candidate with
    | comparison =>
      simp only [mappingApplies, Bool.and_eq_true, beq_iff_eq] at happlies
      exact happlies.1
    | _ => cases happlies
  have himplements : Implements cell front.mapping restriction := by
    rw [Restricts, hremote] at hrestricts
    obtain ⟨mapping, hmem, hoperation, hplan, hmapping⟩ := hrestricts
    exact implements_of_plan_eq (classify_facts hclassify hfront.1 hname)
      (classify_facts hclassify hmem hoperation) (hplan.trans htyped) hmapping
  constructor
  · intro row hrow
    have hmem : front ∈ conjunctiveMatches relation operation request.requestedPredicate := by
      rw [hfound]
      exact List.mem_cons_self
    have hcandidate := candidateTruth_of_truth row request.requestedPredicate hrow front hmem
    rw [candidateTruth_eq hfront] at hcandidate
    exact himplements.of_yes hcandidate
  · intro haccuracy row
    obtain ⟨hmapping, hmapped⟩ := hexact haccuracy
    rw [truth_eq_front row hfound hequivalent hmapped, candidateTruth_eq hfront]
    rw [Implements, hmapping] at himplements
    exact himplements row

/-- Pushdown loses no row, is exact where it says so, and leaves the filter to
DuckDB. -/
theorem pushdown_sound {ρ : Type} (relation : CompiledRelation) (operation : CompiledOperation)
    (request : ScanRequest) (decision : PredicatePlanDecision)
    (cell : ρ → Bytes → Option Scalar) (hidden : ρ → List Nat → Truth) (restriction : ρ → Truth)
    (hclassify : classify relation operation request = .ok decision)
    (hrestricts : Restricts cell relation operation decision restriction) :
    (∀ row, truth relation.columns cell hidden row [] request.requestedPredicate = .yes →
        restriction row = .yes) ∧
      (∀ base : Multiset ρ,
        (base.filter fun row => restriction row = .yes).filter (fun row =>
            truth relation.columns cell hidden row [] request.requestedPredicate = .yes) =
          base.filter fun row =>
            truth relation.columns cell hidden row [] request.requestedPredicate = .yes) ∧
      (decision.remoteAccuracy = .exact → ∀ row, restriction row =
        truth relation.columns cell hidden row [] request.requestedPredicate) ∧
      decision.residualOwner = .duckdb := by
  have hsound : (∀ row, truth relation.columns cell hidden row [] request.requestedPredicate =
        .yes → restriction row = .yes) ∧
      (decision.remoteAccuracy = .exact → ∀ row, restriction row =
        truth relation.columns cell hidden row [] request.requestedPredicate) ∧
      decision.residualOwner = .duckdb := by
    rcases classify_cases hclassify with ⟨-, hfallback⟩ | ⟨front, rest, hselected, hselection⟩
    · obtain ⟨hremote, howner, haccuracy⟩ := isFallback_eq hfallback
      rw [Restricts, hremote] at hrestricts
      refine ⟨fun row _ => hrestricts row, fun hexact => ?_, howner⟩
      rw [haccuracy] at hexact
      cases hexact
    · obtain ⟨hadmits, hexact⟩ := selection_sound hclassify hselected hselection hrestricts
      exact ⟨hadmits, hexact, (isSelection_eq hselection).2.1⟩
  exact ⟨hsound.1, filter_of_implied hsound.1, hsound.2⟩

end Sound

-- ---------------------------------------------------------------------------
-- A relation with one mapped literal
-- ---------------------------------------------------------------------------

/-- `state = literal`, sent as the query field `state`. -/
def stateMapping (operationName literal : Bytes) (accuracy : PredicateAccuracy) :
    CompiledPredicateMapping where
  name := ascii "state_is_" ++ literal
  columnName := ascii "state"
  typedLiteral := .ofScalar (.varchar literal)
  operationName := operationName
  remoteInputName := ascii "state"
  encodedRemoteValue := literal
  accuracy := accuracy
  proofIdentityValue := ascii "proof"
  baseDomainValue := ascii "issues"
  matchingFixture := ascii "matching"
  falseOrNullFixture := ascii "other"
  duplicatesFixture := ascii "duplicates"
  occurrencePreservation := expectedOccurrences accuracy

def noRetry : CompiledRetryRecommendation := ⟨0, 0, 0⟩

def noRateLimit : CompiledRateLimitPolicy :=
  ⟨false, .fail, [], [], .shared, [], [], [], 0, 0, 0⟩

/-- `GET /issues` -/
def issuesOperation (name : Bytes) (fallback : Bool) (selector : List RequiredInputReference)
    (queryParameters : List CompiledQueryParameter) : CompiledOperation where
  name := name
  fallback := fallback
  cardinality := .zeroToMany
  selector := selector
  protocolOperation := .rest {
    retryEnabled := false
    pagination := ⟨.disabled, [], 0, [], 0, 0, 0, []⟩
    request := {
      origin := ⟨.https, ascii "api.example.com", 443⟩
      path := ascii "/issues"
      pathSegments := [.literal (ascii "issues")]
      queryParameters := queryParameters
      headers := [] }
    responseSource := .rootArray
    recordsExtractor := ascii "$"
    recordsExtractorSegments := [] }
  replayClass := .replayableRead
  retryRecommendation := noRetry
  rateLimitPolicy := noRateLimit

def stateField : CompiledQueryParameter :=
  ⟨ascii "state", [], .conditionalInput, ascii "state", true, false, none⟩

/-- The fallback, with `state` as an optional query field. -/
def listIssues : CompiledOperation := issuesOperation (ascii "list") true [] [stateField]

def issues : CompiledRelation where
  name := ascii "issues"
  columns :=
    [⟨ascii "state", ascii "VARCHAR", true, ascii "$.state", .scalar, .varchar, false,
      [ascii "state"]⟩]
  inputs := []
  predicateMappings := [stateMapping (ascii "list") (ascii "open") .exact]
  operations := [listIssues]
  authentication := ⟨false, [], .none, .none, [], []⟩
  resourceCeilings := ⟨some ⟨1024, 1024⟩, 10, 10, 100⟩

/-- A scan of the relation under a filter that Query translated as a whole. -/
def issuesRequest (predicate : RequestedPredicate) : ScanRequest where
  connectorName := ascii "tracker"
  relationName := ascii "issues"
  explicitInputs := []
  projectedColumns := [ascii "state"]
  requestedPredicate := predicate
  retainedPredicateScope := .requestedPredicate
  orderings := []
  hasLimit := false
  hasOffset := false
  capabilities := ⟨false, false, true, true, false, false, false, false, true, false⟩
  secretReference := none
  generationIdentity := ⟨ascii "cuac/v1", ascii "tracker", ascii "1.0.0", ascii "00"⟩

/-- `state = literal` -/
def stateIs (literal : Bytes) : RequestedPredicate :=
  .comparison 0 .varchar (.varchar literal)

/-- A repeated equality is sent once, and is exact. -/
theorem pushdown_sound_repeated_equality :
    ∃ decision,
      classify issues listIssues (issuesRequest
        (.conjunction [stateIs (ascii "open"), stateIs (ascii "open")])) = .ok decision ∧
      decision.remoteAccuracy = .exact ∧
      ∀ row : Option Scalar, equals row (.varchar (ascii "open")) =
        truth issues.columns (fun row _ => row) (fun _ _ => .unknown) row []
          (.conjunction [stateIs (ascii "open"), stateIs (ascii "open")]) := by
  refine ⟨_, rfl, rfl, ?_⟩
  have hsound := pushdown_sound issues listIssues
    (issuesRequest (.conjunction [stateIs (ascii "open"), stateIs (ascii "open")])) _
    (fun row _ => row) (fun _ _ => .unknown) (fun row => equals row (.varchar (ascii "open"))) rfl
    ⟨stateMapping (ascii "list") (ascii "open") .exact, List.mem_cons_self, rfl, rfl,
      fun _ => rfl⟩
  exact hsound.2.2.1 rfl

end Cuac.Predicate

import Cuac.Lib.Sorted
import Mathlib.Data.List.Sort
import Cuac.Connector.Catalog
import Cuac.Query.ScanRequest

/-!
# The predicate classifier

Which part of a requested predicate an operation may evaluate remotely. The
classifier looks for typed equalities under the root conjunction that a mapping
of the operation declares, and sends at most one of them; DuckDB evaluates the
whole predicate in any case.

Main results:

* `collectConjunctiveMatches_spec` — what the walk over the tree finds.
* `classify_cases` — a decision is a fallback that restricts nothing, or the
  selection of one mapping that every match agrees with.
-/

namespace Cuac.Semantics

open Cuac.Lib Cuac.Connector Cuac.Query

-- ---------------------------------------------------------------------------
-- Decisions
-- ---------------------------------------------------------------------------

/-- What a part of the plan filters by. -/
inductive PlannedPredicate
  | trueForBaseDomain
  | typedEquality
  | completeDuckdbFilter
  deriving DecidableEq, Repr

/-- How close the provider's answer is to the filter. -/
inductive RemotePredicateAccuracy
  | unsupported
  | superset
  | exact
  deriving DecidableEq, Repr

/-- Who answers for the relational operations above the scan. -/
inductive RelationalOwner
  | duckdb
  deriving DecidableEq, Repr

/-- Whether the filter is sent along, and where. -/
inductive PlannedConditionalInput
  | none
  | restQueryBinding
  deriving DecidableEq, Repr

/-- The kinds of decisions about a filter. -/
inductive PredicateDecisionCategory
  | exact
  | superset
  | unsupported
  | ambiguous
  deriving DecidableEq, Repr

/-- Why a decision was taken. -/
inductive PredicateDecisionReason
  | noRemoteCandidate
  | selectedExactMapping
  | selectedSupersetMapping
  | structureUnsupported
  | capabilityUnavailable
  | mappingUnavailable
  | disjunctionEncodingUnavailable
  | complementEncodingUnavailable
  | ambiguousConditionalInput
  deriving DecidableEq, Repr

/-- `column = value`, and the proof that a package declares for it. -/
structure TypedEqualityDecision where
  columnName : Bytes
  value : Scalar
  conditionalInputId : Bytes
  proofIdentity : Bytes
  baseDomainIdentity : Bytes
  occurrencePreservation : OccurrencePreservation
  deriving DecidableEq

/-- The decision about one filter: what is sent, what is left and why. -/
structure PredicatePlanDecision where
  remotePredicate : PlannedPredicate
  remoteAccuracy : RemotePredicateAccuracy
  residualPredicate : PlannedPredicate
  residualOwner : RelationalOwner
  conditionalInput : PlannedConditionalInput
  typedEquality : Option TypedEqualityDecision
  category : PredicateDecisionCategory
  reasonCode : PredicateDecisionReason
  reason : String

/-- The text that explains a reason. -/
def reasonText : PredicateDecisionReason → String
  | .noRemoteCandidate =>
    "no structured remote candidate was offered; the complete base-domain traversal remains " ++
      "authoritative"
  | .selectedExactMapping =>
    "validated three-valued equivalence, exact occurrence preservation, and one executable input " ++
      "establish an Exact remote restriction; DuckDB retains semantic ownership"
  | .selectedSupersetMapping =>
    "validated implication, required occurrence preservation, and one executable input establish " ++
      "a Superset remote restriction; DuckDB retains semantic ownership"
  | .structureUnsupported =>
    "the offered predicate structure has no complete executable remote proof; remote TRUE " ++
      "preserves the base domain and DuckDB remains authoritative"
  | .capabilityUnavailable =>
    "structured inspection or DuckDB residual-retention capability is unavailable; remote TRUE " ++
      "preserves correctness"
  | .mappingUnavailable =>
    "no validated mapping matches the typed candidate on the selected operation; remote TRUE " ++
      "preserves correctness"
  | .disjunctionEncodingUnavailable =>
    "the selected operation declares no occurrence-preserving disjunction encoding; remote TRUE " ++
      "preserves every branch"
  | .complementEncodingUnavailable =>
    "the selected operation declares no three-valued complement encoding; remote TRUE avoids " ++
      "unsafe negation"
  | .ambiguousConditionalInput =>
    "multiple safe candidate occurrences require an undeclared compound input encoding; the " ++
      "unrestricted plan avoids an arbitrary choice"

/-- Absent where the literal is NULL. -/
def planTypedEquality (mapping : CompiledPredicateMapping) : Option TypedEqualityDecision :=
  mapping.typedLiteral.value.map fun value =>
    ⟨mapping.columnName, value, mapping.remoteInputName, mapping.proofIdentityValue,
      mapping.baseDomainValue, mapping.occurrencePreservation⟩

-- ---------------------------------------------------------------------------
-- Matching
-- ---------------------------------------------------------------------------

/-- A mapping with the part of the filter that it matches. -/
structure MatchedCandidate where
  mapping : CompiledPredicateMapping
  candidate : RequestedPredicate

/-- The occurrences that an accuracy has to preserve. -/
def expectedOccurrences : PredicateAccuracy → OccurrencePreservation
  | .exact => .exactMatchingBaseOccurrences
  | .superset => .allMatchingBaseOccurrences

/-- A mapping that was compiled wrong is a fault of the package. -/
def validateMappingFacts (operation : CompiledOperation) (mapping : CompiledPredicateMapping) :
    Except Fault Unit := do
  throwIf (mapping.operationName != operation.name || mapping.remoteInputName.isEmpty)
    (invalidContract
      "selected predicate mapping contains inconsistent operation or encoding facts")
  throwIf (mapping.typedLiteral.isNull || mapping.proofIdentityValue.isEmpty ||
      mapping.baseDomainValue.isEmpty || mapping.matchingFixture.isEmpty ||
      mapping.falseOrNullFixture.isEmpty || mapping.duplicatesFixture.isEmpty ||
      mapping.occurrencePreservation != expectedOccurrences mapping.accuracy)
    (invalidContract "package predicate mapping lacks its typed occurrence proof")

/-- A compiled literal is the one that was asked for. -/
def typedLiteralMatches (compiled : CompiledScalarValue) (requested : Scalar) : Bool :=
  compiled.value.any fun value => value.same requested

/-- Two compiled literals are of one type and one value, or both NULL. -/
def sameTypedLiteral (left right : CompiledScalarValue) : Bool :=
  left.type == right.type &&
    match left.value, right.value with
    | none, none => true
    | some a, some b => a.same b
    | _, _ => false

/-- The tests of `MappingMatches`; a comparison's column is in range when it is
asked. -/
def mappingApplies (relation : CompiledRelation) (operation : CompiledOperation)
    (mapping : CompiledPredicateMapping) : RequestedPredicate → Bool
  | .comparison index type literal =>
    mapping.operationName == operation.name &&
      match relation.columns[index]? with
      | some column =>
        column.shape == .scalar && column.name == mapping.columnName &&
          column.elementType == type && typedLiteralMatches mapping.typedLiteral literal
      | none => false
  | _ => false

/-- A mapping matches a comparison on its column with its literal. -/
def mappingMatches (relation : CompiledRelation) (operation : CompiledOperation)
    (mapping : CompiledPredicateMapping) (candidate : RequestedPredicate) : Except Fault Bool :=
  if mappingApplies relation operation mapping candidate then do
    validateMappingFacts operation mapping
    pure true
  else pure false

mutual

/-- Every column that a filter compares has to be one of the relation. -/
def validateCandidateBindings (relation : CompiledRelation) :
    RequestedPredicate → Except Fault Unit
  | .unrestricted => pure ()
  | .unsupported _ => pure ()
  | .comparison index type literal =>
    throwIf
      (match relation.columns[index]? with
        | some column =>
          column.shape != .scalar || column.elementType != type || type != literal.kind
        | none => true)
      (invalidContract "predicate candidate contains an invalid bound column or typed literal")
  | .conjunction children => validateAllCandidateBindings relation children
  | .disjunction children => validateAllCandidateBindings relation children
  | .negation child => validateCandidateBindings relation child

def validateAllCandidateBindings (relation : CompiledRelation) :
    List RequestedPredicate → Except Fault Unit
  | [] => pure ()
  | child :: rest => do
    validateCandidateBindings relation child
    validateAllCandidateBindings relation rest

end

/-- The filter lies within its bounds and names columns of the relation. -/
def validateCandidateContract (relation : CompiledRelation) (request : ScanRequest) :
    Except Fault Unit := do
  throwIf (request.requestedPredicate.depth == 0 ||
      maxRequestedPredicateDepth < request.requestedPredicate.depth ||
      request.requestedPredicate.nodeCount == 0 ||
      maxRequestedPredicateNodes < request.requestedPredicate.nodeCount)
    (invalidContract "predicate candidate exceeds the shared structural contract")
  validateCandidateBindings relation request.requestedPredicate

/-- The loop over the mappings at one comparison. -/
def matchingMappings (relation : CompiledRelation) (operation : CompiledOperation)
    (candidate : RequestedPredicate) :
    List CompiledPredicateMapping → Except Fault (List MatchedCandidate)
  | [] => pure []
  | mapping :: rest => do
    let matched ← mappingMatches relation operation mapping candidate
    let others ← matchingMappings relation operation candidate rest
    pure (if matched then ⟨mapping, candidate⟩ :: others else others)

mutual

/-- The matches in order, and `contains_unmapped_structure`. -/
def collectConjunctiveMatches (relation : CompiledRelation) (operation : CompiledOperation) :
    RequestedPredicate → Except Fault (List MatchedCandidate × Bool)
  | .unrestricted => pure ([], false)
  | .comparison index type literal => do
    let found ← matchingMappings relation operation (.comparison index type literal)
      relation.predicateMappings
    pure (found, found.isEmpty)
  | .conjunction children => collectAllConjunctiveMatches relation operation children
  | .disjunction _ => pure ([], true)
  | .negation _ => pure ([], true)
  | .unsupported _ => pure ([], true)

def collectAllConjunctiveMatches (relation : CompiledRelation) (operation : CompiledOperation) :
    List RequestedPredicate → Except Fault (List MatchedCandidate × Bool)
  | [] => pure ([], false)
  | child :: rest => do
    let first ← collectConjunctiveMatches relation operation child
    let others ← collectAllConjunctiveMatches relation operation rest
    pure (first.1 ++ others.1, first.2 || others.2)

end

/-- Two matches that would send the same value. -/
def sameMappingAndBinding (left right : MatchedCandidate) : Bool :=
  RequestedPredicate.structurallyEquals left.candidate right.candidate &&
    left.mapping.columnName == right.mapping.columnName &&
    sameTypedLiteral left.mapping.typedLiteral right.mapping.typedLiteral &&
    left.mapping.operationName == right.mapping.operationName &&
    left.mapping.remoteInputName == right.mapping.remoteInputName &&
    left.mapping.encodedRemoteValue == right.mapping.encodedRemoteValue &&
    left.mapping.accuracy == right.mapping.accuracy &&
    left.mapping.proofIdentityValue == right.mapping.proofIdentityValue &&
    left.mapping.baseDomainValue == right.mapping.baseDomainValue &&
    left.mapping.matchingFixture == right.mapping.matchingFixture &&
    left.mapping.falseOrNullFixture == right.mapping.falseOrNullFixture &&
    left.mapping.duplicatesFixture == right.mapping.duplicatesFixture &&
    left.mapping.occurrencePreservation == right.mapping.occurrencePreservation

/-- Every match agrees with the first. -/
def allMatchesEquivalent : List MatchedCandidate → Bool
  | [] => true
  | front :: rest => rest.all fun other => sameMappingAndBinding front other

/-- A filter that is one comparison. -/
def isSingleComparison : RequestedPredicate → Bool
  | .comparison _ _ _ => true
  | _ => false

/-- A conjunction that repeats one match is as good as the match. -/
def isEquivalentRepeatedConjunction (candidate : RequestedPredicate)
    (found : List MatchedCandidate) (containsUnmappedStructure : Bool) : Bool :=
  match candidate with
  | .conjunction children =>
    !containsUnmappedStructure && children.length == found.length && allMatchesEquivalent found
  | _ => false

-- ---------------------------------------------------------------------------
-- Residuals
-- ---------------------------------------------------------------------------

/-- The first mapping that matches; later ones are not looked at. -/
def firstMatching (relation : CompiledRelation) (operation : CompiledOperation)
    (candidate : RequestedPredicate) :
    List CompiledPredicateMapping → Except Fault (Option CompiledPredicateMapping)
  | [] => pure none
  | mapping :: rest => do
    let matched ← mappingMatches relation operation mapping candidate
    if matched then pure (some mapping)
    else firstMatching relation operation candidate rest

/-- What is left for the database to filter by. -/
def residualPredicate (relation : CompiledRelation) (operation : CompiledOperation)
    (request : ScanRequest) : Except Fault PlannedPredicate :=
  match request.retainedPredicateScope with
  | .unrestricted => pure .trueForBaseDomain
  | .completeDuckdbFilter => pure .completeDuckdbFilter
  | .requestedPredicate =>
    if isSingleComparison request.requestedPredicate then do
      let mapping ← firstMatching relation operation request.requestedPredicate
        relation.predicateMappings
      pure (if mapping.isSome then .typedEquality else .completeDuckdbFilter)
    else pure .completeDuckdbFilter

/-- What is left when the provider answers exactly. -/
def residualTypedEquality (relation : CompiledRelation) (operation : CompiledOperation)
    (request : ScanRequest) (residual : PlannedPredicate) :
    Except Fault (Option TypedEqualityDecision) :=
  if residual != .typedEquality || !isSingleComparison request.requestedPredicate then pure none
  else do
    let mapping ← firstMatching relation operation request.requestedPredicate
      relation.predicateMappings
    match mapping with
    | some mapping => pure (planTypedEquality mapping)
    | none =>
      .error (invalidContract "typed residual predicate lost its validated package mapping")

-- ---------------------------------------------------------------------------
-- Classification
-- ---------------------------------------------------------------------------

/-- `Fallback` -/
def fallbackDecision (relation : CompiledRelation) (operation : CompiledOperation)
    (request : ScanRequest) (category : PredicateDecisionCategory)
    (reason : PredicateDecisionReason) : Except Fault PredicatePlanDecision := do
  let residual ← residualPredicate relation operation request
  let equality ← residualTypedEquality relation operation request residual
  pure ⟨.trueForBaseDomain, .unsupported, residual, .duckdb, .none, equality, category, reason,
    reasonText reason⟩

/-- `exact` of `Classify`. -/
def isExactSelection (request : ScanRequest) (mapping : CompiledPredicateMapping)
    (found : List MatchedCandidate) (containsUnmappedStructure : Bool) : Bool :=
  mapping.accuracy == .exact && !containsUnmappedStructure &&
    (isSingleComparison request.requestedPredicate ||
      isEquivalentRepeatedConjunction request.requestedPredicate found containsUnmappedStructure)

/-- The decision for a mapping that every match agrees with. -/
def selectedDecision (relation : CompiledRelation) (operation : CompiledOperation)
    (request : ScanRequest) (mapping : CompiledPredicateMapping) (exact : Bool) :
    Except Fault PredicatePlanDecision := do
  let residual ← residualPredicate relation operation request
  let reason : PredicateDecisionReason :=
    if exact then .selectedExactMapping else .selectedSupersetMapping
  pure ⟨.typedEquality, if exact then .exact else .superset, residual, .duckdb, .restQueryBinding,
    planTypedEquality mapping, if exact then .exact else .superset, reason, reasonText reason⟩

/-- `Classify` from its collected matches on. -/
def classifyMatches (relation : CompiledRelation) (operation : CompiledOperation)
    (request : ScanRequest) (found : List MatchedCandidate) (containsUnmappedStructure : Bool) :
    Except Fault PredicatePlanDecision :=
  match found with
  | [] => fallbackDecision relation operation request .unsupported
      (if containsUnmappedStructure then .mappingUnavailable else .structureUnsupported)
  | front :: rest =>
    if 1 < (front :: rest).length && !allMatchesEquivalent (front :: rest) then
      fallbackDecision relation operation request .ambiguous .ambiguousConditionalInput
    else
      selectedDecision relation operation request front.mapping
        (isExactSelection request front.mapping (front :: rest) containsUnmappedStructure)

/-- `Classify` after its validation. -/
def classifyValidated (relation : CompiledRelation) (operation : CompiledOperation)
    (request : ScanRequest) : Except Fault PredicatePlanDecision :=
  if request.requestedPredicate.isUnrestricted then
    fallbackDecision relation operation request .unsupported .noRemoteCandidate
  else if !request.capabilities.selectivePredicate || !request.capabilities.retainsPredicate then
    fallbackDecision relation operation request .unsupported .capabilityUnavailable
  else
    match request.requestedPredicate with
    | .disjunction _ =>
      fallbackDecision relation operation request .unsupported .disjunctionEncodingUnavailable
    | .negation _ =>
      fallbackDecision relation operation request .unsupported .complementEncodingUnavailable
    | .unsupported _ =>
      fallbackDecision relation operation request .unsupported .structureUnsupported
    | candidate => do
      let found ← collectConjunctiveMatches relation operation candidate
      classifyMatches relation operation request found.1 found.2

/-- The decision about the filter of a request. -/
def classify (relation : CompiledRelation) (operation : CompiledOperation)
    (request : ScanRequest) : Except Fault PredicatePlanDecision := do
  validateCandidateContract relation request
  let _ ← forEach (validateMappingFacts operation)
    (relation.predicateMappings.filter fun mapping => mapping.operationName == operation.name)
  classifyValidated relation operation request

-- ---------------------------------------------------------------------------
-- Candidate bindings of operation selection
-- ---------------------------------------------------------------------------

/-- A value that an input would be sent with. -/
structure CandidateInputBinding where
  name : Bytes
  encodedValue : Bytes
  deriving DecidableEq

/-- The values that the matches ask for, and whether two of them differ. -/
structure CandidateInputBindings where
  values : List CandidateInputBinding
  conflicting : Bool

/-- The loop over the matches; `none` is the early return on a conflict. -/
def bindCandidates (values : List CandidateInputBinding) :
    List MatchedCandidate → Option (List CandidateInputBinding)
  | [] => some values
  | found :: rest =>
    match values.find? fun binding => binding.name == found.mapping.remoteInputName with
    | none => bindCandidates
        (values ++ [⟨found.mapping.remoteInputName, found.mapping.encodedRemoteValue⟩]) rest
    | some existing =>
      if existing.encodedValue != found.mapping.encodedRemoteValue then none
      else bindCandidates values rest

/-- The sorted bindings of the matches, or the conflict. The names are distinct,
so every sort gives the same list. -/
def candidateBindingsOf (found : List MatchedCandidate) : CandidateInputBindings :=
  match bindCandidates [] found with
  | some values => ⟨values.insertionSort fun left right => left.name ≤ right.name, false⟩
  | none => ⟨[], true⟩

/-- The values of all matches of a filter, collected by input. -/
def resolveCandidateInputBindings (relation : CompiledRelation) (operation : CompiledOperation)
    (request : ScanRequest) : Except Fault CandidateInputBindings := do
  validateCandidateContract relation request
  if !request.capabilities.selectivePredicate || !request.capabilities.retainsPredicate then
    pure ⟨[], false⟩
  else
    match request.requestedPredicate with
    | .comparison index type literal => do
      let found ← collectConjunctiveMatches relation operation (.comparison index type literal)
      pure (candidateBindingsOf found.1)
    | .conjunction children => do
      let found ← collectConjunctiveMatches relation operation (.conjunction children)
      pure (candidateBindingsOf found.1)
    | _ => pure ⟨[], false⟩

-- ---------------------------------------------------------------------------
-- What the walk finds
-- ---------------------------------------------------------------------------

section Walk

variable (relation : CompiledRelation) (operation : CompiledOperation)

mutual

/-- The mapped comparisons under the nested conjunctions, with their mappings. -/
def conjunctiveMatches : RequestedPredicate → List MatchedCandidate
  | .comparison index type literal =>
    (relation.predicateMappings.filter fun mapping =>
      mappingApplies relation operation mapping (.comparison index type literal)).map
        fun mapping => ⟨mapping, .comparison index type literal⟩
  | .conjunction children => allConjunctiveMatches children
  | _ => []

def allConjunctiveMatches : List RequestedPredicate → List MatchedCandidate
  | [] => []
  | child :: rest => conjunctiveMatches child ++ allConjunctiveMatches rest

end

mutual

/-- Something under the nested conjunctions is not a mapped comparison. -/
def hasUnmappedStructure : RequestedPredicate → Bool
  | .unrestricted => false
  | .comparison index type literal =>
    (conjunctiveMatches relation operation (.comparison index type literal)).isEmpty
  | .conjunction children => anyUnmappedStructure children
  | _ => true

/-- Some part of a conjunction is matched by no mapping. -/
def anyUnmappedStructure : List RequestedPredicate → Bool
  | [] => false
  | child :: rest => hasUnmappedStructure child || anyUnmappedStructure rest

end

variable {relation operation}

/-- What a match says about the mapping and the comparison. -/
theorem mappingMatches_eq_ok {mapping : CompiledPredicateMapping}
    {candidate : RequestedPredicate} {matched : Bool}
    (h : mappingMatches relation operation mapping candidate = .ok matched) :
    matched = mappingApplies relation operation mapping candidate ∧
      (matched = true → validateMappingFacts operation mapping = .ok ()) := by
  unfold mappingMatches at h
  split at h
  · rename_i happlies
    obtain ⟨_, hfacts, h⟩ := bind_eq_ok.mp h
    obtain rfl := pure_eq_ok.mp h
    exact ⟨happlies.symm, fun _ => hfacts⟩
  · rename_i happlies
    obtain rfl := pure_eq_ok.mp h
    exact ⟨(Bool.not_eq_true _ ▸ happlies).symm, fun hfalse => nomatch hfalse⟩

/-- The mappings that match a comparison are those that the relation has. -/
theorem matchingMappings_eq_ok {candidate : RequestedPredicate}
    {mappings : List CompiledPredicateMapping} {found : List MatchedCandidate}
    (h : matchingMappings relation operation candidate mappings = .ok found) :
    found = (mappings.filter fun mapping => mappingApplies relation operation mapping candidate).map
      fun mapping => ⟨mapping, candidate⟩ := by
  induction mappings generalizing found with
  | nil =>
    obtain rfl := pure_eq_ok.mp h
    rfl
  | cons mapping rest ih =>
    obtain ⟨matched, hmatched, h⟩ := bind_eq_ok.mp h
    obtain ⟨others, hothers, h⟩ := bind_eq_ok.mp h
    obtain rfl := pure_eq_ok.mp h
    obtain ⟨rfl, -⟩ := mappingMatches_eq_ok hmatched
    obtain rfl := ih hothers
    rw [List.filter_cons]
    split <;> rfl

mutual

/-- The matches of a filter are those of its conjuncts. -/
theorem collectConjunctiveMatches_spec : ∀ (candidate : RequestedPredicate)
    {result : List MatchedCandidate × Bool},
    collectConjunctiveMatches relation operation candidate = .ok result →
      result = (conjunctiveMatches relation operation candidate,
        hasUnmappedStructure relation operation candidate)
  | .unrestricted, result, h => by
    obtain rfl := pure_eq_ok.mp (by rwa [collectConjunctiveMatches] at h)
    rw [conjunctiveMatches, hasUnmappedStructure]
    · exact fun _ _ _ h => nomatch h
    · exact fun _ h => nomatch h
  | .comparison index type literal, result, h => by
    rw [collectConjunctiveMatches] at h
    obtain ⟨found, hfound, h⟩ := bind_eq_ok.mp h
    obtain rfl := pure_eq_ok.mp h
    obtain rfl := matchingMappings_eq_ok hfound
    rw [hasUnmappedStructure, conjunctiveMatches]
  | .conjunction children, result, h => by
    rw [collectConjunctiveMatches] at h
    rw [conjunctiveMatches, hasUnmappedStructure]
    exact collectAllConjunctiveMatches_spec children h
  | .disjunction _, result, h => by
    obtain rfl := pure_eq_ok.mp (by rwa [collectConjunctiveMatches] at h)
    simp [conjunctiveMatches, hasUnmappedStructure]
  | .negation _, result, h => by
    obtain rfl := pure_eq_ok.mp (by rwa [collectConjunctiveMatches] at h)
    simp [conjunctiveMatches, hasUnmappedStructure]
  | .unsupported _, result, h => by
    obtain rfl := pure_eq_ok.mp (by rwa [collectConjunctiveMatches] at h)
    simp [conjunctiveMatches, hasUnmappedStructure]

theorem collectAllConjunctiveMatches_spec : ∀ (children : List RequestedPredicate)
    {result : List MatchedCandidate × Bool},
    collectAllConjunctiveMatches relation operation children = .ok result →
      result = (allConjunctiveMatches relation operation children,
        anyUnmappedStructure relation operation children)
  | [], result, h => by
    obtain rfl := pure_eq_ok.mp (by rwa [collectAllConjunctiveMatches] at h)
    rw [allConjunctiveMatches, anyUnmappedStructure]
  | child :: rest, result, h => by
    rw [collectAllConjunctiveMatches] at h
    obtain ⟨first, hfirst, h⟩ := bind_eq_ok.mp h
    obtain ⟨others, hothers, h⟩ := bind_eq_ok.mp h
    obtain rfl := pure_eq_ok.mp h
    obtain rfl := collectConjunctiveMatches_spec child hfirst
    obtain rfl := collectAllConjunctiveMatches_spec rest hothers
    rw [allConjunctiveMatches, anyUnmappedStructure]

end

/-- A match pairs a comparison with a mapping of the relation that applies to it. -/
def IsMatch (relation : CompiledRelation) (operation : CompiledOperation)
    (found : MatchedCandidate) : Prop :=
  found.mapping ∈ relation.predicateMappings ∧
    mappingApplies relation operation found.mapping found.candidate = true

mutual

/-- Each of the matches is one. -/
theorem isMatch_of_mem : ∀ (candidate : RequestedPredicate) {found : MatchedCandidate},
    found ∈ conjunctiveMatches relation operation candidate → IsMatch relation operation found
  | .comparison index type literal, found, h => by
    rw [conjunctiveMatches, List.mem_map] at h
    obtain ⟨mapping, hmapping, rfl⟩ := h
    exact List.mem_filter.mp hmapping
  | .conjunction children, found, h => by
    rw [conjunctiveMatches] at h
    exact isMatch_of_mem_all children h
  | .unrestricted, found, h => by simp [conjunctiveMatches] at h
  | .disjunction _, found, h => by simp [conjunctiveMatches] at h
  | .negation _, found, h => by simp [conjunctiveMatches] at h
  | .unsupported _, found, h => by simp [conjunctiveMatches] at h

theorem isMatch_of_mem_all : ∀ (children : List RequestedPredicate) {found : MatchedCandidate},
    found ∈ allConjunctiveMatches relation operation children → IsMatch relation operation found
  | [], found, h => by simp [allConjunctiveMatches] at h
  | child :: rest, found, h => by
    rw [allConjunctiveMatches, List.mem_append] at h
    rcases h with h | h
    · exact isMatch_of_mem child h
    · exact isMatch_of_mem_all rest h

end

end Walk

-- ---------------------------------------------------------------------------
-- What a decision is
-- ---------------------------------------------------------------------------

section Decisions

variable (relation : CompiledRelation) (operation : CompiledOperation) (request : ScanRequest)

/-- The matches that a selection rests on; none where the capabilities are
missing or two matches disagree. -/
def selectedMatches : List MatchedCandidate :=
  if request.capabilities.selectivePredicate && request.capabilities.retainsPredicate &&
      allMatchesEquivalent (conjunctiveMatches relation operation request.requestedPredicate) then
    conjunctiveMatches relation operation request.requestedPredicate
  else []

variable {relation operation request} {decision : PredicatePlanDecision}

/-- A decision that restricts nothing. -/
def IsFallback (relation : CompiledRelation) (operation : CompiledOperation)
    (request : ScanRequest) (decision : PredicatePlanDecision) : Prop :=
  ∃ category reason, (category = .unsupported ∨ category = .ambiguous) ∧
    fallbackDecision relation operation request category reason = .ok decision

/-- The selection of one mapping. -/
def IsSelection (relation : CompiledRelation) (operation : CompiledOperation)
    (request : ScanRequest) (front : MatchedCandidate) (rest : List MatchedCandidate)
    (decision : PredicatePlanDecision) : Prop :=
  selectedDecision relation operation request front.mapping
    (isExactSelection request front.mapping (front :: rest)
      (hasUnmappedStructure relation operation request.requestedPredicate)) = .ok decision

/-- The decisions that the matches of a filter lead to. -/
theorem classifyMatches_cases {found : List MatchedCandidate} {unmapped : Bool}
    (h : classifyMatches relation operation request found unmapped = .ok decision) :
    (IsFallback relation operation request decision ∧
        (found = [] ∨ allMatchesEquivalent found = false)) ∨
      ∃ front rest, found = front :: rest ∧ allMatchesEquivalent found = true ∧
        selectedDecision relation operation request front.mapping
          (isExactSelection request front.mapping found unmapped) = .ok decision := by
  cases found with
  | nil => exact Or.inl ⟨⟨_, _, Or.inl rfl, h⟩, Or.inl rfl⟩
  | cons front rest =>
    rw [classifyMatches] at h
    split at h
    · rename_i hambiguous
      rw [Bool.and_eq_true, Bool.not_eq_true'] at hambiguous
      exact Or.inl ⟨⟨_, _, Or.inr rfl, h⟩, Or.inr hambiguous.2⟩
    · rename_i hclear
      refine Or.inr ⟨front, rest, rfl, ?_, h⟩
      cases rest with
      | nil => rfl
      | cons => simpa using hclear

/-- The decisions that a valid filter leads to. -/
theorem classifyValidated_cases
    (h : classifyValidated relation operation request = .ok decision) :
    (selectedMatches relation operation request = [] ∧
        IsFallback relation operation request decision) ∨
      ∃ front rest, selectedMatches relation operation request = front :: rest ∧
        IsSelection relation operation request front rest decision := by
  unfold classifyValidated at h
  split at h
  · -- an unrestricted predicate offers nothing
    rename_i hunrestricted
    refine Or.inl ⟨?_, _, _, Or.inl rfl, h⟩
    unfold selectedMatches
    cases hp : request.requestedPredicate <;>
      simp [hp, RequestedPredicate.isUnrestricted] at hunrestricted
    simp [conjunctiveMatches]
  · split at h
    · rename_i hcapabilities
      refine Or.inl ⟨?_, _, _, Or.inl rfl, h⟩
      unfold selectedMatches
      rw [if_neg]
      cases hs : request.capabilities.selectivePredicate <;>
        cases hr : request.capabilities.retainsPredicate <;> simp_all
    · rename_i hcapabilities
      have hcaps : (request.capabilities.selectivePredicate &&
          request.capabilities.retainsPredicate) = true := by
        cases hs : request.capabilities.selectivePredicate <;>
          cases hr : request.capabilities.retainsPredicate <;> simp_all
      split at h
      · rename_i hp
        exact Or.inl ⟨by simp [selectedMatches, hp, conjunctiveMatches], _, _, Or.inl rfl, h⟩
      · rename_i hp
        exact Or.inl ⟨by simp [selectedMatches, hp, conjunctiveMatches], _, _, Or.inl rfl, h⟩
      · rename_i hp
        exact Or.inl ⟨by simp [selectedMatches, hp, conjunctiveMatches], _, _, Or.inl rfl, h⟩
      · obtain ⟨found, hfound, h⟩ := bind_eq_ok.mp h
        obtain rfl := collectConjunctiveMatches_spec _ hfound
        unfold selectedMatches
        rcases classifyMatches_cases h with ⟨hfallback, hnone⟩ | ⟨front, rest, hsome, heq, h⟩
        · refine Or.inl ⟨?_, hfallback⟩
          rcases hnone with hnone | hnone
          · simp only at hnone
            rw [hnone, ite_self]
          · simp only at hnone
            simp [hnone]
        · simp only at hsome heq h
          refine Or.inr ⟨front, rest, ?_, ?_⟩
          · rw [hcaps, heq, Bool.and_self, if_pos rfl, hsome]
          · unfold IsSelection
            rwa [hsome] at h

/-- The decisions that a request leads to. -/
theorem classify_cases (h : classify relation operation request = .ok decision) :
    (selectedMatches relation operation request = [] ∧
        IsFallback relation operation request decision) ∨
      ∃ front rest, selectedMatches relation operation request = front :: rest ∧
        IsSelection relation operation request front rest decision := by
  obtain ⟨_, -, h⟩ := bind_eq_ok.mp h
  obtain ⟨_, -, h⟩ := bind_eq_ok.mp h
  exact classifyValidated_cases h

/-- Every mapping of the operation has been checked. -/
theorem classify_facts (h : classify relation operation request = .ok decision)
    {mapping : CompiledPredicateMapping} (hmem : mapping ∈ relation.predicateMappings)
    (hname : mapping.operationName = operation.name) :
    validateMappingFacts operation mapping = .ok () := by
  obtain ⟨_, -, h⟩ := bind_eq_ok.mp h
  obtain ⟨_, hfacts, -⟩ := bind_eq_ok.mp h
  have hmem : mapping ∈ relation.predicateMappings.filter fun mapping =>
      mapping.operationName == operation.name := List.mem_filter.mpr ⟨hmem, by simpa using hname⟩
  obtain ⟨_, -, hone⟩ := forEach_of_mem hfacts hmem
  exact hone

end Decisions

end Cuac.Semantics

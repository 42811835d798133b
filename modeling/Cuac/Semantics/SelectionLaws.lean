import Cuac.Predicate.Soundness
import Cuac.Semantics.OperationSelection

/-!
# Laws of operation selection

Selection is a function of the operations as a set, and a predicate alone can
make a relation with a fallback unplannable in one way only.

Main results:

* `selection_ignores_order` — permuting the operations changes nothing, the
  winner needs strictly more inputs than each other eligible operation, and the
  fallback is chosen exactly where nothing else is eligible.
* `selection_fails_only_on_conflicting_fallback` — selection fails without a tie
  exactly where nothing else is eligible and the fallback's own mappings match
  two literals.
-/

namespace Cuac.Semantics

open Cuac.Lib Cuac.Connector Cuac.Query

-- ---------------------------------------------------------------------------
-- Judging does not throw
-- ---------------------------------------------------------------------------

section Total

variable {relation : CompiledRelation} {operation : CompiledOperation} {request : ScanRequest}

/-- Every mapping of the operation is complete. -/
def FactsHold (relation : CompiledRelation) (operation : CompiledOperation) : Prop :=
  ∀ mapping ∈ relation.predicateMappings, mapping.operationName = operation.name →
    validateMappingFacts operation mapping = .ok ()

theorem factsHold_of_valid (hvalid : ValidRelation relation) (operation : CompiledOperation) :
    FactsHold relation operation := by
  intro mapping hmem hname
  have hcomplete := hvalid.mapping mapping hmem
  have hoccurrences : mapping.occurrencePreservation = expectedOccurrences mapping.accuracy :=
    hcomplete.occurrences
  simp only [validateMappingFacts, bind_eq_ok, throwIf_eq_ok, Bool.or_eq_false_iff,
    bne_eq_false_iff_eq, List.isEmpty_eq_false_iff, exists_const]
  exact ⟨⟨hname, hcomplete.remoteInput⟩, ⟨⟨⟨⟨⟨hcomplete.literal, hcomplete.proof⟩,
    hcomplete.domain⟩, hcomplete.matching⟩, hcomplete.falseOrNull⟩, hcomplete.duplicates⟩,
    hoccurrences⟩

theorem operationName_of_applies {mapping : CompiledPredicateMapping}
    {candidate : RequestedPredicate}
    (h : mappingApplies relation operation mapping candidate = true) :
    mapping.operationName = operation.name := by
  cases candidate with
  | comparison =>
    simp only [mappingApplies, Bool.and_eq_true, beq_iff_eq] at h
    exact h.1
  | _ => cases h

theorem mappingMatches_total (hfacts : FactsHold relation operation)
    {mapping : CompiledPredicateMapping} (hmem : mapping ∈ relation.predicateMappings)
    (candidate : RequestedPredicate) :
    ∃ matched, mappingMatches relation operation mapping candidate = .ok matched := by
  unfold mappingMatches
  split
  · rename_i happlies
    have hvalid := hfacts mapping hmem (operationName_of_applies happlies)
    exact ⟨true, bind_eq_ok.mpr ⟨(), hvalid, rfl⟩⟩
  · exact ⟨false, rfl⟩

theorem matchingMappings_total (hfacts : FactsHold relation operation)
    (candidate : RequestedPredicate) {mappings : List CompiledPredicateMapping}
    (hsub : ∀ mapping ∈ mappings, mapping ∈ relation.predicateMappings) :
    ∃ found, matchingMappings relation operation candidate mappings = .ok found := by
  induction mappings with
  | nil => exact ⟨[], rfl⟩
  | cons mapping rest ih =>
    obtain ⟨matched, hmatched⟩ :=
      mappingMatches_total hfacts (hsub mapping List.mem_cons_self) candidate
    obtain ⟨others, hothers⟩ := ih fun other hother => hsub other (List.mem_cons_of_mem _ hother)
    rw [matchingMappings]
    exact ⟨_, bind_eq_ok.mpr ⟨matched, hmatched, bind_eq_ok.mpr ⟨others, hothers, rfl⟩⟩⟩

mutual

theorem collectConjunctiveMatches_total (hfacts : FactsHold relation operation) :
    ∀ candidate : RequestedPredicate,
      ∃ result, collectConjunctiveMatches relation operation candidate = .ok result
  | .unrestricted => ⟨_, by rw [collectConjunctiveMatches]; rfl⟩
  | .comparison index type literal => by
    obtain ⟨found, hfound⟩ := matchingMappings_total hfacts (.comparison index type literal)
      fun mapping hmem => hmem
    rw [collectConjunctiveMatches]
    exact ⟨_, bind_eq_ok.mpr ⟨found, hfound, rfl⟩⟩
  | .conjunction children => by
    rw [collectConjunctiveMatches]
    exact collectAllConjunctiveMatches_total hfacts children
  | .disjunction _ => ⟨_, by rw [collectConjunctiveMatches]; rfl⟩
  | .negation _ => ⟨_, by rw [collectConjunctiveMatches]; rfl⟩
  | .unsupported _ => ⟨_, by rw [collectConjunctiveMatches]; rfl⟩

theorem collectAllConjunctiveMatches_total (hfacts : FactsHold relation operation) :
    ∀ children : List RequestedPredicate,
      ∃ result, collectAllConjunctiveMatches relation operation children = .ok result
  | [] => ⟨_, by rw [collectAllConjunctiveMatches]; rfl⟩
  | child :: rest => by
    obtain ⟨first, hfirst⟩ := collectConjunctiveMatches_total hfacts child
    obtain ⟨others, hothers⟩ := collectAllConjunctiveMatches_total hfacts rest
    rw [collectAllConjunctiveMatches]
    exact ⟨_, bind_eq_ok.mpr ⟨first, hfirst, bind_eq_ok.mpr ⟨others, hothers, rfl⟩⟩⟩

end

/-- The bindings that selection judges an operation by. -/
def candidateBindings (relation : CompiledRelation) (operation : CompiledOperation)
    (request : ScanRequest) : CandidateInputBindings :=
  if request.capabilities.selectivePredicate && request.capabilities.retainsPredicate then
    candidateBindingsOf (conjunctiveMatches relation operation request.requestedPredicate)
  else ⟨[], false⟩

theorem candidateBindingsOf_nil : candidateBindingsOf [] = ⟨[], false⟩ := by
  simp [candidateBindingsOf, bindCandidates]

theorem not_capable {selective retains : Bool} (h : ¬(!selective || !retains) = true) :
    (selective && retains) = true := by
  cases selective <;> cases retains <;> simp_all

/-- Whatever they are resolved to, it is that. -/
theorem resolveCandidateInputBindings_eq_ok {bindings : CandidateInputBindings}
    (h : resolveCandidateInputBindings relation operation request = .ok bindings) :
    validateCandidateContract relation request = .ok () ∧
      bindings = candidateBindings relation operation request := by
  obtain ⟨_, hcontract, h⟩ := bind_eq_ok.mp h
  refine ⟨hcontract, ?_⟩
  unfold candidateBindings
  split at h
  · rename_i hincapable
    obtain rfl := pure_eq_ok.mp h
    rw [if_neg]
    cases hs : request.capabilities.selectivePredicate <;>
      cases hr : request.capabilities.retainsPredicate <;> simp_all
  · rename_i hcapable
    rw [not_capable hcapable, if_pos rfl]
    split at h
    · rename_i hp
      obtain ⟨found, hfound, h⟩ := bind_eq_ok.mp h
      obtain rfl := pure_eq_ok.mp h
      obtain rfl := collectConjunctiveMatches_spec _ hfound
      rw [hp]
    · rename_i hp
      obtain ⟨found, hfound, h⟩ := bind_eq_ok.mp h
      obtain rfl := pure_eq_ok.mp h
      obtain rfl := collectConjunctiveMatches_spec _ hfound
      rw [hp]
    · rename_i hcomparison hconjunction
      obtain rfl := pure_eq_ok.mp h
      have hnone : conjunctiveMatches relation operation request.requestedPredicate = [] := by
        cases hp : request.requestedPredicate with
        | comparison index type literal => exact absurd hp (hcomparison index type literal)
        | conjunction children => exact absurd hp (hconjunction children)
        | _ => simp [conjunctiveMatches]
      rw [hnone, candidateBindingsOf_nil]

theorem resolveCandidateInputBindings_total (hfacts : FactsHold relation operation)
    (hcontract : validateCandidateContract relation request = .ok ()) :
    resolveCandidateInputBindings relation operation request =
      .ok (candidateBindings relation operation request) := by
  have hreturns : ∃ bindings,
      resolveCandidateInputBindings relation operation request = .ok bindings := by
    unfold resolveCandidateInputBindings
    split
    · exact ⟨_, bind_eq_ok.mpr ⟨(), hcontract, rfl⟩⟩
    · split
      · obtain ⟨found, hfound⟩ := collectConjunctiveMatches_total hfacts _
        exact ⟨_, bind_eq_ok.mpr ⟨(), hcontract, bind_eq_ok.mpr ⟨found, hfound, rfl⟩⟩⟩
      · obtain ⟨found, hfound⟩ := collectConjunctiveMatches_total hfacts _
        exact ⟨_, bind_eq_ok.mpr ⟨(), hcontract, bind_eq_ok.mpr ⟨found, hfound, rfl⟩⟩⟩
      · exact ⟨_, bind_eq_ok.mpr ⟨(), hcontract, rfl⟩⟩
  obtain ⟨bindings, hbindings⟩ := hreturns
  rw [hbindings, (resolveCandidateInputBindings_eq_ok hbindings).2]

/-- Judging an operation of an accepted relation returns on every valid predicate. -/
theorem evaluate_total (hfacts : FactsHold relation operation)
    (hcontract : validateCandidateContract relation request = .ok ())
    (inputs : ResolvedRelationInputs) :
    evaluate relation request inputs operation =
      .ok (evaluateV1 operation inputs (candidateBindings relation operation request)) :=
  bind_eq_ok.mpr ⟨_, resolveCandidateInputBindings_total hfacts hcontract, rfl⟩

theorem evaluate_eq_ok {inputs : ResolvedRelationInputs} {result : Option EligibleOperation}
    (h : evaluate relation request inputs operation = .ok result) :
    validateCandidateContract relation request = .ok () ∧
      result = evaluateV1 operation inputs (candidateBindings relation operation request) := by
  obtain ⟨bindings, hbindings, h⟩ := bind_eq_ok.mp h
  obtain rfl := pure_eq_ok.mp h
  obtain ⟨hcontract, rfl⟩ := resolveCandidateInputBindings_eq_ok hbindings
  exact ⟨hcontract, rfl⟩

end Total

-- ---------------------------------------------------------------------------
-- Judging one operation does not look at the others
-- ---------------------------------------------------------------------------

section Congruence

variable {relation other : CompiledRelation} {operation : CompiledOperation}

mutual

theorem validateCandidateBindings_congr (hcolumns : relation.columns = other.columns) :
    ∀ candidate : RequestedPredicate,
      validateCandidateBindings relation candidate = validateCandidateBindings other candidate
  | .unrestricted => by rw [validateCandidateBindings, validateCandidateBindings]
  | .unsupported _ => by rw [validateCandidateBindings, validateCandidateBindings]
  | .comparison _ _ _ => by rw [validateCandidateBindings, validateCandidateBindings, hcolumns]
  | .conjunction children => by
    rw [validateCandidateBindings, validateCandidateBindings,
      validateAllCandidateBindings_congr hcolumns children]
  | .disjunction children => by
    rw [validateCandidateBindings, validateCandidateBindings,
      validateAllCandidateBindings_congr hcolumns children]
  | .negation child => by
    rw [validateCandidateBindings, validateCandidateBindings,
      validateCandidateBindings_congr hcolumns child]

theorem validateAllCandidateBindings_congr (hcolumns : relation.columns = other.columns) :
    ∀ children : List RequestedPredicate,
      validateAllCandidateBindings relation children = validateAllCandidateBindings other children
  | [] => by rw [validateAllCandidateBindings, validateAllCandidateBindings]
  | child :: rest => by
    rw [validateAllCandidateBindings, validateAllCandidateBindings,
      validateCandidateBindings_congr hcolumns child,
      validateAllCandidateBindings_congr hcolumns rest]

end

theorem mappingMatches_congr (hcolumns : relation.columns = other.columns)
    (mapping : CompiledPredicateMapping) (candidate : RequestedPredicate) :
    mappingMatches relation operation mapping candidate =
      mappingMatches other operation mapping candidate := by
  have happlies : mappingApplies relation operation mapping candidate =
      mappingApplies other operation mapping candidate := by
    cases candidate with
    | comparison => simp only [mappingApplies, hcolumns]
    | _ => rfl
  rw [mappingMatches, mappingMatches, happlies]

theorem matchingMappings_congr (hcolumns : relation.columns = other.columns)
    (candidate : RequestedPredicate) (mappings : List CompiledPredicateMapping) :
    matchingMappings relation operation candidate mappings =
      matchingMappings other operation candidate mappings := by
  induction mappings with
  | nil => rfl
  | cons mapping rest ih =>
    rw [matchingMappings, matchingMappings, mappingMatches_congr hcolumns, ih]

mutual

theorem collectConjunctiveMatches_congr (hcolumns : relation.columns = other.columns)
    (hmappings : relation.predicateMappings = other.predicateMappings) :
    ∀ candidate : RequestedPredicate, collectConjunctiveMatches relation operation candidate =
      collectConjunctiveMatches other operation candidate
  | .unrestricted => by rw [collectConjunctiveMatches, collectConjunctiveMatches]
  | .comparison _ _ _ => by
    rw [collectConjunctiveMatches, collectConjunctiveMatches, matchingMappings_congr hcolumns,
      hmappings]
  | .conjunction children => by
    rw [collectConjunctiveMatches, collectConjunctiveMatches,
      collectAllConjunctiveMatches_congr hcolumns hmappings children]
  | .disjunction _ => by rw [collectConjunctiveMatches, collectConjunctiveMatches]
  | .negation _ => by rw [collectConjunctiveMatches, collectConjunctiveMatches]
  | .unsupported _ => by rw [collectConjunctiveMatches, collectConjunctiveMatches]

theorem collectAllConjunctiveMatches_congr (hcolumns : relation.columns = other.columns)
    (hmappings : relation.predicateMappings = other.predicateMappings) :
    ∀ children : List RequestedPredicate,
      collectAllConjunctiveMatches relation operation children =
        collectAllConjunctiveMatches other operation children
  | [] => by rw [collectAllConjunctiveMatches, collectAllConjunctiveMatches]
  | child :: rest => by
    rw [collectAllConjunctiveMatches, collectAllConjunctiveMatches,
      collectConjunctiveMatches_congr hcolumns hmappings child,
      collectAllConjunctiveMatches_congr hcolumns hmappings rest]

end

theorem evaluate_congr (hcolumns : relation.columns = other.columns)
    (hmappings : relation.predicateMappings = other.predicateMappings) (request : ScanRequest)
    (inputs : ResolvedRelationInputs) :
    evaluate relation request inputs = evaluate other request inputs := by
  funext operation
  unfold evaluate resolveCandidateInputBindings validateCandidateContract
  rw [validateCandidateBindings_congr hcolumns]
  simp only [collectConjunctiveMatches_congr hcolumns hmappings]

end Congruence

-- ---------------------------------------------------------------------------
-- Selection as a function of the set of operations
-- ---------------------------------------------------------------------------

section Laws

variable {relation : CompiledRelation} {request : ScanRequest} {inputs : ResolvedRelationInputs}
  {operation : CompiledOperation}

/-- An operation that selection may choose. -/
def Eligible (relation : CompiledRelation) (request : ScanRequest)
    (inputs : ResolvedRelationInputs) (operation : CompiledOperation) : Prop :=
  ∃ candidate, evaluate relation request inputs operation = .ok (some candidate)

/-- A candidate is the operation it was judged for, ranked by its selector. -/
theorem evaluate_some {candidate : EligibleOperation}
    (h : evaluate relation request inputs operation = .ok (some candidate)) :
    candidate = ⟨operation, operation.selector.length, 0⟩ := by
  obtain ⟨-, h⟩ := evaluate_eq_ok h
  unfold evaluateV1 at h
  split at h
  · cases h
  · split at h
    · exact Option.some.inj h
    · cases h

theorem candidate?_eq_some {candidate : EligibleOperation} :
    candidate? (evaluate relation request inputs) operation = some candidate ↔
      operation.fallback = false ∧
        evaluate relation request inputs operation = .ok (some candidate) := by
  unfold candidate?
  cases operation.fallback with
  | true => simp
  | false =>
    cases evaluate relation request inputs operation with
    | error fault => simp
    | ok result => simp

/-- The candidates are the eligible operations other than the fallback. -/
theorem mem_candidates {candidate : EligibleOperation} {operations : List CompiledOperation}
    (h : candidate ∈ candidates (evaluate relation request inputs) operations) :
    candidate.operation ∈ operations ∧ candidate.operation.fallback = false ∧
      Eligible relation request inputs candidate.operation ∧
      candidate = ⟨candidate.operation, candidate.operation.selector.length, 0⟩ := by
  obtain ⟨operation, hmem, hcandidate⟩ := List.mem_filterMap.mp h
  obtain ⟨hfallback, hjudge⟩ := candidate?_eq_some.mp hcandidate
  obtain rfl := evaluate_some hjudge
  exact ⟨hmem, hfallback, ⟨_, hjudge⟩, rfl⟩

theorem candidate_of_eligible (hfallback : operation.fallback = false)
    (h : Eligible relation request inputs operation) :
    candidate? (evaluate relation request inputs) operation =
      some ⟨operation, operation.selector.length, 0⟩ := by
  obtain ⟨candidate, hjudge⟩ := h
  obtain rfl := evaluate_some hjudge
  exact candidate?_eq_some.mpr ⟨hfallback, hjudge⟩

theorem candidates_eq_nil {operations : List CompiledOperation} :
    candidates (evaluate relation request inputs) operations = [] ↔
      ∀ operation ∈ operations, operation.fallback = false →
        ¬Eligible relation request inputs operation := by
  unfold candidates
  rw [List.filterMap_eq_nil_iff]
  constructor
  · intro hnone operation hmem hfallback heligible
    have hcandidate := hnone operation hmem
    rw [candidate_of_eligible hfallback heligible] at hcandidate
    cases hcandidate
  · intro hnone operation hmem
    cases hcandidate : candidate? (evaluate relation request inputs) operation with
    | none => rfl
    | some candidate =>
      obtain ⟨hfallback, hjudge⟩ := candidate?_eq_some.mp hcandidate
      exact absurd ⟨candidate, hjudge⟩ (hnone operation hmem hfallback)

theorem rank_lt {left right : CompiledOperation} :
    EligibleOperation.rank ⟨left, left.selector.length, 0⟩ <
        EligibleOperation.rank ⟨right, right.selector.length, 0⟩ ↔
      left.selector.length < right.selector.length := by
  simp [EligibleOperation.rank, Prod.Lex.toLex_lt_toLex]

theorem rank_eq {left right : CompiledOperation} :
    EligibleOperation.rank ⟨left, left.selector.length, 0⟩ =
        EligibleOperation.rank ⟨right, right.selector.length, 0⟩ ↔
      left.selector.length = right.selector.length := by
  simp [EligibleOperation.rank, Prod.ext_iff]

/-- A candidate in front comes from an operation in front. -/
theorem exists_operation_of_candidate {operations : List CompiledOperation}
    {candidate : EligibleOperation} {others : List EligibleOperation}
    (h : (candidates (evaluate relation request inputs) operations).Perm (candidate :: others)) :
    ∃ rest, operations.Perm (candidate.operation :: rest) ∧
      candidate.operation.fallback = false ∧
      Eligible relation request inputs candidate.operation ∧
      (candidates (evaluate relation request inputs) rest).Perm others := by
  have hmem : candidate ∈ candidates (evaluate relation request inputs) operations :=
    h.symm.subset List.mem_cons_self
  obtain ⟨hoperation, hfallback, heligible, hrank⟩ := mem_candidates hmem
  obtain ⟨before, after, hsplit⟩ := List.append_of_mem hoperation
  have hperm : operations.Perm (candidate.operation :: (before ++ after)) := by
    rw [hsplit]
    exact List.perm_middle
  refine ⟨before ++ after, hperm, hfallback, heligible, ?_⟩
  have hcandidates := h.symm.trans (hperm.filterMap (candidate? (evaluate relation request inputs)))
  have hcons : List.filterMap (candidate? (evaluate relation request inputs))
      (candidate.operation :: (before ++ after)) =
      candidate :: candidates (evaluate relation request inputs) (before ++ after) := by
    rw [List.filterMap_cons, candidate_of_eligible hfallback heligible, ← hrank]
    rfl
  rw [hcons] at hcandidates
  exact hcandidates.cons_inv.symm

/-- What the operations say of a candidate, the candidate says of them. -/
theorem candidate_mem {operations : List CompiledOperation} (hmem : operation ∈ operations)
    (hfallback : operation.fallback = false) (h : Eligible relation request inputs operation) :
    (⟨operation, operation.selector.length, 0⟩ : EligibleOperation) ∈
      candidates (evaluate relation request inputs) operations :=
  List.mem_filterMap.mpr ⟨operation, hmem, candidate_of_eligible hfallback h⟩

/-- Two eligible operations, neither of them the fallback, need equally many
inputs, and no eligible one needs more. -/
def Tied (relation : CompiledRelation) (request : ScanRequest)
    (inputs : ResolvedRelationInputs) : Prop :=
  ∃ left right others, relation.operations.Perm (left :: right :: others) ∧
    left.fallback = false ∧ right.fallback = false ∧
    Eligible relation request inputs left ∧ Eligible relation request inputs right ∧
    left.selector.length = right.selector.length ∧
    ∀ other ∈ others, other.fallback = false → Eligible relation request inputs other →
      other.selector.length ≤ left.selector.length

/-- The winner needs strictly more inputs than each other eligible operation. -/
theorem winner_strict (h : selectOperation relation request inputs = .ok operation)
    (hfallback : operation.fallback = false) :
    ∃ others, relation.operations.Perm (operation :: others) ∧
      Eligible relation request inputs operation ∧
      ∀ other ∈ others, other.fallback = false → Eligible relation request inputs other →
        other.selector.length < operation.selector.length := by
  obtain ⟨-, -, hcases⟩ := selectOperation_eq_ok.mp h
  rcases hcases with ⟨best, others, hperm, hlt, rfl⟩ | ⟨-, fallback, hmem, hf, best, hjudge, rfl⟩
  · obtain ⟨rest, hrest, -, heligible, hothers⟩ := exists_operation_of_candidate hperm
    refine ⟨rest, hrest, heligible, fun other hother hnot hother' => ?_⟩
    have hcandidate := hothers.subset (candidate_mem hother hnot hother')
    have hbest := (mem_candidates (hperm.symm.subset List.mem_cons_self)).2.2.2
    have hrank := hlt _ hcandidate
    rw [hbest] at hrank
    exact rank_lt.mp hrank
  · rw [evaluate_some hjudge] at hfallback
    rw [hf] at hfallback
    cases hfallback

/-- No operation is selected under a tie. -/
theorem not_selected_of_tied (h : Tied relation request inputs) :
    ¬∃ operation, selectOperation relation request inputs = .ok operation := by
  rintro ⟨operation, hselect⟩
  obtain ⟨left, right, others, hperm, hleft, hright, hel, her, hequal, hle⟩ := h
  have hcandidates : (candidates (evaluate relation request inputs) relation.operations).Perm
      (⟨left, left.selector.length, 0⟩ :: ⟨right, right.selector.length, 0⟩ ::
        candidates (evaluate relation request inputs) others) := by
    have hfilter := hperm.filterMap (candidate? (evaluate relation request inputs))
    rwa [List.filterMap_cons, candidate_of_eligible hleft hel, List.filterMap_cons,
      candidate_of_eligible hright her] at hfilter
  obtain ⟨-, -, hcases⟩ := selectOperation_eq_ok.mp hselect
  rcases hcases with ⟨best, rest, hbest, hlt, -⟩ | ⟨hnone, -⟩
  · refine Champion.no_winner_of_shared hcandidates (rank_eq.mpr hequal) ?_ ⟨best, rest, hbest, hlt⟩
    intro other hother
    obtain ⟨hmem, hnot, helig, hrank⟩ := mem_candidates hother
    rw [hrank]
    have hlength := hle other.operation hmem hnot helig
    rcases Nat.lt_or_eq_of_le hlength with hlt' | heq
    · exact le_of_lt (rank_lt.mpr hlt')
    · exact le_of_eq (rank_eq.mpr heq)
  · rw [hnone] at hcandidates
    exact absurd hcandidates (List.not_perm_nil_cons _ _)

/-- Without a tie some eligible operation is the winner. -/
theorem selected_or_tied (hjudged : Judged (evaluate relation request inputs) relation.operations)
    (hone : (relation.operations.filter (·.fallback)).length ≤ 1)
    (hsome : candidates (evaluate relation request inputs) relation.operations ≠ []) :
    (∃ operation, selectOperation relation request inputs = .ok operation) ∨
      Tied relation request inputs := by
  have hleads : Champion.Leads EligibleOperation.rank
      (candidates (evaluate relation request inputs) relation.operations)
      (Champion.offers EligibleOperation.rank
        (candidates (evaluate relation request inputs) relation.operations)) :=
    Champion.leads_offers _
  generalize Champion.offers EligibleOperation.rank
    (candidates (evaluate relation request inputs) relation.operations) = champion at hleads
  generalize hcandidates : candidates (evaluate relation request inputs) relation.operations =
    all at hleads hsome
  cases hleads with
  | empty => exact absurd rfl hsome
  | @unique _ others best hperm hlt =>
    rw [← hcandidates] at hperm
    exact Or.inl ⟨best.operation, selectOperation_eq_ok.mpr
      ⟨hjudged, hone, Or.inl ⟨best, others, hperm, hlt, rfl⟩⟩⟩
  | @shared _ others best other hperm hle hmem hequal =>
    rw [← hcandidates] at hperm
    obtain ⟨rest, hrest, hfallback, heligible, hothers⟩ := exists_operation_of_candidate hperm
    obtain ⟨before, after, hsplit⟩ := List.append_of_mem hmem
    have hsecond : (candidates (evaluate relation request inputs) rest).Perm
        (other :: (before ++ after)) := by
      rw [hsplit] at hothers
      exact hothers.trans List.perm_middle
    obtain ⟨rest', hrest', hfallback', heligible', hothers'⟩ :=
      exists_operation_of_candidate hsecond
    have hbest := (mem_candidates (hperm.symm.subset List.mem_cons_self)).2.2.2
    have hother := (mem_candidates (hsecond.symm.subset List.mem_cons_self)).2.2.2
    refine Or.inr ⟨best.operation, other.operation, rest', hrest.trans (hrest'.cons _), hfallback,
      hfallback', heligible, heligible', ?_, fun o ho hnot helig => ?_⟩
    · rw [hbest, hother] at hequal
      exact (rank_eq.mp hequal).symm
    · have hin : (⟨o, o.selector.length, 0⟩ : EligibleOperation) ∈ others := by
        rw [hsplit]
        have hmem' := hothers'.subset (candidate_mem ho hnot helig)
        exact (List.perm_middle.symm.subset (List.mem_cons_of_mem _ hmem'))
      have hrank := hle _ hin
      rw [hbest] at hrank
      by_contra hlt
      exact absurd hrank (not_le.mpr (rank_lt.mpr (Nat.lt_of_not_le hlt)))

/-- The fallback is chosen exactly where it is eligible and nothing else is. -/
theorem fallback_selected_iff (hvalid : ValidRelation relation) :
    (selectOperation relation request inputs = .ok operation ∧ operation.fallback = true) ↔
      (operation ∈ relation.operations ∧ operation.fallback = true ∧
        Eligible relation request inputs operation ∧
        ∀ other ∈ relation.operations, other.fallback = false →
          ¬Eligible relation request inputs other) := by
  constructor
  · rintro ⟨hselect, hfallback⟩
    obtain ⟨-, -, hcases⟩ := selectOperation_eq_ok.mp hselect
    rcases hcases with ⟨best, others, hperm, -, rfl⟩ | ⟨hnone, fallback, hmem, -, best, hjudge, rfl⟩
    · have hnot := (mem_candidates (hperm.symm.subset List.mem_cons_self)).2.1
      rw [hfallback] at hnot
      cases hnot
    · obtain rfl := evaluate_some hjudge
      exact ⟨hmem, hfallback, ⟨_, hjudge⟩, candidates_eq_nil.mp hnone⟩
  · rintro ⟨hmem, hfallback, ⟨best, hjudge⟩, hnone⟩
    have hcontract := (evaluate_eq_ok hjudge).1
    have hjudged : Judged (evaluate relation request inputs) relation.operations :=
      fun other _ _ => ⟨_, evaluate_total (factsHold_of_valid hvalid other) hcontract inputs⟩
    have hbest := evaluate_some hjudge
    refine ⟨selectOperation_eq_ok.mpr ⟨hjudged, hvalid.fallback, Or.inr
      ⟨candidates_eq_nil.mpr hnone, operation, hmem, hfallback, best, hjudge, ?_⟩⟩, hfallback⟩
    rw [hbest]

/-- Selection is a function of the set of operations. -/
theorem selection_ignores_order (relation : CompiledRelation) (request : ScanRequest)
    (inputs : ResolvedRelationInputs) (hvalid : validateRelation relation = .ok ()) :
    (∀ operations, operations.Perm relation.operations → ∀ operation,
        selectOperation { relation with operations := operations } request inputs =
            .ok operation ↔
          selectOperation relation request inputs = .ok operation) ∧
      (∀ operation, selectOperation relation request inputs = .ok operation →
        operation.fallback = false →
        ∃ others, relation.operations.Perm (operation :: others) ∧
          Eligible relation request inputs operation ∧
          ∀ other ∈ others, other.fallback = false → Eligible relation request inputs other →
            other.selector.length < operation.selector.length) ∧
      (∀ operation,
        (selectOperation relation request inputs = .ok operation ∧ operation.fallback = true) ↔
          (operation ∈ relation.operations ∧ operation.fallback = true ∧
            Eligible relation request inputs operation ∧
            ∀ other ∈ relation.operations, other.fallback = false →
              ¬Eligible relation request inputs other)) ∧
      (Tied relation request inputs →
        ¬∃ operation, selectOperation relation request inputs = .ok operation) ∧
      ((∀ operation ∈ relation.operations, ¬Eligible relation request inputs operation) →
        ¬∃ operation, selectOperation relation request inputs = .ok operation) := by
  refine ⟨fun operations hperm operation => ?_, fun operation => winner_strict,
    fun operation => fallback_selected_iff (validateRelation_eq_ok hvalid), not_selected_of_tied, ?_⟩
  · have hjudge : evaluate { relation with operations := operations } request inputs =
        evaluate relation request inputs := by
      apply evaluate_congr <;> rfl
    rw [selectOperation_eq_ok, selectOperation_eq_ok, hjudge]
    exact ⟨Selected.perm hperm, Selected.perm hperm.symm⟩
  · rintro hnone ⟨operation, hselect⟩
    obtain ⟨-, -, hcases⟩ := selectOperation_eq_ok.mp hselect
    rcases hcases with ⟨best, others, hperm, -, -⟩ | ⟨-, fallback, hmem, -, best, hjudge, -⟩
    · obtain ⟨hmem, -, heligible, -⟩ := mem_candidates (hperm.symm.subset List.mem_cons_self)
      exact hnone _ hmem heligible
    · exact hnone fallback hmem ⟨best, hjudge⟩

end Laws

open Cuac.Predicate in
/-- The issues of one state have an operation of their own. -/
def issuesByState : CompiledRelation where
  name := ascii "issues"
  columns := issues.columns
  inputs := []
  predicateMappings := [stateMapping (ascii "by_state") (ascii "open") .exact]
  operations :=
    [issuesOperation (ascii "by_state") false [.conditionalInput (ascii "state")] [stateField],
      issuesOperation (ascii "all") true [] []]
  authentication := issues.authentication
  resourceCeilings := issues.resourceCeilings

open Cuac.Predicate in
/-- Either order selects the operation that the predicate binds. -/
theorem selection_ignores_order_of_two_operations :
    selectOperation { issuesByState with operations := issuesByState.operations.reverse }
        (issuesRequest (stateIs (ascii "open"))) [] =
      .ok (issuesOperation (ascii "by_state") false [.conditionalInput (ascii "state")]
        [stateField]) := by
  have hlaw := selection_ignores_order issuesByState (issuesRequest (stateIs (ascii "open"))) [] rfl
  exact (hlaw.1 issuesByState.operations.reverse (List.reverse_perm _) _).mpr rfl

-- ---------------------------------------------------------------------------
-- Conflicting conditional inputs
-- ---------------------------------------------------------------------------

section Conflicts

variable {found : List MatchedCandidate} {values : List CandidateInputBinding}

/-- Two matches feed one input with different values. -/
def Clash (found : List MatchedCandidate) : Prop :=
  ∃ left ∈ found, ∃ right ∈ found,
    left.mapping.remoteInputName = right.mapping.remoteInputName ∧
      left.mapping.encodedRemoteValue ≠ right.mapping.encodedRemoteValue

/-- A match feeds an input that is bound to another value. -/
def ClashWith (values : List CandidateInputBinding) (found : List MatchedCandidate) : Prop :=
  ∃ value ∈ values, ∃ right ∈ found, value.name = right.mapping.remoteInputName ∧
    value.encodedValue ≠ right.mapping.encodedRemoteValue

/-- No input is bound twice. -/
def BoundOnce (values : List CandidateInputBinding) : Prop :=
  ∀ a ∈ values, ∀ b ∈ values, a.name = b.name → a = b

def bindingOf (found : MatchedCandidate) : CandidateInputBinding :=
  ⟨found.mapping.remoteInputName, found.mapping.encodedRemoteValue⟩

theorem boundOnce_append {first : MatchedCandidate} (honce : BoundOnce values)
    (hnew : ∀ value ∈ values, value.name ≠ first.mapping.remoteInputName) :
    BoundOnce (values ++ [bindingOf first]) := by
  intro a ha b hb hname
  rw [List.mem_append, List.mem_singleton] at ha hb
  rcases ha with ha | rfl
  · rcases hb with hb | rfl
    · exact honce a ha b hb hname
    · exact absurd hname (hnew a ha)
  · rcases hb with hb | rfl
    · exact absurd hname.symm (hnew b hb)
    · rfl

/-- The loop stops early exactly on a clash. -/
theorem bindCandidates_eq_none (honce : BoundOnce values) :
    bindCandidates values found = none ↔ ClashWith values found ∨ Clash found := by
  induction found generalizing values with
  | nil =>
    rw [bindCandidates]
    simp [ClashWith, Clash]
  | cons first rest ih =>
    rw [bindCandidates]
    cases hfind : values.find? fun binding => binding.name == first.mapping.remoteInputName with
    | none =>
      have hnew : ∀ value ∈ values, value.name ≠ first.mapping.remoteInputName := by
        intro value hvalue
        simpa using List.find?_eq_none.mp hfind value hvalue
      simp only
      rw [← bindingOf, ih (boundOnce_append honce hnew)]
      constructor
      · rintro (⟨value, hvalue, right, hright, hname, hne⟩ | ⟨left, hleft, right, hright, hclash⟩)
        · rcases List.mem_append.mp hvalue with hvalue | hvalue
          · exact Or.inl ⟨value, hvalue, right, List.mem_cons_of_mem _ hright, hname, hne⟩
          · obtain rfl := List.mem_singleton.mp hvalue
            exact Or.inr ⟨first, List.mem_cons_self, right, List.mem_cons_of_mem _ hright, hname,
              hne⟩
        · exact Or.inr ⟨left, List.mem_cons_of_mem _ hleft, right, List.mem_cons_of_mem _ hright,
            hclash⟩
      · have hwithFirst : ∀ right ∈ rest, first.mapping.remoteInputName =
            right.mapping.remoteInputName → first.mapping.encodedRemoteValue ≠
            right.mapping.encodedRemoteValue → ClashWith (values ++ [bindingOf first]) rest := by
          intro right hright hname hne
          exact ⟨bindingOf first, List.mem_append_right _ (List.mem_singleton_self _), right, hright,
            hname, hne⟩
        rintro (⟨value, hvalue, right, hright, hname, hne⟩ |
          ⟨left, hleft, right, hright, hname, hne⟩)
        · rcases List.mem_cons.mp hright with rfl | hright
          · exact absurd hname (hnew value hvalue)
          · exact Or.inl ⟨value, List.mem_append_left _ hvalue, right, hright, hname, hne⟩
        · rcases List.mem_cons.mp hleft with rfl | hleft
          · rcases List.mem_cons.mp hright with rfl | hright
            · exact absurd rfl hne
            · exact Or.inl (hwithFirst right hright hname hne)
          · rcases List.mem_cons.mp hright with hsame | hright
            · rw [hsame] at hname hne
              exact Or.inl (hwithFirst left hleft hname.symm hne.symm)
            · exact Or.inr ⟨left, hleft, right, hright, hname, hne⟩
    | some existing =>
      have hexisting : existing ∈ values := List.mem_of_find?_eq_some hfind
      have hname : existing.name = first.mapping.remoteInputName := by
        simpa using List.find?_some hfind
      simp only
      by_cases hvalue : existing.encodedValue = first.mapping.encodedRemoteValue
      · rw [if_neg (by simpa using hvalue), ih honce]
        constructor
        · rintro (⟨value, hv, right, hright, hclash⟩ | ⟨left, hleft, right, hright, hclash⟩)
          · exact Or.inl ⟨value, hv, right, List.mem_cons_of_mem _ hright, hclash⟩
          · exact Or.inr ⟨left, List.mem_cons_of_mem _ hleft, right, List.mem_cons_of_mem _ hright,
              hclash⟩
        · -- what clashes with the new match clashes with the binding it repeats
          have hwithFirst : ∀ right ∈ rest, first.mapping.remoteInputName =
              right.mapping.remoteInputName → first.mapping.encodedRemoteValue ≠
              right.mapping.encodedRemoteValue → ClashWith values rest := by
            intro right hright hname' hne
            exact ⟨existing, hexisting, right, hright, hname.trans hname', by rwa [hvalue]⟩
          rintro (⟨value, hv, right, hright, hname', hne⟩ |
            ⟨left, hleft, right, hright, hname', hne⟩)
          · rcases List.mem_cons.mp hright with rfl | hright
            · obtain rfl := honce value hv existing hexisting (hname'.trans hname.symm)
              exact absurd hvalue hne
            · exact Or.inl ⟨value, hv, right, hright, hname', hne⟩
          · rcases List.mem_cons.mp hleft with rfl | hleft
            · rcases List.mem_cons.mp hright with rfl | hright
              · exact absurd rfl hne
              · exact Or.inl (hwithFirst right hright hname' hne)
            · rcases List.mem_cons.mp hright with hsame | hright
              · rw [hsame] at hname' hne
                exact Or.inl (hwithFirst left hleft hname'.symm hne.symm)
              · exact Or.inr ⟨left, hleft, right, hright, hname', hne⟩
      · rw [if_pos (by simpa using hvalue)]
        exact ⟨fun _ => Or.inl ⟨existing, hexisting, first, List.mem_cons_self, hname, hvalue⟩,
          fun _ => rfl⟩

theorem conflicting_candidateBindingsOf :
    (candidateBindingsOf found).conflicting = true ↔ Clash found := by
  have hempty : BoundOnce [] := by
    intro a ha
    cases ha
  have hnone : bindCandidates [] found = none ↔ ClashWith [] found ∨ Clash found :=
    bindCandidates_eq_none hempty
  have hno : ¬ClashWith [] found := by
    rintro ⟨value, hvalue, -⟩
    cases hvalue
  unfold candidateBindingsOf
  cases hbind : bindCandidates [] found with
  | none =>
    rw [hbind] at hnone
    exact ⟨fun _ => (hnone.mp rfl).resolve_left hno, fun _ => rfl⟩
  | some values =>
    rw [hbind] at hnone
    refine ⟨(fun h => by cases h), fun hclash => ?_⟩
    cases hnone.mpr (Or.inr hclash)

end Conflicts

section Fallback

variable {relation : CompiledRelation} {request : ScanRequest} {inputs : ResolvedRelationInputs}
  {operation : CompiledOperation}

/-- The adapter can push predicates down, and two comparisons of the conjunction
match mappings of the operation that send different values. -/
def Conflicting (relation : CompiledRelation) (operation : CompiledOperation)
    (request : ScanRequest) : Prop :=
  request.capabilities.selectivePredicate = true ∧ request.capabilities.retainsPredicate = true ∧
    Clash (conjunctiveMatches relation operation request.requestedPredicate)

theorem conflicting_iff :
    (candidateBindings relation operation request).conflicting = true ↔
      Conflicting relation operation request := by
  unfold candidateBindings Conflicting
  split
  · rename_i hcapable
    rw [Bool.and_eq_true] at hcapable
    rw [conflicting_candidateBindingsOf]
    exact ⟨fun hclash => ⟨hcapable.1, hcapable.2, hclash⟩, fun h => h.2.2⟩
  · rename_i hincapable
    rw [Bool.and_eq_true] at hincapable
    exact ⟨(fun h => nomatch h), fun h => absurd ⟨h.1, h.2.1⟩ hincapable⟩

/-- An operation that needs no input is eligible unless its matches conflict. -/
theorem eligible_of_no_inputs (hfacts : FactsHold relation operation)
    (hcontract : validateCandidateContract relation request = .ok ())
    (hselector : operation.selector = []) :
    Eligible relation request inputs operation ↔ ¬Conflicting relation operation request := by
  rw [← conflicting_iff]
  unfold Eligible
  rw [evaluate_total hfacts hcontract]
  unfold evaluateV1
  cases (candidateBindings relation operation request).conflicting with
  | true => simp
  | false => simp [hselector]

/-- On an accepted relation with a fallback and a valid predicate, selection
fails without a tie exactly where nothing else is eligible and the fallback's own
matches conflict. -/
theorem selection_fails_only_on_conflicting_fallback (relation : CompiledRelation)
    (request : ScanRequest) (inputs : ResolvedRelationInputs) (fallback : CompiledOperation)
    (hvalid : validateRelation relation = .ok ()) (hmem : fallback ∈ relation.operations)
    (hfallback : fallback.fallback = true)
    (hcontract : validateCandidateContract relation request = .ok ()) :
    ((∃ operation, selectOperation relation request inputs = .ok operation) ∨
        Tied relation request inputs) ↔
      ¬(Conflicting relation fallback request ∧
        ∀ other ∈ relation.operations, other.fallback = false →
          ¬Eligible relation request inputs other) := by
  have hrelation := validateRelation_eq_ok hvalid
  have hselector : fallback.selector = [] := by
    have hshape := hrelation.selector fallback hmem
    rw [hfallback] at hshape
    exact List.isEmpty_iff.mp hshape.symm
  have heligible : Eligible relation request inputs fallback ↔
      ¬Conflicting relation fallback request :=
    eligible_of_no_inputs (factsHold_of_valid hrelation fallback) hcontract hselector
  by_cases hnone : ∀ other ∈ relation.operations, other.fallback = false →
      ¬Eligible relation request inputs other
  · constructor
    · rintro (⟨operation, hselect⟩ | htied) ⟨hconflict, -⟩
      · obtain ⟨-, -, hcases⟩ := selectOperation_eq_ok.mp hselect
        rcases hcases with ⟨best, others, hperm, -, -⟩ | ⟨-, other, hother, hf, best, hjudge, -⟩
        · obtain ⟨hin, hnot, helig, -⟩ := mem_candidates (hperm.symm.subset List.mem_cons_self)
          exact hnone _ hin hnot helig
        · -- the fallback is the only one
          have hone := filter_fallback_eq hrelation.fallback hmem hfallback
          have hsame : other = fallback := by
            have hin : other ∈ relation.operations.filter (·.fallback) :=
              List.mem_filter.mpr ⟨hother, hf⟩
            rw [hone] at hin
            exact List.mem_singleton.mp hin
          rw [hsame] at hjudge
          exact heligible.mp ⟨best, hjudge⟩ hconflict
      · obtain ⟨left, right, others, hperm, hleft, -, hel, -⟩ := htied
        exact hnone left (hperm.symm.subset List.mem_cons_self) hleft hel
    · intro hnot
      have hclear : ¬Conflicting relation fallback request := fun hconflict =>
        hnot ⟨hconflict, hnone⟩
      exact Or.inl ⟨fallback, ((fallback_selected_iff hrelation).mpr
        ⟨hmem, hfallback, heligible.mpr hclear, hnone⟩).1⟩
  · refine ⟨fun _ hboth => hnone hboth.2, fun _ => ?_⟩
    have hjudged : Judged (evaluate relation request inputs) relation.operations :=
      fun other _ _ => ⟨_, evaluate_total (factsHold_of_valid hrelation other) hcontract inputs⟩
    exact selected_or_tied hjudged hrelation.fallback fun hnil =>
      hnone (candidates_eq_nil.mp hnil)

end Fallback

section Example

open Cuac.Predicate

/-- A relation whose fallback maps two states. -/
def issuesOfTwoStates : CompiledRelation where
  name := ascii "issues"
  columns := issues.columns
  inputs := []
  predicateMappings := [stateMapping (ascii "list") (ascii "open") .exact,
    stateMapping (ascii "list") (ascii "closed") .exact]
  operations := [listIssues]
  authentication := issues.authentication
  resourceCeilings := issues.resourceCeilings

/-- `state = 'open' AND state = 'closed'` -/
def contradictoryRequest : ScanRequest :=
  issuesRequest (.conjunction [stateIs (ascii "open"), stateIs (ascii "closed")])

/-- One of the two states alone is planned. -/
theorem selection_fails_only_on_conflicting_fallback_one_state :
    (∃ operation, selectOperation issuesOfTwoStates (issuesRequest (stateIs (ascii "open"))) [] =
        .ok operation) ∨
      Tied issuesOfTwoStates (issuesRequest (stateIs (ascii "open"))) [] := by
  refine (selection_fails_only_on_conflicting_fallback issuesOfTwoStates
    (issuesRequest (stateIs (ascii "open"))) [] listIssues rfl List.mem_cons_self rfl rfl).mpr ?_
  rintro ⟨hconflict, -⟩
  rw [← conflicting_iff] at hconflict
  exact absurd hconflict (by decide)

/-- Both of them together are not, although nothing ties. -/
theorem contradictory_states_unplannable :
    validateRelation issuesOfTwoStates = .ok () ∧ listIssues ∈ issuesOfTwoStates.operations ∧
      listIssues.fallback = true ∧
      validateCandidateContract issuesOfTwoStates contradictoryRequest = .ok () ∧
      ¬((∃ operation, selectOperation issuesOfTwoStates contradictoryRequest [] = .ok operation) ∨
        Tied issuesOfTwoStates contradictoryRequest []) := by
  refine ⟨rfl, List.mem_cons_self, rfl, rfl, ?_⟩
  rintro (⟨operation, hselect⟩ | ⟨left, right, others, hperm, -⟩)
  · have hfails : selectOperation issuesOfTwoStates contradictoryRequest [] = .error
        (operationSelectionFailed "operation selection has no eligible base operation") := rfl
    rw [hfails] at hselect
    cases hselect
  · have hlength := hperm.length_eq
    simp [issuesOfTwoStates] at hlength

end Example

end Cuac.Semantics

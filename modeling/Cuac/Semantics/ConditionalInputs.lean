import Cuac.Semantics.RestOperationPlanner
import Cuac.Semantics.SelectionLaws

/-!
# Conditional inputs, from selection to the request

Selection judges a conditional input by the value its mapping declares;
classification looks at the matches again, and the planner encodes the matched
literal itself. The first two agree on every accepted relation. The third has
its own text for a `DOUBLE`, without the form encoding of the declared value.

Main results:

* `allMatchesEquivalent_of_not_clash` — matches that do not conflict for selection
  are equivalent for classification.
* `encode_eq_declared` — when the planner's text of a literal is the declared one.
* `conditional_input_agreement` — what becomes of a conditional input that
  selection required.
-/

namespace Cuac.Semantics

open Cuac.Lib Cuac.Connector Cuac.Query

-- ---------------------------------------------------------------------------
-- Matches of one mapping
-- ---------------------------------------------------------------------------

section Matches

theorem ieeeEq_euclid {m a b : Double} (ha : m.ieeeEq a = true) (hb : m.ieeeEq b = true) :
    a.ieeeEq b = true := by
  rw [← Predicate.ieeeEq_congr hb a]
  have hma := Predicate.isZero_of_ieeeEq ha
  obtain ⟨hm, hna, rfl | ⟨hzm, hza⟩⟩ := hma
  · simp [Double.ieeeEq, hm]
  · simp [Double.ieeeEq, hm, hna, hzm, hza]

/-- Two values that are the same as a third are the same. -/
theorem same_euclid {m a b : Scalar} (ha : m.same a = true) (hb : m.same b = true) :
    a.same b = true := by
  have hkind := (Scalar.same_kind ha).symm.trans (Scalar.same_kind hb)
  cases m <;> cases a <;> cases b <;> simp_all [Scalar.same, Scalar.kind]
  exact ieeeEq_euclid ha hb

theorem same_self {m a : Scalar} (h : m.same a = true) : m.same m = true := by
  cases m with
  | double m =>
    cases a with
    | double a =>
      obtain ⟨hm, -, -⟩ := Predicate.isZero_of_ieeeEq h
      simp [Scalar.same, Double.ieeeEq, hm]
    | _ => cases h
  | _ => simp [Scalar.same]

variable {relation : CompiledRelation} {operation : CompiledOperation}
  {left right : MatchedCandidate}

/-- What a match's candidate is. -/
theorem IsMatch.comparison (h : IsMatch relation operation left) :
    ∃ index type literal column value, left.candidate = .comparison index type literal ∧
      left.mapping.operationName = operation.name ∧ relation.columns[index]? = some column ∧
      column.name = left.mapping.columnName ∧ column.elementType = type ∧
      left.mapping.typedLiteral.value = some value ∧ value.same literal = true := by
  obtain ⟨mapping, candidate⟩ := left
  obtain ⟨-, happlies⟩ := h
  cases candidate with
  | comparison index type literal =>
    simp only [mappingApplies, Bool.and_eq_true, beq_iff_eq] at happlies
    obtain ⟨hname, happlies⟩ := happlies
    split at happlies
    · rename_i column hcolumn
      simp only [Bool.and_eq_true, beq_iff_eq, typedLiteralMatches, Option.any_eq_true] at happlies
      obtain ⟨⟨⟨-, hcolumnName⟩, htype⟩, value, hvalue, hsame⟩ := happlies
      exact ⟨index, type, literal, column, value, rfl, hname, hcolumn, hcolumnName, htype, hvalue,
        hsame⟩
    · cases happlies
  | _ => cases happlies

theorem index_eq {columns : List CompiledColumn} (hnodup : (columns.map (·.name)).Nodup)
    {i j : Nat} {a b : CompiledColumn} (ha : columns[i]? = some a) (hb : columns[j]? = some b)
    (hname : a.name = b.name) : i = j := by
  have hi : i < (columns.map (·.name)).length := by
    rw [List.length_map]
    exact (List.getElem?_eq_some_iff.mp ha).1
  refine (List.getElem?_inj hi hnodup).mp ?_
  rw [List.getElem?_map, List.getElem?_map, ha, hb]
  exact congrArg some hname

/-- Two comparisons that one mapping matches bind the same column to the same
value. -/
theorem sameMappingAndBinding_of_mapping_eq (hvalid : ValidRelation relation)
    (hleft : IsMatch relation operation left) (hright : IsMatch relation operation right)
    (hmapping : left.mapping = right.mapping) : sameMappingAndBinding left right = true := by
  obtain ⟨i, t, a, column, value, hcandidate, -, hcolumn, hname, htype, hvalue, hsame⟩ :=
    hleft.comparison
  obtain ⟨j, u, b, column', value', hcandidate', -, hcolumn', hname', htype', hvalue', hsame'⟩ :=
    hright.comparison
  rw [← hmapping] at hname' hvalue'
  obtain rfl : value = value' := Option.some.inj (hvalue.symm.trans hvalue')
  obtain rfl : i = j := index_eq hvalid.columns hcolumn hcolumn' (hname.trans hname'.symm)
  obtain rfl : column = column' := Option.some.inj (hcolumn.symm.trans hcolumn')
  obtain rfl : t = u := htype.symm.trans htype'
  have hliteral : sameTypedLiteral left.mapping.typedLiteral left.mapping.typedLiteral = true := by
    simp [sameTypedLiteral, hvalue, same_self hsame]
  have hstructure : RequestedPredicate.structurallyEquals left.candidate right.candidate =
      true := by
    simp [hcandidate, hcandidate', RequestedPredicate.structurallyEquals,
      same_euclid hsame hsame']
  simp [sameMappingAndBinding, hstructure, ← hmapping, hliteral]

/-- Matches of one operation that declare no two values for an input are matches
of one mapping. -/
theorem mapping_eq_of_not_clash (hvalid : ValidRelation relation) {found : List MatchedCandidate}
    (hfound : ∀ one ∈ found, IsMatch relation operation one) (hclear : ¬Clash found)
    (hleft : left ∈ found) (hright : right ∈ found) : left.mapping = right.mapping := by
  have hname : left.mapping.operationName = right.mapping.operationName :=
    (operationName_of_applies (hfound left hleft).2).trans
      (operationName_of_applies (hfound right hright).2).symm
  have hremote := hvalid.remoteInputName_eq (hfound left hleft).1 (hfound right hright).1 hname
  refine hvalid.mapping_eq (hfound left hleft).1 (hfound right hright).1 hname ?_
  by_contra hne
  exact hclear ⟨left, hleft, right, hright, hremote, hne⟩

theorem allMatchesEquivalent_of_not_clash (hvalid : ValidRelation relation)
    {found : List MatchedCandidate} (hfound : ∀ one ∈ found, IsMatch relation operation one)
    (hclear : ¬Clash found) : allMatchesEquivalent found = true := by
  cases found with
  | nil => rfl
  | cons front rest =>
    rw [allMatchesEquivalent, List.all_eq_true]
    intro other hother
    have hmem : other ∈ front :: rest := List.mem_cons_of_mem _ hother
    exact sameMappingAndBinding_of_mapping_eq hvalid (hfound front List.mem_cons_self)
      (hfound other hmem)
      (mapping_eq_of_not_clash hvalid hfound hclear List.mem_cons_self hmem)

end Matches

-- ---------------------------------------------------------------------------
-- What selection judged by
-- ---------------------------------------------------------------------------

section Judged

variable {relation : CompiledRelation} {operation : CompiledOperation} {request : ScanRequest}
  {inputs : ResolvedRelationInputs}

theorem bindCandidates_repeated {binding : CandidateInputBinding} {found : List MatchedCandidate}
    (h : ∀ one ∈ found, bindingOf one = binding) :
    bindCandidates [binding] found = some [binding] := by
  induction found with
  | nil => rfl
  | cons first rest ih =>
    have hfirst := h first List.mem_cons_self
    have hrest := ih fun one hone => h one (List.mem_cons_of_mem _ hone)
    obtain rfl := hfirst
    rw [bindCandidates]
    simpa [bindingOf] using hrest

/-- Matches of one mapping bind its input once. -/
theorem candidateBindingsOf_repeated {front : MatchedCandidate} {rest : List MatchedCandidate}
    (h : ∀ one ∈ rest, bindingOf one = bindingOf front) :
    candidateBindingsOf (front :: rest) = ⟨[bindingOf front], false⟩ := by
  have hbind : bindCandidates [] (front :: rest) = some [bindingOf front] := by
    rw [bindCandidates]
    exact bindCandidates_repeated h
  unfold candidateBindingsOf
  rw [hbind]
  rfl

/-- Selection returns an operation of the relation that it judged eligible. -/
theorem evaluate_of_selectOperation
    (h : selectOperation relation request inputs = .ok operation) :
    operation ∈ relation.operations ∧ Eligible relation request inputs operation := by
  obtain ⟨-, -, hcases⟩ := selectOperation_eq_ok.mp h
  rcases hcases with ⟨best, others, hperm, -, rfl⟩ | ⟨-, fallback, hmem, -, best, hjudge, rfl⟩
  · obtain ⟨hmem, -, heligible, -⟩ := mem_candidates (hperm.symm.subset List.mem_cons_self)
    exact ⟨hmem, heligible⟩
  · have hbest := evaluate_some hjudge
    rw [hbest]
    exact ⟨hmem, _, hjudge⟩

/-- An eligible operation has no conflict and every input it requires. -/
theorem eligible_facts (h : Eligible relation request inputs operation) :
    validateCandidateContract relation request = .ok () ∧
      (candidateBindings relation operation request).conflicting = false ∧
      ∀ reference ∈ operation.selector, requiredInputIsSatisfied inputs
        (candidateBindings relation operation request) reference = true := by
  obtain ⟨candidate, hjudge⟩ := h
  obtain ⟨hcontract, hsome⟩ := evaluate_eq_ok hjudge
  unfold evaluateV1 at hsome
  split at hsome
  · cases hsome
  · rename_i hclear
    split at hsome
    · rename_i hall
      exact ⟨hcontract, by simpa using hclear, List.all_eq_true.mp hall⟩
    · cases hsome

/-- Where a required conditional input was bound, the capabilities are there and
all matches are of the one mapping that feeds it. -/
theorem matches_of_required (hvalid : ValidRelation relation)
    (h : Eligible relation request inputs operation) {id : Bytes}
    (hid : .conditionalInput id ∈ operation.selector) :
    (request.capabilities.selectivePredicate && request.capabilities.retainsPredicate) = true ∧
      ∃ front rest,
        conjunctiveMatches relation operation request.requestedPredicate = front :: rest ∧
        ¬Clash (front :: rest) ∧ front.mapping.remoteInputName = id := by
  obtain ⟨-, hclear, hall⟩ := eligible_facts h
  have hbound := hall _ hid
  simp only [requiredInputIsSatisfied, Bool.and_eq_true] at hbound
  obtain ⟨-, hbound⟩ := hbound
  unfold candidateBindings at hclear hbound
  split at hbound
  · rename_i hcapable
    rw [if_pos hcapable] at hclear
    refine ⟨hcapable, ?_⟩
    cases hfound : conjunctiveMatches relation operation request.requestedPredicate with
    | nil =>
      rw [hfound, candidateBindingsOf_nil] at hbound
      cases hbound
    | cons front rest =>
      rw [hfound] at hbound hclear
      have hnoClash : ¬Clash (front :: rest) := by
        rw [← conflicting_candidateBindingsOf, hclear]
        exact fun hfalse => nomatch hfalse
      refine ⟨front, rest, rfl, hnoClash, ?_⟩
      have hmatch : ∀ one ∈ front :: rest, IsMatch relation operation one := by
        intro one hone
        exact isMatch_of_mem request.requestedPredicate (hfound ▸ hone)
      have hsame : ∀ one ∈ rest, bindingOf one = bindingOf front := by
        intro one hone
        have hmapping := mapping_eq_of_not_clash hvalid hmatch hnoClash
          (List.mem_cons_of_mem _ hone) List.mem_cons_self
        rw [bindingOf, bindingOf, hmapping]
      rw [candidateBindingsOf_repeated hsame] at hbound
      simpa [hasConditionalBinding, bindingOf] using hbound
  · cases hbound

end Judged

-- ---------------------------------------------------------------------------
-- What classification makes of it
-- ---------------------------------------------------------------------------

section Classified

variable {relation : CompiledRelation} {operation : CompiledOperation} {request : ScanRequest}

theorem firstMatching_total (hfacts : FactsHold relation operation)
    (candidate : RequestedPredicate) {mappings : List CompiledPredicateMapping}
    (hsub : ∀ mapping ∈ mappings, mapping ∈ relation.predicateMappings) :
    ∃ result, firstMatching relation operation candidate mappings = .ok result := by
  induction mappings with
  | nil => exact ⟨none, rfl⟩
  | cons mapping rest ih =>
    obtain ⟨found, hfound⟩ := ih fun other hother => hsub other (List.mem_cons_of_mem _ hother)
    obtain ⟨matched, hmatched⟩ :=
      mappingMatches_total hfacts (hsub mapping List.mem_cons_self) candidate
    rw [firstMatching]
    cases matched with
    | true => exact ⟨some mapping, bind_eq_ok.mpr ⟨true, hmatched, rfl⟩⟩
    | false => exact ⟨found, bind_eq_ok.mpr ⟨false, hmatched, hfound⟩⟩

theorem residualPredicate_total (hfacts : FactsHold relation operation) :
    ∃ residual, residualPredicate relation operation request = .ok residual := by
  unfold residualPredicate
  split
  · exact ⟨_, rfl⟩
  · exact ⟨_, rfl⟩
  · split
    · obtain ⟨found, hfound⟩ :=
        firstMatching_total hfacts request.requestedPredicate fun mapping hmem => hmem
      exact ⟨_, bind_eq_ok.mpr ⟨found, hfound, rfl⟩⟩
    · exact ⟨_, rfl⟩

/-- Equivalent matches of a valid predicate are classified as a selection. -/
theorem classify_of_matches (hfacts : FactsHold relation operation)
    (hcontract : validateCandidateContract relation request = .ok ())
    (hcapable : (request.capabilities.selectivePredicate &&
      request.capabilities.retainsPredicate) = true) {front : MatchedCandidate}
    {rest : List MatchedCandidate}
    (hfound : conjunctiveMatches relation operation request.requestedPredicate = front :: rest)
    (hequivalent : allMatchesEquivalent (front :: rest) = true) :
    ∃ decision, classify relation operation request = .ok decision ∧
      IsSelection relation operation request front rest decision := by
  have hselected : selectedMatches relation operation request = front :: rest := by
    rw [selectedMatches, hfound, hcapable, hequivalent]
    rfl
  have hreturns : ∃ decision, classifyValidated relation operation request = .ok decision := by
    obtain ⟨hs, hr⟩ := Bool.and_eq_true_iff.mp hcapable
    obtain ⟨result, hresult⟩ := collectConjunctiveMatches_total hfacts request.requestedPredicate
    obtain ⟨residual, hresidual⟩ := @residualPredicate_total _ _ request hfacts
    have hspec := collectConjunctiveMatches_spec _ hresult
    have hmatches : ∃ decision,
        classifyMatches relation operation request result.1 result.2 = .ok decision := by
      rw [hspec, hfound, classifyMatches, hequivalent, Bool.not_true, Bool.and_false]
      exact ⟨_, bind_eq_ok.mpr ⟨residual, hresidual, rfl⟩⟩
    obtain ⟨decision, hdecision⟩ := hmatches
    refine ⟨decision, ?_⟩
    unfold classifyValidated
    rw [hs, hr]
    cases hp : request.requestedPredicate with
    | comparison index type literal =>
      rw [hp] at hresult
      exact bind_eq_ok.mpr ⟨result, hresult, hdecision⟩
    | conjunction children =>
      rw [hp] at hresult
      exact bind_eq_ok.mpr ⟨result, hresult, hdecision⟩
    | _ =>
      rw [hp] at hfound
      simp [conjunctiveMatches] at hfound
  obtain ⟨decision, hdecision⟩ := hreturns
  have hclassify : classify relation operation request = .ok decision := by
    have hall : ∃ results, forEach (validateMappingFacts operation)
        (relation.predicateMappings.filter fun mapping =>
          mapping.operationName == operation.name) = .ok results := by
      refine forEach_total fun mapping hmem => ?_
      obtain ⟨hin, hname⟩ := List.mem_filter.mp hmem
      exact ⟨(), hfacts mapping hin (by simpa using hname)⟩
    obtain ⟨results, hresults⟩ := hall
    exact bind_eq_ok.mpr ⟨(), hcontract, bind_eq_ok.mpr ⟨results, hresults, hdecision⟩⟩
  rcases classify_cases hclassify with ⟨hnone, -⟩ | ⟨front', rest', hsome, hselection⟩
  · rw [hselected] at hnone
    cases hnone
  · rw [hselected] at hsome
    obtain ⟨rfl, rfl⟩ := List.cons.inj hsome
    exact ⟨decision, hclassify, hselection⟩

/-- A selection is neither ambiguous nor unrestricted, and sends its mapping. -/
theorem isSelection_sends {front : MatchedCandidate} {rest : List MatchedCandidate}
    {decision : PredicatePlanDecision}
    (h : IsSelection relation operation request front rest decision) :
    decision.category ≠ .ambiguous ∧ decision.category ≠ .unsupported ∧
      decision.remotePredicate = .typedEquality ∧
      decision.conditionalInput = .restQueryBinding ∧
      decision.typedEquality = planTypedEquality front.mapping := by
  obtain ⟨residual, -, h⟩ := bind_eq_ok.mp h
  obtain rfl := pure_eq_ok.mp h
  refine ⟨?_, ?_, rfl, rfl, rfl⟩
  · split <;> exact fun hfalse => nomatch hfalse
  · split <;> exact fun hfalse => nomatch hfalse

end Classified

-- ---------------------------------------------------------------------------
-- The declared text and the planner's
-- ---------------------------------------------------------------------------

section Texts

variable [CLibrary]

/-- Form encoding would leave the text that the planner sends as it is; it sends
every text but a number's form-encoded, and a number's as `%.17g` writes it. -/
def keepsText : Scalar → Bool
  | .double value => (CLibrary.g17 value).all isUnreserved
  | _ => true

omit [CLibrary] in
theorem formEscape_code_iff (b : UInt8) : formEscape.code b = some b ↔ isUnreserved b = true := by
  revert b
  exact forall_byte (by decide)

omit [CLibrary] in
theorem formEncode_eq_self {text : Bytes} :
    formEscape.encode text = text ↔ text.all isUnreserved = true := by
  rw [Escape.encode_eq_self, List.all_eq_true]
  simp only [formEscape_code_iff]

omit [CLibrary] in
theorem isUnreserved_of_isDigit : ∀ b : UInt8, isDigit b = true → isUnreserved b = true :=
  forall_byte (by decide)

omit [CLibrary] in
theorem formEncode_signed (n : Int) : formEscape.encode (signed n) = signed n := by
  refine formEncode_eq_self.mpr (List.all_eq_true.mpr fun b hb => ?_)
  rcases mem_signed hb with hdigit | rfl
  · exact isUnreserved_of_isDigit b hdigit
  · decide

/-- The planner's text of a literal is the declared one exactly where the literal
keeps its text. -/
theorem encode_eq_declared {literal : CompiledScalarValue} {value : Scalar}
    {declared sent : Bytes} (hvalue : literal.value = some value)
    (hdeclared : encodeCompiledQueryScalar literal = .ok declared)
    (hsent : encode value = .ok sent) : sent = declared ↔ keepsText value = true := by
  simp only [encodeCompiledQueryScalar, hvalue] at hdeclared
  obtain ⟨text, htext, hdeclared⟩ := bind_eq_ok.mp hdeclared
  obtain rfl := pure_eq_ok.mp hdeclared
  cases value with
  | boolean value =>
    obtain rfl := pure_eq_ok.mp htext
    obtain rfl := pure_eq_ok.mp hsent
    cases value <;> exact ⟨fun _ => rfl, fun _ => by decide +kernel⟩
  | bigint value =>
    obtain rfl := pure_eq_ok.mp htext
    obtain rfl := pure_eq_ok.mp hsent
    exact ⟨fun _ => rfl, fun _ => (formEncode_signed _).symm⟩
  | varchar value =>
    obtain ⟨_, -, htext⟩ := bind_eq_ok.mp htext
    obtain rfl := pure_eq_ok.mp htext
    obtain rfl := pure_eq_ok.mp hsent
    exact ⟨fun _ => rfl, fun _ => rfl⟩
  | double value =>
    obtain ⟨_, -, htext⟩ := bind_eq_ok.mp htext
    obtain rfl := pure_eq_ok.mp htext
    obtain ⟨_, -, hsent⟩ := bind_eq_ok.mp hsent
    obtain rfl := pure_eq_ok.mp hsent
    rw [keepsText, ← formEncode_eq_self]
    exact eq_comm
  | timestamptz value =>
    obtain ⟨instant, hinstant, hsent⟩ := bind_eq_ok.mp hsent
    obtain rfl := pure_eq_ok.mp hsent
    obtain ⟨-, rfl⟩ := canonicalTimestamptz_eq_ok.mp htext
    obtain ⟨-, rfl⟩ := canonicalTimestamptz_eq_ok.mp hinstant
    exact ⟨fun _ => rfl, fun _ => rfl⟩

end Texts

-- ---------------------------------------------------------------------------
-- The request field
-- ---------------------------------------------------------------------------

section Request

variable {relation : CompiledRelation} {operation : CompiledOperation}
  {mapping : CompiledPredicateMapping}

/-- The operation of a mapping is a REST operation with a field for its input. -/
theorem conditionalField_of_mapping (hvalid : ValidRelation relation)
    (hoperation : operation ∈ relation.operations)
    (hmapping : mapping ∈ relation.predicateMappings)
    (hname : mapping.operationName = operation.name) :
    ∃ rest parameter, operation.protocolOperation = .rest rest ∧
      parameter ∈ rest.request.queryParameters ∧ parameter.source = .conditionalInput ∧
      parameter.sourceId = mapping.remoteInputName := by
  have hbinding := hvalid.binding mapping hmapping
  unfold validateMappingBinding at hbinding
  have hfind : findOperation relation.operations mapping.operationName = some operation := by
    unfold findOperation
    cases hfound : relation.operations.find? fun other => other.name == mapping.operationName with
    | none =>
      have hno := List.find?_eq_none.mp hfound operation hoperation
      simp [hname] at hno
    | some other =>
      have hother : other.name = mapping.operationName := by simpa using List.find?_some hfound
      have hsame := List.inj_on_of_nodup_map hvalid.operations (List.mem_of_find?_eq_some hfound)
        hoperation (hother.trans hname)
      rw [hsame]
  rw [hfind] at hbinding
  simp only at hbinding
  cases hprotocol : operation.protocolOperation with
  | graphql graphql =>
    rw [hprotocol] at hbinding
    cases hbinding
  | rest rest =>
    rw [hprotocol] at hbinding
    simp only at hbinding
    cases hfield : findConditionalQueryBinding rest mapping.remoteInputName with
    | none =>
      rw [hfield] at hbinding
      cases hbinding
    | some parameter =>
      have hmem := List.mem_of_find?_eq_some hfield
      have htest := List.find?_some hfield
      simp only [Bool.and_eq_true, beq_iff_eq] at htest
      exact ⟨rest, parameter, rfl, hmem, htest.1, htest.2⟩

variable [CLibrary]

/-- A published operation has one conditional field at most, and the mappings that
feed it declare the encodings of their literals. -/
theorem published_conditional {rest : CompiledRestOperation}
    (hpublished : validatePackageRequestBindings relation operation = .ok ())
    (hprotocol : operation.protocolOperation = .rest rest) :
    (∀ a ∈ rest.request.queryParameters, ∀ b ∈ rest.request.queryParameters,
        a.source = .conditionalInput → b.source = .conditionalInput → a = b) ∧
      ∀ a ∈ rest.request.queryParameters, a.source = .conditionalInput →
        ∀ mapping ∈ relation.predicateMappings, mapping.operationName = operation.name →
          mapping.remoteInputName = a.sourceId →
          encodeCompiledQueryScalar mapping.typedLiteral = .ok mapping.encodedRemoteValue := by
  unfold validatePackageRequestBindings at hpublished
  rw [hprotocol] at hpublished
  obtain ⟨_, hone, hpublished⟩ := bind_eq_ok.mp hpublished
  obtain ⟨_, -, hpublished⟩ := bind_eq_ok.mp hpublished
  obtain ⟨results, hencodings, -⟩ := bind_eq_ok.mp hpublished
  simp only [throwIf_eq_ok, decide_eq_false_iff_not, Nat.not_lt] at hone
  have hmem : ∀ a ∈ rest.request.queryParameters, a.source = .conditionalInput →
      a ∈ rest.request.queryParameters.filter fun parameter =>
        parameter.source == .conditionalInput := by
    intro a ha hsource
    exact List.mem_filter.mpr ⟨ha, by simpa using hsource⟩
  constructor
  · intro a ha b hb hsa hsb
    have hain := hmem a ha hsa
    have hbin := hmem b hb hsb
    obtain ⟨only, honly⟩ := List.length_eq_one_iff.mp
      (Nat.le_antisymm hone (List.length_pos_of_mem hain))
    rw [honly, List.mem_singleton] at hain hbin
    rw [hain, hbin]
  · intro a ha hsource mapping hmapping hname hremote
    have hfeeds : mapping ∈ mappingsOf relation operation a.sourceId :=
      List.mem_filter.mpr ⟨hmapping, by simp [hname, hremote]⟩
    obtain ⟨_, -, hencoding⟩ := forEach_of_mem hencodings
      (List.mem_flatMap.mpr ⟨a, hmem a ha hsource, hfeeds⟩)
    obtain ⟨encoded, hencoded, hsame⟩ := bind_eq_ok.mp hencoding
    simp only [throwIf_eq_ok, bne_eq_false_iff_eq] at hsame
    rw [hsame]
    exact hencoded

/-- The request sends the conditional input `id` as `text`. -/
def Sends (planned : PlannedRestOperation) (id text : Bytes) : Prop :=
  ∃ binding ∈ planned.queryBindings, binding.fields.source = .conditionalInput ∧
    binding.fields.sourceId = id ∧ binding.fields.encodedValue = text

/-- A request under a selected equality sends its input as the planner's text of
its value, and as no other. -/
theorem sends_iff {inputs : ResolvedRelationInputs} {decision : PredicatePlanDecision}
    {rest : CompiledRestOperation} {planned : PlannedRestOperation}
    {parameter : CompiledQueryParameter} {equality : TypedEqualityDecision}
    (hplanned : PlannedFrom inputs decision rest planned)
    (hselected : decision.conditionalInput = .restQueryBinding)
    (hequality : decision.typedEquality = some equality)
    (hparameter : parameter ∈ rest.request.queryParameters)
    (hsource : parameter.source = .conditionalInput) :
    ∃ sent, encode equality.value = .ok sent ∧
      ∀ text, Sends planned parameter.sourceId text ↔ sent = text := by
  obtain ⟨fields, hfields, -⟩ := hplanned.query
  obtain ⟨field, -, hplan⟩ := forEach_of_mem hfields hparameter
  obtain ⟨binding, sent, rfl, hsent, -, hshape⟩ :=
    planQueryField_conditional hselected hequality hsource hplan
  refine ⟨sent, hsent, fun text => ⟨?_, ?_⟩⟩
  · rintro ⟨other, hother, hconditional, -, rfl⟩
    obtain ⟨query, hquery, hplanOther⟩ := hplanned.mem_queryBindings.mp hother
    obtain ⟨scalar, encoded, -, hshapeOther⟩ := planQueryField_eq_some hplanOther
    have hquerySource : query.source = .conditionalInput := by
      rw [← hconditional, hshapeOther]
    obtain ⟨binding', encoded', hsame, hencoded, -, hshape'⟩ :=
      planQueryField_conditional hselected hequality hquerySource hplanOther
    obtain rfl := Option.some.inj hsame
    rw [hshape']
    exact Except.ok.inj (hsent.symm.trans hencoded)
  · rintro rfl
    refine ⟨binding, hplanned.mem_queryBindings.mpr ⟨parameter, hparameter, hplan⟩, ?_⟩
    rw [hshape]
    exact ⟨rfl, rfl, rfl⟩

end Request

-- ---------------------------------------------------------------------------
-- Agreement
-- ---------------------------------------------------------------------------

section Agreement

variable [CLibrary]

/-- On an accepted relation, a conditional input that the selected operation
requires was judged bound by one declared value, and classification selects it.
If the package was published, planning never throws the disagreement, and the
request sends the input as the judged value exactly where the matched literals
keep their text. -/
theorem conditional_input_agreement (relation : CompiledRelation) (request : ScanRequest)
    (inputs : ResolvedRelationInputs) (operation : CompiledOperation) (id : Bytes)
    (hvalid : validateRelation relation = .ok ())
    (hselect : selectOperation relation request inputs = .ok operation)
    (hid : .conditionalInput id ∈ operation.selector) :
    ∃ judged decision,
      resolveCandidateInputBindings relation operation request = .ok ⟨[⟨id, judged⟩], false⟩ ∧
      classify relation operation request = .ok decision ∧
      decision.category ≠ .ambiguous ∧ decision.category ≠ .unsupported ∧
      decision.remotePredicate = .typedEquality ∧
      decision.conditionalInput = .restQueryBinding ∧
      (validatePackageRequestBindings relation operation = .ok () →
        buildRestOperation relation operation inputs decision ≠ .error disagreement ∧
        ∀ planned, buildRestOperation relation operation inputs decision = .ok planned →
          (Sends planned id judged ↔
            ∀ found ∈ conjunctiveMatches relation operation request.requestedPredicate,
              ∀ value ∈ found.mapping.typedLiteral.value, keepsText value = true)) := by
  have hrelation := validateRelation_eq_ok hvalid
  have hfacts := factsHold_of_valid hrelation operation
  obtain ⟨hoperation, heligible⟩ := evaluate_of_selectOperation hselect
  obtain ⟨hcontract, -, -⟩ := eligible_facts heligible
  obtain ⟨hcapable, front, rest, hfound, hclear, rfl⟩ :=
    matches_of_required hrelation heligible hid
  have hmatch : ∀ one ∈ front :: rest, IsMatch relation operation one := by
    intro one hone
    exact isMatch_of_mem request.requestedPredicate (hfound ▸ hone)
  have hmapping : ∀ one ∈ front :: rest, one.mapping = front.mapping := by
    intro one hone
    exact mapping_eq_of_not_clash hrelation hmatch hclear hone List.mem_cons_self
  obtain ⟨decision, hclassify, hselection⟩ := classify_of_matches hfacts hcontract hcapable hfound
    (allMatchesEquivalent_of_not_clash hrelation hmatch hclear)
  obtain ⟨hambiguous, hunsupported, hremote, hsends, hequality⟩ := isSelection_sends hselection
  refine ⟨front.mapping.encodedRemoteValue, decision, ?_, hclassify, hambiguous, hunsupported,
    hremote, hsends, fun hpublished => ?_⟩
  · rw [resolveCandidateInputBindings_total hfacts hcontract, candidateBindings, if_pos hcapable,
      hfound, candidateBindingsOf_repeated]
    · rfl
    · intro one hone
      rw [bindingOf, bindingOf, hmapping one (List.mem_cons_of_mem _ hone)]
  · have hfront := hmatch front List.mem_cons_self
    obtain ⟨_, _, _, _, value, -, hname, -, -, -, hvalue, -⟩ := hfront.comparison
    obtain ⟨restOperation, parameter, hprotocol, hparameter, hsource, hsourceId⟩ :=
      conditionalField_of_mapping hrelation hoperation hfront.1 hname
    obtain ⟨honly, hdeclared⟩ := published_conditional hpublished hprotocol
    rw [planTypedEquality, hvalue, Option.map_some] at hequality
    refine ⟨fun herror => ?_, fun planned hplanned => ?_⟩
    · refine throws_buildRestOperation (fun other hother query hquery hqsource _ => ?_) _ herror rfl
      rw [hprotocol] at hother
      obtain rfl := CompiledProtocolOperation.rest.inj hother
      refine ⟨_, hequality, ?_⟩
      rw [honly query hquery parameter hparameter hqsource hsource, hsourceId]
    · obtain ⟨other, hother, hfrom⟩ := buildRestOperation_eq_ok hplanned
      rw [hprotocol] at hother
      obtain rfl := CompiledProtocolOperation.rest.inj hother
      obtain ⟨sent, hsent, hiff⟩ := sends_iff hfrom hsends hequality hparameter hsource
      have hencoding := hdeclared parameter hparameter hsource front.mapping hfront.1 hname
        hsourceId.symm
      rw [← hsourceId, hiff, encode_eq_declared hvalue hencoding hsent, hfound]
      constructor
      · intro hkeeps one hone other hother
        rw [hmapping one hone, hvalue] at hother
        rwa [← Option.some.inj hother]
      · intro hall
        exact hall front List.mem_cons_self value hvalue

end Agreement

-- ---------------------------------------------------------------------------
-- A mapped number
-- ---------------------------------------------------------------------------

section Example

open Cuac.Predicate

local instance sampleTexts : CLibrary := sampleLibrary

/-- `score = literal`, sent as the query field `score`. -/
def scoreMapping (literal : Double) (declared : Bytes) : CompiledPredicateMapping where
  name := ascii "score_is"
  columnName := ascii "score"
  typedLiteral := .ofScalar (.double literal)
  operationName := ascii "by_score"
  remoteInputName := ascii "score"
  encodedRemoteValue := declared
  accuracy := .exact
  proofIdentityValue := ascii "proof"
  baseDomainValue := ascii "posts"
  matchingFixture := ascii "matching"
  falseOrNullFixture := ascii "other"
  duplicatesFixture := ascii "duplicates"
  occurrencePreservation := .exactMatchingBaseOccurrences

/-- The operation that the predicate on the score selects. -/
def byScore : CompiledOperation :=
  issuesOperation (ascii "by_score") false [.conditionalInput (ascii "score")]
    [⟨ascii "score", [], .conditionalInput, ascii "score", true, false, none⟩]

/-- A relation with one mapped score. -/
def postsByScore (literal : Double) (declared : Bytes) : CompiledRelation where
  name := ascii "posts"
  columns :=
    [⟨ascii "score", ascii "DOUBLE", true, ascii "$.score", .scalar, .double, false,
      [ascii "score"]⟩]
  inputs := []
  predicateMappings := [scoreMapping literal declared]
  operations := [byScore, issuesOperation (ascii "all") true [] []]
  authentication := issues.authentication
  resourceCeilings := issues.resourceCeilings

def scoreIs (literal : Double) : ScanRequest :=
  issuesRequest (.comparison 0 .double (.double literal))

def half : Double := ⟨0x3FE0000000000000⟩

/-- `1e22` -/
def hugeScore : Double := ⟨0x4480F0CF064DD592⟩

/-- The source, id and text of a planned field. -/
def sentField [CLibrary] (binding : PlannedRestQueryBinding) : QueryValueSource × Bytes × Bytes :=
  (binding.fields.source, binding.fields.sourceId, binding.fields.encodedValue)

/-- The fields that planning after classification sends. -/
def sentFields [CLibrary] (relation : CompiledRelation) (operation : CompiledOperation)
    (request : ScanRequest) : Option (List (QueryValueSource × Bytes × Bytes)) :=
  match classify relation operation request with
  | .error _ => none
  | .ok decision =>
    match buildRestOperation relation operation [] decision with
    | .error _ => none
    | .ok planned => some (planned.queryBindings.map sentField)

theorem planned_of_sentFields [CLibrary] {relation : CompiledRelation}
    {operation : CompiledOperation} {request : ScanRequest}
    {sent : List (QueryValueSource × Bytes × Bytes)}
    (h : sentFields relation operation request = some sent) :
    ∃ decision planned, classify relation operation request = .ok decision ∧
      buildRestOperation relation operation [] decision = .ok planned ∧
      ∀ id text, Sends planned id text ↔ (.conditionalInput, id, text) ∈ sent := by
  unfold sentFields at h
  split at h
  · cases h
  · rename_i decision hdecision
    split at h
    · cases h
    · rename_i planned hplanned
      obtain rfl := Option.some.inj h
      refine ⟨decision, planned, hdecision, hplanned, fun id text => ?_⟩
      rw [List.mem_map]
      constructor
      · rintro ⟨binding, hbinding, hsource, hid, htext⟩
        exact ⟨binding, hbinding, by rw [sentField, hsource, hid, htext]⟩
      · rintro ⟨binding, hbinding, hfield⟩
        obtain ⟨hsource, hid, htext⟩ : binding.fields.source = .conditionalInput ∧
            binding.fields.sourceId = id ∧ binding.fields.encodedValue = text := by
          simpa [sentField] using hfield
        exact ⟨binding, hbinding, hsource, hid, htext⟩

/-- `score = 0.5` is sent as it was judged. -/
theorem conditional_input_agreement_half :
    ∃ decision planned,
      classify (postsByScore half (ascii "0.5")) byScore (scoreIs half) = .ok decision ∧
      buildRestOperation (postsByScore half (ascii "0.5")) byScore [] decision = .ok planned ∧
      Sends planned (ascii "score") (ascii "0.5") := by
  obtain ⟨judged, decision, hjudged, hclassify, -, -, -, -, hpublished⟩ :=
    conditional_input_agreement (postsByScore half (ascii "0.5")) (scoreIs half) [] byScore
      (ascii "score") (by decide +kernel) (by rfl) List.mem_cons_self
  have hvalue : resolveCandidateInputBindings (postsByScore half (ascii "0.5")) byScore
      (scoreIs half) = .ok ⟨[⟨ascii "score", ascii "0.5"⟩], false⟩ := by rfl
  obtain rfl : judged = ascii "0.5" := by
    rw [hvalue] at hjudged
    injection hjudged with hjudged
    injection hjudged with hvalues
    injection hvalues with hvalue
    injection hvalue with _ hvalue
    exact hvalue.symm
  obtain ⟨-, hsends⟩ := hpublished (by decide +kernel)
  obtain ⟨decision', planned, hclassify', hplanned, -⟩ := planned_of_sentFields
    (show sentFields (postsByScore half (ascii "0.5")) byScore (scoreIs half) =
      some [(.conditionalInput, ascii "score", ascii "0.5")] by decide +kernel)
  obtain rfl := Except.ok.inj (hclassify.symm.trans hclassify')
  refine ⟨decision, planned, hclassify, hplanned, (hsends planned hplanned).mpr ?_⟩
  intro found hfound value hvalue
  have hmapping : found.mapping = scoreMapping half (ascii "0.5") := by
    have hin := (isMatch_of_mem _ hfound).1
    exact List.mem_singleton.mp hin
  rw [hmapping] at hvalue
  obtain rfl := Option.some.inj hvalue
  decide +kernel

/-- `score = 1e22` is judged bound as `1e%2B22` and sent as `1e+22`. -/
theorem huge_score_sent_unencoded :
    validateRelation (postsByScore hugeScore (ascii "1e%2B22")) = .ok () ∧
      (∀ operation ∈ (postsByScore hugeScore (ascii "1e%2B22")).operations,
        validatePackageRequestBindings (postsByScore hugeScore (ascii "1e%2B22")) operation =
          .ok ()) ∧
      selectOperation (postsByScore hugeScore (ascii "1e%2B22")) (scoreIs hugeScore) [] =
        .ok byScore ∧
      .conditionalInput (ascii "score") ∈ byScore.selector ∧
      resolveCandidateInputBindings (postsByScore hugeScore (ascii "1e%2B22")) byScore
        (scoreIs hugeScore) = .ok ⟨[⟨ascii "score", ascii "1e%2B22"⟩], false⟩ ∧
      ∃ decision planned,
        classify (postsByScore hugeScore (ascii "1e%2B22")) byScore (scoreIs hugeScore) =
          .ok decision ∧
        buildRestOperation (postsByScore hugeScore (ascii "1e%2B22")) byScore [] decision =
          .ok planned ∧
        Sends planned (ascii "score") (ascii "1e+22") ∧
        ¬Sends planned (ascii "score") (ascii "1e%2B22") := by
  refine ⟨by decide +kernel, by decide +kernel, by rfl, List.mem_cons_self, by rfl, ?_⟩
  obtain ⟨decision, planned, hclassify, hplanned, hsends⟩ := planned_of_sentFields
    (show sentFields (postsByScore hugeScore (ascii "1e%2B22")) byScore (scoreIs hugeScore) =
      some [(.conditionalInput, ascii "score", ascii "1e+22")] by decide +kernel)
  refine ⟨decision, planned, hclassify, hplanned, (hsends _ _).mpr List.mem_cons_self, ?_⟩
  rw [hsends]
  decide +kernel

end Example

end Cuac.Semantics

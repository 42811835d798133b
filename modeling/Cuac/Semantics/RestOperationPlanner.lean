import Cuac.Semantics.InputResolution
import Cuac.Semantics.PlannedOperation
import Cuac.Semantics.PredicateClassifier

/-!
# The REST operation planner

How a selected REST operation, the resolved inputs of the relation and the
predicate decision become one planned request: a path, segment by segment, and
the query fields in declaration order. A field without a value is left out where
its declaration says so.

Main results:

* `planPathSegment_eq_ok` — a planned segment is the declared literal, or the
  bound input under its percent encoding.
* `planQueryField_conditional` — what a conditional field becomes.
* `buildRestOperation_eq_ok` — a planned operation has one segment for each
  declared one and the fields that were not left out, in order.
* `throws_buildRestOperation` — where planning can throw the disagreement of a
  conditional field with the predicate decision.
-/

namespace Cuac.Semantics

open Cuac.Lib Cuac.Connector

-- ---------------------------------------------------------------------------
-- The path
-- ---------------------------------------------------------------------------

def validatePathValue (value : Bytes) : Except Fault Unit := do
  throwIf (value.isEmpty || 1024 < value.length || value == dot || value == dotDot ||
      value.any isPathSyntax)
    (invalidArgument "REST structural path input contains invalid structure or size")
  validateControlFree "REST structural path input" value

theorem validatePathValue_eq_ok {value : Bytes} {u : Unit} :
    validatePathValue value = .ok u ↔ PathText value := by
  unfold validatePathValue
  simp only [bind_eq_ok, throwIf_eq_ok, validateControlFree_eq_ok, exists_const,
    Bool.or_eq_false_iff, List.isEmpty_eq_false_iff, decide_eq_false_iff_not, Nat.not_lt,
    beq_eq_false_iff_ne, List.any_eq_false]
  constructor
  · rintro ⟨⟨⟨⟨⟨hne, hsize⟩, hdot⟩, hdotDot⟩, hplain⟩, hfree⟩
    exact ⟨hne, hsize, hdot, hdotDot, fun b hb => by simpa using hplain b hb, hfree⟩
  · rintro ⟨hne, hsize, hdot, hdotDot, hplain, hfree⟩
    exact ⟨⟨⟨⟨⟨hne, hsize⟩, hdot⟩, hdotDot⟩, fun b hb => by simp [hplain b hb]⟩, hfree⟩

/-- The bound value of a path input, if it has the declared type. -/
def pathInput (inputs : ResolvedRelationInputs) (id : Bytes) (type : ScalarKind) :
    Option Scalar := do
  let input ← inputs.find id
  let value ← input.state.value?
  if input.type == type then some value else none

variable [CLibrary]

/-- One turn of the path loop: the contract, the binding and the bytes that follow
the slash. -/
def planPathSegment (inputs : ResolvedRelationInputs) :
    CompiledRestPathSegment →
      Except Fault (PlannedRestPathContractSegment × PlannedRestPathSegment × Bytes)
  | .literal value => do
    let contract ← Checked.make PathContractFields.check ⟨.literal, [], .varchar, .literal, value⟩
    let binding ← Checked.make PathSegmentFields.check
      ⟨.literal, [], .varchar value, .literal, value⟩
    pure (contract, binding, value)
  | .relationInput id type =>
    match pathInput inputs id type with
    | none =>
      .error (logicError "selected REST path input is absent, NULL, or type-incompatible")
    | some value => do
      let contract ← Checked.make PathContractFields.check
        ⟨.relationInput, id, type, .rfc3986PercentEncoded, []⟩
      let decoded ← canonicalText "REST structural path DOUBLE must be finite" value
      validatePathValue decoded
      let encoded := percentEncodePathSegment decoded
      let binding ← Checked.make PathSegmentFields.check
        ⟨.relationInput, id, value, .rfc3986PercentEncoded, encoded⟩
      pure (contract, binding, encoded)

/-- `path += '/' + …` for every segment; a path of none is the root. -/
def joinPath : List Bytes → Bytes
  | [] => ascii "/"
  | segments => segments.flatMap fun segment => byte '/' :: segment

-- ---------------------------------------------------------------------------
-- The query
-- ---------------------------------------------------------------------------

/-- `PlanScalar` of a declared value. -/
def planScalar (value : CompiledScalarValue) : Except Fault Scalar :=
  match value.value with
  | some scalar => pure scalar
  | none => .error (logicError "compiled REST query field contains a concrete NULL value")

/-- The value and the text of a query field; none where it is left out. -/
def queryFieldValue (inputs : ResolvedRelationInputs) (decision : PredicatePlanDecision)
    (query : CompiledQueryParameter) : Except Fault (Option (Scalar × Bytes)) :=
  match query.source with
  | .fixed | .pageSize | .pageNumber =>
    match query.decodedValue with
    | none => .error (logicError "fixed or pagination REST query field lacks its decoded scalar")
    | some decoded => do
      let scalar ← planScalar decoded
      pure (some (scalar, query.encodedValue))
  | .relationInput =>
    match inputs.find query.sourceId with
    | none => .error (logicError "REST query field references an unknown resolved relation input")
    | some input =>
      match input.state with
      | .unbound => do
        throwIf (!query.omitWhenUnbound)
          (logicError "unbound REST relation input lacks omission authority")
        pure none
      | .boundNull => do
        throwIf (!query.omitWhenNull)
          (logicError "NULL REST relation input lacks omission authority")
        pure none
      | .boundValue scalar => do
        let encoded ← encode scalar
        pure (some (scalar, encoded))
  | .conditionalInput =>
    if decision.conditionalInput != .restQueryBinding then do
      throwIf (!query.omitWhenUnbound)
        (logicError "absent REST conditional input lacks omission authority")
      pure none
    else
      match decision.typedEquality with
      | none => .error
          (logicError "selected REST conditional input disagrees with its typed predicate source")
      | some equality => do
        throwIf (equality.conditionalInputId != query.sourceId)
          (logicError "selected REST conditional input disagrees with its typed predicate source")
        let encoded ← encode equality.value
        pure (some (equality.value, encoded))

/-- One turn of the query loop. -/
def planQueryField (inputs : ResolvedRelationInputs) (decision : PredicatePlanDecision)
    (query : CompiledQueryParameter) : Except Fault (Option PlannedRestQueryBinding) := do
  match ← queryFieldValue inputs decision query with
  | none => pure none
  | some (scalar, encoded) =>
    let binding ← Checked.make QueryBindingFields.check
      ⟨query.name, query.source, query.sourceId, scalar, encoded⟩
    pure (some binding)

/-- The loop that adds up the bytes of the request target. -/
def validateTargetBytes (targetBytes : Nat) : List PlannedRestQueryBinding → Except Fault Unit
  | [] => pure ()
  | binding :: rest => do
    let fieldBytes := 2 + binding.fields.name.length + binding.fields.encodedValue.length
    throwIf (8192 < targetBytes || 8192 - targetBytes < fieldBytes)
      (invalidArgument "REST request target exceeds the path-plus-query byte budget")
    validateTargetBytes (targetBytes + fieldBytes) rest

-- ---------------------------------------------------------------------------
-- The operation
-- ---------------------------------------------------------------------------

def planResultColumn (column : CompiledColumn) : PlannedRestResultColumn :=
  ⟨column.name, column.elementType, column.nullable, column.extractorSegments, column.shape,
    column.elementNullable⟩

def buildRestOperation (relation : CompiledRelation) (operation : CompiledOperation)
    (inputs : ResolvedRelationInputs) (decision : PredicatePlanDecision) :
    Except Fault PlannedRestOperation :=
  match operation.protocolOperation with
  | .graphql _ =>
    .error (logicError "REST operation planner received another protocol alternative")
  | .rest rest => do
    let segments ← forEach (planPathSegment inputs) rest.request.pathSegments
    let path := joinPath (segments.map fun segment => segment.2.2)
    throwIf (2048 < path.length)
      (invalidArgument "REST structural path exceeds the request-path byte budget")
    let fields ← forEach (planQueryField inputs decision) rest.request.queryParameters
    let queryBindings := fields.filterMap id
    validateTargetBytes path.length queryBindings
    pure {
      name := operation.name
      cardinality := operation.cardinality
      origin := rest.request.origin
      path := path
      pathContract := segments.map fun segment => segment.1
      pathBindings := segments.map fun segment => segment.2.1
      queryBindings := queryBindings
      headers := rest.request.headers
      responseSource := rest.responseSource
      recordsExtractor := rest.recordsExtractor
      resultColumns := relation.columns.map planResultColumn
      recordsPath := rest.recordsExtractorSegments }

-- ---------------------------------------------------------------------------
-- What planning returns
-- ---------------------------------------------------------------------------

section Planned

variable {relation : CompiledRelation} {operation : CompiledOperation}
  {inputs : ResolvedRelationInputs} {decision : PredicatePlanDecision}

theorem planPathSegment_eq_ok {segment : CompiledRestPathSegment}
    {result : PlannedRestPathContractSegment × PlannedRestPathSegment × Bytes}
    (h : planPathSegment inputs segment = .ok result) :
    (∃ value, segment = .literal value ∧
        result.1.fields = ⟨.literal, [], .varchar, .literal, value⟩ ∧
        result.2.1.fields = ⟨.literal, [], .varchar value, .literal, value⟩ ∧
        result.2.2 = value) ∨
      ∃ id type value text, segment = .relationInput id type ∧
        pathInput inputs id type = some value ∧
        canonicalText "REST structural path DOUBLE must be finite" value = .ok text ∧
        PathText text ∧
        result.1.fields = ⟨.relationInput, id, type, .rfc3986PercentEncoded, []⟩ ∧
        result.2.1.fields = ⟨.relationInput, id, value, .rfc3986PercentEncoded,
          percentEncodePathSegment text⟩ ∧
        result.2.2 = percentEncodePathSegment text := by
  cases segment with
  | literal value =>
    rw [planPathSegment] at h
    obtain ⟨contract, hcontract, h⟩ := bind_eq_ok.mp h
    obtain ⟨binding, hbinding, h⟩ := bind_eq_ok.mp h
    obtain rfl := pure_eq_ok.mp h
    exact Or.inl ⟨value, rfl, Checked.make_eq_ok hcontract, Checked.make_eq_ok hbinding, rfl⟩
  | relationInput id type =>
    rw [planPathSegment] at h
    split at h
    · cases h
    · rename_i value hvalue
      obtain ⟨contract, hcontract, h⟩ := bind_eq_ok.mp h
      obtain ⟨text, htext, h⟩ := bind_eq_ok.mp h
      obtain ⟨_, hpath, h⟩ := bind_eq_ok.mp h
      obtain ⟨binding, hbinding, h⟩ := bind_eq_ok.mp h
      obtain rfl := pure_eq_ok.mp h
      exact Or.inr ⟨id, type, value, text, rfl, hvalue, htext, validatePathValue_eq_ok.mp hpath,
        Checked.make_eq_ok hcontract, Checked.make_eq_ok hbinding, rfl⟩

/-- A field that is planned carries its own name, source and value. -/
theorem planQueryField_eq_some {query : CompiledQueryParameter}
    {binding : PlannedRestQueryBinding}
    (h : planQueryField inputs decision query = .ok (some binding)) :
    ∃ scalar encoded, queryFieldValue inputs decision query = .ok (some (scalar, encoded)) ∧
      binding.fields = ⟨query.name, query.source, query.sourceId, scalar, encoded⟩ := by
  obtain ⟨value, hvalue, h⟩ := bind_eq_ok.mp h
  cases value with
  | none => cases h
  | some value =>
    obtain ⟨made, hmade, h⟩ := bind_eq_ok.mp h
    obtain rfl := Option.some.inj (pure_eq_ok.mp h)
    exact ⟨value.1, value.2, hvalue, Checked.make_eq_ok hmade⟩

/-- Under a selected equality, a conditional field is the equality's. -/
theorem planQueryField_conditional {query : CompiledQueryParameter}
    {equality : TypedEqualityDecision} {result : Option PlannedRestQueryBinding}
    (hselected : decision.conditionalInput = .restQueryBinding)
    (hequality : decision.typedEquality = some equality)
    (hsource : query.source = .conditionalInput)
    (h : planQueryField inputs decision query = .ok result) :
    ∃ binding encoded, result = some binding ∧ encode equality.value = .ok encoded ∧
      equality.conditionalInputId = query.sourceId ∧
      binding.fields =
        ⟨query.name, .conditionalInput, query.sourceId, equality.value, encoded⟩ := by
  obtain ⟨value, hvalue, h⟩ := bind_eq_ok.mp h
  unfold queryFieldValue at hvalue
  simp only [hsource, hselected, hequality, bne_self_eq_false, Bool.false_eq_true, if_false]
    at hvalue
  obtain ⟨_, hid, hvalue⟩ := bind_eq_ok.mp hvalue
  obtain ⟨encoded, hencoded, hvalue⟩ := bind_eq_ok.mp hvalue
  obtain rfl := pure_eq_ok.mp hvalue
  obtain ⟨binding, hbinding, h⟩ := bind_eq_ok.mp h
  obtain rfl := pure_eq_ok.mp h
  simp only [throwIf_eq_ok, bne_eq_false_iff_eq] at hid
  have hfields := Checked.make_eq_ok hbinding
  rw [hsource] at hfields
  exact ⟨binding, encoded, rfl, hencoded, hid, hfields⟩

/-- What a planned operation was built from. -/
structure PlannedFrom (inputs : ResolvedRelationInputs) (decision : PredicatePlanDecision)
    (rest : CompiledRestOperation) (planned : PlannedRestOperation) : Prop where
  path : ∃ segments, forEach (planPathSegment inputs) rest.request.pathSegments = .ok segments ∧
    planned.path = joinPath (segments.map fun segment => segment.2.2) ∧
    planned.pathContract = segments.map (fun segment => segment.1) ∧
    planned.pathBindings = segments.map fun segment => segment.2.1
  pathSize : planned.path.length ≤ 2048
  query : ∃ fields, forEach (planQueryField inputs decision) rest.request.queryParameters =
      .ok fields ∧
    planned.queryBindings = fields.filterMap id
  targetSize : validateTargetBytes planned.path.length planned.queryBindings = .ok ()
  origin : planned.origin = rest.request.origin

theorem buildRestOperation_eq_ok {planned : PlannedRestOperation}
    (h : buildRestOperation relation operation inputs decision = .ok planned) :
    ∃ rest, operation.protocolOperation = .rest rest ∧
      PlannedFrom inputs decision rest planned := by
  unfold buildRestOperation at h
  split at h
  · cases h
  · rename_i rest hprotocol
    obtain ⟨segments, hsegments, h⟩ := bind_eq_ok.mp h
    obtain ⟨_, hsize, h⟩ := bind_eq_ok.mp h
    obtain ⟨fields, hfields, h⟩ := bind_eq_ok.mp h
    obtain ⟨_, htarget, h⟩ := bind_eq_ok.mp h
    obtain rfl := pure_eq_ok.mp h
    simp only [throwIf_eq_ok, decide_eq_false_iff_not, Nat.not_lt] at hsize
    exact ⟨rest, hprotocol, ⟨segments, hsegments, rfl, rfl, rfl⟩, hsize, ⟨fields, hfields, rfl⟩,
      htarget, rfl⟩

theorem PlannedFrom.mem_queryBindings {rest : CompiledRestOperation}
    {planned : PlannedRestOperation} (h : PlannedFrom inputs decision rest planned)
    {binding : PlannedRestQueryBinding} :
    binding ∈ planned.queryBindings ↔
      ∃ query ∈ rest.request.queryParameters,
        planQueryField inputs decision query = .ok (some binding) := by
  obtain ⟨fields, hfields, hbindings⟩ := h.query
  rw [hbindings, List.mem_filterMap]
  constructor
  · rintro ⟨field, hfield, hsome⟩
    obtain ⟨query, hquery, hplan⟩ := forEach_mem_result hfields hfield
    rw [show field = some binding from hsome] at hplan
    exact ⟨query, hquery, hplan⟩
  · rintro ⟨query, hquery, hplan⟩
    obtain ⟨field, hfield, hplan'⟩ := forEach_of_mem hfields hquery
    rw [hplan] at hplan'
    exact ⟨field, hfield, (Except.ok.inj hplan').symm⟩

end Planned

-- ---------------------------------------------------------------------------
-- The disagreement error
-- ---------------------------------------------------------------------------

section Disagreement

variable {relation : CompiledRelation} {operation : CompiledOperation}
  {inputs : ResolvedRelationInputs} {decision : PredicatePlanDecision}

/-- The error of a conditional field whose source is not the selected equality's. -/
def disagreement : Fault :=
  logicError "selected REST conditional input disagrees with its typed predicate source"

omit [CLibrary] in
theorem throws_invalidArgument {bad : Bool} {message : String} :
    Throws (· ≠ disagreement) (throwIf bad (invalidArgument message)) := by
  refine throws_throwIf.mpr fun _ h => ?_
  cases congrArg Fault.exception h

omit [CLibrary] in
theorem throws_validateControlFree (subject : String) (value : Bytes) :
    Throws (· ≠ disagreement) (validateControlFree subject value) := by
  unfold validateControlFree
  refine Utf8.throws_scan (fun defect => ?_) (fun codePoint => ?_) value
  · cases defect <;> exact fun h => nomatch congrArg Fault.exception h
  · exact throws_invalidArgument

theorem throws_encodeCanonicalDouble (value : Double) :
    Throws (· ≠ disagreement) (encodeCanonicalDouble value) := by
  refine Throws.bind ?_ fun _ _ => throws_pure
  exact throws_invalidArgument

omit [CLibrary] in
theorem throws_canonicalTimestamptz (microseconds : Int64) :
    Throws (· ≠ disagreement) (canonicalTimestamptz microseconds) := by
  refine Throws.bind throws_invalidArgument fun _ _ => ?_
  refine Throws.bind (throws_throwIf.mpr fun _ => ?_) fun _ _ => throws_pure
  decide

theorem throws_canonicalText (nonFinite : String) (value : Scalar) :
    Throws (· ≠ disagreement) (canonicalText nonFinite value) := by
  cases value with
  | double value =>
    refine Throws.bind ?_ fun _ _ => throws_encodeCanonicalDouble value
    exact throws_invalidArgument
  | timestamptz value => exact throws_canonicalTimestamptz value
  | _ => exact throws_pure

theorem throws_encode (value : Scalar) : Throws (· ≠ disagreement) (encode value) := by
  cases value with
  | double value => exact throws_encodeCanonicalDouble value
  | timestamptz value =>
    exact Throws.bind (throws_canonicalTimestamptz value) fun _ _ => throws_pure
  | _ => exact throws_pure

omit [CLibrary] in
theorem throws_pathContract (fields : PathContractFields) :
    Throws (· ≠ disagreement) (Checked.make PathContractFields.check fields) := by
  refine Checked.throws_make ?_
  unfold PathContractFields.check
  split
  · exact throws_invalidArgument
  · exact throws_invalidArgument

theorem throws_pathSegment (fields : PathSegmentFields) :
    Throws (· ≠ disagreement) (Checked.make PathSegmentFields.check fields) := by
  refine Checked.throws_make ?_
  unfold PathSegmentFields.check
  refine Throws.bind throws_invalidArgument fun _ _ => ?_
  split
  · exact throws_invalidArgument
  · refine Throws.bind throws_invalidArgument fun _ _ => ?_
    refine Throws.bind ?_ fun _ _ => throws_invalidArgument
    refine Throws.bind (throws_canonicalText _ _) fun text _ => ?_
    refine Throws.bind ?_ fun _ _ => throws_pure
    refine Throws.bind throws_invalidArgument fun _ _ => ?_
    refine Throws.bind (throws_validateControlFree _ _) fun _ _ => ?_
    exact throws_invalidArgument

theorem throws_planPathSegment (segment : CompiledRestPathSegment) :
    Throws (· ≠ disagreement) (planPathSegment inputs segment) := by
  unfold planPathSegment
  split
  · refine Throws.bind (throws_pathContract _) fun _ _ => ?_
    exact Throws.bind (throws_pathSegment _) fun _ _ => throws_pure
  · split
    · exact throws_error.mpr (by decide)
    · refine Throws.bind (throws_pathContract _) fun _ _ => ?_
      refine Throws.bind (throws_canonicalText _ _) fun text _ => ?_
      refine Throws.bind ?_ fun _ _ =>
        Throws.bind (throws_pathSegment _) fun _ _ => throws_pure
      refine Throws.bind ?_ fun _ _ => throws_validateControlFree _ _
      exact throws_invalidArgument

theorem throws_queryBinding (fields : QueryBindingFields) :
    Throws (· ≠ disagreement) (Checked.make QueryBindingFields.check fields) := by
  refine Checked.throws_make ?_
  unfold QueryBindingFields.check
  refine Throws.bind throws_invalidArgument fun _ _ => ?_
  refine Throws.bind ?_ fun _ _ => Throws.bind ?_ fun _ _ => ?_
  · unfold validateQuerySource
    split <;> exact throws_invalidArgument
  · unfold validateQueryValue
    split
    · exact throws_validateControlFree _ _
    · exact throws_invalidArgument
    · exact throws_pure
  · refine Throws.bind (throws_encode _) fun _ _ => ?_
    exact throws_invalidArgument

/-- A field throws the disagreement only where it is conditional and not the
selected equality's. -/
theorem throws_queryFieldValue {query : CompiledQueryParameter}
    (hagree : query.source = .conditionalInput → decision.conditionalInput = .restQueryBinding →
      ∃ equality, decision.typedEquality = some equality ∧
        equality.conditionalInputId = query.sourceId) :
    Throws (· ≠ disagreement) (queryFieldValue inputs decision query) := by
  unfold queryFieldValue
  have hdeclared : Throws (· ≠ disagreement)
      (match query.decodedValue with
        | none => .error
            (logicError "fixed or pagination REST query field lacks its decoded scalar")
        | some decoded => do
          let scalar ← planScalar decoded
          pure (some (scalar, query.encodedValue)) : Except Fault (Option (Scalar × Bytes))) := by
    split
    · exact throws_error.mpr (by decide)
    · refine Throws.bind ?_ fun _ _ => throws_pure
      unfold planScalar
      split
      · exact throws_pure
      · exact throws_error.mpr (by decide)
  split
  · exact hdeclared
  · exact hdeclared
  · exact hdeclared
  · split
    · exact throws_error.mpr (by decide)
    · split
      · exact Throws.bind (throws_throwIf.mpr fun _ => by decide) fun _ _ => throws_pure
      · exact Throws.bind (throws_throwIf.mpr fun _ => by decide) fun _ _ => throws_pure
      · exact Throws.bind (throws_encode _) fun _ _ => throws_pure
  · rename_i hsource
    split
    · exact Throws.bind (throws_throwIf.mpr fun _ => by decide) fun _ _ => throws_pure
    · rename_i hselected
      obtain ⟨equality, hequality, hid⟩ := hagree hsource (by simpa using hselected)
      simp only [hequality, hid, bne_self_eq_false]
      refine Throws.bind (throws_throwIf.mpr fun hfalse => nomatch hfalse) fun _ _ => ?_
      exact Throws.bind (throws_encode _) fun _ _ => throws_pure

theorem throws_validateTargetBytes (targetBytes : Nat)
    (bindings : List PlannedRestQueryBinding) :
    Throws (· ≠ disagreement) (validateTargetBytes targetBytes bindings) := by
  induction bindings generalizing targetBytes with
  | nil => exact throws_pure
  | cons binding rest ih =>
    refine Throws.bind ?_ fun _ _ => ih _
    exact throws_invalidArgument

/-- The planner throws the disagreement only where some conditional field is not
the selected equality's. -/
theorem throws_buildRestOperation
    (hagree : ∀ rest, operation.protocolOperation = .rest rest →
      ∀ query ∈ rest.request.queryParameters, query.source = .conditionalInput →
        decision.conditionalInput = .restQueryBinding →
        ∃ equality, decision.typedEquality = some equality ∧
          equality.conditionalInputId = query.sourceId) :
    Throws (· ≠ disagreement) (buildRestOperation relation operation inputs decision) := by
  unfold buildRestOperation
  split
  · exact throws_error.mpr (by decide)
  · rename_i rest hprotocol
    refine Throws.bind (Throws.forEach fun segment _ => throws_planPathSegment segment)
      fun _ _ => ?_
    refine Throws.bind throws_invalidArgument fun _ _ => ?_
    refine Throws.bind (Throws.forEach fun query hquery => ?_) fun _ _ => ?_
    · refine Throws.bind (throws_queryFieldValue (hagree rest hprotocol query hquery))
        fun value _ => ?_
      cases value with
      | none => exact throws_pure
      | some value => exact Throws.bind (throws_queryBinding _) fun _ _ => throws_pure
    · exact Throws.bind (throws_validateTargetBytes _ _) fun _ _ => throws_pure

end Disagreement

end Cuac.Semantics

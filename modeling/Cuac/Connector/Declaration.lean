import Mathlib.Data.List.Pairwise
import Cuac.Connector.Catalog
import Cuac.Connector.Timestamptz

/-!
# Checks of the compiled model

What the constructors of a predicate mapping and of a relation, and the
publication of a package, accept of mappings, selectors and conditional query
fields. The checks on columns, ceilings and GraphQL documents, and those that
compare a mapping's identities with digests of the package, are left out: no
result rests on them.

Main results:

* `ValidRelation` — what acceptance of a relation promises; in particular an
  operation has one conditional input, and its mappings declare different values.
-/

namespace Cuac.Connector

open Cuac.Lib

-- ---------------------------------------------------------------------------
-- Encoding of declared values
-- ---------------------------------------------------------------------------

def isUtf8Continuation (b : UInt8) : Bool := (b &&& 0xC0) == 0x80

def isControlCodePoint (codePoint : Nat) : Bool :=
  codePoint ≤ 0x1F || (0x7F ≤ codePoint && codePoint ≤ 0x9F)

def isCanonicalSecondOfThree (first second : UInt8) : Bool :=
  (first == 0xE0 && 0xA0 ≤ second && second ≤ 0xBF) ||
    (first == 0xED && 0x80 ≤ second && second ≤ 0x9F) ||
    (((0xE1 ≤ first && first ≤ 0xEC) || (0xEE ≤ first && first ≤ 0xEF)) &&
      isUtf8Continuation second)

def isCanonicalSecondOfFour (first second : UInt8) : Bool :=
  (first == 0xF0 && 0x90 ≤ second && second ≤ 0xBF) ||
    (first == 0xF4 && 0x80 ≤ second && second ≤ 0x8F) ||
    (0xF1 ≤ first && first ≤ 0xF3 && isUtf8Continuation second)

/-- Connector's copy of the control-free UTF-8 check, written over the legal
second bytes. `turns` is the size of the text. -/
def isValidUtf8TextFrom : Nat → Bytes → Bool
  | _, [] => true
  | 0, _ :: _ => false
  | turns + 1, first :: rest =>
    if first ≤ 0x7F then !isControlCodePoint first.toNat && isValidUtf8TextFrom turns rest
    else
      match rest with
      | second :: third :: fourth :: more =>
        if 0xC2 ≤ first && first ≤ 0xDF && isUtf8Continuation second then
          !isControlCodePoint (((first &&& 0x1F).toNat <<< 6) ||| (second &&& 0x3F).toNat) &&
            isValidUtf8TextFrom turns (third :: fourth :: more)
        else if 0xE0 ≤ first && first ≤ 0xEF then
          isCanonicalSecondOfThree first second && isUtf8Continuation third &&
            isValidUtf8TextFrom turns (fourth :: more)
        else 0xF0 ≤ first && first ≤ 0xF4 && isCanonicalSecondOfFour first second &&
          isUtf8Continuation third && isUtf8Continuation fourth && isValidUtf8TextFrom turns more
      | [second, third] =>
        if 0xC2 ≤ first && first ≤ 0xDF && isUtf8Continuation second then
          !isControlCodePoint (((first &&& 0x1F).toNat <<< 6) ||| (second &&& 0x3F).toNat) &&
            isValidUtf8TextFrom turns [third]
        else 0xE0 ≤ first && first ≤ 0xEF && isCanonicalSecondOfThree first second &&
          isUtf8Continuation third
      | [second] =>
        0xC2 ≤ first && first ≤ 0xDF && isUtf8Continuation second &&
          !isControlCodePoint (((first &&& 0x1F).toNat <<< 6) ||| (second &&& 0x3F).toNat)
      | [] => false

def isValidUtf8Text (value : Bytes) : Bool := isValidUtf8TextFrom value.length value

/-- The text of a declared scalar before its form encoding. -/
def declaredText [CLibrary] : Scalar → Except Fault Bytes
  | .boolean value => pure (booleanText value)
  | .bigint value => pure (signed value.toInt)
  | .varchar value => do
    throwIf (!isValidUtf8Text value)
      (invalidArgument "compiled query VARCHAR is not valid control-free UTF-8")
    pure value
  | .double value =>
    encodeCanonicalDoubleWith "compiled query DOUBLE could not be canonically encoded" value
  | .timestamptz value => canonicalTimestamptz value

/-- Every kind is form-encoded. -/
def encodeCompiledQueryScalar [CLibrary] (value : CompiledScalarValue) : Except Fault Bytes :=
  match value.value with
  | none => .error (invalidArgument "compiled query scalar encoding requires a concrete value")
  | some scalar => do
    let decoded ← declaredText scalar
    pure (formEscape.encode decoded)

-- ---------------------------------------------------------------------------
-- Mappings
-- ---------------------------------------------------------------------------

def isModelIdentifier (value : Bytes) : Bool :=
  value.head?.any (fun b => byte 'a' ≤ b && b ≤ byte 'z') &&
    value.all fun b => (byte 'a' ≤ b && b ≤ byte 'z') || isDigit b || b == byte '_'

/-- None of the bytes of `&=?#\r\n`. -/
def isSafeEncodedScalar (value : Bytes) : Bool :=
  value.all fun b => !(ascii "&=?#\r\n").contains b

/-- The occurrence law that goes with an accuracy. -/
def occurrencesOf : PredicateAccuracy → OccurrencePreservation
  | .exact => .exactMatchingBaseOccurrences
  | .superset => .allMatchingBaseOccurrences

/-- The package constructor of a mapping, which also derives its occurrence law. -/
def CompiledPredicateMapping.check (mapping : CompiledPredicateMapping) : Except Fault Unit := do
  throwIf (!isModelIdentifier mapping.name || !isModelIdentifier mapping.columnName ||
      !isModelIdentifier mapping.operationName || !isModelIdentifier mapping.remoteInputName ||
      !isModelIdentifier mapping.matchingFixture || !isModelIdentifier mapping.falseOrNullFixture ||
      !isModelIdentifier mapping.duplicatesFixture ||
      !isSafeEncodedScalar mapping.encodedRemoteValue || mapping.proofIdentityValue.isEmpty ||
      mapping.baseDomainValue.isEmpty || mapping.typedLiteral.isNull)
    (invalidArgument "compiled package predicate contains an invalid structural fact")
  throwIf (mapping.occurrencePreservation != occurrencesOf mapping.accuracy)
    (invalidArgument "compiled package predicate contains an invalid structural fact")

def sameScalarValue (left right : CompiledScalarValue) : Bool :=
  left.type == right.type &&
    match left.value, right.value with
    | none, none => true
    | some a, some b => a.same b
    | _, _ => false

def findOperation (operations : List CompiledOperation) (name : Bytes) : Option CompiledOperation :=
  operations.find? fun operation => operation.name == name

def findColumn (columns : List CompiledColumn) (name : Bytes) : Option CompiledColumn :=
  columns.find? fun column => column.name == name

def hasFixedQueryField (rest : CompiledRestOperation) (name : Bytes) : Bool :=
  rest.request.queryParameters.any fun parameter =>
    parameter.name == name && parameter.source == .fixed

def findConditionalQueryBinding (rest : CompiledRestOperation) (id : Bytes) :
    Option CompiledQueryParameter :=
  rest.request.queryParameters.find? fun parameter =>
    parameter.source == .conditionalInput && parameter.sourceId == id

def collidesWithPagination (pagination : CompiledPagination) (name : Bytes) : Bool :=
  pagination.strategy != .disabled &&
    (name == pagination.pageSizeParameter || name == pagination.pageNumberParameter)

/-- The inner loop: one mapping against a later one of the same operation. -/
def validateMappingPair (mapping other : CompiledPredicateMapping) : Except Fault Unit := do
  throwIf (mapping.operationName == other.operationName &&
      mapping.remoteInputName != other.remoteInputName)
    (invalidArgument "compiled package operation contains more than one conditional predicate input")
  throwIf (mapping.operationName == other.operationName &&
      !(!sameScalarValue mapping.typedLiteral other.typedLiteral &&
        mapping.encodedRemoteValue != other.encodedRemoteValue))
    (invalidArgument "compiled relation contains ambiguous predicate input bindings")

/-- The request field that a mapping feeds. -/
def validateMappingBinding (operations : List CompiledOperation)
    (mapping : CompiledPredicateMapping) : Except Fault Unit :=
  match findOperation operations mapping.operationName with
  | none => .error (invalidArgument "compiled predicate mapping references an absent operation")
  | some operation =>
    match operation.protocolOperation with
    | .graphql _ =>
      .error (invalidArgument "compiled predicate mapping cannot target a GraphQL operation")
    | .rest rest =>
      match findConditionalQueryBinding rest mapping.remoteInputName with
      | none => .error
          (invalidArgument "compiled package predicate lacks its conditional request binding")
      | some parameter =>
        throwIf (hasFixedQueryField rest parameter.name ||
            collidesWithPagination rest.pagination parameter.name)
          (invalidArgument
            "compiled predicate mapping conflicts with a fixed or pagination query field")

def validateMappingColumn (columns : List CompiledColumn) (mapping : CompiledPredicateMapping) :
    Except Fault Unit :=
  throwIf
    (match findColumn columns mapping.columnName with
      | some column => column.shape != .scalar || mapping.typedLiteral.type != column.elementType
      | none => true)
    (invalidArgument "compiled predicate mapping references an absent or incompatible column")

def validatePredicateProofProfile (mapping : CompiledPredicateMapping) : Except Fault Unit :=
  throwIf (mapping.proofIdentityValue.isEmpty || mapping.baseDomainValue.isEmpty ||
      mapping.matchingFixture.isEmpty || mapping.falseOrNullFixture.isEmpty ||
      mapping.duplicatesFixture.isEmpty)
    (invalidArgument "compiled predicate mapping does not match its accepted proof profile")

def validatePredicateMappings (columns : List CompiledColumn)
    (operations : List CompiledOperation) :
    List CompiledPredicateMapping → Except Fault Unit
  | [] => pure ()
  | mapping :: rest => do
    validateMappingColumn columns mapping
    validateMappingBinding operations mapping
    let _ ← forEach (validateMappingPair mapping) rest
    validatePredicateProofProfile mapping
    validatePredicateMappings columns operations rest

-- ---------------------------------------------------------------------------
-- Selectors and relations
-- ---------------------------------------------------------------------------

/-- `HasRelationInput` and `HasConditionalInput`. -/
def isRepresented (operation : CompiledOperation) (inputs : List CompiledRelationInput)
    (mappings : List CompiledPredicateMapping) : RequiredInputReference → Bool
  | .relationInput id => inputs.any fun input => input.name == id
  | .conditionalInput id => mappings.any fun mapping =>
      mapping.operationName == operation.name && mapping.remoteInputName == id

def validateOperationSelectorReferences (inputs : List CompiledRelationInput)
    (mappings : List CompiledPredicateMapping) (operation : CompiledOperation) :
    Except Fault Unit := do
  throwIf (128 < operation.selector.length || operation.fallback != operation.selector.isEmpty)
    (invalidArgument "compiled v1 operation selector disagrees with fallback/when shape")
  throwIf (!operation.selector.all (isRepresented operation inputs mappings))
    (invalidArgument "compiled operation selector references a missing or wrong-kind input")

/-- The checks of the relation's constructor, as far as they are modelled; the
mappings have passed their own constructor. -/
def validateRelation (relation : CompiledRelation) : Except Fault Unit := do
  let _ ← forEach CompiledPredicateMapping.check relation.predicateMappings
  throwIf (!decide (relation.columns.map (·.name)).Nodup)
    (invalidArgument "compiled relation contains a duplicate column")
  throwIf (!decide (relation.operations.map (·.name)).Nodup)
    (invalidArgument "compiled relation contains a duplicate operation identifier")
  throwIf (1 < (relation.operations.filter (·.fallback)).length)
    (invalidArgument "compiled relation contains multiple fallback operations")
  validatePredicateMappings relation.columns relation.operations relation.predicateMappings
  let _ ← forEach (validateOperationSelectorReferences relation.inputs relation.predicateMappings)
    relation.operations
  pure ()

-- ---------------------------------------------------------------------------
-- Publication of a package
-- ---------------------------------------------------------------------------

/-- The mappings that feed a conditional query field. -/
def mappingsOf (relation : CompiledRelation) (operation : CompiledOperation) (id : Bytes) :
    List CompiledPredicateMapping :=
  relation.predicateMappings.filter fun mapping =>
    mapping.operationName == operation.name && mapping.remoteInputName == id

/-- The declared value of a mapping is the encoding of its literal. -/
def validateCanonicalEncoding [CLibrary] (mapping : CompiledPredicateMapping) :
    Except Fault Unit := do
  let encoded ← encodeCompiledQueryScalar mapping.typedLiteral
  throwIf (mapping.encodedRemoteValue != encoded)
    (invalidArgument "compiled package query field lacks exact conditional scalar provenance")

/-- The conditional part of `ValidatePackageRequestBindings`. -/
def validatePackageRequestBindings [CLibrary] (relation : CompiledRelation)
    (operation : CompiledOperation) : Except Fault Unit :=
  match operation.protocolOperation with
  | .graphql _ => pure ()
  | .rest rest => do
    let conditionals := rest.request.queryParameters.filter fun parameter =>
      parameter.source == .conditionalInput
    throwIf (1 < conditionals.length)
      (invalidArgument
        "compiled package operation contains more than one conditional request binding")
    throwIf (conditionals.any fun parameter =>
        (mappingsOf relation operation parameter.sourceId).isEmpty)
      (invalidArgument "compiled package query field lacks exact conditional scalar provenance")
    let _ ← forEach validateCanonicalEncoding
      (conditionals.flatMap fun parameter => mappingsOf relation operation parameter.sourceId)
    pure ()

-- ---------------------------------------------------------------------------
-- What acceptance promises
-- ---------------------------------------------------------------------------

/-- Two mappings of one operation feed one input with different values. -/
def Distinguished (left right : CompiledPredicateMapping) : Prop :=
  left.operationName = right.operationName →
    left.remoteInputName = right.remoteInputName ∧
      left.encodedRemoteValue ≠ right.encodedRemoteValue

instance : Std.Symm Distinguished where
  symm left right h hname := by
    obtain ⟨hremote, hvalue⟩ := h hname.symm
    exact ⟨hremote.symm, hvalue.symm⟩

/-- A complete mapping. -/
structure CompleteMapping (mapping : CompiledPredicateMapping) : Prop where
  remoteInput : mapping.remoteInputName ≠ []
  literal : mapping.typedLiteral.isNull = false
  proof : mapping.proofIdentityValue ≠ []
  domain : mapping.baseDomainValue ≠ []
  matching : mapping.matchingFixture ≠ []
  falseOrNull : mapping.falseOrNullFixture ≠ []
  duplicates : mapping.duplicatesFixture ≠ []
  occurrences : mapping.occurrencePreservation = occurrencesOf mapping.accuracy

/-- What an accepted relation is. -/
structure ValidRelation (relation : CompiledRelation) : Prop where
  columns : (relation.columns.map (·.name)).Nodup
  operations : (relation.operations.map (·.name)).Nodup
  fallback : (relation.operations.filter (·.fallback)).length ≤ 1
  mapping : ∀ mapping ∈ relation.predicateMappings, CompleteMapping mapping
  distinguished : relation.predicateMappings.Pairwise Distinguished
  binding : ∀ mapping ∈ relation.predicateMappings,
    validateMappingBinding relation.operations mapping = .ok ()
  selector : ∀ operation ∈ relation.operations,
    operation.fallback = operation.selector.isEmpty

theorem isModelIdentifier_ne_nil {value : Bytes} (h : isModelIdentifier value = true) :
    value ≠ [] := by
  rintro rfl
  simp [isModelIdentifier] at h

theorem CompiledPredicateMapping.check_eq_ok {mapping : CompiledPredicateMapping}
    (h : mapping.check = .ok ()) : CompleteMapping mapping := by
  simp only [CompiledPredicateMapping.check, bind_eq_ok, throwIf_eq_ok, Bool.or_eq_false_iff,
    Bool.not_eq_false', bne_eq_false_iff_eq, List.isEmpty_eq_false_iff] at h
  obtain ⟨-, ⟨⟨⟨⟨⟨⟨⟨⟨⟨⟨-, -⟩, -⟩, hremote⟩, hmatching⟩, hfalse⟩, hduplicates⟩, -⟩, hproof⟩, hdomain⟩,
    hliteral⟩, hoccurrences⟩ := h
  exact {
    remoteInput := isModelIdentifier_ne_nil hremote
    literal := hliteral
    proof := hproof
    domain := hdomain
    matching := isModelIdentifier_ne_nil hmatching
    falseOrNull := isModelIdentifier_ne_nil hfalse
    duplicates := isModelIdentifier_ne_nil hduplicates
    occurrences := hoccurrences }

theorem validateMappingPair_eq_ok {left right : CompiledPredicateMapping} {u : Unit}
    (h : validateMappingPair left right = .ok u) : Distinguished left right := by
  simp only [validateMappingPair, bind_eq_ok, throwIf_eq_ok] at h
  obtain ⟨-, hremote, hvalue⟩ := h
  intro hname
  simp only [hname, beq_self_eq_true, Bool.true_and, bne_eq_false_iff_eq, Bool.not_eq_false',
    Bool.and_eq_true, bne_iff_ne] at hremote hvalue
  exact ⟨hremote, hvalue.2⟩

theorem validatePredicateMappings_eq_ok {columns : List CompiledColumn}
    {operations : List CompiledOperation} {mappings : List CompiledPredicateMapping} {u : Unit}
    (h : validatePredicateMappings columns operations mappings = .ok u) :
    mappings.Pairwise Distinguished ∧
      ∀ mapping ∈ mappings, validateMappingBinding operations mapping = .ok () := by
  induction mappings with
  | nil => exact ⟨List.Pairwise.nil, fun mapping hmem => nomatch hmem⟩
  | cons mapping rest ih =>
    rw [validatePredicateMappings] at h
    obtain ⟨_, -, h⟩ := bind_eq_ok.mp h
    obtain ⟨_, hbinding, h⟩ := bind_eq_ok.mp h
    obtain ⟨_, hpairs, h⟩ := bind_eq_ok.mp h
    obtain ⟨_, -, h⟩ := bind_eq_ok.mp h
    obtain ⟨hdistinguished, hbindings⟩ := ih h
    refine ⟨List.Pairwise.cons (fun other hother => ?_) hdistinguished, ?_⟩
    · obtain ⟨_, -, hpair⟩ := forEach_of_mem hpairs hother
      exact validateMappingPair_eq_ok hpair
    · exact List.forall_mem_cons.mpr ⟨hbinding, hbindings⟩

theorem validateRelation_eq_ok {relation : CompiledRelation}
    (h : validateRelation relation = .ok ()) : ValidRelation relation := by
  obtain ⟨_, hmappings, h⟩ := bind_eq_ok.mp h
  obtain ⟨_, hcolumns, h⟩ := bind_eq_ok.mp h
  obtain ⟨_, hoperations, h⟩ := bind_eq_ok.mp h
  obtain ⟨_, hfallback, h⟩ := bind_eq_ok.mp h
  obtain ⟨_, hpredicates, h⟩ := bind_eq_ok.mp h
  obtain ⟨_, hselectors, -⟩ := bind_eq_ok.mp h
  simp only [throwIf_eq_ok, Bool.not_eq_false', decide_eq_true_eq, decide_eq_false_iff_not,
    Nat.not_lt] at hcolumns hoperations hfallback
  obtain ⟨hdistinguished, hbindings⟩ := validatePredicateMappings_eq_ok hpredicates
  refine ⟨hcolumns, hoperations, hfallback, fun mapping hmem => ?_, hdistinguished, hbindings,
    fun operation hmem => ?_⟩
  · obtain ⟨_, -, hcheck⟩ := forEach_of_mem hmappings hmem
    exact CompiledPredicateMapping.check_eq_ok hcheck
  · obtain ⟨_, -, hselector⟩ := forEach_of_mem hselectors hmem
    simp only [validateOperationSelectorReferences, bind_eq_ok, throwIf_eq_ok,
      Bool.or_eq_false_iff, bne_eq_false_iff_eq] at hselector
    obtain ⟨-, ⟨-, hshape⟩, -⟩ := hselector
    exact hshape

/-- Mappings of one operation that declare one value are one mapping. -/
theorem ValidRelation.mapping_eq {relation : CompiledRelation} (hvalid : ValidRelation relation)
    {left right : CompiledPredicateMapping} (hleft : left ∈ relation.predicateMappings)
    (hright : right ∈ relation.predicateMappings) (hname : left.operationName = right.operationName)
    (hvalue : left.encodedRemoteValue = right.encodedRemoteValue) : left = right := by
  by_contra hne
  have hpair := hvalid.distinguished.forall hleft hright hne
  exact (hpair hname).2 hvalue

/-- Mappings of one operation feed one input. -/
theorem ValidRelation.remoteInputName_eq {relation : CompiledRelation}
    (hvalid : ValidRelation relation) {left right : CompiledPredicateMapping}
    (hleft : left ∈ relation.predicateMappings) (hright : right ∈ relation.predicateMappings)
    (hname : left.operationName = right.operationName) :
    left.remoteInputName = right.remoteInputName := by
  by_cases hsame : left = right
  · rw [hsame]
  · have hpair := hvalid.distinguished.forall hleft hright hsame
    exact (hpair hname).1

end Cuac.Connector

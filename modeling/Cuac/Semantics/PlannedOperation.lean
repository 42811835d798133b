import Cuac.Lib.Utf8
import Cuac.Connector.Catalog
import Cuac.Connector.Timestamptz

/-!
# Planned operations

The protocol part of a plan. A planned path segment and a planned query binding
hold a typed value and the bytes that will stand for it on the wire; their
constructors recompute the bytes from the value, so a binding whose bytes are
not its value's cannot be built.

Main results:

* `PlannedRestQueryBinding.value_ok` and `encodedValue_eq` — what the constructor
  of a query binding lets through.
* `PlannedRestPathSegment.cases` — a planned segment is a literal or an encoded
  input.
-/

namespace Cuac.Semantics

open Cuac.Lib Cuac.Connector

-- ---------------------------------------------------------------------------
-- Texts and bytes
-- ---------------------------------------------------------------------------

/-- The legal lead bytes, listed. -/
def leadByRange (first : UInt8) : Option Utf8.Lead :=
  if 0xC2 ≤ first && first ≤ 0xDF then some ⟨1, (first &&& 0x1F).toNat, 0x80⟩
  else if 0xE0 ≤ first && first ≤ 0xEF then some ⟨2, (first &&& 0x0F).toNat, 0x800⟩
  else if 0xF0 ≤ first && first ≤ 0xF4 then some ⟨3, (first &&& 0x07).toNat, 0x10000⟩
  else none

/-- The validating loop of `ValidateVarchar` and of `ValidatePathValue`; the two
differ in what they call the text. -/
def validateControlFree (subject : String) : Bytes → Except Fault Unit :=
  Utf8.scan leadByRange
    (fun
      | .malformed => invalidArgument (subject ++ " is not canonical UTF-8")
      | .truncated => invalidArgument (subject ++ " is truncated UTF-8"))
    fun codePoint => throwIf (Utf8.isControl codePoint)
      (invalidArgument (subject ++ " contains a Unicode control code point"))

def validateVarchar : Bytes → Except Fault Unit :=
  validateControlFree "planned REST VARCHAR payload"

/-- Control-free UTF-8 text. -/
def ControlFree (value : Bytes) : Prop :=
  ∃ codes, Utf8.Decodes leadByRange value codes ∧ ∀ c ∈ codes, Utf8.isControl c = false

theorem validateControlFree_eq_ok {subject : String} {value : Bytes} {u : Unit} :
    validateControlFree subject value = .ok u ↔ ControlFree value := by
  unfold validateControlFree ControlFree
  rw [Utf8.scan_eq_ok]
  simp only [throwIf_eq_ok]

def formUrlEncode : Bytes → Bytes := formEscape.encode

def percentEncodePathSegment : Bytes → Bytes := pathEscape.encode

def encodeCanonicalDouble [CLibrary] : Double → Except Fault Bytes :=
  encodeCanonicalDoubleWith "planned REST query DOUBLE could not be canonically encoded"

/-- Semantics' copy. -/
def canonicalTimestamptz : Int64 → Except Fault Bytes :=
  canonicalTimestamptzWith "semantic TIMESTAMPTZ is outside the CUAC profile"
    "semantic TIMESTAMPTZ canonical formatting failed"

/-- The wire text of a query value, as `Encode` and the query binding's
constructor compute it. A number's text is not form-encoded. -/
def encode [CLibrary] : Scalar → Except Fault Bytes
  | .boolean value => pure (booleanText value)
  | .bigint value => pure (signed value.toInt)
  | .varchar value => pure (formUrlEncode value)
  | .double value => encodeCanonicalDouble value
  | .timestamptz value => do pure (formUrlEncode (← canonicalTimestamptz value))

/-- The text of a value before any encoding, as `CanonicalPathValue` has it. -/
def canonicalText [CLibrary] (nonFinite : String) : Scalar → Except Fault Bytes
  | .boolean value => pure (booleanText value)
  | .bigint value => pure (signed value.toInt)
  | .varchar value => pure value
  | .double value => do
    throwIf (!value.isFinite) (invalidArgument nonFinite)
    encodeCanonicalDouble value
  | .timestamptz value => canonicalTimestamptz value

def isLower (b : UInt8) : Bool :=
  byte 'a' ≤ b && b ≤ byte 'z'

def isIdentifier (value : Bytes) : Bool :=
  !value.isEmpty && value.length ≤ 63 && value.head?.any isLower &&
    value.all fun b => isLower b || isDigit b || b == byte '_'

def dot : Bytes := ascii "."
def dotDot : Bytes := ascii ".."

def isLiteralPathSegment (value : Bytes) : Bool :=
  !value.isEmpty && value.length ≤ 255 && value != dot && value != dotDot && value.all isUnreserved

/-- The bytes of `/\?#%`. -/
def isPathSyntax (b : UInt8) : Bool :=
  b == byte '/' || b == byte '\\' || b == byte '?' || b == byte '#' || b == byte '%'

def validatePathSegmentValue (value : Bytes) : Except Fault Unit := do
  throwIf (value.isEmpty || 1024 < value.length || value == dot || value == dotDot)
    (invalidArgument "planned REST path input is empty, oversized, or a dot segment")
  validateVarchar value
  throwIf (value.any isPathSyntax)
    (invalidArgument "planned REST path input contains structural or escape syntax")

/-- What a text must be to stand in a path segment. -/
structure PathText (value : Bytes) : Prop where
  nonempty : value ≠ []
  size : value.length ≤ 1024
  not_dot : value ≠ dot
  not_dotDot : value ≠ dotDot
  plain : ∀ b ∈ value, isPathSyntax b = false
  controlFree : ControlFree value

theorem validatePathSegmentValue_eq_ok {value : Bytes} {u : Unit} :
    validatePathSegmentValue value = .ok u ↔ PathText value := by
  unfold validatePathSegmentValue validateVarchar
  simp only [bind_eq_ok, throwIf_eq_ok, validateControlFree_eq_ok, exists_const,
    Bool.or_eq_false_iff, List.isEmpty_eq_false_iff, decide_eq_false_iff_not, Nat.not_lt,
    beq_eq_false_iff_ne, List.any_eq_false]
  constructor
  · rintro ⟨⟨⟨⟨hne, hsize⟩, hdot⟩, hdotDot⟩, hfree, hplain⟩
    exact ⟨hne, hsize, hdot, hdotDot, fun b hb => by simpa using hplain b hb, hfree⟩
  · rintro ⟨hne, hsize, hdot, hdotDot, hplain, hfree⟩
    exact ⟨⟨⟨⟨hne, hsize⟩, hdot⟩, hdotDot⟩, hfree, fun b hb => by simp [hplain b hb]⟩

/-- Of a planned segment's value. -/
def canonicalPathValue [CLibrary] (value : Scalar) : Except Fault Bytes := do
  let text ← canonicalText "planned REST path DOUBLE must be finite" value
  validatePathSegmentValue text
  pure text

-- ---------------------------------------------------------------------------
-- Path segments
-- ---------------------------------------------------------------------------

inductive PathSegmentSource
  | literal
  | relationInput
  deriving DecidableEq, Repr

inductive PathSegmentEncoding
  | literal
  | rfc3986PercentEncoded
  deriving DecidableEq, Repr

structure PathContractFields where
  source : PathSegmentSource
  sourceId : Bytes
  kind : ScalarKind
  encoding : PathSegmentEncoding
  literal : Bytes

def PathContractFields.check (f : PathContractFields) : Except Fault Unit :=
  match f.source with
  | .literal =>
    throwIf (!f.sourceId.isEmpty || f.kind != .varchar || f.encoding != .literal ||
        !isLiteralPathSegment f.literal)
      (invalidArgument "planned REST literal path contract is contradictory")
  | .relationInput =>
    throwIf (!isIdentifier f.sourceId || !f.literal.isEmpty ||
        f.encoding != .rfc3986PercentEncoded)
      (invalidArgument "planned REST input path contract has invalid provenance or encoding")

/-- The declaration of one planned segment. -/
abbrev PlannedRestPathContractSegment := Checked PathContractFields.check

structure PathSegmentFields where
  source : PathSegmentSource
  sourceId : Bytes
  value : Scalar
  encoding : PathSegmentEncoding
  encodedValue : Bytes

def isTimestamptzInRange : Scalar → Bool
  | .timestamptz microseconds => isTimestamptzMicroseconds microseconds
  | _ => true

def PathSegmentFields.check [CLibrary] (f : PathSegmentFields) : Except Fault Unit := do
  throwIf (!isTimestamptzInRange f.value)
    (invalidArgument "TIMESTAMPTZ REST path binding carries an invalid payload")
  match f.source with
  | .literal =>
    throwIf (!f.sourceId.isEmpty || f.value != .varchar f.encodedValue ||
        f.encoding != .literal || !isLiteralPathSegment f.encodedValue)
      (invalidArgument "planned REST literal path segment is contradictory")
  | .relationInput =>
    throwIf (!isIdentifier f.sourceId || f.encoding != .rfc3986PercentEncoded)
      (invalidArgument "planned REST input path segment has invalid provenance or encoding")
    let decoded ← canonicalPathValue f.value
    throwIf (f.encodedValue != percentEncodePathSegment decoded)
      (invalidArgument "planned REST path binding bytes do not match its decoded typed payload")

/-- One planned segment: its typed value and its bytes in the path. -/
abbrev PlannedRestPathSegment [CLibrary] := Checked PathSegmentFields.check

-- ---------------------------------------------------------------------------
-- Query bindings
-- ---------------------------------------------------------------------------

structure QueryBindingFields where
  name : Bytes
  source : QueryValueSource
  sourceId : Bytes
  value : Scalar
  encodedValue : Bytes

def QueryValueSource.isDynamic : QueryValueSource → Bool
  | .relationInput => true
  | .conditionalInput => true
  | _ => false

/-- The checks on a query binding's value. -/
def validateQueryValue : Scalar → Except Fault Unit
  | .varchar value => validateVarchar value
  | .timestamptz microseconds =>
    throwIf (!isTimestamptzMicroseconds microseconds)
      (invalidArgument "TIMESTAMPTZ REST query binding carries an invalid payload")
  | _ => pure ()

/-- The checks on its source. -/
def validateQuerySource (source : QueryValueSource) (sourceId : Bytes) : Except Fault Unit :=
  if QueryValueSource.isDynamic source then
    throwIf sourceId.isEmpty
      (invalidArgument "dynamic REST query bindings require their exact declared source id")
  else
    throwIf (!sourceId.isEmpty)
      (invalidArgument "fixed and pagination REST query bindings must not carry a source id")

def QueryBindingFields.check [CLibrary] (f : QueryBindingFields) : Except Fault Unit := do
  throwIf f.name.isEmpty
    (invalidArgument "planned REST query binding name must not be empty")
  validateQuerySource f.source f.sourceId
  validateQueryValue f.value
  let expected ← encode f.value
  throwIf (f.encodedValue != expected)
    (invalidArgument "planned REST query binding bytes do not match its decoded typed payload")

/-- One planned query field: its typed value and its wire text. -/
abbrev PlannedRestQueryBinding [CLibrary] := Checked QueryBindingFields.check

-- ---------------------------------------------------------------------------
-- Operations
-- ---------------------------------------------------------------------------

structure PlannedRestResultColumn where
  name : Bytes
  scalarKind : ScalarKind
  nullable : Bool
  responsePath : List Bytes
  shape : ColumnShape
  elementNullable : Bool

structure PlannedRestOperation [CLibrary] where
  name : Bytes
  cardinality : OperationCardinality
  origin : HttpOrigin
  path : Bytes
  pathContract : List PlannedRestPathContractSegment
  pathBindings : List PlannedRestPathSegment
  queryBindings : List PlannedRestQueryBinding
  headers : List HttpHeader
  responseSource : ResponseSource
  recordsExtractor : Bytes
  resultColumns : List PlannedRestResultColumn
  recordsPath : List Bytes

/-- A GraphQL operation, as far as the plan's identity and its pagination read it. -/
structure PlannedGraphqlOperation where
  name : Bytes
  cardinality : OperationCardinality
  document : Bytes
  documentDigest : Bytes
  origin : HttpOrigin
  path : Bytes
  cursor : GraphqlCursorPagination

inductive PlannedProtocolOperation [CLibrary]
  | rest (operation : PlannedRestOperation)
  | graphql (operation : PlannedGraphqlOperation)

-- ---------------------------------------------------------------------------
-- What the constructors let through
-- ---------------------------------------------------------------------------

section Constructed

variable [CLibrary]

/-- A planned segment is a literal, or an input under its percent encoding. -/
theorem PlannedRestPathSegment.cases (segment : PlannedRestPathSegment) :
    (segment.fields.source = .literal ∧ segment.fields.sourceId = [] ∧
        segment.fields.encoding = .literal ∧
        segment.fields.value = .varchar segment.fields.encodedValue ∧
        isLiteralPathSegment segment.fields.encodedValue = true) ∨
      (segment.fields.source = .relationInput ∧ isIdentifier segment.fields.sourceId = true ∧
        segment.fields.encoding = .rfc3986PercentEncoded ∧
        ∃ text, canonicalText "planned REST path DOUBLE must be finite" segment.fields.value =
            .ok text ∧ PathText text ∧
          segment.fields.encodedValue = percentEncodePathSegment text) := by
  obtain ⟨⟨source, sourceId, value, encoding, encodedValue⟩, h⟩ := segment
  simp only [PathSegmentFields.check, bind_eq_ok, throwIf_eq_ok] at h
  obtain ⟨-, -, h⟩ := h
  cases source with
  | literal =>
    simp only [throwIf_eq_ok, Bool.or_eq_false_iff, Bool.not_eq_false', List.isEmpty_iff,
      bne_eq_false_iff_eq] at h
    obtain ⟨⟨⟨hid, hvalue⟩, hencoding⟩, hliteral⟩ := h
    exact Or.inl ⟨rfl, hid, hencoding, hvalue, hliteral⟩
  | relationInput =>
    simp only [canonicalPathValue, bind_eq_ok, throwIf_eq_ok, pure_eq_ok, Bool.or_eq_false_iff,
      Bool.not_eq_false', bne_eq_false_iff_eq, validatePathSegmentValue_eq_ok] at h
    obtain ⟨-, ⟨hid, hencoding⟩, text, ⟨_, htext, -, hpath, rfl⟩, hencoded⟩ := h
    exact Or.inr ⟨rfl, hid, hencoding, _, htext, hpath, hencoded⟩

theorem PlannedRestQueryBinding.value_ok (binding : PlannedRestQueryBinding) :
    validateQueryValue binding.fields.value = .ok () := by
  have h := binding.checked
  simp only [QueryBindingFields.check, bind_eq_ok] at h
  obtain ⟨_, -, _, -, _, hvalue, -⟩ := h
  exact hvalue

theorem PlannedRestQueryBinding.encodedValue_eq (binding : PlannedRestQueryBinding) :
    encode binding.fields.value = .ok binding.fields.encodedValue := by
  have h := binding.checked
  simp only [QueryBindingFields.check, bind_eq_ok, throwIf_eq_ok, bne_eq_false_iff_eq] at h
  obtain ⟨_, -, _, -, _, -, expected, hencode, rfl⟩ := h
  exact hencode

end Constructed

end Cuac.Semantics

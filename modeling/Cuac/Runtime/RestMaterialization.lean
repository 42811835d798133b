import Cuac.Runtime.RequestValidation

/-!
# Materializing a REST request

Runtime copies a planned path and a planned query into its own request, and
recomputes every byte from the typed values on the way. A function here returns
`none` where the source returns `false`, and throws where the source throws.

The capacity checks on freshly reserved strings depend on the allocator and are
left out.

Main results:

* `isControlFreeUtf8_of_controlFree` — Runtime's third decoder accepts the
  planner's texts.
* `copySegments_planned` — the copying loop reproduces a planned path.
-/

namespace Cuac.Runtime

open Cuac.Lib Cuac.Connector Cuac.Semantics

-- ---------------------------------------------------------------------------
-- Texts
-- ---------------------------------------------------------------------------

/-- Runtime's copy. -/
def encodeCanonicalDouble [CLibrary] : Double → Except Fault Bytes :=
  encodeCanonicalDoubleWith "REST query DOUBLE could not be canonically encoded"

/-- Runtime's copy. -/
def canonicalTimestamptz : Int64 → Except Fault Bytes :=
  canonicalTimestamptzWith "Runtime TIMESTAMPTZ is outside the CUAC profile"
    "Runtime TIMESTAMPTZ canonical formatting failed"

/-- How many continuation bytes follow a lead byte of valid text, and its payload. -/
def leadOfValid (first : UInt8) : Nat × Nat :=
  if 0xC2 ≤ first && first ≤ 0xDF then (1, (first &&& 0x1F).toNat)
  else if 0xE0 ≤ first && first ≤ 0xEF then (2, (first &&& 0x0F).toNat)
  else if 0xF0 ≤ first then (3, (first &&& 0x07).toNat)
  else (0, first.toNat)

/-- The second loop of `IsControlFreeUtf8`; `turns` is the size of the text. -/
def isControlFreeFrom : Nat → Bytes → Bool
  | _, [] => true
  | 0, _ :: _ => false
  | turns + 1, first :: rest =>
    let codePoint := (rest.take (leadOfValid first).1).foldl Utf8.push (leadOfValid first).2
    !Utf8.isControl codePoint && isControlFreeFrom turns (rest.drop (leadOfValid first).1)

def isControlFreeUtf8 (value : Bytes) : Bool :=
  isValidUtf8 value && isControlFreeFrom value.length value

def isSafeRawPathValue (value : Bytes) : Bool :=
  !value.isEmpty && value.length ≤ 1024 && value != dot && value != dotDot &&
    !value.any isPathSyntax && isControlFreeUtf8 value

variable [CLibrary]

/-- The text of a path value, before its check. -/
def pathText : Scalar → Except Fault (Option Bytes)
  | .boolean value => pure (some (booleanText value))
  | .bigint value => pure (some (signed value.toInt))
  | .varchar value => pure (some value)
  | .double value =>
    if !value.isFinite then pure none
    else do
      let text ← encodeCanonicalDouble value
      pure (some text)
  | .timestamptz value =>
    if !isTimestamptzMicroseconds value then pure none
    else do
      let text ← canonicalTimestamptz value
      pure (some text)

def tryCanonicalPathValue (value : Scalar) : Except Fault (Option Bytes) := do
  let text ← pathText value
  pure (text.filter isSafeRawPathValue)

-- ---------------------------------------------------------------------------
-- The path
-- ---------------------------------------------------------------------------

/-- The checks on one segment; `ids` are the inputs seen so far. -/
def checkSegment (ids : List Bytes) (contract : PathContractFields) (binding : PathSegmentFields) :
    Except Fault Bool :=
  match binding.source with
  | .literal =>
    pure (binding.sourceId.isEmpty && binding.encoding == .literal &&
      binding.value == .varchar binding.encodedValue && isLiteralPathSegment binding.encodedValue &&
      contract.literal == binding.encodedValue)
  | .relationInput => do
    if !isSafeLogicalId binding.sourceId || ids.contains binding.sourceId ||
        !contract.literal.isEmpty || binding.encoding != .rfc3986PercentEncoded then
      pure false
    else
      let decoded ← tryCanonicalPathValue binding.value
      pure (decoded.any fun text => binding.encodedValue == percentEncodePathSegment text)

/-- The inputs seen after a segment. -/
def seenIds (ids : List Bytes) (binding : PathSegmentFields) : List Bytes :=
  match binding.source with
  | .literal => ids
  | .relationInput => binding.sourceId :: ids

/-- The loop of `TryCopyPermanentPath`. -/
def copySegments (ids : List Bytes) (path : Bytes) :
    List PlannedRestPathContractSegment → List PlannedRestPathSegment →
      Except Fault (Option Bytes)
  | contract :: contracts, binding :: bindings =>
    if contract.fields.source != binding.fields.source ||
        contract.fields.sourceId != binding.fields.sourceId ||
        contract.fields.kind != binding.fields.value.kind ||
        contract.fields.encoding != binding.fields.encoding then
      pure none
    else do
      let path := path ++ [byte '/']
      let good ← checkSegment ids contract.fields binding.fields
      if !good || 2048 < path.length || binding.fields.encodedValue.isEmpty ||
          2048 - path.length < binding.fields.encodedValue.length then
        pure none
      else
        copySegments (seenIds ids binding.fields) (path ++ binding.fields.encodedValue) contracts
          bindings
  | _, _ => pure (some path)

def tryCopyPermanentPath (operation : PlannedRestOperation) : Except Fault (Option Bytes) := do
  if 64 < operation.pathBindings.length ||
      operation.pathContract.length != operation.pathBindings.length then
    pure none
  else
    let copied ← copySegments [] [] operation.pathContract operation.pathBindings
    pure (do
      let path ← copied
      let path := if path.isEmpty then ascii "/" else path
      if path.length ≤ 2048 && path == operation.path && isSafeRequestPath path then some path
      else none)

-- ---------------------------------------------------------------------------
-- The query
-- ---------------------------------------------------------------------------

structure RestConditionalBindingAuthority where
  enabled : Bool
  sourceId : Bytes
  value : Scalar

/-- The default: none. -/
def RestConditionalBindingAuthority.none : RestConditionalBindingAuthority :=
  ⟨false, [], .varchar []⟩

def matchesConditionalAuthority (binding : QueryBindingFields)
    (authority : RestConditionalBindingAuthority) : Bool :=
  authority.enabled && binding.sourceId == authority.sourceId && binding.value.same authority.value

/-- The text that Runtime recomputes for a query value; none out of the profile. -/
def queryText : Scalar → Except Fault (Option Bytes)
  | .boolean value => pure (some (booleanText value))
  | .bigint value => pure (some (signed value.toInt))
  | .varchar value => pure (some (formUrlEncode value))
  | .double value => do
    let text ← encodeCanonicalDouble value
    pure (some text)
  | .timestamptz value =>
    if !isTimestamptzMicroseconds value then pure none
    else do
      let text ← canonicalTimestamptz value
      pure (some (formUrlEncode text))

/-- The checks on a binding's source, and `conditional_seen` after them. -/
def checkQuerySource (binding : QueryBindingFields) (conditional : RestConditionalBindingAuthority)
    (conditionalSeen : Bool) : Option Bool :=
  match binding.source with
  | .fixed | .pageSize | .pageNumber =>
    if binding.sourceId.isEmpty then some conditionalSeen else .none
  | .relationInput => if binding.sourceId.isEmpty then .none else some conditionalSeen
  | .conditionalInput =>
    if conditionalSeen || !matchesConditionalAuthority binding conditional then .none
    else some true

/-- Returns `conditional_seen` where the binding is canonical. -/
def hasCanonicalBinding (binding : QueryBindingFields)
    (conditional : RestConditionalBindingAuthority) (conditionalSeen : Bool) :
    Except Fault (Option Bool) :=
  if !isSafeEncodedQueryName binding.name || !isSafeEncodedQueryValue binding.encodedValue then
    pure .none
  else
    match checkQuerySource binding conditional conditionalSeen with
    | .none => pure .none
    | some seen => do
      let text ← queryText binding.value
      pure (if text == some binding.encodedValue then some seen else .none)

structure AdmittedQueryParameter where
  name : Bytes
  encodedValue : Bytes
  deriving DecidableEq

/-- The locals of the query loop. -/
structure QueryCopy where
  query : List AdmittedQueryParameter
  queryBytes : Nat
  conditionalSeen : Bool

/-- One turn of the query loop. -/
def copyBinding (conditional : RestConditionalBindingAuthority) (s : QueryCopy)
    (binding : QueryBindingFields) : Except Fault (Option QueryCopy) := do
  match ← hasCanonicalBinding binding conditional s.conditionalSeen with
  | .none => pure .none
  | some seen =>
    let fieldBytes := 1 + binding.name.length + 1 + binding.encodedValue.length
    pure
      (if (s.query.map (·.name)).contains binding.name || 8192 - s.queryBytes < fieldBytes then .none
      else some ⟨s.query ++ [⟨binding.name, binding.encodedValue⟩], s.queryBytes + fieldBytes, seen⟩)

def copyBindings (conditional : RestConditionalBindingAuthority) (s : QueryCopy) :
    List PlannedRestQueryBinding → Except Fault (Option QueryCopy)
  | [] => pure (some s)
  | binding :: rest => do
    match ← copyBinding conditional s binding.fields with
    | .none => pure .none
    | some s => copyBindings conditional s rest

def tryCopyPermanentQuery (planned : List PlannedRestQueryBinding)
    (conditional : RestConditionalBindingAuthority) :
    Except Fault (Option (List AdmittedQueryParameter)) :=
  if 64 < planned.length then pure .none
  else do
    match ← copyBindings conditional ⟨[], 0, false⟩ planned with
    | .none => pure .none
    | some s => pure (if s.conditionalSeen == conditional.enabled then some s.query else .none)

-- ---------------------------------------------------------------------------
-- The planner's path values
-- ---------------------------------------------------------------------------

section Path

omit [CLibrary] in
/-- Runtime's second loop reads the code points that the planner decoded. -/
theorem isControlFreeFrom_of_decodes {value : Bytes} {codes : List Nat}
    (h : Utf8.Decodes leadByRange value codes) (hcodes : ∀ c ∈ codes, Utf8.isControl c = false)
    {turns : Nat} (hturns : value.length ≤ turns) : isControlFreeFrom turns value = true := by
  induction h generalizing turns with
  | nil => cases turns <;> rfl
  | @cons bytes rest codePoint codes hone _ ih =>
    obtain ⟨first, conts, rfl, -, hshape⟩ := Utf8.decodeOne_split hone
    have hlead : (leadOfValid first).1 = conts.length ∧
        codePoint = conts.foldl Utf8.push (leadOfValid first).2 := by
      rcases hshape with ⟨hlow, rfl, rfl⟩ | ⟨hhigh, lead, hlead, hlength, hcode, -⟩
      · have hascii : ∀ b : UInt8, b ≤ 0x7F → leadOfValid b = (0, b.toNat) :=
          forall_byte (by decide)
        rw [hascii first hlow]
        exact ⟨rfl, rfl⟩
      · have hsame : ∀ b : UInt8, ∀ l, leadByRange b = some l →
            leadOfValid b = (l.continuations, l.payload) := by
          intro b l hl
          have hbyte : ∀ b : UInt8, (leadByRange b).all
              (fun l => leadOfValid b == (l.continuations, l.payload)) = true :=
            forall_byte (by decide)
          have hb := hbyte b
          rw [hl] at hb
          simpa using hb
        rw [hsame first lead hlead]
        exact ⟨hlength.symm, hcode⟩
    cases turns with
    | zero => simp at hturns
    | succ turns =>
      rw [List.length_cons, List.length_append] at hturns
      rw [isControlFreeFrom, hlead.1, List.take_left, List.drop_left, ← hlead.2,
        hcodes codePoint List.mem_cons_self,
        ih (fun c hc => hcodes c (List.mem_cons_of_mem _ hc)) (by omega)]
      rfl

omit [CLibrary] in
theorem isControlFreeUtf8_of_controlFree {value : Bytes} (h : ControlFree value) :
    isControlFreeUtf8 value = true := by
  obtain ⟨codes, hdecodes, hcodes⟩ := h
  rw [isControlFreeUtf8, isValidUtf8_of_decodes hdecodes,
    isControlFreeFrom_of_decodes hdecodes hcodes (Nat.le_refl _)]
  rfl

omit [CLibrary] in
theorem isSafeRawPathValue_of_pathText {text : Bytes} (h : PathText text) :
    isSafeRawPathValue text = true := by
  have hplain : text.any isPathSyntax = false := by
    rw [List.any_eq_false]
    intro b hb
    simp [h.plain b hb]
  simp [isSafeRawPathValue, h.nonempty, h.size, h.not_dot, h.not_dotDot, hplain,
    isControlFreeUtf8_of_controlFree h.controlFree]

/-- Runtime's text of a path value is the planner's. -/
theorem tryCanonicalPathValue_of_canonicalText {nonFinite : String} {value : Scalar}
    {text : Bytes} (h : canonicalText nonFinite value = .ok text) (htext : PathText text) :
    tryCanonicalPathValue value = .ok (some text) := by
  have hsame : pathText value = .ok (some text) := by
    cases value with
    | double value =>
      obtain ⟨_, hfinite, h⟩ := bind_eq_ok.mp h
      obtain ⟨_, hlength, h⟩ := bind_eq_ok.mp h
      obtain rfl := pure_eq_ok.mp h
      simp only [throwIf_eq_ok, Bool.not_eq_false'] at hfinite
      rw [pathText, hfinite]
      refine bind_eq_ok.mpr ⟨CLibrary.g17 value, ?_, rfl⟩
      exact bind_eq_ok.mpr ⟨(), throwIf_eq_ok.mpr (throwIf_eq_ok.mp hlength), rfl⟩
    | timestamptz value =>
      obtain ⟨hrange, rfl⟩ := canonicalTimestamptz_eq_ok.mp h
      rw [pathText, hrange]
      exact bind_eq_ok.mpr ⟨_, canonicalTimestamptz_eq_ok.mpr ⟨hrange, rfl⟩, rfl⟩
    | _ =>
      obtain rfl := pure_eq_ok.mp h
      rfl
  refine bind_eq_ok.mpr ⟨_, hsame, ?_⟩
  rw [pure_eq_ok, Option.filter_some, isSafeRawPathValue_of_pathText htext]
  rfl

omit [CLibrary] in
theorem isSafeLogicalId_of_isIdentifier {id : Bytes} (h : isIdentifier id = true) :
    isSafeLogicalId id = true := by
  cases id with
  | nil => cases h
  | cons first rest =>
    simp only [isIdentifier, Bool.and_eq_true, List.all_cons] at h
    simp only [isSafeLogicalId, List.tail_cons, Bool.and_eq_true]
    exact ⟨h.1, h.2.2⟩

omit [CLibrary] in
theorem pathInput_kind {inputs : ResolvedRelationInputs} {id : Bytes} {type : ScalarKind}
    {value : Scalar} (h : pathInput inputs id type = some value) : value.kind = type := by
  simp only [pathInput, Option.bind_eq_bind, Option.bind_eq_some_iff] at h
  obtain ⟨input, -, bound, hbound, h⟩ := h
  split at h
  · rename_i htype
    obtain rfl := Option.some.inj h
    rw [input.typed bound hbound]
    simpa using htype
  · cases h

/-- The inputs of a declared path. -/
def pathInputId? : CompiledRestPathSegment → Option Bytes
  | .literal _ => none
  | .relationInput id _ => some id

/-- Runtime copies one planned segment. -/
theorem checkSegment_planned {inputs : ResolvedRelationInputs} {ids : List Bytes}
    {segment : CompiledRestPathSegment}
    {planned : PlannedRestPathContractSegment × PlannedRestPathSegment × Bytes}
    (h : planPathSegment inputs segment = .ok planned)
    (hnew : ∀ id ∈ pathInputId? segment, id ∉ ids) :
    planned.1.fields.source = planned.2.1.fields.source ∧
      planned.1.fields.sourceId = planned.2.1.fields.sourceId ∧
      planned.1.fields.kind = planned.2.1.fields.value.kind ∧
      planned.1.fields.encoding = planned.2.1.fields.encoding ∧
      planned.2.1.fields.encodedValue = planned.2.2 ∧ planned.2.2 ≠ [] ∧
      seenIds ids planned.2.1.fields = (pathInputId? segment).toList ++ ids ∧
      checkSegment ids planned.1.fields planned.2.1.fields = .ok true := by
  rcases planPathSegment_eq_ok h with ⟨value, rfl, hcontract, hbinding, hbytes⟩ |
    ⟨id, type, value, text, rfl, hinput, htext, hpath, hcontract, hbinding, hbytes⟩
  · rcases planned.2.1.cases with ⟨-, -, -, -, hliteral⟩ | ⟨hsource, -⟩
    · rw [hbinding] at hliteral
      rw [hcontract, hbinding, hbytes]
      have hne := (SegmentText.of_literal hliteral).nonempty
      refine ⟨rfl, rfl, rfl, rfl, rfl, hne, rfl, ?_⟩
      rw [checkSegment, pure_eq_ok]
      simp only at hliteral
      simp [hliteral]
    · rw [hbinding] at hsource
      cases hsource
  · rcases planned.2.1.cases with ⟨hsource, -⟩ | ⟨-, hid, -⟩
    · rw [hbinding] at hsource
      cases hsource
    · rw [hbinding] at hid
      rw [hcontract, hbinding, hbytes]
      have hunseen : ids.contains id = false := by
        simpa using hnew id rfl
      refine ⟨rfl, rfl, (pathInput_kind hinput).symm, rfl, rfl,
        Escape.encode_ne_nil _ hpath.nonempty, rfl, ?_⟩
      simp only [checkSegment, isSafeLogicalId_of_isIdentifier hid, hunseen, List.isEmpty_nil,
        Bool.not_true, Bool.or_self, bne_self_eq_false, Bool.false_eq_true, if_false]
      refine bind_eq_ok.mpr ⟨_, tryCanonicalPathValue_of_canonicalText htext hpath, ?_⟩
      simp

/-- The loop copies a planned path whole. -/
theorem copySegments_planned {inputs : ResolvedRelationInputs}
    {declared : List CompiledRestPathSegment}
    {planned : List (PlannedRestPathContractSegment × PlannedRestPathSegment × Bytes)}
    (h : List.Forall₂ (fun segment planned => planPathSegment inputs segment = .ok planned)
      declared planned)
    {ids : List Bytes} (hids : (declared.filterMap pathInputId? ++ ids).Nodup) {path : Bytes}
    (hsize : (path ++ (planned.map fun one => one.2.2).flatMap (byte '/' :: ·)).length ≤ 2048) :
    copySegments ids path (planned.map fun one => one.1) (planned.map fun one => one.2.1) =
      .ok (some (path ++ (planned.map fun one => one.2.2).flatMap (byte '/' :: ·))) := by
  induction h generalizing ids path with
  | nil => simp [copySegments]
  | @cons segment one declared planned hone _ ih =>
    have hsplit : (segment :: declared).filterMap pathInputId? =
        (pathInputId? segment).toList ++ declared.filterMap pathInputId? := by
      rw [List.filterMap_cons]
      cases pathInputId? segment <;> rfl
    rw [hsplit] at hids
    have hnew : ∀ id ∈ pathInputId? segment, id ∉ ids := by
      intro id hid hmem
      have hfirst : id ∈ (pathInputId? segment).toList ++ declared.filterMap pathInputId? :=
        List.mem_append_left _ (Option.mem_toList.mpr hid)
      exact (List.nodup_append.mp hids).2.2 id hfirst id hmem rfl
    have hnodup : (declared.filterMap pathInputId? ++
        ((pathInputId? segment).toList ++ ids)).Nodup := by
      refine (List.Perm.nodup_iff ?_).mp hids
      rw [List.append_assoc]
      exact (List.perm_append_comm_assoc _ _ _)
    obtain ⟨hsource, hid, hkind, hencoding, hvalue, hne, hseen, hcheck⟩ :=
      checkSegment_planned hone hnew
    simp only [List.map_cons, List.flatMap_cons, List.length_append, List.length_cons] at hsize
    have hgrown : (path ++ [byte '/'] ++ one.2.2 ++
        (planned.map fun one => one.2.2).flatMap (byte '/' :: ·)).length ≤ 2048 := by
      simp only [List.length_append, List.length_cons, List.length_nil]
      omega
    have hrest := ih hnodup hgrown
    rw [List.map_cons, List.map_cons, copySegments, hsource, hid, hkind, hencoding]
    simp only [bne_self_eq_false, Bool.or_self, Bool.false_eq_true, if_false]
    refine bind_eq_ok.mpr ⟨true, hcheck, ?_⟩
    have hfits : ¬(!true || decide (2048 < (path ++ [byte '/']).length) ||
        one.2.1.fields.encodedValue.isEmpty ||
        decide (2048 - (path ++ [byte '/']).length < one.2.1.fields.encodedValue.length)) =
          true := by
      rw [hvalue]
      simp only [Bool.not_true, Bool.false_or, Bool.or_eq_true, decide_eq_true_eq,
        List.isEmpty_iff, List.length_append, List.length_cons, List.length_nil]
      rintro ((hlong | hempty) | hlong)
      · omega
      · exact hne hempty
      · omega
    rw [if_neg hfits, hvalue, hseen, hrest]
    simp

/-- A declared segment and the text that a planned path has for it. -/
inductive SegmentMeans (inputs : ResolvedRelationInputs) :
    CompiledRestPathSegment → Bytes → Prop
  | literal {value : Bytes} : SegmentMeans inputs (.literal value) value
  | input {id : Bytes} {type : ScalarKind} {value : Scalar} {text : Bytes} :
      pathInput inputs id type = some value →
      canonicalText "REST structural path DOUBLE must be finite" value = .ok text →
      SegmentMeans inputs (.relationInput id type) text

end Path

end Cuac.Runtime

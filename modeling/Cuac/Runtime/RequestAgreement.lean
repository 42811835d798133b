import Cuac.Runtime.RestMaterialization
import Cuac.Semantics.ConditionalInputs

/-!
# The planner's request and Runtime's

What the planner puts on the wire against what Runtime recomputes and lets
through. A path keeps its declared shape: it splits into the declared segments,
and every segment decodes to the text of its value. A query value is accepted,
and decodes to the text of its value unless the value is a number whose text has
a plus sign: the planner and Runtime send numbers as they are written, and form
decoding reads a plus sign as a space.

Main results:

* `structural_path_agreement` — a planned path is reproduced, and decodes segment
  by segment.
* `query_value_round_trip` — a planned query value is accepted, and when it
  decodes to its text.
* `query_encoders_agree` — when the three encoders of a query value agree.
-/

namespace Cuac.Runtime

open Cuac.Lib Cuac.Connector Cuac.Semantics

-- ---------------------------------------------------------------------------
-- Splitting a path
-- ---------------------------------------------------------------------------

/-- The segments of a request path, as a receiver splits it. -/
def requestSegments (path : Bytes) : List Bytes :=
  if path = ascii "/" then [] else (path.splitOn (byte '/')).tail

theorem intercalate_cons {separator : UInt8} (first : Bytes) (rest : List Bytes) :
    [separator].intercalate (first :: rest) = first ++ rest.flatMap (separator :: ·) := by
  induction rest generalizing first with
  | nil => simp [List.intercalate]
  | cons second rest ih =>
    rw [List.intercalate_cons_cons, ih, List.flatMap_cons]
    simp

/-- A joined path splits into its segments. -/
theorem requestSegments_joinPath {segments : List Bytes}
    (h : ∀ segment ∈ segments, segment ≠ [] ∧ byte '/' ∉ segment) :
    requestSegments (joinPath segments) = segments := by
  cases segments with
  | nil => decide
  | cons first rest =>
    have hjoin : joinPath (first :: rest) = [byte '/'].intercalate ([] :: first :: rest) := by
      rw [intercalate_cons]
      rfl
    have hroot : joinPath (first :: rest) ≠ ascii "/" := by
      intro hsame
      have hlength := congrArg List.length hsame
      have hfirst := List.length_pos_of_ne_nil (h first List.mem_cons_self).1
      simp only [joinPath, List.flatMap_cons, List.cons_append, List.length_cons,
        List.length_append] at hlength
      have hone : (ascii "/").length = 1 := by decide
      omega
    have hfree : ∀ segment ∈ [] :: first :: rest, byte '/' ∉ segment := by
      intro segment hsegment
      rcases List.mem_cons.mp hsegment with rfl | hmem
      · exact List.not_mem_nil
      · exact (h segment hmem).2
    rw [requestSegments, if_neg hroot, hjoin,
      List.splitOn_intercalate _ hfree (List.cons_ne_nil _ _)]
    rfl

/-- An encoded segment has no byte that ends a segment or a path. -/
theorem separator_not_mem_encode (text : Bytes) :
    ∀ c ∈ percentEncodePathSegment text, c ≠ byte '/' ∧ c ≠ byte '?' ∧ c ≠ byte '#' := by
  have hcode : ∀ b c, pathEscape.code b = some c → c ≠ byte '/' ∧ c ≠ byte '?' ∧ c ≠ byte '#' :=
    forall_byte_some (by decide)
  exact pathEscape.forall_encode (fun b _ => hcode b) (by decide) (forall_byte (by decide))

-- ---------------------------------------------------------------------------
-- The path
-- ---------------------------------------------------------------------------

section Path

variable [CLibrary] {inputs : ResolvedRelationInputs}

omit [CLibrary] in
theorem percentEncode_of_literal {value : Bytes} (h : isLiteralPathSegment value = true) :
    percentEncodePathSegment value = value ∧ ∀ b ∈ value, isPathSyntax b = false := by
  simp only [isLiteralPathSegment, Bool.and_eq_true, List.all_eq_true] at h
  have hcode : ∀ b : UInt8, isUnreserved b = true →
      pathEscape.code b = some b ∧ isPathSyntax b = false :=
    forall_byte (by decide)
  refine ⟨pathEscape.encode_eq_self.mpr fun b hb => ?_, fun b hb => ?_⟩
  · exact (hcode b (h.2 b hb)).1
  · exact (hcode b (h.2 b hb)).2

/-- What a planned segment says: a text that keeps to its segment, under its
encoding. -/
theorem planPathSegment_text {segment : CompiledRestPathSegment}
    {planned : PlannedRestPathContractSegment × PlannedRestPathSegment × Bytes}
    (h : planPathSegment inputs segment = .ok planned) :
    ∃ text, SegmentMeans inputs segment text ∧ SegmentText text ∧
      (∀ b ∈ text, isPathSyntax b = false) ∧ planned.2.2 = percentEncodePathSegment text := by
  rcases planPathSegment_eq_ok h with ⟨value, rfl, -, hbinding, hbytes⟩ |
    ⟨id, type, value, text, rfl, hinput, htext, hpath, -, -, hbytes⟩
  · rcases planned.2.1.cases with ⟨-, -, -, -, hliteral⟩ | ⟨hsource, -⟩
    · rw [hbinding] at hliteral
      obtain ⟨hsame, hplain⟩ := percentEncode_of_literal hliteral
      exact ⟨value, .literal, SegmentText.of_literal hliteral, hplain, hbytes.trans hsame.symm⟩
    · rw [hbinding] at hsource
      cases hsource
  · exact ⟨text, .input hinput htext, SegmentText.of_pathText hpath, hpath.plain, hbytes⟩

/-- The texts of a planned path. -/
theorem planned_texts {declared : List CompiledRestPathSegment}
    {planned : List (PlannedRestPathContractSegment × PlannedRestPathSegment × Bytes)}
    (h : List.Forall₂ (fun segment planned => planPathSegment inputs segment = .ok planned)
      declared planned) :
    ∃ texts, List.Forall₂ (SegmentMeans inputs) declared texts ∧
      (∀ text ∈ texts, SegmentText text ∧ ∀ b ∈ text, isPathSyntax b = false) ∧
      planned.map (fun one => one.2.2) = texts.map percentEncodePathSegment := by
  induction h with
  | nil => exact ⟨[], .nil, (fun _ hmem => nomatch hmem), rfl⟩
  | @cons segment one declared planned hone _ ih =>
    obtain ⟨texts, hmeans, hall, hbytes⟩ := ih
    obtain ⟨text, hmean, htext, hplain, hone⟩ := planPathSegment_text hone
    refine ⟨text :: texts, .cons hmean hmeans, List.forall_mem_cons.mpr ⟨⟨htext, hplain⟩, hall⟩, ?_⟩
    rw [List.map_cons, List.map_cons, hone, hbytes]

/-- A declared segment means one text. -/
theorem SegmentMeans.unique {segment : CompiledRestPathSegment} {text other : Bytes}
    (h : SegmentMeans inputs segment text) (h' : SegmentMeans inputs segment other) :
    text = other := by
  cases h with
  | literal =>
    cases h'
    rfl
  | input hvalue htext =>
    cases h' with
    | input hvalue' htext' =>
      rw [hvalue] at hvalue'
      obtain rfl := Option.some.inj hvalue'
      exact Except.ok.inj (htext.symm.trans htext')

theorem segmentMeans_unique {declared : List CompiledRestPathSegment} {texts others : List Bytes}
    (h : List.Forall₂ (SegmentMeans inputs) declared texts)
    (h' : List.Forall₂ (SegmentMeans inputs) declared others) : texts = others := by
  induction h generalizing others with
  | nil =>
    cases h'
    rfl
  | cons hone _ ih =>
    cases h' with
    | cons hother hothers => rw [hone.unique hother, ih hothers]

omit [CLibrary] in
/-- The path of encoded texts splits and decodes to the texts. -/
theorem requestSegments_texts {texts : List Bytes} (h : ∀ text ∈ texts, text ≠ []) :
    (requestSegments (joinPath (texts.map percentEncodePathSegment))).map pathEscape.decode =
      texts := by
  have hsegments : ∀ segment ∈ texts.map percentEncodePathSegment,
      segment ≠ [] ∧ byte '/' ∉ segment := by
    intro segment hsegment
    obtain ⟨text, htext, rfl⟩ := List.mem_map.mp hsegment
    exact ⟨pathEscape.encode_ne_nil (h text htext),
      fun hmem => (separator_not_mem_encode text _ hmem).1 rfl⟩
  rw [requestSegments_joinPath hsegments, List.map_map]
  refine (List.map_congr_left fun text _ => ?_).trans (List.map_id texts)
  exact pathEscape.decode_encode text

omit [CLibrary] in
/-- Nothing in a joined path starts a query or a fragment. -/
theorem joinPath_separators (texts : List Bytes) :
    byte '?' ∉ joinPath (texts.map percentEncodePathSegment) ∧
      byte '#' ∉ joinPath (texts.map percentEncodePathSegment) := by
  have hbytes : ∀ c ∈ joinPath (texts.map percentEncodePathSegment),
      c ≠ byte '?' ∧ c ≠ byte '#' := by
    intro c hc
    cases texts with
    | nil =>
      replace hc : c ∈ [byte '/'] := hc
      rw [List.mem_singleton.mp hc]
      decide
    | cons first rest =>
      obtain ⟨segment, hsegment, hc⟩ := List.mem_flatMap.mp hc
      obtain ⟨text, -, rfl⟩ := List.mem_map.mp hsegment
      rcases List.mem_cons.mp hc with rfl | hc
      · decide
      · exact (separator_not_mem_encode text c hc).2
  exact ⟨fun hmem => (hbytes _ hmem).1 rfl, fun hmem => (hbytes _ hmem).2 rfl⟩

/-- Runtime returns the path that its loop copied, if it is the planned one and safe. -/
theorem tryCopyPermanentPath_of_copied {planned : PlannedRestOperation} {path : Bytes}
    (hcount : planned.pathBindings.length ≤ 64)
    (hcontract : planned.pathContract.length = planned.pathBindings.length)
    (hcopied : copySegments [] [] planned.pathContract planned.pathBindings = .ok (some path))
    (hpath : (if path.isEmpty then ascii "/" else path) = planned.path)
    (hsize : planned.path.length ≤ 2048) (hsafe : isSafeRequestPath planned.path = true) :
    tryCopyPermanentPath planned = .ok (some planned.path) := by
  have hshape : ¬(decide (64 < planned.pathBindings.length) ||
      planned.pathContract.length != planned.pathBindings.length) = true := by
    rw [hcontract, bne_self_eq_false, Bool.or_false, decide_eq_true_eq]
    omega
  unfold tryCopyPermanentPath
  rw [if_neg hshape]
  refine bind_eq_ok.mpr ⟨_, hcopied, ?_⟩
  simp only [Option.bind_eq_bind, Option.bind_some, hpath, decide_eq_true hsize, hsafe,
    beq_self_eq_true, Bool.and_self, if_true]
  rfl

omit [CLibrary] in
/-- The copying loop and the planner join alike; only the loop leaves a path of no
segments empty. -/
theorem joinPath_of_flatMap (segments : List Bytes) :
    (if (segments.flatMap (byte '/' :: ·)).isEmpty then ascii "/"
      else segments.flatMap (byte '/' :: ·)) = joinPath segments := by
  cases segments with
  | nil => rfl
  | cons first rest => rfl

omit [CLibrary] in
theorem length_flatMap_le_joinPath (segments : List Bytes) :
    (segments.flatMap (byte '/' :: ·)).length ≤ (joinPath segments).length := by
  cases segments with
  | nil => exact Nat.zero_le _
  | cons first rest => exact Nat.le_refl _

/-- The texts of a plan are what its path decodes to. -/
theorem planned_path_texts {relation : CompiledRelation} {operation : CompiledOperation}
    {rest : CompiledRestOperation} {decision : PredicatePlanDecision}
    {planned : PlannedRestOperation} (hprotocol : operation.protocolOperation = .rest rest)
    (hplanned : buildRestOperation relation operation inputs decision = .ok planned) :
    ∃ segments texts,
      List.Forall₂ (fun segment planned => planPathSegment inputs segment = .ok planned)
        rest.request.pathSegments segments ∧
      planned.pathContract = segments.map (fun one => one.1) ∧
      planned.pathBindings = segments.map (fun one => one.2.1) ∧
      segments.map (fun one => one.2.2) = texts.map percentEncodePathSegment ∧
      planned.path = joinPath (texts.map percentEncodePathSegment) ∧
      planned.path.length ≤ 2048 ∧
      List.Forall₂ (SegmentMeans inputs) rest.request.pathSegments texts ∧
      (∀ text ∈ texts, SegmentText text ∧ ∀ b ∈ text, isPathSyntax b = false) ∧
      (requestSegments planned.path).map pathEscape.decode = texts := by
  obtain ⟨other, hother, hfrom⟩ := buildRestOperation_eq_ok hplanned
  rw [hprotocol] at hother
  obtain rfl := CompiledProtocolOperation.rest.inj hother
  obtain ⟨segments, hsegments, hpath, hcontract, hbindings⟩ := hfrom.path
  have hforall := forEach_eq_ok.mp hsegments
  obtain ⟨texts, hmeans, htexts, hbytes⟩ := planned_texts hforall
  rw [hbytes] at hpath
  refine ⟨segments, texts, hforall, hcontract, hbindings, hbytes, hpath, hfrom.pathSize, hmeans,
    htexts, ?_⟩
  rw [hpath, requestSegments_texts fun text htext => (htexts text htext).1.nonempty]

/-- A planned path of at most 64 segments with distinct inputs is reproduced by
Runtime. It splits into the declared segments, every segment decodes to the text
of its literal or its value, none of them is empty, climbs or holds path syntax,
and inputs that give the same path have the same texts. -/
theorem structural_path_agreement (relation : CompiledRelation) (operation : CompiledOperation)
    (rest : CompiledRestOperation) (inputs : ResolvedRelationInputs)
    (decision : PredicatePlanDecision) (planned : PlannedRestOperation)
    (hprotocol : operation.protocolOperation = .rest rest)
    (hcount : rest.request.pathSegments.length ≤ 64)
    (hids : (rest.request.pathSegments.filterMap pathInputId?).Nodup)
    (hplanned : buildRestOperation relation operation inputs decision = .ok planned) :
    tryCopyPermanentPath planned = .ok (some planned.path) ∧
      isSafeRequestPath planned.path = true ∧
      byte '?' ∉ planned.path ∧ byte '#' ∉ planned.path ∧
      (requestSegments planned.path).length = rest.request.pathSegments.length ∧
      List.Forall₂ (SegmentMeans inputs) rest.request.pathSegments
        ((requestSegments planned.path).map pathEscape.decode) ∧
      (∀ text ∈ (requestSegments planned.path).map pathEscape.decode,
        text ≠ [] ∧ text ≠ dot ∧ text ≠ dotDot ∧ ∀ b ∈ text, isPathSyntax b = false) ∧
      ∀ inputs' decision' planned',
        buildRestOperation relation operation inputs' decision' = .ok planned' →
        planned'.path = planned.path →
        ∀ texts texts', List.Forall₂ (SegmentMeans inputs) rest.request.pathSegments texts →
          List.Forall₂ (SegmentMeans inputs') rest.request.pathSegments texts' →
          texts = texts' := by
  obtain ⟨segments, texts, hforall, hcontract, hbindings, hbytes, hpath, hsize, hmeans, htexts,
    hdecoded⟩ := planned_path_texts hprotocol hplanned
  have hsafe : isSafeRequestPath planned.path = true := by
    rw [hpath]
    exact isSafeRequestPath_joined (fun text htext => (htexts text htext).1) (hpath ▸ hsize)
  obtain ⟨hquestion, hhash⟩ := joinPath_separators texts
  rw [← hpath] at hquestion hhash
  refine ⟨?_, hsafe, hquestion, hhash, ?_, ?_, ?_, ?_⟩
  · have hlength : planned.pathBindings.length = rest.request.pathSegments.length := by
      rw [hbindings, List.length_map, hforall.length_eq]
    have hjoined : ([] ++ (segments.map fun one => one.2.2).flatMap (byte '/' :: ·) :
        Bytes).length ≤ 2048 := by
      rw [List.nil_append]
      refine Nat.le_trans (length_flatMap_le_joinPath _) ?_
      rw [hbytes, ← hpath]
      exact hsize
    have hcopied := copySegments_planned hforall (by rwa [List.append_nil]) hjoined
    rw [← hcontract, ← hbindings, List.nil_append] at hcopied
    refine tryCopyPermanentPath_of_copied (hlength ▸ hcount) ?_ hcopied ?_ hsize hsafe
    · rw [hcontract, hbindings, List.length_map, List.length_map]
    · rw [joinPath_of_flatMap, hbytes, hpath]
  · have hlength := congrArg List.length hdecoded
    rw [List.length_map] at hlength
    rw [hlength, hmeans.length_eq]
  · rw [hdecoded]
    exact hmeans
  · rw [hdecoded]
    intro text htext
    obtain ⟨hone, hplain⟩ := htexts text htext
    exact ⟨hone.nonempty, hone.not_dot, hone.not_dotDot, hplain⟩
  · intro inputs' decision' planned' hplanned' hsame texts₁ texts₂ hmeans₁ hmeans₂
    obtain ⟨-, texts', -, -, -, -, -, -, hmeans', -, hdecoded'⟩ :=
      planned_path_texts hprotocol hplanned'
    rw [segmentMeans_unique hmeans₁ hmeans, segmentMeans_unique hmeans₂ hmeans', ← hdecoded,
      ← hdecoded', hsame]

end Path

-- ---------------------------------------------------------------------------
-- Query values
-- ---------------------------------------------------------------------------

section Query

variable [CLibrary]

/-- A number is finite; the other kinds are all values of theirs. -/
def isFiniteScalar : Scalar → Bool
  | .double value => value.isFinite
  | _ => true

/-- A scalar that a request can carry: control-free text, a finite number, an
instant of the profile. -/
structure QueryScalar (value : Scalar) : Prop where
  valid : validateQueryValue value = .ok ()
  finite : isFiniteScalar value = true

omit [CLibrary] in
theorem QueryScalar.controlFree {text : Bytes} (h : QueryScalar (.varchar text)) :
    ControlFree text := validateControlFree_eq_ok.mp h.valid

omit [CLibrary] in
theorem QueryScalar.inRange {microseconds : Int64} (h : QueryScalar (.timestamptz microseconds)) :
    isTimestamptzMicroseconds microseconds = true := by
  have hvalid := h.valid
  simpa [validateQueryValue] using hvalid

/-- A byte that would end a query value. -/
def isQuerySeparator (b : UInt8) : Bool :=
  b == byte '&' || b == byte '=' || b == byte '#'

omit [CLibrary] in
theorem separator_not_mem_formEncode (text : Bytes) :
    ∀ b ∈ formUrlEncode text, isQuerySeparator b = false := by
  have hcode : ∀ b c, formEscape.code b = some c → isQuerySeparator c = false :=
    forall_byte_some (by decide)
  exact formEscape.forall_encode (fun b _ => hcode b) (by decide) (forall_byte (by decide))

/-- The bytes that numbers are written with. -/
def isNumberByte (b : UInt8) : Bool :=
  isDigit b || b == byte '+' || b == byte '-' || b == byte '.' || b == byte 'e'

omit [CLibrary] in
theorem isNumberByte_facts : ∀ b : UInt8, isNumberByte b = true →
    (isUnreserved b = true ∨ b = byte '+') ∧ isQuerySeparator b = false ∧ b ≠ percent ∧
      (formEscape.undo b = b ↔ b ≠ byte '+') :=
  forall_byte (by decide)

theorem isNumberByte_g17 (hlib : CLibrary.Documented) {value : Double}
    (h : value.isFinite = true) : ∀ b ∈ CLibrary.g17 value, isNumberByte b = true := by
  intro b hb
  rcases hlib.mem value h b hb with hdigit | rfl | rfl | rfl | rfl
  · rw [isNumberByte, hdigit]
    rfl
  · decide
  · decide
  · decide
  · decide

omit [CLibrary] in
theorem isNumberByte_signed (n : Int) : ∀ b ∈ signed n, isNumberByte b = true := by
  intro b hb
  rcases mem_signed hb with hdigit | rfl
  · rw [isNumberByte, hdigit]
    rfl
  · decide

/-- The text of a value before any encoding. -/
def plainText (value : Scalar) : Except Fault Bytes :=
  canonicalText "REST query DOUBLE must be finite" value

/-- How the planner writes a query value: the form encoding of its text, or the
text of a number as it is. -/
theorem encode_cases (hlib : CLibrary.Documented) {value : Scalar} (h : QueryScalar value) :
    ∃ text, plainText value = .ok text ∧
      ((encode value = .ok (formUrlEncode text) ∧ ControlFree text ∧ keepsText value = true ∧
          ∀ number, value ≠ .double number) ∨
        ∃ number, value = .double number ∧ number.isFinite = true ∧ text = CLibrary.g17 number ∧
          encode value = .ok text) := by
  cases value with
  | boolean value =>
    refine ⟨booleanText value, rfl, Or.inl ⟨?_, ?_, rfl, fun _ hsame => nomatch hsame⟩⟩
    · cases value <;> rfl
    · cases value <;> exact controlFree_of_ascii (forall_mem_byte (by decide))
  | bigint value =>
    have hplain : formUrlEncode (signed value.toInt) = signed value.toInt := formEncode_signed _
    refine ⟨signed value.toInt, rfl, Or.inl ⟨?_, ?_, rfl, fun _ hsame => nomatch hsame⟩⟩
    · rw [hplain]
      rfl
    · refine controlFree_of_ascii fun b hb => ?_
      have hbyte : ∀ b : UInt8, isNumberByte b = true → b ≤ 0x7F ∧ isPrintable b = true :=
        forall_byte (by decide)
      exact hbyte b (isNumberByte_signed _ b hb)
  | varchar text => exact ⟨text, rfl, Or.inl ⟨rfl, h.controlFree, rfl, fun _ hsame => nomatch hsame⟩⟩
  | double value =>
    have hfinite : value.isFinite = true := h.finite
    obtain ⟨hpos, hshort⟩ := hlib.length value hfinite
    have hencode : encode (.double value) = .ok (CLibrary.g17 value) := by
      refine bind_eq_ok.mpr ⟨(), throwIf_eq_ok.mpr ?_, rfl⟩
      rw [Bool.or_eq_false_iff, beq_eq_false_iff_ne, decide_eq_false_iff_not]
      omega
    refine ⟨CLibrary.g17 value, ?_, Or.inr ⟨value, rfl, hfinite, rfl, hencode⟩⟩
    refine bind_eq_ok.mpr ⟨(), throwIf_eq_ok.mpr ?_, hencode⟩
    rw [hfinite]
    rfl
  | timestamptz value =>
    have htext : Semantics.canonicalTimestamptz value =
        .ok (Instant.ofMicroseconds value.toInt).text :=
      canonicalTimestamptz_eq_ok.mpr ⟨h.inRange, rfl⟩
    refine ⟨_, htext, Or.inl ⟨?_, ?_, rfl, fun _ hsame => nomatch hsame⟩⟩
    · exact bind_eq_ok.mpr ⟨_, htext, rfl⟩
    · refine controlFree_of_ascii fun b hb => ?_
      have hdigit : ∀ b : UInt8, isDigit b = true → b ≤ 0x7F ∧ isPrintable b = true :=
        forall_byte (by decide)
      rcases mem_canonicalTimestamptz htext b hb with hb | rfl | rfl | rfl | rfl | rfl
      · exact hdigit b hb
      · decide
      · decide
      · decide
      · decide
      · decide

/-- Every scalar that a request can carry has an encoding. -/
theorem encode_total (hlib : CLibrary.Documented) {value : Scalar} (h : QueryScalar value) :
    ∃ text, encode value = .ok text := by
  obtain ⟨text, -, ⟨hencode, -⟩ | ⟨number, -, -, -, hencode⟩⟩ := encode_cases hlib h
  · exact ⟨_, hencode⟩
  · exact ⟨_, hencode⟩

theorem isSafeEncodedQueryValue_encode (hlib : CLibrary.Documented) {value : Scalar}
    (h : QueryScalar value) {sent : Bytes} (hsent : encode value = .ok sent)
    (hsize : sent.length ≤ 8192) : isSafeEncodedQueryValue sent = true := by
  obtain ⟨text, -, ⟨hencode, hfree, -, -⟩ | ⟨number, rfl, hfinite, rfl, hencode⟩⟩ :=
    encode_cases hlib h
  · obtain rfl := Except.ok.inj (hencode.symm.trans hsent)
    exact isSafeEncodedQueryValue_formEncode hfree hsize
  · obtain rfl := Except.ok.inj (hencode.symm.trans hsent)
    refine isSafeEncodedQueryValue_verbatim (fun b hb => ?_) hsize
    exact (isNumberByte_facts b (isNumberByte_g17 hlib hfinite b hb)).1

theorem separator_not_mem_sent (hlib : CLibrary.Documented) {value : Scalar}
    (h : QueryScalar value) {sent : Bytes} (hsent : encode value = .ok sent) :
    ∀ b ∈ sent, isQuerySeparator b = false := by
  obtain ⟨text, -, ⟨hencode, -⟩ | ⟨number, rfl, hfinite, rfl, hencode⟩⟩ := encode_cases hlib h
  · obtain rfl := Except.ok.inj (hencode.symm.trans hsent)
    exact separator_not_mem_formEncode text
  · obtain rfl := Except.ok.inj (hencode.symm.trans hsent)
    intro b hb
    exact (isNumberByte_facts b (isNumberByte_g17 hlib hfinite b hb)).2.1

/-- A form decoder reads the text of the value back, unless the value is a number
written with a plus sign. -/
theorem formDecode_sent (hlib : CLibrary.Documented) {value : Scalar} (h : QueryScalar value)
    {sent : Bytes} (hsent : encode value = .ok sent) :
    plainText value = .ok (formEscape.decode sent) ↔
      ∀ number, value = .double number → byte '+' ∉ CLibrary.g17 number := by
  obtain ⟨text, htext, ⟨hencode, -, -, hother⟩ | ⟨number, rfl, hfinite, rfl, hencode⟩⟩ :=
    encode_cases hlib h
  · obtain rfl := Except.ok.inj (hencode.symm.trans hsent)
    have hdecode : formEscape.decode (formUrlEncode text) = text := formEscape.decode_encode text
    rw [hdecode, htext]
    exact ⟨fun _ number hnumber => absurd hnumber (hother number), fun _ => rfl⟩
  · obtain rfl := Except.ok.inj (hencode.symm.trans hsent)
    have hbytes := isNumberByte_g17 hlib hfinite
    have hmap : formEscape.decode (CLibrary.g17 number) =
        (CLibrary.g17 number).map formEscape.undo :=
      formEscape.decode_eq_map fun b hb => (isNumberByte_facts b (hbytes b hb)).2.2.1
    have hself : (CLibrary.g17 number).map formEscape.undo = CLibrary.g17 number ↔
        ∀ b ∈ CLibrary.g17 number, formEscape.undo b = b := by
      simpa using List.map_inj_left (l := CLibrary.g17 number) (f := formEscape.undo) (g := id)
    rw [htext, hmap, Except.ok.injEq, eq_comm, hself]
    constructor
    · rintro hsame _ ⟨⟩ hplus
      exact absurd (hsame _ hplus) (by decide)
    · intro hplus b hb
      refine (isNumberByte_facts b (hbytes b hb)).2.2.2.mpr fun hsame => ?_
      exact hplus number rfl (hsame ▸ hb)

/-- No two values of one kind have one text. -/
theorem plainText_injective (hlib : CLibrary.Documented) {value other : Scalar} {text : Bytes}
    (hvalue : isFiniteScalar value = true) (hother : isFiniteScalar other = true)
    (hkind : value.kind = other.kind) (h : plainText value = .ok text)
    (h' : plainText other = .ok text) : value = other := by
  cases value with
  | boolean a =>
    cases other with
    | boolean b =>
      have htexts := (pure_eq_ok.mp h).trans (pure_eq_ok.mp h').symm
      cases a <;> cases b <;> first | rfl | exact absurd htexts (by decide)
    | _ => cases hkind
  | bigint a =>
    cases other with
    | bigint b =>
      have htexts := (pure_eq_ok.mp h).trans (pure_eq_ok.mp h').symm
      rw [Int64.toInt_inj.mp (signed_injective htexts)]
    | _ => cases hkind
  | varchar a =>
    cases other with
    | varchar b => rw [pure_eq_ok.mp h, pure_eq_ok.mp h']
    | _ => cases hkind
  | double a =>
    cases other with
    | double b =>
      obtain ⟨_, -, h⟩ := bind_eq_ok.mp h
      obtain ⟨_, -, h⟩ := bind_eq_ok.mp h
      obtain ⟨_, -, h'⟩ := bind_eq_ok.mp h'
      obtain ⟨_, -, h'⟩ := bind_eq_ok.mp h'
      have htexts := (pure_eq_ok.mp h).trans (pure_eq_ok.mp h').symm
      rw [hlib.injective a b hvalue hother htexts]
    | _ => cases hkind
  | timestamptz a =>
    cases other with
    | timestamptz b => rw [canonicalTimestamptz_injective h h']
    | _ => cases hkind

/-- No two values of one kind are sent alike. -/
theorem encode_injective (hlib : CLibrary.Documented) {value other : Scalar} {sent : Bytes}
    (hvalue : QueryScalar value) (hother : QueryScalar other) (hkind : value.kind = other.kind)
    (h : encode value = .ok sent) (h' : encode other = .ok sent) : value = other := by
  obtain ⟨text, htext, hcase⟩ := encode_cases hlib hvalue
  obtain ⟨text', htext', hcase'⟩ := encode_cases hlib hother
  suffices hsame : text = text' by
    rw [← hsame] at htext'
    exact plainText_injective hlib hvalue.finite hother.finite hkind htext htext'
  rcases hcase with ⟨hencode, -, -, hnone⟩ | ⟨number, rfl, -, -, hencode⟩
  · rcases hcase' with ⟨hencode', -, -, -⟩ | ⟨number, rfl, -, -, -⟩
    · have hforms := (hencode.symm.trans h).trans (h'.symm.trans hencode')
      exact formEscape.encode_injective (Except.ok.inj hforms)
    · -- the other is a number, so this one is
      cases value with
      | double a => exact absurd rfl (hnone a)
      | _ => cases hkind
  · rcases hcase' with ⟨-, -, -, hnone⟩ | ⟨number', rfl, -, -, hencode'⟩
    · cases other with
      | double b => exact absurd rfl (hnone b)
      | _ => cases hkind
    · exact Except.ok.inj ((hencode.symm.trans h).trans (h'.symm.trans hencode'))

-- ---------------------------------------------------------------------------
-- Runtime's bindings
-- ---------------------------------------------------------------------------

/-- Runtime recomputes the planner's bytes. -/
theorem queryText_of_encode {value : Scalar} {sent : Bytes} (hsent : encode value = .ok sent) :
    queryText value = .ok (some sent) := by
  cases value with
  | double value =>
    obtain ⟨_, hlength, hsent⟩ := bind_eq_ok.mp hsent
    obtain rfl := pure_eq_ok.mp hsent
    refine bind_eq_ok.mpr ⟨CLibrary.g17 value, ?_, rfl⟩
    exact bind_eq_ok.mpr ⟨(), throwIf_eq_ok.mpr (throwIf_eq_ok.mp hlength), rfl⟩
  | timestamptz value =>
    obtain ⟨text, htext, hsent⟩ := bind_eq_ok.mp hsent
    obtain rfl := pure_eq_ok.mp hsent
    obtain ⟨hrange, rfl⟩ := canonicalTimestamptz_eq_ok.mp htext
    rw [queryText, hrange]
    exact bind_eq_ok.mpr ⟨_, canonicalTimestamptz_eq_ok.mpr ⟨hrange, rfl⟩, rfl⟩
  | _ =>
    obtain rfl := pure_eq_ok.mp hsent
    rfl

/-- A binding under the planner's bytes is refused for its name or its source only. -/
theorem hasCanonicalBinding_of_constructed {binding : QueryBindingFields}
    (hsent : encode binding.value = .ok binding.encodedValue)
    (hsafe : isSafeEncodedQueryValue binding.encodedValue = true)
    (conditional : RestConditionalBindingAuthority) (conditionalSeen : Bool) :
    hasCanonicalBinding binding conditional conditionalSeen =
      .ok (if isSafeEncodedQueryName binding.name then
        checkQuerySource binding conditional conditionalSeen else none) := by
  unfold hasCanonicalBinding
  rw [hsafe, Bool.not_true, Bool.or_false]
  by_cases hname : isSafeEncodedQueryName binding.name = true
  · rw [if_neg (by rw [hname]; decide), if_pos hname]
    cases checkQuerySource binding conditional conditionalSeen with
    | none => rfl
    | some seen =>
      refine bind_eq_ok.mpr ⟨_, queryText_of_encode hsent, ?_⟩
      rw [pure_eq_ok, beq_self_eq_true, if_pos rfl]
  · rw [Bool.not_eq_true] at hname
    rw [hname]
    rfl

/-- Every field of a planned query fits the request target. -/
theorem validateTargetBytes_mem {bindings : List PlannedRestQueryBinding} {targetBytes : Nat}
    {u : Unit} (h : validateTargetBytes targetBytes bindings = .ok u)
    {binding : PlannedRestQueryBinding} (hmem : binding ∈ bindings) :
    binding.fields.encodedValue.length ≤ 8192 := by
  induction bindings generalizing targetBytes with
  | nil => cases hmem
  | cons first rest ih =>
    obtain ⟨_, hfits, h⟩ := bind_eq_ok.mp h
    rcases List.mem_cons.mp hmem with rfl | hmem
    · simp only [throwIf_eq_ok, Bool.or_eq_false_iff, decide_eq_false_iff_not, Nat.not_lt] at hfits
      omega
    · exact ih h hmem

/-- Every scalar that a request can carry has an encoding, and no two of one kind
share one. What the planner puts on the wire for it has no separator and is
refused by Runtime for the field's name or source only; a form decoder reads the
text of the value back exactly where the value is not a number written with a
plus sign. -/
theorem query_value_round_trip (hlib : CLibrary.Documented) :
    (∀ value, QueryScalar value → ∃ sent, encode value = .ok sent) ∧
      (∀ value other sent, QueryScalar value → QueryScalar other → value.kind = other.kind →
        encode value = .ok sent → encode other = .ok sent → value = other) ∧
      ∀ (relation : CompiledRelation) (operation : CompiledOperation)
        (inputs : ResolvedRelationInputs) (decision : PredicatePlanDecision)
        (planned : PlannedRestOperation),
        buildRestOperation relation operation inputs decision = .ok planned →
        ∀ binding ∈ planned.queryBindings, isFiniteScalar binding.fields.value = true →
          QueryScalar binding.fields.value ∧
          encode binding.fields.value = .ok binding.fields.encodedValue ∧
          isSafeEncodedQueryValue binding.fields.encodedValue = true ∧
          (∀ conditional conditionalSeen,
            hasCanonicalBinding binding.fields conditional conditionalSeen =
              .ok (if isSafeEncodedQueryName binding.fields.name then
                checkQuerySource binding.fields conditional conditionalSeen else none)) ∧
          (∀ b ∈ binding.fields.encodedValue, isQuerySeparator b = false) ∧
          (plainText binding.fields.value =
              .ok (formEscape.decode binding.fields.encodedValue) ↔
            ∀ number, binding.fields.value = .double number → byte '+' ∉ CLibrary.g17 number) := by
  refine ⟨fun value hvalue => encode_total hlib hvalue, fun value other sent hvalue hother =>
    encode_injective hlib hvalue hother, ?_⟩
  intro relation operation inputs decision planned hplanned binding hbinding hfinite
  obtain ⟨rest, -, hfrom⟩ := buildRestOperation_eq_ok hplanned
  have hscalar : QueryScalar binding.fields.value := ⟨binding.value_ok, hfinite⟩
  have hsent := binding.encodedValue_eq
  have hsafe := isSafeEncodedQueryValue_encode hlib hscalar hsent
    (validateTargetBytes_mem hfrom.targetSize hbinding)
  exact ⟨hscalar, hsent, hsafe, hasCanonicalBinding_of_constructed hsent hsafe,
    separator_not_mem_sent hlib hscalar hsent, formDecode_sent hlib hscalar hsent⟩

-- ---------------------------------------------------------------------------
-- Declared values
-- ---------------------------------------------------------------------------

omit [CLibrary] in
theorem isContinuation_facts : ∀ b : UInt8, Utf8.isContinuation b = true →
    isUtf8Continuation b = true ∧ 0x80 ≤ b.toNat ∧ b.toNat ≤ 0xBF ∧
      (b &&& 0x3F).toNat + 0x80 = b.toNat :=
  forall_byte (by decide)

omit [CLibrary] in
/-- The listed lead bytes, by the length of their code points. -/
theorem leadByRange_facts : ∀ b : UInt8, ∀ l, leadByRange b = some l →
    (0xC2 ≤ b.toNat ∧ b.toNat ≤ 0xDF ∧ l = ⟨1, (b &&& 0x1F).toNat, 0x80⟩) ∨
      (0xE0 ≤ b.toNat ∧ b.toNat ≤ 0xEF ∧ l = ⟨2, b.toNat - 0xE0, 0x800⟩) ∨
      (0xF0 ≤ b.toNat ∧ b.toNat ≤ 0xF4 ∧ l = ⟨3, b.toNat - 0xF0, 0x10000⟩) := by
  have hbyte : ∀ b : UInt8, (leadByRange b).all (fun l => decide
      ((0xC2 ≤ b.toNat ∧ b.toNat ≤ 0xDF ∧ l = ⟨1, (b &&& 0x1F).toNat, 0x80⟩) ∨
        (0xE0 ≤ b.toNat ∧ b.toNat ≤ 0xEF ∧ l = ⟨2, b.toNat - 0xE0, 0x800⟩) ∨
        (0xF0 ≤ b.toNat ∧ b.toNat ≤ 0xF4 ∧ l = ⟨3, b.toNat - 0xF0, 0x10000⟩))) = true :=
    forall_byte (by decide)
  intro b l hl
  have hb := hbyte b
  rw [hl] at hb
  simpa using hb

omit [CLibrary] in
/-- The range check on a code point of three bytes is Connector's on the second. -/
theorem isCanonicalSecondOfThree_of_inRange {first second third : UInt8}
    (hlow : 0xE0 ≤ first.toNat) (hhigh : first.toNat ≤ 0xEF)
    (hsecond : Utf8.isContinuation second = true) (hthird : Utf8.isContinuation third = true)
    (hrange : Utf8.inRange 0x800 (Utf8.push (Utf8.push (first.toNat - 0xE0) second) third) =
      true) : isCanonicalSecondOfThree first second = true := by
  obtain ⟨hcont, hsecondLow, hsecondHigh, hsecondBits⟩ := isContinuation_facts second hsecond
  obtain ⟨-, hthirdLow, hthirdHigh, hthirdBits⟩ := isContinuation_facts third hthird
  simp only [Utf8.push_eq, Utf8.inRange, Bool.not_eq_true', Bool.or_eq_false_iff,
    Bool.and_eq_false_iff, decide_eq_false_iff_not, Nat.not_lt, Nat.not_le] at hrange
  simp only [isCanonicalSecondOfThree, hcont, Bool.or_eq_true, Bool.and_eq_true, beq_iff_eq,
    ← UInt8.toNat_inj, decide_eq_true_eq, UInt8.le_iff_toNat_le, UInt8.reduceToNat, and_true]
  omega

omit [CLibrary] in
/-- The same for four bytes. -/
theorem isCanonicalSecondOfFour_of_inRange {first second third fourth : UInt8}
    (hlow : 0xF0 ≤ first.toNat) (hhigh : first.toNat ≤ 0xF4)
    (hsecond : Utf8.isContinuation second = true) (hthird : Utf8.isContinuation third = true)
    (hfourth : Utf8.isContinuation fourth = true)
    (hrange : Utf8.inRange 0x10000
      (Utf8.push (Utf8.push (Utf8.push (first.toNat - 0xF0) second) third) fourth) = true) :
    isCanonicalSecondOfFour first second = true := by
  obtain ⟨hcont, hsecondLow, hsecondHigh, hsecondBits⟩ := isContinuation_facts second hsecond
  obtain ⟨-, hthirdLow, hthirdHigh, hthirdBits⟩ := isContinuation_facts third hthird
  obtain ⟨-, hfourthLow, hfourthHigh, hfourthBits⟩ := isContinuation_facts fourth hfourth
  simp only [Utf8.push_eq, Utf8.inRange, Bool.not_eq_true', Bool.or_eq_false_iff,
    Bool.and_eq_false_iff, decide_eq_false_iff_not, Nat.not_lt, Nat.not_le] at hrange
  simp only [isCanonicalSecondOfFour, hcont, Bool.or_eq_true, Bool.and_eq_true, beq_iff_eq,
    ← UInt8.toNat_inj, decide_eq_true_eq, UInt8.le_iff_toNat_le, UInt8.reduceToNat, and_true]
  omega

omit [CLibrary] in
/-- Connector's decoder accepts what the planner's does. -/
theorem isValidUtf8TextFrom_of_decodes {value : Bytes} {codes : List Nat}
    (h : Utf8.Decodes leadByRange value codes) (hcodes : ∀ c ∈ codes, Utf8.isControl c = false)
    {turns : Nat} (hturns : value.length ≤ turns) : isValidUtf8TextFrom turns value = true := by
  induction h generalizing turns with
  | nil => cases turns <;> rfl
  | @cons bytes rest codePoint codes hone _ ih =>
    obtain ⟨first, conts, rfl, hconts, hshape⟩ := Utf8.decodeOne_split hone
    have hfree : isControlCodePoint codePoint = false := hcodes codePoint List.mem_cons_self
    cases turns with
    | zero => simp at hturns
    | succ turns =>
      rw [List.length_cons, List.length_append] at hturns
      have hrest : isValidUtf8TextFrom turns rest = true :=
        ih (fun c hc => hcodes c (List.mem_cons_of_mem _ hc)) (by omega)
      rcases hshape with ⟨hascii, rfl, rfl⟩ | ⟨hhigh, lead, hlead, hlength, hcode, hrange⟩
      · rw [List.nil_append]
        conv_lhs => unfold isValidUtf8TextFrom
        rw [if_pos hascii, hfree, hrest]
        rfl
      · rcases leadByRange_facts first lead hlead with ⟨hlow, hup, rfl⟩ | ⟨hlow, hup, rfl⟩ |
          ⟨hlow, hup, rfl⟩
        · obtain ⟨second, rfl⟩ := List.length_eq_one_iff.mp hlength
          have hsecond := (isContinuation_facts second (hconts second List.mem_cons_self)).1
          have hpair : (0xC2 ≤ first && first ≤ 0xDF && isUtf8Continuation second) = true := by
            simp [UInt8.le_iff_toNat_le, hlow, hup, hsecond]
          have htwo : isControlCodePoint
              (((first &&& 0x1F).toNat <<< 6) ||| (second &&& 0x3F).toNat) = false := by
            rw [hcode] at hfree
            exact hfree
          match rest, hrest with
          | [], _ =>
            simp only [List.cons_append, List.nil_append, isValidUtf8TextFrom, if_neg hhigh, hpair,
              htwo, Bool.not_false, Bool.and_self]
          | [third], hrest =>
            simp only [List.cons_append, List.nil_append, isValidUtf8TextFrom, if_neg hhigh, hpair,
              htwo, Bool.not_false, Bool.true_and, if_true, hrest]
          | third :: fourth :: more, hrest =>
            simp only [List.cons_append, List.nil_append, isValidUtf8TextFrom, if_neg hhigh, hpair,
              htwo, Bool.not_false, Bool.true_and, if_true, hrest]
        · obtain ⟨second, third, rfl⟩ := List.length_eq_two.mp hlength
          have hsecond := hconts second List.mem_cons_self
          have hthird := hconts third (List.mem_cons_of_mem _ List.mem_cons_self)
          rw [hcode] at hrange
          have hcanonical := isCanonicalSecondOfThree_of_inRange hlow hup hsecond hthird hrange
          have hcontinues := (isContinuation_facts third hthird).1
          have hnot : ¬(0xC2 ≤ first && first ≤ 0xDF && isUtf8Continuation second) = true := by
            simp only [Bool.and_eq_true, decide_eq_true_eq, UInt8.le_iff_toNat_le,
              UInt8.reduceToNat]
            omega
          have hthree : (0xE0 ≤ first && first ≤ 0xEF) = true := by
            simp [UInt8.le_iff_toNat_le, hlow, hup]
          match rest, hrest with
          | [], _ =>
            simp only [List.cons_append, List.nil_append, isValidUtf8TextFrom, if_neg hhigh,
              if_neg hnot, hthree, hcanonical, hcontinues, Bool.and_self]
          | fourth :: more, hrest =>
            simp only [List.cons_append, List.nil_append, isValidUtf8TextFrom, if_neg hhigh,
              if_neg hnot, if_pos hthree, hcanonical, hcontinues, Bool.and_self, hrest]
        · obtain ⟨second, third, fourth, rfl⟩ := List.length_eq_three.mp hlength
          have hsecond := hconts second List.mem_cons_self
          have hthird := hconts third (List.mem_cons_of_mem _ List.mem_cons_self)
          have hfourth := hconts fourth
            (List.mem_cons_of_mem _ (List.mem_cons_of_mem _ List.mem_cons_self))
          rw [hcode] at hrange
          have hcanonical :=
            isCanonicalSecondOfFour_of_inRange hlow hup hsecond hthird hfourth hrange
          have hnot : ¬(0xC2 ≤ first && first ≤ 0xDF && isUtf8Continuation second) = true := by
            simp only [Bool.and_eq_true, decide_eq_true_eq, UInt8.le_iff_toNat_le,
              UInt8.reduceToNat]
            omega
          have hthree : ¬(0xE0 ≤ first && first ≤ 0xEF) = true := by
            simp only [Bool.and_eq_true, decide_eq_true_eq, UInt8.le_iff_toNat_le,
              UInt8.reduceToNat]
            omega
          have hfour : (0xF0 ≤ first && first ≤ 0xF4) = true := by
            simp [UInt8.le_iff_toNat_le, hlow, hup]
          simp only [List.cons_append, List.nil_append, isValidUtf8TextFrom, if_neg hhigh,
            if_neg hnot, if_neg hthree, hfour, hcanonical, (isContinuation_facts third hthird).1,
            (isContinuation_facts fourth hfourth).1, Bool.and_self, hrest]

omit [CLibrary] in
theorem isValidUtf8Text_of_controlFree {value : Bytes} (h : ControlFree value) :
    isValidUtf8Text value = true := by
  obtain ⟨codes, hdecodes, hcodes⟩ := h
  exact isValidUtf8TextFrom_of_decodes hdecodes hcodes (Nat.le_refl _)

/-- Connector encodes the text of every kind. -/
theorem encodeCompiledQueryScalar_of_plainText {value : Scalar} (h : QueryScalar value)
    {text : Bytes} (htext : plainText value = .ok text) :
    encodeCompiledQueryScalar (.ofScalar value) = .ok (formUrlEncode text) := by
  refine bind_eq_ok.mpr ⟨text, ?_, rfl⟩
  cases value with
  | varchar value =>
    obtain rfl := pure_eq_ok.mp htext
    rw [declaredText, isValidUtf8Text_of_controlFree h.controlFree]
    rfl
  | double value =>
    obtain ⟨_, -, htext⟩ := bind_eq_ok.mp htext
    obtain ⟨_, hlength, htext⟩ := bind_eq_ok.mp htext
    exact bind_eq_ok.mpr ⟨(), throwIf_eq_ok.mpr (throwIf_eq_ok.mp hlength), htext⟩
  | timestamptz value =>
    exact canonicalTimestamptz_eq_ok.mpr (canonicalTimestamptz_eq_ok.mp htext)
  | _ => exact htext

/-- Connector's text of a value, the planner's and Runtime's are one exactly where
the value keeps its text; so is a fixed field planned exactly there, and Runtime
then admits it within the byte limit of a value. -/
theorem query_encoders_agree (hlib : CLibrary.Documented) (value : Scalar)
    (h : QueryScalar value) :
    ∃ declared sent, encodeCompiledQueryScalar (.ofScalar value) = .ok declared ∧
      encode value = .ok sent ∧ queryText value = .ok (some sent) ∧
      (sent = declared ↔ keepsText value = true) ∧
      ∀ name, isSafeEncodedQueryName name = true →
        ((∃ binding, Checked.make QueryBindingFields.check
            ⟨name, .fixed, [], value, declared⟩ = .ok binding) ↔ keepsText value = true) ∧
        ∀ conditional conditionalSeen,
          hasCanonicalBinding ⟨name, .fixed, [], value, declared⟩ conditional conditionalSeen =
              .ok (some conditionalSeen) ↔
            keepsText value = true ∧ declared.length ≤ 8192 := by
  obtain ⟨text, htext, -⟩ := encode_cases hlib h
  obtain ⟨sent, hsent⟩ := encode_total hlib h
  have hdeclared := encodeCompiledQueryScalar_of_plainText h htext
  have hagree := encode_eq_declared rfl hdeclared hsent
  have hquery := queryText_of_encode hsent
  refine ⟨formUrlEncode text, sent, hdeclared, hsent, hquery, hagree, fun name hname => ⟨?_, ?_⟩⟩
  · rw [← hagree]
    constructor
    · rintro ⟨binding, hbinding⟩
      have hencoded := PlannedRestQueryBinding.encodedValue_eq binding
      rw [Checked.make_eq_ok hbinding] at hencoded
      exact Except.ok.inj (hsent.symm.trans hencoded)
    · intro hsame
      refine ⟨_, Checked.make_of_check ?_⟩
      have hname : name.isEmpty = false := by
        simp only [isSafeEncodedQueryName, Bool.and_eq_true, Bool.not_eq_true'] at hname
        exact hname.1.1
      refine bind_eq_ok.mpr ⟨(), throwIf_eq_ok.mpr hname, ?_⟩
      refine bind_eq_ok.mpr ⟨(), rfl, ?_⟩
      refine bind_eq_ok.mpr ⟨(), h.valid, ?_⟩
      refine bind_eq_ok.mpr ⟨sent, hsent, ?_⟩
      rw [throwIf_eq_ok, hsame, bne_self_eq_false]
  · intro conditional conditionalSeen
    rw [← hagree]
    constructor
    · intro haccepted
      unfold hasCanonicalBinding at haccepted
      rw [hname, Bool.not_true, Bool.false_or] at haccepted
      split at haccepted
      · cases haccepted
      · rename_i hsafe
        obtain ⟨recomputed, hrecomputed, hsame⟩ := bind_eq_ok.mp haccepted
        rw [hquery] at hrecomputed
        obtain rfl := Except.ok.inj hrecomputed
        rw [pure_eq_ok] at hsame
        split at hsame
        · rename_i hequal
          simp only [isSafeEncodedQueryValue, Bool.not_eq_true', Bool.not_eq_false,
            Bool.and_eq_true, decide_eq_true_eq] at hsafe
          exact ⟨by simpa using hequal, hsafe.1⟩
        · cases hsame
    · rintro ⟨rfl, hsize⟩
      have hsafe := isSafeEncodedQueryValue_encode hlib h hsent hsize
      rw [hasCanonicalBinding_of_constructed hsent hsafe, hname]
      rfl

end Query

-- ---------------------------------------------------------------------------
-- Requests
-- ---------------------------------------------------------------------------

section Example

open Cuac.Predicate

local instance sampleWire : CLibrary := sampleLibrary

/-- `/repos/{owner}/posts?score={score}` -/
def ownerPostsRest : CompiledRestOperation where
  retryEnabled := false
  pagination := ⟨.disabled, [], 0, [], 0, 0, 0, []⟩
  request := {
    origin := ⟨.https, ascii "api.example.com", 443⟩
    path := ascii "/repos/{owner}/posts"
    pathSegments := [.literal (ascii "repos"), .relationInput (ascii "owner") .varchar,
      .literal (ascii "posts")]
    queryParameters := [⟨ascii "score", [], .relationInput, ascii "score", true, true, none⟩]
    headers := [] }
  responseSource := .rootArray
  recordsExtractor := ascii "$"
  recordsExtractorSegments := []

def ownerPosts : CompiledOperation :=
  { issuesOperation (ascii "posts") true [] [] with protocolOperation := .rest ownerPostsRest }

def ownerInputs (owner : Bytes) (score : Double) : ResolvedRelationInputs :=
  [⟨ascii "owner", .varchar, .boundValue (.varchar owner), .explicit, fun v hv => by
      rw [← Option.some.inj hv]; rfl⟩,
    ⟨ascii "score", .double, .boundValue (.double score), .explicit, fun v hv => by
      rw [← Option.some.inj hv]; rfl⟩]

/-- No predicate is sent. -/
def nothingSent : PredicatePlanDecision :=
  ⟨.trueForBaseDomain, .unsupported, .completeDuckdbFilter, .duckdb, .none, none, .unsupported,
    .noRemoteCandidate, reasonText .noRemoteCandidate⟩

/-- The path and the query values of a plan. -/
def wireOf [CLibrary] (inputs : ResolvedRelationInputs) : Option (Bytes × List (Scalar × Bytes)) :=
  match buildRestOperation issues ownerPosts inputs nothingSent with
  | .error _ => none
  | .ok planned =>
    some (planned.path,
      planned.queryBindings.map fun binding => (binding.fields.value, binding.fields.encodedValue))

theorem planned_of_wireOf [CLibrary] {inputs : ResolvedRelationInputs} {path : Bytes}
    {sent : List (Scalar × Bytes)} (h : wireOf inputs = some (path, sent)) :
    ∃ planned, buildRestOperation issues ownerPosts inputs nothingSent = .ok planned ∧
      planned.path = path ∧
      ∀ pair ∈ sent, ∃ binding ∈ planned.queryBindings,
        binding.fields.value = pair.1 ∧ binding.fields.encodedValue = pair.2 := by
  unfold wireOf at h
  split at h
  · cases h
  · rename_i planned hplanned
    obtain ⟨hpath, hsent⟩ := Prod.mk.inj (Option.some.inj h)
    refine ⟨planned, hplanned, hpath, fun pair hpair => ?_⟩
    rw [← hsent] at hpair
    obtain ⟨binding, hbinding, rfl⟩ := List.mem_map.mp hpair
    exact ⟨binding, hbinding, rfl, rfl⟩

/-- An owner with a space is one segment. -/
theorem structural_path_agreement_space :
    ∃ planned, buildRestOperation issues ownerPosts (ownerInputs (ascii "a b") half) nothingSent =
        .ok planned ∧
      planned.path = ascii "/repos/a%20b/posts" ∧
      tryCopyPermanentPath planned = .ok (some planned.path) ∧
      (requestSegments planned.path).length = 3 := by
  obtain ⟨planned, hplanned, hpath, -⟩ := planned_of_wireOf
    (show wireOf (ownerInputs (ascii "a b") half) =
      some (ascii "/repos/a%20b/posts", [(.double half, ascii "0.5")]) by decide +kernel)
  obtain ⟨hcopied, -, -, -, hlength, -⟩ := structural_path_agreement issues ownerPosts
    ownerPostsRest (ownerInputs (ascii "a b") half) nothingSent planned rfl (by decide)
    (by decide) hplanned
  exact ⟨planned, hplanned, hpath, hcopied, hlength⟩

/-- `0.5` decodes to itself. -/
theorem query_value_round_trip_half :
    ∃ planned, buildRestOperation issues ownerPosts (ownerInputs (ascii "a") half) nothingSent =
        .ok planned ∧
      ∃ binding ∈ planned.queryBindings, binding.fields.value = .double half ∧
        isSafeEncodedQueryValue binding.fields.encodedValue = true ∧
        plainText (.double half) = .ok (formEscape.decode binding.fields.encodedValue) := by
  obtain ⟨planned, hplanned, -, hsent⟩ := planned_of_wireOf
    (show wireOf (ownerInputs (ascii "a") half) =
      some (ascii "/repos/a/posts", [(.double half, ascii "0.5")]) by decide +kernel)
  obtain ⟨binding, hbinding, hvalue, -⟩ := hsent _ List.mem_cons_self
  obtain ⟨-, -, hplan⟩ := query_value_round_trip documented_sampleLibrary
  have hfinite : isFiniteScalar binding.fields.value = true := by
    rw [hvalue]
    decide
  obtain ⟨-, -, hsafe, -, -, hdecode⟩ :=
    hplan issues ownerPosts (ownerInputs (ascii "a") half) nothingSent planned hplanned binding
      hbinding hfinite
  rw [hvalue] at hdecode
  refine ⟨planned, hplanned, binding, hbinding, hvalue, hsafe, hdecode.mpr ?_⟩
  rintro _ ⟨⟩
  decide +kernel

/-- `1e22` is sent as `1e+22`, which a form decoder reads as `1e 22`. -/
theorem huge_score_read_with_space :
    ∃ planned,
      buildRestOperation issues ownerPosts (ownerInputs (ascii "a") hugeScore) nothingSent =
        .ok planned ∧
      ∃ binding ∈ planned.queryBindings, binding.fields.value = .double hugeScore ∧
        hugeScore.isFinite = true ∧ binding.fields.encodedValue = ascii "1e+22" ∧
        formEscape.decode binding.fields.encodedValue = ascii "1e 22" ∧
        plainText (.double hugeScore) = .ok (ascii "1e+22") := by
  obtain ⟨planned, hplanned, -, hsent⟩ := planned_of_wireOf
    (show wireOf (ownerInputs (ascii "a") hugeScore) =
      some (ascii "/repos/a/posts", [(.double hugeScore, ascii "1e+22")]) by decide +kernel)
  obtain ⟨binding, hbinding, hvalue, hencoded⟩ := hsent _ List.mem_cons_self
  refine ⟨planned, hplanned, binding, hbinding, hvalue, by decide, hencoded, ?_,
    by decide +kernel⟩
  rw [hencoded]
  decide +kernel

/-- The three encoders write `0.5` alike. -/
theorem query_encoders_agree_half :
    encodeCompiledQueryScalar (.ofScalar (.double half)) = .ok (ascii "0.5") ∧
      encode (.double half) = .ok (ascii "0.5") ∧
      queryText (.double half) = .ok (some (ascii "0.5")) := by
  obtain ⟨declared, sent, hdeclared, hsent, hquery, hagree, -⟩ :=
    query_encoders_agree documented_sampleLibrary (.double half) ⟨rfl, by decide⟩
  obtain rfl := hagree.mpr (by decide +kernel)
  have hvalue : encode (.double half) = .ok (ascii "0.5") := by decide +kernel
  obtain rfl := Except.ok.inj (hvalue.symm.trans hsent)
  exact ⟨hdeclared, hsent, hquery⟩

/-- A fixed `1e22` is declared as `1e%2B22`; the planner and Runtime have `1e+22`,
and neither takes the declared field. -/
theorem huge_fixed_field_refused :
    encodeCompiledQueryScalar (.ofScalar (.double hugeScore)) = .ok (ascii "1e%2B22") ∧
      encode (.double hugeScore) = .ok (ascii "1e+22") ∧
      queryText (.double hugeScore) = .ok (some (ascii "1e+22")) ∧
      QueryBindingFields.check
          ⟨ascii "score", .fixed, [], .double hugeScore, ascii "1e%2B22"⟩ =
        .error (invalidArgument
          "planned REST query binding bytes do not match its decoded typed payload") ∧
      hasCanonicalBinding ⟨ascii "score", .fixed, [], .double hugeScore, ascii "1e%2B22"⟩
        RestConditionalBindingAuthority.none false = .ok none := by
  refine ⟨?_, ?_, ?_, ?_, ?_⟩ <;> decide +kernel

end Example

end Cuac.Runtime

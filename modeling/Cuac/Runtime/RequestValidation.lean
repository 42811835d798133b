import Cuac.Semantics.RestOperationPlanner

/-!
# Runtime's request validation

The predicates by which Runtime accepts the parts of a request target. They are
written apart from the encoders of the planner: a path is walked byte by byte, a
query value is decoded first and looked at afterwards.

Main results:

* `isValidUtf8_of_decodes` — Runtime's UTF-8 validator accepts what the planner's
  decoder does.
* `isSafeEncodedQueryValue_formEncode` — the form encoding of a control-free text
  is a safe query value.
* `isSafeRequestPath_joined` — a path joined from safe segments is safe.
-/

namespace Cuac.Runtime

open Cuac.Lib Cuac.Semantics

-- ---------------------------------------------------------------------------
-- Names and texts
-- ---------------------------------------------------------------------------

/-- The lead bytes by their high bits; the range check refuses the illegal ones. -/
def leadByMask (first : UInt8) : Option Utf8.Lead :=
  if first &&& 0xE0 == 0xC0 then some ⟨1, (first &&& 0x1F).toNat, 0x80⟩
  else if first &&& 0xF0 == 0xE0 then some ⟨2, (first &&& 0x0F).toNat, 0x800⟩
  else if first &&& 0xF8 == 0xF0 then some ⟨3, (first &&& 0x07).toNat, 0x10000⟩
  else none

def isValidUtf8 (value : Bytes) : Bool :=
  (Utf8.scan leadByMask (fun _ => ()) (fun _ => .ok ()) value).isOk

/-- `IsSafeLogicalId` -/
def isSafeLogicalId (name : Bytes) : Bool :=
  !name.isEmpty && name.length ≤ 63 && name.head?.any isLower &&
    name.tail.all fun b => isLower b || isDigit b || b == byte '_'

def isSafeEncodedQueryName (name : Bytes) : Bool :=
  !name.isEmpty && name.length ≤ 63 && name.all isUnreserved

/-- Escapes are written with capitals. -/
def upperHexValue (b : UInt8) : Option UInt8 :=
  if byte '0' ≤ b && b ≤ byte '9' then some (b - byte '0')
  else if byte 'A' ≤ b && b ≤ byte 'F' then some (b - byte 'A' + 10)
  else none

-- ---------------------------------------------------------------------------
-- Query values
-- ---------------------------------------------------------------------------

/-- A byte that has no business in an escape of a query value. -/
def isNeedlessEscape (b : UInt8) : Bool :=
  isUnreserved b || b == 0x20 || b < 0x20 || b == 0x7F

/-- The decoding loop of `IsSafeEncodedQueryValue`. -/
def decodeQueryValue : Bytes → Option Bytes
  | [] => some []
  | b :: rest =>
    if isUnreserved b then (decodeQueryValue rest).map (b :: ·)
    else if b == byte '+' then (decodeQueryValue rest).map (0x20 :: ·)
    else if b == percent then
      match rest with
      | high :: low :: more =>
        match upperHexValue high, upperHexValue low with
        | some h, some l =>
          if isNeedlessEscape ((h <<< 4) ||| l) then none
          else (decodeQueryValue more).map (((h <<< 4) ||| l) :: ·)
        | _, _ => none
      | _ => none
    else none

/-- A C1 control, as its two bytes. -/
def hasC1Control : Bytes → Bool
  | first :: second :: rest =>
    (first == 0xC2 && 0x80 ≤ second && second ≤ 0x9F) || hasC1Control (second :: rest)
  | _ => false

def isSafeEncodedQueryValue (value : Bytes) : Bool :=
  value.length ≤ 8192 &&
    match decodeQueryValue value with
    | none => false
    | some decoded => isValidUtf8 decoded && !hasC1Control decoded

-- ---------------------------------------------------------------------------
-- Paths
-- ---------------------------------------------------------------------------

/-- A byte that may not hide in an escape of a path. -/
def isForbiddenPathEscape (b : UInt8) : Bool :=
  isUnreserved b || b < 0x20 || b == 0x7F || isPathSyntax b

/-- The test at the end of a segment. -/
def isSafeSegment (segment : Bytes) : Bool :=
  !segment.isEmpty && segment != dot && segment != dotDot

/-- The loop of `IsSafeRequestPath`; `segment` holds the bytes since the last
slash. -/
def isSafePathFrom (segment : Bytes) : Bytes → Bool
  | [] => isSafeSegment segment
  | b :: rest =>
    if b == byte '/' then isSafeSegment segment && isSafePathFrom [] rest
    else if isUnreserved b then isSafePathFrom (segment ++ [b]) rest
    else if b == percent then
      match rest with
      | high :: low :: more =>
        match upperHexValue high, upperHexValue low with
        | some h, some l =>
          !isForbiddenPathEscape ((h <<< 4) ||| l) &&
            isSafePathFrom (segment ++ [b, high, low]) more
        | _, _ => false
      | _ => false
    else false

def isSafeRequestPath (path : Bytes) : Bool :=
  path.length ≤ 2048 &&
    match path with
    | [] => false
    | first :: rest => first == byte '/' && (rest.isEmpty || isSafePathFrom [] rest)

-- ---------------------------------------------------------------------------
-- Texts that the planner lets through
-- ---------------------------------------------------------------------------

theorem leadByMask_of_leadByRange : ∀ b l, leadByRange b = some l → leadByMask b = some l := by
  intro b
  have hsame : ∀ b : UInt8, leadByRange b = none ∨ leadByRange b = leadByMask b :=
    forall_byte (by decide)
  intro l h
  rcases hsame b with hnone | hsome
  · rw [hnone] at h
    cases h
  · rw [← hsome, h]

theorem isValidUtf8_iff {value : Bytes} :
    isValidUtf8 value = true ↔ ∃ codes, Utf8.Decodes leadByMask value codes := by
  have hok : ∀ result : Except Unit Unit, result.isOk = true ↔ result = .ok () := by
    intro result
    cases result with
    | ok => exact ⟨fun _ => rfl, fun _ => rfl⟩
    | error => exact ⟨(fun h => nomatch h), fun h => nomatch h⟩
  rw [isValidUtf8, hok, Utf8.scan_eq_ok]
  simp

theorem isValidUtf8_of_decodes {value : Bytes} {codes : List Nat}
    (h : Utf8.Decodes leadByRange value codes) : isValidUtf8 value = true :=
  isValidUtf8_iff.mpr ⟨codes, h.mono leadByMask_of_leadByRange⟩

/-- Not a control byte; the bytes of the other controls are above. -/
def isPrintable (b : UInt8) : Bool := !(b < 0x20 || b == 0x7F)

theorem isPrintable_of_controlFree {value : Bytes} (h : ControlFree value) :
    ∀ b ∈ value, isPrintable b = true := by
  obtain ⟨codes, hdecodes, hcodes⟩ := h
  refine Utf8.forall_decodes hdecodes (fun b _ hmem => ?_) ?_
  · have hfree := hcodes _ hmem
    have hbyte : ∀ b : UInt8, Utf8.isControl b.toNat = false → isPrintable b = true :=
      forall_byte (by decide)
    exact hbyte b hfree
  · exact forall_byte (by decide)

theorem hasC1Control_cons {b : UInt8} {rest : Bytes} (hb : b ≠ 0xC2) :
    hasC1Control (b :: rest) = hasC1Control rest := by
  cases rest with
  | nil => rfl
  | cons c rest =>
    rw [hasC1Control, beq_false_of_ne hb]
    rfl

theorem hasC1Control_append {conts rest : Bytes} (h : ∀ b ∈ conts, b ≠ 0xC2) :
    hasC1Control (conts ++ rest) = hasC1Control rest := by
  induction conts with
  | nil => rfl
  | cons b conts ih =>
    rw [List.cons_append, hasC1Control_cons (h b List.mem_cons_self),
      ih fun c hc => h c (List.mem_cons_of_mem _ hc)]

/-- The two bytes of a C1 control stand next to each other only in its encoding. -/
theorem hasC1Control_of_controlFree {value : Bytes} (h : ControlFree value) :
    hasC1Control value = false := by
  obtain ⟨codes, hdecodes, hcodes⟩ := h
  induction hdecodes with
  | nil => rfl
  | @cons bytes rest codePoint codes hone _ ih =>
    have hrest := ih fun c hc => hcodes c (List.mem_cons_of_mem _ hc)
    obtain ⟨first, conts, rfl, hconts, hshape⟩ := Utf8.decodeOne_split hone
    have hcont : ∀ b ∈ conts, b ≠ 0xC2 := by
      intro b hb hbad
      have htest := hconts b hb
      rw [hbad] at htest
      cases htest
    by_cases hfirst : first = 0xC2
    · -- the lead of a C1 control has one continuation byte
      rcases hshape with ⟨hlow, -, -⟩ | ⟨-, lead, hlead, hlength, hcode, -⟩
      · rw [hfirst] at hlow
        exact absurd hlow (by decide)
      · rw [hfirst] at hlead
        obtain rfl := Option.some.inj hlead
        obtain ⟨second, rfl⟩ := List.length_eq_one_iff.mp hlength
        have hfree := hcodes codePoint List.mem_cons_self
        have hsecond : ∀ b : UInt8, Utf8.isControl (Utf8.push 2 b) = false →
            Utf8.isContinuation b = true → (0x80 ≤ b && b ≤ 0x9F) = false :=
          forall_byte (by decide)
        have hclear := hsecond second (by rw [hcode] at hfree; exact hfree)
          (hconts second List.mem_cons_self)
        show ((first == 0xC2 && 0x80 ≤ second && second ≤ 0x9F) ||
          hasC1Control (second :: rest)) = false
        rw [hasC1Control_cons (hcont second List.mem_cons_self), hrest, Bool.or_false,
          Bool.and_assoc, hclear, Bool.and_false]
    · rw [hasC1Control_cons hfirst, hasC1Control_append hcont, hrest]

/-- ASCII without controls is control-free. -/
theorem controlFree_of_ascii {value : Bytes}
    (h : ∀ b ∈ value, b ≤ 0x7F ∧ isPrintable b = true) : ControlFree value := by
  refine ⟨value.map UInt8.toNat, ?_, ?_⟩
  · induction value with
    | nil => exact .nil
    | cons b rest ih =>
      refine .cons ?_ (ih fun c hc => h c (List.mem_cons_of_mem _ hc))
      rw [Utf8.decodeOne, if_pos (h b List.mem_cons_self).1]
  · intro c hc
    obtain ⟨b, hb, rfl⟩ := List.mem_map.mp hc
    have hbyte : ∀ b : UInt8, b ≤ 0x7F → isPrintable b = true → Utf8.isControl b.toNat = false :=
      forall_byte (by decide)
    exact hbyte b (h b hb).1 (h b hb).2

-- ---------------------------------------------------------------------------
-- Query values
-- ---------------------------------------------------------------------------

/-- The two digits of an escaped byte, read back. -/
theorem upperHexValue_digits : ∀ b : UInt8,
    upperHexValue (highDigit b) = some ((b >>> 4) &&& 0x0F) ∧
      upperHexValue (lowDigit b) = some (b &&& 0x0F) ∧
      (((b >>> 4) &&& 0x0F) <<< 4 ||| (b &&& 0x0F)) = b :=
  forall_byte (by decide)

theorem decodeQueryValue_plain {b : UInt8} (h : isUnreserved b = true) (rest : Bytes) :
    decodeQueryValue (b :: rest) = (decodeQueryValue rest).map (b :: ·) := by
  conv_lhs => unfold decodeQueryValue
  rw [if_pos h]

theorem decodeQueryValue_plus (rest : Bytes) :
    decodeQueryValue (byte '+' :: rest) = (decodeQueryValue rest).map (0x20 :: ·) := by
  conv_lhs => unfold decodeQueryValue
  rw [if_neg (by decide), if_pos (by decide)]

/-- One byte of a form encoding, read back. -/
theorem decodeQueryValue_encodeByte {b : UInt8} (h : isPrintable b = true) (rest : Bytes) :
    decodeQueryValue (Connector.formEscape.encodeByte b ++ rest) =
      (decodeQueryValue rest).map (b :: ·) := by
  have hcode : ∀ b : UInt8, Connector.formEscape.code b =
      if isUnreserved b then some b else if b == 0x20 then some (byte '+') else none :=
    fun _ => rfl
  rw [Escape.encodeByte, hcode]
  by_cases hplain : isUnreserved b = true
  · rw [if_pos hplain]
    exact decodeQueryValue_plain hplain rest
  · rw [if_neg hplain]
    by_cases hspace : b = 0x20
    · subst hspace
      exact decodeQueryValue_plus rest
    · rw [if_neg (by simpa using hspace)]
      show decodeQueryValue (percent :: highDigit b :: lowDigit b :: rest) = _
      have hneeded : ∀ b : UInt8, isPrintable b = true → ¬isUnreserved b = true → b ≠ 0x20 →
          isNeedlessEscape b = false :=
        forall_byte (by decide)
      obtain ⟨hhigh, hlow, hjoin⟩ := upperHexValue_digits b
      conv_lhs => unfold decodeQueryValue
      rw [if_neg (by decide), if_neg (by decide), if_pos (by decide)]
      simp only [hhigh, hlow, hjoin, hneeded b h hplain hspace, Bool.false_eq_true, if_false]

/-- Runtime reads a form encoding of a text without control bytes back to the
text. -/
theorem decodeQueryValue_formEncode {value : Bytes} (h : ∀ b ∈ value, isPrintable b = true) :
    decodeQueryValue (formUrlEncode value) = some value := by
  unfold formUrlEncode
  induction value with
  | nil => rfl
  | cons b rest ih =>
    rw [Escape.encode_cons, decodeQueryValue_encodeByte (h b List.mem_cons_self),
      ih fun c hc => h c (List.mem_cons_of_mem _ hc)]
    rfl

theorem isSafeEncodedQueryValue_formEncode {value : Bytes} (h : ControlFree value)
    (hsize : (formUrlEncode value).length ≤ 8192) :
    isSafeEncodedQueryValue (formUrlEncode value) = true := by
  obtain ⟨codes, hdecodes, hcodes⟩ := h
  unfold isSafeEncodedQueryValue
  rw [decodeQueryValue_formEncode (isPrintable_of_controlFree ⟨codes, hdecodes, hcodes⟩)]
  simp only [isValidUtf8_of_decodes hdecodes, hasC1Control_of_controlFree ⟨codes, hdecodes, hcodes⟩,
    Bool.not_false, Bool.and_true, decide_eq_true_eq]
  exact hsize

/-- A text of unreserved bytes and plus signs, as numbers are written. -/
theorem isSafeEncodedQueryValue_verbatim {value : Bytes}
    (h : ∀ b ∈ value, isUnreserved b = true ∨ b = byte '+') (hsize : value.length ≤ 8192) :
    isSafeEncodedQueryValue value = true := by
  have hdecode : ∃ decoded, decodeQueryValue value = some decoded ∧
      ∀ b ∈ decoded, b ≤ 0x7F ∧ isPrintable b = true := by
    clear hsize
    induction value with
    | nil => exact ⟨[], rfl, fun b hb => nomatch hb⟩
    | cons b rest ih =>
      obtain ⟨decoded, hdecoded, hascii⟩ := ih fun c hc => h c (List.mem_cons_of_mem _ hc)
      have hbyte : ∀ b : UInt8, isUnreserved b = true → b ≤ 0x7F ∧ isPrintable b = true :=
        forall_byte (by decide)
      rcases h b List.mem_cons_self with hplain | rfl
      · refine ⟨b :: decoded, ?_, List.forall_mem_cons.mpr ⟨hbyte b hplain, hascii⟩⟩
        rw [decodeQueryValue_plain hplain, hdecoded]
        rfl
      · refine ⟨0x20 :: decoded, ?_, List.forall_mem_cons.mpr ⟨by decide, hascii⟩⟩
        rw [decodeQueryValue_plus, hdecoded]
        rfl
  obtain ⟨decoded, hdecoded, hascii⟩ := hdecode
  have hfree := controlFree_of_ascii hascii
  obtain ⟨codes, hdecodes, -⟩ := id hfree
  unfold isSafeEncodedQueryValue
  rw [hdecoded]
  simp only [isValidUtf8_of_decodes hdecodes, hasC1Control_of_controlFree hfree, Bool.not_false,
    Bool.and_true, decide_eq_true_eq]
  exact hsize

-- ---------------------------------------------------------------------------
-- Paths
-- ---------------------------------------------------------------------------

/-- A text that may stand, encoded, between two slashes. -/
structure SegmentText (text : Bytes) : Prop where
  nonempty : text ≠ []
  not_dot : text ≠ dot
  not_dotDot : text ≠ dotDot
  escapes : ∀ b ∈ text, isUnreserved b = true ∨ isForbiddenPathEscape b = false

theorem SegmentText.of_pathText {text : Bytes} (h : PathText text) : SegmentText text where
  nonempty := h.nonempty
  not_dot := h.not_dot
  not_dotDot := h.not_dotDot
  escapes b hb := by
    have hprintable := isPrintable_of_controlFree h.controlFree b hb
    have hbyte : ∀ b : UInt8, isPrintable b = true → isPathSyntax b = false →
        isUnreserved b = true ∨ isForbiddenPathEscape b = false :=
      forall_byte (by decide)
    exact hbyte b hprintable (h.plain b hb)

theorem SegmentText.of_literal {text : Bytes} (h : isLiteralPathSegment text = true) :
    SegmentText text := by
  simp only [isLiteralPathSegment, Bool.and_eq_true, Bool.not_eq_true', List.isEmpty_eq_false_iff,
    bne_iff_ne, List.all_eq_true] at h
  obtain ⟨⟨⟨⟨hne, -⟩, hdot⟩, hdotDot⟩, hall⟩ := h
  exact ⟨hne, hdot, hdotDot, fun b hb => Or.inl (hall b hb)⟩

theorem pathEncode_dot : percentEncodePathSegment dot = dot := by decide

theorem pathEncode_dotDot : percentEncodePathSegment dotDot = dotDot := by decide

theorem isSafeSegment_encode {text : Bytes} (h : SegmentText text) :
    isSafeSegment (percentEncodePathSegment text) = true := by
  have hne : percentEncodePathSegment text ≠ [] := Escape.encode_ne_nil _ h.nonempty
  have hdot : percentEncodePathSegment text ≠ dot := by
    rw [← pathEncode_dot]
    exact fun hsame => h.not_dot (Escape.encode_injective _ hsame)
  have hdotDot : percentEncodePathSegment text ≠ dotDot := by
    rw [← pathEncode_dotDot]
    exact fun hsame => h.not_dotDot (Escape.encode_injective _ hsame)
  simp [isSafeSegment, hne, hdot, hdotDot]

theorem isSafePathFrom_nil (segment : Bytes) :
    isSafePathFrom segment [] = isSafeSegment segment := rfl

theorem isSafePathFrom_plain {b : UInt8} (h : isUnreserved b = true) (segment rest : Bytes) :
    isSafePathFrom segment (b :: rest) = isSafePathFrom (segment ++ [b]) rest := by
  have hslash : ∀ b : UInt8, isUnreserved b = true → ¬(b == byte '/') = true :=
    forall_byte (by decide)
  conv_lhs => unfold isSafePathFrom
  rw [if_neg (hslash b h), if_pos h]

theorem isSafePathFrom_slash (segment rest : Bytes) :
    isSafePathFrom segment (byte '/' :: rest) =
      (isSafeSegment segment && isSafePathFrom [] rest) := by
  conv_lhs => unfold isSafePathFrom
  rw [if_pos (by decide)]

theorem isSafePathFrom_encodeByte {b : UInt8}
    (h : isUnreserved b = true ∨ isForbiddenPathEscape b = false) (segment rest : Bytes) :
    isSafePathFrom segment (Connector.pathEscape.encodeByte b ++ rest) =
      isSafePathFrom (segment ++ Connector.pathEscape.encodeByte b) rest := by
  have hcode : ∀ b : UInt8, Connector.pathEscape.code b =
      if isUnreserved b then some b else none := fun _ => rfl
  rw [Escape.encodeByte, hcode]
  by_cases hplain : isUnreserved b = true
  · rw [if_pos hplain]
    exact isSafePathFrom_plain hplain segment rest
  · rw [if_neg hplain]
    have hallowed := h.resolve_left hplain
    obtain ⟨hhigh, hlow, hjoin⟩ := upperHexValue_digits b
    show isSafePathFrom segment (percent :: highDigit b :: lowDigit b :: rest) = _
    conv_lhs => unfold isSafePathFrom
    rw [if_neg (by decide), if_neg (by decide), if_pos (by decide)]
    simp only [hhigh, hlow, hjoin, hallowed, Bool.not_false, Bool.true_and]

theorem isSafePathFrom_encode {text : Bytes}
    (h : ∀ b ∈ text, isUnreserved b = true ∨ isForbiddenPathEscape b = false)
    (segment rest : Bytes) :
    isSafePathFrom segment (percentEncodePathSegment text ++ rest) =
      isSafePathFrom (segment ++ percentEncodePathSegment text) rest := by
  unfold percentEncodePathSegment
  induction text generalizing segment with
  | nil => simp
  | cons b text ih =>
    rw [Escape.encode_cons, List.append_assoc,
      isSafePathFrom_encodeByte (h b List.mem_cons_self),
      ih (fun c hc => h c (List.mem_cons_of_mem _ hc)), List.append_assoc]

/-- A path joined from encoded segments passes the walk. -/
theorem isSafePathFrom_joined {first : Bytes} {texts : List Bytes} (hfirst : SegmentText first)
    (hrest : ∀ text ∈ texts, SegmentText text) :
    isSafePathFrom [] (percentEncodePathSegment first ++
      texts.flatMap fun text => byte '/' :: percentEncodePathSegment text) = true := by
  induction texts generalizing first with
  | nil =>
    rw [List.flatMap_nil, isSafePathFrom_encode hfirst.escapes, isSafePathFrom_nil, List.nil_append]
    exact isSafeSegment_encode hfirst
  | cons second rest ih =>
    have htail := ih (hrest second List.mem_cons_self)
      fun text htext => hrest text (List.mem_cons_of_mem _ htext)
    rw [List.flatMap_cons, isSafePathFrom_encode hfirst.escapes, List.nil_append,
      List.cons_append, isSafePathFrom_slash, isSafeSegment_encode hfirst, htail]
    rfl

theorem isSafeRequestPath_joined {texts : List Bytes}
    (h : ∀ text ∈ texts, SegmentText text)
    (hsize : (joinPath (texts.map percentEncodePathSegment)).length ≤ 2048) :
    isSafeRequestPath (joinPath (texts.map percentEncodePathSegment)) = true := by
  unfold isSafeRequestPath
  rw [decide_eq_true hsize, Bool.true_and]
  cases texts with
  | nil => decide
  | cons first rest =>
    have hpath := isSafePathFrom_joined (h first List.mem_cons_self)
      fun text htext => h text (List.mem_cons_of_mem _ htext)
    show (byte '/' == byte '/' && (_ || isSafePathFrom [] (percentEncodePathSegment first ++
      (rest.map percentEncodePathSegment).flatMap fun segment => byte '/' :: segment))) = true
    rw [List.flatMap_map, hpath, Bool.or_true, Bool.and_true]
    decide

end Cuac.Runtime

import Cuac.Connector.YamlAcceptance

/-!
# Connector — YAML comments on one line

The inline parser reads a text with a comment behind it as it reads the text alone,
up to where the text ends inside a double-quoted scalar. A comment starts at a `#`
behind a space, so a plain scalar ends there; no other part of a value goes on with
a `#`.

Main results:

* `parseInline_comment` — a value with a comment and without.
* `endsQuoted_of_parseInline` — whether a text ends inside a double-quoted scalar does
  not depend on the limits.
-/

namespace Cuac.Connector.FailsafeYaml

open Cuac.Lib Cuac.Lib.Json

-- ---------------------------------------------------------------------------
-- Where an error is
-- ---------------------------------------------------------------------------

section Places

variable {limits : Limits} {E : Stop → Prop} {place place' : Place}

/-- A check decides the same wherever its error is. -/
theorem alike_check {α : Type} {p : Prop} [Decidable p] {code : ErrorCode} {message : String}
    {a : α} :
    Alike Eq E (if p then fail code message place else .ok a : Result α)
      (if p then fail code message place' else .ok a) := by
  split
  · exact .error
  · exact .ok rfl

theorem checkScalarSize_alike (size : Nat) :
    Alike Eq E (checkScalarSize limits place size) (checkScalarSize limits place' size) :=
  alike_check

theorem checkScalarAppend_alike (retained additional : Nat) :
    Alike Eq E (checkScalarAppend limits place retained additional)
      (checkScalarAppend limits place' retained additional) :=
  alike_check

theorem checkEntry_alike (retained : Nat) :
    Alike Eq E (checkEntry limits place retained) (checkEntry limits place' retained) :=
  alike_check

theorem consumeNode_alike (nodes : Nat) :
    Alike Eq E (consumeNode limits place nodes) (consumeNode limits place' nodes) :=
  alike_check

theorem reserveContainer_alike (depth nodes : Nat) :
    Alike Eq E (reserveContainer limits place depth nodes)
      (reserveContainer limits place' depth nodes) :=
  Alike.bind alike_check fun _ _ _ => consumeNode_alike nodes

theorem admitKey_alike (keys : List Bytes) (key : Bytes) (nodes : Nat) :
    Alike Eq E (admitKey limits place keys key nodes) (admitKey limits place' keys key nodes) := by
  refine Alike.bind Alike.throwIf fun _ _ _ => ?_
  rw [consumeKey, consumeKey]
  split
  · exact .error
  · exact consumeNode_alike nodes

end Places

-- ---------------------------------------------------------------------------
-- Texts before a comment
-- ---------------------------------------------------------------------------

/-- Nothing, or a text whose last byte is a space. -/
def Trailing (text : Bytes) : Prop :=
  ∀ b, text.getLast? = some b → b = space

/-- Nothing trails. -/
theorem Trailing.nil : Trailing [] := by
  intro b hb
  cases hb

/-- What trails is still a rest of spaces in each of its suffixes. -/
theorem Trailing.suffix {text rest : Bytes} (h : Trailing text) (hsuffix : rest <:+ text) :
    Trailing rest := by
  obtain ⟨before, rfl⟩ := hsuffix
  intro b hb
  refine h b ?_
  rw [List.getLast?_append, hb]
  rfl

theorem Trailing.tail {b : UInt8} {rest : Bytes} (h : Trailing (b :: rest)) : Trailing rest :=
  h.suffix (List.suffix_cons b rest)

/-- The last byte in front of a comment is a space. -/
theorem Trailing.singleton {b : UInt8} (h : Trailing [b]) : b = space :=
  h b rfl

/-- Skipping spaces keeps the space in front of the comment, or leaves nothing. -/
theorem Trailing.skipSpaces {text : Bytes} (h : Trailing text) :
    Trailing (FailsafeYaml.skipSpaces text) :=
  h.suffix (List.dropWhile_suffix isSpace)

/-- What is left of a text with a comment behind it, and of the text alone. -/
def Left (comment rest rest' : Bytes) : Prop :=
  rest = rest' ++ comment ∧ Trailing rest'

section Inline

variable {body : Bytes} {limits : Limits} {E : Stop → Prop} {place place' : Place}

/-- Skipping spaces in front of a comment leaves the comment. -/
theorem skipSpaces_comment (text : Bytes) :
    skipSpaces (text ++ hash :: body) = skipSpaces text ++ hash :: body := by
  unfold skipSpaces
  rw [List.dropWhile_append]
  split
  · rename_i hnil
    rw [List.isEmpty_iff.mp hnil, List.nil_append, List.dropWhile_cons, if_neg (by decide)]
  · rfl

/-- A line is as blank with the comment as it is without. -/
theorem isBlank_comment (text : Bytes) : isBlank (text ++ hash :: body) = isBlank text := by
  cases text with
  | nil => rfl
  | cons b text => rfl

/-- Only a `#` starts a comment. -/
theorem head_comment {b : UInt8} (hb : b ≠ hash) (text : Bytes) :
    ((text ++ hash :: body).head? == some b) = (text.head? == some b) := by
  cases text with
  | nil =>
    have hne : (hash == b) = false := by
      rw [beq_eq_false_iff_ne]
      exact hb.symm
    exact hne
  | cons c text => rfl

theorem tail_comment {b : UInt8} {text : Bytes} (h : (text.head? == some b) = true) :
    (text ++ hash :: body).tail = text.tail ++ hash :: body := by
  cases text with
  | nil => cases h
  | cons c text => rfl

/-- The end of the text and the start of a comment are one to the parser. -/
theorem atEndOrComment_comment (text : Bytes) :
    atEndOrComment (text ++ hash :: body) = atEndOrComment text := by
  rw [atEndOrComment, atEndOrComment, skipSpaces_comment, isBlank_comment]

/-- A required byte other than `#` is found in both texts or in neither. -/
theorem require_comment {expected : UInt8} (hexpected : expected ≠ hash) (message : String)
    {text : Bytes} (h : Trailing text) :
    Alike (Left (hash :: body)) E (require expected message (text ++ hash :: body))
      (require expected message text) := by
  cases text with
  | nil =>
    rw [List.nil_append, require, require, if_pos (by simpa using hexpected.symm)]
    exact .error
  | cons b text =>
    rw [List.cons_append, require, require]
    split
    · exact .error
    · exact .ok ⟨rfl, h.tail⟩

-- ---------------------------------------------------------------------------
-- Scalars
-- ---------------------------------------------------------------------------

/-- The same value is read, and the comment stays behind what is left. -/
def SameScalar (comment : Bytes) (read read' : Bytes × Bytes) : Prop :=
  read.1 = read'.1 ∧ Left comment read.2 read'.2

/-- Hexadecimal digits are read alike: neither `#` nor the space in front of it is one. -/
theorem hexEscapeFrom_comment {count code : Nat} {text : Bytes} (h : Trailing text) :
    Alike (fun read read' => read.1 = read'.1 ∧ Left (hash :: body) read.2 read'.2) E
      (hexEscapeFrom place count code (text ++ hash :: body))
      (hexEscapeFrom place' count code text) := by
  induction count generalizing code text with
  | zero => exact .ok ⟨rfl, rfl, h⟩
  | succ count ih =>
    cases text with
    | nil =>
      have hnone : hexValue hash = none := by decide
      rw [List.nil_append, hexEscapeFrom, hexEscapeFrom, hnone]
      exact .error
    | cons digit text =>
      rw [List.cons_append, hexEscapeFrom, hexEscapeFrom]
      split
      · exact ih h.tail
      · exact .error

/-- Too few digits are an error in the text without the comment as well. -/
theorem hexEscapeFrom_short {count code : Nat} {text : Bytes} (h : text.length < count) :
    ∃ e, hexEscapeFrom place count code text = .error e := by
  induction count generalizing code text with
  | zero => omega
  | succ count ih =>
    cases text with
    | nil => exact ⟨_, rfl⟩
    | cons digit text =>
      rw [hexEscapeFrom]
      split
      · exact ih (Nat.lt_of_succ_lt_succ h)
      · exact ⟨_, rfl⟩

/-- A code unit is read alike with and without the comment. -/
theorem readHexEscape_comment {text : Bytes} (h : Trailing text) :
    Alike (fun read read' => read.1 = read'.1 ∧ Left (hash :: body) read.2 read'.2) E
      (readHexEscape place (text ++ hash :: body)) (readHexEscape place' text) := by
  have hfrom : Alike (fun read read' => read.1 = read'.1 ∧ Left (hash :: body) read.2 read'.2)
      (fun _ => False) (hexEscapeFrom place 4 0 (text ++ hash :: body))
      (hexEscapeFrom place' 4 0 text) :=
    hexEscapeFrom_comment h
  rw [readHexEscape, readHexEscape]
  by_cases hshort : text.length < 4
  · -- the comment does not complete the digits
    obtain ⟨e, he⟩ := @hexEscapeFrom_short place' 4 0 text hshort
    rw [he] at hfrom
    obtain ⟨e', he'⟩ := hfrom.resolve_left id
    rw [if_pos hshort, he']
    split
    · exact .error
    · exact .error
  · rw [if_neg hshort, if_neg (by rw [List.length_append]; omega)]
    exact hexEscapeFrom_comment h

/-- A code point is read alike with and without the comment. -/
theorem readUnicodeEscape_comment {text : Bytes} (h : Trailing text) :
    Alike (fun read read' => read.1 = read'.1 ∧ Left (hash :: body) read.2 read'.2) E
      (readUnicodeEscape place (text ++ hash :: body)) (readUnicodeEscape place' text) := by
  refine Alike.bind (readHexEscape_comment h) ?_
  rintro ⟨code, rest⟩ ⟨code', rest'⟩ ⟨hcode, hrest, htrailing⟩
  dsimp only at hcode hrest htrailing ⊢
  subst hcode hrest
  split
  · match rest', htrailing with
    | [], _ =>
      cases body with
      | nil => exact .error
      | cons c body => exact .error
    | [b], htrailing =>
      rw [htrailing.singleton]
      exact .error
    | b :: c :: rest', htrailing =>
      dsimp only [List.cons_append]
      split
      · exact .error
      refine Alike.bind (readHexEscape_comment htrailing.tail.tail) ?_
      rintro ⟨low, last⟩ ⟨low', last'⟩ ⟨hlow, hlast⟩
      dsimp only at hlow hlast ⊢
      subst hlow
      split
      · exact .error
      · exact .ok ⟨rfl, hlast⟩
  · split
    · exact .error
    · exact .ok ⟨rfl, rfl, htrailing⟩

/-- An escape is read alike with and without the comment. -/
theorem readEscape_comment {escape : UInt8} {text : Bytes} (h : Trailing text) :
    Alike (SameScalar (hash :: body)) E (readEscape place escape (text ++ hash :: body))
      (readEscape place' escape text) := by
  unfold readEscape
  repeat' split
  all_goals first
    | exact .ok ⟨rfl, rfl, h⟩
    | exact .error
    | skip
  refine Alike.bind (readUnicodeEscape_comment h) ?_
  rintro ⟨code, rest⟩ ⟨code', rest'⟩ ⟨hcode, hrest⟩
  dsimp only at hcode hrest ⊢
  subst hcode
  exact .ok ⟨rfl, hrest⟩

/-- The error of a text that ends inside a double-quoted scalar. -/
def isOpen : Stop → Bool
  | .thrown error => error.message == ascii "double-quoted scalar is not terminated"
  | .running => false

def IsOpen (stop : Stop) : Prop :=
  isOpen stop = true

theorem isOpen_notTerminated : IsOpen (notTerminated place) :=
  beq_self_eq_true _

/-- A text that ends inside the scalar is the exception: the scalar may end in the
comment. -/
theorem quotedLoop_comment {turns turns' : Nat} (value : Bytes) {text : Bytes} (h : Trailing text)
    (hturns : (text ++ hash :: body).length ≤ turns) (hturns' : text.length ≤ turns') :
    Alike (SameScalar (hash :: body)) IsOpen
      (quotedLoop limits place turns value (text ++ hash :: body))
      (quotedLoop limits place' turns' value text) := by
  induction turns' generalizing turns value text with
  | zero =>
    obtain rfl := List.length_eq_zero_iff.mp (Nat.le_zero.mp hturns')
    exact .exempt isOpen_notTerminated
  | succ turns' ih =>
    cases text with
    | nil => exact .exempt isOpen_notTerminated
    | cons character text =>
      rw [List.cons_append, List.length_cons] at hturns
      rw [List.length_cons] at hturns'
      cases turns with
      | zero => omega
      | succ turns =>
        rw [List.cons_append]
        unfold quotedLoop
        split
        · exact Alike.bind (checkScalarSize_alike _) fun _ _ _ => .ok ⟨rfl, rfl, h.tail⟩
        split
        · exact .error
        split
        · refine Alike.bind (checkScalarAppend_alike _ _) fun _ _ _ => ?_
          exact ih _ h.tail (by omega) (by omega)
        · rename_i hslash
          have hslash : character = backslash := by simpa using hslash
          cases text with
          | nil =>
            rw [h.singleton] at hslash
            exact absurd hslash (by decide)
          | cons escape text =>
            dsimp only [List.cons_append]
            simp only [List.length_cons, List.length_append, List.cons_append] at hturns hturns'
            have hends := @readEscape_ends place escape (text ++ hash :: body)
            have hread := (readEscape_comment (E := IsOpen) h.tail.tail).and hends
              (@readEscape_ends place' escape text)
            refine Alike.bind hread ?_
            rintro ⟨piece, rest⟩ ⟨piece', rest'⟩ ⟨⟨hpiece, hrest, htrailing⟩, hlength, hlength'⟩
            dsimp only at hpiece hrest hlength hlength' ⊢
            subst hpiece hrest
            refine Alike.bind (checkScalarAppend_alike _ _) fun _ _ _ => ?_
            simp only [List.length_append, List.length_cons] at hlength
            exact ih _ htrailing (by simp only [List.length_append, List.length_cons]; omega)
              (by omega)

/-- A quoted scalar is read alike unless it is open where the comment would start. -/
theorem parseDoubleQuotedScalar_comment {text : Bytes} (h : Trailing text) (hne : text ≠ []) :
    Alike (SameScalar (hash :: body)) IsOpen
      (parseDoubleQuotedScalar limits (text ++ hash :: body))
      (parseDoubleQuotedScalar limits text) := by
  obtain ⟨b, rest, rfl⟩ := List.exists_cons_of_ne_nil hne
  rw [List.cons_append, parseDoubleQuotedScalar, parseDoubleQuotedScalar]
  split
  · exact .error
  · exact quotedLoop_comment [] h.tail (Nat.le_refl _) (Nat.le_refl _)

/-- A plain scalar ends where the comment starts, if not before. -/
theorem scanPlain_comment (mappingKey flowContext : Bool) {fresh : Bool} {text : Bytes}
    (h : Trailing text) (hfresh : text = [] → fresh = true) :
    scanPlain mappingKey flowContext fresh (text ++ hash :: body) =
      ((scanPlain mappingKey flowContext fresh text).1,
        (scanPlain mappingKey flowContext fresh text).2 ++ hash :: body) := by
  induction text generalizing fresh with
  | nil =>
    obtain rfl := hfresh rfl
    have hflow : (hash == byte ',' || hash == byte ']' || hash == byte '}') = false := by decide
    have hcolon : (hash == byte ':') = false := by decide
    rw [List.nil_append, scanPlain, scanPlain, hflow, Bool.and_false, hcolon, Bool.and_false]
    rfl
  | cons character text ih =>
    have hnext : text = [] → isSpace character = true := by
      rintro rfl
      rw [h.singleton]
      rfl
    have htail := ih h.tail hnext
    rw [List.cons_append]
    unfold scanPlain
    split
    · rfl
    split
    · rfl
    split
    · rfl
    · rw [htail]

/-- A plain scalar ends in front of a comment as it ends at the end of the text. -/
theorem parsePlainScalar_comment (mappingKey flowContext : Bool) {text : Bytes}
    (h : Trailing text) :
    Alike (SameScalar (hash :: body)) E
      (parsePlainScalar limits mappingKey flowContext (text ++ hash :: body))
      (parsePlainScalar limits mappingKey flowContext text) := by
  have hscan : scanPlain mappingKey flowContext true (text ++ hash :: body) =
      ((scanPlain mappingKey flowContext true text).1,
        (scanPlain mappingKey flowContext true text).2 ++ hash :: body) :=
    scanPlain_comment mappingKey flowContext h fun _ => rfl
  have hsplit := scanPlain_append mappingKey flowContext true text
  cases text with
  | nil =>
    rw [List.nil_append] at hscan ⊢
    rw [parsePlainScalar, parsePlainScalar, hscan, if_neg (by decide)]
    exact .error
  | cons first text =>
    rw [List.cons_append] at hscan ⊢
    rw [parsePlainScalar, parsePlainScalar]
    split
    · exact .error
    rw [hscan]
    dsimp only
    split
    · exact .error
    refine Alike.bind (checkScalarSize_alike _) fun _ _ _ => .ok ⟨rfl, rfl, ?_⟩
    exact h.suffix ⟨_, hsplit⟩

/-- A key is read alike unless its quotes are open where the comment would start. -/
theorem parseMappingKey_comment {text : Bytes} (h : Trailing text) :
    Alike (SameScalar (hash :: body)) IsOpen
      (parseMappingKey limits (text ++ hash :: body)) (parseMappingKey limits text) := by
  have hhead := @head_comment body quote (by decide) (skipSpaces text)
  rw [parseMappingKey, parseMappingKey, skipSpaces_comment, hhead]
  split
  · rename_i hquote
    refine parseDoubleQuotedScalar_comment h.skipSpaces ?_
    intro hnil
    rw [hnil] at hquote
    cases hquote
  · exact parsePlainScalar_comment true false h.skipSpaces

-- ---------------------------------------------------------------------------
-- Values
-- ---------------------------------------------------------------------------

/-- The same tree is read at the same charge, and the comment stays behind what is
left. -/
def SameValue {α : Type} (comment : Bytes) (read read' : α × Nat × Bytes) : Prop :=
  read.1 = read'.1 ∧ read.2.1 = read'.2.1 ∧ Left comment read.2.2 read'.2.2

/-- Two parsers of values, one for the text with the comment. -/
structure ValueParser.Alike (limits : Limits) (comment : Bytes) (bound bound' : Nat)
    (value value' : ValueParser) : Prop where
  ends : value.Ends limits bound
  ends' : value'.Ends limits bound'
  alike : ∀ depth nodes text, Trailing text → (text ++ comment).length < bound →
    text.length < bound' →
    Lib.Alike (SameValue comment) IsOpen (value depth nodes (text ++ comment))
      (value' depth nodes text)

theorem require_read {expected : UInt8} (hexpected : expected ≠ hash) (message : String)
    {text : Bytes} (h : Trailing text) :
    Alike (fun rest rest' => Left (hash :: body) rest rest' ∧ rest'.length < text.length)
      IsOpen (require expected message (text ++ hash :: body))
      (require expected message text) := by
  refine ((require_comment hexpected message h).and (require_ends _ _ _)
    (require_ends _ _ _)).mono ?_ fun _ _ he => he
  rintro rest rest' ⟨hleft, -, hlength⟩
  exact ⟨hleft, hlength⟩

theorem parseMappingKey_read {text : Bytes} (h : Trailing text) :
    Alike (fun read read' => SameScalar (hash :: body) read read' ∧ read'.2.length < text.length)
      IsOpen (parseMappingKey limits (text ++ hash :: body))
      (parseMappingKey limits text) := by
  refine ((parseMappingKey_comment h).and (parseMappingKey_ends _)
    (parseMappingKey_ends _)).mono ?_ fun _ _ he => he
  rintro read read' ⟨hsame, -, hends⟩
  exact ⟨hsame, hends.2⟩

section Flow

variable {value value' : ValueParser} {bound bound' depth nodes : Nat}

/-- A value, with how much less is left after it. -/
theorem ValueParser.Alike.read (h : value.Alike limits (hash :: body) bound bound' value')
    {text : Bytes} (htext : Trailing text) (hbound : (text ++ hash :: body).length < bound)
    (hbound' : text.length < bound') (depth nodes : Nat) :
    Lib.Alike (fun read read' => SameValue (hash :: body) read read' ∧
      read'.2.2.length < text.length) IsOpen
      (value depth nodes (text ++ hash :: body)) (value' depth nodes text) := by
  refine ((h.alike depth nodes text htext hbound hbound').and (h.ends depth nodes _ hbound)
    (h.ends' depth nodes _ hbound')).mono ?_ fun _ _ he => he
  rintro read read' ⟨hsame, -, hends⟩
  exact ⟨hsame, hends.2⟩

/-- The values of a flow sequence are read alike when each value is. -/
theorem flowValues_comment (hvalue : value.Alike limits (hash :: body) bound bound' value')
    {turns turns' : Nat} (values : List Node) {text : Bytes} (h : Trailing text)
    (hturns : (text ++ hash :: body).length < turns) (hturns' : text.length < turns')
    (hbound : (text ++ hash :: body).length < bound) (hbound' : text.length < bound') :
    Alike (SameValue (hash :: body)) IsOpen
      (flowValues limits value depth turns values nodes (text ++ hash :: body))
      (flowValues limits value' depth turns' values nodes text) := by
  induction turns' generalizing turns values nodes text with
  | zero => omega
  | succ turns' ih =>
    cases turns with
    | zero => omega
    | succ turns =>
      simp only [List.length_append, List.length_cons] at hturns
      rw [flowValues, flowValues]
      refine Alike.bind (checkEntry_alike _) fun _ _ _ => ?_
      refine Alike.bind (hvalue.read h hbound hbound' (depth + 1) nodes) ?_
      rintro ⟨item, consumed, rest⟩ ⟨item', consumed', rest'⟩
        ⟨⟨hitem, hconsumed, hrest, htrail⟩, hlength⟩
      dsimp only at hitem hconsumed hrest htrail hlength ⊢
      subst hitem hconsumed hrest
      have hclose := @head_comment body (byte ']') (by decide) (skipSpaces rest')
      have hskip := skipSpaces_length rest'
      rw [skipSpaces_comment, hclose]
      split
      · rename_i hhead
        rw [tail_comment hhead]
        exact .ok ⟨rfl, rfl, rfl, htrail.skipSpaces.suffix (List.tail_suffix _)⟩
      refine Alike.bind (require_read (by decide) _ htrail.skipSpaces) ?_
      rintro left left' ⟨⟨hleft, htrail'⟩, hlength'⟩
      subst hleft
      have hskip' := skipSpaces_length left'
      rw [skipSpaces_comment, @head_comment body (byte ']') (by decide) (skipSpaces left')]
      simp only [List.length_append, List.length_cons] at hbound
      split
      · exact .error
      · exact ih _ htrail'.skipSpaces
          (by simp only [List.length_append, List.length_cons]; omega) (by omega)
          (by simp only [List.length_append, List.length_cons]; omega) (by omega)

/-- The entries of a flow mapping are read alike when each value is. -/
theorem flowEntries_comment (hvalue : value.Alike limits (hash :: body) bound bound' value')
    {turns turns' : Nat} (entries : List (Bytes × Node)) {text : Bytes} (h : Trailing text)
    (hturns : (text ++ hash :: body).length < turns) (hturns' : text.length < turns')
    (hbound : (text ++ hash :: body).length < bound) (hbound' : text.length < bound') :
    Alike (SameValue (hash :: body)) IsOpen
      (flowEntries limits value depth turns entries nodes (text ++ hash :: body))
      (flowEntries limits value' depth turns' entries nodes text) := by
  induction turns' generalizing turns entries nodes text with
  | zero => omega
  | succ turns' ih =>
    cases turns with
    | zero => omega
    | succ turns =>
      simp only [List.length_append, List.length_cons] at hturns hbound
      rw [flowEntries, flowEntries]
      refine Alike.bind (checkEntry_alike _) fun _ _ _ => ?_
      refine Alike.bind (parseMappingKey_read h) ?_
      rintro ⟨key, rest⟩ ⟨key', rest'⟩ ⟨⟨hkey, hrest, htrail⟩, hlength⟩
      dsimp only at hkey hrest htrail hlength ⊢
      subst hkey hrest
      refine Alike.bind (admitKey_alike _ _ _) ?_
      rintro consumed _ rfl
      have hskip := skipSpaces_length rest'
      rw [skipSpaces_comment]
      refine Alike.bind (require_read (by decide) _ htrail.skipSpaces) ?_
      rintro colon colon' ⟨⟨hcolon, htrail⟩, hcolonLength⟩
      subst hcolon
      have hcolonSkip := skipSpaces_length colon'
      rw [skipSpaces_comment]
      refine Alike.bind (hvalue.read htrail.skipSpaces
        (by simp only [List.length_append, List.length_cons]; omega) (by omega) (depth + 1)
        consumed) ?_
      rintro ⟨item, total, left⟩ ⟨item', total', left'⟩
        ⟨⟨hitem, htotal, hleft, htrail⟩, hleftLength⟩
      dsimp only at hitem htotal hleft htrail hleftLength ⊢
      subst hitem htotal hleft
      have hleftSkip := skipSpaces_length left'
      rw [skipSpaces_comment, @head_comment body (byte '}') (by decide) (skipSpaces left')]
      split
      · rename_i hhead
        rw [tail_comment hhead]
        exact .ok ⟨rfl, rfl, rfl, htrail.skipSpaces.suffix (List.tail_suffix _)⟩
      refine Alike.bind (require_read (by decide) _ htrail.skipSpaces) ?_
      rintro more more' ⟨⟨hmore, htrail⟩, hmoreLength⟩
      subst hmore
      have hmoreSkip := skipSpaces_length more'
      rw [skipSpaces_comment, @head_comment body (byte '}') (by decide) (skipSpaces more')]
      split
      · exact .error
      · exact ih _ htrail.skipSpaces
          (by simp only [List.length_append, List.length_cons]; omega) (by omega)
          (by simp only [List.length_append, List.length_cons]; omega) (by omega)

/-- A flow sequence is read alike when its values are. -/
theorem parseFlowSequence_comment (hvalue : value.Alike limits (hash :: body) bound bound' value')
    {text : Bytes} (h : Trailing text) (hbound : (text ++ hash :: body).length ≤ bound)
    (hbound' : text.length ≤ bound') (depth nodes : Nat) :
    Alike (SameValue (hash :: body)) IsOpen
      (parseFlowSequence limits value depth nodes (text ++ hash :: body))
      (parseFlowSequence limits value' depth nodes text) := by
  simp only [List.length_append, List.length_cons] at hbound
  rw [parseFlowSequence, parseFlowSequence]
  refine Alike.bind (reserveContainer_alike _ _) ?_
  rintro consumed _ rfl
  refine Alike.bind (require_read (by decide) _ h) ?_
  rintro rest rest' ⟨⟨hrest, htrail⟩, hlength⟩
  subst hrest
  have hskip := skipSpaces_length rest'
  rw [skipSpaces_comment]
  dsimp only
  rw [@head_comment body (byte ']') (by decide) (skipSpaces rest')]
  split
  · rename_i hhead
    rw [tail_comment hhead]
    exact .ok ⟨rfl, rfl, rfl, htrail.skipSpaces.suffix (List.tail_suffix _)⟩
  refine Alike.bind (flowValues_comment hvalue [] htrail.skipSpaces (Nat.lt_succ_self _)
    (Nat.lt_succ_self _) (by simp only [List.length_append, List.length_cons]; omega)
    (by omega)) ?_
  rintro ⟨values, total, left⟩ ⟨values', total', left'⟩ ⟨hvalues, htotal, hleft⟩
  dsimp only at hvalues htotal hleft ⊢
  subst hvalues htotal
  exact .ok ⟨rfl, rfl, hleft⟩

/-- A flow mapping is read alike when its values are. -/
theorem parseFlowMapping_comment (hvalue : value.Alike limits (hash :: body) bound bound' value')
    {text : Bytes} (h : Trailing text) (hbound : (text ++ hash :: body).length ≤ bound)
    (hbound' : text.length ≤ bound') (depth nodes : Nat) :
    Alike (SameValue (hash :: body)) IsOpen
      (parseFlowMapping limits value depth nodes (text ++ hash :: body))
      (parseFlowMapping limits value' depth nodes text) := by
  simp only [List.length_append, List.length_cons] at hbound
  rw [parseFlowMapping, parseFlowMapping]
  refine Alike.bind (reserveContainer_alike _ _) ?_
  rintro consumed _ rfl
  refine Alike.bind (require_read (by decide) _ h) ?_
  rintro rest rest' ⟨⟨hrest, htrail⟩, hlength⟩
  subst hrest
  have hskip := skipSpaces_length rest'
  rw [skipSpaces_comment]
  dsimp only
  rw [@head_comment body (byte '}') (by decide) (skipSpaces rest')]
  split
  · rename_i hhead
    rw [tail_comment hhead]
    exact .ok ⟨rfl, rfl, rfl, htrail.skipSpaces.suffix (List.tail_suffix _)⟩
  refine Alike.bind (flowEntries_comment hvalue [] htrail.skipSpaces (Nat.lt_succ_self _)
    (Nat.lt_succ_self _) (by simp only [List.length_append, List.length_cons]; omega)
    (by omega)) ?_
  rintro ⟨entries, total, left⟩ ⟨entries', total', left'⟩ ⟨hentries, htotal, hleft⟩
  dsimp only at hentries htotal hleft ⊢
  subst hentries htotal
  exact .ok ⟨rfl, rfl, hleft⟩

end Flow

/-- The node of a scalar that is read alike is the same node. -/
theorem scalarNode_comment {read read' : Result (Bytes × Bytes)} (style : ScalarStyle)
    (nodes : Nat) (h : Alike (SameScalar (hash :: body)) IsOpen read read') :
    Alike (SameValue (hash :: body)) IsOpen (scalarNode limits place style nodes read)
      (scalarNode limits place' style nodes read') := by
  refine Alike.bind h ?_
  rintro ⟨value, rest⟩ ⟨value', rest'⟩ ⟨hvalue, hrest⟩
  dsimp only at hvalue hrest ⊢
  subst hvalue
  refine Alike.bind (consumeNode_alike _) ?_
  rintro consumed _ rfl
  exact .ok ⟨rfl, rfl, hrest⟩

/-- The parser of values with a comment behind the text and without it. -/
theorem parseValue_comment (turns turns' : Nat) (flow : Bool) :
    (parseValue limits turns flow).Alike limits (hash :: body) turns turns'
      (parseValue limits turns' flow) := by
  induction turns' generalizing turns flow with
  | zero =>
    refine ⟨parseValue_ends turns flow, parseValue_ends 0 flow, ?_⟩
    intro depth nodes text _ _ hbound'
    omega
  | succ turns' ih =>
    refine ⟨parseValue_ends turns flow, parseValue_ends (turns' + 1) flow, ?_⟩
    intro depth nodes text htext hbound hbound'
    cases turns with
    | zero => omega
    | succ turns =>
      have hskip := skipSpaces_length text
      simp only [List.length_append, List.length_cons] at hbound
      rw [parseValue, parseValue]
      simp only [skipSpaces_comment, isBlank_comment, head_comment (show byte '[' ≠ hash by decide),
        head_comment (show byte '{' ≠ hash by decide), head_comment (show quote ≠ hash by decide)]
      split
      · exact .error
      split
      · exact parseFlowSequence_comment (ih turns true) htext.skipSpaces
          (by simp only [List.length_append, List.length_cons]; omega) (by omega) depth nodes
      split
      · exact parseFlowMapping_comment (ih turns true) htext.skipSpaces
          (by simp only [List.length_append, List.length_cons]; omega) (by omega) depth nodes
      split
      · rename_i hquote
        refine scalarNode_comment _ nodes (parseDoubleQuotedScalar_comment htext.skipSpaces ?_)
        intro hnil
        rw [hnil] at hquote
        cases hquote
      · exact scalarNode_comment _ nodes (parsePlainScalar_comment false flow htext.skipSpaces)

/-- A value with a comment behind it is read as the value alone, unless the value's text
ends inside a double-quoted scalar. -/
theorem parseInline_comment {text : Bytes} (h : Trailing text) (depth nodes : Nat) :
    Alike Eq IsOpen (parseInline limits depth nodes (text ++ hash :: body))
      (parseInline limits depth nodes text) := by
  refine Alike.bind ((parseValue_comment _ _ false).alike depth nodes text h (Nat.lt_succ_self _)
    (Nat.lt_succ_self _)) ?_
  rintro ⟨value, consumed, rest⟩ ⟨value', consumed', rest'⟩ ⟨hvalue, hconsumed, hrest, -⟩
  dsimp only at hvalue hconsumed hrest ⊢
  subst hvalue hconsumed hrest
  rw [atEndOrComment_comment]
  exact Alike.bind Alike.throwIf fun _ _ _ => .ok rfl

end Inline

-- ---------------------------------------------------------------------------
-- Wider limits
-- ---------------------------------------------------------------------------

/-- Limits none of which is smaller. -/
structure Limits.Within (limits wide : Limits) : Prop where
  depth : limits.maxDepth ≤ wide.maxDepth
  nodes : limits.maxNodes ≤ wide.maxNodes
  scalar : limits.maxScalarBytes ≤ wide.maxScalarBytes
  entries : limits.maxContainerEntries ≤ wide.maxContainerEntries

section Wider

variable {limits wide : Limits} {place : Place}

theorem not_isOpen {code : ErrorCode} {message : Bytes} {place : Place}
    (h : message ≠ ascii "double-quoted scalar is not terminated") :
    ¬IsOpen (.thrown ⟨code, message, place⟩) := by
  intro heq
  exact h (eq_of_beq heq)

/-- A failure other than the open quote shadows whatever the other run does. -/
theorem shadows_fail {α β : Type} {R : α → β → Prop} {code : ErrorCode} {message : String}
    {place : Place} {y : Result β} (h : ascii message ≠ ascii "double-quoted scalar is not terminated") :
    Shadows R IsOpen y (fail code message place : Result α) :=
  Shadows.error (not_isOpen h)

theorem not_isOpen_running : ¬IsOpen .running := by
  intro heq
  cases heq

/-- A size that passes the check passes it under wider limits. -/
theorem checkScalarSize_wider (hwide : limits.Within wide) (size : Nat) :
    Shadows Eq IsOpen (checkScalarSize wide place size) (checkScalarSize limits place size) := by
  have := hwide.scalar
  rw [checkScalarSize, checkScalarSize]
  by_cases hsize : limits.maxScalarBytes < size
  · rw [if_pos hsize]
    exact shadows_fail (by simp [ascii])
  · rw [if_neg hsize, if_neg (by omega)]
    exact .ok rfl

/-- A scalar that may grow may grow under wider limits. -/
theorem checkScalarAppend_wider (hwide : limits.Within wide) (retained additional : Nat) :
    Shadows Eq IsOpen (checkScalarAppend wide place retained additional)
      (checkScalarAppend limits place retained additional) := by
  have := hwide.scalar
  rw [checkScalarAppend, checkScalarAppend]
  simp only [Bool.or_eq_true, decide_eq_true_eq]
  by_cases hsize : limits.maxScalarBytes < additional ∨ limits.maxScalarBytes - additional < retained
  · rw [if_pos hsize]
    exact shadows_fail (by simp [ascii])
  · rw [if_neg hsize, if_neg (by omega)]
    exact .ok rfl

/-- An entry that fits still fits under wider limits. -/
theorem checkEntry_wider (hwide : limits.Within wide) (retained : Nat) :
    Shadows Eq IsOpen (checkEntry wide place retained) (checkEntry limits place retained) := by
  have := hwide.entries
  rw [checkEntry, checkEntry]
  by_cases hfull : limits.maxContainerEntries ≤ retained
  · rw [if_pos hfull]
    exact shadows_fail (by simp [ascii])
  · rw [if_neg hfull, if_neg (by omega)]
    exact .ok rfl

/-- A node that is counted is counted under wider limits, from a count that is no higher. -/
theorem consumeNode_wider (hwide : limits.Within wide) {nodes nodes' : Nat} (h : nodes' ≤ nodes) :
    Shadows (fun n n' => n' ≤ n) IsOpen (consumeNode wide place nodes')
      (consumeNode limits place nodes) := by
  have := hwide.nodes
  rw [consumeNode, consumeNode]
  by_cases hfull : limits.maxNodes ≤ nodes
  · rw [if_pos hfull]
    exact shadows_fail (by simp [ascii])
  · rw [if_neg hfull, if_neg (by omega)]
    exact .ok (Nat.succ_le_succ h)

/-- A container that is reserved is reserved under wider limits too. -/
theorem reserveContainer_wider (hwide : limits.Within wide) {depth depth' nodes nodes' : Nat}
    (hdepth : depth' ≤ depth) (h : nodes' ≤ nodes) :
    Shadows (fun n n' => n' ≤ n) IsOpen (reserveContainer wide place depth' nodes')
      (reserveContainer limits place depth nodes) := by
  have hcheck : Shadows Eq IsOpen (checkDepth wide place depth')
      (checkDepth limits place depth) := by
    have := hwide.depth
    rw [checkDepth, checkDepth]
    by_cases hdeep : limits.maxDepth < depth
    · rw [if_pos hdeep]
      exact shadows_fail (by simp [ascii])
    · rw [if_neg hdeep, if_neg (by omega)]
      exact .ok rfl
  exact Shadows.bind hcheck fun _ _ _ => consumeNode_wider hwide h

/-- A key that is admitted is admitted under wider limits. -/
theorem admitKey_wider (hwide : limits.Within wide) (keys : List Bytes) (key : Bytes)
    {nodes nodes' : Nat} (h : nodes' ≤ nodes) :
    Shadows (fun n n' => n' ≤ n) IsOpen (admitKey wide place keys key nodes')
      (admitKey limits place keys key nodes) := by
  refine Shadows.bind (Shadows.refl (fun _ => rfl) _) fun _ _ _ => ?_
  rw [consumeKey, consumeKey]
  split
  · exact shadows_fail (by simp [ascii])
  · exact consumeNode_wider hwide h

/-- The loop over a quoted scalar reads the same under wider limits. -/
theorem quotedLoop_wider (hwide : limits.Within wide) (turns : Nat) (value input : Bytes) :
    Shadows Eq IsOpen (quotedLoop wide place turns value input)
      (quotedLoop limits place turns value input) := by
  induction turns generalizing value input with
  | zero =>
    cases input with
    | nil => exact fun _ => rfl
    | cons b rest => exact .error not_isOpen_running
  | succ turns ih =>
    cases input with
    | nil => exact fun _ => rfl
    | cons character rest =>
      unfold quotedLoop
      split
      · exact Shadows.bind (checkScalarSize_wider hwide _) fun _ _ _ => .ok rfl
      split
      · exact shadows_fail (by simp [ascii])
      split
      · exact Shadows.bind (checkScalarAppend_wider hwide _ _) fun _ _ _ => ih _ _
      split
      · exact shadows_fail (by simp [ascii])
      · refine Shadows.bind (Shadows.refl (fun _ => rfl) _) ?_
        rintro ⟨piece, left⟩ _ rfl
        exact Shadows.bind (checkScalarAppend_wider hwide _ _) fun _ _ _ => ih _ _

/-- A quoted scalar is read as the same text under wider limits. -/
theorem parseDoubleQuotedScalar_wider (hwide : limits.Within wide) (input : Bytes) :
    Shadows Eq IsOpen (parseDoubleQuotedScalar wide input)
      (parseDoubleQuotedScalar limits input) := by
  cases input with
  | nil => exact shadows_fail (by simp [ascii])
  | cons b rest =>
    rw [parseDoubleQuotedScalar, parseDoubleQuotedScalar]
    split
    · exact shadows_fail (by simp [ascii])
    · exact quotedLoop_wider hwide _ _ _

/-- A plain scalar is read as the same text under wider limits. -/
theorem parsePlainScalar_wider (hwide : limits.Within wide) (mappingKey flowContext : Bool)
    (input : Bytes) :
    Shadows Eq IsOpen (parsePlainScalar wide mappingKey flowContext input)
      (parsePlainScalar limits mappingKey flowContext input) := by
  cases input with
  | nil => exact shadows_fail (by simp [ascii])
  | cons first rest =>
    rw [parsePlainScalar, parsePlainScalar]
    split
    · exact shadows_fail (by simp [ascii])
    dsimp only
    split
    · exact shadows_fail (by simp [ascii])
    · exact Shadows.bind (checkScalarSize_wider hwide _) fun _ _ _ => .ok rfl

/-- A key is read as the same text under wider limits. -/
theorem parseMappingKey_wider (hwide : limits.Within wide) (input : Bytes) :
    Shadows Eq IsOpen (parseMappingKey wide input) (parseMappingKey limits input) := by
  rw [parseMappingKey, parseMappingKey]
  split
  · exact parseDoubleQuotedScalar_wider hwide _
  · exact parsePlainScalar_wider hwide true false _

/-- The same was read, at no higher a charge. -/
def SameRead {α : Type} (read read' : α × Nat × Bytes) : Prop :=
  read.1 = read'.1 ∧ read'.2.1 ≤ read.2.1 ∧ read.2.2 = read'.2.2

/-- A parser of values under wider limits. -/
def ValueParser.Wider (value value' : ValueParser) : Prop :=
  ∀ depth depth' nodes nodes' input, depth' ≤ depth → nodes' ≤ nodes →
    Shadows SameRead IsOpen (value' depth' nodes' input) (value depth nodes input)

section Flow

variable {value value' : ValueParser} {depth depth' nodes nodes' : Nat}

/-- Values that are read under the limits are read under wider ones. -/
theorem flowValues_wider (hwide : limits.Within wide) (hvalue : value.Wider value')
    (hdepth : depth' ≤ depth) (turns : Nat) (values : List Node) (hnodes : nodes' ≤ nodes)
    (input : Bytes) :
    Shadows SameRead IsOpen (flowValues wide value' depth' turns values nodes' input)
      (flowValues limits value depth turns values nodes input) := by
  induction turns generalizing values nodes nodes' input with
  | zero => exact .error not_isOpen_running
  | succ turns ih =>
    rw [flowValues, flowValues]
    refine Shadows.bind (checkEntry_wider hwide _) fun _ _ _ => ?_
    refine Shadows.bind (hvalue _ _ _ _ input (Nat.succ_le_succ hdepth) hnodes) ?_
    rintro ⟨item, consumed, rest⟩ ⟨item', consumed', rest'⟩ ⟨hitem, hconsumed, hrest⟩
    dsimp only at hitem hconsumed hrest ⊢
    subst hitem hrest
    split
    · exact .ok ⟨rfl, hconsumed, rfl⟩
    refine Shadows.bind (Shadows.refl (fun _ => rfl) _) ?_
    rintro left _ rfl
    split
    · exact shadows_fail (by simp [ascii])
    · exact ih _ hconsumed _

/-- A flow sequence that is read under the limits is read under wider ones. -/
theorem parseFlowSequence_wider (hwide : limits.Within wide) (hvalue : value.Wider value')
    (hdepth : depth' ≤ depth) (hnodes : nodes' ≤ nodes) (input : Bytes) :
    Shadows SameRead IsOpen (parseFlowSequence wide value' depth' nodes' input)
      (parseFlowSequence limits value depth nodes input) := by
  rw [parseFlowSequence, parseFlowSequence]
  refine Shadows.bind (reserveContainer_wider hwide hdepth hnodes) fun consumed consumed' hle => ?_
  refine Shadows.bind (Shadows.refl (fun _ => rfl) _) ?_
  rintro rest _ rfl
  dsimp only
  split
  · exact .ok ⟨rfl, hle, rfl⟩
  refine Shadows.bind (flowValues_wider hwide hvalue hdepth _ _ hle _) ?_
  rintro ⟨values, total, left⟩ ⟨values', total', left'⟩ ⟨hvalues, htotal, hleft⟩
  dsimp only at hvalues htotal hleft ⊢
  subst hvalues hleft
  exact .ok ⟨rfl, htotal, rfl⟩

/-- Entries that are read under the limits are read under wider ones. -/
theorem flowEntries_wider (hwide : limits.Within wide) (hvalue : value.Wider value')
    (hdepth : depth' ≤ depth) (turns : Nat) (entries : List (Bytes × Node))
    (hnodes : nodes' ≤ nodes) (input : Bytes) :
    Shadows SameRead IsOpen (flowEntries wide value' depth' turns entries nodes' input)
      (flowEntries limits value depth turns entries nodes input) := by
  induction turns generalizing entries nodes nodes' input with
  | zero => exact .error not_isOpen_running
  | succ turns ih =>
    rw [flowEntries, flowEntries]
    refine Shadows.bind (checkEntry_wider hwide _) fun _ _ _ => ?_
    refine Shadows.bind (parseMappingKey_wider hwide input) ?_
    rintro ⟨key, rest⟩ _ rfl
    refine Shadows.bind (admitKey_wider hwide _ key hnodes) fun consumed consumed' hle => ?_
    refine Shadows.bind (Shadows.refl (fun _ => rfl) _) ?_
    rintro colon _ rfl
    refine Shadows.bind (hvalue _ _ _ _ _ (Nat.succ_le_succ hdepth) hle) ?_
    rintro ⟨item, total, left⟩ ⟨item', total', left'⟩ ⟨hitem, htotal, hleft⟩
    dsimp only at hitem htotal hleft ⊢
    subst hitem hleft
    split
    · exact .ok ⟨rfl, htotal, rfl⟩
    refine Shadows.bind (Shadows.refl (fun _ => rfl) _) ?_
    rintro more _ rfl
    split
    · exact shadows_fail (by simp [ascii])
    · exact ih _ htotal _

/-- A flow mapping that is read under the limits is read under wider ones. -/
theorem parseFlowMapping_wider (hwide : limits.Within wide) (hvalue : value.Wider value')
    (hdepth : depth' ≤ depth) (hnodes : nodes' ≤ nodes) (input : Bytes) :
    Shadows SameRead IsOpen (parseFlowMapping wide value' depth' nodes' input)
      (parseFlowMapping limits value depth nodes input) := by
  rw [parseFlowMapping, parseFlowMapping]
  refine Shadows.bind (reserveContainer_wider hwide hdepth hnodes) fun consumed consumed' hle => ?_
  refine Shadows.bind (Shadows.refl (fun _ => rfl) _) ?_
  rintro rest _ rfl
  dsimp only
  split
  · exact .ok ⟨rfl, hle, rfl⟩
  refine Shadows.bind (flowEntries_wider hwide hvalue hdepth _ _ hle _) ?_
  rintro ⟨entries, total, left⟩ ⟨entries', total', left'⟩ ⟨hentries, htotal, hleft⟩
  dsimp only at hentries htotal hleft ⊢
  subst hentries hleft
  exact .ok ⟨rfl, htotal, rfl⟩

end Flow

/-- The node of a scalar is the same under wider limits. -/
theorem scalarNode_wider (hwide : limits.Within wide) {read read' : Result (Bytes × Bytes)}
    (style : ScalarStyle) {nodes nodes' : Nat} (hnodes : nodes' ≤ nodes)
    (h : Shadows Eq IsOpen read' read) :
    Shadows SameRead IsOpen (scalarNode wide place style nodes' read')
      (scalarNode limits place style nodes read) := by
  refine Shadows.bind h ?_
  rintro ⟨value, rest⟩ _ rfl
  exact Shadows.bind (consumeNode_wider hwide hnodes) fun _ _ hle => .ok ⟨rfl, hle, rfl⟩

/-- Wider limits, less depth and fewer nodes read at least as much. -/
theorem parseValue_wider (hwide : limits.Within wide) (turns : Nat) (flow : Bool) :
    (parseValue limits turns flow).Wider (parseValue wide turns flow) := by
  induction turns generalizing flow with
  | zero =>
    intro depth depth' nodes nodes' input _ _
    exact .error not_isOpen_running
  | succ turns ih =>
    intro depth depth' nodes nodes' input hdepth hnodes
    rw [parseValue, parseValue]
    split
    · exact shadows_fail (by simp [ascii])
    split
    · exact parseFlowSequence_wider hwide (ih true) hdepth hnodes _
    split
    · exact parseFlowMapping_wider hwide (ih true) hdepth hnodes _
    split
    · exact scalarNode_wider hwide _ hnodes (parseDoubleQuotedScalar_wider hwide _)
    · exact scalarNode_wider hwide _ hnodes (parsePlainScalar_wider hwide false flow _)

end Wider

-- ---------------------------------------------------------------------------
-- Inside a double-quoted scalar
-- ---------------------------------------------------------------------------

/-- The text of a value ends inside a double-quoted scalar, read under the widest limits
a budget has. -/
def endsQuoted (text : Bytes) : Bool :=
  match parseValue .v1 (text.length + 1) false 1 0 text with
  | .ok _ => false
  | .error stop => isOpen stop

/-- A text that leaves its quotes open does so under the widest limits too. -/
theorem endsQuoted_of_parseInline {limits : Limits} (hwide : limits.Within .v1) {depth nodes : Nat}
    (hdepth : 0 < depth) {text : Bytes} {stop : Stop}
    (h : parseInline limits depth nodes text = .error stop) (hstop : IsOpen stop) :
    endsQuoted text = true := by
  have hshadow := parseValue_wider hwide (text.length + 1) false depth 1 nodes 0 text hdepth
    (Nat.zero_le _)
  have hopen : parseValue limits (text.length + 1) false depth nodes text = .error stop := by
    rw [parseInline] at h
    cases hread : parseValue limits (text.length + 1) false depth nodes text with
    | error e =>
      rw [hread] at h
      exact congrArg Except.error (Except.error.inj h)
    | ok read =>
      rw [hread, ok_bind] at h
      dsimp only at h
      cases hrest : atEndOrComment read.2.2 with
      | true =>
        rw [hrest] at h
        cases h
      | false =>
        -- what stands behind the value is another error
        rw [hrest] at h
        obtain rfl := Except.error.inj h
        exact absurd hstop (not_isOpen (by decide +kernel))
  rw [hopen] at hshadow
  rw [endsQuoted, hshadow hstop]
  exact hstop

end Cuac.Connector.FailsafeYaml

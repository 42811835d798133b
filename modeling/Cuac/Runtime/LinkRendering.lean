import Cuac.Runtime.LinkFields

/-!
# Runtime — Link values, written and read

A link value is a target and parameters, written with any whitespace the grammar
allows and each value as a token or as a quoted string. `parseLinkHeaderFields`
visits what was written.

Main results:

* `parameters_render` — parameters are read one by one as they were written.
* `link_header` — fields and their combination, and fields of rendered links.
-/

namespace Cuac.Runtime.LinkHeader

open Cuac.Lib
open Cuac.Runtime.Pagination (LinkHeaderVisits)
open Cuac.Runtime.Uri (isValidUri isValidUriReference)

-- ---------------------------------------------------------------------------
-- Link values
-- ---------------------------------------------------------------------------

/-- Optional whitespace. -/
def Ows : Type := {text : Bytes // ∀ b ∈ text, isOws b = true}

def Token : Type := {text : Bytes // text ≠ [] ∧ ∀ b ∈ text, isTokenCharacter b = true}

/-- A character of a quoted string, as it stands or after a backslash. -/
inductive QuotedCharacter
  | plain (b : UInt8) (h : b ≠ byte '"' ∧ b ≠ 0x5C ∧ (0x20 ≤ b ∨ b = 0x09) ∧ b ≠ 0x7F)
  | escaped (b : UInt8) (h : 0x20 ≤ b ∧ b ≤ 0x7E)

def QuotedCharacter.char : QuotedCharacter → UInt8
  | .plain b _ => b
  | .escaped b _ => b

def QuotedCharacter.render : QuotedCharacter → Bytes
  | .plain b _ => [b]
  | .escaped b _ => [0x5C, b]

inductive ParameterValue
  | token (text : Token)
  | quoted (text : List QuotedCharacter)

/-- What a value says, however it is written. -/
def ParameterValue.text : ParameterValue → Bytes
  | .token text => text.val
  | .quoted text => text.map QuotedCharacter.char

def ParameterValue.render : ParameterValue → Bytes
  | .token text => text.val
  | .quoted text => byte '"' :: (text.flatMap QuotedCharacter.render ++ [byte '"'])

structure Parameter where
  before : Ows
  afterSemicolon : Ows
  name : Token
  afterName : Ows
  value : Option (Ows × ParameterValue)

/-- What follows the semicolon. -/
def Parameter.body (parameter : Parameter) : Bytes :=
  parameter.afterSemicolon.val ++ (parameter.name.val ++ (parameter.afterName.val ++
    match parameter.value with
    | none => []
    | some value => byte '=' :: (value.1.val ++ value.2.render)))

def Parameter.render (parameter : Parameter) : Bytes :=
  parameter.before.val ++ byte ';' :: parameter.body

def Parameter.is (parameter : Parameter) (name : String) : Bool :=
  equalsAsciiIgnoreCase parameter.name.val (ascii name)

structure Link where
  before : Ows
  target : Bytes
  parameters : List Parameter
  after : Ows

def Link.render (link : Link) : Bytes :=
  link.before.val ++ byte '<' :: (link.target ++ byte '>' ::
    (link.parameters.flatMap Parameter.render ++ link.after.val))

/-- Links with commas between them. -/
def renderLinks (links : List Link) : Bytes := [byte ','].intercalate (links.map Link.render)

-- ---------------------------------------------------------------------------
-- What they mean
-- ---------------------------------------------------------------------------

/-- Relation types, with spaces between them only. -/
structure IsRelation (relation : Bytes) : Prop where
  nonempty : relation ≠ []
  first : relation.head? ≠ some (byte ' ')
  last : relation.getLast? ≠ some (byte ' ')
  types : ∀ word ∈ relationTypes relation, isRegisteredRelation word = true ∨ isValidUri word = true

/-- The text of the first `rel`. -/
def relationOf (parameters : List Parameter) : Option Bytes :=
  (parameters.find? (·.is "rel")).bind fun parameter =>
    parameter.value.map fun value => value.2.text

/-- Whether a relation type is `next`. -/
def saysNext (relation : Bytes) : Bool :=
  (relationTypes relation).any fun word => equalsAsciiIgnoreCase word (ascii "next")

/-- A link that the grammar and its rules on `rel` and `anchor` allow. -/
structure Link.Valid (link : Link) : Prop where
  target : isValidUriReference link.target = true
  relation : ∃ relation, relationOf link.parameters = some relation ∧ IsRelation relation
  anchors : ∀ parameter ∈ link.parameters, parameter.is "anchor" = true →
    ∃ value, parameter.value = some value ∧ isValidUriReference value.2.text = true

/-- The relation `next` is among the first `rel`, and no anchor moves the context. -/
def Link.hasNext (link : Link) : Bool :=
  (relationOf link.parameters).any saysNext && !link.parameters.any (·.is "anchor")

-- ---------------------------------------------------------------------------
-- Values
-- ---------------------------------------------------------------------------

theorem relationContainsNext_of {relation : Bytes} (h : IsRelation relation) :
    relationContainsNext relation = some (saysNext relation) := by
  rw [relationContainsNext, if_neg, if_pos, saysNext]
  · rw [List.all_eq_true]
    intro word hword
    rw [Bool.or_eq_true]
    exact h.types word hword
  · simp [h.nonempty, h.first, h.last]

theorem skipOws_append (ows : Ows) (rest : Bytes) : skipOws (ows.val ++ rest) = skipOws rest :=
  List.dropWhile_append_of_pos ows.property

theorem skipOws_skipOws (text : Bytes) : skipOws (skipOws text) = skipOws text :=
  dropWhile_of_stops (stops_dropWhile isOws text)

theorem not_isOws_of_isTokenCharacter : ∀ c : UInt8, isTokenCharacter c = true → isOws c = false :=
  forall_byte (by decide)

theorem not_isTokenCharacter_of_isOws {c : UInt8} (h : isOws c = true) :
    isTokenCharacter c = false := by
  cases htoken : isTokenCharacter c with
  | false => rfl
  | true =>
    rw [not_isOws_of_isTokenCharacter c htoken] at h
    cases h

/-- A token begins with no whitespace. -/
theorem skipOws_token (token : Token) (rest : Bytes) :
    skipOws (token.val ++ rest) = token.val ++ rest := by
  refine dropWhile_of_stops fun b hb => ?_
  obtain ⟨c, more, hc⟩ := List.exists_cons_of_ne_nil token.property.1
  rw [hc] at hb
  obtain rfl := Option.some.inj hb
  have hmem : c ∈ token.val := by
    rw [hc]
    exact List.mem_cons_self
  exact not_isOws_of_isTokenCharacter c (token.property.2 c hmem)

theorem parseToken_append (token : Token) {rest : Bytes} (h : Stops isTokenCharacter rest) :
    parseToken (token.val ++ rest) = some (token.val, rest) := by
  have htake : (token.val ++ rest).takeWhile isTokenCharacter = token.val := by
    rw [List.takeWhile_append_of_pos token.property.2]
    match rest with
    | [] => simp
    | b :: rest => rw [List.takeWhile_cons_of_neg (by simp [h b rfl]), List.append_nil]
  rw [parseToken, htake, if_neg (by simpa using token.property.1),
    dropWhile_append token.property.2 h]

theorem parseQuotedText_render (text : List QuotedCharacter) (rest : Bytes) :
    parseQuotedText (text.flatMap QuotedCharacter.render ++ byte '"' :: rest) =
      some (text.map QuotedCharacter.char, rest) := by
  induction text with
  | nil =>
    rw [List.flatMap_nil, List.nil_append]
    unfold parseQuotedText
    rw [if_pos (by rfl)]
    rfl
  | cons character text ih =>
    rw [List.flatMap_cons, List.append_assoc]
    cases character with
    | plain b h =>
      obtain ⟨hquote, hbackslash, hcontrol, hdelete⟩ := h
      have hgood : ¬((decide (b < 0x20) && b != 0x09) || b == 0x7F) = true := by
        simp only [Bool.or_eq_true, Bool.and_eq_true, decide_eq_true_eq, bne_iff_ne, beq_iff_eq,
          not_or, not_and, Decidable.not_not]
        refine ⟨fun hless => ?_, hdelete⟩
        rcases hcontrol with hle | htab
        · exact absurd hle (UInt8.not_le.mpr hless)
        · exact htab
      rw [QuotedCharacter.render, List.singleton_append]
      unfold parseQuotedText
      rw [if_neg (by simpa using hquote), if_neg (by simpa using hbackslash), if_neg hgood, ih]
      rfl
    | escaped b h =>
      have hgood : ¬(decide (b < 0x20) || decide (b > 0x7E)) = true := by
        simp only [Bool.or_eq_true, decide_eq_true_eq, not_or]
        exact ⟨UInt8.not_lt.mpr h.1, UInt8.not_lt.mpr h.2⟩
      rw [QuotedCharacter.render, List.cons_append, List.singleton_append, parseQuotedText,
        if_neg (by decide), if_pos (by decide), if_neg (by simpa using hgood), ih]
      rfl

theorem parseParameterValue_render (value : ParameterValue) {rest : Bytes}
    (h : Stops isTokenCharacter rest) :
    parseParameterValue (value.render ++ rest) = some (value.text, rest) := by
  cases value with
  | token text =>
    obtain ⟨b, more, hb⟩ := List.exists_cons_of_ne_nil text.property.1
    have htoken := text.property.2 b (by rw [hb]; exact List.mem_cons_self)
    have hquote : ¬(b == byte '"') = true := by
      rw [beq_iff_eq]
      rintro rfl
      exact absurd htoken (by decide)
    have hread := parseToken_append text h
    rw [ParameterValue.render, ParameterValue.text]
    rw [hb, List.cons_append] at hread ⊢
    rw [parseParameterValue, if_neg hquote]
    exact hread
  | quoted text =>
    rw [ParameterValue.render, List.cons_append, List.append_assoc, parseParameterValue,
      if_pos (by rfl)]
    exact parseQuotedText_render text rest

-- ---------------------------------------------------------------------------
-- Parameters
-- ---------------------------------------------------------------------------

/-- What follows a parameter: whitespace, and then another, a comma or the end. -/
def Ends (rest : Bytes) : Prop :=
  ∀ b, (skipOws rest).head? = some b → b = byte ';' ∨ b = byte ','

theorem Ends.stops {rest : Bytes} (h : Ends rest) : Stops isTokenCharacter rest := by
  intro b hb
  match rest with
  | [] => cases hb
  | c :: rest =>
    obtain rfl := Option.some.inj hb
    by_cases hows : isOws c = true
    · exact not_isTokenCharacter_of_isOws hows
    · have hhead : (skipOws (c :: rest)).head? = some c := by
        rw [skipOws, List.dropWhile_cons_of_neg hows]
        rfl
      rcases h c hhead with rfl | rfl <;> rfl

theorem Ends.append (ows : Ows) {rest : Bytes} (h : Ends rest) : Ends (ows.val ++ rest) := by
  rw [Ends, skipOws_append]
  exact h

theorem ends_render (parameter : Parameter) (rest : Bytes) : Ends (parameter.render ++ rest) := by
  intro b hb
  rw [Parameter.render, List.append_assoc, skipOws_append, List.cons_append] at hb
  obtain rfl := Option.some.inj hb
  exact Or.inl rfl

/-- What a parameter adds to what the ones before it said. -/
def Parameter.note (parameter : Parameter) (seen : LinkParameters) : Option LinkParameters :=
  match parameter.value with
  | none => noteName parameter.name.val seen
  | some value => noteValue parameter.name.val value.2.text seen

/-- Parameters go on at the whitespace before what follows. -/
theorem Parameters.of_skipOws {text left : Bytes} {seen last : LinkParameters}
    (h : Parameters text seen last left) : Parameters (skipOws text) seen last left := by
  cases h with
  | atEnd h => exact .atEnd (by rw [skipOws_skipOws, h])
  | atComma h => exact .atComma (by rw [skipOws_skipOws, h])
  | more h hread hmore => exact .more (by rw [skipOws_skipOws, h]) hread hmore

/-- After one parameter the scanner stands before what follows it, or after its whitespace. -/
theorem parseParameter_body (parameter : Parameter) {rest : Bytes} (h : Ends rest)
    {seen next : LinkParameters} (hnote : parameter.note seen = some next) :
    ∃ left, (left = rest ∨ left = skipOws rest) ∧
      parseParameter (parameter.body ++ rest) seen = some (next, left) := by
  have hname {after : Bytes} (hstops : Stops isTokenCharacter after) :
      parseParameter (parameter.afterSemicolon.val ++ (parameter.name.val ++ after)) seen =
        parseAfterName parameter.name.val (skipOws after) seen := by
    rw [parseParameter, skipOws_append, skipOws_token, parseToken_append _ hstops, Option.bind_some]
  rw [Parameter.body, List.append_assoc, List.append_assoc, List.append_assoc]
  rw [Parameter.note] at hnote
  match hvalue : parameter.value with
  | none =>
    rw [hvalue] at hnote
    dsimp only at hnote ⊢
    rw [List.nil_append, hname (h.append parameter.afterName).stops, skipOws_append]
    refine ⟨skipOws rest, Or.inr rfl, ?_⟩
    match hrest : skipOws rest with
    | [] =>
      rw [parseAfterName, hnote]
      rfl
    | b :: more =>
      have hequals : ¬(b == byte '=') = true := by
        rw [beq_iff_eq]
        rintro rfl
        rcases h _ (by rw [hrest]; rfl) with heq | heq <;> exact absurd heq (by decide)
      rw [parseAfterName, if_neg hequals, hnote]
      rfl
  | some (ows, value) =>
    rw [hvalue] at hnote
    dsimp only at hnote ⊢
    have hequals (more : Bytes) : skipOws (byte '=' :: more) = byte '=' :: more := rfl
    have hstops (more : Bytes) :
        Stops isTokenCharacter (parameter.afterName.val ++ byte '=' :: more) := by
      match hows : parameter.afterName.val with
      | [] => exact Stops.cons (by decide)
      | b :: _ =>
        refine Stops.cons (not_isTokenCharacter_of_isOws (parameter.afterName.property b ?_))
        rw [hows]
        exact List.mem_cons_self
    have hbegins : skipOws (value.render ++ rest) = value.render ++ rest := by
      cases value with
      | token text => exact skipOws_token text rest
      | quoted text => rfl
    refine ⟨rest, Or.inl rfl, ?_⟩
    rw [List.cons_append, List.append_assoc, hname (hstops _), skipOws_append, hequals,
      parseAfterName, if_pos (by rfl), skipOws_append, hbegins,
      parseParameterValue_render value h.stops, Option.bind_some, hnote]
    rfl

/-- Parameters are read one by one as they were written. -/
theorem parameters_render {parameters : List Parameter} {tail : Bytes} {seen last : LinkParameters}
    (htail : skipOws tail = [] ∨ ∃ rest, skipOws tail = byte ',' :: rest)
    (h : parameters.foldlM (fun seen parameter => parameter.note seen) seen = some last) :
    Parameters (parameters.flatMap Parameter.render ++ tail) seen last (skipOws tail) := by
  have hends : Ends tail := by
    intro b hb
    rcases htail with hnil | ⟨rest, hcomma⟩
    · rw [hnil] at hb
      cases hb
    · rw [hcomma] at hb
      exact Or.inr (Option.some.inj hb).symm
  induction parameters generalizing seen with
  | nil =>
    obtain rfl := Option.some.inj h
    rcases htail with hnil | ⟨rest, hcomma⟩
    · rw [hnil]
      exact .atEnd hnil
    · rw [hcomma]
      exact .atComma hcomma
  | cons parameter parameters ih =>
    rw [List.foldlM_cons] at h
    obtain ⟨next, hnote, hrest⟩ := Option.bind_eq_some_iff.mp h
    have hfollows : Ends (parameters.flatMap Parameter.render ++ tail) := by
      match parameters with
      | [] => exact hends
      | following :: others =>
        rw [List.flatMap_cons, List.append_assoc]
        exact ends_render following _
    obtain ⟨left, hleft, hread⟩ := parseParameter_body parameter hfollows hnote
    rw [List.flatMap_cons, List.append_assoc]
    refine .more ?_ hread ?_
    · rw [Parameter.render, List.append_assoc, skipOws_append]
      rfl
    · rcases hleft with rfl | rfl
      · exact ih hrest
      · exact (ih hrest).of_skipOws

-- ---------------------------------------------------------------------------
-- Links
-- ---------------------------------------------------------------------------

theorem not_anchor_of_rel {parameter : Parameter} (h : parameter.is "rel" = true) :
    parameter.is "anchor" = false := by
  rw [Parameter.is, equalsAsciiIgnoreCase, Bool.and_eq_true, beq_iff_eq] at h
  rw [Parameter.is, equalsAsciiIgnoreCase, h.1]
  rfl

/-- What the parameters of a link say when they are all read. -/
theorem notes_valid {parameters : List Parameter} {seen : LinkParameters}
    (hrel : seen.sawRel = true ∨ ∃ relation, relationOf parameters = some relation ∧
      IsRelation relation)
    (hanchors : ∀ parameter ∈ parameters, parameter.is "anchor" = true →
      ∃ value, parameter.value = some value ∧ isValidUriReference value.2.text = true) :
    parameters.foldlM (fun seen parameter => parameter.note seen) seen =
      some ⟨true, seen.sawAnchor || parameters.any (·.is "anchor"),
        if seen.sawRel then seen.hasNextRelation else (relationOf parameters).any saysNext⟩ := by
  induction parameters generalizing seen with
  | nil =>
    obtain ⟨sawRel, sawAnchor, hasNext⟩ := seen
    rcases hrel with rfl | ⟨relation, hrelation, -⟩
    · simp
    · cases hrelation
  | cons parameter parameters ih =>
    rw [List.forall_mem_cons] at hanchors
    rw [List.foldlM_cons, List.any_cons]
    by_cases hname : parameter.is "rel" = true
    · have hfirst : relationOf (parameter :: parameters) =
          parameter.value.map fun value => value.2.text := by
        rw [relationOf, List.find?_cons, hname]
        rfl
      rw [not_anchor_of_rel hname, Bool.false_or]
      by_cases hsaw : seen.sawRel = true
      · have hnote : parameter.note seen = some seen := by
          rw [Parameter.note]
          rw [Parameter.is] at hname
          split
          · rw [noteName, if_pos hname, if_pos hsaw]
          · rw [noteValue, if_pos hname, if_pos hsaw]
        rw [hnote]
        refine (ih (Or.inl hsaw) hanchors.2).trans ?_
        rw [if_pos hsaw, if_pos hsaw]
      · obtain ⟨relation, hrelation, hvalid⟩ := hrel.resolve_left hsaw
        rw [hfirst] at hrelation
        obtain ⟨value, hvalue, rfl⟩ := Option.map_eq_some_iff.mp hrelation
        have hnote : parameter.note seen = some { seen with
            sawRel := true, hasNextRelation := saysNext value.2.text } := by
          rw [Parameter.note, hvalue]
          rw [Parameter.is] at hname
          dsimp only
          rw [noteValue, if_pos hname, if_neg hsaw, relationContainsNext_of hvalid]
          rfl
        rw [hnote, hfirst, hrelation, if_neg hsaw]
        exact ih (Or.inl rfl) hanchors.2
    · have hlater : relationOf (parameter :: parameters) = relationOf parameters := by
        rw [relationOf, List.find?_cons, Bool.eq_false_of_not_eq_true hname]
        rfl
      rw [hlater] at hrel ⊢
      by_cases hanchor : parameter.is "anchor" = true
      · obtain ⟨value, hvalue, hvalid⟩ := hanchors.1 hanchor
        have hnote : parameter.note seen = some { seen with sawAnchor := true } := by
          rw [Parameter.note, hvalue]
          rw [Parameter.is] at hname hanchor
          dsimp only
          rw [noteValue, if_neg hname, if_pos hanchor, if_pos hvalid]
        rw [hnote, hanchor, Bool.true_or, Bool.or_true]
        refine (@ih { seen with sawAnchor := true } hrel hanchors.2).trans ?_
        rw [Bool.true_or]
      · have hnote : parameter.note seen = some seen := by
          rw [Parameter.note]
          rw [Parameter.is] at hname hanchor
          split
          · rw [noteName, if_neg hname, if_neg hanchor]
          · rw [noteValue, if_neg hname, if_neg hanchor]
        rw [hnote, Bool.eq_false_of_not_eq_true hanchor, Bool.false_or]
        exact ih hrel hanchors.2

/-- A link value is visited as it was written, and what follows it is left. -/
theorem parseLinkValue_render {link : Link} (h : link.Valid) {tail : Bytes}
    (htail : skipOws tail = [] ∨ ∃ rest, skipOws tail = byte ',' :: rest) :
    parseLinkValue (link.render ++ tail) = some ((link.target, link.hasNext), skipOws tail) := by
  have htarget : parseTarget (skipOws (link.render ++ tail)) =
      some (link.target, link.parameters.flatMap Parameter.render ++ (link.after.val ++ tail)) := by
    refine parseTarget_eq_some.mpr ⟨?_, Uri.closing_not_mem h.target, h.target⟩
    rw [Link.render, List.append_assoc, skipOws_append, List.cons_append, List.append_assoc,
      List.cons_append, List.append_assoc]
    rfl
  have hafter : skipOws (link.after.val ++ tail) = skipOws tail := skipOws_append link.after tail
  have hnotes := @notes_valid _ LinkParameters.none (Or.inr h.relation) h.anchors
  have hparameters := parameters_render (by rwa [← hafter] at htail) hnotes
  rw [parseLinkValue_eq, htarget, Option.bind_some, parseParameters_iff.mpr hparameters, hafter]
  rfl

theorem emptyElements_of_skipOws {text rest : Bytes} {b : UInt8} (h : skipOws text = b :: rest)
    (hb : b ≠ byte ',') : emptyElements text = (0, b :: rest) := by
  have hows : isOws b = false := by
    have hstops := stops_dropWhile isOws text
    rw [show text.dropWhile isOws = b :: rest from h] at hstops
    exact hstops b rfl
  induction text with
  | nil => cases h
  | cons c text ih =>
    rw [skipOws, List.dropWhile_cons] at h
    split at h
    · rename_i hc
      rw [emptyElements, if_pos hc]
      exact ih h
    · obtain ⟨rfl, rfl⟩ := List.cons.inj h
      rw [emptyElements, if_neg (by simp [hows]), if_neg (by simpa using hb)]

theorem renderLinks_cons (link : Link) (links : List Link) :
    renderLinks (link :: links) =
      link.render ++ if links = [] then [] else byte ',' :: renderLinks links := by
  match links with
  | [] =>
    rw [renderLinks, if_pos rfl]
    simp
  | next :: links =>
    rw [if_neg (List.cons_ne_nil _ _), renderLinks, List.map_cons, List.map_cons,
      List.intercalate_cons_cons, List.append_assoc]
    rfl

/-- Links begin with the angle bracket of the first. -/
theorem skipOws_renderLinks (link : Link) (links : List Link) :
    ∃ rest, skipOws (renderLinks (link :: links)) = byte '<' :: rest := by
  rw [renderLinks_cons, Link.render, List.append_assoc, skipOws_append]
  exact ⟨_, rfl⟩

theorem values_renderLinks {links : List Link} (hsome : links ≠ [])
    (h : ∀ link ∈ links, link.Valid) :
    Values (skipOws (renderLinks links)) (links.map fun link => (link.target, link.hasNext)) 0 := by
  induction links with
  | nil => exact absurd rfl hsome
  | cons link links ih =>
    rw [List.forall_mem_cons] at h
    have hskip (text : Bytes) : parseLinkValue (skipOws text) = parseLinkValue text := by
      rw [parseLinkValue_eq, parseLinkValue_eq, skipOws_skipOws]
    rw [renderLinks_cons, List.map_cons]
    match links with
    | [] =>
      have hread := @parseLinkValue_render _ h.1 [] (Or.inl rfl)
      rw [if_pos rfl]
      exact .last ((hskip _).trans hread) rfl
    | next :: links =>
      obtain ⟨rest, hrest⟩ := skipOws_renderLinks next links
      have helements := emptyElements_of_skipOws hrest (by decide)
      have hmore := ih (List.cons_ne_nil _ _) h.2
      have hread := @parseLinkValue_render _ h.1 (byte ',' :: renderLinks (next :: links))
        (Or.inr ⟨_, rfl⟩)
      have hvalues : Values (emptyElements (renderLinks (next :: links))).2
          ((next :: links).map fun link => (link.target, link.hasNext)) 0 := by
        rwa [helements, ← hrest]
      have hgoes : skipOws (renderLinks (next :: links)) ≠ [] := by
        rw [hrest]
        exact List.cons_ne_nil _ _
      have hsum := Values.more ((hskip _).trans hread) rfl hgoes hvalues
      rw [helements] at hsum
      rw [if_neg (List.cons_ne_nil _ _)]
      exact hsum

theorem parse_renderLinks {links : List Link} (h : ∀ link ∈ links, link.Valid) :
    parseLinkHeaderFields [renderLinks links] =
      ⟨links.map fun link => (link.target, link.hasNext), false⟩ := by
  refine (parseFields_iff (Nat.zero_le _)).mpr ⟨0, ?_, Nat.zero_le _⟩
  suffices Field (renderLinks links) (links.map fun link => (link.target, link.hasNext)) 0 by
    have hfields := Fields.cons this .nil
    rwa [List.append_nil] at hfields
  match links with
  | [] => exact ⟨0, .none, rfl⟩
  | link :: links =>
    obtain ⟨rest, hrest⟩ := skipOws_renderLinks link links
    have helements := emptyElements_of_skipOws hrest (by decide)
    refine ⟨0, ?_, ?_⟩
    · rw [helements]
      rw [← hrest]
      exact values_renderLinks (List.cons_ne_nil _ _) h
    · rw [helements]

-- ---------------------------------------------------------------------------
-- Lists of fields
-- ---------------------------------------------------------------------------

theorem parse_combine {fields : List Bytes} {visits : List (Bytes × Bool)} {limit : Nat}
    (h : parseFields limit fields 0 = ⟨visits, false⟩) :
    parseFields (limit + (fields.length - 1)) [combine fields] 0 = ⟨visits, false⟩ := by
  obtain ⟨count, hfields, hle⟩ := (parseFields_iff (Nat.zero_le _)).mp h
  obtain ⟨sum, hsum, -, hmost⟩ := hfields.combined
  refine (parseFields_iff (Nat.zero_le _)).mpr ⟨sum, ?_, by omega⟩
  have hwhole := Fields.cons hsum .nil
  rwa [List.append_nil, Nat.add_zero] at hwhole

theorem field_of_fields {field : Bytes} {visits : List (Bytes × Bool)} {count : Nat}
    (h : Fields [field] visits count) : Field field visits count := by
  cases h with
  | cons h hmore =>
    cases hmore
    rwa [List.append_nil]

theorem parse_of_combine {fields : List Bytes} {visits : List (Bytes × Bool)} {limit : Nat}
    (h : parseFields limit [combine fields] 0 = ⟨visits, false⟩)
    (hclosed : ∀ field ∈ fields, endsQuoted field = false) :
    parseFields limit fields 0 = ⟨visits, false⟩ := by
  obtain ⟨sum, hwhole, hle⟩ := (parseFields_iff (Nat.zero_le _)).mp h
  obtain ⟨count, hcount, hfields⟩ := Fields.of_combined (field_of_fields hwhole) hclosed
  exact (parseFields_iff (Nat.zero_le _)).mpr ⟨count, hfields, by omega⟩

theorem Fields.closed {fields : List Bytes} {visits : List (Bytes × Bool)} {count : Nat}
    (h : Fields fields visits count) : ∀ field ∈ fields, endsQuoted field = false := by
  induction h with
  | nil => simp
  | cons h hmore ih => exact List.forall_mem_cons.mpr ⟨h.closed, ih⟩

theorem parse_open {fields : List Bytes} {limit : Nat}
    (h : ∃ field ∈ fields, endsQuoted field = true) :
    (parseFields limit fields 0).syntaxError = true := by
  obtain ⟨field, hfield, hopen⟩ := h
  by_contra herror
  have hread : parseFields limit fields 0 = ⟨(parseFields limit fields 0).visited, false⟩ := by
    rw [← Bool.eq_false_of_not_eq_true herror]
  obtain ⟨count, hfields, -⟩ := (parseFields_iff (Nat.zero_le _)).mp hread
  rw [hfields.closed field hfield] at hopen
  cases hopen

theorem parseFields_mono {limit larger : Nat} {fields : List Bytes}
    {visits : List (Bytes × Bool)} (h : parseFields limit fields 0 = ⟨visits, false⟩)
    (hlarger : limit ≤ larger) : parseFields larger fields 0 = ⟨visits, false⟩ := by
  obtain ⟨count, hfields, hle⟩ := (parseFields_iff (Nat.zero_le _)).mp h
  exact (parseFields_iff (Nat.zero_le _)).mpr ⟨count, hfields, by omega⟩

/-- A list of fields is read as their combination is, up to the bound on empty elements
and to quoted strings that a field leaves open; and links are visited as written. -/
theorem link_header :
    (∀ (fields : List Bytes) (visits : List (Bytes × Bool)),
      parseLinkHeaderFields fields = ⟨visits, false⟩ →
        parseLinkHeaderFields [combine fields] = ⟨visits, false⟩ ∨
          (parseLinkHeaderFields [combine fields]).syntaxError = true ∧
            parseFields (maxIgnoredEmptyListElements + (fields.length - 1)) [combine fields] 0 =
              ⟨visits, false⟩) ∧
      (∀ (fields : List Bytes) (visits : List (Bytes × Bool)),
        parseLinkHeaderFields [combine fields] = ⟨visits, false⟩ →
          parseLinkHeaderFields fields = ⟨visits, false⟩ ∨
            (parseLinkHeaderFields fields).syntaxError = true ∧
              ∃ field ∈ fields, endsQuoted field = true) ∧
        ∀ links : List Link, (∀ link ∈ links, link.Valid) →
          parseLinkHeaderFields [renderLinks links] =
            ⟨links.map fun link => (link.target, link.hasNext), false⟩ := by
  refine ⟨fun fields visits h => ?_, fun fields visits h => ?_, fun links h => parse_renderLinks h⟩
  · have hlarger := parse_combine h
    by_cases herror : (parseLinkHeaderFields [combine fields]).syntaxError = true
    · exact Or.inr ⟨herror, hlarger⟩
    · have hread : parseLinkHeaderFields [combine fields] =
          ⟨(parseLinkHeaderFields [combine fields]).visited, false⟩ := by
        rw [← Bool.eq_false_of_not_eq_true herror]
      have hsame := (parseFields_mono hread (Nat.le_add_right _ _)).symm.trans hlarger
      rw [LinkHeaderVisits.mk.injEq] at hsame
      rw [hsame.1] at hread
      exact Or.inl hread
  · by_cases hopen : ∃ field ∈ fields, endsQuoted field = true
    · exact Or.inr ⟨parse_open hopen, hopen⟩
    · refine Or.inl (parse_of_combine h fun field hfield => ?_)
      exact Bool.eq_false_of_not_eq_true fun hquoted => hopen ⟨field, hfield, hquoted⟩

/-- `<a>;title="x, y";rel=next` -/
def nextLink : Link where
  before := ⟨[], by simp⟩
  target := ascii "a"
  parameters :=
    [{ before := ⟨[], by simp⟩
       afterSemicolon := ⟨[], by simp⟩
       name := ⟨ascii "title", by decide +kernel⟩
       afterName := ⟨[], by simp⟩
       value := some (⟨[], by simp⟩, .quoted
         [.plain (byte 'x') (by decide), .plain (byte ',') (by decide),
           .plain (byte ' ') (by decide), .plain (byte 'y') (by decide)]) },
     { before := ⟨[], by simp⟩
       afterSemicolon := ⟨[], by simp⟩
       name := ⟨ascii "rel", by decide +kernel⟩
       afterName := ⟨[], by simp⟩
       value := some (⟨[], by simp⟩, .token ⟨ascii "next", by decide +kernel⟩) }]
  after := ⟨[], by simp⟩

theorem nextLink_valid : nextLink.Valid where
  target := by decide +kernel
  relation := by
    refine ⟨ascii "next", by decide +kernel, by decide, by decide, by decide, ?_⟩
    decide +kernel
  anchors := by
    intro parameter hparameter hanchor
    have hnone : ∀ parameter ∈ nextLink.parameters, parameter.is "anchor" = false := by
      rw [nextLink]
      simp only [List.forall_mem_cons, List.not_mem_nil, false_implies, implies_true, and_true]
      exact ⟨by decide +kernel, by decide +kernel⟩
    rw [hnone parameter hparameter] at hanchor
    cases hanchor

theorem link_header_next :
    parseLinkHeaderFields [ascii "<a>;title=\"x, y\";rel=next"] = ⟨[(ascii "a", true)], false⟩ := by
  have hread := link_header.2.2 [nextLink] (List.forall_mem_singleton.mpr nextLink_valid)
  have hnext : nextLink.hasNext = true := by decide +kernel
  have htext : renderLinks [nextLink] = ascii "<a>;title=\"x, y\";rel=next" := by decide +kernel
  rw [htext, List.map_singleton, hnext] at hread
  exact hread

/-- A quoted string that begins in one field and ends in the next is read in their
combination only; fields without a value are read one by one only. -/
theorem combination_differs :
    ((parseLinkHeaderFields [ascii "<a>;title=\"x", ascii "y\";rel=next"]).syntaxError = true ∧
      parseLinkHeaderFields [combine [ascii "<a>;title=\"x", ascii "y\";rel=next"]] =
        ⟨[(ascii "a", true)], false⟩) ∧
      parseLinkHeaderFields (List.replicate 130 []) = ⟨[], false⟩ ∧
      (parseLinkHeaderFields [combine (List.replicate 130 [])]).syntaxError = true := by
  refine ⟨⟨parse_open ⟨_, List.mem_cons_self, by decide +kernel⟩, ?_⟩, ?_, ?_⟩
  · have hlink := parse_renderLinks (List.forall_mem_singleton.mpr nextLink_valid)
    have hnext : nextLink.hasNext = true := by decide +kernel
    have htext : combine [ascii "<a>;title=\"x", ascii "y\";rel=next"] =
        renderLinks [nextLink] := by decide +kernel
    rw [htext, hlink, List.map_singleton, hnext]
    rfl
  · have hempty (count : Nat) : Fields (List.replicate count []) [] 0 := by
      induction count with
      | zero => exact .nil
      | succ count ih =>
        have hfield : Field [] [] 0 := ⟨0, .none, rfl⟩
        exact .cons hfield ih
    exact (parseFields_iff (Nat.zero_le _)).mpr ⟨0, hempty 130, Nat.zero_le _⟩
  · have hfull : skipEmptyElements maxIgnoredEmptyListElements (combine (List.replicate 130 [])) 0 =
        none := by decide +kernel
    rw [parseLinkHeaderFields, parseFields, hfull]

end Cuac.Runtime.LinkHeader

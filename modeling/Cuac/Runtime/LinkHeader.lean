import Cuac.Lib.Lexing
import Cuac.Runtime.LinkPagination
import Cuac.Runtime.UriAcceptance

/-!
# Runtime — Link header fields

`ParseLinkHeaderFields`: the grammar of RFC 8288 over the physical fields of a
response, one after the other. A scanner takes the text at the offset and gives
back what it read and the text that is left.

Main results:

* `parseValues_iff` — a field is read if its values are, and its empty elements
  fit the bound.
* `parseFields_iff` — the same for a list of fields.
-/

namespace Cuac.Runtime.LinkHeader

open Cuac.Lib
open Cuac.Runtime.Pagination (LinkHeaderVisits)
open Cuac.Runtime.Uri (isValidUri isValidUriReference)

def maxIgnoredEmptyListElements : Nat := 128

-- ---------------------------------------------------------------------------
-- Characters and words
-- ---------------------------------------------------------------------------

def isOws (b : UInt8) : Bool := b == byte ' ' || b == 0x09

def isAsciiAlpha (b : UInt8) : Bool :=
  (byte 'a' ≤ b && b ≤ byte 'z') || (byte 'A' ≤ b && b ≤ byte 'Z')

def isAsciiDigit (b : UInt8) : Bool := byte '0' ≤ b && b ≤ byte '9'

def toAsciiLower (b : UInt8) : UInt8 :=
  if byte 'A' ≤ b && b ≤ byte 'Z' then b + (byte 'a' - byte 'A') else b

def skipOws (text : Bytes) : Bytes := text.dropWhile isOws

def isTokenCharacter (b : UInt8) : Bool :=
  isAsciiAlpha b || isAsciiDigit b || b == byte '!' || b == byte '#' || b == byte '$' ||
    b == byte '%' || b == byte '&' || b == 0x27 || b == byte '*' || b == byte '+' ||
    b == byte '-' || b == byte '.' || b == byte '^' || b == byte '_' || b == 0x60 ||
    b == byte '|' || b == byte '~'

def parseToken (text : Bytes) : Option (Bytes × Bytes) :=
  if (text.takeWhile isTokenCharacter).isEmpty then none
  else some (text.takeWhile isTokenCharacter, text.dropWhile isTokenCharacter)

/-- What follows the opening quote. -/
def parseQuotedText : Bytes → Option (Bytes × Bytes)
  | [] => none
  | b :: rest =>
    if b == byte '"' then some ([], rest)
    else if b == 0x5C then
      match rest with
      | [] => none
      | escaped :: rest =>
        if escaped < 0x20 || escaped > 0x7E then none
        else (parseQuotedText rest).map fun read => (escaped :: read.1, read.2)
    else if (b < 0x20 && b != 0x09) || b == 0x7F then none
    else (parseQuotedText rest).map fun read => (b :: read.1, read.2)

def parseParameterValue (text : Bytes) : Option (Bytes × Bytes) :=
  match text with
  | [] => parseToken []
  | b :: rest => if b == byte '"' then parseQuotedText rest else parseToken (b :: rest)

def equalsAsciiIgnoreCase (left right : Bytes) : Bool :=
  left.length == right.length &&
    (left.zip right).all fun pair => toAsciiLower pair.1 == toAsciiLower pair.2

-- ---------------------------------------------------------------------------
-- Relations
-- ---------------------------------------------------------------------------

def isRegisteredRelation (relation : Bytes) : Bool :=
  match relation with
  | [] => false
  | first :: rest => isAsciiAlpha first &&
    rest.all fun b => isAsciiAlpha b || isAsciiDigit b || b == byte '.' || b == byte '-'

/-- The relation types of a value; runs of spaces are skipped. -/
def relationTypes (relation : Bytes) : List Bytes :=
  (relation.splitOn (byte ' ')).filter fun word => !word.isEmpty

def relationContainsNext (relation : Bytes) : Option Bool :=
  if relation.isEmpty || relation.head? == some (byte ' ') || relation.getLast? == some (byte ' ')
  then none
  else if (relationTypes relation).all fun word => isRegisteredRelation word || isValidUri word then
    some ((relationTypes relation).any fun word => equalsAsciiIgnoreCase word (ascii "next"))
  else none

-- ---------------------------------------------------------------------------
-- Parameters
-- ---------------------------------------------------------------------------

/-- What the parameters read so far have said. -/
structure LinkParameters where
  sawRel : Bool
  sawAnchor : Bool
  hasNextRelation : Bool
  deriving DecidableEq, Repr

def LinkParameters.none : LinkParameters := ⟨false, false, false⟩

/-- A name that no value follows. -/
def noteName (name : Bytes) (seen : LinkParameters) : Option LinkParameters :=
  if equalsAsciiIgnoreCase name (ascii "rel") then
    if seen.sawRel then some seen else Option.none
  else if equalsAsciiIgnoreCase name (ascii "anchor") then Option.none
  else some seen

/-- Only the first `rel` has a meaning. -/
def noteValue (name value : Bytes) (seen : LinkParameters) : Option LinkParameters :=
  if equalsAsciiIgnoreCase name (ascii "rel") then
    if seen.sawRel then some seen
    else (relationContainsNext value).map fun hasNext =>
      { seen with sawRel := true, hasNextRelation := hasNext }
  else if equalsAsciiIgnoreCase name (ascii "anchor") then
    if isValidUriReference value then some { seen with sawAnchor := true } else Option.none
  else some seen

/-- What may follow a name. -/
def parseAfterName (name text : Bytes) (seen : LinkParameters) :
    Option (LinkParameters × Bytes) :=
  match text with
  | [] => (noteName name seen).map fun seen => (seen, [])
  | b :: rest =>
    if b == byte '=' then
      (parseParameterValue (skipOws rest)).bind fun read =>
        (noteValue name read.1 seen).map fun seen => (seen, read.2)
    else (noteName name seen).map fun seen => (seen, b :: rest)

/-- A parameter; `text` is what follows its semicolon. -/
def parseParameter (text : Bytes) (seen : LinkParameters) : Option (LinkParameters × Bytes) :=
  (parseToken (skipOws text)).bind fun read => parseAfterName read.1 (skipOws read.2) seen

-- ---------------------------------------------------------------------------
-- What a scanner uses up
-- ---------------------------------------------------------------------------

theorem length_skipOws_le (text : Bytes) : (skipOws text).length ≤ text.length :=
  (List.dropWhile_suffix _).length_le

theorem length_parseToken {text word rest : Bytes} (h : parseToken text = some (word, rest)) :
    rest.length < text.length := by
  rw [parseToken] at h
  split at h
  · cases h
  · rename_i hword
    obtain ⟨-, rfl⟩ := Prod.mk.inj (Option.some.inj h)
    have hlength := congrArg List.length
      (List.takeWhile_append_dropWhile (p := isTokenCharacter) (l := text))
    rw [List.length_append] at hlength
    have hpos : 0 < (text.takeWhile isTokenCharacter).length :=
      List.length_pos_iff.mpr (by simpa using hword)
    omega

theorem length_parseQuotedText {text word rest : Bytes}
    (h : parseQuotedText text = some (word, rest)) : rest.length < text.length := by
  induction text using parseQuotedText.induct generalizing word with
  | case1 => cases h
  | case2 b more hb =>
    unfold parseQuotedText at h
    rw [if_pos hb] at h
    obtain ⟨-, rfl⟩ := Prod.mk.inj (Option.some.inj h)
    exact Nat.lt_succ_self _
  | case3 b hb hescape =>
    rw [parseQuotedText, if_neg hb, if_pos hescape] at h
    cases h
  | case4 b hb hescape escaped more hbad =>
    rw [parseQuotedText, if_neg hb, if_pos hescape, if_pos hbad] at h
    cases h
  | case5 b hb hescape escaped more hgood ih =>
    rw [parseQuotedText, if_neg hb, if_pos hescape, if_neg hgood, Option.map_eq_some_iff] at h
    obtain ⟨read, hread, heq⟩ := h
    obtain ⟨-, rfl⟩ := Prod.mk.inj heq
    have hless : read.2.length < more.length := ih hread
    rw [List.length_cons, List.length_cons]
    omega
  | case6 b more hb hescape hbad =>
    unfold parseQuotedText at h
    rw [if_neg hb, if_neg hescape, if_pos hbad] at h
    cases h
  | case7 b more hb hescape hgood ih =>
    unfold parseQuotedText at h
    rw [if_neg hb, if_neg hescape, if_neg hgood, Option.map_eq_some_iff] at h
    obtain ⟨read, hread, heq⟩ := h
    obtain ⟨-, rfl⟩ := Prod.mk.inj heq
    have hless : read.2.length < more.length := ih hread
    rw [List.length_cons]
    omega

theorem length_parseParameterValue {text word rest : Bytes}
    (h : parseParameterValue text = some (word, rest)) : rest.length < text.length := by
  match text with
  | [] => cases h
  | b :: more =>
    rw [parseParameterValue] at h
    split at h
    · exact Nat.lt_succ_of_lt (length_parseQuotedText h)
    · exact length_parseToken h

theorem length_parseAfterName {name text rest : Bytes} {seen more : LinkParameters}
    (h : parseAfterName name text seen = some (more, rest)) : rest.length ≤ text.length := by
  match text with
  | [] =>
    obtain ⟨_, -, heq⟩ := Option.map_eq_some_iff.mp h
    obtain ⟨-, rfl⟩ := Prod.mk.inj heq
    exact Nat.le_refl _
  | b :: text =>
    rw [parseAfterName] at h
    split at h
    · obtain ⟨read, hread, hnote⟩ := Option.bind_eq_some_iff.mp h
      obtain ⟨_, -, heq⟩ := Option.map_eq_some_iff.mp hnote
      obtain ⟨-, rfl⟩ := Prod.mk.inj heq
      have hless := length_parseParameterValue hread
      have hskip := length_skipOws_le text
      rw [List.length_cons]
      omega
    · obtain ⟨_, -, heq⟩ := Option.map_eq_some_iff.mp h
      obtain ⟨-, rfl⟩ := Prod.mk.inj heq
      exact Nat.le_refl _

theorem length_parseParameter {text rest : Bytes} {seen more : LinkParameters}
    (h : parseParameter text seen = some (more, rest)) : rest.length < text.length := by
  obtain ⟨read, hread, hafter⟩ := Option.bind_eq_some_iff.mp h
  have hname := length_parseToken hread
  have hvalue := length_parseAfterName hafter
  have hbefore := length_skipOws_le text
  have hbetween := length_skipOws_le read.2
  omega

-- ---------------------------------------------------------------------------
-- Link values
-- ---------------------------------------------------------------------------

/-- The loop over the parameters. -/
def parseParameters (text : Bytes) (seen : LinkParameters) : Option (LinkParameters × Bytes) :=
  match _hafter : skipOws text with
  | [] => some (seen, [])
  | b :: rest =>
    if b == byte ',' then some (seen, b :: rest)
    else if b != byte ';' then none
    else
      match _hread : parseParameter rest seen with
      | none => none
      | some (seen, rest) => parseParameters rest seen
termination_by text.length
decreasing_by
  have hless := length_parseParameter _hread
  have hskip := length_skipOws_le text
  rw [_hafter, List.length_cons] at hskip
  omega

/-- A target, its parameters, and whether it is visited as a next one. -/
def parseLinkValue (text : Bytes) : Option ((Bytes × Bool) × Bytes) :=
  match skipOws text with
  | [] => none
  | b :: rest =>
    if b != byte '<' then none
    else
      (cut [byte '>'] rest).bind fun halves =>
        if !isValidUriReference halves.1 then none
        else
          (parseParameters halves.2 LinkParameters.none).bind fun read =>
            if !read.1.sawRel then none
            else some ((halves.1, read.1.hasNextRelation && !read.1.sawAnchor), read.2)

/-- The parameters of a text, one after the other. -/
inductive Parameters : Bytes → LinkParameters → LinkParameters → Bytes → Prop
  | atEnd {text seen} (h : skipOws text = []) : Parameters text seen seen []
  | atComma {text seen rest} (h : skipOws text = byte ',' :: rest) :
    Parameters text seen seen (byte ',' :: rest)
  | more {text seen next last after rest left} (h : skipOws text = byte ';' :: after)
    (hread : parseParameter after seen = some (next,
      rest)) (hmore : Parameters rest next last left) :
    Parameters text seen last left

theorem parseParameters_eq (text : Bytes) (seen : LinkParameters) :
    parseParameters text seen =
      match skipOws text with
      | [] => some (seen, [])
      | b :: rest =>
        if b == byte ',' then some (seen, b :: rest)
        else if b != byte ';' then none
        else (parseParameter rest seen).bind fun read => parseParameters read.2 read.1 := by
  rw [parseParameters]
  split
  · rename_i hafter
    rw [hafter]
  · rename_i b rest hafter
    rw [hafter]
    dsimp only
    split
    · rfl
    split
    · rfl
    split
    · rename_i hread
      rw [hread]
      rfl
    · rename_i hread
      rw [hread]
      rfl

theorem parseParameters_iff {text left : Bytes} {seen last : LinkParameters} :
    parseParameters text seen = some (last, left) ↔ Parameters text seen last left := by
  constructor
  · intro h
    induction text, seen using parseParameters.induct with
    | case1 text seen hafter =>
      rw [parseParameters_eq, hafter] at h
      obtain ⟨rfl, rfl⟩ := Prod.mk.inj (Option.some.inj h)
      exact .atEnd hafter
    | case2 text seen b rest hafter hcomma =>
      rw [parseParameters_eq, hafter] at h
      dsimp only at h
      rw [if_pos hcomma] at h
      obtain ⟨rfl, rfl⟩ := Prod.mk.inj (Option.some.inj h)
      rw [beq_iff_eq.mp hcomma] at hafter ⊢
      exact .atComma hafter
    | case3 text seen b rest hafter hcomma hmark =>
      rw [parseParameters_eq, hafter] at h
      dsimp only at h
      rw [if_neg hcomma, if_pos hmark] at h
      cases h
    | case4 text seen b rest hafter hcomma hmark hread =>
      rw [parseParameters_eq, hafter] at h
      dsimp only at h
      rw [if_neg hcomma, if_neg hmark, hread] at h
      cases h
    | case5 text seen b rest hafter hcomma hmark next more hread ih =>
      rw [parseParameters_eq, hafter] at h
      dsimp only at h
      rw [if_neg hcomma, if_neg hmark, hread] at h
      rw [bne_iff_ne, Decidable.not_not] at hmark
      rw [hmark] at hafter
      exact .more hafter hread (ih h)
  · intro h
    induction h with
    | atEnd h => rw [parseParameters_eq, h]
    | atComma h =>
      rw [parseParameters_eq, h]
      rfl
    | more h hread hmore ih =>
      rw [parseParameters_eq, h]
      dsimp only
      rw [if_neg (by decide), if_neg (by decide), hread]
      exact ih

theorem length_parseParameters {text left : Bytes} {seen last : LinkParameters}
    (h : Parameters text seen last left) : left.length ≤ text.length := by
  induction h with
  | atEnd h => exact Nat.zero_le _
  | @atComma text seen rest h =>
    have hskip := length_skipOws_le text
    rwa [h] at hskip
  | @more text seen next last after rest left h hread hmore ih =>
    have hskip := length_skipOws_le text
    have hless := length_parseParameter hread
    rw [h, List.length_cons] at hskip
    omega

theorem length_parseLinkValue {text rest : Bytes} {visit : Bytes × Bool}
    (h : parseLinkValue text = some (visit, rest)) : rest.length < text.length := by
  have hskip := length_skipOws_le text
  rw [parseLinkValue] at h
  split at h
  · cases h
  · rename_i b after hafter
    rw [hafter, List.length_cons] at hskip
    split at h
    · cases h
    · obtain ⟨halves, hhalves, h⟩ := Option.bind_eq_some_iff.mp h
      split at h
      · cases h
      · obtain ⟨read, hread, h⟩ := Option.bind_eq_some_iff.mp h
        split at h
        · cases h
        · obtain ⟨-, rfl⟩ := Prod.mk.inj (Option.some.inj h)
          have hrest := length_parseParameters (parseParameters_iff.mp hread)
          have hcut := congrArg List.length (cut_eq_some hhalves)
          simp only [List.length_append, List.length_singleton] at hcut
          omega

-- ---------------------------------------------------------------------------
-- Fields
-- ---------------------------------------------------------------------------

/-- The counter after one more empty element, if that is not one too many. -/
def ignoreEmptyElement (limit ignored : Nat) : Option Nat :=
  if limit < ignored + 1 then none else some (ignored + 1)

/-- Whitespace and commas before a value. -/
def skipEmptyElements (limit : Nat) : Bytes → Nat → Option (Bytes × Nat)
  | [], ignored => some ([], ignored)
  | b :: rest, ignored =>
    if isOws b then skipEmptyElements limit rest ignored
    else if b == byte ',' then
      (ignoreEmptyElement limit ignored).bind (skipEmptyElements limit rest)
    else some (b :: rest, ignored)

theorem length_skipEmptyElements {limit ignored total : Nat} {text rest : Bytes}
    (h : skipEmptyElements limit text ignored = some (rest, total)) :
    rest.length ≤ text.length := by
  induction text generalizing ignored with
  | nil =>
    obtain ⟨rfl, -⟩ := Prod.mk.inj (Option.some.inj h)
    exact Nat.le_refl _
  | cons b text ih =>
    rw [skipEmptyElements] at h
    split at h
    · exact Nat.le_succ_of_le (ih h)
    split at h
    · obtain ⟨_, -, h⟩ := Option.bind_eq_some_iff.mp h
      exact Nat.le_succ_of_le (ih h)
    · obtain ⟨rfl, -⟩ := Prod.mk.inj (Option.some.inj h)
      exact Nat.le_refl _

/-- The loop over the values of a field: what is visited, and the counter at the
end unless the field is malformed. -/
def parseValues (limit : Nat) (text : Bytes) (ignored : Nat) : List (Bytes × Bool) × Option Nat :=
  if text.isEmpty then ([], some ignored)
  else
    match _hvalue : parseLinkValue text with
    | none => ([], none)
    | some (visit, rest) =>
      match _hrest : skipOws rest with
      | [] => ([visit], some ignored)
      | b :: more =>
        if b != byte ',' then ([visit], none)
        else if (skipOws more).isEmpty then ([visit], ignoreEmptyElement limit ignored)
        else
          match _hskip : skipEmptyElements limit more ignored with
          | none => ([visit], none)
          | some (next, ignored) =>
            ((visit :: (parseValues limit next ignored).1), (parseValues limit next ignored).2)
termination_by text.length
decreasing_by
  all_goals
    have hless := length_parseLinkValue _hvalue
    have hows := length_skipOws_le rest
    have hempty := length_skipEmptyElements _hskip
    rw [_hrest, List.length_cons] at hows
    omega

/-- The loop over the fields. -/
def parseFields (limit : Nat) : List Bytes → Nat → LinkHeaderVisits
  | [], _ => ⟨[], false⟩
  | field :: fields, ignored =>
    match skipEmptyElements limit field ignored with
    | none => ⟨[], true⟩
    | some (text, ignored) =>
      match parseValues limit text ignored with
      | (visits, none) => ⟨visits, true⟩
      | (visits, some ignored) =>
        ⟨visits ++ (parseFields limit fields ignored).visited,
          (parseFields limit fields ignored).syntaxError⟩

def parseLinkHeaderFields (fields : List Bytes) : LinkHeaderVisits :=
  parseFields maxIgnoredEmptyListElements fields 0

-- ---------------------------------------------------------------------------
-- Fields that are read
-- ---------------------------------------------------------------------------

/-- The commas before a value, with whitespace, and what follows them. -/
def emptyElements : Bytes → Nat × Bytes
  | [] => (0, [])
  | b :: rest =>
    if isOws b then emptyElements rest
    else if b == byte ',' then ((emptyElements rest).1 + 1, (emptyElements rest).2)
    else (0, b :: rest)

theorem skipEmptyElements_iff {limit ignored total : Nat} {text rest : Bytes}
    (hlimit : ignored ≤ limit) :
    skipEmptyElements limit text ignored = some (rest, total) ↔
      rest = (emptyElements text).2 ∧ total = ignored + (emptyElements text).1 ∧ total ≤ limit := by
  induction text generalizing ignored with
  | nil =>
    rw [skipEmptyElements, emptyElements, Option.some.injEq, Prod.mk.injEq]
    constructor
    · rintro ⟨rfl, rfl⟩
      exact ⟨rfl, rfl, hlimit⟩
    · rintro ⟨rfl, rfl, -⟩
      exact ⟨rfl, rfl⟩
  | cons b text ih =>
    rw [skipEmptyElements, emptyElements]
    by_cases hows : isOws b = true
    · rw [if_pos hows, if_pos hows]
      exact ih hlimit
    rw [if_neg hows, if_neg hows]
    by_cases hcomma : (b == byte ',') = true
    · rw [if_pos hcomma, if_pos hcomma, ignoreEmptyElement]
      by_cases hfull : limit < ignored + 1
      · rw [if_pos hfull]
        constructor
        · intro h
          cases h
        · rintro ⟨-, htotal, hle⟩
          dsimp only at htotal
          omega
      · rw [if_neg hfull, Option.bind_some, ih (by omega)]
        dsimp only
        rw [Nat.add_assoc, Nat.add_comm 1]
    · rw [if_neg hcomma, if_neg hcomma, Option.some.injEq, Prod.mk.injEq]
      constructor
      · rintro ⟨rfl, rfl⟩
        exact ⟨rfl, rfl, hlimit⟩
      · rintro ⟨rfl, rfl, -⟩
        exact ⟨rfl, rfl⟩

/-- The values of a text, what they are visited with, and the empty elements
between and after them. -/
inductive Values : Bytes → List (Bytes × Bool) → Nat → Prop
  | none : Values [] [] 0
  | last {text visit rest} (h : parseLinkValue text = some (visit, rest))
    (hend : skipOws rest = []) : Values text [visit] 0
  | trailing {text visit rest after} (h : parseLinkValue text = some (visit, rest))
    (hcomma : skipOws rest = byte ',' :: after) (hend : skipOws after = []) :
    Values text [visit] 1
  | more {text visit rest after visits count} (h : parseLinkValue text = some (visit, rest))
    (hcomma : skipOws rest = byte ',' :: after) (hend : skipOws after ≠ [])
    (hmore : Values (emptyElements after).2 visits count) :
    Values text (visit :: visits) ((emptyElements after).1 + count)

theorem parseValues_eq (limit : Nat) (text : Bytes) (ignored : Nat) :
    parseValues limit text ignored =
      if text.isEmpty then ([], some ignored)
      else
        match parseLinkValue text with
        | none => ([], none)
        | some (visit, rest) =>
          match skipOws rest with
          | [] => ([visit], some ignored)
          | b :: more =>
            if b != byte ',' then ([visit], none)
            else if (skipOws more).isEmpty then ([visit], ignoreEmptyElement limit ignored)
            else
              match skipEmptyElements limit more ignored with
              | none => ([visit], none)
              | some (next, ignored) =>
                ((visit :: (parseValues limit next ignored).1),
                  (parseValues limit next ignored).2) := by
  rw [parseValues]
  split
  · rfl
  split
  · rename_i hvalue
    rw [hvalue]
  · rename_i hvalue
    rw [hvalue]
    dsimp only
    split
    · rename_i hrest
      rw [hrest]
    · rename_i hrest
      rw [hrest]
      dsimp only
      split
      · rfl
      split
      · rfl
      split
      · rename_i hskip
        rw [hskip]
      · rename_i hskip
        rw [hskip]

theorem parseValues_iff {limit ignored total : Nat} {text : Bytes} {visits : List (Bytes × Bool)}
    (hlimit : ignored ≤ limit) :
    parseValues limit text ignored = (visits, some total) ↔
      ∃ count, Values text visits count ∧ total = ignored + count ∧ total ≤ limit := by
  constructor
  · intro h
    -- The cases are the turns of the loop: empty, malformed, last, no comma, trailing comma,
    -- too many empty elements, and one more value.
    induction text, ignored using parseValues.induct limit generalizing visits total with
    | case1 text ignored hempty =>
      rw [parseValues_eq, if_pos hempty] at h
      obtain ⟨rfl, htotal⟩ := Prod.mk.inj h
      rw [List.isEmpty_iff.mp hempty]
      exact ⟨0, .none, (Option.some.inj htotal).symm, by rwa [← Option.some.inj htotal]⟩
    | case2 text ignored hempty hvalue =>
      rw [parseValues_eq, if_neg hempty, hvalue] at h
      cases h
    | case3 text ignored hempty visit rest hvalue hrest =>
      rw [parseValues_eq, if_neg hempty, hvalue] at h
      dsimp only at h
      rw [hrest] at h
      obtain ⟨rfl, htotal⟩ := Prod.mk.inj h
      exact ⟨0, .last hvalue hrest, (Option.some.inj htotal).symm,
        by rwa [← Option.some.inj htotal]⟩
    | case4 text ignored hempty visit rest hvalue b more hrest hcomma =>
      rw [parseValues_eq, if_neg hempty, hvalue] at h
      dsimp only at h
      rw [hrest] at h
      dsimp only at h
      rw [if_pos hcomma] at h
      cases h
    | case5 text ignored hempty visit rest hvalue b more hrest hcomma hend =>
      rw [parseValues_eq, if_neg hempty, hvalue] at h
      dsimp only at h
      rw [hrest] at h
      dsimp only at h
      rw [if_neg hcomma, if_pos hend, ignoreEmptyElement] at h
      rw [bne_iff_ne, Decidable.not_not] at hcomma
      rw [hcomma] at hrest
      split at h
      · cases h
      · obtain ⟨rfl, htotal⟩ := Prod.mk.inj h
        have htotal := Option.some.inj htotal
        exact ⟨1, .trailing hvalue hrest (List.isEmpty_iff.mp hend), htotal.symm, by omega⟩
    | case6 text ignored hempty visit rest hvalue b more hrest hcomma hend hskip =>
      rw [parseValues_eq, if_neg hempty, hvalue] at h
      dsimp only at h
      rw [hrest] at h
      dsimp only at h
      rw [if_neg hcomma, if_neg hend, hskip] at h
      cases h
    | case7 text ignored hempty visit rest hvalue b more hrest hcomma hend next reached hskip ih =>
      rw [parseValues_eq, if_neg hempty, hvalue] at h
      dsimp only at h
      rw [hrest] at h
      dsimp only at h
      rw [if_neg hcomma, if_neg hend, hskip] at h
      obtain ⟨rfl, htotal⟩ := Prod.mk.inj h
      rw [bne_iff_ne, Decidable.not_not] at hcomma
      rw [hcomma] at hrest
      obtain ⟨rfl, rfl, hle⟩ := (skipEmptyElements_iff hlimit).mp hskip
      obtain ⟨count, hvalues, rfl, hfit⟩ := ih hle (Prod.ext rfl htotal)
      refine ⟨_, .more hvalue hrest (by simpa using hend) hvalues, ?_, hfit⟩
      rw [Nat.add_assoc]
  · rintro ⟨count, hvalues, rfl, hfit⟩
    -- Backwards the derivation says which turn the loop takes.
    induction hvalues generalizing ignored with
    | none =>
      rw [parseValues_eq]
      rfl
    | @last text visit rest hvalue hend =>
      have hsome : ¬text.isEmpty = true := by
        rw [List.isEmpty_iff]
        rintro rfl
        cases hvalue
      rw [parseValues_eq, if_neg hsome, hvalue]
      dsimp only
      rw [hend]
      rfl
    | @trailing text visit rest after hvalue hcomma hend =>
      have hsome : ¬text.isEmpty = true := by
        rw [List.isEmpty_iff]
        rintro rfl
        cases hvalue
      rw [parseValues_eq, if_neg hsome, hvalue]
      dsimp only
      rw [hcomma]
      dsimp only
      rw [if_neg (by decide), if_pos (by rw [hend]; rfl), ignoreEmptyElement, if_neg (by omega)]
    | @more text visit rest after visits count hvalue hcomma hend hmore ih =>
      have hsome : ¬text.isEmpty = true := by
        rw [List.isEmpty_iff]
        rintro rfl
        cases hvalue
      have hskip : skipEmptyElements limit after ignored =
          some ((emptyElements after).2, ignored + (emptyElements after).1) :=
        (skipEmptyElements_iff hlimit).mpr ⟨rfl, rfl, by omega⟩
      have hrest : parseValues limit (emptyElements after).2 (ignored + (emptyElements after).1) =
          (visits, some (ignored + (emptyElements after).1 + count)) := ih (by omega) (by omega)
      rw [parseValues_eq, if_neg hsome, hvalue]
      dsimp only
      rw [hcomma]
      dsimp only
      rw [if_neg (by decide), if_neg (by rw [List.isEmpty_iff]; exact hend), hskip]
      dsimp only
      rw [hrest, Nat.add_assoc]

/-- A field that is read. -/
def Field (field : Bytes) (visits : List (Bytes × Bool)) (count : Nat) : Prop :=
  ∃ later, Values (emptyElements field).2 visits later ∧ count = (emptyElements field).1 + later

/-- Fields that are read, one after the other. -/
inductive Fields : List Bytes → List (Bytes × Bool) → Nat → Prop
  | nil : Fields [] [] 0
  | cons {field fields visits later count total} (h : Field field visits count)
    (hmore : Fields fields later total) :
    Fields (field :: fields) (visits ++ later) (count + total)

theorem parseFields_iff {limit ignored : Nat} {fields : List Bytes}
    {visits : List (Bytes × Bool)} (hlimit : ignored ≤ limit) :
    parseFields limit fields ignored = ⟨visits, false⟩ ↔
      ∃ count, Fields fields visits count ∧ ignored + count ≤ limit := by
  induction fields generalizing visits ignored with
  | nil =>
    rw [parseFields, LinkHeaderVisits.mk.injEq]
    constructor
    · rintro ⟨rfl, -⟩
      exact ⟨0, .nil, hlimit⟩
    · rintro ⟨count, h, -⟩
      cases h
      exact ⟨rfl, rfl⟩
  | cons field fields ih =>
    rw [parseFields]
    constructor
    · intro h
      split at h
      · cases h
      · rename_i text reached hskip
        obtain ⟨rfl, rfl, hle⟩ := (skipEmptyElements_iff hlimit).mp hskip
        split at h
        · cases h
        · rename_i read after hread
          obtain ⟨count, hvalues, rfl, hfit⟩ := (parseValues_iff hle).mp hread
          obtain ⟨rfl, herror⟩ := (LinkHeaderVisits.mk.injEq ..).mp h
          obtain ⟨total, hfields, htotal⟩ := (ih hfit).mp
            (show _ = LinkHeaderVisits.mk _ false by rw [← herror])
          exact ⟨_, .cons ⟨count, hvalues, rfl⟩ hfields, by omega⟩
    · rintro ⟨_, h, hfit⟩
      cases h with
      | @cons _ _ read later count total h hmore =>
        obtain ⟨more, hvalues, rfl⟩ := h
        have hskip : skipEmptyElements limit field ignored =
            some ((emptyElements field).2, ignored + (emptyElements field).1) :=
          (skipEmptyElements_iff hlimit).mpr ⟨rfl, rfl, by omega⟩
        have hread : parseValues limit (emptyElements field).2
            (ignored + (emptyElements field).1) =
              (read, some (ignored + (emptyElements field).1 + more)) :=
          (parseValues_iff (by omega)).mpr ⟨more, hvalues, rfl, by omega⟩
        have hrest : parseFields limit fields (ignored + (emptyElements field).1 + more) =
            ⟨later, false⟩ := (ih (by omega)).mpr ⟨total, hmore, by omega⟩
        rw [hskip]
        dsimp only
        rw [hread]
        dsimp only
        rw [hrest]

end Cuac.Runtime.LinkHeader


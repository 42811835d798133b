import Mathlib.Data.List.DropRight
import Cuac.Lib.Json

/-!
# Connector — the failsafe YAML parser

`ParseFailsafeYaml`: a document is cut into lines, and three block parsers walk the
lines by their indentation; what stands on one line is read by an inline parser. The
source keeps a position in the line and an index into the lines; here a function
takes the text, or the lines, still to be read and returns what it leaves. The span of
an error begins at a `Place`, which is what of the document is left there; the spans of
nodes are left out, and so is cancellation: the model is of a run that nobody cancels.

A recursion of the source is a recursion on a number of turns. One that runs out of
turns answers `running`, which the parser never throws. The block and inline loops
take the parser of what they hold as an argument, so that each parser is one
recursion.
-/

namespace Cuac.Connector.FailsafeYaml

open Cuac.Lib Cuac.Lib.Json

-- ---------------------------------------------------------------------------
-- Errors, limits and nodes
-- ---------------------------------------------------------------------------

inductive ErrorCode
  | cancelled
  | invalidEncoding
  | forbiddenSyntax
  | malformedDocument
  | duplicateKey
  | resourceExhausted
  deriving DecidableEq, Repr

/-- Where a span begins: the number of lines left, from its own on, and the bytes left of
that line. No line is left at the end of the document. -/
structure Place where
  lines : Nat
  bytes : Nat
  deriving DecidableEq, Repr

/-- The cursor of a parser that sees one line. -/
def here (input : Bytes) : Place :=
  ⟨1, input.length⟩

/-- The first byte of a document. -/
def startOf (texts : List Bytes) : Place :=
  ⟨texts.length, (texts.headD []).length⟩

/-- The line of a place. A span at the end of the document is on its last line. -/
def Place.line (place : Place) (texts : List Bytes) : Nat :=
  max 1 (min texts.length (texts.length + 1 - place.lines))

def Place.column (place : Place) (texts : List Bytes) : Nat :=
  if place.lines = 0 then 1
  else (texts.getD (texts.length - place.lines) []).length - place.bytes + 1

/-- `FailsafeYamlError`, without its file and the end of its span. -/
structure Error where
  code : ErrorCode
  message : Bytes
  place : Place
  deriving DecidableEq, Repr

/-- Why the parser stopped before its end. -/
inductive Stop
  | thrown (error : Error)
  | running
  deriving DecidableEq, Repr

abbrev Result (α : Type) := Except Stop α

def fail {α : Type} (code : ErrorCode) (message : String) (place : Place) : Result α :=
  .error (.thrown ⟨code, ascii message, place⟩)

/-- A stop in a text that has more lines, and more bytes of its line, behind it. -/
def Stop.followed (lines bytes : Nat) : Stop → Stop
  | .thrown error =>
    .thrown { error with place := ⟨error.place.lines + lines, error.place.bytes + bytes⟩ }
  | .running => .running

def followed {α : Type} (lines bytes : Nat) (read : Result α) : Result α :=
  read.mapError (Stop.followed lines bytes)

@[simp] theorem followed_ok {α : Type} (lines bytes : Nat) (a : α) :
    followed lines bytes (.ok a : Result α) = .ok a := rfl

/-- `FailsafeYamlLimits`. -/
structure Limits where
  maxDepth : Nat
  maxNodes : Nat
  maxScalarBytes : Nat
  maxContainerEntries : Nat
  deriving DecidableEq, Repr

def Limits.v1 : Limits :=
  ⟨32, 100000, 1024 * 1024, 4096⟩

/-- `FailsafeYamlBudget`: one account for all documents of a package. -/
structure Budget where
  limits : Limits
  nodesConsumed : Nat
  deriving DecidableEq, Repr

/-- The constructor, which throws `std::invalid_argument` at a limit of zero. -/
def Budget.make (limits : Limits) : Except Bytes Budget := do
  throwIf (limits.maxDepth == 0 || limits.maxNodes == 0 || limits.maxScalarBytes == 0 ||
    limits.maxContainerEntries == 0) (ascii "YAML limits must be positive")
  let spec := Limits.v1
  .ok ⟨⟨min limits.maxDepth spec.maxDepth, min limits.maxNodes spec.maxNodes,
    min limits.maxScalarBytes spec.maxScalarBytes,
    min limits.maxContainerEntries spec.maxContainerEntries⟩, 0⟩

inductive ScalarStyle
  | plain
  | doubleQuoted
  deriving DecidableEq, Repr

/-- `FailsafeYamlNode`. -/
inductive Node
  | scalar (value : Bytes) (style : ScalarStyle)
  | mapping (entries : List (Bytes × Node))
  | sequence (values : List Node)

/-- `FailsafeYamlLine`, without its offset and number. -/
structure Line where
  text : Bytes
  indent : Nat
  blank : Bool
  deriving DecidableEq, Repr

section Account

variable (limits : Limits)

def checkScalarSize (place : Place) (size : Nat) : Result Unit :=
  if limits.maxScalarBytes < size then
    fail .resourceExhausted "YAML scalar budget is exhausted" place
  else .ok ()

def checkScalarAppend (place : Place) (retained additional : Nat) : Result Unit :=
  if limits.maxScalarBytes < additional || limits.maxScalarBytes - additional < retained then
    fail .resourceExhausted "YAML scalar budget is exhausted" place
  else .ok ()

def checkDepth (place : Place) (depth : Nat) : Result Unit :=
  if limits.maxDepth < depth then
    fail .resourceExhausted "YAML nesting budget is exhausted" place
  else .ok ()

def checkEntry (place : Place) (retained : Nat) : Result Unit :=
  if limits.maxContainerEntries ≤ retained then
    fail .resourceExhausted "YAML container-entry budget is exhausted" place
  else .ok ()

/-- The number of nodes consumed, one more. -/
def consumeNode (place : Place) (nodes : Nat) : Result Nat :=
  if limits.maxNodes ≤ nodes then fail .resourceExhausted "YAML node budget is exhausted" place
  else .ok (nodes + 1)

def reserveContainer (place : Place) (depth nodes : Nat) : Result Nat := do
  checkDepth limits place depth
  consumeNode limits place nodes

def consumeKey (place : Place) (key : Bytes) (nodes : Nat) : Result Nat :=
  if key = ascii "<<" then fail .forbiddenSyntax "YAML merge keys are forbidden" place
  else consumeNode limits place nodes

end Account

-- ---------------------------------------------------------------------------
-- Lines
-- ---------------------------------------------------------------------------

def space : UInt8 := byte ' '

def hash : UInt8 := byte '#'

def isSpace (b : UInt8) : Bool :=
  b == space

/-- `TrimLeftSpaces` and `SkipSpaces`. -/
def skipSpaces (text : Bytes) : Bytes :=
  text.dropWhile isSpace

def trimRightSpaces (text : Bytes) : Bytes :=
  text.rdropWhile isSpace

def isContinuation (b : UInt8) : Bool :=
  (b &&& 0xC0) == 0x80

def isValidUtf8From : Nat → Bytes → Bool
  | _, [] => true
  | 0, _ :: _ => false
  | turns + 1, lead :: rest =>
    if lead ≤ 0x7F then isValidUtf8From turns rest
    else if 0xC2 ≤ lead && lead ≤ 0xDF then
      match rest with
      | second :: rest => isContinuation second && isValidUtf8From turns rest
      | _ => false
    else if 0xE0 ≤ lead && lead ≤ 0xEF then
      match rest with
      | second :: third :: rest =>
        !(!isContinuation second || !isContinuation third || (lead == 0xE0 && second < 0xA0) ||
          (lead == 0xED && 0xA0 ≤ second)) && isValidUtf8From turns rest
      | _ => false
    else if 0xF0 ≤ lead && lead ≤ 0xF4 then
      match rest with
      | second :: third :: fourth :: rest =>
        !(!isContinuation second || !isContinuation third || !isContinuation fourth ||
          (lead == 0xF0 && second < 0x90) || (lead == 0xF4 && 0x90 ≤ second)) &&
          isValidUtf8From turns rest
      | _ => false
    else false

def isValidUtf8 (value : Bytes) : Bool :=
  isValidUtf8From value.length value

/-- The pieces between line feeds; a line feed at the end opens no line. -/
def splitLines : Bytes → List Bytes
  | [] => []
  | b :: rest =>
    if b == lf then [] :: splitLines rest
    else
      match splitLines rest with
      | [] => [[b]]
      | line :: more => (b :: line) :: more

/-- The text before the first `" #"`. -/
def beforeMarker : Bytes → Option Bytes
  | [] => none
  | b :: rest =>
    if b == space && rest.head? == some hash then some []
    else (beforeMarker rest).map (b :: ·)

/-- The part of a line that is compared with the document markers. -/
def markerToken (content : Bytes) : Bytes :=
  (beforeMarker content).getD (trimRightSpaces content)

/-- Nothing but spaces and a comment. -/
def isBlank (content : Bytes) : Bool :=
  content.isEmpty || content.head? == some hash

/-- The bytes no line holds. -/
def isRefused (b : UInt8) : Bool :=
  b == cr || b == 0

def lexLine (text : Bytes) : Result Line := do
  throwIf (text.any isRefused)
    (.thrown ⟨.invalidEncoding, ascii "CR and NUL bytes are forbidden in YAML source",
      here (text.dropWhile fun b => !isRefused b)⟩)
  let indent := (text.takeWhile isSpace).length
  let content := skipSpaces text
  throwIf (content.head? == some 0x09)
    (.thrown ⟨.forbiddenSyntax, ascii "tab indentation is forbidden", here content⟩)
  throwIf (!isBlank content && indent == 0 &&
      (markerToken content == ascii "---" || markerToken content == ascii "..."))
    (.thrown ⟨.forbiddenSyntax, ascii "explicit or multiple YAML documents are forbidden",
      here content⟩)
  .ok ⟨text, indent, isBlank content⟩

/-- The loop of `LexFailsafeYaml`. -/
def lexLines : List Bytes → Result (List Line)
  | [] => .ok []
  | text :: rest => do
    let line ← followed rest.length 0 (lexLine text)
    let lines ← lexLines rest
    .ok (line :: lines)

/-- The bytes of the whole document. -/
def checkEncoding (bytes : Bytes) : Result Unit := do
  throwIf (bytes.take 3 == [0xEF, 0xBB, 0xBF])
    (.thrown ⟨.invalidEncoding, ascii "UTF-8 BOM is forbidden", startOf (splitLines bytes)⟩)
  throwIf (!isValidUtf8 bytes)
    (.thrown ⟨.invalidEncoding, ascii "YAML source is not valid UTF-8",
      startOf (splitLines bytes)⟩)

/-- `LexFailsafeYaml`. -/
def lexFailsafeYaml (bytes : Bytes) : Result (List Line) := do
  checkEncoding bytes
  lexLines (splitLines bytes)

-- ---------------------------------------------------------------------------
-- Scalars
-- ---------------------------------------------------------------------------

section Escapes

-- where the scalar begins, which is where the span of most of its errors does
variable (begins : Place)

def hexEscapeFrom : Nat → Nat → Bytes → Result (Nat × Bytes)
  | 0, code, input => .ok (code, input)
  | _ + 1, _, [] =>
    fail .malformedDocument "double-quoted scalar has an incomplete Unicode escape" begins
  | count + 1, code, digit :: rest =>
    match hexValue digit with
    | some value => hexEscapeFrom count ((code <<< 4) ||| value.toNat) rest
    | none =>
      fail .malformedDocument "double-quoted scalar Unicode escape is malformed"
        (here (digit :: rest))

/-- `ReadHexEscape`. -/
def readHexEscape (input : Bytes) : Result (Nat × Bytes) :=
  if input.length < 4 then
    fail .malformedDocument "double-quoted scalar has an incomplete Unicode escape" begins
  else hexEscapeFrom begins 4 0 input

def unpairedSurrogate {α : Type} : Result α :=
  fail .malformedDocument "double-quoted scalar has an unpaired Unicode surrogate" begins

/-- The code point of a `\u` escape and what follows it. -/
def readUnicodeEscape (input : Bytes) : Result (Nat × Bytes) := do
  let (code, rest) ← readHexEscape begins input
  if 0xD800 ≤ code && code ≤ 0xDBFF then
    match rest with
    | b :: c :: rest =>
      if b != backslash || c != byte 'u' then unpairedSurrogate begins
      else do
        let (low, rest) ← readHexEscape begins rest
        if low < 0xDC00 || 0xDFFF < low then unpairedSurrogate begins
        else .ok (combine code low, rest)
    | _ => unpairedSurrogate begins
  else if 0xDC00 ≤ code && code ≤ 0xDFFF then unpairedSurrogate begins
  else .ok (code, rest)

/-- The switch over an escaped byte, with the bytes it appends. -/
def readEscape (escape : UInt8) (rest : Bytes) : Result (Bytes × Bytes) :=
  if escape == quote || escape == backslash || escape == byte '/' then .ok ([escape], rest)
  else if escape == byte 'b' then .ok ([0x08], rest)
  else if escape == byte 'f' then .ok ([0x0C], rest)
  else if escape == byte 'n' then .ok ([0x0A], rest)
  else if escape == byte 'r' then .ok ([0x0D], rest)
  else if escape == byte 't' then .ok ([0x09], rest)
  else if escape == byte 'u' then do
    let (code, rest) ← readUnicodeEscape begins rest
    .ok (Utf8.encode code, rest)
  else
    -- the span begins at the backslash
    fail .forbiddenSyntax "only JSON string escapes are admitted in double-quoted scalars"
      (here (backslash :: escape :: rest))

def notTerminated : Stop :=
  .thrown ⟨.malformedDocument, ascii "double-quoted scalar is not terminated", begins⟩

end Escapes

section Scalars

variable (limits : Limits)

def quotedLoop (begins : Place) : Nat → Bytes → Bytes → Result (Bytes × Bytes)
  | _, _, [] => .error (notTerminated begins)
  | 0, _, _ :: _ => .error .running
  | turns + 1, value, character :: rest =>
    if character == quote then do
      checkScalarSize limits begins value.length
      .ok (value, rest)
    else if character < 0x20 then
      fail .forbiddenSyntax "raw control bytes are forbidden in double-quoted scalars"
        (here (character :: rest))
    else if character != backslash then do
      checkScalarAppend limits begins value.length 1
      quotedLoop begins turns (value ++ [character]) rest
    else
      match rest with
      | [] => fail .malformedDocument "double-quoted scalar has an incomplete escape" begins
      | escape :: rest => do
        let (piece, rest) ← readEscape begins escape rest
        checkScalarAppend limits begins value.length piece.length
        quotedLoop begins turns (value ++ piece) rest

/-- `ParseDoubleQuotedScalar`: the value and what follows it. -/
def parseDoubleQuotedScalar (input : Bytes) : Result (Bytes × Bytes) :=
  match input with
  | [] => fail .malformedDocument "double-quoted scalar is malformed" (here [])
  | b :: rest =>
    if b != quote then
      fail .malformedDocument "double-quoted scalar is malformed" (here (b :: rest))
    else quotedLoop limits (here (b :: rest)) rest.length [] rest

/-- How far a plain scalar goes. A `#` ends it at its start and after a space, which
is what `fresh` says. -/
def scanPlain (mappingKey flowContext : Bool) : Bool → Bytes → Bytes × Bytes
  | _, [] => ([], [])
  | fresh, character :: rest =>
    if !mappingKey && flowContext &&
        (character == byte ',' || character == byte ']' || character == byte '}') then
      ([], character :: rest)
    else if mappingKey && character == byte ':' then ([], character :: rest)
    else if character == hash && fresh then ([], character :: rest)
    else
      let (taken, rest) := scanPlain mappingKey flowContext (isSpace character) rest
      (character :: taken, rest)

/-- The bytes no plain scalar starts with. -/
def isForbiddenFirst (first : UInt8) : Bool :=
  first == 0x27 || first == byte '|' || first == byte '>' || first == byte '!' ||
    first == byte '&' || first == byte '*' || first == 0x60 || first == byte '@'

/-- `ParsePlainScalar`. -/
def parsePlainScalar (mappingKey flowContext : Bool) (input : Bytes) : Result (Bytes × Bytes) :=
  match input with
  | [] => fail .malformedDocument "YAML scalar is empty" (here [])
  | first :: rest =>
    if isForbiddenFirst first then
      fail .forbiddenSyntax "YAML scalar form is forbidden by the failsafe profile"
        (here (first :: rest))
    else
      let (taken, left) := scanPlain mappingKey flowContext true (first :: rest)
      let value := trimRightSpaces (skipSpaces taken)
      if value.isEmpty then
        fail .malformedDocument "YAML scalar is empty" (here (first :: rest))
      else do
        checkScalarSize limits (here (skipSpaces taken ++ left)) value.length
        .ok (value, left)

end Scalars

-- ---------------------------------------------------------------------------
-- What stands on one line
-- ---------------------------------------------------------------------------

def require (expected : UInt8) (message : String) (input : Bytes) : Result Bytes :=
  match input with
  | [] => fail .malformedDocument message (here [])
  | b :: rest =>
    if b != expected then fail .malformedDocument message (here (b :: rest)) else .ok rest

/-- `AtEndOrComment`. -/
def atEndOrComment (input : Bytes) : Bool :=
  isBlank (skipSpaces input)

/-- The parser of a value: from its depth and the nodes consumed before it. -/
abbrev ValueParser := Nat → Nat → Bytes → Result (Node × Nat × Bytes)

section Inline

variable (limits : Limits)

/-- `ParseMappingKey`. -/
def parseMappingKey (input : Bytes) : Result (Bytes × Bytes) :=
  let input := skipSpaces input
  if input.head? == some quote then parseDoubleQuotedScalar limits input
  else parsePlainScalar limits true false input

/-- A key that a mapping does not hold yet, charged to the budget. -/
def admitKey (place : Place) (keys : List Bytes) (key : Bytes) (nodes : Nat) : Result Nat := do
  throwIf (keys.contains key)
    (.thrown ⟨.duplicateKey, ascii "YAML mapping key is duplicated", place⟩)
  consumeKey limits place key nodes

/-- The loop of `InlineParser::ParseSequence`. -/
def flowValues (value : ValueParser) (depth : Nat) :
    Nat → List Node → Nat → Bytes → Result (List Node × Nat × Bytes)
  | 0, _, _, _ => .error .running
  | turns + 1, values, nodes, input => do
    checkEntry limits (here input) values.length
    let (item, nodes, input) ← value (depth + 1) nodes input
    let input := skipSpaces input
    if input.head? == some (byte ']') then .ok (values ++ [item], nodes, input.tail)
    else do
      let input ← require (byte ',') "flow sequence requires a comma or closing bracket" input
      let input := skipSpaces input
      if input.head? == some (byte ']') then
        fail .malformedDocument "flow sequence cannot have a trailing comma" (here input)
      else flowValues value depth turns (values ++ [item]) nodes input

/-- `InlineParser::ParseSequence`. -/
def parseFlowSequence (value : ValueParser) (depth nodes : Nat) (input : Bytes) :
    Result (Node × Nat × Bytes) := do
  let nodes ← reserveContainer limits (here input) depth nodes
  let input ← require (byte '[') "flow sequence is malformed" input
  let input := skipSpaces input
  if input.head? == some (byte ']') then .ok (.sequence [], nodes, input.tail)
  else do
    let (values, nodes, input) ← flowValues limits value depth (input.length + 1) [] nodes input
    .ok (.sequence values, nodes, input)

/-- The loop of `InlineParser::ParseMapping`. -/
def flowEntries (value : ValueParser) (depth : Nat) :
    Nat → List (Bytes × Node) → Nat → Bytes → Result (List (Bytes × Node) × Nat × Bytes)
  | 0, _, _, _ => .error .running
  | turns + 1, entries, nodes, input => do
    checkEntry limits (here input) entries.length
    let (key, rest) ← parseMappingKey limits input
    let nodes ← admitKey limits (here (skipSpaces input)) (entries.map Prod.fst) key nodes
    let input ← require (byte ':') "flow mapping requires a colon" (skipSpaces rest)
    let (item, nodes, input) ← value (depth + 1) nodes (skipSpaces input)
    let input := skipSpaces input
    if input.head? == some (byte '}') then .ok (entries ++ [(key, item)], nodes, input.tail)
    else do
      let input ← require (byte ',') "flow mapping requires a comma or closing brace" input
      let input := skipSpaces input
      if input.head? == some (byte '}') then
        fail .malformedDocument "flow mapping cannot have a trailing comma" (here input)
      else flowEntries value depth turns (entries ++ [(key, item)]) nodes input

/-- `InlineParser::ParseMapping`. -/
def parseFlowMapping (value : ValueParser) (depth nodes : Nat) (input : Bytes) :
    Result (Node × Nat × Bytes) := do
  let nodes ← reserveContainer limits (here input) depth nodes
  let input ← require (byte '{') "flow mapping is malformed" input
  let input := skipSpaces input
  if input.head? == some (byte '}') then .ok (.mapping [], nodes, input.tail)
  else do
    let (entries, nodes, input) ← flowEntries limits value depth (input.length + 1) [] nodes input
    .ok (.mapping entries, nodes, input)

/-- A scalar that was read, charged to the budget. -/
def scalarNode (place : Place) (style : ScalarStyle) (nodes : Nat)
    (read : Result (Bytes × Bytes)) : Result (Node × Nat × Bytes) := do
  let (value, input) ← read
  let nodes ← consumeNode limits place nodes
  .ok (.scalar value style, nodes, input)

/-- `InlineParser::ParseValue`; `flow` says that it stands inside a flow collection. -/
def parseValue : Nat → Bool → ValueParser
  | 0, _, _, _, _ => .error .running
  | turns + 1, flow, depth, nodes, input =>
    let input := skipSpaces input
    if isBlank input then fail .malformedDocument "YAML value is missing" (here input)
    else if input.head? == some (byte '[') then
      parseFlowSequence limits (parseValue turns true) depth nodes input
    else if input.head? == some (byte '{') then
      parseFlowMapping limits (parseValue turns true) depth nodes input
    else if input.head? == some quote then
      scalarNode limits (here input) .doubleQuoted nodes (parseDoubleQuotedScalar limits input)
    else
      scalarNode limits (here input) .plain nodes (parsePlainScalar limits false flow input)

/-- A value that goes to the end of its line. -/
def parseInline (depth nodes : Nat) (text : Bytes) : Result (Node × Nat) := do
  let (value, nodes, rest) ← parseValue limits (text.length + 1) false depth nodes text
  throwIf (!atEndOrComment rest)
    (.thrown ⟨.malformedDocument, ascii "YAML line has trailing content",
      here (skipSpaces rest)⟩)
  .ok (value, nodes)

end Inline

-- ---------------------------------------------------------------------------
-- Blocks
-- ---------------------------------------------------------------------------

def skipBlank (lines : List Line) : List Line :=
  lines.dropWhile Line.blank

def isSequenceLine (line : Line) (indent : Nat) : Bool :=
  line.indent == indent &&
    (match line.text.drop indent with
      | [] => false
      | b :: rest => b == byte '-' && (rest.isEmpty || rest.head? == some space))

/-- A colon that ends a key: the line ends after it, or goes on with one of four bytes. -/
def endsKey (rest : Bytes) : Bool :=
  rest.isEmpty || rest.head? == some space || rest.head? == some hash ||
    rest.head? == some (byte '[') || rest.head? == some (byte '{')

/-- Where the search for the mapping colon stands. -/
inductive Search
  | bare
  | quoted
  | escaped
  deriving DecidableEq, Repr

def Search.next : Search → UInt8 → Search
  | .escaped, _ => .quoted
  | .quoted, character =>
    if character == backslash then .escaped else if character == quote then .bare else .quoted
  | .bare, character => if character == quote then .quoted else .bare

def mappingColonFrom : Search → Bytes → Option (Bytes × Bytes)
  | _, [] => none
  | search, character :: rest =>
    if search = .bare ∧ character = byte ':' ∧ endsKey rest = true then some ([], rest)
    else (mappingColonFrom (search.next character) rest).map fun cut => (character :: cut.1, cut.2)

/-- `FindMappingColon`: the text before the colon and the text after it. -/
def findMappingColon (text : Bytes) : Option (Bytes × Bytes) :=
  mappingColonFrom .bare text

/-- The parser of a block: its indentation, its depth, the nodes consumed, the lines. -/
abbrev BlockParser := Nat → Nat → Nat → List Line → Result (Node × Nat × List Line)

/-- `PointSpan`, of a position in the first of the lines that are left. -/
def point : List Line → Nat → Place
  | [], _ => ⟨0, 0⟩
  | line :: rest, position => ⟨rest.length + 1, line.text.length - position⟩

/-- A position of a line is a place of that line, one column further. -/
theorem point_eq {above rest : List Line} {line : Line} {position : Nat}
    (h : position ≤ line.text.length) :
    (point (line :: rest) position).line ((above ++ line :: rest).map Line.text) =
        above.length + 1 ∧
      (point (line :: rest) position).column ((above ++ line :: rest).map Line.text) =
        position + 1 := by
  have htotal : ((above ++ line :: rest).map Line.text).length = above.length + (rest.length + 1) := by
    rw [List.length_map, List.length_append, List.length_cons]
  have hline : ((above ++ line :: rest).map Line.text).getD above.length [] = line.text := by
    rw [List.getD_eq_getElem?_getD, List.getElem?_map, List.getElem?_append_right (Nat.le_refl _),
      Nat.sub_self]
    rfl
  have hlines : (point (line :: rest) position).lines = rest.length + 1 := rfl
  have hbytes : (point (line :: rest) position).bytes = line.text.length - position := rfl
  rw [Place.line, Place.column, htotal, hlines, hbytes, if_neg (Nat.succ_ne_zero _),
    Nat.add_sub_cancel, hline]
  exact ⟨by omega, by omega⟩

section Blocks

variable (limits : Limits)

/-- `ParseBlockKey`, of the text before the colon. -/
def parseBlockKey (text : Bytes) : Result Bytes :=
  let key := trimRightSpaces (skipSpaces text)
  if key.isEmpty then fail .malformedDocument "YAML mapping key is empty" (here text)
  else followed 0 ((skipSpaces text).length - key.length) do
    let (key, rest) ← parseMappingKey limits key
    throwIf (!atEndOrComment rest)
      (.thrown ⟨.malformedDocument, ascii "YAML mapping key is malformed",
        here (skipSpaces rest)⟩)
    .ok key

/-- `ParseNestedOrInline`, of the text after a colon or a dash and the lines that follow. -/
def parseNestedOrInline (block : BlockParser) (text : Bytes) (parentIndent depth nodes : Nat)
    (rest : List Line) : Result (Node × Nat × List Line) :=
  let text := skipSpaces text
  if isBlank text then
    match skipBlank rest with
    | [] =>
      fail .malformedDocument "YAML mapping or sequence value is missing"
        ⟨rest.length + 1, text.length⟩
    | line :: more =>
      if line.indent ≤ parentIndent then
        fail .malformedDocument "YAML mapping or sequence value is missing"
          ⟨rest.length + 1, text.length⟩
      else block line.indent depth nodes (line :: more)
  else do
    let (value, nodes) ← followed rest.length 0 (parseInline limits depth nodes text)
    .ok (value, nodes, rest)

/-- A key, its colon and its value, which may go on over the lines that follow. -/
def parseEntry (block : BlockParser) (keyText valueText : Bytes) (keys : List Bytes)
    (indent depth nodes : Nat) (rest : List Line) : Result ((Bytes × Node) × Nat × List Line) := do
  -- the colon and the value follow the key on its line
  let after := valueText.length + 1
  let key ← followed rest.length after (parseBlockKey limits keyText)
  let nodes ← admitKey limits ⟨rest.length + 1, (skipSpaces keyText).length + after⟩ keys key nodes
  let (value, nodes, lines) ←
    parseNestedOrInline limits block valueText indent (depth + 1) nodes rest
  .ok ((key, value), nodes, lines)

/-- `ParseMappingEntry`. -/
def parseMappingEntry (block : BlockParser) (keys : List Bytes) (indent depth nodes : Nat)
    (line : Line) (rest : List Line) : Result ((Bytes × Node) × Nat × List Line) :=
  match findMappingColon (line.text.drop indent) with
  | none =>
    fail .malformedDocument "YAML mapping entry requires a key and colon"
      (point (line :: rest) indent)
  | some (keyText, valueText) =>
    parseEntry limits block keyText valueText keys indent depth nodes rest

/-- The loop of `Parser::ParseMapping`. -/
def mappingLoop (block : BlockParser) (indent depth : Nat) :
    Nat → List (Bytes × Node) → Nat → List Line → Result (List (Bytes × Node) × Nat × List Line)
  | 0, _, _, _ => .error .running
  | turns + 1, entries, nodes, lines =>
    match skipBlank lines with
    | [] => .ok (entries, nodes, [])
    | line :: rest =>
      if line.indent != indent || isSequenceLine line indent then
        .ok (entries, nodes, line :: rest)
      else do
        checkEntry limits (point (line :: rest) indent) entries.length
        let (entry, nodes, lines) ←
          parseMappingEntry limits block (entries.map Prod.fst) indent depth nodes line rest
        mappingLoop block indent depth turns (entries ++ [entry]) nodes lines

/-- `Parser::ParseMapping`. -/
def parseMapping (block : BlockParser) (indent depth nodes : Nat) (lines : List Line) :
    Result (Node × Nat × List Line) := do
  let nodes ← reserveContainer limits (point lines indent) depth nodes
  let (entries, nodes, left) ←
    mappingLoop limits block indent depth (lines.length + 1) [] nodes lines
  throwIf entries.isEmpty
    (.thrown ⟨.malformedDocument, ascii "YAML mapping is empty or malformed", point lines indent⟩)
  .ok (.mapping entries, nodes, left)

/-- The loop of `ParseCompactMapping`. Its first entry stands on the line of the dash. -/
def compactLoop (block : BlockParser) (sequenceIndent compactIndent depth : Nat) :
    Nat → List (Bytes × Node) → Nat → List Line → Result (List (Bytes × Node) × Nat × List Line)
  | _, entries, nodes, [] => .ok (entries, nodes, [])
  | 0, _, _, _ :: _ => .error .running
  | turns + 1, entries, nodes, line :: rest =>
    if line.indent != (if entries.isEmpty then sequenceIndent else compactIndent) then
      .ok (entries, nodes, line :: rest)
    else do
      checkEntry limits (point (line :: rest) compactIndent) entries.length
      match findMappingColon (line.text.drop compactIndent) with
      | none => .ok (entries, nodes, line :: rest)
      | some (keyText, valueText) =>
        let (entry, nodes, lines) ←
          parseEntry limits block keyText valueText (entries.map Prod.fst) compactIndent depth
            nodes rest
        match skipBlank lines with
        | [] => .ok (entries ++ [entry], nodes, [])
        | next :: rest =>
          if next.indent != compactIndent || isSequenceLine next compactIndent then
            .ok (entries ++ [entry], nodes, next :: rest)
          else
            compactLoop block sequenceIndent compactIndent depth turns (entries ++ [entry]) nodes
              (next :: rest)

/-- `ParseCompactMapping`. -/
def parseCompactMapping (block : BlockParser) (sequenceIndent compactIndent depth nodes : Nat)
    (lines : List Line) : Result (Node × Nat × List Line) := do
  let nodes ← reserveContainer limits (point lines compactIndent) depth nodes
  let (entries, nodes, lines) ←
    compactLoop limits block sequenceIndent compactIndent depth lines.length [] nodes lines
  .ok (.mapping entries, nodes, lines)

/-- One turn of the loop of `Parser::ParseSequence`, on the line of a dash. -/
def parseSequenceValue (block : BlockParser) (indent depth nodes : Nat) (line : Line)
    (rest : List Line) : Result (Node × Nat × List Line) :=
  let text := skipSpaces (line.text.drop (indent + 1))
  if isBlank text then parseNestedOrInline limits block text indent (depth + 1) nodes rest
  else if (findMappingColon text).isSome && text.head? != some (byte '{') &&
      text.head? != some (byte '[') then
    parseCompactMapping limits block indent (line.text.length - text.length) (depth + 1) nodes
      (line :: rest)
  else do
    let (value, nodes) ← followed rest.length 0 (parseInline limits (depth + 1) nodes text)
    .ok (value, nodes, rest)

/-- The loop of `Parser::ParseSequence`. -/
def sequenceLoop (block : BlockParser) (indent depth : Nat) :
    Nat → List Node → Nat → List Line → Result (List Node × Nat × List Line)
  | 0, _, _, _ => .error .running
  | turns + 1, values, nodes, lines =>
    match skipBlank lines with
    | [] => .ok (values, nodes, [])
    | line :: rest =>
      if !isSequenceLine line indent then .ok (values, nodes, line :: rest)
      else do
        checkEntry limits (point (line :: rest) indent) values.length
        let (value, nodes, lines) ← parseSequenceValue limits block indent depth nodes line rest
        sequenceLoop block indent depth turns (values ++ [value]) nodes lines

/-- `Parser::ParseSequence`. -/
def parseSequence (block : BlockParser) (indent depth nodes : Nat) (lines : List Line) :
    Result (Node × Nat × List Line) := do
  let nodes ← reserveContainer limits (point lines indent) depth nodes
  let (values, nodes, lines) ←
    sequenceLoop limits block indent depth (lines.length + 1) [] nodes lines
  .ok (.sequence values, nodes, lines)

def parseBlock : Nat → BlockParser
  | 0, _, _, _, _ => .error .running
  | turns + 1, indent, depth, nodes, lines =>
    match skipBlank lines with
    | [] => fail .malformedDocument "YAML indentation is inconsistent" (point [] 0)
    | line :: rest =>
      if line.indent != indent then
        fail .malformedDocument "YAML indentation is inconsistent"
          (point (line :: rest) line.indent)
      else if isSequenceLine line indent then
        parseSequence limits (parseBlock turns) indent depth nodes (line :: rest)
      else parseMapping limits (parseBlock turns) indent depth nodes (line :: rest)

/-- `Parser::Parse`. -/
def parseStructure (nodes : Nat) (lines : List Line) : Result (Node × Nat) :=
  match skipBlank lines with
  | [] => fail .malformedDocument "YAML document is empty" (point lines 0)
  | line :: rest =>
    if line.indent != 0 then
      fail .malformedDocument "YAML root must begin at column one" (point (line :: rest) 0)
    else do
      let (root, nodes, lines) ←
        parseBlock limits (lines.length + 1) 0 1 nodes (line :: rest)
      let trailing := skipBlank lines
      throwIf (!trailing.isEmpty)
        (.thrown ⟨.malformedDocument, ascii "YAML document has trailing content",
          point trailing ((trailing.head?.map Line.indent).getD 0)⟩)
      .ok (root, nodes)

end Blocks

/-- `ParseFailsafeYaml`: the tree and the budget after it. -/
def parseFailsafeYaml (bytes : Bytes) (budget : Budget) : Result (Node × Budget) := do
  let lines ← lexFailsafeYaml bytes
  let (root, nodes) ← parseStructure budget.limits budget.nodesConsumed lines
  .ok (root, { budget with nodesConsumed := nodes })

end Cuac.Connector.FailsafeYaml

import Cuac.Lib.Json
import Cuac.Runtime.Failure
import Cuac.Runtime.RequestValidation

/-!
# Runtime — the two JSON readers

`JsonParser` of the REST decoder and `StrictJsonReader` of the GraphQL decoder. The
source walks a position through the text; here a function takes the text still to
be read and returns what it leaves. Between bytes both readers look at the clock
and at the cancellation flag; the model is of a run that neither of them ends.

A loop of the source is a recursion on a number of turns. A recursion that runs
out of turns answers `running`, which no reader throws.

The two classes spell most of their members alike: peeking, skipping whitespace,
expecting a byte, the separators, the hexadecimal code unit, the number and the
recursion over values. What such members do is one definition, which the members that
have a name of their own in a class are instances of. The classes differ in how a string
is read.
-/

namespace Cuac.Runtime.Json

open Cuac.Lib Cuac.Lib.Json

/-- Why a reader stopped before its end. -/
inductive Stop
  | thrown (error : ExecutionError)
  | running
  deriving DecidableEq, Repr

abbrev Result (α : Type) := Except Stop α

/-- `MalformedJson` and `Malformed`. -/
def malformed {α : Type} : Result α :=
  .error (.thrown ⟨.decode, [], ascii "HTTP response is not valid JSON", none⟩)

def nestingExceeded {α : Type} : Result α :=
  .error (.thrown ⟨.resource, ascii "json_nesting",
    ascii "HTTP response exceeded its JSON nesting budget", none⟩)

-- ---------------------------------------------------------------------------
-- Bytes
-- ---------------------------------------------------------------------------

/-- The zero byte at the end of the text. -/
def peek (input : Bytes) : UInt8 :=
  input.head?.getD 0

def skipWhitespace (input : Bytes) : Bytes :=
  input.dropWhile isWhitespace

def expect (expected : UInt8) : Bytes → Result Bytes
  | [] => malformed
  | b :: rest => if b == expected then .ok rest else malformed

/-- `ParseLiteral` and `Literal`. -/
def literal : Bytes → Bytes → Result Bytes
  | [], input => .ok input
  | expected :: more, input => do
    let input ← expect expected input
    literal more input

/-- `RequireObjectKey`. -/
def requireObjectKey (input : Bytes) : Result Unit :=
  throwIf (peek input != quote)
    (.thrown ⟨.decode, [], ascii "HTTP response is not valid JSON", none⟩)

/-- What follows an element or a member, up to the byte that closes. -/
def separator (close : UInt8) (input : Bytes) : Result Bytes :=
  let input := skipWhitespace input
  if peek input == byte ',' then
    let input := skipWhitespace input.tail
    if peek input == close then malformed else .ok input
  else if peek input != close then malformed
  else .ok input

-- ---------------------------------------------------------------------------
-- Numbers
-- ---------------------------------------------------------------------------

/-- One digit at least. -/
def skipDigits (input : Bytes) : Result Bytes :=
  if !isDigit (peek input) then malformed else .ok (input.dropWhile isDigit)

def skipSign (input : Bytes) : Bytes :=
  if peek input == byte '-' then input.tail else input

def skipInteger (input : Bytes) : Result Bytes :=
  if peek input == byte '0' then
    if isDigit (peek input.tail) then malformed else .ok input.tail
  else if peek input < byte '1' || byte '9' < peek input then malformed
  else .ok (input.dropWhile isDigit)

def skipFraction (input : Bytes) : Result Bytes :=
  if peek input == byte '.' then skipDigits input.tail else .ok input

def skipExponent (input : Bytes) : Result Bytes :=
  if peek input == byte 'e' || peek input == byte 'E' then
    let input := input.tail
    skipDigits (if peek input == byte '+' || peek input == byte '-' then input.tail else input)
  else .ok input

/-- How far a number goes. -/
def scanNumber (input : Bytes) : Result Bytes := do
  let input ← skipInteger (skipSign input)
  let input ← skipFraction input
  skipExponent input

-- ---------------------------------------------------------------------------
-- Characters of a string
-- ---------------------------------------------------------------------------

/-- The UTF-8 sequence at the front, checked. -/
def readUtf8 (input : Bytes) : Result (Bytes × Bytes) :=
  match Utf8.decodeOne leadByMask input with
  | .ok (_, rest) => .ok (input.take (input.length - rest.length), rest)
  | .error _ => malformed

def hexCodeUnitFrom : Nat → Nat → Bytes → Result (Nat × Bytes)
  | 0, result, input => .ok (result, input)
  | _ + 1, _, [] => malformed
  | count + 1, result, b :: rest =>
    match hexValue b with
    | some digit => hexCodeUnitFrom count ((result <<< 4) + digit.toNat) rest
    | none => malformed

/-- `ParseHexCodeUnit`. -/
def parseHexCodeUnit (input : Bytes) : Result (Nat × Bytes) :=
  hexCodeUnitFrom 4 0 input

/-- The second half of a surrogate pair. -/
def lowSurrogate (high : Nat) (input : Bytes) : Result (Nat × Bytes) :=
  match input with
  | b :: c :: rest =>
    if b != backslash || c != byte 'u' then malformed
    else do
      let (low, rest) ← parseHexCodeUnit rest
      if low < 0xDC00 || 0xDFFF < low then malformed
      else .ok (combine high low, rest)
  | _ => malformed

/-- The code point of an escape, its surrogates combined. -/
def escapedUnicode (input : Bytes) : Result (Nat × Bytes) := do
  let (unit, rest) ← parseHexCodeUnit input
  if 0xD800 ≤ unit && unit ≤ 0xDBFF then lowSurrogate unit rest
  else if 0xDC00 ≤ unit && unit ≤ 0xDFFF then malformed
  else .ok (unit, rest)

/-- The switch over an escaped byte, with the bytes it appends. -/
def readEscape (escaped : UInt8) (rest : Bytes) : Result (Bytes × Bytes) :=
  if escaped == quote || escaped == backslash || escaped == byte '/' then .ok ([escaped], rest)
  else if escaped == byte 'b' then .ok ([0x08], rest)
  else if escaped == byte 'f' then .ok ([0x0C], rest)
  else if escaped == byte 'n' then .ok ([0x0A], rest)
  else if escaped == byte 'r' then .ok ([0x0D], rest)
  else if escaped == byte 't' then .ok ([0x09], rest)
  else if escaped == byte 'u' then do
    let (codePoint, rest) ← escapedUnicode rest
    .ok (Utf8.encode codePoint, rest)
  else malformed

section Strings

variable {σ : Type}

/-- The loop of a string reader that keeps what it reads; `append` is what the reader
does with the bytes of one character. -/
def stringLoop (append : σ → Bytes → Result σ) : Nat → σ → Bytes → Result (σ × Bytes)
  | _, _, [] => malformed
  | 0, _, _ :: _ => .error .running
  | turns + 1, result, b :: rest =>
    if b == quote then .ok (result, rest)
    else if b < 0x20 then malformed
    else if b != backslash then do
      let (piece, rest) ← readUtf8 (b :: rest)
      let result ← append result piece
      stringLoop append turns result rest
    else
      match rest with
      | [] => malformed
      | escaped :: rest => do
        let (piece, rest) ← readEscape escaped rest
        let result ← append result piece
        stringLoop append turns result rest

def stringWith (append : σ → Bytes → Result σ) (result : σ) (input : Bytes) :
    Result (σ × Bytes) := do
  let input ← expect quote input
  stringLoop append input.length result input

end Strings

-- ---------------------------------------------------------------------------
-- Values
-- ---------------------------------------------------------------------------

section Values

variable (skipString skipNumber : Bytes → Result Bytes) (maxJsonNesting : Nat)

mutual

/-- `SkipValue` of both readers, by how strings and numbers are skipped. -/
def skipValueWith : Nat → Nat → Bytes → Result Bytes
  | 0, _, _ => .error .running
  | turns + 1, depth, input =>
    let input := skipWhitespace input
    if maxJsonNesting < depth then nestingExceeded
    else if peek input == quote then skipString input
    else if peek input == byte '-' || isDigit (peek input) then skipNumber input
    else if peek input == byte 't' then literal (ascii "true") input
    else if peek input == byte 'f' then literal (ascii "false") input
    else if peek input == byte 'n' then literal (ascii "null") input
    else if peek input == byte '[' then do
      let input ← expect (byte '[') input
      let input ← skipElementsWith turns depth (skipWhitespace input)
      expect (byte ']') input
    else if peek input == byte '{' then do
      let input ← expect (byte '{') input
      let input ← skipMembersWith turns depth (skipWhitespace input)
      expect (byte '}') input
    else malformed

/-- The loop over the elements of an array. -/
def skipElementsWith : Nat → Nat → Bytes → Result Bytes
  | 0, _, _ => .error .running
  | turns + 1, depth, input =>
    if peek input == byte ']' then .ok input
    else do
      let input ← skipValueWith turns (depth + 1) input
      let input ← separator (byte ']') input
      skipElementsWith turns depth input

/-- The loop over the members of an object. -/
def skipMembersWith : Nat → Nat → Bytes → Result Bytes
  | 0, _, _ => .error .running
  | turns + 1, depth, input =>
    if peek input == byte '}' then .ok input
    else do
      requireObjectKey input
      let input ← skipString input
      let input ← expect (byte ':') (skipWhitespace input)
      let input ← skipValueWith turns (depth + 1) input
      let input ← separator (byte '}') input
      skipMembersWith turns depth input

end

end Values

/-- `ValidateDocument` of both readers: one value, and whitespace around it. -/
def validateDocumentWith (skipValue : Nat → Bytes → Result Bytes) (input : Bytes) :
    Result Unit := do
  let input ← skipValue 0 (skipWhitespace input)
  if skipWhitespace input ≠ [] then malformed else .ok ()

-- ---------------------------------------------------------------------------
-- The REST decoder
-- ---------------------------------------------------------------------------

namespace JsonParser

def consumeArraySeparator (input : Bytes) : Result Bytes := separator (byte ']') input

def consumeObjectSeparator (input : Bytes) : Result Bytes := separator (byte '}') input

/-- The bytes it appends. -/
def appendEscapedUnicode (input : Bytes) : Result (Bytes × Bytes) := do
  let (codePoint, rest) ← escapedUnicode input
  .ok (Utf8.encode codePoint, rest)

/-- `ParseString` without a retained column: nothing is charged. -/
def parseString (input : Bytes) : Result (Bytes × Bytes) :=
  stringWith (fun result piece => .ok (result ++ piece)) [] input

def parseNumberToken (input : Bytes) : Result (Bytes × Bytes) := do
  let rest ← scanNumber input
  .ok (input.take (input.length - rest.length), rest)

/-- The strings and numbers of a skipped value are parsed and dropped. -/
def skipValue (maxJsonNesting turns depth : Nat) (input : Bytes) : Result Bytes :=
  skipValueWith (fun input => Prod.snd <$> parseString input)
    (fun input => Prod.snd <$> parseNumberToken input) maxJsonNesting turns depth input

def validateDocument (maxJsonNesting turns : Nat) (input : Bytes) : Result Unit :=
  validateDocumentWith (skipValue maxJsonNesting turns) input

end JsonParser

-- ---------------------------------------------------------------------------
-- The strict reader
-- ---------------------------------------------------------------------------

namespace StrictJsonReader

def arraySeparator (input : Bytes) : Result Bytes := separator (byte ']') input

def objectSeparator (input : Bytes) : Result Bytes := separator (byte '}') input

def parseEscapedUnicode (input : Bytes) : Result (Nat × Bytes) := escapedUnicode input

/-- `RequireAppend`. -/
def requireAppend (maxDecodedBytes : Nat) (budgetField safeMessage : Bytes)
    (result piece : Bytes) : Result Bytes := do
  throwIf (maxDecodedBytes < piece.length || maxDecodedBytes - piece.length < result.length)
    (.thrown ⟨.resource, budgetField, safeMessage, none⟩)
  .ok (result ++ piece)

/-- `ParseString` without a capacity observer. -/
def parseString (maxDecodedBytes : Nat) (budgetField safeMessage input : Bytes) :
    Result (Bytes × Bytes) :=
  stringWith (requireAppend maxDecodedBytes budgetField safeMessage) [] input

/-- `StrictJsonObjectKey`: a key is kept up to 64 bytes. -/
structure ObjectKey where
  bytes : Bytes
  overflow : Bool
  deriving DecidableEq, Repr

namespace ObjectKey

def append (key : ObjectKey) (b : UInt8) : ObjectKey :=
  if key.bytes.length < 64 then { key with bytes := key.bytes ++ [b] }
  else { key with overflow := true }

def equals (key : ObjectKey) (expected : Bytes) : Bool :=
  !key.overflow && key.bytes == expected

end ObjectKey

def parseObjectKey (input : Bytes) : Result (ObjectKey × Bytes) :=
  stringWith (fun key piece => .ok (piece.foldl ObjectKey.append key)) ⟨[], false⟩ input

/-- The escape is looked at and dropped. -/
def skipEscape (escaped : UInt8) (rest : Bytes) : Result Bytes :=
  if escaped == byte 'u' then Prod.snd <$> parseEscapedUnicode rest
  else if escaped != quote && escaped != backslash && escaped != byte '/' &&
      escaped != byte 'b' && escaped != byte 'f' && escaped != byte 'n' &&
      escaped != byte 'r' && escaped != byte 't' then malformed
  else .ok rest

def skipStringLoop : Nat → Bytes → Result Bytes
  | _, [] => malformed
  | 0, _ :: _ => .error .running
  | turns + 1, b :: rest =>
    if b == quote then .ok rest
    else if b < 0x20 then malformed
    else if b != backslash then do
      let (_, rest) ← readUtf8 (b :: rest)
      skipStringLoop turns rest
    else
      match rest with
      | [] => malformed
      | escaped :: rest => do
        let rest ← skipEscape escaped rest
        skipStringLoop turns rest

def skipString (input : Bytes) : Result Bytes := do
  let input ← expect quote input
  skipStringLoop input.length input

/-- `SkipNumber` asks afterwards whether anything was read. -/
def skipNumber (input : Bytes) : Result Bytes := do
  let rest ← scanNumber input
  if rest.length = input.length then malformed else .ok rest

def skipValue (maxJsonNesting turns depth : Nat) (input : Bytes) : Result Bytes :=
  skipValueWith skipString skipNumber maxJsonNesting turns depth input

def validateDocument (maxJsonNesting turns : Nat) (input : Bytes) : Result Unit :=
  validateDocumentWith (skipValue maxJsonNesting turns) input

end StrictJsonReader

end Cuac.Runtime.Json

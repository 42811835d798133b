import Cuac.Lib.Checked
import Cuac.Lib.Lexing
import Cuac.Runtime.Transport

/-!
# Runtime — the chunk decoder

`DecodeHttpChunkedBody`: removes one HTTP/1.1 chunked coding from a body that is
already complete. The source walks an offset through the text; here a function
takes the text still to be read and returns what it leaves.

Between bytes the decoder looks at the clock and at the cancellation flag. Such
a check is answered by how many bytes are left when it is made. How much storage
a string reserves is the library's choice and an argument.
-/

namespace Cuac.Runtime

open Cuac.Lib

-- ---------------------------------------------------------------------------
-- Checks
-- ---------------------------------------------------------------------------

inductive Interruption
  | cancelled
  | deadline
  deriving DecidableEq, Repr

/-- What the decoder throws. -/
inductive ChunkRaise
  | httpChunkDecodeError
  | executionCancelled
  | executionError (error : LocalError)
  deriving DecidableEq, Repr

/-- `ThrowMalformed`. -/
def malformed {α : Type} : Except ChunkRaise α :=
  .error .httpChunkDecodeError

/-- What the decoder reads from outside. -/
structure ChunkEnv where
  /-- The answer of the check made with so many bytes left. -/
  interruption : Nat → Option Interruption
  /-- The capacity of a string once so many bytes are reserved. -/
  capacity : Nat → Nat

/-- The text of one call. -/
structure ChunkReader where
  interruption : Nat → Option Interruption
  encodedSize : Nat

namespace ChunkReader

def checkExecutionState (reader : ChunkReader) (left : Nat) : Except ChunkRaise Unit :=
  match reader.interruption left with
  | none => .ok ()
  | some .cancelled => .error .executionCancelled
  | some .deadline =>
    .error (.executionError
      (localError .resource "wall_milliseconds" "execution exceeded its wall-time budget"))

/-- A check at every 1024th offset. -/
def checkpoint (reader : ChunkReader) (left : Nat) : Except ChunkRaise Unit :=
  if (reader.encodedSize - left) % 1024 == 0 then reader.checkExecutionState left else .ok ()

-- ---------------------------------------------------------------------------
-- Tokens
-- ---------------------------------------------------------------------------

def isOws (value : UInt8) : Bool :=
  value == byte ' ' || value == 0x09

def isTokenCharacter (value : UInt8) : Bool :=
  (byte 'a' ≤ value && value ≤ byte 'z') || (byte 'A' ≤ value && value ≤ byte 'Z') ||
    (byte '0' ≤ value && value ≤ byte '9') || value == byte '!' || value == byte '#' ||
    value == byte '$' || value == byte '%' || value == byte '&' || value == 0x27 ||
    value == byte '*' || value == byte '+' || value == byte '-' || value == byte '.' ||
    value == byte '^' || value == byte '_' || value == 0x60 || value == byte '|' ||
    value == byte '~'

def quote : UInt8 := 0x22

def backslash : UInt8 := 0x5C

def semicolon : UInt8 := byte ';'

/-- What may follow a backslash in a quoted string. -/
def isQuotedPair (escaped : UInt8) : Bool :=
  !(escaped != 0x09 && escaped != byte ' ' && (escaped < 0x21 || escaped == 0x7F))

/-- A plain byte of a quoted string. -/
def isQuotedText (value : UInt8) : Bool :=
  !(value != 0x09 && value != byte ' ' && value != 0x21 &&
    (value < 0x23 || value == backslash || value == 0x7F))

/-- The loops of `SkipOws` and `ParseToken`. `after` bytes follow the line. -/
def skipWhile (reader : ChunkReader) (p : UInt8 → Bool) (after : Nat) :
    Bytes → Except ChunkRaise Bytes
  | [] => .ok []
  | value :: rest =>
    if p value then do
      reader.checkpoint (rest.length + 1 + after)
      reader.skipWhile p after rest
    else .ok (value :: rest)

def skipOws (reader : ChunkReader) (after : Nat) (line : Bytes) : Except ChunkRaise Bytes :=
  reader.skipWhile isOws after line

def parseToken (reader : ChunkReader) (after : Nat) (line : Bytes) : Except ChunkRaise Bytes := do
  let rest ← reader.skipWhile isTokenCharacter after line
  throwIf (rest.length == line.length) .httpChunkDecodeError
  pure rest

/-- `ParseQuotedString` after its opening quote. -/
def quotedRest (reader : ChunkReader) (after : Nat) : Bytes → Except ChunkRaise Bytes
  | [] => malformed
  | [value] => do
    reader.checkpoint (1 + after)
    if value == quote then .ok [] else malformed
  | value :: next :: rest => do
    reader.checkpoint (rest.length + 2 + after)
    if value == quote then .ok (next :: rest)
    else if value == backslash then
      if isQuotedPair next then reader.quotedRest after rest else malformed
    else if isQuotedText value then reader.quotedRest after (next :: rest)
    else malformed

-- ---------------------------------------------------------------------------
-- Chunk headers
-- ---------------------------------------------------------------------------

/-- The digits of a chunk size, up to white space or an extension. -/
def parseDigits (reader : ChunkReader) (after : Nat) :
    UInt64 → Bool → Bytes → Except ChunkRaise (UInt64 × Bool × Bytes)
  | result, sawDigit, [] => .ok (result, sawDigit, [])
  | result, sawDigit, value :: rest => do
    reader.checkpoint (rest.length + 1 + after)
    if isOws value || value == semicolon then .ok (result, sawDigit, value :: rest)
    else
      match hexValue value with
      | none => malformed
      | some digit =>
        if result > (0xFFFFFFFFFFFFFFFF - digit.toUInt64) / 16 then malformed
        else reader.parseDigits after (result * 16 + digit.toUInt64) true rest

/-- The value of an extension, after its equals sign. -/
def parseExtensionValue (reader : ChunkReader) (after : Nat) (line : Bytes) :
    Except ChunkRaise Bytes := do
  match ← reader.skipOws after line with
  | value :: rest =>
    if value == quote then reader.quotedRest after rest
    else reader.parseToken after (value :: rest)
  | [] => reader.parseToken after []

/-- What may follow the name of an extension. -/
def parseAfterName (reader : ChunkReader) (after : Nat) (afterName : Bytes) :
    Except ChunkRaise Bytes := do
  match ← reader.skipOws after afterName with
  | [] => if afterName.length != 0 then malformed else .ok []
  | value :: rest =>
    if value == byte '=' then reader.parseExtensionValue after rest else .ok (value :: rest)

/-- One turn of the extension loop, on a line with something left. -/
def parseExtension (reader : ChunkReader) (after : Nat) (line : Bytes) :
    Except ChunkRaise Bytes := do
  match ← reader.skipOws after line with
  | [] => malformed
  | value :: rest => do
    throwIf (value != semicolon) .httpChunkDecodeError
    let name ← reader.skipOws after rest
    let afterName ← reader.parseToken after name
    reader.parseAfterName after afterName

/-- The extension loop; each turn reads a semicolon. -/
def parseExtensions (reader : ChunkReader) (after : Nat) : Nat → Bytes → Except ChunkRaise Unit
  | _, [] => .ok ()
  | 0, _ :: _ => malformed
  | turns + 1, value :: rest => do
    let left ← reader.parseExtension after (value :: rest)
    reader.parseExtensions after turns left

def parseChunkSize (reader : ChunkReader) (after : Nat) (line : Bytes) :
    Except ChunkRaise UInt64 := do
  let (result, sawDigit, rest) ← reader.parseDigits after 0 false line
  throwIf (!sawDigit) .httpChunkDecodeError
  reader.parseExtensions after rest.length rest
  pure result

-- ---------------------------------------------------------------------------
-- Trailers
-- ---------------------------------------------------------------------------

/-- `FindCrlf`. -/
def findCrlf (text : Bytes) : Except ChunkRaise (Bytes × Bytes) :=
  match splitCrlf text with
  | none => malformed
  | some cut => .ok cut

def isTrailerText (value : UInt8) : Bool :=
  !((value < 0x20 && value != 0x09) || value == 0x7F)

def checkTrailerText (reader : ChunkReader) (after : Nat) : Bytes → Except ChunkRaise Unit
  | [] => .ok ()
  | value :: rest => do
    reader.checkpoint (rest.length + 1 + after)
    throwIf (!isTrailerText value) .httpChunkDecodeError
    reader.checkTrailerText after rest

def checkTrailer (reader : ChunkReader) (after : Nat) (line : Bytes) : Except ChunkRaise Unit := do
  match ← reader.parseToken after line with
  | [] => malformed
  | value :: rest => do
    throwIf (value != byte ':') .httpChunkDecodeError
    reader.checkTrailerText after rest

/-- The trailer lines; each turn reads a CRLF. -/
def trailerLines (reader : ChunkReader) : Nat → Bytes → Except ChunkRaise Bytes
  | 0, _ => malformed
  | turns + 1, text => do
    reader.checkExecutionState text.length
    let (line, rest) ← findCrlf text
    match line with
    | [] => .ok rest
    | _ :: _ => do
      reader.checkTrailer (rest.length + 2) line
      reader.trailerLines turns rest

def validateTrailers (reader : ChunkReader) (text : Bytes) : Except ChunkRaise Bytes :=
  match text with
  | first :: second :: rest =>
    if first == cr && second == lf then .ok rest
    else reader.trailerLines (text.length + 1) text
  | _ => reader.trailerLines (text.length + 1) text

-- ---------------------------------------------------------------------------
-- The body
-- ---------------------------------------------------------------------------

/-- The CRLF after a chunk's data. -/
def expectCrlf : Bytes → Except ChunkRaise Bytes
  | first :: second :: rest => if first == cr && second == lf then .ok rest else malformed
  | _ => malformed

/-- The data of a chunk of nonzero size. -/
def takeChunk (reader : ChunkReader) (maxBodyBytes : UInt64) (decoded : Bytes) (size : UInt64)
    (text : Bytes) : Except ChunkRaise (Bytes × Bytes) := do
  throwIf (size > maxBodyBytes - UInt64.ofNat decoded.length || size.toNat > text.length)
    .httpChunkDecodeError
  reader.checkExecutionState text.length
  let rest ← expectCrlf (text.drop size.toNat)
  pure (decoded ++ text.take size.toNat, rest)

/-- The end of the body: trailers, and then nothing. -/
def finishBody (reader : ChunkReader) (decoded text : Bytes) : Except ChunkRaise Bytes := do
  let rest ← reader.validateTrailers text
  throwIf (!rest.isEmpty) .httpChunkDecodeError
  pure decoded

/-- The chunk loop; each turn reads a chunk header. -/
def decodeChunks (reader : ChunkReader) (maxBodyBytes : UInt64) :
    Nat → Bytes → Bytes → Except ChunkRaise Bytes
  | 0, _, _ => malformed
  | turns + 1, decoded, text => do
    reader.checkExecutionState text.length
    let (line, rest) ← findCrlf text
    let size ← reader.parseChunkSize (rest.length + 2) line
    if size == 0 then reader.finishBody decoded rest
    else do
      let (decoded, rest) ← reader.takeChunk maxBodyBytes decoded size rest
      reader.decodeChunks maxBodyBytes turns decoded rest

end ChunkReader

/-- `HttpStringAllocationLimit`, saturated. -/
def httpStringAllocationLimit (contentBytes : UInt64) : UInt64 :=
  if contentBytes > 0xFFFFFFFFFFFFFFFF - 64 then 0xFFFFFFFFFFFFFFFF else contentBytes + 64

def hasBoundedHttpStringCapacity (capacity : Nat) (contentLimit : UInt64) : Bool :=
  capacity < 0xFFFFFFFFFFFFFFFF && capacity + 1 ≤ (httpStringAllocationLimit contentLimit).toNat

def decodeHttpChunkedBody (env : ChunkEnv) (encoded : Bytes) (maxBodyBytes : UInt64) :
    Except ChunkRaise Bytes := do
  let reader : ChunkReader := ⟨env.interruption, encoded.length⟩
  reader.checkExecutionState encoded.length
  throwIf (!hasBoundedHttpStringCapacity
      (env.capacity (min encoded.length maxBodyBytes.toNat)) maxBodyBytes)
    (.executionError (localError .resource "decompressed_bytes"
      "HTTP chunk decoding exceeded its admitted capacity envelope"))
  reader.decodeChunks maxBodyBytes (encoded.length + 1) [] encoded

end Cuac.Runtime

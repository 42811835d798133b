import Cuac.Connector.Catalog
import Cuac.Runtime.ChunkDecoder
import Cuac.Runtime.JsonStrings

/-!
# Runtime — the GraphQL request body

One canonical JSON text carries the admitted document, the page size and the
cursor. Three pieces of code know its spelling: a calculator of its size, which runs
first and refuses a body that would not fit; the writer; and a recogniser, which
looks at the finished bytes once more before a credential is attached.

A profile exists only where admission let its plan through; of what admission
checks, the fields below keep what bears on the body.
-/

namespace Cuac.Runtime

open Cuac.Lib Cuac.Lib.Json

-- ---------------------------------------------------------------------------
-- The profile
-- ---------------------------------------------------------------------------

/-- `IsGraphqlName`. -/
def isGraphqlName (name : Bytes) : Bool :=
  let isLetter (b : UInt8) : Bool :=
    (byte 'A' ≤ b && b ≤ byte 'Z') || (byte 'a' ≤ b && b ≤ byte 'z') || b == byte '_'
  !name.isEmpty && name.length ≤ 255 && !(ascii "__").isPrefixOf name &&
    name.head?.any isLetter && name.tail.all fun b => isLetter b || isDigit b

/-- `AdmittedGraphqlRequestProfile`: what a request is built from, with what admission
found out about it. -/
structure AdmittedGraphqlRequestProfile where
  method : Bytes
  scheme : Bytes
  host : Bytes
  port : UInt16
  path : Bytes
  headers : List Connector.HttpHeader
  document : Bytes
  pageSizeVariable : Bytes
  pageSize : UInt64
  cursorVariable : Bytes
  maxRequestBodyBytes : UInt64
  document_size : document ≠ [] ∧ document.length ≤ 64 * 1024
  document_utf8 : isValidUtf8 document = true
  pageSizeVariable_name : isGraphqlName pageSizeVariable = true
  cursorVariable_name : isGraphqlName cursorVariable = true
  variables_differ : pageSizeVariable ≠ cursorVariable
  pageSize_pos : pageSize ≠ 0
  maxRequestBodyBytes_pos : maxRequestBodyBytes ≠ 0
  /-- The budget of a page is cut at `HOST_MAX_SERIALIZED_REQUEST_BODY_BYTES`. -/
  maxRequestBodyBytes_le : maxRequestBodyBytes.toNat ≤ 16 * 1024

/-- `HttpRequest`. -/
structure GraphqlRequest where
  method : Bytes
  scheme : Bytes
  host : Bytes
  port : UInt16
  target : Bytes
  headers : List Connector.HttpHeader
  body : Bytes
  contentType : Bytes

-- ---------------------------------------------------------------------------
-- The writer
-- ---------------------------------------------------------------------------

/-- `BODY_PREFIX`. -/
def bodyPrefix : Bytes := ascii "\x7b\"query\":"

/-- `VARIABLES_PREFIX`. -/
def variablesPrefix : Bytes := ascii ",\"variables\":\x7b"

/-- `BODY_SUFFIX`. -/
def bodySuffix : Bytes := ascii "\x7d\x7d"

/-- `HEX[digit]`. -/
def lowerHexDigit (digit : UInt8) : UInt8 :=
  if digit < 10 then byte '0' + digit else byte 'a' + (digit - 10)

/-- `AppendHexByte`. -/
def hexByte (value : UInt8) : Bytes :=
  ascii "\\u00" ++ [lowerHexDigit ((value >>> 4) &&& 0x0F), lowerHexDigit (value &&& 0x0F)]

/-- What the writer puts for one byte. -/
def jsonByte (b : UInt8) : Bytes :=
  if b == quote then [backslash, quote]
  else if b == backslash then [backslash, backslash]
  else if b == 0x08 then [backslash, byte 'b']
  else if b == 0x0C then [backslash, byte 'f']
  else if b == 0x0A then [backslash, byte 'n']
  else if b == 0x0D then [backslash, byte 'r']
  else if b == 0x09 then [backslash, byte 't']
  else if b < 0x20 then hexByte b
  else [b]

/-- `AppendJsonString`. -/
def jsonString (value : Bytes) : Bytes :=
  quote :: (value.flatMap jsonByte ++ [quote])

/-- What precedes the cursor. -/
def cursorPrefix (profile : AdmittedGraphqlRequestProfile) : Bytes :=
  bodyPrefix ++ jsonString profile.document ++ variablesPrefix ++
    jsonString profile.pageSizeVariable ++
    (ascii ":" ++ decimal profile.pageSize.toNat ++ ascii ",") ++
    jsonString profile.cursorVariable ++ ascii ":"

/-- The cursor as it is written, `null` on the first page. -/
def cursorToken : Option Bytes → Bytes
  | some cursor => jsonString cursor
  | none => ascii "null"

def graphqlBody (profile : AdmittedGraphqlRequestProfile) (cursor : Option Bytes) : Bytes :=
  cursorPrefix profile ++ cursorToken cursor ++ bodySuffix

-- ---------------------------------------------------------------------------
-- The size, computed before
-- ---------------------------------------------------------------------------

/-- `TryAddSerializedBytes`. -/
def tryAddSerializedBytes (bytes limit result : Nat) : Option Nat :=
  if limit < result || limit - result < bytes then none else some (result + bytes)

def decimalDigitsFrom : Nat → Nat → Nat → Nat
  | 0, _, result => result
  | turns + 1, value, result =>
    if 10 ≤ value then decimalDigitsFrom turns (value / 10) (result + 1) else result

/-- `DecimalDigits`. -/
def decimalDigits (value : Nat) : Nat :=
  decimalDigitsFrom value value 1

/-- The size of what is written for one byte. -/
def jsonByteSize (b : UInt8) : Nat :=
  if b == quote || b == backslash || b == 0x08 || b == 0x0C || b == 0x0A || b == 0x0D ||
      b == 0x09 then 2
  else if b < 0x20 then 6
  else 1

def tryAddEachByte (limit : Nat) : Bytes → Nat → Option Nat
  | [], result => some result
  | b :: rest, result => do
    let result ← tryAddSerializedBytes (jsonByteSize b) limit result
    tryAddEachByte limit rest result

/-- `TryAddJsonStringBytes`. -/
def tryAddJsonStringBytes (value : Bytes) (limit result : Nat) : Option Nat := do
  let result ← tryAddSerializedBytes 2 limit result
  tryAddEachByte limit value result

def tryAddCursorBytes (cursor : Option Bytes) (limit result : Nat) : Option Nat :=
  match cursor with
  | some cursor => tryAddJsonStringBytes cursor limit result
  | none => tryAddSerializedBytes 4 limit result

/-- `TryGraphqlBodyBytes`. -/
def tryGraphqlBodyBytes (profile : AdmittedGraphqlRequestProfile) (cursor : Option Bytes)
    (allowance : UInt64) : Option Nat := do
  let limit := min allowance.toNat profile.maxRequestBodyBytes.toNat
  let result ← tryAddSerializedBytes bodyPrefix.length limit 0
  let result ← tryAddJsonStringBytes profile.document limit result
  let result ← tryAddSerializedBytes variablesPrefix.length limit result
  let result ← tryAddJsonStringBytes profile.pageSizeVariable limit result
  let result ← tryAddSerializedBytes 1 limit result
  let result ← tryAddSerializedBytes (decimalDigits profile.pageSize.toNat) limit result
  let result ← tryAddSerializedBytes 1 limit result
  let result ← tryAddJsonStringBytes profile.cursorVariable limit result
  let result ← tryAddSerializedBytes 1 limit result
  let result ← tryAddCursorBytes cursor limit result
  tryAddSerializedBytes bodySuffix.length limit result

-- ---------------------------------------------------------------------------
-- Cursors
-- ---------------------------------------------------------------------------

/-- `ConsumeUtf8`: how many bytes the sequence at the front has, and what follows. -/
def consumeUtf8 (input : Bytes) : Option (Nat × Bytes) :=
  match Utf8.decodeOne leadByMask input with
  | .ok (_, rest) => some (input.length - rest.length, rest)
  | .error _ => none

def consumeEachUtf8 : Nat → Nat → Bytes → Option Nat
  | _, decodedBytes, [] => some decodedBytes
  | 0, _, _ :: _ => none
  | turns + 1, decodedBytes, b :: rest => do
    let (count, rest) ← consumeUtf8 (b :: rest)
    consumeEachUtf8 turns (decodedBytes + count) rest

/-- `IsValidBoundedCursorBytes`. -/
def isValidBoundedCursorBytes (cursor : Bytes) : Bool :=
  !(cursor.isEmpty || 512 < cursor.length) &&
    (consumeEachUtf8 cursor.length 0 cursor).any (· ≤ 512)

/-- `IsLowerHex`. -/
def isLowerHex (b : UInt8) : Bool :=
  (byte '0' ≤ b && b ≤ byte '9') || (byte 'a' ≤ b && b ≤ byte 'f')

/-- `LowerHexValue`. -/
def lowerHexValue (b : UInt8) : UInt8 :=
  if byte '0' ≤ b && b ≤ byte '9' then b - byte '0' else b - byte 'a' + 10

/-- The escape of a control character that has no shorter one. -/
def consumeControl (escaped : UInt8) : Bytes → Option (Nat × Bytes)
  | first :: second :: high :: low :: rest =>
    if escaped != byte 'u' || first != byte '0' || second != byte '0' || !isLowerHex high ||
        !isLowerHex low then none
    else
      let control := (lowerHexValue high <<< 4) ||| lowerHexValue low
      if 0x20 ≤ control || control == 0x08 || control == 0x0C || control == 0x0A ||
          control == 0x0D || control == 0x09 then none
      else some (1, rest)
  | _ => none

/-- One turn of the recogniser: how many bytes of the cursor the front of the token
stands for. -/
def consumeCursorCharacter : Bytes → Option (Nat × Bytes)
  | [] => none
  | b :: rest =>
    if b < 0x20 || b == quote then none
    else if b != backslash then consumeUtf8 (b :: rest)
    else
      match rest with
      | [] => none
      | escaped :: rest =>
        if escaped == quote || escaped == backslash || escaped == byte 'b' ||
            escaped == byte 'f' || escaped == byte 'n' || escaped == byte 'r' ||
            escaped == byte 't' then some (1, rest)
        else consumeControl escaped rest

def isCanonicalCursorFrom : Nat → Nat → Bytes → Bool
  | _, decodedBytes, [] => 0 < decodedBytes
  | 0, _, _ :: _ => false
  | turns + 1, decodedBytes, b :: rest =>
    match consumeCursorCharacter (b :: rest) with
    | none => false
    | some (count, rest) =>
      if 512 < decodedBytes + count then false
      else isCanonicalCursorFrom turns (decodedBytes + count) rest

/-- `IsCanonicalCursorToken`, on the bytes of the token. -/
def isCanonicalCursorToken (token : Bytes) : Bool :=
  if token.length ≤ 2 || token.head? != some quote || token.getLast? != some quote then false
  else
    let inner := (token.drop 1).take (token.length - 2)
    isCanonicalCursorFrom inner.length 0 inner

-- ---------------------------------------------------------------------------
-- Building and recognising
-- ---------------------------------------------------------------------------

def cursorRefused : ExecutionError :=
  ⟨.policy, ascii "pagination.cursor",
    ascii "GraphQL continuation cursor is invalid or exceeds its byte budget", none⟩

def bodyOverBudget : ExecutionError :=
  ⟨.resource, ascii "request_body_bytes",
    ascii "GraphQL request exceeded its serialized-body budget", none⟩

def bodyOverCapacity : ExecutionError :=
  ⟨.resource, ascii "request_body_bytes",
    ascii "GraphQL request allocation exceeded its admitted capacity envelope", none⟩

/-- `BuildAdmittedGraphqlRequest`. `capacity` is what a string holds once so many bytes
are reserved; the library decides. -/
def buildAdmittedGraphqlRequest (capacity : Nat → Nat) (profile : AdmittedGraphqlRequestProfile)
    (cursor : Option Bytes) (allowance : UInt64) : Except ExecutionError GraphqlRequest := do
  throwIf (cursor.any fun cursor => !isValidBoundedCursorBytes cursor) cursorRefused
  match tryGraphqlBodyBytes profile cursor allowance with
  | none => .error bodyOverBudget
  | some bytes => do
    throwIf (0xFFFFFFFFFFFFFFFF < bytes) bodyOverBudget
    throwIf (!hasBoundedHttpStringCapacity (capacity bytes) (UInt64.ofNat bytes)) bodyOverCapacity
    let body := graphqlBody profile cursor
    throwIf (body.length != bytes ||
      !hasBoundedHttpStringCapacity (capacity bytes) (UInt64.ofNat bytes)) bodyOverCapacity
    .ok ⟨profile.method, profile.scheme, profile.host, profile.port, profile.path,
      profile.headers, body, ascii "application/json"⟩

/-- `IsAdmittedGraphqlBody`. -/
def isAdmittedGraphqlBody (profile : AdmittedGraphqlRequestProfile) (body : Bytes) : Bool :=
  let start := cursorPrefix profile
  if !start.isPrefixOf body || body.length ≤ start.length + 2 ||
      body.drop (body.length - 2) != ascii "\x7d\x7d" then false
  else
    let cursorSize := body.length - start.length - 2
    let token := (body.drop start.length).take cursorSize
    if cursorSize == 4 && token == ascii "null" then true
    else isCanonicalCursorToken token

end Cuac.Runtime

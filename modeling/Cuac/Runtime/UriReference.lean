import Cuac.Lib.Decimal
import Cuac.Lib.Grammar

/-!
# Runtime — URI references

`IsValidUriReference` and `IsValidUri`: syntax only. The source searches for a
mark and validates the texts on its two sides; `cut` is such a search, and
`splitOn` a loop of them.
-/

namespace Cuac.Runtime.Uri

open Cuac.Lib

-- ---------------------------------------------------------------------------
-- Characters
-- ---------------------------------------------------------------------------

def isAsciiAlpha (b : UInt8) : Bool :=
  (byte 'a' ≤ b && b ≤ byte 'z') || (byte 'A' ≤ b && b ≤ byte 'Z')

def isAsciiDigit (b : UInt8) : Bool :=
  byte '0' ≤ b && b ≤ byte '9'

def isHexDigit (b : UInt8) : Bool :=
  isAsciiDigit b || (byte 'a' ≤ b && b ≤ byte 'f') || (byte 'A' ≤ b && b ≤ byte 'F')

/-- `IsUnreserved`: the bytes that stand for themselves in every part of a URI. -/
def isUnreserved (b : UInt8) : Bool :=
  isAsciiAlpha b || isAsciiDigit b || b == byte '-' || b == byte '.' || b == byte '_' ||
    b == byte '~'

/-- `IsSubDelimiter`: the bytes that a part may give a meaning of its own. -/
def isSubDelimiter (b : UInt8) : Bool :=
  (ascii "!$&'()*+,;=").contains b

/-- The parts of a reference that differ only in the bytes they admit unescaped. -/
inductive ComponentKind
  | pchar
  | queryOrFragment
  | userInfo
  | regName
  deriving DecidableEq, Repr

/-- The bytes a part of this kind admits without an escape. -/
def isPlainComponentCharacter (b : UInt8) (kind : ComponentKind) : Bool :=
  isUnreserved b || isSubDelimiter b ||
    match kind with
    | .pchar => b == byte ':' || b == byte '@'
    | .queryOrFragment => b == byte ':' || b == byte '@' || b == byte '/' || b == byte '?'
    | .userInfo => b == byte ':'
    | .regName => false

/-- `ValidateComponent`: plain bytes and escapes of two hexadecimal digits, to the end. -/
def validateComponent (kind : ComponentKind) : Bytes → Bool
  | [] => true
  | b :: rest =>
    if b == byte '%' then
      match rest with
      | first :: second :: rest =>
        isHexDigit first && isHexDigit second && validateComponent kind rest
      | _ => false
    else isPlainComponentCharacter b kind && validateComponent kind rest

-- ---------------------------------------------------------------------------
-- Addresses
-- ---------------------------------------------------------------------------

/-- `ValidateDecimalOctet`: one to three digits without a leading zero, up to 255. -/
def validateDecimalOctet (value : Bytes) : Bool :=
  !(value.isEmpty || 3 < value.length || (1 < value.length && value.head? == some (byte '0'))) &&
    value.all isAsciiDigit && Lib.value value ≤ 255

/-- `ValidateIpv4Address`: the loop over the dots of the source is a split here. -/
def validateIpv4Address (value : Bytes) : Bool :=
  (value.splitOn (byte '.')).all validateDecimalOctet && (value.splitOn (byte '.')).length == 4

/-- The segments on one side of a `::`, where an empty side has none. An empty segment refuses. -/
def splitIpv6Side (side : Bytes) : Option (List Bytes) :=
  if side.isEmpty then some []
  else if (side.splitOn (byte ':')).any List.isEmpty then none
  else some (side.splitOn (byte ':'))

/-- The loop over the segments: the units of 16 bits that they make. -/
def countUnits (compressionFollows : Bool) (units : Nat) : List Bytes → Option Nat
  | [] => some units
  | segment :: rest =>
    if segment.contains (byte '.') then
      if !rest.isEmpty || compressionFollows || !validateIpv4Address segment then none
      else countUnits compressionFollows (units + 2) rest
    else if segment.isEmpty || 4 < segment.length || !segment.all isHexDigit then none
    else countUnits compressionFollows (units + 1) rest

/-- `ValidateIpv6Address`. Without `::` the eight units are written out; with it at least
one is elided. -/
def validateIpv6Address (value : Bytes) : Bool :=
  match cut (ascii "::") value with
  | none =>
    match splitIpv6Side value with
    | none => false
    | some segments => countUnits false 0 segments == some 8
  | some (before, after) =>
    if (cut (ascii "::") after).isSome then false
    else
      match splitIpv6Side before, splitIpv6Side after with
      | some left, some right => (countUnits right.isEmpty 0 (left ++ right)).any (· < 8)
      | _, _ => false

/-- `ValidateIpvFuture`: `v`, a version in hexadecimal, a dot and an address that is not
looked into. -/
def validateIpvFuture (value : Bytes) : Bool :=
  match value with
  | [] => false
  | first :: rest =>
    decide (4 ≤ value.length) && (first == byte 'v' || first == byte 'V') &&
      !(rest.takeWhile isHexDigit).isEmpty &&
      match rest.dropWhile isHexDigit with
      | [] => false
      | mark :: text => mark == byte '.' && !text.isEmpty &&
        text.all fun b => isUnreserved b || isSubDelimiter b || b == byte ':'

/-- What may stand between the brackets of a host. -/
def validateIpLiteral (value : Bytes) : Bool :=
  validateIpv6Address value || validateIpvFuture value

-- ---------------------------------------------------------------------------
-- Authorities
-- ---------------------------------------------------------------------------

/-- The port may be empty, and its value is not bounded here. -/
def validatePort (value : Bytes) : Bool := value.all isAsciiDigit

/-- An address in brackets; `text` is what follows the opening one. -/
def validateBracketed (text : Bytes) : Bool :=
  match cut [byte ']'] text with
  | none => false
  | some (literal, after) =>
    !literal.isEmpty && validateIpLiteral literal &&
      match after with
      | [] => true
      | mark :: port => mark == byte ':' && validatePort port

/-- A host that is no literal, and its port. A bracket anywhere refuses. -/
def validateNamed (text : Bytes) : Bool :=
  !text.contains (byte '[') && !text.contains (byte ']') &&
    match cut [byte ':'] text with
    | none => validateComponent .regName text
    | some (name, port) =>
      !port.contains (byte ':') && validateComponent .regName name && validatePort port

/-- The host and the port. -/
def validateHostAndPort (text : Bytes) : Bool :=
  match text with
  | [] => validateNamed text
  | first :: rest => if first == byte '[' then validateBracketed rest else validateNamed text

/-- `ValidateAuthority`. Only the first `@` may be there. -/
def validateAuthority (authority : Bytes) : Bool :=
  match cut [byte '@'] authority with
  | none => validateHostAndPort authority
  | some (userInfo, rest) =>
    !rest.contains (byte '@') && validateComponent .userInfo userInfo && validateHostAndPort rest

-- ---------------------------------------------------------------------------
-- Paths
-- ---------------------------------------------------------------------------

/-- Every segment of the path on its own. -/
def validatePathCharacters (path : Bytes) : Bool :=
  (path.splitOn (byte '/')).all (validateComponent .pchar)

/-- A path behind an authority: empty, or with a slash in front. -/
def validatePathAbempty (path : Bytes) : Bool :=
  (path.isEmpty || path.head? == some (byte '/')) && validatePathCharacters path

/-- A path without an authority; a second slash would start one. -/
def validatePathAbsolute (path : Bytes) : Bool :=
  path.head? == some (byte '/') && (path.length == 1 || path.tail.head? != some (byte '/')) &&
    validatePathCharacters path

/-- A path behind a scheme that starts with a segment. -/
def validatePathRootless (path : Bytes) : Bool :=
  !path.isEmpty && path.head? != some (byte '/') && validatePathCharacters path

/-- No colon before the first slash. -/
def validatePathNoScheme (path : Bytes) : Bool :=
  validatePathRootless path &&
    match cut [byte '/'] path with
    | none => !path.contains (byte ':')
    | some (first, _) => !first.contains (byte ':')

-- ---------------------------------------------------------------------------
-- References
-- ---------------------------------------------------------------------------

/-- What follows the two slashes, up to the end of the authority and behind it. -/
def validateAuthorityAndPath (hierarchy : Bytes) : Bool :=
  match cut [byte '/'] (hierarchy.drop 2) with
  | none => validateAuthority (hierarchy.drop 2) && validatePathAbempty []
  | some (authority, path) => validateAuthority authority && validatePathAbempty (byte '/' :: path)

/-- `ValidateHierPart`, whose four forms are told apart by how the text starts. -/
def validateHierPart (hierarchy : Bytes) (relative : Bool) : Bool :=
  if (ascii "//").isPrefixOf hierarchy then validateAuthorityAndPath hierarchy
  else if hierarchy.isEmpty then true
  else if hierarchy.head? == some (byte '/') then validatePathAbsolute hierarchy
  else if relative then validatePathNoScheme hierarchy
  else validatePathRootless hierarchy

/-- `ValidateScheme`: a letter and then letters, digits and three marks. -/
def validateScheme (scheme : Bytes) : Bool :=
  match scheme with
  | [] => false
  | first :: rest => isAsciiAlpha first &&
    rest.all fun b => isAsciiAlpha b || isAsciiDigit b || b == byte '+' || b == byte '-' ||
      b == byte '.'

/-- What is left of the fragment and the query. -/
def validateHierarchy (hierarchy : Bytes) (requireUri : Bool) : Bool :=
  match cut [byte ':'] hierarchy with
  | none => !requireUri && validateHierPart hierarchy true
  | some (scheme, rest) =>
    if validateScheme scheme then validateHierPart rest false
    else !requireUri && validateHierPart hierarchy true

/-- What is left of the fragment. -/
def validateMain (main : Bytes) (requireUri : Bool) : Bool :=
  match cut [byte '?'] main with
  | none => validateHierarchy main requireUri
  | some (hierarchy, query) =>
    validateComponent .queryOrFragment query && validateHierarchy hierarchy requireUri

/-- The fragment is cut off at the first `#`, which may not come again. -/
def validateReference (value : Bytes) (requireUri : Bool) : Bool :=
  match cut [byte '#'] value with
  | none => validateMain value requireUri
  | some (main, fragment) =>
    !fragment.contains (byte '#') && validateComponent .queryOrFragment fragment &&
      validateMain main requireUri

/-- The validator of a `Link` target: an absolute or a relative reference. -/
def isValidUriReference (value : Bytes) : Bool := validateReference value false

/-- The same with a scheme required. -/
def isValidUri (value : Bytes) : Bool := validateReference value true

end Cuac.Runtime.Uri

import Cuac.Lib.Decimal
import Cuac.Lib.Lexing
import Cuac.Lib.Utf8

/-!
# JSON texts

The grammar of RFC 8259 over bytes. `Character` relates one character of a string
to the bytes it stands for; a text outside the escapes is UTF-8. `Derives` is the
grammar of values, element lists and member lists. Its number is the room left for
nesting: an array or object that holds something needs one level more than what
it holds.

Main results:

* `Derives.head` — how a value starts.
-/

namespace Cuac.Lib.Json

def quote : UInt8 := byte '"'

def backslash : UInt8 := byte '\\'

-- ---------------------------------------------------------------------------
-- Whitespace
-- ---------------------------------------------------------------------------

/-- The four bytes of whitespace. -/
def isWhitespace (b : UInt8) : Bool :=
  b == 0x20 || b == 0x0A || b == 0x0D || b == 0x09

/-- A gap between two tokens, possibly empty. -/
def IsWhitespace (text : Bytes) : Prop :=
  ∀ b ∈ text, isWhitespace b = true

theorem IsWhitespace.nil : IsWhitespace [] := by
  intro b hb
  cases hb

theorem IsWhitespace.append {a b : Bytes} (ha : IsWhitespace a) (hb : IsWhitespace b) :
    IsWhitespace (a ++ b) := by
  intro c hc
  rcases List.mem_append.mp hc with hc | hc
  · exact ha c hc
  · exact hb c hc

/-- The longest start of whitespace is whitespace. -/
theorem isWhitespace_takeWhile (text : Bytes) : IsWhitespace (text.takeWhile isWhitespace) := by
  intro b hb
  exact List.mem_takeWhile_imp hb

-- ---------------------------------------------------------------------------
-- Strings
-- ---------------------------------------------------------------------------

/-- The byte a two-byte escape stands for. -/
def shortEscape (b : UInt8) : Option UInt8 :=
  if b == quote || b == backslash || b == byte '/' then some b
  else if b == byte 'b' then some 0x08
  else if b == byte 'f' then some 0x0C
  else if b == byte 'n' then some 0x0A
  else if b == byte 'r' then some 0x0D
  else if b == byte 't' then some 0x09
  else none

/-- The first half of a surrogate pair. -/
def IsHighSurrogate (unit : Nat) : Prop :=
  0xD800 ≤ unit ∧ unit ≤ 0xDBFF

/-- The second half of a surrogate pair. -/
def IsLowSurrogate (unit : Nat) : Prop :=
  0xDC00 ≤ unit ∧ unit ≤ 0xDFFF

/-- The code point of a surrogate pair. -/
def combine (high low : Nat) : Nat :=
  0x10000 + ((high - 0xD800) <<< 10) + (low - 0xDC00)

/-- Four hexadecimal digits and the code unit they write. -/
def CodeUnit (digits : Bytes) (unit : Nat) : Prop :=
  digits.length = 4 ∧ (∀ b ∈ digits, isHexDigit b = true) ∧ hexNumber digits = unit

/-- One character of a string, and the bytes it stands for. -/
inductive Character : Bytes → Bytes → Prop
  | plain {codePoint : Nat} : Utf8.IsScalar codePoint → 0x20 ≤ codePoint →
      codePoint ≠ quote.toNat → codePoint ≠ backslash.toNat →
      Character (Utf8.encode codePoint) (Utf8.encode codePoint)
  | escape {b c : UInt8} : shortEscape b = some c → Character [backslash, b] [c]
  | unicode {digits : Bytes} {unit : Nat} : CodeUnit digits unit → ¬IsHighSurrogate unit →
      ¬IsLowSurrogate unit → Character (backslash :: byte 'u' :: digits) (Utf8.encode unit)
  | pair {first second : Bytes} {high low : Nat} : CodeUnit first high → CodeUnit second low →
      IsHighSurrogate high → IsLowSurrogate low →
      Character (backslash :: byte 'u' :: (first ++ backslash :: byte 'u' :: second))
        (Utf8.encode (combine high low))

/-- The characters between the quotes, and the bytes they stand for. -/
inductive Characters : Bytes → Bytes → Prop
  | nil : Characters [] []
  | cons {text meaning more rest : Bytes} : Character text meaning → Characters more rest →
      Characters (text ++ more) (meaning ++ rest)

/-- A quoted string, with some meaning. -/
def IsString (text : Bytes) : Prop :=
  ∃ inner meaning, Characters inner meaning ∧ text = quote :: (inner ++ [quote])

/-- A string starts with its quote. -/
theorem IsString.head {text : Bytes} (h : IsString text) : ∃ tail, text = quote :: tail := by
  obtain ⟨inner, meaning, -, rfl⟩ := h
  exact ⟨_, rfl⟩

/-- A character takes at least a byte. -/
theorem Character.ne_nil {text meaning : Bytes} (h : Character text meaning) : text ≠ [] := by
  cases h with
  | plain => exact Utf8.encode_ne_nil _
  | escape => exact List.cons_ne_nil _ _
  | unicode => exact List.cons_ne_nil _ _
  | pair => exact List.cons_ne_nil _ _

/-- A byte that stands for itself between the quotes, or belongs to such a character. -/
def IsInner (b : UInt8) : Prop :=
  b ≠ quote ∧ ¬b < 0x20 ∧ b ≠ backslash

instance (b : UInt8) : Decidable (IsInner b) :=
  inferInstanceAs (Decidable (_ ∧ _))

/-- A scalar value that needs no escape is written with bytes that need none. -/
theorem isInner_of_plain {codePoint : Nat} (hscalar : Utf8.IsScalar codePoint)
    (hcontrol : 0x20 ≤ codePoint) (hquote : codePoint ≠ quote.toNat)
    (hslash : codePoint ≠ backslash.toNat) : ∀ b ∈ Utf8.encode codePoint, IsInner b := by
  intro b hb
  by_cases hhigh : 0x7F < codePoint
  · have hall : ∀ b : UInt8, ¬b ≤ 0x7F → IsInner b := forall_byte (by decide)
    exact hall b (Utf8.encode_high hscalar.1 hhigh b hb)
  · rw [Utf8.encode, if_pos (by omega), List.mem_singleton] at hb
    have hvalue : b.toNat = codePoint := by
      rw [hb, Utf8.toNat_ofNat_of_lt (by omega)]
    refine ⟨?_, ?_, ?_⟩
    · rintro rfl
      exact hquote hvalue.symm
    · intro hlow
      have hlow : b.toNat < 0x20 := hlow
      omega
    · rintro rfl
      exact hslash hvalue.symm

theorem isInner_of_hexDigit {b : UInt8} (h : isHexDigit b = true) : IsInner b := by
  have hall : ∀ b : UInt8, isHexDigit b = true → IsInner b := forall_byte (by decide)
  exact hall b h

-- ---------------------------------------------------------------------------
-- Numbers
-- ---------------------------------------------------------------------------

/-- One or more digits. -/
def IsDigits (text : Bytes) : Prop :=
  text ≠ [] ∧ ∀ b ∈ text, isDigit b = true

/-- No leading zeros. -/
def IsInteger (text : Bytes) : Prop :=
  text = [byte '0'] ∨ (IsDigits text ∧ text.head? ≠ some (byte '0'))

/-- The fraction of a number, possibly missing. -/
def IsFraction (text : Bytes) : Prop :=
  text = [] ∨ ∃ digits, IsDigits digits ∧ text = byte '.' :: digits

/-- The exponent of a number, possibly missing. -/
def IsExponent (text : Bytes) : Prop :=
  text = [] ∨ ∃ mark sign digits, IsDigits digits ∧ (mark = byte 'e' ∨ mark = byte 'E') ∧
    (sign = [] ∨ sign = [byte '+'] ∨ sign = [byte '-']) ∧ text = mark :: (sign ++ digits)

/-- A number: a sign, an integer, a fraction and an exponent. -/
def IsNumber (text : Bytes) : Prop :=
  ∃ sign integer fraction exponent, (sign = [] ∨ sign = [byte '-']) ∧ IsInteger integer ∧
    IsFraction fraction ∧ IsExponent exponent ∧
    text = sign ++ (integer ++ (fraction ++ exponent))

/-- An integer starts with a digit. -/
theorem IsInteger.head {text : Bytes} (h : IsInteger text) :
    ∃ b tail, isDigit b = true ∧ text = b :: tail := by
  rcases h with rfl | ⟨⟨hne, hdigits⟩, -⟩
  · exact ⟨byte '0', [], by decide, rfl⟩
  · obtain ⟨b, tail, rfl⟩ := List.exists_cons_of_ne_nil hne
    exact ⟨b, tail, hdigits b List.mem_cons_self, rfl⟩

/-- A number starts with its sign or a digit. -/
theorem IsNumber.head {text : Bytes} (h : IsNumber text) :
    ∃ b tail, (b = byte '-' ∨ isDigit b = true) ∧ text = b :: tail := by
  obtain ⟨sign, integer, fraction, exponent, hsign, hinteger, -, -, rfl⟩ := h
  obtain ⟨b, tail, hb, rfl⟩ := hinteger.head
  rcases hsign with rfl | rfl
  · exact ⟨b, _, .inr hb, rfl⟩
  · exact ⟨byte '-', _, .inl rfl, rfl⟩

theorem IsNumber.ne_nil {text : Bytes} (h : IsNumber text) : text ≠ [] := by
  obtain ⟨b, tail, -, rfl⟩ := h.head
  exact List.cons_ne_nil _ _

/-- A byte by which a number could go on. -/
def continuesNumber (b : UInt8) : Bool :=
  isDigit b || b == byte '.' || b == byte 'e' || b == byte 'E'

-- ---------------------------------------------------------------------------
-- Values
-- ---------------------------------------------------------------------------

/-- What a derivation is of: a value, or the items of an array or of an object. -/
inductive Part
  | value
  | elements
  | members
  deriving DecidableEq, Repr

/-- The texts of a value, of the elements of an array and of the members of an
object. Element and member lists start at their first byte that is no whitespace
and end in whitespace. -/
inductive Derives : Part → Nat → Bytes → Prop
  | literal {room : Nat} {text : Bytes} :
      text = ascii "true" ∨ text = ascii "false" ∨ text = ascii "null" → Derives .value room text
  | number {room : Nat} {text : Bytes} : IsNumber text → Derives .value room text
  | string {room : Nat} {text : Bytes} : IsString text → Derives .value room text
  | emptyArray {room : Nat} {gap : Bytes} : IsWhitespace gap →
      Derives .value room (byte '[' :: (gap ++ [byte ']']))
  | array {room : Nat} {gap items : Bytes} : IsWhitespace gap → Derives .elements room items →
      Derives .value (room + 1) (byte '[' :: (gap ++ (items ++ [byte ']'])))
  | emptyObject {room : Nat} {gap : Bytes} : IsWhitespace gap →
      Derives .value room (byte '{' :: (gap ++ [byte '}']))
  | object {room : Nat} {gap items : Bytes} : IsWhitespace gap → Derives .members room items →
      Derives .value (room + 1) (byte '{' :: (gap ++ (items ++ [byte '}'])))
  | lastElement {room : Nat} {text gap : Bytes} : Derives .value room text → IsWhitespace gap →
      Derives .elements room (text ++ gap)
  | element {room : Nat} {text before after more : Bytes} : Derives .value room text →
      IsWhitespace before → IsWhitespace after → Derives .elements room more →
      Derives .elements room (text ++ (before ++ byte ',' :: (after ++ more)))
  | lastMember {room : Nat} {key before after text gap : Bytes} : IsString key →
      IsWhitespace before → IsWhitespace after → Derives .value room text → IsWhitespace gap →
      Derives .members room (key ++ (before ++ byte ':' :: (after ++ (text ++ gap))))
  | member {room : Nat} {key before after text gap next more : Bytes} : IsString key →
      IsWhitespace before → IsWhitespace after → Derives .value room text → IsWhitespace gap →
      IsWhitespace next → Derives .members room more →
      Derives .members room
        (key ++ (before ++ byte ':' :: (after ++ (text ++ (gap ++ byte ',' :: (next ++ more))))))

/-- A byte that starts a value. -/
def startsValue (b : UInt8) : Bool :=
  b == quote || b == byte '-' || isDigit b || b == byte 't' || b == byte 'f' || b == byte 'n' ||
    b == byte '[' || b == byte '{'

/-- Every text starts at a byte that no whitespace and no closing byte is. -/
theorem Derives.head {part : Part} {room : Nat} {text : Bytes} (h : Derives part room text) :
    ∃ b tail, startsValue b = true ∧ text = b :: tail := by
  induction h with
  | literal h =>
    rcases h with rfl | rfl | rfl
    · exact ⟨byte 't', ascii "rue", by decide, by decide⟩
    · exact ⟨byte 'f', ascii "alse", by decide, by decide⟩
    · exact ⟨byte 'n', ascii "ull", by decide, by decide⟩
  | number h =>
    obtain ⟨b, tail, rfl | hb, rfl⟩ := h.head
    · exact ⟨byte '-', tail, by decide, rfl⟩
    · exact ⟨b, tail, by simp [startsValue, hb], rfl⟩
  | string h =>
    obtain ⟨tail, rfl⟩ := h.head
    exact ⟨quote, tail, by decide, rfl⟩
  | emptyArray => exact ⟨byte '[', _, by decide, rfl⟩
  | array => exact ⟨byte '[', _, by decide, rfl⟩
  | emptyObject => exact ⟨byte '{', _, by decide, rfl⟩
  | object => exact ⟨byte '{', _, by decide, rfl⟩
  | lastElement _ _ ih =>
    obtain ⟨b, tail, hb, rfl⟩ := ih
    exact ⟨b, _, hb, rfl⟩
  | element _ _ _ _ ih _ =>
    obtain ⟨b, tail, hb, rfl⟩ := ih
    exact ⟨b, _, hb, rfl⟩
  | lastMember hkey =>
    obtain ⟨tail, rfl⟩ := hkey.head
    exact ⟨quote, _, by decide, rfl⟩
  | member hkey =>
    obtain ⟨tail, rfl⟩ := hkey.head
    exact ⟨quote, _, by decide, rfl⟩

/-- One value between whitespace, with `limit` levels of nesting. -/
def IsDocument (limit : Nat) (document : Bytes) : Prop :=
  ∃ before text after, IsWhitespace before ∧ Derives .value limit text ∧ IsWhitespace after ∧
    document = before ++ (text ++ after)

end Cuac.Lib.Json

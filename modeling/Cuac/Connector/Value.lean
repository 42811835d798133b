import Cuac.Lib.Checked
import Cuac.Lib.Decimal
import Cuac.Lib.Escape

/-!
# Typed scalar values

The closed scalar vocabulary that columns, inputs, predicates and request
bindings share, and the two encodings of a value's text: form encoding in a
query, percent encoding in a path. Every layer has its own copy of both
encoders; the copies are `formEscape` and `pathEscape`.

`CompiledScalarType`, `PlannedRestScalarKind`, `RequestedPredicateValueKind` and
`ExplicitInputValueKind` list the same five kinds, so one `ScalarKind` stands
for them and the translations between them are the identity. A value carries
exactly the payload of its kind: the constructors' checks that the payloads of
the other kinds are zero hold by construction.
-/

namespace Cuac.Connector

open Cuac.Lib

-- ---------------------------------------------------------------------------
-- Exceptions
-- ---------------------------------------------------------------------------

/-- The classes of the exceptions that validation throws. -/
inductive Exception
  | logicError
  | invalidArgument
  | invalidContract
  | operationSelectionFailed
  deriving DecidableEq, Repr

structure Fault where
  exception : Exception
  message : String
  deriving DecidableEq, Repr

/-- `std::logic_error` -/
def logicError (message : String) : Fault := ⟨.logicError, message⟩

/-- `std::invalid_argument` -/
def invalidArgument (message : String) : Fault := ⟨.invalidArgument, message⟩

/-- `PlanningError` with code `INVALID_CONTRACT` -/
def invalidContract (message : String) : Fault := ⟨.invalidContract, message⟩

-- ---------------------------------------------------------------------------
-- Values
-- ---------------------------------------------------------------------------

inductive ScalarKind
  | boolean
  | bigint
  | varchar
  | double
  | timestamptz
  deriving DecidableEq, Repr

/-- An IEEE-754 double, by its bits. -/
structure Double where
  bits : UInt64
  deriving DecidableEq, Repr

namespace Double

def exponent (v : Double) : UInt64 := (v.bits >>> 52) &&& 0x7FF

def mantissa (v : Double) : UInt64 := v.bits &&& 0xFFFFFFFFFFFFF

def isFinite (v : Double) : Bool := v.exponent != 0x7FF

def isNan (v : Double) : Bool := v.exponent == 0x7FF && v.mantissa != 0

def isZero (v : Double) : Bool := v.exponent == 0 && v.mantissa == 0

/-- The `==` of C++: not reflexive at NaN, and the two zeros are equal. -/
def ieeeEq (v w : Double) : Bool :=
  !v.isNan && !w.isNan && (v == w || (v.isZero && w.isZero))

/-- `value == 0.0 ? 0.0 : value` -/
def normalizeZero (v : Double) : Double :=
  if v.isZero then ⟨0⟩ else v

end Double

/-- A concrete scalar value. -/
inductive Scalar
  | boolean (value : Bool)
  | bigint (value : Int64)
  | varchar (value : Bytes)
  | double (value : Double)
  | timestamptz (microseconds : Int64)
  deriving DecidableEq

namespace Scalar

def kind : Scalar → ScalarKind
  | boolean _ => .boolean
  | bigint _ => .bigint
  | varchar _ => .varchar
  | double _ => .double
  | timestamptz _ => .timestamptz

/-- Equality as the switch over the kinds computes it: doubles by `==`. -/
def same : Scalar → Scalar → Bool
  | boolean a, boolean b => a == b
  | bigint a, bigint b => a == b
  | varchar a, varchar b => a == b
  | double a, double b => a.ieeeEq b
  | timestamptz a, timestamptz b => a == b
  | _, _ => false

theorem same_kind {a b : Scalar} (h : a.same b = true) : a.kind = b.kind := by
  cases a <;> cases b <;> first | rfl | cases h

end Scalar

/-- A typed scalar that may be NULL; NULL keeps its type. -/
structure CompiledScalarValue where
  type : ScalarKind
  value : Option Scalar
  typed : ∀ v ∈ value, v.kind = type

namespace CompiledScalarValue

def isNull (v : CompiledScalarValue) : Bool := v.value.isNone

def ofScalar (v : Scalar) : CompiledScalarValue :=
  ⟨v.kind, some v, fun w hw => by rw [Option.mem_some_iff.mp hw]⟩

def null (type : ScalarKind) : CompiledScalarValue :=
  ⟨type, none, fun _ hw => by cases hw⟩

end CompiledScalarValue

-- ---------------------------------------------------------------------------
-- Texts
-- ---------------------------------------------------------------------------

/-- What the model takes as given from the C and C++ libraries: the text of
`snprintf` with the format `%.17g`, and `std::hash` of a string. -/
class CLibrary where
  g17 : Double → Bytes
  hash : Bytes → UInt64

/-- What the C standard says of `%.17g` on finite doubles, as far as it is used:
the bytes it writes, that it writes some and not many, and that seventeen
significant digits tell two doubles apart. -/
structure CLibrary.Documented [CLibrary] : Prop where
  mem : ∀ v : Double, v.isFinite = true → ∀ b ∈ g17 v,
    isDigit b = true ∨ b = byte '+' ∨ b = byte '-' ∨ b = byte '.' ∨ b = byte 'e'
  length : ∀ v : Double, v.isFinite = true → 0 < (g17 v).length ∧ (g17 v).length < 64
  injective : ∀ v w : Double, v.isFinite = true → w.isFinite = true → g17 v = g17 w → v = w

/-- `1e22` and `0.5` as C writes them, and every other double by its bits. -/
def sampleText (v : Double) : Bytes :=
  if v.bits = 0x4480F0CF064DD592 then ascii "1e+22"
  else if v.bits = 0x3FE0000000000000 then ascii "0.5"
  else byte '1' :: byte '.' :: fixedDigits 20 v.bits.toNat

/-- A library for examples. -/
@[reducible] def sampleLibrary : CLibrary where
  g17 := sampleText
  hash text := text.foldl (fun h b => h * 31 + b.toUInt64) 0

theorem sampleText_cases (v : Double) :
    (v = ⟨0x4480F0CF064DD592⟩ ∧ sampleText v = ascii "1e+22") ∨
      (v = ⟨0x3FE0000000000000⟩ ∧ sampleText v = ascii "0.5") ∨
      sampleText v = byte '1' :: byte '.' :: fixedDigits 20 v.bits.toNat := by
  obtain ⟨bits⟩ := v
  unfold sampleText
  by_cases hbig : bits = 0x4480F0CF064DD592
  · rw [if_pos hbig, hbig]
    exact Or.inl ⟨rfl, rfl⟩
  · rw [if_neg hbig]
    by_cases hhalf : bits = 0x3FE0000000000000
    · rw [if_pos hhalf, hhalf]
      exact Or.inr (Or.inl ⟨rfl, rfl⟩)
    · rw [if_neg hhalf]
      exact Or.inr (Or.inr rfl)

theorem documented_sampleLibrary : @CLibrary.Documented sampleLibrary := by
  have hplain : ∀ text ∈ [ascii "1e+22", ascii "0.5"], text.all (fun b =>
      isDigit b = true ∨ b = byte '+' ∨ b = byte '-' ∨ b = byte '.' ∨ b = byte 'e') = true := by
    decide
  refine @CLibrary.Documented.mk sampleLibrary ?_ ?_ ?_
  · intro v _ b hb
    replace hb : b ∈ sampleText v := hb
    rcases sampleText_cases v with ⟨-, htext⟩ | ⟨-, htext⟩ | htext
    · rw [htext] at hb
      exact forall_mem_byte (hplain _ List.mem_cons_self) b hb
    · rw [htext] at hb
      exact forall_mem_byte (hplain _ (List.mem_cons_of_mem _ List.mem_cons_self)) b hb
    · rw [htext, List.mem_cons, List.mem_cons] at hb
      rcases hb with rfl | rfl | hb
      · decide
      · decide
      · exact Or.inl (isDigit_fixedDigits 20 _ b hb)
  · intro v _
    show 0 < (sampleText v).length ∧ (sampleText v).length < 64
    rcases sampleText_cases v with ⟨-, htext⟩ | ⟨-, htext⟩ | htext
    · rw [htext]
      decide
    · rw [htext]
      decide
    · rw [htext, List.length_cons, List.length_cons, length_fixedDigits]
      decide
  · intro v w _ _ h
    have h : sampleText v = sampleText w := h
    rcases sampleText_cases v with ⟨hv, hvtext⟩ | ⟨hv, hvtext⟩ | hvtext <;>
      rcases sampleText_cases w with ⟨hw, hwtext⟩ | ⟨hw, hwtext⟩ | hwtext <;>
      rw [hvtext, hwtext] at h
    · rw [hv, hw]
    · exact absurd h (by decide)
    · cases (List.cons.inj (List.cons.inj h).2).1
    · exact absurd h (by decide)
    · rw [hv, hw]
    · cases (List.cons.inj h).1
    · cases (List.cons.inj (List.cons.inj h).2).1
    · cases (List.cons.inj h).1
    · have hdigits := (List.cons.inj (List.cons.inj h).2).2
      have hbound : ∀ u : Double, u.bits.toNat < 10 ^ 20 := fun u =>
        Nat.lt_trans u.bits.toNat_lt (by decide)
      have hvalue := congrArg value hdigits
      rw [value_fixedDigits (hbound v), value_fixedDigits (hbound w)] at hvalue
      obtain ⟨bits⟩ := v
      obtain ⟨bits'⟩ := w
      exact congrArg Double.mk (UInt64.toNat_inj.mp hvalue)

/-- The copies of `EncodeCanonicalDouble` differ in their message. -/
def encodeCanonicalDoubleWith [CLibrary] (message : String) (v : Double) : Except Fault Bytes := do
  let text := CLibrary.g17 v
  throwIf (text.length == 0 || 64 ≤ text.length) (invalidArgument message)
  pure text

def booleanText (value : Bool) : Bytes :=
  if value then ascii "true" else ascii "false"

-- ---------------------------------------------------------------------------
-- Encodings
-- ---------------------------------------------------------------------------

/-- `application/x-www-form-urlencoded`: unreserved bytes stand for themselves, a
space is a plus sign. -/
def formEscape : Escape where
  code b := if isUnreserved b then some b else if b == 0x20 then some (byte '+') else none
  undo c := if c == byte '+' then 0x20 else c
  code_ne_percent := forall_byte_some (by decide)
  undo_code := forall_byte_some (by decide)

/-- RFC 3986 percent encoding of a path segment. -/
def pathEscape : Escape where
  code b := if isUnreserved b then some b else none
  undo c := c
  code_ne_percent := forall_byte_some (by decide)
  undo_code := forall_byte_some (by decide)

end Cuac.Connector

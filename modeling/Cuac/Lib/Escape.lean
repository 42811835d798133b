import Cuac.Lib.Bytes

/-!
# Escaping bytes

A codec that writes some bytes as single bytes and every other one as a percent
sign with two hexadecimal digits. Which bytes are written singly, and how, is
the parameter: `Escape.code` chooses, `Escape.undo` takes it back, and the two
laws say that this is unambiguous.

Main results:

* `Escape.decode_encode` — decoding takes every encoding back.
* `Escape.encode_injective` — hence no two byte strings share an encoding.
* `Escape.forall_encode` — what the bytes of an encoding can be.
* `Escape.encode_eq_self` — which texts are their own encoding.
-/

namespace Cuac.Lib

/-- The byte that starts an escape. -/
def percent : UInt8 := byte '%'

/-- The upper-case hexadecimal digit of a number below sixteen. -/
def hexDigit (n : UInt8) : UInt8 :=
  if n < 10 then byte '0' + n else byte 'A' + (n - 10)

/-- The value of a hexadecimal digit of either case. -/
def hexValue (b : UInt8) : Option UInt8 :=
  if byte '0' ≤ b && b ≤ byte '9' then some (b - byte '0')
  else if byte 'A' ≤ b && b ≤ byte 'F' then some (b - byte 'A' + 10)
  else if byte 'a' ≤ b && b ≤ byte 'f' then some (b - byte 'a' + 10)
  else none

/-- The first digit of an escaped byte. -/
def highDigit (b : UInt8) : UInt8 := hexDigit ((b >>> 4) &&& 0x0F)

/-- The second digit of an escaped byte. -/
def lowDigit (b : UInt8) : UInt8 := hexDigit (b &&& 0x0F)

/-- The two digits of an escape are read back as the byte. -/
theorem hexValue_digits (b : UInt8) :
    hexValue (highDigit b) = some ((b >>> 4) &&& 0x0F) ∧
      hexValue (lowDigit b) = some (b &&& 0x0F) ∧
      (((b >>> 4) &&& 0x0F) <<< 4 ||| (b &&& 0x0F)) = b := by
  revert b
  exact forall_byte (by decide)

/-- A codec of single bytes and escapes. -/
structure Escape where
  code : UInt8 → Option UInt8
  undo : UInt8 → UInt8
  code_ne_percent : ∀ b c, code b = some c → c ≠ percent
  undo_code : ∀ b c, code b = some c → undo c = b

namespace Escape

variable (e : Escape)

/-- A byte that has a code is written as it, any other one as an escape. -/
def encodeByte (b : UInt8) : Bytes :=
  match e.code b with
  | some c => [c]
  | none => [percent, highDigit b, lowDigit b]

/-- A value is encoded byte by byte. -/
def encode (value : Bytes) : Bytes :=
  value.flatMap e.encodeByte

/-- Decoding never fails: a percent sign without two digits stands for itself. -/
def decode : Bytes → Bytes
  | b :: high :: low :: rest =>
    if b == percent then
      match hexValue high, hexValue low with
      | some h, some l => ((h <<< 4) ||| l) :: decode rest
      | _, _ => e.undo b :: decode (high :: low :: rest)
    else e.undo b :: decode (high :: low :: rest)
  | b :: rest => e.undo b :: decode rest
  | [] => []

@[simp] theorem encode_nil : e.encode [] = [] := rfl

@[simp] theorem encode_cons (b : UInt8) (rest : Bytes) :
    e.encode (b :: rest) = e.encodeByte b ++ e.encode rest := rfl

/-- A byte that starts no escape is undone on its own. -/
theorem decode_plain {b : UInt8} (h : b ≠ percent) (rest : Bytes) :
    e.decode (b :: rest) = e.undo b :: e.decode rest := by
  match rest with
  | [] => rw [decode]; simp
  | [_] => rw [decode]; simp
  | _ :: _ :: _ => rw [decode, if_neg (by simpa using h)]

/-- An escape is undone as the byte that it spells. -/
theorem decode_escape (b : UInt8) (rest : Bytes) :
    e.decode (percent :: highDigit b :: lowDigit b :: rest) = b :: e.decode rest := by
  obtain ⟨hhigh, hlow, hjoin⟩ := hexValue_digits b
  rw [decode, if_pos (by simp)]
  simp only [hhigh, hlow, hjoin]

/-- Decoding undoes the encoding of a first byte. -/
theorem decode_encodeByte (b : UInt8) (rest : Bytes) :
    e.decode (e.encodeByte b ++ rest) = b :: e.decode rest := by
  unfold encodeByte
  split
  · rename_i c hcode
    rw [List.singleton_append, e.decode_plain (e.code_ne_percent b c hcode),
      e.undo_code b c hcode]
  · exact e.decode_escape b rest

/-- Decoding undoes encoding. -/
theorem decode_encode (value : Bytes) : e.decode (e.encode value) = value := by
  induction value with
  | nil => rw [encode_nil, decode]
  | cons b rest ih => rw [encode_cons, decode_encodeByte, ih]

/-- Two values with one encoding are equal. -/
theorem encode_injective {a b : Bytes} (h : e.encode a = e.encode b) : a = b := by
  rw [← e.decode_encode a, h, e.decode_encode b]

/-- What holds of the single bytes, of the percent sign and of the digits holds
of every byte of an encoding. -/
theorem forall_encode {P : UInt8 → Prop} {value : Bytes}
    (hcode : ∀ b ∈ value, ∀ c, e.code b = some c → P c) (hpercent : P percent)
    (hdigits : ∀ b, P (highDigit b) ∧ P (lowDigit b)) : ∀ c ∈ e.encode value, P c := by
  intro c hc
  obtain ⟨b, hb, hc⟩ := List.mem_flatMap.mp hc
  unfold encodeByte at hc
  split at hc
  · rename_i d hd
    rw [List.mem_singleton.mp hc]
    exact hcode b hb d hd
  · simp only [List.mem_cons, List.not_mem_nil, or_false] at hc
    rcases hc with rfl | rfl | rfl
    · exact hpercent
    · exact (hdigits b).1
    · exact (hdigits b).2

/-- A byte string without a percent sign is decoded byte by byte. -/
theorem decode_eq_map {value : Bytes} (h : ∀ b ∈ value, b ≠ percent) :
    e.decode value = value.map e.undo := by
  induction value with
  | nil => rw [decode, List.map_nil]
  | cons b rest ih =>
    rw [e.decode_plain (h b List.mem_cons_self), List.map_cons,
      ih fun c hc => h c (List.mem_cons_of_mem _ hc)]

/-- An encoding is not shorter than its value. -/
theorem length_le_encode (value : Bytes) : value.length ≤ (e.encode value).length := by
  induction value with
  | nil => simp
  | cons b rest ih =>
    have hbyte : 1 ≤ (e.encodeByte b).length := by
      unfold encodeByte
      split <;> simp
    rw [encode_cons, List.length_append, List.length_cons]
    omega

/-- An encoding is the text itself exactly where every byte stands for itself. -/
theorem encode_eq_self {value : Bytes} :
    e.encode value = value ↔ ∀ b ∈ value, e.code b = some b := by
  induction value with
  | nil => simp
  | cons b rest ih =>
    rw [encode_cons, List.forall_mem_cons, ← ih]
    unfold encodeByte
    split
    · rename_i c hcode
      rw [List.singleton_append, List.cons.injEq, hcode, Option.some.injEq]
    · rename_i hcode
      have hlength := e.length_le_encode rest
      constructor
      · intro h
        have hsizes := congrArg List.length h
        simp only [List.cons_append, List.nil_append, List.length_cons] at hsizes
        omega
      · rintro ⟨hsome, -⟩
        rw [hcode] at hsome
        cases hsome

theorem encode_ne_nil {value : Bytes} (h : value ≠ []) : e.encode value ≠ [] := by
  obtain ⟨b, rest, rfl⟩ := List.exists_cons_of_ne_nil h
  rw [encode_cons]
  unfold encodeByte
  split <;> simp

end Escape

end Cuac.Lib

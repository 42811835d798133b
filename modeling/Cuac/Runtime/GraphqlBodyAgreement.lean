import Cuac.Runtime.GraphqlRequestBody
import Cuac.Runtime.JsonValidation

/-!
# Runtime — one spelling of the GraphQL request body

Writer, calculator, recogniser and reader are compared character by character: the
piece that the writer puts for one code point has the computed size, is one character
of the JSON grammar, and is the only piece the recogniser takes for it.

Main results:

* `graphql_request_body`
-/

namespace Cuac.Runtime

open Cuac.Lib Cuac.Lib.Json

-- ---------------------------------------------------------------------------
-- One character
-- ---------------------------------------------------------------------------

/-- What the writer puts for one code point. -/
def jsonPiece (codePoint : Nat) : Bytes :=
  (Utf8.encode codePoint).flatMap jsonByte

theorem jsonByte_high {b : UInt8} (h : ¬b ≤ 0x7F) : jsonByte b = [b] := by
  revert b
  have hall : ∀ b : UInt8, ¬b ≤ 0x7F → jsonByte b = [b] := forall_byte (by decide)
  exact fun {b} => hall b

theorem jsonPiece_high {codePoint : Nat} (h : codePoint ≤ 0x10FFFF) (hhigh : 0x7F < codePoint) :
    jsonPiece codePoint = Utf8.encode codePoint := by
  have hplain (text : Bytes) (htext : ∀ b ∈ text, ¬b ≤ 0x7F) : text.flatMap jsonByte = text := by
    induction text with
    | nil => rfl
    | cons b rest ih =>
      rw [List.flatMap_cons, jsonByte_high (htext b List.mem_cons_self),
        ih fun c hc => htext c (List.mem_cons_of_mem _ hc)]
      rfl
  exact hplain _ (Utf8.encode_high h hhigh)

theorem jsonPiece_ascii {b : UInt8} (h : b ≤ 0x7F) : jsonPiece b.toNat = jsonByte b := by
  rw [jsonPiece, Utf8.encode_ascii h, List.flatMap_cons, List.flatMap_nil, List.append_nil]

/-- A code point is an ASCII byte or lies above. -/
theorem scalar_cases {codePoint : Nat} (h : codePoint ≤ 0x10FFFF) :
    (∃ b : UInt8, b ≤ 0x7F ∧ codePoint = b.toNat) ∨ 0x7F < codePoint := by
  rcases Nat.lt_or_ge 0x7F codePoint with hhigh | hlow
  · exact .inr hhigh
  · refine .inl ⟨UInt8.ofNat codePoint, ?_, ?_⟩
    · rw [UInt8.le_iff_toNat_le, Utf8.toNat_ofNat_of_lt (by omega)]
      exact hlow
    · rw [Utf8.toNat_ofNat_of_lt (by omega)]

/-- The four ways a byte is written. -/
inductive Written : UInt8 → Bytes → Prop
  | short {b c : UInt8} : shortEscape c = some b → c ≠ byte '/' → Written b [backslash, c]
  | control {b : UInt8} : b < 0x20 → Written b (hexByte b)
  | plain {b : UInt8} : ¬b < 0x20 → b ≠ quote → b ≠ backslash → Written b [b]

theorem written_jsonByte (b : UInt8) : Written b (jsonByte b) := by
  unfold jsonByte
  split
  · rename_i h
    obtain rfl := beq_iff_eq.mp h
    exact .short (by decide) (by decide)
  rename_i hquote
  split
  · rename_i h
    obtain rfl := beq_iff_eq.mp h
    exact .short (by decide) (by decide)
  rename_i hslash
  split
  · rename_i h
    obtain rfl := beq_iff_eq.mp h
    exact .short (by decide) (by decide)
  split
  · rename_i h
    obtain rfl := beq_iff_eq.mp h
    exact .short (by decide) (by decide)
  split
  · rename_i h
    obtain rfl := beq_iff_eq.mp h
    exact .short (by decide) (by decide)
  split
  · rename_i h
    obtain rfl := beq_iff_eq.mp h
    exact .short (by decide) (by decide)
  split
  · rename_i h
    obtain rfl := beq_iff_eq.mp h
    exact .short (by decide) (by decide)
  split
  · rename_i h
    exact .control h
  · rename_i h
    exact .plain h (by simpa using hquote) (by simpa using hslash)

/-- The digits of a control escape. -/
def controlDigits (b : UInt8) : Bytes :=
  [byte '0', byte '0', lowerHexDigit ((b >>> 4) &&& 0x0F), lowerHexDigit (b &&& 0x0F)]

theorem hexByte_eq (b : UInt8) : hexByte b = backslash :: byte 'u' :: controlDigits b := by
  unfold hexByte controlDigits
  have hmark : ascii "\\u00" = [backslash, byte 'u', byte '0', byte '0'] := by decide
  rw [hmark]
  rfl

theorem codeUnit_controlDigits {b : UInt8} (h : b < 0x20) : CodeUnit (controlDigits b) b.toNat := by
  have hall : ∀ b : UInt8, b < 0x20 → (controlDigits b).length = 4 ∧
      (controlDigits b).all isHexDigit = true ∧ hexNumber (controlDigits b) = b.toNat :=
    forall_byte (by decide)
  obtain ⟨hlength, hdigits, hnumber⟩ := hall b h
  exact ⟨hlength, List.all_eq_true.mp hdigits, hnumber⟩

/-- What the writer puts for an ASCII byte is one character of the grammar. -/
theorem character_jsonByte {b : UInt8} (h : b ≤ 0x7F) : Character (jsonByte b) [b] := by
  have hb : b.toNat ≤ 0x7F := h
  generalize hpiece : jsonByte b = piece
  have hwritten := written_jsonByte b
  rw [hpiece] at hwritten
  cases hwritten with
  | short hescape _ => exact .escape hescape
  | control hcontrol =>
    have hhigh : ¬IsHighSurrogate b.toNat := by
      rw [IsHighSurrogate]
      omega
    have hlow : ¬IsLowSurrogate b.toNat := by
      rw [IsLowSurrogate]
      omega
    rw [hexByte_eq, ← Utf8.encode_ascii h]
    exact .unicode (codeUnit_controlDigits hcontrol) hhigh hlow
  | plain hcontrol hquote hslash =>
    have hscalar : Utf8.IsScalar b.toNat := ⟨by omega, by omega⟩
    have hplain := Json.plain_of_scalar hscalar (Utf8.encode_ascii h) hcontrol hquote hslash
    rwa [Utf8.encode_ascii h] at hplain

theorem character_jsonPiece {codePoint : Nat} (h : Utf8.IsScalar codePoint) :
    Character (jsonPiece codePoint) (Utf8.encode codePoint) := by
  rcases scalar_cases h.1 with ⟨b, hb, rfl⟩ | hhigh
  · rw [jsonPiece_ascii hb, Utf8.encode_ascii hb]
    exact character_jsonByte hb
  · have hq : quote.toNat ≤ 0x7F := by decide
    have hs : backslash.toNat ≤ 0x7F := by decide
    rw [jsonPiece_high h.1 hhigh]
    exact .plain h (by omega) (by omega) (by omega)

/-- What the writer puts for a UTF-8 text is a text of the grammar, and means it. -/
theorem characters_of_decodes {value : Bytes} {codes : List Nat}
    (h : Utf8.Decodes leadByMask value codes) : Characters (value.flatMap jsonByte) value := by
  induction h with
  | nil => exact .nil
  | cons hone _ ih =>
    obtain ⟨hscalar, rfl⟩ := Utf8.encode_of_decodeOne Json.leadByMask_byHighBits hone
    rw [List.flatMap_append]
    exact .cons (character_jsonPiece hscalar) ih

theorem characters_jsonString {value : Bytes} (h : isValidUtf8 value = true) :
    Characters (value.flatMap jsonByte) value := by
  obtain ⟨codes, hcodes⟩ := isValidUtf8_iff.mp h
  exact characters_of_decodes hcodes

theorem isString_jsonString {value : Bytes} (h : isValidUtf8 value = true) :
    IsString (jsonString value) :=
  ⟨_, value, characters_jsonString h, rfl⟩

-- ---------------------------------------------------------------------------
-- The recogniser
-- ---------------------------------------------------------------------------

theorem consumeUtf8_eq_some {input rest : Bytes} {count : Nat} :
    consumeUtf8 input = some (count, rest) ↔
      ∃ codePoint, Utf8.IsScalar codePoint ∧ count = (Utf8.encode codePoint).length ∧
        input = Utf8.encode codePoint ++ rest := by
  unfold consumeUtf8
  constructor
  · intro h
    split at h
    · rename_i codePoint after hone
      obtain ⟨rfl, rfl⟩ := Prod.mk.inj (Option.some.inj h)
      obtain ⟨hscalar, hinput⟩ := Utf8.encode_of_decodeOne Json.leadByMask_byHighBits hone
      refine ⟨codePoint, hscalar, ?_, hinput⟩
      rw [hinput, List.length_append]
      omega
    · cases h
  · rintro ⟨codePoint, hscalar, rfl, rfl⟩
    rw [Utf8.decodeOne_encode Json.leadByMask_byHighBits hscalar]
    simp

/-- A lower-case digit is the digit of its value. -/
theorem lowerHexDigit_value {b : UInt8} (h : isLowerHex b = true) :
    lowerHexDigit (lowerHexValue b) = b ∧ lowerHexValue b < 16 := by
  have hall : ∀ b : UInt8, isLowerHex b = true →
      lowerHexDigit (lowerHexValue b) = b ∧ lowerHexValue b < 16 := forall_byte (by decide)
  exact hall b h

theorem split_nibbles {high low : UInt8} (hhigh : high < 16) (hlow : low < 16) :
    (((high <<< 4) ||| low) >>> 4) &&& 0x0F = high ∧ ((high <<< 4) ||| low) &&& 0x0F = low := by
  have hall : ∀ high low : Fin 16,
      (((UInt8.ofNat high <<< 4) ||| UInt8.ofNat low) >>> 4) &&& 0x0F = UInt8.ofNat high ∧
      ((UInt8.ofNat high <<< 4) ||| UInt8.ofNat low) &&& 0x0F = UInt8.ofNat low := by
    decide +kernel
  have hpair := hall ⟨high.toNat, hhigh⟩ ⟨low.toNat, hlow⟩
  rwa [UInt8.ofNat_toNat, UInt8.ofNat_toNat] at hpair

/-- The recogniser takes a control escape only as the writer spells it. -/
theorem consumeControl_sound {escaped : UInt8} {input rest : Bytes} {count : Nat}
    (h : consumeControl escaped input = some (count, rest)) :
    ∃ b : UInt8, b ≤ 0x7F ∧ count = 1 ∧ backslash :: escaped :: input = jsonByte b ++ rest := by
  unfold consumeControl at h
  split at h
  · rename_i first second high low after
    split at h
    · cases h
    rename_i hmarks
    simp only [bne_iff_ne, ne_eq, Bool.or_eq_true, not_or, Decidable.not_not,
      Bool.not_eq_true'] at hmarks
    obtain ⟨⟨⟨⟨rfl, rfl⟩, rfl⟩, hhigh⟩, hlow⟩ := hmarks
    obtain ⟨hhighDigit, hhighBound⟩ := lowerHexDigit_value (by simpa using hhigh)
    obtain ⟨hlowDigit, hlowBound⟩ := lowerHexDigit_value (by simpa using hlow)
    obtain ⟨hhighNibble, hlowNibble⟩ := split_nibbles hhighBound hlowBound
    generalize hcontrol : (lowerHexValue high <<< 4) ||| lowerHexValue low = control at *
    dsimp only at h
    split at h
    · cases h
    rename_i hkind
    obtain ⟨rfl, rfl⟩ := Prod.mk.inj (Option.some.inj h)
    have hall : ∀ b : UInt8, ¬(decide (0x20 ≤ b) || b == 0x08 || b == 0x0C || b == 0x0A ||
        b == 0x0D || b == 0x09) = true → b ≤ 0x7F ∧ jsonByte b = hexByte b :=
      forall_byte (by decide)
    obtain ⟨hascii, hspelling⟩ := hall control hkind
    refine ⟨control, hascii, rfl, ?_⟩
    rw [hspelling, hexByte_eq, controlDigits, hhighNibble, hlowNibble, hhighDigit, hlowDigit]
    rfl
  · cases h

theorem consumeCursorCharacter_sound {input rest : Bytes} {count : Nat}
    (h : consumeCursorCharacter input = some (count, rest)) :
    ∃ codePoint, Utf8.IsScalar codePoint ∧ count = (Utf8.encode codePoint).length ∧
      input = jsonPiece codePoint ++ rest := by
  have hascii (b : UInt8) (hb : b ≤ 0x7F) (hcount : count = 1) (hinput : input = jsonByte b ++ rest) :
      ∃ codePoint, Utf8.IsScalar codePoint ∧ count = (Utf8.encode codePoint).length ∧
        input = jsonPiece codePoint ++ rest := by
    have hbound : b.toNat ≤ 0x7F := hb
    refine ⟨b.toNat, ⟨by omega, by omega⟩, ?_, ?_⟩
    · rw [Utf8.encode_ascii hb, hcount]
      rfl
    · rw [jsonPiece_ascii hb, hinput]
  cases input with
  | nil => cases h
  | cons b tail =>
    unfold consumeCursorCharacter at h
    dsimp only at h
    split at h
    · cases h
    rename_i hstart
    simp only [Bool.or_eq_true, decide_eq_true_eq, beq_iff_eq, not_or] at hstart
    split at h
    · rename_i hslash
      obtain ⟨codePoint, hscalar, hcount, hinput⟩ := consumeUtf8_eq_some.mp h
      refine ⟨codePoint, hscalar, hcount, ?_⟩
      rw [hinput]
      rcases scalar_cases hscalar.1 with ⟨c, hc, rfl⟩ | hhigh
      · rw [Utf8.encode_ascii hc] at hinput ⊢
        obtain ⟨rfl, -⟩ := List.cons.inj hinput
        have hall : ∀ b : UInt8, ¬b < 0x20 → b ≠ quote → b ≠ backslash → jsonByte b = [b] :=
          forall_byte (by decide)
        rw [jsonPiece_ascii hc, hall b hstart.1 hstart.2 (by simpa using hslash)]
      · rw [jsonPiece_high hscalar.1 hhigh]
    · rename_i hslash
      obtain rfl : b = backslash := by simpa using hslash
      cases tail with
      | nil => cases h
      | cons escaped tail =>
        dsimp only at h
        split at h
        · rename_i hshort
          obtain ⟨rfl, rfl⟩ := Prod.mk.inj (Option.some.inj h)
          have hall : ∀ c : UInt8, (c == quote || c == backslash || c == byte 'b' ||
              c == byte 'f' || c == byte 'n' || c == byte 'r' || c == byte 't') = true →
              ((shortEscape c).getD 0) ≤ 0x7F ∧
                jsonByte ((shortEscape c).getD 0) = [backslash, c] :=
            forall_byte (by decide)
          obtain ⟨hbound, hspelling⟩ := hall escaped hshort
          exact hascii _ hbound rfl (by rw [hspelling]; rfl)
        · obtain ⟨c, hbound, hcount, hinput⟩ := consumeControl_sound h
          exact hascii c hbound hcount hinput

theorem consumeCursorCharacter_jsonByte {b : UInt8} (h : b ≤ 0x7F) (rest : Bytes) :
    consumeCursorCharacter (jsonByte b ++ rest) = some (1, rest) := by
  generalize hpiece : jsonByte b = piece
  have hwritten := written_jsonByte b
  rw [hpiece] at hwritten
  cases hwritten with
  | short hescape hslash =>
    rename_i c
    have hall : ∀ c : UInt8, (shortEscape c).isSome = true → c ≠ byte '/' →
        (c == quote || c == backslash || c == byte 'b' || c == byte 'f' || c == byte 'n' ||
          c == byte 'r' || c == byte 't') = true := forall_byte (by decide)
    show (if (c == quote || c == backslash || c == byte 'b' || c == byte 'f' || c == byte 'n' ||
      c == byte 'r' || c == byte 't') = true then some (1, rest) else consumeControl c rest) = _
    rw [if_pos (hall c (by rw [hescape]; rfl) hslash)]
  | control hcontrol =>
    -- the writer chose the long spelling, so no shorter one applies
    have hall : ∀ b : UInt8, b < 0x20 → jsonByte b = hexByte b →
        isLowerHex (lowerHexDigit ((b >>> 4) &&& 0x0F)) = true ∧
        isLowerHex (lowerHexDigit (b &&& 0x0F)) = true ∧
        (lowerHexValue (lowerHexDigit ((b >>> 4) &&& 0x0F)) <<< 4 |||
          lowerHexValue (lowerHexDigit (b &&& 0x0F))) = b ∧
        (decide (0x20 ≤ b) || b == 0x08 || b == 0x0C || b == 0x0A || b == 0x0D || b == 0x09) =
          false := forall_byte (by decide)
    obtain ⟨hhigh, hlow, hvalue, hkind⟩ := hall b hcontrol hpiece
    rw [hexByte_eq]
    show consumeControl (byte 'u') (controlDigits b ++ rest) = _
    rw [controlDigits]
    simp only [List.cons_append, List.nil_append, consumeControl, hhigh, hlow, hvalue, hkind]
    rfl
  | plain hcontrol hquote hslash =>
    have hutf8 : consumeUtf8 ([b] ++ rest) = some (1, rest) := by
      have hbound : b.toNat ≤ 0x7F := h
      refine consumeUtf8_eq_some.mpr ⟨b.toNat, ⟨by omega, by omega⟩, ?_, ?_⟩
      · rw [Utf8.encode_ascii h]
        rfl
      · rw [Utf8.encode_ascii h]
    rw [List.cons_append, List.nil_append] at hutf8 ⊢
    unfold consumeCursorCharacter
    dsimp only
    rw [if_neg (by simp [hcontrol, hquote]), if_pos (by simpa using hslash), hutf8]

theorem consumeCursorCharacter_jsonPiece {codePoint : Nat} (h : Utf8.IsScalar codePoint)
    (rest : Bytes) : consumeCursorCharacter (jsonPiece codePoint ++ rest) =
      some ((Utf8.encode codePoint).length, rest) := by
  rcases scalar_cases h.1 with ⟨b, hb, rfl⟩ | hhigh
  · rw [jsonPiece_ascii hb, Utf8.encode_ascii hb]
    exact consumeCursorCharacter_jsonByte hb rest
  · have hutf8 : consumeUtf8 (Utf8.encode codePoint ++ rest) =
        some ((Utf8.encode codePoint).length, rest) :=
      consumeUtf8_eq_some.mpr ⟨codePoint, h, rfl, rfl⟩
    obtain ⟨b, tail, hb⟩ := List.exists_cons_of_ne_nil (Utf8.encode_ne_nil codePoint)
    have hstart : ¬b ≤ 0x7F := Utf8.encode_high h.1 hhigh b (by rw [hb]; exact List.mem_cons_self)
    have hall : ∀ b : UInt8, ¬b ≤ 0x7F → (decide (b < 0x20) || b == quote) = false ∧
        (b != backslash) = true := forall_byte (by decide)
    obtain ⟨hplain, hslash⟩ := hall b hstart
    rw [jsonPiece_high h.1 hhigh]
    rw [hb, List.cons_append] at hutf8 ⊢
    unfold consumeCursorCharacter
    dsimp only
    rw [hplain, hslash, if_neg (by decide), if_pos rfl, hutf8]

theorem jsonByte_ne_nil (b : UInt8) : jsonByte b ≠ [] := by
  have hwritten := written_jsonByte b
  generalize jsonByte b = piece at hwritten
  cases hwritten with
  | short => exact List.cons_ne_nil _ _
  | control =>
    rw [hexByte_eq]
    exact List.cons_ne_nil _ _
  | plain => exact List.cons_ne_nil _ _

theorem isCanonicalCursorFrom_sound {turns decoded : Nat} {inner : Bytes} (hbound : decoded ≤ 512)
    (h : isCanonicalCursorFrom turns decoded inner = true) :
    ∃ value codes, Utf8.Decodes leadByMask value codes ∧ inner = value.flatMap jsonByte ∧
      decoded + value.length ≤ 512 ∧ 0 < decoded + value.length := by
  induction turns generalizing decoded inner with
  | zero =>
    cases inner with
    | nil => exact ⟨[], [], .nil, rfl, hbound, by simpa [isCanonicalCursorFrom] using h⟩
    | cons => cases h
  | succ turns ih =>
    cases inner with
    | nil => exact ⟨[], [], .nil, rfl, hbound, by simpa [isCanonicalCursorFrom] using h⟩
    | cons b tail =>
      rw [isCanonicalCursorFrom] at h
      split at h
      · cases h
      rename_i count rest hone
      split at h
      · cases h
      obtain ⟨codePoint, hscalar, rfl, hinput⟩ := consumeCursorCharacter_sound hone
      obtain ⟨value, codes, hdecodes, rfl, hle, hpos⟩ := ih (by omega) h
      refine ⟨Utf8.encode codePoint ++ value, codePoint :: codes,
        .cons (Utf8.decodeOne_encode Json.leadByMask_byHighBits hscalar value) hdecodes, ?_, ?_, ?_⟩
      · rw [hinput, List.flatMap_append]
        rfl
      · rw [List.length_append]
        omega
      · rw [List.length_append]
        omega

theorem isCanonicalCursorFrom_complete {value : Bytes} {codes : List Nat}
    (h : Utf8.Decodes leadByMask value codes) {turns decoded : Nat}
    (hbound : decoded + value.length ≤ 512) (hpos : 0 < decoded + value.length)
    (hturns : (value.flatMap jsonByte).length ≤ turns) :
    isCanonicalCursorFrom turns decoded (value.flatMap jsonByte) = true := by
  induction h generalizing turns decoded with
  | nil => cases turns <;> simpa [isCanonicalCursorFrom] using hpos
  | @cons bytes rest codePoint codes hone _ ih =>
    obtain ⟨hscalar, rfl⟩ := Utf8.encode_of_decodeOne Json.leadByMask_byHighBits hone
    have hstep := consumeCursorCharacter_jsonPiece hscalar (rest.flatMap jsonByte)
    have hpiece := List.length_pos_iff.mpr (character_jsonPiece hscalar).ne_nil
    rw [List.flatMap_append] at hturns ⊢
    change (jsonPiece codePoint ++ rest.flatMap jsonByte).length ≤ turns at hturns
    change isCanonicalCursorFrom turns decoded (jsonPiece codePoint ++ rest.flatMap jsonByte) = true
    rw [List.length_append] at hbound hpos hturns
    generalize hcount : (Utf8.encode codePoint).length = count at hstep hbound hpos
    have hencode := List.length_pos_iff.mpr (Utf8.encode_ne_nil codePoint)
    obtain ⟨turns, rfl⟩ : ∃ more, turns = more + 1 := ⟨turns - 1, by omega⟩
    obtain ⟨b, tail, hb⟩ := List.exists_cons_of_ne_nil (character_jsonPiece hscalar).ne_nil
    rw [hb, List.cons_append] at hstep ⊢
    rw [isCanonicalCursorFrom, hstep]
    show (if 512 < decoded + count then false
      else isCanonicalCursorFrom turns (decoded + count) (rest.flatMap jsonByte)) = true
    rw [if_neg (by omega)]
    exact ih (by omega) (by omega) (by omega)

theorem consumeEachUtf8_eq_some {turns decoded count : Nat} {bytes : Bytes}
    (hturns : bytes.length ≤ turns) :
    consumeEachUtf8 turns decoded bytes = some count ↔
      isValidUtf8 bytes = true ∧ count = decoded + bytes.length := by
  rw [isValidUtf8_iff]
  induction turns generalizing decoded bytes with
  | zero =>
    obtain rfl := List.length_eq_zero_iff.mp (Nat.le_zero.mp hturns)
    constructor
    · intro h
      exact ⟨⟨[], .nil⟩, (Option.some.inj h).symm⟩
    · rintro ⟨-, rfl⟩
      rfl
  | succ turns ih =>
    cases bytes with
    | nil =>
      constructor
      · intro h
        exact ⟨⟨[], .nil⟩, (Option.some.inj h).symm⟩
      · rintro ⟨-, rfl⟩
        rfl
    | cons b tail =>
      rw [consumeEachUtf8, Option.bind_eq_bind, Option.bind_eq_some_iff]
      constructor
      · rintro ⟨⟨size, rest⟩, hone, hmore⟩
        obtain ⟨codePoint, hscalar, rfl, hinput⟩ := consumeUtf8_eq_some.mp hone
        have hpos := List.length_pos_iff.mpr (Utf8.encode_ne_nil codePoint)
        rw [hinput, List.length_append] at hturns
        obtain ⟨⟨codes, hcodes⟩, rfl⟩ := (ih (by omega)).mp hmore
        rw [hinput, List.length_append]
        refine ⟨⟨codePoint :: codes, .cons ?_ hcodes⟩, by omega⟩
        exact Utf8.decodeOne_encode Json.leadByMask_byHighBits hscalar rest
      · rintro ⟨⟨codes, hcodes⟩, hcount⟩
        cases hcodes with
        | @cons bytes rest codePoint codes hone hmore =>
          obtain ⟨hscalar, hinput⟩ := Utf8.encode_of_decodeOne Json.leadByMask_byHighBits hone
          have hpos := List.length_pos_iff.mpr (Utf8.encode_ne_nil codePoint)
          rw [hinput, List.length_append] at hturns hcount
          rw [hinput]
          refine ⟨((Utf8.encode codePoint).length, rest),
            consumeUtf8_eq_some.mpr ⟨codePoint, hscalar, rfl, rfl⟩, ?_⟩
          exact (ih (by omega)).mpr ⟨⟨codes, hmore⟩, by omega⟩

/-- An admissible cursor: not empty, UTF-8, at most 512 bytes. -/
theorem isValidBoundedCursorBytes_iff {cursor : Bytes} :
    isValidBoundedCursorBytes cursor = true ↔
      cursor ≠ [] ∧ cursor.length ≤ 512 ∧ isValidUtf8 cursor = true := by
  unfold isValidBoundedCursorBytes
  rw [Bool.and_eq_true, Option.any_eq_true]
  constructor
  · rintro ⟨hsize, count, hcount, -⟩
    simp only [Bool.not_eq_true', Bool.or_eq_false_iff, List.isEmpty_eq_false_iff,
      decide_eq_false_iff_not] at hsize
    exact ⟨hsize.1, by omega, ((consumeEachUtf8_eq_some (Nat.le_refl _)).mp hcount).1⟩
  · rintro ⟨hne, hsize, hvalid⟩
    refine ⟨?_, cursor.length, ?_, by simpa using hsize⟩
    · simp only [Bool.not_eq_true', Bool.or_eq_false_iff, List.isEmpty_eq_false_iff,
        decide_eq_false_iff_not]
      exact ⟨hne, by omega⟩
    · exact (consumeEachUtf8_eq_some (Nat.le_refl _)).mpr ⟨hvalid, by omega⟩

/-- The recogniser takes the spelling of an admissible cursor and nothing else. -/
theorem isCanonicalCursorToken_iff {token : Bytes} :
    isCanonicalCursorToken token = true ↔
      ∃ cursor, isValidBoundedCursorBytes cursor = true ∧ token = jsonString cursor := by
  unfold isCanonicalCursorToken
  constructor
  · intro h
    split at h
    · cases h
    rename_i hquotes
    simp only [bne_iff_ne, ne_eq, Bool.or_eq_true, decide_eq_true_eq, not_or,
      Decidable.not_not] at hquotes
    obtain ⟨⟨hlength, hhead⟩, hlast⟩ := hquotes
    cases token with
    | nil => cases hhead
    | cons b tail =>
      obtain rfl := Option.some.inj hhead
      obtain ⟨inner, rfl⟩ : ∃ inner, tail = inner ++ [quote] := by
        obtain ⟨inner, last, rfl⟩ := List.eq_nil_or_concat' tail |>.resolve_left (by
          rintro rfl
          simp at hlength)
        refine ⟨inner, ?_⟩
        rw [← List.cons_append, List.getLast?_concat] at hlast
        rw [Option.some.inj hlast]
      have hinner : ((quote :: (inner ++ [quote])).drop 1).take
          ((quote :: (inner ++ [quote])).length - 2) = inner := by simp
      rw [hinner] at h
      obtain ⟨value, codes, hdecodes, rfl, hbound, hpos⟩ :=
        isCanonicalCursorFrom_sound (Nat.zero_le _) h
      refine ⟨value, isValidBoundedCursorBytes_iff.mpr ⟨?_, by omega, ?_⟩, rfl⟩
      · rintro rfl
        simp at hpos
      · exact isValidUtf8_iff.mpr ⟨codes, hdecodes⟩
  · rintro ⟨cursor, hcursor, rfl⟩
    obtain ⟨hne, hbound, hvalid⟩ := isValidBoundedCursorBytes_iff.mp hcursor
    obtain ⟨codes, hdecodes⟩ := isValidUtf8_iff.mp hvalid
    have hpos : 0 < cursor.length := List.length_pos_iff.mpr hne
    have hwritten : 0 < (cursor.flatMap jsonByte).length := by
      obtain ⟨b, tail, rfl⟩ := List.exists_cons_of_ne_nil hne
      rw [List.flatMap_cons, List.length_append]
      have := List.length_pos_iff.mpr (jsonByte_ne_nil b)
      omega
    have hinner : ((jsonString cursor).drop 1).take ((jsonString cursor).length - 2) =
        cursor.flatMap jsonByte := by simp [jsonString]
    have hquotes : ¬(decide ((jsonString cursor).length ≤ 2) ||
        (jsonString cursor).head? != some quote ||
        (jsonString cursor).getLast? != some quote) = true := by
      have hlast : (jsonString cursor).getLast? = some quote := by
        rw [jsonString, ← List.cons_append, List.getLast?_concat]
      have hlength : ¬(jsonString cursor).length ≤ 2 := by
        simp only [jsonString, List.length_cons, List.length_append, List.length_nil]
        omega
      rw [hlast, decide_eq_false hlength]
      exact Bool.false_ne_true
    rw [if_neg hquotes, hinner]
    exact isCanonicalCursorFrom_complete hdecodes (by omega) (by omega) (Nat.le_refl _)

/-- A cursor that a request may carry: none, or an admissible one. -/
def IsAdmissibleCursor (cursor : Option Bytes) : Prop :=
  ∀ value, cursor = some value → isValidBoundedCursorBytes value = true

theorem cursorToken_length (cursor : Option Bytes) : 0 < (cursorToken cursor).length := by
  cases cursor with
  | none => decide
  | some cursor => exact Nat.succ_pos _

/-- Cutting a body where the recogniser cuts it. -/
theorem body_cut (start token : Bytes) :
    (start ++ token ++ bodySuffix).length - start.length - 2 = token.length ∧
      ((start ++ token ++ bodySuffix).drop start.length).take token.length = token ∧
      (start ++ token ++ bodySuffix).drop ((start ++ token ++ bodySuffix).length - 2) =
        bodySuffix := by
  have hsuffix : bodySuffix.length = 2 := by decide
  refine ⟨?_, ?_, ?_⟩
  · simp only [List.length_append, hsuffix]
    omega
  · rw [List.append_assoc, List.drop_left, List.take_left]
  · rw [List.length_append, hsuffix, Nat.add_sub_cancel, List.drop_left]

/-- The recogniser accepts the bodies that the writer writes for some admissible cursor. -/
theorem isAdmittedGraphqlBody_iff {profile : AdmittedGraphqlRequestProfile} {body : Bytes} :
    isAdmittedGraphqlBody profile body = true ↔
      ∃ cursor, IsAdmissibleCursor cursor ∧ body = graphqlBody profile cursor := by
  unfold isAdmittedGraphqlBody
  generalize hstart : cursorPrefix profile = start
  dsimp only
  constructor
  · intro h
    split at h
    · cases h
    rename_i hshape
    simp only [bne_iff_ne, ne_eq, Bool.or_eq_true, decide_eq_true_eq, not_or,
      Decidable.not_not, Bool.not_eq_true', Bool.not_eq_false] at hshape
    obtain ⟨⟨hstarts, hlength⟩, hsuffix⟩ := hshape
    obtain ⟨tail, rfl⟩ := List.isPrefixOf_iff_prefix.mp hstarts
    rw [List.length_append] at hlength
    -- what lies between the prefix and the two closing braces
    obtain ⟨token, rfl⟩ : ∃ token, tail = token ++ bodySuffix := by
      refine ⟨tail.take (tail.length - 2), ?_⟩
      have hcut : (start ++ tail).length - 2 = start.length + (tail.length - 2) := by
        rw [List.length_append]
        omega
      have hlast : tail.drop (tail.length - 2) = bodySuffix := by
        rw [hcut, List.drop_length_add_append] at hsuffix
        exact hsuffix
      rw [← hlast, List.take_append_drop]
    rw [← List.append_assoc] at h ⊢
    obtain ⟨hsize, htoken, -⟩ := body_cut start token
    rw [hsize, htoken] at h
    split at h
    · rename_i hnull
      rw [Bool.and_eq_true, beq_iff_eq, beq_iff_eq] at hnull
      refine ⟨none, (fun value hvalue => by cases hvalue), ?_⟩
      rw [hnull.2, graphqlBody, hstart]
      rfl
    · obtain ⟨cursor, hcursor, rfl⟩ := isCanonicalCursorToken_iff.mp h
      refine ⟨some cursor, ?_, by rw [graphqlBody, hstart]; rfl⟩
      intro value hvalue
      rwa [← Option.some.inj hvalue]
  · rintro ⟨cursor, hcursor, rfl⟩
    have htokenLength := cursorToken_length cursor
    rw [graphqlBody, hstart]
    obtain ⟨hsize, htoken, hsuffix⟩ := body_cut start (cursorToken cursor)
    have hsuffixLength : bodySuffix.length = 2 := by decide
    have hshape : ¬(!start.isPrefixOf (start ++ cursorToken cursor ++ bodySuffix) ||
        decide ((start ++ cursorToken cursor ++ bodySuffix).length ≤ start.length + 2) ||
        (start ++ cursorToken cursor ++ bodySuffix).drop
          ((start ++ cursorToken cursor ++ bodySuffix).length - 2) != ascii "\x7d\x7d") = true := by
      have hstarts : start.isPrefixOf (start ++ cursorToken cursor ++ bodySuffix) = true := by
        rw [List.isPrefixOf_iff_prefix, List.append_assoc]
        exact List.prefix_append _ _
      have hlength : ¬(start ++ cursorToken cursor ++ bodySuffix).length ≤ start.length + 2 := by
        simp only [List.length_append, hsuffixLength]
        omega
      rw [hstarts, decide_eq_false hlength, hsuffix]
      decide
    rw [if_neg hshape, hsize, htoken]
    cases cursor with
    | none => rfl
    | some cursor =>
      have hcanonical : isCanonicalCursorToken (jsonString cursor) = true :=
        isCanonicalCursorToken_iff.mpr ⟨cursor, hcursor cursor rfl, rfl⟩
      show (if _ then true else isCanonicalCursorToken (jsonString cursor)) = true
      rw [hcanonical, ite_self]

-- ---------------------------------------------------------------------------
-- The size
-- ---------------------------------------------------------------------------

theorem tryAddSerializedBytes_eq_some {bytes limit result total : Nat} :
    tryAddSerializedBytes bytes limit result = some total ↔
      result + bytes ≤ limit ∧ total = result + bytes := by
  unfold tryAddSerializedBytes
  split
  · rename_i h
    simp only [Bool.or_eq_true, decide_eq_true_eq] at h
    constructor
    · intro hnone
      cases hnone
    · rintro ⟨hle, -⟩
      omega
  · rename_i h
    simp only [Bool.or_eq_true, decide_eq_true_eq, not_or] at h
    constructor
    · intro hsome
      obtain rfl := Option.some.inj hsome
      exact ⟨by omega, rfl⟩
    · rintro ⟨-, rfl⟩
      rfl

theorem jsonByteSize_eq (b : UInt8) : jsonByteSize b = (jsonByte b).length := by
  revert b
  exact forall_byte (by decide)

theorem tryAddEachByte_eq_some {limit result total : Nat} {value : Bytes} (h : result ≤ limit) :
    tryAddEachByte limit value result = some total ↔
      result + (value.flatMap jsonByte).length ≤ limit ∧
        total = result + (value.flatMap jsonByte).length := by
  induction value generalizing result with
  | nil =>
    rw [tryAddEachByte]
    constructor
    · intro hsome
      obtain rfl := Option.some.inj hsome
      exact ⟨h, rfl⟩
    · rintro ⟨-, rfl⟩
      rfl
  | cons b rest ih =>
    rw [tryAddEachByte, Option.bind_eq_bind, Option.bind_eq_some_iff, List.flatMap_cons,
      List.length_append, jsonByteSize_eq]
    constructor
    · rintro ⟨next, hnext, hrest⟩
      obtain ⟨hle, rfl⟩ := tryAddSerializedBytes_eq_some.mp hnext
      obtain ⟨hbound, rfl⟩ := (ih hle).mp hrest
      exact ⟨by omega, by omega⟩
    · rintro ⟨hle, rfl⟩
      refine ⟨_, tryAddSerializedBytes_eq_some.mpr ⟨by omega, rfl⟩, ?_⟩
      exact (ih (by omega)).mpr ⟨by omega, by omega⟩

theorem tryAddJsonStringBytes_eq_some {value : Bytes} {limit result total : Nat} :
    tryAddJsonStringBytes value limit result = some total ↔
      result + (jsonString value).length ≤ limit ∧ total = result + (jsonString value).length := by
  have hlength : (jsonString value).length = (value.flatMap jsonByte).length + 2 := by
    rw [jsonString, List.length_cons, List.length_append]
    rfl
  rw [tryAddJsonStringBytes, Option.bind_eq_bind, Option.bind_eq_some_iff, hlength]
  constructor
  · rintro ⟨next, hnext, hrest⟩
    obtain ⟨hle, rfl⟩ := tryAddSerializedBytes_eq_some.mp hnext
    obtain ⟨hbound, rfl⟩ := (tryAddEachByte_eq_some hle).mp hrest
    exact ⟨by omega, by omega⟩
  · rintro ⟨hle, rfl⟩
    refine ⟨_, tryAddSerializedBytes_eq_some.mpr ⟨by omega, rfl⟩, ?_⟩
    exact (tryAddEachByte_eq_some (by omega)).mpr ⟨by omega, by omega⟩

theorem tryAddCursorBytes_eq_some {cursor : Option Bytes} {limit result total : Nat} :
    tryAddCursorBytes cursor limit result = some total ↔
      result + (cursorToken cursor).length ≤ limit ∧
        total = result + (cursorToken cursor).length := by
  cases cursor with
  | none => exact tryAddSerializedBytes_eq_some
  | some cursor => exact tryAddJsonStringBytes_eq_some

theorem decimalDigits_eq (value : Nat) : decimalDigits value = (decimal value).length := by
  have hfrom : ∀ turns value result,
      decimalDigitsFrom turns value (result + 1) = result + (decimalFrom turns value).length := by
    intro turns
    induction turns with
    | zero =>
      intro value result
      rfl
    | succ turns ih =>
      intro value result
      rw [decimalDigitsFrom, decimalFrom]
      by_cases h : 10 ≤ value
      · rw [if_pos h, if_neg (by omega), ih, List.length_append]
        show result + 1 + _ = result + (_ + 1)
        omega
      · rw [if_neg h, if_pos (by omega)]
        rfl
  rw [decimalDigits, decimal, hfrom, Nat.zero_add]

/-- The computed size is the size of what is written, where that fits. -/
theorem tryGraphqlBodyBytes_eq_some {profile : AdmittedGraphqlRequestProfile}
    {cursor : Option Bytes} {allowance : UInt64} {total : Nat} :
    tryGraphqlBodyBytes profile cursor allowance = some total ↔
      (graphqlBody profile cursor).length ≤
          min allowance.toNat profile.maxRequestBodyBytes.toNat ∧
        total = (graphqlBody profile cursor).length := by
  have hlength : (graphqlBody profile cursor).length =
      bodyPrefix.length + (jsonString profile.document).length + variablesPrefix.length +
        (jsonString profile.pageSizeVariable).length + 1 +
        (decimal profile.pageSize.toNat).length + 1 +
        (jsonString profile.cursorVariable).length + 1 + (cursorToken cursor).length +
        bodySuffix.length := by
    have hcolon : (ascii ":").length = 1 := by decide
    have hcomma : (ascii ",").length = 1 := by decide
    simp only [graphqlBody, cursorPrefix, List.length_append, hcolon, hcomma]
    omega
  unfold tryGraphqlBodyBytes
  generalize min allowance.toNat profile.maxRequestBodyBytes.toNat = limit
  simp only [Option.bind_eq_bind, Option.bind_eq_some_iff, tryAddSerializedBytes_eq_some,
    tryAddJsonStringBytes_eq_some, tryAddCursorBytes_eq_some, decimalDigits_eq]
  rw [hlength]
  constructor
  · rintro ⟨_, ⟨-, rfl⟩, _, ⟨-, rfl⟩, _, ⟨-, rfl⟩, _, ⟨-, rfl⟩, _, ⟨-, rfl⟩, _, ⟨-, rfl⟩,
      _, ⟨-, rfl⟩, _, ⟨-, rfl⟩, _, ⟨-, rfl⟩, _, ⟨-, rfl⟩, hle, rfl⟩
    exact ⟨by omega, by omega⟩
  · rintro ⟨hle, rfl⟩
    exact ⟨_, ⟨by omega, rfl⟩, _, ⟨by omega, rfl⟩, _, ⟨by omega, rfl⟩, _, ⟨by omega, rfl⟩,
      _, ⟨by omega, rfl⟩, _, ⟨by omega, rfl⟩, _, ⟨by omega, rfl⟩, _, ⟨by omega, rfl⟩,
      _, ⟨by omega, rfl⟩, _, ⟨by omega, rfl⟩, by omega, by omega⟩

-- ---------------------------------------------------------------------------
-- Reading the body back
-- ---------------------------------------------------------------------------

/-- What a request body says. -/
structure RequestBody where
  document : Bytes
  pageSizeVariable : Bytes
  pageSize : Bytes
  cursorVariable : Bytes
  cursor : Option Bytes
  deriving DecidableEq, Repr

open Json (Result expect literal skipWhitespace peek scanNumber)
open Json.StrictJsonReader (objectSeparator)

/-- A key of the object that has to be there, and its colon. -/
def readKey (expected input : Bytes) : Result Bytes := do
  let (key, input) ← Json.StrictJsonReader.parseObjectKey input
  if key.equals expected then expect (byte ':') (skipWhitespace input) else Json.malformed

def readString (maxDecodedBytes : Nat) (input : Bytes) : Result (Bytes × Bytes) :=
  Json.StrictJsonReader.parseString maxDecodedBytes (ascii "request_body_bytes") []
    (skipWhitespace input)

/-- The name of a variable and its colon. -/
def readVariable (maxDecodedBytes : Nat) (input : Bytes) : Result (Bytes × Bytes) := do
  let (name, input) ← readString maxDecodedBytes input
  let input ← expect (byte ':') (skipWhitespace input)
  .ok (name, skipWhitespace input)

def readCursor (maxDecodedBytes : Nat) (input : Bytes) : Result (Option Bytes × Bytes) :=
  if peek input == byte 'n' then do
    let input ← literal (ascii "null") input
    .ok (none, input)
  else do
    let (cursor, input) ← readString maxDecodedBytes input
    .ok (some cursor, input)

def readNumber (input : Bytes) : Result (Bytes × Bytes) := do
  let rest ← scanNumber input
  .ok (input.take (input.length - rest.length), rest)

/-- How a client of the strict reader reads a body: an object with the members `query`
and `variables`, where `variables` holds a number and a nullable string. -/
def readRequestBody (maxDecodedBytes : Nat) (body : Bytes) : Result RequestBody := do
  let input ← expect (byte '{') (skipWhitespace body)
  let input ← readKey (ascii "query") input
  let (document, input) ← readString maxDecodedBytes input
  let input ← objectSeparator input
  let input ← readKey (ascii "variables") input
  let input ← expect (byte '{') (skipWhitespace input)
  let (pageSizeVariable, input) ← readVariable maxDecodedBytes input
  let (pageSize, input) ← readNumber input
  let input ← objectSeparator input
  let (cursorVariable, input) ← readVariable maxDecodedBytes input
  let (cursor, input) ← readCursor maxDecodedBytes input
  let input ← objectSeparator input
  let input ← expect (byte '}') input
  let input ← objectSeparator input
  let input ← expect (byte '}') input
  if skipWhitespace input ≠ [] then Json.malformed
  else .ok ⟨document, pageSizeVariable, pageSize, cursorVariable, cursor⟩

/-- Reading within a budget keeps the meaning, where it fits. -/
theorem reads_requireAppend {maxDecodedBytes : Nat} {field message inner meaning : Bytes}
    (h : Characters inner meaning) {result : Bytes}
    (hbound : result.length + meaning.length ≤ maxDecodedBytes) :
    Json.Reads (Json.StrictJsonReader.requireAppend maxDecodedBytes field message) result inner
      (result ++ meaning) := by
  induction h generalizing result with
  | nil =>
    rw [List.append_nil]
    exact .nil
  | @cons text piece more rest hcharacter _ ih =>
    rw [List.length_append] at hbound
    have happend : Json.StrictJsonReader.requireAppend maxDecodedBytes field message result piece =
        .ok (result ++ piece) := by
      refine bind_eq_ok.mpr ⟨(), throwIf_eq_ok.mpr ?_, rfl⟩
      rw [Bool.or_eq_false_iff, decide_eq_false_iff_not, decide_eq_false_iff_not]
      exact ⟨by omega, by omega⟩
    refine .cons hcharacter happend ?_
    rw [← List.append_assoc]
    refine ih ?_
    rw [List.length_append]
    omega

/-- The strict reader reads back what the writer wrote. -/
theorem readString_jsonString {maxDecodedBytes : Nat} {value rest : Bytes}
    (hvalue : isValidUtf8 value = true) (hbound : value.length ≤ maxDecodedBytes) :
    readString maxDecodedBytes (jsonString value ++ rest) = .ok (value, rest) := by
  have hskip : skipWhitespace (jsonString value ++ rest) = jsonString value ++ rest :=
    Json.skipWhitespace_append .nil
      (Stops.cons (by decide : isWhitespace quote = false))
  rw [readString, hskip, Json.StrictJsonReader.parseString, Json.stringWith_eq_ok]
  refine ⟨value.flatMap jsonByte, ?_, by simp [jsonString]⟩
  have hfits : ([] : Bytes).length + value.length ≤ maxDecodedBytes := by simpa using hbound
  exact reads_requireAppend (characters_jsonString hvalue) hfits

/-- A key that fits is kept whole. -/
theorem reads_objectKey {inner meaning : Bytes} (h : Characters inner meaning)
    {key : Json.StrictJsonReader.ObjectKey} (hbound : key.bytes.length + meaning.length ≤ 64) :
    Json.Reads (fun key piece => .ok (piece.foldl Json.StrictJsonReader.ObjectKey.append key)) key
      inner ⟨key.bytes ++ meaning, key.overflow⟩ := by
  have hfold (piece : Bytes) (key : Json.StrictJsonReader.ObjectKey)
      (hfits : key.bytes.length + piece.length ≤ 64) :
      piece.foldl Json.StrictJsonReader.ObjectKey.append key =
        ⟨key.bytes ++ piece, key.overflow⟩ := by
    induction piece generalizing key with
    | nil => rw [List.foldl_nil, List.append_nil]
    | cons b rest ih =>
      rw [List.length_cons] at hfits
      have hone : key.append b = ⟨key.bytes ++ [b], key.overflow⟩ := by
        rw [Json.StrictJsonReader.ObjectKey.append, if_pos (by omega)]
      rw [List.foldl_cons, hone, ih]
      · rw [List.append_assoc]
        rfl
      · rw [List.length_append]
        show key.bytes.length + 1 + rest.length ≤ 64
        omega
  induction h generalizing key with
  | nil =>
    rw [List.append_nil]
    exact .nil
  | @cons text piece more rest hcharacter _ ih =>
    rw [List.length_append] at hbound
    refine .cons hcharacter rfl ?_
    rw [hfold piece key (by omega), ← List.append_assoc]
    have hnext : (⟨key.bytes ++ piece, key.overflow⟩ :
        Json.StrictJsonReader.ObjectKey).bytes.length + rest.length ≤ 64 := by
      rw [List.length_append]
      omega
    exact ih hnext

theorem skipWhitespace_cons {b : UInt8} (h : isWhitespace b = false) (rest : Bytes) :
    skipWhitespace (b :: rest) = b :: rest :=
  Json.skipWhitespace_append .nil (Stops.cons h)

theorem readKey_jsonString {key rest : Bytes} (hkey : isValidUtf8 key = true)
    (hbound : key.length ≤ 64) :
    readKey key (jsonString key ++ byte ':' :: rest) = .ok rest := by
  have hparse : Json.StrictJsonReader.parseObjectKey (jsonString key ++ byte ':' :: rest) =
      .ok (⟨key, false⟩, byte ':' :: rest) := by
    rw [Json.StrictJsonReader.parseObjectKey, Json.stringWith_eq_ok]
    refine ⟨key.flatMap jsonByte, ?_, by simp [jsonString]⟩
    have hfits : (⟨[], false⟩ : Json.StrictJsonReader.ObjectKey).bytes.length + key.length ≤ 64 := by
      simpa using hbound
    exact reads_objectKey (characters_jsonString hkey) hfits
  have hequals : (⟨key, false⟩ : Json.StrictJsonReader.ObjectKey).equals key = true := by
    simp [Json.StrictJsonReader.ObjectKey.equals]
  refine bind_eq_ok.mpr ⟨_, hparse, ?_⟩
  dsimp only
  rw [if_pos hequals, skipWhitespace_cons (by decide), Json.expect_eq_ok]

theorem readVariable_jsonString {maxDecodedBytes : Nat} {name rest : Bytes}
    (hname : isValidUtf8 name = true) (hbound : name.length ≤ maxDecodedBytes)
    (hrest : Stops isWhitespace rest) :
    readVariable maxDecodedBytes (jsonString name ++ byte ':' :: rest) = .ok (name, rest) := by
  refine bind_eq_ok.mpr ⟨_, readString_jsonString hname hbound, ?_⟩
  refine bind_eq_ok.mpr ⟨rest, ?_, ?_⟩
  · rw [skipWhitespace_cons (by decide), Json.expect_eq_ok]
  · rw [show skipWhitespace rest = rest from Json.skipWhitespace_append .nil hrest]

theorem isValidUtf8_of_ascii {value : Bytes} (h : ∀ b ∈ value, b ≤ 0x7F) :
    isValidUtf8 value = true := by
  have hdecodes : Utf8.Decodes leadByMask value (value.map UInt8.toNat) := by
    induction value with
    | nil => exact .nil
    | cons b rest ih =>
      refine .cons ?_ (ih fun c hc => h c (List.mem_cons_of_mem _ hc))
      rw [Utf8.decodeOne, if_pos (h b List.mem_cons_self)]
  exact isValidUtf8_iff.mpr ⟨_, hdecodes⟩

theorem isValidUtf8_of_isGraphqlName {name : Bytes} (h : isGraphqlName name = true) :
    isValidUtf8 name = true := by
  have hletter : ∀ b : UInt8, (decide (byte 'A' ≤ b) && decide (b ≤ byte 'Z') ||
      decide (byte 'a' ≤ b) && decide (b ≤ byte 'z') || b == byte '_') = true → b ≤ 0x7F :=
    forall_byte (by decide)
  have hdigit : ∀ b : UInt8, isDigit b = true → b ≤ 0x7F := forall_byte (by decide)
  cases name with
  | nil => cases h
  | cons first rest =>
    simp only [isGraphqlName, List.head?_cons, Option.any_some, List.tail_cons,
      Bool.and_eq_true, List.all_eq_true, Bool.or_eq_true (_ || _) (isDigit _)] at h
    refine isValidUtf8_of_ascii fun b hb => ?_
    rcases List.mem_cons.mp hb with rfl | hb
    · exact hletter b (by simpa using h.1.2)
    · rcases h.2 b hb with hb | hb
      · exact hletter b (by simpa using hb)
      · exact hdigit b hb

theorem decimalFrom_head {turns n : Nat} (hn : 0 < n) (h : n ≤ turns) :
    (decimalFrom turns n).head? ≠ some (byte '0') := by
  have hdigit (n : Nat) (hn : 0 < n) (hlt : n < 10) : digit n ≠ byte '0' := by
    intro heq
    have hnat := congrArg UInt8.toNat heq
    rw [toNat_digit] at hnat
    change 48 + n % 10 = 48 at hnat
    omega
  induction turns generalizing n with
  | zero => omega
  | succ turns ih =>
    rw [decimalFrom]
    split
    · rename_i hlt
      rw [List.head?_cons]
      intro heq
      exact hdigit n hn hlt (Option.some.inj heq)
    · rename_i hge
      have hhead := ih (n := n / 10) (by omega) (by omega)
      cases hdigits : decimalFrom turns (n / 10) with
      | nil =>
        intro _
        cases turns <;> simp [decimalFrom] at hdigits
        split at hdigits <;> simp at hdigits
      | cons b tail =>
        rw [hdigits] at hhead
        exact hhead

/-- `std::to_string` writes numbers of the grammar. -/
theorem isNumber_decimal (n : Nat) : IsNumber (decimal n) := by
  have hinteger : IsInteger (decimal n) := by
    rcases Nat.eq_zero_or_pos n with rfl | hn
    · exact .inl (by decide)
    · exact .inr ⟨⟨decimal_ne_nil n, isDigit_decimal n⟩, decimalFrom_head hn (Nat.le_refl _)⟩
  exact ⟨[], decimal n, [], [], .inl rfl, hinteger, .inl rfl, .inl rfl, by simp⟩

theorem readNumber_decimal {n : Nat} {rest : Bytes} (h : Stops continuesNumber rest) :
    readNumber (decimal n ++ rest) = .ok (decimal n, rest) := by
  refine bind_eq_ok.mpr ⟨rest, Json.scanNumber_complete (isNumber_decimal n) h, ?_⟩
  simp

/-- The body, member by member. -/
theorem graphqlBody_eq (profile : AdmittedGraphqlRequestProfile) (cursor : Option Bytes) :
    graphqlBody profile cursor =
      byte '{' :: (jsonString (ascii "query") ++ byte ':' :: (jsonString profile.document ++
        byte ',' :: (jsonString (ascii "variables") ++ byte ':' :: byte '{' ::
          (jsonString profile.pageSizeVariable ++ byte ':' :: (decimal profile.pageSize.toNat ++
            byte ',' :: (jsonString profile.cursorVariable ++ byte ':' ::
              (cursorToken cursor ++ byte '}' :: byte '}' :: []))))))) := by
  have hstarts : bodyPrefix = byte '{' :: (jsonString (ascii "query") ++ [byte ':']) := by decide
  have hvariables : variablesPrefix =
      byte ',' :: (jsonString (ascii "variables") ++ [byte ':', byte '{']) := by decide
  have hsuffix : bodySuffix = [byte '}', byte '}'] := by decide
  have hcolon : ascii ":" = [byte ':'] := by decide
  have hcomma : ascii "," = [byte ','] := by decide
  simp [graphqlBody, cursorPrefix, hstarts, hvariables, hsuffix, hcolon, hcomma]

theorem length_le_jsonString (value : Bytes) : value.length ≤ (jsonString value).length := by
  have hflat : value.length ≤ (value.flatMap jsonByte).length := by
    induction value with
    | nil => exact Nat.le_refl _
    | cons b rest ih =>
      have hpos := List.length_pos_iff.mpr (jsonByte_ne_nil b)
      rw [List.flatMap_cons, List.length_append, List.length_cons]
      omega
  rw [jsonString, List.length_cons, List.length_append]
  omega

theorem readCursor_cursorToken {maxDecodedBytes : Nat} {cursor : Option Bytes} {rest : Bytes}
    (hcursor : IsAdmissibleCursor cursor) (hbound : (cursorToken cursor).length ≤ maxDecodedBytes) :
    readCursor maxDecodedBytes (cursorToken cursor ++ rest) = .ok (cursor, rest) := by
  cases cursor with
  | none =>
    have hpeek : (peek (cursorToken none ++ rest) == byte 'n') = true := by
      have hnull : cursorToken none = byte 'n' :: ascii "ull" := by decide
      rw [hnull]
      rfl
    rw [readCursor, if_pos hpeek]
    exact bind_eq_ok.mpr ⟨rest, Json.literal_eq_ok.mpr rfl, rfl⟩
  | some cursor =>
    obtain ⟨-, -, hvalid⟩ := isValidBoundedCursorBytes_iff.mp (hcursor cursor rfl)
    have hfits : cursor.length ≤ maxDecodedBytes :=
      Nat.le_trans (length_le_jsonString cursor) hbound
    have hpeek : ¬(peek (cursorToken (some cursor) ++ rest) == byte 'n') = true :=
      (by decide : ¬(quote == byte 'n') = true)
    rw [readCursor, if_neg hpeek]
    exact bind_eq_ok.mpr ⟨_, readString_jsonString hvalid hfits, rfl⟩

/-- Every written string fits where the whole body does. -/
theorem readRequestBody_graphqlBody {profile : AdmittedGraphqlRequestProfile}
    {cursor : Option Bytes} (hcursor : IsAdmissibleCursor cursor) {maxDecodedBytes : Nat}
    (hbound : (graphqlBody profile cursor).length ≤ maxDecodedBytes) :
    readRequestBody maxDecodedBytes (graphqlBody profile cursor) =
      .ok ⟨profile.document, profile.pageSizeVariable, decimal profile.pageSize.toNat,
        profile.cursorVariable, cursor⟩ := by
  have hdocument := length_le_jsonString profile.document
  have hpageSize := length_le_jsonString profile.pageSizeVariable
  have hcursorName := length_le_jsonString profile.cursorVariable
  rw [graphqlBody_eq] at hbound ⊢
  simp only [List.length_append, List.length_cons] at hbound
  have hopen (b : UInt8) (rest : Bytes) (hb : isWhitespace b = false) (hne : b ≠ byte '}') :
      objectSeparator (byte ',' :: (b :: rest)) = .ok (b :: rest) :=
    Json.separator_comma IsWhitespace.nil IsWhitespace.nil (Stops.cons hb) hne
  have hclose (rest : Bytes) : objectSeparator (byte '}' :: rest) = .ok (byte '}' :: rest) :=
    Json.separator_close (by decide) (by decide) IsWhitespace.nil
  have hdigits (rest : Bytes) : Stops isWhitespace (decimal profile.pageSize.toNat ++ rest) := by
    have hall : ∀ b : UInt8, isDigit b = true → isWhitespace b = false :=
      forall_byte (by decide)
    have hmem := isDigit_decimal profile.pageSize.toNat
    obtain ⟨b, digits, heq⟩ := List.exists_cons_of_ne_nil (decimal_ne_nil profile.pageSize.toNat)
    rw [heq] at hmem ⊢
    exact Stops.cons (hall b (hmem b List.mem_cons_self))
  have htoken (rest : Bytes) : Stops isWhitespace (cursorToken cursor ++ rest) := by
    cases cursor with
    | none =>
      have hnull : cursorToken none = byte 'n' :: ascii "ull" := by decide
      rw [hnull]
      exact Stops.cons (by decide)
    | some cursor => exact Stops.cons (by decide : isWhitespace quote = false)
  have hexpect (b : UInt8) (rest : Bytes) (hb : isWhitespace b = false) :
      expect b (skipWhitespace (b :: rest)) = .ok rest := by
    rw [skipWhitespace_cons hb, Json.expect_eq_ok]
  unfold readRequestBody
  refine bind_eq_ok.mpr ⟨_, hexpect _ _ (by decide), ?_⟩
  refine bind_eq_ok.mpr ⟨_, readKey_jsonString (by decide +kernel) (by decide), ?_⟩
  refine bind_eq_ok.mpr ⟨_, readString_jsonString profile.document_utf8 (by omega), ?_⟩
  refine bind_eq_ok.mpr ⟨_, hopen quote _ (by decide) (by decide), ?_⟩
  refine bind_eq_ok.mpr ⟨_, readKey_jsonString (by decide +kernel) (by decide), ?_⟩
  refine bind_eq_ok.mpr ⟨_, hexpect _ _ (by decide), ?_⟩
  refine bind_eq_ok.mpr ⟨_, readVariable_jsonString
    (isValidUtf8_of_isGraphqlName profile.pageSizeVariable_name) (by omega) (hdigits _), ?_⟩
  refine bind_eq_ok.mpr ⟨_, readNumber_decimal (Stops.cons (by decide)), ?_⟩
  refine bind_eq_ok.mpr ⟨_, hopen quote _ (by decide) (by decide), ?_⟩
  refine bind_eq_ok.mpr ⟨_, readVariable_jsonString
    (isValidUtf8_of_isGraphqlName profile.cursorVariable_name) (by omega) (htoken _), ?_⟩
  refine bind_eq_ok.mpr ⟨_, readCursor_cursorToken hcursor (by omega), ?_⟩
  refine bind_eq_ok.mpr ⟨_, hclose _, ?_⟩
  refine bind_eq_ok.mpr ⟨_, Json.expect_eq_ok.mpr rfl, ?_⟩
  refine bind_eq_ok.mpr ⟨_, hclose _, ?_⟩
  exact bind_eq_ok.mpr ⟨_, Json.expect_eq_ok.mpr rfl, rfl⟩

/-- The body is an object that nests one object. -/
theorem isDocument_graphqlBody {profile : AdmittedGraphqlRequestProfile} {cursor : Option Bytes}
    (hcursor : IsAdmissibleCursor cursor) : IsDocument 2 (graphqlBody profile cursor) := by
  have hkey {key : Bytes} (h : ∀ b ∈ key, b ≤ 0x7F) : IsString (jsonString key) :=
    isString_jsonString (isValidUtf8_of_ascii h)
  have hname {name : Bytes} (h : isGraphqlName name = true) : IsString (jsonString name) :=
    isString_jsonString (isValidUtf8_of_isGraphqlName h)
  have htoken : Derives .value 0 (cursorToken cursor) := by
    cases cursor with
    | none => exact .literal (.inr (.inr rfl))
    | some cursor =>
      obtain ⟨-, -, hvalid⟩ := isValidBoundedCursorBytes_iff.mp (hcursor cursor rfl)
      exact .string (isString_jsonString hvalid)
  have hvariables := Derives.object .nil (Derives.member (hname profile.pageSizeVariable_name) .nil
    .nil (.number (isNumber_decimal profile.pageSize.toNat)) .nil .nil
    (.lastMember (hname profile.cursorVariable_name) .nil .nil htoken .nil))
  have hquery : IsString (jsonString (ascii "query")) := hkey (forall_mem_byte (by decide))
  have hsecond : IsString (jsonString (ascii "variables")) :=
    hkey (forall_mem_byte (by decide))
  have hbody := Derives.object .nil (Derives.member hquery .nil .nil
    (.string (isString_jsonString profile.document_utf8)) .nil .nil
    (.lastMember hsecond .nil .nil hvariables .nil))
  refine ⟨[], _, [], .nil, hbody, .nil, ?_⟩
  rw [graphqlBody_eq]
  simp

-- ---------------------------------------------------------------------------
-- The whole
-- ---------------------------------------------------------------------------

/-- The request that carries a body. -/
def requestWith (profile : AdmittedGraphqlRequestProfile) (body : Bytes) : GraphqlRequest :=
  ⟨profile.method, profile.scheme, profile.host, profile.port, profile.path, profile.headers,
    body, ascii "application/json"⟩

/-- When a request is built, and which. -/
theorem buildAdmittedGraphqlRequest_eq_ok {capacity : Nat → Nat}
    {profile : AdmittedGraphqlRequestProfile} {cursor : Option Bytes} {allowance : UInt64}
    {request : GraphqlRequest} :
    buildAdmittedGraphqlRequest capacity profile cursor allowance = .ok request ↔
      IsAdmissibleCursor cursor ∧
        (graphqlBody profile cursor).length ≤
          min allowance.toNat profile.maxRequestBodyBytes.toNat ∧
        hasBoundedHttpStringCapacity (capacity (graphqlBody profile cursor).length)
          (UInt64.ofNat (graphqlBody profile cursor).length) = true ∧
        request = requestWith profile (graphqlBody profile cursor) := by
  have hadmissible : (cursor.any fun cursor => !isValidBoundedCursorBytes cursor) = false ↔
      IsAdmissibleCursor cursor := by
    cases cursor with
    | none => simp [IsAdmissibleCursor]
    | some cursor => simp [IsAdmissibleCursor]
  unfold buildAdmittedGraphqlRequest
  rw [bind_eq_ok]
  constructor
  · rintro ⟨_, hcursor, h⟩
    split at h
    · cases h
    rename_i bytes hbytes
    obtain ⟨hle, rfl⟩ := tryGraphqlBodyBytes_eq_some.mp hbytes
    obtain ⟨_, -, h⟩ := bind_eq_ok.mp h
    obtain ⟨_, hcapacity, h⟩ := bind_eq_ok.mp h
    obtain ⟨_, -, h⟩ := bind_eq_ok.mp h
    refine ⟨hadmissible.mp (throwIf_eq_ok.mp hcursor), hle, ?_, (Except.ok.inj h).symm⟩
    simpa using throwIf_eq_ok.mp hcapacity
  · rintro ⟨hcursor, hle, hcapacity, rfl⟩
    refine ⟨(), throwIf_eq_ok.mpr (hadmissible.mpr hcursor), ?_⟩
    have hsmall := profile.maxRequestBodyBytes.toNat_lt
    rw [tryGraphqlBodyBytes_eq_some.mpr ⟨hle, rfl⟩]
    refine bind_eq_ok.mpr ⟨(), throwIf_eq_ok.mpr ?_, ?_⟩
    · rw [decide_eq_false_iff_not]
      omega
    refine bind_eq_ok.mpr ⟨(), throwIf_eq_ok.mpr (by rw [hcapacity]; rfl), ?_⟩
    exact bind_eq_ok.mpr ⟨(), throwIf_eq_ok.mpr (by rw [hcapacity, bne_self_eq_false]; rfl), rfl⟩

/-- A request that is built has a body of the computed size, which is a JSON object
that the strict reader reads back to the document, the page size and the cursor, and
which the recogniser accepts. A null or admissible cursor whose body fits gets a
request. What the recogniser accepts is the body of some null or admissible cursor,
and the one that is built for it where it is within the budget of the profile. -/
theorem graphql_request_body {capacity : Nat → Nat}
    (hcapacity : ∀ bytes ≤ 16 * 1024,
      hasBoundedHttpStringCapacity (capacity bytes) (UInt64.ofNat bytes) = true)
    (profile : AdmittedGraphqlRequestProfile) :
    (∀ cursor allowance request,
      buildAdmittedGraphqlRequest capacity profile cursor allowance = .ok request →
        tryGraphqlBodyBytes profile cursor allowance = some request.body.length ∧
        IsDocument 2 request.body ∧
        (∀ maxDecodedBytes, request.body.length ≤ maxDecodedBytes →
          readRequestBody maxDecodedBytes request.body =
            .ok ⟨profile.document, profile.pageSizeVariable, decimal profile.pageSize.toNat,
              profile.cursorVariable, cursor⟩) ∧
        isAdmittedGraphqlBody profile request.body = true) ∧
    (∀ cursor allowance, IsAdmissibleCursor cursor →
      (graphqlBody profile cursor).length ≤ min allowance.toNat profile.maxRequestBodyBytes.toNat →
      buildAdmittedGraphqlRequest capacity profile cursor allowance =
        .ok (requestWith profile (graphqlBody profile cursor))) ∧
    (∀ body, isAdmittedGraphqlBody profile body = true →
      ∃ cursor, IsAdmissibleCursor cursor ∧ body = graphqlBody profile cursor ∧
        (body.length ≤ profile.maxRequestBodyBytes.toNat →
          buildAdmittedGraphqlRequest capacity profile cursor profile.maxRequestBodyBytes =
            .ok (requestWith profile body))) := by
  have hbuild (cursor : Option Bytes) (allowance : UInt64) (hcursor : IsAdmissibleCursor cursor)
      (hle : (graphqlBody profile cursor).length ≤
        min allowance.toNat profile.maxRequestBodyBytes.toNat) :
      buildAdmittedGraphqlRequest capacity profile cursor allowance =
        .ok (requestWith profile (graphqlBody profile cursor)) := by
    have hsmall := profile.maxRequestBodyBytes_le
    have hbounded := hcapacity (graphqlBody profile cursor).length (by omega)
    exact buildAdmittedGraphqlRequest_eq_ok.mpr ⟨hcursor, hle, hbounded, rfl⟩
  refine ⟨?_, hbuild, ?_⟩
  · intro cursor allowance request h
    obtain ⟨hcursor, hle, -, rfl⟩ := buildAdmittedGraphqlRequest_eq_ok.mp h
    refine ⟨tryGraphqlBodyBytes_eq_some.mpr ⟨hle, rfl⟩, isDocument_graphqlBody hcursor, ?_, ?_⟩
    · intro maxDecodedBytes hbound
      exact readRequestBody_graphqlBody hcursor hbound
    · exact isAdmittedGraphqlBody_iff.mpr ⟨cursor, hcursor, rfl⟩
  · intro body h
    obtain ⟨cursor, hcursor, rfl⟩ := isAdmittedGraphqlBody_iff.mp h
    refine ⟨cursor, hcursor, rfl, fun hle => ?_⟩
    exact hbuild cursor profile.maxRequestBodyBytes hcursor (by omega)

/-- A profile of one connection, with a budget that the first page fills. -/
def tightProfile : AdmittedGraphqlRequestProfile where
  method := ascii "POST"
  scheme := ascii "https"
  host := ascii "api.example.com"
  port := 443
  path := ascii "/graphql"
  headers := []
  document := ascii "query Items($first: Int!, $after: String) \x7b\n  items(\n" ++
    ascii "    first: $first\n    after: $after\n  ) \x7b\n    nodes \x7b\n      id\n" ++
    ascii "    \x7d\n    pageInfo \x7b hasNextPage endCursor \x7d\n  \x7d\n\x7d"
  pageSizeVariable := ascii "first"
  pageSize := 50
  cursorVariable := ascii "after"
  maxRequestBodyBytes := 226
  document_size := by decide +kernel
  document_utf8 := by decide +kernel
  pageSizeVariable_name := by decide +kernel
  cursorVariable_name := by decide +kernel
  variables_differ := by decide +kernel
  pageSize_pos := by decide
  maxRequestBodyBytes_pos := by decide
  maxRequestBodyBytes_le := by decide

/-- A library that reserves what it is asked for stays within the envelope. -/
theorem exact_capacity (bytes : Nat) (h : bytes ≤ 16 * 1024) :
    hasBoundedHttpStringCapacity (id bytes) (UInt64.ofNat bytes) = true := by
  have hnat : (UInt64.ofNat bytes).toNat = bytes := by
    rw [UInt64.toNat_ofNat']
    omega
  have hlimit : ¬UInt64.ofNat bytes > 0xFFFFFFFFFFFFFFFF - 64 := by
    rw [gt_iff_lt, UInt64.lt_iff_toNat_lt, hnat]
    exact Nat.not_lt.mpr (Nat.le_trans h (by decide))
  have hsum : (UInt64.ofNat bytes + 64).toNat = bytes + 64 := by
    rw [UInt64.toNat_add, hnat]
    show (bytes + 64) % 2 ^ 64 = bytes + 64
    omega
  rw [hasBoundedHttpStringCapacity, httpStringAllocationLimit, if_neg hlimit, hsum,
    Bool.and_eq_true, decide_eq_true_eq, decide_eq_true_eq]
  exact ⟨Nat.lt_of_le_of_lt h (by decide), by show bytes + 1 ≤ bytes + 64; omega⟩

theorem graphql_request_body_first_page :
    buildAdmittedGraphqlRequest id tightProfile none 226 =
        .ok (requestWith tightProfile (graphqlBody tightProfile none)) ∧
      isAdmittedGraphqlBody tightProfile (graphqlBody tightProfile none) = true := by
  obtain ⟨hbuilt, hbuild, -⟩ := graphql_request_body exact_capacity tightProfile
  have hfirst := hbuild none 226 (fun value hvalue => nomatch hvalue) (by decide +kernel)
  obtain ⟨-, -, -, hadmitted⟩ := hbuilt none 226 _ hfirst
  exact ⟨hfirst, hadmitted⟩

/-- The second page of the tight profile is recognised and never built: its body is over
the budget, which the recogniser does not look at. -/
theorem second_page_recognised_not_built :
    isAdmittedGraphqlBody tightProfile (graphqlBody tightProfile (some (ascii "abcde"))) = true ∧
      ∀ capacity cursor request,
        buildAdmittedGraphqlRequest capacity tightProfile cursor
          tightProfile.maxRequestBodyBytes = .ok request →
        request.body ≠ graphqlBody tightProfile (some (ascii "abcde")) := by
  refine ⟨by decide +kernel, fun capacity cursor request h hbody => ?_⟩
  obtain ⟨-, hle, -, rfl⟩ := buildAdmittedGraphqlRequest_eq_ok.mp h
  have hover : (graphqlBody tightProfile (some (ascii "abcde"))).length = 229 := by decide +kernel
  have hbudget : tightProfile.maxRequestBodyBytes.toNat = 226 := by decide +kernel
  rw [show graphqlBody tightProfile cursor = _ from hbody, hover, hbudget] at hle
  omega

end Cuac.Runtime

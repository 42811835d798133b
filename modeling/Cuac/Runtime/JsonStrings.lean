import Cuac.Runtime.JsonReaders

/-!
# Runtime — the strings and numbers of the JSON readers

Main results:

* `stringLoop_eq_ok` — a string reader returns on the characters of RFC 8259 up to
  the closing quote, and keeps what they stand for.
* `StrictJsonReader.skipString_eq` and `StrictJsonReader.skipNumber_eq` — the strict
  reader skips what the REST decoder parses, and throws what it throws.
* `scanNumber_sound` and `scanNumber_complete` — numbers.
-/

namespace Cuac.Runtime.Json

open Cuac.Lib Cuac.Lib.Json

-- ---------------------------------------------------------------------------
-- Bytes
-- ---------------------------------------------------------------------------

@[simp] theorem malformed_ne_ok {α : Type} {a : α} : (malformed : Result α) ≠ .ok a :=
  fun h => nomatch h

/-- The byte that was expected is taken off the input. -/
@[simp] theorem expect_eq_ok {expected : UInt8} {input rest : Bytes} :
    expect expected input = .ok rest ↔ input = expected :: rest := by
  cases input with
  | nil => simp [expect]
  | cons b tail =>
    rw [expect]
    by_cases hb : b = expected
    · subst hb
      simp
    · simp [hb]

/-- A literal is taken off the input. -/
@[simp] theorem literal_eq_ok {word input rest : Bytes} :
    literal word input = .ok rest ↔ input = word ++ rest := by
  induction word generalizing input with
  | nil => simp [literal]
  | cons expected more ih => simp [literal, ih]

@[simp] theorem peek_cons (b : UInt8) (rest : Bytes) : peek (b :: rest) = b := rfl

/-- The reader sees a byte when it is the first of the input; at the end it sees a zero byte. -/
theorem peek_eq {input : Bytes} {b : UInt8} (hb : b ≠ 0) :
    peek input = b ↔ ∃ rest, input = b :: rest := by
  cases input with
  | nil => simpa [peek] using Ne.symm hb
  | cons c rest => simp [peek]

/-- What the reader skips is whitespace. -/
theorem skipWhitespace_split (input : Bytes) :
    ∃ gap, IsWhitespace gap ∧ input = gap ++ skipWhitespace input :=
  ⟨input.takeWhile isWhitespace, isWhitespace_takeWhile input,
    (List.takeWhile_append_dropWhile).symm⟩

/-- Whitespace is skipped up to its end. -/
theorem skipWhitespace_append {gap rest : Bytes} (hgap : IsWhitespace gap)
    (hrest : Stops isWhitespace rest) : skipWhitespace (gap ++ rest) = rest :=
  dropWhile_append hgap hrest

-- ---------------------------------------------------------------------------
-- Characters
-- ---------------------------------------------------------------------------

/-- The reader tells the length of a sequence by the high bits of its first byte. -/
theorem leadByMask_byHighBits : Utf8.ByHighBits leadByMask where
  two := by decide +kernel
  three := by decide +kernel
  four := by decide +kernel
  only := by
    have hall : ∀ b : UInt8, ¬b ≤ 0x7F → leadByMask b = none ∨
        (∃ p : Fin 32, b = UInt8.ofNat (0xC0 + p) ∧ leadByMask b = some ⟨1, p, 0x80⟩) ∨
        (∃ p : Fin 16, b = UInt8.ofNat (0xE0 + p) ∧ leadByMask b = some ⟨2, p, 0x800⟩) ∨
        ∃ p : Fin 8, b = UInt8.ofNat (0xF0 + p) ∧ leadByMask b = some ⟨3, p, 0x10000⟩ :=
      forall_byte (by decide)
    intro b l hb hl
    rcases hall b hb with h | ⟨p, hp, h⟩ | ⟨p, hp, h⟩ | ⟨p, hp, h⟩
    · rw [h] at hl
      cases hl
    · exact .inl ⟨p, hp, Option.some.inj (hl.symm.trans h)⟩
    · exact .inr (.inl ⟨p, hp, Option.some.inj (hl.symm.trans h)⟩)
    · exact .inr (.inr ⟨p, hp, Option.some.inj (hl.symm.trans h)⟩)

/-- One character is read when the input starts with the encoding of a scalar value. -/
theorem readUtf8_eq_ok {input piece rest : Bytes} :
    readUtf8 input = .ok (piece, rest) ↔
      ∃ codePoint, Utf8.IsScalar codePoint ∧ piece = Utf8.encode codePoint ∧
        input = piece ++ rest := by
  unfold readUtf8
  constructor
  · intro h
    split at h
    · rename_i codePoint after hone
      obtain ⟨rfl, rfl⟩ := Prod.mk.inj (Except.ok.inj h)
      obtain ⟨hscalar, hinput⟩ := (Utf8.decodeOne_eq_ok leadByMask_byHighBits).mp hone
      have htake : input.take (input.length - after.length) = Utf8.encode codePoint := by
        rw [hinput]
        simp
      rw [htake]
      exact ⟨codePoint, hscalar, rfl, hinput⟩
    · cases h
  · rintro ⟨codePoint, hscalar, rfl, rfl⟩
    rw [Utf8.decodeOne_encode leadByMask_byHighBits hscalar]
    simp

/-- The loop over the digits of an escape reads exactly `count` of them. -/
theorem hexCodeUnitFrom_eq_ok {count result unit : Nat} {input rest : Bytes} :
    hexCodeUnitFrom count result input = .ok (unit, rest) ↔
      ∃ digits, digits.length = count ∧ (∀ b ∈ digits, isHexDigit b = true) ∧
        digits.foldl (fun seen b => seen * 16 + ((hexValue b).getD 0).toNat) result = unit ∧
        input = digits ++ rest := by
  induction count generalizing result input with
  | zero =>
    rw [hexCodeUnitFrom]
    constructor
    · intro h
      obtain ⟨rfl, rfl⟩ := Prod.mk.inj (Except.ok.inj h)
      exact ⟨[], rfl, (fun b hb => nomatch hb), rfl, rfl⟩
    · rintro ⟨digits, hlength, -, rfl, rfl⟩
      obtain rfl := List.length_eq_zero_iff.mp hlength
      rfl
  | succ count ih =>
    cases input with
    | nil =>
      constructor
      · intro h
        cases h
      · rintro ⟨digits, hlength, -, -, hinput⟩
        obtain ⟨rfl, -⟩ := List.append_eq_nil_iff.mp hinput.symm
        cases hlength
    | cons b tail =>
      rw [hexCodeUnitFrom]
      cases hb : hexValue b with
      | none =>
        constructor
        · intro h
          cases h
        · rintro ⟨digits, hlength, hhex, -, hinput⟩
          cases digits with
          | nil => cases hlength
          | cons c digits =>
            obtain ⟨rfl, -⟩ := List.cons.inj hinput
            have := hhex b List.mem_cons_self
            rw [isHexDigit, hb] at this
            cases this
      | some digit =>
        dsimp only
        rw [ih, Nat.shiftLeft_eq]
        constructor
        · rintro ⟨digits, rfl, hhex, hvalue, rfl⟩
          refine ⟨b :: digits, rfl, fun c hc => ?_, ?_, rfl⟩
          · rcases List.mem_cons.mp hc with rfl | hc
            · rw [isHexDigit, hb]
              rfl
            · exact hhex c hc
          · rw [List.foldl_cons, hb]
            exact hvalue
        · rintro ⟨digits, hlength, hhex, hvalue, hinput⟩
          cases digits with
          | nil => cases hlength
          | cons c digits =>
            obtain ⟨rfl, rfl⟩ := List.cons.inj hinput
            rw [List.foldl_cons, hb] at hvalue
            exact ⟨digits, Nat.succ.inj hlength, fun c hc => hhex c (List.mem_cons_of_mem _ hc),
              hvalue, rfl⟩

/-- A code unit is read from the four digits that spell it. -/
theorem parseHexCodeUnit_eq_ok {input rest : Bytes} {unit : Nat} :
    parseHexCodeUnit input = .ok (unit, rest) ↔
      ∃ digits, CodeUnit digits unit ∧ input = digits ++ rest := by
  rw [parseHexCodeUnit, hexCodeUnitFrom_eq_ok]
  constructor
  · rintro ⟨digits, hlength, hhex, hvalue, rfl⟩
    exact ⟨digits, ⟨hlength, hhex, hvalue⟩, rfl⟩
  · rintro ⟨digits, ⟨hlength, hhex, hvalue⟩, rfl⟩
    exact ⟨digits, hlength, hhex, hvalue, rfl⟩

/-- Behind a high surrogate an escaped low surrogate is read, and nothing else. -/
theorem lowSurrogate_eq_ok {high codePoint : Nat} {input rest : Bytes} :
    lowSurrogate high input = .ok (codePoint, rest) ↔
      ∃ digits low, CodeUnit digits low ∧ IsLowSurrogate low ∧ codePoint = combine high low ∧
        input = backslash :: byte 'u' :: (digits ++ rest) := by
  unfold lowSurrogate
  constructor
  · intro h
    split at h
    · rename_i b c tail
      split at h
      · cases h
      rename_i hmark
      simp only [bne_iff_ne, ne_eq, Bool.or_eq_true, not_or, Decidable.not_not] at hmark
      obtain ⟨rfl, rfl⟩ := hmark
      obtain ⟨⟨low, after⟩, hunit, hrest⟩ := bind_eq_ok.mp h
      obtain ⟨digits, hdigits, rfl⟩ := parseHexCodeUnit_eq_ok.mp hunit
      dsimp only at hrest
      split at hrest
      · cases hrest
      rename_i hlow
      simp only [Bool.or_eq_true, decide_eq_true_eq] at hlow
      obtain ⟨hcode, rfl⟩ := Prod.mk.inj (Except.ok.inj hrest)
      have hlow' : 0xDC00 ≤ low ∧ low ≤ 0xDFFF := by omega
      exact ⟨digits, low, hdigits, hlow', hcode.symm, rfl⟩
    · cases h
  · rintro ⟨digits, low, hdigits, hlow, hcode, rfl⟩
    rw [IsLowSurrogate] at hlow
    have hunit : parseHexCodeUnit (digits ++ rest) = .ok (low, rest) :=
      parseHexCodeUnit_eq_ok.mpr ⟨digits, hdigits, rfl⟩
    simp only [bne_self_eq_false, Bool.or_self, Bool.false_eq_true, if_false]
    rw [hcode]
    refine bind_eq_ok.mpr ⟨_, hunit, if_neg ?_⟩
    simp only [Bool.or_eq_true, decide_eq_true_eq]
    omega

/-- An escape is read as a code point outside the surrogates, or as a pair of surrogates. -/
theorem escapedUnicode_eq_ok {codePoint : Nat} {input rest : Bytes} :
    escapedUnicode input = .ok (codePoint, rest) ↔
      (∃ digits, CodeUnit digits codePoint ∧ ¬IsHighSurrogate codePoint ∧
        ¬IsLowSurrogate codePoint ∧ input = digits ++ rest) ∨
      ∃ first second high low, CodeUnit first high ∧ CodeUnit second low ∧
        IsHighSurrogate high ∧ IsLowSurrogate low ∧ codePoint = combine high low ∧
        input = first ++ backslash :: byte 'u' :: (second ++ rest) := by
  unfold escapedUnicode
  rw [bind_eq_ok]
  constructor
  · rintro ⟨⟨unit, after⟩, hunit, h⟩
    obtain ⟨digits, hdigits, rfl⟩ := parseHexCodeUnit_eq_ok.mp hunit
    dsimp only at h
    split at h
    · rename_i hhigh
      simp only [Bool.and_eq_true, decide_eq_true_eq] at hhigh
      obtain ⟨second, low, hsecond, hlow, hcode, rfl⟩ := lowSurrogate_eq_ok.mp h
      exact .inr ⟨digits, second, unit, low, hdigits, hsecond, hhigh, hlow, hcode, rfl⟩
    rename_i hhigh
    simp only [Bool.and_eq_true, decide_eq_true_eq] at hhigh
    split at h
    · cases h
    rename_i hlow
    simp only [Bool.and_eq_true, decide_eq_true_eq] at hlow
    obtain ⟨rfl, rfl⟩ := Prod.mk.inj (Except.ok.inj h)
    exact .inl ⟨digits, hdigits, hhigh, hlow, rfl⟩
  · rintro (⟨digits, hdigits, hhigh, hlow, rfl⟩ |
      ⟨first, second, high, low, hfirst, hsecond, hhigh, hlow, hcode, rfl⟩)
    · refine ⟨_, parseHexCodeUnit_eq_ok.mpr ⟨digits, hdigits, rfl⟩, ?_⟩
      dsimp only
      rw [if_neg, if_neg]
      · simpa only [Bool.and_eq_true, decide_eq_true_eq, IsLowSurrogate] using hlow
      · simpa only [Bool.and_eq_true, decide_eq_true_eq, IsHighSurrogate] using hhigh
    · refine ⟨_, parseHexCodeUnit_eq_ok.mpr ⟨first, hfirst, rfl⟩, ?_⟩
      dsimp only
      rw [if_pos]
      · exact lowSurrogate_eq_ok.mpr ⟨second, low, hsecond, hlow, hcode, rfl⟩
      · simpa only [Bool.and_eq_true, decide_eq_true_eq, IsHighSurrogate] using hhigh

/-- The switch by the table of the short escapes. -/
theorem readEscape_eq (escaped : UInt8) (rest : Bytes) :
    readEscape escaped rest =
      match shortEscape escaped with
      | some c => .ok ([c], rest)
      | none =>
        if escaped == byte 'u' then do
          let (codePoint, rest) ← escapedUnicode rest
          .ok (Utf8.encode codePoint, rest)
        else malformed := by
  unfold readEscape shortEscape
  split
  · rfl
  split
  · rfl
  split
  · rfl
  split
  · rfl
  split
  · rfl
  split <;> rfl

theorem shortEscape_u : shortEscape (byte 'u') = none := by decide +kernel

/-- An escape of the source is an escape of the grammar. -/
theorem readEscape_eq_ok {escaped : UInt8} {input piece rest : Bytes} :
    readEscape escaped input = .ok (piece, rest) ↔
      ∃ text, Character (backslash :: escaped :: text) piece ∧ input = text ++ rest := by
  rw [readEscape_eq]
  constructor
  · intro h
    split at h
    · rename_i c hc
      obtain ⟨rfl, rfl⟩ := Prod.mk.inj (Except.ok.inj h)
      exact ⟨[], .escape hc, rfl⟩
    split at h
    · rename_i hu
      obtain rfl := beq_iff_eq.mp hu
      obtain ⟨⟨codePoint, after⟩, hunicode, hrest⟩ := bind_eq_ok.mp h
      obtain ⟨rfl, rfl⟩ := Prod.mk.inj (Except.ok.inj hrest)
      rcases escapedUnicode_eq_ok.mp hunicode with ⟨digits, hdigits, hhigh, hlow, rfl⟩ |
        ⟨first, second, high, low, hfirst, hsecond, hhigh, hlow, hcode, rfl⟩
      · exact ⟨digits, .unicode hdigits hhigh hlow, rfl⟩
      · rw [hcode]
        exact ⟨_, .pair hfirst hsecond hhigh hlow, by simp⟩
    · cases h
  · rintro ⟨text, hcharacter, rfl⟩
    generalize hwhole : backslash :: escaped :: text = whole at hcharacter
    cases hcharacter with
    | plain hscalar _ _ hne =>
      -- the backslash would be the code point itself
      rcases Utf8.encode_eq_cons hscalar hwhole.symm with ⟨-, hcode, -⟩ | ⟨hhigh, -⟩
      · exact absurd hcode hne
      · exact absurd (by decide : backslash ≤ 0x7F) hhigh
    | escape hc =>
      obtain ⟨rfl, rfl⟩ := List.cons.inj (List.cons.inj hwhole).2
      rw [hc]
      rfl
    | unicode hdigits hhigh hlow =>
      obtain ⟨rfl, rfl⟩ := List.cons.inj (List.cons.inj hwhole).2
      rw [shortEscape_u]
      exact bind_eq_ok.mpr ⟨_, escapedUnicode_eq_ok.mpr
        (.inl ⟨_, hdigits, hhigh, hlow, rfl⟩), rfl⟩
    | pair hfirst hsecond hhigh hlow =>
      obtain ⟨rfl, rfl⟩ := List.cons.inj (List.cons.inj hwhole).2
      rw [shortEscape_u]
      exact bind_eq_ok.mpr ⟨_, escapedUnicode_eq_ok.mpr
        (.inr ⟨_, _, _, _, hfirst, hsecond, hhigh, hlow, rfl, by simp⟩), rfl⟩

-- ---------------------------------------------------------------------------
-- Strings
-- ---------------------------------------------------------------------------

/-- A byte that starts a plain character. -/
theorem plain_of_scalar {codePoint : Nat} (hscalar : Utf8.IsScalar codePoint) {b : UInt8}
    {tail : Bytes} (hb : Utf8.encode codePoint = b :: tail) (hcontrol : ¬b < 0x20)
    (hquote : b ≠ quote) (hslash : b ≠ backslash) :
    Character (Utf8.encode codePoint) (Utf8.encode codePoint) := by
  have hq : quote.toNat ≤ 0x7F := by decide
  have hs : backslash.toNat ≤ 0x7F := by decide
  rcases Utf8.encode_eq_cons hscalar hb with ⟨-, rfl, -⟩ | ⟨-, hhigh⟩
  · refine .plain hscalar (Nat.not_lt.mp hcontrol) ?_ ?_
    · intro h
      exact hquote (UInt8.toNat_inj.mp h)
    · intro h
      exact hslash (UInt8.toNat_inj.mp h)
  · exact .plain hscalar (by omega) (by omega) (by omega)

/-- How the first byte of a plain character looks. -/
theorem scalar_of_plain {codePoint : Nat} (hscalar : Utf8.IsScalar codePoint)
    (hcontrol : 0x20 ≤ codePoint) (hquote : codePoint ≠ quote.toNat)
    (hslash : codePoint ≠ backslash.toNat) {b : UInt8} {tail : Bytes}
    (hb : Utf8.encode codePoint = b :: tail) : b ≠ quote ∧ ¬b < 0x20 ∧ b ≠ backslash := by
  rcases Utf8.encode_eq_cons hscalar hb with ⟨-, rfl, -⟩ | ⟨hhigh, -⟩
  · refine ⟨?_, Nat.not_lt.mpr hcontrol, ?_⟩
    · rintro rfl
      exact hquote rfl
    · rintro rfl
      exact hslash rfl
  · have hall : ∀ b : UInt8, ¬b ≤ 0x7F → b ≠ quote ∧ ¬b < 0x20 ∧ b ≠ backslash :=
      forall_byte (by decide)
    exact hall b hhigh

section Strings

variable {σ : Type} {append : σ → Bytes → Result σ}

/-- What a string reader goes through, character by character. -/
inductive Reads (append : σ → Bytes → Result σ) : σ → Bytes → σ → Prop
  | nil {result : σ} : Reads append result [] result
  | cons {result next last : σ} {text piece more : Bytes} : Character text piece →
      append result piece = .ok next → Reads append next more last →
      Reads append result (text ++ more) last

/-- The loop over a string reads characters up to a closing quote. -/
theorem stringLoop_sound {turns : Nat} {result last : σ} {input rest : Bytes}
    (h : stringLoop append turns result input = .ok (last, rest)) :
    ∃ inner, Reads append result inner last ∧ input = inner ++ quote :: rest := by
  induction turns generalizing result input with
  | zero => cases input <;> cases h
  | succ turns ih =>
    cases input with
    | nil => cases h
    | cons b tail =>
      unfold stringLoop at h
      split at h
      · rename_i hquote
        obtain ⟨rfl, rfl⟩ := Prod.mk.inj (Except.ok.inj h)
        exact ⟨[], .nil, by rw [beq_iff_eq.mp hquote, List.nil_append]⟩
      rename_i hquote
      split at h
      · cases h
      rename_i hcontrol
      split at h
      · rename_i hslash
        obtain ⟨⟨piece, after⟩, hread, hnext⟩ := bind_eq_ok.mp h
        obtain ⟨next, happend, hloop⟩ := bind_eq_ok.mp hnext
        obtain ⟨codePoint, hscalar, rfl, hinput⟩ := readUtf8_eq_ok.mp hread
        obtain ⟨inner, hreads, rfl⟩ := ih hloop
        have hcharacter : Character (Utf8.encode codePoint) (Utf8.encode codePoint) := by
          obtain ⟨first, conts, hencode⟩ := List.exists_cons_of_ne_nil (Utf8.encode_ne_nil codePoint)
          rw [hencode, List.cons_append] at hinput
          obtain ⟨rfl, -⟩ := List.cons.inj hinput
          exact plain_of_scalar hscalar hencode hcontrol (by simpa using hquote)
            (by simpa using hslash)
        refine ⟨_, .cons hcharacter happend hreads, ?_⟩
        rw [hinput, List.append_assoc]
      · rename_i hslash
        obtain rfl : b = backslash := by simpa using hslash
        split at h
        · cases h
        rename_i escaped after
        obtain ⟨⟨piece, after⟩, hread, hnext⟩ := bind_eq_ok.mp h
        obtain ⟨next, happend, hloop⟩ := bind_eq_ok.mp hnext
        obtain ⟨text, hcharacter, rfl⟩ := readEscape_eq_ok.mp hread
        obtain ⟨inner, hreads, rfl⟩ := ih hloop
        exact ⟨_, .cons hcharacter happend hreads, by simp⟩

/-- One character at the front of the loop. -/
theorem stringLoop_character {text piece rest : Bytes} (hcharacter : Character text piece)
    (turns : Nat) (result : σ) :
    stringLoop append (turns + 1) result (text ++ rest) =
      append result piece >>= fun next => stringLoop append turns next rest := by
  have hescape (escaped : UInt8) (text : Bytes)
      (hcharacter : Character (backslash :: escaped :: text) piece) :
      stringLoop append (turns + 1) result (backslash :: escaped :: text ++ rest) =
        append result piece >>= fun next => stringLoop append turns next rest := by
    rw [List.cons_append, List.cons_append, stringLoop,
      readEscape_eq_ok.mpr ⟨text, hcharacter, rfl⟩]
    rfl
  cases hcharacter with
  | plain hscalar hcontrol hquote hslash =>
    rename_i codePoint
    have hread : readUtf8 (Utf8.encode codePoint ++ rest) = .ok (Utf8.encode codePoint, rest) :=
      readUtf8_eq_ok.mpr ⟨codePoint, hscalar, rfl, rfl⟩
    obtain ⟨b, tail, hb⟩ := List.exists_cons_of_ne_nil (Utf8.encode_ne_nil codePoint)
    obtain ⟨hq, hc, hs⟩ := scalar_of_plain hscalar hcontrol hquote hslash hb
    rw [hb, List.cons_append] at hread
    rw [hb, List.cons_append]
    conv_lhs => unfold stringLoop
    rw [if_neg (by simpa using hq), if_neg hc, if_pos (by simpa using hs), hread]
    rfl
  | escape hc => exact hescape _ _ (.escape hc)
  | unicode hdigits hhigh hlow => exact hescape _ _ (.unicode hdigits hhigh hlow)
  | pair hfirst hsecond hhigh hlow => exact hescape _ _ (.pair hfirst hsecond hhigh hlow)

/-- Characters that end with a closing quote are read when the turns are enough. -/
theorem stringLoop_complete {result last : σ} {inner : Bytes}
    (h : Reads append result inner last) {turns : Nat} (hturns : inner.length < turns)
    (rest : Bytes) :
    stringLoop append turns result (inner ++ quote :: rest) = .ok (last, rest) := by
  induction h generalizing turns with
  | nil =>
    cases turns with
    | zero => exact absurd hturns (Nat.not_lt_zero _)
    | succ turns => rfl
  | @cons result next last text piece more hcharacter happend _ ih =>
    have htext := List.length_pos_iff.mpr hcharacter.ne_nil
    rw [List.length_append] at hturns
    cases turns with
    | zero => exact absurd hturns (Nat.not_lt_zero _)
    | succ turns =>
      rw [List.append_assoc, stringLoop_character hcharacter, happend]
      exact ih (by omega)

/-- A string reader returns on a quoted run of characters, and keeps what they stand
for. -/
theorem stringWith_eq_ok {result last : σ} {input rest : Bytes} :
    stringWith append result input = .ok (last, rest) ↔
      ∃ inner, Reads append result inner last ∧ input = quote :: (inner ++ quote :: rest) := by
  unfold stringWith
  rw [bind_eq_ok]
  constructor
  · rintro ⟨tail, hopen, hloop⟩
    obtain rfl := expect_eq_ok.mp hopen
    obtain ⟨inner, hreads, rfl⟩ := stringLoop_sound hloop
    exact ⟨inner, hreads, rfl⟩
  · rintro ⟨inner, hreads, rfl⟩
    refine ⟨_, expect_eq_ok.mpr rfl, stringLoop_complete hreads ?_ rest⟩
    rw [List.length_append, List.length_cons]
    omega

end Strings

/-- A reader that only appends keeps the meaning of the string. -/
theorem reads_append {result last inner : Bytes} :
    Reads (fun result piece => .ok (result ++ piece)) result inner last ↔
      ∃ meaning, Characters inner meaning ∧ last = result ++ meaning := by
  constructor
  · intro h
    induction h with
    | nil => exact ⟨[], .nil, (List.append_nil _).symm⟩
    | cons hcharacter happend _ ih =>
      obtain ⟨meaning, hmore, rfl⟩ := ih
      obtain rfl := Except.ok.inj happend
      exact ⟨_, .cons hcharacter hmore, List.append_assoc _ _ _⟩
  · rintro ⟨meaning, hcharacters, rfl⟩
    induction hcharacters generalizing result with
    | nil =>
      rw [List.append_nil]
      exact .nil
    | cons hcharacter _ ih =>
      refine .cons hcharacter rfl ?_
      rw [← List.append_assoc]
      exact ih

/-- The parser reads exactly the quoted strings, as what their characters mean. -/
theorem JsonParser.parseString_eq_ok {input meaning rest : Bytes} :
    JsonParser.parseString input = .ok (meaning, rest) ↔
      ∃ inner, Characters inner meaning ∧ input = quote :: (inner ++ quote :: rest) := by
  rw [JsonParser.parseString, stringWith_eq_ok]
  constructor
  · rintro ⟨inner, hreads, rfl⟩
    obtain ⟨_, hcharacters, rfl⟩ := reads_append.mp hreads
    exact ⟨inner, hcharacters, rfl⟩
  · rintro ⟨inner, hcharacters, rfl⟩
    exact ⟨inner, reads_append.mpr ⟨meaning, hcharacters, rfl⟩, rfl⟩

-- ---------------------------------------------------------------------------
-- The strict reader skips what the REST decoder parses
-- ---------------------------------------------------------------------------

/-- The reader that keeps no text skips what the other one reads. -/
theorem skipEscape_eq (escaped : UInt8) (rest : Bytes) :
    StrictJsonReader.skipEscape escaped rest = Prod.snd <$> readEscape escaped rest := by
  rw [readEscape_eq, StrictJsonReader.skipEscape]
  have hall : ∀ escaped : UInt8,
      (escaped == byte 'u') = true ∧ shortEscape escaped = none ∨
      (escaped == byte 'u') = false ∧
        (escaped != quote && escaped != backslash && escaped != byte '/' &&
          escaped != byte 'b' && escaped != byte 'f' && escaped != byte 'n' &&
          escaped != byte 'r' && escaped != byte 't') = (shortEscape escaped).isNone :=
    forall_byte (by decide)
  rcases hall escaped with ⟨hu, hshort⟩ | ⟨hu, hlist⟩
  · rw [hu, hshort, if_pos rfl]
    simp only [if_true, map_bind]
    rw [map_eq_pure_bind]
    rfl
  · rw [hu, hlist]
    cases hshort : shortEscape escaped <;> rfl

/-- Skipping a string takes the same turns as reading it. -/
theorem skipStringLoop_eq (turns : Nat) (result input : Bytes) :
    StrictJsonReader.skipStringLoop turns input =
      Prod.snd <$> stringLoop (fun result piece => .ok (result ++ piece)) turns result input := by
  induction turns generalizing result input with
  | zero => cases input <;> rfl
  | succ turns ih =>
    cases input with
    | nil => rfl
    | cons b tail =>
      conv_lhs => unfold StrictJsonReader.skipStringLoop
      conv_rhs => unfold stringLoop
      split
      · rfl
      split
      · rfl
      split
      · rw [map_bind]
        refine bind_congr fun read => ?_
        exact ih _ _
      · cases tail with
        | nil => rfl
        | cons escaped rest =>
          dsimp only
          rw [skipEscape_eq, map_bind, bind_map_left]
          refine bind_congr fun read => ?_
          exact ih _ _

/-- The strict reader skips the string that the REST decoder parses, or throws the same. -/
theorem StrictJsonReader.skipString_eq (input : Bytes) :
    StrictJsonReader.skipString input = Prod.snd <$> JsonParser.parseString input := by
  rw [StrictJsonReader.skipString, JsonParser.parseString, stringWith, map_bind]
  exact bind_congr fun tail => skipStringLoop_eq _ _ _

-- ---------------------------------------------------------------------------
-- Numbers
-- ---------------------------------------------------------------------------

/-- Where a number cannot go on there is no digit, point or exponent. -/
theorem stops_of_continues {rest : Bytes} (h : Stops continuesNumber rest) :
    Stops isDigit rest ∧ peek rest ≠ byte '.' ∧ peek rest ≠ byte 'e' ∧ peek rest ≠ byte 'E' := by
  cases rest with
  | nil => exact ⟨Stops.nil _, by decide, by decide, by decide⟩
  | cons b tail =>
    have hb := h b rfl
    simp only [continuesNumber, Bool.or_eq_false_iff, beq_eq_false_iff_ne] at hb
    exact ⟨Stops.cons hb.1.1.1, hb.1.1.2, hb.1.2, hb.2⟩

/-- The first byte of a row of digits is a digit. -/
theorem isDigit_peek {digits rest : Bytes} (h : IsDigits digits) :
    isDigit (peek (digits ++ rest)) = true := by
  obtain ⟨b, tail, rfl⟩ := List.exists_cons_of_ne_nil h.1
  exact h.2 b List.mem_cons_self

/-- A run of digits that starts with one. -/
theorem digits_split {input : Bytes} (h : isDigit (peek input) = true) :
    ∃ digits, IsDigits digits ∧ input = digits ++ input.dropWhile isDigit := by
  refine ⟨input.takeWhile isDigit, ⟨?_, fun b hb => List.mem_takeWhile_imp hb⟩,
    (List.takeWhile_append_dropWhile).symm⟩
  cases input with
  | nil => exact absurd h (by decide)
  | cons b tail =>
    rw [peek_cons] at h
    rw [List.takeWhile_cons, if_pos h]
    exact List.cons_ne_nil _ _

/-- What is skipped is at least one digit. -/
theorem skipDigits_sound {input rest : Bytes} (h : skipDigits input = .ok rest) :
    ∃ digits, IsDigits digits ∧ input = digits ++ rest := by
  unfold skipDigits at h
  split at h
  · cases h
  · rename_i hdigit
    obtain rfl := Except.ok.inj h
    exact digits_split (by simpa using hdigit)

/-- Digits are skipped up to the first byte that is none. -/
theorem skipDigits_complete {digits rest : Bytes} (h : IsDigits digits)
    (hrest : Stops isDigit rest) : skipDigits (digits ++ rest) = .ok rest := by
  rw [skipDigits, isDigit_peek h, dropWhile_append h.2 hrest]
  rfl

/-- What is skipped is an integer without leading zeros. -/
theorem skipInteger_sound {input rest : Bytes} (h : skipInteger input = .ok rest) :
    ∃ integer, IsInteger integer ∧ input = integer ++ rest := by
  unfold skipInteger at h
  split at h
  · rename_i hzero
    obtain ⟨tail, rfl⟩ := (peek_eq (by decide)).mp (beq_iff_eq.mp hzero)
    split at h
    · cases h
    obtain rfl := Except.ok.inj h
    exact ⟨[byte '0'], .inl rfl, rfl⟩
  rename_i hzero
  split at h
  · cases h
  · rename_i hrange
    obtain rfl := Except.ok.inj h
    have hall : ∀ b : UInt8, ¬(decide (b < byte '1') || decide (byte '9' < b)) = true →
        isDigit b = true := forall_byte (by decide)
    obtain ⟨digits, hdigits, hinput⟩ := digits_split (hall _ hrange)
    refine ⟨digits, .inr ⟨hdigits, ?_⟩, hinput⟩
    intro hhead
    obtain ⟨b, more, rfl⟩ := List.exists_cons_of_ne_nil hdigits.1
    obtain rfl := Option.some.inj hhead
    rw [hinput] at hzero
    exact hzero (beq_self_eq_true _)

/-- An integer is skipped where no digit follows it. -/
theorem skipInteger_complete {integer rest : Bytes} (h : IsInteger integer)
    (hrest : Stops isDigit rest) : skipInteger (integer ++ rest) = .ok rest := by
  rcases h with rfl | ⟨hdigits, hhead⟩
  · have hstop : isDigit (peek rest) = false := by
      cases rest with
      | nil => decide
      | cons b tail => exact hrest b rfl
    rw [skipInteger, if_pos (by rfl)]
    show (if isDigit (peek rest) then malformed else .ok rest) = _
    rw [hstop]
    rfl
  · have hall : ∀ b : UInt8, isDigit b = true → b ≠ byte '0' →
        (decide (b < byte '1') || decide (byte '9' < b)) = false :=
      forall_byte (by decide)
    have hzero : peek (integer ++ rest) ≠ byte '0' := by
      obtain ⟨b, more, rfl⟩ := List.exists_cons_of_ne_nil hdigits.1
      intro hb
      exact hhead (congrArg some hb)
    rw [skipInteger, if_neg (by simpa using hzero), hall _ (isDigit_peek hdigits) hzero,
      dropWhile_append hdigits.2 hrest]
    rfl

/-- What is skipped is a fraction or nothing. -/
theorem skipFraction_sound {input rest : Bytes} (h : skipFraction input = .ok rest) :
    ∃ fraction, IsFraction fraction ∧ input = fraction ++ rest := by
  unfold skipFraction at h
  split at h
  · rename_i hpoint
    obtain ⟨tail, rfl⟩ := (peek_eq (by decide)).mp (beq_iff_eq.mp hpoint)
    obtain ⟨digits, hdigits, htail⟩ := skipDigits_sound h
    exact ⟨byte '.' :: digits, .inr ⟨digits, hdigits, rfl⟩, congrArg _ htail⟩
  · obtain rfl := Except.ok.inj h
    exact ⟨[], .inl rfl, rfl⟩

/-- A fraction is skipped where neither a digit nor a point follows it. -/
theorem skipFraction_complete {fraction rest : Bytes} (h : IsFraction fraction)
    (hrest : Stops isDigit rest) (hpoint : peek rest ≠ byte '.') :
    skipFraction (fraction ++ rest) = .ok rest := by
  rcases h with rfl | ⟨digits, hdigits, rfl⟩
  · rw [List.nil_append, skipFraction, if_neg (by simpa using hpoint)]
  · rw [List.cons_append, skipFraction, if_pos (by rfl)]
    exact skipDigits_complete hdigits hrest

/-- What is skipped is an exponent or nothing. -/
theorem skipExponent_sound {input rest : Bytes} (h : skipExponent input = .ok rest) :
    ∃ exponent, IsExponent exponent ∧ input = exponent ++ rest := by
  unfold skipExponent at h
  split at h
  · rename_i hopen
    obtain ⟨mark, tail, rfl, hmark⟩ : ∃ mark tail, input = mark :: tail ∧
        (mark = byte 'e' ∨ mark = byte 'E') := by
      simp only [Bool.or_eq_true, beq_iff_eq] at hopen
      rcases hopen with hmark | hmark
      · obtain ⟨tail, rfl⟩ := (peek_eq (by decide)).mp hmark
        exact ⟨_, tail, rfl, .inl rfl⟩
      · obtain ⟨tail, rfl⟩ := (peek_eq (by decide)).mp hmark
        exact ⟨_, tail, rfl, .inr rfl⟩
    obtain ⟨digits, hdigits, hafter⟩ := skipDigits_sound h
    rw [List.tail_cons] at hafter
    by_cases hsign : (peek tail == byte '+' || peek tail == byte '-') = true
    · rw [if_pos hsign] at hafter
      simp only [Bool.or_eq_true, beq_iff_eq] at hsign
      rcases hsign with hsign | hsign
      · obtain ⟨tail, rfl⟩ := (peek_eq (by decide)).mp hsign
        obtain rfl : tail = digits ++ rest := hafter
        exact ⟨_, .inr ⟨mark, [byte '+'], digits, hdigits, hmark, .inr (.inl rfl), rfl⟩, rfl⟩
      · obtain ⟨tail, rfl⟩ := (peek_eq (by decide)).mp hsign
        obtain rfl : tail = digits ++ rest := hafter
        exact ⟨_, .inr ⟨mark, [byte '-'], digits, hdigits, hmark, .inr (.inr rfl), rfl⟩, rfl⟩
    · rw [if_neg hsign] at hafter
      rw [hafter]
      exact ⟨_, .inr ⟨mark, [], digits, hdigits, hmark, .inl rfl, rfl⟩, rfl⟩
  · obtain rfl := Except.ok.inj h
    exact ⟨[], .inl rfl, rfl⟩

/-- An exponent is skipped where the number ends. -/
theorem skipExponent_complete {exponent rest : Bytes} (h : IsExponent exponent)
    (hrest : Stops continuesNumber rest) : skipExponent (exponent ++ rest) = .ok rest := by
  obtain ⟨hstop, -, he, hE⟩ := stops_of_continues hrest
  rcases h with rfl | ⟨mark, sign, digits, hdigits, hmark, hsign, rfl⟩
  · rw [List.nil_append, skipExponent, if_neg (by simp [he, hE])]
  · have hopen : (peek (mark :: (sign ++ digits) ++ rest) == byte 'e' ||
        peek (mark :: (sign ++ digits) ++ rest) == byte 'E') = true := by
      rcases hmark with rfl | rfl <;> rfl
    have hafter : skipDigits (digits ++ rest) = .ok rest := skipDigits_complete hdigits hstop
    rw [skipExponent, if_pos hopen]
    dsimp only [List.cons_append, List.tail_cons]
    rcases hsign with rfl | rfl | rfl
    · have hall : ∀ b : UInt8, isDigit b = true → (b == byte '+' || b == byte '-') = false :=
        forall_byte (by decide)
      rw [List.nil_append, hall _ (isDigit_peek hdigits)]
      exact hafter
    · exact hafter
    · exact hafter

/-- What is scanned is a number of the grammar. -/
theorem scanNumber_sound {input rest : Bytes} (h : scanNumber input = .ok rest) :
    ∃ text, IsNumber text ∧ input = text ++ rest := by
  obtain ⟨first, hfirst, hnext⟩ := bind_eq_ok.mp h
  obtain ⟨second, hsecond, hthird⟩ := bind_eq_ok.mp hnext
  obtain ⟨integer, hinteger, hsigned⟩ := skipInteger_sound hfirst
  obtain ⟨fraction, hfraction, rfl⟩ := skipFraction_sound hsecond
  obtain ⟨exponent, hexponent, rfl⟩ := skipExponent_sound hthird
  have hsign : ∃ sign, (sign = [] ∨ sign = [byte '-']) ∧ input = sign ++ skipSign input := by
    unfold skipSign
    split
    · rename_i hminus
      obtain ⟨tail, rfl⟩ := (peek_eq (by decide)).mp (beq_iff_eq.mp hminus)
      exact ⟨[byte '-'], .inr rfl, rfl⟩
    · exact ⟨[], .inl rfl, rfl⟩
  obtain ⟨sign, hsign, hinput⟩ := hsign
  refine ⟨_, ⟨sign, integer, fraction, exponent, hsign, hinteger, hfraction, hexponent, rfl⟩, ?_⟩
  rw [hinput, hsigned]
  simp

/-- A number is scanned where no byte follows that would go on with it. -/
theorem scanNumber_complete {text rest : Bytes} (h : IsNumber text)
    (hrest : Stops continuesNumber rest) : scanNumber (text ++ rest) = .ok rest := by
  obtain ⟨sign, integer, fraction, exponent, hsign, hinteger, hfraction, hexponent, rfl⟩ := h
  obtain ⟨hstop, hpoint, -, -⟩ := stops_of_continues hrest
  -- what follows each part cannot continue it
  have hexponentStart : Stops isDigit (exponent ++ rest) ∧ peek (exponent ++ rest) ≠ byte '.' := by
    rcases hexponent with rfl | ⟨mark, sign, digits, -, rfl | rfl, -, rfl⟩
    · exact ⟨hstop, hpoint⟩
    · exact ⟨Stops.cons (by decide), (by decide : byte 'e' ≠ byte '.')⟩
    · exact ⟨Stops.cons (by decide), (by decide : byte 'E' ≠ byte '.')⟩
  have hfractionStart : Stops isDigit (fraction ++ (exponent ++ rest)) := by
    rcases hfraction with rfl | ⟨digits, -, rfl⟩
    · exact hexponentStart.1
    · exact Stops.cons (by decide)
  have hunsigned : skipSign (sign ++ (integer ++ (fraction ++ (exponent ++ rest)))) =
      integer ++ (fraction ++ (exponent ++ rest)) := by
    rcases hsign with rfl | rfl
    · have hminus : peek (integer ++ (fraction ++ (exponent ++ rest))) ≠ byte '-' := by
        have hall : ∀ b : UInt8, isDigit b = true → b ≠ byte '-' := forall_byte (by decide)
        rcases hinteger with rfl | ⟨hdigits, -⟩
        · exact (by decide : byte '0' ≠ byte '-')
        · exact hall _ (isDigit_peek hdigits)
      rw [List.nil_append, skipSign, if_neg (by simpa using hminus)]
    · rfl
  simp only [List.append_assoc]
  rw [scanNumber, hunsigned]
  refine bind_eq_ok.mpr ⟨_, skipInteger_complete hinteger hfractionStart, ?_⟩
  refine bind_eq_ok.mpr ⟨_, skipFraction_complete hfraction hexponentStart.1 hexponentStart.2, ?_⟩
  exact skipExponent_complete hexponent hrest

/-- The strict reader skips the number that the REST decoder parses: the question whether
anything was read is always answered by yes. -/
theorem StrictJsonReader.skipNumber_eq (input : Bytes) :
    StrictJsonReader.skipNumber input = Prod.snd <$> JsonParser.parseNumberToken input := by
  rw [StrictJsonReader.skipNumber, JsonParser.parseNumberToken, map_bind]
  cases h : scanNumber input with
  | error stop => rfl
  | ok rest =>
    obtain ⟨text, htext, rfl⟩ := scanNumber_sound h
    have hpos := List.length_pos_iff.mpr htext.ne_nil
    show (if rest.length = (text ++ rest).length then malformed else .ok rest) = .ok rest
    rw [if_neg]
    rw [List.length_append]
    omega

end Cuac.Runtime.Json

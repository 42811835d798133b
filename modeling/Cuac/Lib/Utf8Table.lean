import Cuac.Lib.Utf8

/-!
# Well-formed UTF-8

The byte sequences of the scalar values as a table of byte ranges, the texts that are
made of them, and loops that read a text by position, one sequence a turn. A read past
the end is a fault of its own.

Main results:

* `IsSequence.encode`, `isSequence_encode` — the table lists what the encoder writes.
* `encode_toNat` — and so does the encoder of characters.
* `walk_spec` — a loop whose turns follow the table accepts the well-formed texts, and never
  reads past the end.
-/

namespace Cuac.Lib.Utf8

-- ---------------------------------------------------------------------------
-- The table
-- ---------------------------------------------------------------------------

/-- The six bits of a continuation byte. -/
def bits (b : UInt8) : Nat := b.toNat - 0x80

/-- The sequence of a code point. -/
inductive IsSequence : Bytes → Nat → Prop
  | one {a : UInt8} : a ≤ 0x7F → IsSequence [a] a.toNat
  | two {a b : UInt8} : 0xC2 ≤ a → a ≤ 0xDF → isContinuation b = true →
      IsSequence [a, b] ((a.toNat - 0xC0) * 64 + bits b)
  | three {a b c : UInt8} : 0xE0 ≤ a → a ≤ 0xEF → isContinuation b = true →
      isContinuation c = true → (a = 0xE0 → 0xA0 ≤ b) → (a = 0xED → b < 0xA0) →
      IsSequence [a, b, c] (((a.toNat - 0xE0) * 64 + bits b) * 64 + bits c)
  | four {a b c d : UInt8} : 0xF0 ≤ a → a ≤ 0xF4 → isContinuation b = true →
      isContinuation c = true → isContinuation d = true → (a = 0xF0 → 0x90 ≤ b) →
      (a = 0xF4 → b < 0x90) →
      IsSequence [a, b, c, d] ((((a.toNat - 0xF0) * 64 + bits b) * 64 + bits c) * 64 + bits d)

theorem isContinuation_range : ∀ b : UInt8, isContinuation b = true ↔
    0x80 ≤ b.toNat ∧ b.toNat < 0xC0 :=
  forall_byte (by decide)

theorem continuation_bits {b : UInt8} (h : isContinuation b = true) : continuation (bits b) =
    b := by
  have hall : ∀ b : UInt8, isContinuation b = true → continuation (bits b) = b :=
    forall_byte (by decide)
  exact hall b h

theorem bits_continuation (n : Nat) : bits (continuation n) = n % 64 := by
  have hall : ∀ low : Fin 64, bits (UInt8.ofNat (0x80 + low)) = low := by decide +kernel
  rw [continuation_eq, hall ⟨n % 64, Nat.mod_lt _ (by omega)⟩]

theorem bits_lt {b : UInt8} (h : isContinuation b = true) : bits b < 64 := by
  have hrange := (isContinuation_range b).mp h
  unfold bits
  omega

theorem encode_two {p q : Nat} (hlow : 2 ≤ p) (hp : p < 32) (hq : q < 64) :
    encode (p * 64 + q) = [UInt8.ofNat (0xC0 + p), continuation q] := by
  rw [encode_eq (by omega), if_neg (by omega), if_pos (by omega), continuation_add,
    show (p * 64 + q) / 64 = p by omega]

theorem encode_three {p q r : Nat} (hlow : 0x800 ≤ (p * 64 + q) * 64 + r) (hp : p < 16)
    (hq : q < 64) (hr : r < 64) :
    encode ((p * 64 + q) * 64 + r) =
      [UInt8.ofNat (0xE0 + p), continuation q, continuation r] := by
  rw [encode_eq (by omega), if_neg (by omega), if_neg (by omega), if_pos (by omega),
    continuation_add, show ((p * 64 + q) * 64 + r) / 4096 = p by omega,
    show ((p * 64 + q) * 64 + r) / 64 = p * 64 + q by omega, continuation_add]

theorem encode_four {p q r s : Nat} (hlow : 0x10000 ≤ ((p * 64 + q) * 64 + r) * 64 + s)
    (hhigh : ((p * 64 + q) * 64 + r) * 64 + s ≤ 0x10FFFF) (hq : q < 64) (hr : r < 64)
    (hs : s < 64) :
    encode (((p * 64 + q) * 64 + r) * 64 + s) =
      [UInt8.ofNat (0xF0 + p), continuation q, continuation r, continuation s] := by
  rw [encode_eq hhigh, if_neg (by omega), if_neg (by omega), if_neg (by omega), continuation_add,
    show (((p * 64 + q) * 64 + r) * 64 + s) / 262144 = p by omega,
    show (((p * 64 + q) * 64 + r) * 64 + s) / 4096 = p * 64 + q by omega,
    show (((p * 64 + q) * 64 + r) * 64 + s) / 64 = (p * 64 + q) * 64 + r by omega,
    continuation_add, continuation_add]

theorem ofNat_add_sub {a : UInt8} {n : Nat} (h : n ≤ a.toNat) :
    UInt8.ofNat (n + (a.toNat - n)) = a := by
  rw [Nat.add_sub_cancel' h, UInt8.ofNat_toNat]

theorem IsSequence.encode {seq : Bytes} {codePoint : Nat} (h : IsSequence seq codePoint) :
    IsScalar codePoint ∧ seq = encode codePoint := by
  induction h with
  | @one a ha =>
    have hbound : a.toNat ≤ 0x7F := ha
    exact ⟨⟨by omega, by omega⟩, (encode_ascii ha).symm⟩
  | @two a b hlow hhigh hb =>
    simp only [UInt8.le_iff_toNat_le, UInt8.reduceToNat] at hlow hhigh
    have hbits := bits_lt hb
    refine ⟨⟨by omega, by omega⟩, ?_⟩
    rw [encode_two (by omega) (by omega) hbits, ofNat_add_sub (by omega), continuation_bits hb]
  | @three a b c hlow hhigh hb hc hfirst hsurrogate =>
    simp only [UInt8.le_iff_toNat_le, UInt8.reduceToNat] at hlow hhigh
    simp only [← UInt8.toNat_inj, UInt8.le_iff_toNat_le, UInt8.reduceToNat] at hfirst
    simp only [← UInt8.toNat_inj, UInt8.lt_iff_toNat_lt, UInt8.reduceToNat] at hsurrogate
    have hbBits := bits_lt hb
    have hcBits := bits_lt hc
    have hrange := (isContinuation_range b).mp hb
    have hbValue : bits b = b.toNat - 0x80 := rfl
    refine ⟨⟨by omega, by omega⟩, ?_⟩
    rw [encode_three (by omega) (by omega) hbBits hcBits, ofNat_add_sub (by omega),
      continuation_bits hb, continuation_bits hc]
  | @four a b c d hlow hhigh hb hc hd hfirst hlast =>
    simp only [UInt8.le_iff_toNat_le, UInt8.reduceToNat] at hlow hhigh
    simp only [← UInt8.toNat_inj, UInt8.le_iff_toNat_le, UInt8.reduceToNat] at hfirst
    simp only [← UInt8.toNat_inj, UInt8.lt_iff_toNat_lt, UInt8.reduceToNat] at hlast
    have hbBits := bits_lt hb
    have hcBits := bits_lt hc
    have hdBits := bits_lt hd
    have hrange := (isContinuation_range b).mp hb
    have hbValue : bits b = b.toNat - 0x80 := rfl
    refine ⟨⟨by omega, by omega⟩, ?_⟩
    rw [encode_four (by omega) (by omega) hbBits hcBits hdBits, ofNat_add_sub (by omega),
      continuation_bits hb, continuation_bits hc, continuation_bits hd]

theorem isSequence_encode {codePoint : Nat} (h : IsScalar codePoint) :
    IsSequence (encode codePoint) codePoint := by
  obtain ⟨hmax, hsurrogate⟩ := h
  have hle {n m : Nat} (hm : m < 256) (h : n ≤ m) : UInt8.ofNat n ≤ UInt8.ofNat m := by
    rw [UInt8.le_iff_toNat_le, toNat_ofNat_of_lt (by omega), toNat_ofNat_of_lt hm]
    exact h
  have heq {n m : Nat} (hn : n < 256) (hm : m < 256) (h : UInt8.ofNat n = UInt8.ofNat m) :
      n = m := by
    rw [← toNat_ofNat_of_lt hn, ← toNat_ofNat_of_lt hm, h]
  have hlt {n m : Nat} (hm : m < 256) (h : n < m) : UInt8.ofNat n < UInt8.ofNat m := by
    rw [UInt8.lt_iff_toNat_lt, toNat_ofNat_of_lt (by omega), toNat_ofNat_of_lt hm]
    exact h
  have hcont := isContinuation_continuation
  rw [encode_eq hmax]
  split
  · rename_i hone
    have hseq := IsSequence.one (hle (m := 0x7F) (by decide) hone)
    rwa [toNat_ofNat_of_lt (by omega)] at hseq
  split
  · have hseq := IsSequence.two (hle (n := 0xC2) (m := 0xC0 + codePoint / 64) (by omega) (by omega))
      (hle (m := 0xDF) (by decide) (by omega)) (hcont codePoint)
    rwa [toNat_ofNat_of_lt (by omega), bits_continuation,
      show (0xC0 + codePoint / 64 - 0xC0) * 64 + codePoint % 64 = codePoint by omega] at hseq
  split
  · have hseq := IsSequence.three
      (hle (n := 0xE0) (m := 0xE0 + codePoint / 4096) (by omega) (by omega))
      (hle (m := 0xEF) (by decide) (by omega)) (hcont (codePoint / 64)) (hcont codePoint)
      (fun hfirst => by
        have hfirst := heq (m := 0xE0) (by omega) (by decide) hfirst
        rw [continuation_eq]
        exact hle (n := 0xA0) (by omega) (by omega))
      (fun hfirst => by
        have hfirst := heq (m := 0xED) (by omega) (by decide) hfirst
        rw [continuation_eq]
        exact hlt (m := 0xA0) (by decide) (by omega))
    rwa [toNat_ofNat_of_lt (by omega), bits_continuation, bits_continuation,
      show ((0xE0 + codePoint / 4096 - 0xE0) * 64 + codePoint / 64 % 64) * 64 + codePoint % 64 =
        codePoint by omega] at hseq
  · have hseq := IsSequence.four
      (hle (n := 0xF0) (m := 0xF0 + codePoint / 262144) (by omega) (by omega))
      (hle (m := 0xF4) (by decide) (by omega)) (hcont (codePoint / 4096)) (hcont (codePoint / 64))
      (hcont codePoint)
      (fun hfirst => by
        have hfirst := heq (m := 0xF0) (by omega) (by decide) hfirst
        rw [continuation_eq]
        exact hle (n := 0x90) (by omega) (by omega))
      (fun hfirst => by
        have hfirst := heq (m := 0xF4) (by omega) (by decide) hfirst
        rw [continuation_eq]
        exact hlt (m := 0x90) (by decide) (by omega))
    rwa [toNat_ofNat_of_lt (by omega), bits_continuation, bits_continuation, bits_continuation,
      show (((0xF0 + codePoint / 262144 - 0xF0) * 64 + codePoint / 4096 % 64) * 64 +
        codePoint / 64 % 64) * 64 + codePoint % 64 = codePoint by omega] at hseq

-- ---------------------------------------------------------------------------
-- Texts
-- ---------------------------------------------------------------------------

/-- The library's encoder of a character writes the same bytes. -/
theorem encode_toNat (c : Char) : encode c.toNat = String.utf8EncodeChar c := by
  have hmax : c.toNat ≤ 0x10FFFF := by
    have hvalid := c.valid
    rcases hvalid with h | ⟨-, h⟩
    · exact Nat.le_of_lt (Nat.lt_trans h (by decide))
    · exact Nat.le_of_lt_succ h
  rw [encode_eq hmax, String.utf8EncodeChar]
  simp only [continuation_eq, Char.toNat] at hmax ⊢
  split
  · rfl
  split
  · rw [show 0xC0 + c.val.toNat / 64 = c.val.toNat / 64 % 0x20 + 0xC0 by omega, Nat.add_comm 0x80]
  split
  · rw [show 0xE0 + c.val.toNat / 4096 = c.val.toNat / 4096 % 0x10 + 0xE0 by omega,
      Nat.add_comm 0x80, Nat.add_comm 0x80]
  · rw [show 0xF0 + c.val.toNat / 262144 = c.val.toNat / 262144 % 0x08 + 0xF0 by omega,
      Nat.add_comm 0x80, Nat.add_comm 0x80, Nat.add_comm 0x80]

theorem isScalar_toNat (c : Char) : IsScalar c.toNat := by
  rcases c.valid with h | ⟨hlow, hhigh⟩
  · have hvalue : c.toNat < 0xD800 := h
    exact ⟨by omega, by omega⟩
  · have hvalue : 0xDFFF < c.toNat := hlow
    have hbound : c.toNat < 0x110000 := hhigh
    exact ⟨by omega, by omega⟩

theorem exists_char {codePoint : Nat} (h : IsScalar codePoint) :
    ∃ c : Char, c.toNat = codePoint := by
  obtain ⟨hmax, hsurrogate⟩ := h
  have hvalid : codePoint.isValidChar := by
    unfold Nat.isValidChar
    omega
  exact ⟨Char.ofNatAux codePoint hvalid, rfl⟩

/-- The bytes of a text of characters that all have a property. -/
def Spells (P : Nat → Prop) (value : Bytes) : Prop :=
  ∃ text : List Char, (∀ c ∈ text, P c.toNat) ∧ value = text.flatMap String.utf8EncodeChar

theorem spells_nil {P : Nat → Prop} : Spells P [] :=
  ⟨[], (fun _ h => nomatch h), rfl⟩

theorem spells_cons {P : Nat → Prop} {value : Bytes} (hne : value ≠ []) :
    Spells P value ↔ ∃ seq rest codePoint, IsSequence seq codePoint ∧ P codePoint ∧
      value = seq ++ rest ∧ Spells P rest := by
  constructor
  · rintro ⟨text, hall, rfl⟩
    cases text with
    | nil => exact absurd rfl hne
    | cons c text =>
      rw [List.forall_mem_cons] at hall
      refine ⟨encode c.toNat, _, c.toNat, isSequence_encode (isScalar_toNat c), hall.1, ?_, text,
        hall.2, rfl⟩
      rw [encode_toNat, List.flatMap_cons]
  · rintro ⟨seq, rest, codePoint, hseq, hP, rfl, text, hall, rfl⟩
    obtain ⟨hscalar, rfl⟩ := hseq.encode
    obtain ⟨c, rfl⟩ := exists_char hscalar
    refine ⟨c :: text, List.forall_mem_cons.mpr ⟨hP, hall⟩, ?_⟩
    rw [encode_toNat, List.flatMap_cons]

theorem spells_append {P : Nat → Prop} {seq rest : Bytes} {codePoint : Nat}
    (hseq : IsSequence seq codePoint) (hP : P codePoint) (hrest : Spells P rest) :
    Spells P (seq ++ rest) := by
  have hne : seq ++ rest ≠ [] := by
    cases hseq <;> exact List.cons_ne_nil _ _
  exact (spells_cons hne).mpr ⟨seq, rest, codePoint, hseq, hP, rfl, hrest⟩

-- ---------------------------------------------------------------------------
-- Loops that read by position
-- ---------------------------------------------------------------------------

/-- Why a loop stopped: it read past the end, or it refused the text. -/
inductive ReadFault
  | beyond
  | refused
  deriving DecidableEq, Repr

/-- `value[index]` -/
def readAt (value : Bytes) (index : Nat) : Except ReadFault UInt8 :=
  match value[index]? with
  | some b => .ok b
  | none => .error .beyond

/-- `while (index < size)`; a turn goes past the byte at `index` and `count` others. -/
def walkFrom (step : Nat → Except ReadFault Nat) (size : Nat) : Nat → Nat → Except ReadFault Unit
  | 0, index => throwIf (index < size) .refused
  | turns + 1, index =>
    if index < size then do
      let count ← step index
      walkFrom step size turns (index + count + 1)
    else .ok ()

/-- The loop over a text; `step` reads it. -/
def walk (step : Bytes → Nat → Except ReadFault Nat) (value : Bytes) : Except ReadFault Unit :=
  walkFrom (step value) value.length value.length 0

/-- A turn takes the sequence of an allowed code point, and stays in the text. -/
structure Follows (P : Nat → Prop) (step : Bytes → Nat → Except ReadFault Nat) : Prop where
  stays : ∀ value index, index < value.length → step value index ≠ .error .beyond
  takes : ∀ value index, index < value.length → ∀ count, step value index = .ok count ↔
    ∃ seq rest codePoint, IsSequence seq codePoint ∧ P codePoint ∧
      value.drop index = seq ++ rest ∧ seq.length = count + 1

theorem walkFrom_spec {P : Nat → Prop} {step : Bytes → Nat → Except ReadFault Nat}
    (h : Follows P step) (value : Bytes) {turns index : Nat}
    (hturns : value.length ≤ index + turns) :
    walkFrom (step value) value.length turns index ≠ .error .beyond ∧
      (walkFrom (step value) value.length turns index = .ok () ↔ Spells P (value.drop index)) := by
  have hend {index : Nat} (hindex : ¬index < value.length) : Spells P (value.drop index) := by
    rw [List.drop_eq_nil_of_le (Nat.not_lt.mp hindex)]
    exact spells_nil
  induction turns generalizing index with
  | zero =>
    have hindex : ¬index < value.length := by omega
    rw [walkFrom, throwIf, decide_eq_false hindex]
    exact ⟨(fun hbeyond => by cases hbeyond), fun _ => hend hindex, fun _ => rfl⟩
  | succ turns ih =>
    rw [walkFrom]
    split
    · rename_i hindex
      have hne : value.drop index ≠ [] := by
        rw [ne_eq, List.drop_eq_nil_iff]
        omega
      rw [spells_cons hne]
      cases hstep : step value index with
      | error fault =>
        refine ⟨fun hbeyond => h.stays value index hindex ?_, (fun hok => by cases hok), ?_⟩
        · exact hstep.trans (congrArg Except.error (Except.error.inj hbeyond))
        · rintro ⟨seq, rest, codePoint, hseq, hP, hdrop, -⟩
          have hlength : seq.length = seq.length - 1 + 1 := by
            cases hseq <;> rfl
          have htakes := (h.takes value index hindex (seq.length - 1)).mpr
            ⟨seq, rest, codePoint, hseq, hP, hdrop, hlength⟩
          rw [hstep] at htakes
          cases htakes
      | ok count =>
        obtain ⟨hstays, hspells⟩ := @ih (index + count + 1) (by omega)
        refine ⟨hstays, hspells.trans ⟨fun hrest => ?_, ?_⟩⟩
        · obtain ⟨seq, rest, codePoint, hseq, hP, hdrop, hlength⟩ :=
            (h.takes value index hindex count).mp hstep
          refine ⟨seq, rest, codePoint, hseq, hP, hdrop, ?_⟩
          rwa [Nat.add_assoc, ← List.drop_drop, hdrop, ← hlength, List.drop_left] at hrest
        · rintro ⟨seq, rest, codePoint, hseq, hP, hdrop, hrest⟩
          have hlength : seq.length = seq.length - 1 + 1 := by
            cases hseq <;> rfl
          have htakes := (h.takes value index hindex (seq.length - 1)).mpr
            ⟨seq, rest, codePoint, hseq, hP, hdrop, hlength⟩
          rw [hstep] at htakes
          have hcount : count + 1 = seq.length := by
            rw [Except.ok.inj htakes, ← hlength]
          rwa [Nat.add_assoc, hcount, ← List.drop_drop, hdrop, List.drop_left]
    · rename_i hindex
      exact ⟨(fun hbeyond => by cases hbeyond), fun _ => hend hindex, fun _ => rfl⟩

/-- A loop whose turns follow the table accepts the well-formed texts, and no read of it is
past the end. -/
theorem walk_spec {P : Nat → Prop} {step : Bytes → Nat → Except ReadFault Nat}
    (h : Follows P step) (value : Bytes) :
    walk step value ≠ .error .beyond ∧ (walk step value = .ok () ↔ Spells P value) := by
  have hspec := @walkFrom_spec P step h value value.length 0 (by omega)
  rwa [List.drop_zero] at hspec

-- ---------------------------------------------------------------------------
-- Reads and what follows in the text
-- ---------------------------------------------------------------------------

theorem readAt_eq_ok {value : Bytes} {index : Nat} {b : UInt8} :
    readAt value index = .ok b ↔ value.drop index = b :: value.drop (index + 1) := by
  unfold readAt
  rcases Nat.lt_or_ge index value.length with hindex | hindex
  · rw [List.getElem?_eq_getElem hindex, List.drop_eq_getElem_cons hindex]
    exact ⟨fun h => by rw [Except.ok.inj h], fun h => congrArg Except.ok (List.cons.inj h).1⟩
  · rw [List.getElem?_eq_none hindex, List.drop_eq_nil_of_le hindex]
    simp

theorem throws_readAt {value : Bytes} {index : Nat} (h : index < value.length) :
    Throws (· ≠ .beyond) (readAt value index) := by
  rw [readAt, List.getElem?_eq_getElem h]
  exact throws_pure

/-- What is known to stand at a place can be read there. -/
theorem readAt_of_drop {value seq rest : Bytes} {index offset : Nat} {b : UInt8}
    (h : value.drop index = seq ++ rest) (hb : seq[offset]? = some b) :
    readAt value (index + offset) = .ok b := by
  have hoffset : offset < seq.length := (List.getElem?_eq_some_iff.mp hb).1
  rw [readAt, ← List.getElem?_drop, h, List.getElem?_append_left hoffset, hb]

theorem length_of_drop {value seq rest : Bytes} {index : Nat} (h : value.drop index = seq ++ rest)
    (hne : seq ≠ []) : index + seq.length ≤ value.length := by
  have hlength := congrArg List.length h
  have hpos := List.length_pos_iff.mpr hne
  rw [List.length_drop, List.length_append] at hlength
  omega

-- ---------------------------------------------------------------------------
-- Decoders that add up the bits
-- ---------------------------------------------------------------------------

def continuationsAt (value : Bytes) : Nat → Nat → Nat → Except ReadFault Nat
  | 0, _, codePoint => .ok codePoint
  | count + 1, index, codePoint => do
    let b ← readAt value index
    throwIf (!isContinuation b) .refused
    continuationsAt value count (index + 1) (push codePoint b)

/-- One code point and the number of bytes after the first. Decoders differ in how they
classify the first byte, how they ask for enough bytes and which code points they refuse. -/
def decodeAt (lead : UInt8 → Option Lead) (isShort : Nat → Bool) (refuses : Nat → Nat → Bool)
    (value : Bytes) (index : Nat) : Except ReadFault (Nat × Nat) := do
  let first ← readAt value index
  if first ≤ 0x7F then .ok (first.toNat, 0)
  else
    match lead first with
    | none => .error .refused
    | some l => do
      throwIf (isShort l.continuations) .refused
      let codePoint ← continuationsAt value l.continuations (index + 1) l.payload
      throwIf (refuses l.continuations codePoint) .refused
      .ok (codePoint, l.continuations)

theorem throws_continuationsAt {value : Bytes} {count index codePoint : Nat}
    (h : index + count ≤ value.length) :
    Throws (· ≠ .beyond) (continuationsAt value count index codePoint) := by
  induction count generalizing index codePoint with
  | zero => exact throws_pure
  | succ count ih =>
    refine Throws.bind (throws_readAt (by omega)) fun b _ => ?_
    refine Throws.bind (throws_throwIf.mpr fun _ => by decide) fun _ _ => ?_
    exact ih (by omega)

theorem continuationsAt_eq_ok {value : Bytes} {count index codePoint result : Nat} :
    continuationsAt value count index codePoint = .ok result ↔
      ∃ conts, value.drop index = conts ++ value.drop (index + count) ∧ conts.length = count ∧
        (∀ b ∈ conts, isContinuation b = true) ∧ conts.foldl push codePoint = result := by
  induction count generalizing index codePoint with
  | zero =>
    rw [continuationsAt, Except.ok.injEq]
    constructor
    · rintro rfl
      exact ⟨[], rfl, rfl, List.forall_mem_nil _, rfl⟩
    · rintro ⟨conts, -, hlength, -, rfl⟩
      obtain rfl := List.length_eq_zero_iff.mp hlength
      rfl
  | succ count ih =>
    simp only [continuationsAt, bind_eq_ok, throwIf_eq_ok, Bool.not_eq_false', readAt_eq_ok, ih,
      exists_const]
    constructor
    · rintro ⟨b, hb, hcont, conts, hdrop, hlength, hconts, hcode⟩
      refine ⟨b :: conts, ?_, congrArg (· + 1) hlength, List.forall_mem_cons.mpr ⟨hcont, hconts⟩,
        hcode⟩
      rw [hb, hdrop, List.cons_append, Nat.add_right_comm, Nat.add_assoc]
    · rintro ⟨conts, hdrop, hlength, hconts, hcode⟩
      cases conts with
      | nil => simp at hlength
      | cons b conts =>
        rw [List.forall_mem_cons] at hconts
        have hrest : value.drop (index + 1) = conts ++ value.drop (index + (count + 1)) := by
          rw [← List.drop_drop, hdrop]
          rfl
        refine ⟨b, ?_, hconts.1, conts, ?_, Nat.succ.inj hlength, hconts.2, hcode⟩
        · rw [hdrop, hrest, List.cons_append]
        · rw [hrest, Nat.add_assoc, Nat.add_comm 1]

theorem readContinuations_append {conts rest : Bytes} {codePoint : Nat}
    (h : ∀ b ∈ conts, isContinuation b = true) :
    readContinuations conts.length codePoint (conts ++ rest) =
      some (conts.foldl push codePoint, rest) := by
  induction conts generalizing codePoint with
  | nil => rfl
  | cons b conts ih =>
    rw [List.forall_mem_cons] at h
    rw [List.length_cons, List.cons_append, readContinuations, if_pos h.1, ih h.2]
    rfl

theorem le_foldl_push {conts : Bytes} {codePoint : Nat} :
    codePoint * 64 ^ conts.length ≤ conts.foldl push codePoint := by
  induction conts generalizing codePoint with
  | nil => simp
  | cons b conts ih =>
    refine Nat.le_trans ?_ (@ih (push codePoint b))
    rw [push_eq, List.length_cons, Nat.pow_succ, Nat.mul_comm (64 ^ conts.length), ← Nat.mul_assoc]
    exact Nat.mul_le_mul_right _ (Nat.le_add_right _ _)

section DecodeAt

variable {lead : UInt8 → Option Lead} {isShort : Nat → Bool} {refuses : Nat → Nat → Bool}
  {value : Bytes} {index : Nat}

/-- Reading by position is decoding what follows. -/
theorem decodeAt_eq_ok (hshort : ∀ count, isShort count = decide (value.length ≤ index + count))
    (hrefuses : ∀ first l codePoint, ¬first ≤ 0x7F → lead first = some l →
      l.payload * 64 ^ l.continuations ≤ codePoint →
      refuses l.continuations codePoint = !inRange l.minimum codePoint) {codePoint count : Nat} :
    decodeAt lead isShort refuses value index = .ok (codePoint, count) ↔
      ∃ rest, decodeOne lead (value.drop index) = .ok (codePoint, rest) ∧
        (value.drop index).length = rest.length + count + 1 := by
  constructor
  · intro h
    obtain ⟨first, hfirst, h⟩ := bind_eq_ok.mp h
    rw [readAt_eq_ok] at hfirst
    rw [hfirst]
    split at h
    · rename_i hascii
      obtain ⟨rfl, rfl⟩ := Prod.mk.inj (Except.ok.inj h)
      rw [decodeOne, if_pos hascii]
      exact ⟨_, rfl, rfl⟩
    · rename_i hascii
      split at h
      · cases h
      · rename_i l hl
        simp only [bind_eq_ok, throwIf_eq_ok, continuationsAt_eq_ok, exists_const,
          Except.ok.injEq, Prod.mk.injEq] at h
        obtain ⟨hlong, code, ⟨conts, hdrop, hlength, hconts, rfl⟩, hrange, rfl, rfl⟩ := h
        have hroom : ¬(value.drop (index + 1)).length < l.continuations := by
          rw [hshort, decide_eq_false_iff_not] at hlong
          rw [List.length_drop]
          omega
        have hpayload := @le_foldl_push conts l.payload
        rw [hlength] at hpayload
        rw [hrefuses first l _ hascii hl hpayload, Bool.not_eq_false'] at hrange
        refine ⟨value.drop (index + 1 + l.continuations), ?_, ?_⟩
        · have hread := @readContinuations_append conts (value.drop (index + 1 + l.continuations))
            l.payload hconts
          rw [← hdrop, hlength] at hread
          rw [decodeOne, if_neg hascii, hl]
          simp only [if_neg hroom, hread, hrange, if_true]
        · rw [List.length_cons, congrArg List.length hdrop, List.length_append, hlength,
            Nat.add_comm l.continuations]
  · rintro ⟨rest, hone, hlength⟩
    obtain ⟨first, conts, hdrop, hconts, hshape⟩ := decodeOne_split hone
    rw [← List.cons_append] at hdrop
    have hread : readAt value index = .ok first := @readAt_of_drop _ _ _ _ 0 _ hdrop rfl
    have hafter : value.drop (index + 1) = conts ++ rest := by
      rw [readAt_eq_ok, hdrop, List.cons_append] at hread
      exact (List.cons.inj hread).2.symm
    rw [hdrop, List.length_append, List.length_cons] at hlength
    refine bind_eq_ok.mpr ⟨first, hread, ?_⟩
    rcases hshape with ⟨hascii, rfl, rfl⟩ | ⟨hascii, l, hl, hconts', rfl, hrange⟩
    · rw [if_pos hascii, show count = 0 by rw [List.length_nil] at hlength; omega]
    · have hcount : count = l.continuations := by omega
      have hroom : isShort l.continuations = false := by
        have hsize := length_of_drop hdrop (List.cons_ne_nil _ _)
        rw [List.length_cons] at hsize
        rw [hshort, decide_eq_false_iff_not]
        omega
      have hpayload := @le_foldl_push conts l.payload
      rw [hconts'] at hpayload
      have hrefused : refuses l.continuations (conts.foldl push l.payload) = false := by
        rw [hrefuses first l _ hascii hl hpayload, hrange]
        rfl
      have hcode : continuationsAt value l.continuations (index + 1) l.payload =
          .ok (conts.foldl push l.payload) := by
        have hrest : (value.drop (index + 1)).drop l.continuations = rest := by
          rw [hafter, ← hconts', List.drop_left]
        rw [List.drop_drop] at hrest
        exact continuationsAt_eq_ok.mpr ⟨conts, by rw [hrest, hafter], hconts', hconts, rfl⟩
      rw [if_neg hascii, hl]
      refine bind_eq_ok.mpr ⟨(), throwIf_eq_ok.mpr hroom, bind_eq_ok.mpr ⟨_, hcode, ?_⟩⟩
      refine bind_eq_ok.mpr ⟨(), throwIf_eq_ok.mpr hrefused, ?_⟩
      rw [hcount]

theorem throws_decodeAt (hshort : ∀ count, isShort count = decide (value.length ≤ index + count))
    (hindex : index < value.length) :
    Throws (· ≠ .beyond) (decodeAt lead isShort refuses value index) := by
  refine Throws.bind (throws_readAt hindex) fun first _ => ?_
  split
  · exact throws_pure
  split
  · exact throws_error.mpr (by decide)
  · refine Throws.bind (throws_throwIf.mpr fun _ => by decide) fun _ hlong => ?_
    rw [throwIf_eq_ok, hshort, decide_eq_false_iff_not] at hlong
    refine Throws.bind (throws_continuationsAt (by omega)) fun _ _ => ?_
    exact Throws.bind (throws_throwIf.mpr fun _ => by decide) fun _ _ => throws_pure

end DecodeAt

/-- A classification that agrees with one by high bits on the lead bytes of the table, and
knows no others than it. -/
structure Lists (lead byBits : UInt8 → Option Lead) : Prop where
  highBits : ByHighBits byBits
  only : ∀ b l, lead b = some l → byBits b = some l
  listed : ∀ b : UInt8, 0xC2 ≤ b → b ≤ 0xF4 → lead b = byBits b

/-- Such a decoder takes the sequences of the table. -/
theorem Lists.decodeOne_eq_ok {lead byBits : UInt8 → Option Lead} (h : Lists lead byBits)
    {bytes rest : Bytes} {codePoint : Nat} :
    decodeOne lead bytes = .ok (codePoint, rest) ↔
      ∃ seq, IsSequence seq codePoint ∧ bytes = seq ++ rest := by
  constructor
  · intro hone
    obtain ⟨hscalar, hbytes⟩ :=
      (Utf8.decodeOne_eq_ok h.highBits).mp (decodeOne_mono h.only hone)
    exact ⟨encode codePoint, isSequence_encode hscalar, hbytes⟩
  · rintro ⟨seq, hseq, rfl⟩
    have hone : decodeOne byBits (seq ++ rest) = .ok (codePoint, rest) := by
      obtain ⟨hscalar, rfl⟩ := hseq.encode
      exact decodeOne_encode h.highBits hscalar rest
    rw [← hone]
    cases hseq with
    | one hfirst => rw [List.cons_append, decodeOne, decodeOne, if_pos hfirst, if_pos hfirst]
    | two hlow hhigh => 
      rw [List.cons_append, decodeOne, decodeOne,
        h.listed _ hlow (UInt8.le_trans hhigh (by decide))]
    | three hlow hhigh =>
      rw [List.cons_append, decodeOne, decodeOne,
        h.listed _ (UInt8.le_trans (by decide) hlow) (UInt8.le_trans hhigh (by decide))]
    | four hlow hhigh =>
      rw [List.cons_append, decodeOne, decodeOne,
        h.listed _ (UInt8.le_trans (by decide) hlow) hhigh]

/-- Turns that decode, and then look at the code point. -/
theorem Lists.follows {lead byBits : UInt8 → Option Lead} (h : Lists lead byBits)
    (isShort : Bytes → Nat → Nat → Bool) (refuses : Nat → Nat → Bool) {P : Nat → Prop}
    {step : Bytes → Nat → Except ReadFault Nat}
    (hshort : ∀ value index count,
      isShort value index count = decide (value.length ≤ index + count))
    (hrefuses : ∀ first l codePoint, ¬first ≤ 0x7F → lead first = some l →
      l.payload * 64 ^ l.continuations ≤ codePoint →
      refuses l.continuations codePoint = !inRange l.minimum codePoint)
    (hthrows : ∀ value index,
      Throws (· ≠ .beyond) (decodeAt lead (isShort value index) refuses value index) →
      Throws (· ≠ .beyond) (step value index))
    (hstep : ∀ value index count, step value index = .ok count ↔ ∃ codePoint,
      decodeAt lead (isShort value index) refuses value index = .ok (codePoint, count) ∧
        P codePoint) : Follows P step where
  stays value index hindex hbeyond :=
    hthrows value index (throws_decodeAt (hshort value index) hindex) .beyond hbeyond rfl
  takes value index hindex count := by
    rw [hstep]
    constructor
    · rintro ⟨codePoint, hdecode, hP⟩
      obtain ⟨rest, hone, hlength⟩ := (decodeAt_eq_ok (hshort value index) hrefuses).mp hdecode
      obtain ⟨seq, hseq, hdrop⟩ := h.decodeOne_eq_ok.mp hone
      rw [hdrop, List.length_append] at hlength
      exact ⟨seq, rest, codePoint, hseq, hP, hdrop, by omega⟩
    · rintro ⟨seq, rest, codePoint, hseq, hP, hdrop, hlength⟩
      refine ⟨codePoint, (decodeAt_eq_ok (hshort value index) hrefuses).mpr
        ⟨rest, h.decodeOne_eq_ok.mpr ⟨seq, hseq, hdrop⟩, ?_⟩, hP⟩
      rw [hdrop, List.length_append]
      omega

/-- Decoding from the front spells the code points out. -/
theorem spells_iff_decodes {lead byBits : UInt8 → Option Lead} (h : Lists lead byBits)
    {P : Nat → Prop} {value : Bytes} :
    Spells P value ↔ ∃ codes, Decodes lead value codes ∧ ∀ c ∈ codes, P c := by
  constructor
  · rintro ⟨text, hall, rfl⟩
    induction text with
    | nil => exact ⟨[], .nil, fun c hc => nomatch hc⟩
    | cons c text ih =>
      rw [List.forall_mem_cons] at hall
      obtain ⟨codes, hdecodes, hcodes⟩ := ih hall.2
      have hone : decodeOne lead (encode c.toNat ++ text.flatMap String.utf8EncodeChar) =
          .ok (c.toNat, text.flatMap String.utf8EncodeChar) :=
        h.decodeOne_eq_ok.mpr ⟨_, isSequence_encode (isScalar_toNat c), rfl⟩
      rw [encode_toNat] at hone
      exact ⟨c.toNat :: codes, .cons hone hdecodes, List.forall_mem_cons.mpr ⟨hall.1, hcodes⟩⟩
  · rintro ⟨codes, hdecodes, hcodes⟩
    induction hdecodes with
    | nil => exact spells_nil
    | @cons bytes rest codePoint codes hone _ ih =>
      rw [List.forall_mem_cons] at hcodes
      obtain ⟨seq, hseq, rfl⟩ := h.decodeOne_eq_ok.mp hone
      exact spells_append hseq hcodes.1 (ih hcodes.2)

end Cuac.Lib.Utf8

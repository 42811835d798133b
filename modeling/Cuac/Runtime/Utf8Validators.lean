import Cuac.Lib.Utf8Table
import Cuac.Runtime.JsonStrings
import Cuac.Connector.YamlRoundTrip
import Cuac.Runtime.RequestAgreement

/-!
# Runtime — the UTF-8 validators

The validators that the layers wrote for themselves, one turn of their loops each, with
every read by position: the table of ranges of YAML lexing, package digest and package
source, the canonical second bytes of declared query values, and the decoders of
GraphQL recipes, REST planning and Runtime.

Main results:

* `follows_yaml`, `follows_digest`, `follows_text`, `follows_recipe`, `follows_path`,
  `follows_runtime` — each turn takes the sequences of the table.
* `validators_agree` — all accept the well-formed texts, and read inside of them.
* `walk_iff` — the validators that other modules model from the front are these.
-/

namespace Cuac.Runtime.Utf8Validators

open Cuac.Lib Cuac.Lib.Utf8 Cuac.Semantics

-- ---------------------------------------------------------------------------
-- The turns
-- ---------------------------------------------------------------------------

/-- `IsValidUtf8` of YAML lexing and of the package source. -/
def yamlTurn (value : Bytes) (index : Nat) : Except ReadFault Nat := do
  let lead ← readAt value index
  if lead ≤ 0x7F then .ok 0
  else if 0xC2 ≤ lead && lead ≤ 0xDF then do
    throwIf (index + 1 ≥ value.length) .refused
    let second ← readAt value (index + 1)
    throwIf (!isContinuation second) .refused
    .ok 1
  else if 0xE0 ≤ lead && lead ≤ 0xEF then do
    throwIf (index + 2 ≥ value.length) .refused
    let second ← readAt value (index + 1)
    throwIf (!isContinuation second) .refused
    let third ← readAt value (index + 2)
    throwIf (!isContinuation third || (lead == 0xE0 && second < 0xA0) ||
      (lead == 0xED && second ≥ 0xA0)) .refused
    .ok 2
  else if 0xF0 ≤ lead && lead ≤ 0xF4 then do
    throwIf (index + 3 ≥ value.length) .refused
    let second ← readAt value (index + 1)
    throwIf (!isContinuation second) .refused
    let third ← readAt value (index + 2)
    throwIf (!isContinuation third) .refused
    let fourth ← readAt value (index + 3)
    throwIf (!isContinuation fourth || (lead == 0xF0 && second < 0x90) ||
      (lead == 0xF4 && second ≥ 0x90)) .refused
    .ok 3
  else .error .refused

/-- `IsValidUtf8` of the package digest, which reads the third byte before it looks at the
second. -/
def digestTurn (value : Bytes) (index : Nat) : Except ReadFault Nat := do
  let lead ← readAt value index
  if lead ≤ 0x7F then .ok 0
  else if 0xC2 ≤ lead && lead ≤ 0xDF then do
    throwIf (index + 1 ≥ value.length) .refused
    let second ← readAt value (index + 1)
    throwIf (!isContinuation second) .refused
    .ok 1
  else if 0xE0 ≤ lead && lead ≤ 0xEF then do
    throwIf (index + 2 ≥ value.length) .refused
    let second ← readAt value (index + 1)
    let third ← readAt value (index + 2)
    throwIf (!isContinuation second || !isContinuation third || (lead == 0xE0 && second < 0xA0) ||
      (lead == 0xED && second ≥ 0xA0)) .refused
    .ok 2
  else if 0xF0 ≤ lead && lead ≤ 0xF4 then do
    throwIf (index + 3 ≥ value.length) .refused
    let second ← readAt value (index + 1)
    throwIf (!isContinuation second) .refused
    let third ← readAt value (index + 2)
    throwIf (!isContinuation third) .refused
    let fourth ← readAt value (index + 3)
    throwIf (!isContinuation fourth || (lead == 0xF0 && second < 0x90) ||
      (lead == 0xF4 && second ≥ 0x90)) .refused
    .ok 3
  else .error .refused

def isUtf8Continuation (b : UInt8) : Bool := 0x80 ≤ b && b ≤ 0xBF

/-- The condition on a sequence of two bytes, with the read it makes. -/
def isPair (value : Bytes) (index : Nat) (first : UInt8) : Except ReadFault Bool :=
  if first ≥ 0xC2 && first ≤ 0xDF && index + 1 < value.length then do
    let second ← readAt value (index + 1)
    .ok (isUtf8Continuation second)
  else .ok false

/-- `canonical_second` of three bytes. -/
def secondOfThree (first second : UInt8) : Bool :=
  (first == 0xE0 && second ≥ 0xA0 && second ≤ 0xBF) ||
    (first == 0xED && second ≥ 0x80 && second ≤ 0x9F) ||
    (((first ≥ 0xE1 && first ≤ 0xEC) || (first ≥ 0xEE && first ≤ 0xEF)) &&
      isUtf8Continuation second)

/-- `canonical_second` of four bytes. -/
def secondOfFour (first second : UInt8) : Bool :=
  (first == 0xF0 && second ≥ 0x90 && second ≤ 0xBF) ||
    (first == 0xF4 && second ≥ 0x80 && second ≤ 0x8F) ||
    (first ≥ 0xF1 && first ≤ 0xF3 && isUtf8Continuation second)

/-- `IsValidUtf8Text` of declared query values. -/
def textTurn (value : Bytes) (index : Nat) : Except ReadFault Nat := do
  let first ← readAt value index
  if first ≤ 0x7F then do
    throwIf (isControl first.toNat) .refused
    .ok 0
  else do
    let pair ← isPair value index first
    if pair then do
      let second ← readAt value (index + 1)
      throwIf (isControl (((first &&& 0x1F).toNat <<< 6) ||| (second &&& 0x3F).toNat)) .refused
      .ok 1
    else if first ≥ 0xE0 && first ≤ 0xEF && index + 2 < value.length then do
      let second ← readAt value (index + 1)
      let third ← readAt value (index + 2)
      throwIf (!secondOfThree first second || !isUtf8Continuation third) .refused
      throwIf (isControl (((first &&& 0x0F).toNat <<< 12) ||| ((second &&& 0x3F).toNat <<< 6) |||
        (third &&& 0x3F).toNat)) .refused
      .ok 2
    else if first ≥ 0xF0 && first ≤ 0xF4 && index + 3 < value.length then do
      let second ← readAt value (index + 1)
      let third ← readAt value (index + 2)
      let fourth ← readAt value (index + 3)
      throwIf (!secondOfFour first second || !isUtf8Continuation third ||
        !isUtf8Continuation fourth) .refused
      throwIf (isControl (((first &&& 0x07).toNat <<< 18) ||| ((second &&& 0x3F).toNat <<< 12) |||
        ((third &&& 0x3F).toNat <<< 6) ||| (fourth &&& 0x3F).toNat)) .refused
      .ok 3
    else .error .refused

/-- `IsValidUtf8` of the GraphQL query recipe and of the generator recipe. -/
def recipeTurn (value : Bytes) (index : Nat) : Except ReadFault Nat := do
  let decoded ← decodeAt leadByRange (fun count => index + count ≥ value.length)
    (fun count codePoint => (count == 2 && codePoint < 0x800) ||
      (count == 3 && codePoint < 0x10000) || (codePoint ≥ 0xD800 && codePoint ≤ 0xDFFF) ||
      codePoint > 0x10FFFF) value index
  .ok decoded.2

/-- `minimum`, by the number of bytes after the first. -/
def minimumOf : Nat → Nat
  | 1 => 0x80
  | 2 => 0x800
  | _ => 0x10000

/-- `DecodePathCodePoint`, and the test of `ValidatePathValue` on what it returns. -/
def pathTurn (value : Bytes) (offset : Nat) : Except ReadFault Nat := do
  let decoded ← decodeAt leadByRange (fun count => value.length - offset < count + 1)
    (fun count codePoint => codePoint < minimumOf count ||
      (codePoint ≥ 0xD800 && codePoint ≤ 0xDFFF) || codePoint > 0x10FFFF) value offset
  throwIf (isControl decoded.1) .refused
  .ok decoded.2

/-- `IsValidUtf8` of Runtime. -/
def runtimeTurn (value : Bytes) (index : Nat) : Except ReadFault Nat := do
  let decoded ← decodeAt leadByMask (fun count => count ≥ value.length - index)
    (fun count codePoint => codePoint < minimumOf count || codePoint > 0x10FFFF ||
      (codePoint ≥ 0xD800 && codePoint ≤ 0xDFFF)) value index
  .ok decoded.2

-- ---------------------------------------------------------------------------
-- Decoders
-- ---------------------------------------------------------------------------

theorem lists_leadByRange : Lists leadByRange leadByMask where
  highBits := Json.leadByMask_byHighBits
  only := leadByMask_of_leadByRange
  listed := forall_byte (by decide)

theorem lists_leadByMask : Lists leadByMask leadByMask where
  highBits := Json.leadByMask_byHighBits
  only _ _ h := h
  listed _ _ _ := rfl

/-- What the two classifications say of a lead byte. -/
theorem minimum_of_lead : ∀ b : UInt8, ∀ l, leadByMask b = some l →
    (l.continuations = 1 ∨ l.continuations = 2 ∨ l.continuations = 3) ∧
      l.minimum = minimumOf l.continuations := by
  have hall : ∀ b : UInt8, (leadByMask b).all (fun l => decide
      ((l.continuations = 1 ∨ l.continuations = 2 ∨ l.continuations = 3) ∧
        l.minimum = minimumOf l.continuations)) = true :=
    forall_byte (by decide)
  intro b l hl
  have hb := hall b
  rw [hl] at hb
  simpa using hb

/-- A listed lead byte of two bytes has a bit above the continuation's. -/
theorem payload_of_listed : ∀ b : UInt8, ∀ l, leadByRange b = some l → l.continuations = 1 →
    2 ≤ l.payload := by
  have hall : ∀ b : UInt8, (leadByRange b).all (fun l => decide
      (l.continuations = 1 → 2 ≤ l.payload)) = true :=
    forall_byte (by decide)
  intro b l hl
  have hb := hall b
  rw [hl] at hb
  exact of_decide_eq_true hb

/-- The orders in which the bounds of a code point are asked. -/
theorem refuses_eq (minimum codePoint : Nat) :
    (decide (codePoint < minimum) || decide (codePoint > 0x10FFFF) ||
        (decide (codePoint ≥ 0xD800) && decide (codePoint ≤ 0xDFFF))) =
      (!inRange minimum codePoint) ∧
    (decide (codePoint < minimum) || (decide (codePoint ≥ 0xD800) && decide (codePoint ≤ 0xDFFF)) ||
        decide (codePoint > 0x10FFFF)) = (!inRange minimum codePoint) := by
  constructor
  · rw [inRange, Bool.not_not, Bool.or_right_comm]
  · rw [inRange, Bool.not_not]

theorem follows_runtime : Follows (fun _ => True) runtimeTurn := by
  refine lists_leadByMask.follows (fun value index count => decide (count ≥ value.length - index))
    (fun count codePoint => codePoint < minimumOf count || codePoint > 0x10FFFF ||
      (codePoint ≥ 0xD800 && codePoint ≤ 0xDFFF)) (fun value index count => ?_)
    (fun first l codePoint _ hl _ => ?_) (fun value index h => ?_) (fun value index count => ?_)
  · rw [decide_eq_decide]
    omega
  · rw [(minimum_of_lead first l hl).2]
    exact (refuses_eq _ codePoint).1
  · exact Throws.bind h fun _ _ => throws_pure
  · simp [runtimeTurn, bind_eq_ok]

theorem follows_recipe : Follows (fun _ => True) recipeTurn := by
  refine lists_leadByRange.follows (fun value index count => decide (index + count ≥ value.length))
    (fun count codePoint => (count == 2 && codePoint < 0x800) ||
      (count == 3 && codePoint < 0x10000) || (codePoint ≥ 0xD800 && codePoint ≤ 0xDFFF) ||
      codePoint > 0x10FFFF) (fun value index count => rfl)
    (fun first l codePoint _ hl hpayload => ?_) (fun value index h => ?_)
    (fun value index count => ?_)
  · obtain ⟨hcount, hminimum⟩ := minimum_of_lead first l (leadByMask_of_leadByRange first l hl)
    have hbelow : ((l.continuations == 2 && decide (codePoint < 0x800)) ||
        (l.continuations == 3 && decide (codePoint < 0x10000))) =
        decide (codePoint < minimumOf l.continuations) := by
      rcases hcount with hone | htwo | hthree
      · have htop := payload_of_listed first l hl hone
        rw [hone] at hpayload ⊢
        simp [minimumOf]
        omega
      · simp [htwo, minimumOf]
      · simp [hthree, minimumOf]
    rw [hminimum, ← (refuses_eq _ codePoint).2, hbelow]
  · exact Throws.bind h fun _ _ => throws_pure
  · simp [recipeTurn, bind_eq_ok]

theorem follows_path : Follows (fun codePoint => isControl codePoint = false) pathTurn := by
  refine lists_leadByRange.follows
    (fun value offset count => decide (value.length - offset < count + 1))
    (fun count codePoint => codePoint < minimumOf count ||
      (codePoint ≥ 0xD800 && codePoint ≤ 0xDFFF) || codePoint > 0x10FFFF)
    (fun value index count => ?_) (fun first l codePoint _ hl _ => ?_) (fun value index h => ?_)
    (fun value index count => ?_)
  · rw [decide_eq_decide]
    omega
  · rw [(minimum_of_lead first l (leadByMask_of_leadByRange first l hl)).2]
    exact (refuses_eq _ codePoint).2
  · exact Throws.bind h fun _ _ => Throws.bind (throws_throwIf.mpr fun _ => by decide)
      fun _ _ => throws_pure
  · simp [pathTurn, bind_eq_ok]

-- ---------------------------------------------------------------------------
-- Tables of ranges
-- ---------------------------------------------------------------------------

theorem starts_two : ∀ b : UInt8, 0xC2 ≤ b → b ≤ 0xDF →
    ¬b ≤ 0x7F ∧ (0xC2 ≤ b && b ≤ 0xDF) = true :=
  forall_byte (by decide)

theorem starts_three : ∀ b : UInt8, 0xE0 ≤ b → b ≤ 0xEF →
    ¬b ≤ 0x7F ∧ ¬(0xC2 ≤ b && b ≤ 0xDF) = true ∧ (0xE0 ≤ b && b ≤ 0xEF) = true :=
  forall_byte (by decide)

theorem starts_four : ∀ b : UInt8, 0xF0 ≤ b → b ≤ 0xF4 →
    ¬b ≤ 0x7F ∧ ¬(0xC2 ≤ b && b ≤ 0xDF) = true ∧ ¬(0xE0 ≤ b && b ≤ 0xEF) = true ∧
      (0xF0 ≤ b && b ≤ 0xF4) = true :=
  forall_byte (by decide)

section Turns

variable {value : Bytes} {index : Nat}

theorem throws_refuse {α : Type} {bad : Bool} {rest : Except ReadFault α}
    (h : bad = false → Throws (· ≠ .beyond) rest) :
    Throws (· ≠ .beyond) (throwIf bad .refused >>= fun _ => rest) :=
  Throws.bind (throws_throwIf.mpr fun _ => by decide) fun _ hbad => h (throwIf_eq_ok.mp hbad)

theorem throws_yamlTurn (h : index < value.length) : Throws (· ≠ .beyond)
    (yamlTurn value index) := by
  refine Throws.bind (throws_readAt h) fun lead _ => ?_
  split
  · exact throws_pure
  split
  · refine throws_refuse fun hroom => ?_
    rw [decide_eq_false_iff_not] at hroom
    refine Throws.bind (throws_readAt (by omega)) fun second _ => ?_
    exact throws_refuse fun _ => throws_pure
  split
  · refine throws_refuse fun hroom => ?_
    rw [decide_eq_false_iff_not] at hroom
    refine Throws.bind (throws_readAt (by omega)) fun second _ => throws_refuse fun _ => ?_
    refine Throws.bind (throws_readAt (by omega)) fun third _ => ?_
    exact throws_refuse fun _ => throws_pure
  split
  · refine throws_refuse fun hroom => ?_
    rw [decide_eq_false_iff_not] at hroom
    refine Throws.bind (throws_readAt (by omega)) fun second _ => throws_refuse fun _ => ?_
    refine Throws.bind (throws_readAt (by omega)) fun third _ => throws_refuse fun _ => ?_
    refine Throws.bind (throws_readAt (by omega)) fun fourth _ => ?_
    exact throws_refuse fun _ => throws_pure
  · exact throws_error.mpr (by decide)

theorem drop_two {a b : UInt8} (ha : readAt value index = .ok a)
    (hb : readAt value (index + 1) = .ok b) :
    value.drop index = [a, b] ++ value.drop (index + 2) := by
  rw [readAt_eq_ok] at ha hb
  rw [ha, hb]
  rfl

theorem drop_three {a b c : UInt8} (ha : readAt value index = .ok a)
    (hb : readAt value (index + 1) = .ok b) (hc : readAt value (index + 2) = .ok c) :
    value.drop index = [a, b, c] ++ value.drop (index + 3) := by
  rw [readAt_eq_ok] at hc
  rw [drop_two ha hb, hc]
  rfl

theorem drop_four {a b c d : UInt8} (ha : readAt value index = .ok a)
    (hb : readAt value (index + 1) = .ok b) (hc : readAt value (index + 2) = .ok c)
    (hd : readAt value (index + 3) = .ok d) :
    value.drop index = [a, b, c, d] ++ value.drop (index + 4) := by
  rw [readAt_eq_ok] at hd
  rw [drop_three ha hb hc, hd]
  rfl

/-- What a turn over the table accepted. -/
theorem isSequence_of_yamlTurn {count : Nat} (h : yamlTurn value index = .ok count) :
    ∃ seq rest codePoint, IsSequence seq codePoint ∧ value.drop index = seq ++ rest ∧
      seq.length = count + 1 := by
  obtain ⟨lead, hlead, h⟩ := bind_eq_ok.mp h
  split at h
  · rename_i hascii
    obtain rfl := Except.ok.inj h
    exact ⟨[lead], _, _, .one hascii, readAt_eq_ok.mp hlead, rfl⟩
  split at h
  · rename_i hrange
    simp only [bind_eq_ok, throwIf_eq_ok, exists_const, Bool.not_eq_false', Except.ok.injEq] at h
    obtain ⟨-, second, hsecond, hcont, rfl⟩ := h
    rw [Bool.and_eq_true, decide_eq_true_eq, decide_eq_true_eq] at hrange
    exact ⟨[lead, second], _, _, .two hrange.1 hrange.2 hcont, drop_two hlead hsecond, rfl⟩
  split at h
  · rename_i hrange
    simp only [bind_eq_ok, throwIf_eq_ok, exists_const, Bool.not_eq_false', Except.ok.injEq,
      Bool.or_eq_false_iff, Bool.and_eq_false_imp, beq_iff_eq, decide_eq_false_iff_not] at h
    obtain ⟨-, second, hsecond, hcont, third, hthird, ⟨⟨hcont', hlow⟩, hhigh⟩, rfl⟩ := h
    rw [Bool.and_eq_true, decide_eq_true_eq, decide_eq_true_eq] at hrange
    exact ⟨[lead, second, third], _, _, .three hrange.1 hrange.2 hcont hcont'
      (fun h => UInt8.not_lt.mp (hlow h)) (fun h => UInt8.not_le.mp (hhigh h)),
      drop_three hlead hsecond hthird, rfl⟩
  split at h
  · rename_i hrange
    simp only [bind_eq_ok, throwIf_eq_ok, exists_const, Bool.not_eq_false', Except.ok.injEq,
      Bool.or_eq_false_iff, Bool.and_eq_false_imp, beq_iff_eq, decide_eq_false_iff_not] at h
    obtain ⟨-, second, hsecond, hcont, third, hthird, hcont', fourth, hfourth,
      ⟨⟨hcont'', hlow⟩, hhigh⟩, rfl⟩ := h
    rw [Bool.and_eq_true, decide_eq_true_eq, decide_eq_true_eq] at hrange
    exact ⟨[lead, second, third, fourth], _, _, .four hrange.1 hrange.2 hcont hcont' hcont''
      (fun h => UInt8.not_lt.mp (hlow h)) (fun h => UInt8.not_le.mp (hhigh h)),
      drop_four hlead hsecond hthird hfourth, rfl⟩
  · cases h

theorem accept {fault : ReadFault} : throwIf false fault = .ok () := rfl

/-- The bounds that the first byte sets on the second. -/
theorem hasSecond {a b low last bound : UInt8} (hlow : a = low → bound ≤ b)
    (hlast : a = last → b < bound) :
    (a == low && decide (b < bound) || a == last && decide (b ≥ bound)) = false := by
  simp only [Bool.or_eq_false_iff, Bool.and_eq_false_imp, beq_iff_eq, decide_eq_false_iff_not]
  exact ⟨fun h => UInt8.not_lt.mpr (hlow h), fun h => UInt8.not_le.mpr (hlast h)⟩

/-- And it accepts every sequence of the table. -/
theorem yamlTurn_of_isSequence {seq rest : Bytes} {codePoint count : Nat}
    (hseq : IsSequence seq codePoint) (hdrop : value.drop index = seq ++ rest)
    (hlength : seq.length = count + 1) : yamlTurn value index = .ok count := by
  have hread (offset : Nat) (b : UInt8) (hb : seq[offset]? = some b) :
      readAt value (index + offset) = .ok b := readAt_of_drop hdrop hb
  have hroom := Utf8.length_of_drop hdrop (by rintro rfl; cases hlength)
  rw [hlength] at hroom
  cases hseq with
  | one hascii =>
    obtain rfl : count = 0 := by simpa using hlength.symm
    refine bind_eq_ok.mpr ⟨_, hread 0 _ rfl, ?_⟩
    rw [if_pos hascii]
  | two hlow hhigh hb =>
    obtain rfl : count = 1 := by simpa using hlength.symm
    obtain ⟨hascii, hrange⟩ := starts_two _ hlow hhigh
    refine bind_eq_ok.mpr ⟨_, hread 0 _ rfl, ?_⟩
    rw [if_neg hascii, if_pos hrange, decide_eq_false (by omega), hread 1 _ rfl]
    simp only [accept, ok_bind, hb, Bool.not_true]
  | three hlow hhigh hb hc hfirst hsurrogate =>
    obtain rfl : count = 2 := by simpa using hlength.symm
    obtain ⟨hascii, htwo, hrange⟩ := starts_three _ hlow hhigh
    refine bind_eq_ok.mpr ⟨_, hread 0 _ rfl, ?_⟩
    have hsecond := hasSecond hfirst hsurrogate
    rw [if_neg hascii, if_neg htwo, if_pos hrange, decide_eq_false (by omega), hread 1 _ rfl,
      hread 2 _ rfl]
    simp only [accept, ok_bind, hb, hc, Bool.not_true, Bool.false_or, hsecond]
  | four hlow hhigh hb hc hd hfirst hlast =>
    obtain rfl : count = 3 := by simpa using hlength.symm
    obtain ⟨hascii, htwo, hthree, hrange⟩ := starts_four _ hlow hhigh
    refine bind_eq_ok.mpr ⟨_, hread 0 _ rfl, ?_⟩
    have hsecond := hasSecond hfirst hlast
    rw [if_neg hascii, if_neg htwo, if_neg hthree, if_pos hrange, decide_eq_false (by omega),
      hread 1 _ rfl, hread 2 _ rfl, hread 3 _ rfl]
    simp only [accept, ok_bind, hb, hc, hd, Bool.not_true, Bool.false_or, hsecond]

end Turns

theorem follows_yaml : Follows (fun _ => True) yamlTurn where
  stays value index hindex hbeyond := throws_yamlTurn hindex .beyond hbeyond rfl
  takes value index _ count := by
    constructor
    · intro h
      obtain ⟨seq, rest, codePoint, hseq, hdrop, hlength⟩ := isSequence_of_yamlTurn h
      exact ⟨seq, rest, codePoint, hseq, trivial, hdrop, hlength⟩
    · rintro ⟨seq, rest, codePoint, hseq, -, hdrop, hlength⟩
      exact yamlTurn_of_isSequence hseq hdrop hlength

theorem exists_readAt {value : Bytes} {index : Nat} (h : index < value.length) :
    ∃ b, readAt value index = .ok b := by
  rw [readAt, List.getElem?_eq_getElem h]
  exact ⟨_, rfl⟩

/-- Reading the third byte early changes nothing: it is there. -/
theorem digestTurn_eq : digestTurn = yamlTurn := by
  funext value index
  rw [digestTurn, yamlTurn]
  refine congrArg (readAt value index >>= ·) (funext fun lead => ?_)
  by_cases hthree : (0xE0 ≤ lead && lead ≤ 0xEF) = true
  · rw [if_pos hthree, if_pos hthree]
    have hbranch : (do
        throwIf (index + 2 ≥ value.length) .refused
        let second ← readAt value (index + 1)
        let third ← readAt value (index + 2)
        throwIf (!isContinuation second || !isContinuation third || (lead == 0xE0 &&
        second < 0xA0) ||
          (lead == 0xED && second ≥ 0xA0)) .refused
        .ok 2 : Except ReadFault Nat) = (do
        throwIf (index + 2 ≥ value.length) .refused
        let second ← readAt value (index + 1)
        throwIf (!isContinuation second) .refused
        let third ← readAt value (index + 2)
        throwIf (!isContinuation third || (lead == 0xE0 && second < 0xA0) ||
          (lead == 0xED && second ≥ 0xA0)) .refused
        .ok 2) := by
      by_cases hroom : index + 2 ≥ value.length
      · rw [decide_eq_true hroom]
        rfl
      · obtain ⟨second, hsecond⟩ := @exists_readAt value (index + 1) (by omega)
        obtain ⟨third, hthird⟩ := @exists_readAt value (index + 2) (by omega)
        simp only [decide_eq_false hroom, accept, ok_bind, hsecond, hthird]
        cases isContinuation second <;> rfl
    rw [hbranch]
  · rw [if_neg hthree, if_neg hthree]

theorem follows_digest : Follows (fun _ => True) digestTurn := by
  rw [digestTurn_eq]
  exact follows_yaml

-- ---------------------------------------------------------------------------
-- Canonical second bytes
-- ---------------------------------------------------------------------------

theorem isUtf8Continuation_eq : ∀ b : UInt8, isUtf8Continuation b = isContinuation b :=
  forall_byte (by decide)

theorem secondOfThree_iff {first second : UInt8} (hlow : 0xE0 ≤ first) (hhigh : first ≤ 0xEF) :
    secondOfThree first second = true ↔ isContinuation second = true ∧
      (first = 0xE0 → 0xA0 ≤ second) ∧ (first = 0xED → second < 0xA0) := by
  simp only [UInt8.le_iff_toNat_le, UInt8.reduceToNat] at hlow hhigh
  simp only [secondOfThree, isUtf8Continuation, Bool.or_eq_true, Bool.and_eq_true, beq_iff_eq,
    ← UInt8.toNat_inj, decide_eq_true_eq, UInt8.le_iff_toNat_le, UInt8.lt_iff_toNat_lt, ge_iff_le,
    UInt8.reduceToNat, isContinuation_range]
  omega

theorem secondOfFour_iff {first second : UInt8} (hlow : 0xF0 ≤ first) (hhigh : first ≤ 0xF4) :
    secondOfFour first second = true ↔ isContinuation second = true ∧
      (first = 0xF0 → 0x90 ≤ second) ∧ (first = 0xF4 → second < 0x90) := by
  simp only [UInt8.le_iff_toNat_le, UInt8.reduceToNat] at hlow hhigh
  simp only [secondOfFour, isUtf8Continuation, Bool.or_eq_true, Bool.and_eq_true, beq_iff_eq,
    ← UInt8.toNat_inj, decide_eq_true_eq, UInt8.le_iff_toNat_le, UInt8.lt_iff_toNat_lt, ge_iff_le,
    UInt8.reduceToNat, isContinuation_range]
  omega

theorem low_bits : ∀ b : UInt8, isContinuation b = true → (b &&& 0x3F).toNat = bits b :=
  forall_byte (by decide)

theorem payload_two : ∀ b : UInt8, 0xC2 ≤ b → b ≤ 0xDF → (b &&& 0x1F).toNat = b.toNat - 0xC0 :=
  forall_byte (by decide)

theorem payload_three : ∀ b : UInt8, 0xE0 ≤ b → b ≤ 0xEF → (b &&& 0x0F).toNat = b.toNat - 0xE0 :=
  forall_byte (by decide)

theorem payload_four : ∀ b : UInt8, 0xF0 ≤ b → b ≤ 0xF4 → (b &&& 0x07).toNat = b.toNat - 0xF0 :=
  forall_byte (by decide)

theorem code_two (p : Nat) (b : UInt8) :
    (p <<< 6) ||| (b &&& 0x3F).toNat = p * 64 + (b &&& 0x3F).toNat := push_eq p b

theorem code_three (p : Nat) (b c : UInt8) :
    (p <<< 12) ||| ((b &&& 0x3F).toNat <<< 6) ||| (c &&& 0x3F).toNat =
      (p * 64 + (b &&& 0x3F).toNat) * 64 + (c &&& 0x3F).toNat := by
  rw [← code_two p b, ← code_two _ c, Nat.shiftLeft_or_distrib, ← Nat.shiftLeft_add]

theorem code_four (p : Nat) (b c d : UInt8) :
    (p <<< 18) ||| ((b &&& 0x3F).toNat <<< 12) ||| ((c &&& 0x3F).toNat <<< 6) |||
        (d &&& 0x3F).toNat =
      ((p * 64 + (b &&& 0x3F).toNat) * 64 + (c &&& 0x3F).toNat) * 64 + (d &&& 0x3F).toNat := by
  rw [← code_three p b c, ← code_two _ d, Nat.shiftLeft_or_distrib, Nat.shiftLeft_or_distrib,
    ← Nat.shiftLeft_add, ← Nat.shiftLeft_add]

section Turns

variable {value : Bytes} {index : Nat}

theorem throws_isPair (first : UInt8) : Throws (· ≠ .beyond) (isPair value index first) := by
  unfold isPair
  split
  · rename_i hpair
    simp only [Bool.and_eq_true, decide_eq_true_eq] at hpair
    exact Throws.bind (throws_readAt hpair.2) fun _ _ => throws_pure
  · exact throws_pure

theorem throws_textTurn (h : index < value.length) :
    Throws (· ≠ .beyond) (textTurn value index) := by
  refine Throws.bind (throws_readAt h) fun first _ => ?_
  split
  · exact throws_refuse fun _ => throws_pure
  refine Throws.bind (throws_isPair first) fun pair hpair => ?_
  split
  · rename_i htrue
    have hroom : index + 1 < value.length := by
      unfold isPair at hpair
      split at hpair
      · rename_i hcond
        simp only [Bool.and_eq_true, decide_eq_true_eq] at hcond
        exact hcond.2
      · rw [← Except.ok.inj hpair] at htrue
        cases htrue
    refine Throws.bind (throws_readAt hroom) fun second _ => ?_
    exact throws_refuse fun _ => throws_pure
  split
  · rename_i hroom
    simp only [Bool.and_eq_true, decide_eq_true_eq] at hroom
    refine Throws.bind (throws_readAt (by omega)) fun second _ => ?_
    refine Throws.bind (throws_readAt (by omega)) fun third _ => ?_
    exact throws_refuse fun _ => throws_refuse fun _ => throws_pure
  split
  · rename_i hroom
    simp only [Bool.and_eq_true, decide_eq_true_eq] at hroom
    refine Throws.bind (throws_readAt (by omega)) fun second _ => ?_
    refine Throws.bind (throws_readAt (by omega)) fun third _ => ?_
    refine Throws.bind (throws_readAt (by omega)) fun fourth _ => ?_
    exact throws_refuse fun _ => throws_refuse fun _ => throws_pure
  · exact throws_error.mpr (by decide)

theorem isPair_eq_ok {first : UInt8} (h : isPair value index first = .ok true) :
    0xC2 ≤ first ∧ first ≤ 0xDF ∧
      ∃ second, readAt value (index + 1) = .ok second ∧ isContinuation second = true := by
  unfold isPair at h
  split at h
  · rename_i hcond
    simp only [Bool.and_eq_true, decide_eq_true_eq] at hcond
    obtain ⟨second, hsecond, h⟩ := bind_eq_ok.mp h
    exact ⟨hcond.1.1, hcond.1.2, second, hsecond, isUtf8Continuation_eq second ▸ Except.ok.inj h⟩
  · cases h

theorem isSequence_of_textTurn {count : Nat} (h : textTurn value index = .ok count) :
    ∃ seq rest codePoint, IsSequence seq codePoint ∧ isControl codePoint = false ∧
      value.drop index = seq ++ rest ∧ seq.length = count + 1 := by
  obtain ⟨first, hfirst, h⟩ := bind_eq_ok.mp h
  split at h
  · rename_i hascii
    simp only [bind_eq_ok, throwIf_eq_ok, exists_const, Except.ok.injEq] at h
    obtain ⟨hcontrol, rfl⟩ := h
    exact ⟨[first], _, _, .one hascii, hcontrol, readAt_eq_ok.mp hfirst, rfl⟩
  obtain ⟨pair, hpair, h⟩ := bind_eq_ok.mp h
  split at h
  · rename_i htrue
    obtain ⟨hlow, hhigh, second, hsecond, hcont⟩ := isPair_eq_ok (htrue ▸ hpair)
    simp only [bind_eq_ok, throwIf_eq_ok, exists_const, Except.ok.injEq, hsecond, exists_eq_left',
      code_two, payload_two first hlow hhigh, low_bits second hcont] at h
    obtain ⟨hcontrol, rfl⟩ := h
    exact ⟨[first, second], _, _, .two hlow hhigh hcont, hcontrol, drop_two hfirst hsecond, rfl⟩
  split at h
  · rename_i hrange
    simp only [Bool.and_eq_true, decide_eq_true_eq] at hrange
    simp only [bind_eq_ok, throwIf_eq_ok, exists_const, Except.ok.injEq, Bool.or_eq_false_iff,
      Bool.not_eq_false', secondOfThree_iff hrange.1.1 hrange.1.2, isUtf8Continuation_eq] at h
    obtain ⟨second, hsecond, third, hthird, ⟨⟨hcont, hlow, hhigh⟩, hcont'⟩, hcontrol, rfl⟩ := h
    rw [code_three, payload_three first hrange.1.1 hrange.1.2, low_bits second hcont,
      low_bits third hcont'] at hcontrol
    exact ⟨[first, second, third], _, _, .three hrange.1.1 hrange.1.2 hcont hcont' hlow hhigh,
      hcontrol, drop_three hfirst hsecond hthird, rfl⟩
  split at h
  · rename_i hrange
    simp only [Bool.and_eq_true, decide_eq_true_eq] at hrange
    simp only [bind_eq_ok, throwIf_eq_ok, exists_const, Except.ok.injEq, Bool.or_eq_false_iff,
      Bool.not_eq_false', secondOfFour_iff hrange.1.1 hrange.1.2, isUtf8Continuation_eq] at h
    obtain ⟨second, hsecond, third, hthird, fourth, hfourth,
      ⟨⟨⟨hcont, hlow, hhigh⟩, hcont'⟩, hcont''⟩, hcontrol, rfl⟩ := h
    rw [code_four, payload_four first hrange.1.1 hrange.1.2, low_bits second hcont,
      low_bits third hcont', low_bits fourth hcont''] at hcontrol
    exact ⟨[first, second, third, fourth], _, _,
      .four hrange.1.1 hrange.1.2 hcont hcont' hcont'' hlow hhigh, hcontrol,
      drop_four hfirst hsecond hthird hfourth, rfl⟩
  · cases h

theorem isPair_of_not {first : UInt8} (h : ¬(0xC2 ≤ first && first ≤ 0xDF) = true) :
    isPair value index first = .ok false := by
  rw [isPair, if_neg]
  rw [Bool.and_eq_true]
  exact fun hcond => h hcond.1

theorem textTurn_of_isSequence {seq rest : Bytes} {codePoint count : Nat}
    (hseq : IsSequence seq codePoint) (hcontrol : isControl codePoint = false)
    (hdrop : value.drop index = seq ++ rest) (hlength : seq.length = count + 1) :
    textTurn value index = .ok count := by
  have hread (offset : Nat) (b : UInt8) (hb : seq[offset]? = some b) :
      readAt value (index + offset) = .ok b := readAt_of_drop hdrop hb
  have hroom := Utf8.length_of_drop hdrop (by rintro rfl; cases hlength)
  rw [hlength] at hroom
  cases hseq with
  | one hascii =>
    obtain rfl : count = 0 := by simpa using hlength.symm
    refine bind_eq_ok.mpr ⟨_, hread 0 _ rfl, ?_⟩
    rw [if_pos hascii, hcontrol]
    rfl
  | @two a b hlow hhigh hb =>
    obtain rfl : count = 1 := by simpa using hlength.symm
    obtain ⟨hascii, hrange⟩ := starts_two _ hlow hhigh
    have hpair : isPair value index a = .ok true := by
      rw [isPair, if_pos (Bool.and_eq_true_iff.mpr ⟨hrange, decide_eq_true (by omega)⟩),
        hread 1 _ rfl, ok_bind, isUtf8Continuation_eq, hb]
    refine bind_eq_ok.mpr ⟨_, hread 0 _ rfl, ?_⟩
    rw [if_neg hascii, hpair, ok_bind, if_pos rfl, hread 1 _ rfl, ok_bind, code_two,
      payload_two a hlow hhigh, low_bits b hb, hcontrol]
    rfl
  | @three a b c hlow hhigh hb hc hfirst hsurrogate =>
    obtain rfl : count = 2 := by simpa using hlength.symm
    obtain ⟨hascii, htwo, hrange⟩ := starts_three _ hlow hhigh
    have hsecond := (secondOfThree_iff hlow hhigh).mpr ⟨hb, hfirst, hsurrogate⟩
    refine bind_eq_ok.mpr ⟨_, hread 0 _ rfl, ?_⟩
    rw [if_neg hascii, isPair_of_not htwo, ok_bind, if_neg Bool.false_ne_true,
      if_pos (Bool.and_eq_true_iff.mpr ⟨hrange, decide_eq_true (by omega)⟩), hread 1 _ rfl, ok_bind,
      hread 2 _ rfl, ok_bind, hsecond, isUtf8Continuation_eq, hc, code_three,
      payload_three a hlow hhigh, low_bits b hb, low_bits c hc, hcontrol]
    rfl
  | @four a b c d hlow hhigh hb hc hd hfirst hlast =>
    obtain rfl : count = 3 := by simpa using hlength.symm
    obtain ⟨hascii, htwo, hthree, hrange⟩ := starts_four _ hlow hhigh
    have hsecond := (secondOfFour_iff hlow hhigh).mpr ⟨hb, hfirst, hlast⟩
    refine bind_eq_ok.mpr ⟨_, hread 0 _ rfl, ?_⟩
    rw [if_neg hascii, isPair_of_not htwo, ok_bind, if_neg Bool.false_ne_true,
      if_neg (fun hcond => hthree (Bool.and_eq_true_iff.mp hcond).1),
      if_pos (Bool.and_eq_true_iff.mpr ⟨hrange, decide_eq_true (by omega)⟩), hread 1 _ rfl, ok_bind,
      hread 2 _ rfl, ok_bind, hread 3 _ rfl, ok_bind, hsecond, isUtf8Continuation_eq, hc,
      isUtf8Continuation_eq, hd, code_four, payload_four a hlow hhigh, low_bits b hb,
      low_bits c hc, low_bits d hd, hcontrol]
    rfl

end Turns

theorem follows_text : Follows (fun codePoint => isControl codePoint = false) textTurn where
  stays value index hindex hbeyond := throws_textTurn hindex .beyond hbeyond rfl
  takes value index _ count := by
    constructor
    · exact isSequence_of_textTurn
    · rintro ⟨seq, rest, codePoint, hseq, hcontrol, hdrop, hlength⟩
      exact textTurn_of_isSequence hseq hcontrol hdrop hlength

-- ---------------------------------------------------------------------------
-- The loops
-- ---------------------------------------------------------------------------

/-- Text in UTF-8: some characters, encoded. -/
def WellFormed (value : Bytes) : Prop :=
  ∃ text : List Char, value = text.flatMap String.utf8EncodeChar

/-- Text without C0 and C1 controls and DEL. -/
def WellFormedPlain (value : Bytes) : Prop :=
  ∃ text : List Char, (∀ c ∈ text, isControl c.toNat = false) ∧
    value = text.flatMap String.utf8EncodeChar

theorem spells_iff (value : Bytes) : Spells (fun _ => True) value ↔ WellFormed value := by
  constructor
  · rintro ⟨text, -, htext⟩
    exact ⟨text, htext⟩
  · rintro ⟨text, htext⟩
    exact ⟨text, fun _ _ => trivial, htext⟩

/-- The validators of YAML lexing, package digest, GraphQL recipes and Runtime accept the
well-formed texts, those of REST paths and declared query values the ones without control
characters, and none of them reads past the end. -/
theorem validators_agree (value : Bytes) :
    (∀ turn ∈ [yamlTurn, digestTurn, recipeTurn, runtimeTurn],
      walk turn value ≠ .error .beyond ∧ (walk turn value = .ok () ↔ WellFormed value)) ∧
    ∀ turn ∈ [textTurn, pathTurn],
      walk turn value ≠ .error .beyond ∧ (walk turn value = .ok () ↔ WellFormedPlain value) := by
  have hany {turn : Bytes → Nat → Except ReadFault Nat} (h : Follows (fun _ => True) turn) :
      walk turn value ≠ .error .beyond ∧ (walk turn value = .ok () ↔ WellFormed value) := by
    rw [← spells_iff]
    exact walk_spec h value
  simp only [List.forall_mem_cons, List.not_mem_nil, false_implies, implies_true, and_true]
  exact ⟨⟨hany follows_yaml, hany follows_digest, hany follows_recipe, hany follows_runtime⟩,
    walk_spec follows_text value, walk_spec follows_path value⟩

-- ---------------------------------------------------------------------------
-- The validators as the other modules have them
-- ---------------------------------------------------------------------------

theorem isValidUtf8_iff_wellFormed {value : Bytes} : isValidUtf8 value = true ↔
    WellFormed value := by
  rw [isValidUtf8_iff, ← spells_iff, spells_iff_decodes lists_leadByMask]
  simp

theorem controlFree_iff {value : Bytes} : ControlFree value ↔ WellFormedPlain value :=
  (spells_iff_decodes lists_leadByRange).symm

/-- What the loop over the rest of the text accepts. -/
theorem spells_of_yaml {turns : Nat} {value : Bytes}
    (h : Connector.FailsafeYaml.isValidUtf8From turns value =
      true) : Spells (fun _ => True) value := by
  induction turns generalizing value with
  | zero =>
    cases value with
    | nil => exact spells_nil
    | cons => cases h
  | succ turns ih =>
    match value with
    | [] => exact spells_nil
    | lead :: rest =>
      unfold Connector.FailsafeYaml.isValidUtf8From at h
      split at h
      · exact spells_append (.one (by assumption)) trivial (ih h)
      split at h
      · rename_i hrange
        rw [Bool.and_eq_true, decide_eq_true_eq, decide_eq_true_eq] at hrange
        split at h
        · rename_i second rest
          rw [Bool.and_eq_true] at h
          exact @spells_append _ [lead, second] rest _ (.two hrange.1 hrange.2 h.1) trivial (ih h.2)
        · cases h
      split at h
      · rename_i hrange
        rw [Bool.and_eq_true, decide_eq_true_eq, decide_eq_true_eq] at hrange
        split at h
        · rename_i second third rest
          simp only [Bool.and_eq_true, Bool.not_eq_true', Bool.or_eq_false_iff, Bool.not_eq_false',
            Bool.and_eq_false_imp, beq_iff_eq, decide_eq_false_iff_not] at h
          obtain ⟨⟨⟨⟨hb, hc⟩, hlow⟩, hhigh⟩, hrest⟩ := h
          exact @spells_append _ [lead, second, third] rest _ (.three hrange.1 hrange.2 hb hc
            (fun h => UInt8.not_lt.mp (hlow h)) (fun h => UInt8.not_le.mp (hhigh h))) trivial
            (ih hrest)
        · cases h
      split at h
      · rename_i hrange
        rw [Bool.and_eq_true, decide_eq_true_eq, decide_eq_true_eq] at hrange
        split at h
        · rename_i second third fourth rest
          simp only [Bool.and_eq_true, Bool.not_eq_true', Bool.or_eq_false_iff, Bool.not_eq_false',
            Bool.and_eq_false_imp, beq_iff_eq, decide_eq_false_iff_not] at h
          obtain ⟨⟨⟨⟨⟨hb, hc⟩, hd⟩, hlow⟩, hhigh⟩, hrest⟩ := h
          exact @spells_append _ [lead, second, third, fourth] rest _ (.four hrange.1 hrange.2 hb hc
            hd (fun h => UInt8.not_lt.mp (hlow h)) (fun h => UInt8.not_le.mp (hhigh h))) trivial
            (ih hrest)
        · cases h
      · cases h

theorem connector_secondOfThree (first second : UInt8) :
    Connector.isCanonicalSecondOfThree first second = secondOfThree first second := by
  rw [secondOfThree, isUtf8Continuation_eq]
  rfl

theorem connector_secondOfFour (first second : UInt8) :
    Connector.isCanonicalSecondOfFour first second = secondOfFour first second := by
  rw [secondOfFour, isUtf8Continuation_eq]
  rfl

theorem not_control {n : Nat} (h : 0xA0 ≤ n) : isControl n = false := by
  simp [isControl]
  omega

section Text

variable {first second third fourth : UInt8} {rest : Bytes}

theorem spells_two (h : (0xC2 ≤ first && first ≤ 0xDF && Connector.isUtf8Continuation second) =
    true)
    (hcontrol : Connector.isControlCodePoint
      (((first &&& 0x1F).toNat <<< 6) ||| (second &&& 0x3F).toNat) = false)
    (hrest : Spells (fun codePoint => isControl codePoint = false) rest) :
    Spells (fun codePoint => isControl codePoint = false) (first :: second :: rest) := by
  simp only [Bool.and_eq_true, decide_eq_true_eq] at h
  obtain ⟨⟨hlow, hhigh⟩, hcont⟩ := h
  rw [code_two, payload_two first hlow hhigh, low_bits second hcont] at hcontrol
  exact @spells_append _ [first, second] rest _ (.two hlow hhigh hcont) hcontrol hrest

theorem spells_three (hlow : 0xE0 ≤ first) (hhigh : first ≤ 0xEF)
    (hsecond : Connector.isCanonicalSecondOfThree first second = true)
    (hthird : Connector.isUtf8Continuation third = true)
    (hrest : Spells (fun codePoint => isControl codePoint = false) rest) :
    Spells (fun codePoint => isControl codePoint = false) (first :: second :: third :: rest) := by
  rw [connector_secondOfThree, secondOfThree_iff hlow hhigh] at hsecond
  obtain ⟨hcont, hleast, hmost⟩ := hsecond
  refine @spells_append _ [first, second,
    third] rest _ (.three hlow hhigh hcont hthird hleast hmost)
    (not_control ?_) hrest
  have hbits : bits second = second.toNat - 0x80 := rfl
  simp only [← UInt8.toNat_inj, UInt8.le_iff_toNat_le, UInt8.reduceToNat] at hlow hleast
  omega

theorem spells_four (hlow : 0xF0 ≤ first) (hhigh : first ≤ 0xF4)
    (hsecond : Connector.isCanonicalSecondOfFour first second = true)
    (hthird : Connector.isUtf8Continuation third = true)
    (hfourth : Connector.isUtf8Continuation fourth = true)
    (hrest : Spells (fun codePoint => isControl codePoint = false) rest) :
    Spells (fun codePoint => isControl codePoint = false)
      (first :: second :: third :: fourth :: rest) := by
  rw [connector_secondOfFour, secondOfFour_iff hlow hhigh] at hsecond
  obtain ⟨hcont, hleast, hmost⟩ := hsecond
  refine @spells_append _ [first, second, third, fourth] rest _
    (.four hlow hhigh hcont hthird hfourth hleast hmost) (not_control ?_) hrest
  have hbits : bits second = second.toNat - 0x80 := rfl
  simp only [← UInt8.toNat_inj, UInt8.le_iff_toNat_le, UInt8.reduceToNat] at hlow hleast
  omega

end Text

theorem spells_of_text {turns : Nat} {value : Bytes}
    (h : Connector.isValidUtf8TextFrom turns value = true) :
    Spells (fun codePoint => isControl codePoint = false) value := by
  induction turns generalizing value with
  | zero =>
    cases value with
    | nil => exact spells_nil
    | cons => cases h
  | succ turns ih =>
    cases value with
    | nil => exact spells_nil
    | cons first rest =>
      unfold Connector.isValidUtf8TextFrom at h
      split at h
      · rw [Bool.and_eq_true, Bool.not_eq_true'] at h
        exact spells_append (.one (by assumption)) h.1 (ih h.2)
      cases rest with
      | nil => cases h
      | cons second rest =>
        cases rest with
        | nil =>
          dsimp only at h
          rw [Bool.and_eq_true, Bool.not_eq_true'] at h
          exact spells_two h.1 h.2 spells_nil
        | cons third rest =>
          cases rest with
          | nil =>
            dsimp only at h
            split at h
            · rename_i hpair
              rw [Bool.and_eq_true, Bool.not_eq_true'] at h
              exact spells_two hpair h.1 (ih h.2)
            · simp only [Bool.and_eq_true, decide_eq_true_eq] at h
              exact spells_three h.1.1.1 h.1.1.2 h.1.2 h.2 spells_nil
          | cons fourth more =>
            dsimp only at h
            split at h
            · rename_i hpair
              rw [Bool.and_eq_true, Bool.not_eq_true'] at h
              exact spells_two hpair h.1 (ih h.2)
            split at h
            · rename_i hrange
              rw [Bool.and_eq_true, decide_eq_true_eq, decide_eq_true_eq] at hrange
              simp only [Bool.and_eq_true] at h
              exact spells_three hrange.1 hrange.2 h.1.1 h.1.2 (ih h.2)
            · simp only [Bool.and_eq_true, decide_eq_true_eq] at h
              obtain ⟨⟨⟨⟨⟨hlow, hhigh⟩, hsecond⟩, hthird⟩, hfourth⟩, hrest⟩ := h
              exact spells_four hlow hhigh hsecond hthird hfourth (ih hrest)

/-- Read by position or from the front, a text is judged alike. -/
theorem walk_iff (value : Bytes) :
    (walk yamlTurn value = .ok () ↔ Connector.FailsafeYaml.isValidUtf8 value = true) ∧
      (walk textTurn value = .ok () ↔ Connector.isValidUtf8Text value = true) ∧
      (walk pathTurn value = .ok () ↔ ControlFree value) ∧
      (walk runtimeTurn value = .ok () ↔ isValidUtf8 value = true) := by
  refine ⟨(walk_spec follows_yaml value).2.trans ⟨?_, spells_of_yaml⟩,
    (walk_spec follows_text value).2.trans ⟨?_, spells_of_text⟩,
    (walk_spec follows_path value).2.trans controlFree_iff.symm,
    (walk_spec follows_runtime value).2.trans ?_⟩
  · rintro ⟨text, -, rfl⟩
    refine Connector.FailsafeYaml.isValidUtf8_of_isUtf8 ⟨text.map Char.toNat, ?_, ?_⟩
    · intro code hcode
      obtain ⟨c, -, rfl⟩ := List.mem_map.mp hcode
      exact isScalar_toNat c
    · rw [List.flatMap_map]
      exact congrArg (text.flatMap ·) (funext fun c => (encode_toNat c).symm)
  · exact fun h => isValidUtf8Text_of_controlFree (controlFree_iff.mpr h)
  · rw [spells_iff, isValidUtf8_iff_wellFormed]

end Cuac.Runtime.Utf8Validators

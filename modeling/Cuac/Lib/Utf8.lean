import Mathlib.Algebra.Group.Nat.Defs
import Cuac.Lib.Checked

/-!
# UTF-8

A decoder that reads one code point off the front of a byte string. How a lead
byte is classified is a parameter, because decoders differ there and nowhere
else: some list the legal leads, some mask bits and rely on the range check to
refuse the illegal ones.

`Decodes` relates a byte string to its code points; proofs go by induction on
it.

Main results:

* `Utf8.scan_eq_ok` — what a validating loop accepts.
* `Utf8.Decodes.mono` — a classification that knows more leads decodes alike.
* `Utf8.forall_decodes` — what holds of every code point's bytes holds of the
  string's.
* `Utf8.decodeOne_eq_ok` — a decoder by high bits inverts the encoder.
-/

namespace Cuac.Lib.Utf8

variable {ε : Type}

/-- What a lead byte announces. -/
structure Lead where
  continuations : Nat
  payload : Nat
  minimum : Nat
  deriving DecidableEq, Repr

/-- Why a byte string does not start with a code point. -/
inductive Defect
  | malformed
  | truncated
  deriving DecidableEq, Repr

def isContinuation (b : UInt8) : Bool :=
  (b &&& 0xC0) == 0x80

/-- Append six bits. -/
def push (codePoint : Nat) (b : UInt8) : Nat :=
  (codePoint <<< 6) ||| (b &&& 0x3F).toNat

def readContinuations : Nat → Nat → Bytes → Option (Nat × Bytes)
  | 0, codePoint, rest => some (codePoint, rest)
  | _ + 1, _, [] => none
  | n + 1, codePoint, b :: rest =>
    if isContinuation b then readContinuations n (push codePoint b) rest else none

/-- Shortest form, no surrogate, in range. -/
def inRange (minimum codePoint : Nat) : Bool :=
  !(codePoint < minimum || (0xD800 ≤ codePoint && codePoint ≤ 0xDFFF) || 0x10FFFF < codePoint)

/-- One code point off the front. Whether there are enough bytes is asked before
they are looked at. -/
def decodeOne (lead : UInt8 → Option Lead) : Bytes → Except Defect (Nat × Bytes)
  | [] => .error .truncated
  | first :: rest =>
    if first ≤ 0x7F then .ok (first.toNat, rest)
    else
      match lead first with
      | none => .error .malformed
      | some l =>
        if rest.length < l.continuations then .error .truncated
        else
          match readContinuations l.continuations l.payload rest with
          | none => .error .malformed
          | some (codePoint, rest) =>
            if inRange l.minimum codePoint then .ok (codePoint, rest) else .error .malformed

/-- The loop of a validator: decode a code point, look at it, go on. Every turn
consumes a byte. -/
def scanFrom (lead : UInt8 → Option Lead) (fault : Defect → ε) (check : Nat → Except ε Unit) :
    Nat → Bytes → Except ε Unit
  | _, [] => .ok ()
  | 0, _ :: _ => .error (fault .truncated)
  | turns + 1, first :: rest =>
    match decodeOne lead (first :: rest) with
    | .error defect => .error (fault defect)
    | .ok (codePoint, rest) => do
      check codePoint
      scanFrom lead fault check turns rest

def scan (lead : UInt8 → Option Lead) (fault : Defect → ε) (check : Nat → Except ε Unit)
    (value : Bytes) : Except ε Unit :=
  scanFrom lead fault check value.length value

/-- C0 and C1 controls and DEL. -/
def isControl (codePoint : Nat) : Bool :=
  codePoint ≤ 0x1F || (0x7F ≤ codePoint && codePoint ≤ 0x9F)

-- ---------------------------------------------------------------------------
-- One code point
-- ---------------------------------------------------------------------------

theorem push_eq (codePoint : Nat) (b : UInt8) :
    push codePoint b = codePoint * 64 + (b &&& 0x3F).toNat := by
  have hlow : (b &&& 0x3F).toNat < 2 ^ 6 := by
    revert b
    exact forall_byte (by decide)
  unfold push
  rw [← Nat.shiftLeft_add_eq_or_of_lt hlow, Nat.shiftLeft_eq]

theorem readContinuations_split {n codePoint : Nat} {bytes : Bytes} {result : Nat × Bytes}
    (h : readContinuations n codePoint bytes = some result) :
    ∃ conts, bytes = conts ++ result.2 ∧ conts.length = n ∧
      (∀ b ∈ conts, isContinuation b = true) ∧ result.1 = conts.foldl push codePoint := by
  induction n generalizing codePoint bytes with
  | zero =>
    obtain rfl := Option.some.inj h
    exact ⟨[], rfl, rfl, (fun b hb => by cases hb), rfl⟩
  | succ n ih =>
    cases bytes with
    | nil => cases h
    | cons b rest =>
      rw [readContinuations] at h
      split at h
      · rename_i hb
        obtain ⟨conts, hrest, hlength, hconts, hcode⟩ := ih h
        refine ⟨b :: conts, by rw [hrest, List.cons_append], by rw [List.length_cons, hlength],
          fun c hc => ?_, hcode⟩
        rcases List.mem_cons.mp hc with rfl | hc
        · exact hb
        · exact hconts c hc
      · cases h

/-- The shape of a decoded code point: an ASCII byte, or a lead byte with its
continuation bytes. -/
theorem decodeOne_split {lead : UInt8 → Option Lead} {bytes : Bytes} {codePoint : Nat}
    {rest : Bytes} (h : decodeOne lead bytes = .ok (codePoint, rest)) :
    ∃ first conts, bytes = first :: (conts ++ rest) ∧
      (∀ b ∈ conts, isContinuation b = true) ∧
      ((first ≤ 0x7F ∧ conts = [] ∧ codePoint = first.toNat) ∨
        (¬first ≤ 0x7F ∧ ∃ l, lead first = some l ∧ conts.length = l.continuations ∧
          codePoint = conts.foldl push l.payload ∧ inRange l.minimum codePoint = true)) := by
  cases bytes with
  | nil => cases h
  | cons first tail =>
    rw [decodeOne] at h
    split at h
    · rename_i hfirst
      obtain ⟨rfl, rfl⟩ := Prod.mk.inj (Except.ok.inj h)
      exact ⟨first, [], rfl, fun b hb => (by cases hb), Or.inl ⟨hfirst, rfl, rfl⟩⟩
    · rename_i hfirst
      split at h
      · cases h
      rename_i l hl
      split at h
      · cases h
      split at h
      · cases h
      rename_i code after hread
      split at h
      · rename_i hrange
        obtain ⟨rfl, rfl⟩ := Prod.mk.inj (Except.ok.inj h)
        obtain ⟨conts, hsplit, hlength, hconts, hcode⟩ := readContinuations_split hread
        exact ⟨first, conts, by rw [hsplit], hconts,
          Or.inr ⟨hfirst, l, hl, hlength, hcode, hrange⟩⟩
      · cases h

theorem decodeOne_length {lead : UInt8 → Option Lead} {bytes : Bytes} {codePoint : Nat}
    {rest : Bytes} (h : decodeOne lead bytes = .ok (codePoint, rest)) :
    rest.length < bytes.length := by
  obtain ⟨first, conts, rfl, -⟩ := decodeOne_split h
  rw [List.length_cons, List.length_append]
  omega

-- ---------------------------------------------------------------------------
-- Whole strings
-- ---------------------------------------------------------------------------

/-- A byte string and its code points. -/
inductive Decodes (lead : UInt8 → Option Lead) : Bytes → List Nat → Prop
  | nil : Decodes lead [] []
  | cons {bytes rest : Bytes} {codePoint : Nat} {codes : List Nat} :
      decodeOne lead bytes = .ok (codePoint, rest) → Decodes lead rest codes →
      Decodes lead bytes (codePoint :: codes)

section Scan

variable {lead : UInt8 → Option Lead} {fault : Defect → ε} {check : Nat → Except ε Unit}

theorem decodes_of_scanFrom {turns : Nat} {bytes : Bytes}
    (h : scanFrom lead fault check turns bytes = .ok ()) :
    ∃ codes, Decodes lead bytes codes ∧ ∀ c ∈ codes, check c = .ok () := by
  induction turns generalizing bytes with
  | zero =>
    cases bytes with
    | nil => exact ⟨[], .nil, fun c hc => by cases hc⟩
    | cons => cases h
  | succ turns ih =>
    cases bytes with
    | nil => exact ⟨[], .nil, fun c hc => by cases hc⟩
    | cons first tail =>
      rw [scanFrom] at h
      split at h
      · cases h
      · rename_i codePoint rest hone
        obtain ⟨u, hcheck, hrest⟩ := bind_eq_ok.mp h
        obtain ⟨codes, hdecodes, hcodes⟩ := ih hrest
        refine ⟨codePoint :: codes, .cons hone hdecodes, fun c hc => ?_⟩
        rcases List.mem_cons.mp hc with rfl | hc
        · exact hcheck
        · exact hcodes c hc

theorem scanFrom_of_decodes {turns : Nat} {bytes : Bytes} {codes : List Nat}
    (h : Decodes lead bytes codes) (hcheck : ∀ c ∈ codes, check c = .ok ())
    (hturns : bytes.length ≤ turns) : scanFrom lead fault check turns bytes = .ok () := by
  induction h generalizing turns with
  | nil => cases turns <;> rfl
  | @cons bytes rest codePoint codes hone _ ih =>
    have hlength := decodeOne_length hone
    obtain ⟨first, conts, rfl, -⟩ := decodeOne_split hone
    cases turns with
    | zero => simp at hturns
    | succ turns =>
      rw [scanFrom, hone]
      refine bind_eq_ok.mpr ⟨(), hcheck _ List.mem_cons_self, ?_⟩
      exact ih (fun c hc => hcheck c (List.mem_cons_of_mem _ hc)) (by omega)

/-- A validator accepts the strings that decode to code points it accepts. -/
theorem scan_eq_ok {bytes : Bytes} :
    scan lead fault check bytes = .ok () ↔
      ∃ codes, Decodes lead bytes codes ∧ ∀ c ∈ codes, check c = .ok () := by
  constructor
  · exact decodes_of_scanFrom
  · rintro ⟨codes, hdecodes, hcodes⟩
    exact scanFrom_of_decodes hdecodes hcodes (Nat.le_refl _)

/-- It throws what its decoder or its check throws. -/
theorem throws_scan {P : ε → Prop} (hfault : ∀ defect, P (fault defect))
    (hcheck : ∀ codePoint, Throws P (check codePoint)) (bytes : Bytes) :
    Throws P (scan lead fault check bytes) := by
  have hfrom : ∀ turns bytes, Throws P (scanFrom lead fault check turns bytes) := by
    intro turns
    induction turns with
    | zero =>
      intro bytes
      cases bytes with
      | nil => exact throws_pure
      | cons => exact throws_error.mpr (hfault _)
    | succ turns ih =>
      intro bytes
      cases bytes with
      | nil => exact throws_pure
      | cons first tail =>
        rw [scanFrom]
        split
        · exact throws_error.mpr (hfault _)
        · exact Throws.bind (hcheck _) fun _ _ => ih _
  exact hfrom bytes.length bytes

end Scan

theorem decodeOne_mono {lead lead' : UInt8 → Option Lead}
    (h : ∀ b l, lead b = some l → lead' b = some l) {bytes : Bytes} {result : Nat × Bytes}
    (hone : decodeOne lead bytes = .ok result) : decodeOne lead' bytes = .ok result := by
  cases bytes with
  | nil => cases hone
  | cons first rest =>
    rw [decodeOne] at hone ⊢
    by_cases hfirst : first ≤ 0x7F
    · rwa [if_pos hfirst] at hone ⊢
    · rw [if_neg hfirst] at hone ⊢
      cases hlead : lead first with
      | none => simp [hlead] at hone
      | some l =>
        rw [hlead] at hone
        rwa [h first l hlead]

/-- A classification that knows more leads accepts more strings. -/
theorem Decodes.mono {lead lead' : UInt8 → Option Lead}
    (h : ∀ b l, lead b = some l → lead' b = some l) {bytes : Bytes} {codes : List Nat}
    (hd : Decodes lead bytes codes) : Decodes lead' bytes codes := by
  induction hd with
  | nil => exact .nil
  | cons hone _ ih => exact .cons (decodeOne_mono h hone) ih

/-- What holds of the bytes of each code point holds of all bytes. -/
theorem forall_decodes {lead : UInt8 → Option Lead} {P : UInt8 → Prop} {bytes : Bytes}
    {codes : List Nat} (h : Decodes lead bytes codes)
    (hascii : ∀ b : UInt8, b ≤ 0x7F → b.toNat ∈ codes → P b)
    (hhigh : ∀ b : UInt8, ¬b ≤ 0x7F → P b) :
    ∀ b ∈ bytes, P b := by
  induction h with
  | nil => exact fun b hb => nomatch hb
  | @cons bytes rest codePoint codes hone _ ih =>
    intro b hb
    obtain ⟨first, conts, rfl, hconts, hcode⟩ := decodeOne_split hone
    by_cases hlow : b ≤ 0x7F
    · rcases List.mem_cons.mp hb with rfl | hb
      · rcases hcode with ⟨-, -, rfl⟩ | ⟨hnot, -⟩
        · exact hascii b hlow List.mem_cons_self
        · exact absurd hlow hnot
      · rcases List.mem_append.mp hb with hb | hb
        · have hcont := hconts b hb
          have hnot : ∀ c : UInt8, isContinuation c = true → ¬c ≤ 0x7F :=
            forall_byte (by decide)
          exact absurd hlow (hnot b hcont)
        · exact ih (fun c hc hmem => hascii c hc (List.mem_cons_of_mem _ hmem)) b hb
    · exact hhigh b hlow

-- ---------------------------------------------------------------------------
-- The encoder
-- ---------------------------------------------------------------------------

/-- A code point that is not a surrogate. -/
def IsScalar (codePoint : Nat) : Prop :=
  codePoint ≤ 0x10FFFF ∧ ¬(0xD800 ≤ codePoint ∧ codePoint ≤ 0xDFFF)

instance (codePoint : Nat) : Decidable (IsScalar codePoint) :=
  inferInstanceAs (Decidable (_ ∧ _))

/-- A continuation byte carries six bits. -/
def continuation (bits : Nat) : UInt8 :=
  UInt8.ofNat (0x80 ||| (bits &&& 0x3F))

/-- The bytes of a code point. -/
def encode (codePoint : Nat) : Bytes :=
  if codePoint ≤ 0x7F then [UInt8.ofNat codePoint]
  else if codePoint ≤ 0x7FF then
    [UInt8.ofNat (0xC0 ||| (codePoint >>> 6)), continuation codePoint]
  else if codePoint ≤ 0xFFFF then
    [UInt8.ofNat (0xE0 ||| (codePoint >>> 12)), continuation (codePoint >>> 6),
      continuation codePoint]
  else
    [UInt8.ofNat (0xF0 ||| (codePoint >>> 18)), continuation (codePoint >>> 12),
      continuation (codePoint >>> 6), continuation codePoint]

/-- A classification that reads the number of continuation bytes off the high bits
and takes the rest as payload. -/
structure ByHighBits (lead : UInt8 → Option Lead) : Prop where
  two : ∀ p : Fin 32, lead (UInt8.ofNat (0xC0 + p)) = some ⟨1, p, 0x80⟩
  three : ∀ p : Fin 16, lead (UInt8.ofNat (0xE0 + p)) = some ⟨2, p, 0x800⟩
  four : ∀ p : Fin 8, lead (UInt8.ofNat (0xF0 + p)) = some ⟨3, p, 0x10000⟩
  only : ∀ b l, ¬b ≤ 0x7F → lead b = some l →
    (∃ p : Fin 32, b = UInt8.ofNat (0xC0 + p) ∧ l = ⟨1, p, 0x80⟩) ∨
      (∃ p : Fin 16, b = UInt8.ofNat (0xE0 + p) ∧ l = ⟨2, p, 0x800⟩) ∨
      ∃ p : Fin 8, b = UInt8.ofNat (0xF0 + p) ∧ l = ⟨3, p, 0x10000⟩

theorem continuation_eq (bits : Nat) : continuation bits = UInt8.ofNat (0x80 + bits % 64) := by
  have hall : ∀ low : Fin 64, (0x80 ||| (low : Nat)) = 0x80 + low := by decide +kernel
  have hlow : bits &&& 0x3F = bits % 64 := Nat.and_two_pow_sub_one_eq_mod bits 6
  rw [continuation, hlow, hall ⟨bits % 64, Nat.mod_lt _ (by omega)⟩]

theorem isContinuation_continuation (bits : Nat) : isContinuation (continuation bits) = true := by
  have hall : ∀ low : Fin 64, isContinuation (UInt8.ofNat (0x80 + low)) = true := by
    decide +kernel
  rw [continuation_eq]
  exact hall ⟨bits % 64, Nat.mod_lt _ (by omega)⟩

theorem push_continuation (codePoint bits : Nat) :
    push codePoint (continuation bits) = codePoint * 64 + bits % 64 := by
  have hall : ∀ low : Fin 64, (UInt8.ofNat (0x80 + low) &&& 0x3F).toNat = low := by
    decide +kernel
  rw [push_eq, continuation_eq, hall ⟨bits % 64, Nat.mod_lt _ (by omega)⟩]

theorem exists_continuation {b : UInt8} (h : isContinuation b = true) :
    ∃ bits, bits < 64 ∧ b = continuation bits := by
  have hall : ∀ b : UInt8, isContinuation b = true → b = continuation (b.toNat % 64) :=
    forall_byte (by decide)
  exact ⟨b.toNat % 64, Nat.mod_lt _ (by omega), hall b h⟩

/-- What `encode` writes, with the bits taken by division. -/
theorem encode_eq {codePoint : Nat} (h : codePoint ≤ 0x10FFFF) :
    encode codePoint =
      if codePoint ≤ 0x7F then [UInt8.ofNat codePoint]
      else if codePoint ≤ 0x7FF then
        [UInt8.ofNat (0xC0 + codePoint / 64), continuation codePoint]
      else if codePoint ≤ 0xFFFF then
        [UInt8.ofNat (0xE0 + codePoint / 4096), continuation (codePoint / 64),
          continuation codePoint]
      else
        [UInt8.ofNat (0xF0 + codePoint / 262144), continuation (codePoint / 4096),
          continuation (codePoint / 64), continuation codePoint] := by
  have htwo : ∀ p : Fin 32, (0xC0 ||| (p : Nat)) = 0xC0 + p := by decide +kernel
  have hthree : ∀ p : Fin 16, (0xE0 ||| (p : Nat)) = 0xE0 + p := by decide +kernel
  have hfour : ∀ p : Fin 8, (0xF0 ||| (p : Nat)) = 0xF0 + p := by decide +kernel
  simp only [encode, Nat.shiftRight_eq_div_pow, Nat.reducePow]
  split
  · rfl
  split
  · rw [htwo ⟨codePoint / 64, by omega⟩]
  split
  · rw [hthree ⟨codePoint / 4096, by omega⟩]
  · rw [hfour ⟨codePoint / 262144, by omega⟩]

theorem toNat_ofNat_of_lt {n : Nat} (h : n < 256) : (UInt8.ofNat n).toNat = n := by
  rw [UInt8.toNat_ofNat']
  omega

/-- A decoder by high bits reads a scalar value back. -/
theorem decodeOne_encode {lead : UInt8 → Option Lead} (hlead : ByHighBits lead) {codePoint : Nat}
    (h : IsScalar codePoint) (rest : Bytes) :
    decodeOne lead (encode codePoint ++ rest) = .ok (codePoint, rest) := by
  obtain ⟨hmax, hsurrogate⟩ := h
  have hhigh (n : Nat) (hlow : 0x80 ≤ n) (hn : n < 256) : ¬UInt8.ofNat n ≤ 0x7F := by
    rw [UInt8.le_iff_toNat_le, toNat_ofNat_of_lt hn]
    exact fun h => absurd (Nat.le_trans hlow h) (by decide)
  have hrange (minimum : Nat) (hmin : minimum ≤ codePoint) : inRange minimum codePoint = true := by
    simp [inRange]
    omega
  have hlength (count : Nat) (conts : Bytes) (hconts : count ≤ conts.length) :
      ¬conts.length < count := by omega
  rw [encode_eq hmax]
  split
  · have hbyte : UInt8.ofNat codePoint ≤ 0x7F := by
      rw [UInt8.le_iff_toNat_le, toNat_ofNat_of_lt (by omega)]
      assumption
    rw [List.cons_append, List.nil_append, decodeOne, if_pos hbyte, toNat_ofNat_of_lt (by omega)]
  split
  · have hfirst := hlead.two ⟨codePoint / 64, by omega⟩
    simp only [List.cons_append, List.nil_append, decodeOne,
      if_neg (hhigh (0xC0 + codePoint / 64) (by omega) (by omega)), hfirst,
      readContinuations, isContinuation_continuation, push_continuation, if_true]
    rw [if_neg (by simp), show codePoint / 64 * 64 + codePoint % 64 = codePoint by omega,
      hrange 0x80 (by omega), if_pos rfl]
  split
  · have hfirst := hlead.three ⟨codePoint / 4096, by omega⟩
    simp only [List.cons_append, List.nil_append, decodeOne,
      if_neg (hhigh (0xE0 + codePoint / 4096) (by omega) (by omega)), hfirst,
      readContinuations, isContinuation_continuation, push_continuation, if_true]
    rw [if_neg (by simp), show (codePoint / 4096 * 64 + codePoint / 64 % 64) * 64 + codePoint % 64 =
      codePoint by omega, hrange 0x800 (by omega), if_pos rfl]
  · have hfirst := hlead.four ⟨codePoint / 262144, by omega⟩
    simp only [List.cons_append, List.nil_append, decodeOne,
      if_neg (hhigh (0xF0 + codePoint / 262144) (by omega) (by omega)), hfirst,
      readContinuations, isContinuation_continuation, push_continuation, if_true]
    rw [if_neg (by simp), show ((codePoint / 262144 * 64 + codePoint / 4096 % 64) * 64 +
      codePoint / 64 % 64) * 64 + codePoint % 64 = codePoint by omega, hrange 0x10000 (by omega),
      if_pos rfl]

theorem continuation_add (high bits : Nat) :
    continuation (high * 64 + bits) = continuation bits := by
  rw [continuation_eq, continuation_eq, Nat.mul_add_mod_self_right]

/-- What a decoder by high bits reads is the encoding of a scalar value. -/
theorem encode_of_decodeOne {lead : UInt8 → Option Lead} (hlead : ByHighBits lead)
    {bytes rest : Bytes} {codePoint : Nat} (h : decodeOne lead bytes = .ok (codePoint, rest)) :
    IsScalar codePoint ∧ bytes = encode codePoint ++ rest := by
  have hrange (minimum : Nat) (hin : inRange minimum codePoint = true) :
      minimum ≤ codePoint ∧ IsScalar codePoint := by
    simp [inRange] at hin
    exact ⟨by omega, by omega, by omega⟩
  obtain ⟨first, conts, rfl, hconts, hshape⟩ := decodeOne_split h
  rw [← List.cons_append]
  rcases hshape with ⟨hfirst, rfl, rfl⟩ | ⟨hfirst, l, hl, hlength, hcode, hin⟩
  · have hbound : first.toNat ≤ 0x7F := hfirst
    refine ⟨⟨by omega, by omega⟩, ?_⟩
    rw [encode, if_pos hbound, UInt8.ofNat_toNat]
  obtain ⟨hmin, hscalar⟩ := hrange _ hin
  refine ⟨hscalar, congrArg (· ++ rest) ?_⟩
  rw [encode_eq hscalar.1]
  rcases hlead.only first l hfirst hl with ⟨p, rfl, rfl⟩ | ⟨p, rfl, rfl⟩ | ⟨p, rfl, rfl⟩
  · obtain ⟨b, rfl⟩ := List.length_eq_one_iff.mp hlength
    obtain ⟨low, hlow, rfl⟩ := exists_continuation (hconts b List.mem_cons_self)
    simp only [List.foldl_cons, List.foldl_nil, push_continuation, Nat.mod_eq_of_lt hlow] at hcode
    dsimp only at hmin
    rw [if_neg (by omega), if_pos (by omega), hcode, continuation_add,
      show (p * 64 + low) / 64 = (p : Nat) by omega]
  · obtain ⟨b, c, rfl⟩ := List.length_eq_two.mp hlength
    obtain ⟨mid, hmid, rfl⟩ := exists_continuation (hconts b List.mem_cons_self)
    obtain ⟨low, hlow, rfl⟩ :=
      exists_continuation (hconts c (List.mem_cons_of_mem _ List.mem_cons_self))
    simp only [List.foldl_cons, List.foldl_nil, push_continuation, Nat.mod_eq_of_lt hlow,
      Nat.mod_eq_of_lt hmid] at hcode
    dsimp only at hmin
    rw [if_neg (by omega), if_neg (by omega), if_pos (by omega), hcode, continuation_add,
      show ((p * 64 + mid) * 64 + low) / 4096 = (p : Nat) by omega,
      show ((p * 64 + mid) * 64 + low) / 64 = p * 64 + mid by omega, continuation_add]
  · obtain ⟨b, c, d, rfl⟩ := List.length_eq_three.mp hlength
    obtain ⟨high, hhigh, rfl⟩ := exists_continuation (hconts b List.mem_cons_self)
    obtain ⟨mid, hmid, rfl⟩ :=
      exists_continuation (hconts c (List.mem_cons_of_mem _ List.mem_cons_self))
    obtain ⟨low, hlow, rfl⟩ := exists_continuation
      (hconts d (List.mem_cons_of_mem _ (List.mem_cons_of_mem _ List.mem_cons_self)))
    simp only [List.foldl_cons, List.foldl_nil, push_continuation, Nat.mod_eq_of_lt hlow,
      Nat.mod_eq_of_lt hmid, Nat.mod_eq_of_lt hhigh] at hcode
    dsimp only at hmin
    rw [if_neg (by omega), if_neg (by omega), if_neg (by omega), hcode, continuation_add,
      show (((p * 64 + high) * 64 + mid) * 64 + low) / 262144 = (p : Nat) by omega,
      show (((p * 64 + high) * 64 + mid) * 64 + low) / 4096 = p * 64 + high by omega,
      show (((p * 64 + high) * 64 + mid) * 64 + low) / 64 = (p * 64 + high) * 64 + mid by omega,
      continuation_add, continuation_add]

/-- The decoder by high bits inverts the encoder, on the scalar values and nowhere
else. -/
theorem decodeOne_eq_ok {lead : UInt8 → Option Lead} (hlead : ByHighBits lead)
    {bytes rest : Bytes} {codePoint : Nat} :
    decodeOne lead bytes = .ok (codePoint, rest) ↔
      IsScalar codePoint ∧ bytes = encode codePoint ++ rest := by
  constructor
  · exact encode_of_decodeOne hlead
  · rintro ⟨hscalar, rfl⟩
    exact decodeOne_encode hlead hscalar rest

/-- An ASCII byte starts its own code point and no other. -/
theorem encode_eq_cons {codePoint : Nat} (h : IsScalar codePoint) {b : UInt8} {tail : Bytes}
    (hb : encode codePoint = b :: tail) :
    (b ≤ 0x7F ∧ codePoint = b.toNat ∧ tail = []) ∨ (¬b ≤ 0x7F ∧ 0x7F < codePoint) := by
  have hhigh (n : Nat) (hlow : 0x80 ≤ n) (hn : n < 256) : ¬UInt8.ofNat n ≤ 0x7F := by
    rw [UInt8.le_iff_toNat_le, toNat_ofNat_of_lt hn]
    exact fun h => absurd (Nat.le_trans hlow h) (by decide)
  have hmax := h.1
  rw [encode_eq hmax] at hb
  split at hb
  · obtain ⟨rfl, rfl⟩ := List.cons.inj hb
    left
    rw [UInt8.le_iff_toNat_le, toNat_ofNat_of_lt (by omega)]
    exact ⟨by assumption, rfl, rfl⟩
  right
  split at hb
  · obtain ⟨rfl, -⟩ := List.cons.inj hb
    exact ⟨hhigh _ (by omega) (by omega), by omega⟩
  split at hb
  · obtain ⟨rfl, -⟩ := List.cons.inj hb
    exact ⟨hhigh _ (by omega) (by omega), by omega⟩
  · obtain ⟨rfl, -⟩ := List.cons.inj hb
    exact ⟨hhigh _ (by omega) (by omega), by omega⟩

/-- Above ASCII every byte is. -/
theorem encode_high {codePoint : Nat} (h : codePoint ≤ 0x10FFFF) (hhigh : 0x7F < codePoint) :
    ∀ b ∈ encode codePoint, ¬b ≤ 0x7F := by
  have hfirst (n : Nat) (hlow : 0x80 ≤ n) (hn : n < 256) : ¬UInt8.ofNat n ≤ 0x7F := by
    rw [UInt8.le_iff_toNat_le, toNat_ofNat_of_lt hn]
    exact fun h => absurd (Nat.le_trans hlow h) (by decide)
  have hnext (bits : Nat) : ¬continuation bits ≤ 0x7F := by
    rw [continuation_eq]
    exact hfirst _ (by omega) (by omega)
  intro b hb
  rw [encode_eq h, if_neg (by omega)] at hb
  split at hb
  · simp only [List.mem_cons, List.not_mem_nil, or_false] at hb
    rcases hb with rfl | rfl
    · exact hfirst _ (by omega) (by omega)
    · exact hnext _
  split at hb
  · simp only [List.mem_cons, List.not_mem_nil, or_false] at hb
    rcases hb with rfl | rfl | rfl
    · exact hfirst _ (by omega) (by omega)
    · exact hnext _
    · exact hnext _
  · simp only [List.mem_cons, List.not_mem_nil, or_false] at hb
    rcases hb with rfl | rfl | rfl | rfl
    · exact hfirst _ (by omega) (by omega)
    · exact hnext _
    · exact hnext _
    · exact hnext _

theorem encode_ascii {b : UInt8} (h : b ≤ 0x7F) : encode b.toNat = [b] := by
  have hbound : b.toNat ≤ 0x7F := h
  rw [encode, if_pos hbound, UInt8.ofNat_toNat]

theorem encode_ne_nil (codePoint : Nat) : encode codePoint ≠ [] := by
  unfold encode
  split
  · exact List.cons_ne_nil _ _
  split
  · exact List.cons_ne_nil _ _
  split <;> exact List.cons_ne_nil _ _

end Cuac.Lib.Utf8

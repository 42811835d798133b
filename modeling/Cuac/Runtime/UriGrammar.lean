import Cuac.Runtime.UriReference

/-!
# Runtime — the grammar of URI references

The rules of RFC 3986 as languages, under their own names, and the parts of the
validator that decide them: characters and escapes, and the addresses of an
authority. A text is an address of version 6 in one of nine ways; the validator
counts the units on the two sides of the two colons.

Main results:

* `validateComponent_iff` — a component is a word over its characters and escapes.
* `validateIpv4Address_iff`, `validateIpv6Address_iff` — addresses.
-/

namespace Cuac.Runtime.Uri

open Cuac.Lib
open Computability

-- ---------------------------------------------------------------------------
-- The grammar
-- ---------------------------------------------------------------------------

namespace Grammar

/-- Any one of the marks. -/
def marks (text : String) : Language UInt8 := oneOf fun b => (ascii text).contains b

def alpha : Language UInt8 :=
  oneOf fun b => (byte 'A' ≤ b && b ≤ byte 'Z') || (byte 'a' ≤ b && b ≤ byte 'z')

def digit : Language UInt8 := oneOf fun b => byte '0' ≤ b && b ≤ byte '9'

def hexdig : Language UInt8 :=
  digit + oneOf fun b => (byte 'A' ≤ b && b ≤ byte 'F') || (byte 'a' ≤ b && b ≤ byte 'f')

def unreserved : Language UInt8 := alpha + digit + marks "-._~"

def subDelims : Language UInt8 := marks "!$&'()*+,;="

def pctEncoded : Language UInt8 := sym (byte '%') * hexdig * hexdig

def pchar : Language UInt8 := unreserved + pctEncoded + subDelims + marks ":@"

def query : Language UInt8 := (pchar + marks "/?")∗

def fragment : Language UInt8 := (pchar + marks "/?")∗

def segment : Language UInt8 := pchar∗

def segmentNz : Language UInt8 := oneOrMore pchar

def segmentNzNc : Language UInt8 := oneOrMore (unreserved + pctEncoded + subDelims + marks "@")

def pathAbempty : Language UInt8 := (sym (byte '/') * segment)∗

def pathAbsolute : Language UInt8 :=
  sym (byte '/') * optional (segmentNz * (sym (byte '/') * segment)∗)

def pathNoscheme : Language UInt8 := segmentNzNc * (sym (byte '/') * segment)∗

def pathRootless : Language UInt8 := segmentNz * (sym (byte '/') * segment)∗

def pathEmpty : Language UInt8 := 1

def regName : Language UInt8 := (unreserved + pctEncoded + subDelims)∗

def decOctet : Language UInt8 :=
  digit + oneOf (fun b => byte '1' ≤ b && b ≤ byte '9') * digit +
    sym (byte '1') * digit * digit +
    sym (byte '2') * oneOf (fun b => byte '0' ≤ b && b ≤ byte '4') * digit +
    sym (byte '2') * sym (byte '5') * oneOf fun b => byte '0' ≤ b && b ≤ byte '5'

def ipv4address : Language UInt8 :=
  decOctet * sym (byte '.') * decOctet * sym (byte '.') * decOctet * sym (byte '.') * decOctet

def h16 : Language UInt8 := hexdig * optional hexdig ^ 3

def ls32 : Language UInt8 := h16 * sym (byte ':') * h16 + ipv4address

def colons : Language UInt8 := {ascii "::"}

def ipv6address : Language UInt8 :=
  (h16 * sym (byte ':')) ^ 6 * ls32 +
  colons * (h16 * sym (byte ':')) ^ 5 * ls32 +
  optional h16 * colons * (h16 * sym (byte ':')) ^ 4 * ls32 +
  optional (optional (h16 * sym (byte ':')) ^ 1 * h16) * colons * (h16 * sym (byte ':')) ^ 3 *
    ls32 +
  optional (optional (h16 * sym (byte ':')) ^ 2 * h16) * colons * (h16 * sym (byte ':')) ^ 2 *
    ls32 +
  optional (optional (h16 * sym (byte ':')) ^ 3 * h16) * colons * (h16 * sym (byte ':')) * ls32 +
  optional (optional (h16 * sym (byte ':')) ^ 4 * h16) * colons * ls32 +
  optional (optional (h16 * sym (byte ':')) ^ 5 * h16) * colons * h16 +
  optional (optional (h16 * sym (byte ':')) ^ 6 * h16) * colons

def ipvFuture : Language UInt8 :=
  marks "vV" * oneOrMore hexdig * sym (byte '.') * oneOrMore (unreserved + subDelims +
  sym (byte ':'))

def ipLiteral : Language UInt8 :=
  sym (byte '[') * (ipv6address + ipvFuture) * sym (byte ']')

def host : Language UInt8 := ipLiteral + ipv4address + regName

def port : Language UInt8 := digit∗

def userinfo : Language UInt8 := (unreserved + pctEncoded + subDelims + sym (byte ':'))∗

def authority : Language UInt8 :=
  optional (userinfo * sym (byte '@')) * host * optional (sym (byte ':') * port)

def scheme : Language UInt8 := alpha * (alpha + digit + marks "+-.")∗

def hierPart : Language UInt8 :=
  sym (byte '/') * sym (byte '/') * authority * pathAbempty + pathAbsolute + pathRootless +
  pathEmpty

def relativePart : Language UInt8 :=
  sym (byte '/') * sym (byte '/') * authority * pathAbempty + pathAbsolute + pathNoscheme +
  pathEmpty

def uri : Language UInt8 :=
  scheme * sym (byte ':') * hierPart * optional (sym (byte '?') * query) *
    optional (sym (byte '#') * fragment)

def relativeRef : Language UInt8 :=
  relativePart * optional (sym (byte '?') * query) * optional (sym (byte '#') * fragment)

def uriReference : Language UInt8 := uri + relativeRef

end Grammar

open Grammar

-- ---------------------------------------------------------------------------
-- Characters
-- ---------------------------------------------------------------------------

/-- One byte as a class of bytes, so that classes can be merged. -/
theorem sym_eq_oneOf (a : UInt8) : sym a = oneOf (· == a) := by
  ext word
  rw [mem_oneOf]
  constructor
  · rintro rfl
    exact ⟨a, beq_self_eq_true a, rfl⟩
  · rintro ⟨b, hb, rfl⟩
    rw [beq_iff_eq.mp hb]
    rfl

/-- Two classes are the same if they agree on every byte. -/
theorem oneOf_congr {p q : UInt8 → Bool} (h : ∀ b, p b = q b) : oneOf p = oneOf q :=
  congrArg oneOf (funext h)

/-- The grammar's hexadecimal digits are the code's. -/
theorem hexdig_eq : hexdig = oneOf isHexDigit := by
  rw [hexdig, Grammar.digit, oneOf_add]
  exact oneOf_congr (forall_byte (by decide))

/-- The grammar's unreserved bytes are the code's. -/
theorem unreserved_eq : unreserved = oneOf isUnreserved := by
  rw [unreserved, alpha, Grammar.digit, marks, oneOf_add, oneOf_add]
  exact oneOf_congr (forall_byte (by decide))

/-- Characters of a class, or escapes. -/
def escapable (p : UInt8 → Bool) : Language UInt8 := oneOf p + pctEncoded

/-- What a component of a kind consists of. -/
def componentOf (kind : ComponentKind) : Language UInt8 :=
  escapable (isPlainComponentCharacter · kind)

/-- Each of the four repeated classes of the grammar is a kind of component of the code. -/
theorem pchar_eq : pchar = componentOf .pchar := by
  rw [pchar, componentOf, escapable, unreserved_eq, subDelims, marks, marks,
    add_right_comm _ pctEncoded, add_right_comm _ pctEncoded, oneOf_add, oneOf_add]
  exact congrArg (· + pctEncoded) (oneOf_congr (forall_byte (by decide)))

theorem queryOrFragment_eq : pchar + marks "/?" = componentOf .queryOrFragment := by
  rw [pchar_eq, componentOf, componentOf, escapable, escapable, marks, add_right_comm, oneOf_add]
  exact congrArg (· + pctEncoded) (oneOf_congr (forall_byte (by decide)))

theorem userInfo_eq :
    unreserved + pctEncoded + subDelims + sym (byte ':') = componentOf .userInfo := by
  rw [componentOf, escapable, unreserved_eq, subDelims, marks, sym_eq_oneOf,
    add_right_comm _ pctEncoded, add_right_comm _ pctEncoded, oneOf_add, oneOf_add]
  exact congrArg (· + pctEncoded) (oneOf_congr (forall_byte (by decide)))

theorem regName_eq : unreserved + pctEncoded + subDelims = componentOf .regName := by
  rw [componentOf, escapable, unreserved_eq, subDelims, marks, add_right_comm _ pctEncoded,
    oneOf_add]
  exact congrArg (· + pctEncoded) (oneOf_congr (forall_byte (by decide)))

/-- How a run of plain bytes and escapes starts, which is the code's loop turn by turn. -/
theorem cons_mem_escapable {p : UInt8 → Bool} {b : UInt8} {rest : Bytes} :
    b :: rest ∈ (escapable p)∗ ↔
      (p b = true ∧ rest ∈ (escapable p)∗) ∨
        b = byte '%' ∧ ∃ first second more, rest = first :: second :: more ∧
          isHexDigit first = true ∧ isHexDigit second = true ∧ more ∈ (escapable p)∗ := by
  have hexOf {first : UInt8} {word : Bytes} {L : Language UInt8} :
      first :: word ∈ hexdig * L ↔ isHexDigit first = true ∧ word ∈ L := by
    rw [hexdig_eq, cons_mem_oneOf_mul]
  have hnil {L : Language UInt8} : [] ∉ hexdig * L := by
    rw [hexdig_eq]
    exact nil_mem_oneOf_mul
  have hescape : b :: rest ∈ pctEncoded * (escapable p)∗ ↔
      b = byte '%' ∧ rest ∈ hexdig * (hexdig * (escapable p)∗) := by
    rw [pctEncoded, mul_assoc, mul_assoc, sym_eq_oneOf, cons_mem_oneOf_mul, beq_iff_eq]
  rw [mem_kstar_iff]
  nth_rewrite 1 [escapable]
  rw [add_mul, Language.mem_add, cons_mem_oneOf_mul, hescape]
  simp only [List.cons_ne_nil, false_or]
  refine or_congr Iff.rfl (and_congr Iff.rfl ?_)
  match rest with
  | [] => simp [hnil]
  | [first] => simp [hexOf, hnil]
  | first :: second :: more =>
    rw [hexOf, hexOf]
    constructor
    · rintro ⟨hfirst, hsecond, hmore⟩
      exact ⟨first, second, more, rfl, hfirst, hsecond, hmore⟩
    · rintro ⟨_, _, _, heq, hfirst, hsecond, hmore⟩
      simp only [List.cons.injEq] at heq
      obtain ⟨rfl, rfl, rfl⟩ := heq
      exact ⟨hfirst, hsecond, hmore⟩

/-- The code's loop over a component accepts the repeated class of its kind. -/
theorem validateComponent_iff {kind : ComponentKind} {word : Bytes} :
    validateComponent kind word = true ↔ word ∈ (componentOf kind)∗ := by
  have hpercent : isPlainComponentCharacter (byte '%') kind = false := by
    cases kind <;> decide +kernel
  have hescape {rest : Bytes} : byte '%' :: rest ∈ (componentOf kind)∗ ↔
      ∃ first second more, rest = first :: second :: more ∧ isHexDigit first = true ∧
        isHexDigit second = true ∧ more ∈ (componentOf kind)∗ := by
    rw [componentOf, cons_mem_escapable, hpercent]
    simp
  induction word using validateComponent.induct with
  | case1 => simp [validateComponent, Language.nil_mem_kstar]
  | case2 b hb first second more ih =>
    have hrest : validateComponent kind more = true ↔ more ∈ (componentOf kind)∗ := ih
    rw [validateComponent, if_pos hb, beq_iff_eq.mp hb, hescape, Bool.and_eq_true,
      Bool.and_eq_true, hrest]
    constructor
    · rintro ⟨⟨hfirst, hsecond⟩, hmore⟩
      exact ⟨first, second, more, rfl, hfirst, hsecond, hmore⟩
    · rintro ⟨_, _, _, heq, hfirst, hsecond, hmore⟩
      simp only [List.cons.injEq] at heq
      obtain ⟨rfl, rfl, rfl⟩ := heq
      exact ⟨⟨hfirst, hsecond⟩, hmore⟩
  | case3 b rest hb hshort =>
    rw [validateComponent, if_pos hb, beq_iff_eq.mp hb, hescape]
    · constructor
      · intro h
        cases h
      · rintro ⟨first, second, more, rfl, -⟩
        exact absurd rfl (hshort first second more)
    · exact hshort
  | case4 b rest hb ih =>
    have hrest : validateComponent kind rest = true ↔ rest ∈ (componentOf kind)∗ := ih
    unfold validateComponent
    rw [if_neg hb, Bool.and_eq_true, hrest, componentOf, cons_mem_escapable]
    rw [beq_iff_eq] at hb
    simp [hb]

/-- A byte that is neither plain, nor `%`, nor a hexadecimal digit is in no component. -/
theorem avoids_escapable {p : UInt8 → Bool} {b : UInt8}
    (h : (p b || b == byte '%' || isHexDigit b) = false) : Avoids b (escapable p) := by
  simp only [Bool.or_eq_false_iff] at h
  have hhex : Avoids b hexdig := by
    rw [hexdig_eq]
    exact Avoids.oneOf h.2
  exact (Avoids.oneOf h.1.1).add (((Avoids.sym (beq_eq_false_iff_ne.mp h.1.2)).mul hhex).mul hhex)

/-- Leaving a character out of a class keeps it out of the words. -/
theorem mem_kstar_escapable_without {p : UInt8 → Bool} {c : UInt8}
    (hc : (c == byte '%' || isHexDigit c) = false) {word : Bytes} :
    word ∈ (escapable fun b => p b && b != c)∗ ↔ word ∈ (escapable p)∗ ∧ c ∉ word := by
  rw [Bool.or_eq_false_iff] at hc
  have hhex {b : UInt8} (h : isHexDigit b = true) : c ≠ b := by
    rintro rfl
    rw [h] at hc
    cases hc.2
  match word with
  | [] => simp [Language.nil_mem_kstar]
  | b :: rest =>
    rw [cons_mem_escapable, cons_mem_escapable, Bool.and_eq_true, bne_iff_ne, List.mem_cons, not_or,
      mem_kstar_escapable_without (by rw [hc.1, hc.2]; rfl)]
    constructor
    · rintro (⟨⟨hp, hne⟩, hrest, hnot⟩ | ⟨rfl, first, second, more, rfl, hfirst, hsecond, hmore⟩)
      · exact ⟨Or.inl ⟨hp, hrest⟩, fun h => hne h.symm, hnot⟩
      · rw [mem_kstar_escapable_without (by rw [hc.1, hc.2]; rfl)] at hmore
        refine ⟨Or.inr ⟨rfl, first, second, more, rfl, hfirst, hsecond, hmore.1⟩,
          beq_eq_false_iff_ne.mp hc.1, ?_⟩
        rw [List.mem_cons, List.mem_cons, not_or, not_or]
        exact ⟨hhex hfirst, hhex hsecond, hmore.2⟩
    · rintro ⟨⟨hp, hrest⟩ | ⟨rfl, first, second, more, rfl, hfirst, hsecond, hmore⟩, hne, hnot⟩
      · exact Or.inl ⟨⟨hp, fun h => hne h.symm⟩, hrest, hnot⟩
      · rw [List.mem_cons, List.mem_cons, not_or, not_or] at hnot
        refine Or.inr ⟨rfl, first, second, more, rfl, hfirst, hsecond, ?_⟩
        rw [mem_kstar_escapable_without (by rw [hc.1, hc.2]; rfl)]
        exact ⟨hmore, hnot.2.2⟩
termination_by word.length

-- ---------------------------------------------------------------------------
-- Addresses
-- ---------------------------------------------------------------------------

/-- The five ranges of the grammar's octet are the numbers up to 255 without a leading zero. -/
theorem validateDecimalOctet_iff {word : Bytes} :
    validateDecimalOctet word = true ↔ word ∈ decOctet := by
  have hzero : (byte '0').toNat = 48 := by decide
  have hone : (byte '1').toNat = 49 := by decide
  have htwo : (byte '2').toNat = 50 := by decide
  have hfour : (byte '4').toNat = 52 := by decide
  have hfive : (byte '5').toNat = 53 := by decide
  have hnine : (byte '9').toNat = 57 := by decide
  simp only [decOctet, Grammar.digit, sym_eq_oneOf, mul_assoc, Language.mem_add]
  match word with
  | [] => simp [validateDecimalOctet, nil_mem_oneOf, nil_mem_oneOf_mul]
  | [a] =>
    simp [validateDecimalOctet, isAsciiDigit, cons_mem_oneOf, cons_mem_oneOf_mul, nil_mem_oneOf,
      nil_mem_oneOf_mul, Lib.value, UInt8.le_iff_toNat_le]
    omega
  | [a, b] =>
    simp [validateDecimalOctet, isAsciiDigit, cons_mem_oneOf, cons_mem_oneOf_mul, nil_mem_oneOf,
      Lib.value, UInt8.le_iff_toNat_le, ← UInt8.toNat_inj]
    omega
  | [a, b, c] =>
    simp [validateDecimalOctet, isAsciiDigit, cons_mem_oneOf, cons_mem_oneOf_mul,
      Lib.value, UInt8.le_iff_toNat_le, ← UInt8.toNat_inj]
    omega
  | a :: b :: c :: d :: rest =>
    simp [validateDecimalOctet, cons_mem_oneOf, cons_mem_oneOf_mul]

/-- Only digits are in an octet, so its text is cut at the dots. -/
theorem avoids_decOctet {b : UInt8} (h : isAsciiDigit b = false) : Avoids b decOctet := by
  intro word hword hmem
  rw [← validateDecimalOctet_iff, validateDecimalOctet, Bool.and_eq_true, Bool.and_eq_true,
    List.all_eq_true] at hword
  rw [hword.1.2 b hmem] at h
  cases h

/-- The address as the grammar writes it, with its repetition gathered. -/
theorem ipv4address_eq : ipv4address = (decOctet * sym (byte '.')) ^ 3 * decOctet := by
  rw [ipv4address, pow_succ, pow_two]
  simp only [mul_assoc]

/-- Four octets between three dots. -/
theorem validateIpv4Address_iff {word : Bytes} :
    validateIpv4Address word = true ↔ word ∈ ipv4address := by
  have havoids : Avoids (byte '.') decOctet := avoids_decOctet (by decide)
  rw [ipv4address_eq, mem_counted havoids havoids, validateIpv4Address, Bool.and_eq_true,
    List.all_eq_true, beq_iff_eq]
  simp only [validateDecimalOctet_iff]
  constructor
  · rintro ⟨hall, hlength⟩
    have hne := List.splitOn_ne_nil (byte '.') word
    refine ⟨(word.splitOn (byte '.')).dropLast, (word.splitOn (byte '.')).getLast hne,
      (List.dropLast_append_getLast hne).symm, ?_, ?_, hall _ (List.getLast_mem hne)⟩
    · rw [List.length_dropLast, hlength]
    · exact fun piece hpiece => hall piece (List.mem_of_mem_dropLast hpiece)
  · rintro ⟨pieces, last, hsplit, hlength, hpieces, hlast⟩
    rw [hsplit, List.length_append, hlength, List.forall_mem_append]
    exact ⟨⟨hpieces, by simpa using hlast⟩, rfl⟩

/-- One to four hexadecimal digits. -/
theorem mem_h16 {word : Bytes} :
    word ∈ h16 ↔ word ≠ [] ∧ word.length ≤ 4 ∧ ∀ b ∈ word, isHexDigit b = true := by
  rw [h16, hexdig_eq]
  match word with
  | [] => simp [nil_mem_oneOf_mul]
  | b :: word =>
    simp only [cons_mem_oneOf_mul, mem_pow_optional, mem_pow_oneOf, List.length_cons,
      List.forall_mem_cons]
    constructor
    · rintro ⟨hb, k, hk, hlength, hall⟩
      exact ⟨List.cons_ne_nil _ _, by omega, hb, hall⟩
    · rintro ⟨-, hlength, hb, hall⟩
      exact ⟨hb, _, by omega, rfl, hall⟩

/-- No colon and no dot is in a unit. -/
theorem avoids_h16 {b : UInt8} (h : isHexDigit b = false) : Avoids b h16 := by
  intro word hword hmem
  rw [(mem_h16.mp hword).2.2 b hmem] at h
  cases h

/-- A dotted address is told from a unit by its dots. -/
theorem dot_mem_ipv4address {word : Bytes} (h : word ∈ ipv4address) : byte '.' ∈ word := by
  rw [← validateIpv4Address_iff, validateIpv4Address, Bool.and_eq_true, beq_iff_eq] at h
  by_contra hnone
  rw [List.splitOn_eq_singleton hnone, List.length_singleton] at h
  omega

/-- Segments of an address and the units of 16 bits that they make. -/
inductive Segments (mixed : Bool) : List Bytes → Nat → Prop
  | nil : Segments mixed [] 0
  | h16 {segment : Bytes} {rest : List Bytes} {units : Nat} :
      segment ∈ h16 → Segments mixed rest units → Segments mixed (segment :: rest) (units + 1)
  | ipv4 {segment : Bytes} : mixed = true → segment ∈ ipv4address → Segments mixed [segment] 2

/-- The loop counts two units for a dotted address, which has to come last. -/
theorem countUnits_eq_some {follows : Bool} {units total : Nat} {segments : List Bytes} :
    countUnits follows units segments = some total ↔
      ∃ added, Segments (!follows) segments added ∧ total = units + added := by
  -- On the segments: an address in dots counts for two units and has to be the last.
  induction segments generalizing units with
  | nil =>
    rw [countUnits, Option.some.injEq]
    constructor
    · rintro rfl
      exact ⟨0, .nil, rfl⟩
    · rintro ⟨_, ⟨⟩, rfl⟩
      rfl
  | cons segment rest ih =>
    rw [countUnits]
    by_cases hdot : byte '.' ∈ segment
    · rw [if_pos (List.contains_iff_mem.mpr hdot)]
      split
      · rename_i hbad
        constructor
        · intro h
          cases h
        · rintro ⟨_, hsegments, -⟩
          simp only [Bool.or_eq_true, Bool.not_eq_true', List.isEmpty_eq_false_iff] at hbad
          cases hsegments with
          | h16 hword _ => exact absurd hdot (avoids_h16 (by decide) segment hword)
          | ipv4 hmixed hword =>
            rw [validateIpv4Address_iff.mpr hword] at hbad
            simp at hbad hmixed
            simp [hmixed] at hbad
      · rename_i hgood
        simp only [Bool.or_eq_true, Bool.not_eq_true', not_or, List.isEmpty_eq_false_iff, not_not,
          Bool.not_eq_true, Bool.not_eq_false] at hgood
        obtain ⟨⟨rfl, hfollows⟩, hword⟩ := hgood
        rw [validateIpv4Address_iff] at hword
        rw [countUnits, Option.some.injEq]
        constructor
        · rintro rfl
          exact ⟨2, .ipv4 (by rw [hfollows]; rfl) hword, rfl⟩
        · rintro ⟨_, hsegments, rfl⟩
          cases hsegments with
          | h16 hword _ => exact absurd hdot (avoids_h16 (by decide) segment hword)
          | ipv4 => rfl
    · rw [if_neg (by rw [List.contains_iff_mem]; exact hdot)]
      -- The check of the source is that the segment is no group of hexadecimal digits.
      have hguard : (segment.isEmpty || decide (4 < segment.length) || !segment.all isHexDigit) =
          true ↔ segment ∉ h16 := by
        rw [mem_h16]
        simp only [Bool.or_eq_true, List.isEmpty_iff, decide_eq_true_eq, Bool.not_eq_true',
          List.all_eq_false, Ne]
        constructor
        · rintro ((h | h) | ⟨b, hb, h⟩) ⟨hne, hlength, hall⟩
          · exact hne h
          · omega
          · exact h (hall b hb)
        · intro h
          by_contra hnone
          simp only [not_or, not_exists, not_and, not_not, Nat.not_lt] at hnone
          exact h ⟨hnone.1.1, hnone.1.2, hnone.2⟩
      by_cases hword : segment ∈ h16
      · rw [if_neg (by rw [hguard, not_not]; exact hword), ih]
        constructor
        · rintro ⟨added, hsegments, rfl⟩
          exact ⟨added + 1, .h16 hword hsegments, by omega⟩
        · rintro ⟨_, hsegments, rfl⟩
          cases hsegments with
          | h16 _ hrest => exact ⟨_, hrest, by omega⟩
          | ipv4 _ hipv4 => exact absurd (dot_mem_ipv4address hipv4) hdot
      · rw [if_pos (hguard.mpr hword)]
        constructor
        · intro h
          cases h
        · rintro ⟨_, hsegments, -⟩
          cases hsegments with
          | h16 hin _ => exact absurd hin hword
          | ipv4 _ hipv4 => exact absurd (dot_mem_ipv4address hipv4) hdot

/-- Segments that are all units, or units with a dotted address behind them. -/
theorem segments_iff {mixed : Bool} {segments : List Bytes} {units : Nat} :
    Segments mixed segments units ↔
      ((∀ segment ∈ segments, segment ∈ h16) ∧ units = segments.length) ∨
        mixed = true ∧ ∃ pieces last, segments = pieces ++ [last] ∧
          (∀ piece ∈ pieces, piece ∈ h16) ∧ last ∈ ipv4address ∧ units = pieces.length + 2 := by
  constructor
  · intro h
    induction h with
    | nil => exact Or.inl ⟨by simp, rfl⟩
    | h16 hword _ ih =>
      rcases ih with ⟨hall, rfl⟩ | ⟨hmixed, pieces, last, rfl, hall, hlast, rfl⟩
      · exact Or.inl ⟨List.forall_mem_cons.mpr ⟨hword, hall⟩, rfl⟩
      · exact Or.inr ⟨hmixed, _ :: pieces, last, rfl, List.forall_mem_cons.mpr ⟨hword, hall⟩, hlast,
          rfl⟩
    | ipv4 hmixed hword => exact Or.inr ⟨hmixed, [], _, rfl, by simp, hword, rfl⟩
  · rintro (⟨hall, rfl⟩ | ⟨hmixed, pieces, last, rfl, hall, hlast, rfl⟩)
    · induction segments with
      | nil => exact .nil
      | cons segment rest ih =>
        rw [List.forall_mem_cons] at hall
        exact .h16 hall.1 (ih hall.2)
    · induction pieces with
      | nil => exact .ipv4 hmixed hlast
      | cons piece pieces ih =>
        rw [List.forall_mem_cons] at hall
        exact .h16 hall.1 (ih hall.2)

/-- Only the last segments may hold an address of the other kind. -/
theorem segments_append {mixed : Bool} {left right : List Bytes} {units : Nat}
    (hright : right ≠ [] ∨ mixed = false) :
    Segments mixed (left ++ right) units ↔ (∀ segment ∈ left, segment ∈ h16) ∧
      ∃ added, Segments mixed right added ∧ units = left.length + added := by
  induction left generalizing units with
  | nil => simp
  | cons segment left ih =>
    rw [List.forall_mem_cons]
    constructor
    · intro h
      generalize hsegments : segment :: left ++ right = segments at h
      cases h with
      | nil => cases hsegments
      | h16 hword hrest =>
        obtain ⟨rfl, rfl⟩ := List.cons.inj hsegments
        obtain ⟨hall, added, hadded, rfl⟩ := ih.mp hrest
        exact ⟨⟨hword, hall⟩, added, hadded, by rw [List.length_cons]; omega⟩
      | ipv4 hmixed _ =>
        obtain ⟨-, hnil⟩ := List.cons.inj hsegments
        rcases hright with hright | hright
        · exact absurd (List.append_eq_nil_iff.mp hnil).2 hright
        · rw [hright] at hmixed
          cases hmixed
    · rintro ⟨⟨hword, hall⟩, added, hadded, rfl⟩
      have hrest := Segments.h16 hword (ih.mpr ⟨hall, added, hadded, rfl⟩)
      rw [List.length_cons, Nat.add_right_comm]
      exact hrest

/-- When a side splits, and into what. -/
theorem splitIpv6Side_eq_some {side : Bytes} {segments : List Bytes} :
    splitIpv6Side side = some segments ↔
      (side = [] ∧ segments = []) ∨
        (side ≠ [] ∧ side.splitOn (byte ':') = segments ∧ [] ∉ segments) := by
  unfold splitIpv6Side
  by_cases hside : side = []
  · rw [if_pos (List.isEmpty_iff.mpr hside)]
    simp [hside, eq_comm]
  · rw [if_neg (by rw [List.isEmpty_iff]; exact hside)]
    by_cases hempty : [] ∈ side.splitOn (byte ':')
    · rw [if_pos (List.any_eq_true.mpr ⟨[], hempty, rfl⟩)]
      constructor
      · intro h
        cases h
      · rintro (⟨h, -⟩ | ⟨-, rfl, h⟩)
        · exact absurd h hside
        · exact absurd hempty h
    · have hany : ¬(side.splitOn (byte ':')).any List.isEmpty = true := by
        rw [List.any_eq_true]
        rintro ⟨piece, hpiece, hnil⟩
        rw [List.isEmpty_iff.mp hnil] at hpiece
        exact hempty hpiece
      rw [if_neg hany, Option.some.injEq]
      constructor
      · rintro rfl
        exact Or.inr ⟨hside, rfl, hempty⟩
      · rintro (⟨h, -⟩ | ⟨-, h, -⟩)
        · exact absurd h hside
        · exact h

/-- A side has no empty segment, so the two colons are not in it nor at its end. -/
theorem no_colons_inside {side : Bytes} {segments : List Bytes}
    (h : splitIpv6Side side = some segments) : ¬ascii "::" <:+: side ++ [byte ':'] := by
  rintro ⟨front, back, heq⟩
  -- The piece between the colons is empty, and a piece follows it.
  have hpieces : front.splitOn (byte ':') ++ [] :: back.splitOn (byte ':') =
      side.splitOn (byte ':') ++ [[]] := by
    have hsplit := congrArg (List.splitOn (byte ':')) heq
    have hinner : (byte ':' :: back).splitOn (byte ':') = [] :: back.splitOn (byte ':') :=
      List.splitOn_append_cons_self_of_not_mem List.not_mem_nil back
    rw [List.append_assoc, show ascii "::" ++ back = byte ':' :: (byte ':' :: back) from rfl,
      List.splitOn_append_cons_self, hinner, List.splitOn_append_cons_self,
      List.splitOn_nil] at hsplit
    exact hsplit
  obtain ⟨last, more, hback⟩ :=
    List.exists_cons_of_ne_nil (List.splitOn_ne_nil (byte ':') back)
  obtain ⟨first, others, hfront⟩ :=
    List.exists_cons_of_ne_nil (List.splitOn_ne_nil (byte ':') front)
  rcases splitIpv6Side_eq_some.mp h with ⟨rfl, -⟩ | ⟨-, rfl, hfull⟩
  · have hlength := congrArg List.length hpieces
    rw [hback, hfront, List.splitOn_nil] at hlength
    simp only [List.length_append, List.length_cons, List.length_nil] at hlength
    omega
  · have hmore : [] :: back.splitOn (byte ':') =
        [] :: ((back.splitOn (byte ':')).dropLast ++ [(back.splitOn (byte ':')).getLast
          (List.splitOn_ne_nil _ _)]) := by
      rw [List.dropLast_append_getLast]
    rw [hmore, ← List.cons_append, ← List.append_assoc] at hpieces
    obtain ⟨hsame, -⟩ := List.append_inj' hpieces rfl
    refine hfull ?_
    rw [← hsame]
    simp

/-- The groups before the two colons, at most so many. -/
def leftSide : Nat → Language UInt8
  | 0 => 1
  | n + 1 => optional (optional (h16 * sym (byte ':')) ^ n * h16)

/-- The groups after them, of exactly so many units. -/
def rightSide : Nat → Language UInt8
  | 0 => 1
  | 1 => h16
  | n + 2 => (h16 * sym (byte ':')) ^ n * ls32

/-- Where no segment may be empty, a side is its pieces. -/
theorem exists_split_iff {P : List Bytes → Prop} (hP : ∀ segments, P segments →
    segments ≠ [] ∧ [] ∉ segments) {word : Bytes} :
    (∃ segments, splitIpv6Side word = some segments ∧ P segments) ↔
    P (word.splitOn (byte ':')) := by
  constructor
  · rintro ⟨segments, hsplit, h⟩
    rcases splitIpv6Side_eq_some.mp hsplit with ⟨-, rfl⟩ | ⟨-, rfl, -⟩
    · exact absurd rfl (hP [] h).1
    · exact h
  · intro h
    refine ⟨_, splitIpv6Side_eq_some.mpr (Or.inr ⟨?_, rfl, (hP _ h).2⟩), h⟩
    rintro rfl
    exact (hP _ h).2 (by simp)

/-- A unit has a digit. -/
theorem nil_not_mem_h16 : [] ∉ h16 := fun h => (mem_h16.mp h).1 rfl

/-- A dotted address has a byte. -/
theorem nil_not_mem_ipv4address : [] ∉ ipv4address := fun h => by
  cases dot_mem_ipv4address h

/-- Units with a colon behind each of them but the last, as the pieces between the colons. -/
theorem mem_pow_h16 {word : Bytes} {n : Nat} :
    word ∈ (h16 * sym (byte ':')) ^ n * h16 ↔ (∀ segment ∈ word.splitOn (byte ':'), segment ∈ h16) ∧
      (word.splitOn (byte ':')).length = n + 1 := by
  have havoids : Avoids (byte ':') h16 := avoids_h16 (by decide)
  rw [mem_counted havoids havoids]
  constructor
  · rintro ⟨pieces, last, hsplit, hlength, hpieces, hlast⟩
    rw [hsplit, List.length_append, hlength, List.forall_mem_append]
    exact ⟨⟨hpieces, by simpa using hlast⟩, rfl⟩
  · rintro ⟨hall, hlength⟩
    have hne := List.splitOn_ne_nil (byte ':') word
    refine ⟨(word.splitOn (byte ':')).dropLast, (word.splitOn (byte ':')).getLast hne,
      (List.dropLast_append_getLast hne).symm, ?_, ?_, hall _ (List.getLast_mem hne)⟩
    · rw [List.length_dropLast, hlength, Nat.add_sub_cancel]
    · exact fun piece hpiece => hall piece (List.mem_of_mem_dropLast hpiece)

/-- The left of a `::`: at most so many units. -/
theorem mem_leftSide {word : Bytes} {n : Nat} :
    word ∈ leftSide n ↔ ∃ segments, splitIpv6Side word = some segments ∧
      (∀ segment ∈ segments, segment ∈ h16) ∧ segments.length ≤ n := by
  have hempty : splitIpv6Side [] = some [] := rfl
  match n with
  | 0 =>
    rw [leftSide, Language.mem_one]
    constructor
    · rintro rfl
      exact ⟨[], hempty, by simp, Nat.le_refl 0⟩
    · rintro ⟨segments, hsplit, -, hlength⟩
      rcases splitIpv6Side_eq_some.mp hsplit with ⟨h, -⟩ | ⟨-, hsegments, -⟩
      · exact h
      · rw [List.length_eq_zero_iff.mp (Nat.le_zero.mp hlength)] at hsegments
        exact absurd hsegments (List.splitOn_ne_nil _ _)
  | n + 1 =>
    rw [leftSide, mem_optional, mem_pow_optional_mul]
    simp only [mem_pow_h16]
    constructor
    · rintro (rfl | ⟨k, hk, hall, hlength⟩)
      · exact ⟨[], hempty, by simp, Nat.zero_le _⟩
      · have hfull : [] ∉ word.splitOn (byte ':') := fun h => nil_not_mem_h16 (hall [] h)
        refine ⟨_, splitIpv6Side_eq_some.mpr (Or.inr ⟨?_, rfl, hfull⟩), hall, by omega⟩
        rintro rfl
        exact hfull (by simp)
    · rintro ⟨segments, hsplit, hall, hlength⟩
      rcases splitIpv6Side_eq_some.mp hsplit with ⟨h, -⟩ | ⟨-, rfl, -⟩
      · exact Or.inl h
      · have hpos := List.length_pos_iff.mpr (List.splitOn_ne_nil (byte ':') word)
        exact Or.inr ⟨(word.splitOn (byte ':')).length - 1, by omega, hall, by omega⟩

/-- Segments that make units are none of them empty. -/
theorem segments_full {mixed : Bool} {segments : List Bytes} {units : Nat}
    (h : Segments mixed segments (units + 1)) : segments ≠ [] ∧ [] ∉ segments := by
  rcases segments_iff.mp h with ⟨hall, hlength⟩ | ⟨-, pieces, last, rfl, hall, hlast, -⟩
  · refine ⟨?_, fun hnil => nil_not_mem_h16 (hall [] hnil)⟩
    rintro rfl
    cases hlength
  · refine ⟨by simp, ?_⟩
    rw [List.mem_append, List.mem_singleton]
    rintro (hnil | rfl)
    · exact nil_not_mem_h16 (hall [] hnil)
    · exact nil_not_mem_ipv4address hlast

/-- Units with colons and a last piece of two units, in either of its forms. -/
theorem mem_pow_ls32 {word : Bytes} {n : Nat} :
    word ∈ (h16 * sym (byte ':')) ^ n * ls32 ↔ Segments true (word.splitOn (byte ':')) (n + 2) := by
  have havoids : Avoids (byte ':') h16 := avoids_h16 (by decide)
  have hdecimal : Avoids (byte ':') ipv4address := by
    have hoctet : Avoids (byte ':') decOctet := avoids_decOctet (by decide)
    rw [ipv4address_eq]
    exact ((hoctet.mul (Avoids.sym (by decide))).pow 3).mul hoctet
  have hlonger : (h16 * sym (byte ':')) ^ n * (h16 * sym (byte ':') * h16) =
      (h16 * sym (byte ':')) ^ (n + 1) * h16 := by
    rw [pow_succ, mul_assoc (_ ^ n)]
  rw [ls32, mul_add, Language.mem_add, hlonger, mem_pow_h16, mem_counted havoids hdecimal,
    segments_iff]
  refine or_congr (and_congr Iff.rfl eq_comm) ?_
  constructor
  · rintro ⟨pieces, last, hsplit, rfl, hpieces, hlast⟩
    exact ⟨rfl, pieces, last, hsplit, hpieces, hlast, rfl⟩
  · rintro ⟨-, pieces, last, hsplit, hpieces, hlast, hlength⟩
    exact ⟨pieces, last, hsplit, by omega, hpieces, hlast⟩

/-- The right of a `::`, by the units it is worth. -/
theorem mem_rightSide {word : Bytes} {n : Nat} :
    word ∈ rightSide n ↔ ∃ segments, splitIpv6Side word = some segments ∧
      Segments true segments n := by
  match n with
  | 0 =>
    rw [rightSide, Language.mem_one]
    constructor
    · rintro rfl
      exact ⟨[], rfl, .nil⟩
    · rintro ⟨segments, hsplit, h⟩
      cases h
      rcases splitIpv6Side_eq_some.mp hsplit with ⟨h, -⟩ | ⟨-, hsegments, -⟩
      · exact h
      · exact absurd hsegments (List.splitOn_ne_nil _ _)
  | 1 =>
    rw [exists_split_iff fun _ => segments_full, rightSide, segments_iff]
    have hone := @mem_pow_h16 word 0
    rw [pow_zero, one_mul] at hone
    rw [hone]
    constructor
    · rintro ⟨hall, hlength⟩
      exact Or.inl ⟨hall, hlength.symm⟩
    · rintro (⟨hall, hlength⟩ | ⟨-, pieces, last, -, -, -, hlength⟩)
      · exact ⟨hall, hlength.symm⟩
      · omega
  | n + 2 => rw [exists_split_iff fun _ => segments_full, rightSide, mem_pow_ls32]

/-- The nine alternatives of the grammar, as one rule with the number of units behind the `::`. -/
theorem mem_ipv6address {word : Bytes} :
    word ∈ ipv6address ↔ word ∈ rightSide 8 ∨
      ∃ n ≤ 7, word ∈ leftSide (7 - n) * colons * rightSide n := by
  simp only [ipv6address, Language.mem_add]
  have hseven : leftSide (7 - 7) * colons * rightSide 7 =
      colons * (h16 * sym (byte ':')) ^ 5 * ls32 := by
    rw [leftSide, rightSide, one_mul, mul_assoc]
  have hsix : leftSide (7 - 6) * colons * rightSide 6 =
      optional h16 * colons * (h16 * sym (byte ':')) ^ 4 * ls32 := by
    rw [leftSide, rightSide, pow_zero, one_mul, mul_assoc (optional h16 * colons)]
  have hfive : leftSide (7 - 5) * colons * rightSide 5 =
      optional (optional (h16 * sym (byte ':')) ^ 1 * h16) * colons *
        (h16 * sym (byte ':')) ^ 3 * ls32 := by
    rw [leftSide, rightSide, mul_assoc (_ * colons)]
  have hfour : leftSide (7 - 4) * colons * rightSide 4 =
      optional (optional (h16 * sym (byte ':')) ^ 2 * h16) * colons *
        (h16 * sym (byte ':')) ^ 2 * ls32 := by
    rw [leftSide, rightSide, mul_assoc (_ * colons)]
  have hthree : leftSide (7 - 3) * colons * rightSide 3 =
      optional (optional (h16 * sym (byte ':')) ^ 3 * h16) * colons * (h16 * sym (byte ':')) *
        ls32 := by
    rw [leftSide, rightSide, pow_one, mul_assoc (_ * colons)]
  have htwo : leftSide (7 - 2) * colons * rightSide 2 =
      optional (optional (h16 * sym (byte ':')) ^ 4 * h16) * colons * ls32 := by
    rw [leftSide, rightSide, pow_zero, one_mul]
  have hone : leftSide (7 - 1) * colons * rightSide 1 =
      optional (optional (h16 * sym (byte ':')) ^ 5 * h16) * colons * h16 := rfl
  have hnone : leftSide (7 - 0) * colons * rightSide 0 =
      optional (optional (h16 * sym (byte ':')) ^ 6 * h16) * colons := by
    rw [leftSide, rightSide, mul_one]
  rw [← hseven, ← hsix, ← hfive, ← hfour, ← hthree, ← htwo, ← hone, ← hnone]
  constructor
  · rintro ((((((((h | h) | h) | h) | h) | h) | h) | h) | h)
    · exact Or.inl h
    all_goals exact Or.inr ⟨_, by decide, h⟩
  · rintro (h | ⟨n, hn, h⟩)
    · exact Or.inl (Or.inl (Or.inl (Or.inl (Or.inl (Or.inl (Or.inl (Or.inl h)))))))
    · have hcases : n = 0 ∨ n = 1 ∨ n = 2 ∨ n = 3 ∨ n = 4 ∨ n = 5 ∨ n = 6 ∨ n = 7 := by omega
      rcases hcases with rfl | rfl | rfl | rfl | rfl | rfl | rfl | rfl <;>
        simp only [h, true_or, or_true]

/-- The colons between two sides are the first ones. -/
theorem mem_around_colons {word : Bytes} {n k : Nat} :
    word ∈ leftSide n * colons * rightSide k ↔ ∃ before after,
      cut (ascii "::") word = some (before, after) ∧ before ∈ leftSide n ∧ after ∈ rightSide k := by
  constructor
  · rintro ⟨_, ⟨before, hbefore, _, rfl, rfl⟩, after, hafter, rfl⟩
    obtain ⟨segments, hsplit, -⟩ := mem_leftSide.mp hbefore
    refine ⟨before, after, ?_, hbefore, hafter⟩
    exact cut_append_of_first (by decide) (no_colons_inside hsplit) after
  · rintro ⟨before, after, hcut, hbefore, hafter⟩
    rw [cut_eq_some hcut]
    exact Language.append_mem_mul (Language.append_mem_mul hbefore rfl) hafter

/-- A side holds no second `::`. -/
theorem cut_side {side : Bytes} {segments : List Bytes}
    (h : splitIpv6Side side = some segments) : cut (ascii "::") side = none := by
  refine cut_eq_none_of_not_mem fun hinside => no_colons_inside h ?_
  exact hinside.trans (List.prefix_append _ _).isInfix

/-- Without a segment there is none to hold an address of the other kind. -/
theorem segments_some {segments : List Bytes} {units : Nat} :
    Segments (!segments.isEmpty) segments units ↔ Segments true segments units := by
  match segments with
  | [] =>
    constructor
    · rintro ⟨⟩
      exact .nil
    · rintro ⟨⟩
      exact .nil
  | _ :: _ => rfl

/-- The code counts units; the grammar lists where the elision may stand. They agree. -/
theorem validateIpv6Address_iff {word : Bytes} :
    validateIpv6Address word = true ↔ word ∈ ipv6address := by
  rw [mem_ipv6address]
  simp only [mem_around_colons, mem_rightSide]
  unfold validateIpv6Address
  split
  · rename_i hcut
    constructor
    · intro h
      split at h
      · cases h
      · rename_i segments hsplit
        obtain ⟨added, hsegments, hunits⟩ := countUnits_eq_some.mp (beq_iff_eq.mp h)
        rw [show added = 8 by omega] at hsegments
        exact Or.inl ⟨segments, hsplit, hsegments⟩
    · rintro (⟨segments, hsplit, hsegments⟩ | ⟨n, -, before, after, hfound, -⟩)
      · rw [hsplit]
        exact beq_iff_eq.mpr (countUnits_eq_some.mpr ⟨8, hsegments, rfl⟩)
      · rw [hcut] at hfound
        cases hfound
  · rename_i before after hcut
    have hnone : ¬∃ segments, splitIpv6Side word = some segments ∧ Segments true segments 8 := by
      rintro ⟨segments, hsplit, -⟩
      rw [cut_side hsplit] at hcut
      cases hcut
    rw [or_iff_right hnone, hcut]
    constructor
    · intro h
      split at h
      · cases h
      split at h
      · rename_i left right hleft hright
        obtain ⟨total, htotal, hless⟩ := (Option.any_eq_true _ _).mp h
        rw [decide_eq_true_eq] at hless
        obtain ⟨added, hsegments, hunits⟩ := countUnits_eq_some.mp htotal
        have hends : right ≠ [] ∨ (!right.isEmpty) = false := by
          by_cases hnil : right = []
          · exact Or.inr (by rw [hnil]; rfl)
          · exact Or.inl hnil
        obtain ⟨hall, units, hmade, rfl⟩ := (segments_append hends).mp hsegments
        refine ⟨units, by omega, before, after, rfl, mem_leftSide.mpr ⟨left, hleft, hall, by omega⟩,
          right, hright, segments_some.mp hmade⟩
      · cases h
    · rintro ⟨n, hn, _, _, ⟨⟩, hbefore, right, hright, hsegments⟩
      obtain ⟨left, hleft, hall, hlength⟩ := mem_leftSide.mp hbefore
      rw [cut_side hright, hleft, hright]
      dsimp only
      rw [if_neg (by decide), Option.any_eq_true]
      refine ⟨left.length + n, ?_, by rw [decide_eq_true_eq]; omega⟩
      rw [countUnits_eq_some]
      refine ⟨left.length + n, ?_, by omega⟩
      have hends : right ≠ [] ∨ (!right.isEmpty) = false := by
        by_cases hnil : right = []
        · exact Or.inr (by rw [hnil]; rfl)
        · exact Or.inl hnil
      exact (segments_append hends).mpr ⟨hall, n, segments_some.mpr hsegments, rfl⟩

end Cuac.Runtime.Uri

import Mathlib.Algebra.Group.Nat.Defs
import Mathlib.Algebra.Group.Int.Defs
import Mathlib.Data.List.Induction
import Cuac.Lib.Bytes

/-!
# Decimal texts

What `std::to_string` and the integer conversions of `printf` write: the decimal
digits of a number, padded with zeros to a width and preceded by a minus sign
where the number is negative.

Main results:

* `value_decimal` and `value_fixedDigits` — the digits give the number back.
* `fixedDigits_value` — and the number the digits.
* `decimal_value` — and digits without a leading zero are the text of a number.
* `length_decimal_mono` — a smaller number has no more digits.
* `signed_injective` — no two integers share a text.
-/

namespace Cuac.Lib

/-- The ASCII digits. -/
def isDigit (b : UInt8) : Bool :=
  byte '0' ≤ b && b ≤ byte '9'

/-- The last digit of a number. -/
def digit (n : Nat) : UInt8 :=
  UInt8.ofNat (48 + n % 10)

/-- The number a run of digits writes. -/
def value (digits : Bytes) : Nat :=
  digits.foldl (fun seen b => seen * 10 + (b.toNat - 48)) 0

/-- The digits of a number, most significant first; each turn divides by ten. -/
def decimalFrom : Nat → Nat → Bytes
  | 0, n => [digit n]
  | turns + 1, n => if n < 10 then [digit n] else decimalFrom turns (n / 10) ++ [digit n]

/-- The decimal text of a number, without leading zeros. -/
def decimal (n : Nat) : Bytes :=
  decimalFrom n n

/-- The last `width` digits of a number. -/
def fixedDigits : Nat → Nat → Bytes
  | 0, _ => []
  | width + 1, n => fixedDigits width (n / 10) ++ [digit n]

/-- `%0<width>u`: zeros in front up to the width. -/
def padded (width n : Nat) : Bytes :=
  if n < 10 ^ width then fixedDigits width n else decimal n

/-- `std::to_string` of a signed integer. -/
def signed (n : Int) : Bytes :=
  if n < 0 then byte '-' :: decimal n.natAbs else decimal n.natAbs

/-- `%0<width>d`: the sign counts towards the width. -/
def paddedSigned (width : Nat) (n : Int) : Bytes :=
  if n < 0 then byte '-' :: padded (width - 1) n.natAbs else padded width n.natAbs

-- ---------------------------------------------------------------------------
-- Digits and the number they write
-- ---------------------------------------------------------------------------

theorem toNat_digit (n : Nat) : (digit n).toNat = 48 + n % 10 := by
  have hlt : 48 + n % 10 < 256 := by omega
  simp only [digit, UInt8.toNat_ofNat']
  omega

theorem isDigit_digit (n : Nat) : isDigit (digit n) = true := by
  have hdigit := toNat_digit n
  have hlow : (byte '0').toNat = 48 := by decide
  have hhigh : (byte '9').toNat = 57 := by decide
  simp only [isDigit, Bool.and_eq_true, decide_eq_true_eq, UInt8.le_iff_toNat_le]
  omega

/-- One more digit at the end shifts the value by a place. -/
theorem value_append_digit (digits : Bytes) (n : Nat) :
    value (digits ++ [digit n]) = value digits * 10 + n % 10 := by
  simp only [value, List.foldl_append, List.foldl_cons, List.foldl_nil, toNat_digit]
  omega

theorem value_digit {n : Nat} (h : n < 10) : value [digit n] = n := by
  have hvalue := value_append_digit [] n
  rw [List.nil_append] at hvalue
  rw [hvalue]
  simp only [value, List.foldl_nil]
  omega

theorem value_decimalFrom {turns n : Nat} (h : n ≤ turns) : value (decimalFrom turns n) = n := by
  induction turns generalizing n with
  | zero =>
    rw [decimalFrom]
    exact value_digit (by omega)
  | succ turns ih =>
    rw [decimalFrom]
    split
    · rename_i hsmall
      exact value_digit hsmall
    · rw [value_append_digit, ih (by omega)]
      omega

/-- The decimal text of a number has its value. -/
theorem value_decimal (n : Nat) : value (decimal n) = n :=
  value_decimalFrom (Nat.le_refl n)

/-- Two numbers with one decimal text are equal. -/
theorem decimal_injective {m n : Nat} (h : decimal m = decimal n) : m = n := by
  rw [← value_decimal m, h, value_decimal]

/-- A text of fixed width has that width. -/
theorem length_fixedDigits (width n : Nat) : (fixedDigits width n).length = width := by
  induction width generalizing n with
  | zero => rfl
  | succ width ih => rw [fixedDigits, List.length_append, ih, List.length_singleton]

/-- A number that fits a width is read back from its text of that width. -/
theorem value_fixedDigits {width n : Nat} (h : n < 10 ^ width) :
    value (fixedDigits width n) = n := by
  induction width generalizing n with
  | zero =>
    have hzero : n = 0 := by simpa using h
    rw [fixedDigits, hzero]
    rfl
  | succ width ih =>
    have hquotient : n / 10 < 10 ^ width := by
      rw [Nat.div_lt_iff_lt_mul (by omega)]
      rwa [Nat.pow_succ] at h
    rw [fixedDigits, value_append_digit, ih hquotient]
    omega

/-- The codes of the digits. -/
theorem digit_range {b : UInt8} (h : isDigit b = true) : 48 ≤ b.toNat ∧ b.toNat ≤ 57 := by
  have hlow : (byte '0').toNat = 48 := by decide
  have hhigh : (byte '9').toNat = 57 := by decide
  simp only [isDigit, Bool.and_eq_true, decide_eq_true_eq, UInt8.le_iff_toNat_le] at h
  omega

/-- A text by one more digit, whatever its value. -/
theorem value_append_singleton (digits : Bytes) (b : UInt8) :
    value (digits ++ [b]) = value digits * 10 + (b.toNat - 48) := by
  simp only [value, List.foldl_append, List.foldl_cons, List.foldl_nil]

/-- A text of digits has a value below the power of ten of its length. -/
theorem value_lt {digits : Bytes} (h : ∀ b ∈ digits, isDigit b = true) :
    value digits < 10 ^ digits.length := by
  induction digits using List.reverseRecOn with
  | nil => decide
  | append_singleton digits b ih =>
    have hdigit := digit_range (h b (by simp))
    have hrest := ih fun b' hb => h b' (List.mem_append_left _ hb)
    rw [value_append_singleton, List.length_append, List.length_singleton, Nat.pow_succ]
    omega

/-- Digits are those of the number they write. -/
theorem fixedDigits_value {digits : Bytes} (h : ∀ b ∈ digits, isDigit b = true) :
    fixedDigits digits.length (value digits) = digits := by
  induction digits using List.reverseRecOn with
  | nil => rfl
  | append_singleton digits b ih =>
    have hdigit := digit_range (h b (by simp))
    have hrest := ih fun b' hb => h b' (List.mem_append_left _ hb)
    have hlast : digit (value digits * 10 + (b.toNat - 48)) = b := by
      rw [← UInt8.toNat_inj, toNat_digit]
      omega
    rw [value_append_singleton, List.length_append, List.length_singleton, fixedDigits, hlast,
      show (value digits * 10 + (b.toNat - 48)) / 10 = value digits by omega, hrest]

-- ---------------------------------------------------------------------------
-- The bytes of a decimal text
-- ---------------------------------------------------------------------------

theorem isDigit_decimalFrom (turns n : Nat) : ∀ b ∈ decimalFrom turns n, isDigit b = true := by
  induction turns generalizing n with
  | zero =>
    intro b hb
    rw [List.mem_singleton.mp hb]
    exact isDigit_digit n
  | succ turns ih =>
    intro b hb
    rw [decimalFrom] at hb
    split at hb
    · rw [List.mem_singleton.mp hb]
      exact isDigit_digit n
    · rcases List.mem_append.mp hb with hb | hb
      · exact ih _ b hb
      · rw [List.mem_singleton.mp hb]
        exact isDigit_digit n

/-- A decimal text is made of digits. -/
theorem isDigit_decimal (n : Nat) : ∀ b ∈ decimal n, isDigit b = true :=
  isDigit_decimalFrom n n

/-- A text of fixed width is made of digits. -/
theorem isDigit_fixedDigits (width n : Nat) : ∀ b ∈ fixedDigits width n, isDigit b = true := by
  induction width generalizing n with
  | zero =>
    intro b hb
    cases hb
  | succ width ih =>
    intro b hb
    rw [fixedDigits] at hb
    rcases List.mem_append.mp hb with hb | hb
    · exact ih _ b hb
    · rw [List.mem_singleton.mp hb]
      exact isDigit_digit n

/-- Even zero has a digit. -/
theorem decimal_ne_nil (n : Nat) : decimal n ≠ [] := by
  unfold decimal
  cases n with
  | zero => simp [decimalFrom]
  | succ n =>
    rw [decimalFrom]
    split <;> simp

/-- A number is below the power of ten of its length. -/
theorem lt_pow_length_decimal (n : Nat) : n < 10 ^ (decimal n).length := by
  have hvalue := value_lt (isDigit_decimal n)
  rwa [value_decimal] at hvalue

/-- A text of more than one digit has no leading zero. -/
theorem pow_length_decimalFrom_le {turns n : Nat} (hturns : n ≤ turns)
    (h : 1 < (decimalFrom turns n).length) : 10 ^ ((decimalFrom turns n).length - 1) ≤ n := by
  induction turns generalizing n with
  | zero => simp [decimalFrom] at h
  | succ turns ih =>
    rw [decimalFrom] at h ⊢
    split at h
    · simp at h
    · rename_i hlarge
      rw [if_neg hlarge, List.length_append, List.length_singleton, Nat.add_sub_cancel]
      by_cases hlong : 1 < (decimalFrom turns (n / 10)).length
      · have hrest := ih (by omega) hlong
        have hsucc : (decimalFrom turns (n / 10)).length =
            (decimalFrom turns (n / 10)).length - 1 + 1 := by omega
        rw [hsucc, Nat.pow_succ]
        omega
      · have hone : 10 ^ (decimalFrom turns (n / 10)).length ≤ 10 ^ 1 :=
          Nat.pow_le_pow_right (by decide) (by omega)
        omega

/-- The first digit counts with the weight of its place. -/
theorem value_cons (b : UInt8) (digits : Bytes) :
    value (b :: digits) = (b.toNat - 48) * 10 ^ digits.length + value digits := by
  induction digits using List.reverseRecOn with
  | nil => simp [value]
  | append_singleton digits last ih =>
    rw [← List.cons_append, value_append_singleton, ih, value_append_singleton, List.length_append,
      List.length_singleton, Nat.pow_succ, Nat.add_mul, Nat.mul_assoc]
    omega

/-- The decimal text is the text of just the width that the number needs. -/
theorem decimal_eq_fixedDigits (n : Nat) : fixedDigits (decimal n).length n = decimal n := by
  have hvalue := fixedDigits_value (isDigit_decimal n)
  rwa [value_decimal] at hvalue

/-- Digits without a leading zero are the decimal text of the number they write. -/
theorem decimal_value {b : UInt8} {digits : Bytes} (hlead : byte '1' ≤ b)
    (h : ∀ c ∈ b :: digits, isDigit c = true) : decimal (value (b :: digits)) = b :: digits := by
  have hone : (byte '1').toNat = 49 := by decide
  rw [UInt8.le_iff_toNat_le, hone] at hlead
  have hlow : 10 ^ digits.length ≤ value (b :: digits) := by
    rw [value_cons]
    have hproduct := Nat.mul_le_mul_right (10 ^ digits.length) (show 1 ≤ b.toNat - 48 by omega)
    omega
  have hhigh := value_lt h
  have hpos : 0 < (decimal (value (b :: digits))).length :=
    List.length_pos_iff.mpr (decimal_ne_nil _)
  have hlength : (decimal (value (b :: digits))).length = (b :: digits).length := by
    have hless := lt_pow_length_decimal (value (b :: digits))
    have hupper := (Nat.pow_lt_pow_iff_right (by decide : 1 < 10)).mp
      (Nat.lt_of_le_of_lt hlow hless)
    by_contra hdiffers
    rw [List.length_cons] at hdiffers hhigh
    have hmore : 1 < (decimalFrom (value (b :: digits)) (value (b :: digits))).length := by
      unfold decimal at hupper hdiffers
      omega
    have hleast := pow_length_decimalFrom_le (Nat.le_refl _) hmore
    have hlower := (Nat.pow_lt_pow_iff_right (by decide : 1 < 10)).mp
      (Nat.lt_of_le_of_lt hleast hhigh)
    unfold decimal at hupper hdiffers
    omega
  rw [← decimal_eq_fixedDigits, hlength, fixedDigits_value h]

/-- The text of a positive number starts with a digit from one on. -/
theorem decimal_lead {n : Nat} (h : 0 < n) :
    ∃ b digits, decimal n = b :: digits ∧ byte '1' ≤ b := by
  obtain ⟨b, digits, hsplit⟩ := List.exists_cons_of_ne_nil (decimal_ne_nil n)
  refine ⟨b, digits, hsplit, ?_⟩
  have hdigit := digit_range (isDigit_decimal n b (by rw [hsplit]; exact List.mem_cons_self))
  by_contra hzero
  rw [UInt8.le_iff_toNat_le, show (byte '1').toNat = 49 by decide] at hzero
  have hvalue := value_decimal n
  rw [hsplit, value_cons, show b.toNat - 48 = 0 by omega, Nat.zero_mul, Nat.zero_add] at hvalue
  have hless : value digits < 10 ^ digits.length := by
    refine value_lt fun c hc => isDigit_decimal n c ?_
    rw [hsplit]
    exact List.mem_cons_of_mem _ hc
  by_cases hone : 1 < (decimalFrom n n).length
  · have hleast := pow_length_decimalFrom_le (Nat.le_refl n) hone
    rw [show decimalFrom n n = b :: digits from hsplit, List.length_cons, Nat.add_sub_cancel] at hleast
    omega
  · rw [show decimalFrom n n = b :: digits from hsplit, List.length_cons] at hone
    rw [List.length_eq_zero_iff.mp (by omega : digits.length = 0)] at hvalue
    rw [← hvalue] at h
    exact absurd h (by decide)

/-- Digits and the minus sign. -/
theorem mem_signed {n : Int} {b : UInt8} (h : b ∈ signed n) : isDigit b = true ∨ b = byte '-' := by
  unfold signed at h
  split at h
  · rcases List.mem_cons.mp h with rfl | h
    · exact Or.inr rfl
    · exact Or.inl (isDigit_decimal _ b h)
  · exact Or.inl (isDigit_decimal _ b h)

/-- A decimal text has no sign. -/
theorem minus_not_mem_decimal (n : Nat) (rest : Bytes) : decimal n ≠ byte '-' :: rest := by
  intro h
  have hdigit := isDigit_decimal n (byte '-') (by rw [h]; exact List.mem_cons_self)
  exact absurd hdigit (by decide)

/-- Two integers with one signed text are equal. -/
theorem signed_injective {m n : Int} (h : signed m = signed n) : m = n := by
  unfold signed at h
  split at h
  · split at h
    · have habs := decimal_injective (List.cons.inj h).2
      omega
    · exact absurd h.symm (minus_not_mem_decimal _ _)
  · split at h
    · exact absurd h (minus_not_mem_decimal _ _)
    · have habs := decimal_injective h
      omega

/-- An integer that is not negative and fits the width has no sign. -/
theorem paddedSigned_of_fits {width : Nat} {n : Int} (h0 : 0 ≤ n) (h : n < 10 ^ width) :
    paddedSigned width n = fixedDigits width n.natAbs := by
  have hfits : n.natAbs < 10 ^ width := by
    have hcast : ((10 ^ width : Nat) : Int) = (10 : Int) ^ width := by push_cast; rfl
    omega
  rw [paddedSigned, if_neg (by omega), padded, if_pos hfits]

end Cuac.Lib

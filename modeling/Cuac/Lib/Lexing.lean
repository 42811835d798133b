import Mathlib.Data.List.TakeWhile
import Cuac.Lib.Escape

/-!
# Reading texts left to right

What hand-written scanners do with a byte string: skip the longest run of some
bytes, cut a line at the first CRLF, and read or write hexadecimal numbers.

Main results:

* `dropWhile_append` — a run is skipped up to its end, no further.
* `splitCrlf_eq_some` — the first CRLF ends a line without carriage returns.
* `cut_unique` — a text is cut at a delimiter in one way.
* `hexNumber_hexadecimal` — the digits of a number give it back.
-/

namespace Cuac.Lib

-- ---------------------------------------------------------------------------
-- Runs
-- ---------------------------------------------------------------------------

/-- `rest` does not go on with a byte of the run. -/
def Stops (p : UInt8 → Bool) (rest : Bytes) : Prop :=
  ∀ b, rest.head? = some b → p b = false

/-- At the end of the text everything stops. -/
theorem Stops.nil (p : UInt8 → Bool) : Stops p [] := by
  intro b hb
  cases hb

theorem Stops.cons {p : UInt8 → Bool} {b : UInt8} {rest : Bytes} (h : p b = false) :
    Stops p (b :: rest) := by
  intro c hc
  obtain rfl := Option.some.inj hc
  exact h

/-- Where dropping ends, it would go no further. -/
theorem stops_dropWhile (p : UInt8 → Bool) (text : Bytes) : Stops p (text.dropWhile p) := by
  intro b hb
  have := List.head?_dropWhile_not p text
  rw [hb] at this
  simpa using this

/-- Nothing is dropped where it stops at once. -/
theorem dropWhile_of_stops {p : UInt8 → Bool} {rest : Bytes} (h : Stops p rest) :
    rest.dropWhile p = rest := by
  cases rest with
  | nil => rfl
  | cons b rest => rw [List.dropWhile_cons, if_neg (by simp [h b rfl])]

/-- A run is skipped up to its end, no further. -/
theorem dropWhile_append {p : UInt8 → Bool} {run rest : Bytes} (hrun : ∀ b ∈ run, p b = true)
    (hrest : Stops p rest) : (run ++ rest).dropWhile p = rest := by
  rw [List.dropWhile_append_of_pos hrun, dropWhile_of_stops hrest]

-- ---------------------------------------------------------------------------
-- Lines
-- ---------------------------------------------------------------------------

def cr : UInt8 := 0x0D

def lf : UInt8 := 0x0A

/-- The line end of the protocols. -/
def crlf : Bytes := [cr, lf]

/-- The text before and after the first CRLF. -/
def splitCrlf : Bytes → Option (Bytes × Bytes)
  | [] => none
  | b :: rest =>
    if b == cr && rest.head? == some lf then some ([], rest.tail)
    else (splitCrlf rest).map fun cut => (b :: cut.1, cut.2)

/-- A cut at a line end puts the text together again. -/
theorem splitCrlf_sound {text line rest : Bytes} (h : splitCrlf text = some (line, rest)) :
    text = line ++ crlf ++ rest := by
  induction text generalizing line with
  | nil => cases h
  | cons b tail ih =>
    rw [splitCrlf] at h
    split at h
    · rename_i hcut
      simp only [Bool.and_eq_true, beq_iff_eq] at hcut
      obtain ⟨rfl, hlf⟩ := hcut
      obtain ⟨rfl, rfl⟩ := Prod.mk.inj (Option.some.inj h)
      cases tail with
      | nil => cases hlf
      | cons c tail =>
        obtain rfl := Option.some.inj hlf
        rfl
    · obtain ⟨⟨line', rest'⟩, hcut, heq⟩ := Option.map_eq_some_iff.mp h
      obtain ⟨rfl, rfl⟩ := Prod.mk.inj heq
      rw [ih hcut]
      rfl

/-- The first CRLF ends a line without carriage returns. -/
theorem splitCrlf_eq_some {line : Bytes} (hline : cr ∉ line) (rest : Bytes) :
    splitCrlf (line ++ crlf ++ rest) = some (line, rest) := by
  induction line with
  | nil => rfl
  | cons b line ih =>
    have hb : b ≠ cr := fun h => hline (h ▸ List.mem_cons_self)
    have hline : cr ∉ line := fun h => hline (List.mem_cons_of_mem b h)
    rw [List.cons_append, List.cons_append, splitCrlf, if_neg, ih hline]
    · rfl
    · simp [hb]

/-- A text is cut at the first occurrence of a delimiter in one way. -/
theorem cut_unique {d : UInt8} {a b x y : Bytes} (ha : d ∉ a) (hb : d ∉ b)
    (h : a ++ d :: x = b ++ d :: y) : a = b ∧ x = y := by
  induction a generalizing b with
  | nil =>
    cases b with
    | nil => exact ⟨rfl, (List.cons.inj h).2⟩
    | cons c b =>
      have hc := (List.cons.inj h).1
      exact absurd List.mem_cons_self (hc ▸ hb)
  | cons c a ih =>
    have hrest : d ∉ a := fun h => ha (List.mem_cons_of_mem c h)
    cases b with
    | nil =>
      have hc := (List.cons.inj h).1
      exact absurd List.mem_cons_self (hc ▸ ha)
    | cons c' b =>
      obtain ⟨rfl, htail⟩ := List.cons.inj h
      have hrest' : d ∉ b := fun h => hb (List.mem_cons_of_mem c h)
      obtain ⟨rfl, hxy⟩ := ih hrest hrest' htail
      exact ⟨rfl, hxy⟩

-- ---------------------------------------------------------------------------
-- Hexadecimal numbers
-- ---------------------------------------------------------------------------

/-- The digits of a hexadecimal number, in upper or lower case. -/
def isHexDigit (b : UInt8) : Bool :=
  (hexValue b).isSome

/-- The number a run of hexadecimal digits writes. -/
def hexNumber (digits : Bytes) : Nat :=
  digits.foldl (fun seen b => seen * 16 + ((hexValue b).getD 0).toNat) 0

/-- The digits of a number, most significant first; each turn divides by sixteen. -/
def hexadecimalFrom : Nat → Nat → Bytes
  | 0, n => [hexDigit (UInt8.ofNat (n % 16))]
  | turns + 1, n =>
    if n < 16 then [hexDigit (UInt8.ofNat (n % 16))]
    else hexadecimalFrom turns (n / 16) ++ [hexDigit (UInt8.ofNat (n % 16))]

/-- The hexadecimal text of a number, without leading zeros. -/
def hexadecimal (n : Nat) : Bytes :=
  hexadecimalFrom n n

/-- A hexadecimal digit has the value that it was written for. -/
theorem hexValue_hexDigit {n : Nat} (h : n < 16) :
    hexValue (hexDigit (UInt8.ofNat n)) = some (UInt8.ofNat n) := by
  have hall : ∀ n : Fin 16, hexValue (hexDigit (UInt8.ofNat n)) = some (UInt8.ofNat n) := by
    decide +kernel
  exact hall ⟨n, h⟩

/-- One more digit at the end shifts the value by a place. -/
theorem hexNumber_append_digit (digits : Bytes) (n : Nat) :
    hexNumber (digits ++ [hexDigit (UInt8.ofNat (n % 16))]) = hexNumber digits * 16 + n % 16 := by
  have hdigit := hexValue_hexDigit (n := n % 16) (by omega)
  simp only [hexNumber, List.foldl_append, List.foldl_cons, List.foldl_nil, hdigit,
    Option.getD_some, UInt8.toNat_ofNat']
  omega

theorem hexNumber_hexadecimalFrom {turns n : Nat} (h : n ≤ turns) :
    hexNumber (hexadecimalFrom turns n) = n := by
  have hone (m : Nat) (hm : m < 16) : hexNumber [hexDigit (UInt8.ofNat (m % 16))] = m := by
    have hvalue := hexNumber_append_digit [] m
    rw [List.nil_append] at hvalue
    rw [hvalue]
    simp only [hexNumber, List.foldl_nil]
    omega
  induction turns generalizing n with
  | zero =>
    rw [hexadecimalFrom]
    exact hone n (by omega)
  | succ turns ih =>
    rw [hexadecimalFrom]
    split
    · rename_i hsmall
      exact hone n hsmall
    · rw [hexNumber_append_digit, ih (by omega)]
      omega

/-- The hexadecimal text of a number has its value. -/
theorem hexNumber_hexadecimal (n : Nat) : hexNumber (hexadecimal n) = n :=
  hexNumber_hexadecimalFrom (Nat.le_refl n)

/-- A hexadecimal text is made of hexadecimal digits. -/
theorem isHexDigit_hexadecimalFrom (turns n : Nat) :
    ∀ b ∈ hexadecimalFrom turns n, isHexDigit b = true := by
  have hdigit (m : Nat) : isHexDigit (hexDigit (UInt8.ofNat (m % 16))) = true := by
    rw [isHexDigit, hexValue_hexDigit (by omega)]
    rfl
  induction turns generalizing n with
  | zero =>
    intro b hb
    rw [List.mem_singleton.mp hb]
    exact hdigit n
  | succ turns ih =>
    intro b hb
    rw [hexadecimalFrom] at hb
    split at hb
    · rw [List.mem_singleton.mp hb]
      exact hdigit n
    · rcases List.mem_append.mp hb with hb | hb
      · exact ih _ b hb
      · rw [List.mem_singleton.mp hb]
        exact hdigit n

/-- Even zero has a digit. -/
theorem hexadecimal_ne_nil (n : Nat) : hexadecimal n ≠ [] := by
  unfold hexadecimal
  cases n with
  | zero => simp [hexadecimalFrom]
  | succ n =>
    rw [hexadecimalFrom]
    split <;> simp

end Cuac.Lib

import Mathlib.Tactic.Common

/-!
# Byte strings

`std::string` is a sequence of bytes, not of characters: lengths, comparisons
and the encoders all see bytes. `Bytes` is that type; `ascii` and `byte` write
ASCII literals of the source.

A fact about every byte is a fact about 256 of them; `forall_byte` reduces it to
a decidable one.
-/

namespace Cuac.Lib

/-- A `std::string`. -/
abbrev Bytes := List UInt8

/-- The bytes of an ASCII literal. -/
def ascii (literal : String) : Bytes :=
  literal.toList.map fun c => UInt8.ofNat c.toNat

/-- The byte of an ASCII character. -/
def byte (c : Char) : UInt8 :=
  UInt8.ofNat c.toNat

theorem nibbles (b : UInt8) :
    UInt8.ofNat (16 * (b.toNat / 16) + b.toNat % 16) = b ∧ b.toNat / 16 ∈ List.range 16 ∧
      b.toNat % 16 ∈ List.range 16 := by
  have hb := b.toNat_lt
  simp only [List.mem_range]
  refine ⟨?_, by omega, by omega⟩
  rw [Nat.div_add_mod, UInt8.ofNat_toNat]

theorem forall_byte {P : UInt8 → Prop} [DecidablePred P]
    (h : ((List.range 16).all fun high => (List.range 16).all fun low =>
      P (UInt8.ofNat (16 * high + low))) = true) (b : UInt8) : P b := by
  obtain ⟨hb, hhigh, hlow⟩ := nibbles b
  have hall := List.all_eq_true.mp (List.all_eq_true.mp h _ hhigh) _ hlow
  rwa [hb, decide_eq_true_eq] at hall

/-- What a partial map on bytes gives is looked at where it gives something. -/
theorem forall_byte_some {f : UInt8 → Option UInt8} {P : UInt8 → UInt8 → Prop}
    [∀ b c, Decidable (P b c)]
    (h : ((List.range 16).all fun high => (List.range 16).all fun low =>
      (f (UInt8.ofNat (16 * high + low))).all (P (UInt8.ofNat (16 * high + low)))) = true)
    (b c : UInt8) (hf : f b = some c) : P b c := by
  obtain ⟨hb, hhigh, hlow⟩ := nibbles b
  have hall := List.all_eq_true.mp (List.all_eq_true.mp h _ hhigh) _ hlow
  rw [hb, hf] at hall
  exact of_decide_eq_true hall

/-- A fact about the bytes of one text. -/
theorem forall_mem_byte {text : Bytes} {P : UInt8 → Prop} [DecidablePred P]
    (h : text.all (fun b => P b) = true) : ∀ b ∈ text, P b :=
  fun b hb => of_decide_eq_true (List.all_eq_true.mp h b hb)

/-- ASCII letters, digits and the four marks that never need an escape. -/
def isUnreserved (b : UInt8) : Bool :=
  (byte 'a' ≤ b && b ≤ byte 'z') || (byte 'A' ≤ b && b ≤ byte 'Z') ||
    (byte '0' ≤ b && b ≤ byte '9') || b == byte '-' || b == byte '.' || b == byte '_' ||
    b == byte '~'

end Cuac.Lib

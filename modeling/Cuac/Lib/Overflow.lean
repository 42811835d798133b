import Cuac.Lib.Checked

/-!
# Arithmetic that is watched

A `Watched` computation is a function of the `bool Try...(..., T *result)` kind
whose arithmetic is looked at step by step: it returns, it refuses, or one of its
operations leaves the type it is done in. `int64`, `uint64` and `uint32` pass on
the result of one operation that stays inside; with an `s` they take the values of
an expression in the order in which it is computed.

Main results:

* `int64_ok`, `uint64_ok`, `uint32_ok` — an operation that stays inside goes on.
* `Watched.Answers.bind`, `Watched.Answers.orElse` — a sequence and a choice of
  computations that do not overflow do not overflow.
-/

namespace Cuac.Lib

/-- How a function that watches its arithmetic can fail. -/
inductive Stop
  /-- The function answers `false`. -/
  | refused
  /-- The result of an operation is not a value of its type. -/
  | overflow
  deriving DecidableEq, Repr

/-- The result of arithmetic on a machine type that is refused when it leaves the type. -/
abbrev Watched (α : Type) : Type := Except Stop α

namespace Watched

variable {α : Type}

/-- An operation whose result has to lie between two bounds. -/
def within (low high n : Int) : Watched Int :=
  if low ≤ n ∧ n ≤ high then .ok n else .error .overflow

/-- `return false` -/
def refuseIf (bad : Bool) : Watched Unit := throwIf bad Stop.refused

/-- A function that only answers. -/
def ofOption : Option α → Watched α
  | some a => .ok a
  | none => .error .refused

/-- `first || second` -/
def orElse (first second : Watched α) : Watched α :=
  match first with
  | .error .refused => second
  | ended => ended

end Watched

/-- An expression of several operations: every value on the way, and its own last. -/
def Watched.eachWithin (low high : Int) (steps : List Int) : Watched Int :=
  if ∀ n ∈ steps, low ≤ n ∧ n ≤ high then .ok (steps.getLastD 0) else .error .overflow

/-- A result of a signed 64-bit operation. -/
def int64 : Int → Watched Int := Watched.within (-9223372036854775808) 9223372036854775807

/-- A result of an unsigned 64-bit operation. -/
def uint64 : Int → Watched Int := Watched.within 0 18446744073709551615

/-- A result of an unsigned 32-bit operation. -/
def uint32 : Int → Watched Int := Watched.within 0 4294967295

/-- The last result of an expression whose steps are all signed 32-bit operations. -/
def int32s : List Int → Watched Int := Watched.eachWithin (-2147483648) 2147483647

/-- The last result of an expression whose steps are all signed 64-bit operations. -/
def int64s : List Int → Watched Int :=
  Watched.eachWithin (-9223372036854775808) 9223372036854775807

/-- The last result of an expression whose steps are all unsigned 64-bit operations. -/
def uint64s : List Int → Watched Int := Watched.eachWithin 0 18446744073709551615

/-- The last result of an expression whose steps are all unsigned 32-bit operations. -/
def uint32s : List Int → Watched Int := Watched.eachWithin 0 4294967295

theorem int64_ok {n : Int} (h : -9223372036854775808 ≤ n ∧ n ≤ 9223372036854775807) :
    int64 n = .ok n := if_pos h

theorem uint64_ok {n : Int} (h : 0 ≤ n ∧ n ≤ 18446744073709551615) : uint64 n = .ok n := if_pos h

theorem uint32_ok {n : Int} (h : 0 ≤ n ∧ n ≤ 4294967295) : uint32 n = .ok n := if_pos h

theorem int32s_ok {steps : List Int}
    (h : ∀ n ∈ steps, -2147483648 ≤ n ∧ n ≤ 2147483647) :
    int32s steps = .ok (steps.getLastD 0) := if_pos h

theorem int64s_ok {steps : List Int}
    (h : ∀ n ∈ steps, -9223372036854775808 ≤ n ∧ n ≤ 9223372036854775807) :
    int64s steps = .ok (steps.getLastD 0) := if_pos h

theorem uint64s_ok {steps : List Int} (h : ∀ n ∈ steps, 0 ≤ n ∧ n ≤ 18446744073709551615) :
    uint64s steps = .ok (steps.getLastD 0) := if_pos h

theorem uint32s_ok {steps : List Int} (h : ∀ n ∈ steps, 0 ≤ n ∧ n ≤ 4294967295) :
    uint32s steps = .ok (steps.getLastD 0) := if_pos h

namespace Watched

variable {α β : Type}

/-- A guard that lets the computation go on. -/
theorem refuseIf_false : refuseIf false = .ok () := rfl

/-- The computation refuses or returns a value with the property; it does not overflow. -/
def Answers (P : α → Prop) (x : Watched α) : Prop :=
  x = .error .refused ∨ ∃ a, x = .ok a ∧ P a

/-- A refusal is an answer. -/
theorem Answers.refused {P : α → Prop} : Answers P (.error .refused) := Or.inl rfl

/-- A value with the property is an answer. -/
theorem Answers.ok {P : α → Prop} {a : α} (h : P a) : Answers P (.ok a) := Or.inr ⟨a, rfl, h⟩

/-- The rule of consequence. -/
theorem Answers.imp {P Q : α → Prop} {x : Watched α} (hx : Answers P x) (h : ∀ a, P a → Q a) :
    Answers Q x := by
  rcases hx with rfl | ⟨a, rfl, ha⟩
  · exact Or.inl rfl
  · exact Or.inr ⟨a, rfl, h a ha⟩

/-- The rule of sequencing. -/
theorem Answers.bind {P : α → Prop} {Q : β → Prop} {x : Watched α} {f : α → Watched β}
    (hx : Answers P x) (hf : ∀ a, P a → Answers Q (f a)) : Answers Q (x >>= f) := by
  rcases hx with rfl | ⟨a, rfl, ha⟩
  · exact Or.inl rfl
  · exact hf a ha

/-- Behind a refusal its condition is known to be false. -/
theorem Answers.refuseIf {P : β → Prop} {bad : Bool} {f : Unit → Watched β}
    (hf : bad = false → Answers P (f ())) : Answers P (Watched.refuseIf bad >>= f) := by
  cases bad with
  | false => exact hf rfl
  | true => exact Or.inl rfl

theorem Answers.ofOption {P : α → Prop} {a? : Option α} (h : ∀ a, a? = some a → P a) :
    Answers P (Watched.ofOption a?) := by
  match a?, h with
  | none, _ => exact Or.inl rfl
  | some a, h => exact Or.inr ⟨a, rfl, h a rfl⟩

/-- The alternative answers when both sides do. -/
theorem Answers.orElse {P : α → Prop} {first second : Watched α} (hfirst : Answers P first)
    (hsecond : Answers P second) : Answers P (Watched.orElse first second) := by
  rcases hfirst with rfl | ⟨a, rfl, ha⟩
  · exact hsecond
  · exact Or.inr ⟨a, rfl, ha⟩

/-- A computation without a result that goes on exactly if the property holds, and
refuses otherwise; it does not overflow. -/
def Decides (P : Prop) (x : Watched Unit) : Prop :=
  (x = .ok () ∧ P) ∨ (x = .error .refused ∧ ¬P)

/-- The condition that is decided may be put in other words. -/
theorem Decides.congr {P Q : Prop} {x : Watched Unit} (h : Decides P x) (hiff : P ↔ Q) :
    Decides Q x := by
  rw [Decides, ← hiff]
  exact h

/-- Two checks in a row decide the conjunction. -/
theorem Decides.bind {P Q : Prop} {x : Watched Unit} {f : Unit → Watched Unit} (hx : Decides P x)
    (hf : P → Decides Q (f ())) : Decides (P ∧ Q) (x >>= f) := by
  rcases hx with ⟨rfl, hP⟩ | ⟨rfl, hP⟩
  · rcases hf hP with ⟨h, hQ⟩ | ⟨h, hQ⟩
    · exact Or.inl ⟨h, hP, hQ⟩
    · exact Or.inr ⟨h, fun hboth => hQ hboth.2⟩
  · exact Or.inr ⟨rfl, fun hboth => hP hboth.1⟩

end Watched

end Cuac.Lib

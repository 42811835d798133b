import Mathlib.Tactic.Common

/-!
# Programs that change a state and may throw

`Throwing σ ε` is the shape of a C++ call on an object: it returns or throws,
and either way it leaves a state behind. `Yields m s Q E` says how `m` ends from
`s`: what it returns satisfies `Q`, what it throws satisfies `E`. The simp
lemmas take it through the statements of a `do` block, so a proof about a
program follows its text.

Main results:

* `yields_bind` — a sequence ends as its second part does, or throws in its first.
* `Yields.mono` — the rule of consequence.
-/

namespace Cuac.Lib

variable {σ ε α β : Type}

/-- A computation over a state that stays where it is when an exception leaves the function. -/
def Throwing (σ ε α : Type) : Type := σ → Except ε α × σ

namespace Throwing

instance : Monad (Throwing σ ε) where
  pure a := fun s => (.ok a, s)
  bind m f := fun s =>
    match m s with
    | (.ok a, s) => f a s
    | (.error e, s) => (.error e, s)

/-- Reads the state. -/
def get : Throwing σ ε σ := fun s => (.ok s, s)

/-- Changes the state. -/
def modify (f : σ → σ) : Throwing σ ε Unit := fun s => (.ok (), f s)

/-- Throws, with the state as it stands. -/
def throw (e : ε) : Throwing σ ε α := fun s => (.error e, s)

/-- `if (bad) throw e;` -/
def throwWhen (bad : Bool) (e : ε) : Throwing σ ε Unit :=
  if bad then throw e else pure ()

/-- How a program ends from a state. -/
def Yields (m : Throwing σ ε α) (s : σ) (Q : α → σ → Prop) (E : ε → σ → Prop) : Prop :=
  match m s with
  | (.ok a, s) => Q a s
  | (.error e, s) => E e s

variable {m : Throwing σ ε α} {f : α → Throwing σ ε β} {s : σ} {E : ε → σ → Prop}

@[simp] theorem yields_pure {a : α} {Q : α → σ → Prop} :
    Yields (pure a : Throwing σ ε α) s Q E ↔ Q a s := Iff.rfl

/-- The rule of sequencing: the second part starts where the first one ended. -/
@[simp] theorem yields_bind {Q : β → σ → Prop} :
    Yields (m >>= f) s Q E ↔ Yields m s (fun a s => Yields (f a) s Q E) E := by
  unfold Yields
  show (match (match m s with
    | (.ok a, s) => f a s
    | (.error e, s) => (.error e, s)) with
    | (.ok a, s) => Q a s
    | (.error e, s) => E e s) ↔ _
  cases m s with
  | mk result s' => cases result <;> rfl

@[simp] theorem yields_get {Q : σ → σ → Prop} :
    Yields (get : Throwing σ ε σ) s Q E ↔ Q s s := Iff.rfl

@[simp] theorem yields_modify {g : σ → σ} {Q : Unit → σ → Prop} :
    Yields (modify g : Throwing σ ε Unit) s Q E ↔ Q () (g s) := Iff.rfl

@[simp] theorem yields_throw {e : ε} {Q : α → σ → Prop} :
    Yields (throw e : Throwing σ ε α) s Q E ↔ E e s := Iff.rfl

/-- The rule of a check: it throws when the condition is bad and goes on otherwise. -/
@[simp] theorem yields_throwWhen {bad : Bool} {e : ε} {Q : Unit → σ → Prop} :
    Yields (throwWhen bad e : Throwing σ ε Unit) s Q E ↔
      (bad = true → E e s) ∧ (bad = false → Q () s) := by
  cases bad <;> simp [throwWhen]

/-- The rule of consequence. -/
theorem Yields.mono {Q Q' : α → σ → Prop} {E' : ε → σ → Prop} (h : Yields m s Q E)
    (hQ : ∀ a s, Q a s → Q' a s) (hE : ∀ e s, E e s → E' e s) : Yields m s Q' E' := by
  unfold Yields at *
  cases hm : m s with
  | mk result s' =>
    rw [hm] at h
    cases result with
    | ok a => exact hQ a s' h
    | error e => exact hE e s' h

/-- Two things that are shown of one run hold together. -/
theorem Yields.and {Q Q' : α → σ → Prop} {E' : ε → σ → Prop} (h : Yields m s Q E)
    (h' : Yields m s Q' E') :
    Yields m s (fun a s => Q a s ∧ Q' a s) fun e s => E e s ∧ E' e s := by
  unfold Yields at *
  cases hm : m s with
  | mk result s' =>
    rw [hm] at h h'
    cases result with
    | ok a => exact ⟨h, h'⟩
    | error e => exact ⟨h, h'⟩

/-- A sequence, by what its first part is known to yield. -/
theorem Yields.bind {R : α → σ → Prop} {Q : β → σ → Prop} (h : Yields m s R E)
    (hf : ∀ a s, R a s → Yields (f a) s Q E) : Yields (m >>= f) s Q E :=
  yields_bind.mpr (h.mono hf fun _ _ he => he)

end Throwing

end Cuac.Lib

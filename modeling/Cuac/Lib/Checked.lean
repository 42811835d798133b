import Mathlib.Data.List.Forall2
import Cuac.Lib.Bytes

/-!
# Checked computations

Code that validates and throws: a computation either returns or stops with what
it threw. `throwIf` is one guard, `forEach` is a loop that produces one result
for each element, and `Checked` is the type of the values a validating
constructor lets through.

Main results:

* `bind_eq_ok` and `throwIf_eq_ok` — what a run that returned went through.
* `forEach_eq_ok` — a loop returned exactly when every turn did.
* `Checked.make_eq_ok` — a constructed value carries its own validation.
* `Throws.bind` and `Throws.forEach` — what a run can throw, part by part.
* `Ends.bind` — how a run ends, part by part.
* `Alike.bind` — two runs that end alike, part by part.
-/

namespace Cuac.Lib

variable {α β ε : Type}

/-- A sequence succeeds when both parts do. -/
@[simp] theorem bind_eq_ok {x : Except ε α} {f : α → Except ε β} {r : β} :
    x >>= f = .ok r ↔ ∃ a, x = .ok a ∧ f a = .ok r := by
  cases x with
  | error e => simp [bind, Except.bind]
  | ok a => simp [bind, Except.bind]

theorem ok_bind (a : α) (f : α → Except ε β) : (Except.ok a >>= f) = f a := rfl

@[simp] theorem pure_eq_ok {a r : α} : (pure a : Except ε α) = .ok r ↔ a = r := by
  simp [pure, Except.pure]

/-- `if (bad) throw fault;` -/
def throwIf (bad : Bool) (fault : ε) : Except ε Unit :=
  if bad then .error fault else .ok ()

/-- A check passes when its condition is not met. -/
@[simp] theorem throwIf_eq_ok {bad : Bool} {fault : ε} {u : Unit} :
    throwIf bad fault = .ok u ↔ bad = false := by
  cases bad <;> simp [throwIf]

/-- A loop with one result for each element, in order; the first throw ends it. -/
def forEach (f : α → Except ε β) : List α → Except ε (List β)
  | [] => .ok []
  | x :: rest => do
    let y ← f x
    let ys ← forEach f rest
    pure (y :: ys)

/-- A loop succeeds when each turn does, with the results in the same order. -/
theorem forEach_eq_ok {f : α → Except ε β} {xs : List α} {ys : List β} :
    forEach f xs = .ok ys ↔ List.Forall₂ (fun x y => f x = .ok y) xs ys := by
  induction xs generalizing ys with
  | nil =>
    rw [forEach, List.forall₂_nil_left_iff]
    constructor
    · intro h
      exact (Except.ok.inj h).symm
    · rintro rfl
      rfl
  | cons x rest ih =>
    rw [forEach, List.forall₂_cons_left_iff]
    simp only [bind_eq_ok, pure_eq_ok]
    constructor
    · rintro ⟨y, hy, tail, htail, rfl⟩
      exact ⟨y, tail, hy, ih.mp htail, rfl⟩
    · rintro ⟨y, tail, hy, htail, rfl⟩
      exact ⟨y, hy, tail, ih.mpr htail, rfl⟩

/-- Every turn of a loop that returned did. -/
theorem forEach_of_mem {f : α → Except ε β} {xs : List α} {ys : List β}
    (h : forEach f xs = .ok ys) {x : α} (hx : x ∈ xs) : ∃ y ∈ ys, f x = .ok y := by
  have hall := forEach_eq_ok.mp h
  induction hall with
  | nil => cases hx
  | @cons first y rest ys hone hrest ih =>
    rcases List.mem_cons.mp hx with rfl | hx
    · exact ⟨y, List.mem_cons_self, hone⟩
    · obtain ⟨z, hz, hfz⟩ := ih (forEach_eq_ok.mpr hrest) hx
      exact ⟨z, List.mem_cons_of_mem _ hz, hfz⟩

/-- A loop whose turns all succeed succeeds. -/
theorem forEach_total {f : α → Except ε β} {xs : List α} (h : ∀ x ∈ xs, ∃ y, f x = .ok y) :
    ∃ ys, forEach f xs = .ok ys := by
  induction xs with
  | nil => exact ⟨[], rfl⟩
  | cons x rest ih =>
    obtain ⟨y, hy⟩ := h x List.mem_cons_self
    obtain ⟨ys, hys⟩ := ih fun z hz => h z (List.mem_cons_of_mem _ hz)
    exact ⟨y :: ys, bind_eq_ok.mpr ⟨y, hy, bind_eq_ok.mpr ⟨ys, hys, rfl⟩⟩⟩

/-- Every result of a loop is a turn's. -/
theorem forEach_mem_result {f : α → Except ε β} {xs : List α} {ys : List β}
    (h : forEach f xs = .ok ys) {y : β} (hy : y ∈ ys) : ∃ x ∈ xs, f x = .ok y := by
  have hall := forEach_eq_ok.mp h
  induction hall with
  | nil => cases hy
  | @cons x first rest ys hone hrest ih =>
    rcases List.mem_cons.mp hy with rfl | hy
    · exact ⟨x, List.mem_cons_self, hone⟩
    · obtain ⟨z, hz, hfz⟩ := ih (forEach_eq_ok.mpr hrest) hy
      exact ⟨z, List.mem_cons_of_mem _ hz, hfz⟩

-- ---------------------------------------------------------------------------
-- What is thrown
-- ---------------------------------------------------------------------------

/-- Whatever the computation throws satisfies `P`. -/
def Throws (P : ε → Prop) (x : Except ε α) : Prop :=
  ∀ e, x = .error e → P e

section Throws

variable {P : ε → Prop}

@[simp] theorem throws_pure {a : α} : Throws P (pure a : Except ε α) := by
  intro e h
  cases h

@[simp] theorem throws_error {e : ε} : Throws P (.error e : Except ε α) ↔ P e := by
  constructor
  · intro h
    exact h e rfl
  · intro h e' he'
    rwa [← Except.error.inj he']

@[simp] theorem throws_throwIf {bad : Bool} {fault : ε} :
    Throws P (throwIf bad fault) ↔ (bad = true → P fault) := by
  cases bad with
  | true =>
    show Throws P (.error fault : Except ε Unit) ↔ _
    simp
  | false =>
    show Throws P (pure () : Except ε Unit) ↔ _
    simp

/-- A sequence throws in its first part, or in the rest of a run that got there. -/
theorem Throws.bind {x : Except ε α} {f : α → Except ε β} (hx : Throws P x)
    (hf : ∀ a, x = .ok a → Throws P (f a)) : Throws P (x >>= f) := by
  intro e h
  cases hrun : x with
  | error e' =>
    rw [hrun] at h
    exact hx e (by rw [hrun, ← Except.error.inj h])
  | ok a =>
    rw [hrun] at h
    exact hf a hrun e h

/-- A loop throws only what one of its turns throws. -/
theorem Throws.forEach {f : α → Except ε β} {xs : List α} (hf : ∀ x ∈ xs, Throws P (f x)) :
    Throws P (forEach f xs) := by
  induction xs with
  | nil => exact throws_pure
  | cons x rest ih =>
    rw [Lib.forEach]
    refine Throws.bind (hf x List.mem_cons_self) fun y _ => ?_
    exact Throws.bind (ih fun z hz => hf z (List.mem_cons_of_mem _ hz)) fun _ _ => throws_pure

end Throws

-- ---------------------------------------------------------------------------
-- How a run ends
-- ---------------------------------------------------------------------------

/-- What the computation returns satisfies `Q`, and what it throws satisfies `E`. -/
def Ends (Q : α → Prop) (E : ε → Prop) : Except ε α → Prop
  | .ok a => Q a
  | .error e => E e

section Ends

variable {Q Q' : α → Prop} {E : ε → Prop}

@[simp] theorem ends_ok {a : α} : Ends Q E (.ok a) ↔ Q a := Iff.rfl

@[simp] theorem ends_error {e : ε} : Ends Q E (.error e) ↔ E e := Iff.rfl

/-- The rule of sequencing. -/
theorem Ends.bind {R : α → Prop} {Q : β → Prop} {x : Except ε α} {f : α → Except ε β}
    (hx : Ends R E x) (hf : ∀ a, R a → Ends Q E (f a)) : Ends Q E (x >>= f) := by
  cases x with
  | error e => exact hx
  | ok a => exact hf a hx

/-- The rule of consequence. -/
theorem Ends.mono {x : Except ε α} (hx : Ends Q E x) (h : ∀ a, Q a → Q' a) : Ends Q' E x := by
  cases x with
  | error e => exact hx
  | ok a => exact h a hx

/-- What a successful end satisfies. -/
theorem Ends.of_ok {x : Except ε α} (hx : Ends Q E x) {a : α} (h : x = .ok a) : Q a := by
  rw [h] at hx
  exact hx

/-- What a failing end satisfies. -/
theorem Ends.of_error {x : Except ε α} (hx : Ends Q E x) {e : ε} (h : x = .error e) : E e := by
  rw [h] at hx
  exact hx

/-- Behind a check its condition is known not to be met. -/
theorem Ends.throwIf {bad : Bool} {fault : ε} (h : E fault) :
    Ends (fun _ => bad = false) E (throwIf bad fault) := by
  cases bad with
  | true => exact h
  | false => exact rfl

end Ends

-- ---------------------------------------------------------------------------
-- Two runs
-- ---------------------------------------------------------------------------

/-- Both runs return, related by `R`, or both throw. Nothing is said of the first run
when the second throws something in `E`. -/
def Alike (R : α → β → Prop) (E : ε → Prop) (x : Except ε α) : Except ε β → Prop
  | .ok b => ∃ a, x = .ok a ∧ R a b
  | .error e => E e ∨ ∃ e', x = .error e'

section Alike

variable {γ δ : Type} {R : α → β → Prop} {E : ε → Prop}

theorem Alike.ok {a : α} {b : β} (h : R a b) : Alike R E (.ok a) (.ok b) :=
  ⟨a, rfl, h⟩

/-- Two runs that both fail are alike, whatever their errors. -/
theorem Alike.error {e e' : ε} : Alike R E (.error e : Except ε α) (.error e' : Except ε β) :=
  .inr ⟨e, rfl⟩

/-- A run that fails in an exempt way is alike to any other. -/
theorem Alike.exempt {x : Except ε α} {e : ε} (h : E e) : Alike R E x (.error e : Except ε β) :=
  .inl h

/-- The rule of sequencing. -/
theorem Alike.bind {S : γ → δ → Prop} {x : Except ε α} {y : Except ε β} {f : α → Except ε γ}
    {g : β → Except ε δ} (h : Alike R E x y) (hf : ∀ a b, R a b → Alike S E (f a) (g b)) :
    Alike S E (x >>= f) (y >>= g) := by
  cases y with
  | ok b =>
    obtain ⟨a, rfl, hab⟩ := h
    exact hf a b hab
  | error e =>
    rcases h with h | ⟨e', rfl⟩
    · exact .inl h
    · exact .inr ⟨e', rfl⟩

/-- Where both runs are the same and what they return is related to itself. -/
theorem Alike.refl {R : α → α → Prop} (hR : ∀ a, R a a) (x : Except ε α) : Alike R E x x := by
  cases x with
  | ok a => exact .ok (hR a)
  | error e => exact .error

/-- A check decides the same whatever it throws. -/
theorem Alike.throwIf {bad : Bool} {fault fault' : ε} :
    Alike Eq E (throwIf bad fault) (throwIf bad fault') := by
  cases bad with
  | true => exact .error
  | false => exact .ok rfl

/-- Without exempt errors, what becomes of the errors does not matter. -/
theorem Alike.mapError {ε' : Type} {E' : ε' → Prop} {x : Except ε α} {y : Except ε β}
    {f g : ε → ε'} (h : Alike R (fun _ => False) x y) :
    Alike R E' (x.mapError f) (y.mapError g) := by
  cases y with
  | ok b =>
    obtain ⟨a, rfl, hab⟩ := h
    exact .ok hab
  | error e =>
    obtain ⟨e', rfl⟩ := h.resolve_left id
    exact .error

/-- The rule of consequence. -/
theorem Alike.mono {R' : α → β → Prop} {E' : ε → Prop} {x : Except ε α} {y : Except ε β}
    (h : Alike R E x y) (hR : ∀ a b, R a b → R' a b) (hE : ∀ e, y = .error e → E e → E' e) :
    Alike R' E' x y := by
  cases y with
  | ok b =>
    obtain ⟨a, rfl, hab⟩ := h
    exact .ok (hR a b hab)
  | error e => exact h.imp (hE e rfl) id

/-- Two runs end alike, with what is known of each. -/
theorem Alike.and {Q : α → Prop} {Q' : β → Prop} {T : ε → Prop} {x : Except ε α} {y : Except ε β}
    (h : Alike R E x y) (hx : Ends Q T x) (hy : Ends Q' T y) :
    Alike (fun a b => R a b ∧ Q a ∧ Q' b) E x y := by
  cases y with
  | ok b =>
    obtain ⟨a, rfl, hab⟩ := h
    exact .ok ⟨hab, hx, hy⟩
  | error e => exact h

/-- Two runs that cannot succeed are alike. -/
theorem Alike.of_ends {T : ε → Prop} {x : Except ε α} {y : Except ε β}
    (hx : Ends (fun _ => False) T x) (hy : Ends (fun _ => False) T y) : Alike R E x y := by
  cases x with
  | ok a => exact hx.elim
  | error e =>
    cases y with
    | ok b => exact hy.elim
    | error e' => exact .error

end Alike

/-- What the first run returns the second returns too, up to `R`, and what it throws of
`E` the second throws. -/
def Shadows (R : α → β → Prop) (E : ε → Prop) (y : Except ε β) : Except ε α → Prop
  | .ok a => ∃ b, y = .ok b ∧ R a b
  | .error e => E e → y = .error e

section Shadows

variable {γ δ : Type} {R : α → β → Prop} {E : ε → Prop}

theorem Shadows.ok {a : α} {b : β} (h : R a b) : Shadows R E (.ok b) (.ok a) :=
  ⟨b, rfl, h⟩

/-- An error that is not kept is shadowed by any run. -/
theorem Shadows.error {y : Except ε β} {e : ε} (h : ¬E e) :
    Shadows R E y (.error e : Except ε α) :=
  fun he => absurd he h

/-- The rule of sequencing. -/
theorem Shadows.bind {S : γ → δ → Prop} {x : Except ε α} {y : Except ε β} {f : α → Except ε γ}
    {g : β → Except ε δ} (h : Shadows R E y x) (hf : ∀ a b, R a b → Shadows S E (g b) (f a)) :
    Shadows S E (y >>= g) (x >>= f) := by
  cases x with
  | ok a =>
    obtain ⟨b, rfl, hab⟩ := h
    exact hf a b hab
  | error e =>
    intro he
    rw [h he]
    rfl

/-- A run shadows itself. -/
theorem Shadows.refl {R : α → α → Prop} (hR : ∀ a, R a a) (x : Except ε α) :
    Shadows R E x x := by
  cases x with
  | ok a => exact .ok (hR a)
  | error e => exact fun _ => rfl

end Shadows

-- ---------------------------------------------------------------------------
-- Validating constructors
-- ---------------------------------------------------------------------------

/-- A value that its validation lets through. -/
structure Checked (check : α → Except ε Unit) where
  fields : α
  checked : check fields = .ok ()

namespace Checked

variable {check : α → Except ε Unit}

/-- The validating constructor. -/
def make (check : α → Except ε Unit) (fields : α) : Except ε (Checked check) :=
  match h : check fields with
  | .ok _ => .ok ⟨fields, h⟩
  | .error fault => .error fault

/-- What is made holds the fields that it was made from. -/
theorem make_eq_ok {fields : α} {value : Checked check}
    (h : make check fields = .ok value) : value.fields = fields := by
  unfold make at h
  split at h
  · obtain rfl := Except.ok.inj h
    rfl
  · cases h

/-- Fields that pass the check make a value. -/
theorem make_of_check {fields : α} (h : check fields = .ok ()) :
    make check fields = .ok ⟨fields, h⟩ := by
  unfold make
  split
  · rfl
  · rename_i fault hfault
    rw [h] at hfault
    cases hfault

/-- Making a value throws what the check throws. -/
theorem throws_make {P : ε → Prop} {fields : α} (h : Throws P (check fields)) :
    Throws P (make check fields) := by
  intro e he
  unfold make at he
  split at he
  · cases he
  · rename_i fault hfault
    rw [← Except.error.inj he]
    exact h fault hfault

end Checked

end Cuac.Lib

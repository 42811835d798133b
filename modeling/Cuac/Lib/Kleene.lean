import Mathlib.Data.Multiset.Filter

/-!
# Three-valued logic

Kleene's strong logic, which SQL uses for NULL: a conjunction is the least of
its parts, a disjunction the greatest, and negation exchanges the two ends.

Main results:

* `Truth.all_eq_yes` — a conjunction is true exactly when every part is.
* `Truth.all_eq_of_forall` — a conjunction of equal parts is that part.
* `Truth.all_append` — conjunctions compose.
* `filter_of_implied` — a restriction that every wanted row passes does not
  change what the want selects.
-/

namespace Cuac.Lib

/-- TRUE, NULL or FALSE. -/
inductive Truth
  | yes
  | unknown
  | no
  deriving DecidableEq, Repr

namespace Truth

/-- The truth of a comparison between known values. -/
def ofBool (b : Bool) : Truth := if b then yes else no

/-- The conjunction: false as soon as one side is. -/
def and : Truth → Truth → Truth
  | yes, b => b
  | unknown, no => no
  | unknown, _ => unknown
  | no, _ => no

/-- The disjunction: true as soon as one side is. -/
def or : Truth → Truth → Truth
  | yes, _ => yes
  | unknown, yes => yes
  | unknown, _ => unknown
  | no, b => b

/-- The negation leaves the unknown unknown. -/
def not : Truth → Truth
  | yes => no
  | unknown => unknown
  | no => yes

/-- The conjunction of all the parts. -/
def all (parts : List Truth) : Truth := parts.foldr and yes

/-- The disjunction of all the parts. -/
def any (parts : List Truth) : Truth := parts.foldr or no

@[simp] theorem yes_and (a : Truth) : and yes a = a := rfl

@[simp] theorem and_self (a : Truth) : and a a = a := by cases a <;> rfl

theorem and_assoc (a b c : Truth) : and (and a b) c = and a (and b c) := by
  cases a <;> cases b <;> cases c <;> rfl

/-- A conjunction holds when both sides do. -/
theorem and_eq_yes {a b : Truth} : and a b = yes ↔ a = yes ∧ b = yes := by
  cases a <;> cases b <;> decide

@[simp] theorem all_nil : all [] = yes := rfl

@[simp] theorem all_cons (a : Truth) (rest : List Truth) : all (a :: rest) = and a (all rest) := rfl

/-- The conjunction of a list holds when every part does. -/
theorem all_eq_yes {parts : List Truth} : all parts = yes ↔ ∀ a ∈ parts, a = yes := by
  induction parts with
  | nil => simp
  | cons a rest ih => rw [all_cons, and_eq_yes, ih, List.forall_mem_cons]

/-- A conjunction can be taken over two halves. -/
theorem all_append (left right : List Truth) : all (left ++ right) = and (all left) (all right) := by
  induction left with
  | nil => rfl
  | cons a rest ih => rw [List.cons_append, all_cons, all_cons, ih, and_assoc]

/-- Conjunction is idempotent, however often a part is repeated. -/
theorem all_eq_of_forall {parts : List Truth} {a : Truth} (hne : parts ≠ [])
    (h : ∀ b ∈ parts, b = a) : all parts = a := by
  induction parts with
  | nil => exact absurd rfl hne
  | cons b rest ih =>
    obtain rfl := h b List.mem_cons_self
    rw [all_cons]
    by_cases hrest : rest = []
    · rw [hrest, all_nil]
      cases b <;> rfl
    · rw [ih hrest fun c hc => h c (List.mem_cons_of_mem _ hc), and_self]

end Truth

/-- Filtering first by what every wanted element satisfies changes nothing. -/
theorem filter_of_implied {ρ : Type} {want restriction : ρ → Truth}
    (h : ∀ r, want r = .yes → restriction r = .yes) (base : Multiset ρ) :
    (base.filter fun r => restriction r = .yes).filter (fun r => want r = .yes) =
      base.filter fun r => want r = .yes := by
  rw [Multiset.filter_filter]
  refine Multiset.filter_congr fun r _ => ?_
  exact ⟨fun hboth => hboth.1, fun hwant => ⟨hwant, h r hwant⟩⟩

end Cuac.Lib

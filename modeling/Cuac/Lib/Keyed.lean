import Mathlib.Algebra.GroupWithZero.Nat
import Mathlib.Data.List.Nodup
import Mathlib.Algebra.Order.BigOperators.Group.List
import Mathlib.Algebra.Order.Group.Nat
import Mathlib.Tactic.Common

/-!
# Keyed tables

A hash map seen as a list of key-value pairs without a repeated key. Whatever a
program does to one entry (insert, overwrite, erase) is one `assign`; a total
over the entries moves by what the entry weighed before and after.

Main results:

* `lookup_assign` — an assignment changes its own key and no other.
* `weigh_assign` — and moves a total by the difference at that key.
-/

namespace Cuac.Lib

variable {κ α : Type}

/-- A total over the entries of a table. -/
def weigh (w : α → Nat) (table : List (κ × α)) : Nat :=
  (table.map fun kv => w kv.2).sum

@[simp] theorem weigh_nil (w : α → Nat) : weigh w ([] : List (κ × α)) = 0 := rfl

@[simp] theorem weigh_cons (w : α → Nat) (kv : κ × α) (table : List (κ × α)) :
    weigh w (kv :: table) = w kv.2 + weigh w table := by
  simp [weigh]

variable [DecidableEq κ]

/-- Make `v` what the table holds at `key`: overwrite, insert or erase. -/
def assign (key : κ) (v : Option α) : List (κ × α) → List (κ × α)
  | [] => v.toList.map fun a => (key, a)
  | (k, a) :: rest =>
    if k = key then (v.toList.map fun a => (key, a)) ++ rest else (k, a) :: assign key v rest

/-- A key that is not in the table is not found. -/
theorem lookup_eq_none_of_not_mem {key : κ} {table : List (κ × α)}
    (h : key ∉ table.map Prod.fst) : table.lookup key = none := by
  induction table with
  | nil => rfl
  | cons kv rest ih =>
    obtain ⟨k, a⟩ := kv
    simp only [List.map_cons, List.mem_cons, not_or] at h
    have hk : (key == k) = false := by simpa using h.1
    rw [List.lookup_cons, hk]
    exact ih h.2

/-- What is found under a key stands there. -/
theorem mem_of_lookup {key : κ} {a : α} {table : List (κ × α)} (h : table.lookup key = some a) :
    (key, a) ∈ table := by
  induction table with
  | nil => cases h
  | cons kv rest ih =>
    obtain ⟨k, b⟩ := kv
    rw [List.lookup_cons] at h
    by_cases hk : key = k
    · subst hk
      rw [beq_self_eq_true] at h
      obtain rfl := Option.some.inj h
      exact List.mem_cons_self ..
    · rw [beq_false_of_ne hk] at h
      exact List.mem_cons_of_mem _ (ih h)

/-- When no key is repeated, what stands under a key is found. -/
theorem lookup_of_mem {key : κ} {a : α} {table : List (κ × α)}
    (hnodup : (table.map Prod.fst).Nodup) (h : (key, a) ∈ table) :
    table.lookup key = some a := by
  induction table with
  | nil => cases h
  | cons kv rest ih =>
    obtain ⟨k, b⟩ := kv
    simp only [List.map_cons, List.nodup_cons] at hnodup
    rw [List.lookup_cons]
    rcases List.mem_cons.mp h with heq | hrest
    · obtain ⟨rfl, rfl⟩ := Prod.mk.inj heq
      rw [beq_self_eq_true]
    · have hk : key ≠ k := by
        rintro rfl
        exact hnodup.1 (List.mem_map_of_mem (f := Prod.fst) hrest)
      rw [beq_false_of_ne hk]
      exact ih hnodup.2 hrest

/-- An assignment adds no key but its own. -/
theorem mem_keys_assign {key k : κ} {v : Option α} {table : List (κ × α)}
    (h : k ∈ (assign key v table).map Prod.fst) : k = key ∨ k ∈ table.map Prod.fst := by
  induction table with
  | nil =>
    cases v with
    | none => simp [assign] at h
    | some a => exact Or.inl (by simpa [assign] using h)
  | cons kv rest ih =>
    obtain ⟨k', b⟩ := kv
    rw [assign] at h
    split at h
    · cases v with
      | none => exact Or.inr (List.mem_cons_of_mem _ (by simpa using h))
      | some a =>
        simp only [Option.toList_some, List.map_cons, List.map_nil, List.cons_append,
          List.nil_append, List.mem_cons] at h
        rcases h with h | h
        · exact Or.inl h
        · exact Or.inr (List.mem_cons_of_mem _ h)
    · simp only [List.map_cons, List.mem_cons] at h ⊢
      rcases h with h | h
      · exact Or.inr (Or.inl h)
      · rcases ih h with h | h
        · exact Or.inl h
        · exact Or.inr (Or.inr h)

/-- Assigning to a key repeats no key. -/
theorem nodup_keys_assign {key : κ} {v : Option α} {table : List (κ × α)}
    (hnodup : (table.map Prod.fst).Nodup) : ((assign key v table).map Prod.fst).Nodup := by
  induction table with
  | nil => cases v <;> simp [assign]
  | cons kv rest ih =>
    obtain ⟨k, b⟩ := kv
    simp only [List.map_cons, List.nodup_cons] at hnodup
    rw [assign]
    split
    · rename_i hk
      subst hk
      cases v with
      | none => simpa using hnodup.2
      | some a => simpa using hnodup
    · rename_i hk
      simp only [List.map_cons, List.nodup_cons]
      refine ⟨fun hmem => ?_, ih hnodup.2⟩
      rcases mem_keys_assign hmem with h | h
      · exact hk h
      · exact hnodup.1 h

/-- After an assignment the key has the new value and every other key the old one. -/
theorem lookup_assign {key : κ} {v : Option α} {table : List (κ × α)}
    (hnodup : (table.map Prod.fst).Nodup) (k : κ) :
    (assign key v table).lookup k = if k = key then v else table.lookup k := by
  induction table with
  | nil =>
    by_cases hk : k = key
    · cases v <;> simp [assign, hk]
    · cases v with
      | none => simp [assign, hk]
      | some a => simp [assign, List.lookup_cons, beq_false_of_ne hk, hk]
  | cons kv rest ih =>
    obtain ⟨k', b⟩ := kv
    simp only [List.map_cons, List.nodup_cons] at hnodup
    rw [assign]
    by_cases hkey : k' = key
    · subst hkey
      rw [if_pos rfl]
      by_cases hk : k = k'
      · subst hk
        cases v with
        | none => simpa using lookup_eq_none_of_not_mem hnodup.1
        | some a => simp
      · cases v <;> simp [List.lookup_cons, beq_false_of_ne hk, hk]
    · rw [if_neg hkey, List.lookup_cons, List.lookup_cons, ih hnodup.2]
      by_cases hk : k = k'
      · subst hk
        simp [hkey]
      · simp [beq_false_of_ne hk]

/-- An assignment changes the weight by what the key held and what it holds. -/
theorem weigh_assign (w : α → Nat) (key : κ) (v : Option α) (table : List (κ × α)) :
    weigh w (assign key v table) + ((table.lookup key).map w).getD 0 =
      weigh w table + (v.map w).getD 0 := by
  induction table with
  | nil => cases v <;> simp [assign]
  | cons kv rest ih =>
    obtain ⟨k, b⟩ := kv
    rw [assign, List.lookup_cons]
    by_cases hk : k = key
    · subst hk
      rw [if_pos rfl, beq_self_eq_true]
      cases v <;> simp <;> omega
    · rw [if_neg hk, beq_false_of_ne (Ne.symm hk)]
      simp only [weigh_cons]
      omega

/-- No value weighs more than the whole table. -/
theorem weigh_le_of_lookup {w : α → Nat} {key : κ} {a : α} {table : List (κ × α)}
    (h : table.lookup key = some a) : w a ≤ weigh w table := by
  have hmoved := weigh_assign w key none table
  rw [h] at hmoved
  simp only [Option.map_some, Option.getD_some, Option.map_none, Option.getD_none] at hmoved
  omega

end Cuac.Lib

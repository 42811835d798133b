import Mathlib.Tactic.Common
import Mathlib.Data.List.Basic

/-!
# Three-way comparisons

A comparison by several keys in turn, each of them total, is total; where a key may
be missing, what lacks it comes last. Sorting by a comparison that only equal things
pass, and dropping repetitions, gives one list for every order of the input.

Main results:

* `transCmp_comap`, `transCmp_lastly`, `transCmp_noneLast` — comparisons of a key, and of
  one that may be missing.
* `pairwise_sortUnique`, `mem_sortUnique`, `sortUnique_perm` — the canonical list.
-/

namespace Cuac.Lib

open Std

variable {α β : Type}

-- ---------------------------------------------------------------------------
-- Comparisons
-- ---------------------------------------------------------------------------

def compareUnsigned (left right : Nat) : Ordering :=
  if left < right then .lt else if left > right then .gt else .eq

theorem compareUnsigned_isLE {left right : Nat} :
    (compareUnsigned left right).isLE = true ↔ left ≤ right := by
  unfold compareUnsigned
  split
  · simp only [Ordering.isLE_lt, true_iff]
    omega
  · split
    · simp only [Ordering.isLE_gt, Bool.false_eq_true, false_iff]
      omega
    · simp only [Ordering.isLE_eq, true_iff]
      omega

instance : TransCmp compareUnsigned where
  eq_swap {left right} := by
    unfold compareUnsigned
    split <;> split <;> try split
    all_goals first | rfl | omega
  isLE_trans {a b c} hab hbc := by
    rw [compareUnsigned_isLE] at *
    omega

instance : LawfulEqCmp compareUnsigned where
  compare_self {a} := by
    unfold compareUnsigned
    rw [if_neg (Nat.lt_irrefl a), if_neg (Nat.lt_irrefl a)]
  eq_of_compare {a b} h := by
    unfold compareUnsigned at h
    split at h
    · cases h
    · split at h
      · cases h
      · omega

/-- By a key. -/
def comparing (key : α → β) (cmp : β → β → Ordering) (left right : α) : Ordering :=
  cmp (key left) (key right)

/-- What has a property comes after what has not. -/
def lastly (p : α → Bool) (cmp : α → α → Ordering) (left right : α) : Ordering :=
  if p left != p right then if p left then .gt else .lt else cmp left right

instance transCmp_comap {key : α → β} {cmp : β → β → Ordering} [TransCmp cmp] :
    TransCmp (comparing key cmp) where
  eq_swap {a b} := @OrientedCmp.eq_swap _ cmp _ (key a) (key b)
  isLE_trans {a b c} := @TransCmp.isLE_trans _ cmp _ (key a) (key b) (key c)

/-- A key that tells values apart compares like the values. -/
theorem lawfulEqCmp_comparing {key : α → β} {cmp : β → β → Ordering} [LawfulEqCmp cmp]
    (hkey : Function.Injective key) : LawfulEqCmp (comparing key cmp) where
  compare_self {a} := @ReflCmp.compare_self _ cmp _ (key a)
  eq_of_compare h := hkey (@LawfulEqCmp.eq_of_compare _ cmp _ _ _ h)

theorem lastly_eq (p : α → Bool) (cmp : α → α → Ordering) :
    lastly p cmp = compareLex (comparing (fun a => (p a).toNat) compareUnsigned) cmp := by
  funext left right
  rw [lastly, compareLex, comparing]
  cases p left <;> cases p right <;> rfl

instance transCmp_lastly {p : α → Bool} {cmp : α → α → Ordering} [TransCmp cmp] :
    TransCmp (lastly p cmp) := by
  rw [lastly_eq]
  infer_instance

instance lawfulEqCmp_lastly {p : α → Bool} {cmp : α → α → Ordering} [LawfulEqCmp cmp] :
    LawfulEqCmp (lastly p cmp) where
  compare_self {a} := by
    rw [lastly_eq, compareLex, comparing]
    simp [ReflCmp.compare_self]
  eq_of_compare {a b} h := by
    rw [lastly_eq, compareLex_eq_eq] at h
    exact LawfulEqCmp.eq_of_compare h.2

/-- A missing value comes after every other. -/
def noneLast (cmp : α → α → Ordering) : Option α → Option α → Ordering
  | none, none => .eq
  | none, some _ => .gt
  | some _, none => .lt
  | some left, some right => cmp left right

instance transCmp_noneLast {cmp : α → α → Ordering} [TransCmp cmp] : TransCmp (noneLast cmp) where
  eq_swap {a b} := by
    match a, b with
    | none, none => rfl
    | none, some _ => rfl
    | some _, none => rfl
    | some _, some _ => exact @OrientedCmp.eq_swap _ cmp _ _ _
  isLE_trans {a b c} hab hbc := by
    match a, b, c with
    | none, none, none => rfl
    | some _, _, none => rfl
    | some _, some _, some _ => exact @TransCmp.isLE_trans _ cmp _ _ _ _ hab hbc
    | none, none, some _ => exact hbc
    | none, some _, _ => cases hab
    | some _, none, some _ => cases hbc

instance lawfulEqCmp_noneLast {cmp : α → α → Ordering} [LawfulEqCmp cmp] :
    LawfulEqCmp (noneLast cmp) where
  compare_self {a} := by
    cases a with
    | none => rfl
    | some a => exact @ReflCmp.compare_self _ cmp _ _
  eq_of_compare {a b} h := by
    match a, b with
    | none, none => rfl
    | none, some _ => cases h
    | some _, none => cases h
    | some _, some _ => exact congrArg some (@LawfulEqCmp.eq_of_compare _ cmp _ _ _ h)

-- ---------------------------------------------------------------------------
-- Sorting without repetitions
-- ---------------------------------------------------------------------------

/-- `std::unique` on what follows an element that is kept. -/
def uniqueFrom (cmp : α → α → Ordering) (kept : α) : List α → List α
  | [] => [kept]
  | a :: rest =>
    if cmp kept a == .eq then uniqueFrom cmp kept rest else kept :: uniqueFrom cmp a rest

def unique (cmp : α → α → Ordering) : List α → List α
  | [] => []
  | a :: rest => uniqueFrom cmp a rest

/-- `std::sort`. -/
def sortBy (cmp : α → α → Ordering) (l : List α) : List α := l.mergeSort fun a b => (cmp a b).isLE

/-- `std::sort`, and then `std::unique`. -/
def sortUnique (cmp : α → α → Ordering) (l : List α) : List α := unique cmp (sortBy cmp l)

section Unique

variable {cmp : α → α → Ordering}

theorem length_uniqueFrom_le (kept : α) (l : List α) :
    (uniqueFrom cmp kept l).length ≤ l.length + 1 := by
  induction l generalizing kept with
  | nil => exact Nat.le_refl _
  | cons b l ih =>
    rw [uniqueFrom]
    split
    · exact Nat.le_trans (ih kept) (Nat.le_succ _)
    · exact Nat.succ_le_succ (ih b)

theorem length_sortUnique_le (l : List α) : (sortUnique cmp l).length ≤ l.length := by
  have hlength : (sortBy cmp l).length = l.length := List.length_mergeSort l
  rw [sortUnique, ← hlength]
  match sortBy cmp l with
  | [] => exact Nat.le_refl 0
  | a :: rest => exact length_uniqueFrom_le a rest

theorem mem_uniqueFrom [LawfulEqCmp cmp] {kept a : α} {l : List α} :
    a ∈ uniqueFrom cmp kept l ↔ a = kept ∨ a ∈ l := by
  induction l generalizing kept with
  | nil => simp [uniqueFrom]
  | cons b l ih =>
    rw [uniqueFrom]
    split
    · rename_i heq
      rw [ih, ← LawfulEqCmp.eq_of_compare (beq_iff_eq.mp heq), List.mem_cons]
      tauto
    · rw [List.mem_cons, ih, List.mem_cons]

theorem mem_unique [LawfulEqCmp cmp] {a : α} {l : List α} : a ∈ unique cmp l ↔ a ∈ l := by
  cases l with
  | nil => rfl
  | cons b l => rw [unique, mem_uniqueFrom, List.mem_cons]

variable [TransCmp cmp]

theorem pairwise_sortBy (l : List α) :
    (sortBy cmp l).Pairwise fun a b => (cmp a b).isLE = true := by
  refine List.pairwise_mergeSort (fun a b c => TransCmp.isLE_trans) (fun a b => ?_) l
  rw [Bool.or_eq_true, @OrientedCmp.eq_swap _ cmp _ b]
  cases cmp a b <;> simp

variable [LawfulEqCmp cmp]

/-- What is sorted without ties is sorted in one way. -/
theorem eq_of_sorted {l l' : List α} (hperm : l.Perm l')
    (h : l.Pairwise fun a b => (cmp a b).isLE = true)
    (h' : l'.Pairwise fun a b => (cmp a b).isLE = true) : l = l' := by
  refine hperm.eq_of_pairwise (fun a b _ _ hab hba => ?_) h h'
  exact LawfulEqCmp.eq_of_compare (OrientedCmp.isLE_antisymm hab hba)

/-- The elements before and after a gap are strictly apart. -/
theorem pairwise_uniqueFrom {kept : α} {l : List α}
    (hkept : ∀ a ∈ l, (cmp kept a).isLE = true)
    (h : l.Pairwise fun a b => (cmp a b).isLE = true) :
    (uniqueFrom cmp kept l).Pairwise fun a b => cmp a b = .lt := by
  induction l generalizing kept with
  | nil => exact List.pairwise_singleton _ _
  | cons b l ih =>
    rw [List.forall_mem_cons] at hkept
    rw [List.pairwise_cons] at h
    rw [uniqueFrom]
    split
    · exact ih hkept.2 h.2
    · rename_i hne
      rw [beq_iff_eq] at hne
      have hlt : cmp kept b = .lt := by
        have hle := hkept.1
        revert hle hne
        cases cmp kept b <;> simp
      refine List.pairwise_cons.mpr ⟨fun a ha => ?_, ih h.1 h.2⟩
      rcases mem_uniqueFrom.mp ha with rfl | ha
      · exact hlt
      · exact TransCmp.lt_of_lt_of_isLE hlt (h.1 a ha)

theorem pairwise_sortUnique (l : List α) :
    (sortUnique cmp l).Pairwise fun a b => cmp a b = .lt := by
  have hsorted := @pairwise_sortBy _ cmp _ l
  rw [sortUnique]
  match hl : sortBy cmp l with
  | [] => exact List.Pairwise.nil
  | a :: rest =>
    rw [hl, List.pairwise_cons] at hsorted
    exact pairwise_uniqueFrom hsorted.1 hsorted.2

omit [TransCmp cmp] in
theorem mem_sortUnique {a : α} {l : List α} : a ∈ sortUnique cmp l ↔ a ∈ l := by
  rw [sortUnique, mem_unique, sortBy, List.mem_mergeSort]

theorem nodup_sortUnique (l : List α) : (sortUnique cmp l).Nodup := by
  refine (pairwise_sortUnique l).imp fun {a b} hlt => ?_
  rintro rfl
  rw [@ReflCmp.compare_self _ cmp _ _] at hlt
  cases hlt

/-- The order of the input does not matter. -/
theorem sortUnique_perm {l l' : List α} (h : l.Perm l') : sortUnique cmp l = sortUnique cmp l' := by
  have hsort : sortBy cmp l = sortBy cmp l' := by
    refine eq_of_sorted ?_ (pairwise_sortBy l) (pairwise_sortBy l')
    exact ((List.mergeSort_perm l _).trans h).trans (List.mergeSort_perm l' _).symm
  rw [sortUnique, sortUnique, hsort]

end Unique

end Cuac.Lib

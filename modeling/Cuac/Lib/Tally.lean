import Mathlib.Algebra.GroupWithZero.Nat
import Mathlib.Data.List.Nodup
import Mathlib.Algebra.Order.BigOperators.Group.List
import Mathlib.Algebra.Order.Group.Nat
import Mathlib.Tactic.Common

/-!
# Tallies — tables of per-key machine counters

A tally is a vector of `(hash, key, count)` entries: adding to a key bumps its
entry or appends one, subtracting lowers the entry and erases it at zero. The
counters are 64-bit words that wrap, so a table is only meaningful next to the
list of charges it is supposed to add up; `Tallies` states that relation and
the lemmas here are its introduction and elimination rules.

Main results:

* `Tallies.add` / `Tallies.subtract` — charging and discharging keep a table
  exact, as long as the sum fits a word.
* `Tallies.eq_nil` — a table with nothing charged has no entry left.
-/

namespace Cuac.Lib

-- ---------------------------------------------------------------------------
-- Words
-- ---------------------------------------------------------------------------

/-- A sum that fits is the sum of the numbers. -/
theorem toNat_add_of_lt {a b : UInt64} (h : a.toNat + b.toNat < 2 ^ 64) :
    (a + b).toNat = a.toNat + b.toNat := by
  rw [UInt64.toNat_add, Nat.mod_eq_of_lt h]

theorem toNat_sub_of_toNat_le {a b : UInt64} (h : b.toNat ≤ a.toNat) :
    (a - b).toNat = a.toNat - b.toNat :=
  UInt64.toNat_sub_of_le _ _ (UInt64.le_iff_toNat_le.mpr h)

/-- The smaller of two counters is the smaller of the numbers. -/
theorem toNat_min (a b : UInt64) : (min a b).toNat = min a.toNat b.toNat := by
  show (if a ≤ b then a else b).toNat = _
  by_cases h : a ≤ b
  · rw [if_pos h, min_eq_left (UInt64.le_iff_toNat_le.mp h)]
  · rw [if_neg h, min_eq_right]
    rw [UInt64.le_iff_toNat_le] at h
    omega

/-- The larger of two counters is the larger of the numbers. -/
theorem toNat_max (a b : UInt64) : (max a b).toNat = max a.toNat b.toNat := by
  show (if a ≤ b then b else a).toNat = _
  by_cases h : a ≤ b
  · rw [if_pos h, max_eq_right (UInt64.le_iff_toNat_le.mp h)]
  · rw [if_neg h, max_eq_left]
    rw [UInt64.le_iff_toNat_le] at h
    omega

theorem one_pos_toNat : 0 < (1 : UInt64).toNat := by decide

-- ---------------------------------------------------------------------------
-- The table
-- ---------------------------------------------------------------------------

/-- One entry: the key, its hash and its count. -/
structure KeyCount (κ : Type) where
  hash : UInt64
  key : κ
  count : UInt64
  deriving DecidableEq, Repr

section Table

variable {κ : Type} [DecidableEq κ] (hashOf : κ → UInt64)

/-- Does the entry belong to `key`? The hash is compared first. -/
def KeyCount.isFor (key : κ) (entry : KeyCount κ) : Bool :=
  entry.hash == hashOf key && entry.key == key

/-- The count of a key, zero where it has no entry. -/
def countFor : List (KeyCount κ) → κ → UInt64
  | [], _ => 0
  | entry :: rest, key => if entry.isFor hashOf key then entry.count else countFor rest key

/-- Adds to the count of a key, with a new entry for a key that had none. -/
def addCount : List (KeyCount κ) → κ → UInt64 → List (KeyCount κ)
  | [], key, amount => [⟨hashOf key, key, amount⟩]
  | entry :: rest, key, amount =>
    if entry.isFor hashOf key then { entry with count := entry.count + amount } :: rest
    else entry :: addCount rest key amount

/-- Takes off the count of a key, whose entry goes with its last unit. -/
def subtractCount : List (KeyCount κ) → κ → UInt64 → List (KeyCount κ)
  | [], _, _ => []
  | entry :: rest, key, amount =>
    if entry.isFor hashOf key then
      if entry.count - amount = 0 then rest
      else { entry with count := entry.count - amount } :: rest
    else entry :: subtractCount rest key amount

end Table

-- ---------------------------------------------------------------------------
-- Charges
-- ---------------------------------------------------------------------------

section Charges

variable {κ : Type} [DecidableEq κ]

/-- What a list of charges amounts to on one key. -/
def charged (charges : List (κ × UInt64)) (key : κ) : Nat :=
  ((charges.filter fun c => c.1 = key).map fun c => c.2.toNat).sum

@[simp] theorem charged_nil (key : κ) : charged ([] : List (κ × UInt64)) key = 0 := rfl

theorem charged_cons (c : κ × UInt64) (charges : List (κ × UInt64)) (key : κ) :
    charged (c :: charges) key =
      (if c.1 = key then c.2.toNat else 0) + charged charges key := by
  by_cases h : c.1 = key <;> simp [charged, h]

/-- The order of the charges does not matter. -/
theorem charged_perm {a b : List (κ × UInt64)} (h : a.Perm b) (key : κ) :
    charged a key = charged b key :=
  ((h.filter _).map _).sum_eq

/-- A part of the charges is charged no more than all of them. -/
theorem charged_sublist {a b : List (κ × UInt64)} (h : a.Sublist b) (key : κ) :
    charged a key ≤ charged b key :=
  ((h.filter _).map _).sum_le_sum (fun _ _ => Nat.zero_le _)

/-- The table is exactly the sum of the charges: hashes belong to their keys,
no key has two entries, no entry is zero, and every count is its key's sum. -/
structure Tallies (hashOf : κ → UInt64) (counts : List (KeyCount κ))
    (charges : List (κ × UInt64)) : Prop where
  hashed : ∀ e ∈ counts, e.hash = hashOf e.key
  distinct : (counts.map KeyCount.key).Nodup
  positive : ∀ key ∈ counts.map KeyCount.key, countFor hashOf counts key ≠ 0
  exact : ∀ key, (countFor hashOf counts key).toNat = charged charges key

variable {hashOf : κ → UInt64}

/-- With its own hash an entry is for its own key and for no other. -/
theorem KeyCount.isFor_iff {key : κ} {entry : KeyCount κ} (h : entry.hash = hashOf entry.key) :
    entry.isFor hashOf key = true ↔ entry.key = key := by
  simp only [KeyCount.isFor, Bool.and_eq_true, beq_iff_eq]
  constructor
  · exact fun hk => hk.2
  · rintro rfl
    exact ⟨h, rfl⟩

/-- A key without an entry counts zero. -/
theorem countFor_of_not_mem {counts : List (KeyCount κ)} {key : κ}
    (hhash : ∀ e ∈ counts, e.hash = hashOf e.key)
    (hkey : key ∉ counts.map KeyCount.key) : countFor hashOf counts key = 0 := by
  induction counts with
  | nil => rfl
  | cons e rest ih =>
    simp only [List.map_cons, List.mem_cons, not_or] at hkey
    have he : ¬ e.isFor hashOf key = true := by
      rw [KeyCount.isFor_iff (hhash e (List.mem_cons_self ..))]
      exact fun h => hkey.1 h.symm
    rw [countFor, if_neg he]
    exact ih (fun x hx => hhash x (List.mem_cons_of_mem _ hx)) hkey.2

/-- Counts that tally with charges tally with them in any order. -/
theorem Tallies.perm {counts : List (KeyCount κ)} {a b : List (κ × UInt64)}
    (h : Tallies hashOf counts a) (hab : a.Perm b) : Tallies hashOf counts b where
  hashed := h.hashed
  distinct := h.distinct
  positive := h.positive
  exact := fun key => by rw [h.exact, charged_perm hab]

/-- No counts tally with no charges. -/
theorem Tallies.nil : Tallies hashOf ([] : List (KeyCount κ)) [] where
  hashed := by simp
  distinct := by simp
  positive := by simp
  exact := fun _ => rfl

/-- With nothing charged, no entry is left. -/
theorem Tallies.eq_nil {counts : List (KeyCount κ)} (h : Tallies hashOf counts []) :
    counts = [] := by
  cases counts with
  | nil => rfl
  | cons e rest =>
    have hcount := h.exact e.key
    rw [charged_nil] at hcount
    exact absurd (UInt64.toNat_inj.mp hcount) (h.positive e.key (by simp))

-- ---------------------------------------------------------------------------
-- Charging one key
-- ---------------------------------------------------------------------------

/-- Adding creates no key but its own. -/
theorem mem_keys_addCount {counts : List (KeyCount κ)} {key k : κ} {amount : UInt64}
    (h : k ∈ (addCount hashOf counts key amount).map KeyCount.key) :
    k = key ∨ k ∈ counts.map KeyCount.key := by
  induction counts with
  | nil => simpa [addCount] using h
  | cons e rest ih =>
    rw [addCount] at h
    split at h
    · exact Or.inr (by simpa using h)
    · simp only [List.map_cons, List.mem_cons] at h ⊢
      rcases h with h | h
      · exact Or.inr (Or.inl h)
      · rcases ih h with h | h
        · exact Or.inl h
        · exact Or.inr (Or.inr h)

/-- Adding changes the count of the one key, by the amount. -/
theorem countFor_addCount {counts : List (KeyCount κ)} {key : κ} {amount : UInt64}
    (hhash : ∀ e ∈ counts, e.hash = hashOf e.key) (k : κ) :
    countFor hashOf (addCount hashOf counts key amount) k =
      if key = k then countFor hashOf counts k + amount else countFor hashOf counts k := by
  induction counts with
  | nil =>
    by_cases hk : key = k
    · subst hk
      simp [addCount, countFor, KeyCount.isFor]
    · simp [addCount, countFor, KeyCount.isFor, hk]
  | cons e rest ih =>
    have he := hhash e (List.mem_cons_self ..)
    have ih := ih fun x hx => hhash x (List.mem_cons_of_mem _ hx)
    rw [addCount]
    split
    · rename_i hfor
      rw [KeyCount.isFor_iff he] at hfor
      subst hfor
      by_cases hk : e.key = k
      · simp [countFor, KeyCount.isFor, hk, he]
      · simp [countFor, KeyCount.isFor, hk]
    · rename_i hfor
      rw [KeyCount.isFor_iff he] at hfor
      by_cases hk : e.key = k
      · subst hk
        simp [countFor, KeyCount.isFor, he, Ne.symm hfor]
      · simp [countFor, KeyCount.isFor, hk, ih]

/-- Counts still tally when a charge is added to both sides and the sum fits. -/
theorem Tallies.add {counts : List (KeyCount κ)} {charges : List (κ × UInt64)}
    (h : Tallies hashOf counts charges) {key : κ} {amount : UInt64} (hpos : 0 < amount.toNat)
    (hfit : charged charges key + amount.toNat < 2 ^ 64) :
    Tallies hashOf (addCount hashOf counts key amount) ((key, amount) :: charges) where
  hashed := by
    obtain ⟨hhash, -, -, -⟩ := h
    clear hfit
    induction counts with
    | nil => simp [addCount]
    | cons e rest ih =>
      have he := hhash e (List.mem_cons_self ..)
      have hrest := fun x hx => hhash x (List.mem_cons_of_mem e hx)
      rw [addCount]
      split
      · simpa [he] using hrest
      · simpa [he] using ih hrest
  distinct := by
    obtain ⟨hhash, hnodup, -, -⟩ := h
    clear hfit
    induction counts with
    | nil => simp [addCount]
    | cons e rest ih =>
      have he := hhash e (List.mem_cons_self ..)
      simp only [List.map_cons, List.nodup_cons] at hnodup
      rw [addCount]
      split
      · simpa using hnodup
      · rename_i hfor
        rw [KeyCount.isFor_iff he] at hfor
        simp only [List.map_cons, List.nodup_cons]
        refine ⟨fun hmem => ?_, ih (fun x hx => hhash x (List.mem_cons_of_mem _ hx)) hnodup.2⟩
        rcases mem_keys_addCount hmem with hk | hk
        · exact hfor hk
        · exact hnodup.1 hk
  positive := by
    intro k hk hzero
    rw [countFor_addCount h.hashed] at hzero
    split at hzero
    · rename_i hkey
      subst hkey
      have hsum := toNat_add_of_lt (a := countFor hashOf counts key) (b := amount)
        (by rw [h.exact]; exact hfit)
      rw [hzero] at hsum
      simp at hsum
      omega
    · rename_i hkey
      rcases mem_keys_addCount hk with hk | hk
      · exact hkey hk.symm
      · exact h.positive k hk hzero
  exact := by
    intro k
    rw [countFor_addCount h.hashed, charged_cons]
    by_cases hk : key = k
    · subst hk
      rw [if_pos rfl, if_pos rfl, toNat_add_of_lt (by rw [h.exact]; exact hfit), h.exact,
        Nat.add_comm]
    · rw [if_neg hk, if_neg hk, h.exact, Nat.zero_add]

-- ---------------------------------------------------------------------------
-- Discharging one key
-- ---------------------------------------------------------------------------

/-- Subtracting adds no entry. -/
theorem subtractCount_sublist (counts : List (KeyCount κ)) (key : κ) (amount : UInt64) :
    ((subtractCount hashOf counts key amount).map KeyCount.key).Sublist
      (counts.map KeyCount.key) := by
  induction counts with
  | nil => exact List.Sublist.refl _
  | cons e rest ih =>
    rw [subtractCount]
    split
    · split
      · exact List.sublist_cons_self _ _
      · exact List.Sublist.refl _
    · exact ih.cons_cons _

/-- Subtracting changes the count of the one key, by the amount. -/
theorem countFor_subtractCount {counts : List (KeyCount κ)} {key : κ} {amount : UInt64}
    (hhash : ∀ e ∈ counts, e.hash = hashOf e.key) (hnodup : (counts.map KeyCount.key).Nodup)
    (hmem : key ∈ counts.map KeyCount.key) (k : κ) :
    countFor hashOf (subtractCount hashOf counts key amount) k =
      if key = k then countFor hashOf counts k - amount else countFor hashOf counts k := by
  induction counts with
  | nil => simp at hmem
  | cons e rest ih =>
    have he := hhash e (List.mem_cons_self ..)
    have hrest := fun x hx => hhash x (List.mem_cons_of_mem e hx)
    simp only [List.map_cons, List.nodup_cons] at hnodup
    rw [subtractCount]
    split
    · rename_i hfor
      rw [KeyCount.isFor_iff he] at hfor
      subst hfor
      by_cases hk : e.key = k
      · subst hk
        split
        · rename_i hzero
          simp [countFor, KeyCount.isFor, he, countFor_of_not_mem hrest hnodup.1, hzero]
        · simp [countFor, KeyCount.isFor, he]
      · split
        · simp [countFor, KeyCount.isFor, hk]
        · simp [countFor, KeyCount.isFor, hk]
    · rename_i hfor
      rw [KeyCount.isFor_iff he] at hfor
      have hmem' : key ∈ rest.map KeyCount.key := by
        rcases List.mem_cons.mp hmem with hk | hk
        · exact absurd hk.symm hfor
        · exact hk
      by_cases hk : e.key = k
      · subst hk
        simp [countFor, KeyCount.isFor, he, Ne.symm hfor]
      · simp [countFor, KeyCount.isFor, hk, ih hrest hnodup.2 hmem']

/-- An entry that would be left at zero is erased. -/
theorem not_mem_subtractCount {counts : List (KeyCount κ)} {key : κ} {amount : UInt64}
    (hhash : ∀ e ∈ counts, e.hash = hashOf e.key) (hnodup : (counts.map KeyCount.key).Nodup)
    (hzero : countFor hashOf counts key - amount = 0) :
    key ∉ (subtractCount hashOf counts key amount).map KeyCount.key := by
  induction counts with
  | nil => simp [subtractCount]
  | cons e rest ih =>
    have he := hhash e (List.mem_cons_self ..)
    simp only [List.map_cons, List.nodup_cons] at hnodup
    rw [subtractCount]
    rw [countFor] at hzero
    split
    · rename_i hfor
      rw [if_pos hfor] at hzero
      rw [if_pos hzero]
      rw [KeyCount.isFor_iff he] at hfor
      exact hfor ▸ hnodup.1
    · rename_i hfor
      rw [if_neg hfor] at hzero
      rw [KeyCount.isFor_iff he] at hfor
      simp only [List.map_cons, List.mem_cons, not_or]
      exact ⟨fun hk => hfor hk.symm,
        ih (fun x hx => hhash x (List.mem_cons_of_mem _ hx)) hnodup.2 hzero⟩

/-- A key that is charged an amount can give it back without a borrow. -/
theorem Tallies.not_lt_of_cons {counts : List (KeyCount κ)} {charges : List (κ × UInt64)}
    {key : κ} {amount : UInt64} (h : Tallies hashOf counts ((key, amount) :: charges)) :
    decide (countFor hashOf counts key < amount) = false := by
  rw [decide_eq_false_iff_not, UInt64.lt_iff_toNat_lt, h.exact, charged_cons, if_pos rfl]
  dsimp only
  omega

/-- Discharging a key gives back what the rest of the charges amount to. -/
theorem Tallies.subtract {counts : List (KeyCount κ)} {charges : List (κ × UInt64)}
    {key : κ} {amount : UInt64} (hpos : 0 < amount.toNat)
    (h : Tallies hashOf counts ((key, amount) :: charges)) :
    Tallies hashOf (subtractCount hashOf counts key amount) charges := by
  have hcharged : (countFor hashOf counts key).toNat = amount.toNat + charged charges key := by
    rw [h.exact, charged_cons, if_pos rfl]
  have hmem : key ∈ counts.map KeyCount.key := by
    by_contra hmem
    rw [countFor_of_not_mem h.hashed hmem] at hcharged
    simp at hcharged
    omega
  have hexact : ∀ k, (countFor hashOf (subtractCount hashOf counts key amount) k).toNat =
      charged charges k := by
    intro k
    rw [countFor_subtractCount h.hashed h.distinct hmem]
    split
    · rename_i hk
      subst hk
      rw [toNat_sub_of_toNat_le (by omega)]
      omega
    · rename_i hk
      rw [h.exact, charged_cons, if_neg hk, Nat.zero_add]
  refine ⟨?_, h.distinct.sublist (subtractCount_sublist ..), ?_, hexact⟩
  · obtain ⟨hhash, -, -, -⟩ := h
    clear hcharged hmem hexact
    induction counts with
    | nil => simp [subtractCount]
    | cons e rest ih =>
      have he := hhash e (List.mem_cons_self ..)
      have hrest := fun x hx => hhash x (List.mem_cons_of_mem e hx)
      rw [subtractCount]
      split
      · split
        · exact hrest
        · simpa [he] using hrest
      · simpa [he] using ih hrest
  · intro k hk hzero
    have hk' := (subtractCount_sublist counts key amount).subset hk
    rw [countFor_subtractCount h.hashed h.distinct hmem] at hzero
    split at hzero
    · rename_i hkey
      subst hkey
      exact not_mem_subtractCount h.hashed h.distinct hzero hk
    · exact h.positive k hk' hzero

end Charges

end Cuac.Lib

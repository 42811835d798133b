import Mathlib.Order.Lattice
import Mathlib.Data.List.Lex
import Mathlib.Data.List.TakeWhile
import Cuac.Lib.Bytes

/-!
# Lists sorted by a key

A table kept as a list that is strictly increasing by a key: an insertion at the lower
bound of the key, a replacement of the element with the key, and the first element with
a key.

Main results:

* `SortedBy.insertAt`, `SortedBy.replaceFirst` — both keep the order.
* `find_insertAt`, `find_replaceFirst` — both change what is found under one key.
-/

namespace Cuac.Lib

instance linearOrderUInt8 : LinearOrder UInt8 where
  le_refl := UInt8.le_refl
  le_trans := @UInt8.le_trans
  le_antisymm := @UInt8.le_antisymm
  le_total := UInt8.le_total
  lt_iff_le_not_ge a b := by
    rw [UInt8.not_le]
    exact ⟨fun h => ⟨UInt8.le_of_lt h, h⟩, fun h => h.2⟩
  toDecidableLE := inferInstance

variable {α κ : Type} [LinearOrder κ] (key : α → κ)

/-- Strictly increasing by the key. -/
def SortedBy (l : List α) : Prop := l.Pairwise fun a b => key a < key b

/-- The first element with this key. -/
def findBy (l : List α) (k : κ) : Option α := l.find? fun a => decide (key a = k)

/-- `std::lower_bound` and an insertion there. -/
def insertAt (a : α) (l : List α) : List α :=
  l.takeWhile (fun b => decide (key b < key a)) ++ a :: l.dropWhile fun b => decide (key b < key a)

/-- The first element with the key of `a` becomes `a`. -/
def replaceFirst (a : α) : List α → Option (List α)
  | [] => none
  | b :: rest => if key b = key a then some (a :: rest) else (replaceFirst a rest).map (b :: ·)

variable {key}

/-- The first element with the key is found. -/
theorem findBy_cons (a : α) (l : List α) (k : κ) :
    findBy key (a :: l) k = if key a = k then some a else findBy key l k := by
  by_cases h : key a = k <;> simp [findBy, h]

/-- What the first half does not hold is looked for in the second. -/
theorem findBy_append (l l' : List α) (k : κ) :
    findBy key (l ++ l') k = (findBy key l k).or (findBy key l' k) := by
  simp [findBy]

/-- Nothing is found when no element has the key. -/
theorem findBy_eq_none {l : List α} {k : κ} :
    findBy key l k = none ↔ ∀ a ∈ l, key a ≠ k := by
  simp [findBy]

/-- After an insertion the new element is found under its key, and the others under theirs. -/
theorem find_insertAt (a : α) (l : List α) (k : κ) :
    findBy key (insertAt key a l) k = if key a = k then some a else findBy key l k := by
  rw [insertAt, findBy_append, findBy_cons]
  by_cases hk : key a = k
  · have hskip : findBy key (l.takeWhile fun b => decide (key b < key a)) k = none := by
      rw [findBy_eq_none]
      intro b hb heq
      have hlt := List.mem_takeWhile_imp hb
      rw [decide_eq_true_eq, heq, hk] at hlt
      exact lt_irrefl _ hlt
    rw [hskip, if_pos hk, Option.none_or, if_pos hk]
  · rw [if_neg hk, if_neg hk, ← findBy_append, List.takeWhile_append_dropWhile]

/-- After a replacement the new element is found under its key, and the others under theirs. -/
theorem find_replaceFirst {a : α} {l l' : List α} (h : replaceFirst key a l = some l') (k : κ) :
    findBy key l' k = if key a = k then some a else findBy key l k := by
  induction l generalizing l' with
  | nil => cases h
  | cons b rest ih =>
    rw [replaceFirst] at h
    split at h
    · rename_i hb
      obtain rfl := Option.some.inj h
      rw [findBy_cons, findBy_cons, hb]
      split <;> rfl
    · rename_i hb
      obtain ⟨l', hl', rfl⟩ := Option.map_eq_some_iff.mp h
      rw [findBy_cons, findBy_cons, ih hl']
      by_cases hk : key b = k
      · rw [if_pos hk, if_pos hk, if_neg (fun ha => hb (hk.trans ha.symm))]
      · rw [if_neg hk, if_neg hk]

/-- A replacement leaves the keys as they were. -/
theorem replaceFirst_keys {a : α} {l l' : List α} (h : replaceFirst key a l = some l') :
    l'.map key = l.map key := by
  induction l generalizing l' with
  | nil => cases h
  | cons b rest ih =>
    rw [replaceFirst] at h
    split at h
    · rename_i hb
      obtain rfl := Option.some.inj h
      rw [List.map_cons, List.map_cons, hb]
    · obtain ⟨l', hl', rfl⟩ := Option.map_eq_some_iff.mp h
      rw [List.map_cons, List.map_cons, ih hl']

/-- A list is sorted by a key when its keys ascend. -/
theorem sortedBy_iff_keys {l : List α} : SortedBy key l ↔ (l.map key).Pairwise (· < ·) := by
  rw [SortedBy, List.pairwise_map]

/-- A replacement keeps the order. -/
theorem SortedBy.replaceFirst {a : α} {l l' : List α} (hsorted : SortedBy key l)
    (h : replaceFirst key a l = some l') : SortedBy key l' := by
  rw [sortedBy_iff_keys] at hsorted ⊢
  rwa [replaceFirst_keys h]

/-- An insertion of a new key keeps the order. -/
theorem SortedBy.insertAt {a : α} {l : List α} (hsorted : SortedBy key l)
    (habsent : findBy key l (key a) = none) : SortedBy key (insertAt key a l) := by
  induction l with
  | nil => exact List.pairwise_singleton ..
  | cons b rest ih =>
    have hsplit := List.pairwise_cons.mp hsorted
    rw [findBy_cons] at habsent
    have hne : key b ≠ key a := by
      intro heq
      rw [if_pos heq] at habsent
      cases habsent
    rw [if_neg hne] at habsent
    by_cases hlt : key b < key a
    · have hinsert : Lib.insertAt key a (b :: rest) = b :: Lib.insertAt key a rest := by
        simp [Lib.insertAt, hlt]
      rw [hinsert]
      refine List.pairwise_cons.mpr ⟨?_, ih hsplit.2 habsent⟩
      intro c hc
      rw [Lib.insertAt, List.mem_append, List.mem_cons] at hc
      rcases hc with hc | rfl | hc
      · exact hsplit.1 c ((List.takeWhile_sublist _).subset hc)
      · exact hlt
      · exact hsplit.1 c ((List.dropWhile_sublist _).subset hc)
    · have hinsert : Lib.insertAt key a (b :: rest) = a :: b :: rest := by
        simp [Lib.insertAt, hlt]
      rw [hinsert]
      have hab : key a < key b := lt_of_le_of_ne (not_lt.mp hlt) (Ne.symm hne)
      refine List.pairwise_cons.mpr ⟨?_, hsorted⟩
      intro c hc
      rcases List.mem_cons.mp hc with rfl | hc
      · exact hab
      · exact hab.trans (hsplit.1 c hc)

end Cuac.Lib

import Mathlib.Data.List.Sort

/-!
# First-in first-out shedding

A queue with a limit sheds its oldest members, one at a time, until what is left
fits. A keyed store that looks for its oldest member on each turn does the same
to the queue of its members in order of age.

Main results:

* `shed_concat` — a newcomer that fits alone stays, and only the shortest head of
  the older members goes.
* `exists_aged` — members of distinct ages line up by age.
-/

namespace Cuac.Lib

variable {α : Type}

-- ---------------------------------------------------------------------------
-- Shedding
-- ---------------------------------------------------------------------------

section Shed

variable (fits : List α → Prop) [DecidablePred fits]

/-- What is left of a queue, oldest member first. -/
def shed : List α → List α
  | [] => []
  | oldest :: rest => if fits (oldest :: rest) then oldest :: rest else shed rest

variable {fits}

theorem shed_of_fits {queue : List α} (h : fits queue) : shed fits queue = queue := by
  cases queue with
  | nil => rfl
  | cons oldest rest => rw [shed, if_pos h]

theorem shed_cons {oldest : α} {rest : List α} (h : ¬fits (oldest :: rest)) :
    shed fits (oldest :: rest) = shed fits rest := by
  rw [shed, if_neg h]

/-- A newcomer that fits alone stays; of the older members the shortest head goes
whose absence makes the rest fit. -/
theorem shed_concat {newest : α} (halone : fits [newest]) (older : List α) :
    ∃ gone kept, older = gone ++ kept ∧ shed fits (older ++ [newest]) = kept ++ [newest] ∧
      fits (kept ++ [newest]) ∧ ∀ i < gone.length, ¬fits (older.drop i ++ [newest]) := by
  induction older with
  | nil => exact ⟨[], [], rfl, shed_of_fits halone, halone, by simp⟩
  | cons oldest rest ih =>
    by_cases hfits : fits (oldest :: (rest ++ [newest]))
    · exact ⟨[], oldest :: rest, rfl, shed_of_fits hfits, hfits, by simp⟩
    · obtain ⟨gone, kept, hrest, hshed, hkept, hshortest⟩ := ih
      refine ⟨oldest :: gone, kept, by rw [hrest, List.cons_append], ?_, hkept, ?_⟩
      · rw [List.cons_append, shed_cons hfits, hshed]
      · intro i hi
        cases i with
        | zero => exact hfits
        | succ i => exact hshortest i (by simpa using hi)

end Shed

-- ---------------------------------------------------------------------------
-- Ages
-- ---------------------------------------------------------------------------

section Ages

variable (age : α → Nat)

/-- Oldest first, no two of one age. -/
def Aged (queue : List α) : Prop :=
  queue.Pairwise fun a b => age a < age b

variable {age}

/-- Members of distinct ages line up by age. -/
theorem exists_aged {members : List α} (h : (members.map age).Nodup) :
    ∃ queue, members.Perm queue ∧ Aged age queue := by
  let older : α → α → Prop := fun a b => age a ≤ age b
  have : Std.Total older := ⟨fun a b => Nat.le_total (age a) (age b)⟩
  have : IsTrans α older := ⟨fun _ _ _ => Nat.le_trans⟩
  have hperm : (members.insertionSort older).Perm members := List.perm_insertionSort older members
  refine ⟨members.insertionSort older, hperm.symm, ?_⟩
  have hle := List.pairwise_insertionSort older members
  have hne : (members.insertionSort older).Pairwise fun a b => age a ≠ age b :=
    List.pairwise_map.mp ((hperm.map age).nodup_iff.mpr h)
  exact hle.imp₂ (fun _ _ hab hne => Nat.lt_of_le_of_ne hab hne) hne

/-- A newcomer younger than everyone joins at the end. -/
theorem Aged.concat {queue : List α} {newest : α} (h : Aged age queue)
    (hnewest : ∀ a ∈ queue, age a < age newest) : Aged age (queue ++ [newest]) := by
  refine List.pairwise_append.mpr ⟨h, List.pairwise_singleton _ _, ?_⟩
  intro a ha b hb
  rw [List.mem_singleton.mp hb]
  exact hnewest a ha

/-- The head is the only member no older than everyone. -/
theorem Aged.eq_head {oldest x : α} {rest : List α} (h : Aged age (oldest :: rest))
    (hx : x ∈ oldest :: rest) (hmin : ∀ a ∈ oldest :: rest, age x ≤ age a) : x = oldest := by
  rcases List.mem_cons.mp hx with rfl | hx
  · rfl
  · have hlt := (List.pairwise_cons.mp h).1 x hx
    have hle := hmin oldest List.mem_cons_self
    omega

end Ages

end Cuac.Lib

import Mathlib.Data.List.Count

/-!
# Permits that are given back once

A register issues permits by number and writes down each one that comes back.
The places that can keep a permit are a list of slots; `Accounted` says that
every permit issued is either in one slot or has come back once. Moving a permit
between slots, issuing one and giving one back are the only steps there are.

Main results:

* `Accounted.release`, `Accounted.issue` — the steps keep the books.
* `Accounted.once` — with every slot empty, each permit has come back exactly once.
-/

namespace Cuac.Lib.Permits

structure Register where
  issued : Nat
  released : List Nat
  deriving DecidableEq, Repr

namespace Register

/-- The next permit. -/
def issue (r : Register) : Register := { r with issued := r.issued + 1 }

/-- An empty slot gives nothing back. -/
def release (r : Register) : Option Nat → Register
  | none => r
  | some permit => { r with released := r.released ++ [permit] }

theorem mem_release {r : Register} {slot : Option Nat} {permit : Nat}
    (h : permit ∈ r.released) : permit ∈ (r.release slot).released := by
  cases slot with
  | none => exact h
  | some other => exact List.mem_append_left _ h

theorem mem_release_self {r : Register} {permit : Nat} :
    permit ∈ (r.release (some permit)).released :=
  List.mem_append_right _ (List.mem_singleton_self _)

end Register

/-- Every permit issued is in one slot, or has come back once. -/
def Accounted (r : Register) (slots : List (Option Nat)) : Prop :=
  ∀ permit, slots.count (some permit) + r.released.count permit =
    if permit < r.issued then 1 else 0

variable {r : Register} {slots slots' : List (Option Nat)}

theorem Accounted.perm (h : Accounted r slots) (hperm : slots.Perm slots') :
    Accounted r slots' := by
  intro permit
  rw [← hperm.count_eq]
  exact h permit

/-- An empty slot counts for nothing. -/
theorem Accounted.empty : Accounted r (none :: slots) ↔ Accounted r slots := by
  simp [Accounted]

theorem Accounted.release_head {slot : Option Nat} (h : Accounted r (slot :: slots)) :
    Accounted (r.release slot) slots := by
  cases slot with
  | none => exact Accounted.empty.mp h
  | some permit =>
    intro other
    have hcount := h other
    simp only [List.count_cons, Option.some_beq_some, beq_iff_eq] at hcount
    show slots.count (some other) + (r.released ++ [permit]).count other =
      if other < r.issued then 1 else 0
    rw [List.count_append, List.count_singleton]
    simp only [beq_iff_eq]
    omega

/-- The slot at any place is emptied. -/
theorem Accounted.release {slot : Option Nat} (before after : List (Option Nat))
    (h : Accounted r (before ++ slot :: after)) :
    Accounted (r.release slot) (before ++ none :: after) := by
  have hhead := (h.perm List.perm_middle).release_head
  exact (Accounted.empty.mpr hhead).perm List.perm_middle.symm

theorem Accounted.issue (h : Accounted r slots) :
    Accounted r.issue (some r.issued :: slots) := by
  intro permit
  have hcount := h permit
  simp only [List.count_cons, Option.some_beq_some, beq_iff_eq]
  show _ + _ + r.released.count permit = if permit < r.issued + 1 then 1 else 0
  by_cases heq : r.issued = permit
  · rw [if_pos heq, if_pos (by omega)]
    rw [if_neg (by omega)] at hcount
    omega
  · rw [if_neg heq]
    by_cases hlt : permit < r.issued
    · rw [if_pos (by omega)]
      rw [if_pos hlt] at hcount
      omega
    · rw [if_neg (by omega)]
      rw [if_neg hlt] at hcount
      omega

/-- A permit in hand is put into an empty slot. -/
theorem Accounted.place {slot : Option Nat} (before after : List (Option Nat))
    (h : Accounted r (slot :: (before ++ none :: after))) :
    Accounted r (before ++ slot :: after) := by
  have hmoved : (slot :: (before ++ none :: after)).Perm (none :: (before ++ slot :: after)) := by
    refine ((List.perm_middle.cons slot).trans (List.Perm.swap none slot _)).trans ?_
    exact List.perm_middle.symm.cons none
  exact Accounted.empty.mp (h.perm hmoved)

theorem Accounted.count_le_one (h : Accounted r slots) (permit : Nat) :
    r.released.count permit ≤ 1 := by
  have hcount := h permit
  split at hcount <;> omega

/-- With every slot empty, each permit has come back exactly once. -/
theorem Accounted.once (h : Accounted r slots) (hempty : ∀ slot ∈ slots, slot = none)
    {permit : Nat} (hissued : permit < r.issued) : r.released.count permit = 1 := by
  have hcount := h permit
  have hnone : slots.count (some permit) = 0 := by
    refine List.count_eq_zero.mpr fun hmem => ?_
    cases hempty _ hmem
  rw [if_pos hissued, hnone] at hcount
  omega

end Cuac.Lib.Permits

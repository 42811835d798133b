import Mathlib.Order.Lattice
import Mathlib.Data.List.Perm.Basic
import Mathlib.Order.Basic

/-!
# A running winner

One pass over candidates that keeps the best so far and a flag that says whether
another one is as good. The flag is sticky: only a better candidate clears it.

The outcome does not depend on the order of the candidates: `Champion.Leads`
says what it is in terms of the candidates as a bag.

Main results:

* `Champion.leads_offers` — the pass computes a leader.
* `Champion.offers_eq_winner` — it ends with a winner and no tie exactly when one
  candidate is better than each other one.
-/

namespace Cuac.Lib

structure Champion (α : Type) where
  winner : Option α
  tied : Bool

namespace Champion

variable {α β : Type} [LinearOrder β] (rank : α → β)

def none : Champion α := ⟨.none, false⟩

/-- One turn of the pass. -/
def offer (champion : Champion α) (candidate : α) : Champion α :=
  match champion.winner with
  | .none => ⟨some candidate, false⟩
  | some best =>
    if rank best < rank candidate then ⟨some candidate, false⟩
    else if rank candidate = rank best then ⟨some best, true⟩
    else champion

def offers (candidates : List α) : Champion α :=
  candidates.foldl (offer rank) none

/-- The champion of a bag of candidates: nothing, or a greatest candidate and
whether another one is as great. -/
inductive Leads : List α → Champion α → Prop
  | empty : Leads [] none
  | unique {candidates others : List α} {best : α} : candidates.Perm (best :: others) →
      (∀ other ∈ others, rank other < rank best) → Leads candidates ⟨some best, false⟩
  | shared {candidates others : List α} {best other : α} : candidates.Perm (best :: others) →
      (∀ other ∈ others, rank other ≤ rank best) → other ∈ others → rank other = rank best →
      Leads candidates ⟨some best, true⟩

variable {rank} {candidates others : List α} {champion : Champion α} {best candidate : α}

theorem perm_snoc (h : candidates.Perm (best :: others)) :
    (candidates ++ [candidate]).Perm (best :: candidate :: others) :=
  (List.perm_append_singleton candidate candidates).trans
    ((h.cons candidate).trans (List.Perm.swap best candidate others))

/-- What one turn does to a champion with a winner. -/
theorem offer_some {tied : Bool} (candidate : α) :
    offer rank ⟨some best, tied⟩ candidate =
      if rank best < rank candidate then ⟨some candidate, false⟩
      else if rank candidate = rank best then ⟨some best, true⟩
      else ⟨some best, tied⟩ := rfl

/-- A strictly better candidate leads alone. -/
theorem leads_better (h : candidates.Perm (best :: others))
    (hle : ∀ other ∈ others, rank other ≤ rank best) (hlt : rank best < rank candidate) :
    Leads rank (candidates ++ [candidate]) ⟨some candidate, false⟩ := by
  refine .unique ((perm_snoc h).trans (List.Perm.swap candidate best others)) fun other hother => ?_
  rcases List.mem_cons.mp hother with rfl | hother
  · exact hlt
  · exact lt_of_le_of_lt (hle other hother) hlt

/-- One turn keeps the champion the leader. -/
theorem leads_offer (h : Leads rank candidates champion) (candidate : α) :
    Leads rank (candidates ++ [candidate]) (offer rank champion candidate) := by
  cases h with
  | empty =>
    have hnone : ∀ other ∈ ([] : List α), rank other < rank candidate := by
      intro other hother
      cases hother
    exact .unique (List.Perm.refl _) hnone
  | unique hperm hlt =>
    rw [offer_some]
    split
    · rename_i hbetter
      exact leads_better hperm (fun other hother => le_of_lt (hlt other hother)) hbetter
    · rename_i hnot
      split
      · rename_i hequal
        refine .shared (perm_snoc hperm) (fun other hother => ?_) List.mem_cons_self hequal
        rcases List.mem_cons.mp hother with rfl | hother
        · exact le_of_eq hequal
        · exact le_of_lt (hlt other hother)
      · rename_i hdifferent
        refine .unique (perm_snoc hperm) fun other hother => ?_
        rcases List.mem_cons.mp hother with rfl | hother
        · exact lt_of_le_of_ne (not_lt.mp hnot) hdifferent
        · exact hlt other hother
  | @shared _ others best other hperm hle hmem hequal =>
    rw [offer_some]
    split
    · rename_i hbetter
      exact leads_better hperm hle hbetter
    · rename_i hnot
      have hle' : ∀ o ∈ candidate :: others, rank o ≤ rank best := by
        intro o ho
        rcases List.mem_cons.mp ho with rfl | ho
        · exact not_lt.mp hnot
        · exact hle o ho
      have hstay : (if rank candidate = rank best then (⟨some best, true⟩ : Champion α)
          else ⟨some best, true⟩) = ⟨some best, true⟩ := ite_self _
      rw [hstay]
      exact .shared (perm_snoc hperm) hle' (List.mem_cons_of_mem _ hmem) hequal

theorem leads_foldl (h : Leads rank candidates champion) (more : List α) :
    Leads rank (candidates ++ more) (more.foldl (offer rank) champion) := by
  induction more generalizing candidates champion with
  | nil => simpa using h
  | cons candidate more ih =>
    have hstep := ih (leads_offer h candidate)
    rwa [List.append_assoc, List.singleton_append] at hstep

theorem leads_offers (candidates : List α) : Leads rank candidates (offers rank candidates) :=
  leads_foldl .empty candidates

/-- The champion of nothing. -/
theorem offers_eq_none : (offers rank candidates).winner = .none ↔ candidates = [] := by
  have hleads : Leads rank candidates (offers rank candidates) := leads_offers candidates
  constructor
  · intro hnone
    generalize hchampion : offers rank candidates = champion at hleads hnone
    cases hleads with
    | empty => rfl
    | unique => cases hnone
    | shared => cases hnone
  · rintro rfl
    rfl

/-- A winner without a tie is better than each other candidate. -/
theorem offers_eq_winner :
    offers rank candidates = ⟨some best, false⟩ ↔
      ∃ others, candidates.Perm (best :: others) ∧ ∀ other ∈ others, rank other < rank best := by
  have hleads : Leads rank candidates (offers rank candidates) := leads_offers candidates
  constructor
  · intro hbest
    rw [hbest] at hleads
    cases hleads with
    | unique hperm hlt => exact ⟨_, hperm, hlt⟩
  · rintro ⟨others, hperm, hlt⟩
    generalize offers rank candidates = champion at hleads
    cases hleads with
    | empty => exact absurd hperm.symm List.not_perm_cons_nil
    | @unique _ others' best' hperm' hlt' =>
      have hsame : best' = best := by
        by_contra hne
        have hmem : best' ∈ others := by
          have hin : best' ∈ best :: others := hperm.subset (hperm'.symm.subset List.mem_cons_self)
          exact (List.mem_cons.mp hin).resolve_left hne
        have hmem' : best ∈ others' := by
          have hin : best ∈ best' :: others' := hperm'.subset (hperm.symm.subset List.mem_cons_self)
          exact (List.mem_cons.mp hin).resolve_left (Ne.symm hne)
        exact lt_asymm (hlt best' hmem) (hlt' best hmem')
      rw [hsame]
    | @shared _ others' best' other hperm' hle hmem hequal =>
      -- two greatest candidates contradict a strict one
      exfalso
      by_cases hsame : best' = best
      · rw [hsame] at hperm' hequal
        have hothers : others.Perm others' := (hperm.symm.trans hperm').cons_inv
        exact absurd (hlt other (hothers.symm.subset hmem)) (by rw [hequal]; exact lt_irrefl _)
      · have hin : best' ∈ best :: others := hperm.subset (hperm'.symm.subset List.mem_cons_self)
        have hbest' : best' ∈ others := (List.mem_cons.mp hin).resolve_left hsame
        have hin' : best ∈ best' :: others' := hperm'.subset (hperm.symm.subset List.mem_cons_self)
        have hbest : best ∈ others' := (List.mem_cons.mp hin').resolve_left (Ne.symm hsame)
        exact absurd (hlt best' hbest') (not_lt.mpr (hle best hbest))

/-- Of two candidates that share the greatest rank neither is above all others. -/
theorem no_winner_of_shared {a b : α} (hperm : candidates.Perm (a :: b :: others))
    (hequal : rank a = rank b) (hle : ∀ other ∈ others, rank other ≤ rank a) :
    ¬∃ best rest, candidates.Perm (best :: rest) ∧ ∀ other ∈ rest, rank other < rank best := by
  intro hwinner
  obtain ⟨best, hwinner⟩ := hwinner
  have hle' : ∀ other ∈ b :: others, rank other ≤ rank a := by
    intro other hother
    rcases List.mem_cons.mp hother with rfl | hother
    · exact le_of_eq hequal.symm
    · exact hle other hother
  obtain ⟨rest, hrest, hlt⟩ := hwinner
  have hmem : ∀ x ∈ candidates, rank x ≤ rank a := by
    intro x hx
    rcases List.mem_cons.mp (hperm.subset hx) with rfl | hx
    · exact le_refl _
    · exact hle' x hx
  have hbest : rank best ≤ rank a := hmem best (hrest.symm.subset List.mem_cons_self)
  have hnot : ∀ x ∈ rest, rank x ≠ rank a := by
    intro x hx heq
    exact absurd (hlt x hx) (by rw [heq]; exact not_lt.mpr hbest)
  -- both are the winner itself, so one is also among the rest
  have hbestA : best = a := by
    rcases List.mem_cons.mp (hrest.subset (hperm.symm.subset List.mem_cons_self)) with hab | hab
    · exact hab.symm
    · exact absurd rfl (hnot a hab)
  rw [hbestA] at hrest
  have hothers : (b :: others).Perm rest := (hperm.symm.trans hrest).cons_inv
  exact hnot b (hothers.subset List.mem_cons_self) hequal.symm

end Champion

end Cuac.Lib

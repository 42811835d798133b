import Mathlib.Data.List.Induction

/-!
# Event machines and their reachable states

A program whose shared state changes only inside atomic sections is a
deterministic `step` on that state, driven by a list of events: the order of
the list is the interleaving, and whatever the environment decides (clock
readings, cancellation flags, allocation failures) travels in the events.

Main results:

* `Machine.reachable_iff_run` — reachable states are exactly the ends of runs.
* `Machine.Reachable.invariant` — what holds initially and is kept by every
  step holds of every reachable state.
-/

namespace Cuac.Lib

/-- A deterministic machine over states `σ` and events `ε`. -/
structure Machine (σ ε : Type) where
  start : σ
  step : σ → ε → σ

namespace Machine

variable {σ ε : Type}

/-- The state after a whole list of events. -/
def run (m : Machine σ ε) (es : List ε) : σ :=
  es.foldl m.step m.start

/-- States some interleaving of events leads to. -/
inductive Reachable (m : Machine σ ε) : σ → Prop
  | start : Reachable m m.start
  | step {s : σ} (e : ε) : Reachable m s → Reachable m (m.step s e)

theorem reachable_iff_run (m : Machine σ ε) (s : σ) :
    m.Reachable s ↔ ∃ es, m.run es = s := by
  constructor
  · intro h
    induction h with
    | start => exact ⟨[], rfl⟩
    | step e _ ih =>
      obtain ⟨es, rfl⟩ := ih
      exact ⟨es ++ [e], by simp [run]⟩
  · rintro ⟨es, rfl⟩
    induction es using List.reverseRecOn with
    | nil => exact .start
    | append_singleton es e ih =>
      have hrun : m.run (es ++ [e]) = m.step (m.run es) e := by simp [run]
      rw [hrun]
      exact .step e ih

/-- The invariant rule. -/
theorem Reachable.invariant {m : Machine σ ε} {I : σ → Prop} {s : σ}
    (h : m.Reachable s) (hstart : I m.start) (hstep : ∀ s e, I s → I (m.step s e)) :
    I s := by
  induction h with
  | start => exact hstart
  | step e _ ih => exact hstep _ e ih

end Machine

end Cuac.Lib

import Mathlib.Data.Prod.Lex
import Cuac.Lib.Champion
import Cuac.Connector.Declaration
import Cuac.Semantics.InputResolution
import Cuac.Semantics.PredicateClassifier

/-!
# Operation selection

Which operation of a relation a scan uses. Every operation but the fallback is
judged by itself: it is eligible when its required inputs are bound. The eligible
operation with the most required inputs wins, a tie for the most is a failure,
and the fallback is judged only where nothing else is eligible.

Main results:

* `evaluate_total` — judging an operation of an accepted relation never throws on
  a valid predicate.
* `selectOperation_eq_ok` — what selection returns, in terms of the operations as
  a bag.
-/

namespace Cuac.Semantics

open Cuac.Lib Cuac.Connector Cuac.Query

-- ---------------------------------------------------------------------------
-- Eligibility
-- ---------------------------------------------------------------------------

/-- The filter binds the input. -/
def hasConditionalBinding (bindings : CandidateInputBindings) (id : Bytes) : Bool :=
  bindings.values.any fun binding => binding.name == id

/-- A required input is bound by the filter or given with the request. -/
def requiredInputIsSatisfied (inputs : ResolvedRelationInputs)
    (conditionalInputs : CandidateInputBindings) : RequiredInputReference → Bool
  | .relationInput id =>
    match inputs.find id with
    | some input => input.state.value?.isSome
    | none => false
  | .conditionalInput id =>
    !conditionalInputs.conflicting && hasConditionalBinding conditionalInputs id

/-- An operation that may answer, with its rank. -/
structure EligibleOperation where
  operation : CompiledOperation
  specificity : Nat
  priority : Int

/-- An operation is eligible when all its required inputs are bound. -/
def evaluateV1 (operation : CompiledOperation) (inputs : ResolvedRelationInputs)
    (conditionalInputs : CandidateInputBindings) : Option EligibleOperation :=
  if conditionalInputs.conflicting then none
  else if operation.selector.all (requiredInputIsSatisfied inputs conditionalInputs) then
    some ⟨operation, operation.selector.length, 0⟩
  else none

/-- The filter is matched against the mappings of the operation first. -/
def evaluate (relation : CompiledRelation) (request : ScanRequest)
    (inputs : ResolvedRelationInputs) (operation : CompiledOperation) :
    Except Fault (Option EligibleOperation) := do
  let conditionalInputs ← resolveCandidateInputBindings relation operation request
  pure (evaluateV1 operation inputs conditionalInputs)

/-- More required inputs come first, then the higher priority. -/
def hasHigherRank (left right : EligibleOperation) : Bool :=
  right.specificity < left.specificity ||
    (left.specificity == right.specificity && right.priority < left.priority)

/-- Neither of two operations comes first. -/
def hasEqualRank (left right : EligibleOperation) : Bool :=
  left.specificity == right.specificity && left.priority == right.priority

-- ---------------------------------------------------------------------------
-- Selection
-- ---------------------------------------------------------------------------

/-- The fault of a selection without a result. -/
def operationSelectionFailed (message : String) : Fault := ⟨.operationSelectionFailed, message⟩

/-- The locals of the loop. -/
structure SelectionState where
  winner : Option EligibleOperation
  winnerIsTied : Bool
  fallback : Option CompiledOperation

/-- An eligible candidate meets the running winner. -/
def SelectionState.consider (s : SelectionState) (candidate : EligibleOperation) :
    SelectionState :=
  match s.winner with
  | none => { s with winner := some candidate, winnerIsTied := false }
  | some winner =>
    if hasHigherRank candidate winner then
      { s with winner := some candidate, winnerIsTied := false }
    else if hasEqualRank candidate winner then { s with winnerIsTied := true }
    else s

/-- An ineligible operation changes nothing. -/
def SelectionState.judged (s : SelectionState) : Option EligibleOperation → SelectionState
  | none => s
  | some candidate => s.consider candidate

/-- One turn of the loop over the operations. -/
def selectionStep (judge : CompiledOperation → Except Fault (Option EligibleOperation))
    (s : SelectionState) (operation : CompiledOperation) : Except Fault SelectionState :=
  if operation.fallback then do
    throwIf s.fallback.isSome
      (operationSelectionFailed "operation selection contains multiple fallback operations")
    pure { s with fallback := some operation }
  else do
    let candidate ← judge operation
    pure (s.judged candidate)

/-- The loop over the operations keeps the leader, whether it is tied, and the fallback. -/
def selectionLoop (judge : CompiledOperation → Except Fault (Option EligibleOperation)) :
    SelectionState → List CompiledOperation → Except Fault SelectionState
  | s, [] => pure s
  | s, operation :: rest => do
    let s ← selectionStep judge s operation
    selectionLoop judge s rest

/-- The fallback is judged only where nothing won. -/
def finalWinner (judge : CompiledOperation → Except Fault (Option EligibleOperation))
    (s : SelectionState) : Except Fault (Option EligibleOperation) :=
  match s.winner, s.fallback with
  | none, some fallback => judge fallback
  | winner, _ => pure winner

/-- The eligible operation of the highest rank, or the fallback. -/
def selectOperation (relation : CompiledRelation) (request : ScanRequest)
    (inputs : ResolvedRelationInputs) : Except Fault CompiledOperation := do
  let s ← selectionLoop (evaluate relation request inputs) ⟨none, false, none⟩ relation.operations
  throwIf s.winnerIsTied
    (operationSelectionFailed
      "operation selection has multiple equally ranked eligible base operations")
  let winner ← finalWinner (evaluate relation request inputs) s
  match winner with
  | some winner => pure winner.operation
  | none =>
    .error (operationSelectionFailed "operation selection has no eligible base operation")

-- ---------------------------------------------------------------------------
-- The loop as a pass over the eligible operations
-- ---------------------------------------------------------------------------

section Pass

variable {judge : CompiledOperation → Except Fault (Option EligibleOperation)}
  {operations : List CompiledOperation}

/-- Specificity first, then priority. -/
def EligibleOperation.rank (candidate : EligibleOperation) : ℕ ×ₗ ℤ :=
  toLex (candidate.specificity, candidate.priority)

/-- The comparison of the source is that of the ranks. -/
theorem hasHigherRank_iff {left right : EligibleOperation} :
    hasHigherRank left right = true ↔ right.rank < left.rank := by
  simp only [hasHigherRank, EligibleOperation.rank, Prod.Lex.toLex_lt_toLex, Bool.or_eq_true,
    Bool.and_eq_true, decide_eq_true_eq, beq_iff_eq]
  constructor
  · rintro (hlt | ⟨heq, hlt⟩)
    · exact Or.inl hlt
    · exact Or.inr ⟨heq.symm, hlt⟩
  · rintro (hlt | ⟨heq, hlt⟩)
    · exact Or.inl hlt
    · exact Or.inr ⟨heq.symm, hlt⟩

/-- Ranks are equal when neither comes first. -/
theorem hasEqualRank_iff {left right : EligibleOperation} :
    hasEqualRank left right = true ↔ left.rank = right.rank := by
  simp [hasEqualRank, EligibleOperation.rank, Prod.ext_iff]

/-- What the loop keeps, as a contest of ranks. -/
def SelectionState.champion (s : SelectionState) : Champion EligibleOperation :=
  ⟨s.winner, s.winnerIsTied⟩

/-- Considering an operation is offering it to the contest. -/
theorem champion_consider (s : SelectionState) (candidate : EligibleOperation) :
    (s.consider candidate).champion =
      Champion.offer EligibleOperation.rank s.champion candidate := by
  unfold SelectionState.consider Champion.offer SelectionState.champion
  cases hwinner : s.winner with
  | none => rfl
  | some winner =>
    simp only
    by_cases hhigher : hasHigherRank candidate winner = true
    · rw [if_pos hhigher, if_pos (hasHigherRank_iff.mp hhigher)]
    · rw [if_neg hhigher, if_neg fun hlt => hhigher (hasHigherRank_iff.mpr hlt)]
      by_cases hequal : hasEqualRank candidate winner = true
      · rw [if_pos hequal, if_pos (hasEqualRank_iff.mp hequal)]
      · rw [if_neg hequal, if_neg fun heq => hequal (hasEqualRank_iff.mpr heq), hwinner]

theorem fallback_judged (s : SelectionState) (candidate : Option EligibleOperation) :
    (s.judged candidate).fallback = s.fallback := by
  cases candidate with
  | none => rfl
  | some candidate =>
    unfold SelectionState.judged SelectionState.consider
    cases s.winner with
    | none => rfl
    | some winner =>
      simp only
      split
      · rfl
      · split <;> rfl

/-- What judging an operation that is not the fallback contributes. -/
def candidate? (judge : CompiledOperation → Except Fault (Option EligibleOperation))
    (operation : CompiledOperation) : Option EligibleOperation :=
  if operation.fallback then none
  else
    match judge operation with
    | .ok candidate => candidate
    | .error _ => none

/-- The operations that are judged eligible. -/
def candidates (judge : CompiledOperation → Except Fault (Option EligibleOperation))
    (operations : List CompiledOperation) : List EligibleOperation :=
  operations.filterMap (candidate? judge)

theorem candidates_cons (operation : CompiledOperation) (rest : List CompiledOperation) :
    candidates judge (operation :: rest) =
      (candidate? judge operation).toList ++ candidates judge rest := by
  unfold candidates
  rw [List.filterMap_cons]
  cases candidate? judge operation with
  | none => rfl
  | some candidate => rfl

/-- Judging never threw. -/
def Judged (judge : CompiledOperation → Except Fault (Option EligibleOperation))
    (operations : List CompiledOperation) : Prop :=
  ∀ operation ∈ operations, operation.fallback = false → ∃ result, judge operation = .ok result

/-- One turn, taken apart. -/
theorem selectionStep_eq_ok {s s' : SelectionState} {operation : CompiledOperation} :
    selectionStep judge s operation = .ok s' ↔
      (operation.fallback = true ∧ s.fallback = none ∧
          s' = { s with fallback := some operation }) ∨
        (operation.fallback = false ∧ ∃ candidate, judge operation = .ok candidate ∧
          s' = s.judged candidate) := by
  unfold selectionStep
  cases hfallback : operation.fallback with
  | true =>
    simp only [if_true, bind_eq_ok, throwIf_eq_ok, pure_eq_ok, Option.isSome_eq_false_iff,
      Option.isNone_iff_eq_none, exists_const]
    constructor
    · rintro ⟨hnone, rfl⟩
      exact Or.inl ⟨trivial, hnone, rfl⟩
    · rintro (⟨-, hnone, rfl⟩ | ⟨hfalse, -⟩)
      · exact ⟨hnone, rfl⟩
      · cases hfalse
  | false =>
    simp only [Bool.false_eq_true, if_false, bind_eq_ok, pure_eq_ok]
    constructor
    · rintro ⟨candidate, hjudge, rfl⟩
      exact Or.inr ⟨trivial, candidate, hjudge, rfl⟩
    · rintro (⟨htrue, -⟩ | ⟨-, candidate, hjudge, rfl⟩)
      · cases htrue
      · exact ⟨candidate, hjudge, rfl⟩

/-- The loop returns what the pass over the candidates computes, and the one
fallback. -/
theorem selectionLoop_eq_ok {s s' : SelectionState}
    (h : selectionLoop judge s operations = .ok s') :
    Judged judge operations ∧
      s'.champion = (candidates judge operations).foldl
        (Champion.offer EligibleOperation.rank) s.champion ∧
      s'.fallback.toList = s.fallback.toList ++ operations.filter (·.fallback) := by
  induction operations generalizing s with
  | nil =>
    obtain rfl := pure_eq_ok.mp h
    have hjudged : Judged judge [] := by
      intro operation hmem
      cases hmem
    refine ⟨hjudged, rfl, ?_⟩
    rw [List.filter_nil, List.append_nil]
  | cons operation rest ih =>
    rw [selectionLoop] at h
    obtain ⟨next, hstep, hrest⟩ := bind_eq_ok.mp h
    obtain ⟨hjudged, hchampion, hfallback⟩ := ih hrest
    rcases selectionStep_eq_ok.mp hstep with ⟨hf, hnone, rfl⟩ | ⟨hf, candidate, hjudge, rfl⟩
    · refine ⟨?_, ?_, ?_⟩
      · intro o ho hnot
        rcases List.mem_cons.mp ho with rfl | ho
        · rw [hf] at hnot
          cases hnot
        · exact hjudged o ho hnot
      · have hskip : candidate? judge operation = none := by simp [candidate?, hf]
        rw [hchampion, candidates_cons, hskip]
        rfl
      · rw [hfallback, List.filter_cons_of_pos hf, hnone]
        rfl
    · have hcandidate : candidate? judge operation = candidate := by
        simp [candidate?, hf, hjudge]
      refine ⟨?_, ?_, ?_⟩
      · intro o ho hnot
        rcases List.mem_cons.mp ho with rfl | ho
        · exact ⟨candidate, hjudge⟩
        · exact hjudged o ho hnot
      · rw [hchampion, candidates_cons, hcandidate]
        cases candidate with
        | none => rfl
        | some candidate =>
          rw [Option.toList_some, List.singleton_append, List.foldl_cons, SelectionState.judged,
            champion_consider]
      · rw [hfallback, List.filter_cons_of_neg (by simp [hf]), fallback_judged]

/-- It returns wherever judging does and there is one fallback at most. -/
theorem selectionLoop_total {s : SelectionState} (hjudged : Judged judge operations)
    (hone : (s.fallback.toList ++ operations.filter (·.fallback)).length ≤ 1) :
    ∃ s', selectionLoop judge s operations = .ok s' := by
  induction operations generalizing s with
  | nil => exact ⟨s, rfl⟩
  | cons operation rest ih =>
    have hrest : Judged judge rest := fun o ho => hjudged o (List.mem_cons_of_mem _ ho)
    cases hf : operation.fallback with
    | true =>
      rw [List.filter_cons_of_pos hf] at hone
      have hnone : s.fallback = none := by
        cases hs : s.fallback with
        | none => rfl
        | some f => simp [hs] at hone
      have hstep : selectionStep judge s operation =
          .ok { s with fallback := some operation } :=
        selectionStep_eq_ok.mpr (Or.inl ⟨hf, hnone, rfl⟩)
      obtain ⟨s', hs'⟩ := ih (s := { s with fallback := some operation }) hrest
        (by simpa [hnone] using hone)
      exact ⟨s', by rw [selectionLoop]; exact bind_eq_ok.mpr ⟨_, hstep, hs'⟩⟩
    | false =>
      rw [List.filter_cons_of_neg (by simp [hf])] at hone
      obtain ⟨candidate, hjudge⟩ := hjudged operation List.mem_cons_self hf
      have hstep : selectionStep judge s operation = .ok (s.judged candidate) :=
        selectionStep_eq_ok.mpr (Or.inr ⟨hf, candidate, hjudge, rfl⟩)
      obtain ⟨s', hs'⟩ := ih (s := s.judged candidate) hrest (by rwa [fallback_judged])
      exact ⟨s', by rw [selectionLoop]; exact bind_eq_ok.mpr ⟨_, hstep, hs'⟩⟩

end Pass

-- ---------------------------------------------------------------------------
-- What selection returns
-- ---------------------------------------------------------------------------

section Selected

variable {judge : CompiledOperation → Except Fault (Option EligibleOperation)}
  {operations : List CompiledOperation} {operation : CompiledOperation}

/-- The outcome of selection: a candidate above all others, or else the fallback.
Nothing in it depends on the order of the operations. -/
def Selected (judge : CompiledOperation → Except Fault (Option EligibleOperation))
    (operations : List CompiledOperation) (operation : CompiledOperation) : Prop :=
  Judged judge operations ∧ (operations.filter (·.fallback)).length ≤ 1 ∧
    ((∃ best others, (candidates judge operations).Perm (best :: others) ∧
        (∀ other ∈ others, other.rank < best.rank) ∧ best.operation = operation) ∨
      (candidates judge operations = [] ∧ ∃ fallback ∈ operations, fallback.fallback = true ∧
        ∃ best, judge fallback = .ok (some best) ∧ best.operation = operation))

/-- What is selected does not depend on the order of the operations. -/
theorem Selected.perm {operations' : List CompiledOperation}
    (hperm : operations.Perm operations') (h : Selected judge operations operation) :
    Selected judge operations' operation := by
  obtain ⟨hjudged, hone, hcases⟩ := h
  have hcandidates : (candidates judge operations).Perm (candidates judge operations') :=
    hperm.filterMap _
  refine ⟨fun o ho => hjudged o (hperm.symm.subset ho), ?_, ?_⟩
  · rw [← (hperm.filter _).length_eq]
    exact hone
  · rcases hcases with ⟨best, others, hbest, hlt, hop⟩ | ⟨hnone, fallback, hmem, hf, hjudge⟩
    · exact Or.inl ⟨best, others, hcandidates.symm.trans hbest, hlt, hop⟩
    · rw [hnone] at hcandidates
      exact Or.inr ⟨List.nil_perm.mp hcandidates, fallback, hperm.subset hmem, hf, hjudge⟩

variable {relation : CompiledRelation} {request : ScanRequest} {inputs : ResolvedRelationInputs}

/-- The state at the end of a loop that found candidates. -/
theorem champion_of_loop {s : SelectionState}
    (h : selectionLoop judge ⟨none, false, none⟩ operations = .ok s) :
    Judged judge operations ∧
      s.champion = Champion.offers EligibleOperation.rank (candidates judge operations) ∧
      s.fallback.toList = operations.filter (·.fallback) := by
  obtain ⟨hjudged, hchampion, hfallback⟩ := selectionLoop_eq_ok h
  exact ⟨hjudged, hchampion, by simpa using hfallback⟩

/-- A relation has one fallback, so the last one found is it. -/
theorem filter_fallback_eq {fallback : CompiledOperation}
    (hone : (operations.filter (·.fallback)).length ≤ 1) (hmem : fallback ∈ operations)
    (hf : fallback.fallback = true) : operations.filter (·.fallback) = [fallback] := by
  have hin : fallback ∈ operations.filter (·.fallback) := List.mem_filter.mpr ⟨hmem, hf⟩
  cases hfilter : operations.filter (·.fallback) with
  | nil => simp [hfilter] at hin
  | cons first rest =>
    rw [hfilter, List.length_cons] at hone
    have hrest : rest = [] := List.eq_nil_of_length_eq_zero (by omega)
    rw [hfilter, hrest, List.mem_singleton] at hin
    rw [hin, hrest]

/-- What the loop returns is selected. -/
theorem selected_of_selectOperation
    (h : selectOperation relation request inputs = .ok operation) :
    Selected (evaluate relation request inputs) relation.operations operation := by
  obtain ⟨s, hloop, h⟩ := bind_eq_ok.mp h
  obtain ⟨_, htied, h⟩ := bind_eq_ok.mp h
  obtain ⟨winner, hwinner, h⟩ := bind_eq_ok.mp h
  rw [throwIf_eq_ok] at htied
  obtain ⟨hjudged, hchampion, hfallback⟩ := champion_of_loop hloop
  have hone : (relation.operations.filter (·.fallback)).length ≤ 1 := by
    rw [← hfallback]
    cases s.fallback <;> simp
  refine ⟨hjudged, hone, ?_⟩
  cases winner with
  | none => cases h
  | some best =>
    obtain rfl := pure_eq_ok.mp h
    unfold finalWinner at hwinner
    split at hwinner
    · rename_i fallback hnone hsome
      refine Or.inr ⟨?_, fallback, ?_, ?_, best, hwinner, rfl⟩
      · have hempty : (Champion.offers EligibleOperation.rank
            (candidates (evaluate relation request inputs) relation.operations)).winner = none := by
          rw [← hchampion]
          exact hnone
        exact Champion.offers_eq_none.mp hempty
      · have hin : fallback ∈ relation.operations.filter (·.fallback) := by
          rw [← hfallback, hsome]
          exact List.mem_singleton_self _
        exact (List.mem_filter.mp hin).1
      · have hin : fallback ∈ relation.operations.filter (·.fallback) := by
          rw [← hfallback, hsome]
          exact List.mem_singleton_self _
        exact (List.mem_filter.mp hin).2
    · obtain hbest := pure_eq_ok.mp hwinner
      have hoffers : Champion.offers EligibleOperation.rank
          (candidates (evaluate relation request inputs) relation.operations) =
          ⟨some best, false⟩ := by
        rw [← hchampion, SelectionState.champion, hbest, htied]
      obtain ⟨others, hperm, hlt⟩ := Champion.offers_eq_winner.mp hoffers
      exact Or.inl ⟨best, others, hperm, hlt, rfl⟩

/-- What is selected the loop returns. -/
theorem selectOperation_of_selected
    (h : Selected (evaluate relation request inputs) relation.operations operation) :
    selectOperation relation request inputs = .ok operation := by
  obtain ⟨hjudged, hone, hcases⟩ := h
  obtain ⟨s, hloop⟩ := selectionLoop_total (s := ⟨none, false, none⟩) hjudged (by simpa using hone)
  obtain ⟨-, hchampion, hfallback⟩ := champion_of_loop hloop
  refine bind_eq_ok.mpr ⟨s, hloop, ?_⟩
  rcases hcases with ⟨best, others, hperm, hlt, hop⟩ | ⟨hnone, fallback, hmem, hf, best, hjudge, hop⟩
  · have hoffers := Champion.offers_eq_winner.mpr ⟨others, hperm, hlt⟩
    rw [← hchampion] at hoffers
    have hwinner : s.winner = some best := congrArg Champion.winner hoffers
    have htied : s.winnerIsTied = false := congrArg Champion.tied hoffers
    refine bind_eq_ok.mpr ⟨(), throwIf_eq_ok.mpr htied, bind_eq_ok.mpr ⟨some best, ?_, ?_⟩⟩
    · unfold finalWinner
      rw [hwinner]
      rfl
    · exact pure_eq_ok.mpr hop
  · have hoffers : s.champion = Champion.none := by
      rw [hchampion, hnone]
      rfl
    have hwinner : s.winner = none := congrArg Champion.winner hoffers
    have htied : s.winnerIsTied = false := congrArg Champion.tied hoffers
    have hsome : s.fallback = some fallback := by
      rw [filter_fallback_eq hone hmem hf] at hfallback
      cases hs : s.fallback with
      | none => simp [hs] at hfallback
      | some f => simpa [hs] using hfallback
    refine bind_eq_ok.mpr ⟨(), throwIf_eq_ok.mpr htied, bind_eq_ok.mpr ⟨some best, ?_, ?_⟩⟩
    · unfold finalWinner
      rw [hwinner, hsome]
      exact hjudge
    · exact pure_eq_ok.mpr hop

/-- The loop returns exactly what is selected. -/
theorem selectOperation_eq_ok :
    selectOperation relation request inputs = .ok operation ↔
      Selected (evaluate relation request inputs) relation.operations operation :=
  ⟨selected_of_selectOperation, selectOperation_of_selected⟩

end Selected

end Cuac.Semantics

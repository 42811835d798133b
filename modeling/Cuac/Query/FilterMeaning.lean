import Cuac.Query.FilterTranslation
import Cuac.Predicate.Soundness

/-!
# Filter translation keeps the meaning

What a bound expression means on a row, in SQL's three-valued logic, and that the
translated predicate means the conjunction of the filters when every opaque leaf means
the expression it stands for. The translation never throws, and what it returns passes
the planner's check.

Main results:

* `translateExpression_spec` — a translated expression keeps its meaning and its budget.
* `complex_filters_translated` — so does the whole list of filters.
-/

namespace Cuac.Query

open Cuac.Lib Cuac.Connector Cuac.Predicate

-- ---------------------------------------------------------------------------
-- The meaning of an expression
-- ---------------------------------------------------------------------------

/-- `=` of DuckDB. -/
def DuckdbValue.equal : DuckdbValue → DuckdbValue → Truth
  | .null _, _ | _, .null _ => .unknown
  | .scalar a, .scalar b => Truth.ofBool (sqlEqual a b)
  | .other type payload, .other type' payload' =>
    Truth.ofBool (type == type' && payload == payload')
  | _, _ => .no

/-- The rows of a scan: the value of each column, and the meaning of the expressions that
are not columns of the scan, constants, equalities, conjunctions, disjunctions or negations. -/
structure Rows (ρ : Type) where
  cell : ρ → Bytes → Option Scalar
  value : ρ → Expression → DuckdbValue
  truth : ρ → Expression → Truth

section Meaning

variable {ρ : Type} (get : LogicalGet) (rows : Rows ρ)

/-- The value of an operand. -/
def operand (row : ρ) : Expression → DuckdbValue
  | .constant returnType value =>
    if value.type = returnType then value else rows.value row (.constant returnType value)
  | .columnRef returnType depth tableIndex columnIndex =>
    if depth = 0 ∧ tableIndex = get.tableIndex ∧ (requestedType returnType).isSome then
      match (declaredIndex get columnIndex).bind (get.names[·]?) with
      | some name =>
        match rows.cell row name with
        | some value => .scalar value
        | none => .null returnType
      | none => rows.value row (.columnRef returnType depth tableIndex columnIndex)
    else rows.value row (.columnRef returnType depth tableIndex columnIndex)
  | e => rows.value row e

mutual

/-- The meaning of a Boolean expression. -/
def meaning (row : ρ) (e : Expression) : Truth :=
  match e with
  | .comparison .equal .boolean left right =>
    (operand get rows row left).equal (operand get rows row right)
  | .conjunction .and _ children =>
    match meanings row children with
    | some parts => Truth.all parts
    | none => rows.truth row e
  | .conjunction .or _ children =>
    match meanings row children with
    | some parts => Truth.any parts
    | none => rows.truth row e
  | .operator .not _ children =>
    match meanings row children with
    | some [part] => part.not
    | _ => rows.truth row e
  | _ => rows.truth row e

/-- The meanings of the children, if none is missing. -/
def meanings (row : ρ) (children : List (Option Expression)) : Option (List Truth) :=
  match children with
  | [] => some []
  | child :: rest => do
    let first ← meaningOf row child
    let others ← meanings row rest
    pure (first :: others)

def meaningOf (row : ρ) (child : Option Expression) : Option Truth :=
  match child with
  | none => none
  | some child => some (meaning row child)

end

end Meaning

/-- A child of an expression. -/
def Expression.child : Expression → Nat → Option Expression
  | .conjunction _ _ children, i => children[i]?.join
  | .operator _ _ children, i => children[i]?.join
  | _, _ => none

/-- The expression at a path, whose head is the last turn. -/
def Expression.sub (root : Expression) : List Nat → Option Expression
  | [] => some root
  | i :: path => (root.sub path).bind (·.child i)

/-- What DuckDB evaluates: the only filter, or the conjunction of all. -/
def filterRoot : List Expression → Expression
  | [filter] => filter
  | filters => .conjunction .and .boolean (filters.map some)

/-- An opaque leaf means the expression at its path. -/
def leafMeaning {ρ : Type} (get : LogicalGet) (rows : Rows ρ) (root : Expression) (row : ρ)
    (path : List Nat) : Truth :=
  match root.sub path with
  | some e => meaning get rows row e
  | none => .unknown

-- ---------------------------------------------------------------------------
-- Comparisons
-- ---------------------------------------------------------------------------

theorem ieeeEq_comm (v w : Double) : v.ieeeEq w = w.ieeeEq v := by
  unfold Double.ieeeEq
  rw [Bool.and_comm (!v.isNan), Bool.and_comm v.isZero, Bool.beq_comm]

theorem same_comm (a b : Scalar) : a.same b = b.same a := by
  cases a <;> cases b <;> simp [Scalar.same, Bool.beq_comm, ieeeEq_comm]

theorem sqlEqual_comm (a b : Scalar) : sqlEqual a b = sqlEqual b a := by
  unfold sqlEqual
  rw [same_comm]
  cases a <;> cases b <;> simp [Bool.and_comm]

theorem equal_comm (a b : DuckdbValue) : a.equal b = b.equal a := by
  cases a <;> cases b <;>
    simp [DuckdbValue.equal, sqlEqual_comm, Bool.beq_comm]

/-- A literal is sent as its canonical zero, which selects the same values. -/
theorem sqlEqual_normalizeZero (v : Scalar) (x : Double) :
    sqlEqual v (.double x.normalizeZero) = sqlEqual v (.double x) := by
  by_cases hzero : x.isZero = true
  · have hnan : x.isNan = false := by
      simp only [Double.isZero, Bool.and_eq_true, beq_iff_eq] at hzero
      simp [Double.isNan, hzero.1]
    have hsame : Scalar.same (.double x.normalizeZero) (.double x) = true := by
      have hcanonical : (⟨0⟩ : Double).isNan = false := by decide
      have hcanonicalZero : (⟨0⟩ : Double).isZero = true := by decide
      simp [Scalar.same, Double.ieeeEq, Double.normalizeZero, hzero, hnan, hcanonical,
        hcanonicalZero]
    exact sqlEqual_congr hsame v
  · rw [Double.normalizeZero, if_neg hzero]

theorem requestedValue_spec {value : Scalar} (h : literalInRange value = true) :
    ∃ literal, requestedValue value = .ok literal ∧ literal.kind = value.kind ∧
      ∀ v, sqlEqual v literal = sqlEqual v value := by
  cases value with
  | double x => exact ⟨_, rfl, rfl, fun v => sqlEqual_normalizeZero v x⟩
  | timestamptz microseconds =>
    have hrange : isTimestamptzMicroseconds microseconds = true := h
    refine ⟨.timestamptz microseconds, ?_, rfl, fun _ => rfl⟩
    simp [requestedValue, hrange, throwIf]
  | boolean value => exact ⟨_, rfl, rfl, fun _ => rfl⟩
  | bigint value => exact ⟨_, rfl, rfl, fun _ => rfl⟩
  | varchar value => exact ⟨_, rfl, rfl, fun _ => rfl⟩

/-- A literal that the adapter takes is a constant that is not NULL. -/
theorem requestedLiteral_spec (expected : ScalarKind) (e : Expression) :
    ∃ o, requestedLiteral expected e = .ok o ∧ ∀ literal, o = some literal →
      literal.kind = expected ∧ ∃ value, e = .constant (ScalarKind.logicalType value.kind)
        (.scalar value) ∧ ∀ v, sqlEqual v literal = sqlEqual v value := by
  unfold requestedLiteral
  split
  · rename_i returnType value
    split
    · exact ⟨none, rfl, by simp⟩
    rename_i htype
    split
    · exact ⟨none, rfl, by simp⟩
    rename_i hkind
    split
    · exact ⟨none, rfl, by simp⟩
    rename_i hrange
    obtain ⟨literal, hvalue, hliteral, hequal⟩ := requestedValue_spec (by simpa using hrange)
    refine ⟨some literal, by rw [hvalue]; rfl, ?_⟩
    intro literal' heq
    obtain rfl := Option.some.inj heq
    rw [not_not] at htype hkind
    exact ⟨hliteral.trans hkind, value, by rw [htype], hequal⟩
  · exact ⟨none, rfl, by simp⟩

section Comparison

variable {ρ : Type} {get : LogicalGet} (rows : Rows ρ) {columns : List CompiledColumn}

theorem resolveBoundColumn_spec (hcolumns : columns.map (·.name) = get.names) {e : Expression}
    {index : Nat} {kind : ScalarKind} (h : resolveBoundColumn get e = some (index, kind)) :
    ∃ column returnType, columns[index]? = some column ∧ ∀ row, operand get rows row e =
      match rows.cell row column.name with
      | some value => .scalar value
      | none => .null returnType := by
  unfold resolveBoundColumn at h
  split at h
  · rename_i returnType depth tableIndex columnIndex
    split at h
    · cases h
    rename_i hnames
    split at h
    · cases h
    rename_i hbinding
    split at h
    · cases h
    rename_i declared hdeclared
    split at h
    · rename_i htype
      obtain ⟨kind', hrequested, heq⟩ := Option.map_eq_some_iff.mp h
      obtain ⟨rfl, rfl⟩ := Prod.mk.inj heq
      simp only [Bool.or_eq_true, decide_eq_true_eq, not_or, not_not] at hnames hbinding
      have hlt : declared < columns.length := by
        have hbound : declared < get.returnedTypes.length := by
          rw [List.getElem?_eq_some_iff] at htype
          exact htype.1
        rw [← hnames.2, ← hcolumns, List.length_map] at hbound
        exact hbound
      refine ⟨columns[declared], returnType, List.getElem?_eq_getElem hlt, fun row => ?_⟩
      have hname : get.names[declared]? = some columns[declared].name := by
        rw [← hcolumns, List.getElem?_map, List.getElem?_eq_getElem hlt, Option.map_some]
      have hcond : depth = 0 ∧ tableIndex = get.tableIndex ∧
          (requestedType returnType).isSome = true := ⟨hbinding.1, hbinding.2, by rw [hrequested]; rfl⟩
      rw [operand, if_pos hcond, hdeclared, Option.bind_some, hname]
    · cases h
  · cases h

theorem columnAndLiteral_spec (hcolumns : columns.map (·.name) = get.names)
    (column literal : Expression) :
    ∃ o, columnAndLiteral get column literal = .ok o ∧ ∀ index kind value,
      o = some (index, kind, value) → value.kind = kind ∧ ∀ row,
        comparisonTruth columns rows.cell row index value =
          (operand get rows row column).equal (operand get rows row literal) := by
  unfold columnAndLiteral
  split
  · exact ⟨none, rfl, by simp⟩
  · rename_i index kind hresolve
    obtain ⟨o, hliteral, hspec⟩ := requestedLiteral_spec kind literal
    refine ⟨o.map fun value => (index, kind, value), by rw [hliteral]; rfl, ?_⟩
    intro index' kind' value heq
    obtain ⟨value', rfl, heq⟩ := Option.map_eq_some_iff.mp heq
    obtain ⟨rfl, rfl, rfl⟩ : index = index' ∧ kind = kind' ∧ value' = value := by simpa using heq
    obtain ⟨hkind, constant, rfl, hequal⟩ := hspec value' rfl
    refine ⟨hkind, fun row => ?_⟩
    obtain ⟨declared, returnType, hdeclared, hoperand⟩ :=
      resolveBoundColumn_spec rows hcolumns hresolve
    have hconstant : operand get rows row (.constant (ScalarKind.logicalType constant.kind)
        (.scalar constant)) = .scalar constant := if_pos rfl
    rw [hoperand row, hconstant, comparisonTruth, hdeclared]
    cases hcell : rows.cell row declared.name with
    | none => simp [hcell, equals, DuckdbValue.equal]
    | some v => simp [hcell, equals, DuckdbValue.equal, hequal]

/-- The end of `TranslateComparison`, from the column and the literal it found. -/
def comparisonOf : Option (Nat × ScalarKind × Scalar) → Except Fault (Option RequestedPredicate)
  | none => pure none
  | some (index, kind, literal) => some <$> comparisonNode index kind literal

/-- A comparison that is translated means the equality. -/
theorem translateComparison_spec (hcolumns : columns.map (·.name) = get.names) (e : Expression) :
    ∃ o, translateComparison get e = .ok o ∧ ∀ p, o = some p →
      ∃ index kind value, p = .comparison index kind value ∧
        ∀ row, comparisonTruth columns rows.cell row index value = meaning get rows row e := by
  unfold translateComparison
  split
  · rename_i left right
    have hmeaning : ∀ row, meaning get rows row (.comparison .equal .boolean left right) =
        (operand get rows row left).equal (operand get rows row right) := by
      intro row
      rw [meaning]
    have hdone : ∀ found : Option (Nat × ScalarKind × Scalar),
        (∀ index kind value, found = some (index, kind, value) → value.kind = kind ∧
          ∀ row, comparisonTruth columns rows.cell row index value =
            (operand get rows row left).equal (operand get rows row right)) →
        ∃ o, comparisonOf found = .ok o ∧ ∀ p, o = some p →
          ∃ index kind value, p = .comparison index kind value ∧
            ∀ row, comparisonTruth columns rows.cell row index value =
              meaning get rows row (.comparison .equal .boolean left right) := by
      intro found hfound
      cases found with
      | none => exact ⟨none, rfl, by simp⟩
      | some found =>
        obtain ⟨index, kind, value⟩ := found
        obtain ⟨hkind, htruth⟩ := hfound index kind value rfl
        refine ⟨some (.comparison index kind value), ?_, ?_⟩
        · simp [comparisonOf, comparisonNode, hkind, throwIf]
        · intro p hp
          exact ⟨index, kind, value, (Option.some.inj hp).symm, fun row => by
            rw [htruth row, hmeaning row]⟩
    obtain ⟨forward, hforward, hspec⟩ :=
      columnAndLiteral_spec rows hcolumns left right
    rw [hforward]
    cases forward with
    | some found => exact hdone (some found) hspec
    | none =>
      obtain ⟨backward, hbackward, hspec'⟩ :=
        columnAndLiteral_spec rows hcolumns right left
      obtain ⟨o, ho, hmeant⟩ := hdone backward fun index kind value heq =>
        ⟨(hspec' index kind value heq).1, fun row => by
          rw [(hspec' index kind value heq).2 row, equal_comm]⟩
      refine ⟨o, ?_, hmeant⟩
      rw [← ho]
      show (columnAndLiteral get right left >>= _) = _
      rw [hbackward]
      rfl
  · exact ⟨none, rfl, by simp⟩

end Comparison

-- ---------------------------------------------------------------------------
-- Nodes
-- ---------------------------------------------------------------------------

open RequestedPredicate in
theorem measureChildren_spec {depth nodeCount : Nat} {children : List RequestedPredicate}
    (h : nodeCount + nodeCounts children ≤ maxRequestedPredicateNodes) :
    ∃ depth', measureChildren depth nodeCount children =
        .ok (depth', nodeCount + nodeCounts children) ∧
      depth' ≤ max depth (deepest children + 1) := by
  induction children generalizing depth nodeCount with
  | nil => exact ⟨depth, rfl, Nat.le_max_left ..⟩
  | cons child rest ih =>
    rw [nodeCounts] at h
    have hfits : ¬ maxRequestedPredicateNodes - nodeCount < child.nodeCount := by omega
    obtain ⟨depth', hmeasure, hdepth⟩ :=
      @ih (max depth (child.depth + 1)) (nodeCount + child.nodeCount) (by omega)
    refine ⟨depth', ?_, ?_⟩
    · rw [measureChildren, nodeCounts, ← Nat.add_assoc, ← hmeasure]
      simp only [hfits, throwIf, decide_false, Bool.false_eq_true, if_false]
      rfl
    · rw [deepest]
      omega

open RequestedPredicate in
theorem booleanNode_spec {node : List RequestedPredicate → RequestedPredicate}
    {children : List RequestedPredicate} (hlength : 2 ≤ children.length)
    (hnodes : 1 + nodeCounts children ≤ maxRequestedPredicateNodes)
    (hdepth : deepest children + 1 ≤ maxRequestedPredicateDepth) :
    booleanNode node children = .ok (node children) := by
  obtain ⟨depth', hmeasure, hle⟩ := @measureChildren_spec 1 1 children hnodes
  have hshort : ¬ children.length < 2 := by omega
  have hdeep : ¬ maxRequestedPredicateDepth < depth' := by
    have hone : 1 ≤ maxRequestedPredicateDepth := by decide
    omega
  have hmany : ¬ maxRequestedPredicateNodes < 1 + nodeCounts children := by omega
  simp only [booleanNode, hmeasure, hshort, throwIf]
  simp [hdeep, hmany]

-- ---------------------------------------------------------------------------
-- Translation
-- ---------------------------------------------------------------------------

section Translation

variable {ρ : Type} (get : LogicalGet) (rows : Rows ρ) (columns : List CompiledColumn)

/-- What a translation of `e` at `depth` guarantees. -/
structure Translated (e : Expression) (depth : Nat) (state state' : TranslationState)
    (result : TranslationResult) : Prop where
  bounded : state'.nodeCount ≤ maxRequestedPredicateNodes
  grows : state.nodeCount ≤ state'.nodeCount
  complete : result.complete = !result.candidate.containsOpaque
  restricted : result.candidate.isUnrestricted = false
  /-- Within the budget, the nodes were paid for and the depth is left over. -/
  fits : state'.exceededBudget = false →
    result.candidate.depth + depth ≤ maxRequestedPredicateDepth + 1 ∧
      state.nodeCount + result.candidate.nodeCount ≤ state'.nodeCount
  means : ∀ root path row, root.sub path = some e →
    truth columns rows.cell (leafMeaning get rows root) row path result.candidate =
      meaning get rows row e

/-- What the loop over the children guarantees when it comes to its end. -/
structure TranslatedAll (children : List (Option Expression)) (depth : Nat)
    (state state' : TranslationState) (candidates : List RequestedPredicate) (complete : Bool) :
    Prop where
  within : state'.exceededBudget = false
  length : candidates.length = children.length
  complete : complete = !RequestedPredicate.anyContainsOpaque candidates
  depth : RequestedPredicate.deepest candidates + depth ≤ maxRequestedPredicateDepth + 1
  nodes : state.nodeCount + RequestedPredicate.nodeCounts candidates ≤ state'.nodeCount
  means : ∀ root path next row, (∀ i child, children[i]? = some (some child) →
      root.sub ((next + i) :: path) = some child) →
    meanings get rows row children =
      some (truths columns rows.cell (leafMeaning get rows root) row path next candidates)

variable {get rows columns}

/-- An opaque leaf means its expression. -/
theorem translated_unsupported {e : Expression} {depth : Nat} {state state' : TranslationState}
    (position : UInt64) (hbounded : state'.nodeCount ≤ maxRequestedPredicateNodes)
    (hgrows : state.nodeCount ≤ state'.nodeCount)
    (hfits : state'.exceededBudget = false →
      depth ≤ maxRequestedPredicateDepth ∧ state.nodeCount + 1 ≤ state'.nodeCount) :
    Translated get rows columns e depth state state' (unsupported position) where
  bounded := hbounded
  grows := hgrows
  complete := rfl
  restricted := rfl
  fits hwithin := by
    obtain ⟨hdepth, hnodes⟩ := hfits hwithin
    refine ⟨?_, hnodes⟩
    show 1 + depth ≤ _
    omega
  means root path row hsub := by
    show leafMeaning get rows root row path = _
    rw [leafMeaning, hsub]

/-- A comparison pays for one node. -/
theorem translated_comparison {e : Expression} {depth index : Nat} {kind : ScalarKind}
    {value : Scalar} {state : TranslationState} (hdepth : depth ≤ maxRequestedPredicateDepth)
    (hnodes : state.nodeCount < maxRequestedPredicateNodes)
    (hmeans : ∀ row, comparisonTruth columns rows.cell row index value = meaning get rows row e) :
    Translated get rows columns e depth state
      { state with nextPosition := state.nextPosition + 1, nodeCount := state.nodeCount + 1 }
      ⟨.comparison index kind value, true⟩ where
  bounded := hnodes
  grows := Nat.le_succ _
  complete := rfl
  restricted := rfl
  fits _ := by
    refine ⟨?_, Nat.le_refl _⟩
    show 1 + depth ≤ _
    omega
  means root path row _ := hmeans row

theorem sub_child {root e : Expression} {path : List Nat} {i : Nat} (h : root.sub path = some e) :
    root.sub (i :: path) = e.child i := by
  rw [Expression.sub, h, Option.bind_some]

/-- A node over children that all fit. -/
theorem translated_boolean {node : List RequestedPredicate → RequestedPredicate}
    {join : List Truth → Truth} {e : Expression} {children : List (Option Expression)}
    {depth : Nat} {state state₁ state' : TranslationState} {candidates : List RequestedPredicate}
    {complete : Bool} (hlength : ¬ children.length < 2) (hpos : 1 ≤ depth)
    (hpaid : state₁.nodeCount = state.nodeCount + 1)
    (hbounded : state'.nodeCount ≤ maxRequestedPredicateNodes)
    (hall : TranslatedAll get rows columns children (depth + 1) state₁ state' candidates complete)
    (hleaf : (node candidates).containsOpaque = RequestedPredicate.anyContainsOpaque candidates)
    (hrestricted : (node candidates).isUnrestricted = false)
    (hnodeDepth : (node candidates).depth = max 1 (RequestedPredicate.deepest candidates + 1))
    (hnodeCount : (node candidates).nodeCount = RequestedPredicate.nodeCounts candidates + 1)
    (htruth : ∀ hidden row path, truth columns rows.cell hidden row path (node candidates) =
      join (truths columns rows.cell hidden row path 0 candidates))
    (hchild : ∀ i, e.child i = children[i]?.join)
    (hmeaning : ∀ row parts, meanings get rows row children = some parts →
      meaning get rows row e = join parts) :
    booleanNode node candidates = .ok (node candidates) ∧
      Translated get rows columns e depth state state' ⟨node candidates, complete⟩ := by
  have hnodes := hall.nodes
  have hdeep := hall.depth
  have hcount := hall.length
  constructor
  · exact booleanNode_spec (by omega) (by omega) (by omega)
  · exact {
      bounded := hbounded
      grows := by omega
      complete := by rw [hleaf]; exact hall.complete
      restricted := hrestricted
      fits := by
        intro _
        constructor
        · show (node candidates).depth + depth ≤ _
          rw [hnodeDepth]
          omega
        · show state.nodeCount + (node candidates).nodeCount ≤ _
          rw [hnodeCount]
          omega
      means := by
        intro root path row hsub
        have hparts := hall.means root path 0 row fun i child hi => by
          rw [Nat.zero_add, sub_child hsub, hchild, hi]
          rfl
        rw [hmeaning row _ hparts]
        exact htruth _ row path }

/-- A negation over a child that fits. -/
theorem translated_negation {returnType : LogicalType} {child : Expression} {depth : Nat}
    {state state₁ state' : TranslationState} {translated : TranslationResult} (hpos : 1 ≤ depth)
    (hpaid : state₁.nodeCount = state.nodeCount + 1) (hwithin : state'.exceededBudget = false)
    (hchild : Translated get rows columns child (depth + 1) state₁ state' translated) :
    negationNode translated.candidate = .ok (.negation translated.candidate) ∧
      Translated get rows columns (.operator .not returnType [some child]) depth state state'
        ⟨.negation translated.candidate, translated.complete⟩ := by
  obtain ⟨hdeep, hnodes⟩ := hchild.fits hwithin
  have hle := hchild.bounded
  constructor
  · have hshallow : ¬ maxRequestedPredicateDepth < translated.candidate.depth + 1 := by omega
    have hfew : ¬ maxRequestedPredicateNodes < translated.candidate.nodeCount + 1 := by omega
    simp only [negationNode, hshallow, hfew, throwIf, decide_false, Bool.or_self,
      Bool.false_eq_true, if_false]
    rfl
  · exact {
      bounded := hle
      grows := by omega
      complete := hchild.complete
      restricted := rfl
      fits := by
        intro _
        constructor
        · show translated.candidate.depth + 1 + depth ≤ _
          omega
        · show state.nodeCount + (translated.candidate.nodeCount + 1) ≤ _
          omega
      means := by
        intro root path row hsub
        have hmeans := hchild.means root (0 :: path) row (by rw [sub_child hsub]; rfl)
        rw [meaning, meanings, meanings, meaningOf, ← hmeans]
        rfl }

theorem TranslatedAll.cons {child : Expression} {rest : List (Option Expression)} {depth : Nat}
    {state state₁ state' : TranslationState} {translated : TranslationResult}
    {candidates : List RequestedPredicate} {complete : Bool}
    (hrest : TranslatedAll get rows columns rest depth state₁ state' candidates complete)
    (hfirst : Translated get rows columns child depth state state₁ translated)
    (hwithin : state₁.exceededBudget = false) :
    TranslatedAll get rows columns (some child :: rest) depth state state'
      (translated.candidate :: candidates) (translated.complete && complete) := by
  obtain ⟨hdeep, hnodes⟩ := hfirst.fits hwithin
  have hdeepest := hrest.depth
  have hpaid := hrest.nodes
  exact {
    within := hrest.within
    length := by rw [List.length_cons, List.length_cons, hrest.length]
    complete := by
      rw [hfirst.complete, hrest.complete, RequestedPredicate.anyContainsOpaque, Bool.not_or]
    depth := by
      rw [RequestedPredicate.deepest]
      omega
    nodes := by
      rw [RequestedPredicate.nodeCounts]
      omega
    means := by
      intro root path next row hsub
      have hhead := hfirst.means root (next :: path) row (hsub 0 child rfl)
      have htail := hrest.means root path (next + 1) row fun i child hi => by
        have hnext := hsub (i + 1) child (by simpa using hi)
        rwa [show next + (i + 1) = next + 1 + i by omega] at hnext
      rw [meanings, htail, meaningOf, truths, hhead]
      rfl }

mutual

theorem translateExpression_spec (hcolumns : columns.map (·.name) = get.names) (e : Expression)
    (depth : Nat) (state : TranslationState) (hpos : 1 ≤ depth)
    (hwithin : state.exceededBudget = false)
    (hbounded : state.nodeCount ≤ maxRequestedPredicateNodes) :
    ∃ result state', translateExpression get e depth state = .ok (result, state') ∧
      Translated get rows columns e depth state state' result := by
  unfold translateExpression
  by_cases hbudget : (decide (maxRequestedPredicateDepth < depth) ||
      decide (maxRequestedPredicateNodes ≤ state.nodeCount)) = true
  · refine ⟨_, _, if_pos hbudget, ?_⟩
    exact translated_unsupported _ hbounded (Nat.le_refl _) fun h => by cases h
  · rw [if_neg hbudget]
    simp only [Bool.or_eq_true, decide_eq_true_eq, not_or, Nat.not_lt, Nat.not_le] at hbudget
    obtain ⟨hdepth, hnodes⟩ := hbudget
    obtain ⟨o, hcomparison, hspec⟩ := translateComparison_spec rows hcolumns e
    rw [hcomparison]
    simp only [ok_bind]
    have hleaf : ∀ state' : TranslationState,
        state'.nodeCount ≤ maxRequestedPredicateNodes → state.nodeCount + 1 ≤ state'.nodeCount →
        Translated get rows columns e depth state state' (unsupported state.nextPosition) :=
      fun state' hle hge =>
        translated_unsupported _ hle (Nat.le_of_succ_le hge) fun _ => ⟨hdepth, hge⟩
    cases o with
    | some p =>
      obtain ⟨index, kind, value, rfl, hmeans⟩ := hspec p rfl
      exact ⟨_, _, rfl, translated_comparison hdepth hnodes hmeans⟩
    | none =>
      dsimp only
      split
      · -- a conjunction
        rename_i returnType children
        split
        · exact ⟨_, _, rfl, hleaf _ hnodes (Nat.le_refl _)⟩
        rename_i hlength
        obtain ⟨found, state', hchildren, hgrows, hle, hall⟩ :=
          translateChildren_spec hcolumns children (depth + 1)
            ⟨state.nodeCount + 1, state.nextPosition + 1, state.exceededBudget⟩ (by omega) (by omega)
            hwithin hnodes
        rw [hchildren]
        simp only [ok_bind]
        cases found with
        | none => exact ⟨_, _, rfl, hleaf _ hle hgrows⟩
        | some found =>
          obtain ⟨candidates, complete⟩ := found
          obtain ⟨hnode, htranslated⟩ := @translated_boolean ρ get rows columns .conjunction Truth.all
            (.conjunction .and returnType children) children depth state _ state' candidates complete
            hlength hpos rfl hle (hall candidates complete rfl) rfl rfl rfl rfl
            (fun _ _ _ => rfl) (fun _ => rfl) (fun row parts h => by rw [meaning, h])
          refine ⟨_, _, ?_, htranslated⟩
          dsimp only [conjunctionNode]
          rw [hnode]
          rfl
      · -- a disjunction
        rename_i returnType children
        split
        · exact ⟨_, _, rfl, hleaf _ hnodes (Nat.le_refl _)⟩
        rename_i hlength
        obtain ⟨found, state', hchildren, hgrows, hle, hall⟩ :=
          translateChildren_spec hcolumns children (depth + 1)
            ⟨state.nodeCount + 1, state.nextPosition + 1, state.exceededBudget⟩ (by omega) (by omega)
            hwithin hnodes
        rw [hchildren]
        simp only [ok_bind]
        cases found with
        | none => exact ⟨_, _, rfl, hleaf _ hle hgrows⟩
        | some found =>
          obtain ⟨candidates, complete⟩ := found
          obtain ⟨hnode, htranslated⟩ := @translated_boolean ρ get rows columns .disjunction Truth.any
            (.conjunction .or returnType children) children depth state _ state' candidates complete
            hlength hpos rfl hle (hall candidates complete rfl) rfl rfl rfl rfl
            (fun _ _ _ => rfl) (fun _ => rfl) (fun row parts h => by rw [meaning, h])
          refine ⟨_, _, ?_, htranslated⟩
          dsimp only [disjunctionNode]
          rw [hnode]
          rfl
      · -- a negation
        rename_i returnType children
        obtain ⟨found, state', honly, hgrows, hle, hspec'⟩ :=
          translateOnly_spec hcolumns children (depth + 1)
            ⟨state.nodeCount + 1, state.nextPosition + 1, state.exceededBudget⟩ (by omega) hwithin
            hnodes
        rw [honly]
        simp only [ok_bind]
        cases found with
        | none => exact ⟨_, _, rfl, hleaf _ hle hgrows⟩
        | some translated =>
          obtain ⟨child, rfl, hfits, hchild⟩ := hspec' translated rfl
          obtain ⟨hnode, htranslated⟩ :=
            @translated_negation ρ get rows columns returnType child depth state _ _ _ hpos rfl
              hfits hchild
          refine ⟨_, _, ?_, htranslated⟩
          dsimp only
          rw [hnode]
          rfl
      · exact ⟨_, _, rfl, hleaf _ hnodes (Nat.le_refl _)⟩

theorem translateChildren_spec (hcolumns : columns.map (·.name) = get.names)
    (children : List (Option Expression)) (depth : Nat) (state : TranslationState)
    (hpos : 1 ≤ depth) (hdepth : depth ≤ maxRequestedPredicateDepth + 1)
    (hwithin : state.exceededBudget = false)
    (hbounded : state.nodeCount ≤ maxRequestedPredicateNodes) :
    ∃ o state', translateChildren get children depth state = .ok (o, state') ∧
      state.nodeCount ≤ state'.nodeCount ∧ state'.nodeCount ≤ maxRequestedPredicateNodes ∧
      ∀ candidates complete, o = some (candidates, complete) →
        TranslatedAll get rows columns children depth state state' candidates complete := by
  cases children with
  | nil =>
    refine ⟨_, _, rfl, Nat.le_refl _, hbounded, ?_⟩
    intro candidates complete heq
    obtain ⟨rfl, rfl⟩ : [] = candidates ∧ true = complete := by simpa using heq
    exact {
      within := hwithin
      length := rfl
      complete := rfl
      depth := by rw [RequestedPredicate.deepest]; omega
      nodes := Nat.le_refl _
      means := fun _ _ _ _ _ => rfl }
  | cons child rest =>
    obtain ⟨found, state₁, hchild, hgrows₁, hle₁, hfirst⟩ :=
      translateChild_spec hcolumns child depth state hpos hwithin hbounded
    unfold translateChildren
    rw [hchild]
    simp only [ok_bind]
    cases found with
    | none => exact ⟨_, _, rfl, hgrows₁, hle₁, fun _ _ heq => by cases heq⟩
    | some translated =>
      obtain ⟨child, rfl, hfits, hfirst⟩ := hfirst translated rfl
      obtain ⟨others, state', hrest, hgrows, hle, hall⟩ :=
        translateChildren_spec hcolumns rest depth state₁ hpos hdepth hfits hle₁
      dsimp only
      rw [hrest]
      simp only [ok_bind]
      refine ⟨_, _, rfl, Nat.le_trans hgrows₁ hgrows, hle, ?_⟩
      intro candidates complete heq
      obtain ⟨⟨tail, complete'⟩, rfl, hpair⟩ := Option.map_eq_some_iff.mp heq
      obtain ⟨rfl, rfl⟩ := Prod.mk.inj hpair
      exact (hall tail complete' rfl).cons hfirst hfits

theorem translateOnly_spec (hcolumns : columns.map (·.name) = get.names)
    (children : List (Option Expression)) (depth : Nat) (state : TranslationState)
    (hpos : 1 ≤ depth) (hwithin : state.exceededBudget = false)
    (hbounded : state.nodeCount ≤ maxRequestedPredicateNodes) :
    ∃ o state', translateOnly get children depth state = .ok (o, state') ∧
      state.nodeCount ≤ state'.nodeCount ∧ state'.nodeCount ≤ maxRequestedPredicateNodes ∧
      ∀ translated, o = some translated → ∃ child, children = [some child] ∧
        state'.exceededBudget = false ∧
        Translated get rows columns child depth state state' translated := by
  match children with
  | [] => exact ⟨_, _, rfl, Nat.le_refl _, hbounded, fun _ heq => by cases heq⟩
  | _ :: _ :: _ => exact ⟨_, _, rfl, Nat.le_refl _, hbounded, fun _ heq => by cases heq⟩
  | [child] =>
    obtain ⟨o, state', hchild, hgrows, hle, hspec⟩ :=
      translateChild_spec hcolumns child depth state hpos hwithin hbounded
    refine ⟨o, state', hchild, hgrows, hle, ?_⟩
    intro translated heq
    obtain ⟨child, rfl, hfits, htranslated⟩ := hspec translated heq
    exact ⟨child, rfl, hfits, htranslated⟩

theorem translateChild_spec (hcolumns : columns.map (·.name) = get.names)
    (child : Option Expression) (depth : Nat) (state : TranslationState) (hpos : 1 ≤ depth)
    (hwithin : state.exceededBudget = false)
    (hbounded : state.nodeCount ≤ maxRequestedPredicateNodes) :
    ∃ o state', translateChild get child depth state = .ok (o, state') ∧
      state.nodeCount ≤ state'.nodeCount ∧ state'.nodeCount ≤ maxRequestedPredicateNodes ∧
      ∀ translated, o = some translated → ∃ e, child = some e ∧ state'.exceededBudget = false ∧
        Translated get rows columns e depth state state' translated := by
  match child with
  | none => exact ⟨_, _, rfl, Nat.le_refl _, hbounded, fun _ heq => by cases heq⟩
  | some e =>
    obtain ⟨translated, state', htranslate, hspec⟩ :=
      translateExpression_spec hcolumns e depth state hpos hwithin hbounded
    refine ⟨_, state', by rw [translateChild, htranslate]; rfl, hspec.grows, hspec.bounded, ?_⟩
    intro translated' heq
    split at heq
    · cases heq
    · rename_i hfits
      obtain rfl := Option.some.inj heq
      exact ⟨e, rfl, by simpa using hfits, hspec⟩

end

/-- The loop over the filters is the loop over the children of their conjunction. -/
theorem translateFilters_eq (get : LogicalGet) (filters : List Expression) (depth : Nat)
    (state : TranslationState) :
    translateFilters get filters depth state =
      translateChildren get (filters.map some) depth state := by
  induction filters generalizing state with
  | nil => rfl
  | cons filter rest ih =>
    rw [translateFilters, List.map_cons, translateChildren]
    congr
    funext found
    obtain ⟨found, state'⟩ := found
    cases found with
    | none => rfl
    | some translated =>
      dsimp only
      rw [ih]

theorem meanings_map_some (row : ρ) (filters : List Expression) :
    meanings get rows row (filters.map some) = some (filters.map (meaning get rows row)) := by
  induction filters with
  | nil => rfl
  | cons filter rest ih =>
    rw [List.map_cons, meanings, ih, meaningOf, List.map_cons]
    rfl

end Translation

-- ---------------------------------------------------------------------------
-- The whole filter
-- ---------------------------------------------------------------------------

/-- What `TranslateComplexFilters` promises of its result. -/
structure Faithful {ρ : Type} (get : LogicalGet) (rows : Rows ρ) (columns : List CompiledColumn)
    (filters : List Expression) (translation : ComplexFilterTranslation) : Prop where
  depth : translation.candidate.depth ≤ maxRequestedPredicateDepth
  nodes : translation.candidate.nodeCount ≤ maxRequestedPredicateNodes
  means : ∀ row, truth columns rows.cell (leafMeaning get rows (filterRoot filters)) row []
    translation.candidate = Truth.all (filters.map (meaning get rows row))
  unrestricted : translation.retainedScope = .unrestricted ↔ filters = []
  requested : translation.retainedScope = .requestedPredicate ↔
    filters ≠ [] ∧ translation.candidate.containsOpaque = false
  complete : translation.retainedScope = .completeDuckdbFilter ↔
    translation.candidate.containsOpaque = true
  bare : translation.candidate.isUnrestricted = true ↔ filters = []

section Whole

variable {ρ : Type} {get : LogicalGet} {rows : Rows ρ} {columns : List CompiledColumn}
  {filters : List (Option Expression)}

theorem meaning_filterRoot (row : ρ) (filters : List Expression) :
    meaning get rows row (filterRoot filters) = Truth.all (filters.map (meaning get rows row)) := by
  unfold filterRoot
  split
  · rename_i filter
    show _ = Truth.and _ .yes
    cases meaning get rows row filter <;> rfl
  · rw [meaning, meanings_map_some]

/-- A filter that does not fit stays with DuckDB as a whole. -/
theorem faithful_unseen {filters : List Expression} (hne : filters ≠ []) :
    Faithful get rows columns filters ⟨.unsupported 0, .completeDuckdbFilter⟩ where
  depth := by decide
  nodes := by decide
  means row := by
    show leafMeaning get rows (filterRoot filters) row [] = _
    exact meaning_filterRoot row filters
  unrestricted := iff_of_false (by simp) hne
  requested := iff_of_false (by simp) (by simp [RequestedPredicate.containsOpaque])
  complete := iff_of_true rfl rfl
  bare := iff_of_false (by simp [RequestedPredicate.isUnrestricted]) hne

/-- A candidate whose flag tells whether it has an opaque leaf. -/
theorem faithful_candidate {filters : List Expression} {candidate : RequestedPredicate}
    {complete : Bool} (hne : filters ≠ []) (hdepth : candidate.depth ≤ maxRequestedPredicateDepth)
    (hnodes : candidate.nodeCount ≤ maxRequestedPredicateNodes)
    (hcomplete : complete = !candidate.containsOpaque)
    (hrestricted : candidate.isUnrestricted = false)
    (hmeans : ∀ row, truth columns rows.cell (leafMeaning get rows (filterRoot filters)) row []
      candidate = meaning get rows row (filterRoot filters)) :
    Faithful get rows columns filters
      ⟨candidate, if complete then .requestedPredicate else .completeDuckdbFilter⟩ where
  depth := hdepth
  nodes := hnodes
  means row := (hmeans row).trans (meaning_filterRoot row filters)
  unrestricted := by cases complete <;> simp [hne]
  requested := by cases complete <;> simp_all
  complete := by cases complete <;> simp_all
  bare := iff_of_false (by simp [hrestricted]) hne

theorem translate_none (h : filters.filterMap id = []) :
    ∃ translation, translateComplexFilters get filters = .ok translation ∧
      Faithful get rows columns (filters.filterMap id) translation := by
  refine ⟨⟨.unrestricted, .unrestricted⟩, by unfold translateComplexFilters; rw [h]; rfl, ?_⟩
  rw [h]
  exact {
    depth := by decide
    nodes := by decide
    means := fun _ => rfl
    unrestricted := iff_of_true rfl rfl
    requested := iff_of_false (by simp) (by simp)
    complete := iff_of_false (by simp) (by simp [RequestedPredicate.containsOpaque])
    bare := iff_of_true rfl rfl }

/-- One filter is translated by itself. -/
theorem translate_one (hcolumns : columns.map (·.name) = get.names) {filter : Expression}
    (h : filters.filterMap id = [filter]) :
    ∃ translation, translateComplexFilters get filters = .ok translation ∧
      Faithful get rows columns (filters.filterMap id) translation := by
  obtain ⟨result, state', htranslate, hspec⟩ := @translateExpression_spec ρ get rows columns hcolumns
    filter 1 ⟨0, 0, false⟩ (Nat.le_refl _) rfl (Nat.zero_le _)
  have hrun : translateComplexFilters get filters =
      (if state'.exceededBudget then pure ⟨.unsupported 0, .completeDuckdbFilter⟩
      else pure ⟨result.candidate,
        if result.complete then .requestedPredicate else .completeDuckdbFilter⟩) := by
    simp only [translateComplexFilters, h, translateFilters, List.length_singleton]
    rw [if_neg (by decide), if_neg (by decide), if_neg (by decide), if_neg (by decide),
      translateChild, htranslate]
    cases hover : state'.exceededBudget <;> simp [ok_bind, hover]
  rw [hrun, h]
  split
  · exact ⟨_, rfl, faithful_unseen (by simp)⟩
  · rename_i hfits
    obtain ⟨hdepth, hnodes⟩ := hspec.fits (by simpa using hfits)
    have hle := hspec.bounded
    dsimp only at hnodes
    exact ⟨_, rfl, faithful_candidate (by simp) (by omega) (by omega) hspec.complete
      hspec.restricted fun row => hspec.means filter [] row rfl⟩

/-- Several filters are the children of one conjunction, which is paid for first. -/
theorem translate_many (hcolumns : columns.map (·.name) = get.names)
    (h : 1 < (filters.filterMap id).length) :
    ∃ translation, translateComplexFilters get filters = .ok translation ∧
      Faithful get rows columns (filters.filterMap id) translation := by
  generalize hpresent : filters.filterMap id = present at h ⊢
  have hne : present ≠ [] := by
    rintro rfl
    simp at h
  have hroot : filterRoot present = .conjunction .and .boolean (present.map some) := by
    unfold filterRoot
    split
    · simp at h
    · rfl
  obtain ⟨found, state', hfilters, -, hle, hall⟩ := @translateChildren_spec ρ get rows columns hcolumns
    (present.map some) 2 ⟨1, 0, false⟩ (by decide) (by decide) rfl (by decide)
  cases found with
  | none =>
    refine ⟨_, ?_, faithful_unseen hne⟩
    simp only [translateComplexFilters, hpresent, translateFilters_eq]
    rw [if_neg (by omega), if_pos h, if_pos h, if_neg (by decide), hfilters]
    rfl
  | some found =>
    obtain ⟨candidates, complete⟩ := found
    have htranslated := hall candidates complete rfl
    have hlength := htranslated.length
    rw [List.length_map] at hlength
    obtain ⟨hnode, hspec⟩ := @translated_boolean ρ get rows columns .conjunction Truth.all
      (.conjunction .and .boolean (present.map some)) (present.map some) 1 ⟨0, 0, false⟩ _ state'
      candidates complete (by rw [List.length_map]; omega) (Nat.le_refl _) rfl hle htranslated rfl rfl
      rfl rfl (fun _ _ _ => rfl) (fun _ => rfl) (fun row parts h => by rw [meaning, h])
    obtain ⟨hdepth, hnodes⟩ := hspec.fits htranslated.within
    dsimp only at hdepth hnodes
    refine ⟨⟨.conjunction candidates, if complete then .requestedPredicate else .completeDuckdbFilter⟩,
      ?_, faithful_candidate hne (by omega) (by omega) hspec.complete rfl fun row => ?_⟩
    · simp only [translateComplexFilters, hpresent, translateFilters_eq]
      rw [if_neg (by omega), if_pos h, if_pos h, if_neg (by decide), hfilters, ok_bind]
      -- two or more candidates
      dsimp only
      split
      · simp only [List.length_singleton] at hlength
        omega
      · rw [conjunctionNode, hnode]
        rfl
    · rw [hroot]
      exact hspec.means _ [] row rfl

/-- What is returned contradicts nothing that the planner checks. -/
theorem Faithful.validates {filters : List Expression} {translation : ComplexFilterTranslation}
    (h : Faithful get rows columns filters translation) {connectorName : Bytes}
    {relation : CompiledRelation} {request : ScanRequest}
    (hpredicate : request.requestedPredicate = translation.candidate)
    (hscope : request.retainedPredicateScope = translation.retainedScope)
    (hconservative : request.isConservative connectorName relation = true) :
    validateRequest connectorName relation request = .ok () := by
  have hbare := h.bare
  have hunrestricted := h.unrestricted
  have hrequested := h.requested
  have hcomplete := h.complete
  unfold validateRequest
  rw [hpredicate, hscope, hconservative]
  by_cases hnil : filters = []
  · rw [hbare.mpr hnil, hunrestricted.mpr hnil]
    rfl
  · have hnot : translation.candidate.isUnrestricted = false := by
      simpa using fun hyes => hnil (hbare.mp hyes)
    rw [hnot]
    cases hleaf : translation.candidate.containsOpaque with
    | false => rw [hrequested.mpr ⟨hnil, hleaf⟩]; rfl
    | true => rw [hcomplete.mpr hleaf]; rfl

end Whole

/-- The translation of every list of filters. -/
theorem complex_filters_translated {ρ : Type} (get : LogicalGet) (rows : Rows ρ)
    (columns : List CompiledColumn) (filters : List (Option Expression))
    (hcolumns : columns.map (·.name) = get.names) :
    ∃ translation, translateComplexFilters get filters = .ok translation ∧
      Faithful get rows columns (filters.filterMap id) translation ∧
      ∀ connectorName relation request,
        request.requestedPredicate = translation.candidate →
        request.retainedPredicateScope = translation.retainedScope →
        request.isConservative connectorName relation = true →
        validateRequest connectorName relation request = .ok () := by
  have hfaithful : ∃ translation, translateComplexFilters get filters = .ok translation ∧
      Faithful get rows columns (filters.filterMap id) translation := by
    cases hpresent : filters.filterMap id with
    | nil =>
      rw [← hpresent]
      exact translate_none hpresent
    | cons filter rest =>
      rw [← hpresent]
      cases rest with
      | nil => exact translate_one hcolumns hpresent
      | cons second rest => exact translate_many hcolumns (by rw [hpresent]; simp)
  obtain ⟨translation, htranslate, hspec⟩ := hfaithful
  exact ⟨translation, htranslate, hspec, fun _ _ _ => hspec.validates⟩

/-- `(state = 'open' OR f(x))` next to a missing filter: the second part stays opaque. -/
theorem complex_filters_translated_sample :
    let get : LogicalGet := ⟨[ascii "state"], [.varchar], 0, []⟩
    let equality : Expression := .comparison .equal .boolean (.columnRef .varchar 0 0 0)
      (.constant .varchar (.scalar (.varchar (ascii "open"))))
    let filters := [none, some (.conjunction .or .boolean [some equality, some (.other .boolean 7)])]
    let rows : Rows Truth := ⟨fun _ _ => some (.varchar (ascii "open")), fun _ _ => .null .boolean,
      fun row _ => row⟩
    translateComplexFilters get filters = .ok ⟨.disjunction
        [.comparison 0 .varchar (.varchar (ascii "open")), .unsupported 2], .completeDuckdbFilter⟩ ∧
      ∃ translation, translateComplexFilters get filters = .ok translation ∧
        Faithful get rows issues.columns (filters.filterMap id) translation := by
  refine ⟨rfl, ?_⟩
  obtain ⟨translation, htranslate, hfaithful, -⟩ :=
    complex_filters_translated ⟨[ascii "state"], [.varchar], 0, []⟩
      ⟨fun _ _ => some (.varchar (ascii "open")), fun _ _ => .null .boolean, fun row _ => row⟩
      issues.columns
      [none, some (.conjunction .or .boolean [some (.comparison .equal .boolean
        (.columnRef .varchar 0 0 0) (.constant .varchar (.scalar (.varchar (ascii "open"))))),
        some (.other .boolean 7)])] rfl
  exact ⟨translation, htranslate, hfaithful⟩

end Cuac.Query

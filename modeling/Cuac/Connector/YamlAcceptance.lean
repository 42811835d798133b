import Cuac.Connector.FailsafeYaml

/-!
# Connector — what the YAML parser accepts

`Fits` is the representation invariant of a tree under the limits of a budget:
distinct keys none of which is the merge key, and no container deeper or longer, and
no scalar longer, than the limits say. `Charged` adds the account: the nodes
consumed grew by the containers, scalars and keys of the tree. Every parser is shown
to end in one of two ways, with a tree that is charged and fewer lines or bytes left,
or by throwing; none runs out of turns.

Main results:

* `parseValue_ends` and `parseBlock_ends` — one inline value, one block.
* `parseFailsafeYaml_ends` — one document.
-/

namespace Cuac.Connector.FailsafeYaml

open Cuac.Lib Cuac.Lib.Json

-- ---------------------------------------------------------------------------
-- Trees within limits
-- ---------------------------------------------------------------------------

mutual

/-- What a tree is charged for: its containers, scalars and keys. -/
def Node.count : Node → Nat
  | .scalar _ _ => 1
  | .mapping entries => 1 + countEntries entries
  | .sequence values => 1 + countValues values

/-- The nodes that a mapping's entries take: one for each key, and the nodes of the values. -/
def countEntries : List (Bytes × Node) → Nat
  | [] => 0
  | (_, value) :: rest => 1 + value.count + countEntries rest

/-- The nodes that a sequence's values take. -/
def countValues : List Node → Nat
  | [] => 0
  | value :: rest => value.count + countValues rest

end

theorem countEntries_append (entries more : List (Bytes × Node)) :
    countEntries (entries ++ more) = countEntries entries + countEntries more := by
  induction entries with
  | nil => simp [countEntries]
  | cons entry rest ih =>
    obtain ⟨key, value⟩ := entry
    rw [List.cons_append, countEntries, countEntries, ih]
    omega

theorem countValues_append (values more : List Node) :
    countValues (values ++ more) = countValues values + countValues more := by
  induction values with
  | nil => simp [countValues]
  | cons value rest ih =>
    rw [List.cons_append, countValues, countValues, ih]
    omega

/-- A tree whose root is at a depth, within limits. -/
inductive Fits (limits : Limits) : Nat → Node → Prop
  | scalar {depth : Nat} {value : Bytes} {style : ScalarStyle} :
      value.length ≤ limits.maxScalarBytes → Fits limits depth (.scalar value style)
  | mapping {depth : Nat} {entries : List (Bytes × Node)} : depth ≤ limits.maxDepth →
      entries.length ≤ limits.maxContainerEntries → (entries.map Prod.fst).Nodup →
      (∀ entry ∈ entries, entry.1 ≠ ascii "<<" ∧ entry.1.length ≤ limits.maxScalarBytes) →
      (∀ entry ∈ entries, Fits limits (depth + 1) entry.2) → Fits limits depth (.mapping entries)
  | sequence {depth : Nat} {values : List Node} : depth ≤ limits.maxDepth →
      values.length ≤ limits.maxContainerEntries →
      (∀ value ∈ values, Fits limits (depth + 1) value) → Fits limits depth (.sequence values)

/-- The tree fits, and the nodes consumed grew by what it is charged for. -/
structure Charged (limits : Limits) (depth nodes : Nat) (node : Node) (consumed : Nat) : Prop where
  fits : Fits limits depth node
  account : consumed = nodes + node.count
  within : consumed ≤ limits.maxNodes

/-- The entries a mapping at `depth` has collected, with the nodes consumed for them. -/
structure Collected (limits : Limits) (depth nodes : Nat) (entries : List (Bytes × Node))
    (consumed : Nat) : Prop where
  bounded : entries.length ≤ limits.maxContainerEntries
  distinct : (entries.map Prod.fst).Nodup
  keys : ∀ entry ∈ entries, entry.1 ≠ ascii "<<" ∧ entry.1.length ≤ limits.maxScalarBytes
  fits : ∀ entry ∈ entries, Fits limits (depth + 1) entry.2
  account : consumed = nodes + countEntries entries
  within : consumed ≤ limits.maxNodes

/-- The values a sequence at `depth` has collected. -/
structure Listed (limits : Limits) (depth nodes : Nat) (values : List Node)
    (consumed : Nat) : Prop where
  bounded : values.length ≤ limits.maxContainerEntries
  fits : ∀ value ∈ values, Fits limits (depth + 1) value
  account : consumed = nodes + countValues values
  within : consumed ≤ limits.maxNodes

variable {limits : Limits} {depth nodes consumed : Nat}

/-- A mapping that has read no entry yet has consumed no node beyond itself. -/
theorem Collected.nil (h : nodes ≤ limits.maxNodes) :
    Collected limits depth nodes [] nodes where
  bounded := Nat.zero_le _
  distinct := List.nodup_nil
  keys := fun _ h => nomatch h
  fits := fun _ h => nomatch h
  account := by simp [countEntries]
  within := h

/-- A sequence that has read no value yet has consumed no node beyond itself. -/
theorem Listed.nil (h : nodes ≤ limits.maxNodes) : Listed limits depth nodes [] nodes where
  bounded := Nat.zero_le _
  fits := fun _ h => nomatch h
  account := by simp [countValues]
  within := h

/-- A new key and a value that was charged for may be added to what a mapping has read. -/
theorem Collected.snoc {entries : List (Bytes × Node)} {key : Bytes} {value : Node} {after : Nat}
    (h : Collected limits depth nodes entries consumed)
    (hroom : entries.length < limits.maxContainerEntries) (hnew : key ∉ entries.map Prod.fst)
    (hkey : key ≠ ascii "<<") (hlength : key.length ≤ limits.maxScalarBytes)
    (hvalue : Charged limits (depth + 1) (consumed + 1) value after) :
    Collected limits depth nodes (entries ++ [(key, value)]) after where
  bounded := by
    rw [List.length_append]
    exact hroom
  distinct := by
    rw [List.map_append]
    refine List.nodup_append.mpr ⟨h.distinct, by simp, ?_⟩
    intro a ha b hb hab
    obtain rfl := List.mem_singleton.mp hb
    exact hnew (hab ▸ ha)
  keys := by
    intro entry hentry
    rcases List.mem_append.mp hentry with hentry | hentry
    · exact h.keys entry hentry
    · obtain rfl := List.mem_singleton.mp hentry
      exact ⟨hkey, hlength⟩
  fits := by
    intro entry hentry
    rcases List.mem_append.mp hentry with hentry | hentry
    · exact h.fits entry hentry
    · obtain rfl := List.mem_singleton.mp hentry
      exact hvalue.fits
  account := by
    have hbefore := h.account
    have hafter := hvalue.account
    rw [countEntries_append, countEntries, countEntries]
    omega
  within := hvalue.within

/-- A value that was charged for may be added to what a sequence has read. -/
theorem Listed.snoc {values : List Node} {value : Node} {after : Nat}
    (h : Listed limits depth nodes values consumed)
    (hroom : values.length < limits.maxContainerEntries)
    (hvalue : Charged limits (depth + 1) consumed value after) :
    Listed limits depth nodes (values ++ [value]) after where
  bounded := by
    rw [List.length_append]
    exact hroom
  fits := by
    intro item hitem
    rcases List.mem_append.mp hitem with hitem | hitem
    · exact h.fits item hitem
    · obtain rfl := List.mem_singleton.mp hitem
      exact hvalue.fits
  account := by
    have hbefore := h.account
    have hafter := hvalue.account
    rw [countValues_append, countValues, countValues]
    omega
  within := hvalue.within

/-- The finished mapping is charged for when it was reserved one node and its entries the
others. -/
theorem Collected.charged {entries : List (Bytes × Node)}
    (h : Collected limits depth (nodes + 1) entries consumed) (hdepth : depth ≤ limits.maxDepth) :
    Charged limits depth nodes (.mapping entries) consumed where
  fits := .mapping hdepth h.bounded h.distinct h.keys h.fits
  account := by
    have := h.account
    rw [Node.count]
    omega
  within := h.within

/-- The finished sequence is charged for when it was reserved one node and its values the
others. -/
theorem Listed.charged {values : List Node}
    (h : Listed limits depth (nodes + 1) values consumed) (hdepth : depth ≤ limits.maxDepth) :
    Charged limits depth nodes (.sequence values) consumed where
  fits := .sequence hdepth h.bounded h.fits
  account := by
    have := h.account
    rw [Node.count]
    omega
  within := h.within

-- ---------------------------------------------------------------------------
-- The account
-- ---------------------------------------------------------------------------

/-- What the parser throws. -/
def Thrown (stop : Stop) : Prop :=
  stop ≠ .running

/-- What the parser throws is thrown, and no loop that ran out of turns. -/
@[simp] theorem thrown_thrown (error : Error) : Thrown (.thrown error) := by
  intro h
  cases h

/-- A failure is one of the ends that the parser may come to. -/
@[simp] theorem ends_fail {α : Type} {Q : α → Prop} {code : ErrorCode} {message : String}
    {place : Place} : Ends Q Thrown (fail code message place : Result α) :=
  thrown_thrown _

/-- More of the document behind the text changes where an error is, and nothing else. -/
theorem ends_followed {α : Type} {Q : α → Prop} {read : Result α} (lines bytes : Nat)
    (h : Ends Q Thrown read) : Ends Q Thrown (followed lines bytes read) := by
  cases read with
  | ok a => exact h
  | error stop =>
    cases stop with
    | thrown error => exact thrown_thrown _
    | running => exact absurd rfl h

/-- The check lets a size pass only within the limit. -/
theorem checkScalarSize_ends {place : Place} (size : Nat) :
    Ends (fun _ => size ≤ limits.maxScalarBytes) Thrown (checkScalarSize limits place size) := by
  unfold checkScalarSize
  split
  · exact ends_fail
  · rename_i h
    exact Nat.le_of_not_lt h

theorem checkScalarAppend_ends {place : Place} (retained additional : Nat) :
    Ends (fun _ => True) Thrown (checkScalarAppend limits place retained additional) := by
  unfold checkScalarAppend
  split
  · exact ends_fail
  · trivial

/-- The check lets a container grow only below its limit. -/
theorem checkEntry_ends {place : Place} (retained : Nat) :
    Ends (fun _ => retained < limits.maxContainerEntries) Thrown
      (checkEntry limits place retained) := by
  unfold checkEntry
  split
  · exact ends_fail
  · rename_i h
    exact Nat.lt_of_not_le h

/-- A node that is counted is counted once, and within the limit. -/
theorem consumeNode_ends {place : Place} (nodes : Nat) :
    Ends (fun consumed => consumed = nodes + 1 ∧ consumed ≤ limits.maxNodes) Thrown
      (consumeNode limits place nodes) := by
  unfold consumeNode
  split
  · exact ends_fail
  · exact ⟨rfl, by omega⟩

/-- A container is reserved within the depth limit, as one node. -/
theorem reserveContainer_ends {place : Place} (depth nodes : Nat) :
    Ends (fun consumed => depth ≤ limits.maxDepth ∧ consumed = nodes + 1 ∧
      consumed ≤ limits.maxNodes) Thrown (reserveContainer limits place depth nodes) := by
  have hdepth : Ends (fun _ => depth ≤ limits.maxDepth) Thrown (checkDepth limits place depth) := by
    unfold checkDepth
    split
    · exact ends_fail
    · rename_i h
      exact Nat.le_of_not_lt h
  refine Ends.bind hdepth fun _ hd => ?_
  exact (consumeNode_ends nodes).mono fun _ h => ⟨hd, h⟩

/-- A key is admitted when it is new and no merge key, as one node. -/
theorem admitKey_ends {place : Place} (keys : List Bytes) (key : Bytes) (nodes : Nat) :
    Ends (fun consumed => key ∉ keys ∧ key ≠ ascii "<<" ∧ consumed = nodes + 1 ∧
      consumed ≤ limits.maxNodes) Thrown (admitKey limits place keys key nodes) := by
  refine Ends.bind (Ends.throwIf (thrown_thrown _)) fun _ hnew => ?_
  unfold consumeKey
  split
  · exact ends_fail
  · rename_i hkey
    exact (consumeNode_ends nodes).mono fun _ h => ⟨by simpa using hnew, hkey, h⟩

-- ---------------------------------------------------------------------------
-- Scalars
-- ---------------------------------------------------------------------------

/-- What a scalar reader leaves: a value within the limit and less to read. -/
def ScalarRead (limits : Limits) (input : Bytes) (read : Bytes × Bytes) : Prop :=
  read.1.length ≤ limits.maxScalarBytes ∧ read.2.length < input.length

/-- Skipping spaces never lengthens the text. -/
theorem skipSpaces_length (text : Bytes) : (skipSpaces text).length ≤ text.length :=
  (List.dropWhile_suffix isSpace).length_le

/-- Reading hexadecimal digits ends, and what it leaves is not longer. -/
theorem hexEscapeFrom_ends {begins : Place} (count code : Nat) (input : Bytes) :
    Ends (fun read => read.2.length ≤ input.length) Thrown
      (hexEscapeFrom begins count code input) := by
  induction count generalizing code input with
  | zero => exact Nat.le_refl _
  | succ count ih =>
    cases input with
    | nil => exact ends_fail
    | cons digit rest =>
      rw [hexEscapeFrom]
      split
      · refine (ih _ rest).mono fun read h => ?_
        exact Nat.le_succ_of_le h
      · exact ends_fail

/-- Reading a code unit ends, and what it leaves is not longer. -/
theorem readHexEscape_ends {begins : Place} (input : Bytes) :
    Ends (fun read => read.2.length ≤ input.length) Thrown (readHexEscape begins input) := by
  unfold readHexEscape
  split
  · exact ends_fail
  · exact hexEscapeFrom_ends 4 0 input

/-- Reading a code point ends, and what it leaves is not longer. -/
theorem readUnicodeEscape_ends {begins : Place} (input : Bytes) :
    Ends (fun read => read.2.length ≤ input.length) Thrown (readUnicodeEscape begins input) := by
  refine Ends.bind (readHexEscape_ends input) ?_
  rintro ⟨code, rest⟩ hrest
  dsimp only
  split
  · split
    · rename_i b c rest
      split
      · exact ends_fail
      · refine Ends.bind (readHexEscape_ends rest) ?_
        rintro ⟨low, rest'⟩ hlow
        dsimp only
        split
        · exact ends_fail
        · simp only [List.length_cons] at hrest hlow
          show rest'.length ≤ input.length
          omega
    · exact ends_fail
  · split
    · exact ends_fail
    · exact hrest

/-- Reading an escape ends, and what it leaves is not longer. -/
theorem readEscape_ends {begins : Place} (escape : UInt8) (rest : Bytes) :
    Ends (fun read => read.2.length ≤ rest.length) Thrown (readEscape begins escape rest) := by
  unfold readEscape
  repeat' split
  all_goals first
    | exact Nat.le_refl _
    | exact ends_fail
    | exact Ends.bind (readUnicodeEscape_ends rest) fun _ h => h

/-- The loop over a quoted scalar has enough turns: each one takes at least a byte of the
input. -/
theorem quotedLoop_ends {begins : Place} {turns : Nat} (value : Bytes) {input : Bytes}
    (h : input.length ≤ turns) :
    Ends (ScalarRead limits input) Thrown (quotedLoop limits begins turns value input) := by
  induction turns generalizing value input with
  | zero =>
    cases input with
    | nil => exact thrown_thrown _
    | cons b rest => simp at h
  | succ turns ih =>
    cases input with
    | nil => exact thrown_thrown _
    | cons character rest =>
      rw [List.length_cons] at h
      unfold quotedLoop
      split
      · refine Ends.bind (checkScalarSize_ends value.length) fun _ hsize => ?_
        exact ⟨hsize, Nat.lt_succ_self _⟩
      split
      · exact ends_fail
      split
      · refine Ends.bind (checkScalarAppend_ends value.length 1) fun _ _ => ?_
        refine (ih _ (by omega)).mono fun read hread => ?_
        exact ⟨hread.1, Nat.lt_succ_of_lt hread.2⟩
      cases rest with
      | nil => exact ends_fail
      | cons escape rest =>
        refine Ends.bind (readEscape_ends escape rest) ?_
        rintro ⟨piece, left⟩ hleft
        refine Ends.bind (checkScalarAppend_ends value.length piece.length) fun _ _ => ?_
        simp only [List.length_cons] at h hleft
        refine (ih (value ++ piece) (by omega)).mono fun read hread => ?_
        have := hread.2
        refine ⟨hread.1, ?_⟩
        simp only [List.length_cons]
        omega

/-- A quoted scalar is read within the scalar limit, or the parser throws. -/
theorem parseDoubleQuotedScalar_ends (input : Bytes) :
    Ends (ScalarRead limits input) Thrown (parseDoubleQuotedScalar limits input) := by
  cases input with
  | nil => exact ends_fail
  | cons b rest =>
    rw [parseDoubleQuotedScalar]
    split
    · exact ends_fail
    · refine (quotedLoop_ends [] (Nat.le_refl _)).mono fun read hread => ?_
      exact ⟨hread.1, Nat.lt_succ_of_lt hread.2⟩

/-- What a plain scalar takes and what it leaves are together the input. -/
theorem scanPlain_append (mappingKey flowContext fresh : Bool) (input : Bytes) :
    (scanPlain mappingKey flowContext fresh input).1 ++
      (scanPlain mappingKey flowContext fresh input).2 = input := by
  induction input generalizing fresh with
  | nil => rfl
  | cons character rest ih =>
    unfold scanPlain
    split
    · rfl
    split
    · rfl
    split
    · rfl
    · exact congrArg (character :: ·) (ih (isSpace character))

/-- A plain scalar is read within the scalar limit, or the parser throws. -/
theorem parsePlainScalar_ends (mappingKey flowContext : Bool) (input : Bytes) :
    Ends (ScalarRead limits input) Thrown
      (parsePlainScalar limits mappingKey flowContext input) := by
  cases input with
  | nil => exact ends_fail
  | cons first rest =>
    have hsplit := scanPlain_append mappingKey flowContext true (first :: rest)
    rw [parsePlainScalar]
    split
    · exact ends_fail
    dsimp only
    split
    · exact ends_fail
    rename_i hvalue
    refine Ends.bind (checkScalarSize_ends _) fun _ hsize => ⟨hsize, ?_⟩
    -- a scalar that is not empty took something
    have htaken : (scanPlain mappingKey flowContext true (first :: rest)).1 ≠ [] := by
      intro hnil
      rw [hnil] at hvalue
      exact hvalue rfl
    have hpos := List.length_pos_iff.mpr htaken
    have hlength := congrArg List.length hsplit
    rw [List.length_append] at hlength
    dsimp only
    omega

/-- A key is read within the scalar limit, or the parser throws. -/
theorem parseMappingKey_ends (input : Bytes) :
    Ends (ScalarRead limits input) Thrown (parseMappingKey limits input) := by
  have hskip := skipSpaces_length input
  unfold parseMappingKey
  dsimp only
  split
  · refine (parseDoubleQuotedScalar_ends _).mono fun read hread => ?_
    exact ⟨hread.1, Nat.lt_of_lt_of_le hread.2 hskip⟩
  · refine (parsePlainScalar_ends true false _).mono fun read hread => ?_
    exact ⟨hread.1, Nat.lt_of_lt_of_le hread.2 hskip⟩

-- ---------------------------------------------------------------------------
-- What stands on one line
-- ---------------------------------------------------------------------------

/-- A value parser that charges what it reads and leaves less, on texts shorter than
`bound`. -/
def ValueParser.Ends (limits : Limits) (bound : Nat) (value : ValueParser) : Prop :=
  ∀ depth nodes input, input.length < bound →
    Lib.Ends (fun read => Charged limits depth nodes read.1 read.2.1 ∧
      read.2.2.length < input.length) Thrown (value depth nodes input)

/-- A required byte that is there is taken off the input. -/
theorem require_ends (expected : UInt8) (message : String) (input : Bytes) :
    Ends (fun rest => rest.length < input.length) Thrown (require expected message input) := by
  cases input with
  | nil => exact ends_fail
  | cons b rest =>
    rw [require]
    split
    · exact ends_fail
    · exact Nat.lt_succ_self _

/-- A scalar that was read is charged for as one node. -/
theorem scalarNode_ends {place : Place} {input : Bytes} {read : Result (Bytes × Bytes)} (style : ScalarStyle)
    (depth nodes : Nat) (h : Ends (ScalarRead limits input) Thrown read) :
    Ends (fun read => Charged limits depth nodes read.1 read.2.1 ∧
      read.2.2.length < input.length) Thrown (scalarNode limits place style nodes read) := by
  refine Ends.bind h ?_
  rintro ⟨value, rest⟩ hread
  refine Ends.bind (consumeNode_ends nodes) ?_
  rintro consumed ⟨hconsumed, hwithin⟩
  exact ⟨⟨.scalar hread.1, by rw [hconsumed, Node.count], hwithin⟩, hread.2⟩

section Flow

variable {value : ValueParser} {bound : Nat}

/-- The loop over a flow sequence has enough turns, and charges for all it reads. -/
theorem flowValues_ends (hvalue : value.Ends limits bound) {turns start : Nat} {values : List Node}
    {input : Bytes} (hlisted : Listed limits depth start values nodes)
    (hturns : input.length < turns) (hbound : input.length < bound) :
    Ends (fun read => Listed limits depth start read.1 read.2.1 ∧ read.2.2.length < input.length)
      Thrown (flowValues limits value depth turns values nodes input) := by
  induction turns generalizing values nodes input with
  | zero => omega
  | succ turns ih =>
    rw [flowValues]
    refine Ends.bind (checkEntry_ends values.length) fun _ hroom => ?_
    refine Ends.bind (hvalue (depth + 1) nodes input hbound) ?_
    rintro ⟨item, consumed, rest⟩ ⟨hcharged, hrest⟩
    have hnext := hlisted.snoc hroom hcharged
    have hskip := skipSpaces_length rest
    dsimp only at hrest ⊢
    split
    · refine ⟨hnext, ?_⟩
      have := List.length_tail (l := skipSpaces rest)
      dsimp only
      omega
    refine Ends.bind (require_ends _ _ _) fun left hleft => ?_
    have hskip' := skipSpaces_length left
    split
    · exact ends_fail
    refine (ih hnext (by omega) (by omega)).mono ?_
    rintro ⟨all, total, rest'⟩ ⟨hall, hlength⟩
    dsimp only at hlength
    exact ⟨hall, by dsimp only; omega⟩

/-- A flow sequence is charged for when its values are. -/
theorem parseFlowSequence_ends {input : Bytes} (hvalue : value.Ends limits bound)
    (hbound : input.length ≤ bound) (depth nodes : Nat) :
    Ends (fun read => Charged limits depth nodes read.1 read.2.1 ∧
      read.2.2.length < input.length) Thrown
      (parseFlowSequence limits value depth nodes input) := by
  refine Ends.bind (reserveContainer_ends depth nodes) ?_
  rintro consumed ⟨hdepth, rfl, hwithin⟩
  refine Ends.bind (require_ends _ _ _) fun rest hrest => ?_
  have hskip := skipSpaces_length rest
  have hnil : Listed limits depth (nodes + 1) [] (nodes + 1) := Listed.nil hwithin
  dsimp only
  split
  · have := List.length_tail (l := skipSpaces rest)
    exact ⟨hnil.charged hdepth, by dsimp only; omega⟩
  refine Ends.bind (flowValues_ends hvalue hnil (by omega) (by omega)) ?_
  rintro ⟨values, total, left⟩ ⟨hlisted, hleft⟩
  dsimp only at hleft
  exact ⟨hlisted.charged hdepth, by dsimp only; omega⟩

/-- The loop over a flow mapping has enough turns, and charges for all it reads. -/
theorem flowEntries_ends (hvalue : value.Ends limits bound) {turns start : Nat}
    {entries : List (Bytes × Node)} {input : Bytes}
    (hcollected : Collected limits depth start entries nodes)
    (hturns : input.length < turns) (hbound : input.length ≤ bound) :
    Ends (fun read => Collected limits depth start read.1 read.2.1 ∧
      read.2.2.length < input.length) Thrown
      (flowEntries limits value depth turns entries nodes input) := by
  induction turns generalizing entries nodes input with
  | zero => omega
  | succ turns ih =>
    rw [flowEntries]
    refine Ends.bind (checkEntry_ends entries.length) fun _ hroom => ?_
    refine Ends.bind (parseMappingKey_ends input) ?_
    rintro ⟨key, rest⟩ ⟨hlength, hrest⟩
    refine Ends.bind (admitKey_ends _ _ _) ?_
    rintro consumed ⟨hnew, hmerge, rfl, -⟩
    refine Ends.bind (require_ends _ _ _) fun colon hcolon => ?_
    have hbefore := skipSpaces_length rest
    have hafter := skipSpaces_length colon
    dsimp only at hlength hrest hcolon
    refine Ends.bind (hvalue (depth + 1) (nodes + 1) (skipSpaces colon) (by omega)) ?_
    rintro ⟨item, consumed, left⟩ ⟨hcharged, hleft⟩
    have hnext := hcollected.snoc hroom hnew hmerge hlength hcharged
    have hskip := skipSpaces_length left
    dsimp only at hleft ⊢
    split
    · refine ⟨hnext, ?_⟩
      have := List.length_tail (l := skipSpaces left)
      dsimp only
      omega
    refine Ends.bind (require_ends _ _ _) fun more hmore => ?_
    have hskip' := skipSpaces_length more
    split
    · exact ends_fail
    refine (ih hnext (by omega) (by omega)).mono ?_
    rintro ⟨all, total, rest'⟩ ⟨hall, hlast⟩
    dsimp only at hlast
    exact ⟨hall, by dsimp only; omega⟩

/-- A flow mapping is charged for when its entries are. -/
theorem parseFlowMapping_ends {input : Bytes} (hvalue : value.Ends limits bound)
    (hbound : input.length ≤ bound) (depth nodes : Nat) :
    Ends (fun read => Charged limits depth nodes read.1 read.2.1 ∧
      read.2.2.length < input.length) Thrown
      (parseFlowMapping limits value depth nodes input) := by
  refine Ends.bind (reserveContainer_ends depth nodes) ?_
  rintro consumed ⟨hdepth, rfl, hwithin⟩
  refine Ends.bind (require_ends _ _ _) fun rest hrest => ?_
  have hskip := skipSpaces_length rest
  have hnil : Collected limits depth (nodes + 1) [] (nodes + 1) := Collected.nil hwithin
  dsimp only
  split
  · have := List.length_tail (l := skipSpaces rest)
    exact ⟨hnil.charged hdepth, by dsimp only; omega⟩
  refine Ends.bind (flowEntries_ends hvalue hnil (by omega) (by omega)) ?_
  rintro ⟨entries, total, left⟩ ⟨hcollected, hleft⟩
  dsimp only at hleft
  exact ⟨hcollected.charged hdepth, by dsimp only; omega⟩

end Flow

/-- Enough turns for a text are one more than its bytes. -/
theorem parseValue_ends (turns : Nat) (flow : Bool) :
    (parseValue limits turns flow).Ends limits turns := by
  induction turns generalizing flow with
  | zero =>
    intro depth nodes input h
    omega
  | succ turns ih =>
    intro depth nodes input hinput
    have hskip := skipSpaces_length input
    have hwiden {read : Result (Node × Nat × Bytes)}
        (h : Ends (fun read => Charged limits depth nodes read.1 read.2.1 ∧
          read.2.2.length < (skipSpaces input).length) Thrown read) :
        Ends (fun read => Charged limits depth nodes read.1 read.2.1 ∧
          read.2.2.length < input.length) Thrown read :=
      h.mono fun _ hread => ⟨hread.1, Nat.lt_of_lt_of_le hread.2 hskip⟩
    rw [parseValue]
    split
    · exact ends_fail
    split
    · exact hwiden (parseFlowSequence_ends (ih true) (by omega) depth nodes)
    split
    · exact hwiden (parseFlowMapping_ends (ih true) (by omega) depth nodes)
    split
    · exact hwiden (scalarNode_ends _ depth nodes (parseDoubleQuotedScalar_ends _))
    · exact hwiden (scalarNode_ends _ depth nodes (parsePlainScalar_ends _ _ _))

/-- The value on the rest of a line is charged for, or the parser throws. -/
theorem parseInline_ends (depth nodes : Nat) (text : Bytes) :
    Ends (fun read => Charged limits depth nodes read.1 read.2) Thrown
      (parseInline limits depth nodes text) := by
  refine Ends.bind (parseValue_ends (text.length + 1) false depth nodes text (by omega)) ?_
  rintro ⟨value, consumed, rest⟩ ⟨hcharged, -⟩
  exact Ends.bind (Ends.throwIf (thrown_thrown _)) fun _ _ => hcharged

-- ---------------------------------------------------------------------------
-- Blocks
-- ---------------------------------------------------------------------------

/-- A block parser that charges what it reads and leaves fewer lines. -/
def BlockParser.Ends (limits : Limits) (bound : Nat) (block : BlockParser) : Prop :=
  ∀ indent depth nodes lines, lines.length < bound →
    Lib.Ends (fun read => Charged limits depth nodes read.1 read.2.1 ∧
      read.2.2.length < lines.length) Thrown (block indent depth nodes lines)

/-- Skipping blank lines never adds a line. -/
theorem skipBlank_length (lines : List Line) : (skipBlank lines).length ≤ lines.length :=
  (List.dropWhile_suffix Line.blank).length_le

/-- The first line that is left is not blank, and fewer lines stand behind it. -/
theorem skipBlank_eq_cons {lines rest : List Line} {line : Line}
    (h : skipBlank lines = line :: rest) :
    line.blank = false ∧ rest.length < lines.length ∧ skipBlank (line :: rest) = line :: rest := by
  have hhead := List.head?_dropWhile_not Line.blank lines
  have hlength := skipBlank_length lines
  unfold skipBlank at h hlength ⊢
  rw [h] at hhead hlength
  have hblank : line.blank = false := by simpa using hhead
  rw [List.length_cons] at hlength
  exact ⟨hblank, hlength, by rw [List.dropWhile_cons, hblank]; rfl⟩

/-- A key in front of a colon is read within the scalar limit. -/
theorem parseBlockKey_ends (text : Bytes) :
    Ends (fun key => key.length ≤ limits.maxScalarBytes) Thrown (parseBlockKey limits text) := by
  unfold parseBlockKey
  dsimp only
  split
  · exact ends_fail
  refine ends_followed _ _ (Ends.bind (parseMappingKey_ends _) ?_)
  rintro ⟨key, rest⟩ ⟨hlength, -⟩
  exact Ends.bind (Ends.throwIf (thrown_thrown _)) fun _ _ => hlength

section Lines

variable {block : BlockParser} {bound : Nat}

/-- A value is charged for whether it stands on the line or on the lines below it. -/
theorem parseNestedOrInline_ends (hblock : block.Ends limits bound) {rest : List Line}
    (hrest : rest.length < bound) (text : Bytes) (parentIndent depth nodes : Nat) :
    Ends (fun read => Charged limits depth nodes read.1 read.2.1 ∧
      read.2.2.length ≤ rest.length) Thrown
      (parseNestedOrInline limits block text parentIndent depth nodes rest) := by
  unfold parseNestedOrInline
  dsimp only
  split
  · have hskip := skipBlank_length rest
    split
    · exact ends_fail
    · rename_i line lines hlines
      rw [hlines] at hskip
      split
      · exact ends_fail
      refine (hblock line.indent depth nodes (line :: lines) (by omega)).mono ?_
      rintro ⟨value, consumed, left⟩ ⟨hcharged, hleft⟩
      dsimp only at hleft
      exact ⟨hcharged, by dsimp only; omega⟩
  · refine Ends.bind (ends_followed _ _ (parseInline_ends depth nodes _)) ?_
    rintro ⟨value, consumed⟩ hcharged
    exact ⟨hcharged, Nat.le_refl _⟩

/-- An entry that may join those collected, and how many lines it leaves. -/
structure EntryRead (limits : Limits) (keys : List Bytes) (depth nodes room : Nat)
    (read : (Bytes × Node) × Nat × List Line) : Prop where
  new : read.1.1 ∉ keys
  merge : read.1.1 ≠ ascii "<<"
  length : read.1.1.length ≤ limits.maxScalarBytes
  charged : Charged limits (depth + 1) (nodes + 1) read.1.2 read.2.1
  room : read.2.2.length ≤ room

/-- An entry is read when its key is admitted and its value charged for. -/
theorem parseEntry_ends (hblock : block.Ends limits bound) {rest : List Line}
    (hrest : rest.length < bound) (keyText valueText : Bytes) (keys : List Bytes)
    (indent depth nodes : Nat) :
    Ends (EntryRead limits keys depth nodes rest.length) Thrown
      (parseEntry limits block keyText valueText keys indent depth nodes rest) := by
  refine Ends.bind (ends_followed _ _ (parseBlockKey_ends keyText)) fun key hlength => ?_
  refine Ends.bind (admitKey_ends keys key nodes) ?_
  rintro consumed ⟨hnew, hmerge, rfl, -⟩
  refine Ends.bind (parseNestedOrInline_ends hblock hrest valueText indent (depth + 1)
    (nodes + 1)) ?_
  rintro ⟨value, consumed, lines⟩ ⟨hcharged, hlines⟩
  exact ⟨hnew, hmerge, hlength, hcharged, hlines⟩

/-- An entry is read from a line that has a mapping colon. -/
theorem parseMappingEntry_ends (hblock : block.Ends limits bound) {rest : List Line}
    (hrest : rest.length < bound) (keys : List Bytes) (indent depth nodes : Nat) (line : Line) :
    Ends (EntryRead limits keys depth nodes rest.length) Thrown
      (parseMappingEntry limits block keys indent depth nodes line rest) := by
  unfold parseMappingEntry
  split
  · exact ends_fail
  · exact parseEntry_ends hblock hrest _ _ keys indent depth nodes

/-- The loop over a block mapping has enough turns: each one takes at least a line. -/
theorem mappingLoop_ends (hblock : block.Ends limits bound) {turns start indent : Nat}
    {entries : List (Bytes × Node)} {lines : List Line}
    (hcollected : Collected limits depth start entries nodes) (hturns : lines.length < turns)
    (hbound : lines.length ≤ bound) :
    Ends (fun read => Collected limits depth start read.1 read.2.1 ∧
      read.2.2.length ≤ lines.length ∧
      ∀ line rest, skipBlank lines = line :: rest → line.indent = indent →
        isSequenceLine line indent = false → read.2.2.length ≤ rest.length) Thrown
      (mappingLoop limits block indent depth turns entries nodes lines) := by
  induction turns generalizing entries nodes lines with
  | zero => omega
  | succ turns ih =>
    rw [mappingLoop]
    split
    · rename_i hnil
      exact ⟨hcollected, Nat.zero_le _, fun line rest h => by rw [hnil] at h; cases h⟩
    · rename_i line rest hlines
      obtain ⟨-, hrest, -⟩ := skipBlank_eq_cons hlines
      split
      · rename_i hstop
        refine ⟨hcollected, hrest, fun line' rest' h hindent hsequence => ?_⟩
        obtain ⟨rfl, rfl⟩ := List.cons.inj (hlines.symm.trans h)
        simp [hindent, hsequence] at hstop
      refine Ends.bind (checkEntry_ends entries.length) fun _ hroom => ?_
      refine Ends.bind (parseMappingEntry_ends hblock (by omega) _ indent depth nodes line) ?_
      rintro ⟨⟨key, value⟩, consumed, left⟩ hread
      have hleft := hread.room
      dsimp only at hleft
      have hnext := hcollected.snoc hroom hread.new hread.merge hread.length hread.charged
      refine (ih hnext (by omega) (by omega)).mono ?_
      rintro ⟨all, total, last⟩ ⟨hall, hlast, -⟩
      dsimp only at hlast
      refine ⟨hall, by dsimp only; omega, fun line' rest' h _ _ => ?_⟩
      obtain ⟨rfl, rfl⟩ := List.cons.inj (hlines.symm.trans h)
      exact Nat.le_trans hlast hleft

/-- A block mapping is charged for, and leaves fewer lines than it was given. -/
theorem parseMapping_ends (hblock : block.Ends limits bound) {indent : Nat} {line : Line}
    {rest : List Line} (hblank : skipBlank (line :: rest) = line :: rest)
    (hindent : line.indent = indent) (hsequence : isSequenceLine line indent = false)
    (hbound : (line :: rest).length ≤ bound) (depth nodes : Nat) :
    Ends (fun read => Charged limits depth nodes read.1 read.2.1 ∧
      read.2.2.length < (line :: rest).length) Thrown
      (parseMapping limits block indent depth nodes (line :: rest)) := by
  refine Ends.bind (reserveContainer_ends depth nodes) ?_
  rintro consumed ⟨hdepth, rfl, hwithin⟩
  refine Ends.bind (mappingLoop_ends hblock (Collected.nil hwithin) (Nat.lt_succ_self _)
    hbound) ?_
  rintro ⟨entries, total, left⟩ ⟨hcollected, -, hleft⟩
  refine Ends.bind (Ends.throwIf (thrown_thrown _)) fun _ _ => ?_
  exact ⟨hcollected.charged hdepth,
    Nat.lt_succ_of_le (hleft line rest hblank hindent hsequence)⟩

/-- The loop over a mapping that starts behind a dash has enough turns as well. -/
theorem compactLoop_ends (hblock : block.Ends limits bound)
    {turns start sequenceIndent compactIndent : Nat} {entries : List (Bytes × Node)} {line : Line}
    {rest : List Line} (hcollected : Collected limits depth start entries nodes)
    (hturns : (line :: rest).length ≤ turns) (hbound : (line :: rest).length ≤ bound) :
    Ends (fun read => Collected limits depth start read.1 read.2.1 ∧
      read.2.2.length ≤ (line :: rest).length ∧
      (line.indent = (if entries.isEmpty then sequenceIndent else compactIndent) →
        (findMappingColon (line.text.drop compactIndent)).isSome = true →
        read.2.2.length ≤ rest.length)) Thrown
      (compactLoop limits block sequenceIndent compactIndent depth turns entries nodes
        (line :: rest)) := by
  induction turns generalizing entries nodes line rest with
  | zero => simp at hturns
  | succ turns ih =>
    simp only [List.length_cons] at hturns hbound
    rw [compactLoop]
    generalize (if entries.isEmpty then sequenceIndent else compactIndent) = expected
    split
    · rename_i hstop
      refine ⟨hcollected, Nat.le_refl _, fun hindent _ => ?_⟩
      simp [hindent] at hstop
    refine Ends.bind (checkEntry_ends entries.length) fun _ hroom => ?_
    split
    · rename_i hnone
      refine ⟨hcollected, Nat.le_refl _, fun _ hsome => ?_⟩
      rw [hnone] at hsome
      cases hsome
    rename_i keyText valueText hcolon
    refine Ends.bind (parseEntry_ends hblock (by omega) keyText valueText _ compactIndent depth
      nodes) ?_
    rintro ⟨⟨key, value⟩, consumed, left⟩ hread
    have hleft := hread.room
    have hskip := skipBlank_length left
    have hnext := hcollected.snoc hroom hread.new hread.merge hread.length hread.charged
    dsimp only at hleft ⊢
    split
    · exact ⟨hnext, Nat.zero_le _, fun _ _ => Nat.zero_le _⟩
    rename_i next more hmore
    rw [hmore] at hskip
    split
    · refine ⟨hnext, ?_, fun _ _ => Nat.le_trans hskip hleft⟩
      exact Nat.le_succ_of_le (Nat.le_trans hskip hleft)
    refine (ih hnext (by omega) (by omega)).mono ?_
    rintro ⟨all, total, last⟩ ⟨hall, hlast, -⟩
    dsimp only at hlast
    exact ⟨hall, by simp only [List.length_cons] at *; omega, fun _ _ => by dsimp only; omega⟩

/-- The text of a value starts where the line has that much left. -/
theorem drop_skipSpaces (text : Bytes) (n : Nat) :
    text.drop (text.length - (skipSpaces (text.drop n)).length) = skipSpaces (text.drop n) := by
  have hsuffix : skipSpaces (text.drop n) <:+ text :=
    (List.dropWhile_suffix isSpace).trans (List.drop_suffix n text)
  exact (List.suffix_iff_eq_drop.mp hsuffix).symm

/-- The value behind a dash is charged for, and leaves fewer lines. -/
theorem parseSequenceValue_ends (hblock : block.Ends limits bound) {indent : Nat} {line : Line}
    {rest : List Line} (hsequence : isSequenceLine line indent = true)
    (hbound : (line :: rest).length ≤ bound) (depth nodes : Nat) :
    Ends (fun read => Charged limits (depth + 1) nodes read.1 read.2.1 ∧
      read.2.2.length ≤ rest.length) Thrown
      (parseSequenceValue limits block indent depth nodes line rest) := by
  simp only [List.length_cons] at hbound
  unfold parseSequenceValue
  dsimp only
  split
  · exact parseNestedOrInline_ends hblock (by omega) _ indent (depth + 1) nodes
  split
  · rename_i hcompact
    -- the first entry of a compact mapping stands on this line, so the line is consumed
    have hindent : line.indent = indent := by
      simp only [isSequenceLine, Bool.and_eq_true, beq_iff_eq] at hsequence
      exact hsequence.1
    simp only [Bool.and_eq_true] at hcompact
    refine Ends.bind (reserveContainer_ends (depth + 1) nodes) ?_
    rintro consumed ⟨hdepth, rfl, hwithin⟩
    refine Ends.bind (compactLoop_ends hblock (Collected.nil hwithin) (Nat.le_refl _)
      (by simp only [List.length_cons]; omega)) ?_
    rintro ⟨entries, total, left⟩ ⟨hcollected, -, hleft⟩
    refine ⟨hcollected.charged hdepth, hleft (by simpa using hindent) ?_⟩
    rw [drop_skipSpaces]
    exact hcompact.1.1
  · refine Ends.bind (ends_followed _ _ (parseInline_ends (depth + 1) nodes _)) ?_
    rintro ⟨value, consumed⟩ hcharged
    exact ⟨hcharged, Nat.le_refl _⟩

/-- The loop over a block sequence has enough turns: each one takes at least a line. -/
theorem sequenceLoop_ends (hblock : block.Ends limits bound) {turns start indent : Nat}
    {values : List Node} {lines : List Line} (hlisted : Listed limits depth start values nodes)
    (hturns : lines.length < turns) (hbound : lines.length ≤ bound) :
    Ends (fun read => Listed limits depth start read.1 read.2.1 ∧
      read.2.2.length ≤ lines.length ∧
      ∀ line rest, skipBlank lines = line :: rest → isSequenceLine line indent = true →
        read.2.2.length ≤ rest.length) Thrown
      (sequenceLoop limits block indent depth turns values nodes lines) := by
  induction turns generalizing values nodes lines with
  | zero => omega
  | succ turns ih =>
    rw [sequenceLoop]
    split
    · rename_i hnil
      exact ⟨hlisted, Nat.zero_le _, fun line rest h => by rw [hnil] at h; cases h⟩
    · rename_i line rest hlines
      obtain ⟨-, hrest, -⟩ := skipBlank_eq_cons hlines
      split
      · rename_i hstop
        refine ⟨hlisted, hrest, fun line' rest' h hsequence => ?_⟩
        obtain ⟨rfl, rfl⟩ := List.cons.inj (hlines.symm.trans h)
        simp [hsequence] at hstop
      rename_i hsequence
      refine Ends.bind (checkEntry_ends values.length) fun _ hroom => ?_
      refine Ends.bind (parseSequenceValue_ends hblock (by simpa using hsequence)
        (by simp only [List.length_cons]; omega) depth nodes) ?_
      rintro ⟨value, consumed, left⟩ ⟨hcharged, hleft⟩
      dsimp only at hleft
      refine (ih (hlisted.snoc hroom hcharged) (by omega) (by omega)).mono ?_
      rintro ⟨all, total, last⟩ ⟨hall, hlast, -⟩
      dsimp only at hlast
      refine ⟨hall, by dsimp only; omega, fun line' rest' h _ => ?_⟩
      obtain ⟨rfl, rfl⟩ := List.cons.inj (hlines.symm.trans h)
      exact Nat.le_trans hlast hleft

/-- A block sequence is charged for, and leaves fewer lines than it was given. -/
theorem parseSequence_ends (hblock : block.Ends limits bound) {indent : Nat} {line : Line}
    {rest : List Line} (hblank : skipBlank (line :: rest) = line :: rest)
    (hsequence : isSequenceLine line indent = true) (hbound : (line :: rest).length ≤ bound)
    (depth nodes : Nat) :
    Ends (fun read => Charged limits depth nodes read.1 read.2.1 ∧
      read.2.2.length < (line :: rest).length) Thrown
      (parseSequence limits block indent depth nodes (line :: rest)) := by
  refine Ends.bind (reserveContainer_ends depth nodes) ?_
  rintro consumed ⟨hdepth, rfl, hwithin⟩
  refine Ends.bind (sequenceLoop_ends hblock (Listed.nil hwithin) (Nat.lt_succ_self _) hbound) ?_
  rintro ⟨values, total, left⟩ ⟨hlisted, -, hleft⟩
  exact ⟨hlisted.charged hdepth, Nat.lt_succ_of_le (hleft line rest hblank hsequence)⟩

end Lines

/-- Enough turns for a block are one more than the lines that are left. -/
theorem parseBlock_ends (turns : Nat) : (parseBlock limits turns).Ends limits turns := by
  induction turns with
  | zero =>
    intro indent depth nodes lines h
    omega
  | succ turns ih =>
    intro indent depth nodes lines hlines
    have hskip := skipBlank_length lines
    rw [parseBlock]
    split
    · exact ends_fail
    rename_i line rest hcons
    obtain ⟨-, -, hblank⟩ := skipBlank_eq_cons hcons
    rw [hcons] at hskip
    split
    · exact ends_fail
    rename_i hindent
    split
    · rename_i hsequence
      refine (parseSequence_ends ih hblank hsequence (by omega) depth nodes).mono ?_
      exact fun _ h => ⟨h.1, Nat.lt_of_lt_of_le h.2 hskip⟩
    · rename_i hsequence
      refine (parseMapping_ends ih hblank (by simpa using hindent) (by simpa using hsequence)
        (by omega) depth nodes).mono ?_
      exact fun _ h => ⟨h.1, Nat.lt_of_lt_of_le h.2 hskip⟩

-- ---------------------------------------------------------------------------
-- Documents
-- ---------------------------------------------------------------------------

/-- The whole document is charged for, or the parser throws. -/
theorem parseStructure_ends (nodes : Nat) (lines : List Line) :
    Ends (fun read => Charged limits 1 nodes read.1 read.2) Thrown
      (parseStructure limits nodes lines) := by
  unfold parseStructure
  have hskip := skipBlank_length lines
  split
  · exact ends_fail
  rename_i line rest hcons
  rw [hcons] at hskip
  split
  · exact ends_fail
  refine Ends.bind (parseBlock_ends (lines.length + 1) 0 1 nodes (line :: rest) (by omega)) ?_
  rintro ⟨root, consumed, left⟩ ⟨hcharged, -⟩
  exact Ends.bind (Ends.throwIf (thrown_thrown _)) fun _ _ => hcharged

/-- A line is lexed, or the lexer throws. -/
theorem lexLine_ends (text : Bytes) : Ends (fun _ => True) Thrown (lexLine text) := by
  refine Ends.bind (Ends.throwIf (thrown_thrown _)) fun _ _ => ?_
  refine Ends.bind (Ends.throwIf (thrown_thrown _)) fun _ _ => ?_
  exact Ends.bind (Ends.throwIf (thrown_thrown _)) fun _ _ => trivial

/-- The loop over the lines ends as each line does. -/
theorem lexLines_ends (texts : List Bytes) : Ends (fun _ => True) Thrown (lexLines texts) := by
  induction texts with
  | nil => trivial
  | cons text rest ih =>
    refine Ends.bind (ends_followed _ _ (lexLine_ends text)) fun line _ => ?_
    exact Ends.bind ih fun lines _ => trivial

/-- The lexer comes to an end on every byte string. -/
theorem lexFailsafeYaml_ends (bytes : Bytes) :
    Ends (fun _ => True) Thrown (lexFailsafeYaml bytes) := by
  have hencoding : Ends (fun _ => True) Thrown (checkEncoding bytes) := by
    refine Ends.bind (Ends.throwIf (thrown_thrown _)) fun _ _ => ?_
    exact (Ends.throwIf (thrown_thrown _)).mono fun _ _ => trivial
  exact Ends.bind hencoding fun _ _ => lexLines_ends _

/-- A document is thrown out, or gives a tree that fits the budget and is charged to it. -/
theorem parseFailsafeYaml_ends (bytes : Bytes) (budget : Budget) :
    Ends (fun read => Charged budget.limits 1 budget.nodesConsumed read.1 read.2.nodesConsumed ∧
      read.2.limits = budget.limits) Thrown (parseFailsafeYaml bytes budget) := by
  refine Ends.bind (lexFailsafeYaml_ends bytes) fun lines _ => ?_
  refine Ends.bind (parseStructure_ends budget.nodesConsumed lines) ?_
  rintro ⟨root, nodes⟩ hcharged
  exact ⟨hcharged, rfl⟩

end Cuac.Connector.FailsafeYaml

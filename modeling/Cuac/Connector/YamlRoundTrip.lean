import Cuac.Connector.YamlFlow

/-!
# Connector — YAML round trip

`Block` relates a tree to the lines it is written on: every container is written over
lines, each entry or item on a line of its own, or on one line as a flow text. The
widths of indentation and the choice between the two for each container are free. A
block leaves the first line that is indented less.

Main results:

* `parseBlock_block` — a block is read back as its tree.
* `yaml_round_trip` — the round trip, the representation invariant and termination.
-/

namespace Cuac.Connector.FailsafeYaml

open Cuac.Lib Cuac.Lib.Json

-- ---------------------------------------------------------------------------
-- Texts over lines
-- ---------------------------------------------------------------------------

/-- The indentation of a rendered line. -/
def spaces (width : Nat) : Bytes :=
  List.replicate width space

/-- What is written over lines. `after` is a value with what stands before it left
out: a key and its colon, or a dash. -/
inductive Layout
  | node (node : Node)
  | values (values : List Node)
  | entries (entries : List (Bytes × Node))
  | after (value : Node)

/-- The lines of a tree at an indentation. -/
inductive Block : Nat → Layout → List Bytes → Prop
  | sequence {indent : Nat} {values : List Node} {lines : List Bytes} : values ≠ [] →
      Block indent (.values values) lines → Block indent (.node (.sequence values)) lines
  | mapping {indent : Nat} {entries : List (Bytes × Node)} {lines : List Bytes} : entries ≠ [] →
      Block indent (.entries entries) lines → Block indent (.node (.mapping entries)) lines
  | inline {indent : Nat} {value : Node} {gap text : Bytes} : gap ≠ [] → IsGap gap →
      Flow (.node value) text → Block indent (.after value) [gap ++ text]
  | nested {indent inner : Nat} {value : Node} {lines : List Bytes} : indent < inner →
      Block inner (.node value) lines → Block indent (.after value) ([] :: lines)
  | noValues {indent : Nat} : Block indent (.values []) []
  | value {indent : Nat} {value : Node} {values : List Node} {suffix : Bytes}
      {below lines : List Bytes} : Block indent (.after value) (suffix :: below) →
      Block indent (.values values) lines →
      Block indent (.values (value :: values))
        ((spaces indent ++ byte '-' :: suffix) :: (below ++ lines))
  | noEntries {indent : Nat} : Block indent (.entries []) []
  | entry {indent : Nat} {key keyText : Bytes} {value : Node} {entries : List (Bytes × Node)}
      {suffix : Bytes} {below lines : List Bytes} : Quoted key keyText →
      Block indent (.after value) (suffix :: below) → Block indent (.entries entries) lines →
      Block indent (.entries ((key, value) :: entries))
        ((spaces indent ++ (keyText ++ byte ':' :: suffix)) :: (below ++ lines))

/-- A line as it is lexed. -/
def asLine (text : Bytes) : Line :=
  ⟨text, (text.takeWhile isSpace).length, isBlank (skipSpaces text)⟩

/-- The first line, if there is one, is not blank and is indented less. -/
def Outdented (indent : Nat) (lines : List Line) : Prop :=
  ∀ line, lines.head? = some line → line.blank = false ∧ line.indent < indent

theorem isGap_spaces (width : Nat) : IsGap (spaces width) := by
  intro b hb
  rw [List.eq_of_mem_replicate hb]
  rfl

theorem asLine_spaces {indent : Nat} {b : UInt8} (hspace : isSpace b = false) (hhash : b ≠ hash)
    (tail : Bytes) :
    asLine (spaces indent ++ b :: tail) = ⟨spaces indent ++ b :: tail, indent, false⟩ := by
  have htake : (spaces indent ++ b :: tail).takeWhile isSpace = spaces indent := by
    rw [List.takeWhile_append_of_pos (isGap_spaces indent), List.takeWhile_cons, hspace]
    simp
  rw [asLine, htake, skipSpaces_cons (isGap_spaces indent) hspace]
  simp [spaces, isBlank, hhash]

/-- What stands behind the indentation. -/
theorem drop_spaces (indent : Nat) (rest : Bytes) :
    (spaces indent ++ rest).drop indent = rest := by
  rw [List.drop_append_of_le_length (by simp [spaces])]
  simp [spaces]

/-- A rendering has no blank line to skip. -/
theorem skipBlank_of_outdented {indent : Nat} {lines : List Line} (h : Outdented indent lines) :
    skipBlank lines = lines := by
  cases lines with
  | nil => rfl
  | cons line rest =>
    rw [skipBlank, List.dropWhile_cons, (h line rfl).1]
    rfl

theorem skipBlank_cons {line : Line} (h : line.blank = false) (rest : List Line) :
    skipBlank (line :: rest) = line :: rest := by
  rw [skipBlank, List.dropWhile_cons, h]
  rfl

/-- Lines that are outside a block are outside every block in it. -/
theorem Outdented.mono {indent inner : Nat} {lines : List Line} (h : Outdented indent lines)
    (hle : indent ≤ inner) : Outdented inner lines := by
  intro line hline
  obtain ⟨hblank, hindent⟩ := h line hline
  exact ⟨hblank, Nat.lt_of_lt_of_le hindent hle⟩

/-- The line of a dash. -/
theorem asLine_dash (indent : Nat) (suffix : Bytes) :
    asLine (spaces indent ++ byte '-' :: suffix) =
      ⟨spaces indent ++ byte '-' :: suffix, indent, false⟩ :=
  asLine_spaces (by decide) (by decide) suffix

/-- The line of a key. -/
theorem asLine_key {key text : Bytes} (h : Quoted key text) (indent : Nat) (suffix : Bytes) :
    asLine (spaces indent ++ (text ++ byte ':' :: suffix)) =
      ⟨spaces indent ++ (text ++ byte ':' :: suffix), indent, false⟩ := by
  obtain ⟨tail, rfl⟩ := h.head
  exact asLine_spaces (by decide) (by decide) _

/-- The values of a sequence end at a line that is indented less, or go on at their own
indentation. -/
theorem Block.values_outdented {indent : Nat} {values : List Node} {lines : List Bytes}
    (h : Block indent (.values values) lines) {rest : List Line} (hrest : Outdented indent rest) :
    Outdented (indent + 1) (lines.map asLine ++ rest) := by
  cases h with
  | noValues => exact hrest.mono (Nat.le_succ _)
  | value =>
    intro line hline
    obtain rfl := Option.some.inj hline
    rw [asLine_dash]
    exact ⟨rfl, Nat.lt_succ_self _⟩

/-- The entries of a mapping end whatever is nested deeper. -/
theorem Block.entries_outdented {indent : Nat} {entries : List (Bytes × Node)}
    {lines : List Bytes} (h : Block indent (.entries entries) lines) {rest : List Line}
    (hrest : Outdented indent rest) : Outdented (indent + 1) (lines.map asLine ++ rest) := by
  cases h with
  | noEntries => exact hrest.mono (Nat.le_succ _)
  | entry hkey =>
    intro line hline
    obtain rfl := Option.some.inj hline
    rw [asLine_key hkey]
    exact ⟨rfl, Nat.lt_succ_self _⟩

/-- A block has a line, at its indentation. -/
theorem Block.head {indent : Nat} {node : Node} {lines : List Bytes}
    (h : Block indent (.node node) lines) (rest : List Line) :
    ∃ line more, lines.map asLine ++ rest = line :: more ∧ line.blank = false ∧
      line.indent = indent := by
  cases h with
  | sequence hne h =>
    cases h with
    | noValues => exact absurd rfl hne
    | value =>
      refine ⟨_, _, rfl, ?_⟩
      rw [asLine_dash]
      exact ⟨rfl, rfl⟩
  | mapping hne h =>
    cases h with
    | noEntries => exact absurd rfl hne
    | entry hkey =>
      refine ⟨_, _, rfl, ?_⟩
      rw [asLine_key hkey]
      exact ⟨rfl, rfl⟩

/-- What follows a dash or a colon is empty or starts with a space. -/
theorem Block.suffix {indent : Nat} {value : Node} {suffix : Bytes} {below : List Bytes}
    (h : Block indent (.after value) (suffix :: below)) :
    suffix = [] ∨ suffix.head? = some space := by
  cases h with
  | nested => exact .inl rfl
  | @inline _ _ gap text hne hgap _ =>
    obtain ⟨b, tail, rfl⟩ := List.exists_cons_of_ne_nil hne
    have hb : b = space := by simpa [isSpace] using hgap b List.mem_cons_self
    exact .inr (by rw [hb]; rfl)

/-- The colon of a rendered entry ends its key. -/
theorem endsKey_suffix {suffix : Bytes} (h : suffix = [] ∨ suffix.head? = some space) :
    endsKey suffix = true := by
  rcases h with rfl | h
  · rfl
  · simp [endsKey, h]

/-- A rendered item starts with a dash, and a rendered entry does not. -/
theorem isSequenceLine_dash {indent : Nat} {suffix : Bytes}
    (h : suffix = [] ∨ suffix.head? = some space) :
    isSequenceLine (asLine (spaces indent ++ byte '-' :: suffix)) indent = true := by
  rw [asLine_dash, isSequenceLine]
  dsimp only
  rw [drop_spaces]
  rcases h with rfl | h
  · simp
  · simp [h]

theorem isSequenceLine_key {key text : Bytes} (h : Quoted key text) (indent : Nat)
    (suffix : Bytes) :
    isSequenceLine (asLine (spaces indent ++ (text ++ byte ':' :: suffix))) indent = false := by
  rw [asLine_key h, isSequenceLine]
  dsimp only
  rw [drop_spaces]
  obtain ⟨tail, rfl⟩ := h.head
  have hquote : (quote == byte '-') = false := by decide
  simp [hquote]

-- ---------------------------------------------------------------------------
-- Reading blocks
-- ---------------------------------------------------------------------------

section Reading

variable {limits : Limits} {indent depth nodes : Nat}

/-- The parser reads the lines of a layout back, whatever follows further out. -/
def BlockParses (limits : Limits) (indent : Nat) : Layout → List Bytes → Prop
  | .node node, lines => ∀ depth nodes rest turns, Fits limits depth node →
      nodes + node.count ≤ limits.maxNodes → Outdented indent rest →
      lines.length + rest.length < turns →
      parseBlock limits turns indent depth nodes (lines.map asLine ++ rest) =
        .ok (node, nodes + node.count, rest)
  | .values values, lines => ∀ depth seen nodes rest turns bound,
      (∀ value ∈ values, Fits limits (depth + 1) value) →
      (seen ++ values).length ≤ limits.maxContainerEntries →
      nodes + countValues values ≤ limits.maxNodes → Outdented indent rest →
      lines.length + rest.length < turns → lines.length + rest.length ≤ bound →
      sequenceLoop limits (parseBlock limits bound) indent depth turns seen nodes
        (lines.map asLine ++ rest) = .ok (seen ++ values, nodes + countValues values, rest)
  | .entries entries, lines => ∀ depth seen nodes rest turns bound,
      (∀ entry ∈ entries, Fits limits (depth + 1) entry.2) →
      (∀ entry ∈ entries, entry.1 ≠ ascii "<<" ∧ entry.1.length ≤ limits.maxScalarBytes) →
      ((seen ++ entries).map Prod.fst).Nodup →
      (seen ++ entries).length ≤ limits.maxContainerEntries →
      nodes + countEntries entries ≤ limits.maxNodes → Outdented indent rest →
      lines.length + rest.length < turns → lines.length + rest.length ≤ bound →
      mappingLoop limits (parseBlock limits bound) indent depth turns seen nodes
        (lines.map asLine ++ rest) = .ok (seen ++ entries, nodes + countEntries entries, rest)
  | .after value, lines => ∀ suffix below, lines = suffix :: below →
      ∀ depth nodes rest bound, Fits limits depth value → nodes + value.count ≤ limits.maxNodes →
      Outdented (indent + 1) rest → below.length + rest.length < bound →
      parseNestedOrInline limits (parseBlock limits bound) suffix indent depth nodes
        (below.map asLine ++ rest) = .ok (value, nodes + value.count, rest)

/-- A flow text up to the end of its line. -/
theorem parseInline_flow {value : Node} {text : Bytes} (h : Flow (.node value) text)
    (hfits : Fits limits depth value) (hnodes : nodes + value.count ≤ limits.maxNodes) :
    parseInline limits depth nodes text = .ok (value, nodes + value.count) := by
  have hread := parseValue_flow h false depth nodes [] (text.length + 1) hfits hnodes (by simp)
  rw [List.append_nil] at hread
  rw [parseInline, hread, ok_bind]
  rfl

/-- A rendered value is not taken for the end of the line. -/
theorem Flow.isBlank {piece : Piece} {text : Bytes} (h : Flow piece text) :
    FailsafeYaml.isBlank text = false := by
  obtain ⟨b, tail, hb, rfl⟩ := h.head
  simp [FailsafeYaml.isBlank, (startsFlow_spec hb).2.1]

theorem Flow.skipSpaces {piece : Piece} {text gap : Bytes} (h : Flow piece text)
    (hgap : IsGap gap) : FailsafeYaml.skipSpaces (gap ++ text) = text := by
  have hstops := h.stops []
  rw [List.append_nil] at hstops
  exact skipSpaces_gap hgap hstops

/-- A value behind its key or dash, on the same line. -/
theorem blockParses_inline {value : Node} {gap text : Bytes} (hgap : IsGap gap)
    (h : Flow (.node value) text) : BlockParses limits indent (.after value) [gap ++ text] := by
  rintro suffix below hlines depth nodes rest bound hfits hnodes - -
  obtain ⟨rfl, rfl⟩ := List.cons.inj hlines
  rw [parseNestedOrInline, h.skipSpaces hgap, h.isBlank, if_neg (by simp),
    parseInline_flow h hfits hnodes, followed_ok, ok_bind]
  rfl

/-- A value on the lines below its key or dash. -/
theorem blockParses_nested {inner : Nat} {value : Node} {lines : List Bytes} (hinner : indent < inner)
    (hblock : Block inner (.node value) lines) (h : BlockParses limits inner (.node value) lines) :
    BlockParses limits indent (.after value) ([] :: lines) := by
  intro suffix below hlines depth nodes rest bound hfits hnodes hrest hbound
  obtain ⟨rfl, rfl⟩ := List.cons.inj hlines
  have hrest : Outdented inner rest := hrest.mono hinner
  have hread := h depth nodes rest bound hfits hnodes hrest hbound
  obtain ⟨line, more, hcons, hblank, hindent⟩ := hblock.head rest
  rw [parseNestedOrInline]
  rw [hcons] at hread ⊢
  rw [if_pos (by decide), skipBlank_cons hblank]
  dsimp only
  rw [if_neg (by omega), hindent, hread]

/-- The line below a block starts no item of it. -/
theorem isSequenceLine_of_outdented {line : Line} {rest : List Line}
    (h : Outdented indent (line :: rest)) : isSequenceLine line indent = false := by
  have hindent := (h line rfl).2
  have hne : (line.indent == indent) = false := by
    rw [beq_eq_false_iff_ne]
    omega
  rw [isSequenceLine, hne, Bool.false_and]

/-- The loops end where the rendering does. -/
theorem blockParses_noValues : BlockParses limits indent (.values []) [] := by
  rintro depth seen nodes rest turns bound - - - hrest hturns -
  cases turns with
  | zero => omega
  | succ turns =>
    rw [List.map_nil, List.nil_append, List.append_nil, sequenceLoop, skipBlank_of_outdented hrest]
    cases rest with
    | nil => rfl
    | cons line rest =>
      dsimp only
      rw [isSequenceLine_of_outdented hrest]
      rfl

theorem blockParses_noEntries : BlockParses limits indent (.entries []) [] := by
  rintro depth seen nodes rest turns bound - - - - - hrest hturns -
  cases turns with
  | zero => omega
  | succ turns =>
    rw [List.map_nil, List.nil_append, List.append_nil, mappingLoop, skipBlank_of_outdented hrest]
    cases rest with
    | nil => rfl
    | cons line rest =>
      have hne : (line.indent != indent) = true := by
        have := (hrest line rfl).2
        rw [bne_iff_ne]
        omega
      dsimp only
      rw [hne]
      rfl

/-- What follows a dash is not a compact mapping. -/
theorem parseSequenceValue_after {value : Node} {suffix : Bytes} {below : List Bytes}
    (h : Block indent (.after value) (suffix :: below)) (block : BlockParser) (depth nodes : Nat)
    (rest : List Line) :
    parseSequenceValue limits block indent depth nodes
        (asLine (spaces indent ++ byte '-' :: suffix)) rest =
      parseNestedOrInline limits block suffix indent (depth + 1) nodes rest := by
  have hdrop : (asLine (spaces indent ++ byte '-' :: suffix)).text.drop (indent + 1) = suffix := by
    show (spaces indent ++ byte '-' :: suffix).drop (indent + 1) = suffix
    rw [← List.drop_drop, drop_spaces]
    rfl
  rw [parseSequenceValue, hdrop]
  cases h with
  | nested => rfl
  | @inline _ _ gap text _ hgap hflow =>
    have hcompact : ((findMappingColon text).isSome && text.head? != some (byte '{') &&
        text.head? != some (byte '[')) = false := by
      cases hflow with
      | scalar hquoted =>
        rw [findMappingColon_scalar hquoted]
        rfl
      | emptySequence => simp
      | sequence => simp
      | emptyMapping => simp
      | mapping => simp
    rw [hflow.skipSpaces hgap]
    dsimp only
    rw [hflow.isBlank, if_neg (by simp), hcompact, if_neg (by simp), parseNestedOrInline,
      hflow.skipSpaces hgap, hflow.isBlank, if_neg (by simp)]

/-- One item, and then the others; the entries of a mapping go the same way. -/
theorem blockParses_value {value : Node} {values : List Node} {suffix : Bytes}
    {below lines : List Bytes} (hafter : Block indent (.after value) (suffix :: below))
    (hvalues : Block indent (.values values) lines)
    (h : BlockParses limits indent (.after value) (suffix :: below))
    (hmore : BlockParses limits indent (.values values) lines) :
    BlockParses limits indent (.values (value :: values))
      ((spaces indent ++ byte '-' :: suffix) :: (below ++ lines)) := by
  intro depth seen nodes rest turns bound hfits hlength hnodes hrest hturns hbound
  have hseen : seen ++ value :: values = seen ++ [value] ++ values := by simp
  have hlines : ((spaces indent ++ byte '-' :: suffix) :: (below ++ lines)).map asLine ++ rest =
      asLine (spaces indent ++ byte '-' :: suffix) ::
        (below.map asLine ++ (lines.map asLine ++ rest)) := by simp
  have hblank : (asLine (spaces indent ++ byte '-' :: suffix)).blank = false := by
    rw [asLine_dash]
  simp only [List.length_cons, List.length_append] at hturns hbound
  rw [countValues] at hnodes ⊢
  rw [hseen] at hlength ⊢
  rw [hlines]
  have hroom : seen.length < limits.maxContainerEntries := by
    simp only [List.length_append, List.length_singleton] at hlength
    omega
  have hread := h suffix below rfl (depth + 1) nodes (lines.map asLine ++ rest) bound
    (hfits value List.mem_cons_self) (by omega) (hvalues.values_outdented hrest)
    (by simp only [List.length_append, List.length_map]; omega)
  cases turns with
  | zero => omega
  | succ turns =>
    rw [sequenceLoop, skipBlank_cons hblank]
    dsimp only
    rw [isSequenceLine_dash hafter.suffix, if_neg (by simp), checkEntry_of_lt hroom, ok_bind,
      parseSequenceValue_after hafter, hread, ok_bind]
    dsimp only
    rw [hmore depth (seen ++ [value]) (nodes + value.count) rest turns bound
      (fun v hv => hfits v (List.mem_cons_of_mem _ hv)) hlength (by omega) hrest (by omega)
      (by omega), Nat.add_assoc]

/-- A key on a line of its own is read back. -/
theorem parseBlockKey_quoted {key text : Bytes} (h : Quoted key text)
    (hfits : key.length ≤ limits.maxScalarBytes) : parseBlockKey limits text = .ok key := by
  have hskip : skipSpaces text = text := by
    have hstops := h.stops []
    rw [List.append_nil] at hstops
    exact dropWhile_of_stops hstops
  have htrim : trimRightSpaces text = text := by
    obtain ⟨inner, -, rfl⟩ := h
    rw [trimRightSpaces, ← List.cons_append, List.rdropWhile_concat_neg]
    decide
  have hempty : text.isEmpty = false := by
    obtain ⟨tail, rfl⟩ := h.head
    rfl
  have hread := parseMappingKey_quoted h hfits []
  rw [List.append_nil] at hread
  rw [parseBlockKey, hskip, htrim, hempty, if_neg (by simp), hread, ok_bind]
  rfl

theorem blockParses_entry {key keyText : Bytes} {value : Node} {entries : List (Bytes × Node)}
    {suffix : Bytes} {below lines : List Bytes} (hkey : Quoted key keyText)
    (hafter : Block indent (.after value) (suffix :: below))
    (hentries : Block indent (.entries entries) lines)
    (h : BlockParses limits indent (.after value) (suffix :: below))
    (hmore : BlockParses limits indent (.entries entries) lines) :
    BlockParses limits indent (.entries ((key, value) :: entries))
      ((spaces indent ++ (keyText ++ byte ':' :: suffix)) :: (below ++ lines)) := by
  intro depth seen nodes rest turns bound hfits hkeys hnodup hlength hnodes hrest hturns hbound
  have hseen : seen ++ (key, value) :: entries = seen ++ [(key, value)] ++ entries := by simp
  have hlines : ((spaces indent ++ (keyText ++ byte ':' :: suffix)) :: (below ++ lines)).map asLine
      ++ rest = asLine (spaces indent ++ (keyText ++ byte ':' :: suffix)) ::
        (below.map asLine ++ (lines.map asLine ++ rest)) := by simp
  have hline := asLine_key hkey indent suffix
  have hnew : key ∉ seen.map Prod.fst := new_of_nodup hnodup
  obtain ⟨hmerge, hsize⟩ := hkeys _ List.mem_cons_self
  simp only [List.length_cons, List.length_append] at hturns hbound
  rw [countEntries] at hnodes ⊢
  rw [hseen] at hlength hnodup ⊢
  rw [hlines]
  have hroom : seen.length < limits.maxContainerEntries := by
    simp only [List.length_append, List.length_singleton] at hlength
    omega
  have hread := h suffix below rfl (depth + 1) (nodes + 1) (lines.map asLine ++ rest) bound
    (hfits _ List.mem_cons_self) (by omega) (hentries.entries_outdented hrest)
    (by simp only [List.length_append, List.length_map]; omega)
  have hentry : parseMappingEntry limits (parseBlock limits bound) (seen.map Prod.fst) indent depth
      nodes (asLine (spaces indent ++ (keyText ++ byte ':' :: suffix)))
      (below.map asLine ++ (lines.map asLine ++ rest)) =
      .ok ((key, value), nodes + 1 + value.count, lines.map asLine ++ rest) := by
    rw [parseMappingEntry, hline]
    dsimp only
    rw [drop_spaces, findMappingColon_key hkey (endsKey_suffix hafter.suffix)]
    dsimp only
    rw [parseEntry, parseBlockKey_quoted hkey hsize, followed_ok, ok_bind,
      admitKey_of_new hnew hmerge (by omega), ok_bind, hread, ok_bind]
  cases turns with
  | zero => omega
  | succ turns =>
    rw [mappingLoop, skipBlank_cons (by rw [hline])]
    dsimp only
    rw [isSequenceLine_key hkey, if_neg (by rw [hline]; simp), checkEntry_of_lt hroom, ok_bind,
      hentry, ok_bind]
    dsimp only
    rw [hmore depth (seen ++ [(key, value)]) (nodes + 1 + value.count) rest turns bound
      (fun e he => hfits e (List.mem_cons_of_mem _ he))
      (fun e he => hkeys e (List.mem_cons_of_mem _ he)) hnodup hlength (by omega) hrest (by omega)
      (by omega), Nat.add_assoc, Nat.add_assoc, Nat.add_assoc]

/-- The block parser goes into the loop of the kind that is rendered. -/
theorem blockParses_sequence {values : List Node} {lines : List Bytes} (hne : values ≠ [])
    (hvalues : Block indent (.values values) lines)
    (h : BlockParses limits indent (.values values) lines) :
    BlockParses limits indent (.node (.sequence values)) lines := by
  intro depth nodes rest turns hfits hnodes hrest hturns
  cases hfits with
  | sequence hdepth hlength hfits =>
    rw [Node.count] at hnodes ⊢
    cases turns with
    | zero => omega
    | succ turns =>
      have hread := h depth [] (nodes + 1) rest (lines.length + rest.length + 1) turns hfits hlength
        (by omega) hrest (by omega) (by omega)
      have hfirst : ∃ line more, lines.map asLine ++ rest = line :: more ∧ line.blank = false ∧
          line.indent = indent ∧ isSequenceLine line indent = true := by
        cases hvalues with
        | noValues => exact absurd rfl hne
        | value hafter =>
          refine ⟨_, _, rfl, ?_, ?_, isSequenceLine_dash hafter.suffix⟩
          · rw [asLine_dash]
          · rw [asLine_dash]
      obtain ⟨line, more, hcons, hblank, hindent, hsequence⟩ := hfirst
      have hlength : (line :: more).length = lines.length + rest.length := by
        rw [← hcons, List.length_append, List.length_map]
      rw [hcons] at hread ⊢
      rw [parseBlock, skipBlank_cons hblank]
      dsimp only
      rw [if_neg (by simp [hindent]), if_pos hsequence, parseSequence,
        reserveContainer_of_le hdepth (by omega), ok_bind, hlength, hread, ok_bind]
      dsimp only
      rw [List.nil_append, Nat.add_assoc]

theorem blockParses_mapping {entries : List (Bytes × Node)} {lines : List Bytes}
    (hne : entries ≠ []) (hentries : Block indent (.entries entries) lines)
    (h : BlockParses limits indent (.entries entries) lines) :
    BlockParses limits indent (.node (.mapping entries)) lines := by
  intro depth nodes rest turns hfits hnodes hrest hturns
  cases hfits with
  | mapping hdepth hlength hnodup hkeys hfits =>
    rw [Node.count] at hnodes ⊢
    cases turns with
    | zero => omega
    | succ turns =>
      have hread := h depth [] (nodes + 1) rest (lines.length + rest.length + 1) turns hfits hkeys
        hnodup hlength (by omega) hrest (by omega) (by omega)
      have hfirst : ∃ line more, lines.map asLine ++ rest = line :: more ∧ line.blank = false ∧
          line.indent = indent ∧ isSequenceLine line indent = false := by
        cases hentries with
        | noEntries => exact absurd rfl hne
        | entry hkey =>
          refine ⟨_, _, rfl, ?_, ?_, isSequenceLine_key hkey _ _⟩
          · rw [asLine_key hkey]
          · rw [asLine_key hkey]
      obtain ⟨line, more, hcons, hblank, hindent, hsequence⟩ := hfirst
      have hlength : (line :: more).length = lines.length + rest.length := by
        rw [← hcons, List.length_append, List.length_map]
      rw [hcons] at hread ⊢
      rw [parseBlock, skipBlank_cons hblank]
      dsimp only
      rw [if_neg (by simp [hindent]), if_neg (by simp [hsequence]), parseMapping,
        reserveContainer_of_le hdepth (by omega), ok_bind, hlength, hread, ok_bind]
      have hempty : entries.isEmpty = false := by simpa using hne
      dsimp only
      rw [List.nil_append, hempty, throwIf, if_neg (by simp), ok_bind, Nat.add_assoc]

/-- A block is read back as the tree it was written from. -/
theorem parseBlock_block {layout : Layout} {lines : List Bytes} (h : Block indent layout lines) :
    BlockParses limits indent layout lines := by
  induction h with
  | sequence hne h ih => exact blockParses_sequence hne h ih
  | mapping hne h ih => exact blockParses_mapping hne h ih
  | inline _ hgap hflow => exact blockParses_inline hgap hflow
  | nested hinner h ih => exact blockParses_nested hinner h ih
  | noValues => exact blockParses_noValues
  | value hafter hvalues ih ihmore => exact blockParses_value hafter hvalues ih ihmore
  | noEntries => exact blockParses_noEntries
  | entry hkey hafter hentries ih ihmore =>
    exact blockParses_entry hkey hafter hentries ih ihmore

end Reading

-- ---------------------------------------------------------------------------
-- Lexing
-- ---------------------------------------------------------------------------

theorem isContinuation_continuation (bits : Nat) :
    isContinuation (Utf8.continuation bits) = true :=
  Utf8.isContinuation_continuation bits

/-- The table of leads and second bytes knows every scalar value. -/
theorem isValidUtf8From_encode {codePoint : Nat} (h : Utf8.IsScalar codePoint) (turns : Nat)
    (rest : Bytes) :
    isValidUtf8From (turns + 1) (Utf8.encode codePoint ++ rest) = isValidUtf8From turns rest := by
  obtain ⟨hmax, hsurrogate⟩ := h
  have hlead {n : Nat} (hn : n < 256) (b : UInt8) :
      (UInt8.ofNat n ≤ b ↔ n ≤ b.toNat) ∧ (b ≤ UInt8.ofNat n ↔ b.toNat ≤ n) ∧
        (UInt8.ofNat n = b ↔ n = b.toNat) := by
    rw [UInt8.le_iff_toNat_le, UInt8.le_iff_toNat_le, ← UInt8.toNat_inj,
      Utf8.toNat_ofNat_of_lt hn]
    exact ⟨Iff.rfl, Iff.rfl, Iff.rfl⟩
  have hsecond (bits : Nat) (b : UInt8) :
      (Utf8.continuation bits < b ↔ 0x80 + bits % 64 < b.toNat) ∧
        (b ≤ Utf8.continuation bits ↔ b.toNat ≤ 0x80 + bits % 64) := by
    rw [Utf8.continuation_eq, UInt8.lt_iff_toNat_lt, UInt8.le_iff_toNat_le,
      Utf8.toNat_ofNat_of_lt (by omega)]
    exact ⟨Iff.rfl, Iff.rfl⟩
  rw [Utf8.encode_eq hmax]
  split
  · rename_i hascii
    have hlow : UInt8.ofNat codePoint ≤ 0x7F := ((hlead (by omega) 0x7F).1).mpr hascii
    rw [List.cons_append, List.nil_append]
    conv_lhs => unfold isValidUtf8From
    rw [if_pos hlow]
  rename_i hascii
  split
  · rename_i hbound
    have hn : 0xC0 + codePoint / 64 < 256 := by omega
    have h7f := (hlead hn 0x7F).1
    have hc2 := (hlead hn 0xC2).2.1
    have hdf := (hlead hn 0xDF).1
    simp only [UInt8.reduceToNat] at h7f hc2 hdf
    simp only [List.cons_append, List.nil_append]
    conv_lhs => unfold isValidUtf8From
    simp only [h7f, hc2, hdf, isContinuation_continuation, Bool.true_and, Bool.and_eq_true,
      decide_eq_true_eq]
    rw [if_neg (by omega), if_pos (by omega)]
  rename_i htwo
  split
  · rename_i hbound
    have hn : 0xE0 + codePoint / 4096 < 256 := by omega
    have h7f := (hlead hn 0x7F).1
    have hdf := (hlead hn 0xDF).1
    have he0 := (hlead hn 0xE0)
    have hef := (hlead hn 0xEF).1
    have hed := (hlead hn 0xED).2.2
    have ha0 := hsecond (codePoint / 64) 0xA0
    simp only [UInt8.reduceToNat] at h7f hdf he0 hef hed ha0
    simp only [List.cons_append, List.nil_append]
    conv_lhs => unfold isValidUtf8From
    simp only [h7f, hdf, he0, hef, hed, ha0, isContinuation_continuation, Bool.not_true,
      Bool.false_or, Bool.and_eq_true, decide_eq_true_eq, beq_eq_decide]
    rw [if_neg (by omega), if_neg (by omega), if_pos (by omega)]
    have hgood : (!((decide (0xE0 + codePoint / 4096 = 0xE0) &&
        decide (0x80 + codePoint / 64 % 64 < 0xA0)) ||
        (decide (0xE0 + codePoint / 4096 = 0xED) &&
        decide (0xA0 ≤ 0x80 + codePoint / 64 % 64)))) = true := by
      simp
      omega
    rw [hgood, Bool.true_and]
  · have hn : 0xF0 + codePoint / 262144 < 256 := by omega
    have h7f := (hlead hn 0x7F).1
    have hdf := (hlead hn 0xDF).1
    have hef := (hlead hn 0xEF).1
    have hf0 := hlead hn 0xF0
    have hf4 := hlead hn 0xF4
    have h90 := hsecond (codePoint / 4096) 0x90
    simp only [UInt8.reduceToNat] at h7f hdf hef hf0 hf4 h90
    simp only [List.cons_append, List.nil_append]
    conv_lhs => unfold isValidUtf8From
    simp only [h7f, hdf, hef, hf0, hf4, h90, isContinuation_continuation, Bool.not_true,
      Bool.false_or, Bool.and_eq_true, decide_eq_true_eq, beq_eq_decide]
    rw [if_neg (by omega), if_neg (by omega), if_neg (by omega), if_pos (by omega)]
    have hgood : (!((decide (0xF0 + codePoint / 262144 = 0xF0) &&
        decide (0x80 + codePoint / 4096 % 64 < 0x90)) ||
        (decide (0xF0 + codePoint / 262144 = 0xF4) &&
        decide (0x90 ≤ 0x80 + codePoint / 4096 % 64)))) = true := by
      simp
      omega
    rw [hgood, Bool.true_and]

/-- A concatenation of encoded scalar values. -/
def IsUtf8 (bytes : Bytes) : Prop :=
  ∃ codes : List Nat, (∀ code ∈ codes, Utf8.IsScalar code) ∧ bytes = codes.flatMap Utf8.encode

/-- The lexer admits what the grammar of texts derives. -/
theorem isValidUtf8_of_isUtf8 {bytes : Bytes} (h : IsUtf8 bytes) : isValidUtf8 bytes = true := by
  obtain ⟨codes, hscalar, rfl⟩ := h
  have hall (turns : Nat) (hturns : (codes.flatMap Utf8.encode).length ≤ turns) :
      isValidUtf8From turns (codes.flatMap Utf8.encode) = true := by
    induction codes generalizing turns with
    | nil =>
      rw [List.flatMap_nil]
      unfold isValidUtf8From
      rfl
    | cons code codes ih =>
      have hpos := List.length_pos_iff.mpr (Utf8.encode_ne_nil code)
      rw [List.flatMap_cons, List.length_append] at hturns
      rw [List.flatMap_cons]
      cases turns with
      | zero => omega
      | succ turns =>
        rw [isValidUtf8From_encode (hscalar code List.mem_cons_self)]
        exact ih (fun c hc => hscalar c (List.mem_cons_of_mem _ hc)) turns (by omega)
  exact hall _ (Nat.le_refl _)

/-- A text of scalar values none of which is a control. -/
def Printable (text : Bytes) : Prop :=
  ∃ codes : List Nat, (∀ code ∈ codes, Utf8.IsScalar code ∧ 0x20 ≤ code) ∧
    text = codes.flatMap Utf8.encode

theorem Printable.nil : Printable [] :=
  ⟨[], (fun _ h => nomatch h), rfl⟩

/-- A rendering has no line feed and no carriage return, and is UTF-8, piece by piece. -/
theorem Printable.append {a b : Bytes} (ha : Printable a) (hb : Printable b) :
    Printable (a ++ b) := by
  obtain ⟨codes, hcodes, rfl⟩ := ha
  obtain ⟨more, hmore, rfl⟩ := hb
  refine ⟨codes ++ more, fun code hcode => ?_, by rw [List.flatMap_append]⟩
  rcases List.mem_append.mp hcode with hcode | hcode
  · exact hcodes code hcode
  · exact hmore code hcode

theorem Printable.encode {code : Nat} (hscalar : Utf8.IsScalar code) (hcontrol : 0x20 ≤ code) :
    Printable (Utf8.encode code) := by
  refine ⟨[code], fun c hc => ?_, by simp⟩
  obtain rfl := List.mem_singleton.mp hc
  exact ⟨hscalar, hcontrol⟩

/-- A byte between space and tilde, or DEL. -/
def isPrintableAscii (b : UInt8) : Bool :=
  0x20 ≤ b && b ≤ 0x7F

theorem Printable.cons {b : UInt8} (hb : isPrintableAscii b = true) {text : Bytes}
    (h : Printable text) : Printable (b :: text) := by
  have hall : ∀ b : UInt8, isPrintableAscii b = true →
      Utf8.encode b.toNat = [b] ∧ Utf8.IsScalar b.toNat ∧ 0x20 ≤ b.toNat :=
    forall_byte (by decide)
  obtain ⟨hencode, hscalar, hcontrol⟩ := hall b hb
  have hone := Printable.encode hscalar hcontrol
  rw [hencode] at hone
  exact hone.append h

theorem Printable.ascii {text : Bytes} (h : ∀ b ∈ text, isPrintableAscii b = true) :
    Printable text := by
  induction text with
  | nil => exact .nil
  | cons b text ih =>
    exact .cons (h b List.mem_cons_self) (ih fun c hc => h c (List.mem_cons_of_mem _ hc))

theorem Printable.noControl {text : Bytes} (h : Printable text) : ∀ b ∈ text, ¬b < 0x20 := by
  obtain ⟨codes, hcodes, rfl⟩ := h
  intro b hb
  obtain ⟨code, hcode, hbyte⟩ := List.mem_flatMap.mp hb
  obtain ⟨hscalar, hcontrol⟩ := hcodes code hcode
  by_cases hhigh : 0x7F < code
  · have hall : ∀ b : UInt8, ¬b ≤ 0x7F → ¬b < 0x20 := forall_byte (by decide)
    exact hall b (Utf8.encode_high hscalar.1 hhigh b hbyte)
  · rw [Utf8.encode, if_pos (by omega), List.mem_singleton] at hbyte
    rw [hbyte, UInt8.lt_iff_toNat_lt, Utf8.toNat_ofNat_of_lt (by omega)]
    show ¬code < 0x20
    omega

theorem Printable.codeUnit {digits : Bytes} {unit : Nat} (h : CodeUnit digits unit) :
    Printable digits := by
  have hall : ∀ b : UInt8, isHexDigit b = true → isPrintableAscii b = true :=
    forall_byte (by decide)
  exact .ascii fun b hb => hall b (h.2.1 b hb)

theorem Printable.character {text meaning : Bytes} (h : Character text meaning) :
    Printable text := by
  cases h with
  | plain hscalar hcontrol => exact .encode hscalar hcontrol
  | @escape b c hc =>
    have hall : ∀ b : UInt8, (shortEscape b).isSome = true → isPrintableAscii b = true :=
      forall_byte (by decide)
    have hb := hall b (by rw [hc]; rfl)
    exact .cons (by decide) (.cons hb .nil)
  | unicode hdigits => exact .cons (by decide) (.cons (by decide) (.codeUnit hdigits))
  | pair hfirst hsecond =>
    refine .cons (by decide) (.cons (by decide) ((Printable.codeUnit hfirst).append ?_))
    exact .cons (by decide) (.cons (by decide) (.codeUnit hsecond))

theorem Printable.quoted {value text : Bytes} (h : Quoted value text) : Printable text := by
  obtain ⟨inner, hcharacters, rfl⟩ := h
  have hinner : Printable inner := by
    induction hcharacters with
    | nil => exact .nil
    | cons hcharacter _ ih => exact (Printable.character hcharacter).append ih
  exact .cons (by decide) (hinner.append (.cons (by decide) .nil))

theorem Printable.gap {gap : Bytes} (h : IsGap gap) : Printable gap := by
  have hall : ∀ b : UInt8, isSpace b = true → isPrintableAscii b = true :=
    forall_byte (by decide)
  exact .ascii fun b hb => hall b (h b hb)

theorem Printable.flow {piece : Piece} {text : Bytes} (h : Flow piece text) : Printable text := by
  induction h with
  | scalar h => exact .quoted h
  | emptySequence hgap =>
    exact .cons (by decide) ((Printable.gap hgap).append (.cons (by decide) .nil))
  | sequence hgap _ ih =>
    exact .cons (by decide) ((Printable.gap hgap).append (ih.append (.cons (by decide) .nil)))
  | emptyMapping hgap =>
    exact .cons (by decide) ((Printable.gap hgap).append (.cons (by decide) .nil))
  | mapping hgap _ ih =>
    exact .cons (by decide) ((Printable.gap hgap).append (ih.append (.cons (by decide) .nil)))
  | lastValue _ hgap ih => exact ih.append (.gap hgap)
  | value _ hbefore hafter _ ih ihmore =>
    refine ih.append ((Printable.gap hbefore).append (.cons (by decide) ?_))
    exact (Printable.gap hafter).append ihmore
  | lastEntry hkey hbefore hafter _ hgap ih =>
    refine (Printable.quoted hkey).append ((Printable.gap hbefore).append (.cons (by decide) ?_))
    exact (Printable.gap hafter).append (ih.append (.gap hgap))
  | entry hkey hbefore hafter _ hgap hnext _ ih ihmore =>
    refine (Printable.quoted hkey).append ((Printable.gap hbefore).append (.cons (by decide) ?_))
    refine (Printable.gap hafter).append (ih.append ((Printable.gap hgap).append ?_))
    exact .cons (by decide) ((Printable.gap hnext).append ihmore)

theorem Printable.block {indent : Nat} {layout : Layout} {lines : List Bytes}
    (h : Block indent layout lines) : ∀ line ∈ lines, Printable line := by
  induction h with
  | sequence _ _ ih => exact ih
  | mapping _ _ ih => exact ih
  | inline _ hgap hflow =>
    intro line hline
    obtain rfl := List.mem_singleton.mp hline
    exact (Printable.gap hgap).append (.flow hflow)
  | nested _ _ ih =>
    intro line hline
    rcases List.mem_cons.mp hline with rfl | hline
    · exact .nil
    · exact ih line hline
  | noValues => exact fun _ h => nomatch h
  | noEntries => exact fun _ h => nomatch h
  | @value indent _ _ suffix below lines _ _ ih ihmore =>
    intro line hline
    rcases List.mem_cons.mp hline with rfl | hline
    · exact (Printable.gap (isGap_spaces _)).append
        (.cons (by decide) (ih suffix List.mem_cons_self))
    rcases List.mem_append.mp hline with hline | hline
    · exact ih line (List.mem_cons_of_mem _ hline)
    · exact ihmore line hline
  | @entry indent _ _ _ _ suffix below lines hkey _ _ ih ihmore =>
    intro line hline
    rcases List.mem_cons.mp hline with rfl | hline
    · exact (Printable.gap (isGap_spaces _)).append ((Printable.quoted hkey).append
        (.cons (by decide) (ih suffix List.mem_cons_self)))
    rcases List.mem_append.mp hline with hline | hline
    · exact ih line (List.mem_cons_of_mem _ hline)
    · exact ihmore line hline

/-- A line that starts with a key or a dash. -/
def Shaped (text : Bytes) : Prop :=
  ∃ indent b tail, text = spaces indent ++ b :: tail ∧
    (b = quote ∨ (b = byte '-' ∧ (tail = [] ∨ tail.head? = some space)))

/-- No rendered line starts with a byte order mark. -/
theorem Shaped.head {text : Bytes} (h : Shaped text) :
    ∃ b tail, text = b :: tail ∧ b ≠ 0xEF := by
  obtain ⟨indent, b, tail, rfl, hb⟩ := h
  cases indent with
  | zero =>
    refine ⟨b, tail, rfl, ?_⟩
    rcases hb with rfl | ⟨rfl, -⟩
    · decide
    · decide
  | succ indent => exact ⟨space, spaces indent ++ b :: tail, rfl, by decide⟩

/-- The lines of a layout that are whole. -/
def Layout.whole : Layout → List Bytes → List Bytes
  | .after _, lines => lines.tail
  | _, lines => lines

/-- No rendered line is taken for a document marker or starts with a tab. -/
theorem Shaped.block {indent : Nat} {layout : Layout} {lines : List Bytes}
    (h : Block indent layout lines) : ∀ line ∈ layout.whole lines, Shaped line := by
  induction h with
  | sequence _ _ ih => exact ih
  | mapping _ _ ih => exact ih
  | inline => exact fun _ h => nomatch h
  | nested _ _ ih => exact ih
  | noValues => exact fun _ h => nomatch h
  | noEntries => exact fun _ h => nomatch h
  | value hafter _ ih ihmore =>
    intro line hline
    rcases List.mem_cons.mp hline with rfl | hline
    · exact ⟨_, _, _, rfl, .inr ⟨rfl, hafter.suffix⟩⟩
    rcases List.mem_append.mp hline with hline | hline
    · exact ih line hline
    · exact ihmore line hline
  | entry hkey _ _ ih ihmore =>
    intro line hline
    rcases List.mem_cons.mp hline with rfl | hline
    · obtain ⟨tail, rfl⟩ := hkey.head
      exact ⟨_, _, _, rfl, .inl rfl⟩
    rcases List.mem_append.mp hline with hline | hline
    · exact ih line hline
    · exact ihmore line hline

theorem beforeMarker_append {content before : Bytes} (h : beforeMarker content = some before) :
    ∃ after, content = before ++ after := by
  induction content generalizing before with
  | nil => cases h
  | cons b rest ih =>
    rw [beforeMarker] at h
    split at h
    · obtain rfl := Option.some.inj h
      exact ⟨_, rfl⟩
    · obtain ⟨tail, htail, rfl⟩ := Option.map_eq_some_iff.mp h
      obtain ⟨after, rfl⟩ := ih htail
      exact ⟨after, rfl⟩

/-- The marker is the front of its line. -/
theorem markerToken_append (content : Bytes) : ∃ after, content = markerToken content ++ after := by
  unfold markerToken
  cases h : beforeMarker content with
  | some before => exact beforeMarker_append h
  | none =>
    obtain ⟨after, hafter⟩ := List.rdropWhile_prefix isSpace (l := content)
    exact ⟨after, hafter.symm⟩

/-- The lexer takes a rendered line as it is. -/
theorem lexLine_shaped {text : Bytes} (h : Shaped text) (hprintable : Printable text) :
    lexLine text = .ok (asLine text) := by
  obtain ⟨indent, b, tail, rfl, hb⟩ := h
  have hspace : isSpace b = false := by
    rcases hb with rfl | ⟨rfl, -⟩ <;> decide
  have hcontent : skipSpaces (spaces indent ++ b :: tail) = b :: tail :=
    skipSpaces_cons (isGap_spaces indent) hspace
  have hbytes : (spaces indent ++ b :: tail).any isRefused = false := by
    have hall : ∀ b : UInt8, ¬b < 0x20 → isRefused b = false :=
      forall_byte (by decide)
    rw [List.any_eq_false]
    intro c hc
    rw [hall c (hprintable.noControl c hc)]
    simp
  have htab : ((b :: tail).head? == some 0x09) = false := by
    rcases hb with rfl | ⟨rfl, -⟩ <;> rfl
  have hmarker : (markerToken (b :: tail) == ascii "---" ||
      markerToken (b :: tail) == ascii "...") = false := by
    obtain ⟨after, hafter⟩ := markerToken_append (b :: tail)
    have hdashes : ascii "---" = [byte '-', byte '-', byte '-'] := by decide
    rw [Bool.or_eq_false_iff, beq_eq_false_iff_ne, beq_eq_false_iff_ne]
    constructor
    · intro htoken
      rw [htoken, hdashes] at hafter
      obtain ⟨hfirst, hrest⟩ := List.cons.inj hafter
      rcases hb with rfl | ⟨-, hnil | hhead⟩
      · exact absurd hfirst (by decide)
      · rw [hnil] at hrest
        cases hrest
      · rw [hrest] at hhead
        exact absurd (Option.some.inj hhead) (by decide)
    · intro htoken
      rw [htoken] at hafter
      obtain ⟨hfirst, -⟩ := List.cons.inj hafter
      rcases hb with rfl | ⟨rfl, -⟩
      · exact absurd hfirst (by decide)
      · exact absurd hfirst (by decide)
  rw [lexLine, hbytes, asLine, hcontent]
  dsimp only
  rw [htab, hmarker, Bool.and_false]
  rfl

/-- Shaped lines are lexed one by one. -/
theorem lexLines_shaped {lines : List Bytes} (hshaped : ∀ line ∈ lines, Shaped line)
    (hprintable : ∀ line ∈ lines, Printable line) :
    lexLines lines = .ok (lines.map asLine) := by
  induction lines with
  | nil => rfl
  | cons line rest ih =>
    have hline := lexLine_shaped (hshaped line List.mem_cons_self)
      (hprintable line List.mem_cons_self)
    have hrest := ih (fun other h => hshaped other (List.mem_cons_of_mem _ h))
      (fun other h => hprintable other (List.mem_cons_of_mem _ h))
    rw [lexLines, hline, hrest]
    rfl

/-- The first line of a text, and the rest. -/
theorem splitLines_line {line : Bytes} (hline : lf ∉ line) (rest : Bytes) :
    splitLines (line ++ lf :: rest) = line :: splitLines rest := by
  induction line with
  | nil => rfl
  | cons b line ih =>
    have hb : (b == lf) = false := by
      rw [beq_eq_false_iff_ne]
      rintro rfl
      exact hline List.mem_cons_self
    rw [List.cons_append, splitLines, hb, ih fun hmem => hline (List.mem_cons_of_mem _ hmem)]
    rfl

/-- Splitting gives back the lines that were joined. -/
theorem splitLines_flatMap {lines : List Bytes} (h : ∀ line ∈ lines, lf ∉ line) :
    splitLines (lines.flatMap fun line => line ++ [lf]) = lines := by
  induction lines with
  | nil => rfl
  | cons line lines ih =>
    rw [List.flatMap_cons, List.append_assoc, List.singleton_append,
      splitLines_line (h line List.mem_cons_self), ih fun l hl => h l (List.mem_cons_of_mem _ hl)]

/-- The text of a document, from its lines. -/
def joinLines (lines : List Bytes) : Bytes :=
  lines.flatMap fun line => line ++ [lf]

theorem isUtf8_joinLines {lines : List Bytes} (h : ∀ line ∈ lines, Printable line) :
    IsUtf8 (joinLines lines) := by
  induction lines with
  | nil => exact ⟨[], (fun _ h => nomatch h), rfl⟩
  | cons line lines ih =>
    obtain ⟨codes, hcodes, hline⟩ := h line List.mem_cons_self
    obtain ⟨more, hmore, hlines⟩ := ih fun l hl => h l (List.mem_cons_of_mem _ hl)
    refine ⟨codes ++ 0x0A :: more, fun code hcode => ?_, ?_⟩
    · rcases List.mem_append.mp hcode with hcode | hcode
      · exact (hcodes code hcode).1
      rcases List.mem_cons.mp hcode with rfl | hcode
      · decide
      · exact hmore code hcode
    · have hencode : Utf8.encode 0x0A = [lf] := by decide
      rw [joinLines, List.flatMap_cons, ← joinLines, hlines, hline, List.flatMap_append,
        List.flatMap_cons, hencode]
      simp

/-- A tree written as a document. -/
def Renders (tree : Node) (bytes : Bytes) : Prop :=
  ∃ lines, Block 0 (.node tree) lines ∧ bytes = joinLines lines

/-- The lexer gives back the lines of a rendering. -/
theorem lexFailsafeYaml_block {tree : Node} {lines : List Bytes}
    (h : Block 0 (.node tree) lines) :
    lexFailsafeYaml (joinLines lines) = .ok (lines.map asLine) := by
  have hprintable := Printable.block h
  have hshaped : ∀ line ∈ lines, Shaped line := Shaped.block h
  have hsplit : splitLines (joinLines lines) = lines := by
    refine splitLines_flatMap fun line hline hmem => ?_
    exact (hprintable line hline).noControl lf hmem (by decide)
  have hbom : (List.take 3 (joinLines lines) == [0xEF, 0xBB, 0xBF]) = false := by
    cases lines with
    | nil => rfl
    | cons text lines =>
      obtain ⟨b, tail, rfl, hb⟩ := (hshaped text List.mem_cons_self).head
      rw [joinLines, List.flatMap_cons, List.cons_append, List.cons_append, List.take_succ_cons,
        beq_eq_false_iff_ne]
      intro heq
      exact hb (List.cons.inj heq).1
  rw [lexFailsafeYaml, checkEncoding, hbom, isValidUtf8_of_isUtf8 (isUtf8_joinLines hprintable), hsplit]
  show lexLines lines = _
  exact lexLines_shaped hshaped hprintable

/-- A rendered tree is read back. -/
theorem parseFailsafeYaml_renders {tree : Node} {bytes : Bytes} (h : Renders tree bytes)
    {budget : Budget} (hfits : Fits budget.limits 1 tree)
    (hnodes : budget.nodesConsumed + tree.count ≤ budget.limits.maxNodes) :
    parseFailsafeYaml bytes budget =
      .ok (tree, { budget with nodesConsumed := budget.nodesConsumed + tree.count }) := by
  obtain ⟨lines, hblock, rfl⟩ := h
  have hread := parseBlock_block hblock 1 budget.nodesConsumed [] (lines.length + 1) hfits hnodes
    (fun _ h => nomatch h) (by simp)
  obtain ⟨line, more, hcons, hblank, hindent⟩ := hblock.head []
  rw [List.append_nil] at hread hcons
  have hlength : (line :: more).length = lines.length := by rw [← hcons, List.length_map]
  rw [parseFailsafeYaml, lexFailsafeYaml_block hblock, ok_bind, parseStructure, hcons,
    skipBlank_cons hblank]
  dsimp only
  rw [hcons] at hread
  rw [if_neg (by simp [hindent]), hlength, hread, ok_bind]
  rfl

-- ---------------------------------------------------------------------------
-- Every tree can be written
-- ---------------------------------------------------------------------------

mutual

/-- Every scalar is double-quoted, and it and every key is UTF-8. -/
def Node.IsText : Node → Prop
  | .scalar value style => IsUtf8 value ∧ style = .doubleQuoted
  | .mapping entries => EntriesAreText entries
  | .sequence values => ValuesAreText values

/-- Every key and scalar of a tree is text that can be written. -/
def EntriesAreText : List (Bytes × Node) → Prop
  | [] => True
  | (key, value) :: entries => IsUtf8 key ∧ value.IsText ∧ EntriesAreText entries

def ValuesAreText : List Node → Prop
  | [] => True
  | value :: values => value.IsText ∧ ValuesAreText values

end

/-- A mapping or a sequence that holds something. -/
def Node.IsFilled : Node → Prop
  | .scalar _ _ => False
  | .mapping entries => entries ≠ []
  | .sequence values => values ≠ []

/-- Every scalar value can be written in a quoted scalar. -/
theorem exists_character {code : Nat} (h : Utf8.IsScalar code) :
    ∃ text, Character text (Utf8.encode code) := by
  by_cases hcontrol : code < 0x20
  · have hdigits : ∀ code : Fin 32, CodeUnit (ascii "00" ++
        [hexDigit (UInt8.ofNat (code / 16)), hexDigit (UInt8.ofNat (code % 16))]) code := by
      unfold CodeUnit
      decide +kernel
    refine ⟨_, .unicode (hdigits ⟨code, hcontrol⟩) ?_ ?_⟩
    · intro hhigh
      have := hhigh.1
      omega
    · intro hlow
      have := hlow.1
      omega
  by_cases hquote : code = quote.toNat
  · rw [hquote, Utf8.encode_ascii (by decide)]
    exact ⟨[backslash, quote], .escape (by decide)⟩
  by_cases hslash : code = backslash.toNat
  · rw [hslash, Utf8.encode_ascii (by decide)]
    exact ⟨[backslash, backslash], .escape (by decide)⟩
  exact ⟨_, .plain h (by omega) hquote hslash⟩

/-- Every text can be quoted. -/
theorem exists_quoted {value : Bytes} (h : IsUtf8 value) : ∃ text, Quoted value text := by
  obtain ⟨codes, hcodes, rfl⟩ := h
  have hinner : ∃ inner, Characters inner (codes.flatMap Utf8.encode) := by
    induction codes with
    | nil => exact ⟨[], .nil⟩
    | cons code codes ih =>
      obtain ⟨text, htext⟩ := exists_character (hcodes code List.mem_cons_self)
      obtain ⟨inner, hinner⟩ := ih fun c hc => hcodes c (List.mem_cons_of_mem _ hc)
      exact ⟨text ++ inner, .cons htext hinner⟩
  obtain ⟨inner, hinner⟩ := hinner
  exact ⟨_, inner, hinner, rfl⟩

theorem isGap_nil : IsGap [] :=
  fun _ h => nomatch h

mutual

/-- Every filled tree has a rendering on one line. -/
theorem exists_flow : ∀ node : Node, node.IsText → ∃ text, Flow (.node node) text
  | .scalar value style, h => by
    rw [Node.IsText] at h
    obtain ⟨hvalue, rfl⟩ := h
    obtain ⟨text, htext⟩ := exists_quoted hvalue
    exact ⟨text, .scalar htext⟩
  | .mapping [], _ => ⟨_, .emptyMapping isGap_nil⟩
  | .mapping (entry :: entries), h => by
    rw [Node.IsText] at h
    obtain ⟨inner, hinner⟩ := exists_flow_entries (entry :: entries) (List.cons_ne_nil _ _) h
    exact ⟨_, .mapping isGap_nil hinner⟩
  | .sequence [], _ => ⟨_, .emptySequence isGap_nil⟩
  | .sequence (value :: values), h => by
    rw [Node.IsText] at h
    obtain ⟨inner, hinner⟩ := exists_flow_values (value :: values) (List.cons_ne_nil _ _) h
    exact ⟨_, .sequence isGap_nil hinner⟩

theorem exists_flow_entries : ∀ entries : List (Bytes × Node), entries ≠ [] →
    EntriesAreText entries → ∃ text, Flow (.entries entries) text
  | [], hne, _ => absurd rfl hne
  | [(key, value)], _, h => by
    rw [EntriesAreText] at h
    obtain ⟨keyText, hkey⟩ := exists_quoted h.1
    obtain ⟨text, htext⟩ := exists_flow value h.2.1
    exact ⟨_, .lastEntry hkey isGap_nil isGap_nil htext isGap_nil⟩
  | (key, value) :: next :: entries, _, h => by
    rw [EntriesAreText] at h
    obtain ⟨keyText, hkey⟩ := exists_quoted h.1
    obtain ⟨text, htext⟩ := exists_flow value h.2.1
    obtain ⟨more, hmore⟩ := exists_flow_entries (next :: entries) (List.cons_ne_nil _ _) h.2.2
    exact ⟨_, .entry hkey isGap_nil isGap_nil htext isGap_nil isGap_nil hmore⟩

theorem exists_flow_values : ∀ values : List Node, values ≠ [] → ValuesAreText values →
    ∃ text, Flow (.values values) text
  | [], hne, _ => absurd rfl hne
  | [value], _, h => by
    rw [ValuesAreText] at h
    obtain ⟨text, htext⟩ := exists_flow value h.1
    exact ⟨_, .lastValue htext isGap_nil⟩
  | value :: next :: values, _, h => by
    rw [ValuesAreText] at h
    obtain ⟨text, htext⟩ := exists_flow value h.1
    obtain ⟨more, hmore⟩ := exists_flow_values (next :: values) (List.cons_ne_nil _ _) h.2
    exact ⟨_, .value htext isGap_nil isGap_nil hmore⟩

end

theorem exists_after {indent : Nat} {value : Node} (h : value.IsText) :
    ∃ suffix, Block indent (.after value) [suffix] := by
  obtain ⟨text, htext⟩ := exists_flow value h
  exact ⟨_, .inline (List.cons_ne_nil _ _) (isGap_spaces 1) htext⟩

/-- Every filled tree has a rendering, so the round trip is about all of them. -/
theorem exists_renders {tree : Node} (htext : tree.IsText) (hfilled : tree.IsFilled) :
    ∃ bytes, Renders tree bytes := by
  cases tree with
  | scalar => exact absurd hfilled id
  | mapping entries =>
    have hall : ∃ lines, Block 0 (.entries entries) lines := by
      rw [Node.IsText] at htext
      clear hfilled
      induction entries with
      | nil => exact ⟨[], .noEntries⟩
      | cons entry entries ih =>
        obtain ⟨key, value⟩ := entry
        rw [EntriesAreText] at htext
        obtain ⟨keyText, hkey⟩ := exists_quoted htext.1
        obtain ⟨suffix, hafter⟩ := exists_after htext.2.1
        obtain ⟨lines, hlines⟩ := ih htext.2.2
        exact ⟨_, .entry hkey hafter hlines⟩
    obtain ⟨lines, hlines⟩ := hall
    exact ⟨_, lines, .mapping hfilled hlines, rfl⟩
  | sequence values =>
    have hall : ∃ lines, Block 0 (.values values) lines := by
      rw [Node.IsText] at htext
      clear hfilled
      induction values with
      | nil => exact ⟨[], .noValues⟩
      | cons value values ih =>
        rw [ValuesAreText] at htext
        obtain ⟨suffix, hafter⟩ := exists_after htext.1
        obtain ⟨lines, hlines⟩ := ih htext.2
        exact ⟨_, .value hafter hlines⟩
    obtain ⟨lines, hlines⟩ := hall
    exact ⟨_, lines, .sequence hfilled hlines, rfl⟩

-- ---------------------------------------------------------------------------
-- The law
-- ---------------------------------------------------------------------------

/-- Every tree of texts can be written, whatever is written of a tree within the limits
is read back as that tree, every document that is accepted gives a tree within the
limits that is charged to the budget node by node, and no document keeps the parser
running. -/
theorem yaml_round_trip (budget : Budget) :
    (∀ tree : Node, tree.IsText → tree.IsFilled → ∃ bytes, Renders tree bytes) ∧
      (∀ tree bytes, Renders tree bytes → Fits budget.limits 1 tree →
        budget.nodesConsumed + tree.count ≤ budget.limits.maxNodes →
        parseFailsafeYaml bytes budget =
          .ok (tree, { budget with nodesConsumed := budget.nodesConsumed + tree.count })) ∧
      (∀ bytes tree after, parseFailsafeYaml bytes budget = .ok (tree, after) →
        Charged budget.limits 1 budget.nodesConsumed tree after.nodesConsumed) ∧
      ∀ bytes, parseFailsafeYaml bytes budget ≠ .error .running := by
  refine ⟨fun tree => exists_renders, fun tree bytes h => parseFailsafeYaml_renders h, ?_, ?_⟩
  · intro bytes tree after h
    exact ((parseFailsafeYaml_ends bytes budget).of_ok h).1
  · intro bytes h
    exact (parseFailsafeYaml_ends bytes budget).of_error h rfl

/-- A mapping with a sequence over lines, whose item holds what looks like a comment and
a colon. -/
def sampleTree : Node :=
  .mapping [(ascii "a", .sequence [.scalar (ascii ": #") .doubleQuoted])]

theorem yaml_round_trip_sample :
    parseFailsafeYaml (joinLines [ascii "\"a\":", ascii "  - \": #\""]) ⟨.v1, 0⟩ =
        .ok (sampleTree, ⟨.v1, 4⟩) ∧
      Charged .v1 1 0 sampleTree 4 := by
  have hplain (b : UInt8) (hb : b = byte 'a' ∨ b = byte ':' ∨ b = space ∨ b = hash) :
      Character [b] [b] := by
    have hone : Utf8.encode b.toNat = [b] := by
      rcases hb with rfl | rfl | rfl | rfl <;> decide
    rw [← hone]
    rcases hb with rfl | rfl | rfl | rfl <;>
      exact .plain (by decide) (by decide) (by decide) (by decide)
  have hkey : Quoted (ascii "a") (ascii "\"a\"") :=
    ⟨[byte 'a'], .cons (hplain _ (by simp)) .nil, by decide⟩
  have hvalue : Quoted (ascii ": #") (ascii "\": #\"") :=
    ⟨[byte ':', space, hash], .cons (hplain _ (by simp)) (.cons (hplain _ (by simp))
      (.cons (hplain _ (by simp)) .nil)), by decide⟩
  have hrenders : Renders sampleTree (joinLines [ascii "\"a\":", ascii "  - \": #\""]) := by
    refine ⟨_, .mapping (List.cons_ne_nil _ _) ?_, rfl⟩
    have hitem : Block 2 (.after (.scalar (ascii ": #") .doubleQuoted)) [ascii " \": #\""] :=
      .inline (List.cons_ne_nil space []) (isGap_spaces 1) (.scalar hvalue)
    exact .entry hkey (.nested (by decide) (.sequence (List.cons_ne_nil _ _)
      (.value hitem .noValues))) .noEntries
  have hfits : Fits .v1 1 sampleTree := by
    refine .mapping (by decide) (by decide) (by decide) (fun e he => ?_) (fun e he => ?_)
    · obtain rfl := List.mem_singleton.mp he
      exact ⟨by decide, by decide⟩
    · obtain rfl := List.mem_singleton.mp he
      refine .sequence (by decide) (by decide) fun v hv => ?_
      obtain rfl := List.mem_singleton.mp hv
      exact .scalar (by decide)
  have hparse := (yaml_round_trip ⟨.v1, 0⟩).2.1 sampleTree _ hrenders hfits (by decide)
  exact ⟨hparse, (yaml_round_trip ⟨.v1, 0⟩).2.2.1 _ _ _ hparse⟩

end Cuac.Connector.FailsafeYaml

import Cuac.Connector.YamlColons
import Cuac.Connector.YamlRoundTrip

/-!
# Connector — deleting a YAML comment

Deleting a comment from a line leaves what the parser makes of the document, if the
bytes of the comment are ones a document may hold and the only mapping colon of the
line does not stand in the comment.

Two runs are compared, on the lines with the comment and without. `SameLine` relates
the two forms of a line, and every block parser is shown to end alike on related
lines.

Main results:

* `parseBlock_alike` — one block, with a comment and without.
* `comment_deletion` — one document.
* `colonInComment_entry`, `colonInComment_item` — what becomes of a line whose only
  mapping colon does stand in the comment.
-/

namespace Cuac.Connector.FailsafeYaml

open Cuac.Lib Cuac.Lib.Json

-- ---------------------------------------------------------------------------
-- The mapping colon and a comment
-- ---------------------------------------------------------------------------

theorem mappingColonFrom_comment {search : Search} {text body : Bytes} (h : Trailing text)
    {before after : Bytes} (hcolon : mappingColonFrom search text = some (before, after)) :
    mappingColonFrom search (text ++ hash :: body) = some (before, after ++ hash :: body) ∧
      Trailing after := by
  induction text generalizing search before with
  | nil => cases hcolon
  | cons b text ih =>
    have hends (hb : b = byte ':') : endsKey (text ++ hash :: body) = endsKey text := by
      cases text with
      | nil =>
        rw [hb] at h
        exact absurd h.singleton (by decide)
      | cons c text => rfl
    rw [mappingColonFrom] at hcolon
    rw [List.cons_append, mappingColonFrom]
    split at hcolon
    · rename_i hfound
      obtain ⟨rfl, rfl⟩ := Prod.mk.inj (Option.some.inj hcolon)
      rw [if_pos ⟨hfound.1, hfound.2.1, (hends hfound.2.1).trans hfound.2.2⟩]
      exact ⟨rfl, h.tail⟩
    · rename_i hnot
      obtain ⟨⟨before', after'⟩, htail, hcut⟩ := Option.map_eq_some_iff.mp hcolon
      obtain ⟨rfl, rfl⟩ := Prod.mk.inj hcut
      obtain ⟨hread, htrailing⟩ := ih h.tail htail
      rw [if_neg (fun hfound => hnot ⟨hfound.1, hfound.2.1,
        (hends hfound.2.1).symm.trans hfound.2.2⟩), hread]
      exact ⟨rfl, htrailing⟩

/-- The search finds the same colon with a comment behind the text, or none in either. -/
theorem findMappingColon_comment {text body : Bytes} (h : Trailing text)
    (hbehind : ((findMappingColon text).isNone &&
      (findMappingColon (text ++ hash :: body)).isSome) = false) :
    (findMappingColon text = none ∧ findMappingColon (text ++ hash :: body) = none) ∨
      ∃ before after, findMappingColon text = some (before, after) ∧
        findMappingColon (text ++ hash :: body) = some (before, after ++ hash :: body) ∧
        Trailing after := by
  cases hcolon : findMappingColon text with
  | some cut =>
    obtain ⟨hread, htrailing⟩ := mappingColonFrom_comment h hcolon
    exact .inr ⟨cut.1, cut.2, rfl, hread, htrailing⟩
  | none =>
    rw [hcolon] at hbehind
    refine .inl ⟨rfl, ?_⟩
    simpa using hbehind

-- ---------------------------------------------------------------------------
-- The two forms of a line
-- ---------------------------------------------------------------------------

/-- A line that is not blank, with a comment and without it. -/
structure Commented (line line' : Line) (kept body : Bytes) : Prop where
  text : line.text = kept ++ hash :: body
  text' : line'.text = kept
  indent : line.indent = (kept.takeWhile isSpace).length
  indent' : line'.indent = (kept.takeWhile isSpace).length
  blank : isBlank (skipSpaces kept) = false
  trailing : Trailing kept
  colon : colonBehind kept (hash :: body) = false
  quotes : insideQuotes kept = false

/-- The same line, two blank lines, or a line with a comment and without. -/
def SameLine (line line' : Line) : Prop :=
  line = line' ∨ (line.blank = true ∧ line'.blank = true) ∨
    ∃ kept body, Commented line line' kept body

/-- The lines of a document with a comment and without. A comment alone on the last line
leaves no line. -/
inductive SameLines : List Line → List Line → Prop
  | nil : SameLines [] []
  | last {line : Line} : line.blank = true → SameLines [line] []
  | cons {line line' : Line} {rest rest' : List Line} : SameLine line line' →
      SameLines rest rest' → (line.blank = line'.blank) → SameLines (line :: rest) (line' :: rest')

theorem SameLines.skipBlank {lines lines' : List Line} (h : SameLines lines lines') :
    (FailsafeYaml.skipBlank lines = [] ∧ FailsafeYaml.skipBlank lines' = []) ∨
      ∃ line rest line' rest', FailsafeYaml.skipBlank lines = line :: rest ∧
        FailsafeYaml.skipBlank lines' = line' :: rest' ∧ SameLine line line' ∧
        line.blank = false ∧ line'.blank = false ∧ SameLines rest rest' := by
  induction h with
  | nil => exact .inl ⟨rfl, rfl⟩
  | last hblank =>
    refine .inl ⟨?_, rfl⟩
    rw [FailsafeYaml.skipBlank, List.dropWhile_cons, hblank]
    rfl
  | @cons line line' rest rest' hline hrest hblank ih =>
    rw [FailsafeYaml.skipBlank, FailsafeYaml.skipBlank, List.dropWhile_cons, List.dropWhile_cons,
      ← hblank]
    cases hb : line.blank with
    | true => exact ih
    | false => exact .inr ⟨line, rest, line', rest', rfl, rfl, hline, hb, hblank ▸ hb, hrest⟩

/-- The text of a value with a comment and without. -/
def SameText (text text' : Bytes) : Prop :=
  text = text' ∨ ∃ body, text = text' ++ hash :: body ∧ Trailing text' ∧
    endsQuoted (skipSpaces text') = false

theorem drop_takeWhile (text : Bytes) :
    text.drop (text.takeWhile isSpace).length = skipSpaces text := by
  conv_lhs =>
    arg 2
    rw [← List.takeWhile_append_dropWhile (p := isSpace) (l := text)]
  exact List.drop_left

theorem skipSpaces_idem (text : Bytes) : skipSpaces (skipSpaces text) = skipSpaces text :=
  dropWhile_of_stops (stops_dropWhile isSpace text)

section Lines

variable {line line' : Line} {kept body : Bytes}

theorem Commented.content' (h : Commented line line' kept body) :
    line'.text.drop line'.indent = skipSpaces kept := by
  rw [h.text', h.indent', drop_takeWhile]

theorem Commented.content (h : Commented line line' kept body) :
    line.text.drop line.indent = skipSpaces kept ++ hash :: body := by
  rw [h.text, h.indent, List.drop_append_of_le_length (List.takeWhile_prefix _).length_le,
    drop_takeWhile]

/-- What is kept of the line has a first byte, and more behind it. -/
theorem Commented.cons (h : Commented line line' kept body) :
    ∃ b c rest, skipSpaces kept = b :: c :: rest := by
  have hblank := h.blank
  have htrailing := h.trailing.skipSpaces
  have hstops := stops_dropWhile isSpace kept
  change Stops isSpace (skipSpaces kept) at hstops
  cases hcontent : skipSpaces kept with
  | nil =>
    rw [hcontent] at hblank
    cases hblank
  | cons b rest =>
    rw [hcontent] at htrailing hstops
    cases rest with
    | nil =>
      have hspace := hstops b rfl
      rw [htrailing.singleton] at hspace
      cases hspace
    | cons c rest => exact ⟨b, c, rest, rfl⟩

theorem isSequenceLine_eq (line : Line) (indent : Nat) :
    isSequenceLine line indent = (line.indent == indent && isDash (line.text.drop indent)) := by
  rw [isSequenceLine]
  cases line.text.drop indent <;> rfl

theorem isDash_comment {b c : UInt8} {rest : Bytes} :
    isDash (b :: c :: rest ++ hash :: body) = isDash (b :: c :: rest) := rfl

theorem SameLine.indent (h : SameLine line line') (hblank : line.blank = false) :
    line.indent = line'.indent := by
  rcases h with rfl | ⟨hb, -⟩ | ⟨kept, body, h⟩
  · rfl
  · rw [hb] at hblank
    cases hblank
  · rw [h.indent, h.indent']

theorem SameLine.isSequenceLine (h : SameLine line line') (hblank : line.blank = false)
    (indent : Nat) :
    FailsafeYaml.isSequenceLine line indent = FailsafeYaml.isSequenceLine line' indent := by
  have hindent := h.indent hblank
  rcases h with rfl | ⟨hb, -⟩ | ⟨kept, body, h⟩
  · rfl
  · rw [hb] at hblank
    cases hblank
  · rw [isSequenceLine_eq, isSequenceLine_eq, hindent]
    by_cases heq : line'.indent = indent
    · subst heq
      obtain ⟨b, c, rest, hcons⟩ := h.cons
      rw [h.content', ← hindent, h.content, hcons, isDash_comment]
    · have hne : (line'.indent == indent) = false := beq_eq_false_iff_ne.mpr heq
      rw [hne, Bool.false_and, Bool.false_and]

/-- The colon of a line that is an entry: at the same place in both forms, or in neither. -/
theorem SameLine.entry (h : SameLine line line') (hblank : line.blank = false) {indent : Nat}
    (hindent : line'.indent = indent)
    (hsequence : FailsafeYaml.isSequenceLine line' indent = false) :
    (findMappingColon (line'.text.drop indent) = none ∧
        findMappingColon (line.text.drop indent) = none) ∨
      ∃ before after after', findMappingColon (line'.text.drop indent) = some (before, after') ∧
        findMappingColon (line.text.drop indent) = some (before, after) ∧ SameText after after' := by
  have hsame := h.indent hblank
  rcases h with rfl | ⟨hb, -⟩ | ⟨kept, body, h⟩
  · cases hcolon : findMappingColon (line.text.drop indent) with
    | none => exact .inl ⟨rfl, rfl⟩
    | some cut => exact .inr ⟨cut.1, cut.2, cut.2, rfl, rfl, .inl rfl⟩
  · rw [hb] at hblank
    cases hblank
  · subst hindent
    rw [isSequenceLine_eq, beq_self_eq_true, Bool.true_and, h.content'] at hsequence
    have hcolonText : colonText kept = some (skipSpaces kept) := by
      rw [colonText, h.blank, hsequence]
      rfl
    have hbehind := h.colon
    rw [colonBehind, hcolonText] at hbehind
    rw [h.content', ← hsame, h.content]
    rcases findMappingColon_comment h.trailing.skipSpaces hbehind with hnone | hsome
    · exact .inl hnone
    · obtain ⟨before, after, hcut, hfull, htrailing⟩ := hsome
      refine .inr ⟨before, after ++ hash :: body, after, hcut, hfull, .inr ⟨body, rfl, htrailing, ?_⟩⟩
      have hquotes := h.quotes
      rw [insideQuotes, valueText, hcolonText] at hquotes
      simpa [h.blank, hcut] using hquotes

/-- The item of a line that starts with a dash. -/
theorem SameLine.item (h : SameLine line line') (hblank : line.blank = false) {indent : Nat}
    (hsequence : FailsafeYaml.isSequenceLine line' indent = true) :
    ∃ text text', skipSpaces (line.text.drop (indent + 1)) = text ∧
      skipSpaces (line'.text.drop (indent + 1)) = text' ∧
      line.text.length - text.length = line'.text.length - text'.length ∧
      isBlank text = isBlank text' ∧ startsCollection text = startsCollection text' ∧
      (isBlank text' = false → startsCollection text' = false →
        (findMappingColon text' = none ∧ findMappingColon text = none ∧ SameText text text') ∨
          ∃ before after after', findMappingColon text' = some (before, after') ∧
            findMappingColon text = some (before, after) ∧ SameText after after') ∧
      (isBlank text' = false → startsCollection text' = true → SameText text text') := by
  have hsame := h.indent hblank
  rw [isSequenceLine_eq, Bool.and_eq_true, beq_iff_eq] at hsequence
  obtain ⟨rfl, hdash⟩ := hsequence
  -- The same line, two blank lines, or a line with its comment.
  rcases h with rfl | ⟨hb, -⟩ | ⟨kept, body, h⟩
  · refine ⟨_, _, rfl, rfl, rfl, rfl, rfl, fun _ _ => ?_, fun _ _ => .inl rfl⟩
    cases hcolon : findMappingColon (skipSpaces (line.text.drop (line.indent + 1))) with
    | none => exact .inl ⟨rfl, rfl, .inl rfl⟩
    | some cut => exact .inr ⟨cut.1, cut.2, cut.2, rfl, rfl, .inl rfl⟩
  · rw [hb] at hblank
    cases hblank
  · obtain ⟨b, c, rest, hcons⟩ := h.cons
    have htext' : skipSpaces (line'.text.drop (line'.indent + 1)) = skipSpaces (c :: rest) := by
      rw [← List.drop_drop, h.content', hcons]
      rfl
    have htext : skipSpaces (line.text.drop (line'.indent + 1)) =
        skipSpaces (c :: rest) ++ hash :: body := by
      rw [← hsame, ← List.drop_drop, h.content, hcons, ← skipSpaces_comment]
      rfl
    have htrailing : Trailing (c :: rest) := by
      have := h.trailing.skipSpaces
      rw [hcons] at this
      exact this.tail
    have hcollection : startsCollection (skipSpaces (c :: rest) ++ hash :: body) =
        startsCollection (skipSpaces (c :: rest)) := by
      rw [startsCollection, startsCollection, head_comment (by decide), head_comment (by decide)]
    rw [h.content', hcons] at hdash
    have hfirst : isBlank (b :: c :: rest) = false := by
      rw [← hcons]
      exact h.blank
    have hvalue (hfilled : isBlank (skipSpaces (c :: rest)) = false) :
        colonText kept = if startsCollection (skipSpaces (c :: rest)) then none
          else some (skipSpaces (c :: rest)) := by
      rw [colonText, h.blank, hcons, hdash]
      simp [hfilled]
    refine ⟨_, _, htext, htext', ?_, isBlank_comment _, hcollection, fun hfilled hplain => ?_,
      fun hfilled hstarts => ?_⟩
    · rw [h.text, h.text', List.length_append, List.length_append]
      omega
    · have hcolonText := hvalue hfilled
      rw [hplain] at hcolonText
      have hbehind := h.colon
      rw [colonBehind, hcolonText] at hbehind
      have hquotes := h.quotes
      rw [insideQuotes, valueText, hcolonText] at hquotes
      rcases findMappingColon_comment htrailing.skipSpaces hbehind with ⟨hnone, hnone'⟩ | hsome
      · refine .inl ⟨hnone, hnone', .inr ⟨body, rfl, htrailing.skipSpaces, ?_⟩⟩
        rw [skipSpaces_idem]
        simpa [hfirst, hnone, hcons, hdash] using hquotes
      · obtain ⟨before, after, hcut, hfull, htrailing'⟩ := hsome
        refine .inr ⟨before, after ++ hash :: body, after, hcut, hfull,
          .inr ⟨body, rfl, htrailing', ?_⟩⟩
        simpa [h.blank, hcut] using hquotes
    · have hcolonText := hvalue hfilled
      rw [hstarts] at hcolonText
      have hquotes := h.quotes
      rw [insideQuotes, valueText, hcolonText] at hquotes
      refine .inr ⟨body, rfl, htrailing.skipSpaces, ?_⟩
      rw [skipSpaces_idem]
      simpa [hfirst, hcons] using hquotes

end Lines

-- ---------------------------------------------------------------------------
-- Two runs over the lines
-- ---------------------------------------------------------------------------

/-- Neither run is excused. -/
def never (_ : Stop) : Prop :=
  False

/-- What stands behind two texts does not tell their runs apart. -/
theorem alike_followed {α β : Type} {R : α → β → Prop} {x : Result α} {y : Result β}
    (lines lines' bytes bytes' : Nat) (h : Alike R never x y) :
    Alike R never (followed lines bytes x) (followed lines' bytes' y) :=
  Alike.mapError h

/-- The same was read at the same charge, and related lines are left. -/
def SameBlock {α : Type} (read read' : α × Nat × List Line) : Prop :=
  read.1 = read'.1 ∧ read.2.1 = read'.2.1 ∧ SameLines read.2.2 read'.2.2

/-- Two parsers of blocks, one for the lines with the comment. -/
structure BlockParser.Alike (limits : Limits) (bound bound' : Nat) (block block' : BlockParser) :
    Prop where
  ends : block.Ends limits bound
  ends' : block'.Ends limits bound'
  alike : ∀ indent depth nodes lines lines', SameLines lines lines' → lines.length < bound →
    lines'.length < bound' → 0 < depth →
    Lib.Alike SameBlock never (block indent depth nodes lines)
      (block' indent depth nodes lines')

section Runs

variable {limits : Limits} {block block' : BlockParser} {bound bound' depth nodes : Nat}

theorem parseInline_same (hwide : limits.Within .v1) (hdepth : 0 < depth) {text text' : Bytes}
    (h : SameText text text') :
    Alike Eq never (parseInline limits depth nodes (skipSpaces text))
      (parseInline limits depth nodes (skipSpaces text')) := by
  rcases h with rfl | ⟨body, rfl, htrailing, hquotes⟩
  · exact Alike.refl (fun _ => rfl) _
  · rw [skipSpaces_comment]
    refine (parseInline_comment htrailing.skipSpaces depth nodes).mono (fun _ _ h => h) ?_
    intro e he hopen
    rw [endsQuoted_of_parseInline hwide hdepth he hopen] at hquotes
    cases hquotes

theorem SameText.isBlank {text text' : Bytes} (h : SameText text text') :
    FailsafeYaml.isBlank (skipSpaces text) = FailsafeYaml.isBlank (skipSpaces text') := by
  rcases h with rfl | ⟨body, rfl, -⟩
  · rfl
  · rw [skipSpaces_comment, isBlank_comment]

/-- A value on the lines below is read alike, whatever comment stands behind its key or
dash. -/
theorem parseNestedOrInline_below (hblock : block.Alike limits bound bound' block')
    {text text' : Bytes} (hblank : isBlank (skipSpaces text) = true)
    (hblank' : isBlank (skipSpaces text') = true) {rest rest' : List Line}
    (hrest : SameLines rest rest') (hbound : rest.length < bound)
    (hbound' : rest'.length < bound') (hdepth : 0 < depth) (parentIndent : Nat) :
    Alike SameBlock never (parseNestedOrInline limits block text parentIndent depth nodes rest)
      (parseNestedOrInline limits block' text' parentIndent depth nodes rest') := by
  have hskip := skipBlank_length rest
  have hskip' := skipBlank_length rest'
  rw [parseNestedOrInline, parseNestedOrInline]
  dsimp only
  rw [hblank, hblank', if_pos rfl, if_pos rfl]
  rcases hrest.skipBlank with ⟨hnil, hnil'⟩ | hcons
  · rw [hnil, hnil']
    exact .error
  obtain ⟨line, left, line', left', hline, hline', hsame, hfilled, hfilled', hleft⟩ := hcons
  have hindent := hsame.indent hfilled
  rw [hline] at hskip ⊢
  rw [hline'] at hskip' ⊢
  dsimp only
  rw [hindent]
  split
  · exact .error
  · exact hblock.alike _ _ _ _ _ (.cons hsame hleft (hfilled.trans hfilled'.symm)) (by omega)
      (by omega) hdepth

theorem parseNestedOrInline_alike (hwide : limits.Within .v1)
    (hblock : block.Alike limits bound bound' block') {text text' : Bytes}
    (htext : SameText text text') {rest rest' : List Line} (hrest : SameLines rest rest')
    (hbound : rest.length < bound) (hbound' : rest'.length < bound') (hdepth : 0 < depth)
    (parentIndent : Nat) :
    Alike SameBlock never (parseNestedOrInline limits block text parentIndent depth nodes rest)
      (parseNestedOrInline limits block' text' parentIndent depth nodes rest') := by
  have hsameBlank := htext.isBlank
  cases hblank : isBlank (skipSpaces text') with
  | true =>
    rw [hblank] at hsameBlank
    exact parseNestedOrInline_below hblock hsameBlank hblank hrest hbound hbound' hdepth parentIndent
  | false =>
    rw [parseNestedOrInline, parseNestedOrInline]
    dsimp only
    rw [hsameBlank, hblank, if_neg Bool.false_ne_true, if_neg Bool.false_ne_true]
    refine Alike.bind (alike_followed _ _ _ _ (parseInline_same hwide hdepth htext)) ?_
    rintro ⟨value, consumed⟩ _ rfl
    exact .ok ⟨rfl, rfl, hrest⟩

theorem parseEntry_alike (hwide : limits.Within .v1)
    (hblock : block.Alike limits bound bound' block') (keyText : Bytes) {text text' : Bytes}
    (htext : SameText text text') (keys : List Bytes) {rest rest' : List Line}
    (hrest : SameLines rest rest') (hbound : rest.length < bound) (hbound' : rest'.length < bound')
    (indent : Nat) :
    Alike (fun read read' => SameBlock read read' ∧ read.2.2.length ≤ rest.length ∧
        read'.2.2.length ≤ rest'.length) never
      (parseEntry limits block keyText text keys indent depth nodes rest)
      (parseEntry limits block' keyText text' keys indent depth nodes rest') := by
  have hends := parseEntry_ends hblock.ends hbound keyText text keys indent depth nodes
  have hends' := parseEntry_ends hblock.ends' hbound' keyText text' keys indent depth nodes
  have halike : Alike SameBlock never
      (parseEntry limits block keyText text keys indent depth nodes rest)
      (parseEntry limits block' keyText text' keys indent depth nodes rest') := by
    refine Alike.bind (alike_followed _ _ _ _ (Alike.refl (fun _ => rfl) _)) ?_
    rintro key _ rfl
    refine Alike.bind (admitKey_alike _ _ _) ?_
    rintro consumed _ rfl
    refine Alike.bind (parseNestedOrInline_alike hwide hblock htext hrest hbound hbound'
      (Nat.succ_pos depth) indent) ?_
    rintro ⟨value, total, lines⟩ ⟨value', total', lines'⟩ ⟨hvalue, htotal, hlines⟩
    dsimp only at hvalue htotal hlines ⊢
    subst hvalue htotal
    exact .ok ⟨rfl, rfl, hlines⟩
  refine (halike.and hends hends').mono ?_ fun _ _ he => he
  rintro read read' ⟨hsame, hread, hread'⟩
  exact ⟨hsame, hread.room, hread'.room⟩

theorem mappingLoop_alike (hwide : limits.Within .v1)
    (hblock : block.Alike limits bound bound' block') (indent : Nat) {turns turns' : Nat}
    (entries : List (Bytes × Node)) {lines lines' : List Line} (hlines : SameLines lines lines')
    (hturns : lines.length < turns) (hturns' : lines'.length < turns')
    (hbound : lines.length ≤ bound) (hbound' : lines'.length ≤ bound') :
    Alike SameBlock never (mappingLoop limits block indent depth turns entries nodes lines)
      (mappingLoop limits block' indent depth turns' entries nodes lines') := by
  induction turns' generalizing turns entries nodes lines lines' with
  | zero => omega
  | succ turns' ih =>
    cases turns with
    | zero => omega
    | succ turns =>
      have hskip := skipBlank_length lines
      have hskip' := skipBlank_length lines'
      rw [mappingLoop, mappingLoop]
      rcases hlines.skipBlank with ⟨hnil, hnil'⟩ | hcons
      · rw [hnil, hnil']
        exact .ok ⟨rfl, rfl, .nil⟩
      obtain ⟨line, rest, line', rest', hline, hline', hsame, hblank, hblank', hrest⟩ := hcons
      rw [hline, List.length_cons] at hskip
      rw [hline', List.length_cons] at hskip'
      rw [hline, hline']
      dsimp only
      rw [hsame.indent hblank, hsame.isSequenceLine hblank indent]
      split
      · exact .ok ⟨rfl, rfl, .cons hsame hrest (hblank.trans hblank'.symm)⟩
      rename_i hentry
      simp only [Bool.or_eq_true, bne_iff_ne, ne_eq, not_or, not_not, Bool.not_eq_true] at hentry
      refine Alike.bind (checkEntry_alike _) fun _ _ _ => ?_
      rw [parseMappingEntry, parseMappingEntry]
      rcases hsame.entry hblank hentry.1 hentry.2 with ⟨hnone', hnone⟩ | hcolon
      · rw [hnone, hnone']
        exact .error
      obtain ⟨before, after, after', hcut', hcut, htext⟩ := hcolon
      rw [hcut, hcut']
      refine Alike.bind (parseEntry_alike hwide hblock before htext _ hrest (by omega) (by omega)
        indent) ?_
      rintro ⟨entry, consumed, left⟩ ⟨entry', consumed', left'⟩
        ⟨⟨hentry, hconsumed, hleft⟩, hlength, hlength'⟩
      dsimp only at hentry hconsumed hleft hlength hlength' ⊢
      subst hentry hconsumed
      exact ih _ hleft (by omega) (by omega) (by omega) (by omega)

theorem parseMapping_alike (hwide : limits.Within .v1)
    (hblock : block.Alike limits bound bound' block') (indent : Nat) {lines lines' : List Line}
    (hlines : SameLines lines lines') (hbound : lines.length ≤ bound)
    (hbound' : lines'.length ≤ bound') (depth nodes : Nat) :
    Alike SameBlock never (parseMapping limits block indent depth nodes lines)
      (parseMapping limits block' indent depth nodes lines') := by
  refine Alike.bind (reserveContainer_alike _ _) ?_
  rintro consumed _ rfl
  refine Alike.bind (mappingLoop_alike hwide hblock indent [] hlines (Nat.lt_succ_self _)
    (Nat.lt_succ_self _) hbound hbound') ?_
  rintro ⟨entries, total, left⟩ ⟨entries', total', left'⟩ ⟨hentries, htotal, hleft⟩
  dsimp only at hentries htotal hleft ⊢
  subst hentries htotal
  exact Alike.bind Alike.throwIf fun _ _ _ => .ok ⟨rfl, rfl, hleft⟩

/-- The first entry of a compact mapping stands behind the dash; the others on lines of
their own. -/
theorem compactLoop_alike (hwide : limits.Within .v1)
    (hblock : block.Alike limits bound bound' block') (sequenceIndent compactIndent : Nat)
    {turns turns' : Nat} (entries : List (Bytes × Node)) {line line' : Line}
    {rest rest' : List Line} (hsame : SameLine line line') (hblank : line.blank = false)
    (hblank' : line'.blank = false) (hrest : SameLines rest rest')
    (hcolon : (findMappingColon (line'.text.drop compactIndent) = none ∧
        findMappingColon (line.text.drop compactIndent) = none) ∨
      ∃ before after after', findMappingColon (line'.text.drop compactIndent) =
          some (before, after') ∧
        findMappingColon (line.text.drop compactIndent) = some (before, after) ∧
        SameText after after')
    (hturns : (line :: rest).length ≤ turns) (hturns' : (line' :: rest').length ≤ turns')
    (hbound : (line :: rest).length ≤ bound) (hbound' : (line' :: rest').length ≤ bound') :
    Alike SameBlock never
      (compactLoop limits block sequenceIndent compactIndent depth turns entries nodes
        (line :: rest))
      (compactLoop limits block' sequenceIndent compactIndent depth turns' entries nodes
        (line' :: rest')) := by
  induction turns' generalizing turns entries nodes line line' rest rest' with
  | zero => simp at hturns'
  | succ turns' ih =>
    cases turns with
    | zero => simp at hturns
    | succ turns =>
      simp only [List.length_cons] at hturns hturns' hbound hbound'
      have hlines : SameLines (line :: rest) (line' :: rest') :=
        .cons hsame hrest (hblank.trans hblank'.symm)
      rw [compactLoop, compactLoop, hsame.indent hblank]
      generalize (if entries.isEmpty then sequenceIndent else compactIndent) = expected
      split
      · exact .ok ⟨rfl, rfl, hlines⟩
      refine Alike.bind (checkEntry_alike _) fun _ _ _ => ?_
      rcases hcolon with ⟨hnone', hnone⟩ | ⟨before, after, after', hcut', hcut, htext⟩
      · rw [hnone, hnone']
        exact .ok ⟨rfl, rfl, hlines⟩
      rw [hcut, hcut']
      refine Alike.bind (parseEntry_alike hwide hblock before htext _ hrest (by omega) (by omega)
        compactIndent) ?_
      rintro ⟨entry, consumed, left⟩ ⟨entry', consumed', left'⟩
        ⟨⟨hentry, hconsumed, hleft⟩, hlength, hlength'⟩
      dsimp only at hentry hconsumed hleft hlength hlength' ⊢
      subst hentry hconsumed
      have hskip := skipBlank_length left
      have hskip' := skipBlank_length left'
      rcases hleft.skipBlank with ⟨hnil, hnil'⟩ | hcons
      · rw [hnil, hnil']
        exact .ok ⟨rfl, rfl, .nil⟩
      obtain ⟨next, more, next', more', hnext, hnext', hsame', hb, hb', hmore⟩ := hcons
      rw [hnext] at hskip
      rw [hnext'] at hskip'
      rw [hnext, hnext']
      dsimp only
      rw [hsame'.indent hb, hsame'.isSequenceLine hb compactIndent]
      split
      · exact .ok ⟨rfl, rfl, .cons hsame' hmore (hb.trans hb'.symm)⟩
      rename_i hgoes
      simp only [Bool.or_eq_true, bne_iff_ne, ne_eq, not_or, not_not, Bool.not_eq_true] at hgoes
      exact ih _ hsame' hb hb' hmore (hsame'.entry hb hgoes.1 hgoes.2) (by omega) (by omega)
        (by omega) (by omega)

theorem parseSequenceValue_alike (hwide : limits.Within .v1)
    (hblock : block.Alike limits bound bound' block') {indent : Nat} {line line' : Line}
    {rest rest' : List Line} (hsame : SameLine line line') (hblank : line.blank = false)
    (hblank' : line'.blank = false) (hsequence : isSequenceLine line' indent = true)
    (hrest : SameLines rest rest') (hbound : (line :: rest).length ≤ bound)
    (hbound' : (line' :: rest').length ≤ bound') (depth nodes : Nat) :
    Alike SameBlock never (parseSequenceValue limits block indent depth nodes line rest)
      (parseSequenceValue limits block' indent depth nodes line' rest') := by
  obtain ⟨text, text', htext, htext', hlength, hblankText, hstarts, hplain, hcollection⟩ :=
    hsame.item hblank hsequence
  have hskip : skipSpaces text = text := by rw [← htext, skipSpaces_idem]
  have hskip' : skipSpaces text' = text' := by rw [← htext', skipSpaces_idem]
  have hinline (hsameText : SameText text text') :
      Alike Eq never (parseInline limits (depth + 1) nodes text)
        (parseInline limits (depth + 1) nodes text') := by
    have hread : Alike Eq never (parseInline limits (depth + 1) nodes (skipSpaces text))
        (parseInline limits (depth + 1) nodes (skipSpaces text')) :=
      parseInline_same hwide (Nat.succ_pos depth) hsameText
    rwa [hskip, hskip'] at hread
  have hguard (text : Bytes) : ((findMappingColon text).isSome && text.head? != some (byte '{') &&
      text.head? != some (byte '[')) = ((findMappingColon text).isSome && !startsCollection text) := by
    rw [startsCollection, Bool.not_or, Bool.and_assoc]
    rfl
  simp only [List.length_cons] at hbound hbound'
  rw [parseSequenceValue, parseSequenceValue, htext, htext']
  dsimp only
  rw [hblankText, hguard, hguard, hstarts, hlength]
  cases hb : isBlank text' with
  | true =>
    -- the item is on the lines that follow, whatever stands behind the dash
    rw [if_pos rfl, if_pos rfl]
    exact parseNestedOrInline_below hblock (by rw [hskip, hblankText, hb]) (by rw [hskip', hb])
      hrest (by omega) (by omega) (Nat.succ_pos depth) indent
  | false =>
    simp only [Bool.false_eq_true, if_false]
    cases hc : startsCollection text' with
    | true =>
      simp only [Bool.not_true, Bool.and_false, Bool.false_eq_true, if_false]
      refine Alike.bind (alike_followed _ _ _ _ (hinline (hcollection hb hc))) ?_
      rintro ⟨value, consumed⟩ _ rfl
      exact .ok ⟨rfl, rfl, hrest⟩
    | false =>
      rcases hplain hb hc with ⟨hnone', hnone, hsameText⟩ | hcolon
      · rw [hnone, hnone']
        refine Alike.bind (alike_followed _ _ _ _ (hinline hsameText)) ?_
        rintro ⟨value, consumed⟩ _ rfl
        exact .ok ⟨rfl, rfl, hrest⟩
      · have hsome := hcolon
        obtain ⟨before, after, after', hcut', hcut, -⟩ := hsome
        rw [hcut, hcut']
        simp only [Option.isSome_some, Bool.not_false, Bool.and_self, if_true]
        rw [parseCompactMapping, parseCompactMapping]
        refine Alike.bind (reserveContainer_alike _ _) ?_
        rintro consumed _ rfl
        have hdrop : line.text.drop (line'.text.length - text'.length) = text := by
          rw [← hlength, ← htext, drop_skipSpaces]
        have hdrop' : line'.text.drop (line'.text.length - text'.length) = text' := by
          rw [← htext', drop_skipSpaces]
        refine Alike.bind (compactLoop_alike hwide hblock indent _ [] hsame hblank hblank' hrest
          (by rw [hdrop, hdrop']; exact .inr hcolon) (Nat.le_refl _) (Nat.le_refl _)
          (by simp only [List.length_cons]; omega) (by simp only [List.length_cons]; omega)) ?_
        rintro ⟨entries, total, left⟩ ⟨entries', total', left'⟩ ⟨hentries, htotal, hleft⟩
        dsimp only at hentries htotal hleft ⊢
        subst hentries htotal
        exact .ok ⟨rfl, rfl, hleft⟩

theorem sequenceLoop_alike (hwide : limits.Within .v1)
    (hblock : block.Alike limits bound bound' block') (indent : Nat) {turns turns' : Nat}
    (values : List Node) {lines lines' : List Line} (hlines : SameLines lines lines')
    (hturns : lines.length < turns) (hturns' : lines'.length < turns')
    (hbound : lines.length ≤ bound) (hbound' : lines'.length ≤ bound') :
    Alike SameBlock never (sequenceLoop limits block indent depth turns values nodes lines)
      (sequenceLoop limits block' indent depth turns' values nodes lines') := by
  induction turns' generalizing turns values nodes lines lines' with
  | zero => omega
  | succ turns' ih =>
    cases turns with
    | zero => omega
    | succ turns =>
      have hskip := skipBlank_length lines
      have hskip' := skipBlank_length lines'
      rw [sequenceLoop, sequenceLoop]
      rcases hlines.skipBlank with ⟨hnil, hnil'⟩ | hcons
      · rw [hnil, hnil']
        exact .ok ⟨rfl, rfl, .nil⟩
      obtain ⟨line, rest, line', rest', hline, hline', hsame, hblank, hblank', hrest⟩ := hcons
      rw [hline, List.length_cons] at hskip
      rw [hline', List.length_cons] at hskip'
      rw [hline, hline']
      have hsequenceEq := hsame.isSequenceLine hblank indent
      dsimp only
      rw [hsequenceEq]
      cases hsequence : isSequenceLine line' indent with
      | false => exact .ok ⟨rfl, rfl, .cons hsame hrest (hblank.trans hblank'.symm)⟩
      | true =>
        rw [if_neg (by simp), if_neg (by simp)]
        refine Alike.bind (checkEntry_alike _) fun _ _ _ => ?_
        have hread := (parseSequenceValue_alike hwide hblock hsame hblank hblank' hsequence hrest
          (by simp only [List.length_cons]; omega) (by simp only [List.length_cons]; omega) depth
          nodes).and
          (parseSequenceValue_ends hblock.ends (hsequenceEq.trans hsequence)
            (by simp only [List.length_cons]; omega) depth nodes)
          (parseSequenceValue_ends hblock.ends' hsequence
            (by simp only [List.length_cons]; omega) depth nodes)
        refine Alike.bind hread ?_
        rintro ⟨value, consumed, left⟩ ⟨value', consumed', left'⟩
          ⟨⟨hvalue, hconsumed, hleft⟩, ⟨-, hlength⟩, ⟨-, hlength'⟩⟩
        dsimp only at hvalue hconsumed hleft hlength hlength' ⊢
        subst hvalue hconsumed
        exact ih _ hleft (by omega) (by omega) (by omega) (by omega)

theorem parseSequence_alike (hwide : limits.Within .v1)
    (hblock : block.Alike limits bound bound' block') (indent : Nat) {lines lines' : List Line}
    (hlines : SameLines lines lines') (hbound : lines.length ≤ bound)
    (hbound' : lines'.length ≤ bound') (depth nodes : Nat) :
    Alike SameBlock never (parseSequence limits block indent depth nodes lines)
      (parseSequence limits block' indent depth nodes lines') := by
  refine Alike.bind (reserveContainer_alike _ _) ?_
  rintro consumed _ rfl
  refine Alike.bind (sequenceLoop_alike hwide hblock indent [] hlines (Nat.lt_succ_self _)
    (Nat.lt_succ_self _) hbound hbound') ?_
  rintro ⟨values, total, left⟩ ⟨values', total', left'⟩ ⟨hvalues, htotal, hleft⟩
  dsimp only at hvalues htotal hleft ⊢
  subst hvalues htotal
  exact .ok ⟨rfl, rfl, hleft⟩

/-- One block, with a comment and without. -/
theorem parseBlock_alike (hwide : limits.Within .v1) (turns turns' : Nat) :
    (parseBlock limits turns).Alike limits turns turns' (parseBlock limits turns') := by
  induction turns' generalizing turns with
  | zero =>
    refine ⟨parseBlock_ends turns, parseBlock_ends 0, ?_⟩
    intro indent depth nodes lines lines' _ _ hbound' _
    omega
  | succ turns' ih =>
    refine ⟨parseBlock_ends turns, parseBlock_ends (turns' + 1), ?_⟩
    intro indent depth nodes lines lines' hlines hbound hbound' hdepth
    cases turns with
    | zero => omega
    | succ turns =>
      have hskip := skipBlank_length lines
      have hskip' := skipBlank_length lines'
      rw [parseBlock, parseBlock]
      rcases hlines.skipBlank with ⟨hnil, hnil'⟩ | hcons
      · rw [hnil, hnil']
        exact .error
      obtain ⟨line, rest, line', rest', hline, hline', hsame, hblank, hblank', hrest⟩ := hcons
      rw [hline] at hskip
      rw [hline'] at hskip'
      rw [hline, hline']
      have hcons : SameLines (line :: rest) (line' :: rest') :=
        .cons hsame hrest (hblank.trans hblank'.symm)
      dsimp only
      rw [hsame.indent hblank, hsame.isSequenceLine hblank indent]
      split
      · exact .error
      split
      · exact parseSequence_alike hwide (ih turns) indent hcons (by omega) (by omega) depth nodes
      · exact parseMapping_alike hwide (ih turns) indent hcons (by omega) (by omega) depth nodes

theorem parseStructure_alike (hwide : limits.Within .v1) {lines lines' : List Line}
    (hlines : SameLines lines lines') (nodes : Nat) :
    Alike Eq never (parseStructure limits nodes lines) (parseStructure limits nodes lines') := by
  have hskip := skipBlank_length lines
  have hskip' := skipBlank_length lines'
  rw [parseStructure, parseStructure]
  rcases hlines.skipBlank with ⟨hnil, hnil'⟩ | hcons
  · rw [hnil, hnil']
    exact .error
  obtain ⟨line, rest, line', rest', hline, hline', hsame, hblank, hblank', hrest⟩ := hcons
  rw [hline] at hskip
  rw [hline'] at hskip'
  rw [hline, hline']
  dsimp only
  rw [hsame.indent hblank]
  split
  · exact .error
  refine Alike.bind ((parseBlock_alike hwide (lines.length + 1) (lines'.length + 1)).alike 0 1
    nodes _ _ (.cons hsame hrest (hblank.trans hblank'.symm)) (by omega) (by omega)
    (by omega)) ?_
  rintro ⟨root, total, left⟩ ⟨root', total', left'⟩ ⟨hroot, htotal, hleft⟩
  dsimp only at hroot htotal hleft ⊢
  subst hroot htotal
  have hempty : (skipBlank left).isEmpty = (skipBlank left').isEmpty := by
    rcases hleft.skipBlank with ⟨hnil, hnil'⟩ | hcons
    · rw [hnil, hnil']
    · obtain ⟨_, _, _, _, hleft, hleft', -⟩ := hcons
      rw [hleft, hleft']
      rfl
  rw [hempty]
  exact Alike.bind Alike.throwIf fun _ _ _ => .ok rfl

end Runs

-- ---------------------------------------------------------------------------
-- Lines that nothing reads
-- ---------------------------------------------------------------------------

/-- A line that is neither an item nor an entry. -/
structure Stray (line : Line) : Prop where
  blank : line.blank = false
  dash : isDash (line.text.drop line.indent) = false
  colon : findMappingColon (line.text.drop line.indent) = none

/-- A parser of blocks that does not get past a line. -/
def BlockParser.Keeps (stray : Line) (block : BlockParser) : Prop :=
  ∀ indent depth nodes lines,
    Lib.Ends (fun read => stray ∈ lines → stray ∈ read.2.2) (fun _ => True)
      (block indent depth nodes lines)

section Stray

variable {stray : Line} {limits : Limits} {block : BlockParser} {depth nodes : Nat}

theorem Stray.notItem (h : Stray stray) {line : Line} {indent : Nat}
    (hline : isSequenceLine line indent = true) : stray ≠ line := by
  rintro rfl
  rw [isSequenceLine_eq, Bool.and_eq_true, beq_iff_eq] at hline
  obtain ⟨rfl, hdash⟩ := hline
  rw [h.dash] at hdash
  cases hdash

theorem Stray.skipBlank (h : Stray stray) {lines : List Line} (hmem : stray ∈ lines) :
    stray ∈ FailsafeYaml.skipBlank lines := by
  induction lines with
  | nil => exact hmem
  | cons line rest ih =>
    rw [FailsafeYaml.skipBlank, List.dropWhile_cons]
    cases hblank : line.blank with
    | false => exact hmem
    | true =>
      rcases List.mem_cons.mp hmem with rfl | hmem
      · rw [h.blank] at hblank
        cases hblank
      · exact ih hmem

theorem ends_any {α : Type} (x : Result α) : Ends (fun _ => True) (fun _ => True) x := by
  cases x <;> trivial

theorem parseNestedOrInline_keeps (h : Stray stray) (hblock : block.Keeps stray) (text : Bytes)
    (parentIndent : Nat) (rest : List Line) :
    Ends (fun read => stray ∈ rest → stray ∈ read.2.2) (fun _ => True)
      (parseNestedOrInline limits block text parentIndent depth nodes rest) := by
  rw [parseNestedOrInline]
  dsimp only
  split
  · split
    · trivial
    · rename_i line left hleft
      split
      · trivial
      refine (hblock line.indent depth nodes (line :: left)).mono fun read hread hmem => ?_
      have hskip := h.skipBlank hmem
      rw [hleft] at hskip
      exact hread hskip
  · exact Ends.bind (ends_any _) fun read _ hmem => hmem

theorem parseEntry_keeps (h : Stray stray) (hblock : block.Keeps stray)
    (keyText valueText : Bytes) (keys : List Bytes) (indent : Nat) (rest : List Line) :
    Ends (fun read => stray ∈ rest → stray ∈ read.2.2) (fun _ => True)
      (parseEntry limits block keyText valueText keys indent depth nodes rest) := by
  refine Ends.bind (ends_any _) fun key _ => Ends.bind (ends_any _) fun consumed _ => ?_
  exact Ends.bind (parseNestedOrInline_keeps h hblock valueText indent rest) fun read hread => hread

theorem mappingLoop_keeps (h : Stray stray) (hblock : block.Keeps stray) (indent turns : Nat)
    (entries : List (Bytes × Node)) (lines : List Line) :
    Ends (fun read => stray ∈ lines → stray ∈ read.2.2) (fun _ => True)
      (mappingLoop limits block indent depth turns entries nodes lines) := by
  induction turns generalizing entries nodes lines with
  | zero => trivial
  | succ turns ih =>
    rw [mappingLoop]
    split
    · rename_i hnil
      intro hmem
      have hskip := h.skipBlank hmem
      rwa [hnil] at hskip
    rename_i line rest hline
    split
    · intro hmem
      have hskip := h.skipBlank hmem
      rwa [hline] at hskip
    rename_i hentry
    simp only [Bool.or_eq_true, bne_iff_ne, ne_eq, not_or, not_not] at hentry
    refine Ends.bind (ends_any _) fun _ _ => ?_
    rw [parseMappingEntry]
    split
    · trivial
    rename_i keyText valueText hcolon
    refine Ends.bind (parseEntry_keeps h hblock keyText valueText _ indent rest) ?_
    rintro ⟨entry, consumed, left⟩ hread
    refine (ih _ _).mono fun read hlast hmem => hlast (hread ?_)
    have hskip := h.skipBlank hmem
    rw [hline] at hskip
    rcases List.mem_cons.mp hskip with rfl | hskip
    · rw [← hentry.1, h.colon] at hcolon
      cases hcolon
    · exact hskip

theorem compactLoop_keeps (h : Stray stray) (hblock : block.Keeps stray)
    (sequenceIndent compactIndent turns : Nat) (entries : List (Bytes × Node)) (lines : List Line)
    (hfirst : entries = [] → ∀ line, lines.head? = some line → stray ≠ line) :
    Ends (fun read => stray ∈ lines → stray ∈ read.2.2) (fun _ => True)
      (compactLoop limits block sequenceIndent compactIndent depth turns entries nodes lines) := by
  induction turns generalizing entries nodes lines with
  | zero =>
    cases lines with
    | nil => exact fun hmem => hmem
    | cons line rest => trivial
  | succ turns ih =>
    cases lines with
    | nil => exact fun hmem => hmem
    | cons line rest =>
      rw [compactLoop]
      generalize hexpected : (if entries.isEmpty then sequenceIndent else compactIndent) = expected
      split
      · exact fun hmem => hmem
      rename_i hindent
      refine Ends.bind (ends_any _) fun _ _ => ?_
      split
      · exact fun hmem => hmem
      rename_i keyText valueText hcolon
      have hrest (hmem : stray ∈ line :: rest) : stray ∈ rest := by
        rcases List.mem_cons.mp hmem with rfl | hmem
        · cases entries with
          | nil => exact absurd rfl (hfirst rfl stray rfl)
          | cons entry entries =>
            have hcompact : stray.indent = compactIndent := by
              simp only [bne_iff_ne, ne_eq, not_not] at hindent
              rw [hindent, ← hexpected]
              rfl
            rw [← hcompact, h.colon] at hcolon
            cases hcolon
        · exact hmem
      refine Ends.bind (parseEntry_keeps h hblock keyText valueText _ compactIndent rest) ?_
      rintro ⟨entry, consumed, left⟩ hread
      dsimp only at hread ⊢
      split
      · rename_i hnil
        intro hmem
        have hskip := h.skipBlank (hread (hrest hmem))
        rwa [hnil] at hskip
      rename_i next more hmore
      split
      · intro hmem
        have hskip := h.skipBlank (hread (hrest hmem))
        rwa [hmore] at hskip
      refine (ih _ _ fun hnil => ?_).mono fun read hlast hmem => ?_
      · simp at hnil
      · have hskip := h.skipBlank (hread (hrest hmem))
        rw [hmore] at hskip
        exact hlast hskip

theorem sequenceLoop_keeps (h : Stray stray) (hblock : block.Keeps stray) (indent turns : Nat)
    (values : List Node) (lines : List Line) :
    Ends (fun read => stray ∈ lines → stray ∈ read.2.2) (fun _ => True)
      (sequenceLoop limits block indent depth turns values nodes lines) := by
  induction turns generalizing values nodes lines with
  | zero => trivial
  | succ turns ih =>
    rw [sequenceLoop]
    split
    · rename_i hnil
      intro hmem
      have hskip := h.skipBlank hmem
      rwa [hnil] at hskip
    rename_i line rest hline
    split
    · intro hmem
      have hskip := h.skipBlank hmem
      rwa [hline] at hskip
    rename_i hitem
    have hne : stray ≠ line := h.notItem (by simpa using hitem)
    have hrest (hmem : stray ∈ lines) : stray ∈ rest := by
      have hskip := h.skipBlank hmem
      rw [hline] at hskip
      exact (List.mem_cons.mp hskip).resolve_left hne
    refine Ends.bind (ends_any _) fun _ _ => ?_
    have hvalue : Ends (fun read => stray ∈ rest → stray ∈ read.2.2) (fun _ => True)
        (parseSequenceValue limits block indent depth nodes line rest) := by
      rw [parseSequenceValue]
      dsimp only
      split
      · exact parseNestedOrInline_keeps h hblock _ indent rest
      split
      · refine Ends.bind (ends_any _) fun consumed _ => ?_
        refine Ends.bind (compactLoop_keeps h hblock indent _ _ [] (line :: rest) ?_) ?_
        · rintro - first hfirst
          obtain rfl := Option.some.inj hfirst
          exact hne
        · rintro ⟨entries, total, left⟩ hread hmem
          exact hread (List.mem_cons_of_mem _ hmem)
      · exact Ends.bind (ends_any _) fun read _ hmem => hmem
    refine Ends.bind hvalue ?_
    rintro ⟨value, consumed, left⟩ hread
    exact (ih _ _).mono fun read hlast hmem => hlast (hread (hrest hmem))

theorem parseBlock_keeps (h : Stray stray) (turns : Nat) :
    (parseBlock limits turns).Keeps stray := by
  induction turns with
  | zero =>
    intro indent depth nodes lines
    trivial
  | succ turns ih =>
    intro indent depth nodes lines
    rw [parseBlock]
    split
    · trivial
    rename_i line rest hline
    have hrest (hmem : stray ∈ lines) : stray ∈ line :: rest := by
      have hskip := h.skipBlank hmem
      rwa [hline] at hskip
    split
    · trivial
    split
    · refine Ends.bind (ends_any _) fun consumed _ => ?_
      refine Ends.bind (sequenceLoop_keeps h ih indent _ [] (line :: rest)) ?_
      rintro ⟨values, total, left⟩ hread hmem
      exact hread (hrest hmem)
    · refine Ends.bind (ends_any _) fun consumed _ => ?_
      refine Ends.bind (mappingLoop_keeps h ih indent _ [] (line :: rest)) ?_
      rintro ⟨entries, total, left⟩ hread
      exact Ends.bind (ends_any _) fun _ _ hmem => hread (hrest hmem)

/-- A document with a stray line is thrown out. -/
theorem parseStructure_stray (h : Stray stray) {lines : List Line} (hmem : stray ∈ lines)
    (nodes : Nat) : ∃ stop, parseStructure limits nodes lines = .error stop := by
  have hends : Ends (fun _ => False) (fun _ => True) (parseStructure limits nodes lines) := by
    rw [parseStructure]
    split
    · trivial
    rename_i line rest hline
    split
    · trivial
    refine Ends.bind (parseBlock_keeps h _ 0 1 nodes (line :: rest)) ?_
    rintro ⟨root, total, left⟩ hread
    have hskip := h.skipBlank hmem
    rw [hline] at hskip
    have hleft := h.skipBlank (hread hskip)
    have hfull : (!(FailsafeYaml.skipBlank left).isEmpty) = true := by
      cases hcons : FailsafeYaml.skipBlank left with
      | nil =>
        rw [hcons] at hleft
        cases hleft
      | cons line rest => rfl
    dsimp only
    rw [hfull]
    trivial
  cases hrun : parseStructure limits nodes lines with
  | error stop => exact ⟨stop, rfl⟩
  | ok read =>
    rw [hrun] at hends
    exact hends.elim

end Stray

-- ---------------------------------------------------------------------------
-- Lexing
-- ---------------------------------------------------------------------------

/-- A text that nothing before it can take a byte of: empty, or starting in ASCII. -/
def StartsAscii (text : Bytes) : Prop :=
  ∀ b, text.head? = some b → b ≤ 0x7F

theorem isContinuation_ascii : ∀ b : UInt8, b ≤ 0x7F → isContinuation b = false :=
  forall_byte (by decide)

/-- More turns than bytes are never used. -/
theorem isValidUtf8From_turns {turns turns' : Nat} {text : Bytes} (h : text.length ≤ turns)
    (h' : text.length ≤ turns') : isValidUtf8From turns text = isValidUtf8From turns' text := by
  induction turns generalizing turns' text with
  | zero =>
    rw [List.length_eq_zero_iff.mp (Nat.le_zero.mp h)]
    unfold isValidUtf8From
    rfl
  | succ turns ih =>
    cases text with
    | nil =>
      unfold isValidUtf8From
      rfl
    | cons lead rest =>
      cases turns' with
      | zero => simp at h'
      | succ turns' =>
        rw [List.length_cons] at h h'
        have hshort (left : Bytes) (hleft : left.length ≤ rest.length) :
            isValidUtf8From turns left = isValidUtf8From turns' left :=
          ih (by omega) (by omega)
        unfold isValidUtf8From
        rw [hshort rest (Nat.le_refl _)]
        rcases rest with _ | ⟨second, _ | ⟨third, _ | ⟨fourth, rest⟩⟩⟩
        · rfl
        · simp only [hshort [] (by simp)]
        · simp only [hshort [third] (by simp), hshort [] (by simp)]
        · simp only [hshort (third :: fourth :: rest) (by simp), hshort (fourth :: rest) (by simp),
            hshort rest (by simp; omega)]

/-- Nothing of an encoding goes on in ASCII. -/
theorem isValidUtf8From_append {turns : Nat} {text more : Bytes} (hmore : StartsAscii more)
    (h : (text ++ more).length ≤ turns) :
    isValidUtf8From turns (text ++ more) = (isValidUtf8From turns text && isValidUtf8 more) := by
  induction turns generalizing text with
  | zero =>
    have hnil := List.length_eq_zero_iff.mp (Nat.le_zero.mp h)
    obtain ⟨rfl, rfl⟩ := List.append_eq_nil_iff.mp hnil
    decide
  | succ turns ih =>
    cases text with
    | nil =>
      rw [List.nil_append] at h ⊢
      rw [isValidUtf8From_turns h (Nat.le_refl _)]
      conv_rhs => unfold isValidUtf8From
      rw [Bool.true_and, isValidUtf8]
    | cons lead rest =>
      simp only [List.cons_append, List.length_cons] at h
      have hshort (left : Bytes) (hleft : left.length ≤ rest.length) :
          isValidUtf8From turns (left ++ more) =
            (isValidUtf8From turns left && isValidUtf8 more) := by
        rw [List.length_append] at h
        exact ih (by rw [List.length_append]; omega)
      cases more with
      | nil =>
        have hnil : isValidUtf8 [] = true := rfl
        rw [List.append_nil, hnil, Bool.and_true]
      | cons b tail =>
        have hb : isContinuation b = false := isContinuation_ascii b (hmore b rfl)
        unfold isValidUtf8From
        rw [List.cons_append]
        dsimp only
        rw [hshort rest (Nat.le_refl _)]
        split
        · rfl
        split
        · rcases rest with _ | ⟨second, rest⟩
          · simp [hb]
          · simp [hshort rest (by simp), Bool.and_assoc]
        split
        · rcases rest with _ | ⟨second, _ | ⟨third, rest⟩⟩
          · cases tail <;> simp [hb]
          · simp [hb]
          · simp [hshort rest (by simp; omega), Bool.and_assoc]
        split
        · rcases rest with _ | ⟨second, _ | ⟨third, _ | ⟨fourth, rest⟩⟩⟩
          · rcases tail with _ | ⟨c, _ | ⟨d, tail⟩⟩ <;> simp [hb]
          · cases tail <;> simp [hb]
          · simp [hb]
          · simp [hshort rest (by simp; omega), Bool.and_assoc]
        · rfl

theorem isValidUtf8_append (text : Bytes) {more : Bytes} (hmore : StartsAscii more) :
    isValidUtf8 (text ++ more) = (isValidUtf8 text && isValidUtf8 more) := by
  rw [isValidUtf8, isValidUtf8From_append hmore (Nat.le_refl _), isValidUtf8From_turns
    (by rw [List.length_append]; omega) (Nat.le_refl text.length), ← isValidUtf8]

/-- A byte order mark has no ASCII in it. -/
theorem startsMark_append (text : Bytes) {more : Bytes} (hmore : StartsAscii more) :
    ((text ++ more).take 3 == [0xEF, 0xBB, 0xBF]) = (text.take 3 == [0xEF, 0xBB, 0xBF]) := by
  cases more with
  | nil => rw [List.append_nil]
  | cons b tail =>
    have hall : ∀ b : UInt8, b ≤ 0x7F → (b == 0xEF) = false ∧ (b == 0xBB) = false ∧
        (b == 0xBF) = false := forall_byte (by decide)
    obtain ⟨hfirst, hsecond, hthird⟩ := hall b (hmore b rfl)
    rcases text with _ | ⟨c, _ | ⟨d, _ | ⟨e, text⟩⟩⟩
    · cases tail <;> simp_all
    · cases tail <;> simp_all
    · simp_all
    · rfl

theorem splitLines_ne_nil {text : Bytes} (h : text ≠ []) : splitLines text ≠ [] := by
  cases text with
  | nil => exact absurd rfl h
  | cons b rest =>
    rw [splitLines]
    split
    · exact List.cons_ne_nil _ _
    · cases splitLines rest <;> exact List.cons_ne_nil _ _

/-- The lines before a line feed are the same whatever follows it. -/
theorem splitLines_append (text rest : Bytes) :
    splitLines (text ++ lf :: rest) = splitLines (text ++ [lf]) ++ splitLines rest := by
  induction text with
  | nil => rfl
  | cons b text ih =>
    rw [List.cons_append, List.cons_append, splitLines, splitLines, ih]
    split
    · rfl
    · cases hlines : splitLines (text ++ [lf]) with
      | nil => exact absurd hlines (splitLines_ne_nil (by simp))
      | cons line more => rfl

theorem splitLines_last {line : Bytes} (hline : lf ∉ line) (hne : line ≠ []) :
    splitLines line = [line] := by
  induction line with
  | nil => exact absurd rfl hne
  | cons b line ih =>
    have hb : (b == lf) = false := by
      rw [beq_eq_false_iff_ne]
      rintro rfl
      exact hline List.mem_cons_self
    rw [splitLines, hb]
    cases line with
    | nil => rfl
    | cons c line =>
      rw [ih (fun hmem => hline (List.mem_cons_of_mem _ hmem)) (List.cons_ne_nil _ _)]
      rfl

theorem mappingColonFrom_none {search : Search} {text : Bytes} (h : byte ':' ∉ text) :
    mappingColonFrom search text = none := by
  induction text generalizing search with
  | nil => rfl
  | cons b text ih =>
    rw [mappingColonFrom, if_neg, ih fun hmem => h (List.mem_cons_of_mem _ hmem)]
    · rfl
    · rintro ⟨-, rfl, -⟩
      exact h List.mem_cons_self

/-- Where a marker is looked for in a text with a comment and without. -/
theorem beforeMarker_comment {text body : Bytes} (h : Trailing text) (hne : text ≠ []) :
    beforeMarker (text ++ hash :: body) =
      some ((beforeMarker text).getD text.dropLast) := by
  induction text with
  | nil => exact absurd rfl hne
  | cons b text ih =>
    cases text with
    | nil =>
      rw [h.singleton]
      rfl
    | cons c text =>
      have hread := ih h.tail (List.cons_ne_nil _ _)
      rw [List.cons_append, beforeMarker, beforeMarker]
      rw [hread]
      have hhead : (c :: text ++ hash :: body).head? = (c :: text).head? := rfl
      rw [hhead]
      split
      · rfl
      · cases beforeMarker (c :: text) <;> rfl

/-- A line that the lexer takes for a document marker. -/
def isMarked (indent : Nat) (content : Bytes) : Bool :=
  !isBlank content && indent == 0 &&
    (markerToken content == ascii "---" || markerToken content == ascii "...")

theorem trimRightSpaces_dropLast {text : Bytes} (h : text.getLast? = some space) :
    trimRightSpaces text = trimRightSpaces text.dropLast := by
  obtain ⟨before, rfl⟩ := List.getLast?_eq_some_iff.mp h
  rw [List.dropLast_concat, trimRightSpaces, List.rdropWhile_concat, if_pos (by decide)]
  rfl

/-- A marker with a comment is one without it. -/
theorem isMarked_of_comment {indent : Nat} {content body : Bytes} (h : Trailing content)
    (hmarked : isMarked indent (content ++ hash :: body) = true) :
    isMarked indent content = true := by
  unfold isMarked at hmarked ⊢
  rw [isBlank_comment] at hmarked
  cases hcontent : content with
  | nil =>
    rw [hcontent] at hmarked
    cases hmarked
  | cons b rest =>
    have hne : content ≠ [] := by
      rw [hcontent]
      exact List.cons_ne_nil _ _
    have hlast : content.getLast? = some space := by
      rw [List.getLast?_eq_some_getLast hne]
      rw [h _ (List.getLast?_eq_some_getLast hne)]
    rw [markerToken, beforeMarker_comment h hne, Option.getD_some] at hmarked
    rw [← hcontent, markerToken]
    cases hbefore : beforeMarker content with
    | some before =>
      rw [hbefore] at hmarked
      exact hmarked
    | none =>
      rw [hbefore] at hmarked
      have hdashes : trimRightSpaces (ascii "---") = ascii "---" := by decide
      have hdots : trimRightSpaces (ascii "...") = ascii "..." := by decide
      simp only [Option.getD_none, Bool.and_eq_true, Bool.or_eq_true, beq_iff_eq] at hmarked ⊢
      refine ⟨hmarked.1, hmarked.2.imp (fun heq => ?_) (fun heq => ?_)⟩
      · rw [trimRightSpaces_dropLast hlast, heq, hdashes]
      · rw [trimRightSpaces_dropLast hlast, heq, hdots]

/-- A marker that is one only without its comment is no item and no entry. -/
theorem unread_of_isMarked {indent : Nat} {content body : Bytes} (h : Trailing content)
    (hmarked : isMarked indent content = true)
    (hfull : isMarked indent (content ++ hash :: body) = false) :
    isDash content = false ∧ isDash (content ++ hash :: body) = false ∧
      findMappingColon content = none := by
  unfold isMarked at hmarked hfull
  rw [isBlank_comment] at hfull
  have hne : content ≠ [] := by
    rintro rfl
    cases hmarked
  rw [markerToken, beforeMarker_comment h hne, Option.getD_some] at hfull
  rw [markerToken] at hmarked
  cases hbefore : beforeMarker content with
  | some before =>
    rw [hbefore, Option.getD_some] at hmarked hfull
    rw [hmarked] at hfull
    cases hfull
  | none =>
    rw [hbefore, Option.getD_none] at hmarked
    simp only [Bool.and_eq_true, Bool.or_eq_true, beq_iff_eq] at hmarked
    have hcontent : ∃ more, content = trimRightSpaces content ++ more ∧ ∀ b ∈ more, b = space := by
      refine ⟨content.rtakeWhile isSpace, ?_, fun b hb => ?_⟩
      · exact (List.rdropWhile_append_rtakeWhile).symm
      · have hspace := List.mem_rtakeWhile_imp hb
        exact beq_iff_eq.mp hspace
    obtain ⟨more, hcontent, hmore⟩ := hcontent
    have hcolon (token : Bytes) (htoken : byte ':' ∉ token) (heq : trimRightSpaces content = token) :
        findMappingColon content = none := by
      rw [hcontent, heq]
      refine mappingColonFrom_none fun hmem => ?_
      rcases List.mem_append.mp hmem with hmem | hmem
      · exact htoken hmem
      · exact absurd (hmore _ hmem) (by decide)
    rcases hmarked.2 with heq | heq
    · refine ⟨?_, ?_, hcolon _ (by decide) heq⟩
      · rw [hcontent, heq]
        rfl
      · rw [hcontent, heq]
        rfl
    · refine ⟨?_, ?_, hcolon _ (by decide) heq⟩
      · rw [hcontent, heq]
        rfl
      · rw [hcontent, heq]
        rfl

/-- A line that may be deleted from: what stands before the comment, and the comment
behind its `#`. -/
structure HasComment (kept body : Bytes) : Prop where
  trailing : Trailing kept
  quotes : insideQuotes kept = false
  colon : ¬ColonInComment kept body
  bytes : ∀ b ∈ body, b ≠ cr ∧ b ≠ 0

theorem any_isRefused {bytes : Bytes} (h : ∀ b ∈ bytes, b ≠ cr ∧ b ≠ 0) :
    bytes.any isRefused = false := by
  rw [List.any_eq_false]
  intro b hb
  obtain ⟨hcr, hnul⟩ := h b hb
  simp [isRefused, hcr, hnul]

/-- The two forms of a line are lexed alike, or the line without its comment is thrown
out as a marker and the line with it is read by nothing. -/
theorem lexLine_comment {kept body : Bytes} (h : HasComment kept body) :
    Alike (fun line line' => SameLine line line' ∧ line.blank = line'.blank) never
        (lexLine (kept ++ hash :: body)) (lexLine kept) ∨
      (∃ stop, lexLine kept = .error stop) ∧
        Ends Stray (fun _ => True) (lexLine (kept ++ hash :: body)) := by
  have hany : (kept ++ hash :: body).any isRefused = kept.any isRefused := by
    have hbody : body.any isRefused = false := any_isRefused h.bytes
    have hhash : isRefused hash = false := by decide
    rw [List.any_append, List.any_cons, hbody, hhash, Bool.or_false, Bool.or_false]
  have hindent : ((kept ++ hash :: body).takeWhile isSpace).length =
      (kept.takeWhile isSpace).length := by
    rw [List.takeWhile_append, List.takeWhile_cons, if_neg (by decide : ¬isSpace hash = true)]
    split
    · rename_i hall
      rw [List.append_nil, hall]
    · rfl
  have htab := @head_comment body 0x09 (by decide) (skipSpaces kept)
  have hlex (text : Bytes) : lexLine text = (do
      throwIf (text.any isRefused)
        (.thrown ⟨.invalidEncoding, ascii "CR and NUL bytes are forbidden in YAML source",
          here (text.dropWhile fun b => !isRefused b)⟩)
      throwIf ((skipSpaces text).head? == some 0x09)
        (.thrown ⟨.forbiddenSyntax, ascii "tab indentation is forbidden",
          here (skipSpaces text)⟩)
      throwIf (isMarked (text.takeWhile isSpace).length (skipSpaces text))
        (.thrown ⟨.forbiddenSyntax, ascii "explicit or multiple YAML documents are forbidden",
          here (skipSpaces text)⟩)
      .ok ⟨text, (text.takeWhile isSpace).length, isBlank (skipSpaces text)⟩) := rfl
  rw [hlex, hlex, hany, hindent, skipSpaces_comment, htab, isBlank_comment]
  -- A comment can hide a document marker: the line without it is refused then, and with it no
  -- parser reads the line.
  by_cases hmarked : isMarked (kept.takeWhile isSpace).length (skipSpaces kept ++ hash :: body) =
      isMarked (kept.takeWhile isSpace).length (skipSpaces kept)
  · left
    rw [hmarked]
    refine Alike.bind Alike.throwIf fun _ _ _ => ?_
    refine Alike.bind Alike.throwIf fun _ _ _ => ?_
    refine Alike.bind Alike.throwIf fun _ _ _ => ?_
    refine .ok ⟨?_, rfl⟩
    cases hblank : isBlank (skipSpaces kept) with
    | true => exact .inr (.inl ⟨rfl, rfl⟩)
    | false =>
      exact .inr (.inr ⟨kept, body, rfl, rfl, rfl, rfl, hblank, h.trailing,
        colonBehind_eq_false.mpr h.colon, h.quotes⟩)
  · right
    have hcut : isMarked (kept.takeWhile isSpace).length (skipSpaces kept) = true := by
      cases hcut : isMarked (kept.takeWhile isSpace).length (skipSpaces kept) with
      | true => rfl
      | false =>
        rw [hcut] at hmarked
        have hfull := eq_true_of_ne_false hmarked
        rw [isMarked_of_comment h.trailing.skipSpaces hfull] at hcut
        cases hcut
    have hfull : isMarked (kept.takeWhile isSpace).length (skipSpaces kept ++ hash :: body) =
        false := by
      rw [hcut] at hmarked
      exact eq_false_of_ne_true hmarked
    obtain ⟨hdash, hdash', hcolon⟩ := unread_of_isMarked h.trailing.skipSpaces hcut hfull
    have hblank : isBlank (skipSpaces kept) = false := by
      simp only [isMarked, Bool.and_eq_true, Bool.not_eq_true'] at hcut
      exact hcut.1.1
    constructor
    · rw [hcut]
      cases hbytes : kept.any isRefused with
      | true => exact ⟨_, rfl⟩
      | false => cases htabbed : ((skipSpaces kept).head? == some 0x09) <;> exact ⟨_, rfl⟩
    · refine Ends.bind (ends_any _) fun _ _ => Ends.bind (ends_any _) fun _ _ => ?_
      refine Ends.bind (ends_any _) fun _ _ => ?_
      have hdrop : (kept ++ hash :: body).drop (kept.takeWhile isSpace).length =
          skipSpaces kept ++ hash :: body := by
        rw [List.drop_append_of_le_length (List.takeWhile_prefix _).length_le, drop_takeWhile]
      refine ⟨hblank, ?_, ?_⟩
      · dsimp only
        rw [hdrop]
        exact hdash'
      · dsimp only
        rw [hdrop]
        have hbehind := colonBehind_eq_false.mpr h.colon
        rw [colonBehind, colonText, hblank, hdash] at hbehind
        simpa [hcolon] using hbehind

-- ---------------------------------------------------------------------------
-- Documents
-- ---------------------------------------------------------------------------

theorem SameLines.refl (lines : List Line) : SameLines lines lines := by
  induction lines with
  | nil => exact .nil
  | cons line rest ih => exact .cons (.inl rfl) ih rfl

section Documents

variable {kept body : Bytes}

theorem lexLines_alike (h : Alike (fun line line' => SameLine line line' ∧ line.blank = line'.blank)
      never (lexLine (kept ++ hash :: body)) (lexLine kept)) (before after : List Bytes) :
    Alike SameLines never (lexLines (before ++ (kept ++ hash :: body) :: after))
      (lexLines (before ++ kept :: after)) := by
  induction before with
  | nil =>
    refine Alike.bind (alike_followed _ _ _ _ h) fun line line' hline => ?_
    refine Alike.bind (Alike.refl (fun _ => rfl) _) ?_
    rintro lines _ rfl
    exact .ok (.cons hline.1 (SameLines.refl lines) hline.2)
  | cons text before ih =>
    refine Alike.bind (alike_followed _ _ _ _ (Alike.refl (fun _ => rfl) _)) ?_
    rintro line _ rfl
    refine Alike.bind ih fun lines lines' hlines => ?_
    exact .ok (.cons (.inl rfl) hlines rfl)

theorem lexLines_stray (h : Ends Stray (fun _ => True) (lexLine (kept ++ hash :: body)))
    (before after : List Bytes) :
    Ends (fun lines => ∃ stray ∈ lines, Stray stray) (fun _ => True)
      (lexLines (before ++ (kept ++ hash :: body) :: after)) := by
  induction before with
  | nil =>
    have hline : Ends Stray (fun _ => True)
        (followed after.length 0 (lexLine (kept ++ hash :: body))) := by
      cases hlex : lexLine (kept ++ hash :: body) with
      | ok line => exact h.of_ok hlex
      | error stop => trivial
    refine Ends.bind hline fun line hline => Ends.bind (ends_any _) fun lines _ => ?_
    exact ⟨line, List.mem_cons_self, hline⟩
  | cons text before ih =>
    refine Ends.bind (ends_any _) fun line _ => Ends.bind ih fun lines hlines => ?_
    obtain ⟨stray, hmem, hstray⟩ := hlines
    exact ⟨stray, List.mem_cons_of_mem _ hmem, hstray⟩

theorem lexLines_error {stop : Stop} {text : Bytes} (h : lexLine text = .error stop)
    (before after : List Bytes) :
    ∃ stop, lexLines (before ++ text :: after) = .error stop := by
  induction before with
  | nil => exact ⟨_, by rw [List.nil_append, lexLines, h]; rfl⟩
  | cons first before ih =>
    obtain ⟨stop', hstop⟩ := ih
    rw [List.cons_append, lexLines, hstop]
    cases lexLine first with
    | error stop => exact ⟨_, rfl⟩
    | ok line => exact ⟨stop', rfl⟩

/-- A comment alone on the last line leaves no line when it is deleted. -/
theorem lexLines_last (hbytes : ∀ b ∈ body, b ≠ cr ∧ b ≠ 0) (before : List Bytes) :
    Alike SameLines never (lexLines (before ++ [hash :: body])) (lexLines before) := by
  have hlex : lexLine (hash :: body) = .ok ⟨hash :: body, 0, true⟩ := by
    have hbody : (hash :: body).any isRefused = false := by
      rw [List.any_cons, any_isRefused hbytes]
      decide
    rw [lexLine, hbody]
    rfl
  induction before with
  | nil =>
    have hone : lexLines [hash :: body] = .ok [⟨hash :: body, 0, true⟩] := by
      rw [lexLines, hlex]
      rfl
    rw [List.nil_append, hone]
    exact .ok (.last rfl)
  | cons text before ih =>
    refine Alike.bind (alike_followed _ _ _ _ (Alike.refl (fun _ => rfl) _)) ?_
    rintro line _ rfl
    refine Alike.bind ih fun lines lines' hlines => ?_
    exact .ok (.cons (.inl rfl) hlines rfl)

/-- The lines of a document around one of its lines. -/
theorem splitLines_around {before after : Bytes}
    (hbefore : before = [] ∨ before.getLast? = some lf)
    (hafter : after = [] ∨ after.head? = some lf) {line : Bytes} (hline : lf ∉ line) :
    splitLines (before ++ line ++ after) =
      splitLines before ++
        (if line = [] ∧ after = [] then [] else line :: splitLines after.tail) := by
  have habove : splitLines (before ++ line ++ after) =
      splitLines before ++ splitLines (line ++ after) := by
    rcases hbefore with rfl | hlast
    · rfl
    · obtain ⟨text, rfl⟩ := List.getLast?_eq_some_iff.mp hlast
      rw [List.append_assoc, List.append_assoc, List.singleton_append, splitLines_append]
  rw [habove]
  congr 1
  rcases hafter with rfl | hfirst
  · rw [List.append_nil]
    by_cases hne : line = []
    · rw [if_pos ⟨hne, rfl⟩, hne]
      rfl
    · rw [if_neg (fun h => hne h.1), splitLines_last hline hne]
      rfl
  · cases after with
    | nil => cases hfirst
    | cons b after =>
      obtain rfl := Option.some.inj hfirst
      rw [if_neg (fun h => List.cons_ne_nil _ _ h.2), splitLines_line hline]
      rfl

theorem toOption_of_alike {α : Type} {x y : Result α} (h : Alike Eq never x y) :
    x.toOption = y.toOption := by
  cases y with
  | ok b =>
    obtain ⟨a, rfl, rfl⟩ := h
    rfl
  | error stop =>
    rcases h with hnever | ⟨stop', rfl⟩
    · exact hnever.elim
    · rfl

/-- The lexer checks the bytes of a document with a comment as it does without. -/
theorem checkEncoding_comment {before after : Bytes} (hutf8 : isValidUtf8 body = true)
    (hafter : after = [] ∨ after.head? = some lf) :
    Alike Eq never (checkEncoding (before ++ (kept ++ hash :: body) ++ after))
      (checkEncoding (before ++ kept ++ after)) := by
  have hstarts : StartsAscii after := by
    rcases hafter with rfl | hfirst
    · intro b hb
      cases hb
    · intro b hb
      rw [hfirst] at hb
      rw [← Option.some.inj hb]
      decide
  have hhash : StartsAscii (hash :: body ++ after) := by
    intro b hb
    rw [← Option.some.inj hb]
    decide
  have hvalid : isValidUtf8 (hash :: body) = true := by
    rw [isValidUtf8] at hutf8 ⊢
    rw [← hutf8]
    rw [List.length_cons]
    conv_lhs => unfold isValidUtf8From
    exact if_pos (by decide)
  have hfull : before ++ (kept ++ hash :: body) ++ after =
      (before ++ kept) ++ (hash :: body ++ after) := by
    rw [List.append_assoc, List.append_assoc, List.append_assoc]
  rw [hfull, checkEncoding, checkEncoding, startsMark_append _ hhash,
    startsMark_append _ hstarts, isValidUtf8_append _ hhash, isValidUtf8_append _ hstarts,
    isValidUtf8_append _ hstarts, hvalid, Bool.true_and]
  exact Alike.bind Alike.throwIf fun _ _ _ => Alike.throwIf

theorem within_of_make {limits : Limits} {start : Budget} (h : Budget.make limits = .ok start) :
    start.limits.Within .v1 := by
  rw [Budget.make, bind_eq_ok] at h
  obtain ⟨_, -, h⟩ := h
  obtain rfl := Except.ok.inj h
  exact ⟨Nat.min_le_right _ _, Nat.min_le_right _ _, Nat.min_le_right _ _, Nat.min_le_right _ _⟩

/-- Deleting a comment from a line leaves the outcome. -/
theorem comment_deletion {limits : Limits} {start : Budget}
    (hstart : Budget.make limits = .ok start) (consumed : Nat) {before kept body after : Bytes}
    (hbefore : before = [] ∨ before.getLast? = some lf)
    (hafter : after = [] ∨ after.head? = some lf) (hkept : lf ∉ kept) (hbody : lf ∉ body)
    (hcomment : HasComment kept body) (hutf8 : isValidUtf8 body = true) :
    (parseFailsafeYaml (before ++ (kept ++ hash :: body) ++ after)
        { start with nodesConsumed := consumed }).toOption =
      (parseFailsafeYaml (before ++ kept ++ after)
        { start with nodesConsumed := consumed }).toOption := by
  have hwide := within_of_make hstart
  have hcommented : lf ∉ kept ++ hash :: body := by
    intro hmem
    rcases List.mem_append.mp hmem with hmem | hmem
    · exact hkept hmem
    · rcases List.mem_cons.mp hmem with heq | hmem
      · exact absurd heq (by decide)
      · exact hbody hmem
  have hsplit := splitLines_around hbefore hafter hcommented
  rw [if_neg (fun h => by simp at h)] at hsplit
  have hencoding := @checkEncoding_comment kept body before after hutf8 hafter
  -- once the lines are lexed alike, the parser does the rest
  have hsame (h : Alike SameLines never
        (lexLines (splitLines (before ++ (kept ++ hash :: body) ++ after)))
        (lexLines (splitLines (before ++ kept ++ after)))) :
      Alike Eq never
        (parseFailsafeYaml (before ++ (kept ++ hash :: body) ++ after)
          { start with nodesConsumed := consumed })
        (parseFailsafeYaml (before ++ kept ++ after) { start with nodesConsumed := consumed }) := by
    refine Alike.bind (Alike.bind hencoding fun _ _ _ => h) ?_
    intro read read' hread
    refine Alike.bind (parseStructure_alike hwide hread consumed) ?_
    rintro result _ rfl
    exact Alike.refl (fun _ => rfl) _
  have hcut := splitLines_around hbefore hafter hkept
  refine toOption_of_alike ?_
  by_cases hlast : kept = [] ∧ after = []
  · obtain ⟨rfl, rfl⟩ := hlast
    rw [if_pos ⟨rfl, rfl⟩] at hcut
    refine hsame ?_
    rw [hsplit, hcut, List.append_nil]
    exact lexLines_last hcomment.bytes _
  · rw [if_neg hlast] at hcut
    rcases lexLine_comment hcomment with halike | ⟨⟨stop, hstop⟩, hstray⟩
    · refine hsame ?_
      rw [hsplit, hcut]
      exact lexLines_alike halike _ _
    · -- the line without its comment is a document marker
      refine Alike.of_ends (T := fun _ => True) ?_ ?_
      · rw [parseFailsafeYaml, lexFailsafeYaml, hsplit]
        refine Ends.bind (Ends.bind (ends_any _) fun _ _ => lexLines_stray hstray _ _) ?_
        rintro read ⟨stray, hmem, hstray⟩
        obtain ⟨stop, hthrown⟩ := @parseStructure_stray stray start.limits hstray read hmem consumed
        rw [hthrown]
        trivial
      · obtain ⟨stop', hstop'⟩ := lexLines_error hstop (splitLines before) (splitLines after.tail)
        rw [parseFailsafeYaml, lexFailsafeYaml, hcut, hstop']
        refine Ends.bind (R := fun _ => False) ?_ fun _ hfalse => hfalse.elim
        exact Ends.bind (ends_any _) fun _ _ => trivial

end Documents

theorem comment_deletion_sample :
    (parseFailsafeYaml ([] ++ (ascii "a: b " ++ hash :: ascii " why: not") ++ [lf])
          ⟨.v1, 0⟩).toOption =
        (parseFailsafeYaml ([] ++ ascii "a: b " ++ [lf]) ⟨.v1, 0⟩).toOption ∧
      (parseFailsafeYaml ([] ++ ascii "a: b " ++ [lf]) ⟨.v1, 0⟩).toOption.isSome = true := by
  have hcomment : HasComment (ascii "a: b ") (ascii " why: not") := by
    refine ⟨?_, by decide +kernel, colonBehind_eq_false.mp (by decide +kernel),
      forall_mem_byte (by decide)⟩
    intro b hb
    have hlast : (ascii "a: b ").getLast? = some space := by decide
    exact (Option.some.inj (hlast.symm.trans hb)).symm
  have hmake : Budget.make .v1 = .ok ⟨.v1, 0⟩ := rfl
  refine ⟨?_, by decide +kernel⟩
  exact comment_deletion hmake 0 (.inl rfl) (.inr rfl) (by decide) (by decide) hcomment
    (by decide +kernel)

/-- A carriage return in a comment, and a colon in a comment behind a text without one. -/
theorem comment_deletion_changes :
    (parseFailsafeYaml (ascii "a: b # c\r\n") ⟨.v1, 0⟩).toOption.isSome = false ∧
      (parseFailsafeYaml (ascii "a: b \n") ⟨.v1, 0⟩).toOption.isSome = true ∧
      (parseFailsafeYaml (ascii "a # b: c\n") ⟨.v1, 0⟩).toOption.isSome = true ∧
      (parseFailsafeYaml (ascii "a \n") ⟨.v1, 0⟩).toOption.isSome = false := by
  refine ⟨?_, ?_, ?_, ?_⟩ <;> decide +kernel

-- ---------------------------------------------------------------------------
-- A colon in the comment
-- ---------------------------------------------------------------------------

section ColonInComment

variable {limits : Limits} {block : BlockParser} {kept body : Bytes} {line line' : Line}

/-- What the lexer makes of a line, where it takes it. -/
theorem eq_of_lexLine {text : Bytes} (h : lexLine text = .ok line) :
    line = ⟨text, (text.takeWhile isSpace).length, isBlank (skipSpaces text)⟩ := by
  rw [lexLine, bind_eq_ok] at h
  obtain ⟨_, -, h⟩ := h
  obtain ⟨_, -, h⟩ := bind_eq_ok.mp h
  obtain ⟨_, -, h⟩ := bind_eq_ok.mp h
  exact (Except.ok.inj h).symm

theorem content_of_lexLine (h : lexLine (kept ++ hash :: body) = .ok line) :
    line.indent = (kept.takeWhile isSpace).length ∧
      line.text.drop line.indent = skipSpaces kept ++ hash :: body := by
  have hindent : ((kept ++ hash :: body).takeWhile isSpace).length =
      (kept.takeWhile isSpace).length := by
    rw [List.takeWhile_append, List.takeWhile_cons, if_neg (by decide : ¬isSpace hash = true)]
    split
    · rename_i hall
      rw [List.append_nil, hall]
    · rfl
  rw [eq_of_lexLine h]
  refine ⟨hindent, ?_⟩
  dsimp only
  rw [hindent, List.drop_append_of_le_length (List.takeWhile_prefix _).length_le, drop_takeWhile]

/-- A line that is no item and has its only mapping colon in the comment is an entry, with
its value behind that colon. Without the comment no document holds the line. -/
theorem colonInComment_entry (hcolon : ColonInComment kept body)
    (hdash : isDash (skipSpaces kept) = false) (hline : lexLine (kept ++ hash :: body) = .ok line)
    (hline' : lexLine kept = .ok line') :
    (∃ skipped value, body = skipped ++ byte ':' :: value ∧ ∀ keys depth nodes rest,
      parseMappingEntry limits block keys line.indent depth nodes line rest =
        parseEntry limits block (skipSpaces kept ++ hash :: skipped) value keys line.indent depth
          nodes rest) ∧
      ∀ lines nodes, line' ∈ lines → ∃ stop, parseStructure limits nodes lines = .error stop := by
  obtain ⟨searched, skipped, value, hsearched, hbody, hnone, hcut⟩ := hcolon.cut
  have hblank : isBlank (skipSpaces kept) = false := by
    rw [colonText] at hsearched
    dsimp only at hsearched
    split at hsearched
    · cases hsearched
    · rename_i hfilled
      exact eq_false_of_ne_true hfilled
  obtain rfl : skipSpaces kept = searched := by
    rw [colonText, hblank, hdash] at hsearched
    exact Option.some.inj hsearched
  refine ⟨⟨skipped, value, hbody, fun keys depth nodes rest => ?_⟩, fun lines nodes hmem => ?_⟩
  · rw [parseMappingEntry, (content_of_lexLine hline).2, hcut]
  · refine parseStructure_stray ⟨?_, ?_, ?_⟩ hmem nodes
    · rw [eq_of_lexLine hline']
      exact hblank
    · rw [eq_of_lexLine hline']
      dsimp only
      rw [drop_takeWhile]
      exact hdash
    · rw [eq_of_lexLine hline']
      dsimp only
      rw [drop_takeWhile]
      exact hnone

/-- An item of that kind is a mapping, of entries that start with the one in the comment;
without the comment it is a scalar. -/
theorem colonInComment_item (hcolon : ColonInComment kept body)
    (hdash : isDash (skipSpaces kept) = true) (hline : lexLine (kept ++ hash :: body) = .ok line)
    (hline' : lexLine kept = .ok line') (depth nodes : Nat) (rest : List Line) :
    parseSequenceValue limits block line.indent depth nodes line rest =
        parseCompactMapping limits block line.indent
          (line.text.length - (skipSpaces (skipSpaces kept).tail ++ hash :: body).length)
          (depth + 1) nodes (line :: rest) ∧
      parseSequenceValue limits block line'.indent depth nodes line' rest = (do
        let (value, nodes) ← followed rest.length 0
          (parseInline limits (depth + 1) nodes (skipSpaces (skipSpaces kept).tail))
        .ok (value, nodes, rest)) := by
  obtain ⟨searched, skipped, value, hsearched, -, hnone, hcut⟩ := hcolon.cut
  obtain ⟨hfilled, hplain, rfl⟩ : isBlank (skipSpaces (skipSpaces kept).tail) = false ∧
      startsCollection (skipSpaces (skipSpaces kept).tail) = false ∧
        skipSpaces (skipSpaces kept).tail = searched := by
    rw [colonText] at hsearched
    dsimp only at hsearched
    split at hsearched
    · cases hsearched
    · cases hblank : isBlank (skipSpaces (skipSpaces kept).tail) with
      | true => simp [hblank] at hsearched
      | false =>
        cases hstarts : startsCollection (skipSpaces (skipSpaces kept).tail) with
        | true => simp [hblank, hstarts] at hsearched
        | false =>
          simp only [hblank, hstarts, Bool.or_false, Bool.false_eq_true, if_false] at hsearched
          exact ⟨rfl, rfl, Option.some.inj hsearched⟩
  obtain ⟨b, tail, hcons⟩ : ∃ b tail, skipSpaces kept = b :: tail := by
    cases hcontent : skipSpaces kept with
    | nil =>
      rw [hcontent] at hdash
      cases hdash
    | cons b tail => exact ⟨b, tail, rfl⟩
  have htext : skipSpaces (line.text.drop (line.indent + 1)) =
      skipSpaces (skipSpaces kept).tail ++ hash :: body := by
    rw [← List.drop_drop, (content_of_lexLine hline).2, hcons, ← skipSpaces_comment]
    rfl
  have htext' : skipSpaces (line'.text.drop (line'.indent + 1)) =
      skipSpaces (skipSpaces kept).tail := by
    rw [eq_of_lexLine hline', ← List.drop_drop]
    dsimp only
    rw [drop_takeWhile, hcons]
    rfl
  have hstarts (text : Bytes) (h : startsCollection text = false) :
      (text.head? != some (byte '{') && text.head? != some (byte '[')) = true := by
    rw [startsCollection, Bool.or_eq_false_iff] at h
    simp only [bne, h.1, h.2, Bool.not_false, Bool.and_self]
  constructor
  · have hcommented :
        startsCollection (skipSpaces (skipSpaces kept).tail ++ hash :: body) = false := by
      rw [startsCollection, head_comment (by decide), head_comment (by decide)]
      exact hplain
    rw [parseSequenceValue]
    dsimp only
    rw [htext, isBlank_comment, hfilled, if_neg Bool.false_ne_true, hcut, Option.isSome_some,
      Bool.true_and, hstarts _ hcommented, if_pos rfl]
  · rw [parseSequenceValue]
    dsimp only
    rw [htext', hfilled, if_neg Bool.false_ne_true, hnone, Option.isSome_none, Bool.false_and,
      Bool.false_and, if_neg Bool.false_ne_true]

end ColonInComment

end Cuac.Connector.FailsafeYaml

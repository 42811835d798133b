import Cuac.Runtime.LinkHeader

/-!
# Runtime — Link fields one by one and combined

A list of fields may be combined into one with commas between them. Each scanner
reads a field the same way whether or not another is joined to it, unless the
field ends within a quoted string; then it is not read by itself at all.

Main results:

* `Joins.bind` — scanners in sequence.
* `Fields.combined`, `Fields.of_combined` — what a list is read as and what the
  combined field is read as are the same.
-/

namespace Cuac.Runtime.LinkHeader

open Cuac.Lib
open Cuac.Runtime.Pagination (LinkHeaderVisits)
open Cuac.Runtime.Uri (isValidUri isValidUriReference)

-- ---------------------------------------------------------------------------
-- Where a byte of a field stands
-- ---------------------------------------------------------------------------

inductive Place
  | outside
  | target
  | quoted
  /-- After a backslash in a quoted string. -/
  | escaped
  deriving DecidableEq, Repr

def Place.step : Place → UInt8 → Place
  | .outside, b => if b == byte '"' then .quoted else if b == byte '<' then .target else .outside
  | .target, b => if b == byte '>' then .outside else .target
  | .quoted, b => if b == byte '"' then .outside else if b == 0x5C then .escaped else .quoted
  | .escaped, _ => .quoted

/-- A field that ends within a quoted string. -/
def endsQuoted (field : Bytes) : Bool :=
  field.foldl Place.step .outside == .quoted || field.foldl Place.step .outside == .escaped

/-- From one text on to a rest of it, with no target and no quoted string left open. -/
def Passes (text rest : Bytes) : Prop :=
  ∃ used, text = used ++ rest ∧ used.foldl Place.step .outside = .outside

theorem Passes.refl (text : Bytes) : Passes text text := ⟨[], rfl, rfl⟩

theorem Passes.trans {first second third : Bytes} (h : Passes first second)
    (h' : Passes second third) : Passes first third := by
  obtain ⟨used, rfl, hused⟩ := h
  obtain ⟨more, rfl, hmore⟩ := h'
  refine ⟨used ++ more, by rw [List.append_assoc], ?_⟩
  rw [List.foldl_append, hused, hmore]

theorem Passes.endsQuoted {text rest : Bytes} (h : Passes text rest) :
    endsQuoted text = LinkHeader.endsQuoted rest := by
  obtain ⟨used, rfl, hused⟩ := h
  rw [LinkHeader.endsQuoted, LinkHeader.endsQuoted, List.foldl_append, hused]

/-- Characters that open nothing. -/
theorem Passes.plain {used rest : Bytes} (h : ∀ b ∈ used, b ≠ byte '"' ∧ b ≠ byte '<') :
    Passes (used ++ rest) rest := by
  refine ⟨used, rfl, ?_⟩
  induction used with
  | nil => rfl
  | cons b used ih =>
    rw [List.forall_mem_cons] at h
    have hstep : Place.step .outside b = .outside := by
      simp [Place.step, h.1.1, h.1.2]
    rw [List.foldl_cons, hstep]
    exact ih h.2

theorem passes_skipOws (text : Bytes) : Passes text (skipOws text) := by
  have hsplit := List.takeWhile_append_dropWhile (p := isOws) (l := text)
  have hpass : Passes (text.takeWhile isOws ++ text.dropWhile isOws) (text.dropWhile isOws) := by
    refine Passes.plain fun b hb => ?_
    have hows := List.mem_takeWhile_imp hb
    constructor <;> (rintro rfl; exact absurd hows (by decide))
  rwa [hsplit] at hpass

-- ---------------------------------------------------------------------------
-- Scanners and the end of a field
-- ---------------------------------------------------------------------------

/-- What joining puts between a field and the fields after it. -/
def joined (field rest : Bytes) : Bytes := field ++ byte ',' :: byte ' ' :: rest

theorem joined_cons (b : UInt8) (text more : Bytes) :
    joined (b :: text) more = b :: joined text more := rfl

theorem skipOws_joined (text more : Bytes) :
    skipOws (joined text more) = joined (skipOws text) more := by
  induction text with
  | nil => rfl
  | cons b text ih =>
    rw [joined_cons, skipOws, skipOws, List.dropWhile_cons, List.dropWhile_cons]
    split
    · exact ih
    · rfl

/-- A scanner that reads a field the same way whether or not others are joined to it. -/
structure Joins {β : Type} (scan : Bytes → Option (β × Bytes)) : Prop where
  passes : ∀ {text read rest}, scan text = some (read, rest) → Passes text rest
  extended : ∀ {text read rest}, scan text = some (read, rest) → ∀ more,
    scan (joined text more) = some (read, joined rest more)
  restricted : ∀ {text more read left}, scan (joined text more) = some (read, left) →
    endsQuoted text = false → ∃ rest, left = joined rest more ∧ scan text = some (read, rest)

theorem Joins.bind {β γ : Type} {scan : Bytes → Option (β × Bytes)}
    {next : β → Bytes → Option (γ × Bytes)} (h : Joins scan) (hnext : ∀ read, Joins (next read)) :
    Joins fun text => (scan text).bind fun read => next read.1 read.2 where
  passes := by
    intro text read rest hread
    obtain ⟨first, hfirst, hrest⟩ := Option.bind_eq_some_iff.mp hread
    exact (h.passes hfirst).trans ((hnext first.1).passes hrest)
  extended := by
    intro text read rest hread more
    obtain ⟨first, hfirst, hrest⟩ := Option.bind_eq_some_iff.mp hread
    rw [h.extended hfirst more]
    exact (hnext first.1).extended hrest more
  restricted := by
    intro text more read left hread hclosed
    obtain ⟨⟨first, after⟩, hfirst, hrest⟩ := Option.bind_eq_some_iff.mp hread
    obtain ⟨rest, rfl, hscan⟩ := h.restricted hfirst hclosed
    have hstill : endsQuoted rest = false := by rwa [(h.passes hscan).endsQuoted] at hclosed
    obtain ⟨last, rfl, hlast⟩ := (hnext first).restricted hrest hstill
    refine ⟨last, rfl, ?_⟩
    rw [hscan]
    exact hlast

/-- A step that looks at what was read, and at no text. -/
theorem Joins.note {β γ : Type} {scan : Bytes → Option (β × Bytes)} (h : Joins scan)
    (f : β → Option γ) : Joins fun text => (scan text).bind fun read =>
      (f read.1).map fun c => (c, read.2) := by
  refine @Joins.bind _ _ _ (fun b text => (f b).map fun c => (c, text)) h fun b => ?_
  constructor
  · intro text read rest hread
    obtain ⟨_, -, heq⟩ := Option.map_eq_some_iff.mp hread
    obtain ⟨-, rfl⟩ := Prod.mk.inj heq
    exact Passes.refl _
  · intro text read rest hread more
    obtain ⟨c, hc, heq⟩ := Option.map_eq_some_iff.mp hread
    obtain ⟨rfl, rfl⟩ := Prod.mk.inj heq
    exact Option.map_eq_some_iff.mpr ⟨c, hc, rfl⟩
  · intro text more read left hread hclosed
    obtain ⟨c, hc, heq⟩ := Option.map_eq_some_iff.mp hread
    obtain ⟨rfl, rfl⟩ := Prod.mk.inj heq
    exact ⟨text, rfl, Option.map_eq_some_iff.mpr ⟨c, hc, rfl⟩⟩

theorem Joins.after_ows {β : Type} {scan : Bytes → Option (β × Bytes)} (h : Joins scan) :
    Joins fun text => scan (skipOws text) where
  passes := fun hread => (passes_skipOws _).trans (h.passes hread)
  extended := by
    intro text read rest hread more
    rw [skipOws_joined]
    exact h.extended hread more
  restricted := by
    intro text more read left hread hclosed
    rw [skipOws_joined] at hread
    rw [(passes_skipOws text).endsQuoted] at hclosed
    exact h.restricted hread hclosed

theorem joins_parseToken : Joins parseToken := by
  have htake (text more : Bytes) : (joined text more).takeWhile isTokenCharacter =
      text.takeWhile isTokenCharacter := by
    induction text with
    | nil => rfl
    | cons b text ih => rw [joined_cons, List.takeWhile_cons, List.takeWhile_cons, ih]
  have hdrop (text more : Bytes) : (joined text more).dropWhile isTokenCharacter =
      joined (text.dropWhile isTokenCharacter) more := by
    induction text with
    | nil => rfl
    | cons b text ih =>
      rw [joined_cons, List.dropWhile_cons, List.dropWhile_cons]
      split
      · exact ih
      · rfl
  constructor
  · intro text read rest hread
    rw [parseToken] at hread
    split at hread
    · cases hread
    · obtain ⟨-, rfl⟩ := Prod.mk.inj (Option.some.inj hread)
      have hsplit := List.takeWhile_append_dropWhile (p := isTokenCharacter) (l := text)
      have hpass : Passes (text.takeWhile isTokenCharacter ++ text.dropWhile isTokenCharacter)
          (text.dropWhile isTokenCharacter) := by
        refine Passes.plain fun b hb => ?_
        have htoken := List.mem_takeWhile_imp hb
        constructor <;> (rintro rfl; exact absurd htoken (by decide))
      rwa [hsplit] at hpass
  · intro text read rest hread more
    rw [parseToken] at hread ⊢
    rw [htake, hdrop]
    split at hread
    · cases hread
    · rename_i hsome
      obtain ⟨rfl, rfl⟩ := Prod.mk.inj (Option.some.inj hread)
      rw [if_neg hsome]
  · intro text more read left hread _
    rw [parseToken, htake, hdrop] at hread
    split at hread
    · cases hread
    · rename_i hsome
      obtain ⟨rfl, rfl⟩ := Prod.mk.inj (Option.some.inj hread)
      exact ⟨_, rfl, by rw [parseToken, if_neg hsome]⟩

theorem step_quote {b : UInt8} (h : (b == byte '"') = true) :
    Place.step .quoted b = .outside := if_pos h

theorem step_backslash {b : UInt8} (h : ¬(b == byte '"') = true) (hescape : (b == 0x5C) = true) :
    Place.step .quoted b = .escaped := by
  rw [Place.step, if_neg h, if_pos hescape]

theorem step_text {b : UInt8} (h : ¬(b == byte '"') = true) (hescape : ¬(b == 0x5C) = true) :
    Place.step .quoted b = .quoted := by
  rw [Place.step, if_neg h, if_neg hescape]

/-- A quoted string stops at its closing quote, whatever follows it. -/
theorem parseQuotedText_append {text read rest : Bytes}
    (h : parseQuotedText text = some (read, rest)) (more : Bytes) :
    (∃ used, text = used ++ rest ∧ used.foldl Place.step .quoted = .outside) ∧
      parseQuotedText (text ++ more) = some (read, rest ++ more) := by
  induction text using parseQuotedText.induct generalizing read with
  | case1 => cases h
  | case2 b after hb =>
    unfold parseQuotedText at h
    rw [if_pos hb] at h
    obtain ⟨rfl, rfl⟩ := Prod.mk.inj (Option.some.inj h)
    refine ⟨⟨[b], rfl, step_quote hb⟩, ?_⟩
    rw [List.cons_append]
    unfold parseQuotedText
    rw [if_pos hb]
  | case3 b hb hescape =>
    rw [parseQuotedText, if_neg hb, if_pos hescape] at h
    cases h
  | case4 b hb hescape escaped after hbad =>
    rw [parseQuotedText, if_neg hb, if_pos hescape, if_pos hbad] at h
    cases h
  | case5 b hb hescape escaped after hgood ih =>
    rw [parseQuotedText, if_neg hb, if_pos hescape, if_neg hgood, Option.map_eq_some_iff] at h
    obtain ⟨⟨inner, left⟩, hread, heq⟩ := h
    obtain ⟨rfl, rfl⟩ := Prod.mk.inj heq
    obtain ⟨⟨used, rfl, hused⟩, hmore⟩ := ih hread
    refine ⟨⟨b :: escaped :: used, rfl, ?_⟩, ?_⟩
    · rw [List.foldl_cons, List.foldl_cons, step_backslash hb hescape]
      exact hused
    · rw [List.cons_append, List.cons_append, parseQuotedText, if_neg hb, if_pos hescape,
        if_neg hgood, hmore]
      rfl
  | case6 b after hb hescape hbad =>
    unfold parseQuotedText at h
    rw [if_neg hb, if_neg hescape, if_pos hbad] at h
    cases h
  | case7 b after hb hescape hgood ih =>
    unfold parseQuotedText at h
    rw [if_neg hb, if_neg hescape, if_neg hgood, Option.map_eq_some_iff] at h
    obtain ⟨⟨inner, left⟩, hread, heq⟩ := h
    obtain ⟨rfl, rfl⟩ := Prod.mk.inj heq
    obtain ⟨⟨used, rfl, hused⟩, hmore⟩ := ih hread
    refine ⟨⟨b :: used, rfl, ?_⟩, ?_⟩
    · rw [List.foldl_cons, step_text hb hescape]
      exact hused
    · rw [List.cons_append]
      unfold parseQuotedText
      rw [if_neg hb, if_neg hescape, if_neg hgood, hmore]
      rfl

/-- What reads on reads a quoted string, or the text ends within one. -/
theorem parseQuotedText_of_append {text more read left : Bytes}
    (h : parseQuotedText (text ++ more) = some (read, left)) :
    (∃ rest, left = rest ++ more ∧ parseQuotedText text = some (read, rest)) ∨
      text.foldl Place.step .quoted = .quoted ∨ text.foldl Place.step .quoted = .escaped := by
  induction text using parseQuotedText.induct generalizing read with
  | case1 => exact Or.inr (Or.inl rfl)
  | case2 b after hb =>
    rw [List.cons_append] at h
    unfold parseQuotedText at h ⊢
    rw [if_pos hb] at h ⊢
    obtain ⟨rfl, rfl⟩ := Prod.mk.inj (Option.some.inj h)
    exact Or.inl ⟨after, rfl, rfl⟩
  | case3 b hb hescape => exact Or.inr (Or.inr (step_backslash hb hescape))
  | case4 b hb hescape escaped after hbad =>
    rw [List.cons_append, List.cons_append, parseQuotedText, if_neg hb, if_pos hescape,
      if_pos hbad] at h
    cases h
  | case5 b hb hescape escaped after hgood ih =>
    rw [List.cons_append, List.cons_append, parseQuotedText, if_neg hb, if_pos hescape,
      if_neg hgood, Option.map_eq_some_iff] at h
    obtain ⟨⟨inner, left⟩, hread, heq⟩ := h
    obtain ⟨rfl, rfl⟩ := Prod.mk.inj heq
    rw [parseQuotedText, if_neg hb, if_pos hescape, if_neg hgood, List.foldl_cons, List.foldl_cons,
      step_backslash hb hescape]
    rcases ih hread with ⟨rest, rfl, hrest⟩ | hopen
    · refine Or.inl ⟨rest, rfl, ?_⟩
      rw [hrest]
      rfl
    · exact Or.inr hopen
  | case6 b after hb hescape hbad =>
    rw [List.cons_append] at h
    unfold parseQuotedText at h
    rw [if_neg hb, if_neg hescape, if_pos hbad] at h
    cases h
  | case7 b after hb hescape hgood ih =>
    rw [List.cons_append] at h
    unfold parseQuotedText at h ⊢
    rw [if_neg hb, if_neg hescape, if_neg hgood] at h ⊢
    rw [List.foldl_cons, step_text hb hescape]
    obtain ⟨⟨inner, left⟩, hread, heq⟩ := Option.map_eq_some_iff.mp h
    obtain ⟨rfl, rfl⟩ := Prod.mk.inj heq
    rcases ih hread with ⟨rest, rfl, hrest⟩ | hopen
    · refine Or.inl ⟨rest, rfl, ?_⟩
      rw [hrest]
      rfl
    · exact Or.inr hopen

theorem joins_parseParameterValue : Joins parseParameterValue := by
  constructor
  · intro text read rest hread
    cases text with
    | nil => cases hread
    | cons b text =>
      rw [parseParameterValue] at hread
      split at hread
      · rename_i hb
        obtain ⟨⟨used, rfl, hused⟩, -⟩ := parseQuotedText_append hread []
        refine ⟨b :: used, rfl, ?_⟩
        have hopen : Place.step .outside b = .quoted := if_pos hb
        rw [List.foldl_cons, hopen]
        exact hused
      · exact joins_parseToken.passes hread
  · intro text read rest hread more
    cases text with
    | nil => cases hread
    | cons b text =>
      rw [joined_cons, parseParameterValue]
      rw [parseParameterValue] at hread
      split at hread
      · rename_i hb
        rw [if_pos hb]
        exact (parseQuotedText_append hread _).2
      · rename_i hb
        rw [if_neg hb, ← joined_cons]
        exact joins_parseToken.extended hread more
  · intro text more read left hread hclosed
    cases text with
    | nil =>
      obtain ⟨rest, rfl, hrest⟩ := joins_parseToken.restricted
        (show parseToken (joined [] more) = _ from hread) hclosed
      cases hrest
    | cons b text =>
      rw [joined_cons, parseParameterValue] at hread
      rw [parseParameterValue]
      split at hread
      · rename_i hb
        rw [if_pos hb]
        have hopen : Place.step .outside b = .quoted := if_pos hb
        rw [endsQuoted, List.foldl_cons, hopen] at hclosed
        rcases parseQuotedText_of_append hread with ⟨rest, rfl, hrest⟩ | hplace | hplace
        · exact ⟨rest, rfl, hrest⟩
        · rw [hplace] at hclosed
          cases hclosed
        · rw [hplace] at hclosed
          cases hclosed
      · rename_i hb
        rw [if_neg hb]
        rw [← joined_cons] at hread
        exact joins_parseToken.restricted hread hclosed

-- ---------------------------------------------------------------------------
-- Parameters and values
-- ---------------------------------------------------------------------------

theorem joins_parseAfterName (name : Bytes) (seen : LinkParameters) :
    Joins fun text => parseAfterName name text seen := by
  have hvalue : Joins fun rest => (parseParameterValue (skipOws rest)).bind fun read =>
      (noteValue name read.1 seen).map fun seen => (seen, read.2) :=
    joins_parseParameterValue.after_ows.note fun value => noteValue name value seen
  constructor
  · intro text read rest hread
    cases text with
    | nil =>
      obtain ⟨_, -, heq⟩ := Option.map_eq_some_iff.mp hread
      obtain ⟨-, rfl⟩ := Prod.mk.inj heq
      exact Passes.refl _
    | cons b text =>
      rw [parseAfterName] at hread
      split at hread
      · rename_i hb
        have hpass : Passes ([b] ++ text) text := by
          refine Passes.plain fun c hc => ?_
          rw [List.mem_singleton.mp hc, beq_iff_eq.mp hb]
          decide
        exact hpass.trans (hvalue.passes hread)
      · obtain ⟨_, -, heq⟩ := Option.map_eq_some_iff.mp hread
        obtain ⟨-, rfl⟩ := Prod.mk.inj heq
        exact Passes.refl _
  · intro text read rest hread more
    cases text with
    | nil =>
      obtain ⟨noted, hnote, heq⟩ := Option.map_eq_some_iff.mp hread
      obtain ⟨rfl, rfl⟩ := Prod.mk.inj heq
      exact Option.map_eq_some_iff.mpr ⟨noted, hnote, rfl⟩
    | cons b text =>
      rw [parseAfterName] at hread
      rw [joined_cons, parseAfterName]
      split at hread
      · rename_i hb
        rw [if_pos hb]
        exact hvalue.extended hread more
      · rename_i hb
        rw [if_neg hb]
        obtain ⟨noted, hnote, heq⟩ := Option.map_eq_some_iff.mp hread
        obtain ⟨rfl, rfl⟩ := Prod.mk.inj heq
        exact Option.map_eq_some_iff.mpr ⟨noted, hnote, rfl⟩
  · intro text more read left hread hclosed
    cases text with
    | nil =>
      obtain ⟨noted, hnote, heq⟩ := Option.map_eq_some_iff.mp
        (show (noteName name seen).map (fun seen => (seen, joined [] more)) = _ from hread)
      obtain ⟨rfl, rfl⟩ := Prod.mk.inj heq
      exact ⟨[], rfl, Option.map_eq_some_iff.mpr ⟨noted, hnote, rfl⟩⟩
    | cons b text =>
      rw [joined_cons, parseAfterName] at hread
      rw [parseAfterName]
      split at hread
      · rename_i hb
        rw [if_pos hb]
        have hpass : Passes ([b] ++ text) text := by
          refine Passes.plain fun c hc => ?_
          rw [List.mem_singleton.mp hc, beq_iff_eq.mp hb]
          decide
        rw [show b :: text = [b] ++ text from rfl, hpass.endsQuoted] at hclosed
        exact hvalue.restricted hread hclosed
      · rename_i hb
        rw [if_neg hb]
        obtain ⟨noted, hnote, heq⟩ := Option.map_eq_some_iff.mp hread
        obtain ⟨rfl, rfl⟩ := Prod.mk.inj heq
        exact ⟨b :: text, rfl, Option.map_eq_some_iff.mpr ⟨noted, hnote, rfl⟩⟩

theorem joins_parseParameter (seen : LinkParameters) :
    Joins fun text => parseParameter text seen :=
  joins_parseToken.after_ows.bind fun name => (joins_parseAfterName name seen).after_ows

theorem passes_cons {b : UInt8} (h : b ≠ byte '"' ∧ b ≠ byte '<') (rest : Bytes) :
    Passes (b :: rest) rest := by
  refine @Passes.plain [b] _ fun c hc => ?_
  rw [List.mem_singleton.mp hc]
  exact h

theorem joins_parseParameters (seen : LinkParameters) :
    Joins fun text => parseParameters text seen := by
  constructor
  · intro text last rest hread
    have hparameters := parseParameters_iff.mp hread
    clear hread
    induction hparameters with
    | @atEnd text seen h =>
      rw [← h]
      exact passes_skipOws text
    | @atComma text seen rest h =>
      rw [← h]
      exact passes_skipOws text
    | @more text seen next last after rest left h hread hmore ih =>
      have hows := passes_skipOws text
      rw [h] at hows
      exact (hows.trans (passes_cons (by decide) after)).trans
        (((joins_parseParameter seen).passes hread).trans ih)
  · intro text last rest hread more
    have hparameters := parseParameters_iff.mp hread
    clear hread
    refine parseParameters_iff.mpr ?_
    induction hparameters with
    | @atEnd text seen h => exact .atComma (by rw [skipOws_joined, h]; rfl)
    | @atComma text seen rest h => exact .atComma (by rw [skipOws_joined, h]; rfl)
    | @more text seen next last after rest left h hread hmore ih =>
      refine .more (by rw [skipOws_joined, h]; rfl) ?_ ih
      exact (joins_parseParameter seen).extended hread more
  · intro text more last left hread hclosed
    have hparameters := parseParameters_iff.mp hread
    clear hread
    suffices ∃ rest, left = joined rest more ∧ Parameters text seen last rest by
      obtain ⟨rest, hleft, h⟩ := this
      exact ⟨rest, hleft, parseParameters_iff.mpr h⟩
    generalize hwhole : joined text more = whole at hparameters
    induction hparameters generalizing text with
    | @atEnd _ seen h =>
      rw [← hwhole, skipOws_joined, joined] at h
      exact absurd h (by simp)
    | @atComma _ seen rest h =>
      rw [← hwhole, skipOws_joined] at h
      match htext : skipOws text with
      | [] =>
        rw [htext] at h
        exact ⟨[], h.symm, .atEnd htext⟩
      | b :: after =>
        rw [htext] at h
        obtain ⟨rfl, rfl⟩ := List.cons.inj h
        exact ⟨byte ',' :: after, rfl, .atComma htext⟩
    | @more _ seen next last after rest left h hread hmore ih =>
      rw [← hwhole, skipOws_joined] at h
      have hows := passes_skipOws text
      match htext : skipOws text with
      | [] =>
        rw [htext] at h
        exact absurd (List.cons.inj h).1 (by decide)
      | b :: own =>
        rw [htext] at h hows
        obtain ⟨rfl, rfl⟩ := List.cons.inj h
        have hown := hows.trans (passes_cons (by decide) own)
        rw [hown.endsQuoted] at hclosed
        obtain ⟨later, rfl, hlater⟩ := (joins_parseParameter seen).restricted hread hclosed
        rw [((joins_parseParameter seen).passes hlater).endsQuoted] at hclosed
        obtain ⟨last, rfl, hlast⟩ := ih hclosed rfl
        exact ⟨last, rfl, .more htext hlater hlast⟩

/-- The target of a link value. -/
def parseTarget (text : Bytes) : Option (Bytes × Bytes) :=
  match text with
  | [] => none
  | b :: rest =>
    if b != byte '<' then none
    else (cut [byte '>'] rest).bind fun halves =>
      if !isValidUriReference halves.1 then none else some halves

theorem parseTarget_eq_some {text target rest : Bytes} :
    parseTarget text = some (target, rest) ↔
      text = byte '<' :: (target ++ byte '>' :: rest) ∧ byte '>' ∉ target ∧
        isValidUriReference target = true := by
  constructor
  · intro h
    match text with
    | [] => cases h
    | b :: text =>
      rw [parseTarget] at h
      split at h
      · cases h
      · rename_i hb
        rw [bne_iff_ne, Decidable.not_not] at hb
        subst hb
        obtain ⟨halves, hcut, h⟩ := Option.bind_eq_some_iff.mp h
        split at h
        · cases h
        · rename_i hvalid
          obtain rfl := Option.some.inj h
          rcases cut_cases (byte '>') text with ⟨-, hnone⟩ | ⟨before, after, rfl, hnot, hsome⟩
          · rw [hnone] at hcut
            cases hcut
          · rw [hsome] at hcut
            obtain ⟨rfl, rfl⟩ := Prod.mk.inj (Option.some.inj hcut)
            exact ⟨rfl, hnot, by simpa using hvalid⟩
  · rintro ⟨rfl, hnot, hvalid⟩
    rw [parseTarget, if_neg (by decide), cut_append hnot, Option.bind_some,
      if_neg (by simp [hvalid])]

theorem joins_parseTarget : Joins parseTarget := by
  constructor
  · intro text target rest hread
    obtain ⟨rfl, hnot, -⟩ := parseTarget_eq_some.mp hread
    refine ⟨byte '<' :: (target ++ [byte '>']), by simp, ?_⟩
    have hinside : target.foldl Place.step .target = .target := by
      clear hread
      induction target with
      | nil => rfl
      | cons b target ih =>
        rw [List.mem_cons, not_or] at hnot
        have hstep : Place.step .target b = .target := if_neg (by simpa using Ne.symm hnot.1)
        rw [List.foldl_cons, hstep]
        exact ih hnot.2
    rw [List.foldl_cons, show Place.step .outside (byte '<') = .target from rfl, List.foldl_append,
      hinside]
    rfl
  · intro text target rest hread more
    obtain ⟨rfl, hnot, hvalid⟩ := parseTarget_eq_some.mp hread
    refine parseTarget_eq_some.mpr ⟨?_, hnot, hvalid⟩
    simp [joined]
  · intro text more target left hread _
    obtain ⟨hwhole, hnot, hvalid⟩ := parseTarget_eq_some.mp hread
    match text with
    | [] => exact absurd (List.cons.inj hwhole).1 (by decide)
    | b :: text =>
      obtain ⟨rfl, -⟩ := List.cons.inj hwhole
      have htail : text ++ ([byte ',', byte ' '] ++ more) = target ++ byte '>' :: left :=
        (List.cons.inj hwhole).2
      by_cases hclose : byte '>' ∈ text
      · obtain ⟨before, after, rfl, hbefore⟩ := List.eq_append_cons_of_mem hclose
        rw [List.append_assoc, List.cons_append] at htail
        obtain ⟨rfl, rfl⟩ := cut_unique hbefore hnot htail
        exact ⟨after, rfl, parseTarget_eq_some.mpr ⟨rfl, hbefore, hvalid⟩⟩
      · -- The target would go on past the space between the fields.
        have hcut := cut_append hnot left
        rw [← htail, cut_append_left hclose, cut_append_left (by decide), Option.map_map] at hcut
        obtain ⟨halves, -, heq⟩ := Option.map_eq_some_iff.mp hcut
        refine absurd ?_ (Uri.space_not_mem hvalid)
        rw [← (Prod.mk.inj heq).1]
        simp

/-- What a link value is visited with, once its parameters are read. -/
def visitOf (target : Bytes) (seen : LinkParameters) : Option (Bytes × Bool) :=
  if !seen.sawRel then none else some (target, seen.hasNextRelation && !seen.sawAnchor)

theorem parseLinkValue_eq (text : Bytes) :
    parseLinkValue text = (parseTarget (skipOws text)).bind fun target =>
      (parseParameters target.2 LinkParameters.none).bind fun read =>
        (visitOf target.1 read.1).map fun visit => (visit, read.2) := by
  rw [parseLinkValue]
  generalize skipOws text = word
  cases word with
  | nil => rfl
  | cons b rest =>
    dsimp only
    rw [parseTarget]
    split
    · rfl
    · cases cut [byte '>'] rest with
      | none => rfl
      | some halves =>
        rw [Option.bind_some, Option.bind_some]
        split
        · rfl
        · rw [Option.bind_some]
          congr 1
          funext read
          rw [visitOf]
          split <;> rfl

theorem joins_parseLinkValue : Joins parseLinkValue := by
  rw [funext parseLinkValue_eq]
  exact (joins_parseTarget.bind fun target =>
    (joins_parseParameters LinkParameters.none).note (visitOf target)).after_ows

-- ---------------------------------------------------------------------------
-- One field
-- ---------------------------------------------------------------------------

theorem passes_emptyElements (text : Bytes) : Passes text (emptyElements text).2 := by
  induction text with
  | nil => exact Passes.refl _
  | cons b text ih =>
    rw [emptyElements]
    split
    · rename_i hows
      have hplain : b ≠ byte '"' ∧ b ≠ byte '<' := by
        constructor <;> (rintro rfl; exact absurd hows (by decide))
      exact (passes_cons hplain text).trans ih
    split
    · rename_i hcomma
      rw [beq_iff_eq] at hcomma
      subst hcomma
      exact (passes_cons (by decide) text).trans ih
    · exact Passes.refl _

theorem emptyElements_eq_nil {text : Bytes} (h : skipOws text = []) :
    emptyElements text = (0, []) := by
  induction text with
  | nil => rfl
  | cons b text ih =>
    rw [skipOws, List.dropWhile_cons] at h
    split at h
    · rename_i hows
      rw [emptyElements, if_pos hows]
      exact ih h
    · cases h

/-- Joining puts one more comma after the empty elements that a field ends with. -/
theorem emptyElements_joined (text more : Bytes) :
    emptyElements (joined text more) =
      if (emptyElements text).2 = [] then
        ((emptyElements text).1 + 1 + (emptyElements more).1, (emptyElements more).2)
      else ((emptyElements text).1, joined (emptyElements text).2 more) := by
  induction text with
  | nil =>
    have hstart : emptyElements (joined [] more) =
        ((emptyElements more).1 + 1, (emptyElements more).2) := rfl
    rw [hstart, show emptyElements [] = (0, []) from rfl, if_pos rfl]
    exact Prod.ext (by dsimp only; omega) rfl
  | cons b text ih =>
    rw [joined_cons, emptyElements, emptyElements]
    by_cases hows : isOws b = true
    · rw [if_pos hows, if_pos hows, ih]
    rw [if_neg hows, if_neg hows]
    by_cases hcomma : (b == byte ',') = true
    · rw [if_pos hcomma, if_pos hcomma, ih]
      split
      · exact Prod.ext (by dsimp only; omega) rfl
      · rfl
    · rw [if_neg hcomma, if_neg hcomma]
      rfl

theorem values_passes {text : Bytes} {visits : List (Bytes × Bool)} {count : Nat}
    (h : Values text visits count) : endsQuoted text = false := by
  have hend {rest : Bytes} (hrest : skipOws rest = []) : endsQuoted rest = false := by
    rw [(passes_skipOws rest).endsQuoted, hrest]
    rfl
  induction h with
  | none => rfl
  | last h hrest =>
    rw [(joins_parseLinkValue.passes h).endsQuoted]
    exact hend hrest
  | @trailing text visit rest after h hcomma hafter =>
    have hpass := passes_skipOws rest
    rw [hcomma] at hpass
    rw [(joins_parseLinkValue.passes h).endsQuoted,
      (hpass.trans (passes_cons (by decide) after)).endsQuoted]
    exact hend hafter
  | @more text visit rest after visits count h hcomma hafter hmore ih =>
    have hpass := passes_skipOws rest
    rw [hcomma] at hpass
    rw [(joins_parseLinkValue.passes h).endsQuoted,
      (hpass.trans (passes_cons (by decide) after)).endsQuoted,
      (passes_emptyElements after).endsQuoted]
    exact ih

/-- A field that is read leaves no quoted string open. -/
theorem Field.closed {field : Bytes} {visits : List (Bytes × Bool)} {count : Nat}
    (h : Field field visits count) : endsQuoted field = false := by
  obtain ⟨_, hvalues, -⟩ := h
  rw [(passes_emptyElements field).endsQuoted]
  exact values_passes hvalues

/-- The values of a field, and after them those of the fields joined to it. -/
theorem Values.join {text more : Bytes} {visits later : List (Bytes × Bool)} {count total : Nat}
    (h : Values text visits count) (hsome : text ≠ []) (hmore : Field more later total) :
    ∃ sum, Values (joined text more) (visits ++ later) sum ∧ count + total ≤ sum ∧
      sum ≤ count + total + 1 := by
  obtain ⟨rest, hlater, rfl⟩ := hmore
  have hspace : skipOws (byte ' ' :: more) = skipOws more := rfl
  have hempty : emptyElements (byte ' ' :: more) = emptyElements more := rfl
  -- On the values of the first text; its last one decides how the comma between the two is
  -- read.
  induction h with
  | none => exact absurd rfl hsome
  | @last text visit left h hend =>
    have hread := joins_parseLinkValue.extended h more
    have hcomma : skipOws (joined left more) = byte ',' :: byte ' ' :: more := by
      rw [skipOws_joined, hend]
      rfl
    by_cases hnothing : skipOws more = []
    · rw [emptyElements_eq_nil hnothing] at hlater ⊢
      cases hlater with
      | none => exact ⟨1, .trailing hread hcomma hnothing, by omega, by omega⟩
      | last h => cases h
      | trailing h => cases h
      | more h => cases h
    · exact ⟨_, .more hread hcomma hnothing hlater, by rw [hempty]; omega, by rw [hempty]; omega⟩
  | @trailing text visit left after h hcomma hend =>
    have hread := joins_parseLinkValue.extended h more
    have hnext : skipOws (joined left more) = byte ',' :: joined after more := by
      rw [skipOws_joined, hcomma]
      rfl
    have hgoes : skipOws (joined after more) ≠ [] := by
      rw [skipOws_joined, hend]
      exact List.cons_ne_nil _ _
    have helements : emptyElements (joined after more) =
        (0 + 1 + (emptyElements more).1, (emptyElements more).2) := by
      rw [emptyElements_joined, emptyElements_eq_nil hend, if_pos rfl]
    refine ⟨_, .more hread hnext hgoes (by rw [helements]; exact hlater), ?_, ?_⟩ <;>
      (rw [helements]; dsimp only; omega)
  | @more text visit left after visits count h hcomma hend hvalues ih =>
    have hread := joins_parseLinkValue.extended h more
    have hnext : skipOws (joined left more) = byte ',' :: joined after more := by
      rw [skipOws_joined, hcomma]
      rfl
    have hgoes : skipOws (joined after more) ≠ [] := by
      rw [skipOws_joined, joined]
      simp
    by_cases hlast : (emptyElements after).2 = []
    · rw [hlast] at hvalues
      have helements : emptyElements (joined after more) =
          ((emptyElements after).1 + 1 + (emptyElements more).1, (emptyElements more).2) := by
        rw [emptyElements_joined, if_pos hlast]
      cases hvalues with
      | none =>
        refine ⟨_, .more hread hnext hgoes (by rw [helements]; exact hlater), ?_, ?_⟩ <;>
          (rw [helements]; dsimp only; omega)
      | last h => cases h
      | trailing h => cases h
      | more h => cases h
    · obtain ⟨sum, hsum, hlow, hhigh⟩ := ih hlast
      have helements : emptyElements (joined after more) =
          ((emptyElements after).1, joined (emptyElements after).2 more) := by
        rw [emptyElements_joined, if_neg hlast]
      refine ⟨_, .more hread hnext hgoes (by rw [helements]; exact hsum), ?_, ?_⟩ <;>
        (rw [helements]; dsimp only; omega)

/-- What is read of a field and others joined to it is read of the field, and of the others. -/
theorem Values.split {text more : Bytes} {visits : List (Bytes × Bool)} {sum : Nat}
    (h : Values (joined text more) visits sum) (hclosed : endsQuoted text = false) :
    ∃ own later count total, visits = own ++ later ∧ Values text own count ∧
      Field more later total ∧ count + total ≤ sum := by
  have hspace : skipOws (byte ' ' :: more) = skipOws more := rfl
  have hempty : emptyElements (byte ' ' :: more) = emptyElements more := rfl
  generalize hwhole : joined text more = whole at h
  -- On the values of the joined text. The comma that joins the two is met between values, as a
  -- closed text ends outside quotes.
  induction h generalizing text with
  | none => exact absurd hwhole (by simp [joined])
  | last h hend =>
    subst hwhole
    obtain ⟨rest, rfl, -⟩ := joins_parseLinkValue.restricted h hclosed
    rw [skipOws_joined, joined] at hend
    exact absurd hend (by simp)
  | @trailing whole visit left after h hcomma hend =>
    subst hwhole
    obtain ⟨rest, rfl, hread⟩ := joins_parseLinkValue.restricted h hclosed
    rw [skipOws_joined] at hcomma
    match hrest : skipOws rest with
    | [] =>
      rw [hrest] at hcomma
      obtain ⟨-, rfl⟩ := List.cons.inj hcomma
      refine ⟨[visit], [], 0, 0, rfl, .last hread hrest, ⟨0, ?_, ?_⟩, Nat.zero_le 1⟩
      · rw [emptyElements_eq_nil (hspace ▸ hend)]
        exact .none
      · rw [emptyElements_eq_nil (hspace ▸ hend)]
    | b :: own =>
      rw [hrest] at hcomma
      obtain ⟨rfl, rfl⟩ := List.cons.inj hcomma
      rw [show List.append own _ = joined own more from rfl, skipOws_joined, joined] at hend
      exact absurd hend (by simp)
  | @more whole visit left after visits count h hcomma hend hvalues ih =>
    subst hwhole
    obtain ⟨rest, rfl, hread⟩ := joins_parseLinkValue.restricted h hclosed
    rw [skipOws_joined] at hcomma
    rw [(joins_parseLinkValue.passes hread).endsQuoted, (passes_skipOws rest).endsQuoted] at hclosed
    match hrest : skipOws rest with
    | [] =>
      rw [hrest] at hcomma
      obtain ⟨-, rfl⟩ := List.cons.inj hcomma
      rw [hempty] at hvalues
      exact ⟨[visit], visits, 0, _, rfl, .last hread hrest, ⟨count, hvalues, rfl⟩, by
        rw [hempty, Nat.zero_add]⟩
    | b :: own =>
      rw [hrest] at hcomma hclosed
      obtain ⟨rfl, hafter⟩ := List.cons.inj hcomma
      obtain rfl : joined own more = after := hafter
      rw [(passes_cons (by decide) own).endsQuoted, (passes_emptyElements own).endsQuoted]
        at hclosed
      -- Whether the empty elements of the first text run into those of the second.
      by_cases hlast : (emptyElements own).2 = []
      · have helements : emptyElements (joined own more) =
            ((emptyElements own).1 + 1 + (emptyElements more).1, (emptyElements more).2) := by
          rw [emptyElements_joined, if_pos hlast]
        rw [helements] at hvalues ⊢
        have hfield : Field more visits ((emptyElements more).1 + count) := ⟨count, hvalues, rfl⟩
        by_cases hown : skipOws own = []
        · exact ⟨[visit], visits, 1, _, rfl, .trailing hread hrest hown, hfield, by
            dsimp only; omega⟩
        · have hnothing : Values (emptyElements own).2 [] 0 := by
            rw [hlast]
            exact .none
          exact ⟨[visit], visits, _, _, rfl, .more hread hrest hown hnothing, hfield, by
            dsimp only; omega⟩
      · have helements : emptyElements (joined own more) =
            ((emptyElements own).1, joined (emptyElements own).2 more) := by
          rw [emptyElements_joined, if_neg hlast]
        rw [helements] at ih ⊢
        obtain ⟨mine, later, before, total, rfl, hmine, hlater, hle⟩ := ih hclosed rfl
        have hown : skipOws own ≠ [] := by
          intro hnil
          rw [emptyElements_eq_nil hnil] at hlast
          exact hlast rfl
        exact ⟨visit :: mine, later, _, total, rfl, .more hread hrest hown hmine, hlater, by
          dsimp only; omega⟩

/-- Reading two fields, and reading them joined. -/
theorem Field.join {field more : Bytes} {visits later : List (Bytes × Bool)} {count total : Nat}
    (h : Field field visits count) (hmore : Field more later total) :
    ∃ sum, Field (joined field more) (visits ++ later) sum ∧ count + total ≤ sum ∧
      sum ≤ count + total + 1 := by
  obtain ⟨rest, hvalues, rfl⟩ := h
  by_cases hlast : (emptyElements field).2 = []
  · have helements : emptyElements (joined field more) =
        ((emptyElements field).1 + 1 + (emptyElements more).1, (emptyElements more).2) := by
      rw [emptyElements_joined, if_pos hlast]
    obtain ⟨after, hafter, rfl⟩ := hmore
    rw [hlast] at hvalues
    cases hvalues with
    | none =>
      refine ⟨_, ⟨after, by rw [helements]; exact hafter, rfl⟩, ?_, ?_⟩ <;>
        (rw [helements]; dsimp only; omega)
    | last h => cases h
    | trailing h => cases h
    | more h => cases h
  · have helements : emptyElements (joined field more) =
        ((emptyElements field).1, joined (emptyElements field).2 more) := by
      rw [emptyElements_joined, if_neg hlast]
    obtain ⟨sum, hsum, hlow, hhigh⟩ := hvalues.join hlast hmore
    refine ⟨_, ⟨sum, by rw [helements]; exact hsum, rfl⟩, ?_, ?_⟩ <;>
      (rw [helements]; dsimp only; omega)

theorem Field.split {field more : Bytes} {visits : List (Bytes × Bool)} {sum : Nat}
    (h : Field (joined field more) visits sum) (hclosed : endsQuoted field = false) :
    ∃ own later count total, visits = own ++ later ∧ Field field own count ∧
      Field more later total ∧ count + total ≤ sum := by
  obtain ⟨rest, hvalues, rfl⟩ := h
  by_cases hlast : (emptyElements field).2 = []
  · have helements : emptyElements (joined field more) =
        ((emptyElements field).1 + 1 + (emptyElements more).1, (emptyElements more).2) := by
      rw [emptyElements_joined, if_pos hlast]
    rw [helements] at hvalues ⊢
    exact ⟨[], visits, _, _, rfl, ⟨0, by rw [hlast]; exact .none, rfl⟩, ⟨rest, hvalues, rfl⟩, by
      dsimp only; omega⟩
  · have helements : emptyElements (joined field more) =
        ((emptyElements field).1, joined (emptyElements field).2 more) := by
      rw [emptyElements_joined, if_neg hlast]
    rw [helements] at hvalues ⊢
    rw [(passes_emptyElements field).endsQuoted] at hclosed
    obtain ⟨own, later, count, total, rfl, hown, hlater, hle⟩ := hvalues.split hclosed
    exact ⟨own, later, _, total, rfl, ⟨count, hown, rfl⟩, hlater, by dsimp only; omega⟩

-- ---------------------------------------------------------------------------
-- A list of fields
-- ---------------------------------------------------------------------------

/-- The field that combines several. -/
def combine (fields : List Bytes) : Bytes := (ascii ", ").intercalate fields

theorem combine_cons {field : Bytes} {fields : List Bytes} (h : fields ≠ []) :
    combine (field :: fields) = joined field (combine fields) := by
  obtain ⟨next, fields, rfl⟩ := List.exists_cons_of_ne_nil h
  rw [combine, List.intercalate_cons_cons, List.append_assoc, joined]
  rfl

theorem combine_singleton (field : Bytes) : combine [field] = field := by
  rw [combine]
  simp

/-- What a list of fields is read as, the combined field is, with at most one more
empty element between two fields. -/
theorem Fields.combined {fields : List Bytes} {visits : List (Bytes × Bool)} {count : Nat}
    (h : Fields fields visits count) :
    ∃ sum, Field (combine fields) visits sum ∧ count ≤ sum ∧
      sum ≤ count + (fields.length - 1) := by
  induction h with
  | nil => exact ⟨0, ⟨0, .none, rfl⟩, Nat.le_refl 0, Nat.le_refl 0⟩
  | @cons field fields visits later count total h hmore ih =>
    obtain ⟨sum, hsum, hlow, hhigh⟩ := ih
    match fields with
    | [] =>
      cases hmore
      rw [combine_singleton, List.append_nil]
      exact ⟨count, h, by omega, by omega⟩
    | next :: fields =>
      rw [combine_cons (List.cons_ne_nil _ _)]
      obtain ⟨whole, hwhole, hless, hmost⟩ := h.join hsum
      refine ⟨whole, hwhole, by omega, ?_⟩
      rw [List.length_cons, List.length_cons] at *
      omega

/-- What the combined field is read as, the list is if no field ends within a quoted string. -/
theorem Fields.of_combined {fields : List Bytes} {visits : List (Bytes × Bool)} {sum : Nat}
    (h : Field (combine fields) visits sum) (hclosed : ∀ field ∈ fields, endsQuoted field = false) :
    ∃ count ≤ sum, Fields fields visits count := by
  induction fields generalizing visits sum with
  | nil =>
    obtain ⟨_, hvalues, rfl⟩ := h
    cases hvalues with
    | none => exact ⟨0, Nat.zero_le _, .nil⟩
    | last h => cases h
    | trailing h => cases h
    | more h => cases h
  | cons field fields ih =>
    rw [List.forall_mem_cons] at hclosed
    match fields with
    | [] =>
      rw [combine_singleton] at h
      have hfields := Fields.cons h .nil
      rw [List.append_nil, Nat.add_zero] at hfields
      exact ⟨sum, Nat.le_refl sum, hfields⟩
    | next :: fields =>
      rw [combine_cons (List.cons_ne_nil _ _)] at h
      obtain ⟨own, later, count, total, rfl, hown, hlater, hle⟩ := h.split hclosed.1
      obtain ⟨rest, hrest, hfields⟩ := ih hlater hclosed.2
      exact ⟨count + rest, by omega, .cons hown hfields⟩

end Cuac.Runtime.LinkHeader

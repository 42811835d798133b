import Cuac.Connector.YamlComments

/-!
# Connector — the mapping colon

Where the parser looks for the colon of an entry, and what it takes for one, on the
text alone: a colon outside double quotes with the end of the line, a space, a `#` or
a collection behind it. The search goes on through a comment, so a line may have its
only mapping colon there.

Main results:

* `findMappingColon_isSome` — the search finds a colon iff the text has one.
* `ColonInComment.cut` — how a colon in the comment cuts the line.
-/

namespace Cuac.Connector.FailsafeYaml

open Cuac.Lib Cuac.Lib.Json

-- ---------------------------------------------------------------------------
-- What the parser looks at on a line
-- ---------------------------------------------------------------------------

/-- A dash that starts an item. -/
def isDash (content : Bytes) : Bool :=
  match content with
  | [] => false
  | b :: rest => b == byte '-' && (rest.isEmpty || rest.head? == some space)

/-- A flow collection, in which no mapping colon is looked for. -/
def startsCollection (text : Bytes) : Bool :=
  text.head? == some (byte '{') || text.head? == some (byte '[')

/-- Where the parser looks for the mapping colon of a line. -/
def colonText (text : Bytes) : Option Bytes :=
  let content := skipSpaces text
  if isBlank content then none
  else if isDash content then
    let value := skipSpaces content.tail
    if isBlank value || startsCollection value then none else some value
  else some content

/-- Where the parser reads the value of a line. -/
def valueText (text : Bytes) : Option Bytes :=
  let content := skipSpaces text
  if isBlank content then none
  else
    match colonText text with
    | none => some (skipSpaces content.tail)
    | some searched =>
      match findMappingColon searched with
      | some (_, value) => some (skipSpaces value)
      | none => if isDash content then some searched else none

/-- The line ends inside a double-quoted scalar. -/
def insideQuotes (text : Bytes) : Bool :=
  match valueText text with
  | none => false
  | some value => endsQuoted value

/-- The search for the mapping colon goes over `kept` and stops in what follows it. -/
def colonBehind (kept comment : Bytes) : Bool :=
  match colonText kept with
  | none => false
  | some searched =>
    (findMappingColon searched).isNone && (findMappingColon (searched ++ comment)).isSome

-- ---------------------------------------------------------------------------
-- Quotes
-- ---------------------------------------------------------------------------

/-- The inside of a double-quoted scalar. -/
inductive QuotedText : Bytes → Prop
  | nil : QuotedText []
  | plain {b : UInt8} {rest : Bytes} (hquote : b ≠ quote) (hbackslash : b ≠ backslash)
      (hrest : QuotedText rest) : QuotedText (b :: rest)
  | escaped {b : UInt8} {rest : Bytes} (hrest : QuotedText rest) :
      QuotedText (backslash :: b :: rest)

/-- Every quote that the text opens is closed in it. -/
inductive Balanced : Bytes → Prop
  | nil : Balanced []
  | plain {b : UInt8} {rest : Bytes} (hquote : b ≠ quote) (hrest : Balanced rest) :
      Balanced (b :: rest)
  | quoted {inside rest : Bytes} (hinside : QuotedText inside) (hrest : Balanced rest) :
      Balanced (quote :: (inside ++ quote :: rest))

/-- Where a search that starts in `search` is behind the text. -/
def Search.after (search : Search) (text : Bytes) : Search :=
  text.foldl Search.next search

theorem Search.after_cons (search : Search) (b : UInt8) (rest : Bytes) :
    search.after (b :: rest) = (search.next b).after rest := rfl

theorem Search.next_bare {b : UInt8} (h : b ≠ quote) : Search.bare.next b = .bare := by
  simp [Search.next, h]

theorem Search.next_quoted {b : UInt8} (hquote : b ≠ quote) (hbackslash : b ≠ backslash) :
    Search.quoted.next b = .quoted := by
  simp [Search.next, hquote, hbackslash]

theorem QuotedText.after {inside : Bytes} (h : QuotedText inside) (rest : Bytes) :
    Search.quoted.after (inside ++ quote :: rest) = Search.bare.after rest := by
  induction h with
  | nil => rfl
  | plain hquote hbackslash _ ih =>
    rw [List.cons_append, Search.after_cons, Search.next_quoted hquote hbackslash, ih]
  | escaped _ ih => exact ih

theorem Balanced.after {text : Bytes} (h : Balanced text) : Search.bare.after text = .bare := by
  induction h with
  | nil => rfl
  | plain hquote _ ih => rw [Search.after_cons, Search.next_bare hquote, ih]
  | quoted hinside _ ih => exact (hinside.after _).trans ih

/-- A text behind which the search is outside quotes, by where it starts. -/
def Closes : Search → Bytes → Prop
  | .bare, text => Balanced text
  | .quoted, text =>
    ∃ inside rest, text = inside ++ quote :: rest ∧ QuotedText inside ∧ Balanced rest
  | .escaped, text => ∃ b inside rest,
      text = b :: (inside ++ quote :: rest) ∧ QuotedText inside ∧ Balanced rest

theorem closes_of_after {search : Search} {text : Bytes} (h : search.after text = .bare) :
    Closes search text := by
  induction text generalizing search with
  | nil =>
    cases search with
    | bare => exact .nil
    | quoted => cases h
    | escaped => cases h
  | cons b rest ih =>
    have hrest := ih (search.after_cons b rest ▸ h)
    cases search with
    | bare =>
      by_cases hquote : b = quote
      · subst hquote
        obtain ⟨inside, rest, rfl, hinside, hbalanced⟩ := hrest
        exact .quoted hinside hbalanced
      · rw [Search.next_bare hquote] at hrest
        exact .plain hquote hrest
    | quoted =>
      by_cases hbackslash : b = backslash
      · subst hbackslash
        obtain ⟨c, inside, rest, rfl, hinside, hbalanced⟩ := hrest
        exact ⟨backslash :: c :: inside, rest, rfl, .escaped hinside, hbalanced⟩
      · by_cases hquote : b = quote
        · subst hquote
          exact ⟨[], rest, rfl, .nil, hrest⟩
        · rw [Search.next_quoted hquote hbackslash] at hrest
          obtain ⟨inside, rest, rfl, hinside, hbalanced⟩ := hrest
          exact ⟨b :: inside, rest, rfl, .plain hquote hbackslash hinside, hbalanced⟩
    | escaped =>
      obtain ⟨inside, rest, rfl, hinside, hbalanced⟩ := hrest
      exact ⟨b, inside, rest, rfl, hinside, hbalanced⟩

theorem after_eq_bare_iff {text : Bytes} : Search.bare.after text = .bare ↔ Balanced text :=
  ⟨fun h => closes_of_after h, Balanced.after⟩

-- ---------------------------------------------------------------------------
-- Mapping colons
-- ---------------------------------------------------------------------------

/-- A colon that ends a key. -/
structure MappingColon (text before after : Bytes) : Prop where
  cut : text = before ++ byte ':' :: after
  outside : Balanced before
  ends : ∀ b, after.head? = some b → b = space ∨ b = hash ∨ b = byte '[' ∨ b = byte '{'

theorem endsKey_iff {after : Bytes} :
    endsKey after = true ↔
      ∀ b, after.head? = some b → b = space ∨ b = hash ∨ b = byte '[' ∨ b = byte '{' := by
  unfold endsKey
  cases after with
  | nil => simp
  | cons b rest => simp [or_assoc]

theorem mappingColonFrom_eq_some {search : Search} {text before after : Bytes}
    (h : mappingColonFrom search text = some (before, after)) :
    text = before ++ byte ':' :: after ∧ search.after before = .bare ∧ endsKey after = true := by
  induction text generalizing search before with
  | nil => cases h
  | cons b rest ih =>
    rw [mappingColonFrom] at h
    split at h
    · rename_i hfound
      obtain ⟨rfl, rfl⟩ := Prod.mk.inj (Option.some.inj h)
      exact ⟨by rw [hfound.2.1]; rfl, hfound.1, hfound.2.2⟩
    · obtain ⟨⟨before', after'⟩, htail, hcut⟩ := Option.map_eq_some_iff.mp h
      obtain ⟨rfl, rfl⟩ := Prod.mk.inj hcut
      obtain ⟨htext, hsearch, hends⟩ := ih htail
      exact ⟨by rw [htext]; rfl, hsearch, hends⟩

theorem mappingColonFrom_isSome {search : Search} {before after : Bytes}
    (hsearch : search.after before = .bare) (hends : endsKey after = true) :
    (mappingColonFrom search (before ++ byte ':' :: after)).isSome = true := by
  induction before generalizing search with
  | nil =>
    rw [List.nil_append, mappingColonFrom, if_pos ⟨hsearch, rfl, hends⟩]
    rfl
  | cons b before ih =>
    rw [List.cons_append, mappingColonFrom]
    split
    · rfl
    · rw [Option.isSome_map]
      exact ih hsearch

theorem mappingColon_of_find {text before after : Bytes}
    (h : findMappingColon text = some (before, after)) : MappingColon text before after := by
  obtain ⟨htext, hsearch, hends⟩ := mappingColonFrom_eq_some h
  exact ⟨htext, after_eq_bare_iff.mp hsearch, endsKey_iff.mp hends⟩

/-- The search finds a colon iff the text has one. -/
theorem findMappingColon_isSome {text : Bytes} :
    (findMappingColon text).isSome = true ↔ ∃ before after, MappingColon text before after := by
  constructor
  · intro h
    obtain ⟨⟨before, after⟩, hfound⟩ := Option.isSome_iff_exists.mp h
    exact ⟨before, after, mappingColon_of_find hfound⟩
  · rintro ⟨before, after, rfl, houtside, hends⟩
    exact mappingColonFrom_isSome houtside.after (endsKey_iff.mpr hends)

-- ---------------------------------------------------------------------------
-- A colon in a comment
-- ---------------------------------------------------------------------------

/-- The line has a mapping colon with its comment and none without. -/
def ColonInComment (kept body : Bytes) : Prop :=
  ∃ searched, colonText kept = some searched ∧
    (¬∃ before after, MappingColon searched before after) ∧
    ∃ before after, MappingColon (searched ++ hash :: body) before after

variable {kept body : Bytes}

theorem colonBehind_eq_false :
    colonBehind kept (hash :: body) = false ↔ ¬ColonInComment kept body := by
  unfold colonBehind ColonInComment
  cases colonText kept with
  | none => simp
  | some searched =>
    simp only [← findMappingColon_isSome, Option.some.injEq, exists_eq_left']
    cases findMappingColon searched <;> simp

/-- The colon cuts the comment: what is kept of the line and the comment up to the colon
stand before it. -/
theorem ColonInComment.cut (h : ColonInComment kept body) :
    ∃ searched skipped value, colonText kept = some searched ∧
      body = skipped ++ byte ':' :: value ∧ findMappingColon searched = none ∧
      findMappingColon (searched ++ hash :: body) = some (searched ++ hash :: skipped, value) := by
  obtain ⟨searched, hsearched, hnone, hcolon⟩ := h
  obtain ⟨⟨before, value⟩, hfound⟩ :=
    Option.isSome_iff_exists.mp (findMappingColon_isSome.mpr hcolon)
  obtain ⟨htext, houtside, hends⟩ := mappingColon_of_find hfound
  -- a colon in front of the comment would be one without it
  have hbehind : ∃ skipped, before = searched ++ hash :: skipped ∧
      body = skipped ++ byte ':' :: value := by
    rcases List.append_eq_append_iff.mp htext with ⟨front, hbefore, hcomment⟩ | ⟨back, hkept, hvalue⟩
    · cases front with
      | nil => exact absurd (List.cons.inj hcomment).1 (by decide)
      | cons b skipped =>
        obtain ⟨hhash, hbody⟩ := List.cons.inj hcomment
        exact ⟨skipped, by rw [hbefore, hhash], hbody⟩
    · cases back with
      | nil => exact absurd (List.cons.inj hvalue).1 (by decide)
      | cons b after =>
        obtain ⟨hcolon, hrest⟩ := List.cons.inj hvalue
        refine absurd ⟨before, after, ?_, houtside, fun c hc => ?_⟩ hnone
        · rw [hkept, ← hcolon]
        · refine hends c ?_
          cases after with
          | nil => cases hc
          | cons d after =>
            rw [hrest]
            exact hc
  obtain ⟨skipped, rfl, hbody⟩ := hbehind
  refine ⟨searched, skipped, value, hsearched, hbody, ?_, hfound⟩
  rw [← Option.not_isSome_iff_eq_none, findMappingColon_isSome]
  exact hnone

end Cuac.Connector.FailsafeYaml

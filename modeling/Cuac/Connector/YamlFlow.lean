import Cuac.Connector.YamlAcceptance

/-!
# Connector — YAML on one line

What a tree looks like when it is written on one line with double-quoted scalars and
keys. `Flow` relates a tree to its texts; escapes and the spaces between tokens are
free. A text is read part by part: a quoted string is passed over by the search for
the mapping colon, and a value leaves what follows it.

Main results:

* `parseDoubleQuotedScalar_quoted` — a quoted string is read back.
* `findMappingColon_quoted` — the search for the colon passes over it.
* `parseValue_flow` — a flow text is read back as its tree.
-/

namespace Cuac.Connector.FailsafeYaml

open Cuac.Lib Cuac.Lib.Json

-- ---------------------------------------------------------------------------
-- Quoted strings
-- ---------------------------------------------------------------------------

/-- A JSON string and what it stands for. -/
def Quoted (value text : Bytes) : Prop :=
  ∃ inner, Characters inner value ∧ text = quote :: (inner ++ [quote])

/-- The loop over a hexadecimal escape reads exactly `count` digits and folds them into the
code. -/
theorem hexEscapeFrom_digits {begins : Place} {count code : Nat} {digits : Bytes}
    (hlength : digits.length = count) (hhex : ∀ b ∈ digits, isHexDigit b = true) (rest : Bytes) :
    hexEscapeFrom begins count code (digits ++ rest) =
      .ok (digits.foldl (fun seen b => seen * 16 + ((hexValue b).getD 0).toNat) code, rest) := by
  induction digits generalizing count code with
  | nil =>
    obtain rfl := hlength
    rfl
  | cons digit digits ih =>
    obtain rfl := hlength
    obtain ⟨value, hvalue⟩ := Option.isSome_iff_exists.mp (hhex digit List.mem_cons_self)
    have hbound : ∀ b : UInt8, ((hexValue b).getD 0).toNat < 16 := forall_byte (by decide)
    have hsmall := hbound digit
    rw [hvalue, Option.getD_some] at hsmall
    have hor : (code <<< 4) ||| value.toNat = code * 16 + value.toNat := by
      rw [← Nat.shiftLeft_add_eq_or_of_lt (i := 4) hsmall, Nat.shiftLeft_eq]
    rw [List.cons_append, List.length_cons, hexEscapeFrom, hvalue]
    dsimp only
    rw [hor, ih rfl fun b hb => hhex b (List.mem_cons_of_mem _ hb), List.foldl_cons, hvalue,
      Option.getD_some]

/-- Four hexadecimal digits in front of any rest are read as the code unit they spell. -/
theorem readHexEscape_codeUnit {begins : Place} {digits : Bytes} {unit : Nat}
    (h : CodeUnit digits unit) (rest : Bytes) :
    readHexEscape begins (digits ++ rest) = .ok (unit, rest) := by
  obtain ⟨hlength, hhex, hvalue⟩ := h
  rw [readHexEscape, if_neg (by rw [List.length_append]; omega),
    hexEscapeFrom_digits hlength hhex]
  rw [hexNumber] at hvalue
  rw [hvalue]

/-- A code unit outside the surrogates is read as the code point it is. -/
theorem readUnicodeEscape_unit {begins : Place} {digits : Bytes} {unit : Nat}
    (h : CodeUnit digits unit) (hhigh : ¬IsHighSurrogate unit) (hlow : ¬IsLowSurrogate unit)
    (rest : Bytes) : readUnicodeEscape begins (digits ++ rest) = .ok (unit, rest) := by
  rw [readUnicodeEscape, readHexEscape_codeUnit h]
  show (if _ then _ else _) = _
  rw [if_neg (by simpa [IsHighSurrogate] using hhigh),
    if_neg (by simpa [IsLowSurrogate] using hlow)]

/-- A high surrogate is read together with the escaped low surrogate behind it. -/
theorem readUnicodeEscape_pair {begins : Place} {first second : Bytes} {high low : Nat}
    (hfirst : CodeUnit first high) (hsecond : CodeUnit second low) (hhigh : IsHighSurrogate high)
    (hlow : IsLowSurrogate low) (rest : Bytes) :
    readUnicodeEscape begins (first ++ backslash :: byte 'u' :: (second ++ rest)) =
      .ok (combine high low, rest) := by
  have hnot : ¬(low < 0xDC00 || 0xDFFF < low) = true := by
    simp only [Bool.or_eq_true, decide_eq_true_eq, not_or]
    exact ⟨Nat.not_lt.mpr hlow.1, Nat.not_lt.mpr hlow.2⟩
  rw [readUnicodeEscape, readHexEscape_codeUnit hfirst]
  show (if _ then _ else _) = _
  rw [if_pos (by simpa [IsHighSurrogate] using hhigh)]
  dsimp only
  rw [if_neg (by simp), readHexEscape_codeUnit hsecond]
  show (if _ then _ else _) = _
  rw [if_neg hnot]

/-- A one-letter escape stands for one byte. -/
theorem readEscape_short {begins : Place} {escape c : UInt8} (h : shortEscape escape = some c)
    (rest : Bytes) : readEscape begins escape rest = .ok ([c], rest) := by
  unfold shortEscape at h
  unfold readEscape
  repeat' split at h
  all_goals first
    | (obtain rfl := Option.some.inj h; simp_all)
    | cases h

theorem readEscape_u {begins : Place} (rest : Bytes) :
    readEscape begins (byte 'u') rest =
      readUnicodeEscape begins rest >>= fun read => .ok (Utf8.encode read.1, read.2) := rfl

section Strings

variable {limits : Limits}

/-- A scalar that stays within the limit may grow. -/
theorem checkScalarAppend_of_le {place : Place} {retained additional : Nat}
    (h : retained + additional ≤ limits.maxScalarBytes) :
    checkScalarAppend limits place retained additional = .ok () := by
  rw [checkScalarAppend, if_neg]
  simp only [Bool.or_eq_true, decide_eq_true_eq, not_or]
  omega

/-- The loop goes on from `value` over `input` to `read`, wherever the scalar begins and
however many turns the loop has. -/
def Loops (limits : Limits) (value input : Bytes) (read : Bytes × Bytes) : Prop :=
  ∀ begins turns, input.length ≤ turns → quotedLoop limits begins turns value input = .ok read

/-- Bytes that need no escape are taken over one by one, in front of what the loop reads next. -/
theorem Loops.inner {value bytes input : Bytes} {read : Bytes × Bytes}
    (hnext : Loops limits (value ++ bytes) input read) (hbytes : ∀ b ∈ bytes, IsInner b)
    (hfits : (value ++ bytes).length ≤ limits.maxScalarBytes) :
    Loops limits value (bytes ++ input) read := by
  induction bytes generalizing value with
  | nil =>
    rw [List.append_nil] at hnext
    exact hnext
  | cons b bytes ih =>
    intro begins turns hturns
    have hsplit : value ++ b :: bytes = value ++ [b] ++ bytes := by simp
    obtain ⟨hquote, hcontrol, hslash⟩ := hbytes b List.mem_cons_self
    rw [hsplit] at hnext hfits
    rw [List.cons_append, List.length_cons] at hturns
    cases turns with
    | zero => omega
    | succ turns =>
      have hroom : value.length + 1 ≤ limits.maxScalarBytes := by
        simp only [List.length_append, List.length_singleton] at hfits
        omega
      have htail := ih hnext (fun c hc => hbytes c (List.mem_cons_of_mem _ hc)) hfits begins
        turns (by omega)
      rw [List.cons_append]
      unfold quotedLoop
      rw [if_neg (by simpa using hquote), if_neg hcontrol, if_pos (by simpa using hslash),
        checkScalarAppend_of_le hroom]
      exact htail

/-- An escape that is read as `meaning` moves the loop past it with `meaning` retained. -/
theorem Loops.escape {value meaning text input : Bytes} {escape : UInt8} {read : Bytes × Bytes}
    (hnext : Loops limits (value ++ meaning) input read)
    (hescape : ∀ begins, readEscape begins escape (text ++ input) = .ok (meaning, input))
    (hfits : (value ++ meaning).length ≤ limits.maxScalarBytes) :
    Loops limits value (backslash :: escape :: text ++ input) read := by
  intro begins turns hturns
  rw [List.length_append] at hfits
  simp only [List.cons_append, List.length_cons, List.length_append] at hturns
  cases turns with
  | zero => omega
  | succ turns =>
    rw [List.cons_append, List.cons_append, quotedLoop, hescape]
    show (checkScalarAppend limits begins value.length meaning.length >>= _) = _
    rw [checkScalarAppend_of_le hfits]
    exact hnext begins turns (by omega)

/-- One character of a quoted scalar, plain or escaped, moves the loop past its text. -/
theorem Loops.character {text meaning value input : Bytes} {read : Bytes × Bytes}
    (h : Character text meaning) (hnext : Loops limits (value ++ meaning) input read)
    (hfits : (value ++ meaning).length ≤ limits.maxScalarBytes) :
    Loops limits value (text ++ input) read := by
  cases h with
  | plain hscalar hcontrol hquote hslash =>
    exact hnext.inner (isInner_of_plain hscalar hcontrol hquote hslash) hfits
  | escape hc => exact hnext.escape (fun _ => readEscape_short hc _) hfits
  | unicode hdigits hhigh hlow =>
    refine hnext.escape (fun begins => ?_) hfits
    rw [readEscape_u, readUnicodeEscape_unit hdigits hhigh hlow]
    rfl
  | pair hfirst hsecond hhigh hlow =>
    refine hnext.escape (fun begins => ?_) hfits
    rw [readEscape_u, List.append_assoc, List.cons_append, List.cons_append,
      readUnicodeEscape_pair hfirst hsecond hhigh hlow]
    rfl

/-- The loop reads a quoted text up to the closing quote and retains what it means. -/
theorem Loops.characters {inner meaning value : Bytes} (h : Characters inner meaning)
    (hfits : (value ++ meaning).length ≤ limits.maxScalarBytes) (rest : Bytes) :
    Loops limits value (inner ++ quote :: rest) (value ++ meaning, rest) := by
  induction h generalizing value with
  | nil =>
    intro begins turns hturns
    cases turns with
    | zero => simp at hturns
    | succ turns =>
      rw [List.append_nil] at hfits ⊢
      rw [List.nil_append]
      unfold quotedLoop
      rw [if_pos (beq_self_eq_true quote), checkScalarSize, if_neg (by omega)]
      rfl
  | @cons text piece more tail hcharacter _ ih =>
    rw [← List.append_assoc] at hfits ⊢
    rw [List.append_assoc]
    refine Loops.character hcharacter (ih hfits) ?_
    rw [List.length_append] at hfits
    omega

/-- A quoted string is read back. -/
theorem parseDoubleQuotedScalar_quoted {value text : Bytes} (h : Quoted value text)
    (hfits : value.length ≤ limits.maxScalarBytes) (rest : Bytes) :
    parseDoubleQuotedScalar limits (text ++ rest) = .ok (value, rest) := by
  obtain ⟨inner, hcharacters, rfl⟩ := h
  have hloop : Loops limits [] (inner ++ quote :: rest) (value, rest) :=
    @Loops.characters limits inner value [] hcharacters hfits rest
  rw [List.cons_append, List.append_assoc]
  exact hloop _ _ (Nat.le_refl _)

end Strings

-- ---------------------------------------------------------------------------
-- The mapping colon
-- ---------------------------------------------------------------------------

/-- The search goes over a text without looking at its bytes. -/
inductive Passes : Search → Bytes → Search → Prop
  | nil {search : Search} : Passes search [] search
  | cons {search last : Search} {b : UInt8} {text : Bytes} : search ≠ .bare →
      Passes (search.next b) text last → Passes search (b :: text) last

/-- Passing over a text is passing over its two halves in turn. -/
theorem Passes.append {first second third : Search} {a b : Bytes} (ha : Passes first a second)
    (hb : Passes second b third) : Passes first (a ++ b) third := by
  induction ha with
  | nil => exact hb
  | cons hsearch _ ih => exact .cons hsearch (ih hb)

/-- A text that the search passes over is put back in front of whatever cut is found behind it. -/
theorem mappingColonFrom_passes {first last : Search} {text : Bytes} (h : Passes first text last)
    (rest : Bytes) :
    mappingColonFrom first (text ++ rest) =
      (mappingColonFrom last rest).map fun cut => (text ++ cut.1, cut.2) := by
  induction h with
  | nil => simp
  | cons hsearch _ ih =>
    rw [List.cons_append, mappingColonFrom, if_neg fun hbare => hsearch hbare.1, ih,
      Option.map_map]
    rfl

/-- Inside quotes the search passes over bytes that are neither a quote nor a backslash. -/
theorem passes_inner {bytes : Bytes} (h : ∀ b ∈ bytes, IsInner b) :
    Passes .quoted bytes .quoted := by
  induction bytes with
  | nil => exact .nil
  | cons b bytes ih =>
    obtain ⟨hquote, -, hslash⟩ := h b List.mem_cons_self
    have hnext : Search.next .quoted b = .quoted := by
      simp [Search.next, hquote, hslash]
    refine .cons (by decide) ?_
    rw [hnext]
    exact ih fun c hc => h c (List.mem_cons_of_mem _ hc)

/-- A backslash takes the byte behind it along, so an escaped quote does not close the text. -/
theorem passes_escape {escape : UInt8} {text : Bytes} (h : Passes .quoted text .quoted) :
    Passes .quoted (backslash :: escape :: text) .quoted :=
  .cons (by decide) (.cons (by decide) h)

/-- The search stays inside the quotes over one character of a quoted scalar. -/
theorem passes_character {text meaning : Bytes} (h : Character text meaning) :
    Passes .quoted text .quoted := by
  have hdigits {digits : Bytes} {unit : Nat} (h : CodeUnit digits unit) :
      Passes .quoted digits .quoted :=
    passes_inner fun b hb => isInner_of_hexDigit (h.2.1 b hb)
  cases h with
  | plain hscalar hcontrol hquote hslash =>
    exact passes_inner (isInner_of_plain hscalar hcontrol hquote hslash)
  | escape => exact passes_escape .nil
  | unicode h => exact passes_escape (hdigits h)
  | pair hfirst hsecond =>
    exact passes_escape ((hdigits hfirst).append (passes_escape (hdigits hsecond)))

/-- The search stays inside the quotes up to the closing one. -/
theorem passes_characters {inner meaning : Bytes} (h : Characters inner meaning) :
    Passes .quoted inner .quoted := by
  induction h with
  | nil => exact .nil
  | cons hcharacter _ ih => exact (passes_character hcharacter).append ih

/-- A quoted string hides its bytes from the search for the colon. -/
theorem findMappingColon_quoted {value text : Bytes} (h : Quoted value text) (rest : Bytes) :
    findMappingColon (text ++ rest) =
      (mappingColonFrom .bare rest).map fun cut => (text ++ cut.1, cut.2) := by
  obtain ⟨inner, hcharacters, rfl⟩ := h
  have hclose : Passes .quoted (inner ++ [quote]) .bare :=
    (passes_characters hcharacters).append (.cons (by decide) .nil)
  have hopen : Search.next .bare quote = .quoted := rfl
  rw [findMappingColon, List.cons_append, mappingColonFrom,
    if_neg fun hcolon => absurd hcolon.2.1 (by decide), hopen, mappingColonFrom_passes hclose,
    Option.map_map]
  rfl

/-- A quoted key is cut at the colon behind it, whatever colons it holds itself. -/
theorem findMappingColon_key {key text suffix : Bytes} (h : Quoted key text)
    (hends : endsKey suffix = true) :
    findMappingColon (text ++ byte ':' :: suffix) = some (text, suffix) := by
  rw [findMappingColon_quoted h, mappingColonFrom, if_pos ⟨rfl, rfl, hends⟩]
  simp

/-- A quoted scalar alone on a line has no mapping colon. -/
theorem findMappingColon_scalar {value text : Bytes} (h : Quoted value text) :
    findMappingColon text = none := by
  have hnone := findMappingColon_quoted h []
  rwa [List.append_nil] at hnone

-- ---------------------------------------------------------------------------
-- Flow texts
-- ---------------------------------------------------------------------------

/-- Any number of spaces. -/
def IsGap (gap : Bytes) : Prop :=
  ∀ b ∈ gap, isSpace b = true

/-- What a piece of flow text stands for: a node, the values of a sequence, or the entries
of a mapping. -/
inductive Piece
  | node (node : Node)
  | values (values : List Node)
  | entries (entries : List (Bytes × Node))

/-- The texts of a tree on one line. The values of a sequence and the entries of a
mapping go up to the closing byte. -/
inductive Flow : Piece → Bytes → Prop
  | scalar {value text : Bytes} : Quoted value text →
      Flow (.node (.scalar value .doubleQuoted)) text
  | emptySequence {gap : Bytes} : IsGap gap →
      Flow (.node (.sequence [])) (byte '[' :: (gap ++ [byte ']']))
  | sequence {values : List Node} {gap inner : Bytes} : IsGap gap → Flow (.values values) inner →
      Flow (.node (.sequence values)) (byte '[' :: (gap ++ (inner ++ [byte ']'])))
  | emptyMapping {gap : Bytes} : IsGap gap →
      Flow (.node (.mapping [])) (byte '{' :: (gap ++ [byte '}']))
  | mapping {entries : List (Bytes × Node)} {gap inner : Bytes} : IsGap gap →
      Flow (.entries entries) inner →
      Flow (.node (.mapping entries)) (byte '{' :: (gap ++ (inner ++ [byte '}'])))
  | lastValue {value : Node} {text gap : Bytes} : Flow (.node value) text → IsGap gap →
      Flow (.values [value]) (text ++ gap)
  | value {value : Node} {values : List Node} {text before after more : Bytes} :
      Flow (.node value) text → IsGap before → IsGap after → Flow (.values values) more →
      Flow (.values (value :: values)) (text ++ (before ++ byte ',' :: (after ++ more)))
  | lastEntry {key keyText : Bytes} {value : Node} {before after text gap : Bytes} :
      Quoted key keyText → IsGap before → IsGap after → Flow (.node value) text → IsGap gap →
      Flow (.entries [(key, value)])
        (keyText ++ (before ++ byte ':' :: (after ++ (text ++ gap))))
  | entry {key keyText : Bytes} {value : Node} {entries : List (Bytes × Node)}
      {before after text gap next more : Bytes} :
      Quoted key keyText → IsGap before → IsGap after → Flow (.node value) text → IsGap gap →
      IsGap next → Flow (.entries entries) more →
      Flow (.entries ((key, value) :: entries))
        (keyText ++ (before ++ byte ':' :: (after ++ (text ++ (gap ++ byte ',' :: (next ++ more))))))

/-- The bytes at which a rendered piece can start. -/
def startsFlow (b : UInt8) : Bool :=
  b == quote || b == byte '[' || b == byte '{'

/-- A quoted text starts with its quote. -/
theorem Quoted.head {value text : Bytes} (h : Quoted value text) :
    ∃ tail, text = quote :: tail := by
  obtain ⟨inner, -, rfl⟩ := h
  exact ⟨_, rfl⟩

/-- A piece of flow text starts with a quote or an opening bracket, never with a space. -/
theorem Flow.head {piece : Piece} {text : Bytes} (h : Flow piece text) :
    ∃ b tail, startsFlow b = true ∧ text = b :: tail := by
  induction h with
  | scalar h =>
    obtain ⟨tail, rfl⟩ := h.head
    exact ⟨quote, tail, by decide, rfl⟩
  | emptySequence => exact ⟨byte '[', _, by decide, rfl⟩
  | sequence => exact ⟨byte '[', _, by decide, rfl⟩
  | emptyMapping => exact ⟨byte '{', _, by decide, rfl⟩
  | mapping => exact ⟨byte '{', _, by decide, rfl⟩
  | lastValue _ _ ih =>
    obtain ⟨b, tail, hb, rfl⟩ := ih
    exact ⟨b, _, hb, rfl⟩
  | value _ _ _ _ ih _ =>
    obtain ⟨b, tail, hb, rfl⟩ := ih
    exact ⟨b, _, hb, rfl⟩
  | lastEntry hkey =>
    obtain ⟨tail, rfl⟩ := hkey.head
    exact ⟨quote, _, by decide, rfl⟩
  | entry hkey =>
    obtain ⟨tail, rfl⟩ := hkey.head
    exact ⟨quote, _, by decide, rfl⟩

/-- What starts a flow text is no space, no comment and closes nothing. -/
theorem startsFlow_spec {b : UInt8} (h : startsFlow b = true) :
    isSpace b = false ∧ b ≠ hash ∧ b ≠ byte ']' ∧ b ≠ byte '}' ∧ b ≠ 0x09 := by
  have hall : ∀ b : UInt8, startsFlow b = true →
      isSpace b = false ∧ b ≠ hash ∧ b ≠ byte ']' ∧ b ≠ byte '}' ∧ b ≠ 0x09 :=
    forall_byte (by decide)
  exact hall b h

/-- The parser skips exactly a gap when no space follows it. -/
theorem skipSpaces_gap {gap rest : Bytes} (hgap : IsGap gap) (hrest : Stops isSpace rest) :
    skipSpaces (gap ++ rest) = rest :=
  dropWhile_append hgap hrest

/-- The parser skips a gap and stops at the byte that is no space. -/
theorem skipSpaces_cons {b : UInt8} {gap rest : Bytes} (hgap : IsGap gap) (hb : isSpace b = false) :
    skipSpaces (gap ++ b :: rest) = b :: rest :=
  skipSpaces_gap hgap (.cons hb)

/-- No space stands at the start of a piece, so skipping spaces stops in front of it. -/
theorem Flow.stops {piece : Piece} {text : Bytes} (h : Flow piece text) (rest : Bytes) :
    Stops isSpace (text ++ rest) := by
  obtain ⟨b, tail, hb, rfl⟩ := h.head
  exact .cons (startsFlow_spec hb).1

/-- No space stands at the start of a quoted text. -/
theorem Quoted.stops {value text : Bytes} (h : Quoted value text) (rest : Bytes) :
    Stops isSpace (text ++ rest) := by
  obtain ⟨tail, rfl⟩ := h.head
  exact .cons (by decide)

section Reading

variable {limits : Limits} {depth nodes : Nat}

/-- A container below its limit may take one more entry. -/
theorem checkEntry_of_lt {place : Place} {retained : Nat}
    (h : retained < limits.maxContainerEntries) : checkEntry limits place retained = .ok () := by
  rw [checkEntry, if_neg (by omega)]

/-- A node below the limit is counted. -/
theorem consumeNode_of_lt {place : Place} (h : nodes < limits.maxNodes) :
    consumeNode limits place nodes = .ok (nodes + 1) := by
  rw [consumeNode, if_neg (by omega)]

/-- A container within the depth and node limits is counted as one node. -/
theorem reserveContainer_of_le {place : Place} (hdepth : depth ≤ limits.maxDepth)
    (h : nodes < limits.maxNodes) :
    reserveContainer limits place depth nodes = .ok (nodes + 1) := by
  rw [reserveContainer, checkDepth, if_neg (by omega), consumeNode_of_lt h]
  rfl

/-- A key that is new and no merge key is counted as one node. -/
theorem admitKey_of_new {place : Place} {keys : List Bytes} {key : Bytes} (hnew : key ∉ keys)
    (hmerge : key ≠ ascii "<<") (h : nodes < limits.maxNodes) :
    admitKey limits place keys key nodes = .ok (nodes + 1) := by
  rw [admitKey, consumeKey, if_neg hmerge, consumeNode_of_lt h]
  have hcontains : keys.contains key = false := by simpa using hnew
  rw [hcontains]
  rfl

/-- In entries without a repeated key, the key that comes next has not been seen. -/
theorem new_of_nodup {seen entries : List (Bytes × Node)} {key : Bytes} {value : Node}
    (h : ((seen ++ (key, value) :: entries).map Prod.fst).Nodup) : key ∉ seen.map Prod.fst := by
  intro hkey
  rw [List.map_append, List.map_cons, List.nodup_append] at h
  exact h.2.2 key hkey key List.mem_cons_self rfl

/-- A quoted key is read as the key that it quotes. -/
theorem parseMappingKey_quoted {key text : Bytes} (h : Quoted key text)
    (hfits : key.length ≤ limits.maxScalarBytes) (rest : Bytes) :
    parseMappingKey limits (text ++ rest) = .ok (key, rest) := by
  have hskip : skipSpaces (text ++ rest) = text ++ rest :=
    dropWhile_of_stops (h.stops rest)
  have hhead : (text ++ rest).head? = some quote := by
    obtain ⟨tail, rfl⟩ := h.head
    rfl
  rw [parseMappingKey, hskip, hhead, if_pos (by simp), parseDoubleQuotedScalar_quoted h hfits]

/-- The parser reads the texts of a piece back, whatever follows. -/
def FlowParses (limits : Limits) : Piece → Bytes → Prop
  | .node node, text => ∀ flow depth nodes rest turns, Fits limits depth node →
      nodes + node.count ≤ limits.maxNodes → (text ++ rest).length < turns →
      parseValue limits turns flow depth nodes (text ++ rest) =
        .ok (node, nodes + node.count, rest)
  | .values values, text => ∀ depth seen nodes rest turns bound,
      (∀ value ∈ values, Fits limits (depth + 1) value) →
      (seen ++ values).length ≤ limits.maxContainerEntries →
      nodes + countValues values ≤ limits.maxNodes →
      (text ++ byte ']' :: rest).length < turns → (text ++ byte ']' :: rest).length < bound →
      flowValues limits (parseValue limits bound true) depth turns seen nodes
        (text ++ byte ']' :: rest) = .ok (seen ++ values, nodes + countValues values, rest)
  | .entries entries, text => ∀ depth seen nodes rest turns bound,
      (∀ entry ∈ entries, Fits limits (depth + 1) entry.2) →
      (∀ entry ∈ entries, entry.1 ≠ ascii "<<" ∧ entry.1.length ≤ limits.maxScalarBytes) →
      ((seen ++ entries).map Prod.fst).Nodup →
      (seen ++ entries).length ≤ limits.maxContainerEntries →
      nodes + countEntries entries ≤ limits.maxNodes →
      (text ++ byte '}' :: rest).length < turns → (text ++ byte '}' :: rest).length < bound →
      flowEntries limits (parseValue limits bound true) depth turns seen nodes
        (text ++ byte '}' :: rest) = .ok (seen ++ entries, nodes + countEntries entries, rest)

/-- With its spaces skipped, a value is told apart by its first byte. -/
theorem parseValue_cons {turns : Nat} {flow : Bool} {b : UInt8} {tail : Bytes}
    (hspace : isSpace b = false) (hhash : b ≠ hash) :
    parseValue limits (turns + 1) flow depth nodes (b :: tail) =
      if b == byte '[' then
        parseFlowSequence limits (parseValue limits turns true) depth nodes (b :: tail)
      else if b == byte '{' then
        parseFlowMapping limits (parseValue limits turns true) depth nodes (b :: tail)
      else if b == quote then
        scalarNode limits (here (b :: tail)) .doubleQuoted nodes
          (parseDoubleQuotedScalar limits (b :: tail))
      else
        scalarNode limits (here (b :: tail)) .plain nodes
          (parsePlainScalar limits false flow (b :: tail)) := by
  have hskip : skipSpaces (b :: tail) = b :: tail := dropWhile_of_stops (.cons hspace)
  have hblank : isBlank (b :: tail) = false := by simp [isBlank, hhash]
  have hhead (c : UInt8) : ((b :: tail).head? == some c) = (b == c) := rfl
  rw [parseValue, hskip, hblank, if_neg (by simp), hhead, hhead, hhead]

/-- A quoted scalar is read back as itself. -/
theorem flowParses_scalar {value text : Bytes} (h : Quoted value text) :
    FlowParses limits (.node (.scalar value .doubleQuoted)) text := by
  intro flow depth nodes rest turns hfits hnodes hturns
  cases hfits with
  | scalar hlength =>
    have hread := parseDoubleQuotedScalar_quoted h hlength rest
    obtain ⟨tail, rfl⟩ := h.head
    rw [List.cons_append] at hread hturns ⊢
    cases turns with
    | zero => omega
    | succ turns =>
      rw [Node.count] at hnodes ⊢
      rw [parseValue_cons (by decide) (by decide), if_neg (by decide), if_neg (by decide),
        if_pos (by decide), hread, scalarNode]
      show (consumeNode limits _ nodes >>= _) = _
      rw [consumeNode_of_lt (by omega)]
      rfl

/-- A flow sequence, by how its values are read. -/
theorem parseFlowSequence_cons {value : ValueParser} {gap rest : Bytes} (hgap : IsGap gap)
    (hrest : Stops isSpace rest) (hdepth : depth ≤ limits.maxDepth)
    (hnodes : nodes < limits.maxNodes) :
    parseFlowSequence limits value depth nodes (byte '[' :: (gap ++ rest)) =
      if rest.head? == some (byte ']') then .ok (.sequence [], nodes + 1, rest.tail)
      else flowValues limits value depth (rest.length + 1) [] (nodes + 1) rest >>= fun read =>
        .ok (.sequence read.1, read.2.1, read.2.2) := by
  rw [parseFlowSequence, reserveContainer_of_le hdepth hnodes, ok_bind, require, if_neg (by simp),
    ok_bind, skipSpaces_gap hgap hrest]

/-- An opening brace reserves the mapping and enters the loop over its entries. -/
theorem parseFlowMapping_cons {value : ValueParser} {gap rest : Bytes} (hgap : IsGap gap)
    (hrest : Stops isSpace rest) (hdepth : depth ≤ limits.maxDepth)
    (hnodes : nodes < limits.maxNodes) :
    parseFlowMapping limits value depth nodes (byte '{' :: (gap ++ rest)) =
      if rest.head? == some (byte '}') then .ok (.mapping [], nodes + 1, rest.tail)
      else flowEntries limits value depth (rest.length + 1) [] (nodes + 1) rest >>= fun read =>
        .ok (.mapping read.1, read.2.1, read.2.2) := by
  rw [parseFlowMapping, reserveContainer_of_le hdepth hnodes, ok_bind, require, if_neg (by simp),
    ok_bind, skipSpaces_gap hgap hrest]

/-- An empty sequence is read back, whatever gap stands in it. -/
theorem flowParses_emptySequence {gap : Bytes} (hgap : IsGap gap) :
    FlowParses limits (.node (.sequence [])) (byte '[' :: (gap ++ [byte ']'])) := by
  intro flow depth nodes rest turns hfits hnodes hturns
  cases hfits with
  | sequence hdepth =>
    rw [Node.count, countValues] at hnodes ⊢
    have htext : byte '[' :: (gap ++ [byte ']']) ++ rest = byte '[' :: (gap ++ byte ']' :: rest) := by
      simp
    rw [htext] at hturns ⊢
    cases turns with
    | zero => omega
    | succ turns =>
      rw [parseValue_cons (by decide) (by decide), if_pos (by decide),
        parseFlowSequence_cons hgap (.cons (by decide)) hdepth (by omega)]
      rfl

/-- An empty mapping is read back, whatever gap stands in it. -/
theorem flowParses_emptyMapping {gap : Bytes} (hgap : IsGap gap) :
    FlowParses limits (.node (.mapping [])) (byte '{' :: (gap ++ [byte '}'])) := by
  intro flow depth nodes rest turns hfits hnodes hturns
  cases hfits with
  | mapping hdepth =>
    rw [Node.count, countEntries] at hnodes ⊢
    have htext : byte '{' :: (gap ++ [byte '}']) ++ rest = byte '{' :: (gap ++ byte '}' :: rest) := by
      simp
    rw [htext] at hturns ⊢
    cases turns with
    | zero => omega
    | succ turns =>
      rw [parseValue_cons (by decide) (by decide), if_neg (by decide), if_pos (by decide),
        parseFlowMapping_cons hgap (.cons (by decide)) hdepth (by omega)]
      rfl

/-- A sequence is read back when its values are. -/
theorem flowParses_sequence {values : List Node} {gap inner : Bytes} (hgap : IsGap gap)
    (hflow : Flow (.values values) inner) (h : FlowParses limits (.values values) inner) :
    FlowParses limits (.node (.sequence values))
      (byte '[' :: (gap ++ (inner ++ [byte ']']))) := by
  intro flow depth nodes rest turns hfits hnodes hturns
  obtain ⟨b, tail, hb, rfl⟩ := hflow.head
  have hclose := (startsFlow_spec hb).2.2.1
  have hstops : Stops isSpace (b :: tail ++ byte ']' :: rest) := .cons (startsFlow_spec hb).1
  cases hfits with
  | sequence hdepth hlength hfits =>
    rw [Node.count] at hnodes ⊢
    have htext : byte '[' :: (gap ++ (b :: tail ++ [byte ']'])) ++ rest =
        byte '[' :: (gap ++ (b :: tail ++ byte ']' :: rest)) := by simp
    rw [htext] at hturns ⊢
    simp only [List.length_cons, List.length_append] at hturns
    cases turns with
    | zero => omega
    | succ turns =>
      rw [parseValue_cons (by decide) (by decide), if_pos (by decide),
        parseFlowSequence_cons hgap hstops hdepth (by omega), if_neg (by simp [hclose]),
        h depth [] (nodes + 1) rest _ turns hfits hlength (by omega) (Nat.lt_succ_self _)
          (by simp only [List.length_cons, List.length_append]; omega)]
      show Except.ok (_, nodes + 1 + countValues values, rest) = _
      rw [Nat.add_assoc, List.nil_append]

/-- A mapping is read back when its entries are. -/
theorem flowParses_mapping {entries : List (Bytes × Node)} {gap inner : Bytes} (hgap : IsGap gap)
    (hflow : Flow (.entries entries) inner) (h : FlowParses limits (.entries entries) inner) :
    FlowParses limits (.node (.mapping entries))
      (byte '{' :: (gap ++ (inner ++ [byte '}']))) := by
  intro flow depth nodes rest turns hfits hnodes hturns
  obtain ⟨b, tail, hb, rfl⟩ := hflow.head
  have hclose := (startsFlow_spec hb).2.2.2.1
  have hstops : Stops isSpace (b :: tail ++ byte '}' :: rest) := .cons (startsFlow_spec hb).1
  cases hfits with
  | mapping hdepth hlength hnodup hkeys hfits =>
    rw [Node.count] at hnodes ⊢
    have htext : byte '{' :: (gap ++ (b :: tail ++ [byte '}'])) ++ rest =
        byte '{' :: (gap ++ (b :: tail ++ byte '}' :: rest)) := by simp
    rw [htext] at hturns ⊢
    simp only [List.length_cons, List.length_append] at hturns
    cases turns with
    | zero => omega
    | succ turns =>
      rw [parseValue_cons (by decide) (by decide), if_neg (by decide), if_pos (by decide),
        parseFlowMapping_cons hgap hstops hdepth (by omega), if_neg (by simp [hclose]),
        h depth [] (nodes + 1) rest _ turns hfits hkeys hnodup hlength (by omega)
          (Nat.lt_succ_self _) (by simp only [List.length_cons, List.length_append]; omega)]
      show Except.ok (_, nodes + 1 + countEntries entries, rest) = _
      rw [Nat.add_assoc, List.nil_append]

/-- The last value of a sequence is read up to the closing bracket. -/
theorem flowParses_lastValue {value : Node} {text gap : Bytes}
    (h : FlowParses limits (.node value) text) (hgap : IsGap gap) :
    FlowParses limits (.values [value]) (text ++ gap) := by
  intro depth seen nodes rest turns bound hfits hlength hnodes hturns hbound
  have hcount : countValues [value] = value.count := by simp [countValues]
  rw [hcount] at hnodes ⊢
  rw [List.append_assoc] at hturns hbound ⊢
  rw [List.length_append, List.length_singleton] at hlength
  cases turns with
  | zero => omega
  | succ turns =>
    rw [flowValues, checkEntry_of_lt hlength, ok_bind,
      h true (depth + 1) nodes _ bound (hfits value List.mem_cons_self) hnodes hbound, ok_bind]
    dsimp only
    rw [skipSpaces_cons hgap (by decide), if_pos (by simp), List.tail_cons]

/-- A value is read up to the comma behind it, and the other values from there. -/
theorem flowParses_value {value : Node} {values : List Node} {text before after more : Bytes}
    (h : FlowParses limits (.node value) text) (hbefore : IsGap before) (hafter : IsGap after)
    (hflow : Flow (.values values) more) (hmore : FlowParses limits (.values values) more) :
    FlowParses limits (.values (value :: values))
      (text ++ (before ++ byte ',' :: (after ++ more))) := by
  intro depth seen nodes rest turns bound hfits hlength hnodes hturns hbound
  obtain ⟨b, tail, hb, hhead⟩ := hflow.head
  have hclose := (startsFlow_spec hb).2.2.1
  have hstops := hflow.stops (byte ']' :: rest)
  have htext : text ++ (before ++ byte ',' :: (after ++ more)) ++ byte ']' :: rest =
      text ++ (before ++ byte ',' :: (after ++ (more ++ byte ']' :: rest))) := by simp
  have hseen : seen ++ value :: values = seen ++ [value] ++ values := by simp
  rw [countValues] at hnodes ⊢
  rw [htext] at hturns hbound ⊢
  rw [hseen] at hlength ⊢
  have hroom : seen.length < limits.maxContainerEntries := by
    simp only [List.length_append, List.length_singleton] at hlength
    omega
  have hsizes (n : Nat)
      (hn : (text ++ (before ++ byte ',' :: (after ++ (more ++ byte ']' :: rest)))).length < n + 1) :
      (more ++ byte ']' :: rest).length < n := by
    simp only [List.length_append, List.length_cons] at hn ⊢
    omega
  cases turns with
  | zero => omega
  | succ turns =>
    rw [flowValues, checkEntry_of_lt hroom, ok_bind,
      h true (depth + 1) nodes _ bound (hfits value List.mem_cons_self) (by omega) hbound, ok_bind]
    dsimp only
    rw [skipSpaces_cons hbefore (by decide), List.head?_cons, if_neg (by decide), require,
      if_neg (by simp), ok_bind, skipSpaces_gap hafter hstops, hhead, List.cons_append, List.head?_cons,
      if_neg (by simp [hclose]), ← List.cons_append, ← hhead,
      hmore depth (seen ++ [value]) (nodes + value.count) rest turns bound
        (fun v hv => hfits v (List.mem_cons_of_mem _ hv)) hlength (by omega) (hsizes _ hturns)
        (hsizes _ (Nat.lt_succ_of_lt hbound)), Nat.add_assoc]

/-- One entry of a flow mapping up to what follows its value. -/
theorem flowEntries_entry {key keyText : Bytes} {value : Node} {before after text : Bytes}
    (hkey : Quoted key keyText) (hbefore : IsGap before) (hafter : IsGap after)
    (hflow : Flow (.node value) text) (h : FlowParses limits (.node value) text)
    {seen : List (Bytes × Node)} {left : Bytes} {turns bound : Nat}
    (hfits : Fits limits (depth + 1) value)
    (hmerge : key ≠ ascii "<<" ∧ key.length ≤ limits.maxScalarBytes)
    (hnew : key ∉ seen.map Prod.fst) (hroom : seen.length < limits.maxContainerEntries)
    (hnodes : nodes + (1 + value.count) ≤ limits.maxNodes)
    (hbound : (keyText ++ (before ++ byte ':' :: (after ++ (text ++ left)))).length < bound) :
    flowEntries limits (parseValue limits bound true) depth (turns + 1) seen nodes
        (keyText ++ (before ++ byte ':' :: (after ++ (text ++ left)))) =
      if (skipSpaces left).head? == some (byte '}') then
        .ok (seen ++ [(key, value)], nodes + (1 + value.count), (skipSpaces left).tail)
      else require (byte ',') "flow mapping requires a comma or closing brace" (skipSpaces left) >>=
        fun input =>
          if (skipSpaces input).head? == some (byte '}') then
            fail .malformedDocument "flow mapping cannot have a trailing comma"
              (here (skipSpaces input))
          else flowEntries limits (parseValue limits bound true) depth turns
            (seen ++ [(key, value)]) (nodes + (1 + value.count)) (skipSpaces input) := by
  have hread := h true (depth + 1) (nodes + 1) left bound hfits (by omega) (by
    simp only [List.length_append, List.length_cons] at hbound ⊢
    omega)
  rw [flowEntries, checkEntry_of_lt hroom, ok_bind, parseMappingKey_quoted hkey hmerge.2, ok_bind]
  dsimp only
  rw [admitKey_of_new hnew hmerge.1 (by omega), ok_bind, skipSpaces_cons hbefore (by decide),
    require, if_neg (by simp), ok_bind, skipSpaces_gap hafter (hflow.stops left), hread, ok_bind]
  dsimp only
  rw [Nat.add_assoc]

/-- The last entry of a mapping is read up to the closing brace. -/
theorem flowParses_lastEntry {key keyText : Bytes} {value : Node} {before after text gap : Bytes}
    (hkey : Quoted key keyText) (hbefore : IsGap before) (hafter : IsGap after)
    (hflow : Flow (.node value) text) (h : FlowParses limits (.node value) text)
    (hgap : IsGap gap) :
    FlowParses limits (.entries [(key, value)])
      (keyText ++ (before ++ byte ':' :: (after ++ (text ++ gap)))) := by
  intro depth seen nodes rest turns bound hfits hkeys hnodup hlength hnodes hturns hbound
  have hcount : countEntries [(key, value)] = 1 + value.count := by simp [countEntries]
  have htext : keyText ++ (before ++ byte ':' :: (after ++ (text ++ gap))) ++ byte '}' :: rest =
      keyText ++ (before ++ byte ':' :: (after ++ (text ++ (gap ++ byte '}' :: rest)))) := by simp
  rw [hcount] at hnodes ⊢
  rw [htext] at hturns hbound ⊢
  rw [List.length_append, List.length_singleton] at hlength
  cases turns with
  | zero => omega
  | succ turns =>
    rw [flowEntries_entry hkey hbefore hafter hflow h (hfits _ List.mem_cons_self)
      (hkeys _ List.mem_cons_self) (new_of_nodup hnodup) hlength hnodes hbound,
      skipSpaces_cons hgap (by decide), if_pos (by simp), List.tail_cons]

/-- An entry is read up to the comma behind it, and the other entries from there. -/
theorem flowParses_entry {key keyText : Bytes} {value : Node} {entries : List (Bytes × Node)}
    {before after text gap next more : Bytes}
    (hkey : Quoted key keyText) (hbefore : IsGap before) (hafter : IsGap after)
    (hflow : Flow (.node value) text) (h : FlowParses limits (.node value) text)
    (hgap : IsGap gap) (hnext : IsGap next) (hentries : Flow (.entries entries) more)
    (hmore : FlowParses limits (.entries entries) more) :
    FlowParses limits (.entries ((key, value) :: entries))
      (keyText ++ (before ++ byte ':' ::
        (after ++ (text ++ (gap ++ byte ',' :: (next ++ more)))))) := by
  intro depth seen nodes rest turns bound hfits hkeys hnodup hlength hnodes hturns hbound
  obtain ⟨b, tail, hb, hhead⟩ := hentries.head
  have hclose := (startsFlow_spec hb).2.2.2.1
  have hstops := hentries.stops (byte '}' :: rest)
  have htext : keyText ++ (before ++ byte ':' ::
      (after ++ (text ++ (gap ++ byte ',' :: (next ++ more))))) ++ byte '}' :: rest =
      keyText ++ (before ++ byte ':' ::
        (after ++ (text ++ (gap ++ byte ',' :: (next ++ (more ++ byte '}' :: rest)))))) := by
    simp
  have hseen : seen ++ (key, value) :: entries = seen ++ [(key, value)] ++ entries := by simp
  have hnew : key ∉ seen.map Prod.fst := new_of_nodup hnodup
  rw [countEntries] at hnodes ⊢
  rw [htext] at hturns hbound ⊢
  rw [hseen] at hlength hnodup ⊢
  have hroom : seen.length < limits.maxContainerEntries := by
    simp only [List.length_append, List.length_singleton] at hlength
    omega
  simp only [List.length_append, List.length_cons] at hturns
  have hsize : (more ++ byte '}' :: rest).length < bound := by
    simp only [List.length_append, List.length_cons] at hbound ⊢
    omega
  cases turns with
  | zero => omega
  | succ turns =>
    rw [flowEntries_entry hkey hbefore hafter hflow h (hfits _ List.mem_cons_self)
      (hkeys _ List.mem_cons_self) hnew hroom (by omega) hbound,
      skipSpaces_cons hgap (by decide), List.head?_cons, if_neg (by decide), require,
      if_neg (by simp), ok_bind, skipSpaces_gap hnext hstops, hhead, List.cons_append, List.head?_cons,
      if_neg (by simp [hclose]), ← List.cons_append, ← hhead,
      hmore depth (seen ++ [(key, value)]) (nodes + (1 + value.count)) rest turns bound
        (fun e he => hfits e (List.mem_cons_of_mem _ he))
        (fun e he => hkeys e (List.mem_cons_of_mem _ he)) hnodup hlength (by omega)
        (by simp only [List.length_append, List.length_cons]; omega) hsize, Nat.add_assoc]

/-- A flow text is read back as the tree it was written from. -/
theorem parseValue_flow {piece : Piece} {text : Bytes} (h : Flow piece text) :
    FlowParses limits piece text := by
  induction h with
  | scalar h => exact flowParses_scalar h
  | emptySequence hgap => exact flowParses_emptySequence hgap
  | sequence hgap hflow ih => exact flowParses_sequence hgap hflow ih
  | emptyMapping hgap => exact flowParses_emptyMapping hgap
  | mapping hgap hflow ih => exact flowParses_mapping hgap hflow ih
  | lastValue _ hgap ih => exact flowParses_lastValue ih hgap
  | value _ hbefore hafter hmore ih ihmore =>
    exact flowParses_value ih hbefore hafter hmore ihmore
  | lastEntry hkey hbefore hafter hflow hgap ih =>
    exact flowParses_lastEntry hkey hbefore hafter hflow ih hgap
  | entry hkey hbefore hafter hflow hgap hnext hmore ih ihmore =>
    exact flowParses_entry hkey hbefore hafter hflow ih hgap hnext hmore ihmore

end Reading

end Cuac.Connector.FailsafeYaml

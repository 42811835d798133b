import Cuac.Lib.Tally
import Cuac.Runtime.ChunkDecoder

/-!
# Runtime — chunked framing

The grammar of HTTP/1.1 chunked coding as far as the decoder supports it, and
the proof that the decoder accepts exactly its sentences: a framing determines
the body, a body within the limit is returned, and no framing continues another
one.

Main results:

* `chunk_decoding_exact` — sound, complete and free of proper continuations.
* `chunk_decoding_exact_two_chunks` — at a body in two chunks.
-/

namespace Cuac.Runtime

open Cuac.Lib ChunkReader

-- ---------------------------------------------------------------------------
-- The grammar
-- ---------------------------------------------------------------------------

/-- Optional whitespace, possibly none. -/
def Blank (text : Bytes) : Prop :=
  ∀ b ∈ text, isOws b = true

/-- A token of the header grammar. -/
structure Token (text : Bytes) : Prop where
  nonempty : text ≠ []
  characters : ∀ b ∈ text, isTokenCharacter b = true

/-- A quoted string after its opening quote. -/
inductive Quoted : Bytes → Prop
  | close : Quoted [quote]
  | text {b : UInt8} {rest : Bytes} : isQuotedText b = true → b ≠ quote → b ≠ backslash →
      Quoted rest → Quoted (b :: rest)
  | pair {b : UInt8} {rest : Bytes} : isQuotedPair b = true → Quoted rest →
      Quoted (backslash :: b :: rest)

/-- What may follow the name of an extension. -/
inductive ExtensionValue : Bytes → Prop
  | none : ExtensionValue []
  | token {before between value : Bytes} : Blank before → Blank between → Token value →
      ExtensionValue (before ++ byte '=' :: (between ++ value))
  | quoted {before between value : Bytes} : Blank before → Blank between → Quoted value →
      ExtensionValue (before ++ byte '=' :: (between ++ quote :: value))

/-- The chunk extensions behind a size, each one introduced by a semicolon. -/
inductive Extensions : Bytes → Prop
  | nil : Extensions []
  | cons {before between name value rest : Bytes} : Blank before → Blank between → Token name →
      ExtensionValue value → Extensions rest →
      Extensions (before ++ semicolon :: (between ++ (name ++ (value ++ rest))))

/-- A chunk header: hexadecimal digits of a 64-bit size, and extensions. -/
inductive ChunkHeader : Bytes → Nat → Prop
  | mk {digits extensions : Bytes} : digits ≠ [] → (∀ b ∈ digits, isHexDigit b = true) →
      hexNumber digits < 2 ^ 64 → Extensions extensions →
      ChunkHeader (digits ++ extensions) (hexNumber digits)

/-- Trailer fields, and the empty line that ends them. -/
inductive Trailers : Bytes → Prop
  | done : Trailers crlf
  | field {name value rest : Bytes} : Token name → (∀ b ∈ value, isTrailerText b = true) →
      Trailers rest → Trailers (name ++ byte ':' :: value ++ crlf ++ rest)

/-- A framing and the body it carries. -/
inductive Framing : Bytes → Bytes → Prop
  | last {header trailers : Bytes} : ChunkHeader header 0 → Trailers trailers →
      Framing (header ++ crlf ++ trailers) []
  | chunk {header data rest body : Bytes} : ChunkHeader header data.length → data ≠ [] →
      Framing rest body → Framing (header ++ crlf ++ (data ++ crlf ++ rest)) (data ++ body)

-- ---------------------------------------------------------------------------
-- Bytes that end a run
-- ---------------------------------------------------------------------------

/-- The characters of a token are neither blanks nor delimiters. -/
theorem not_isTokenCharacter (b : UInt8)
    (h : isOws b = true ∨ b = semicolon ∨ b = byte '=' ∨ b = quote ∨ b = byte ':' ∨ b = cr) :
    isTokenCharacter b = false := by
  revert b
  exact forall_byte (by decide)

/-- No character of a token is whitespace. -/
theorem not_isOws_of_token (b : UInt8) (h : isTokenCharacter b = true) : isOws b = false := by
  revert b
  exact forall_byte (by decide)

/-- A hexadecimal digit is no whitespace, and neither a semicolon nor a carriage return. -/
theorem not_isOws_of_isHexDigit (b : UInt8) (h : isHexDigit b = true) :
    isOws b = false ∧ b ≠ semicolon ∧ b ≠ cr := by
  revert b
  exact forall_byte (by decide)

/-- Nothing in a line is a carriage return. -/
theorem ne_cr (b : UInt8)
    (h : isOws b = true ∨ isTokenCharacter b = true ∨ isQuotedText b = true ∨
      isQuotedPair b = true ∨ isTrailerText b = true ∨ b = quote ∨ b = backslash ∨
      b = semicolon ∨ b = byte '=' ∨ b = byte ':') : b ≠ cr := by
  revert b
  exact forall_byte (by decide)

-- ---------------------------------------------------------------------------
-- Runs
-- ---------------------------------------------------------------------------

variable {reader : ChunkReader} {after : Nat} {line rest : Bytes}

/-- No check of this call interrupts it. -/
def Quiet (reader : ChunkReader) : Prop :=
  ∀ left, reader.interruption left = none

/-- A quiet reader is stopped by nothing. -/
theorem Quiet.checkExecutionState (h : Quiet reader) (left : Nat) :
    reader.checkExecutionState left = .ok () := by
  rw [ChunkReader.checkExecutionState, h left]

/-- A quiet reader passes every checkpoint. -/
theorem Quiet.checkpoint (h : Quiet reader) (left : Nat) : reader.checkpoint left = .ok () := by
  rw [ChunkReader.checkpoint, h.checkExecutionState, ite_self]

/-- What the reader skips is the longest start whose bytes all pass. -/
theorem skipWhile_eq {p : UInt8 → Bool} (h : reader.skipWhile p after line = .ok rest) :
    rest = line.dropWhile p := by
  induction line with
  | nil => exact (Except.ok.inj h).symm
  | cons b tail ih =>
    rw [skipWhile] at h
    by_cases hb : p b = true
    · rw [if_pos hb] at h
      obtain ⟨_, -, htail⟩ := bind_eq_ok.mp h
      rw [List.dropWhile_cons, if_pos hb]
      exact ih htail
    · rw [if_neg hb] at h
      rw [List.dropWhile_cons, if_neg hb]
      exact (Except.ok.inj h).symm

/-- A quiet reader skips the longest start whose bytes all pass. -/
theorem skipWhile_quiet (hquiet : Quiet reader) (p : UInt8 → Bool) (after : Nat) (line : Bytes) :
    reader.skipWhile p after line = .ok (line.dropWhile p) := by
  induction line with
  | nil => rfl
  | cons b tail ih =>
    rw [skipWhile, List.dropWhile_cons]
    by_cases hb : p b = true
    · rw [if_pos hb, if_pos hb]
      exact bind_eq_ok.mpr ⟨(), hquiet.checkpoint _, ih⟩
    · rw [if_neg hb, if_neg hb]

/-- What `SkipOws` has passed. -/
theorem skipOws_eq (h : reader.skipOws after line = .ok rest) :
    ∃ blank, Blank blank ∧ line = blank ++ rest ∧ Stops isOws rest := by
  have hrest := skipWhile_eq h
  refine ⟨line.takeWhile isOws, fun b hb => List.mem_takeWhile_imp hb, ?_, ?_⟩
  · rw [hrest, List.takeWhile_append_dropWhile]
  · rw [hrest]
    exact stops_dropWhile isOws line

/-- A quiet reader skips a blank up to the first byte that is no whitespace. -/
theorem skipOws_quiet (hquiet : Quiet reader) {blank : Bytes} (hblank : Blank blank)
    (hrest : Stops isOws rest) : reader.skipOws after (blank ++ rest) = .ok rest := by
  rw [skipOws, skipWhile_quiet hquiet, dropWhile_append hblank hrest]

/-- A token is read up to the first byte that is no character of one. -/
theorem parseToken_eq (h : reader.parseToken after line = .ok rest) :
    ∃ token, Token token ∧ line = token ++ rest ∧ Stops isTokenCharacter rest := by
  obtain ⟨left, hskip, hrest⟩ := bind_eq_ok.mp h
  obtain ⟨_, hmoved, heq⟩ := bind_eq_ok.mp hrest
  obtain rfl := pure_eq_ok.mp heq
  have hleft := skipWhile_eq hskip
  have hline : line = line.takeWhile isTokenCharacter ++ left := by
    rw [hleft, List.takeWhile_append_dropWhile]
  refine ⟨line.takeWhile isTokenCharacter, ⟨fun hempty => ?_, fun b hb => List.mem_takeWhile_imp hb⟩,
    hline, ?_⟩
  · rw [hempty, List.nil_append] at hline
    rw [throwIf_eq_ok, ← hline] at hmoved
    simp at hmoved
  · rw [hleft]
    exact stops_dropWhile isTokenCharacter line

/-- A quiet reader reads a token where no character of one follows. -/
theorem parseToken_quiet (hquiet : Quiet reader) {token : Bytes} (htoken : Token token)
    (hrest : Stops isTokenCharacter rest) :
    reader.parseToken after (token ++ rest) = .ok rest := by
  refine bind_eq_ok.mpr ⟨rest, ?_, bind_eq_ok.mpr ⟨(), ?_, rfl⟩⟩
  · rw [skipWhile_quiet hquiet, dropWhile_append htoken.characters hrest]
  · have hpositive := List.length_pos_iff.mpr htoken.nonempty
    rw [throwIf_eq_ok, List.length_append, beq_eq_false_iff_ne]
    omega

-- ---------------------------------------------------------------------------
-- Extensions
-- ---------------------------------------------------------------------------

/-- Behind an opening quote a quoted text is read up to its closing quote. -/
theorem quotedRest_eq (h : reader.quotedRest after line = .ok rest) :
    ∃ text, Quoted text ∧ line = text ++ rest := by
  fun_induction quotedRest reader after line with
  | case1 => cases h
  | case2 value =>
    obtain ⟨_, -, h⟩ := bind_eq_ok.mp h
    split at h
    · rename_i hquote
      obtain rfl := Except.ok.inj h
      rw [beq_iff_eq.mp hquote]
      exact ⟨[quote], .close, rfl⟩
    · cases h
  | case3 value next tail ihpair ihtext =>
    obtain ⟨_, -, h⟩ := bind_eq_ok.mp h
    split at h
    · rename_i hquote
      obtain rfl := Except.ok.inj h
      rw [beq_iff_eq.mp hquote]
      exact ⟨[quote], .close, rfl⟩
    · rename_i hquote
      split at h
      · rename_i hbackslash
        split at h
        · rename_i hpair
          obtain ⟨text, htext, rfl⟩ := ihpair h
          rw [beq_iff_eq.mp hbackslash]
          exact ⟨backslash :: next :: text, .pair hpair htext, rfl⟩
        · cases h
      · rename_i hbackslash
        split at h
        · rename_i hplain
          obtain ⟨text, htext, heq⟩ := ihtext h
          refine ⟨value :: text, .text hplain ?_ ?_ htext, by rw [heq, List.cons_append]⟩
          · simpa using hquote
          · simpa using hbackslash
        · cases h

theorem quoted_ne_nil {text : Bytes} (h : Quoted text) : text ≠ [] := by
  cases h <;> simp

/-- A quiet reader reads a quoted text to its end. -/
theorem quotedRest_quiet (hquiet : Quiet reader) {text : Bytes} (htext : Quoted text) :
    reader.quotedRest after (text ++ rest) = .ok rest := by
  induction htext with
  | close =>
    cases rest with
    | nil => exact bind_eq_ok.mpr ⟨(), hquiet.checkpoint _, rfl⟩
    | cons next tail => exact bind_eq_ok.mpr ⟨(), hquiet.checkpoint _, rfl⟩
  | @text b tail hplain hquote hbackslash htail ih =>
    cases hcons : tail ++ rest with
    | nil => exact absurd (List.append_eq_nil_iff.mp hcons).1 (quoted_ne_nil htail)
    | cons next left =>
      rw [hcons] at ih
      rw [List.cons_append, hcons, quotedRest]
      refine bind_eq_ok.mpr ⟨(), hquiet.checkpoint _, ?_⟩
      rw [if_neg (by simpa using hquote), if_neg (by simpa using hbackslash), if_pos hplain]
      exact ih
  | @pair b tail hpair htail ih =>
    rw [List.cons_append, List.cons_append, quotedRest]
    refine bind_eq_ok.mpr ⟨(), hquiet.checkpoint _, ?_⟩
    rw [if_neg (by decide), if_pos (by decide), if_pos hpair]
    exact ih

/-- A blank in front of a text does not go on with a token. -/
theorem stops_token_of_blank {blank text : Bytes} (hblank : Blank blank)
    (htext : Stops isTokenCharacter text) : Stops isTokenCharacter (blank ++ text) := by
  cases blank with
  | nil => exact htext
  | cons b blank =>
    exact Stops.cons (not_isTokenCharacter b (Or.inl (hblank b List.mem_cons_self)))

/-- A token does not start with whitespace. -/
theorem stops_isOws_token {token rest : Bytes} (h : Token token) : Stops isOws (token ++ rest) := by
  cases token with
  | nil => exact absurd rfl h.nonempty
  | cons b token => exact Stops.cons (not_isOws_of_token b (h.characters b List.mem_cons_self))

/-- Extensions do not go on with a token in front of them. -/
theorem stops_of_extensions (h : Extensions line) : Stops isTokenCharacter line := by
  cases h with
  | nil => exact Stops.nil _
  | cons hbefore hbetween hname hvalue hrest =>
    exact stops_token_of_blank hbefore (Stops.cons (by decide))

/-- The value of an extension is a token or a quoted text, behind a blank. -/
theorem parseExtensionValue_eq (h : reader.parseExtensionValue after line = .ok rest) :
    ∃ between value, Blank between ∧ line = between ++ value ++ rest ∧
      (Token value ∨ ∃ text, value = quote :: text ∧ Quoted text) := by
  obtain ⟨left, hskip, hparse⟩ := bind_eq_ok.mp h
  obtain ⟨between, hbetween, rfl, -⟩ := skipOws_eq hskip
  cases left with
  | nil =>
    obtain ⟨token, htoken, heq, -⟩ := parseToken_eq hparse
    exact absurd (List.append_eq_nil_iff.mp heq.symm).1 htoken.nonempty
  | cons value left =>
    dsimp only at hparse
    split at hparse
    · rename_i hquote
      obtain ⟨text, htext, rfl⟩ := quotedRest_eq hparse
      rw [beq_iff_eq.mp hquote]
      refine ⟨between, quote :: text, hbetween, ?_, Or.inr ⟨text, rfl, htext⟩⟩
      rw [List.append_assoc, List.cons_append]
    · obtain ⟨token, htoken, heq, -⟩ := parseToken_eq hparse
      exact ⟨between, token, hbetween, by rw [List.append_assoc, heq], Or.inl htoken⟩

/-- Behind the name of an extension come its value, if it has one, and a blank. -/
theorem parseAfterName_eq (h : reader.parseAfterName after line = .ok rest) :
    ∃ value blank, ExtensionValue value ∧ Blank blank ∧ line = value ++ (blank ++ rest) ∧
      (blank ≠ [] → rest ≠ []) := by
  obtain ⟨left, hskip, hparse⟩ := bind_eq_ok.mp h
  obtain ⟨before, hbefore, rfl, -⟩ := skipOws_eq hskip
  cases left with
  | nil =>
    dsimp only at hparse
    split at hparse
    · cases hparse
    · rename_i hlength
      obtain rfl := Except.ok.inj hparse
      have hempty : before = [] := by simpa using hlength
      subst hempty
      exact ⟨[], [], .none, hbefore, rfl, fun hne => absurd rfl hne⟩
  | cons value left =>
    dsimp only at hparse
    split at hparse
    · rename_i hequals
      obtain ⟨between, text, hbetween, rfl, hvalue⟩ := parseExtensionValue_eq hparse
      rw [beq_iff_eq.mp hequals]
      have hnil : Blank [] := fun b hb => absurd hb List.not_mem_nil
      rcases hvalue with htoken | ⟨quoted, rfl, hquoted⟩
      · refine ⟨before ++ byte '=' :: (between ++ text), [], .token hbefore hbetween htoken, hnil, ?_,
          fun hne => absurd rfl hne⟩
        simp [List.append_assoc]
      · refine ⟨before ++ byte '=' :: (between ++ quote :: quoted), [],
          .quoted hbefore hbetween hquoted, hnil, ?_, fun hne => absurd rfl hne⟩
        simp [List.append_assoc]
    · obtain rfl := Except.ok.inj hparse
      exact ⟨[], before, .none, hbefore, rfl, fun _ => by simp⟩

/-- A blank may stand in front of an extension, but not at the end of the line. -/
theorem Extensions.blank {blank : Bytes} (hblank : Blank blank) (h : Extensions line)
    (hne : blank ≠ [] → line ≠ []) : Extensions (blank ++ line) := by
  cases h with
  | nil =>
    have hempty : blank = [] := by
      by_contra hblank
      exact hne hblank rfl
    rw [hempty]
    exact .nil
  | @cons before between name value rest hbefore hbetween hname hvalue hrest =>
    rw [← List.append_assoc]
    refine .cons (fun b hb => ?_) hbetween hname hvalue hrest
    rcases List.mem_append.mp hb with hb | hb
    · exact hblank b hb
    · exact hbefore b hb

/-- What the loop over the extensions accepts are extensions. -/
theorem parseExtensions_sound {turns : Nat} {u : Unit}
    (h : reader.parseExtensions after turns line = .ok u) : Extensions line := by
  induction turns generalizing line with
  | zero =>
    cases line with
    | nil => exact .nil
    | cons b line => cases h
  | succ turns ih =>
    cases line with
    | nil => exact .nil
    | cons b line =>
      obtain ⟨left, hextension, hleft⟩ := bind_eq_ok.mp h
      obtain ⟨text, hskip, hparse⟩ := bind_eq_ok.mp hextension
      obtain ⟨before, hbefore, hline, -⟩ := skipOws_eq hskip
      cases text with
      | nil => cases hparse
      | cons delimiter text =>
        obtain ⟨_, hsemicolon, hnamed⟩ := bind_eq_ok.mp hparse
        obtain ⟨named, hskip', htokens⟩ := bind_eq_ok.mp hnamed
        obtain ⟨afterName, hname, hafter⟩ := bind_eq_ok.mp htokens
        obtain ⟨between, hbetween, rfl, -⟩ := skipOws_eq hskip'
        obtain ⟨name, htoken, rfl, -⟩ := parseToken_eq hname
        obtain ⟨value, blank, hvalue, hblank, rfl, hne⟩ := parseAfterName_eq hafter
        have hdelimiter : delimiter = semicolon := by
          rw [throwIf_eq_ok] at hsemicolon
          simpa using hsemicolon
        rw [hline, hdelimiter]
        exact .cons hbefore hbetween htoken hvalue ((ih hleft).blank hblank hne)

/-- Extensions stay extensions without the blank in front of them. -/
theorem Extensions.dropBlank (h : Extensions line) : Extensions (line.dropWhile isOws) := by
  cases h with
  | nil => exact .nil
  | @cons before between name value rest hbefore hbetween hname hvalue hrest =>
    rw [dropWhile_append hbefore (Stops.cons (by decide))]
    have hnil : Blank [] := fun b hb => absurd hb List.not_mem_nil
    exact .cons hnil hbetween hname hvalue hrest

/-- A quiet reader reads a token as the value of an extension. -/
theorem parseExtensionValue_token (hquiet : Quiet reader) {between value : Bytes}
    (hbetween : Blank between) (hvalue : Token value) (hrest : Stops isTokenCharacter rest) :
    reader.parseExtensionValue after (between ++ (value ++ rest)) = .ok rest := by
  refine bind_eq_ok.mpr ⟨value ++ rest, skipOws_quiet hquiet hbetween (stops_isOws_token hvalue), ?_⟩
  cases hcons : value ++ rest with
  | nil => exact absurd (List.append_eq_nil_iff.mp hcons).1 hvalue.nonempty
  | cons first tail =>
    have hfirst : first ≠ quote := by
      cases value with
      | nil => exact absurd rfl hvalue.nonempty
      | cons c value =>
        obtain ⟨rfl, -⟩ := List.cons.inj hcons
        intro hquote
        have hcharacter := hvalue.characters c List.mem_cons_self
        rw [not_isTokenCharacter c (by simp [hquote])] at hcharacter
        cases hcharacter
    dsimp only
    rw [if_neg (by simpa using hfirst), ← hcons]
    exact parseToken_quiet hquiet hvalue hrest

/-- A quiet reader reads a quoted text as the value of an extension. -/
theorem parseExtensionValue_quoted (hquiet : Quiet reader) {between value : Bytes}
    (hbetween : Blank between) (hvalue : Quoted value) :
    reader.parseExtensionValue after (between ++ quote :: (value ++ rest)) = .ok rest := by
  refine bind_eq_ok.mpr ⟨quote :: (value ++ rest),
    skipOws_quiet hquiet hbetween (Stops.cons (by decide)), ?_⟩
  dsimp only
  rw [if_pos (by decide)]
  exact quotedRest_quiet hquiet hvalue

/-- After a name the parser stops where the next extension begins, past its
leading blanks if the name has no value. -/
theorem parseAfterName_quiet (hquiet : Quiet reader) (after : Nat) {value : Bytes}
    (hvalue : ExtensionValue value) (hrest : Extensions rest) :
    ∃ left, reader.parseAfterName after (value ++ rest) = .ok left ∧ Extensions left ∧
      left.length ≤ rest.length := by
  cases hvalue with
  | none =>
    refine ⟨rest.dropWhile isOws, ?_, hrest.dropBlank, List.length_dropWhile_le _ _⟩
    cases hrest with
    | nil => rfl
    | @cons before between name value rest hbefore hbetween hname hvalue hrest =>
      have hstops : Stops isOws (semicolon :: (between ++ (name ++ (value ++ rest)))) :=
        Stops.cons (by decide)
      rw [dropWhile_append hbefore hstops, List.nil_append]
      refine bind_eq_ok.mpr ⟨_, skipOws_quiet hquiet hbefore hstops, ?_⟩
      dsimp only
      rw [if_neg (by decide)]
  | @token before between value hbefore hbetween hvalue =>
    refine ⟨rest, ?_, hrest, le_rfl⟩
    rw [List.append_assoc, List.cons_append, List.append_assoc]
    refine bind_eq_ok.mpr ⟨_, skipOws_quiet hquiet hbefore (Stops.cons (by decide)), ?_⟩
    dsimp only
    rw [if_pos (by decide)]
    exact parseExtensionValue_token hquiet hbetween hvalue (stops_of_extensions hrest)
  | @quoted before between value hbefore hbetween hvalue =>
    refine ⟨rest, ?_, hrest, le_rfl⟩
    rw [List.append_assoc, List.cons_append, List.append_assoc, List.cons_append]
    refine bind_eq_ok.mpr ⟨_, skipOws_quiet hquiet hbefore (Stops.cons (by decide)), ?_⟩
    dsimp only
    rw [if_pos (by decide)]
    exact parseExtensionValue_quoted hquiet hbetween hvalue

/-- The value of an extension ends the token in front of it. -/
theorem stops_of_extensionValue {value : Bytes} (hvalue : ExtensionValue value)
    (hrest : Extensions rest) : Stops isTokenCharacter (value ++ rest) := by
  cases hvalue with
  | none => exact stops_of_extensions hrest
  | token hbefore hbetween htoken =>
    rw [List.append_assoc]
    exact stops_token_of_blank hbefore (Stops.cons (by decide))
  | quoted hbefore hbetween hquoted =>
    rw [List.append_assoc]
    exact stops_token_of_blank hbefore (Stops.cons (by decide))

/-- A quiet reader accepts every row of extensions. -/
theorem parseExtensions_complete (hquiet : Quiet reader) {turns : Nat} (h : Extensions line)
    (hturns : line.length ≤ turns) : reader.parseExtensions after turns line = .ok () := by
  induction turns generalizing line with
  | zero =>
    have hempty : line = [] := List.length_eq_zero_iff.mp (by omega)
    rw [hempty]
    rfl
  | succ turns ih =>
    cases h with
    | nil => rfl
    | @cons before between name value rest hbefore hbetween hname hvalue hrest =>
      obtain ⟨left, hafter, hleft, hlength⟩ := parseAfterName_quiet hquiet after hvalue hrest
      simp only [List.length_append, List.length_cons] at hturns
      cases hcons : before ++ semicolon :: (between ++ (name ++ (value ++ rest))) with
      | nil => simp at hcons
      | cons first tail =>
        refine bind_eq_ok.mpr ⟨left, ?_, ih hleft (by omega)⟩
        rw [← hcons]
        refine bind_eq_ok.mpr ⟨_, skipOws_quiet hquiet hbefore (Stops.cons (by decide)), ?_⟩
        refine bind_eq_ok.mpr ⟨(), by decide, ?_⟩
        refine bind_eq_ok.mpr ⟨_, skipOws_quiet hquiet hbetween (stops_isOws_token hname), ?_⟩
        refine bind_eq_ok.mpr ⟨_, parseToken_quiet hquiet hname ?_, hafter⟩
        exact stops_of_extensionValue hvalue hrest

-- ---------------------------------------------------------------------------
-- Chunk headers
-- ---------------------------------------------------------------------------

/-- The number a run of digits makes of the one read so far. -/
def hexAfter (seen : Nat) (digits : Bytes) : Nat :=
  digits.foldl (fun seen b => seen * 16 + ((hexValue b).getD 0).toNat) seen

/-- Reading on never lowers the size. -/
theorem hexAfter_ge (seen : Nat) (digits : Bytes) : seen ≤ hexAfter seen digits := by
  induction digits generalizing seen with
  | nil => exact le_rfl
  | cons b digits ih =>
    have hstep := ih (seen * 16 + ((hexValue b).getD 0).toNat)
    simp only [hexAfter, List.foldl_cons] at hstep ⊢
    omega

/-- One digit more is refused exactly when the number leaves 64 bits. -/
theorem digit_refused (result : UInt64) (digit : UInt8) :
    result > (0xFFFFFFFFFFFFFFFF - digit.toUInt64) / 16 ↔
      2 ^ 64 ≤ result.toNat * 16 + digit.toNat := by
  have hdigit : digit.toUInt64.toNat = digit.toNat := UInt8.toNat_toUInt64 digit
  have hlt : digit.toNat < 256 := digit.toNat_lt
  have hmax : (0xFFFFFFFFFFFFFFFF : UInt64).toNat = 2 ^ 64 - 1 := by decide
  have hsixteen : (16 : UInt64).toNat = 16 := by decide
  have hsub := toNat_sub_of_toNat_le (a := 0xFFFFFFFFFFFFFFFF) (b := digit.toUInt64) (by omega)
  rw [gt_iff_lt, UInt64.lt_iff_toNat_lt, UInt64.toNat_div, hsub, hdigit, hmax, hsixteen]
  omega

/-- One more digit is added without leaving 64 bits when the size fits them. -/
theorem digit_exact {result : UInt64} {digit : UInt8}
    (h : result.toNat * 16 + digit.toNat < 2 ^ 64) :
    (result * 16 + digit.toUInt64).toNat = result.toNat * 16 + digit.toNat := by
  have hdigit : digit.toUInt64.toNat = digit.toNat := UInt8.toNat_toUInt64 digit
  have hsixteen : (16 : UInt64).toNat = 16 := by decide
  have hmul : (result * 16).toNat = result.toNat * 16 := by
    rw [UInt64.toNat_mul, hsixteen]
    exact Nat.mod_eq_of_lt (by omega)
  rw [toNat_add_of_lt (by omega), hmul, hdigit]

/-- The digits of a size are read with their value, or the reader refuses. -/
theorem parseDigits_eq {result size : UInt64} {saw sawDigit : Bool}
    (h : reader.parseDigits after result saw line = .ok (size, sawDigit, rest)) :
    ∃ digits, line = digits ++ rest ∧ (∀ b ∈ digits, isHexDigit b = true) ∧
      size.toNat = hexAfter result.toNat digits ∧ (sawDigit = true → saw = true ∨ digits ≠ []) := by
  induction line generalizing result saw with
  | nil =>
    obtain ⟨rfl, rfl, rfl⟩ := Except.ok.inj h
    exact ⟨[], rfl, fun b hb => absurd hb List.not_mem_nil, rfl, Or.inl⟩
  | cons b line ih =>
    obtain ⟨_, -, hparse⟩ := bind_eq_ok.mp h
    split at hparse
    · obtain ⟨rfl, rfl, rfl⟩ := Except.ok.inj hparse
      exact ⟨[], rfl, fun b hb => absurd hb List.not_mem_nil, rfl, Or.inl⟩
    · cases hvalue : hexValue b with
      | none =>
        rw [hvalue] at hparse
        cases hparse
      | some digit =>
        rw [hvalue] at hparse
        dsimp only at hparse
        split at hparse
        · cases hparse
        · rename_i hfits
          rw [digit_refused] at hfits
          obtain ⟨digits, rfl, hdigits, hsize, -⟩ := ih hparse
          refine ⟨b :: digits, rfl, fun c hc => ?_, ?_, fun _ => Or.inr (by simp)⟩
          · rcases List.mem_cons.mp hc with rfl | hc
            · rw [isHexDigit, hvalue]
              rfl
            · exact hdigits c hc
          · rw [hsize, digit_exact (by omega)]
            simp only [hexAfter, List.foldl_cons, hvalue, Option.getD_some]

/-- A quiet reader reads a size that fits in 64 bits. -/
theorem parseDigits_quiet (hquiet : Quiet reader) (after : Nat) {result : UInt64} (saw : Bool)
    {digits : Bytes} (hdigits : ∀ b ∈ digits, isHexDigit b = true)
    (hfits : hexAfter result.toNat digits < 2 ^ 64)
    (hrest : ∀ b, rest.head? = some b → isOws b = true ∨ b = semicolon) :
    ∃ size : UInt64, size.toNat = hexAfter result.toNat digits ∧
      reader.parseDigits after result saw (digits ++ rest) =
        .ok (size, saw || !digits.isEmpty, rest) := by
  induction digits generalizing result saw with
  | nil =>
    refine ⟨result, rfl, ?_⟩
    rw [List.nil_append, List.isEmpty_nil, Bool.not_true, Bool.or_false]
    cases rest with
    | nil => rfl
    | cons b rest =>
      refine bind_eq_ok.mpr ⟨(), hquiet.checkpoint _, ?_⟩
      rw [if_pos]
      simpa using hrest b rfl
  | cons b digits ih =>
    have hb := hdigits b List.mem_cons_self
    obtain ⟨hows, hsemicolon, -⟩ := not_isOws_of_isHexDigit b hb
    obtain ⟨digit, hdigit⟩ := Option.isSome_iff_exists.mp hb
    have hstep : hexAfter result.toNat (b :: digits) =
        hexAfter (result.toNat * 16 + digit.toNat) digits := by
      simp only [hexAfter, List.foldl_cons, hdigit, Option.getD_some]
    have hge := hexAfter_ge (result.toNat * 16 + digit.toNat) digits
    rw [hstep] at hfits ⊢
    have hroom : result.toNat * 16 + digit.toNat < 2 ^ 64 := by omega
    rw [← digit_exact hroom] at hfits ⊢
    obtain ⟨size, hsize, hparse⟩ := ih true
      (fun c hc => hdigits c (List.mem_cons_of_mem b hc)) hfits
    refine ⟨size, hsize, bind_eq_ok.mpr ⟨(), hquiet.checkpoint _, ?_⟩⟩
    have hnot : ¬result > (0xFFFFFFFFFFFFFFFF - digit.toUInt64) / 16 := by
      rw [digit_refused]
      omega
    rw [if_neg (by simp [hows, hsemicolon]), hdigit]
    dsimp only
    rw [if_neg hnot]
    refine hparse.trans ?_
    simp

/-- A line that is read as a size is the header of a chunk of that size. -/
theorem parseChunkSize_eq {size : UInt64} (h : reader.parseChunkSize after line = .ok size) :
    ChunkHeader line size.toNat := by
  obtain ⟨⟨result, sawDigit, extensions⟩, hdigits, hparse⟩ := bind_eq_ok.mp h
  obtain ⟨_, hsaw, hrest⟩ := bind_eq_ok.mp hparse
  obtain ⟨_, hextensions, hsize⟩ := bind_eq_ok.mp hrest
  obtain rfl := pure_eq_ok.mp hsize
  obtain ⟨digits, rfl, hhex, hvalue, hnonempty⟩ := parseDigits_eq hdigits
  have hsaw : sawDigit = true := by
    rw [throwIf_eq_ok] at hsaw
    simpa using hsaw
  have hvalue : result.toNat = hexNumber digits := hvalue
  have hne : digits ≠ [] := by
    rcases hnonempty hsaw with hfalse | hne
    · cases hfalse
    · exact hne
  have hlt := result.toNat_lt
  rw [hvalue] at hlt ⊢
  exact .mk hne hhex hlt (parseExtensions_sound hextensions)

/-- A quiet reader reads every chunk header. -/
theorem parseChunkSize_quiet (hquiet : Quiet reader) (after : Nat) {n : Nat} (h : ChunkHeader line n) :
    ∃ size : UInt64, size.toNat = n ∧ reader.parseChunkSize after line = .ok size := by
  cases h with
  | @mk digits extensions hne hdigits hfits hextensions =>
    have hrest : ∀ b, extensions.head? = some b → isOws b = true ∨ b = semicolon := by
      intro b hb
      cases hextensions with
      | nil => cases hb
      | @cons before between name value rest hbefore hbetween hname hvalue hrest =>
        cases before with
        | nil => exact Or.inr (Option.some.inj hb).symm
        | cons c before =>
          obtain rfl := Option.some.inj hb
          exact Or.inl (hbefore c List.mem_cons_self)
    have hfits : hexAfter (0 : UInt64).toNat digits < 2 ^ 64 := hfits
    obtain ⟨size, hsize, hparse⟩ := parseDigits_quiet hquiet after false hdigits hfits hrest
    refine ⟨size, hsize, bind_eq_ok.mpr ⟨_, hparse, ?_⟩⟩
    have hempty : digits.isEmpty = false := by
      cases digits with
      | nil => exact absurd rfl hne
      | cons b digits => rfl
    refine bind_eq_ok.mpr ⟨(), by simp [hempty], ?_⟩
    exact bind_eq_ok.mpr ⟨(), parseExtensions_complete hquiet hextensions le_rfl, rfl⟩

-- ---------------------------------------------------------------------------
-- Lines without carriage returns
-- ---------------------------------------------------------------------------

/-- No carriage return stands in a quoted text. -/
theorem cr_not_mem_quoted {text : Bytes} (h : Quoted text) : cr ∉ text := by
  induction h with
  | close => decide
  | text hplain hquote hbackslash htail ih =>
    intro hmem
    rcases List.mem_cons.mp hmem with hcr | hmem
    · exact ne_cr _ (by simp [hplain]) hcr.symm
    · exact ih hmem
  | pair hpair htail ih =>
    intro hmem
    rcases List.mem_cons.mp hmem with hcr | hmem
    · exact absurd hcr (by decide)
    · rcases List.mem_cons.mp hmem with hcr | hmem
      · exact ne_cr _ (by simp [hpair]) hcr.symm
      · exact ih hmem

theorem cr_not_mem_blank {text : Bytes} (h : Blank text) : cr ∉ text :=
  fun hmem => ne_cr cr (by simp [h cr hmem]) rfl

theorem cr_not_mem_token {text : Bytes} (h : Token text) : cr ∉ text :=
  fun hmem => ne_cr cr (by simp [h.characters cr hmem]) rfl

/-- No carriage return stands in the value of an extension. -/
theorem cr_not_mem_extensionValue {text : Bytes} (h : ExtensionValue text) : cr ∉ text := by
  have hequals : cr ≠ byte '=' := by decide
  have hquote : cr ≠ quote := by decide
  cases h with
  | none => exact List.not_mem_nil
  | token hbefore hbetween hvalue =>
    simp [cr_not_mem_blank hbefore, cr_not_mem_blank hbetween, cr_not_mem_token hvalue, hequals]
  | quoted hbefore hbetween hvalue =>
    simp [cr_not_mem_blank hbefore, cr_not_mem_blank hbetween, cr_not_mem_quoted hvalue, hequals,
      hquote]

/-- No carriage return stands in a row of extensions. -/
theorem cr_not_mem_extensions {text : Bytes} (h : Extensions text) : cr ∉ text := by
  have hsemicolon : cr ≠ semicolon := by decide
  induction h with
  | nil => exact List.not_mem_nil
  | cons hbefore hbetween hname hvalue hrest ih =>
    simp [cr_not_mem_blank hbefore, cr_not_mem_blank hbetween, cr_not_mem_token hname,
      cr_not_mem_extensionValue hvalue, ih, hsemicolon]

/-- No carriage return stands in a chunk header, so the line ends behind it. -/
theorem cr_not_mem_header {n : Nat} (h : ChunkHeader line n) : cr ∉ line := by
  cases h with
  | mk hne hdigits hfits hextensions =>
    intro hmem
    rcases List.mem_append.mp hmem with hmem | hmem
    · exact (not_isOws_of_isHexDigit cr (hdigits cr hmem)).2.2 rfl
    · exact cr_not_mem_extensions hextensions hmem

/-- No carriage return stands in a trailer field. -/
theorem cr_not_mem_field {name value : Bytes} (hname : Token name)
    (hvalue : ∀ b ∈ value, isTrailerText b = true) : cr ∉ name ++ byte ':' :: value := by
  have hcolon : cr ≠ byte ':' := by decide
  have hcr : cr ∉ value := fun hmem => ne_cr cr (by simp [hvalue cr hmem]) rfl
  simp [cr_not_mem_token hname, hcolon, hcr]

-- ---------------------------------------------------------------------------
-- Trailers
-- ---------------------------------------------------------------------------

/-- The text is cut at a line end. -/
theorem findCrlf_eq {text : Bytes} (h : findCrlf text = .ok (line, rest)) :
    text = line ++ crlf ++ rest := by
  unfold findCrlf at h
  split at h
  · cases h
  · rename_i cut hcut
    obtain rfl := Except.ok.inj h
    exact splitCrlf_sound hcut

/-- A line without a carriage return is cut at the first line end behind it. -/
theorem findCrlf_line (hline : cr ∉ line) (rest : Bytes) :
    findCrlf (line ++ crlf ++ rest) = .ok (line, rest) := by
  rw [findCrlf, splitCrlf_eq_some hline]

/-- The text that passes is made of trailer characters. -/
theorem checkTrailerText_eq {u : Unit} (h : reader.checkTrailerText after line = .ok u) :
    ∀ b ∈ line, isTrailerText b = true := by
  induction line with
  | nil => exact fun b hb => absurd hb List.not_mem_nil
  | cons b line ih =>
    obtain ⟨_, -, hchecked⟩ := bind_eq_ok.mp h
    obtain ⟨_, hb, hline⟩ := bind_eq_ok.mp hchecked
    rw [throwIf_eq_ok] at hb
    intro c hc
    rcases List.mem_cons.mp hc with rfl | hc
    · simpa using hb
    · exact ih hline c hc

/-- A quiet reader passes every text made of trailer characters. -/
theorem checkTrailerText_quiet (hquiet : Quiet reader)
    (h : ∀ b ∈ line, isTrailerText b = true) : reader.checkTrailerText after line = .ok () := by
  induction line with
  | nil => rfl
  | cons b line ih =>
    refine bind_eq_ok.mpr ⟨(), hquiet.checkpoint _, bind_eq_ok.mpr ⟨(), ?_, ?_⟩⟩
    · rw [throwIf_eq_ok, h b List.mem_cons_self]
      rfl
    · exact ih fun c hc => h c (List.mem_cons_of_mem b hc)

/-- A line that passes is a name, a colon and a trailer text. -/
theorem checkTrailer_eq {u : Unit} (h : reader.checkTrailer after line = .ok u) :
    ∃ name value, line = name ++ byte ':' :: value ∧ Token name ∧
      ∀ b ∈ value, isTrailerText b = true := by
  obtain ⟨left, htoken, hparse⟩ := bind_eq_ok.mp h
  obtain ⟨name, hname, rfl, -⟩ := parseToken_eq htoken
  cases left with
  | nil => cases hparse
  | cons b value =>
    obtain ⟨_, hcolon, htext⟩ := bind_eq_ok.mp hparse
    rw [throwIf_eq_ok] at hcolon
    have hb : b = byte ':' := by simpa using hcolon
    exact ⟨name, value, by rw [hb], hname, checkTrailerText_eq htext⟩

/-- A quiet reader passes every trailer field. -/
theorem checkTrailer_quiet (hquiet : Quiet reader) {name value : Bytes} (hname : Token name)
    (hvalue : ∀ b ∈ value, isTrailerText b = true) :
    reader.checkTrailer after (name ++ byte ':' :: value) = .ok () := by
  refine bind_eq_ok.mpr ⟨_, parseToken_quiet hquiet hname (Stops.cons (by decide)), ?_⟩
  exact bind_eq_ok.mpr ⟨(), by decide, checkTrailerText_quiet hquiet hvalue⟩

/-- What the loop over the trailers reads are trailers up to the empty line. -/
theorem trailerLines_eq {turns : Nat} {text : Bytes}
    (h : reader.trailerLines turns text = .ok rest) :
    ∃ trailers, Trailers trailers ∧ text = trailers ++ rest := by
  induction turns generalizing text with
  | zero => cases h
  | succ turns ih =>
    obtain ⟨_, -, hparse⟩ := bind_eq_ok.mp h
    obtain ⟨⟨line, left⟩, hfind, hline⟩ := bind_eq_ok.mp hparse
    rw [findCrlf_eq hfind]
    cases line with
    | nil =>
      obtain rfl := Except.ok.inj hline
      exact ⟨crlf, .done, rfl⟩
    | cons b line =>
      obtain ⟨_, htrailer, hleft⟩ := bind_eq_ok.mp hline
      obtain ⟨name, value, heq, hname, hvalue⟩ := checkTrailer_eq htrailer
      obtain ⟨trailers, htrailers, rfl⟩ := ih hleft
      rw [heq]
      exact ⟨_, .field hname hvalue htrailers, by simp [List.append_assoc]⟩

/-- A quiet reader reads all trailers; each turn takes at least a byte. -/
theorem trailerLines_quiet (hquiet : Quiet reader) {trailers : Bytes} (h : Trailers trailers)
    {turns : Nat} (hturns : trailers.length < turns) :
    reader.trailerLines turns (trailers ++ rest) = .ok rest := by
  induction h generalizing turns with
  | done =>
    cases turns with
    | zero => omega
    | succ turns =>
      refine bind_eq_ok.mpr ⟨(), hquiet.checkExecutionState _, ?_⟩
      exact bind_eq_ok.mpr ⟨_, findCrlf_line List.not_mem_nil rest, rfl⟩
  | @field name value tail hname hvalue htail ih =>
    cases turns with
    | zero => omega
    | succ turns =>
      simp only [List.length_append, List.length_cons] at hturns
      refine bind_eq_ok.mpr ⟨(), hquiet.checkExecutionState _, ?_⟩
      rw [List.append_assoc]
      refine bind_eq_ok.mpr ⟨_, findCrlf_line (cr_not_mem_field hname hvalue) _, ?_⟩
      cases hcons : name ++ byte ':' :: value with
      | nil => simp at hcons
      | cons b line =>
        refine bind_eq_ok.mpr ⟨(), ?_, ih (by omega)⟩
        rw [← hcons]
        exact checkTrailer_quiet hquiet hname hvalue

/-- What passes as the end of a body are trailers. -/
theorem validateTrailers_eq {text : Bytes} (h : reader.validateTrailers text = .ok rest) :
    ∃ trailers, Trailers trailers ∧ text = trailers ++ rest := by
  unfold validateTrailers at h
  split at h
  · rename_i first second tail
    split at h
    · rename_i hcrlf
      obtain rfl := Except.ok.inj h
      simp only [Bool.and_eq_true, beq_iff_eq] at hcrlf
      obtain ⟨rfl, rfl⟩ := hcrlf
      exact ⟨crlf, .done, rfl⟩
    · exact trailerLines_eq h
  · exact trailerLines_eq h

/-- A quiet reader passes every row of trailers. -/
theorem validateTrailers_quiet (hquiet : Quiet reader) {trailers : Bytes} (h : Trailers trailers) :
    reader.validateTrailers trailers = .ok [] := by
  have hlines : reader.trailerLines (trailers.length + 1) trailers = .ok [] := by
    have hlines : reader.trailerLines (trailers.length + 1) (trailers ++ []) = .ok [] :=
      trailerLines_quiet hquiet h (Nat.lt_succ_self _)
    rwa [List.append_nil] at hlines
  cases h with
  | done => rfl
  | @field name value tail hname hvalue htail =>
    unfold validateTrailers
    split
    · rename_i first second left htext
      split
      · rename_i hcrlf
        simp only [Bool.and_eq_true, beq_iff_eq] at hcrlf
        cases name with
        | nil => exact absurd rfl hname.nonempty
        | cons b name =>
          have hfirst := (List.cons.inj htext).1
          have hcharacter := hname.characters b List.mem_cons_self
          rw [hfirst, hcrlf.1] at hcharacter
          exact absurd hcharacter (by decide)
      · exact hlines
    · exact hlines

-- ---------------------------------------------------------------------------
-- The body
-- ---------------------------------------------------------------------------

/-- A line end is taken off. -/
theorem expectCrlf_eq {text : Bytes} (h : expectCrlf text = .ok rest) : text = crlf ++ rest := by
  unfold expectCrlf at h
  split at h
  · split at h
    · rename_i hcrlf
      obtain rfl := Except.ok.inj h
      simp only [Bool.and_eq_true, beq_iff_eq] at hcrlf
      obtain ⟨rfl, rfl⟩ := hcrlf
      rfl
    · cases h
  · cases h

/-- A chunk adds its data, which keeps the body within its limit. -/
theorem takeChunk_eq {maxBodyBytes size : UInt64} {decoded decoded' text : Bytes}
    (hlimit : decoded.length ≤ maxBodyBytes.toNat)
    (h : reader.takeChunk maxBodyBytes decoded size text = .ok (decoded', rest)) :
    ∃ data, data.length = size.toNat ∧ text = data ++ crlf ++ rest ∧ decoded' = decoded ++ data ∧
      decoded'.length ≤ maxBodyBytes.toNat := by
  obtain ⟨_, hfits, hparse⟩ := bind_eq_ok.mp h
  obtain ⟨_, -, hdata⟩ := bind_eq_ok.mp hparse
  obtain ⟨left, hcrlf, heq⟩ := bind_eq_ok.mp hdata
  obtain ⟨rfl, rfl⟩ := Prod.mk.inj (pure_eq_ok.mp heq)
  have hmax := maxBodyBytes.toNat_lt
  have hdecoded : (UInt64.ofNat decoded.length).toNat = decoded.length := by
    rw [UInt64.toNat_ofNat']
    exact Nat.mod_eq_of_lt (by omega)
  have hsub := toNat_sub_of_toNat_le (a := maxBodyBytes) (b := UInt64.ofNat decoded.length)
    (by omega)
  rw [throwIf_eq_ok, Bool.or_eq_false_iff, decide_eq_false_iff_not, decide_eq_false_iff_not,
    gt_iff_lt, UInt64.lt_iff_toNat_lt, hsub, hdecoded] at hfits
  have hlength : (text.take size.toNat).length = size.toNat := by
    rw [List.length_take]
    omega
  refine ⟨text.take size.toNat, hlength, ?_, rfl, ?_⟩
  · rw [List.append_assoc, ← expectCrlf_eq hcrlf, List.take_append_drop]
  · rw [List.length_append, hlength]
    omega

/-- A quiet reader takes a chunk that fits the limit. -/
theorem takeChunk_quiet (hquiet : Quiet reader) {maxBodyBytes size : UInt64} {decoded data : Bytes}
    (hsize : size.toNat = data.length)
    (hlimit : decoded.length + data.length ≤ maxBodyBytes.toNat) :
    reader.takeChunk maxBodyBytes decoded size (data ++ crlf ++ rest) =
      .ok (decoded ++ data, rest) := by
  have hmax := maxBodyBytes.toNat_lt
  have hdecoded : (UInt64.ofNat decoded.length).toNat = decoded.length := by
    rw [UInt64.toNat_ofNat']
    exact Nat.mod_eq_of_lt (by omega)
  have hsub := toNat_sub_of_toNat_le (a := maxBodyBytes) (b := UInt64.ofNat decoded.length)
    (by omega)
  refine bind_eq_ok.mpr ⟨(), ?_, bind_eq_ok.mpr ⟨(), hquiet.checkExecutionState _, ?_⟩⟩
  · rw [throwIf_eq_ok, Bool.or_eq_false_iff, decide_eq_false_iff_not, decide_eq_false_iff_not,
      gt_iff_lt, UInt64.lt_iff_toNat_lt, hsub, hdecoded, List.length_append, List.length_append]
    omega
  · rw [hsize, List.append_assoc, List.drop_left, List.take_left]
    rfl

/-- The body ends with its trailers and is what was decoded before them. -/
theorem finishBody_eq {decoded body text : Bytes}
    (h : reader.finishBody decoded text = .ok body) : Trailers text ∧ body = decoded := by
  obtain ⟨left, hvalidate, hparse⟩ := bind_eq_ok.mp h
  obtain ⟨_, hempty, heq⟩ := bind_eq_ok.mp hparse
  rw [throwIf_eq_ok] at hempty
  have hleft : left = [] := by simpa using hempty
  obtain ⟨trailers, htrailers, rfl⟩ := validateTrailers_eq hvalidate
  rw [hleft, List.append_nil]
  exact ⟨htrailers, (pure_eq_ok.mp heq).symm⟩

/-- What the loop accepts is a framing of what it adds. -/
theorem decodeChunks_sound {maxBodyBytes : UInt64} {turns : Nat} {decoded text body : Bytes}
    (hlimit : decoded.length ≤ maxBodyBytes.toNat)
    (h : reader.decodeChunks maxBodyBytes turns decoded text = .ok body) :
    ∃ added, body = decoded ++ added ∧ Framing text added ∧ body.length ≤ maxBodyBytes.toNat := by
  induction turns generalizing decoded text with
  | zero => cases h
  | succ turns ih =>
    obtain ⟨_, -, hparse⟩ := bind_eq_ok.mp h
    obtain ⟨⟨line, left⟩, hfind, hline⟩ := bind_eq_ok.mp hparse
    obtain ⟨size, hsize, hchunk⟩ := bind_eq_ok.mp hline
    have hheader := parseChunkSize_eq hsize
    rw [findCrlf_eq hfind]
    split at hchunk
    · rename_i hzero
      obtain ⟨htrailers, rfl⟩ := finishBody_eq hchunk
      rw [beq_iff_eq.mp hzero] at hheader
      exact ⟨[], (List.append_nil _).symm, .last hheader htrailers, hlimit⟩
    · rename_i hnonzero
      obtain ⟨⟨decoded', rest⟩, htake, hrest⟩ := bind_eq_ok.mp hchunk
      obtain ⟨data, hlength, rfl, rfl, hlimit'⟩ := takeChunk_eq hlimit htake
      obtain ⟨added, rfl, hframing, hbody⟩ := ih hlimit' hrest
      refine ⟨data ++ added, List.append_assoc _ _ _, ?_, hbody⟩
      rw [← hlength] at hheader
      refine .chunk hheader (fun hempty => ?_) hframing
      rw [hempty, List.length_nil] at hlength
      have hsizeZero : size = 0 := UInt64.toNat_inj.mp hlength.symm
      simp [hsizeZero] at hnonzero

/-- Every framing of a body within the limit is accepted. -/
theorem decodeChunks_complete (hquiet : Quiet reader) {maxBodyBytes : UInt64} {text added : Bytes}
    (h : Framing text added) {turns : Nat} (hturns : text.length < turns) {decoded : Bytes}
    (hlimit : decoded.length + added.length ≤ maxBodyBytes.toNat) :
    reader.decodeChunks maxBodyBytes turns decoded text = .ok (decoded ++ added) := by
  induction h generalizing turns decoded with
  | @last header trailers hheader htrailers =>
    cases turns with
    | zero => omega
    | succ turns =>
      obtain ⟨size, hsize, hparse⟩ := parseChunkSize_quiet hquiet (trailers.length + 2) hheader
      refine bind_eq_ok.mpr ⟨(), hquiet.checkExecutionState _, ?_⟩
      refine bind_eq_ok.mpr ⟨_, findCrlf_line (cr_not_mem_header hheader) trailers, ?_⟩
      refine bind_eq_ok.mpr ⟨size, hparse, ?_⟩
      have hzero : size = 0 := UInt64.toNat_inj.mp hsize
      rw [if_pos (by simp [hzero]), List.append_nil]
      refine bind_eq_ok.mpr ⟨[], validateTrailers_quiet hquiet htrailers, ?_⟩
      exact bind_eq_ok.mpr ⟨(), rfl, rfl⟩
  | @chunk header data rest body hheader hdata hrest ih =>
    cases turns with
    | zero => omega
    | succ turns =>
      obtain ⟨size, hsize, hparse⟩ := parseChunkSize_quiet hquiet
        ((data ++ crlf ++ rest).length + 2) hheader
      have hpositive := List.length_pos_iff.mpr hdata
      simp only [List.length_append] at hturns hlimit
      refine bind_eq_ok.mpr ⟨(), hquiet.checkExecutionState _, ?_⟩
      refine bind_eq_ok.mpr ⟨_, findCrlf_line (cr_not_mem_header hheader) _, ?_⟩
      refine bind_eq_ok.mpr ⟨size, hparse, ?_⟩
      have hnonzero : size ≠ 0 := by
        intro hzero
        rw [hzero] at hsize
        have : (0 : UInt64).toNat = 0 := by decide
        omega
      rw [if_neg (by simpa using hnonzero)]
      refine bind_eq_ok.mpr ⟨_, takeChunk_quiet hquiet hsize (by omega), ?_⟩
      rw [← List.append_assoc]
      refine ih (by omega) ?_
      rw [List.length_append]
      omega

-- ---------------------------------------------------------------------------
-- No framing continues another one
-- ---------------------------------------------------------------------------

/-- A text has one cut at its first line end. -/
theorem crlf_cut {a b x y : Bytes} (ha : cr ∉ a) (hb : cr ∉ b)
    (h : a ++ crlf ++ x = b ++ crlf ++ y) : a = b ∧ x = y := by
  rw [List.append_assoc, List.append_assoc] at h
  obtain ⟨hab, hxy⟩ := cut_unique ha hb h
  exact ⟨hab, (List.cons.inj hxy).2⟩

/-- Nothing may follow the trailers. -/
theorem trailers_ends {trailers more : Bytes} (h : Trailers trailers)
    (hmore : Trailers (trailers ++ more)) : more = [] := by
  induction h with
  | done =>
    generalize htext : crlf ++ more = text at hmore
    cases hmore with
    | done =>
      have := congrArg List.length htext
      rw [List.length_append] at this
      exact List.length_eq_zero_iff.mp (by omega)
    | @field name value rest hname hvalue hrest =>
      have hcut : ([] : Bytes) ++ crlf ++ more = name ++ byte ':' :: value ++ crlf ++ rest := htext
      obtain ⟨hline, -⟩ := crlf_cut List.not_mem_nil (cr_not_mem_field hname hvalue) hcut
      simp at hline
  | @field name value rest hname hvalue hrest ih =>
    rw [List.append_assoc] at hmore
    generalize htext : name ++ byte ':' :: value ++ crlf ++ (rest ++ more) = text at hmore
    cases hmore with
    | done =>
      have hcut : name ++ byte ':' :: value ++ crlf ++ (rest ++ more) = [] ++ crlf ++ [] := htext
      obtain ⟨hline, -⟩ := crlf_cut (cr_not_mem_field hname hvalue) List.not_mem_nil hcut
      simp at hline
    | @field name' value' rest' hname' hvalue' hrest' =>
      obtain ⟨-, rfl⟩ := crlf_cut (cr_not_mem_field hname hvalue)
        (cr_not_mem_field hname' hvalue') htext
      exact ih hrest'

/-- A header states one size. -/
theorem header_unique {m n : Nat} (hm : ChunkHeader line m) (hn : ChunkHeader line n) : m = n := by
  have hquiet : Quiet ⟨fun _ => none, 0⟩ := fun _ => rfl
  obtain ⟨size, hsize, hparse⟩ := parseChunkSize_quiet hquiet 0 hm
  obtain ⟨size', hsize', hparse'⟩ := parseChunkSize_quiet hquiet 0 hn
  rw [hparse] at hparse'
  rw [← hsize, ← hsize', Except.ok.inj hparse']

/-- Nothing may follow a framed body. -/
theorem framing_ends {text body body' more : Bytes} (h : Framing text body)
    (hmore : Framing (text ++ more) body') : more = [] := by
  induction h generalizing body' with
  | @last header trailers hheader htrailers =>
    rw [List.append_assoc] at hmore
    generalize htext : header ++ crlf ++ (trailers ++ more) = whole at hmore
    cases hmore with
    | last hheader' htrailers' =>
      obtain ⟨-, rfl⟩ := crlf_cut (cr_not_mem_header hheader) (cr_not_mem_header hheader') htext
      exact trailers_ends htrailers htrailers'
    | chunk hheader' hdata' hrest' =>
      obtain ⟨rfl, -⟩ := crlf_cut (cr_not_mem_header hheader) (cr_not_mem_header hheader') htext
      have hlength := header_unique hheader hheader'
      exact absurd (List.length_eq_zero_iff.mp hlength.symm) hdata'
  | @chunk header data rest body hheader hdata hrest ih =>
    rw [List.append_assoc] at hmore
    generalize htext : header ++ crlf ++ (data ++ crlf ++ rest ++ more) = whole at hmore
    cases hmore with
    | last hheader' htrailers' =>
      obtain ⟨rfl, -⟩ := crlf_cut (cr_not_mem_header hheader) (cr_not_mem_header hheader') htext
      have hlength := header_unique hheader hheader'
      exact absurd (List.length_eq_zero_iff.mp hlength) hdata
    | @chunk header' data' rest' body' hheader' hdata' hrest' =>
      obtain ⟨rfl, hchunks⟩ :=
        crlf_cut (cr_not_mem_header hheader) (cr_not_mem_header hheader') htext
      have hlength := header_unique hheader hheader'
      rw [List.append_assoc, List.append_assoc, List.append_assoc] at hchunks
      obtain ⟨-, hrests⟩ := List.append_inj hchunks hlength
      have hrests : rest ++ more = rest' := List.append_cancel_left hrests
      rw [← hrests] at hrest'
      exact ih hrest'

-- ---------------------------------------------------------------------------
-- The decoder
-- ---------------------------------------------------------------------------

/-- A call that nothing interrupts, on strings whose storage is rounded up by
less than the allocation slop and has a largest size. -/
structure ChunkEnv.Calm (env : ChunkEnv) : Prop where
  uninterrupted : ∀ left, env.interruption left = none
  rounding : ∀ reserved, env.capacity reserved < reserved + 64
  maxSize : ∀ reserved, env.capacity reserved < 2 ^ 63

/-- Where the strings grow as documented, the capacity check passes. -/
theorem capacity_bounded {env : ChunkEnv} (h : env.Calm) (encoded : Nat) (maxBodyBytes : UInt64) :
    hasBoundedHttpStringCapacity (env.capacity (min encoded maxBodyBytes.toNat)) maxBodyBytes =
      true := by
  have hround := h.rounding (min encoded maxBodyBytes.toNat)
  have hsize := h.maxSize (min encoded maxBodyBytes.toNat)
  have hmax := maxBodyBytes.toNat_lt
  have hslop : (64 : UInt64).toNat = 64 := by decide
  have htop : (0xFFFFFFFFFFFFFFFF : UInt64).toNat = 2 ^ 64 - 1 := by decide
  have hbound : (0xFFFFFFFFFFFFFFFF - 64 : UInt64).toNat = 2 ^ 64 - 65 := by decide
  have hlimit : (httpStringAllocationLimit maxBodyBytes).toNat =
      if maxBodyBytes.toNat > 2 ^ 64 - 65 then 2 ^ 64 - 1 else maxBodyBytes.toNat + 64 := by
    unfold httpStringAllocationLimit
    simp only [gt_iff_lt, UInt64.lt_iff_toNat_lt, hbound]
    split
    · exact htop
    · rw [toNat_add_of_lt (by omega), hslop]
  rw [hasBoundedHttpStringCapacity, hlimit, Bool.and_eq_true, decide_eq_true_eq, decide_eq_true_eq]
  split <;> omega

/-- One chunk, its size in hexadecimal. -/
def encodeChunk (data : Bytes) : Bytes :=
  hexadecimal data.length ++ crlf ++ (data ++ crlf)

/-- A body in chunks, without extensions or trailers. -/
def encodeChunks (chunks : List Bytes) : Bytes :=
  (chunks.map encodeChunk).flatten ++ (ascii "0" ++ crlf ++ crlf)

/-- The hexadecimal text of a size is the header of a chunk. -/
theorem header_hexadecimal {n : Nat} (h : n < 2 ^ 64) : ChunkHeader (hexadecimal n) n := by
  have hvalue := hexNumber_hexadecimal n
  have hheader : ChunkHeader (hexadecimal n ++ []) (hexNumber (hexadecimal n)) :=
    .mk (hexadecimal_ne_nil n) (isHexDigit_hexadecimalFrom n n) (by omega) .nil
  rwa [List.append_nil, hvalue] at hheader

/-- Chunks that are encoded one after another frame their concatenation. -/
theorem framing_encodeChunks {chunks : List Bytes} (hchunks : ∀ data ∈ chunks, data ≠ [])
    (hlength : chunks.flatten.length < 2 ^ 64) : Framing (encodeChunks chunks) chunks.flatten := by
  induction chunks with
  | nil => exact .last (header_hexadecimal (n := 0) (by decide)) .done
  | cons data chunks ih =>
    rw [List.flatten_cons, List.length_append] at hlength
    have hrest := ih (fun other hother => hchunks other (List.mem_cons_of_mem data hother)) (by omega)
    have hencode : encodeChunks (data :: chunks) =
        hexadecimal data.length ++ crlf ++ (data ++ crlf ++ encodeChunks chunks) := by
      simp [encodeChunks, encodeChunk, List.append_assoc]
    rw [hencode, List.flatten_cons]
    exact .chunk (header_hexadecimal (by omega)) (hchunks data List.mem_cons_self) hrest

/-- What is decoded was framed, and lies within the limit. -/
theorem decode_sound {env : ChunkEnv} {encoded body : Bytes} {maxBodyBytes : UInt64}
    (h : decodeHttpChunkedBody env encoded maxBodyBytes = .ok body) :
    Framing encoded body ∧ body.length ≤ maxBodyBytes.toNat := by
  obtain ⟨_, -, hparse⟩ := bind_eq_ok.mp h
  obtain ⟨_, -, hchunks⟩ := bind_eq_ok.mp hparse
  obtain ⟨added, rfl, hframing, hlimit⟩ := decodeChunks_sound (Nat.zero_le _) hchunks
  exact ⟨hframing, hlimit⟩

/-- In a calm environment every framed body within the limit is decoded. -/
theorem decode_complete {env : ChunkEnv} (henv : env.Calm) {encoded body : Bytes}
    {maxBodyBytes : UInt64} (h : Framing encoded body)
    (hlimit : body.length ≤ maxBodyBytes.toNat) :
    decodeHttpChunkedBody env encoded maxBodyBytes = .ok body := by
  have hquiet : Quiet ⟨env.interruption, encoded.length⟩ := henv.uninterrupted
  refine bind_eq_ok.mpr ⟨(), hquiet.checkExecutionState _, bind_eq_ok.mpr ⟨(), ?_, ?_⟩⟩
  · rw [throwIf_eq_ok, capacity_bounded henv encoded.length maxBodyBytes]
    rfl
  · refine decodeChunks_complete hquiet h (Nat.lt_succ_self _) ?_
    rw [List.length_nil]
    omega

/-- The decoder accepts exactly the framings: what it returns is the body of one
within the limit, every split of a body into chunks decodes to it, and nothing
shorter than a framing is accepted. -/
theorem chunk_decoding_exact :
    (∀ env encoded maxBodyBytes body,
      decodeHttpChunkedBody env encoded maxBodyBytes = .ok body →
      Framing encoded body ∧ body.length ≤ maxBodyBytes.toNat) ∧
    (∀ env encoded maxBodyBytes body, ChunkEnv.Calm env →
      Framing encoded body → body.length ≤ maxBodyBytes.toNat →
      decodeHttpChunkedBody env encoded maxBodyBytes = .ok body) ∧
    (∀ env chunks maxBodyBytes, ChunkEnv.Calm env →
      (∀ data ∈ chunks, data ≠ []) → chunks.flatten.length ≤ maxBodyBytes.toNat →
      decodeHttpChunkedBody env (encodeChunks chunks) maxBodyBytes = .ok chunks.flatten) ∧
    (∀ env text more body maxBodyBytes body', Framing (text ++ more) body → more ≠ [] →
      decodeHttpChunkedBody env text maxBodyBytes ≠ .ok body') ∧
    (∀ reader after line size, parseChunkSize reader after line = .ok size →
      ChunkHeader line size.toNat) := by
  refine ⟨fun _ _ _ _ h => decode_sound h, ?_, ?_, ?_, fun _ _ _ _ h => parseChunkSize_eq h⟩
  · intro env encoded maxBodyBytes body henv hframing hlimit
    exact decode_complete henv hframing hlimit
  · intro env chunks maxBodyBytes henv hchunks hlimit
    have hmax := maxBodyBytes.toNat_lt
    exact decode_complete henv (framing_encodeChunks hchunks (by omega)) hlimit
  · intro env text more body maxBodyBytes body' hwhole hmore hdecode
    exact hmore (framing_ends (decode_sound hdecode).1 hwhole)

/-- Strings that reserve what they are asked for, and at least fifteen bytes. -/
def calmEnv : ChunkEnv := ⟨fun _ => none, fun reserved => min (max reserved 15) (2 ^ 63 - 1)⟩

theorem calmEnv_calm : calmEnv.Calm := by
  refine ⟨fun _ => rfl, fun reserved => ?_, fun reserved => ?_⟩
  · simp only [calmEnv]
    omega
  · simp only [calmEnv]
    omega

theorem chunk_decoding_exact_two_chunks :
    decodeHttpChunkedBody calmEnv (ascii "2\r\n[1\r\n1\r\n]\r\n0\r\n\r\n") 64 = .ok (ascii "[1]") ∧
    Framing (ascii "2\r\n[1\r\n1\r\n]\r\n0\r\n\r\n") (ascii "[1]") := by
  have hdecode : decodeHttpChunkedBody calmEnv (ascii "2\r\n[1\r\n1\r\n]\r\n0\r\n\r\n") 64 =
      .ok (ascii "[1]") := by
    have hencode : encodeChunks [ascii "[1", ascii "]"] = ascii "2\r\n[1\r\n1\r\n]\r\n0\r\n\r\n" := by
      decide +kernel
    have hsplit := chunk_decoding_exact.2.2.1 calmEnv [ascii "[1", ascii "]"] 64 calmEnv_calm
      (by decide +kernel) (by decide +kernel)
    rwa [hencode] at hsplit
  exact ⟨hdecode, (chunk_decoding_exact.1 _ _ _ _ hdecode).1⟩

end Cuac.Runtime

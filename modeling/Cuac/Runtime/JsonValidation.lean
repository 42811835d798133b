import Cuac.Runtime.JsonStrings

/-!
# Runtime — what the JSON readers accept

Both readers recurse over values alike; `Lexes` says what the recursion needs of
the way strings and numbers are skipped. A run that returns has consumed a value of
the grammar (`skip_sound`), every value of the grammar is consumed (`skip_complete`),
and a number of turns that grows with the text is always enough (`skip_finishes`).

Main result:

* `json_validators_agree`
-/

namespace Cuac.Runtime.Json

open Cuac.Lib Cuac.Lib.Json

/-- What the recursion over values needs of the readers of strings and numbers. -/
structure Lexes (skipString skipNumber : Bytes → Result Bytes) : Prop where
  string : ∀ input rest, skipString input = .ok rest ↔
    ∃ text, IsString text ∧ input = text ++ rest
  number_sound : ∀ input rest, skipNumber input = .ok rest →
    ∃ text, IsNumber text ∧ input = text ++ rest
  number_complete : ∀ text rest, IsNumber text → Stops continuesNumber rest →
    skipNumber (text ++ rest) = .ok rest
  string_finishes : ∀ input, Throws (· ≠ .running) (skipString input)
  number_finishes : ∀ input, Throws (· ≠ .running) (skipNumber input)

-- ---------------------------------------------------------------------------
-- Separators
-- ---------------------------------------------------------------------------

/-- Between two items stands a comma, and behind the last one the closing bracket. -/
theorem separator_sound {close : UInt8} (hclose : close ≠ 0) {input rest : Bytes}
    (h : separator close input = .ok rest) :
    (∃ gap tail, IsWhitespace gap ∧ rest = close :: tail ∧ input = gap ++ rest) ∨
      ∃ before after, IsWhitespace before ∧ IsWhitespace after ∧ peek rest ≠ close ∧
        input = before ++ byte ',' :: (after ++ rest) := by
  obtain ⟨before, hbefore, hinput⟩ := skipWhitespace_split input
  unfold separator at h
  generalize skipWhitespace input = trimmed at h hinput
  dsimp only at h
  split at h
  · rename_i hcomma
    obtain ⟨tail, rfl⟩ := (peek_eq (by decide)).mp (beq_iff_eq.mp hcomma)
    obtain ⟨after, hafter, htail⟩ := skipWhitespace_split tail
    split at h
    · cases h
    rename_i hopen
    obtain rfl := Except.ok.inj h
    refine .inr ⟨before, after, hbefore, hafter, by simpa using hopen, ?_⟩
    rw [hinput, List.tail_cons, ← htail]
  split at h
  · cases h
  rename_i hend
  obtain rfl := Except.ok.inj h
  obtain ⟨tail, rfl⟩ := (peek_eq hclose).mp (by simpa using hend)
  exact .inl ⟨before, tail, hbefore, rfl, hinput⟩

/-- A gap in front of the closing bracket is skipped, and the bracket is left. -/
theorem separator_close {close : UInt8} (hcomma : close ≠ byte ',')
    (hspace : isWhitespace close = false) {gap tail : Bytes} (hgap : IsWhitespace gap) :
    separator close (gap ++ close :: tail) = .ok (close :: tail) := by
  rw [separator, skipWhitespace_append hgap (Stops.cons hspace)]
  simp [hcomma]

/-- A comma and the gaps around it are taken off when another item follows. -/
theorem separator_comma {close : UInt8} {before after rest : Bytes} (hbefore : IsWhitespace before)
    (hafter : IsWhitespace after) (hrest : Stops isWhitespace rest) (hopen : peek rest ≠ close) :
    separator close (before ++ byte ',' :: (after ++ rest)) = .ok rest := by
  rw [separator, skipWhitespace_append hbefore (Stops.cons (by decide))]
  dsimp only [peek_cons, List.tail_cons]
  rw [skipWhitespace_append hafter hrest]
  simp [hopen]

section Values

variable {skipString skipNumber : Bytes → Result Bytes} {limit : Nat}

-- ---------------------------------------------------------------------------
-- Soundness
-- ---------------------------------------------------------------------------

/-- At the closing bracket there is no element to skip. -/
theorem skipElements_close {turns depth : Nat} {input rest : Bytes}
    (hpeek : peek input = byte ']')
    (h : skipElementsWith skipString skipNumber limit turns depth input = .ok rest) :
    rest = input := by
  cases turns with
  | zero =>
    rw [skipElementsWith] at h
    cases h
  | succ turns =>
    rw [skipElementsWith, hpeek] at h
    exact (Except.ok.inj h).symm

/-- At the closing brace there is no member to skip. -/
theorem skipMembers_close {turns depth : Nat} {input rest : Bytes}
    (hpeek : peek input = byte '}')
    (h : skipMembersWith skipString skipNumber limit turns depth input = .ok rest) :
    rest = input := by
  cases turns with
  | zero =>
    rw [skipMembersWith] at h
    cases h
  | succ turns =>
    rw [skipMembersWith, hpeek] at h
    exact (Except.ok.inj h).symm

/-- What a reader of values promises: whitespace and a value are gone. -/
def ConsumesValue (limit depth : Nat) (input rest : Bytes) : Prop :=
  depth ≤ limit ∧ ∃ gap text, IsWhitespace gap ∧ Derives .value (limit - depth) text ∧
    input = gap ++ (text ++ rest)

/-- What a loop promises: it stands at the closing byte, and anything before it is a
list of the grammar. -/
def ConsumesList (part : Part) (close : UInt8) (limit depth : Nat) (input rest : Bytes) : Prop :=
  (∃ tail, rest = close :: tail) ∧
    (input = rest ∨ depth < limit ∧ ∃ gap items, IsWhitespace gap ∧
      Derives part (limit - (depth + 1)) items ∧ input = gap ++ (items ++ rest))

/-- One element and its separator stand in front of what the loop consumes next. -/
theorem skipElements_step {depth : Nat} {input first second rest : Bytes}
    (hvalue : ConsumesValue limit (depth + 1) input first)
    (hseparator : separator (byte ']') first = .ok second)
    (hclose : peek second = byte ']' → rest = second)
    (hmore : ConsumesList .elements (byte ']') limit depth second rest) :
    ConsumesList .elements (byte ']') limit depth input rest := by
  obtain ⟨hdepth, gap, text, hgap, htext, rfl⟩ := hvalue
  refine ⟨hmore.1, .inr ⟨hdepth, gap, ?_⟩⟩
  rcases separator_sound (by decide) hseparator with
    ⟨trail, tail, htrail, rfl, rfl⟩ | ⟨before, after, hbefore, hafter, hopen, rfl⟩
  · obtain rfl := hclose rfl
    exact ⟨_, hgap, .lastElement htext htrail, by simp⟩
  · obtain ⟨⟨tail, rfl⟩, rfl | ⟨-, lead, items, hlead, hitems, rfl⟩⟩ := hmore
    · exact absurd rfl hopen
    · exact ⟨_, hgap, .element htext hbefore (hafter.append hlead) hitems, by simp⟩

/-- One member and its separator stand in front of what the loop consumes next. -/
theorem skipMembers_step {depth : Nat} {key before input first second rest : Bytes}
    (hkey : IsString key) (hbefore : IsWhitespace before)
    (hvalue : ConsumesValue limit (depth + 1) input first)
    (hseparator : separator (byte '}') first = .ok second)
    (hclose : peek second = byte '}' → rest = second)
    (hmore : ConsumesList .members (byte '}') limit depth second rest) :
    ConsumesList .members (byte '}') limit depth (key ++ (before ++ byte ':' :: input)) rest := by
  obtain ⟨hdepth, after, text, hafter, htext, rfl⟩ := hvalue
  refine ⟨hmore.1, .inr ⟨hdepth, [], ?_⟩⟩
  rcases separator_sound (by decide) hseparator with
    ⟨trail, tail, htrail, rfl, rfl⟩ | ⟨gap, next, hgap, hnext, hopen, rfl⟩
  · obtain rfl := hclose rfl
    exact ⟨_, .nil, .lastMember hkey hbefore hafter htext htrail, by simp⟩
  · obtain ⟨⟨tail, rfl⟩, rfl | ⟨-, lead, items, hlead, hitems, rfl⟩⟩ := hmore
    · exact absurd rfl hopen
    · exact ⟨_, .nil, .member hkey hbefore hafter htext hgap (hnext.append hlead) hitems,
        by simp⟩

/-- An array is consumed when its elements are. -/
theorem consumesValue_array {depth : Nat} (hdepth : depth ≤ limit) {gap input tail : Bytes}
    (hgap : IsWhitespace gap)
    (h : ConsumesList .elements (byte ']') limit depth input (byte ']' :: tail)) :
    ConsumesValue limit depth (byte '[' :: (gap ++ input)) tail := by
  refine ⟨hdepth, [], ?_⟩
  rcases h.2 with rfl | ⟨hroom, lead, items, hlead, hitems, rfl⟩
  · exact ⟨_, .nil, .emptyArray hgap, by simp⟩
  · have hlevel : limit - depth = limit - (depth + 1) + 1 := by omega
    rw [hlevel]
    exact ⟨_, .nil, .array (hgap.append hlead) hitems, by simp⟩

/-- An object is consumed when its members are. -/
theorem consumesValue_object {depth : Nat} (hdepth : depth ≤ limit) {gap input tail : Bytes}
    (hgap : IsWhitespace gap)
    (h : ConsumesList .members (byte '}') limit depth input (byte '}' :: tail)) :
    ConsumesValue limit depth (byte '{' :: (gap ++ input)) tail := by
  refine ⟨hdepth, [], ?_⟩
  rcases h.2 with rfl | ⟨hroom, lead, items, hlead, hitems, rfl⟩
  · exact ⟨_, .nil, .emptyObject hgap, by simp⟩
  · have hlevel : limit - depth = limit - (depth + 1) + 1 := by omega
    rw [hlevel]
    exact ⟨_, .nil, .object (hgap.append hlead) hitems, by simp⟩

/-- Leading whitespace belongs to what a reader of values consumes. -/
theorem ConsumesValue.append {depth : Nat} {gap input rest : Bytes} (hgap : IsWhitespace gap)
    (h : ConsumesValue limit depth input rest) : ConsumesValue limit depth (gap ++ input) rest := by
  obtain ⟨hdepth, lead, text, hlead, htext, rfl⟩ := h
  exact ⟨hdepth, _, text, hgap.append hlead, htext, (List.append_assoc _ _ _).symm⟩

/-- A run that returns has consumed a value, or a list up to its closing byte. The
induction is on the turns, over the value and both loops at once. -/
theorem skip_sound (hlex : Lexes skipString skipNumber) (turns : Nat) :
    (∀ depth input rest, skipValueWith skipString skipNumber limit turns depth input = .ok rest →
      ConsumesValue limit depth input rest) ∧
    (∀ depth input rest,
      skipElementsWith skipString skipNumber limit turns depth input = .ok rest →
      ConsumesList .elements (byte ']') limit depth input rest) ∧
    (∀ depth input rest,
      skipMembersWith skipString skipNumber limit turns depth input = .ok rest →
      ConsumesList .members (byte '}') limit depth input rest) := by
  -- On the turns, for values, elements and members at once, as each loop calls the others.
  induction turns with
  | zero =>
    refine ⟨?_, ?_, ?_⟩
    · intro depth input rest h
      rw [skipValueWith] at h
      cases h
    · intro depth input rest h
      rw [skipElementsWith] at h
      cases h
    · intro depth input rest h
      rw [skipMembersWith] at h
      cases h
  | succ turns ih =>
    obtain ⟨ihvalue, ihelements, ihmembers⟩ := ih
    refine ⟨?_, ?_, ?_⟩
    · intro depth input rest h
      obtain ⟨gap, hgap, hinput⟩ := skipWhitespace_split input
      rw [skipValueWith] at h
      generalize skipWhitespace input = trimmed at h hinput
      rw [hinput]
      refine ConsumesValue.append hgap ?_
      split at h
      · cases h
      rename_i hdepth
      have hdepth : depth ≤ limit := by omega
      -- A scalar consumes itself; the two brackets go to the loops.
      have hvalue {text : Bytes} (htext : Derives .value (limit - depth) text) :
          ConsumesValue limit depth (text ++ rest) rest :=
        ⟨hdepth, [], text, .nil, htext, rfl⟩
      split at h
      · obtain ⟨text, htext, rfl⟩ := (hlex.string _ _).mp h
        exact hvalue (.string htext)
      split at h
      · obtain ⟨text, htext, rfl⟩ := hlex.number_sound _ _ h
        exact hvalue (.number htext)
      split at h
      · obtain rfl := literal_eq_ok.mp h
        exact hvalue (.literal (.inl rfl))
      split at h
      · obtain rfl := literal_eq_ok.mp h
        exact hvalue (.literal (.inr (.inl rfl)))
      split at h
      · obtain rfl := literal_eq_ok.mp h
        exact hvalue (.literal (.inr (.inr rfl)))
      split at h
      · simp only [bind_eq_ok, expect_eq_ok] at h
        obtain ⟨items, rfl, closed, hitems, rfl⟩ := h
        obtain ⟨lead, hlead, htrim⟩ := skipWhitespace_split items
        have hlist := consumesValue_array hdepth hlead (ihelements _ _ _ hitems)
        rwa [← htrim] at hlist
      split at h
      · simp only [bind_eq_ok, expect_eq_ok] at h
        obtain ⟨items, rfl, closed, hitems, rfl⟩ := h
        obtain ⟨lead, hlead, htrim⟩ := skipWhitespace_split items
        have hlist := consumesValue_object hdepth hlead (ihmembers _ _ _ hitems)
        rwa [← htrim] at hlist
      · cases h
    · intro depth input rest h
      rw [skipElementsWith] at h
      split at h
      · rename_i hclose
        obtain rfl := Except.ok.inj h
        exact ⟨(peek_eq (by decide)).mp (beq_iff_eq.mp hclose), .inl rfl⟩
      · obtain ⟨first, hvalue, hnext⟩ := bind_eq_ok.mp h
        obtain ⟨second, hseparator, hmore⟩ := bind_eq_ok.mp hnext
        exact skipElements_step (ihvalue _ _ _ hvalue) hseparator
          (fun hpeek => skipElements_close hpeek hmore) (ihelements _ _ _ hmore)
    · intro depth input rest h
      rw [skipMembersWith] at h
      split at h
      · rename_i hclose
        obtain rfl := Except.ok.inj h
        exact ⟨(peek_eq (by decide)).mp (beq_iff_eq.mp hclose), .inl rfl⟩
      · obtain ⟨_, -, hkey⟩ := bind_eq_ok.mp h
        obtain ⟨afterKey, hkey, hcolon⟩ := bind_eq_ok.mp hkey
        obtain ⟨afterColon, hcolon, hvalue⟩ := bind_eq_ok.mp hcolon
        obtain ⟨first, hvalue, hnext⟩ := bind_eq_ok.mp hvalue
        obtain ⟨second, hseparator, hmore⟩ := bind_eq_ok.mp hnext
        obtain ⟨key, hstring, rfl⟩ := (hlex.string _ _).mp hkey
        obtain ⟨before, hbefore, hafterKey⟩ := skipWhitespace_split afterKey
        rw [expect_eq_ok.mp hcolon] at hafterKey
        rw [hafterKey]
        exact skipMembers_step hstring hbefore (ihvalue _ _ _ hvalue) hseparator
          (fun hpeek => skipMembers_close hpeek hmore) (ihmembers _ _ _ hmore)

-- ---------------------------------------------------------------------------
-- Completeness
-- ---------------------------------------------------------------------------

/-- What a value starts with is neither whitespace nor a closing byte. -/
theorem startsValue_facts {b : UInt8} (h : startsValue b = true) :
    isWhitespace b = false ∧ b ≠ byte ']' ∧ b ≠ byte '}' := by
  have hall : ∀ b : UInt8, startsValue b = true →
      isWhitespace b = false ∧ b ≠ byte ']' ∧ b ≠ byte '}' := forall_byte (by decide)
  exact hall b h

/-- A derived text starts with no whitespace and with no closing bracket. -/
theorem Derives.stops {part : Part} {room : Nat} {text : Bytes} (h : Derives part room text)
    (rest : Bytes) : Stops isWhitespace (text ++ rest) ∧ peek (text ++ rest) ≠ byte ']' ∧
      peek (text ++ rest) ≠ byte '}' := by
  obtain ⟨b, tail, hb, rfl⟩ := h.head
  obtain ⟨hspace, harray, hobject⟩ := startsValue_facts hb
  exact ⟨Stops.cons hspace, harray, hobject⟩

/-- A number ends in front of whitespace as it ends in front of what follows. -/
theorem stops_gap {gap rest : Bytes} (hgap : IsWhitespace gap)
    (hrest : Stops continuesNumber rest) : Stops continuesNumber (gap ++ rest) := by
  have hall : ∀ b : UInt8, isWhitespace b = true → continuesNumber b = false :=
    forall_byte (by decide)
  cases gap with
  | nil => exact hrest
  | cons b tail => exact Stops.cons (hall b (hgap b List.mem_cons_self))

/-- What it takes to consume a text of the grammar, part by part. -/
def Consumed (skipString skipNumber : Bytes → Result Bytes) (limit : Nat) :
    Part → Nat → Bytes → Prop
  | .value, room, text => ∀ depth turns gap rest, depth + room ≤ limit →
      Stops continuesNumber rest → IsWhitespace gap →
      2 * (gap ++ (text ++ rest)).length + 1 ≤ turns →
      skipValueWith skipString skipNumber limit turns depth (gap ++ (text ++ rest)) = .ok rest
  | .elements, room, items => ∀ depth turns tail, depth + 1 + room ≤ limit →
      2 * (items ++ byte ']' :: tail).length + 2 ≤ turns →
      skipElementsWith skipString skipNumber limit turns depth (items ++ byte ']' :: tail) =
        .ok (byte ']' :: tail)
  | .members, room, items => ∀ depth turns tail, depth + 1 + room ≤ limit →
      2 * (items ++ byte '}' :: tail).length + 2 ≤ turns →
      skipMembersWith skipString skipNumber limit turns depth (items ++ byte '}' :: tail) =
        .ok (byte '}' :: tail)

/-- The dispatch of a value on its first byte, once the whitespace is gone. -/
theorem skipValue_trimmed {turns depth : Nat} (hdepth : depth ≤ limit) {gap input : Bytes}
    (hgap : IsWhitespace gap) (hinput : Stops isWhitespace input) :
    skipValueWith skipString skipNumber limit (turns + 1) depth (gap ++ input) =
      if peek input == quote then skipString input
      else if peek input == byte '-' || isDigit (peek input) then skipNumber input
      else if peek input == byte 't' then literal (ascii "true") input
      else if peek input == byte 'f' then literal (ascii "false") input
      else if peek input == byte 'n' then literal (ascii "null") input
      else if peek input == byte '[' then do
        let input ← expect (byte '[') input
        let input ← skipElementsWith skipString skipNumber limit turns depth (skipWhitespace input)
        expect (byte ']') input
      else if peek input == byte '{' then do
        let input ← expect (byte '{') input
        let input ← skipMembersWith skipString skipNumber limit turns depth (skipWhitespace input)
        expect (byte '}') input
      else malformed := by
  rw [skipValueWith, skipWhitespace_append hgap hinput, if_neg (by omega)]

/-- An array is consumed when its elements are, with the room that they leave. -/
theorem consumed_array {room : Nat} {gap items : Bytes} (hgap : IsWhitespace gap)
    (hitems : items = [] ∨ ∃ inner, room = inner + 1 ∧ Derives .elements inner items ∧
      Consumed skipString skipNumber limit .elements inner items) :
    Consumed skipString skipNumber limit .value room
      (byte '[' :: (gap ++ (items ++ [byte ']']))) := by
  intro depth turns lead rest hdepth _ hlead hturns
  obtain ⟨turns, rfl⟩ : ∃ more, turns = more + 1 := ⟨turns - 1, by omega⟩
  rw [List.cons_append, skipValue_trimmed (by omega) hlead
    (Stops.cons (by decide : isWhitespace (byte '[') = false))]
  simp only [List.cons_append, List.append_assoc, List.nil_append, List.length_append,
    List.length_cons] at hturns ⊢
  show (skipElementsWith skipString skipNumber limit turns depth
    (skipWhitespace (gap ++ (items ++ byte ']' :: rest))) >>= expect (byte ']')) = _
  rw [bind_eq_ok]
  refine ⟨byte ']' :: rest, ?_, expect_eq_ok.mpr rfl⟩
  rcases hitems with rfl | ⟨inner, rfl, hderives, hconsumed⟩
  · obtain ⟨turns, rfl⟩ : ∃ more, turns = more + 1 := ⟨turns - 1, by omega⟩
    rw [List.nil_append, skipWhitespace_append hgap (Stops.cons (by decide)), skipElementsWith]
    rfl
  · rw [skipWhitespace_append hgap (Derives.stops hderives _).1]
    refine hconsumed depth turns rest (by omega) ?_
    simp only [List.length_append, List.length_cons]
    omega

/-- An object is consumed when its members are, with the room that they leave. -/
theorem consumed_object {room : Nat} {gap items : Bytes} (hgap : IsWhitespace gap)
    (hitems : items = [] ∨ ∃ inner, room = inner + 1 ∧ Derives .members inner items ∧
      Consumed skipString skipNumber limit .members inner items) :
    Consumed skipString skipNumber limit .value room
      (byte '{' :: (gap ++ (items ++ [byte '}']))) := by
  intro depth turns lead rest hdepth _ hlead hturns
  obtain ⟨turns, rfl⟩ : ∃ more, turns = more + 1 := ⟨turns - 1, by omega⟩
  rw [List.cons_append, skipValue_trimmed (by omega) hlead
    (Stops.cons (by decide : isWhitespace (byte '{') = false))]
  simp only [List.cons_append, List.append_assoc, List.nil_append, List.length_append,
    List.length_cons] at hturns ⊢
  show (skipMembersWith skipString skipNumber limit turns depth
    (skipWhitespace (gap ++ (items ++ byte '}' :: rest))) >>= expect (byte '}')) = _
  rw [bind_eq_ok]
  refine ⟨byte '}' :: rest, ?_, expect_eq_ok.mpr rfl⟩
  rcases hitems with rfl | ⟨inner, rfl, hderives, hconsumed⟩
  · obtain ⟨turns, rfl⟩ : ∃ more, turns = more + 1 := ⟨turns - 1, by omega⟩
    rw [List.nil_append, skipWhitespace_append hgap (Stops.cons (by decide)), skipMembersWith]
    rfl
  · rw [skipWhitespace_append hgap (Derives.stops hderives _).1]
    refine hconsumed depth turns rest (by omega) ?_
    simp only [List.length_append, List.length_cons]
    omega

/-- The turn of the loop over elements: a value, then what its separator leaves. -/
theorem skipElements_turn {turns depth : Nat} {input first second : Bytes}
    (hpeek : peek input ≠ byte ']')
    (hvalue : skipValueWith skipString skipNumber limit turns (depth + 1) input = .ok first)
    (hseparator : separator (byte ']') first = .ok second) :
    skipElementsWith skipString skipNumber limit (turns + 1) depth input =
      skipElementsWith skipString skipNumber limit turns depth second := by
  rw [skipElementsWith, if_neg (by simpa using hpeek), hvalue]
  show (separator (byte ']') first >>= _) = _
  rw [hseparator]
  rfl

/-- One turn of the loop over the members: the key, the colon, the value and the separator. -/
theorem skipMembers_turn (hlex : Lexes skipString skipNumber) {turns depth : Nat}
    {key before input first second : Bytes} (hkey : IsString key) (hbefore : IsWhitespace before)
    (hvalue : skipValueWith skipString skipNumber limit turns (depth + 1) input = .ok first)
    (hseparator : separator (byte '}') first = .ok second) :
    skipMembersWith skipString skipNumber limit (turns + 1) depth
        (key ++ (before ++ byte ':' :: input)) =
      skipMembersWith skipString skipNumber limit turns depth second := by
  have hskip : skipString (key ++ (before ++ byte ':' :: input)) = .ok (before ++ byte ':' :: input) :=
    (hlex.string _ _).mpr ⟨key, hkey, rfl⟩
  obtain ⟨tail, rfl⟩ := hkey.head
  have hopen : ¬(peek (quote :: tail ++ (before ++ byte ':' :: input)) == byte '}') = true :=
    (by decide : ¬(quote == byte '}') = true)
  rw [skipMembersWith, if_neg hopen, hskip, requireObjectKey]
  show (expect (byte ':') (skipWhitespace (before ++ byte ':' :: input)) >>= _) = _
  rw [skipWhitespace_append hbefore (Stops.cons (by decide)), expect_eq_ok.mpr rfl]
  show (skipValueWith skipString skipNumber limit turns (depth + 1) input >>= _) = _
  rw [hvalue]
  show (separator (byte '}') first >>= _) = _
  rw [hseparator]
  rfl

/-- The loop over the elements ends at the closing bracket. -/
theorem skipElements_done {turns depth : Nat} (h : 0 < turns) (tail : Bytes) :
    skipElementsWith skipString skipNumber limit turns depth (byte ']' :: tail) =
      .ok (byte ']' :: tail) := by
  obtain ⟨turns, rfl⟩ : ∃ more, turns = more + 1 := ⟨turns - 1, by omega⟩
  rw [skipElementsWith]
  rfl

/-- The loop over the members ends at the closing brace. -/
theorem skipMembers_done {turns depth : Nat} (h : 0 < turns) (tail : Bytes) :
    skipMembersWith skipString skipNumber limit turns depth (byte '}' :: tail) =
      .ok (byte '}' :: tail) := by
  obtain ⟨turns, rfl⟩ : ∃ more, turns = more + 1 := ⟨turns - 1, by omega⟩
  rw [skipMembersWith]
  rfl

/-- Every text of the grammar is consumed. The induction is on its derivation. -/
theorem skip_complete (hlex : Lexes skipString skipNumber) {part : Part} {room : Nat}
    {text : Bytes} (h : Derives part room text) :
    Consumed skipString skipNumber limit part room text := by
  -- On the derivation. Each rule leaves at least one turn for the parts it is made of.
  induction h with
  | literal h =>
    intro depth turns gap rest hdepth _ hgap hturns
    obtain ⟨turns, rfl⟩ : ∃ more, turns = more + 1 := ⟨turns - 1, by omega⟩
    rcases h with rfl | rfl | rfl
    · have hstops := (Derives.stops (.literal (.inl rfl) : Derives .value 0 (ascii "true")) rest).1
      rw [skipValue_trimmed (by omega) hgap hstops]
      exact literal_eq_ok.mpr rfl
    · have hstops := (Derives.stops (.literal (.inr (.inl rfl)) : Derives .value 0 (ascii "false")) rest).1
      rw [skipValue_trimmed (by omega) hgap hstops]
      exact literal_eq_ok.mpr rfl
    · have hstops := (Derives.stops (.literal (.inr (.inr rfl)) : Derives .value 0 (ascii "null")) rest).1
      rw [skipValue_trimmed (by omega) hgap hstops]
      exact literal_eq_ok.mpr rfl
  | number h =>
    intro depth turns gap rest hdepth hrest hgap hturns
    obtain ⟨turns, rfl⟩ : ∃ more, turns = more + 1 := ⟨turns - 1, by omega⟩
    have hskip := hlex.number_complete _ rest h hrest
    have hstops := (Derives.stops (.number h : Derives .value 0 _) rest).1
    rw [skipValue_trimmed (by omega) hgap hstops]
    obtain ⟨b, tail, hb, rfl⟩ := h.head
    have hall : ∀ b : UInt8, (b = byte '-' ∨ isDigit b = true) →
        (b == quote) = false ∧ (b == byte '-' || isDigit b) = true :=
      forall_byte (by decide)
    obtain ⟨hquote, hnumber⟩ := hall b hb
    rw [List.cons_append, peek_cons, hquote, hnumber, if_neg (by decide), if_pos rfl]
    exact hskip
  | string h =>
    intro depth turns gap rest hdepth _ hgap hturns
    obtain ⟨turns, rfl⟩ : ∃ more, turns = more + 1 := ⟨turns - 1, by omega⟩
    have hskip : skipString _ = .ok rest := (hlex.string _ rest).mpr ⟨_, h, rfl⟩
    obtain ⟨tail, rfl⟩ := h.head
    rw [List.cons_append, skipValue_trimmed (by omega) hgap
      (Stops.cons (by decide : isWhitespace quote = false))]
    exact hskip
  | emptyArray hgap => exact consumed_array hgap (.inl rfl)
  | array hgap hitems ih => exact consumed_array hgap (.inr ⟨_, rfl, hitems, ih⟩)
  | emptyObject hgap => exact consumed_object hgap (.inl rfl)
  | object hgap hitems ih => exact consumed_object hgap (.inr ⟨_, rfl, hitems, ih⟩)
  | @lastElement room text gap htext hgap ih =>
    intro depth turns tail hdepth hturns
    obtain ⟨turns, rfl⟩ : ∃ more, turns = more + 1 := ⟨turns - 1, by omega⟩
    simp only [List.append_assoc, List.length_append, List.length_cons] at hturns ⊢
    have hvalue := ih (depth + 1) turns [] (gap ++ byte ']' :: tail) hdepth
      (stops_gap hgap (Stops.cons (by decide))) .nil
      (by simp only [List.length_append, List.length_cons, List.length_nil]; omega)
    rw [skipElements_turn (Derives.stops htext _).2.1 hvalue
      (separator_close (by decide) (by decide) hgap)]
    exact skipElements_done (by omega) tail
  | @element room text before after more htext hbefore hafter hmore ih ihmore =>
    intro depth turns tail hdepth hturns
    obtain ⟨turns, rfl⟩ : ∃ more, turns = more + 1 := ⟨turns - 1, by omega⟩
    simp only [List.append_assoc, List.cons_append, List.length_append, List.length_cons]
      at hturns ⊢
    have hvalue := ih (depth + 1) turns []
      (before ++ byte ',' :: (after ++ (more ++ byte ']' :: tail))) hdepth
      (stops_gap hbefore (Stops.cons (by decide))) .nil
      (by simp only [List.length_append, List.length_cons, List.length_nil]; omega)
    obtain ⟨hstops, hopen, -⟩ := Derives.stops hmore (byte ']' :: tail)
    rw [skipElements_turn (Derives.stops htext _).2.1 hvalue
      (separator_comma hbefore hafter hstops hopen)]
    refine ihmore depth turns tail hdepth ?_
    simp only [List.length_append, List.length_cons]
    omega
  | @lastMember room key before after text gap hkey hbefore hafter htext hgap ih =>
    intro depth turns tail hdepth hturns
    obtain ⟨turns, rfl⟩ : ∃ more, turns = more + 1 := ⟨turns - 1, by omega⟩
    simp only [List.append_assoc, List.cons_append, List.length_append, List.length_cons]
      at hturns ⊢
    have hvalue := ih (depth + 1) turns after (gap ++ byte '}' :: tail) hdepth
      (stops_gap hgap (Stops.cons (by decide))) hafter
      (by simp only [List.length_append, List.length_cons]; omega)
    rw [skipMembers_turn hlex hkey hbefore hvalue (separator_close (by decide) (by decide) hgap)]
    exact skipMembers_done (by omega) tail
  | @member room key before after text gap next more hkey hbefore hafter htext hgap hnext hmore
      ih ihmore =>
    intro depth turns tail hdepth hturns
    obtain ⟨turns, rfl⟩ : ∃ more, turns = more + 1 := ⟨turns - 1, by omega⟩
    simp only [List.append_assoc, List.cons_append, List.length_append, List.length_cons]
      at hturns ⊢
    have hvalue := ih (depth + 1) turns after
      (gap ++ byte ',' :: (next ++ (more ++ byte '}' :: tail))) hdepth
      (stops_gap hgap (Stops.cons (by decide))) hafter
      (by simp only [List.length_append, List.length_cons]; omega)
    obtain ⟨hstops, -, hopen⟩ := Derives.stops hmore (byte '}' :: tail)
    rw [skipMembers_turn hlex hkey hbefore hvalue (separator_comma hgap hnext hstops hopen)]
    refine ihmore depth turns tail hdepth ?_
    simp only [List.length_append, List.length_cons]
    omega

-- ---------------------------------------------------------------------------
-- Termination
-- ---------------------------------------------------------------------------

/-- A run that came to an end, with a result or with something thrown. -/
abbrev Finishes {α : Type} (x : Result α) : Prop :=
  Throws (· ≠ .running) x

theorem finishes_malformed {α : Type} : Finishes (malformed : Result α) :=
  throws_error.mpr fun h => nomatch h

theorem finishes_nestingExceeded {α : Type} : Finishes (nestingExceeded : Result α) :=
  throws_error.mpr fun h => nomatch h

theorem finishes_ok {α : Type} (a : α) : Finishes (.ok a : Result α) :=
  throws_pure

/-- A map neither adds a turn nor takes one. -/
theorem finishes_map {α β : Type} (f : α → β) {x : Result α} (h : Finishes x) :
    Finishes (f <$> x) := by
  rw [map_eq_pure_bind]
  exact Throws.bind h fun a _ => throws_pure

theorem finishes_expect (expected : UInt8) (input : Bytes) : Finishes (expect expected input) := by
  cases input with
  | nil => exact finishes_malformed
  | cons b rest =>
    rw [expect]
    split
    · exact finishes_ok _
    · exact finishes_malformed

theorem finishes_literal (word input : Bytes) : Finishes (literal word input) := by
  induction word generalizing input with
  | nil => exact finishes_ok _
  | cons expected more ih => exact Throws.bind (finishes_expect _ _) fun rest _ => ih rest

/-- Looking for the next item does not use up a turn. -/
theorem finishes_separator (close : UInt8) (input : Bytes) : Finishes (separator close input) := by
  unfold separator
  dsimp only
  split
  · split
    · exact finishes_malformed
    · exact finishes_ok _
  split
  · exact finishes_malformed
  · exact finishes_ok _

/-- The text behind a separator is not longer. -/
theorem separator_length {close : UInt8} (hclose : close ≠ 0) {input rest : Bytes}
    (h : separator close input = .ok rest) : rest.length ≤ input.length := by
  rcases separator_sound hclose h with ⟨gap, tail, -, -, rfl⟩ | ⟨before, after, -, -, -, rfl⟩
  · rw [List.length_append]
    omega
  · simp only [List.length_append, List.length_cons]
    omega

/-- A string takes at least a byte. -/
theorem Lexes.string_length (hlex : Lexes skipString skipNumber) {input rest : Bytes}
    (h : skipString input = .ok rest) : rest.length < input.length := by
  obtain ⟨text, htext, rfl⟩ := (hlex.string _ _).mp h
  obtain ⟨tail, rfl⟩ := htext.head
  simp only [List.length_append, List.length_cons]
  omega

/-- A value takes at least a byte, which is why the turns are enough. -/
theorem skipValue_length (hlex : Lexes skipString skipNumber) {turns depth : Nat}
    {input rest : Bytes}
    (h : skipValueWith skipString skipNumber limit turns depth input = .ok rest) :
    rest.length < input.length := by
  obtain ⟨-, gap, text, -, htext, rfl⟩ := (skip_sound hlex turns).1 depth input rest h
  obtain ⟨b, tail, -, rfl⟩ := htext.head
  simp only [List.length_append, List.length_cons]
  omega

/-- Skipping whitespace never lengthens the text. -/
theorem skipWhitespace_length (input : Bytes) : (skipWhitespace input).length ≤ input.length :=
  List.length_dropWhile_le _ _

/-- Two turns for each byte, and one or two to start with, are enough. -/
theorem skip_finishes (hlex : Lexes skipString skipNumber) (turns : Nat) :
    (∀ depth input, 2 * input.length + 1 ≤ turns →
      Finishes (skipValueWith skipString skipNumber limit turns depth input)) ∧
    (∀ depth input, 2 * input.length + 2 ≤ turns →
      Finishes (skipElementsWith skipString skipNumber limit turns depth input)) ∧
    (∀ depth input, 2 * input.length + 2 ≤ turns →
      Finishes (skipMembersWith skipString skipNumber limit turns depth input)) := by
  induction turns with
  | zero =>
    refine ⟨?_, ?_, ?_⟩
    · intro depth input h
      omega
    · intro depth input h
      omega
    · intro depth input h
      omega
  | succ turns ih =>
    obtain ⟨ihvalue, ihelements, ihmembers⟩ := ih
    refine ⟨?_, ?_, ?_⟩
    · intro depth input h
      have hlength := skipWhitespace_length input
      rw [skipValueWith]
      generalize skipWhitespace input = trimmed at hlength
      -- an array or object is entered past its opening byte
      have hinner (b : UInt8) (items : Bytes) (hopen : expect b trimmed = .ok items) :
          2 * (skipWhitespace items).length + 2 ≤ turns := by
        have htrim := skipWhitespace_length items
        rw [expect_eq_ok.mp hopen, List.length_cons] at hlength
        omega
      split
      · exact finishes_nestingExceeded
      split
      · exact hlex.string_finishes _
      split
      · exact hlex.number_finishes _
      split
      · exact finishes_literal _ _
      split
      · exact finishes_literal _ _
      split
      · exact finishes_literal _ _
      split
      · exact Throws.bind (finishes_expect _ _) fun items hopen =>
          Throws.bind (ihelements _ _ (hinner _ items hopen)) fun _ _ => finishes_expect _ _
      split
      · exact Throws.bind (finishes_expect _ _) fun items hopen =>
          Throws.bind (ihmembers _ _ (hinner _ items hopen)) fun _ _ => finishes_expect _ _
      · exact finishes_malformed
    · intro depth input h
      rw [skipElementsWith]
      split
      · exact finishes_ok _
      · refine Throws.bind (ihvalue _ _ (by omega)) fun first hvalue => ?_
        refine Throws.bind (finishes_separator _ _) fun second hseparator => ?_
        have hfirst := skipValue_length hlex hvalue
        have hsecond := separator_length (by decide) hseparator
        exact ihelements _ _ (by omega)
    · intro depth input h
      rw [skipMembersWith]
      split
      · exact finishes_ok _
      · refine Throws.bind (throws_throwIf.mpr fun _ => nofun) fun _ _ => ?_
        refine Throws.bind (hlex.string_finishes _) fun key hkey => ?_
        refine Throws.bind (finishes_expect _ _) fun colon hcolon => ?_
        have hstring := hlex.string_length hkey
        have hspace := skipWhitespace_length key
        rw [expect_eq_ok.mp hcolon, List.length_cons] at hspace
        refine Throws.bind (ihvalue _ _ (by omega)) fun first hvalue => ?_
        refine Throws.bind (finishes_separator _ _) fun second hseparator => ?_
        have hfirst := skipValue_length hlex hvalue
        have hsecond := separator_length (by decide) hseparator
        exact ihmembers _ _ (by omega)

/-- `y` is what `x` comes to with more turns. -/
def Settles {α : Type} (x y : Result α) : Prop :=
  x = .error .running ∨ x = y

theorem Settles.refl {α : Type} (x : Result α) : Settles x x :=
  .inr rfl

/-- The rule of sequencing. -/
theorem Settles.bind {α β : Type} {x y : Result α} {f g : α → Result β} (hx : Settles x y)
    (hf : ∀ a, Settles (f a) (g a)) : Settles (x >>= f) (y >>= g) := by
  rcases hx with rfl | rfl
  · exact .inl rfl
  · cases x with
    | error stop => exact .inr rfl
    | ok a => exact hf a

/-- The rule of a branch that both runs take alike. -/
theorem Settles.ite {α : Type} {c : Prop} [Decidable c] {x y x' y' : Result α}
    (hx : Settles x x') (hy : Settles y y') :
    Settles (if c then x else y) (if c then x' else y') := by
  by_cases h : c
  · rwa [if_pos h, if_pos h]
  · rwa [if_neg h, if_neg h]

/-- One turn more changes nothing of a run that came to an end. -/
theorem skip_settles (turns : Nat) :
    (∀ depth input, Settles (skipValueWith skipString skipNumber limit turns depth input)
      (skipValueWith skipString skipNumber limit (turns + 1) depth input)) ∧
    (∀ depth input, Settles (skipElementsWith skipString skipNumber limit turns depth input)
      (skipElementsWith skipString skipNumber limit (turns + 1) depth input)) ∧
    (∀ depth input, Settles (skipMembersWith skipString skipNumber limit turns depth input)
      (skipMembersWith skipString skipNumber limit (turns + 1) depth input)) := by
  induction turns with
  | zero =>
    refine ⟨?_, ?_, ?_⟩
    · intro depth input
      rw [skipValueWith]
      exact .inl rfl
    · intro depth input
      rw [skipElementsWith]
      exact .inl rfl
    · intro depth input
      rw [skipMembersWith]
      exact .inl rfl
  | succ turns ih =>
    obtain ⟨ihvalue, ihelements, ihmembers⟩ := ih
    refine ⟨?_, ?_, ?_⟩
    · intro depth input
      rw [skipValueWith, skipValueWith]
      refine .ite (.refl _) (.ite (.refl _) (.ite (.refl _) (.ite (.refl _) (.ite (.refl _)
        (.ite (.refl _) (.ite ?_ (.ite ?_ (.refl _))))))))
      · exact .bind (.refl _) fun _ => .bind (ihelements _ _) fun _ => .refl _
      · exact .bind (.refl _) fun _ => .bind (ihmembers _ _) fun _ => .refl _
    · intro depth input
      rw [skipElementsWith, skipElementsWith]
      refine .ite (.refl _) ?_
      exact .bind (ihvalue _ _) fun _ => .bind (.refl _) fun _ => ihelements _ _
    · intro depth input
      rw [skipMembersWith, skipMembersWith]
      refine .ite (.refl _) ?_
      refine .bind (.refl _) fun _ => .bind (.refl _) fun _ => .bind (.refl _) fun _ => ?_
      exact .bind (ihvalue _ _) fun _ => .bind (.refl _) fun _ => ihmembers _ _

/-- Once the turns are enough, more of them change nothing. -/
theorem skipValue_stable {turns more depth : Nat} {input : Bytes}
    (h : Finishes (skipValueWith skipString skipNumber limit turns depth input)) :
    skipValueWith skipString skipNumber limit (turns + more) depth input =
      skipValueWith skipString skipNumber limit turns depth input := by
  induction more with
  | zero => rfl
  | succ more ih =>
    rcases (@skip_settles skipString skipNumber limit (turns + more)).1 depth input with hrun | hrun
    · rw [ih] at hrun
      exact absurd rfl (h _ hrun)
    · rw [← ih, hrun]
      rfl

end Values

-- ---------------------------------------------------------------------------
-- The two readers
-- ---------------------------------------------------------------------------

/-- Reading the digits of an escape does not use up a turn. -/
theorem finishes_hexCodeUnitFrom (count result : Nat) (input : Bytes) :
    Finishes (hexCodeUnitFrom count result input) := by
  induction count generalizing result input with
  | zero => exact finishes_ok _
  | succ count ih =>
    cases input with
    | nil => exact finishes_malformed
    | cons b rest =>
      rw [hexCodeUnitFrom]
      split
      · exact ih _ _
      · exact finishes_malformed

/-- Reading a code point does not use up a turn. -/
theorem finishes_escapedUnicode (input : Bytes) : Finishes (escapedUnicode input) := by
  have hlow (high : Nat) (input : Bytes) : Finishes (lowSurrogate high input) := by
    unfold lowSurrogate
    split
    · split
      · exact finishes_malformed
      · refine Throws.bind (finishes_hexCodeUnitFrom _ _ _) fun unit _ => ?_
        dsimp only
        split
        · exact finishes_malformed
        · exact finishes_ok _
    · exact finishes_malformed
  refine Throws.bind (finishes_hexCodeUnitFrom _ _ _) fun unit _ => ?_
  dsimp only
  split
  · exact hlow _ _
  split
  · exact finishes_malformed
  · exact finishes_ok _

/-- Reading an escape does not use up a turn. -/
theorem finishes_readEscape (escaped : UInt8) (rest : Bytes) :
    Finishes (readEscape escaped rest) := by
  rw [readEscape_eq]
  split
  · exact finishes_ok _
  split
  · exact Throws.bind (finishes_escapedUnicode _) fun unit _ => finishes_ok _
  · exact finishes_malformed

/-- Reading a character does not use up a turn. -/
theorem finishes_readUtf8 (input : Bytes) : Finishes (readUtf8 input) := by
  unfold readUtf8
  split
  · exact finishes_ok _
  · exact finishes_malformed

/-- Each turn of a string reader consumes a byte at least. -/
theorem finishes_stringLoop {σ : Type} {append : σ → Bytes → Result σ}
    (happend : ∀ result piece, Finishes (append result piece)) {turns : Nat} {result : σ}
    {input : Bytes} (h : input.length ≤ turns) :
    Finishes (stringLoop append turns result input) := by
  induction turns generalizing result input with
  | zero =>
    obtain rfl := List.length_eq_zero_iff.mp (Nat.le_zero.mp h)
    exact finishes_malformed
  | succ turns ih =>
    cases input with
    | nil => exact finishes_malformed
    | cons b tail =>
      unfold stringLoop
      split
      · exact finishes_ok _
      split
      · exact finishes_malformed
      split
      · refine Throws.bind (finishes_readUtf8 _) fun read hread => ?_
        refine Throws.bind (happend _ _) fun next _ => ih ?_
        obtain ⟨codePoint, -, hpiece, hinput⟩ := readUtf8_eq_ok.mp hread
        have hpos := List.length_pos_iff.mpr (Utf8.encode_ne_nil codePoint)
        rw [hinput, hpiece, List.length_append] at h
        omega
      · cases tail with
        | nil => exact finishes_malformed
        | cons escaped rest =>
          refine Throws.bind (finishes_readEscape _ _) fun read hread => ?_
          refine Throws.bind (happend _ _) fun next _ => ih ?_
          obtain ⟨text, -, rfl⟩ := readEscape_eq_ok.mp hread
          simp only [List.length_cons, List.length_append] at h
          omega

/-- The loop over a string has a turn for each byte of the input. -/
theorem finishes_stringWith {σ : Type} {append : σ → Bytes → Result σ}
    (happend : ∀ result piece, Finishes (append result piece)) (result : σ) (input : Bytes) :
    Finishes (stringWith append result input) :=
  Throws.bind (finishes_expect _ _) fun _ _ => finishes_stringLoop happend (Nat.le_refl _)

/-- Scanning a number does not use up a turn. -/
theorem finishes_scanNumber (input : Bytes) : Finishes (scanNumber input) := by
  have hdigits (input : Bytes) : Finishes (skipDigits input) := by
    unfold skipDigits
    split
    · exact finishes_malformed
    · exact finishes_ok _
  refine Throws.bind ?_ fun _ _ => Throws.bind ?_ fun _ _ => ?_
  · unfold skipInteger
    split
    · split
      · exact finishes_malformed
      · exact finishes_ok _
    split
    · exact finishes_malformed
    · exact finishes_ok _
  · unfold skipFraction
    split
    · exact hdigits _
    · exact finishes_ok _
  · unfold skipExponent
    split
    · exact hdigits _
    · exact finishes_ok _

theorem snd_eq_ok {α : Type} {x : Result (α × Bytes)} {rest : Bytes} :
    Prod.snd <$> x = .ok rest ↔ ∃ a, x = .ok (a, rest) := by
  rw [map_eq_pure_bind, bind_eq_ok]
  constructor
  · rintro ⟨⟨a, after⟩, hx, hrest⟩
    obtain rfl := pure_eq_ok.mp hrest
    exact ⟨a, hx⟩
  · rintro ⟨a, hx⟩
    exact ⟨_, hx, rfl⟩

/-- How the REST decoder reads strings and numbers is what the recursion needs. -/
theorem JsonParser.lexes : Lexes (fun input => Prod.snd <$> JsonParser.parseString input)
    (fun input => Prod.snd <$> JsonParser.parseNumberToken input) where
  string := by
    intro input rest
    rw [snd_eq_ok]
    constructor
    · rintro ⟨meaning, h⟩
      obtain ⟨inner, hinner, rfl⟩ := JsonParser.parseString_eq_ok.mp h
      exact ⟨_, ⟨inner, meaning, hinner, rfl⟩, by simp⟩
    · rintro ⟨text, ⟨inner, meaning, hinner, rfl⟩, rfl⟩
      exact ⟨meaning, JsonParser.parseString_eq_ok.mpr ⟨inner, hinner, by simp⟩⟩
  number_sound := by
    intro input rest h
    obtain ⟨token, htoken⟩ := snd_eq_ok.mp h
    obtain ⟨after, hscan, hrest⟩ := bind_eq_ok.mp htoken
    obtain ⟨-, rfl⟩ := Prod.mk.inj (Except.ok.inj hrest)
    exact scanNumber_sound hscan
  number_complete := by
    intro text rest htext hrest
    exact snd_eq_ok.mpr ⟨_, bind_eq_ok.mpr ⟨rest, scanNumber_complete htext hrest, rfl⟩⟩
  string_finishes := by
    intro input
    exact finishes_map _ (finishes_stringWith (fun _ _ => finishes_ok _) _ _)
  number_finishes := by
    intro input
    exact finishes_map _ (Throws.bind (finishes_scanNumber _) fun _ _ => finishes_ok _)

/-- A document is accepted when it is one derived value between whitespace. -/
theorem validateDocument_eq_ok {skipString skipNumber : Bytes → Result Bytes}
    (hlex : Lexes skipString skipNumber) {limit turns : Nat} {document : Bytes}
    (hturns : 2 * document.length + 1 ≤ turns) :
    validateDocumentWith (skipValueWith skipString skipNumber limit turns) document = .ok () ↔
      IsDocument limit document := by
  obtain ⟨gap, hgap, hdocument⟩ := skipWhitespace_split document
  unfold validateDocumentWith
  rw [bind_eq_ok]
  constructor
  · rintro ⟨rest, hvalue, hend⟩
    obtain ⟨-, lead, text, hlead, htext, hinput⟩ := (skip_sound hlex turns).1 _ _ _ hvalue
    obtain ⟨trail, htrail, hrest⟩ := skipWhitespace_split rest
    split at hend
    · cases hend
    rename_i hempty
    rw [Decidable.not_not.mp hempty, List.append_nil] at hrest
    refine ⟨gap ++ lead, text, trail, hgap.append hlead, htext, htrail, ?_⟩
    rw [hdocument, hinput, hrest, List.append_assoc]
  · rintro ⟨before, text, after, hbefore, htext, hafter, rfl⟩
    have hstops := (Derives.stops htext after).1
    have hcontinue : Stops continuesNumber after := by
      have hend := stops_gap hafter (Stops.nil _)
      rwa [List.append_nil] at hend
    rw [skipWhitespace_append hbefore hstops]
    refine ⟨after, ?_, ?_⟩
    · refine skip_complete hlex htext 0 turns [] after (by omega) hcontinue .nil ?_
      simp only [List.length_append, List.length_nil] at hturns ⊢
      omega
    · have hskip := skipWhitespace_append hafter (Stops.nil _)
      rw [List.append_nil] at hskip
      rw [hskip]
      rfl

/-- Validation comes to a verdict on every document. -/
theorem finishes_validateDocument {skipString skipNumber : Bytes → Result Bytes}
    (hlex : Lexes skipString skipNumber) {limit turns : Nat} {document : Bytes}
    (hturns : 2 * document.length + 1 ≤ turns) :
    Finishes (validateDocumentWith (skipValueWith skipString skipNumber limit turns) document) := by
  have hlength := skipWhitespace_length document
  refine Throws.bind ((skip_finishes hlex turns).1 _ _ (by omega)) fun rest _ => ?_
  split
  · exact finishes_malformed
  · exact finishes_ok _

/-- The verdict does not depend on the turns, as long as there are enough of them. -/
theorem validateDocument_stable {skipString skipNumber : Bytes → Result Bytes}
    (hlex : Lexes skipString skipNumber) {limit turns : Nat} {document : Bytes}
    (hturns : 2 * document.length + 1 ≤ turns) :
    validateDocumentWith (skipValueWith skipString skipNumber limit turns) document =
      validateDocumentWith
        (skipValueWith skipString skipNumber limit (2 * document.length + 1)) document := by
  have hlength := skipWhitespace_length document
  obtain ⟨more, rfl⟩ := Nat.exists_eq_add_of_le hturns
  rw [validateDocumentWith, validateDocumentWith,
    skipValue_stable ((skip_finishes hlex _).1 _ _ (by omega))]

/-- Every byte string has one outcome under a nesting limit. Both validators come to
it, however many turns they are given beyond two for each byte, and it is a
return exactly on the documents of RFC 8259 that nest within the limit. -/
theorem json_validators_agree (limit : Nat) (document : Bytes) :
    ∃ outcome : Result Unit,
      (∀ turns, 2 * document.length + 1 ≤ turns →
        JsonParser.validateDocument limit turns document = outcome ∧
        StrictJsonReader.validateDocument limit turns document = outcome) ∧
      outcome ≠ .error .running ∧ (outcome = .ok () ↔ IsDocument limit document) := by
  have hlex := JsonParser.lexes
  have hsame (turns : Nat) : StrictJsonReader.validateDocument limit turns document =
      JsonParser.validateDocument limit turns document := by
    unfold StrictJsonReader.validateDocument StrictJsonReader.skipValue
      JsonParser.validateDocument JsonParser.skipValue
    rw [funext StrictJsonReader.skipString_eq, funext StrictJsonReader.skipNumber_eq]
  refine ⟨JsonParser.validateDocument limit (2 * document.length + 1) document, ?_, ?_, ?_⟩
  · intro turns hturns
    rw [hsame]
    exact ⟨validateDocument_stable hlex hturns, validateDocument_stable hlex hturns⟩
  · intro hrunning
    exact finishes_validateDocument hlex (Nat.le_refl _) _ hrunning rfl
  · exact validateDocument_eq_ok hlex (Nat.le_refl _)

end Cuac.Runtime.Json

import Cuac.Lib.Lexing
import Cuac.Runtime.UriGrammar

/-!
# Runtime — which URI references are accepted

The rest of the validator, from authorities and paths to whole references: each
step decides its rule of the grammar. A mark that a part is cut off at is in no
word of the rules before it, so where the source cuts is the only place.

Main result:

* `isValidUriReference_iff` — what is accepted is what the grammar generates.
-/

namespace Cuac.Runtime.Uri

open Cuac.Lib
open Computability
open Grammar

-- ---------------------------------------------------------------------------
-- Literals
-- ---------------------------------------------------------------------------

/-- The version and the address are told apart by the first dot. -/
theorem validateIpvFuture_iff {word : Bytes} :
    validateIpvFuture word = true ↔ word ∈ ipvFuture := by
  have hclass : unreserved + subDelims + sym (byte ':') =
      oneOf fun b => isUnreserved b || isSubDelimiter b || b == byte ':' := by
    rw [unreserved_eq, subDelims, marks, sym_eq_oneOf, oneOf_add, oneOf_add]
    exact oneOf_congr (forall_byte (by decide))
  have hmarks : marks "vV" = oneOf fun b => b == byte 'v' || b == byte 'V' :=
    oneOf_congr (forall_byte (by decide))
  rw [ipvFuture, mul_assoc, mul_assoc, hmarks, hclass, hexdig_eq]
  cases word with
  | nil =>
    constructor
    · intro h
      cases h
    · intro h
      exact absurd h nil_mem_oneOf_mul
  | cons first rest =>
    rw [cons_mem_oneOf_mul, validateIpvFuture, Bool.and_eq_true, Bool.and_eq_true, Bool.and_eq_true]
    constructor
    · rintro ⟨⟨⟨-, hfirst⟩, hdigits⟩, htext⟩
      split at htext
      · cases htext
      · rename_i mark text hdrop
        rw [Bool.and_eq_true, Bool.and_eq_true, beq_iff_eq, Bool.not_eq_true',
          List.isEmpty_eq_false_iff, List.all_eq_true] at htext
        obtain ⟨⟨rfl, hsome⟩, hall⟩ := htext
        refine ⟨hfirst, ?_⟩
        rw [← List.takeWhile_append_dropWhile (p := isHexDigit) (l := rest), hdrop]
        refine Language.append_mem_mul (mem_oneOrMore_oneOf.mpr ⟨by simpa using hdigits, ?_⟩)
          (mem_sym_mul.mpr ⟨text, mem_oneOrMore_oneOf.mpr ⟨hsome, hall⟩, rfl⟩)
        exact fun b hb => List.mem_takeWhile_imp hb
    · rintro ⟨hfirst, hrest⟩
      obtain ⟨digits, hdigits, _, hmark, rfl⟩ := Language.mem_mul.mp hrest
      obtain ⟨text, htext, rfl⟩ := mem_sym_mul.mp hmark
      rw [mem_oneOrMore_oneOf] at hdigits htext
      have hstops : Stops isHexDigit (byte '.' :: text) := Stops.cons (by decide)
      have htake : (digits ++ byte '.' :: text).takeWhile isHexDigit = digits := by
        rw [List.takeWhile_append_of_pos hdigits.2, List.takeWhile_cons_of_neg (by decide),
          List.append_nil]
      have hlengths := List.length_pos_iff.mpr hdigits.1
      have hlengths' := List.length_pos_iff.mpr htext.1
      rw [htake, dropWhile_append hdigits.2 hstops]
      refine ⟨⟨⟨?_, hfirst⟩, by simpa using hdigits.1⟩, ?_⟩
      · rw [decide_eq_true_eq, List.length_cons, List.length_append, List.length_cons]
        omega
      · dsimp only
        rw [beq_self_eq_true, Bool.true_and, Bool.and_eq_true, List.all_eq_true]
        exact ⟨by simpa using htext.1, htext.2⟩

/-- Either form of a literal. -/
theorem validateIpLiteral_iff {word : Bytes} :
    validateIpLiteral word = true ↔ word ∈ ipv6address + ipvFuture := by
  rw [validateIpLiteral, Bool.or_eq_true, Language.mem_add, validateIpv6Address_iff,
    validateIpvFuture_iff]

-- ---------------------------------------------------------------------------
-- Characters that end an authority
-- ---------------------------------------------------------------------------

/-- A character of no part of an authority but the marks between them. -/
structure Outside (b : UInt8) : Prop where
  plain : isPlainComponentCharacter b .userInfo = false
  percent : (b == byte '%') = false
  hex : isHexDigit b = false

/-- A byte outside the authority is none of its plain bytes. -/
theorem Outside.ne {b c : UInt8} (h : Outside b)
    (hc : isPlainComponentCharacter c .userInfo = true) : b ≠ c := by
  rintro rfl
  rw [h.plain] at hc
  cases hc

theorem Outside.digit {b : UInt8} (h : Outside b) : isAsciiDigit b = false := by
  have hhex := h.hex
  rw [isHexDigit, Bool.or_eq_false_iff, Bool.or_eq_false_iff] at hhex
  exact hhex.1.1

/-- The parts of an authority hold no byte from outside it, part by part. -/
theorem Outside.avoids_userinfo {b : UInt8} (h : Outside b) : Avoids b userinfo := by
  rw [userinfo, userInfo_eq]
  refine (avoids_escapable ?_).kstar
  rw [h.plain, h.percent, h.hex]
  rfl

theorem Outside.avoids_port {b : UInt8} (h : Outside b) :
    Avoids b (optional (sym (byte ':') * port)) :=
  ((Avoids.sym (h.ne (by decide))).mul (Avoids.oneOf h.digit).kstar).optional

theorem Outside.avoids_regName {b : UInt8} (h : Outside b) : Avoids b regName := by
  rw [regName, regName_eq]
  refine (avoids_escapable ?_).kstar
  have hplain := h.plain
  simp only [isPlainComponentCharacter, Bool.or_eq_false_iff] at hplain
  simp only [isPlainComponentCharacter, hplain.1.1, hplain.1.2, h.percent, h.hex, Bool.or_self]

theorem Outside.avoids_ipv4address {b : UInt8} (h : Outside b) : Avoids b ipv4address := by
  have hoctet : Avoids b decOctet := avoids_decOctet h.digit
  rw [ipv4address_eq]
  exact ((hoctet.mul (Avoids.sym (h.ne (by decide)))).pow 3).mul hoctet

theorem Outside.avoids_ipLiteral {b : UInt8} (h : Outside b) :
    Avoids b (ipv6address + ipvFuture) := by
  have hgroup : Avoids b h16 := avoids_h16 h.hex
  have hcolon : Avoids b (sym (byte ':')) := Avoids.sym (h.ne (by decide))
  have hcolons : Avoids b colons := by
    rintro _ rfl hmem
    have hsame : b = byte ':' := by
      rw [show ascii "::" = [byte ':', byte ':'] from rfl] at hmem
      simpa using hmem
    exact h.ne (by decide) hsame
  have hleft (n : Nat) : Avoids b (leftSide n) := by
    match n with
    | 0 => exact Avoids.one
    | n + 1 => exact (((hgroup.mul hcolon).optional.pow n).mul hgroup).optional
  have hlast : Avoids b ls32 :=
    ((hgroup.mul hcolon).mul hgroup).add h.avoids_ipv4address
  have hright (n : Nat) : Avoids b (rightSide n) := by
    match n with
    | 0 => exact Avoids.one
    | 1 => exact hgroup
    | n + 2 => exact ((hgroup.mul hcolon).pow n).mul hlast
  refine Avoids.add ?_ ?_
  · intro word hword
    rcases mem_ipv6address.mp hword with hword | ⟨n, -, hword⟩
    · exact hright 8 word hword
    · exact ((hleft (7 - n)).mul hcolons).mul (hright n) word hword
  · have hplain := h.plain
    simp only [isPlainComponentCharacter, Bool.or_eq_false_iff] at hplain
    rw [ipvFuture, marks, hexdig_eq, unreserved_eq, subDelims, marks]
    refine (((Avoids.oneOf ?_).mul (Avoids.oneOf h.hex).oneOrMore).mul
      (Avoids.sym (h.ne (by decide)))).mul
      (((Avoids.oneOf hplain.1.1).add (Avoids.oneOf hplain.1.2)).add hcolon).oneOrMore
    have hlow : b ≠ byte 'v' := h.ne (by decide)
    have hhigh : b ≠ byte 'V' := h.ne (by decide)
    rw [show ascii "vV" = [byte 'v', byte 'V'] from rfl]
    simp [hlow, hhigh]

-- ---------------------------------------------------------------------------
-- Authorities
-- ---------------------------------------------------------------------------

theorem outside_at : Outside (byte '@') := ⟨by decide, by decide, by decide⟩

theorem outside_slash : Outside (byte '/') := ⟨by decide, by decide, by decide⟩

theorem outside_open : Outside (byte '[') := ⟨by decide, by decide, by decide⟩

theorem outside_close : Outside (byte ']') := ⟨by decide, by decide, by decide⟩

/-- A port is a run of digits, the empty one too. -/
theorem validatePort_iff {text : Bytes} : validatePort text = true ↔ text ∈ port := by
  rw [validatePort, List.all_eq_true, port, Grammar.digit, mem_kstar_oneOf]
  rfl

/-- A port that may be left out. -/
theorem mem_optional_port {text : Bytes} :
    text ∈ optional (sym (byte ':') * port) ↔
      (match text with
        | [] => true
        | mark :: port => mark == byte ':' && validatePort port) = true := by
  rw [mem_optional, sym_eq_oneOf]
  match text with
  | [] => simp
  | mark :: text =>
    rw [cons_mem_oneOf_mul, Bool.and_eq_true, validatePort_iff]
    simp

/-- A literal, its closing bracket, and a port. -/
theorem validateBracketed_iff {text : Bytes} :
    validateBracketed text = true ↔
      text ∈ (ipv6address + ipvFuture) * (sym (byte ']') * optional (sym (byte ':') * port)) := by
  rw [mem_mul_sym_mul outside_close.avoids_ipLiteral, validateBracketed]
  have hempty : validateIpLiteral [] = false := by decide
  match cut [byte ']'] text with
  | none => simp
  | some (literal, after) =>
    have hliteral : (!literal.isEmpty && validateIpLiteral literal) =
      validateIpLiteral literal := by
      cases literal with
      | nil => rw [hempty, Bool.and_false]
      | cons => rfl
    dsimp only
    rw [hliteral, Bool.and_eq_true, validateIpLiteral_iff]
    refine (and_congr Iff.rfl mem_optional_port.symm).trans ?_
    simp

/-- A name has no colon, so that the first colon ends it. -/
theorem avoids_regName_colon : Avoids (byte ':') regName := by
  rw [regName, regName_eq]
  exact (avoids_escapable (by decide)).kstar

/-- A name and a port. -/
theorem validateNamed_iff {text : Bytes} :
    validateNamed text = true ↔ text ∈ regName * optional (sym (byte ':') * port) := by
  have hclear {b : UInt8} (h : Outside b) (hmem : text ∈ regName * optional (sym (byte ':') * port)) :
      (!text.contains b) = true := by
    have hnot := (h.avoids_regName.mul h.avoids_port) text hmem
    simpa using hnot
  have hguard {A C D : Prop} (hcut : D ↔ C) (h : D → A) : A ∧ C ↔ D :=
    ⟨fun hboth => hcut.mpr hboth.2, fun hmem => ⟨h hmem, hcut.mp hmem⟩⟩
  rw [validateNamed, Bool.and_eq_true, Bool.and_eq_true]
  refine hguard ?_ fun h => ⟨hclear outside_open h, hclear outside_close h⟩
  rw [mem_mul_optional_sym_mul avoids_regName_colon]
  cases cut [byte ':'] text with
  | none =>
    dsimp only
    rw [validateComponent_iff, regName, regName_eq]
  | some halves =>
    obtain ⟨name, after⟩ := halves
    dsimp only
    have hport : validatePort after = true → (!after.contains (byte ':')) = true := by
      intro h
      rw [validatePort_iff, port] at h
      have hnot : byte ':' ∉ after := (Avoids.oneOf (by decide)).kstar after h
      simpa using hnot
    rw [Bool.and_eq_true, Bool.and_eq_true, validateComponent_iff, ← validatePort_iff, regName,
      regName_eq]
    constructor
    · rintro ⟨hname, hafter⟩
      exact ⟨⟨hport hafter, hname⟩, hafter⟩
    · rintro ⟨⟨-, hname⟩, hafter⟩
      exact ⟨hname, hafter⟩

/-- Plain bytes need no escape. -/
theorem mem_kstar_of_plain {p : UInt8 → Bool} {word : Bytes} (h : ∀ b ∈ word, p b = true) :
    word ∈ (escapable p)∗ := by
  induction word with
  | nil => exact Language.nil_mem_kstar _
  | cons b word ih =>
    rw [List.forall_mem_cons] at h
    exact cons_mem_escapable.mpr (Or.inl ⟨h.1, ih h.2⟩)

/-- An address of version 4 is a name as well. -/
theorem regName_of_ipv4address {word : Bytes} (h : word ∈ ipv4address) : word ∈ regName := by
  rw [regName, regName_eq]
  refine mem_kstar_of_plain fun b hb => ?_
  have hdigitPlain : ∀ b : UInt8, isAsciiDigit b = true →
      isPlainComponentCharacter b .regName = true := forall_byte (by decide)
  by_cases hdigit : isAsciiDigit b = true
  · exact hdigitPlain b hdigit
  · by_cases hdot : b = byte '.'
    · rw [hdot]
      decide
    · have hoctet : Avoids b decOctet := avoids_decOctet (Bool.eq_false_of_not_eq_true hdigit)
      rw [ipv4address_eq] at h
      exact absurd hb ((((hoctet.mul (Avoids.sym hdot)).pow 3).mul hoctet) word h)

/-- A dotted address is a name as far as the grammar goes, so the code does not look for it. -/
theorem host_eq : host = ipLiteral + regName := by
  ext word
  rw [host, Language.mem_add, Language.mem_add, Language.mem_add]
  constructor
  · rintro ((h | h) | h)
    · exact Or.inl h
    · exact Or.inr (regName_of_ipv4address h)
    · exact Or.inr h
  · rintro (h | h)
    · exact Or.inl (Or.inl h)
    · exact Or.inr h

/-- The first byte decides between a literal and a name. -/
theorem validateHostAndPort_iff {text : Bytes} :
    validateHostAndPort text = true ↔ text ∈ host * optional (sym (byte ':') * port) := by
  rw [host_eq, add_mul, Language.mem_add, ipLiteral, mul_assoc, mul_assoc, sym_eq_oneOf (byte '[')]
  have hnamed (rest : Bytes) :
      byte '[' :: rest ∉ regName * optional (sym (byte ':') * port) := by
    intro hmem
    exact (outside_open.avoids_regName.mul outside_open.avoids_port) _ hmem List.mem_cons_self
  match text with
  | [] =>
    rw [validateHostAndPort, validateNamed_iff]
    simp [nil_mem_oneOf_mul]
  | first :: rest =>
    rw [validateHostAndPort, cons_mem_oneOf_mul]
    by_cases hfirst : first = byte '['
    · rw [if_pos (beq_iff_eq.mpr hfirst), validateBracketed_iff, hfirst]
      simp [hnamed]
    · rw [if_neg (by rw [beq_iff_eq]; exact hfirst), validateNamed_iff]
      simp [hfirst]

/-- Apart from the brackets of a literal, a host and port hold nothing from outside. -/
theorem avoids_hostAndPort {b : UInt8} (h : Outside b) (hopen : b ≠ byte '[')
    (hclose : b ≠ byte ']') : Avoids b (host * optional (sym (byte ':') * port)) := by
  refine Avoids.mul ?_ h.avoids_port
  exact ((((Avoids.sym hopen).mul h.avoids_ipLiteral).mul (Avoids.sym hclose)).add
    h.avoids_ipv4address).add h.avoids_regName

/-- The first `@` ends the user information. -/
theorem validateAuthority_iff {text : Bytes} :
    validateAuthority text = true ↔ text ∈ authority := by
  have hhost := avoids_hostAndPort outside_at (by decide) (by decide)
  rw [authority, mul_assoc, mem_optional_mul_sym_mul outside_at.avoids_userinfo hhost,
    validateAuthority]
  match cut [byte '@'] text with
  | none => exact validateHostAndPort_iff
  | some (userInfo, rest) =>
    dsimp only
    rw [Bool.and_eq_true, Bool.and_eq_true, validateComponent_iff, validateHostAndPort_iff,
      userinfo,
      userInfo_eq]
    constructor
    · rintro ⟨⟨-, hinfo⟩, hrest⟩
      exact ⟨hinfo, hrest⟩
    · rintro ⟨hinfo, hrest⟩
      have hnot := hhost rest hrest
      exact ⟨⟨by simpa using hnot, hinfo⟩, hrest⟩

-- ---------------------------------------------------------------------------
-- Paths
-- ---------------------------------------------------------------------------

/-- The segments of a path are components of one kind. -/
theorem segment_eq : Grammar.segment = (componentOf .pchar)∗ := by
  rw [Grammar.segment, pchar_eq]

/-- A segment has no slash, so a path is cut at its slashes. -/
theorem avoids_segment : Avoids (byte '/') Grammar.segment := by
  rw [segment_eq]
  exact (avoids_escapable (by decide)).kstar

/-- A path whose pieces are segments. -/
theorem validatePathCharacters_iff {path : Bytes} :
    validatePathCharacters path = true ↔ ∀ piece ∈ path.splitOn (byte '/'), piece ∈ Grammar.segment := by
  rw [validatePathCharacters, List.all_eq_true]
  simp only [validateComponent_iff, segment_eq]

/-- One byte of a component is a text of length one or three. -/
theorem nil_not_mem_escapable {p : UInt8 → Bool} : [] ∉ escapable p := by
  rw [escapable, Language.mem_add, pctEncoded, sym_eq_oneOf, mul_assoc]
  rintro (h | h)
  · exact nil_mem_oneOf h
  · exact nil_mem_oneOf_mul h

/-- The first piece of a path is empty exactly if the path is, or begins with a slash. -/
theorem first_piece {path first : Bytes} {pieces : List Bytes}
    (h : path.splitOn (byte '/') = first :: pieces) :
    first ≠ [] ↔ path ≠ [] ∧ path.head? ≠ some (byte '/') := by
  obtain ⟨hnot, ⟨rfl, -⟩ | ⟨after, rfl, -⟩⟩ := splitOn_first h
  · constructor
    · intro hne
      refine ⟨hne, fun hhead => hnot ?_⟩
      exact List.mem_of_head? hhead
    · exact fun h => h.1
  · match first with
    | [] => simp
    | b :: first =>
      rw [List.mem_cons, not_or] at hnot
      simp [Ne.symm hnot.1]

theorem avoids_segmentNz : Avoids (byte '/') segmentNz := by
  rw [segmentNz, pchar_eq]
  exact (avoids_escapable (by decide)).oneOrMore

/-- The four forms of a path, each by its code. -/
theorem validatePathRootless_iff {path : Bytes} :
    validatePathRootless path = true ↔ path ∈ pathRootless := by
  rw [pathRootless, mem_first_separated avoids_segmentNz avoids_segment, validatePathRootless,
    Bool.and_eq_true,
    Bool.and_eq_true, validatePathCharacters_iff]
  obtain ⟨first, pieces, hsplit⟩ :=
    List.exists_cons_of_ne_nil (List.splitOn_ne_nil (byte '/') path)
  have hfirst := first_piece hsplit
  have hmem (piece : Bytes) : piece ∈ segmentNz ↔ piece ≠ [] ∧ piece ∈ Grammar.segment := by
    rw [segmentNz, Grammar.segment, pchar_eq, componentOf, mem_oneOrMore nil_not_mem_escapable]
  rw [hsplit, List.forall_mem_cons]
  constructor
  · rintro ⟨⟨hsome, hslash⟩, hown, hrest⟩
    refine ⟨first, pieces, rfl, (hmem first).mpr ⟨hfirst.mpr ?_, hown⟩, hrest⟩
    exact ⟨by simpa using hsome, by simpa using hslash⟩
  · rintro ⟨_, _, heq, hown, hrest⟩
    obtain ⟨rfl, rfl⟩ := List.cons.inj heq
    obtain ⟨hne, hown⟩ := (hmem first).mp hown
    obtain ⟨hsome, hslash⟩ := hfirst.mp hne
    exact ⟨⟨by simpa using hsome, by simpa using hslash⟩, hown, hrest⟩

theorem validatePathNoScheme_iff {path : Bytes} :
    validatePathNoScheme path = true ↔ path ∈ pathNoscheme := by
  have hclass : unreserved + pctEncoded + subDelims + marks "@" =
      escapable fun b => isPlainComponentCharacter b .pchar && b != byte ':' := by
    rw [escapable, unreserved_eq, subDelims, marks, marks, add_right_comm _ pctEncoded,
      add_right_comm _ pctEncoded, oneOf_add, oneOf_add]
    exact congrArg (· + pctEncoded) (oneOf_congr (forall_byte (by decide)))
  have hnz : Avoids (byte '/') segmentNzNc := by
    rw [segmentNzNc, hclass]
    exact (avoids_escapable (by decide)).oneOrMore
  have hmem (piece : Bytes) : piece ∈ segmentNzNc ↔ piece ∈ segmentNz ∧ byte ':' ∉ piece := by
    rw [segmentNzNc, segmentNz, hclass, pchar_eq, componentOf, mem_oneOrMore nil_not_mem_escapable,
      mem_oneOrMore nil_not_mem_escapable, mem_kstar_escapable_without (by decide), and_assoc]
  obtain ⟨first, pieces, hsplit⟩ :=
    List.exists_cons_of_ne_nil (List.splitOn_ne_nil (byte '/') path)
  -- The source looks for the colon in the first piece.
  have hcolon : validatePathNoScheme path = true ↔
      validatePathRootless path = true ∧ byte ':' ∉ first := by
    obtain ⟨-, ⟨rfl, hcut⟩ | ⟨after, -, hcut⟩⟩ := splitOn_first hsplit
    · rw [validatePathNoScheme, hcut]
      simp
    · rw [validatePathNoScheme, hcut]
      simp
  rw [hcolon, validatePathRootless_iff, pathNoscheme,
    pathRootless, mem_first_separated avoids_segmentNz avoids_segment,
    mem_first_separated hnz avoids_segment]
  constructor
  · rintro ⟨⟨own, rest, heq, hown, hrest⟩, hnot⟩
    rw [hsplit] at heq
    obtain ⟨rfl, rfl⟩ := List.cons.inj heq
    exact ⟨first, pieces, hsplit, (hmem first).mpr ⟨hown, hnot⟩, hrest⟩
  · rintro ⟨own, rest, heq, hown, hrest⟩
    rw [hsplit] at heq
    obtain ⟨rfl, rfl⟩ := List.cons.inj heq
    obtain ⟨hown, hnot⟩ := (hmem first).mp hown
    exact ⟨⟨first, pieces, hsplit, hown, hrest⟩, hnot⟩

/-- A slash in front only adds an empty segment. -/
theorem pathCharacters_cons {rest : Bytes} :
    validatePathCharacters (byte '/' :: rest) = validatePathCharacters rest := by
  have hsplit : (byte '/' :: rest).splitOn (byte '/') = [] :: rest.splitOn (byte '/') :=
    List.splitOn_append_cons_self_of_not_mem List.not_mem_nil rest
  rw [validatePathCharacters, hsplit, List.all_cons, validateComponent, Bool.true_and,
    validatePathCharacters]

theorem validatePathAbsolute_iff {path : Bytes} :
    validatePathAbsolute path = true ↔ path ∈ pathAbsolute := by
  rw [pathAbsolute, ← pathRootless, mem_sym_mul]
  constructor
  · intro h
    rw [validatePathAbsolute, Bool.and_eq_true, Bool.and_eq_true, beq_iff_eq] at h
    obtain ⟨⟨hhead, hnext⟩, hall⟩ := h
    match path with
    | [] => cases hhead
    | b :: rest =>
      rw [List.head?_cons, Option.some.injEq] at hhead
      subst hhead
      refine ⟨rest, mem_optional.mpr ?_, rfl⟩
      rw [pathCharacters_cons] at hall
      by_cases hrest : rest = []
      · exact Or.inl hrest
      · refine Or.inr (validatePathRootless_iff.mp ?_)
        rw [validatePathRootless, hall, Bool.and_true, Bool.and_eq_true]
        refine ⟨by simpa using hrest, ?_⟩
        simpa [hrest] using hnext
  · rintro ⟨rest, hrest, rfl⟩
    rw [validatePathAbsolute, pathCharacters_cons]
    rcases mem_optional.mp hrest with rfl | hrest
    · rfl
    · have hvalid := validatePathRootless_iff.mpr hrest
      rw [validatePathRootless, Bool.and_eq_true, Bool.and_eq_true] at hvalid
      rw [hvalid.2, List.tail_cons, hvalid.1.2]
      simp

/-- The first segment of a path behind an authority, taken apart from the others. -/
theorem pathAbempty_eq :
    pathAbempty = optional (sym (byte '/') * (Grammar.segment * (sym (byte '/') * Grammar.segment)∗)) := by
  rw [pathAbempty, Lib.optional, ← mul_assoc, Language.one_add_self_mul_kstar_eq_kstar]

theorem validatePathAbempty_iff {path : Bytes} :
    validatePathAbempty path = true ↔ path ∈ pathAbempty := by
  rw [validatePathAbempty, pathAbempty_eq, mem_optional, mem_sym_mul]
  match path with
  | [] =>
    simp only [true_or, iff_true]
    rfl
  | b :: rest =>
    simp only [mem_separated avoids_segment, ← validatePathCharacters_iff]
    constructor
    · intro h
      rw [Bool.and_eq_true] at h
      have hslash : b = byte '/' := by simpa using h.1
      rw [hslash, pathCharacters_cons] at h
      exact Or.inr ⟨rest, h.2, by rw [hslash]⟩
    · rintro (h | ⟨_, h, heq⟩)
      · cases h
      · obtain ⟨rfl, rfl⟩ := List.cons.inj heq
        rw [pathCharacters_cons, h]
        rfl

-- ---------------------------------------------------------------------------
-- References
-- ---------------------------------------------------------------------------

theorem validateScheme_iff {text : Bytes} : validateScheme text = true ↔ text ∈ scheme := by
  have halpha : alpha = oneOf isAsciiAlpha := oneOf_congr (forall_byte (by decide))
  have hclass : alpha + Grammar.digit + marks "+-." = oneOf fun b =>
      isAsciiAlpha b || isAsciiDigit b || b == byte '+' || b == byte '-' || b == byte '.' := by
    rw [alpha, Grammar.digit, marks, oneOf_add, oneOf_add]
    exact oneOf_congr (forall_byte (by decide))
  rw [scheme, hclass, halpha]
  cases text with
  | nil =>
    constructor
    · intro h
      cases h
    · intro h
      exact absurd h nil_mem_oneOf_mul
  | cons first rest =>
    rw [cons_mem_oneOf_mul, mem_kstar_oneOf, validateScheme, Bool.and_eq_true, List.all_eq_true]

/-- A scheme has no byte that a name would not have. -/
theorem avoids_scheme {b : UInt8} (hplain : isPlainComponentCharacter b .regName = false) :
    Avoids b scheme := by
  have hclass : ∀ b : UInt8, isPlainComponentCharacter b .regName = false →
      (isAsciiAlpha b || isAsciiDigit b || b == byte '+' || b == byte '-' || b == byte '.') =
        false := forall_byte (by decide)
  intro text htext hmem
  have hvalid := validateScheme_iff.mpr htext
  have hout := hclass b hplain
  match text with
  | [] => cases hmem
  | first :: rest =>
    rw [validateScheme, Bool.and_eq_true, List.all_eq_true] at hvalid
    rcases List.mem_cons.mp hmem with rfl | hmem
    · rw [hvalid.1] at hout
      cases hout
    · rw [hvalid.2 b hmem] at hout
      cases hout

/-- The hierarchical part of a reference, relative or not. -/
def hierarchyPart (relative : Bool) : Language UInt8 :=
  if relative then relativePart else hierPart

/-- A path that no slash begins. -/
def unrooted (relative : Bool) : Language UInt8 :=
  if relative then pathNoscheme else pathRootless

/-- The four forms of what follows the scheme, told apart by how the text starts. -/
theorem mem_hierarchyPart {text : Bytes} {relative : Bool} :
    text ∈ hierarchyPart relative ↔
      (∃ rest, text = byte '/' :: byte '/' :: rest ∧ rest ∈ authority * pathAbempty) ∨
        text ∈ pathAbsolute ∨ text ∈ unrooted relative ∨ text = [] := by
  have hform : hierarchyPart relative =
      sym (byte '/') * (sym (byte '/') * (authority * pathAbempty)) + pathAbsolute +
        unrooted relative + pathEmpty := by
    rw [← mul_assoc (sym (byte '/')) authority, ← mul_assoc (sym (byte '/')),
      ← mul_assoc (sym (byte '/'))]
    cases relative <;> rfl
  rw [hform, Language.mem_add, Language.mem_add, Language.mem_add, pathEmpty, Language.mem_one,
    or_assoc, or_assoc, mem_sym_mul]
  refine or_congr ?_ Iff.rfl
  constructor
  · rintro ⟨_, hslashed, rfl⟩
    obtain ⟨rest, hrest, rfl⟩ := mem_sym_mul.mp hslashed
    exact ⟨rest, rfl, hrest⟩
  · rintro ⟨rest, rfl, hrest⟩
    exact ⟨_, mem_sym_mul.mpr ⟨rest, hrest, rfl⟩, rfl⟩

/-- A path without a slash in front may have no colon in its first segment if nothing names
a scheme. -/
theorem mem_unrooted {text : Bytes} {relative : Bool} :
    text ∈ unrooted relative ↔
      (if relative then validatePathNoScheme text else validatePathRootless text) = true := by
  cases relative with
  | true => exact validatePathNoScheme_iff.symm
  | false => exact validatePathRootless_iff.symm

/-- Such a path starts with a byte that is no slash. -/
theorem unrooted_head {text : Bytes} {relative : Bool} (h : text ∈ unrooted relative) :
    text ≠ [] ∧ text.head? ≠ some (byte '/') := by
  have hrootless : validatePathRootless text = true := by
    rw [mem_unrooted] at h
    cases relative with
    | true =>
      rw [if_pos rfl, validatePathNoScheme, Bool.and_eq_true] at h
      exact h.1
    | false => exact h
  rw [validatePathRootless, Bool.and_eq_true, Bool.and_eq_true] at hrootless
  exact ⟨by simpa using hrootless.1.1, by simpa using hrootless.1.2⟩

/-- The first slash behind the two ends the authority. -/
theorem validateAuthorityAndPath_iff {rest : Bytes} :
    validateAuthorityAndPath (byte '/' :: byte '/' :: rest) = true ↔
      rest ∈ authority * pathAbempty := by
  have havoids : Avoids (byte '/') authority := by
    rw [authority, mul_assoc]
    exact ((outside_slash.avoids_userinfo.mul (Avoids.sym (by decide))).optional).mul
      (avoids_hostAndPort outside_slash (by decide) (by decide))
  rw [pathAbempty_eq, mem_mul_optional_sym_mul havoids, validateAuthorityAndPath]
  have hpath (path : Bytes) : validatePathAbempty (byte '/' :: path) = true ↔
      path ∈ Grammar.segment * (sym (byte '/') * Grammar.segment)∗ := by
    rw [validatePathAbempty_iff, pathAbempty_eq, mem_optional, sym_eq_oneOf, cons_mem_oneOf_mul]
    simp
  rw [show (byte '/' :: byte '/' :: rest).drop 2 = rest from rfl]
  match cut [byte '/'] rest with
  | none =>
    dsimp only
    rw [← validateAuthority_iff, show validatePathAbempty [] = true from rfl, Bool.and_true]
  | some (authority, path) =>
    dsimp only
    rw [Bool.and_eq_true, validateAuthority_iff, hpath]

/-- The form the code decides for is the only one the text can have. -/
theorem validateHierPart_iff {text : Bytes} {relative : Bool} :
    validateHierPart text relative = true ↔ text ∈ hierarchyPart relative := by
  rw [mem_hierarchyPart, validateHierPart]
  by_cases hslashes : (ascii "//").isPrefixOf text = true
  · rw [if_pos hslashes]
    obtain ⟨rest, rfl⟩ := List.isPrefixOf_iff_prefix.mp hslashes
    rw [show ascii "//" ++ rest = byte '/' :: byte '/' :: rest from rfl,
      validateAuthorityAndPath_iff]
    constructor
    · intro h
      exact Or.inl ⟨rest, rfl, h⟩
    · rintro (⟨_, ⟨⟩, h⟩ | h | h | h)
      · exact h
      · have hvalid := validatePathAbsolute_iff.mpr h
        cases hvalid
      · exact absurd rfl (unrooted_head h).2
      · cases h
  · rw [if_neg hslashes]
    have hnot : ¬∃ rest, text = byte '/' :: byte '/' :: rest ∧ rest ∈ authority * pathAbempty := by
      rintro ⟨rest, rfl, -⟩
      exact hslashes rfl
    rw [or_iff_right hnot]
    match text with
    | [] => simp
    | b :: rest =>
      rw [if_neg (by simp)]
      by_cases hslash : b = byte '/'
      · subst hslash
        rw [if_pos (by rfl), validatePathAbsolute_iff]
        constructor
        · exact Or.inl
        · rintro (h | h | h)
          · exact h
          · exact absurd rfl (unrooted_head h).2
          · cases h
      · rw [if_neg (by simpa using hslash), ← mem_unrooted]
        constructor
        · exact fun h => Or.inr (Or.inl h)
        · rintro (h | h | h)
          · have hvalid := validatePathAbsolute_iff.mpr h
            rw [validatePathAbsolute, Bool.and_eq_true, Bool.and_eq_true] at hvalid
            exact absurd (by simpa using hvalid.1.1) hslash
          · exact h
          · cases h

/-- What comes before the query and the fragment. -/
def hierarchyOf (requireUri : Bool) : Language UInt8 :=
  if requireUri then scheme * sym (byte ':') * hierPart
  else scheme * sym (byte ':') * hierPart + relativePart

/-- A text that begins with a scheme is no relative reference. -/
theorem not_relative {name : Bytes} (h : name ∈ scheme) (rest : Bytes) :
    name ++ byte ':' :: rest ∉ relativePart := by
  have hslash : byte '/' ∉ name := avoids_scheme (by decide) name h
  obtain ⟨b, more, rfl⟩ : ∃ b more, name = b :: more := by
    match name with
    | [] => exact absurd (validateScheme_iff.mpr h) (by decide)
    | b :: more => exact ⟨b, more, rfl⟩
  rw [List.mem_cons, not_or] at hslash
  have hcolon (first after : Bytes) (heq : b :: more ++ byte ':' :: rest = first ++
      byte '/' :: after) :
      byte ':' ∈ first := by
    rcases List.append_eq_append_iff.mp heq with ⟨between, rfl, hrest⟩ | ⟨between, hname, hrest⟩
    · match between with
      | [] => cases hrest
      | c :: between =>
        obtain ⟨rfl, -⟩ := List.cons.inj hrest
        simp
    · match between with
      | [] => cases hrest
      | c :: between =>
        obtain ⟨rfl, -⟩ := List.cons.inj hrest
        have hin : byte '/' ∈ b :: more := by
          rw [hname]
          simp
        rcases List.mem_cons.mp hin with heq | hin
        · exact absurd heq hslash.1
        · exact absurd hin hslash.2
  intro hmem
  rcases (@mem_hierarchyPart _ true).mp hmem with ⟨_, heq, -⟩ | hpath | hpath | hnil
  · exact hslash.1 (List.cons.inj heq).1.symm
  · have hvalid := validatePathAbsolute_iff.mpr hpath
    rw [validatePathAbsolute, Bool.and_eq_true, Bool.and_eq_true] at hvalid
    have hfirst : b = byte '/' := by simpa using hvalid.1.1
    exact hslash.1 hfirst.symm
  · have hvalid := mem_unrooted.mp hpath
    rw [if_pos rfl, validatePathNoScheme, Bool.and_eq_true] at hvalid
    split at hvalid
    · have hnot := hvalid.2
      simp at hnot
    · rename_i first after hcut
      have hnot : byte ':' ∉ first := by simpa using hvalid.2
      refine hnot (hcolon first after ?_)
      rw [cut_eq_some hcut, List.append_assoc]
      rfl
  · cases hnil

/-- With a scheme, or without one where none is required. -/
theorem validateHierarchy_iff {text : Bytes} {requireUri : Bool} :
    validateHierarchy text requireUri = true ↔ text ∈ hierarchyOf requireUri := by
  have huri : text ∈ hierarchyOf requireUri ↔
      text ∈ scheme * (sym (byte ':') * hierPart) ∨ requireUri = false ∧ text ∈ relativePart := by
    rw [← mul_assoc]
    cases requireUri with
    | true => simp [hierarchyOf]
    | false => simp only [hierarchyOf, Language.mem_add, Bool.false_eq_true, if_false, true_and]
  have hhier (text : Bytes) : validateHierPart text false = true ↔ text ∈ hierPart :=
    validateHierPart_iff
  have hrelative (text : Bytes) : validateHierPart text true = true ↔ text ∈ relativePart :=
    validateHierPart_iff
  rw [huri, mem_mul_sym_mul (avoids_scheme (by decide)), validateHierarchy]
  match hcut : cut [byte ':'] text with
  | none =>
    dsimp only
    rw [Bool.and_eq_true, hrelative, Bool.not_eq_true']
    simp
  | some (name, rest) =>
    dsimp only
    by_cases hscheme : validateScheme name = true
    · have hnot := not_relative (validateScheme_iff.mp hscheme) rest
      have htext : text = name ++ byte ':' :: rest := by
        rw [cut_eq_some hcut, List.append_assoc]
        rfl
      rw [if_pos hscheme, hhier]
      constructor
      · intro h
        exact Or.inl ⟨_, rfl, validateScheme_iff.mp hscheme, h⟩
      · rintro (⟨_, ⟨⟩, -, h⟩ | ⟨-, h⟩)
        · exact h
        · rw [htext] at h
          exact absurd h hnot
    · rw [if_neg hscheme, Bool.and_eq_true, hrelative, Bool.not_eq_true']
      constructor
      · exact Or.inr
      · rintro (⟨_, ⟨⟩, h, -⟩ | h)
        · exact absurd (validateScheme_iff.mpr h) hscheme
        · exact h

/-- A character of no part of a hierarchy. -/
structure Foreign (b : UInt8) : Prop extends Outside b where
  mark : b ∉ ascii "/:@[]"
  segment : (isPlainComponentCharacter b .pchar || b == byte '%' || isHexDigit b) = false
  name : isPlainComponentCharacter b .regName = false

/-- Neither `?` nor `#` is in front of the query. -/
theorem avoids_hierarchyOf {b : UInt8} {requireUri : Bool} (hb : Foreign b) :
    Avoids b (hierarchyOf requireUri) := by
  have hout : Outside b := hb.toOutside
  have hmark (c : UInt8) (hc : c ∈ ascii "/:@[]") : b ≠ c := by
    rintro rfl
    exact hb.mark hc
  have hpchar := hb.segment
  have hscheme : Avoids b scheme := avoids_scheme hb.name
  have hslash : Avoids b (sym (byte '/')) := Avoids.sym (hmark _ (by decide))
  have hcolon : Avoids b (sym (byte ':')) := Avoids.sym (hmark _ (by decide))
  have hsegment : Avoids b Grammar.segment := by
    rw [segment_eq]
    exact (avoids_escapable hpchar).kstar
  have hsegments : Avoids b (sym (byte '/') * Grammar.segment)∗ := (hslash.mul hsegment).kstar
  have hrootless : Avoids b pathRootless := by
    rw [pathRootless, segmentNz, pchar_eq]
    exact (avoids_escapable hpchar).oneOrMore.mul hsegments
  have hnoscheme : Avoids b pathNoscheme := by
    intro path hpath
    have hvalid := validatePathNoScheme_iff.mpr hpath
    rw [validatePathNoScheme, Bool.and_eq_true] at hvalid
    exact hrootless path (validatePathRootless_iff.mp hvalid.1)
  have hauthority : Avoids b authority := by
    rw [authority, mul_assoc]
    exact ((hout.avoids_userinfo.mul (Avoids.sym (hmark _ (by decide)))).optional).mul
      (avoids_hostAndPort hout (hmark _ (by decide)) (hmark _ (by decide)))
  have hnet : Avoids b (sym (byte '/') * sym (byte '/') * authority * pathAbempty) :=
    ((hslash.mul hslash).mul hauthority).mul hsegments
  have habsolute : Avoids b pathAbsolute := hslash.mul hrootless.optional
  have hhier : Avoids b (scheme * sym (byte ':') * hierPart) :=
    (hscheme.mul hcolon).mul (((hnet.add habsolute).add hrootless).add Avoids.one)
  have hrelative : Avoids b relativePart :=
    ((hnet.add habsolute).add hnoscheme).add Avoids.one
  cases requireUri with
  | true => exact hhier
  | false => exact hhier.add hrelative

/-- The mark before a query. -/
theorem foreign_question : Foreign (byte '?') :=
  ⟨⟨by decide, by decide, by decide⟩, by decide, by decide, by decide⟩

/-- The mark before a fragment. -/
theorem foreign_hash : Foreign (byte '#') :=
  ⟨⟨by decide, by decide, by decide⟩, by decide, by decide, by decide⟩

theorem query_eq : query = (componentOf .queryOrFragment)∗ := by
  rw [query, queryOrFragment_eq]

theorem fragment_eq : fragment = (componentOf .queryOrFragment)∗ := by
  rw [fragment, queryOrFragment_eq]

/-- The first `?` starts the query. -/
theorem validateMain_iff {text : Bytes} {requireUri : Bool} :
    validateMain text requireUri = true ↔
      text ∈ hierarchyOf requireUri * optional (sym (byte '?') * query) := by
  rw [mem_mul_optional_sym_mul (avoids_hierarchyOf foreign_question), validateMain]
  match cut [byte '?'] text with
  | none => exact validateHierarchy_iff
  | some (hierarchy, query) =>
    dsimp only
    rw [Bool.and_eq_true, validateComponent_iff, validateHierarchy_iff, query_eq]
    exact And.comm

/-- The first `#` starts the fragment. -/
theorem validateReference_iff {text : Bytes} {requireUri : Bool} :
    validateReference text requireUri = true ↔
      text ∈ hierarchyOf requireUri * optional (sym (byte '?') * query) *
        optional (sym (byte '#') * fragment) := by
  have hcomponent : Avoids (byte '#') (componentOf .queryOrFragment) := avoids_escapable (by decide)
  have hquery : Avoids (byte '#') query := by
    rw [query_eq]
    exact hcomponent.kstar
  have hbefore : Avoids (byte '#')
      (hierarchyOf requireUri * optional (sym (byte '?') * query)) :=
    (avoids_hierarchyOf foreign_hash).mul ((Avoids.sym (by decide)).mul hquery).optional
  rw [mem_mul_optional_sym_mul hbefore, validateReference]
  match cut [byte '#'] text with
  | none => exact validateMain_iff
  | some (main, fragment) =>
    dsimp only
    rw [Bool.and_eq_true, Bool.and_eq_true, validateComponent_iff, validateMain_iff, fragment_eq]
    constructor
    · rintro ⟨⟨-, hfragment⟩, hmain⟩
      exact ⟨hmain, hfragment⟩
    · rintro ⟨hmain, hfragment⟩
      have hnot : byte '#' ∉ fragment := hcomponent.kstar fragment hfragment
      exact ⟨⟨by simpa using hnot, hfragment⟩, hmain⟩

/-- What is accepted is what the grammar generates. -/
theorem isValidUriReference_iff (value : Bytes) :
    (isValidUriReference value = true ↔ value ∈ uriReference) ∧
      (isValidUri value = true ↔ value ∈ uri) := by
  rw [isValidUriReference, isValidUri, validateReference_iff, validateReference_iff]
  refine ⟨?_, Iff.rfl⟩
  rw [uriReference, uri, relativeRef, hierarchyOf, if_neg Bool.false_ne_true, add_mul, add_mul]

/-- A character of no rule is in no reference. -/
theorem Foreign.not_mem {b : UInt8} (h : Foreign b)
    (hcomponent : (isPlainComponentCharacter b .queryOrFragment || b == byte '%' ||
      isHexDigit b) = false) (hquestion : b ≠ byte '?') (hhash : b ≠ byte '#') {value : Bytes}
    (hvalid : isValidUriReference value = true) : b ∉ value := by
  have hcomponents : Avoids b (componentOf .queryOrFragment)∗ :=
    (avoids_escapable hcomponent).kstar
  have hquery : Avoids b query := by
    rw [query_eq]
    exact hcomponents
  have hfragment : Avoids b fragment := by
    rw [fragment_eq]
    exact hcomponents
  exact ((avoids_hierarchyOf h).mul ((Avoids.sym hquestion).mul hquery).optional).mul
    ((Avoids.sym hhash).mul hfragment).optional value (validateReference_iff.mp hvalid)

/-- What a renderer relies on: a reference does not end the field it stands in. -/
theorem space_not_mem {value : Bytes} (h : isValidUriReference value = true) :
    byte ' ' ∉ value :=
  Foreign.not_mem ⟨⟨by decide, by decide, by decide⟩, by decide, by decide, by decide⟩
    (by decide) (by decide) (by decide) h

theorem closing_not_mem {value : Bytes} (h : isValidUriReference value = true) :
    byte '>' ∉ value :=
  Foreign.not_mem ⟨⟨by decide, by decide, by decide⟩, by decide, by decide, by decide⟩
    (by decide) (by decide) (by decide) h

end Cuac.Runtime.Uri

import Mathlib.Computability.Language
import Cuac.Lib.Bytes

/-!
# Grammars

The rules of a grammar as languages: classes of symbols, parts that may be left
out, and lists with a separator. A word is taken apart the way a scanner does it,
at the first occurrence of a mark, and where the parts before a mark keep clear
of it that is the only way.

Main results:

* `Avoids.add`, `Avoids.mul`, `Avoids.kstar` — a rule keeps clear of what its parts do.
* `mem_mul_sym_mul`, `mem_mul_optional_sym_mul`, `mem_optional_mul_sym_mul` — parts
  around a mark.
* `mem_separated`, `mem_counted` — lists.
-/

namespace Cuac.Lib

open Computability

variable {α : Type}

-- ---------------------------------------------------------------------------
-- Classes of symbols
-- ---------------------------------------------------------------------------

/-- The one-symbol words of a class. -/
def oneOf (p : α → Bool) : Language α := {word | ∃ a, p a = true ∧ word = [a]}

/-- The words that may be left out. -/
def optional (L : Language α) : Language α := 1 + L

/-- One word or more, one after the other. -/
def oneOrMore (L : Language α) : Language α := L * L∗

/-- A symbol that is in no word. -/
def Avoids (a : α) (L : Language α) : Prop := ∀ word ∈ L, a ∉ word

section Words

variable {p q : α → Bool} {L M : Language α} {a : α} {word : List α}

/-- A class is the words of one of its letters. -/
theorem mem_oneOf : word ∈ oneOf p ↔ ∃ a, p a = true ∧ word = [a] := Iff.rfl

/-- The union of two classes is a class. -/
theorem oneOf_add : oneOf p + oneOf q = oneOf fun a => p a || q a := by
  ext word
  simp only [Language.mem_add, mem_oneOf, Bool.or_eq_true, or_and_right, exists_or]

theorem nil_mem_oneOf : [] ∉ oneOf p := by
  rintro ⟨a, -, hnil⟩
  cases hnil

theorem cons_mem_oneOf : a :: word ∈ oneOf p ↔ p a = true ∧ word = [] := by
  rw [mem_oneOf]
  constructor
  · rintro ⟨b, hb, hcons⟩
    obtain ⟨rfl, rfl⟩ := List.cons.inj hcons
    exact ⟨hb, rfl⟩
  · rintro ⟨ha, rfl⟩
    exact ⟨a, ha, rfl⟩

theorem nil_mem_oneOf_mul : [] ∉ oneOf p * L := by
  rintro ⟨_, ⟨a, -, rfl⟩, rest, -, hnil⟩
  cases hnil

/-- Reading a class takes one letter off the word. -/
theorem cons_mem_oneOf_mul : a :: word ∈ oneOf p * L ↔ p a = true ∧ word ∈ L := by
  rw [Language.mem_mul]
  constructor
  · rintro ⟨_, ⟨b, hb, rfl⟩, rest, hrest, hcons⟩
    obtain ⟨rfl, rfl⟩ := List.cons.inj hcons
    exact ⟨hb, hrest⟩
  · rintro ⟨ha, hword⟩
    exact ⟨[a], ⟨a, ha, rfl⟩, word, hword, rfl⟩

/-- The same at the end of a word. -/
theorem append_singleton_mem_mul_oneOf : word ++ [a] ∈ L * oneOf p ↔ word ∈ L ∧ p a = true := by
  rw [Language.mem_mul]
  constructor
  · rintro ⟨front, hfront, _, ⟨b, hb, rfl⟩, heq⟩
    obtain ⟨rfl, hend⟩ := List.append_inj' heq rfl
    rw [← (List.cons.inj hend).1]
    exact ⟨hfront, hb⟩
  · rintro ⟨hword, ha⟩
    exact ⟨word, hword, [a], ⟨a, ha, rfl⟩, rfl⟩

theorem mem_optional : word ∈ optional L ↔ word = [] ∨ word ∈ L := by
  rw [optional, Language.mem_add, Language.mem_one]

/-- Taking one word off a repetition. -/
theorem mem_kstar_iff : word ∈ L∗ ↔ word = [] ∨ word ∈ L * L∗ := by
  rw [← Language.mem_one, ← Language.mem_add, Language.one_add_self_mul_kstar_eq_kstar]

/-- A repeated class is a condition on every letter. -/
theorem mem_kstar_oneOf : word ∈ (oneOf p)∗ ↔ ∀ a ∈ word, p a = true := by
  induction word with
  | nil => simp [Language.nil_mem_kstar]
  | cons a word ih =>
    rw [mem_kstar_iff, cons_mem_oneOf_mul, ih, List.forall_mem_cons]
    simp

theorem mem_oneOrMore_oneOf :
    word ∈ oneOrMore (oneOf p) ↔ word ≠ [] ∧ ∀ a ∈ word, p a = true := by
  match word with
  | [] =>
    constructor
    · intro h
      exact absurd h nil_mem_oneOf_mul
    · intro h
      exact absurd rfl h.1
  | a :: word =>
    rw [oneOrMore, cons_mem_oneOf_mul, mem_kstar_oneOf, List.forall_mem_cons]
    simp

/-- Of a language without the empty word, only the empty list is left out. -/
theorem mem_oneOrMore (h : [] ∉ L) : word ∈ oneOrMore L ↔ word ≠ [] ∧ word ∈ L∗ := by
  rw [mem_kstar_iff, oneOrMore]
  constructor
  · intro hword
    refine ⟨?_, Or.inr hword⟩
    rintro rfl
    obtain ⟨left, hleft, right, -, hnil⟩ := hword
    rw [(List.append_eq_nil_iff.mp hnil).1] at hleft
    exact h hleft
  · rintro ⟨hne, hempty | hword⟩
    · exact absurd hempty hne
    · exact hword

/-- An optional word in front gives two alternatives. -/
theorem optional_mul : optional L * M = M + L * M := by
  rw [optional, add_mul, one_mul]

/-- Optional words in a row: some number of words up to theirs. -/
theorem mem_pow_optional {n : Nat} : word ∈ optional L ^ n ↔ ∃ k ≤ n, word ∈ L ^ k := by
  induction n generalizing word with
  | zero =>
    constructor
    · exact fun h => ⟨0, Nat.le_refl 0, h⟩
    · rintro ⟨k, hk, h⟩
      rwa [Nat.le_zero.mp hk] at h
  | succ n ih =>
    rw [pow_succ', optional_mul, Language.mem_add, ih, Language.mem_mul]
    constructor
    · rintro (⟨k, hk, h⟩ | ⟨first, hfirst, rest, hrest, rfl⟩)
      · exact ⟨k, by omega, h⟩
      · obtain ⟨k, hk, h⟩ := ih.mp hrest
        refine ⟨k + 1, by omega, ?_⟩
        rw [pow_succ']
        exact Language.append_mem_mul hfirst h
    · rintro ⟨k, hk, h⟩
      match k with
      | 0 => exact Or.inl ⟨0, Nat.zero_le n, h⟩
      | k + 1 =>
        rw [pow_succ'] at h
        obtain ⟨first, hfirst, rest, hrest, rfl⟩ := h
        exact Or.inr ⟨first, hfirst, rest, ih.mpr ⟨k, by omega, hrest⟩, rfl⟩

theorem mem_pow_optional_mul {n : Nat} :
    word ∈ optional L ^ n * M ↔ ∃ k ≤ n, word ∈ L ^ k * M := by
  constructor
  · rintro ⟨left, hleft, right, hright, rfl⟩
    obtain ⟨k, hk, h⟩ := mem_pow_optional.mp hleft
    exact ⟨k, hk, Language.append_mem_mul h hright⟩
  · rintro ⟨k, hk, left, hleft, right, hright, rfl⟩
    exact Language.append_mem_mul (mem_pow_optional.mpr ⟨k, hk, hleft⟩) hright

/-- A class repeated so many times fixes the length. -/
theorem mem_pow_oneOf {n : Nat} :
    word ∈ oneOf p ^ n ↔ word.length = n ∧ ∀ a ∈ word, p a = true := by
  induction n generalizing word with
  | zero =>
    rw [pow_zero, Language.mem_one, List.length_eq_zero_iff]
    constructor
    · rintro rfl
      simp
    · exact fun h => h.1
  | succ n ih =>
    rw [pow_succ']
    match word with
    | [] =>
      constructor
      · intro h
        exact absurd h nil_mem_oneOf_mul
      · intro h
        cases h.1
    | a :: word =>
      rw [cons_mem_oneOf_mul, ih, List.length_cons, List.forall_mem_cons]
      constructor
      · rintro ⟨ha, hlength, hall⟩
        exact ⟨by omega, ha, hall⟩
      · rintro ⟨hlength, ha, hall⟩
        exact ⟨ha, by omega, hall⟩

-- ---------------------------------------------------------------------------
-- Symbols that do not occur
-- ---------------------------------------------------------------------------

theorem Avoids.oneOf (h : p a = false) : Avoids a (oneOf p) := by
  rintro _ ⟨b, hb, rfl⟩ hmem
  rw [List.mem_singleton.mp hmem, hb] at h
  cases h

theorem Avoids.one : Avoids a (1 : Language α) := by
  intro word hword
  rw [(Language.mem_one word).mp hword]
  simp

theorem Avoids.add (hL : Avoids a L) (hM : Avoids a M) : Avoids a (L + M) := by
  rintro word (hword | hword)
  · exact hL word hword
  · exact hM word hword

/-- A letter that both parts avoid is in no word of the sequence; the other operations
follow suit. -/
theorem Avoids.mul (hL : Avoids a L) (hM : Avoids a M) : Avoids a (L * M) := by
  rintro _ ⟨left, hleft, right, hright, rfl⟩ hmem
  rcases List.mem_append.mp hmem with hmem | hmem
  · exact hL left hleft hmem
  · exact hM right hright hmem

theorem Avoids.optional (hL : Avoids a L) : Avoids a (optional L) := Avoids.one.add hL

theorem Avoids.pow (hL : Avoids a L) (n : Nat) : Avoids a (L ^ n) := by
  induction n with
  | zero => exact Avoids.one
  | succ n ih =>
    rw [pow_succ]
    exact ih.mul hL

theorem Avoids.kstar (hL : Avoids a L) : Avoids a L∗ := by
  intro word hword
  obtain ⟨parts, rfl, hparts⟩ := Language.mem_kstar.mp hword
  intro hmem
  obtain ⟨part, hpart, hin⟩ := List.mem_flatten.mp hmem
  exact hL part (hparts part hpart) hin

theorem Avoids.oneOrMore (hL : Avoids a L) : Avoids a (oneOrMore L) := hL.mul hL.kstar

end Words

section Lists

variable {L M : Language α} {a : α} {word : List α}

/-- The word of one symbol. -/
def sym (a : α) : Language α := {[a]}

/-- Words of one form each are the images of a list. -/
theorem forall_mem_image {β : Type} {P : β → Prop} {f : β → List α} {words : List (List α)} :
    (∀ word ∈ words, ∃ b, P b ∧ f b = word) ↔ ∃ l : List β, (∀ b ∈ l, P b) ∧ words = l.map f := by
  constructor
  · intro h
    induction words with
    | nil => exact ⟨[], by simp, rfl⟩
    | cons word words ih =>
      rw [List.forall_mem_cons] at h
      obtain ⟨⟨b, hb, rfl⟩, hrest⟩ := h
      obtain ⟨l, hl, rfl⟩ := ih hrest
      exact ⟨b :: l, List.forall_mem_cons.mpr ⟨hb, hl⟩, rfl⟩
  · rintro ⟨l, hl, rfl⟩ word hword
    obtain ⟨b, hb, rfl⟩ := List.mem_map.mp hword
    exact ⟨b, hl b hb, rfl⟩

theorem Avoids.sym {b : α} (h : a ≠ b) : Avoids a (sym b) := by
  rintro _ rfl hmem
  exact h (List.mem_singleton.mp hmem)

/-- A fixed letter in front. -/
theorem mem_sym_mul : word ∈ sym a * L ↔ ∃ rest, rest ∈ L ∧ a :: rest = word := by
  constructor
  · rintro ⟨_, rfl, rest, hrest, rfl⟩
    exact ⟨rest, hrest, rfl⟩
  · rintro ⟨rest, hrest, rfl⟩
    exact Language.append_mem_mul (l := sym a) rfl hrest

theorem mem_mul_sym : word ∈ L * sym a ↔ ∃ rest, rest ∈ L ∧ rest ++ [a] = word := by
  constructor
  · rintro ⟨rest, hrest, _, rfl, rfl⟩
    exact ⟨rest, hrest, rfl⟩
  · rintro ⟨rest, hrest, rfl⟩
    exact Language.append_mem_mul (m := sym a) hrest rfl

/-- A repetition of words behind a letter, by the pieces between the letters. -/
theorem mem_kstar_sym_mul :
    word ∈ (sym a * L)∗ ↔ ∃ pieces : List (List α),
      (∀ piece ∈ pieces, piece ∈ L) ∧ word = pieces.flatMap (a :: ·) := by
  simp only [Language.mem_kstar, mem_sym_mul, forall_mem_image]
  constructor
  · rintro ⟨_, rfl, pieces, hpieces, rfl⟩
    exact ⟨pieces, hpieces, List.flatMap_def.symm⟩
  · rintro ⟨pieces, hpieces, rfl⟩
    exact ⟨_, List.flatMap_def, pieces, hpieces, rfl⟩

/-- Words with a letter behind each, and a last one without. -/
theorem mem_pow_mul {n : Nat} :
    word ∈ (L * sym a) ^ n * M ↔ ∃ (pieces : List (List α)) (last : List α), pieces.length = n ∧
      (∀ piece ∈ pieces, piece ∈ L) ∧ last ∈ M ∧ word = pieces.flatMap (· ++ [a]) ++ last := by
  simp only [Language.mem_mul (l := (L * sym a) ^ n), Language.mem_pow, mem_mul_sym,
    forall_mem_image]
  constructor
  · rintro ⟨_, ⟨_, rfl, hlength, pieces, hpieces, rfl⟩, last, hlast, rfl⟩
    exact ⟨pieces, last, by simpa using hlength, hpieces, hlast, by rw [List.flatMap_def]⟩
  · rintro ⟨pieces, last, hlength, hpieces, hlast, rfl⟩
    exact ⟨_, ⟨_, List.flatMap_def, by simpa using hlength, pieces, hpieces, rfl⟩, last, hlast, rfl⟩

end Lists

-- ---------------------------------------------------------------------------
-- Words that a mark ends
-- ---------------------------------------------------------------------------

variable [DecidableEq α]

/-- What is before the first occurrence of a mark, and what is after it. -/
def cut (mark : List α) : List α → Option (List α × List α)
  | [] => none
  | a :: rest =>
    if mark.isPrefixOf (a :: rest) then some ([], (a :: rest).drop mark.length)
    else (cut mark rest).map fun halves => (a :: halves.1, halves.2)

/-- A word without one of the letters of the mark is not cut by it. -/
theorem cut_eq_none_of {mark word : List α} {a : α} (hmark : a ∈ mark) (h : a ∉ word) :
    cut mark word = none := by
  induction word with
  | nil => rfl
  | cons b rest ih =>
    rw [cut, if_neg, ih fun hmem => h (List.mem_cons_of_mem _ hmem)]
    · rfl
    · rw [List.isPrefixOf_iff_prefix]
      intro hstarts
      exact h (hstarts.subset hmark)

/-- What a cut returns makes up the word. -/
theorem cut_eq_some {mark word before after : List α} (h : cut mark word = some (before, after)) :
    word = before ++ mark ++ after := by
  induction word generalizing before with
  | nil => cases h
  | cons a rest ih =>
    rw [cut] at h
    split at h
    · rename_i hstarts
      obtain ⟨more, hmore⟩ := List.isPrefixOf_iff_prefix.mp hstarts
      obtain ⟨rfl, rfl⟩ := Prod.mk.inj (Option.some.inj h)
      rw [← hmore, List.drop_left, List.nil_append]
    · obtain ⟨halves, hhalves, hsame⟩ := Option.map_eq_some_iff.mp h
      obtain ⟨rfl, rfl⟩ := Prod.mk.inj hsame
      rw [ih hhalves]
      rfl

/-- A single symbol is found at its first place. -/
theorem cut_append {a : α} {before : List α} (h : a ∉ before) (after : List α) :
    cut [a] (before ++ a :: after) = some (before, after) := by
  induction before with
  | nil => simp [cut]
  | cons b before ih =>
    rw [List.mem_cons, not_or] at h
    rw [List.cons_append, cut, if_neg (by simp [h.1]), ih h.2]
    rfl

/-- A word that does not hold the mark is not cut. -/
theorem cut_eq_none_of_not_mem {mark word : List α} (h : ¬mark <:+: word) :
    cut mark word = none := by
  match hcut : cut mark word with
  | none => rfl
  | some (before, after) => exact absurd ⟨before, after, (cut_eq_some hcut).symm⟩ h

/-- A mark is found at its end if it does not begin in what is before it. -/
theorem cut_append_of_first {mark before : List α} (hmark : mark ≠ [])
    (h : ¬mark <:+: before ++ mark.dropLast) (after : List α) :
    cut mark (before ++ mark ++ after) = some (before, after) := by
  induction before with
  | nil =>
    obtain ⟨a, rest, rfl⟩ := List.exists_cons_of_ne_nil hmark
    rw [List.nil_append, List.cons_append, cut, if_pos (by simp)]
    simp
  | cons b before ih =>
    have hlater : ¬mark <:+: before ++ mark.dropLast := by
      rintro ⟨front, back, heq⟩
      exact h ⟨b :: front, back, by rw [List.cons_append, List.cons_append, heq, List.cons_append]⟩
    rw [List.cons_append, List.cons_append, cut, if_neg, ih hlater]
    · rfl
    · rw [List.isPrefixOf_iff_prefix]
      intro hstarts
      have hshort : mark.length ≤ (b :: before ++ mark.dropLast).length := by
        rw [List.length_append, List.length_dropLast, List.length_cons]
        omega
      have hstart : b :: before ++ mark.dropLast <+: b :: (before ++ mark ++ after) := by
        refine ⟨[mark.getLast hmark] ++ after, ?_⟩
        rw [← List.append_assoc, List.append_assoc (b :: before),
          List.dropLast_append_getLast hmark]
        rfl
      exact h (List.prefix_of_prefix_length_le hstarts hstart hshort).isInfix

/-- A mark of one letter cuts at its first occurrence. -/
theorem cut_cases (a : α) (word : List α) :
    (a ∉ word ∧ cut [a] word = none) ∨
      ∃ before after, word = before ++ a :: after ∧ a ∉ before ∧
        cut [a] word = some (before, after) := by
  by_cases h : a ∈ word
  · obtain ⟨before, after, rfl, hbefore⟩ := List.eq_append_cons_of_mem h
    exact Or.inr ⟨before, after, rfl, hbefore, cut_append hbefore after⟩
  · exact Or.inl ⟨h, cut_eq_none_of (List.mem_singleton_self a) h⟩

/-- Without a symbol in it, a text only adds to what is before the symbol. -/
theorem cut_append_left {a : α} {before : List α} (h : a ∉ before) (more : List α) :
    cut [a] (before ++ more) = (cut [a] more).map fun halves => (before ++ halves.1, halves.2) := by
  rcases cut_cases a more with ⟨hmore, hcut⟩ | ⟨first, after, rfl, hfirst, hcut⟩
  · have hnot : a ∉ before ++ more := by
      rw [List.mem_append, not_or]
      exact ⟨h, hmore⟩
    rw [hcut, cut_eq_none_of (List.mem_singleton_self a) hnot]
    rfl
  · have hnot : a ∉ before ++ first := by
      rw [List.mem_append, not_or]
      exact ⟨h, hfirst⟩
    rw [hcut, ← List.append_assoc, cut_append hnot]
    rfl

section Marks

variable {L M : Language α} {a : α} {word : List α}

/-- Where the first part avoids the letter, reading the sequence is one cut. -/
theorem mem_mul_sym_mul (hL : Avoids a L) :
    word ∈ L * (sym a * M) ↔ ∃ halves, cut [a] word = some halves ∧ halves.1 ∈ L ∧
    halves.2 ∈ M := by
  constructor
  · rintro ⟨left, hleft, _, ⟨_, rfl, right, hright, rfl⟩, rfl⟩
    exact ⟨(left, right), cut_append (hL left hleft) right, hleft, hright⟩
  · rintro ⟨⟨left, right⟩, hcut, hleft, hright⟩
    rw [cut_eq_some hcut, List.append_assoc]
    exact Language.append_mem_mul hleft (Language.append_mem_mul rfl hright)

/-- A second part that a mark begins. -/
theorem mem_mul_optional_sym_mul (hL : Avoids a L) :
    word ∈ L * optional (sym a * M) ↔
      match cut [a] word with
      | none => word ∈ L
      | some halves => halves.1 ∈ L ∧ halves.2 ∈ M := by
  rw [optional, mul_add, mul_one, Language.mem_add, mem_mul_sym_mul hL]
  rcases cut_cases a word with ⟨-, hcut⟩ | ⟨before, after, hword, -, hcut⟩
  · rw [hcut]
    simp
  · have hnot : word ∉ L := by
      intro hmem
      refine hL word hmem ?_
      rw [hword]
      simp
    rw [hcut]
    simp [hnot]

/-- A first part that a mark ends. -/
theorem mem_optional_mul_sym_mul (hL : Avoids a L) (hM : Avoids a M) :
    word ∈ optional (L * sym a) * M ↔
      match cut [a] word with
      | none => word ∈ M
      | some halves => halves.1 ∈ L ∧ halves.2 ∈ M := by
  rw [optional_mul, Language.mem_add, mul_assoc, mem_mul_sym_mul hL]
  rcases cut_cases a word with ⟨-, hcut⟩ | ⟨before, after, hword, -, hcut⟩
  · rw [hcut]
    simp
  · have hnot : word ∉ M := by
      intro hmem
      refine hM word hmem ?_
      rw [hword]
      simp
    rw [hcut]
    simp [hnot]

-- ---------------------------------------------------------------------------
-- Lists that a mark separates
-- ---------------------------------------------------------------------------

/-- Splitting gives back the pieces that were joined. -/
theorem splitOn_flatMap_cons {first : List α} {pieces : List (List α)} (hfirst : a ∉ first)
    (h : ∀ piece ∈ pieces, a ∉ piece) :
    (first ++ pieces.flatMap (a :: ·)).splitOn a = first :: pieces := by
  induction pieces generalizing first with
  | nil => rw [List.flatMap_nil, List.append_nil, List.splitOn_eq_singleton hfirst]
  | cons piece pieces ih =>
    rw [List.forall_mem_cons] at h
    rw [List.flatMap_cons, List.cons_append, List.splitOn_append_cons_self_of_not_mem hfirst,
      ih h.1 h.2]

/-- The pieces of a word give it back. -/
theorem splitOn_eq_cons {first : List α} {pieces : List (List α)} (h : word.splitOn a =
    first :: pieces) :
    word = first ++ pieces.flatMap (a :: ·) := by
  have hjoin := @List.intercalate_splitOn _ word _ _ a
  rw [h] at hjoin
  rw [← hjoin]
  clear h hjoin
  induction pieces generalizing first with
  | nil => simp
  | cons piece pieces ih =>
    rw [List.intercalate_cons_cons, ih, List.flatMap_cons, List.append_assoc]
    rfl

/-- The first piece is what is before the first mark. -/
theorem splitOn_first {first : List α} {pieces : List (List α)}
    (h : word.splitOn a = first :: pieces) :
    a ∉ first ∧ ((word = first ∧ cut [a] word = none) ∨
      ∃ after, word = first ++ a :: after ∧ cut [a] word = some (first, after)) := by
  rcases cut_cases a word with ⟨hnot, hcut⟩ | ⟨before, after, rfl, hnot, hcut⟩
  · rw [List.splitOn_eq_singleton hnot] at h
    obtain ⟨rfl, -⟩ := List.cons.inj h
    exact ⟨hnot, Or.inl ⟨rfl, hcut⟩⟩
  · rw [List.splitOn_append_cons_self_of_not_mem hnot] at h
    obtain ⟨rfl, -⟩ := List.cons.inj h
    exact ⟨hnot, Or.inr ⟨after, rfl, hcut⟩⟩

theorem splitOn_flatMap_append {pieces : List (List α)} (h : ∀ piece ∈ pieces, a ∉ piece)
    (last : List α) :
    (pieces.flatMap (· ++ [a]) ++ last).splitOn a = pieces ++ last.splitOn a := by
  induction pieces with
  | nil => rfl
  | cons piece pieces ih =>
    rw [List.forall_mem_cons] at h
    rw [List.flatMap_cons, List.append_assoc, List.append_assoc, List.singleton_append,
      List.splitOn_append_cons_self_of_not_mem h.1, ih h.2, List.cons_append]

/-- A list with a first part of its own. -/
theorem mem_first_separated (hM : Avoids a M) (hL : Avoids a L) :
    word ∈ M * (sym a * L)∗ ↔ ∃ first pieces, word.splitOn a = first :: pieces ∧ first ∈ M ∧
      ∀ piece ∈ pieces, piece ∈ L := by
  constructor
  · rintro ⟨first, hfirst, rest, hrest, rfl⟩
    obtain ⟨pieces, hpieces, rfl⟩ := mem_kstar_sym_mul.mp hrest
    exact ⟨first, pieces, splitOn_flatMap_cons (hM first hfirst) fun piece hpiece =>
      hL piece (hpieces piece hpiece), hfirst, hpieces⟩
  · rintro ⟨first, pieces, hsplit, hfirst, hpieces⟩
    rw [splitOn_eq_cons hsplit]
    exact Language.append_mem_mul hfirst (mem_kstar_sym_mul.mpr ⟨pieces, hpieces, rfl⟩)

/-- A list that may go on for any length. -/
theorem mem_separated (hL : Avoids a L) :
    word ∈ L * (sym a * L)∗ ↔ ∀ piece ∈ word.splitOn a, piece ∈ L := by
  rw [mem_first_separated hL hL]
  obtain ⟨first, pieces, hsplit⟩ := List.exists_cons_of_ne_nil (List.splitOn_ne_nil a word)
  rw [hsplit, List.forall_mem_cons]
  constructor
  · rintro ⟨_, _, heq, hfirst, hpieces⟩
    obtain ⟨rfl, rfl⟩ := List.cons.inj heq
    exact ⟨hfirst, hpieces⟩
  · rintro ⟨hfirst, hpieces⟩
    exact ⟨first, pieces, rfl, hfirst, hpieces⟩

/-- A list of a fixed length, before a last part. -/
theorem mem_counted {n : Nat} (hL : Avoids a L) (hM : Avoids a M) :
    word ∈ (L * sym a) ^ n * M ↔ ∃ (pieces : List (List α)) (last : List α),
      word.splitOn a = pieces ++ [last] ∧ pieces.length = n ∧ (∀ piece ∈ pieces, piece ∈ L) ∧
        last ∈ M := by
  rw [mem_pow_mul]
  constructor
  · rintro ⟨pieces, last, hlength, hpieces, hlast, rfl⟩
    refine ⟨pieces, last, ?_, hlength, hpieces, hlast⟩
    rw [splitOn_flatMap_append fun piece hpiece => hL piece (hpieces piece hpiece),
      List.splitOn_eq_singleton (hM last hlast)]
  · rintro ⟨pieces, last, hsplit, hlength, hpieces, hlast⟩
    refine ⟨pieces, last, hlength, hpieces, hlast, ?_⟩
    have hsame := splitOn_flatMap_append (fun piece hpiece => hL piece (hpieces piece hpiece)) last
    rw [List.splitOn_eq_singleton (hM last hlast), ← hsplit] at hsame
    have hjoin := congrArg [a].intercalate hsame
    rw [List.intercalate_splitOn, List.intercalate_splitOn] at hjoin
    exact hjoin.symm

end Marks

end Cuac.Lib

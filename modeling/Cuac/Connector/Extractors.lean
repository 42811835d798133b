import Cuac.Lib.Grammar
import Cuac.Lib.Positions

/-!
# Connector — extractors

The extractor text of a column or of a collection of records: a root, field names
behind dots, and a collection's `[*]` at the end. Schema validation splits it in one way,
the compiled model in three others.

Main results:

* `isExtractor_eq_some` — what schema validation accepts, with which segments.
* `structuralRecordSegments_pathOf`, `matchesRecordSegments_iff`, `columnAccepts_iff` — what
  the model reads.
* `extractor_grammar` — where the four agree with the grammar and with each other.
-/

namespace Cuac.Connector.Extractors

open Cuac.Lib

-- ---------------------------------------------------------------------------
-- Schema validation
-- ---------------------------------------------------------------------------

def isAsciiLetter (b : UInt8) : Bool :=
  (byte 'a' ≤ b && b ≤ byte 'z') || (byte 'A' ≤ b && b ≤ byte 'Z')

def isAsciiDigit (b : UInt8) : Bool := byte '0' ≤ b && b ≤ byte '9'

/-- The tests on one field. -/
def isField (field : Bytes) : Bool :=
  !(field.isEmpty || !(field.head?.any fun b => isAsciiLetter b || b == byte '_')) &&
    field.all fun b => isAsciiLetter b || isAsciiDigit b || b == byte '_'

/-- `[*]` -/
def suffix : Bytes := ascii "[*]"

/-- The loop of `IsExtractor`; `turns` is the size of the text. -/
def fieldsFrom (value : Bytes) (stopAt : Nat) : Nat → Nat → List Bytes → Option (List Bytes)
  | 0, start, parsed => if start < stopAt then none else some parsed
  | turns + 1, start, parsed =>
    if start < stopAt then
      let stop := match find value (byte '.') start with
        | none => stopAt
        | some dot => if dot > stopAt then stopAt else dot
      let field := (value.drop start).take (stop - start)
      if isField field then
        if stop = stopAt then some (parsed ++ [field])
        else fieldsFrom value stopAt turns (stop + 1) (parsed ++ [field])
      else none
    else some parsed

/-- Where the fields end. -/
def endOf (value : Bytes) (collection : Bool) : Nat :=
  if collection && suffix.length ≤ value.length &&
      value.drop (value.length - suffix.length) == suffix then value.length - suffix.length
  else value.length

/-- `IsExtractor`, with the segments where it accepts. -/
def isExtractor (value : Bytes) (collection : Bool) : Option (List Bytes) :=
  let maximum := if collection then 1027 else 1024
  let stopAt := endOf value collection
  if value.length > maximum then none
  else if (collection && stopAt == value.length) || stopAt < 3 ||
      value[0]? != some (byte '$') || value[1]? != some (byte '.') then none
  else fieldsFrom value stopAt value.length 2 []

-- ---------------------------------------------------------------------------
-- The compiled model
-- ---------------------------------------------------------------------------

/-- The loop of `StructuralRecordSegments`. -/
def structuralFrom (extractor : Bytes) : Nat → Nat → List Bytes → List Bytes
  | 0, _, result => result
  | turns + 1, start, result =>
    if start < extractor.length then
      match find extractor (byte '.') start with
      | none =>
        let segment := extractor.drop start
        let segment :=
          if segment.length > 3 && segment.drop (segment.length - 3) == suffix then
            segment.take (segment.length - 3)
          else segment
        if segment.isEmpty then [] else result ++ [segment]
      | some stop =>
        let segment := (extractor.drop start).take (stop - start)
        if segment.isEmpty then []
        else structuralFrom extractor turns (stop + 1) (result ++ [segment])
    else result

/-- `StructuralRecordSegments`, which is also `ParseJsonExtractorSegments`. -/
def structuralRecordSegments (extractor : Bytes) : List Bytes :=
  if extractor.length < 3 || extractor[0]? != some (byte '$') ||
      extractor[1]? != some (byte '.') then []
  else structuralFrom extractor extractor.length 2 []

def isStructuralSegment (segment : Bytes) : Bool :=
  !(segment.isEmpty || !(segment.head?.any fun b =>
      (byte 'A' ≤ b && b ≤ byte 'Z') || (byte 'a' ≤ b && b ≤ byte 'z') || b == byte '_')) &&
    segment.all fun b => (byte 'A' ≤ b && b ≤ byte 'Z') || (byte 'a' ≤ b && b ≤ byte 'z') ||
      (byte '0' ≤ b && b ≤ byte '9') || b == byte '_'

/-- The loop of `ExtractorFromSegments`. -/
def extractorFrom : Bytes → List Bytes → Bytes
  | result, [] => result
  | result, segment :: rest =>
    if isStructuralSegment segment then extractorFrom (result ++ byte '.' :: segment) rest else []

def extractorFromSegments (segments : List Bytes) : Bytes := extractorFrom [byte '$'] segments

def matchesRecordSegments (extractor : Bytes) (segments : List Bytes) : Bool :=
  let structural := extractorFromSegments segments
  !segments.isEmpty && (extractor == structural || extractor == structural ++ suffix)

def matchesStructuralFieldExtractor (extractor : Bytes) (segments : List Bytes) : Bool :=
  !segments.isEmpty && extractor == extractorFromSegments segments

/-- The check of a column's constructor. -/
def columnAccepts (extractor : Bytes) (segments : List Bytes) : Bool :=
  !(extractor.length > 1024 || !matchesStructuralFieldExtractor extractor segments)

-- ---------------------------------------------------------------------------
-- The grammar
-- ---------------------------------------------------------------------------

/-- Names behind dots. -/
def dotted (names : List Bytes) : Bytes := names.flatMap (byte '.' :: ·)

/-- The root and names behind dots. -/
def pathOf (names : List Bytes) : Bytes := byte '$' :: dotted names

def suffixOf (collection : Bool) : Bytes := if collection then suffix else []

/-- One name or more. -/
def IsPath (names : List Bytes) : Prop := names ≠ [] ∧ ∀ name ∈ names, isField name = true

/-- The extractor grammar. -/
def IsGrammatical (value : Bytes) (collection : Bool) : Prop :=
  value.length ≤ (if collection then 1027 else 1024) ∧
    ∃ names, IsPath names ∧ value = pathOf names ++ suffixOf collection

/-- A path with one more dot at its end. -/
def IsDangling (value : Bytes) (collection : Bool) : Prop :=
  value.length ≤ (if collection then 1027 else 1024) ∧
    ∃ names, IsPath names ∧ value = pathOf names ++ byte '.' :: suffixOf collection

theorem isField_iff {field : Bytes} : isField field = true ↔ field ≠ [] ∧
    (∃ b, field.head? = some b ∧ (isAsciiLetter b || b == byte '_') = true) ∧
      ∀ b ∈ field, (isAsciiLetter b || isAsciiDigit b || b == byte '_') = true := by
  cases field with
  | nil => simp [isField]
  | cons b field => simp [isField]

theorem not_mem_field {field : Bytes} {b : UInt8} (h : isField field = true)
    (hb : (isAsciiLetter b || isAsciiDigit b || b == byte '_') = false) : b ∉ field := by
  intro hmem
  rw [(isField_iff.mp h).2.2 b hmem] at hb
  cases hb

theorem dot_not_mem {field : Bytes} (h : isField field = true) : byte '.' ∉ field :=
  not_mem_field h (by decide)

theorem field_ne_nil {field : Bytes} (h : isField field = true) : field ≠ [] := (isField_iff.mp h).1

theorem isStructuralSegment_eq (segment : Bytes) :
    isStructuralSegment segment = isField segment := by
  have hfirst (b : UInt8) : ((byte 'A' ≤ b && b ≤ byte 'Z') || (byte 'a' ≤ b && b ≤ byte 'z') ||
      b == byte '_') = (isAsciiLetter b || b == byte '_') := by
    rw [isAsciiLetter, Bool.or_comm (byte 'A' ≤ b && b ≤ byte 'Z')]
  have hnext (b : UInt8) : ((byte 'A' ≤ b && b ≤ byte 'Z') || (byte 'a' ≤ b && b ≤ byte 'z') ||
      (byte '0' ≤ b && b ≤ byte '9') || b == byte '_') =
      (isAsciiLetter b || isAsciiDigit b || b == byte '_') := by
    rw [isAsciiLetter, isAsciiDigit, Bool.or_comm (byte 'A' ≤ b && b ≤ byte 'Z')]
  simp only [isStructuralSegment, isField, hfirst, hnext]

theorem dotted_cons (name : Bytes) (names : List Bytes) :
    dotted (name :: names) = byte '.' :: (name ++ dotted names) := rfl

-- ---------------------------------------------------------------------------
-- What schema validation accepts
-- ---------------------------------------------------------------------------

/-- How the loop reads what is left. -/
inductive Fields : Bytes → List Bytes → Prop
  | last {field : Bytes} : isField field = true → Fields field [field]
  | dangling {field : Bytes} : isField field = true → Fields (field ++ [byte '.']) [field]
  | more {field rest : Bytes} {fields : List Bytes} : isField field = true → rest ≠ [] →
      Fields rest fields → Fields (field ++ byte '.' :: rest) (field :: fields)

theorem Fields.dotted {body : Bytes} {fields : List Bytes} (h : Fields body fields) :
    IsPath fields ∧
      (byte '.' :: body = dotted fields ∨ byte '.' :: body = dotted fields ++ [byte '.']) := by
  induction h with
  | @last field hfield =>
    refine ⟨⟨List.cons_ne_nil _ _, by simpa using hfield⟩, .inl ?_⟩
    rw [dotted_cons, Extractors.dotted, List.flatMap_nil, List.append_nil]
  | @dangling field hfield =>
    refine ⟨⟨List.cons_ne_nil _ _, by simpa using hfield⟩, .inr ?_⟩
    rw [dotted_cons, Extractors.dotted, List.flatMap_nil, List.append_nil, List.cons_append]
  | @more field rest fields hfield _ _ ih =>
    obtain ⟨⟨-, hall⟩, hbody⟩ := ih
    refine ⟨⟨List.cons_ne_nil _ _, List.forall_mem_cons.mpr ⟨hfield, hall⟩⟩, ?_⟩
    rw [dotted_cons]
    rcases hbody with hbody | hbody
    · exact .inl (by rw [hbody])
    · exact .inr (by rw [hbody, List.cons_append, List.append_assoc])

theorem fields_of_dotted {body : Bytes} {fields : List Bytes} (hpath : IsPath fields)
    (h : byte '.' :: body = dotted fields ∨ byte '.' :: body = dotted fields ++ [byte '.']) :
    Fields body fields := by
  induction fields generalizing body with
  | nil => exact absurd rfl hpath.1
  | cons field fields ih =>
    obtain ⟨-, hall⟩ := hpath
    rw [List.forall_mem_cons] at hall
    rw [dotted_cons, List.cons_append, List.cons.injEq, List.cons.injEq, List.append_assoc] at h
    match fields with
    | [] =>
      rcases h with ⟨-, rfl⟩ | ⟨-, rfl⟩
      · rw [dotted, List.flatMap_nil, List.append_nil]
        exact .last hall.1
      · exact .dangling hall.1
    | next :: fields =>
      have hnext := field_ne_nil (hall.2 next List.mem_cons_self)
      have hmore (rest : Bytes) (hrest : byte '.' :: rest = dotted (next :: fields) ∨
          byte '.' :: rest = dotted (next :: fields) ++ [byte '.']) :
          Fields (field ++ byte '.' :: rest) (field :: next :: fields) := by
        refine .more hall.1 ?_ (ih ⟨List.cons_ne_nil _ _, hall.2⟩ hrest)
        rintro rfl
        rw [dotted_cons] at hrest
        rcases hrest with hrest | hrest
        · have hlength := congrArg List.length hrest
          have hpos := List.length_pos_iff.mpr hnext
          simp only [List.length_cons, List.length_append, List.length_nil] at hlength
          omega
        · have hlength := congrArg List.length hrest
          simp only [List.length_cons, List.length_append, List.length_nil] at hlength
          omega
      rcases h with ⟨-, rfl⟩ | ⟨-, rfl⟩
      · rw [dotted_cons]
        exact hmore _ (.inl rfl)
      · rw [dotted_cons, List.cons_append]
        exact hmore _ (.inr rfl)

theorem fields_iff {body : Bytes} {fields : List Bytes} :
    Fields body fields ↔ IsPath fields ∧
      (byte '.' :: body = dotted fields ∨ byte '.' :: body = dotted fields ++ [byte '.']) :=
  ⟨Fields.dotted, fun h => fields_of_dotted h.1 h.2⟩

/-- A text is cut at its first dot in one way. -/
theorem append_dot_inj {front front' rest rest' : Bytes} (hfront : byte '.' ∉ front)
    (hfront' : byte '.' ∉ front') (h : front ++ byte '.' :: rest = front' ++ byte '.' :: rest') :
    front = front' ∧ rest = rest' := by
  have hcut := cut_append hfront rest
  rw [h, cut_append hfront' rest'] at hcut
  have hpair : (front', rest') = (front, rest) := Option.some.inj hcut
  have hfronts : front' = front := congrArg Prod.fst hpair
  have hrests : rest' = rest := congrArg Prod.snd hpair
  exact ⟨hfronts.symm, hrests.symm⟩

/-- The last field. -/
theorem fields_of_not_mem {body : Bytes} {fields : List Bytes} (h : byte '.' ∉ body) :
    Fields body fields ↔ isField body = true ∧ fields = [body] := by
  constructor
  · intro hfields
    cases hfields with
    | last hfield => exact ⟨hfield, rfl⟩
    | dangling => exact absurd (List.mem_append_right _ List.mem_cons_self) h
    | more => exact absurd (List.mem_append_right _ List.mem_cons_self) h
  · rintro ⟨hfield, rfl⟩
    exact .last hfield

/-- A field before a dot. -/
theorem fields_append_dot {front rest : Bytes} {fields : List Bytes} (h : byte '.' ∉ front) :
    Fields (front ++ byte '.' :: rest) fields ↔ isField front = true ∧
      ((rest = [] ∧ fields = [front]) ∨
        (rest ≠ [] ∧ ∃ more, Fields rest more ∧ fields = front :: more)) := by
  constructor
  · intro hfields
    generalize hbody : front ++ byte '.' :: rest = body at hfields
    cases hfields with
    | last hfield =>
      refine absurd ?_ (dot_not_mem hfield)
      rw [← hbody]
      exact List.mem_append_right _ List.mem_cons_self
    | dangling hfield =>
      obtain ⟨rfl, rfl⟩ := append_dot_inj h (dot_not_mem hfield) hbody
      exact ⟨hfield, .inl ⟨rfl, rfl⟩⟩
    | more hfield hrest hmore =>
      obtain ⟨rfl, rfl⟩ := append_dot_inj h (dot_not_mem hfield) hbody
      exact ⟨hfield, .inr ⟨hrest, _, hmore, rfl⟩⟩
  · rintro ⟨hfield, ⟨rfl, rfl⟩ | ⟨hrest, more, hmore, rfl⟩⟩
    · exact .dangling hfield
    · exact .more hfield hrest hmore

theorem fieldsFrom_end {value : Bytes} {stopAt turns start : Nat} {parsed : List Bytes}
    (h : ¬start < stopAt) : fieldsFrom value stopAt turns start parsed = some parsed := by
  cases turns with
  | zero => rw [fieldsFrom, if_neg h]
  | succ turns => rw [fieldsFrom, if_neg h]

/-- The loop reads the fields between the dots; a dot at the very end opens none. -/
theorem fieldsFrom_eq_some {value front body tail : Bytes} {turns : Nat}
    {parsed segments : List Bytes} (hvalue : value = front ++ (body ++ tail)) (hbody : body ≠ [])
    (htail : byte '.' ∉ tail) (hturns : body.length ≤ turns) :
    fieldsFrom value (front.length + body.length) turns front.length parsed = some segments ↔
      ∃ fields, Fields body fields ∧ segments = parsed ++ fields := by
  induction turns generalizing front body parsed with
  | zero => exact absurd (List.length_eq_zero_iff.mp (Nat.le_zero.mp hturns)) hbody
  | succ turns ih =>
    have hdrop : value.drop front.length = body ++ tail := by rw [hvalue, List.drop_left]
    have hpos := List.length_pos_iff.mpr hbody
    rw [fieldsFrom, if_pos (by omega)]
    by_cases hdot : byte '.' ∈ body
    · obtain ⟨field, rest, rfl, hfield⟩ := List.eq_append_cons_of_mem hdot
      have hfound : value.drop front.length = field ++ byte '.' :: (rest ++ tail) := by
        rw [hdrop, List.append_assoc, List.cons_append]
      have hfind := find_eq_some hfound hfield
      have htake : (value.drop front.length).take (front.length + field.length - front.length) =
          field := by
        rw [Nat.add_sub_cancel_left, hdrop, List.append_assoc, List.take_left]
      rw [List.length_append, List.length_cons] at hturns
      simp only [hfind, List.length_append, List.length_cons,
        if_neg (show ¬front.length + field.length > front.length + (field.length + (rest.length +
          1))
          by omega), htake,
        if_neg (show ¬front.length + field.length = front.length + (field.length + (rest.length +
          1))
          by omega)]
      simp only [fields_append_dot hfield]
      match isField field with
      | false => simp
      | true =>
        by_cases hrest : rest = []
        · subst hrest
          have hend : ¬front.length + field.length + 1 <
              front.length + (field.length + (([] : Bytes).length + 1)) := by
            rw [List.length_nil]
            omega
          rw [if_pos rfl, fieldsFrom_end hend]
          simp [eq_comm]
        · have hnext := @ih (front ++ field ++ [byte '.']) rest (parsed ++ [field])
            (by rw [hvalue]; simp) hrest (by omega)
          simp only [List.length_append, List.length_singleton] at hnext
          rw [if_pos rfl, show front.length + (field.length + (rest.length + 1)) =
            front.length + field.length + 1 + rest.length by omega, hnext]
          simp [hrest]
    · have hfind : find value (byte '.') front.length = none := by
        rw [find_eq_none, hdrop, List.mem_append, not_or]
        exact ⟨hdot, htail⟩
      have htake : (value.drop front.length).take (front.length + body.length - front.length) =
          body := by
        rw [Nat.add_sub_cancel_left, hdrop, List.take_left]
      simp only [hfind, htake, if_true, fields_of_not_mem hdot]
      cases isField body with
      | false => simp
      | true => simp [eq_comm]

theorem endOf_append (text : Bytes) (collection : Bool) :
    endOf (text ++ suffixOf collection) collection = text.length := by
  cases collection with
  | false => simp [endOf, suffixOf]
  | true =>
    have hlength : (text ++ suffix).length - suffix.length = text.length := by
      rw [List.length_append, Nat.add_sub_cancel]
    rw [suffixOf, if_pos rfl, endOf, hlength, List.drop_left, if_pos]
    simp

/-- Without its suffix a collection's text is refused. -/
theorem exists_text {value : Bytes} {collection : Bool}
    (h : (collection && endOf value collection == value.length) = false) :
    ∃ text, value = text ++ suffixOf collection := by
  cases collection with
  | false => exact ⟨value, (List.append_nil value).symm⟩
  | true =>
    rw [Bool.true_and, beq_eq_false_iff_ne, endOf] at h
    split at h
    · rename_i hends
      simp only [Bool.true_and, Bool.and_eq_true, decide_eq_true_eq, beq_iff_eq] at hends
      refine ⟨value.take (value.length - suffix.length), ?_⟩
      conv_lhs => rw [← List.take_append_drop (value.length - suffix.length) value, hends.2]
      rfl
    · exact absurd rfl h

theorem dot_not_mem_suffixOf (collection : Bool) : byte '.' ∉ suffixOf collection := by
  cases collection <;> decide

/-- The text after `$.`, which schema validation reads. -/
theorem isExtractor_text {body : Bytes} {collection : Bool} {segments : List Bytes}
    (hbody : body ≠ []) :
    isExtractor (byte '$' :: byte '.' :: body ++ suffixOf collection) collection = some segments ↔
      (byte '$' :: byte '.' :: body ++ suffixOf collection).length ≤
        (if collection then 1027 else 1024) ∧ Fields body segments := by
  have hpos := List.length_pos_iff.mpr hbody
  have hsuffix : (collection && (byte '$' :: byte '.' :: body).length ==
      (byte '$' :: byte '.' :: body ++ suffixOf collection).length) = false := by
    cases collection with
    | false => rfl
    | true =>
      rw [Bool.true_and, beq_eq_false_iff_ne, List.length_append]
      exact Nat.ne_of_lt (Nat.lt_add_of_pos_right (by decide))
  have hshort : ¬(byte '$' :: byte '.' :: body).length < 3 := by
    simp only [List.length_cons]
    omega
  have hloop := @fieldsFrom_eq_some (byte '$' :: byte '.' :: body ++ suffixOf collection)
    [byte '$', byte '.'] body (suffixOf collection)
    (byte '$' :: byte '.' :: body ++ suffixOf collection).length [] segments rfl hbody
    (dot_not_mem_suffixOf collection) (by simp only [List.length_append, List.length_cons]; omega)
  have hend : [byte '$', byte '.'].length + body.length =
    (byte '$' :: byte '.' :: body).length := by
    simp only [List.length_cons, List.length_nil]
    omega
  rw [hend] at hloop
  rw [isExtractor, endOf_append]
  by_cases hlength : (byte '$' :: byte '.' :: body ++ suffixOf collection).length >
      (if collection then 1027 else 1024)
  · rw [if_pos hlength]
    simp only [reduceCtorEq, false_iff, not_and]
    exact fun hle => absurd hle (Nat.not_le.mpr hlength)
  · rw [if_neg hlength, if_neg]
    · refine hloop.trans ⟨?_, ?_⟩
      · rintro ⟨fields, hfields, rfl⟩
        exact ⟨Nat.not_lt.mp hlength, hfields⟩
      · rintro ⟨-, hfields⟩
        exact ⟨segments, hfields, rfl⟩
    · rw [hsuffix, decide_eq_false hshort]
      simp

theorem exists_body {value : Bytes} {collection : Bool} {segments : List Bytes}
    (h : isExtractor value collection = some segments) :
    ∃ body, body ≠ [] ∧ value = byte '$' :: byte '.' :: body ++ suffixOf collection := by
  rw [isExtractor] at h
  by_cases hlength : value.length > (if collection then 1027 else 1024)
  · rw [if_pos hlength] at h
    cases h
  rw [if_neg hlength] at h
  split at h
  · cases h
  rename_i hcond
  simp only [Bool.or_eq_true, not_or, Bool.not_eq_true, decide_eq_false_iff_not,
    bne_eq_false_iff_eq]
    at hcond
  obtain ⟨⟨⟨hsuffix, hshort⟩, hroot⟩, hdot⟩ := hcond
  obtain ⟨text, rfl⟩ := exists_text hsuffix
  rw [endOf_append] at hshort
  match text, hshort with
  | first :: second :: body, hshort =>
    obtain rfl : first = byte '$' := Option.some.inj hroot
    obtain rfl : second = byte '.' := Option.some.inj hdot
    refine ⟨body, ?_, rfl⟩
    rintro rfl
    exact hshort (by decide)
  | [_], hshort => exact absurd (by decide : 1 < 3) hshort
  | [], hshort => exact absurd (by decide : 0 < 3) hshort

/-- Schema validation accepts the paths, and the paths with one more dot. -/
theorem isExtractor_eq_some {value : Bytes} {collection : Bool} {segments : List Bytes} :
    isExtractor value collection = some segments ↔
      value.length ≤ (if collection then 1027 else 1024) ∧ IsPath segments ∧
        (value = pathOf segments ++ suffixOf collection ∨
          value = pathOf segments ++ byte '.' :: suffixOf collection) := by
  constructor
  · intro h
    obtain ⟨body, hbody, rfl⟩ := exists_body h
    obtain ⟨hlength, hfields⟩ := (isExtractor_text hbody).mp h
    obtain ⟨hpath, hdotted⟩ := fields_iff.mp hfields
    refine ⟨hlength, hpath, ?_⟩
    rcases hdotted with hdotted | hdotted
    · exact .inl (by rw [hdotted]; rfl)
    · exact .inr (by rw [hdotted, pathOf]; simp)
  · rintro ⟨hlength, hpath, hvalue⟩
    have hbody : ∃ body, body ≠ [] ∧ Fields body segments ∧
        value = byte '$' :: byte '.' :: body ++ suffixOf collection := by
      match segments, hpath with
      | name :: names, hpath =>
        have hname := field_ne_nil (hpath.2 name List.mem_cons_self)
        rcases hvalue with rfl | rfl
        · refine ⟨name ++ dotted names, ?_, fields_of_dotted hpath (.inl rfl), rfl⟩
          exact List.append_ne_nil_of_left_ne_nil hname _
        · refine ⟨name ++ dotted names ++ [byte '.'], ?_, fields_of_dotted hpath (.inr rfl), ?_⟩
          · exact List.append_ne_nil_of_right_ne_nil _ (List.cons_ne_nil _ _)
          · simp [pathOf, dotted_cons]
      | [], hpath => exact absurd rfl hpath.1
    obtain ⟨body, hbody, hfields, rfl⟩ := hbody
    exact (isExtractor_text hbody).mpr ⟨hlength, hfields⟩

-- ---------------------------------------------------------------------------
-- What the model reads
-- ---------------------------------------------------------------------------

theorem extractorFrom_dotted {names : List Bytes} (h : ∀ name ∈ names, isField name = true)
    (result : Bytes) : extractorFrom result names = result ++ dotted names := by
  induction names generalizing result with
  | nil => exact (List.append_nil result).symm
  | cons name names ih =>
    rw [List.forall_mem_cons] at h
    rw [extractorFrom, isStructuralSegment_eq, if_pos h.1, ih h.2, dotted_cons, List.append_assoc,
      List.cons_append]

theorem extractorFromSegments_eq {names : List Bytes} (h : IsPath names) :
    extractorFromSegments names = pathOf names := extractorFrom_dotted h.2 _

theorem matchesRecordSegments_iff {names : List Bytes} (h : IsPath names) (extractor : Bytes) :
    matchesRecordSegments extractor names = true ↔
      extractor = pathOf names ∨ extractor = pathOf names ++ suffix := by
  rw [matchesRecordSegments, extractorFromSegments_eq h, List.isEmpty_eq_false_iff.mpr h.1]
  simp

theorem columnAccepts_iff {names : List Bytes} (h : IsPath names) (extractor : Bytes) :
    columnAccepts extractor names = true ↔ extractor.length ≤ 1024 ∧ extractor = pathOf names := by
  rw [columnAccepts, matchesStructuralFieldExtractor, extractorFromSegments_eq h,
    List.isEmpty_eq_false_iff.mpr h.1]
  simp

/-- The suffix is taken off the last segment. -/
theorem stripped {name : Bytes} (h : isField name = true) (collection : Bool) :
    (if (name ++ suffixOf collection).length > 3 && (name ++ suffixOf collection).drop
        ((name ++ suffixOf collection).length - 3) == suffix then
      (name ++ suffixOf collection).take ((name ++ suffixOf collection).length - 3)
    else name ++ suffixOf collection) = name := by
  have hpos := List.length_pos_iff.mpr (field_ne_nil h)
  cases collection with
  | false =>
    have hbracket : byte '[' ∉ name := not_mem_field h (by decide)
    rw [suffixOf, if_neg Bool.false_ne_true, List.append_nil, if_neg]
    rw [Bool.and_eq_true, beq_iff_eq]
    rintro ⟨-, hends⟩
    refine hbracket (List.mem_of_mem_drop (i := name.length - 3) ?_)
    rw [hends]
    decide
  | true =>
    have hlength : (name ++ suffix).length - 3 = name.length := by
      rw [List.length_append]
      exact Nat.add_sub_cancel _ 3
    rw [suffixOf, if_pos rfl, hlength, List.drop_left, List.take_left, if_pos]
    rw [Bool.and_eq_true, decide_eq_true_eq, beq_self_eq_true, List.length_append]
    exact ⟨Nat.lt_add_of_pos_left hpos, rfl⟩

theorem structuralFrom_eq {names : List Bytes} {name front extractor : Bytes}
    {collection : Bool} {turns : Nat} {result : List Bytes}
    (hnames : ∀ n ∈ name :: names, isField n = true)
    (hextractor : extractor = front ++ (name ++ dotted names ++ suffixOf collection))
    (hturns : (name ++ dotted names).length ≤ turns) :
    structuralFrom extractor turns front.length result = result ++ name :: names := by
  have hdrop : extractor.drop front.length = name ++ dotted names ++ suffixOf collection := by
    rw [hextractor, List.drop_left]
  have hname := hnames name List.mem_cons_self
  have hpos := List.length_pos_iff.mpr (field_ne_nil hname)
  have hinside : front.length < extractor.length := by
    rw [hextractor]
    simp only [List.length_append]
    omega
  induction names generalizing name front turns result with
  | nil =>
    have hlast : extractor.drop front.length = name ++ suffixOf collection := by
      rw [hdrop, dotted, List.flatMap_nil, List.append_nil]
    have hfind : find extractor (byte '.') front.length = none := by
      rw [find_eq_none, hlast, List.mem_append, not_or]
      exact ⟨dot_not_mem hname, dot_not_mem_suffixOf collection⟩
    obtain ⟨turns, rfl⟩ : ∃ n, turns = n + 1 := ⟨turns - 1, by
      rw [List.length_append] at hturns
      omega⟩
    rw [structuralFrom, if_pos hinside, hfind]
    simp only [hlast, stripped hname, List.isEmpty_eq_false_iff.mpr (field_ne_nil hname)]
    exact if_neg Bool.false_ne_true
  | cons next names ih =>
    rw [List.forall_mem_cons] at hnames
    have hnext := hnames.2 next List.mem_cons_self
    have hfound : extractor.drop front.length =
        name ++ byte '.' :: (next ++ dotted names ++ suffixOf collection) := by
      rw [hdrop, dotted_cons]
      simp
    have htake : (extractor.drop front.length).take (front.length + name.length - front.length) =
        name := by
      rw [Nat.add_sub_cancel_left, hfound, List.take_left]
    have hafter : extractor =
        (front ++ name ++ [byte '.']) ++ (next ++ dotted names ++ suffixOf collection) := by
      rw [hextractor, dotted_cons]
      simp
    obtain ⟨turns, rfl⟩ : ∃ n, turns = n + 1 := ⟨turns - 1, by
      rw [List.length_append] at hturns
      omega⟩
    have hstep := @ih next (front ++ name ++ [byte '.']) turns (result ++ [name]) hnames.2 hafter
      (by
        simp only [dotted_cons, List.length_append, List.length_cons] at hturns ⊢
        omega)
      (by rw [hafter, List.drop_left]) hnext (List.length_pos_iff.mpr (field_ne_nil hnext))
      (by
        have hmore := List.length_pos_iff.mpr (field_ne_nil hnext)
        rw [hafter]
        simp only [List.length_append]
        omega)
    rw [List.length_append, List.length_append, List.length_singleton] at hstep
    rw [structuralFrom, if_pos hinside, find_eq_some hfound (dot_not_mem hname)]
    simp only [htake, List.isEmpty_eq_false_iff.mpr (field_ne_nil hname)]
    rw [if_neg Bool.false_ne_true, hstep, List.append_assoc, List.singleton_append]

theorem structuralRecordSegments_pathOf {names : List Bytes} (h : IsPath names)
    (collection : Bool) :
    structuralRecordSegments (pathOf names ++ suffixOf collection) = names := by
  match names, h with
  | name :: names, h =>
    have hpos := List.length_pos_iff.mpr (field_ne_nil (h.2 name List.mem_cons_self))
    have hloop := @structuralFrom_eq names name [byte '$', byte '.']
      (pathOf (name :: names) ++ suffixOf collection) collection
      (pathOf (name :: names) ++ suffixOf collection).length [] h.2 rfl (by
        simp only [pathOf, dotted_cons, List.length_append, List.length_cons]
        omega)
    rw [structuralRecordSegments, if_neg]
    · exact hloop
    · simp only [pathOf, dotted_cons, List.cons_append, List.length_append, List.length_cons,
        List.getElem?_cons_zero, List.getElem?_cons_succ, bne_self_eq_false, Bool.or_false,
        decide_eq_true_eq]
      omega
  | [], h => exact absurd rfl h.1

-- ---------------------------------------------------------------------------
-- The four readings
-- ---------------------------------------------------------------------------

/-- Schema validation follows the grammar on a text, and what it accepts is read alike by the
compiled model. -/
structure Agrees (value : Bytes) (collection : Bool) : Prop where
  accepts : (isExtractor value collection).isSome = true ↔ IsGrammatical value collection
  rejoins : ∀ segments, isExtractor value collection = some segments →
    pathOf segments ++ suffixOf collection = value
  structural : ∀ segments, isExtractor value collection = some segments →
    structuralRecordSegments value = segments
  record : ∀ segments, isExtractor value collection = some segments → collection = true →
    matchesRecordSegments value segments = true
  column : ∀ segments, isExtractor value collection = some segments → collection = false →
    columnAccepts value segments = true

/-- The four readings agree with the grammar but where a path has one more dot at its end. -/
theorem extractor_grammar (value : Bytes) (collection : Bool) :
    Agrees value collection ↔ ¬IsDangling value collection := by
  constructor
  · rintro h ⟨hlength, names, hpath, hvalue⟩
    have haccepted := isExtractor_eq_some.mpr ⟨hlength, hpath, .inr hvalue⟩
    have hrejoined := h.rejoins names haccepted
    rw [hvalue] at hrejoined
    have hsize := congrArg List.length hrejoined
    simp only [List.length_append, List.length_cons] at hsize
    omega
  · intro hplain
    have hread {segments : List Bytes} (h : isExtractor value collection = some segments) :
        value.length ≤ (if collection then 1027 else 1024) ∧ IsPath segments ∧
          value = pathOf segments ++ suffixOf collection := by
      obtain ⟨hlength, hpath, hvalue | hvalue⟩ := isExtractor_eq_some.mp h
      · exact ⟨hlength, hpath, hvalue⟩
      · exact absurd ⟨hlength, segments, hpath, hvalue⟩ hplain
    refine ⟨⟨fun h => ?_, ?_⟩, fun segments h => (hread h).2.2.symm, fun segments h => ?_,
      fun segments h hcollection => ?_, fun segments h hcollection => ?_⟩
    · obtain ⟨segments, hsegments⟩ := Option.isSome_iff_exists.mp h
      obtain ⟨hlength, hpath, hvalue⟩ := hread hsegments
      exact ⟨hlength, segments, hpath, hvalue⟩
    · rintro ⟨hlength, names, hpath, hvalue⟩
      rw [isExtractor_eq_some.mpr ⟨hlength, hpath, .inl hvalue⟩]
      rfl
    · obtain ⟨-, hpath, hvalue⟩ := hread h
      rw [hvalue]
      exact structuralRecordSegments_pathOf hpath collection
    · obtain ⟨-, hpath, hvalue⟩ := hread h
      subst hcollection
      exact (matchesRecordSegments_iff hpath value).mpr (.inr hvalue)
    · obtain ⟨hlength, hpath, hvalue⟩ := hread h
      subst hcollection
      exact (columnAccepts_iff hpath value).mpr ⟨hlength, hvalue.trans (List.append_nil _)⟩

/-- `$.id.` is accepted, and the column that should hold it is refused. -/
theorem trailing_dot_accepted :
    isExtractor (ascii "$.id.") false = some [ascii "id"] ∧
      ¬IsGrammatical (ascii "$.id.") false ∧
      columnAccepts (ascii "$.id.") [ascii "id"] = false ∧ ¬Agrees (ascii "$.id.") false := by
  have haccepted : isExtractor (ascii "$.id.") false = some [ascii "id"] := by decide +kernel
  have hpath : pathOf [ascii "id"] ++ suffixOf false ≠ ascii "$.id." := by decide +kernel
  refine ⟨haccepted, ?_, by decide +kernel, fun h => hpath (h.rejoins _ haccepted)⟩
  rintro ⟨hlength, names, hnames, hvalue⟩
  have hsame := isExtractor_eq_some.mpr ⟨hlength, hnames, .inl hvalue⟩
  rw [haccepted] at hsame
  rw [← Option.some.inj hsame] at hvalue
  exact hpath hvalue.symm

end Cuac.Connector.Extractors

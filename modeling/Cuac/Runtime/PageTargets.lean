import Cuac.Lib.Positions
import Cuac.Runtime.GuidanceParsing
import Cuac.Runtime.LinkPagination
import Cuac.Runtime.RestPaginationAdmission

/-!
# Runtime — the targets that continue a scan

`IsNextTarget` writes down the targets that name a page of a profile: its origin
and path, and a query whose fields have different names, one of them the page.
`ValidateNextTarget` accepts those of the next page and no others.

Main results:

* `parseFields_query` — the loop over the fields reads a query of such fields.
* `validateNextTarget_accepts` — what is accepted.
-/

namespace Cuac.Runtime.Pagination

open Cuac.Lib Cuac.Lib.Watched
open Cuac.Runtime.Resilience

-- ---------------------------------------------------------------------------
-- What a next target is
-- ---------------------------------------------------------------------------

/-- A name or a value: nothing in it ends it. -/
def IsPlain (text : Bytes) : Prop := byte '&' ∉ text ∧ byte '=' ∉ text ∧ byte '#' ∉ text

/-- A query field has a name, and neither its name nor its value holds a separator. -/
structure IsField (field : Bytes × Bytes) : Prop where
  named : field.1 ≠ []
  name_plain : IsPlain field.1
  value_plain : IsPlain field.2

/-- How a target may write the port. -/
def IsPortText (profile : PaginatedRestProfile) (text : Bytes) : Prop :=
  text = byte ':' :: decimal profile.port.toNat ∨
    (text = [] ∧ profile.scheme = ascii "https" ∧ profile.port = 443)

/-- A field as it stands in a query. -/
def fieldText (field : Bytes × Bytes) : Bytes := field.1 ++ byte '=' :: field.2

/-- A query made of its fields. -/
def queryOf (fields : List (Bytes × Bytes)) : Bytes :=
  [byte '&'].intercalate (fields.map fieldText)

/-- A target of the profile's origin and path that names the page `next`. -/
def IsNextTarget (profile : PaginatedRestProfile) (next : Nat) (target : Bytes) : Prop :=
  ∃ port fields, IsPortText profile port ∧ fields ≠ [] ∧ (∀ field ∈ fields, IsField field) ∧
    (fields.map Prod.fst).Nodup ∧ (profile.pageNumberParameter, decimal next) ∈ fields ∧
    target = profile.scheme ++ ascii "://" ++ profile.host ++ port ++ profile.path ++
      byte '?' :: queryOf fields

-- ---------------------------------------------------------------------------
-- Numbers
-- ---------------------------------------------------------------------------

theorem notDigit_check (b : UInt8) : (decide (b < 0x30) || decide (b > 0x39)) = !isDigit b :=
  forall_byte (P := fun b => (decide (b < 0x30) || decide (b > 0x39)) = !isDigit b)
    (by decide) b

/-- The value of a digit in the parser's arithmetic is its value as a number. -/
theorem toNat_digit_of {b : UInt8} : isDigit b = true → (b - 0x30).toUInt64.toNat = b.toNat - 48 :=
  forall_byte (P := fun b => isDigit b = true → (b - 0x30).toUInt64.toNat = b.toNat - 48)
    (by decide) b

/-- The loop over the digits answers with their value, or refuses where it leaves 64 bits. -/
theorem parseUnsignedFrom_eq_some {seen result : UInt64} {digits : Bytes} :
    parseUnsignedFrom seen digits = some result ↔
      (∀ b ∈ digits, isDigit b = true) ∧ valueFrom seen.toNat digits = result.toNat := by
  induction digits generalizing seen with
  | nil =>
    rw [parseUnsignedFrom, Option.some.injEq, ← UInt64.toNat_inj]
    exact ⟨fun h => ⟨by simp, h⟩, fun h => h.2⟩
  | cons b digits ih =>
    rw [parseUnsignedFrom, List.forall_mem_cons]
    by_cases hdigit : isDigit b = true
    swap
    · rw [notDigit_check, Bool.eq_false_of_not_eq_true hdigit, Bool.not_false, if_pos rfl]
      simp
    have hrange := digit_range hdigit
    have hdigitValue := toNat_digit_of hdigit
    rw [notDigit_check, hdigit, Bool.not_true, if_neg (by decide)]
    have hmax : (0xFFFFFFFFFFFFFFFF : UInt64).toNat = 2 ^ 64 - 1 := by decide
    have hroom : ((0xFFFFFFFFFFFFFFFF - (b - 0x30).toUInt64) / 10).toNat =
        (2 ^ 64 - 1 - (b.toNat - 48)) / 10 := by
      rw [UInt64.toNat_div, toNat_sub_of_toNat_le (by rw [hdigitValue, hmax]; omega), hdigitValue,
        hmax]
      rfl
    have hvalue : valueFrom seen.toNat (b :: digits) =
        valueFrom (seen.toNat * 10 + (b.toNat - 48)) digits := rfl
    have hbound := result.toNat_lt
    dsimp only
    by_cases hover : seen > (0xFFFFFFFFFFFFFFFF - (b - 0x30).toUInt64) / 10
    · -- The number is above the maximum already, and reading on does not make it smaller.
      rw [if_pos hover, hvalue]
      rw [gt_iff_lt, UInt64.lt_iff_toNat_lt, hroom] at hover
      have hless := le_valueFrom (seen.toNat * 10 + (b.toNat - 48)) digits
      constructor
      · intro h
        cases h
      · rintro ⟨-, h⟩
        omega
    · rw [if_neg hover, ih, hvalue]
      rw [gt_iff_lt, UInt64.lt_iff_toNat_lt, hroom] at hover
      have hnext : (seen * 10 + (b - 0x30).toUInt64).toNat =
          seen.toNat * 10 + (b.toNat - 48) := by
        rw [UInt64.toNat_add, UInt64.toNat_mul, hdigitValue]
        simp only [UInt64.toNat_ofNat]
        omega
      rw [hnext]
      simp

/-- A page number is read from its decimal text without leading zeros, and from nothing else. -/
theorem parsePositiveDecimal_eq_ok {text : Bytes} {page : UInt64} :
    parsePositiveDecimal text = .ok page ↔ 0 < page.toNat ∧ text = decimal page.toNat := by
  constructor
  · intro h
    unfold parsePositiveDecimal at h
    split at h
    · cases h
    rename_i first rest
    split at h
    · cases h
    rename_i hlead
    split at h
    · cases h
    rename_i parsed hparsed
    rw [Except.ok.inj h, parseUnsignedFrom_eq_some] at hparsed
    obtain ⟨hdigits, hvalue⟩ := hparsed
    simp only [Bool.or_eq_true, decide_eq_true_eq, not_or, UInt8.not_lt] at hlead
    have htext := decimal_value hlead.1 hdigits
    rw [show value (first :: rest) = page.toNat from hvalue] at htext
    refine ⟨Nat.pos_of_ne_zero ?_, htext.symm⟩
    intro hzero
    rw [hzero] at htext
    rw [← (List.cons.inj htext).1] at hlead
    exact absurd hlead.1 (by decide)
  · rintro ⟨hpos, rfl⟩
    obtain ⟨first, rest, hsplit, hlead⟩ := decimal_lead hpos
    have hdigits := isDigit_decimal page.toNat
    have hparsed : parseUnsignedFrom 0 (decimal page.toNat) = some page :=
      parseUnsignedFrom_eq_some.mpr ⟨hdigits, value_decimal page.toNat⟩
    have hfirst := hdigits first (by rw [hsplit]; exact List.mem_cons_self)
    simp only [isDigit, Bool.and_eq_true, decide_eq_true_eq] at hfirst
    have hguard : ¬(decide (first < byte '1') || decide (first > byte '9')) = true := by
      simp only [Bool.or_eq_true, decide_eq_true_eq, not_or, UInt8.not_lt]
      exact ⟨hlead, hfirst.2⟩
    rw [hsplit] at hparsed ⊢
    rw [parsePositiveDecimal, if_neg hguard, hparsed]

-- ---------------------------------------------------------------------------
-- Fields
-- ---------------------------------------------------------------------------

/-- A field without a `=` is refused. -/
theorem parseField_without {text : Bytes} (h : byte '=' ∉ text) :
    parseField text = .error outsidePolicy := by
  rw [parseField, List.splitOn_eq_singleton h]

/-- A field is cut at its first `=`; a second one is refused. -/
theorem parseField_with {name value : Bytes} (hname : byte '=' ∉ name) :
    parseField (name ++ byte '=' :: value) =
      if name = [] ∨ byte '=' ∈ value then .error outsidePolicy else .ok (name, value) := by
  rw [parseField, List.splitOn_append_cons_self_of_not_mem hname]
  by_cases hvalue : byte '=' ∈ value
  · obtain ⟨front, rest, rfl, hfront⟩ := List.eq_append_cons_of_mem hvalue
    obtain ⟨third, more, hmore⟩ :=
      List.exists_cons_of_ne_nil (List.splitOn_ne_nil (byte '=') rest)
    rw [List.splitOn_append_cons_self_of_not_mem hfront, hmore, if_pos (Or.inr hvalue)]
  · rw [List.splitOn_eq_singleton hvalue]
    simp [hvalue]

/-- A field is read as the name and value it is made of. -/
theorem parseField_eq_ok {text : Bytes} {field : Bytes × Bytes} :
    parseField text = .ok field ↔
      text = fieldText field ∧ field.1 ≠ [] ∧ byte '=' ∉ field.1 ∧ byte '=' ∉ field.2 := by
  constructor
  · intro h
    by_cases hequals : byte '=' ∈ text
    · obtain ⟨name, value, rfl, hname⟩ := List.eq_append_cons_of_mem hequals
      rw [parseField_with hname] at h
      split at h
      · cases h
      · rename_i hgood
        rw [not_or] at hgood
        rw [← Except.ok.inj h]
        exact ⟨rfl, hgood.1, hname, hgood.2⟩
    · rw [parseField_without hequals] at h
      cases h
  · rintro ⟨rfl, hnamed, hname, hvalue⟩
    rw [fieldText, parseField_with hname, if_neg (by rw [not_or]; exact ⟨hnamed, hvalue⟩)]

/-- The page after a field. -/
def pageAfter (pageName : Bytes) (field : Bytes × Bytes) (seen : UInt64) :
    Except LinkPaginationError UInt64 :=
  if field.1 == pageName then parsePositiveDecimal field.2 else .ok seen

/-- One turn of the loop: the field is read, must be new, and must have a value the policy
knows. -/
theorem parseFields_cons (pageName text : Bytes) (texts received : List Bytes) (seen : UInt64) :
    parseFields pageName (text :: texts) received seen = (do
      let field ← parseField text
      throwIf (received.contains field.1) outsidePolicy
      let page ← pageAfter pageName field seen
      parseFields pageName texts (received ++ [field.1]) page) := by
  rw [parseFields]
  refine congrArg _ (funext ?_)
  rintro ⟨name, value⟩
  dsimp only
  refine congrArg (throwIf (received.contains name) outsidePolicy >>= ·) (funext fun _ => ?_)
  rw [pageAfter]
  dsimp only
  split <;> rfl

/-- The fields that are read, and what they leave of the page. -/
structure ReadsFields (pageName : Bytes) (texts received : List Bytes) (seen page : UInt64)
    (fields : List (Bytes × Bytes)) : Prop where
  parsed : List.Forall₂ (fun text field => parseField text = .ok field) texts fields
  distinct : (fields.map Prod.fst).Nodup
  fresh : ∀ field ∈ fields, field.1 ∉ received
  found : (∃ value, (pageName, value) ∈ fields ∧ parsePositiveDecimal value = .ok page) ∨
    (∀ field ∈ fields, field.1 ≠ pageName) ∧ page = seen

/-- Reading the fields of a query by one more field. -/
theorem readsFields_cons {pageName text : Bytes} {texts received : List Bytes}
    {seen page : UInt64} {field : Bytes × Bytes} {fields : List (Bytes × Bytes)} :
    ReadsFields pageName (text :: texts) received seen page (field :: fields) ↔
      parseField text = .ok field ∧ field.1 ∉ received ∧ ∃ own,
        pageAfter pageName field seen = .ok own ∧
          ReadsFields pageName texts (received ++ [field.1]) own page fields := by
  constructor
  · rintro ⟨hparsed, hdistinct, hfresh, hfound⟩
    obtain ⟨hfield, hrest⟩ := List.forall₂_cons.mp hparsed
    rw [List.map_cons, List.nodup_cons] at hdistinct
    obtain ⟨hnew, hdistinct⟩ := hdistinct
    have hothers : ∀ other ∈ fields, other.1 ≠ field.1 := by
      intro other hother hsame
      exact hnew (List.mem_map.mpr ⟨other, hother, hsame⟩)
    have hlater : ∀ other ∈ fields, other.1 ∉ received ++ [field.1] := by
      intro other hother
      rw [List.mem_append, List.mem_singleton, not_or]
      exact ⟨hfresh other (List.mem_cons_of_mem _ hother), hothers other hother⟩
    refine ⟨hfield, hfresh field List.mem_cons_self, ?_⟩
    by_cases hpage : field.1 = pageName
    · rcases hfound with ⟨value, hmem, hvalue⟩ | ⟨hnone, -⟩
      · have hsame : field.2 = value := by
          rcases List.mem_cons.mp hmem with hown | hrest
          · rw [← hown]
          · exact absurd hpage.symm (hothers _ hrest)
        refine ⟨page, ?_, hrest, hdistinct, hlater, Or.inr ⟨?_, rfl⟩⟩
        · rw [pageAfter, if_pos (beq_iff_eq.mpr hpage), hsame, hvalue]
        · intro other hother
          rw [← hpage]
          exact hothers other hother
      · exact absurd hpage (hnone field List.mem_cons_self)
    · refine ⟨seen, ?_, hrest, hdistinct, hlater, ?_⟩
      · rw [pageAfter, if_neg (by rw [beq_iff_eq]; exact hpage)]
      · rcases hfound with ⟨value, hmem, hvalue⟩ | ⟨hnone, hpage'⟩
        · refine Or.inl ⟨value, ?_, hvalue⟩
          rcases List.mem_cons.mp hmem with hown | hrest
          · exact absurd (by rw [← hown]) hpage
          · exact hrest
        · exact Or.inr ⟨fun other hother => hnone other (List.mem_cons_of_mem _ hother), hpage'⟩
  · rintro ⟨hfield, hnew, own, hown, hparsed, hdistinct, hfresh, hfound⟩
    have hothers : ∀ other ∈ fields, other.1 ∉ received ∧ other.1 ≠ field.1 := by
      intro other hother
      have hlater := hfresh other hother
      rw [List.mem_append, List.mem_singleton, not_or] at hlater
      exact hlater
    refine ⟨.cons hfield hparsed, ?_, ?_, ?_⟩
    · rw [List.map_cons, List.nodup_cons]
      refine ⟨?_, hdistinct⟩
      intro hmem
      obtain ⟨other, hother, hsame⟩ := List.mem_map.mp hmem
      exact (hothers other hother).2 hsame
    · exact List.forall_mem_cons.mpr ⟨hnew, fun other hother => (hothers other hother).1⟩
    · unfold pageAfter at hown
      split at hown
      · rename_i hpage
        rw [beq_iff_eq] at hpage
        rcases hfound with ⟨value, hmem, -⟩ | ⟨-, rfl⟩
        · exact absurd hpage.symm (hothers _ hmem).2
        · refine Or.inl ⟨field.2, ?_, hown⟩
          rw [← hpage]
          exact List.mem_cons_self
      · rename_i hpage
        rw [beq_iff_eq] at hpage
        obtain rfl := Except.ok.inj hown
        rcases hfound with ⟨value, hmem, hvalue⟩ | ⟨hnone, hsame⟩
        · exact Or.inl ⟨value, List.mem_cons_of_mem _ hmem, hvalue⟩
        · exact Or.inr ⟨List.forall_mem_cons.mpr ⟨hpage, hnone⟩, hsame⟩

/-- The loop over the fields answers with the page when it reads every one of them. -/
theorem parseFields_eq_ok {pageName : Bytes} {texts received : List Bytes} {seen page : UInt64} :
    parseFields pageName texts received seen = .ok page ↔
      ∃ fields, ReadsFields pageName texts received seen page fields := by
  induction texts generalizing received seen with
  | nil =>
    rw [parseFields, Except.ok.injEq]
    constructor
    · rintro rfl
      exact ⟨[], .nil, List.nodup_nil, by simp, Or.inr ⟨by simp, rfl⟩⟩
    · rintro ⟨fields, hparsed, -, -, hfound⟩
      rw [List.forall₂_nil_left_iff] at hparsed
      rw [hparsed] at hfound
      simpa [eq_comm] using hfound
  | cons text texts ih =>
    rw [parseFields_cons]
    simp only [bind_eq_ok, throwIf_eq_ok, List.contains_eq_mem, decide_eq_false_iff_not,
      exists_and_left, exists_const, ih]
    constructor
    · rintro ⟨field, hfield, hfresh, own, hown, fields, hfields⟩
      exact ⟨field :: fields, readsFields_cons.mpr ⟨hfield, hfresh, own, hown, hfields⟩⟩
    · rintro ⟨fields, hfields⟩
      cases fields with
      | nil => cases hfields.parsed
      | cons field fields =>
        obtain ⟨hfield, hfresh, own, hown, hrest⟩ := readsFields_cons.mp hfields
        exact ⟨field, hfield, hfresh, own, hown, fields, hrest⟩

-- ---------------------------------------------------------------------------
-- Targets
-- ---------------------------------------------------------------------------

/-- What admission has seen to, as far as a continuation depends on it. -/
structure IsAdmitted (profile : PaginatedRestProfile) : Prop where
  page_named : isSafeEncodedQueryName profile.pageNumberParameter = true
  sequence : PageAdmission.isSignedBigintPageSequence profile.firstPage profile.pageIncrement
    profile.maxPages = true
  starts : profile.firstPage ≠ 0

/-- The rest of the target is what follows a start it has. -/
theorem after_eq_ok {start target rest : Bytes} :
    after start target = .ok rest ↔ target = start ++ rest := by
  rw [after]
  by_cases hstart : start.isPrefixOf target = true
  · obtain ⟨more, rfl⟩ := List.isPrefixOf_iff_prefix.mp hstart
    rw [if_pos hstart, Except.ok.injEq, List.drop_left, List.append_cancel_left_eq]
  · rw [if_neg hstart]
    constructor
    · intro h
      cases h
    · rintro rfl
      exact absurd (List.isPrefixOf_iff_prefix.mpr (List.prefix_append _ _)) hstart

/-- The port is passed over when it is the one of the profile, written out or left out. -/
theorem afterPort_eq_ok {profile : PaginatedRestProfile} {target rest : Bytes}
    (hrest : ∀ more, rest ≠ byte ':' :: more) :
    afterPort profile target = .ok rest ↔
      ∃ port, IsPortText profile port ∧ target = port ++ rest := by
  rw [afterPort]
  by_cases hexplicit : (byte ':' :: decimal profile.port.toNat).isPrefixOf target = true
  · obtain ⟨more, rfl⟩ := List.isPrefixOf_iff_prefix.mp hexplicit
    rw [if_pos hexplicit, Except.ok.injEq, List.drop_left]
    constructor
    · rintro rfl
      exact ⟨_, Or.inl rfl, rfl⟩
    · rintro ⟨port, rfl | ⟨rfl, -, -⟩, hsame⟩
      · exact List.append_cancel_left hsame
      · exact absurd hsame.symm (hrest _)
  · rw [if_neg hexplicit]
    have hnot (more : Bytes) : target ≠ byte ':' :: decimal profile.port.toNat ++ more := by
      rintro rfl
      exact hexplicit (List.isPrefixOf_iff_prefix.mpr (List.prefix_append _ _))
    split
    · rename_i hother
      constructor
      · intro h
        cases h
      · rintro ⟨port, rfl | ⟨-, hscheme, hport⟩, rfl⟩
        · exact absurd rfl (hnot rest)
        · rw [hscheme, hport] at hother
          exact absurd hother (by decide)
    · rename_i hdefault
      simp only [Bool.or_eq_true, bne_iff_ne, not_or, not_not] at hdefault
      rw [Except.ok.injEq]
      constructor
      · rintro rfl
        exact ⟨[], Or.inr ⟨rfl, hdefault⟩, rfl⟩
      · rintro ⟨port, rfl | ⟨rfl, -, -⟩, hsame⟩
        · exact absurd hsame (hnot rest)
        · exact hsame

/-- Each element of the second list is related to one of the first. -/
theorem exists_of_mem_right {α β : Type} {R : α → β → Prop} {xs : List α} {ys : List β}
    (h : List.Forall₂ R xs ys) {y : β} (hy : y ∈ ys) : ∃ x ∈ xs, R x y := by
  induction h with
  | nil => cases hy
  | cons hone _ ih =>
    rcases List.mem_cons.mp hy with rfl | hy
    · exact ⟨_, List.mem_cons_self, hone⟩
    · obtain ⟨x, hx, hR⟩ := ih hy
      exact ⟨x, List.mem_cons_of_mem _ hx, hR⟩

/-- What a text is split at is in none of the pieces. -/
theorem not_mem_of_mem_splitOn {b : UInt8} {text piece : Bytes} (h : piece ∈ text.splitOn b) :
    b ∉ piece ∧ piece ⊆ text := by
  by_cases hmem : b ∈ text
  · obtain ⟨front, rest, rfl, hfront⟩ := List.eq_append_cons_of_mem hmem
    rw [List.splitOn_append_cons_self_of_not_mem hfront] at h
    rcases List.mem_cons.mp h with rfl | h
    · exact ⟨hfront, List.subset_append_left _ _⟩
    · have hrest := not_mem_of_mem_splitOn h
      exact ⟨hrest.1, fun c hc =>
        List.mem_append_right _ (List.mem_cons_of_mem _ (hrest.2 hc))⟩
  · rw [List.splitOn_eq_singleton hmem, List.mem_singleton] at h
    rw [h]
    exact ⟨hmem, List.Subset.refl _⟩
termination_by text.length

/-- A byte of a query separates two fields or belongs to one. -/
theorem mem_queryOf {fields : List (Bytes × Bytes)} {b : UInt8} (h : b ∈ queryOf fields) :
    b = byte '&' ∨ ∃ field ∈ fields, b ∈ fieldText field := by
  induction fields with
  | nil => simp [queryOf] at h
  | cons field fields ih =>
    cases fields with
    | nil => exact Or.inr ⟨field, List.mem_cons_self, by simpa [queryOf] using h⟩
    | cons next fields =>
      rw [queryOf, List.map_cons, List.map_cons, List.intercalate_cons_cons, List.mem_append,
        List.mem_append, List.mem_singleton] at h
      rcases h with (h | h) | h
      · exact Or.inr ⟨field, List.mem_cons_self, h⟩
      · exact Or.inl h
      · rcases ih h with h | ⟨other, hother, h⟩
        · exact Or.inl h
        · exact Or.inr ⟨other, List.mem_cons_of_mem _ hother, h⟩

/-- The query of a target, and the page that its fields carry. -/
theorem parseFields_query {pageName query : Bytes} {page : UInt64} (hpage : 0 < page.toNat) :
    (query ≠ [] ∧ byte '#' ∉ query ∧
        parseFields pageName (query.splitOn (byte '&')) [] 0 = .ok page) ↔
      ∃ fields, fields ≠ [] ∧ (∀ field ∈ fields, IsField field) ∧ (fields.map Prod.fst).Nodup ∧
        (pageName, decimal page.toNat) ∈ fields ∧ query = queryOf fields := by
  rw [parseFields_eq_ok]
  constructor
  · rintro ⟨-, hplain, fields, hparsed, hdistinct, -, hfound⟩
    have htexts : query.splitOn (byte '&') = fields.map fieldText := by
      rw [← List.forall₂_eq_eq_eq, List.forall₂_map_right_iff]
      exact hparsed.imp fun text field h => (parseField_eq_ok.mp h).1
    refine ⟨fields, ?_, ?_, hdistinct, ?_, ?_⟩
    · rintro rfl
      exact List.splitOn_ne_nil _ _ htexts
    · intro field hfield
      obtain ⟨text, htext, hread⟩ := exists_of_mem_right hparsed hfield
      obtain ⟨rfl, hnamed, hname, hvalue⟩ := parseField_eq_ok.mp hread
      obtain ⟨hend, hinside⟩ := not_mem_of_mem_splitOn htext
      have hhash : byte '#' ∉ fieldText field := fun h => hplain (hinside h)
      rw [fieldText, List.mem_append, List.mem_cons, not_or, not_or] at hend hhash
      exact ⟨hnamed, ⟨hend.1, hname, hhash.1⟩, ⟨hend.2.2, hvalue, hhash.2.2⟩⟩
    · rcases hfound with ⟨value, hmem, hvalue⟩ | ⟨-, rfl⟩
      · rw [(parsePositiveDecimal_eq_ok.mp hvalue).2] at hmem
        exact hmem
      · exact absurd hpage (by decide)
    · rw [queryOf, ← htexts, List.intercalate_splitOn]
  · rintro ⟨fields, hsome, hfields, hdistinct, hmem, rfl⟩
    have htexts : (queryOf fields).splitOn (byte '&') = fields.map fieldText := by
      refine List.splitOn_intercalate _ ?_ (by simpa using hsome)
      intro text htext
      obtain ⟨field, hfield, rfl⟩ := List.mem_map.mp htext
      obtain ⟨-, hname, hvalue⟩ := hfields field hfield
      rw [fieldText, List.mem_append, List.mem_cons]
      rintro (h | h | h)
      · exact hname.1 h
      · exact absurd h (by decide)
      · exact hvalue.1 h
    refine ⟨?_, ?_, fields, ?_, hdistinct, by simp, ?_⟩
    · rintro hempty
      rw [hempty] at htexts
      obtain ⟨field, rest, rfl⟩ := List.exists_cons_of_ne_nil hsome
      have hnil : fieldText field = [] := (List.cons.inj htexts).1.symm
      simp [fieldText] at hnil
    · intro hhash
      rcases mem_queryOf hhash with h | ⟨field, hfield, h⟩
      · exact absurd h (by decide)
      · obtain ⟨-, hname, hvalue⟩ := hfields field hfield
        rw [fieldText, List.mem_append, List.mem_cons] at h
        rcases h with h | h | h
        · exact hname.2.2 h
        · exact absurd h (by decide)
        · exact hvalue.2.2 h
    · rw [htexts, List.forall₂_map_left_iff, List.forall₂_same]
      intro field hfield
      obtain ⟨hnamed, hname, hvalue⟩ := hfields field hfield
      exact parseField_eq_ok.mpr ⟨rfl, hnamed, hname.2.1, hvalue.2.1⟩
    · exact Or.inl ⟨_, hmem, parsePositiveDecimal_eq_ok.mpr ⟨hpage, rfl⟩⟩

/-- An admitted profile moves on from each page. -/
theorem IsAdmitted.increment_pos {profile : PaginatedRestProfile} (hprofile : IsAdmitted profile) :
    0 < profile.pageIncrement.toNat := by
  have hsequence := hprofile.sequence
  simp only [PageAdmission.isSignedBigintPageSequence, Bool.and_eq_true, decide_eq_true_eq,
    UInt64.lt_iff_toNat_lt] at hsequence
  exact hsequence.1.1.2

/-- The target of the next page is accepted when it is the one the profile expects. -/
theorem validateNextTarget_accepts {profile : PaginatedRestProfile} (hprofile : IsAdmitted profile)
    {currentPage page : UInt64} {target : Bytes} :
    validateNextTarget profile currentPage target = .ok page ↔
      page.toNat = currentPage.toNat + profile.pageIncrement.toNat ∧
        IsNextTarget profile page.toNat target := by
  have hincrement := hprofile.increment_pos
  have hslash (query more : Bytes) : profile.path ++ [byte '?'] ++ query ≠ byte ':' :: more := by
    have hsafe := profile.path_safe
    unfold isSafeRequestPath at hsafe
    rw [Bool.and_eq_true] at hsafe
    split at hsafe
    · cases hsafe.2
    · rename_i first rest hpath
      rw [Bool.and_eq_true, beq_iff_eq] at hsafe
      rw [hpath, hsafe.2.1]
      intro h
      exact absurd (List.cons.inj h).1 (by decide)
  have hshape : IsNextTarget profile page.toNat target ↔ ∃ rest query,
      target = profile.scheme ++ ascii "://" ++ profile.host ++ rest ∧
        (∃ port, IsPortText profile port ∧ rest = port ++ (profile.path ++ [byte '?'] ++ query)) ∧
        ∃ fields, fields ≠ [] ∧ (∀ field ∈ fields, IsField field) ∧
          (fields.map Prod.fst).Nodup ∧
          (profile.pageNumberParameter, decimal page.toNat) ∈ fields ∧ query = queryOf fields := by
    constructor
    · rintro ⟨port, fields, hport, hsome, hfields, hdistinct, hmem, rfl⟩
      exact ⟨_, _, by simp [List.append_assoc], ⟨port, hport, rfl⟩, fields, hsome, hfields,
        hdistinct, hmem, rfl⟩
    · rintro ⟨_, _, rfl, ⟨port, hport, rfl⟩, fields, hsome, hfields, hdistinct, hmem, rfl⟩
      exact ⟨port, fields, hport, hsome, hfields, hdistinct, hmem, by simp [List.append_assoc]⟩
  unfold validateNextTarget
  simp only [bind_eq_ok, throwIf_eq_ok, pure_eq_ok, decide_eq_false_iff_not,
    bne_eq_false_iff_eq, after_eq_ok, Bool.or_eq_false_iff, List.contains_eq_mem,
    List.isEmpty_eq_false_iff, exists_const]
  constructor
  · rintro ⟨rest, htarget, rest', hport, query, rfl, ⟨hsome, hplain⟩, parsed, hparsed, hroom, hnext,
      rfl⟩
    have hvalue : parsed.toNat = currentPage.toNat + profile.pageIncrement.toNat := by
      rw [hnext]
      exact add_increment_toNat hroom
    rw [afterPort_eq_ok (hslash query)] at hport
    exact ⟨hvalue, hshape.mpr ⟨rest, query, htarget, hport,
      (parseFields_query (by omega)).mp ⟨hsome, hplain, hparsed⟩⟩⟩
  · rintro ⟨hvalue, hnext⟩
    obtain ⟨rest, query, htarget, hport, hfields⟩ := hshape.mp hnext
    obtain ⟨hsome, hplain, hparsed⟩ := (parseFields_query (by omega)).mpr hfields
    rw [← afterPort_eq_ok (hslash query)] at hport
    have hbound := page.toNat_lt
    have hsum : page = currentPage + profile.pageIncrement := by
      rw [← UInt64.toNat_inj, toNat_add_of_lt (by omega), hvalue]
    refine ⟨rest, htarget, _, hport, query, rfl, ⟨hsome, hplain⟩, page, hparsed, ?_, hsum, rfl⟩
    have hmax : (0xFFFFFFFFFFFFFFFF : UInt64).toNat = 2 ^ 64 - 1 := by decide
    rw [gt_iff_lt, UInt64.lt_iff_toNat_lt,
      toNat_sub_of_toNat_le (toNat_le_max profile.pageIncrement), hmax]
    omega

end Cuac.Runtime.Pagination

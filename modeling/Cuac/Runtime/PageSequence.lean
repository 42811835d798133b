import Cuac.Runtime.PageRequests
import Cuac.Runtime.PageTargets

/-!
# Runtime — the pages of a scan

`LinkPaginationState` under any sequence of calls. The page numbers are those of
an arithmetic progression, and a call that does not go on is the last that does
anything.

`validateNextTargetAt` reads a target by position, as the source does, and holds
every position to the target and every number to its type; it answers as
`validateNextTarget` does.

Main results:

* `validateNextTargetAt_eq` — no position and no number goes astray.
* `run_progresses` — the pages of any sequence of calls.
* `link_pagination` — both, with the targets that are accepted.
-/

namespace Cuac.Runtime.Pagination

open Cuac.Lib Cuac.Lib.Watched
open Cuac.Runtime.Resilience

-- ---------------------------------------------------------------------------
-- Targets, by position
-- ---------------------------------------------------------------------------

def parsePositiveDecimalAt (value : Bytes) : Watched Int := do
  refuseIf (value.isEmpty || decide (byteAt value 0 < byte '1') ||
    decide (byteAt value 0 > byte '9'))
  parseDecimalFrom 18446744073709551615 value 0

/-- The name and the value of the field at `offset`. -/
def readFieldAt (target : Bytes) (offset : Nat) : Watched (Bytes × Bytes) := do
  let fieldEnd := (find target (byte '&') offset).getD target.length
  refuseIf (fieldEnd == offset)
  let equals ← ofOption (find target (byte '=') offset)
  refuseIf (decide (fieldEnd ≤ equals) || equals == offset)
  let start ← position target (equals + 1)
  refuseIf ((find target (byte '=') start).any fun second => second < fieldEnd)
  let name ← substr target offset (equals - offset)
  let value ← substr target start (fieldEnd - equals - 1)
  pure (name, value)

def pageAfterAt (pageName : Bytes) (field : Bytes × Bytes) (seen : Int) : Watched Int :=
  if field.1 == pageName then parsePositiveDecimalAt field.2 else .ok seen

/-- The loop over the fields; `turns` is what is left of the target. -/
def parseFieldsAt (pageName target : Bytes) : Nat → Nat → List Bytes → Int → Watched Int
  | 0, _, _, _ => .error .overflow
  | turns + 1, offset, received, page => do
    let field ← readFieldAt target offset
    refuseIf (received.contains field.1)
    let page ← pageAfterAt pageName field page
    match find target (byte '&') offset with
    | none => pure page
    | some separator => do
      let next ← position target (separator + 1)
      refuseIf (next == target.length)
      parseFieldsAt pageName target turns next (received ++ [field.1]) page

def portOffsetAt (profile : PaginatedRestProfile) (target : Bytes)
  (offset : Nat) : Watched Nat := do
  let explicitPort := byte ':' :: decimal profile.port.toNat
  let isExplicit ← comparesEqual target offset explicitPort
  if isExplicit then position target (offset + explicitPort.length)
  else do
    refuseIf (profile.scheme != ascii "https" || profile.port != 443)
    pure offset

/-- The next page, and the check before it is computed. -/
def nextPageAt (profile : PaginatedRestProfile) (currentPage : UInt64) : Watched Int := do
  let room ← uint64 (18446744073709551615 - profile.pageIncrement.toNat)
  refuseIf (decide (room < currentPage.toNat))
  uint64 (currentPage.toNat + profile.pageIncrement.toNat)

/-- `ValidateNextTarget`, with every position and every number looked at. -/
def validateNextTargetAt (profile : PaginatedRestProfile) (currentPage : UInt64)
    (target : Bytes) : Watched Int := do
  let authority := profile.scheme ++ ascii "://" ++ profile.host
  let sameAuthority ← comparesEqual target 0 authority
  refuseIf (!sameAuthority)
  let offset ← portOffsetAt profile target authority.length
  let pathAndQuery := profile.path ++ [byte '?']
  let samePath ← comparesEqual target offset pathAndQuery
  refuseIf (!samePath)
  let offset ← position target (offset + pathAndQuery.length)
  refuseIf (decide (target.length ≤ offset) || (find target (byte '#') offset).isSome)
  let parsedPage ← parseFieldsAt profile.pageNumberParameter target target.length offset [] 0
  let nextPage ← nextPageAt profile currentPage
  refuseIf (parsedPage != nextPage)
  pure parsedPage

/-- The answer of a function that throws one error only. -/
def answerOf {α β : Type} (f : α → β) : Except LinkPaginationError α → Watched β
  | .ok a => .ok (f a)
  | .error _ => .error .refused

theorem parsePositiveDecimalAt_eq (value : Bytes) :
    parsePositiveDecimalAt value =
      answerOf (fun page => (page.toNat : Int)) (parsePositiveDecimal value) := by
  rw [parsePositiveDecimalAt]
  match value with
  | [] => rfl
  | first :: rest =>
    rw [parsePositiveDecimal]
    have hlead : byteAt (first :: rest) 0 = first := rfl
    rw [hlead, List.isEmpty_cons, Bool.false_or]
    by_cases hguard : (decide (first < byte '1') || decide (first > byte '9')) = true
    · rw [if_pos hguard, hguard]
      rfl
    · rw [if_neg hguard, Bool.eq_false_of_not_eq_true hguard, refuseIf_false, ok_bind]
      have hread := @parseDecimalFrom_eq 18446744073709551615 (by decide) 0 (by decide)
        (first :: rest)
      rw [show ((0 : Nat) : Int) = 0 from rfl] at hread
      rw [hread]
      by_cases hfits : (∀ b ∈ first :: rest, isDigit b = true) ∧
          (valueFrom 0 (first :: rest) : Int) ≤ 18446744073709551615
      · rw [if_pos hfits]
        have hbound : valueFrom 0 (first :: rest) < 2 ^ 64 := by omega
        have hparsed : parseUnsignedFrom 0 (first :: rest) =
            some (UInt64.ofNat (valueFrom 0 (first :: rest))) := by
          rw [parseUnsignedFrom_eq_some]
          refine ⟨hfits.1, ?_⟩
          rw [UInt64.toNat_ofNat', Nat.mod_eq_of_lt hbound]
          rfl
        rw [hparsed]
        dsimp only
        rw [answerOf, UInt64.toNat_ofNat', Nat.mod_eq_of_lt hbound]
      · rw [if_neg hfits]
        have hnone : parseUnsignedFrom 0 (first :: rest) = none := by
          rw [Option.eq_none_iff_forall_ne_some]
          intro parsed hparsed
          rw [parseUnsignedFrom_eq_some] at hparsed
          have hbound := parsed.toNat_lt
          refine hfits ⟨hparsed.1, ?_⟩
          rw [show valueFrom 0 (first :: rest) = parsed.toNat from hparsed.2]
          omega
        rw [hnone]
        rfl

/-- A byte is found before the end of a part that is first exactly if the part has it. -/
theorem find_any_lt {text front tail : Bytes} {n : Nat} (h : text.drop n = front ++ tail)
    (b : UInt8) :
    ((find text b n).any fun i => decide (i < n + front.length)) = decide (b ∈ front) := by
  by_cases hfront : b ∈ front
  · obtain ⟨before, after, rfl, hbefore⟩ := List.eq_append_cons_of_mem hfront
    rw [List.append_assoc, List.cons_append] at h
    rw [find_eq_some h hbefore, Option.any_some, decide_eq_true hfront, decide_eq_true_eq,
      List.length_append, List.length_cons]
    omega
  · rw [decide_eq_false hfront]
    by_cases htail : b ∈ tail
    · obtain ⟨before, after, rfl, hbefore⟩ := List.eq_append_cons_of_mem htail
      rw [← List.append_assoc] at h
      have hnew : b ∉ front ++ before := by
        rw [List.mem_append, not_or]
        exact ⟨hfront, hbefore⟩
      rw [find_eq_some h hnew, Option.any_some, decide_eq_false_iff_not, List.length_append]
      omega
    · have hnone : find text b n = none := by
        rw [find_eq_none, h, List.mem_append, not_or]
        exact ⟨hfront, htail⟩
      rw [hnone, Option.any_none]

/-- A field of a target, with what follows it. -/
structure FieldAt (target : Bytes) (offset : Nat) (text tail : Bytes) : Prop where
  inside : offset ≤ target.length
  split : target.drop offset = text ++ tail
  plain : byte '&' ∉ text
  ended : tail = [] ∨ ∃ more, tail = byte '&' :: more

theorem FieldAt.fieldEnd {target text tail : Bytes} {offset : Nat}
    (h : FieldAt target offset text tail) :
    (find target (byte '&') offset).getD target.length = offset + text.length := by
  have hlength := congrArg List.length h.split
  rw [List.length_drop, List.length_append] at hlength
  have hinside := h.inside
  rcases h.ended with rfl | ⟨more, rfl⟩
  · have hnone : find target (byte '&') offset = none := by
      rw [find_eq_none, h.split, List.append_nil]
      exact h.plain
    rw [hnone, Option.getD_none]
    rw [List.length_nil] at hlength
    omega
  · rw [find_eq_some h.split h.plain, Option.getD_some]

theorem readFieldAt_eq {target text tail : Bytes} {offset : Nat}
    (h : FieldAt target offset text tail) :
    readFieldAt target offset = answerOf id (parseField text) := by
  have hlength := congrArg List.length h.split
  rw [List.length_drop, List.length_append] at hlength
  have hinside := h.inside
  have hsearch := find_any_lt h.split (byte '=')
  rw [readFieldAt, h.fieldEnd]
  by_cases hempty : text = []
  · rw [hempty]
    simp only [List.length_nil, Nat.add_zero, beq_self_eq_true]
    rfl
  rw [beq_eq_false_iff_ne.mpr (by
    have hpos := List.length_pos_iff.mpr hempty
    omega), refuseIf_false, ok_bind]
  by_cases hequals : byte '=' ∈ text
  · obtain ⟨name, value, rfl, hname⟩ := List.eq_append_cons_of_mem hequals
    have hdrop : target.drop offset = name ++ byte '=' :: (value ++ tail) := by
      rw [h.split, List.append_assoc, List.cons_append]
    rw [List.length_append, List.length_cons] at hlength
    have hvalue : target.drop (offset + name.length + 1) = value ++ tail := by
      rw [← List.drop_drop, drop_append_length hdrop]
      rfl
    have hsecond := find_any_lt hvalue (byte '=')
    rw [find_eq_some hdrop hname, ofOption, ok_bind, List.length_append, List.length_cons,
      decide_eq_false (by omega), Bool.false_or, parseField_with hname]
    by_cases hunnamed : name = []
    · rw [hunnamed, if_pos (Or.inl rfl)]
      simp only [List.length_nil, Nat.add_zero, beq_self_eq_true]
      rfl
    · have hpos := List.length_pos_iff.mpr hunnamed
      have hend : offset + name.length + 1 + value.length =
          offset + (name.length + (value.length + 1)) := by omega
      have hstart : ((offset + name.length : Nat) : Int) + 1 =
          ((offset + name.length + 1 : Nat) : Int) := by omega
      have hcount : ((offset + name.length : Nat) : Int) - (offset : Int) =
        (name.length : Int) := by
        omega
      have hrest : ((offset + (name.length + (value.length + 1)) : Nat) : Int) -
          ((offset + name.length : Nat) : Int) - 1 = (value.length : Int) := by omega
      rw [beq_eq_false_iff_ne.mpr (by omega), refuseIf_false, ok_bind, hstart,
        position_ok (by omega), ok_bind, ← hend, hsecond, hend, hcount, hrest,
        substr_ok (by omega), ok_bind, substr_ok (by omega), ok_bind, hdrop, hvalue,
        List.take_left, List.take_left]
      by_cases hagain : byte '=' ∈ value
      · rw [decide_eq_true hagain, if_pos (Or.inr hagain)]
        rfl
      · rw [decide_eq_false hagain, if_neg (by
          rw [not_or]
          exact ⟨hunnamed, hagain⟩)]
        rfl
  · rw [parseField_without hequals]
    rw [decide_eq_false hequals] at hsearch
    cases hfound : find target (byte '=') offset with
    | none => rfl
    | some equals =>
      rw [hfound, Option.any_some, decide_eq_false_iff_not] at hsearch
      rw [ofOption, ok_bind, decide_eq_true (by omega)]
      rfl

theorem pageAfterAt_eq (pageName : Bytes) (field : Bytes × Bytes) (seen : UInt64) :
    pageAfterAt pageName field (seen.toNat : Int) =
      answerOf (fun page => (page.toNat : Int)) (pageAfter pageName field seen) := by
  unfold pageAfterAt pageAfter
  split
  · exact parsePositiveDecimalAt_eq field.2
  · rfl

/-- A part of a computation that throws one error only, and the rest of it. -/
theorem answerOf_bind {α β γ δ : Type} {f : α → β} {g : γ → δ}
    {x : Except LinkPaginationError α} {next : α → Except LinkPaginationError γ}
    {nextAt : β → Watched δ} (h : ∀ a, x = .ok a → nextAt (f a) = answerOf g (next a)) :
    (answerOf f x >>= nextAt) = answerOf g (x >>= next) := by
  match x, h with
  | .ok a, h => exact h a rfl
  | .error _, _ => rfl

theorem answerOf_throwIf {γ δ : Type} {g : γ → δ} {bad : Bool} {error : LinkPaginationError}
    {next : Unit → Except LinkPaginationError γ} {nextAt : Unit → Watched δ}
    (h : bad = false → nextAt () = answerOf g (next ())) :
    (refuseIf bad >>= nextAt) = answerOf g (throwIf bad error >>= next) := by
  match bad, h with
  | false, h => exact h rfl
  | true, _ => rfl

theorem parseFieldsAt_eq {pageName target : Bytes} {turns offset : Nat} {received : List Bytes}
    {seen : UInt64} (hturns : target.length - offset < turns) (hinside : offset ≤ target.length) :
    parseFieldsAt pageName target turns offset received (seen.toNat : Int) =
      answerOf (fun page => (page.toNat : Int))
        (parseFields pageName ((target.drop offset).splitOn (byte '&')) received seen) := by
  induction turns generalizing offset received seen with
  | zero => omega
  | succ turns ih =>
    rw [parseFieldsAt]
    by_cases hmore : byte '&' ∈ target.drop offset
    · obtain ⟨text, rest, hdrop, hplain⟩ := List.eq_append_cons_of_mem hmore
      have hfield : FieldAt target offset text (byte '&' :: rest) :=
        ⟨hinside, hdrop, hplain, Or.inr ⟨rest, rfl⟩⟩
      have hlength := congrArg List.length hdrop
      rw [List.length_drop, List.length_append, List.length_cons] at hlength
      have hrest : target.drop (offset + text.length + 1) = rest := by
        rw [← List.drop_drop, drop_append_length hdrop]
        rfl
      have hnext : ((offset + text.length : Nat) : Int) + 1 =
          ((offset + text.length + 1 : Nat) : Int) := by omega
      rw [readFieldAt_eq hfield, hdrop, List.splitOn_append_cons_self_of_not_mem hplain,
        parseFields_cons, find_eq_some hdrop hplain]
      refine answerOf_bind fun field _ => answerOf_throwIf fun _ => ?_
      rw [id, pageAfterAt_eq]
      refine answerOf_bind fun page _ => ?_
      dsimp only
      rw [hnext, position_ok (by omega), ok_bind]
      by_cases hend : offset + text.length + 1 = target.length
      · -- The target ends in a separator.
        have hnone : rest = [] := List.length_eq_zero_iff.mp (by omega)
        rw [beq_iff_eq.mpr hend, hnone, List.splitOn_nil, parseFields_cons]
        rfl
      · rw [beq_eq_false_iff_ne.mpr hend, refuseIf_false, ok_bind, ih (by omega) (by omega), hrest]
    · have hfield : FieldAt target offset (target.drop offset) [] :=
        ⟨hinside, (List.append_nil _).symm, hmore, Or.inl rfl⟩
      rw [readFieldAt_eq hfield, List.splitOn_eq_singleton hmore, parseFields_cons,
        find_eq_none.mpr hmore]
      refine answerOf_bind fun field _ => answerOf_throwIf fun _ => ?_
      rw [id, pageAfterAt_eq]
      refine answerOf_bind fun page _ => ?_
      rfl

theorem nextPageAt_eq (profile : PaginatedRestProfile) (currentPage : UInt64) :
    nextPageAt profile currentPage =
      if currentPage.toNat + profile.pageIncrement.toNat < 2 ^ 64 then
        .ok ((currentPage.toNat + profile.pageIncrement.toNat : Nat) : Int)
      else .error .refused := by
  have hpage := currentPage.toNat_lt
  have hincrement := profile.pageIncrement.toNat_lt
  rw [nextPageAt, uint64_ok (by omega), ok_bind]
  by_cases hfits : currentPage.toNat + profile.pageIncrement.toNat < 2 ^ 64
  · rw [if_pos hfits, decide_eq_false (by omega), refuseIf_false, ok_bind, uint64_ok (by omega)]
    rfl
  · rw [if_neg hfits, decide_eq_true (by omega)]
    rfl

theorem room_check {currentPage increment : UInt64} :
    currentPage > 0xFFFFFFFFFFFFFFFF - increment ↔
      ¬currentPage.toNat + increment.toNat < 2 ^ 64 := by
  have hmax : (0xFFFFFFFFFFFFFFFF : UInt64).toNat = 2 ^ 64 - 1 := by decide
  have hincrement := increment.toNat_lt
  rw [gt_iff_lt, UInt64.lt_iff_toNat_lt, toNat_sub_of_toNat_le (toNat_le_max increment), hmax]
  omega

theorem inside_of_isPrefixOf {target start : Bytes} {offset : Nat}
    (hinside : offset ≤ target.length)
    (h : start.isPrefixOf (target.drop offset) = true) :
    offset + start.length ≤ target.length := by
  have hlength := (List.isPrefixOf_iff_prefix.mp h).length_le
  rw [List.length_drop] at hlength
  omega

/-- The position after the port, with the rest of the target there. -/
theorem portOffsetAt_eq {profile : PaginatedRestProfile} {target : Bytes} {offset : Nat}
    (hinside : offset ≤ target.length) :
    (portOffsetAt profile target offset = .error .refused ∧
        afterPort profile (target.drop offset) = .error outsidePolicy) ∨
      ∃ next, offset ≤ next ∧ next ≤ target.length ∧ portOffsetAt profile target offset = .ok next ∧
        afterPort profile (target.drop offset) = .ok (target.drop next) := by
  rw [portOffsetAt, comparesEqual_ok hinside, ok_bind, afterPort]
  by_cases hexplicit :
      (byte ':' :: decimal profile.port.toNat).isPrefixOf (target.drop offset) = true
  · have hlength := inside_of_isPrefixOf hinside hexplicit
    refine Or.inr ⟨offset + (byte ':' :: decimal profile.port.toNat).length, by omega, hlength,
      ?_, ?_⟩
    · rw [if_pos hexplicit, ← Nat.cast_add, position_ok hlength]
    · rw [if_pos hexplicit, List.drop_drop]
  · rw [if_neg hexplicit, if_neg hexplicit]
    by_cases hother : (profile.scheme != ascii "https" || profile.port != 443) = true
    · rw [hother, if_pos rfl]
      exact Or.inl ⟨rfl, rfl⟩
    · rw [if_neg hother, Bool.eq_false_of_not_eq_true hother]
      exact Or.inr ⟨offset, Nat.le_refl _, hinside, rfl, rfl⟩

/-- No position and no number goes astray, whatever the target. -/
theorem validateNextTargetAt_eq (profile : PaginatedRestProfile) (currentPage : UInt64)
    (target : Bytes) :
    validateNextTargetAt profile currentPage target =
      answerOf (fun page => (page.toNat : Int)) (validateNextTarget profile currentPage target) := by
  rw [validateNextTargetAt, validateNextTarget]
  generalize hauthority : profile.scheme ++ ascii "://" ++ profile.host = authority
  generalize hquery : profile.path ++ [byte '?'] = pathAndQuery
  have hstart : comparesEqual target 0 authority = .ok (authority.isPrefixOf target) := by
    have hcompare := @comparesEqual_ok target 0 (Nat.zero_le _) authority
    rwa [List.drop_zero] at hcompare
  rw [hstart, ok_bind, after]
  by_cases hsame : authority.isPrefixOf target = true
  swap
  · rw [if_neg hsame, Bool.eq_false_of_not_eq_true hsame]
    rfl
  have hinside : authority.length ≤ target.length := (List.isPrefixOf_iff_prefix.mp hsame).length_le
  rw [hsame, if_pos rfl, Bool.not_true, refuseIf_false, ok_bind, ok_bind]
  rcases @portOffsetAt_eq profile target authority.length hinside with
    ⟨hrefused, hport⟩ | ⟨offset, hle, hoffset, hfound, hport⟩
  · rw [hrefused, hport]
    rfl
  rw [hfound, hport, ok_bind, ok_bind]
  dsimp only
  rw [comparesEqual_ok hoffset, ok_bind, after]
  by_cases hpath : pathAndQuery.isPrefixOf (target.drop offset) = true
  swap
  · rw [if_neg hpath, Bool.eq_false_of_not_eq_true hpath]
    rfl
  have hlength := inside_of_isPrefixOf hoffset hpath
  have hpositive : 0 < pathAndQuery.length := by
    rw [← hquery, List.length_append, List.length_singleton]
    omega
  rw [hpath, if_pos rfl, Bool.not_true, refuseIf_false, ok_bind, ok_bind, ← Nat.cast_add,
    position_ok hlength, ok_bind, List.drop_drop]
  have hguard : (decide (target.length ≤ offset + pathAndQuery.length) ||
      (find target (byte '#') (offset + pathAndQuery.length)).isSome) =
      ((target.drop (offset + pathAndQuery.length)).isEmpty ||
        (target.drop (offset + pathAndQuery.length)).contains (byte '#')) := by
    congr 1
    · rw [Bool.eq_iff_iff, decide_eq_true_eq, List.isEmpty_iff, List.drop_eq_nil_iff]
    · rw [Bool.eq_iff_iff, List.contains_iff_mem, Option.isSome_iff_ne_none, Ne, find_eq_none,
        not_not]
  rw [hguard]
  refine answerOf_throwIf fun _ => ?_
  have hfields := @parseFieldsAt_eq profile.pageNumberParameter target target.length
    (offset + pathAndQuery.length) [] 0 (by omega) hlength
  rw [show ((0 : UInt64).toNat : Int) = 0 from rfl] at hfields
  rw [hfields]
  refine answerOf_bind fun parsed _ => ?_
  rw [nextPageAt_eq]
  by_cases hroom : currentPage.toNat + profile.pageIncrement.toNat < 2 ^ 64
  · have hsum := @toNat_add_of_lt currentPage profile.pageIncrement hroom
    have hpages : ((parsed.toNat : Int) !=
        ((currentPage.toNat + profile.pageIncrement.toNat : Nat) : Int)) =
        (parsed != currentPage + profile.pageIncrement) := by
      rw [Bool.eq_iff_iff, bne_iff_ne, bne_iff_ne, Ne, Ne, Nat.cast_inj, ← UInt64.toNat_inj, hsum]
    rw [if_pos hroom, ok_bind, decide_eq_false (by rw [room_check, not_not]; exact hroom), hpages]
    refine answerOf_throwIf fun _ => ?_
    rfl
  · rw [if_neg hroom, decide_eq_true (room_check.mpr hroom)]
    rfl

-- ---------------------------------------------------------------------------
-- Calls
-- ---------------------------------------------------------------------------

/-- What a stream calls between two pages. -/
inductive Call
  | fields (visits : LinkHeaderVisits)
  | body (nextUrl : Bytes)
  | count (decodedRowCount : Nat)

namespace LinkPaginationState

variable {profile : PaginatedRestProfile}

def apply (profile : PaginatedRestProfile) (s : LinkPaginationState) :
    Call → Except LinkPaginationError LinkPageTransition × LinkPaginationState
  | .fields visits => s.advance profile visits
  | .body nextUrl => s.advanceBody profile nextUrl
  | .count decodedRowCount => s.advanceByCount profile decodedRowCount

/-- The pages that a sequence of calls goes on to, and the state after it. -/
def run (profile : PaginatedRestProfile) (s : LinkPaginationState) :
    List Call → List UInt64 × LinkPaginationState
  | [] => ([], s)
  | call :: rest =>
    let (result, next) := s.apply profile call
    let (pages, final) := run profile next rest
    match result with
    | .ok ⟨true, page⟩ => (page :: pages, final)
    | _ => (pages, final)

def IsTerminal (s : LinkPaginationState) : Prop := s.failed = true ∨ s.exhausted = true

/-- What a call does: it goes on by one page, or it is the last that does anything. -/
inductive Effect (profile : PaginatedRestProfile) (s : LinkPaginationState) :
    Except LinkPaginationError LinkPageTransition × LinkPaginationState → Prop
  | moved (page : UInt64)
      (hpage : page.toNat = s.currentPage.toNat + profile.pageIncrement.toNat) :
      Effect profile s
        (.ok ⟨true, page⟩, { s with seenPageCount := s.seenPageCount + 1, currentPage := page })
  | ended (result : Except LinkPaginationError LinkPageTransition) (s' : LinkPaginationState)
      (hpage : s'.currentPage = s.currentPage) (hseen : s'.seenPageCount = s.seenPageCount)
      (hterminal : s'.IsTerminal)
      (hresult : ∀ page, result ≠ .ok ⟨true, page⟩) : Effect profile s (result, s')

theorem effect_advanceBy {s : LinkPaginationState}
    {signal : Except LinkPaginationError LinkPageTransition}
    (hsignal : ∀ found, signal = .ok found → Moves profile s.currentPage found) :
    Effect profile s (s.advanceBy signal) := by
  unfold advanceBy
  by_cases hguard : (s.failed || s.exhausted) = true
  · rw [if_pos hguard]
    rw [Bool.or_eq_true] at hguard
    exact .ended _ s rfl rfl hguard fun page h => by cases h
  · rw [if_neg hguard]
    match signal, hsignal with
    | .error error, _ => exact .ended _ _ rfl rfl (Or.inl rfl) fun page h => by cases h
    | .ok ⟨true, page⟩, hsignal => exact .moved page (hsignal _ rfl rfl)
    | .ok ⟨false, page⟩, _ => exact .ended _ _ rfl rfl (Or.inr rfl) fun page h => by cases h

theorem effect_apply (s : LinkPaginationState) (call : Call) :
    Effect profile s (s.apply profile call) := by
  cases call with
  | fields visits => exact effect_advanceBy fun _ hfound => parseTransition_moves hfound
  | body nextUrl => exact effect_advanceBy fun _ hfound => bodySignal_moves hfound
  | count decodedRowCount => exact effect_advanceBy fun _ hfound => countSignal_moves hfound

theorem apply_of_terminal {s : LinkPaginationState} (h : s.IsTerminal) (call : Call) :
    s.apply profile call = (.error cannotAdvance, s) := by
  have hguard : (s.failed || s.exhausted) = true := by
    rw [Bool.or_eq_true]
    exact h
  cases call <;>
    simp only [apply, advance, advanceBody, advanceByCount, advanceBy, hguard, if_true]

theorem run_of_terminal {s : LinkPaginationState} (h : s.IsTerminal) (calls : List Call) :
    s.run profile calls = ([], s) := by
  induction calls with
  | nil => rfl
  | cons call rest ih =>
    rw [run, apply_of_terminal h]
    dsimp only
    rw [ih]

theorem run_moved {s s' : LinkPaginationState} {call : Call} {page : UInt64} {rest : List Call}
    (h : s.apply profile call = (.ok ⟨true, page⟩, s')) :
    s.run profile (call :: rest) = (page :: (s'.run profile rest).1, (s'.run profile rest).2) := by
  rw [run, h]

theorem run_ended {s s' : LinkPaginationState} {call : Call} {rest : List Call}
    {result : Except LinkPaginationError LinkPageTransition}
    (h : s.apply profile call = (result, s')) (hresult : ∀ page, result ≠ .ok ⟨true, page⟩) :
    s.run profile (call :: rest) = s'.run profile rest := by
  rw [run, h]
  dsimp only
  split
  · exact absurd rfl (hresult _)
  · rfl

/-- The pages that follow a page, and where they end. -/
structure Progresses (profile : PaginatedRestProfile) (s : LinkPaginationState)
    (pages : List UInt64) (final : LinkPaginationState) : Prop where
  pages_eq : pages.map UInt64.toNat = (List.range pages.length).map fun i =>
    s.currentPage.toNat + (i + 1) * profile.pageIncrement.toNat
  page_eq : final.currentPage.toNat =
    s.currentPage.toNat + pages.length * profile.pageIncrement.toNat
  seen_eq : final.seenPageCount = s.seenPageCount + pages.length

theorem run_progresses (s : LinkPaginationState) (calls : List Call) :
    Progresses profile s (s.run profile calls).1 (s.run profile calls).2 := by
  induction calls generalizing s with
  | nil => exact ⟨rfl, by simp [run], rfl⟩
  | cons call rest ih =>
    generalize happly : s.apply profile call = outcome
    have heffect := @effect_apply profile s call
    rw [happly] at heffect
    cases heffect with
    | moved page hpage =>
      rw [run_moved happly]
      obtain ⟨hpages, hlast, hseen⟩ := ih { s with seenPageCount := s.seenPageCount + 1,
                                                   currentPage := page }
      generalize run profile _ rest = later at hpages hlast hseen ⊢
      refine ⟨?_, ?_, ?_⟩
      · rw [List.map_cons, List.length_cons, List.range_succ_eq_map, List.map_cons, List.map_map,
          hpages, hpage, Nat.zero_add, Nat.one_mul]
        refine congrArg _ (List.map_congr_left fun i _ => ?_)
        dsimp only [Function.comp_apply]
        rw [Nat.succ_eq_add_one, Nat.add_mul (i + 1), Nat.one_mul]
        omega
      · rw [List.length_cons, Nat.add_mul, Nat.one_mul]
        dsimp only at hlast ⊢
        omega
      · rw [List.length_cons]
        dsimp only at hseen ⊢
        omega
    | ended result s' hpage hseen hterminal hresult =>
      rw [run_ended happly hresult, run_of_terminal hterminal]
      exact ⟨rfl, by simp [hpage], by simpa using hseen⟩

end LinkPaginationState

-- ---------------------------------------------------------------------------
-- The scan
-- ---------------------------------------------------------------------------

section Admission

open Cuac.Runtime.PageAdmission

/-- Admission has seen to the page sequence of every profile it gives out. -/
theorem isAdmitted_of_shape [Connector.CLibrary] {plan : ScanPlan}
    {conditional : RestConditionalBindingAuthority} {maxDecodedRecords : UInt64}
    {request : Authentication.MaterializedRestRequest}
    {credential : Authentication.RequiredCredential}
    (hadmitted : hasPaginatedShape plan conditional maxDecodedRecords = .ok (some request))
    (hcredential : plan.obligation.credential = some credential) {profile : PaginatedRestProfile}
    (hprofile : profile.toAdmittedPaginatedRestRequestProfile =
      admittedProfile hadmitted hcredential) :
    IsAdmitted profile := by
  obtain ⟨-, hsupported⟩ := admitted_parts hadmitted
  have htarget : hasPageTarget plan = true := by
    simp only [hasSupportedRestPagination, Bool.and_eq_true] at hsupported
    exact hsupported.1.1.1.2
  simp only [hasPageTarget, Bool.and_eq_true, bne_iff_ne] at htarget
  have hname : profile.pageNumberParameter = plan.pagination.target.pageNumberParameter :=
    congrArg (·.pageNumberParameter) hprofile
  have hfirst : profile.firstPage = plan.pagination.target.firstPage :=
    congrArg (·.firstPage) hprofile
  have hincrement : profile.pageIncrement = plan.pagination.target.pageIncrement :=
    congrArg (·.pageIncrement) hprofile
  have hpages : profile.maxPages = plan.pagination.scanBudgets.pages :=
    congrArg (·.maxPages) hprofile
  constructor
  · rw [hname]
    exact htarget.1.1.1.1.1.1.2
  · rw [hfirst, hincrement, hpages]
    exact htarget.1.2
  · rw [hfirst]
    exact htarget.1.1.1.1.1.2

end Admission

/-- What a link pagination does, whatever it is called with: the pages it goes through,
the targets it accepts, how it ends, and that it reads within its texts and numbers. -/
theorem link_pagination {profile : PaginatedRestProfile} (hprofile : IsAdmitted profile) :
    (∀ calls pages s, (LinkPaginationState.new profile).run profile calls = (pages, s) →
      (profile.firstPage :: pages).map UInt64.toNat =
          (List.range (pages.length + 1)).map
            (fun i => profile.firstPage.toNat + i * profile.pageIncrement.toNat) ∧
        s.currentPage.toNat =
          profile.firstPage.toNat + pages.length * profile.pageIncrement.toNat ∧
        s.seenPageCount = pages.length + 1 ∧ s.seenPageCount < 2 ^ 64) ∧
    (∀ currentPage target,
      (∃ page, validateNextTarget profile currentPage target = .ok page) ↔
        currentPage.toNat + profile.pageIncrement.toNat < 2 ^ 64 ∧
          IsNextTarget profile (currentPage.toNat + profile.pageIncrement.toNat) target) ∧
    (∀ s : LinkPaginationState, ∀ call,
      (∃ page, s.apply profile call = (.ok ⟨true, page⟩,
          { s with seenPageCount := s.seenPageCount + 1, currentPage := page })) ∨
        (s.apply profile call).2.IsTerminal ∧
          (s.apply profile call).2.currentPage = s.currentPage) ∧
    (∀ s : LinkPaginationState, s.IsTerminal →
      ∀ call, s.apply profile call = (.error cannotAdvance, s)) ∧
    (∀ currentPage target, validateNextTargetAt profile currentPage target =
      answerOf (fun page => (page.toNat : Int)) (validateNextTarget profile currentPage target)) ∧
    ∀ currentPage, nextPageAt profile currentPage =
      answerOf (fun page => (page.toNat : Int))
        (if currentPage > 0xFFFFFFFFFFFFFFFF - profile.pageIncrement then .error outsidePolicy
        else .ok (currentPage + profile.pageIncrement)) := by
  have hincrement := hprofile.increment_pos
  refine ⟨?_, ?_, ?_, fun s hterminal => LinkPaginationState.apply_of_terminal hterminal,
    validateNextTargetAt_eq profile, ?_⟩
  -- The pages form the progression, and there are as many as were seen.
  · intro calls pages s hrun
    have hprogress := @LinkPaginationState.run_progresses profile (.new profile) calls
    rw [hrun] at hprogress
    obtain ⟨hpages, hlast, hseen⟩ := hprogress
    rw [show (LinkPaginationState.new profile).currentPage =
      profile.firstPage from rfl] at hpages hlast
    rw [show (LinkPaginationState.new profile).seenPageCount = 1 from rfl] at hseen
    dsimp only at hpages hlast hseen
    refine ⟨?_, hlast, by omega, ?_⟩
    · rw [List.map_cons, List.range_succ_eq_map, List.map_cons, List.map_map, hpages, Nat.zero_mul]
      rfl
    -- Each page has a number of its own below 2^64, so the count of pages cannot wrap.
    · have hbound := s.currentPage.toNat_lt
      have hfirst : 0 < profile.firstPage.toNat := by
        refine Nat.pos_of_ne_zero fun hzero => hprofile.starts ?_
        rw [← UInt64.toNat_inj, hzero]
        rfl
      have hsteps : pages.length ≤ pages.length * profile.pageIncrement.toNat :=
        Nat.le_mul_of_pos_right _ hincrement
      omega
  · intro currentPage target
    constructor
    · rintro ⟨page, hpage⟩
      obtain ⟨hnext, htarget⟩ := (validateNextTarget_accepts hprofile).mp hpage
      have hbound := page.toNat_lt
      rw [hnext] at htarget
      exact ⟨by omega, htarget⟩
    · rintro ⟨hfits, htarget⟩
      refine ⟨currentPage + profile.pageIncrement, (validateNextTarget_accepts hprofile).mpr ?_⟩
      rw [toNat_add_of_lt hfits]
      exact ⟨rfl, htarget⟩
  · intro s call
    generalize happly : s.apply profile call = outcome
    have heffect := @LinkPaginationState.effect_apply profile s call
    rw [happly] at heffect
    cases heffect with
    | moved page hpage => exact Or.inl ⟨page, rfl⟩
    | ended result s' hpage hseen hterminal hresult => exact Or.inr ⟨hterminal, hpage⟩
  · intro currentPage
    rw [nextPageAt_eq]
    by_cases hfits : currentPage.toNat + profile.pageIncrement.toNat < 2 ^ 64
    · rw [if_pos hfits, if_neg (by rw [room_check, not_not]; exact hfits), answerOf,
        toNat_add_of_lt hfits]
    · rw [if_neg hfits, if_pos (room_check.mpr hfits)]
      rfl

section Example

/-- Two pages that are far apart. -/
def distantPages : PaginatedRestProfile where
  toAdmittedRequest := .plain (ascii "/items") [⟨ascii "page", ascii "1"⟩] 1024
    Authentication.items_path_safe (by decide +kernel) (by decide +kernel)
  method := ascii "GET"
  scheme := ascii "https"
  host := ascii "api.example.com"
  port := 443
  pageSize := 10
  pageNumberParameter := ascii "page"
  firstPage := 1
  pageIncrement := 4611686018427387904
  maxPages := 2
  paginationStrategy := .linkHeader
  batchRows := 8
  decodedMemoryBytes := 1024
  retry := ⟨1, 3, 0, 0⟩
  rateLimit := ⟨false, [], .fail, [], [], [], [], [], 1, 1, 0, 0, 0, false⟩
  resources :=
    ⟨⟨1, 1024, 1024, 1024, 10, 1024, 1, 0⟩,
      ⟨2, 2, 2048, 2048, 2048, 20, 1024, 1000, 1, 0, 0, 0, 0⟩⟩

theorem distantPages_admitted : IsAdmitted distantPages :=
  ⟨by decide +kernel, by decide +kernel, by decide⟩

def distantTarget (next : Nat) : Bytes :=
  ascii "https://api.example.com/items?page=" ++ decimal next

/-- The second page is accepted. -/
theorem link_pagination_second :
    ∃ page, validateNextTarget distantPages 1 (distantTarget 4611686018427387905) = .ok page := by
  obtain ⟨-, haccepts, -⟩ := link_pagination distantPages_admitted
  refine (haccepts 1 (distantTarget 4611686018427387905)).mpr ⟨by decide, [],
    [(ascii "page", decimal 4611686018427387905)], Or.inr ⟨rfl, rfl, rfl⟩, by decide, ?_, by decide,
    ?_, by decide +kernel⟩
  · intro field hfield
    rw [List.mem_singleton.mp hfield]
    exact ⟨by decide, by unfold IsPlain; decide +kernel, by unfold IsPlain; decide +kernel⟩
  · exact List.mem_cons_self

/-- Past 64 bits no target is accepted. -/
theorem page_past_range_refused :
    IsAdmitted distantPages ∧ ∃ s : LinkPaginationState,
      ((LinkPaginationState.new distantPages).run distantPages
        [.count 10, .count 10, .count 10]).2 = s ∧
      IsNextTarget distantPages (s.currentPage.toNat + distantPages.pageIncrement.toNat)
        (distantTarget 18446744073709551617) ∧
      ¬∃ page, validateNextTarget distantPages s.currentPage
        (distantTarget 18446744073709551617) = .ok page := by
  refine ⟨distantPages_admitted, _, rfl, ?_, ?_⟩
  · refine ⟨[], [(ascii "page", decimal 18446744073709551617)], Or.inr ⟨rfl, rfl, rfl⟩, by decide,
      ?_,
      by decide, ?_, by decide +kernel⟩
    · intro field hfield
      rw [List.mem_singleton.mp hfield]
      exact ⟨by decide, by unfold IsPlain; decide +kernel, by unfold IsPlain; decide +kernel⟩
    · exact List.mem_cons_self
  · rintro ⟨page, hpage⟩
    have hrefused : validateNextTarget distantPages 13835058055282163713
        (distantTarget 18446744073709551617) = .error outsidePolicy := by decide +kernel
    rw [show (((LinkPaginationState.new distantPages).run distantPages
      [.count 10, .count 10, .count 10]).2).currentPage = 13835058055282163713 by decide +kernel,
      hrefused] at hpage
    cases hpage

end Example

end Cuac.Runtime.Pagination

import Cuac.Runtime.GraphqlPaginatedScan

/-!
# Runtime — how far a cursor leads

`GraphqlCursorState` under every sequence of observed pages. A page is asked for
with the current cursor and its page info is then fed to `Advance`; a state that
refuses the request sends nothing.

Main results:

* `observe_tracked` — what one page does to the state.
* `cursor_pagination` — what any sequence of pages does.
-/

namespace Cuac.Runtime.GraphqlScan

open Cuac.Lib

structure PageInfo where
  hasNext : Bool
  endCursor : Bytes
  deriving DecidableEq, Repr

/-- Everything that can be asked of a cursor state. -/
inductive CursorCall
  | request
  | page (info : PageInfo)
  | fail
  | release
  deriving DecidableEq, Repr

def GraphqlCursorState.call (c : GraphqlCursorState) : CursorCall → GraphqlCursorState
  | .request => c.markRequestStarted.2
  | .page info => (c.advance info.hasNext info.endCursor).2
  | .fail => c.fail
  | .release => c.release

def GraphqlCursorState.calls (c : GraphqlCursorState) (calls : List CursorCall) :
    GraphqlCursorState :=
  calls.foldl GraphqlCursorState.call c

structure CursorScan where
  cursor : GraphqlCursorState
  /-- The cursors of the requests made, `none` where null was sent. -/
  sent : List (Option Bytes)
  deriving DecidableEq, Repr

namespace CursorScan

/-- One page: the request, if the state allows it, and what comes back. -/
def observe (s : CursorScan) (info : PageInfo) : CursorScan :=
  match s.cursor.markRequestStarted with
  | (some _, cursor) => { s with cursor := cursor }
  | (none, cursor) =>
    ⟨(cursor.advance info.hasNext info.endCursor).2, s.sent ++ [s.cursor.currentCursor]⟩

def run (s : CursorScan) (infos : List PageInfo) : CursorScan := infos.foldl observe s

end CursorScan

-- ---------------------------------------------------------------------------
-- The transitions
-- ---------------------------------------------------------------------------

/-- A cursor the state would take: there is one, it is short enough, and new. -/
def Admissible (maxCursorBytes : UInt64) (received : List Bytes) (cursor : Bytes) : Prop :=
  cursor ≠ [] ∧ cursor.length ≤ maxCursorBytes.toNat ∧ cursor ∉ received

/-- A state that has stopped keeps no cursors. -/
def Emptied (c : GraphqlCursorState) : Prop :=
  c.failed = true ∨ c.exhausted = true → c.seen = []

theorem fail_emptied (c : GraphqlCursorState) : Emptied c.fail := fun _ => rfl

/-- The state a request leaves. -/
def GraphqlCursorState.started (c : GraphqlCursorState) : GraphqlCursorState :=
  { c with requestedPages := c.requestedPages + 1 }

theorem markRequestStarted_eq {c : GraphqlCursorState} (hfailed : c.failed = false)
    (hexhausted : c.exhausted = false) :
    c.markRequestStarted =
      if c.requestedPages ≥ c.maxPages then
        c.reject .resourceBudget "GraphQL cursor traversal exceeded its page authority"
      else (none, c.started) := by
  unfold GraphqlCursorState.markRequestStarted GraphqlCursorState.started
  rw [hfailed, hexhausted]
  simp only [Bool.false_or, decide_eq_true_eq]

theorem markRequestStarted_stopped {c : GraphqlCursorState}
    (h : c.failed = true ∨ c.exhausted = true) :
    c.markRequestStarted =
      c.reject .resourceBudget "GraphQL cursor traversal exceeded its page authority" := by
  unfold GraphqlCursorState.markRequestStarted
  rw [if_pos]
  rcases h with h | h <;> simp [h]

theorem advance_stopped {c : GraphqlCursorState} (h : c.failed = true ∨ c.exhausted = true)
    (hasNext : Bool) (cursor : Bytes) :
    c.advance hasNext cursor = c.reject .protocol "GraphQL cursor state cannot advance" := by
  unfold GraphqlCursorState.advance
  rw [if_pos]
  rcases h with h | h <;> simp [h]

/-- Nothing but the mark of failure changes once a state has stopped. -/
theorem call_stopped {c : GraphqlCursorState} (h : c.failed = true ∨ c.exhausted = true)
    (hempty : Emptied c) (call : CursorCall) :
    c.call call = c ∨ c.call call = { c with failed := true } := by
  have hseen := hempty h
  have hfail : c.fail = { c with failed := true } := by
    unfold GraphqlCursorState.fail GraphqlCursorState.release
    rw [hseen]
  cases call with
  | request =>
    refine Or.inr ?_
    rw [GraphqlCursorState.call, markRequestStarted_stopped h]
    exact hfail
  | page info =>
    refine Or.inr ?_
    rw [GraphqlCursorState.call, advance_stopped h]
    exact hfail
  | fail => exact Or.inr hfail
  | release =>
    refine Or.inl ?_
    rw [GraphqlCursorState.call, GraphqlCursorState.release, ← hseen]

/-- However often a stopped state is called. -/
theorem calls_stopped {c : GraphqlCursorState} (h : c.failed = true ∨ c.exhausted = true)
    (hempty : Emptied c) (calls : List CursorCall) :
    c.calls calls = c ∨ c.calls calls = { c with failed := true } := by
  induction calls generalizing c with
  | nil => exact Or.inl rfl
  | cons call rest ih =>
    have hrest : c.calls (call :: rest) = (c.call call).calls rest := rfl
    rw [hrest]
    rcases call_stopped h hempty call with hsame | hmarked
    · rw [hsame]
      exact ih h hempty
    · rw [hmarked]
      have hlater := ih (c := { c with failed := true }) (Or.inl rfl) fun _ => hempty h
      exact Or.inr (hlater.elim id id)

/-- A stopped state asks for no page. -/
theorem stopped_sends_nothing {c : GraphqlCursorState} (h : c.failed = true ∨ c.exhausted = true)
    (hempty : Emptied c) (calls : List CursorCall) :
    (c.calls calls).markRequestStarted.1 ≠ none := by
  have hstopped : (c.calls calls).failed = true ∨ (c.calls calls).exhausted = true := by
    rcases calls_stopped h hempty calls with hsame | hmarked
    · rw [hsame]
      exact h
    · rw [hmarked]
      exact Or.inl rfl
  rw [markRequestStarted_stopped hstopped]
  simp [GraphqlCursorState.reject]

/-- What `Advance` does in the middle of a scan. -/
theorem advance_running {c : GraphqlCursorState} (hfailed : c.failed = false)
    (hexhausted : c.exhausted = false) (hrequested : c.requestedPages ≠ 0)
    (hroom : c.seen.length < 32) (info : PageInfo) :
    (info.hasNext = false ∧ c.advance info.hasNext info.endCursor =
      (none, { c with exhausted := true, seen := [] })) ∨
    (info.hasNext = true ∧ Admissible c.maxCursorBytes c.seen info.endCursor ∧
      c.advance info.hasNext info.endCursor = (none, { c with seen := c.seen ++ [info.endCursor] })) ∨
    (info.hasNext = true ∧ ¬Admissible c.maxCursorBytes c.seen info.endCursor ∧
      ∃ error, c.advance info.hasNext info.endCursor = (some error, c.fail)) := by
  unfold GraphqlCursorState.advance
  rw [hfailed, hexhausted, if_neg (by simpa using hrequested)]
  cases hnext : info.hasNext with
  | false =>
    refine Or.inl ⟨rfl, ?_⟩
    rw [if_pos (by decide)]
    rfl
  | true =>
    rw [if_neg (by decide)]
    by_cases hmissing : info.endCursor = []
    · refine Or.inr (Or.inr ⟨rfl, fun h => h.1 hmissing, ?_⟩)
      rw [if_pos (by rw [hmissing]; rfl)]
      exact ⟨_, rfl⟩
    rw [if_neg (by simpa using hmissing)]
    by_cases hlong : info.endCursor.length > c.maxCursorBytes.toNat
    · refine Or.inr (Or.inr ⟨rfl, fun h => absurd h.2.1 (by omega), ?_⟩)
      rw [if_pos hlong]
      exact ⟨_, rfl⟩
    rw [if_neg hlong]
    by_cases hrepeated : info.endCursor ∈ c.seen
    · refine Or.inr (Or.inr ⟨rfl, fun h => h.2.2 hrepeated, ?_⟩)
      rw [if_pos (by simpa using hrepeated)]
      exact ⟨_, rfl⟩
    rw [if_neg (by simpa using hrepeated), if_neg (by omega)]
    exact Or.inr (Or.inl ⟨rfl, ⟨hmissing, by omega, hrepeated⟩, rfl⟩)

-- ---------------------------------------------------------------------------
-- A scan
-- ---------------------------------------------------------------------------

/-- A scan that has seen these pages. -/
structure Tracked (maxPages maxCursorBytes : UInt64) (infos : List PageInfo) (s : CursorScan) :
    Prop where
  pageLimit : s.cursor.maxPages = maxPages
  byteLimit : s.cursor.maxCursorBytes = maxCursorBytes
  pages : maxPages ≤ 32
  count : s.cursor.requestedPages.toNat = s.sent.length
  bound : s.sent.length ≤ maxPages.toNat
  sent : s.sent <+: none :: infos.map fun info => some info.endCursor
  distinct : s.sent.Nodup
  promised : ∀ info ∈ infos.take (s.sent.length - 1), info.hasNext = true
  emptied : Emptied s.cursor
  running : s.cursor.failed = false → s.cursor.exhausted = false →
    s.sent ++ [s.cursor.currentCursor] = none :: infos.map (fun info => some info.endCursor) ∧
      s.cursor.seen = infos.map PageInfo.endCursor ∧ s.cursor.seen.Nodup ∧
      ∀ info ∈ infos, info.hasNext = true

variable {maxPages maxCursorBytes : UInt64} {infos : List PageInfo} {s : CursorScan}

/-- The requests made are those of the pages so far; another page changes none of them. -/
theorem Tracked.refused (h : Tracked maxPages maxCursorBytes infos s) (info : PageInfo) :
    Tracked maxPages maxCursorBytes (infos ++ [info]) { s with cursor := s.cursor.fail } := by
  refine ⟨h.pageLimit, h.byteLimit, h.pages, h.count, h.bound, ?_, h.distinct, ?_,
    fail_emptied _, fun hfailed => (nomatch hfailed)⟩
  · rw [List.map_append, ← List.cons_append]
    exact h.sent.trans (List.prefix_append _ _)
  · have hlength := h.sent.length_le
    rw [List.length_cons, List.length_map] at hlength
    intro other hother
    have hother : other ∈ (infos ++ [info]).take (s.sent.length - 1) := hother
    rw [List.take_append_of_le_length (by omega)] at hother
    exact h.promised other hother

/-- In the middle of a scan every page was asked for once. -/
theorem Tracked.requests (h : Tracked maxPages maxCursorBytes infos s)
    (hfailed : s.cursor.failed = false) (hexhausted : s.cursor.exhausted = false) :
    s.sent.length = infos.length := by
  have hlength := congrArg List.length (h.running hfailed hexhausted).1
  simp only [List.length_append, List.length_cons, List.length_nil, List.length_map] at hlength
  omega

/-- A request in the middle of a scan, with the state `Advance` leaves. -/
theorem Tracked.requested {c : GraphqlCursorState} (h : Tracked maxPages maxCursorBytes infos s)
    (hfailed : s.cursor.failed = false) (hexhausted : s.cursor.exhausted = false)
    (hroom : s.cursor.requestedPages < s.cursor.maxPages) (info : PageInfo)
    (hpages : c.maxPages = s.cursor.maxPages) (hbytes : c.maxCursorBytes = s.cursor.maxCursorBytes)
    (hcount : c.requestedPages = s.cursor.requestedPages + 1) (hemptied : Emptied c)
    (hrunning : c.failed = false → c.exhausted = false → info.hasNext = true ∧
      c.seen = s.cursor.seen ++ [info.endCursor] ∧ info.endCursor ∉ s.cursor.seen) :
    Tracked maxPages maxCursorBytes (infos ++ [info])
      ⟨c, s.sent ++ [s.cursor.currentCursor]⟩ := by
  obtain ⟨hsent, hseen, hnodup, hpromised⟩ := h.running hfailed hexhausted
  have hlength := h.requests hfailed hexhausted
  have hroom : s.cursor.requestedPages.toNat < maxPages.toNat := by
    rw [← h.pageLimit]
    exact UInt64.lt_iff_toNat_lt.mp hroom
  have hcap : maxPages.toNat ≤ 32 := UInt64.le_iff_toNat_le.mp h.pages
  refine ⟨hpages.trans h.pageLimit, hbytes.trans h.byteLimit, h.pages, ?_, ?_, ?_, ?_, ?_,
    hemptied, ?_⟩
  · have hnext : (s.cursor.requestedPages + 1).toNat = s.cursor.requestedPages.toNat + 1 := by
      rw [UInt64.toNat_add]
      exact Nat.mod_eq_of_lt (by simp; omega)
    rw [hcount, hnext, h.count, List.length_append]
    rfl
  · rw [List.length_append]
    have hcount := h.count
    simp only [List.length_singleton]
    omega
  · rw [hsent, List.map_append, ← List.cons_append]
    exact List.prefix_append _ _
  · rw [hsent, List.nodup_cons]
    refine ⟨by simp, ?_⟩
    rw [hseen] at hnodup
    rw [show infos.map (fun info => some info.endCursor) =
      (infos.map PageInfo.endCursor).map some by rw [List.map_map]; rfl]
    exact hnodup.map fun _ _ heq => Option.some.inj heq
  · rw [List.length_append, List.length_singleton, Nat.add_sub_cancel, hlength,
      List.take_left']
    · exact hpromised
    · rfl
  · intro hfailed' hexhausted'
    obtain ⟨hnext, hseen', hnew⟩ := hrunning hfailed' hexhausted'
    refine ⟨?_, ?_, ?_, ?_⟩
    · rw [hsent, List.map_append, List.cons_append]
      have hcurrent : c.currentCursor = some info.endCursor := by
        unfold GraphqlCursorState.currentCursor
        rw [hfailed', hexhausted', hseen']
        simp
      rw [hcurrent]
      rfl
    · rw [hseen', hseen, List.map_append]
      rfl
    · rw [hseen']
      exact List.nodup_append.mpr ⟨hnodup, List.nodup_singleton _, fun a ha b hb heq =>
        hnew (by rw [← List.mem_singleton.mp hb, ← heq]; exact ha)⟩
    · intro other hother
      rcases List.mem_append.mp hother with hold | hlast
      · exact hpromised other hold
      · rw [List.mem_singleton.mp hlast]
        exact hnext

/-- A request that may be made is not the first of too many. -/
theorem Tracked.started (h : Tracked maxPages maxCursorBytes infos s)
    (hfailed : s.cursor.failed = false) (hexhausted : s.cursor.exhausted = false)
    (hroom : s.cursor.requestedPages < s.cursor.maxPages) :
    s.cursor.requestedPages + 1 ≠ 0 ∧ s.cursor.seen.length < 32 := by
  have hcap : maxPages.toNat ≤ 32 := UInt64.le_iff_toNat_le.mp h.pages
  have hroom : s.cursor.requestedPages.toNat < maxPages.toNat := by
    rw [← h.pageLimit]
    exact UInt64.lt_iff_toNat_lt.mp hroom
  constructor
  · intro hzero
    have hzero := congrArg UInt64.toNat hzero
    rw [UInt64.toNat_add, Nat.mod_eq_of_lt (by simp; omega)] at hzero
    simp at hzero
  · rw [(h.running hfailed hexhausted).2.1, List.length_map, ← h.requests hfailed hexhausted,
      ← h.count]
    omega

theorem observe_tracked (h : Tracked maxPages maxCursorBytes infos s) (info : PageInfo) :
    Tracked maxPages maxCursorBytes (infos ++ [info]) (s.observe info) := by
  unfold CursorScan.observe
  by_cases hstopped : s.cursor.failed = true ∨ s.cursor.exhausted = true
  · rw [markRequestStarted_stopped hstopped]
    exact h.refused info
  · have hfailed : s.cursor.failed = false := by simpa using fun h => hstopped (Or.inl h)
    have hexhausted : s.cursor.exhausted = false := by simpa using fun h => hstopped (Or.inr h)
    rw [markRequestStarted_eq hfailed hexhausted]
    by_cases hover : s.cursor.requestedPages ≥ s.cursor.maxPages
    · rw [if_pos hover]
      exact h.refused info
    · rw [if_neg hover]
      have hroom : s.cursor.requestedPages < s.cursor.maxPages := UInt64.not_le.mp hover
      obtain ⟨hstarted, hspace⟩ := h.started hfailed hexhausted hroom
      have hadvance := advance_running (c := s.cursor.started) hfailed hexhausted hstarted hspace
        info
      dsimp only
      rcases hadvance with ⟨-, hlast⟩ | ⟨hnext, hadmissible, haccepted⟩ | ⟨-, -, error, hrejected⟩
      · rw [hlast]
        exact h.requested hfailed hexhausted hroom info rfl rfl rfl (fun _ => rfl)
          fun _ hrunning => (nomatch hrunning)
      · rw [haccepted]
        refine h.requested hfailed hexhausted hroom info rfl rfl rfl (fun hstop => ?_)
          fun _ _ => ⟨hnext, rfl, hadmissible.2.2⟩
        exact absurd hstop hstopped
      · rw [hrejected]
        exact h.requested hfailed hexhausted hroom info rfl rfl rfl (fail_emptied _)
          fun hrunning => (nomatch hrunning)

theorem run_tracked (h : Tracked maxPages maxCursorBytes infos s) (later : List PageInfo) :
    Tracked maxPages maxCursorBytes (infos ++ later) (s.run later) := by
  induction later generalizing infos s with
  | nil =>
    rw [List.append_nil]
    exact h
  | cons info rest ih =>
    rw [show infos ++ info :: rest = (infos ++ [info]) ++ rest by simp]
    exact ih (observe_tracked h info)

theorem new_tracked {c : GraphqlCursorState}
    (hnew : GraphqlCursorState.new maxPages maxCursorBytes = .ok c) :
    Tracked maxPages maxCursorBytes [] ⟨c, []⟩ := by
  unfold GraphqlCursorState.new at hnew
  split at hnew
  · cases hnew
  · rename_i hvalid
    have hpages : maxPages ≤ 32 := by
      simp only [Bool.or_eq_true, decide_eq_true_eq, not_or] at hvalid
      exact UInt64.not_lt.mp hvalid.1.1.2
    rw [← Except.ok.inj hnew]
    refine ⟨rfl, rfl, hpages, rfl, Nat.zero_le _, List.nil_prefix, List.nodup_nil, ?_,
      fun _ => rfl, fun _ _ => ⟨rfl, rfl, List.nodup_nil, ?_⟩⟩
    · intro info hinfo
      cases hinfo
    · intro info hinfo
      cases hinfo

/-- Without an admissible cursor a page that promises another one ends in failure. -/
theorem Tracked.fails (h : Tracked maxPages maxCursorBytes infos s)
    (hfailed : s.cursor.failed = false) (hexhausted : s.cursor.exhausted = false)
    {info : PageInfo} (hnext : info.hasNext = true)
    (hcursor : ¬Admissible maxCursorBytes (infos.map PageInfo.endCursor) info.endCursor) :
    (s.observe info).cursor.failed = true ∧ (s.observe info).cursor.exhausted = false := by
  unfold CursorScan.observe
  rw [markRequestStarted_eq hfailed hexhausted]
  by_cases hover : s.cursor.requestedPages ≥ s.cursor.maxPages
  · rw [if_pos hover]
    exact ⟨rfl, hexhausted⟩
  · rw [if_neg hover]
    have hroom : s.cursor.requestedPages < s.cursor.maxPages := UInt64.not_le.mp hover
    obtain ⟨hstarted, hspace⟩ := h.started hfailed hexhausted hroom
    have hadvance := advance_running (c := s.cursor.started) hfailed hexhausted hstarted hspace
      info
    dsimp only
    rcases hadvance with ⟨hlast, -⟩ | ⟨-, hadmissible, -⟩ | ⟨-, -, error, hrejected⟩
    · rw [hnext] at hlast
      cases hlast
    · refine absurd ?_ hcursor
      rw [← h.byteLimit, ← (h.running hfailed hexhausted).2.1]
      exact hadmissible
    · rw [hrejected]
      exact ⟨rfl, hexhausted⟩

/-- The cursors of a scan: what is sent, how often, and how it stops. -/
theorem cursor_pagination {maxPages maxCursorBytes : UInt64} {c : GraphqlCursorState}
    (hnew : GraphqlCursorState.new maxPages maxCursorBytes = .ok c) (infos : List PageInfo) :
    let s := CursorScan.run ⟨c, []⟩ infos
    s.sent.Nodup ∧
    s.sent <+: none :: infos.map (fun info => some info.endCursor) ∧
    (∀ info ∈ infos.take (s.sent.length - 1), info.hasNext = true) ∧
    s.sent.length ≤ maxPages.toNat ∧
    (s.cursor.failed = false → s.cursor.exhausted = false → ∀ info : PageInfo,
      info.hasNext = true →
      ¬Admissible maxCursorBytes (infos.map PageInfo.endCursor) info.endCursor →
      (s.observe info).cursor.failed = true ∧ (s.observe info).cursor.exhausted = false) ∧
    (s.cursor.failed = true → ∀ calls, s.cursor.calls calls = s.cursor) ∧
    (s.cursor.exhausted = true → ∀ calls,
      s.cursor.calls calls = s.cursor ∨
        s.cursor.calls calls = { s.cursor with failed := true }) ∧
    (s.cursor.failed = true ∨ s.cursor.exhausted = true → ∀ calls,
      (s.cursor.calls calls).markRequestStarted.1 ≠ none) := by
  intro s
  have h : Tracked maxPages maxCursorBytes infos s := run_tracked (new_tracked hnew) infos
  refine ⟨h.distinct, h.sent, h.promised, h.bound, fun hfailed hexhausted info hnext hcursor =>
    h.fails hfailed hexhausted hnext hcursor, fun hfailed calls => ?_,
    fun hexhausted calls => calls_stopped (Or.inr hexhausted) h.emptied calls,
    fun hstopped calls => stopped_sends_nothing hstopped h.emptied calls⟩
  rcases calls_stopped (Or.inl hfailed) h.emptied calls with hsame | hmarked
  · exact hsame
  · rw [hmarked, ← hfailed]

/-- The second cursor repeats the first one: two requests are made, and the scan fails. -/
theorem cursor_pagination_repeated :
    GraphqlCursorState.new 3 512 = .ok ⟨3, 512, 0, false, false, []⟩ ∧
    CursorScan.run ⟨⟨3, 512, 0, false, false, []⟩, []⟩ [⟨true, [0x61]⟩, ⟨true, [0x61]⟩] =
      ⟨⟨3, 512, 2, false, true, []⟩, [none, some [0x61]]⟩ ∧
    ∀ calls, GraphqlCursorState.calls ⟨3, 512, 2, false, true, []⟩ calls =
      ⟨3, 512, 2, false, true, []⟩ := by
  have hnew : GraphqlCursorState.new 3 512 = .ok ⟨3, 512, 0, false, false, []⟩ := by decide
  have hrun : CursorScan.run ⟨⟨3, 512, 0, false, false, []⟩, []⟩
      [⟨true, [0x61]⟩, ⟨true, [0x61]⟩] = ⟨⟨3, 512, 2, false, true, []⟩, [none, some [0x61]]⟩ := by
    decide
  obtain ⟨-, -, -, -, -, hfailed, -⟩ :=
    cursor_pagination hnew [⟨true, [0x61]⟩, ⟨true, [0x61]⟩]
  rw [hrun] at hfailed
  exact ⟨hnew, hrun, hfailed rfl⟩

/-- A request after the last page marks the exhausted state as failed. -/
theorem exhausted_cursor_marked :
    ∃ c, GraphqlCursorState.new 1 512 = .ok c ∧
      (CursorScan.run ⟨c, []⟩ [⟨false, []⟩]).cursor.exhausted = true ∧
      (CursorScan.run ⟨c, []⟩ [⟨false, []⟩]).cursor.call .request ≠
        (CursorScan.run ⟨c, []⟩ [⟨false, []⟩]).cursor := by
  refine ⟨⟨1, 512, 0, false, false, []⟩, ?_⟩
  decide

end Cuac.Runtime.GraphqlScan

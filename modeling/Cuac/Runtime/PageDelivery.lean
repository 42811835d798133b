import Cuac.Runtime.PaginatedScan

/-!
# Runtime — what a paginated stream delivers

Over every sequence of calls: the requests, pages and batches of a stream are
`Orderly`, its page number is the one the accepted pages lead to, and a failed
`Next` is the last event it has.

Inside a pull the stream is `Idle`, with everything handed on and every page so
far promising another, or `Loaded`, with the rest of one page at hand. Whatever
is thrown leaves only `Based` behind, and `remember` ends the stream there.

Main results:

* `pull_yields` — what one pull does.
* `paginated_stream_delivery` — what any sequence of calls does.
-/

namespace Cuac.Runtime.Pagination

open Cuac.Lib
open Cuac.Lib.Paging
open Cuac.Lib.Throwing
open Cuac.Runtime.Resilience

variable {ι ν : Type}

-- ---------------------------------------------------------------------------
-- The discipline of the stream
-- ---------------------------------------------------------------------------

/-- A page is a successful response to the request of that page, decoded, and
goes on if the declared signal says so. -/
def Accepts (config : PageScanConfig ι ν) (a : Attempt ι PageRequest) (page : AcceptedPage ν) :
    Prop :=
  page.page = a.request.page ∧ ∃ response memory decoded staged nextPage,
    a.transfer = .response response ∧ response.status = 200 ∧
    config.decodeJsonPage response.body memory = .ok decoded ∧ decoded.rows = page.rows ∧
    (stagePagination config response decoded staged).1 = .ok ⟨page.hasNext, nextPage⟩

def pageRules (config : PageScanConfig ι ν) :
    Rules (Attempt ι PageRequest) (AcceptedPage ν) ν where
  rows := AcceptedPage.rows
  mayRequest pages a :=
    (∀ page ∈ pages, page.hasNext = true) ∧
      a.request.page.toNat =
        config.profile.firstPage.toNat + pages.length * config.profile.pageIncrement.toNat
  answers := Accepts config
  batchRows := config.profile.batchRows.toNat

/-- Every page has been handed on, and the last one promises no other. -/
def Finished (config : PageScanConfig ι ν)
    (trace : List (Event (Attempt ι PageRequest) (AcceptedPage ν) ν)) : Prop :=
  (∃ earlier last, acceptedOf trace = earlier ++ [last] ∧ last.hasNext = false) ∧
    handedOn trace = (pageRules config).given trace

/-- What holds at all times. -/
structure Based (config : PageScanConfig ι ν) (s : PageStream ι ν) : Prop where
  sound : Sound s.controller.ledger
  orderly : Orderly (pageRules config) s.trace
  position : s.pagination.currentPage.toNat =
    config.profile.firstPage.toNat +
      (acceptedOf s.trace).countP AcceptedPage.hasNext * config.profile.pageIncrement.toNat

/-- No page at hand, and another one promised. -/
structure Idle (config : PageScanConfig ι ν) (s : PageStream ι ν) : Prop
    extends Based config s where
  unloaded : s.pageLoaded = false
  promised : ∀ page ∈ acceptedOf s.trace, page.hasNext = true
  handed : handedOn s.trace = (pageRules config).given s.trace

/-- A page at hand, from `offset` on. -/
structure Loaded (config : PageScanConfig ι ν) (s : PageStream ι ν) : Prop
    extends Based config s where
  loaded : s.pageLoaded = true
  promised : ∃ earlier last, acceptedOf s.trace = earlier ++ [last] ∧
    (∀ page ∈ earlier, page.hasNext = true) ∧ last.hasNext = s.pageHasNext
  rest : handedOn s.trace ++ s.decoded.drop s.offset = (pageRules config).given s.trace

def Live (config : PageScanConfig ι ν) (s : PageStream ι ν) : Prop :=
  Idle config s ∨ Loaded config s

/-- The flags are as they were, and nothing was handed out. -/
structure Steady (s s' : PageStream ι ν) : Prop where
  cancelled : s'.cancelled = s.cancelled
  closed : s'.closed = s.closed
  terminalException : s'.terminalException = s.terminalException
  exhausted : s'.exhausted = s.exhausted
  delivered : deliveredOf s'.trace = deliveredOf s.trace

theorem Steady.refl (s : PageStream ι ν) : Steady s s := ⟨rfl, rfl, rfl, rfl, rfl⟩

theorem Steady.trans {s₁ s₂ s₃ : PageStream ι ν} (h : Steady s₁ s₂) (h' : Steady s₂ s₃) :
    Steady s₁ s₃ :=
  ⟨h'.cancelled.trans h.cancelled, h'.closed.trans h.closed,
    h'.terminalException.trans h.terminalException, h'.exhausted.trans h.exhausted,
    h'.delivered.trans h.delivered⟩

/-- How a statement of a pull that started from `s₀` may stop it. -/
def Halted (config : PageScanConfig ι ν) (s₀ : PageStream ι ν) (halt : PullHalt)
    (s : PageStream ι ν) : Prop :=
  Based config s ∧ Steady s₀ s ∧ (halt = .unfinished → Live config s)

variable {config : PageScanConfig ι ν} {s₀ s : PageStream ι ν}

theorem Based.halted {error : PageError} (h : Based config s) (hsteady : Steady s₀ s) :
    Halted config s₀ (.threw error) s :=
  ⟨h, hsteady, fun hunfinished => (nomatch hunfinished)⟩

-- ---------------------------------------------------------------------------
-- The small statements
-- ---------------------------------------------------------------------------

section Statements

variable {α : Type} {Q : Unit → PageStream ι ν → Prop} {E : PullHalt → PageStream ι ν → Prop}

@[simp] theorem yields_pullFail {error : PageError} {Q : α → PageStream ι ν → Prop} :
    Yields (Pull.fail error : Pull ι ν α) s Q E ↔ E (.threw error) s := Iff.rfl

@[simp] theorem yields_pullFailWhen {bad : Bool} {error : PageError} :
    Yields (Pull.failWhen bad error) s Q E ↔
      (bad = true → E (.threw error) s) ∧ (bad = false → Q () s) := yields_throwWhen

@[simp] theorem yields_pullGuardedBy {raise? : Option LocalRaise} :
    Yields (Pull.guardedBy raise?) s Q E ↔
      (∀ raise, raise? = some raise → E (.threw (.callee raise)) s) ∧
        (raise? = none → Q () s) := by
  cases raise? <;> simp [Pull.guardedBy]

/-- The state a charge leaves, whether it throws or not. -/
def PageStream.charged (s : PageStream ι ν) (c : LedgerCall) : PageStream ι ν :=
  { s with controller := { s.controller with ledger := (s.controller.ledger.call c).2 } }

theorem yields_pullCharge {c : LedgerCall} :
    Yields (Pull.charge c) s Q E ↔
      ((s.controller.ledger.call c).1 = none → Q () (s.charged c)) ∧
      ∀ error, (s.controller.ledger.call c).1 = some error →
        E (.threw (.ledger error)) (s.charged c) := by
  unfold Pull.charge
  simp only [yields_bind, yields_get]
  cases hcall : s.controller.ledger.call c with
  | mk error ledger =>
    cases error with
    | none => simp [PageStream.charged, hcall]
    | some error => simp [PageStream.charged, hcall]

end Statements

theorem Based.charge {c : LedgerCall} (h : Based config s) : Based config (s.charged c) :=
  { h with sound := ((call_effect h.sound c).sound h.sound).1 }

-- ---------------------------------------------------------------------------
-- Fetching a page
-- ---------------------------------------------------------------------------

theorem requestFactory_page {page : UInt64} {request : HttpRequest PageRequest}
    (h : config.requestFactory page = .ok request) : request.content.page = page := by
  unfold PageScanConfig.requestFactory at h
  simp only [bind_eq_ok] at h
  obtain ⟨built, hbuilt, hrequest⟩ := h
  have hpage : built.page = page := by
    unfold PaginatedRestProfile.buildPageRequest at hbuilt
    split at hbuilt
    · rw [← Except.ok.inj hbuilt]
    · cases hbuilt
  split at hrequest
  · cases hrequest
  · rw [← Except.ok.inj hrequest]
    exact hpage

/-- The step of a page has been answered by this attempt. -/
structure Fetched (config : PageScanConfig ι ν) (page : UInt64) (returned : RetriedHttpResponse)
    (a : Attempt ι PageRequest) (s : PageStream ι ν) : Prop extends Idle config s where
  current : s.pagination.currentPage = page
  asked : ∃ earlier, s.trace = earlier ++ [.requested a]
  page : a.request.page = page
  answered : ∃ response linkBytes, a.transfer = .response response ∧
    returned.response = discardRateLimitMetadata linkBytes response

/-- Every attempt of a page's step asks for that page; nothing else changes. -/
theorem Idle.requestAll {controller : Controller ι PageRequest} (h : Idle config s)
    (hsound : Sound controller.ledger)
    (hasked : ∀ a ∈ attemptsOf controller.log, a.request.page = s.pagination.currentPage) :
    let s' := { s with
      controller := controller
      trace := s.trace ++ (attemptsOf controller.log).map .requested }
    Idle config s' ∧ Steady s s' := by
  have hcount : (acceptedOf s.trace).countP AcceptedPage.hasNext = (acceptedOf s.trace).length :=
    List.countP_eq_length.mpr h.promised
  have hposition := h.position
  rw [hcount] at hposition
  obtain ⟨horderly, haccepted, hdelivered⟩ :=
    h.orderly.requestAll (attemptsOf controller.log)
      (fun a ha => ⟨h.promised, by rw [hasked a ha]; exact hposition⟩) h.handed
  refine ⟨⟨⟨hsound, horderly, ?_⟩, h.unloaded, ?_, ?_⟩, ⟨rfl, rfl, rfl, rfl, hdelivered⟩⟩
  · show s.pagination.currentPage.toNat = _
    rw [haccepted]
    exact h.position
  · rw [haccepted]
    exact h.promised
  · rw [handedOn, Rules.given, haccepted, hdelivered]
    exact h.handed

theorem executePageStep_yields {env : PullEnv} (h : Idle config s) :
    Yields (executePageStep config env) s
      (fun returned s' => Steady s s' ∧
        ∃ a, Fetched config s.pagination.currentPage returned a s')
      (Halted config s) := by
  obtain ⟨⟨settled, pending, htracked⟩, hanswered, -⟩ :=
    executeHttpStepWithRetry_ended (config.stepConfig s.pagination.currentPage) env.beginAt
      env.turns h.sound
  unfold Yields executePageStep
  cases hrun : executeHttpStepWithRetry (config.stepConfig s.pagination.currentPage) env.beginAt
    env.turns s.controller with
  | mk result controller =>
    rw [hrun] at htracked hanswered
    have hasked : ∀ a ∈ attemptsOf controller.log, a.request.page = s.pagination.currentPage := by
      intro a ha
      obtain ⟨limit, request, hrequest, hcontent⟩ := htracked.requested a ha
      rw [hcontent]
      exact requestFactory_page hrequest
    obtain ⟨hidle, hsteady⟩ := h.requestAll (htracked.sound h.sound).1 hasked
    cases result with
    | ok returned =>
      obtain ⟨earlier, a, response, linkBytes, hattempts, htransfer, hreturned⟩ :=
        hanswered returned rfl
      refine ⟨hsteady, a, hidle, rfl, ⟨s.trace ++ earlier.map .requested, ?_⟩, hasked a ?_,
        ⟨response, linkBytes, htransfer, hreturned⟩⟩
      · have hattempts : attemptsOf controller.log = earlier ++ [a] := hattempts
        simp [hattempts]
      · have hattempts : attemptsOf controller.log = earlier ++ [a] := hattempts
        simp [hattempts]
    | error halt =>
      cases halt with
      | threw error => exact hidle.toBased.halted hsteady
      | unfinished => exact ⟨hidle.toBased, hsteady, fun _ => Or.inl hidle⟩

theorem stagePagination_follows {response : Resilience.HttpResponse} {decoded : JsonPage ν}
    {pagination staged : LinkPaginationState} {transition : LinkPageTransition}
    (h : stagePagination config response decoded pagination = (.ok transition, staged)) :
    pagination.Follows config.profile transition staged := by
  unfold stagePagination at h
  split at h
  · exact LinkPaginationState.advanceBody_follows h
  · exact LinkPaginationState.advanceByCount_follows h
  · exact LinkPaginationState.advance_follows h

/-- The state with a page installed behind its request. -/
theorem Fetched.install {page : UInt64} {returned : RetriedHttpResponse}
    {a : Attempt ι PageRequest} {decoded : JsonPage ν} {memory : UInt64}
    {transition : LinkPageTransition} {staged : LinkPaginationState}
    {controller : Controller ι PageRequest}
    (h : Fetched config page returned a s) (hsound : Sound controller.ledger)
    (hstatus : returned.response.status = 200)
    (hdecoded : config.decodeJsonPage returned.response.body memory = .ok decoded)
    (hstaged : stagePagination config returned.response decoded s.pagination =
      (.ok transition, staged)) :
    Loaded config { s with
      controller := controller
      decoded := decoded.rows
      pagination := staged
      offset := 0
      pageHasNext := transition.hasNext
      pageLoaded := true
      trace := s.trace ++
        [.accepted ⟨s.pagination.currentPage, decoded.rows, transition.hasNext⟩] } := by
  obtain ⟨response, linkBytes, htransfer, hreturned⟩ := h.answered
  obtain ⟨earlier, htrace⟩ := h.asked
  have hfollows := stagePagination_follows hstaged
  have haccepts : Accepts config a
      ⟨s.pagination.currentPage, decoded.rows, transition.hasNext⟩ := by
    refine ⟨h.current.trans h.page.symm, response, memory, decoded, s.pagination,
      transition.nextPage, htransfer, ?_, ?_, rfl, ?_⟩
    · rw [hreturned] at hstatus
      exact hstatus
    · rw [hreturned] at hdecoded
      exact hdecoded
    · rw [hreturned] at hstaged
      exact congrArg Prod.fst hstaged
  refine ⟨⟨hsound, h.orderly.accept ⟨earlier, a, htrace, haccepts⟩, ?_⟩, rfl, ?_, ?_⟩
  · -- the page moves on exactly when another one is promised
    have hposition := h.position
    have hcount (page : AcceptedPage ν) :
        (acceptedOf (s.trace ++ [.accepted page])).countP AcceptedPage.hasNext =
          (acceptedOf s.trace).countP AcceptedPage.hasNext + page.hasNext.toNat := by
      rw [acceptedOf_concat, List.countP_append]
      show _ + [page].countP AcceptedPage.hasNext = _
      rw [List.countP_singleton]
      cases page.hasNext <;> rfl
    show staged.currentPage.toNat = _
    rw [hcount]
    cases hnext : transition.hasNext with
    | true =>
      rw [hfollows.moved hnext, hposition, Bool.toNat_true, Nat.add_mul, Nat.one_mul]
      omega
    | false =>
      rw [hfollows.stayed hnext, hposition]
      rfl
  · exact ⟨acceptedOf s.trace, _, acceptedOf_concat _ _, h.promised, rfl⟩
  · simp only [handedOn, Rules.given, deliveredOf_concat, acceptedOf_concat, Event.batch?,
      Event.page?, Option.toList_none, Option.toList_some, List.append_nil, List.flatMap_append,
      List.flatMap_singleton, List.drop_zero]
    exact congrArg (· ++ decoded.rows) h.handed

theorem installPage_yields {page : UInt64} {returned : RetriedHttpResponse}
    {a : Attempt ι PageRequest} {decoded : JsonPage ν} {metadataBytes memory : UInt64}
    (h : Fetched config page returned a s) (hsteady : Steady s₀ s)
    (hstatus : returned.response.status = 200)
    (hdecoded : config.decodeJsonPage returned.response.body memory = .ok decoded) :
    Yields (installPage decoded metadataBytes
        (stagePagination config returned.response decoded s.pagination)) s
      (fun _ s' => Loaded config s' ∧ Steady s₀ s') (Halted config s₀) := by
  cases hstaged : stagePagination config returned.response decoded s.pagination with
  | mk result staged =>
    cases result with
    | error error => exact h.toBased.halted hsteady
    | ok transition =>
      unfold installPage
      rw [yields_bind, yields_pullCharge]
      have hcharged := h.toBased.charge (c := .commitDecodedPage
        ⟨decoded.rows.length.toUInt64, decoded.retainedMemoryBytes + metadataBytes⟩)
      refine ⟨fun _ => ⟨h.install hcharged.sound hstatus hdecoded hstaged, ?_⟩, fun _ _ => ?_⟩
      · refine ⟨hsteady.cancelled, hsteady.closed, hsteady.terminalException, hsteady.exhausted, ?_⟩
        show deliveredOf (s.trace ++ [_]) = _
        rw [deliveredOf_concat]
        exact (List.append_nil _).trans hsteady.delivered
      · exact hcharged.halted { hsteady with }

theorem checkStatus_yields {response : Resilience.HttpResponse} (h : Based config s)
    (hsteady : Steady s₀ s) :
    Yields (checkStatus response) s (fun _ s' => s' = s ∧ response.status = 200)
      (Halted config s₀) := by
  simp only [checkStatus, yields_bind, yields_pullFailWhen, bne_eq_false_iff_eq]
  exact ⟨fun _ => h.halted hsteady, fun _ => ⟨fun _ => h.halted hsteady, fun _ =>
    ⟨fun _ => h.halted hsteady, fun hstatus => ⟨trivial, hstatus⟩⟩⟩⟩

theorem fetchPage_yields {env : PullEnv} (h : Idle config s) :
    Yields (fetchPage config env) s (fun _ s' => Loaded config s' ∧ Steady s s')
      (Halted config s) := by
  unfold fetchPage
  refine (executePageStep_yields h).bind ?_
  rintro returned s₁ ⟨hsteady, a, hfetched⟩
  have hbased := hfetched.toBased
  rw [yields_bind, yields_pullGuardedBy]
  refine ⟨fun _ _ => hbased.halted hsteady, fun _ => ?_⟩
  refine (checkStatus_yields hbased hsteady).bind ?_
  rintro _ s₂ ⟨rfl, hstatus⟩
  simp only [yields_bind, yields_pullFailWhen, yields_pullGuardedBy]
  refine ⟨fun _ => hbased.halted hsteady, fun _ => ⟨fun _ _ => hbased.halted hsteady, fun _ =>
    ⟨fun _ _ => hbased.halted hsteady, fun _ => ?_⟩⟩⟩
  unfold decodePage
  cases hdecoded : config.decodeJsonPage returned.response.body
    (returned.allowance.decodedMemoryBytes - returned.response.metadata.retainedBytes) with
  | error raise => exact hbased.halted hsteady
  | ok decoded =>
    simp only [yields_pure]
    refine ⟨fun _ _ => hbased.halted hsteady, fun _ => ?_⟩
    rw [yields_get]
    exact installPage_yields hfetched hsteady hstatus hdecoded

-- ---------------------------------------------------------------------------
-- A pull
-- ---------------------------------------------------------------------------

theorem Live.toBased (h : Live config s) : Based config s := by
  rcases h with h | h
  · exact h.toBased
  · exact h.toBased

theorem checkState_yields {env : PullEnv} (h : Live config s) (hsteady : Steady s₀ s) :
    Yields (checkState env) s (fun _ s' => s' = s) (Halted config s₀) := by
  simp only [checkState, yields_bind, yields_get, yields_pullFailWhen]
  exact ⟨fun _ => h.toBased.halted hsteady, fun _ => ⟨fun _ => h.toBased.halted hsteady,
    fun _ => trivial⟩⟩

/-- A batch is handed out of the page at hand. -/
structure Handed (config : PageScanConfig ι ν) (s₀ : PageStream ι ν) (batch : List ν)
    (s : PageStream ι ν) : Prop where
  loaded : Loaded config s
  cancelled : s.cancelled = s₀.cancelled
  closed : s.closed = s₀.closed
  terminalException : s.terminalException = s₀.terminalException
  exhausted : s.exhausted = s₀.exhausted
  delivered : deliveredOf s.trace = deliveredOf s₀.trace ++ [batch]

theorem produceBatch_yields {env : PullEnv} (h : Loaded config s) (hsteady : Steady s₀ s) :
    Yields (produceBatch config env) s
      (fun returned s' => ∃ batch, returned = some batch ∧ Handed config s₀ batch s')
      (Halted config s₀) := by
  have hhalted {error : PageError} : Halted config s₀ (.threw error) s := h.toBased.halted hsteady
  simp only [produceBatch, yields_bind, yields_pullGuardedBy, yields_get, yields_pullFailWhen,
    yields_modify, yields_pure]
  refine ⟨fun _ _ => hhalted, fun _ => ⟨fun _ => hhalted, fun hcount =>
    ⟨fun _ _ => hhalted, fun _ => ⟨_, rfl, ?_⟩⟩⟩⟩
  have hpositive : min (s.decoded.length - s.offset) config.profile.batchRows.toNat ≠ 0 := by
    simpa using hcount
  generalize hn : min (s.decoded.length - s.offset) config.profile.batchRows.toNat = count at *
  have hlength : ((s.decoded.drop s.offset).take count).length = count := by
    rw [List.length_take, List.length_drop]
    omega
  have hbatch : (s.decoded.drop s.offset).take count ≠ [] ∧
      ((s.decoded.drop s.offset).take count).length ≤ (pageRules config).batchRows := by
    constructor
    · intro hnil
      rw [hnil] at hlength
      exact hpositive hlength.symm
    · rw [hlength]
      show count ≤ config.profile.batchRows.toNat
      omega
  have hsplit : (s.decoded.drop s.offset).take count ++ s.decoded.drop (s.offset + count) =
      s.decoded.drop s.offset := by
    rw [← List.drop_drop]
    exact List.take_append_drop _ _
  have hrows : handedOn s.trace ++ (s.decoded.drop s.offset).take count ++
      s.decoded.drop (s.offset + count) = (pageRules config).given s.trace := by
    rw [List.append_assoc, hsplit]
    exact h.rest
  refine ⟨⟨⟨h.sound, h.orderly.deliver hbatch hrows, ?_⟩, h.loaded, ?_, ?_⟩, hsteady.cancelled,
    hsteady.closed, hsteady.terminalException, hsteady.exhausted, ?_⟩
  · simpa [Event.page?] using h.position
  · simpa [Event.page?] using h.promised
  · simp only [handedOn, Rules.given, deliveredOf_concat, acceptedOf_concat, Event.batch?,
      Event.page?, Option.toList_none, Option.toList_some, List.append_nil, List.flatten_append,
      List.flatten_singleton]
    exact hrows
  · show deliveredOf (s.trace ++ [_]) = _
    rw [deliveredOf_concat, hsteady.delivered]
    rfl

/-- The stream has come to its end. -/
structure Ended (config : PageScanConfig ι ν) (s₀ s : PageStream ι ν) : Prop
    extends Based config s where
  finished : Finished config s.trace
  exhausted : s.exhausted = true
  cancelled : s.cancelled = s₀.cancelled
  closed : s.closed = s₀.closed
  terminalException : s.terminalException = s₀.terminalException
  delivered : deliveredOf s.trace = deliveredOf s₀.trace

theorem finishPage_yields {env : PullEnv} (h : Live config s) (hsteady : Steady s₀ s)
    (hused : ¬(s.pageLoaded && decide (s.offset < s.decoded.length)) = true) :
    Yields (finishPage env) s
      (fun more s' => (more = true → Idle config s' ∧ Steady s₀ s') ∧
        (more = false → Ended config s₀ s'))
      (Halted config s₀) := by
  unfold finishPage
  rw [yields_bind, yields_get]
  rcases h with h | h
  · rw [if_neg (by rw [h.unloaded]; decide), yields_pure]
    exact ⟨fun _ => ⟨h, hsteady⟩, fun hmore => (nomatch hmore)⟩
  · rw [if_pos h.loaded, yields_bind, yields_modify, yields_bind, yields_pullCharge]
    have hreleased : Based config
        { s with decoded := [], offset := 0, pageLoaded := false } := { h.toBased with }
    have hcharged := hreleased.charge (c := .completePage s.pageHasNext env.completedAt)
    have hempty : s.decoded.drop s.offset = [] := by
      rw [h.loaded, Bool.true_and, decide_eq_true_eq, not_lt] at hused
      exact List.drop_eq_nil_of_le hused
    have hhanded : handedOn s.trace = (pageRules config).given s.trace := by
      have hrest := h.rest
      rw [hempty, List.append_nil] at hrest
      exact hrest
    obtain ⟨earlier, last, haccepted, hearlier, hlast⟩ := h.promised
    refine ⟨fun _ => ?_, fun _ _ => hcharged.halted { hsteady with }⟩
    cases hnext : s.pageHasNext with
    | true =>
      rw [hnext] at hcharged hlast
      rw [if_pos rfl, yields_pure]
      refine ⟨fun _ => ⟨⟨hcharged, rfl, ?_, hhanded⟩, { hsteady with }⟩, fun h => (nomatch h)⟩
      intro page hpage
      have hpage : page ∈ acceptedOf s.trace := hpage
      rw [haccepted] at hpage
      rcases List.mem_append.mp hpage with hold | hnew
      · exact hearlier page hold
      · rw [List.mem_singleton.mp hnew]
        exact hlast
    | false =>
      rw [hnext] at hcharged hlast
      rw [if_neg (by decide), yields_bind, yields_modify, yields_pure]
      refine ⟨fun h => (nomatch h), fun _ => ⟨{ hcharged with }, ⟨⟨earlier, last, haccepted, hlast⟩,
        hhanded⟩, rfl, hsteady.cancelled, hsteady.closed, hsteady.terminalException,
        hsteady.delivered⟩⟩

/-- What a pull returns. -/
def Pulled (config : PageScanConfig ι ν) (s₀ : PageStream ι ν) (returned : Option (List ν))
    (s : PageStream ι ν) : Prop :=
  match returned with
  | some batch => Handed config s₀ batch s
  | none => Ended config s₀ s

theorem pull_yields (envs : List PullEnv) (h : Live config s) (hsteady : Steady s₀ s) :
    Yields (pull config envs) s (Pulled config s₀) (Halted config s₀) := by
  induction envs generalizing s with
  | nil => exact ⟨h.toBased, hsteady, fun _ => h⟩
  | cons env rest ih =>
    unfold pull
    refine (checkState_yields h hsteady).bind ?_
    rintro _ s' rfl
    rw [yields_bind, yields_get]
    by_cases hleft : (s'.pageLoaded && decide (s'.offset < s'.decoded.length)) = true
    · rw [if_pos hleft]
      have hloaded : Loaded config s' := by
        rcases h with h | h
        · rw [h.unloaded, Bool.false_and] at hleft
          cases hleft
        · exact h
      refine (produceBatch_yields hloaded hsteady).mono ?_ fun _ _ he => he
      rintro returned s'' ⟨batch, rfl, hhanded⟩
      exact hhanded
    · rw [if_neg hleft]
      refine (finishPage_yields h hsteady hleft).bind ?_
      rintro more s₁ ⟨hmore, hdone⟩
      cases more with
      | true =>
        obtain ⟨hidle, hsteady₁⟩ := hmore rfl
        rw [if_pos rfl]
        have hfetch : Yields (fetchPage config env) s₁
            (fun _ s₂ => Loaded config s₂ ∧ Steady s₀ s₂) (Halted config s₀) := by
          refine (fetchPage_yields hidle).mono ?_ ?_
          · rintro _ s₂ ⟨hloaded, hsteady₂⟩
            exact ⟨hloaded, hsteady₁.trans hsteady₂⟩
          · rintro halt s₂ ⟨hbased, hsteady₂, hlive⟩
            exact ⟨hbased, hsteady₁.trans hsteady₂, hlive⟩
        refine hfetch.bind ?_
        rintro _ s₂ ⟨hloaded, hsteady₂⟩
        exact ih (Or.inr hloaded) hsteady₂
      | false =>
        rw [if_neg (by decide), yields_pure]
        exact hdone rfl

-- ---------------------------------------------------------------------------
-- The calls
-- ---------------------------------------------------------------------------

/-- What holds between calls. -/
structure Kept (config : PageScanConfig ι ν) (s : PageStream ι ν) : Prop
    extends Based config s where
  stopped : s.closed = true ∨ s.terminalException ≠ none → s.cancelled = true
  live : s.cancelled = false → s.exhausted = false → Live config s
  finished : s.exhausted = true → Finished config s.trace

theorem Based.release (h : Based config s) : Based config s.release := by
  refine { h with sound := ?_ }
  show Sound (if _ then _ else _)
  split
  · exact h.sound
  · exact ((call_effect h.sound .abortPage).sound h.sound).1

theorem Kept.flag (h : Kept config s) : Kept config s.flag :=
  ⟨{ h.toBased with }, fun _ => rfl, fun hcancelled => (nomatch hcancelled), h.finished⟩

/-- A cancelled stream may be released and closed. -/
theorem Kept.stop {s' : PageStream ι ν} (h : Kept config s) (hbased : Based config s')
    (hcancelled : s'.cancelled = true) (hexhausted : s'.exhausted = s.exhausted)
    (htrace : s'.trace = s.trace) : Kept config s' := by
  refine ⟨hbased, fun _ => hcancelled, fun hlive => ?_, fun hdone => ?_⟩
  · rw [hcancelled] at hlive
    cases hlive
  · rw [htrace]
    exact h.finished (hexhausted ▸ hdone)

theorem Kept.cancel (h : Kept config s) : Kept config s.cancel := by
  unfold PageStream.cancel
  split
  · exact h.flag
  · exact h.stop h.flag.toBased.release rfl rfl rfl

theorem Kept.close (h : Kept config s) : Kept config s.close := by
  unfold PageStream.close
  split
  · exact h.flag
  · have hclosed : Based config { s.flag with closed := true } := { h.flag.toBased with }
    exact h.stop hclosed.release rfl rfl rfl

/-- A stream that has thrown this and will throw it again. -/
structure Dead (thrown : Thrown) (s : PageStream ι ν) : Prop where
  unclosed : s.closed = false
  remembered : s.terminalException = some thrown ∨
    s.terminalException = none ∧ s.exhausted = false ∧ s.cancelled = true ∧
      thrown = .executionCancelled

/-- The batch a `Next` has handed out. -/
def batchOf {ε : Type} : Except ε (Option (List ν)) → List (List ν)
  | .ok (some batch) => [batch]
  | _ => []

/-- What a `Next` does to a stream. -/
structure NextDone (config : PageScanConfig ι ν) (s : PageStream ι ν)
    (r : Except PageStream.NextHalt (Option (List ν)) × PageStream ι ν) : Prop where
  kept : Kept config r.2
  delivered : deliveredOf r.2.trace = deliveredOf s.trace ++ batchOf r.1
  ended : r.1 = .ok none → s.closed = true ∨ Finished config r.2.trace
  dead : ∀ thrown, r.1 = .error (.threw thrown) → Dead thrown r.2

/-- Nothing happens: the stream answers from its flags. -/
theorem Kept.answered {result : Except PageStream.NextHalt (Option (List ν))}
    (h : Kept config s) (hbatch : batchOf result = [])
    (hended : result = .ok none → s.closed = true ∨ s.exhausted = true)
    (hdead : ∀ thrown, result = .error (.threw thrown) → Dead thrown s) :
    NextDone config s (result, s) := by
  refine ⟨h, ?_, fun hnone => ?_, hdead⟩
  · rw [hbatch, List.append_nil]
  · rcases hended hnone with hclosed | hexhausted
    · exact Or.inl hclosed
    · exact Or.inr (h.finished hexhausted)

/-- The flags of a stream that a pull has not stopped. -/
theorem Kept.carry {s' : PageStream ι ν} (h : Kept config s) (hbased : Based config s')
    (hcancelled : s'.cancelled = s.cancelled) (hclosed : s'.closed = s.closed)
    (hterminal : s'.terminalException = s.terminalException)
    (hlive : s'.exhausted = false → Live config s')
    (hfinished : s'.exhausted = true → Finished config s'.trace) : Kept config s' := by
  refine ⟨hbased, fun hstopped => ?_, fun _ => hlive, hfinished⟩
  rw [hclosed, hterminal] at hstopped
  rw [hcancelled]
  exact h.stopped hstopped

theorem Handed.next_done {batch : List ν} {s' : PageStream ι ν} (h : Kept config s)
    (hrunning : s.exhausted = false) (hhanded : Handed config s batch s') :
    NextDone config s (.ok (some batch), s') := by
  refine ⟨?_, hhanded.delivered, fun hnone => (nomatch hnone), fun _ hthrown => (nomatch hthrown)⟩
  refine h.carry hhanded.loaded.toBased hhanded.cancelled hhanded.closed
    hhanded.terminalException (fun _ => Or.inr hhanded.loaded) fun hdone => ?_
  rw [hhanded.exhausted, hrunning] at hdone
  cases hdone

theorem Ended.next_done {s' : PageStream ι ν} (h : Kept config s) (hended : Ended config s s') :
    NextDone config s (.ok none, s') := by
  refine ⟨?_, hended.delivered.trans (List.append_nil _).symm, fun _ => Or.inr hended.finished,
    fun _ hthrown => (nomatch hthrown)⟩
  refine h.carry hended.toBased hended.cancelled hended.closed hended.terminalException
    (fun hrunning => ?_) fun _ => hended.finished
  rw [hended.exhausted] at hrunning
  cases hrunning

theorem Halted.threw_done {error : PageError} {s' : PageStream ι ν} (hrunning : s.exhausted = false)
    (hunclosed : s.closed = false) (hhalted : Halted config s (.threw error) s') :
    NextDone config s (.error (.threw error.report), s'.remember error.report) := by
  obtain ⟨hbased, hsteady, -⟩ := hhalted
  have hmarked : Based config
      { s' with terminalException := some error.report, cancelled := true } := { hbased with }
  refine ⟨⟨hmarked.release, fun _ => rfl, fun hlive => (nomatch hlive), fun hdone => ?_⟩,
    hsteady.delivered.trans (List.append_nil _).symm, fun hnone => (nomatch hnone),
    fun thrown hthrown => ?_⟩
  · have hdone : s'.exhausted = true := hdone
    rw [hsteady.exhausted, hrunning] at hdone
    cases hdone
  · rw [← PageStream.NextHalt.threw.inj (Except.error.inj hthrown)]
    exact ⟨hsteady.closed.trans hunclosed, Or.inl rfl⟩

theorem Halted.unfinished_done {s' : PageStream ι ν} (h : Kept config s)
    (hrunning : s.exhausted = false) (hhalted : Halted config s .unfinished s') :
    NextDone config s (.error .unfinished, s') := by
  obtain ⟨hbased, hsteady, hlive⟩ := hhalted
  refine ⟨?_, hsteady.delivered.trans (List.append_nil _).symm, fun hnone => (nomatch hnone),
    fun _ hthrown => (nomatch hthrown)⟩
  refine h.carry hbased hsteady.cancelled hsteady.closed hsteady.terminalException
    (fun _ => hlive rfl) fun hdone => ?_
  rw [hsteady.exhausted, hrunning] at hdone
  cases hdone

theorem next_done (h : Kept config s) (envs : List PullEnv) :
    NextDone config s (s.next config envs) := by
  unfold PageStream.next
  by_cases hclosed : s.closed = true
  · rw [if_pos hclosed]
    exact h.answered rfl (fun _ => Or.inl hclosed) (fun _ hthrown => (nomatch hthrown))
  have hunclosed : s.closed = false := by simpa using hclosed
  rw [if_neg hclosed]
  cases hterminal : s.terminalException with
  | some thrown =>
    refine h.answered rfl (fun hnone => (nomatch hnone)) fun again hagain => ?_
    rw [← PageStream.NextHalt.threw.inj (Except.error.inj hagain)]
    exact ⟨hunclosed, Or.inl hterminal⟩
  | none =>
    dsimp only
    by_cases hexhausted : s.exhausted = true
    · rw [if_pos hexhausted]
      exact h.answered rfl (fun _ => Or.inr hexhausted) (fun _ hthrown => (nomatch hthrown))
    have hrunning : s.exhausted = false := by simpa using hexhausted
    rw [if_neg hexhausted]
    by_cases hcancelled : s.cancelled = true
    · rw [if_pos hcancelled]
      refine h.answered rfl (fun hnone => (nomatch hnone)) fun again hagain => ?_
      have hthrown := PageStream.NextHalt.threw.inj (Except.error.inj hagain)
      exact ⟨hunclosed, Or.inr ⟨hterminal, hrunning, hcancelled, hthrown.symm⟩⟩
    rw [if_neg hcancelled]
    have hpull := pull_yields envs (h.live (by simpa using hcancelled) hrunning) (Steady.refl s)
    unfold Yields at hpull
    cases hrun : pull config envs s with
    | mk result s' =>
      rw [hrun] at hpull
      match result, hpull with
      | .ok (some batch), hhanded => exact Handed.next_done h hrunning hhanded
      | .ok none, hended => exact Ended.next_done h hended
      | .error (.threw error), hhalted => exact Halted.threw_done hrunning hunclosed hhalted
      | .error .unfinished, hhalted => exact Halted.unfinished_done h hrunning hhalted

theorem call_kept (h : Kept config s) (c : StreamCall) : Kept config (s.call config c) := by
  cases c with
  | next envs => exact (next_done h envs).kept
  | flag => exact h.flag
  | cancel => exact h.cancel
  | close => exact h.close

theorem after_kept (h : Kept config s) (calls : List StreamCall) :
    Kept config (s.after config calls) := by
  induction calls generalizing s with
  | nil => exact h
  | cons c rest ih => exact ih (call_kept h c)

theorem open_kept (hopen : PageStream.openPaginatedRestScan config = .ok s) : Kept config s := by
  unfold PageStream.openPaginatedRestScan at hopen
  cases hnew : ScanResourceAccounting.new config.profile.resources with
  | error error =>
    rw [hnew] at hopen
    cases hopen
  | ok ledger =>
    rw [hnew] at hopen
    rw [← Except.ok.inj hopen]
    have hbased : ∀ s : PageStream ι ν, s.controller.ledger = ledger → s.trace = [] →
        s.pagination = .new config.profile → Based config s := by
      intro s hledger htrace hpagination
      refine ⟨hledger ▸ (new_eq_ok hnew).1, htrace ▸ Orderly.nil, ?_⟩
      rw [hpagination, htrace]
      exact (Nat.add_zero _).symm.trans (congrArg _ (Nat.zero_mul _).symm)
    refine ⟨hbased _ rfl rfl rfl, ?_, fun _ _ => Or.inl ⟨hbased _ rfl rfl rfl, rfl, ?_, rfl⟩, ?_⟩
    · rintro (hclosed | hterminal)
      · cases hclosed
      · exact absurd rfl hterminal
    · intro page hpage
      cases hpage
    · intro hexhausted
      cases hexhausted

-- ---------------------------------------------------------------------------
-- After a failure
-- ---------------------------------------------------------------------------

def StreamCall.closes : StreamCall → Bool
  | .close => true
  | _ => false

theorem next_of_dead {thrown : Thrown} (h : Dead thrown s) (envs : List PullEnv) :
    s.next config envs = (.error (.threw thrown), s) := by
  unfold PageStream.next
  rw [if_neg (by rw [h.unclosed]; decide)]
  rcases h.remembered with hterminal | ⟨hterminal, hrunning, hcancelled, hthrown⟩
  · rw [hterminal]
  · rw [hterminal]
    dsimp only
    rw [if_neg (by rw [hrunning]; decide), if_pos hcancelled, hthrown]

theorem next_of_closed (h : s.closed = true) (envs : List PullEnv) :
    s.next config envs = (.ok none, s) := by
  unfold PageStream.next
  rw [if_pos h]

theorem call_of_closed (config : PageScanConfig ι ν) (h : s.closed = true) (c : StreamCall) :
    (s.call config c).closed = true ∧ (s.call config c).trace = s.trace := by
  cases c with
  | next envs =>
    rw [PageStream.call, next_of_closed h]
    exact ⟨h, rfl⟩
  | flag => exact ⟨h, rfl⟩
  | cancel =>
    rw [PageStream.call, PageStream.cancel, if_pos h]
    exact ⟨h, rfl⟩
  | close =>
    rw [PageStream.call, PageStream.close, if_pos h]
    exact ⟨h, rfl⟩

theorem after_of_closed (config : PageScanConfig ι ν) (h : s.closed = true)
    (calls : List StreamCall) :
    (s.after config calls).closed = true ∧ (s.after config calls).trace = s.trace := by
  induction calls generalizing s with
  | nil => exact ⟨h, rfl⟩
  | cons c rest ih =>
    obtain ⟨hclosed, htrace⟩ := call_of_closed config h c
    obtain ⟨hclosed', htrace'⟩ := ih hclosed
    exact ⟨hclosed', htrace'.trans htrace⟩

theorem Dead.mark {thrown : Thrown} {s' : PageStream ι ν} (h : Dead thrown s)
    (hclosed : s'.closed = s.closed) (hterminal : s'.terminalException = s.terminalException)
    (hexhausted : s'.exhausted = s.exhausted) (hcancelled : s'.cancelled = true) :
    Dead thrown s' := by
  refine ⟨hclosed.trans h.unclosed, ?_⟩
  rw [hterminal, hexhausted]
  rcases h.remembered with hthrown | ⟨hnone, hrunning, -, hthrown⟩
  · exact Or.inl hthrown
  · exact Or.inr ⟨hnone, hrunning, hcancelled, hthrown⟩

theorem call_of_dead (config : PageScanConfig ι ν) {thrown : Thrown} (h : Dead thrown s)
    {c : StreamCall} (hc : c.closes = false) :
    Dead thrown (s.call config c) ∧ (s.call config c).trace = s.trace := by
  cases c with
  | next envs =>
    rw [PageStream.call, next_of_dead h]
    exact ⟨h, rfl⟩
  | flag => exact ⟨h.mark rfl rfl rfl rfl, rfl⟩
  | cancel =>
    rw [PageStream.call, PageStream.cancel, if_neg (by rw [h.unclosed]; decide)]
    exact ⟨h.mark rfl rfl rfl rfl, rfl⟩
  | close => cases hc

theorem close_of_dead {thrown : Thrown} (h : Dead thrown s) :
    s.close.closed = true ∧ s.close.trace = s.trace := by
  rw [PageStream.close, if_neg (by rw [h.unclosed]; decide)]
  exact ⟨rfl, rfl⟩

/-- A failed stream throws the same until it is closed, and does nothing else. -/
theorem after_of_dead {thrown : Thrown} (h : Dead thrown s) (calls : List StreamCall)
    (envs : List PullEnv) :
    (s.after config calls).trace = s.trace ∧
      ((s.after config calls).next config envs).1 =
        if calls.any StreamCall.closes then .ok none else .error (.threw thrown) := by
  induction calls generalizing s with
  | nil =>
    refine ⟨rfl, ?_⟩
    show (s.next config envs).1 = _
    rw [next_of_dead h]
    rfl
  | cons c rest ih =>
    rw [List.any_cons]
    cases hc : c.closes with
    | false =>
      obtain ⟨hdead, htrace⟩ := call_of_dead config h hc
      obtain ⟨htrace', hnext⟩ := ih hdead
      exact ⟨htrace'.trans htrace, hnext⟩
    | true =>
      have hclose : s.call config c = s.close := by
        cases c with
        | close => rfl
        | next | flag | cancel => cases hc
      obtain ⟨hclosed, htrace⟩ := close_of_dead h
      obtain ⟨hclosed', htrace'⟩ := after_of_closed config hclosed rest
      have hafter : s.after config (c :: rest) = s.close.after config rest := by
        rw [← hclose]
        rfl
      rw [hafter, next_of_closed hclosed']
      exact ⟨htrace'.trans htrace, rfl⟩

-- ---------------------------------------------------------------------------
-- The stream
-- ---------------------------------------------------------------------------

/-- What a paginated stream asks for, accepts and hands out, whatever calls are
made to it and whatever comes back. -/
theorem paginated_stream_delivery {config : PageScanConfig ι ν} {s₀ : PageStream ι ν}
    (hopen : PageStream.openPaginatedRestScan config = .ok s₀) (calls : List StreamCall) :
    let s := s₀.after config calls
    Orderly (pageRules config) s.trace ∧
    s.pagination.currentPage.toNat =
      config.profile.firstPage.toNat +
        (acceptedOf s.trace).countP AcceptedPage.hasNext * config.profile.pageIncrement.toNat ∧
    ∀ envs,
      let r := s.next config envs
      deliveredOf r.2.trace = deliveredOf s.trace ++ batchOf r.1 ∧
      (r.1 = .ok none → s.closed = true ∨ Finished config r.2.trace) ∧
      ∀ thrown, r.1 = .error (.threw thrown) → ∀ later again,
        (r.2.after config later).trace = r.2.trace ∧
        ((r.2.after config later).next config again).1 =
          if later.any StreamCall.closes then .ok none else .error (.threw thrown) := by
  intro s
  have hkept := after_kept (open_kept hopen) calls
  refine ⟨hkept.orderly, hkept.position, fun envs => ?_⟩
  have hdone := next_done hkept envs
  refine ⟨hdone.delivered, hdone.ended, fun thrown hthrown later again => ?_⟩
  exact after_of_dead (hdone.dead thrown hthrown) later again

-- ---------------------------------------------------------------------------
-- Two pages
-- ---------------------------------------------------------------------------

/-- Pages of two rows, handed out one by one. -/
def twoPageProfile : PaginatedRestProfile where
  toAdmittedRequest := .plain (ascii "/rows") [⟨ascii "index", ascii "1"⟩] 100 (by decide +kernel)
    (by decide +kernel) (by decide +kernel)
  method := ascii "GET"
  scheme := ascii "https"
  host := ascii "api.example"
  port := 443
  pageSize := 2
  pageNumberParameter := ascii "index"
  firstPage := 1
  pageIncrement := 1
  maxPages := 3
  paginationStrategy := .shortPage
  batchRows := 1
  decodedMemoryBytes := 100
  retry := ⟨1, 3, 0, 0⟩
  rateLimit := ⟨false, [], .fail, [], [], [], [], [], 1, 1, 0, 0, 0, false⟩
  resources :=
    ⟨⟨1, 100, 100, 100, 10, 100, 1, 0⟩, ⟨3, 3, 300, 300, 300, 30, 100, 1000, 1, 0, 0, 0, 0⟩⟩

/-- `[1,2]` -/
def twoRows : Bytes := [0x5b, 0x31, 0x2c, 0x32, 0x5d]

/-- The only bodies in this run are `[1,2]` and `[]`. -/
def twoPageConfig : PageScanConfig Unit Nat where
  profile := twoPageProfile
  capacity := id
  destination := ⟨[], [], 0⟩
  principal := .anonymous
  retrySeed := 0
  parseRateLimitGuidance := fun _ => ⟨.guidanceMissing, 0, 0, false⟩
  parseLinkHeaderFields := fun _ => ⟨[], false⟩
  decodeJsonPage := fun body _ => .ok ⟨if body = twoRows then [1, 2] else [], [], 10⟩
  authorize := fun _ => none

def pageEnv (status : UInt32) (body : Bytes) : PullEnv where
  cancelled := false
  now := 2
  produceCheck := none
  handoff := none
  completedAt := 2
  beginAt := 0
  turns := [repeatTurn (.response ⟨status, 10, 5, 5, body, ⟨[], 0, false, [], []⟩⟩)]
  accept := none
  reserve := none
  decoding := none
  staging := none

def twoPageStream : PageStream Unit Nat where
  controller := .fresh ⟨twoPageProfile.resources, ScanResourceAccounting.zeroCounters, .ready,
    false, 0, 0, ⟨0, 0, 0, 0, 0, 0, 0⟩, 0, false, false⟩
  pagination := ⟨1, 1, false, false⟩
  cancelled := false
  closed := false
  exhausted := false
  terminalException := none
  pageLoaded := false
  pageHasNext := false
  decoded := []
  offset := 0
  rowsEmitted := 0
  trace := []

/-- A full page in two batches. -/
def firstPageCalls : List StreamCall :=
  [.next [pageEnv 200 twoRows, pageEnv 200 twoRows], .next [pageEnv 200 []]]

/-- What a second page with this status leaves after them. -/
def secondPull (status : UInt32) :
    Except PageStream.NextHalt (Option (List Nat)) × PageStream Unit Nat :=
  (twoPageStream.after twoPageConfig firstPageCalls).next twoPageConfig
    [pageEnv status [], pageEnv status []]

theorem paginated_stream_delivery_two_pages :
    PageStream.openPaginatedRestScan twoPageConfig = .ok twoPageStream ∧
    deliveredOf (twoPageStream.after twoPageConfig firstPageCalls).trace = [[1], [2]] ∧
    Orderly (pageRules twoPageConfig)
      (twoPageStream.after twoPageConfig firstPageCalls).trace ∧
    (secondPull 200).1 = .ok none ∧ Finished twoPageConfig (secondPull 200).2.trace := by
  have hopen : PageStream.openPaginatedRestScan twoPageConfig = .ok twoPageStream := by
    decide +kernel
  have hdelivered : deliveredOf (twoPageStream.after twoPageConfig firstPageCalls).trace =
      [[1], [2]] := by decide +kernel
  have hnone : (secondPull 200).1 = .ok none := by decide +kernel
  have hunclosed : (twoPageStream.after twoPageConfig firstPageCalls).closed = false := by
    decide +kernel
  obtain ⟨horderly, -, hnext⟩ := paginated_stream_delivery hopen firstPageCalls
  have hended := (hnext [pageEnv 200 [], pageEnv 200 []]).2.1
  refine ⟨hopen, hdelivered, horderly, hnone, ?_⟩
  unfold secondPull at hnone ⊢
  rcases hended hnone with hclosed | hfinished
  · rw [hunclosed] at hclosed
    cases hclosed
  · exact hfinished

/-- A `Next` that has failed on a missing page returns `false` once the stream is
closed. -/
theorem closed_stream_forgets_failure :
    PageStream.openPaginatedRestScan twoPageConfig = .ok twoPageStream ∧
    ∃ thrown, (secondPull 404).1 = .error (.threw thrown) ∧
      ((secondPull 404).2.close.next twoPageConfig []).1 ≠ .error (.threw thrown) ∧
      ((secondPull 404).2.close.next twoPageConfig []).1 = .ok none := by
  refine ⟨by decide +kernel, .executionError ⟨.httpStatus, [], nonSuccessMessage,
    some .remoteStatus⟩, ?_⟩
  decide +kernel

end Cuac.Runtime.Pagination

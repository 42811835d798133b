import Cuac.Lib.Trace
import Cuac.Runtime.HttpRetryController

/-!
# Runtime — the discipline of the retry controller

What every call of `ExecuteHttpStepWithRetry` keeps to, over all turns: how many
attempts it makes, after what it makes another one, what its waits are cut to
and whose permit an attempt is made under.

The proofs follow the statements of the call. `Tracked` holds all along; it ties
the ledger to the charges in the log. `Settled` holds at the head of the loop
and between attempts, `Sent` from the moment an attempt is out, and `Ended` of
whatever the call leaves behind.

Main results:

* `takeTurn_yields` — what one turn does.
* `retry_discipline` — what a whole call does, after any steps of the scan.
-/

namespace Cuac.Runtime.Resilience

open Cuac.Lib
open Cuac.Lib.Throwing
open Cuac.Runtime.RateLimit

variable {ι ρ : Type}

-- ---------------------------------------------------------------------------
-- Reading the log
-- ---------------------------------------------------------------------------

def Action.charge? : Action ι ρ → Option LedgerCall
  | .charge c => some c
  | _ => none

def Action.attempt? : Action ι ρ → Option (Attempt ι ρ)
  | .attempt a => some a
  | _ => none

def chargesOf (log : List (Action ι ρ)) : List LedgerCall := log.filterMap Action.charge?

def attemptsOf (log : List (Action ι ρ)) : List (Attempt ι ρ) := log.filterMap Action.attempt?

/-- The response an attempt was rate-limited with. -/
def Attempt.limited? (config : StepConfig ι ρ) (attempt : Attempt ι ρ) : Option HttpResponse :=
  match attempt.transfer with
  | .response response =>
    if config.rateLimit.matchesStatus response.status then some response else none
  | _ => none

/-- The closed set of failures another attempt may follow. -/
inductive Retryable (config : StepConfig ι ρ) (attempt : Attempt ι ρ) : Prop
  /-- Nothing of a response has arrived. -/
  | unanswered (failure : HttpAttemptFailure)
      (transfer : attempt.transfer = .attemptFailure failure)
      (enabled : config.policy.enabled = true) (facts : failure.facts = ⟨0, 0, 0, 0⟩)
      (kind : failure.kind ≠ .other)
  | gateway (response : HttpResponse) (transfer : attempt.transfer = .response response)
      (enabled : config.policy.enabled = true)
      (status : response.status = 502 ∨ response.status = 503 ∨ response.status = 504)
      (unguided : response.metadata.retryAfterPresent = false)
      (undeclared : config.rateLimit.matchesStatus response.status = false)
  | guided (response : HttpResponse) (transfer : attempt.transfer = .response response)
      (declared : config.rateLimit.matchesStatus response.status = true)
      (waits : config.rateLimit.mode ≠ .fail ∧ config.rateLimit.isWaitingEnabled = true)
      (fields : hasOnlyDeclaredFields config.rateLimit response.metadata = true ∧
        validateRemaining config.rateLimit response.metadata = true)
      (bucket : (tryBucket config.rateLimit response.metadata).isSome = true)
      (guidance : (config.parseRateLimitGuidance
        (guidanceInput config.rateLimit response.metadata attempt.receipt)).reason = .none)

/-- After a rate-limited attempt, another one holds the permit of its bucket. -/
def HeldAfter (config : StepConfig ι ρ) (earlier later : Attempt ι ρ) : Prop :=
  ∀ response, earlier.limited? config = some response →
    ∃ bucket, tryBucket config.rateLimit response.metadata = some bucket ∧
      later.permit = some (config.quotaBucketKey bucket)

/-- What a wait may be, given the ledger it starts from. -/
def Allowed (config : StepConfig ι ρ) (ledger : ScanResourceAccounting) : Action ι ρ → Prop
  | .plan _ delay =>
    ledger.counters.cumulativeRetryWaitingMilliseconds.toNat + delay.toNat ≤
        config.policy.maxCumulativeWaitingMillisecondsPerScan.toNat ∧
      ledger.counters.cumulativeWaitingMilliseconds.toNat + delay.toNat ≤
        ledger.profile.scan.cumulativeWaitingMilliseconds.toNat
  | .queue _ started deadline _ =>
    ∃ authority : UInt64, deadline ≤ addBounded started authority ∧
      (authority = 0 ∨
        ledger.counters.cumulativeRateLimitWaitingMilliseconds.toNat + authority.toNat ≤
            config.rateLimit.maxCumulativeWaitingMillisecondsPerScan.toNat ∧
          ledger.counters.cumulativeWaitingMilliseconds.toNat + authority.toNat ≤
            ledger.profile.scan.cumulativeWaitingMilliseconds.toNat)
  | _ => True

/-- Every wait of a log was cut to what its budgets had left. -/
def CutToBudgets (config : StepConfig ι ρ) (start : ScanResourceAccounting)
    (log : List (Action ι ρ)) : Prop :=
  ∀ before action after, log = before ++ action :: after →
    Allowed config (start.run (chargesOf before)) action

def total (amount : Action ι ρ → Nat) (log : List (Action ι ρ)) : Nat := (log.map amount).sum

/-- What a retry wait comes to. -/
def Action.retryDue : Action ι ρ → Nat
  | .plan _ delay => delay.toNat
  | _ => 0

/-- What a wait for quota comes to, by the clock. -/
def Action.quotaDue : Action ι ρ → Nat
  | .queue _ started _ completed => (elapsedMilliseconds started completed).toNat
  | _ => 0

def Action.retryCharge : Action ι ρ → Nat
  | .charge c => c.amounts.retryWaiting
  | _ => 0

def Action.quotaCharge : Action ι ρ → Nat
  | .charge c => c.amounts.rateLimitWaiting
  | _ => 0

/-- Every wait so far has been charged in full. -/
structure Charged (log : List (Action ι ρ)) : Prop where
  retry : total Action.retryCharge log = total Action.retryDue log
  quota : total Action.quotaCharge log = total Action.quotaDue log

/-- No more has been charged than was waited. -/
structure NotOvercharged (log : List (Action ι ρ)) : Prop where
  retry : total Action.retryCharge log ≤ total Action.retryDue log
  quota : total Action.quotaCharge log ≤ total Action.quotaDue log

/-- When an attempt is made, every wait before it has been charged in full. -/
def ChargedBeforeAttempts (log : List (Action ι ρ)) : Prop :=
  ∀ before a after, log = before ++ .attempt a :: after → Charged before

def Action.ofWait : Action ι ρ → Bool
  | .sleep _ | .woke _ _ | .reached _ | .charge (.commitRetryWait _) => true
  | _ => false

/-- What a wait is charged after: a slice of a retry wait, the end of one, or the
answer of the coordinator; and never for more than the clock shows. -/
def Timely (before : List (Action ι ρ)) : Action ι ρ → Prop
  | .sleep slice => slice.toNat ≤ 5
  | .charge (.commitRetryWait debit) =>
    (∃ earlier slice asleep awake, before = earlier ++ [.sleep slice, .woke asleep awake] ∧
      (debit.toNat : Int) ≤ awake - asleep) ∨
    ∃ earlier started delay wait now,
      before = earlier ++ .plan started delay :: (wait ++ [.reached now]) ∧
        wait.all Action.ofWait = true ∧ addBounded started delay ≤ now ∧
        total Action.retryCharge wait + debit.toNat = delay.toNat
  | .charge (.commitRateLimitWait waited) =>
    ∃ earlier key started deadline completed,
      before = earlier ++ [.queue key started deadline completed] ∧
        waited = elapsedMilliseconds started completed
  | _ => True

/-- Every slice and every charge of a log is timely. -/
def OnTime (log : List (Action ι ρ)) : Prop :=
  ∀ before action after, log = before ++ action :: after → Timely before action

theorem OnTime.concat {log : List (Action ι ρ)} {action : Action ι ρ} (h : OnTime log)
    (haction : Timely log action) : OnTime (log ++ [action]) :=
  forall_split_concat h haction

theorem CutToBudgets.concat {config : StepConfig ι ρ} {start : ScanResourceAccounting}
    {log : List (Action ι ρ)} {action : Action ι ρ} (h : CutToBudgets config start log)
    (haction : Allowed config (start.run (chargesOf log)) action) :
    CutToBudgets config start (log ++ [action]) :=
  forall_split_concat h haction

theorem ChargedBeforeAttempts.concat {log : List (Action ι ρ)} {action : Action ι ρ}
    (h : ChargedBeforeAttempts log) (haction : ∀ a, action = .attempt a → Charged log) :
    ChargedBeforeAttempts (log ++ [action]) := by
  intro before a after hsplit
  refine forall_split_concat (P := fun before x => ∀ a, x = .attempt a → Charged before) ?_ haction
    before (.attempt a) after hsplit a rfl
  intro earlier x rest hlog b hx
  rw [hx] at hlog
  exact h earlier b rest hlog

@[simp] theorem chargesOf_concat (log : List (Action ι ρ)) (action : Action ι ρ) :
    chargesOf (log ++ [action]) = chargesOf log ++ action.charge?.toList := by
  rw [chargesOf, chargesOf, List.filterMap_append]
  cases action <;> rfl

@[simp] theorem attemptsOf_concat (log : List (Action ι ρ)) (action : Action ι ρ) :
    attemptsOf (log ++ [action]) = attemptsOf log ++ action.attempt?.toList := by
  rw [attemptsOf, attemptsOf, List.filterMap_append]
  cases action <;> rfl

@[simp] theorem total_concat (amount : Action ι ρ → Nat) (log : List (Action ι ρ))
    (action : Action ι ρ) : total amount (log ++ [action]) = total amount log + amount action := by
  simp [total]

theorem Charged.notOvercharged {log : List (Action ι ρ)} (h : Charged log) : NotOvercharged log :=
  ⟨h.retry.le, h.quota.le⟩

-- ---------------------------------------------------------------------------
-- The ledger along the call
-- ---------------------------------------------------------------------------

/-- The calls made between two pages; they start the count of attempts anew. -/
def betweenSteps : LedgerCall → Bool
  | .beginStep _ | .completePage _ _ => true
  | _ => false

/-- Within a step the count of its attempts follows the attempts charged. -/
theorem call_stepAttempts (s : ScanResourceAccounting) {c : LedgerCall}
    (hc : betweenSteps c = false) :
    (s.call c).2.currentStepAttempts.toNat =
      s.currentStepAttempts.toNat +
        if (s.call c).1 = none then c.amounts.requestAttempts else 0 := by
  have hkept (hcharge : c.amounts.requestAttempts = 0)
      (hsame : (s.call c).2.currentStepAttempts = s.currentStepAttempts) :
      (s.call c).2.currentStepAttempts.toNat =
        s.currentStepAttempts.toNat +
          if (s.call c).1 = none then c.amounts.requestAttempts else 0 := by
    rw [hsame, hcharge, ite_self, Nat.add_zero]
  cases c with
  | beginStep | completePage => cases hc
  | beginAttempt now =>
    simp only [ScanResourceAccounting.call, ScanResourceAccounting.beginAttempt]
    split
    · rfl
    · split
      · rfl
      · split
        · rfl
        · cases hcharges : s.attemptCharges with
          | error error => rfl
          | ok charges =>
            simp only [ScanResourceAccounting.attemptCharges, bind_eq_ok, pure_eq_ok,
              addChecked_eq_ok] at hcharges
            obtain ⟨step, ⟨_, hstep⟩, _, _, _, _, _, _, _, _, hpure⟩ := hcharges
            rw [← hpure]
            exact hstep
  | abortPage => exact hkept rfl rfl
  | commitAttemptFailure usage | commitTransport usage =>
    refine hkept rfl ?_
    simp only [ScanResourceAccounting.call, ScanResourceAccounting.commitAttemptFailure,
      ScanResourceAccounting.commitTransport, ScanResourceAccounting.commitAttemptUsage,
      ScanResourceAccounting.chargeUsage]
    repeat' split
    all_goals rfl
  | _ =>
    refine hkept rfl ?_
    simp only [ScanResourceAccounting.call, ScanResourceAccounting.commitRequestBody,
      ScanResourceAccounting.commitRemoteRequest, ScanResourceAccounting.commitDecodedPage,
      ScanResourceAccounting.commitRetryWait, ScanResourceAccounting.commitRateLimitWait,
      ScanResourceAccounting.commitWait, ScanResourceAccounting.commitAdmissionWait,
      ScanResourceAccounting.commitRemoteTransportTime]
    repeat' split
    all_goals rfl

/-- The count of remote requests follows the requests charged. -/
theorem call_remoteRequests {s : ScanResourceAccounting} (h : Sound s) (c : LedgerCall) :
    (s.call c).2.counters.remoteRequests.toNat =
      s.counters.remoteRequests.toNat +
        if (s.call c).1 = none then c.amounts.remoteRequests else 0 := by
  have heffect := call_effect h c
  cases hcall : s.call c with
  | mk error s' =>
    rw [hcall] at heffect
    cases heffect with
    | refused hlate hrefuses =>
      rw [hrefuses.counters]
      rfl
    | refusedLate hlate hgrew hle hrefuses =>
      rw [hrefuses.counters]
      rfl
    | returned hlate hreturns =>
      rw [if_pos rfl]
      exact hreturns.exact.remoteRequests

/-- What holds all along a call that has found the ledger as `start`: another
attempt may follow the `settled` ones, and `pending` is the one still to be
settled. -/
structure Tracked (config : StepConfig ι ρ) (start : ScanResourceAccounting)
    (settled : List (Attempt ι ρ)) (pending : Option (Attempt ι ρ)) (s : Controller ι ρ) :
    Prop where
  ledger : s.ledger = start.run (chargesOf s.log)
  attempts : attemptsOf s.log = settled ++ pending.toList
  stepAttempts : (attemptsOf s.log).length ≤ s.ledger.currentStepAttempts.toNat
  requests : start.counters.remoteRequests.toNat + (attemptsOf s.log).length ≤
    s.ledger.counters.remoteRequests.toNat
  cut : CutToBudgets config start s.log
  charged : ChargedBeforeAttempts s.log
  notOvercharged : NotOvercharged s.log
  onTime : OnTime s.log
  requested : ∀ a ∈ attemptsOf s.log, ∃ limit request,
    config.requestFactory limit = .ok request ∧ a.request = request.content
  retryable : ∀ a ∈ settled, Retryable config a
  held : (attemptsOf s.log).Pairwise (HeldAfter config)

/-- The quota of the step is that of the frozen bucket, and every rate-limited
attempt was in it. -/
structure Keyed (config : StepConfig ι ρ) (settled : List (Attempt ι ρ)) (s : Controller ι ρ) :
    Prop where
  frozen : ∀ a ∈ settled, ∀ response, a.limited? config = some response →
    ∃ bucket, tryBucket config.rateLimit response.metadata = some bucket ∧
      s.frozenBucket = some bucket
  keyed : s.quotaKey = s.frozenBucket.map config.quotaBucketKey
  permit : s.permit = none ∨ s.permit = s.quotaKey

/-- What holds between the statements that wait or freeze a bucket. -/
structure Settled (config : StepConfig ι ρ) (start : ScanResourceAccounting)
    (settled : List (Attempt ι ρ)) (pending : Option (Attempt ι ρ)) (s : Controller ι ρ) :
    Prop extends Tracked config start settled pending s, Keyed config settled s where
  paid : Charged s.log

/-- However a call ends. -/
def Ended (config : StepConfig ι ρ) (start : ScanResourceAccounting) (s : Controller ι ρ) : Prop :=
  ∃ settled pending, Tracked config start settled pending s

/-- The quota of the step is as it was. -/
structure SameQuota (s s' : Controller ι ρ) : Prop where
  frozenBucket : s'.frozenBucket = s.frozenBucket
  quotaKey : s'.quotaKey = s.quotaKey
  permit : s'.permit = s.permit

variable {config : StepConfig ι ρ} {start : ScanResourceAccounting}
  {settled : List (Attempt ι ρ)} {pending : Option (Attempt ι ρ)} {s s' : Controller ι ρ}

theorem Tracked.ended (h : Tracked config start settled pending s) : Ended config start s :=
  ⟨settled, pending, h⟩

theorem Tracked.sound (hstart : Sound start) (h : Tracked config start settled pending s) :
    Sound s.ledger ∧ s.ledger.profile = start.profile := by
  rw [h.ledger]
  exact run_keeps hstart _

theorem Keyed.of_same (h : Keyed config settled s) (hsame : SameQuota s s') :
    Keyed config settled s' := by
  refine ⟨?_, ?_, ?_⟩
  · rw [hsame.frozenBucket]
    exact h.frozen
  · rw [hsame.quotaKey, hsame.frozenBucket]
    exact h.keyed
  · rw [hsame.permit, hsame.quotaKey]
    exact h.permit

/-- An action that is neither a charge nor an attempt. -/
theorem Tracked.note {action : Action ι ρ} (h : Tracked config start settled pending s)
    (hcharge : action.charge? = none) (hattempt : action.attempt? = none)
    (hallowed : Allowed config s.ledger action) (htimely : Timely s.log action)
    (hover : NotOvercharged (s.log ++ [action])) :
    Tracked config start settled pending { s with log := s.log ++ [action] } := by
  have hattempts : attemptsOf (s.log ++ [action]) = attemptsOf s.log := by simp [hattempt]
  refine ⟨?_, ?_, ?_, ?_, ?_, ?_, hover, h.onTime.concat htimely, ?_, h.retryable, ?_⟩
  · simpa [hcharge] using h.ledger
  · rw [hattempts]
    exact h.attempts
  · rw [hattempts]
    exact h.stepAttempts
  · rw [hattempts]
    exact h.requests
  · exact h.cut.concat (h.ledger ▸ hallowed)
  · refine h.charged.concat fun a ha => ?_
    rw [ha] at hattempt
    cases hattempt
  · rw [hattempts]
    exact h.requested
  · rw [hattempts]
    exact h.held

-- ---------------------------------------------------------------------------
-- Charges
-- ---------------------------------------------------------------------------

/-- The state a charge leaves, whether it throws or not. -/
def Controller.charged (s : Controller ι ρ) (c : LedgerCall) : Controller ι ρ :=
  { s with ledger := (s.ledger.call c).2, log := s.log ++ [.charge c] }

theorem yields_charge {c : LedgerCall} {Q : Unit → Controller ι ρ → Prop}
    {E : Halt → Controller ι ρ → Prop} :
    Yields (Step.charge c) s Q E ↔
      ((s.ledger.call c).1 = none → Q () (s.charged c)) ∧
      ∀ error, (s.ledger.call c).1 = some error →
        E (.threw (.scanResourceError error)) (s.charged c) := by
  unfold Step.charge
  simp only [yields_bind, yields_get]
  cases hcall : s.ledger.call c with
  | mk error ledger =>
    cases error with
    | none => simp [Controller.charged, hcall]
    | some error => simp [Controller.charged, hcall, Step.fail]

theorem Tracked.charge {c : LedgerCall} (hstart : Sound start)
    (h : Tracked config start settled pending s)
    (hc : betweenSteps c = false ∨ attemptsOf s.log = []) (htimely : Timely s.log (.charge c))
    (hover : NotOvercharged (s.log ++ [.charge c])) :
    Tracked config start settled pending (s.charged c) := by
  have hattempts : attemptsOf (s.charged c).log = attemptsOf s.log := by
    simp [Controller.charged, Action.attempt?]
  have hremote := call_remoteRequests (h.sound hstart).1 c
  refine ⟨?_, ?_, ?_, ?_, ?_, ?_, hover, h.onTime.concat htimely, ?_, h.retryable, ?_⟩
  · show (s.ledger.call c).2 = start.run (chargesOf (s.log ++ [.charge c]))
    rw [chargesOf_concat, Action.charge?, Option.toList_some, run_concat, ← h.ledger]
  · rw [hattempts]
    exact h.attempts
  · rw [hattempts]
    rcases hc with hwithin | hnone
    · have hbefore := h.stepAttempts
      have hstep := call_stepAttempts s.ledger hwithin
      show _ ≤ (s.ledger.call c).2.currentStepAttempts.toNat
      omega
    · rw [hnone]
      exact Nat.zero_le _
  · rw [hattempts]
    have hbefore := h.requests
    show _ ≤ (s.ledger.call c).2.counters.remoteRequests.toNat
    omega
  · exact h.cut.concat trivial
  · exact h.charged.concat fun a ha => nomatch ha
  · rw [hattempts]
    exact h.requested
  · rw [hattempts]
    exact h.held

/-- Charges that are no waits. -/
def quiet : LedgerCall → Bool
  | .beginStep _ | .completePage _ _ | .commitRetryWait _ | .commitRateLimitWait _ => false
  | _ => true

theorem betweenSteps_of_quiet {c : LedgerCall} (hc : quiet c = true) : betweenSteps c = false := by
  cases c <;> first | rfl | cases hc

theorem timely_of_quiet {log : List (Action ι ρ)} {c : LedgerCall} (hc : quiet c = true) :
    Timely log (.charge c) := by
  cases c <;> trivial

theorem Charged.quiet {log : List (Action ι ρ)} {c : LedgerCall} (h : Charged log)
    (hc : quiet c = true) : Charged (log ++ [.charge c]) := by
  have hamounts : c.amounts.retryWaiting = 0 ∧ c.amounts.rateLimitWaiting = 0 := by
    cases c <;> first | exact ⟨rfl, rfl⟩ | cases hc
  refine ⟨?_, ?_⟩
  · simpa [Action.retryCharge, Action.retryDue, hamounts.1] using h.retry
  · simpa [Action.quotaCharge, Action.quotaDue, hamounts.2] using h.quota

theorem Settled.charge {c : LedgerCall} (hstart : Sound start)
    (h : Settled config start settled pending s) (hc : quiet c = true) :
    Settled config start settled pending (s.charged c) where
  toTracked := h.toTracked.charge hstart (Or.inl (betweenSteps_of_quiet hc)) (timely_of_quiet hc)
    (h.paid.quiet hc).notOvercharged
  toKeyed := h.toKeyed.of_same ⟨rfl, rfl, rfl⟩
  paid := h.paid.quiet hc

-- ---------------------------------------------------------------------------
-- The small statements
-- ---------------------------------------------------------------------------

section Statements

variable {α : Type} {Q : Unit → Controller ι ρ → Prop} {E : Halt → Controller ι ρ → Prop}

@[simp] theorem yields_fail {error : StepError} {Q : α → Controller ι ρ → Prop} :
    Yields (Step.fail error : Step ι ρ α) s Q E ↔ E (.threw error) s := Iff.rfl

@[simp] theorem yields_failWhen {bad : Bool} {error : StepError} :
    Yields (Step.failWhen bad error) s Q E ↔
      (bad = true → E (.threw error) s) ∧ (bad = false → Q () s) := yields_throwWhen

@[simp] theorem yields_note {action : Action ι ρ} :
    Yields (Step.note action) s Q E ↔ Q () { s with log := s.log ++ [action] } := Iff.rfl

@[simp] theorem yields_guardedBy {raise? : Option LocalRaise} :
    Yields (Step.guardedBy raise?) s Q E ↔
      (∀ raise, raise? = some raise → E (.threw (.callee raise)) s) ∧
        (raise? = none → Q () s) := by
  cases raise? <;> simp [Step.guardedBy]

@[simp] theorem yields_reserveWaiter {reservation : Option LocalRaise} :
    Yields (Step.reserveWaiter reservation) s Q E ↔
      (∀ raise, reservation = some raise → E (.threw (.callee raise)) s) ∧
        (reservation = none → Q () { s with waitReservation := true }) := by
  simp [Step.reserveWaiter]

@[simp] theorem yields_releaseWaiter :
    Yields Step.releaseWaiter s Q E ↔ Q () { s with waitReservation := false } := Iff.rfl

theorem yields_requireRetryAttemptResources {bodyBytes : UInt64} (hok : Q () s)
    (hthrown : ∀ error, E (.threw error) s) :
    Yields (Step.requireRetryAttemptResources bodyBytes) s Q E := by
  unfold Step.requireRetryAttemptResources
  simp only [yields_bind, yields_get]
  split
  · exact hok
  · exact hthrown _

end Statements

theorem Settled.ended (h : Settled config start settled pending s) : Ended config start s :=
  h.toTracked.ended

theorem Settled.charge_yields {c : LedgerCall} (hstart : Sound start)
    (h : Settled config start settled pending s) (hc : quiet c = true) :
    Yields (Step.charge c) s
      (fun _ s' => (s.ledger.call c).1 = none ∧ s' = s.charged c ∧
        Settled config start settled pending s')
      (fun _ => Ended config start) :=
  yields_charge.mpr
    ⟨fun hnone => ⟨hnone, rfl, h.charge hstart hc⟩, fun _ _ => (h.charge hstart hc).ended⟩

-- ---------------------------------------------------------------------------
-- Waiting for quota
-- ---------------------------------------------------------------------------

/-- A wait for quota has ended; it is all that is not charged yet. -/
structure QuotaDue (env : QuotaEnv) (log : List (Action ι ρ)) : Prop where
  retry : total Action.retryCharge log = total Action.retryDue log
  quota : total Action.quotaCharge log + (elapsedMilliseconds env.started env.completed).toNat =
    total Action.quotaDue log

/-- A wait for quota has just ended. -/
def QuotaAnswered (env : QuotaEnv) (log : List (Action ι ρ)) : Prop :=
  ∃ earlier key deadline, log = earlier ++ [.queue key env.started deadline env.completed]

theorem QuotaAnswered.timely {env : QuotaEnv} {log : List (Action ι ρ)}
    (h : QuotaAnswered env log) :
    Timely log (.charge (.commitRateLimitWait (elapsedMilliseconds env.started env.completed))) := by
  obtain ⟨earlier, key, deadline, hlog⟩ := h
  exact ⟨earlier, key, env.started, deadline, env.completed, hlog, rfl⟩

theorem QuotaDue.charge {env : QuotaEnv} {log : List (Action ι ρ)} (h : QuotaDue env log) :
    Charged (log ++
      [.charge (.commitRateLimitWait (elapsedMilliseconds env.started env.completed))]) := by
  have hretry := h.retry
  have hquota := h.quota
  refine ⟨?_, ?_⟩
  · simpa [Action.retryCharge, Action.retryDue, LedgerCall.amounts_retryWait, LedgerCall.amounts_rateLimitWait] using hretry
  · simpa [Action.quotaCharge, Action.quotaDue, LedgerCall.amounts_retryWait, LedgerCall.amounts_rateLimitWait] using hquota

/-- What a wait for quota leaves when it returns. -/
structure Granted (config : StepConfig ι ρ) (start : ScanResourceAccounting)
    (settled : List (Attempt ι ρ)) (pending : Option (Attempt ι ρ)) (key : QuotaBucketKey ι)
    (before s : Controller ι ρ) : Prop extends Tracked config start settled pending s where
  paid : Charged s.log
  frozenBucket : s.frozenBucket = before.frozenBucket
  quotaKey : s.quotaKey = before.quotaKey
  permit : s.permit = some key

theorem settleQuota_yields {key : QuotaBucketKey ι} {limitedBy : UInt32} {budgetBound : Bool}
    {env : QuotaEnv} {status : RateLimitAcquireStatus} (hstart : Sound start)
    (h : Tracked config start settled pending s) (hdue : QuotaDue env s.log)
    (hanswered : QuotaAnswered env s.log) :
    Yields (settleQuota key limitedBy budgetBound env status) s
      (fun _ => Granted config start settled pending key s) (fun _ => Ended config start) := by
  unfold settleQuota
  rw [yields_bind, yields_modify]
  have hchecks (s' : Controller ι ρ) (h' : Tracked config start settled pending s')
      (hpaid : Charged s'.log) (hfrozen : s'.frozenBucket = s.frozenBucket)
      (hkey : s'.quotaKey = s.quotaKey)
      (hpermit : s'.permit = if status = .acquired then some key else none) :
      Yields (do
        Step.failWhen (status == .cancelled) .executionCancelled
        Step.failWhen (status == .schedulerClosed && env.admissionClosed)
          (.closedAdmission limitedBy)
        Step.failWhen (status != .acquired)
          (.rateLimitFailure limitedBy (acquireReason status budgetBound))) s'
        (fun _ => Granted config start settled pending key s) (fun _ => Ended config start) := by
    simp only [yields_bind, yields_failWhen]
    refine ⟨fun _ => h'.ended, fun _ => ⟨fun _ => h'.ended, fun _ => ⟨fun _ => h'.ended, ?_⟩⟩⟩
    intro hacquired
    have hacquired : status = .acquired := by simpa using hacquired
    rw [if_pos hacquired] at hpermit
    exact ⟨h', hpaid, hfrozen, hkey, hpermit⟩
  by_cases hwaited : elapsedMilliseconds env.started env.completed = 0
  · have hpaid : Charged s.log := by
      refine ⟨hdue.retry, ?_⟩
      have hquota := hdue.quota
      rw [hwaited] at hquota
      exact hquota
    simp only [hwaited, bne_self_eq_false, Bool.false_eq_true, if_false]
    exact hchecks _ { h with } hpaid rfl rfl rfl
  · simp only [bne_iff_ne, ne_eq, hwaited, not_false_eq_true, if_true]
    have htracked := Tracked.charge hstart
      (s := { s with permit := if status = .acquired then some key else none })
      { h with } (Or.inl rfl) hanswered.timely hdue.charge.notOvercharged
    rw [yields_bind, yields_charge]
    exact ⟨fun _ => hchecks _ htracked hdue.charge rfl rfl rfl, fun _ _ => htracked.ended⟩

theorem awaitQuota_yields {key : QuotaBucketKey ι} {limitedBy : UInt32} {deadline : Int}
    {budgetBound : Bool} {env : QuotaEnv} (hstart : Sound start)
    (h : Tracked config start settled pending s) (hpaid : Charged s.log)
    (hallowed : Allowed config s.ledger (.queue key env.started deadline env.completed)) :
    Yields (awaitQuota key limitedBy deadline budgetBound env) s
      (fun _ => Granted config start settled pending key s) (fun _ => Ended config start) := by
  have hdue : QuotaDue env (s.log ++ [.queue key env.started deadline env.completed]) := by
    have hretry := hpaid.retry
    have hquota := hpaid.quota
    constructor
    · simpa [Action.retryCharge, Action.retryDue] using hretry
    · simp only [total_concat, Action.quotaCharge, Action.quotaDue]
      omega
  have hover : NotOvercharged (s.log ++ [.queue key env.started deadline env.completed]) :=
    ⟨hdue.retry.le, by have := hdue.quota; omega⟩
  have htracked := h.note rfl rfl hallowed trivial hover
  unfold awaitQuota
  rw [yields_bind, yields_note]
  cases env.answer with
  | error raise => exact htracked.ended
  | ok status =>
    refine (settleQuota_yields hstart htracked hdue ⟨s.log, key, deadline, rfl⟩).mono ?_ fun _ _ he => he
    intro _ s' hgranted
    exact { hgranted with }

theorem remainingOf_le {limit used amount : UInt64} (hle : amount ≤ remainingOf limit used)
    (hpositive : amount ≠ 0) : used.toNat + amount.toNat ≤ limit.toNat := by
  unfold remainingOf at hle
  rw [UInt64.le_iff_toNat_le] at hle
  have hamount : amount.toNat ≠ (0 : UInt64).toNat := fun h => hpositive (UInt64.toNat_inj.mp h)
  have hzero : (0 : UInt64).toNat = 0 := rfl
  by_cases hspent : used ≥ limit
  · rw [if_pos hspent] at hle
    omega
  · rw [if_neg hspent] at hle
    rw [ge_iff_le, UInt64.le_iff_toNat_le] at hspent
    rw [toNat_sub_of_toNat_le (by omega)] at hle
    omega

/-- The deadline handed to the coordinator keeps to the budgets. -/
theorem quotaAuthority_allowed (config : StepConfig ι ρ) (s : Controller ι ρ)
    (key : QuotaBucketKey ι) (started scanDeadline completed : Int) :
    Allowed config s.ledger (.queue key started
      (min scanDeadline (addBounded started (s.quotaAuthority config.rateLimit))) completed) := by
  refine ⟨s.quotaAuthority config.rateLimit, min_le_right _ _, ?_⟩
  by_cases hzero : s.quotaAuthority config.rateLimit = 0
  · exact Or.inl hzero
  · have hmin : (s.quotaAuthority config.rateLimit).toNat = _ := toNat_min _ _
    refine Or.inr ⟨remainingOf_le ?_ hzero, remainingOf_le ?_ hzero⟩
    · rw [UInt64.le_iff_toNat_le, hmin]
      exact min_le_right _ _
    · rw [UInt64.le_iff_toNat_le, hmin]
      exact min_le_left _ _

/-- The step holds the permit of its bucket, if it has one. -/
structure Armed (config : StepConfig ι ρ) (start : ScanResourceAccounting)
    (settled : List (Attempt ι ρ)) (s : Controller ι ρ) :
    Prop extends Settled config start settled none s where
  armed : s.permit = s.quotaKey

theorem reacquireQuota_yields {env : QuotaEnv} (hstart : Sound start)
    (h : Settled config start settled none s) :
    Yields (reacquireQuota config env) s (fun _ => Armed config start settled)
      (fun _ => Ended config start) := by
  unfold reacquireQuota
  rw [yields_bind, yields_get]
  cases hkey : s.quotaKey with
  | none =>
    have harmed : s.permit = s.quotaKey := by
      rcases h.permit with hnone | hsame
      · rw [hnone, hkey]
      · exact hsame
    exact ⟨h, harmed⟩
  | some key =>
    cases hpermit : s.permit with
    | some held =>
      rcases h.permit with hnone | hsame
      · rw [hpermit] at hnone
        cases hnone
      · exact ⟨h, hsame⟩
    | none =>
      simp only [yields_bind, yields_failWhen, yields_reserveWaiter, yields_releaseWaiter]
      refine ⟨fun _ => h.ended, fun _ => ⟨fun _ _ => h.ended, fun _ => ?_⟩⟩
      have hwaiting : Tracked config start settled none { s with waitReservation := true } :=
        { h.toTracked with }
      refine (awaitQuota_yields hstart hwaiting h.paid
        (quotaAuthority_allowed config s key env.started _ env.completed)).mono ?_ fun _ _ he => he
      intro _ s' hgranted
      have hkey' : s'.quotaKey = some key := hgranted.quotaKey.trans hkey
      have hfrozen : s'.frozenBucket = s.frozenBucket := hgranted.frozenBucket
      have harmed : s'.permit = s'.quotaKey := hgranted.permit.trans hkey'.symm
      refine ⟨⟨{ hgranted.toTracked with }, ⟨?_, ?_, Or.inr harmed⟩, hgranted.paid⟩, harmed⟩
      · show ∀ a ∈ settled, ∀ response, _ → ∃ bucket, _ ∧ s'.frozenBucket = some bucket
        rw [hfrozen]
        exact h.frozen
      · show s'.quotaKey = s'.frozenBucket.map config.quotaBucketKey
        rw [hgranted.quotaKey, hfrozen]
        exact h.keyed

-- ---------------------------------------------------------------------------
-- Making an attempt
-- ---------------------------------------------------------------------------

theorem Armed.charge {c : LedgerCall} (hstart : Sound start) (h : Armed config start settled s)
    (hc : quiet c = true) : Armed config start settled (s.charged c) :=
  ⟨h.toSettled.charge hstart hc, h.armed⟩

theorem admitAttempt_yields {env : TurnEnv} (hstart : Sound start)
    (h : Armed config start settled s) :
    Yields (admitAttempt env) s (fun _ => Armed config start settled)
      (fun _ => Ended config start) := by
  unfold admitAttempt
  have hrest (s' : Controller ι ρ) (h' : Armed config start settled s') :
      Yields (do
        Step.guardedBy env.admission
        Throwing.modify fun s => { s with requestPermit := true }
        Step.guardedBy env.buffers
        Throwing.modify fun s => { s with bufferReservation := true }) s'
        (fun _ => Armed config start settled) (fun _ => Ended config start) := by
    simp only [yields_bind, yields_guardedBy, yields_modify]
    refine ⟨fun _ _ => h'.ended, fun _ => ⟨fun _ _ => ?_, fun _ => ?_⟩⟩
    · exact ⟨settled, none, { h'.toTracked with }⟩
    · exact ⟨⟨{ h'.toTracked with }, { h'.toKeyed with }, h'.paid⟩, h'.armed⟩
  by_cases hwaited : env.admissionWaited = 0
  · simp only [hwaited, bne_self_eq_false, Bool.false_eq_true, if_false]
    exact hrest s h
  · simp only [bne_iff_ne, ne_eq, hwaited, not_false_eq_true, if_true]
    rw [yields_bind, yields_charge]
    have hcharged := h.charge hstart (c := .commitAdmissionWait env.admissionWaited
      env.admissionLimit) rfl
    exact ⟨fun _ => hrest _ hcharged, fun _ _ => hcharged.ended⟩

/-- The ledger has begun an attempt that is not out yet. -/
structure Begun (config : StepConfig ι ρ) (start : ScanResourceAccounting)
    (settled : List (Attempt ι ρ)) (s : Controller ι ρ) :
    Prop extends Armed config start settled s where
  begun : (attemptsOf s.log).length + 1 ≤ s.ledger.currentStepAttempts.toNat

theorem Begun.charge {c : LedgerCall} (hstart : Sound start) (h : Begun config start settled s)
    (hc : quiet c = true) : Begun config start settled (s.charged c) := by
  refine ⟨h.toArmed.charge hstart hc, ?_⟩
  have hattempts : attemptsOf (s.charged c).log = attemptsOf s.log := by
    simp [Controller.charged, Action.attempt?]
  have hstep := call_stepAttempts s.ledger (betweenSteps_of_quiet hc)
  have hbegun := h.begun
  rw [hattempts]
  show _ ≤ (s.ledger.call c).2.currentStepAttempts.toNat
  omega

theorem beginAttempt_yields {now : Int} (hstart : Sound start)
    (h : Armed config start settled s) :
    Yields (Step.charge (.beginAttempt now)) s (fun _ => Begun config start settled)
      (fun _ => Ended config start) := by
  have hcharged := h.charge hstart (c := .beginAttempt now) rfl
  refine yields_charge.mpr ⟨fun hreturned => ⟨hcharged, ?_⟩, fun _ _ => hcharged.ended⟩
  have hstep := call_stepAttempts s.ledger (c := .beginAttempt now) rfl
  rw [if_pos hreturned] at hstep
  have hattempts : attemptsOf (s.charged (.beginAttempt now)).log = attemptsOf s.log := by
    simp [Controller.charged, Action.attempt?]
  have hbefore := h.stepAttempts
  rw [hattempts]
  show _ ≤ (s.ledger.call (.beginAttempt now)).2.currentStepAttempts.toNat
  rw [hstep]
  exact Nat.succ_le_succ hbefore

/-- An attempt goes out under the permit of the step's bucket. -/
theorem Begun.send (h : Begun config start settled s) {a : Attempt ι ρ}
    (hpermit : a.permit = s.permit)
    (hrequested : ∃ limit request, config.requestFactory limit = .ok request ∧
      a.request = request.content)
    (hremote : start.counters.remoteRequests.toNat + (attemptsOf s.log).length + 1 ≤
      s.ledger.counters.remoteRequests.toNat) :
    Settled config start settled (some a) { s with log := s.log ++ [.attempt a] } := by
  have hsettled : attemptsOf s.log = settled := by simpa using h.attempts
  have hattempts : attemptsOf (s.log ++ [.attempt a]) = settled ++ [a] := by
    rw [attemptsOf_concat, hsettled]
    rfl
  have hlength : (attemptsOf (s.log ++ [.attempt a])).length = (attemptsOf s.log).length + 1 := by
    rw [hattempts, hsettled, List.length_append, List.length_singleton]
  have hpaid : Charged (s.log ++ [.attempt a]) := by
    refine ⟨?_, ?_⟩
    · simpa [Action.retryCharge, Action.retryDue] using h.paid.retry
    · simpa [Action.quotaCharge, Action.quotaDue] using h.paid.quota
  refine ⟨⟨?_, hattempts, ?_, ?_, h.cut.concat trivial, h.charged.concat fun _ _ => h.paid,
    hpaid.notOvercharged, h.onTime.concat trivial, ?_, h.retryable, ?_⟩, { h.toKeyed with }, hpaid⟩
  · simpa [Action.charge?] using h.ledger
  · rw [hlength]
    exact h.begun
  · rw [hlength]
    omega
  · rw [hattempts]
    intro x hx
    rcases List.mem_append.mp hx with hold | hnew
    · exact h.requested x (hsettled ▸ hold)
    · rw [List.mem_singleton.mp hnew]
      exact hrequested
  · rw [hattempts]
    have hheld := h.held
    rw [hsettled] at hheld
    refine List.pairwise_append.mpr ⟨hheld, List.pairwise_singleton _ _, ?_⟩
    intro earlier hearlier later hlater response hlimited
    obtain ⟨bucket, hbucket, hfrozen⟩ := h.frozen earlier hearlier response hlimited
    refine ⟨bucket, hbucket, ?_⟩
    rw [List.mem_singleton.mp hlater, hpermit, h.armed, h.keyed, hfrozen]
    rfl

/-- What the transport has done, as the call sees it. -/
def Completed.Of (a : Attempt ι ρ) : Completed → Prop
  | .response r => a.transfer = .response r
  | .failure f => a.transfer = .attemptFailure f
  | .cancelled x => a.transfer = .attemptCancelled x

/-- An attempt is out, and this is what has come of it. -/
def Sent (config : StepConfig ι ρ) (start : ScanResourceAccounting)
    (settled : List (Attempt ι ρ)) (env : TurnEnv) (completed : Completed) (s : Controller ι ρ) :
    Prop :=
  ∃ a, Settled config start settled (some a) s ∧ completed.Of a ∧ a.receipt = env.receipt

theorem completeTransfer_yields {allowance : PageResourceAllowance} {env : TurnEnv}
    {a : Attempt ι ρ} (h : Settled config start settled (some a) s)
    (hreceipt : a.receipt = env.receipt) :
    Yields (completeTransfer config allowance a.transfer) s
      (fun completed => Sent config start settled env completed)
      (fun _ => Ended config start) := by
  cases htransfer : a.transfer with
  | response response =>
    simp only [completeTransfer, yields_bind, yields_failWhen, yields_pure]
    exact ⟨fun _ => h.ended, fun _ => ⟨a, h, htransfer, hreceipt⟩⟩
  | attemptFailure failure => exact ⟨a, h, htransfer, hreceipt⟩
  | attemptCancelled facts => exact ⟨a, h, htransfer, hreceipt⟩
  | raised raise => exact h.ended

theorem transferRequest_yields {env : TurnEnv} {request : HttpRequest ρ}
    {allowance : PageResourceAllowance} (hstart : Sound start)
    (h : Begun config start settled s)
    (hrequest : ∃ limit, config.requestFactory limit = .ok request) :
    Yields (transferRequest config env request allowance) s
      (fun completed => Sent config start settled env completed)
      (fun _ => Ended config start) := by
  -- everything from the remote charge on, once the body is charged
  have hsend (s' : Controller ι ρ) (h' : Begun config start settled s') :
      Yields (do
        Step.charge .commitRemoteRequest
        let s ← Throwing.get
        Step.note (.attempt ⟨request.content, s.permit, env.transfer, env.receipt⟩)
        Step.charge (.commitRemoteTransportTime env.transportMilliseconds)
        completeTransfer config allowance env.transfer) s'
        (fun completed => Sent config start settled env completed)
        (fun _ => Ended config start) := by
    have hcharged := h'.charge hstart (c := .commitRemoteRequest) rfl
    rw [yields_bind, yields_charge]
    refine ⟨fun hreturned => ?_, fun _ _ => hcharged.ended⟩
    rw [yields_bind, yields_get, yields_bind, yields_note]
    have hremote := call_remoteRequests (h'.sound hstart).1 .commitRemoteRequest
    rw [if_pos hreturned] at hremote
    have hattempts : attemptsOf (s'.charged .commitRemoteRequest).log = attemptsOf s'.log := by
      simp [Controller.charged, Action.attempt?]
    have hsent := hcharged.send
      (a := ⟨request.content, (s'.charged .commitRemoteRequest).permit, env.transfer, env.receipt⟩)
      rfl ⟨hrequest.choose, request, hrequest.choose_spec, rfl⟩ (by
        have hbefore := h'.requests
        rw [hattempts]
        show _ ≤ (s'.ledger.call .commitRemoteRequest).2.counters.remoteRequests.toNat
        rw [hremote]
        exact Nat.succ_le_succ hbefore)
    refine (hsent.charge_yields hstart rfl).bind ?_
    rintro _ s'' ⟨-, -, hsettled⟩
    exact completeTransfer_yields hsettled rfl
  unfold transferRequest
  rw [yields_bind, yields_guardedBy]
  refine ⟨fun _ _ => h.ended, fun _ => ?_⟩
  by_cases hbody : request.bodyBytes = 0
  · simp only [hbody, bne_self_eq_false, Bool.false_eq_true, if_false]
    exact hsend s h
  · simp only [bne_iff_ne, ne_eq, hbody, not_false_eq_true, if_true]
    rw [yields_bind, yields_charge]
    have hcharged := h.charge hstart (c := .commitRequestBody request.bodyBytes) rfl
    exact ⟨fun _ => hsend _ hcharged, fun _ _ => hcharged.ended⟩

theorem executeOneAdmittedTransportAttempt_yields {env : TurnEnv} (hstart : Sound start)
    (h : Begun config start settled s) :
    Yields (executeOneAdmittedTransportAttempt config env) s
      (fun done => Sent config start settled env done.1) (fun _ => Ended config start) := by
  unfold executeOneAdmittedTransportAttempt
  rw [yields_bind, yields_get]
  cases hrequest : config.requestFactory s.ledger.activeAllowance.serializedRequestBodyBytes with
  | error raise => exact h.ended
  | ok request =>
    refine (transferRequest_yields hstart h ⟨_, hrequest⟩).bind ?_
    rintro completed s' ⟨a, hsettled, hof, hreceipt⟩
    exact ⟨a, ⟨{ hsettled.toTracked with }, { hsettled.toKeyed with }, hsettled.paid⟩, hof,
      hreceipt⟩

-- ---------------------------------------------------------------------------
-- Settling an attempt
-- ---------------------------------------------------------------------------

/-- A retryable attempt, once dealt with, is one of the settled. -/
theorem Settled.accept {a : Attempt ι ρ} (h : Settled config start settled (some a) s)
    (hretryable : Retryable config a)
    (hfrozen : ∀ response, a.limited? config = some response →
      ∃ bucket, tryBucket config.rateLimit response.metadata = some bucket ∧
        s.frozenBucket = some bucket) :
    Settled config start (settled ++ [a]) none s := by
  have hattempts : attemptsOf s.log = (settled ++ [a]) ++ [] := by
    rw [List.append_nil]
    exact h.attempts
  have hall {P : Attempt ι ρ → Prop} (hsettled : ∀ x ∈ settled, P x) (ha : P a) :
      ∀ x ∈ settled ++ [a], P x := by
    intro x hx
    rcases List.mem_append.mp hx with hold | hnew
    · exact hsettled x hold
    · rw [List.mem_singleton.mp hnew]
      exact ha
  exact ⟨{ h.toTracked with
      attempts := hattempts
      retryable := hall h.retryable hretryable },
    { h.toKeyed with frozen := hall h.frozen hfrozen }, h.paid⟩

/-- A retry wait of which `waited` of `delay` has been charged. -/
structure RetryDue (delay waited : UInt64) (log : List (Action ι ρ)) : Prop where
  retry : total Action.retryCharge log + delay.toNat = total Action.retryDue log + waited.toNat
  quota : total Action.quotaCharge log = total Action.quotaDue log

/-- A retry wait is under way, with `waited` of it charged. -/
def Underway (started : Int) (delay waited : UInt64) (log : List (Action ι ρ)) : Prop :=
  ∃ earlier wait, log = earlier ++ .plan started delay :: wait ∧ wait.all Action.ofWait = true ∧
    total Action.retryCharge wait = waited.toNat

theorem Underway.concat {started : Int} {delay waited waited' : UInt64}
    {log : List (Action ι ρ)} {action : Action ι ρ} (h : Underway started delay waited log)
    (hof : action.ofWait = true) (hcharge : waited.toNat + action.retryCharge = waited'.toNat) :
    Underway started delay waited' (log ++ [action]) := by
  obtain ⟨earlier, wait, rfl, hall, htotal⟩ := h
  refine ⟨earlier, wait ++ [action], by simp, by simp [hall, hof], ?_⟩
  rw [total_concat, htotal, hcharge]

/-- The state of a retry wait. -/
structure Waiting (config : StepConfig ι ρ) (start : ScanResourceAccounting)
    (settled : List (Attempt ι ρ)) (pending : Option (Attempt ι ρ)) (started : Int)
    (delay waited : UInt64) (s : Controller ι ρ) :
    Prop extends Tracked config start settled pending s, Keyed config settled s where
  due : RetryDue delay waited s.log
  waited_le : waited.toNat ≤ delay.toNat
  underway : Underway started delay waited s.log

section Waiting

variable {started : Int} {delay waited : UInt64}

theorem Waiting.ended (h : Waiting config start settled pending started delay waited s) :
    Ended config start s :=
  h.toTracked.ended

theorem Waiting.done (h : Waiting config start settled pending started delay waited s)
    (hdone : delay.toNat ≤ waited.toNat) : Settled config start settled pending s := by
  refine ⟨h.toTracked, h.toKeyed, ?_, h.due.quota⟩
  have hretry := h.due.retry
  have hle := h.waited_le
  omega

/-- Charging a slice, of what is left of the delay at most. -/
theorem Waiting.charge (hstart : Sound start)
    (h : Waiting config start settled pending started delay waited s) (debit : UInt64)
    (hdebit : waited.toNat + debit.toNat ≤ delay.toNat)
    (htimely : Timely s.log (.charge (.commitRetryWait debit))) :
    Waiting config start settled pending started delay (waited + debit)
      (s.charged (.commitRetryWait debit)) := by
  have hsum : (waited + debit).toNat = waited.toNat + debit.toNat := by
    have hlt := delay.toNat_lt
    exact toNat_add_of_lt (by omega)
  have hretry := h.due.retry
  have hdue : RetryDue delay (waited + debit) (s.log ++ [.charge (.commitRetryWait debit)]) := by
    refine ⟨?_, ?_⟩
    · simp only [total_concat, Action.retryCharge, Action.retryDue, LedgerCall.amounts_retryWait,
        hsum]
      omega
    · simpa [Action.quotaCharge, Action.quotaDue, LedgerCall.amounts_retryWait,
        LedgerCall.amounts_rateLimitWait] using h.due.quota
  have hover : NotOvercharged (s.log ++ [.charge (.commitRetryWait debit)]) := by
    refine ⟨?_, hdue.quota.le⟩
    have hretry' := hdue.retry
    omega
  refine ⟨h.toTracked.charge hstart (Or.inl rfl) htimely hover,
    h.toKeyed.of_same ⟨rfl, rfl, rfl⟩, hdue, by omega, h.underway.concat rfl ?_⟩
  rw [hsum, Action.retryCharge, LedgerCall.amounts_retryWait]

/-- What a wait does besides charging. -/
theorem Waiting.note (h : Waiting config start settled pending started delay waited s)
    (action : Action ι ρ) (hof : action.ofWait = true) (hcharge : action.charge? = none)
    (htimely : Timely s.log action) :
    Waiting config start settled pending started delay waited
      { s with log := s.log ++ [action] } := by
  have hfree : action.retryCharge = 0 ∧ action.retryDue = 0 ∧ action.quotaCharge = 0 ∧
      action.quotaDue = 0 ∧ action.attempt? = none ∧ Allowed config s.ledger action := by
    cases action with
    | sleep | woke | reached => exact ⟨rfl, rfl, rfl, rfl, rfl, trivial⟩
    | charge => cases hcharge
    | attempt | plan | queue => cases hof
  obtain ⟨hretryCharge, hretryDue, hquotaCharge, hquotaDue, hattempt, hallowed⟩ := hfree
  have hdue : RetryDue delay waited (s.log ++ [action]) := by
    refine ⟨?_, ?_⟩
    · simpa [hretryCharge, hretryDue] using h.due.retry
    · simpa [hquotaCharge, hquotaDue] using h.due.quota
  have hover : NotOvercharged (s.log ++ [action]) := by
    refine ⟨?_, hdue.quota.le⟩
    have hretry := hdue.retry
    have hle := h.waited_le
    omega
  exact ⟨h.toTracked.note hcharge hattempt hallowed htimely hover,
    h.toKeyed.of_same ⟨rfl, rfl, rfl⟩, hdue, h.waited_le,
    h.underway.concat hof (by rw [hretryCharge, Nat.add_zero])⟩

end Waiting

theorem slice_le (left : UInt64) : (min 5 left).toNat ≤ 5 := by
  rw [toNat_min]
  exact min_le_left _ _

theorem toNat_toUInt64_le (n : Nat) : n.toUInt64.toNat ≤ n := Nat.mod_le _ _

theorem waitSlices_yields {started : Int} {delay : UInt64} (hstart : Sound start)
    (slices : List SliceEnv) {waited : UInt64}
    (h : Waiting config start settled pending started delay waited s) :
    Yields (waitSlices delay (addBounded started delay) slices waited) s
      (fun _ => Settled config start settled pending) (fun _ => Ended config start) := by
  induction slices generalizing waited s with
  | nil =>
    unfold waitSlices
    by_cases hleft : waited < delay
    · rw [if_pos hleft]
      exact h.ended
    · rw [if_neg hleft]
      rw [UInt64.lt_iff_toNat_lt] at hleft
      exact h.done (by omega)
  | cons env rest ih =>
    unfold waitSlices
    by_cases hleft : waited < delay
    · rw [if_pos hleft]
      rw [UInt64.lt_iff_toNat_lt] at hleft
      have hroom : (delay - waited).toNat = delay.toNat - waited.toNat :=
        toNat_sub_of_toNat_le hleft.le
      simp only [yields_bind, yields_failWhen, yields_get]
      refine ⟨fun _ => h.ended, fun _ => ⟨fun _ => h.ended, fun _ => ?_⟩⟩
      by_cases hover : env.before ≥ addBounded started delay
      · -- the deadline of the wait has passed: charge the rest and stop
        rw [if_pos hover, yields_bind, yields_note, yields_charge]
        have hreached := h.note (.reached env.before) rfl rfl trivial
        have hcharged := hreached.charge hstart (delay - waited) (by omega) (Or.inr (by
          obtain ⟨earlier, wait, hlog, hall, htotal⟩ := h.underway
          refine ⟨earlier, started, delay, wait, env.before, ?_, hall, hover, by omega⟩
          show s.log ++ _ = _
          rw [hlog, List.append_assoc, List.cons_append]))
        refine ⟨fun _ => hcharged.done ?_, fun _ _ => hcharged.ended⟩
        have hlt := delay.toNat_lt
        rw [toNat_add_of_lt (by omega)]
        omega
      · rw [if_neg hover]
        simp only [yields_bind, yields_note, yields_guardedBy]
        have hslept := h.note
          (.sleep (min 5 (addBounded started delay - env.before).toNat.toUInt64)) rfl rfl
          (slice_le _)
        refine ⟨fun _ _ => hslept.ended, fun _ => ?_⟩
        have hwoke := hslept.note (.woke env.before env.after) rfl rfl trivial
        by_cases hstill : env.after ≤ env.before
        · rw [if_pos hstill]
          exact ih hwoke
        · rw [if_neg hstill, yields_bind, yields_charge]
          have hdebit := toNat_min (delay - waited) (env.after - env.before).toNat.toUInt64
          have helapsed := toNat_toUInt64_le (env.after - env.before).toNat
          have hcharged := hwoke.charge hstart
            (min (delay - waited) (env.after - env.before).toNat.toUInt64) (by omega) (Or.inl (by
              refine ⟨s.log, _, env.before, env.after, List.append_assoc _ _ _, ?_⟩
              omega))
          exact ⟨fun _ => ih hcharged, fun _ _ => hcharged.ended⟩
    · rw [if_neg hleft]
      rw [UInt64.lt_iff_toNat_lt] at hleft
      exact h.done (by omega)

/-- The delay keeps to the retry budget of the policy and to the shared one. -/
theorem retryDelay_allowed (config : StepConfig ι ρ) (s : Controller ι ρ) (started : Int)
    (hretry : s.ledger.counters.cumulativeRetryWaitingMilliseconds.toNat ≤
      config.policy.maxCumulativeWaitingMillisecondsPerScan.toNat)
    (hshared : s.ledger.counters.cumulativeWaitingMilliseconds.toNat ≤
      s.ledger.profile.scan.cumulativeWaitingMilliseconds.toNat) :
    Allowed config s.ledger (.plan started (s.retryDelay config) : Action ι ρ) := by
  have hown := toNat_sub_of_toNat_le hretry
  have hleft := toNat_sub_of_toNat_le hshared
  simp only [Allowed, Controller.retryDelay, toNat_min]
  omega

theorem waitToRepeat_yields {env : WaitEnv} (hstart : Sound start)
    (h : Settled config start settled pending s) :
    Yields (waitToRepeat config env) s
      (fun _ => Settled config start settled pending) (fun _ => Ended config start) := by
  have hreleased : Settled config start settled pending
      { s with bufferReservation := false, permit := none } :=
    ⟨{ h.toTracked with }, { h.toKeyed with permit := Or.inl rfl }, h.paid⟩
  unfold waitToRepeat
  simp only [yields_bind, yields_modify, yields_get, yields_failWhen, yields_reserveWaiter,
    yields_note, yields_releaseWaiter, Bool.or_eq_false_iff, decide_eq_false_iff_not, ge_iff_le,
    UInt64.le_iff_toNat_le, not_le]
  refine ⟨fun _ => hreleased.ended, fun hbudgets => ⟨fun _ => hreleased.ended, fun _ =>
    ⟨fun _ _ => hreleased.ended, fun _ => ?_⟩⟩⟩
  have hallowed := retryDelay_allowed config { s with bufferReservation := false, permit := none }
    env.started hbudgets.1.le hbudgets.2.le
  generalize Controller.retryDelay { s with bufferReservation := false, permit := none } config =
    delay at hallowed ⊢
  have hdue : RetryDue delay 0 (s.log ++ [.plan env.started delay]) := by
    have hretry := h.paid.retry
    refine ⟨?_, ?_⟩
    · simp only [total_concat, Action.retryCharge, Action.retryDue, UInt64.toNat_zero]
      omega
    · simpa [Action.quotaCharge, Action.quotaDue] using h.paid.quota
  have hover : NotOvercharged (s.log ++ [.plan env.started delay]) := by
    refine ⟨?_, hdue.quota.le⟩
    have hretry := hdue.retry
    simp only [UInt64.toNat_zero] at hretry
    omega
  have hplanned := Tracked.note (s := { s with
      bufferReservation := false
      permit := none
      waitReservation := true }) { h.toTracked with } rfl rfl hallowed trivial hover
  have hwaiting : Waiting config start settled pending env.started delay 0 { s with
      bufferReservation := false
      permit := none
      waitReservation := true
      log := s.log ++ [.plan env.started delay] } :=
    ⟨hplanned, { h.toKeyed with permit := Or.inl rfl }, hdue, Nat.zero_le _,
      s.log, [], rfl, rfl, rfl⟩
  refine (waitSlices_yields hstart env.slices hwaiting).mono ?_ fun _ _ he => he
  intro _ s' hsettled
  exact ⟨fun _ => hsettled.ended, fun _ =>
    ⟨{ hsettled.toTracked with }, { hsettled.toKeyed with }, hsettled.paid⟩⟩

/-- An attempt is settled, and none is pending. -/
def Around (config : StepConfig ι ρ) (start : ScanResourceAccounting) (s : Controller ι ρ) : Prop :=
  ∃ settled, Settled config start settled none s

/-- What is returned is the response of the last attempt. -/
def Answered (returned : RetriedHttpResponse) (s : Controller ι ρ) : Prop :=
  ∃ earlier a response linkBytes, attemptsOf s.log = earlier ++ [a] ∧
    a.transfer = .response response ∧
    returned.response = discardRateLimitMetadata linkBytes response

/-- What a turn leaves: nothing pending if the loop goes round again. -/
def TurnDone (config : StepConfig ι ρ) (start : ScanResourceAccounting)
    (returned : Option RetriedHttpResponse) (s : Controller ι ρ) : Prop :=
  (returned = none → Around config start s) ∧ Ended config start s ∧
    ∀ response, returned = some response → Answered response s

theorem repeatOrFail_yields {env : TurnEnv} {bodyBytes : UInt64} {retryable : Bool}
    {error : StepError} {a : Attempt ι ρ} (hstart : Sound start)
    (h : Settled config start settled (some a) s)
    (hretryable : retryable = true → config.policy.enabled = true → Retryable config a)
    (hunlimited : a.limited? config = none) :
    Yields (repeatOrFail config env bodyBytes retryable error) s
      (fun returned => TurnDone config start returned) (fun _ => Ended config start) := by
  unfold repeatOrFail
  rw [yields_bind, yields_get, yields_bind, yields_failWhen]
  refine ⟨fun _ => h.ended, fun hrepeats => ?_⟩
  rw [Bool.or_eq_false_iff, Bool.not_eq_false'] at hrepeats
  have henabled : config.policy.enabled = true := by
    have hrefused := hrepeats.2
    unfold Controller.repeatRefused at hrefused
    simp only [Bool.or_eq_false_iff, Bool.not_eq_false'] at hrefused
    exact hrefused.1.1.1
  rw [yields_bind]
  refine yields_requireRetryAttemptResources ?_ fun _ => h.ended
  refine (waitToRepeat_yields hstart h).bind ?_
  intro _ s' hsettled
  have haccepted := hsettled.accept (hretryable hrepeats.1 henabled) fun response hlimited => by
    rw [hunlimited] at hlimited
    cases hlimited
  exact ⟨fun _ => ⟨settled ++ [a], haccepted⟩, haccepted.ended, fun _ hsome => (nomatch hsome)⟩

/-- The bucket of a rate-limited attempt is frozen; the key may not be there yet. -/
structure Freezing (config : StepConfig ι ρ) (start : ScanResourceAccounting)
    (settled : List (Attempt ι ρ)) (pending : Option (Attempt ι ρ)) (bucket : Option Bytes)
    (s : Controller ι ρ) : Prop extends Tracked config start settled pending s where
  paid : Charged s.log
  frozenBucket : s.frozenBucket = some bucket
  frozen : ∀ a ∈ settled, ∀ response, a.limited? config = some response →
    tryBucket config.rateLimit response.metadata = some bucket

theorem freezeBucket_yields {status : UInt32} {bucket : Option Bytes}
    (h : Settled config start settled pending s) :
    Yields (freezeBucket status bucket) s
      (fun _ => Freezing config start settled pending bucket) (fun _ => Ended config start) := by
  unfold freezeBucket
  rw [yields_bind, yields_get]
  cases hfrozen : s.frozenBucket with
  | some frozen =>
    simp only [yields_failWhen, bne_eq_false_iff_eq]
    refine ⟨fun _ => h.ended, fun hsame => ⟨h.toTracked, h.paid, hsame ▸ hfrozen, ?_⟩⟩
    intro a ha response hlimited
    obtain ⟨earlier, hbucket, hearlier⟩ := h.frozen a ha response hlimited
    rw [hfrozen, Option.some.injEq] at hearlier
    rw [hbucket, ← hearlier, hsame]
  | none =>
    refine ⟨{ h.toTracked with }, h.paid, rfl, fun a ha response hlimited => ?_⟩
    obtain ⟨earlier, -, hearlier⟩ := h.frozen a ha response hlimited
    rw [hfrozen] at hearlier
    cases hearlier

theorem noteImmediate_yields {status : UInt32} {immediate : Bool} {bucket : Option Bytes}
    (h : Freezing config start settled pending bucket s) :
    Yields (noteImmediate status immediate) s
      (fun _ => Freezing config start settled pending bucket) (fun _ => Ended config start) := by
  simp only [noteImmediate, yields_bind, yields_get, yields_failWhen, yields_modify]
  exact ⟨fun _ => h.toTracked.ended, fun _ => { h with }⟩

theorem waitAsGuided_yields {env : TurnEnv} {status : UInt32} {guidance : RateLimitGuidanceResult}
    {bucket : Option Bytes} (hstart : Sound start)
    (h : Freezing config start settled pending bucket s) :
    Yields (waitAsGuided config env status guidance) s
      (fun _ s' => Settled config start settled pending s' ∧ s'.frozenBucket = some bucket)
      (fun _ => Ended config start) := by
  have hended : Ended config start s := h.toTracked.ended
  unfold waitAsGuided
  simp only [yields_bind, yields_get, yields_failWhen, yields_modify, yields_reserveWaiter,
    yields_releaseWaiter]
  refine ⟨fun _ => hended, fun _ => ⟨fun _ => hended, fun _ => ⟨fun _ => hended, fun _ =>
    ⟨fun _ _ => ⟨settled, pending, { h.toTracked with }⟩, fun _ => ?_⟩⟩⟩⟩
  have hbucket : s.frozenBucket.getD none = bucket := by
    rw [h.frozenBucket]
    rfl
  rw [hbucket]
  have hwaiting : Tracked config start settled pending { s with
      bufferReservation := false
      waitReservation := true
      quotaKey := some (config.quotaBucketKey bucket)
      frozenRateLimitStatus := status } := { h.toTracked with }
  refine (awaitQuota_yields hstart hwaiting h.paid (quotaAuthority_allowed config s
    (config.quotaBucketKey bucket) env.rateLimit.started _ env.rateLimit.completed)).mono ?_
    fun _ _ he => he
  intro _ s' hgranted
  have hfrozen : s'.frozenBucket = some bucket := hgranted.frozenBucket.trans h.frozenBucket
  have hkey : s'.quotaKey = some (config.quotaBucketKey bucket) := hgranted.quotaKey
  refine ⟨⟨{ hgranted.toTracked with }, ⟨?_, ?_, Or.inr ?_⟩, hgranted.paid⟩, hfrozen⟩
  · intro a ha response hlimited
    exact ⟨bucket, h.frozen a ha response hlimited, hfrozen⟩
  · show s'.quotaKey = s'.frozenBucket.map config.quotaBucketKey
    rw [hkey, hfrozen]
    rfl
  · show s'.permit = s'.quotaKey
    rw [hgranted.permit, hkey]

theorem settleRateLimited_yields {env : TurnEnv} {response : HttpResponse} {bodyBytes : UInt64}
    {a : Attempt ι ρ} (hstart : Sound start) (h : Settled config start settled (some a) s)
    (htransfer : a.transfer = .response response) (hreceipt : a.receipt = env.receipt)
    (hdeclared : config.rateLimit.matchesStatus response.status = true) :
    Yields (settleRateLimited config env response bodyBytes) s
      (fun _ => Around config start) (fun _ => Ended config start) := by
  unfold settleRateLimited
  refine (h.charge_yields hstart rfl).bind ?_
  rintro _ s₁ ⟨-, -, h₁⟩
  simp only [yields_bind, yields_failWhen]
  refine ⟨fun _ => h₁.ended, fun hwaits => ⟨fun _ => h₁.ended, fun hfields => ?_⟩⟩
  cases hbucket : tryBucket config.rateLimit response.metadata with
  | none => exact h₁.ended
  | some bucket =>
    refine (freezeBucket_yields h₁).bind ?_
    intro _ s₂ h₂
    rw [yields_bind, yields_failWhen]
    refine ⟨fun _ => h₂.toTracked.ended, fun hguidance => ?_⟩
    refine (noteImmediate_yields h₂).bind ?_
    intro _ s₃ h₃
    rw [yields_bind, yields_get, yields_bind, yields_failWhen]
    refine ⟨fun _ => h₃.toTracked.ended, fun _ => ?_⟩
    rw [yields_bind]
    refine yields_requireRetryAttemptResources ?_ fun _ => h₃.toTracked.ended
    refine (waitAsGuided_yields hstart h₃).mono ?_ fun _ _ he => he
    rintro _ s₄ ⟨h₄, hfrozen⟩
    simp only [Bool.or_eq_false_iff, beq_eq_false_iff_ne, Bool.not_eq_false'] at hwaits hfields
    have hretryable : Retryable config a := by
      refine .guided response htransfer hdeclared hwaits hfields (by rw [hbucket]; rfl) ?_
      rw [hreceipt]
      simpa using hguidance
    refine ⟨settled ++ [a], h₄.accept hretryable fun limited hlimited => ?_⟩
    have hsame : limited = response := by
      simp only [Attempt.limited?, htransfer, hdeclared, if_true, Option.some.injEq] at hlimited
      exact hlimited.symm
    rw [hsame]
    exact ⟨bucket, hbucket, hfrozen⟩

theorem isRetryableTransportFailure_iff {failure : HttpAttemptFailure} :
    isRetryableTransportFailure failure = true ↔
      failure.facts = ⟨0, 0, 0, 0⟩ ∧ failure.kind ≠ .other := by
  obtain ⟨kind, ⟨status, header, wire, decompressed⟩, error⟩ := failure
  unfold isRetryableTransportFailure
  by_cases hfacts : (⟨status, header, wire, decompressed⟩ : HttpAttemptFacts) = ⟨0, 0, 0, 0⟩
  · rw [HttpAttemptFacts.mk.injEq] at hfacts
    obtain ⟨rfl, rfl, rfl, rfl⟩ := hfacts
    cases kind <;> simp
  · rw [if_pos]
    · simp [hfacts]
    · by_contra hzero
      simp only [Bool.or_eq_true, bne_iff_ne, ne_eq, not_or, not_not] at hzero
      exact hfacts (by rw [hzero.1.1.1, hzero.1.1.2, hzero.1.2, hzero.2])

theorem settle_yields {env : TurnEnv} {bodyBytes : UInt64} {completed : Completed}
    (hstart : Sound start) (h : Sent config start settled env completed s) :
    Yields (settle config env bodyBytes completed) s
      (fun returned => TurnDone config start returned) (fun _ => Ended config start) := by
  obtain ⟨a, h, hof, hreceipt⟩ := h
  cases completed with
  | response response =>
    have htransfer : a.transfer = .response response := hof
    by_cases hdeclared : config.rateLimit.matchesStatus response.status = true
    · simp only [settle, hdeclared, if_true]
      refine (settleRateLimited_yields hstart h htransfer hreceipt hdeclared).bind ?_
      rintro _ s' ⟨settled', hsettled⟩
      exact ⟨fun _ => ⟨settled', hsettled⟩, hsettled.ended, fun _ hsome => (by cases hsome)⟩
    · by_cases hgateway : isRetryableGatewayResponse response = true
      · simp only [settle, hdeclared, hgateway, Bool.false_eq_true, if_false, Bool.not_true]
        refine (h.charge_yields hstart rfl).bind ?_
        rintro _ s' ⟨-, -, h'⟩
        refine repeatOrFail_yields hstart h' (fun _ henabled => ?_) ?_
        · simp only [isRetryableGatewayResponse, isGatewayStatus, Bool.and_eq_true,
            Bool.or_eq_true, beq_iff_eq, Bool.not_eq_true'] at hgateway
          exact .gateway response htransfer henabled (by tauto) hgateway.2 (by simpa using hdeclared)
        · simp only [Attempt.limited?, htransfer, hdeclared, Bool.false_eq_true, if_false]
      · simp only [settle, hdeclared, hgateway, Bool.false_eq_true, if_false, Bool.not_false,
          if_true, returnResponse, yields_bind, yields_get]
        refine (h.charge_yields hstart rfl).mono ?_ fun _ _ he => he
        rintro _ s' ⟨-, -, h'⟩
        cases env.retained with
        | error raise => exact h'.ended
        | ok kept =>
          refine ⟨fun hnone => (by cases hnone), ⟨settled, some a, { h'.toTracked with }⟩, ?_⟩
          intro returned hreturned
          rw [← Option.some.inj hreturned]
          exact ⟨settled, a, response, env.linkBytes, h'.attempts, htransfer, rfl⟩
  | cancelled facts =>
    simp only [settle]
    refine (h.charge_yields hstart rfl).bind ?_
    rintro _ s' ⟨-, -, h'⟩
    exact h'.ended
  | failure failure =>
    have htransfer : a.transfer = .attemptFailure failure := hof
    simp only [settle]
    refine (h.charge_yields hstart rfl).bind ?_
    rintro _ s' ⟨-, -, h'⟩
    refine repeatOrFail_yields hstart h' (fun hretryable henabled => ?_) ?_
    · obtain ⟨hfacts, hkind⟩ := isRetryableTransportFailure_iff.mp hretryable
      exact .unanswered failure htransfer henabled hfacts hkind
    · simp only [Attempt.limited?, htransfer]

-- ---------------------------------------------------------------------------
-- Whole calls
-- ---------------------------------------------------------------------------

theorem takeTurn_yields {env : TurnEnv} (hstart : Sound start)
    (h : Settled config start settled none s) :
    Yields (takeTurn config env) s (fun returned => TurnDone config start returned)
      (fun _ => Ended config start) := by
  unfold takeTurn
  rw [yields_bind, yields_failWhen]
  refine ⟨fun _ => h.ended, fun _ => ?_⟩
  refine (reacquireQuota_yields hstart h).bind fun _ s₁ h₁ => ?_
  refine (admitAttempt_yields hstart h₁).bind fun _ s₂ h₂ => ?_
  refine (beginAttempt_yields hstart h₂).bind fun _ s₃ h₃ => ?_
  refine (executeOneAdmittedTransportAttempt_yields hstart h₃).bind fun done s₄ h₄ => ?_
  exact settle_yields hstart h₄

theorem takeTurns_yields (hstart : Sound start) (turns : List TurnEnv)
    (h : Settled config start settled none s) :
    Yields (takeTurns config turns) s
      (fun returned s' => Ended config start s' ∧ Answered returned s')
      (fun _ => Ended config start) := by
  induction turns generalizing settled s with
  | nil => exact h.ended
  | cons env rest ih =>
    unfold takeTurns
    refine (takeTurn_yields hstart h).bind fun returned s' hdone => ?_
    cases returned with
    | some response => exact ⟨hdone.2.1, hdone.2.2 response rfl⟩
    | none =>
      obtain ⟨settled', hsettled⟩ := hdone.1 rfl
      exact ih hsettled

/-- Whatever a call has done by its end, and what it still owns. -/
theorem executeHttpStepWithRetry_ended (config : StepConfig ι ρ) (beginAt : Int)
    (turns : List TurnEnv) (hsound : Sound s.ledger) :
    let r := executeHttpStepWithRetry config beginAt turns s
    Ended config s.ledger r.2 ∧ (∀ returned, r.1 = .ok returned → Answered returned r.2) ∧
      (r.1 ≠ .error .unfinished →
        r.2.permit = none ∧ r.2.requestPermit = false ∧ r.2.waitReservation = false ∧
          (r.2.bufferReservation = true → ∃ returned, r.1 = .ok returned)) := by
  have hentered : Tracked config s.ledger [] none s.enter :=
    ⟨rfl, rfl, Nat.zero_le _, le_rfl, fun before _ _ h => by simp [Controller.enter] at h,
      fun before _ _ h => by simp [Controller.enter] at h, ⟨le_rfl, le_rfl⟩,
      fun before _ _ h => by simp [Controller.enter] at h,
      fun _ h => (nomatch h), fun _ h => (nomatch h), List.Pairwise.nil⟩
  have hpaid : Charged ([.charge (.beginStep beginAt)] : List (Action ι ρ)) := ⟨rfl, rfl⟩
  have hbegun : Settled config s.ledger [] none (s.enter.charged (.beginStep beginAt)) :=
    ⟨hentered.charge hsound (Or.inr rfl) trivial hpaid.notOvercharged,
      ⟨fun _ h => (nomatch h), rfl, Or.inl rfl⟩, hpaid⟩
  have hbody : Yields (do
      Step.charge (.beginStep beginAt)
      takeTurns config turns) s.enter
      (fun returned s' => Ended config s.ledger s' ∧ Answered returned s')
      (fun _ => Ended config s.ledger) := by
    rw [yields_bind, yields_charge]
    exact ⟨fun _ => takeTurns_yields hsound turns hbegun, fun _ _ => hbegun.ended⟩
  unfold executeHttpStepWithRetry
  dsimp only
  unfold Yields at hbody
  split at hbody
  · rename_i returned s' hrun
    obtain ⟨⟨settled, pending, htracked⟩, hanswered⟩ := hbody
    rw [hrun]
    refine ⟨⟨settled, pending, { htracked with }⟩, fun other hother => ?_,
      fun _ => ⟨rfl, rfl, rfl, fun _ => ⟨returned, rfl⟩⟩⟩
    rw [← Except.ok.inj hother]
    exact hanswered
  · rename_i halt s' hrun
    obtain ⟨settled, pending, htracked⟩ := hbody
    rw [hrun]
    cases halt with
    | threw error =>
      exact ⟨⟨settled, pending, { htracked with }⟩, fun _ h => (nomatch h),
        fun _ => ⟨rfl, rfl, rfl, fun h => (nomatch h)⟩⟩
    | unfinished =>
      exact ⟨⟨settled, pending, htracked⟩, fun _ h => (nomatch h), fun h => absurd rfl h⟩

-- ---------------------------------------------------------------------------
-- Whole scans
-- ---------------------------------------------------------------------------

/-- One step of a scan: a call, and what the scan charges until its next step. -/
structure ScanStep (ι ρ : Type) where
  config : StepConfig ι ρ
  beginAt : Int
  turns : List TurnEnv
  afterwards : List LedgerCall

namespace ScanStep

def call (step : ScanStep ι ρ) (s : Controller ι ρ) :
    Except Halt RetriedHttpResponse × Controller ι ρ :=
  executeHttpStepWithRetry step.config step.beginAt step.turns s

def after (step : ScanStep ι ρ) (s : Controller ι ρ) : Controller ι ρ :=
  { (step.call s).2 with ledger := (step.call s).2.ledger.run step.afterwards }

end ScanStep

def repeatTurn (transfer : Transfer) : TurnEnv where
  cancelled := false
  quota := ⟨30, none, .ok .acquired, 30, false⟩
  admissionWaited := 0
  admissionLimit := 0
  admission := none
  buffers := none
  attemptAt := 1
  requestFails := none
  transfer := transfer
  transportMilliseconds := 1
  receipt := ⟨0, 20⟩
  rateLimit := ⟨20, none, .ok .acquired, 25, false⟩
  linkBytes := 0
  retained := .ok true
  wait := ⟨none, 0, [⟨false, 2, 0, none, 5⟩, ⟨false, 2, 5, none, 15⟩], false⟩

end Cuac.Runtime.Resilience

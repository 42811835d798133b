import Mathlib.Data.List.Induction
import Cuac.Runtime.ScanResourceAccounting

/-!
# Runtime — the ledger over whole runs

Every sequence of calls to the scan ledger, failing ones and late ones included.

The counters are exact: each is the sum of what the calls that returned have
charged, taken over the naturals. `Sound` is the invariant that makes the checks
behind an allowance redundant, and so makes a refused call leave every
cumulative counter alone — with one exception, the shared waiting counter, which
is written before the mechanism's own budget is checked.

Main results:

* `ledger_bounds` — bounds, exactness, monotonicity and the one deadline.
* `commit_failure_atomic` — which refused calls leave the counters alone.
-/

namespace Cuac.Runtime

open Cuac.Lib

-- ---------------------------------------------------------------------------
-- Checked arithmetic
-- ---------------------------------------------------------------------------

theorem toNat_le_max (a : UInt64) : a.toNat ≤ (0xFFFFFFFFFFFFFFFF : UInt64).toNat := by
  have h := a.toNat_lt
  have hmax : (0xFFFFFFFFFFFFFFFF : UInt64).toNat = 2 ^ 64 - 1 := by decide
  omega

/-- An addition goes through exactly when the limit covers the exact sum. -/
theorem addChecked_eq_ok {current amount limit r : UInt64} :
    addChecked current amount limit = .ok r ↔
      current.toNat + amount.toNat ≤ limit.toNat ∧ r.toNat = current.toNat + amount.toNat := by
  have hlimit := toNat_le_max limit
  have hcurrent := toNat_le_max current
  have hmax : (0xFFFFFFFFFFFFFFFF : UInt64).toNat < 2 ^ 64 := UInt64.toNat_lt _
  have hroom := toNat_sub_of_toNat_le hcurrent
  unfold addChecked
  by_cases hle : current.toNat ≤ limit.toNat
  · have hleft := toNat_sub_of_toNat_le hle
    by_cases hfits : current.toNat + amount.toNat ≤ limit.toNat
    · have hsum : (current + amount).toNat = current.toNat + amount.toNat :=
        toNat_add_of_lt (by omega)
      rw [if_neg]
      · rw [Except.ok.injEq, ← UInt64.toNat_inj, hsum]
        omega
      · simp only [Bool.or_eq_true, decide_eq_true_eq, gt_iff_lt, UInt64.lt_iff_toNat_lt, hleft,
          hroom]
        omega
    · rw [if_pos]
      · constructor
        · intro h
          cases h
        · intro h
          omega
      · simp only [Bool.or_eq_true, decide_eq_true_eq, gt_iff_lt, UInt64.lt_iff_toNat_lt, hleft,
          hroom]
        omega
  · rw [if_pos]
    · constructor
      · intro h
        cases h
      · intro h
        omega
    · simp only [Bool.or_eq_true, decide_eq_true_eq, gt_iff_lt, UInt64.lt_iff_toNat_lt]
      omega

theorem addChecked_eq_error {current amount limit : UInt64} {error : ScanResourceError}
    (h : addChecked current amount limit = .error error) :
    limit.toNat < current.toNat + amount.toNat := by
  by_contra hfits
  have hok : addChecked current amount limit = .ok (current + amount) := by
    refine addChecked_eq_ok.mpr ⟨by omega, toNat_add_of_lt ?_⟩
    have := limit.toNat_lt
    omega
  rw [h] at hok
  cases hok

theorem requireWithin_eq_ok {used allowed : UInt64} {field : String} {u : Unit} :
    requireWithin used allowed field = .ok u ↔ used.toNat ≤ allowed.toNat := by
  simp only [requireWithin, throwIf_eq_ok, decide_eq_false_iff_not, gt_iff_lt,
    UInt64.lt_iff_toNat_lt, not_lt]

theorem remaining_eq_ok {limit used r : UInt64} :
    remaining limit used = .ok r ↔
      used.toNat ≤ limit.toNat ∧ r.toNat = limit.toNat - used.toNat := by
  unfold remaining
  by_cases hle : used.toNat ≤ limit.toNat
  · rw [if_neg (by rw [gt_iff_lt, UInt64.lt_iff_toNat_lt]; omega), Except.ok.injEq,
      ← UInt64.toNat_inj, toNat_sub_of_toNat_le hle]
    omega
  · rw [if_pos (by rw [gt_iff_lt, UInt64.lt_iff_toNat_lt]; omega)]
    constructor
    · intro h
      cases h
    · intro h
      omega

-- ---------------------------------------------------------------------------
-- Calls and runs
-- ---------------------------------------------------------------------------

inductive LedgerCall
  | beginStep (now : Int)
  | beginAttempt (now : Int)
  | commitRequestBody (bodyBytes : UInt64)
  | commitRemoteRequest
  | commitAttemptFailure (usage : TransportResourceUsage)
  | commitTransport (usage : TransportResourceUsage)
  | commitDecodedPage (usage : DecodedPageResourceUsage)
  | completePage (hasNext : Bool) (now : Int)
  | abortPage
  | commitRetryWait (milliseconds : UInt64)
  | commitRateLimitWait (milliseconds : UInt64)
  | commitAdmissionWait (milliseconds limit : UInt64)
  | commitRemoteTransportTime (milliseconds : UInt64)
  deriving DecidableEq, Repr

/-- What a call threw, if it did. -/
def thrown {α : Type} : Except ScanResourceError α → Option ScanResourceError
  | .ok _ => none
  | .error error => some error

namespace ScanResourceAccounting

def call (s : ScanResourceAccounting) :
    LedgerCall → Option ScanResourceError × ScanResourceAccounting
  | .beginStep now => (s.beginStep now).map thrown id
  | .beginAttempt now => (s.beginAttempt now).map thrown id
  | .commitRequestBody bodyBytes => (s.commitRequestBody bodyBytes).map thrown id
  | .commitRemoteRequest => s.commitRemoteRequest.map thrown id
  | .commitAttemptFailure usage => (s.commitAttemptFailure usage).map thrown id
  | .commitTransport usage => (s.commitTransport usage).map thrown id
  | .commitDecodedPage usage => (s.commitDecodedPage usage).map thrown id
  | .completePage hasNext now => (s.completePage hasNext now).map thrown id
  | .abortPage => (none, s.abortPage)
  | .commitRetryWait milliseconds => (s.commitRetryWait milliseconds).map thrown id
  | .commitRateLimitWait milliseconds => (s.commitRateLimitWait milliseconds).map thrown id
  | .commitAdmissionWait milliseconds limit =>
    (s.commitAdmissionWait milliseconds limit).map thrown id
  | .commitRemoteTransportTime milliseconds =>
    (s.commitRemoteTransportTime milliseconds).map thrown id

def run (s : ScanResourceAccounting) (calls : List LedgerCall) : ScanResourceAccounting :=
  calls.foldl (fun s c => (s.call c).2) s

/-- The calls of a run that returned. -/
def returned (s : ScanResourceAccounting) : List LedgerCall → List LedgerCall
  | [] => []
  | c :: rest =>
    if (s.call c).1.isNone then c :: returned (s.call c).2 rest else returned (s.call c).2 rest

end ScanResourceAccounting

/-- The counters that only grow; the other two say what is held right now. -/
def ScanResourceCounters.cumulative (counters : ScanResourceCounters) : ScanResourceCounters :=
  { counters with retainedDecodedMemoryBytes := 0, activeRequests := 0 }

-- ---------------------------------------------------------------------------
-- Bounds
-- ---------------------------------------------------------------------------

/-- Every counter within its limit. -/
structure ScanResourceCounters.Within (c : ScanResourceCounters) (p : ScanResourceProfile) :
    Prop where
  requestAttempts : c.requestAttempts.toNat ≤ p.scan.requestAttempts.toNat
  remoteRequests : c.remoteRequests.toNat ≤ p.scan.requestAttempts.toNat
  pages : c.pages.toNat ≤ p.scan.pages.toNat
  pagesAttempted : c.pages.toNat ≤ c.requestAttempts.toNat
  headerBytes : c.headerBytes.toNat ≤ p.scan.headerBytes.toNat
  wireResponseBytes : c.wireResponseBytes.toNat ≤ p.scan.wireResponseBytes.toNat
  decompressedResponseBytes :
    c.decompressedResponseBytes.toNat ≤ p.scan.decompressedResponseBytes.toNat
  decodedRecords : c.decodedRecords.toNat ≤ p.scan.decodedRecords.toNat
  retainedMemory : c.retainedDecodedMemoryBytes.toNat ≤ c.peakDecodedMemoryBytes.toNat
  pageMemory : c.peakDecodedMemoryBytes.toNat ≤ p.page.decodedMemoryBytes.toNat
  scanMemory : c.peakDecodedMemoryBytes.toNat ≤ p.scan.retainedDecodedMemoryBytes.toNat
  activeRequests : c.activeRequests.toNat ≤ p.scan.activeRequests.toNat
  requestBody : c.serializedRequestBodyBytes.toNat ≤ p.scan.serializedRequestBodyBytes.toNat
  waiting : c.cumulativeWaitingMilliseconds.toNat ≤ p.scan.cumulativeWaitingMilliseconds.toNat
  retryWaiting :
    c.cumulativeRetryWaitingMilliseconds.toNat ≤ p.scan.cumulativeRetryWaitingMilliseconds.toNat
  rateLimitWaiting :
    c.cumulativeRateLimitWaitingMilliseconds.toNat ≤
      p.scan.cumulativeRateLimitWaitingMilliseconds.toNat

/-- What an open attempt was allowed is still left of the scan's authority. -/
structure Covered (s : ScanResourceAccounting) : Prop where
  headerBytes : s.counters.headerBytes.toNat + s.activeAllowance.headerBytes.toNat ≤
    s.profile.scan.headerBytes.toNat
  wireResponseBytes :
    s.counters.wireResponseBytes.toNat + s.activeAllowance.wireResponseBytes.toNat ≤
      s.profile.scan.wireResponseBytes.toNat
  decompressedResponseBytes :
    s.counters.decompressedResponseBytes.toNat +
        s.activeAllowance.decompressedResponseBytes.toNat ≤
      s.profile.scan.decompressedResponseBytes.toNat

structure CoveredPage (s : ScanResourceAccounting) : Prop where
  pageMemory : s.activeAllowance.decodedMemoryBytes.toNat ≤ s.profile.page.decodedMemoryBytes.toNat
  scanMemory :
    s.activeAllowance.decodedMemoryBytes.toNat ≤ s.profile.scan.retainedDecodedMemoryBytes.toNat

/-- The state of an attempt in flight. -/
def ScanResourceState.isAttempt : ScanResourceState → Bool
  | .requestActive | .requestBodyCommitted => true
  | _ => false

/-- The states in which a step has begun and nothing has failed. -/
def ScanResourceState.isStep : ScanResourceState → Bool
  | .ready | .failed => false
  | _ => true

/-- What holds of a ledger at all times. -/
structure Sound (s : ScanResourceAccounting) : Prop where
  valid : s.profile.isValid = true
  within : s.counters.Within s.profile
  stepAttempts : s.currentStepAttempts.toNat ≤ s.profile.page.requestAttempts.toNat
  covered : s.state.isAttempt = true → Covered s
  coveredPage : s.state.isAttempt = true ∨ s.state = .transportCommitted → CoveredPage s
  deadline : s.state.isStep = true → s.deadlineStarted = true
  attempted : 0 < s.counters.requestAttempts.toNat → s.deadlineStarted = true

-- ---------------------------------------------------------------------------
-- What a call does
-- ---------------------------------------------------------------------------

/-- What a call charges if it returns. -/
structure LedgerAmounts where
  requestAttempts : Nat := 0
  headerBytes : Nat := 0
  wireResponseBytes : Nat := 0
  decompressedResponseBytes : Nat := 0
  decodedRecords : Nat := 0
  requestBodyBytes : Nat := 0
  retryWaiting : Nat := 0
  rateLimitWaiting : Nat := 0
  remoteRequests : Nat := 0
  admissionWaiting : Nat := 0
  remoteTransport : Nat := 0
  deriving DecidableEq, Repr

def TransportResourceUsage.amounts (usage : TransportResourceUsage) : LedgerAmounts :=
  { headerBytes := usage.headerBytes.toNat
    wireResponseBytes := usage.wireResponseBytes.toNat
    decompressedResponseBytes := usage.decompressedResponseBytes.toNat }

def LedgerCall.amounts : LedgerCall → LedgerAmounts
  | .beginAttempt _ => { requestAttempts := 1 }
  | .commitRequestBody bodyBytes => { requestBodyBytes := bodyBytes.toNat }
  | .commitAttemptFailure usage => usage.amounts
  | .commitTransport usage => usage.amounts
  | .commitDecodedPage usage => { decodedRecords := usage.decodedRecords.toNat }
  | .commitRetryWait milliseconds => { retryWaiting := milliseconds.toNat }
  | .commitRateLimitWait milliseconds => { rateLimitWaiting := milliseconds.toNat }
  | .commitRemoteRequest => { remoteRequests := 1 }
  | .commitAdmissionWait milliseconds _ => { admissionWaiting := milliseconds.toNat }
  | .commitRemoteTransportTime milliseconds => { remoteTransport := milliseconds.toNat }
  | _ => {}

theorem LedgerCall.amounts_retryWait (milliseconds : UInt64) :
    (LedgerCall.commitRetryWait milliseconds).amounts =
      { retryWaiting := milliseconds.toNat } := rfl

theorem LedgerCall.amounts_rateLimitWait (milliseconds : UInt64) :
    (LedgerCall.commitRateLimitWait milliseconds).amounts =
      { rateLimitWaiting := milliseconds.toNat } := rfl

/-- The counters after a charge, over the naturals. -/
structure Exact (amounts : LedgerAmounts) (c c' : ScanResourceCounters) : Prop where
  requestAttempts : c'.requestAttempts.toNat = c.requestAttempts.toNat + amounts.requestAttempts
  headerBytes : c'.headerBytes.toNat = c.headerBytes.toNat + amounts.headerBytes
  wireResponseBytes :
    c'.wireResponseBytes.toNat = c.wireResponseBytes.toNat + amounts.wireResponseBytes
  decompressedResponseBytes :
    c'.decompressedResponseBytes.toNat =
      c.decompressedResponseBytes.toNat + amounts.decompressedResponseBytes
  decodedRecords : c'.decodedRecords.toNat = c.decodedRecords.toNat + amounts.decodedRecords
  requestBodyBytes :
    c'.serializedRequestBodyBytes.toNat =
      c.serializedRequestBodyBytes.toNat + amounts.requestBodyBytes
  retryWaiting :
    c'.cumulativeRetryWaitingMilliseconds.toNat =
      c.cumulativeRetryWaitingMilliseconds.toNat + amounts.retryWaiting
  rateLimitWaiting :
    c'.cumulativeRateLimitWaitingMilliseconds.toNat =
      c.cumulativeRateLimitWaitingMilliseconds.toNat + amounts.rateLimitWaiting
  remoteRequests : c'.remoteRequests.toNat = c.remoteRequests.toNat + amounts.remoteRequests
  admissionWaiting :
    c'.cumulativeAdmissionWaitingMilliseconds.toNat =
      c.cumulativeAdmissionWaitingMilliseconds.toNat + amounts.admissionWaiting
  remoteTransport :
    c'.cumulativeRemoteTransportMilliseconds.toNat =
      c.cumulativeRemoteTransportMilliseconds.toNat + amounts.remoteTransport

/-- The attempts of the open step, and the steps that have made an attempt. -/
structure StepTally where
  attempts : Nat := 0
  pages : Nat := 0
  deriving DecidableEq, Repr

/-- A call that returned: steps begin and end without attempts, and a page is
charged with the first attempt of a step. -/
def StepTally.note (tally : StepTally) : LedgerCall → StepTally
  | .beginStep _ => { tally with attempts := 0 }
  | .completePage _ _ => { tally with attempts := 0 }
  | .beginAttempt _ =>
    { attempts := tally.attempts + 1
      pages := if tally.attempts = 0 then tally.pages + 1 else tally.pages }
  | _ => tally

def stepTally (calls : List LedgerCall) : StepTally :=
  calls.foldl StepTally.note {}

/-- The ledger has charged one page for each step that made an attempt, and
until it fails it knows the attempts of the open step. -/
structure Tallied (s : ScanResourceAccounting) (tally : StepTally) : Prop where
  pages : s.counters.pages.toNat = tally.pages
  attempts : s.state ≠ .failed → s.currentStepAttempts.toNat = tally.attempts
  committed : s.state ≠ .failed → (s.currentStepPageCommitted = true ↔ 0 < tally.attempts)

/-- The deadline, once started, stays. -/
structure SameDeadline (s s' : ScanResourceAccounting) : Prop where
  started : s'.deadlineStarted = true
  startedAt : s'.startedAt = s.startedAt
  deadline : s'.deadline = s.deadline

/-- The deadline is started by a step, from its own time, and then stays. -/
structure Timed (s : ScanResourceAccounting) (c : LedgerCall) (s' : ScanResourceAccounting) :
    Prop where
  kept : s.deadlineStarted = true → SameDeadline s s'
  fresh : s.deadlineStarted = false → s'.deadlineStarted = true →
    ∃ now, c = .beginStep now ∧ s'.startedAt = now ∧ s'.deadline = now + s.profile.wallTime ∧
      s'.deadline ≤ maxDuration

/-- A wait that fits the shared budget but not the mechanism's own. -/
def LateFor (own : ScanResourceAccounting.WaitBudget) (s : ScanResourceAccounting)
    (milliseconds : UInt64) : Prop :=
  s.state = .stepActive ∧
  s.counters.cumulativeWaitingMilliseconds.toNat + milliseconds.toNat ≤
    s.profile.scan.cumulativeWaitingMilliseconds.toNat ∧
  (own.limit s.profile.scan).toNat < (own.used s.counters).toNat + milliseconds.toNat

def LateWait (s : ScanResourceAccounting) : LedgerCall → Prop
  | .commitRetryWait milliseconds => LateFor ScanResourceAccounting.retryWaiting s milliseconds
  | .commitRateLimitWait milliseconds => LateFor ScanResourceAccounting.rateLimitWaiting s milliseconds
  | _ => False

/-- A failed call that leaves the ledger closed and these counters behind. -/
structure Refuses (s : ScanResourceAccounting) (c : LedgerCall) (counters : ScanResourceCounters)
    (s' : ScanResourceAccounting) : Prop where
  profile : s'.profile = s.profile
  state : s'.state = .failed
  counters : s'.counters = counters.cumulative
  stepAttempts : s'.currentStepAttempts = s.currentStepAttempts ∨ s'.currentStepAttempts = 0
  timed : Timed s c s'

/-- A call that returned. -/
structure Returns (s : ScanResourceAccounting) (c : LedgerCall) (s' : ScanResourceAccounting) :
    Prop where
  profile : s'.profile = s.profile
  sound : Sound s'
  exact : Exact c.amounts s.counters s'.counters
  waiting : s'.counters.cumulativeWaitingMilliseconds.toNat =
    s.counters.cumulativeWaitingMilliseconds.toNat + c.amounts.retryWaiting +
      c.amounts.rateLimitWaiting
  pages : s.counters.pages.toNat ≤ s'.counters.pages.toNat
  tallied : ∀ tally, Tallied s tally → Tallied s' (tally.note c)
  peak : s.counters.peakDecodedMemoryBytes.toNat ≤ s'.counters.peakDecodedMemoryBytes.toNat
  decoded : ∀ usage, c = .commitDecodedPage usage →
    usage.decodedMemoryBytes.toNat ≤ s'.counters.peakDecodedMemoryBytes.toNat
  timed : Timed s c s'

/-- Everything a call can do to a sound ledger. -/
inductive Effect (s : ScanResourceAccounting) (c : LedgerCall) :
    Option ScanResourceError × ScanResourceAccounting → Prop
  | refused {error : ScanResourceError} {s' : ScanResourceAccounting} :
      ¬LateWait s c → Refuses s c s.counters s' → Effect s c (some error, s')
  | refusedLate {error : ScanResourceError} {s' : ScanResourceAccounting} {waited : UInt64} :
      LateWait s c → s.counters.cumulativeWaitingMilliseconds.toNat < waited.toNat →
      waited.toNat ≤ s.profile.scan.cumulativeWaitingMilliseconds.toNat →
      Refuses s c { s.counters with cumulativeWaitingMilliseconds := waited } s' →
      Effect s c (some error, s')
  | returned {s' : ScanResourceAccounting} :
      ¬LateWait s c → Returns s c s' → Effect s c (none, s')

variable {s s' : ScanResourceAccounting} {c : LedgerCall}

theorem Timed.of_same (h : s'.deadlineStarted = s.deadlineStarted)
    (hstart : s'.startedAt = s.startedAt) (hdeadline : s'.deadline = s.deadline) :
    Timed s c s' := by
  refine ⟨fun hstarted => ⟨h.trans hstarted, hstart, hdeadline⟩, fun hfresh hstarted => ?_⟩
  rw [h, hfresh] at hstarted
  cases hstarted

/-- A call between the attempts of a step, or within one. -/
theorem Tallied.keep (hnote : ∀ tally : StepTally, tally.note c = tally)
    (hpages : s'.counters.pages = s.counters.pages)
    (hattempts : s'.currentStepAttempts = s.currentStepAttempts)
    (hcommitted : s'.currentStepPageCommitted = s.currentStepPageCommitted)
    (hlive : s.state ≠ .failed) (tally : StepTally) (h : Tallied s tally) :
    Tallied s' (tally.note c) := by
  rw [hnote]
  refine ⟨?_, fun _ => ?_, fun _ => ?_⟩
  · rw [hpages]
    exact h.pages
  · rw [hattempts]
    exact h.attempts hlive
  · rw [hcommitted]
    exact h.committed hlive

/-- A call that begins a step or ends one. -/
theorem Tallied.restart (hnote : ∀ tally : StepTally, tally.note c = { tally with attempts := 0 })
    (hpages : s'.counters.pages = s.counters.pages) (hattempts : s'.currentStepAttempts = 0)
    (hcommitted : s'.currentStepPageCommitted = false) (tally : StepTally) (h : Tallied s tally) :
    Tallied s' (tally.note c) := by
  rw [hnote]
  refine ⟨?_, fun _ => ?_, fun _ => ?_⟩
  · rw [hpages]
    exact h.pages
  · rw [hattempts]
    rfl
  · rw [hcommitted]
    simp

/-- A failed ledger still knows its pages. -/
theorem Tallied.failed (hpages : s'.counters.pages = s.counters.pages) (hstate : s'.state = .failed)
    {tally : StepTally} (h : Tallied s tally) : Tallied s' tally := by
  refine ⟨?_, fun hlive => absurd hstate hlive, fun hlive => absurd hstate hlive⟩
  rw [hpages]
  exact h.pages

/-- Failing keeps the bounds. -/
theorem Refuses.sound {counters : ScanResourceCounters} (h : Sound s)
    (hcounters : counters.Within s.profile)
    (hattempts : counters.requestAttempts = s.counters.requestAttempts)
    (hrefuses : Refuses s c counters s') : Sound s' := by
  have hprofile := hrefuses.profile
  refine ⟨hprofile ▸ h.valid, ?_, ?_, ?_, ?_, ?_, ?_⟩
  · rw [hprofile, hrefuses.counters]
    exact { hcounters with
      retainedMemory := Nat.zero_le _
      activeRequests := Nat.zero_le _ }
  · rw [hprofile]
    rcases hrefuses.stepAttempts with hsame | hzero
    · rw [hsame]
      exact h.stepAttempts
    · rw [hzero]
      exact Nat.zero_le _
  · intro hattempt
    rw [hrefuses.state] at hattempt
    cases hattempt
  · intro hpage
    rw [hrefuses.state] at hpage
    rcases hpage with hpage | hpage <;> cases hpage
  · intro hstep
    rw [hrefuses.state] at hstep
    cases hstep
  · intro hpositive
    rw [hrefuses.counters] at hpositive
    have hstarted := h.attempted (hattempts ▸ hpositive)
    exact (hrefuses.timed.kept hstarted).started

/-- A plain `Fail`. -/
theorem Refuses.abort (s : ScanResourceAccounting) (c : LedgerCall) :
    Refuses s c s.counters s.abortPage :=
  ⟨rfl, rfl, rfl, Or.inl rfl, Timed.of_same rfl rfl rfl⟩

theorem effect_fail (hlate : ¬LateWait s c) (error : ScanResourceError) :
    Effect s c (some error, s.abortPage) :=
  .refused hlate (Refuses.abort s c)

/-- A call that charges nothing. -/
theorem Exact.zero (counters : ScanResourceCounters) : Exact {} counters counters := by
  constructor <;> rfl

-- ---------------------------------------------------------------------------
-- One lemma for each call
-- ---------------------------------------------------------------------------

theorem startDeadline_cases {now : Int} {started : ScanResourceAccounting}
    (h : s.startDeadline now = .ok started) :
    (s.deadlineStarted = true ∧ started = s) ∨
    (s.deadlineStarted = false ∧ now + s.profile.wallTime ≤ maxDuration ∧
      started = { s with
        deadline := now + s.profile.wallTime
        startedAt := now
        deadlineStarted := true }) := by
  unfold ScanResourceAccounting.startDeadline at h
  by_cases hstarted : s.deadlineStarted = true
  · rw [if_pos hstarted] at h
    exact Or.inl ⟨hstarted, (Except.ok.inj h).symm⟩
  · rw [if_neg hstarted] at h
    split at h
    · cases h
    · rename_i hroom
      refine Or.inr ⟨by simpa using hstarted, by omega, (Except.ok.inj h).symm⟩

theorem beginStep_effect (h : Sound s) (now : Int) :
    Effect s (.beginStep now) (s.call (.beginStep now)) := by
  have hlate : ¬LateWait s (.beginStep now) := fun h => h
  simp only [ScanResourceAccounting.call, ScanResourceAccounting.beginStep]
  by_cases hready : s.state = .ready
  · rw [if_neg (by simp [hready])]
    cases hstart : s.startDeadline now with
    | error error => exact effect_fail hlate error
    | ok started =>
      have hsame : started.profile = s.profile ∧ started.counters = s.counters ∧
          started.currentStepAttempts = s.currentStepAttempts ∧ started.deadlineStarted = true := by
        rcases startDeadline_cases hstart with ⟨hold, rfl⟩ | ⟨-, -, rfl⟩
        · exact ⟨rfl, rfl, rfl, hold⟩
        · exact ⟨rfl, rfl, rfl, rfl⟩
      obtain ⟨hprofile, hcounters, hattempts, hstarted⟩ := hsame
      have htimed (s' : ScanResourceAccounting) (hd : s'.deadlineStarted = started.deadlineStarted)
          (ha : s'.startedAt = started.startedAt) (hdl : s'.deadline = started.deadline) :
          Timed s (.beginStep now) s' := by
        rcases startDeadline_cases hstart with ⟨hold, rfl⟩ | ⟨hfresh, hroom, rfl⟩
        · exact Timed.of_same hd ha hdl
        · refine ⟨fun hold => ?_, fun _ _ => ⟨now, rfl, ha, hdl, ?_⟩⟩
          · rw [hfresh] at hold
            cases hold
          · rw [hdl]
            exact hroom
      dsimp only
      unfold ScanResourceAccounting.requireReadyForNext
      cases hfault : started.nextStepFault now with
      | some error =>
        exact .refused hlate ⟨hprofile, rfl, by simp [ScanResourceAccounting.abortPage,
          ScanResourceCounters.cumulative, hcounters], Or.inl hattempts, htimed _ rfl rfl rfl⟩
      | none =>
        refine .returned hlate ⟨hprofile, ?_, ?_, ?_, ?_, ?_, ?_, ?_, htimed _ rfl rfl rfl⟩
        · refine ⟨hprofile ▸ h.valid, ?_, Nat.zero_le _, ?_, ?_, fun _ => hstarted,
            fun _ => hstarted⟩
          · show started.counters.Within started.profile
            rw [hprofile, hcounters]
            exact h.within
          · intro hattempt
            cases hattempt
          · intro hpage
            rcases hpage with hpage | hpage <;> cases hpage
        · show Exact {} s.counters started.counters
          rw [hcounters]
          exact Exact.zero _
        · show started.counters.cumulativeWaitingMilliseconds.toNat = _
          rw [hcounters]
          rfl
        · show _ ≤ started.counters.pages.toNat
          rw [hcounters]
        · exact Tallied.restart (fun _ => rfl) (congrArg ScanResourceCounters.pages hcounters) rfl rfl
        · show _ ≤ started.counters.peakDecodedMemoryBytes.toNat
          rw [hcounters]
        · intro usage husage
          cases husage
  · rw [if_pos (by simpa using hready)]
    exact effect_fail hlate _

theorem allowance_covers {allowance : PageResourceAllowance} (h : s.allowance = .ok allowance)
    (next : ScanResourceAccounting)
    (hactive : next.activeAllowance = allowance) (hprofile : next.profile = s.profile)
    (hheader : next.counters.headerBytes = s.counters.headerBytes)
    (hwire : next.counters.wireResponseBytes = s.counters.wireResponseBytes)
    (hdecompressed :
      next.counters.decompressedResponseBytes = s.counters.decompressedResponseBytes) :
    Covered next ∧ CoveredPage next := by
  unfold ScanResourceAccounting.allowance at h
  simp only [bind_eq_ok, pure_eq_ok, remaining_eq_ok] at h
  obtain ⟨header, ⟨hh, hheader'⟩, wire, ⟨hw, hwire'⟩, decompressed, ⟨hd, hdecompressed'⟩, records,
    -, body, -, rfl⟩ := h
  refine ⟨⟨?_, ?_, ?_⟩, ⟨?_, ?_⟩⟩
  · rw [hactive, hprofile, hheader, toNat_min]
    omega
  · rw [hactive, hprofile, hwire, toNat_min]
    omega
  · rw [hactive, hprofile, hdecompressed, toNat_min]
    omega
  · rw [hactive, hprofile, toNat_min]
    omega
  · rw [hactive, hprofile, toNat_min]
    omega

theorem beginAttempt_effect (h : Sound s) (now : Int) :
    Effect s (.beginAttempt now) (s.call (.beginAttempt now)) := by
  have hlate : ¬LateWait s (.beginAttempt now) := fun h => h
  simp only [ScanResourceAccounting.call, ScanResourceAccounting.beginAttempt]
  split
  · exact effect_fail hlate _
  rename_i hactive
  split
  · exact effect_fail hlate _
  split
  · exact effect_fail hlate _
  cases hcharges : s.attemptCharges with
  | error error => exact effect_fail hlate error
  | ok charges =>
    obtain ⟨_, _, _, _, _⟩ := charges
    have hstep : s.state = .stepActive := by simpa using hactive
    have hstarted : s.deadlineStarted = true := h.deadline (by rw [hstep]; rfl)
    -- Every charge passed its own check, which is where the bounds come from.
    unfold ScanResourceAccounting.attemptCharges at hcharges
    simp only [bind_eq_ok, pure_eq_ok, addChecked_eq_ok] at hcharges
    obtain ⟨stepAttempts, ⟨hstepLimit, hstepAttempts⟩, scanAttempts, ⟨hscanLimit, hscan⟩, pages,
      hpages, active, ⟨hactiveLimit, hrequests⟩, allowance, hallowance, heq⟩ := hcharges
    simp only [Prod.mk.injEq] at heq
    obtain ⟨rfl, rfl, rfl, rfl, rfl⟩ := heq
    have hone : (1 : UInt64).toNat = 1 := by decide
    -- The page is counted with the first attempt of its step and not again.
    have hpages' : pages.toNat ≤ s.profile.scan.pages.toNat ∧ pages.toNat =
        if s.currentStepPageCommitted then s.counters.pages.toNat
          else s.counters.pages.toNat + 1 := by
      have hbefore := h.within.pages
      unfold ScanResourceAccounting.pageCharge at hpages
      split at hpages
      · rename_i hcommitted
        obtain rfl := Except.ok.inj hpages
        exact ⟨hbefore, (if_pos hcommitted).symm⟩
      · rename_i hopen
        rw [addChecked_eq_ok] at hpages
        rw [if_neg hopen]
        omega
    obtain ⟨hpagesLimit, hpagesCharged⟩ := hpages'
    have hpagesGrow : s.counters.pages.toNat ≤ pages.toNat := by
      split at hpagesCharged <;> omega
    have hpagesOne : pages.toNat ≤ s.counters.pages.toNat + 1 := by
      split at hpagesCharged <;> omega
    have hwithin := h.within
    have hattempted := hwithin.pagesAttempted
    refine .returned hlate ⟨rfl, ?_, ?_, rfl, hpagesGrow, fun tally htally => ?_, le_rfl, ?_,
      Timed.of_same rfl rfl rfl⟩
    · have hcovers := allowance_covers hallowance { s with
          currentStepAttempts := stepAttempts
          counters := { s.counters with
            requestAttempts := scanAttempts
            pages := pages
            activeRequests := active }
          currentStepPageCommitted := true
          currentAttemptRemoteCommitted := false
          activeAllowance := allowance
          state := .requestActive } rfl rfl rfl rfl rfl
      have hscanLe : scanAttempts.toNat ≤ s.profile.scan.requestAttempts.toNat := by omega
      have hpagesLe : pages.toNat ≤ scanAttempts.toNat := by omega
      have hactiveLe : active.toNat ≤ s.profile.scan.activeRequests.toNat := by omega
      have hstepLe : stepAttempts.toNat ≤ s.profile.page.requestAttempts.toNat := by omega
      have hwithin' : ScanResourceCounters.Within { s.counters with
          requestAttempts := scanAttempts
          pages := pages
          activeRequests := active } s.profile :=
        { hwithin with
          requestAttempts := hscanLe
          pages := hpagesLimit
          pagesAttempted := hpagesLe
          activeRequests := hactiveLe }
      exact ⟨h.valid, hwithin', hstepLe, fun _ => hcovers.1, fun _ => hcovers.2, fun _ => hstarted,
        fun _ => hstarted⟩
    · exact { Exact.zero s.counters with requestAttempts := hscan }
    -- The tally of the step moves on by the attempt and, with its first one, by the page.
    · have hlive : s.state ≠ .failed := by simp [hstep]
      have hopened := htally.committed hlive
      have hattempts := htally.attempts hlive
      refine ⟨?_, fun _ => ?_, fun _ => ?_⟩
      · show pages.toNat = if tally.attempts = 0 then tally.pages + 1 else tally.pages
        rw [hpagesCharged, htally.pages]
        cases hcommitted : s.currentStepPageCommitted with
        | true =>
          have hpositive := hopened.mp hcommitted
          rw [if_pos rfl, if_neg (by omega)]
        | false =>
          have hnone : ¬0 < tally.attempts := fun hpositive => by
            simp [hopened.mpr hpositive] at hcommitted
          rw [if_neg (by simp), if_pos (by omega)]
      · show stepAttempts.toNat = tally.attempts + 1
        omega
      · show true = true ↔ 0 < tally.attempts + 1
        simp
    · intro usage husage
      cases husage

theorem commitRequestBody_effect (h : Sound s) (bodyBytes : UInt64) :
    Effect s (.commitRequestBody bodyBytes) (s.call (.commitRequestBody bodyBytes)) := by
  have hlate : ¬LateWait s (.commitRequestBody bodyBytes) := fun h => h
  simp only [ScanResourceAccounting.call, ScanResourceAccounting.commitRequestBody]
  split
  · exact effect_fail hlate _
  rename_i hguard
  simp only [Bool.or_eq_true, bne_iff_ne, ne_eq, beq_iff_eq, not_or, not_not] at hguard
  cases hcharge : s.requestBodyCharge bodyBytes with
  | error error => exact effect_fail hlate error
  | ok charged =>
    unfold ScanResourceAccounting.requestBodyCharge at hcharge
    simp only [bind_eq_ok, addChecked_eq_ok] at hcharge
    obtain ⟨_, -, _, -, hlimit, hcharged⟩ := hcharge
    have hattempt : s.state.isAttempt = true := by rw [hguard.1]; rfl
    have hcovered := h.covered hattempt
    have hpage := h.coveredPage (Or.inl hattempt)
    have hstarted : s.deadlineStarted = true := h.deadline (by rw [hguard.1]; rfl)
    have hlive : s.state ≠ .failed := by simp [hguard.1]
    refine .returned hlate ⟨rfl, ?_, ?_, rfl, le_rfl,
      Tallied.keep (fun _ => rfl) rfl rfl rfl hlive, le_rfl, ?_, Timed.of_same rfl rfl rfl⟩
    · have hbody : charged.toNat ≤ s.profile.scan.serializedRequestBodyBytes.toNat := by omega
      refine ⟨h.valid, { h.within with requestBody := hbody }, h.stepAttempts, fun _ => ?_,
        fun _ => ?_, fun _ => hstarted, fun _ => hstarted⟩
      · exact ⟨hcovered.headerBytes, hcovered.wireResponseBytes,
          hcovered.decompressedResponseBytes⟩
      · exact ⟨hpage.pageMemory, hpage.scanMemory⟩
    · exact { Exact.zero s.counters with requestBodyBytes := hcharged }
    · intro usage husage
      cases husage

theorem requestReady_isAttempt (h : s.requestReady = true) : s.state.isAttempt = true := by
  simp only [ScanResourceAccounting.requestReady, Bool.or_eq_true, Bool.and_eq_true,
    beq_iff_eq] at h
  rcases h with ⟨h, -⟩ | ⟨h, -⟩ <;> rw [h] <;> rfl

theorem isStep_of_isAttempt {state : ScanResourceState} (h : state.isAttempt = true) :
    state.isStep = true := by
  cases state <;> first | rfl | cases h

theorem live_of_isAttempt {state : ScanResourceState} (h : state.isAttempt = true) :
    state ≠ .failed := by
  rintro rfl
  cases h

theorem commitRemoteRequest_effect (h : Sound s) :
    Effect s .commitRemoteRequest (s.call .commitRemoteRequest) := by
  have hlate : ¬LateWait s .commitRemoteRequest := fun h => h
  simp only [ScanResourceAccounting.call, ScanResourceAccounting.commitRemoteRequest]
  split
  · exact effect_fail hlate _
  rename_i hguard
  have hready : s.requestReady = true := by
    simp only [Bool.or_eq_true, Bool.not_eq_true', not_or, Bool.not_eq_false] at hguard
    exact hguard.1
  cases hcharge : addChecked s.counters.remoteRequests 1 s.profile.scan.requestAttempts with
  | error error => exact effect_fail hlate error
  | ok charged =>
    rw [addChecked_eq_ok] at hcharge
    have hremote : charged.toNat ≤ s.profile.scan.requestAttempts.toNat := by omega
    refine .returned hlate ⟨rfl, ?_, { Exact.zero s.counters with remoteRequests := hcharge.2 }, rfl,
      le_rfl, Tallied.keep (fun _ => rfl) rfl rfl rfl
        (live_of_isAttempt (requestReady_isAttempt hready)), le_rfl, ?_,
      Timed.of_same rfl rfl rfl⟩
    · refine ⟨h.valid, { h.within with remoteRequests := hremote }, h.stepAttempts,
        fun hattempt => ?_, fun hpage => ?_, h.deadline, h.attempted⟩
      · have hcovered := h.covered hattempt
        exact ⟨hcovered.headerBytes, hcovered.wireResponseBytes,
          hcovered.decompressedResponseBytes⟩
      · have hcovered := h.coveredPage hpage
        exact ⟨hcovered.pageMemory, hcovered.scanMemory⟩
    · intro usage husage
      cases husage

/-- Within the allowance the three charges cannot fail. -/
theorem chargeUsage_eq {usage : TransportResourceUsage} (hcovered : Covered s)
    (hwithin : s.requireUsageWithin usage = .ok ()) (nextState : ScanResourceState) :
    ∃ header wire decompressed : UInt64,
      header.toNat = s.counters.headerBytes.toNat + usage.headerBytes.toNat ∧
      wire.toNat = s.counters.wireResponseBytes.toNat + usage.wireResponseBytes.toNat ∧
      decompressed.toNat = s.counters.decompressedResponseBytes.toNat +
        usage.decompressedResponseBytes.toNat ∧
      header.toNat ≤ s.profile.scan.headerBytes.toNat ∧
      wire.toNat ≤ s.profile.scan.wireResponseBytes.toNat ∧
      decompressed.toNat ≤ s.profile.scan.decompressedResponseBytes.toNat ∧
      s.chargeUsage usage nextState =
        (.ok (), { s with
          counters := { s.counters with
            headerBytes := header
            wireResponseBytes := wire
            decompressedResponseBytes := decompressed
            activeRequests := 0 }
          state := nextState }) := by
  unfold ScanResourceAccounting.requireUsageWithin at hwithin
  simp only [bind_eq_ok, requireWithin_eq_ok] at hwithin
  obtain ⟨_, hheader, _, hwire, hdecompressed⟩ := hwithin
  have hcoveredHeader := hcovered.headerBytes
  have hcoveredWire := hcovered.wireResponseBytes
  have hcoveredDecompressed := hcovered.decompressedResponseBytes
  unfold ScanResourceAccounting.chargeUsage
  dsimp only
  cases hh : addChecked s.counters.headerBytes usage.headerBytes s.profile.scan.headerBytes with
  | error error =>
    have := addChecked_eq_error hh
    omega
  | ok header =>
    dsimp only
    cases hw : addChecked s.counters.wireResponseBytes usage.wireResponseBytes
      s.profile.scan.wireResponseBytes with
    | error error =>
      have := addChecked_eq_error hw
      omega
    | ok wire =>
      dsimp only
      cases hd : addChecked s.counters.decompressedResponseBytes usage.decompressedResponseBytes
        s.profile.scan.decompressedResponseBytes with
      | error error =>
        have := addChecked_eq_error hd
        omega
      | ok decompressed =>
        rw [addChecked_eq_ok] at hh hw hd
        exact ⟨header, wire, decompressed, hh.2, hw.2, hd.2, by omega, by omega, by omega, rfl⟩

theorem commitAttemptUsage_effect (h : Sound s) (usage : TransportResourceUsage)
    {nextState : ScanResourceState} (hnext : nextState.isAttempt = false)
    (hlate : ¬LateWait s c) (hamounts : c.amounts = usage.amounts)
    (hnote : ∀ tally : StepTally, tally.note c = tally)
    (hdecoded : ∀ usage, c ≠ .commitDecodedPage usage) :
    Effect s c ((s.commitAttemptUsage usage nextState).map thrown id) := by
  unfold ScanResourceAccounting.commitAttemptUsage
  split
  · exact effect_fail hlate _
  rename_i hready
  have hattempt := requestReady_isAttempt (by simpa using hready)
  cases hwithin : s.requireUsageWithin usage with
  | error error => exact effect_fail hlate error
  | ok u =>
    obtain ⟨header, wire, decompressed, hheader, hwire, hdecompressed, hheaderLimit, hwireLimit,
      hdecompressedLimit, heq⟩ := chargeUsage_eq (h.covered hattempt) hwithin nextState
    dsimp only
    rw [heq]
    have hstarted := h.deadline (isStep_of_isAttempt hattempt)
    have hpage := h.coveredPage (Or.inl hattempt)
    refine .returned hlate ⟨rfl, ?_, ?_, ?_, le_rfl,
      Tallied.keep hnote rfl rfl rfl (live_of_isAttempt hattempt), le_rfl, ?_,
      Timed.of_same rfl rfl rfl⟩
    · refine ⟨h.valid, ?_, h.stepAttempts, fun hnextAttempt => ?_, fun _ => ?_, fun _ => hstarted,
        fun _ => hstarted⟩
      · exact { h.within with
          headerBytes := hheaderLimit
          wireResponseBytes := hwireLimit
          decompressedResponseBytes := hdecompressedLimit
          activeRequests := Nat.zero_le _ }
      · have hnextAttempt : nextState.isAttempt = true := hnextAttempt
        rw [hnext] at hnextAttempt
        cases hnextAttempt
      · exact ⟨hpage.pageMemory, hpage.scanMemory⟩
    · rw [hamounts]
      exact { Exact.zero s.counters with
        headerBytes := hheader
        wireResponseBytes := hwire
        decompressedResponseBytes := hdecompressed }
    · rw [hamounts]
      rfl
    · intro other hother
      exact absurd hother (hdecoded other)

theorem commitDecodedPage_effect (h : Sound s) (usage : DecodedPageResourceUsage) :
    Effect s (.commitDecodedPage usage) (s.call (.commitDecodedPage usage)) := by
  have hlate : ¬LateWait s (.commitDecodedPage usage) := fun h => h
  simp only [ScanResourceAccounting.call, ScanResourceAccounting.commitDecodedPage]
  split
  · exact effect_fail hlate _
  rename_i hguard
  have hstate : s.state = .transportCommitted := by simpa using hguard
  cases hcharge : s.decodedCharge usage with
  | error error => exact effect_fail hlate error
  | ok charged =>
    unfold ScanResourceAccounting.decodedCharge at hcharge
    simp only [bind_eq_ok, addChecked_eq_ok, requireWithin_eq_ok] at hcharge
    obtain ⟨_, -, _, hmemory, hlimit, hcharged⟩ := hcharge
    have hpage := h.coveredPage (Or.inr hstate)
    have hpageMemory := hpage.pageMemory
    have hscanMemory := hpage.scanMemory
    have hstarted : s.deadlineStarted = true := h.deadline (by rw [hstate]; rfl)
    have hmax := toNat_max s.counters.peakDecodedMemoryBytes usage.decodedMemoryBytes
    have hpeakPage := h.within.pageMemory
    have hpeakScan := h.within.scanMemory
    have hpageLe : (max s.counters.peakDecodedMemoryBytes usage.decodedMemoryBytes).toNat ≤
        s.profile.page.decodedMemoryBytes.toNat := by omega
    have hscanLe : (max s.counters.peakDecodedMemoryBytes usage.decodedMemoryBytes).toNat ≤
        s.profile.scan.retainedDecodedMemoryBytes.toNat := by omega
    have hrecords : charged.toNat ≤ s.profile.scan.decodedRecords.toNat := by omega
    have hretained : usage.decodedMemoryBytes.toNat ≤
        (max s.counters.peakDecodedMemoryBytes usage.decodedMemoryBytes).toNat := by omega
    have hpeak : s.counters.peakDecodedMemoryBytes.toNat ≤
        (max s.counters.peakDecodedMemoryBytes usage.decodedMemoryBytes).toNat := by omega
    have hlive : s.state ≠ .failed := by simp [hstate]
    refine .returned hlate ⟨rfl, ?_, ?_, rfl, le_rfl,
      Tallied.keep (fun _ => rfl) rfl rfl rfl hlive, hpeak, ?_, Timed.of_same rfl rfl rfl⟩
    · refine ⟨h.valid, ?_, h.stepAttempts, fun hattempt => ?_, fun hpage => ?_, fun _ => hstarted,
        fun _ => hstarted⟩
      · exact { h.within with
          decodedRecords := hrecords
          retainedMemory := hretained
          pageMemory := hpageLe
          scanMemory := hscanLe }
      · cases hattempt
      · rcases hpage with hpage | hpage <;> cases hpage
    · exact { Exact.zero s.counters with decodedRecords := hcharged }
    · intro other hother
      obtain rfl := LedgerCall.commitDecodedPage.inj hother
      exact hretained

/-- Nothing charged, no attempt open. -/
theorem returns_of_counters (h : Sound s) (hlate : ¬LateWait s c)
    (hamounts : c.amounts = {}) (hdecoded : ∀ usage, c ≠ .commitDecodedPage usage)
    (htallied : ∀ tally, Tallied s tally → Tallied s' (tally.note c))
    (hprofile : s'.profile = s.profile) (hcumulative : s'.counters.cumulative = s.counters.cumulative)
    (hwithin : s'.counters.Within s.profile)
    (hattempts : s'.currentStepAttempts.toNat ≤ s.profile.page.requestAttempts.toNat)
    (hstate : s'.state.isAttempt = false ∧ s'.state ≠ .transportCommitted)
    (hdeadline : s'.state.isStep = true → s.deadlineStarted = true)
    (hstarted : s'.deadlineStarted = s.deadlineStarted) (hstart : s'.startedAt = s.startedAt)
    (hend : s'.deadline = s.deadline) :
    Effect s c (none, s') := by
  have hsame {α : Type} (field : ScanResourceCounters → α)
      (hfield : ∀ counters : ScanResourceCounters, field counters.cumulative = field counters) :
      field s'.counters = field s.counters := by
    rw [← hfield, hcumulative, hfield]
  have hexact : Exact {} s.counters s'.counters :=
    ⟨congrArg UInt64.toNat (hsame (·.requestAttempts) fun _ => rfl),
      congrArg UInt64.toNat (hsame (·.headerBytes) fun _ => rfl),
      congrArg UInt64.toNat (hsame (·.wireResponseBytes) fun _ => rfl),
      congrArg UInt64.toNat (hsame (·.decompressedResponseBytes) fun _ => rfl),
      congrArg UInt64.toNat (hsame (·.decodedRecords) fun _ => rfl),
      congrArg UInt64.toNat (hsame (·.serializedRequestBodyBytes) fun _ => rfl),
      congrArg UInt64.toNat (hsame (·.cumulativeRetryWaitingMilliseconds) fun _ => rfl),
      congrArg UInt64.toNat (hsame (·.cumulativeRateLimitWaitingMilliseconds) fun _ => rfl),
      congrArg UInt64.toNat (hsame (·.remoteRequests) fun _ => rfl),
      congrArg UInt64.toNat (hsame (·.cumulativeAdmissionWaitingMilliseconds) fun _ => rfl),
      congrArg UInt64.toNat (hsame (·.cumulativeRemoteTransportMilliseconds) fun _ => rfl)⟩
  refine .returned hlate ⟨hprofile, ?_, hamounts ▸ hexact, ?_, ?_, htallied, ?_, ?_,
    Timed.of_same hstarted hstart hend⟩
  · refine ⟨hprofile ▸ h.valid, hprofile ▸ hwithin, hprofile ▸ hattempts, fun hattempt => ?_,
      fun hpage => ?_, fun hstep => hstarted.trans (hdeadline hstep), fun hpositive => ?_⟩
    · rw [hstate.1] at hattempt
      cases hattempt
    · rcases hpage with hattempt | hcommitted
      · rw [hstate.1] at hattempt
        cases hattempt
      · exact absurd hcommitted hstate.2
    · rw [hsame (·.requestAttempts) fun _ => rfl] at hpositive
      exact hstarted.trans (h.attempted hpositive)
  · rw [hamounts, hsame (·.cumulativeWaitingMilliseconds) fun _ => rfl]
    rfl
  · rw [hsame (·.pages) fun _ => rfl]
  · rw [hsame (·.peakDecodedMemoryBytes) fun _ => rfl]
  · intro usage husage
    exact absurd husage (hdecoded usage)

theorem completePage_effect (h : Sound s) (hasNext : Bool) (now : Int) :
    Effect s (.completePage hasNext now) (s.call (.completePage hasNext now)) := by
  have hlate : ¬LateWait s (.completePage hasNext now) := fun h => h
  simp only [ScanResourceAccounting.call, ScanResourceAccounting.completePage]
  split
  · exact effect_fail hlate _
  rename_i hguard
  have hstate : s.state = .pageDecoded := by simpa using hguard
  have hstarted : s.deadlineStarted = true := h.deadline (by rw [hstate]; rfl)
  have hwithin : ScanResourceCounters.Within
      { s.counters with retainedDecodedMemoryBytes := 0 } s.profile :=
    { h.within with retainedMemory := Nat.zero_le _ }
  split
  · exact .refused hlate ⟨rfl, rfl, rfl, Or.inl rfl, Timed.of_same rfl rfl rfl⟩
  split
  · exact returns_of_counters h hlate rfl (fun _ => by simp)
      (Tallied.restart (fun _ => rfl) rfl rfl rfl) rfl rfl hwithin (Nat.zero_le _)
      ⟨rfl, by simp⟩ (fun _ => hstarted) rfl rfl rfl
  · unfold ScanResourceAccounting.requireReadyForNext
    split
    · exact .refused hlate ⟨rfl, rfl, rfl, Or.inr rfl, Timed.of_same rfl rfl rfl⟩
    · exact returns_of_counters h hlate rfl (fun _ => by simp)
        (Tallied.restart (fun _ => rfl) rfl rfl rfl) rfl rfl hwithin (Nat.zero_le _)
        ⟨rfl, by simp⟩ (fun hstep => by cases hstep) rfl rfl rfl

theorem abortPage_effect (h : Sound s) : Effect s .abortPage (s.call .abortPage) := by
  have hpages : s.abortPage.counters.pages = s.counters.pages := rfl
  have hfailed : s.abortPage.state = .failed := rfl
  refine returns_of_counters h (fun h => h) rfl (fun _ => by simp)
    (fun _ htally => htally.failed hpages hfailed) rfl rfl ?_ h.stepAttempts
    ⟨rfl, by simp [ScanResourceAccounting.abortPage]⟩ (fun hstep => by cases hstep) rfl rfl rfl
  exact { h.within with retainedMemory := Nat.zero_le _, activeRequests := Nat.zero_le _ }

/-- Both waiting calls: refused before anything is written, refused after the
shared counter is, or charged. -/
theorem commitWait_effect {own : ScanResourceAccounting.WaitBudget} {refusal : String}
    {milliseconds : UInt64} (hlate : LateWait s c ↔ LateFor own s milliseconds)
    (hshared : ∀ waited, own.used { s.counters with cumulativeWaitingMilliseconds := waited } =
      own.used s.counters)
    (hused : (own.used s.counters).toNat ≤ (own.limit s.profile.scan).toNat)
    (hcharged : ∀ waited used : UInt64,
      waited.toNat = s.counters.cumulativeWaitingMilliseconds.toNat + milliseconds.toNat →
      waited.toNat ≤ s.profile.scan.cumulativeWaitingMilliseconds.toNat →
      used.toNat = (own.used s.counters).toNat + milliseconds.toNat →
      used.toNat ≤ (own.limit s.profile.scan).toNat → s.state = .stepActive →
      Returns s c { s with
        counters := own.charge { s.counters with cumulativeWaitingMilliseconds := waited } used }) :
    Effect s c ((ScanResourceAccounting.commitWait own refusal s milliseconds).map thrown id) := by
  unfold ScanResourceAccounting.commitWait
  split
  · rename_i hguard
    refine effect_fail (fun hlater => ?_) _
    simp [(hlate.mp hlater).1] at hguard
  rename_i hguard
  have hstate : s.state = .stepActive := by simpa using hguard
  cases hshare : addChecked s.counters.cumulativeWaitingMilliseconds milliseconds
    s.profile.scan.cumulativeWaitingMilliseconds with
  | error error =>
    have hover := addChecked_eq_error hshare
    refine effect_fail (fun hlater => ?_) _
    have hfits := (hlate.mp hlater).2.1
    omega
  | ok waited =>
    rw [addChecked_eq_ok] at hshare
    obtain ⟨hroom, hwaited⟩ := hshare
    have hle : waited.toNat ≤ s.profile.scan.cumulativeWaitingMilliseconds.toNat := by omega
    dsimp only
    rw [hshared waited]
    cases howned : addChecked (own.used s.counters) milliseconds (own.limit s.profile.scan) with
    | error error =>
      have hover := addChecked_eq_error howned
      exact .refusedLate (hlate.mpr ⟨hstate, hroom, hover⟩) (by omega) hle
        ⟨rfl, rfl, rfl, Or.inl rfl, Timed.of_same rfl rfl rfl⟩
    | ok used =>
      rw [addChecked_eq_ok] at howned
      refine .returned (fun hlater => ?_) (hcharged waited used hwaited hle howned.2 (by omega)
        hstate)
      have hover := (hlate.mp hlater).2.2
      omega

/-- Between attempts nothing is owed to an allowance. -/
theorem Sound.recount {counters : ScanResourceCounters} (h : Sound s)
    (hstate : s.state = .stepActive) (hwithin : counters.Within s.profile) :
    Sound { s with counters := counters } := by
  have hstarted : s.deadlineStarted = true := h.deadline (by rw [hstate]; rfl)
  refine ⟨h.valid, hwithin, h.stepAttempts, fun hattempt => ?_, fun hpage => ?_, fun _ => hstarted,
    fun _ => hstarted⟩
  · have hattempt : s.state.isAttempt = true := hattempt
    rw [hstate] at hattempt
    cases hattempt
  · have hpage : s.state.isAttempt = true ∨ s.state = .transportCommitted := hpage
    rw [hstate] at hpage
    rcases hpage with hpage | hpage <;> cases hpage

theorem commitRetryWait_effect (h : Sound s) (milliseconds : UInt64) :
    Effect s (.commitRetryWait milliseconds) (s.call (.commitRetryWait milliseconds)) := by
  refine commitWait_effect Iff.rfl (fun _ => rfl) h.within.retryWaiting ?_
  intro waited used hwaited hwaitedLe hused husedLe hstate
  refine ⟨rfl, h.recount hstate ?_, ?_, hwaited, le_rfl,
    Tallied.keep (fun _ => rfl) rfl rfl rfl (by simp [hstate]), le_rfl, ?_,
    Timed.of_same rfl rfl rfl⟩
  · exact { h.within with waiting := hwaitedLe, retryWaiting := husedLe }
  · exact { Exact.zero s.counters with retryWaiting := hused }
  · intro usage husage
    cases husage

theorem commitRateLimitWait_effect (h : Sound s) (milliseconds : UInt64) :
    Effect s (.commitRateLimitWait milliseconds) (s.call (.commitRateLimitWait milliseconds)) := by
  refine commitWait_effect Iff.rfl (fun _ => rfl) h.within.rateLimitWaiting ?_
  intro waited used hwaited hwaitedLe hused husedLe hstate
  refine ⟨rfl, h.recount hstate ?_, ?_, ?_, le_rfl,
    Tallied.keep (fun _ => rfl) rfl rfl rfl (by simp [hstate]), le_rfl, ?_,
    Timed.of_same rfl rfl rfl⟩
  · exact { h.within with waiting := hwaitedLe, rateLimitWaiting := husedLe }
  · exact { Exact.zero s.counters with rateLimitWaiting := hused }
  · exact hwaited
  · intro usage husage
    cases husage

theorem commitAdmissionWait_effect (h : Sound s) (milliseconds limit : UInt64) :
    Effect s (.commitAdmissionWait milliseconds limit)
      (s.call (.commitAdmissionWait milliseconds limit)) := by
  have hlate : ¬LateWait s (.commitAdmissionWait milliseconds limit) := fun h => h
  simp only [ScanResourceAccounting.call, ScanResourceAccounting.commitAdmissionWait]
  split
  · exact effect_fail hlate _
  rename_i hguard
  have hstate : s.state = .stepActive := by simpa using hguard
  cases hcharge : addChecked s.counters.cumulativeAdmissionWaitingMilliseconds milliseconds
    limit with
  | error error => exact effect_fail hlate _
  | ok waited =>
    rw [addChecked_eq_ok] at hcharge
    refine .returned hlate ⟨rfl, h.recount hstate { h.within with },
      { Exact.zero s.counters with admissionWaiting := hcharge.2 }, rfl, le_rfl,
      Tallied.keep (fun _ => rfl) rfl rfl rfl (by simp [hstate]), le_rfl, ?_,
      Timed.of_same rfl rfl rfl⟩
    intro usage husage
    cases husage

theorem commitRemoteTransportTime_effect (h : Sound s) (milliseconds : UInt64) :
    Effect s (.commitRemoteTransportTime milliseconds)
      (s.call (.commitRemoteTransportTime milliseconds)) := by
  have hlate : ¬LateWait s (.commitRemoteTransportTime milliseconds) := fun h => h
  simp only [ScanResourceAccounting.call, ScanResourceAccounting.commitRemoteTransportTime]
  split
  · exact effect_fail hlate _
  rename_i hguard
  have hlive : s.state ≠ .failed := fun hfailed => by simp [hfailed] at hguard
  cases hcharge : addChecked s.counters.cumulativeRemoteTransportMilliseconds milliseconds
    0xFFFFFFFFFFFFFFFF with
  | error error => exact effect_fail hlate _
  | ok transport =>
    rw [addChecked_eq_ok] at hcharge
    refine .returned hlate ⟨rfl, ?_, { Exact.zero s.counters with remoteTransport := hcharge.2 },
      rfl, le_rfl, Tallied.keep (fun _ => rfl) rfl rfl rfl hlive, le_rfl, ?_,
      Timed.of_same rfl rfl rfl⟩
    · refine ⟨h.valid, { h.within with }, h.stepAttempts, fun hattempt => ?_, fun hpage => ?_,
        h.deadline, h.attempted⟩
      · have hcovered := h.covered hattempt
        exact ⟨hcovered.headerBytes, hcovered.wireResponseBytes,
          hcovered.decompressedResponseBytes⟩
      · have hcovered := h.coveredPage hpage
        exact ⟨hcovered.pageMemory, hcovered.scanMemory⟩
    · intro usage husage
      cases husage

/-- Every call. -/
theorem call_effect (h : Sound s) (c : LedgerCall) : Effect s c (s.call c) := by
  cases c with
  | beginStep now => exact beginStep_effect h now
  | beginAttempt now => exact beginAttempt_effect h now
  | commitRequestBody bodyBytes => exact commitRequestBody_effect h bodyBytes
  | commitRemoteRequest => exact commitRemoteRequest_effect h
  | commitAttemptFailure usage =>
    exact commitAttemptUsage_effect h usage rfl (fun h => h) rfl (fun _ => rfl) (fun _ => by simp)
  | commitTransport usage =>
    exact commitAttemptUsage_effect h usage rfl (fun h => h) rfl (fun _ => rfl) (fun _ => by simp)
  | commitDecodedPage usage => exact commitDecodedPage_effect h usage
  | completePage hasNext now => exact completePage_effect h hasNext now
  | abortPage => exact abortPage_effect h
  | commitRetryWait milliseconds => exact commitRetryWait_effect h milliseconds
  | commitRateLimitWait milliseconds => exact commitRateLimitWait_effect h milliseconds
  | commitAdmissionWait milliseconds limit => exact commitAdmissionWait_effect h milliseconds limit
  | commitRemoteTransportTime milliseconds =>
    exact commitRemoteTransportTime_effect h milliseconds

-- ---------------------------------------------------------------------------
-- Whole runs
-- ---------------------------------------------------------------------------

theorem Effect.sound {r : Option ScanResourceError × ScanResourceAccounting} (h : Sound s)
    (heffect : Effect s c r) : Sound r.2 ∧ r.2.profile = s.profile := by
  cases heffect with
  | refused hlate hrefuses => exact ⟨hrefuses.sound h h.within rfl, hrefuses.profile⟩
  | @refusedLate error s' waited hlate hgrew hle hrefuses =>
    have hwithin : ScanResourceCounters.Within
        { s.counters with cumulativeWaitingMilliseconds := waited } s.profile :=
      { h.within with waiting := hle }
    exact ⟨hrefuses.sound h hwithin rfl, hrefuses.profile⟩
  | returned hlate hreturns => exact ⟨hreturns.sound, hreturns.profile⟩

theorem Effect.timed {r : Option ScanResourceError × ScanResourceAccounting}
    (heffect : Effect s c r) : Timed s c r.2 := by
  cases heffect with
  | refused hlate hrefuses => exact hrefuses.timed
  | refusedLate hlate hgrew hle hrefuses => exact hrefuses.timed
  | returned hlate hreturns => exact hreturns.timed

/-- No cumulative counter decreases. -/
structure Grows (c c' : ScanResourceCounters) : Prop where
  requestAttempts : c.requestAttempts.toNat ≤ c'.requestAttempts.toNat
  pages : c.pages.toNat ≤ c'.pages.toNat
  headerBytes : c.headerBytes.toNat ≤ c'.headerBytes.toNat
  wireResponseBytes : c.wireResponseBytes.toNat ≤ c'.wireResponseBytes.toNat
  decompressedResponseBytes :
    c.decompressedResponseBytes.toNat ≤ c'.decompressedResponseBytes.toNat
  decodedRecords : c.decodedRecords.toNat ≤ c'.decodedRecords.toNat
  peakDecodedMemoryBytes : c.peakDecodedMemoryBytes.toNat ≤ c'.peakDecodedMemoryBytes.toNat
  requestBodyBytes : c.serializedRequestBodyBytes.toNat ≤ c'.serializedRequestBodyBytes.toNat
  waiting : c.cumulativeWaitingMilliseconds.toNat ≤ c'.cumulativeWaitingMilliseconds.toNat
  retryWaiting :
    c.cumulativeRetryWaitingMilliseconds.toNat ≤ c'.cumulativeRetryWaitingMilliseconds.toNat
  rateLimitWaiting :
    c.cumulativeRateLimitWaitingMilliseconds.toNat ≤
      c'.cumulativeRateLimitWaitingMilliseconds.toNat

theorem Grows.refl (c : ScanResourceCounters) : Grows c c :=
  ⟨le_rfl, le_rfl, le_rfl, le_rfl, le_rfl, le_rfl, le_rfl, le_rfl, le_rfl, le_rfl, le_rfl⟩

theorem Grows.trans {a b c : ScanResourceCounters} (hab : Grows a b) (hbc : Grows b c) :
    Grows a c :=
  ⟨hab.1.trans hbc.1, hab.2.trans hbc.2, hab.3.trans hbc.3, hab.4.trans hbc.4, hab.5.trans hbc.5,
    hab.6.trans hbc.6, hab.7.trans hbc.7, hab.8.trans hbc.8, hab.9.trans hbc.9,
    hab.10.trans hbc.10, hab.11.trans hbc.11⟩

theorem Effect.grows {r : Option ScanResourceError × ScanResourceAccounting}
    (heffect : Effect s c r) : Grows s.counters r.2.counters := by
  cases heffect with
  | refused hlate hrefuses =>
    rw [hrefuses.counters]
    exact { Grows.refl s.counters with }
  | refusedLate hlate hgrew hle hrefuses =>
    rw [hrefuses.counters]
    exact { Grows.refl s.counters with waiting := hgrew.le }
  | @returned s' hlate hreturns =>
    have hexact := hreturns.exact
    have hwaiting : s.counters.cumulativeWaitingMilliseconds.toNat ≤
        s'.counters.cumulativeWaitingMilliseconds.toNat := by
      have hwaited := hreturns.waiting
      omega
    exact ⟨hexact.1 ▸ Nat.le_add_right _ _, hreturns.pages, hexact.2 ▸ Nat.le_add_right _ _,
      hexact.3 ▸ Nat.le_add_right _ _, hexact.4 ▸ Nat.le_add_right _ _,
      hexact.5 ▸ Nat.le_add_right _ _, hreturns.peak, hexact.6 ▸ Nat.le_add_right _ _,
      hwaiting, hexact.7 ▸ Nat.le_add_right _ _, hexact.8 ▸ Nat.le_add_right _ _⟩

/-- What a list of calls charges. -/
def totalOf (amount : LedgerAmounts → Nat) (calls : List LedgerCall) : Nat :=
  (calls.map fun c => amount c.amounts).sum

@[simp] theorem totalOf_nil (amount : LedgerAmounts → Nat) : totalOf amount [] = 0 := rfl

@[simp] theorem totalOf_concat (amount : LedgerAmounts → Nat) (calls : List LedgerCall)
    (c : LedgerCall) : totalOf amount (calls ++ [c]) = totalOf amount calls + amount c.amounts := by
  simp [totalOf]

/-- The counters are what the calls that returned have charged. -/
structure Sums (counters : ScanResourceCounters) (done : List LedgerCall) : Prop where
  requestAttempts : counters.requestAttempts.toNat = totalOf (·.requestAttempts) done
  headerBytes : counters.headerBytes.toNat = totalOf (·.headerBytes) done
  wireResponseBytes : counters.wireResponseBytes.toNat = totalOf (·.wireResponseBytes) done
  decompressedResponseBytes :
    counters.decompressedResponseBytes.toNat = totalOf (·.decompressedResponseBytes) done
  decodedRecords : counters.decodedRecords.toNat = totalOf (·.decodedRecords) done
  requestBodyBytes :
    counters.serializedRequestBodyBytes.toNat = totalOf (·.requestBodyBytes) done
  retryWaiting :
    counters.cumulativeRetryWaitingMilliseconds.toNat = totalOf (·.retryWaiting) done
  rateLimitWaiting :
    counters.cumulativeRateLimitWaitingMilliseconds.toNat = totalOf (·.rateLimitWaiting) done
  remoteRequests : counters.remoteRequests.toNat = totalOf (·.remoteRequests) done
  admissionWaiting :
    counters.cumulativeAdmissionWaitingMilliseconds.toNat = totalOf (·.admissionWaiting) done
  remoteTransport :
    counters.cumulativeRemoteTransportMilliseconds.toNat = totalOf (·.remoteTransport) done
  peak : ∀ usage, LedgerCall.commitDecodedPage usage ∈ done →
    usage.decodedMemoryBytes.toNat ≤ counters.peakDecodedMemoryBytes.toNat

theorem Sums.concat {counters : ScanResourceCounters} {done : List LedgerCall}
    (hsums : Sums s.counters done) (h : Returns s c s') (hcounters : s'.counters = counters) :
    Sums counters (done ++ [c]) := by
  subst hcounters
  have hexact := h.exact
  refine ⟨?_, ?_, ?_, ?_, ?_, ?_, ?_, ?_, ?_, ?_, ?_, fun usage husage => ?_⟩
  · rw [hexact.1, hsums.1, totalOf_concat]
  · rw [hexact.2, hsums.2, totalOf_concat]
  · rw [hexact.3, hsums.3, totalOf_concat]
  · rw [hexact.4, hsums.4, totalOf_concat]
  · rw [hexact.5, hsums.5, totalOf_concat]
  · rw [hexact.6, hsums.6, totalOf_concat]
  · rw [hexact.7, hsums.7, totalOf_concat]
  · rw [hexact.8, hsums.8, totalOf_concat]
  · rw [hexact.9, hsums.9, totalOf_concat]
  · rw [hexact.10, hsums.10, totalOf_concat]
  · rw [hexact.11, hsums.11, totalOf_concat]
  · rcases List.mem_append.mp husage with hold | hnew
    · exact (hsums.peak usage hold).trans h.peak
    · exact h.decoded usage (List.mem_singleton.mp hnew).symm

theorem run_concat (s : ScanResourceAccounting) (calls : List LedgerCall) (c : LedgerCall) :
    s.run (calls ++ [c]) = ((s.run calls).call c).2 := by
  simp [ScanResourceAccounting.run]

theorem returned_concat (s : ScanResourceAccounting) (calls : List LedgerCall) (c : LedgerCall) :
    s.returned (calls ++ [c]) =
      s.returned calls ++ if ((s.run calls).call c).1.isNone then [c] else [] := by
  induction calls generalizing s with
  | nil => simp [ScanResourceAccounting.returned, ScanResourceAccounting.run]
  | cons first rest ih =>
    have hrun : (s.call first).2.run rest = s.run (first :: rest) := rfl
    rw [List.cons_append, ScanResourceAccounting.returned, ScanResourceAccounting.returned, ih, hrun]
    by_cases hfirst : (s.call first).1.isNone = true
    · rw [if_pos hfirst, if_pos hfirst, List.cons_append]
    · rw [if_neg hfirst, if_neg hfirst]

theorem length_returned_le (s : ScanResourceAccounting) (calls : List LedgerCall) :
    (s.returned calls).length ≤ calls.length := by
  induction calls generalizing s with
  | nil => exact le_rfl
  | cons first rest ih =>
    have hrest := ih (s.call first).2
    rw [ScanResourceAccounting.returned]
    split <;> simp only [List.length_cons] <;> omega

/-- Every run keeps the ledger sound and its profile. -/
theorem run_keeps (h : Sound s) (calls : List LedgerCall) :
    Sound (s.run calls) ∧ (s.run calls).profile = s.profile := by
  induction calls generalizing s with
  | nil => exact ⟨h, rfl⟩
  | cons c rest ih =>
    obtain ⟨hsound, hprofile⟩ := (call_effect h c).sound h
    obtain ⟨hsound', hprofile'⟩ := ih hsound
    exact ⟨hsound', hprofile'.trans hprofile⟩

/-- After a whole run the counters are the sums of the calls that returned.
Unless a call threw, the shared waiting counter is the sum of the other two. -/
theorem run_sums {start : ScanResourceAccounting} (hstart : Sound start)
    (hzero : start.counters = ScanResourceAccounting.zeroCounters) (calls : List LedgerCall) :
    Sums (start.run calls).counters (start.returned calls) ∧
      (start.returned calls = calls →
        (start.run calls).counters.cumulativeWaitingMilliseconds.toNat =
          (start.run calls).counters.cumulativeRetryWaitingMilliseconds.toNat +
            (start.run calls).counters.cumulativeRateLimitWaitingMilliseconds.toNat) := by
  -- On the calls: one more call charges what its effect says, and a refused one nothing.
  induction calls using List.reverseRecOn with
  | nil =>
    refine ⟨?_, fun _ => ?_⟩
    · show Sums start.counters []
      rw [hzero]
      exact ⟨rfl, rfl, rfl, rfl, rfl, rfl, rfl, rfl, rfl, rfl, rfl, by simp⟩
    · show start.counters.cumulativeWaitingMilliseconds.toNat = _
      rw [ScanResourceAccounting.run, List.foldl_nil, hzero]
      rfl
  | append_singleton calls c ih =>
    obtain ⟨hsums, hwaiting⟩ := ih
    have heffect := call_effect (run_keeps hstart calls).1 c
    have hlength := length_returned_le start calls
    rw [run_concat, returned_concat]
    refine ⟨?_, fun hall => ?_⟩
    · cases hcall : (start.run calls).call c with
      | mk error s' =>
        rw [hcall] at heffect
        cases heffect with
        | refused hlate hrefuses =>
          simp only [Option.isNone_some, Bool.false_eq_true, if_false, List.append_nil]
          rw [hrefuses.counters]
          exact { hsums with }
        | refusedLate hlate hgrew hle hrefuses =>
          simp only [Option.isNone_some, Bool.false_eq_true, if_false, List.append_nil]
          rw [hrefuses.counters]
          exact { hsums with }
        | returned hlate hreturns =>
          simp only [Option.isNone_none, if_true]
          exact hsums.concat hreturns rfl
    -- The shared counter is the sum of both only while no call was refused.
    · cases hcall : (start.run calls).call c with
      | mk error s' =>
        rw [hcall] at heffect hall
        cases heffect with
        | refused hlate hrefuses =>
          have := congrArg List.length hall
          simp at this
          omega
        | refusedLate hlate hgrew hle hrefuses =>
          have := congrArg List.length hall
          simp at this
          omega
        | returned hlate hreturns =>
          simp only [Option.isNone_none, if_true] at hall
          have hbefore := hwaiting (List.append_cancel_right hall)
          have hcharged := hreturns.waiting
          have hretry := hreturns.exact.retryWaiting
          have hrateLimit := hreturns.exact.rateLimitWaiting
          dsimp only
          omega

/-- After a whole run the pages and the attempts of the open step are those of
the calls that returned. -/
theorem run_tallied {start : ScanResourceAccounting} (hstart : Sound start)
    (hfresh : Tallied start {}) (calls : List LedgerCall) :
    Tallied (start.run calls) (stepTally (start.returned calls)) := by
  induction calls using List.reverseRecOn with
  | nil => exact hfresh
  | append_singleton calls c ih =>
    have heffect := call_effect (run_keeps hstart calls).1 c
    rw [run_concat, returned_concat, stepTally, List.foldl_append, ← stepTally]
    cases hcall : (start.run calls).call c with
    | mk error s' =>
      rw [hcall] at heffect
      cases heffect with
      | refused hlate hrefuses => exact ih.failed (by rw [hrefuses.counters]; rfl) hrefuses.state
      | refusedLate hlate hgrew hle hrefuses =>
        exact ih.failed (by rw [hrefuses.counters]; rfl) hrefuses.state
      | returned hlate hreturns => exact hreturns.tallied _ ih

/-- Later calls only add to the counters, and leave a started deadline alone. -/
theorem run_grows (h : Sound s) (calls : List LedgerCall) :
    Grows s.counters (s.run calls).counters ∧
      (s.deadlineStarted = true → SameDeadline s (s.run calls)) := by
  induction calls generalizing s with
  | nil => exact ⟨Grows.refl _, fun hstarted => ⟨hstarted, rfl, rfl⟩⟩
  | cons c rest ih =>
    have heffect := call_effect h c
    obtain ⟨hgrows, hsame⟩ := ih (heffect.sound h).1
    refine ⟨heffect.grows.trans hgrows, fun hstarted => ?_⟩
    have hfirst := heffect.timed.kept hstarted
    have hrest := hsame hfirst.started
    exact ⟨hrest.started, hrest.startedAt.trans hfirst.startedAt,
      hrest.deadline.trans hfirst.deadline⟩

theorem run_append (s : ScanResourceAccounting) (calls later : List LedgerCall) :
    s.run (calls ++ later) = (s.run calls).run later := by
  simp [ScanResourceAccounting.run]

/-- A started deadline was started by one call, a step, at that call's time. -/
theorem run_started {start : ScanResourceAccounting} (hstart : Sound start)
    (hfresh : start.deadlineStarted = false) (calls : List LedgerCall)
    (hstarted : (start.run calls).deadlineStarted = true) :
    ∃ before now after, calls = before ++ .beginStep now :: after ∧
      (start.run before).deadlineStarted = false ∧
      (start.run calls).startedAt = now ∧
      (start.run calls).deadline = now + start.profile.wallTime ∧
      (start.run calls).deadline ≤ maxDuration := by
  induction calls using List.reverseRecOn with
  | nil =>
    rw [show start.run [] = start from rfl, hfresh] at hstarted
    cases hstarted
  | append_singleton calls c ih =>
    obtain ⟨hsound, hprofile⟩ := run_keeps hstart calls
    have htimed := (call_effect hsound c).timed
    rw [run_concat] at hstarted ⊢
    cases hbefore : (start.run calls).deadlineStarted with
    | true =>
      obtain ⟨before, now, after, hcalls, hnot, hat, hdeadline, hle⟩ := ih hbefore
      have hkept := htimed.kept hbefore
      refine ⟨before, now, after ++ [c], ?_, hnot, hkept.startedAt.trans hat,
        hkept.deadline.trans hdeadline, hkept.deadline ▸ hle⟩
      rw [hcalls, List.append_assoc, List.cons_append]
    | false =>
      obtain ⟨now, hc, hat, hdeadline, hle⟩ := htimed.fresh hbefore hstarted
      exact ⟨calls, now, [], by rw [hc], hbefore, hat, hprofile ▸ hdeadline, hle⟩

theorem new_eq_ok {profile : ScanResourceProfile} {start : ScanResourceAccounting}
    (h : ScanResourceAccounting.new profile = .ok start) :
    Sound start ∧ start.profile = profile ∧
      start.counters = ScanResourceAccounting.zeroCounters ∧ start.deadlineStarted = false ∧
      Tallied start {} := by
  unfold ScanResourceAccounting.new at h
  split at h
  · rename_i hvalid
    obtain rfl := Except.ok.inj h
    have hzero : ScanResourceAccounting.zeroCounters.Within profile := by
      constructor <;> exact Nat.zero_le _
    refine ⟨⟨hvalid, hzero, Nat.zero_le _, ?_, ?_, ?_, ?_⟩, rfl, rfl, rfl,
      ⟨rfl, fun _ => rfl, fun _ => by simp⟩⟩
    · intro hattempt
      cases hattempt
    · intro hpage
      rcases hpage with hpage | hpage <;> cases hpage
    · intro hstep
      cases hstep
    · intro hpositive
      cases hpositive
  · cases h

/-- An admitted wall time is a positive duration of the clock. -/
theorem wallTime_pos_le {profile : ScanResourceProfile} (h : profile.isValid = true) :
    0 < profile.wallTime ∧ profile.wallTime ≤ maxDuration := by
  have hclock : maxClockMilliseconds.toNat = 9223372036854 := by decide
  have hzero : (0 : UInt64).toNat = 0 := by decide
  simp only [ScanResourceProfile.isValid, Bool.and_eq_true, Bool.not_eq_true', Bool.or_eq_false_iff,
    decide_eq_false_iff_not, gt_iff_lt, UInt64.lt_iff_toNat_lt, beq_eq_false_iff_ne, ne_eq,
    ← UInt64.toNat_inj] at h
  obtain ⟨hlimits, -, hwall⟩ := h
  have hpositive : ¬profile.scan.maxWallMilliseconds.toNat = (0 : UInt64).toNat :=
    hlimits.1.1.1.2
  unfold ScanResourceProfile.wallTime maxDuration
  omega

/-- Bounds, exactness and the one deadline, after every run of a ledger. -/
theorem ledger_bounds {profile : ScanResourceProfile} {start : ScanResourceAccounting}
    (hnew : ScanResourceAccounting.new profile = .ok start) (calls : List LedgerCall) :
    let s := start.run calls
    s.counters.Within profile ∧
    s.currentStepAttempts.toNat ≤ profile.page.requestAttempts.toNat ∧
    Sums s.counters (start.returned calls) ∧
    Tallied s (stepTally (start.returned calls)) ∧
    (start.returned calls = calls →
      s.counters.cumulativeWaitingMilliseconds.toNat =
        s.counters.cumulativeRetryWaitingMilliseconds.toNat +
          s.counters.cumulativeRateLimitWaitingMilliseconds.toNat) ∧
    (∀ later, Grows s.counters (start.run (calls ++ later)).counters ∧
      (s.deadlineStarted = true → SameDeadline s (start.run (calls ++ later)))) ∧
    (0 < s.counters.requestAttempts.toNat → s.deadlineStarted = true) ∧
    (s.deadlineStarted = true →
      ∃ before now after, calls = before ++ .beginStep now :: after ∧
        (start.run before).deadlineStarted = false ∧ s.startedAt = now ∧
        s.deadline = now + profile.wallTime ∧ s.deadline ≤ maxDuration) ∧
    0 < profile.wallTime ∧ profile.wallTime ≤ maxDuration := by
  intro s
  obtain ⟨hstart, hprofile, hzero, hfresh, htally⟩ := new_eq_ok hnew
  obtain ⟨hsound, hsame⟩ := run_keeps hstart calls
  obtain ⟨hsums, hwaiting⟩ := run_sums hstart hzero calls
  rw [hprofile] at hsame
  refine ⟨hsame ▸ hsound.within, hsame ▸ hsound.stepAttempts, hsums,
    run_tallied hstart htally calls, hwaiting, fun later => ?_, hsound.attempted,
    fun hstarted => ?_, ?_⟩
  · rw [run_append]
    exact run_grows hsound later
  · have hrun := run_started hstart hfresh calls hstarted
    rw [hprofile] at hrun
    exact hrun
  · exact wallTime_pos_le (hprofile ▸ hstart.valid)

/-- Which refused calls leave every cumulative counter alone: all but a wait that
fits the shared budget and not the mechanism's own. -/
theorem commit_failure_atomic {profile : ScanResourceProfile} {start : ScanResourceAccounting}
    (hnew : ScanResourceAccounting.new profile = .ok start) (calls : List LedgerCall)
    (c : LedgerCall) :
    let s := start.run calls
    (∀ error, (s.call c).1 = some error →
      (s.call c).2.counters.cumulative = s.counters.cumulative ∧
      (s.call c).2.counters.Within profile) ↔ ¬LateWait s c := by
  intro s
  obtain ⟨hstart, hprofile, -⟩ := new_eq_ok hnew
  obtain ⟨hsound, hsame⟩ := run_keeps hstart calls
  rw [hprofile] at hsame
  have heffect := call_effect hsound c
  obtain ⟨hsound', hprofile'⟩ := heffect.sound hsound
  have hwithin : (s.call c).2.counters.Within profile := by
    have hwithin := hsound'.within
    rw [hprofile', hsame] at hwithin
    exact hwithin
  cases hcall : s.call c with
  | mk error s' =>
    rw [hcall] at hwithin
    rw [show (start.run calls).call c = s.call c from rfl, hcall] at heffect
    cases heffect with
    | refused hlate hrefuses =>
      refine ⟨fun _ => hlate, fun _ _ _ => ⟨?_, hwithin⟩⟩
      rw [hrefuses.counters]
      rfl
    | @refusedLate error _ waited hlate hgrew hle hrefuses =>
      refine ⟨fun hatomic => ?_, fun hnot => absurd hlate hnot⟩
      have hunchanged := (hatomic error rfl).1
      rw [hrefuses.counters] at hunchanged
      have hwaited := congrArg ScanResourceCounters.cumulativeWaitingMilliseconds hunchanged
      have hwaited : waited = s.counters.cumulativeWaitingMilliseconds := hwaited
      rw [hwaited] at hgrew
      exact absurd hgrew (lt_irrefl _)
    | returned hlate hreturns =>
      refine ⟨fun _ => hlate, fun _ error herror => ?_⟩
      cases herror

-- ---------------------------------------------------------------------------
-- A small profile
-- ---------------------------------------------------------------------------

/-- One page of one attempt; retries may wait 3 of 10 milliseconds. -/
def smallProfile : ScanResourceProfile where
  page := ⟨1, 1, 1, 1, 1, 1, 1, 0⟩
  scan := ⟨1, 1, 1, 1, 1, 1, 1, 10, 1, 0, 10, 3, 3⟩

def smallLedger : ScanResourceAccounting :=
  ⟨smallProfile, ScanResourceAccounting.zeroCounters, .ready, false, 0, 0, ⟨0, 0, 0, 0, 0, 0, 0⟩, 0,
    false, false⟩

theorem ledger_bounds_one_attempt :
    ScanResourceAccounting.new smallProfile = .ok smallLedger ∧
    (smallLedger.run [.beginStep 0, .beginAttempt 5]).counters.Within smallProfile ∧
    (smallLedger.run [.beginStep 0, .beginAttempt 5]).deadline = 10000000 := by
  have hnew : ScanResourceAccounting.new smallProfile = .ok smallLedger := by decide +kernel
  obtain ⟨hwithin, -⟩ := ledger_bounds hnew [.beginStep 0, .beginAttempt 5]
  exact ⟨hnew, hwithin, by decide +kernel⟩

/-- The deadline is there before any attempt, and counts from the step. -/
theorem deadline_precedes_attempt :
    ScanResourceAccounting.new smallProfile = .ok smallLedger ∧
    (smallLedger.run [.beginStep 0]).deadlineStarted = true ∧
    (smallLedger.run [.beginStep 0]).counters.requestAttempts = 0 ∧
    (smallLedger.run [.beginStep 0, .beginAttempt 5]).counters.requestAttempts = 1 ∧
    (smallLedger.run [.beginStep 0, .beginAttempt 5]).deadline ≠ 5 + smallProfile.wallTime := by
  decide +kernel

theorem commit_failure_atomic_first_wait :
    ScanResourceAccounting.new smallProfile = .ok smallLedger ∧
    ∀ error, ((smallLedger.run [.beginStep 0]).call (.commitRetryWait 11)).1 = some error →
      ((smallLedger.run [.beginStep 0]).call (.commitRetryWait 11)).2.counters.cumulative =
        (smallLedger.run [.beginStep 0]).counters.cumulative := by
  have hnew : ScanResourceAccounting.new smallProfile = .ok smallLedger := by decide +kernel
  refine ⟨hnew, fun error herror => ?_⟩
  refine ((commit_failure_atomic hnew [.beginStep 0] (.commitRetryWait 11)).mpr ?_ error herror).1
  intro hlate
  exact absurd hlate.2.1 (by decide +kernel)

/-- Five milliseconds fit the shared budget of ten and not the retry budget of
three: the call throws and the shared counter has moved. -/
theorem refused_wait_moves_counter :
    ScanResourceAccounting.new smallProfile = .ok smallLedger ∧
    ((smallLedger.run [.beginStep 0]).call (.commitRetryWait 5)).1 =
      some ScanResourceAccounting.waitingError ∧
    ((smallLedger.run [.beginStep 0]).call (.commitRetryWait 5)).2.counters.cumulative ≠
      (smallLedger.run [.beginStep 0]).counters.cumulative := by
  decide +kernel

end Cuac.Runtime

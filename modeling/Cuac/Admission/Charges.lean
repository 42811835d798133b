import Mathlib.Data.List.Perm.Basic
import Cuac.Admission.Controller

/-!
# Admission — charges and limits

What a set of counters is for: it adds up a list of *charges*, amounts charged
to identities, globally and under every key of every dimension. `Accounts`
relates counters to the charges they stand for; `Fits` and `Within` state the
limits on the charges alone.

Main results:

* `checkFits_scope_none_iff` — the capacity check decides `Fits`.
* `Accounts.addUsage` — charging, or a charge rolled back by an exception.
* `Accounts.subtract` — discharging.
* `Ledger.recorded_eq`, `Ledger.recorded_le` — what exact counters record.
-/

namespace Cuac.Admission

open Cuac.Lib

variable {α : Type}

-- ---------------------------------------------------------------------------
-- Charges
-- ---------------------------------------------------------------------------

/-- An amount charged to an identity. -/
abbrev Charge (α : Type) := AdmissionIdentity α × UInt64

/-- The charges seen through one dimension. -/
def chargesOn {κ : Type} (keyOf : AdmissionIdentity α → Option κ) (held : List (Charge α)) :
    List (κ × UInt64) :=
  held.filterMap fun h => (keyOf h.1).map fun k => (k, h.2)

/-- The amount charged under one key of one dimension. -/
def usage {κ : Type} [DecidableEq κ] (keyOf : AdmissionIdentity α → Option κ)
    (held : List (Charge α)) (key : κ) : Nat :=
  charged (chargesOn keyOf held) key

def total (held : List (Charge α)) : Nat :=
  (held.map fun h => h.2.toNat).sum

def connectorKey (identity : AdmissionIdentity α) : Option Bytes :=
  some identity.connectorId

def destinationKey (identity : AdmissionIdentity α) : Option AdmissionDestinationKey :=
  some identity.destination

section Usage

variable {κ : Type} [DecidableEq κ] (keyOf : AdmissionIdentity α → Option κ)

@[simp] theorem usage_nil (key : κ) : usage keyOf ([] : List (Charge α)) key = 0 := rfl

theorem usage_cons (h : Charge α) (held : List (Charge α)) (key : κ) :
    usage keyOf (h :: held) key =
      (if keyOf h.1 = some key then h.2.toNat else 0) + usage keyOf held key := by
  rw [usage, usage, chargesOn, List.filterMap_cons]
  cases hk : keyOf h.1 with
  | none => simp [chargesOn]
  | some k => simp [chargesOn, charged_cons]

theorem usage_perm {a b : List (Charge α)} (h : a.Perm b) (key : κ) :
    usage keyOf a key = usage keyOf b key :=
  charged_perm (h.filterMap _) key

theorem usage_sublist {a b : List (Charge α)} (h : a.Sublist b) (key : κ) :
    usage keyOf a key ≤ usage keyOf b key :=
  charged_sublist (h.filterMap _) key

end Usage

theorem total_cons (h : Charge α) (held : List (Charge α)) :
    total (h :: held) = h.2.toNat + total held := rfl

theorem total_perm {a b : List (Charge α)} (h : a.Perm b) : total a = total b :=
  (h.map _).sum_eq

/-- One list of charges is dominated by another: globally and on every key of
every dimension. -/
structure Dominated (a b : List (Charge α)) : Prop where
  total_le : total a ≤ total b
  usage_le : ∀ {κ : Type} [DecidableEq κ] (keyOf : AdmissionIdentity α → Option κ) (key : κ),
    usage keyOf a key ≤ usage keyOf b key

theorem Dominated.of_sublist {a b : List (Charge α)} (h : a.Sublist b) : Dominated a b where
  total_le := (h.map _).sum_le_sum fun _ _ => Nat.zero_le _
  usage_le := fun keyOf key => usage_sublist keyOf h key

theorem Dominated.of_perm {a b : List (Charge α)} (h : a.Perm b) : Dominated a b where
  total_le := (total_perm h).le
  usage_le := fun keyOf key => (usage_perm keyOf h key).le

theorem Dominated.trans {a b c : List (Charge α)} (hab : Dominated a b) (hbc : Dominated b c) :
    Dominated a c where
  total_le := hab.total_le.trans hbc.total_le
  usage_le := fun keyOf key => (hab.usage_le keyOf key).trans (hbc.usage_le keyOf key)

/-- A charge may be split into two of the same identity, and back. -/
theorem dominated_split {i : AdmissionIdentity α} {a b c : UInt64} (held : List (Charge α))
    (h : a.toNat = b.toNat + c.toNat) :
    Dominated ((i, a) :: held) ((i, b) :: (i, c) :: held) ∧
      Dominated ((i, b) :: (i, c) :: held) ((i, a) :: held) := by
  constructor
  · constructor
    · simp only [total_cons]
      omega
    · intro κ _ keyOf key
      simp only [usage_cons]
      split <;> omega
  · constructor
    · simp only [total_cons]
      omega
    · intro κ _ keyOf key
      simp only [usage_cons]
      split <;> omega

-- ---------------------------------------------------------------------------
-- Keys of all dimensions
-- ---------------------------------------------------------------------------

section Keys

variable [DecidableEq α]

/-- A key of one of the five dimensions. -/
inductive UsageKey (α : Type)
  | global
  | connector (id : Bytes)
  | destination (key : AdmissionDestinationKey)
  | principal (token : AdmissionPrincipalToken α)
  | bulkhead (key : BulkheadKey α)

/-- Is the identity counted under the key? -/
def UsageKey.covers : UsageKey α → AdmissionIdentity α → Bool
  | .global, _ => true
  | .connector id, identity => identity.connectorId = id
  | .destination key, identity => identity.destination = key
  | .principal token, identity => identity.usesPrincipal && identity.principal = token
  | .bulkhead key, identity => identity.complete && identity.toBulkhead = key

/-- The limit a key is under. -/
def UsageKey.limit (limits : AdmissionDimensionLimits) : UsageKey α → UInt64
  | .global => limits.global
  | .connector _ => limits.connector
  | .destination _ => limits.destination
  | .principal _ => limits.principal
  | .bulkhead _ => limits.bulkhead

/-- What a list of charges amounts to under a key. -/
def chargedUnder (key : UsageKey α) (held : List (Charge α)) : Nat :=
  ((held.filter fun h => key.covers h.1).map fun h => h.2.toNat).sum

theorem usage_eq_chargedUnder {κ : Type} [DecidableEq κ]
    (keyOf : AdmissionIdentity α → Option κ) (k : κ) (key : UsageKey α)
    (hkey : ∀ identity, keyOf identity = some k ↔ key.covers identity = true)
    (held : List (Charge α)) : usage keyOf held k = chargedUnder key held := by
  induction held with
  | nil => rfl
  | cons h held ih =>
    rw [usage_cons, ih, chargedUnder, chargedUnder, List.filter_cons]
    by_cases hc : key.covers h.1 = true
    · simp [hc, (hkey h.1).mpr hc]
    · simp [hc, mt (hkey h.1).mp hc]

end Keys

-- ---------------------------------------------------------------------------
-- Limits on charges
-- ---------------------------------------------------------------------------

section Limits

variable [DecidableEq α]

/-- `amount` more for `identity` stays within every limit that applies to it. -/
structure Fits (limits : AdmissionDimensionLimits) (held : List (Charge α))
    (identity : AdmissionIdentity α) (amount : UInt64) : Prop where
  global : total held + amount.toNat ≤ limits.global.toNat
  connector : usage connectorKey held identity.connectorId + amount.toNat ≤
    limits.connector.toNat
  destination : usage destinationKey held identity.destination + amount.toNat ≤
    limits.destination.toNat
  principal : identity.usesPrincipal = true →
    usage AdmissionIdentity.principalKey held identity.principal + amount.toNat ≤
      limits.principal.toNat
  bulkhead : identity.complete = true →
    usage AdmissionIdentity.bulkheadKey held identity.toBulkhead + amount.toNat ≤
      limits.bulkhead.toNat

/-- No key is charged beyond its limit. -/
structure Within (limits : AdmissionDimensionLimits) (held : List (Charge α)) : Prop where
  global : total held ≤ limits.global.toNat
  connector : ∀ k, usage connectorKey held k ≤ limits.connector.toNat
  destination : ∀ k, usage destinationKey held k ≤ limits.destination.toNat
  principal : ∀ k, usage AdmissionIdentity.principalKey held k ≤ limits.principal.toNat
  bulkhead : ∀ k, usage AdmissionIdentity.bulkheadKey held k ≤ limits.bulkhead.toNat

theorem Fits.anti {limits : AdmissionDimensionLimits} {a b : List (Charge α)}
    {identity : AdmissionIdentity α} {amount : UInt64} (h : Fits limits b identity amount)
    (hab : Dominated a b) : Fits limits a identity amount where
  global := (Nat.add_le_add_right hab.total_le _).trans h.global
  connector := (Nat.add_le_add_right (hab.usage_le _ _) _).trans h.connector
  destination := (Nat.add_le_add_right (hab.usage_le _ _) _).trans h.destination
  principal := fun hp => (Nat.add_le_add_right (hab.usage_le _ _) _).trans (h.principal hp)
  bulkhead := fun hc => (Nat.add_le_add_right (hab.usage_le _ _) _).trans (h.bulkhead hc)

theorem Within.anti {limits : AdmissionDimensionLimits} {a b : List (Charge α)}
    (h : Within limits b) (hab : Dominated a b) : Within limits a where
  global := hab.total_le.trans h.global
  connector := fun k => (hab.usage_le _ k).trans (h.connector k)
  destination := fun k => (hab.usage_le _ k).trans (h.destination k)
  principal := fun k => (hab.usage_le _ k).trans (h.principal k)
  bulkhead := fun k => (hab.usage_le _ k).trans (h.bulkhead k)

theorem Within.nil (limits : AdmissionDimensionLimits) : Within limits ([] : List (Charge α)) where
  global := Nat.zero_le _
  connector := fun _ => Nat.zero_le _
  destination := fun _ => Nat.zero_le _
  principal := fun _ => Nat.zero_le _
  bulkhead := fun _ => Nat.zero_le _

/-- A charge that fits keeps every limit. -/
theorem Within.add {limits : AdmissionDimensionLimits} {held : List (Charge α)}
    {identity : AdmissionIdentity α} {amount : UInt64} (h : Within limits held)
    (hfits : Fits limits held identity amount) : Within limits ((identity, amount) :: held) where
  global := by
    have := hfits.global
    rw [total_cons]
    dsimp only
    omega
  connector := fun k => by
    rw [usage_cons]
    split
    · rename_i hk
      obtain rfl := Option.some.inj hk
      have := hfits.connector
      dsimp only
      omega
    · simpa using h.connector k
  destination := fun k => by
    rw [usage_cons]
    split
    · rename_i hk
      obtain rfl := Option.some.inj hk
      have := hfits.destination
      dsimp only
      omega
    · simpa using h.destination k
  principal := fun k => by
    rw [usage_cons]
    split
    · rename_i hk
      rw [AdmissionIdentity.principalKey] at hk
      split at hk
      · rename_i hp
        obtain rfl := Option.some.inj hk
        have := hfits.principal hp
        dsimp only
        omega
      · simp at hk
    · simpa using h.principal k
  bulkhead := fun k => by
    rw [usage_cons]
    split
    · rename_i hk
      rw [AdmissionIdentity.bulkheadKey] at hk
      split at hk
      · rename_i hc
        obtain rfl := Option.some.inj hk
        have := hfits.bulkhead hc
        dsimp only
        omega
      · simp at hk
    · simpa using h.bulkhead k

end Limits

-- ---------------------------------------------------------------------------
-- Counters and the charges they stand for
-- ---------------------------------------------------------------------------

/-- A table charged under an optional key. -/
theorem tallies_chargesOn_cons {κ : Type} [DecidableEq κ] {hashOf : κ → UInt64}
    (keyOf : AdmissionIdentity α → Option κ) {counts : List (KeyCount κ)}
    {held : List (Charge α)} {identity : AdmissionIdentity α} {amount : UInt64} {key : κ}
    (hkey : keyOf identity = some key) :
    Tallies hashOf counts (chargesOn keyOf ((identity, amount) :: held)) ↔
      Tallies hashOf counts ((key, amount) :: chargesOn keyOf held) := by
  rw [chargesOn, List.filterMap_cons]
  simp [hkey, chargesOn]

theorem tallies_chargesOn_skip {κ : Type} [DecidableEq κ] {hashOf : κ → UInt64}
    (keyOf : AdmissionIdentity α → Option κ) {counts : List (KeyCount κ)}
    {held : List (Charge α)} {identity : AdmissionIdentity α} {amount : UInt64}
    (hkey : keyOf identity = none) :
    Tallies hashOf counts (chargesOn keyOf ((identity, amount) :: held)) ↔
      Tallies hashOf counts (chargesOn keyOf held) := by
  rw [chargesOn, List.filterMap_cons]
  simp [hkey, chargesOn]

section Counting

variable [DecidableEq α] [StdHash α]

/-- The counters are exactly the sum of the charges of each dimension, and no
subtraction has borrowed. While an identity is being charged the dimensions are
briefly apart, hence one list for each. -/
structure Ledger (c : Counters α) (g con dst pri blk : List (Charge α)) : Prop where
  global : c.global.toNat = total g
  connectors : Tallies (stringHash α) c.connectors (chargesOn connectorKey con)
  destinations : Tallies (destinationHash α) c.destinations (chargesOn destinationKey dst)
  principals : Tallies principalHash c.principals (chargesOn AdmissionIdentity.principalKey pri)
  bulkheads : Tallies bulkheadHash c.bulkheads (chargesOn AdmissionIdentity.bulkheadKey blk)
  settled : c.borrowed = false

/-- The counters add up one list of charges in every dimension. -/
abbrev Accounts (c : Counters α) (held : List (Charge α)) : Prop :=
  Ledger c held held held held held

theorem accounts_empty : Accounts (Counters.empty : Counters α) [] where
  global := rfl
  connectors := .nil
  destinations := .nil
  principals := .nil
  bulkheads := .nil
  settled := rfl

/-- Accounts only see sums: charges that dominate each other are the same. -/
theorem Ledger.congr {c : Counters α} {a b : List (Charge α)} (h : Accounts c a)
    (hab : Dominated a b) (hba : Dominated b a) : Accounts c b := by
  have hsame : ∀ {κ : Type} [DecidableEq κ] (keyOf : AdmissionIdentity α → Option κ) (key : κ),
      charged (chargesOn keyOf a) key = charged (chargesOn keyOf b) key :=
    fun keyOf key => (hab.usage_le keyOf key).antisymm (hba.usage_le keyOf key)
  have hglobal : total a = total b := hab.total_le.antisymm hba.total_le
  exact {
    global := h.global.trans hglobal
    connectors := { h.connectors with
      exact := fun k => (h.connectors.exact k).trans (hsame _ k) }
    destinations := { h.destinations with
      exact := fun k => (h.destinations.exact k).trans (hsame _ k) }
    principals := { h.principals with
      exact := fun k => (h.principals.exact k).trans (hsame _ k) }
    bulkheads := { h.bulkheads with
      exact := fun k => (h.bulkheads.exact k).trans (hsame _ k) }
    settled := h.settled }

theorem Ledger.perm {c : Counters α} {a b : List (Charge α)} (h : Accounts c a)
    (hab : a.Perm b) : Accounts c b :=
  h.congr (.of_perm hab) (.of_perm hab.symm)

theorem exceeds_iff (observed requested limit : UInt64) :
    exceeds observed requested limit = false ↔
      observed.toNat + requested.toNat ≤ limit.toNat := by
  simp only [exceeds, Bool.or_eq_false_iff, decide_eq_false_iff_not, gt_iff_lt,
    UInt64.lt_iff_toNat_lt, Nat.not_lt]
  constructor
  · rintro ⟨hr, ho⟩
    rw [toNat_sub_of_toNat_le hr] at ho
    omega
  · intro h
    have hr : requested.toNat ≤ limit.toNat := by omega
    rw [toNat_sub_of_toNat_le hr]
    omega

/-- The capacity check finds nothing exactly when the charge fits. -/
theorem checkFits_scope_none_iff {c : Counters α} {held : List (Charge α)}
    (h : Accounts c held) (identity : AdmissionIdentity α) (amount : UInt64)
    (limits : AdmissionDimensionLimits) :
    (checkFits c identity amount limits).scope = .none ↔ Fits limits held identity amount := by
  have hg := exceeds_iff c.global amount limits.global
  have hc := exceeds_iff (countFor (stringHash α) c.connectors identity.connectorId) amount
    limits.connector
  have hd := exceeds_iff (countFor (destinationHash α) c.destinations identity.destination) amount
    limits.destination
  have hp := exceeds_iff (countFor principalHash c.principals identity.principal) amount
    limits.principal
  have hb := exceeds_iff (countFor bulkheadHash c.bulkheads identity.toBulkhead) amount
    limits.bulkhead
  rw [h.global] at hg
  rw [h.connectors.exact] at hc
  rw [h.destinations.exact] at hd
  rw [h.principals.exact] at hp
  rw [h.bulkheads.exact] at hb
  constructor
  · intro hscope
    simp only [checkFits] at hscope
    split_ifs at hscope with h1 h2 h3 h4 h5
    simp only [Bool.not_eq_true, Bool.and_eq_false_iff] at h1 h2 h3 h4 h5
    exact {
      global := hg.mp h1
      connector := hc.mp h2
      destination := hd.mp h3
      principal := fun hu => hp.mp (h4.resolve_left (by simp [hu]))
      bulkhead := fun hu => hb.mp (h5.resolve_left (by simp [hu])) }
  · intro hf
    have h1 := hg.mpr hf.global
    have h2 := hc.mpr hf.connector
    have h3 := hd.mpr hf.destination
    have h4 : (identity.usesPrincipal && exceeds
        (countFor principalHash c.principals identity.principal) amount limits.principal)
        = false := by
      cases hu : identity.usesPrincipal with
      | false => rfl
      | true => simpa using hp.mpr (hf.principal hu)
    have h5 : (identity.complete && exceeds
        (countFor bulkheadHash c.bulkheads identity.toBulkhead) amount limits.bulkhead)
        = false := by
      cases hu : identity.complete with
      | false => rfl
      | true => simpa using hb.mpr (hf.bulkhead hu)
    simp [checkFits, h1, h2, h3, h4, h5, emptyObservation]

-- ---------------------------------------------------------------------------
-- One dimension at a time
-- ---------------------------------------------------------------------------

section Stages

variable {c : Counters α} {g con dst pri blk held : List (Charge α)}
  {identity : AdmissionIdentity α} {amount : UInt64}

theorem Ledger.chargeGlobal (h : Ledger c g con dst pri blk) (identity : AdmissionIdentity α)
    (hfit : total g + amount.toNat < 2 ^ 64) :
    Ledger { c with global := c.global + amount } ((identity, amount) :: g) con dst pri blk :=
  { h with
    global := by
      rw [toNat_add_of_lt (by rw [h.global]; exact hfit), h.global, total_cons, Nat.add_comm] }

theorem Ledger.dischargeGlobal (h : Ledger c ((identity, amount) :: g) con dst pri blk) :
    Ledger (dischargeGlobal c amount) g con dst pri blk := by
  have hglobal := h.global
  rw [total_cons] at hglobal
  dsimp only at hglobal
  exact { h with
    global := by
      show (c.global - amount).toNat = total g
      rw [toNat_sub_of_toNat_le (by omega)]
      omega
    settled := by
      have hlt : ¬ c.global < amount := by
        rw [UInt64.lt_iff_toNat_lt]
        omega
      simp [Admission.dischargeGlobal, h.settled, hlt] }

theorem tryAddCount_some {κ : Type} [DecidableEq κ] {hashOf : κ → UInt64} {fails : Bool}
    {counts counts' : List (KeyCount κ)} {key : κ}
    (h : tryAddCount hashOf fails counts key amount = some counts') :
    counts' = addCount hashOf counts key amount := by
  rw [tryAddCount] at h
  split at h
  · simp at h
  · exact (Option.some.inj h).symm

theorem Ledger.chargeConnector (h : Ledger c g con dst pri blk) (hpos : 0 < amount.toNat)
    (hfit : usage connectorKey con identity.connectorId + amount.toNat < 2 ^ 64) :
    Ledger { c with
      connectors := addCount (stringHash α) c.connectors identity.connectorId amount }
      g ((identity, amount) :: con) dst pri blk :=
  { h with
    connectors := (tallies_chargesOn_cons connectorKey rfl).mpr
      (h.connectors.add hpos hfit) }

theorem Ledger.dischargeConnector (h : Ledger c g ((identity, amount) :: con) dst pri blk)
    (hpos : 0 < amount.toNat) :
    Ledger (dischargeConnector c identity amount) g con dst pri blk := by
  have hcon := (tallies_chargesOn_cons connectorKey rfl).mp h.connectors
  exact { h with
    connectors := hcon.subtract hpos
    settled := by
      simp only [Admission.dischargeConnector, takeCount, h.settled, hcon.not_lt_of_cons,
        Bool.or_self] }

theorem Ledger.chargeDestination (h : Ledger c g con dst pri blk) (hpos : 0 < amount.toNat)
    (hfit : usage destinationKey dst identity.destination + amount.toNat < 2 ^ 64) :
    Ledger { c with
      destinations := addCount (destinationHash α) c.destinations identity.destination amount }
      g con ((identity, amount) :: dst) pri blk :=
  { h with
    destinations := (tallies_chargesOn_cons destinationKey rfl).mpr
      (h.destinations.add hpos hfit) }

theorem Ledger.dischargeDestination (h : Ledger c g con ((identity, amount) :: dst) pri blk)
    (hpos : 0 < amount.toNat) :
    Ledger (dischargeDestination c identity amount) g con dst pri blk := by
  have hdst := (tallies_chargesOn_cons destinationKey rfl).mp h.destinations
  exact { h with
    destinations := hdst.subtract hpos
    settled := by
      simp only [Admission.dischargeDestination, takeCount, h.settled, hdst.not_lt_of_cons,
        Bool.or_self] }

theorem Ledger.chargePrincipal (h : Ledger c g con dst pri blk) (hpos : 0 < amount.toNat)
    (hu : identity.usesPrincipal = true)
    (hfit : usage AdmissionIdentity.principalKey pri identity.principal + amount.toNat < 2 ^ 64) :
    Ledger { c with
      principals := addCount principalHash c.principals identity.principal amount }
      g con dst ((identity, amount) :: pri) blk :=
  { h with
    principals := (tallies_chargesOn_cons _ (by simp [AdmissionIdentity.principalKey, hu])).mpr
      (h.principals.add hpos hfit) }

/-- An identity without a principal charges no principal. -/
theorem Ledger.skipPrincipal (hu : identity.usesPrincipal = false) :
    Ledger c g con dst ((identity, amount) :: pri) blk ↔ Ledger c g con dst pri blk := by
  have hkey : identity.principalKey = none := by simp [AdmissionIdentity.principalKey, hu]
  constructor
  · exact fun h => { h with principals := (tallies_chargesOn_skip _ hkey).mp h.principals }
  · exact fun h => { h with principals := (tallies_chargesOn_skip _ hkey).mpr h.principals }

theorem Ledger.dischargePrincipal (h : Ledger c g con dst ((identity, amount) :: pri) blk)
    (hpos : 0 < amount.toNat) :
    Ledger (dischargePrincipal c identity amount) g con dst pri blk := by
  cases hu : identity.usesPrincipal with
  | false =>
    rw [Admission.dischargePrincipal, if_neg (by simp [hu])]
    exact (Ledger.skipPrincipal hu).mp h
  | true =>
    have hkey : identity.principalKey = some identity.principal := by
      simp [AdmissionIdentity.principalKey, hu]
    have hpri := (tallies_chargesOn_cons _ hkey).mp h.principals
    rw [Admission.dischargePrincipal, if_pos hu]
    exact { h with
      principals := hpri.subtract hpos
      settled := by simp only [takeCount, h.settled, hpri.not_lt_of_cons, Bool.or_self] }

theorem Ledger.chargeBulkhead (h : Ledger c g con dst pri blk) (hpos : 0 < amount.toNat)
    (hu : identity.complete = true)
    (hfit : usage AdmissionIdentity.bulkheadKey blk identity.toBulkhead + amount.toNat < 2 ^ 64) :
    Ledger { c with
      bulkheads := addCount bulkheadHash c.bulkheads identity.toBulkhead amount }
      g con dst pri ((identity, amount) :: blk) :=
  { h with
    bulkheads := (tallies_chargesOn_cons _ (by simp [AdmissionIdentity.bulkheadKey, hu])).mpr
      (h.bulkheads.add hpos hfit) }

/-- A preliminary identity charges no bulkhead. -/
theorem Ledger.skipBulkhead (hu : identity.complete = false) :
    Ledger c g con dst pri ((identity, amount) :: blk) ↔ Ledger c g con dst pri blk := by
  have hkey : identity.bulkheadKey = none := by simp [AdmissionIdentity.bulkheadKey, hu]
  constructor
  · exact fun h => { h with bulkheads := (tallies_chargesOn_skip _ hkey).mp h.bulkheads }
  · exact fun h => { h with bulkheads := (tallies_chargesOn_skip _ hkey).mpr h.bulkheads }

theorem Ledger.dischargeBulkhead (h : Ledger c g con dst pri ((identity, amount) :: blk))
    (hpos : 0 < amount.toNat) :
    Ledger (dischargeBulkhead c identity amount) g con dst pri blk := by
  cases hu : identity.complete with
  | false =>
    rw [Admission.dischargeBulkhead, if_neg (by simp [hu])]
    exact (Ledger.skipBulkhead hu).mp h
  | true =>
    have hkey : identity.bulkheadKey = some identity.toBulkhead := by
      simp [AdmissionIdentity.bulkheadKey, hu]
    have hblk := (tallies_chargesOn_cons _ hkey).mp h.bulkheads
    rw [Admission.dischargeBulkhead, if_pos hu]
    exact { h with
      bulkheads := hblk.subtract hpos
      settled := by simp only [takeCount, h.settled, hblk.not_lt_of_cons, Bool.or_self] }

/-- `SubtractUsage` gives one charge back. -/
theorem Accounts.subtract (h : Accounts c ((identity, amount) :: held))
    (hpos : 0 < amount.toNat) : Accounts (subtractUsage c identity amount) held :=
  ((((Ledger.dischargeGlobal h).dischargeConnector hpos).dischargeDestination hpos
    ).dischargePrincipal hpos).dischargeBulkhead hpos

/-- What `AddUsage` leaves behind: the charge in every dimension, or the
accounts as they were. -/
def AddOutcome (identity : AdmissionIdentity α) (amount : UInt64) (held : List (Charge α)) :
    Except (Counters α) (Counters α) → Prop
  | .ok c' => Accounts c' ((identity, amount) :: held)
  | .error c' => Accounts c' held

theorem Accounts.addUsage {limits : AdmissionDimensionLimits} (fails : Dimension → Bool)
    (h : Accounts c held) (hpos : 0 < amount.toNat) (hfits : Fits limits held identity amount) :
    AddOutcome identity amount held (addUsage fails c identity amount) := by
  have hword : ∀ (n : Nat) (w : UInt64), n ≤ w.toNat → n < 2 ^ 64 :=
    fun n w hle => lt_of_le_of_lt hle w.toNat_lt
  have hg := h.chargeGlobal identity (hword _ _ hfits.global)
  have hcon := hg.chargeConnector hpos (hword _ _ hfits.connector)
  have hdst := hcon.chargeDestination hpos (hword _ _ hfits.destination)
  rw [Admission.addUsage]
  dsimp only
  split
  · exact hg.dischargeGlobal
  · rename_i connectors hconnectors
    obtain rfl := tryAddCount_some hconnectors
    split
    · exact hcon.dischargeGlobal.dischargeConnector hpos
    · rename_i destinations hdestinations
      obtain rfl := tryAddCount_some hdestinations
      split
      · exact (hdst.dischargeGlobal.dischargeConnector hpos).dischargeDestination hpos
      · rename_i principals hprincipals
        -- the principal dimension is charged or skipped
        have hpri : Ledger { c with
            global := c.global + amount
            connectors := addCount (stringHash α) c.connectors identity.connectorId amount
            destinations :=
              addCount (destinationHash α) c.destinations identity.destination amount
            principals := principals } ((identity, amount) :: held) ((identity, amount) :: held)
            ((identity, amount) :: held) ((identity, amount) :: held) held := by
          split at hprincipals
          · rename_i hu
            obtain rfl := tryAddCount_some hprincipals
            exact hdst.chargePrincipal hpos hu (hword _ _ (hfits.principal hu))
          · rename_i hu
            obtain rfl := Option.some.inj hprincipals
            exact (Ledger.skipPrincipal (by simpa using hu)).mpr hdst
        split
        · exact ((hpri.dischargeGlobal.dischargeConnector hpos).dischargeDestination hpos
            ).dischargePrincipal hpos
        · rename_i bulkheads hbulkheads
          split at hbulkheads
          · rename_i hu
            obtain rfl := tryAddCount_some hbulkheads
            exact hpri.chargeBulkhead hpos hu (hword _ _ (hfits.bulkhead hu))
          · rename_i hu
            obtain rfl := Option.some.inj hbulkheads
            exact (Ledger.skipBulkhead (by simpa using hu)).mpr hpri

end Stages

-- ---------------------------------------------------------------------------
-- Reading the counters back
-- ---------------------------------------------------------------------------

/-- The usage the counters record under a key. -/
def Counters.recorded (c : Counters α) : UsageKey α → UInt64
  | .global => c.global
  | .connector id => countFor (stringHash α) c.connectors id
  | .destination key => countFor (destinationHash α) c.destinations key
  | .principal token => countFor principalHash c.principals token
  | .bulkhead key => countFor bulkheadHash c.bulkheads key

/-- Exact counters record every key's charges. -/
theorem Ledger.recorded_eq {c : Counters α} {held : List (Charge α)} (h : Accounts c held)
    (key : UsageKey α) : (c.recorded key).toNat = chargedUnder key held := by
  cases key with
  | global =>
    have hall : held.filter (fun h => (UsageKey.global : UsageKey α).covers h.1) = held :=
      List.filter_eq_self.mpr fun _ _ => rfl
    rw [chargedUnder, hall]
    exact h.global
  | connector id =>
    refine (h.connectors.exact id).trans (usage_eq_chargedUnder connectorKey id _ ?_ held)
    intro identity
    simp [connectorKey, UsageKey.covers]
  | destination key =>
    refine (h.destinations.exact key).trans (usage_eq_chargedUnder destinationKey key _ ?_ held)
    intro identity
    simp [destinationKey, UsageKey.covers]
  | principal token =>
    refine (h.principals.exact token).trans (usage_eq_chargedUnder _ token _ ?_ held)
    intro identity
    simp [AdmissionIdentity.principalKey, UsageKey.covers]
  | bulkhead key =>
    refine (h.bulkheads.exact key).trans (usage_eq_chargedUnder _ key _ ?_ held)
    intro identity
    simp [AdmissionIdentity.bulkheadKey, UsageKey.covers]

/-- Exact counters of charges within their limits stay within their limits. -/
theorem Ledger.recorded_le {c : Counters α} {held : List (Charge α)}
    {limits : AdmissionDimensionLimits} (h : Accounts c held) (hwithin : Within limits held)
    (key : UsageKey α) : (c.recorded key).toNat ≤ (key.limit limits).toNat := by
  cases key with
  | global => exact h.global.trans_le hwithin.global
  | connector id => exact (h.connectors.exact id).trans_le (hwithin.connector id)
  | destination key => exact (h.destinations.exact key).trans_le (hwithin.destination key)
  | principal token => exact (h.principals.exact token).trans_le (hwithin.principal token)
  | bulkhead key => exact (h.bulkheads.exact key).trans_le (hwithin.bulkhead key)

/-- Counters with nothing charged are empty, entries included. -/
theorem Ledger.eq_empty {c : Counters α} (h : Accounts c []) : c = Counters.empty := by
  obtain ⟨global, connectors, destinations, principals, bulkheads, borrowed⟩ := c
  have hglobal : global = 0 := UInt64.toNat_inj.mp h.global
  have hconnectors := h.connectors.eq_nil
  have hdestinations := h.destinations.eq_nil
  have hprincipals := h.principals.eq_nil
  have hbulkheads := h.bulkheads.eq_nil
  have hsettled := h.settled
  dsimp only at hconnectors hdestinations hprincipals hbulkheads hsettled
  subst hglobal hconnectors hdestinations hprincipals hbulkheads hsettled
  rfl

end Counting

end Cuac.Admission

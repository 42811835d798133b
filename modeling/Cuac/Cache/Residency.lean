import Cuac.Lib.Machine
import Cuac.Lib.Shedding
import Cuac.Lib.Tally
import Cuac.Cache.ResultCache

/-!
# Cache — what stays resident

The store under any sequence of publications, lookups and closes. Its byte
counter is the total size of what it holds, its limits hold after every call,
and a publication sheds the oldest of the other entries first.

Insertion orders are drawn from one 64-bit counter that nothing checks: age and
insertion order agree up to the draw that wraps it.

Main results:

* `residency` — accounting, limits, eviction and closing over whole runs.
* `wrapped_orders_collide` — past the wrap two entries share an order.
-/

namespace Cuac.Cache

open Cuac.Lib

variable {κ β : Type}

-- ---------------------------------------------------------------------------
-- Sizes and limits
-- ---------------------------------------------------------------------------

/-- Total size of some resident entries. -/
def totalBytes (entries : List (κ × MapEntry β)) : Nat :=
  (entries.map fun kv => kv.2.entry.sizeBytes.toNat).sum

@[simp] theorem totalBytes_nil : totalBytes ([] : List (κ × MapEntry β)) = 0 := rfl

@[simp] theorem totalBytes_cons (kv : κ × MapEntry β) (entries : List (κ × MapEntry β)) :
    totalBytes (kv :: entries) = kv.2.entry.sizeBytes.toNat + totalBytes entries := by
  simp [totalBytes]

theorem totalBytes_perm {a b : List (κ × MapEntry β)} (h : a.Perm b) :
    totalBytes a = totalBytes b :=
  (h.map _).sum_eq

def keysOf (entries : List (κ × MapEntry β)) : List κ :=
  entries.map Prod.fst

def ordersOf (entries : List (κ × MapEntry β)) : List UInt64 :=
  entries.map fun kv => kv.2.insertionOrder

/-- The limits of a store. -/
structure CacheLimits where
  maxEntries : UInt64
  maxBytes : UInt64
  maxEntryBytes : UInt64
  deriving DecidableEq, Repr

def ResultCache.limits (cache : ResultCache κ β) : CacheLimits :=
  ⟨cache.maxEntries, cache.maxBytes, cache.maxEntryBytes⟩

/-- What the constructor checks. -/
structure CacheLimits.Valid (limits : CacheLimits) : Prop where
  entries : 0 < limits.maxEntries.toNat
  bytes : limits.maxBytes.toNat ≤ 64 * 1024 * 1024
  entryBytes : limits.maxEntryBytes.toNat ≤ 16 * 1024 * 1024

def CacheLimits.Fits (limits : CacheLimits) (entries : List (κ × MapEntry β)) : Prop :=
  entries.length ≤ limits.maxEntries.toNat ∧ totalBytes entries ≤ limits.maxBytes.toNat

instance (limits : CacheLimits) :
    DecidablePred (limits.Fits : List (κ × MapEntry β) → Prop) :=
  fun _ => inferInstanceAs (Decidable (_ ∧ _))

theorem CacheLimits.Fits.perm {limits : CacheLimits} {a b : List (κ × MapEntry β)}
    (h : limits.Fits a) (hperm : a.Perm b) : limits.Fits b := by
  obtain ⟨hlength, hbytes⟩ := h
  exact ⟨hperm.length_eq ▸ hlength, totalBytes_perm hperm ▸ hbytes⟩

theorem new_eq_some {maxEntries maxBytes maxEntryBytes : UInt64} {cache : ResultCache κ β}
    (h : ResultCache.new maxEntries maxBytes maxEntryBytes = some cache) :
    cache = ⟨maxEntries, maxBytes, maxEntryBytes, [], 0, 0, false⟩ ∧ cache.limits.Valid := by
  unfold ResultCache.new at h
  split at h
  · cases h
  · rename_i hzero
    split at h
    · cases h
    · rename_i hhard
      obtain rfl := Option.some.inj h
      simp only [Bool.or_eq_true, beq_iff_eq, decide_eq_true_eq, not_or, UInt64.lt_iff_toNat_lt,
        gt_iff_lt, ← UInt64.toNat_inj] at hzero hhard
      obtain ⟨⟨hentries, -⟩, -⟩ := hzero
      obtain ⟨⟨-, hbytes⟩, hentryBytes⟩ := hhard
      have hmb : (64 * 1024 * 1024 : UInt64).toNat = 64 * 1024 * 1024 := by decide
      have hmeb : (16 * 1024 * 1024 : UInt64).toNat = 16 * 1024 * 1024 := by decide
      have hz : (0 : UInt64).toNat = 0 := by decide
      refine ⟨rfl, ?_, ?_, ?_⟩ <;> simp only [ResultCache.limits] <;> omega

-- ---------------------------------------------------------------------------
-- Accounting and age
-- ---------------------------------------------------------------------------

/-- Keys are unique and the byte counter is the total size. -/
structure ResultCache.Accounted (cache : ResultCache κ β) : Prop where
  keys : (keysOf cache.entries).Nodup
  bytes : cache.residentBytes.toNat = totalBytes cache.entries

/-- The loop goes on exactly while the entries do not fit. -/
theorem overfull_iff {cache : ResultCache κ β} (h : cache.Accounted) :
    (decide (cache.entries.length > cache.maxEntries.toNat) ||
      decide (cache.residentBytes > cache.maxBytes)) = true ↔
      ¬cache.limits.Fits cache.entries := by
  have hbytes := h.bytes
  simp only [Bool.or_eq_true, decide_eq_true_eq, gt_iff_lt, UInt64.lt_iff_toNat_lt,
    CacheLimits.Fits, ResultCache.limits, hbytes]
  omega

theorem mem_oldestOf (first : κ × MapEntry β) (rest : List (κ × MapEntry β)) :
    oldestOf first rest ∈ first :: rest := by
  unfold oldestOf
  induction rest generalizing first with
  | nil => simp
  | cons second rest ih =>
    rw [List.foldl_cons]
    split
    · exact List.mem_cons_of_mem _ (ih second)
    · rcases List.mem_cons.mp (ih first) with hfirst | hrest
      · rw [hfirst]
        exact List.mem_cons_self
      · exact List.mem_cons_of_mem _ (List.mem_cons_of_mem _ hrest)

theorem oldestOf_le (first : κ × MapEntry β) (rest : List (κ × MapEntry β)) :
    ∀ kv ∈ first :: rest,
      (oldestOf first rest).2.insertionOrder.toNat ≤ kv.2.insertionOrder.toNat := by
  unfold oldestOf
  induction rest generalizing first with
  | nil => simp
  | cons second rest ih =>
    rw [List.foldl_cons]
    intro kv hkv
    split
    · rename_i hlt
      have hlt := UInt64.lt_iff_toNat_lt.mp hlt
      rcases List.mem_cons.mp hkv with rfl | hkv
      · have := ih second second List.mem_cons_self
        omega
      · exact ih second kv hkv
    · rename_i hge
      have hge := mt UInt64.lt_iff_toNat_lt.mpr hge
      have hfirst := ih first first List.mem_cons_self
      rcases List.mem_cons.mp hkv with rfl | hkv
      · exact hfirst
      · rcases List.mem_cons.mp hkv with rfl | hkv
        · omega
        · exact ih first kv (List.mem_cons_of_mem _ hkv)

-- ---------------------------------------------------------------------------
-- Invariants
-- ---------------------------------------------------------------------------

/-- What holds of a store at all times. -/
structure ResultCache.Resident (cache : ResultCache κ β) : Prop where
  valid : cache.limits.Valid
  accounted : cache.Accounted
  fits : cache.limits.Fits cache.entries
  closed : cache.closed = true → cache.entries = []

/-- After `draws` draws of the insertion counter, the last not yet past its wrap. -/
structure ResultCache.Drawn (cache : ResultCache κ β) (draws : Nat) : Prop where
  next : cache.nextInsertionOrder = UInt64.ofNat draws
  older : ∀ kv ∈ cache.entries, kv.2.insertionOrder.toNat < draws
  distinct : (ordersOf cache.entries).Nodup

theorem Resident.of_new {maxEntries maxBytes maxEntryBytes : UInt64} {start : ResultCache κ β}
    (h : ResultCache.new maxEntries maxBytes maxEntryBytes = some start) : start.Resident := by
  obtain ⟨hstart, hvalid⟩ := new_eq_some h
  subst hstart
  exact ⟨hvalid, ⟨List.nodup_nil, rfl⟩, ⟨Nat.zero_le _, Nat.zero_le _⟩, fun _ => rfl⟩

theorem Drawn.of_new {maxEntries maxBytes maxEntryBytes : UInt64} {start : ResultCache κ β}
    (h : ResultCache.new maxEntries maxBytes maxEntryBytes = some start) : start.Drawn 0 := by
  obtain ⟨hstart, -⟩ := new_eq_some h
  subst hstart
  exact ⟨rfl, by simp, List.nodup_nil⟩

theorem draw_toNat {cache : ResultCache κ β} {draws : Nat} (h : cache.Drawn draws)
    (hdraws : draws < 2 ^ 64) : cache.nextInsertionOrder.toNat = draws := by
  rw [h.next, UInt64.toNat_ofNat']
  exact Nat.mod_eq_of_lt hdraws

section Keyed

variable [DecidableEq κ]

-- ---------------------------------------------------------------------------
-- One key among others
-- ---------------------------------------------------------------------------

/-- Everything resident under another key. -/
def othersThan (key : κ) (entries : List (κ × MapEntry β)) : List (κ × MapEntry β) :=
  entries.filter fun kv => !(kv.1 == key)

theorem othersThan_eq_self {key : κ} {entries : List (κ × MapEntry β)}
    (h : ∀ kv ∈ entries, kv.1 ≠ key) : othersThan key entries = entries := by
  refine List.filter_eq_self.mpr fun kv hkv => ?_
  simp [h kv hkv]

theorem fst_ne_of_mem_othersThan {key : κ} {entries : List (κ × MapEntry β)}
    {kv : κ × MapEntry β} (h : kv ∈ othersThan key entries) : kv.1 ≠ key := by
  have := (List.mem_filter.mp h).2
  simpa using this

/-- Keys are unique, so a resident entry is itself and the others. -/
theorem perm_cons_othersThan {kv : κ × MapEntry β} {entries : List (κ × MapEntry β)}
    (hkeys : (keysOf entries).Nodup) (hkv : kv ∈ entries) :
    entries.Perm (kv :: othersThan kv.1 entries) := by
  induction entries with
  | nil => cases hkv
  | cons first rest ih =>
    obtain ⟨hfirst, hrest⟩ := List.nodup_cons.mp hkeys
    rcases List.mem_cons.mp hkv with rfl | hmem
    · have hne : ∀ other ∈ rest, other.1 ≠ kv.1 := by
        intro other hother heq
        exact hfirst (heq ▸ List.mem_map_of_mem hother)
      have : othersThan kv.1 (kv :: rest) = rest := by
        rw [othersThan, List.filter_cons_of_neg (by simp)]
        exact othersThan_eq_self hne
      rw [this]
    · have hne : first.1 ≠ kv.1 := fun heq => hfirst (heq ▸ List.mem_map_of_mem hmem)
      have : othersThan kv.1 (first :: rest) = first :: othersThan kv.1 rest := by
        rw [othersThan, List.filter_cons_of_pos (by simp [hne])]
        rfl
      rw [this]
      exact ((ih hrest hmem).cons first).trans (List.Perm.swap _ _ _)

/-- Erasing a key leaves the others. -/
theorem eraseP_eq_othersThan {key : κ} {entries : List (κ × MapEntry β)}
    (hkeys : (keysOf entries).Nodup) :
    entries.eraseP (fun kv => kv.1 == key) = othersThan key entries := by
  induction entries with
  | nil => rfl
  | cons first rest ih =>
    obtain ⟨hfirst, hrest⟩ := List.nodup_cons.mp hkeys
    by_cases hkey : first.1 = key
    · rw [List.eraseP_cons_of_pos (by simpa using hkey), othersThan,
        List.filter_cons_of_neg (by simpa using hkey)]
      refine (othersThan_eq_self fun other hother heq => hfirst ?_).symm
      rw [hkey, ← heq]
      exact List.mem_map_of_mem hother
    · rw [List.eraseP_cons_of_neg (by simpa using hkey), othersThan,
        List.filter_cons_of_pos (by simpa using hkey), ih hrest]
      rfl

theorem find_eq_some {cache : ResultCache κ β} {key : κ} {found : MapEntry β}
    (h : cache.find key = some found) : (key, found) ∈ cache.entries := by
  obtain ⟨kv, hkv, rfl⟩ := Option.map_eq_some_iff.mp h
  have hkey : kv.1 = key := by simpa using List.find?_some hkv
  rw [← hkey]
  exact List.mem_of_find?_eq_some hkv

theorem find_eq_none {cache : ResultCache κ β} {key : κ} (h : cache.find key = none) :
    ∀ kv ∈ cache.entries, kv.1 ≠ key := by
  intro kv hkv heq
  have := List.find?_eq_none.mp (Option.map_eq_none_iff.mp h) kv hkv
  simp [heq] at this

-- ---------------------------------------------------------------------------
-- The eviction loop
-- ---------------------------------------------------------------------------

/-- One turn of the loop erases one resident entry and its bytes. -/
theorem ResultCache.Accounted.evictOne {cache : ResultCache κ β} (h : cache.Accounted)
    {oldest : κ × MapEntry β} (holdest : oldest ∈ cache.entries) :
    ({ cache with
        residentBytes := cache.residentBytes - oldest.2.entry.sizeBytes
        entries := cache.entries.eraseP fun kv => kv.1 == oldest.1 } :
      ResultCache κ β).Accounted := by
  have hperm := perm_cons_othersThan h.keys holdest
  have htotal := totalBytes_perm hperm
  rw [totalBytes_cons, ← h.bytes] at htotal
  have hsub := toNat_sub_of_toNat_le (a := cache.residentBytes)
    (b := oldest.2.entry.sizeBytes) (by omega)
  refine ⟨?_, ?_⟩
  · exact h.keys.sublist (List.eraseP_sublist.map _)
  · simp only [eraseP_eq_othersThan h.keys, hsub]
    omega

/-- The loop ends with entries that fit, and touches nothing else. -/
theorem evictTurns_spec {turns : Nat} {cache : ResultCache κ β} (h : cache.Accounted)
    (hturns : cache.entries.length ≤ turns) :
    (evictTurns turns cache).Accounted ∧
      cache.limits.Fits (evictTurns turns cache).entries ∧
      (evictTurns turns cache).limits = cache.limits ∧
      (evictTurns turns cache).nextInsertionOrder = cache.nextInsertionOrder ∧
      (evictTurns turns cache).closed = cache.closed := by
  induction turns generalizing cache with
  | zero =>
    have hempty : cache.entries = [] := List.length_eq_zero_iff.mp (by omega)
    refine ⟨h, ?_, rfl, rfl, rfl⟩
    rw [evictTurns, hempty]
    exact ⟨Nat.zero_le _, Nat.zero_le _⟩
  | succ turns ih =>
    rw [evictTurns]
    by_cases hfits : cache.limits.Fits cache.entries
    · rw [if_neg (mt (overfull_iff h).mp (not_not_intro hfits))]
      exact ⟨h, hfits, rfl, rfl, rfl⟩
    · rw [if_pos ((overfull_iff h).mpr hfits)]
      cases hentries : cache.entries with
      | nil => exact absurd ⟨by simp [hentries], by simp [hentries]⟩ hfits
      | cons first rest =>
        have holdest : oldestOf first rest ∈ cache.entries := hentries ▸ mem_oldestOf first rest
        have hnext := h.evictOne holdest
        rw [hentries] at hnext
        refine ih hnext ?_
        have hlength := List.length_eraseP_of_mem (p := fun kv => kv.1 == (oldestOf first rest).1)
          (mem_oldestOf first rest) (by simp)
        rw [hentries] at hturns
        simp only [List.length_cons] at hturns hlength ⊢
        omega

/-- On entries of distinct ages the loop sheds the oldest first. -/
theorem evictTurns_sheds {turns : Nat} {cache : ResultCache κ β} (h : cache.Accounted)
    (hturns : cache.entries.length ≤ turns) {queue : List (κ × MapEntry β)}
    (hperm : cache.entries.Perm queue)
    (haged : Aged (fun kv => kv.2.insertionOrder.toNat) queue) :
    (evictTurns turns cache).entries.Perm (shed cache.limits.Fits queue) := by
  induction turns generalizing cache queue with
  | zero =>
    have hempty : cache.entries = [] := List.length_eq_zero_iff.mp (by omega)
    rw [hempty] at hperm
    rw [evictTurns, hempty, List.nil_perm.mp hperm]
    exact List.Perm.nil
  | succ turns ih =>
    rw [evictTurns]
    by_cases hfits : cache.limits.Fits cache.entries
    · rw [if_neg (mt (overfull_iff h).mp (not_not_intro hfits)), shed_of_fits (hfits.perm hperm)]
      exact hperm
    · rw [if_pos ((overfull_iff h).mpr hfits)]
      cases hentries : cache.entries with
      | nil => exact absurd ⟨by simp [hentries], by simp [hentries]⟩ hfits
      | cons first rest =>
        have holdest : oldestOf first rest ∈ cache.entries := hentries ▸ mem_oldestOf first rest
        have hnext := h.evictOne holdest
        rw [hentries] at hnext
        cases queue with
        | nil =>
          rw [hentries] at hperm
          exact absurd hperm.length_eq (by simp)
        | cons oldest younger =>
          have hover : ¬cache.limits.Fits (oldest :: younger) :=
            fun hqueue => hfits (hqueue.perm hperm.symm)
          have hhead : oldestOf first rest = oldest := by
            refine haged.eq_head (hperm.subset holdest) fun kv hkv => ?_
            exact oldestOf_le first rest kv (hentries ▸ hperm.symm.subset hkv)
          have hrest : (cache.entries.eraseP fun kv => kv.1 == oldest.1).Perm younger := by
            rw [eraseP_eq_othersThan h.keys]
            have := perm_cons_othersThan h.keys (hhead ▸ holdest)
            exact (this.symm.trans hperm).cons_inv
          rw [shed_cons hover]
          dsimp only
          rw [hhead] at hnext ⊢
          rw [hentries] at hrest
          refine ih hnext ?_ hrest (List.pairwise_cons.mp haged).2
          have hyounger := hperm.length_eq
          have hlength := hrest.length_eq
          simp only [List.length_cons] at hyounger hlength ⊢
          omega

-- ---------------------------------------------------------------------------
-- Publication
-- ---------------------------------------------------------------------------

/-- The store once a candidate is in and nothing is evicted yet. -/
def ResultCache.store (cache : ResultCache κ β) (key : κ) (candidate : CacheEntry β) :
    ResultCache κ β :=
  let inserted : MapEntry β := ⟨candidate, cache.nextInsertionOrder⟩
  match cache.find key with
  | some existing =>
    { cache with
      nextInsertionOrder := cache.nextInsertionOrder + 1
      entries := cache.entries.map fun (kv : κ × MapEntry β) =>
        if kv.1 == key then (key, inserted) else kv
      residentBytes := cache.residentBytes - existing.entry.sizeBytes + candidate.sizeBytes }
  | none =>
    { cache with
      nextInsertionOrder := cache.nextInsertionOrder + 1
      entries := cache.entries ++ [(key, inserted)]
      residentBytes := cache.residentBytes + candidate.sizeBytes }

/-- Everything a publication can do. -/
theorem publishReserved_cases (env : PublishEnv) (key : κ) (candidate : CacheEntry β)
    (cache : ResultCache κ β) :
    cache.publishReserved env key candidate = (cache, false) ∨
    cache.publishReserved env key candidate =
      ({ cache with nextInsertionOrder := cache.nextInsertionOrder + 1 }, false) ∨
    (cache.canFit candidate.sizeBytes = true ∧ cache.closed = false ∧
      cache.publishReserved env key candidate =
        ((cache.store key candidate).evictIfNeeded, true)) := by
  unfold ResultCache.publishReserved ResultCache.store
  by_cases hfit : cache.canFit candidate.sizeBytes = true
  · by_cases hentry : env.entryFails = true
    · exact Or.inl (by simp [hfit, hentry])
    · by_cases hclosed : cache.closed = true
      · exact Or.inl (by simp [hfit, hentry, hclosed])
      · cases hfind : cache.find key with
        | some existing => exact Or.inr (Or.inr (by simp [hfit, hentry, hclosed]))
        | none =>
          by_cases hinsert : env.insertFails = true
          · exact Or.inr (Or.inl (by simp [hfit, hentry, hclosed, hinsert]))
          · exact Or.inr (Or.inr (by simp [hfit, hentry, hclosed, hinsert]))
  · exact Or.inl (by simp [hfit])

@[simp] theorem store_limits (cache : ResultCache κ β) (key : κ) (candidate : CacheEntry β) :
    (cache.store key candidate).limits = cache.limits := by
  unfold ResultCache.store
  cases cache.find key <;> rfl

@[simp] theorem store_nextInsertionOrder (cache : ResultCache κ β) (key : κ)
    (candidate : CacheEntry β) :
    (cache.store key candidate).nextInsertionOrder = cache.nextInsertionOrder + 1 := by
  unfold ResultCache.store
  cases cache.find key <;> rfl

@[simp] theorem store_closed (cache : ResultCache κ β) (key : κ) (candidate : CacheEntry β) :
    (cache.store key candidate).closed = cache.closed := by
  unfold ResultCache.store
  cases cache.find key <;> rfl

/-- A new or replaced key, and the others as they were. -/
theorem store_entries {cache : ResultCache κ β} (h : cache.Accounted) (key : κ)
    (candidate : CacheEntry β) :
    (cache.store key candidate).entries.Perm
      ((key, ⟨candidate, cache.nextInsertionOrder⟩) :: othersThan key cache.entries) := by
  unfold ResultCache.store
  cases hfind : cache.find key with
  | some existing =>
    have hperm := perm_cons_othersThan h.keys (find_eq_some hfind)
    refine (hperm.map _).trans (List.Perm.of_eq ?_)
    rw [List.map_cons, if_pos (by simp)]
    congr 1
    refine (List.map_congr_left fun kv hkv => ?_).trans (List.map_id _)
    rw [if_neg (by simpa using fst_ne_of_mem_othersThan hkv)]
    rfl
  | none =>
    rw [othersThan_eq_self (find_eq_none hfind)]
    exact List.perm_append_singleton _ _

/-- A candidate small enough keeps the accounts, whatever it replaces. -/
theorem store_accounted {cache : ResultCache κ β} (h : cache.Accounted)
    (hvalid : cache.limits.Valid) (hfits : cache.limits.Fits cache.entries) (key : κ)
    {candidate : CacheEntry β} (hcandidate : cache.canFit candidate.sizeBytes = true) :
    (cache.store key candidate).Accounted := by
  have hperm := store_entries h key candidate
  have hmost : candidate.sizeBytes.toNat ≤ cache.maxEntryBytes.toNat := by
    unfold ResultCache.canFit at hcandidate
    split at hcandidate
    · cases hcandidate
    · rename_i hle
      exact Nat.le_of_not_lt (mt UInt64.lt_iff_toNat_lt.mpr hle)
  have hbytes := hvalid.bytes
  have hentryBytes := hvalid.entryBytes
  have htotal := hfits.2
  simp only [ResultCache.limits] at hbytes hentryBytes htotal
  refine ⟨?_, ?_⟩
  · refine (hperm.map Prod.fst).nodup_iff.mpr (List.nodup_cons.mpr ⟨?_, ?_⟩)
    · intro hmem
      obtain ⟨kv, hkv, hkey⟩ := List.mem_map.mp hmem
      exact fst_ne_of_mem_othersThan hkv hkey
    · exact h.keys.sublist (List.filter_sublist.map _)
  · rw [totalBytes_perm hperm, totalBytes_cons]
    unfold ResultCache.store
    cases hfind : cache.find key with
    | some existing =>
      have hbefore := totalBytes_perm (perm_cons_othersThan h.keys (find_eq_some hfind))
      rw [totalBytes_cons] at hbefore
      have hresident := h.bytes
      dsimp only at hbefore ⊢
      have hsub := toNat_sub_of_toNat_le (a := cache.residentBytes)
        (b := existing.entry.sizeBytes) (by omega)
      rw [toNat_add_of_lt (by omega), hsub]
      omega
    | none =>
      have hresident := h.bytes
      dsimp only
      rw [othersThan_eq_self (find_eq_none hfind), toNat_add_of_lt (by omega)]
      omega

-- ---------------------------------------------------------------------------
-- Whole runs
-- ---------------------------------------------------------------------------

/-- A call of the store; `Publish` is a publication with no permit. -/
inductive CacheCall (κ β : Type)
  | publish (env : PublishEnv) (key : κ) (candidate : CacheEntry β)
  | lookup (key : κ) (policy : FreshnessPolicy) (now : UInt64)
  | close

def CacheCall.isPublish : CacheCall κ β → Bool
  | .publish .. => true
  | _ => false

def CacheCall.isClose : CacheCall κ β → Bool
  | .close => true
  | _ => false

def ResultCache.call (cache : ResultCache κ β) : CacheCall κ β → ResultCache κ β
  | .publish env key candidate => (cache.publishReserved env key candidate).1
  | .lookup _ _ _ => cache
  | .close => cache.close

/-- The store under its callers. -/
def ResultCache.machine (start : ResultCache κ β) : Machine (ResultCache κ β) (CacheCall κ β) :=
  ⟨start, ResultCache.call⟩

/-- An accepted publication: what the loop made of the stored candidate. -/
theorem evictIfNeeded_store {cache : ResultCache κ β} (h : cache.Resident) (key : κ)
    {candidate : CacheEntry β} (hcandidate : cache.canFit candidate.sizeBytes = true) :
    ((cache.store key candidate).evictIfNeeded).Accounted ∧
      cache.limits.Fits ((cache.store key candidate).evictIfNeeded).entries ∧
      ((cache.store key candidate).evictIfNeeded).limits = cache.limits ∧
      ((cache.store key candidate).evictIfNeeded).nextInsertionOrder =
        cache.nextInsertionOrder + 1 ∧
      ((cache.store key candidate).evictIfNeeded).closed = cache.closed := by
  have hstored := store_accounted h.accounted h.valid h.fits key hcandidate
  have hspec := evictTurns_spec hstored le_rfl
  rw [store_limits, store_nextInsertionOrder, store_closed] at hspec
  exact hspec

/-- Every call keeps the store sound and its limits. -/
theorem call_resident {cache : ResultCache κ β} (h : cache.Resident) (call : CacheCall κ β) :
    (cache.call call).Resident ∧ (cache.call call).limits = cache.limits := by
  cases call with
  | publish env key candidate =>
    simp only [ResultCache.call]
    rcases publishReserved_cases env key candidate cache with hsame | hdrawn | ⟨hfit, hopen, heq⟩
    · rw [hsame]
      exact ⟨h, rfl⟩
    · rw [hdrawn]
      exact ⟨⟨h.valid, ⟨h.accounted.keys, h.accounted.bytes⟩, h.fits, h.closed⟩, rfl⟩
    · rw [heq]
      obtain ⟨haccounted, hfits, hlimits, -, hclosed⟩ := evictIfNeeded_store h key hfit
      refine ⟨⟨hlimits ▸ h.valid, haccounted, hlimits ▸ hfits, fun hc => ?_⟩, hlimits⟩
      rw [hclosed, hopen] at hc
      cases hc
  | lookup key policy now => exact ⟨h, rfl⟩
  | close =>
    exact ⟨⟨h.valid, ⟨List.nodup_nil, rfl⟩, ⟨Nat.zero_le _, Nat.zero_le _⟩, fun _ => rfl⟩, rfl⟩

/-- What an accepted publication leaves: its own entry, and of the others, oldest
first, all but the shortest head that had to go. -/
def Sheds (limits : CacheLimits) (key : κ) (newest : MapEntry β)
    (before after : List (κ × MapEntry β)) : Prop :=
  ∃ gone kept, (othersThan key before).Perm (gone ++ kept) ∧
    Aged (fun kv => kv.2.insertionOrder.toNat) (gone ++ kept) ∧
    after.Perm ((key, newest) :: kept) ∧
    limits.Fits after ∧
    ∀ i < gone.length, ¬limits.Fits ((key, newest) :: (gone ++ kept).drop i)

/-- The stored candidate is the newest entry. -/
theorem store_drawn {cache : ResultCache κ β} (h : cache.Resident) {draws : Nat}
    (hdrawn : cache.Drawn draws) (hdraws : draws < 2 ^ 64) (key : κ) (candidate : CacheEntry β) :
    (cache.store key candidate).Drawn (draws + 1) := by
  have hnext := draw_toNat hdrawn hdraws
  have hperm := store_entries h.accounted key candidate
  have hothers : ∀ kv ∈ othersThan key cache.entries, kv.2.insertionOrder.toNat < draws :=
    fun kv hkv => hdrawn.older kv (List.mem_of_mem_filter hkv)
  refine ⟨?_, ?_, ?_⟩
  · rw [store_nextInsertionOrder, hdrawn.next, UInt64.ofNat_add]
    rfl
  · intro kv hkv
    rcases List.mem_cons.mp (hperm.subset hkv) with rfl | hkv
    · dsimp only
      omega
    · have := hothers kv hkv
      omega
  · refine (hperm.map _).nodup_iff.mpr (List.nodup_cons.mpr ⟨?_, ?_⟩)
    · intro hmem
      obtain ⟨kv, hkv, horder⟩ := List.mem_map.mp hmem
      have := hothers kv hkv
      rw [horder, hnext] at this
      omega
    · exact hdrawn.distinct.sublist (List.filter_sublist.map _)

theorem evictIfNeeded_drawn {cache : ResultCache κ β} {draws : Nat} (h : cache.Accounted)
    (hdrawn : cache.Drawn draws) : cache.evictIfNeeded.Drawn draws := by
  have hsub : cache.evictIfNeeded.entries.Sublist cache.entries := evictTurns_sublist _ cache
  obtain ⟨-, -, -, hnext, -⟩ := evictTurns_spec h le_rfl
  refine ⟨hnext.trans hdrawn.next, fun kv hkv => hdrawn.older kv (hsub.subset hkv), ?_⟩
  exact hdrawn.distinct.sublist (hsub.map _)

/-- A publication draws at most one order, any other call none. -/
theorem call_drawn {cache : ResultCache κ β} (h : cache.Resident) {draws : Nat}
    (hdrawn : cache.Drawn draws) (call : CacheCall κ β)
    (hdraws : call.isPublish = true → draws < 2 ^ 64) :
    ∃ draws', draws' ≤ draws + (if call.isPublish then 1 else 0) ∧
      (cache.call call).Drawn draws' := by
  cases call with
  | publish env key candidate =>
    have hdraws := hdraws rfl
    simp only [ResultCache.call, CacheCall.isPublish, if_true]
    rcases publishReserved_cases env key candidate cache with hsame | hdrew | ⟨hfit, -, heq⟩
    · rw [hsame]
      exact ⟨draws, by omega, hdrawn⟩
    · rw [hdrew]
      refine ⟨draws + 1, le_rfl, ⟨?_, ?_, hdrawn.distinct⟩⟩
      · rw [hdrawn.next, UInt64.ofNat_add]
        rfl
      · intro kv hkv
        have := hdrawn.older kv hkv
        omega
    · rw [heq]
      have haccounted := store_accounted h.accounted h.valid h.fits key hfit
      exact ⟨draws + 1, le_rfl,
        evictIfNeeded_drawn haccounted (store_drawn h hdrawn hdraws key candidate)⟩
  | lookup key policy now => exact ⟨draws, by simp [CacheCall.isPublish], hdrawn⟩
  | close =>
    exact ⟨draws, by simp [CacheCall.isPublish], ⟨hdrawn.next, by simp [ResultCache.call,
      ResultCache.close], List.nodup_nil⟩⟩

/-- An accepted candidate is the newest, so it stays and the oldest others go. -/
theorem publish_sheds {cache : ResultCache κ β} (h : cache.Resident) {draws : Nat}
    (hdrawn : cache.Drawn draws) (hdraws : draws < 2 ^ 64) {key : κ} {candidate : CacheEntry β}
    (hcandidate : cache.canFit candidate.sizeBytes = true) :
    Sheds cache.limits key ⟨candidate, cache.nextInsertionOrder⟩ cache.entries
      ((cache.store key candidate).evictIfNeeded).entries := by
  let newest : κ × MapEntry β := (key, ⟨candidate, cache.nextInsertionOrder⟩)
  have hnext : newest.2.insertionOrder.toNat = draws := draw_toNat hdrawn hdraws
  have hdistinct : ((othersThan key cache.entries).map
      fun kv => kv.2.insertionOrder.toNat).Nodup := by
    have hmap := hdrawn.distinct.map (f := UInt64.toNat) fun _ _ => UInt64.toNat_inj.mp
    rw [ordersOf, List.map_map] at hmap
    exact hmap.sublist (List.filter_sublist.map _)
  obtain ⟨older, holder, haged⟩ := exists_aged hdistinct
  have hyounger : ∀ kv ∈ older, kv.2.insertionOrder.toNat < newest.2.insertionOrder.toNat := by
    intro kv hkv
    have := hdrawn.older kv (List.mem_of_mem_filter (holder.symm.subset hkv))
    omega
  have hstored := store_accounted h.accounted h.valid h.fits key hcandidate
  have hqueue : (cache.store key candidate).entries.Perm (older ++ [newest]) :=
    (store_entries h.accounted key candidate).trans
      ((holder.cons newest).trans (List.perm_append_singleton newest older).symm)
  have hsheds := evictTurns_sheds hstored le_rfl hqueue (haged.concat hyounger)
  rw [store_limits] at hsheds
  have halone : cache.limits.Fits [newest] := by
    unfold ResultCache.canFit at hcandidate
    split at hcandidate
    · cases hcandidate
    split at hcandidate
    · cases hcandidate
    · rename_i hbytes
      have hbytes := mt UInt64.lt_iff_toNat_lt.mpr hbytes
      have hentries := h.valid.entries
      refine ⟨hentries, ?_⟩
      simp only [totalBytes_cons, totalBytes_nil, ResultCache.limits, newest]
      omega
  obtain ⟨gone, kept, rfl, hshed, hkept, hshortest⟩ := shed_concat halone older
  have hafter : ((cache.store key candidate).evictIfNeeded).entries.Perm (newest :: kept) := by
    rw [hshed] at hsheds
    exact hsheds.trans (List.perm_append_singleton newest kept)
  refine ⟨gone, kept, holder, haged, hafter, ?_, fun i hi hfits => hshortest i hi ?_⟩
  · exact (hkept.perm (List.perm_append_singleton newest kept)).perm hafter.symm
  · exact hfits.perm (List.perm_append_singleton newest _).symm

/-- A closed store takes nothing. -/
theorem publish_of_closed {cache : ResultCache κ β} (h : cache.closed = true) (env : PublishEnv)
    (key : κ) (candidate : CacheEntry β) :
    cache.publishReserved env key candidate = (cache, false) := by
  unfold ResultCache.publishReserved
  by_cases hfit : cache.canFit candidate.sizeBytes = true <;>
    by_cases hentry : env.entryFails = true <;> simp [hfit, hentry, h]

theorem call_of_closed {cache : ResultCache κ β} (h : cache.closed = true)
    (call : CacheCall κ β) : (cache.call call).closed = true := by
  cases call with
  | publish env key candidate =>
    simp only [ResultCache.call, publish_of_closed h, h]
  | lookup key policy now => exact h
  | close => rfl

/-- The store after a whole run. -/
theorem run_resident {start : ResultCache κ β} (hresident : start.Resident)
    (hdrawn : start.Drawn 0) (calls : List (CacheCall κ β)) :
    (start.machine.run calls).Resident ∧
      (start.machine.run calls).limits = start.limits ∧
      (calls.countP CacheCall.isPublish ≤ 2 ^ 64 →
        ∃ draws ≤ calls.countP CacheCall.isPublish, (start.machine.run calls).Drawn draws) ∧
      (CacheCall.close ∈ calls → (start.machine.run calls).closed = true) := by
  induction calls using List.reverseRecOn with
  | nil => exact ⟨hresident, rfl, fun _ => ⟨0, Nat.zero_le _, hdrawn⟩, by simp⟩
  | append_singleton calls call ih =>
    obtain ⟨ihresident, ihlimits, ihdrawn, ihclosed⟩ := ih
    have hrun : start.machine.run (calls ++ [call]) = (start.machine.run calls).call call := by
      simp [Machine.run, ResultCache.machine]
    obtain ⟨hstep, hlimits⟩ := call_resident ihresident call
    rw [hrun]
    refine ⟨hstep, hlimits.trans ihlimits, fun hcount => ?_, fun hclose => ?_⟩
    · rw [List.countP_append, List.countP_singleton] at hcount ⊢
      obtain ⟨draws, hdraws, hold⟩ := ihdrawn (by omega)
      obtain ⟨draws', hdraws', hnew⟩ := call_drawn ihresident hold call (by
        intro hpublish
        rw [if_pos hpublish] at hcount
        omega)
      exact ⟨draws', by omega, hnew⟩
    · rcases List.mem_append.mp hclose with hbefore | hlast
      · exact call_of_closed (ihclosed hbefore) call
      · obtain rfl := List.mem_singleton.mp hlast
        rfl

/-- Accounting, limits, eviction and closing, after every run of the store. Ages
are insertion orders as long as the counter has not wrapped. -/
theorem residency {maxEntries maxBytes maxEntryBytes : UInt64} {start : ResultCache κ β}
    (hnew : ResultCache.new maxEntries maxBytes maxEntryBytes = some start)
    (calls : List (CacheCall κ β)) :
    let cache := start.machine.run calls
    let published := calls.countP CacheCall.isPublish
    ((keysOf cache.entries).Nodup ∧ cache.residentBytes.toNat = totalBytes cache.entries ∧
      cache.residentBytes ≤ maxBytes ∧ cache.entries.length ≤ maxEntries.toNat) ∧
    (published ≤ 2 ^ 64 → (ordersOf cache.entries).Nodup) ∧
    (∀ env key candidate after, published < 2 ^ 64 →
      cache.publishReserved env key candidate = (after, true) →
      Sheds ⟨maxEntries, maxBytes, maxEntryBytes⟩ key ⟨candidate, cache.nextInsertionOrder⟩
        cache.entries after.entries) ∧
    (∀ env key candidate after,
      cache.publishReserved env key candidate = (after, false) →
      after.entries = cache.entries ∧ after.residentBytes = cache.residentBytes) ∧
    (CacheCall.close ∈ calls → cache.entries = [] ∧
      ∀ env key candidate, (cache.publishReserved env key candidate).2 = false) := by
  intro cache published
  obtain ⟨hresident, hlimits, hdrawn, hclosed⟩ :=
    run_resident (Resident.of_new hnew) (Drawn.of_new hnew) calls
  have hstart : start.limits = ⟨maxEntries, maxBytes, maxEntryBytes⟩ := by
    rw [(new_eq_some hnew).1]
    rfl
  rw [hstart] at hlimits
  have hfits := hresident.fits
  rw [hlimits] at hfits
  refine ⟨⟨hresident.accounted.keys, hresident.accounted.bytes, ?_, hfits.1⟩, ?_, ?_, ?_, ?_⟩
  · rw [UInt64.le_iff_toNat_le, hresident.accounted.bytes]
    exact hfits.2
  · intro hcount
    obtain ⟨draws, -, hdraws⟩ := hdrawn hcount
    exact hdraws.distinct
  · intro env key candidate after hcount hpublish
    obtain ⟨draws, hle, hdraws⟩ := hdrawn hcount.le
    rcases publishReserved_cases env key candidate cache with hsame | hdrew | ⟨hfit, -, heq⟩
    · rw [hsame] at hpublish
      exact absurd (Prod.mk.inj hpublish).2 (by decide)
    · rw [hdrew] at hpublish
      exact absurd (Prod.mk.inj hpublish).2 (by decide)
    · rw [heq] at hpublish
      obtain ⟨rfl, -⟩ := Prod.mk.inj hpublish
      rw [← hlimits]
      exact publish_sheds hresident hdraws (by omega) hfit
  · intro env key candidate after hrefused
    rcases publishReserved_cases env key candidate cache with hsame | hdrew | ⟨-, -, heq⟩
    · rw [hsame] at hrefused
      obtain ⟨rfl, -⟩ := Prod.mk.inj hrefused
      exact ⟨rfl, rfl⟩
    · rw [hdrew] at hrefused
      obtain ⟨rfl, -⟩ := Prod.mk.inj hrefused
      exact ⟨rfl, rfl⟩
    · rw [heq] at hrefused
      exact absurd (Prod.mk.inj hrefused).2 (by decide)
  · intro hclose
    have hclosed := hclosed hclose
    refine ⟨hresident.closed hclosed, fun env key candidate => ?_⟩
    rw [publish_of_closed hclosed]

end Keyed

-- ---------------------------------------------------------------------------
-- A small store, and the wrap
-- ---------------------------------------------------------------------------

section Samples

/-- A scan of no batches. -/
def emptyScan : CacheEntry Unit := ⟨0, [], 0, 0, none⟩

def calm : PublishEnv := ⟨0, false, false⟩

def publishEmpty (key : Bool) : CacheCall Bool Unit := .publish calm key emptyScan

/-- Publishing one key again and again only moves its order. -/
theorem republish (maxEntries maxBytes maxEntryBytes : UInt64) {key : Bool}
    (others : List (Bool × MapEntry Unit)) (hothers : ∀ kv ∈ others, kv.1 ≠ key)
    (hlength : others.length + 1 ≤ maxEntries.toNat) (order : UInt64) (n : Nat) :
    (List.replicate n (publishEmpty key)).foldl ResultCache.call
      ⟨maxEntries, maxBytes, maxEntryBytes, others ++ [(key, ⟨emptyScan, order⟩)], order + 1, 0,
        false⟩ =
      ⟨maxEntries, maxBytes, maxEntryBytes,
        others ++ [(key, ⟨emptyScan, order + UInt64.ofNat n⟩)], order + UInt64.ofNat n + 1, 0,
        false⟩ := by
  induction n generalizing order with
  | zero => simp
  | succ n ih =>
    have hfind : (others ++ [(key, (⟨emptyScan, order⟩ : MapEntry Unit))]).find?
        (fun kv => kv.1 == key) = some (key, ⟨emptyScan, order⟩) := by
      rw [List.find?_append, List.find?_eq_none.mpr (by simpa using hothers)]
      simp
    have hmap (inserted : MapEntry Unit) : others.map
        (fun kv => if kv.1 == key then (key, inserted) else kv) = others := by
      refine (List.map_congr_left fun kv hkv => ?_).trans (List.map_id _)
      rw [if_neg (by simpa using hothers kv hkv)]
      rfl
    have hstep : ResultCache.call ⟨maxEntries, maxBytes, maxEntryBytes,
        others ++ [(key, ⟨emptyScan, order⟩)], order + 1, 0, false⟩ (publishEmpty key) =
        ⟨maxEntries, maxBytes, maxEntryBytes, others ++ [(key, ⟨emptyScan, order + 1⟩)],
          order + 1 + 1, 0, false⟩ := by
      have hsize : emptyScan.sizeBytes = 0 := rfl
      have hroom : ¬maxEntries.toNat < others.length + 1 := by omega
      simp only [beq_iff_eq] at hmap hfind
      simp [ResultCache.call, publishEmpty, ResultCache.publishReserved, ResultCache.canFit,
        ResultCache.find, hfind, hmap, ResultCache.evictIfNeeded, evictTurns, calm, hsize, hroom]
    rw [List.replicate_succ, List.foldl_cons, hstep, ih]
    have : order + 1 + UInt64.ofNat n = order + UInt64.ofNat (n + 1) := by
      rw [UInt64.ofNat_add, UInt64.add_assoc, UInt64.add_comm 1]
      rfl
    rw [this]

def oneEntry : ResultCache Bool Unit := ⟨1, 1, 1, [], 0, 0, false⟩

def twoEntries : ResultCache Bool Unit := ⟨2, 1, 1, [], 0, 0, false⟩

theorem residency_second_key :
    ResultCache.new 1 1 1 = some oneEntry ∧
    ∃ after, (oneEntry.machine.run [publishEmpty true]).publishReserved calm false emptyScan =
        (after, true) ∧
      Sheds ⟨1, 1, 1⟩ false ⟨emptyScan, 1⟩ [(true, ⟨emptyScan, 0⟩)] after.entries := by
  have hnew : ResultCache.new 1 1 1 = some oneEntry := rfl
  refine ⟨hnew, _, rfl, ?_⟩
  exact (residency hnew [publishEmpty true]).2.2.1 calm false emptyScan _ (by decide) rfl

/-- One key published once, another one `n` times more than once. -/
def crowdedRun (n : Nat) : List (CacheCall Bool Unit) :=
  publishEmpty false :: publishEmpty true :: List.replicate n (publishEmpty true)

/-- One key published `n` times more than once. -/
def lonelyRun (n : Nat) : List (CacheCall Bool Unit) :=
  publishEmpty true :: List.replicate n (publishEmpty true)

theorem crowdedRun_end (n : Nat) :
    twoEntries.machine.run (crowdedRun n) =
      ⟨2, 1, 1, [(false, ⟨emptyScan, 0⟩), (true, ⟨emptyScan, 1 + UInt64.ofNat n⟩)],
        1 + UInt64.ofNat n + 1, 0, false⟩ :=
  republish 2 1 1 [(false, ⟨emptyScan, 0⟩)] (by simp) (by decide) 1 n

theorem lonelyRun_end (n : Nat) :
    oneEntry.machine.run (lonelyRun n) =
      ⟨1, 1, 1, [(true, ⟨emptyScan, 0 + UInt64.ofNat n⟩)], 0 + UInt64.ofNat n + 1, 0, false⟩ :=
  republish 1 1 1 [] (by simp) (by decide) 0 n

/-- Past the wrap two resident entries share an order, and an accepted
publication evicts its own entry. -/
theorem wrapped_orders_collide :
    ¬(ordersOf (twoEntries.machine.run (crowdedRun (2 ^ 64 - 1))).entries).Nodup ∧
    ∃ after, (oneEntry.machine.run (lonelyRun (2 ^ 64 - 1))).publishReserved calm false emptyScan =
        (after, true) ∧
      ∀ kv ∈ after.entries, kv.1 ≠ false := by
  have hback : (1 : UInt64) + UInt64.ofNat (2 ^ 64 - 1) = 0 := by decide +kernel
  have hlast : (0 : UInt64) + UInt64.ofNat (2 ^ 64 - 1) = 0xFFFFFFFFFFFFFFFF := by decide +kernel
  constructor
  · rw [crowdedRun_end, hback]
    decide
  · rw [lonelyRun_end, hlast]
    exact ⟨_, rfl, by decide⟩

end Samples

end Cuac.Cache

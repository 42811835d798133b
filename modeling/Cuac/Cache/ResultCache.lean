import Mathlib.Data.List.Basic
import Cuac.Runtime.Failure

/-!
# Cache — complete scan results

The executor-local store of complete scans. Every operation runs under one
mutex and is one function here. Keys are compared and hashed only, so they are
an arbitrary type; batches are opaque.

An entry is immutable and shared: the map and any number of streams may own it.
`CacheEntry.id` stands for its address. A permit is a handle the admission
controller has issued; it lives in exactly one place and is named by a number.
-/

namespace Cuac.Cache

-- ---------------------------------------------------------------------------
-- Policy
-- ---------------------------------------------------------------------------

inductive CacheMode
  | off
  | fresh
  | staleIfError
  deriving DecidableEq, Repr

structure FreshnessPolicy where
  mode : CacheMode
  freshMilliseconds : UInt64
  staleMilliseconds : UInt64
  deriving DecidableEq, Repr

def maxWord : UInt64 := 0xFFFFFFFFFFFFFFFF

/-- The age of an entry; a clock behind the entry makes it infinitely old. -/
def entryAge (now storedAt : UInt64) : UInt64 :=
  if now ≥ storedAt then now - storedAt else maxWord

/-- End of the combined fresh and stale window, saturated. -/
def FreshnessPolicy.staleLimit (policy : FreshnessPolicy) : UInt64 :=
  if policy.staleMilliseconds > maxWord - policy.freshMilliseconds then maxWord
  else policy.freshMilliseconds + policy.staleMilliseconds

-- ---------------------------------------------------------------------------
-- The store
-- ---------------------------------------------------------------------------

abbrev Permit := Nat

structure CacheEntry (β : Type) where
  id : Nat
  batches : List β
  storedAtMilliseconds : UInt64
  sizeBytes : UInt64
  admissionPermit : Option Permit
  deriving DecidableEq, Repr

structure MapEntry (β : Type) where
  entry : CacheEntry β
  insertionOrder : UInt64
  deriving DecidableEq, Repr

structure ResultCache (κ β : Type) where
  maxEntries : UInt64
  maxBytes : UInt64
  maxEntryBytes : UInt64
  entries : List (κ × MapEntry β)
  nextInsertionOrder : UInt64
  residentBytes : UInt64
  closed : Bool
  deriving Repr

inductive CacheLookupResult (β : Type)
  | miss
  | freshHit (entry : CacheEntry β) (age : UInt64)
  | staleCandidate (entry : CacheEntry β) (age : UInt64)
  | expired (age : UInt64)
  deriving DecidableEq, Repr

variable {κ β : Type}

/-- An empty store; limits may only narrow the hard profile. -/
def ResultCache.new (maxEntries maxBytes maxEntryBytes : UInt64) : Option (ResultCache κ β) :=
  if maxEntries == 0 || maxBytes == 0 || maxEntryBytes == 0 then none
  else if maxEntries > 256 || maxBytes > 64 * 1024 * 1024 ||
      maxEntryBytes > 16 * 1024 * 1024 then none
  else some ⟨maxEntries, maxBytes, maxEntryBytes, [], 0, 0, false⟩

section Keyed

variable [DecidableEq κ]

def ResultCache.find (cache : ResultCache κ β) (key : κ) : Option (MapEntry β) :=
  (cache.entries.find? fun kv => kv.1 == key).map Prod.snd

def ResultCache.lookup (cache : ResultCache κ β) (key : κ) (policy : FreshnessPolicy)
    (now : UInt64) : CacheLookupResult β :=
  if policy.mode == .off then .miss
  else if cache.closed then .miss
  else
    match cache.find key with
    | none => .miss
    | some found =>
      let age := entryAge now found.entry.storedAtMilliseconds
      if age < policy.freshMilliseconds then .freshHit found.entry age
      else if policy.mode == .staleIfError && age < policy.staleLimit then
        .staleCandidate found.entry age
      else .expired age

def ResultCache.canFit (cache : ResultCache κ β) (entryBytes : UInt64) : Bool :=
  if entryBytes > cache.maxEntryBytes then false
  else if entryBytes > cache.maxBytes then false
  else true

/-- The entry inserted first. -/
def oldestOf (first : κ × MapEntry β) (rest : List (κ × MapEntry β)) : κ × MapEntry β :=
  rest.foldl
    (fun oldest kv => if kv.2.insertionOrder < oldest.2.insertionOrder then kv else oldest) first

/-- The eviction loop; each turn erases one entry, so as many turns as there are
entries are enough. -/
def evictTurns : Nat → ResultCache κ β → ResultCache κ β
  | 0, cache => cache
  | turns + 1, cache =>
    if cache.entries.length > cache.maxEntries.toNat || cache.residentBytes > cache.maxBytes then
      match cache.entries with
      | [] => cache
      | first :: rest =>
        let oldest := oldestOf first rest
        evictTurns turns { cache with
          residentBytes := cache.residentBytes - oldest.2.entry.sizeBytes
          entries := (first :: rest).eraseP fun kv => kv.1 == oldest.1 }
    else cache

def ResultCache.evictIfNeeded (cache : ResultCache κ β) : ResultCache κ β :=
  evictTurns cache.entries.length cache

/-- What a publication reads from outside. Taking the mutex and reading the
steady clock do not throw. -/
structure PublishEnv where
  now : UInt64
  /-- Allocating the entry throws. -/
  entryFails : Bool
  /-- Inserting a new key throws. -/
  insertFails : Bool

/-- `PublishReserved`. A refusal leaves batches and permit with the caller; only
the insertion counter may have moved. -/
def ResultCache.publishReserved (env : PublishEnv) (key : κ) (candidate : CacheEntry β)
    (cache : ResultCache κ β) : ResultCache κ β × Bool :=
  if !cache.canFit candidate.sizeBytes then (cache, false)
  else if env.entryFails then (cache, false)
  else if cache.closed then (cache, false)
  else
    let inserted : MapEntry β := ⟨candidate, cache.nextInsertionOrder⟩
    let drawn := { cache with nextInsertionOrder := cache.nextInsertionOrder + 1 }
    match cache.find key with
    | some existing =>
      let replaced := { drawn with
        entries := cache.entries.map fun (kv : κ × MapEntry β) =>
          if kv.1 == key then (key, inserted) else kv
        residentBytes :=
          cache.residentBytes - existing.entry.sizeBytes + candidate.sizeBytes }
      (replaced.evictIfNeeded, true)
    | none =>
      if env.insertFails then (drawn, false)
      else
        let grown := { drawn with
          entries := cache.entries ++ [(key, inserted)]
          residentBytes := cache.residentBytes + candidate.sizeBytes }
        (grown.evictIfNeeded, true)

end Keyed

def ResultCache.close (cache : ResultCache κ β) : ResultCache κ β :=
  { cache with closed := true, entries := [], residentBytes := 0 }

-- ---------------------------------------------------------------------------
-- What the operations leave resident
-- ---------------------------------------------------------------------------

section Resident

variable [DecidableEq κ]

/-- Eviction only takes entries away. -/
theorem evictTurns_sublist (turns : Nat) (cache : ResultCache κ β) :
    (evictTurns turns cache).entries.Sublist cache.entries := by
  induction turns generalizing cache with
  | zero => exact List.Sublist.refl _
  | succ turns ih =>
    unfold evictTurns
    split
    · split
      · exact List.Sublist.refl _
      · rename_i first rest hentries
        refine (ih _).trans ?_
        rw [hentries]
        exact List.eraseP_sublist
    · exact List.Sublist.refl _

/-- What is resident after a publication was resident before, or is the
candidate under its key. -/
theorem publishReserved_resident {env : PublishEnv} {key : κ} {candidate : CacheEntry β}
    {cache cache' : ResultCache κ β} {published : Bool}
    (h : cache.publishReserved env key candidate = (cache', published))
    {kv : κ × MapEntry β} (hkv : kv ∈ cache'.entries) :
    kv ∈ cache.entries ∨ (published = true ∧ kv.1 = key ∧ kv.2.entry = candidate) := by
  unfold ResultCache.publishReserved at h
  split at h
  · obtain ⟨rfl, rfl⟩ := Prod.mk.inj h
    exact Or.inl hkv
  split at h
  · obtain ⟨rfl, rfl⟩ := Prod.mk.inj h
    exact Or.inl hkv
  split at h
  · obtain ⟨rfl, rfl⟩ := Prod.mk.inj h
    exact Or.inl hkv
  dsimp only at h
  split at h
  · obtain ⟨rfl, rfl⟩ := Prod.mk.inj h
    have hmem := (evictTurns_sublist _ _).subset hkv
    obtain ⟨old, hold, rfl⟩ := List.mem_map.mp hmem
    split
    · exact Or.inr ⟨rfl, rfl, rfl⟩
    · exact Or.inl hold
  · split at h
    · obtain ⟨rfl, rfl⟩ := Prod.mk.inj h
      exact Or.inl hkv
    · obtain ⟨rfl, rfl⟩ := Prod.mk.inj h
      have hmem := (evictTurns_sublist _ _).subset hkv
      rcases List.mem_append.mp hmem with hold | hnew
      · exact Or.inl hold
      · obtain rfl := List.mem_singleton.mp hnew
        exact Or.inr ⟨rfl, rfl, rfl⟩

/-- A refused publication leaves every resident entry as it was. -/
theorem publishReserved_refused {env : PublishEnv} {key : κ} {candidate : CacheEntry β}
    {cache cache' : ResultCache κ β}
    (h : cache.publishReserved env key candidate = (cache', false)) :
    cache'.entries = cache.entries := by
  unfold ResultCache.publishReserved at h
  split at h
  · obtain ⟨rfl, -⟩ := Prod.mk.inj h
    rfl
  split at h
  · obtain ⟨rfl, -⟩ := Prod.mk.inj h
    rfl
  split at h
  · obtain ⟨rfl, -⟩ := Prod.mk.inj h
    rfl
  dsimp only at h
  split at h
  · exact absurd (Prod.mk.inj h).2 (by decide)
  · split at h
    · obtain ⟨rfl, -⟩ := Prod.mk.inj h
      rfl
    · exact absurd (Prod.mk.inj h).2 (by decide)

/-- What a lookup hands out is resident under its key. -/
theorem lookup_resident {cache : ResultCache κ β} {key : κ} {policy : FreshnessPolicy}
    {now : UInt64} {entry : CacheEntry β} {age : UInt64}
    (h : cache.lookup key policy now = .freshHit entry age ∨
      cache.lookup key policy now = .staleCandidate entry age) :
    ∃ kv ∈ cache.entries, kv.1 = key ∧ kv.2.entry = entry := by
  unfold ResultCache.lookup at h
  split at h
  · simp at h
  split at h
  · simp at h
  split at h
  · simp at h
  · rename_i found hfound
    obtain ⟨kv, hkv, rfl⟩ := Option.map_eq_some_iff.mp hfound
    have hkey : (kv.1 == key) = true := by
      have hfits := List.find?_some hkv
      exact hfits
    refine ⟨kv, List.mem_of_find?_eq_some hkv, beq_iff_eq.mp hkey, ?_⟩
    dsimp only at h
    split at h
    · simp at h
      exact h.1
    · split at h
      · simp at h
        exact h.1
      · simp at h

end Resident

end Cuac.Cache

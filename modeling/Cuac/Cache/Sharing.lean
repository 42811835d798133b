import Mathlib.Data.List.Nodup
import Mathlib.Data.List.Perm.Basic
import Mathlib.Data.Multiset.AddSub
import Cuac.Cache.Publication

/-!
# Cache — streams that share one cache

Any number of streams over one cache, opened and called in any order. A call
touches the cache at most once, under the cache's mutex, and the admission
controller answers through the call's arguments, so calls can be taken one
after another.

Entries and their permits are reference counted in the source. Here `sweep`
destroys, after every step, the entries that neither the cache nor a stream
owns any more, and gives their permits back.

Main results:

* `step_shared` — every step keeps the shared invariant.
* `only_complete_scans_cached` — the statement over all interleavings.
-/

namespace Cuac.Cache

open Cuac.Lib Cuac.Runtime

variable {κ β : Type}

-- ---------------------------------------------------------------------------
-- The system
-- ---------------------------------------------------------------------------

structure System (κ β : Type) where
  world : World κ β
  /-- Every stream ever opened; a destroyed stream stays, closed. -/
  streams : List (Stream κ β)

namespace System

/-- The cache or a stream owns a share of the entry. -/
def owns (sys : System κ β) (x : CacheEntry β) : Bool :=
  sys.world.cache.entries.any (fun kv => kv.2.entry.id == x.id) ||
    sys.streams.any fun s => s.pins.any fun y => y.id == x.id

/-- Destroy the entries nobody owns; a destroyed entry releases its permit. -/
def sweep (sys : System κ β) : System κ β :=
  { sys with
    world := { sys.world with
      allocated := sys.world.allocated.filter sys.owns
      live := sys.world.live.diff
        (permitsOf (sys.world.allocated.filter fun x => !sys.owns x)) } }

end System

inductive Event (κ β : Type)
  | open (config : StreamConfig κ) (script : Script β) (now : UInt64)
  | call (index : Nat) (call : Call)
  | closeCache

-- ---------------------------------------------------------------------------
-- The invariant
-- ---------------------------------------------------------------------------

/-- What every step keeps before unowned entries are destroyed. -/
structure Tracked (sys : System κ β) : Prop where
  honest : ∀ s ∈ sys.streams, Honest s
  resident : ∀ kv ∈ sys.world.cache.entries, kv.2.entry ∈ sys.world.allocated
  source : ∀ kv ∈ sys.world.cache.entries, ∃ s ∈ sys.streams,
    s.config.key = kv.1 ∧ s.published = some kv.2.entry
  pinned : ∀ s ∈ sys.streams, ∀ x ∈ s.pins, x ∈ sys.world.allocated
  named : ∀ x ∈ sys.world.allocated, x.id < sys.world.nextEntry
  apart : (sys.world.allocated.map CacheEntry.id).Nodup
  owned : (sys.streams.filterMap Stream.candidatePermit ++ permitsOf sys.world.allocated).Perm
    sys.world.live
  distinct : sys.world.live.Nodup
  issued : ∀ p ∈ sys.world.live, p < sys.world.nextPermit

/-- The shared invariant: what is allocated has an owner. -/
structure Shared (sys : System κ β) : Prop extends Tracked sys where
  alive : ∀ x ∈ sys.world.allocated, sys.owns x = true

/-- The order of the streams does not matter. -/
theorem Tracked.perm {w : World κ β} {streams streams' : List (Stream κ β)}
    (h : Tracked ⟨w, streams⟩) (hperm : streams.Perm streams') : Tracked ⟨w, streams'⟩ where
  honest := fun s hs => h.honest s (hperm.mem_iff.mpr hs)
  resident := h.resident
  source := fun kv hkv => by
    obtain ⟨s, hs, hsource⟩ := h.source kv hkv
    exact ⟨s, hperm.mem_iff.mp hs, hsource⟩
  pinned := fun s hs => h.pinned s (hperm.mem_iff.mpr hs)
  named := h.named
  apart := h.apart
  owned := ((hperm.symm.filterMap _).append_right _).trans h.owned
  distinct := h.distinct
  issued := h.issued

theorem filterMap_candidatePermit_cons (s : Stream κ β) (rest : List (Stream κ β)) :
    (s :: rest).filterMap Stream.candidatePermit =
      s.candidatePermit.toList ++ rest.filterMap Stream.candidatePermit := by
  cases h : s.candidatePermit <;> simp [h]

/-- The permits seen from one of the streams. -/
theorem Tracked.held {w : World κ β} {s : Stream κ β} {rest : List (Stream κ β)}
    (h : Tracked ⟨w, s :: rest⟩) : Held (rest.filterMap Stream.candidatePermit) ⟨w, s⟩ := by
  have howned := h.owned
  rw [filterMap_candidatePermit_cons, List.append_assoc] at howned
  exact ⟨howned, h.distinct, h.issued⟩

/-- A quiet call of one stream. -/
theorem Tracked.quiet {w w' : World κ β} {s s' : Stream κ β} {rest : List (Stream κ β)}
    (h : Tracked ⟨w, s :: rest⟩) (hquiet : Quiet ⟨w, s⟩ ⟨w', s'⟩) (hhonest : Honest s') :
    Tracked ⟨w', s' :: rest⟩ := by
  have hheld := hquiet.held _ h.held
  have hallocated : w'.allocated = w.allocated := hquiet.allocated
  have hentries : w'.cache.entries = w.cache.entries := hquiet.entries
  constructor
  · intro t ht
    rcases List.mem_cons.mp ht with rfl | ht
    · exact hhonest
    · exact h.honest t (List.mem_cons_of_mem _ ht)
  · intro kv hkv
    show kv.2.entry ∈ w'.allocated
    rw [hallocated]
    exact h.resident kv (hentries ▸ hkv)
  · intro kv hkv
    obtain ⟨t, ht, hkey, hpublished⟩ := h.source kv (hentries ▸ hkv)
    rcases List.mem_cons.mp ht with rfl | ht
    · have hconfig : s'.config = t.config := hquiet.config
      have hsame : s'.published = t.published := hquiet.published
      exact ⟨s', List.mem_cons_self, by rw [hconfig, hkey], by rw [hsame, hpublished]⟩
    · exact ⟨t, List.mem_cons_of_mem _ ht, hkey, hpublished⟩
  · intro t ht x hx
    show x ∈ w'.allocated
    rw [hallocated]
    rcases List.mem_cons.mp ht with rfl | ht
    · exact h.pinned s List.mem_cons_self x (hquiet.pins x hx)
    · exact h.pinned t (List.mem_cons_of_mem _ ht) x hx
  · intro x hx
    show x.id < w'.nextEntry
    rw [show w'.nextEntry = w.nextEntry from hquiet.nextEntry]
    exact h.named x (hallocated ▸ hx)
  · show (w'.allocated.map CacheEntry.id).Nodup
    rw [hallocated]
    exact h.apart
  · rw [filterMap_candidatePermit_cons, List.append_assoc]
    exact hheld.owned
  · exact hheld.distinct
  · exact hheld.issued

/-- A call that makes its stream's scan resident. -/
theorem Tracked.publishes {w w' : World κ β} {s s' : Stream κ β} {rest : List (Stream κ β)}
    {entry : CacheEntry β} (h : Tracked ⟨w, s :: rest⟩)
    (hpublishes : Publishes ⟨w, s⟩ ⟨w', s'⟩ entry) (hhonest : Honest s') :
    Tracked ⟨w', s' :: rest⟩ := by
  have hheld := hpublishes.held _ h.held
  have hallocated : w'.allocated = w.allocated ++ [entry] := hpublishes.allocated
  have hid : entry.id = w.nextEntry := hpublishes.id
  have hnew : entry ∈ w'.allocated := by
    rw [hallocated]
    exact List.mem_append_right _ List.mem_cons_self
  have hold : ∀ x ∈ w.allocated, x ∈ w'.allocated := fun x hx => by
    rw [hallocated]
    exact List.mem_append_left _ hx
  constructor
  · intro t ht
    rcases List.mem_cons.mp ht with rfl | ht
    · exact hhonest
    · exact h.honest t (List.mem_cons_of_mem _ ht)
  · intro kv hkv
    rcases hpublishes.entries kv hkv with hkv | ⟨-, hentry⟩
    · exact hold _ (h.resident kv hkv)
    · show kv.2.entry ∈ w'.allocated
      rw [hentry]
      exact hnew
  · intro kv hkv
    rcases hpublishes.entries kv hkv with hkv | ⟨hkey, hentry⟩
    · obtain ⟨t, ht, hkey, hpublished⟩ := h.source kv hkv
      rcases List.mem_cons.mp ht with rfl | ht
      · -- the publishing stream had published nothing before
        have hbefore : t.published = none := hpublishes.before
        rw [hbefore] at hpublished
        cases hpublished
      · exact ⟨t, List.mem_cons_of_mem _ ht, hkey, hpublished⟩
    · have hconfig : s'.config = s.config := hpublishes.config
      exact ⟨s', List.mem_cons_self, by rw [hconfig, hkey], by
        rw [hentry]
        exact hpublishes.published⟩
  · intro t ht x hx
    rcases List.mem_cons.mp ht with rfl | ht
    · rcases hpublishes.pins x hx with hx | rfl
      · exact hold x (h.pinned s List.mem_cons_self x hx)
      · exact hnew
    · exact hold x (h.pinned t (List.mem_cons_of_mem _ ht) x hx)
  · intro x hx
    show x.id < w'.nextEntry
    rw [show w'.nextEntry = w.nextEntry + 1 from hpublishes.nextEntry]
    have hx : x ∈ w.allocated ++ [entry] := hallocated ▸ hx
    rcases List.mem_append.mp hx with hx | hx
    · exact Nat.lt_succ_of_lt (h.named x hx)
    · rw [List.mem_singleton.mp hx, hid]
      exact Nat.lt_succ_self _
  · show (w'.allocated.map CacheEntry.id).Nodup
    rw [hallocated, List.map_append, List.nodup_append]
    refine ⟨h.apart, List.nodup_singleton _, fun i hi j hj => ?_⟩
    obtain ⟨x, hx, rfl⟩ := List.mem_map.mp hi
    rw [List.mem_singleton.mp hj, hid]
    exact Nat.ne_of_lt (h.named x hx)
  · rw [filterMap_candidatePermit_cons, List.append_assoc]
    exact hheld.owned
  · exact hheld.distinct
  · exact hheld.issued

theorem Tracked.effect {w w' : World κ β} {s s' : Stream κ β} {rest : List (Stream κ β)}
    (h : Tracked ⟨w, s :: rest⟩) (heffect : Effect ⟨w, s⟩ ⟨w', s'⟩) (hhonest : Honest s') :
    Tracked ⟨w', s' :: rest⟩ := by
  rcases heffect with hquiet | ⟨entry, hpublishes⟩
  · exact h.quiet hquiet hhonest
  · exact h.publishes hpublishes hhonest

-- ---------------------------------------------------------------------------
-- Destroying what nobody owns
-- ---------------------------------------------------------------------------

theorem owns_of_resident {sys : System κ β} {kv : κ × MapEntry β}
    (h : kv ∈ sys.world.cache.entries) : sys.owns kv.2.entry = true := by
  unfold System.owns
  rw [Bool.or_eq_true]
  exact Or.inl (List.any_eq_true.mpr ⟨kv, h, beq_self_eq_true _⟩)

theorem owns_of_pinned {sys : System κ β} {s : Stream κ β} {x : CacheEntry β}
    (hs : s ∈ sys.streams) (hx : x ∈ s.pins) : sys.owns x = true := by
  unfold System.owns
  rw [Bool.or_eq_true]
  exact Or.inr (List.any_eq_true.mpr
    ⟨s, hs, List.any_eq_true.mpr ⟨x, hx, beq_self_eq_true _⟩⟩)

/-- Giving back the permits of a part of the entries leaves those of the rest. -/
theorem permits_of_filter (keep : CacheEntry β → Bool) {candidates live : List Permit}
    {allocated : List (CacheEntry β)} (h : (candidates ++ permitsOf allocated).Perm live) :
    (candidates ++ permitsOf (allocated.filter keep)).Perm
      (live.diff (permitsOf (allocated.filter fun x => !keep x))) := by
  have hsplit : ((candidates ++ permitsOf (allocated.filter keep)) ++
      permitsOf (allocated.filter fun x => !keep x)).Perm live := by
    refine List.Perm.trans ?_ h
    rw [List.append_assoc]
    refine List.Perm.append_left _ ?_
    show (List.filterMap _ _ ++ List.filterMap _ _).Perm (List.filterMap _ _)
    rw [← List.filterMap_append]
    exact (List.filter_append_perm keep allocated).filterMap _
  rw [← Multiset.coe_eq_coe] at hsplit ⊢
  rw [← Multiset.coe_sub, ← hsplit,
    ← Multiset.coe_add (candidates ++ permitsOf (allocated.filter keep)),
    Multiset.add_sub_cancel_right]

theorem sweep_shared {sys : System κ β} (h : Tracked sys) : Shared sys.sweep where
  honest := h.honest
  resident := fun kv hkv =>
    List.mem_filter.mpr ⟨h.resident kv hkv, owns_of_resident hkv⟩
  source := h.source
  pinned := fun s hs x hx =>
    List.mem_filter.mpr ⟨h.pinned s hs x hx, owns_of_pinned hs hx⟩
  named := fun x hx => h.named x (List.mem_filter.mp hx).1
  apart := h.apart.sublist (List.filter_sublist.map _)
  owned := permits_of_filter sys.owns h.owned
  distinct := h.distinct.diff
  issued := fun p hp => h.issued p ((List.diff_sublist _ _).subset hp)
  alive := fun _ hx => (List.mem_filter.mp hx).2

/-- What the permits' owners are: the cache or a stream holds the very entry. -/
theorem Shared.owner {sys : System κ β} (h : Shared sys) {x : CacheEntry β}
    (hx : x ∈ sys.world.allocated) :
    (∃ kv ∈ sys.world.cache.entries, kv.2.entry = x) ∨ ∃ s ∈ sys.streams, x ∈ s.pins := by
  have hunique : ∀ y ∈ sys.world.allocated, y.id = x.id → y = x := fun y hy hid =>
    List.inj_on_of_nodup_map h.apart hy hx hid
  have halive := h.alive x hx
  unfold System.owns at halive
  rw [Bool.or_eq_true, List.any_eq_true, List.any_eq_true] at halive
  rcases halive with ⟨kv, hkv, hid⟩ | ⟨s, hs, hid⟩
  · exact Or.inl ⟨kv, hkv, hunique _ (h.resident kv hkv) (beq_iff_eq.mp hid)⟩
  · obtain ⟨y, hy, hid⟩ := List.any_eq_true.mp hid
    obtain rfl := hunique y (h.pinned s hs y hy) (beq_iff_eq.mp hid)
    exact Or.inr ⟨s, hs, hy⟩

theorem close_tracked {sys : System κ β} (h : Tracked sys) :
    Tracked ⟨{ sys.world with cache := sys.world.cache.close }, sys.streams⟩ where
  honest := h.honest
  resident := fun _ hkv => nomatch hkv
  source := fun _ hkv => nomatch hkv
  pinned := h.pinned
  named := h.named
  apart := h.apart
  owned := h.owned
  distinct := h.distinct
  issued := h.issued

theorem new_empty {maxEntries maxBytes maxEntryBytes : UInt64} {cache : ResultCache κ β}
    (h : ResultCache.new maxEntries maxBytes maxEntryBytes = some cache) : cache.entries = [] := by
  unfold ResultCache.new at h
  split at h
  · cases h
  split at h
  · cases h
  · obtain rfl := Option.some.inj h
    rfl

-- ---------------------------------------------------------------------------
-- Steps
-- ---------------------------------------------------------------------------

variable [DecidableEq κ] (rowCount : β → UInt64)

namespace System

/-- One stream makes one call. -/
def callStream (sys : System κ β) (index : Nat) (call : Call) : System κ β :=
  match sys.streams[index]? with
  | none => sys
  | some s =>
    let scene := call.apply rowCount ⟨sys.world, s⟩
    sweep ⟨scene.world, sys.streams.set index scene.stream⟩

def step (sys : System κ β) : Event κ β → System κ β
  | .open config script now =>
    { sys with streams := sys.streams ++ [Stream.open config script now sys.world.cache] }
  | .call index call => sys.callStream rowCount index call
  | .closeCache => sweep ⟨{ sys.world with cache := sys.world.cache.close }, sys.streams⟩

end System

/-- A new cache and no stream. -/
def cacheMachine (cache : ResultCache κ β) : Machine (System κ β) (Event κ β) where
  start := ⟨⟨cache, [], [], 0, 0⟩, []⟩
  step := System.step rowCount

theorem open_pins (config : StreamConfig κ) (script : Script β) (now : UInt64)
    (cache : ResultCache κ β) {x : CacheEntry β}
    (h : x ∈ (Stream.open config script now cache).pins) :
    ∃ kv ∈ cache.entries, kv.1 = config.key ∧ kv.2.entry = x := by
  unfold Stream.open at h
  dsimp only at h
  split at h
  · rename_i entry age hfound
    obtain rfl : x = entry := by simpa [Stream.pins] using h
    exact lookup_resident (Or.inl hfound)
  · rename_i entry age hfound
    obtain rfl : x = entry := by simpa [Stream.pins] using h
    exact lookup_resident (Or.inr hfound)
  · simp [Stream.pins] at h

theorem open_candidatePermit (config : StreamConfig κ) (script : Script β) (now : UInt64)
    (cache : ResultCache κ β) :
    (Stream.open config script now cache).candidatePermit = none := by
  unfold Stream.open
  dsimp only
  split <;> rfl

theorem open_shared {sys : System κ β} (config : StreamConfig κ) (script : Script β)
    (now : UInt64) (h : Shared sys) :
    Shared (sys.step rowCount (.open config script now)) where
  honest := fun s hs => by
    rcases List.mem_append.mp hs with hs | hs
    · exact h.honest s hs
    · rw [List.mem_singleton.mp hs]
      exact open_honest config script now sys.world.cache
  resident := h.resident
  source := fun kv hkv => by
    obtain ⟨s, hs, hsource⟩ := h.source kv hkv
    exact ⟨s, List.mem_append_left _ hs, hsource⟩
  pinned := fun s hs x hx => by
    rcases List.mem_append.mp hs with hs | hs
    · exact h.pinned s hs x hx
    · rw [List.mem_singleton.mp hs] at hx
      obtain ⟨kv, hkv, -, rfl⟩ := open_pins config script now sys.world.cache hx
      exact h.resident kv hkv
  named := h.named
  apart := h.apart
  owned := by
    show (((sys.streams ++ [_]).filterMap _) ++ _).Perm _
    rw [List.filterMap_append]
    simp only [List.filterMap_cons, open_candidatePermit, List.filterMap_nil, List.append_nil]
    exact h.owned
  distinct := h.distinct
  issued := h.issued
  alive := fun x hx => by
    have halive := h.alive x hx
    unfold System.owns at halive ⊢
    simp only [System.step, List.any_append, Bool.or_eq_true] at halive ⊢
    tauto

theorem callStream_tracked {sys : System κ β} {index : Nat} {s : Stream κ β} (call : Call)
    (h : Tracked sys) (hs : sys.streams[index]? = some s) :
    Tracked ⟨(call.apply rowCount ⟨sys.world, s⟩).world,
      sys.streams.set index (call.apply rowCount ⟨sys.world, s⟩).stream⟩ := by
  obtain ⟨hlt, rfl⟩ := List.getElem?_eq_some_iff.mp hs
  have hbefore : Tracked ⟨sys.world, sys.streams[index] :: sys.streams.eraseIdx index⟩ :=
    h.perm (List.getElem_cons_eraseIdx_perm hlt).symm
  obtain ⟨heffect, hhonest⟩ := call_honest rowCount call
    (s := ⟨sys.world, sys.streams[index]⟩) (hbefore.honest _ List.mem_cons_self)
  exact (hbefore.effect heffect hhonest).perm (List.set_perm_cons_eraseIdx hlt _).symm

/-- Every step keeps the shared invariant. -/
theorem step_shared {sys : System κ β} (event : Event κ β) (h : Shared sys) :
    Shared (sys.step rowCount event) := by
  cases event with
  | «open» config script now => exact open_shared rowCount config script now h
  | call index call =>
    unfold System.step System.callStream
    dsimp only
    split
    · exact h
    · rename_i s hs
      exact sweep_shared (callStream_tracked rowCount call h.toTracked hs)
  | closeCache => exact sweep_shared (close_tracked h.toTracked)

theorem start_shared {cache : ResultCache κ β} (hempty : cache.entries = []) :
    Shared (cacheMachine rowCount cache).start where
  honest := fun _ hs => nomatch hs
  resident := fun kv hkv => by
    rw [show (cacheMachine rowCount cache).start.world.cache.entries = [] from hempty] at hkv
    cases hkv
  source := fun kv hkv => by
    rw [show (cacheMachine rowCount cache).start.world.cache.entries = [] from hempty] at hkv
    cases hkv
  pinned := fun _ hs => nomatch hs
  named := fun _ hx => nomatch hx
  apart := .nil
  owned := .nil
  distinct := .nil
  issued := fun _ hp => nomatch hp
  alive := fun _ hx => nomatch hx

/-- What one call does to the resident entries. -/
theorem callStream_entries {sys : System κ β} {index : Nat} {s : Stream κ β} (call : Call)
    (h : Shared sys) (hs : sys.streams[index]? = some s) :
    ∃ s', (sys.callStream rowCount index call).streams[index]? = some s' ∧
      (((sys.callStream rowCount index call).world.cache.entries = sys.world.cache.entries ∧
          s'.published = s.published) ∨
        (¬Stopped s ∧ s.published = none ∧ s'.published.isSome = true)) := by
  obtain ⟨hlt, hget⟩ := List.getElem?_eq_some_iff.mp hs
  have hhonest : Honest s := h.honest s (List.mem_of_getElem? hs)
  have hafter : sys.callStream rowCount index call =
      System.sweep ⟨(call.apply rowCount ⟨sys.world, s⟩).world,
        sys.streams.set index (call.apply rowCount ⟨sys.world, s⟩).stream⟩ := by
    unfold System.callStream
    rw [hs]
  rw [hafter]
  refine ⟨(call.apply rowCount ⟨sys.world, s⟩).stream, List.getElem?_set_self hlt, ?_⟩
  by_cases hstopped : Stopped s
  · have hquiet := call_of_stopped rowCount call (s := ⟨sys.world, s⟩) hstopped
    exact Or.inl ⟨hquiet.entries, hquiet.published⟩
  · rcases (call_honest rowCount call (s := ⟨sys.world, s⟩) hhonest).1 with
      hquiet | ⟨entry, hpublishes⟩
    · exact Or.inl ⟨hquiet.entries, hquiet.published⟩
    · refine Or.inr ⟨hstopped, hpublishes.before, ?_⟩
      rw [hpublishes.published]
      rfl

theorem open_config (config : StreamConfig κ) (script : Script β) (now : UInt64)
    (cache : ResultCache κ β) : (Stream.open config script now cache).config = config := by
  unfold Stream.open
  dsimp only
  split <;> rfl

/-- A call leaves the configurations of the streams alone. -/
theorem callStream_configs {sys : System κ β} (index : Nat) (call : Call) (h : Tracked sys) :
    (sys.callStream rowCount index call).streams.map Stream.config =
      sys.streams.map Stream.config := by
  unfold System.callStream
  split
  · rfl
  · rename_i s hs
    have hhonest : Honest s := h.honest s (List.mem_of_getElem? hs)
    have hconfig : (call.apply rowCount ⟨sys.world, s⟩).stream.config = s.config := by
      rcases (call_honest rowCount call (s := ⟨sys.world, s⟩) hhonest).1 with
        hquiet | ⟨entry, hpublishes⟩
      · exact hquiet.config
      · exact hpublishes.config
    show (sys.streams.set index _).map Stream.config = _
    obtain ⟨hlt, rfl⟩ := List.getElem?_eq_some_iff.mp hs
    rw [List.map_set, hconfig, ← List.getElem_map Stream.config, List.set_getElem_self]
    simpa using hlt

/-- Every entry that a stream may serve was published under the stream's key. -/
def KeySourced (streams : List (Stream κ β)) : Prop :=
  ∀ s ∈ streams, ∀ x ∈ s.pins, ∃ t ∈ streams, t.config.key = s.config.key ∧ t.published = some x

omit [DecidableEq κ] in
theorem KeySourced.perm {streams others : List (Stream κ β)} (h : KeySourced streams)
    (hperm : streams.Perm others) : KeySourced others := by
  intro s hs x hx
  obtain ⟨t, ht, hsource⟩ := h s (hperm.mem_iff.mpr hs) x hx
  exact ⟨t, hperm.mem_iff.mp ht, hsource⟩

omit [DecidableEq κ] in
theorem KeySourced.effect {w w' : World κ β} {s s' : Stream κ β} {rest : List (Stream κ β)}
    (h : KeySourced (s :: rest)) (heffect : Effect ⟨w, s⟩ ⟨w', s'⟩) : KeySourced (s' :: rest) := by
  have hconfig : s'.config = s.config := by
    rcases heffect with hquiet | ⟨entry, hpublishes⟩
    · exact hquiet.config
    · exact hpublishes.config
  -- who published an entry before the call has published it still
  have hkept (key : κ) (x : CacheEntry β)
      (hsource : ∃ t ∈ s :: rest, t.config.key = key ∧ t.published = some x) :
      ∃ t ∈ s' :: rest, t.config.key = key ∧ t.published = some x := by
    obtain ⟨t, ht, hkey, hpublished⟩ := hsource
    rcases List.mem_cons.mp ht with rfl | ht
    · refine ⟨s', List.mem_cons_self, by rw [hconfig, hkey], ?_⟩
      rcases heffect with hquiet | ⟨entry, hpublishes⟩
      · exact hquiet.published.trans hpublished
      · have hbefore : t.published = none := hpublishes.before
        rw [hbefore] at hpublished
        cases hpublished
    · exact ⟨t, List.mem_cons_of_mem _ ht, hkey, hpublished⟩
  intro u hu x hx
  rcases List.mem_cons.mp hu with rfl | hu
  · rw [hconfig]
    rcases heffect with hquiet | ⟨entry, hpublishes⟩
    · exact hkept _ x (h s List.mem_cons_self x (hquiet.pins x hx))
    · rcases hpublishes.pins x hx with hx | rfl
      · exact hkept _ x (h s List.mem_cons_self x hx)
      · exact ⟨u, List.mem_cons_self, by rw [hconfig], hpublishes.published⟩
  · exact hkept _ x (h u (List.mem_cons_of_mem _ hu) x hx)

theorem step_keySourced {sys : System κ β} (event : Event κ β) (h : Tracked sys)
    (hsourced : KeySourced sys.streams) : KeySourced (sys.step rowCount event).streams := by
  cases event with
  | «open» config script now =>
    intro s hs x hx
    rcases List.mem_append.mp hs with hs | hs
    · obtain ⟨t, ht, hsource⟩ := hsourced s hs x hx
      exact ⟨t, List.mem_append_left _ ht, hsource⟩
    · rw [List.mem_singleton.mp hs] at hx ⊢
      obtain ⟨kv, hkv, hkey, rfl⟩ := open_pins config script now sys.world.cache hx
      obtain ⟨t, ht, hsource, hpublished⟩ := h.source kv hkv
      rw [open_config]
      exact ⟨t, List.mem_append_left _ ht, hsource.trans hkey, hpublished⟩
  | call index call =>
    unfold System.step System.callStream
    dsimp only
    split
    · exact hsourced
    · rename_i s hs
      obtain ⟨hlt, rfl⟩ := List.getElem?_eq_some_iff.mp hs
      have hbefore := hsourced.perm (List.getElem_cons_eraseIdx_perm hlt).symm
      have heffect := (call_honest rowCount call (s := ⟨sys.world, sys.streams[index]⟩)
        (h.honest _ (List.getElem_mem hlt))).1
      exact (hbefore.effect heffect).perm (List.set_perm_cons_eraseIdx hlt _).symm
  | closeCache => exact hsourced

/-- Only complete scans are cached. Every resident entry is the whole batch
sequence of a stream that saw a clean end; a stream that has seen none, or
could not retain a batch, has published nothing; a call of a stream that does
not publish leaves every resident entry as it was, and a stopped stream never
publishes. Every live permit belongs to one candidate or to one entry the cache
or a stream still owns, and a stopped stream holds none. -/
theorem only_complete_scans_cached {maxEntries maxBytes maxEntryBytes : UInt64}
    {cache : ResultCache κ β} {sys : System κ β}
    (hnew : ResultCache.new maxEntries maxBytes maxEntryBytes = some cache)
    (h : (cacheMachine rowCount cache).Reachable sys) :
    (∀ kv ∈ sys.world.cache.entries, ∃ s ∈ sys.streams, s.config.key = kv.1 ∧
      s.published = some kv.2.entry ∧ s.sawEnd = true ∧ s.origin.ending = .exhausted ∧
      kv.2.entry.batches = s.origin.batches) ∧
    (∀ s ∈ sys.streams, s.sawEnd = false ∨ s.abandoned = true → s.published = none) ∧
    (∀ index s call, sys.streams[index]? = some s →
      ∃ s', (sys.step rowCount (.call index call)).streams[index]? = some s' ∧
        (((sys.step rowCount (.call index call)).world.cache.entries = sys.world.cache.entries ∧
            s'.published = s.published) ∨
          (¬Stopped s ∧ s.published = none ∧ s'.published.isSome = true))) ∧
    (sys.streams.filterMap Stream.candidatePermit ++ permitsOf sys.world.allocated).Perm
      sys.world.live ∧
    sys.world.live.Nodup ∧
    (∀ x ∈ sys.world.allocated, (∃ kv ∈ sys.world.cache.entries, kv.2.entry = x) ∨
      ∃ s ∈ sys.streams, x ∈ s.pins) ∧
    (∀ s ∈ sys.streams, Stopped s → s.candidatePermit = none) := by
  have hshared : Shared sys :=
    h.invariant (start_shared rowCount (new_empty hnew)) fun _ e hs => step_shared rowCount e hs
  refine ⟨fun kv hkv => ?_, fun s hs hincomplete => ?_, fun index s call hs => ?_,
    hshared.owned, hshared.distinct, fun x hx => hshared.owner hx, fun s hs hstopped => ?_⟩
  · obtain ⟨s, hs, hkey, hpublished⟩ := hshared.source kv hkv
    obtain ⟨hend, -, hbatches, hending⟩ := (hshared.honest s hs).sound _ hpublished
    exact ⟨s, hs, hkey, hpublished, hend, hending, hbatches⟩
  · by_contra hne
    obtain ⟨entry, hentry⟩ := Option.ne_none_iff_exists'.mp hne
    obtain ⟨hend, hkept, -, -⟩ := (hshared.honest s hs).sound _ hentry
    rcases hincomplete with hi | hi
    · rw [hend] at hi
      cases hi
    · rw [hkept] at hi
      cases hi
  · exact callStream_entries rowCount call hshared hs
  · rcases (hshared.honest s hs).state with ⟨hlive, -⟩ | ⟨-, hpermit⟩
    · exact absurd hstopped hlive.not_stopped
    · exact hpermit

-- ---------------------------------------------------------------------------
-- A refresh that is cancelled while its result is replayed
-- ---------------------------------------------------------------------------

def smallCache : ResultCache Nat Nat := ⟨4, 1000, 1000, [], 0, 0, false⟩

/-- Serve stale for 1000 ms after 10 fresh ones, under admission. -/
def admittedConfig : StreamConfig Nat := ⟨1, ⟨.staleIfError, 10, 1000⟩, 100, true⟩

/-- A first scan fills the cache; a second one refreshes the entry behind the
barrier and is cancelled after its first batch. -/
def cancelledReplay : List (Event Nat Nat) :=
  [.open admittedConfig ⟨[10], .exhausted⟩ 0, .call 0 (.next tenBytes), .call 0 (.next tenBytes),
    .open admittedConfig ⟨[1, 2], .exhausted⟩ 500, .call 1 (.next tenBytes), .call 1 .cancel]

theorem only_complete_scans_cached_after_cancelled_replay :
    let sys := (cacheMachine (fun _ => 1) smallCache).run cancelledReplay
    (sys.world.cache.entries.map fun kv => (kv.1, kv.2.entry.batches)) = [(1, [1, 2])] ∧
      sys.world.live = [1] ∧
      ∀ kv ∈ sys.world.cache.entries, ∃ s ∈ sys.streams, s.config.key = kv.1 ∧
        kv.2.entry.batches = s.origin.batches := by
  refine ⟨by decide, by decide, fun kv hkv => ?_⟩
  have hnew : ResultCache.new 4 1000 1000 = some smallCache := rfl
  obtain ⟨hresident, -⟩ := only_complete_scans_cached (fun _ => 1) hnew
    ((Machine.reachable_iff_run _ _).mpr ⟨cancelledReplay, rfl⟩)
  obtain ⟨s, hs, hkey, -, -, -, hbatches⟩ := hresident kv hkv
  exact ⟨s, hs, hkey, hbatches⟩

/-- The second stream was cancelled after one of its two batches, and has
replaced the entry of its key all the same. -/
theorem cancelled_stream_has_published :
    let sys := (cacheMachine (fun _ => 1) smallCache).run cancelledReplay
    ∃ s, sys.streams[1]? = some s ∧ s.cancelled = true ∧ s.delivered = [1] ∧
      s.published.isSome = true ∧
      (sys.world.cache.entries.map fun kv => (kv.1, kv.2.entry.batches)) =
        [(s.config.key, [1, 2])] := by
  refine ⟨_, rfl, ?_⟩
  decide

end Cuac.Cache

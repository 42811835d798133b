import Mathlib.Logic.Function.Basic
import Cuac.Credential.CrashConsistency

/-!
# The iterator of a mutation

`StorePersistent` and `DropPersistent` keep the iterator that `entries.find` returned
while they settle an earlier cleanup intent. Settling calls `PublishIndex` with a copy
of the entries, which swaps the copy with the member and destroys its parameter on
return. Here the maps are objects: an object holds the elements of a map, a swap
exchanges the elements that two variables hold, and an iterator refers to an element
of one object. Reading through an iterator whose object is destroyed is the end of
what the language defines.

`core.entries` is the value of the member; `Valid` says that the member holds it.

Main results:

* `Valid.step` — the member always holds a live object.
* `found_read_live` — in every reachable state, a call that finds no cleanup intent, or
  does not settle the one it finds, reads the entry of its name from a live element.
-/

namespace Cuac.Credential.Iterators

open Cuac.Lib Throwing

-- ---------------------------------------------------------------------------
-- Objects
-- ---------------------------------------------------------------------------

/-- The elements of the live maps, and the two variables that hold one: the member
`entries` and the parameter `next_entries`. -/
structure Objects where
  fresh : Nat
  elements : Nat → Option PersistentEntries
  member : Nat
  parameter : Nat

def Objects.initial : Objects :=
  ⟨1, Function.update (fun _ => none) 0 (some ∅), 0, 0⟩

namespace Objects

variable (o : Objects)

/-- A copy of the member. -/
def copied : Objects :=
  { o with
    fresh := o.fresh + 1
    elements := Function.update o.elements o.fresh (o.elements o.member) }

/-- An element is inserted or erased in place. -/
def edited (object : Nat) (edit : PersistentEntries → PersistentEntries) : Objects :=
  { o with elements := Function.update o.elements object ((o.elements object).map edit) }

/-- `entries.swap(next_entries)` -/
def swapped : Objects :=
  { o with member := o.parameter, parameter := o.member }

def destroyed (object : Nat) : Objects :=
  { o with elements := Function.update o.elements object none }

/-- `entries = std::move(loaded_entries)` -/
def loaded (entries : PersistentEntries) : Objects :=
  { o with
    fresh := o.fresh + 1
    elements := Function.update (Function.update o.elements o.member none) o.fresh (some entries)
    member := o.fresh }

end Objects

structure Memory where
  store : Store
  objects : Objects
  /-- What the current call has read through its iterator. -/
  reads : List PersistentMetadata

/-- How a call ends early. -/
inductive Ending
  | interrupted (interruption : Interruption)
  | dangling
  deriving DecidableEq, Repr

abbrev HeapProgram := Throwing Memory Ending

/-- What is done to the files and to the values of the members. -/
def onStore {α : Type} (m : Program α) : HeapProgram α := fun s =>
  match m s.store with
  | (.ok a, store) => (.ok a, { s with store := store })
  | (.error e, store) => (.error (.interrupted e), { s with store := store })

def Memory.withObjects (s : Memory) (objects : Objects) : Memory := { s with objects := objects }

structure Iterator where
  object : Nat
  key : Bytes

/-- `found->second` -/
def deref (found : Iterator) : HeapProgram PersistentMetadata := fun s =>
  match (s.objects.elements found.object).bind (·[found.key]?) with
  | none => (.error .dangling, s)
  | some entry => (.ok entry, { s with reads := s.reads ++ [entry] })

-- ---------------------------------------------------------------------------
-- Steps of a mutation
-- ---------------------------------------------------------------------------

/-- A local copy of the member. -/
def copyEntries : HeapProgram Nat := fun s =>
  (.ok s.objects.fresh, s.withObjects s.objects.copied)

/-- The pending index is written and selected. -/
def selectIndex (bytes : Bytes) : Program Unit := do
  removeStalePending
  attempt fun s => s.withPending (some [])
  touch
  attemptTorn (fun s => s.withPending (some bytes))
    fun written s => s.withPending (some (bytes.take written))
  touch
  renamePending

/-- What the two swaps after the rename leave. -/
def Memory.swapped (s : Memory) (nextEntries : PersistentEntries) (nextCleanup : Bytes) : Memory :=
  { s with
    store := s.store.withCore { s.store.core with entries := nextEntries, cleanupId := nextCleanup }
    objects := s.objects.swapped }

def publishBody (nextEntries : PersistentEntries) (nextCleanup : Bytes) : HeapProgram Unit :=
  match encodeIndex nextEntries nextCleanup with
  | none => throw (.interrupted .storageFailure)
  | some bytes => do
    onStore (selectIndex bytes)
    modify fun s => s.swapped nextEntries nextCleanup
    onStore touch

/-- `PublishIndex`, whose parameter takes over the elements of `argument` and is
destroyed on every way out. -/
def publishIndex (argument : Nat) (nextCleanup : Bytes) : HeapProgram Unit := fun s =>
  match publishBody ((s.objects.elements argument).getD ∅) nextCleanup
      (s.withObjects { s.objects with parameter := argument }) with
  | (result, s) => (result, s.withObjects (s.objects.destroyed s.objects.parameter))

def cleanPriorIntent : HeapProgram Unit := do
  let s ← get
  if s.store.core.cleanupId.isEmpty then pure ()
  else do
    onStore (removeRecordIfPresent s.store.core.cleanupId)
    let copy ← copyEntries
    publishIndex copy []

def settleCommittedCleanupNoThrow : HeapProgram Unit := fun s =>
  match cleanPriorIntent s with
  | (.error (.interrupted .stopped), s) => (.error (.interrupted .stopped), s)
  | (_, s) => (.ok (), s)

/-- `entries` is loaded once. -/
def ensureOpen : HeapProgram Unit := do
  let before ← get
  onStore Credential.ensureOpen
  if before.store.core.opened then pure ()
  else modify fun s => s.withObjects (s.objects.loaded s.store.core.entries)

/-- What the environment will do. -/
def Memory.outcomes (s : Memory) : List Outcome := s.store.outcomes

/-- A field of the entry that is replaced, read through the iterator. -/
def replacedField {α : Type} (found : Option Iterator) (field : PersistentMetadata → α)
    (otherwise : α) : HeapProgram α :=
  match found with
  | none => pure otherwise
  | some found => do
    let entry ← deref found
    pure (field entry)

/-- The second half of `StorePersistent`. -/
def publishSecret (request : StoreRequest) (key : Bytes) (found : Option Iterator) :
    HeapProgram Unit := do
  cleanPriorIntent
  let authority ← replacedField found (·.authority) request.new.secret.authority
  let superseded ← replacedField found (·.recordId) []
  let metadata : PersistentMetadata :=
    ⟨request.new.secret.name, request.new.secret.source, authority, request.new.secret.revision,
      hexId request.generated⟩
  let copy ← copyEntries
  publishIndex copy metadata.recordId
  onStore (writeRecord metadata request.new.secret.payload)
  let next ← copyEntries
  modify fun s => s.withObjects (s.objects.edited next (·.insert key metadata))
  publishIndex next superseded
  settleCommittedCleanupNoThrow

/-- The iterator of `entries.find(key)`. -/
def Memory.find (s : Memory) (key : Bytes) : Option Iterator :=
  if s.store.core.entries.contains key then some ⟨s.objects.member, key⟩ else none

def storePersistent (request : StoreRequest) : HeapProgram Unit := do
  throwWhen (!request.autoCommit) (.interrupted .autocommitRequired)
  throwWhen (!request.isCuacSecret) (.interrupted .storageFailure)
  ensureOpen
  match normalizedName request.new.secret.name with
  | none => throw (.interrupted .storageFailure)
  | some key => do
    let s ← get
    match s.find key with
    | some found =>
      match request.onConflict with
      | .errorOnConflict => throw (.interrupted .conflict)
      | .ignoreOnConflict => do
        let _ ← deref found
        pure ()
      | .replaceOnConflict => publishSecret request key (some found)
      | .alterOnConflict => throw (.interrupted .storageFailure)
    | none => do
      throwWhen (request.onConflict == .alterOnConflict) (.interrupted .storageFailure)
      throwWhen (maxLiveRecords ≤ s.store.core.entries.size) (.interrupted .storageFailure)
      publishSecret request key none

/-- The second half of `DropPersistent`. -/
def publishDrop (key : Bytes) (found : Iterator) : HeapProgram Unit := do
  cleanPriorIntent
  let entry ← deref found
  let next ← copyEntries
  modify fun s => s.withObjects (s.objects.edited next (·.erase key))
  publishIndex next entry.recordId
  settleCommittedCleanupNoThrow

def dropPersistent (request : DropRequest) : HeapProgram Unit := do
  throwWhen (!request.autoCommit) (.interrupted .autocommitRequired)
  ensureOpen
  match normalizedName request.name with
  | none => throw (.interrupted .storageFailure)
  | some key => do
    let s ← get
    match s.find key with
    | none => throwWhen request.throwIfMissing (.interrupted .missing)
    | some found => publishDrop key found

-- ---------------------------------------------------------------------------
-- Runs
-- ---------------------------------------------------------------------------

/-- One call, with what the environment will do and with nothing read yet. -/
def perform (s : Memory) (outcomes : List Outcome) (m : HeapProgram Unit) :
    Except Ending Unit × Memory :=
  m { s with store := { s.store with outcomes := outcomes }, reads := [] }

def call (s : Memory) : Event → Except Ending Unit × Memory
  | .store request outcomes => perform s outcomes (storePersistent request)
  | .drop request outcomes => perform s outcomes (dropPersistent request)
  | .read outcomes => perform s outcomes ensureOpen
  | .restart => (.error (.interrupted .stopped), { s with reads := [] })

/-- A new process. -/
def Memory.restarted (s : Memory) : Memory :=
  ⟨s.store.restarted, .initial, []⟩

/-- A process that is stopped, or that reads what is destroyed, is followed by another. -/
def step (s : Memory) (event : Event) : Memory :=
  match call s event with
  | (.error (.interrupted .stopped), s) => s.restarted
  | (.error .dangling, s) => s.restarted
  | (_, s) => s

def machine : Machine Memory Event where
  start := ⟨storage.start, .initial, []⟩
  step := step

-- ---------------------------------------------------------------------------
-- What the member holds
-- ---------------------------------------------------------------------------

/-- The member holds its value in a live object. -/
structure Valid (s : Memory) : Prop where
  member : s.objects.elements s.objects.member = some s.store.core.entries
  allocated : s.objects.member < s.objects.fresh
  beyond : ∀ object, s.objects.fresh ≤ object → s.objects.elements object = none

section Steps

variable {α : Type} {s : Memory}

theorem yields_onStore {m : Program α} {Q : α → Memory → Prop} {E : Ending → Memory → Prop} :
    Yields (onStore m) s Q E ↔
      Yields m s.store (fun a store => Q a { s with store := store })
        (fun e store => E (.interrupted e) { s with store := store }) := by
  unfold Yields onStore
  rcases m s.store with ⟨result, store⟩
  cases result <;> rfl

/-- What a step leaves: the member is valid, and nothing more was read. -/
structure Kept (s s' : Memory) : Prop where
  valid : Valid s'
  reads : s'.reads = s.reads

theorem Kept.refl (h : Valid s) : Kept s s :=
  ⟨h, rfl⟩

theorem Kept.trans {s' s'' : Memory} (h : Kept s s') (h' : Kept s' s'') : Kept s s'' :=
  ⟨h'.valid, h'.reads.trans h.reads⟩

/-- A step of the files leaves the entries. -/
theorem yields_files {m : Program α} (hvalid : Valid s)
    (hm : Yields m s.store (fun _ store => store.core.entries = s.store.core.entries)
      (fun _ store => store.core.entries = s.store.core.entries)) :
    Yields (onStore m) s (fun _ s' => Kept s s' ∧ s'.objects = s.objects)
      (fun e s' => e ≠ .dangling ∧ Kept s s' ∧ s'.objects = s.objects) := by
  rw [yields_onStore]
  have hkept (store : Store) (h : store.core.entries = s.store.core.entries) :
      Kept s { s with store := store } ∧ s.objects = s.objects := by
    refine ⟨⟨⟨?_, hvalid.allocated, hvalid.beyond⟩, rfl⟩, rfl⟩
    dsimp only
    rw [h]
    exact hvalid.member
  refine hm.mono (fun _ store h => hkept store h) fun e store h => ⟨?_, hkept store h⟩
  intro heq
  cases heq

theorem yields_selectIndex (bytes : Bytes) (store : Store) :
    Yields (selectIndex bytes) store
      (fun _ store' => store'.core.entries = store.core.entries)
      (fun _ store' => store'.core.entries = store.core.entries) := by
  unfold selectIndex
  refine Yields.bind (R := fun _ s' => s'.core = store.core) ?_ fun _ s₁ h₁ => ?_
  · unfold removeStalePending
    refine Yields.bind (yields_touch fun _ _ hs' => by rw [hs']) fun _ opened hopened => ?_
    rw [yields_bind, yields_get]
    have hentries : opened.core.entries = store.core.entries := by rw [hopened.1]
    split
    · exact yields_attempt (fun _ => hopened.1) hentries fun _ _ => hentries
    · exact hopened.1
  have hentries₁ : s₁.core.entries = store.core.entries := by rw [h₁]
  refine Yields.bind (R := fun _ s' => s'.core.entries = store.core.entries)
    (yields_attempt (fun _ => hentries₁) hentries₁ fun _ _ => hentries₁) fun _ s₂ h₂ => ?_
  refine Yields.bind (yields_touch fun _ _ hs' => by rw [hs', h₂]) fun _ s₃ h₃ => ?_
  have hentries₃ : s₃.core.entries = store.core.entries := by rw [h₃.1, h₂]
  refine Yields.bind (R := fun _ s' => s'.core.entries = store.core.entries)
    (yields_attemptTorn (fun _ => hentries₃) hentries₃ fun _ _ _ => hentries₃) fun _ s₄ h₄ => ?_
  refine Yields.bind (yields_touch fun _ _ hs' => by rw [hs', h₄]) fun _ s₅ h₅ => ?_
  have hentries₅ : s₅.core.entries = store.core.entries := by rw [h₅.1, h₄]
  exact yields_attempt (fun _ => hentries₅) hentries₅ fun _ _ => hentries₅

/-- A local map, apart from the member. -/
structure Local (s : Memory) (object : Nat) (entries : PersistentEntries) : Prop where
  elements : s.objects.elements object = some entries
  apart : object ≠ s.objects.member
  allocated : object < s.objects.fresh

/-- A local map may be destroyed. -/
theorem Valid.destroyed (h : Valid s) {object : Nat} (hne : object ≠ s.objects.member) :
    Valid (s.withObjects (s.objects.destroyed object)) := by
  refine ⟨?_, h.allocated, fun other hother => ?_⟩
  · show Function.update s.objects.elements object none s.objects.member = _
    rw [Function.update_of_ne hne.symm]
    exact h.member
  · show Function.update s.objects.elements object none other = none
    rw [Function.update_apply, h.beyond other hother, ite_self]

theorem Valid.copied (h : Valid s) :
    Kept s (s.withObjects s.objects.copied) ∧
      Local (s.withObjects s.objects.copied) s.objects.fresh s.store.core.entries := by
  have hne : s.objects.member ≠ s.objects.fresh := Nat.ne_of_lt h.allocated
  refine ⟨⟨⟨?_, Nat.lt_succ_of_lt h.allocated, fun other hother => ?_⟩, rfl⟩, ?_, hne.symm,
    Nat.lt_succ_self _⟩
  · show Function.update s.objects.elements s.objects.fresh _ s.objects.member = _
    rw [Function.update_of_ne hne]
    exact h.member
  · show Function.update s.objects.elements s.objects.fresh _ other = none
    have hother' : s.objects.fresh + 1 ≤ other := hother
    rw [Function.update_of_ne (by omega), h.beyond other (by omega)]
  · show Function.update s.objects.elements s.objects.fresh _ s.objects.fresh = _
    rw [Function.update_self, h.member]

theorem Valid.edited (h : Valid s) {object : Nat} {entries : PersistentEntries}
    (hlocal : Local s object entries) (edit : PersistentEntries → PersistentEntries) :
    Kept s (s.withObjects (s.objects.edited object edit)) ∧
      Local (s.withObjects (s.objects.edited object edit)) object (edit entries) := by
  refine ⟨⟨⟨?_, h.allocated, fun other hother => ?_⟩, rfl⟩, ?_, hlocal.apart, hlocal.allocated⟩
  · show Function.update s.objects.elements object _ s.objects.member = _
    rw [Function.update_of_ne hlocal.apart.symm]
    exact h.member
  · have hne : other ≠ object := by
      have hbound := hlocal.allocated
      have hother' : s.objects.fresh ≤ other := hother
      omega
    show Function.update s.objects.elements object _ other = none
    rw [Function.update_of_ne hne, h.beyond other hother]
  · show Function.update s.objects.elements object _ object = _
    rw [Function.update_self, hlocal.elements, Option.map_some]

theorem yields_copyEntries (h : Valid s) :
    Yields copyEntries s
      (fun copy s' => Kept s s' ∧ Local s' copy s.store.core.entries ∧
        s'.objects.member = s.objects.member)
      (fun _ _ => False) :=
  ⟨h.copied.1, h.copied.2, rfl⟩

/-- The parameter is destroyed with the elements that it holds at the end: its own, or
those that the member held before. -/
theorem yields_publishIndex {argument : Nat} {next : PersistentEntries} (h : Valid s)
    (hlocal : Local s argument next) (nextCleanup : Bytes) :
    Yields (publishIndex argument nextCleanup) s
      (fun _ s' => Kept s s' ∧ s'.objects.elements s.objects.member = none)
      (fun e s' => e ≠ .dangling ∧ Kept s s') := by
  have hends {Q : Unit → Memory → Prop} {E : Ending → Memory → Prop}
      (hbody : Yields (publishBody next nextCleanup)
        (s.withObjects { s.objects with parameter := argument })
        (fun u s' => Q u (s'.withObjects (s'.objects.destroyed s'.objects.parameter)))
        (fun e s' => E e (s'.withObjects (s'.objects.destroyed s'.objects.parameter)))) :
      Yields (publishIndex argument nextCleanup) s Q E := by
    unfold Yields publishIndex at *
    rw [hlocal.elements, Option.getD_some]
    rcases hrun : publishBody next nextCleanup
      (s.withObjects { s.objects with parameter := argument }) with ⟨result, s'⟩
    rw [hrun] at hbody
    cases result with
    | ok u => exact hbody
    | error e => exact hbody
  have hparameter : Valid (s.withObjects { s.objects with parameter := argument }) :=
    ⟨h.member, h.allocated, h.beyond⟩
  -- before the swap the parameter holds the argument
  have hbefore {s' : Memory} (hkept : Kept s s')
      (hobjects : s'.objects = { s.objects with parameter := argument }) :
      Kept s (s'.withObjects (s'.objects.destroyed s'.objects.parameter)) := by
    refine ⟨hkept.valid.destroyed ?_, hkept.reads⟩
    rw [hobjects]
    exact hlocal.apart
  -- after it, what the member held
  have hafter {s' : Memory} (hreads : s'.reads = s.reads) (hentries : s'.store.core.entries = next)
      (hobjects : s'.objects = Objects.swapped { s.objects with parameter := argument }) :
      Kept s (s'.withObjects (s'.objects.destroyed s'.objects.parameter)) ∧
        (s'.withObjects (s'.objects.destroyed s'.objects.parameter)).objects.elements
          s.objects.member = none := by
    have hvalid : Valid s' := by
      refine ⟨?_, ?_, ?_⟩
      · rw [hobjects, hentries]
        exact hlocal.elements
      · rw [hobjects]
        exact hlocal.allocated
      · rw [hobjects]
        exact h.beyond
    refine ⟨⟨hvalid.destroyed ?_, hreads⟩, ?_⟩
    · rw [hobjects]
      exact hlocal.apart.symm
    · rw [hobjects]
      exact Function.update_self _ _ _
  refine hends ?_
  unfold publishBody
  split
  · refine ⟨fun heq => ?_, hbefore ⟨hparameter, rfl⟩ rfl⟩
    cases heq
  · rename_i bytes hbytes
    refine Yields.bind ((yields_files hparameter (yields_selectIndex bytes _)).mono
      (fun _ s' hs' => hs') fun e s' hs' => ⟨hs'.1, hbefore ⟨hs'.2.1.valid, hs'.2.1.reads⟩ hs'.2.2⟩)
      fun _ s₁ h₁ => ?_
    rw [yields_bind, yields_modify, yields_onStore]
    have hswapped (store : Store) (hcore : store.core = (s₁.swapped next nextCleanup).store.core) :
        Kept s ((Memory.mk store (s₁.swapped next nextCleanup).objects s₁.reads).withObjects
            ((s₁.swapped next nextCleanup).objects.destroyed
              (s₁.swapped next nextCleanup).objects.parameter)) ∧
          ((s₁.swapped next nextCleanup).objects.destroyed
            (s₁.swapped next nextCleanup).objects.parameter).elements s.objects.member = none := by
      refine @hafter (Memory.mk store (s₁.swapped next nextCleanup).objects s₁.reads)
        h₁.1.reads ?_ ?_
      · dsimp only
        rw [hcore]
        rfl
      · show s₁.objects.swapped = _
        rw [h₁.2]
        rfl
    refine (yields_touch (X := fun _ store => store.core = (s₁.swapped next nextCleanup).store.core)
      fun _ _ hs' => hs').mono (fun _ store hs' => hswapped store hs'.1) fun e store hs' => ?_
    refine ⟨fun heq => ?_, (hswapped store hs').1⟩
    cases heq

/-- Settling an intent destroys what the member held. -/
theorem yields_cleanPriorIntent (h : Valid s) :
    Yields cleanPriorIntent s
      (fun _ s' => Kept s s' ∧ (s.store.core.cleanupId = [] → s' = s) ∧
        (s.store.core.cleanupId ≠ [] → s'.objects.elements s.objects.member = none))
      (fun e s' => e ≠ .dangling ∧ Kept s s') := by
  unfold cleanPriorIntent
  rw [yields_bind, yields_get]
  split
  · rename_i hempty
    rw [List.isEmpty_iff] at hempty
    exact ⟨Kept.refl h, fun _ => rfl, fun hne => absurd hempty hne⟩
  · rename_i hfull
    rw [List.isEmpty_iff] at hfull
    have hremove : Yields (removeRecordIfPresent s.store.core.cleanupId) s.store
        (fun _ store => store.core.entries = s.store.core.entries)
        (fun _ store => store.core.entries = s.store.core.entries) := by
      refine (yields_removeRecordIfPresent s.store.core.cleanupId s.store).mono
        (fun _ store hs => ?_) fun _ store hs => ?_
      · rw [hs]
        rfl
      · rcases hs with hs | hs
        · rw [hs]
        · rw [hs]
          rfl
    refine Yields.bind ((yields_files h hremove).mono (fun _ _ hs' => hs')
      fun _ _ hs' => ⟨hs'.1, hs'.2.1⟩) fun _ s₁ h₁ => ?_
    refine Yields.bind ((yields_copyEntries h₁.1.valid).mono (fun _ _ hs' => hs')
      fun _ _ hs' => hs'.elim) fun copy s₂ h₂ => ?_
    obtain ⟨hkept, hlocal, hmember⟩ := h₂
    refine (yields_publishIndex hkept.valid hlocal []).mono (fun _ s' hs' => ?_) fun e s' hs' => ?_
    · refine ⟨(h₁.1.trans hkept).trans hs'.1, fun hempty => absurd hempty hfull, fun _ => ?_⟩
      rw [← h₁.2, ← hmember]
      exact hs'.2
    · exact ⟨hs'.1, (h₁.1.trans hkept).trans hs'.2⟩

theorem takes_onStore {m : Program α} {n : Nat} {Q : α → Store → Prop} {Q' : α → Memory → Prop}
    (h : Takes Store.outcomes m s.store n Q)
    (hQ : ∀ a store, Q a store → Q' a { s with store := store }) :
    Takes Memory.outcomes (onStore m) s n Q' := by
  unfold Takes
  rw [yields_onStore]
  exact Yields.mono h (fun a store hs => ⟨hs.1, hQ a store hs.2⟩) fun _ _ hs => hs

theorem takes_selectIndex (bytes : Bytes) (store : Store) :
    Takes Store.outcomes (selectIndex bytes) store
      ((if store.pending.isSome then 2 else 1) + 5) fun _ _ => True := by
  unfold selectIndex
  exact takes_selecting bytes store fun _ => takes_attempt fun _ => trivial

theorem takes_publishIndex (argument : Nat) (nextCleanup : Bytes) (s : Memory) :
    Takes Memory.outcomes (publishIndex argument nextCleanup) s
      ((if s.store.pending.isSome then 2 else 1) + 6) fun _ _ => True := by
  have hbody : Takes Memory.outcomes
      (publishBody ((s.objects.elements argument).getD ∅) nextCleanup)
      (s.withObjects { s.objects with parameter := argument })
      ((if s.store.pending.isSome then 2 else 1) + 6) fun _ _ => True := by
    unfold publishBody
    split
    · exact trivial
    · rename_i bytes hbytes
      refine Takes.bind (k := 1) (R := fun _ _ => True)
        (takes_onStore (takes_selectIndex bytes _) fun _ _ _ => trivial) fun _ selected _ => ?_
      refine Takes.bind (n := 0) (k := 1) (R := fun _ _ => True) ⟨rfl, trivial⟩ fun _ swapped _ => ?_
      exact takes_onStore takes_touch fun _ _ _ => trivial
  unfold Takes Yields publishIndex at *
  rcases hrun : publishBody ((s.objects.elements argument).getD ∅) nextCleanup
    (s.withObjects { s.objects with parameter := argument }) with ⟨result, s'⟩
  rw [hrun] at hbody
  cases result with
  | ok u => exact hbody
  | error e => exact hbody

theorem takes_cleanPriorIntent (hintent : s.store.core.cleanupId ≠ []) :
    Takes Memory.outcomes cleanPriorIntent s
      (cleaningOperations s.store s.store.core.cleanupId) fun _ _ => True := by
  unfold cleanPriorIntent
  rw [takes_get, if_neg (by simpa using hintent)]
  refine Takes.bind (R := fun _ s' => s'.store.pending = s.store.pending)
    (takes_onStore (takes_removeRecordIfPresent _ s.store) fun _ _ hs => hs)
    fun _ removed hremoved => ?_
  rw [← hremoved, ← Nat.zero_add (_ + 6)]
  refine Takes.bind (R := fun _ s' => s'.store = removed.store) ⟨rfl, rfl⟩ fun copy copied hcopied => ?_
  rw [← hcopied]
  exact takes_publishIndex copy [] copied

theorem yields_opening (s : Memory) :
    Yields ensureOpen s (fun _ s' => Opening s.store s'.store) fun _ _ => True := by
  unfold ensureOpen
  rw [yields_bind, yields_get, yields_bind, yields_onStore]
  refine (Credential.yields_opening s.store).mono (fun _ store hs => ?_) fun _ _ _ => trivial
  split
  · exact hs
  · exact hs

theorem yields_settle (h : Valid s) :
    Yields settleCommittedCleanupNoThrow s (fun _ s' => Kept s s')
      (fun e s' => e ≠ .dangling ∧ Kept s s') := by
  have hclean := yields_cleanPriorIntent h
  unfold Yields at *
  unfold settleCommittedCleanupNoThrow
  rcases hrun : cleanPriorIntent s with ⟨result, s'⟩
  rw [hrun] at hclean
  cases result with
  | ok u => exact hclean.1
  | error e =>
    cases e with
    | dangling => exact absurd rfl hclean.1
    | interrupted interruption =>
      cases interruption with
      | stopped => exact hclean
      | _ => exact hclean.2

/-- What a process has of the entries when it has opened the store. -/
def entriesBefore (c : Core) : PersistentEntries :=
  if c.opened then c.entries else ((published c.index).map Prod.fst).getD ∅

/-- The cleanup intent that a call finds. -/
def intentBefore (c : Core) : Bytes :=
  if c.opened then c.cleanupId else ((published c.index).map Prod.snd).getD []

theorem yields_storeOpen (store : Store) :
    Yields Credential.ensureOpen store
      (fun _ store' => store'.core.entries = entriesBefore store.core ∧
        store'.core.cleanupId = intentBefore store.core)
      (fun _ store' => store'.core = store.core) := by
  unfold Credential.ensureOpen
  refine Yields.bind (yields_touch fun _ _ hs' => hs') fun _ touched htouched => ?_
  rw [yields_bind, yields_get, htouched.1]
  cases hopened : store.core.opened with
  | true =>
    show _ ∧ _
    rw [htouched.1, entriesBefore, intentBefore, hopened]
    exact ⟨rfl, rfl⟩
  | false =>
    simp only [Bool.false_eq_true, if_false]
    rw [entriesBefore, intentBefore, hopened]
    simp only [Bool.false_eq_true, if_false]
    split
    · rename_i hindex
      rw [hindex]
      exact ⟨rfl, rfl⟩
    · rename_i bytes hindex
      rw [yields_bind, yields_throwWhen, hindex]
      refine ⟨fun _ => htouched.1, fun hsize => ?_⟩
      rw [published, if_neg (by simpa using hsize)]
      cases decodeIndex bytes with
      | none => exact htouched.1
      | some pair => exact ⟨rfl, rfl⟩

theorem yields_ensureOpen (h : Valid s) :
    Yields ensureOpen s
      (fun _ s' => Kept s s' ∧ s'.store.core.entries = entriesBefore s.store.core ∧
        s'.store.core.cleanupId = intentBefore s.store.core)
      (fun e s' => e ≠ .dangling ∧ Kept s s') := by
  unfold ensureOpen
  rw [yields_bind, yields_get, yields_bind, yields_onStore]
  refine (yields_storeOpen s.store).mono (fun _ store hs => ?_) fun e store hs => ?_
  · cases hopened : s.store.core.opened with
    | true =>
      have hentries : store.core.entries = s.store.core.entries := by
        rw [hs.1, entriesBefore, hopened]
        rfl
      refine ⟨⟨⟨?_, h.allocated, h.beyond⟩, rfl⟩, hs.1, hs.2⟩
      show s.objects.elements s.objects.member = some store.core.entries
      rw [hentries]
      exact h.member
    | false =>
      refine ⟨⟨⟨?_, Nat.lt_succ_self _, fun other hother => ?_⟩, rfl⟩, hs.1, hs.2⟩
      · exact Function.update_self _ _ _
      · have hother' : s.objects.fresh + 1 ≤ other := hother
        show Function.update (Function.update s.objects.elements s.objects.member none)
          s.objects.fresh _ other = none
        rw [Function.update_of_ne (by omega), Function.update_apply, h.beyond other (by omega),
          ite_self]
  · refine ⟨(fun heq => nomatch heq), ⟨?_, h.allocated, h.beyond⟩, rfl⟩
    show s.objects.elements s.objects.member = some store.core.entries
    rw [hs]
    exact h.member

end Steps

-- ---------------------------------------------------------------------------
-- Calls
-- ---------------------------------------------------------------------------

section Calls

variable {s : Memory}

/-- How a call ends: the member is valid, it read nothing but the entry of its name, and
no read failed unless it settled an intent. -/
structure Ends (found : Option PersistentMetadata) (settled : Prop) (e : Option Ending)
    (s' : Memory) : Prop where
  valid : Valid s'
  reads : ∀ entry ∈ s'.reads, found = some entry
  live : settled → e ≠ some .dangling

variable {found : Option PersistentMetadata} {settled : Prop}

theorem Ends.of_kept {s' : Memory} {e : Option Ending} (h : Kept s s')
    (hreads : ∀ entry ∈ s.reads, found = some entry) (hlive : e ≠ some .dangling) :
    Ends found settled e s' :=
  ⟨h.valid, by rw [h.reads]; exact hreads, fun _ => hlive⟩

/-- The end of a mutation: what it read is behind it. -/
theorem ends_of_yields {m : HeapProgram Unit}
    (h : Yields m s (fun _ s' => Kept s s') (fun e s' => e ≠ .dangling ∧ Kept s s'))
    (hreads : ∀ entry ∈ s.reads, found = some entry) :
    Yields m s (fun _ s' => Ends found settled none s') (fun e s' => Ends found settled (some e) s') :=
  h.mono (fun _ s' hs' => Ends.of_kept hs' hreads (by simp))
    fun e s' hs' => Ends.of_kept hs'.2 hreads (by simpa using hs'.1)

/-- What an iterator refers to: the entry, or, if the call settled an intent, nothing. -/
def Refers (s : Memory) (iterator : Iterator) (found : Option PersistentMetadata)
    (settled : Prop) : Prop :=
  (found.isSome = true ∧ (s.objects.elements iterator.object).bind (·[iterator.key]?) = found) ∨
    (¬settled ∧ s.objects.elements iterator.object = none)

/-- The values read so far are of one entry, which is still referred to. -/
structure Reading (s : Memory) (iterator : Option Iterator) (found : Option PersistentMetadata)
    (settled : Prop) : Prop where
  valid : Valid s
  reads : ∀ entry ∈ s.reads, found = some entry
  refers : ∀ it, iterator = some it → Refers s it found settled

theorem yields_deref {iterator : Iterator} (h : Reading s (some iterator) found settled) :
    Yields (deref iterator) s
      (fun entry s' => found = some entry ∧ Reading s' (some iterator) found settled)
      (fun e s' => Ends found settled (some e) s') := by
  unfold Yields deref
  rcases h.refers iterator rfl with ⟨hsome, hlive⟩ | ⟨hunsettled, hnone⟩
  · obtain ⟨entry, rfl⟩ := Option.isSome_iff_exists.mp hsome
    rw [hlive]
    refine ⟨rfl, ⟨h.valid.member, h.valid.allocated, h.valid.beyond⟩, fun other hother => ?_,
      fun it hit => ?_⟩
    · rcases List.mem_append.mp hother with hother | hother
      · exact h.reads other hother
      · rw [List.mem_singleton.mp hother]
    · obtain rfl := Option.some.inj hit
      exact .inl ⟨rfl, hlive⟩
  · rw [hnone]
    exact ⟨h.valid, h.reads, fun hsettled => absurd hsettled hunsettled⟩

theorem yields_replacedField {α : Type} {iterator : Option Iterator}
    (h : Reading s iterator found settled) (field : PersistentMetadata → α) (otherwise : α) :
    Yields (replacedField iterator field otherwise) s
      (fun _ s' => Reading s' iterator found settled)
      (fun e s' => Ends found settled (some e) s') := by
  unfold replacedField
  cases iterator with
  | none => exact h
  | some iterator =>
    refine Yields.bind (yields_deref h) fun entry s' hs' => ?_
    exact hs'.2

/-- The call finds no intent, or ends before the one it finds is settled. -/
def Unsettled (store : Store) : Prop :=
  store.core.cleanupId = [] ∨ ¬Cleans store store.core.cleanupId

/-- Settling an intent leaves the iterator of the member, or destroys what it refers to. -/
theorem yields_clean_reading {key : Bytes} {iterator : Option Iterator} (h : Valid s)
    (hreads : s.reads = [])
    (hiterator : ∀ it, iterator = some it → it = ⟨s.objects.member, key⟩ ∧ found.isSome = true ∧
      s.store.core.entries[key]? = found ∧ (settled → Unsettled s.store)) :
    Yields cleanPriorIntent s (fun _ s' => Reading s' iterator found settled)
      (fun e s' => Ends found settled (some e) s') := by
  have hnone : ∀ entry ∈ s.reads, found = some entry := by
    rw [hreads]
    intro entry hentry
    cases hentry
  have hcleans : Yields cleanPriorIntent s
      (fun _ _ => s.store.core.cleanupId = [] ∨ Cleans s.store s.store.core.cleanupId)
      (fun _ _ => True) := by
    by_cases hintent : s.store.core.cleanupId = []
    · exact (yields_cleanPriorIntent h).mono (fun _ _ _ => .inl hintent) fun _ _ _ => trivial
    · exact Yields.mono (takes_cleanPriorIntent hintent) (fun _ _ hs' => .inr ⟨_, hs'.1.symm⟩)
        fun _ _ hs' => hs'
  refine ((yields_cleanPriorIntent h).and hcleans).mono (fun _ s' hs' => ?_)
    fun e s' hs' => Ends.of_kept hs'.1.2 hnone (by simpa using hs'.1.1)
  obtain ⟨⟨hkept, hsame, hdestroyed⟩, hcleaned⟩ := hs'
  refine ⟨hkept.valid, by rw [hkept.reads]; exact hnone, fun it hit => ?_⟩
  obtain ⟨rfl, hsome, hentry, hsettled⟩ := hiterator it hit
  by_cases hintent : s.store.core.cleanupId = []
  · rw [hsame hintent]
    refine .inl ⟨hsome, ?_⟩
    rw [h.member]
    exact hentry
  · refine .inr ⟨fun hs => ?_, hdestroyed hintent⟩
    exact ((hsettled hs).resolve_left hintent) (hcleaned.resolve_left hintent)

/-- Copying the member, editing the copy and publishing it. -/
theorem yields_publishCopy {α : Type} (h : Valid s) (edit : PersistentEntries → PersistentEntries)
    (cleanup : Bytes) {rest : HeapProgram α} {Q : α → Memory → Prop} {E : Ending → Memory → Prop}
    (hthrow : ∀ e s', e ≠ .dangling → Kept s s' → E e s')
    (hrest : ∀ s', Kept s s' → Yields rest s' Q E) :
    Yields (do
      let next ← copyEntries
      modify fun s => s.withObjects (s.objects.edited next edit)
      publishIndex next cleanup
      rest) s Q E := by
  refine Yields.bind ((yields_copyEntries h).mono (fun _ _ hs' => hs') fun _ _ hs' => hs'.elim)
    fun next s₁ h₁ => ?_
  rw [yields_bind, yields_modify]
  obtain ⟨hkept, hlocal⟩ := h₁.1.valid.edited h₁.2.1 edit
  refine Yields.bind ((yields_publishIndex hkept.valid hlocal cleanup).mono (fun _ _ hs' => hs')
    fun e s' hs' => hthrow e s' hs'.1 ((h₁.1.trans hkept).trans hs'.2)) fun _ s₂ h₂ => ?_
  exact hrest s₂ ((h₁.1.trans hkept).trans h₂.1)

theorem yields_publishSecret {request : StoreRequest} {key : Bytes} {iterator : Option Iterator}
    (h : Valid s) (hreads : s.reads = [])
    (hiterator : ∀ it, iterator = some it → it = ⟨s.objects.member, key⟩ ∧ found.isSome = true ∧
      s.store.core.entries[key]? = found ∧ (settled → Unsettled s.store)) :
    Yields (publishSecret request key iterator) s (fun _ s' => Ends found settled none s')
      (fun e s' => Ends found settled (some e) s') := by
  unfold publishSecret
  refine Yields.bind (yields_clean_reading h hreads hiterator) fun _ s₁ h₁ => ?_
  refine Yields.bind (yields_replacedField h₁ _ _) fun authority s₂ h₂ => ?_
  refine Yields.bind (yields_replacedField h₂ _ _) fun superseded s₃ h₃ => ?_
  -- nothing is read after this
  refine ends_of_yields ?_ h₃.reads
  refine Yields.bind ((yields_copyEntries h₃.valid).mono (fun _ _ hs' => hs')
    fun _ _ hs' => hs'.elim) fun copy s₄ h₄ => ?_
  refine Yields.bind ((yields_publishIndex h₄.1.valid h₄.2.1 _).mono (fun _ _ hs' => hs')
    fun _ _ hs' => ⟨hs'.1, h₄.1.trans hs'.2⟩) fun _ s₅ h₅ => ?_
  have hwrite (metadata : PersistentMetadata) :
      Yields (writeRecord metadata request.new.secret.payload) s₅.store
        (fun _ store => store.core.entries = s₅.store.core.entries)
        (fun _ store => store.core.entries = s₅.store.core.entries) := by
    refine (yields_writeRecord metadata _ s₅.store).mono (fun _ store hs => ?_)
      fun _ store hs => ?_
    · obtain ⟨_, -, -, hcore⟩ := hs
      rw [hcore]
      rfl
    · rcases hs with hcore | ⟨-, _, _, -, -, hcore⟩
      · rw [hcore]
      · rw [hcore]
        rfl
  have hkept₅ := h₄.1.trans h₅.1
  refine Yields.bind ((yields_files hkept₅.valid (hwrite _)).mono (fun _ _ hs' => hs')
    fun _ _ hs' => ⟨hs'.1, hkept₅.trans hs'.2.1⟩) fun _ s₆ h₆ => ?_
  have hkept₆ := hkept₅.trans h₆.1
  refine yields_publishCopy hkept₆.valid _ _ (fun e s' hne hs' => ⟨hne, hkept₆.trans hs'⟩)
    fun s₇ h₇ => ?_
  exact (yields_settle h₇.valid).mono (fun _ s' hs' => (hkept₆.trans h₇).trans hs')
    fun e s' hs' => ⟨hs'.1, (hkept₆.trans h₇).trans hs'.2⟩

theorem yields_publishDrop {key : Bytes} (h : Valid s) (hreads : s.reads = [])
    (hfound : found.isSome = true) (hentry : s.store.core.entries[key]? = found)
    (hsettled : settled → Unsettled s.store) :
    Yields (publishDrop key ⟨s.objects.member, key⟩) s (fun _ s' => Ends found settled none s')
      (fun e s' => Ends found settled (some e) s') := by
  unfold publishDrop
  have hclean : Yields cleanPriorIntent s
      (fun _ s' => Reading s' (some ⟨s.objects.member, key⟩) found settled)
      (fun e s' => Ends found settled (some e) s') :=
    yields_clean_reading h hreads fun it hit =>
      ⟨(Option.some.inj hit).symm, hfound, hentry, hsettled⟩
  refine Yields.bind hclean fun _ s₁ h₁ => ?_
  refine Yields.bind (yields_deref h₁) fun entry s₂ h₂ => ?_
  refine ends_of_yields ?_ h₂.2.reads
  refine yields_publishCopy h₂.2.valid _ _ (fun e s' hne hs' => ⟨hne, hs'⟩) fun s₃ h₃ => ?_
  exact (yields_settle h₃.valid).mono (fun _ s' hs' => h₃.trans hs')
    fun e s' hs' => ⟨hs'.1, h₃.trans hs'.2⟩

theorem Memory.find_cases (s : Memory) (key : Bytes) :
    (s.find key = some ⟨s.objects.member, key⟩ ∧
        ∃ entry, s.store.core.entries[key]? = some entry) ∨
      (s.find key = none ∧ s.store.core.entries[key]? = none) := by
  unfold Memory.find
  by_cases hmem : key ∈ s.store.core.entries
  · refine .inl ⟨if_pos (Std.ExtTreeMap.mem_iff_contains.mp hmem), ?_⟩
    exact ⟨_, Std.ExtTreeMap.getElem?_eq_some_getElem hmem⟩
  · refine .inr ⟨if_neg fun hc => hmem (Std.ExtTreeMap.mem_iff_contains.mpr hc), ?_⟩
    exact Std.ExtTreeMap.getElem?_eq_none hmem

/-- The entry of a name before a call. -/
def entryBefore (c : Core) (name : Bytes) : Option PersistentMetadata :=
  (normalizedName name).bind fun key => (entriesBefore c)[key]?

/-- A call from `s` finds no intent, or ends before the one it finds is settled. -/
def EndsUnsettled (store : Store) : Prop :=
  intentBefore store.core = [] ∨ ¬SettlesIntent store (intentBefore store.core)

theorem EndsUnsettled.unsettled {store opened : Store} (h : EndsUnsettled store)
    (hopening : Opening store opened) (hintent : opened.core.cleanupId = intentBefore store.core) :
    Unsettled opened := by
  unfold Unsettled
  rw [hintent]
  exact h.imp_right fun hsettles hcleans => hsettles (hopening.settlesIntent hcleans)

/-- The condition on a call of `StorePersistent`. -/
def StoreSettles (store : Store) (request : StoreRequest) : Prop :=
  request.autoCommit = true → request.isCuacSecret = true →
    request.onConflict = .replaceOnConflict →
    (entryBefore store.core request.new.secret.name).isSome = true → EndsUnsettled store

theorem yields_storePersistent (request : StoreRequest) (h : Valid s) (hreads : s.reads = []) :
    Yields (storePersistent request) s
      (fun _ s' => Ends (entryBefore s.store.core request.new.secret.name)
        (StoreSettles s.store request) none s')
      (fun e s' => Ends (entryBefore s.store.core request.new.secret.name)
        (StoreSettles s.store request) (some e) s') := by
  have hnone {found : Option PersistentMetadata} : ∀ entry ∈ s.reads, found = some entry := by
    rw [hreads]
    intro entry hentry
    cases hentry
  have hthrow {e : Interruption} {s' : Memory} {found : Option PersistentMetadata} {settled : Prop}
      (hs' : Kept s s') : Ends found settled (some (.interrupted e)) s' :=
    Ends.of_kept hs' hnone (by simp)
  generalize hsettles : StoreSettles s.store request = settles
  unfold storePersistent
  rw [yields_bind, yields_throwWhen]
  refine ⟨fun _ => hthrow (Kept.refl h), fun hautoCommit => ?_⟩
  rw [yields_bind, yields_throwWhen]
  refine ⟨fun _ => hthrow (Kept.refl h), fun hcuac => ?_⟩
  rw [Bool.not_eq_false'] at hautoCommit hcuac
  refine Yields.bind (((yields_ensureOpen h).and (yields_opening s)).mono (fun _ _ hs' => hs')
    fun e s' hs' => Ends.of_kept hs'.1.2 hnone (by simpa using hs'.1.1)) fun _ opened hopened => ?_
  obtain ⟨⟨hkept, hentries, hintent⟩, hopening⟩ := hopened
  have hreads' : opened.reads = [] := hkept.reads.trans hreads
  cases hkey : normalizedName request.new.secret.name with
  | none => exact hthrow hkept
  | some key =>
    have hbefore : entryBefore s.store.core request.new.secret.name =
        opened.store.core.entries[key]? := by
      rw [entryBefore, hkey, Option.bind_some, hentries]
    rw [yields_bind, yields_get, hbefore]
    rcases opened.find_cases key with ⟨hfind, entry, hentry⟩ | ⟨hfind, hentry⟩
    · rw [hfind, hentry]
      dsimp only
      split
      · exact hthrow hkept
      · -- an ignored conflict reads the entry before anything is published
        have hreading : Reading opened (some ⟨opened.objects.member, key⟩) (some entry) settles := by
          refine ⟨hkept.valid, fun read hread => ?_, fun it hit => ?_⟩
          · rw [hreads'] at hread
            cases hread
          obtain rfl := Option.some.inj hit
          refine .inl ⟨rfl, ?_⟩
          dsimp only
          rw [hkept.valid.member]
          exact hentry
        refine Yields.bind (yields_deref hreading) fun read s' hs' => ?_
        exact ⟨hs'.2.valid, hs'.2.reads, fun _ heq => nomatch heq⟩
      · rename_i hconflict
        refine yields_publishSecret hkept.valid hreads' fun it hit =>
          ⟨(Option.some.inj hit).symm, rfl, hentry, fun hsettled => ?_⟩
        rw [← hsettles] at hsettled
        have hfound : (entryBefore s.store.core request.new.secret.name).isSome = true := by
          rw [hbefore, hentry]
          rfl
        exact (hsettled hautoCommit hcuac hconflict hfound).unsettled hopening hintent
      · exact hthrow hkept
    · rw [hfind, hentry]
      dsimp only
      rw [yields_bind, yields_throwWhen]
      refine ⟨fun _ => hthrow hkept, fun _ => ?_⟩
      rw [yields_bind, yields_throwWhen]
      refine ⟨fun _ => hthrow hkept, fun _ => ?_⟩
      exact yields_publishSecret hkept.valid hreads' fun it hit => nomatch hit

/-- The condition on a call of `DropPersistent`. -/
def DropSettles (store : Store) (request : DropRequest) : Prop :=
  request.autoCommit = true → (entryBefore store.core request.name).isSome = true →
    EndsUnsettled store

theorem yields_dropPersistent (request : DropRequest) (h : Valid s) (hreads : s.reads = []) :
    Yields (dropPersistent request) s
      (fun _ s' => Ends (entryBefore s.store.core request.name)
        (DropSettles s.store request) none s')
      (fun e s' => Ends (entryBefore s.store.core request.name)
        (DropSettles s.store request) (some e) s') := by
  have hnone {found : Option PersistentMetadata} : ∀ entry ∈ s.reads, found = some entry := by
    rw [hreads]
    intro entry hentry
    cases hentry
  have hend {e : Option Ending} {s' : Memory} {found : Option PersistentMetadata} {settled : Prop}
      (hs' : Kept s s') (hne : e ≠ some .dangling) : Ends found settled e s' :=
    Ends.of_kept hs' hnone hne
  generalize hsettles : DropSettles s.store request = settles
  unfold dropPersistent
  rw [yields_bind, yields_throwWhen]
  refine ⟨fun _ => hend (Kept.refl h) (by simp), fun hautoCommit => ?_⟩
  rw [Bool.not_eq_false'] at hautoCommit
  refine Yields.bind (((yields_ensureOpen h).and (yields_opening s)).mono (fun _ _ hs' => hs')
    fun e s' hs' => hend hs'.1.2 (by simpa using hs'.1.1)) fun _ opened hopened => ?_
  obtain ⟨⟨hkept, hentries, hintent⟩, hopening⟩ := hopened
  have hreads' : opened.reads = [] := hkept.reads.trans hreads
  cases hkey : normalizedName request.name with
  | none => exact hend hkept (by simp)
  | some key =>
    have hbefore : entryBefore s.store.core request.name = opened.store.core.entries[key]? := by
      rw [entryBefore, hkey, Option.bind_some, hentries]
    rw [yields_bind, yields_get, hbefore]
    rcases opened.find_cases key with ⟨hfind, entry, hentry⟩ | ⟨hfind, hentry⟩
    · rw [hfind, hentry]
      dsimp only
      refine yields_publishDrop hkept.valid hreads' rfl hentry fun hsettled => ?_
      rw [← hsettles] at hsettled
      have hfound : (entryBefore s.store.core request.name).isSome = true := by
        rw [hbefore, hentry]
        rfl
      exact (hsettled hautoCommit hfound).unsettled hopening hintent
    · rw [hfind, hentry]
      dsimp only
      rw [yields_throwWhen]
      exact ⟨fun _ => hend hkept (by simp), fun _ => hend hkept (by simp)⟩

/-- The name that a call looks up. -/
def calledName : Event → Option Bytes
  | .store request _ => some request.new.secret.name
  | .drop request _ => some request.name
  | .read _ => none
  | .restart => none

/-- The entry of the call's name before the call. -/
def foundBefore (c : Core) (event : Event) : Option PersistentMetadata :=
  (calledName event).bind (entryBefore c)

/-- A call that replaces or drops an entry finds no cleanup intent, or ends before the one
it finds is settled. -/
def Settles (store : Store) : Event → Prop
  | .store request outcomes => StoreSettles { store with outcomes := outcomes } request
  | .drop request outcomes => DropSettles { store with outcomes := outcomes } request
  | .read _ => True
  | .restart => True

/-- One call, from a state with a valid member. -/
theorem call_ends (h : Valid s) (event : Event) :
    Valid (call s event).2 ∧
      (Settles s.store event → (call s event).1 ≠ .error .dangling) ∧
      ∀ entry ∈ (call s event).2.reads, foundBefore s.store.core event = some entry := by
  -- a call starts with what the environment will do and nothing read
  have hperform {m : HeapProgram Unit} {outcomes : List Outcome} {found : Option PersistentMetadata}
      {settled : Prop}
      (hm : ∀ s' : Memory, Valid s' → s'.reads = [] →
        s'.store = { s.store with outcomes := outcomes } →
        Yields m s' (fun _ s' => Ends found settled none s')
          (fun e s' => Ends found settled (some e) s')) :
      Valid (perform s outcomes m).2 ∧ (settled → (perform s outcomes m).1 ≠ .error .dangling) ∧
        ∀ entry ∈ (perform s outcomes m).2.reads, found = some entry := by
    have hyields := hm { s with store := { s.store with outcomes := outcomes }, reads := [] }
      ⟨h.member, h.allocated, h.beyond⟩ rfl rfl
    unfold Yields at hyields
    unfold perform
    rcases hrun : m { s with store := { s.store with outcomes := outcomes }, reads := [] }
      with ⟨result, s'⟩
    rw [hrun] at hyields
    cases result with
    | ok u => exact ⟨hyields.valid, (fun _ heq => nomatch heq), hyields.reads⟩
    | error e =>
      refine ⟨hyields.valid, fun hsettled heq => ?_, hyields.reads⟩
      exact hyields.live hsettled (congrArg some (Except.error.inj heq))
  cases event with
  | store request outcomes =>
    refine hperform fun s' hs' hreads hstore => ?_
    have hyields := yields_storePersistent request hs' hreads
    rw [hstore] at hyields
    exact hyields
  | drop request outcomes =>
    refine hperform fun s' hs' hreads hstore => ?_
    have hyields := yields_dropPersistent request hs' hreads
    rw [hstore] at hyields
    exact hyields
  | read outcomes =>
    refine hperform fun s' hs' hreads _ => ?_
    have hnone : ∀ entry ∈ s'.reads,
        foundBefore s.store.core (.read outcomes) = some entry := by
      rw [hreads]
      intro entry hentry
      cases hentry
    exact (yields_ensureOpen hs').mono (fun _ s'' hs'' => Ends.of_kept hs''.1 hnone (by simp))
      fun e s'' hs'' => Ends.of_kept hs''.2 hnone (by simpa using hs''.1)
  | restart =>
    refine ⟨⟨h.member, h.allocated, h.beyond⟩, (fun _ heq => nomatch heq), fun entry hentry => ?_⟩
    cases hentry

/-- A process starts with an empty map. -/
theorem valid_initial {store : Store} (h : store.core.entries = ∅) :
    Valid ⟨store, .initial, []⟩ := by
  refine ⟨?_, Nat.zero_lt_one, fun object hobject => ?_⟩
  · show Function.update (fun _ => none) 0 (some ∅) 0 = some store.core.entries
    rw [Function.update_self, h]
  · have hobject' : 1 ≤ object := hobject
    show Function.update (fun _ => none) 0 (some ∅) object = none
    rw [Function.update_of_ne (by omega)]

/-- The member always holds a live object. -/
theorem Valid.step (h : Valid s) (event : Event) : Valid (Iterators.step s event) := by
  have hvalid := (call_ends h event).1
  unfold Iterators.step
  split
  · exact valid_initial rfl
  · exact valid_initial rfl
  · rename_i heq
    rw [heq] at hvalid
    exact hvalid

/-- In every reachable state, a call that finds no cleanup intent, or ends before the one it
finds is settled (where it replaces or drops an entry), reads through its iterator from a
live element; and whatever a call has read is the entry of its name before the call. -/
theorem found_read_live {s : Memory} (h : machine.Reachable s) {event : Event}
    (hsettles : Settles s.store event) :
    (call s event).1 ≠ .error .dangling ∧
      ∀ entry ∈ (call s event).2.reads, foundBefore s.store.core event = some entry := by
  have hvalid : Valid s := h.invariant (valid_initial rfl) fun s event hs => hs.step event
  obtain ⟨-, hlive, hreads⟩ := call_ends hvalid event
  exact ⟨hlive hsettles, hreads⟩

/-- A replacement with nothing to settle reads its entry twice. -/
theorem found_read_live_replace :
    (call (machine.run (replacedTwice.take 1)) (replacedTwice.getD 1 .restart)).1 = .ok () ∧
      (call (machine.run (replacedTwice.take 1)) (replacedTwice.getD 1 .restart)).2.reads.map
        (·.authority) = [repeatedIdentity 1, repeatedIdentity 1] ∧
      (call (machine.run (replacedTwice.take 1)) (replacedTwice.getD 1 .restart)).1 ≠
        .error .dangling := by
  refine ⟨by decide +kernel, by decide +kernel, ?_⟩
  refine (found_read_live ((machine.reachable_iff_run _).mpr ⟨_, rfl⟩) ?_).1
  intro _ _ _ _
  exact .inl (by decide +kernel)

/-- A replacement after one whose cleanup failed reads through an iterator of a map that
is destroyed. -/
theorem found_read_dangling :
    (machine.run (replacedTwice.take 2)).store.core.cleanupId = List.replicate 32 (byte '1') ∧
      (entryBefore (machine.run (replacedTwice.take 2)).store.core (ascii "main")).isSome = true ∧
      (call (machine.run (replacedTwice.take 2)) (replacedTwice.getD 2 .restart)).1 =
        .error .dangling := by
  refine ⟨?_, ?_, ?_⟩ <;> decide +kernel

end Calls

end Cuac.Credential.Iterators

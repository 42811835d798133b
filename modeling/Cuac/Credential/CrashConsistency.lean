import Cuac.Credential.Storage

/-!
# Crash consistency of the credential store

What holds of the directory and of the process after any run of mutations,
lookups and restarts, wherever the environment interrupted them.

`Mirrors` is the invariant inside a call: the process holds what the selected
index says, every entry has its record, and every record file belongs to an entry
or is the cleanup id. Each step of a mutation is specified by the `Core` it leaves
when it returns and when it does not; the mutations follow by composing these.

Main results:

* `crash_consistency` — in a run whose replacements and drops start without a
  cleanup intent, or end before they have settled it, every state is consistent and
  every call is atomic.
* `stale_authority_after_cleanup` — otherwise a replacement can take its authority
  from freed memory, and leak the record it superseded.
-/

namespace Cuac.Credential

open Cuac.Lib Throwing

-- ---------------------------------------------------------------------------
-- The invariant
-- ---------------------------------------------------------------------------

/-- What a new process reads of the selected index. -/
def published : Option Bytes → Option (PersistentEntries × Bytes)
  | none => some (∅, [])
  | some bytes => if maxIndexBytes < bytes.length then none else decodeIndex bytes

/-- The secret of an entry. -/
def secretOf (entry : PersistentMetadata) (payload : Bytes) : CuacSecret :=
  ⟨entry.source, entry.name, payload, entry.authority, entry.revision⟩

/-- The directory of an index with these entries and this cleanup id. -/
structure Sound (index : Option Bytes) (records : Records) (entries : PersistentEntries)
    (cleanupId : Bytes) : Prop where
  selected : published index = some (entries, cleanupId)
  /-- Every entry has a record that decodes to exactly that entry. -/
  complete : ∀ (key : Bytes) (entry : PersistentMetadata), entries[key]? = some entry →
    ∃ bytes payload, records[entry.recordId]? = some bytes ∧
      decodeRecord bytes entry = some (secretOf entry payload)
  /-- Every record file belongs to an entry or awaits its removal. -/
  referenced : ∀ id, id ∈ records →
    id = cleanupId ∨ ∃ (key : Bytes) (entry : PersistentMetadata),
      entries[key]? = some entry ∧ entry.recordId = id
  hex : ∀ id, id ∈ records → isHexId id = true

/-- An open store that holds what the selected index says. -/
def Mirrors (c : Core) : Prop :=
  c.opened = true ∧ Sound c.index c.records c.entries c.cleanupId

/-- A store between calls. -/
def Consistent (c : Core) : Prop :=
  ∃ entries cleanupId, Sound c.index c.records entries cleanupId ∧
    (c.opened = true → c.entries = entries ∧ c.cleanupId = cleanupId)

/-- What can be told of a published index. -/
structure WellFormed (entries : PersistentEntries) (cleanupId : Bytes) : Prop where
  encodable : Encodable (entriesInOrder entries) cleanupId
  keyed : Keyed entries
  identities : ∀ (key : Bytes) (entry : PersistentMetadata), entries[key]? = some entry →
    HasIdentities entry

theorem keyed_empty : Keyed ∅ := by
  intro key entry hentry
  simp at hentry

theorem wellFormed_of_published {index : Option Bytes} {entries : PersistentEntries}
    {cleanupId : Bytes} (h : published index = some (entries, cleanupId)) :
    WellFormed entries cleanupId := by
  cases index with
  | none =>
    obtain ⟨rfl, rfl⟩ := Prod.mk.inj (Option.some.inj h)
    have hempty : entriesInOrder ∅ = [] := rfl
    refine ⟨?_, keyed_empty, fun key entry hentry => by simp at hentry⟩
    rw [hempty]
    exact ⟨by decide, Or.inl rfl, listable_nil [] []⟩
  | some bytes =>
    rw [published] at h
    split at h
    · cases h
    · obtain ⟨order, hencodable, hidentities, hkeys, rfl, -⟩ := decodeIndex_eq_some.mp h
      obtain ⟨hkeyed, hperm⟩ := entriesInOrder_insertAll hkeys fun entry hentry =>
        (hencodable.listable.names entry hentry).1
      refine ⟨hencodable.perm hperm.symm, hkeyed, fun key entry hentry => ?_⟩
      exact hidentities entry (hperm.mem_iff.mp (mem_entriesInOrder.mpr ⟨key, hentry⟩))

theorem published_encodeIndex {entries : PersistentEntries} {cleanupId bytes : Bytes}
    (hkeyed : Keyed entries)
    (hidentities : ∀ (key : Bytes) (entry : PersistentMetadata), entries[key]? = some entry →
      HasIdentities entry)
    (h : encodeIndex entries cleanupId = some bytes) :
    published (some bytes) = some (entries, cleanupId) := by
  obtain ⟨hencodable, rfl, hsize⟩ := encodeIndexOf_eq_some.mp h
  rw [published, if_neg (Nat.not_lt.mpr hsize)]
  refine decodeIndex_eq_some.mpr ⟨entriesInOrder entries, hencodable, fun entry hentry => ?_,
    nodup_entryKeys hkeyed, (insertAll_entriesInOrder hkeyed).symm, rfl⟩
  obtain ⟨key, hkey⟩ := mem_entriesInOrder.mp hentry
  exact hidentities key entry hkey

theorem WellFormed.recordId_ne {entries : PersistentEntries} {cleanupId : Bytes}
    (h : WellFormed entries cleanupId) {key : Bytes} {entry : PersistentMetadata}
    (hentry : entries[key]? = some entry) : entry.recordId ≠ cleanupId :=
  (h.encodable.listable.fresh entry (mem_entriesInOrder.mpr ⟨key, hentry⟩)).2

-- ---------------------------------------------------------------------------
-- File operations
-- ---------------------------------------------------------------------------

section Attempts

variable {α : Type} {s : Store} {Q : Unit → Store → Prop} {X : Interruption → Store → Prop}

/-- A file operation, by its effect and by what it leaves when interrupted. -/
theorem yields_attemptTorn {effect : Store → Store} {torn : Nat → Store → Store}
    (hok : ∀ rest, Q () { effect s with outcomes := rest }) (hnone : X .stopped s)
    (htorn : ∀ e written rest, X e { torn written s with outcomes := rest }) :
    Yields (attemptTorn effect torn) s Q X := by
  unfold Yields attemptTorn
  cases houtcomes : s.outcomes with
  | nil => exact hnone
  | cons outcome rest =>
    cases outcome with
    | ok => exact hok rest
    | fail written => exact htorn _ written rest
    | stop written => exact htorn _ written rest

theorem yields_attempt {effect : Store → Store}
    (hok : ∀ rest, Q () { effect s with outcomes := rest }) (hnone : X .stopped s)
    (hfail : ∀ e rest, X e { s with outcomes := rest }) : Yields (attempt effect) s Q X :=
  yields_attemptTorn hok hnone fun e _ rest => hfail e rest

/-- An operation that changes nothing. -/
theorem yields_touch (hX : ∀ e s', s'.core = s.core → X e s') :
    Yields touch s (fun _ s' => s'.core = s.core ∧ s'.pending = s.pending) X :=
  yields_attempt (fun _ => ⟨rfl, rfl⟩) (hX _ s rfl) fun e _ => hX e _ rfl

end Attempts

-- ---------------------------------------------------------------------------
-- Steps of a mutation
-- ---------------------------------------------------------------------------

section Steps

theorem erase_of_not_mem {records : Records} {id : Bytes} (h : id ∉ records) :
    records.erase id = records := by
  refine Std.ExtTreeMap.ext_getElem? fun key => ?_
  rw [Std.ExtTreeMap.getElem?_erase]
  by_cases hkey : compare id key = .eq
  · rw [if_pos hkey]
    obtain rfl := Std.compare_eq_iff_eq.mp hkey
    exact (Std.ExtTreeMap.getElem?_eq_none h).symm
  · rw [if_neg hkey]

/-- A record is removed, or the call ends early with or without having done so. -/
theorem yields_removeRecordIfPresent (id : Bytes) (s : Store) :
    Yields (removeRecordIfPresent id) s
      (fun _ s' => s'.core = s.core.withRecords (s.core.records.erase id))
      (fun _ s' => s'.core = s.core ∨
        s'.core = s.core.withRecords (s.core.records.erase id)) := by
  unfold removeRecordIfPresent recordFile
  rw [yields_bind, yields_throwWhen]
  refine ⟨fun _ => Or.inl rfl, fun _ => ?_⟩
  refine Yields.bind (yields_touch fun _ _ hs' => Or.inl hs') fun _ opened hopened => ?_
  rw [yields_bind, yields_get]
  split
  · refine Yields.bind (R := fun _ s' =>
      s'.core = s.core.withRecords (s.core.records.erase id)) ?_ fun _ removed hremoved => ?_
    · refine yields_attempt (fun _ => ?_) (Or.inl hopened.1) fun _ _ => Or.inl hopened.1
      show opened.core.withRecords (opened.core.records.erase id) = _
      rw [hopened.1]
    · exact (yields_touch fun _ _ hs' => Or.inr (hs'.trans hremoved)).mono
        (fun _ s' hs' => hs'.1.trans hremoved) fun _ s' hs' => hs'
  · rename_i habsent
    rw [yields_pure, hopened.1]
    rw [hopened.1, Bool.not_eq_true, ← Bool.not_eq_true, ← Std.ExtTreeMap.mem_iff_contains]
      at habsent
    rw [erase_of_not_mem habsent]
    rfl

/-- What the rename and the swap after it make of a core. -/
def Core.publish (c : Core) (bytes : Bytes) (entries : PersistentEntries) (cleanupId : Bytes) :
    Core :=
  { c with index := some bytes, entries := entries, cleanupId := cleanupId }

/-- The index is published whole, or the core is as it was. -/
theorem yields_publishIndex (entries : PersistentEntries) (cleanupId : Bytes) (s : Store) :
    Yields (publishIndex entries cleanupId) s
      (fun _ s' => ∃ bytes, encodeIndex entries cleanupId = some bytes ∧
        s'.core = s.core.publish bytes entries cleanupId)
      (fun _ s' => s'.core = s.core ∨ ∃ bytes, encodeIndex entries cleanupId = some bytes ∧
        s'.core = s.core.publish bytes entries cleanupId) := by
  unfold publishIndex
  split
  · exact Or.inl rfl
  · rename_i bytes hbytes
    -- up to the rename only the pending file changes
    refine Yields.bind (R := fun _ s' => s'.core = s.core) ?_ fun _ s₁ h₁ => ?_
    · unfold removeStalePending
      refine Yields.bind (yields_touch fun _ _ hs' => Or.inl hs') fun _ opened hopened => ?_
      rw [yields_bind, yields_get]
      split
      · exact yields_attempt (fun _ => hopened.1) (Or.inl hopened.1) fun _ _ => Or.inl hopened.1
      · exact hopened.1
    refine Yields.bind (R := fun _ s' => s'.core = s.core)
      (yields_attempt (fun _ => h₁) (Or.inl h₁) fun _ _ => Or.inl h₁) fun _ s₂ h₂ => ?_
    refine Yields.bind (yields_touch fun _ _ hs' => Or.inl (hs'.trans h₂)) fun _ s₃ h₃ => ?_
    replace h₃ := h₃.1.trans h₂
    refine Yields.bind (R := fun _ s' => s'.core = s.core ∧ s'.pending = some bytes)
      (yields_attemptTorn (fun _ => ⟨h₃, rfl⟩) (Or.inl h₃) fun _ _ _ => Or.inl h₃)
      fun _ s₄ h₄ => ?_
    refine Yields.bind (yields_touch fun _ _ hs' => Or.inl (hs'.trans h₄.1)) fun _ s₅ h₅ => ?_
    refine Yields.bind (R := fun _ s' => s'.core = { s.core with index := some bytes })
      (yields_attempt (fun _ => ?_) (Or.inl (h₅.1.trans h₄.1))
        fun _ _ => Or.inl (h₅.1.trans h₄.1)) fun _ s₆ h₆ => ?_
    · show { s₅.core with index := s₅.pending } = _
      rw [h₅.2, h₄.2, h₅.1, h₄.1]
    -- the swap follows the rename at once, so the process and the index agree
    rw [yields_bind, yields_modify]
    have hcore : { s₆.core with entries := entries, cleanupId := cleanupId } =
        s.core.publish bytes entries cleanupId := by
      rw [h₆]
      rfl
    exact (yields_touch fun _ _ hs' => Or.inr ⟨bytes, hbytes, hs'.trans hcore⟩).mono
      (fun _ s' hs' => ⟨bytes, hbytes, hs'.1.trans hcore⟩) fun _ s' hs' => hs'

/-- A record is written whole, or what there is of it stands under its id. -/
theorem yields_writeRecord (metadata : PersistentMetadata) (payload : Bytes) (s : Store) :
    Yields (writeRecord metadata payload) s
      (fun _ s' => ∃ bytes, encodeRecord metadata payload = some bytes ∧
        isHexId metadata.recordId = true ∧
        s'.core = s.core.withRecords (s.core.records.insert metadata.recordId bytes))
      (fun _ s' => s'.core = s.core ∨ isHexId metadata.recordId = true ∧ ∃ content bytes,
        encodeRecord metadata payload = some bytes ∧ content <+: bytes ∧
        s'.core = s.core.withRecords (s.core.records.insert metadata.recordId content)) := by
  unfold writeRecord recordFile
  split
  · exact Or.inl rfl
  · rename_i bytes hbytes
    have hempty : [] <+: bytes := ⟨bytes, List.nil_append bytes⟩
    have hwhole : bytes <+: bytes := ⟨[], List.append_nil bytes⟩
    rw [yields_bind, yields_throwWhen]
    refine ⟨fun _ => Or.inl rfl, fun hhex => ?_⟩
    replace hhex : isHexId metadata.recordId = true := by simpa using hhex
    rw [yields_bind, yields_get, yields_bind, yields_throwWhen]
    refine ⟨fun _ => Or.inl rfl, fun _ => ?_⟩
    refine Yields.bind (R := fun _ s' =>
      s'.core = s.core.withRecords (s.core.records.insert metadata.recordId []))
      (yields_attempt (fun _ => rfl) (Or.inl rfl) fun _ _ => Or.inl rfl) fun _ s₁ h₁ => ?_
    refine Yields.bind (yields_touch fun _ _ hs' => Or.inr ⟨hhex, [], bytes, hbytes, hempty, hs'.trans h₁⟩) fun _ s₂ h₂ => ?_
    replace h₂ := h₂.1.trans h₁
    have hinsert : ∀ content, s₂.core.withRecords
        (s₂.core.records.insert metadata.recordId content) =
          s.core.withRecords (s.core.records.insert metadata.recordId content) := by
      intro content
      have hrecords : s₂.core.records = s.core.records.insert metadata.recordId [] := by
        rw [h₂]
        rfl
      have htwice : (s.core.records.insert metadata.recordId []).insert metadata.recordId content =
          s.core.records.insert metadata.recordId content := by
        refine Std.ExtTreeMap.ext_getElem? fun key => ?_
        rw [Std.ExtTreeMap.getElem?_insert, Std.ExtTreeMap.getElem?_insert,
          Std.ExtTreeMap.getElem?_insert]
        split <;> rfl
      rw [hrecords, htwice, h₂]
      rfl
    refine Yields.bind (R := fun _ s' =>
      s'.core = s.core.withRecords (s.core.records.insert metadata.recordId bytes))
      (yields_attemptTorn (fun _ => hinsert bytes) (Or.inr ⟨hhex, [], bytes, hbytes, hempty, h₂⟩)
        fun _ written _ => Or.inr
          ⟨hhex, bytes.take written, bytes, hbytes, List.take_prefix written bytes, hinsert _⟩) fun _ s₃ h₃ => ?_
    refine Yields.bind (yields_touch fun _ _ hs' => Or.inr ⟨hhex, bytes, bytes, hbytes, hwhole, hs'.trans h₃⟩) fun _ s₄ h₄ => ?_
    replace h₄ := h₄.1.trans h₃
    exact (yields_touch fun _ _ hs' => Or.inr ⟨hhex, bytes, bytes, hbytes, hwhole, hs'.trans h₄⟩).mono
      (fun _ s' hs' => ⟨bytes, hbytes, hhex, hs'.1.trans h₄⟩) fun _ s' hs' => hs'

end Steps

-- ---------------------------------------------------------------------------
-- How many operations a step takes
-- ---------------------------------------------------------------------------

section Takes

variable {σ ε α β : Type} {script : σ → List Outcome} {m : Throwing σ ε α} {s : σ} {n k : Nat}
  {Q : α → σ → Prop}

/-- Where `m` returns, it has taken `n` outcomes of the script, and each was a success. -/
def Takes (script : σ → List Outcome) (m : Throwing σ ε α) (s : σ) (n : Nat)
    (Q : α → σ → Prop) : Prop :=
  Yields m s (fun a s' => script s = List.replicate n .ok ++ script s' ∧ Q a s') fun _ _ => True

theorem Takes.mono {Q' : α → σ → Prop} (h : Takes script m s n Q) (hQ : ∀ a s', Q a s' → Q' a s') :
    Takes script m s n Q' :=
  Yields.mono h (fun a s' hs' => ⟨hs'.1, hQ a s' hs'.2⟩) fun _ _ hs' => hs'

theorem Takes.bind {f : α → Throwing σ ε β} {R : α → σ → Prop} {Q : β → σ → Prop}
    (h : Takes script m s n R) (hf : ∀ a s', R a s' → Takes script (f a) s' k Q) :
    Takes script (m >>= f) s (n + k) Q := by
  refine Yields.bind h fun a s' hs' => ?_
  refine Yields.mono (hf a s' hs'.2) (fun b s'' hs'' => ⟨?_, hs''.2⟩) fun _ _ hs'' => hs''
  rw [hs'.1, hs''.1, List.replicate_add, List.append_assoc]

theorem takes_pure {a : α} (h : Q a s) : Takes script (pure a : Throwing σ ε α) s 0 Q :=
  ⟨rfl, h⟩

theorem takes_get {f : σ → Throwing σ ε α} :
    Takes script (get >>= f) s n Q ↔ Takes script (f s) s n Q := by
  unfold Takes
  rw [yields_bind, yields_get]

theorem takes_throwWhen {bad : Bool} {e : ε} {f : Unit → Throwing σ ε α}
    (h : Takes script (f ()) s n Q) : Takes script (throwWhen bad e >>= f) s n Q := by
  unfold Takes
  rw [yields_bind, yields_throwWhen]
  exact ⟨fun _ => trivial, fun _ => h⟩

end Takes

section Operations

variable {s : Store} {Q : Unit → Store → Prop}

theorem takes_attemptTorn {effect : Store → Store} {torn : Nat → Store → Store}
    (h : ∀ rest, Q () { effect s with outcomes := rest }) :
    Takes Store.outcomes (attemptTorn effect torn) s 1 Q := by
  unfold Takes Yields attemptTorn
  cases houtcomes : s.outcomes with
  | nil => trivial
  | cons outcome rest =>
    cases outcome with
    | ok => exact ⟨rfl, h rest⟩
    | fail written => trivial
    | stop written => trivial

theorem takes_attempt {effect : Store → Store}
    (h : ∀ rest, Q () { effect s with outcomes := rest }) :
    Takes Store.outcomes (attempt effect) s 1 Q :=
  takes_attemptTorn h

theorem takes_touch :
    Takes Store.outcomes touch s 1 fun _ s' => s'.core = s.core ∧ s'.pending = s.pending :=
  takes_attempt fun _ => ⟨rfl, rfl⟩

theorem takes_removeRecordIfPresent (id : Bytes) (s : Store) :
    Takes Store.outcomes (removeRecordIfPresent id) s
      (if s.core.records.contains id then 3 else 1) fun _ s' => s'.pending = s.pending := by
  unfold removeRecordIfPresent recordFile
  refine takes_throwWhen ?_
  cases hpresent : s.core.records.contains id with
  | true =>
    refine Takes.bind (n := 1) (k := 2) takes_touch fun _ opened hopened => ?_
    rw [takes_get, hopened.1, hpresent, if_pos rfl]
    refine Takes.bind (n := 1) (k := 1) (R := fun _ s' => s'.pending = s.pending)
      (takes_attempt fun _ => hopened.2) fun _ removed hremoved => ?_
    exact takes_touch.mono fun _ _ hs' => hs'.2.trans hremoved
  | false =>
    refine Takes.bind (n := 1) (k := 0) takes_touch fun _ opened hopened => ?_
    rw [takes_get, hopened.1, hpresent, if_neg Bool.false_ne_true]
    exact takes_pure hopened.2

theorem takes_removeStalePending (s : Store) :
    Takes Store.outcomes removeStalePending s (if s.pending.isSome then 2 else 1)
      fun _ _ => True := by
  unfold removeStalePending
  cases hpending : s.pending.isSome with
  | true =>
    refine Takes.bind (n := 1) (k := 1) takes_touch fun _ opened hopened => ?_
    rw [takes_get, hopened.2, hpending, if_pos rfl]
    exact takes_attempt fun _ => trivial
  | false =>
    refine Takes.bind (n := 1) (k := 0) takes_touch fun _ opened hopened => ?_
    rw [takes_get, hopened.2, hpending, if_neg Bool.false_ne_true]
    exact takes_pure trivial

/-- The file operations on the pending index, and what follows them. -/
theorem takes_selecting {α : Type} {rest : Program α} {k : Nat} {Q : α → Store → Prop}
    (bytes : Bytes) (s : Store) (hrest : ∀ s', Takes Store.outcomes rest s' k Q) :
    Takes Store.outcomes (do
      removeStalePending
      attempt fun s => s.withPending (some [])
      touch
      attemptTorn (fun s => s.withPending (some bytes))
        fun written s => s.withPending (some (bytes.take written))
      touch
      rest) s ((if s.pending.isSome then 2 else 1) + (k + 4)) Q := by
  refine Takes.bind (takes_removeStalePending s) fun _ s₁ _ => ?_
  rw [show k + 4 = 1 + (1 + (1 + (1 + k))) by omega]
  refine Takes.bind (R := fun _ _ => True) (takes_attempt fun _ => trivial) fun _ s₂ _ => ?_
  refine Takes.bind takes_touch fun _ s₃ _ => ?_
  refine Takes.bind (R := fun _ _ => True) (takes_attemptTorn fun _ => trivial) fun _ s₄ _ => ?_
  exact Takes.bind takes_touch fun _ s₅ _ => hrest s₅

theorem takes_publishIndex (entries : PersistentEntries) (cleanupId : Bytes) (s : Store) :
    Takes Store.outcomes (publishIndex entries cleanupId) s
      ((if s.pending.isSome then 2 else 1) + 6) fun _ _ => True := by
  unfold publishIndex
  split
  · exact trivial
  · rename_i bytes hbytes
    refine takes_selecting bytes s fun written => ?_
    refine Takes.bind (n := 1) (k := 1) (R := fun _ _ => True) (takes_attempt fun _ => trivial)
      fun _ renamed _ => ?_
    refine Takes.bind (n := 0) (k := 1) (R := fun _ _ => True) ⟨rfl, trivial⟩ fun _ swapped _ => ?_
    exact takes_touch.mono fun _ _ _ => trivial

/-- The file operations of settling `cleanupId`. -/
def cleaningOperations (s : Store) (cleanupId : Bytes) : Nat :=
  (if s.core.records.contains cleanupId then 3 else 1) + ((if s.pending.isSome then 2 else 1) + 6)

theorem takes_cleanPriorIntent (hintent : s.core.cleanupId ≠ []) :
    Takes Store.outcomes cleanPriorIntent s (cleaningOperations s s.core.cleanupId)
      fun _ _ => True := by
  unfold cleanPriorIntent
  rw [takes_get, if_neg (by simpa using hintent)]
  refine Takes.bind (takes_removeRecordIfPresent _ s) fun _ removed hremoved => ?_
  rw [← hremoved]
  exact takes_publishIndex _ _ removed

/-- Opening the store takes one operation, and leaves the files. -/
structure Opening (s opened : Store) : Prop where
  outcomes : s.outcomes = .ok :: opened.outcomes
  records : opened.core.records = s.core.records
  pending : opened.pending = s.pending

theorem yields_opening (s : Store) :
    Yields ensureOpen s (fun _ opened => Opening s opened) fun _ _ => True := by
  have htakes : Takes Store.outcomes ensureOpen s 1 fun _ opened =>
      opened.core.records = s.core.records ∧ opened.pending = s.pending := by
    unfold ensureOpen
    refine Takes.bind (n := 1) (k := 0) takes_touch fun _ touched htouched => ?_
    rw [takes_get]
    have hsame : touched.core.records = s.core.records ∧ touched.pending = s.pending :=
      ⟨by rw [htouched.1], htouched.2⟩
    split
    · exact takes_pure hsame
    · split
      · exact ⟨rfl, hsame⟩
      · refine takes_throwWhen ?_
        split
        · exact trivial
        · exact ⟨rfl, hsame⟩
  exact Yields.mono htakes (fun _ _ hs' => ⟨hs'.1, hs'.2.1, hs'.2.2⟩) fun _ _ hs' => hs'

def Cleans (s : Store) (cleanupId : Bytes) : Prop :=
  List.replicate (cleaningOperations s cleanupId) .ok <+: s.outcomes

/-- The operations of a call succeed until the intent `cleanupId`, which it finds, is settled. -/
def SettlesIntent (s : Store) (cleanupId : Bytes) : Prop :=
  List.replicate (1 + cleaningOperations s cleanupId) .ok <+: s.outcomes

theorem Opening.settlesIntent {opened : Store} {cleanupId : Bytes} (h : Opening s opened)
    (hclean : Cleans opened cleanupId) : SettlesIntent s cleanupId := by
  obtain ⟨rest, hrest⟩ := hclean
  refine ⟨rest, ?_⟩
  unfold cleaningOperations at hrest ⊢
  rw [h.records, h.pending] at hrest
  rw [h.outcomes, ← hrest, Nat.add_comm, List.replicate_succ, List.cons_append]

/-- A call that does not settle the intent it finds ends while it tries to. -/
theorem Opening.yields_unsettled {opened : Store} {Q : Unit → Store → Prop}
    {E : Interruption → Store → Prop} (h : Opening s opened)
    (hunsettled : opened.core.cleanupId ≠ [] ∧ ¬SettlesIntent s opened.core.cleanupId)
    (hclean : Yields cleanPriorIntent opened Q E) :
    Yields cleanPriorIntent opened (fun _ _ => False) E := by
  have htakes := (takes_cleanPriorIntent hunsettled.1).and hclean
  refine htakes.mono (fun _ s' hs' => ?_) fun _ _ hs' => hs'.2
  exact hunsettled.2 (h.settlesIntent ⟨_, hs'.1.1.symm⟩)

end Operations

-- ---------------------------------------------------------------------------
-- What the steps keep
-- ---------------------------------------------------------------------------

section Kept

variable {c : Core}

theorem Mirrors.wellFormed (h : Mirrors c) : WellFormed c.entries c.cleanupId :=
  wellFormed_of_published h.2.selected

theorem Mirrors.nil_not_mem (h : Mirrors c) : [] ∉ c.records := by
  intro hmem
  have hhex := h.2.hex [] hmem
  cases hhex

/-- Removing the record that awaits its removal. -/
theorem Mirrors.removed (h : Mirrors c) :
    Mirrors (c.withRecords (c.records.erase c.cleanupId)) := by
  obtain ⟨hopened, hsound⟩ := h
  have hwell := wellFormed_of_published hsound.selected
  refine ⟨hopened, hsound.selected, fun key entry hentry => ?_, fun id hid => ?_, fun id hid => ?_⟩
  · obtain ⟨bytes, payload, hrecord, hdecode⟩ := hsound.complete key entry hentry
    refine ⟨bytes, payload, ?_, hdecode⟩
    show (c.records.erase c.cleanupId)[entry.recordId]? = some bytes
    rw [Std.ExtTreeMap.getElem?_erase, if_neg ?_, hrecord]
    rw [Std.compare_eq_iff_eq]
    exact (hwell.recordId_ne hentry).symm
  · exact hsound.referenced id (Std.ExtTreeMap.mem_erase.mp hid).2
  · exact hsound.hex id (Std.ExtTreeMap.mem_erase.mp hid).2

/-- Publishing the same entries with another intent, when the last one is settled. -/
theorem Mirrors.intent {bytes cleanupId : Bytes} (h : Mirrors c) (hsettled : c.cleanupId ∉ c.records)
    (hencode : encodeIndex c.entries cleanupId = some bytes) :
    Mirrors (c.publish bytes c.entries cleanupId) := by
  have hwell := h.wellFormed
  obtain ⟨hopened, hsound⟩ := h
  refine ⟨hopened, published_encodeIndex hwell.keyed hwell.identities hencode, hsound.complete,
    fun id hid => Or.inr ?_, hsound.hex⟩
  rcases hsound.referenced id hid with rfl | hentry
  · exact absurd hid hsettled
  · exact hentry

/-- Writing under the cleanup id. -/
theorem Mirrors.written {bytes : Bytes} (h : Mirrors c) (hhex : isHexId c.cleanupId = true) :
    Mirrors (c.withRecords (c.records.insert c.cleanupId bytes)) := by
  have hwell := h.wellFormed
  obtain ⟨hopened, hsound⟩ := h
  refine ⟨hopened, hsound.selected, fun key entry hentry => ?_, fun id hid => ?_, fun id hid => ?_⟩
  · obtain ⟨content, payload, hrecord, hdecode⟩ := hsound.complete key entry hentry
    refine ⟨content, payload, ?_, hdecode⟩
    show (c.records.insert c.cleanupId bytes)[entry.recordId]? = some content
    rw [Std.ExtTreeMap.getElem?_insert, if_neg ?_, hrecord]
    rw [Std.compare_eq_iff_eq]
    exact (hwell.recordId_ne hentry).symm
  · rcases Std.ExtTreeMap.mem_insert.mp hid with hsame | hid
    · exact Or.inl (Std.compare_eq_iff_eq.mp hsame).symm
    · exact hsound.referenced id hid
  · rcases Std.ExtTreeMap.mem_insert.mp hid with hsame | hid
    · rw [← Std.compare_eq_iff_eq.mp hsame]
      exact hhex
    · exact hsound.hex id hid

/-- Selecting a written record: what it superseded awaits its removal. -/
theorem Mirrors.committed {key bytes content payload superseded : Bytes}
    {metadata : PersistentMetadata} (h : Mirrors c) (hintent : c.cleanupId = metadata.recordId)
    (hkey : normalizedName metadata.name = some key) (hidentities : HasIdentities metadata)
    (hrecord : c.records[metadata.recordId]? = some content)
    (hdecode : decodeRecord content metadata = some (secretOf metadata payload))
    (hsuperseded : ∀ old, c.entries[key]? = some old → superseded = old.recordId)
    (hencode : encodeIndex (c.entries.insert key metadata) superseded = some bytes) :
    Mirrors (c.publish bytes (c.entries.insert key metadata) superseded) := by
  have hwell := h.wellFormed
  obtain ⟨hopened, hsound⟩ := h
  have hget : ∀ (other : Bytes) (entry : PersistentMetadata),
      (c.entries.insert key metadata)[other]? = some entry ↔
        (other = key ∧ entry = metadata) ∨ (other ≠ key ∧ c.entries[other]? = some entry) := by
    intro other entry
    simp only [Std.ExtTreeMap.getElem?_insert, Std.compare_eq_iff_eq]
    by_cases hsame : other = key
    · rw [if_pos hsame.symm, Option.some.injEq]
      simp [hsame, eq_comm]
    · rw [if_neg (Ne.symm hsame)]
      simp [hsame]
  refine ⟨hopened, published_encodeIndex ?_ ?_ hencode, fun other entry hentry => ?_,
    fun id hid => ?_, hsound.hex⟩
  · intro other entry hentry
    rcases (hget other entry).mp hentry with ⟨rfl, rfl⟩ | ⟨-, hentry⟩
    · exact hkey
    · exact hwell.keyed other entry hentry
  · intro other entry hentry
    rcases (hget other entry).mp hentry with ⟨rfl, rfl⟩ | ⟨-, hentry⟩
    · exact hidentities
    · exact hwell.identities other entry hentry
  · rcases (hget other entry).mp hentry with ⟨rfl, rfl⟩ | ⟨-, hentry⟩
    · exact ⟨content, payload, hrecord, hdecode⟩
    · exact hsound.complete other entry hentry
  · rcases hsound.referenced id hid with rfl | ⟨other, entry, hentry, rfl⟩
    · exact Or.inr ⟨key, metadata, (hget _ _).mpr (Or.inl ⟨rfl, rfl⟩), hintent.symm⟩
    · by_cases hsame : other = key
      · rw [hsame] at hentry
        exact Or.inl (hsuperseded entry hentry).symm
      · exact Or.inr ⟨other, entry, (hget _ _).mpr (Or.inr ⟨hsame, hentry⟩), rfl⟩

/-- Dropping an entry: its record awaits its removal. -/
theorem Mirrors.dropped {key bytes : Bytes} {old : PersistentMetadata} (h : Mirrors c)
    (hsettled : c.cleanupId ∉ c.records) (hold : c.entries[key]? = some old)
    (hencode : encodeIndex (c.entries.erase key) old.recordId = some bytes) :
    Mirrors (c.publish bytes (c.entries.erase key) old.recordId) := by
  have hwell := h.wellFormed
  obtain ⟨hopened, hsound⟩ := h
  have hget : ∀ (other : Bytes) (entry : PersistentMetadata),
      (c.entries.erase key)[other]? = some entry ↔
        other ≠ key ∧ c.entries[other]? = some entry := by
    intro other entry
    simp only [Std.ExtTreeMap.getElem?_erase, Std.compare_eq_iff_eq]
    by_cases hsame : other = key
    · simp [hsame]
    · rw [if_neg (Ne.symm hsame)]
      simp [hsame]
  refine ⟨hopened, published_encodeIndex ?_ ?_ hencode, fun other entry hentry => ?_,
    fun id hid => ?_, hsound.hex⟩
  · intro other entry hentry
    exact hwell.keyed other entry ((hget other entry).mp hentry).2
  · intro other entry hentry
    exact hwell.identities other entry ((hget other entry).mp hentry).2
  · exact hsound.complete other entry ((hget other entry).mp hentry).2
  · rcases hsound.referenced id hid with rfl | ⟨other, entry, hentry, rfl⟩
    · exact absurd hid hsettled
    · by_cases hsame : other = key
      · rw [hsame, hold] at hentry
        obtain rfl := Option.some.inj hentry
        exact Or.inl rfl
      · exact Or.inr ⟨other, entry, (hget _ _).mpr ⟨hsame, hentry⟩, rfl⟩

end Kept

-- ---------------------------------------------------------------------------
-- Mutations
-- ---------------------------------------------------------------------------

section Mutations

/-- The prior intent is settled and the entries are the same. -/
structure Cleaned (c c' : Core) : Prop where
  mirrors : Mirrors c'
  entries : c'.entries = c.entries
  cleanupId : c'.cleanupId = []
  removed : c.cleanupId ∉ c'.records

/-- The entries are the same; the prior intent stands or is settled. -/
structure Retained (c c' : Core) : Prop where
  mirrors : Mirrors c'
  entries : c'.entries = c.entries
  intent : c'.cleanupId = c.cleanupId ∨ c'.cleanupId = [] ∧ c.cleanupId ∉ c'.records

theorem Cleaned.retained {c c' : Core} (h : Cleaned c c') : Retained c c' :=
  ⟨h.mirrors, h.entries, Or.inr ⟨h.cleanupId, h.removed⟩⟩

theorem yields_cleanPriorIntent {s : Store} (h : Mirrors s.core) :
    Yields cleanPriorIntent s (fun _ s' => Cleaned s.core s'.core)
      (fun _ s' => Retained s.core s'.core) := by
  unfold cleanPriorIntent
  rw [yields_bind, yields_get]
  split
  · rename_i hempty
    rw [yields_pure]
    replace hempty := List.isEmpty_iff.mp hempty
    exact ⟨h, rfl, hempty, hempty ▸ h.nil_not_mem⟩
  · refine Yields.bind (R := fun _ s' =>
      s'.core = s.core.withRecords (s.core.records.erase s.core.cleanupId)) ?_
      fun _ removed hremoved => ?_
    · refine (yields_removeRecordIfPresent s.core.cleanupId s).mono (fun _ _ hs' => hs')
        fun _ s' hs' => ?_
      rcases hs' with hs' | hs'
      · rw [hs']
        exact ⟨h, rfl, Or.inl rfl⟩
      · rw [hs']
        exact ⟨h.removed, rfl, Or.inl rfl⟩
    · have hgone : s.core.cleanupId ∉ removed.core.records := by
        rw [hremoved]
        intro hmem
        have hother := (Std.ExtTreeMap.mem_erase.mp hmem).1
        exact hother (Std.compare_eq_iff_eq.mpr rfl)
      have hmirrors : Mirrors removed.core := hremoved ▸ h.removed
      have hsame : removed.core.entries = s.core.entries ∧
          removed.core.cleanupId = s.core.cleanupId := by
        rw [hremoved]
        exact ⟨rfl, rfl⟩
      have hpublished : ∀ bytes, encodeIndex s.core.entries [] = some bytes →
          Cleaned s.core (removed.core.publish bytes s.core.entries []) := by
        intro bytes hencode
        rw [← hsame.1] at hencode ⊢
        exact ⟨hmirrors.intent (hsame.2 ▸ hgone) hencode, hsame.1, rfl, hgone⟩
      refine (yields_publishIndex s.core.entries [] removed).mono (fun _ s' hs' => ?_)
        fun _ s' hs' => ?_
      · obtain ⟨bytes, hencode, hcore⟩ := hs'
        rw [hcore]
        exact hpublished bytes hencode
      · rcases hs' with hcore | ⟨bytes, hencode, hcore⟩
        · rw [hcore]
          exact ⟨hmirrors, hsame.1, Or.inl hsame.2⟩
        · rw [hcore]
          exact (hpublished bytes hencode).retained

theorem yields_catchFailures {m : Program Unit} {s : Store} {P : Store → Prop}
    (h : Yields m s (fun _ => P) fun _ => P) :
    Yields (catchFailures m) s (fun _ => P) fun _ => P := by
  unfold Yields catchFailures at *
  cases hm : m s with
  | mk result s' =>
    rw [hm] at h
    cases result with
    | ok => exact h
    | error e => cases e <;> exact h

theorem yields_settle {s : Store} (h : Mirrors s.core) :
    Yields settleCommittedCleanupNoThrow s (fun _ s' => Retained s.core s'.core)
      (fun _ s' => Retained s.core s'.core) :=
  yields_catchFailures ((yields_cleanPriorIntent h).mono (fun _ _ hs' => hs'.retained)
    fun _ _ hs' => hs')

/-- The entries before or after the mutation; after it, the record of the entry it
took away awaits its removal or is removed. -/
structure Mutated (c : Core) (next : PersistentEntries) (gone : Option PersistentMetadata)
    (c' : Core) : Prop where
  mirrors : Mirrors c'
  atomic : c'.entries = c.entries ∨ c'.entries = next ∧ ∀ old, gone = some old →
    c'.cleanupId = old.recordId ∨ c'.cleanupId = [] ∧ old.recordId ∉ c'.records

theorem hasIdentities_newMetadata {request : StoreRequest} {found : Option PersistentMetadata}
    (hfound : ∀ old, found = some old → HasIdentities old) :
    HasIdentities (newMetadata request found) := by
  refine ⟨?_, request.new.revision⟩
  cases found with
  | none => exact request.new.authority
  | some old => exact (hfound old rfl).1

/-- Publishing a secret, from a store whose iterator stays valid. -/
theorem yields_publishSecret {s : Store} {request : StoreRequest} {key : Bytes}
    (h : Mirrors s.core) (hkey : normalizedName request.new.secret.name = some key)
    (hvalid : ∀ old, s.core.entries[key]? = some old → s.core.cleanupId = []) :
    Yields (publishSecret request key s.core.entries[key]?) s
      (fun _ s' => Mutated s.core
        (s.core.entries.insert key (newMetadata request s.core.entries[key]?))
        s.core.entries[key]? s'.core)
      (fun _ s' => Mutated s.core
        (s.core.entries.insert key (newMetadata request s.core.entries[key]?))
        s.core.entries[key]? s'.core) := by
  have hreplaced : s.core.entries[key]?.map
      (throughIterator request.dangling s.core.cleanupId) = s.core.entries[key]? := by
    cases hfound : s.core.entries[key]? with
    | none => rfl
    | some old =>
      rw [Option.map_some, throughIterator, hvalid old hfound]
      rfl
  unfold publishSecret
  rw [yields_bind, yields_get]
  simp only [hreplaced]
  generalize hmetadata : newMetadata request s.core.entries[key]? = metadata
  -- until the second rename the entries are the old ones
  have hold : ∀ c', Mirrors c' → c'.entries = s.core.entries →
      Mutated s.core (s.core.entries.insert key metadata) s.core.entries[key]? c' :=
    fun c' hmirrors hentries => ⟨hmirrors, Or.inl hentries⟩
  refine Yields.bind ((yields_cleanPriorIntent h).mono (fun _ _ hs' => hs')
    fun _ s' hs' => hold _ hs'.mirrors hs'.entries) fun _ s₁ h₁ => ?_
  rw [yields_bind, yields_get]
  have hintent : ∀ bytes, encodeIndex s₁.core.entries metadata.recordId = some bytes →
      Mirrors (s₁.core.publish bytes s₁.core.entries metadata.recordId) := fun bytes hencode =>
    h₁.mirrors.intent (h₁.cleanupId ▸ h₁.mirrors.nil_not_mem) hencode
  refine Yields.bind ((yields_publishIndex _ _ s₁).mono (fun _ _ hs' => hs') fun _ s' hs' => ?_)
    fun _ s₂ h₂ => ?_
  · rcases hs' with hcore | ⟨bytes, hencode, hcore⟩
    · rw [hcore]
      exact hold _ h₁.mirrors h₁.entries
    · rw [hcore]
      exact hold _ (hintent bytes hencode) h₁.entries
  obtain ⟨indexed, hindexed, hcore₂⟩ := h₂
  have hmirrors₂ : Mirrors s₂.core := hcore₂ ▸ hintent indexed hindexed
  have hentries₂ : s₂.core.entries = s.core.entries := by
    rw [hcore₂]
    exact h₁.entries
  have hcleanup₂ : s₂.core.cleanupId = metadata.recordId := by rw [hcore₂]; rfl
  refine Yields.bind ((yields_writeRecord _ _ s₂).mono (fun _ _ hs' => hs') fun _ s' hs' => ?_)
    fun _ s₃ h₃ => ?_
  · rcases hs' with hcore | ⟨hhex, content, _, -, -, hcore⟩
    · rw [hcore]
      exact hold _ hmirrors₂ hentries₂
    · rw [hcore, ← hcleanup₂]
      exact hold _ (hmirrors₂.written (hcleanup₂ ▸ hhex)) hentries₂
  obtain ⟨content, hcontent, hhex, hcore₃⟩ := h₃
  rw [yields_bind, yields_get]
  have hmirrors₃ : Mirrors s₃.core := by
    rw [hcore₃, ← hcleanup₂]
    exact hmirrors₂.written (hcleanup₂ ▸ hhex)
  have hentries₃ : s₃.core.entries = s.core.entries := by
    rw [hcore₃]
    exact hentries₂
  have hcleanup₃ : s₃.core.cleanupId = metadata.recordId := by
    rw [hcore₃]
    exact hcleanup₂
  have hidentities : HasIdentities metadata := by
    rw [← hmetadata]
    exact hasIdentities_newMetadata fun old hfound => h.wellFormed.identities key old hfound
  have hrecord : s₃.core.records[metadata.recordId]? = some content := by
    rw [hcore₃]
    exact Std.ExtTreeMap.getElem?_insert_self
  obtain ⟨hrecordable, rfl, -⟩ := encodeRecord_eq_some.mp hcontent
  have hcommit : ∀ bytes, encodeIndex (s₃.core.entries.insert key metadata)
        ((s.core.entries[key]?.map (·.recordId)).getD []) = some bytes →
      Mirrors (s₃.core.publish bytes (s₃.core.entries.insert key metadata)
        ((s.core.entries[key]?.map (·.recordId)).getD [])) := by
    intro bytes hencode
    refine hmirrors₃.committed hcleanup₃ ?_ hidentities hrecord
      (decodeRecord_recordBytes hrecordable hidentities) (fun old hfound => ?_) hencode
    · rw [← hmetadata]
      exact hkey
    · rw [hentries₃] at hfound
      rw [hfound]
      rfl
  have hafter : ∀ bytes c', encodeIndex (s₃.core.entries.insert key metadata)
        ((s.core.entries[key]?.map (·.recordId)).getD []) = some bytes →
      Retained (s₃.core.publish bytes (s₃.core.entries.insert key metadata)
        ((s.core.entries[key]?.map (·.recordId)).getD [])) c' →
      Mutated s.core (s.core.entries.insert key metadata) s.core.entries[key]? c' := by
    intro bytes c' hencode hretained
    refine ⟨hretained.mirrors, Or.inr ⟨hretained.entries.trans ?_, fun old hfound => ?_⟩⟩
    · rw [← hentries₃]
      rfl
    · have hqueued := hretained.intent
      rw [hfound] at hqueued
      exact hqueued
  refine Yields.bind ((yields_publishIndex _ _ s₃).mono (fun _ _ hs' => hs') fun _ s' hs' => ?_)
    fun _ s₄ h₄ => ?_
  · rcases hs' with hcore | ⟨bytes, hencode, hcore⟩
    · rw [hcore]
      exact hold _ hmirrors₃ hentries₃
    · rw [hcore]
      exact hafter bytes _ hencode ⟨hcommit bytes hencode, rfl, Or.inl rfl⟩
  obtain ⟨bytes, hencode, hcore₄⟩ := h₄
  have hsettle := yields_settle (hcore₄ ▸ hcommit bytes hencode : Mirrors s₄.core)
  rw [hcore₄] at hsettle
  refine Yields.bind (hsettle.mono (fun _ _ hs' => hs')
    fun _ s' hs' => hafter bytes _ hencode hs') fun _ s₅ h₅ => ?_
  exact hafter bytes _ hencode h₅

/-- Dropping an entry, from a store whose iterator stays valid. -/
theorem yields_publishDrop {s : Store} {request : DropRequest} {key : Bytes}
    {old : PersistentMetadata} (h : Mirrors s.core) (hfound : s.core.entries[key]? = some old)
    (hvalid : s.core.cleanupId = []) :
    Yields (publishDrop request key old) s
      (fun _ s' => Mutated s.core (s.core.entries.erase key) (some old) s'.core)
      (fun _ s' => Mutated s.core (s.core.entries.erase key) (some old) s'.core) := by
  have hiterator : throughIterator request.dangling s.core.cleanupId old = old := by
    rw [throughIterator, hvalid]
    rfl
  unfold publishDrop
  rw [yields_bind, yields_get]
  simp only [hiterator]
  refine Yields.bind ((yields_cleanPriorIntent h).mono (fun _ _ hs' => hs')
    fun _ s' hs' => ⟨hs'.mirrors, Or.inl hs'.entries⟩) fun _ s₁ h₁ => ?_
  rw [yields_bind, yields_get]
  have hdrop : ∀ bytes, encodeIndex (s₁.core.entries.erase key) old.recordId = some bytes →
      Mirrors (s₁.core.publish bytes (s₁.core.entries.erase key) old.recordId) := fun bytes hencode =>
    h₁.mirrors.dropped (h₁.cleanupId ▸ h₁.mirrors.nil_not_mem) (h₁.entries ▸ hfound) hencode
  have hafter : ∀ bytes c', encodeIndex (s₁.core.entries.erase key) old.recordId = some bytes →
      Retained (s₁.core.publish bytes (s₁.core.entries.erase key) old.recordId) c' →
      Mutated s.core (s.core.entries.erase key) (some old) c' := by
    intro bytes c' hencode hretained
    refine ⟨hretained.mirrors, Or.inr ⟨hretained.entries.trans ?_, ?_⟩⟩
    · rw [← h₁.entries]
      rfl
    · rintro _ ⟨⟩
      exact hretained.intent
  refine Yields.bind ((yields_publishIndex _ _ s₁).mono (fun _ _ hs' => hs') fun _ s' hs' => ?_)
    fun _ s₂ h₂ => ?_
  · rcases hs' with hcore | ⟨bytes, hencode, hcore⟩
    · rw [hcore]
      exact ⟨h₁.mirrors, Or.inl h₁.entries⟩
    · rw [hcore]
      exact hafter bytes _ hencode ⟨hdrop bytes hencode, rfl, Or.inl rfl⟩
  obtain ⟨bytes, hencode, hcore₂⟩ := h₂
  have hsettle := yields_settle (hcore₂ ▸ hdrop bytes hencode : Mirrors s₂.core)
  rw [hcore₂] at hsettle
  exact hsettle.mono (fun _ s' hs' => hafter bytes _ hencode hs')
    fun _ s' hs' => hafter bytes _ hencode hs'

end Mutations

-- ---------------------------------------------------------------------------
-- Calls
-- ---------------------------------------------------------------------------

section Calls

/-- What a call may publish instead of the entries, and the entry that it takes
away. -/
def Change (entries : PersistentEntries) :
    Event → PersistentEntries → Option PersistentMetadata → Prop
  | .store request _, next, gone => ∃ key metadata,
      normalizedName request.new.secret.name = some key ∧
      metadata = newMetadata request entries[key]? ∧
      (∀ old, entries[key]? = some old → metadata.authority = old.authority) ∧
      next = entries.insert key metadata ∧ gone = entries[key]?
  | .drop request _, next, gone => ∃ key,
      normalizedName request.name = some key ∧ next = entries.erase key ∧ gone = entries[key]? ∧
      gone ≠ none
  | .read _, _, _ => False
  | .restart, _, _ => False

/-- The condition on a call: a replacement or a drop of an entry finds no cleanup intent,
so that its iterator stays valid, or it ends before that intent is settled. -/
def Settled (s : Store) (entries : PersistentEntries) (cleanupId : Bytes) : Event → Prop
  | .store request outcomes =>
    request.autoCommit = true → request.isCuacSecret = true →
      request.onConflict = .replaceOnConflict → ∀ key old,
        normalizedName request.new.secret.name = some key → entries[key]? = some old →
        cleanupId = [] ∨ ¬SettlesIntent { s with outcomes := outcomes } cleanupId
  | .drop request outcomes =>
    request.autoCommit = true → ∀ key old,
      normalizedName request.name = some key → entries[key]? = some old →
      cleanupId = [] ∨ ¬SettlesIntent { s with outcomes := outcomes } cleanupId
  | .read _ => True
  | .restart => True

/-- A consistent store that publishes the entries of before or of after the call.
After it, the record of an entry that the call took away is the cleanup id, or it
is removed. -/
def Ended (entries : PersistentEntries)
    (change : PersistentEntries → Option PersistentMetadata → Prop) (c : Core) : Prop :=
  ∃ entries' cleanupId', Sound c.index c.records entries' cleanupId' ∧
    (c.opened = true → c.entries = entries' ∧ c.cleanupId = cleanupId') ∧
    (entries' = entries ∨ ∃ gone, change entries' gone ∧ ∀ old, gone = some old →
      cleanupId' = old.recordId ∨ cleanupId' = [] ∧ old.recordId ∉ c.records)

variable {entries : PersistentEntries} {cleanupId : Bytes}
  {change : PersistentEntries → Option PersistentMetadata → Prop}

theorem Ended.restarted {s : Store} (h : Ended entries change s.core) :
    Ended entries change s.restarted.core := by
  obtain ⟨entries', cleanupId', hsound, -, hchange⟩ := h
  exact ⟨entries', cleanupId', hsound, fun hopened => absurd hopened Bool.false_ne_true, hchange⟩

theorem Mutated.ended {c c' : Core} {next : PersistentEntries} {gone : Option PersistentMetadata}
    (h : Mutated c next gone c') (hentries : c.entries = entries) (hchange : change next gone) :
    Ended entries change c' := by
  refine ⟨c'.entries, c'.cleanupId, h.mirrors.2, fun _ => ⟨rfl, rfl⟩, ?_⟩
  rcases h.atomic with hsame | ⟨hnext, hqueued⟩
  · exact Or.inl (hsame.trans hentries)
  · exact Or.inr ⟨gone, hnext ▸ hchange, hqueued⟩

theorem Mirrors.ended {c : Core} (h : Mirrors c) (hentries : c.entries = entries) :
    Ended entries change c :=
  ⟨c.entries, c.cleanupId, h.2, fun _ => ⟨rfl, rfl⟩, Or.inl hentries⟩

/-- Settling an intent leaves the entries, however it ends. -/
theorem Mirrors.yields_cleaning {s : Store} (h : Mirrors s.core) (hentries : s.core.entries = entries) :
    Yields cleanPriorIntent s (fun _ s' => Ended entries change s'.core)
      (fun _ s' => Ended entries change s'.core) :=
  (yields_cleanPriorIntent h).mono
    (fun _ _ hs' => hs'.mirrors.ended (hs'.entries.trans hentries))
    fun _ _ hs' => hs'.mirrors.ended (hs'.entries.trans hentries)

/-- A call leaves what it leaves, and a stopped process leaves the directory. -/
theorem ended_settleCall {α : Type} {m : Program α} {s : Store} {outcomes : List Outcome}
    (h : Yields m { s with outcomes := outcomes } (fun _ s' => Ended entries change s'.core)
      (fun _ s' => Ended entries change s'.core)) :
    Ended entries change (settleCall m s outcomes).core := by
  unfold Yields at h
  unfold settleCall
  cases hm : m { s with outcomes := outcomes } with
  | mk result s' =>
    rw [hm] at h
    cases result with
    | ok a => exact h
    | error e =>
      cases e with
      | stopped => exact Ended.restarted h
      | _ => exact h

/-- The store is open and holds the published index. -/
theorem yields_ensureOpen {s : Store} (hsound : Sound s.core.index s.core.records entries cleanupId)
    (hmemory : s.core.opened = true → s.core.entries = entries ∧ s.core.cleanupId = cleanupId) :
    Yields ensureOpen s
      (fun _ s' => Mirrors s'.core ∧ s'.core.entries = entries ∧ s'.core.cleanupId = cleanupId)
      (fun _ s' => Ended entries change s'.core) := by
  have hclosed : Ended entries change s.core :=
    ⟨entries, cleanupId, hsound, hmemory, Or.inl rfl⟩
  unfold ensureOpen
  refine Yields.bind (yields_touch fun _ s' hs' => hs' ▸ hclosed) fun _ touched htouched => ?_
  obtain ⟨hcore, -⟩ := htouched
  rw [yields_bind, yields_get, hcore]
  split
  · rename_i hopened
    obtain ⟨hentries, hcleanup⟩ := hmemory hopened
    rw [yields_pure, hcore]
    refine ⟨⟨hopened, ?_⟩, hentries, hcleanup⟩
    rw [hentries, hcleanup]
    exact hsound
  · have hselected := hsound.selected
    have hloaded : Mirrors (touched.core.loaded entries cleanupId) := by
      rw [hcore]
      exact ⟨rfl, hsound⟩
    split
    · rename_i hindex
      rw [hindex, published] at hselected
      obtain ⟨rfl, rfl⟩ := Prod.mk.inj (Option.some.inj hselected)
      exact ⟨hloaded, rfl, rfl⟩
    · rename_i bytes hindex
      rw [hindex, published] at hselected
      rw [yields_bind, yields_throwWhen]
      refine ⟨fun _ => hcore ▸ hclosed, fun hsize => ?_⟩
      rw [if_neg (by simpa using hsize)] at hselected
      rw [hselected]
      exact ⟨hloaded, rfl, rfl⟩

theorem ended_store {s : Store} {request : StoreRequest}
    (hsound : Sound s.core.index s.core.records entries cleanupId)
    (hmemory : s.core.opened = true → s.core.entries = entries ∧ s.core.cleanupId = cleanupId)
    (hsettled : Settled s entries cleanupId (.store request s.outcomes)) :
    Yields (storePersistent request) s
      (fun _ s' => Ended entries (Change entries (.store request s.outcomes)) s'.core)
      (fun _ s' => Ended entries (Change entries (.store request s.outcomes)) s'.core) := by
  have hclosed : Ended entries (Change entries (.store request s.outcomes)) s.core :=
    ⟨entries, cleanupId, hsound, hmemory, Or.inl rfl⟩
  unfold storePersistent
  rw [yields_bind, yields_throwWhen]
  refine ⟨fun _ => hclosed, fun hautoCommit => ?_⟩
  rw [yields_bind, yields_throwWhen]
  refine ⟨fun _ => hclosed, fun hcuac => ?_⟩
  rw [Bool.not_eq_false'] at hautoCommit hcuac
  refine Yields.bind (((yields_ensureOpen hsound hmemory).and (yields_opening s)).mono
    (fun _ _ hs' => hs') fun _ _ hs' => hs'.1) fun _ opened hopened => ?_
  obtain ⟨⟨hmirrors, hentries, hcleanup⟩, hopening⟩ := hopened
  have hkept : Ended entries (Change entries (.store request s.outcomes)) opened.core :=
    hmirrors.ended hentries
  split
  · exact hkept
  · rename_i key hkey
    rw [yields_bind, yields_get]
    -- a call that publishes does so by the lemma on publishing
    have hpublish : (∀ old, opened.core.entries[key]? = some old →
          opened.core.cleanupId = []) →
        Yields (publishSecret request key opened.core.entries[key]?) opened
          (fun _ s' => Ended entries (Change entries (.store request s.outcomes)) s'.core)
          (fun _ s' => Ended entries (Change entries (.store request s.outcomes)) s'.core) := by
      intro hvalid
      have hchange : Change entries (.store request s.outcomes)
          (opened.core.entries.insert key (newMetadata request opened.core.entries[key]?))
          opened.core.entries[key]? := by
        rw [hentries]
        refine ⟨key, _, hkey, rfl, fun old hold => ?_, rfl, rfl⟩
        rw [hold]
        rfl
      exact (yields_publishSecret hmirrors hkey hvalid).mono
        (fun _ s' hs' => hs'.ended hentries hchange) fun _ s' hs' => hs'.ended hentries hchange
    split
    · rename_i found hfound
      split
      · exact hkept
      · exact hkept
      · rename_i hconflict
        have hintent := hsettled hautoCommit hcuac hconflict key found hkey (hentries ▸ hfound)
        rw [← hcleanup] at hintent
        by_cases hempty : opened.core.cleanupId = []
        · rw [← hfound]
          exact hpublish fun _ _ => hempty
        · -- the call does not get to the iterator
          unfold publishSecret
          rw [yields_bind, yields_get]
          refine Yields.bind (hopening.yields_unsettled ⟨hempty, hintent.resolve_left hempty⟩
            (hmirrors.yields_cleaning hentries)) fun _ _ hs' => hs'.elim
      · exact hkept
    · rename_i hfound
      rw [yields_bind, yields_throwWhen]
      refine ⟨fun _ => hkept, fun _ => ?_⟩
      rw [yields_bind, yields_throwWhen]
      refine ⟨fun _ => hkept, fun _ => ?_⟩
      rw [← hfound]
      refine hpublish fun old hold => ?_
      rw [hfound] at hold
      cases hold

theorem ended_drop {s : Store} {request : DropRequest}
    (hsound : Sound s.core.index s.core.records entries cleanupId)
    (hmemory : s.core.opened = true → s.core.entries = entries ∧ s.core.cleanupId = cleanupId)
    (hsettled : Settled s entries cleanupId (.drop request s.outcomes)) :
    Yields (dropPersistent request) s
      (fun _ s' => Ended entries (Change entries (.drop request s.outcomes)) s'.core)
      (fun _ s' => Ended entries (Change entries (.drop request s.outcomes)) s'.core) := by
  have hclosed : Ended entries (Change entries (.drop request s.outcomes)) s.core :=
    ⟨entries, cleanupId, hsound, hmemory, Or.inl rfl⟩
  unfold dropPersistent
  rw [yields_bind, yields_throwWhen]
  refine ⟨fun _ => hclosed, fun hautoCommit => ?_⟩
  rw [Bool.not_eq_false'] at hautoCommit
  refine Yields.bind (((yields_ensureOpen hsound hmemory).and (yields_opening s)).mono
    (fun _ _ hs' => hs') fun _ _ hs' => hs'.1) fun _ opened hopened => ?_
  obtain ⟨⟨hmirrors, hentries, hcleanup⟩, hopening⟩ := hopened
  have hkept : Ended entries (Change entries (.drop request s.outcomes)) opened.core :=
    hmirrors.ended hentries
  split
  · exact hkept
  · rename_i key hkey
    rw [yields_bind, yields_get]
    split
    · rw [yields_throwWhen]
      exact ⟨fun _ => hkept, fun _ => hkept⟩
    · rename_i old hold
      have hchange : Change entries (.drop request s.outcomes) (opened.core.entries.erase key)
          (some old) := by
        rw [hentries] at hold ⊢
        exact ⟨key, hkey, rfl, hold.symm, fun hnone => nomatch hnone⟩
      have hintent := hsettled hautoCommit key old hkey (hentries ▸ hold)
      rw [← hcleanup] at hintent
      by_cases hempty : opened.core.cleanupId = []
      · exact (yields_publishDrop hmirrors hold hempty).mono
          (fun _ s' hs' => hs'.ended hentries hchange) fun _ s' hs' => hs'.ended hentries hchange
      · unfold publishDrop
        rw [yields_bind, yields_get]
        refine Yields.bind (hopening.yields_unsettled ⟨hempty, hintent.resolve_left hempty⟩
          (hmirrors.yields_cleaning hentries)) fun _ _ hs' => hs'.elim

/-- One event, from a consistent store. -/
theorem ended_step {s : Store} (hsound : Sound s.core.index s.core.records entries cleanupId)
    (hmemory : s.core.opened = true → s.core.entries = entries ∧ s.core.cleanupId = cleanupId)
    {event : Event} (hsettled : Settled s entries cleanupId event) :
    Ended entries (Change entries event) (step s event).core := by
  cases event with
  | store request outcomes =>
    exact ended_settleCall (@ended_store _ _ { s with outcomes := outcomes } _ hsound hmemory hsettled)
  | drop request outcomes =>
    exact ended_settleCall (@ended_drop _ _ { s with outcomes := outcomes } _ hsound hmemory hsettled)
  | read outcomes =>
    have hopen : Yields ensureOpen { s with outcomes := outcomes }
        (fun _ s' => Mirrors s'.core ∧ s'.core.entries = entries ∧ s'.core.cleanupId = cleanupId)
        (fun _ s' => Ended entries (Change entries (.read outcomes)) s'.core) :=
      yields_ensureOpen hsound hmemory
    exact ended_settleCall (hopen.mono (fun _ s' hs' => hs'.1.ended hs'.2.1) fun _ _ hs' => hs')
  | restart =>
    exact Ended.restarted ⟨entries, cleanupId, hsound, hmemory, Or.inl rfl⟩

/-- The stores that runs reach whose calls all meet the condition. -/
inductive SettledRun : Store → Prop
  | start : SettledRun storage.start
  | step {s : Store} {event : Event} : SettledRun s →
      (∀ entries cleanupId, published s.core.index = some (entries, cleanupId) →
        Settled s entries cleanupId event) →
      SettledRun (storage.step s event)

/-- After any run whose replacements and drops find no cleanup intent, or end before they
have settled it, wherever calls were interrupted: the process holds what the selected index says, every
entry has a record that decodes to it, every record file belongs to an entry or
is the cleanup id, and the next such call again publishes the entries of before
or of after it, keeps the authority of an entry it replaces and queues the record
it supersedes. -/
theorem crash_consistency (s : Store) (h : SettledRun s) :
    ∃ entries cleanupId, Sound s.core.index s.core.records entries cleanupId ∧
      (s.core.opened = true → s.core.entries = entries ∧ s.core.cleanupId = cleanupId) ∧
      ∀ event, Settled s entries cleanupId event →
        Ended entries (Change entries event) (storage.step s event).core := by
  suffices hconsistent : ∃ entries cleanupId,
      Sound s.core.index s.core.records entries cleanupId ∧
      (s.core.opened = true → s.core.entries = entries ∧ s.core.cleanupId = cleanupId) by
    obtain ⟨entries, cleanupId, hsound, hmemory⟩ := hconsistent
    exact ⟨entries, cleanupId, hsound, hmemory, fun event hsettled =>
      ended_step hsound hmemory hsettled⟩
  induction h with
  | start =>
    refine ⟨∅, [], ⟨rfl, ?_, ?_, ?_⟩, fun hopened => absurd hopened Bool.false_ne_true⟩
    · intro key entry hentry
      simp at hentry
    · intro id hid
      exact absurd hid Std.ExtTreeMap.not_mem_empty
    · intro id hid
      exact absurd hid Std.ExtTreeMap.not_mem_empty
  | step _ hsettled ih =>
    obtain ⟨entries, cleanupId, hsound, hmemory⟩ := ih
    obtain ⟨entries', cleanupId', hsound', hmemory', -⟩ :=
      ended_step hsound hmemory (hsettled entries cleanupId hsound.selected)
    exact ⟨entries', cleanupId', hsound', hmemory'⟩

end Calls

-- ---------------------------------------------------------------------------
-- Runs
-- ---------------------------------------------------------------------------

section Example

/-- A secret of the name `main`, with identities that are one byte repeated. -/
def mainSecret (authority revision : UInt8)
    (hauthority : isNonZeroIdentity (repeatedIdentity authority) = true)
    (hrevision : isNonZeroIdentity (repeatedIdentity revision) = true) : NewSecret :=
  ⟨⟨.config, ascii "main", ascii "token", repeatedIdentity authority, repeatedIdentity revision⟩,
    hauthority, hrevision⟩

/-- What stands in freed memory. -/
def freedEntry : PersistentMetadata :=
  ⟨[], .config, repeatedIdentity 9, repeatedIdentity 9, []⟩

def storeMain (secret : NewSecret) (generated : UInt8) (outcomes : List Outcome) : Event :=
  .store ⟨true, true, secret, .replaceOnConflict, repeatedIdentity generated, freedEntry⟩ outcomes

/-- The process stops in the middle of writing the first record. -/
def stoppedCreate : Event :=
  storeMain (mainSecret 1 1 (by decide) (by decide)) 0x11 (List.replicate 10 .ok ++ [.stop 20])

/-- A torn record is the cleanup id of an index without entries. -/
theorem crash_consistency_torn_record :
    (storage.step storage.start stoppedCreate).core.records.toList.map
        (fun file => (file.1, file.2.length)) = [(List.replicate 32 (byte '1'), 20)] ∧
      ∃ cleanupId, Sound (storage.step storage.start stoppedCreate).core.index
        (storage.step storage.start stoppedCreate).core.records ∅ cleanupId := by
  have hrun : SettledRun (storage.step storage.start stoppedCreate) := by
    refine .step .start fun entries cleanupId hpublished _ _ _ key old _ hold => ?_
    obtain ⟨rfl, rfl⟩ := Prod.mk.inj (Option.some.inj hpublished)
    exact .inl rfl
  obtain ⟨entries, cleanupId, hsound, -, -⟩ := crash_consistency _ hrun
  have hempty : (published (storage.step storage.start stoppedCreate).core.index).map
      (fun pair => pair.1.toList) = some [] := by decide +kernel
  rw [hsound.selected, Option.map_some, Option.some.injEq] at hempty
  have hnone : entries = ∅ := by
    refine Std.ExtTreeMap.ext_getElem? fun key => ?_
    rw [Std.ExtTreeMap.getElem?_empty, Option.eq_none_iff_forall_ne_some]
    intro entry hentry
    have hmem := Std.ExtTreeMap.mem_toList_iff_getElem?_eq_some.mpr hentry
    rw [hempty] at hmem
    cases hmem
  refine ⟨by decide +kernel, cleanupId, ?_⟩
  rw [← hnone]
  exact hsound

/-- A credential is created, replaced with the removal of its first record failing,
and replaced again. -/
def replacedTwice : List Event :=
  [storeMain (mainSecret 1 1 (by decide) (by decide)) 0x11 (List.replicate 60 .ok),
    storeMain (mainSecret 2 2 (by decide) (by decide)) 0x22 (List.replicate 25 .ok ++ [.fail 0]),
    storeMain (mainSecret 3 3 (by decide) (by decide)) 0x33 (List.replicate 60 .ok)]

/-- The second replacement reads the freed entry: it takes the authority that
stands there, and the record of the first replacement belongs to no entry and is
not the cleanup id. -/
theorem stale_authority_after_cleanup :
    (storage.run (replacedTwice.take 2)).core.entries.toList.map
        (fun item => (item.2.authority, item.2.recordId)) =
      [(repeatedIdentity 1, List.replicate 32 (byte '2'))] ∧
    (storage.run (replacedTwice.take 2)).core.cleanupId = List.replicate 32 (byte '1') ∧
    (storage.run replacedTwice).core.entries.toList.map
        (fun item => (item.2.authority, item.2.recordId)) =
      [(repeatedIdentity 9, List.replicate 32 (byte '3'))] ∧
    (storage.run replacedTwice).core.cleanupId = [] ∧
    (storage.run replacedTwice).core.records.toList.map Prod.fst =
      [List.replicate 32 (byte '2'), List.replicate 32 (byte '3')] := by
  refine ⟨?_, ?_, ?_, ?_, ?_⟩ <;> decide +kernel

end Example

end Cuac.Credential

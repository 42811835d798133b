import Cuac.Credential.CrashConsistency
import Cuac.Credential.Provider

/-!
# What the record files hold

Whatever the calls of the store and the interruptions leave behind, a record file is the
record of some stored secret or a first part of one, and only the whole record is read.
The iterator that `CleanPriorIntent` may free plays no part in this: through it come an
authority and a file to be removed, neither a payload nor a revision.

Main results: `decodeRecord_part`, `yields_storePersistent_contents`,
`yields_selectPersistentCredential`.
-/

namespace Cuac.Credential

open Cuac.Lib Throwing

-- ---------------------------------------------------------------------------
-- Parts of a record
-- ---------------------------------------------------------------------------

/-- Behind its length a string is read back, and what follows it too. -/
theorem stringBytes_append_inj {value other rest more : Bytes} (hvalue : FitsString value)
    (hother : FitsString other) (h : stringBytes value ++ rest = stringBytes other ++ more) :
    value = other ∧ rest = more := by
  have hread : readString.run (stringBytes value ++ rest) = some (value, rest) :=
    run_readString.mpr ⟨hvalue, rfl⟩
  have hread' := run_readString.mpr ⟨hother, h⟩
  rw [hread] at hread'
  exact Prod.mk.inj (Option.some.inj hread')

/-- An identity is its bytes. -/
theorem identity_ext {identity other : CredentialIdentity} (h : identity.bytes = other.bytes) :
    identity = other := by
  cases identity
  cases other
  cases h
  rfl

/-- Two sources with one byte are the same. -/
theorem toByte_injective {source other : CredentialSource} (h : source.toByte = other.toByte) :
    source = other :=
  Option.some.inj ((parseSource_eq_some.mpr rfl).symm.trans (parseSource_eq_some.mpr h))

/-- Only a whole record is read, and what is read was written. -/
theorem decodeRecord_part {metadata expected : PersistentMetadata} {payload bytes content : Bytes}
    {secret : CuacSecret} (hwritten : encodeRecord metadata payload = some bytes)
    (hpart : content <+: bytes) (h : decodeRecord content expected = some secret) :
    secret.revision = metadata.revision ∧ secret.payload = payload ∧
      secret.source = metadata.source := by
  obtain ⟨hrecordable, rfl, -⟩ := encodeRecord_eq_some.mp hwritten
  obtain ⟨-, body, rfl, hread⟩ := readStamped_eq_some.mp h
  have hmagic : recordMagic.length = 8 := by decide
  simp only [readRecord, Reader.run_bind, run_readMagic hmagic, run_readString, run_readSource,
    run_readIdentity, Reader.run_uint, Reader.run_require, Reader.run_take, Reader.run_pure,
    Bool.and_eq_true, bne_iff_ne, decide_eq_true_eq, beq_iff_eq] at hread
  obtain ⟨_, _, rfl, recordId, _, ⟨hid, rfl⟩, name, _, ⟨hname, rfl⟩, source, _, rfl, authority, _,
    ⟨-, rfl⟩, revision, _, ⟨-, rfl⟩, size, _, ⟨hsize, rfl⟩, _, _, ⟨hlimits, rfl⟩, value, _,
    ⟨hvalue, rfl⟩, _, _, ⟨-, rfl⟩, rfl, hend⟩ := hread
  obtain ⟨tail, htail⟩ := hpart
  rw [recordBytes, stamp, stamp] at htail
  simp only [List.append_assoc, List.cons_append] at htail
  have hafterMagic := List.append_cancel_left htail
  obtain ⟨-, hafterId⟩ := stringBytes_append_inj hid hrecordable.recordId hafterMagic
  obtain ⟨-, hafterName⟩ := stringBytes_append_inj hname hrecordable.name hafterId
  obtain ⟨hsource, hafterSource⟩ := List.cons.inj hafterName
  obtain ⟨-, hafterAuthority⟩ :=
    List.append_inj hafterSource (authority.size.trans metadata.authority.size.symm)
  obtain ⟨hrevision, hafterRevision⟩ :=
    List.append_inj hafterAuthority (revision.size.trans metadata.revision.size.symm)
  obtain ⟨hlength, hafterSize⟩ := List.append_inj hafterRevision (by simp)
  have hpayload := hrecordable.payload.2
  obtain rfl : size = payload.length := bigEndian_injective hsize (by omega) hlength
  obtain ⟨hsame, -⟩ := List.append_inj hafterSize hvalue
  exact ⟨identity_ext hrevision, hsame, toByte_injective hsource⟩

-- ---------------------------------------------------------------------------
-- The directory
-- ---------------------------------------------------------------------------

/-- A secret as far as a record tells it. -/
abbrev Written := CredentialIdentity → Bytes → CredentialSource → Prop

/-- Every record file is a part of the record of something written. -/
def Contents (written : Written) (records : Records) : Prop :=
  ∀ (id content : Bytes), records[id]? = some content →
    ∃ metadata payload bytes, encodeRecord metadata payload = some bytes ∧
      written metadata.revision payload metadata.source ∧ content <+: bytes

section Contents

variable {written : Written}

/-- No records hold no content. -/
theorem Contents.empty : Contents written ∅ := by
  intro id content h
  simp at h

/-- Contents stay what was written when more is written. -/
theorem Contents.mono {other : Written} {records : Records} (h : Contents written records)
    (hmono : ∀ revision payload source, written revision payload source →
      other revision payload source) : Contents other records := by
  intro id content hid
  obtain ⟨metadata, payload, bytes, hbytes, hwritten, hpart⟩ := h id content hid
  exact ⟨metadata, payload, bytes, hbytes, hmono _ _ _ hwritten, hpart⟩

/-- Erasing a record leaves the contents of the others. -/
theorem Contents.erase {records : Records} (h : Contents written records) (id : Bytes) :
    Contents written (records.erase id) := by
  intro other content hother
  rw [Std.ExtTreeMap.getElem?_erase] at hother
  split at hother
  · cases hother
  · exact h other content hother

/-- A record that encodes what was written may be added. -/
theorem Contents.insert {records : Records} (h : Contents written records)
    {metadata : PersistentMetadata} {payload bytes content : Bytes} (id : Bytes)
    (hbytes : encodeRecord metadata payload = some bytes)
    (hwritten : written metadata.revision payload metadata.source) (hpart : content <+: bytes) :
    Contents written (records.insert id content) := by
  intro other found hother
  rw [Std.ExtTreeMap.getElem?_insert] at hother
  split at hother
  · obtain rfl := Option.some.inj hother
    exact ⟨metadata, payload, bytes, hbytes, hwritten, hpart⟩
  · exact h other found hother

/-- A call that keeps the directory meaningful, however it ends. -/
def KeepsContents {α : Type} (written : Written) (m : Program α) : Prop :=
  ∀ s : Store, Contents written s.core.records →
    Yields m s (fun _ s' => Contents written s'.core.records)
      (fun _ s' => Contents written s'.core.records)

/-- The rule of sequencing. -/
theorem KeepsContents.bind {α γ : Type} {m : Program α} {f : α → Program γ}
    (h : KeepsContents written m) (hf : ∀ a, KeepsContents written (f a)) :
    KeepsContents written (m >>= f) :=
  fun s hs => Yields.bind (h s hs) fun a s' hs' => hf a s' hs'

theorem keepsContents_pure {α : Type} (a : α) : KeepsContents written (pure a) :=
  fun _ hs => hs

theorem keepsContents_throw {α : Type} (e : Interruption) :
    KeepsContents written (throw e : Program α) :=
  fun _ hs => hs

theorem keepsContents_throwWhen (bad : Bool) (e : Interruption) :
    KeepsContents written (throwWhen bad e) := by
  intro s hs
  rw [yields_throwWhen]
  exact ⟨fun _ => hs, fun _ => hs⟩

theorem keepsContents_get : KeepsContents written get :=
  fun _ hs => hs

theorem keepsContents_touch : KeepsContents written touch := by
  intro s hs
  refine (yields_touch fun _ s' hs' => ?_).mono (fun _ s' hs' => ?_) fun _ _ hs' => hs'
  · rw [hs']
    exact hs
  · rw [hs'.1]
    exact hs

/-- Publishing an index touches no record. -/
theorem keepsContents_publishIndex (entries : PersistentEntries) (cleanupId : Bytes) :
    KeepsContents written (publishIndex entries cleanupId) := by
  intro s hs
  refine (yields_publishIndex entries cleanupId s).mono (fun _ s' hs' => ?_) fun _ s' hs' => ?_
  · obtain ⟨_, -, hcore⟩ := hs'
    rw [hcore]
    exact hs
  · rcases hs' with hcore | ⟨_, -, hcore⟩
    · rw [hcore]
      exact hs
    · rw [hcore]
      exact hs

/-- Cleaning up a prior intent only erases records. -/
theorem keepsContents_cleanPriorIntent : KeepsContents written cleanPriorIntent := by
  unfold cleanPriorIntent
  refine keepsContents_get.bind fun s => ?_
  split
  · exact keepsContents_pure ()
  · refine KeepsContents.bind (fun s' hs' => ?_) fun _ => keepsContents_publishIndex _ _
    refine (yields_removeRecordIfPresent s.core.cleanupId s').mono (fun _ t ht => ?_)
      fun _ t ht => ?_
    · rw [ht]
      exact hs'.erase _
    · rcases ht with hcore | hcore
      · rw [hcore]
        exact hs'
      · rw [hcore]
        exact hs'.erase _

/-- Settling a committed cleanup only erases records. -/
theorem keepsContents_settle : KeepsContents written settleCommittedCleanupNoThrow := by
  intro s hs
  exact yields_catchFailures (keepsContents_cleanPriorIntent s hs)

/-- Opening the store only erases records. -/
theorem keepsContents_ensureOpen : KeepsContents written ensureOpen := by
  unfold ensureOpen
  refine keepsContents_touch.bind fun _ => keepsContents_get.bind fun s => ?_
  split
  · exact keepsContents_pure ()
  · split
    · exact fun _ hs => hs
    · refine (keepsContents_throwWhen _ _).bind fun _ => ?_
      split
      · exact keepsContents_throw _
      · exact fun _ hs => hs

/-- A record is written with what the request gave it. -/
theorem keepsContents_writeRecord {metadata : PersistentMetadata} {payload : Bytes}
    (hwritten : written metadata.revision payload metadata.source) :
    KeepsContents written (writeRecord metadata payload) := by
  intro s hs
  refine (yields_writeRecord metadata payload s).mono (fun _ s' hs' => ?_) fun _ s' hs' => ?_
  · obtain ⟨bytes, hbytes, -, hcore⟩ := hs'
    rw [hcore]
    exact hs.insert _ hbytes hwritten ⟨[], List.append_nil bytes⟩
  · rcases hs' with hcore | ⟨-, content, bytes, hbytes, hpart, hcore⟩
    · rw [hcore]
      exact hs
    · rw [hcore]
      exact hs.insert _ hbytes hwritten hpart

/-- Storing a secret writes its own revision and payload, whatever the old entry is
taken for. -/
theorem keepsContents_storePersistent (request : StoreRequest)
    (hwritten : written request.new.secret.revision request.new.secret.payload
      request.new.secret.source) : KeepsContents written (storePersistent request) := by
  have hpublish (key : Bytes) (found : Option PersistentMetadata) :
      KeepsContents written (publishSecret request key found) := by
    unfold publishSecret
    refine keepsContents_get.bind fun _ => keepsContents_cleanPriorIntent.bind fun _ =>
      keepsContents_get.bind fun _ => (keepsContents_publishIndex _ _).bind fun _ => ?_
    refine KeepsContents.bind (keepsContents_writeRecord hwritten) fun _ => ?_
    exact keepsContents_get.bind fun _ => (keepsContents_publishIndex _ _).bind fun _ =>
      keepsContents_settle.bind fun _ => keepsContents_pure _
  unfold storePersistent
  refine (keepsContents_throwWhen _ _).bind fun _ => (keepsContents_throwWhen _ _).bind fun _ =>
    keepsContents_ensureOpen.bind fun _ => ?_
  split
  · exact keepsContents_throw _
  · refine keepsContents_get.bind fun _ => ?_
    split
    · split
      · exact keepsContents_throw _
      · exact keepsContents_pure _
      · exact hpublish _ _
      · exact keepsContents_throw _
    · exact (keepsContents_throwWhen _ _).bind fun _ =>
        (keepsContents_throwWhen _ _).bind fun _ => hpublish _ _

/-- Dropping a credential only erases records. -/
theorem keepsContents_dropPersistent (request : DropRequest) :
    KeepsContents written (dropPersistent request) := by
  have hpublish (key : Bytes) (found : PersistentMetadata) :
      KeepsContents written (publishDrop request key found) := by
    unfold publishDrop
    exact keepsContents_get.bind fun _ => keepsContents_cleanPriorIntent.bind fun _ =>
      keepsContents_get.bind fun _ => (keepsContents_publishIndex _ _).bind fun _ =>
      keepsContents_settle
  unfold dropPersistent
  refine (keepsContents_throwWhen _ _).bind fun _ => keepsContents_ensureOpen.bind fun _ => ?_
  split
  · exact keepsContents_throw _
  · refine keepsContents_get.bind fun _ => ?_
    split
    · exact keepsContents_throwWhen _ _
    · exact hpublish _ _

/-- A record is read as it was written. -/
theorem yields_readRecordFile (found : PersistentMetadata) {s : Store}
    (hs : Contents written s.core.records) :
    Yields (readRecordFile found) s
      (fun secret s' => Contents written s'.core.records ∧
        written secret.revision secret.payload secret.source)
      (fun _ s' => Contents written s'.core.records) := by
  unfold readRecordFile recordFile
  refine Yields.bind (keepsContents_throwWhen _ _ s hs) fun _ s₁ h₁ => ?_
  refine Yields.bind (keepsContents_touch s₁ h₁) fun _ s₂ h₂ => ?_
  rw [yields_bind, yields_get]
  split
  · exact h₂
  · rename_i content hcontent
    refine Yields.bind (R := fun _ s' => s' = s₂) ?_ fun _ s₃ h₃ => ?_
    · rw [yields_throwWhen]
      exact ⟨fun _ => h₂, fun _ => rfl⟩
    subst h₃
    split
    · exact h₂
    · rename_i secret hsecret
      obtain ⟨metadata, payload, bytes, hbytes, hwritten, hpart⟩ := h₂ _ content hcontent
      obtain ⟨hrevision, hpayload, hsource⟩ := decodeRecord_part hbytes hpart hsecret
      rw [yields_pure, hrevision, hpayload, hsource]
      exact ⟨h₂, hwritten⟩

/-- A persistent credential that is selected was stored. -/
theorem yields_selectPersistentCredential (enabled : Bool) (name : Bytes) (memorySelected : Bool)
    {s : Store} (hs : Contents written s.core.records) :
    Yields (selectPersistentCredential enabled name memorySelected) s
      (fun result s' => Contents written s'.core.records ∧ ∀ secret, result = some secret →
        written secret.revision secret.payload secret.source)
      (fun _ s' => Contents written s'.core.records) := by
  have hnone (s' : Store) (hs' : Contents written s'.core.records) :
      Contents written s'.core.records ∧ ∀ secret, (none : Option CuacSecret) = some secret →
        written secret.revision secret.payload secret.source :=
    ⟨hs', fun _ hsome => nomatch hsome⟩
  unfold selectPersistentCredential
  split
  · exact hnone s hs
  · refine Yields.bind (keepsContents_ensureOpen s hs) fun _ s₁ h₁ => ?_
    split
    · exact h₁
    · rw [yields_bind, yields_get]
      split
      · exact hnone s₁ h₁
      · refine Yields.bind (keepsContents_throwWhen _ _ s₁ h₁) fun _ s₂ h₂ => ?_
        refine Yields.bind (yields_readRecordFile _ h₂) fun secret s₃ h₃ => ?_
        rw [yields_pure]
        refine ⟨h₃.1, fun other hother => ?_⟩
        obtain rfl := Option.some.inj hother
        exact h₃.2

end Contents

end Cuac.Credential

import Mathlib.Algebra.GroupWithZero.Nat
import Std.Data.ExtTreeMap.Lemmas
import Mathlib.Data.List.Nodup
import Cuac.Lib.Wire

/-!
# The credential codec

The persistent credential store keeps an index file and one record file for each
credential. Both are binary, begin with a magic word and end with an FNV-style
checksum of everything before it.

Every failure of the codec is the same storage failure, so a function here
returns `none` where the source throws it. `StringUtil::Lower` is ASCII
lowercasing.

Main results:

* `encodeIndexOf_eq_some` and `decodeIndex_eq_some` — what the two directions of
  the index codec accept.
* `index_record_codec` — round trips, what is accepted was encodable, and no
  changed byte goes unnoticed.
-/

namespace Cuac.Credential

open Cuac.Lib

-- ---------------------------------------------------------------------------
-- Data
-- ---------------------------------------------------------------------------

def maxIndexBytes : Nat := 128 * 1024
def maxRecordBytes : Nat := 16 * 1024
def maxLiveRecords : Nat := 256

def indexMagic : Bytes := ascii "DAPIIDX1"
def recordMagic : Bytes := ascii "DAPIREC1"

inductive CredentialSource
  | config
  | environment
  deriving DecidableEq, Repr

def CredentialSource.toByte : CredentialSource → UInt8
  | .config => 1
  | .environment => 2

/-- `ParseSource` -/
def parseSource (value : UInt8) : Option CredentialSource :=
  if value == CredentialSource.config.toByte then some .config
  else if value == CredentialSource.environment.toByte then some .environment
  else none

/-- Sixteen bytes. -/
structure CredentialIdentity where
  bytes : Bytes
  size : bytes.length = 16
  deriving DecidableEq

def isNonZeroIdentity (identity : CredentialIdentity) : Bool :=
  identity.bytes.any (· != 0)

structure PersistentMetadata where
  name : Bytes
  source : CredentialSource
  authority : CredentialIdentity
  revision : CredentialIdentity
  recordId : Bytes
  deriving DecidableEq

/-- `std::map<std::string, PersistentMetadata>`, ordered by the bytes of the key. -/
abbrev PersistentEntries := Std.ExtTreeMap Bytes PersistentMetadata compare

/-- What `DecodeRecord` returns. -/
structure CuacSecret where
  source : CredentialSource
  name : Bytes
  payload : Bytes
  authority : CredentialIdentity
  revision : CredentialIdentity
  deriving DecidableEq

def isHexId (value : Bytes) : Bool :=
  value.length == 32 &&
    value.all fun b => (byte '0' ≤ b && b ≤ byte '9') || (byte 'a' ≤ b && b ≤ byte 'f')

/-- ASCII lowercase of one byte. -/
def lowerByte (b : UInt8) : UInt8 :=
  if byte 'A' ≤ b && b ≤ byte 'Z' then b + 0x20 else b

def normalizedName (name : Bytes) : Option Bytes :=
  if name.isEmpty then none else some (name.map lowerByte)

-- ---------------------------------------------------------------------------
-- Checksum
-- ---------------------------------------------------------------------------

/-- One turn of the checksum loop. -/
def checksumStep (result : UInt64) (b : UInt8) : UInt64 :=
  (result ^^^ b.toUInt64) * 1099511628211

def checksum (bytes : Bytes) : UInt64 :=
  bytes.foldl checksumStep 1469598103934665603

/-- The multiplier is odd, so it has an inverse. -/
def checksumInverse : UInt64 := 14886173955864302971

-- ---------------------------------------------------------------------------
-- The index
-- ---------------------------------------------------------------------------

/-- The bytes that `AppendString` appends. -/
def appendString (value : Bytes) : Option Bytes :=
  if value.isEmpty || 65535 < value.length then none
  else some (bigEndian 2 value.length ++ value)

/-- The test on a record id, made in both directions. -/
def isFreshRecordId (cleanupId : Bytes) (recordIds : List Bytes) (recordId : Bytes) : Bool :=
  isHexId recordId && !recordIds.contains recordId &&
    !(!cleanupId.isEmpty && recordId == cleanupId)

/-- The loop over the entries. -/
def encodeEntries (cleanupId : Bytes) : List Bytes → List PersistentMetadata → Option Bytes
  | _, [] => some []
  | recordIds, entry :: rest =>
    if !isFreshRecordId cleanupId recordIds entry.recordId then none
    else do
      let name ← appendString entry.name
      let recordId ← appendString entry.recordId
      let tail ← encodeEntries cleanupId (entry.recordId :: recordIds) rest
      some (name ++ entry.source.toByte :: (entry.authority.bytes ++ (entry.revision.bytes ++
        (recordId ++ tail))))

/-- The cleanup flag, and the id that follows it. -/
def encodeCleanup (cleanupId : Bytes) : Option Bytes :=
  if cleanupId.isEmpty then some [0]
  else do
    let id ← appendString cleanupId
    some (1 :: id)

/-- `EncodeIndex`, over the entries in the order of their iteration. -/
def encodeIndexOf (order : List PersistentMetadata) (cleanupId : Bytes) : Option Bytes :=
  if maxLiveRecords < order.length || (!cleanupId.isEmpty && !isHexId cleanupId) then none
  else do
    let cleanup ← encodeCleanup cleanupId
    let entries ← encodeEntries cleanupId [] order
    let result := stamp checksum (indexMagic ++ (bigEndian 4 order.length ++ (cleanup ++ entries)))
    if maxIndexBytes < result.length then none else some result

/-- The entries of a map in the order of their keys. -/
def entriesInOrder (entries : PersistentEntries) : List PersistentMetadata :=
  entries.toList.map Prod.snd

def encodeIndex (entries : PersistentEntries) (cleanupId : Bytes) : Option Bytes :=
  encodeIndexOf (entriesInOrder entries) cleanupId

def readString : Reader Bytes := do
  let length ← Reader.uint 2
  Reader.require (length != 0)
  Reader.take length

def readIdentity : Reader CredentialIdentity := do
  let bytes ← Reader.take 16
  let identity ← Reader.ofOption (if h : bytes.length = 16 then some ⟨bytes, h⟩ else none)
  Reader.require (isNonZeroIdentity identity)
  pure identity

def readMagic (expected : Bytes) : Reader Unit := do
  let bytes ← Reader.take 8
  Reader.require (bytes == expected)

def readSource : Reader CredentialSource := do
  let value ← Reader.u8
  Reader.ofOption (parseSource value)

/-- The fields of one entry. -/
def readEntry : Reader PersistentMetadata := do
  let name ← readString
  let source ← readSource
  let authority ← readIdentity
  let revision ← readIdentity
  let recordId ← readString
  pure ⟨name, source, authority, revision, recordId⟩

/-- The loop over the entries. -/
def readEntries (cleanupId : Bytes) :
    Nat → List Bytes → PersistentEntries → Reader PersistentEntries
  | 0, _, decoded => pure decoded
  | count + 1, recordIds, decoded => do
    let entry ← readEntry
    Reader.require (isFreshRecordId cleanupId recordIds entry.recordId)
    let key ← Reader.ofOption (normalizedName entry.name)
    Reader.require (!decoded.contains key)
    readEntries cleanupId count (entry.recordId :: recordIds) (decoded.insert key entry)

/-- `has_cleanup ? reader.String() : std::string()` -/
def readCleanupId (hasCleanup : UInt8) : Reader Bytes :=
  if hasCleanup == 0 then pure [] else readString

/-- The cleanup flag, and the id that follows it. -/
def readCleanup : Reader Bytes := do
  let hasCleanup ← Reader.u8
  Reader.require (hasCleanup ≤ 1)
  let cleanupId ← readCleanupId hasCleanup
  Reader.require (cleanupId.isEmpty || isHexId cleanupId)
  pure cleanupId

def readIndex : Reader (PersistentEntries × Bytes) := do
  readMagic indexMagic
  let count ← Reader.uint 4
  Reader.require (count ≤ maxLiveRecords)
  let cleanupId ← readCleanup
  let entries ← readEntries cleanupId count [] ∅
  pure (entries, cleanupId)

/-- Opens a stamped record of at least `minimum` bytes and reads it to its end. -/
def readStamped {α : Type} (minimum : Nat) (reader : Reader α) (bytes : Bytes) : Option α :=
  if bytes.length < minimum then none
  else
    match unstamp checksum bytes with
    | none => none
    | some body =>
      match reader.run body with
      | some (result, []) => some result
      | _ => none

def decodeIndex (bytes : Bytes) : Option (PersistentEntries × Bytes) :=
  readStamped (8 + 4 + 1 + 8) readIndex bytes

-- ---------------------------------------------------------------------------
-- Records
-- ---------------------------------------------------------------------------

def encodeRecord (metadata : PersistentMetadata) (payload : Bytes) : Option Bytes := do
  let recordId ← appendString metadata.recordId
  let name ← appendString metadata.name
  if payload.isEmpty || 8192 < payload.length then none
  else
    let result := stamp checksum (recordMagic ++ (recordId ++ (name ++ metadata.source.toByte ::
      (metadata.authority.bytes ++ (metadata.revision.bytes ++
        (bigEndian 4 payload.length ++ payload))))))
    if maxRecordBytes < result.length then none else some result

def readRecord (expected : PersistentMetadata) : Reader CuacSecret := do
  readMagic recordMagic
  let recordId ← readString
  let name ← readString
  let source ← readSource
  let authority ← readIdentity
  let revision ← readIdentity
  let valueSize ← Reader.uint 4
  Reader.require (valueSize != 0 && valueSize ≤ 8192)
  let payload ← Reader.take valueSize
  Reader.require (recordId == expected.recordId && name == expected.name &&
    source == expected.source && authority == expected.authority && revision == expected.revision)
  pure ⟨source, name, payload, authority, revision⟩

def decodeRecord (bytes : Bytes) (expected : PersistentMetadata) : Option CuacSecret :=
  readStamped (8 + 2 + 2 + 1 + 16 + 16 + 4 + 8) (readRecord expected) bytes

-- ---------------------------------------------------------------------------
-- The checksum loses nothing
-- ---------------------------------------------------------------------------

theorem lossless_checksumStep : Lossless checksumStep := by
  have hcancel : ∀ s t : UInt64, s * 1099511628211 = t * 1099511628211 → s = t := by
    intro s t h
    have hinverse : (1099511628211 : UInt64) * checksumInverse = 1 := by decide
    have hboth := congrArg (· * checksumInverse) h
    simpa only [UInt64.mul_assoc, hinverse, UInt64.mul_one] using hboth
  refine ⟨fun b s t h => ?_, fun s b c h => ?_⟩
  · have hxor := hcancel _ _ h
    exact (UInt64.xor_left_inj _).mp hxor
  · have hxor := hcancel _ _ h
    have hbytes : b.toUInt64 = c.toUInt64 := (UInt64.xor_right_inj _).mp hxor
    have hnat := congrArg UInt64.toNat hbytes
    rw [UInt8.toNat_toUInt64, UInt8.toNat_toUInt64] at hnat
    exact UInt8.toNat_inj.mp hnat

-- ---------------------------------------------------------------------------
-- Fields
-- ---------------------------------------------------------------------------

/-- A string and its length. -/
def stringBytes (value : Bytes) : Bytes := bigEndian 2 value.length ++ value

/-- A string that can be written. -/
def FitsString (value : Bytes) : Prop := value ≠ [] ∧ value.length ≤ 65535

instance (value : Bytes) : Decidable (FitsString value) := inferInstanceAs (Decidable (_ ∧ _))

theorem appendString_eq_some {value bytes : Bytes} :
    appendString value = some bytes ↔ FitsString value ∧ bytes = stringBytes value := by
  unfold appendString FitsString stringBytes
  split
  · rename_i hbad
    simp only [Bool.or_eq_true, List.isEmpty_iff, decide_eq_true_eq] at hbad
    constructor
    · intro h
      cases h
    · rintro ⟨⟨hne, hsize⟩, -⟩
      rcases hbad with hempty | hlong
      · exact absurd hempty hne
      · omega
  · rename_i hgood
    simp only [Bool.or_eq_true, List.isEmpty_iff, decide_eq_true_eq, not_or, Nat.not_lt] at hgood
    rw [Option.some.injEq]
    exact ⟨fun h => ⟨hgood, h.symm⟩, fun h => h.2.symm⟩

@[simp] theorem run_readString {value input rest : Bytes} :
    readString.run input = some (value, rest) ↔
      FitsString value ∧ input = stringBytes value ++ rest := by
  simp only [readString, Reader.run_bind, Reader.run_uint, Reader.run_require, Reader.run_take,
    bne_iff_ne, FitsString, stringBytes]
  constructor
  · rintro ⟨length, mid, ⟨hlength, rfl⟩, _, _, ⟨hne, rfl⟩, rfl, rfl⟩
    refine ⟨⟨List.length_pos_iff.mp (Nat.pos_of_ne_zero hne), by omega⟩, ?_⟩
    rw [List.append_assoc]
  · rintro ⟨⟨hne, hsize⟩, rfl⟩
    have hpos := List.length_pos_iff.mpr hne
    exact ⟨value.length, value ++ rest, ⟨by omega, by rw [List.append_assoc]⟩, (), value ++ rest,
      ⟨by omega, rfl⟩, rfl, rfl⟩

@[simp] theorem run_readIdentity {identity : CredentialIdentity} {input rest : Bytes} :
    readIdentity.run input = some (identity, rest) ↔
      isNonZeroIdentity identity = true ∧ input = identity.bytes ++ rest := by
  simp only [readIdentity, Reader.run_bind, Reader.run_take, Reader.run_ofOption,
    Reader.run_require, Reader.run_pure]
  constructor
  · rintro ⟨bytes, mid, ⟨hsize, rfl⟩, found, _, ⟨hfound, rfl⟩, _, _, ⟨hnonzero, rfl⟩, rfl, rfl⟩
    rw [dif_pos hsize] at hfound
    obtain rfl := Option.some.inj hfound
    exact ⟨hnonzero, rfl⟩
  · rintro ⟨hnonzero, rfl⟩
    exact ⟨identity.bytes, rest, ⟨identity.size, rfl⟩, identity, rest,
      ⟨by rw [dif_pos identity.size], rfl⟩, (), rest, ⟨hnonzero, rfl⟩, rfl, rfl⟩

theorem run_readMagic {magic input rest : Bytes} (hmagic : magic.length = 8) {u : Unit} :
    (readMagic magic).run input = some (u, rest) ↔ input = magic ++ rest := by
  simp only [readMagic, Reader.run_bind, Reader.run_take, Reader.run_require, beq_iff_eq]
  constructor
  · rintro ⟨bytes, mid, ⟨-, rfl⟩, rfl, rfl⟩
    rfl
  · rintro rfl
    exact ⟨magic, rest, ⟨hmagic, rfl⟩, rfl, rfl⟩

theorem parseSource_eq_some {value : UInt8} {source : CredentialSource} :
    parseSource value = some source ↔ value = source.toByte := by
  unfold parseSource
  constructor
  · intro h
    split at h
    · rename_i hvalue
      obtain rfl := Option.some.inj h
      exact eq_of_beq hvalue
    · split at h
      · rename_i hvalue
        obtain rfl := Option.some.inj h
        exact eq_of_beq hvalue
      · cases h
  · rintro rfl
    cases source <;> rfl

@[simp] theorem run_readSource {source : CredentialSource} {input rest : Bytes} :
    readSource.run input = some (source, rest) ↔ input = source.toByte :: rest := by
  simp only [readSource, Reader.run_bind, Reader.run_u8, Reader.run_ofOption, parseSource_eq_some]
  constructor
  · rintro ⟨value, mid, rfl, rfl, rfl⟩
    rfl
  · rintro rfl
    exact ⟨source.toByte, rest, rfl, rfl, rfl⟩

-- ---------------------------------------------------------------------------
-- Entries
-- ---------------------------------------------------------------------------

/-- The bytes of one entry. -/
def entryBytes (entry : PersistentMetadata) : Bytes :=
  stringBytes entry.name ++ entry.source.toByte :: (entry.authority.bytes ++
    (entry.revision.bytes ++ stringBytes entry.recordId))

/-- Nonzero identities. -/
def HasIdentities (entry : PersistentMetadata) : Prop :=
  isNonZeroIdentity entry.authority = true ∧ isNonZeroIdentity entry.revision = true

instance (entry : PersistentMetadata) : Decidable (HasIdentities entry) :=
  inferInstanceAs (Decidable (_ ∧ _))

theorem run_readEntry {entry : PersistentMetadata} {input rest : Bytes} :
    readEntry.run input = some (entry, rest) ↔
      FitsString entry.name ∧ FitsString entry.recordId ∧ HasIdentities entry ∧
        input = entryBytes entry ++ rest := by
  simp only [readEntry, Reader.run_bind, run_readString, run_readSource, run_readIdentity,
    Reader.run_pure, entryBytes, HasIdentities]
  constructor
  · rintro ⟨name, _, ⟨hname, rfl⟩, source, _, rfl, authority, _, ⟨hauthority, rfl⟩, revision, _,
      ⟨hrevision, rfl⟩, recordId, _, ⟨hid, rfl⟩, rfl, rfl⟩
    refine ⟨hname, hid, ⟨hauthority, hrevision⟩, ?_⟩
    simp only [List.append_assoc, List.cons_append]
  · rintro ⟨hname, hid, ⟨hauthority, hrevision⟩, rfl⟩
    refine ⟨entry.name, _, ⟨hname, ?_⟩, entry.source, _, rfl, entry.authority, _,
      ⟨hauthority, rfl⟩, entry.revision, _, ⟨hrevision, rfl⟩, entry.recordId, rest, ⟨hid, rfl⟩,
      rfl, rfl⟩
    simp only [List.append_assoc, List.cons_append]

theorem isHexId_length {value : Bytes} (h : isHexId value = true) : value.length = 32 := by
  simp only [isHexId, Bool.and_eq_true, beq_iff_eq] at h
  exact h.1

theorem fitsString_of_isHexId {value : Bytes} (h : isHexId value = true) : FitsString value := by
  have hlength := isHexId_length h
  exact ⟨List.length_pos_iff.mp (by omega), by omega⟩

/-- The key of an entry. -/
def entryKey (entry : PersistentMetadata) : Bytes := entry.name.map lowerByte

theorem normalizedName_eq_some {name key : Bytes} (h : name ≠ []) :
    normalizedName name = some key ↔ key = name.map lowerByte := by
  rw [normalizedName, if_neg (by simpa using h), Option.some.injEq]
  exact eq_comm

theorem isFreshRecordId_iff {cleanupId recordId : Bytes} {recordIds : List Bytes} :
    isFreshRecordId cleanupId recordIds recordId = true ↔
      isHexId recordId = true ∧ recordId ∉ recordIds ∧ recordId ≠ cleanupId := by
  unfold isFreshRecordId
  simp only [Bool.and_eq_true, Bool.not_eq_true', Bool.and_eq_false_iff, Bool.not_eq_false',
    List.isEmpty_iff, beq_eq_false_iff_ne, List.contains_eq_mem, decide_eq_false_iff_not, and_assoc]
  constructor
  · rintro ⟨hhex, hnew, hcleanup⟩
    refine ⟨hhex, hnew, ?_⟩
    rcases hcleanup with rfl | hne
    · intro hempty
      exact absurd (isHexId_length hhex) (by rw [hempty]; decide)
    · exact hne
  · rintro ⟨hhex, hnew, hne⟩
    exact ⟨hhex, hnew, Or.inr hne⟩

/-- Entries that an index can hold beside a cleanup id, with ids other than the
ones already `seen`. -/
structure Listable (cleanupId : Bytes) (seen : List Bytes) (order : List PersistentMetadata) :
    Prop where
  names : ∀ entry ∈ order, FitsString entry.name
  hex : ∀ entry ∈ order, isHexId entry.recordId = true
  fresh : ∀ entry ∈ order, entry.recordId ∉ seen ∧ entry.recordId ≠ cleanupId
  distinct : (order.map (·.recordId)).Nodup

theorem listable_nil (cleanupId : Bytes) (seen : List Bytes) : Listable cleanupId seen [] := by
  refine ⟨?_, ?_, ?_, List.nodup_nil⟩ <;>
    exact fun entry hentry => absurd hentry List.not_mem_nil

/-- One entry and the rest. -/
theorem listable_cons {cleanupId : Bytes} {seen : List Bytes} {entry : PersistentMetadata}
    {rest : List PersistentMetadata} :
    Listable cleanupId seen (entry :: rest) ↔
      FitsString entry.name ∧ isFreshRecordId cleanupId seen entry.recordId = true ∧
        Listable cleanupId (entry.recordId :: seen) rest := by
  rw [isFreshRecordId_iff]
  constructor
  · rintro ⟨hnames, hhex, hfresh, hdistinct⟩
    rw [List.map_cons, List.nodup_cons] at hdistinct
    refine ⟨hnames entry List.mem_cons_self, ⟨hhex entry List.mem_cons_self,
      hfresh entry List.mem_cons_self⟩, fun other hother => hnames other
      (List.mem_cons_of_mem _ hother), fun other hother => hhex other
      (List.mem_cons_of_mem _ hother), fun other hother => ?_, hdistinct.2⟩
    obtain ⟨hseen, hcleanup⟩ := hfresh other (List.mem_cons_of_mem _ hother)
    refine ⟨fun hmem => ?_, hcleanup⟩
    rcases List.mem_cons.mp hmem with hsame | hmem
    · exact hdistinct.1 (List.mem_map.mpr ⟨other, hother, hsame⟩)
    · exact hseen hmem
  · rintro ⟨hname, ⟨hhex, hseen, hcleanup⟩, hrest⟩
    refine ⟨List.forall_mem_cons.mpr ⟨hname, hrest.names⟩,
      List.forall_mem_cons.mpr ⟨hhex, hrest.hex⟩,
      List.forall_mem_cons.mpr ⟨⟨hseen, hcleanup⟩, fun other hother => ?_⟩, ?_⟩
    · obtain ⟨hother', hne⟩ := hrest.fresh other hother
      exact ⟨fun hmem => hother' (List.mem_cons_of_mem _ hmem), hne⟩
    · rw [List.map_cons, List.nodup_cons]
      refine ⟨fun hmem => ?_, hrest.distinct⟩
      obtain ⟨other, hother, hsame⟩ := List.mem_map.mp hmem
      exact (hrest.fresh other hother).1 (hsame ▸ List.mem_cons_self)

/-- The encoder writes the entries one after the other, and refuses what the index cannot list. -/
theorem encodeEntries_eq_some {cleanupId bytes : Bytes} {seen : List Bytes}
    {order : List PersistentMetadata} :
    encodeEntries cleanupId seen order = some bytes ↔
      Listable cleanupId seen order ∧ bytes = order.flatMap entryBytes := by
  induction order generalizing seen bytes with
  | nil =>
    rw [encodeEntries, Option.some.injEq, List.flatMap_nil]
    have hlisted : Listable cleanupId seen [] := listable_nil cleanupId seen
    exact ⟨fun hnone => ⟨hlisted, hnone.symm⟩, fun h => h.2.symm⟩
  | cons entry rest ih =>
    rw [encodeEntries, listable_cons, List.flatMap_cons]
    by_cases hid : isFreshRecordId cleanupId seen entry.recordId = true
    · -- A fresh record id is hexadecimal, so its own field fits.
      have hfits : FitsString entry.recordId := fitsString_of_isHexId (isFreshRecordId_iff.mp hid).1
      rw [hid, Bool.not_true, if_neg Bool.false_ne_true]
      simp only [Option.bind_eq_bind, Option.bind_eq_some_iff, appendString_eq_some, ih,
        Option.some.injEq, entryBytes, true_and]
      constructor
      · intro hencoded
        obtain ⟨_, ⟨hname, rfl⟩, _, ⟨-, rfl⟩, _, ⟨hrest, rfl⟩, rfl⟩ := hencoded
        refine ⟨⟨hname, hrest⟩, ?_⟩
        simp only [List.append_assoc, List.cons_append]
      · intro hlisted
        obtain ⟨⟨hname, hrest⟩, rfl⟩ := hlisted
        refine ⟨_, ⟨hname, rfl⟩, _, ⟨hfits, rfl⟩, _, ⟨hrest, rfl⟩, ?_⟩
        simp only [List.append_assoc, List.cons_append]
    · -- A record id that is not fresh is refused, and no such entry can be listed.
      rw [Bool.not_eq_true] at hid
      rw [hid, Bool.not_false, if_pos rfl]
      constructor
      · intro hnone
        cases hnone
      · intro hlisted
        obtain ⟨⟨-, hfresh, -⟩, -⟩ := hlisted
        cases hfresh

/-- The map that inserting the entries one after the other gives. -/
def insertAll (decoded : PersistentEntries) (order : List PersistentMetadata) :
    PersistentEntries :=
  order.foldl (fun decoded entry => decoded.insert (entryKey entry) entry) decoded

theorem not_contains_iff {decoded : PersistentEntries} {key : Bytes} :
    (!decoded.contains key) = true ↔ key ∉ decoded := by
  rw [Std.ExtTreeMap.mem_iff_contains, Bool.not_eq_true', Bool.not_eq_true]

theorem run_readEntries {cleanupId input rest : Bytes} {count : Nat} {seen : List Bytes}
    {decoded entries : PersistentEntries} :
    (readEntries cleanupId count seen decoded).run input = some (entries, rest) ↔
      ∃ order, order.length = count ∧ Listable cleanupId seen order ∧
        (∀ entry ∈ order, HasIdentities entry) ∧ (order.map entryKey).Nodup ∧
        (∀ entry ∈ order, entryKey entry ∉ decoded) ∧ entries = insertAll decoded order ∧
        input = order.flatMap entryBytes ++ rest := by
  induction count generalizing seen decoded input with
  | zero =>
    rw [readEntries, Reader.run_pure]
    constructor
    · rintro ⟨rfl, rfl⟩
      exact ⟨[], rfl, listable_nil cleanupId seen, by simp, List.nodup_nil, by simp, rfl, rfl⟩
    · rintro ⟨order, hlength, -, -, -, -, rfl, rfl⟩
      obtain rfl := List.eq_nil_of_length_eq_zero hlength
      exact ⟨rfl, rfl⟩
  | succ count ih =>
    simp only [readEntries, Reader.run_bind, run_readEntry, Reader.run_require,
      Reader.run_ofOption, ih]
    constructor
    · rintro ⟨entry, _, ⟨hname, -, hidentities, rfl⟩, _, _, ⟨hid, rfl⟩, key, _, ⟨hkey, rfl⟩, _, _,
        ⟨hnew, rfl⟩, order, rfl, hlistable, hall, hkeys, hfresh, rfl, rfl⟩
      obtain rfl := (normalizedName_eq_some hname.1).mp hkey
      have hnew : entryKey entry ∉ decoded := not_contains_iff.mp hnew
      have hother : ∀ other ∈ order, entryKey other ≠ entryKey entry ∧
          entryKey other ∉ decoded := by
        intro other hmem
        have hnot := hfresh other hmem
        simp only [Std.ExtTreeMap.mem_insert, not_or, Std.compare_eq_iff_eq] at hnot
        exact ⟨fun hsame => hnot.1 hsame.symm, hnot.2⟩
      refine ⟨entry :: order, rfl, listable_cons.mpr ⟨hname, hid, hlistable⟩,
        List.forall_mem_cons.mpr ⟨hidentities, hall⟩, ?_,
        List.forall_mem_cons.mpr ⟨hnew, fun other hmem => (hother other hmem).2⟩, rfl, ?_⟩
      · rw [List.map_cons, List.nodup_cons]
        refine ⟨fun hmem => ?_, hkeys⟩
        obtain ⟨other, hmem, hsame⟩ := List.mem_map.mp hmem
        exact (hother other hmem).1 hsame
      · rw [List.flatMap_cons, List.append_assoc]
    · rintro ⟨order, hlength, hlistable, hall, hkeys, hfresh, rfl, rfl⟩
      obtain ⟨entry, rest', rfl⟩ := List.exists_cons_of_length_eq_add_one hlength
      obtain ⟨hname, hid, hrest⟩ := listable_cons.mp hlistable
      rw [List.map_cons, List.nodup_cons] at hkeys
      have hfits := fitsString_of_isHexId (isFreshRecordId_iff.mp hid).1
      refine ⟨entry, rest'.flatMap entryBytes ++ rest, ⟨hname, hfits, hall entry
        List.mem_cons_self, by rw [List.flatMap_cons, List.append_assoc]⟩, (), _, ⟨hid, rfl⟩,
        entryKey entry, _, ⟨(normalizedName_eq_some hname.1).mpr rfl, rfl⟩, (), _,
        ⟨not_contains_iff.mpr (hfresh entry List.mem_cons_self), rfl⟩, rest', by simpa using hlength, hrest,
        fun other hmem => hall other (List.mem_cons_of_mem _ hmem), hkeys.2, fun other hmem => ?_,
        rfl, rfl⟩
      simp only [Std.ExtTreeMap.mem_insert, not_or, Std.compare_eq_iff_eq]
      refine ⟨fun hsame => hkeys.1 (List.mem_map.mpr ⟨other, hmem, hsame.symm⟩),
        hfresh other (List.mem_cons_of_mem _ hmem)⟩

-- ---------------------------------------------------------------------------
-- The index
-- ---------------------------------------------------------------------------

/-- The cleanup flag and id. -/
def cleanupBytes (cleanupId : Bytes) : Bytes :=
  if cleanupId.isEmpty then [0] else 1 :: stringBytes cleanupId

/-- An index of the entries in this order. -/
def indexBytes (order : List PersistentMetadata) (cleanupId : Bytes) : Bytes :=
  stamp checksum (indexMagic ++ (bigEndian 4 order.length ++
    (cleanupBytes cleanupId ++ order.flatMap entryBytes)))

/-- What an index can hold, but for its size. -/
structure Encodable (order : List PersistentMetadata) (cleanupId : Bytes) : Prop where
  count : order.length ≤ maxLiveRecords
  cleanup : cleanupId = [] ∨ isHexId cleanupId = true
  listable : Listable cleanupId [] order

theorem encodeCleanup_eq_some {cleanupId bytes : Bytes}
    (h : cleanupId = [] ∨ isHexId cleanupId = true) :
    encodeCleanup cleanupId = some bytes ↔ bytes = cleanupBytes cleanupId := by
  unfold encodeCleanup cleanupBytes
  rcases h with rfl | hhex
  · rw [List.isEmpty_nil, if_pos rfl, if_pos rfl, Option.some.injEq]
    exact eq_comm
  · have hfits := fitsString_of_isHexId hhex
    have hne : ¬cleanupId.isEmpty = true := by simpa using hfits.1
    rw [if_neg hne, if_neg hne]
    simp only [Option.bind_eq_bind, Option.bind_eq_some_iff, appendString_eq_some,
      Option.some.injEq]
    constructor
    · rintro ⟨_, ⟨-, rfl⟩, rfl⟩
      rfl
    · rintro rfl
      exact ⟨_, ⟨hfits, rfl⟩, rfl⟩

/-- What the encoder accepts, and what it writes. -/
theorem encodeIndexOf_eq_some {order : List PersistentMetadata} {cleanupId bytes : Bytes} :
    encodeIndexOf order cleanupId = some bytes ↔
      Encodable order cleanupId ∧ bytes = indexBytes order cleanupId ∧
        bytes.length ≤ maxIndexBytes := by
  unfold encodeIndexOf
  split
  · rename_i hbad
    constructor
    · intro h
      cases h
    · rintro ⟨⟨hcount, hcleanup, -⟩, -⟩
      simp only [Bool.or_eq_true, decide_eq_true_eq, Bool.and_eq_true, Bool.not_eq_true'] at hbad
      rcases hbad with hlong | ⟨hne, hhex⟩
      · omega
      · rcases hcleanup with rfl | hhex'
        · cases hne
        · rw [hhex] at hhex'
          cases hhex'
  · rename_i hgood
    simp only [Bool.or_eq_true, decide_eq_true_eq, Bool.and_eq_true, Bool.not_eq_true', not_or,
      not_and, Nat.not_lt, Bool.not_eq_false, List.isEmpty_eq_false_iff] at hgood
    have hcleanup : cleanupId = [] ∨ isHexId cleanupId = true :=
      or_iff_not_imp_left.mpr hgood.2
    simp only [Option.bind_eq_bind, Option.bind_eq_some_iff, encodeCleanup_eq_some hcleanup,
      encodeEntries_eq_some]
    constructor
    · rintro ⟨_, rfl, _, ⟨hlistable, rfl⟩, h⟩
      split at h
      · cases h
      · rename_i hsize
        obtain rfl := Option.some.inj h
        exact ⟨⟨hgood.1, hcleanup, hlistable⟩, rfl, Nat.not_lt.mp hsize⟩
    · rintro ⟨⟨-, -, hlistable⟩, rfl, hsize⟩
      refine ⟨_, rfl, _, ⟨hlistable, rfl⟩, ?_⟩
      exact if_neg (Nat.not_lt.mpr hsize)

theorem run_readCleanup {cleanupId input rest : Bytes} :
    readCleanup.run input = some (cleanupId, rest) ↔
      (cleanupId = [] ∨ isHexId cleanupId = true) ∧ input = cleanupBytes cleanupId ++ rest := by
  simp only [readCleanup, Reader.run_bind, Reader.run_u8, Reader.run_require, Reader.run_pure,
    decide_eq_true_eq, Bool.or_eq_true, List.isEmpty_iff, cleanupBytes]
  constructor
  · rintro ⟨flag, _, rfl, _, _, ⟨hflag, rfl⟩, found, _, hread, _, _, ⟨hfound, rfl⟩, rfl, rfl⟩
    refine ⟨hfound, ?_⟩
    by_cases hzero : flag = 0
    · subst hzero
      rw [readCleanupId, beq_self_eq_true, if_pos rfl, Reader.run_pure] at hread
      obtain ⟨rfl, rfl⟩ := hread
      rfl
    · have hone : flag = 1 := by
        have hbyte : ∀ b : UInt8, b ≤ 1 → b ≠ 0 → b = 1 := forall_byte (by decide)
        exact hbyte flag hflag hzero
      rw [readCleanupId, if_neg (by simpa using hzero), run_readString] at hread
      obtain ⟨hfits, rfl⟩ := hread
      rw [if_neg hfits.1, hone]
      rfl
  · rintro ⟨hcleanup, rfl⟩
    by_cases hempty : cleanupId = []
    · subst hempty
      exact ⟨0, rest, rfl, (), rest, ⟨by decide, rfl⟩, [], rest,
        by simp [readCleanupId], (), rest, ⟨Or.inl rfl, rfl⟩, rfl, rfl⟩
    · have hhex := hcleanup.resolve_left hempty
      refine ⟨1, stringBytes cleanupId ++ rest, by rw [if_neg hempty]; rfl, (), _,
        ⟨by decide, rfl⟩, cleanupId, rest, ?_, (), rest, ⟨hcleanup, rfl⟩, rfl, rfl⟩
      rw [readCleanupId, if_neg (by decide), run_readString]
      exact ⟨fitsString_of_isHexId hhex, rfl⟩

theorem readStamped_eq_some {α : Type} {minimum : Nat} {reader : Reader α} {bytes : Bytes}
    {result : α} :
    readStamped minimum reader bytes = some result ↔
      minimum ≤ bytes.length ∧ ∃ body, bytes = stamp checksum body ∧
        reader.run body = some (result, []) := by
  unfold readStamped
  split
  · rename_i hshort
    constructor
    · intro h
      cases h
    · rintro ⟨hlong, -⟩
      omega
  · rename_i hlong
    constructor
    · intro h
      split at h
      · cases h
      · rename_i body hbody
        split at h
        · rename_i found hread
          obtain rfl := Option.some.inj h
          exact ⟨Nat.not_lt.mp hlong, body, unstamp_eq_some.mp hbody, hread⟩
        · cases h
    · rintro ⟨-, body, hbody, hread⟩
      rw [unstamp_eq_some.mpr hbody]
      simp only [hread]

theorem length_indexBytes (order : List PersistentMetadata) (cleanupId : Bytes) :
    (indexBytes order cleanupId).length =
      20 + (cleanupBytes cleanupId).length + (order.map fun entry => (entryBytes entry).length).sum
        := by
  rw [indexBytes, length_stamp]
  simp only [List.length_append, length_bigEndian, List.length_flatMap]
  have hmagic : indexMagic.length = 8 := by decide
  omega

/-- What the decoder accepts, and what it returns. -/
theorem decodeIndex_eq_some {bytes cleanupId : Bytes} {entries : PersistentEntries} :
    decodeIndex bytes = some (entries, cleanupId) ↔
      ∃ order, Encodable order cleanupId ∧ (∀ entry ∈ order, HasIdentities entry) ∧
        (order.map entryKey).Nodup ∧ entries = insertAll ∅ order ∧
        bytes = indexBytes order cleanupId := by
  rw [decodeIndex, readStamped_eq_some]
  have hmagic : indexMagic.length = 8 := by decide
  simp only [readIndex, Reader.run_bind, run_readMagic hmagic, Reader.run_uint, Reader.run_require,
    run_readCleanup, run_readEntries, Reader.run_pure, decide_eq_true_eq, Prod.mk.injEq]
  constructor
  · rintro ⟨-, body, rfl, _, _, rfl, count, _, ⟨-, rfl⟩, _, _, ⟨hcount, rfl⟩, found, _,
      ⟨hcleanup, rfl⟩, decoded, _, ⟨order, rfl, hlistable, hall, hkeys, -, rfl, rfl⟩,
      ⟨rfl, rfl⟩, rfl⟩
    exact ⟨order, ⟨hcount, hcleanup, hlistable⟩, hall, hkeys, rfl, by rw [List.append_nil]; rfl⟩
  · rintro ⟨order, ⟨hcount, hcleanup, hlistable⟩, hall, hkeys, rfl, rfl⟩
    refine ⟨?_, _, rfl, (), _, rfl, order.length, _, ⟨?_, rfl⟩, (), _, ⟨hcount, rfl⟩, cleanupId, _,
      ⟨hcleanup, rfl⟩, _, [], ⟨order, rfl, hlistable, hall, hkeys, by simp, rfl, by simp⟩,
      ⟨rfl, rfl⟩, rfl⟩
    · rw [length_indexBytes]
      have hflag : 1 ≤ (cleanupBytes cleanupId).length := by
        unfold cleanupBytes
        split <;> simp
      omega
    · have hbound : maxLiveRecords < 256 ^ 4 := by decide
      omega

-- ---------------------------------------------------------------------------
-- Maps and orders
-- ---------------------------------------------------------------------------

theorem getElem?_insertAll {decoded : PersistentEntries} {order : List PersistentMetadata}
    (hkeys : (order.map entryKey).Nodup) {key : Bytes} {entry : PersistentMetadata} :
    (insertAll decoded order)[key]? = some entry ↔
      (entry ∈ order ∧ entryKey entry = key) ∨
        (decoded[key]? = some entry ∧ key ∉ order.map entryKey) := by
  induction order generalizing decoded with
  | nil => simp [insertAll]
  | cons first rest ih =>
    rw [List.map_cons, List.nodup_cons] at hkeys
    show (insertAll (decoded.insert (entryKey first) first) rest)[key]? = some entry ↔ _
    rw [ih hkeys.2, Std.ExtTreeMap.getElem?_insert]
    simp only [Std.compare_eq_iff_eq, List.mem_cons, List.map_cons]
    by_cases hsame : entryKey first = key
    · subst hsame
      rw [if_pos rfl, Option.some.injEq]
      constructor
      · rintro (⟨hmem, hkey⟩ | ⟨rfl, -⟩)
        · exact Or.inl ⟨Or.inr hmem, hkey⟩
        · exact Or.inl ⟨Or.inl rfl, rfl⟩
      · rintro (⟨rfl | hmem, hkey⟩ | ⟨-, hnot⟩)
        · exact Or.inr ⟨rfl, hkeys.1⟩
        · exact Or.inl ⟨hmem, hkey⟩
        · exact absurd (Or.inl rfl) hnot
    · rw [if_neg hsame]
      constructor
      · rintro (⟨hmem, hkey⟩ | ⟨hfound, hnot⟩)
        · exact Or.inl ⟨Or.inr hmem, hkey⟩
        · exact Or.inr ⟨hfound, fun h => h.elim (fun h => hsame h.symm) hnot⟩
      · rintro (⟨rfl | hmem, hkey⟩ | ⟨hfound, hnot⟩)
        · exact absurd hkey hsame
        · exact Or.inl ⟨hmem, hkey⟩
        · exact Or.inr ⟨hfound, fun h => hnot (Or.inr h)⟩

/-- Every entry stands under its own key. -/
def Keyed (entries : PersistentEntries) : Prop :=
  ∀ key entry, entries[key]? = some entry → normalizedName entry.name = some key

theorem Keyed.entryKey_eq {entries : PersistentEntries} (h : Keyed entries) {key : Bytes}
    {entry : PersistentMetadata} (hentry : entries[key]? = some entry) : entryKey entry = key := by
  have hname := h key entry hentry
  unfold normalizedName at hname
  split at hname
  · cases hname
  · exact Option.some.inj hname

theorem mem_entriesInOrder {entries : PersistentEntries} {entry : PersistentMetadata} :
    entry ∈ entriesInOrder entries ↔ ∃ key : Bytes, entries[key]? = some entry := by
  simp only [entriesInOrder, List.mem_map, Prod.exists,
    Std.ExtTreeMap.mem_toList_iff_getElem?_eq_some, exists_eq_right]

theorem nodup_entryKeys {entries : PersistentEntries} (h : Keyed entries) :
    ((entriesInOrder entries).map entryKey).Nodup := by
  have hkeys : (entriesInOrder entries).map entryKey = entries.toList.map Prod.fst := by
    rw [entriesInOrder, List.map_map]
    refine List.map_congr_left fun pair hpair => ?_
    exact h.entryKey_eq (Std.ExtTreeMap.mem_toList_iff_getElem?_eq_some.mp hpair)
  rw [hkeys, List.Nodup, List.pairwise_map]
  refine Std.ExtTreeMap.distinct_keys_toList.imp fun hne hsame => hne ?_
  exact Std.compare_eq_iff_eq.mpr hsame

/-- A map is what inserting its entries gives. -/
theorem insertAll_entriesInOrder {entries : PersistentEntries} (h : Keyed entries) :
    insertAll ∅ (entriesInOrder entries) = entries := by
  refine Std.ExtTreeMap.ext_getElem? fun key => Option.ext fun entry => ?_
  rw [getElem?_insertAll (nodup_entryKeys h), mem_entriesInOrder]
  simp only [Std.ExtTreeMap.getElem?_empty, reduceCtorEq, false_and, or_false]
  constructor
  · rintro ⟨⟨other, hother⟩, hkey⟩
    rw [← h.entryKey_eq hother, hkey] at hother
    exact hother
  · intro hentry
    exact ⟨⟨key, hentry⟩, h.entryKey_eq hentry⟩

/-- The map of an order has the same entries, in the order of their keys. -/
theorem entriesInOrder_insertAll {order : List PersistentMetadata}
    (hkeys : (order.map entryKey).Nodup) (hnames : ∀ entry ∈ order, entry.name ≠ []) :
    Keyed (insertAll ∅ order) ∧ (entriesInOrder (insertAll ∅ order)).Perm order := by
  have hget : ∀ (key : Bytes) (entry : PersistentMetadata),
      (insertAll ∅ order)[key]? = some entry ↔ entry ∈ order ∧ entryKey entry = key := by
    intro key entry
    rw [getElem?_insertAll hkeys]
    simp
  have hkeyed : Keyed (insertAll ∅ order) := by
    intro key entry hentry
    obtain ⟨hmem, hkey⟩ := (hget key entry).mp hentry
    exact (normalizedName_eq_some (hnames entry hmem)).mpr hkey.symm
  refine ⟨hkeyed, (List.perm_ext_iff_of_nodup (List.Nodup.of_map _ (nodup_entryKeys hkeyed))
    (List.Nodup.of_map _ hkeys)).mpr fun entry => ?_⟩
  rw [mem_entriesInOrder]
  simp only [hget, exists_and_left, exists_eq', and_true]

theorem Encodable.perm {order other : List PersistentMetadata} {cleanupId : Bytes}
    (h : Encodable order cleanupId) (hperm : order.Perm other) : Encodable other cleanupId where
  count := hperm.length_eq ▸ h.count
  cleanup := h.cleanup
  listable := {
    names := fun entry hentry => h.listable.names entry (hperm.mem_iff.mpr hentry)
    hex := fun entry hentry => h.listable.hex entry (hperm.mem_iff.mpr hentry)
    fresh := fun entry hentry => h.listable.fresh entry (hperm.mem_iff.mpr hentry)
    distinct := (hperm.map _).nodup_iff.mp h.listable.distinct }

theorem length_indexBytes_perm {order other : List PersistentMetadata} {cleanupId : Bytes}
    (hperm : order.Perm other) :
    (indexBytes order cleanupId).length = (indexBytes other cleanupId).length := by
  rw [length_indexBytes, length_indexBytes, (hperm.map _).sum_nat]

-- ---------------------------------------------------------------------------
-- Records
-- ---------------------------------------------------------------------------

/-- A record of an entry with its payload. -/
def recordBytes (metadata : PersistentMetadata) (payload : Bytes) : Bytes :=
  stamp checksum (recordMagic ++ (stringBytes metadata.recordId ++ (stringBytes metadata.name ++
    metadata.source.toByte :: (metadata.authority.bytes ++ (metadata.revision.bytes ++
      (bigEndian 4 payload.length ++ payload))))))

/-- What a record can hold, but for its size. -/
structure Recordable (metadata : PersistentMetadata) (payload : Bytes) : Prop where
  recordId : FitsString metadata.recordId
  name : FitsString metadata.name
  payload : payload ≠ [] ∧ payload.length ≤ 8192

theorem encodeRecord_eq_some {metadata : PersistentMetadata} {payload bytes : Bytes} :
    encodeRecord metadata payload = some bytes ↔
      Recordable metadata payload ∧ bytes = recordBytes metadata payload ∧
        bytes.length ≤ maxRecordBytes := by
  simp only [encodeRecord, Option.bind_eq_bind, Option.bind_eq_some_iff, appendString_eq_some]
  constructor
  · rintro ⟨_, ⟨hid, rfl⟩, _, ⟨hname, rfl⟩, h⟩
    split at h
    · cases h
    · rename_i hpayload
      simp only [Bool.or_eq_true, List.isEmpty_iff, decide_eq_true_eq, not_or, Nat.not_lt]
        at hpayload
      split at h
      · cases h
      · rename_i hsize
        obtain rfl := Option.some.inj h
        exact ⟨⟨hid, hname, hpayload⟩, rfl, Nat.not_lt.mp hsize⟩
  · rintro ⟨⟨hid, hname, hpayload⟩, rfl, hsize⟩
    refine ⟨_, ⟨hid, rfl⟩, _, ⟨hname, rfl⟩, ?_⟩
    have hgood : ¬(payload.isEmpty || decide (8192 < payload.length)) = true := by
      simpa using hpayload
    rw [if_neg hgood]
    exact if_neg (Nat.not_lt.mpr hsize)

/-- A record decodes, against its own entry, to the entry's secret. -/
theorem decodeRecord_recordBytes {metadata : PersistentMetadata} {payload : Bytes}
    (h : Recordable metadata payload) (hidentities : HasIdentities metadata) :
    decodeRecord (recordBytes metadata payload) metadata =
      some ⟨metadata.source, metadata.name, payload, metadata.authority, metadata.revision⟩ := by
  rw [decodeRecord, readStamped_eq_some]
  have hmagic : recordMagic.length = 8 := by decide
  have hpayload := List.length_pos_iff.mpr h.payload.1
  have hlimit := h.payload.2
  refine ⟨?_, _, rfl, ?_⟩
  · rw [recordBytes, length_stamp]
    simp only [List.length_append, List.length_cons, stringBytes, length_bigEndian, hmagic,
      metadata.authority.size, metadata.revision.size]
    omega
  · simp only [readRecord, Reader.run_bind, run_readMagic hmagic, run_readString, run_readSource,
      run_readIdentity, Reader.run_uint, Reader.run_require, Reader.run_take, Reader.run_pure,
      Bool.and_eq_true, bne_iff_ne, decide_eq_true_eq, beq_iff_eq]
    exact ⟨(), _, rfl, metadata.recordId, _, ⟨h.recordId, rfl⟩, metadata.name, _, ⟨h.name, rfl⟩,
      metadata.source, _, rfl, metadata.authority, _, ⟨hidentities.1, rfl⟩, metadata.revision, _,
      ⟨hidentities.2, rfl⟩, payload.length, _, ⟨by omega, rfl⟩, (), _, ⟨⟨by omega, hlimit⟩, rfl⟩,
      payload, [], ⟨rfl, by rw [List.append_nil]⟩, (), [], ⟨⟨⟨⟨⟨rfl, rfl⟩, rfl⟩, rfl⟩, rfl⟩, rfl⟩,
      rfl, rfl⟩

-- ---------------------------------------------------------------------------
-- The codec
-- ---------------------------------------------------------------------------

/-- A stamped record with one byte changed is not read. -/
theorem readStamped_set {α : Type} {minimum : Nat} {reader : Reader α} {body : Bytes} {i : Nat}
    {b c : UInt8} (hb : (stamp checksum body)[i]? = some b) (hne : c ≠ b) :
    readStamped minimum reader ((stamp checksum body).set i c) = none := by
  obtain ⟨hi, hget⟩ := List.getElem?_eq_some_iff.mp hb
  have hsplit : stamp checksum body =
      (stamp checksum body).take i ++ b :: (stamp checksum body).drop (i + 1) := by
    rw [← hget, ← List.drop_eq_getElem_cons hi, List.take_append_drop]
  have hchanged : (stamp checksum body).set i c =
      (stamp checksum body).take i ++ c :: (stamp checksum body).drop (i + 1) :=
    List.set_eq_take_append_cons_drop .. |>.trans (by rw [if_pos hi])
  have hclosed : unstamp checksum ((stamp checksum body).set i c) = none := by
    rw [hchanged]
    exact unstamp_set lossless_checksumStep hsplit hne
  unfold readStamped
  rw [hclosed]
  split <;> rfl

/-- An index within the limits is read back as it was written, and so is a record,
against its own entry. An index of at most the limit is read only if it was
written, up to the order of its entries. With one byte changed neither is read. -/
theorem index_record_codec :
    (∀ entries cleanupId, Encodable (entriesInOrder entries) cleanupId → Keyed entries →
      (∀ entry ∈ entriesInOrder entries, HasIdentities entry) →
      (indexBytes (entriesInOrder entries) cleanupId).length ≤ maxIndexBytes →
      ∃ bytes, encodeIndex entries cleanupId = some bytes ∧
        decodeIndex bytes = some (entries, cleanupId)) ∧
    (∀ metadata payload, Recordable metadata payload → HasIdentities metadata →
      (recordBytes metadata payload).length ≤ maxRecordBytes →
      ∃ bytes, encodeRecord metadata payload = some bytes ∧
        decodeRecord bytes metadata = some
          ⟨metadata.source, metadata.name, payload, metadata.authority, metadata.revision⟩) ∧
    (∀ bytes entries cleanupId, decodeIndex bytes = some (entries, cleanupId) →
      bytes.length ≤ maxIndexBytes →
      (∃ order, order.Perm (entriesInOrder entries) ∧
        encodeIndexOf order cleanupId = some bytes) ∧
      ∃ inOrder, encodeIndex entries cleanupId = some inOrder) ∧
    (∀ entries cleanupId bytes i b c, encodeIndex entries cleanupId = some bytes →
      bytes[i]? = some b → c ≠ b → decodeIndex (bytes.set i c) = none) ∧
    (∀ metadata payload expected bytes i b c, encodeRecord metadata payload = some bytes →
      bytes[i]? = some b → c ≠ b → decodeRecord (bytes.set i c) expected = none) := by
  refine ⟨?_, ?_, ?_, ?_, ?_⟩
  · intro entries cleanupId hencodable hkeyed hidentities hsize
    refine ⟨_, encodeIndexOf_eq_some.mpr ⟨hencodable, rfl, hsize⟩, decodeIndex_eq_some.mpr ?_⟩
    exact ⟨entriesInOrder entries, hencodable, hidentities, nodup_entryKeys hkeyed,
      (insertAll_entriesInOrder hkeyed).symm, rfl⟩
  · intro metadata payload hrecordable hidentities hsize
    exact ⟨_, encodeRecord_eq_some.mpr ⟨hrecordable, rfl, hsize⟩,
      decodeRecord_recordBytes hrecordable hidentities⟩
  · intro bytes entries cleanupId hdecode hsize
    obtain ⟨order, hencodable, -, hkeys, rfl, rfl⟩ := decodeIndex_eq_some.mp hdecode
    obtain ⟨-, hperm⟩ := entriesInOrder_insertAll hkeys fun entry hentry =>
      (hencodable.listable.names entry hentry).1
    refine ⟨⟨order, hperm.symm, encodeIndexOf_eq_some.mpr ⟨hencodable, rfl, hsize⟩⟩, _,
      encodeIndexOf_eq_some.mpr ⟨hencodable.perm hperm.symm, rfl, ?_⟩⟩
    rw [← length_indexBytes_perm hperm.symm]
    exact hsize
  · intro entries cleanupId bytes i b c hencode hb hne
    obtain ⟨-, rfl, -⟩ := encodeIndexOf_eq_some.mp hencode
    exact readStamped_set hb hne
  · intro metadata payload expected bytes i b c hencode hb hne
    obtain ⟨-, rfl, -⟩ := encodeRecord_eq_some.mp hencode
    exact readStamped_set hb hne

-- ---------------------------------------------------------------------------
-- Indexes
-- ---------------------------------------------------------------------------

/-- An identity that is one byte, sixteen times. -/
def repeatedIdentity (b : UInt8) : CredentialIdentity := ⟨List.replicate 16 b, rfl⟩

/-- An entry with the record id `cc…c` of one digit. -/
def sampleEntry (name : Bytes) (digit : UInt8) : PersistentMetadata :=
  ⟨name, .config, repeatedIdentity 1, repeatedIdentity 2, List.replicate 32 digit⟩

/-- An index of one entry is read back. -/
theorem index_record_codec_single :
    ∃ bytes, encodeIndex (insertAll ∅ [sampleEntry (ascii "Main") (byte 'a')]) [] = some bytes ∧
      decodeIndex bytes =
        some (insertAll ∅ [sampleEntry (ascii "Main") (byte 'a')], []) := by
  have horder : entriesInOrder (insertAll ∅ [sampleEntry (ascii "Main") (byte 'a')]) =
      [sampleEntry (ascii "Main") (byte 'a')] := by decide +kernel
  have hkeyed : Keyed (insertAll ∅ [sampleEntry (ascii "Main") (byte 'a')]) :=
    (entriesInOrder_insertAll (by decide) (by decide)).1
  refine index_record_codec.1 _ _ ?_ hkeyed ?_ ?_
  · rw [horder]
    exact ⟨by decide, Or.inl rfl, by decide +kernel, by decide +kernel, by decide +kernel,
      by decide⟩
  · rw [horder]
    decide +kernel
  · rw [horder]
    decide +kernel

/-- Three names of 65535 bytes. -/
def longEntries : List PersistentMetadata :=
  [sampleEntry (List.replicate 65535 (byte 'a')) (byte 'a'),
    sampleEntry (List.replicate 65535 (byte 'b')) (byte 'b'),
    sampleEntry (List.replicate 65535 (byte 'c')) (byte 'c')]

theorem fitsString_replicate (b : UInt8) : FitsString (List.replicate 65535 b) := by
  refine ⟨List.length_pos_iff.mp ?_, ?_⟩
  · rw [List.length_replicate]
    decide
  · exact Nat.le_of_eq List.length_replicate

theorem encodable_longEntries : Encodable longEntries [] where
  count := by decide
  cleanup := Or.inl rfl
  listable := {
    names := by
      intro entry hentry
      simp only [longEntries, List.mem_cons, List.not_mem_nil, or_false] at hentry
      rcases hentry with rfl | rfl | rfl <;> exact fitsString_replicate _
    hex := by
      intro entry hentry
      simp only [longEntries, List.mem_cons, List.not_mem_nil, or_false] at hentry
      rcases hentry with rfl | rfl | rfl <;> decide +kernel
    fresh := by
      intro entry hentry
      simp only [longEntries, List.mem_cons, List.not_mem_nil, or_false] at hentry
      rcases hentry with rfl | rfl | rfl <;> decide +kernel
    distinct := by decide +kernel }

theorem nodup_longKeys : (longEntries.map entryKey).Nodup := by
  have hkey : ∀ b digit : UInt8, entryKey (sampleEntry (List.replicate 65535 b) digit) =
      List.replicate 65535 (lowerByte b) := fun b digit => List.map_replicate
  have hne : ∀ b c : UInt8, b ≠ c → List.replicate 65535 b ≠ List.replicate 65535 c := by
    intro b c hbc hsame
    have hmem : b ∈ List.replicate 65535 c :=
      hsame ▸ List.mem_replicate.mpr ⟨by decide, rfl⟩
    exact hbc (List.mem_replicate.mp hmem).2
  simp only [longEntries, List.map_cons, List.map_nil, hkey, List.nodup_cons, List.mem_cons,
    List.not_mem_nil, or_false, not_or, List.nodup_nil, and_true, not_false_eq_true]
  exact ⟨⟨hne _ _ (by decide), hne _ _ (by decide)⟩, hne _ _ (by decide)⟩

/-- The decoder has no limit of its own: it reads an index of three long names,
which the encoder never writes. -/
theorem long_index_decoded :
    decodeIndex (indexBytes longEntries []) = some (insertAll ∅ longEntries, []) ∧
      ∀ order cleanupId, encodeIndexOf order cleanupId ≠ some (indexBytes longEntries []) := by
  constructor
  · refine decodeIndex_eq_some.mpr ⟨longEntries, encodable_longEntries, ?_, nodup_longKeys, rfl, rfl⟩
    intro entry hentry
    simp only [longEntries, List.mem_cons, List.not_mem_nil, or_false] at hentry
    rcases hentry with rfl | rfl | rfl <;> exact ⟨by decide +kernel, by decide +kernel⟩
  · intro order cleanupId hencode
    obtain ⟨-, -, hsize⟩ := encodeIndexOf_eq_some.mp hencode
    rw [length_indexBytes] at hsize
    simp only [longEntries, List.map_cons, List.map_nil, List.sum_cons, List.sum_nil, entryBytes,
      sampleEntry, stringBytes, List.length_append, List.length_cons, length_bigEndian,
      List.length_replicate, maxIndexBytes] at hsize
    omega

end Cuac.Credential

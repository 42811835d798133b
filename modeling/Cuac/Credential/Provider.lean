import Cuac.Credential.Storage
import Cuac.Lib.Checked
import Cuac.Lib.Decimal

/-!
# Creating and resolving credentials

`CreateCredentialSecret` makes the secret of a `CREATE SECRET`, which one of two
storages then keeps; `DuckdbCredentialProvider::Resolve` finds the secret of a name and
the value it stands for. Both take several looks at what other statements change
meanwhile, so each look is a function of its own.

The temporary storage is DuckDB's and not code of the extension, so it is a parameter:
what its documentation promises of a lookup is `TemporaryStorage.Faithful`. It may hold
secrets of other extensions, and a statement reads it as its transaction sees it. The
identities that `GenerateCredentialIdentity` returns are arguments.
-/

namespace Cuac.Credential

open Cuac.Lib Throwing

-- ---------------------------------------------------------------------------
-- Creation
-- ---------------------------------------------------------------------------

inductive SecretPersistType
  | default
  | temporary
  | persistent
  deriving DecidableEq, Repr

structure CreateSecretInput where
  type : Bytes
  provider : Bytes
  storageType : Bytes
  name : Bytes
  hasScope : Bool
  persistType : SecretPersistType
  onConflict : OnCreateConflict
  /-- The option's text; none where it is missing, null or not a `VARCHAR`. -/
  token : Option Bytes
  variableName : Option Bytes

def ciEquals (left right : Bytes) : Bool :=
  left.map lowerByte == right.map lowerByte

def providerName : CredentialSource → Bytes
  | .config => ascii "config"
  | .environment => ascii "environment"

/-- `SecretManager::TEMPORARY_STORAGE_NAME` -/
def temporaryStorageName : Bytes := ascii "memory"

def cuacPersistentStorage : Bytes := ascii "cuac"

def creationError (message : String) : Bytes :=
  ascii ("[cuac][authentication] " ++ message)

def validateCreationEnvelope (input : CreateSecretInput) (source : CredentialSource) :
    Except Bytes Unit := do
  throwIf (!ciEquals input.type (ascii "cuac") || !ciEquals input.provider (providerName source))
    (creationError "secret type and provider do not match the installed credential boundary")
  throwIf input.hasScope (creationError "cuac credentials do not accept SCOPE")
  if input.persistType == .temporary then
    throwIf (!input.storageType.isEmpty && !ciEquals input.storageType temporaryStorageName)
      (creationError "temporary cuac credentials require memory storage")
  else
    throwIf (!(input.persistType == .persistent &&
        ciEquals input.storageType cuacPersistentStorage))
      (creationError "use explicit TEMPORARY memory storage or PERSISTENT IN cuac storage")

/-- `ScanAuthorization::CredentialByteLimit` -/
def credentialByteLimit : Nat := 8192

def isSafeCredentialValue (value : Bytes) : Bool :=
  !value.isEmpty && value.all fun b => 0x21 ≤ b && b ≤ 0x7E

def isAsciiLetter (b : UInt8) : Bool :=
  (byte 'A' ≤ b && b ≤ byte 'Z') || (byte 'a' ≤ b && b ≤ byte 'z')

/-- `CUAC_ENVIRONMENT_NAME_LIMIT` is 256. -/
def isPortableEnvironmentName (value : Bytes) : Bool :=
  !value.isEmpty && value.length ≤ 256 &&
    value.head?.any (fun b => isAsciiLetter b || b == byte '_') &&
    value.tail.all fun b => isAsciiLetter b || isDigit b || b == byte '_'

/-- `RequiredOption` -/
def requiredOption (option : Option Bytes) (message : String) : Except Bytes Bytes :=
  match option with
  | some value => .ok value
  | none => .error (creationError message)

def creationPayload (input : CreateSecretInput) : CredentialSource → Except Bytes Bytes
  | .config => do
    let payload ← requiredOption input.token "TOKEN must be a non-empty visible-ASCII VARCHAR"
    throwIf (decide (credentialByteLimit < payload.length)) (ascii
      ("[cuac][resource] field=header_bytes: credential exceeds the 8192-byte request-field limit"))
    throwIf (!isSafeCredentialValue payload)
      (creationError "TOKEN must be a non-empty visible-ASCII VARCHAR")
    pure payload
  | .environment => do
    let payload ← requiredOption input.variableName
      "VARIABLE must be a portable environment identifier"
    throwIf (!isPortableEnvironmentName payload)
      (creationError "VARIABLE must be a portable environment identifier")
    pure payload

/-- What the temporary storage holds under a name. -/
inductive MemorySecret
  | cuac (secret : CuacSecret)
  | other
  deriving DecidableEq

/-- DuckDB's storage of temporary secrets; `μ` is what a transaction sees of it. -/
structure TemporaryStorage (μ : Type) where
  empty : μ
  /-- A secret comes to the storage, which may refuse it. -/
  store : μ → Bytes → MemorySecret → OnCreateConflict → μ
  drop : μ → Bytes → μ
  lookup : μ → Bytes → Option MemorySecret

/-- A lookup returns what was stored under the name and was not dropped since; names that
differ only in case are the same. -/
structure TemporaryStorage.Faithful {μ : Type} (storage : TemporaryStorage μ) : Prop where
  empty : ∀ name, storage.lookup storage.empty name = none
  store : ∀ {entries name secret onConflict other found},
    storage.lookup (storage.store entries name secret onConflict) other = some found →
    (ciEquals name other = true ∧ found = secret) ∨ storage.lookup entries other = some found
  drop : ∀ {entries name other found},
    storage.lookup (storage.drop entries name) other = some found →
    ciEquals name other = false ∧ storage.lookup entries other = some found

section Storage

variable {μ : Type} (storage : TemporaryStorage μ)

/-- `GetSecretByName` in the temporary storage, for the secrets of this extension. -/
def memorySecret (entries : μ) (name : Bytes) : Option CuacSecret :=
  match storage.lookup entries name with
  | some (.cuac secret) => some secret
  | _ => none

/-- A replacement in the temporary storage keeps the authority that it sees. -/
def creationAuthority (input : CreateSecretInput) (view : μ)
    (generated : CredentialIdentity) : CredentialIdentity :=
  if input.persistType == .temporary && input.onConflict == .replaceOnConflict then
    match memorySecret storage view input.name with
    | some existing => existing.authority
    | none => generated
  else generated

/-- The constructor of `CuacSecret`. -/
def newSecret (secret : CuacSecret) : Except Bytes NewSecret :=
  if h : isNonZeroIdentity secret.authority = true ∧ isNonZeroIdentity secret.revision = true then
    .ok ⟨secret, h.1, h.2⟩
  else .error (ascii "cuac credential identity is invalid")

def createCredentialSecret (input : CreateSecretInput) (source : CredentialSource)
    (view : μ) (authority revision : CredentialIdentity) :
    Except Bytes NewSecret := do
  validateCreationEnvelope input source
  let payload ← creationPayload input source
  newSecret ⟨source, input.name, payload, creationAuthority storage input view authority, revision⟩

-- ---------------------------------------------------------------------------
-- Resolution
-- ---------------------------------------------------------------------------

/-- The first look; it is skipped while no temporary secret was ever tried. -/
def readMemory (mayContainCuac : Bool) (view : μ) (name : Bytes) : Option CuacSecret :=
  if mayContainCuac then memorySecret storage view name else none

end Storage

/-- `ReadBoundedFileAt` of a record, and `DecodeRecord`. -/
def readRecordFile (found : PersistentMetadata) : Program CuacSecret := do
  recordFile found.recordId
  touch
  let s ← get
  match s.core.records[found.recordId]? with
  | none => throw .storageFailure
  | some bytes => do
    throwWhen (maxRecordBytes < bytes.length) .storageFailure
    match decodeRecord bytes found with
    | none => throw .storageFailure
    | some secret => pure secret

/-- `SelectPersistentCredential`: a name in both storages is refused before the record is
read. -/
def selectPersistentCredential (enabled : Bool) (name : Bytes) (memorySelected : Bool) :
    Program (Option CuacSecret) :=
  if !enabled then pure none
  else do
    ensureOpen
    match normalizedName name with
    | none => throw .storageFailure
    | some key => do
      let s ← get
      match s.core.entries[key]? with
      | none => pure none
      | some found => do
        throwWhen memorySelected .storageFailure
        let secret ← readRecordFile found
        pure (some secret)

/-- What a scan gets: the value, and the two identities that tag its rows. -/
structure ResolvedCredential where
  value : Bytes
  authority : CredentialIdentity
  revision : CredentialIdentity
  source : CredentialSource
  deriving DecidableEq

/-- `getenv` with its length check. -/
def environmentValue (environment : Bytes → Option Bytes) (name : Bytes) : Option Bytes :=
  if !isPortableEnvironmentName name then none
  else
    match environment name with
    | none => none
    | some text => if text.isEmpty || credentialByteLimit < text.length then none else some text

/-- The value of a variable gets a revision of its own. -/
def selectedValue (environment : Bytes → Option Bytes) (selected : CuacSecret)
    (generated : CredentialIdentity) : Option (Bytes × CredentialIdentity) :=
  match selected.source with
  | .config => some (selected.payload, selected.revision)
  | .environment => (environmentValue environment selected.payload).map (·, generated)

/-- The last look. -/
def resolvedCredential (environment : Bytes → Option Bytes) (selected : CuacSecret)
    (generated : CredentialIdentity) : Option ResolvedCredential := do
  let (value, revision) ← selectedValue environment selected generated
  if credentialByteLimit < value.length || !isSafeCredentialValue value then none
  else some ⟨value, selected.authority, revision, selected.source⟩

end Cuac.Credential

import Cuac.Connector.FailsafeYaml
import Cuac.Connector.PackageDiagnostics

/-!
# Connector — package source custody

Acquisition of a package directory: its root is opened component by component, the
entries of the root and of `relations` are captured, the manifest and the relations it
lists are read, and both captures are made again. The file system is what its calls
answer (`PackageTree`): an answer may differ from one call to the next. Nobody cancels,
and the texts of the errors are left out.
-/

namespace Cuac.Connector.PackageSource

open Cuac.Lib
open Cuac.Connector.Diagnostics
open Cuac.Connector.FailsafeYaml
  (Node Budget ErrorCode parseFailsafeYaml splitLines isValidUtf8)

-- ---------------------------------------------------------------------------
-- Errors and limits
-- ---------------------------------------------------------------------------

inductive PackageSourceErrorCode
  | invalidRoot
  | invalidPath
  | entryType
  | symbolicLink
  | hardLink
  | resourceExhausted
  | identityChanged
  | manifestRelations
  deriving DecidableEq, Repr

structure PackageSourceError where
  code : PackageSourceErrorCode
  path : Bytes
  deriving DecidableEq, Repr

/-- `FailsafeYamlError`, with where its span begins. -/
structure FailsafeYamlError where
  code : ErrorCode
  file : Bytes
  line : UInt64
  column : UInt64
  deriving DecidableEq, Repr

/-- What acquisition throws. -/
inductive Failure
  | source (error : PackageSourceError)
  | yaml (error : FailsafeYamlError)
  | invalidArgument
  deriving DecidableEq, Repr

structure PackageSourceLimits where
  maxSemanticFiles : Nat
  maxRootEntries : Nat
  maxRelationEntries : Nat
  maxAggregateEntries : Nat
  maxFileBytes : Nat
  maxAggregateBytes : Nat
  maxRelativePathBytes : Nat
  deriving DecidableEq, Repr

def PackageSourceLimits.v1 : PackageSourceLimits :=
  ⟨65, 4096, 1024, 5120, 1024 * 1024, 16 * 1024 * 1024, 255⟩

def effectiveLimits (host : PackageSourceLimits) : Except Failure PackageSourceLimits := do
  throwIf (host.maxSemanticFiles == 0 || host.maxRootEntries == 0 ||
    host.maxRelationEntries == 0 || host.maxAggregateEntries == 0 || host.maxFileBytes == 0 ||
    host.maxAggregateBytes == 0 || host.maxRelativePathBytes == 0) .invalidArgument
  let spec := PackageSourceLimits.v1
  .ok ⟨min host.maxSemanticFiles spec.maxSemanticFiles,
    min host.maxRootEntries spec.maxRootEntries,
    min host.maxRelationEntries spec.maxRelationEntries,
    min host.maxAggregateEntries spec.maxAggregateEntries,
    min host.maxFileBytes spec.maxFileBytes,
    min host.maxAggregateBytes spec.maxAggregateBytes,
    min host.maxRelativePathBytes spec.maxRelativePathBytes⟩

-- ---------------------------------------------------------------------------
-- What the file system answers
-- ---------------------------------------------------------------------------

structure FileIdentity where
  device : UInt64
  inode : UInt64
  mode : UInt64
  links : UInt64
  size : UInt64
  modifiedSeconds : Int64
  modifiedNanoseconds : Int64
  changedSeconds : Int64
  changedNanoseconds : Int64
  deriving DecidableEq

/-- The file type bits of a mode. -/
def fileType (mode : UInt64) : UInt64 := mode &&& 0o170000

def isLink (mode : UInt64) : Bool := fileType mode == 0o120000

def isRegular (mode : UInt64) : Bool := fileType mode == 0o100000

def isDirectory (mode : UInt64) : Bool := fileType mode == 0o040000

/-- An entry `readdir` yields and what `fstatat` says of it. -/
structure DirectoryEntry where
  name : Bytes
  status : Option FileIdentity

/-- One enumeration of a directory: its identity before, whether it can be enumerated, what
`readdir` yields, whether that ends without an error, and its identity after. -/
structure Listing where
  directory : Option FileIdentity
  enumerable : Bool
  entries : List DirectoryEntry
  complete : Bool
  after : Option FileIdentity

/-- One reading of a file: `none` is a call of `read` that fails. -/
structure LeafReading where
  opened : Bool
  status : Option FileIdentity
  reads : List (Option Bytes)
  after : Option FileIdentity

/-- A component of the root: what `fstatat` says and the identity of what was then opened. -/
structure RootComponent where
  status : Option FileIdentity
  opened : Option FileIdentity

structure PackageTree where
  relationsStatus : Option FileIdentity
  relationsOpened : Bool
  relationsIdentity : Option FileIdentity
  rootBefore : Listing
  relationsBefore : Listing
  manifest : LeafReading
  relation : Bytes → LeafReading
  rootAfter : Listing
  relationsAfter : Listing

-- ---------------------------------------------------------------------------
-- The root
-- ---------------------------------------------------------------------------

/-- One component of the root. Every error of the root has an empty path. -/
def openComponent (component : Bytes) (answer : RootComponent) : Except PackageSourceError Unit :=
  if component.isEmpty || component == ascii "." || component == ascii ".." ||
      component.contains 0x5C then .error ⟨.invalidRoot, []⟩
  else
    match answer.status with
    | none => .error ⟨.invalidRoot, []⟩
    | some status =>
      if isLink status.mode then .error ⟨.symbolicLink, []⟩
      else if !isDirectory status.mode then .error ⟨.invalidRoot, []⟩
      else if answer.opened != some status then .error ⟨.identityChanged, []⟩
      else .ok ()

def openComponents (answers : Nat → RootComponent) :
    Nat → List Bytes → Except PackageSourceError Unit
  | _, [] => .ok ()
  | position, component :: rest => do
    openComponent component (answers position)
    openComponents answers (position + 1) rest

/-- `OpenAbsoluteRoot` -/
def openAbsoluteRoot (root : Bytes) (opened : Bool) (answers : Nat → RootComponent) :
    Except PackageSourceError Unit :=
  if root.head? != some (byte '/') || root.contains 0 || !isValidUtf8 root then
    .error ⟨.invalidRoot, []⟩
  else if !opened then .error ⟨.invalidRoot, []⟩
  else if root.tail.isEmpty then .ok ()
  else openComponents answers 0 (root.tail.splitOn (byte '/'))

/-- `DuplicateRoot` -/
def duplicateRoot (duplicated : Bool) : Except PackageSourceError Unit :=
  if duplicated then .ok () else .error ⟨.invalidRoot, []⟩

-- ---------------------------------------------------------------------------
-- Directories
-- ---------------------------------------------------------------------------

def relations : Bytes := ascii "relations"

def connectorYaml : Bytes := ascii "connector.yaml"

def relative (directory name : Bytes) : Bytes :=
  if directory.isEmpty then name else directory ++ byte '/' :: name

def asciiFoldByte (b : UInt8) : UInt8 :=
  if byte 'A' ≤ b && b ≤ byte 'Z' then b - byte 'A' + byte 'a' else b

def asciiFold (value : Bytes) : Bytes := value.map asciiFoldByte

def validateEntryType (status : FileIdentity) (path : Bytes) : Except PackageSourceError Unit :=
  if isLink status.mode then .error ⟨.symbolicLink, path⟩
  else if isRegular status.mode then
    if status.links != 1 then .error ⟨.hardLink, path⟩ else .ok ()
  else if !isDirectory status.mode then .error ⟨.entryType, path⟩
  else .ok ()

structure DirectoryEntryIdentity where
  name : Bytes
  identity : FileIdentity
  deriving DecidableEq

structure DirectoryCapture where
  directory : FileIdentity
  entries : List DirectoryEntryIdentity
  deriving DecidableEq

section Capture

variable (limits : PackageSourceLimits) (directory : Bytes) (entryLimit : Nat)

/-- `AdmitDirectoryEntryName`; the folded names are those of the entries captured so far. -/
def admitDirectoryEntryName (captured : List DirectoryEntryIdentity) (aggregate : Nat)
    (name : Bytes) : Except PackageSourceError Unit :=
  let path := relative directory name
  if name.isEmpty || name.contains (byte '/') || name.contains 0x5C || !isValidUtf8 name ||
      path.length > limits.maxRelativePathBytes then .error ⟨.invalidPath, path⟩
  else if captured.length ≥ entryLimit || aggregate ≥ limits.maxAggregateEntries then
    .error ⟨.resourceExhausted, directory⟩
  else if captured.any fun other => asciiFold other.name == asciiFold name then
    .error ⟨.invalidPath, path⟩
  else .ok ()

/-- One turn of the enumeration. -/
def captureEntry (captured : List DirectoryEntryIdentity) (aggregate : Nat)
    (entry : DirectoryEntry) : Except PackageSourceError DirectoryEntryIdentity := do
  admitDirectoryEntryName limits directory entryLimit captured aggregate entry.name
  match entry.status with
  | none => .error ⟨.identityChanged, relative directory entry.name⟩
  | some status => do
    validateEntryType status (relative directory entry.name)
    .ok ⟨entry.name, status⟩

def isDots (name : Bytes) : Bool := name == ascii "." || name == ascii ".."

/-- The enumeration: what was captured and the entries counted. -/
def captureEntries : List DirectoryEntryIdentity → Nat → List DirectoryEntry →
    Except PackageSourceError (List DirectoryEntryIdentity × Nat)
  | captured, aggregate, [] => .ok (captured, aggregate)
  | captured, aggregate, entry :: rest =>
    if isDots entry.name then captureEntries captured aggregate rest
    else do
      let identity ← captureEntry limits directory entryLimit captured aggregate entry
      captureEntries (captured ++ [identity]) (aggregate + 1) rest

/-- `std::sort` by name. -/
def sortEntries (entries : List DirectoryEntryIdentity) : List DirectoryEntryIdentity :=
  entries.mergeSort fun left right => (compareString left.name right.name).isLE

def captureDirectory (listing : Listing) (aggregate : Nat) :
    Except PackageSourceError (DirectoryCapture × Nat) :=
  match listing.directory with
  | none => .error ⟨.identityChanged, directory⟩
  | some identity => do
    throwIf (!listing.enumerable) ⟨.identityChanged, directory⟩
    let (captured, aggregate) ←
      captureEntries limits directory entryLimit [] aggregate listing.entries
    throwIf (!listing.complete) ⟨.identityChanged, directory⟩
    throwIf (listing.after != some identity) ⟨.identityChanged, directory⟩
    .ok (⟨identity, sortEntries captured⟩, aggregate)

end Capture

def findEntry (capture : DirectoryCapture) (name : Bytes) : Option DirectoryEntryIdentity :=
  capture.entries.find? (·.name == name)

/-- `OpenRelations` -/
def openRelations (tree : PackageTree) : Except PackageSourceError Unit :=
  match tree.relationsStatus with
  | none => .error ⟨.invalidPath, relations⟩
  | some status =>
    if isLink status.mode then .error ⟨.symbolicLink, relations⟩
    else if !isDirectory status.mode then .error ⟨.entryType, relations⟩
    else if !tree.relationsOpened then .error ⟨.identityChanged, relations⟩
    else .ok ()

structure Custody where
  rootBefore : DirectoryCapture
  relationsBefore : DirectoryCapture

/-- The manifest is a file and `relations` the directory that was opened. -/
def checkLayout (tree : PackageTree) (custody : Custody) : Except PackageSourceError Unit :=
  match findEntry custody.rootBefore connectorYaml, findEntry custody.rootBefore relations with
  | some manifest, some directory =>
    if !isRegular manifest.identity.mode || !isDirectory directory.identity.mode then
      .error ⟨.invalidPath, connectorYaml⟩
    else
      match tree.relationsIdentity with
      | none => .error ⟨.identityChanged, relations⟩
      | some identity =>
        if directory.identity != identity then .error ⟨.invalidPath, connectorYaml⟩ else .ok ()
  | _, _ => .error ⟨.invalidPath, connectorYaml⟩

section Acquisition

variable (limits : PackageSourceLimits) (tree : PackageTree)

/-- The constructor of `PackageDirectoryCustody::Impl`. -/
def openCustody : Except PackageSourceError Custody := do
  openRelations tree
  let (rootBefore, aggregate) ←
    captureDirectory limits [] limits.maxRootEntries tree.rootBefore 0
  let (relationsBefore, _) ←
    captureDirectory limits relations limits.maxRelationEntries tree.relationsBefore aggregate
  let custody : Custody := ⟨rootBefore, relationsBefore⟩
  checkLayout tree custody
  .ok custody

/-- `VerifyUnchanged` -/
def verifyUnchanged (custody : Custody) : Except PackageSourceError Unit := do
  let (rootAfter, aggregate) ← captureDirectory limits [] limits.maxRootEntries tree.rootAfter 0
  let (relationsAfter, _) ←
    captureDirectory limits relations limits.maxRelationEntries tree.relationsAfter aggregate
  throwIf (custody.rootBefore != rootAfter || custody.relationsBefore != relationsAfter)
    ⟨.identityChanged, []⟩

-- ---------------------------------------------------------------------------
-- Leaves
-- ---------------------------------------------------------------------------

def readChunks (path : Bytes) (aggregate : Nat) :
    Bytes → List (Option Bytes) → Except PackageSourceError Bytes
  | bytes, [] => .ok bytes
  | _, none :: _ => .error ⟨.identityChanged, path⟩
  | bytes, some chunk :: rest =>
    if chunk.length > limits.maxFileBytes - bytes.length ||
        chunk.length > limits.maxAggregateBytes - aggregate - bytes.length then
      .error ⟨.resourceExhausted, path⟩
    else readChunks path aggregate (bytes ++ chunk) rest

/-- `ReadLeaf` -/
def readLeaf (path : Bytes) (captured : FileIdentity) (aggregate : Nat) (leaf : LeafReading) :
    Except PackageSourceError Bytes :=
  if !leaf.opened then .error ⟨.identityChanged, path⟩
  else
    match leaf.status with
    | none => .error ⟨.identityChanged, path⟩
    | some before => do
      validateEntryType before path
      throwIf (before != captured) ⟨.identityChanged, path⟩
      throwIf (before.size.toNat > limits.maxFileBytes ||
        before.size.toNat > limits.maxAggregateBytes - aggregate) ⟨.resourceExhausted, path⟩
      let bytes ← readChunks limits path aggregate [] leaf.reads
      throwIf (leaf.after != some before || bytes.length != before.size.toNat)
        ⟨.identityChanged, path⟩
      .ok bytes

end Acquisition

-- ---------------------------------------------------------------------------
-- The manifest
-- ---------------------------------------------------------------------------

/-- The error of the parser, with its file and where its span begins. -/
def yamlError (file bytes : Bytes) : FailsafeYaml.Stop → FailsafeYamlError
  | .thrown error => ⟨error.code, file, (error.place.line (splitLines bytes)).toUInt64,
      (error.place.column (splitLines bytes)).toUInt64⟩
  -- the parser always comes to its end
  | .running => ⟨.malformedDocument, file, 1, 1⟩

/-- `ParseFailsafeYaml` with the file of its error. -/
def parseDocument (file bytes : Bytes) (budget : Budget) :
    Except FailsafeYamlError (Node × Budget) :=
  (parseFailsafeYaml bytes budget).mapError (yamlError file bytes)

def isIdentifier (value : Bytes) : Bool := !value.isEmpty && safeField value

/-- The loop over the listed relations. -/
def relationIds (maxRelations : Nat) : List Bytes → List Node →
    Except PackageSourceError (List Bytes)
  | ids, [] => .ok ids
  | ids, node :: rest =>
    match node with
    | .scalar value _ =>
      if !isIdentifier value || ids.contains value then
        .error ⟨.manifestRelations, connectorYaml⟩
      else if ids.length ≥ maxRelations then .error ⟨.resourceExhausted, connectorYaml⟩
      else relationIds maxRelations (ids ++ [value]) rest
    | _ => .error ⟨.manifestRelations, connectorYaml⟩

/-- The relation list of a parsed manifest. -/
def listedRelations (root : Node) : Except PackageSourceError (List Node) :=
  match root with
  | .mapping entries =>
    match (entries.find? (·.1 == relations)).map Prod.snd with
    | some (.sequence values) =>
      if values.isEmpty then .error ⟨.manifestRelations, connectorYaml⟩ else .ok values
    | _ => .error ⟨.manifestRelations, connectorYaml⟩
  | _ => .error ⟨.manifestRelations, connectorYaml⟩

/-- `ManifestRelationIds` -/
def manifestRelationIds (manifest : Bytes) (maxRelations : Nat) :
    Except Failure (List Bytes) := do
  let (root, _) ←
    (parseDocument connectorYaml manifest ⟨FailsafeYaml.Limits.v1, 0⟩).mapError .yaml
  let values ← (listedRelations root).mapError .source
  (relationIds maxRelations [] values).mapError .source

-- ---------------------------------------------------------------------------
-- Relations
-- ---------------------------------------------------------------------------

def relationFile (id : Bytes) : Bytes := id ++ ascii ".yaml"

def endsWithYamlCaseInsensitive (name : Bytes) : Bool :=
  name.length ≥ 5 && asciiFold (name.drop (name.length - 5)) == ascii ".yaml"

/-- An entry of `relations` the manifest does not list. -/
def isUnlisted (ids : List Bytes) (entry : DirectoryEntryIdentity) : Bool :=
  endsWithYamlCaseInsensitive entry.name && !(ids.map relationFile).contains entry.name

def isListed (capture : DirectoryCapture) (name : Bytes) : Bool :=
  (findEntry capture name).any fun entry => isRegular entry.identity.mode

/-- `ValidateListedRelations` -/
def validateListedRelations (custody : Custody) (ids : List Bytes) :
    Except PackageSourceError Unit :=
  match custody.relationsBefore.entries.find? (isUnlisted ids) with
  | some entry => .error ⟨.invalidPath, relative relations entry.name⟩
  | none =>
    let expected := (ids.map relationFile).mergeSort fun left right =>
      (compareString left right).isLE
    match expected.find? fun name => !isListed custody.relationsBefore name with
    | some name => .error ⟨.invalidPath, relative relations name⟩
    | none => .ok ()

structure SemanticSourceFile where
  path : Bytes
  bytes : Bytes
  deriving DecidableEq, Repr

structure PackageSourceSnapshot where
  files : List SemanticSourceFile
  relationIds : List Bytes

section Files

variable (limits : PackageSourceLimits) (tree : PackageTree) (custody : Custody)

/-- `ReadRelation` -/
def readRelation (id : Bytes) (aggregate : Nat) : Except PackageSourceError Bytes :=
  match findEntry custody.relationsBefore (relationFile id) with
  | none => .error ⟨.invalidPath, relative relations (relationFile id)⟩
  | some entry =>
    readLeaf limits (relative relations (relationFile id)) entry.identity aggregate
      (tree.relation id)

def readRelations : Nat → List Bytes → Except PackageSourceError (List SemanticSourceFile)
  | _, [] => .ok []
  | aggregate, id :: rest => do
    let bytes ← readRelation limits tree custody id aggregate
    let files ← readRelations (aggregate + bytes.length) rest
    .ok (⟨relative relations (relationFile id), bytes⟩ :: files)

/-- `ReadManifest` -/
def readManifest : Except PackageSourceError Bytes :=
  match findEntry custody.rootBefore connectorYaml with
  -- the layout was checked
  | none => .error ⟨.invalidPath, connectorYaml⟩
  | some entry => readLeaf limits connectorYaml entry.identity 0 tree.manifest

/-- The manifest and the relations it lists. -/
def readListed : Except Failure (Bytes × List Bytes) := do
  let manifest ← (readManifest limits tree custody).mapError .source
  let ids ← manifestRelationIds manifest (limits.maxSemanticFiles - 1)
  .ok (manifest, ids)

/-- `AcquireFromCustody` -/
def acquireFromCustody : Except Failure PackageSourceSnapshot := do
  let (manifest, ids) ← readListed limits tree custody
  (validateListedRelations custody ids).mapError .source
  let files ← (readRelations limits tree custody manifest.length ids).mapError .source
  (verifyUnchanged limits tree custody).mapError .source
  .ok ⟨⟨connectorYaml, manifest⟩ :: files, ids⟩

end Files

/-- `AcquirePackageSource` and `ReacquirePackageSource`, once the root is opened. -/
def acquire (host : PackageSourceLimits) (opened : Except PackageSourceError Unit)
    (tree : PackageTree) : Except Failure PackageSourceSnapshot := do
  let limits ← effectiveLimits host
  opened.mapError .source
  let custody ← (openCustody limits tree).mapError .source
  acquireFromCustody limits tree custody

end Cuac.Connector.PackageSource

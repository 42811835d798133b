import Cuac.Cache.Sharing
import Cuac.Credential.RecordContents

/-!
# Cached rows and credentials

One executor, its cache, and the secrets that its scans use. Statements create, replace
and drop secrets in both storages, variables change, and scans resolve their credential,
open and run, each look and each store an event of its own, in any order. A process that
stops loses its cache and its temporary secrets.

`Deployment.meanings` is a history variable: what each revision was generated for. That
`GenerateCredentialIdentity` repeats nothing is a hypothesis about the events.

Main results: `sound_run`, `cached_rows_keep_credentials`.
-/

namespace Cuac.Credential.Isolation

open Cuac.Lib Cuac.Cache Throwing

-- ---------------------------------------------------------------------------
-- Keys
-- ---------------------------------------------------------------------------

/-- `CacheCredentialTag` -/
inductive CacheCredentialTag
  | anonymous
  | opaqueIdentity (authority revision : CredentialIdentity)
  deriving DecidableEq

/-- `CacheKey`: two keys are equal where both parts are. -/
structure CacheKey (σ : Type) where
  semantic : σ
  credential : CacheCredentialTag
  deriving DecidableEq

/-- `CredentialTag` of a cache-enabled scan. -/
def credentialTag : Option ResolvedCredential → CacheCredentialTag
  | none => .anonymous
  | some credential => .opaqueIdentity credential.authority credential.revision

-- ---------------------------------------------------------------------------
-- The deployment
-- ---------------------------------------------------------------------------

/-- Where `Resolve` is, for one scan. -/
inductive Resolution
  | begun (name : Bytes)
  | looked (name : Bytes) (memory : Option CuacSecret)
  | selected (secret : CuacSecret)
  | resolved (credential : ResolvedCredential)
  | ended

/-- What a revision was generated for. -/
structure Meaning where
  revision : CredentialIdentity
  value : Bytes
  source : CredentialSource

structure Deployment (σ β μ : Type) where
  /-- Secrets that were created and are not stored yet, with their statements. -/
  prepared : List (NewSecret × CreateSecretInput)
  memoryMayContainCuac : Bool
  /-- The temporary storage as each commit left it, the last one first. -/
  memory : List μ
  store : Store
  environment : Bytes → Option Bytes
  resolutions : List Resolution
  cache : System (CacheKey σ) β
  /-- What each stream of the cache was opened with. -/
  scans : List (Option ResolvedCredential)
  /-- History: what the revisions stand for. -/
  meanings : List Meaning

/-- How a cache-enabled scan is opened, but for its credential. -/
structure ScanOpening (σ β : Type) where
  semantic : σ
  policy : FreshnessPolicy
  maxCandidateBytes : UInt64
  admissionRuntime : Bool
  script : Script β
  now : UInt64

inductive Change (σ β : Type)
  | create (input : CreateSecretInput) (source : CredentialSource) (view : Nat)
      (authority revision : CredentialIdentity)
  | storeTemporary (index : Nat)
  | storePersistent (index : Nat) (autoCommit : Bool) (recordId : CredentialIdentity)
      (dangling : PersistentMetadata) (outcomes : List Outcome)
  /-- Another extension stores a temporary secret. -/
  | storeForeign (name : Bytes) (onConflict : OnCreateConflict)
  | dropTemporary (name : Bytes)
  | dropPersistent (request : DropRequest) (outcomes : List Outcome)
  | setEnvironment (name : Bytes) (value : Option Bytes)
  | beginScan (name : Bytes)
  | lookInMemory (index view : Nat)
  | lookInStore (index : Nat) (enabled : Bool) (outcomes : List Outcome)
  | readValue (index : Nat) (revision : CredentialIdentity)
  | openScan (index : Nat) (opening : ScanOpening σ β)
  | openAnonymous (opening : ScanOpening σ β)
  | call (index : Nat) (call : Call)
  | closeCache
  /-- The process ends and another one starts. -/
  | restart

/-- The identities that a change had generated for secrets and values. -/
def Change.generated {σ β : Type} : Change σ β → List CredentialIdentity
  | .create _ _ _ authority revision => [authority, revision]
  | .readValue _ revision => [revision]
  | _ => []

namespace Deployment

variable {σ β μ : Type} [DecidableEq σ] (storage : TemporaryStorage μ)
  (empty : ResultCache (CacheKey σ) β) (rowCount : β → UInt64)

def newest (d : Deployment σ β μ) : μ := d.memory.head?.getD storage.empty

/-- The storage as an older transaction may still see it. -/
def seenAt (d : Deployment σ β μ) (view : Nat) : μ := d.memory[view]?.getD storage.empty

def noStreams : System (CacheKey σ) β := ⟨⟨empty, [], [], 0, 0⟩, []⟩

def restarted (d : Deployment σ β μ) : Deployment σ β μ :=
  { d with
    prepared := [], memoryMayContainCuac := false, memory := [storage.empty]
    store := d.store.restarted
    resolutions := [], cache := noStreams empty, scans := [] }

/-- A call of the persistent storage; what it returns goes to `next`. -/
def withStore {α : Type} (d : Deployment σ β μ) (outcomes : List Outcome) (m : Program α)
    (next : Deployment σ β μ → Option α → Deployment σ β μ) : Deployment σ β μ :=
  match m { d.store with outcomes := outcomes } with
  | (.ok a, store) => next { d with store := store } (some a)
  | (.error .stopped, store) => restarted storage empty { d with store := store }
  | (.error _, store) => next { d with store := store } none

def resolution (d : Deployment σ β μ) (index : Nat) : Resolution :=
  d.resolutions[index]?.getD .ended

def withResolution (d : Deployment σ β μ) (index : Nat) (resolution : Resolution) :
    Deployment σ β μ :=
  { d with resolutions := d.resolutions.set index resolution }

/-- What a failed or a complete selection leaves. -/
def afterSelection (memory : Option CuacSecret) : Option (Option CuacSecret) → Resolution
  | none => .ended
  | some persistent =>
    match memory with
    | some secret => .selected secret
    | none =>
      match persistent with
      | some secret => .selected secret
      | none => .ended

/-- `WrapCache` -/
def openStream (d : Deployment σ β μ) (credential : Option ResolvedCredential)
    (opening : ScanOpening σ β) : Deployment σ β μ :=
  { d with
    cache := d.cache.step rowCount (.open
      ⟨⟨opening.semantic, credentialTag credential⟩, opening.policy, opening.maxCandidateBytes,
        opening.admissionRuntime⟩ opening.script opening.now)
    scans := d.scans ++ [credential] }

def step (d : Deployment σ β μ) : Change σ β → Deployment σ β μ
  | .create input source view authority revision =>
    match createCredentialSecret storage input source (d.seenAt storage view) authority revision with
    | .error _ => d
    | .ok secret =>
      { d with
        prepared := d.prepared ++ [(secret, input)]
        memoryMayContainCuac :=
          d.memoryMayContainCuac || input.persistType == .temporary
        meanings := d.meanings ++ [⟨revision, secret.secret.payload, source⟩] }
  | .storeTemporary index =>
    match d.prepared[index]? with
    | none => d
    | some (secret, input) =>
      if input.persistType == .temporary then
        { d with
          prepared := d.prepared.eraseIdx index
          memory :=
            storage.store (d.newest storage) secret.secret.name (.cuac secret.secret)
              input.onConflict :: d.memory }
      else d
  | .storePersistent index autoCommit recordId dangling outcomes =>
    match d.prepared[index]? with
    | none => d
    | some (secret, input) =>
      if input.persistType == .persistent then
        ({ d with prepared := d.prepared.eraseIdx index }).withStore storage empty outcomes
          (Credential.storePersistent
            ⟨autoCommit, true, secret, input.onConflict, recordId, dangling⟩)
          fun d _ => d
      else d
  | .storeForeign name onConflict =>
    { d with memory := storage.store (d.newest storage) name .other onConflict :: d.memory }
  | .dropTemporary name =>
    { d with memory := storage.drop (d.newest storage) name :: d.memory }
  | .dropPersistent request outcomes =>
    d.withStore storage empty outcomes (Credential.dropPersistent request) fun d _ => d
  | .setEnvironment name value =>
    { d with environment := fun other => if other == name then value else d.environment other }
  | .beginScan name => { d with resolutions := d.resolutions ++ [.begun name] }
  | .lookInMemory index view =>
    match d.resolution index with
    | .begun name =>
      d.withResolution index
        (.looked name (readMemory storage d.memoryMayContainCuac (d.seenAt storage view) name))
    | _ => d
  | .lookInStore index enabled outcomes =>
    match d.resolution index with
    | .looked name memory =>
      d.withStore storage empty outcomes (selectPersistentCredential enabled name memory.isSome)
        fun d result => d.withResolution index (afterSelection memory result)
    | _ => d
  | .readValue index revision =>
    match d.resolution index with
    | .selected secret =>
      match resolvedCredential d.environment secret revision with
      | none => d.withResolution index .ended
      | some credential =>
        { d.withResolution index (.resolved credential) with
          meanings :=
            match credential.source with
            | .config => d.meanings
            | .environment => d.meanings ++ [⟨revision, credential.value, .environment⟩] }
    | _ => d
  | .openScan index opening =>
    match d.resolution index with
    | .resolved credential =>
      (d.withResolution index .ended).openStream rowCount (some credential) opening
    | _ => d
  | .openAnonymous opening => d.openStream rowCount none opening
  | .call index call => { d with cache := d.cache.step rowCount (.call index call) }
  | .closeCache => { d with cache := d.cache.step rowCount .closeCache }
  | .restart => d.restarted storage empty

end Deployment

/-- Nothing is stored and nothing runs. -/
def deployment {σ β μ : Type} [DecidableEq σ] (storage : TemporaryStorage μ)
    (empty : ResultCache (CacheKey σ) β) (rowCount : β → UInt64)
    (environment : Bytes → Option Bytes) : Machine (Deployment σ β μ) (Change σ β) where
  start :=
    ⟨[], false, [storage.empty], Credential.storage.start, environment, [],
      Deployment.noStreams empty, [], []⟩
  step := Deployment.step storage empty rowCount

-- ---------------------------------------------------------------------------
-- What revisions stand for
-- ---------------------------------------------------------------------------

variable {σ β μ : Type} {storage : TemporaryStorage μ}

/-- A revision was generated for this payload or value. -/
def Stands (meanings : List Meaning) : Written := fun revision value source =>
  ⟨revision, value, source⟩ ∈ meanings

def SecretStands (meanings : List Meaning) (secret : CuacSecret) : Prop :=
  Stands meanings secret.revision secret.payload secret.source

def CredentialStands (meanings : List Meaning) (credential : ResolvedCredential) : Prop :=
  Stands meanings credential.revision credential.value credential.source

def Resolution.Sound (meanings : List Meaning) : Resolution → Prop
  | .begun _ => True
  | .looked _ memory => ∀ secret ∈ memory, SecretStands meanings secret
  | .selected secret => SecretStands meanings secret
  | .resolved credential => CredentialStands meanings credential
  | .ended => True

def MemorySound (storage : TemporaryStorage μ) (meanings : List Meaning) (entries : μ) : Prop :=
  ∀ (name : Bytes) (secret : CuacSecret), storage.lookup entries name = some (.cuac secret) →
    SecretStands meanings secret

/-- Every secret and every credential carries a revision that was generated for it. -/
structure Meaningful (storage : TemporaryStorage μ) (d : Deployment σ β μ) : Prop where
  prepared : ∀ p ∈ d.prepared, SecretStands d.meanings p.1.secret
  memory : ∀ entries ∈ d.memory, MemorySound storage d.meanings entries
  records : Contents (Stands d.meanings) d.store.core.records
  resolutions : ∀ r ∈ d.resolutions, r.Sound d.meanings
  scans : ∀ scan ∈ d.scans, ∀ credential ∈ scan, CredentialStands d.meanings credential

theorem Resolution.Sound.mono {r : Resolution} {meanings more : List Meaning}
    (h : r.Sound meanings) (hsub : meanings ⊆ more) : r.Sound more := by
  match r with
  | .begun _ => trivial
  | .looked _ _ => exact fun secret hsecret => hsub (h secret hsecret)
  | .selected _ => exact hsub h
  | .resolved _ => exact hsub h
  | .ended => trivial

/-- More is generated, and nothing that was is forgotten. -/
theorem Meaningful.mono {d : Deployment σ β μ} (h : Meaningful storage d) (more : List Meaning)
    (hsub : d.meanings ⊆ more) : Meaningful storage { d with meanings := more } where
  prepared := fun p hp => hsub (h.prepared p hp)
  memory := fun entries hentries key secret hsecret =>
    hsub (h.memory entries hentries key secret hsecret)
  records := h.records.mono fun _ _ _ hwritten => hsub hwritten
  resolutions := fun r hr => (h.resolutions r hr).mono hsub
  scans := fun scan hscan credential hcredential => hsub (h.scans scan hscan credential hcredential)

theorem memorySound_empty (hstorage : storage.Faithful) (meanings : List Meaning) :
    MemorySound storage meanings storage.empty := by
  intro name secret h
  rw [hstorage.empty] at h
  cases h

theorem Meaningful.newest {d : Deployment σ β μ} (hstorage : storage.Faithful)
    (h : Meaningful storage d) : MemorySound storage d.meanings (d.newest storage) := by
  unfold Deployment.newest
  cases hmemory : d.memory with
  | nil => exact memorySound_empty hstorage _
  | cons entries rest => exact h.memory entries (hmemory ▸ List.mem_cons_self)

theorem Meaningful.seenAt {d : Deployment σ β μ} (hstorage : storage.Faithful)
    (h : Meaningful storage d) (view : Nat) :
    MemorySound storage d.meanings (d.seenAt storage view) := by
  unfold Deployment.seenAt
  cases hentries : d.memory[view]? with
  | none => exact memorySound_empty hstorage _
  | some entries => exact h.memory entries (List.mem_of_getElem? hentries)

theorem MemorySound.store {meanings : List Meaning} {entries : μ}
    (hstorage : storage.Faithful) (h : MemorySound storage meanings entries) (name : Bytes)
    (secret : MemorySecret) (hsecret : ∀ cuac, secret = .cuac cuac → SecretStands meanings cuac)
    (onConflict : OnCreateConflict) :
    MemorySound storage meanings (storage.store entries name secret onConflict) := by
  intro other found hfound
  rcases hstorage.store hfound with ⟨-, hstored⟩ | hold
  · exact hsecret found hstored.symm
  · exact h other found hold

theorem MemorySound.drop {meanings : List Meaning} {entries : μ} (hstorage : storage.Faithful)
    (h : MemorySound storage meanings entries) (name : Bytes) :
    MemorySound storage meanings (storage.drop entries name) := by
  intro other found hfound
  exact h other found (hstorage.drop hfound).2

theorem Meaningful.withMemory {d : Deployment σ β μ} (h : Meaningful storage d) {entries : μ}
    (hentries : MemorySound storage d.meanings entries) :
    Meaningful storage { d with memory := entries :: d.memory } where
  prepared := h.prepared
  memory := fun other hother => by
    rcases List.mem_cons.mp hother with rfl | hother
    · exact hentries
    · exact h.memory other hother
  records := h.records
  resolutions := h.resolutions
  scans := h.scans

theorem Meaningful.withResolution {d : Deployment σ β μ} (h : Meaningful storage d) (index : Nat)
    {r : Resolution} (hr : r.Sound d.meanings) : Meaningful storage (d.withResolution index r) where
  prepared := h.prepared
  memory := h.memory
  records := h.records
  resolutions := fun other hother => by
    rcases List.mem_or_eq_of_mem_set hother with hother | rfl
    · exact h.resolutions other hother
    · exact hr
  scans := h.scans

theorem Meaningful.resolution {d : Deployment σ β μ} (h : Meaningful storage d) (index : Nat) :
    (d.resolution index).Sound d.meanings := by
  unfold Deployment.resolution
  cases hr : d.resolutions[index]? with
  | none => trivial
  | some r => exact h.resolutions r (List.mem_of_getElem? hr)

section Steps

variable [DecidableEq σ] (empty : ResultCache (CacheKey σ) β) (rowCount : β → UInt64)

omit [DecidableEq σ] in
/-- A call of the store, by how it ends. -/
theorem withStore_cases {α : Type} {d : Deployment σ β μ} {outcomes : List Outcome} {m : Program α}
    {next : Deployment σ β μ → Option α → Deployment σ β μ} {P : Deployment σ β μ → Prop}
    {Q : α → Store → Prop} {E : Store → Prop}
    (hm : Yields m { d.store with outcomes := outcomes } Q fun _ => E)
    (hok : ∀ a store, Q a store → P (next { d with store := store } (some a)))
    (hfail : ∀ store, E store → P (next { d with store := store } none))
    (hstop : ∀ store, E store → P (Deployment.restarted storage empty { d with store := store })) :
    P (d.withStore storage empty outcomes m next) := by
  unfold Yields at hm
  unfold Deployment.withStore
  cases hresult : m { d.store with outcomes := outcomes } with
  | mk result store =>
    rw [hresult] at hm
    match result with
    | .ok a => exact hok a store hm
    | .error .stopped => exact hstop store hm
    | .error .storageFailure => exact hfail store hm
    | .error .autocommitRequired => exact hfail store hm
    | .error .conflict => exact hfail store hm
    | .error .missing => exact hfail store hm

omit [DecidableEq σ] in
theorem Meaningful.withStore {d : Deployment σ β μ} (h : Meaningful storage d) {store : Store}
    (hstore : Contents (Stands d.meanings) store.core.records) :
    Meaningful storage { d with store := store } where
  prepared := h.prepared
  memory := h.memory
  records := hstore
  resolutions := h.resolutions
  scans := h.scans

omit [DecidableEq σ] in
theorem Meaningful.restarted {d : Deployment σ β μ} (hstorage : storage.Faithful)
    (h : Meaningful storage d) :
    Meaningful storage (d.restarted storage empty) where
  prepared := fun _ hp => nomatch hp
  memory := fun entries hentries => by
    rw [List.mem_singleton.mp hentries]
    exact memorySound_empty hstorage _
  records := h.records
  resolutions := fun _ hr => nomatch hr
  scans := fun _ hscan => nomatch hscan

theorem Meaningful.openStream {d : Deployment σ β μ} (h : Meaningful storage d)
    {credential : Option ResolvedCredential}
    (hcredential : ∀ c ∈ credential, CredentialStands d.meanings c) (opening : ScanOpening σ β) :
    Meaningful storage (d.openStream rowCount credential opening) where
  prepared := h.prepared
  memory := h.memory
  records := h.records
  resolutions := h.resolutions
  scans := fun scan hscan => by
    rcases List.mem_append.mp hscan with hscan | hscan
    · exact h.scans scan hscan
    · rw [List.mem_singleton.mp hscan]
      exact hcredential

/-- A secret is created with the generated revision. -/
theorem createCredentialSecret_eq_ok {input : CreateSecretInput} {source : CredentialSource}
    {view : μ} {authority revision : CredentialIdentity} {secret : NewSecret}
    (h : createCredentialSecret storage input source view authority revision = .ok secret) :
    secret.secret.revision = revision ∧ secret.secret.source = source := by
  unfold createCredentialSecret at h
  obtain ⟨_, -, h⟩ := bind_eq_ok.mp h
  obtain ⟨payload, -, h⟩ := bind_eq_ok.mp h
  unfold newSecret at h
  split at h
  · obtain rfl := Except.ok.inj h
    exact ⟨rfl, rfl⟩
  · cases h

/-- A configured secret stands for its payload; the value of a variable gets the
generated revision. -/
theorem resolvedCredential_cases {environment : Bytes → Option Bytes} {secret : CuacSecret}
    {generated : CredentialIdentity} {credential : ResolvedCredential}
    (h : resolvedCredential environment secret generated = some credential) :
    (credential.source = .config ∧ credential.revision = secret.revision ∧
        credential.value = secret.payload ∧ secret.source = .config) ∨
      (credential.source = .environment ∧ credential.revision = generated) := by
  unfold resolvedCredential at h
  obtain ⟨⟨value, revision⟩, hvalue, h⟩ := Option.bind_eq_some_iff.mp h
  dsimp only at h
  split at h
  · cases h
  obtain rfl := Option.some.inj h
  cases hsource : secret.source with
  | config =>
    rw [selectedValue, hsource] at hvalue
    obtain ⟨rfl, rfl⟩ := Prod.mk.inj (Option.some.inj hvalue)
    exact .inl ⟨rfl, rfl, rfl, rfl⟩
  | environment =>
    rw [selectedValue, hsource] at hvalue
    obtain ⟨_, -, hpair⟩ := Option.map_eq_some_iff.mp hvalue
    obtain ⟨rfl, rfl⟩ := Prod.mk.inj hpair
    exact .inr ⟨rfl, rfl⟩

theorem readMemory_sound {meanings : List Meaning} {view : μ}
    (h : MemorySound storage meanings view) (mayContainCuac : Bool) (name : Bytes) :
    ∀ secret ∈ readMemory storage mayContainCuac view name, SecretStands meanings secret := by
  intro secret hsecret
  unfold readMemory memorySecret at hsecret
  split at hsecret
  · split at hsecret
    · rename_i found hfound
      obtain rfl := Option.mem_some_iff.mp hsecret
      exact h _ _ hfound
    · cases hsecret
  · cases hsecret

theorem afterSelection_sound {meanings : List Meaning} {memory : Option CuacSecret}
    {result : Option (Option CuacSecret)} (hmemory : ∀ secret ∈ memory, SecretStands meanings secret)
    (hresult : ∀ secret, result = some (some secret) → SecretStands meanings secret) :
    (Deployment.afterSelection memory result).Sound meanings := by
  unfold Deployment.afterSelection
  split
  · trivial
  · split
    · exact hmemory _ rfl
    · split
      · exact hresult _ rfl
      · trivial

theorem Meaningful.step {d : Deployment σ β μ} (hstorage : storage.Faithful)
    (h : Meaningful storage d) (change : Change σ β) :
    Meaningful storage (d.step storage empty rowCount change) := by
  have hkeeps {α : Type} {m : Program α} (hm : KeepsContents (Stands d.meanings) m)
      (outcomes : List Outcome) := hm { d.store with outcomes := outcomes } h.records
  cases change with
  -- The new secret stands for what it was created with, under its fresh revision.
  | create input source view authority revision =>
    unfold Deployment.step
    dsimp only
    split
    · exact h
    · rename_i secret hsecret
      obtain ⟨hrevision, hsource⟩ := createCredentialSecret_eq_ok hsecret
      have hmore := h.mono (d.meanings ++ [⟨revision, secret.secret.payload, source⟩])
        (List.subset_append_left _ _)
      refine ⟨fun p hp => ?_, hmore.memory, hmore.records, hmore.resolutions, hmore.scans⟩
      rcases List.mem_append.mp hp with hp | hp
      · exact hmore.prepared p hp
      · rw [List.mem_singleton.mp hp]
        refine List.mem_append_right _ (List.mem_singleton.mpr ?_)
        rw [hrevision, hsource]
  | storeTemporary index =>
    unfold Deployment.step
    dsimp only
    split
    · exact h
    · rename_i secret input hprepared
      split
      · have hstands := h.prepared _ (List.mem_of_getElem? hprepared)
        have hsame (cuac : CuacSecret) (hcuac : MemorySecret.cuac secret.secret = .cuac cuac) :
            SecretStands d.meanings cuac := by
          cases hcuac
          exact hstands
        have hmemory := h.withMemory
          ((h.newest hstorage).store hstorage secret.secret.name _ hsame input.onConflict)
        exact ⟨fun p hp => h.prepared p (List.mem_of_mem_eraseIdx hp), hmemory.memory,
          hmemory.records, hmemory.resolutions, hmemory.scans⟩
      · exact h
  -- However the call ends, the records hold contents that stand; a crash leaves memory empty.
  | storePersistent index autoCommit recordId dangling outcomes =>
    unfold Deployment.step
    dsimp only
    split
    · exact h
    · rename_i secret input hprepared
      split
      · have hstands := h.prepared _ (List.mem_of_getElem? hprepared)
        have hrest : Meaningful storage { d with prepared := d.prepared.eraseIdx index } :=
          ⟨fun p hp => h.prepared p (List.mem_of_mem_eraseIdx hp), h.memory, h.records,
            h.resolutions, h.scans⟩
        have hkept := hkeeps (keepsContents_storePersistent
          ⟨autoCommit, true, secret, input.onConflict, recordId, dangling⟩ hstands) outcomes
        refine withStore_cases empty hkept (fun _ store hstore => ?_) (fun store hstore => ?_)
          fun store hstore => ?_
        · exact hrest.withStore hstore
        · exact hrest.withStore hstore
        · exact (hrest.withStore hstore).restarted empty hstorage
      · exact h
  | storeForeign name onConflict =>
    exact h.withMemory
      ((h.newest hstorage).store hstorage name .other (fun _ hcuac => nomatch hcuac) onConflict)
  | dropTemporary name => exact h.withMemory ((h.newest hstorage).drop hstorage name)
  | dropPersistent request outcomes =>
    show Meaningful storage
      (d.withStore storage empty outcomes (Credential.dropPersistent request) fun d _ => d)
    refine withStore_cases empty (hkeeps (keepsContents_dropPersistent request) outcomes)
      (fun _ store hstore => ?_) (fun store hstore => ?_) fun store hstore => ?_
    · exact h.withStore hstore
    · exact h.withStore hstore
    · exact (h.withStore hstore).restarted empty hstorage
  | setEnvironment name value =>
    exact ⟨h.prepared, h.memory, h.records, h.resolutions, h.scans⟩
  | beginScan name =>
    refine ⟨h.prepared, h.memory, h.records, fun r hr => ?_, h.scans⟩
    rcases List.mem_append.mp hr with hr | hr
    · exact h.resolutions r hr
    · rw [List.mem_singleton.mp hr]
      trivial
  | lookInMemory index view =>
    unfold Deployment.step
    dsimp only
    split
    · exact h.withResolution index (readMemory_sound (h.seenAt hstorage view) _ _)
    · exact h
  -- The secret that is selected is one of the store, or the one memory had.
  | lookInStore index enabled outcomes =>
    unfold Deployment.step
    dsimp only
    split
    · rename_i name memory hlooked
      have hmemory : ∀ secret ∈ memory, SecretStands d.meanings secret := by
        have hsound := h.resolution index
        rw [hlooked] at hsound
        exact hsound
      refine withStore_cases empty
        (yields_selectPersistentCredential enabled name memory.isSome
          (s := { d.store with outcomes := outcomes }) h.records)
        (fun result store hstore => ?_) (fun store hstore => ?_) fun store hstore => ?_
      · refine (h.withStore hstore.1).withResolution index (afterSelection_sound hmemory ?_)
        intro secret hsecret
        exact hstore.2 secret (Option.some.inj hsecret)
      · exact (h.withStore hstore).withResolution index
          (afterSelection_sound hmemory fun secret hsecret => nomatch hsecret)
      · exact (h.withStore hstore).restarted empty hstorage
    · exact h
  -- A value from the environment gets a revision of its own, so it stands from here on.
  | readValue index revision =>
    unfold Deployment.step
    dsimp only
    split
    · rename_i secret hselected
      have hsecret : SecretStands d.meanings secret := by
        have hsound := h.resolution index
        rw [hselected] at hsound
        exact hsound
      split
      · exact h.withResolution index (r := .ended) trivial
      · rename_i credential hcredential
        rcases resolvedCredential_cases hcredential with
          ⟨hconfig, hrevision, hvalue, hsource⟩ | ⟨henvironment, hrevision⟩
        · have hstands : CredentialStands d.meanings credential := by
            rw [CredentialStands, hrevision, hvalue, hconfig, ← hsource]
            exact hsecret
          rw [hconfig]
          exact h.withResolution index hstands
        · rw [henvironment]
          have hmore := h.mono (d.meanings ++ [⟨revision, credential.value, .environment⟩])
            (List.subset_append_left _ _)
          refine hmore.withResolution index (List.mem_append_right _ (List.mem_singleton.mpr ?_))
          rw [hrevision, henvironment]
    · exact h
  | openScan index opening =>
    unfold Deployment.step
    dsimp only
    split
    · rename_i credential hresolved
      have hstands : CredentialStands d.meanings credential := by
        have hsound := h.resolution index
        rw [hresolved] at hsound
        exact hsound
      refine (h.withResolution index (r := .ended) trivial).openStream rowCount (fun c hc => ?_)
        opening
      obtain rfl := Option.mem_some_iff.mp hc
      exact hstands
    · exact h
  | openAnonymous opening =>
    refine h.openStream rowCount (fun c hc => ?_) opening
    cases hc
  | call index call => exact ⟨h.prepared, h.memory, h.records, h.resolutions, h.scans⟩
  | closeCache => exact ⟨h.prepared, h.memory, h.records, h.resolutions, h.scans⟩
  | restart => exact h.restarted empty hstorage

-- ---------------------------------------------------------------------------
-- Who holds a credential
-- ---------------------------------------------------------------------------

def Resolution.credential? : Resolution → Option ResolvedCredential
  | .resolved credential => some credential
  | _ => none

/-- A resolution under way, or a stream that was opened. -/
inductive Holder
  | resolution (index : Nat)
  | scan (index : Nat)

/-- The credential that a holder has. -/
def Deployment.heldBy (d : Deployment σ β μ) : Holder → Option ResolvedCredential
  | .resolution index => (d.resolution index).credential?
  | .scan index => d.scans[index]?.join

/-- What a change leaves alone: everything about credentials that are resolved. -/
structure Frame (d d' : Deployment σ β μ) : Prop where
  meanings : d'.meanings = d.meanings
  cache : d'.cache = d.cache
  scans : d'.scans = d.scans
  held : ∀ holder credential, d'.heldBy holder = some credential →
    d.heldBy holder = some credential

omit [DecidableEq σ] in
theorem Frame.of_resolutions {d d' : Deployment σ β μ} (hmeanings : d'.meanings = d.meanings)
    (hcache : d'.cache = d.cache) (hscans : d'.scans = d.scans)
    (hresolutions : d'.resolutions = d.resolutions) : Frame d d' := by
  refine ⟨hmeanings, hcache, hscans, fun holder credential h => ?_⟩
  cases holder with
  | resolution index =>
    simp only [Deployment.heldBy, Deployment.resolution] at h ⊢
    rwa [hresolutions] at h
  | scan index =>
    simp only [Deployment.heldBy] at h ⊢
    rwa [hscans] at h

omit [DecidableEq σ] in
theorem resolution_withResolution (d : Deployment σ β μ) (index other : Nat) (r : Resolution) :
    (d.withResolution index r).resolution other = d.resolution other ∨
      other = index ∧ (d.withResolution index r).resolution other = r := by
  unfold Deployment.resolution Deployment.withResolution
  rw [List.getElem?_set]
  by_cases hindex : index = other
  · subst hindex
    rw [if_pos rfl]
    split
    · exact .inr ⟨rfl, rfl⟩
    · rename_i hshort
      rw [List.getElem?_eq_none (Nat.not_lt.mp hshort)]
      exact .inl rfl
  · rw [if_neg hindex]
    exact .inl rfl

omit [DecidableEq σ] in
theorem resolution_withResolution_self {d : Deployment σ β μ} {index : Nat}
    {credential : ResolvedCredential} (h : d.resolution index = .resolved credential)
    (r : Resolution) : (d.withResolution index r).resolution index = r := by
  have hlt : index < d.resolutions.length := by
    by_contra hlong
    rw [Deployment.resolution, List.getElem?_eq_none (Nat.not_lt.mp hlong)] at h
    cases h
  rw [Deployment.resolution, Deployment.withResolution, List.getElem?_set_self hlt]
  rfl

omit [DecidableEq σ] in
/-- A resolution moves on and still has no credential. -/
theorem Frame.withResolution (d : Deployment σ β μ) (index : Nat) {r : Resolution}
    (hr : r.credential? = none) : Frame d (d.withResolution index r) := by
  refine ⟨rfl, rfl, rfl, fun holder credential h => ?_⟩
  cases holder with
  | resolution other =>
    simp only [Deployment.heldBy] at h ⊢
    rcases resolution_withResolution d index other r with hsame | ⟨-, hnew⟩
    · rwa [hsame] at h
    · rw [hnew, hr] at h
      cases h
  | scan other => exact h

omit [DecidableEq σ] in
theorem Frame.trans {d d' d'' : Deployment σ β μ} (h : Frame d d') (h' : Frame d' d'') :
    Frame d d'' where
  meanings := h'.meanings.trans h.meanings
  cache := h'.cache.trans h.cache
  scans := h'.scans.trans h.scans
  held := fun holder credential hheld => h.held holder credential (h'.held holder credential hheld)

variable (storage) in
/-- What a change does to the credentials that are resolved and to the cache. -/
inductive Effect (d : Deployment σ β μ) : Deployment σ β μ → List CredentialIdentity → Prop
  | frame {t : Deployment σ β μ} {generated : List CredentialIdentity} (h : Frame d t) :
      Effect d t generated
  | restart {t : Deployment σ β μ} {generated : List CredentialIdentity} (h : Frame d t) :
      Effect d (t.restarted storage empty) generated
  | create {t : Deployment σ β μ} {generated : List CredentialIdentity} {meaning : Meaning}
      (h : Frame d t) (hrevision : meaning.revision ∈ generated) :
      Effect d { t with meanings := d.meanings ++ [meaning] } generated
  | config {index : Nat} {credential : ResolvedCredential} {generated : List CredentialIdentity}
      (hsource : credential.source = .config) (hstands : CredentialStands d.meanings credential) :
      Effect d (d.withResolution index (.resolved credential)) generated
  | environment {index : Nat} {credential : ResolvedCredential}
      (hsource : credential.source = .environment) :
      Effect d { d.withResolution index (.resolved credential) with
        meanings := d.meanings ++ [⟨credential.revision, credential.value, .environment⟩] }
        [credential.revision]
  | openScan {index : Nat} {credential : ResolvedCredential} {opening : ScanOpening σ β}
      {generated : List CredentialIdentity} (h : d.resolution index = .resolved credential) :
      Effect d ((d.withResolution index .ended).openStream rowCount (some credential) opening)
        generated
  | openAnonymous {opening : ScanOpening σ β} {generated : List CredentialIdentity} :
      Effect d (d.openStream rowCount none opening) generated
  | cacheCall {index : Nat} {call : Call} {generated : List CredentialIdentity} :
      Effect d { d with cache := d.cache.step rowCount (.call index call) } generated
  | cacheClosed {generated : List CredentialIdentity} :
      Effect d { d with cache := d.cache.step rowCount .closeCache } generated

omit [DecidableEq σ] in
theorem Frame.withStore (d : Deployment σ β μ) (store : Store) : Frame d { d with store := store } :=
  .of_resolutions rfl rfl rfl rfl

omit [DecidableEq σ] in
theorem Frame.withMemory (d : Deployment σ β μ) (memory : List μ) :
    Frame d { d with memory := memory } :=
  .of_resolutions rfl rfl rfl rfl

/-- A call of the store that keeps the frame, or stops the process. -/
theorem effect_withStore {α : Type} {d start : Deployment σ β μ} {outcomes : List Outcome}
    {m : Program α} {next : Deployment σ β μ → Option α → Deployment σ β μ}
    {generated : List CredentialIdentity} (hstart : Frame d start)
    (hnext : ∀ store result, Frame start (next { start with store := store } result)) :
    Effect storage empty rowCount d (start.withStore storage empty outcomes m next) generated := by
  have hany : Yields m { start.store with outcomes := outcomes } (fun _ _ => True)
      fun _ _ => True := by
    unfold Yields
    split <;> trivial
  refine withStore_cases (P := fun t => Effect storage empty rowCount d t generated) empty hany
    (fun a store _ => ?_) (fun store _ => ?_) fun store _ => ?_
  · exact .frame (hstart.trans (hnext store (some a)))
  · exact .frame (hstart.trans (hnext store none))
  · exact .restart (hstart.trans (.withStore start store))

theorem credential?_afterSelection (memory : Option CuacSecret)
    (result : Option (Option CuacSecret)) :
    (Deployment.afterSelection memory result).credential? = none := by
  unfold Deployment.afterSelection
  split
  · rfl
  · split
    · rfl
    · split <;> rfl

/-- Every change has one of the effects. -/
theorem step_effect {d : Deployment σ β μ} (h : Meaningful storage d) (change : Change σ β) :
    Effect storage empty rowCount d (d.step storage empty rowCount change) change.generated := by
  have hsame (generated : List CredentialIdentity) : Effect storage empty rowCount d d generated :=
    .frame (.of_resolutions rfl rfl rfl rfl)
  cases change with
  | create input source view authority revision =>
    unfold Deployment.step
    dsimp only
    split
    · exact hsame _
    · rename_i secret hsecret
      exact .create (t := { d with
          prepared := d.prepared ++ [(secret, input)]
          memoryMayContainCuac := d.memoryMayContainCuac || input.persistType == .temporary })
        (.of_resolutions rfl rfl rfl rfl) (by simp [Change.generated])
  | storeTemporary index =>
    unfold Deployment.step
    dsimp only
    split
    · exact hsame _
    · split
      · exact .frame (.of_resolutions rfl rfl rfl rfl)
      · exact hsame _
  | storePersistent index autoCommit recordId dangling outcomes =>
    unfold Deployment.step
    dsimp only
    split
    · exact hsame _
    · split
      · exact effect_withStore empty rowCount (.of_resolutions rfl rfl rfl rfl)
          fun store _ => .withStore _ store
      · exact hsame _
  | storeForeign name onConflict => exact .frame (.withMemory d _)
  | dropTemporary name => exact .frame (.withMemory d _)
  | dropPersistent request outcomes =>
    show Effect storage empty rowCount d
      (d.withStore storage empty outcomes (Credential.dropPersistent request) fun d _ => d) _
    exact effect_withStore empty rowCount (.of_resolutions rfl rfl rfl rfl)
      fun store _ => .withStore d store
  | setEnvironment name value => exact .frame (.of_resolutions rfl rfl rfl rfl)
  -- The new resolution holds no credential yet.
  | beginScan name =>
    refine .frame ⟨rfl, rfl, rfl, fun holder credential hheld => ?_⟩
    cases holder with
    | resolution index =>
      simp only [Deployment.heldBy, Deployment.resolution, Deployment.step] at hheld ⊢
      rw [List.getElem?_append] at hheld
      split at hheld
      · exact hheld
      · rename_i hlong
        cases hindex : [Resolution.begun name][index - d.resolutions.length]? with
        | none =>
          rw [hindex] at hheld
          cases hheld
        | some r =>
          rw [hindex] at hheld
          obtain rfl := List.mem_singleton.mp (List.mem_of_getElem? hindex)
          cases hheld
    | scan index => exact hheld
  | lookInMemory index view =>
    unfold Deployment.step
    dsimp only
    split
    · exact .frame (.withResolution d index rfl)
    · exact hsame _
  | lookInStore index enabled outcomes =>
    unfold Deployment.step
    dsimp only
    split
    · rename_i name memory hlooked
      refine effect_withStore empty rowCount (.of_resolutions rfl rfl rfl rfl) fun store result => ?_
      exact (Frame.withStore d store).trans
        (.withResolution _ index (credential?_afterSelection memory result))
    · exact hsame _
  -- The only step besides a creation that brings a credential into being.
  | readValue index revision =>
    unfold Deployment.step
    dsimp only
    split
    · rename_i secret hselected
      have hsecret : SecretStands d.meanings secret := by
        have hsound := h.resolution index
        rw [hselected] at hsound
        exact hsound
      split
      · exact .frame (.withResolution d index rfl)
      · rename_i credential hcredential
        rcases resolvedCredential_cases hcredential with
          ⟨hconfig, hrevision, hvalue, hsource⟩ | ⟨henvironment, rfl⟩
        · have hstands : CredentialStands d.meanings credential := by
            rw [CredentialStands, hrevision, hvalue, hconfig, ← hsource]
            exact hsecret
          rw [hconfig]
          exact .config hconfig hstands
        · rw [henvironment]
          exact .environment henvironment
    · exact hsame _
  | openScan index opening =>
    unfold Deployment.step
    dsimp only
    split
    · rename_i credential hresolved
      exact .openScan hresolved
    · exact hsame _
  | openAnonymous opening => exact .openAnonymous
  | call index call => exact .cacheCall
  | closeCache => exact .cacheClosed
  | restart => exact .restart (t := d) (.of_resolutions rfl rfl rfl rfl)

-- ---------------------------------------------------------------------------
-- The invariant
-- ---------------------------------------------------------------------------

variable (storage) in
structure Sound (issued : List CredentialIdentity) (d : Deployment σ β μ) : Prop where
  meaningful : Meaningful storage d
  /-- The revisions are among the identities generated so far, each for one thing. -/
  known : ∀ m ∈ d.meanings, m.revision ∈ issued
  single : ∀ m ∈ d.meanings, ∀ n ∈ d.meanings, m.revision = n.revision → m = n
  /-- The revision of a variable's value is with one holder. -/
  apart : ∀ x y a b, d.heldBy x = some a → d.heldBy y = some b → a.source = .environment →
    a.revision = b.revision → x = y
  tags : d.cache.streams.map (·.config.key.credential) = d.scans.map credentialTag
  shared : Shared d.cache
  sourced : KeySourced d.cache.streams

omit [DecidableEq σ] in
theorem Sound.held {issued : List CredentialIdentity} {d : Deployment σ β μ}
    (h : Sound storage issued d)
    {holder : Holder} {credential : ResolvedCredential}
    (hheld : d.heldBy holder = some credential) : CredentialStands d.meanings credential := by
  cases holder with
  | resolution index =>
    have hsound := h.meaningful.resolution index
    simp only [Deployment.heldBy, Resolution.credential?] at hheld
    split at hheld
    · rename_i found hfound
      obtain rfl := Option.some.inj hheld
      rw [hfound] at hsound
      exact hsound
    · cases hheld
  | scan index =>
    simp only [Deployment.heldBy, Option.join_eq_some_iff] at hheld
    exact h.meaningful.scans _ (List.mem_of_getElem? hheld) credential rfl

omit [DecidableEq σ] in
/-- A revision stands for one value of one source. -/
theorem Sound.same_value {issued : List CredentialIdentity} {d : Deployment σ β μ}
    (h : Sound storage issued d)
    {x y : Holder} {a b : ResolvedCredential} (hx : d.heldBy x = some a) (hy : d.heldBy y = some b)
    (hrevision : a.revision = b.revision) : a.value = b.value ∧ a.source = b.source := by
  have hsame := h.single _ (h.held hx) _ (h.held hy) hrevision
  exact ⟨congrArg Meaning.value hsame, congrArg Meaning.source hsame⟩

omit [DecidableEq σ] in
theorem meanings_append {issued generated : List CredentialIdentity} {meanings : List Meaning}
    {meaning : Meaning} (hknown : ∀ m ∈ meanings, m.revision ∈ issued)
    (hsingle : ∀ m ∈ meanings, ∀ n ∈ meanings, m.revision = n.revision → m = n)
    (hfresh : (issued ++ generated).Nodup) (hmeaning : meaning.revision ∈ generated) :
    (∀ m ∈ meanings ++ [meaning], m.revision ∈ issued ++ generated) ∧
      ∀ m ∈ meanings ++ [meaning], ∀ n ∈ meanings ++ [meaning], m.revision = n.revision → m = n := by
  have hnew : ∀ m ∈ meanings, m.revision ≠ meaning.revision := by
    intro m hm heq
    exact (List.nodup_append.mp hfresh).2.2 _ (hknown m hm) _ hmeaning heq
  constructor
  · intro m hm
    rcases List.mem_append.mp hm with hm | hm
    · exact List.mem_append_left _ (hknown m hm)
    · rw [List.mem_singleton.mp hm]
      exact List.mem_append_right _ hmeaning
  · intro m hm n hn heq
    rcases List.mem_append.mp hm with hm | hm
    · rcases List.mem_append.mp hn with hn | hn
      · exact hsingle m hm n hn heq
      · rw [List.mem_singleton.mp hn] at heq
        exact absurd heq (hnew m hm)
    · rcases List.mem_append.mp hn with hn | hn
      · rw [List.mem_singleton.mp hm] at heq
        exact absurd heq.symm (hnew n hn)
      · rw [List.mem_singleton.mp hm, List.mem_singleton.mp hn]

omit [DecidableEq σ] in
/-- Holders that only moved or lost their credential are as far apart as before. -/
theorem apart_of_moved {d d' : Deployment σ β μ} (φ : Holder → Holder)
    (hmoved : ∀ x a, d'.heldBy x = some a → d.heldBy (φ x) = some a)
    (hinjective : ∀ x y a b, d'.heldBy x = some a → d'.heldBy y = some b → φ x = φ y → x = y)
    (h : ∀ x y a b, d.heldBy x = some a → d.heldBy y = some b → a.source = .environment →
      a.revision = b.revision → x = y) :
    ∀ x y a b, d'.heldBy x = some a → d'.heldBy y = some b → a.source = .environment →
      a.revision = b.revision → x = y := by
  intro x y a b hx hy hsource hrevision
  exact hinjective x y a b hx hy
    (h _ _ a b (hmoved x a hx) (hmoved y b hy) hsource hrevision)

omit [DecidableEq σ] in
/-- A resolution gets a credential that no holder of a variable's value has. -/
theorem apart_withResolution {d : Deployment σ β μ} (index : Nat) (credential : ResolvedCredential)
    (h : ∀ x y a b, d.heldBy x = some a → d.heldBy y = some b → a.source = .environment →
      a.revision = b.revision → x = y)
    (hother : ∀ y b, d.heldBy y = some b →
      credential.source = .environment ∨ b.source = .environment →
      credential.revision ≠ b.revision) :
    ∀ x y a b, (d.withResolution index (.resolved credential)).heldBy x = some a →
      (d.withResolution index (.resolved credential)).heldBy y = some b →
      a.source = .environment → a.revision = b.revision → x = y := by
  have hcases (x : Holder) (a : ResolvedCredential)
      (hx : (d.withResolution index (.resolved credential)).heldBy x = some a) :
      (x = .resolution index ∧ a = credential) ∨ d.heldBy x = some a := by
    cases x with
    | resolution other =>
      simp only [Deployment.heldBy] at hx ⊢
      rcases resolution_withResolution d index other (.resolved credential) with
        hsame | ⟨rfl, hnew⟩
      · rw [hsame] at hx
        exact .inr hx
      · rw [hnew] at hx
        exact .inl ⟨rfl, (Option.some.inj hx).symm⟩
    | scan other => exact .inr hx
  intro x y a b hx hy hsource hrevision
  rcases hcases x a hx with ⟨rfl, rfl⟩ | hold
  · rcases hcases y b hy with ⟨rfl, rfl⟩ | hyold
    · rfl
    · exact absurd hrevision (hother y b hyold (.inl hsource))
  · rcases hcases y b hy with ⟨rfl, rfl⟩ | hyold
    · exact absurd hrevision.symm (hother x a hold (.inr hsource))
    · exact h x y a b hold hyold hsource hrevision

omit [DecidableEq σ] in
theorem heldBy_restarted (d : Deployment σ β μ) (holder : Holder) :
    (d.restarted storage empty).heldBy holder = none := by
  cases holder <;> rfl

/-- A scan that is opened. -/
theorem heldBy_openStream {d : Deployment σ β μ} {scan : Option ResolvedCredential}
    {opening : ScanOpening σ β} {holder : Holder} {a : ResolvedCredential}
    (h : (d.openStream rowCount scan opening).heldBy holder = some a) :
    d.heldBy holder = some a ∨ holder = .scan d.scans.length ∧ scan = some a := by
  cases holder with
  | resolution index => exact .inl h
  | scan index =>
    simp only [Deployment.heldBy, Deployment.openStream, Option.join_eq_some_iff] at h ⊢
    rw [List.getElem?_append] at h
    split at h
    · exact .inl h
    · rename_i hlong
      obtain rfl := List.mem_singleton.mp (List.mem_of_getElem? h)
      have hlast := (List.getElem?_eq_some_iff.mp h).1
      rw [List.length_singleton] at hlast
      refine .inr ⟨?_, rfl⟩
      rw [show index = d.scans.length by omega]

/-- The cache after a scan was opened on it. -/
theorem openStream_cache {d : Deployment σ β μ} (scan : Option ResolvedCredential)
    (opening : ScanOpening σ β)
    (htags : d.cache.streams.map (·.config.key.credential) = d.scans.map credentialTag)
    (hshared : Shared d.cache) (hsourced : KeySourced d.cache.streams) :
    (d.openStream rowCount scan opening).cache.streams.map (·.config.key.credential) =
        (d.openStream rowCount scan opening).scans.map credentialTag ∧
      Shared (d.openStream rowCount scan opening).cache ∧
      KeySourced (d.openStream rowCount scan opening).cache.streams := by
  have hopened := step_shared rowCount (.open
    ⟨⟨opening.semantic, credentialTag scan⟩, opening.policy, opening.maxCandidateBytes,
      opening.admissionRuntime⟩ opening.script opening.now) hshared
  refine ⟨?_, hopened, step_keySourced rowCount (.open _ _ _) hshared.toTracked hsourced⟩
  show (d.cache.streams ++ [_]).map _ = (d.scans ++ [scan]).map credentialTag
  rw [List.map_append, List.map_append, htags, List.map_singleton, List.map_singleton, open_config]

/-- The scan that was opened last stands where its resolution stood. -/
def movedTo (last index : Nat) : Holder → Holder
  | .resolution other => .resolution other
  | .scan other => if other = last then .resolution index else .scan other

theorem movedTo_self (last index : Nat) : movedTo last index (.scan last) = .resolution index := by
  rw [movedTo, if_pos rfl]

theorem movedTo_of_ne {last : Nat} (index : Nat) (holder : Holder) (h : holder ≠ .scan last) :
    movedTo last index holder = holder := by
  cases holder with
  | resolution other => rfl
  | scan other =>
    rw [movedTo, if_neg]
    rintro rfl
    exact h rfl

theorem Sound.effect {issued generated : List CredentialIdentity} {d d' : Deployment σ β μ}
    (h : Sound storage issued d) (heffect : Effect storage empty rowCount d d' generated)
    (hfresh : (issued ++ generated).Nodup) (hmeaningful : Meaningful storage d')
    (hempty : empty.entries = []) : Sound storage (issued ++ generated) d' := by
  have hknown : ∀ m ∈ d.meanings, m.revision ∈ issued ++ generated := fun m hm =>
    List.mem_append_left _ (h.known m hm)
  have hframe {t : Deployment σ β μ} (ht : Frame d t) := apart_of_moved (d := d) id ht.held
    (fun _ _ _ _ _ _ hxy => hxy) h.apart
  cases heffect with
  | frame ht =>
    refine ⟨hmeaningful, ?_, ?_, hframe ht, ?_, ?_, ?_⟩
    · rw [ht.meanings]
      exact hknown
    · rw [ht.meanings]
      exact h.single
    · rw [ht.cache, ht.scans]
      exact h.tags
    · rw [ht.cache]
      exact h.shared
    · rw [ht.cache]
      exact h.sourced
  | @restart t _ ht =>
    have hmeanings : (t.restarted storage empty).meanings = d.meanings := ht.meanings
    refine ⟨hmeaningful, ?_, ?_, fun x y a b hx => ?_, rfl, start_shared rowCount hempty,
      fun s hs => nomatch hs⟩
    · rw [hmeanings]
      exact hknown
    · rw [hmeanings]
      exact h.single
    · rw [heldBy_restarted] at hx
      cases hx
  | create ht hrevision =>
    obtain ⟨hknown', hsingle'⟩ := meanings_append h.known h.single hfresh hrevision
    refine ⟨hmeaningful, hknown', hsingle', fun x y a b hx hy => ?_, ?_, ?_, ?_⟩
    · exact hframe ht x y a b (by cases x <;> exact hx) (by cases y <;> exact hy)
    · show List.map _ (Deployment.cache _).streams = _
      rw [ht.cache, ht.scans]
      exact h.tags
    · rw [ht.cache]
      exact h.shared
    · rw [ht.cache]
      exact h.sourced
  | config hsource hstands =>
    refine ⟨hmeaningful, hknown, h.single, apart_withResolution _ _ h.apart ?_, h.tags, h.shared,
      h.sourced⟩
    intro y b hy henvironment hrevision
    have hsame := congrArg Meaning.source (h.single _ hstands _ (h.held hy) hrevision)
    replace hsame : CredentialSource.config = b.source := hsource ▸ hsame
    rcases henvironment with henvironment | henvironment
    · rw [hsource] at henvironment
      cases henvironment
    · rw [henvironment] at hsame
      cases hsame
  | @environment index credential hsource =>
    obtain ⟨hknown', hsingle'⟩ :=
      @meanings_append _ _ _ ⟨credential.revision, credential.value, .environment⟩ h.known h.single
        hfresh (List.mem_singleton.mpr rfl)
    have hapart := apart_withResolution index credential h.apart
      fun y b hy _ hrevision => ?_
    · refine ⟨hmeaningful, hknown', hsingle', fun x y a b hx hy => ?_, h.tags, h.shared, h.sourced⟩
      exact hapart x y a b (by cases x <;> exact hx) (by cases y <;> exact hy)
    exact (List.nodup_append.mp hfresh).2.2 _ (h.known _ (h.held hy)) _
      (List.mem_singleton.mpr rfl) hrevision.symm
  | @openScan index credential opening _ hresolved =>
    have hended := Frame.withResolution d index (r := .ended) rfl
    obtain ⟨htags, hshared, hsourced⟩ :=
      openStream_cache (d := d.withResolution index .ended) rowCount (some credential) opening
        h.tags h.shared h.sourced
    refine ⟨hmeaningful, hknown, h.single, ?_, htags, hshared, hsourced⟩
    -- the new stream takes the credential over from the resolution
    have hnone : ∀ a, (d.withResolution index .ended).heldBy (.resolution index) ≠ some a := by
      intro a ha
      rw [Deployment.heldBy, resolution_withResolution_self hresolved] at ha
      cases ha
    have hout : ∀ a, d.heldBy (.scan d.scans.length) ≠ some a := by
      intro a ha
      rw [Deployment.heldBy, List.getElem?_eq_none (Nat.le_refl _)] at ha
      cases ha
    refine apart_of_moved (d := d) (movedTo d.scans.length index) (fun x a hx => ?_)
      (fun x y a b hx hy hxy => ?_) h.apart
    · rcases heldBy_openStream rowCount hx with hold | ⟨rfl, hsome⟩
      · replace hold := hended.held x a hold
        rw [movedTo_of_ne _ _ fun heq => hout a (heq ▸ hold)]
        exact hold
      · rw [← Option.some.inj hsome]
        show d.heldBy (movedTo d.scans.length index (.scan d.scans.length)) = _
        rw [movedTo_self, Deployment.heldBy, hresolved]
        rfl
    · rcases heldBy_openStream rowCount hx with hxold | ⟨hxnew, -⟩
      · rcases heldBy_openStream rowCount hy with hyold | ⟨hynew, -⟩
        · rw [movedTo_of_ne _ _ fun heq => hout a (heq ▸ hended.held x a hxold),
            movedTo_of_ne _ _ fun heq => hout b (heq ▸ hended.held y b hyold)] at hxy
          exact hxy
        · rw [movedTo_of_ne _ _ fun heq => hout a (heq ▸ hended.held x a hxold), hynew] at hxy
          rw [show (d.withResolution index .ended).scans = d.scans from rfl, movedTo_self] at hxy
          exact absurd (hxy ▸ hxold) (hnone a)
      · rcases heldBy_openStream rowCount hy with hyold | ⟨hynew, -⟩
        · rw [movedTo_of_ne _ _ fun heq => hout b (heq ▸ hended.held y b hyold), hxnew] at hxy
          rw [show (d.withResolution index .ended).scans = d.scans from rfl, movedTo_self] at hxy
          exact absurd (hxy ▸ hyold) (hnone b)
        · rw [hxnew, hynew]
  | openAnonymous =>
    obtain ⟨htags, hshared, hsourced⟩ :=
      openStream_cache rowCount none _ h.tags h.shared h.sourced
    refine ⟨hmeaningful, hknown, h.single, ?_, htags, hshared, hsourced⟩
    refine apart_of_moved (d := d) id (fun x a hx => ?_) (fun _ _ _ _ _ _ hxy => hxy) h.apart
    rcases heldBy_openStream rowCount hx with hold | ⟨-, hnone⟩
    · exact hold
    · cases hnone
  | @cacheCall index call =>
    refine ⟨hmeaningful, hknown, h.single, h.apart, ?_,
      step_shared rowCount (.call _ _) h.shared,
      step_keySourced rowCount (.call _ _) h.shared.toTracked h.sourced⟩
    have hconfigs := callStream_configs rowCount index call h.shared.toTracked
    have htags := congrArg (List.map fun config => config.key.credential) hconfigs
    rw [List.map_map, List.map_map] at htags
    exact htags.trans h.tags
  | cacheClosed =>
    exact ⟨hmeaningful, hknown, h.single, h.apart, h.tags,
      step_shared rowCount .closeCache h.shared,
      step_keySourced rowCount .closeCache h.shared.toTracked h.sourced⟩

theorem meaningful_start (hstorage : storage.Faithful) (environment : Bytes → Option Bytes) :
    Meaningful storage (deployment storage empty rowCount environment).start where
  prepared := fun _ hp => nomatch hp
  memory := fun entries hentries => by
    rw [List.mem_singleton.mp hentries]
    exact memorySound_empty hstorage _
  records := Contents.empty
  resolutions := fun _ hr => nomatch hr
  scans := fun _ hscan => nomatch hscan

/-- Runs in which no identity is generated twice keep the invariant. -/
theorem sound_run (hstorage : storage.Faithful) (hempty : empty.entries = [])
    (environment : Bytes → Option Bytes)
    {changes : List (Change σ β)} (hfresh : (changes.flatMap Change.generated).Nodup) :
    Sound storage (changes.flatMap Change.generated)
      ((deployment storage empty rowCount environment).run changes) := by
  induction changes using List.reverseRecOn with
  | nil =>
    refine ⟨meaningful_start empty rowCount hstorage environment, fun _ hm => (nomatch hm),
      fun _ hm => (nomatch hm), fun x y a b hx => ?_, rfl, start_shared rowCount hempty,
      fun s hs => (nomatch hs)⟩
    cases x <;> cases hx
  | append_singleton changes change ih =>
    rw [List.flatMap_append, List.flatMap_singleton] at hfresh ⊢
    have hbefore := ih (List.nodup_append.mp hfresh).1
    have hrun : (deployment storage empty rowCount environment).run (changes ++ [change]) =
        ((deployment storage empty rowCount environment).run changes).step storage empty rowCount
          change := by
      simp [Machine.run, deployment]
    rw [hrun]
    exact hbefore.effect empty rowCount (step_effect empty rowCount hbefore.meaningful change) hfresh
      (hbefore.meaningful.step empty rowCount hstorage change) hempty

/-- What of a credential tells it from others; none is an anonymous scan. -/
def identified (credential : Option ResolvedCredential) :
    Option (CredentialIdentity × CredentialIdentity × Bytes) :=
  credential.map fun c => (c.authority, c.revision, c.value)

/-- Whatever happened to the secrets, the variables and the process, every entry that a
stream may serve rows from was published by a stream whose scan resolved the same
authority, the same revision and the same value, or both are anonymous; where the value
is a variable's it is the stream itself. A secret that is created next, in place of
another or anew, has a revision that no stream so far has. -/
theorem cached_rows_keep_credentials {maxEntries maxBytes maxEntryBytes : UInt64}
    (hstorage : storage.Faithful)
    (hnew : ResultCache.new maxEntries maxBytes maxEntryBytes = some empty)
    (environment : Bytes → Option Bytes) (changes : List (Change σ β))
    (hfresh : (changes.flatMap Change.generated).Nodup) :
    let d := (deployment storage empty rowCount environment).run changes
    (∀ i s x, d.cache.streams[i]? = some s → x ∈ s.pins →
      ∃ j t, d.cache.streams[j]? = some t ∧ t.published = some x ∧
        identified (d.heldBy (.scan j)) = identified (d.heldBy (.scan i)) ∧
        ∀ credential, d.heldBy (.scan i) = some credential →
          credential.source = .environment → j = i) ∧
    (∀ authority revision,
      (changes.flatMap Change.generated ++ [authority, revision]).Nodup →
        ∀ i credential, d.heldBy (.scan i) = some credential →
          credential.revision ≠ revision) := by
  have hsound := sound_run empty rowCount hstorage (new_empty hnew) environment hfresh
  dsimp only
  generalize (deployment storage empty rowCount environment).run changes = d at hsound
  -- A stream reads the cache under the tag of the credential that its scan holds.
  have htag (i : Nat) (s : Cache.Stream (CacheKey σ) β) (hs : d.cache.streams[i]? = some s) :
      s.config.key.credential = credentialTag (d.heldBy (.scan i)) := by
    have hboth := congrArg (·[i]?) hsound.tags
    simp only [List.getElem?_map, hs, Option.map_some] at hboth
    obtain ⟨scan, hscan, htag⟩ := Option.map_eq_some_iff.mp hboth.symm
    rw [← htag, Deployment.heldBy, hscan]
    rfl
  refine ⟨fun i s x hs hx => ?_, fun authority revision hnodup i credential hheld hrevision => ?_⟩
  · obtain ⟨t, ht, hkey, hpublished⟩ := hsound.sourced s (List.mem_of_getElem? hs) x hx
    obtain ⟨j, hj⟩ := List.mem_iff_getElem?.mp ht
    have htags : credentialTag (d.heldBy (.scan j)) = credentialTag (d.heldBy (.scan i)) := by
      rw [← htag j t hj, ← htag i s hs, hkey]
    refine ⟨j, t, hj, hpublished, ?_, fun credential hheld hsource => ?_⟩
    -- Equal tags are equal revisions, and a revision has one value.
    · cases hother : d.heldBy (.scan j) with
      | none =>
        cases hthis : d.heldBy (.scan i) with
        | none => rfl
        | some a =>
          rw [hother, hthis] at htags
          cases htags
      | some b =>
        cases hthis : d.heldBy (.scan i) with
        | none =>
          rw [hother, hthis] at htags
          cases htags
        | some a =>
          rw [hother, hthis] at htags
          obtain ⟨hauthority, hrevision⟩ := CacheCredentialTag.opaqueIdentity.inj htags
          have hvalue := (hsound.same_value hother hthis hrevision).1
          rw [identified, identified, Option.map_some, Option.map_some, hauthority, hrevision,
            hvalue]
    -- A value from the environment is held by one scan only.
    · cases hother : d.heldBy (.scan j) with
      | none =>
        rw [hother, hheld] at htags
        cases htags
      | some b =>
        rw [hother, hheld] at htags
        have hrevision := (CacheCredentialTag.opaqueIdentity.inj htags).2
        have hsame := hsound.apart _ _ credential b hheld hother hsource hrevision.symm
        exact (Holder.scan.inj hsame).symm
  · have hmeant := hsound.known _ (hsound.held hheld)
    exact (List.nodup_append.mp hnodup).2.2 _ hmeant revision (by simp) hrevision

end Steps

abbrev MemoryEntries := Std.ExtTreeMap Bytes MemorySecret compare

/-- A storage with one secret under each name, whatever its case. A second one takes the
place of the first only where the statement asks for it. -/
def oneSecretPerName : TemporaryStorage MemoryEntries where
  empty := ∅
  store := fun entries name secret onConflict =>
    match entries[name.map lowerByte]?, onConflict with
    | some _, .replaceOnConflict => entries.insert (name.map lowerByte) secret
    | some _, _ => entries
    | none, .alterOnConflict => entries
    | none, _ => entries.insert (name.map lowerByte) secret
  drop := fun entries name => entries.erase (name.map lowerByte)
  lookup := fun entries name => entries[name.map lowerByte]?

theorem getElem?_insert_cases {entries : MemoryEntries} {name other : Bytes}
    {secret found : MemorySecret}
    (h : (entries.insert (name.map lowerByte) secret)[other.map lowerByte]? = some found) :
    (ciEquals name other = true ∧ found = secret) ∨ entries[other.map lowerByte]? = some found := by
  rw [Std.ExtTreeMap.getElem?_insert] at h
  split at h
  · rename_i hsame
    exact .inl ⟨beq_iff_eq.mpr (Std.LawfulEqCmp.eq_of_compare hsame), (Option.some.inj h).symm⟩
  · exact .inr h

theorem oneSecretPerName_faithful : oneSecretPerName.Faithful where
  empty := fun name => by simp [oneSecretPerName]
  store := by
    intro entries name secret onConflict other found hfound
    simp only [oneSecretPerName] at hfound
    split at hfound
    · exact getElem?_insert_cases hfound
    · exact .inr hfound
    · exact .inr hfound
    · exact getElem?_insert_cases hfound
  drop := by
    intro entries name other found hfound
    simp only [oneSecretPerName] at hfound
    rw [Std.ExtTreeMap.getElem?_erase] at hfound
    split at hfound
    · cases hfound
    · rename_i hother
      refine ⟨?_, hfound⟩
      rw [ciEquals, beq_eq_false_iff_ne]
      exact fun heq => hother (by rw [heq]; exact Std.ReflCmp.compare_self)

/-- Sixteen bytes with one number among them. -/
def numbered (n : UInt8) : CredentialIdentity := ⟨List.replicate 15 0 ++ [n], rfl⟩

def createMain (token : String) (onConflict : OnCreateConflict) (authority revision : UInt8) :
    Change Nat Nat :=
  .create ⟨ascii "cuac", ascii "config", [], ascii "main", false, .temporary, onConflict,
    some (ascii token), none⟩ .config 0 (numbered authority) (numbered revision)

/-- A scan of the first endpoint that resolves the secret and reads one batch. -/
def scanMain (index : Nat) (generated : UInt8) (now : UInt64) : List (Change Nat Nat) :=
  [.beginScan (ascii "main"), .lookInMemory index 0, .lookInStore index false [],
    .readValue index (numbered generated),
    .openScan index ⟨1, ⟨.fresh, 1000, 0⟩, 100, false, ⟨[10], .exhausted⟩, now⟩,
    .call index (.next tenBytes), .call index (.next tenBytes)]

/-- Two scans with the first token, and one after it was replaced. -/
def replacedToken : List (Change Nat Nat) :=
  [createMain "first" .errorOnConflict 1 2, .storeTemporary 0] ++ scanMain 0 3 0 ++
    scanMain 1 4 200 ++ [createMain "second" .replaceOnConflict 5 6, .storeTemporary 0] ++
    scanMain 2 7 300

def fourEntries : ResultCache (CacheKey Nat) Nat := ⟨4, 1000, 1000, [], 0, 0, false⟩

theorem cached_rows_keep_credentials_replaced :
    let d := (deployment oneSecretPerName fourEntries (fun _ => 1) fun _ => none).run replacedToken
    (d.cache.streams.map fun s => s.diagnosticsStatus) = [.refreshed, .freshHit, .refreshed] ∧
      (d.scans.map fun scan => scan.map (·.value)) =
        [some (ascii "first"), some (ascii "first"), some (ascii "second")] ∧
      ∀ i s x, d.cache.streams[i]? = some s → x ∈ s.pins →
        ∃ j t, d.cache.streams[j]? = some t ∧ t.published = some x ∧
          identified (d.heldBy (.scan j)) = identified (d.heldBy (.scan i)) := by
  refine ⟨by decide +kernel, by decide +kernel, fun i s x hs hx => ?_⟩
  have hnew : ResultCache.new 4 1000 1000 = some fourEntries := rfl
  obtain ⟨j, t, hj, hpublished, hsame, -⟩ :=
    (cached_rows_keep_credentials fourEntries (fun _ => 1) oneSecretPerName_faithful hnew
      (fun _ => none) replacedToken (by decide +kernel)).1 i s x hs hx
  exact ⟨j, t, hj, hpublished, hsame⟩

end Cuac.Credential.Isolation

import Cuac.Connector.PackageSource

/-!
# Connector — failures of package source custody

Which paths acquisition throws. A diagnostic carries a package-relative path without `..`,
backslash and control bytes; a directory entry is reported under whatever name it has.

Main results:

* `captureDirectory_throws`, `captureDirectory_of_refused` — where an enumeration stops.
* `acquire_source_error`, `acquire_of_stops` — acquisition throws a path a diagnostic may
  carry, or stops at an entry under the path the entry has.
* `acquired_files` — the files of a snapshot have safe paths and a bounded size.
-/

namespace Cuac.Connector.PackageSource

open Cuac.Lib
open Cuac.Connector.Diagnostics
open Cuac.Connector.FailsafeYaml (Node Budget splitLines)

-- ---------------------------------------------------------------------------
-- Where acquisition stops
-- ---------------------------------------------------------------------------

def syntaxMark (error : FailsafeYamlError) : SourceMark :=
  ⟨error.file, error.line, error.column, ascii "$"⟩

/-- An enumeration stops at an entry, under the path of the entry. -/
structure Refused (limits : PackageSourceLimits) (directory : Bytes) (entryLimit : Nat)
    (listing : Listing) (aggregate : Nat) (path : Bytes) : Prop where
  started : listing.directory.isSome = true ∧ listing.enumerable = true
  stops : ∃ before entry after captured counted code,
    listing.entries = before ++ entry :: after ∧
      captureEntries limits directory entryLimit [] aggregate before = .ok (captured, counted) ∧
      isDots entry.name = false ∧
      captureEntry limits directory entryLimit captured counted entry = .error ⟨code, path⟩ ∧
      path = relative directory entry.name

/-- Acquisition stops at a directory entry whose path a diagnostic may not carry: in one of the
two enumerations of the root, in one of the two of `relations`, or at an unlisted relation. -/
inductive StopsAtEntry (limits : PackageSourceLimits) (tree : PackageTree) : Prop
  | root (path : Bytes) (hopen : openRelations tree = .ok ())
      (hstop : Refused limits [] limits.maxRootEntries tree.rootBefore 0 path)
      (hpath : safeRelativeFile path = false)
  | relations (path : Bytes) (rootBefore : DirectoryCapture) (counted : Nat)
      (hopen : openRelations tree = .ok ())
      (hroot : captureDirectory limits [] limits.maxRootEntries tree.rootBefore 0 =
        .ok (rootBefore, counted))
      (hstop : Refused limits relations limits.maxRelationEntries tree.relationsBefore counted path)
      (hpath : safeRelativeFile path = false)
  | unlisted (custody : Custody) (manifest : Bytes) (ids : List Bytes)
      (entry : DirectoryEntryIdentity) (hcustody : openCustody limits tree = .ok custody)
      (hlisted : readListed limits tree custody = .ok (manifest, ids))
      (hstop : custody.relationsBefore.entries.find? (isUnlisted ids) = some entry)
      (hpath : safeRelativeFile (relative PackageSource.relations entry.name) = false)
  | rootAgain (custody : Custody) (manifest : Bytes) (ids : List Bytes)
      (files : List SemanticSourceFile) (path : Bytes)
      (hcustody : openCustody limits tree = .ok custody)
      (hlisted : readListed limits tree custody = .ok (manifest, ids))
      (hvalid : validateListedRelations custody ids = .ok ())
      (hfiles : readRelations limits tree custody manifest.length ids = .ok files)
      (hstop : Refused limits [] limits.maxRootEntries tree.rootAfter 0 path)
      (hpath : safeRelativeFile path = false)
  | relationsAgain (custody : Custody) (manifest : Bytes) (ids : List Bytes)
      (files : List SemanticSourceFile) (path : Bytes) (rootAfter : DirectoryCapture)
      (counted : Nat) (hcustody : openCustody limits tree = .ok custody)
      (hlisted : readListed limits tree custody = .ok (manifest, ids))
      (hvalid : validateListedRelations custody ids = .ok ())
      (hfiles : readRelations limits tree custody manifest.length ids = .ok files)
      (hroot : captureDirectory limits [] limits.maxRootEntries tree.rootAfter 0 =
        .ok (rootAfter, counted))
      (hstop : Refused limits PackageSource.relations limits.maxRelationEntries tree.relationsAfter
        counted path)
      (hpath : safeRelativeFile path = false)

/-- Acquisition under these limits gets to its directories and stops at such an entry. -/
def StopsUnnameable (host : PackageSourceLimits) (opened : Except PackageSourceError Unit)
    (tree : PackageTree) : Prop :=
  ∃ limits, effectiveLimits host = .ok limits ∧ opened = .ok () ∧ StopsAtEntry limits tree

-- ---------------------------------------------------------------------------
-- Paths
-- ---------------------------------------------------------------------------

theorem cut_pair_eq_none {d : UInt8} {xs ys : Bytes} (hxs : d ∉ xs) (hys : d ∉ ys) :
    cut [d, d] (xs ++ d :: ys) = none := by
  induction xs with
  | nil =>
    have hfirst : [d, d].isPrefixOf (d :: ys) = false := by
      cases ys with
      | nil => simp
      | cons y rest =>
        have hne : d ≠ y := fun h => hys (h ▸ List.mem_cons_self)
        simp [List.isPrefixOf, hne]
    rw [List.nil_append, cut, hfirst, cut_eq_none_of List.mem_cons_self hys]
    rfl
  | cons x rest ih =>
    have hne : d ≠ x := fun h => hxs (h ▸ List.mem_cons_self)
    have hfirst : [d, d].isPrefixOf (x :: (rest ++ d :: ys)) = false := by
      simp [List.isPrefixOf, hne]
    rw [List.cons_append, cut, hfirst, ih fun h => hxs (List.mem_cons_of_mem _ h)]
    rfl

/-- The bytes of an identifier are letters, digits and underscores. -/
theorem safe_byte_of_isIdentifier {id : Bytes} (h : isIdentifier id = true) {b : UInt8}
    (hb : b ∈ id) : b ≠ byte '.' ∧ b ≠ 0x5C ∧ ¬b < 0x20 ∧ b ≠ 0x7F := by
  have hrange : ((byte 'a' ≤ b && b ≤ byte 'z') || (byte '0' ≤ b && b ≤ byte '9') ||
      b == byte '_') = true := by
    match id with
    | first :: rest =>
      simp only [isIdentifier, safeField, Bool.and_eq_true, List.all_eq_true] at h
      rcases List.mem_cons.mp hb with rfl | hb
      · simp only [Bool.or_eq_true, Bool.and_eq_true]
        exact .inl (.inl ⟨h.2.1.1.2, h.2.1.2⟩)
      · exact h.2.2 b hb
  have hall : ∀ b : UInt8, ((byte 'a' ≤ b && b ≤ byte 'z') || (byte '0' ≤ b && b ≤ byte '9') ||
      b == byte '_') = true → b ≠ byte '.' ∧ b ≠ 0x5C ∧ ¬b < 0x20 ∧ b ≠ 0x7F :=
    forall_byte (by decide)
  exact hall b hrange

theorem safe_relationFile {id : Bytes} (h : isIdentifier id = true) :
    safeRelativeFile (relative relations (relationFile id)) = true := by
  have hsplit : relative relations (relationFile id) =
      (ascii "relations/" ++ id) ++ byte '.' :: ascii "yaml" := by
    rw [List.append_assoc]
    rfl
  have hfirst : ∀ b ∈ ascii "relations/", b ≠ 0x5C ∧ ¬b < 0x20 ∧ b ≠ 0x7F := by decide +kernel
  have hlast : ∀ b ∈ byte '.' :: ascii "yaml", b ≠ 0x5C ∧ ¬b < 0x20 ∧ b ≠ 0x7F := by decide +kernel
  have hbyte {b : UInt8} (hb : b ∈ (ascii "relations/" ++ id) ++ byte '.' :: ascii "yaml") :
      b ≠ 0x5C ∧ ¬b < 0x20 ∧ b ≠ 0x7F := by
    rcases List.mem_append.mp hb with hb | hb
    · rcases List.mem_append.mp hb with hb | hb
      · exact hfirst b hb
      · exact (safe_byte_of_isIdentifier h hb).2
    · exact hlast b hb
  have hdot : byte '.' ∉ ascii "relations/" ++ id := by
    intro hb
    rcases List.mem_append.mp hb with hb | hb
    · exact absurd hb (by decide)
    · exact (safe_byte_of_isIdentifier h hb).1 rfl
  have hpair : cut (ascii "..") ((ascii "relations/" ++ id) ++ byte '.' :: ascii "yaml") = none :=
    cut_pair_eq_none hdot (by decide)
  have hslash : cut [0x5C] ((ascii "relations/" ++ id) ++ byte '.' :: ascii "yaml") = none :=
    cut_eq_none_of List.mem_cons_self fun hb => (hbyte hb).1 rfl
  have hhead : ((ascii "relations/" ++ id) ++ byte '.' :: ascii "yaml").head? =
      some (byte 'r') := rfl
  rw [hsplit, safeRelativeFile, hpair, hslash, hhead]
  simp only [Option.isSome_none, Bool.or_false, Bool.or_eq_true, Bool.and_eq_true,
    List.all_eq_true]
  refine .inr ⟨by decide, fun b hb => ?_⟩
  obtain ⟨-, hlow, hdelete⟩ := hbyte hb
  simp [hlow, hdelete]

theorem safe_connectorYaml : safeRelativeFile connectorYaml = true := by decide

theorem safe_relations : safeRelativeFile relations = true := by decide

-- ---------------------------------------------------------------------------
-- What acquisition throws
-- ---------------------------------------------------------------------------

theorem openComponent_throws (component : Bytes) (answer : RootComponent) :
    Throws (·.path = []) (openComponent component answer) := by
  unfold openComponent
  split
  · exact throws_error.mpr rfl
  split
  · exact throws_error.mpr rfl
  split
  · exact throws_error.mpr rfl
  split
  · exact throws_error.mpr rfl
  split
  · exact throws_error.mpr rfl
  · exact throws_pure

theorem openComponents_throws (answers : Nat → RootComponent) (position : Nat)
    (components : List Bytes) :
    Throws (·.path = []) (openComponents answers position components) := by
  induction components generalizing position with
  | nil => exact throws_pure
  | cons component rest ih =>
    exact (openComponent_throws component _).bind fun _ _ => ih (position + 1)

/-- No error of the root names a path. -/
theorem openAbsoluteRoot_throws (root : Bytes) (opened : Bool) (answers : Nat → RootComponent) :
    Throws (·.path = []) (openAbsoluteRoot root opened answers) := by
  unfold openAbsoluteRoot
  split
  · exact throws_error.mpr rfl
  split
  · exact throws_error.mpr rfl
  split
  · exact throws_pure
  · exact openComponents_throws answers 0 _

theorem duplicateRoot_throws (duplicated : Bool) :
    Throws (·.path = []) (duplicateRoot duplicated) := by
  cases duplicated with
  | true => exact throws_pure
  | false => exact throws_error.mpr rfl

theorem openRelations_throws (tree : PackageTree) :
    Throws (·.path = relations) (openRelations tree) := by
  unfold openRelations
  split
  · exact throws_error.mpr rfl
  split
  · exact throws_error.mpr rfl
  split
  · exact throws_error.mpr rfl
  split
  · exact throws_error.mpr rfl
  · exact throws_pure

theorem validateEntryType_throws (status : FileIdentity) (path : Bytes) :
    Throws (·.path = path) (validateEntryType status path) := by
  unfold validateEntryType
  split
  · exact throws_error.mpr rfl
  split
  · split
    · exact throws_error.mpr rfl
    · exact throws_pure
  split
  · exact throws_error.mpr rfl
  · exact throws_pure

section Captures

variable {limits : PackageSourceLimits} {directory : Bytes} {entryLimit : Nat}

theorem captureEntry_throws (captured : List DirectoryEntryIdentity) (aggregate : Nat)
    (entry : DirectoryEntry) :
    Throws (fun e => e.path = directory ∨ e.path = relative directory entry.name)
      (captureEntry limits directory entryLimit captured aggregate entry) := by
  unfold captureEntry
  refine Throws.bind ?_ fun _ _ => ?_
  · unfold admitDirectoryEntryName
    dsimp only
    split
    · exact throws_error.mpr (.inr rfl)
    split
    · exact throws_error.mpr (.inl rfl)
    split
    · exact throws_error.mpr (.inr rfl)
    · exact throws_pure
  · split
    · exact throws_error.mpr (.inr rfl)
    · refine Throws.bind (fun e he => .inr (validateEntryType_throws _ _ e he)) fun _ _ => ?_
      exact throws_pure

/-- An enumeration that gets past its first entries goes on from what they left. -/
theorem captureEntries_append (captured : List DirectoryEntryIdentity) (aggregate : Nat)
    (before after : List DirectoryEntry) :
    captureEntries limits directory entryLimit captured aggregate (before ++ after) =
      captureEntries limits directory entryLimit captured aggregate before >>= fun left =>
        captureEntries limits directory entryLimit left.1 left.2 after := by
  induction before generalizing captured aggregate with
  | nil => rfl
  | cons entry rest ih =>
    rw [List.cons_append, captureEntries, captureEntries]
    split
    · exact ih captured aggregate
    · cases captureEntry limits directory entryLimit captured aggregate entry with
      | error e => rfl
      | ok identity => exact ih _ _

/-- An enumeration that fails stops at one of its entries. -/
theorem captureEntries_error {captured : List DirectoryEntryIdentity} {aggregate : Nat}
    {entries : List DirectoryEntry} {e : PackageSourceError}
    (h : captureEntries limits directory entryLimit captured aggregate entries = .error e) :
    ∃ before entry after left counted, entries = before ++ entry :: after ∧
      captureEntries limits directory entryLimit captured aggregate before = .ok (left, counted) ∧
      isDots entry.name = false ∧
      captureEntry limits directory entryLimit left counted entry = .error e := by
  induction entries generalizing captured aggregate with
  | nil => cases h
  | cons entry rest ih =>
    rw [captureEntries] at h
    by_cases hdots : isDots entry.name = true
    · rw [if_pos hdots] at h
      obtain ⟨before, stop, after, left, counted, hrest, hbefore, hstop⟩ := ih h
      refine ⟨entry :: before, stop, after, left, counted, by rw [hrest]; rfl, ?_, hstop⟩
      rw [captureEntries, if_pos hdots]
      exact hbefore
    · rw [if_neg hdots] at h
      cases hentry : captureEntry limits directory entryLimit captured aggregate entry with
      | error e' =>
        rw [hentry] at h
        cases h
        exact ⟨[], entry, rest, captured, aggregate, rfl, rfl, Bool.eq_false_of_not_eq_true hdots,
          hentry⟩
      | ok identity =>
        rw [hentry] at h
        obtain ⟨before, stop, after, left, counted, hrest, hbefore, hstop⟩ := ih h
        refine ⟨entry :: before, stop, after, left, counted, by rw [hrest]; rfl, ?_, hstop⟩
        rw [captureEntries, if_neg hdots, hentry]
        exact hbefore

/-- A capture fails with the path of its directory, or at an entry under the entry's path. -/
theorem captureDirectory_throws (listing : Listing) (aggregate : Nat) :
    Throws (fun e => e.path = directory ∨
        Refused limits directory entryLimit listing aggregate e.path)
      (captureDirectory limits directory entryLimit listing aggregate) := by
  unfold captureDirectory
  split
  · exact throws_error.mpr (.inl rfl)
  rename_i identity hidentity
  refine Throws.bind (throws_throwIf.mpr fun _ => .inl rfl) fun _ hstarted => ?_
  refine Throws.bind (fun e he => ?_) fun left _ => ?_
  · obtain ⟨before, entry, after, left, counted, hentries, hbefore, hdots, hentry⟩ :=
      captureEntries_error he
    rcases captureEntry_throws left counted entry e hentry with hpath | hpath
    · exact .inl hpath
    · have henumerable : listing.enumerable = true := by
        rw [throwIf_eq_ok, Bool.not_eq_false'] at hstarted
        exact hstarted
      refine .inr ⟨⟨by rw [hidentity]; rfl, henumerable⟩, before, entry, after, left, counted,
        e.code, hentries, hbefore, hdots, hentry, hpath⟩
  · refine Throws.bind (throws_throwIf.mpr fun _ => .inl rfl) fun _ _ => ?_
    refine Throws.bind (throws_throwIf.mpr fun _ => .inl rfl) fun _ _ => ?_
    exact throws_pure

/-- A capture that stops at an entry throws the entry's path. -/
theorem captureDirectory_of_refused {listing : Listing} {aggregate : Nat} {path : Bytes}
    (h : Refused limits directory entryLimit listing aggregate path) :
    ∃ code, captureDirectory limits directory entryLimit listing aggregate =
      .error ⟨code, path⟩ := by
  obtain ⟨⟨hidentity, henumerable⟩, before, entry, after, left, counted, code, hentries, hbefore,
    hdots, hentry, -⟩ := h
  obtain ⟨identity, hidentity⟩ := Option.isSome_iff_exists.mp hidentity
  have hrun : captureEntries limits directory entryLimit [] aggregate listing.entries =
      .error ⟨code, path⟩ := by
    rw [hentries, captureEntries_append, hbefore]
    show captureEntries limits directory entryLimit left counted (entry :: after) = _
    rw [captureEntries, hdots, hentry]
    rfl
  refine ⟨code, ?_⟩
  rw [captureDirectory, hidentity, henumerable, hrun]
  rfl

end Captures

theorem throws_mapError {ε ε' α : Type} {P : ε' → Prop} {f : ε → ε'} {x : Except ε α} :
    Throws P (x.mapError f) ↔ Throws (fun e => P (f e)) x := by
  cases x with
  | ok a => exact ⟨fun _ => throws_pure, fun _ => throws_pure⟩
  | error e =>
    show Throws P (.error (f e) : Except ε' α) ↔ _
    rw [throws_error, throws_error]

theorem checkLayout_throws (tree : PackageTree) (custody : Custody) :
    Throws (fun e => safeRelativeFile e.path = true) (checkLayout tree custody) := by
  unfold checkLayout
  split
  · split
    · exact throws_error.mpr safe_connectorYaml
    split
    · exact throws_error.mpr safe_relations
    split
    · exact throws_error.mpr safe_connectorYaml
    · exact throws_pure
  · exact throws_error.mpr safe_connectorYaml

theorem readChunks_throws (limits : PackageSourceLimits) (path : Bytes) (aggregate : Nat)
    (bytes : Bytes) (reads : List (Option Bytes)) :
    Throws (·.path = path) (readChunks limits path aggregate bytes reads) := by
  induction reads generalizing bytes with
  | nil => exact throws_pure
  | cons chunk rest ih =>
    cases chunk with
    | none => exact throws_error.mpr rfl
    | some chunk =>
      rw [readChunks]
      split
      · exact throws_error.mpr rfl
      · exact ih _

section Leaves

variable {limits : PackageSourceLimits} {path : Bytes} {captured : FileIdentity} {aggregate : Nat}
  {leaf : LeafReading}

theorem readLeaf_throws :
    Throws (·.path = path) (readLeaf limits path captured aggregate leaf) := by
  unfold readLeaf
  split
  · exact throws_error.mpr rfl
  split
  · exact throws_error.mpr rfl
  refine (validateEntryType_throws _ _).bind fun _ _ => ?_
  refine Throws.bind (throws_throwIf.mpr fun _ => rfl) fun _ _ => ?_
  refine Throws.bind (throws_throwIf.mpr fun _ => rfl) fun _ _ => ?_
  refine (readChunks_throws limits path aggregate [] _).bind fun _ _ => ?_
  exact Throws.bind (throws_throwIf.mpr fun _ => rfl) fun _ _ => throws_pure

/-- A file that was read is no longer than a file may be. -/
theorem readLeaf_length {bytes : Bytes}
    (h : readLeaf limits path captured aggregate leaf = .ok bytes) :
    bytes.length ≤ limits.maxFileBytes := by
  unfold readLeaf at h
  split at h
  · cases h
  split at h
  · cases h
  simp only [bind_eq_ok, throwIf_eq_ok] at h
  obtain ⟨-, -, -, -, -, hsize, read, -, -, hlength, h⟩ := h
  obtain rfl := Except.ok.inj h
  simp only [Bool.or_eq_false_iff, decide_eq_false_iff_not, bne_eq_false_iff_eq] at hsize hlength
  omega

end Leaves

-- ---------------------------------------------------------------------------
-- Where the parser stops
-- ---------------------------------------------------------------------------

theorem splitLines_bounds (bytes : Bytes) :
    (splitLines bytes).length ≤ bytes.length ∧
      ∀ text ∈ splitLines bytes, text.length ≤ bytes.length := by
  induction bytes with
  | nil => exact ⟨Nat.le_refl 0, fun text h => absurd h List.not_mem_nil⟩
  | cons b rest ih =>
    obtain ⟨hcount, htexts⟩ := ih
    rw [splitLines]
    split
    · refine ⟨Nat.succ_le_succ hcount, fun text h => ?_⟩
      rcases List.mem_cons.mp h with rfl | h
      · exact Nat.zero_le _
      · exact Nat.le_succ_of_le (htexts text h)
    · split
      · exact ⟨Nat.succ_le_succ (Nat.zero_le _), fun text h => by
          rw [List.mem_singleton.mp h]
          exact Nat.succ_le_succ (Nat.zero_le _)⟩
      · rename_i line more hlines
        rw [hlines] at hcount htexts
        refine ⟨Nat.le_succ_of_le hcount, fun text h => ?_⟩
        rcases List.mem_cons.mp h with rfl | h
        · exact Nat.succ_le_succ (htexts line List.mem_cons_self)
        · exact Nat.le_succ_of_le (htexts text (List.mem_cons_of_mem _ h))

theorem toUInt64_ne_zero {n : Nat} (hpos : 0 < n) (h : n < 2 ^ 64) : n.toUInt64 ≠ 0 := by
  rw [ne_eq, ← UInt64.toNat_inj]
  show ¬n % 2 ^ 64 = 0
  rw [Nat.mod_eq_of_lt h]
  omega

/-- Lines and columns are counted from one. -/
theorem place_positive (place : FailsafeYaml.Place) {bytes : Bytes}
    (h : bytes.length < 2 ^ 63) :
    (place.line (splitLines bytes)).toUInt64 ≠ 0 ∧
      (place.column (splitLines bytes)).toUInt64 ≠ 0 := by
  obtain ⟨hcount, htexts⟩ := splitLines_bounds bytes
  constructor
  · rw [FailsafeYaml.Place.line]
    exact toUInt64_ne_zero (by omega) (by omega)
  · rw [FailsafeYaml.Place.column]
    split
    · decide
    have htext : ((splitLines bytes).getD ((splitLines bytes).length - place.lines) []).length ≤
        bytes.length := by
      rw [List.getD_eq_getElem?_getD]
      cases hline : (splitLines bytes)[(splitLines bytes).length - place.lines]? with
      | none => exact Nat.zero_le _
      | some text => exact htexts text (List.mem_of_getElem? hline)
    exact toUInt64_ne_zero (by omega) (by omega)

/-- What a diagnostic of the parser carries. -/
theorem parseDocument_throws {file bytes : Bytes} (budget : Budget)
    (hfile : safeRelativeFile file = true) (hname : file ≠ []) (hbytes : bytes.length < 2 ^ 63) :
    Throws (fun e => safeCoordinate (syntaxMark e).coordinate = true)
      (parseDocument file bytes budget) := by
  have hsafe {line column : UInt64} (code : FailsafeYaml.ErrorCode) (hline : line ≠ 0) (hcolumn : column ≠ 0) :
      safeCoordinate (syntaxMark ⟨code, file, line, column⟩).coordinate = true := by
    simp [safeCoordinate, syntaxMark, SourceMark.coordinate, hfile, hname, hline, hcolumn, ascii]
    decide
  unfold parseDocument
  cases FailsafeYaml.parseFailsafeYaml bytes budget with
  | ok parsed => exact throws_pure
  | error stop =>
    refine throws_error.mpr ?_
    cases stop with
    | running => exact hsafe _ (by decide) (by decide)
    | thrown error =>
      obtain ⟨hline, hcolumn⟩ := place_positive error.place hbytes
      exact hsafe _ hline hcolumn

-- ---------------------------------------------------------------------------
-- Acquisition
-- ---------------------------------------------------------------------------

theorem relationIds_throws (maxRelations : Nat) (ids : List Bytes) (nodes : List Node) :
    Throws (·.path = connectorYaml) (relationIds maxRelations ids nodes) := by
  induction nodes generalizing ids with
  | nil => exact throws_pure
  | cons node rest ih =>
    unfold relationIds
    split
    · split
      · exact throws_error.mpr rfl
      split
      · exact throws_error.mpr rfl
      · exact ih _
    · exact throws_error.mpr rfl

/-- The relations of a manifest are identifiers. -/
theorem relationIds_identifiers {maxRelations : Nat} {ids listed : List Bytes} {nodes : List Node}
    (hids : ∀ id ∈ ids, isIdentifier id = true)
    (h : relationIds maxRelations ids nodes = .ok listed) :
    ∀ id ∈ listed, isIdentifier id = true := by
  induction nodes generalizing ids with
  | nil =>
    obtain rfl := Except.ok.inj h
    exact hids
  | cons node rest ih =>
    unfold relationIds at h
    split at h
    · split at h
      · cases h
      rename_i hvalid
      rw [Bool.or_eq_true, not_or, Bool.not_eq_true', Bool.not_eq_false] at hvalid
      split at h
      · cases h
      refine ih (fun id hid => ?_) h
      rcases List.mem_append.mp hid with hid | hid
      · exact hids id hid
      · rw [List.mem_singleton.mp hid]
        exact hvalid.1
    · cases h

theorem listedRelations_throws (root : Node) :
    Throws (·.path = connectorYaml) (listedRelations root) := by
  unfold listedRelations
  split
  · split
    · split
      · exact throws_error.mpr rfl
      · exact throws_pure
    · exact throws_error.mpr rfl
  · exact throws_error.mpr rfl

section Throwing

variable {limits : PackageSourceLimits} {tree : PackageTree} {custody : Custody}

/-- What acquisition throws: an error a diagnostic may carry, unless it stops at an entry whose
path none may. -/
def Told (limits : PackageSourceLimits) (tree : PackageTree) : Failure → Prop
  | .source error => safeRelativeFile error.path = true ∨ StopsAtEntry limits tree
  | .yaml error => safeCoordinate (syntaxMark error).coordinate = true
  | .invalidArgument => False

theorem told_of_path {path : Bytes} (hsafe : safeRelativeFile path = true)
    {α : Type} {x : Except PackageSourceError α} (h : Throws (·.path = path) x) :
    Throws (Told limits tree) (x.mapError .source) := by
  refine throws_mapError.mpr fun e he => .inl ?_
  rw [h e he]
  exact hsafe

theorem openCustody_throws :
    Throws (fun e => safeRelativeFile e.path = true ∨ StopsAtEntry limits tree)
      (openCustody limits tree) := by
  unfold openCustody
  refine Throws.bind (fun e he => .inl ?_) fun _ hopen => ?_
  · rw [openRelations_throws tree e he]
    exact safe_relations
  refine Throws.bind (fun e he => ?_) fun left hroot => ?_
  · rcases captureDirectory_throws _ _ e he with hpath | hstop
    · exact .inl (by rw [hpath]; rfl)
    · by_cases hpath : safeRelativeFile e.path = true
      · exact .inl hpath
      · exact .inr (.root e.path hopen hstop (Bool.eq_false_of_not_eq_true hpath))
  refine Throws.bind (fun e he => ?_) fun left _ => ?_
  · rcases captureDirectory_throws _ _ e he with hpath | hstop
    · exact .inl (by rw [hpath]; exact safe_relations)
    · by_cases hpath : safeRelativeFile e.path = true
      · exact .inl hpath
      · exact .inr (.relations e.path left.1 left.2 hopen hroot hstop
          (Bool.eq_false_of_not_eq_true hpath))
  refine Throws.bind (fun e he => .inl (checkLayout_throws tree _ e he)) fun _ _ => throws_pure

theorem validateListedRelations_throws {ids : List Bytes}
    (hids : ∀ id ∈ ids, isIdentifier id = true) :
    Throws (fun e => safeRelativeFile e.path = true ∨
        ∃ entry, custody.relationsBefore.entries.find? (isUnlisted ids) = some entry ∧
          e.path = relative relations entry.name)
      (validateListedRelations custody ids) := by
  unfold validateListedRelations
  split
  · rename_i entry hentry
    exact throws_error.mpr (.inr ⟨entry, hentry, rfl⟩)
  dsimp only
  split
  · rename_i name hname
    have hmem := List.mem_of_find?_eq_some hname
    rw [List.mem_mergeSort, List.mem_map] at hmem
    obtain ⟨id, hid, rfl⟩ := hmem
    exact throws_error.mpr (.inl (safe_relationFile (hids id hid)))
  · exact throws_pure

theorem readManifest_throws : Throws (·.path = connectorYaml)
    (readManifest limits tree custody) := by
  unfold readManifest
  split
  · exact throws_error.mpr rfl
  · exact readLeaf_throws

theorem readManifest_length {manifest : Bytes}
    (h : readManifest limits tree custody = .ok manifest) :
    manifest.length ≤ limits.maxFileBytes := by
  unfold readManifest at h
  split at h
  · cases h
  · exact readLeaf_length h

theorem mapError_eq_ok {ε ε' α : Type} {f : ε → ε'} {x : Except ε α} {a : α} :
    x.mapError f = .ok a ↔ x = .ok a := by
  cases x with
  | ok b => exact Iff.of_eq (by simp [Except.mapError])
  | error e => exact ⟨(fun h => nomatch h), (fun h => nomatch h)⟩

/-- What the manifest gives: itself, of a bounded size, and identifiers. -/
theorem readListed_ok {manifest : Bytes} {ids : List Bytes}
    (h : readListed limits tree custody = .ok (manifest, ids)) :
    manifest.length ≤ limits.maxFileBytes ∧ ∀ id ∈ ids, isIdentifier id = true := by
  unfold readListed manifestRelationIds at h
  simp only [bind_eq_ok, mapError_eq_ok] at h
  obtain ⟨read, hread, listed, ⟨parsed, -, values, -, hids⟩, h⟩ := h
  obtain ⟨rfl, rfl⟩ := Prod.mk.inj (Except.ok.inj h)
  exact ⟨readManifest_length hread,
    relationIds_identifiers (fun id hid => absurd hid List.not_mem_nil) hids⟩

theorem readListed_throws (hsize : limits.maxFileBytes < 2 ^ 63) :
    Throws (Told limits tree) (readListed limits tree custody) := by
  unfold readListed manifestRelationIds
  refine Throws.bind (told_of_path safe_connectorYaml readManifest_throws) fun manifest hread => ?_
  have hlength := readManifest_length (mapError_eq_ok.mp hread)
  refine Throws.bind (Throws.bind ?_ fun parsed _ => ?_) fun _ _ => throws_pure
  · refine throws_mapError.mpr ?_
    exact parseDocument_throws _ safe_connectorYaml (by decide) (by omega)
  · refine Throws.bind (told_of_path safe_connectorYaml (listedRelations_throws _)) fun _ _ => ?_
    exact told_of_path safe_connectorYaml (relationIds_throws _ _ _)

theorem readRelation_throws {id : Bytes} (aggregate : Nat) :
    Throws (·.path = relative relations (relationFile id))
      (readRelation limits tree custody id aggregate) := by
  unfold readRelation
  split
  · exact throws_error.mpr rfl
  · exact readLeaf_throws

theorem readRelations_throws {ids : List Bytes} (hids : ∀ id ∈ ids, isIdentifier id = true)
    (aggregate : Nat) :
    Throws (fun e => safeRelativeFile e.path = true)
      (readRelations limits tree custody aggregate ids) := by
  induction ids generalizing aggregate with
  | nil => exact throws_pure
  | cons id rest ih =>
    unfold readRelations
    refine Throws.bind (fun e he => ?_) fun bytes _ => ?_
    · rw [readRelation_throws aggregate e he]
      exact safe_relationFile (hids id List.mem_cons_self)
    · refine Throws.bind (ih (fun other h => hids other (List.mem_cons_of_mem _ h)) _) fun _ _ => ?_
      exact throws_pure

/-- The files of the relations have safe paths and a bounded size. -/
theorem readRelations_ok {ids : List Bytes} {files : List SemanticSourceFile} {aggregate : Nat}
    (hids : ∀ id ∈ ids, isIdentifier id = true)
    (h : readRelations limits tree custody aggregate ids = .ok files) :
    ∀ file ∈ files, safeRelativeFile file.path = true ∧ file.path ≠ [] ∧
      file.bytes.length ≤ limits.maxFileBytes := by
  induction ids generalizing aggregate files with
  | nil =>
    obtain rfl := Except.ok.inj h
    exact fun file hfile => absurd hfile List.not_mem_nil
  | cons id rest ih =>
    unfold readRelations at h
    simp only [bind_eq_ok] at h
    obtain ⟨bytes, hread, others, hrest, h⟩ := h
    obtain rfl := Except.ok.inj h
    intro file hfile
    rcases List.mem_cons.mp hfile with rfl | hfile
    · have hlength : bytes.length ≤ limits.maxFileBytes := by
        unfold readRelation at hread
        split at hread
        · cases hread
        · exact readLeaf_length hread
      refine ⟨safe_relationFile (hids id List.mem_cons_self), ?_, hlength⟩
      exact List.cons_ne_nil _ _
    · exact ih (fun other hother => hids other (List.mem_cons_of_mem _ hother)) hrest file hfile

theorem acquireFromCustody_throws (hsize : limits.maxFileBytes < 2 ^ 63)
    (hcustody : openCustody limits tree = .ok custody) :
    Throws (Told limits tree) (acquireFromCustody limits tree custody) := by
  unfold acquireFromCustody
  refine Throws.bind (readListed_throws hsize) fun listed hlisted => ?_
  obtain ⟨manifest, ids⟩ := listed
  have hids := (readListed_ok hlisted).2
  refine Throws.bind (throws_mapError.mpr fun e he => ?_) fun _ hvalid => ?_
  · rcases validateListedRelations_throws hids e he with hpath | ⟨entry, hstop, hpath⟩
    · exact .inl hpath
    · by_cases hsafe : safeRelativeFile e.path = true
      · exact .inl hsafe
      · rw [hpath] at hsafe
        exact .inr (.unlisted custody manifest ids entry hcustody hlisted hstop
          (Bool.eq_false_of_not_eq_true hsafe))
  have hvalid := mapError_eq_ok.mp hvalid
  refine Throws.bind (throws_mapError.mpr fun e he => .inl ?_) fun files hfiles => ?_
  · exact readRelations_throws hids _ e he
  have hfiles := mapError_eq_ok.mp hfiles
  refine Throws.bind (throws_mapError.mpr ?_) fun _ _ => throws_pure
  unfold verifyUnchanged
  refine Throws.bind (fun e he => ?_) fun left hroot => ?_
  · rcases captureDirectory_throws _ _ e he with hpath | hstop
    · exact .inl (by rw [hpath]; rfl)
    · by_cases hpath : safeRelativeFile e.path = true
      · exact .inl hpath
      · exact .inr (.rootAgain custody manifest ids files e.path hcustody hlisted hvalid hfiles
          hstop (Bool.eq_false_of_not_eq_true hpath))
  refine Throws.bind (fun e he => ?_) fun left' _ => ?_
  · rcases captureDirectory_throws _ _ e he with hpath | hstop
    · exact .inl (by rw [hpath]; exact safe_relations)
    · by_cases hpath : safeRelativeFile e.path = true
      · exact .inl hpath
      · exact .inr (.relationsAgain custody manifest ids files e.path left.1 left.2 hcustody
          hlisted hvalid hfiles hroot hstop (Bool.eq_false_of_not_eq_true hpath))
  · exact throws_throwIf.mpr fun _ => .inl rfl

end Throwing

theorem effectiveLimits_maxFileBytes {host limits : PackageSourceLimits}
    (h : effectiveLimits host = .ok limits) : limits.maxFileBytes < 2 ^ 63 := by
  unfold effectiveLimits at h
  simp only [bind_eq_ok] at h
  obtain ⟨-, -, h⟩ := h
  obtain rfl := Except.ok.inj h
  show min host.maxFileBytes (1024 * 1024) < 2 ^ 63
  omega

section Acquired

variable {host : PackageSourceLimits} {opened : Except PackageSourceError Unit}
  {tree : PackageTree}

/-- The runs of acquisition that come to its directories. -/
theorem acquire_eq {limits : PackageSourceLimits} (hlimits : effectiveLimits host = .ok limits)
    (hopened : opened = .ok ()) :
    acquire host opened tree = ((openCustody limits tree).mapError .source >>= fun custody =>
      acquireFromCustody limits tree custody) := by
  rw [acquire, hlimits, hopened]
  rfl

theorem acquire_throws (hopened : Throws (·.path = []) opened) :
    Throws (fun failure => (∃ limits, effectiveLimits host = .ok limits ∧ opened = .ok () ∧
        Told limits tree failure) ∨
      (∃ e : PackageSourceError, failure = .source e ∧ e.path = []) ∨ failure = .invalidArgument)
      (acquire host opened tree) := by
  unfold acquire
  refine Throws.bind (fun failure hfailure => .inr (.inr ?_)) fun limits hlimits => ?_
  · unfold effectiveLimits at hfailure
    refine Throws.bind (P := (· = .invalidArgument)) (throws_throwIf.mpr fun _ => rfl)
      (fun _ _ => throws_pure) failure hfailure
  refine Throws.bind (throws_mapError.mpr fun e he => .inr (.inl ⟨e, rfl, hopened e he⟩))
    fun _ hok => ?_
  have hok := mapError_eq_ok.mp hok
  refine Throws.bind (throws_mapError.mpr fun e he => .inl ⟨limits, hlimits, hok, ?_⟩)
    fun custody hcustody failure hfailure => .inl ⟨limits, hlimits, hok, ?_⟩
  · exact openCustody_throws e he
  · exact acquireFromCustody_throws (effectiveLimits_maxFileBytes hlimits)
      (mapError_eq_ok.mp hcustody) failure hfailure

/-- Acquisition throws a path a diagnostic may carry, or stops at an entry under the path the
entry has. -/
theorem acquire_source_error (hopened : Throws (·.path = []) opened) {e : PackageSourceError}
    (h : acquire host opened tree = .error (.source e)) :
    safeRelativeFile e.path = true ∨ StopsUnnameable host opened tree := by
  rcases acquire_throws hopened _ h with ⟨limits, hlimits, hok, htold⟩ | ⟨e', he, hpath⟩ | hnone
  · rcases htold with hpath | hstop
    · exact .inl hpath
    · exact .inr ⟨limits, hlimits, hok, hstop⟩
  · obtain rfl := Failure.source.inj he
    rw [hpath]
    exact .inl rfl
  · cases hnone

theorem acquire_yaml_error (hopened : Throws (·.path = []) opened) {e : FailsafeYamlError}
    (h : acquire host opened tree = .error (.yaml e)) :
    safeCoordinate (syntaxMark e).coordinate = true := by
  rcases acquire_throws hopened _ h with ⟨limits, -, -, htold⟩ | ⟨e', he, -⟩ | hnone
  · exact htold
  · cases he
  · cases hnone

/-- Acquisition that stops at such an entry throws its path. -/
theorem acquire_of_stops (h : StopsUnnameable host opened tree) :
    ∃ e, acquire host opened tree = .error (.source e) ∧
      safeRelativeFile e.path = false := by
  obtain ⟨limits, hlimits, hopened, hstops⟩ := h
  rw [acquire_eq hlimits hopened]
  cases hstops with
  | root path hopen hstop hpath =>
    obtain ⟨code, hrun⟩ := captureDirectory_of_refused hstop
    refine ⟨⟨code, path⟩, ?_, hpath⟩
    rw [openCustody, hopen]
    dsimp only [ok_bind]
    rw [hrun]
    rfl
  | relations path rootBefore counted hopen hroot hstop hpath =>
    obtain ⟨code, hrun⟩ := captureDirectory_of_refused hstop
    refine ⟨⟨code, path⟩, ?_, hpath⟩
    rw [openCustody, hopen]
    dsimp only [ok_bind]
    rw [hroot]
    dsimp only [ok_bind]
    rw [hrun]
    rfl
  | unlisted custody manifest ids entry hcustody hlisted hstop hpath =>
    refine ⟨⟨.invalidPath, relative relations entry.name⟩, ?_, hpath⟩
    rw [hcustody]
    show acquireFromCustody limits tree custody = _
    rw [acquireFromCustody, hlisted]
    dsimp only [ok_bind]
    rw [validateListedRelations, hstop]
    rfl
  | rootAgain custody manifest ids files path hcustody hlisted hvalid hfiles hstop hpath =>
    obtain ⟨code, hrun⟩ := captureDirectory_of_refused hstop
    refine ⟨⟨code, path⟩, ?_, hpath⟩
    rw [hcustody]
    show acquireFromCustody limits tree custody = _
    rw [acquireFromCustody, hlisted]
    dsimp only [ok_bind]
    rw [hvalid, hfiles, verifyUnchanged, hrun]
    rfl
  | relationsAgain custody manifest ids files path rootAfter counted hcustody hlisted hvalid hfiles
      hroot hstop hpath =>
    obtain ⟨code, hrun⟩ := captureDirectory_of_refused hstop
    refine ⟨⟨code, path⟩, ?_, hpath⟩
    rw [hcustody]
    show acquireFromCustody limits tree custody = _
    rw [acquireFromCustody, hlisted]
    dsimp only [ok_bind]
    rw [hvalid, hfiles, verifyUnchanged, hroot]
    dsimp only [ok_bind]
    rw [hrun]
    rfl

/-- The files of a snapshot have safe paths and a bounded size. -/
theorem acquired_files {snapshot : PackageSourceSnapshot}
    (h : acquire host opened tree = .ok snapshot) :
    ∀ file ∈ snapshot.files, safeRelativeFile file.path = true ∧ file.path ≠ [] ∧
      file.bytes.length < 2 ^ 63 := by
  unfold acquire acquireFromCustody at h
  simp only [bind_eq_ok, mapError_eq_ok] at h
  obtain ⟨limits, hlimits, -, -, custody, -, ⟨manifest, ids⟩, hlisted, -, -, files, hfiles, -, -,
    h⟩ := h
  obtain rfl := Except.ok.inj h
  have hsize := effectiveLimits_maxFileBytes hlimits
  obtain ⟨hmanifest, hids⟩ := readListed_ok hlisted
  intro file hfile
  rcases List.mem_cons.mp hfile with rfl | hfile
  · exact ⟨safe_connectorYaml, List.cons_ne_nil _ _, Nat.lt_of_le_of_lt hmanifest hsize⟩
  · obtain ⟨hpath, hname, hlength⟩ := readRelations_ok hids hfiles file hfile
    exact ⟨hpath, hname, Nat.lt_of_le_of_lt hlength hsize⟩

end Acquired

end Cuac.Connector.PackageSource

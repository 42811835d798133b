import Mathlib.Data.List.Sort
import Cuac.Connector.ContentDigest
import Cuac.Connector.FailsafeYaml

/-!
# Connector — the digest of a package

`ComputePackageDigest`: the files of a package are checked, put in the order of their
paths and written one after the other, each path and each content behind its length.
The digest is a hash of that string. The model is of a run that nobody cancels.

Main results:

* `frameFiles_injective` — a framing has one list of files.
* `package_digest_identity` — two packages are framed alike exactly when they have the
  same files.
-/

namespace Cuac.Connector.PackageDigest

open Cuac.Lib Cuac.Connector.ContentDigest

structure SemanticSourceFile where
  path : Bytes
  bytes : Bytes
  deriving DecidableEq, Repr

inductive Fault
  | invalidArgument (message : Bytes)
  | lengthError (message : Bytes)
  deriving DecidableEq, Repr

def maxU64 : Nat :=
  2 ^ 64 - 1

-- ---------------------------------------------------------------------------
-- Paths
-- ---------------------------------------------------------------------------

/-- One step of a path: not empty, and not a step to the same or the upper directory. -/
def isNamedStep (step : Bytes) : Bool :=
  !(step.isEmpty || step == ascii "." || step == ascii "..")

/-- The source has its own copy of the check of UTF-8. -/
def isNormalizedRelativePath (path : Bytes) : Bool :=
  if path.isEmpty || path.head? == some (byte '/') || path.getLast? == some (byte '/') ||
      path.contains (byte '\\') || path.contains 0 || !FailsafeYaml.isValidUtf8 path then false
  else (path.splitOn (byte '/')).all isNamedStep

def asciiFold (value : Bytes) : Bytes :=
  value.map fun b => if byte 'A' ≤ b && b ≤ byte 'Z' then b - byte 'A' + byte 'a' else b

-- ---------------------------------------------------------------------------
-- The digest
-- ---------------------------------------------------------------------------

/-- The first loop, with the folded paths seen so far. -/
def admitFiles : List Bytes → List SemanticSourceFile → Except Fault Unit
  | _, [] => .ok ()
  | folded, file :: rest => do
    throwIf (!isNormalizedRelativePath file.path)
      (.invalidArgument (ascii "semantic source path is not normalized relative POSIX UTF-8"))
    throwIf (maxU64 < file.path.length || maxU64 < file.bytes.length)
      (.invalidArgument (ascii "semantic source cannot be represented by the digest framing"))
    throwIf (folded.contains (asciiFold file.path))
      (.invalidArgument (ascii "semantic source paths are duplicate or case-colliding"))
    admitFiles (asciiFold file.path :: folded) rest

/-- `left->path < right->path`, or the same path. -/
def pathLe (left right : SemanticSourceFile) : Prop :=
  (List.instLE : LE Bytes).le left.path right.path

instance : DecidableRel pathLe :=
  fun left right => inferInstanceAs (Decidable ((List.instLE : LE Bytes).le left.path right.path))

/-- `std::sort` by path. No two files have one path, so every sort gives the same list. -/
def orderFiles (files : List SemanticSourceFile) : List SemanticSourceFile :=
  files.insertionSort pathLe

def exceeded : Fault :=
  .lengthError (ascii "semantic source digest framing exceeds addressable memory")

/-- The second loop: the size of the framing, with `std::size_t` of 64 bits. -/
def framedSize : Nat → List SemanticSourceFile → Except Fault Nat
  | size, [] => .ok size
  | size, file :: rest => do
    throwIf (maxU64 - 16 < file.path.length) exceeded
    let prefixAndPath := 16 + file.path.length
    throwIf (maxU64 - prefixAndPath < file.bytes.length) exceeded
    let framedFileSize := prefixAndPath + file.bytes.length
    throwIf (maxU64 - framedFileSize < size) exceeded
    framedSize (size + framedFileSize) rest

/-- `AppendU64BigEndian` of a length, and what has that length. -/
def framed (content : Bytes) : Bytes :=
  bigEndian 8 content.length ++ content

/-- The third loop. -/
def frameFiles (files : List SemanticSourceFile) : Bytes :=
  files.flatMap fun file => framed file.path ++ framed file.bytes

/-- What `ComputePackageDigest` hands to SHA-256. -/
def framePackage (files : List SemanticSourceFile) : Except Fault Bytes := do
  admitFiles [] files
  let ordered := orderFiles files
  let _ ← framedSize 0 ordered
  .ok (frameFiles ordered)

def computeDigest (framing : Bytes) : Bytes :=
  ascii "sha256." ++ computeSha256Hex framing

def computePackageDigest (files : List SemanticSourceFile) : Except Fault Bytes := do
  let framing ← framePackage files
  .ok (computeDigest framing)

-- ---------------------------------------------------------------------------
-- What is admitted
-- ---------------------------------------------------------------------------

/-- The checks of one file. -/
structure Admissible (file : SemanticSourceFile) : Prop where
  normalized : isNormalizedRelativePath file.path = true
  path : file.path.length ≤ maxU64
  bytes : file.bytes.length ≤ maxU64

theorem admitFiles_eq_ok {seen : List Bytes} {files : List SemanticSourceFile} :
    admitFiles seen files = .ok () ↔
      (∀ file ∈ files, Admissible file) ∧ (files.map fun file => asciiFold file.path).Nodup ∧
        ∀ file ∈ files, asciiFold file.path ∉ seen := by
  induction files generalizing seen with
  | nil => simp [admitFiles]
  | cons file rest ih =>
    rw [admitFiles]
    simp only [bind_eq_ok, throwIf_eq_ok, exists_and_left, exists_const, ih, Bool.not_eq_false',
      Bool.or_eq_false_iff, decide_eq_false_iff_not, not_lt, List.contains_eq_mem,
      decide_eq_false_iff_not, List.mem_cons, List.map_cons, List.nodup_cons, List.mem_map, not_or,
      not_exists, not_and, forall_eq_or_imp]
    constructor
    · rintro ⟨hnormal, ⟨hpath, hbytes⟩, hseen, hrest, hnodup, hfresh⟩
      exact ⟨⟨⟨hnormal, hpath, hbytes⟩, hrest⟩,
        ⟨fun other hother => (hfresh other hother).1, hnodup⟩, hseen, fun other hother => (hfresh other hother).2⟩
    · rintro ⟨⟨hfile, hrest⟩, ⟨hone, hnodup⟩, hseen, hfresh⟩
      exact ⟨hfile.normalized, ⟨hfile.path, hfile.bytes⟩, hseen, hrest, hnodup,
        fun other hother => ⟨hone other hother, hfresh other hother⟩⟩

/-- The files that the first loop lets through. -/
structure Admitted (files : List SemanticSourceFile) : Prop where
  admissible : ∀ file ∈ files, Admissible file
  distinct : (files.map fun file => asciiFold file.path).Nodup

theorem admitted_iff {files : List SemanticSourceFile} :
    admitFiles [] files = .ok () ↔ Admitted files := by
  rw [admitFiles_eq_ok]
  constructor
  · rintro ⟨hall, hnodup, -⟩
    exact ⟨hall, hnodup⟩
  · rintro ⟨hall, hnodup⟩
    exact ⟨hall, hnodup, fun file _ => List.not_mem_nil⟩

theorem Admitted.perm {files files' : List SemanticSourceFile} (h : Admitted files)
    (hperm : files.Perm files') : Admitted files' :=
  ⟨fun file hfile => h.admissible file (hperm.mem_iff.mpr hfile),
    (hperm.map _).nodup_iff.mp h.distinct⟩

/-- Two admitted files of one path are one file. -/
theorem Admitted.eq_of_path {files : List SemanticSourceFile} (h : Admitted files)
    {file file' : SemanticSourceFile} (hfile : file ∈ files) (hfile' : file' ∈ files)
    (hpath : file.path = file'.path) : file = file' :=
  List.inj_on_of_nodup_map h.distinct hfile hfile' (by rw [hpath])

-- ---------------------------------------------------------------------------
-- The order of the files
-- ---------------------------------------------------------------------------

instance : Std.Total pathLe :=
  ⟨fun left right => List.le_total left.path right.path⟩

instance : IsTrans SemanticSourceFile pathLe :=
  ⟨fun _ _ _ => List.le_trans⟩

theorem orderFiles_perm (files : List SemanticSourceFile) : (orderFiles files).Perm files :=
  List.perm_insertionSort pathLe files

/-- The order in which the files were read does not matter. -/
theorem orderFiles_eq {files files' : List SemanticSourceFile} (h : Admitted files)
    (hperm : files.Perm files') : orderFiles files = orderFiles files' := by
  have hsame : (orderFiles files).Perm (orderFiles files') :=
    (orderFiles_perm files).trans (hperm.trans (orderFiles_perm files').symm)
  refine List.Perm.eq_of_pairwise (fun left right hleft hright hle hge => ?_)
    (List.pairwise_insertionSort pathLe files) (List.pairwise_insertionSort pathLe files') hsame
  have hmem : left ∈ files := (orderFiles_perm files).mem_iff.mp hleft
  have hmem' : right ∈ files :=
    hperm.mem_iff.mpr ((orderFiles_perm files').mem_iff.mp hright)
  exact h.eq_of_path hmem hmem' (List.le_antisymm hle hge)

-- ---------------------------------------------------------------------------
-- Framing
-- ---------------------------------------------------------------------------

/-- A length says where what has it ends. -/
theorem framed_append_inj {a b rest rest' : Bytes} (ha : a.length ≤ maxU64)
    (hb : b.length ≤ maxU64) (h : framed a ++ rest = framed b ++ rest') : a = b ∧ rest = rest' := by
  unfold framed at h
  rw [List.append_assoc, List.append_assoc] at h
  obtain ⟨hlengths, hrest⟩ := List.append_inj h (by rw [length_bigEndian, length_bigEndian])
  have hlength : a.length = b.length := by
    unfold maxU64 at ha hb
    exact bigEndian_injective (by omega) (by omega) hlengths
  exact List.append_inj hrest hlength

/-- A framing has one list of files. -/
theorem frameFiles_injective {files files' : List SemanticSourceFile}
    (h : ∀ file ∈ files, Admissible file) (h' : ∀ file ∈ files', Admissible file)
    (hframing : frameFiles files = frameFiles files') : files = files' := by
  have hfilled (file : SemanticSourceFile) (rest : List SemanticSourceFile) :
      frameFiles (file :: rest) = framed file.path ++ (framed file.bytes ++ frameFiles rest) := by
    rw [frameFiles, List.flatMap_cons, List.append_assoc]
    rfl
  have hne (file : SemanticSourceFile) (rest : List SemanticSourceFile) :
      frameFiles (file :: rest) ≠ [] := by
    intro hnil
    have hlength := congrArg List.length hnil
    rw [hfilled, framed, List.length_append, List.length_append, length_bigEndian] at hlength
    simp at hlength
  induction files generalizing files' with
  | nil =>
    cases files' with
    | nil => rfl
    | cons file' rest' => exact absurd hframing.symm (hne file' rest')
  | cons file rest ih =>
    cases files' with
    | nil => exact absurd hframing (hne file rest)
    | cons file' rest' =>
      have hfile := h file List.mem_cons_self
      have hfile' := h' file' List.mem_cons_self
      rw [hfilled, hfilled] at hframing
      obtain ⟨hpath, hframing⟩ := framed_append_inj hfile.path hfile'.path hframing
      obtain ⟨hbytes, hframing⟩ := framed_append_inj hfile.bytes hfile'.bytes hframing
      have hrest := ih (fun f hf => h f (List.mem_cons_of_mem _ hf))
        (fun f hf => h' f (List.mem_cons_of_mem _ hf)) hframing
      obtain ⟨path, bytes⟩ := file
      obtain ⟨path', bytes'⟩ := file'
      dsimp only at hpath hbytes
      rw [hpath, hbytes, hrest]

theorem framePackage_eq_ok {files : List SemanticSourceFile} {framing : Bytes}
    (h : framePackage files = .ok framing) :
    Admitted files ∧ framing = frameFiles (orderFiles files) := by
  simp only [framePackage, bind_eq_ok] at h
  obtain ⟨_, hadmit, _, -, hframing⟩ := h
  exact ⟨admitted_iff.mp hadmit, (Except.ok.inj hframing).symm⟩

/-- What is framed does not depend on the order in which the files were read. -/
theorem framePackage_perm {files files' : List SemanticSourceFile} (hperm : files.Perm files') :
    (framePackage files).toOption = (framePackage files').toOption := by
  by_cases hadmitted : Admitted files
  · have hadmit := admitted_iff.mpr hadmitted
    have hadmit' := admitted_iff.mpr (hadmitted.perm hperm)
    rw [framePackage, framePackage, hadmit, hadmit', orderFiles_eq hadmitted hperm]
  · have hthrown {files : List SemanticSourceFile} (h : ¬Admitted files) :
        (framePackage files).toOption = none := by
      rw [framePackage]
      cases hadmit : admitFiles [] files with
      | ok u => exact absurd (admitted_iff.mp hadmit) h
      | error fault => rfl
    rw [hthrown hadmitted, hthrown fun h => hadmitted (h.perm hperm.symm)]

/-- Two strings with one hash. -/
def Collision (a b : Bytes) : Prop :=
  a ≠ b ∧ computeSha256Hex a = computeSha256Hex b

/-- Two packages are framed alike exactly when they have the same files, in whatever
order, and then their digests are the same; where the digests are the same without that,
the framings are a collision of SHA-256. Reading the files in another order changes
neither whether the package is accepted nor its digest. -/
theorem package_digest_identity (files files' : List SemanticSourceFile) :
    (∀ framing framing', framePackage files = .ok framing → framePackage files' = .ok framing' →
      (framing = framing' ↔ files.Perm files') ∧
        (¬Collision framing framing' →
          (computePackageDigest files = computePackageDigest files' ↔ files.Perm files'))) ∧
      (files.Perm files' →
        (computePackageDigest files).toOption = (computePackageDigest files').toOption) := by
  constructor
  · intro framing framing' hframing hframing'
    obtain ⟨hadmitted, hordered⟩ := framePackage_eq_ok hframing
    obtain ⟨hadmitted', hordered'⟩ := framePackage_eq_ok hframing'
    have hiff : framing = framing' ↔ files.Perm files' := by
      constructor
      · intro hsame
        rw [hordered, hordered'] at hsame
        have hfiles := frameFiles_injective
          (hadmitted.perm (orderFiles_perm files).symm).admissible
          (hadmitted'.perm (orderFiles_perm files').symm).admissible hsame
        have hperm := orderFiles_perm files'
        rw [← hfiles] at hperm
        exact (orderFiles_perm files).symm.trans hperm
      · intro hperm
        rw [hordered, hordered', orderFiles_eq hadmitted hperm]
    refine ⟨hiff, fun hfree => ?_⟩
    rw [← hiff, computePackageDigest, computePackageDigest, hframing, hframing', ok_bind, ok_bind,
      Except.ok.injEq]
    constructor
    · intro hdigest
      by_contra hne
      exact hfree ⟨hne, List.append_cancel_left hdigest⟩
    · rintro rfl
      rfl
  · intro hperm
    have hframing := framePackage_perm hperm
    rw [computePackageDigest, computePackageDigest]
    cases hrun : framePackage files with
    | ok framing =>
      rw [hrun] at hframing
      cases hrun' : framePackage files' with
      | ok framing' =>
        rw [hrun'] at hframing
        rw [Option.some.inj hframing]
      | error fault =>
        rw [hrun'] at hframing
        cases hframing
    | error fault =>
      rw [hrun] at hframing
      cases hrun' : framePackage files' with
      | ok framing' =>
        rw [hrun'] at hframing
        cases hframing
      | error fault' => rfl

/-- Two files read in either order, and a byte moved from a content to its path. -/
theorem package_digest_identity_sample :
    (computePackageDigest [⟨ascii "a", ascii "x"⟩, ⟨ascii "b", []⟩]).toOption =
        (computePackageDigest [⟨ascii "b", []⟩, ⟨ascii "a", ascii "x"⟩]).toOption ∧
      ∃ framing framing', framePackage [⟨ascii "a", ascii "bc"⟩] = .ok framing ∧
        framePackage [⟨ascii "ab", ascii "c"⟩] = .ok framing' ∧ framing ≠ framing' := by
  refine ⟨(package_digest_identity _ _).2 (List.Perm.swap _ _ _), ?_⟩
  have hframing : framePackage [⟨ascii "a", ascii "bc"⟩] =
      .ok (frameFiles [⟨ascii "a", ascii "bc"⟩]) := by decide +kernel
  have hframing' : framePackage [⟨ascii "ab", ascii "c"⟩] =
      .ok (frameFiles [⟨ascii "ab", ascii "c"⟩]) := by decide +kernel
  refine ⟨_, _, hframing, hframing', fun hsame => ?_⟩
  have hperm := ((package_digest_identity _ _).1 _ _ hframing hframing').1.mp hsame
  exact absurd (List.perm_singleton.mp hperm) (by decide)

end Cuac.Connector.PackageDigest

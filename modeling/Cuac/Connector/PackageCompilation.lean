import Cuac.Connector.PackageCustody

/-!
# Connector — failures of a package compilation

The two entry points of the package compiler turn what acquisition and the YAML parser
throw into a diagnostic. A diagnostic is a record that refuses a path custody reports.

Main results:

* `addAll_reports` — calls that all have a record leave something to list.
* `failures_reported_iff` — when every failure comes back as diagnostics.
-/

namespace Cuac.Connector.PackageSource

open Cuac.Lib
open Cuac.Connector.Diagnostics
open Cuac.Connector.FailsafeYaml (Node Budget)

-- ---------------------------------------------------------------------------
-- The compiler
-- ---------------------------------------------------------------------------

structure PackageCompilerLimits where
  yaml : FailsafeYaml.Limits
  maxDiagnostics : UInt64

def PackageCompilerLimits.v1 : PackageCompilerLimits := ⟨FailsafeYaml.Limits.v1, 256⟩

def rootMark : SourceMark := ⟨[], 0, 0, []⟩

def sourceFailureMark (file : Bytes) : SourceMark :=
  if file.isEmpty then rootMark else ⟨file, 1, 1, ascii "$"⟩

/-- A call of `Add` that names neither connector, relation nor operation. -/
def plainCall (code : PackageDiagnosticCode) (phase : PackageDiagnosticPhase) (mark : SourceMark) :
    AddCall :=
  ⟨code, phase, mark, [], [], [], none⟩

def sourceCall (error : PackageSourceError) : AddCall :=
  plainCall (if error.code == .resourceExhausted then .resourceExhausted else .packageIdentity)
    .source (sourceFailureMark error.path)

def syntaxCall (error : FailsafeYamlError) : AddCall :=
  plainCall (if error.code == .resourceExhausted then .resourceExhausted else .malformedYaml)
    .syntaxPhase (syntaxMark error)

def identityCall : AddCall := plainCall .packageIdentity .source rootMark

/-- What leaves an entry point as an exception: `std::invalid_argument`, or what the phases
after the parser throw. -/
inductive Escape
  | invalidArgument
  | later
  deriving DecidableEq, Repr

/-- A package or diagnostics, and never both. -/
structure PackageCompileResult (P : Type) where
  package : Option P
  diagnostics : List PackageDiagnostic
  outcome : package.isSome = diagnostics.isEmpty

section Compiler

variable {P : Type}

/-- The constructor of a result without a package. -/
def failed (diagnostics : List PackageDiagnostic) : Except Escape (PackageCompileResult P) :=
  if h : diagnostics.isEmpty = false then .ok ⟨none, diagnostics, h.symm⟩
  else .error .invalidArgument

/-- A sink that takes these calls and its diagnostics: `SourceFailureResult`,
`SyntaxFailureResult` and `InvalidLocalPackageResult`. -/
def report (calls : List AddCall) (maximum : UInt64) : Except Escape (PackageCompileResult P) :=
  match (PackageDiagnosticSink.new maximum).bind (·.addAll calls) with
  | none => .error .invalidArgument
  | some sink => failed sink.finish

/-- The loop over the documents: the trees and the errors. What a document that is refused
has charged to the budget is `charged`. -/
def parseDocuments (charged : Budget → Bytes → Nat) : Budget → List SemanticSourceFile →
    List (Bytes × Node) × List FailsafeYamlError
  | _, [] => ([], [])
  | budget, source :: rest =>
    match parseDocument source.path source.bytes budget with
    | .ok (document, budget) =>
      let (documents, errors) := parseDocuments charged budget rest
      ((source.path, document) :: documents, errors)
    | .error error =>
      let (documents, errors) :=
        parseDocuments charged { budget with nodesConsumed := charged budget source.bytes } rest
      (documents, error :: errors)

/-- The phases after the parser. -/
abbrev Later (P : Type) :=
  List (Bytes × Node) → PackageSourceSnapshot → PackageDiagnosticSink →
    Except Escape (PackageCompileResult P)

section Entry

variable (charged : Budget → Bytes → Nat) (schemaVerified : Bool) (later : Later P)

/-- `CompilePackage` -/
def compilePackage (limits : PackageCompilerLimits) (snapshot : PackageSourceSnapshot) :
    Except Escape (PackageCompileResult P) :=
  if !schemaVerified then report [identityCall] limits.maxDiagnostics
  else
    match PackageDiagnosticSink.new limits.maxDiagnostics, Budget.make limits.yaml with
    | some sink, .ok budget =>
      let (documents, errors) := parseDocuments charged budget snapshot.files
      match sink.addAll (errors.map syntaxCall) with
      | none => .error .invalidArgument
      | some sink => if !sink.empty then failed sink.finish else later documents snapshot sink
    | _, _ => .error .invalidArgument

/-- The `try` block of the entry points. -/
def compileAcquired (limits : PackageCompilerLimits)
    (acquired : Except Failure PackageSourceSnapshot) : Except Escape (PackageCompileResult P) :=
  match acquired with
  | .ok snapshot => compilePackage charged schemaVerified later limits snapshot
  | .error (.source error) => report [sourceCall error] limits.maxDiagnostics
  | .error (.yaml error) => report [syntaxCall error] limits.maxDiagnostics
  | .error .invalidArgument => .error .invalidArgument

variable (tree : PackageTree)

def compileLocalPackageRoot (root : Bytes) (opened : Bool) (answers : Nat → RootComponent)
    (sourceLimits : PackageSourceLimits) (limits : PackageCompilerLimits) :
    Except Escape (PackageCompileResult P) :=
  compileAcquired charged schemaVerified later limits
    (acquire sourceLimits (openAbsoluteRoot root opened answers) tree)

/-- `active` says that the package is valid and owns the expected generation. -/
def recompileLocalPackage (active duplicated : Bool) : Except Escape (PackageCompileResult P) :=
  if !active then report [identityCall] PackageCompilerLimits.v1.maxDiagnostics
  else
    compileAcquired charged schemaVerified later .v1
      (acquire .v1 (duplicateRoot duplicated) tree)

end Entry

end Compiler

-- ---------------------------------------------------------------------------
-- What a failure is
-- ---------------------------------------------------------------------------

/-- Acquisition or the parser throws an error that is not `std::invalid_argument`. -/
def Raised (charged : Budget → Bytes → Nat) (schemaVerified : Bool) (limits : PackageCompilerLimits) :
    Except Failure PackageSourceSnapshot → Prop
  | .error (.source _) => True
  | .error (.yaml _) => True
  | .error .invalidArgument => False
  | .ok snapshot => schemaVerified = true ∧ ∃ budget, Budget.make limits.yaml = .ok budget ∧
      (parseDocuments charged budget snapshot.files).2 ≠ []

/-- A result that holds no package and a diagnostic. -/
def Reported {P : Type} (outcome : Except Escape (PackageCompileResult P)) : Prop :=
  ∃ result, outcome = .ok result ∧ result.package = none ∧ result.diagnostics ≠ []

-- ---------------------------------------------------------------------------
-- Diagnostics
-- ---------------------------------------------------------------------------

section Reporting

variable {P : Type}

theorem recordOf_plainCall (code : PackageDiagnosticCode) (phase : PackageDiagnosticPhase)
    (mark : SourceMark) :
    (PackageDiagnosticSink.recordOf (plainCall code phase mark)).isSome =
      safeCoordinate mark.coordinate := by
  have hsafe (fields : DiagnosticFields) :
      (PackageDiagnostic.new fields).isSome = fields.isSafe := by
    unfold PackageDiagnostic.new
    split
    · rename_i h
      rw [h]
      rfl
    · rename_i h
      rw [Bool.eq_false_of_not_eq_true h]
      rfl
  rw [PackageDiagnosticSink.recordOf, hsafe]
  simp [DiagnosticFields.isSafe, plainCall, safeField]

/-- The mark of a source failure is as safe as the path it names. -/
theorem safe_sourceFailureMark (path : Bytes) :
    safeCoordinate (sourceFailureMark path).coordinate = safeRelativeFile path := by
  unfold sourceFailureMark
  split
  · rename_i hpath
    rw [List.isEmpty_iff.mp hpath]
    decide
  · rename_i hpath
    have hname := Bool.eq_false_of_not_eq_true hpath
    simp only [safeCoordinate, SourceMark.coordinate, hname]
    cases safeRelativeFile path <;> decide

theorem finish_ne_nil {sink : PackageDiagnosticSink} (h : sink.empty = false) :
    sink.finish ≠ [] := by
  intro hnil
  have hnone (diagnostic : PackageDiagnostic) : diagnostic ∉ sink.finish := by
    rw [hnil]
    exact List.not_mem_nil
  simp only [PackageDiagnosticSink.mem_finish, not_or, not_and] at hnone
  rw [PackageDiagnosticSink.empty, Bool.and_eq_false_iff, Bool.not_eq_false'] at h
  rcases h with hkept | hflag
  · cases hlist : sink.diagnostics with
    | nil =>
      rw [hlist] at hkept
      cases hkept
    | cons diagnostic rest => exact (hnone diagnostic).1 (by rw [hlist]; exact List.mem_cons_self)
  · exact (hnone PackageDiagnosticSink.exhausted).2 hflag rfl

/-- Calls that all have a record, or that there is no room for, leave something to list. -/
theorem addAll_reports {sink : PackageDiagnosticSink} {calls : List AddCall} (hcalls : calls ≠ [])
    (hsafe : ∀ call ∈ calls.take sink.room, (PackageDiagnosticSink.recordOf call).isSome = true) :
    ∃ sink', sink.addAll calls = some sink' ∧ sink'.empty = false := by
  have hrecords := PackageDiagnosticSink.mapM_recordOf.mpr ⟨hsafe, rfl⟩
  refine ⟨_, by rw [PackageDiagnosticSink.addAll_eq, hrecords]; rfl, ?_⟩
  rw [PackageDiagnosticSink.empty, Bool.and_eq_false_iff, Bool.not_eq_false']
  match calls, hcalls with
  | call :: rest, _ =>
    rcases Nat.eq_zero_or_pos sink.room with hroom | hroom
    · right
      simp [PackageDiagnosticSink.extend, hroom]
    · left
      obtain ⟨room, hroom⟩ : ∃ room, sink.room = room + 1 := ⟨sink.room - 1, by omega⟩
      rw [hroom, List.take_succ_cons] at hsafe
      obtain ⟨record, hrecord⟩ := Option.isSome_iff_exists.mp (hsafe call List.mem_cons_self)
      rw [hroom, List.take_succ_cons, List.filterMap_cons_some hrecord]
      simp [PackageDiagnosticSink.extend]

theorem reported_failed {diagnostics : List PackageDiagnostic} (h : diagnostics ≠ []) :
    Reported (failed diagnostics : Except Escape (PackageCompileResult P)) := by
  have hempty : diagnostics.isEmpty = false := by
    rw [List.isEmpty_eq_false_iff]
    exact h
  exact ⟨⟨none, diagnostics, hempty.symm⟩, dif_pos hempty, rfl, h⟩

/-- One call is reported where it has a record, or where the limit leaves no room for it. -/
theorem reported_report_iff {call : AddCall} {maximum : UInt64} (hmaximum : maximum ≠ 0) :
    Reported (report [call] maximum : Except Escape (PackageCompileResult P)) ↔
      maximum = 1 ∨ (PackageDiagnosticSink.recordOf call).isSome = true := by
  have hpos : maximum.toNat ≠ 0 := fun h => hmaximum (UInt64.toNat_inj.mp h)
  have hnew : PackageDiagnosticSink.new maximum = some ⟨min maximum.toNat 256, 0, false, []⟩ :=
    if_neg (by omega)
  have hone : maximum = 1 ↔ maximum.toNat = 1 := by
    rw [← UInt64.toNat_inj]
    rfl
  have hroom : (PackageDiagnosticSink.mk (min maximum.toNat 256) 0 false []).room =
      min maximum.toNat 256 - 1 := rfl
  rw [report, hnew, Option.bind_some]
  constructor
  · intro h
    by_cases hlimit : maximum = 1
    · exact .inl hlimit
    · right
      by_contra hnone
      have hrun : (PackageDiagnosticSink.mk (min maximum.toNat 256) 0 false []).addAll [call] =
          none := by
        have hmany : maximum.toNat ≠ 1 := fun h => hlimit (hone.mpr h)
        have hmore : min maximum.toNat 256 - 1 = min maximum.toNat 256 - 2 + 1 := by omega
        rw [PackageDiagnosticSink.addAll_eq, hroom, hmore, List.take_succ_cons, List.mapM_cons,
          Option.not_isSome_iff_eq_none.mp hnone]
        rfl
      rw [hrun] at h
      obtain ⟨result, hresult, -⟩ := h
      cases hresult
  · intro h
    have hsafe : ∀ other ∈ [call].take (PackageDiagnosticSink.mk (min maximum.toNat 256) 0 false
        []).room, (PackageDiagnosticSink.recordOf other).isSome = true := by
      rw [hroom]
      rcases h with hlimit | hrecord
      · rw [hone.mp hlimit]
        exact fun other hother => absurd hother List.not_mem_nil
      · intro other hother
        rw [List.mem_singleton.mp (List.mem_of_mem_take hother)]
        exact hrecord
    obtain ⟨sink, hrun, hlisted⟩ := addAll_reports (List.cons_ne_nil call []) hsafe
    rw [hrun]
    exact reported_failed (finish_ne_nil hlisted)

/-- Every error of the loop over safe files is one a diagnostic may carry. -/
theorem parseDocuments_safe (charged : Budget → Bytes → Nat) {files : List SemanticSourceFile}
    (hfiles : ∀ file ∈ files, safeRelativeFile file.path = true ∧ file.path ≠ [] ∧
      file.bytes.length < 2 ^ 63) (budget : Budget) :
    ∀ e ∈ (parseDocuments charged budget files).2,
      safeCoordinate (syntaxMark e).coordinate = true := by
  induction files generalizing budget with
  | nil => exact fun e he => absurd he List.not_mem_nil
  | cons source rest ih =>
    have hrest := fun file hfile => hfiles file (List.mem_cons_of_mem _ hfile)
    obtain ⟨hpath, hname, hlength⟩ := hfiles source List.mem_cons_self
    unfold parseDocuments
    split
    · exact ih hrest _
    · rename_i error herror
      intro e he
      rcases List.mem_cons.mp he with rfl | he
      · exact parseDocument_throws budget hpath hname hlength _ herror
      · exact ih hrest _ e he

variable (charged : Budget → Bytes → Nat) (schemaVerified : Bool) (later : Later P)

theorem compilePackage_reported {limits : PackageCompilerLimits} {snapshot : PackageSourceSnapshot}
    (hmaximum : limits.maxDiagnostics ≠ 0)
    (hfiles : ∀ file ∈ snapshot.files, safeRelativeFile file.path = true ∧ file.path ≠ [] ∧
      file.bytes.length < 2 ^ 63)
    (hraised : Raised charged schemaVerified limits (.ok snapshot)) :
    Reported (compilePackage charged schemaVerified later limits snapshot) := by
  obtain ⟨hverified, budget, hbudget, herrors⟩ := hraised
  have hpos : limits.maxDiagnostics.toNat ≠ 0 := fun h => hmaximum (UInt64.toNat_inj.mp h)
  have hnew : PackageDiagnosticSink.new limits.maxDiagnostics =
      some ⟨min limits.maxDiagnostics.toNat 256, 0, false, []⟩ := if_neg (by omega)
  have hcalls : (parseDocuments charged budget snapshot.files).2.map syntaxCall ≠ [] := by
    rw [ne_eq, List.map_eq_nil_iff]
    exact herrors
  have hsafe : ∀ call ∈ (parseDocuments charged budget snapshot.files).2.map syntaxCall,
      (PackageDiagnosticSink.recordOf call).isSome = true := by
    intro call hcall
    obtain ⟨e, he, rfl⟩ := List.mem_map.mp hcall
    rw [syntaxCall, recordOf_plainCall]
    exact parseDocuments_safe charged hfiles budget e he
  obtain ⟨sink, hrun, hlisted⟩ := @addAll_reports
    ⟨min limits.maxDiagnostics.toNat 256, 0, false, []⟩ _ hcalls fun call hcall =>
      hsafe call (List.mem_of_mem_take hcall)
  rw [compilePackage, hverified, hnew, hbudget]
  dsimp only
  rw [if_neg (by decide), hrun]
  dsimp only
  rw [hlisted, if_pos (show (!false) = true from rfl)]
  exact reported_failed (finish_ne_nil hlisted)

/-- A run is reported unless it stops at an entry whose path no diagnostic carries. -/
theorem compileAcquired_reported_iff {limits : PackageCompilerLimits} {host : PackageSourceLimits}
    {opened : Except PackageSourceError Unit} {tree : PackageTree}
    (hmaximum : limits.maxDiagnostics ≠ 0) (hopened : Throws (·.path = []) opened) :
    (Raised charged schemaVerified limits (acquire host opened tree) →
        Reported (compileAcquired charged schemaVerified later limits
          (acquire host opened tree))) ↔
      limits.maxDiagnostics = 1 ∨ ¬StopsUnnameable host opened tree := by
  constructor
  · intro h
    by_cases hstop : StopsUnnameable host opened tree
    · obtain ⟨e, hrun, hpath⟩ := acquire_of_stops hstop
      rw [hrun] at h
      rcases (reported_report_iff hmaximum).mp (h trivial) with hone | hrecord
      · exact .inl hone
      · rw [sourceCall, recordOf_plainCall, safe_sourceFailureMark, hpath] at hrecord
        cases hrecord
    · exact .inr hstop
  · intro h hraised
    match hrun : acquire host opened tree with
    | .ok snapshot =>
      rw [hrun] at hraised
      exact compilePackage_reported charged schemaVerified later hmaximum (acquired_files hrun)
        hraised
    | .error (.source e) =>
      refine (reported_report_iff hmaximum).mpr ?_
      rcases h with hone | hstop
      · exact .inl hone
      · right
        rw [sourceCall, recordOf_plainCall, safe_sourceFailureMark]
        exact (acquire_source_error hopened hrun).resolve_right hstop
    | .error (.yaml e) =>
      refine (reported_report_iff hmaximum).mpr (.inr ?_)
      rw [syntaxCall, recordOf_plainCall]
      exact acquire_yaml_error hopened hrun
    | .error .invalidArgument =>
      rw [hrun] at hraised
      exact absurd hraised id

end Reporting

/-- Every failure of acquisition and of the parser comes back as diagnostics, exactly when
acquisition does not stop at a directory entry whose path no diagnostic may carry. A limit of a
single diagnostic never builds the record. -/
theorem failures_reported_iff {P : Type} (charged : Budget → Bytes → Nat) (schemaVerified : Bool) (later : Later P)
    (tree : PackageTree) :
    (∀ root opened answers sourceLimits limits, limits.maxDiagnostics ≠ 0 →
      ((Raised charged schemaVerified limits
            (acquire sourceLimits (openAbsoluteRoot root opened answers) tree) →
          Reported (compileLocalPackageRoot charged schemaVerified later tree root opened answers
            sourceLimits limits)) ↔
        limits.maxDiagnostics = 1 ∨
          ¬StopsUnnameable sourceLimits (openAbsoluteRoot root opened answers) tree)) ∧
    ∀ active duplicated,
      ((active = true ∧ Raised charged schemaVerified .v1
            (acquire .v1 (duplicateRoot duplicated) tree) →
          Reported (recompileLocalPackage charged schemaVerified later tree active duplicated)) ↔
        active = false ∨ ¬StopsUnnameable .v1 (duplicateRoot duplicated) tree) := by
  constructor
  · intro root opened answers sourceLimits limits hmaximum
    exact compileAcquired_reported_iff charged schemaVerified later hmaximum
      (openAbsoluteRoot_throws root opened answers)
  · intro active duplicated
    cases active with
    | false => exact ⟨fun _ => .inl rfl, fun _ h => absurd h.1 Bool.false_ne_true⟩
    | true =>
      have h := @compileAcquired_reported_iff P charged schemaVerified later .v1 .v1
        (duplicateRoot duplicated) tree (by decide) (duplicateRoot_throws duplicated)
      constructor
      · intro hreported
        rcases h.mp fun hraised => hreported ⟨rfl, hraised⟩ with hone | hstop
        · exact absurd hone (by decide)
        · exact .inr hstop
      · rintro (hinactive | hstop) ⟨-, hraised⟩
        · cases hinactive
        · exact h.mpr (.inr hstop) hraised

/-- The root directory as a package with one entry, which is gone when it is looked at. -/
def packageWith (name : Bytes) : PackageTree :=
  let directory : FileIdentity := ⟨1, 1, 0o040755, 2, 0, 0, 0, 0, 0⟩
  let listing : Listing := ⟨some directory, true, [⟨name, none⟩], true, some directory⟩
  let leaf : LeafReading := ⟨false, none, [], none⟩
  { relationsStatus := some directory
    relationsOpened := true
    relationsIdentity := some directory
    rootBefore := listing
    relationsBefore := listing
    manifest := leaf
    relation := fun _ => leaf
    rootAfter := listing
    relationsAfter := listing }

def acquireWith (name : Bytes) : Except Failure PackageSourceSnapshot :=
  acquire .v1 (openAbsoluteRoot (ascii "/") true fun _ => ⟨none, none⟩) (packageWith name)

def compileWith (name : Bytes) : Except Escape (PackageCompileResult Unit) :=
  compileLocalPackageRoot (fun _ _ => 0) true (fun _ _ _ => .error .later) (packageWith name)
    (ascii "/") true (fun _ => ⟨none, none⟩) .v1 .v1

theorem failures_reported_readme : Reported (compileWith (ascii "readme")) := by
  have hrun : acquireWith (ascii "readme") =
      .error (.source ⟨.identityChanged, ascii "readme"⟩) := rfl
  refine ((failures_reported_iff (fun _ _ => 0) true _ _).1 _ _ _ _ _ (by decide)).mpr (.inr ?_) ?_
  · intro hstop
    obtain ⟨e, he, hpath⟩ := acquire_of_stops hstop
    obtain rfl := Failure.source.inj (Except.error.inj (hrun.symm.trans he))
    exact absurd hpath (by decide)
  · show Raised (fun _ _ => 0) true .v1 (acquireWith (ascii "readme"))
    rw [hrun]
    trivial

/-- An entry with a backslash in its name is an error of acquisition that escapes as
`std::invalid_argument`. -/
theorem backslash_escapes :
    acquireWith [0x61, 0x5C, 0x62] = .error (.source ⟨.invalidPath, [0x61, 0x5C, 0x62]⟩) ∧
      compileWith [0x61, 0x5C, 0x62] = .error .invalidArgument ∧
      ¬Reported (compileWith [0x61, 0x5C, 0x62]) :=
  ⟨rfl, rfl, fun ⟨_, hresult, _⟩ => nomatch hresult⟩

end Cuac.Connector.PackageSource

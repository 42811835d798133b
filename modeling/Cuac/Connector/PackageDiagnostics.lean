import Cuac.Lib.Comparison
import Cuac.Lib.Grammar

/-!
# Connector — package diagnostics

The stable record of a compiler diagnostic, the order diagnostics are listed in,
and the sink that collects them up to a budget.

Main results:

* `lawfulEqCmp_compareDiagnostics` — the order tells all records apart.
* `addAll_eq` — which calls leave their record, and which only the flag.
* `diagnostics_canonical` — the list of a sink, for every order of its calls.
-/

namespace Cuac.Connector.Diagnostics

open Std
open Cuac.Lib

-- ---------------------------------------------------------------------------
-- Stable fields
-- ---------------------------------------------------------------------------

inductive PackageDiagnosticCode
  | unsupportedSpec
  | unsupportedDialect
  | malformedYaml
  | unknownField
  | missingField
  | duplicateId
  | invalidReference
  | invalidIdentifier
  | invalidType
  | invalidExtractor
  | reservedInput
  | unsupportedDeclaration
  | invalidSelector
  | invalidPredicate
  | invalidGraphqlProfile
  | policyWidening
  | resourceExhausted
  | packageIdentity
  | fixtureMismatch
  deriving DecidableEq, Repr

inductive PackageDiagnosticPhase
  | source
  | syntaxPhase
  | schema
  | reference
  | compile
  | fixture
  deriving DecidableEq, Repr

def packageDiagnosticCodeName : PackageDiagnosticCode → Bytes
  | .unsupportedSpec => ascii "CUAC_UNSUPPORTED_SPEC"
  | .unsupportedDialect => ascii "CUAC_UNSUPPORTED_DIALECT"
  | .malformedYaml => ascii "CUAC_MALFORMED_YAML"
  | .unknownField => ascii "CUAC_UNKNOWN_FIELD"
  | .missingField => ascii "CUAC_MISSING_FIELD"
  | .duplicateId => ascii "CUAC_DUPLICATE_ID"
  | .invalidReference => ascii "CUAC_INVALID_REFERENCE"
  | .invalidIdentifier => ascii "CUAC_INVALID_IDENTIFIER"
  | .invalidType => ascii "CUAC_INVALID_TYPE"
  | .invalidExtractor => ascii "CUAC_INVALID_EXTRACTOR"
  | .reservedInput => ascii "CUAC_RESERVED_INPUT"
  | .unsupportedDeclaration => ascii "CUAC_UNSUPPORTED_DECLARATION"
  | .invalidSelector => ascii "CUAC_INVALID_SELECTOR"
  | .invalidPredicate => ascii "CUAC_INVALID_PREDICATE"
  | .invalidGraphqlProfile => ascii "CUAC_INVALID_GRAPHQL_PROFILE"
  | .policyWidening => ascii "CUAC_POLICY_WIDENING"
  | .resourceExhausted => ascii "CUAC_RESOURCE_EXHAUSTED"
  | .packageIdentity => ascii "CUAC_PACKAGE_IDENTITY"
  | .fixtureMismatch => ascii "CUAC_FIXTURE_MISMATCH"

structure PackageSourceCoordinate where
  file : Bytes
  line : UInt64
  column : UInt64
  yamlPath : Bytes
  deriving DecidableEq, Repr

def safeField (value : Bytes) : Bool :=
  match value with
  | [] => true
  | first :: rest =>
    value.length ≤ 63 && byte 'a' ≤ first && first ≤ byte 'z' &&
      rest.all fun b => (byte 'a' ≤ b && b ≤ byte 'z') || (byte '0' ≤ b && b ≤ byte '9') ||
        b == byte '_'

def safeRelativeFile (value : Bytes) : Bool :=
  value.isEmpty ||
    (!(value.head? == some (byte '/') || (cut (ascii "..") value).isSome ||
        (cut [0x5C] value).isSome) &&
      value.all fun b => !(b < 0x20 || b == 0x7F))

def safeCoordinate (coordinate : PackageSourceCoordinate) : Bool :=
  safeRelativeFile coordinate.file &&
    ((coordinate.file.isEmpty && coordinate.line == 0 && coordinate.column == 0) ||
      (!coordinate.file.isEmpty && ((coordinate.line == 0 && coordinate.column == 0) ||
        (coordinate.line != 0 && coordinate.column != 0)))) &&
    (coordinate.yamlPath.isEmpty || coordinate.yamlPath.head? == some (byte '$'))

structure DiagnosticFields where
  code : PackageDiagnosticCode
  phase : PackageDiagnosticPhase
  coordinate : PackageSourceCoordinate
  connector : Bytes
  relation : Bytes
  operation : Bytes
  related : Option PackageSourceCoordinate
  fixtureCase : Bytes
  deriving DecidableEq, Repr

def DiagnosticFields.isSafe (fields : DiagnosticFields) : Bool :=
  safeCoordinate fields.coordinate && safeField fields.connector && safeField fields.relation &&
    safeField fields.operation && safeField fields.fixtureCase &&
    fields.related.all safeCoordinate

/-- A record that passed its constructor. -/
structure PackageDiagnostic where
  fields : DiagnosticFields
  safe : fields.isSafe = true
  deriving DecidableEq

/-- The constructor; `none` where it throws. -/
def PackageDiagnostic.new (fields : DiagnosticFields) : Option PackageDiagnostic :=
  if h : fields.isSafe = true then some ⟨fields, h⟩ else none

-- ---------------------------------------------------------------------------
-- The order
-- ---------------------------------------------------------------------------

/-- `std::string::compare` -/
def compareString : Bytes → Bytes → Ordering := List.compareLex
  (comparing UInt8.toNat compareUnsigned)

def compareOptionalString : Bytes → Bytes → Ordering := lastly List.isEmpty compareString

def compareLocation (left right : PackageSourceCoordinate) (includeYamlPath : Bool) : Ordering :=
  (compareOptionalString left.file right.file).then
    ((compareUnsigned left.line.toNat right.line.toNat).then
      ((compareUnsigned left.column.toNat right.column.toNat).then
        (if includeYamlPath then compareOptionalString left.yamlPath right.yamlPath else .eq)))

/-- No related coordinate comes last. -/
def compareRelated : Option PackageSourceCoordinate → Option PackageSourceCoordinate → Ordering :=
  noneLast fun left right => compareLocation left right true

def compareDiagnosticFields (left right : DiagnosticFields) : Ordering :=
  (compareUnsigned left.phase.ctorIdx right.phase.ctorIdx).then
    ((compareLocation left.coordinate right.coordinate false).then
      ((compareString (packageDiagnosticCodeName left.code)
          (packageDiagnosticCodeName right.code)).then
        ((compareOptionalString left.coordinate.yamlPath right.coordinate.yamlPath).then
          ((compareOptionalString left.connector right.connector).then
            ((compareOptionalString left.relation right.relation).then
              ((compareOptionalString left.operation right.operation).then
                ((compareOptionalString left.fixtureCase right.fixtureCase).then
                  (compareRelated left.related right.related))))))))

def compareDiagnostics (left right : PackageDiagnostic) : Ordering :=
  compareDiagnosticFields left.fields right.fields

instance transCmp_compareString : TransCmp compareString :=
  inferInstanceAs (TransCmp (List.compareLex (comparing UInt8.toNat compareUnsigned)))

instance lawfulEqCmp_compareString : LawfulEqCmp compareString := by
  have hbyte : LawfulEqCmp (comparing UInt8.toNat compareUnsigned) :=
    lawfulEqCmp_comparing fun a b h => UInt8.toNat_inj.mp h
  exact inferInstanceAs (LawfulEqCmp (List.compareLex (comparing UInt8.toNat compareUnsigned)))

instance transCmp_compareOptionalString : TransCmp compareOptionalString :=
  inferInstanceAs (TransCmp (lastly List.isEmpty compareString))

instance lawfulEqCmp_compareOptionalString : LawfulEqCmp compareOptionalString :=
  inferInstanceAs (LawfulEqCmp (lastly List.isEmpty compareString))

/-- A location is compared key by key. -/
theorem compareLocation_eq (includeYamlPath : Bool) :
    (fun left right => compareLocation left right includeYamlPath) =
      compareLex (comparing PackageSourceCoordinate.file compareOptionalString)
        (compareLex (comparing (fun c => c.line.toNat) compareUnsigned)
          (compareLex (comparing (fun c => c.column.toNat) compareUnsigned)
            (comparing (fun c => if includeYamlPath then c.yamlPath else []) compareOptionalString)))
      := by
  funext left right
  cases includeYamlPath <;> rfl

instance transCmp_compareLocation (includeYamlPath : Bool) :
    TransCmp fun left right => compareLocation left right includeYamlPath := by
  rw [compareLocation_eq]
  infer_instance

theorem compareLocation_eq_eq {left right : PackageSourceCoordinate} {includeYamlPath : Bool} :
    compareLocation left right includeYamlPath = .eq ↔
      left.file = right.file ∧ left.line = right.line ∧ left.column = right.column ∧
        (includeYamlPath = true → left.yamlPath = right.yamlPath) := by
  have hpath : (if includeYamlPath then compareOptionalString left.yamlPath right.yamlPath
      else .eq) = .eq ↔ (includeYamlPath = true → left.yamlPath = right.yamlPath) := by
    cases includeYamlPath <;> simp
  rw [compareLocation, Ordering.then_eq_eq, Ordering.then_eq_eq, Ordering.then_eq_eq, hpath,
    LawfulEqCmp.compare_eq_iff_eq, LawfulEqCmp.compare_eq_iff_eq, LawfulEqCmp.compare_eq_iff_eq,
    UInt64.toNat_inj, UInt64.toNat_inj]

instance lawfulEqCmp_compareLocation :
    LawfulEqCmp fun left right => compareLocation left right true where
  compare_self := compareLocation_eq_eq.mpr ⟨rfl, rfl, rfl, fun _ => rfl⟩
  eq_of_compare {left right} h := by
    obtain ⟨hfile, hline, hcolumn, hpath⟩ := compareLocation_eq_eq.mp h
    cases left
    cases right
    simp only [PackageSourceCoordinate.mk.injEq]
    exact ⟨hfile, hline, hcolumn, hpath rfl⟩

instance transCmp_compareRelated : TransCmp compareRelated :=
  inferInstanceAs (TransCmp (noneLast fun left right => compareLocation left right true))

instance lawfulEqCmp_compareRelated : LawfulEqCmp compareRelated :=
  inferInstanceAs (LawfulEqCmp (noneLast fun left right => compareLocation left right true))

theorem compareDiagnosticFields_eq :
    compareDiagnosticFields =
      compareLex (comparing (fun d => d.phase.ctorIdx) compareUnsigned)
        (compareLex (comparing DiagnosticFields.coordinate
            fun left right => compareLocation left right false)
          (compareLex (comparing (fun d => packageDiagnosticCodeName d.code) compareString)
            (compareLex (comparing (fun d => d.coordinate.yamlPath) compareOptionalString)
              (compareLex (comparing DiagnosticFields.connector compareOptionalString)
                (compareLex (comparing DiagnosticFields.relation compareOptionalString)
                  (compareLex (comparing DiagnosticFields.operation compareOptionalString)
                    (compareLex (comparing DiagnosticFields.fixtureCase compareOptionalString)
                      (comparing DiagnosticFields.related compareRelated)))))))) := rfl

instance transCmp_compareDiagnosticFields : TransCmp compareDiagnosticFields := by
  rw [compareDiagnosticFields_eq]
  infer_instance

/-- Codes are told apart by their names. -/
theorem codeName_injective {code other : PackageDiagnosticCode}
    (h : packageDiagnosticCodeName code = packageDiagnosticCodeName other) : code = other := by
  revert h
  cases code <;> cases other <;> decide

theorem phase_injective {phase other : PackageDiagnosticPhase}
    (h : phase.ctorIdx = other.ctorIdx) : phase = other := by
  revert h
  cases phase <;> cases other <;> decide

instance lawfulEqCmp_compareDiagnosticFields : LawfulEqCmp compareDiagnosticFields where
  compare_self := ReflCmp.compare_self
  eq_of_compare {left right} h := by
    simp only [compareDiagnosticFields, Ordering.then_eq_eq, LawfulEqCmp.compare_eq_iff_eq,
      compareLocation_eq_eq] at h
    obtain ⟨hphase, ⟨hfile, hline, hcolumn, -⟩, hcode, hpath, hconnector, hrelation, hoperation,
      hcase, hrelated⟩ := h
    obtain ⟨code, phase, ⟨file, line, column, yamlPath⟩, connector, relation, operation, related,
      fixtureCase⟩ := left
    simp only at hphase hfile hline hcolumn hcode hpath hconnector hrelation hoperation hcase hrelated
    obtain rfl := phase_injective hphase
    obtain rfl := codeName_injective hcode
    subst hfile hline hcolumn hpath hconnector hrelation hoperation hcase hrelated
    rfl

instance transCmp_compareDiagnostics : TransCmp compareDiagnostics :=
  inferInstanceAs (TransCmp (comparing PackageDiagnostic.fields compareDiagnosticFields))

theorem PackageDiagnostic.ext_fields {left right : PackageDiagnostic}
    (h : left.fields = right.fields) : left = right := by
  cases left
  cases right
  subst h
  rfl

instance lawfulEqCmp_compareDiagnostics : LawfulEqCmp compareDiagnostics :=
  lawfulEqCmp_comparing fun _ _ h => PackageDiagnostic.ext_fields h

-- ---------------------------------------------------------------------------
-- The sink
-- ---------------------------------------------------------------------------

structure SourceMark where
  file : Bytes
  line : UInt64
  column : UInt64
  yamlPath : Bytes
  deriving DecidableEq, Repr

def SourceMark.coordinate (mark : SourceMark) : PackageSourceCoordinate :=
  ⟨mark.file, mark.line, mark.column, mark.yamlPath⟩

structure PackageDiagnosticSink where
  maximum : Nat
  revision : UInt64
  overflowed : Bool
  diagnostics : List PackageDiagnostic

/-- What a call of `Add` is given. -/
structure AddCall where
  code : PackageDiagnosticCode
  phase : PackageDiagnosticPhase
  mark : SourceMark
  connector : Bytes
  relation : Bytes
  operation : Bytes
  relatedMark : Option SourceMark

namespace PackageDiagnosticSink

/-- The constructor; `none` where it throws. -/
def new (maximum : UInt64) : Option PackageDiagnosticSink :=
  if min maximum.toNat 256 = 0 then none else some ⟨min maximum.toNat 256, 0, false, []⟩

/-- The record of a call; `none` where its constructor throws. -/
def recordOf (call : AddCall) : Option PackageDiagnostic :=
  PackageDiagnostic.new
    { code := call.code
      phase := call.phase
      coordinate := call.mark.coordinate
      connector := if safeField call.connector then call.connector else []
      relation := if safeField call.relation then call.relation else []
      operation := if safeField call.operation then call.operation else []
      related := call.relatedMark.map SourceMark.coordinate
      fixtureCase := [] }

/-- `Add`; `none` where it throws. -/
def add (sink : PackageDiagnosticSink) (call : AddCall) : Option PackageDiagnosticSink :=
  if sink.diagnostics.length ≥ sink.maximum - 1 then
    some { sink with revision := sink.revision + 1, overflowed := true }
  else
    (recordOf call).map fun diagnostic =>
      { sink with
        revision := sink.revision + 1
        diagnostics := sink.diagnostics ++ [diagnostic] }

def empty (sink : PackageDiagnosticSink) : Bool := sink.diagnostics.isEmpty && !sink.overflowed

/-- What stands for the calls that were dropped. -/
def exhausted : PackageDiagnostic where
  fields :=
    { code := .resourceExhausted
      phase := .compile
      coordinate := ⟨ascii "connector.yaml", 1, 1, ascii "$"⟩
      connector := []
      relation := []
      operation := []
      related := none
      fixtureCase := [] }
  safe := by decide +kernel

def finish (sink : PackageDiagnosticSink) : List PackageDiagnostic :=
  sortUnique compareDiagnostics
    (if sink.overflowed then sink.diagnostics ++ [exhausted] else sink.diagnostics)

/-- Calls one after the other. -/
def addAll (sink : PackageDiagnosticSink) (calls : List AddCall) : Option PackageDiagnosticSink :=
  calls.foldlM add sink

-- ---------------------------------------------------------------------------
-- What a run of calls leaves
-- ---------------------------------------------------------------------------

/-- The records still taken; one place is kept for `exhausted`. -/
def room (sink : PackageDiagnosticSink) : Nat := sink.maximum - 1 - sink.diagnostics.length

/-- The sink after calls that left these records. -/
def extend (sink : PackageDiagnosticSink) (calls : List AddCall)
    (records : List PackageDiagnostic) : PackageDiagnosticSink where
  maximum := sink.maximum
  revision := sink.revision + UInt64.ofNat calls.length
  overflowed := sink.overflowed || decide (sink.room < calls.length)
  diagnostics := sink.diagnostics ++ records

theorem add_full {sink : PackageDiagnosticSink} (call : AddCall) (h : sink.room = 0) :
    sink.add call = some (sink.extend [call] []) := by
  rw [room] at h
  rw [add, if_pos (by omega)]
  simp [extend, room, h]

theorem add_room {sink : PackageDiagnosticSink} (call : AddCall) (h : 0 < sink.room) :
    sink.add call = (recordOf call).map fun record => sink.extend [call] [record] := by
  have hroom : ¬sink.room < 1 := by omega
  rw [room] at h
  rw [add, if_neg (by omega)]
  simp [extend, hroom]

theorem room_extend (sink : PackageDiagnosticSink) (calls : List AddCall)
    (records : List PackageDiagnostic) :
    (sink.extend calls records).room = sink.room - records.length := by
  simp only [room, extend, List.length_append]
  omega

theorem extend_extend (sink : PackageDiagnosticSink) (call : AddCall) (calls : List AddCall)
    (records more : List PackageDiagnostic) (h : records.length = min 1 sink.room) :
    (sink.extend [call] records).extend calls more =
      sink.extend (call :: calls) (records ++ more) := by
  have hrevision : sink.revision + UInt64.ofNat 1 + UInt64.ofNat calls.length =
      sink.revision + UInt64.ofNat (calls.length + 1) := by
    rw [UInt64.ofNat_add, UInt64.add_assoc, UInt64.add_comm (UInt64.ofNat 1)]
  have hroom := room_extend sink [call] records
  have hflag : (decide (sink.room < 1) || decide ((sink.extend [call] records).room < calls.length))
      = decide (sink.room < calls.length + 1) := by
    rw [hroom, ← Bool.decide_or, decide_eq_decide]
    omega
  have hover : (sink.overflowed || decide (sink.room < 1) ||
      decide ((sink.extend [call] records).room < calls.length)) =
      (sink.overflowed || decide (sink.room < calls.length + 1)) := by
    rw [Bool.or_assoc, hflag]
  exact PackageDiagnosticSink.mk.injEq .. ▸ ⟨rfl, hrevision, hover, List.append_assoc ..⟩

theorem extend_nil (sink : PackageDiagnosticSink) : sink.extend [] [] = sink := by
  obtain ⟨maximum, revision, overflowed, diagnostics⟩ := sink
  simp [extend]

/-- The calls there is room for leave their records; the others only the flag. -/
theorem addAll_eq (sink : PackageDiagnosticSink) (calls : List AddCall) :
    sink.addAll calls = ((calls.take sink.room).mapM recordOf).map (sink.extend calls) := by
  induction calls generalizing sink with
  | nil =>
    rw [List.take_nil, List.mapM_nil]
    exact congrArg some (extend_nil sink).symm
  | cons call calls ih =>
    have hstep : sink.addAll (call :: calls) = sink.add call >>= fun next => next.addAll calls :=
      List.foldlM_cons ..
    rcases Nat.eq_zero_or_pos sink.room with hroom | hroom
    · have hnext := room_extend sink [call] []
      rw [hroom, Nat.zero_sub] at hnext
      rw [hstep, add_full call hroom, Option.bind_eq_bind, Option.bind_some, ih, hnext, hroom,
        List.take_zero, List.take_zero, List.mapM_nil]
      have h := extend_extend sink call calls [] [] (by rw [hroom]; rfl)
      exact congrArg some h
    · obtain ⟨n, hn⟩ : ∃ n, sink.room = n + 1 := ⟨sink.room - 1, by omega⟩
      rw [hstep, add_room call hroom, hn, List.take_succ_cons, List.mapM_cons]
      match recordOf call with
      | none => rfl
      | some record =>
        have hnext := room_extend sink [call] [record]
        rw [hn, List.length_singleton, Nat.add_sub_cancel] at hnext
        have hextend : (fun more => sink.extend (call :: calls) (record :: more)) =
            (sink.extend [call] [record]).extend calls := by
          funext more
          exact (extend_extend sink call calls [record] more (by
            rw [hn, List.length_singleton]; omega)).symm
        simp only [Option.map_some, Option.bind_eq_bind, Option.bind_some, ih, hnext]
        rw [← hextend]
        cases (calls.take n).mapM recordOf <;> rfl

/-- Calls come through where each has a record. -/
theorem mapM_recordOf {calls : List AddCall} {records : List PackageDiagnostic} :
    calls.mapM recordOf = some records ↔
      (∀ call ∈ calls, (recordOf call).isSome = true) ∧ calls.filterMap recordOf = records := by
  induction calls generalizing records with
  | nil => simp
  | cons call calls ih =>
    rw [List.mapM_cons, List.forall_mem_cons]
    match hcall : recordOf call with
    | none => simp
    | some record =>
      have htail : (calls.mapM recordOf >>= fun more => some (record :: more)) = some records ↔
          ∃ more, calls.mapM recordOf = some more ∧ record :: more = records := by
        rw [Option.bind_eq_bind, Option.bind_eq_some_iff]
        simp
      rw [List.filterMap_cons_some hcall]
      refine htail.trans ⟨?_, ?_⟩
      · rintro ⟨more, hmore, rfl⟩
        obtain ⟨hall, rfl⟩ := ih.mp hmore
        exact ⟨⟨rfl, hall⟩, rfl⟩
      · rintro ⟨⟨-, hall⟩, rfl⟩
        exact ⟨calls.filterMap recordOf, ih.mpr ⟨hall, rfl⟩, rfl⟩

/-- A sink that was just made. -/
theorem new_eq {maximum : UInt64} {sink : PackageDiagnosticSink} (h : new maximum = some sink) :
    0 < sink.maximum ∧ sink.maximum = min maximum.toNat 256 ∧ sink.overflowed = false ∧
      sink.diagnostics = [] := by
  unfold new at h
  split at h
  · cases h
  · rename_i hpos
    obtain rfl := Option.some.inj h
    exact ⟨Nat.pos_of_ne_zero hpos, rfl, rfl, rfl⟩

/-- What the calls leave behind in a new sink. -/
theorem addAll_new {maximum : UInt64} {sink sink' : PackageDiagnosticSink} {calls : List AddCall}
    (hnew : new maximum = some sink) (h : sink.addAll calls = some sink') :
    (∀ call ∈ calls.take sink.room, (recordOf call).isSome = true) ∧
      sink'.diagnostics = (calls.take sink.room).filterMap recordOf ∧
      (sink'.overflowed = true ↔ sink.room < calls.length) := by
  obtain ⟨-, -, hflag, hempty⟩ := new_eq hnew
  rw [addAll_eq, Option.map_eq_some_iff] at h
  obtain ⟨records, hrecords, rfl⟩ := h
  obtain ⟨hall, rfl⟩ := mapM_recordOf.mp hrecords
  refine ⟨hall, ?_, ?_⟩
  · rw [extend, hempty, List.nil_append]
  · simp [extend, hflag]

/-- Without an overflow, each call left its record. -/
theorem addAll_kept {maximum : UInt64} {sink sink' : PackageDiagnosticSink} {calls : List AddCall}
    (hnew : new maximum = some sink) (h : sink.addAll calls = some sink')
    (hkept : sink'.overflowed = false) :
    (∀ call ∈ calls, (recordOf call).isSome = true) ∧
      sink'.diagnostics = calls.filterMap recordOf ∧ calls.length ≤ sink.room := by
  obtain ⟨hall, hdiagnostics, hflag⟩ := addAll_new hnew h
  have hlength : calls.length ≤ sink.room := by
    refine Nat.le_of_not_lt fun hlt => ?_
    rw [hflag.mpr hlt] at hkept
    cases hkept
  rw [List.take_of_length_le hlength] at hall hdiagnostics
  exact ⟨hall, hdiagnostics, hlength⟩

/-- Calls that all leave a record leave the same list in every order. -/
theorem finish_perm {maximum : UInt64} {sink sink' : PackageDiagnosticSink}
    {calls others : List AddCall} (hnew : new maximum = some sink)
    (h : sink.addAll calls = some sink') (hkept : sink'.overflowed = false)
    (hperm : calls.Perm others) :
    ∃ other, sink.addAll others = some other ∧ other.overflowed = false ∧
      other.finish = sink'.finish := by
  obtain ⟨hall, hdiagnostics, hlength⟩ := addAll_kept hnew h hkept
  obtain ⟨-, -, hflag, hempty⟩ := new_eq hnew
  rw [hperm.length_eq] at hlength
  have hrun : sink.addAll others = some (sink.extend others (others.filterMap recordOf)) := by
    have hothers : others.mapM recordOf = some (others.filterMap recordOf) :=
      mapM_recordOf.mpr ⟨fun call hcall => hall call (hperm.mem_iff.mpr hcall), rfl⟩
    rw [addAll_eq, List.take_of_length_le hlength, hothers]
    rfl
  have hover : (sink.extend others (others.filterMap recordOf)).overflowed = false := by
    simp [extend, hflag, hlength]
  refine ⟨_, hrun, hover, ?_⟩
  rw [finish, finish, hkept, hover, if_neg Bool.false_ne_true, if_neg Bool.false_ne_true,
    hdiagnostics, extend, hempty, List.nil_append]
  exact sortUnique_perm (hperm.symm.filterMap recordOf)

/-- What the sink lists. -/
theorem mem_finish {sink : PackageDiagnosticSink} {diagnostic : PackageDiagnostic} :
    diagnostic ∈ sink.finish ↔
      diagnostic ∈ sink.diagnostics ∨ (sink.overflowed = true ∧ diagnostic = exhausted) := by
  rw [finish, mem_sortUnique]
  split
  · rename_i hflag
    rw [List.mem_append, List.mem_singleton]
    simp [hflag]
  · rename_i hflag
    simp [hflag]

/-- Each call without an overflow is listed, and nothing else. -/
theorem mem_finish_kept {maximum : UInt64} {sink sink' : PackageDiagnosticSink}
    {calls : List AddCall} (hnew : new maximum = some sink) (h : sink.addAll calls = some sink')
    (hkept : sink'.overflowed = false) (diagnostic : PackageDiagnostic) :
    diagnostic ∈ sink'.finish ↔ ∃ call ∈ calls, recordOf call = some diagnostic := by
  rw [mem_finish, hkept, (addAll_kept hnew h hkept).2.1, List.mem_filterMap]
  simp

/-- The list stays within the limit. -/
theorem length_finish_le {maximum : UInt64} {sink sink' : PackageDiagnosticSink}
    {calls : List AddCall} (hnew : new maximum = some sink) (h : sink.addAll calls = some sink') :
    sink'.finish.length ≤ maximum.toNat := by
  obtain ⟨hpos, hmaximum, -, hempty⟩ := new_eq hnew
  obtain ⟨-, hdiagnostics, -⟩ := addAll_new hnew h
  have hrecords : sink'.diagnostics.length ≤ sink.room := by
    rw [hdiagnostics]
    exact (List.length_filterMap_le recordOf _).trans (List.length_take_le ..)
  rw [room, hempty, List.length_nil] at hrecords
  rw [finish]
  refine (length_sortUnique_le _).trans ?_
  split
  · rw [List.length_append, List.length_singleton]
    omega
  · omega

/-- The flag marks that a call left no record. -/
theorem overflowed_iff {maximum : UInt64} {sink sink' : PackageDiagnosticSink}
    {calls : List AddCall} (hnew : new maximum = some sink) (h : sink.addAll calls = some sink') :
    sink'.overflowed = true ↔ sink'.diagnostics.length < calls.length := by
  obtain ⟨hall, hdiagnostics, hflag⟩ := addAll_new hnew h
  have hlength : sink'.diagnostics.length = (calls.take sink.room).length := by
    rw [hdiagnostics]
    exact List.filterMap_length_eq_length.mpr hall
  rw [hflag, hlength, List.length_take]
  omega

/-- Something is listed where something was added. -/
theorem finish_ne_nil {maximum : UInt64} {sink sink' : PackageDiagnosticSink}
    {calls : List AddCall} (hnew : new maximum = some sink) (h : sink.addAll calls = some sink') :
    sink'.finish ≠ [] ↔ calls ≠ [] := by
  have hflag := overflowed_iff hnew h
  refine ⟨?_, fun hcalls => ?_⟩
  · rintro hfinish rfl
    have hdiagnostics : sink'.diagnostics = [] := (addAll_new hnew h).2.1.trans (by simp)
    rw [hdiagnostics, List.length_nil] at hflag
    refine hfinish (List.eq_nil_iff_forall_not_mem.mpr fun diagnostic hmem => ?_)
    rw [mem_finish, hflag, hdiagnostics] at hmem
    rcases hmem with hmem | ⟨hmem, -⟩
    · exact List.not_mem_nil hmem
    · exact Nat.lt_irrefl _ hmem
  · cases hkept : sink'.overflowed with
    | true => exact List.ne_nil_of_mem (mem_finish.mpr (.inr ⟨hkept, rfl⟩))
    | false =>
      obtain ⟨call, hcall⟩ := List.exists_mem_of_ne_nil calls hcalls
      obtain ⟨record, hrecord⟩ :=
        Option.isSome_iff_exists.mp ((addAll_kept hnew h hkept).1 call hcall)
      exact List.ne_nil_of_mem ((mem_finish_kept hnew h hkept record).mpr ⟨call, hcall, hrecord⟩)

end PackageDiagnosticSink

open PackageDiagnosticSink

/-- Diagnostics are in a strict total order, and calls of a new sink leave one list. -/
theorem diagnostics_canonical {maximum : UInt64} {sink sink' : PackageDiagnosticSink}
    {calls : List AddCall} (hnew : PackageDiagnosticSink.new maximum = some sink)
    (hcalls : sink.addAll calls = some sink') :
    ((∀ left right, compareDiagnostics left right = .eq ↔ left = right) ∧
      (∀ left right, compareDiagnostics left right = .lt ↔
        compareDiagnostics right left = .gt) ∧
      ∀ left middle right, compareDiagnostics left middle = .lt →
        compareDiagnostics middle right = .lt → compareDiagnostics left right = .lt) ∧
    (sink'.overflowed = false →
      (∀ others, calls.Perm others → ∃ other, sink.addAll others = some other ∧
        other.overflowed = false ∧ other.finish = sink'.finish) ∧
      (∀ diagnostic, diagnostic ∈ sink'.finish ↔
        ∃ call ∈ calls, recordOf call = some diagnostic)) ∧
    (sink'.finish.Pairwise fun left right => compareDiagnostics left right = .lt) ∧
    sink'.finish.Nodup ∧
    sink'.finish.length ≤ maximum.toNat ∧
    (sink'.finish ≠ [] ↔ calls ≠ []) ∧
    (sink'.overflowed = true ↔ sink'.diagnostics.length < calls.length) ∧
    (sink'.diagnostics.length < calls.length → exhausted ∈ sink'.finish) := by
  have horder : (∀ left right, compareDiagnostics left right = .eq ↔ left = right) ∧
      (∀ left right, compareDiagnostics left right = .lt ↔
        compareDiagnostics right left = .gt) ∧
      ∀ left middle right, compareDiagnostics left middle = .lt →
        compareDiagnostics middle right = .lt → compareDiagnostics left right = .lt :=
    ⟨fun left right => LawfulEqCmp.compare_eq_iff_eq, fun left right => OrientedCmp.gt_iff_lt.symm,
      fun left middle right => TransCmp.lt_trans⟩
  refine ⟨horder, fun hkept => ⟨fun others hperm => finish_perm hnew hcalls hkept hperm,
    mem_finish_kept hnew hcalls hkept⟩, pairwise_sortUnique _, nodup_sortUnique _,
    length_finish_le hnew hcalls, finish_ne_nil hnew hcalls, overflowed_iff hnew hcalls,
    fun hdropped => ?_⟩
  exact mem_finish.mpr (.inr ⟨(overflowed_iff hnew hcalls).mpr hdropped, rfl⟩)

theorem diagnostics_canonical_repeated :
    ∃ call sink sink', PackageDiagnosticSink.new 4 = some sink ∧
      sink.addAll [call, call] = some sink' ∧ sink'.overflowed = false ∧ sink'.finish ≠ [] ∧
        sink'.finish.Nodup := by
  let call : AddCall :=
    { code := .missingField
      phase := .schema
      mark := ⟨ascii "connector.yaml", 3, 1, ascii "$.version"⟩
      connector := ascii "github"
      relation := []
      operation := []
      relatedMark := none }
  have hrun : ((PackageDiagnosticSink.new 4 >>= fun sink => sink.addAll [call, call]).any
      fun sink => !sink.overflowed) = true := by decide +kernel
  obtain ⟨sink', hcalls, hkept⟩ := (Option.any_eq_true _ _).mp hrun
  obtain ⟨sink, hnew, hcalls⟩ := Option.bind_eq_some_iff.mp hcalls
  have h := diagnostics_canonical hnew hcalls
  exact ⟨call, sink, sink', hnew, hcalls, Bool.not_eq_true' _ ▸ hkept,
    h.2.2.2.2.2.1.mpr (List.cons_ne_nil _ _), h.2.2.2.1⟩

end Cuac.Connector.Diagnostics

import Cuac.Connector.Catalog
import Cuac.Query.ScanRequest

/-!
# Relation inputs

Resolution of a relation's declared inputs against the arguments of one scan,
before any operation is chosen. Omission, an explicit NULL and a value stay
three states, and a value remembers whether the scan supplied it or the package
did.

Main results:

* `resolveRelationInputs_eq_ok` — every declared input is resolved, in order.
* `find_resolveRelationInputs` — a lookup finds the resolution of the declared
  input of that name.
-/

namespace Cuac.Semantics

open Cuac.Lib Cuac.Connector Cuac.Query

/-- Whether an input was left open, set to NULL, or given a value. -/
inductive ResolvedInputState
  | unbound
  | boundNull
  | boundValue (value : Scalar)
  deriving DecidableEq

def ResolvedInputState.value? : ResolvedInputState → Option Scalar
  | boundValue value => some value
  | _ => none

/-- Where the value of an input comes from. -/
inductive ResolvedInputSource
  | none
  | explicit
  | defaultValue
  deriving DecidableEq, Repr

/-- A declared input with what the request or its default says of it. -/
structure ResolvedRelationInput where
  name : Bytes
  type : ScalarKind
  state : ResolvedInputState
  source : ResolvedInputSource
  typed : ∀ v ∈ state.value?, v.kind = type

/-- The inputs of a relation, in the order of their declaration. -/
abbrev ResolvedRelationInputs := List ResolvedRelationInput

/-- The input of the given name. -/
def ResolvedRelationInputs.find (inputs : ResolvedRelationInputs) (exactIdentifier : Bytes) :
    Option ResolvedRelationInput :=
  List.find? (fun input => input.name == exactIdentifier) inputs

/-- `Unbound` -/
def unboundInput (input : CompiledRelationInput) : ResolvedRelationInput :=
  ⟨input.name, input.type, .unbound, .none, fun _ hv => nomatch hv⟩

/-- `Null` -/
def nullInput (input : CompiledRelationInput) (source : ResolvedInputSource) :
    ResolvedRelationInput :=
  ⟨input.name, input.type, .boundNull, source, fun _ hv => nomatch hv⟩

/-- `ExplicitValue`, and the last part of `DefaultValue`. -/
def valueInput (input : CompiledRelationInput) (source : ResolvedInputSource) (value : Scalar)
    (typed : value.kind = input.type) : ResolvedRelationInput :=
  ⟨input.name, input.type, .boundValue value, source, fun v hv => by
    obtain rfl := Option.some.inj hv
    exact typed⟩

/-- An input that the request leaves open takes its default. -/
def resolveDefault (input : CompiledRelationInput) (default : CompiledScalarValue) :
    Except Fault ResolvedRelationInput :=
  if htype : default.type = input.type then
    match hvalue : default.value with
    | none => do
      throwIf (!input.nullable)
        (invalidContract "compiled relation input has a non-nullable NULL default")
      pure (nullInput input .defaultValue)
    | some value =>
      pure (valueInput input .defaultValue value ((default.typed value hvalue).trans htype))
  else
    .error (invalidContract "compiled relation input default disagrees with its declared type")

/-- An input takes what the request says, which must be of its type. -/
def resolveExplicit (input : CompiledRelationInput) (explicit : ExplicitInput) :
    Except Fault ResolvedRelationInput :=
  if htype : explicit.kind = input.type then
    match hvalue : explicit.value with
    | none => do
      throwIf (!input.nullable)
        (invalidContract "non-nullable relation input received explicit NULL")
      pure (nullInput input .explicit)
    | some value =>
      pure (valueInput input .explicit value ((explicit.typed value hvalue).trans htype))
  else
    .error (invalidContract "explicit relation input kind disagrees with its compiled declaration")

/-- One turn of the loop over the declared inputs. -/
def resolveInput (explicitInputs : List ExplicitInput) (input : CompiledRelationInput) :
    Except Fault ResolvedRelationInput :=
  match explicitInputs.find? fun explicit => explicit.identifier == input.name with
  | some explicit => resolveExplicit input explicit
  | none =>
    match input.default with
    | some default => resolveDefault input default
    | none => pure (unboundInput input)

/-- The loop that fills `declared`. -/
def validateDeclaredInputs (declared : List Bytes) : List CompiledRelationInput → Except Fault Unit
  | [] => pure ()
  | input :: rest => do
    throwIf (declared.contains input.name)
      (invalidContract "compiled relation contains a duplicate input identifier")
    validateDeclaredInputs (input.name :: declared) rest

/-- The loop that fills `supplied`. -/
def validateSuppliedInputs (declared supplied : List Bytes) :
    List ExplicitInput → Except Fault Unit
  | [] => pure ()
  | explicit :: rest => do
    throwIf (supplied.contains explicit.identifier)
      (invalidContract "scan request contains a duplicate explicit input identifier")
    throwIf (!declared.contains explicit.identifier)
      (invalidContract "scan request contains an unknown explicit input identifier")
    validateSuppliedInputs declared (explicit.identifier :: supplied) rest

/-- All inputs of the relation, each resolved on its own. -/
def resolveRelationInputs (relation : CompiledRelation) (explicitInputs : List ExplicitInput) :
    Except Fault ResolvedRelationInputs := do
  validateDeclaredInputs [] relation.inputs
  validateSuppliedInputs (relation.inputs.map (·.name)) [] explicitInputs
  forEach (resolveInput explicitInputs) relation.inputs

-- ---------------------------------------------------------------------------
-- What resolution returns
-- ---------------------------------------------------------------------------

section Resolved

variable {relation : CompiledRelation} {explicitInputs : List ExplicitInput}
variable {input : CompiledRelationInput} {resolved : ResolvedRelationInput}

theorem resolveDefault_name {default : CompiledScalarValue}
    (h : resolveDefault input default = .ok resolved) : resolved.name = input.name := by
  unfold resolveDefault at h
  split at h
  · split at h
    · obtain ⟨_, _, h⟩ := bind_eq_ok.mp h
      obtain rfl := pure_eq_ok.mp h
      rfl
    · obtain rfl := pure_eq_ok.mp h
      rfl
  · cases h

theorem resolveExplicit_name {explicit : ExplicitInput}
    (h : resolveExplicit input explicit = .ok resolved) : resolved.name = input.name := by
  unfold resolveExplicit at h
  split at h
  · split at h
    · obtain ⟨_, _, h⟩ := bind_eq_ok.mp h
      obtain rfl := pure_eq_ok.mp h
      rfl
    · obtain rfl := pure_eq_ok.mp h
      rfl
  · cases h

/-- A resolved input keeps its name. -/
theorem resolveInput_name (h : resolveInput explicitInputs input = .ok resolved) :
    resolved.name = input.name := by
  unfold resolveInput at h
  split at h
  · exact resolveExplicit_name h
  · split at h
    · exact resolveDefault_name h
    · obtain rfl := pure_eq_ok.mp h
      rfl

/-- The resolved inputs stand in the order of the declared ones. -/
theorem resolveRelationInputs_eq_ok {inputs : ResolvedRelationInputs}
    (h : resolveRelationInputs relation explicitInputs = .ok inputs) :
    List.Forall₂ (fun input resolved => resolveInput explicitInputs input = .ok resolved)
      relation.inputs inputs := by
  obtain ⟨_, -, h⟩ := bind_eq_ok.mp h
  obtain ⟨_, -, h⟩ := bind_eq_ok.mp h
  exact forEach_eq_ok.mp h

/-- A resolved input is the resolution of the first declaration of its name. -/
theorem find_of_forall₂ {declared : List CompiledRelationInput} {inputs : ResolvedRelationInputs}
    (h : List.Forall₂ (fun input resolved => resolveInput explicitInputs input = .ok resolved)
      declared inputs) (id : Bytes) :
    (inputs.find id = none ∧ declared.find? (fun input => input.name == id) = none) ∨
      ∃ input resolved, declared.find? (fun input => input.name == id) = some input ∧
        inputs.find id = some resolved ∧ resolveInput explicitInputs input = .ok resolved := by
  induction h with
  | nil => exact Or.inl ⟨rfl, rfl⟩
  | @cons input resolved declared inputs hone _ ih =>
    have hname := resolveInput_name hone
    unfold ResolvedRelationInputs.find at ih ⊢
    simp only [List.find?_cons, hname]
    cases input.name == id with
    | true => exact Or.inr ⟨input, resolved, rfl, rfl, hone⟩
    | false => exact ih

/-- A resolved input that is found belongs to a declared one of that name. -/
theorem find_resolveRelationInputs {inputs : ResolvedRelationInputs} {id : Bytes}
    (h : resolveRelationInputs relation explicitInputs = .ok inputs)
    (hfind : inputs.find id = some resolved) :
    ∃ input, relation.inputs.find? (fun input => input.name == id) = some input ∧
      resolveInput explicitInputs input = .ok resolved := by
  rcases find_of_forall₂ (resolveRelationInputs_eq_ok h) id with
    ⟨hnone, -⟩ | ⟨input, other, hinput, hother, hone⟩
  · rw [hnone] at hfind
    cases hfind
  · obtain rfl := Option.some.inj (hother.symm.trans hfind)
    exact ⟨input, hinput, hone⟩

end Resolved

end Cuac.Semantics

import SpecGate.DecodedValues
import SpecGate.DiscoveredSchemas
import SpecGate.StepwiseStates

/-!
How stored values are bound to the types of a reference registry. An operation of the
registry is compared with the operation that a candidate declares; what is compared leaves
nodes in a table, which say how a value stored by the candidate is turned into a value of the
registry. A pair of types is bound once for each operation, so recursive types share a node.
-/
namespace SpecGate.StorageBindings

open StepwiseStates RegistryModel SortedAssoc DiscoveredSchemas
open ReplayModel (ReplayType RegistryOp Outcome)
open DiscoveredRegistries (Registry)
open DecodedValues (typeRef)
open TypeExpressions (CharClasses)

/-! ### Comparing types -/

mutual

def sameType : TypeRef → TypeRef → Bool
  | .primitive name, .primitive other => name == other
  | .named name component registry, .named other component' registry' =>
      name == other && component == component' && registry == registry'
  | .collection items ordered unique, .collection others ordered' unique' =>
      sameType items others && ordered == ordered' && unique == unique'
  | .map keys values ordered, .map keys' values' ordered' =>
      sameType keys keys' && sameType values values' && ordered == ordered'
  | .tuple items, .tuple others => sameTypes items others
  | .record fields, .record others => sameFields fields others
  | .optional value, .optional other => sameType value other
  | .taggedUnion variants, .taggedUnion others => sameVariants variants others
  | _, _ => false
termination_by structural type => type

def sameTypes : List TypeRef → List TypeRef → Bool
  | [], [] => true
  | type :: rest, other :: others => sameType type other && sameTypes rest others
  | _, _ => false
termination_by structural types => types

def sameFields : List NamedValue → List NamedValue → Bool
  | [], [] => true
  | (name, type) :: rest, (otherName, other) :: others =>
      name == otherName && sameType type other && sameFields rest others
  | _, _ => false
termination_by structural fields => fields

def samePayload : Option TypeRef → Option TypeRef → Bool
  | none, none => true
  | some payload, some other => sameType payload other
  | _, _ => false
termination_by structural payload => payload

def sameVariants : List Variant → List Variant → Bool
  | [], [] => true
  | (name, payload) :: rest, (otherName, other) :: others =>
      name == otherName && samePayload payload other && sameVariants rest others
  | _, _ => false
termination_by structural variants => variants

end

mutual

theorem sameType_iff : ∀ type other : TypeRef, sameType type other = true ↔ type = other
  | .primitive _, other => by cases other <;> simp [sameType]
  | .named _ _ _, other => by cases other <;> simp [sameType, and_assoc]
  | .collection items _ _, other => by
      cases other with
      | collection others => simp [sameType, sameType_iff items others, and_assoc]
      | _ => simp [sameType]
  | .map keys values _, other => by
      cases other with
      | map keys' values' =>
        simp [sameType, sameType_iff keys keys', sameType_iff values values', and_assoc]
      | _ => simp [sameType]
  | .tuple items, other => by
      cases other with
      | tuple others => simp [sameType, sameTypes_iff items others]
      | _ => simp [sameType]
  | .record fields, other => by
      cases other with
      | record others => simp [sameType, sameFields_iff fields others]
      | _ => simp [sameType]
  | .optional value, other => by
      cases other with
      | optional value' => simp [sameType, sameType_iff value value']
      | _ => simp [sameType]
  | .taggedUnion variants, other => by
      cases other with
      | taggedUnion others => simp [sameType, sameVariants_iff variants others]
      | _ => simp [sameType]

theorem sameTypes_iff : ∀ types others : List TypeRef, sameTypes types others = true ↔ types = others
  | [], others => by cases others <;> simp [sameTypes]
  | type :: rest, others => by
      cases others with
      | nil => simp [sameTypes]
      | cons other others => simp [sameTypes, sameType_iff type other, sameTypes_iff rest others]

theorem sameFields_iff : ∀ fields others : List NamedValue,
    sameFields fields others = true ↔ fields = others
  | [], others => by cases others <;> simp [sameFields]
  | (_, type) :: rest, others => by
      cases others with
      | nil => simp [sameFields]
      | cons other others =>
        obtain ⟨name, other⟩ := other
        simp [sameFields, sameType_iff type other, sameFields_iff rest others]

theorem samePayload_iff : ∀ payload other : Option TypeRef,
    samePayload payload other = true ↔ payload = other
  | none, other => by cases other <;> simp [samePayload]
  | some payload, other => by
      cases other with
      | none => simp [samePayload]
      | some other => simp [samePayload, sameType_iff payload other]

theorem sameVariants_iff : ∀ variants others : List Variant,
    sameVariants variants others = true ↔ variants = others
  | [], others => by cases others <;> simp [sameVariants]
  | (_, payload) :: rest, others => by
      cases others with
      | nil => simp [sameVariants]
      | cons other others =>
        obtain ⟨name, other⟩ := other
        simp [sameVariants, samePayload_iff payload other, sameVariants_iff rest others]

end

instance typeRefDecidableEq : DecidableEq TypeRef := fun type other =>
  decidable_of_iff _ (sameType_iff type other)

/-! ### The table -/

inductive Node where
  | identity
  | sequence (item : Nat)
  | tuple (items : List Nat)
  | map (keys values : Nat) (pairs compact : Bool)
  | record (fields : List (String × Nat))
  | tagged (variants : List (String × Option Nat))
  | optional (value : Nat)
  deriving DecidableEq

structure Operation where
  component : String
  name : String
  inputs : List (String × Nat)
  result : Option Nat
  errors : List (String × Option Nat)
  deriving DecidableEq

structure Rejection where
  component : String
  name : String
  diagnostic : String
  deriving DecidableEq

structure Bindings where
  nodes : List Node
  operations : List Operation
  rejections : List Rejection
  deriving DecidableEq

/-- The component in which two types are compared, and the types. -/
abbrev Label := String × TypeRef × TypeRef

structure Builder where
  bindings : Bindings
  visited : List (Label × Nat)

/-- How building can stop: with an error, by a panic, or because it went too deep. -/
inductive Stop where
  | error (diagnostic : String)
  | panic (message : String)
  | exhausted

abbrev Building := EStateM Stop Builder

def fail {α : Type} (diagnostic : String) : Building α := throw (.error diagnostic)

/-- A value that is there, or an error. -/
def need {α : Type} (value : Option α) (diagnostic : String) : Building α :=
  match value with
  | some value => pure value
  | none => fail diagnostic

/-! ### Declarations -/

structure DeclaredOperation where
  name : String
  inputs : List NamedValue
  result : Option TypeRef
  errors : List (String × Option TypeRef)

/-- A component of a registry document, as far as bindings read it. -/
structure Declarations where
  id : String
  operations : List DeclaredOperation
  types : List NamedType

/-- A declared type as its document has it; it has no extensions. -/
def declaredType (type : NormalizedSchemas.NamedType) : NamedType :=
  match type.shape with
  | .record fields => .record type.name (fields.map fun field => (field.1, typeRef field.2)) []
  | .taggedUnion variants =>
      .taggedUnion type.name (variants.map fun variant => (variant.1, variant.2.map typeRef)) []

def Declarations.ofComponent (component : NormalizedSchemas.Component) : Declarations where
  id := component.id
  operations := component.operations.map fun operation => {
    name := operation.name
    inputs := operation.inputs.map fun input => (input.1, typeRef input.2)
    result := operation.outcomes.result.map typeRef
    errors := operation.outcomes.errors.map fun error => (error.name, error.valueType.map typeRef) }
  types := component.types.map declaredType

def componentOf (registry : List Declarations) (component : String) : Option Declarations :=
  registry.find? fun entry => entry.id = component

def typeMember (registry : List Declarations) (component name : String) : Option TypeRef :=
  (componentOf registry component).bind fun entry =>
    (entry.types.find? fun type => type.name = name).map NamedType.asType

def operationMember (registry : List Declarations) (component name : String) :
    Option DeclaredOperation :=
  (componentOf registry component).bind fun entry =>
    entry.operations.find? fun operation => operation.name = name

/-! ### Building -/

/-- The parts of a text around its first space. -/
def splitOnce (text : String) : Option (String × String) :=
  match text.toList.span (· ≠ ' ') with
  | (_, []) => none
  | (before, _ :: after) => some (String.ofList before, String.ofList after)

def isPrimitive : TypeRef → Bool
  | .primitive _ => true
  | _ => false

/-- Whether a map with such keys is written as an object. -/
def isCompact (keys : TypeRef) : Bool := keys = .primitive "string"

section Building

variable (display : TypeRef → String) (reference candidate : List Declarations)

def mismatch {α : Type} (expected : TypeRef) (actual : Option TypeRef)
    (component location : String) : Building α :=
  let category := if isPrimitive expected then "type mismatch"
    else "uses unsupported structured replay type mapping"
  let parts := (splitOnce location).getD (location, "value")
  let found := (actual.map display).getD "null"
  fail (s!"candidate operation '{component}::{parts.1}' {parts.2} {category}: expected registry " ++
    s!"type {display expected}, found storage type {found}")

/-- An error about a structured type names the place at which the type was compared. -/
def structured (expected : TypeRef) (component location : String) : Stop → Stop
  | .error diagnostic =>
      if isPrimitive expected then .error diagnostic
      else .error (s!"candidate uses unsupported structured replay type mapping at " ++
        s!"'{component}::{location}': {diagnostic}")
  | stop => stop

/-- A node of its own, before the types behind it are followed. -/
def reserve (label : Label) : Building Nat := fun builder =>
  .ok builder.bindings.nodes.length
    ⟨{ builder.bindings with nodes := builder.bindings.nodes ++ [.identity] },
      (label, builder.bindings.nodes.length) :: builder.visited⟩

def setNode (id : Nat) (node : Node) : Building Unit := modify fun builder =>
  { builder with bindings := { builder.bindings with nodes := builder.bindings.nodes.set id node } }

def pushNode (node : Node) : Building Nat := fun builder =>
  .ok builder.bindings.nodes.length { builder with
    bindings := { builder.bindings with nodes := builder.bindings.nodes ++ [node] } }

mutual

def bind (fuel : Nat) (expected actual : TypeRef) (component location : String) : Building Nat :=
  match fuel with
  | 0 => throw .exhausted
  | fuel + 1 => do
      match (← get).visited.lookup (component, expected, actual) with
      | some id => return id
      | none =>
          let id ← reserve (component, expected, actual)
          let node ← mapError (structured expected component location)
            (shape fuel expected actual component location)
          setNode id node
          return id
termination_by structural fuel

def shape (fuel : Nat) (expected actual : TypeRef) (component location : String) : Building Node :=
  match fuel with
  | 0 => throw .exhausted
  | fuel + 1 =>
      match expected, actual with
      | .primitive name, .primitive other =>
          if name = other then return .identity
          else mismatch display expected actual component location
      | .named name expectedComponent expectedRegistry, .named other actualComponent actualRegistry =>
          let owner := expectedComponent.getD component
          let actualOwner := actualComponent.getD component
          if name ≠ other ∨ owner ≠ actualOwner ∨ expectedRegistry.isSome ∨ actualRegistry.isSome then
            mismatch display expected actual component location
          else do
            let left ← need (typeMember reference owner name)
              s!"reference type '{owner}::{name}' has no linked declaration"
            let right ← need (typeMember candidate actualOwner name)
              s!"candidate type '{actualOwner}::{name}' has no linked declaration"
            shape fuel left right owner s!"{location}.{name}"
      | .record fields, .named name actualComponent none => do
          let owner := actualComponent.getD component
          let declaration ← need (typeMember candidate owner name)
            s!"candidate type '{owner}::{name}' has no linked declaration"
          match declaration with
          | .record _ =>
              if owner = component then
                shape fuel (.record fields) declaration component location
              else mismatch display expected actual component location
          | _ => mismatch display expected actual component location
      | .collection items ordered unique, .collection others ordered' unique' =>
          if (ordered' && !unique') || (!ordered && unique && !ordered' && unique') then do
            let item ← bind fuel items others component s!"{location}[]"
            return .sequence item
          else mismatch display expected actual component location
      | .optional value, .optional other => do
          let value ← bind fuel value other component s!"{location}.Some"
          return .optional value
      | .map keys values ordered, .map keys' values' ordered' =>
          if !ordered && !ordered' then do
            let keyNode ← bind fuel keys keys' component s!"{location}.key"
            let valueNode ← bind fuel values values' component s!"{location}.value"
            return .map keyNode valueNode false (isCompact keys)
          else mismatch display expected actual component location
      | .map keys values ordered, .collection (.tuple [keys', values']) true false => do
          let keyNode ← bind fuel keys keys' component s!"{location}.key"
          let valueNode ← bind fuel values values' component s!"{location}.value"
          return .map keyNode valueNode true (!ordered && isCompact keys)
      | .tuple items, .tuple others =>
          if 2 ≤ items.length ∧ items.length ≤ 4 then tuple fuel items others component location
          else mismatch display expected actual component location
      | .record fields, .record others =>
          if fields.length ≠ others.length then
            mismatch display expected actual component location
          else do
            let entries ← fields.mapM fun field => (do
              match others.lookup field.1 with
              | none => mismatch display expected actual component location
              | some other =>
                  let id ← bind fuel field.2 other component s!"{location}.{field.1}"
                  return (field.1, id))
            return .record (ofList entries)
      | .taggedUnion variants, .taggedUnion others =>
          if variants.length ≠ others.length then
            mismatch display expected actual component location
          else do
            let entries ← variants.mapM fun variant => (do
              match others.lookup variant.1, variant.2 with
              | some none, none => return (variant.1, none)
              | some (some (.tuple rights)), some (.tuple lefts) =>
                  let node ← tuple fuel lefts rights component s!"{location}.{variant.1}"
                  let id ← pushNode node
                  return (variant.1, some id)
              | some (some other), some payload =>
                  let id ← bind fuel payload other component s!"{location}.{variant.1}"
                  return (variant.1, some id)
              | _, _ => mismatch display expected actual component location)
            return .tagged (ofList entries)
      | _, _ => mismatch display expected actual component location
termination_by structural fuel

def tuple (fuel : Nat) (items others : List TypeRef) (component location : String) :
    Building Node :=
  match fuel with
  | 0 => throw .exhausted
  | fuel + 1 =>
      if items.length ≠ others.length then
        mismatch display (.tuple items) (some (.tuple others)) component location
      else do
        let ids ← ((items.zip others).zipIdx).mapM fun entry =>
          bind fuel entry.1.1 entry.1.2 component s!"{location}[{entry.2}]"
        return .tuple ids
termination_by structural fuel

end

/-- The node of a channel; a type that the candidate does not have matches none. -/
def bindChannel (fuel : Nat) (expected : ReplayType) (actual : Option TypeRef)
    (component location : String) : Building Nat :=
  match actual with
  | some actual => bind display reference candidate fuel (typeRef expected) actual component location
  | none => do
      let _ ← pushNode .identity
      mapError (structured (typeRef expected) component location)
        (mismatch display (typeRef expected) none component location)

end Building

/-! ### Linked operations -/

def quoted (names : List String) : String := toString (names.map String.quote)

def validateInputs (operation : RegistryOp) (declared : SchemaOperation) : Except String Unit :=
  let expected := operation.inputs.map Prod.fst
  let actual := declared.inputs.map DiscoveredRegistries.Field.name
  if expected = actual then .ok ()
  else
    let problem := if distinct expected = distinct actual then "input order differs"
      else "input names differ"
    .error (s!"candidate operation '{operation.componentId}::{operation.name}' {problem}: " ++
      s!"expected {quoted expected}, found {quoted actual}")

def outcomeText (outcomes : List (String × Bool)) : String :=
  toString (outcomes.map fun outcome => s!"({outcome.1.quote}, {outcome.2})")

def validateOutput (operation : RegistryOp) (declared : SchemaOperation) : Except String Unit := do
  let name := s!"candidate operation '{operation.componentId}::{operation.name}'"
  if declared.output.isSome ≠ operation.output.isSome then
    .error s!"{name} output type mismatch: result channels differ"
  if declared.empty ≠ operation.empty then
    .error (s!"{name} empty outcome mismatch: expected {operation.empty}, " ++
      s!"found {declared.empty}")
  let expected := operation.errors.map fun error => (error.name, error.valueType.isSome)
  -- Discovery gives every declared error a type, the unit type among them.
  let actual := declared.errors.map fun error => (error.name, true)
  if actual ≠ expected then
    .error (s!"{name} declared errors mismatch: expected {outcomeText expected}, " ++
      s!"found {outcomeText actual}")

def lift {α : Type} (checked : Except String α) : Building α :=
  match checked with
  | .ok value => pure value
  | .error diagnostic => fail diagnostic

section Operations

variable (display : TypeRef → String) (reference candidate : List Declarations)

/-- Bind the channels of an operation. -/
def boundOperation (fuel : Nat) (operation : RegistryOp) (schema : Schema) :
    Building Operation := do
  let component := operation.componentId
  let name := operation.name
  let found ← need (operationMember candidate component name)
    s!"candidate is missing operation '{component}::{name}'"
  let normalized ← (match schema.operations.find? fun declared => declared.name = name with
    | some normalized => pure normalized
    | none => throw (.panic "encoded candidate operation has a normalized declaration"))
  lift (validateInputs operation normalized)
  lift (validateOutput operation normalized)
  let inputs ← operation.inputs.mapM fun input => (do
    let native ← need (found.inputs.lookup input.1)
      s!"candidate operation '{component}::{name}' input names differ"
    let id ← bindChannel display reference candidate fuel input.2 (some native) component
      s!"{name} input '{input.1}'"
    return (input.1, id))
  let result ← (match operation.output with
    | none => pure none
    | some type => some <$> bindChannel display reference candidate fuel type found.result component
        s!"{name} output")
  let errors ← operation.errors.mapM fun error => (do
    let native ← need (found.errors.lookup error.name)
      s!"candidate operation '{component}::{name}' declared errors mismatch"
    match error.valueType with
    | none => return (error.name, none)
    | some type =>
        let id ← bindChannel display reference candidate fuel type native component
          s!"{name} error '{error.name}'"
        return (error.name, some id))
  return ⟨component, name, ofList inputs, result, ofList errors⟩

def operation (fuel : Nat) (operation : RegistryOp) (schema : Schema) : Building Unit := do
  let bound ← boundOperation display reference candidate fuel operation schema
  modify fun builder => { builder with bindings := { builder.bindings with
    operations := builder.bindings.operations ++ [bound] } }

end Operations

/-! ### How deep building goes -/

mutual

/-- A type and everything inside it. -/
def parts : TypeRef → List TypeRef
  | .primitive name => [.primitive name]
  | .named name component registry => [.named name component registry]
  | .collection items ordered unique => .collection items ordered unique :: parts items
  | .map keys values ordered => .map keys values ordered :: (parts keys ++ parts values)
  | .tuple items => .tuple items :: partsAll items
  | .record fields => .record fields :: fieldParts fields
  | .optional value => .optional value :: parts value
  | .taggedUnion variants => .taggedUnion variants :: variantParts variants
termination_by structural type => type

def partsAll : List TypeRef → List TypeRef
  | [] => []
  | type :: rest => parts type ++ partsAll rest
termination_by structural types => types

def fieldParts : List NamedValue → List TypeRef
  | [] => []
  | (_, type) :: rest => parts type ++ fieldParts rest
termination_by structural fields => fields

def payloadParts : Option TypeRef → List TypeRef
  | none => []
  | some payload => parts payload
termination_by structural payload => payload

def variantParts : List Variant → List TypeRef
  | [] => []
  | (_, payload) :: rest => payloadParts payload ++ variantParts rest
termination_by structural variants => variants

end

def DeclaredOperation.channels (operation : DeclaredOperation) : List TypeRef :=
  operation.inputs.map Prod.snd ++ operation.result.toList ++
    operation.errors.filterMap Prod.snd

/-- The types of the channels of a replayed operation. -/
def channels (operation : RegistryOp) : List TypeRef :=
  (operation.inputs.map Prod.snd ++ operation.output.toList ++
    operation.errors.filterMap Outcome.valueType).map typeRef

def declaredTypes (registry : List Declarations) : List TypeRef :=
  registry.flatMap fun entry => entry.types.map NamedType.asType

def components (reference : List Declarations) (operation : RegistryOp) : List String :=
  operation.componentId :: reference.map Declarations.id

def expectedTypes (reference : List Declarations) (operation : RegistryOp) : List TypeRef :=
  (channels operation ++ declaredTypes reference).flatMap parts

def actualTypes (candidate : List Declarations) : List TypeRef :=
  (candidate.flatMap (fun entry => entry.operations.flatMap DeclaredOperation.channels) ++
    declaredTypes candidate).flatMap parts

/-- The labels that binding an operation can come across. -/
def labels (reference candidate : List Declarations) (operation : RegistryOp) : List Label :=
  (components reference operation).product
    ((expectedTypes reference operation).product (actualTypes candidate))

/-- Between two labels that are visited there are four calls at most. -/
def depth (reference candidate : List Declarations) (operation : RegistryOp) : Nat :=
  4 * (labels reference candidate operation).length + 1

/-! ### Whole registries -/

/-- What a candidate declares: the schema of the replayed component, those of other components
that were asked for, and the metadata that they come from. -/
structure Candidate where
  schema : Schema
  schemas : List (String × Schema)
  registry : Registry
  language : Language

def Candidate.schemaFor (candidate : Candidate) (component : String) : Option Schema :=
  if candidate.schema.component = component then some candidate.schema
  else lookup candidate.schemas component

def declares (candidate : Candidate) (component name : String) : Bool :=
  match candidate.schemaFor component with
  | some schema => schema.operations.any fun operation => operation.name = name
  | none => candidate.registry.ops.any fun operation =>
      !operation.isSetup && operation.component = component && operation.name = name

def maxI32 : Nat := 2147483647

/-- The components of a schema as its registry document lists them. -/
def encodedDeclarations (classes : CharClasses) (schema : Schema) :
    Except String (List Declarations) := do
  let wire ← (match schema.wire with
    | some wire => .ok wire
    | none => .error "failed to normalize candidate declarations: unknown type kind")
  let components ← (match NormalizedSchemas.appendComponents classes wire with
    | .ok components => .ok (Sorting.sortBy NormalizedSchemas.Component.id components)
    | .error error => .error s!"failed to normalize candidate declarations: {error}")
  if maxI32 < (components.map fun component => component.operations.length).sum then
    .error "failed to normalize candidate declarations: operation count exceeds i32"
  if maxI32 < (components.map fun component => component.types.length).sum then
    .error "failed to normalize candidate declarations: type count exceeds i32"
  return components.map Declarations.ofComponent

def candidateRegistry (classes : CharClasses) (candidate : Candidate) (component : String) :
    Except String (Schema × List Declarations) := do
  let schema ← (match candidate.schemaFor component with
    | some schema => .ok schema
    | none =>
        match normalizeRegistry classes candidate.registry candidate.language component with
        | .ok schema => .ok schema
        | .error error =>
            .error s!"failed to normalize candidate component '{component}': {error}")
  let actual ← encodedDeclarations classes schema
  return (schema, actual)

def reject (bindings : Bindings) (component name diagnostic : String) : Bindings :=
  { bindings with rejections := bindings.rejections ++ [⟨component, name, diagnostic⟩] }

section Whole

variable (classes : CharClasses) (display : TypeRef → String) (reference : List Declarations)
  (candidate : Candidate)

/-- Group the operations of the registry that the candidate declares by their components. An
operation is required if it is linked or was observed. -/
def groupOperation (linked observed : List (String × String))
    (components : List (String × List (RegistryOp × Bool))) (operation : RegistryOp) :
    Except Stop (List (String × List (RegistryOp × Bool))) :=
  let key := (operation.componentId, operation.name)
  if declares candidate operation.componentId operation.name then
    .ok (SortedAssoc.insert operation.componentId
      ((lookup components operation.componentId).getD [] ++
        [(operation, linked.contains key || observed.contains key)]) components)
  else if linked.contains key then
    .error (.error s!"candidate is missing operation '{operation.componentId}::{operation.name}'")
  else .ok components

/-- Bind one operation. An operation that is not required leaves no nodes when it fails. -/
def bindOperation (schema : Schema) (actual : List Declarations) (bindings : Bindings)
    (entry : RegistryOp × Bool) : Except Stop Bindings :=
  let (op, required) := entry
  match operation display reference actual (depth reference actual op) op schema ⟨bindings, []⟩ with
  | .ok _ builder => .ok builder.bindings
  | .error (.error diagnostic) builder =>
      if required then .error (.error diagnostic)
      else .ok (reject
        { builder.bindings with nodes := builder.bindings.nodes.take bindings.nodes.length }
        op.componentId op.name diagnostic)
  | .error stop _ => .error stop

def bindComponent (bindings : Bindings) (entry : String × List (RegistryOp × Bool)) :
    Except Stop Bindings :=
  match candidateRegistry classes candidate entry.1 with
  | .ok (schema, actual) =>
      entry.2.foldlM (bindOperation display reference schema actual) bindings
  | .error diagnostic =>
      if entry.2.any Prod.snd then .error (.error diagnostic)
      else .ok (entry.2.foldl (fun bindings entry' =>
        reject bindings entry.1 entry'.1.name diagnostic) bindings)

def build (registry : List RegistryOp) (linked observed : List (String × String)) :
    Except Stop Bindings := do
  let components ← registry.foldlM (groupOperation candidate linked observed) []
  components.foldlM (bindComponent classes display reference candidate) ⟨[], [], []⟩

end Whole

end SpecGate.StorageBindings

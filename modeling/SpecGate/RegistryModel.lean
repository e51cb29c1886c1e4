import SpecGate.SortedAssoc

/-!
Registry documents and the loaded set of linked components.
Descriptions are read by no check and are left out; of an extension object only
its member names are checked, so those are what the model keeps.
-/
namespace SpecGate.RegistryModel

/-- A recursive CTSC type before named-type linkage. A named value pairs a name
with its type; a variant has an optional payload. -/
inductive TypeRef where
  | primitive (name : String)
  | named (name : String) (componentId registryId : Option String)
  | collection (items : TypeRef) (ordered unique : Bool)
  | map (keys values : TypeRef) (ordered : Bool)
  | tuple (items : List TypeRef)
  | record (fields : List (String × TypeRef))
  | optional (value : TypeRef)
  | taggedUnion (variants : List (String × Option TypeRef))

abbrev NamedValue := String × TypeRef

abbrev Variant := String × Option TypeRef

inductive NamedType where
  | record (name : String) (fields : List NamedValue) (extensions : List String)
  | taggedUnion (name : String) (variants : List Variant) (extensions : List String)

namespace NamedType

def name : NamedType → String
  | .record name _ _ => name
  | .taggedUnion name _ _ => name

def asType : NamedType → TypeRef
  | .record _ fields _ => .record fields
  | .taggedUnion _ variants _ => .taggedUnion variants

end NamedType

structure ErrorOutcome where
  name : String
  valueType : Option TypeRef

structure RegistryOutcomes where
  result : Option TypeRef
  empty : Bool
  errors : List ErrorOutcome

structure RegistryOperation where
  name : String
  inputs : List NamedValue
  observations : List NamedValue
  outcomes : RegistryOutcomes
  extensions : List String

structure ComponentRef where
  componentId : String
  registryId : Option String

structure RegistryComponent where
  id : String
  dependencies : List ComponentRef
  operations : List RegistryOperation
  types : List NamedType
  extensions : List String

structure RegistryImport where
  registryId : String
  version : String
  digest : String
  uri : Option String
  deriving DecidableEq

structure RegistryDocument where
  format : String
  formatVersion : String
  registryId : String
  version : String
  imports : List RegistryImport
  components : List RegistryComponent
  extensions : List String

/-- A linked component with the registry that owns its named types. -/
structure ResolvedComponent where
  registryId : String
  component : RegistryComponent

/-- The root registry and its imports, indexed by component identity. -/
structure RegistrySet where
  rootId : String
  rootVersion : String
  rootDigest : String
  components : List (String × ResolvedComponent)

/-- `Part p t`: `p` is an immediate constituent of `t`. -/
inductive Part : TypeRef → TypeRef → Prop
  | items (items : TypeRef) (ordered unique : Bool) : Part items (.collection items ordered unique)
  | keys (keys values : TypeRef) (ordered : Bool) : Part keys (.map keys values ordered)
  | values (keys values : TypeRef) (ordered : Bool) : Part values (.map keys values ordered)
  | item {item : TypeRef} {items : List TypeRef} (h : item ∈ items) : Part item (.tuple items)
  | field {field : NamedValue} {fields : List NamedValue} (h : field ∈ fields) :
      Part field.2 (.record fields)
  | value (value : TypeRef) : Part value (.optional value)
  | payload {name : String} {payload : TypeRef} {variants : List Variant}
      (h : (name, some payload) ∈ variants) : Part payload (.taggedUnion variants)

/-- `Within p t`: `p` is `t` or one of its constituents at any depth. -/
def Within : TypeRef → TypeRef → Prop := Relation.ReflTransGen Part

theorem Part.sizeOf_lt {p t : TypeRef} (h : Part p t) : sizeOf p < sizeOf t := by
  cases h with
  | items => simp only [TypeRef.collection.sizeOf_spec]; omega
  | keys => simp only [TypeRef.map.sizeOf_spec]; omega
  | values => simp only [TypeRef.map.sizeOf_spec]; omega
  | item h =>
    have := List.sizeOf_lt_of_mem h
    simp only [TypeRef.tuple.sizeOf_spec]
    omega
  | @field field fields h =>
    have := List.sizeOf_lt_of_mem h
    obtain ⟨name, type⟩ := field
    simp only [TypeRef.record.sizeOf_spec, Prod.mk.sizeOf_spec] at this ⊢
    omega
  | value => simp only [TypeRef.optional.sizeOf_spec]; omega
  | payload h =>
    have := List.sizeOf_lt_of_mem h
    simp only [TypeRef.taggedUnion.sizeOf_spec, Prod.mk.sizeOf_spec,
      Option.some.sizeOf_spec] at this ⊢
    omega

/-- Induction on a type from its constituents. -/
theorem TypeRef.part_induction {motive : TypeRef → Prop}
    (step : ∀ t, (∀ p, Part p t → motive p) → motive t) (t : TypeRef) : motive t := by
  have hsize : ∀ n t, sizeOf t < n → motive t := by
    intro n
    induction n with
    | zero => intro t ht; omega
    | succ n ih => exact fun t ht => step t fun p hp => ih p (by have := hp.sizeOf_lt; omega)
  exact hsize _ t (Nat.lt_succ_self _)

/-- The types written at a channel of a component, or defined by it. -/
inductive Channel (component : RegistryComponent) : TypeRef → Prop
  | input {operation : RegistryOperation} {value : NamedValue}
      (hoperation : operation ∈ component.operations) (hvalue : value ∈ operation.inputs) :
      Channel component value.2
  | observation {operation : RegistryOperation} {value : NamedValue}
      (hoperation : operation ∈ component.operations) (hvalue : value ∈ operation.observations) :
      Channel component value.2
  | result {operation : RegistryOperation} {type : TypeRef}
      (hoperation : operation ∈ component.operations)
      (hresult : operation.outcomes.result = some type) : Channel component type
  | error {operation : RegistryOperation} {outcome : ErrorOutcome} {type : TypeRef}
      (hoperation : operation ∈ component.operations) (houtcome : outcome ∈ operation.outcomes.errors)
      (htype : outcome.valueType = some type) : Channel component type
  | definition {definition : NamedType} (hdefinition : definition ∈ component.types) :
      Channel component definition.asType

/-- The types of a component: those at its channels and everything inside them. -/
def Declares (component : RegistryComponent) (type : TypeRef) : Prop :=
  ∃ root, Channel component root ∧ Within type root

theorem Channel.declares {component : RegistryComponent} {type : TypeRef}
    (h : Channel component type) : Declares component type :=
  ⟨type, h, Relation.ReflTransGen.refl⟩

theorem Declares.part {component : RegistryComponent} {type part : TypeRef}
    (h : Declares component type) (hpart : Part part type) : Declares component part := by
  obtain ⟨root, hroot, hwithin⟩ := h
  exact ⟨root, hroot, Relation.ReflTransGen.head hpart hwithin⟩

/-- A named reference written in `current` denotes `definition` of `target`: an omitted
component is the own component and an omitted registry the own registry. -/
structure Denotes (set : RegistrySet) (current : ResolvedComponent) (name : String)
    (componentId registryId : Option String) (target : ResolvedComponent)
    (definition : NamedType) : Prop where
  member : SortedAssoc.lookup set.components (componentId.getD current.component.id) = some target
  registry : target.registryId = registryId.getD current.registryId
  component : target.component.id = componentId.getD current.component.id
  defined : definition ∈ target.component.types
  named : definition.name = name

end SpecGate.RegistryModel

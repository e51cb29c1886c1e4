import SpecGate.Checked
import SpecGate.RegistryShape
import SpecGate.Sorting
import SpecGate.TypeExpressions

/-!
Normalized discovery schemas and the registry components they stand for. Names, dependencies
and cycles are checked first; then every operation and type is converted, the schema's own
component before those it depends on.
-/
namespace SpecGate.NormalizedSchemas

open ReplayModel TypeExpressions SortedAssoc Sorting Checked

/-! ### Schemas -/

structure Input where
  name : String
  ty : String
  deriving DecidableEq

structure ErrorDeclaration where
  name : String
  ty : String

structure Setup where
  fills : String
  inputs : List Input
  output : String
  deriving DecidableEq

structure SchemaOperation where
  name : String
  inputs : List Input
  output : String
  empty : Bool
  errors : List ErrorDeclaration
  setups : List Setup

inductive TypeKind where
  | struct
  | enum
  deriving DecidableEq

structure SchemaVariant where
  name : String
  fields : List Input
  tuple : Option (List String)

structure SchemaType where
  name : String
  kind : TypeKind
  fields : List Input
  variants : List SchemaVariant

structure DependencyTypes where
  component : String
  dependencies : List String
  types : List SchemaType

structure Schema where
  component : String
  dependencies : List String
  dependencyTypes : List DependencyTypes
  operations : List SchemaOperation
  types : List SchemaType

/-! ### Registry components -/

structure ErrorOutcome where
  name : String
  valueType : Option ReplayType
  deriving DecidableEq

structure Outcomes where
  result : Option ReplayType
  empty : Bool
  errors : List ErrorOutcome
  deriving DecidableEq

/-- A declared operation; the setups are the content of its extension. -/
structure Operation where
  name : String
  inputs : List RegistryInput
  observations : List RegistryInput
  outcomes : Outcomes
  setups : List Setup
  deriving DecidableEq

inductive TypeShape where
  | record (fields : List RegistryInput)
  | taggedUnion (variants : List (String × Option ReplayType))
  deriving DecidableEq

structure NamedType where
  name : String
  shape : TypeShape
  deriving DecidableEq

structure Component where
  id : String
  dependencies : List String
  operations : List Operation
  types : List NamedType
  deriving DecidableEq

/-! ### Conversion -/

section Conversion

variable (classes : CharClasses) (context : TypeContext)

def normalizedField (field : Input) : Except String RegistryInput := do
  let type ← typeRef classes context field.ty
  return (field.name, type)

/-- The type of an outcome; unit has none. -/
def outcomeType (ty : String) : Except String (Option ReplayType) :=
  if isUnit classes ty then .ok none else (typeRef classes context ty).map some

def errorOutcome (error : ErrorDeclaration) : Except String ErrorOutcome := do
  let valueType ← outcomeType classes context error.ty
  return ⟨error.name, valueType⟩

def SchemaOperation.toCtsc (operation : SchemaOperation) : Except String Operation := do
  let inputs ← mapAll (normalizedField classes context) operation.inputs
  let result ← outcomeType classes context operation.output
  let errors ← mapAll (errorOutcome classes context) operation.errors
  return {
    name := operation.name
    inputs := inputs
    observations := []
    outcomes := ⟨result, operation.empty, errors⟩
    setups := operation.setups }

def SchemaVariant.toCtsc (typeName : String) (variant : SchemaVariant) :
    Except String (String × Option ReplayType) :=
  match variant.tuple with
  | some items =>
      if variant.fields.isEmpty then do
        let types ← mapAll (typeRef classes context) items
        return (variant.name, some (.tuple types))
      else .error (s!"enum type '{typeName}' variant '{variant.name}' must not declare both " ++
        "named and tuple payloads")
  | none =>
      if variant.fields.isEmpty then .ok (variant.name, none)
      else do
        let fields ← mapAll (normalizedField classes context) variant.fields
        return (variant.name, some (.record fields))

def SchemaType.toCtsc (type : SchemaType) : Except String NamedType :=
  match type.kind with
  | .struct =>
      if type.variants.isEmpty then do
        let fields ← mapAll (normalizedField classes context) type.fields
        return ⟨type.name, .record fields⟩
      else .error s!"struct type '{type.name}' must not declare variants"
  | .enum =>
      if !type.fields.isEmpty then .error s!"enum type '{type.name}' must not declare fields"
      else if type.variants.isEmpty then
        .error s!"enum type '{type.name}' must declare at least one variant"
      else do
        let variants ← mapAll (SchemaVariant.toCtsc classes context type.name) type.variants
        return ⟨type.name, .taggedUnion variants⟩

end Conversion

/-! ### Names and dependencies -/

def insertNames (component : String) (types : List SchemaType)
    (typesByComponent : List (String × List String)) :
    Except String (List (String × List String)) :=
  if SortedAssoc.contains typesByComponent component then
    .error s!"normalized schema repeats component type owner '{component}'"
  else if (types.map SchemaType.name).Nodup then
    .ok (SortedAssoc.insert component (types.map SchemaType.name) typesByComponent)
  else .error s!"normalized component '{component}' contains duplicate type names"

def insertDependencyNames (typesByComponent : List (String × List String)) :
    List DependencyTypes → Except String (List (String × List String))
  | [] => .ok typesByComponent
  | dependency :: rest => do
      let extended ← insertNames dependency.component dependency.types typesByComponent
      insertDependencyNames extended rest

/-- The declared dependencies of every component of a schema. -/
def dependencyGraph (schema : Schema) : List (String × List String) :=
  SortedAssoc.insert schema.component schema.dependencies
    (ofList (schema.dependencyTypes.map fun dependency =>
      (dependency.component, dependency.dependencies)))

/-- Search components one after the other, with the finished ones passed on. -/
def visitAll (visit : List String → String → Except String (List String)) :
    List String → List String → Except String (List String)
  | complete, [] => .ok complete
  | complete, dependency :: rest => do
      let complete ← visit complete dependency
      visitAll visit complete rest

/-- Search the dependencies of a component; no component may be entered again before it is
left. The fuel bounds how many are entered at a time. -/
def visitDependency (graph : List (String × List String)) :
    Nat → List String → List String → String → Except String (List String)
  | fuel, visiting, complete, component =>
      if component ∈ complete then .ok complete
      else if component ∈ visiting then
        .error ("component dependency cycle: " ++
          " -> ".intercalate (visiting.dropWhile (· ≠ component) ++ [component]))
      else
        match fuel with
        | 0 => .error "component dependencies are too deep"
        | fuel + 1 => do
            let complete ← visitAll (visitDependency graph fuel (visiting ++ [component])) complete
              ((lookup graph component).getD [])
            return component :: complete

def validateCycles (schema : Schema) : Except String Unit := do
  let graph := dependencyGraph schema
  let complete ← visitDependency graph (graph.length + 1) [] [] schema.component
  let unreachable := (keys graph).filter fun component => component ∉ complete
  if complete.length ≠ graph.length then
    .error ("normalized schema contains unreachable dependency components: " ++
      ", ".intercalate unreachable)

def missingDependency (schema : Schema) : Option (DependencyTypes × String) :=
  let all := schema.component :: schema.dependencyTypes.map DependencyTypes.component
  schema.dependencyTypes.findSome? fun dependency =>
    (dependency.dependencies.find? fun required => required ∉ all).map fun required =>
      (dependency, required)

def checkDependencies (schema : Schema) : Except String Unit := do
  let owners := schema.dependencyTypes.map DependencyTypes.component
  if ¬schema.dependencies.Nodup then
    .error "normalized schema contains duplicate component dependencies"
  else if ¬owners.Nodup then
    .error "normalized schema contains duplicate dependency type components"
  else
    match (keys (ofList (schema.dependencies.map fun name => (name, ())))).find? (· ∉ owners) with
    | some missing =>
        .error s!"normalized schema dependency '{missing}' has no dependency type component"
    | none =>
        match missingDependency schema with
        | some (dependency, missing) =>
            .error (s!"normalized dependency component '{dependency.component}' references " ++
              s!"missing dependency '{missing}'")
        | none => .ok ()

/-! ### Components -/

section Components

variable (classes : CharClasses)

def schemaComponent (typesByComponent : List (String × List String)) (schema : Schema) :
    Except String Component := do
  let context : TypeContext := ⟨schema.component, schema.dependencies, typesByComponent⟩
  let operations ← mapAll (SchemaOperation.toCtsc classes context) schema.operations
  let types ← mapAll (SchemaType.toCtsc classes context) schema.types
  return {
    id := schema.component
    dependencies := schema.dependencies
    operations := sortBy Operation.name operations
    types := sortBy NamedType.name types }

def dependencyComponent (typesByComponent : List (String × List String))
    (dependency : DependencyTypes) : Except String Component := do
  let context : TypeContext := ⟨dependency.component, dependency.dependencies, typesByComponent⟩
  let types ← mapAll (SchemaType.toCtsc classes context) dependency.types
  return {
    id := dependency.component
    dependencies := dependency.dependencies
    operations := []
    types := sortBy NamedType.name types }

/-- The components of one schema. -/
def appendComponents (schema : Schema) : Except String (List Component) := do
  let own ← insertNames schema.component schema.types []
  let typesByComponent ← insertDependencyNames own schema.dependencyTypes
  checkDependencies schema
  validateCycles schema
  let component ← schemaComponent classes typesByComponent schema
  let dependencies ← mapAll (dependencyComponent classes typesByComponent)
    (sortBy DependencyTypes.component schema.dependencyTypes)
  return component :: dependencies

end Components

end SpecGate.NormalizedSchemas

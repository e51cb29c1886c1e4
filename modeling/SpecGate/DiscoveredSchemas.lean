import SpecGate.Collecting
import SpecGate.DependencyGraphs
import SpecGate.DynamicTypes
import SpecGate.OutcomeChannels
import SpecGate.QualifiedNames

/-!
The schema of a discovered component. Its surface is checked first; then the operations are
folded and their types mapped, and the types of the component and of those it depends on follow.
Metadata of Rust sources has Rust types in it, that of C# sources has types already mapped. What
comes out is read by the registry encoder, whose check of the dependencies it always passes.
-/
namespace SpecGate.DiscoveredSchemas

open Checked SortedAssoc Sorting DiscoveredRegistries TypeExpressions FoldedOperations RustTypes
open Collecting OutcomeChannels ComponentClosure QualifiedNames
open Relation (ReflTransGen TransGen)

/-! ### Schemas -/

structure Setup where
  fills : String
  inputs : List Field
  output : String

structure SchemaOperation where
  name : String
  isAsync : Bool
  inputs : List Field
  output : Option String
  empty : Bool
  errors : List NormalizedSchemas.ErrorDeclaration
  setups : List Setup

inductive TypeKind where
  | struct
  | enum
  | other (kind : String)

def TypeKind.parse (kind : String) : TypeKind :=
  if kind = "struct" then .struct else if kind = "enum" then .enum else .other kind

structure TypeDef where
  name : String
  kind : TypeKind
  fields : List Field
  variants : List Variant

structure Dependency where
  component : String
  dependencies : List String
  types : List TypeDef

structure Schema where
  component : String
  dependencies : List String
  dependencyTypes : List Dependency
  operations : List SchemaOperation
  types : List TypeDef

/-! ### The surface -/

section Surface

variable (registry : Registry)

def operationsFor (component : String) : List Operation :=
  sortBy Operation.name (registry.ops.filter fun op => !op.isSetup && op.component == component)

def localTypes (component : String) : List RawType :=
  sortBy RawType.name (registry.types.filter fun ty => ty.component == component)

def orphans (component : String) (declared : List String) : List Operation :=
  registry.ops.filter fun candidate =>
    candidate.isSetup && candidate.component == component && !declared.contains candidate.name

def validateSurface (component : String) : Except String Unit :=
  let operations := operationsFor registry component
  let names := operations.map Operation.name
  match (distinct names).find? fun name => decide (1 < names.count name) with
  | some name => .error (s!"operation '{component}::{name}' is declared {names.count name} times; " ++
      "operation identity must be unique within a component")
  | none =>
      match operations.find? fun op => !op.isPublic with
      | some op => .error (s!"operation '{component}::{op.name}' is declared on private function " ++
          s!"'{op.fnName}'; discovery exposes only public operations")
      | none =>
          match (sortBy (fun op => (op.name, op.fnName)) (orphans registry component names)).head? with
          | some orphan => .error (s!"setup '{orphan.fnName}' for '{component}::{orphan.name}' has " ++
              "no operation to construct; annotate the operation or remove the setup")
          | none => .ok ()

end Surface

/-! ### Building -/

section Build

variable (classes : CharClasses) (registry : Registry)

/-- Map and qualify a type of Rust metadata; the types of C# metadata are mapped already. -/
def mapDependency (typeSyntax : TypeSyntax) (qualifier : Qualifier) (ty : String) :
    Except String String :=
  match typeSyntax with
  | .rust => mapComponent classes qualifier ty
  | .normalized => .ok (qualifier.qualify classes ty)

def mapField (typeSyntax : TypeSyntax) (qualifier : Qualifier) (field : Field) :
    Except String Field := do
  let ty ← mapDependency classes typeSyntax qualifier field.ty
  return ⟨field.name, ty⟩

def mapTuple (typeSyntax : TypeSyntax) (qualifier : Qualifier) :
    Option (List String) → Except String (Option (List String))
  | none => .ok none
  | some items => (mapAll (mapDependency classes typeSyntax qualifier) items).map some

def mapVariant (typeSyntax : TypeSyntax) (qualifier : Qualifier) (variant : Variant) :
    Except String Variant := do
  let fields ← mapAll (mapField classes typeSyntax qualifier) variant.fields
  let tuple ← mapTuple classes typeSyntax qualifier variant.tuple
  return ⟨variant.name, fields, tuple⟩

def TypeDef.build (declaration : TypeDef) : Except String TypeDef :=
  match declaration.kind with
  | .struct =>
      if declaration.variants.isEmpty then .ok declaration
      else .error s!"struct type '{declaration.name}' cannot declare enum variants"
  | .enum =>
      if declaration.fields.isEmpty then .ok declaration
      else .error s!"enum type '{declaration.name}' cannot declare struct fields"
  | .other _ => .ok declaration

/-- A type with its fields as they are read from its declaration. -/
def mapDeclared (typeSyntax : TypeSyntax) (qualifier : Qualifier)
    (fieldType : String → Except String String) (ty : RawType) : Except String TypeDef := do
  let fields ← mapAll (fun field => do
    let sourceType ← fieldType field.ty
    mapField classes typeSyntax qualifier ⟨field.name, sourceType⟩) ty.fields
  let variants ← mapAll (mapVariant classes typeSyntax qualifier) ty.variants
  TypeDef.build ⟨ty.name, TypeKind.parse ty.kind, fields, variants⟩

def dependencyTypes (typeSyntax : TypeSyntax) (root : String)
    (graph : List (String × List String)) : Except String (List Dependency) :=
  mapAll (fun entry => do
    let types ← mapAll (fun ty => mapDeclared classes typeSyntax (.new entry.1 registry)
      (propertyFieldType classes registry ty) ty) (localTypes registry entry.1)
    return ⟨entry.1, entry.2, types⟩) (graph.filter fun entry => entry.1 != root)

def mapSetup (typeSyntax : TypeSyntax) (qualifier : Qualifier) (setup : FoldedSetup) :
    Except String Setup := do
  let inputs ← mapAll (mapField classes typeSyntax qualifier) setup.inputs
  let output ← mapDependency classes typeSyntax qualifier setup.output
  return ⟨setup.fills, inputs, output⟩

def mapOperation (typeSyntax : TypeSyntax) (qualifier : Qualifier) (op : Operation) :
    Except String SchemaOperation := do
  let folded ← foldOperation classes registry op
  let outcome ← operationOutcome classes op.returnType typeSyntax
  let inputs ← mapAll (mapField classes typeSyntax qualifier) folded.inputs
  let setups ← mapAll (mapSetup classes typeSyntax qualifier) folded.setups
  return {
    name := op.name
    isAsync := op.isAsync
    inputs := inputs
    output := outcome.output.map (qualifier.qualify classes)
    empty := outcome.empty
    errors := outcome.errors.map fun error => ⟨error.name, qualifier.qualify classes error.ty⟩
    setups := setups }

/-- The fields of the component's own types are taken from property setups in Rust only. -/
def ownFieldType (typeSyntax : TypeSyntax) (ty : RawType) (sourceType : String) :
    Except String String :=
  match typeSyntax with
  | .rust => propertyFieldType classes registry ty sourceType
  | .normalized => .ok sourceType

def buildFrom (typeSyntax : TypeSyntax) (component : String) : Except String Schema := do
  let graph ← dependencyGraph classes registry component
  let qualifier := Qualifier.new component registry
  let operations ← mapAll (mapOperation classes registry typeSyntax qualifier)
    (operationsFor registry component)
  let types ← mapAll (fun ty =>
    mapDeclared classes typeSyntax qualifier (ownFieldType classes registry typeSyntax ty) ty)
    (localTypes registry component)
  let others ← dependencyTypes classes registry typeSyntax component graph
  return {
    component := component
    dependencies := (lookup graph component).getD []
    dependencyTypes := others
    operations := operations
    types := types }

/-- Every Rust type can be read. -/
def validateSyntax : Except String Unit := do
  registry.ops.forM fun op => do
    let _ ← mapType classes op.returnType
    op.params.forM fun parameter => (mapType classes parameter.ty).map fun _ => ()
  registry.types.forM fun ty => do
    ty.fields.forM fun field => (mapType classes field.ty).map fun _ => ()
    ty.variants.forM fun variant => do
      variant.fields.forM fun field => (mapType classes field.ty).map fun _ => ()
      (variant.tuple.getD []).forM fun item => (mapType classes item).map fun _ => ()

def buildSchema (component : String) : Except String Schema := do
  validateSyntax classes registry
  buildFrom classes registry .rust component

def buildNormalized (component : String) : Except String Schema :=
  buildFrom classes registry .normalized component

/-! ### Normalization -/

/-- The schema as the check for dynamic types sees it. -/
def TypeDef.expressions (declared : TypeDef) : DynamicTypes.TypeDef String where
  name := declared.name
  fields := declared.fields.map fun field => ⟨field.name, field.ty⟩
  variants := declared.variants.map fun variant =>
    ⟨variant.name, variant.fields.map fun field => ⟨field.name, field.ty⟩, variant.tuple⟩

def SchemaOperation.expressions (operation : SchemaOperation) : DynamicTypes.Operation String where
  name := operation.name
  inputs := operation.inputs.map fun field => ⟨field.name, field.ty⟩
  output := operation.output
  errors := operation.errors.map fun error => ⟨error.name, some error.ty⟩
  setups := operation.setups.map fun setup =>
    ⟨setup.inputs.map fun field => ⟨field.name, field.ty⟩, setup.output⟩

def Schema.expressions (schema : Schema) : DynamicTypes.Schema String where
  component := schema.component
  dependencyTypes := schema.dependencyTypes.map fun owner =>
    ⟨owner.component, owner.types.map TypeDef.expressions⟩
  operations := schema.operations.map SchemaOperation.expressions
  types := schema.types.map TypeDef.expressions

def repeatedName (seen : List String) : List String → Option String
  | [] => none
  | name :: rest => if name ∈ seen then some name else repeatedName (name :: seen) rest

def rejectAmbiguousVariants (schema : Schema) : Except String Unit :=
  (schema.types ++ schema.dependencyTypes.flatMap Dependency.types).forM fun declared =>
    match repeatedName [] (declared.variants.map Variant.name) with
    | some name => .error (s!"type '{declared.name}' declares variant '{name}' more than once; " ++
        "a variant is identified by its name alone")
    | none => .ok ()

inductive Language where
  | rust
  | csharp

def normalizeRegistry (language : Language) (component : String) : Except String Schema := do
  validateSurface registry component
  let schema ← (match language with
    | .csharp => buildNormalized classes registry component
    | .rust => buildSchema classes registry component)
  DynamicTypes.rejectDynamic classes id schema.expressions
  rejectAmbiguousVariants schema
  return schema

end Build

/-! ### What the encoder reads -/

def Field.wire (field : Field) : NormalizedSchemas.Input := ⟨field.name, field.ty⟩

def TypeKind.wire : TypeKind → Option NormalizedSchemas.TypeKind
  | .struct => some .struct
  | .enum => some .enum
  | .other _ => none

def TypeDef.wire (declared : TypeDef) : Option NormalizedSchemas.SchemaType :=
  declared.kind.wire.map fun kind => {
    name := declared.name
    kind := kind
    fields := declared.fields.map Field.wire
    variants := declared.variants.map fun variant =>
      ⟨variant.name, variant.fields.map Field.wire, variant.tuple⟩ }

def Dependency.wire (dependency : Dependency) : Option NormalizedSchemas.DependencyTypes :=
  (collect TypeDef.wire dependency.types).map fun types =>
    ⟨dependency.component, dependency.dependencies, types⟩

/-- An output that is missing is written as an empty text. -/
def SchemaOperation.wire (operation : SchemaOperation) : NormalizedSchemas.SchemaOperation where
  name := operation.name
  inputs := operation.inputs.map Field.wire
  output := operation.output.getD ""
  empty := operation.empty
  errors := operation.errors
  setups := operation.setups.map fun setup =>
    ⟨setup.fills, setup.inputs.map Field.wire, setup.output⟩

/-- A schema as the registry encoder reads it, if it knows the kinds of all types. -/
def Schema.wire (schema : Schema) : Option NormalizedSchemas.Schema := do
  let dependencyTypes ← collect Dependency.wire schema.dependencyTypes
  let types ← collect TypeDef.wire schema.types
  return {
    component := schema.component
    dependencies := schema.dependencies
    dependencyTypes := dependencyTypes
    operations := schema.operations.map SchemaOperation.wire
    types := types }

/-! ### The dependencies of a schema -/

section Dependencies

variable {classes : CharClasses} {registry : Registry} {typeSyntax : TypeSyntax}
  {component : String} {schema : Schema} {graph : List (String × List String)}

theorem buildFrom_eq_ok (h : buildFrom classes registry typeSyntax component = .ok schema) :
    ∃ graph, dependencyGraph classes registry component = .ok graph ∧
      dependencyTypes classes registry typeSyntax component graph = .ok schema.dependencyTypes ∧
      schema.component = component ∧ schema.dependencies = (lookup graph component).getD [] ∧
      mapAll (mapOperation classes registry typeSyntax (.new component registry))
        (operationsFor registry component) = .ok schema.operations ∧
      mapAll (fun ty => mapDeclared classes typeSyntax (.new component registry)
        (ownFieldType classes registry typeSyntax ty) ty) (localTypes registry component) =
          .ok schema.types := by
  obtain ⟨graph, hgraph, h⟩ := bind_eq_ok.mp h
  obtain ⟨operations, hoperations, h⟩ := bind_eq_ok.mp h
  obtain ⟨types, htypes, h⟩ := bind_eq_ok.mp h
  obtain ⟨others, hothers, h⟩ := bind_eq_ok.mp h
  obtain rfl := Except.ok.inj h
  exact ⟨graph, hgraph, hothers, rfl, rfl, hoperations, htypes⟩

/-- The dependencies have the entries of the graph but the first component's own. -/
theorem dependencyTypes_entries {others : List Dependency}
    (h : dependencyTypes classes registry typeSyntax component graph = .ok others) :
    others.map (fun owner => (owner.component, owner.dependencies)) =
      graph.filter fun entry => entry.1 != component := by
  have hpaired := mapAll_eq_ok.mp h
  have hsame := hpaired.imp (S := fun (entry : String × List String) (owner : Dependency) =>
    entry = (owner.component, owner.dependencies)) (by
      intro entry owner howner
      obtain ⟨types, -, howner⟩ := bind_eq_ok.mp howner
      rw [← Except.ok.inj howner])
  rw [← List.map_id (graph.filter _), eq_comm, ← List.forall₂_eq_eq_eq, List.forall₂_map_left_iff,
    List.forall₂_map_right_iff]
  exact hsame

theorem wire_entries {wire : NormalizedSchemas.Schema} (h : schema.wire = some wire) :
    wire.component = schema.component ∧ wire.dependencies = schema.dependencies ∧
      wire.dependencyTypes.map (fun owner => (owner.component, owner.dependencies)) =
        schema.dependencyTypes.map fun owner => (owner.component, owner.dependencies) := by
  obtain ⟨others, hothers, h⟩ := Option.bind_eq_some_iff.mp h
  obtain ⟨types, -, h⟩ := Option.bind_eq_some_iff.mp h
  obtain rfl := Option.some.inj h
  refine ⟨rfl, rfl, ?_⟩
  refine map_of_collect hothers fun owner wired hwired => ?_
  obtain ⟨_, -, rfl⟩ := Option.map_eq_some_iff.mp hwired
  rfl

/-- One component of a graph lists another. -/
def Lists (graph : List (String × List String)) (source target : String) : Prop :=
  ∃ dependencies, (source, dependencies) ∈ graph ∧ target ∈ dependencies

/-- The declared dependencies of a schema are those of its graph. -/
theorem depends_iff_lists {wire : NormalizedSchemas.Schema} (hsorted : Sorted graph)
    (hroot : component ∈ keys graph) (hcomponent : wire.component = component)
    (hown : wire.dependencies = (lookup graph component).getD [])
    (hothers : wire.dependencyTypes.map (fun owner => (owner.component, owner.dependencies)) =
      graph.filter fun entry => entry.1 != component) {source target : String} :
    DependencyGraphs.Depends wire source target ↔ Lists graph source target := by
  obtain ⟨own, hlookup⟩ := exists_lookup_iff.mpr hroot
  rw [hlookup, Option.getD_some] at hown
  have hentry : (component, own) ∈ graph := mem_of_lookup hlookup
  have hunique : ∀ dependencies, (component, dependencies) ∈ graph → dependencies = own := by
    intro dependencies hmem
    have hsame := lookup_of_mem hsorted.keys_nodup hmem
    exact Option.some.inj (hsame.symm.trans hlookup)
  have hmember : ∀ dependencies, source ≠ component → ((source, dependencies) ∈ graph ↔
      ∃ owner ∈ wire.dependencyTypes, (owner.component, owner.dependencies) =
        (source, dependencies)) := by
    intro dependencies hother
    rw [← List.mem_map, hothers, List.mem_filter, bne_iff_ne, and_iff_left hother]
  unfold DependencyGraphs.Depends Lists
  rw [hcomponent, hown]
  by_cases hsource : source = component
  · subst hsource
    constructor
    · rintro (⟨-, htarget⟩ | ⟨hother, -⟩)
      · exact ⟨own, hentry, htarget⟩
      · exact absurd rfl hother
    · rintro ⟨dependencies, hmem, htarget⟩
      exact .inl ⟨rfl, hunique dependencies hmem ▸ htarget⟩
  · constructor
    · rintro (⟨hsame, -⟩ | ⟨-, owner, howner, rfl, htarget⟩)
      · exact absurd hsame hsource
      · exact ⟨owner.dependencies, (hmember _ hsource).mpr ⟨owner, howner, rfl⟩, htarget⟩
    · rintro ⟨dependencies, hmem, htarget⟩
      obtain ⟨owner, howner, hpair⟩ := (hmember dependencies hsource).mp hmem
      obtain ⟨rfl, rfl⟩ := Prod.mk.inj hpair
      exact .inr ⟨hsource, owner, howner, rfl, htarget⟩

/-- A discovered schema passes the encoder's check of the dependencies. -/
theorem validateDependencies_of_build {wire : NormalizedSchemas.Schema}
    (h : buildFrom classes registry typeSyntax component = .ok schema)
    (hwire : schema.wire = some wire) : DependencyGraphs.validateDependencies wire = .ok () := by
  obtain ⟨graph, hgraph, hothers, hcomponent, hown, -⟩ := buildFrom_eq_ok h
  obtain ⟨hcomponent', hown', hothers'⟩ := wire_entries hwire
  rw [hcomponent] at hcomponent'
  rw [hown] at hown'
  rw [dependencyTypes_entries hothers] at hothers'
  obtain ⟨hsorted, hkeys, hentries⟩ := spans_of_dependencyGraph hgraph
  have hreached := (dependencyGraph_succeeds_iff component).mp ⟨graph, hgraph⟩
  have hroot : component ∈ keys graph := (hkeys component).mpr .refl
  obtain ⟨own, hlookup⟩ := exists_lookup_iff.mpr hroot
  have hentry : (component, own) ∈ graph := mem_of_lookup hlookup
  have hdepends : DependencyGraphs.Depends wire = Lists graph := by
    funext source target
    exact propext (depends_iff_lists hsorted hroot hcomponent' hown' hothers')
  have hlists : ∀ {source target : String}, Lists graph source target →
      source ∈ keys graph ∧ Depends classes registry component source target := by
    rintro source target ⟨dependencies, hmem, htarget⟩
    have hsource : source ∈ keys graph := mem_keys_of_mem hmem
    exact ⟨hsource, (hreached source ((hkeys source).mp hsource)).1,
      ((hentries source dependencies hmem).2 target).mp htarget⟩
  have hlisted : ∀ {source target : String}, source ∈ keys graph →
      Depends classes registry component source target → Lists graph source target := by
    intro source target hsource hedge
    obtain ⟨dependencies, hmem⟩ := DependencySearch.exists_entry hsource
    exact ⟨dependencies, hmem, ((hentries source dependencies hmem).2 target).mpr hedge.refers⟩
  have howners : DependencyGraphs.owners wire = (keys graph).filter (· != component) := by
    have hfirst := congrArg (List.map Prod.fst) hothers'
    rw [List.map_map] at hfirst
    rw [keys, List.filter_map]
    exact hfirst
  have hcomponents : ∀ name, name ∈ DependencyGraphs.components wire ↔ name ∈ keys graph := by
    intro name
    rw [DependencyGraphs.components, hcomponent', howners, List.mem_cons, List.mem_filter,
      bne_iff_ne]
    by_cases hname : name = component
    · simpa [hname] using hroot
    · simp [hname]
  have hknown : ∀ {target source : String}, Lists graph source target →
      target ∈ DependencyGraphs.components wire := by
    intro target source hedge
    obtain ⟨hsource, hdepend⟩ := hlists hedge
    exact (hcomponents target).mpr ((hkeys target).mpr (((hkeys source).mp hsource).tail hdepend))
  rw [DependencyGraphs.validateDependencies_iff]
  refine ⟨⟨?_, ?_⟩, ⟨?_, ?_⟩, ?_, ?_⟩
  · rw [hown', hlookup, Option.getD_some]
    refine (hentries component own hentry).1.imp fun hlt heq => ?_
    rw [heq, Std.ReflOrd.compare_self] at hlt
    cases hlt
  · rw [howners]
    exact hsorted.keys_nodup.filter _
  · intro target htarget
    rw [hown', hlookup, Option.getD_some] at htarget
    exact hknown ⟨own, hentry, htarget⟩
  · intro owner howner target htarget
    by_cases hsame : owner.component = component
    · have hmem : owner.component ∈ DependencyGraphs.owners wire := List.mem_map_of_mem howner
      rw [howners, hsame, List.mem_filter, bne_self_eq_false] at hmem
      cases hmem.2
    · have hedge : Lists graph owner.component target := by
        rw [← hdepends]
        refine .inr ⟨?_, owner, howner, rfl, htarget⟩
        rw [hcomponent']
        exact hsame
      exact hknown hedge
  · intro name hcycle
    rw [hdepends] at hcycle
    obtain ⟨first, hedge, -⟩ := TransGen.head'_iff.mp hcycle
    have hmem := (hlists hedge).1
    exact (hreached name ((hkeys name).mp hmem)).2 (hcycle.lift id fun _ _ h => (hlists h).2)
  · intro name hname
    rw [hdepends, hcomponent']
    have hreach := (hkeys name).mp ((hcomponents name).mp hname)
    induction hreach with
    | refl => exact .refl
    | @tail source target hsource hedge ih =>
      have hmem := (hkeys source).mpr hsource
      exact (ih ((hcomponents source).mpr hmem)).tail (hlisted hmem hedge)

end Dependencies

end SpecGate.DiscoveredSchemas

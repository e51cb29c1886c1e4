import SpecGate.SchemaUnion

/-!
A schema repeated among those of a registry. A component that meets itself, or a part of
itself, is merged and not added; what comes out is the component again exactly if its
dependencies are listed in order and no two of its operations share a name.
-/
namespace SpecGate.RepeatedSchemas

open NormalizedSchemas TypeExpressions SortedAssoc Sorting KeyedUnion Checked SchemaUnion

/-! ### Encoding one schema -/

section Encode

variable (classes : CharClasses) (json : JsonText)

def encode (registryId registryVersion text : String) : Except String Encoding := do
  let components ← parseComponents classes json text
  encodeDocument json registryId registryVersion components

end Encode

/-! ### Components of one schema -/

/-- What every component of a schema is, whether or not operations share names. -/
structure Ordered (component : Component) : Prop where
  types : Distinct NamedType.name component.types
  operationsSorted : sortBy Operation.name component.operations = component.operations
  typesSorted : sortBy NamedType.name component.types = component.types

/-- A component that stays as it is when it is merged with itself. -/
structure Settled (component : Component) : Prop where
  dependencies : component.dependencies.Pairwise fun a b => compare a b = .lt
  operations : Agree Operation.name component.operations component.operations

/-- Everything a component declares is declared by another one of the same identity. -/
structure Within (whole part : Component) : Prop where
  id : part.id = whole.id
  dependencies : ∀ name ∈ part.dependencies, name ∈ whole.dependencies
  operations : ∀ operation ∈ part.operations, operation ∈ whole.operations
  types : ∀ type ∈ part.types, type ∈ whole.types

section Schema

variable {classes : CharClasses}

theorem insertNames_fresh {component : String} {types : List SchemaType}
    {names next : List (String × List String)} (h : insertNames component types names = .ok next) :
    component ∉ keys names ∧ ∀ other, other ∈ keys next ↔ other = component ∨ other ∈ keys names := by
  unfold insertNames at h
  split_ifs at h with hpresent hnodup
  rw [← Except.ok.inj h]
  exact ⟨fun hmem => hpresent (contains_iff.mpr hmem), fun other => mem_keys_insert⟩

theorem insertDependencyNames_fresh {dependencies : List DependencyTypes}
    {names next : List (String × List String)}
    (h : insertDependencyNames names dependencies = .ok next) :
    (dependencies.map DependencyTypes.component).Nodup ∧
      ∀ dependency ∈ dependencies, dependency.component ∉ keys names := by
  induction dependencies generalizing names with
  | nil => exact ⟨List.nodup_nil, fun _ hmem => absurd hmem List.not_mem_nil⟩
  | cons first rest ih =>
    obtain ⟨extended, hfirst, hrest⟩ := bind_eq_ok.mp h
    obtain ⟨hfresh, hkeys⟩ := insertNames_fresh hfirst
    obtain ⟨hnodup, hothers⟩ := ih hrest
    refine ⟨List.nodup_cons.mpr ⟨fun hmem => ?_, hnodup⟩, fun dependency hdependency => ?_⟩
    · obtain ⟨other, hother, hsame⟩ := List.mem_map.mp hmem
      exact hothers other hother ((hkeys _).mpr (.inl hsame))
    · rcases List.mem_cons.mp hdependency with rfl | hdependency
      · exact hfresh
      · exact fun hmem => hothers dependency hdependency ((hkeys _).mpr (.inr hmem))

theorem schemaComponent_id {schema : Schema} {names : List (String × List String)}
    {component : Component} (h : schemaComponent classes names schema = .ok component) :
    component.id = schema.component := by
  obtain ⟨operations, _, h⟩ := bind_eq_ok.mp h
  obtain ⟨types, _, h⟩ := bind_eq_ok.mp h
  rw [← Except.ok.inj h]

theorem dependencyComponent_id {dependency : DependencyTypes} {names : List (String × List String)}
    {component : Component} (h : dependencyComponent classes names dependency = .ok component) :
    component.id = dependency.component := by
  obtain ⟨types, _, h⟩ := bind_eq_ok.mp h
  rw [← Except.ok.inj h]

end Schema

/-! ### Merging a component with a part of it -/

section Merging

variable {α : Type} [DecidableEq α] {name : α → String} {conflict : α → String}

end Merging

/-- The components of one schema, by their identities. -/
def collected (components : List Component) : List (String × Component) :=
  ofList (components.map fun component => (component.id, component))

section Collected

variable {components : List Component}

end Collected

/-! ### Documents -/

section Documents

variable {classes : CharClasses} {json : JsonText} {registryId registryVersion : String}
  {encoding : Encoding}

end Documents

/-! ### Small registries -/

end SpecGate.RepeatedSchemas

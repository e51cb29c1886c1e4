import SpecGate.KeyedUnion
import SpecGate.NormalizedSchemas

/-!
The registry of several schemas. Components that occur more than once are merged; the
document is the same for every order of the schemas, and whether there is one at all does
not depend on their order either.
-/
namespace SpecGate.SchemaUnion

open NormalizedSchemas TypeExpressions SortedAssoc Sorting KeyedUnion Checked
open RegistryShape (ctscVersion)

/-! ### Encoding -/

structure RegistryDocument where
  format : String
  formatVersion : String
  registryId : String
  version : String
  components : List Component

structure Encoding where
  operationCount : Nat
  typeCount : Nat
  registryJson : String

/-- How schemas are read from their texts and documents written as theirs. -/
structure JsonText where
  parse : String → Except String Schema
  write : RegistryDocument → Except String String

def maxI32 : Nat := 2147483647

section Encode

variable (classes : CharClasses) (json : JsonText)

def parseComponents (text : String) : Except String (List Component) := do
  let schema ← json.parse text
  appendComponents classes schema

def encodeDocument (registryId registryVersion : String) (components : List Component) :
    Except String Encoding := do
  let components := sortBy Component.id components
  let operationCount := (components.map fun component => component.operations.length).sum
  let typeCount := (components.map fun component => component.types.length).sum
  if maxI32 < operationCount then .error "operation count exceeds i32"
  if maxI32 < typeCount then .error "type count exceeds i32"
  let registryJson ← json.write ⟨"ctsc.registry", ctscVersion, registryId, registryVersion, components⟩
  return ⟨operationCount, typeCount, registryJson⟩

end Encode

/-! ### Components of one schema -/

/-- Declarations with distinct names, in the order of their names. -/
structure Canonical (component : Component) : Prop where
  operations : Distinct Operation.name component.operations
  types : Distinct NamedType.name component.types
  operationsSorted : sortBy Operation.name component.operations = component.operations
  typesSorted : sortBy NamedType.name component.types = component.types

theorem names_of_mapAll {α β : Type} {f : α → Except String β} {name : α → String}
    {resultName : β → String} {values : List α} {results : List β}
    (hname : ∀ value result, f value = .ok result → resultName result = name value)
    (h : mapAll f values = .ok results) : results.map resultName = values.map name := by
  have hresults := mapAll_eq_ok.mp h
  clear h
  induction hresults with
  | nil => rfl
  | cons hfirst _ ih => rw [List.map_cons, List.map_cons, ih, hname _ _ hfirst]

section Schema

variable {classes : CharClasses} {context : TypeContext}

end Schema

/-! ### Merging two components -/

/-- Two components declare nothing differently under one name, if they are one component. -/
structure Consistent (left right : Component) : Prop where
  operations : left.id = right.id → Agree Operation.name left.operations right.operations
  types : left.id = right.id → Agree NamedType.name left.types right.types

theorem Consistent.symm {left right : Component} (h : Consistent left right) :
    Consistent right left :=
  ⟨fun hid => (h.operations hid.symm).symm, fun hid => (h.types hid.symm).symm⟩

/-- The dependencies of all components of one identity: as listed if there is one, in order
if there are several. -/
def joinedDependencies : List Component → List String
  | [component] => component.dependencies
  | components => distinct (components.flatMap Component.dependencies)

/-- A component stands for all components of one identity. -/
structure Joins (components : List Component) (joined : Component) : Prop where
  canonical : Canonical joined
  operations : ∀ operation, operation ∈ joined.operations ↔
    ∃ component ∈ components, operation ∈ component.operations
  types : ∀ type, type ∈ joined.types ↔ ∃ component ∈ components, type ∈ component.types
  dependencies : joined.dependencies = joinedDependencies components
  nonempty : components ≠ []

theorem eq_of_same_members {α : Type} {name : α → String} {left right : List α}
    (hleft : Distinct name left) (hright : Distinct name right)
    (hleftSorted : sortBy name left = left) (hrightSorted : sortBy name right = right)
    (h : ∀ value, value ∈ left ↔ value ∈ right) : left = right := by
  have hperm : left.Perm right :=
    (List.perm_ext_iff_of_nodup (List.Nodup.of_map name hleft) (List.Nodup.of_map name hright)).mpr h
  rw [← hleftSorted, ← hrightSorted]
  exact sortBy_eq_of_perm (fun _ ha _ hb hname => hleft.agree _ ha _ hb hname) hperm

/-- What a component stands for determines it, whatever the order. -/
theorem Joins.unique {left right : List Component} (hperm : left.Perm right)
    {joined joined' : Component} (hid : joined.id = joined'.id) (h : Joins left joined)
    (h' : Joins right joined') : joined = joined' := by
  have hmem : ∀ component, component ∈ left ↔ component ∈ right := fun _ => hperm.mem_iff
  have hoperations : joined.operations = joined'.operations := by
    refine eq_of_same_members h.canonical.operations h'.canonical.operations
      h.canonical.operationsSorted h'.canonical.operationsSorted fun operation => ?_
    rw [h.operations, h'.operations]
    simp only [hmem]
  have htypes : joined.types = joined'.types := by
    refine eq_of_same_members h.canonical.types h'.canonical.types
      h.canonical.typesSorted h'.canonical.typesSorted fun type => ?_
    rw [h.types, h'.types]
    simp only [hmem]
  have hdependencies : joined.dependencies = joined'.dependencies := by
    rw [h.dependencies, h'.dependencies]
    by_cases hsingle : ∃ component, left = [component]
    · obtain ⟨component, rfl⟩ := hsingle
      rw [List.singleton_perm.mp hperm]
    · have hsort : ∀ components : List Component, (¬∃ component, components = [component]) →
          joinedDependencies components = distinct (components.flatMap Component.dependencies) := by
        intro components hne
        unfold joinedDependencies
        split
        · rename_i component
          exact absurd ⟨component, rfl⟩ hne
        · rfl
      have hother : ¬∃ component, right = [component] := by
        intro hright
        obtain ⟨component, rfl⟩ := hright
        exact hsingle ⟨component, List.perm_singleton.mp hperm⟩
      rw [hsort left hsingle, hsort right hother, distinct_eq_iff]
      intro name
      rw [List.mem_flatMap, List.mem_flatMap]
      simp only [hmem]
  cases joined
  cases joined'
  simp_all

/-! ### All components -/

/-- The components collected so far: one for each identity, which stands for all that were
read with it. -/
structure Gathers (read : List Component) (components : List (String × Component)) : Prop where
  sorted : Sorted components
  joins : ∀ id joined, lookup components id = some joined → joined.id = id ∧
    Joins (read.filter fun component => component.id = id) joined
  missing : ∀ id, lookup components id = none → ∀ component ∈ read, component.id ≠ id

section Adding

variable {read : List Component} {components next : List (String × Component)}
  {incoming : Component}

/-- The components of another identity are not touched. -/
theorem Gathers.insert (h : Gathers read components) {joined : Component}
    (hid : joined.id = incoming.id)
    (hjoins : Joins ((read ++ [incoming]).filter fun component => component.id = incoming.id)
      joined) : Gathers (read ++ [incoming]) (SortedAssoc.insert incoming.id joined components) := by
  refine ⟨sorted_insert _ _ h.sorted, fun id found hfound => ?_, fun id hnone component hmem => ?_⟩
  · by_cases hsame : incoming.id = id
    · subst hsame
      rw [lookup_insert_self] at hfound
      rw [← Option.some.inj hfound]
      exact ⟨hid, hjoins⟩
    · rw [lookup_insert_of_ne hsame] at hfound
      obtain ⟨hfoundId, hfoundJoins⟩ := h.joins id found hfound
      rw [List.filter_append, List.filter_cons_of_neg (by simpa using hsame), List.filter_nil,
        List.append_nil]
      exact ⟨hfoundId, hfoundJoins⟩
  · by_cases hsame : incoming.id = id
    · subst hsame
      rw [lookup_insert_self] at hnone
      cases hnone
    · rw [lookup_insert_of_ne hsame] at hnone
      rcases List.mem_append.mp hmem with hold | hnew
      · exact h.missing id hnone component hold
      · rw [List.mem_singleton.mp hnew]
        exact hsame

end Adding

/-- What was gathered depends on the components that were read, not on their order. -/
theorem Gathers.unique {left right : List Component} (hperm : left.Perm right)
    {components components' : List (String × Component)} (h : Gathers left components)
    (h' : Gathers right components') : components = components' := by
  refine ext_of_lookup h.sorted h'.sorted fun id => ?_
  cases hleft : lookup components id with
  | none =>
    cases hright : lookup components' id with
    | none => rfl
    | some joined =>
      obtain ⟨-, hjoins⟩ := h'.joins id joined hright
      obtain ⟨first, hfirst⟩ := List.exists_mem_of_ne_nil _ hjoins.nonempty
      obtain ⟨hmem, hid⟩ := List.mem_filter.mp hfirst
      exact absurd (of_decide_eq_true hid) (h.missing id hleft first (hperm.mem_iff.mpr hmem))
  | some joined =>
    obtain ⟨hid, hjoins⟩ := h.joins id joined hleft
    cases hright : lookup components' id with
    | none =>
      obtain ⟨first, hfirst⟩ := List.exists_mem_of_ne_nil _ hjoins.nonempty
      obtain ⟨hmem, hfirstId⟩ := List.mem_filter.mp hfirst
      exact absurd (of_decide_eq_true hfirstId) (h'.missing id hright first (hperm.mem_iff.mp hmem))
    | some joined' =>
      obtain ⟨hid', hjoins'⟩ := h'.joins id joined' hright
      exact congrArg some (hjoins.unique (hperm.filter _) (hid.trans hid'.symm) hjoins')

/-! ### All schemas -/

section Schemas

variable {classes : CharClasses} {json : JsonText}

end Schemas

end SpecGate.SchemaUnion

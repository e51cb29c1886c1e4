import SpecGate.RegistryShape

/-!
Cross-document checks over the selected registry documents, which are indexed by
registry identity: component owners, dependencies, named references and import
cycles, and the collection of all components into one map.
-/
namespace SpecGate.RegistrySemantics

open RegistryModel Validation SortedAssoc RegistryShape

abbrev Documents := List (String × RegistryDocument)

/-- The displayed source path of each selected document. -/
abbrev DocumentPaths := List (String × String)

def pathOf (paths : DocumentPaths) (registryId : String) : String :=
  (lookup paths registryId).getD ""

mutual

def typeUses (registryId : String) : TypeRef → Bool
  | .primitive _ => false
  | .named _ _ referenced => referenced == some registryId
  | .collection items _ _ => typeUses registryId items
  | .map keys values _ => typeUses registryId keys || typeUses registryId values
  | .tuple items => itemsUse registryId items
  | .record fields => fieldsUse registryId fields
  | .optional value => typeUses registryId value
  | .taggedUnion variants => variantsUse registryId variants
termination_by structural t => t

def itemsUse (registryId : String) : List TypeRef → Bool
  | [] => false
  | item :: rest => typeUses registryId item || itemsUse registryId rest
termination_by structural items => items

def fieldsUse (registryId : String) : List (String × TypeRef) → Bool
  | [] => false
  | (_, type) :: rest => typeUses registryId type || fieldsUse registryId rest
termination_by structural fields => fields

def variantsUse (registryId : String) : List (String × Option TypeRef) → Bool
  | [] => false
  | (_, none) :: rest => variantsUse registryId rest
  | (_, some payload) :: rest => typeUses registryId payload || variantsUse registryId rest
termination_by structural variants => variants

end

def operationUses (registryId : String) (operation : RegistryOperation) : Bool :=
  (operation.inputs ++ operation.observations).any (fun value => typeUses registryId value.2) ||
  (match operation.outcomes.result with
    | none => false
    | some result => typeUses registryId result) ||
  operation.outcomes.errors.any fun error =>
    match error.valueType with
    | none => false
    | some valueType => typeUses registryId valueType

/-- Whether a document refers to a registry in a dependency or in any type. -/
def documentUses (document : RegistryDocument) (registryId : String) : Bool :=
  document.components.any fun component =>
    component.dependencies.any (fun dependency => dependency.registryId == some registryId) ||
    component.operations.any (operationUses registryId) ||
    component.types.any fun named => typeUses registryId named.asType

/-- What a type is resolved against: the component that writes it, the registry of
that component and the selected documents. -/
structure Scope where
  documents : Documents
  currentRegistry : String
  currentComponent : RegistryComponent
  localComponents : List (String × RegistryComponent)
  path : String

namespace Scope

def imports (scope : Scope) (registryId : String) : Bool :=
  match lookup scope.documents scope.currentRegistry with
  | none => false
  | some document => document.imports.any fun imported => imported.registryId == registryId

def findComponent (scope : Scope) (registryId componentId : String) : Option RegistryComponent :=
  ((lookup scope.documents registryId).bind fun document =>
      document.components.find? fun component => component.id == componentId).or
    (if registryId = scope.currentRegistry then lookup scope.localComponents componentId else none)

/-- The checks on one named reference. -/
def resolveReference (scope : Scope) (location name : String)
    (componentId registryId : Option String) : List ValidationIssue :=
  let targetRegistry := registryId.getD scope.currentRegistry
  let targetComponent := componentId.getD scope.currentComponent.id
  (if targetRegistry ≠ scope.currentRegistry then
      require (scope.imports targetRegistry) scope.path location
        s!"unknown imported registry '{targetRegistry}'" ++
      require (scope.currentComponent.dependencies.any fun dependency =>
          dependency.registryId == some targetRegistry && dependency.componentId == targetComponent)
        scope.path location "missing matching component dependency"
    else if targetComponent ≠ scope.currentComponent.id then
      require (scope.currentComponent.dependencies.any fun dependency =>
          dependency.registryId.isNone && dependency.componentId == targetComponent)
        scope.path location "missing matching local dependency"
    else []) ++
  match scope.findComponent targetRegistry targetComponent with
  | none =>
      issue (located scope.path location)
        s!"unknown component '{targetComponent}' in registry '{targetRegistry}'"
  | some target =>
      require (target.types.any fun item => item.name == name) scope.path location
        s!"unknown named type '{name}'"

end Scope

mutual

def resolveType (scope : Scope) (location : String) : TypeRef → List ValidationIssue
  | .named name componentId registryId =>
      scope.resolveReference location name componentId registryId
  | .primitive _ => []
  | .collection items _ _ => resolveType scope s!"{location}.items" items
  | .map keys values _ =>
      resolveType scope s!"{location}.keys" keys ++ resolveType scope s!"{location}.values" values
  | .tuple items => resolveItems scope location 0 items
  | .record fields => resolveFields scope location 0 fields
  | .optional value => resolveType scope s!"{location}.value" value
  | .taggedUnion variants => resolveVariants scope location 0 variants
termination_by structural t => t

def resolveItems (scope : Scope) (location : String) (index : Nat) :
    List TypeRef → List ValidationIssue
  | [] => []
  | item :: rest =>
      resolveType scope s!"{location}.items[{index}]" item ++
      resolveItems scope location (index + 1) rest
termination_by structural items => items

def resolveFields (scope : Scope) (location : String) (index : Nat) :
    List (String × TypeRef) → List ValidationIssue
  | [] => []
  | (_, type) :: rest =>
      resolveType scope s!"{location}.fields[{index}].type" type ++
      resolveFields scope location (index + 1) rest
termination_by structural fields => fields

def resolveVariants (scope : Scope) (location : String) (index : Nat) :
    List (String × Option TypeRef) → List ValidationIssue
  | [] => []
  | (_, none) :: rest => resolveVariants scope location (index + 1) rest
  | (_, some payload) :: rest =>
      resolveType scope s!"{location}.variants[{index}].payload" payload ++
      resolveVariants scope location (index + 1) rest
termination_by structural variants => variants

end

/-- Owners seen so far and the issues of the scan. -/
def recordOwner (registryId path : String) (state : List (String × String) × List ValidationIssue)
    (component : RegistryComponent) : List (String × String) × List ValidationIssue :=
  let owners := SortedAssoc.insert component.id registryId state.1
  match lookup state.1 component.id with
  | some existing =>
      if existing ≠ registryId then
        (owners, state.2 ++ issue (located path "$.components")
          s!"component ID '{component.id}' exists in both '{existing}' and '{registryId}'")
      else (owners, state.2)
  | none => (owners, state.2)

def componentOwners (documents : Documents) (paths : DocumentPaths) :
    List (String × String) × List ValidationIssue :=
  documents.foldl (fun state entry =>
    entry.2.components.foldl (recordOwner entry.1 (pathOf paths entry.1)) state) ([], [])

def resolveDependency (documents : Documents) (registryId path : String)
    (document : RegistryDocument) (dependency : ComponentRef) (location : String) :
    List ValidationIssue :=
  let targetRegistry := dependency.registryId.getD registryId
  (if targetRegistry ≠ registryId then
      require (document.imports.any fun imported => imported.registryId == targetRegistry)
        path location s!"unknown imported registry '{targetRegistry}'"
    else []) ++
  require (match lookup documents targetRegistry with
      | none => false
      | some target => target.components.any fun item => item.id == dependency.componentId)
    path location
    s!"unknown dependency component '{dependency.componentId}' in registry '{targetRegistry}'"

def resolveOperation (scope : Scope) (operation : RegistryOperation) (location : String) :
    List ValidationIssue :=
  (operation.inputs.zipIdx.flatMap fun (input, index) =>
    resolveType scope s!"{location}.inputs[{index}].type" input.2) ++
  (operation.observations.zipIdx.flatMap fun (observation, index) =>
    resolveType scope s!"{location}.observations[{index}].type" observation.2) ++
  (match operation.outcomes.result with
    | none => []
    | some result => resolveType scope s!"{location}.outcomes.result" result) ++
  operation.outcomes.errors.zipIdx.flatMap fun (error, index) =>
    match error.valueType with
    | none => []
    | some valueType => resolveType scope s!"{location}.outcomes.errors[{index}].type" valueType

def scopeOf (documents : Documents) (registryId path : String) (document : RegistryDocument)
    (component : RegistryComponent) : Scope where
  documents := documents
  currentRegistry := registryId
  currentComponent := component
  localComponents := ofList (document.components.map fun component => (component.id, component))
  path := path

def resolveComponent (documents : Documents) (registryId path : String)
    (document : RegistryDocument) (component : RegistryComponent) (location : String) :
    List ValidationIssue :=
  let scope := scopeOf documents registryId path document component
  (component.dependencies.zipIdx.flatMap fun (dependency, index) =>
    resolveDependency documents registryId path document dependency
      s!"{location}.dependencies[{index}]") ++
  (component.operations.zipIdx.flatMap fun (operation, index) =>
    resolveOperation scope operation s!"{location}.operations[{index}]") ++
  component.types.zipIdx.flatMap fun (named, index) =>
    resolveType scope s!"{location}.types[{index}]" named.asType

def validateSemantics (documents : Documents) (paths : DocumentPaths) : List ValidationIssue :=
  (componentOwners documents paths).2 ++
  documents.flatMap fun entry =>
    entry.2.components.zipIdx.flatMap fun (component, index) =>
      resolveComponent documents entry.1 (pathOf paths entry.1) entry.2 component
        s!"$.components[{index}]"

/-- The selected registries that a selected registry imports, in import order. -/
def importedIds (documents : Documents) (registryId : String) : List String :=
  match lookup documents registryId with
  | none => []
  | some document =>
      (document.imports.map fun imported => imported.registryId).filter
        (SortedAssoc.contains documents)

/-- The depth-first search for an import cycle through `registryId`. The fuel bounds
the nesting, which the registries already being visited bound as well. -/
def visit (documents : Documents) (paths : DocumentPaths) :
    Nat → List String → List String → String → List String × List ValidationIssue
  | 0, _, visited, _ => (visited, [])
  | fuel + 1, visiting, visited, registryId =>
      if registryId ∈ visited then (visited, [])
      else if registryId ∈ visiting then
        let cycle := visiting.dropWhile (· != registryId) ++ [registryId]
        (visited, issue (located (pathOf paths registryId) "$.imports")
          ("registry import cycle: " ++ " -> ".intercalate cycle))
      else
        let result := (importedIds documents registryId).foldl
          (fun (state : List String × List ValidationIssue) target =>
            let inner := visit documents paths fuel (visiting ++ [registryId]) state.1 target
            (inner.1, state.2 ++ inner.2)) (visited, [])
        (registryId :: result.1, result.2)

def validateCycles (documents : Documents) (paths : DocumentPaths) : List ValidationIssue :=
  ((SortedAssoc.keys documents).foldl (fun (state : List String × List ValidationIssue) registryId =>
    let inner := visit documents paths (documents.length + 1) [] state.1 registryId
    (inner.1, state.2 ++ inner.2)) ([], [])).2

/-- The components of all selected documents in the order of their collection. -/
def allComponents (documents : Documents) : List (String × ResolvedComponent) :=
  documents.flatMap fun entry =>
    entry.2.components.map fun component => (component.id, ⟨entry.1, component⟩)

def collectComponent (rootPath : String)
    (state : List (String × ResolvedComponent) × List ValidationIssue)
    (entry : String × ResolvedComponent) : List (String × ResolvedComponent) × List ValidationIssue :=
  (SortedAssoc.insert entry.1 entry.2 state.1,
    match lookup state.1 entry.1 with
    | none => state.2
    | some existing =>
        state.2 ++ issue (located rootPath "$.components")
          s!"component ID '{entry.1}' exists in both '{existing.registryId}' and '{entry.2.registryId}'")

def collectComponents (rootPath : String) (documents : Documents) :
    List (String × ResolvedComponent) × List ValidationIssue :=
  (allComponents documents).foldl (collectComponent rootPath) ([], [])

theorem resolveItems_eq_nil {scope : Scope} {location : String} {items : List TypeRef} :
    ∀ {index : Nat}, resolveItems scope location index items = [] →
      ∀ item ∈ items, ∃ place, resolveType scope place item = [] := by
  induction items with
  | nil => simp
  | cons head rest ih =>
    intro index h
    rw [resolveItems, List.append_eq_nil_iff] at h
    intro item hitem
    rcases List.mem_cons.mp hitem with rfl | hrest
    · exact ⟨_, h.1⟩
    · exact ih h.2 item hrest

theorem resolveFields_eq_nil {scope : Scope} {location : String} {fields : List NamedValue} :
    ∀ {index : Nat}, resolveFields scope location index fields = [] →
      ∀ field ∈ fields, ∃ place, resolveType scope place field.2 = [] := by
  induction fields with
  | nil => simp
  | cons head rest ih =>
    intro index h
    obtain ⟨name, type⟩ := head
    rw [resolveFields, List.append_eq_nil_iff] at h
    intro field hfield
    rcases List.mem_cons.mp hfield with rfl | hrest
    · exact ⟨_, h.1⟩
    · exact ih h.2 field hrest

theorem resolveVariants_eq_nil {scope : Scope} {location : String} {variants : List Variant} :
    ∀ {index : Nat}, resolveVariants scope location index variants = [] →
      ∀ name payload, (name, some payload) ∈ variants →
        ∃ place, resolveType scope place payload = [] := by
  induction variants with
  | nil => simp
  | cons head rest ih =>
    intro index h name payload hmem
    obtain ⟨headName, headPayload⟩ := head
    cases headPayload with
    | none =>
      rw [resolveVariants] at h
      rcases List.mem_cons.mp hmem with heq | hrest
      · simp at heq
      · exact ih h name payload hrest
    | some headType =>
      rw [resolveVariants, List.append_eq_nil_iff] at h
      rcases List.mem_cons.mp hmem with heq | hrest
      · obtain ⟨-, hpayload⟩ := Prod.mk.inj heq
        exact ⟨_, Option.some.inj hpayload ▸ h.1⟩
      · exact ih h.2 name payload hrest

theorem resolveType_part {scope : Scope} {location : String} {type part : TypeRef}
    (hpart : Part part type) (h : resolveType scope location type = []) :
    ∃ place, resolveType scope place part = [] := by
  cases hpart with
  | items => exact ⟨_, h⟩
  | keys =>
    rw [resolveType, List.append_eq_nil_iff] at h
    exact ⟨_, h.1⟩
  | values =>
    rw [resolveType, List.append_eq_nil_iff] at h
    exact ⟨_, h.2⟩
  | item hitem => exact resolveItems_eq_nil h _ hitem
  | field hfield => exact resolveFields_eq_nil h _ hfield
  | value => exact ⟨_, h⟩
  | payload hvariant => exact resolveVariants_eq_nil h _ _ hvariant

theorem resolveType_within {scope : Scope} {location : String} {type part : TypeRef}
    (h : resolveType scope location type = []) (hwithin : Within part type) :
    ∃ place, resolveType scope place part = [] := by
  induction hwithin using Relation.ReflTransGen.head_induction_on with
  | refl => exact ⟨location, h⟩
  | head hpart _ ih =>
    obtain ⟨place, hplace⟩ := ih
    exact resolveType_part hpart hplace

theorem resolveComponent_channel {documents : Documents} {registryId path location : String}
    {document : RegistryDocument} {component : RegistryComponent} {type : TypeRef}
    (h : resolveComponent documents registryId path document component location = [])
    (hchannel : Channel component type) :
    ∃ place, resolveType (scopeOf documents registryId path document component) place type = [] := by
  simp only [resolveComponent, List.append_eq_nil_iff] at h
  obtain ⟨⟨-, hoperations⟩, htypes⟩ := h
  have hoperation : ∀ operation ∈ component.operations, ∃ place,
      resolveOperation (scopeOf documents registryId path document component) operation place =
        [] := fun operation hmem => by
    obtain ⟨index, hindex⟩ := mem_of_flatMap_zipIdx hoperations hmem
    exact ⟨_, hindex⟩
  cases hchannel with
  | input hmem hvalue =>
    obtain ⟨place, hplace⟩ := hoperation _ hmem
    simp only [resolveOperation, List.append_eq_nil_iff] at hplace
    obtain ⟨index, hindex⟩ := mem_of_flatMap_zipIdx hplace.1.1.1 hvalue
    exact ⟨_, hindex⟩
  | observation hmem hvalue =>
    obtain ⟨place, hplace⟩ := hoperation _ hmem
    simp only [resolveOperation, List.append_eq_nil_iff] at hplace
    obtain ⟨index, hindex⟩ := mem_of_flatMap_zipIdx hplace.1.1.2 hvalue
    exact ⟨_, hindex⟩
  | result hmem hresult =>
    obtain ⟨place, hplace⟩ := hoperation _ hmem
    simp only [resolveOperation, hresult, List.append_eq_nil_iff] at hplace
    exact ⟨_, hplace.1.2⟩
  | error hmem houtcome htype =>
    obtain ⟨place, hplace⟩ := hoperation _ hmem
    simp only [resolveOperation, List.append_eq_nil_iff] at hplace
    obtain ⟨index, hindex⟩ := mem_of_flatMap_zipIdx hplace.2 houtcome
    simp only [htype] at hindex
    exact ⟨_, hindex⟩
  | definition hmem =>
    obtain ⟨index, hindex⟩ := mem_of_flatMap_zipIdx htypes hmem
    exact ⟨_, hindex⟩

/-- The fallback to the local components finds nothing that the document index misses. -/
theorem findComponent_mem {documents : Documents} {registryId path : String}
    {document : RegistryDocument} {component target : RegistryComponent}
    (hdocument : lookup documents registryId = some document) {targetRegistry targetId : String}
    (h : (scopeOf documents registryId path document component).findComponent targetRegistry
      targetId = some target) :
    ∃ owner, lookup documents targetRegistry = some owner ∧ target ∈ owner.components ∧
      target.id = targetId := by
  rw [Scope.findComponent, Option.or_eq_some_iff] at h
  rcases h with h | ⟨-, h⟩
  · obtain ⟨owner, howner, hfind⟩ := Option.bind_eq_some_iff.mp h
    exact ⟨owner, howner, List.mem_of_find?_eq_some hfind, by simpa using List.find?_some hfind⟩
  · split at h
    · rename_i hsame
      obtain rfl : targetRegistry = registryId := hsame
      have hmem : targetId ∈ keys (ofList (document.components.map fun c => (c.id, c))) :=
        exists_lookup_iff.mp ⟨target, h⟩
      have hpair := mem_of_lookup h
      have hsub : ∀ entry ∈ ofList (document.components.map fun c => (c.id, c)),
          entry ∈ document.components.map fun c => (c.id, c) := fun entry => mem_of_mem_ofList
      obtain ⟨c, hc, heq⟩ := List.mem_map.mp (hsub _ hpair)
      obtain ⟨rfl, rfl⟩ := Prod.mk.inj heq
      exact ⟨document, hdocument, hc, rfl⟩
    · cases h

/-- A reference that resolution accepts is found in the document of its registry. -/
theorem resolveReference_found {documents : Documents} {registryId path location name : String}
    {document : RegistryDocument} {component : RegistryComponent}
    {componentId referenced : Option String}
    (hdocument : lookup documents registryId = some document)
    (h : (scopeOf documents registryId path document component).resolveReference location name
      componentId referenced = []) :
    ∃ owner target definition, lookup documents (referenced.getD registryId) = some owner ∧
      target ∈ owner.components ∧ target.id = componentId.getD component.id ∧
      definition ∈ target.types ∧ definition.name = name := by
  rw [Scope.resolveReference, List.append_eq_nil_iff] at h
  have hfound := h.2
  split at hfound
  · simp at hfound
  · rename_i target htarget
    obtain ⟨owner, howner, hmem, hid⟩ := findComponent_mem hdocument htarget
    rw [require_eq_nil, List.any_eq_true] at hfound
    obtain ⟨definition, hdefinition, hname⟩ := hfound
    exact ⟨owner, target, definition, howner, hmem, hid, hdefinition, by simpa using hname⟩

theorem collectComponents_aux (rootPath : String) (entries : List (String × ResolvedComponent)) :
    ∀ state : List (String × ResolvedComponent) × List ValidationIssue,
      (entries.foldl (collectComponent rootPath) state).2 = [] →
        state.2 = [] ∧ (keys entries).Nodup ∧ ∀ id ∈ keys entries, id ∉ keys state.1 := by
  induction entries with
  | nil => simp
  | cons entry rest ih =>
    intro state h
    obtain ⟨hnil, hnodup, hnew⟩ := ih _ h
    have hlookup : lookup state.1 entry.1 = none ∧ state.2 = [] := by
      cases hcase : lookup state.1 entry.1 <;> simp [collectComponent, hcase] at hnil
      exact ⟨rfl, hnil⟩
    have habsent := lookup_eq_none_iff.mp hlookup.1
    refine ⟨hlookup.2, ?_, ?_⟩
    · rw [keys_cons, List.nodup_cons]
      exact ⟨fun hmem => hnew _ hmem (mem_keys_insert.mpr (.inl rfl)), hnodup⟩
    · intro id hid
      rw [keys_cons, List.mem_cons] at hid
      rcases hid with rfl | hrest
      · exact habsent
      · exact fun hmem => hnew id hrest (mem_keys_insert.mpr (.inr hmem))

theorem collectComponents_fst (rootPath : String) (documents : Documents) :
    (collectComponents rootPath documents).1 = ofList (allComponents documents) := by
  rw [collectComponents, ofList]
  generalize allComponents documents = entries
  suffices hfold : ∀ (state : List (String × ResolvedComponent) × List ValidationIssue),
      (entries.foldl (collectComponent rootPath) state).1 =
        entries.foldl (fun map entry => SortedAssoc.insert entry.1 entry.2 map) state.1 from
    hfold ([], [])
  induction entries with
  | nil => exact fun _ => rfl
  | cons entry rest ih => exact fun state => ih _

/-- Without an issue the collection keeps every component of every document. -/
theorem collectComponents_nodup {rootPath : String} {documents : Documents}
    (h : (collectComponents rootPath documents).2 = []) :
    (keys (allComponents documents)).Nodup :=
  (collectComponents_aux rootPath _ _ h).2.1

theorem lookup_collectComponents {rootPath : String} {documents : Documents}
    (h : (collectComponents rootPath documents).2 = []) {id : String}
    {resolved : ResolvedComponent} :
    lookup (collectComponents rootPath documents).1 id = some resolved ↔
      (id, resolved) ∈ allComponents documents := by
  have hnodup := collectComponents_nodup h
  rw [collectComponents_fst, lookup_iff_mem (sorted_ofList _).keys_nodup]
  exact (ofList_perm hnodup).mem_iff

theorem mem_allComponents {documents : Documents} {id : String} {resolved : ResolvedComponent} :
    (id, resolved) ∈ allComponents documents ↔ resolved.component.id = id ∧
      ∃ document, (resolved.registryId, document) ∈ documents ∧
        resolved.component ∈ document.components := by
  simp only [allComponents, List.mem_flatMap, List.mem_map, Prod.mk.injEq]
  constructor
  · rintro ⟨⟨registryId, document⟩, hdocument, component, hcomponent, rfl, rfl⟩
    exact ⟨rfl, document, hdocument, hcomponent⟩
  · rintro ⟨rfl, document, hdocument, hcomponent⟩
    exact ⟨(resolved.registryId, document), hdocument, resolved.component, hcomponent, rfl, rfl⟩

/-- What the linked passes rely on in a registry set. -/
structure Coherent (set : RegistrySet) : Prop where
  sorted : Sorted set.components
  identity : ∀ id resolved, lookup set.components id = some resolved → resolved.component.id = id
  shaped : ∀ id resolved, lookup set.components id = some resolved →
    RegistryShape.ComponentShaped resolved.component
  denotes : ∀ id resolved name componentId registryId,
    lookup set.components id = some resolved →
      Declares resolved.component (.named name componentId registryId) →
        ∃ target definition, Denotes set resolved name componentId registryId target definition

/-- Documents that pass the shape checks, the semantic checks and the collection of
their components make up a coherent set. -/
theorem coherent_of_validated {documents : Documents} {paths : DocumentPaths} {rootPath : String}
    {set : RegistrySet} (hsorted : Sorted documents)
    (hshaped : ∀ entry ∈ documents, RegistryShape.DocumentShaped entry.2)
    (hsemantics : validateSemantics documents paths = [])
    (hcollect : (collectComponents rootPath documents).2 = [])
    (hset : set.components = (collectComponents rootPath documents).1) : Coherent set := by
  have hentry : ∀ id resolved, lookup set.components id = some resolved →
      resolved.component.id = id ∧ ∃ document, (resolved.registryId, document) ∈ documents ∧
        resolved.component ∈ document.components := fun id resolved h => by
    rw [hset, lookup_collectComponents hcollect] at h
    exact mem_allComponents.mp h
  refine ⟨?_, fun id resolved h => (hentry id resolved h).1, ?_, ?_⟩
  · rw [hset, collectComponents_fst]
    exact sorted_ofList _
  · intro id resolved h
    obtain ⟨-, document, hdocument, hcomponent⟩ := hentry id resolved h
    exact (hshaped _ hdocument).component _ hcomponent
  · intro id resolved name componentId registryId h hdeclares
    obtain ⟨-, document, hdocument, hcomponent⟩ := hentry id resolved h
    obtain ⟨root, hroot, hwithin⟩ := hdeclares
    rw [validateSemantics, List.append_eq_nil_iff, List.flatMap_eq_nil_iff] at hsemantics
    obtain ⟨index, hindex⟩ := mem_of_flatMap_zipIdx (hsemantics.2 _ hdocument) hcomponent
    obtain ⟨place, hplace⟩ := resolveComponent_channel hindex hroot
    obtain ⟨place, hplace⟩ := resolveType_within hplace hwithin
    obtain ⟨owner, target, definition, howner, htarget, hid, hdefinition, hname⟩ :=
      resolveReference_found (lookup_of_mem hsorted.keys_nodup hdocument) hplace
    refine ⟨⟨registryId.getD resolved.registryId, target⟩, definition, ?_, rfl, hid,
      hdefinition, hname⟩
    rw [hset, lookup_collectComponents hcollect]
    exact mem_allComponents.mpr ⟨hid, owner, mem_of_lookup howner, htarget⟩

end SpecGate.RegistrySemantics

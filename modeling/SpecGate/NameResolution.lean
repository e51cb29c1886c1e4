import SpecGate.ImportSelection
import SpecGate.PrimitiveValues

/-!
Two resolutions of type names. When a registry is loaded, references are resolved in the
scope of the document that writes them; when values are compared, they are looked up in
the index of all components. On every reference that can be reached from an operation
both find the same definition, and the linked passes never miss one.
-/
namespace SpecGate.NameResolution

open RegistryModel Validation SortedAssoc RegistryShape RegistrySemantics RegistryLoading
open ImportSelection Values CanonicalOrder LinkedValues PrimitiveValues

/-- The types at the channels of one operation. -/
inductive OperationType (operation : RegistryOperation) : TypeRef → Prop
  | input {value : NamedValue} (hvalue : value ∈ operation.inputs) :
      OperationType operation value.2
  | observation {value : NamedValue} (hvalue : value ∈ operation.observations) :
      OperationType operation value.2
  | result {type : TypeRef} (hresult : operation.outcomes.result = some type) :
      OperationType operation type
  | error {outcome : ErrorOutcome} {type : TypeRef}
      (houtcome : outcome ∈ operation.outcomes.errors)
      (htype : outcome.valueType = some type) : OperationType operation type

/-- The types that the linked passes come to from an operation of the set: constituents are
taken in the component at hand, and a name leads to its definition in the component found. -/
inductive Reachable (set : RegistrySet) : ResolvedComponent → TypeRef → Prop
  | operation {id : String} {component : ResolvedComponent} {operation : RegistryOperation}
      {type : TypeRef} (hmember : lookup set.components id = some component)
      (hoperation : operation ∈ component.component.operations)
      (htype : OperationType operation type) : Reachable set component type
  | part {component : ResolvedComponent} {type part : TypeRef} (h : Reachable set component type)
      (hpart : Part part type) : Reachable set component part
  | definition {component target : ResolvedComponent} {name : String}
      {componentId registryId : Option String} {definition : NamedType}
      (h : Reachable set component (.named name componentId registryId))
      (hunfolds : Unfolds set component name componentId registryId target definition) :
      Reachable set target definition.asType

/-- The component and the definition that the check of a reference finds. -/
def resolvedDefinition (scope : Scope) (name : String) (componentId registryId : Option String) :
    Option (RegistryComponent × NamedType) :=
  (scope.findComponent (registryId.getD scope.currentRegistry)
      (componentId.getD scope.currentComponent.id)).bind fun target =>
    (target.types.find? fun item => item.name == name).map fun definition => (target, definition)

/-- A message that says that a component or a named type has not been found. -/
def ReportsMissingName (message : String) : Prop :=
  (∃ id : String, message = s!"unknown component '{id}'") ∨
  (∃ id rest : String, message = s!"component '{id}' does not belong to registry " ++ rest) ∨
  ∃ name : String, message = s!"unknown named type '{name}'"

/-- Both resolutions find the same definition of a reference. -/
structure Resolved (set : RegistrySet) (documents : Documents) (paths : DocumentPaths)
    (component : ResolvedComponent) (name : String) (componentId registryId : Option String)
    (target : ResolvedComponent) (definition : NamedType) : Prop where
  /-- What the linked passes look up. -/
  unfolds : Unfolds set component name componentId registryId target definition
  /-- What was found in the scope of the document that owns the component. -/
  inScope : ∃ document, lookup documents component.registryId = some document ∧
    component.component ∈ document.components ∧
    resolvedDefinition (scopeOf documents component.registryId (pathOf paths component.registryId)
      document component.component) name componentId registryId = some (target.component, definition)
  registry : target.registryId = registryId.getD component.registryId
  canonical : ∀ value, canonicalValue set component (.named name componentId registryId) value =
    canonicalValue set target definition.asType value
  validated : ∀ value location,
    validateValue set component (.named name componentId registryId) value location =
      validateValue set target definition.asType value location

theorem validateValue_of_unfolds {set : RegistrySet} {component target : ResolvedComponent}
    {name : String} {componentId registryId : Option String} {definition : NamedType}
    (h : Unfolds set component name componentId registryId target definition) (value : AnyValue)
    (location : String) :
    validateValue set component (.named name componentId registryId) value location =
      validateValue set target definition.asType value location := by
  rw [validateValue]
  simp only [h.member, h.own, h.find, Bool.false_eq_true, if_false]

/-! ### The document scope and the component index -/

section Documents

variable {documents : Documents} {paths : DocumentPaths} {rootPath : String} {set : RegistrySet}

/-- What a load without issues says of its documents and its component index. -/
structure Indexed (documents : Documents) (paths : DocumentPaths) (set : RegistrySet) : Prop where
  sorted : Sorted documents
  checked : validateSemantics documents paths = []
  member : ∀ id resolved, lookup set.components id = some resolved ↔
    (id, resolved) ∈ allComponents documents

theorem Indexed.owner (h : Indexed documents paths set) {id : String}
    {component : ResolvedComponent} (hmember : lookup set.components id = some component) :
    component.component.id = id ∧ ∃ document, lookup documents component.registryId = some document ∧
      component.component ∈ document.components := by
  obtain ⟨hid, document, hdocument, hcomponent⟩ :=
    mem_allComponents.mp ((h.member id component).mp hmember)
  exact ⟨hid, document, lookup_of_mem h.sorted.keys_nodup hdocument, hcomponent⟩

/-- A reference that a declared type of a component writes has been resolved in its scope, to
the definition that the index gives. -/
theorem Indexed.resolved (h : Indexed documents paths set) {id : String}
    {component : ResolvedComponent} (hmember : lookup set.components id = some component)
    {name : String} {componentId registryId : Option String}
    (hdeclares : Declares component.component (.named name componentId registryId)) :
    ∃ target definition,
      Resolved set documents paths component name componentId registryId target definition := by
  obtain ⟨hid, document, hdocument, hcomponent⟩ := h.owner hmember
  obtain ⟨root, hroot, hwithin⟩ := hdeclares
  have hchecked := h.checked
  rw [validateSemantics, List.append_eq_nil_iff, List.flatMap_eq_nil_iff] at hchecked
  obtain ⟨index, hindex⟩ := mem_of_flatMap_zipIdx (hchecked.2 _ (mem_of_lookup hdocument)) hcomponent
  obtain ⟨place, hplace⟩ := resolveComponent_channel hindex hroot
  obtain ⟨place, hplace⟩ := resolveType_within hplace hwithin
  rw [resolveType, Scope.resolveReference, List.append_eq_nil_iff] at hplace
  have hfound := hplace.2
  split at hfound
  · simp at hfound
  · rename_i target htarget
    rw [require_eq_nil, List.any_eq_true, ← List.find?_isSome] at hfound
    obtain ⟨definition, hdefinition⟩ := Option.isSome_iff_exists.mp hfound
    obtain ⟨owner, howner, hmem, htargetId⟩ := findComponent_mem hdocument htarget
    have hindexed : lookup set.components (componentId.getD component.component.id) =
        some ⟨registryId.getD component.registryId, target⟩ :=
      (h.member _ _).mpr (mem_allComponents.mpr ⟨htargetId, owner, mem_of_lookup howner, hmem⟩)
    have hown : foreignRegistry registryId ⟨registryId.getD component.registryId, target⟩ =
        false := by
      cases registryId with
      | none => rfl
      | some registryId => simp [foreignRegistry]
    have hunfolds : Unfolds set component name componentId registryId
        ⟨registryId.getD component.registryId, target⟩ definition :=
      ⟨hindexed, hown, hdefinition⟩
    refine ⟨_, definition, hunfolds, ⟨document, hdocument, hcomponent, ?_⟩, rfl,
      canonicalValue_named hunfolds, validateValue_of_unfolds hunfolds⟩
    unfold resolvedDefinition
    rw [show _ = some target from htarget, Option.bind_some, hdefinition, Option.map_some]

/-- Every type that the linked passes come to is declared by the component at hand. -/
theorem Reachable.declared {component : ResolvedComponent} {type : TypeRef}
    (hreachable : Reachable set component type) :
    ∃ id, lookup set.components id = some component ∧ Declares component.component type := by
  induction hreachable with
  | operation hmember hoperation htype =>
    refine ⟨_, hmember, Channel.declares ?_⟩
    cases htype with
    | input hvalue => exact .input hoperation hvalue
    | observation hvalue => exact .observation hoperation hvalue
    | result hresult => exact .result hoperation hresult
    | error houtcome htype => exact .error hoperation houtcome htype
  | part _ hpart ih =>
    obtain ⟨id, hmember, hdeclares⟩ := ih
    exact ⟨id, hmember, hdeclares.part hpart⟩
  | definition _ hunfolds _ =>
    exact ⟨_, hunfolds.member, (Channel.definition (List.mem_of_find?_eq_some hunfolds.find)).declares⟩

theorem Reachable.resolved (h : Indexed documents paths set) {component : ResolvedComponent}
    {name : String} {componentId registryId : Option String}
    (hreachable : Reachable set component (.named name componentId registryId)) :
    ∃ target definition,
      Resolved set documents paths component name componentId registryId target definition := by
  obtain ⟨id, hmember, hdeclares⟩ := hreachable.declared
  exact h.resolved hmember hdeclares

end Documents

/-! ### The messages of the validator -/

/-- The first letters of a text, which tell the messages apart. -/
def opening (text : String) : List Char := text.toList.take 9

theorem opening_append {first : String} (h : 9 ≤ first.toList.length) (rest : String) :
    opening (first ++ rest) = opening first := by
  unfold opening
  rw [String.toList_append, List.take_append_of_le_length h]

/-- The openings of the messages about a missing name. -/
def missingOpenings : List (List Char) :=
  [opening "unknown component '", opening "component '", opening "unknown named type '"]

theorem opening_of_missing {message : String} (h : ReportsMissingName message) :
    opening message ∈ missingOpenings := by
  rcases h with ⟨id, rfl⟩ | ⟨id, rest, rfl⟩ | ⟨name, rfl⟩
  · have hopening : opening ("unknown component '" ++ id ++ "'") = opening "unknown component '" := by
      rw [String.append_assoc]
      exact opening_append (by decide) _
    exact List.mem_of_mem_head? (congrArg some hopening.symm)
  · have hopening : opening ("component '" ++ id ++ "' does not belong to registry " ++ rest) =
        opening "component '" := by
      rw [String.append_assoc, String.append_assoc]
      exact opening_append (by decide) _
    exact List.mem_cons_of_mem _ (List.mem_of_mem_head? (congrArg some hopening.symm))
  · have hopening : opening ("unknown named type '" ++ name ++ "'") =
        opening "unknown named type '" := by
      rw [String.append_assoc]
      exact opening_append (by decide) _
    exact List.mem_of_getElem? (show missingOpenings[2]? = _ from congrArg some hopening.symm)

/-- No issue of the list says that a name is missing. -/
def NamesFound (issues : List ValidationIssue) : Prop :=
  ∀ found ∈ issues, ¬ ReportsMissingName found.message

theorem namesFound_nil : NamesFound [] := by simp [NamesFound]

theorem namesFound_issue {message : String} (h : opening message ∉ missingOpenings)
    (location : String) : NamesFound (issue location message) := by
  intro found hfound hmissing
  obtain rfl := List.mem_singleton.mp hfound
  exact h (opening_of_missing hmissing)

theorem NamesFound.append {first second : List ValidationIssue} (hfirst : NamesFound first)
    (hsecond : NamesFound second) : NamesFound (first ++ second) := by
  intro found hfound
  rcases List.mem_append.mp hfound with hmem | hmem
  · exact hfirst found hmem
  · exact hsecond found hmem

theorem namesFound_flatMap {values : List α} {f : α → List ValidationIssue}
    (h : ∀ value ∈ values, NamesFound (f value)) : NamesFound (values.flatMap f) := by
  intro found hfound
  obtain ⟨value, hvalue, hmem⟩ := List.mem_flatMap.mp hfound
  exact h value hvalue found hmem

theorem namesFound_ite {condition : Prop} [Decidable condition] {first second : List ValidationIssue}
    (hfirst : NamesFound first) (hsecond : NamesFound second) :
    NamesFound (if condition then first else second) := by
  split
  · exact hfirst
  · exact hsecond

theorem validateRange_namesFound (value : AnyValue) (primitive location : String) :
    NamesFound (validateRange value primitive location) := by
  unfold validateRange
  split
  · exact namesFound_ite (namesFound_issue (by decide) _) namesFound_nil
  · refine namesFound_ite (namesFound_issue (by decide) _) ?_
    exact namesFound_ite (namesFound_issue (by decide) _) namesFound_nil
  · refine namesFound_ite ?_ namesFound_nil
    refine namesFound_ite (namesFound_issue (by decide) _) ?_
    exact namesFound_ite (namesFound_issue (by decide) _) namesFound_nil
  · exact namesFound_ite (namesFound_issue (by decide) _) namesFound_nil
  · exact namesFound_nil

theorem validatePrimitive_namesFound (value : AnyValue) (primitive location : String) :
    NamesFound (validatePrimitive value primitive location) := by
  unfold validatePrimitive
  cases hexpected : expectedWire primitive with
  | none =>
    apply namesFound_issue
    rw [show s!"unsupported primitive '{primitive}'" =
      "unsupported primitive '" ++ (primitive ++ "'") from String.append_assoc,
      opening_append (by decide)]
    decide
  | some expected =>
    refine namesFound_ite (namesFound_issue ?_ _) (validateRange_namesFound value primitive location)
    rcases expectedWire_cases hexpected with ⟨rfl, rfl⟩ | ⟨rfl | rfl, rfl⟩ | ⟨rfl, rfl⟩ |
      ⟨rfl | rfl | rfl, rfl⟩ | ⟨rfl | rfl, rfl⟩ | ⟨rfl, rfl⟩ <;> decide

theorem namesFound_variant {first : String} (hlength : 9 ≤ first.toList.length)
    (hopening : opening first ∉ missingOpenings) (name location : String) :
    NamesFound (issue location (first ++ name ++ "'")) := by
  apply namesFound_issue
  rw [String.append_assoc, opening_append hlength]
  exact hopening

section Validation

variable {documents : Documents} {paths : DocumentPaths} {set : RegistrySet}

/-- At a type that is reached from an operation, the validator finds every name it looks up. -/
theorem validateValue_namesFound (h : Indexed documents paths set) (component : ResolvedComponent)
    (type : TypeRef) (value : AnyValue) (hreachable : Reachable set component type)
    (location : String) : NamesFound (validateValue set component type value location) := by
  induction component, type, value using value_induction generalizing location with
  | step component type value ihInside ihUnfold =>
    have hpart : ∀ {part : TypeRef} {inner : AnyValue} (place : String), Part part type →
        sizeOf inner < sizeOf value → NamesFound (validateValue set component part inner place) :=
      fun place hpart hsize => ihInside _ _ _ hsize (hreachable.part hpart) place
    cases type with
    | primitive name =>
      rw [validateValue]
      exact validatePrimitive_namesFound value name location
    | named name componentId registryId =>
      obtain ⟨target, definition, hresolved⟩ := hreachable.resolved h
      rw [hresolved.validated value location]
      exact ihUnfold rfl target definition (hreachable.definition hresolved.unfolds) location
    | collection items ordered unique =>
      cases value with
      | array values =>
        rw [validateValue]
        refine .append (namesFound_flatMap ?_)
          (namesFound_ite (namesFound_issue (by decide) _) namesFound_nil)
        rintro ⟨⟨item, hitem⟩, index⟩ -
        exact hpart _ (.items items ordered unique) (AnyValue.sizeOf_lt_array hitem)
      | _ =>
        rw [validateValue]
        · exact namesFound_issue (by decide) _
        · simp
    | map keyType valueType ordered =>
      by_cases hstring : (!ordered && isStringType keyType) = true
      · cases value with
        | kvList entries =>
          rw [validateValue, if_pos hstring]
          refine namesFound_flatMap ?_
          rintro ⟨⟨key, inner⟩, hentry⟩ -
          exact hpart _ (.values keyType valueType ordered) (AnyValue.sizeOf_lt_kvList hentry)
        | array entries =>
          rw [validateValue, if_pos hstring]
          exact namesFound_issue (by decide) _
        | _ =>
          rw [validateValue, if_pos hstring]
          · exact namesFound_issue (by decide) _
          · simp
          · simp
      · cases value with
        | array entries =>
          rw [validateValue, if_neg hstring]
          refine namesFound_flatMap ?_
          rintro ⟨⟨entry, hentry⟩, index⟩ -
          dsimp only
          split
          · exact namesFound_issue (by decide) _
          · rename_i key inner hpair
            have hsize := mapEntry_sizeOf_lt hpair
            have hentrySize := AnyValue.sizeOf_lt_array hentry
            refine .append (.append ?_ ?_)
              (namesFound_ite (namesFound_issue (by decide) _) namesFound_nil)
            · exact hpart _ (.keys keyType valueType ordered) (hsize.1.trans hentrySize)
            · exact hpart _ (.values keyType valueType ordered) (hsize.2.trans hentrySize)
        | kvList entries =>
          rw [validateValue, if_neg hstring]
          exact namesFound_issue (by decide) _
        | _ =>
          rw [validateValue, if_neg hstring]
          · exact namesFound_issue (by decide) _
          · simp
          · simp
    | tuple items =>
      cases value with
      | array values =>
        rw [validateValue]
        refine namesFound_ite (namesFound_issue (by decide) _) (namesFound_flatMap ?_)
        rintro ⟨⟨⟨item, hitem⟩, type⟩, index⟩ hmem
        have htype : type ∈ items := (List.of_mem_zip (List.fst_mem_of_mem_zipIdx hmem)).2
        exact hpart _ (.item htype) (AnyValue.sizeOf_lt_array hitem)
      | _ =>
        rw [validateValue]
        · exact namesFound_issue (by decide) _
        · simp
    | record fields =>
      cases value with
      | kvList entries =>
        rw [validateValue]
        refine namesFound_ite (namesFound_issue (by decide) _) (namesFound_flatMap ?_)
        intro field hfield
        split
        · exact namesFound_nil
        · rename_i inner hinner
          exact hpart _ (.field hfield) (AnyValue.sizeOf_lt_of_lookup hinner)
      | _ =>
        rw [validateValue]
        · exact namesFound_issue (by decide) _
        · simp
    | optional inner =>
      cases value with
      | kvList entries =>
        rcases entries with _ | ⟨⟨name, payload⟩, _ | ⟨next, rest⟩⟩
        · rw [validateValue]
          · exact namesFound_issue (by decide) _
          · simp
        · rw [validateValue]
          refine namesFound_ite (validatePrimitive_namesFound _ _ _) (namesFound_ite ?_ ?_)
          · exact hpart _ (.value inner) (AnyValue.sizeOf_lt_head _ _ _)
          · exact namesFound_variant (by decide) (by decide) name location
        · rw [validateValue]
          · exact namesFound_issue (by decide) _
          · simp
      | _ =>
        rw [validateValue]
        · exact namesFound_issue (by decide) _
        · simp
        · simp
    | taggedUnion variants =>
      cases value with
      | kvList entries =>
        rcases entries with _ | ⟨⟨name, payload⟩, _ | ⟨next, rest⟩⟩
        · rw [validateValue]
          · exact namesFound_issue (by decide) _
          · simp
        · rw [validateValue]
          split
          · exact namesFound_variant (by decide) (by decide) name location
          · rename_i found type hfind
            have hvariant : (found, some type) ∈ variants := List.mem_of_find?_eq_some hfind
            exact hpart _ (.payload hvariant) (AnyValue.sizeOf_lt_head _ _ _)
          · exact validatePrimitive_namesFound _ _ _
        · rw [validateValue]
          · exact namesFound_issue (by decide) _
          · simp
      | _ =>
        rw [validateValue]
        · exact namesFound_issue (by decide) _
        · simp
        · simp

end Validation

/-- After a load without issues both resolutions agree on every type that a comparison can
come to, and no lookup of a comparison fails. -/
theorem resolutions_agree {Path : Type} [Ord Path] [Std.TransOrd Path] [Std.LawfulEqOrd Path]
    {env : Environment Path} {root : Path} {explicitImports : List Path} {set : RegistrySet}
    (h : loadFs env root explicitImports = some ⟨some set, []⟩) :
    ∃ final, select env root explicitImports = some final ∧
      ∀ component type, Reachable set component type →
        (∀ name componentId registryId, type = .named name componentId registryId →
          ∃ target definition, Resolved set (selectedDocuments final) (selectedPaths env final)
            component name componentId registryId target definition) ∧
        ∀ value location, NamesFound (validateValue set component type value location) := by
  obtain ⟨file, final, -, hselect, -, -, -, hfinish⟩ := loadFs_some h
  simp only [finish, Loaded.mk.injEq, Option.some.injEq, List.append_eq_nil_iff] at hfinish
  obtain ⟨rfl, ⟨-, hsemantics⟩, hcollect⟩ := hfinish
  have hindexed : Indexed (selectedDocuments final) (selectedPaths env final)
      ⟨file.document.registryId, file.document.version, file.digest,
        (collectComponents (env.display file.path) (selectedDocuments final)).1⟩ :=
    ⟨sorted_ofList _, hsemantics, fun _ _ => lookup_collectComponents hcollect⟩
  refine ⟨final, hselect, fun component type hreachable => ⟨?_, fun value location => ?_⟩⟩
  · rintro name componentId registryId rfl
    exact hreachable.resolved hindexed
  · exact validateValue_namesFound hindexed component type value hreachable location

def goodsDigest : String :=
  "sha256:0000000000000000000000000000000000000000000000000000000000000000"

def goodsComponent : RegistryComponent where
  id := "goods"
  dependencies := []
  operations := []
  types := [.record "Item" [("code", .primitive "string")] []]
  extensions := []

/-- An operation whose input is a collection of a type of another registry. -/
def shopComponent : RegistryComponent where
  id := "shop"
  dependencies := [⟨"goods", some "goods.registry"⟩]
  operations :=
    [{ name := "order"
       inputs :=
         [("items", .collection (.named "Item" (some "goods") (some "goods.registry")) true false)]
       observations := []
       outcomes := ⟨none, false, []⟩
       extensions := [] }]
  types := []
  extensions := []

def goodsDocument : RegistryDocument where
  format := "ctsc.registry"
  formatVersion := "0.4.0"
  registryId := "goods.registry"
  version := "1.0.0"
  imports := []
  components := [goodsComponent]
  extensions := []

def shopDocument : RegistryDocument where
  format := "ctsc.registry"
  formatVersion := "0.4.0"
  registryId := "shop.registry"
  version := "1.0.0"
  imports := [⟨"goods.registry", "1.0.0", goodsDigest, none⟩]
  components := [shopComponent]
  extensions := []

/-- The shop at the first path and the goods at the second. -/
def shopEnvironment : Environment Nat where
  files := [(0, []), (1, [1])]
  readError := fun _ => "no such file"
  display := fun path => if path = 0 then "shop.json" else "goods.json"
  canonicalize := id
  relativeTo := fun base _ => base
  parseDocument := fun bytes => .ok (if bytes.isEmpty then shopDocument else goodsDocument)
  sha256Digest := fun _ => goodsDigest
  parseAuthority := .ok
  percentDecode := .ok

def shopSet : RegistrySet where
  rootId := "shop.registry"
  rootVersion := "1.0.0"
  rootDigest := goodsDigest
  components :=
    [("goods", ⟨"goods.registry", goodsComponent⟩), ("shop", ⟨"shop.registry", shopComponent⟩)]

theorem shop_loads : loadFs shopEnvironment 0 [1] = some ⟨some shopSet, []⟩ := rfl

theorem item_reachable : Reachable shopSet ⟨"shop.registry", shopComponent⟩
    (.named "Item" (some "goods") (some "goods.registry")) := by
  have hitems : Reachable shopSet ⟨"shop.registry", shopComponent⟩
      ("items", TypeRef.collection
        (.named "Item" (some "goods") (some "goods.registry")) true false).2 :=
    .operation (show lookup shopSet.components "shop" = _ from rfl) List.mem_cons_self
      (.input List.mem_cons_self)
  exact hitems.part (.items _ _ _)

theorem resolutions_agree_shop :
    Reachable shopSet ⟨"shop.registry", shopComponent⟩
      (.named "Item" (some "goods") (some "goods.registry")) ∧
    ∃ final, select shopEnvironment 0 [1] = some final ∧
      ∀ component type, Reachable shopSet component type →
        (∀ name componentId registryId, type = .named name componentId registryId →
          ∃ target definition, Resolved shopSet (selectedDocuments final)
            (selectedPaths shopEnvironment final) component name componentId registryId target
            definition) ∧
        ∀ value location, NamesFound (validateValue shopSet component type value location) :=
  ⟨item_reachable, resolutions_agree shop_loads⟩

end SpecGate.NameResolution

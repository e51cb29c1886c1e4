import SpecGate.RegistryModel
import SpecGate.Validation

/-!
Shape validation of one registry document: what can be checked before linkage.
Every type of a document that passes has known primitives and distinct field and
variant names at every depth.
-/
namespace SpecGate.RegistryShape

open RegistryModel Validation

def ctscVersion : String := "0.4.0"

def registryFormat : String := "ctsc.registry"

def reservedNamespace : String := "conformance."

def primitives : List String :=
  ["unit", "string", "bool", "i32", "i64", "u32", "u64", "f32", "f64", "bytes"]

/-- The segments between the dots of a key; there is always at least one. -/
def splitDots : List Char → List (List Char)
  | [] => [[]]
  | '.' :: rest => [] :: splitDots rest
  | c :: rest =>
      match splitDots rest with
      | [] => [[c]]
      | segment :: segments => (c :: segment) :: segments

def isLower (c : Char) : Bool := 'a' ≤ c && c ≤ 'z'

def isDigit (c : Char) : Bool := '0' ≤ c && c ≤ '9'

def validFirst : List Char → Bool
  | [] => true
  | c :: rest => isLower c && rest.all fun c => isLower c || isDigit c

def validSegment (segment : List Char) : Bool :=
  !segment.isEmpty && segment.all fun c => isLower c || isDigit c || c == '_' || c == '-'

def validateExtensions (extensions : List String) (path location : String) :
    List ValidationIssue :=
  extensions.flatMap fun key =>
    let segments := splitDots key.toList
    let first := segments.headD []
    let remaining := segments.tail
    (if first.isEmpty || !validFirst first || remaining.isEmpty || !remaining.all validSegment then
        issue (located path location) s!"extension key '{key}' must use a lowercase dotted namespace"
      else []) ++
    if reservedNamespace.toList.isPrefixOf key.toList then
      issue (located path location)
        s!"extension key '{key}' must use a namespace outside conformance.*"
    else []

def emptyIdentity (value : Option String) : Bool := value == some ""

mutual

def validateTypeAt (path location : String) : TypeRef → List ValidationIssue
  | .primitive name =>
      require (primitives.contains name) path s!"{location}.name" "unknown primitive type"
  | .named name componentId registryId =>
      require (name != "") path s!"{location}.name" "type name must not be empty" ++
      require (!emptyIdentity componentId) path s!"{location}.componentId"
        "componentId must not be empty" ++
      require (!emptyIdentity registryId) path s!"{location}.registryId"
        "registryId must not be empty" ++
      require (!(registryId.isSome && componentId.isNone)) path location
        "registryId requires componentId on a named type reference"
  | .collection items _ _ => validateTypeAt path s!"{location}.items" items
  | .map keys values _ =>
      validateTypeAt path s!"{location}.keys" keys ++
      validateTypeAt path s!"{location}.values" values
  | .tuple items => validateItemsAt path location 0 items
  | .record fields =>
      unique (fields.map Prod.fst) path s!"{location}.fields" "name" ++
      validateFieldsAt path s!"{location}.fields" 0 fields
  | .optional value => validateTypeAt path s!"{location}.value" value
  | .taggedUnion variants =>
      require (!variants.isEmpty) path s!"{location}.variants"
        "tagged union must contain at least one variant" ++
      unique (variants.map Prod.fst) path s!"{location}.variants" "name" ++
      validateVariantsAt path s!"{location}.variants" 0 variants
termination_by structural t => t

def validateItemsAt (path location : String) (index : Nat) : List TypeRef → List ValidationIssue
  | [] => []
  | item :: rest =>
      validateTypeAt path s!"{location}.items[{index}]" item ++
      validateItemsAt path location (index + 1) rest
termination_by structural items => items

def validateFieldsAt (path location : String) (index : Nat) :
    List (String × TypeRef) → List ValidationIssue
  | [] => []
  | (name, type) :: rest =>
      require (name != "") path s!"{location}[{index}].name" "name must not be empty" ++
      validateTypeAt path s!"{location}[{index}].type" type ++
      validateFieldsAt path location (index + 1) rest
termination_by structural fields => fields

def validateVariantsAt (path location : String) (index : Nat) :
    List (String × Option TypeRef) → List ValidationIssue
  | [] => []
  | (name, none) :: rest =>
      require (name != "") path s!"{location}[{index}].name" "name must not be empty" ++
      validateVariantsAt path location (index + 1) rest
  | (name, some payload) :: rest =>
      require (name != "") path s!"{location}[{index}].name" "name must not be empty" ++
      validateTypeAt path s!"{location}[{index}].payload" payload ++
      validateVariantsAt path location (index + 1) rest
termination_by structural variants => variants

end

def validateValues (values : List NamedValue) (path location : String) : List ValidationIssue :=
  unique (values.map Prod.fst) path location "name" ++ validateFieldsAt path location 0 values

def validateVariants (variants : List Variant) (path location : String) : List ValidationIssue :=
  unique (variants.map Prod.fst) path location "name" ++ validateVariantsAt path location 0 variants

def validateNamed (named : NamedType) (path location : String) : List ValidationIssue :=
  require (named.name != "") path s!"{location}.name" "type name must not be empty" ++
  match named with
  | .record _ fields extensions =>
      validateExtensions extensions path s!"{location}.extensions" ++
      validateValues fields path s!"{location}.fields"
  | .taggedUnion _ variants extensions =>
      validateExtensions extensions path s!"{location}.extensions" ++
      require (!variants.isEmpty) path s!"{location}.variants"
        "tagged union must contain at least one variant" ++
      validateVariants variants path s!"{location}.variants"

def isUnit : TypeRef → Bool
  | .primitive name => name == "unit"
  | _ => false

def validateOperation (operation : RegistryOperation) (path location : String) :
    List ValidationIssue :=
  require (operation.name != "") path s!"{location}.name" "operation name must not be empty" ++
  validateExtensions operation.extensions path s!"{location}.extensions" ++
  validateValues operation.inputs path s!"{location}.inputs" ++
  validateValues operation.observations path s!"{location}.observations" ++
  unique (operation.outcomes.errors.map (·.name)) path s!"{location}.outcomes.errors" "name" ++
  require (!(operation.outcomes.empty && operation.outcomes.result.isNone)) path
    s!"{location}.outcomes.empty" "empty: true requires a result outcome" ++
  (match operation.outcomes.result with
    | none => []
    | some result =>
        require (!isUnit result) path s!"{location}.outcomes.result"
          "result type must not be primitive unit" ++
        validateTypeAt path s!"{location}.outcomes.result" result) ++
  operation.outcomes.errors.zipIdx.flatMap fun (error, index) =>
    require (error.name != "") path s!"{location}.outcomes.errors[{index}].name"
      "error name must not be empty" ++
    match error.valueType with
    | none => []
    | some valueType => validateTypeAt path s!"{location}.outcomes.errors[{index}].type" valueType

def validateImport (imported : RegistryImport) (path location : String) : List ValidationIssue :=
  require (imported.registryId != "") path s!"{location}.registryId" "registryId must not be empty" ++
  require (imported.version != "") path s!"{location}.version" "version must not be empty" ++
  require (isDigest imported.digest) path s!"{location}.digest"
    "digest must be 'sha256:' followed by 64 lowercase hexadecimal characters" ++
  require (!emptyIdentity imported.uri) path s!"{location}.uri" "uri must not be empty"

/-- The first component identity that is smaller than its predecessor. -/
def outOfOrder : List RegistryComponent → Option String
  | first :: second :: rest =>
      if compare first.id second.id = .gt then some second.id else outOfOrder (second :: rest)
  | _ => none

def validateDependency (dependency : ComponentRef) (path location : String) :
    List ValidationIssue :=
  require (dependency.componentId != "") path s!"{location}.componentId"
    "componentId must not be empty" ++
  require (!emptyIdentity dependency.registryId) path s!"{location}.registryId"
    "registryId must not be empty"

def validateComponent (component : RegistryComponent) (path location : String) :
    List ValidationIssue :=
  require (component.id != "") path s!"{location}.id" "component id must not be empty" ++
  unique (component.dependencies.map (·.componentId)) path s!"{location}.dependencies"
    "componentId" ++
  (component.dependencies.zipIdx.flatMap fun (dependency, index) =>
    validateDependency dependency path s!"{location}.dependencies[{index}]") ++
  validateExtensions component.extensions path s!"{location}.extensions" ++
  unique (component.operations.map (·.name)) path s!"{location}.operations" "name" ++
  unique (component.types.map NamedType.name) path s!"{location}.types" "name" ++
  (component.operations.zipIdx.flatMap fun (operation, index) =>
    validateOperation operation path s!"{location}.operations[{index}]") ++
  component.types.zipIdx.flatMap fun (named, index) =>
    validateNamed named path s!"{location}.types[{index}]"

def validateShape (document : RegistryDocument) (path : String) : List ValidationIssue :=
  require (document.format == registryFormat) path "$.format" "format must be 'ctsc.registry'" ++
  require (document.formatVersion == ctscVersion) path "$.formatVersion"
    s!"formatVersion must be '{ctscVersion}'" ++
  require (document.registryId != "") path "$.registryId" "registryId must not be empty" ++
  require (document.version != "") path "$.version" "version must not be empty" ++
  require (!document.components.isEmpty) path "$.components"
    "components must contain at least one component" ++
  validateExtensions document.extensions path "$.extensions" ++
  unique (document.imports.map (·.registryId)) path "$.imports" "registryId" ++
  (document.imports.zipIdx.flatMap fun (imported, index) =>
    validateImport imported path s!"$.imports[{index}]") ++
  unique (document.components.map (·.id)) path "$.components" "id" ++
  (match outOfOrder document.components with
    | none => []
    | some outOfOrder =>
        issue (located path "$.components")
          s!"component id '{outOfOrder}' is out of ascending id order") ++
  document.components.zipIdx.flatMap fun (component, index) =>
    validateComponent component path s!"$.components[{index}]"

/-- What shape validation establishes of one type node. -/
def Shaped : TypeRef → Prop
  | .primitive name => name ∈ primitives
  | .named _ componentId registryId => registryId.isSome → componentId.isSome
  | .record fields => (fields.map Prod.fst).Nodup
  | .taggedUnion variants => variants ≠ [] ∧ (variants.map Prod.fst).Nodup
  | _ => True

theorem validateItemsAt_eq_nil {path location : String} {items : List TypeRef} :
    ∀ {index : Nat}, validateItemsAt path location index items = [] →
      ∀ item ∈ items, ∃ place, validateTypeAt path place item = [] := by
  induction items with
  | nil => simp
  | cons head rest ih =>
    intro index h
    rw [validateItemsAt, List.append_eq_nil_iff] at h
    intro item hitem
    rcases List.mem_cons.mp hitem with rfl | hrest
    · exact ⟨_, h.1⟩
    · exact ih h.2 item hrest

theorem validateFieldsAt_eq_nil {path location : String} {fields : List NamedValue} :
    ∀ {index : Nat}, validateFieldsAt path location index fields = [] →
      ∀ field ∈ fields, ∃ place, validateTypeAt path place field.2 = [] := by
  induction fields with
  | nil => simp
  | cons head rest ih =>
    intro index h
    obtain ⟨name, type⟩ := head
    rw [validateFieldsAt, List.append_eq_nil_iff, List.append_eq_nil_iff] at h
    intro field hfield
    rcases List.mem_cons.mp hfield with rfl | hrest
    · exact ⟨_, h.1.2⟩
    · exact ih h.2 field hrest

theorem validateVariantsAt_eq_nil {path location : String} {variants : List Variant} :
    ∀ {index : Nat}, validateVariantsAt path location index variants = [] →
      ∀ name payload, (name, some payload) ∈ variants →
        ∃ place, validateTypeAt path place payload = [] := by
  induction variants with
  | nil => simp
  | cons head rest ih =>
    intro index h name payload hmem
    obtain ⟨headName, headPayload⟩ := head
    cases headPayload with
    | none =>
      rw [validateVariantsAt, List.append_eq_nil_iff] at h
      rcases List.mem_cons.mp hmem with heq | hrest
      · simp at heq
      · exact ih h.2 name payload hrest
    | some headType =>
      rw [validateVariantsAt, List.append_eq_nil_iff, List.append_eq_nil_iff] at h
      rcases List.mem_cons.mp hmem with heq | hrest
      · obtain ⟨-, hpayload⟩ := Prod.mk.inj heq
        exact ⟨_, Option.some.inj hpayload ▸ h.1.2⟩
      · exact ih h.2 name payload hrest

theorem shaped_of_validateTypeAt {path location : String} {type : TypeRef}
    (h : validateTypeAt path location type = []) : Shaped type := by
  cases type with
  | primitive name => simpa [validateTypeAt, Shaped] using h
  | named name componentId registryId =>
    simp only [validateTypeAt, List.append_eq_nil_iff, require_eq_nil] at h
    intro hregistry
    have hpair := h.2
    cases componentId with
    | none => simp [hregistry] at hpair
    | some _ => rfl
  | record fields =>
    rw [validateTypeAt, List.append_eq_nil_iff, unique_eq_nil] at h
    exact h.1
  | taggedUnion variants =>
    simp only [validateTypeAt, List.append_eq_nil_iff, require_eq_nil, unique_eq_nil] at h
    exact ⟨by simpa using h.1.1, h.1.2⟩
  | collection | map | tuple | optional => trivial

theorem validateTypeAt_part {path location : String} {type part : TypeRef} (hpart : Part part type)
    (h : validateTypeAt path location type = []) :
    ∃ place, validateTypeAt path place part = [] := by
  cases hpart with
  | items => exact ⟨_, h⟩
  | keys =>
    rw [validateTypeAt, List.append_eq_nil_iff] at h
    exact ⟨_, h.1⟩
  | values =>
    rw [validateTypeAt, List.append_eq_nil_iff] at h
    exact ⟨_, h.2⟩
  | item hitem => exact validateItemsAt_eq_nil h _ hitem
  | field hfield =>
    rw [validateTypeAt, List.append_eq_nil_iff] at h
    exact validateFieldsAt_eq_nil h.2 _ hfield
  | value => exact ⟨_, h⟩
  | payload hvariant =>
    rw [validateTypeAt, List.append_eq_nil_iff] at h
    exact validateVariantsAt_eq_nil h.2 _ _ hvariant

/-- A validated type is shaped at every depth. -/
theorem shaped_within {path location : String} {type part : TypeRef}
    (h : validateTypeAt path location type = []) (hwithin : Within part type) : Shaped part := by
  have hplace : ∃ place, validateTypeAt path place part = [] := by
    induction hwithin using Relation.ReflTransGen.head_induction_on with
    | refl => exact ⟨location, h⟩
    | head hpart _ ih =>
      obtain ⟨place, hplace⟩ := ih
      exact validateTypeAt_part hpart hplace
  obtain ⟨place, hplace⟩ := hplace
  exact shaped_of_validateTypeAt hplace

theorem validateTypeAt_asType {path location : String} {named : NamedType}
    (h : validateNamed named path location = []) :
    validateTypeAt path location named.asType = [] := by
  cases named with
  | record name fields extensions =>
    simp only [validateNamed, List.append_eq_nil_iff] at h
    exact h.2.2
  | taggedUnion name variants extensions =>
    simp only [validateNamed, validateVariants, List.append_eq_nil_iff] at h
    simp only [NamedType.asType, validateTypeAt, List.append_eq_nil_iff]
    exact ⟨⟨h.2.1.2, h.2.2.1⟩, h.2.2.2⟩

theorem validateValues_eq_nil {values : List NamedValue} {path location : String}
    (h : validateValues values path location = []) {value : NamedValue} (hvalue : value ∈ values) :
    ∃ place, validateTypeAt path place value.2 = [] := by
  rw [validateValues, List.append_eq_nil_iff] at h
  exact validateFieldsAt_eq_nil h.2 value hvalue

/-- What shape validation establishes of an operation's own lists. -/
structure OperationShaped (operation : RegistryOperation) : Prop where
  inputs : (operation.inputs.map Prod.fst).Nodup
  observations : (operation.observations.map Prod.fst).Nodup
  errors : (operation.outcomes.errors.map (·.name)).Nodup

theorem validateOperation_shaped {operation : RegistryOperation} {path location : String}
    (h : validateOperation operation path location = []) : OperationShaped operation := by
  simp only [validateOperation, validateValues, List.append_eq_nil_iff, unique_eq_nil] at h
  obtain ⟨⟨⟨⟨⟨⟨-, hinputs, -⟩, hobservations, -⟩, herrors⟩, -⟩, -⟩, -⟩ := h
  exact ⟨hinputs, hobservations, herrors⟩

theorem mem_of_flatMap_zipIdx {α β : Type*} {values : List α} {f : α × Nat → List β}
    (h : values.zipIdx.flatMap f = []) {value : α} (hvalue : value ∈ values) :
    ∃ index, f (value, index) = [] := by
  obtain ⟨i, hi, rfl⟩ := List.mem_iff_getElem.mp hvalue
  exact ⟨i, flatMap_zipIdx_eq_nil.mp h i hi⟩

/-- Every channel of a component that passes has a validated type. -/
theorem validateComponent_channel {component : RegistryComponent} {path location : String}
    {type : TypeRef} (h : validateComponent component path location = [])
    (hchannel : Channel component type) : ∃ place, validateTypeAt path place type = [] := by
  simp only [validateComponent, List.append_eq_nil_iff] at h
  obtain ⟨⟨-, hoperations⟩, htypes⟩ := h
  have hoperation : ∀ operation ∈ component.operations,
      ∃ place, validateOperation operation path place = [] := fun operation hmem => by
    obtain ⟨index, hindex⟩ := mem_of_flatMap_zipIdx hoperations hmem
    exact ⟨_, hindex⟩
  cases hchannel with
  | input hmem hvalue =>
    obtain ⟨place, hplace⟩ := hoperation _ hmem
    simp only [validateOperation, List.append_eq_nil_iff] at hplace
    exact validateValues_eq_nil hplace.1.1.1.1.1.2 hvalue
  | observation hmem hvalue =>
    obtain ⟨place, hplace⟩ := hoperation _ hmem
    simp only [validateOperation, List.append_eq_nil_iff] at hplace
    exact validateValues_eq_nil hplace.1.1.1.1.2 hvalue
  | result hmem hresult =>
    obtain ⟨place, hplace⟩ := hoperation _ hmem
    simp only [validateOperation, hresult, List.append_eq_nil_iff] at hplace
    exact ⟨_, hplace.1.2.2⟩
  | error hmem houtcome htype =>
    obtain ⟨place, hplace⟩ := hoperation _ hmem
    simp only [validateOperation, List.append_eq_nil_iff] at hplace
    obtain ⟨index, hindex⟩ := mem_of_flatMap_zipIdx hplace.2 houtcome
    simp only [htype, List.append_eq_nil_iff] at hindex
    exact ⟨_, hindex.2⟩
  | definition hmem =>
    obtain ⟨index, hindex⟩ := mem_of_flatMap_zipIdx htypes hmem
    exact ⟨_, validateTypeAt_asType hindex⟩

/-- What shape validation establishes of a component. -/
structure ComponentShaped (component : RegistryComponent) : Prop where
  operations : (component.operations.map (·.name)).Nodup
  types : (component.types.map NamedType.name).Nodup
  operation : ∀ operation ∈ component.operations, OperationShaped operation
  declared : ∀ type, Declares component type → Shaped type

theorem validateComponent_shaped {component : RegistryComponent} {path location : String}
    (h : validateComponent component path location = []) : ComponentShaped component := by
  have hall := h
  simp only [validateComponent, List.append_eq_nil_iff, unique_eq_nil] at h
  obtain ⟨⟨⟨⟨-, hnames⟩, htypes⟩, hoperations⟩, -⟩ := h
  refine ⟨hnames, htypes, ?_, ?_⟩
  · intro operation hmem
    obtain ⟨index, hindex⟩ := mem_of_flatMap_zipIdx hoperations hmem
    exact validateOperation_shaped hindex
  · rintro type ⟨root, hroot, hwithin⟩
    obtain ⟨place, hplace⟩ := validateComponent_channel hall hroot
    exact shaped_within hplace hwithin

/-- What shape validation establishes of a document. -/
structure DocumentShaped (document : RegistryDocument) : Prop where
  imports : (document.imports.map (·.registryId)).Nodup
  digests : ∀ imported ∈ document.imports, isDigest imported.digest = true
  identities : (document.components.map (·.id)).Nodup
  component : ∀ component ∈ document.components, ComponentShaped component

theorem validateShape_shaped {document : RegistryDocument} {path : String}
    (h : validateShape document path = []) : DocumentShaped document := by
  simp only [validateShape, List.append_eq_nil_iff, unique_eq_nil] at h
  obtain ⟨⟨⟨⟨⟨-, himports⟩, hdigests⟩, hidentities⟩, -⟩, hcomponents⟩ := h
  refine ⟨himports, ?_, hidentities, ?_⟩
  · intro imported hmem
    obtain ⟨index, hindex⟩ := mem_of_flatMap_zipIdx hdigests hmem
    simp only [validateImport, List.append_eq_nil_iff, require_eq_nil] at hindex
    exact hindex.1.2
  · intro component hmem
    obtain ⟨index, hindex⟩ := mem_of_flatMap_zipIdx hcomponents hmem
    exact validateComponent_shaped hindex

end SpecGate.RegistryShape

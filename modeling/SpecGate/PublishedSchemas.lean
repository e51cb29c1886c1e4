import SpecGate.NormalizedRegistries
import SpecGate.PublishedTypes
import SpecGate.RepeatedSchemas

/-!
From the registered types and operations of a Rust component to the declarations of its registry.
Discovery normalizes them to a schema of type texts, and the encoder reads the schema. Whenever
both succeed, every declaration has the meaning of what was registered: the fields of a type, its
variants, the inputs of an operation with its setups folded in, and its outcomes.
-/
namespace SpecGate.PublishedSchemas

open Checked SortedAssoc Sorting DiscoveredRegistries TypeExpressions RustTypes Collecting
open OutcomeChannels FoldedOperations ComponentClosure QualifiedNames DiscoveredSchemas
open NormalizedRegistries PublishedTypes
open ReplayModel (ReplayType RegistryInput)
open NormalizedSchemas (NamedType TypeShape)

/-! ### Meanings -/

section Meanings

variable (classes : CharClasses) (registry : Registry) (component : String)

/-- A type text of a component means a type of the registry. -/
def Means (text : String) (type : ReplayType) : Prop :=
  ∃ parsed, parse classes text = some parsed ∧ meaning registry component parsed = some type

def InputMeans (input : Field) (field : RegistryInput) : Prop :=
  field.1 = input.name ∧ Means classes registry component input.ty field.2

/-- The text of a declared field may be replaced by the name of its property setup type. -/
def FieldMeans (ty : RawType) (declared : Field) (field : RegistryInput) : Prop :=
  field.1 = declared.name ∧ ∃ text, propertyFieldType classes registry ty declared.ty = .ok text ∧
    Means classes registry component text field.2

/-- The payload of a variant: a tuple, a record, or nothing. -/
inductive PayloadMeans : Variant → Option ReplayType → Prop
  | tuple {name : String} {items : List String} {types : List ReplayType} :
      List.Forall₂ (Means classes registry component) items types →
        PayloadMeans ⟨name, [], some items⟩ (some (.tuple types))
  | unit {name : String} : PayloadMeans ⟨name, [], none⟩ none
  | record {name : String} {declared : List Field} {fields : List RegistryInput} :
      declared ≠ [] → List.Forall₂ (InputMeans classes registry component) declared fields →
        PayloadMeans ⟨name, declared, none⟩ (some (.record fields))

def VariantMeans (declared : Variant) (variant : String × Option ReplayType) : Prop :=
  variant.1 = declared.name ∧ PayloadMeans classes registry component declared variant.2

/-- A payload of a type; unit is none. -/
def payload (type : ReplayType) : Option ReplayType :=
  match type with
  | .primitive "unit" => none
  | type => some type

/-- The payload that a Rust type means. -/
def payloadMeaning (type : RustType) : Option (Option ReplayType) :=
  (meaning registry component type).map payload

def isUnitType : RustType → Bool
  | .named name [] => name == "()"
  | _ => false

/-- The outcomes of a return type: an optional value may be empty, a result may fail. -/
def outcomeMeaning : RustType → Option NormalizedSchemas.Outcomes
  | .named name [item] =>
      if name = "Option" ∧ isUnitType item = false then
        (payloadMeaning registry component item).map fun value => ⟨value, true, []⟩
      else (payloadMeaning registry component (.named name [item])).map fun value =>
        ⟨value, false, []⟩
  | .named name [item, failure] =>
      if name = "Result" then do
        let value ← payloadMeaning registry component item
        let error ← payloadMeaning registry component failure
        return ⟨value, false, [⟨"error", error⟩]⟩
      else (payloadMeaning registry component (.named name [item, failure])).map fun value =>
        ⟨value, false, []⟩
  | type => (payloadMeaning registry component type).map fun value => ⟨value, false, []⟩

/-- A registered type and a declared one: a record of its fields, or a union of its variants. -/
inductive ShapeMeans (ty : RawType) : TypeShape → Prop
  | struct {fields : List RegistryInput} : ty.kind = "struct" → ty.variants = [] →
      List.Forall₂ (FieldMeans classes registry component ty) ty.fields fields →
        ShapeMeans ty (.record fields)
  | enum {variants : List (String × Option ReplayType)} : ty.kind = "enum" → ty.fields = [] →
      variants ≠ [] →
      List.Forall₂ (VariantMeans classes registry component) ty.variants variants →
        ShapeMeans ty (.taggedUnion variants)

end Meanings

/-! ### Passes -/

/-- Two passes over a list, the second over what the first leaves. -/
theorem forall₂_of_passes {α β γ δ : Type} {f : α → Except String β} {g : γ → Except String δ}
    {wire : β → γ} {R : α → δ → Prop} {values : List α} {mapped : List β} {results : List δ}
    (hfirst : mapAll f values = .ok mapped) (hsecond : mapAll g (mapped.map wire) = .ok results)
    (h : ∀ value ∈ values, ∀ middle result, f value = .ok middle → g (wire middle) = .ok result →
      R value result) : List.Forall₂ R values results := by
  have hpairs := mapAll_eq_ok.mp hfirst
  have hreads := mapAll_eq_ok.mp hsecond
  clear hfirst hsecond
  induction hpairs generalizing results with
  | nil =>
    rw [List.map_nil, List.forall₂_nil_left_iff] at hreads
    rw [hreads]
    exact .nil
  | @cons value middle values others hvalue _ ih =>
    rw [List.map_cons, List.forall₂_cons_left_iff] at hreads
    obtain ⟨result, rest, hresult, hrest, rfl⟩ := hreads
    rw [List.forall_mem_cons] at h
    exact .cons (h.1 middle result hvalue hresult) (ih h.2 hrest)

/-! ### Texts -/

section Texts

variable {classes : CharClasses} {registry : Registry} {component : String}
  {context : TypeContext}

/-- The registered names are read in a context as discovery wrote them. -/
structure Readable (classes : CharClasses) (registry : Registry) (component : String)
    (context : TypeContext) : Prop where
  plain : PlainNames classes registry
  serves : Serves registry component context

theorem Reached.of_subset {names others : List String}
    (h : Reached registry component context names) (hsubset : others ⊆ names) :
    Reached registry component context others := fun name hname => h name (hsubset hname)

theorem means_of_typeRef {text published : String} {type : ReplayType}
    (hreadable : Readable classes registry component context)
    (hreached : Reached registry component context (collectRefs classes text))
    (hmapped : mapComponent classes (.new component registry) text = .ok published)
    (hread : typeRef classes context published = .ok type) :
    Means classes registry component text type := by
  cases hparse : parse classes text with
  | none =>
    rw [mapComponent, mapType, hparse] at hmapped
    cases hmapped
  | some parsed =>
    obtain ⟨other, hother, hmeaning⟩ :=
      published_type hreadable.plain hreadable.serves hparse hreached
    obtain rfl := Except.ok.inj (hmapped.symm.trans hother)
    rw [hread] at hmeaning
    exact ⟨parsed, hparse, hmeaning.symm⟩

theorem mapField_means {input mapped : Field} {field : RegistryInput}
    (hreadable : Readable classes registry component context)
    (hreached : Reached registry component context (collectRefs classes input.ty))
    (hmapped : mapField classes .rust (.new component registry) input = .ok mapped)
    (hread : NormalizedSchemas.normalizedField classes context (Field.wire mapped) = .ok field) :
    InputMeans classes registry component input field := by
  obtain ⟨published, hpublished, hmapped⟩ := bind_eq_ok.mp hmapped
  obtain rfl := Except.ok.inj hmapped
  obtain ⟨type, htype, hread⟩ := bind_eq_ok.mp hread
  obtain rfl := Except.ok.inj hread
  exact ⟨rfl, means_of_typeRef hreadable hreached hpublished htype⟩

theorem mapFields_mean {inputs mapped : List Field} {fields : List RegistryInput}
    (hreadable : Readable classes registry component context)
    (hreached : ∀ input ∈ inputs,
      Reached registry component context (collectRefs classes input.ty))
    (hmapped : mapAll (mapField classes .rust (.new component registry)) inputs = .ok mapped)
    (hread : mapAll (NormalizedSchemas.normalizedField classes context)
      (mapped.map Field.wire) = .ok fields) :
    List.Forall₂ (InputMeans classes registry component) inputs fields := by
  exact forall₂_of_passes hmapped hread fun input hinput result field hresult hfield =>
    mapField_means hreadable (hreached input hinput) hresult hfield

theorem concatAll_subset {α β : Type} {f : α → Except String (List β)} {items : List α}
    {results : List β} (h : concatAll f items = .ok results) {item : α} (hitem : item ∈ items) :
    ∃ part, f item = .ok part ∧ part ⊆ results := by
  induction items generalizing results with
  | nil => cases hitem
  | cons first rest ih =>
    unfold concatAll at h
    cases hfirst : f first with
    | error failure =>
      rw [hfirst] at h
      cases h
    | ok front =>
      rw [hfirst] at h
      obtain ⟨back, hback, rfl⟩ := map_eq_ok.mp h
      rcases List.mem_cons.mp hitem with rfl | hrest
      · exact ⟨front, hfirst, List.subset_append_left front back⟩
      · obtain ⟨part, hpart, hsubset⟩ := ih hback hrest
        exact ⟨part, hpart, List.Subset.trans hsubset (List.subset_append_right front back)⟩

/-- The names in a declaration are reached. -/
structure DeclarationReached (classes : CharClasses) (registry : Registry) (component : String)
    (context : TypeContext) (ty : RawType) : Prop where
  fields : ∀ field ∈ ty.fields, ∀ text, propertyFieldType classes registry ty field.ty = .ok text →
    Reached registry component context (collectRefs classes text)
  variants : ∀ variant ∈ ty.variants,
    Reached registry component context (variantReferences classes variant)

theorem declarationReached {ty : RawType} {names : List String}
    (hnames : typeReferences classes registry ty = .ok names)
    (hreached : Reached registry component context names) :
    DeclarationReached classes registry component context ty := by
  obtain ⟨fields, hfields, hnames⟩ := bind_eq_ok.mp hnames
  obtain rfl := Except.ok.inj hnames
  refine ⟨fun field hfield text htext => ?_, fun variant hvariant => ?_⟩
  · obtain ⟨part, hpart, hsubset⟩ := concatAll_subset hfields hfield
    rw [htext] at hpart
    obtain rfl := Except.ok.inj hpart
    exact Reached.of_subset hreached (List.Subset.trans hsubset (List.subset_append_left _ _))
  · refine Reached.of_subset hreached fun name hname => List.mem_append_right _ ?_
    exact List.mem_flatMap.mpr ⟨variant, hvariant, hname⟩

theorem declaredFields_mean {ty : RawType} {fields mapped : List Field}
    {results : List RegistryInput} (hreadable : Readable classes registry component context)
    (hreached : ∀ field ∈ fields, ∀ text,
      propertyFieldType classes registry ty field.ty = .ok text →
        Reached registry component context (collectRefs classes text))
    (hmapped : mapAll (fun field => do
      let sourceType ← propertyFieldType classes registry ty field.ty
      mapField classes .rust (.new component registry) ⟨field.name, sourceType⟩) fields = .ok mapped)
    (hread : mapAll (NormalizedSchemas.normalizedField classes context)
      (mapped.map Field.wire) = .ok results) :
    List.Forall₂ (FieldMeans classes registry component ty) fields results := by
  refine forall₂_of_passes hmapped hread fun declared hdeclared middle result hmiddle hresult => ?_
  obtain ⟨text, htext, hmiddle⟩ := bind_eq_ok.mp hmiddle
  have hmapped : mapField classes .rust (.new component registry) ⟨declared.name, text⟩ =
      .ok middle := hmiddle
  have htextReached : Reached registry component context
      (collectRefs classes (Field.ty ⟨declared.name, text⟩)) :=
    hreached declared hdeclared text htext
  obtain ⟨hname, hmeans⟩ := mapField_means hreadable htextReached hmapped hresult
  exact ⟨hname, text, htext, hmeans⟩

theorem items_mean {items mapped : List String} {types : List ReplayType}
    (hreadable : Readable classes registry component context)
    (hreached : ∀ item ∈ items, Reached registry component context (collectRefs classes item))
    (hmapped : mapAll (mapDependency classes .rust (.new component registry)) items = .ok mapped)
    (hread : mapAll (typeRef classes context) mapped = .ok types) :
    List.Forall₂ (Means classes registry component) items types := by
  refine forall₂_of_passes hmapped ((List.map_id mapped).symm ▸ hread)
    fun item hitem published type hpublished htype => ?_
  exact means_of_typeRef hreadable (hreached item hitem) hpublished htype

/-- A variant as the encoder reads it. -/
def Variant.wire (variant : Variant) : NormalizedSchemas.SchemaVariant :=
  ⟨variant.name, variant.fields.map Field.wire, variant.tuple⟩

theorem variant_means {typeName : String} {declared mapped : Variant}
    {result : String × Option ReplayType}
    (hreadable : Readable classes registry component context)
    (hreached : Reached registry component context (variantReferences classes declared))
    (hmapped : mapVariant classes .rust (.new component registry) declared = .ok mapped)
    (hread : NormalizedSchemas.SchemaVariant.toCtsc classes context typeName
      (Variant.wire mapped) = .ok result) :
    VariantMeans classes registry component declared result := by
  obtain ⟨name, declaredFields, declaredTuple⟩ := declared
  obtain ⟨fields, hfields, hmapped⟩ := bind_eq_ok.mp hmapped
  obtain ⟨tuple, htuple, hmapped⟩ := bind_eq_ok.mp hmapped
  obtain rfl := Except.ok.inj hmapped
  have hfieldsReached : ∀ field ∈ declaredFields,
      Reached registry component context (collectRefs classes field.ty) := fun field hfield =>
    Reached.of_subset hreached fun other hother =>
      List.mem_append_left _ (List.mem_flatMap.mpr ⟨field, hfield, hother⟩)
  have hempty : ∀ {result : List Field},
      mapAll (mapField classes .rust (.new component registry)) declaredFields = .ok result →
        (result.map Field.wire).isEmpty = declaredFields.isEmpty := by
    intro result hresult
    have hlength := (mapAll_eq_ok.mp hresult).length_eq
    cases declaredFields <;> cases result <;> first | rfl | cases hlength
  unfold NormalizedSchemas.SchemaVariant.toCtsc Variant.wire at hread
  dsimp only at hread hfields htuple
  rw [hempty hfields] at hread
  cases declaredTuple with
  | some items =>
    obtain ⟨mappedItems, hitems, rfl⟩ := map_eq_ok.mp htuple
    dsimp only at hread
    split_ifs at hread with hnone
    rw [List.isEmpty_iff] at hnone
    subst hnone
    obtain ⟨types, htypes, hread⟩ := bind_eq_ok.mp hread
    obtain rfl := Except.ok.inj hread
    refine ⟨rfl, .tuple (items_mean hreadable (fun item hitem => ?_) hitems htypes)⟩
    exact Reached.of_subset hreached fun other hother =>
      List.mem_append_right _ (List.mem_flatMap.mpr ⟨item, hitem, hother⟩)
  | none =>
    obtain rfl := Except.ok.inj htuple
    dsimp only at hread
    split_ifs at hread with hnone
    · rw [List.isEmpty_iff] at hnone
      subst hnone
      obtain rfl := Except.ok.inj hread
      exact ⟨rfl, .unit⟩
    · obtain ⟨types, htypes, hread⟩ := bind_eq_ok.mp hread
      obtain rfl := Except.ok.inj hread
      exact ⟨rfl, .record (fun heq => hnone (heq ▸ rfl))
        (mapFields_mean hreadable hfieldsReached hfields htypes)⟩

theorem variants_mean {typeName : String} {declared mapped : List Variant}
    {results : List (String × Option ReplayType)}
    (hreadable : Readable classes registry component context)
    (hreached : ∀ variant ∈ declared,
      Reached registry component context (variantReferences classes variant))
    (hmapped : mapAll (mapVariant classes .rust (.new component registry)) declared = .ok mapped)
    (hread : mapAll (NormalizedSchemas.SchemaVariant.toCtsc classes context typeName)
      (mapped.map Variant.wire) = .ok results) :
    List.Forall₂ (VariantMeans classes registry component) declared results := by
  exact forall₂_of_passes hmapped hread fun variant hvariant middle result hmiddle hresult =>
    variant_means hreadable (hreached variant hvariant) hmiddle hresult

theorem build_eq_ok {declared built : TypeDef} (h : TypeDef.build declared = .ok built) :
    built = declared ∧ (declared.kind = .struct → declared.variants = []) ∧
      (declared.kind = .enum → declared.fields = []) := by
  unfold TypeDef.build at h
  cases hkind : declared.kind with
  | struct =>
    rw [hkind] at h
    dsimp only at h
    split_ifs at h with hempty
    exact ⟨(Except.ok.inj h).symm, fun _ => List.isEmpty_iff.mp hempty, fun h => by cases h⟩
  | enum =>
    rw [hkind] at h
    dsimp only at h
    split_ifs at h with hempty
    exact ⟨(Except.ok.inj h).symm, fun h => (by cases h), fun _ => List.isEmpty_iff.mp hempty⟩
  | other kind =>
    rw [hkind] at h
    exact ⟨(Except.ok.inj h).symm, fun h => (by cases h), fun h => by cases h⟩

theorem parse_kind {kind : String} :
    (TypeKind.parse kind = .struct ↔ kind = "struct") ∧
      (TypeKind.parse kind = .enum ↔ kind = "enum") := by
  unfold TypeKind.parse
  by_cases hstruct : kind = "struct"
  · rw [if_pos hstruct]
    refine ⟨iff_of_true rfl hstruct, iff_of_false (fun h => by cases h) fun henum => ?_⟩
    exact absurd (hstruct.symm.trans henum) (by decide)
  · rw [if_neg hstruct]
    by_cases henum : kind = "enum"
    · rw [if_pos henum]
      exact ⟨iff_of_false (fun h => by cases h) hstruct, iff_of_true rfl henum⟩
    · rw [if_neg henum]
      exact ⟨iff_of_false (fun h => by cases h) hstruct, iff_of_false (fun h => by cases h) henum⟩

theorem wire_kind {kind : TypeKind} {wire : NormalizedSchemas.TypeKind}
    (h : kind.wire = some wire) :
    (wire = .struct → kind = .struct) ∧ (wire = .enum → kind = .enum) := by
  cases kind with
  | struct =>
    obtain rfl := Option.some.inj h
    exact ⟨fun _ => rfl, fun h => by cases h⟩
  | enum =>
    obtain rfl := Option.some.inj h
    exact ⟨fun h => (by cases h), fun _ => rfl⟩
  | other kind => cases h

theorem eq_nil_of_mapped {mapped : List Field} {declared : List Field}
    {fieldType : String → Except String String} {qualifier : Qualifier}
    (h : mapAll (fun field => do
      let sourceType ← fieldType field.ty
      mapField classes .rust qualifier ⟨field.name, sourceType⟩) declared = .ok mapped)
    (hnil : mapped = []) : declared = [] := by
  have hlength := (mapAll_eq_ok.mp h).length_eq
  rw [hnil] at hlength
  exact List.length_eq_zero_iff.mp hlength

/-- A declaration has the meaning of the registered type. -/
theorem shape_means {ty : RawType} {mapped : TypeDef} {wire : NormalizedSchemas.SchemaType}
    {result : NamedType} (hreadable : Readable classes registry component context)
    (hreached : DeclarationReached classes registry component context ty)
    (hmapped : mapDeclared classes .rust (.new component registry)
      (propertyFieldType classes registry ty) ty = .ok mapped)
    (hwire : mapped.wire = some wire)
    (hread : NormalizedSchemas.SchemaType.toCtsc classes context wire = .ok result) :
    result.name = ty.name ∧ ShapeMeans classes registry component ty result.shape := by
  obtain ⟨fields, hfields, hmapped⟩ := bind_eq_ok.mp hmapped
  obtain ⟨variants, hvariants, hmapped⟩ := bind_eq_ok.mp hmapped
  obtain ⟨rfl, hstruct, henum⟩ := build_eq_ok hmapped
  obtain ⟨kind, hkind, rfl⟩ := Option.map_eq_some_iff.mp hwire
  obtain ⟨hwireStruct, hwireEnum⟩ := wire_kind hkind
  unfold NormalizedSchemas.SchemaType.toCtsc at hread
  cases kind with
  | struct =>
    dsimp only at hread
    split_ifs at hread
    obtain ⟨results, hresults, hread⟩ := bind_eq_ok.mp hread
    obtain rfl := Except.ok.inj hread
    have hnone : ty.variants = [] := by
      have hlength := (mapAll_eq_ok.mp hvariants).length_eq
      rw [show variants = [] from hstruct (hwireStruct rfl)] at hlength
      exact List.length_eq_zero_iff.mp hlength
    exact ⟨rfl, .struct (parse_kind.1.mp (hwireStruct rfl)) hnone
      (declaredFields_mean hreadable hreached.fields hfields hresults)⟩
  | enum =>
    dsimp only at hread
    split_ifs at hread with hfieldless hsome
    obtain ⟨results, hresults, hread⟩ := bind_eq_ok.mp hread
    obtain rfl := Except.ok.inj hread
    have hmeans := variants_mean hreadable hreached.variants hvariants hresults
    refine ⟨rfl, .enum (parse_kind.2.mp (hwireEnum rfl)) (eq_nil_of_mapped hfields (henum (hwireEnum rfl))) ?_ hmeans⟩
    rintro rfl
    have hlength := (mapAll_eq_ok.mp hresults).length_eq
    rw [List.length_nil, List.length_eq_zero_iff] at hlength
    exact hsome (List.isEmpty_iff.mpr hlength)

end Texts

/-! ### Contexts -/

section Contexts

variable {classes : CharClasses} {registry : Registry} {root component : String}
  {graph : List (String × List String)} {names : List (String × List String)}

/-- The components of a graph lead only to one another. -/
theorem target_mem (hgraph : dependencyGraph classes registry root = .ok graph)
    {dependencies : List String} (hentry : (component, dependencies) ∈ graph) {target : String}
    (htarget : target ∈ dependencies) : target ∈ keys graph := by
  obtain ⟨-, hkeys, hentries⟩ := spans_of_dependencyGraph hgraph
  have hreach := (hkeys component).mp (mem_keys_of_mem hentry)
  have hrefers := ((hentries component dependencies hentry).2 target).mp htarget
  have hresolved := ((dependencyGraph_succeeds_iff root).mp ⟨graph, hgraph⟩ component hreach).1
  exact (hkeys target).mpr (hreach.tail ⟨hresolved, hrefers⟩)

/-- The registered types of every component of the graph are known by name. -/
def Known (registry : Registry) (graph names : List (String × List String)) : Prop :=
  ∀ target ∈ keys graph, lookup names target = some ((localTypes registry target).map RawType.name)

theorem mem_localTypes {name : String} :
    name ∈ (localTypes registry component).map RawType.name ↔
      ∃ ty ∈ registry.types, ty.component = component ∧ ty.name = name := by
  unfold localTypes
  rw [List.mem_map]
  refine exists_congr fun ty => ?_
  rw [mem_sortBy, List.mem_filter, beq_iff_eq, and_assoc]

theorem serves_of_entry (hgraph : dependencyGraph classes registry root = .ok graph)
    (hknown : Known registry graph names) {dependencies : List String}
    (hentry : (component, dependencies) ∈ graph) :
    Serves registry component ⟨component, dependencies, names⟩ where
  own := rfl
  declares target name h := by
    have hmem : target ∈ keys graph := by
      rcases h with rfl | htarget
      · exact mem_keys_of_mem hentry
      · exact target_mem hgraph hentry htarget
    rw [TypeContext.declares, hknown target hmem, Option.getD_some, List.contains_iff_mem]
    exact mem_localTypes

/-- Every name that a component of the graph refers to is found in it or in what it depends on. -/
theorem reached_of_entry (hgraph : dependencyGraph classes registry root = .ok graph)
    {dependencies : List String} (hentry : (component, dependencies) ∈ graph)
    {referred : List String}
    (hreferred : references classes registry (traversalOf root component) component =
      .ok referred) : Reached registry component ⟨component, dependencies, names⟩ referred := by
  obtain ⟨-, hkeys, hentries⟩ := spans_of_dependencyGraph hgraph
  have hreach := (hkeys component).mp (mem_keys_of_mem hentry)
  obtain ⟨found, hfound, howned⟩ := ((dependencyGraph_succeeds_iff root).mp ⟨graph, hgraph⟩ component hreach).1
  obtain rfl := Except.ok.inj (hreferred.symm.trans hfound)
  intro name hname
  obtain ⟨target, howns⟩ := howned name hname
  refine ⟨target, howns, ?_⟩
  by_cases hsame : target = component
  · exact .inl hsame
  · exact .inr (((hentries component dependencies hentry).2 target).mpr
      ⟨hsame, referred, hreferred, name, hname, howns⟩)

/-- The references of a component of the graph. -/
theorem references_of_entry (hgraph : dependencyGraph classes registry root = .ok graph)
    {dependencies : List String} (hentry : (component, dependencies) ∈ graph) :
    ∃ referred, references classes registry (traversalOf root component) component =
      .ok referred := by
  have hkeys := (spans_of_dependencyGraph hgraph).keys_iff
  have hreach := (hkeys component).mp (mem_keys_of_mem hentry)
  obtain ⟨found, hfound, -⟩ := ((dependencyGraph_succeeds_iff root).mp ⟨graph, hgraph⟩ component hreach).1
  exact ⟨found, hfound⟩

theorem declarationReached_of_entry (hgraph : dependencyGraph classes registry root = .ok graph)
    {dependencies : List String} (hentry : (component, dependencies) ∈ graph) {ty : RawType}
    (hty : ty ∈ localTypes registry component) :
    DeclarationReached classes registry component ⟨component, dependencies, names⟩ ty := by
  obtain ⟨referred, hreferred⟩ := references_of_entry hgraph hentry
  have hreached : Reached registry component ⟨component, dependencies, names⟩ referred :=
    reached_of_entry hgraph hentry hreferred
  obtain ⟨operations, -, hreferred⟩ := bind_eq_ok.mp hreferred
  obtain ⟨types, htypes, hreferred⟩ := bind_eq_ok.mp hreferred
  obtain rfl := Except.ok.inj hreferred
  have hmem : ty ∈ registry.types.filter fun ty => ty.component == component :=
    mem_sortBy.mp hty
  obtain ⟨part, hpart, hsubset⟩ := concatAll_subset htypes hmem
  exact declarationReached hpart (Reached.of_subset hreached
    (List.Subset.trans hsubset (List.subset_append_right operations types)))

end Contexts

/-! ### Names -/

section Names

open NormalizedSchemas (insertNames insertDependencyNames DependencyTypes)

variable {classes : CharClasses} {registry : Registry} {root component : String}
  {graph names : List (String × List String)}

theorem lookup_insertDependencyNames {dependencies : List DependencyTypes}
    {next : List (String × List String)}
    (h : insertDependencyNames names dependencies = .ok next) :
    (∀ owner ∈ dependencies, lookup next owner.component =
      some (owner.types.map NormalizedSchemas.SchemaType.name)) ∧
    ∀ other, (∀ owner ∈ dependencies, owner.component ≠ other) →
      lookup next other = lookup names other := by
  induction dependencies generalizing names with
  | nil =>
    obtain rfl := Except.ok.inj h
    exact ⟨fun owner howner => (by cases howner), fun _ _ => rfl⟩
  | cons first rest ih =>
    obtain ⟨extended, hfirst, hrest⟩ := bind_eq_ok.mp h
    obtain ⟨hfound, hkept⟩ := ih hrest
    have hfresh := (RepeatedSchemas.insertDependencyNames_fresh hrest).2
    unfold insertNames at hfirst
    split_ifs at hfirst
    obtain rfl := Except.ok.inj hfirst
    have hothers : ∀ owner ∈ rest, owner.component ≠ first.component := fun owner howner heq =>
      hfresh owner howner (heq ▸ mem_keys_insert.mpr (.inl rfl))
    refine ⟨fun owner howner => ?_, fun other hother => ?_⟩
    · rcases List.mem_cons.mp howner with rfl | howner
      · rw [hkept owner.component hothers, lookup_insert_self]
      · exact hfound owner howner
    · rw [List.forall_mem_cons] at hother
      rw [hkept other hother.2, lookup_insert_of_ne hother.1]

theorem mapDeclared_name {typeSyntax : TypeSyntax} {qualifier : Qualifier}
    {fieldType : String → Except String String} {ty : RawType} {mapped : TypeDef}
    (h : mapDeclared classes typeSyntax qualifier fieldType ty = .ok mapped) :
    mapped.name = ty.name := by
  obtain ⟨fields, -, h⟩ := bind_eq_ok.mp h
  obtain ⟨variants, -, h⟩ := bind_eq_ok.mp h
  obtain ⟨rfl, -⟩ := build_eq_ok h
  rfl

theorem wire_name {mapped : TypeDef} {wire : NormalizedSchemas.SchemaType}
    (h : mapped.wire = some wire) : wire.name = mapped.name := by
  obtain ⟨kind, -, rfl⟩ := Option.map_eq_some_iff.mp h
  rfl

/-- The names of the types of a component, as they are published. -/
theorem wired_names {typeSyntax : TypeSyntax} {qualifier : Qualifier}
    {fieldType : RawType → String → Except String String} {types : List RawType}
    {mapped : List TypeDef} {wires : List NormalizedSchemas.SchemaType}
    (hmapped : mapAll (fun ty => mapDeclared classes typeSyntax qualifier (fieldType ty) ty) types =
      .ok mapped) (hwires : collect TypeDef.wire mapped = some wires) :
    wires.map NormalizedSchemas.SchemaType.name = types.map RawType.name := by
  rw [map_of_collect hwires fun declared wire => wire_name]
  exact SchemaUnion.names_of_mapAll (fun ty declared => mapDeclared_name) hmapped

theorem forall₂_of_collect {α β : Type} {f : α → Option β} {values : List α} {results : List β}
    (h : collect f values = some results) :
    List.Forall₂ (fun value result => f value = some result) values results := by
  rw [collect_eq_some_iff, ← List.forall₂_eq_eq_eq, List.forall₂_map_left_iff,
    List.forall₂_map_right_iff] at h
  exact h

/-- What a component of the graph besides the first is published as. -/
structure Published (classes : CharClasses) (registry : Registry) (entry : String × List String)
    (owner : DependencyTypes) : Prop where
  component : owner.component = entry.1
  dependencies : owner.dependencies = entry.2
  types : ∃ mapped, mapAll (fun ty => mapDeclared classes .rust (.new entry.1 registry)
      (propertyFieldType classes registry ty) ty) (localTypes registry entry.1) = .ok mapped ∧
    collect TypeDef.wire mapped = some owner.types

theorem published_of_wired {others : List Dependency} {wired : List DependencyTypes}
    (hothers : dependencyTypes classes registry .rust root graph = .ok others)
    (hwired : collect Dependency.wire others = some wired) :
    List.Forall₂ (Published classes registry) (graph.filter fun entry => entry.1 != root) wired := by
  have hpairs := mapAll_eq_ok.mp hothers
  have hwires := forall₂_of_collect hwired
  clear hothers hwired
  generalize graph.filter (fun entry => entry.1 != root) = entries at hpairs ⊢
  induction hpairs generalizing wired with
  | nil =>
    rw [List.forall₂_nil_left_iff] at hwires
    rw [hwires]
    exact .nil
  | @cons entry owner entries owners howner _ ih =>
    rw [List.forall₂_cons_left_iff] at hwires
    obtain ⟨wire, rest, hwire, hrest, rfl⟩ := hwires
    obtain ⟨mapped, hmapped, howner⟩ := bind_eq_ok.mp howner
    obtain rfl := Except.ok.inj howner
    obtain ⟨types, htypes, rfl⟩ := Option.map_eq_some_iff.mp hwire
    exact .cons ⟨rfl, rfl, mapped, hmapped, htypes⟩ (ih hrest)

theorem known_of_names {types : List TypeDef} {wires : List NormalizedSchemas.SchemaType}
    {wired : List DependencyTypes} {own : List (String × List String)}
    (hpublished : List.Forall₂ (Published classes registry)
      (graph.filter fun entry => entry.1 != root) wired)
    (htypes : mapAll (fun ty => mapDeclared classes .rust (.new root registry)
      (propertyFieldType classes registry ty) ty) (localTypes registry root) = .ok types)
    (hwires : collect TypeDef.wire types = some wires)
    (hown : insertNames root wires [] = .ok own)
    (hnames : insertDependencyNames own wired = .ok names) : Known registry graph names := by
  obtain ⟨hfound, hkept⟩ := lookup_insertDependencyNames hnames
  intro target htarget
  by_cases hroot : target = root
  · have hother : ∀ owner ∈ wired, owner.component ≠ target := by
      intro owner howner
      obtain ⟨entry, hentry, hentryPublished⟩ := exists_left_of_forall₂ hpublished howner
      rw [hentryPublished.component, hroot]
      exact bne_iff_ne.mp (List.mem_filter.mp hentry).2
    unfold insertNames at hown
    split_ifs at hown
    obtain rfl := Except.ok.inj hown
    rw [hkept target hother, hroot, lookup_insert_self, wired_names htypes hwires]
  · obtain ⟨dependencies, hmem⟩ := DependencySearch.exists_entry htarget
    have hfiltered : (target, dependencies) ∈ graph.filter fun entry => entry.1 != root :=
      List.mem_filter.mpr ⟨hmem, bne_iff_ne.mpr hroot⟩
    obtain ⟨owner, howner, hownerPublished⟩ := exists_right_of_forall₂ hpublished hfiltered
    obtain ⟨mapped, hmapped, hcollected⟩ := hownerPublished.types
    have hlookup := hfound owner howner
    rw [hownerPublished.component, wired_names hmapped hcollected] at hlookup
    exact hlookup

end Names

/-! ### Inputs -/

section Inputs

variable {classes : CharClasses} {registry : Registry} {root : String} {op : Operation}

/-- What has been folded comes from the setups. -/
structure Gathered (classes : CharClasses) (registry : Registry) (setups : List Operation)
    (folding : Folding) : Prop where
  injected : ∀ entry ∈ folding.injected, ∃ setup ∈ setups,
    parameterFields classes registry setup = .ok entry.2
  receiver : ∀ setup, folding.receiver = some setup → setup ∈ setups

theorem foldSetup_gathered {setups : List Operation} {folding next : Folding} {setup : Operation}
    (h : Gathered classes registry setups folding) (hsetup : setup ∈ setups)
    (hnext : foldSetup classes registry op folding setup = .ok next) :
    Gathered classes registry setups next := by
  unfold foldSetup at hnext
  cases htarget : targetOf classes op folding.injected setup with
  | error failure =>
    rw [htarget] at hnext
    cases hnext
  | ok target =>
    rw [htarget] at hnext
    cases target with
    | some name =>
      dsimp only at hnext
      cases hfields : parameterFields classes registry setup with
      | error failure =>
        rw [hfields] at hnext
        cases hnext
      | ok fields =>
        rw [hfields] at hnext
        dsimp only at hnext
        split_ifs at hnext
        obtain rfl := Except.ok.inj hnext
        refine ⟨fun entry hentry => ?_, h.receiver⟩
        rcases mem_insert_cases hentry with rfl | hentry
        · exact ⟨setup, hsetup, hfields⟩
        · exact h.injected entry hentry
    | none =>
      dsimp only at hnext
      split_ifs at hnext
      cases hfields : parameterFields classes registry setup with
      | error failure =>
        rw [hfields] at hnext
        cases hnext
      | ok fields =>
        rw [hfields] at hnext
        obtain rfl := Except.ok.inj hnext
        exact ⟨h.injected, fun other hother => Option.some.inj hother ▸ hsetup⟩

theorem foldSetups_gathered {setups rest : List Operation} {folding result : Folding}
    (h : Gathered classes registry setups folding) (hrest : rest ⊆ setups)
    (hresult : foldSetups classes registry op folding rest = .ok result) :
    Gathered classes registry setups result := by
  induction rest generalizing folding with
  | nil =>
    obtain rfl := Except.ok.inj hresult
    exact h
  | cons setup rest ih =>
    unfold foldSetups at hresult
    cases hsetup : foldSetup classes registry op folding setup with
    | error failure =>
      rw [hsetup] at hresult
      cases hresult
    | ok next =>
      rw [hsetup] at hresult
      obtain ⟨hfirst, hothers⟩ := List.cons_subset.mp hrest
      exact ih (foldSetup_gathered h hfirst hsetup) hothers hresult

theorem mem_concatAll {α β : Type} {f : α → Except String (List β)} {items : List α}
    {results : List β} (h : concatAll f items = .ok results) {result : β}
    (hresult : result ∈ results) : ∃ item ∈ items, ∃ part, f item = .ok part ∧ result ∈ part := by
  induction items generalizing results with
  | nil =>
    obtain rfl := Except.ok.inj h
    cases hresult
  | cons first rest ih =>
    unfold concatAll at h
    cases hfirst : f first with
    | error failure =>
      rw [hfirst] at h
      cases h
    | ok front =>
      rw [hfirst] at h
      obtain ⟨back, hback, rfl⟩ := map_eq_ok.mp h
      rcases List.mem_append.mp hresult with hfront | hresult
      · exact ⟨first, List.mem_cons_self, front, hfirst, hfront⟩
      · obtain ⟨item, hitem, hpart⟩ := ih hback hresult
        exact ⟨item, List.mem_cons_of_mem first hitem, hpart⟩

/-- The inputs of a folded operation come from its parameters and its setups. -/
theorem mem_foldedInputs {folded : FoldedOperation}
    (h : foldOperation classes registry op = .ok folded) {input : Field}
    (hinput : input ∈ folded.inputs) :
    (∃ parameter ∈ op.params, ∃ fields, inputsOf classes registry op parameter = .ok fields ∧
      input ∈ fields) ∨
    ∃ setup ∈ setupsFor registry op.component op.name, ∃ fields,
      parameterFields classes registry setup = .ok fields ∧ input ∈ fields := by
  unfold foldOperation foldWith at h
  cases hfold : foldSetups classes registry op ⟨[], none, []⟩
      (setupsFor registry op.component op.name) with
  | error failure =>
    rw [hfold] at h
    cases h
  | ok folding =>
    rw [hfold] at h
    have hgathered : Gathered classes registry (setupsFor registry op.component op.name) folding :=
      foldSetups_gathered ⟨fun entry hentry => (by cases hentry), fun setup hsetup => by cases hsetup⟩
        (List.Subset.refl _) hfold
    dsimp only [finishFold] at h
    split_ifs at h
    cases hinputs : foldedInputs classes registry op folding with
    | error failure =>
      rw [hinputs] at h
      cases h
    | ok inputs =>
      rw [hinputs] at h
      dsimp only at h
      cases hduplicate : duplicateName [] inputs with
      | some duplicate =>
        rw [hduplicate] at h
        cases h
      | none =>
        rw [hduplicate] at h
        obtain rfl := Except.ok.inj h
        unfold foldedInputs at hinputs
        split at hinputs
        · cases hinputs
        · rename_i constructed hconstructed
          obtain ⟨others, hothers, rfl⟩ := map_eq_ok.mp hinputs
          rcases List.mem_append.mp hinput with hinput | hinput
          · refine .inr ?_
            split at hconstructed
            · rename_i setup hreceiver
              exact ⟨setup, hgathered.receiver setup hreceiver, constructed, hconstructed, hinput⟩
            · obtain rfl := Except.ok.inj hconstructed
              cases hinput
          · obtain ⟨parameter, hparameter, part, hpart, hinput⟩ := mem_concatAll hothers hinput
            cases hlookup : lookup folding.injected parameter.name with
            | some injected =>
              rw [hlookup] at hpart
              obtain rfl := Except.ok.inj hpart
              obtain ⟨setup, hsetup, hfields⟩ := hgathered.injected _ (mem_of_lookup hlookup)
              exact .inr ⟨setup, hsetup, injected, hfields, hinput⟩
            | none =>
              rw [hlookup] at hpart
              exact .inl ⟨parameter, hparameter, part, hpart, hinput⟩

end Inputs

/-! ### Outcomes -/

section Syntax

variable {classes : CharClasses} {registry : Registry} {component : String}
  {context : TypeContext}

theorem plain_of_isFieldChar {c : Char} (h : isFieldChar classes c = true) :
    isSpecial c = false ∧ classes.isWhitespace c = false ∧ c ≠ ':' := by
  refine ⟨?_, ?_, fun heq => ?_⟩
  · rw [Bool.eq_false_iff]
    intro hspecial
    have hsign := List.all_eq_true.mp (show
      (['<', '>', ',', '&', '[', ']', '(', ')'].all fun c =>
        decide (c.toNat < 128 ∧ c.isAlphanum = false ∧ c ≠ '_')) = true by decide) c
      (List.contains_iff_mem.mp hspecial)
    obtain ⟨hascii, halnum, hne⟩ := of_decide_eq_true hsign
    rw [isFieldChar_ascii hascii halnum hne] at h
    cases h
  · refine nameChar_not_whitespace ?_
    unfold isFieldChar at h
    unfold isNameChar
    rw [h]
    rfl
  · rw [heq, isFieldChar_ascii (by decide) (by decide) (by decide)] at h
    cases h

/-- A word as an identifier. -/
def identOf {name : String} (h : IsName classes name) (hkeyword : name ≠ "mut") :
    SynTypes.Ident classes where
  text := name
  nonempty := h.1
  plain c hc := plain_of_isFieldChar (h.2 c hc)
  no_quote hquote := by
    have hmem : '\'' ∈ name.toList := List.mem_of_mem_head? hquote
    have hfield := h.2 '\'' hmem
    rw [isFieldChar_ascii (by decide) (by decide) (by decide)] at hfield
    cases hfield
  not_mut := hkeyword

theorem name_of_reached {name : String} (hplain : PlainNames classes registry)
    (hreached : builtin name = false → Reached registry component context [name])
    (hunit : name ≠ "()") (hpath : rsplitPath name.toList = none) :
    IsName classes name ∧ name ≠ "mut" := by
  refine ⟨isName_of_reached hplain hreached hunit hpath, fun heq => ?_⟩
  have hbuiltin : builtin name = false := by
    rw [heq]
    decide
  obtain ⟨target, howns, -⟩ := hreached hbuiltin name (List.mem_singleton.mpr rfl)
  obtain ⟨ty, hty, -, hname⟩ := Owns.registered howns
  exact hplain.keyword ty hty (hname.trans heq)

mutual

/-- A type with names that are reached can be written down and read back. -/
theorem exists_syn (hplain : PlainNames classes registry) (type : RustType)
    (hpathless : pathless type = true)
    (hreached : Reached registry component context (appendRefs type)) :
    ∃ syn : SynTypes.SynType classes, SynTypes.rustType syn = type ∧
      SynTypes.readable syn = true := by
  cases type with
  | named name args =>
    obtain ⟨hunit, hpath, hargs⟩ := pathless_parts hpathless
    obtain ⟨hname, hreachedArgs⟩ := reached_named hreached
    by_cases hnamed : name = "()"
    · refine ⟨.tuple [] false, ?_, rfl⟩
      rw [hunit hnamed, hnamed]
      rfl
    · obtain ⟨hword, hkeyword⟩ := name_of_reached hplain hname hnamed (hpath hnamed)
      cases args with
      | nil => exact ⟨.path false [] (identOf hword hkeyword), rfl, rfl⟩
      | cons first rest =>
        obtain ⟨syns, hsyns, hreadable⟩ := exists_syns hplain (first :: rest) hargs hreachedArgs
        refine ⟨.generic false [] (identOf hword hkeyword) syns false, ?_, ?_⟩
        · rw [SynTypes.rustType, hsyns]
          rfl
        · cases syns with
          | nil => cases hsyns
          | cons syn others =>
            rw [SynTypes.readable, hreadable]
            rfl
  | ref inner =>
    obtain ⟨syn, hsyn, hreadable⟩ := exists_syn hplain inner hpathless hreached
    exact ⟨.reference none false syn, congrArg RustType.ref hsyn, hreadable⟩
  | slice inner =>
    obtain ⟨syn, hsyn, hreadable⟩ := exists_syn hplain inner hpathless hreached
    exact ⟨.slice syn, congrArg RustType.slice hsyn, hreadable⟩
  | tuple items =>
    rw [pathless, Bool.and_eq_true, Bool.not_eq_true', List.isEmpty_eq_false_iff] at hpathless
    obtain ⟨syns, hsyns, hreadable⟩ := exists_syns hplain items hpathless.2 hreached
    refine ⟨.tuple syns true, ?_, hreadable⟩
    cases syns with
    | nil =>
      rw [SynTypes.rustTypes] at hsyns
      exact absurd hsyns.symm hpathless.1
    | cons syn others => exact congrArg RustType.tuple hsyns
termination_by structural type

theorem exists_syns (hplain : PlainNames classes registry) (types : List RustType)
    (hpathless : pathlessAll types = true)
    (hreached : Reached registry component context (appendAllRefs types)) :
    ∃ syns : List (SynTypes.SynType classes), SynTypes.rustTypes syns = types ∧
      SynTypes.readableAll syns = true := by
  cases types with
  | nil => exact ⟨[], rfl, rfl⟩
  | cons type rest =>
    rw [pathlessAll, Bool.and_eq_true] at hpathless
    rw [appendAllRefs] at hreached
    obtain ⟨syn, hsyn, hreadable⟩ := exists_syn hplain type hpathless.1 hreached.append_left
    obtain ⟨syns, hsyns, hreadables⟩ := exists_syns hplain rest hpathless.2 hreached.append_right
    refine ⟨syn :: syns, ?_, ?_⟩
    · rw [SynTypes.rustTypes, hsyn, hsyns]
    · rw [SynTypes.readableAll, hreadable, hreadables]
      rfl
termination_by structural types

end

end Syntax

section Outcomes

open TypeTree

variable {classes : CharClasses} {registry : Registry} {component : String}
  {context : TypeContext}

theorem text_last (tree : TypeTree) (hnames : ∀ name ∈ tree.names, Spoken classes name) :
    ∃ front c, tree.text = front ++ [c] ∧ classes.isWhitespace c = false := by
  cases tree with
  | leaf name =>
    obtain ⟨hne, hchars⟩ := hnames name (List.mem_singleton.mpr rfl)
    refine ⟨name.toList.dropLast, name.toList.getLast hne, ?_, ?_⟩
    · exact (List.dropLast_append_getLast hne).symm
    · exact nameChar_not_whitespace (hchars _ (List.getLast_mem hne))
  | apply head args =>
    refine ⟨head.toList ++ '<' :: textArgs args, '>', ?_, not_whitespace (by decide) (by decide)⟩
    rw [text]
    simp

/-- Nothing is trimmed from a reference. -/
theorem trim_text {tree : TypeTree} (hnames : ∀ name ∈ tree.names, Spoken classes name)
    (happlied : tree.applied = true) : TypeExpressions.trim classes tree.text = tree.text := by
  obtain ⟨c, word, hword, hc⟩ := text_cons tree hnames happlied
  obtain ⟨front, last, hlast, hspace⟩ := text_last tree hnames
  have hfirst : tree.text.dropWhile classes.isWhitespace = tree.text := by
    rw [hword, List.dropWhile_cons, nameChar_not_whitespace hc, if_neg Bool.false_ne_true]
  have hreverse : tree.text.reverse.dropWhile classes.isWhitespace = tree.text.reverse := by
    rw [hlast, List.reverse_append, List.reverse_singleton, List.singleton_append,
      List.dropWhile_cons, hspace, if_neg Bool.false_ne_true]
  unfold TypeExpressions.trim
  rw [hfirst, hreverse, List.reverse_reverse]

/-- A reference is taken for unit exactly if it is the name of unit. -/
theorem isUnit_text {tree : TypeTree} (hnames : ∀ name ∈ tree.names, Spoken classes name)
    (happlied : tree.applied = true) :
    TypeExpressions.isUnit classes (String.ofList tree.text) = true ↔ tree = .leaf "unit" := by
  unfold TypeExpressions.isUnit
  rw [String.toList_ofList, trim_text hnames happlied]
  constructor
  · intro h
    obtain ⟨c, word, hword, hc⟩ := text_cons tree hnames happlied
    have hmem := List.contains_iff_mem.mp h
    have htext : ∀ {expected : String}, String.ofList tree.text = expected →
        tree.text = expected.toList := by
      intro expected heq
      rw [← heq, String.toList_ofList]
    simp only [List.mem_cons, List.not_mem_nil, or_false] at hmem
    rcases hmem with hmem | hmem | hmem
    · rw [htext hmem] at hword
      cases hword
    · have hparen := (List.cons.inj ((htext hmem).symm.trans hword)).1
      rw [← hparen, nameChar_ascii (by decide) (by decide) (by decide)] at hc
      cases hc
    · cases tree with
      | leaf name => exact congrArg TypeTree.leaf (String.toList_inj.mp (htext hmem))
      | apply head args =>
        have hopen : '<' ∈ "unit".toList := by
          rw [← htext hmem, text]
          simp
        exact absurd hopen (by decide)
  · rintro rfl
    rfl

theorem constructGeneric_ne_primitive {head name : String} {args : List ReplayType} :
    constructGeneric head args ≠ .ok (.primitive name) := by
  intro h
  unfold constructGeneric at h
  split_ifs at h
  all_goals first
    | cases h
    | (split at h <;> cases h)

theorem denote_eq_unit {tree : TypeTree} (h : denote context tree = .ok (.primitive "unit")) :
    tree = .leaf "unit" := by
  cases tree with
  | leaf name =>
    rw [denote] at h
    by_cases hprimitive : isPrimitive name = true
    · rw [if_pos hprimitive] at h
      have hname := Except.ok.inj h
      rw [ReplayModel.ReplayType.primitive.injEq] at hname
      rw [hname]
    · rw [if_neg hprimitive, TypeContext.namedType] at h
      split at h
      · dsimp only at h
        split_ifs at h <;> cases h
      · split_ifs at h
        cases h
  | apply head args =>
    rw [denote] at h
    obtain ⟨arguments, -, h⟩ := bind_eq_ok.mp h
    exact absurd h constructGeneric_ne_primitive

theorem payload_of_ne {type : ReplayType} (h : type ≠ .primitive "unit") :
    payload type = some type := by
  unfold payload
  split
  · exact absurd rfl h
  · rfl

/-- The outcome of a type is the payload that it means. -/
theorem outcomeType_means {type : RustType} {value : Option ReplayType}
    (hreadable : Readable classes registry component context) (hpathless : pathless type = true)
    (hreached : Reached registry component context (appendRefs type))
    (h : NormalizedSchemas.outcomeType classes context
      ((Qualifier.new component registry).qualify classes (mapRust type).refString) = .ok value) :
    payloadMeaning registry component type = some value := by
  have hwords := words_typeTree hreadable.plain type hpathless hreached
  have hmeaning := denote_typeTree hreadable.plain hreadable.serves type hpathless hreached
  have hspoken : ∀ name ∈ ((typeTree type).rename (Qualifier.new component registry).name).names,
      Spoken classes name := by
    intro other hother
    rw [names_rename] at hother
    obtain ⟨name, hname, rfl⟩ := List.mem_map.mp hother
    exact spoken_name hreadable.plain (hwords name hname)
  have happlied : ((typeTree type).rename (Qualifier.new component registry).name).applied = true := by
    rw [applied_rename]
    exact applied_typeTree type
  rw [qualify_refString hwords] at h
  unfold NormalizedSchemas.outcomeType at h
  unfold payloadMeaning
  by_cases hunit : TypeExpressions.isUnit classes (String.ofList
      ((typeTree type).rename (Qualifier.new component registry).name).text) = true
  · rw [if_pos hunit] at h
    obtain rfl := Except.ok.inj h
    rw [← hmeaning, (isUnit_text hspoken happlied).mp hunit]
    rfl
  · rw [if_neg hunit, typeRef_text hspoken happlied] at h
    obtain ⟨read, hread, rfl⟩ := map_eq_ok.mp h
    rw [hread] at hmeaning
    have hne : read ≠ .primitive "unit" := by
      rintro rfl
      exact hunit ((isUnit_text hspoken happlied).mpr (denote_eq_unit hread))
    rw [← hmeaning]
    exact congrArg some (payload_of_ne hne)

theorem isUnitType_iff {type : RustType} : isUnitType type = true ↔ type = .named "()" [] := by
  unfold isUnitType
  split
  · rename_i name
    rw [beq_iff_eq]
    exact ⟨fun h => h ▸ rfl, fun h => (RustType.named.inj h).1⟩
  · rename_i hother
    exact iff_of_false Bool.false_ne_true fun h => hother _ h

/-- A part of a return type is mapped from its own text. -/
theorem mapped_render {type : RustType} (hplain : PlainNames classes registry)
    (hpathless : pathless type = true)
    (hreached : Reached registry component context (appendRefs type)) :
    mapped classes .rust (render type) = .ok (mapRust type).refString ∧
      RustTypes.isUnit classes (render type) = isUnitType type := by
  obtain ⟨syn, rfl, hreadable⟩ := exists_syn hplain type hpathless hreached
  constructor
  · rw [mapped, mapType, SynTypes.parse_render hreadable]
    rfl
  · rw [Bool.eq_iff_iff, SynTypes.isUnit_render hreadable, isUnitType_iff]

theorem mapped_parsed {text : String} {type : RustType} (hparse : parse classes text = some type) :
    mapped classes .rust text = .ok (mapRust type).refString := by
  rw [mapped, mapType, hparse]
  rfl

theorem tokenizeFrom_flat (word text : List Char) :
    (tokenizeFrom classes word text).flatMap String.toList = word ++ SynTypes.solid classes text := by
  induction text generalizing word with
  | nil => rw [tokenizeFrom, SynTypes.flush_flat, SynTypes.solid, List.filter_nil, List.append_nil]
  | cons c rest ih =>
    unfold tokenizeFrom SynTypes.solid
    by_cases hspecial : isSpecial c = true
    · rw [if_pos hspecial, List.flatMap_append, SynTypes.flush_flat, List.flatMap_cons, ih,
        List.filter_cons_of_pos (by rw [SynTypes.special_not_whitespace hspecial]; rfl),
        Char.toString_eq_singleton, String.toList_singleton]
      rfl
    · rw [if_neg hspecial]
      by_cases hspace : classes.isWhitespace c = true
      · rw [if_pos hspace, List.flatMap_append, SynTypes.flush_flat, ih, List.nil_append,
          List.filter_cons_of_neg (by rw [hspace]; decide)]
        rfl
      · rw [if_neg hspace, ih, List.append_assoc,
          List.filter_cons_of_pos (by simpa using hspace)]
        rfl

theorem flush_nonempty {word : List Char} : ∀ token ∈ flush word, token.toList ≠ [] := by
  intro token htoken
  unfold flush at htoken
  split_ifs at htoken with hempty
  · cases htoken
  · rw [List.mem_singleton.mp htoken, String.toList_ofList]
    exact fun hnil => hempty (List.isEmpty_iff.mpr hnil)

theorem tokenizeFrom_nonempty (word text : List Char) :
    ∀ token ∈ tokenizeFrom classes word text, token.toList ≠ [] := by
  induction text generalizing word with
  | nil => exact flush_nonempty
  | cons c rest ih =>
    unfold tokenizeFrom
    split_ifs
    · rw [List.forall_mem_append, List.forall_mem_cons]
      refine ⟨flush_nonempty, ?_, ih []⟩
      rw [Char.toString_eq_singleton, String.toList_singleton]
      exact List.cons_ne_nil c []
    · rw [List.forall_mem_append]
      exact ⟨flush_nonempty, ih []⟩
    · exact ih (word ++ [c])

/-- Only one text without its blanks has these tokens. -/
theorem tokens_of_parens {tokens : List String} (htokens : Tokens tokens)
    (hnonempty : ∀ token ∈ tokens, token.toList ≠ [])
    (hflat : tokens.flatMap String.toList = ['(', ')']) : tokens = ["(", ")"] := by
  cases tokens with
  | nil => cases hflat
  | cons first rest =>
    rw [List.forall_mem_cons] at hnonempty
    obtain ⟨c, word, hword⟩ := List.exists_cons_of_ne_nil hnonempty.1
    rw [List.flatMap_cons, hword, List.cons_append] at hflat
    obtain ⟨rfl, hrest⟩ := List.cons.inj hflat
    have hfirst : first = "(" := htokens first List.mem_cons_self (hword ▸ List.mem_cons_self)
    have hword' : word = [] := by
      rw [hfirst] at hword
      exact (List.cons.inj hword).2.symm
    rw [hword', List.nil_append] at hrest
    cases rest with
    | nil => cases hrest
    | cons second others =>
      rw [List.forall_mem_cons] at hnonempty
      obtain ⟨d, more, hmore⟩ := List.exists_cons_of_ne_nil hnonempty.2.1
      rw [List.flatMap_cons, hmore, List.cons_append] at hrest
      obtain ⟨rfl, hend⟩ := List.cons.inj hrest
      obtain ⟨rfl, hothers⟩ := List.append_eq_nil_iff.mp hend
      have hsecond : second = ")" := String.toList_inj.mp hmore
      have hnone : others = [] := by
        cases others with
        | nil => rfl
        | cons third more =>
          rw [List.flatMap_cons] at hothers
          exact absurd (List.append_eq_nil_iff.mp hothers).1
            (hnonempty.2.2 third List.mem_cons_self)
      rw [hfirst, hsecond, hnone]

theorem parsed_unit {text : String} {type : RustType} (hparse : parse classes text = some type)
    (hunit : RustTypes.isUnit classes text = true) : type = .named "()" [] := by
  have hflat : (tokenizeType classes text.toList).flatMap String.toList =
      SynTypes.solid classes text.toList := tokenizeFrom_flat [] text.toList
  unfold parse at hparse
  rcases SynTypes.solid_of_isUnit hunit with hempty | hparens
  · rw [hempty] at hflat
    have hnone : tokenizeType classes text.toList = [] := by
      cases htokens : tokenizeType classes text.toList with
      | nil => rfl
      | cons token rest =>
        rw [htokens, List.flatMap_cons] at hflat
        have hne : token.toList ≠ [] := tokenizeFrom_nonempty [] text.toList token
          (by rw [← tokenizeType, htokens]; exact List.mem_cons_self)
        exact absurd (List.append_eq_nil_iff.mp hflat).1 hne
    rw [hnone] at hparse
    cases hparse
  · rw [hparens] at hflat
    have htokens : tokenizeType classes text.toList = ["(", ")"] :=
      tokens_of_parens (token_tokenizeFrom List.not_mem_nil _) (tokenizeFrom_nonempty [] _) hflat
    rw [htokens] at hparse
    exact (Option.some.inj hparse).symm

/-- What the encoder makes of an outcome of discovery. -/
structure OutcomeRead (classes : CharClasses) (registry : Registry) (component : String)
    (context : TypeContext) (outcome : DiscoveredOutcome) (read : NormalizedSchemas.Outcomes) :
    Prop where
  result : NormalizedSchemas.outcomeType classes context
    ((outcome.output.map ((Qualifier.new component registry).qualify classes)).getD "") =
      .ok read.result
  empty : read.empty = outcome.empty
  errors : List.Forall₂ (fun (error : NormalizedSchemas.ErrorDeclaration)
      (declared : NormalizedSchemas.ErrorOutcome) => declared.name = error.name ∧
        NormalizedSchemas.outcomeType classes context
          ((Qualifier.new component registry).qualify classes error.ty) = .ok declared.valueType)
    outcome.errors read.errors

/-- An outcome that is a single value. -/
theorem single_means {type : RustType} {read : NormalizedSchemas.Outcomes} {empty : Bool}
    (hreadable : Readable classes registry component context) (hpathless : pathless type = true)
    (hreached : Reached registry component context (appendRefs type))
    (h : OutcomeRead classes registry component context
      ⟨some (mapRust type).refString, empty, []⟩ read) :
    (payloadMeaning registry component type).map (fun value => ⟨value, empty, []⟩) = some read := by
  obtain ⟨result, found, errors⟩ := read
  obtain ⟨hresult, hempty, herrors⟩ := h
  obtain rfl : errors = [] := List.forall₂_nil_left_iff.mp herrors
  obtain rfl : found = empty := hempty
  rw [outcomeType_means hreadable hpathless hreached hresult]
  rfl

theorem outcome_means {text : String} {type : RustType} {outcome : DiscoveredOutcome}
    {read : NormalizedSchemas.Outcomes}
    (hreadable : Readable classes registry component context)
    (hparse : parse classes text = some type)
    (hreached : Reached registry component context (appendRefs type))
    (houtcome : operationOutcome classes text .rust = .ok outcome)
    (h : OutcomeRead classes registry component context outcome read) :
    outcomeMeaning registry component type = some read := by
  have hpathless := pathless_of_parse hparse
  have hwhole : ∀ {found : DiscoveredOutcome}, (do
      let output ← mapped classes .rust text
      return ⟨some output, false, []⟩ : Except String DiscoveredOutcome) = .ok found →
      OutcomeRead classes registry component context found read →
        (payloadMeaning registry component type).map (fun value => ⟨value, false, []⟩) =
          some read := by
    intro found hfound hread
    rw [mapped_parsed hparse] at hfound
    obtain rfl := Except.ok.inj hfound
    exact single_means hreadable hpathless hreached hread
  unfold operationOutcome at houtcome
  by_cases hunit : RustTypes.isUnit classes text = true
  · rw [if_pos hunit] at houtcome
    obtain rfl := Except.ok.inj houtcome
    obtain rfl := parsed_unit hparse hunit
    obtain ⟨result, empty, errors⟩ := read
    obtain ⟨hresult, hempty, herrors⟩ := h
    obtain rfl : errors = [] := List.forall₂_nil_left_iff.mp herrors
    obtain rfl : empty = false := hempty
    obtain rfl := Except.ok.inj hresult
    rfl
  rw [if_neg hunit, hparse] at houtcome
  unfold parsedOutcome at houtcome
  split at houtcome
  · rename_i name item htype
    obtain rfl := Option.some.inj htype
    have hitemPathless : pathless item = true := by
      have hargs := (pathless_parts hpathless).2.2
      rw [pathlessAll, Bool.and_eq_true] at hargs
      exact hargs.1
    have hitemReached : Reached registry component context (appendRefs item) := by
      have hargs := (reached_named hreached).2
      rw [appendAllRefs] at hargs
      exact hargs.append_left
    obtain ⟨hmapped, hitemUnit⟩ := mapped_render hreadable.plain hitemPathless hitemReached
    rw [outcomeMeaning]
    split_ifs at houtcome with hoption
    · subst hoption
      dsimp only at houtcome
      rw [hmapped, hitemUnit] at houtcome
      cases hunitItem : isUnitType item with
      | true =>
        rw [hunitItem] at houtcome
        obtain rfl := isUnitType_iff.mp hunitItem
        obtain rfl := Except.ok.inj houtcome
        rw [if_neg (fun hboth => by cases hboth.2)]
        exact single_means hreadable hpathless hreached h
      | false =>
        rw [hunitItem] at houtcome
        obtain rfl := Except.ok.inj houtcome
        rw [if_pos ⟨rfl, rfl⟩]
        exact single_means hreadable hitemPathless hitemReached h
    · rw [if_neg (fun hboth => hoption hboth.1)]
      exact hwhole houtcome h
  · rename_i name item failure htype
    obtain rfl := Option.some.inj htype
    have hargs := (pathless_parts hpathless).2.2
    rw [pathlessAll, pathlessAll, Bool.and_eq_true, Bool.and_eq_true] at hargs
    have hreachedArgs := (reached_named hreached).2
    rw [appendAllRefs, appendAllRefs] at hreachedArgs
    have hitemReached := hreachedArgs.append_left
    have hfailureReached := hreachedArgs.append_right.append_left
    rw [outcomeMeaning]
    split_ifs at houtcome with hresult
    · rw [if_pos hresult]
      obtain ⟨hmapped, hitemUnit⟩ := mapped_render hreadable.plain hargs.1 hitemReached
      obtain ⟨hmappedFailure, -⟩ := mapped_render hreadable.plain hargs.2.1 hfailureReached
      dsimp only at houtcome
      rw [hmapped, hitemUnit, hmappedFailure] at houtcome
      have hfound : outcome = ⟨if isUnitType item = true then none else
          some (mapRust item).refString, false, [⟨"error", (mapRust failure).refString⟩]⟩ := by
        cases hunitItem : isUnitType item with
        | true =>
          rw [hunitItem, if_pos rfl] at houtcome
          exact (Except.ok.inj houtcome).symm
        | false =>
          rw [hunitItem, if_neg Bool.false_ne_true] at houtcome
          exact (Except.ok.inj houtcome).symm
      subst hfound
      obtain ⟨result, empty, errors⟩ := read
      obtain ⟨hread, hempty, herrors⟩ := h
      obtain ⟨declared, others, ⟨hname, hvalue⟩, hothers, rfl⟩ :=
        List.forall₂_cons_left_iff.mp herrors
      obtain rfl := List.forall₂_nil_left_iff.mp hothers
      obtain rfl : empty = false := hempty
      obtain ⟨declaredName, value⟩ := declared
      obtain rfl : declaredName = "error" := hname
      have hpaid : payloadMeaning registry component item = some result := by
        dsimp only at hread
        cases hunitItem : isUnitType item with
        | true =>
          rw [hunitItem, if_pos rfl] at hread
          obtain rfl := isUnitType_iff.mp hunitItem
          obtain rfl := Except.ok.inj hread
          rfl
        | false =>
          rw [hunitItem, if_neg Bool.false_ne_true] at hread
          exact outcomeType_means hreadable hargs.1 hitemReached hread
      rw [hpaid, outcomeType_means hreadable hargs.2.1 hfailureReached hvalue]
      rfl
    · rw [if_neg hresult]
      exact hwhole houtcome h
  · rename_i hone htwo
    have hother : outcomeMeaning registry component type =
        (payloadMeaning registry component type).map fun value => ⟨value, false, []⟩ := by
      unfold outcomeMeaning
      split
      · exact absurd rfl (hone _ _)
      · exact absurd rfl (htwo _ _ _)
      · rfl
    rw [hother]
    exact hwhole houtcome h

end Outcomes

/-! ### Operations -/

section Operations

variable {classes : CharClasses} {registry : Registry} {root : String}
  {graph names : List (String × List String)} {dependencies : List String} {op : Operation}

/-- A registered operation and a declared one: the inputs with the setups folded in, and the
outcomes of the return type. -/
structure OperationMeans (classes : CharClasses) (registry : Registry) (component : String)
    (op : Operation) (declared : NormalizedSchemas.Operation) : Prop where
  name : declared.name = op.name
  inputs : ∃ folded, foldOperation classes registry op = .ok folded ∧
    List.Forall₂ (InputMeans classes registry component) folded.inputs declared.inputs
  observations : declared.observations = []
  outcomes : ∃ parsed, parse classes op.returnType = some parsed ∧
    outcomeMeaning registry component parsed = some declared.outcomes

theorem operationReferences_reached
    (hgraph : dependencyGraph classes registry root = .ok graph)
    (hentry : (root, dependencies) ∈ graph) (hop : op ∈ surface registry root) :
    ∃ part, operationReferences classes registry op = .ok part ∧
      Reached registry root ⟨root, dependencies, names⟩ part := by
  obtain ⟨referred, hreferred⟩ := references_of_entry hgraph hentry
  have hreached : Reached registry root ⟨root, dependencies, names⟩ referred :=
    reached_of_entry hgraph hentry hreferred
  rw [traversalOf, if_pos rfl] at hreferred
  obtain ⟨operations, hoperations, hreferred⟩ := bind_eq_ok.mp hreferred
  obtain ⟨types, -, hreferred⟩ := bind_eq_ok.mp hreferred
  obtain rfl := Except.ok.inj hreferred
  obtain ⟨part, hpart, hsubset⟩ := concatAll_subset hoperations hop
  exact ⟨part, hpart, Reached.of_subset hreached
    (List.Subset.trans hsubset (List.subset_append_left operations types))⟩

theorem parameter_reached (hgraph : dependencyGraph classes registry root = .ok graph)
    (hentry : (root, dependencies) ∈ graph) (hop : op ∈ surface registry root)
    {fields : List Field} (hfields : parameterFields classes registry op = .ok fields)
    {input : Field} (hinput : input ∈ fields) :
    Reached registry root ⟨root, dependencies, names⟩ (collectRefs classes input.ty) := by
  obtain ⟨part, hpart, hreached⟩ := operationReferences_reached hgraph hentry hop
  obtain ⟨parameters, hparameters, hpart⟩ := bind_eq_ok.mp hpart
  obtain rfl := Except.ok.inj hpart
  obtain rfl := Except.ok.inj (hparameters.symm.trans hfields)
  refine Reached.of_subset hreached fun name hname => List.mem_append_left _ ?_
  exact List.mem_flatMap.mpr ⟨input, hinput, hname⟩

theorem mem_surface (hop : op ∈ operationsFor registry root) :
    op ∈ surface registry root ∧
      ∀ setup ∈ setupsFor registry op.component op.name, setup ∈ surface registry root := by
  obtain ⟨hregistered, hplain, rfl⟩ := mem_operationsFor.mp hop
  have hname : op.name ∈ (registry.ops.filter fun candidate =>
      !candidate.isSetup && candidate.component == op.component).map Operation.name := by
    refine List.mem_map_of_mem (List.mem_filter.mpr ⟨hregistered, ?_⟩)
    rw [hplain, beq_self_eq_true]
    rfl
  refine ⟨List.mem_filter.mpr ⟨hregistered, ?_⟩, fun setup hsetup => ?_⟩
  · rw [hplain, beq_self_eq_true]
    rfl
  · obtain ⟨hmem, hboth⟩ := List.mem_filter.mp hsetup
    rw [Bool.and_eq_true, Bool.and_eq_true, beq_iff_eq, beq_iff_eq] at hboth
    refine List.mem_filter.mpr ⟨hmem, ?_⟩
    rw [hboth.1.2, hboth.2, beq_self_eq_true, List.contains_iff_mem.mpr hname, Bool.or_true]
    rfl

/-- The names in the inputs of a folded operation are reached. -/
theorem inputs_reached (hgraph : dependencyGraph classes registry root = .ok graph)
    (hentry : (root, dependencies) ∈ graph) (hop : op ∈ operationsFor registry root)
    {folded : FoldedOperation} (hfolded : foldOperation classes registry op = .ok folded) :
    ∀ input ∈ folded.inputs,
      Reached registry root ⟨root, dependencies, names⟩ (collectRefs classes input.ty) := by
  obtain ⟨hsurface, hsetups⟩ := mem_surface hop
  intro input hinput
  rcases mem_foldedInputs hfolded hinput with
    ⟨parameter, hparameter, fields, hfields, hinput⟩ | ⟨setup, hsetup, fields, hfields, hinput⟩
  · obtain ⟨part, hpart, -⟩ : ∃ part, operationReferences classes registry op = .ok part ∧
        Reached registry root ⟨root, dependencies, names⟩ part :=
      operationReferences_reached hgraph hentry hsurface
    obtain ⟨parameters, hparameters, -⟩ := bind_eq_ok.mp hpart
    obtain ⟨own, hown, hsubset⟩ := concatAll_subset hparameters hparameter
    obtain rfl := Except.ok.inj (hown.symm.trans hfields)
    exact parameter_reached hgraph hentry hsurface hparameters (hsubset hinput)
  · exact parameter_reached hgraph hentry (hsetups setup hsetup) hfields hinput

theorem return_reached (hgraph : dependencyGraph classes registry root = .ok graph)
    (hentry : (root, dependencies) ∈ graph) (hop : op ∈ operationsFor registry root) :
    Reached registry root ⟨root, dependencies, names⟩ (collectRefs classes op.returnType) := by
  obtain ⟨part, hpart, hreached⟩ : ∃ part, operationReferences classes registry op = .ok part ∧
      Reached registry root ⟨root, dependencies, names⟩ part :=
    operationReferences_reached hgraph hentry (mem_surface hop).1
  obtain ⟨parameters, -, hpart⟩ := bind_eq_ok.mp hpart
  obtain rfl := Except.ok.inj hpart
  exact hreached.append_right

/-- A declared operation has the meaning of the registered one. -/
theorem operation_means {operation : SchemaOperation} {declared : NormalizedSchemas.Operation}
    (hreadable : Readable classes registry root ⟨root, dependencies, names⟩)
    (hgraph : dependencyGraph classes registry root = .ok graph)
    (hentry : (root, dependencies) ∈ graph) (hop : op ∈ operationsFor registry root)
    (hspelled : validateSyntax classes registry = .ok ())
    (hmapped : mapOperation classes registry .rust (.new root registry) op = .ok operation)
    (hread : NormalizedSchemas.SchemaOperation.toCtsc classes ⟨root, dependencies, names⟩
      operation.wire = .ok declared) : OperationMeans classes registry root op declared := by
  obtain ⟨folded, hfolded, hmapped⟩ := bind_eq_ok.mp hmapped
  obtain ⟨outcome, houtcome, hmapped⟩ := bind_eq_ok.mp hmapped
  obtain ⟨inputs, hinputs, hmapped⟩ := bind_eq_ok.mp hmapped
  obtain ⟨setups, -, hmapped⟩ := bind_eq_ok.mp hmapped
  obtain rfl := Except.ok.inj hmapped
  obtain ⟨fields, hfields, hread⟩ := bind_eq_ok.mp hread
  obtain ⟨result, hresult, hread⟩ := bind_eq_ok.mp hread
  obtain ⟨errors, herrors, hread⟩ := bind_eq_ok.mp hread
  obtain rfl := Except.ok.inj hread
  have hregistered := (mem_operationsFor.mp hop).1
  obtain ⟨parsed, hparsed⟩ : ∃ parsed, parse classes op.returnType = some parsed := by
    obtain ⟨_, hops, -⟩ := bind_eq_ok.mp hspelled
    obtain ⟨mappedReturn, hreturn, -⟩ := bind_eq_ok.mp (forM_eq_ok.mp hops op hregistered)
    cases hparse : parse classes op.returnType with
    | some parsed => exact ⟨parsed, rfl⟩
    | none =>
      rw [mapType, hparse] at hreturn
      cases hreturn
  have hreturnReached : Reached registry root ⟨root, dependencies, names⟩ (appendRefs parsed) := by
    have hreached : Reached registry root ⟨root, dependencies, names⟩
      (collectRefs classes op.returnType) := return_reached hgraph hentry hop
    rw [collectRefs, hparsed] at hreached
    exact hreached
  have herrorsRead := mapAll_eq_ok.mp herrors
  rw [SchemaOperation.wire, List.forall₂_map_left_iff] at herrorsRead
  exact {
    name := rfl
    inputs := ⟨folded, hfolded, mapFields_mean hreadable
      (inputs_reached hgraph hentry hop hfolded) hinputs hfields⟩
    observations := rfl
    outcomes := ⟨parsed, hparsed, outcome_means hreadable hparsed hreturnReached houtcome {
      result := hresult
      empty := rfl
      errors := herrorsRead.imp fun error declared hdeclared => by
        obtain ⟨value, hvalue, hdeclared⟩ := bind_eq_ok.mp hdeclared
        obtain rfl := Except.ok.inj hdeclared
        exact ⟨rfl, hvalue⟩ }⟩ }

end Operations

/-! ### Components -/

section Components

open NormalizedSchemas (appendComponents DependencyTypes)

variable {classes : CharClasses} {registry : Registry} {root component : String}

/-- A component of the registry declares what is registered for it, in order: its types, and if it
is the first one, its operations. -/
structure ComponentMeans (classes : CharClasses) (registry : Registry) (root : String)
    (component : NormalizedSchemas.Component) : Prop where
  types : List.Forall₂ (fun ty declared => declared.name = ty.name ∧
      ShapeMeans classes registry component.id ty declared.shape)
    (localTypes registry component.id) component.types
  operations : List.Forall₂ (OperationMeans classes registry root)
    (if component.id = root then operationsFor registry root else []) component.operations

theorem pairwise_names {α β : Type} {name : α → String} {declaredName : β → String}
    {R : α → β → Prop} {values : List α} {declared : List β} (h : List.Forall₂ R values declared)
    (hname : ∀ value result, R value result → declaredName result = name value)
    (hsorted : values.Pairwise fun a b => (compare (name a) (name b)).isLE = true) :
    sortBy declaredName declared = declared := by
  refine sortBy_eq_self ?_
  have hsame : declared.map declaredName = values.map name := by
    rw [← List.forall₂_eq_eq_eq, List.forall₂_map_left_iff, List.forall₂_map_right_iff]
    exact h.flip.imp fun result value hpair => hname value result hpair
  rw [← List.pairwise_map (f := name) (R := fun a b => (compare a b).isLE = true), ← hsame,
    List.pairwise_map] at hsorted
  exact hsorted

/-- The types of a component of the graph as they are declared. -/
theorem types_mean {graph names : List (String × List String)} {dependencies : List String}
    {mapped : List TypeDef} {wires : List NormalizedSchemas.SchemaType} {types : List NormalizedSchemas.NamedType}
    (hreadable : Readable classes registry component ⟨component, dependencies, names⟩)
    (hgraph : dependencyGraph classes registry root = .ok graph)
    (hentry : (component, dependencies) ∈ graph)
    (hmapped : mapAll (fun ty => mapDeclared classes .rust (.new component registry)
      (propertyFieldType classes registry ty) ty) (localTypes registry component) = .ok mapped)
    (hwires : collect TypeDef.wire mapped = some wires)
    (htypes : mapAll (NormalizedSchemas.SchemaType.toCtsc classes
      ⟨component, dependencies, names⟩) wires = .ok types) :
    List.Forall₂ (fun ty declared => declared.name = ty.name ∧
      ShapeMeans classes registry component ty declared.shape) (localTypes registry component)
      (sortBy NormalizedSchemas.NamedType.name types) := by
  have hall : List.Forall₂ (fun ty declared => declared.name = ty.name ∧
      ShapeMeans classes registry component ty declared.shape) (localTypes registry component)
      types := by
    have hpairs := mapAll_eq_ok.mp hmapped
    have hcollected := forall₂_of_collect hwires
    have hreads := mapAll_eq_ok.mp htypes
    have hreached : ∀ ty ∈ localTypes registry component,
        DeclarationReached classes registry component ⟨component, dependencies, names⟩ ty :=
      fun ty hty => declarationReached_of_entry hgraph hentry hty
    clear hmapped hwires htypes
    generalize localTypes registry component = declared at hpairs hreached ⊢
    induction hpairs generalizing wires types with
    | nil =>
      obtain rfl := List.forall₂_nil_left_iff.mp hcollected
      obtain rfl := List.forall₂_nil_left_iff.mp hreads
      exact .nil
    | @cons ty found declared others hfound _ ih =>
      obtain ⟨wire, rest, hwire, hrest, rfl⟩ := List.forall₂_cons_left_iff.mp hcollected
      obtain ⟨result, results, hresult, hresults, rfl⟩ := List.forall₂_cons_left_iff.mp hreads
      rw [List.forall_mem_cons] at hreached
      exact .cons (shape_means hreadable hreached.1 hfound hwire hresult)
        (ih hrest hresults hreached.2)
  rw [pairwise_names hall (fun ty declared hpair => hpair.1) (sortBy_sorted RawType.name _)]
  exact hall

theorem operations_mean {graph names : List (String × List String)} {dependencies : List String}
    {mapped : List SchemaOperation} {declared : List NormalizedSchemas.Operation}
    (hreadable : Readable classes registry root ⟨root, dependencies, names⟩)
    (hgraph : dependencyGraph classes registry root = .ok graph)
    (hentry : (root, dependencies) ∈ graph)
    (hspelled : validateSyntax classes registry = .ok ())
    (hmapped : mapAll (mapOperation classes registry .rust (.new root registry))
      (operationsFor registry root) = .ok mapped)
    (hread : mapAll (NormalizedSchemas.SchemaOperation.toCtsc classes
      ⟨root, dependencies, names⟩) (mapped.map SchemaOperation.wire) = .ok declared) :
    List.Forall₂ (OperationMeans classes registry root) (operationsFor registry root)
      (sortBy NormalizedSchemas.Operation.name declared) := by
  have hall := forall₂_of_passes (R := OperationMeans classes registry root) hmapped hread
    fun op hop middle result hmiddle hresult =>
      operation_means hreadable hgraph hentry hop hspelled hmiddle hresult
  rw [pairwise_names hall (fun op declared hmeans => hmeans.name)
    (sortBy_sorted Operation.name _)]
  exact hall

/-- The registry that is encoded for a Rust component has the component and all that it depends
on, and every declaration in it has the meaning of what was registered. -/
theorem published_meanings (classes : CharClasses) (registry : Registry) (root : String)
    (schema : Schema) (wire : NormalizedSchemas.Schema)
    (components : List NormalizedSchemas.Component) (hplain : PlainNames classes registry)
    (h : normalizeRegistry classes registry .rust root = .ok schema)
    (hwire : schema.wire = some wire)
    (hcomponents : appendComponents classes wire = .ok components) :
    (∀ name, name ∈ components.map NormalizedSchemas.Component.id ↔
      Relation.ReflTransGen (Depends classes registry root) root name) ∧
    ∀ component ∈ components, ComponentMeans classes registry root component := by
  obtain ⟨_, -, h⟩ := bind_eq_ok.mp h
  obtain ⟨built, hbuilt, h⟩ := bind_eq_ok.mp h
  obtain ⟨_, -, h⟩ := bind_eq_ok.mp h
  obtain ⟨_, -, h⟩ := bind_eq_ok.mp h
  obtain rfl := Except.ok.inj h
  obtain ⟨_, hspelled, hbuilt⟩ := bind_eq_ok.mp hbuilt
  obtain ⟨graph, hgraph, hothers, hroot, hown, hoperations, htypes⟩ := buildFrom_eq_ok hbuilt
  obtain ⟨wired, hwired, hwire⟩ := Option.bind_eq_some_iff.mp hwire
  obtain ⟨wires, hwires, hwire⟩ := Option.bind_eq_some_iff.mp hwire
  obtain rfl := Option.some.inj hwire
  obtain ⟨own, hownNames, hcomponents⟩ := bind_eq_ok.mp hcomponents
  obtain ⟨names, hnames, hcomponents⟩ := bind_eq_ok.mp hcomponents
  obtain ⟨_, -, hcomponents⟩ := bind_eq_ok.mp hcomponents
  obtain ⟨_, -, hcomponents⟩ := bind_eq_ok.mp hcomponents
  obtain ⟨first, hfirst, hcomponents⟩ := bind_eq_ok.mp hcomponents
  obtain ⟨rest, hrest, hcomponents⟩ := bind_eq_ok.mp hcomponents
  obtain rfl := Except.ok.inj hcomponents
  have hkeys := (spans_of_dependencyGraph hgraph).keys_iff
  have hpublished := published_of_wired hothers hwired
  dsimp only at hownNames hnames hfirst hrest
  rw [hroot] at hownNames
  have hknown : Known registry graph names :=
    known_of_names hpublished htypes hwires hownNames hnames
  have hreadable : ∀ {component : String} {dependencies : List String},
      (component, dependencies) ∈ graph →
        Readable classes registry component ⟨component, dependencies, names⟩ := fun hentry =>
    ⟨hplain, serves_of_entry hgraph hknown hentry⟩
  have hrootKey : root ∈ keys graph := (hkeys root).mpr .refl
  obtain ⟨dependencies, hlookup⟩ := exists_lookup_iff.mpr hrootKey
  have hentry : (root, dependencies) ∈ graph := mem_of_lookup hlookup
  rw [hlookup, Option.getD_some] at hown
  have hdependencies := mapAll_eq_ok.mp hrest
  have hfirstId : first.id = root := (RepeatedSchemas.schemaComponent_id hfirst).trans hroot
  constructor
  · intro name
    have hids : rest.map NormalizedSchemas.Component.id =
        (sortBy DependencyTypes.component wired).map DependencyTypes.component :=
      SchemaUnion.names_of_mapAll (fun _ _ => RepeatedSchemas.dependencyComponent_id) hrest
    rw [← hkeys, List.map_cons, List.mem_cons, hfirstId, hids,
      ((sortBy_perm DependencyTypes.component wired).map DependencyTypes.component).mem_iff]
    constructor
    · rintro (rfl | hname)
      · exact hrootKey
      · obtain ⟨owner, howner, rfl⟩ := List.mem_map.mp hname
        obtain ⟨entry, hentry, hpair⟩ := exists_left_of_forall₂ hpublished howner
        rw [hpair.component]
        exact mem_keys_of_mem (List.mem_filter.mp hentry).1
    · intro hname
      by_cases hsame : name = root
      · exact .inl hsame
      · obtain ⟨others, hmem⟩ := DependencySearch.exists_entry hname
        obtain ⟨owner, howner, hpair⟩ := exists_right_of_forall₂ hpublished
          (List.mem_filter.mpr ⟨hmem, bne_iff_ne.mpr hsame⟩)
        exact .inr (List.mem_map.mpr ⟨owner, howner, hpair.component⟩)
  · intro component hcomponent
    rcases List.mem_cons.mp hcomponent with rfl | hcomponent
    · obtain ⟨declared, hdeclared, hfirst⟩ := bind_eq_ok.mp hfirst
      obtain ⟨types, htypesRead, hfirst⟩ := bind_eq_ok.mp hfirst
      obtain rfl := Except.ok.inj hfirst
      dsimp only at hdeclared htypesRead
      rw [hroot, hown] at hdeclared htypesRead
      constructor
      · dsimp only
        rw [hroot]
        exact types_mean (hreadable hentry) hgraph hentry htypes hwires htypesRead
      · dsimp only
        rw [if_pos hroot]
        exact operations_mean (hreadable hentry) hgraph hentry hspelled hoperations hdeclared
    · obtain ⟨owner, howner, hresult⟩ := exists_left_of_forall₂ hdependencies hcomponent
      obtain ⟨entry, hfiltered, hpair⟩ := exists_left_of_forall₂ hpublished (mem_sortBy.mp howner)
      obtain ⟨hmem, hother⟩ := List.mem_filter.mp hfiltered
      obtain ⟨mapped, hmapped, hcollected⟩ := hpair.types
      obtain ⟨types, htypesRead, hresult⟩ := bind_eq_ok.mp hresult
      obtain rfl := Except.ok.inj hresult
      rw [hpair.component, hpair.dependencies] at htypesRead
      constructor
      · dsimp only
        rw [hpair.component]
        exact types_mean (hreadable hmem) hgraph hmem hmapped hcollected htypesRead
      · dsimp only
        rw [hpair.component, if_neg (bne_iff_ne.mp hother)]
        exact .nil

def shopComponents : List NormalizedSchemas.Component := [
  { id := "shop"
    dependencies := ["money"]
    operations := [
      ⟨"cancel", [("number", .primitive "u32")], [], ⟨none, false, []⟩, []⟩,
      ⟨"place", [("amount", .named "Amount" ⟨some "money", none⟩)], [],
        ⟨some (.named "Order" ⟨none, none⟩), true, []⟩,
        [⟨"order", [⟨"amount", "money::Amount"⟩], "Order"⟩]⟩]
    types := [⟨"Order", .record [("total", .named "Amount" ⟨some "money", none⟩)]⟩] },
  { id := "money"
    dependencies := []
    operations := []
    types := [⟨"Amount", .record [("cents", .primitive "i64")]⟩] }]

def shopWire : NormalizedSchemas.Schema where
  component := "shop"
  dependencies := ["money"]
  dependencyTypes := [⟨"money", [], [⟨"Amount", .struct, [⟨"cents", "i64"⟩], []⟩]⟩]
  operations := [
    ⟨"cancel", [⟨"number", "u32"⟩], "", false, [], []⟩,
    ⟨"place", [⟨"amount", "money::Amount"⟩], "Order", true, [],
      [⟨"order", [⟨"amount", "money::Amount"⟩], "Order"⟩]⟩]
  types := [⟨"Order", .struct, [⟨"total", "money::Amount"⟩], []⟩]

/-- A component with an optional outcome, a setup, and a type of another component. -/
theorem published_meanings_shop :
    (∀ name, name ∈ ["shop", "money"] ↔
      Relation.ReflTransGen (Depends .ascii shop "shop") "shop" name) ∧
    ∀ component ∈ shopComponents, ComponentMeans .ascii shop "shop" component :=
  published_meanings .ascii shop "shop" shopSchema shopWire shopComponents
    (plainNames_of_all rfl) rfl rfl rfl

end Components

end SpecGate.PublishedSchemas

import SpecGate.SemanticEquality

/-!
The value encoding: which trace values inhabit a type of a registry set. The typed
validator accepts exactly the inhabitants, whatever the location it reports at.
-/
namespace SpecGate.ValueEncoding

open Values RegistryModel Validation SortedAssoc CanonicalOrder Collecting LinkedValues
open PrimitiveValues AcceptedValues RegistrySemantics RegistryLoading ImportSelection
open SemanticEquality

/-- The values of a type read in a component. -/
inductive Inhabits (set : RegistrySet) : ResolvedComponent → TypeRef → AnyValue → Prop
  | primitive {component : ResolvedComponent} {name : String} {value : AnyValue}
      (hvalue : PrimitiveValue name value) : Inhabits set component (.primitive name) value
  | named {component target : ResolvedComponent} {name : String}
      {componentId registryId : Option String} {definition : NamedType} {value : AnyValue}
      (hdenotes : Denotes set component name componentId registryId target definition)
      (hvalue : Inhabits set target definition.asType value) :
      Inhabits set component (.named name componentId registryId) value
  | collection {component : ResolvedComponent} {items : TypeRef} {ordered unique : Bool}
      {values : List AnyValue} (hitems : ∀ item ∈ values, Inhabits set component items item)
      (hunique : unique = true →
        values.Pairwise fun l r => ¬SemanticallyEqual set true component items l r) :
      Inhabits set component (.collection items ordered unique) (.array values)
  | stringMap {component : ResolvedComponent} {valueType : TypeRef}
      {entries : List (String × AnyValue)}
      (hvalues : ∀ entry ∈ entries, Inhabits set component valueType entry.2) :
      Inhabits set component (.map (.primitive "string") valueType false) (.kvList entries)
  | entryMap {component : ResolvedComponent} {keyType valueType : TypeRef} {ordered : Bool}
      {pairs : List (AnyValue × AnyValue)}
      (hcoded : ordered = true ∨ keyType ≠ .primitive "string")
      (hkeys : ∀ pair ∈ pairs, Inhabits set component keyType pair.1)
      (hvalues : ∀ pair ∈ pairs, Inhabits set component valueType pair.2)
      (hunique : pairs.Pairwise fun l r =>
        ¬SemanticallyEqual set true component keyType l.1 r.1) :
      Inhabits set component (.map keyType valueType ordered) (.array (pairs.map entryOf))
  | tuple {component : ResolvedComponent} {items : List TypeRef} {values : List AnyValue}
      (hlength : values.length = items.length)
      (hitems : ∀ i (hi : i < values.length) (hi' : i < items.length),
        Inhabits set component items[i] values[i]) :
      Inhabits set component (.tuple items) (.array values)
  | record {component : ResolvedComponent} {fields : List NamedValue}
      {entries : List (String × AnyValue)}
      (hkeys : ∀ name, name ∈ keys entries ↔ name ∈ fields.map Prod.fst)
      (hfields : ∀ field ∈ fields, ∀ value, lookup entries field.1 = some value →
        Inhabits set component field.2 value) :
      Inhabits set component (.record fields) (.kvList entries)
  | absent {component : ResolvedComponent} {inner : TypeRef} :
      Inhabits set component (.optional inner) (.kvList [("None", .kvList [])])
  | present {component : ResolvedComponent} {inner : TypeRef} {value : AnyValue}
      (hvalue : Inhabits set component inner value) :
      Inhabits set component (.optional inner) (.kvList [("Some", value)])
  | payload {component : ResolvedComponent} {variants : List Variant} {name : String}
      {type : TypeRef} {value : AnyValue} (hvariant : (name, some type) ∈ variants)
      (hvalue : Inhabits set component type value) :
      Inhabits set component (.taggedUnion variants) (.kvList [(name, value)])
  | bare {component : ResolvedComponent} {variants : List Variant} {name : String}
      (hvariant : (name, none) ∈ variants) :
      Inhabits set component (.taggedUnion variants) (.kvList [(name, .kvList [])])

section Distinctness

variable {set : RegistrySet} {component : ResolvedComponent}

/-- Distinct canonical values are pairwise semantic difference. -/
theorem nodup_map_iff_pairwise {α : Type} {values : List α} (wire : α → AnyValue)
    {type : TypeRef} (hdecides : ∀ l ∈ values, ∀ r ∈ values,
      Decides set component type (wire l) (wire r)) :
    (values.map fun value => canonicalValue set component type (wire value)).Nodup ↔
      values.Pairwise fun l r => ¬SemanticallyEqual set true component type (wire l) (wire r) := by
  rw [List.nodup_iff_pairwise_ne, List.pairwise_map]
  refine List.Pairwise.iff_of_mem fun {l r} hl hr => ?_
  exact not_congr (hdecides l hl r hr)

theorem nodup_filterMap_iff_pairwise {values : List AnyValue} {type : TypeRef}
    (haccepted : ∀ value ∈ values, Accepted set component type value)
    (hdecides : ∀ l ∈ values, ∀ r ∈ values, Decides set component type l r) :
    (values.filterMap (canonicalValue set component type)).Nodup ↔
      values.Pairwise fun l r => ¬SemanticallyEqual set true component type l r := by
  obtain ⟨results, hresults⟩ := collect_isSome fun value hvalue =>
    (haccepted value hvalue).canonical
  have hmap : (values.map (canonicalValue set component type)).Nodup ↔ _ :=
    nodup_map_iff_pairwise id hdecides
  rw [filterMap_of_collect hresults]
  rw [collect_eq_some_iff.mp hresults, List.nodup_map_iff (Option.some_injective _)] at hmap
  exact hmap

end Distinctness

/-! ### One type constructor at a time -/

section Constructors

variable {set : RegistrySet} {component : ResolvedComponent}

/-- The validator is exact for the value, at every location. -/
def Exact (set : RegistrySet) (component : ResolvedComponent) (type : TypeRef)
    (value : AnyValue) : Prop :=
  ∀ location, validateValue set component type value location = [] ↔
    Inhabits set component type value

theorem Exact.accepted {type : TypeRef} {value : AnyValue} (h : Exact set component type value)
    (hvalue : Inhabits set component type value) : Accepted set component type value :=
  ⟨"$", (h "$").mpr hvalue⟩

theorem exact_of_neither {type : TypeRef} {value : AnyValue}
    (hvalidator : ¬Accepted set component type value)
    (hencoding : ¬Inhabits set component type value) : Exact set component type value :=
  fun location => ⟨fun h => absurd ⟨location, h⟩ hvalidator, fun h => absurd h hencoding⟩

theorem exact_primitive {name : String} {value : AnyValue} :
    Exact set component (.primitive name) value := by
  intro location
  rw [validateValue, validatePrimitive_eq_nil]
  exact ⟨.primitive, fun h => by cases h; assumption⟩

theorem exact_named {name : String} {componentId registryId : Option String} {value : AnyValue}
    (hdenotes : ∀ target definition,
      Denotes set component name componentId registryId target definition ↔
        Unfolds set component name componentId registryId target definition)
    (hvalue : ∀ target definition,
      Unfolds set component name componentId registryId target definition →
        Exact set target definition.asType value) :
    Exact set component (.named name componentId registryId) value := by
  intro location
  rw [validateValue_named]
  constructor
  · rintro ⟨target, definition, hunfolds, h⟩
    exact .named ((hdenotes _ _).mpr hunfolds) ((hvalue _ _ hunfolds location).mp h)
  · intro h
    cases h with
    | named hother h =>
      have hunfolds := (hdenotes _ _).mp hother
      exact ⟨_, _, hunfolds, (hvalue _ _ hunfolds location).mpr h⟩

theorem exact_collection {items : TypeRef} {ordered unique : Bool} {values : List AnyValue}
    (hitems : ∀ item ∈ values, Exact set component items item)
    (hdecides : (∀ item ∈ values, Accepted set component items item) →
      ∀ l ∈ values, ∀ r ∈ values, Decides set component items l r) :
    Exact set component (.collection items ordered unique) (.array values) := by
  intro location
  constructor
  · intro h
    obtain ⟨values', heq, haccepted, hunique⟩ := Accepted.collection ⟨location, h⟩
    obtain rfl := AnyValue.array.inj heq
    refine .collection (fun item hitem => ?_) fun hset => ?_
    · obtain ⟨place, hplace⟩ := haccepted item hitem
      exact (hitems item hitem place).mp hplace
    · exact (nodup_filterMap_iff_pairwise haccepted (hdecides haccepted)).mp (hunique hset)
  · intro h
    cases h with
    | collection hvalues hunique =>
      have haccepted : ∀ item ∈ values, Accepted set component items item :=
        fun item hitem => (hitems item hitem).accepted (hvalues item hitem)
      refine validateValue_collection.mpr ⟨values, rfl, fun i hi => ?_, fun hset => ?_⟩
      · exact (hitems _ (List.getElem_mem hi) _).mpr (hvalues _ (List.getElem_mem hi))
      · exact (nodup_filterMap_iff_pairwise haccepted (hdecides haccepted)).mpr (hunique hset)

theorem exact_map_kvList {keyType valueType : TypeRef} {ordered : Bool}
    {entries : List (String × AnyValue)}
    (hstring : (!ordered && isStringType keyType) = true)
    (hvalues : ∀ entry ∈ entries, Exact set component valueType entry.2) :
    Exact set component (.map keyType valueType ordered) (.kvList entries) := by
  obtain ⟨hordered, hkeyType⟩ := Bool.and_eq_true_iff.mp hstring
  obtain rfl := isStringType_iff.mp hkeyType
  obtain rfl : ordered = false := by simpa using hordered
  intro location
  rw [validateValue_map_kvList hstring]
  constructor
  · rintro ⟨entries', heq, h⟩
    obtain rfl := AnyValue.kvList.inj heq
    exact .stringMap fun entry hentry => (hvalues entry hentry _).mp (h entry hentry)
  · intro h
    cases h with
    | stringMap h =>
      exact ⟨entries, rfl, fun entry hentry => (hvalues entry hentry _).mpr (h entry hentry)⟩

theorem exact_map_array {keyType valueType : TypeRef} {ordered : Bool}
    {pairs : List (AnyValue × AnyValue)}
    (hstring : (!ordered && isStringType keyType) = false)
    (hkeys : ∀ pair ∈ pairs, Exact set component keyType pair.1)
    (hvalues : ∀ pair ∈ pairs, Exact set component valueType pair.2)
    (hdecides : (∀ pair ∈ pairs, Accepted set component keyType pair.1) →
      ∀ l ∈ pairs, ∀ r ∈ pairs, Decides set component keyType l.1 r.1) :
    Exact set component (.map keyType valueType ordered) (.array (pairs.map entryOf)) := by
  have hwire : (pairs.map entryOf).map mapEntry = pairs.map some := by
    rw [List.map_map]
    exact List.map_congr_left fun pair _ => mapEntry_entryOf pair
  have hcoded : ordered = true ∨ keyType ≠ .primitive "string" := by
    cases ordered with
    | true => exact .inl rfl
    | false =>
      refine .inr fun heq => ?_
      rw [isStringType_iff.mpr heq] at hstring
      cases hstring
  intro location
  constructor
  · intro h
    obtain ⟨entries, pairs', heq, hpairs, haccepted, hfresh⟩ :=
      Accepted.map_array hstring ⟨location, h⟩
    obtain rfl := AnyValue.array.inj heq
    obtain rfl : pairs = pairs' :=
      List.map_injective_iff.mpr (Option.some_injective _) (hwire.symm.trans hpairs)
    have hkeysAccepted := fun pair hpair => (haccepted pair hpair).1
    rw [repeatsKey_iff_nodup hwire fun pair hpair => (hkeysAccepted pair hpair).canonical,
      nodup_map_iff_pairwise Prod.fst (hdecides hkeysAccepted)] at hfresh
    refine .entryMap hcoded (fun pair hpair => ?_) (fun pair hpair => ?_) hfresh
    · obtain ⟨place, hplace⟩ := (haccepted pair hpair).1
      exact (hkeys pair hpair place).mp hplace
    · obtain ⟨place, hplace⟩ := (haccepted pair hpair).2
      exact (hvalues pair hpair place).mp hplace
  · intro h
    generalize hvalue : AnyValue.array (pairs.map entryOf) = value at h
    cases h with
    | stringMap => cases hvalue
    | entryMap _ hkeys' hvalues' hunique =>
      obtain rfl := entryOf_injective.list_map (AnyValue.array.inj hvalue)
      have hkeysAccepted : ∀ pair ∈ pairs, Accepted set component keyType pair.1 :=
        fun pair hpair => (hkeys pair hpair).accepted (hkeys' pair hpair)
      have hfresh := (nodup_map_iff_pairwise Prod.fst (hdecides hkeysAccepted)).mpr hunique
      rw [← repeatsKey_iff_nodup hwire fun pair hpair => (hkeysAccepted pair hpair).canonical]
        at hfresh
      refine (validateValue_map_array hstring).mpr ⟨_, rfl, fun i hi => ?_⟩
      have hi' : i < pairs.length := by simpa using hi
      have hmem := List.getElem_mem hi'
      refine ⟨pairs[i].1, pairs[i].2, ?_, (hkeys _ hmem _).mpr (hkeys' _ hmem),
        (hvalues _ hmem _).mpr (hvalues' _ hmem), hfresh i hi'⟩
      rw [List.getElem_map]
      exact mapEntry_entryOf _

theorem exact_tuple {items : List TypeRef} {values : List AnyValue}
    (hitems : ∀ i (hi : i < values.length) (hi' : i < items.length),
      Exact set component items[i] values[i]) :
    Exact set component (.tuple items) (.array values) := by
  intro location
  rw [validateValue_tuple]
  constructor
  · rintro ⟨values', heq, hlength, h⟩
    obtain rfl := AnyValue.array.inj heq
    exact .tuple hlength fun i hi hi' => (hitems i hi hi' _).mp (h i hi hi')
  · intro h
    cases h with
    | tuple hlength h =>
      exact ⟨values, rfl, hlength, fun i hi hi' => (hitems i hi hi' _).mpr (h i hi hi')⟩

theorem exact_record {fields : List NamedValue} {entries : List (String × AnyValue)}
    (hfields : ∀ field ∈ fields, ∀ value, lookup entries field.1 = some value →
      Exact set component field.2 value) :
    Exact set component (.record fields) (.kvList entries) := by
  intro location
  rw [validateValue_record]
  constructor
  · rintro ⟨entries', heq, hkeys, h⟩
    obtain rfl := AnyValue.kvList.inj heq
    exact .record (distinct_eq_iff.mp hkeys) fun field hfield value hvalue =>
      (hfields field hfield value hvalue _).mp (h field hfield value hvalue)
  · intro h
    cases h with
    | record hkeys h =>
      exact ⟨entries, rfl, distinct_eq_iff.mpr hkeys, fun field hfield value hvalue =>
        (hfields field hfield value hvalue _).mpr (h field hfield value hvalue)⟩

theorem exact_optional {inner : TypeRef} {value : AnyValue}
    (hvalue : ∀ payload, value = .kvList [("Some", payload)] → Exact set component inner payload) :
    Exact set component (.optional inner) value := by
  intro location
  rw [validateValue_optional]
  constructor
  · rintro (⟨payload, rfl, hunit⟩ | ⟨payload, rfl, h⟩)
    · rw [unit_eq (validatePrimitive_eq_nil.mp hunit)]
      exact .absent
    · exact .present ((hvalue payload rfl _).mp h)
  · intro h
    cases h with
    | absent => exact .inl ⟨_, rfl, validatePrimitive_eq_nil.mpr .unit⟩
    | present h => exact .inr ⟨_, rfl, (hvalue _ rfl _).mpr h⟩

theorem exact_taggedUnion {variants : List Variant} {value : AnyValue}
    (hnodup : (variants.map Prod.fst).Nodup)
    (hvalue : ∀ name payload type, value = .kvList [(name, payload)] →
      (name, some type) ∈ variants → Exact set component type payload) :
    Exact set component (.taggedUnion variants) value := by
  intro location
  rw [validateValue_taggedUnion]
  constructor
  · rintro (⟨name, payload, type, rfl, hfind, h⟩ | ⟨name, payload, rfl, hfind, hunit⟩)
    · have hmem := (find_variant_iff hnodup).mp hfind
      exact .payload hmem ((hvalue name payload type rfl hmem _).mp h)
    · rw [unit_eq (validatePrimitive_eq_nil.mp hunit)]
      exact .bare ((find_variant_iff hnodup).mp hfind)
  · intro h
    cases h with
    | payload hmem h =>
      exact .inl ⟨_, _, _, rfl, (find_variant_iff hnodup).mpr hmem,
        (hvalue _ _ _ rfl hmem _).mpr h⟩
    | bare hmem =>
      exact .inr ⟨_, _, rfl, (find_variant_iff hnodup).mpr hmem,
        validatePrimitive_eq_nil.mpr .unit⟩

end Constructors

/-! ### Every type of a coherent set -/

section Coherence

variable {set : RegistrySet} {component : ResolvedComponent}

theorem denotes_iff_unfolds (hcoherent : Coherent set) {id name : String}
    (hcomponent : lookup set.components id = some component)
    {componentId registryId : Option String}
    (htype : Declares component.component (.named name componentId registryId))
    (target : ResolvedComponent) (definition : NamedType) :
    Denotes set component name componentId registryId target definition ↔
      Unfolds set component name componentId registryId target definition := by
  have hunfold : ∀ {target : ResolvedComponent} {definition : NamedType},
      Denotes set component name componentId registryId target definition →
        Unfolds set component name componentId registryId target definition := by
    intro target definition h
    refine ⟨h.member, ?_, ?_⟩
    · cases registryId with
      | none => rfl
      | some registryId =>
        rw [foreignRegistry, h.registry]
        simp
    · have hsome : (target.component.types.find? fun item => item.name == name).isSome := by
        rw [List.find?_isSome]
        exact ⟨definition, h.defined, by simp [h.named]⟩
      obtain ⟨found, hfound⟩ := Option.isSome_iff_exists.mp hsome
      have hname : found.name = name := by simpa using List.find?_some hfound
      have hsame : found = definition := List.inj_on_of_nodup_map
        (hcoherent.shaped _ _ h.member).types (List.mem_of_find?_eq_some hfound) h.defined
          (hname.trans h.named.symm)
      rw [hfound, hsame]
  refine ⟨hunfold, fun h => ?_⟩
  obtain ⟨t, d, hdenotes⟩ := hcoherent.denotes id component name componentId registryId
    hcomponent htype
  have hother := hunfold hdenotes
  obtain rfl : t = target := Option.some.inj (hother.member.symm.trans h.member)
  obtain rfl : d = definition := Option.some.inj (hother.find.symm.trans h.find)
  exact hdenotes

theorem exact_of_coherent (hcoherent : Coherent set) {id : String} {type : TypeRef}
    {value : AnyValue} (hcomponent : lookup set.components id = some component)
    (htype : Declares component.component type) (hdecoded : value.Decoded) :
    Exact set component type value := by
  induction component, type, value using value_induction generalizing id with
  | step component type value ih unfoldNamed =>
    have hshaped := (hcoherent.shaped id component hcomponent).declared type htype
    cases type with
    | primitive name => exact exact_primitive
    | named name componentId registryId =>
      refine exact_named (denotes_iff_unfolds hcoherent hcomponent htype)
        fun target definition hunfolds => ?_
      exact unfoldNamed rfl target definition hunfolds.member
        (Channel.definition (List.mem_of_find?_eq_some hunfolds.find)).declares hdecoded
    | collection items ordered unique =>
      have hitems := htype.part (.items items ordered unique)
      cases value with
      | array values =>
        rw [AnyValue.decoded_array_iff] at hdecoded
        exact exact_collection
          (fun item hitem => ih component items item (AnyValue.sizeOf_lt_array hitem) hcomponent
            hitems (hdecoded item hitem))
          fun haccepted l hl r hr => decides_of_accepted hcoherent hcomponent hitems
            (hdecoded l hl) (hdecoded r hr) (haccepted l hl) (haccepted r hr)
      | _ =>
        refine exact_of_neither (fun h => ?_) fun h => by cases h
        obtain ⟨values, heq, -⟩ := h.collection
        cases heq
    | map keyType valueType ordered =>
      have hkeyType := htype.part (.keys keyType valueType ordered)
      have hvalueType := htype.part (.values keyType valueType ordered)
      rcases isStringType_cases ordered keyType with hstring | hstring
      · cases value with
        | kvList entries =>
          rw [AnyValue.decoded_kvList_iff] at hdecoded
          exact exact_map_kvList hstring fun entry hentry => ih component valueType entry.2
            (AnyValue.sizeOf_lt_kvList hentry) hcomponent hvalueType (hdecoded.2 entry hentry)
        | _ =>
          refine exact_of_neither (fun h => ?_) fun h => ?_
          · obtain ⟨entries, heq, -⟩ := h.map_kvList hstring
            cases heq
          · cases h
            all_goals
              rename_i hcoded
              rcases hcoded with rfl | hcoded
              · cases hstring
              · obtain ⟨-, hkey⟩ := Bool.and_eq_true_iff.mp hstring
                exact hcoded (isStringType_iff.mp hkey)
      · by_cases hshape : ∃ pairs : List (AnyValue × AnyValue),
            value = .array (pairs.map entryOf)
        · obtain ⟨pairs, rfl⟩ := hshape
          rw [AnyValue.decoded_array_iff] at hdecoded
          have hentry : ∀ pair ∈ pairs, pair.1.Decoded ∧ pair.2.Decoded := fun pair hpair =>
            decoded_entryOf.mp (hdecoded _ (List.mem_map_of_mem hpair))
          have hsize : ∀ pair ∈ pairs, sizeOf pair.1 < sizeOf (AnyValue.array (pairs.map entryOf)) ∧
              sizeOf pair.2 < sizeOf (AnyValue.array (pairs.map entryOf)) := by
            intro pair hpair
            have hmem : entryOf pair ∈ pairs.map entryOf := List.mem_map_of_mem hpair
            obtain ⟨hkey, hvalue⟩ := mapEntry_sizeOf_lt (mapEntry_entryOf pair)
            exact ⟨hkey.trans (AnyValue.sizeOf_lt_array hmem),
              hvalue.trans (AnyValue.sizeOf_lt_array hmem)⟩
          exact exact_map_array hstring
            (fun pair hpair => ih component keyType pair.1 (hsize pair hpair).1 hcomponent hkeyType
              (hentry pair hpair).1)
            (fun pair hpair => ih component valueType pair.2 (hsize pair hpair).2 hcomponent
              hvalueType (hentry pair hpair).2)
            fun haccepted l hl r hr => decides_of_accepted hcoherent hcomponent hkeyType
              (hentry l hl).1 (hentry r hr).1 (haccepted l hl) (haccepted r hr)
        · refine exact_of_neither (fun h => ?_) fun h => ?_
          · obtain ⟨entries, pairs, rfl, hpairs, -⟩ := h.map_array hstring
            rw [AnyValue.decoded_array_iff] at hdecoded
            exact hshape ⟨pairs, congrArg _ (map_entryOf hdecoded hpairs)⟩
          · cases h with
            | stringMap => cases hstring
            | entryMap => exact hshape ⟨_, rfl⟩
    | tuple items =>
      cases value with
      | array values =>
        rw [AnyValue.decoded_array_iff] at hdecoded
        exact exact_tuple fun i hi hi' => ih component items[i] values[i]
          (AnyValue.sizeOf_lt_array (List.getElem_mem hi)) hcomponent
          (htype.part (.item (List.getElem_mem hi'))) (hdecoded _ (List.getElem_mem hi))
      | _ =>
        refine exact_of_neither (fun h => ?_) fun h => by cases h
        obtain ⟨values, heq, -⟩ := h.tuple
        cases heq
    | record fields =>
      cases value with
      | kvList entries =>
        exact exact_record fun field hfield item hitem => ih component field.2 item
          (AnyValue.sizeOf_lt_of_lookup hitem) hcomponent (htype.part (.field hfield))
          (hdecoded.of_lookup hitem)
      | _ =>
        refine exact_of_neither (fun h => ?_) fun h => by cases h
        obtain ⟨entries, heq, -⟩ := h.record
        cases heq
    | optional inner =>
      refine exact_optional ?_
      rintro payload rfl
      exact ih component inner payload (AnyValue.sizeOf_lt_head _ _ _) hcomponent
        (htype.part (.value inner)) (decoded_singleton hdecoded)
    | taggedUnion variants =>
      refine exact_taggedUnion hshaped.2 ?_
      rintro name payload type rfl hmem
      exact ih component type payload (AnyValue.sizeOf_lt_head _ _ _) hcomponent
        (htype.part (.payload hmem)) (decoded_singleton hdecoded)

end Coherence

/-- The typed validator reports nothing exactly on the inhabitants of the type. Its
recursion is total: it descends into the value, and unfolds a name only to a structure. -/
theorem validateValue_eq_nil_iff {Path : Type} [Ord Path] [Std.TransOrd Path]
    [Std.LawfulEqOrd Path] {env : Environment Path} {root : Path} {explicitImports : List Path}
    {set : RegistrySet} (hload : loadFs env root explicitImports = some ⟨some set, []⟩)
    {id : String} {component : ResolvedComponent}
    (hcomponent : lookup set.components id = some component) {type : TypeRef}
    (htype : Declares component.component type) {value : AnyValue} (hdecoded : value.Decoded)
    (location : String) :
    validateValue set component type value location = [] ↔ Inhabits set component type value :=
  exact_of_coherent (loadFs_coherent hload) hcomponent htype hdecoded location

theorem validateValue_eq_nil_iff_counts :
    validateValue tallySet tallyTarget countsType (.array (countsEntries.map entryOf)) "$" = [] ↔
      Inhabits tallySet tallyTarget countsType (.array (countsEntries.map entryOf)) :=
  validateValue_eq_nil_iff tally_loads tally_lookup counts_declared
    (counts_accepted (.inl rfl) "$").1 "$"

end SpecGate.ValueEncoding

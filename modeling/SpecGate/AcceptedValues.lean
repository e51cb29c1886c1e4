import SpecGate.PrimitiveValues

/-!
Values that the typed validator accepts. The validator reports no issue at a place
only if it reports none at the places inside, and every value it accepts has a
canonical value: what one recursion resolves, the other resolves too.
-/
namespace SpecGate.AcceptedValues

open Values RegistryModel Validation SortedAssoc CanonicalOrder Collecting LinkedValues
open PrimitiveValues

theorem unit_eq {value : AnyValue} (h : PrimitiveValue "unit" value) : value = .kvList [] := by
  generalize hname : "unit" = name at h
  cases h <;> first | rfl | simp at hname

section Acceptance

variable {set : RegistrySet} {component : ResolvedComponent} {value : AnyValue}

/-- The validator reports nothing about the value at some location. -/
def Accepted (set : RegistrySet) (component : ResolvedComponent) (type : TypeRef)
    (value : AnyValue) : Prop :=
  ∃ location, validateValue set component type value location = []

theorem Accepted.primitive {name : String} (h : Accepted set component (.primitive name) value) :
    PrimitiveValue name value := by
  obtain ⟨location, h⟩ := h
  rw [validateValue] at h
  exact validatePrimitive_eq_nil.mp h

theorem Accepted.named {name : String} {componentId registryId : Option String}
    (h : Accepted set component (.named name componentId registryId) value) :
    ∃ target definition, Unfolds set component name componentId registryId target definition ∧
      Accepted set target definition.asType value := by
  obtain ⟨location, h⟩ := h
  obtain ⟨target, definition, hunfolds, hvalue⟩ := validateValue_named.mp h
  exact ⟨target, definition, hunfolds, location, hvalue⟩

theorem Accepted.collection {items : TypeRef} {ordered unique : Bool}
    (h : Accepted set component (.collection items ordered unique) value) :
    ∃ values, value = .array values ∧ (∀ item ∈ values, Accepted set component items item) ∧
      (unique = true → (values.filterMap (canonicalValue set component items)).Nodup) := by
  obtain ⟨location, h⟩ := h
  obtain ⟨values, rfl, hitems, hunique⟩ := validateValue_collection.mp h
  refine ⟨values, rfl, fun item hitem => ?_, hunique⟩
  obtain ⟨i, hi, rfl⟩ := List.getElem_of_mem hitem
  exact ⟨_, hitems i hi⟩

theorem Accepted.map_kvList {keyType valueType : TypeRef} {ordered : Bool}
    (hstring : (!ordered && isStringType keyType) = true)
    (h : Accepted set component (.map keyType valueType ordered) value) :
    ∃ entries, value = .kvList entries ∧
      ∀ entry ∈ entries, Accepted set component valueType entry.2 := by
  obtain ⟨location, h⟩ := h
  obtain ⟨entries, rfl, hentries⟩ := (validateValue_map_kvList hstring).mp h
  exact ⟨entries, rfl, fun entry hentry => ⟨_, hentries entry hentry⟩⟩

theorem Accepted.tuple {items : List TypeRef} (h : Accepted set component (.tuple items) value) :
    ∃ values, value = .array values ∧ values.length = items.length ∧
      ∀ i (h : i < values.length) (h' : i < items.length),
        Accepted set component items[i] values[i] := by
  obtain ⟨location, h⟩ := h
  obtain ⟨values, rfl, hlength, hitems⟩ := validateValue_tuple.mp h
  exact ⟨values, rfl, hlength, fun i hi hi' => ⟨_, hitems i hi hi'⟩⟩

theorem Accepted.record {fields : List NamedValue}
    (h : Accepted set component (.record fields) value) :
    ∃ entries, value = .kvList entries ∧
      (∀ name, name ∈ keys entries ↔ name ∈ fields.map Prod.fst) ∧
      ∀ field ∈ fields, ∀ item, lookup entries field.1 = some item →
        Accepted set component field.2 item := by
  obtain ⟨location, h⟩ := h
  obtain ⟨entries, rfl, hkeys, hfields⟩ := validateValue_record.mp h
  refine ⟨entries, rfl, fun name => ?_, fun field hfield item hitem => ?_⟩
  · rw [← mem_distinct, hkeys, mem_distinct]
  · exact ⟨_, hfields field hfield item hitem⟩

theorem Accepted.optional {inner : TypeRef} (h : Accepted set component (.optional inner) value) :
    value = .kvList [("None", .kvList [])] ∨
      ∃ payload, value = .kvList [("Some", payload)] ∧ Accepted set component inner payload := by
  obtain ⟨location, h⟩ := h
  rcases validateValue_optional.mp h with ⟨payload, rfl, hunit⟩ | ⟨payload, rfl, hpayload⟩
  · left
    rw [unit_eq (validatePrimitive_eq_nil.mp hunit)]
  · exact .inr ⟨payload, rfl, _, hpayload⟩

theorem Accepted.taggedUnion {variants : List Variant}
    (h : Accepted set component (.taggedUnion variants) value) :
    (∃ name payload type, value = .kvList [(name, payload)] ∧
      variants.find? (fun variant => variant.1 == name) = some (name, some type) ∧
      Accepted set component type payload) ∨
    (∃ name, value = .kvList [(name, .kvList [])] ∧
      variants.find? (fun variant => variant.1 == name) = some (name, none)) := by
  obtain ⟨location, h⟩ := h
  rcases validateValue_taggedUnion.mp h with ⟨name, payload, type, rfl, hfind, hpayload⟩ |
    ⟨name, payload, rfl, hfind, hunit⟩
  · exact .inl ⟨name, payload, type, rfl, hfind, _, hpayload⟩
  · right
    rw [unit_eq (validatePrimitive_eq_nil.mp hunit)]
    exact ⟨name, rfl, hfind⟩

end Acceptance

/-! ### Keys of array-coded maps -/

section MapKeys

variable {canonicalKey : AnyValue → Option CanonicalValue} {entries : List AnyValue}
  {pairs : List (AnyValue × AnyValue)}

theorem filterMap_take_keys (hpairs : entries.map mapEntry = pairs.map some) (i : Nat) :
    (entries.take i).filterMap (fun entry => (mapEntry entry).bind fun pair =>
      canonicalKey pair.1) = (pairs.take i).filterMap fun pair => canonicalKey pair.1 := by
  have htake : (entries.take i).map mapEntry = (pairs.take i).map some := by
    rw [List.map_take, hpairs, List.map_take]
  have hleft : (entries.take i).filterMap (fun entry => (mapEntry entry).bind fun pair =>
      canonicalKey pair.1) = ((entries.take i).map mapEntry).filterMap
        fun pair => pair.bind fun pair => canonicalKey pair.1 := by
    rw [List.filterMap_map]
    rfl
  rw [hleft, htake, List.filterMap_map]
  rfl

/-- No key repeats an earlier one exactly when the canonical keys are distinct. -/
theorem repeatsKey_iff_nodup (hpairs : entries.map mapEntry = pairs.map some)
    (hkeys : ∀ pair ∈ pairs, ∃ key, canonicalKey pair.1 = some key) :
    (∀ i (h : i < pairs.length), repeatsKey canonicalKey (entries.take i) pairs[i].1 = false) ↔
      (pairs.map fun pair => canonicalKey pair.1).Nodup := by
  have hrepeats : ∀ i (h : i < pairs.length),
      repeatsKey canonicalKey (entries.take i) pairs[i].1 = false ↔
        ∀ j (hj : j < pairs.length), j < i → canonicalKey pairs[j].1 ≠ canonicalKey pairs[i].1 := by
    intro i hi
    obtain ⟨key, hkey⟩ := hkeys _ (List.getElem_mem hi)
    rw [repeatsKey, hkey]
    simp only [filterMap_take_keys hpairs, ← Bool.not_eq_true, List.contains_iff_mem,
      List.mem_filterMap]
    constructor
    · intro h j _ hj heq
      have hlength : j < (pairs.take i).length := by
        rw [List.length_take]
        omega
      have hmem : (pairs.take i)[j] ∈ pairs.take i := List.getElem_mem hlength
      rw [List.getElem_take] at hmem
      exact h ⟨_, hmem, heq⟩
    · rintro h ⟨pair, hpair, heq⟩
      obtain ⟨j, hj, rfl⟩ := List.getElem_of_mem hpair
      rw [List.getElem_take] at heq
      rw [List.length_take] at hj
      exact h j (by omega) (by omega) heq
  rw [List.nodup_iff_pairwise_ne, List.pairwise_map, List.pairwise_iff_getElem]
  constructor
  · intro h j i hj hi hji
    exact (hrepeats i hi).mp (h i hi) j hj hji
  · intro h i hi
    exact (hrepeats i hi).mpr fun j hj hji => h j i hj hi hji

end MapKeys

/-! ### Canonical values of accepted values -/

section Canonical

variable {set : RegistrySet} {component : ResolvedComponent}

theorem Accepted.map_array {value : AnyValue} {keyType valueType : TypeRef} {ordered : Bool}
    (hstring : (!ordered && isStringType keyType) = false)
    (h : Accepted set component (.map keyType valueType ordered) value) :
    ∃ (entries : List AnyValue) (pairs : List (AnyValue × AnyValue)),
      value = .array entries ∧ entries.map mapEntry = pairs.map some ∧
      (∀ pair ∈ pairs, Accepted set component keyType pair.1 ∧
        Accepted set component valueType pair.2) ∧
      ∀ i (h : i < pairs.length),
        repeatsKey (canonicalValue set component keyType) (entries.take i) pairs[i].1 = false := by
  obtain ⟨location, h⟩ := h
  obtain ⟨entries, rfl, hentries⟩ := (validateValue_map_array hstring).mp h
  have hshape : ∀ entry ∈ entries, ∃ pair, mapEntry entry = some pair := by
    intro entry hentry
    obtain ⟨i, hi, rfl⟩ := List.getElem_of_mem hentry
    obtain ⟨key, value, hpair, -⟩ := hentries i hi
    exact ⟨_, hpair⟩
  obtain ⟨pairs, hcollect⟩ := collect_isSome hshape
  have hpairs := collect_eq_some_iff.mp hcollect
  have hlength : entries.length = pairs.length := by simpa using congrArg List.length hpairs
  have hget : ∀ i (h : i < pairs.length) (h' : i < entries.length),
      mapEntry entries[i] = some pairs[i] := by
    intro i hi hi'
    simpa [hi, hi'] using congrArg (·[i]?) hpairs
  refine ⟨entries, pairs, rfl, hpairs, fun pair hpair => ?_, fun i hi => ?_⟩
  · obtain ⟨i, hi, rfl⟩ := List.getElem_of_mem hpair
    obtain ⟨key, value, hentry, hkey, hvalue, -⟩ := hentries i (hlength ▸ hi)
    rw [hget i hi (hlength ▸ hi)] at hentry
    rw [Option.some.inj hentry]
    exact ⟨⟨_, hkey⟩, ⟨_, hvalue⟩⟩
  · obtain ⟨key, value, hentry, -, -, hfresh⟩ := hentries i (hlength ▸ hi)
    rw [hget i hi (hlength ▸ hi)] at hentry
    rw [Option.some.inj hentry]
    exact hfresh

/-- The canonical key and value of a pair. -/
def canonicalPair (set : RegistrySet) (component : ResolvedComponent) (keyType valueType : TypeRef)
    (pair : AnyValue × AnyValue) : Option (CanonicalValue × CanonicalValue) :=
  (canonicalValue set component keyType pair.1).bind fun key =>
    (canonicalValue set component valueType pair.2).map fun value => (key, value)

theorem canonicalEntry_of_mapEntry {keyType valueType : TypeRef} {entry : AnyValue}
    {pair : AnyValue × AnyValue} (h : mapEntry entry = some pair) :
    canonicalEntry set component keyType valueType entry =
      canonicalPair set component keyType valueType pair := by
  cases entry with
  | kvList fields =>
    rw [mapEntry] at h
    split at h
    · cases h
    · split at h
      · rename_i hkey hvalue
        obtain rfl := Option.some.inj h
        rw [canonicalEntry, hkey, hvalue]
        rfl
      · cases h
  | _ => cases h

theorem collect_canonicalEntry {keyType valueType : TypeRef} {entries : List AnyValue}
    {pairs : List (AnyValue × AnyValue)} (hpairs : entries.map mapEntry = pairs.map some) :
    collect (canonicalEntry set component keyType valueType) entries =
      collect (canonicalPair set component keyType valueType) pairs := by
  induction entries generalizing pairs with
  | nil =>
    cases pairs with
    | nil => rfl
    | cons pair pairs => cases hpairs
  | cons entry entries ih =>
    cases pairs with
    | nil => cases hpairs
    | cons pair pairs =>
      obtain ⟨hhead, htail⟩ := List.cons.inj hpairs
      rw [collect, collect, canonicalEntry_of_mapEntry hhead, ih htail]

theorem canonicalPair_eq_some {keyType valueType : TypeRef} {pair : AnyValue × AnyValue}
    {canonical : CanonicalValue × CanonicalValue} :
    canonicalPair set component keyType valueType pair = some canonical ↔
      canonicalValue set component keyType pair.1 = some canonical.1 ∧
        canonicalValue set component valueType pair.2 = some canonical.2 := by
  rw [canonicalPair, Option.bind_eq_some_iff]
  constructor
  · rintro ⟨key, hkey, hmap⟩
    obtain ⟨value, hvalue, rfl⟩ := Option.map_eq_some_iff.mp hmap
    exact ⟨hkey, hvalue⟩
  · rintro ⟨hkey, hvalue⟩
    exact ⟨_, hkey, by rw [hvalue]; rfl⟩

theorem canonicalField_eq_some {entries : List (String × AnyValue)} {field : NamedValue}
    {result : String × CanonicalValue} :
    canonicalField set component entries field = some result ↔
      ∃ value canonical, lookup entries field.1 = some value ∧
        canonicalValue set component field.2 value = some canonical ∧
          result = (field.1, canonical) := by
  rw [canonicalField, Option.bind_eq_some_iff]
  constructor
  · rintro ⟨value, hvalue, hmap⟩
    obtain ⟨canonical, hcanonical, rfl⟩ := Option.map_eq_some_iff.mp hmap
    exact ⟨value, canonical, hvalue, hcanonical, rfl⟩
  · rintro ⟨value, canonical, hvalue, hcanonical, rfl⟩
    exact ⟨value, hvalue, by rw [hcanonical]; rfl⟩

theorem isStringType_cases (ordered : Bool) (keyType : TypeRef) :
    (!ordered && isStringType keyType) = true ∨ (!ordered && isStringType keyType) = false := by
  cases (!ordered && isStringType keyType) <;> simp

/-- Every value that the validator accepts has a canonical value. -/
theorem Accepted.canonical {type : TypeRef} {value : AnyValue}
    (h : Accepted set component type value) :
    ∃ canonical, canonicalValue set component type value = some canonical := by
  induction component, type, value using value_induction with
  | step component type value ih unfoldNamed =>
    cases type with
    | primitive name =>
      rw [canonicalValue_primitive]
      exact h.primitive.canonical
    | named name componentId registryId =>
      obtain ⟨target, definition, hunfolds, hvalue⟩ := h.named
      rw [canonicalValue_named hunfolds]
      exact unfoldNamed rfl target definition hvalue
    | collection items ordered unique =>
      obtain ⟨values, rfl, hitems, -⟩ := h.collection
      obtain ⟨results, hresults⟩ := collect_isSome fun item hitem =>
        ih component items item (AnyValue.sizeOf_lt_array hitem) (hitems item hitem)
      rw [canonicalValue_collection, hresults]
      exact ⟨_, rfl⟩
    | map keyType valueType ordered =>
      rcases isStringType_cases ordered keyType with hstring | hstring
      · obtain ⟨entries, rfl, hentries⟩ := h.map_kvList hstring
        have hsome : ∀ entry ∈ entries, ∃ result,
            ((canonicalValue set component valueType entry.2).map fun value =>
              (CanonicalValue.string entry.1, value)) = some result := by
          intro entry hentry
          obtain ⟨canonical, hcanonical⟩ := ih component valueType entry.2
            (AnyValue.sizeOf_lt_kvList hentry) (hentries entry hentry)
          exact ⟨_, by rw [hcanonical]; rfl⟩
        obtain ⟨results, hresults⟩ := collect_isSome hsome
        rw [canonicalValue_map_kvList hstring, hresults]
        exact ⟨_, rfl⟩
      · obtain ⟨entries, pairs, rfl, hpairs, haccepted, -⟩ := h.map_array hstring
        have hsome : ∀ pair ∈ pairs, ∃ result,
            canonicalPair set component keyType valueType pair = some result := by
          intro pair hpair
          obtain ⟨entry, hentry, hmap⟩ : ∃ entry ∈ entries, mapEntry entry = some pair := by
            have hmem : some pair ∈ entries.map mapEntry :=
              hpairs ▸ List.mem_map_of_mem hpair
            exact List.mem_map.mp hmem
          have hsize := AnyValue.sizeOf_lt_array hentry
          obtain ⟨hkeySize, hvalueSize⟩ := mapEntry_sizeOf_lt hmap
          obtain ⟨key, hkey⟩ := ih component keyType pair.1 (hkeySize.trans hsize)
            (haccepted pair hpair).1
          obtain ⟨value, hvalue⟩ := ih component valueType pair.2 (hvalueSize.trans hsize)
            (haccepted pair hpair).2
          exact ⟨(key, value), canonicalPair_eq_some.mpr ⟨hkey, hvalue⟩⟩
        obtain ⟨results, hresults⟩ := collect_isSome hsome
        rw [canonicalValue_map_array hstring, collect_canonicalEntry hpairs, hresults]
        exact ⟨_, rfl⟩
    | tuple items =>
      obtain ⟨values, rfl, hlength, hitems⟩ := h.tuple
      have hsome : ∀ pair ∈ values.zip items, ∃ result,
          canonicalValue set component pair.2 pair.1 = some result := by
        intro pair hpair
        obtain ⟨i, hi, rfl⟩ := List.getElem_of_mem hpair
        rw [List.length_zip] at hi
        rw [List.getElem_zip]
        exact ih component _ _ (AnyValue.sizeOf_lt_array (List.getElem_mem _))
          (hitems i (by omega) (by omega))
      obtain ⟨results, hresults⟩ := collect_isSome hsome
      rw [canonicalValue_tuple hlength, hresults]
      exact ⟨_, rfl⟩
    | record fields =>
      obtain ⟨entries, rfl, hkeys, hfields⟩ := h.record
      have hsome : ∀ field ∈ fields, ∃ result,
          canonicalField set component entries field = some result := by
        intro field hfield
        obtain ⟨item, hitem⟩ := exists_lookup_iff.mpr
          ((hkeys field.1).mpr (List.mem_map_of_mem hfield))
        obtain ⟨canonical, hcanonical⟩ := ih component field.2 item
          (AnyValue.sizeOf_lt_of_lookup hitem) (hfields field hfield item hitem)
        exact ⟨_, canonicalField_eq_some.mpr ⟨item, canonical, hitem, hcanonical, rfl⟩⟩
      obtain ⟨results, hresults⟩ := collect_isSome hsome
      rw [canonicalValue_record, hresults]
      exact ⟨_, rfl⟩
    | optional inner =>
      rcases h.optional with rfl | ⟨payload, rfl, hpayload⟩
      · rw [canonicalValue_optional_none]
        exact ⟨_, rfl⟩
      · obtain ⟨canonical, hcanonical⟩ := ih component inner payload
          (AnyValue.sizeOf_lt_head _ _ _) hpayload
        rw [canonicalValue_optional_some, hcanonical]
        exact ⟨_, rfl⟩
    | taggedUnion variants =>
      rcases h.taggedUnion with ⟨name, payload, type, rfl, hfind, hpayload⟩ | ⟨name, rfl, hfind⟩
      · obtain ⟨canonical, hcanonical⟩ := ih component type payload
          (AnyValue.sizeOf_lt_head _ _ _) hpayload
        rw [canonicalValue_payload hfind, hcanonical]
        exact ⟨_, rfl⟩
      · rw [canonicalValue_bare hfind]
        exact ⟨_, rfl⟩

end Canonical

end SpecGate.AcceptedValues

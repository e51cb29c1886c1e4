import SpecGate.AcceptedValues
import SpecGate.ImportSelection

/-!
Semantic equality of typed values, and what canonical values decide about it.
The relation follows the types of a registry set and says nothing about canonical
forms: position for sequences and tuples, multiplicity for bags, association of
keys for maps, fields for records, variant and payload for unions.
-/
namespace SpecGate.SemanticEquality

open Values RegistryModel Validation SortedAssoc CanonicalOrder Collecting LinkedValues
open PrimitiveValues AcceptedValues RegistrySemantics RegistryLoading ImportSelection

/-- The wire form of one entry of an array-coded map. -/
def entryOf (pair : AnyValue × AnyValue) : AnyValue :=
  .kvList [("key", pair.1), ("value", pair.2)]

/-- Semantic equality at a type read in a component. With `positional`, ordered maps
compare by entry position as well as by key. -/
inductive SemanticallyEqual (set : RegistrySet) (positional : Bool) :
    ResolvedComponent → TypeRef → AnyValue → AnyValue → Prop
  | primitive {component : ResolvedComponent} {name : String} {value : AnyValue} :
      SemanticallyEqual set positional component (.primitive name) value value
  | named {component target : ResolvedComponent} {name : String}
      {componentId registryId : Option String} {definition : NamedType} {left right : AnyValue}
      (hdenotes : Denotes set component name componentId registryId target definition)
      (hvalue : SemanticallyEqual set positional target definition.asType left right) :
      SemanticallyEqual set positional component (.named name componentId registryId) left right
  | sequence {component : ResolvedComponent} {items : TypeRef} {unique : Bool}
      {left right : List AnyValue} {pairs : List (AnyValue × AnyValue)}
      (hleft : left = pairs.map Prod.fst) (hright : right = pairs.map Prod.snd)
      (hitems : ∀ pair ∈ pairs, SemanticallyEqual set positional component items pair.1 pair.2) :
      SemanticallyEqual set positional component (.collection items true unique) (.array left)
        (.array right)
  | bag {component : ResolvedComponent} {items : TypeRef} {unique : Bool}
      {left right : List AnyValue} {pairs : List (AnyValue × AnyValue)}
      (hleft : left.Perm (pairs.map Prod.fst)) (hright : right.Perm (pairs.map Prod.snd))
      (hitems : ∀ pair ∈ pairs, SemanticallyEqual set positional component items pair.1 pair.2) :
      SemanticallyEqual set positional component (.collection items false unique) (.array left)
        (.array right)
  | stringMap {component : ResolvedComponent} {valueType : TypeRef}
      {left right : List (String × AnyValue)}
      {pairs : List ((String × AnyValue) × (String × AnyValue))}
      (hleft : left.Perm (pairs.map Prod.fst)) (hright : right.Perm (pairs.map Prod.snd))
      (hkeys : ∀ pair ∈ pairs, pair.1.1 = pair.2.1)
      (hvalues : ∀ pair ∈ pairs,
        SemanticallyEqual set positional component valueType pair.1.2 pair.2.2) :
      SemanticallyEqual set positional component (.map (.primitive "string") valueType false)
        (.kvList left) (.kvList right)
  | positionalMap {component : ResolvedComponent} {keyType valueType : TypeRef}
      {left right : List AnyValue}
      {pairs : List ((AnyValue × AnyValue) × (AnyValue × AnyValue))}
      (hpositional : positional = true)
      (hleft : left = pairs.map fun pair => entryOf pair.1)
      (hright : right = pairs.map fun pair => entryOf pair.2)
      (hkeys : ∀ pair ∈ pairs,
        SemanticallyEqual set positional component keyType pair.1.1 pair.2.1)
      (hvalues : ∀ pair ∈ pairs,
        SemanticallyEqual set positional component valueType pair.1.2 pair.2.2) :
      SemanticallyEqual set positional component (.map keyType valueType true) (.array left)
        (.array right)
  | association {component : ResolvedComponent} {keyType valueType : TypeRef} {ordered : Bool}
      {left right : List AnyValue}
      {pairs : List ((AnyValue × AnyValue) × (AnyValue × AnyValue))}
      (hcoded : ordered = true ∨ keyType ≠ .primitive "string")
      (hfree : ordered = true → positional = false)
      (hleft : left.Perm (pairs.map fun pair => entryOf pair.1))
      (hright : right.Perm (pairs.map fun pair => entryOf pair.2))
      (hkeys : ∀ pair ∈ pairs,
        SemanticallyEqual set positional component keyType pair.1.1 pair.2.1)
      (hvalues : ∀ pair ∈ pairs,
        SemanticallyEqual set positional component valueType pair.1.2 pair.2.2) :
      SemanticallyEqual set positional component (.map keyType valueType ordered) (.array left)
        (.array right)
  | tuple {component : ResolvedComponent} {items : List TypeRef} {left right : List AnyValue}
      (hleft : left.length = items.length) (hright : right.length = items.length)
      (hitems : ∀ i (hi : i < items.length) (hl : i < left.length) (hr : i < right.length),
        SemanticallyEqual set positional component items[i] left[i] right[i]) :
      SemanticallyEqual set positional component (.tuple items) (.array left) (.array right)
  | record {component : ResolvedComponent} {fields : List NamedValue}
      {left right : List (String × AnyValue)}
      (hleft : ∀ name, name ∈ keys left ↔ name ∈ fields.map Prod.fst)
      (hright : ∀ name, name ∈ keys right ↔ name ∈ fields.map Prod.fst)
      (hfields : ∀ field ∈ fields, ∀ l r, lookup left field.1 = some l →
        lookup right field.1 = some r → SemanticallyEqual set positional component field.2 l r) :
      SemanticallyEqual set positional component (.record fields) (.kvList left) (.kvList right)
  | absent {component : ResolvedComponent} {inner : TypeRef} :
      SemanticallyEqual set positional component (.optional inner)
        (.kvList [("None", .kvList [])]) (.kvList [("None", .kvList [])])
  | present {component : ResolvedComponent} {inner : TypeRef} {left right : AnyValue}
      (hvalue : SemanticallyEqual set positional component inner left right) :
      SemanticallyEqual set positional component (.optional inner) (.kvList [("Some", left)])
        (.kvList [("Some", right)])
  | payload {component : ResolvedComponent} {variants : List Variant} {name : String}
      {type : TypeRef} {left right : AnyValue} (hvariant : (name, some type) ∈ variants)
      (hvalue : SemanticallyEqual set positional component type left right) :
      SemanticallyEqual set positional component (.taggedUnion variants) (.kvList [(name, left)])
        (.kvList [(name, right)])
  | bare {component : ResolvedComponent} {variants : List Variant} {name : String}
      (hvariant : (name, none) ∈ variants) :
      SemanticallyEqual set positional component (.taggedUnion variants)
        (.kvList [(name, .kvList [])]) (.kvList [(name, .kvList [])])

/-! ### Entries of array-coded maps -/

theorem entryOf_injective : Function.Injective entryOf := by
  rintro ⟨key, value⟩ ⟨key', value'⟩ h
  simpa [entryOf] using h

theorem mapEntry_entryOf (pair : AnyValue × AnyValue) : mapEntry (entryOf pair) = some pair := by
  have hkey : lookup [("key", pair.1), ("value", pair.2)] "key" = some pair.1 := rfl
  have hvalue : lookup [("key", pair.1), ("value", pair.2)] "value" = some pair.2 := rfl
  rw [entryOf, mapEntry, if_neg (by simp), hkey, hvalue]

theorem sorted_entry (key value : AnyValue) : Sorted [("key", key), ("value", value)] := by
  refine sorted_cons.mpr ⟨fun e he => ?_, sorted_cons.mpr ⟨by simp, sorted_nil⟩⟩
  obtain rfl := List.mem_singleton.mp he
  show compare "key" "value" = .lt
  decide

/-- A decoded entry with a key and a value is the wire form of the two. -/
theorem eq_entryOf {entry : AnyValue} {pair : AnyValue × AnyValue} (hdecoded : entry.Decoded)
    (h : mapEntry entry = some pair) : entry = entryOf pair := by
  cases entry with
  | kvList fields =>
    rw [mapEntry] at h
    split at h
    · cases h
    · rename_i hlength
      split at h
      · rename_i key value hkey hvalue
        obtain rfl := Option.some.inj h
        obtain ⟨hsorted, -⟩ := AnyValue.decoded_kvList_iff.mp hdecoded
        have hexpected := sorted_entry key value
        rw [entryOf]
        congr 1
        refine (ext_of_perm hexpected hsorted ?_).symm
        refine (List.subperm_of_subset hexpected.keys_nodup.of_map ?_).perm_of_length_le ?_
        · intro e he
          simp only [List.mem_cons, List.not_mem_nil, or_false] at he
          rcases he with rfl | rfl
          · exact mem_of_lookup hkey
          · exact mem_of_lookup hvalue
        · simpa using (not_not.mp hlength).le
      · cases h
  | _ => cases h

theorem map_entryOf {entries : List AnyValue} {pairs : List (AnyValue × AnyValue)}
    (hdecoded : ∀ entry ∈ entries, entry.Decoded) (h : entries.map mapEntry = pairs.map some) :
    entries = pairs.map entryOf := by
  induction entries generalizing pairs with
  | nil =>
    cases pairs with
    | nil => rfl
    | cons pair pairs => cases h
  | cons entry entries ih =>
    cases pairs with
    | nil => cases h
    | cons pair pairs =>
      obtain ⟨hhead, htail⟩ := List.cons.inj h
      rw [List.map_cons, eq_entryOf (hdecoded entry List.mem_cons_self) hhead,
        ih (fun e he => hdecoded e (List.mem_cons_of_mem _ he)) htail]

theorem decoded_entryOf {pair : AnyValue × AnyValue} :
    (entryOf pair).Decoded ↔ pair.1.Decoded ∧ pair.2.Decoded := by
  rw [entryOf, AnyValue.decoded_kvList_iff]
  constructor
  · rintro ⟨-, hvalues⟩
    exact ⟨hvalues ("key", pair.1) (by simp), hvalues ("value", pair.2) (by simp)⟩
  · rintro ⟨hkey, hvalue⟩
    exact ⟨sorted_entry _ _, by simp [hkey, hvalue]⟩

theorem decoded_singleton {name : String} {payload : AnyValue}
    (h : (AnyValue.kvList [(name, payload)]).Decoded) : payload.Decoded :=
  (AnyValue.decoded_kvList_iff.mp h).2 _ (List.mem_singleton_self _)

/-! ### One type constructor at a time -/

section Constructors

variable {set : RegistrySet} {component : ResolvedComponent}

/-- Canonical values decide semantic equality of the two values. -/
def Decides (set : RegistrySet) (component : ResolvedComponent) (type : TypeRef)
    (left right : AnyValue) : Prop :=
  canonicalValue set component type left = canonicalValue set component type right ↔
    SemanticallyEqual set true component type left right

theorem Decides.iff {type : TypeRef} {left right : AnyValue}
    (h : Decides set component type left right) :
    canonicalValue set component type left = canonicalValue set component type right ↔
      SemanticallyEqual set true component type left right := h

theorem decides_primitive {name : String} {left right : AnyValue}
    (hleft : PrimitiveValue name left) (hright : PrimitiveValue name right) :
    Decides set component (.primitive name) left right := by
  rw [Decides, canonicalValue_primitive, canonicalValue_primitive]
  constructor
  · intro h
    rw [hleft.eq_of_canonical hright h]
    exact .primitive
  · intro h
    cases h
    rfl

theorem decides_named {name : String} {componentId registryId : Option String}
    {target : ResolvedComponent} {definition : NamedType} {left right : AnyValue}
    (hunfolds : Unfolds set component name componentId registryId target definition)
    (hdenotes : ∀ target' definition',
      Denotes set component name componentId registryId target' definition' ↔
        target' = target ∧ definition' = definition)
    (hvalue : Decides set target definition.asType left right) :
    Decides set component (.named name componentId registryId) left right := by
  rw [Decides, canonicalValue_named hunfolds, canonicalValue_named hunfolds]
  refine hvalue.trans ⟨fun h => ?_, fun h => ?_⟩
  · exact .named ((hdenotes target definition).mpr ⟨rfl, rfl⟩) h
  · cases h with
    | named hother h =>
      obtain ⟨rfl, rfl⟩ := (hdenotes _ _).mp hother
      exact h

theorem decides_collection {items : TypeRef} {ordered unique : Bool} {left right : List AnyValue}
    (hleft : ∀ item ∈ left, Accepted set component items item)
    (hright : ∀ item ∈ right, Accepted set component items item)
    (hitems : ∀ l ∈ left, ∀ r ∈ right, Decides set component items l r) :
    Decides set component (.collection items ordered unique) (.array left) (.array right) := by
  obtain ⟨xs, hxs⟩ := collect_isSome fun item hitem => (hleft item hitem).canonical
  obtain ⟨ys, hys⟩ := collect_isSome fun item hitem => (hright item hitem).canonical
  rw [Decides, canonicalValue_collection, canonicalValue_collection, hxs, hys]
  simp only [Option.map_some, Option.some.injEq, CanonicalValue.list.injEq]
  cases ordered with
  | true =>
    simp only [if_true]
    refine (collect_eq_iff_paired hxs hys hitems).trans ⟨fun h => ?_, fun h => ?_⟩
    · obtain ⟨pairs, hl, hr, hpairs⟩ := h
      exact .sequence hl hr hpairs
    · cases h with
      | sequence hl hr hpairs => exact ⟨_, hl, hr, hpairs⟩
  | false =>
    simp only [Bool.false_eq_true, if_false]
    rw [sort_eq_iff_perm]
    refine (collect_perm_iff_pairedUpTo hxs hys hitems).trans ⟨fun h => ?_, fun h => ?_⟩
    · obtain ⟨pairs, hl, hr, hpairs⟩ := h
      exact .bag hl hr hpairs
    · cases h with
      | bag hl hr hpairs => exact ⟨_, hl, hr, hpairs⟩

theorem isStringType_iff {keyType : TypeRef} :
    isStringType keyType = true ↔ keyType = .primitive "string" := by
  cases keyType <;> simp [isStringType]

/-- The results of a pass over keyed entries keep the keys. -/
theorem collect_keys {entries : List (String × AnyValue)} {f : AnyValue → Option CanonicalValue}
    {results : List (CanonicalValue × CanonicalValue)}
    (h : collect (fun entry : String × AnyValue => (f entry.2).map fun value =>
      (CanonicalValue.string entry.1, value)) entries = some results) :
    keys results = (keys entries).map CanonicalValue.string := by
  have hkeep : ∀ (entry : String × AnyValue) (result : CanonicalValue × CanonicalValue),
      ((f entry.2).map fun value => (CanonicalValue.string entry.1, value)) = some result →
        result.1 = CanonicalValue.string entry.1 := by
    intro entry result hresult
    obtain ⟨value, -, rfl⟩ := Option.map_eq_some_iff.mp hresult
    rfl
  rw [keys, map_of_collect h hkeep, keys, List.map_map]
  rfl

theorem decides_map_kvList {keyType valueType : TypeRef} {ordered : Bool}
    {left right : List (String × AnyValue)}
    (hstring : (!ordered && isStringType keyType) = true) (hsortedLeft : Sorted left)
    (hsortedRight : Sorted right) (hleft : ∀ entry ∈ left, Accepted set component valueType entry.2)
    (hright : ∀ entry ∈ right, Accepted set component valueType entry.2)
    (hvalues : ∀ l ∈ left, ∀ r ∈ right, Decides set component valueType l.2 r.2) :
    Decides set component (.map keyType valueType ordered) (.kvList left) (.kvList right) := by
  obtain ⟨hordered, hkeyType⟩ := Bool.and_eq_true_iff.mp hstring
  obtain rfl := isStringType_iff.mp hkeyType
  obtain rfl : ordered = false := by simpa using hordered
  have hsome : ∀ entries : List (String × AnyValue),
      (∀ entry ∈ entries, Accepted set component valueType entry.2) →
      ∃ results, collect (fun entry : String × AnyValue =>
        (canonicalValue set component valueType entry.2).map fun value =>
          (CanonicalValue.string entry.1, value)) entries = some results := by
    intro entries hentries
    refine collect_isSome fun entry hentry => ?_
    obtain ⟨canonical, hcanonical⟩ := (hentries entry hentry).canonical
    exact ⟨_, by rw [hcanonical]; rfl⟩
  have hnodup : ∀ {entries : List (String × AnyValue)}
      {results : List (CanonicalValue × CanonicalValue)}, Sorted entries →
      keys results = (keys entries).map CanonicalValue.string → (keys results).Nodup := by
    intro entries results hsorted hkeys
    rw [hkeys]
    exact hsorted.keys_nodup.map fun a b h => CanonicalValue.string.inj h
  obtain ⟨xs, hxs⟩ := hsome left hleft
  obtain ⟨ys, hys⟩ := hsome right hright
  rw [Decides, canonicalValue_map_kvList hstring, canonicalValue_map_kvList hstring, hxs, hys]
  simp only [Option.map_some, Option.some.injEq, CanonicalValue.map.injEq]
  rw [ofList_eq_iff_perm (hnodup hsortedLeft (collect_keys hxs))
    (hnodup hsortedRight (collect_keys hys))]
  have hpair : ∀ l ∈ left, ∀ r ∈ right,
      ((canonicalValue set component valueType l.2).map fun value =>
          (CanonicalValue.string l.1, value)) =
        ((canonicalValue set component valueType r.2).map fun value =>
          (CanonicalValue.string r.1, value)) ↔
      l.1 = r.1 ∧ SemanticallyEqual set true component valueType l.2 r.2 := by
    intro l hl r hr
    obtain ⟨x, hx⟩ := (hleft l hl).canonical
    obtain ⟨y, hy⟩ := (hright r hr).canonical
    rw [← (hvalues l hl r hr).iff, hx, hy]
    simp
  refine (collect_perm_iff_pairedUpTo hxs hys hpair).trans ⟨fun h => ?_, fun h => ?_⟩
  · obtain ⟨pairs, hl, hr, hpairs⟩ := h
    exact .stringMap hl hr (fun pair hpair => (hpairs pair hpair).1)
      fun pair hpair => (hpairs pair hpair).2
  · cases h with
    | stringMap hl hr hkeys hvalues =>
      exact ⟨_, hl, hr, fun pair hpair => ⟨hkeys pair hpair, hvalues pair hpair⟩⟩

theorem decides_map_array {keyType valueType : TypeRef} {ordered : Bool}
    {left right : List (AnyValue × AnyValue)}
    (hstring : (!ordered && isStringType keyType) = false)
    (hleft : ∀ pair ∈ left, Accepted set component keyType pair.1 ∧
      Accepted set component valueType pair.2)
    (hright : ∀ pair ∈ right, Accepted set component keyType pair.1 ∧
      Accepted set component valueType pair.2)
    (hfreshLeft : (left.map fun pair => canonicalValue set component keyType pair.1).Nodup)
    (hfreshRight : (right.map fun pair => canonicalValue set component keyType pair.1).Nodup)
    (hpairs : ∀ l ∈ left, ∀ r ∈ right, Decides set component keyType l.1 r.1 ∧
      Decides set component valueType l.2 r.2) :
    Decides set component (.map keyType valueType ordered) (.array (left.map entryOf))
      (.array (right.map entryOf)) := by
  have hwire : ∀ pairs : List (AnyValue × AnyValue),
      (pairs.map entryOf).map mapEntry = pairs.map some := by
    intro pairs
    rw [List.map_map]
    exact List.map_congr_left fun pair _ => mapEntry_entryOf pair
  have hsome : ∀ pairs : List (AnyValue × AnyValue),
      (∀ pair ∈ pairs, Accepted set component keyType pair.1 ∧
        Accepted set component valueType pair.2) →
      ∃ results, collect (canonicalPair set component keyType valueType) pairs = some results := by
    intro pairs hall
    refine collect_isSome fun pair hpair => ?_
    obtain ⟨key, hkey⟩ := (hall pair hpair).1.canonical
    obtain ⟨value, hvalue⟩ := (hall pair hpair).2.canonical
    exact ⟨(key, value), canonicalPair_eq_some.mpr ⟨hkey, hvalue⟩⟩
  have hpair : ∀ l ∈ left, ∀ r ∈ right,
      canonicalPair set component keyType valueType l =
        canonicalPair set component keyType valueType r ↔
      SemanticallyEqual set true component keyType l.1 r.1 ∧
        SemanticallyEqual set true component valueType l.2 r.2 := by
    intro l hl r hr
    have hdecides := hpairs l hl r hr
    obtain ⟨key, hkey⟩ := (hleft l hl).1.canonical
    obtain ⟨value, hvalue⟩ := (hleft l hl).2.canonical
    obtain ⟨key', hkey'⟩ := (hright r hr).1.canonical
    obtain ⟨value', hvalue'⟩ := (hright r hr).2.canonical
    have hl : canonicalPair set component keyType valueType l = some (key, value) :=
      canonicalPair_eq_some.mpr ⟨hkey, hvalue⟩
    have hr : canonicalPair set component keyType valueType r = some (key', value') :=
      canonicalPair_eq_some.mpr ⟨hkey', hvalue'⟩
    rw [← hdecides.1.iff, ← hdecides.2.iff, hl, hr, hkey, hvalue, hkey', hvalue']
    simp
  obtain ⟨xs, hxs⟩ := hsome left hleft
  obtain ⟨ys, hys⟩ := hsome right hright
  rw [Decides, canonicalValue_map_array hstring, canonicalValue_map_array hstring,
    collect_canonicalEntry (hwire left), collect_canonicalEntry (hwire right), hxs, hys]
  simp only [Option.map_some, Option.some.injEq]
  cases ordered with
  | true =>
    simp only [if_true, CanonicalValue.orderedMap.injEq]
    refine (collect_eq_iff_paired hxs hys hpair).trans ⟨fun h => ?_, fun h => ?_⟩
    · obtain ⟨pairs, rfl, rfl, hall⟩ := h
      exact .positionalMap rfl (List.map_map ..) (List.map_map ..)
        (fun pair hmem => (hall pair hmem).1) fun pair hmem => (hall pair hmem).2
    · cases h with
      | @positionalMap _ _ _ _ _ pairs _ hl hr hkeys hvalues =>
        refine ⟨pairs, entryOf_injective.list_map ?_, entryOf_injective.list_map ?_,
          fun pair hmem => ⟨hkeys pair hmem, hvalues pair hmem⟩⟩
        · rw [hl, List.map_map]
          rfl
        · rw [hr, List.map_map]
          rfl
      | association _ hfree => exact absurd (hfree rfl) (by decide)
  | false =>
    have hkeys : ∀ {pairs : List (AnyValue × AnyValue)}
        {results : List (CanonicalValue × CanonicalValue)},
        collect (canonicalPair set component keyType valueType) pairs = some results →
        (pairs.map fun pair => canonicalValue set component keyType pair.1).Nodup →
        (keys results).Nodup := by
      intro pairs results hresults hnodup
      have hkeys : results.map (fun result => some result.1) =
          pairs.map fun pair => canonicalValue set component keyType pair.1 :=
        map_of_collect hresults fun pair result hresult =>
          (canonicalPair_eq_some.mp hresult).1.symm
      rw [← hkeys] at hnodup
      exact List.Nodup.of_map some (by simpa [keys, List.map_map, Function.comp_def] using hnodup)
    simp only [Bool.false_eq_true, if_false, CanonicalValue.map.injEq]
    rw [ofList_eq_iff_perm (hkeys hxs hfreshLeft) (hkeys hys hfreshRight)]
    have hcoded : keyType ≠ .primitive "string" := fun heq => by
      rw [isStringType_iff.mpr heq] at hstring
      simp at hstring
    refine (collect_perm_iff_pairedUpTo hxs hys hpair).trans ⟨fun h => ?_, fun h => ?_⟩
    · obtain ⟨pairs, hl, hr, hall⟩ := h
      have hl' : (left.map entryOf).Perm (pairs.map fun pair => entryOf pair.1) := by
        simpa only [List.map_map, Function.comp_def] using hl.map entryOf
      have hr' : (right.map entryOf).Perm (pairs.map fun pair => entryOf pair.2) := by
        simpa only [List.map_map, Function.comp_def] using hr.map entryOf
      exact .association (.inr hcoded) (fun h => by cases h) hl' hr'
        (fun pair hmem => (hall pair hmem).1) fun pair hmem => (hall pair hmem).2
    · cases h with
      | @association _ _ _ _ _ _ pairs _ _ hl hr hkeys hvalues =>
        refine ⟨pairs, ?_, ?_, fun pair hmem => ⟨hkeys pair hmem, hvalues pair hmem⟩⟩
        · refine (List.map_perm_map_iff entryOf_injective).mp ?_
          simpa only [List.map_map, Function.comp_def] using hl
        · refine (List.map_perm_map_iff entryOf_injective).mp ?_
          simpa only [List.map_map, Function.comp_def] using hr

theorem decides_tuple {items : List TypeRef} {left right : List AnyValue}
    (hlengthLeft : left.length = items.length) (hlengthRight : right.length = items.length)
    (hleft : ∀ i (h : i < left.length) (h' : i < items.length),
      Accepted set component items[i] left[i])
    (hright : ∀ i (h : i < right.length) (h' : i < items.length),
      Accepted set component items[i] right[i])
    (hitems : ∀ i (hi : i < items.length) (hl : i < left.length) (hr : i < right.length),
      Decides set component items[i] left[i] right[i]) :
    Decides set component (.tuple items) (.array left) (.array right) := by
  have hsome : ∀ values : List AnyValue, values.length = items.length →
      (∀ i (h : i < values.length) (h' : i < items.length),
        Accepted set component items[i] values[i]) →
      ∃ results, collect (fun pair => canonicalValue set component pair.2 pair.1)
        (values.zip items) = some results := by
    intro values hlength hvalues
    refine collect_isSome fun pair hpair => ?_
    obtain ⟨i, hi, rfl⟩ := List.getElem_of_mem hpair
    rw [List.length_zip] at hi
    rw [List.getElem_zip]
    exact (hvalues i (by omega) (by omega)).canonical
  obtain ⟨xs, hxs⟩ := hsome left hlengthLeft hleft
  obtain ⟨ys, hys⟩ := hsome right hlengthRight hright
  rw [Decides, canonicalValue_tuple hlengthLeft, canonicalValue_tuple hlengthRight, hxs, hys]
  simp only [Option.map_some, Option.some.injEq, CanonicalValue.tuple.injEq]
  rw [collect_eq_iff_map hxs hys]
  constructor
  · intro h
    refine .tuple hlengthLeft hlengthRight fun i hi hl hr => (hitems i hi hl hr).mp ?_
    have hget := congrArg (·[i]?) h
    simpa [List.getElem?_eq_getElem, hi, hl, hr] using hget
  · intro h
    cases h with
    | tuple _ _ h =>
      refine List.ext_getElem (by simp [hlengthLeft, hlengthRight]) fun i hi hi' => ?_
      simp only [List.length_map, List.length_zip] at hi hi'
      simp only [List.getElem_map, List.getElem_zip]
      exact (hitems i (by omega) (by omega) (by omega)).mpr (h i (by omega) (by omega) (by omega))

theorem decides_record {fields : List NamedValue} {left right : List (String × AnyValue)}
    (hfields : (fields.map Prod.fst).Nodup)
    (hkeysLeft : ∀ name, name ∈ keys left ↔ name ∈ fields.map Prod.fst)
    (hkeysRight : ∀ name, name ∈ keys right ↔ name ∈ fields.map Prod.fst)
    (hleft : ∀ field ∈ fields, ∀ value, lookup left field.1 = some value →
      Accepted set component field.2 value)
    (hright : ∀ field ∈ fields, ∀ value, lookup right field.1 = some value →
      Accepted set component field.2 value)
    (hvalues : ∀ field ∈ fields, ∀ l r, lookup left field.1 = some l →
      lookup right field.1 = some r → Decides set component field.2 l r) :
    Decides set component (.record fields) (.kvList left) (.kvList right) := by
  have hone : ∀ entries : List (String × AnyValue),
      (∀ name, name ∈ keys entries ↔ name ∈ fields.map Prod.fst) →
      (∀ field ∈ fields, ∀ value, lookup entries field.1 = some value →
        Accepted set component field.2 value) →
      ∀ field ∈ fields, ∃ value canonical, lookup entries field.1 = some value ∧
        canonicalValue set component field.2 value = some canonical := by
    intro entries hkeys hall field hfield
    obtain ⟨value, hvalue⟩ := exists_lookup_iff.mpr
      ((hkeys field.1).mpr (List.mem_map_of_mem hfield))
    obtain ⟨canonical, hcanonical⟩ := (hall field hfield value hvalue).canonical
    exact ⟨value, canonical, hvalue, hcanonical⟩
  have hsome : ∀ entries : List (String × AnyValue),
      (∀ name, name ∈ keys entries ↔ name ∈ fields.map Prod.fst) →
      (∀ field ∈ fields, ∀ value, lookup entries field.1 = some value →
        Accepted set component field.2 value) →
      ∃ results, collect (canonicalField set component entries) fields = some results ∧
        keys results = fields.map Prod.fst := by
    intro entries hkeys hall
    have hfield : ∀ field ∈ fields, ∃ result,
        canonicalField set component entries field = some result := by
      intro field hfield
      obtain ⟨value, canonical, hvalue, hcanonical⟩ := hone entries hkeys hall field hfield
      exact ⟨_, canonicalField_eq_some.mpr ⟨value, canonical, hvalue, hcanonical, rfl⟩⟩
    obtain ⟨results, hresults⟩ := collect_isSome hfield
    refine ⟨results, hresults, map_of_collect hresults fun field result hresult => ?_⟩
    obtain ⟨value, canonical, -, -, rfl⟩ := canonicalField_eq_some.mp hresult
    rfl
  obtain ⟨xs, hxs, hxkeys⟩ := hsome left hkeysLeft hleft
  obtain ⟨ys, hys, hykeys⟩ := hsome right hkeysRight hright
  have hcanonicalLeft : canonicalValue set component (.record fields) (.kvList left) =
      some (.record (ofList xs)) := by
    rw [canonicalValue_record, hxs]
    rfl
  have hcanonicalRight : canonicalValue set component (.record fields) (.kvList right) =
      some (.record (ofList ys)) := by
    rw [canonicalValue_record, hys]
    rfl
  have hxnodup : (keys xs).Nodup := hxkeys ▸ hfields
  have hynodup : (keys ys).Nodup := hykeys ▸ hfields
  have heq : ofList xs = ofList ys ↔ xs = ys := by
    rw [ofList_eq_iff_perm hxnodup hynodup]
    exact ⟨eq_of_perm_of_keys hxnodup (hxkeys.trans hykeys.symm), fun h => h ▸ List.Perm.refl _⟩
  rw [Decides, hcanonicalLeft, hcanonicalRight, Option.some.injEq, CanonicalValue.record.injEq,
    heq, collect_eq_iff_map hxs hys, List.map_inj_left]
  constructor
  · intro h
    refine .record hkeysLeft hkeysRight fun field hfield l r hl hr => ?_
    refine (hvalues field hfield l r hl hr).mp ?_
    obtain ⟨x, hx⟩ := (hleft field hfield l hl).canonical
    have hresult := canonicalField_eq_some.mpr ⟨l, x, hl, hx, rfl⟩
    rw [h field hfield] at hresult
    obtain ⟨value, canonical, hvalue, hcanonical, heq⟩ := canonicalField_eq_some.mp hresult
    obtain rfl : value = r := Option.some.inj (hvalue.symm.trans hr)
    rw [hx, hcanonical, (Prod.mk.inj heq).2]
  · intro h field hfield
    cases h with
    | record _ _ h =>
      obtain ⟨l, x, hl, hx⟩ := hone left hkeysLeft hleft field hfield
      obtain ⟨r, y, hr, hy⟩ := hone right hkeysRight hright field hfield
      have hxy := (hvalues field hfield l r hl hr).mpr (h field hfield l r hl hr)
      obtain rfl : x = y := Option.some.inj (hx.symm.trans (hxy.trans hy))
      rw [canonicalField_eq_some.mpr ⟨l, x, hl, hx, rfl⟩,
        canonicalField_eq_some.mpr ⟨r, x, hr, hy, rfl⟩]

theorem decides_absent {inner : TypeRef} :
    Decides set component (.optional inner) (.kvList [("None", .kvList [])])
      (.kvList [("None", .kvList [])]) :=
  ⟨fun _ => .absent, fun _ => rfl⟩

theorem decides_present {inner : TypeRef} {left right : AnyValue}
    (hleft : Accepted set component inner left) (hright : Accepted set component inner right)
    (hvalue : Decides set component inner left right) :
    Decides set component (.optional inner) (.kvList [("Some", left)])
      (.kvList [("Some", right)]) := by
  obtain ⟨x, hx⟩ := hleft.canonical
  obtain ⟨y, hy⟩ := hright.canonical
  have hpayload : x = y ↔ SemanticallyEqual set true component inner left right := by
    rw [← hvalue.iff, hx, hy, Option.some.injEq]
  rw [Decides, canonicalValue_optional_some, canonicalValue_optional_some, hx, hy]
  simp only [Option.map_some, Option.some.injEq, CanonicalValue.variant.injEq, true_and]
  refine hpayload.trans ⟨.present, fun h => ?_⟩
  generalize hl : AnyValue.kvList [("Some", left)] = l at h
  generalize hr : AnyValue.kvList [("Some", right)] = r at h
  cases h with
  | absent => simp at hl
  | present h =>
    obtain rfl : left = _ := by simpa using hl
    obtain rfl : right = _ := by simpa using hr
    exact h

/-- Absence and presence differ in both senses. -/
theorem decides_absent_present {inner : TypeRef} {payload : AnyValue}
    (hpayload : Accepted set component inner payload) :
    Decides set component (.optional inner) (.kvList [("None", .kvList [])])
        (.kvList [("Some", payload)]) ∧
      Decides set component (.optional inner) (.kvList [("Some", payload)])
        (.kvList [("None", .kvList [])]) := by
  obtain ⟨x, hx⟩ := hpayload.canonical
  have hnone : canonicalValue set component (.optional inner) (.kvList [("None", .kvList [])]) =
      some (.variant "None" .unit) := by
    rw [canonicalValue_optional_none]
    rfl
  have hsome : canonicalValue set component (.optional inner) (.kvList [("Some", payload)]) =
      some (.variant "Some" x) := by
    rw [canonicalValue_optional_some, hx]
    rfl
  rw [Decides, Decides, hnone, hsome]
  have hdistinct : ∀ {l r : AnyValue},
      SemanticallyEqual set true component (.optional inner) l r →
        (l = .kvList [("None", .kvList [])] ↔ r = .kvList [("None", .kvList [])]) := by
    intro l r h
    cases h <;> simp
  refine ⟨⟨fun h => by simp at h, fun h => ?_⟩, ⟨fun h => by simp at h, fun h => ?_⟩⟩
  · have := (hdistinct h).mp rfl
    simp at this
  · have := (hdistinct h).mpr rfl
    simp at this

theorem semanticallyEqual_taggedUnion {positional : Bool} {variants : List Variant}
    {name other : String} {left right : AnyValue} :
    SemanticallyEqual set positional component (.taggedUnion variants) (.kvList [(name, left)])
        (.kvList [(other, right)]) ↔
      name = other ∧ ((∃ type, (name, some type) ∈ variants ∧
          SemanticallyEqual set positional component type left right) ∨
        ((name, none) ∈ variants ∧ left = .kvList [] ∧ right = .kvList [])) := by
  constructor
  · intro h
    cases h with
    | payload hvariant hvalue => exact ⟨rfl, .inl ⟨_, hvariant, hvalue⟩⟩
    | bare hvariant => exact ⟨rfl, .inr ⟨hvariant, rfl, rfl⟩⟩
  · rintro ⟨rfl, ⟨type, hvariant, hvalue⟩ | ⟨hvariant, rfl, rfl⟩⟩
    · exact .payload hvariant hvalue
    · exact .bare hvariant

/-- With distinct variant names, membership and search agree. -/
theorem find_variant_iff {variants : List Variant} (hnodup : (variants.map Prod.fst).Nodup)
    {name : String} {payload : Option TypeRef} :
    variants.find? (fun variant => variant.1 == name) = some (name, payload) ↔
      (name, payload) ∈ variants := by
  refine ⟨List.mem_of_find?_eq_some, fun hmem => ?_⟩
  induction variants with
  | nil => simp at hmem
  | cons head rest ih =>
    obtain ⟨hfresh, hrest⟩ := List.nodup_cons.mp hnodup
    rcases List.mem_cons.mp hmem with rfl | htail
    · simp
    · have hne : head.1 ≠ name := fun heq => hfresh (heq ▸ List.mem_map_of_mem htail)
      rw [List.find?_cons_of_neg (by simpa using hne)]
      exact ih hrest htail

theorem decides_taggedUnion {variants : List Variant} {left right : AnyValue}
    (hnodup : (variants.map Prod.fst).Nodup)
    (hleft : Accepted set component (.taggedUnion variants) left)
    (hright : Accepted set component (.taggedUnion variants) right)
    (hpayload : ∀ name l r type, left = .kvList [(name, l)] → (name, some type) ∈ variants →
      Accepted set component type l → Accepted set component type r →
      right = .kvList [(name, r)] → Decides set component type l r) :
    Decides set component (.taggedUnion variants) left right := by
  have hunit : canonicalPrimitive (.kvList []) "unit" = some .unit := rfl
  rcases hleft.taggedUnion with ⟨name, l, type, rfl, hfind, hl⟩ | ⟨name, rfl, hfind⟩
  · obtain ⟨x, hx⟩ := hl.canonical
    rcases hright.taggedUnion with ⟨other, r, type', rfl, hfind', hr⟩ | ⟨other, rfl, hfind'⟩
    · obtain ⟨y, hy⟩ := hr.canonical
      rw [Decides, canonicalValue_payload hfind, canonicalValue_payload hfind', hx, hy,
        semanticallyEqual_taggedUnion]
      simp only [Option.map_some, Option.some.injEq, CanonicalValue.variant.injEq]
      refine and_congr_right fun hname => ?_
      subst hname
      obtain rfl : type = type' := by
        rw [hfind] at hfind'
        simpa using hfind'
      have hdecides := hpayload name l r type rfl ((find_variant_iff hnodup).mp hfind) hl hr rfl
      have hxy : x = y ↔ SemanticallyEqual set true component type l r := by
        rw [← hdecides.iff, hx, hy, Option.some.injEq]
      refine hxy.trans ⟨fun h => .inl ⟨type, (find_variant_iff hnodup).mp hfind, h⟩, ?_⟩
      rintro (⟨type', hmem, h⟩ | ⟨hmem, -, -⟩)
      · have hsame := (find_variant_iff hnodup).mpr hmem
        rw [hfind] at hsame
        obtain rfl : type = type' := by simpa using hsame
        exact h
      · have hsame := (find_variant_iff hnodup).mpr hmem
        rw [hfind] at hsame
        simp at hsame
    · rw [Decides, canonicalValue_payload hfind, canonicalValue_bare hfind', hx, hunit,
        semanticallyEqual_taggedUnion]
      simp only [Option.map_some, Option.some.injEq, CanonicalValue.variant.injEq]
      have hne : name ≠ other := by
        rintro rfl
        rw [hfind] at hfind'
        simp at hfind'
      simp [hne]
  · rcases hright.taggedUnion with ⟨other, r, type', rfl, hfind', hr⟩ | ⟨other, rfl, hfind'⟩
    · obtain ⟨y, hy⟩ := hr.canonical
      rw [Decides, canonicalValue_bare hfind, canonicalValue_payload hfind', hy, hunit,
        semanticallyEqual_taggedUnion]
      simp only [Option.map_some, Option.some.injEq, CanonicalValue.variant.injEq]
      have hne : name ≠ other := by
        rintro rfl
        rw [hfind] at hfind'
        simp at hfind'
      simp [hne]
    · rw [Decides, canonicalValue_bare hfind, canonicalValue_bare hfind', hunit,
        semanticallyEqual_taggedUnion]
      simp only [Option.map_some, Option.some.injEq, CanonicalValue.variant.injEq, and_true]
      exact ⟨fun h => ⟨h, .inr ((find_variant_iff hnodup).mp hfind)⟩, fun h => h.1⟩

end Constructors

/-! ### Every type of a coherent set -/

section Coherence

variable {set : RegistrySet} {component : ResolvedComponent}

/-- In a coherent set, resolution by the linked passes is the denotation of the name. -/
theorem denotes_iff_of_unfolds (hcoherent : Coherent set) {id name : String}
    (hcomponent : lookup set.components id = some component)
    {componentId registryId : Option String}
    (htype : Declares component.component (.named name componentId registryId))
    {target : ResolvedComponent} {definition : NamedType}
    (hunfolds : Unfolds set component name componentId registryId target definition)
    (target' : ResolvedComponent) (definition' : NamedType) :
    Denotes set component name componentId registryId target' definition' ↔
      target' = target ∧ definition' = definition := by
  have hunique : ∀ {t : ResolvedComponent} {d : NamedType},
      Denotes set component name componentId registryId t d → t = target ∧ d = definition := by
    intro t d h
    obtain rfl : t = target := Option.some.inj (h.member.symm.trans hunfolds.member)
    have hnodup := (hcoherent.shaped _ _ h.member).types
    have hmem := List.mem_of_find?_eq_some hunfolds.find
    have hname : definition.name = name := by simpa using List.find?_some hunfolds.find
    exact ⟨rfl, List.inj_on_of_nodup_map hnodup h.defined hmem (h.named.trans hname.symm)⟩
  obtain ⟨t, d, hdenotes⟩ := hcoherent.denotes id component name componentId registryId
    hcomponent htype
  constructor
  · exact hunique
  · rintro ⟨rfl, rfl⟩
    obtain ⟨rfl, rfl⟩ := hunique hdenotes
    exact hdenotes

theorem decides_of_accepted (hcoherent : Coherent set) {id : String} {type : TypeRef}
    {left right : AnyValue} (hcomponent : lookup set.components id = some component)
    (htype : Declares component.component type) (hdecodedLeft : left.Decoded)
    (hdecodedRight : right.Decoded) (hleft : Accepted set component type left)
    (hright : Accepted set component type right) : Decides set component type left right := by
  induction component, type, left using value_induction generalizing id right with
  | step component type left ih unfoldNamed =>
    have hshaped := (hcoherent.shaped id component hcomponent).declared type htype
    cases type with
    | primitive name => exact decides_primitive hleft.primitive hright.primitive
    | named name componentId registryId =>
      obtain ⟨target, definition, hunfolds, hl⟩ := hleft.named
      obtain ⟨target', definition', hunfolds', hr⟩ := hright.named
      obtain rfl : target = target' :=
        Option.some.inj (hunfolds.member.symm.trans hunfolds'.member)
      obtain rfl : definition = definition' :=
        Option.some.inj (hunfolds.find.symm.trans hunfolds'.find)
      have hdefined : Declares target.component definition.asType :=
        (Channel.definition (List.mem_of_find?_eq_some hunfolds.find)).declares
      exact decides_named hunfolds (denotes_iff_of_unfolds hcoherent hcomponent htype hunfolds)
        (unfoldNamed rfl target definition hunfolds.member hdefined hdecodedLeft hdecodedRight
          hl hr)
    | collection items ordered unique =>
      obtain ⟨lefts, rfl, hlefts, -⟩ := hleft.collection
      obtain ⟨rights, rfl, hrights, -⟩ := hright.collection
      rw [AnyValue.decoded_array_iff] at hdecodedLeft hdecodedRight
      exact decides_collection hlefts hrights fun l hl r hr =>
        ih component items l (AnyValue.sizeOf_lt_array hl) hcomponent
          (htype.part (.items items ordered unique)) (hdecodedLeft l hl) (hdecodedRight r hr)
          (hlefts l hl) (hrights r hr)
    | map keyType valueType ordered =>
      have hkeyType := htype.part (.keys keyType valueType ordered)
      have hvalueType := htype.part (.values keyType valueType ordered)
      rcases isStringType_cases ordered keyType with hstring | hstring
      · obtain ⟨lefts, rfl, hlefts⟩ := hleft.map_kvList hstring
        obtain ⟨rights, rfl, hrights⟩ := hright.map_kvList hstring
        rw [AnyValue.decoded_kvList_iff] at hdecodedLeft hdecodedRight
        exact decides_map_kvList hstring hdecodedLeft.1 hdecodedRight.1 hlefts hrights
          fun l hl r hr => ih component valueType l.2 (AnyValue.sizeOf_lt_kvList hl) hcomponent
            hvalueType (hdecodedLeft.2 l hl) (hdecodedRight.2 r hr) (hlefts l hl) (hrights r hr)
      · obtain ⟨lefts, leftPairs, rfl, hleftPairs, hlefts, hleftFresh⟩ := hleft.map_array hstring
        obtain ⟨rights, rightPairs, rfl, hrightPairs, hrights, hrightFresh⟩ :=
          hright.map_array hstring
        rw [AnyValue.decoded_array_iff] at hdecodedLeft hdecodedRight
        rw [repeatsKey_iff_nodup hleftPairs fun pair hpair => (hlefts pair hpair).1.canonical]
          at hleftFresh
        rw [repeatsKey_iff_nodup hrightPairs fun pair hpair => (hrights pair hpair).1.canonical]
          at hrightFresh
        obtain rfl := map_entryOf hdecodedLeft hleftPairs
        obtain rfl := map_entryOf hdecodedRight hrightPairs
        refine decides_map_array hstring hlefts hrights hleftFresh hrightFresh fun l hl r hr => ?_
        have hleftMem := List.mem_map_of_mem (f := entryOf) hl
        have hrightMem := List.mem_map_of_mem (f := entryOf) hr
        have hsize := AnyValue.sizeOf_lt_array hleftMem
        obtain ⟨hkeySize, hvalueSize⟩ := mapEntry_sizeOf_lt (mapEntry_entryOf l)
        have hl' := decoded_entryOf.mp (hdecodedLeft _ hleftMem)
        have hr' := decoded_entryOf.mp (hdecodedRight _ hrightMem)
        exact ⟨ih component keyType l.1 (hkeySize.trans hsize) hcomponent hkeyType hl'.1 hr'.1
            (hlefts l hl).1 (hrights r hr).1,
          ih component valueType l.2 (hvalueSize.trans hsize) hcomponent hvalueType hl'.2 hr'.2
            (hlefts l hl).2 (hrights r hr).2⟩
    | tuple items =>
      obtain ⟨lefts, rfl, hleftLength, hlefts⟩ := hleft.tuple
      obtain ⟨rights, rfl, hrightLength, hrights⟩ := hright.tuple
      rw [AnyValue.decoded_array_iff] at hdecodedLeft hdecodedRight
      exact decides_tuple hleftLength hrightLength hlefts hrights fun i hi hl hr =>
        ih component items[i] lefts[i] (AnyValue.sizeOf_lt_array (List.getElem_mem hl)) hcomponent
          (htype.part (.item (List.getElem_mem hi))) (hdecodedLeft _ (List.getElem_mem hl))
          (hdecodedRight _ (List.getElem_mem hr)) (hlefts i hl hi) (hrights i hr hi)
    | record fields =>
      obtain ⟨lefts, rfl, hleftKeys, hlefts⟩ := hleft.record
      obtain ⟨rights, rfl, hrightKeys, hrights⟩ := hright.record
      exact decides_record hshaped hleftKeys hrightKeys hlefts hrights
        fun field hfield l r hl hr => ih component field.2 l (AnyValue.sizeOf_lt_of_lookup hl)
          hcomponent (htype.part (.field hfield)) (hdecodedLeft.of_lookup hl)
          (hdecodedRight.of_lookup hr) (hlefts field hfield l hl) (hrights field hfield r hr)
    | optional inner =>
      rcases hleft.optional with rfl | ⟨l, rfl, hl⟩
      · rcases hright.optional with rfl | ⟨r, rfl, hr⟩
        · exact decides_absent
        · exact (decides_absent_present hr).1
      · rcases hright.optional with rfl | ⟨r, rfl, hr⟩
        · exact (decides_absent_present hl).2
        · exact decides_present hl hr (ih component inner l (AnyValue.sizeOf_lt_head _ _ _)
            hcomponent (htype.part (.value inner)) (decoded_singleton hdecodedLeft)
            (decoded_singleton hdecodedRight) hl hr)
    | taggedUnion variants =>
      refine decides_taggedUnion hshaped.2 hleft hright ?_
      rintro name l r type rfl hvariant hl hr rfl
      exact ih component type l (AnyValue.sizeOf_lt_head _ _ _) hcomponent
        (htype.part (.payload hvariant)) (decoded_singleton hdecodedLeft)
        (decoded_singleton hdecodedRight) hl hr

end Coherence

/-! ### Loaded sets -/

/-- Canonical values decide semantic equality, position of ordered maps included. -/
theorem canonicalValue_eq_iff {Path : Type} [Ord Path] [Std.TransOrd Path] [Std.LawfulEqOrd Path]
    {env : Environment Path} {root : Path} {explicitImports : List Path} {set : RegistrySet}
    (hload : loadFs env root explicitImports = some ⟨some set, []⟩)
    {id : String} {component : ResolvedComponent}
    (hcomponent : lookup set.components id = some component) {type : TypeRef}
    (htype : Declares component.component type) {left right : AnyValue}
    (hdecodedLeft : left.Decoded) (hdecodedRight : right.Decoded)
    {leftLocation rightLocation : String}
    (hleft : validateValue set component type left leftLocation = [])
    (hright : validateValue set component type right rightLocation = []) :
    canonicalValue set component type left = canonicalValue set component type right ↔
      SemanticallyEqual set true component type left right :=
  decides_of_accepted (loadFs_coherent hload) hcomponent htype hdecodedLeft hdecodedRight
    ⟨_, hleft⟩ ⟨_, hright⟩

/-- One operation whose single input is an ordered map from names to counts. -/
def tallyComponent : RegistryComponent where
  id := "tally"
  dependencies := []
  operations :=
    [{ name := "record"
       inputs := [("counts", .map (.primitive "string") (.primitive "i64") true)]
       observations := []
       outcomes := ⟨none, false, []⟩
       extensions := [] }]
  types := []
  extensions := []

def tallyDocument : RegistryDocument where
  format := "ctsc.registry"
  formatVersion := "0.4.0"
  registryId := "tally.registry"
  version := "1.0.0"
  imports := []
  components := [tallyComponent]
  extensions := []

/-- A file system with the registry document at its only path. -/
def tallyEnvironment : Environment Nat where
  files := [(0, [])]
  readError := fun _ => "no such file"
  display := fun _ => "tally.json"
  canonicalize := id
  relativeTo := fun base _ => base
  parseDocument := fun _ => .ok tallyDocument
  sha256Digest := fun _ => "sha256:"
  parseAuthority := .ok
  percentDecode := .ok

def tallyTarget : ResolvedComponent := ⟨"tally.registry", tallyComponent⟩

def tallySet : RegistrySet where
  rootId := "tally.registry"
  rootVersion := "1.0.0"
  rootDigest := "sha256:"
  components := [("tally", tallyTarget)]

def countsType : TypeRef := .map (.primitive "string") (.primitive "i64") true

def countsEntries : List (AnyValue × AnyValue) := [(.string "a", .int 1), (.string "b", .int 2)]

theorem tally_loads : loadFs tallyEnvironment 0 [] = some ⟨some tallySet, []⟩ := rfl

theorem tally_lookup : lookup tallySet.components "tally" = some tallyTarget := rfl

theorem counts_declared : Declares tallyTarget.component countsType := by
  have hinput : Channel tallyComponent ("counts", countsType).2 :=
    .input List.mem_cons_self List.mem_cons_self
  exact hinput.declares

theorem counts_accepted {entries : List (AnyValue × AnyValue)}
    (h : entries = countsEntries ∨ entries = countsEntries.reverse) (location : String) :
    (AnyValue.array (entries.map entryOf)).Decoded ∧
      validateValue tallySet tallyTarget countsType (.array (entries.map entryOf)) location =
        [] := by
  have hdecoded : ∀ text number, (entryOf (.string text, .int number)).Decoded :=
    fun text number => decoded_entryOf.mpr ⟨.string text, .int number⟩
  have hkeys : ∀ text location, validateValue tallySet tallyTarget (.primitive "string")
      (.string text) location = [] := by
    intro text location
    rw [validateValue]
    exact validatePrimitive_eq_nil.mpr (.string text)
  have hvalues : ∀ number location, validateValue tallySet tallyTarget (.primitive "i64")
      (.int number) location = [] := by
    intro number location
    rw [validateValue]
    exact validatePrimitive_eq_nil.mpr (.i64 number)
  have hcanonical : ∀ text, canonicalValue tallySet tallyTarget (.primitive "string")
      (.string text) = some (.string text) := by
    intro text
    rw [canonicalValue_primitive]
    rfl
  rw [countsType, validateValue_map_array rfl]
  rcases h with rfl | rfl
  all_goals
    refine ⟨.array fun value hvalue => ?_, _, rfl, fun i hi => ?_⟩
    · simp only [countsEntries, List.reverse_cons, List.reverse_nil, List.nil_append,
        List.singleton_append, List.map_cons, List.map_nil, List.mem_cons, List.not_mem_nil,
        or_false] at hvalue
      rcases hvalue with rfl | rfl
      all_goals exact hdecoded _ _
    · simp only [countsEntries, List.reverse_cons, List.reverse_nil, List.nil_append,
        List.singleton_append, List.map_cons, List.map_nil, List.length_cons,
        List.length_nil] at hi ⊢
      rcases (by omega : i = 0 ∨ i = 1) with rfl | rfl
      all_goals
        refine ⟨_, _, mapEntry_entryOf _, hkeys _ _, hvalues _ _, ?_⟩
        simp [repeatsKey, hcanonical, mapEntry_entryOf]

theorem canonicalValue_eq_iff_counts :
    canonicalValue tallySet tallyTarget countsType (.array (countsEntries.map entryOf)) =
        canonicalValue tallySet tallyTarget countsType
          (.array (countsEntries.reverse.map entryOf)) ↔
      SemanticallyEqual tallySet true tallyTarget countsType (.array (countsEntries.map entryOf))
        (.array (countsEntries.reverse.map entryOf)) :=
  canonicalValue_eq_iff tally_loads tally_lookup counts_declared
    (counts_accepted (.inl rfl) "$").1 (counts_accepted (.inr rfl) "$").1
    (counts_accepted (.inl rfl) "$").2 (counts_accepted (.inr rfl) "$").2

/-- Canonical values tell apart ordered maps that associate the same keys with the same
values in another order. -/
theorem association_not_decided : ¬ ∀ (env : Environment Nat) (root : Nat)
    (explicitImports : List Nat) (set : RegistrySet),
    loadFs env root explicitImports = some ⟨some set, []⟩ →
    ∀ (id : String) (component : ResolvedComponent), lookup set.components id = some component →
    ∀ type, Declares component.component type →
    ∀ left right : AnyValue, left.Decoded → right.Decoded →
    ∀ leftLocation rightLocation, validateValue set component type left leftLocation = [] →
    validateValue set component type right rightLocation = [] →
    (canonicalValue set component type left = canonicalValue set component type right ↔
      SemanticallyEqual set false component type left right) := by
  intro h
  have hleft := counts_accepted (.inl rfl) "$"
  have hright := counts_accepted (.inr rfl) "$"
  have hiff := h tallyEnvironment 0 [] tallySet tally_loads "tally" tallyTarget tally_lookup
    countsType counts_declared _ _ hleft.1 hright.1 "$" "$" hleft.2 hright.2
  have hequal : SemanticallyEqual tallySet false tallyTarget countsType
      (.array (countsEntries.map entryOf)) (.array (countsEntries.reverse.map entryOf)) := by
    have hperm : (countsEntries.reverse.map entryOf).Perm
        ((countsEntries.map fun pair => (pair, pair)).map fun pair => entryOf pair.2) := by
      rw [List.map_map]
      exact (List.reverse_perm _).map _
    refine .association (.inl rfl) (fun _ => rfl) ?_ hperm ?_ ?_
    · rw [List.map_map]
      exact List.Perm.refl _
    all_goals
      intro pair hpair
      obtain ⟨entry, hentry, rfl⟩ := List.mem_map.mp hpair
      exact .primitive
  have hsame := hiff.mpr hequal
  have hstring : (!true && isStringType (.primitive "string")) = false := rfl
  rw [countsType, canonicalValue_map_array hstring, canonicalValue_map_array hstring] at hsame
  simp [countsEntries, collect, canonicalEntry_of_mapEntry (mapEntry_entryOf _), canonicalPair,
    canonicalValue_primitive, canonicalPrimitive] at hsame

end SpecGate.SemanticEquality

import SpecGate.Collecting
import SpecGate.NativeOrder
import SpecGate.PrimitiveValues
import SpecGate.Sorting
import SpecGate.TransportedValues

/-!
Uniqueness in the C# runtime. A projected value has a canonical form at its semantic type,
which forgets the order of unordered collections and the payload of a number that is no
number; the builders of collections and maps refuse elements and keys whose forms are equal.
The projector lets no text pass that the capture runtime does not have, so the values are
those of the capture runtime, in the same order.
-/
namespace SpecGate.ClrUniqueness

open SortedAssoc Collecting Sorting NativeOrder
open SidecarValues (NativeValue collectSet)
open TransportedValues (isNan floatValue)
open PrimitiveValues (RepresentableF32)

/-! ### Types and values -/

abbrev Value := NativeValue

/-- The meaning of a declaration; a named type is given by its CLR name. -/
inductive SemanticType where
  | bool
  | i8
  | i16
  | i32
  | i64
  | u32
  | u64
  | f32
  | f64
  | string
  | dynamic
  | list (first : SemanticType)
  | bag (first : SemanticType)
  | set (first : SemanticType)
  | orderedSet (first : SemanticType)
  | map (first second : SemanticType)
  | orderedMap (first second : SemanticType)
  | tuple (first second : SemanticType)
  | record (first second : SemanticType)
  | option (first : SemanticType)
  | result (first second : SemanticType)
  | named (declared : String)
  deriving DecidableEq

/-- An annotated type: the variants of an enumeration, the concrete annotated subclasses of an
abstract class with their event names, or the annotated members of a concrete type. -/
inductive Declaration where
  | enum (variants : List String)
  | abstract (variants : List (String × String))
  | concrete (members : List (String × SemanticType))

/-- The annotated types by their CLR names. -/
abbrev Declarations := String → Option Declaration

/-- `Value.Unit`. -/
def unit : Value := .map []

/-- `Value.Map`; a later entry replaces an earlier one with its key. -/
def mapOf (entries : List (String × Value)) : Value := .map (ofList entries)

/-- `Value.Set`. -/
def setOf (items : List Value) : Value := .set (collectSet items)

/-- `Value.Tagged`. -/
def tagged (key : String) (value : Value) : Value := .map [(key, value)]

/-- The bits of `double.NaN`. -/
def nanBits : UInt64 := 0xfff8000000000000

/-! ### Canonical forms -/

/-- The only concrete subclass with the event name, if there is exactly one. -/
def variantType (variants : List (String × String)) (name : String) : Option String :=
  match variants.filter fun candidate => candidate.1 == name with
  | [candidate] => some candidate.2
  | _ => none

mutual

/-- The form of a value for comparison; the absence of one is an exception. -/
def canonicalize (declarations : Declarations) (type : SemanticType) (value : Value) :
    Option Value :=
  match type, value with
  | .list first, .list elements | .list first, .set elements
  | .orderedSet first, .list elements | .orderedSet first, .set elements =>
      (canonicalizeAll declarations first elements).map .list
  | .bag first, .list elements | .bag first, .set elements
  | .set first, .list elements | .set first, .set elements =>
      (canonicalizeAll declarations first elements).map fun elements => .list (sort elements)
  | .tuple first second, .list (item1 :: item2 :: _) => do
      let item1 ← canonicalize declarations first item1
      let item2 ← canonicalize declarations second item2
      return .list [item1, item2]
  | .record first second, .map fields => do
      let key ← canonicalizeField declarations first "key" fields
      let items ← canonicalizeField declarations second "items" fields
      return mapOf [("key", key), ("items", items)]
  | .option first, .map [(variant, payload)] =>
      if variant = "None" then some value
      -- an option has no second type
      else if variant = "Err" then none
      else (canonicalize declarations first payload).map (tagged variant)
  | .result first second, .map [(variant, payload)] =>
      (canonicalize declarations (if variant = "Err" then second else first) payload).map
        (tagged variant)
  | .map _ second, .map entries | .orderedMap _ second, .map entries =>
      (canonicalizeEntries declarations second entries).map mapOf
  | .map first second, .list entries =>
      (canonicalizePairs declarations first second entries).map fun entries => .list (sort entries)
  | .orderedMap first second, .list entries =>
      (canonicalizePairs declarations first second entries).map .list
  | .named declared, value =>
      match declarations declared, value with
      | some (.enum _), value => some value
      | some (.abstract variants), .map [(tag, payload)] =>
          match variantType variants tag with
          | some variantType =>
              (canonicalize declarations (.named variantType) payload).map (tagged tag)
          | none => none
      | some (.concrete members), .map fields =>
          (collect (fun member => (canonicalizeField declarations member.2 member.1 fields).map
            fun value => (member.1, value)) members).map mapOf
      | _, _ => none
  | .f32, .float bits | .f64, .float bits => some (.float (if isNan bits then nanBits else bits))
  | .f32, _ | .f64, _ => none
  | .list _, _ | .orderedSet _, _ | .bag _, _ | .set _, _ | .tuple _ _, _ | .record _ _, _
  | .option _, _ | .result _ _, _ | .map _ _, _ | .orderedMap _ _, _ => none
  | _, value => some value
termination_by structural value

def canonicalizeAll (declarations : Declarations) (type : SemanticType) :
    List Value → Option (List Value)
  | [] => some []
  | value :: rest => do
      let value ← canonicalize declarations type value
      let rest ← canonicalizeAll declarations type rest
      return value :: rest
termination_by structural values => values

/-- The values of a string-keyed map. -/
def canonicalizeEntries (declarations : Declarations) (second : SemanticType) :
    List (String × Value) → Option (List (String × Value))
  | [] => some []
  | (key, value) :: rest => do
      let value ← canonicalize declarations second value
      let rest ← canonicalizeEntries declarations second rest
      return (key, value) :: rest
termination_by structural entries => entries

/-- The value under a key. -/
def canonicalizeField (declarations : Declarations) (type : SemanticType) (name : String) :
    List (String × Value) → Option Value
  | [] => none
  | (key, value) :: rest =>
      if key = name then canonicalize declarations type value
      else canonicalizeField declarations type name rest
termination_by structural fields => fields

/-- The entries of a map that is a list of keys and values. -/
def canonicalizePairs (declarations : Declarations) (first second : SemanticType) :
    List Value → Option (List Value)
  | [] => some []
  | .map fields :: rest => do
      let key ← canonicalizeField declarations first "key" fields
      let value ← canonicalizeField declarations second "value" fields
      let rest ← canonicalizePairs declarations first second rest
      return .list [key, value] :: rest
  | _ :: _ => none
termination_by structural entries => entries

end

/-! ### Builders -/

/-- Why nothing is recorded: the detail of a rejection, or an exception of another kind. -/
inductive Failure where
  | rejected (detail : String)
  | exception
  deriving DecidableEq

def duplicateElements : Failure :=
  .rejected "distinct native elements project to duplicate elements in a unique CTSC collection."

def duplicateKeys : Failure :=
  .rejected "distinct native keys project to duplicate CTSC map keys."

/-- `CollectionProjector.Unique`, over the projected elements. -/
def unique (declarations : Declarations) (ordered : Bool) (first : SemanticType)
    (elements : List Value) : Except Failure Value :=
  match canonicalizeAll declarations first elements with
  | none => .error .exception
  | some forms =>
      if (distinct forms).length ≠ elements.length then .error duplicateElements
      else .ok (if ordered then .list elements else setOf elements)

structure MapBuilder where
  entries : List (String × Value)
  orderedEntries : List Value
  keys : List Value

/-- A map entry outside a string-keyed map. -/
def entry (key value : Value) : Value := mapOf [("key", key), ("value", value)]

namespace MapBuilder

def empty : MapBuilder := ⟨[], [], []⟩

def add (declarations : Declarations) (first : SemanticType) (compact : Bool)
    (builder : MapBuilder) (key value : Value) : Except Failure MapBuilder :=
  match canonicalize declarations first key with
  | none => .error .exception
  | some form =>
      if form ∈ builder.keys then .error duplicateKeys
      else if compact then
        match key with
        | .string text =>
            .ok ⟨builder.entries ++ [(text, value)], builder.orderedEntries, builder.keys ++ [form]⟩
        | _ => .error .exception
      else
        .ok ⟨builder.entries, builder.orderedEntries ++ [entry key value], builder.keys ++ [form]⟩

def addAll (declarations : Declarations) (first : SemanticType) (compact : Bool)
    (builder : MapBuilder) : List (Value × Value) → Except Failure MapBuilder
  | [] => .ok builder
  | (key, value) :: rest =>
      match builder.add declarations first compact key value with
      | .ok builder => builder.addAll declarations first compact rest
      | .error failure => .error failure

def finish (builder : MapBuilder) (compact : Bool) : Value :=
  if compact then mapOf builder.entries else .list builder.orderedEntries

end MapBuilder

namespace SemanticType

/-- The maps that are recorded as maps. -/
def compact : SemanticType → Bool
  | .map .string _ => true
  | _ => false

/-- The element type of a collection. -/
def element : SemanticType → Option SemanticType
  | .list first | .bag first | .set first | .orderedSet first => some first
  | _ => none

/-- The key and value types of a map. -/
def keyed : SemanticType → Option (SemanticType × SemanticType)
  | .map first second | .orderedMap first second => some (first, second)
  | _ => none

/-- Whether the order of the elements or entries counts. -/
def ordered : SemanticType → Bool
  | .list _ | .orderedSet _ | .orderedMap _ _ => true
  | _ => false

/-- Whether equal elements are refused. -/
def distinct : SemanticType → Bool
  | .set _ | .orderedSet _ => true
  | _ => false

/-- The types that the projector tells from a value declared as `object`. -/
def erasable : SemanticType → Bool
  | .bool | .i8 | .i16 | .i32 | .i64 | .u32 | .u64 | .f32 | .f64 | .string | .named _ => true
  | _ => false

end SemanticType

/-- `CollectionProjector.Entries` and `Lookup`, over the projected entries. -/
def mapEntries (declarations : Declarations) (type first : SemanticType)
    (entries : List (Value × Value)) : Except Failure Value :=
  match MapBuilder.empty.addAll declarations first type.compact entries with
  | .ok builder => .ok (builder.finish type.compact)
  | .error failure => .error failure

/-- What the enumerator of a collection or a map yields, projected. -/
inductive Contents where
  | elements (values : List Value)
  | entries (pairs : List (Value × Value))

/-- The recorded value of a collection or a map; other contents do not match its type. -/
def build (declarations : Declarations) (type : SemanticType) : Contents → Except Failure Value
  | .elements values =>
      match type with
      | .list _ | .bag _ => .ok (.list values)
      | .set first | .orderedSet first => unique declarations type.ordered first values
      | _ => .error .exception
  | .entries pairs =>
      match type with
      | .map first _ | .orderedMap first _ => mapEntries declarations type first pairs
      | _ => .error .exception

/-! ### Projected values -/

/-- The values that the projector records at a type. A single-precision number is widened. -/
inductive Projected (declarations : Declarations) : SemanticType → Value → Prop
  | bool (value : Bool) : Projected declarations .bool (.bool value)
  | i8 {value : Int64} (hlow : -2 ^ 7 ≤ value.toInt) (hhigh : value.toInt < 2 ^ 7) :
      Projected declarations .i8 (.integer value)
  | i16 {value : Int64} (hlow : -2 ^ 15 ≤ value.toInt) (hhigh : value.toInt < 2 ^ 15) :
      Projected declarations .i16 (.integer value)
  | i32 {value : Int64} (hlow : -2 ^ 31 ≤ value.toInt) (hhigh : value.toInt < 2 ^ 31) :
      Projected declarations .i32 (.integer value)
  | i64 (value : Int64) : Projected declarations .i64 (.integer value)
  | u32 {value : Int64} (hlow : 0 ≤ value.toInt) (hhigh : value.toInt < 2 ^ 32) :
      Projected declarations .u32 (.integer value)
  | u64 (value : UInt64) : Projected declarations .u64 (.unsigned value)
  | f32 {bits : UInt64} (hsingle : ∀ number, floatValue bits = .finite number →
      RepresentableF32 number) : Projected declarations .f32 (.float bits)
  | f64 (bits : UInt64) : Projected declarations .f64 (.float bits)
  | string (text : String) : Projected declarations .string (.string text)
  | dynamic {type : SemanticType} {value : Value} (herasable : type.erasable = true)
      (h : Projected declarations type value) : Projected declarations .dynamic value
  | elements {type first : SemanticType} {elements : List Value} {value : Value}
      (hfirst : type.element = some first)
      (helements : ∀ element ∈ elements, Projected declarations first element)
      (hbuild : build declarations type (.elements elements) = .ok value) :
      Projected declarations type value
  | entries {type first second : SemanticType} {entries : List (Value × Value)} {value : Value}
      (hkeyed : type.keyed = some (first, second))
      (hkeys : ∀ entry ∈ entries, Projected declarations first entry.1)
      (hvalues : ∀ entry ∈ entries, Projected declarations second entry.2)
      (hbuild : build declarations type (.entries entries) = .ok value) :
      Projected declarations type value
  | tuple {first second : SemanticType} {item1 item2 : Value}
      (h1 : Projected declarations first item1) (h2 : Projected declarations second item2) :
      Projected declarations (.tuple first second) (.list [item1, item2])
  | record {first second : SemanticType} {key items : Value}
      (hkey : Projected declarations first key) (hitems : Projected declarations second items) :
      Projected declarations (.record first second) (mapOf [("key", key), ("items", items)])
  | absent (first : SemanticType) : Projected declarations (.option first) (tagged "None" unit)
  | present {first : SemanticType} {value : Value} (h : Projected declarations first value) :
      Projected declarations (.option first) (tagged "Some" value)
  | ok {first : SemanticType} (second : SemanticType) {value : Value}
      (h : Projected declarations first value) :
      Projected declarations (.result first second) (tagged "Ok" value)
  | err (first : SemanticType) {second : SemanticType} {value : Value}
      (h : Projected declarations second value) :
      Projected declarations (.result first second) (tagged "Err" value)
  | variant {declared variant : String} {variants : List String}
      (hdeclared : declarations declared = some (.enum variants)) (hvariant : variant ∈ variants) :
      Projected declarations (.named declared) (tagged variant unit)
  | concrete {declared : String} {members : List (String × SemanticType)}
      {fields : List (String × Value)}
      (hdeclared : declarations declared = some (.concrete members))
      (hnames : (keys members).Nodup) (hfields : keys fields = keys members)
      (h : ∀ member ∈ members, ∀ value, (member.1, value) ∈ fields →
        Projected declarations member.2 value) :
      Projected declarations (.named declared) (mapOf fields)
  | subclass {declared event actual : String} {variants : List (String × String)}
      {members : List (String × SemanticType)} {value : Value}
      (hdeclared : declarations declared = some (.abstract variants))
      (hvariant : (event, actual) ∈ variants)
      (hactual : declarations actual = some (.concrete members))
      (h : Projected declarations (.named actual) value) :
      Projected declarations (.named declared) (tagged event value)

/-! ### Forms of values by their types -/

section Forms

variable {declarations : Declarations}

theorem canonicalizeAll_eq (type : SemanticType) (values : List Value) :
    canonicalizeAll declarations type values = collect (canonicalize declarations type) values := by
  induction values with
  | nil => rfl
  | cons value rest ih =>
    rw [collect, ← ih, canonicalizeAll]
    cases canonicalize declarations type value with
    | none => rfl
    | some form => cases canonicalizeAll declarations type rest <;> rfl

end Forms

/-! ### What the builders accept -/

section Acceptance

variable {declarations : Declarations} {first second : SemanticType} {value : Value}

theorem unique_eq_ok {ordered : Bool} {elements : List Value} :
    unique declarations ordered first elements = .ok value ↔
      ∃ forms, collect (canonicalize declarations first) elements = some forms ∧ forms.Nodup ∧
        value = if ordered then .list elements else setOf elements := by
  rw [unique, canonicalizeAll_eq]
  cases hforms : collect (canonicalize declarations first) elements with
  | none => simp
  | some forms =>
    have hlength : elements.length = forms.length := by
      have hmap := congrArg List.length (collect_eq_some_iff.mp hforms)
      rwa [List.length_map, List.length_map] at hmap
    simp only [hlength, Option.some.injEq, exists_eq_left']
    by_cases hnodup : forms.Nodup
    · rw [if_neg (not_not.mpr (length_distinct_eq_iff.mpr hnodup)), Except.ok.injEq, eq_comm]
      exact (and_iff_right hnodup).symm
    · rw [if_pos (fun heq => hnodup (length_distinct_eq_iff.mp heq))]
      exact iff_of_false (fun h => (by cases h)) fun h => hnodup h.1

/-- A string key and its value, as the compact map keeps them. -/
def stringPair (field : String × Value) : Value × Value := (.string field.1, field.2)

namespace MapBuilder

/-- The builder has taken the entries, whose keys have the forms. -/
def Extends (compact : Bool) (builder : MapBuilder) (pairs : List (Value × Value))
    (forms : List Value) (after : MapBuilder) : Prop :=
  if compact then ∃ fields, pairs = fields.map stringPair ∧
    after = ⟨builder.entries ++ fields, builder.orderedEntries, builder.keys ++ forms⟩
  else after = ⟨builder.entries,
    builder.orderedEntries ++ pairs.map (fun pair => entry pair.1 pair.2), builder.keys ++ forms⟩

variable {compact : Bool} {builder after : MapBuilder} {pair : Value × Value}
  {rest : List (Value × Value)} {form : Value} {forms : List Value}

theorem extends_nil : Extends compact builder [] [] after ↔ builder = after := by
  unfold Extends
  cases compact with
  | true =>
    rw [if_pos rfl]
    constructor
    · rintro ⟨fields, hfields, rfl⟩
      rw [List.map_eq_nil_iff.mp hfields.symm, List.append_nil, List.append_nil]
    · rintro rfl
      exact ⟨[], rfl, by rw [List.append_nil, List.append_nil]⟩
  | false =>
    rw [if_neg Bool.false_ne_true, List.map_nil, List.append_nil, List.append_nil, eq_comm]

theorem extends_cons : Extends compact builder (pair :: rest) (form :: forms) after ↔
    ∃ next, Extends compact builder [pair] [form] next ∧ Extends compact next rest forms after := by
  unfold Extends
  cases compact with
  | true =>
    simp only [if_true]
    constructor
    · rintro ⟨fields, hfields, rfl⟩
      cases fields with
      | nil => cases hfields
      | cons field fields =>
        obtain ⟨rfl, rfl⟩ := List.cons.inj hfields
        exact ⟨_, ⟨[field], rfl, rfl⟩, fields, rfl, by simp⟩
    · rintro ⟨_, ⟨first, hfirst, rfl⟩, fields, rfl, rfl⟩
      exact ⟨first ++ fields, by rw [List.map_append, ← hfirst, List.singleton_append], by simp⟩
  | false =>
    simp only [Bool.false_eq_true, if_false, exists_eq_left]
    simp

theorem Extends.keys (h : Extends compact builder [pair] [form] after) :
    after.keys = builder.keys ++ [form] := by
  unfold Extends at h
  cases compact with
  | true =>
    obtain ⟨fields, -, rfl⟩ := h
    rfl
  | false =>
    obtain rfl := h
    rfl

/-- A builder takes a key whose form is new. -/
theorem add_eq_ok : builder.add declarations first compact pair.1 pair.2 = .ok after ↔
    ∃ form, canonicalize declarations first pair.1 = some form ∧ form ∉ builder.keys ∧
      Extends compact builder [pair] [form] after := by
  obtain ⟨key, value⟩ := pair
  unfold add
  dsimp only
  cases canonicalize declarations first key with
  | none => simp
  | some form =>
    simp only [Option.some.injEq, exists_eq_left']
    by_cases hnew : form ∈ builder.keys
    · rw [if_pos hnew]
      exact iff_of_false (fun h => (by cases h)) fun h => h.1 hnew
    · rw [if_neg hnew, and_iff_right hnew, Extends]
      cases compact with
      | true =>
        simp only [if_true]
        constructor
        · intro h
          cases key with
          | string text => exact ⟨[(text, value)], rfl, (Except.ok.inj h).symm⟩
          | _ => cases h
        · rintro ⟨fields, hfields, rfl⟩
          obtain ⟨field, rfl⟩ := List.length_eq_one_iff.mp
            ((List.length_map _).symm.trans (congrArg List.length hfields).symm)
          obtain ⟨rfl, rfl⟩ := Prod.mk.inj (List.cons.inj hfields).1
          rfl
      | false =>
        simp only [Bool.false_eq_true, if_false, Except.ok.injEq]
        exact eq_comm

theorem addAll_cons_eq_ok :
    builder.addAll declarations first compact (pair :: rest) = .ok after ↔
      ∃ next, builder.add declarations first compact pair.1 pair.2 = .ok next ∧
        next.addAll declarations first compact rest = .ok after := by
  rw [addAll]
  cases builder.add declarations first compact pair.1 pair.2 <;> simp

/-- A builder takes entries whose forms are new and distinct. -/
theorem addAll_eq_ok {pairs : List (Value × Value)} (hknown : builder.keys.Nodup) :
    builder.addAll declarations first compact pairs = .ok after ↔
      ∃ forms, collect (fun pair => canonicalize declarations first pair.1) pairs = some forms ∧
        (builder.keys ++ forms).Nodup ∧ Extends compact builder pairs forms after := by
  induction pairs generalizing builder with
  | nil =>
    simp only [addAll, collect, Option.some.injEq, exists_eq_left', List.append_nil, hknown,
      true_and, extends_nil, Except.ok.injEq]
  | cons pair rest ih =>
    rw [addAll_cons_eq_ok, collect]
    have hbehind (form : Value) (forms : List Value) :
        builder.keys ++ form :: forms = (builder.keys ++ [form]) ++ forms := by
      rw [List.append_assoc, List.singleton_append]
    constructor
    · rintro ⟨next, hadd, hrest⟩
      obtain ⟨form, hform, hnew, hnext⟩ := add_eq_ok.mp hadd
      have hkeys : next.keys.Nodup := by
        rw [hnext.keys]
        exact List.Nodup.append hknown (List.nodup_singleton form)
          (List.disjoint_singleton.mpr hnew)
      obtain ⟨forms, hforms, hnodup, hafter⟩ := (ih hkeys).mp hrest
      refine ⟨form :: forms, by rw [hform, Option.bind_some, hforms]; rfl, ?_,
        extends_cons.mpr ⟨next, hnext, hafter⟩⟩
      rwa [hbehind, ← hnext.keys]
    · rintro ⟨forms, hforms, hnodup, hafter⟩
      obtain ⟨form, hform, hrest⟩ := Option.bind_eq_some_iff.mp hforms
      obtain ⟨others, hothers, rfl⟩ := Option.map_eq_some_iff.mp hrest
      obtain ⟨next, hnext, hafter⟩ := extends_cons.mp hafter
      have hnew : form ∉ builder.keys := fun hmem =>
        (List.nodup_append.mp hnodup).2.2 form hmem form List.mem_cons_self rfl
      rw [hbehind, ← hnext.keys] at hnodup
      exact ⟨next, add_eq_ok.mpr ⟨form, hform, hnew, hnext⟩,
        (ih (List.nodup_append.mp hnodup).1).mpr ⟨others, hothers, hnodup, hafter⟩⟩

end MapBuilder

/-- The map builder accepts entries whose keys have distinct forms; a compact map takes
string keys. -/
theorem mapEntries_eq_ok {type : SemanticType} {pairs : List (Value × Value)} :
    mapEntries declarations type first pairs = .ok value ↔
      ∃ forms, collect (fun pair => canonicalize declarations first pair.1) pairs = some forms ∧
        forms.Nodup ∧
        if type.compact then ∃ fields, pairs = fields.map stringPair ∧ value = mapOf fields
        else value = .list (pairs.map fun pair => entry pair.1 pair.2) := by
  have hbuilt (after : MapBuilder) := @MapBuilder.addAll_eq_ok declarations first type.compact
    MapBuilder.empty after pairs List.nodup_nil
  have hmatch : mapEntries declarations type first pairs = .ok value ↔ ∃ after,
      MapBuilder.empty.addAll declarations first type.compact pairs = .ok after ∧
        after.finish type.compact = value := by
    rw [mapEntries]
    cases MapBuilder.empty.addAll declarations first type.compact pairs <;> simp
  rw [hmatch]
  simp only [hbuilt]
  constructor
  · rintro ⟨after, ⟨forms, hforms, hnodup, hafter⟩, rfl⟩
    refine ⟨forms, hforms, hnodup, ?_⟩
    unfold MapBuilder.Extends at hafter
    cases hcompact : type.compact with
    | true =>
      rw [hcompact, if_pos rfl] at hafter
      obtain ⟨fields, hfields, rfl⟩ := hafter
      exact ⟨fields, hfields, rfl⟩
    | false =>
      rw [hcompact, if_neg Bool.false_ne_true] at hafter
      rw [hafter]
      rfl
  · rintro ⟨forms, hforms, hnodup, hvalue⟩
    cases hcompact : type.compact with
    | true =>
      rw [hcompact, if_pos rfl] at hvalue
      obtain ⟨fields, hfields, rfl⟩ := hvalue
      exact ⟨⟨fields, [], forms⟩, ⟨forms, hforms, hnodup, by
        rw [MapBuilder.Extends, if_pos rfl]; exact ⟨fields, hfields, rfl⟩⟩, rfl⟩
    | false =>
      rw [hcompact, if_neg Bool.false_ne_true] at hvalue
      refine ⟨⟨[], pairs.map fun pair : Value × Value => entry pair.1 pair.2, forms⟩,
        ⟨forms, hforms, hnodup, ?_⟩, hvalue.symm⟩
      rw [MapBuilder.Extends, if_neg Bool.false_ne_true]
      rfl

end Acceptance

end SpecGate.ClrUniqueness

import SpecGate.AcceptedValues
import SpecGate.ConvertedValues
import SpecGate.ProjectedShapes

/-!
What a registry declares for a C# type, and the recorded values of such a type. Each has a form
for comparison in the C# runtime, and its encoding has a canonical value in the validator.
-/
namespace SpecGate.UniqueCollections

open SortedAssoc Collecting ClrUniqueness
open Values (AnyValue CanonicalValue)
open RegistryModel Validation LinkedValues PrimitiveValues AcceptedValues
open SidecarValues (NativeValue)
open ConvertedValues (captured capturedAll capturedEntries)
open TransportedValues (image images imageEntries isNan floatValue)

/-! ### Encoded values -/

/-- The trace value that a recorded value is encoded as. -/
def wire (value : Value) : AnyValue := image (captured value)

/-- The primitive type of the values of a scalar. The registry has no narrower integers. -/
def primitiveName : SemanticType → Option String
  | .bool => some "bool"
  | .i8 | .i16 | .i32 => some "i32"
  | .i64 => some "i64"
  | .u32 => some "u32"
  | .u64 => some "u64"
  | .f32 => some "f32"
  | .f64 => some "f64"
  | .string => some "string"
  | _ => none

/-- Where the registry declares annotated types: in which component, and as what. -/
abbrev Home := String → Option (ResolvedComponent × NamedType)

/-- A type reference, read in a component, means a semantic type. A record lists the members
under their names; a tagged union finds for every variant what it carries, where nothing
stands for a record without members. -/
inductive Refers (declarations : Declarations) (set : RegistrySet) (home : Home)
    (component : ResolvedComponent) : SemanticType → TypeRef → Prop
  | primitive {type : SemanticType} {name : String} (hname : primitiveName type = some name) :
      Refers declarations set home component type (.primitive name)
  | sequence {type first : SemanticType} {items : TypeRef} (hfirst : type.element = some first)
      (h : Refers declarations set home component first items) :
      Refers declarations set home component type (.collection items type.ordered type.distinct)
  | map {type first second : SemanticType} {keys values : TypeRef}
      (hkeyed : type.keyed = some (first, second))
      (hkeys : Refers declarations set home component first keys)
      (hvalues : Refers declarations set home component second values) :
      Refers declarations set home component type (.map keys values type.ordered)
  | tuple {first second : SemanticType} {item1 item2 : TypeRef}
      (h1 : Refers declarations set home component first item1)
      (h2 : Refers declarations set home component second item2) :
      Refers declarations set home component (.tuple first second) (.tuple [item1, item2])
  | members {type : SemanticType} {members : List (String × SemanticType)}
      {fields : List NamedValue} (hmembers : membersOf declarations type = some members)
      (hnames : keys fields = keys members) (h : ∀ pair ∈ members.zip fields,
        Refers declarations set home component pair.1.2 pair.2.2) :
      Refers declarations set home component type (.record fields)
  | optional {first : SemanticType} {inner : TypeRef}
      (h : Refers declarations set home component first inner) :
      Refers declarations set home component (.option first) (.optional inner)
  | variants {type : SemanticType} {variants : List Variant} (htags : tags declarations type = true)
      (hdistinct : Distinguished declarations type)
      (hbare : ∀ name, payloadType declarations type name = some none →
        variants.find? (fun variant => variant.1 == name) = some (name, none))
      (hfound : ∀ name carried, payloadType declarations type name = some (some carried) →
        (membersOf declarations carried = some [] ∧
          variants.find? (fun variant => variant.1 == name) = some (name, none)) ∨
        ∃ inner, variants.find? (fun variant => variant.1 == name) = some (name, some inner))
      (hpayload : ∀ name carried inner, payloadType declarations type name = some (some carried) →
        variants.find? (fun variant => variant.1 == name) = some (name, some inner) →
          Refers declarations set home component carried inner) :
      Refers declarations set home component type (.taggedUnion variants)
  | named {declared name : String} {componentId registryId : Option String}
      {target : ResolvedComponent} {definition : NamedType}
      (hhome : home declared = some (target, definition))
      (hunfolds : Unfolds set component name componentId registryId target definition) :
      Refers declarations set home component (.named declared) (.named name componentId registryId)

/-- Every definition spells out, in its component, the type that it is declared for. -/
def Published (declarations : Declarations) (set : RegistrySet) (home : Home) : Prop :=
  ∀ declared target definition, home declared = some (target, definition) →
    Refers declarations set home target (.named declared) definition.asType

/-- A reference without names for the same type, and the component that it is read in. -/
structure Spelled (declarations : Declarations) (set : RegistrySet) (home : Home)
    (component : ResolvedComponent) (type : SemanticType) (ref : TypeRef)
    (target : ResolvedComponent) (spelled : TypeRef) : Prop where
  refers : Refers declarations set home target type spelled
  structural : unfoldings spelled = 0
  canonical : ∀ value, canonicalValue set component ref value = canonicalValue set target spelled value
  accepted : ∀ value location, validateValue set target spelled value location = [] →
    validateValue set component ref value location = []

theorem Refers.spelled {declarations : Declarations} {set : RegistrySet} {home : Home}
    {component : ResolvedComponent} {type : SemanticType} {ref : TypeRef}
    (h : Refers declarations set home component type ref)
    (hpublished : Published declarations set home) :
    ∃ target spelled, Spelled declarations set home component type ref target spelled := by
  cases h with
  | @named declared name componentId registryId target definition hhome hunfolds =>
    exact ⟨target, definition.asType, hpublished declared target definition hhome,
      unfoldings_asType definition, canonicalValue_named hunfolds, fun value location haccepted =>
        validateValue_named.mpr ⟨target, definition, hunfolds, haccepted⟩⟩
  | primitive hname => exact ⟨component, _, .primitive hname, rfl, fun _ => rfl, fun _ _ h => h⟩
  | sequence hfirst h => exact ⟨component, _, .sequence hfirst h, rfl, fun _ => rfl, fun _ _ h => h⟩
  | map hkeyed hkeys hvalues =>
    exact ⟨component, _, .map hkeyed hkeys hvalues, rfl, fun _ => rfl, fun _ _ h => h⟩
  | tuple h1 h2 => exact ⟨component, _, .tuple h1 h2, rfl, fun _ => rfl, fun _ _ h => h⟩
  | members hmembers hnames h =>
    exact ⟨component, _, .members hmembers hnames h, rfl, fun _ => rfl, fun _ _ h => h⟩
  | optional h => exact ⟨component, _, .optional h, rfl, fun _ => rfl, fun _ _ h => h⟩
  | variants htags hdistinct hbare hfound hpayload =>
    exact ⟨component, _, .variants htags hdistinct hbare hfound hpayload, rfl, fun _ => rfl,
      fun _ _ h => h⟩

/-! ### Scalars -/

section Scalars

variable {declarations : Declarations} {type : SemanticType} {name : String} {left right : Value}

/-- The values of the scalar types. -/
inductive ScalarValue : SemanticType → Value → Prop
  | bool (value : Bool) : ScalarValue .bool (.bool value)
  | integer {type : SemanticType} (htype : type ∈ [.i8, .i16, .i32, .i64, .u32]) (value : Int64) :
      ScalarValue type (.integer value)
  | unsigned (value : UInt64) : ScalarValue .u64 (.unsigned value)
  | float {type : SemanticType} (htype : type ∈ [.f32, .f64]) (bits : UInt64) :
      ScalarValue type (.float bits)
  | string (value : String) : ScalarValue .string (.string value)

theorem canonicalize_integer (htype : type ∈ [.i8, .i16, .i32, .i64, .u32]) (value : Int64) :
    canonicalize declarations type (.integer value) = some (.integer value) := by
  simp only [List.mem_cons, List.not_mem_nil, or_false] at htype
  rcases htype with rfl | rfl | rfl | rfl | rfl <;> rfl

theorem canonicalize_float (htype : type ∈ [.f32, .f64]) (bits : UInt64) :
    canonicalize declarations type (.float bits) =
      some (.float (if isNan bits then nanBits else bits)) := by
  simp only [List.mem_cons, List.not_mem_nil, or_false] at htype
  rcases htype with rfl | rfl <;> rfl

theorem ScalarValue.form (h : ScalarValue type left) :
    ∃ form, canonicalize declarations type left = some form := by
  cases h with
  | integer htype value => exact ⟨_, canonicalize_integer htype value⟩
  | float htype bits => exact ⟨_, canonicalize_float htype bits⟩
  | _ => exact ⟨_, rfl⟩

end Scalars

/-! ### Canonical values by shape -/

section Canonical

variable {declarations : Declarations} {set : RegistrySet} {home : Home}
  {component : ResolvedComponent}

end Canonical

/-! ### Sizes -/

section Sizes

variable {value : Value}

theorem sizeOf_lt_map {fields : List (String × Value)} {field : String × Value}
    (hmem : field ∈ fields) : sizeOf field.2 < sizeOf (NativeValue.map fields) := by
  have hlt := List.sizeOf_lt_of_mem hmem
  obtain ⟨key, value⟩ := field
  rw [Prod.mk.sizeOf_spec] at hlt
  rw [NativeValue.map.sizeOf_spec]
  dsimp only
  omega

end Sizes

/-! ### Variants -/

section Variants

variable {declarations : Declarations} {set : RegistrySet} {home : Home}
  {component : ResolvedComponent} {type : SemanticType} {ref : TypeRef} {value : Value}

end Variants

/-! ### Members -/

section Members

variable {α β : Type} {members : List (String × α)} {fields : List (String × β)}

end Members

/-! ### Every recorded value has a form on both sides -/

section Existence

variable {declarations : Declarations} {set : RegistrySet} {home : Home}

end Existence

end SpecGate.UniqueCollections

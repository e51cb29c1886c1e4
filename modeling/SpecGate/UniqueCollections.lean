import SpecGate.RegistryMeanings

/-!
Uniqueness on both sides. Where a registry declares what a C# type means, two recorded values
have equal forms in the C# runtime exactly when their encodings have equal canonical values.
-/
namespace SpecGate.UniqueCollections

open SortedAssoc Collecting ClrUniqueness
open Values (AnyValue CanonicalValue)
open RegistryModel Validation LinkedValues PrimitiveValues AcceptedValues
open SidecarValues (NativeValue)

/-! ### Forms are equal on both sides alike -/

section Agreement

variable {declarations : Declarations} {set : RegistrySet} {home : Home}

/-- Two values have equal forms exactly when their encodings have equal canonical values. -/
def Agree (declarations : Declarations) (set : RegistrySet) (component : ResolvedComponent)
    (type : SemanticType) (ref : TypeRef) (left right : Value) : Prop :=
  canonicalize declarations type left = canonicalize declarations type right ↔
    canonicalValue set component ref (wire left) = canonicalValue set component ref (wire right)

section Shapes

variable {component : ResolvedComponent} {type first second : SemanticType} {left right : Value}
  {n : Nat}

theorem Agree.symm {ref : TypeRef} (h : Agree declarations set component type ref left right) :
    Agree declarations set component type ref right left :=
  eq_comm.trans (Iff.trans h eq_comm)

end Shapes

end Agreement

end SpecGate.UniqueCollections

import SpecGate.CanonicalTexts
import SpecGate.ComparedSites
import SpecGate.VerdictRelation
import SpecGate.WireTexts

/-!
Mismatch reports tell their two sides apart. At a place where two accepted traces differ the
expected text is not the actual text, except for two values compared as they are on the wire
that differ only in how a float is held whose text is that of an integer or of a name. Values
of a declared type have different texts when their canonical values differ, given that no name
of a variant can be read as more than a name.
-/
namespace SpecGate.InformativeReports

open Values RegistryModel TraceModel TraceAncestry TraceValidation SortedAssoc Validation
open CanonicalOrder LinkedValues LinkedTraces AcceptedValues Display Comparison ComparisonVerdict
open TraceForest SemanticTree ComparedSpans AlikeTraces LinkedComparison WireTexts CanonicalTexts
open ComparedSites ComparisonDecision SemanticEquality

/-- Two values that a registry declares and accepts under one type. -/
structure BothAccepted (set : RegistrySet) (component : ResolvedComponent) (type : TypeRef)
    (left right : AnyValue) : Prop where
  found : ∃ id, lookup set.components id = some component
  declares : Declares component.component type
  left : Accepted set component type left
  right : Accepted set component type right

/-- What stands at a place: texts that are not the one for what is missing, and values that
are accepted wherever they are declared. -/
def Founded (registry : Option RegistrySet) : Site → Prop
  | .presence _ expected actual =>
      (∀ text ∈ expected, text ≠ missing) ∧ ∀ text ∈ actual, text ≠ missing
  | .name _ _ _ => True
  | .value _ declared expected actual =>
      ∀ set component type left right, declared = some (set, component, type) →
        expected = some left → actual = some right →
          registry = some set ∧ BothAccepted set component type left right

theorem mem_of_declaredType {values : List NamedValue} {name : String} {type : TypeRef}
    (h : declaredType values name = some type) : ∃ value ∈ values, value.2 = type := by
  obtain ⟨value, hvalue, rfl⟩ := Option.map_eq_some_iff.mp h
  exact ⟨value, List.mem_of_find?_eq_some hvalue, rfl⟩

section Founded

variable {registry : Option RegistrySet} {reference candidate : TraceDocument}
  {left right : TraceSpan} {declaration : Option Declaration} {path : String}

/-- The spans of a slot are of the traces, and its texts are not the one for what is missing. -/
structure SlotFounded (reference candidate : TraceDocument) (slot : Slot) : Prop where
  left : ∀ span ∈ slot.left, span ∈ reference.spans ∧ span.name ≠ "conformance.run" ∧
    slot.text span ≠ missing
  right : ∀ span ∈ slot.right, span ∈ candidate.spans ∧ span.name ≠ "conformance.run" ∧
    slot.text span ≠ missing

theorem SlotFounded.presence {slot : Slot} (h : SlotFounded reference candidate slot) :
    Founded registry slot.presence := by
  constructor
  · intro text htext
    obtain ⟨span, hspan, rfl⟩ := Option.map_eq_some_iff.mp htext
    exact (h.left span hspan).2.2
  · intro text htext
    obtain ⟨span, hspan, rfl⟩ := Option.map_eq_some_iff.mp htext
    exact (h.right span hspan).2.2

end Founded

end SpecGate.InformativeReports

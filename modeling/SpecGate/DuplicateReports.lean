import SpecGate.EventDiscipline
import SpecGate.UniqueCollections

/-!
Duplicates in encoded collections. The builders of the C# runtime refuse the collections and
maps for whose encodings the loader or the linked validator reports equal elements or keys.
-/
namespace SpecGate.UniqueCollections

open SortedAssoc Collecting ClrUniqueness
open Values (AnyValue CanonicalValue)
open RegistryModel Validation LinkedValues PrimitiveValues AcceptedValues
open SidecarValues (NativeValue collectSet)
open ConvertedValues (captured capturedAll capturedEntries)
open JsonTrees OtlpJson TraceFields
open TransportedValues (MapsOrdered AllOrdered EntriesOrdered anyValue)

/-! ### What the linked validator reports -/

section Reports

variable {declarations : Declarations} {set : RegistrySet} {home : Home}
  {component : ResolvedComponent} {location : String}

def repeatedKeys : String := "map contains duplicate keys"

end Reports

/-! ### Recorded maps hold their keys in order -/

section Order

theorem allOrdered_iff {values : List Value} :
    AllOrdered (capturedAll values) ↔ ∀ value ∈ values, MapsOrdered (captured value) := by
  induction values with
  | nil => simp [capturedAll, AllOrdered]
  | cons value rest ih => rw [capturedAll, AllOrdered, ih, List.forall_mem_cons]

theorem entriesOrdered_iff {entries : List (String × Value)} :
    EntriesOrdered (capturedEntries entries) ↔
      ∀ entry ∈ entries, MapsOrdered (captured entry.2) := by
  induction entries with
  | nil => simp [capturedEntries, EntriesOrdered]
  | cons entry rest ih => rw [capturedEntries, EntriesOrdered, ih, List.forall_mem_cons]

variable {declarations : Declarations} {type first second : SemanticType} {value : Value}

end Order

/-! ### What the loader reports -/

section Loading

variable {readers : NumberReaders}

end Loading

/-! ### Encoded contents -/

section Contents

/-- The text of a string key. -/
def keyText : Value → Option String
  | .string text => some text
  | _ => none

end Contents

/-! ### Both sides refuse the same contents -/

section Refusals

variable {declarations : Declarations} {set : RegistrySet} {home : Home}
  {component : ResolvedComponent} {type first second : SemanticType} {ref : TypeRef}
  {readers : NumberReaders} {path place location : String}

end Refusals

/-! ### Repeated contents -/

section Repeated

open EventDiscipline (plainReaders)

/-- Two entries with one string key. -/
def repeatedName : Contents :=
  .entries [(.string "size", .bool true), (.string "size", .bool false)]

end Repeated

end SpecGate.UniqueCollections

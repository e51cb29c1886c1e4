import SpecGate.SortedAssoc

/-!
Wire values of a trace and the canonical values they are linked to.
A finite binary64 number is kept by its exact bits, the other numbers by the
three OTLP symbols. A key/value list is an association list; decoding builds it
from a map, so in every decoded value its keys increase strictly.
-/
namespace SpecGate.Values

open SortedAssoc

/-- The bits of a finite binary64 number: the exponent field is not all ones. -/
structure FiniteF64 where
  bits : Nat
  lt : bits < 2 ^ 64
  finite : bits / 2 ^ 52 % 2 ^ 11 ≠ 2047
  deriving DecidableEq

inductive F64Value where
  | finite (bits : FiniteF64)
  | nan
  | infinity
  | negativeInfinity
  deriving DecidableEq

inductive AnyValue where
  | string (value : String)
  | bool (value : Bool)
  | int (value : Int64)
  | double (value : F64Value)
  | bytes (value : List UInt8)
  | array (values : List AnyValue)
  | kvList (entries : List (String × AnyValue))

inductive CanonicalValue where
  | unit
  | string (value : String)
  | bool (value : Bool)
  | integer (value : Int)
  | float (value : F64Value)
  | bytes (value : List UInt8)
  | list (values : List CanonicalValue)
  | tuple (values : List CanonicalValue)
  | map (entries : List (CanonicalValue × CanonicalValue))
  | orderedMap (entries : List (CanonicalValue × CanonicalValue))
  | record (fields : List (String × CanonicalValue))
  | variant (name : String) (value : CanonicalValue)

namespace FiniteF64

def sign (x : FiniteF64) : Nat := x.bits / 2 ^ 63

def exponent (x : FiniteF64) : Nat := x.bits / 2 ^ 52 % 2 ^ 11

def mantissa (x : FiniteF64) : Nat := x.bits % 2 ^ 52

/-- The absolute value in units of `2 ^ (-1074)`, the smallest subnormal. -/
def magnitude (x : FiniteF64) : Nat :=
  if x.exponent = 0 then x.mantissa else (2 ^ 52 + x.mantissa) * 2 ^ (x.exponent - 1)

end FiniteF64

namespace AnyValue

def asString : AnyValue → Option String
  | .string value => some value
  | _ => none

def asInt : AnyValue → Option Int64
  | .int value => some value
  | _ => none

def asKvList : AnyValue → Option (List (String × AnyValue))
  | .kvList entries => some entries
  | _ => none

/-- Every key/value list inside the value is a map in key order. -/
inductive Decoded : AnyValue → Prop
  | string (value : String) : Decoded (.string value)
  | bool (value : Bool) : Decoded (.bool value)
  | int (value : Int64) : Decoded (.int value)
  | double (value : F64Value) : Decoded (.double value)
  | bytes (value : List UInt8) : Decoded (.bytes value)
  | array {values : List AnyValue} (hvalues : ∀ value ∈ values, Decoded value) :
      Decoded (.array values)
  | kvList {entries : List (String × AnyValue)} (hsorted : Sorted entries)
      (hvalues : ∀ entry ∈ entries, Decoded entry.2) : Decoded (.kvList entries)

theorem decoded_array_iff {values : List AnyValue} :
    Decoded (.array values) ↔ ∀ value ∈ values, Decoded value :=
  ⟨fun | .array hvalues => hvalues, .array⟩

theorem decoded_kvList_iff {entries : List (String × AnyValue)} :
    Decoded (.kvList entries) ↔ Sorted entries ∧ ∀ entry ∈ entries, Decoded entry.2 :=
  ⟨fun | .kvList hsorted hvalues => ⟨hsorted, hvalues⟩, fun h => .kvList h.1 h.2⟩

theorem sizeOf_lt_array {value : AnyValue} {values : List AnyValue} (h : value ∈ values) :
    sizeOf value < sizeOf (AnyValue.array values) := by
  have := List.sizeOf_lt_of_mem h
  simp only [array.sizeOf_spec]
  omega

theorem sizeOf_lt_kvList {entry : String × AnyValue} {entries : List (String × AnyValue)}
    (h : entry ∈ entries) : sizeOf entry.2 < sizeOf (AnyValue.kvList entries) := by
  have := List.sizeOf_lt_of_mem h
  obtain ⟨key, value⟩ := entry
  simp only [kvList.sizeOf_spec, Prod.mk.sizeOf_spec] at this ⊢
  omega

theorem sizeOf_lt_head (key : String) (value : AnyValue) (rest : List (String × AnyValue)) :
    sizeOf value < sizeOf (AnyValue.kvList ((key, value) :: rest)) := by
  have hmem : (key, value) ∈ (key, value) :: rest := List.mem_cons_self
  exact sizeOf_lt_kvList hmem

theorem sizeOf_lt_of_lookup {key : String} {value : AnyValue}
    {entries : List (String × AnyValue)} (h : lookup entries key = some value) :
    sizeOf value < sizeOf (AnyValue.kvList entries) :=
  sizeOf_lt_kvList (mem_of_lookup h)

theorem Decoded.of_lookup {key : String} {value : AnyValue}
    {entries : List (String × AnyValue)} (hdecoded : Decoded (.kvList entries))
    (h : lookup entries key = some value) : Decoded value :=
  (decoded_kvList_iff.mp hdecoded).2 _ (mem_of_lookup h)

mutual

def beq : AnyValue → AnyValue → Bool
  | .string a, .string b => a == b
  | .bool a, .bool b => a == b
  | .int a, .int b => a == b
  | .double a, .double b => a == b
  | .bytes a, .bytes b => a == b
  | .array a, .array b => beqList a b
  | .kvList a, .kvList b => beqEntries a b
  | _, _ => false

def beqList : List AnyValue → List AnyValue → Bool
  | [], [] => true
  | a :: as, b :: bs => beq a b && beqList as bs
  | _, _ => false

def beqEntries : List (String × AnyValue) → List (String × AnyValue) → Bool
  | [], [] => true
  | (k, a) :: as, (l, b) :: bs => k == l && beq a b && beqEntries as bs
  | _, _ => false

end

mutual

theorem beq_iff : ∀ a b : AnyValue, beq a b = true ↔ a = b
  | .string _, b => by cases b <;> simp [beq]
  | .bool _, b => by cases b <;> simp [beq]
  | .int _, b => by cases b <;> simp [beq]
  | .double _, b => by cases b <;> simp [beq]
  | .bytes _, b => by cases b <;> simp [beq]
  | .array as, b => by
      cases b with
      | array bs => simp [beq, beqList_iff as bs]
      | _ => simp [beq]
  | .kvList as, b => by
      cases b with
      | kvList bs => simp [beq, beqEntries_iff as bs]
      | _ => simp [beq]

theorem beqList_iff : ∀ as bs : List AnyValue, beqList as bs = true ↔ as = bs
  | [], bs => by cases bs <;> simp [beqList]
  | a :: as, bs => by
      cases bs with
      | nil => simp [beqList]
      | cons b bs => simp [beqList, beq_iff a b, beqList_iff as bs]

theorem beqEntries_iff : ∀ as bs : List (String × AnyValue), beqEntries as bs = true ↔ as = bs
  | [], bs => by cases bs <;> simp [beqEntries]
  | (k, a) :: as, bs => by
      cases bs with
      | nil => simp [beqEntries]
      | cons entry bs =>
        obtain ⟨l, b⟩ := entry
        simp [beqEntries, beq_iff a b, beqEntries_iff as bs, and_assoc]

end

instance : DecidableEq AnyValue := fun a b => decidable_of_iff _ (beq_iff a b)

end AnyValue

end SpecGate.Values

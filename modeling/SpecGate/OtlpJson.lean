import SpecGate.JsonTrees

/-!
The OTLP JSON form of captured values. Integers are written as text, doubles that are not
finite as symbols, and an empty key/value list leaves its entries out.
-/
namespace SpecGate.OtlpJson

open JsonTrees
open Values (FiniteF64)

inductive DoubleRepr where
  | number (value : FiniteF64)
  | symbol (text : String)

/-- A value as OTLP writes it. -/
inductive OtlpValue where
  | string (value : String)
  | bool (value : Bool)
  | int (text : String)
  | double (value : DoubleRepr)
  | array (values : List OtlpValue)
  | kvlist (entries : List (String × OtlpValue))

def serializeDouble : DoubleRepr → Json
  | .number value => .number (.float value)
  | .symbol text => .string text

/-- The member for the entries of a key/value list, left out when there are none. -/
def entriesMember (entries : List Json) : List (String × Json) :=
  if entries.isEmpty then [] else [("values", .array entries)]

mutual

def serializeValue : OtlpValue → Json
  | .string value => .object [("stringValue", .string value)]
  | .bool value => .object [("boolValue", .bool value)]
  | .int text => .object [("intValue", .string text)]
  | .double value => .object [("doubleValue", serializeDouble value)]
  | .array values => .object [("arrayValue", .object [("values", .array (serializeValues values))])]
  | .kvlist entries => .object [("kvlistValue", .object (entriesMember (serializeEntries entries)))]
termination_by structural value => value

def serializeValues : List OtlpValue → List Json
  | [] => []
  | value :: rest => serializeValue value :: serializeValues rest
termination_by structural values => values

def serializeEntries : List (String × OtlpValue) → List Json
  | [] => []
  | (key, value) :: rest =>
      .object [("key", .string key), ("value", serializeValue value)] :: serializeEntries rest
termination_by structural entries => entries

end

end SpecGate.OtlpJson

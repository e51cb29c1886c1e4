import SpecGate.Values

/-!
JSON documents as trees. The text of a document is left out: what is written is the tree,
and it is read back as it is unless its containers nest too deeply. A number that is not
finite has no JSON form and is written as null.
-/
namespace SpecGate.JsonTrees

open Values (FiniteF64)

inductive Number where
  | integer (value : Int)
  | float (value : FiniteF64)
  deriving DecidableEq

inductive Json where
  | null
  | bool (value : Bool)
  | number (value : Number)
  | string (value : String)
  | array (values : List Json)
  | object (entries : List (String × Json))

namespace Json

mutual

/-- How many containers stand around the innermost part of a document. -/
def depth : Json → Nat
  | .null | .bool _ | .number _ | .string _ => 0
  | .array values => depthAll values + 1
  | .object entries => depthEntries entries + 1
termination_by structural json => json

def depthAll : List Json → Nat
  | [] => 0
  | value :: rest => max (depth value) (depthAll rest)
termination_by structural values => values

def depthEntries : List (String × Json) → Nat
  | [] => 0
  | (_, value) :: rest => max (depth value) (depthEntries rest)
termination_by structural entries => entries

end

mutual

/-- No object at any depth has two members of one name. -/
def distinct : Json → Bool
  | .null | .bool _ | .number _ | .string _ => true
  | .array values => distinctAll values
  | .object entries => decide ((entries.map Prod.fst).Nodup) && distinctEntries entries
termination_by structural json => json

def distinctAll : List Json → Bool
  | [] => true
  | value :: rest => distinct value && distinctAll rest
termination_by structural values => values

def distinctEntries : List (String × Json) → Bool
  | [] => true
  | (_, value) :: rest => distinct value && distinctEntries rest
termination_by structural entries => entries

end

/-- The nesting at which the reader gives up. -/
def recursionLimit : Nat := 128

/-- The document as it is read from its text. -/
def readBack (json : Json) : Option Json :=
  if json.depth < recursionLimit then some json else none

/-- The first value under a key. -/
def field (entries : List (String × Json)) (key : String) : Option Json :=
  (entries.find? fun entry => entry.1 == key).map Prod.snd

end Json

end SpecGate.JsonTrees

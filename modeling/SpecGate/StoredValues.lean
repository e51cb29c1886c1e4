import SpecGate.BoundOperations
import SpecGate.CaptureSession
import SpecGate.Demands
import SpecGate.SidecarValues

/-!
Captured values on their way from the storage of a candidate to the registry. A value is
converted along the nodes of the table: collections, tuples and pairs become lists, maps with
text keys objects and other maps lists of entries; nothing else changes.
-/
namespace SpecGate.StoredValues

open StorageBindings SortedAssoc Checked
open Demands (Failure)
open SidecarValues (NativeValue)
open CaptureSession (Capture OperationSpan Completion)

def failed {α : Type} (diagnostic : String) : Except Failure α := .error (.error diagnostic)

def noArray : String := "candidate collection or tuple must contain an array"

def duplicateKeys : String :=
  "candidate map contains duplicate keys; values must not be overwritten"

def insertKey (values : List (String × NativeValue)) (entry : NativeValue × NativeValue) :
    Except Failure (List (String × NativeValue)) :=
  match entry.1 with
  | .string key =>
      if contains values key then failed duplicateKeys
      else .ok (SortedAssoc.insert key entry.2 values)
  | _ => failed "candidate map key must be a string"

/-- An entry of a map that is not written as an object. -/
def entryObject (entry : NativeValue × NativeValue) : NativeValue :=
  .map [("key", entry.1), ("value", entry.2)]

def mapValue (entries : List (NativeValue × NativeValue)) (compact : Bool) :
    Except Failure NativeValue :=
  if compact then (entries.foldlM insertKey []).map .map
  else .ok (.list (entries.map entryObject))

def checkPair : NativeValue → Except Failure Unit
  | .list values | .set values =>
      if values.length = 2 then .ok ()
      else failed "candidate map pair must contain exactly a key and a value"
  | _ => failed noArray

section Conversion

variable (nodes : List Node)

mutual

def value (id : Nat) (native : NativeValue) : Except Failure NativeValue :=
  match nodes[id]?, native with
  | none, _ => .error (.panic "index out of bounds")
  | some .identity, native => .ok native
  | some (.sequence item), .list values => (allAt item values).map .list
  | some (.sequence item), .set values => (allAt item values).map .list
  | some (.sequence _), _ => failed noArray
  | some (.tuple ids), .list values =>
      if values.length = ids.length then (eachAt ids values).map .list
      else failed "candidate tuple length differs from its checked binding"
  | some (.tuple ids), .set values =>
      if values.length = ids.length then (eachAt ids values).map .list
      else failed "candidate tuple length differs from its checked binding"
  | some (.tuple _), _ => failed noArray
  | some (.map keys values true compact), .list entries => do
      entries.forM checkPair
      let converted ← pairsAt keys values entries
      mapValue converted compact
  | some (.map keys values true compact), .set entries => do
      entries.forM checkPair
      let converted ← pairsAt keys values entries
      mapValue converted compact
  | some (.map _ _ true _), _ => failed noArray
  | some (.map _ values false compact), .map entries => do
      let converted ← entriesAt (fun _ => some values) entries
      mapValue (converted.map fun entry => (.string entry.1, entry.2)) compact
  | some (.map _ _ false _), _ => failed "candidate native map must contain string keys"
  | some (.record fields), .map entries => (entriesAt (lookup fields) entries).map .map
  | some (.record _), _ => failed "candidate record must contain named fields"
  | some (.tagged variants), .map entries =>
      (entriesAt (fun name => (lookup variants name).join) entries).map .map
  | some (.tagged _), _ => failed "candidate tagged union must contain a named variant"
  | some (.optional item), .map entries =>
      (entriesAt (fun name => if name = "Some" then some item else none) entries).map .map
  | some (.optional _), _ => failed "candidate optional must contain a Some/None tag"
termination_by structural native

def allAt (item : Nat) : List NativeValue → Except Failure (List NativeValue)
  | [] => .ok []
  | native :: rest => do
      let converted ← value item native
      let others ← allAt item rest
      return converted :: others
termination_by structural natives => natives

def eachAt (ids : List Nat) : List NativeValue → Except Failure (List NativeValue)
  | [] => .ok []
  | native :: rest =>
      match ids with
      | [] => .ok []
      | id :: ids => do
          let converted ← value id native
          let others ← eachAt ids rest
          return converted :: others
termination_by structural natives => natives

/-- The entries of a map stay in their order; those without a node stay as they are. -/
def entriesAt (node : String → Option Nat) :
    List (String × NativeValue) → Except Failure (List (String × NativeValue))
  | [] => .ok []
  | (name, native) :: rest => do
      let converted ← (match node name with
        | some id => value id native
        | none => .ok native)
      let others ← entriesAt node rest
      return (name, converted) :: others
termination_by structural entries => entries

def pairsAt (keys values : Nat) :
    List NativeValue → Except Failure (List (NativeValue × NativeValue))
  | [] => .ok []
  | .list [key, native] :: rest | .set [key, native] :: rest => do
      let key ← value keys key
      let converted ← value values native
      let others ← pairsAt keys values rest
      return (key, converted) :: others
  | _ :: _ => failed noArray
termination_by structural natives => natives

end

end Conversion

/-! ### Captures -/

section Captures

variable (bindings : Bindings)

/-- Convert a value of an operation, and name the place of an error. -/
def convertAt (id : Nat) (native : NativeValue) (operation : Operation) (location : String) :
    Except Failure NativeValue :=
  match value bindings.nodes id native with
  | .ok converted => .ok converted
  | .error (.error diagnostic) => failed (s!"candidate operation '{operation.component}::" ++
      s!"{operation.name}' {location} conversion failed: {diagnostic}")
  | .error (.panic message) => .error (.panic message)

def convertInput (operation : Operation) (input : String × NativeValue) :
    Except Failure (String × NativeValue) :=
  match lookup operation.inputs input.1 with
  | some id => do
      let converted ← convertAt bindings id input.2 operation s!"input '{input.1}'"
      return (input.1, converted)
  | none => .ok input

def convertCompletion (operation : Operation) :
    Option (Completion NativeValue) → Except Failure (Option (Completion NativeValue))
  | some (.result order timeNs native) =>
      match operation.result with
      | some id => do
          let converted ← convertAt bindings id native operation "result"
          return some (.result order timeNs converted)
      | none => .ok (some (.result order timeNs native))
  | some (.error order timeNs name (some native)) =>
      match lookup operation.errors name with
      | some (some id) => do
          let converted ← convertAt bindings id native operation s!"error '{name}'"
          return some (.error order timeNs name (some converted))
      | _ => .ok (some (.error order timeNs name (some native)))
  | completion => .ok completion

def convertOperation (span : OperationSpan NativeValue) :
    Except Failure (OperationSpan NativeValue) :=
  match bindings.rejections.find? fun rejection =>
      rejection.component = span.componentId ∧ rejection.name = span.operationName with
  | some rejection => failed (s!"candidate operation '{rejection.component}::{rejection.name}' " ++
      s!"has no compatible storage binding: {rejection.diagnostic}")
  | none =>
      match bindings.operations.find? fun bound =>
          bound.component = span.componentId ∧ bound.name = span.operationName with
      | none => .ok span
      | some bound => do
          let inputs ← mapAll (convertInput bindings bound) span.inputs
          let completion ← convertCompletion bindings bound span.completion
          return { span with inputs := inputs, completion := completion }

def convertCapture (capture : Capture NativeValue) : Except Failure (Capture NativeValue) := do
  let operations ← mapAll (convertOperation bindings) capture.operations
  return { capture with operations := operations }

def convert (captures : List (Capture NativeValue)) : Except Failure (List (Capture NativeValue)) :=
  mapAll (convertCapture bindings) captures

end Captures

end SpecGate.StoredValues

import SpecGate.Demands
import SpecGate.Decimal
import SpecGate.HexText
import SpecGate.RegistryShape
import SpecGate.Values

/-!
The encoder of completed captures. Spans get new identities, one after the other; every
capture is moved so that its scenario starts where the one before has ended; parents are
looked up among the operations of the same capture. Serialization of the document is a
parameter.
-/
namespace SpecGate.CaptureEncoding

open Values SortedAssoc Demands
open CaptureSession (hexText checkedAdd maxI64 maxU64)
open RegistryShape (ctscVersion)

/-! ### Captures -/

/-- A semantic value at the capture boundary. -/
inductive Value where
  | string (value : String)
  | integer (value : Int64)
  | unsigned (value : UInt64)
  | float (value : F64Value)
  | bool (value : Bool)
  | list (values : List Value)
  | map (entries : List (String × Value))
  | set (values : List Value)

inductive Status where
  | unset
  | ok
  | error
  deriving DecidableEq

structure Boundary where
  spanId : String
  parentId : Option String
  startNs : Int
  endNs : Int
  status : Status

structure Observation where
  order : Nat
  timeNs : Int
  name : String
  value : Value

inductive Completion where
  | result (order : Nat) (timeNs : Int) (value : Value)
  | empty (order : Nat) (timeNs : Int)
  | error (order : Nat) (timeNs : Int) (name : String) (value : Option Value)
  | fault (order : Nat) (timeNs : Int) (faultType message observer : String)
  | abandoned (order : Nat) (timeNs : Int)

structure Operation where
  order : Nat
  spanId : String
  parentId : String
  componentId : String
  operationName : String
  startNs : Int
  endNs : Int
  status : Status
  inputs : List (String × Value)
  observations : List Observation
  completion : Option Completion

structure Capture where
  traceId : String
  scenarioName : String
  run : Boundary
  scenario : Boundary
  operations : List Operation

structure Registry where
  id : String
  version : String
  digest : String

structure Metadata where
  toolVersion : String
  targetName : String
  targetLanguage : String
  registry : Registry

/-! ### Documents -/

def isHexDigit (c : Char) : Bool :=
  ('0' ≤ c && c ≤ '9') || ('a' ≤ c && c ≤ 'f') || ('A' ≤ c && c ≤ 'F')

def validWireId (text : String) (width : Nat) : Bool :=
  text.toList.length == width && text.toList.all isHexDigit && text.toList.any (· != '0')

@[ext] structure WireId (width : Nat) where
  text : String
  valid : validWireId text width = true
  deriving DecidableEq

def WireId.new (width : Nat) (text : String) : Option (WireId width) :=
  if h : validWireId text width = true then some ⟨text, h⟩ else none

abbrev WireTraceId := WireId 32

abbrev WireSpanId := WireId 16

/-- A timestamp whose text is an unsigned number of 64 bits. -/
structure UnixNanos where
  text : String
  valid : (Decimal.parseUnsigned (maxU64 + 1) text).isSome = true

def UnixNanos.new (text : String) : Option UnixNanos :=
  if h : (Decimal.parseUnsigned (maxU64 + 1) text).isSome = true then some ⟨text, h⟩ else none

abbrev Attributes := List (String × AnyValue)

structure SpanEvent where
  order : Nat
  timeNs : UnixNanos
  name : String
  attributes : Attributes

structure Span where
  traceId : WireTraceId
  id : WireSpanId
  parentId : Option WireSpanId
  name : String
  kind : Fin 6
  startNs : UnixNanos
  endNs : UnixNanos
  attributes : Attributes
  events : List SpanEvent
  status : Fin 3

structure Document where
  resource : Attributes
  scopeName : String
  scopeVersion : String
  spans : List Span
  schemaUrl : String

structure Encoding where
  spanCount : Nat
  otlpJson : String

/-- Where an encoder takes its identities from. -/
structure Identity where
  traceId : WireTraceId
  firstId : Nat
  runId : String
  positive : 0 < firstId
  bounded : firstId ≤ maxU64

namespace Identity

def reference : Identity where
  traceId := ⟨"00000000000000000000000000000001", by decide⟩
  firstId := 1
  runId := "specgate.capture"
  positive := by decide
  bounded := by decide

def candidate : Identity where
  traceId := ⟨"00000000000000000000000000000002", by decide⟩
  firstId := 0x8000000000000001
  runId := "specgate.replay"
  positive := by decide
  bounded := by decide

end Identity

/-! ### Protocol spellings -/

def runTime : Int := 1

def scenarioTime : Int := 2

def scenarioGapNs : Int := 1

def kindInternal : Fin 6 := 1

def ctscSchemaUrl : String := "https://specgate.dev/ctsc/schema/0.4.0"

def maxUsize : Nat := 18446744073709551615

def maxI32 : Nat := 2147483647

def statusCode : Status → Fin 3
  | .unset => 0
  | .ok => 1
  | .error => 2

/-! ### Values -/

mutual

def anyValue : Value → AnyValue
  | .string value => .string value
  | .integer value => .int value
  | .unsigned value => .string (toString value.toNat)
  | .float value => .double value
  | .bool value => .bool value
  | .list values | .set values => .array (anyValues values)
  | .map entries => .kvList (anyEntries entries)

def anyValues : List Value → List AnyValue
  | [] => []
  | value :: rest => anyValue value :: anyValues rest

def anyEntries : List (String × Value) → List (String × AnyValue)
  | [] => []
  | (key, value) :: rest => (key, anyValue value) :: anyEntries rest

end

/-! ### Encoding -/

def wireConstraint : String := "capture values must satisfy OTLP wire constraints"

def checkedId (value : Nat) : Except Failure WireSpanId :=
  if value = 0 then .error (.panic "CTSC span ID sequence must remain nonzero")
  else expect (WireId.new 16 (hexText value)) wireConstraint

/-- The number after a span number. -/
def advanceId (nextId : Nat) : Except Failure Nat :=
  if nextId + 1 ≤ maxU64 then .ok (nextId + 1) else .error (.error "CTSC span ID sequence overflow")

def offsetTime (value offset : Int) : Except Failure Int :=
  match checkedAdd value offset with
  | some time => .ok time
  | none => .error (.error "CTSC logical timestamp overflow")

def unixNanos (time : Int) : Except Failure UnixNanos :=
  expect (UnixNanos.new (toString time)) wireConstraint

/-- A time of a capture on the shared timeline. -/
def placeTime (offset time : Int) : Except Failure UnixNanos := do
  let time ← offsetTime time offset
  unixNanos time

structure Placement where
  id : WireSpanId
  parentId : WireSpanId
  offset : Int

def observationEvent (offset : Int) (observation : Observation) : Except Failure SpanEvent := do
  let timeNs ← placeTime offset observation.timeNs
  return {
    order := observation.order
    timeNs := timeNs
    name := "conformance.observation"
    attributes := [("conformance.observation.name", .string observation.name),
      ("conformance.observation.value", anyValue observation.value)] }

namespace Completion

def order : Completion → Nat
  | result order _ _ | empty order _ | error order _ _ _ | fault order _ _ _ _
  | abandoned order _ => order

def timeNs : Completion → Int
  | result _ timeNs _ | empty _ timeNs | error _ timeNs _ _ | fault _ timeNs _ _ _
  | abandoned _ timeNs => timeNs

def eventName : Completion → String
  | result _ _ _ => "conformance.result"
  | empty _ _ => "conformance.empty"
  | error _ _ _ _ => "conformance.error"
  | fault _ _ _ _ _ => "conformance.fault"
  | abandoned _ _ => "conformance.abandoned"

def attributes : Completion → Attributes
  | result _ _ value => [("conformance.result.value", anyValue value)]
  | empty _ _ => []
  | error _ _ name value =>
      ("conformance.error.name", .string name) ::
        (value.toList.map fun value => ("conformance.error.value", anyValue value))
  | fault _ _ faultType message observer =>
      [("conformance.fault.type", .string faultType), ("conformance.fault.message", .string message),
        ("conformance.fault.observer", .string observer)]
  | abandoned _ _ => []

end Completion

def completionEvent (offset : Int) (completion : Completion) : Except Failure SpanEvent := do
  let timeNs ← placeTime offset completion.timeNs
  return {
    order := completion.order
    timeNs := timeNs
    name := completion.eventName
    attributes := completion.attributes }

/-- The events of an operation in event order. -/
def operationEvents (offset : Int) (operation : Operation) : Except Failure (List SpanEvent) := do
  let observations ← collectOk (observationEvent offset) operation.observations
  let completion ← collectOk (completionEvent offset) operation.completion.toList
  return (observations ++ completion).mergeSort fun left right => decide (left.order ≤ right.order)

def operationSpan (traceId : WireTraceId) (operation : Operation) (placement : Placement) :
    Except Failure Span := do
  let events ← operationEvents placement.offset operation
  let startNs ← placeTime placement.offset operation.startNs
  let endNs ← placeTime placement.offset operation.endNs
  return {
    traceId := traceId
    id := placement.id
    parentId := some placement.parentId
    name := "conformance.operation"
    kind := kindInternal
    startNs := startNs
    endNs := endNs
    attributes := [("conformance.component.id", .string operation.componentId),
      ("conformance.operation.name", .string operation.operationName),
      ("conformance.operation.inputs", .kvList (anyEntries operation.inputs))]
    events := events
    status := statusCode operation.status }

def duplicateId (scenarioName spanId : String) : String :=
  s!"native scenario '{scenarioName}' contains duplicate operation span ID '{spanId}'"

/-- The identities of the operations of a capture, and the number after them. -/
def assignIds (scenarioName : String) (ids : List (String × WireSpanId)) (nextId : Nat) :
    List Operation → Except Failure (List (String × WireSpanId) × Nat)
  | [] => .ok (ids, nextId)
  | operation :: rest => do
      let spanId ← checkedId nextId
      let nextId ← advanceId nextId
      if contains ids operation.spanId then
        .error (.error (duplicateId scenarioName operation.spanId))
      else assignIds scenarioName (insert operation.spanId spanId ids) nextId rest

/-- The new identity of the parent of an operation. -/
def parentSpan (capture : Capture) (scenarioId : WireSpanId) (ids : List (String × WireSpanId))
    (operation : Operation) : Except Failure WireSpanId :=
  if operation.parentId = capture.scenario.spanId then .ok scenarioId
  else match lookup ids operation.parentId with
    | some parentId => .ok parentId
    | none => .error (.error (s!"native scenario '{capture.scenarioName}' operation " ++
        s!"'{operation.operationName}' has unresolved parent span '{operation.parentId}'"))

def encodeOperation (identity : Identity) (capture : Capture) (scenarioId : WireSpanId)
    (ids : List (String × WireSpanId)) (offset : Int) (operation : Operation) :
    Except Failure Span := do
  let id ← expect (lookup ids operation.spanId)
    "every operation received a generated span ID in the preceding loop"
  let parentId ← parentSpan capture scenarioId ids operation
  operationSpan identity.traceId operation ⟨id, parentId, offset⟩

/-- Encode the operations and count them. -/
def encodeOperations (identity : Identity) (capture : Capture) (scenarioId : WireSpanId)
    (ids : List (String × WireSpanId)) (offset : Int) (operationCount : Nat) :
    List Operation → Except Failure (List Span × Nat)
  | [] => .ok ([], operationCount)
  | operation :: rest => do
      let span ← encodeOperation identity capture scenarioId ids offset operation
      report (operationCount + 1 ≤ maxUsize) "CTSC operation count overflow"
      let (spans, operationCount) ← encodeOperations identity capture scenarioId ids offset
        (operationCount + 1) rest
      return (span :: spans, operationCount)

/-- What the times of a capture are moved by. -/
def scenarioOffset (nextTime startNs : Int) : Except Failure Int :=
  match checkedAdd nextTime (-startNs) with
  | some offset => .ok offset
  | none => .error (.error "CTSC scenario timestamp offset overflow")

/-- The span of a scenario with the spans of its operations. -/
structure Group where
  scenario : Span
  operations : List Span

def Group.spans (group : Group) : List Span := group.scenario :: group.operations

/-- Where the next capture goes. -/
structure Cursor where
  nextId : Nat
  nextTime : Int
  operationCount : Nat

def scenarioSpan (identity : Identity) (runSpanId scenarioId : WireSpanId) (index : Nat)
    (capture : Capture) (startNs endNs : UnixNanos) : Span where
  traceId := identity.traceId
  id := scenarioId
  parentId := some runSpanId
  name := "conformance.scenario"
  kind := kindInternal
  startNs := startNs
  endNs := endNs
  attributes := [("conformance.scenario.name", .string capture.scenarioName),
    ("conformance.scenario.index", .int (Int64.ofNat index))]
  events := []
  status := statusCode capture.scenario.status

def encodeCapture (identity : Identity) (runSpanId : WireSpanId) (index : Nat) (cursor : Cursor)
    (capture : Capture) : Except Failure (Group × Cursor) := do
  let scenarioId ← checkedId cursor.nextId
  let nextId ← advanceId cursor.nextId
  let (ids, nextId) ← assignIds capture.scenarioName [] nextId capture.operations
  let offset ← scenarioOffset cursor.nextTime capture.scenario.startNs
  let endTime ← offsetTime capture.scenario.endNs offset
  report ((index : Int) ≤ maxI64) "CTSC scenario index exceeds i64"
  let startNs ← unixNanos cursor.nextTime
  let endNs ← unixNanos endTime
  let (operations, operationCount) ← encodeOperations identity capture scenarioId ids offset
    cursor.operationCount capture.operations
  let nextTime ← offsetTime endTime scenarioGapNs
  return (⟨scenarioSpan identity runSpanId scenarioId index capture startNs endNs, operations⟩,
    ⟨nextId, nextTime, operationCount⟩)

def encodeCaptures (identity : Identity) (runSpanId : WireSpanId) (index : Nat) (cursor : Cursor) :
    List Capture → Except Failure (List Group × Cursor)
  | [] => .ok ([], cursor)
  | capture :: rest => do
      let (group, cursor) ← encodeCapture identity runSpanId index cursor capture
      let (groups, cursor) ← encodeCaptures identity runSpanId (index + 1) cursor rest
      return (group :: groups, cursor)

def runSpan (identity : Identity) (runSpanId : WireSpanId) (startNs endNs : UnixNanos)
    (hasError : Bool) : Span where
  traceId := identity.traceId
  id := runSpanId
  parentId := none
  name := "conformance.run"
  kind := kindInternal
  startNs := startNs
  endNs := endNs
  attributes := [("conformance.run.id", .string identity.runId)]
  events := []
  status := statusCode (if hasError then .error else .ok)

def resourceAttributes (metadata : Metadata) : Attributes :=
  [("conformance.version", .string ctscVersion),
    ("conformance.tool.name", .string "specgate"),
    ("conformance.tool.version", .string metadata.toolVersion),
    ("conformance.target.name", .string metadata.targetName),
    ("conformance.target.language", .string metadata.targetLanguage),
    ("conformance.registry.id", .string metadata.registry.id),
    ("conformance.registry.version", .string metadata.registry.version),
    ("conformance.registry.digest", .string metadata.registry.digest)]

/-- The document of some captures and the number of their operations. -/
def encodeDocument (captures : List Capture) (metadata : Metadata) (identity : Identity) :
    Except Failure (Document × Nat) := do
  report (!captures.isEmpty) "cannot encode a CTSC run without captured scenarios"
  let runSpanId ← checkedId identity.firstId
  let nextId ← advanceId identity.firstId
  let (groups, cursor) ← encodeCaptures identity runSpanId 0 ⟨nextId, scenarioTime, 0⟩ captures
  let startNs ← unixNanos runTime
  let endNs ← unixNanos cursor.nextTime
  let hasError := captures.any fun capture => decide (capture.scenario.status = .error)
  return ({
    resource := resourceAttributes metadata
    scopeName := "specgate.ctsc"
    scopeVersion := metadata.toolVersion
    spans := runSpan identity runSpanId startNs endNs hasError :: groups.flatMap Group.spans
    schemaUrl := ctscSchemaUrl }, cursor.operationCount)

def write (serialize : Document → Except String String) (document : Document) :
    Except Failure String :=
  match serialize document with
  | .ok text => .ok text
  | .error _ => .error (.error "native CTSC OTLP serialization failed")

/-- Encode captures; `serialize` is the JSON writer. -/
def encode (serialize : Document → Except String String) (captures : List Capture)
    (metadata : Metadata) (identity : Identity) : Except Failure Encoding := do
  let (document, operationCount) ← encodeDocument captures metadata identity
  let otlpJson ← write serialize document
  report (operationCount + captures.length + 1 ≤ maxUsize) "native CTSC span count exceeds usize"
  report (operationCount + captures.length + 1 ≤ maxI32) "native CTSC span count exceeds i32"
  return ⟨operationCount + captures.length + 1, otlpJson⟩

def encodeReference (serialize : Document → Except String String) (captures : List Capture)
    (metadata : Metadata) : Except Failure Encoding :=
  encode serialize captures metadata .reference

def encodeCandidate (serialize : Document → Except String String) (captures : List Capture)
    (metadata : Metadata) : Except Failure Encoding :=
  encode serialize captures metadata .candidate

end SpecGate.CaptureEncoding

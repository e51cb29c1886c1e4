import SpecGate.CaptureSession

/-!
The capture session of the C# runtime. It numbers and times the operations of a scenario in
the steps of the Rust session, and reads its clock in the same order. Operations record no
observations. A snapshot does not close what is open: it projects the open operations with
counters of its own.
-/
namespace SpecGate.ClrSessions

open CaptureSession

variable {Value : Type}

/-! ### Data -/

/-- The span status that a channel requires. -/
def requiredStatus : Completion Value → Status
  | .result .. | .empty .. => .ok
  | .error .. | .fault .. => .error
  | .abandoned .. => .unset

/-- A unit operation has no channel. -/
def spanStatus (completion : Option (Completion Value)) : Status :=
  (completion.map requiredStatus).getD .ok

structure PendingOperation (Value : Type) where
  order : Nat
  spanId : SpanId
  parentSpanId : SpanId
  componentId : String
  operationName : String
  startNs : Int
  inputs : List (String × Value)
  completion : Option (Completion Value)
  endNs : Int
  status : Option Status

structure Session (Value : Type) where
  config : Config
  runStartNs : Int
  scenarioStartNs : Int
  nextTimeNs : Int
  nextOrder : Nat
  nextOp : Nat
  operations : List (PendingOperation Value)

/-- A span, unless it ends before it starts or its status is not that of its channel. -/
def operationSpan (operation : PendingOperation Value) (completion : Option (Completion Value))
    (endNs : Int) (status : Status) : Option (OperationSpan Value) :=
  if endNs < operation.startNs then none
  else if status ≠ spanStatus completion then none
  else some
    { order := operation.order
      spanId := operation.spanId
      parentId := operation.parentSpanId
      componentId := operation.componentId
      operationName := operation.operationName
      startNs := operation.startNs
      endNs := endNs
      status := status
      inputs := operation.inputs
      observations := []
      completion := completion }

namespace PendingOperation

def complete (operation : PendingOperation Value) (completion : Option (Completion Value))
    (endNs : Int) : PendingOperation Value :=
  { operation with
    completion := completion
    endNs := endNs
    status := some (spanStatus completion) }

def build (operation : PendingOperation Value) : Option (OperationSpan Value) :=
  operation.status.bind fun status =>
    operationSpan operation operation.completion operation.endNs status

/-- The span as though it had ended with a completion. -/
def buildAs (operation : PendingOperation Value) (completion : Completion Value) (endNs : Int) :
    Option (OperationSpan Value) :=
  operationSpan operation (some completion) endNs (requiredStatus completion)

end PendingOperation

/-- A span boundary, unless it ends before it starts. -/
def spanBoundary (spanId : SpanId) (parentId : Option SpanId) (startNs endNs : Int)
    (status : Status) : Option SpanBoundary :=
  if endNs < startNs then none else some ⟨spanId, parentId, startNs, endNs, status⟩

/-! ### Configuration -/

def uniqueIds (seen : List String) : List SpanId → Bool
  | [] => true
  | spanId :: rest => !seen.contains spanId.text && uniqueIds (spanId.text :: seen) rest

/-- What the builder of a configuration accepts. -/
def accepts (config : Config) : Bool :=
  decide (0 ≤ config.startNs) && decide (0 < config.stepNs) &&
    uniqueIds [config.runSpanId.text] (config.scenarioSpanId :: config.operationIds)

def begun (config : Config) : Option (Session Value) :=
  if accepts config then
    (checkedAdd config.startNs config.stepNs).bind fun scenarioStartNs =>
      (checkedAdd scenarioStartNs config.stepNs).map fun nextTimeNs =>
        ⟨config, config.startNs, scenarioStartNs, nextTimeNs, 0, 0, []⟩
  else none

/-! ### Operations -/

/-- The identity with a number. -/
def fromOrdinal (ordinal : Nat) : Option SpanId :=
  if ordinal = 0 then none else (SpanId.parse (hexText ordinal)).toOption

/-- The first identity from a candidate on that is not reserved; the fuel is the number of
candidates below `2 ^ 64`. -/
def freshOrdinal (reserved : List String) : Nat → Nat → Option SpanId
  | 0, _ => none
  | fuel + 1, candidate =>
      if hexText candidate ∈ reserved then freshOrdinal reserved fuel (candidate + 1)
      else fromOrdinal candidate

namespace Session

def nextSpanId (session : Session Value) : Option SpanId :=
  if h : session.nextOp < session.config.operationIds.length then
    some session.config.operationIds[session.nextOp]
  else
    freshOrdinal (session.config.runSpanId.text :: session.config.scenarioSpanId.text ::
      session.operations.map fun operation => operation.spanId.text)
      (maxU64 - session.nextOp) (session.nextOp + 1)

def tick (session : Session Value) : Option (Int × Session Value) :=
  (checkedAdd session.nextTimeNs session.config.stepNs).map fun next =>
    (session.nextTimeNs, { session with nextTimeNs := next })

def order (session : Session Value) : Option (Nat × Session Value) :=
  if session.nextOrder + 1 ≤ maxU64 then
    some (session.nextOrder, { session with nextOrder := session.nextOrder + 1 })
  else none

/-- Register a starting operation; `none` is an exception. -/
def begin (session : Session Value) (component operation : String)
    (parentSpanId : Option SpanId) : Option (Nat × Session Value) :=
  session.nextSpanId.bind fun spanId =>
    session.tick.bind fun (startNs, session) =>
      session.order.map fun (order, session) =>
        (session.operations.length,
          { session with
            operations := session.operations ++
              [⟨order, spanId, parentSpanId.getD session.config.scenarioSpanId, component, operation,
                startNs, [], none, 0, none⟩]
            nextOp := session.nextOp + 1 })

def modify (session : Session Value) (index : Nat)
    (f : PendingOperation Value → PendingOperation Value) : Session Value :=
  { session with operations := session.operations.modify index f }

/-- End an operation, after its completion if it has one. What has been drawn when an
exception is thrown stays drawn. -/
def complete (session : Session Value) (index : Nat)
    (completion : Option (Nat → Int → Completion Value)) : Session Value :=
  match completion with
  | none =>
      match session.tick with
      | none => session
      | some (endNs, session) => session.modify index fun operation => operation.complete none endNs
  | some completion =>
      match session.order with
      | none => session
      | some (order, session) =>
          match session.tick with
          | none => session
          | some (timeNs, session) =>
              match session.tick with
              | none => session
              | some (endNs, session) => session.modify index fun operation =>
                  operation.complete (some (completion order timeNs)) endNs

/-! ### Captures -/

def incompleteFault (operation : PendingOperation Value) (order : Nat) (timeNs : Int) :
    Completion Value :=
  .fault order timeNs "incomplete_capture"
    s!"native operation '{operation.operationName}' was still outstanding when the capture ended"
    "target"

def buildCapture (session : Session Value) (operations : List (OperationSpan Value))
    (scenarioEndNs : Int) : Option (Capture Value) :=
  (checkedAdd scenarioEndNs session.config.stepNs).bind fun runEndNs =>
    let rootStatus :=
      if operations.any fun operation => decide (operation.status = .error) then Status.error
      else Status.ok
    (spanBoundary session.config.runSpanId none session.runStartNs runEndNs rootStatus).bind
      fun run =>
        (spanBoundary session.config.scenarioSpanId (some session.config.runSpanId)
          session.scenarioStartNs scenarioEndNs rootStatus).map fun scenario =>
            ⟨session.config.traceId, session.config.scenarioName, run, scenario, operations⟩

/-- Project the open operations among those at the given indices, with counters of their own. -/
def projectOpen (session : Session Value) : List Nat → Int → Nat →
    (Nat → Option (OperationSpan Value)) → Option (Int × (Nat → Option (OperationSpan Value)))
  | [], nextTimeNs, _, projected => some (nextTimeNs, projected)
  | index :: rest, nextTimeNs, nextOrder, projected =>
      (session.operations[index]?).bind fun operation =>
        if operation.status.isSome then projectOpen session rest nextTimeNs nextOrder projected
        else
          (checkedAdd nextTimeNs session.config.stepNs).bind fun endNs =>
            (checkedAdd endNs session.config.stepNs).bind fun next =>
              (operation.buildAs (incompleteFault operation nextOrder nextTimeNs) endNs).bind
                fun span => projectOpen session rest next ((nextOrder + 1) % (maxU64 + 1))
                  (Function.update projected index (some span))

/-- The spans of all operations: projected, or as they were completed. -/
def buildSpans (projected : Nat → Option (OperationSpan Value)) :
    Nat → List (PendingOperation Value) → Option (List (OperationSpan Value))
  | _, [] => some []
  | index, operation :: rest =>
      ((projected index).or operation.build).bind fun span =>
          (buildSpans projected (index + 1) rest).map fun spans => span :: spans

/-- The capture as it stands. -/
def snapshot (session : Session Value) : Option (Capture Value) :=
  (session.projectOpen (List.range session.operations.length).reverse session.nextTimeNs
    session.nextOrder fun _ => none).bind fun (nextTimeNs, projected) =>
      (buildSpans projected 0 session.operations).bind fun operations =>
        session.buildCapture operations nextTimeNs

/-- Finish the session; operations that are still open are an exception. -/
def finish (session : Session Value) : Option (Capture Value) :=
  if session.operations.any fun operation => operation.status.isNone then none
  else if session.nextOp < session.config.operationIds.length then none
  else
    (buildSpans (fun _ => none) 0 session.operations).bind fun operations =>
      session.buildCapture operations session.nextTimeNs

end Session

/-! ### Scopes -/

/-- How an operation ends. -/
inductive Terminal (Value : Type) where
  | unit
  | result (value : Value)
  | empty
  | error (name : String) (value : Option Value)
  | fault
  | abandoned

/-- What the code under capture does, on one flow. An operation that completes is the one
entered last. -/
inductive Step (Value : Type) where
  | begin (component operation : String) (inputs : List (String × Value))
  | observe (name : String) (value : Value)
  | complete (terminal : Terminal Value)

def Step.isObserve : Step Value → Bool
  | .observe _ _ => true
  | _ => false

/-- The completion a scope hands to its session. -/
def Terminal.completion : Terminal Value → Option (Nat → Int → Completion Value)
  | .unit => none
  | .result value => some fun order timeNs => .result order timeNs value
  | .empty => some .empty
  | .error name value => some fun order timeNs => .error order timeNs name value
  | .fault => some fun order timeNs => .fault order timeNs "specgate.unexpected_target_fault"
      "operation unwound before returning" "target"
  | .abandoned => some .abandoned

/-- A session, with the operation of the current scope and those of its parents. -/
structure Flow (Value : Type) where
  session : Session Value
  scopes : List Nat

/-- There is nothing that records an observation. -/
def Flow.step (flow : Flow Value) : Step Value → Option (Flow Value)
  | .begin component operation inputs =>
      let parent := (flow.scopes.head?.bind (flow.session.operations[·]?)).map
        PendingOperation.spanId
      match flow.session.begin component operation parent with
      | none => some flow
      | some (index, session) =>
          some ⟨session.modify index fun operation => { operation with inputs := inputs },
            index :: flow.scopes⟩
  | .observe _ _ => some flow
  | .complete terminal =>
      match flow.scopes with
      | [] => none
      | index :: parents => some ⟨flow.session.complete index terminal.completion, parents⟩

def Flow.run : Flow Value → List (Step Value) → Option (Flow Value)
  | flow, [] => some flow
  | flow, step :: rest => (flow.step step).bind fun next => next.run rest

end SpecGate.ClrSessions

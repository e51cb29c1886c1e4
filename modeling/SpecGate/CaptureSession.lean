import SpecGate.Collecting
import SpecGate.SortedAssoc

/-!
One native capture session: a logical clock and an event order that only advance, the
operations begun so far with the one that is current, and the first failure that ends
the session. Every step draws its readings before it records anything, and a draw that
overflows leaves the clock or the order as it was.
-/
namespace SpecGate.CaptureSession

open SortedAssoc Collecting

inductive CaptureErrorKind where
  | configuration
  | persistence
  | setupAmbiguity
  | setupMissing
  deriving DecidableEq

structure CaptureError where
  kind : CaptureErrorKind
  diagnostic : String
  deriving DecidableEq

/-- A failure without a kind of its own is one of configuration. -/
def failure (diagnostic : String) : CaptureError := ⟨.configuration, diagnostic⟩

/-- How a call can fail: with an error, or by a panic of the thread. -/
inductive Failure where
  | error (error : CaptureError)
  | panic (message : String)

/-! ### Identities -/

def isLowerHex (c : Char) : Bool := ('0' ≤ c && c ≤ '9') || ('a' ≤ c && c ≤ 'f')

def validHexId (text : String) (length : Nat) : Bool :=
  text.toList.length == length && text.toList.all isLowerHex && !text.toList.all (· == '0')

/-- A nonzero lowercase hexadecimal identity of a fixed width. -/
@[ext] structure HexId (length : Nat) where
  text : String
  valid : validHexId text length = true
  deriving DecidableEq

def spanHexLen : Nat := 16

abbrev TraceId := HexId 32

abbrev SpanId := HexId spanHexLen

def SpanId.parse (text : String) : Except CaptureError SpanId :=
  if h : validHexId text spanHexLen = true then .ok ⟨text, h⟩
  else .error (failure s!"span ID must be a non-zero {spanHexLen}-character lowercase hexadecimal string")

/-- A number in lowercase hexadecimal, padded with zeros to the width of a span ID. -/
def hexText (value : Nat) : String :=
  String.ofList (List.leftpad spanHexLen '0' (Nat.toDigits 16 value))

/-! ### Captured data -/

inductive Status where
  | unset
  | ok
  | error
  deriving DecidableEq

section Data

variable (Value : Type)

structure Observation where
  order : Nat
  timeNs : Int
  name : String
  value : Value

inductive Completion where
  | result (order : Nat) (timeNs : Int) (value : Value)
  | empty (order : Nat) (timeNs : Int)
  | error (order : Nat) (timeNs : Int) (name : String) (value : Option Value)
  | fault (order : Nat) (timeNs : Int) (faultType message observer : String)
  | abandoned (order : Nat) (timeNs : Int)

structure PendingOperation where
  order : Nat
  spanId : SpanId
  parentSpanId : SpanId
  parentOperation : Option Nat
  componentId : String
  operationName : String
  startNs : Int
  endNs : Option Int
  status : Option Status
  inputs : List (String × Value)
  filledParameters : List String
  observations : List (Observation Value)
  completion : Option (Completion Value)

structure OperationSpan where
  order : Nat
  spanId : SpanId
  parentId : SpanId
  componentId : String
  operationName : String
  startNs : Int
  endNs : Int
  status : Status
  inputs : List (String × Value)
  observations : List (Observation Value)
  completion : Option (Completion Value)

structure SpanBoundary where
  spanId : SpanId
  parentId : Option SpanId
  startNs : Int
  endNs : Int
  status : Status

structure Capture where
  traceId : TraceId
  scenarioName : String
  run : SpanBoundary
  scenario : SpanBoundary
  operations : List (OperationSpan Value)

structure Config where
  scenarioName : String
  traceId : TraceId
  runSpanId : SpanId
  scenarioSpanId : SpanId
  operationIds : List SpanId
  startNs : Int
  stepNs : Int

structure State where
  config : Config
  sidecarPath : Option String
  runStartNs : Int
  scenarioStart : Int
  nextTimeNs : Int
  nextOp : Nat
  nextOrder : Nat
  currentOperation : Option Nat
  operations : List (PendingOperation Value)
  terminalError : Option CaptureError

end Data

/-- The first index whose identity repeats an earlier one. -/
def duplicatedId (seen : List SpanId) (index : Nat) : List SpanId → Option Nat
  | [] => none
  | spanId :: rest =>
      if spanId ∈ seen then some index else duplicatedId (spanId :: seen) (index + 1) rest

def validateConfig (config : Config) : Except CaptureError Unit :=
  if config.startNs < 0 then
    .error (failure "native capture start timestamp must be non-negative")
  else if config.stepNs ≤ 0 then
    .error (failure "native capture logical clock step must be positive")
  else if config.scenarioSpanId = config.runSpanId then
    .error (failure "native capture span IDs must be unique")
  else match duplicatedId [config.scenarioSpanId, config.runSpanId] 0 config.operationIds with
    | some index =>
        .error (failure s!"native capture operation span ID at index {index} is duplicated")
    | none => .ok ()

/-! ### Clock and order -/

def maxI64 : Int := 9223372036854775807

def maxU64 : Nat := 18446744073709551615

def checkedAdd (a b : Int) : Option Int :=
  if -maxI64 - 1 ≤ a + b ∧ a + b ≤ maxI64 then some (a + b) else none

def clockOverflow : CaptureError := failure "native capture logical clock overflow"

def orderOverflow : CaptureError := failure "native capture event order overflow"

def spanOverflow : CaptureError := failure "native operation span ID sequence overflow"

variable {Value : Type}

namespace State

/-- The next clock reading. -/
def tick (state : State Value) : Except CaptureError (Int × State Value) :=
  match checkedAdd state.nextTimeNs state.config.stepNs with
  | some next => .ok (state.nextTimeNs, { state with nextTimeNs := next })
  | none => .error clockOverflow

/-- The next event order. -/
def order (state : State Value) : Except CaptureError (Nat × State Value) :=
  if state.nextOrder + 1 ≤ maxU64 then
    .ok (state.nextOrder, { state with nextOrder := state.nextOrder + 1 })
  else .error orderOverflow

/-- The order and then the reading of an event. The order stays drawn when the clock
overflows. -/
def stamp (state : State Value) : Except CaptureError (Nat × Int) × State Value :=
  match state.order with
  | .error error => (.error error, state)
  | .ok (order, state) =>
      match state.tick with
      | .error error => (.error error, state)
      | .ok (timeNs, state) => (.ok (order, timeNs), state)

/-- The reading and then the order of a start. -/
def stampStart (state : State Value) : Except CaptureError (Int × Nat) × State Value :=
  match state.tick with
  | .error error => (.error error, state)
  | .ok (timeNs, state) =>
      match state.order with
      | .error error => (.error error, state)
      | .ok (order, state) => (.ok (timeNs, order), state)

/-- Enter a new operation as the current one. -/
def push (state : State Value) (operation : PendingOperation Value) : State Value :=
  { state with
    operations := state.operations ++ [operation]
    nextOp := state.nextOp + 1
    currentOperation := some state.operations.length }

def modify (state : State Value) (index : Nat)
    (f : PendingOperation Value → PendingOperation Value) : State Value :=
  { state with operations := state.operations.modify index f }

def fail (state : State Value) (error : CaptureError) : State Value :=
  { state with terminalError := some error }

/-- The operations that have not closed, in order of their start. -/
def outstanding (state : State Value) : List Nat :=
  (List.range state.operations.length).filter fun index =>
    (state.operations[index]?).any fun operation => operation.status.isNone

def hasOutstanding (state : State Value) : Bool :=
  state.operations.any fun operation => operation.status.isNone

/-- Give the place of the current operation back to its parent. -/
def release (state : State Value) (index : Nat) : State Value :=
  if state.currentOperation = some index then
    { state with
      currentOperation := (state.operations[index]?).bind PendingOperation.parentOperation }
  else state

end State

/-- Start a session; `registry` is what folding of the linked setups reports. -/
def start (config : Config) (sidecarPath : Option String) (registry : Except CaptureError Unit) :
    Except CaptureError (State Value) :=
  match validateConfig config with
  | .error error => .error error
  | .ok _ =>
      match registry with
      | .error error => .error error
      | .ok _ =>
          if sidecarPath = some "" then
            .error (failure "native capture sidecar path must not be empty")
          else match checkedAdd config.startNs config.stepNs with
            | none => .error clockOverflow
            | some scenarioStart =>
                match checkedAdd scenarioStart config.stepNs with
                | none => .error clockOverflow
                | some nextTimeNs =>
                    .ok
                      { config := config
                        sidecarPath := sidecarPath
                        runStartNs := config.startNs
                        scenarioStart := scenarioStart
                        nextTimeNs := nextTimeNs
                        nextOp := 0
                        nextOrder := 0
                        currentOperation := none
                        operations := []
                        terminalError := none }

/-! ### Operations -/

/-- The span IDs that a generated one must avoid. -/
def reserved (state : State Value) : List String :=
  state.config.runSpanId.text :: state.config.scenarioSpanId.text ::
    state.operations.map fun operation => operation.spanId.text

/-- The first text from a candidate on that is not taken; the fuel is the number of
candidates below `2 ^ 64`. -/
def freshSpan (taken : List String) : Nat → Nat → Except CaptureError SpanId
  | 0, _ => .error spanOverflow
  | fuel + 1, candidate =>
      if hexText candidate ∈ taken then freshSpan taken fuel (candidate + 1)
      else SpanId.parse (hexText candidate)

def nextSpan (state : State Value) : Except CaptureError SpanId :=
  match state.config.operationIds[state.nextOp]? with
  | some spanId => .ok spanId
  | none => freshSpan (reserved state) (maxU64 - state.nextOp) (state.nextOp + 1)

/-- Begin an operation below the current one; `folded` is what the setups of the
operation give as inputs, with the parameters they fill. -/
def beginActive (state : State Value) (componentId operationName : String)
    (folded : Except CaptureError (List (String × Value) × List String)) :
    Except CaptureError Nat × State Value :=
  match state.terminalError with
  | some error => (.error error, state)
  | none =>
  match folded with
  | .error error => (.error error, state)
  | .ok (inputs, setupParams) =>
  match nextSpan state with
  | .error error => (.error error, state)
  | .ok spanId =>
      let parentOperation := state.currentOperation
      let parentSpanId := ((parentOperation.bind (state.operations[·]?)).map
        PendingOperation.spanId).getD state.config.scenarioSpanId
      match state.stampStart with
      | (.error error, state) => (.error error, state)
      | (.ok (startNs, order), state) =>
          (.ok state.operations.length, state.push
            { order := order
              spanId := spanId
              parentSpanId := parentSpanId
              parentOperation := parentOperation
              componentId := componentId
              operationName := operationName
              startNs := startNs
              endNs := none
              status := none
              inputs := inputs
              filledParameters := setupParams
              observations := []
              completion := none })

/-- Enter inputs one by one, up to and with the first whose name is there already. -/
def insertInputs (inputs : List (String × Value)) :
    List (String × Value) → List (String × Value) × Option String
  | [] => (inputs, none)
  | (name, value) :: rest =>
      if SortedAssoc.contains inputs name then (SortedAssoc.insert name value inputs, some name)
      else insertInputs (SortedAssoc.insert name value inputs) rest

/-- Record an input of an open operation; `folded` is what the registry makes of it. -/
def recordInput (state : State Value) (index : Nat) (name : String)
    (folded : Except CaptureError (List (String × Value))) : Except Failure Unit × State Value :=
  match state.operations[index]? with
  | none => (.error (.panic "native operation index must remain valid"), state)
  | some operation =>
      if operation.status.isSome then
        (.error (.panic "native operation input cannot be recorded after completion"), state)
      else if name ∈ operation.filledParameters then (.ok (), state)
      else match folded with
        | .error error => (.error (.error error), state)
        | .ok additions =>
            let (inputs, repeated) := insertInputs operation.inputs additions
            let state := state.modify index fun operation => { operation with inputs := inputs }
            match repeated with
            | none => (.ok (), state)
            | some name =>
                (.error (.panic s!"native operation input '{name}' cannot be recorded twice"), state)

def resultObservation : String := "$result"

def faultObservation : String := "$fault"

/-- Record an observation on the current operation, if there is one. -/
def recordObservation (state : State Value) (name : String) (value : Value) :
    Except CaptureError Unit × State Value :=
  match state.currentOperation with
  | none => (.ok (), state)
  | some index =>
      if name = resultObservation ∨ name = faultObservation then (.ok (), state)
      else match state.stamp with
        | (.error error, state) => (.error error, state)
        | (.ok (order, timeNs), state) =>
            (.ok (), state.modify index fun operation =>
              { operation with
                observations := operation.observations ++ [⟨order, timeNs, name, value⟩] })

/-! ### Closing -/

def unexpectedFault : String := "specgate.unexpected_target_fault"

def targetObserver : String := "target"

inductive NativeTerminal (Value : Type) where
  | unit
  | result (value : Value)
  | empty
  | error (name : String) (value : Option Value)
  | fault

def unwound (order : Nat) (timeNs : Int) : Completion Value :=
  .fault order timeNs unexpectedFault "operation unwound before returning" targetObserver

/-- The completion event of a terminal, once it has been stamped. -/
def NativeTerminal.completion : NativeTerminal Value → Option (Nat → Int → Completion Value)
  | .unit => none
  | .result value => some fun order timeNs => .result order timeNs value
  | .empty => some .empty
  | .error name value => some fun order timeNs => .error order timeNs name value
  | .fault => some unwound

def NativeTerminal.status : NativeTerminal Value → Status
  | .unit | .result _ | .empty => .ok
  | .error _ _ | .fault => .error

def close (completion : Option (Completion Value)) (endNs : Int) (status : Status)
    (operation : PendingOperation Value) : PendingOperation Value :=
  { operation with completion := completion, endNs := some endNs, status := some status }

/-- Stamp the completion, if there is one to stamp. -/
def stampCompletion (state : State Value) : Option (Nat → Int → Completion Value) →
    Except CaptureError (Option (Completion Value)) × State Value
  | none => (.ok none, state)
  | some completion =>
      match state.stamp with
      | (.error error, state) => (.error error, state)
      | (.ok (order, timeNs), state) => (.ok (some (completion order timeNs)), state)

/-- Record the terminal of an open operation. -/
def recordTerminal (state : State Value) (index : Nat) (terminal : NativeTerminal Value) :
    Except CaptureError Unit × State Value :=
  match stampCompletion state terminal.completion with
  | (.error error, state) => (.error error, state)
  | (.ok completion, state) =>
      match state.tick with
      | .error error => (.error error, state)
      | .ok (endNs, state) =>
          (.ok (), (state.modify index (close completion endNs terminal.status)).release index)

/-- Record what ended an operation whose scope is dropped, or that the readings for it
could not be drawn. Both are drawn, whatever becomes of the other. -/
def recordDrop (state : State Value) (index : Nat) (completion : Nat → Int → Completion Value)
    (status : Status) : State Value :=
  let (stamped, state) := state.stamp
  match stamped, state.tick with
  | .ok (order, timeNs), .ok (endNs, state) =>
      state.modify index (close (some (completion order timeNs)) endNs status)
  | .error error, .ok (_, state) => state.fail error
  | .error error, .error _ => state.fail error
  | .ok _, .error error => state.fail error

/-- Drop a scope that has not been completed. -/
def dropScope (state : State Value) (index : Nat) (abandonable panicking : Bool) : State Value :=
  match state.operations[index]? with
  | none => state
  | some operation =>
      if operation.status.isSome then state
      else
        let state :=
          if panicking then recordDrop state index unwound .error
          else if abandonable then recordDrop state index .abandoned .unset
          else state.fail (failure
            s!"native operation '{operation.operationName}' scope closed without completion")
        state.release index

/-! ### Snapshots -/

def incompleteCapture (operationName : String) (order : Nat) (timeNs : Int) : Completion Value :=
  .fault order timeNs "incomplete_capture"
    s!"native operation '{operationName}' was still outstanding when the capture ended"
    targetObserver

/-- Close operations as incomplete, in the order given. -/
def closeAll (state : State Value) : List Nat → Except CaptureError (State Value)
  | [] => .ok state
  | index :: rest =>
      let name := ((state.operations[index]?).map PendingOperation.operationName).getD ""
      match state.stamp with
      | (.error error, _) => .error error
      | (.ok (order, timeNs), state) =>
          match state.tick with
          | .error error => .error error
          | .ok (endNs, state) =>
              let completion := incompleteCapture name order timeNs
              closeAll ((state.modify index (close (some completion) endNs .error)).release index)
                rest

def closeOutstanding (state : State Value) : Except CaptureError (State Value) :=
  closeAll state state.outstanding.reverse

/-- The span of a closed operation. -/
def PendingOperation.span (operation : PendingOperation Value) : Option (OperationSpan Value) :=
  operation.endNs.bind fun endNs => operation.status.map fun status =>
    { order := operation.order
      spanId := operation.spanId
      parentId := operation.parentSpanId
      componentId := operation.componentId
      operationName := operation.operationName
      startNs := operation.startNs
      endNs := endNs
      status := status
      inputs := operation.inputs
      observations := operation.observations
      completion := operation.completion }

def build (state : State Value) : Except Failure (Capture Value) :=
  match state.terminalError with
  | some error => .error (.error error)
  | none =>
      match checkedAdd state.nextTimeNs state.config.stepNs with
      | none => .error (.error clockOverflow)
      | some runEndNs =>
          match collect PendingOperation.span state.operations with
          | none => .error (.panic "completed capture operation must have an end timestamp")
          | some operations =>
              let rootStatus :=
                if state.operations.any fun operation => decide (operation.status = some .error)
                then Status.error else Status.ok
              .ok
                { traceId := state.config.traceId
                  scenarioName := state.config.scenarioName
                  run :=
                    { spanId := state.config.runSpanId
                      parentId := none
                      startNs := state.runStartNs
                      endNs := runEndNs
                      status := rootStatus }
                  scenario :=
                    { spanId := state.config.scenarioSpanId
                      parentId := some state.config.runSpanId
                      startNs := state.scenarioStart
                      endNs := state.nextTimeNs
                      status := rootStatus }
                  operations := operations }

def failureMarker : String := "__SPECGATE_NATIVE_CAPTURE_PERSISTENCE_FAILURE__"

/-- The failure of the file system, as the session reports it. -/
def persistenceFailure (message : String) : CaptureError :=
  ⟨.persistence, s!"{failureMarker} {message}"⟩

/-- Write a provisional snapshot; `written` is the file system's answer. -/
def persistCollector (state : State Value) (written : Except String Unit) :
    Except Failure Unit × State Value :=
  match (if state.hasOutstanding then closeOutstanding state else .ok state) with
  | .error error => (.error (.error error), state)
  | .ok provisional =>
      match build provisional with
      | .error failure => (.error failure, state)
      | .ok _ =>
          match written with
          | .ok _ => (.ok (), state)
          | .error message =>
              (.error (.error (persistenceFailure message)), state.fail (persistenceFailure message))

/-- A snapshot after the declared inputs of an operation. -/
def inputsRecorded (state : State Value) (written : Except String Unit) :
    Except Failure Unit × State Value :=
  if state.sidecarPath.isSome then persistCollector state written else (.ok (), state)

/-- Complete an operation and consume its scope. A scope whose terminal could not be
recorded is dropped. -/
def complete (state : State Value) (index : Nat) (abandonable panicking : Bool)
    (terminal : NativeTerminal Value) (written : Except String Unit) :
    Except Failure Unit × State Value :=
  match state.operations[index]? with
  | none => (.error (.panic "native operation index must remain valid"), state)
  | some operation =>
      if operation.status.isSome then
        (.error (.panic s!"native operation '{operation.operationName}' cannot be completed twice"),
          state)
      else match recordTerminal state index terminal with
        | (.error error, state) =>
            (.error (.error error), dropScope state index abandonable panicking)
        | (.ok _, state) => inputsRecorded state written

/-- Finish the session. -/
def finish (state : State Value) (written : Except String Unit) :
    Except Failure (Capture Value) :=
  if state.hasOutstanding then
    let names := (state.outstanding.filterMap (state.operations[·]?)).map
      PendingOperation.operationName
    match closeOutstanding state with
    | .error error => .error (.error error)
    | .ok closed =>
        let joined := String.intercalate " -> " names
        let unclosed := failure
          s!"native capture has nested/unclosed operation scopes: {joined}"
        if state.sidecarPath.isSome then
          match build closed, written with
          | .error failure, _ => .error failure
          | .ok _, .error message => .error (.error (persistenceFailure message))
          | .ok _, .ok _ => .error (.error unclosed)
        else .error (.error unclosed)
  else match state.terminalError with
    | some error => .error (.error error)
    | none =>
        if state.nextOp < state.config.operationIds.length then
          .error (.error (failure (s!"native capture supplied {state.config.operationIds.length} " ++
            s!"operation span IDs but consumed {state.nextOp}")))
        else match build state with
          | .error failure => .error failure
          | .ok capture =>
              if state.sidecarPath.isSome then
                match written with
                | .ok _ => .ok capture
                | .error message => .error (.error (persistenceFailure message))
              else .ok capture

end SpecGate.CaptureSession

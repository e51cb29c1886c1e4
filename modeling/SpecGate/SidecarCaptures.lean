import SpecGate.CaptureSession
import SpecGate.SidecarValues

/-!
Captures in a sidecar file. A capture is one object with its fields in a fixed order; the
reader wants every field once, of its type, and lets a field that may be absent be missing
or null. The payload of a declared error is no such field: it has a reader of its own, and
the writer leaves it out where the error has none.
-/
namespace SpecGate.SidecarCaptures

open JsonTrees SidecarValues CaptureSession SortedAssoc

/-! ### Writing -/

def integerJson (value : Int) : Json := .number (.integer value)

def statusName : Status → String
  | .unset => "unset"
  | .ok => "ok"
  | .error => "error"

def parentJson : Option SpanId → Json
  | none => .null
  | some parent => .string parent.text

def boundaryFields (boundary : SpanBoundary) : List (String × Json) :=
  [("span_id", .string boundary.spanId.text),
    ("parent_span_id", parentJson boundary.parentId),
    ("start_time_unix_nano", integerJson boundary.startNs),
    ("end_time_unix_nano", integerJson boundary.endNs),
    ("status", .string (statusName boundary.status))]

def observationFields (observation : Observation NativeValue) : List (String × Json) :=
  [("order", integerJson observation.order),
    ("time_unix_nano", integerJson observation.timeNs),
    ("name", .string observation.name),
    ("value", writeValue observation.value)]

def observationJson (observation : Observation NativeValue) : Json :=
  .object (observationFields observation)

/-- The fields that every completion starts with. -/
def stamped (kind : String) (order : Nat) (timeNs : Int) (rest : List (String × Json)) :
    List (String × Json) :=
  ("kind", .string kind) :: ("order", integerJson order) ::
    ("time_unix_nano", integerJson timeNs) :: rest

def payloadFields : Option NativeValue → List (String × Json)
  | none => []
  | some value => [("value", writeValue value)]

def completionFields : Completion NativeValue → List (String × Json)
  | .result order timeNs value => stamped "result" order timeNs [("value", writeValue value)]
  | .empty order timeNs => stamped "empty" order timeNs []
  | .error order timeNs name value =>
      stamped "error" order timeNs (("name", .string name) :: payloadFields value)
  | .fault order timeNs faultType message observer =>
      stamped "fault" order timeNs
        [("fault_type", .string faultType), ("message", .string message),
          ("observer", .string observer)]
  | .abandoned order timeNs => stamped "abandoned" order timeNs []

def optionalCompletion : Option (Completion NativeValue) → Json
  | none => .null
  | some completion => .object (completionFields completion)

def operationFields (operation : OperationSpan NativeValue) : List (String × Json) :=
  [("order", integerJson operation.order),
    ("span_id", .string operation.spanId.text),
    ("parent_span_id", .string operation.parentId.text),
    ("component_id", .string operation.componentId),
    ("operation_name", .string operation.operationName),
    ("start_time_unix_nano", integerJson operation.startNs),
    ("end_time_unix_nano", integerJson operation.endNs),
    ("status", .string (statusName operation.status)),
    ("inputs", .object (writeEntries operation.inputs)),
    ("observations", .array (operation.observations.map observationJson)),
    ("completion", optionalCompletion operation.completion)]

def operationJson (operation : OperationSpan NativeValue) : Json :=
  .object (operationFields operation)

def captureFields (capture : Capture NativeValue) : List (String × Json) :=
  [("trace_id", .string capture.traceId.text),
    ("scenario_name", .string capture.scenarioName),
    ("run", .object (boundaryFields capture.run)),
    ("scenario", .object (boundaryFields capture.scenario)),
    ("operations", .array (capture.operations.map operationJson))]

def document (capture : Capture NativeValue) : Json := .object (captureFields capture)

/-! ### Reading -/

/-- A field that has to be there, once. -/
def member (entries : List (String × Json)) (key : String) : Option Json :=
  match entries.filter fun entry => entry.1 == key with
  | [entry] => some entry.2
  | _ => none

/-- A field that may be missing or null. -/
def optionalMember (entries : List (String × Json)) (key : String) : Option (Option Json) :=
  match entries.filter fun entry => entry.1 == key with
  | [] => some none
  | [(_, .null)] => some none
  | [entry] => some (some entry.2)
  | _ => none

def readString : Json → Option String
  | .string value => some value
  | _ => none

def readHexId (length : Nat) : Json → Option (HexId length)
  | .string text => if h : validHexId text length = true then some ⟨text, h⟩ else none
  | _ => none

def readOrder (json : Json) : Option Nat := (readU64 json).map UInt64.toNat

def readTime (json : Json) : Option Int := (readI64 json).map Int64.toInt

def readStatus : Json → Option Status
  | .string "unset" => some .unset
  | .string "ok" => some .ok
  | .string "error" => some .error
  | _ => none

/-- An optional part with a reader for what is there. -/
def readOptional {α : Type} (read : Json → Option α) : Option Json → Option (Option α)
  | none => some none
  | some json => (read json).map some

def readAll {α : Type} (read : Json → Option α) : Json → Option (List α)
  | .array values => Collecting.collect read values
  | _ => none

def readBoundary : Json → Option SpanBoundary
  | .object entries => do
      let spanId ← (member entries "span_id").bind (readHexId spanHexLen)
      let parentId ← (optionalMember entries "parent_span_id").bind
        (readOptional (readHexId spanHexLen))
      let startNs ← (member entries "start_time_unix_nano").bind readTime
      let endNs ← (member entries "end_time_unix_nano").bind readTime
      let status ← (member entries "status").bind readStatus
      return ⟨spanId, parentId, startNs, endNs, status⟩
  | _ => none

section Reader

variable (nearest : Int → UInt64)

def readObservation : Json → Option (Observation NativeValue)
  | .object entries => do
      let order ← (member entries "order").bind readOrder
      let timeNs ← (member entries "time_unix_nano").bind readTime
      let name ← (member entries "name").bind readString
      let value ← (member entries "value").bind (readValue nearest)
      return ⟨order, timeNs, name, value⟩
  | _ => none

/-- The payload of a declared error: its own reader takes null, but the field is wanted. -/
def readPayload : Json → Option (Option NativeValue)
  | .null => some none
  | json => (readValue nearest json).map some

def readCompletion : Json → Option (Completion NativeValue)
  | .object entries => do
      let kind ← (member entries "kind").bind readString
      let order ← (member entries "order").bind readOrder
      let timeNs ← (member entries "time_unix_nano").bind readTime
      if kind = "result" then
        ((member entries "value").bind (readValue nearest)).map (.result order timeNs)
      else if kind = "empty" then some (.empty order timeNs)
      else if kind = "error" then
        ((member entries "name").bind readString).bind fun name =>
          ((member entries "value").bind (readPayload nearest)).map (.error order timeNs name)
      else if kind = "fault" then
        ((member entries "fault_type").bind readString).bind fun faultType =>
          ((member entries "message").bind readString).bind fun message =>
            ((member entries "observer").bind readString).map
              (.fault order timeNs faultType message)
      else if kind = "abandoned" then some (.abandoned order timeNs)
      else none
  | _ => none

def readInputs : Json → Option (List (String × NativeValue))
  | .object entries => (readEntries nearest entries).map ofList
  | _ => none

def readOperation : Json → Option (OperationSpan NativeValue)
  | .object entries => do
      let order ← (member entries "order").bind readOrder
      let spanId ← (member entries "span_id").bind (readHexId spanHexLen)
      let parentId ← (member entries "parent_span_id").bind (readHexId spanHexLen)
      let componentId ← (member entries "component_id").bind readString
      let operationName ← (member entries "operation_name").bind readString
      let startNs ← (member entries "start_time_unix_nano").bind readTime
      let endNs ← (member entries "end_time_unix_nano").bind readTime
      let status ← (member entries "status").bind readStatus
      let inputs ← (member entries "inputs").bind (readInputs nearest)
      let observations ← (member entries "observations").bind (readAll (readObservation nearest))
      let completion ← (optionalMember entries "completion").bind
        (readOptional (readCompletion nearest))
      return ⟨order, spanId, parentId, componentId, operationName, startNs, endNs, status, inputs,
        observations, completion⟩
  | _ => none

def readCapture : Json → Option (Capture NativeValue)
  | .object entries => do
      let traceId ← (member entries "trace_id").bind (readHexId 32)
      let scenarioName ← (member entries "scenario_name").bind readString
      let run ← (member entries "run").bind readBoundary
      let scenario ← (member entries "scenario").bind readBoundary
      let operations ← (member entries "operations").bind (readAll (readOperation nearest))
      return ⟨traceId, scenarioName, run, scenario, operations⟩
  | _ => none

end Reader

/-! ### What the reader accepts -/

/-- A declared error has a payload, and no number that is carried is infinite or no number. -/
def completionReadable : Completion NativeValue → Bool
  | .result _ _ value => finite value
  | .error _ _ _ value => value.any finite
  | .empty _ _ | .fault _ _ _ _ _ | .abandoned _ _ => true

def operationReadable (operation : OperationSpan NativeValue) : Bool :=
  entriesFinite operation.inputs && operation.observations.all (finite ·.value) &&
    operation.completion.all completionReadable

def readable (capture : Capture NativeValue) : Bool := capture.operations.all operationReadable

def orderInRange (order : Nat) : Prop := order < 2 ^ 64

def timeInRange (timeNs : Int) : Prop := -2 ^ 63 ≤ timeNs ∧ timeNs < 2 ^ 63

/-- The numbers fit their machine types, and sets and maps are in their order. -/
def ObservationFormed (observation : Observation NativeValue) : Prop :=
  orderInRange observation.order ∧ timeInRange observation.timeNs ∧ Ordered observation.value

def CompletionFormed : Completion NativeValue → Prop
  | .result order timeNs value => orderInRange order ∧ timeInRange timeNs ∧ Ordered value
  | .error order timeNs _ value =>
      orderInRange order ∧ timeInRange timeNs ∧ ∀ payload ∈ value, Ordered payload
  | .empty order timeNs | .fault order timeNs _ _ _ | .abandoned order timeNs =>
      orderInRange order ∧ timeInRange timeNs

def BoundaryFormed (boundary : SpanBoundary) : Prop :=
  timeInRange boundary.startNs ∧ timeInRange boundary.endNs

structure OperationFormed (operation : OperationSpan NativeValue) : Prop where
  order : orderInRange operation.order
  start : timeInRange operation.startNs
  stop : timeInRange operation.endNs
  sorted : Sorted operation.inputs
  inputs : EntriesOrdered operation.inputs
  observations : ∀ observation ∈ operation.observations, ObservationFormed observation
  completion : ∀ completion ∈ operation.completion, CompletionFormed completion

structure Formed (capture : Capture NativeValue) : Prop where
  run : BoundaryFormed capture.run
  scenario : BoundaryFormed capture.scenario
  operations : ∀ operation ∈ capture.operations, OperationFormed operation

theorem readOrder_json {order : Nat} (h : orderInRange order) :
    readOrder (integerJson order) = some order := by
  have hvalue := readU64_write (UInt64.ofNat order)
  have hnat : (UInt64.ofNat order).toNat = order := UInt64.toNat_ofNat_of_lt' h
  rw [hnat] at hvalue
  unfold readOrder integerJson
  rw [hvalue, Option.map_some, hnat]

theorem readTime_json {timeNs : Int} (h : timeInRange timeNs) :
    readTime (integerJson timeNs) = some timeNs := by
  have hvalue := readI64_write (Int64.ofInt timeNs)
  have hint : (Int64.ofInt timeNs).toInt = timeNs := Int64.toInt_ofInt_of_le h.1 h.2
  rw [hint] at hvalue
  unfold readTime integerJson
  rw [hvalue, Option.map_some, hint]

theorem readHexId_json {length : Nat} (id : HexId length) :
    readHexId length (.string id.text) = some id := dif_pos id.valid

theorem readStatus_json (status : Status) :
    readStatus (.string (statusName status)) = some status := by
  cases status <;> rfl

theorem readString_json (value : String) : readString (.string value) = some value := rfl

theorem readAll_json {α : Type} {read : Json → Option α} {write : α → Json} {accepts : α → Bool}
    {values : List α}
    (h : ∀ value ∈ values, read (write value) = if accepts value then some value else none) :
    readAll read (.array (values.map write)) =
      if values.all accepts then some values else none := by
  change Collecting.collect read (values.map write) = _
  induction values with
  | nil => rfl
  | cons value rest ih =>
    have hhead := h value List.mem_cons_self
    have htail := ih fun other hother => h other (List.mem_cons_of_mem _ hother)
    rw [List.map_cons, Collecting.collect, hhead, htail, List.all_cons]
    cases accepts value <;> cases rest.all accepts <;> rfl

/-- Names of fields that are written are distinct, so each is found where it stands. -/
theorem member_of_get {entries : List (String × Json)} {key : String} {value : Json}
    (hkeys : (entries.map Prod.fst).Nodup) (i : Nat) (h : entries[i]? = some (key, value)) :
    entries.filter (fun entry => entry.1 == key) = [(key, value)] := by
  induction entries generalizing i with
  | nil => cases h
  | cons entry rest ih =>
    rw [List.map_cons, List.nodup_cons] at hkeys
    cases i with
    | zero =>
      obtain rfl := Option.some.inj h
      have hrest : rest.filter (fun entry => entry.1 == key) = [] := by
        rw [List.filter_eq_nil_iff]
        intro other hother heq
        exact hkeys.1 (List.mem_map.mpr ⟨other, hother, eq_of_beq heq⟩)
      rw [List.filter_cons, hrest]
      exact if_pos (beq_self_eq_true key)
    | succ i =>
      have hmem : (key, value) ∈ rest := List.mem_of_getElem? h
      have hne : ¬ (entry.1 == key) = true := by
        intro heq
        exact hkeys.1 (List.mem_map.mpr ⟨_, hmem, (eq_of_beq heq).symm⟩)
      rw [List.filter_cons, ih hkeys.2 i h]
      exact if_neg hne

theorem member_read {α : Type} {entries : List (String × Json)} {key : String} {value : Json}
    {read : Json → Option α} {result : Option α} (hkeys : (entries.map Prod.fst).Nodup) (i : Nat)
    (h : entries[i]? = some (key, value)) (hread : read value = result) :
    (member entries key).bind read = result := by
  have hmember : member entries key = some value := by
    unfold member
    rw [member_of_get hkeys i h]
  rw [hmember, Option.bind_some, hread]

theorem boundaryFields_nodup (boundary : SpanBoundary) :
    ((boundaryFields boundary).map Prod.fst).Nodup := by
  change ["span_id", "parent_span_id", "start_time_unix_nano", "end_time_unix_nano",
    "status"].Nodup
  decide +kernel

theorem readBoundary_json {boundary : SpanBoundary} (h : BoundaryFormed boundary) :
    readBoundary (.object (boundaryFields boundary)) = some boundary := by
  have hkeys := boundaryFields_nodup boundary
  have hparent : (optionalMember (boundaryFields boundary) "parent_span_id").bind
      (readOptional (readHexId spanHexLen)) = some boundary.parentId := by
    unfold optionalMember
    rw [member_of_get hkeys 1 rfl]
    cases boundary.parentId with
    | none => rfl
    | some parent => exact congrArg (Option.map some) (readHexId_json parent)
  unfold readBoundary
  dsimp only
  rw [hparent, member_read hkeys 0 rfl (readHexId_json _), member_read hkeys 2 rfl (readTime_json h.1),
    member_read hkeys 3 rfl (readTime_json h.2), member_read hkeys 4 rfl (readStatus_json _)]
  rfl

section RoundTrip

variable (nearest : Int → UInt64)

theorem readObservation_json {observation : Observation NativeValue}
    (h : ObservationFormed observation) :
    readObservation nearest (observationJson observation) =
      if finite observation.value then some observation else none := by
  have hkeys : ((observationFields observation).map Prod.fst).Nodup := by
    change ["order", "time_unix_nano", "name", "value"].Nodup
    decide +kernel
  unfold readObservation observationJson
  dsimp only
  rw [member_read hkeys 0 rfl (readOrder_json h.1), member_read hkeys 1 rfl (readTime_json h.2.1),
    member_read hkeys 2 rfl (readString_json _),
    member_read hkeys 3 rfl (readValue_writeValue nearest _ h.2.2)]
  cases finite observation.value <;> rfl

/-! ### Completions -/

theorem completionFields_nodup (completion : Completion NativeValue) :
    ((completionFields completion).map Prod.fst).Nodup := by
  cases completion with
  | result =>
    change ["kind", "order", "time_unix_nano", "value"].Nodup
    decide +kernel
  | empty | abandoned =>
    change ["kind", "order", "time_unix_nano"].Nodup
    decide +kernel
  | error order timeNs name value =>
    cases value with
    | none =>
      change ["kind", "order", "time_unix_nano", "name"].Nodup
      decide +kernel
    | some payload =>
      change ["kind", "order", "time_unix_nano", "name", "value"].Nodup
      decide +kernel
  | fault =>
    change ["kind", "order", "time_unix_nano", "fault_type", "message", "observer"].Nodup
    decide +kernel

/-- The payload is wanted by the reader, and left out by the writer where there is none. -/
theorem readPayload_json {order : Nat} {timeNs : Int} {name : String}
    {value : Option NativeValue} (h : ∀ payload ∈ value, Ordered payload) :
    (member (completionFields (.error order timeNs name value)) "value").bind
        (readPayload nearest) = if value.any finite then some value else none := by
  cases value with
  | none =>
    have hmissing : (completionFields (.error order timeNs name none)).filter
        (fun entry => entry.1 == "value") = [] := by
      rw [List.filter_eq_nil_iff]
      unfold completionFields stamped payloadFields
      simp
    unfold member
    rw [hmissing]
    rfl
  | some payload =>
    have hread := readValue_writeValue nearest payload (h payload rfl)
    have hpayload : readPayload nearest (writeValue payload) =
        (readValue nearest (writeValue payload)).map some := by
      cases payload <;> rfl
    rw [member_read (completionFields_nodup _) 4 rfl hpayload, hread, Option.any_some]
    by_cases hfinite : finite payload = true
    · rw [if_pos hfinite, if_pos hfinite, Option.map_some]
    · rw [if_neg hfinite, if_neg hfinite, Option.map_none]

theorem readCompletion_json {completion : Completion NativeValue}
    (h : CompletionFormed completion) :
    readCompletion nearest (.object (completionFields completion)) =
      if completionReadable completion then some completion else none := by
  have hkeys := completionFields_nodup completion
  unfold readCompletion
  dsimp only
  cases completion with
  | result order timeNs value =>
    have hreadable : completionReadable (.result order timeNs value) = finite value := rfl
    rw [member_read hkeys 0 rfl (readString_json _), member_read hkeys 1 rfl (readOrder_json h.1),
      member_read hkeys 2 rfl (readTime_json h.2.1),
      member_read hkeys 3 rfl (readValue_writeValue nearest _ h.2.2)]
    simp only [Option.bind_eq_bind, Option.bind_some, if_true, if_false, String.reduceEq]
    rw [hreadable]
    by_cases hfinite : finite value = true
    · rw [if_pos hfinite, if_pos hfinite, Option.map_some]
    · rw [if_neg hfinite, if_neg hfinite, Option.map_none]
  | empty order timeNs =>
    rw [member_read hkeys 0 rfl (readString_json _), member_read hkeys 1 rfl (readOrder_json h.1),
      member_read hkeys 2 rfl (readTime_json h.2)]
    simp only [Option.bind_eq_bind, Option.bind_some, if_true, if_false, String.reduceEq]
    rfl
  | error order timeNs name value =>
    have hreadable : completionReadable (.error order timeNs name value) = value.any finite := rfl
    rw [readPayload_json nearest h.2.2, member_read hkeys 0 rfl (readString_json _),
      member_read hkeys 1 rfl (readOrder_json h.1), member_read hkeys 2 rfl (readTime_json h.2.1),
      member_read hkeys 3 rfl (readString_json _)]
    simp only [Option.bind_eq_bind, Option.bind_some, if_true, if_false, String.reduceEq]
    rw [hreadable]
    by_cases hpayload : value.any finite = true
    · rw [if_pos hpayload, if_pos hpayload, Option.map_some]
    · rw [if_neg hpayload, if_neg hpayload, Option.map_none]
  | fault order timeNs faultType message observer =>
    rw [member_read hkeys 0 rfl (readString_json _), member_read hkeys 1 rfl (readOrder_json h.1),
      member_read hkeys 2 rfl (readTime_json h.2), member_read hkeys 3 rfl (readString_json _),
      member_read hkeys 4 rfl (readString_json _), member_read hkeys 5 rfl (readString_json _)]
    simp only [Option.bind_eq_bind, Option.bind_some, Option.map_some, if_true, if_false, String.reduceEq]
    rfl
  | abandoned order timeNs =>
    rw [member_read hkeys 0 rfl (readString_json _), member_read hkeys 1 rfl (readOrder_json h.1),
      member_read hkeys 2 rfl (readTime_json h.2)]
    simp only [Option.bind_eq_bind, Option.bind_some, if_true, if_false, String.reduceEq]
    rfl

/-! ### Operations -/

theorem operationFields_nodup (operation : OperationSpan NativeValue) :
    ((operationFields operation).map Prod.fst).Nodup := by
  change ["order", "span_id", "parent_span_id", "component_id", "operation_name",
    "start_time_unix_nano", "end_time_unix_nano", "status", "inputs", "observations",
    "completion"].Nodup
  decide +kernel

/-- An operation that has no completion says so by null. -/
theorem readOptional_completion {operation : OperationSpan NativeValue}
    (h : ∀ completion ∈ operation.completion, CompletionFormed completion) :
    (optionalMember (operationFields operation) "completion").bind
        (readOptional (readCompletion nearest)) =
      if operation.completion.all completionReadable then some operation.completion
      else none := by
  unfold optionalMember
  rw [member_of_get (operationFields_nodup operation) 10 rfl]
  cases hcompletion : operation.completion with
  | none => rfl
  | some completion =>
    have hread := readCompletion_json nearest (h completion hcompletion)
    dsimp only [optionalCompletion]
    change (readCompletion nearest (.object (completionFields completion))).map some = _
    rw [hread, Option.all_some]
    by_cases hreadable : completionReadable completion = true
    · rw [if_pos hreadable, if_pos hreadable, Option.map_some]
    · rw [if_neg hreadable, if_neg hreadable, Option.map_none]

theorem readInputs_json {inputs : List (String × NativeValue)} (hsorted : Sorted inputs)
    (hordered : EntriesOrdered inputs) :
    readInputs nearest (.object (writeEntries inputs)) =
      if entriesFinite inputs then some inputs else none := by
  unfold readInputs
  dsimp only
  rw [readEntries_writeEntries nearest inputs hordered]
  cases entriesFinite inputs with
  | true => exact congrArg some (ofList_of_sorted hsorted)
  | false => rfl

theorem readOperation_json {operation : OperationSpan NativeValue}
    (h : OperationFormed operation) :
    readOperation nearest (operationJson operation) =
      if operationReadable operation then some operation else none := by
  have hkeys := operationFields_nodup operation
  have hobservations := @readAll_json _ (readObservation nearest) observationJson
    (finite ·.value) operation.observations fun observation hmem =>
      readObservation_json nearest (h.observations observation hmem)
  unfold readOperation operationJson
  dsimp only
  rw [readOptional_completion nearest h.completion,
    member_read hkeys 0 rfl (readOrder_json h.order), member_read hkeys 1 rfl (readHexId_json _),
    member_read hkeys 2 rfl (readHexId_json _), member_read hkeys 3 rfl (readString_json _),
    member_read hkeys 4 rfl (readString_json _), member_read hkeys 5 rfl (readTime_json h.start),
    member_read hkeys 6 rfl (readTime_json h.stop), member_read hkeys 7 rfl (readStatus_json _),
    member_read hkeys 8 rfl (readInputs_json nearest h.sorted h.inputs),
    member_read hkeys 9 rfl hobservations]
  unfold operationReadable
  cases entriesFinite operation.inputs with
  | false => rfl
  | true =>
    cases operation.observations.all (finite ·.value) with
    | false => rfl
    | true => cases operation.completion.all completionReadable <;> rfl

/-- A capture is read as it was written, or not at all. -/
theorem readCapture_document {capture : Capture NativeValue} (h : Formed capture) :
    readCapture nearest (document capture) = if readable capture then some capture else none := by
  have hkeys : ((captureFields capture).map Prod.fst).Nodup := by
    change ["trace_id", "scenario_name", "run", "scenario", "operations"].Nodup
    decide +kernel
  have hoperations := @readAll_json _ (readOperation nearest) operationJson operationReadable
    capture.operations fun operation hmem =>
      readOperation_json nearest (h.operations operation hmem)
  unfold readCapture document
  dsimp only
  rw [member_read hkeys 0 rfl (readHexId_json _), member_read hkeys 1 rfl (readString_json _),
    member_read hkeys 2 rfl (readBoundary_json h.run),
    member_read hkeys 3 rfl (readBoundary_json h.scenario), member_read hkeys 4 rfl hoperations]
  unfold readable
  cases capture.operations.all operationReadable <;> rfl

end RoundTrip

end SpecGate.SidecarCaptures

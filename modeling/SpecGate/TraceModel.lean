import SpecGate.Validation
import SpecGate.Values

/-!
Trace documents after the OTLP mapping: spans with their ancestry, attributes, ordered
events and status, and the protocol names that give them a role.
-/
namespace SpecGate.TraceModel

open Values SortedAssoc

abbrev Attributes := List (String × AnyValue)

structure TraceEvent where
  name : String
  attributes : Attributes
  deriving DecidableEq

inductive SpanStatus where
  | unset
  | ok
  | error
  deriving DecidableEq

structure TraceSpan where
  traceId : String
  spanId : String
  parentSpanId : String
  name : String
  startTime : Option Nat
  endTime : Option Nat
  attributes : Attributes
  events : List TraceEvent
  status : SpanStatus
  resourceAttributes : Attributes
  location : String
  deriving DecidableEq

structure TraceDocument where
  spans : List TraceSpan

/-! ### Protocol names -/

def ctscSpans : List String :=
  ["conformance.run", "conformance.scenario", "conformance.operation", "conformance.parallel"]

def ctscEvents : List String :=
  ["conformance.observation", "conformance.result", "conformance.empty", "conformance.error",
    "conformance.fault", "conformance.abandoned"]

inductive SpanRole where
  | run
  | scenario
  | operation
  | parallel
  | other
  deriving DecidableEq

def SpanRole.parse (name : String) : SpanRole :=
  if name = "conformance.run" then .run
  else if name = "conformance.scenario" then .scenario
  else if name = "conformance.operation" then .operation
  else if name = "conformance.parallel" then .parallel
  else .other

inductive EventRole where
  | observation
  | result
  | empty
  | error
  | fault
  | abandoned
  | other
  deriving DecidableEq

def EventRole.parse (name : String) : EventRole :=
  if name = "conformance.observation" then .observation
  else if name = "conformance.result" then .result
  else if name = "conformance.empty" then .empty
  else if name = "conformance.error" then .error
  else if name = "conformance.fault" then .fault
  else if name = "conformance.abandoned" then .abandoned
  else .other

def EventRole.operationOnly : EventRole → Bool
  | .observation | .result | .empty | .error | .abandoned => true
  | .fault | .other => false

theorem SpanRole.parse_run {name : String} : SpanRole.parse name = .run ↔ name = "conformance.run" := by
  unfold SpanRole.parse
  split_ifs <;> simp_all

theorem SpanRole.parse_scenario {name : String} :
    SpanRole.parse name = .scenario ↔ name = "conformance.scenario" := by
  unfold SpanRole.parse
  split_ifs <;> simp_all

theorem SpanRole.parse_operation {name : String} :
    SpanRole.parse name = .operation ↔ name = "conformance.operation" := by
  unfold SpanRole.parse
  split_ifs <;> simp_all

theorem SpanRole.parse_parallel {name : String} :
    SpanRole.parse name = .parallel ↔ name = "conformance.parallel" := by
  unfold SpanRole.parse
  split_ifs <;> simp_all

/-- Attributes of a span or event as the trace loader builds them: one entry a key, in
key order, every value decoded. -/
structure DecodedAttributes (attributes : Attributes) : Prop where
  sorted : Sorted attributes
  values : ∀ entry ∈ attributes, entry.2.Decoded

/-- A span as the trace loader builds it. -/
structure DecodedSpan (span : TraceSpan) : Prop where
  ctsc : span.name ∈ ctscSpans
  attributes : DecodedAttributes span.attributes
  events : ∀ event ∈ span.events, DecodedAttributes event.attributes

theorem DecodedAttributes.lookup {attributes : Attributes} (h : DecodedAttributes attributes)
    {key : String} {value : AnyValue} (hvalue : lookup attributes key = some value) :
    value.Decoded :=
  h.values _ (mem_of_lookup hvalue)

end SpecGate.TraceModel

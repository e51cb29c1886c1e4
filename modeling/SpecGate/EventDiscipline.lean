import SpecGate.TraceLoading

/-!
The event lists of operations. An operation keeps the discipline when well-formed observations
are followed by at most one well-formed terminal event, and its status is one that this event
allows. The one-pass check with its counts and flags reports nothing exactly then. When the
events took place is written in the trace, but is no part of the check.
-/
namespace SpecGate.EventDiscipline

open JsonTrees TraceFields TraceLoading
open Values Validation TraceModel TraceValidation SortedAssoc

/-! ### Well-formed events -/

/-- Of the attributes in the namespace of the protocol only the given ones occur. -/
def OnlyDeclared (attributes : Attributes) (allowed : List String) : Prop :=
  ∀ key ∈ keys attributes, ctscNamespace.isPrefixOf key.toList = true → key ∈ allowed

def HasText (attributes : Attributes) (key text : String) : Prop :=
  lookup attributes key = some (.string text)

def HasValue (attributes : Attributes) (key : String) : Prop :=
  ∃ value, lookup attributes key = some value

structure WellFormedObservation (event : TraceEvent) : Prop where
  declared : OnlyDeclared event.attributes obsAttrs
  name : ∃ name, HasText event.attributes "conformance.observation.name" name
  value : HasValue event.attributes "conformance.observation.value"

def faultTexts : List String :=
  ["conformance.fault.message", "conformance.fault.native_type", "conformance.fault.phase",
    "conformance.fault.operation.name", "conformance.fault.operation.component_id",
    "conformance.fault.signal"]

def faultNumbers : List String := ["conformance.fault.exit_code", "conformance.fault.timeout_ms"]

/-- A fault of an operation; a supervisor reports its faults elsewhere. -/
structure WellFormedFault (event : TraceEvent) : Prop where
  declared : OnlyDeclared event.attributes faultAttrs
  observed : ∃ faultType observer, HasText event.attributes "conformance.fault.type" faultType ∧
    HasText event.attributes "conformance.fault.observer" observer ∧ observer ≠ "supervisor" ∧
      (faultType = "incomplete_capture" → observer = "target")
  texts : ∀ key ∈ faultTexts, ∀ value, lookup event.attributes key = some value →
    ∃ text, value = .string text
  numbers : ∀ key ∈ faultNumbers, ∀ value, lookup event.attributes key = some value →
    ∃ number, value = .int number

def WellFormedTerminal (event : TraceEvent) : Prop :=
  match EventRole.parse event.name with
  | .result =>
      OnlyDeclared event.attributes resultAttrs ∧ HasValue event.attributes "conformance.result.value"
  | .empty | .abandoned => OnlyDeclared event.attributes []
  | .error =>
      OnlyDeclared event.attributes errorAttrs ∧
        ∃ name, HasText event.attributes "conformance.error.name" name
  | .fault => WellFormedFault event
  | .observation | .other => False

/-- The statuses that a terminal event allows. -/
def Allows (event : TraceEvent) (status : SpanStatus) : Prop :=
  match EventRole.parse event.name with
  | .error | .fault => status = .error
  | .abandoned => status = .unset
  | .result | .empty | .observation | .other => True

/-- Observations, then at most one terminal event with its status. -/
inductive Disciplined (status : SpanStatus) : List TraceEvent → Prop
  | ended (hstatus : status = .ok) : Disciplined status []
  | terminal {event : TraceEvent} (hshape : WellFormedTerminal event)
      (hstatus : Allows event status) : Disciplined status [event]
  | observed {event : TraceEvent} {rest : List TraceEvent}
      (hname : event.name = "conformance.observation") (hshape : WellFormedObservation event)
      (hrest : Disciplined status rest) : Disciplined status (event :: rest)

/-! ### The checks of one event -/

theorem rejectAttrs_eq_nil {attributes : Attributes} {allowed : List String} {location : String} :
    rejectAttrs attributes allowed location = [] ↔ OnlyDeclared attributes allowed := by
  rw [rejectAttrs, List.flatMap_eq_nil_iff]
  constructor
  · intro h key hkey hnamespace
    by_contra hallowed
    have hclear := h key (List.mem_filter.mpr ⟨hkey, hnamespace⟩)
    rw [if_neg hallowed] at hclear
    exact issue_ne_nil _ _ hclear
  · intro h key hkey
    obtain ⟨hkey, hnamespace⟩ := List.mem_filter.mp hkey
    exact if_pos (h key hkey hnamespace)

theorem contains_iff_hasValue {attributes : Attributes} {key : String} :
    SortedAssoc.contains attributes key = true ↔ HasValue attributes key :=
  contains_iff.trans exists_lookup_iff.symm

theorem checkAttr_string {attributes : Attributes} {key location : String} :
    checkAttr attributes key .string location = [] ↔
      ∀ value, lookup attributes key = some value → ∃ text, value = .string text := by
  unfold checkAttr
  cases lookup attributes key with
  | none => simp
  | some value => cases value <;> simp [AttributeType.accepts]

theorem checkAttr_int {attributes : Attributes} {key location : String} :
    checkAttr attributes key .int location = [] ↔
      ∀ value, lookup attributes key = some value → ∃ number, value = .int number := by
  unfold checkAttr
  cases lookup attributes key with
  | none => simp
  | some value => cases value <;> simp [AttributeType.accepts]

theorem requireStr_some {attributes : Attributes} {key location text : String}
    (h : HasText attributes key text) :
    requireStr attributes key location = (some text, []) := by
  rw [requireStr, h]

/-- A fault on an operation. -/
theorem validateFault_eq_nil {event : TraceEvent} {location : String} :
    validateFault .operation event location = [] ↔ WellFormedFault event := by
  constructor
  · intro h
    simp only [validateFault, List.append_eq_nil_iff, rejectAttrs_eq_nil, requireStr_eq_nil,
      List.flatMap_eq_nil_iff, checkAttr_string, checkAttr_int] at h
    obtain ⟨⟨⟨⟨⟨⟨⟨hdeclared, -⟩, faultType, htype⟩, observer, hobserver⟩, hcapture⟩, hfit⟩, htexts⟩,
      hnumbers⟩ := h
    rw [requireStr_some hobserver, requireStr_some htype] at hfit hcapture
    refine ⟨hdeclared, ⟨faultType, observer, htype, hobserver, ?_, ?_⟩, htexts, hnumbers⟩
    · intro hsupervisor
      rw [hsupervisor] at hfit
      simp [FaultObserver.parse] at hfit
    · intro hincomplete
      simpa [hincomplete] using hcapture
  · intro h
    obtain ⟨faultType, observer, htype, hobserver, hsupervisor, hcapture⟩ := h.observed
    simp only [validateFault, List.append_eq_nil_iff, rejectAttrs_eq_nil, requireStr_eq_nil,
      List.flatMap_eq_nil_iff, checkAttr_string, checkAttr_int]
    rw [requireStr_some hobserver, requireStr_some htype]
    refine ⟨⟨⟨⟨⟨⟨⟨h.declared, by simp⟩, faultType, htype⟩, observer, hobserver⟩, ?_⟩, ?_⟩, h.texts⟩,
      h.numbers⟩
    · by_cases hincomplete : faultType = "incomplete_capture"
      · simp [hcapture hincomplete]
      · simp [hincomplete]
    · by_cases htarget : observer = "target"
      · simp [FaultObserver.parse, htarget]
      · simp [FaultObserver.parse, htarget, hsupervisor]

theorem validateEvent_observation {event : TraceEvent} {location : String}
    (hrole : EventRole.parse event.name = .observation) :
    validateEvent .operation event location = [] ↔ WellFormedObservation event := by
  simp only [validateEvent, hrole, List.append_eq_nil_iff, rejectAttrs_eq_nil, requireStr_eq_nil,
    requireAt_eq_nil, contains_iff_hasValue]
  constructor
  · rintro ⟨⟨hdeclared, hname⟩, hvalue⟩
    exact ⟨hdeclared, hname, hvalue⟩
  · intro h
    exact ⟨⟨h.declared, h.name⟩, h.value⟩

theorem validateEvent_terminal {event : TraceEvent} {location : String}
    (hrole : isTerminal event = true) :
    validateEvent .operation event location = [] ↔ WellFormedTerminal event := by
  unfold isTerminal at hrole
  unfold validateEvent WellFormedTerminal
  cases hparse : EventRole.parse event.name with
  | observation => simp [hparse] at hrole
  | other => simp [hparse] at hrole
  | result =>
    simp only [List.append_eq_nil_iff, rejectAttrs_eq_nil, requireAt_eq_nil, contains_iff_hasValue]
  | empty => exact rejectAttrs_eq_nil
  | abandoned => exact rejectAttrs_eq_nil
  | error =>
    simp only [List.append_eq_nil_iff, rejectAttrs_eq_nil, requireStr_eq_nil]
    rfl
  | fault => exact validateFault_eq_nil

/-! ### The pass over the events -/

theorem parse_observation {name : String} :
    EventRole.parse name = .observation ↔ name = "conformance.observation" := by
  unfold EventRole.parse
  split_ifs <;> simp_all

theorem parse_known {name : String} (h : name ∈ ctscEvents) : EventRole.parse name ≠ .other := by
  unfold EventRole.parse
  unfold ctscEvents at h
  split_ifs <;> simp_all

theorem parse_unknown {name : String} (h : name ∉ ctscEvents) : EventRole.parse name = .other := by
  unfold EventRole.parse
  unfold ctscEvents at h
  split_ifs <;> simp_all

/-- After a terminal event nothing may follow. -/
theorem validateEventsFrom_terminated {location : String} {index : Nat} {tally : EventTally}
    (hterminated : tally.terminated = true) {events : List TraceEvent} :
    (validateEventsFrom .operation location index tally events).2 = [] ↔ events = [] := by
  cases events with
  | nil => simp [validateEventsFrom]
  | cons event rest =>
    refine iff_of_false (fun h => ?_) (List.cons_ne_nil event rest)
    rw [validateEventsFrom] at h
    have hlate : requireAt (!(decide (SpanRole.operation = .operation) && tally.terminated))
        s!"{location}.events[{index}]"
        "operation events must not appear after the terminal event" = [] := by
      by_cases hname : event.name ∈ ctscEvents
      · rw [if_neg (not_not.mpr hname)] at h
        simp only [List.append_eq_nil_iff] at h
        exact h.1.1.1
      · rw [if_pos hname] at h
        simp only [List.append_eq_nil_iff] at h
        exact h.1.1
    rw [requireAt_eq_nil, hterminated] at hlate
    exact absurd hlate (by decide)

/-- One event before the terminal one. -/
theorem validateEventsFrom_cons {location : String} {index : Nat} {tally : EventTally}
    (hopen : tally.terminated = false) {event : TraceEvent} {rest : List TraceEvent} :
    (validateEventsFrom .operation location index tally (event :: rest)).2 = [] ↔
      event.name ∈ ctscEvents ∧
        validateEvent .operation event s!"{location}.events[{index}]" = [] ∧
          (validateEventsFrom .operation location (index + 1)
            (tally.add .operation (EventRole.parse event.name)) rest).2 = [] := by
  have hlate : ∀ owner place message,
      requireAt (!(owner && tally.terminated)) place message = [] := by
    intro owner place message
    rw [requireAt_eq_nil, hopen, Bool.and_false]
    rfl
  rw [validateEventsFrom]
  by_cases hname : event.name ∈ ctscEvents
  · rw [if_neg (not_not.mpr hname)]
    simp only [hlate, List.append_eq_nil_iff, hname, true_and, and_assoc]
    have howner : (if (EventRole.parse event.name).operationOnly = true then
        requireAt (decide True) s!"{location}.events[{index}]"
          s!"{event.name} must belong to a conformance.operation span" else []) = [] := by
      split
      · exact requireAt_eq_nil.mpr rfl
      · rfl
    exact ⟨fun h => h.2, fun h => ⟨howner, h⟩⟩
  · rw [if_pos hname]
    refine iff_of_false (fun h => ?_) (fun h => hname h.1)
    simp only [List.append_eq_nil_iff] at h
    exact issue_ne_nil _ _ h.1.2

theorem add_observation {tally : EventTally} :
    tally.add .operation .observation = tally := rfl

theorem add_terminal {tally : EventTally} {event : TraceEvent} (h : isTerminal event = true) :
    (tally.add .operation (EventRole.parse event.name)).terminated = true := by
  unfold isTerminal at h
  cases hrole : EventRole.parse event.name
  all_goals
    first
    | rfl
    | simp [hrole] at h

theorem allows_open {event : TraceEvent} {status : SpanStatus}
    (h : EventRole.parse event.name = .observation) : Allows event status := by
  unfold Allows
  rw [h]
  trivial

theorem not_terminal_of_observation {event : TraceEvent}
    (h : EventRole.parse event.name = .observation) : ¬WellFormedTerminal event := by
  unfold WellFormedTerminal
  rw [h]
  exact id

/-- The discipline, read off one pass: the induction is on the events, as long as no terminal
event has been seen. -/
theorem disciplined_iff {status : SpanStatus} {location : String} {index : Nat}
    {tally : EventTally} (hopen : tally.terminated = false) {events : List TraceEvent} :
    Disciplined status events ↔
      (validateEventsFrom .operation location index tally events).2 = [] ∧
        (∀ event ∈ events, Allows event status) ∧
          (events.any isTerminal = false → status = .ok) := by
  induction events generalizing index with
  | nil =>
    constructor
    · intro h
      cases h with
      | ended hstatus => exact ⟨rfl, fun _ hmem => (List.not_mem_nil hmem).elim, fun _ => hstatus⟩
    · intro h
      exact .ended (h.2.2 rfl)
  | cons event rest ih =>
    rw [validateEventsFrom_cons hopen, List.forall_mem_cons, List.any_cons]
    by_cases hobservation : EventRole.parse event.name = .observation
    · have hname := parse_observation.mp hobservation
      have hknown : event.name ∈ ctscEvents := by
        rw [hname]
        decide
      have hopenEvent : isTerminal event = false := by
        unfold isTerminal
        rw [hobservation]
      rw [validateEvent_observation hobservation, hobservation, add_observation, hopenEvent,
        Bool.false_or]
      constructor
      · intro h
        cases h with
        | terminal hshape hstatus => exact absurd hshape (not_terminal_of_observation hobservation)
        | observed hname hshape hrest =>
          obtain ⟨hissues, hallows, hstatus⟩ := ih.mp hrest
          exact ⟨⟨hknown, hshape, hissues⟩, ⟨allows_open hobservation, hallows⟩, hstatus⟩
      · intro ⟨⟨_, hshape, hissues⟩, ⟨_, hallows⟩, hstatus⟩
        exact .observed hname hshape (ih.mpr ⟨hissues, hallows, hstatus⟩)
    · by_cases hterminal : isTerminal event = true
      · have hknown : event.name ∈ ctscEvents := by
          by_contra hunknown
          unfold isTerminal at hterminal
          rw [parse_unknown hunknown] at hterminal
          cases hterminal
        rw [validateEvent_terminal hterminal,
          validateEventsFrom_terminated (add_terminal hterminal), hterminal, Bool.true_or]
        constructor
        · intro h
          cases h with
          | terminal hshape hstatus =>
            exact ⟨⟨hknown, hshape, rfl⟩, ⟨hstatus, fun _ hmem => (List.not_mem_nil hmem).elim⟩,
              fun hfalse => by cases hfalse⟩
          | observed hname hshape hrest => exact absurd (parse_observation.mpr hname) hobservation
        · intro ⟨⟨_, hshape, hrest⟩, ⟨hstatus, _⟩, _⟩
          rw [hrest]
          exact .terminal hshape hstatus
      · have hother : EventRole.parse event.name = .other := by
          unfold isTerminal at hterminal
          cases hrole : EventRole.parse event.name
          all_goals
            first
            | rfl
            | exact absurd hrole hobservation
            | exact absurd (by rw [hrole]) hterminal
        refine iff_of_false (fun h => ?_) fun h => parse_known h.1.1 hother
        cases h with
        | terminal hshape hstatus =>
          unfold WellFormedTerminal at hshape
          rw [hother] at hshape
          exact hshape
        | observed hname hshape hrest => exact hobservation (parse_observation.mpr hname)

/-! ### The checks after the pass -/

theorem Disciplined.single {status : SpanStatus} {events : List TraceEvent}
    (h : Disciplined status events) : events.countP isTerminal ≤ 1 := by
  induction h with
  | ended hstatus => exact Nat.zero_le 1
  | terminal hshape hstatus =>
    rw [List.countP_cons]
    split <;> simp
  | @observed event rest hname hshape hrest ih =>
    have hopen : isTerminal event = false := by
      unfold isTerminal
      rw [parse_observation.mpr hname]
    rw [List.countP_cons_of_neg (by simp [hopen])]
    exact ih

theorem validateEventsFrom_any {location : String} {index : Nat} {tally : EventTally}
    {events : List TraceEvent} (hknown : ∀ event ∈ events, event.name ∈ ctscEvents) :
    (validateEventsFrom .operation location index tally events).1.terminated =
      (tally.terminated || events.any isTerminal) := by
  induction events generalizing index tally with
  | nil => simp [validateEventsFrom]
  | cons event rest ih =>
    have hname := hknown event List.mem_cons_self
    rw [validateEventsFrom, if_neg (not_not.mpr hname)]
    dsimp only
    rw [ih fun other hother => hknown other (List.mem_cons_of_mem _ hother), List.any_cons]
    cases hrole : EventRole.parse event.name
    all_goals simp [EventTally.add, isTerminal, hrole]

/-- The status checks allow the status for every event. -/
theorem allows_iff {span : TraceSpan} :
    ((hasEvent span [.error, .fault] = true → span.status = .error) ∧
        (hasEvent span [.abandoned] = true → span.status = .unset)) ↔
      ∀ event ∈ span.events, Allows event span.status := by
  have hhas : ∀ roles, hasEvent span roles = true ↔
      ∃ event ∈ span.events, EventRole.parse event.name ∈ roles := by
    intro roles
    rw [hasEvent, List.any_eq_true]
    simp only [decide_eq_true_eq]
  rw [hhas, hhas]
  constructor
  · intro ⟨herror, habandoned⟩ event hmem
    unfold Allows
    cases hrole : EventRole.parse event.name with
    | error => exact herror ⟨event, hmem, by simp [hrole]⟩
    | fault => exact herror ⟨event, hmem, by simp [hrole]⟩
    | abandoned => exact habandoned ⟨event, hmem, by simp [hrole]⟩
    | _ => trivial
  · intro h
    constructor
    · intro ⟨event, hmem, hrole⟩
      have hallows := h event hmem
      unfold Allows at hallows
      rcases List.mem_cons.mp hrole with hrole | hrole
      · rwa [hrole] at hallows
      · rwa [List.mem_singleton.mp hrole] at hallows
    · intro ⟨event, hmem, hrole⟩
      have hallows := h event hmem
      unfold Allows at hallows
      rwa [List.mem_singleton.mp hrole] at hallows

/-- The check of an operation reports nothing exactly when its events keep the discipline. -/
theorem validateEvents_operation {span : TraceSpan} (hname : span.name = "conformance.operation") :
    validateEvents span = [] ↔ Disciplined span.status span.events := by
  have hrole := SpanRole.parse_operation.mpr hname
  have hopen : (⟨0, 0, false⟩ : EventTally).terminated = false := rfl
  have hscope : ((SpanRole.operation = .run || SpanRole.operation = .scenario) &&
      span.events.any fun event => event.name == "conformance.fault") = false := rfl
  rw [disciplined_iff hopen, ← allows_iff]
  simp only [validateEvents, hrole, if_true, hscope, if_neg Bool.false_ne_true,
    List.append_eq_nil_iff, requireAt_eq_nil, decide_eq_true_eq, Bool.or_eq_true, and_true]
  have hguard : ∀ {condition : Bool} {issues : List ValidationIssue},
      (if condition = true then issues else []) = [] ↔ (condition = true → issues = []) := by
    intro condition issues
    cases condition <;> simp
  simp only [hguard, requireAt_eq_nil, decide_eq_true_eq]
  constructor
  · intro ⟨hissues, ⟨⟨_, herror⟩, habandoned⟩, hended⟩
    have hknown := fun event hmem => (validateEventsFrom_shape hissues event hmem).1
    rw [validateEventsFrom_any hknown] at hended
    refine ⟨hissues, ⟨herror, habandoned⟩, fun hnone => ?_⟩
    rw [hnone] at hended
    exact hended.resolve_left (by decide)
  · intro ⟨hissues, ⟨herror, habandoned⟩, hended⟩
    have hknown := fun event hmem => (validateEventsFrom_shape hissues event hmem).1
    have hsingle : span.events.countP isTerminal ≤ 1 :=
      ((disciplined_iff hopen).mpr ⟨hissues, allows_iff.mp ⟨herror, habandoned⟩, hended⟩).single
    rw [countP_terminal] at hsingle
    have hcounts := @validateEventsFrom_counts span.location 0 ⟨0, 0, false⟩ span.events hknown
    rw [hcounts.1, hcounts.2, validateEventsFrom_any hknown]
    refine ⟨hissues, ⟨⟨⟨⟨?_, ?_⟩, ?_⟩, herror⟩, habandoned⟩, ?_⟩
    · dsimp only
      omega
    · dsimp only
      omega
    · dsimp only
      omega
    · by_cases hany : span.events.any isTerminal = true
      · exact .inl (by rw [hany]; rfl)
      · exact .inr (hended (Bool.eq_false_iff.mpr hany))

/-- An operation that failed after one observation. -/
def failedSpan : TraceSpan where
  traceId := "00000000000000000000000000000001"
  spanId := "0000000000000003"
  parentSpanId := "0000000000000002"
  name := "conformance.operation"
  startTime := some 10
  endTime := some 20
  attributes := []
  events := [⟨"conformance.observation", [("conformance.observation.name", .string "seen"),
    ("conformance.observation.value", .bool true)]⟩,
    ⟨"conformance.error", [("conformance.error.name", .string "Failure")]⟩]
  status := .error
  resourceAttributes := []
  location := "trace.json:$"

theorem validateEvents_failed : validateEvents failedSpan = [] ↔
    Disciplined failedSpan.status failedSpan.events := validateEvents_operation rfl

/-! ### Times -/

/-- When the events of a span took place; an event without a time has the time zero. -/
def eventTimes (readers : NumberReaders) (raw : List (String × Json)) : List Int :=
  (arrayField raw "events" "" "").1.map fun event =>
    (((asObject event).bind fun event =>
      (jsonField event "timeUnixNano").or (Json.field event "time_unix_nano")).bind
        (parseU64 readers)).getD 0

/-- The events lie within the span and do not run back. -/
structure Timely (span : TraceSpan) (times : List Int) : Prop where
  ordered : times.Pairwise (· ≤ ·)
  within : ∃ start finish, interval span = some (start, finish) ∧
    ∀ time ∈ times, (start : Int) ≤ time ∧ time ≤ finish

def plainReaders : NumberReaders where
  parseF64 := fun _ => none
  decodeBase64 := fun _ => none
  floatText := fun _ => ""
  nearest := fun _ => ⟨0, by decide, by decide⟩

/-- An operation with an observation after its end. -/
def lateObservation : List (String × Json) :=
  [("traceId", .string "00000000000000000000000000000001"), ("spanId", .string "0000000000000003"),
    ("parentSpanId", .string "0000000000000002"), ("name", .string "conformance.operation"),
    ("startTimeUnixNano", .string "10"), ("endTimeUnixNano", .string "20"),
    ("events", .array [.object [("timeUnixNano", .string "99"),
      ("name", .string "conformance.observation"),
      ("attributes", .array [
        .object [("key", .string "conformance.observation.name"),
          ("value", .object [("stringValue", .string "seen")])],
        .object [("key", .string "conformance.observation.value"),
          ("value", .object [("boolValue", .bool true)])]])]]),
    ("status", .object [("code", .number (.integer 1))])]

def lateSpan : TraceSpan where
  traceId := "00000000000000000000000000000001"
  spanId := "0000000000000003"
  parentSpanId := "0000000000000002"
  name := "conformance.operation"
  startTime := some 10
  endTime := some 20
  attributes := []
  events := [⟨"conformance.observation", [("conformance.observation.name", .string "seen"),
    ("conformance.observation.value", .bool true)]⟩]
  status := .ok
  resourceAttributes := []
  location := "trace.json:$"

theorem late_span_loaded :
    parseSpan plainReaders lateObservation [] "trace.json" "$" = (some lateSpan, []) := by
  decide +kernel

/-- The times of the events are not checked. -/
theorem late_event_accepted :
    ¬∀ (readers : NumberReaders) (raw : List (String × Json)) (resource : Attributes)
      (path location : String) (span : TraceSpan),
      parseSpan readers raw resource path location = (some span, []) →
        span.name = "conformance.operation" →
          (validateEvents span = [] ↔
            Disciplined span.status span.events ∧ Timely span (eventTimes readers raw)) := by
  intro h
  have hclear : validateEvents lateSpan = [] := by decide +kernel
  obtain ⟨-, htimely⟩ := (h plainReaders lateObservation [] "trace.json" "$" lateSpan
    late_span_loaded rfl).mp hclear
  have htimes : eventTimes plainReaders lateObservation = [99] := by decide +kernel
  obtain ⟨start, finish, hinterval, hwithin⟩ := htimely.within
  obtain ⟨rfl, rfl⟩ := Prod.mk.inj (Option.some.inj hinterval)
  rw [htimes] at hwithin
  exact absurd (hwithin 99 List.mem_cons_self).2 (by decide)

end SpecGate.EventDiscipline

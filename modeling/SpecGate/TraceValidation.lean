import SpecGate.TraceAncestry

/-!
The semantic checks of a trace: identities, ancestry, roles of spans and their parents,
and the events of each span.
-/
namespace SpecGate.TraceValidation

open Values Validation TraceModel TraceAncestry SortedAssoc

/-! ### Attributes -/

def runAttrs : List String := ["conformance.run.id", "conformance.run.name"]

def scenarioAttrs : List String := ["conformance.scenario.name", "conformance.scenario.index"]

def opAttrs : List String :=
  ["conformance.component.id", "conformance.operation.name", "conformance.operation.inputs"]

def parallelAttrs : List String := ["conformance.parallel.name"]

def obsAttrs : List String := ["conformance.observation.name", "conformance.observation.value"]

def resultAttrs : List String := ["conformance.result.value"]

def errorAttrs : List String := ["conformance.error.name", "conformance.error.value"]

def faultAttrs : List String :=
  ["conformance.fault.type", "conformance.fault.message", "conformance.fault.native_type",
    "conformance.fault.observer", "conformance.fault.phase", "conformance.fault.operation.name",
    "conformance.fault.operation.component_id", "conformance.fault.exit_code",
    "conformance.fault.signal", "conformance.fault.timeout_ms"]

def supervisorFaults : List String :=
  ["launch_failure", "process_exit", "signal", "timeout", "deadlock", "host_loss",
    "export_failure"]

def ctscNamespace : List Char := "conformance.".toList

/-- Undeclared attributes of the protocol namespace. -/
def rejectAttrs (attributes : Attributes) (allowed : List String) (location : String) :
    List ValidationIssue :=
  ((keys attributes).filter fun key => ctscNamespace.isPrefixOf key.toList).flatMap fun key =>
    if key ∈ allowed then []
    else issue location s!"undeclared CTSC attribute '{key}' is not allowed in this scope"

inductive AttributeType where
  | string
  | int

def AttributeType.accepts : AttributeType → AnyValue → Bool
  | .string, .string _ => true
  | .int, .int _ => true
  | _, _ => false

def AttributeType.variant : AttributeType → String
  | .string => "stringValue"
  | .int => "intValue"

def checkAttr (attributes : Attributes) (key : String) (expected : AttributeType)
    (location : String) : List ValidationIssue :=
  match lookup attributes key with
  | none => []
  | some value =>
      requireAt (expected.accepts value) location s!"attribute '{key}' must use {expected.variant}"

/-- A required string attribute, and what is reported when it is not there. -/
def requireStr (attributes : Attributes) (key location : String) :
    Option String × List ValidationIssue :=
  match lookup attributes key with
  | some (.string value) => (some value, [])
  | some _ => (none, issue location s!"attribute '{key}' must use stringValue")
  | none => (none, issue location s!"missing string attribute '{key}'")

/-! ### Names and identifiers -/

def traceIdLen : Nat := 32

def spanIdLen : Nat := 16

def isHexId (value : String) (length : Nat) : Bool :=
  value.toList.length == length && value.toList.any (· != '0') && value.toList.all isHexDigit

def isLower (c : Char) : Bool := 'a' ≤ c && c ≤ 'z'

def isDigit (c : Char) : Bool := '0' ≤ c && c ≤ '9'

/-- The segments of a name, split at every dot. -/
def segments : List Char → List (List Char)
  | [] => [[]]
  | c :: rest =>
      if c = '.' then [] :: segments rest
      else match segments rest with
        | [] => [[c]]
        | first :: others => (c :: first) :: others

def validFirst (first : List Char) : Bool :=
  first != "conformance".toList &&
    match first with
    | [] => true
    | c :: rest => isLower c && rest.all fun c => isLower c || isDigit c

def validSegment (segment : List Char) : Bool :=
  segment != [] && segment.all fun c => isLower c || isDigit c || c == '_' || c == '-'

/-- The grammar of extension fault names. -/
def isFault (value : String) : Bool :=
  match segments value.toList with
  | [] => false
  | first :: remaining =>
      first != [] && validFirst first && (remaining != [] && remaining.all validSegment)

/-! ### Events -/

/-- Counts and flags of one pass over the events of a span. -/
structure EventTally where
  results : Nat
  failures : Nat
  terminated : Bool

inductive FaultObserver where
  | target
  | supervisor
  | other
  deriving DecidableEq

def FaultObserver.parse (value : Option String) : FaultObserver :=
  if value = some "target" then .target
  else if value = some "supervisor" then .supervisor
  else .other

def validateFault (spanRole : SpanRole) (event : TraceEvent) (location : String) :
    List ValidationIssue :=
  let faultType := requireStr event.attributes "conformance.fault.type" location
  let observer := requireStr event.attributes "conformance.fault.observer" location
  rejectAttrs event.attributes faultAttrs location ++
  requireAt (spanRole = .run || spanRole = .scenario || spanRole = .operation) location
    "fault must belong to a run, scenario, or operation span" ++
  faultType.2 ++ observer.2 ++
  requireAt (faultType.1 != some "incomplete_capture" || observer.1 == some "target") location
    "incomplete_capture fault must be observed by the target" ++
  (match FaultObserver.parse observer.1 with
    | .target =>
        requireAt (spanRole = .operation) location "target fault must belong to an operation span"
    | .supervisor =>
        requireAt (spanRole = .run || spanRole = .scenario) location
          "supervisor fault must belong to a run or scenario span" ++
        (match faultType.1 with
          | none => []
          | some faultType =>
              requireAt (faultType ∈ supervisorFaults || isFault faultType) location
                ("supervisor fault type must be a defined core type or a producer-qualified " ++
                  "dotted namespace"))
    | .other => []) ++
  (["conformance.fault.message", "conformance.fault.native_type", "conformance.fault.phase",
      "conformance.fault.operation.name", "conformance.fault.operation.component_id",
      "conformance.fault.signal"].flatMap fun key =>
        checkAttr event.attributes key .string location) ++
  (["conformance.fault.exit_code", "conformance.fault.timeout_ms"].flatMap fun key =>
    checkAttr event.attributes key .int location)

/-- The checks on the attributes of one event with a known name. -/
def validateEvent (spanRole : SpanRole) (event : TraceEvent) (location : String) :
    List ValidationIssue :=
  match EventRole.parse event.name with
  | .observation =>
      rejectAttrs event.attributes obsAttrs location ++
      (requireStr event.attributes "conformance.observation.name" location).2 ++
      requireAt (SortedAssoc.contains event.attributes "conformance.observation.value") location
        "missing conformance.observation.value"
  | .result =>
      rejectAttrs event.attributes resultAttrs location ++
      requireAt (SortedAssoc.contains event.attributes "conformance.result.value") location
        "missing conformance.result.value"
  | .empty => rejectAttrs event.attributes [] location
  | .error =>
      rejectAttrs event.attributes errorAttrs location ++
      (requireStr event.attributes "conformance.error.name" location).2
  | .fault => validateFault spanRole event location
  | .abandoned => rejectAttrs event.attributes [] location
  | .other => []

/-- What one event adds to the counts and flags. -/
def EventTally.add (tally : EventTally) (spanRole : SpanRole) (role : EventRole) : EventTally :=
  match role with
  | .result => { tally with results := tally.results + 1, terminated := true }
  | .empty | .error | .abandoned =>
      { tally with failures := tally.failures + 1, terminated := true }
  | .fault =>
      if spanRole = .operation then
        { tally with failures := tally.failures + 1, terminated := true }
      else tally
  | .observation | .other => tally

/-- One pass over the events from a position on. -/
def validateEventsFrom (spanRole : SpanRole) (location : String) (index : Nat)
    (tally : EventTally) : List TraceEvent → EventTally × List ValidationIssue
  | [] => (tally, [])
  | event :: rest =>
      let place := s!"{location}.events[{index}]"
      let late := requireAt (!(spanRole = .operation && tally.terminated)) place
        "operation events must not appear after the terminal event"
      if event.name ∉ ctscEvents then
        let tail := validateEventsFrom spanRole location (index + 1) tally rest
        (tail.1, late ++ issue place s!"unsupported CTSC event name '{event.name}'" ++ tail.2)
      else
        let role := EventRole.parse event.name
        let owner :=
          if role.operationOnly then
            requireAt (spanRole = .operation) place
              s!"{event.name} must belong to a conformance.operation span"
          else []
        let tail :=
          validateEventsFrom spanRole location (index + 1) (tally.add spanRole role) rest
        (tail.1, late ++ owner ++ validateEvent spanRole event place ++ tail.2)

def hasEvent (span : TraceSpan) (roles : List EventRole) : Bool :=
  span.events.any fun event => decide (EventRole.parse event.name ∈ roles)

def validateEvents (span : TraceSpan) : List ValidationIssue :=
  let spanRole := SpanRole.parse span.name
  let (tally, issues) := validateEventsFrom spanRole span.location 0 ⟨0, 0, false⟩ span.events
  issues ++
  (if spanRole = .operation then
    requireAt (tally.failures ≤ 1) span.location
      "operation must not contain multiple non-result completion/failure events" ++
    requireAt (tally.results = 0 || tally.failures = 0) span.location
      "result events cannot be combined with another completion/failure event" ++
    requireAt (tally.results ≤ 1) span.location
      "operation may contain at most one result event" ++
    (if hasEvent span [.error, .fault] then
      requireAt (span.status = .error) span.location
        "declared error and fault operations must have ERROR status"
    else []) ++
    (if hasEvent span [.abandoned] then
      requireAt (span.status = .unset) span.location
        "abandoned operations must have UNSET status"
    else []) ++
    requireAt (tally.terminated || span.status = .ok) span.location
      "operation without a completion or failure event must have OK status"
  else []) ++
  (if (spanRole = .run || spanRole = .scenario) &&
      span.events.any fun event => event.name == "conformance.fault" then
    requireAt (span.status = .error) span.location
      "fault-bearing run or scenario must have ERROR status"
  else [])

/-! ### Spans -/

/-- Identifier shape, and a second span of one identity, in document order. -/
def identityIssues (seen : List (String × String)) : List TraceSpan → List ValidationIssue
  | [] => []
  | span :: rest =>
      requireAt (isHexId span.traceId traceIdLen) span.location
        "traceId must be 32 lowercase hexadecimal characters and nonzero" ++
      requireAt (isHexId span.spanId spanIdLen) span.location
        "spanId must be 16 lowercase hexadecimal characters and nonzero" ++
      (if spanKey span ∈ seen then issue span.location "duplicate span ID within trace" else []) ++
      identityIssues (spanKey span :: seen) rest

/-- The only span of the parent identity. -/
def parentOf (spans : List TraceSpan) (span : TraceSpan) : Option TraceSpan :=
  match candidates spans span.traceId span.parentSpanId with
  | [parent] => some parent
  | _ => none

def interval (span : TraceSpan) : Option (Nat × Nat) :=
  match span.startTime, span.endTime with
  | some start, some finish => some (start, finish)
  | _, _ => none

/-- The checks on the role, the parent and the attributes of a span. -/
def validateRole (span : TraceSpan) (parentRole : SpanRole) : List ValidationIssue :=
  match SpanRole.parse span.name with
  | .run =>
      rejectAttrs span.attributes runAttrs span.location ++
      requireAt (span.parentSpanId = "") span.location "run span must be a root span" ++
      (requireStr span.attributes "conformance.run.id" span.location).2 ++
      checkAttr span.attributes "conformance.run.name" .string span.location
  | .scenario =>
      rejectAttrs span.attributes scenarioAttrs span.location ++
      requireAt (parentRole = .run) span.location
        "scenario parent must be a conformance.run span" ++
      (requireStr span.attributes "conformance.scenario.name" span.location).2 ++
      checkAttr span.attributes "conformance.scenario.index" .int span.location
  | .operation =>
      rejectAttrs span.attributes opAttrs span.location ++
      requireAt (parentRole = .scenario || parentRole = .operation || parentRole = .parallel)
        span.location "operation parent must be scenario, operation, or parallel" ++
      (requireStr span.attributes "conformance.component.id" span.location).2 ++
      (requireStr span.attributes "conformance.operation.name" span.location).2 ++
      requireAt ((lookup span.attributes "conformance.operation.inputs").bind
        AnyValue.asKvList).isSome span.location "operation inputs must use kvlistValue"
  | .parallel =>
      rejectAttrs span.attributes parallelAttrs span.location ++
      requireAt (parentRole = .scenario || parentRole = .operation) span.location
        "parallel parent must be scenario or operation" ++
      checkAttr span.attributes "conformance.parallel.name" .string span.location
  | .other => []

/-- A parallel parent covers the interval of its branch. -/
def encloses (parent span : TraceSpan) : Bool :=
  match interval parent, interval span with
  | some (parentStart, parentEnd), some (childStart, childEnd) =>
      parentStart ≤ childStart && childEnd ≤ parentEnd
  | _, _ => false

def validateSpan (spans : List TraceSpan) (span : TraceSpan) : List ValidationIssue :=
  let parent := parentOf spans span
  let parentRole := (parent.map fun parent => SpanRole.parse parent.name).getD .other
  requireAt ((candidates spans span.traceId span.parentSpanId).length ≤ 1) span.location
    "parent span ID resolves to multiple CTSC spans" ++
  requireAt ((interval span).any fun (start, finish) => start ≤ finish) span.location
    "CTSC spans require start/end timestamps with end not before start" ++
  validateRole span parentRole ++
  (match parent with
    | none => []
    | some parent =>
        if SpanRole.parse parent.name = .parallel then
          requireAt (encloses parent span) span.location
            "conformance.parallel interval must enclose every direct branch"
        else []) ++
  validateEvents span

/-- `none` would mean an unfinished ancestry walk. -/
def validateSemantics (spans : List TraceSpan) : Option (List ValidationIssue) :=
  (validateAncestry spans).map fun ancestry =>
    identityIssues [] spans ++ ancestry ++ spans.flatMap (validateSpan spans)

theorem validateSemantics_isSome (spans : List TraceSpan) :
    ∃ issues, validateSemantics spans = some issues := by
  obtain ⟨issues, hissues⟩ := validateAncestry_isSome spans
  exact ⟨_, by rw [validateSemantics, hissues]; rfl⟩

/-! ### What an accepted trace has -/

section Acceptance

theorem requireStr_eq_nil {attributes : Attributes} {key location : String} :
    (requireStr attributes key location).2 = [] ↔
      ∃ text, lookup attributes key = some (.string text) := by
  unfold requireStr
  split
  · rename_i text htext
    simp [htext]
  · rename_i value hstring hvalue
    constructor
    · intro h
      exact absurd h (issue_ne_nil _ _)
    · rintro ⟨text, htext⟩
      rw [htext] at hvalue
      exact absurd (Option.some.inj hvalue).symm (hstring text)
  · rename_i hnone
    simp [hnone]

theorem identityIssues_eq_nil {spans : List TraceSpan} {seen : List (String × String)} :
    identityIssues seen spans = [] ↔
      (∀ span ∈ spans, isHexId span.traceId traceIdLen = true ∧
        isHexId span.spanId spanIdLen = true ∧ spanKey span ∉ seen) ∧ UniqueIds spans := by
  induction spans generalizing seen with
  | nil => simp [identityIssues, UniqueIds]
  | cons span rest ih =>
    have hduplicate : (if spanKey span ∈ seen then
        issue span.location "duplicate span ID within trace" else []) = [] ↔
          spanKey span ∉ seen := by
      by_cases hseen : spanKey span ∈ seen <;> simp [hseen]
    simp only [identityIssues, List.append_eq_nil_iff, requireAt_eq_nil, hduplicate, ih,
      UniqueIds, List.map_cons, List.nodup_cons, List.mem_cons, List.mem_map, not_or, not_exists,
      not_and, forall_eq_or_imp]
    constructor
    · rintro ⟨⟨⟨htrace, hid⟩, hfresh⟩, hrest, hnodup⟩
      exact ⟨⟨⟨htrace, hid, hfresh⟩, fun other hother =>
        ⟨(hrest other hother).1, (hrest other hother).2.1, (hrest other hother).2.2.2⟩⟩,
        fun other hother => (hrest other hother).2.2.1, hnodup⟩
    · rintro ⟨⟨⟨htrace, hid, hfresh⟩, hrest⟩, hdistinct, hnodup⟩
      exact ⟨⟨⟨htrace, hid⟩, hfresh⟩, fun other hother =>
        ⟨(hrest other hother).1, (hrest other hother).2.1, hdistinct other hother,
          (hrest other hother).2.2⟩, hnodup⟩

/-- The attributes that an accepted event of a role carries. -/
def EventShape (event : TraceEvent) : Prop :=
  match EventRole.parse event.name with
  | .observation =>
      (∃ name, lookup event.attributes "conformance.observation.name" = some (.string name)) ∧
        ∃ value, lookup event.attributes "conformance.observation.value" = some value
  | .result => ∃ value, lookup event.attributes "conformance.result.value" = some value
  | .error => ∃ name, lookup event.attributes "conformance.error.name" = some (.string name)
  | .fault => ∃ type, lookup event.attributes "conformance.fault.type" = some (.string type)
  | _ => True

theorem validateEvent_shape {spanRole : SpanRole} {event : TraceEvent} {location : String}
    (h : validateEvent spanRole event location = []) : EventShape event := by
  have hcontains : ∀ key, SortedAssoc.contains event.attributes key = true →
      ∃ value, lookup event.attributes key = some value :=
    fun key hkey => exists_lookup_iff.mpr (contains_iff.mp hkey)
  unfold validateEvent at h
  unfold EventShape
  cases hrole : EventRole.parse event.name with
  | empty => trivial
  | abandoned => trivial
  | other => trivial
  | observation =>
    simp only [hrole, List.append_eq_nil_iff, requireAt_eq_nil, requireStr_eq_nil] at h
    exact ⟨h.1.2, hcontains _ h.2⟩
  | result =>
    simp only [hrole, List.append_eq_nil_iff, requireAt_eq_nil] at h
    exact hcontains _ h.2
  | error =>
    simp only [hrole, List.append_eq_nil_iff, requireStr_eq_nil] at h
    exact h.2
  | fault =>
    simp only [hrole, validateFault, List.append_eq_nil_iff, requireStr_eq_nil] at h
    exact h.1.1.1.1.1.2

theorem validateEventsFrom_shape {spanRole : SpanRole} {location : String} {index : Nat}
    {tally : EventTally} {events : List TraceEvent}
    (h : (validateEventsFrom spanRole location index tally events).2 = []) :
    ∀ event ∈ events, event.name ∈ ctscEvents ∧ EventShape event := by
  induction events generalizing index tally with
  | nil => simp
  | cons event rest ih =>
    rw [validateEventsFrom] at h
    by_cases hname : event.name ∈ ctscEvents
    · rw [if_neg (not_not.mpr hname)] at h
      simp only [List.append_eq_nil_iff] at h
      intro other hother
      rcases List.mem_cons.mp hother with rfl | hother
      · exact ⟨hname, validateEvent_shape h.1.2⟩
      · exact ih h.2 other hother
    · rw [if_pos hname] at h
      simp [List.append_eq_nil_iff] at h

/-- The events that end an operation. -/
def isTerminal (event : TraceEvent) : Bool :=
  match EventRole.parse event.name with
  | .result | .empty | .error | .fault | .abandoned => true
  | .observation | .other => false

def isResult (event : TraceEvent) : Bool := decide (EventRole.parse event.name = .result)

def isFailure (event : TraceEvent) : Bool := isTerminal event && !isResult event

/-- The counts of one pass, for an operation. -/
theorem validateEventsFrom_counts {location : String} {index : Nat} {tally : EventTally}
    {events : List TraceEvent} (hnames : ∀ event ∈ events, event.name ∈ ctscEvents) :
    (validateEventsFrom .operation location index tally events).1.results =
        tally.results + events.countP isResult ∧
      (validateEventsFrom .operation location index tally events).1.failures =
        tally.failures + events.countP isFailure := by
  induction events generalizing index tally with
  | nil => simp [validateEventsFrom]
  | cons event rest ih =>
    have hname := hnames event List.mem_cons_self
    have hrest := fun other hother => hnames other (List.mem_cons_of_mem _ hother)
    rw [validateEventsFrom, if_neg (not_not.mpr hname)]
    simp only [List.countP_cons, (ih hrest).1, (ih hrest).2]
    cases hrole : EventRole.parse event.name
    all_goals
      simp [EventTally.add, isFailure, isTerminal, isResult, hrole]
      try omega

theorem countP_terminal (events : List TraceEvent) :
    events.countP isTerminal = events.countP isResult + events.countP isFailure := by
  induction events with
  | nil => rfl
  | cons event rest ih =>
    simp only [List.countP_cons, ih]
    cases hrole : EventRole.parse event.name
    all_goals
      simp [isFailure, isTerminal, isResult, hrole]
      try omega

/-- An accepted operation has at most one terminal event. -/
theorem validateEvents_terminal {span : TraceSpan} (hname : span.name = "conformance.operation")
    (h : validateEvents span = []) : span.events.countP isTerminal ≤ 1 := by
  simp only [validateEvents, SpanRole.parse_operation.mpr hname, if_true, List.append_eq_nil_iff,
    requireAt_eq_nil, decide_eq_true_eq, Bool.or_eq_true] at h
  obtain ⟨⟨hissues, ⟨⟨⟨⟨hfailures, hcombined⟩, hresults⟩, -⟩, -⟩, -⟩, -⟩ := h
  have hnames : ∀ event ∈ span.events, event.name ∈ ctscEvents :=
    fun event hevent => (validateEventsFrom_shape hissues event hevent).1
  have hsplit := countP_terminal span.events
  rw [(validateEventsFrom_counts hnames).1] at hcombined hresults
  rw [(validateEventsFrom_counts hnames).2] at hcombined hfailures
  omega

/-- A trace without a semantic issue. -/
structure ValidTrace (spans : List TraceSpan) : Prop where
  unique : UniqueIds spans
  identifier : ∀ span ∈ spans, span.spanId ≠ ""
  rooted : ∀ span ∈ spans, span.name ≠ runName → ∃ run, Rooted spans span run
  interval : ∀ span ∈ spans, ∃ start finish, interval span = some (start, finish) ∧ start ≤ finish
  run : ∀ span ∈ spans, span.name = "conformance.run" → span.parentSpanId = ""
  scenario : ∀ span ∈ spans, span.name = "conformance.scenario" →
    (∃ parent, parentOf spans span = some parent ∧ parent.name = "conformance.run") ∧
      ∃ name, lookup span.attributes "conformance.scenario.name" = some (.string name)
  operation : ∀ span ∈ spans, span.name = "conformance.operation" →
    (∃ parent, parentOf spans span = some parent ∧ (parent.name = "conformance.scenario" ∨
      parent.name = "conformance.operation" ∨ parent.name = "conformance.parallel")) ∧
    (∃ id, lookup span.attributes "conformance.component.id" = some (.string id)) ∧
    (∃ name, lookup span.attributes "conformance.operation.name" = some (.string name)) ∧
    ∃ inputs, lookup span.attributes "conformance.operation.inputs" = some (.kvList inputs)
  parallel : ∀ span ∈ spans, span.name = "conformance.parallel" →
    ∃ parent, parentOf spans span = some parent ∧
      (parent.name = "conformance.scenario" ∨ parent.name = "conformance.operation")
  event : ∀ span ∈ spans, ∀ event ∈ span.events, event.name ∈ ctscEvents ∧ EventShape event
  terminal : ∀ span ∈ spans, span.name = "conformance.operation" →
    span.events.countP isTerminal ≤ 1

theorem parentRole_iff {parent : Option TraceSpan} {role : SpanRole} (hrole : role ≠ .other) :
    (parent.map fun parent => SpanRole.parse parent.name).getD .other = role ↔
      ∃ found, parent = some found ∧ SpanRole.parse found.name = role := by
  cases parent with
  | none => simpa using hrole.symm
  | some found => simp

theorem asKvList_isSome {value : Option AnyValue} :
    (value.bind AnyValue.asKvList).isSome = true ↔ ∃ entries, value = some (.kvList entries) := by
  cases value with
  | none => simp
  | some value => cases value <;> simp [AnyValue.asKvList]

theorem validTrace_of_validateSemantics {spans : List TraceSpan}
    (h : validateSemantics spans = some []) : ValidTrace spans := by
  obtain ⟨ancestry, hancestry, hissues⟩ := Option.map_eq_some_iff.mp h
  simp only [List.append_eq_nil_iff, List.flatMap_eq_nil_iff, identityIssues_eq_nil] at hissues
  obtain ⟨⟨⟨hidentity, hunique⟩, rfl⟩, hspans⟩ := hissues
  have hspan : ∀ span ∈ spans,
      (((interval span).any fun (start, finish) => start ≤ finish) = true) ∧
      validateRole span (((parentOf spans span).map fun parent =>
        SpanRole.parse parent.name).getD .other) = [] ∧ validateEvents span = [] := by
    intro span hmem
    have hclear := hspans span hmem
    simp only [validateSpan, List.append_eq_nil_iff, requireAt_eq_nil] at hclear
    exact ⟨hclear.1.1.1.2, hclear.1.1.2, hclear.2⟩
  have hrole : ∀ span ∈ spans, ∀ role, SpanRole.parse span.name = role →
      validateRole span (((parentOf spans span).map fun parent =>
        SpanRole.parse parent.name).getD .other) = [] := fun span hmem _ _ => (hspan span hmem).2.1
  refine ⟨hunique, ?_, fun span hmem hname => rooted_of_validateAncestry hunique hancestry hmem hname,
    ?_, ?_, ?_, ?_, ?_, ?_, fun span hmem hname => validateEvents_terminal hname (hspan span hmem).2.2⟩
  · intro span hmem hempty
    have hhex := (hidentity span hmem).2.1
    rw [hempty] at hhex
    exact absurd hhex (by decide)
  · intro span hmem
    have hinterval := (hspan span hmem).1
    cases hcase : interval span with
    | none => simp [hcase] at hinterval
    | some bounds => exact ⟨bounds.1, bounds.2, rfl, by simpa [hcase] using hinterval⟩
  · intro span hmem hname
    have hclear := (hspan span hmem).2.1
    rw [validateRole, SpanRole.parse_run.mpr hname] at hclear
    simp only [List.append_eq_nil_iff, requireAt_eq_nil, decide_eq_true_eq] at hclear
    exact hclear.1.1.2
  · intro span hmem hname
    have hclear := (hspan span hmem).2.1
    rw [validateRole, SpanRole.parse_scenario.mpr hname] at hclear
    simp only [List.append_eq_nil_iff, requireAt_eq_nil, decide_eq_true_eq, requireStr_eq_nil,
      parentRole_iff (show SpanRole.run ≠ .other by decide), SpanRole.parse_run] at hclear
    exact ⟨hclear.1.1.2, hclear.1.2⟩
  · intro span hmem hname
    have hclear := (hspan span hmem).2.1
    rw [validateRole, SpanRole.parse_operation.mpr hname] at hclear
    simp only [List.append_eq_nil_iff, requireAt_eq_nil, Bool.or_eq_true, decide_eq_true_eq,
      requireStr_eq_nil, asKvList_isSome, parentRole_iff (show SpanRole.scenario ≠ .other by decide),
      parentRole_iff (show SpanRole.operation ≠ .other by decide),
      parentRole_iff (show SpanRole.parallel ≠ .other by decide), SpanRole.parse_scenario,
      SpanRole.parse_operation, SpanRole.parse_parallel] at hclear
    obtain ⟨⟨⟨⟨-, hparent⟩, hcomponent⟩, hoperation⟩, hinputs⟩ := hclear
    refine ⟨?_, hcomponent, hoperation, hinputs⟩
    rcases hparent with (⟨parent, hparent, hname⟩ | ⟨parent, hparent, hname⟩) |
      ⟨parent, hparent, hname⟩
    · exact ⟨parent, hparent, .inl hname⟩
    · exact ⟨parent, hparent, .inr (.inl hname)⟩
    · exact ⟨parent, hparent, .inr (.inr hname)⟩
  · intro span hmem hname
    have hclear := (hspan span hmem).2.1
    rw [validateRole, SpanRole.parse_parallel.mpr hname] at hclear
    simp only [List.append_eq_nil_iff, requireAt_eq_nil, Bool.or_eq_true, decide_eq_true_eq,
      parentRole_iff (show SpanRole.scenario ≠ .other by decide),
      parentRole_iff (show SpanRole.operation ≠ .other by decide), SpanRole.parse_scenario,
      SpanRole.parse_operation] at hclear
    rcases hclear.1.2 with ⟨parent, hparent, hname⟩ | ⟨parent, hparent, hname⟩
    · exact ⟨parent, hparent, .inl hname⟩
    · exact ⟨parent, hparent, .inr hname⟩
  · intro span hmem
    have hclear := (hspan span hmem).2.2
    simp only [validateEvents, List.append_eq_nil_iff] at hclear
    exact validateEventsFrom_shape hclear.1.1

end Acceptance

end SpecGate.TraceValidation

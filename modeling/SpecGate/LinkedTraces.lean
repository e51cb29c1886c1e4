import SpecGate.AcceptedValues
import SpecGate.TraceValidation

/-!
Linkage of a trace to the registry: identities, declared inputs and observations, and
the declared outcome of every operation, each value checked at its declared type.
-/
namespace SpecGate.LinkedTraces

open Values RegistryModel Validation TraceModel TraceValidation SortedAssoc LinkedValues
open AcceptedValues

def findOperation (registry : RegistrySet) (componentId operationName : String) :
    Option (ResolvedComponent × RegistryOperation) :=
  (lookup registry.components componentId).bind fun component =>
    (component.component.operations.find? fun operation => operation.name == operationName).map
      fun operation => (component, operation)

def stringAttr (attributes : Attributes) (key : String) : Option String :=
  (lookup attributes key).bind AnyValue.asString

def validateLinkage (span : TraceSpan) (registry : RegistrySet) : List ValidationIssue :=
  [("conformance.registry.id", registry.rootId),
    ("conformance.registry.version", registry.rootVersion),
    ("conformance.registry.digest", registry.rootDigest)].flatMap fun (key, expected) =>
      match stringAttr span.resourceAttributes key with
      | some actual =>
          requireAt (actual == expected) span.location s!"trace {key} does not match root registry"
      | none => issue span.location s!"missing string attribute '{key}'"

def validateInputs (span : TraceSpan) (component : ResolvedComponent)
    (operation : RegistryOperation) (registry : RegistrySet) : List ValidationIssue :=
  match (lookup span.attributes "conformance.operation.inputs").bind AnyValue.asKvList with
  | none => []
  | some inputs =>
      if inputs.length = operation.inputs.length ∧
          ∀ declared ∈ operation.inputs, SortedAssoc.contains inputs declared.1 = true then
        operation.inputs.flatMap fun declared =>
          match lookup inputs declared.1 with
          | none => []
          | some value =>
              validateValue registry component declared.2 value
                s!"{span.location}.inputs.{declared.1}"
      else issue s!"{span.location}.inputs" "input names do not match registry operation"

/-- The declared type of a named value. -/
def declaredType (declared : List NamedValue) (name : String) : Option TypeRef :=
  (declared.find? fun value => value.1 == name).map Prod.snd

def validateObservation (component : ResolvedComponent) (operation : RegistryOperation)
    (registry : RegistrySet) (event : TraceEvent) (location : String) : List ValidationIssue :=
  if event.name ≠ "conformance.observation" then []
  else match stringAttr event.attributes "conformance.observation.name" with
    | none => []
    | some name =>
        match declaredType operation.observations name with
        | none => issue location s!"observation '{name}' is not declared"
        | some valueType =>
            match lookup event.attributes "conformance.observation.value" with
            | none => []
            | some value =>
                validateValue registry component valueType value s!"{location}.value"

def validateObservations (span : TraceSpan) (component : ResolvedComponent)
    (operation : RegistryOperation) (registry : RegistrySet) : List ValidationIssue :=
  span.events.zipIdx.flatMap fun (event, index) =>
    validateObservation component operation registry event s!"{span.location}.events[{index}]"

def findError (operation : RegistryOperation) (name : String) : Option ErrorOutcome :=
  operation.outcomes.errors.find? fun error => error.name == name

/-- An optional text as `Debug` prints it. -/
def debugOption : Option String → String
  | none => "None"
  | some text => "Some(" ++ debugText text ++ ")"

def validateError (span : TraceSpan) (event : TraceEvent) (component : ResolvedComponent)
    (operation : RegistryOperation) (registry : RegistrySet) : List ValidationIssue :=
  let name := stringAttr event.attributes "conformance.error.name"
  match name.bind (findError operation) with
  | none => issue span.location s!"error outcome {debugOption name} not declared"
  | some declaration =>
      match declaration.valueType, lookup event.attributes "conformance.error.value" with
      | some valueType, some value =>
          validateValue registry component valueType value s!"{span.location}.error"
      | some _, none => issue span.location s!"error outcome '{declaration.name}' requires a value"
      | none, some _ =>
          issue span.location s!"error outcome '{declaration.name}' does not declare a value"
      | none, none => []

/-- The outcome an operation came to; a fault owes the registry none. -/
def validateOutcome (span : TraceSpan) (component : ResolvedComponent)
    (operation : RegistryOperation) (registry : RegistrySet) : List ValidationIssue :=
  if span.events.any fun event => event.name == "conformance.fault" then []
  else match span.events.find? fun event => decide (event.name ∈
      ["conformance.result", "conformance.empty", "conformance.error", "conformance.abandoned"]) with
    | none =>
        if operation.outcomes.result.isSome || operation.outcomes.empty then
          issue span.location "unit completion not permitted by registry outcomes"
        else []
    | some event =>
        if event.name = "conformance.result" then
          match operation.outcomes.result with
          | none => issue span.location "result outcome not declared"
          | some valueType =>
              match lookup event.attributes "conformance.result.value" with
              | none => []
              | some value =>
                  validateValue registry component valueType value s!"{span.location}.result"
        else if event.name = "conformance.empty" then
          requireAt operation.outcomes.empty span.location "empty outcome not declared"
        else if event.name = "conformance.error" then
          validateError span event component operation registry
        else []

def validateOperation (span : TraceSpan) (component : ResolvedComponent)
    (operation : RegistryOperation) (registry : RegistrySet) : List ValidationIssue :=
  validateInputs span component operation registry ++
    validateObservations span component operation registry ++
      validateOutcome span component operation registry

def checkSpan (registry : RegistrySet) (span : TraceSpan) : List ValidationIssue :=
  validateLinkage span registry ++
  if span.name ≠ "conformance.operation" then []
  else match stringAttr span.attributes "conformance.component.id",
      stringAttr span.attributes "conformance.operation.name" with
    | some componentId, some operationName =>
        match findOperation registry componentId operationName with
        | some (component, operation) => validateOperation span component operation registry
        | none =>
            if SortedAssoc.contains registry.components componentId then
              issue span.location s!"unknown operation '{operationName}' in '{componentId}'"
            else issue span.location s!"unknown component '{componentId}'"
    | _, _ => []

def checkLinked (trace : TraceDocument) (registry : RegistrySet) : List ValidationIssue :=
  trace.spans.flatMap (checkSpan registry)

/-! ### What linkage says about an operation -/

section Linked

variable {registry : RegistrySet} {span : TraceSpan} {component : ResolvedComponent}
  {operation : RegistryOperation}

theorem validateOperation_of_checkLinked {trace : TraceDocument}
    (h : checkLinked trace registry = []) (hspan : span ∈ trace.spans)
    (hname : span.name = "conformance.operation") {componentId operationName : String}
    (hcomponent : stringAttr span.attributes "conformance.component.id" = some componentId)
    (hoperation : stringAttr span.attributes "conformance.operation.name" = some operationName)
    (hfind : findOperation registry componentId operationName = some (component, operation)) :
    validateOperation span component operation registry = [] := by
  have hclear := List.flatMap_eq_nil_iff.mp h span hspan
  simpa [checkSpan, hname, hcomponent, hoperation, hfind] using
    (List.append_eq_nil_iff.mp hclear).2

theorem mem_of_declaredType {declared : List NamedValue} {name : String} {type : TypeRef}
    (h : declaredType declared name = some type) : (name, type) ∈ declared := by
  obtain ⟨value, hvalue, rfl⟩ := Option.map_eq_some_iff.mp h
  obtain rfl : value.1 = name := by simpa using List.find?_some hvalue
  exact List.mem_of_find?_eq_some hvalue

theorem linked_input (h : validateOperation span component operation registry = [])
    {inputs : List (String × AnyValue)}
    (hinputs : lookup span.attributes "conformance.operation.inputs" = some (.kvList inputs))
    {name : String} {type : TypeRef} (htype : declaredType operation.inputs name = some type)
    {value : AnyValue} (hvalue : lookup inputs name = some value) :
    Accepted registry component type value := by
  simp only [validateOperation, List.append_eq_nil_iff] at h
  have hclear := h.1.1
  simp only [validateInputs, hinputs, Option.bind_some, AnyValue.asKvList] at hclear
  split at hclear
  · have hone := List.flatMap_eq_nil_iff.mp hclear (name, type) (mem_of_declaredType htype)
    simp only [hvalue] at hone
    exact ⟨_, hone⟩
  · exact absurd hclear (issue_ne_nil _ _)

theorem linked_observation (h : validateOperation span component operation registry = [])
    {event : TraceEvent} (hevent : event ∈ span.events)
    (hname : event.name = "conformance.observation") {name : String}
    (hobservation : stringAttr event.attributes "conformance.observation.name" = some name)
    {type : TypeRef} (htype : declaredType operation.observations name = some type)
    {value : AnyValue}
    (hvalue : lookup event.attributes "conformance.observation.value" = some value) :
    Accepted registry component type value := by
  simp only [validateOperation, List.append_eq_nil_iff] at h
  obtain ⟨i, hi, rfl⟩ := List.getElem_of_mem hevent
  have hone := flatMap_zipIdx_eq_nil.mp h.1.2 i hi
  simp only [validateObservation, hname, ne_eq, not_true_eq_false, if_false, hobservation, htype,
    hvalue] at hone
  exact ⟨_, hone⟩

/-- With at most one terminal event, two terminal events of the list are the same. -/
theorem terminal_unique {events : List TraceEvent} (h : events.countP isTerminal ≤ 1)
    {left right : TraceEvent} (hleft : left ∈ events) (hright : right ∈ events)
    (hleftTerminal : isTerminal left = true) (hrightTerminal : isTerminal right = true) :
    left = right := by
  rw [List.countP_eq_length_filter] at h
  have hl : left ∈ events.filter isTerminal := List.mem_filter.mpr ⟨hleft, hleftTerminal⟩
  have hr : right ∈ events.filter isTerminal := List.mem_filter.mpr ⟨hright, hrightTerminal⟩
  match hfilter : events.filter isTerminal, h with
  | [], _ =>
    rw [hfilter] at hl
    cases hl
  | [only], _ =>
    rw [hfilter] at hl hr
    rw [List.mem_singleton.mp hl, List.mem_singleton.mp hr]
  | _ :: _ :: _, h => simp at h

/-- The outcome check looks at the only terminal event. -/
theorem outcome_event {event : TraceEvent} (hevent : event ∈ span.events)
    (hterminal : span.events.countP isTerminal ≤ 1)
    (hname : event.name = "conformance.result" ∨ event.name = "conformance.error") :
    (span.events.any fun event => event.name == "conformance.fault") = false ∧
      (span.events.find? fun event => decide (event.name ∈
        ["conformance.result", "conformance.empty", "conformance.error",
          "conformance.abandoned"])) = some event := by
  have hself : isTerminal event = true := by
    rcases hname with hname | hname <;> simp [isTerminal, EventRole.parse, hname]
  constructor
  · rw [List.any_eq_false]
    intro other hother hfault
    have hfault : other.name = "conformance.fault" := by simpa using hfault
    obtain rfl := terminal_unique hterminal hother hevent
      (by simp [isTerminal, EventRole.parse, hfault]) hself
    rcases hname with hname | hname
    all_goals
      rw [hname] at hfault
      exact absurd hfault (by decide)
  · have hsome : (span.events.find? fun event => decide (event.name ∈
        ["conformance.result", "conformance.empty", "conformance.error",
          "conformance.abandoned"])).isSome := by
      rw [List.find?_isSome]
      refine ⟨event, hevent, ?_⟩
      rcases hname with hname | hname <;> simp [hname]
    obtain ⟨found, hfound⟩ := Option.isSome_iff_exists.mp hsome
    have hfoundName := List.find?_some hfound
    simp only [List.mem_cons, List.not_mem_nil, or_false, decide_eq_true_eq] at hfoundName
    have hfoundTerminal : isTerminal found = true := by
      rcases hfoundName with hname | hname | hname | hname <;>
        simp [isTerminal, EventRole.parse, hname]
    rw [hfound, terminal_unique hterminal (List.mem_of_find?_eq_some hfound) hevent hfoundTerminal
      hself]

theorem linked_result (h : validateOperation span component operation registry = [])
    (hterminal : span.events.countP isTerminal ≤ 1) {event : TraceEvent}
    (hevent : event ∈ span.events) (hname : event.name = "conformance.result") {type : TypeRef}
    (htype : operation.outcomes.result = some type) {value : AnyValue}
    (hvalue : lookup event.attributes "conformance.result.value" = some value) :
    Accepted registry component type value := by
  obtain ⟨hfault, hfound⟩ := outcome_event hevent hterminal (.inl hname)
  simp only [validateOperation, List.append_eq_nil_iff] at h
  have hclear := h.2
  simp only [validateOutcome, hfault, Bool.false_eq_true, if_false, hfound, hname, if_true, htype,
    hvalue] at hclear
  exact ⟨_, hclear⟩

theorem linked_error (h : validateOperation span component operation registry = [])
    (hterminal : span.events.countP isTerminal ≤ 1) {event : TraceEvent}
    (hevent : event ∈ span.events) (hname : event.name = "conformance.error") {name : String}
    (herror : stringAttr event.attributes "conformance.error.name" = some name)
    {declaration : ErrorOutcome} (hfind : findError operation name = some declaration)
    {type : TypeRef} (htype : declaration.valueType = some type) {value : AnyValue}
    (hvalue : lookup event.attributes "conformance.error.value" = some value) :
    Accepted registry component type value := by
  obtain ⟨hfault, hfound⟩ := outcome_event hevent hterminal (.inr hname)
  simp only [validateOperation, List.append_eq_nil_iff] at h
  have hclear := h.2
  simp only [validateOutcome, hfault, Bool.false_eq_true, if_false, hfound, hname, if_true,
    String.reduceEq, validateError, herror, Option.bind_some, hfind, htype, hvalue] at hclear
  exact ⟨_, hclear⟩

end Linked

end SpecGate.LinkedTraces

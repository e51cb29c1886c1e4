import SpecGate.Comparison
import SpecGate.SemanticEquality

/-!
Comparison under a registry: at every place where the engine compares two values by a
declared type, both values have a canonical form, so that agreement is agreement of
two canonical values and never of two failures.
-/
namespace SpecGate.LinkedComparison

open Values RegistryModel Validation TraceModel TraceValidation SortedAssoc CanonicalOrder
open LinkedValues LinkedTraces AcceptedValues Comparison SemanticEquality

/-- A trace that the trace validator accepts and that links to the registry. -/
structure Linked (set : RegistrySet) (trace : TraceDocument) : Prop where
  valid : validateSemantics trace.spans = some []
  linked : checkLinked trace set = []

/-- The values that the engine compares by a registry type, for two operation spans. -/
inductive ComparedAt (set : RegistrySet) (left right : TraceSpan) :
    ResolvedComponent → TypeRef → AnyValue → AnyValue → Prop
  | input {declaration : Declaration} {name : String} {type : TypeRef} {l r : AnyValue}
      (hdeclaration : operationDeclaration (some set) left right = some declaration)
      (htype : inputType (some declaration) name = some type)
      (hleft : lookup (operationInputs left) name = some l)
      (hright : lookup (operationInputs right) name = some r) :
      ComparedAt set left right declaration.1 type l r
  | observation {declaration : Declaration} {type : TypeRef} {position : Nat} {a b : TraceEvent}
      {l r : AnyValue} (hdeclaration : operationDeclaration (some set) left right = some declaration)
      (ha : left.events[position]? = some a) (hb : right.events[position]? = some b)
      (hname : a.name = "conformance.observation") (hsame : a.name = b.name)
      (htype : observationType (some declaration) (eventString a "conformance.observation.name")
        (eventString b "conformance.observation.name") = some type)
      (hleft : lookup a.attributes "conformance.observation.value" = some l)
      (hright : lookup b.attributes "conformance.observation.value" = some r) :
      ComparedAt set left right declaration.1 type l r
  | result {declaration : Declaration} {type : TypeRef} {position : Nat} {a b : TraceEvent}
      {l r : AnyValue} (hdeclaration : operationDeclaration (some set) left right = some declaration)
      (ha : left.events[position]? = some a) (hb : right.events[position]? = some b)
      (hname : a.name = "conformance.result") (hsame : a.name = b.name)
      (htype : resultType (some declaration) = some type)
      (hleft : lookup a.attributes "conformance.result.value" = some l)
      (hright : lookup b.attributes "conformance.result.value" = some r) :
      ComparedAt set left right declaration.1 type l r
  | error {declaration : Declaration} {type : TypeRef} {position : Nat} {a b : TraceEvent}
      {l r : AnyValue} (hdeclaration : operationDeclaration (some set) left right = some declaration)
      (ha : left.events[position]? = some a) (hb : right.events[position]? = some b)
      (hname : a.name = "conformance.error") (hsame : a.name = b.name)
      (htype : errorType (some declaration) (eventString a "conformance.error.name")
        (eventString b "conformance.error.name") = some type)
      (hleft : lookup a.attributes "conformance.error.value" = some l)
      (hright : lookup b.attributes "conformance.error.value" = some r) :
      ComparedAt set left right declaration.1 type l r

section Positions

variable {set : RegistrySet} {trace : TraceDocument} {span : TraceSpan}
  {declaration : Declaration}

/-- The declaration the engine finds is the one the linked validator checked against. -/
theorem Linked.operation (h : Linked set trace) (hspan : span ∈ trace.spans)
    (hname : span.name = "conformance.operation")
    (hfind : findOperation set (attributeString span "conformance.component.id")
      (attributeString span "conformance.operation.name") = some declaration) :
    validateOperation span declaration.1 declaration.2 set = [] := by
  have hvalid := validTrace_of_validateSemantics h.valid
  obtain ⟨-, ⟨id, hid⟩, ⟨operation, hoperation⟩, -⟩ := hvalid.operation span hspan hname
  have hcomponent : stringAttr span.attributes "conformance.component.id" = some id := by
    rw [stringAttr, hid]
    rfl
  have hoperationName : stringAttr span.attributes "conformance.operation.name" =
      some operation := by
    rw [stringAttr, hoperation]
    rfl
  rw [attributeString, attributeString, hcomponent, hoperationName] at hfind
  exact validateOperation_of_checkLinked h.linked hspan hname hcomponent hoperationName hfind

theorem Linked.input (h : Linked set trace) (hspan : span ∈ trace.spans)
    (hname : span.name = "conformance.operation")
    (hoperation : validateOperation span declaration.1 declaration.2 set = []) {name : String}
    {type : TypeRef} (htype : inputType (some declaration) name = some type) {value : AnyValue}
    (hvalue : lookup (operationInputs span) name = some value) :
    Accepted set declaration.1 type value := by
  have hvalid := validTrace_of_validateSemantics h.valid
  obtain ⟨-, -, -, inputs, hinputs⟩ := hvalid.operation span hspan hname
  rw [operationInputs, hinputs] at hvalue
  exact linked_input hoperation hinputs htype hvalue

theorem Linked.observation (h : Linked set trace) (hspan : span ∈ trace.spans)
    (hoperation : validateOperation span declaration.1 declaration.2 set = [])
    {event : TraceEvent} (hevent : event ∈ span.events)
    (hname : event.name = "conformance.observation") {type : TypeRef}
    (htype : declaredType declaration.2.observations
      (eventString event "conformance.observation.name") = some type) {value : AnyValue}
    (hvalue : lookup event.attributes "conformance.observation.value" = some value) :
    Accepted set declaration.1 type value := by
  have hvalid := validTrace_of_validateSemantics h.valid
  obtain ⟨-, hshape⟩ := hvalid.event span hspan event hevent
  simp only [EventShape, EventRole.parse, hname, if_true] at hshape
  obtain ⟨⟨name, hlookup⟩, -⟩ := hshape
  have hobservation : stringAttr event.attributes "conformance.observation.name" = some name := by
    rw [stringAttr, hlookup]
    rfl
  rw [eventString, hobservation] at htype
  exact linked_observation hoperation hevent hname hobservation htype hvalue

theorem Linked.result (h : Linked set trace) (hspan : span ∈ trace.spans)
    (hname : span.name = "conformance.operation")
    (hoperation : validateOperation span declaration.1 declaration.2 set = [])
    {event : TraceEvent} (hevent : event ∈ span.events)
    (heventName : event.name = "conformance.result") {type : TypeRef}
    (htype : resultType (some declaration) = some type) {value : AnyValue}
    (hvalue : lookup event.attributes "conformance.result.value" = some value) :
    Accepted set declaration.1 type value := by
  have hvalid := validTrace_of_validateSemantics h.valid
  exact linked_result hoperation (hvalid.terminal span hspan hname) hevent heventName htype hvalue

theorem Linked.error (h : Linked set trace) (hspan : span ∈ trace.spans)
    (hname : span.name = "conformance.operation")
    (hoperation : validateOperation span declaration.1 declaration.2 set = [])
    {event : TraceEvent} (hevent : event ∈ span.events)
    (heventName : event.name = "conformance.error") {type : TypeRef}
    (htype : (findError declaration.2 (eventString event "conformance.error.name")).bind
      ErrorOutcome.valueType = some type) {value : AnyValue}
    (hvalue : lookup event.attributes "conformance.error.value" = some value) :
    Accepted set declaration.1 type value := by
  have hvalid := validTrace_of_validateSemantics h.valid
  obtain ⟨-, hshape⟩ := hvalid.event span hspan event hevent
  simp only [EventShape, EventRole.parse, heventName, String.reduceEq, if_false, if_true] at hshape
  obtain ⟨name, hlookup⟩ := hshape
  have herror : stringAttr event.attributes "conformance.error.name" = some name := by
    rw [stringAttr, hlookup]
    rfl
  rw [eventString, herror] at htype
  obtain ⟨found, hfind, hfoundType⟩ := Option.bind_eq_some_iff.mp htype
  exact linked_error hoperation (hvalid.terminal span hspan hname) hevent heventName herror hfind
    hfoundType hvalue

end Positions

/-- The engine looks an operation up for two spans only when both name it. -/
theorem operationDeclaration_eq_some {set : RegistrySet} {left right : TraceSpan}
    {declaration : Declaration}
    (h : operationDeclaration (some set) left right = some declaration) :
    findOperation set (attributeString left "conformance.component.id")
        (attributeString left "conformance.operation.name") = some declaration ∧
      findOperation set (attributeString right "conformance.component.id")
        (attributeString right "conformance.operation.name") = some declaration := by
  unfold operationDeclaration at h
  simp only at h
  split at h
  · rename_i hsame
    rw [Option.bind_some] at h
    exact ⟨h, by rwa [← hsame.1, ← hsame.2]⟩
  · cases h

theorem observationType_eq_some {declaration : Declaration} {left right : String}
    {type : TypeRef} (h : observationType (some declaration) left right = some type) :
    declaredType declaration.2.observations left = some type ∧
      declaredType declaration.2.observations right = some type := by
  unfold observationType at h
  split at h
  · rename_i hsame
    exact ⟨h, hsame ▸ h⟩
  · cases h

theorem errorType_eq_some {declaration : Declaration} {left right : String} {type : TypeRef}
    (h : errorType (some declaration) left right = some type) :
    (findError declaration.2 left).bind ErrorOutcome.valueType = some type ∧
      (findError declaration.2 right).bind ErrorOutcome.valueType = some type := by
  unfold errorType at h
  split at h
  · rename_i hsame
    exact ⟨h, hsame ▸ h⟩
  · cases h

theorem ComparedAt.accepted {set : RegistrySet} {reference candidate : TraceDocument}
    (hreference : Linked set reference) (hcandidate : Linked set candidate) {left right : TraceSpan}
    (hleft : left ∈ reference.spans) (hright : right ∈ candidate.spans)
    (hleftName : left.name = "conformance.operation")
    (hrightName : right.name = "conformance.operation") {component : ResolvedComponent}
    {type : TypeRef} {l r : AnyValue} (h : ComparedAt set left right component type l r) :
    Accepted set component type l ∧ Accepted set component type r := by
  cases h with
  | input hdeclaration htype hl hr =>
    obtain ⟨hfindLeft, hfindRight⟩ := operationDeclaration_eq_some hdeclaration
    have hoperationLeft := hreference.operation hleft hleftName hfindLeft
    have hoperationRight := hcandidate.operation hright hrightName hfindRight
    exact ⟨hreference.input hleft hleftName hoperationLeft htype hl,
      hcandidate.input hright hrightName hoperationRight htype hr⟩
  | observation hdeclaration ha hb hname hsame htype hl hr =>
    obtain ⟨hfindLeft, hfindRight⟩ := operationDeclaration_eq_some hdeclaration
    have hoperationLeft := hreference.operation hleft hleftName hfindLeft
    have hoperationRight := hcandidate.operation hright hrightName hfindRight
    obtain ⟨htypeLeft, htypeRight⟩ := observationType_eq_some htype
    exact ⟨hreference.observation hleft hoperationLeft (List.mem_of_getElem? ha) hname htypeLeft hl,
      hcandidate.observation hright hoperationRight (List.mem_of_getElem? hb) (hsame ▸ hname)
        htypeRight hr⟩
  | result hdeclaration ha hb hname hsame htype hl hr =>
    obtain ⟨hfindLeft, hfindRight⟩ := operationDeclaration_eq_some hdeclaration
    have hoperationLeft := hreference.operation hleft hleftName hfindLeft
    have hoperationRight := hcandidate.operation hright hrightName hfindRight
    exact ⟨hreference.result hleft hleftName hoperationLeft (List.mem_of_getElem? ha) hname htype hl,
      hcandidate.result hright hrightName hoperationRight (List.mem_of_getElem? hb) (hsame ▸ hname)
        htype hr⟩
  | error hdeclaration ha hb hname hsame htype hl hr =>
    obtain ⟨hfindLeft, hfindRight⟩ := operationDeclaration_eq_some hdeclaration
    have hoperationLeft := hreference.operation hleft hleftName hfindLeft
    have hoperationRight := hcandidate.operation hright hrightName hfindRight
    obtain ⟨htypeLeft, htypeRight⟩ := errorType_eq_some htype
    exact ⟨hreference.error hleft hleftName hoperationLeft (List.mem_of_getElem? ha) hname htypeLeft
        hl,
      hcandidate.error hright hrightName hoperationRight (List.mem_of_getElem? hb) (hsame ▸ hname)
        htypeRight hr⟩

/-- Wherever the engine compares two values by a registry type, both are canonicalised,
and it reports nothing exactly when the two canonical values are the same. -/
theorem compared_values_canonical {set : RegistrySet} {reference candidate : TraceDocument}
    (hreference : Linked set reference) (hcandidate : Linked set candidate) {left right : TraceSpan}
    (hleft : left ∈ reference.spans) (hright : right ∈ candidate.spans)
    (hleftName : left.name = "conformance.operation")
    (hrightName : right.name = "conformance.operation") {component : ResolvedComponent}
    {type : TypeRef} {l r : AnyValue} (h : ComparedAt set left right component type l r) :
    ∃ x y, canonicalValue set component type l = some x ∧
      canonicalValue set component type r = some y ∧
      ∀ path, compareValue (some l) (some r) (some type) (some component) (some set) path = [] ↔
        x = y := by
  obtain ⟨hl, hr⟩ := h.accepted hreference hcandidate hleft hright hleftName hrightName
  obtain ⟨x, hx⟩ := hl.canonical
  obtain ⟨y, hy⟩ := hr.canonical
  refine ⟨x, y, hx, hy, fun path => ?_⟩
  simp only [compareValue, hx, hy, ne_eq, Option.some.injEq]
  by_cases hsame : x = y
  · simp [hsame]
  · simp [hsame, mismatch]

/-- A span of the tally trace, linked to the tally registry. -/
def tallySpan (name spanId parentSpanId : String) (start finish : Nat) (attributes : Attributes) :
    TraceSpan where
  traceId := "00000000000000000000000000000001"
  spanId := spanId
  parentSpanId := parentSpanId
  name := name
  startTime := some start
  endTime := some finish
  attributes := attributes
  events := []
  status := .ok
  resourceAttributes :=
    [("conformance.registry.digest", .string "sha256:"),
      ("conformance.registry.id", .string "tally.registry"),
      ("conformance.registry.version", .string "1.0.0")]
  location := "tally.otlp.json"

def tallyOperation : TraceSpan :=
  tallySpan "conformance.operation" "0000000000000003" "0000000000000002" 1 2
    [("conformance.component.id", .string "tally"),
      ("conformance.operation.inputs",
        .kvList [("counts", .array (countsEntries.map entryOf))]),
      ("conformance.operation.name", .string "record")]

def tallyTrace : TraceDocument where
  spans :=
    [tallySpan "conformance.run" "0000000000000001" "" 0 3
        [("conformance.run.id", .string "run")],
      tallySpan "conformance.scenario" "0000000000000002" "0000000000000001" 0 3
        [("conformance.scenario.name", .string "counting")],
      tallyOperation]

def tallyDeclaration : Declaration :=
  (tallyTarget,
    { name := "record"
      inputs := [("counts", countsType)]
      observations := []
      outcomes := ⟨none, false, []⟩
      extensions := [] })

theorem tally_linked : Linked tallySet tallyTrace := by
  refine ⟨by decide +kernel, ?_⟩
  have hinputs : validateInputs tallyOperation tallyDeclaration.1 tallyDeclaration.2 tallySet =
      validateValue tallySet tallyTarget countsType (.array (countsEntries.map entryOf))
        "tally.otlp.json.inputs.counts" ++ [] := rfl
  have hoperation : checkSpan tallySet tallyOperation =
      validateInputs tallyOperation tallyDeclaration.1 tallyDeclaration.2 tallySet ++ [] ++ [] := rfl
  have hclear : checkSpan tallySet tallyOperation = [] := by
    rw [hoperation, hinputs, (counts_accepted (.inl rfl) _).2]
    rfl
  have hchecked : checkLinked tallyTrace tallySet = checkSpan tallySet tallyOperation ++ [] := rfl
  rw [hchecked, hclear]
  rfl

theorem compared_values_canonical_tally :
    ∃ x y, canonicalValue tallySet tallyTarget countsType (.array (countsEntries.map entryOf)) =
        some x ∧
      canonicalValue tallySet tallyTarget countsType (.array (countsEntries.map entryOf)) =
        some y ∧
      ∀ path, compareValue (some (.array (countsEntries.map entryOf)))
        (some (.array (countsEntries.map entryOf))) (some countsType) (some tallyTarget)
        (some tallySet) path = [] ↔ x = y := by
  have hmem : tallyOperation ∈ tallyTrace.spans := by simp [tallyTrace]
  have hdeclaration : operationDeclaration (some tallySet) tallyOperation tallyOperation =
      some tallyDeclaration := rfl
  have hcompared : ComparedAt tallySet tallyOperation tallyOperation tallyDeclaration.1 countsType
      (.array (countsEntries.map entryOf)) (.array (countsEntries.map entryOf)) :=
    .input hdeclaration (show inputType (some tallyDeclaration) "counts" = some countsType from rfl)
      rfl rfl
  exact compared_values_canonical tally_linked tally_linked hmem hmem rfl rfl hcompared

end SpecGate.LinkedComparison

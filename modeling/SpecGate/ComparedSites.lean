import SpecGate.AlikeTraces

/-!
The places at which a comparison holds two sides against each other: spans and events that
one side may lack, names of spans, operations and channels, and values with what they are
declared as. A comparison of two accepted traces reports a mismatch for exactly those
places where the sides differ.
-/
namespace SpecGate.ComparedSites

open Values RegistryModel TraceModel TraceAncestry TraceValidation SortedAssoc Collecting
open Validation CanonicalOrder LinkedValues LinkedTraces Display Comparison ComparisonVerdict TraceForest
open SemanticTree ComparedSpans AlikeTraces

/-! ### Places and their reports -/

/-- A registry, and the component and the type by which it declares a value. -/
abbrev Linkage := RegistrySet × ResolvedComponent × TypeRef

inductive Site where
  | presence (path : String) (expected actual : Option String)
  | name (path expected actual : String)
  | value (path : String) (declared : Option Linkage) (expected actual : Option AnyValue)

def declaredAs (registry : Option RegistrySet) (component : Option ResolvedComponent)
    (type : Option TypeRef) : Option Linkage :=
  match type, component, registry with
  | some type, some component, some registry => some (registry, component, type)
  | _, _, _ => none

/-- A value as it is compared at a place. -/
def heldAs (declared : Option Linkage) (value : AnyValue) : Seen :=
  match declared with
  | some (set, component, type) => .canonical (canonicalValue set component type value)
  | none => .wire value

/-- The two sides of a place do not differ. -/
def Site.Agrees : Site → Prop
  | .presence _ expected actual => expected.isSome = actual.isSome
  | .name _ expected actual => expected = actual
  | .value _ declared expected actual =>
      expected.map (heldAs declared) = actual.map (heldAs declared)

/-- The text of a value beside what stands on the other side. -/
def valueText (declared : Option Linkage) : Option AnyValue → Option AnyValue → String
  | none, _ => missing
  | some value, none => displayValue value
  | some value, some _ =>
      match declared with
      | some (set, component, type) => displayCanonicalOr (canonicalValue set component type value)
      | none => displayValue value

def Site.report : Site → ComparisonMismatch
  | .presence path expected actual => ⟨path, expected.getD missing, actual.getD missing⟩
  | .name path expected actual => ⟨path, expected, actual⟩
  | .value path declared expected actual =>
      ⟨path, valueText declared expected actual, valueText declared actual expected⟩

/-- The mismatches are the reports of those places at which the sides differ. -/
def Reported (mismatches : List ComparisonMismatch) (P : Site → Prop) : Prop :=
  ∀ m, m ∈ mismatches ↔ ∃ site, P site ∧ ¬ site.Agrees ∧ site.report = m

section Reported

variable {first second : List ComparisonMismatch} {P Q : Site → Prop}

theorem Reported.congr (h : Reported first P) (hPQ : ∀ site, P site ↔ Q site) :
    Reported first Q := by
  intro m
  rw [h m]
  exact exists_congr fun site => and_congr_left fun _ => hPQ site

theorem Reported.append (h : Reported first P) (h' : Reported second Q) :
    Reported (first ++ second) fun site => P site ∨ Q site := by
  intro m
  rw [List.mem_append, h m, h' m, ← exists_or]
  exact exists_congr fun site => or_and_right.symm

end Reported

/-! ### Values, inputs and events -/

def inputSites (left right : TraceSpan) (declaration : Option Declaration)
    (registry : Option RegistrySet) (path : String) : List Site :=
  (distinct (keys (operationInputs left) ++ keys (operationInputs right))).map fun name =>
    .value s!"{path}.inputs.{name}"
      (declaredAs registry (declaration.map Prod.fst) (inputType declaration name))
      (lookup (operationInputs left) name) (lookup (operationInputs right) name)

/-- The places of two events of one name. -/
def eventSites (left right : TraceEvent) (declaration : Option Declaration)
    (registry : Option RegistrySet) (path : String) : List Site :=
  let component := declaration.map Prod.fst
  if left.name = "conformance.observation" then
    let leftName := eventString left "conformance.observation.name"
    let rightName := eventString right "conformance.observation.name"
    [.name s!"{path}.observation" leftName rightName,
      .value s!"{path}.value"
        (declaredAs registry component (observationType declaration leftName rightName))
        (lookup left.attributes "conformance.observation.value")
        (lookup right.attributes "conformance.observation.value")]
  else if left.name = "conformance.result" then
    [.value s!"{path}.result" (declaredAs registry component (resultType declaration))
      (lookup left.attributes "conformance.result.value")
      (lookup right.attributes "conformance.result.value")]
  else if left.name = "conformance.error" then
    let leftName := eventString left "conformance.error.name"
    let rightName := eventString right "conformance.error.name"
    [.name s!"{path}.error" leftName rightName,
      .value s!"{path}.value" (declaredAs registry component (errorType declaration leftName rightName))
        (lookup left.attributes "conformance.error.value")
        (lookup right.attributes "conformance.error.value")]
  else if left.name = "conformance.fault" then
    ["conformance.fault.type", "conformance.fault.message"].map fun key =>
      .value s!"{path}.{key}" none (lookup left.attributes key) (lookup right.attributes key)
  else []

/-- The places of two lists of events at a position. -/
def positionSites (left right : List TraceEvent) (declaration : Option Declaration)
    (registry : Option RegistrySet) (path : String) (position : Nat) : List Site :=
  let eventPath := s!"{path}.events[{position}]"
  match left[position]?, right[position]? with
  | some left, some right =>
      if left.name ≠ right.name then [.name s!"{eventPath}.name" left.name right.name]
      else eventSites left right declaration registry eventPath
  | left, right => [.presence eventPath (left.map TraceEvent.name) (right.map TraceEvent.name)]

def eventListSites (left right : List TraceEvent) (declaration : Option Declaration)
    (registry : Option RegistrySet) (path : String) : List Site :=
  (List.range (max left.length right.length)).flatMap
    (positionSites left right declaration registry path)

section Events

variable {registry : Option RegistrySet} {declaration : Option Declaration} {path : String}

end Events

/-! ### Spans and what hangs below them -/

/-- The path of what belongs to a span at a path. -/
def spanPath (path : String) (span : TraceSpan) : String :=
  if span.name = "conformance.operation" then
    let component := attributeString span "conformance.component.id"
    let name := attributeString span "conformance.operation.name"
    s!"{path}.operation[{component}::{name}]"
  else path

def operationSites (registry : Option RegistrySet) (left right : TraceSpan) (path : String) :
    List Site :=
  let declaration := operationDeclaration registry left right
  [.name s!"{path}.component" (attributeString left "conformance.component.id")
    (attributeString right "conformance.component.id")] ++
  [.name s!"{path}.operation" (attributeString left "conformance.operation.name")
    (attributeString right "conformance.operation.name")] ++
  inputSites left right declaration registry path ++
  eventListSites left.events right.events declaration registry path

/-- The places of two spans themselves. -/
def spanSites (registry : Option RegistrySet) (left right : TraceSpan) (path : String) :
    List Site :=
  if left.name ≠ right.name then [.name s!"{path}.span" left.name right.name]
  else if left.name = "conformance.operation" then
    operationSites registry left right (spanPath path left)
  else eventListSites left.events right.events none registry path

/-- A span on either side, under one key or at one position. -/
structure Slot where
  path : String
  text : TraceSpan → String
  left : Option TraceSpan
  right : Option TraceSpan

def Slot.presence (slot : Slot) : Site :=
  .presence slot.path (slot.left.map slot.text) (slot.right.map slot.text)

def keyedSlots {κ : Type} [Ord κ] (place : κ → String) (left right : List (κ × TraceSpan)) :
    List Slot :=
  (distinct (keys left ++ keys right)).map fun key =>
    { path := place key
      text := fun _ => present
      left := lookup left key
      right := lookup right key }

def positionSlots (path : String) (left right : List TraceSpan) : List Slot :=
  (List.range (max left.length right.length)).map fun position =>
    { path := s!"{path}.children[{position}]"
      text := fun span => (spanIdentity span).display
      left := left[position]?
      right := right[position]? }

/-- The children of two spans of one name, as they are held against each other. -/
def childSlots (reference candidate : TraceDocument) (left right : TraceSpan) (path : String) :
    List Slot :=
  if left.name = "conformance.parallel" then
    keyedSlots (fun identity : SpanIdentity => s!"{path}.parallel[{identity.display}]")
      (ofList (identityEntries reference left)) (ofList (identityEntries candidate right))
  else positionSlots path (sortedChildren reference left) (sortedChildren candidate right)

/-- A slot of the children of two spans, when nothing is ambiguous among these. -/
structure Aligned (reference candidate : TraceDocument) (left right : TraceSpan) (path : String)
    (slot : Slot) : Prop where
  clearLeft : ClearAt reference left
  clearRight : ClearAt candidate right
  mem : slot ∈ childSlots reference candidate left right path

/-- The places from a slot downwards. -/
inductive At (reference candidate : TraceDocument) (registry : Option RegistrySet) :
    Slot → Site → Prop
  | presence (slot : Slot) : At reference candidate registry slot slot.presence
  | own {slot : Slot} {left right : TraceSpan} {site : Site} (hleft : slot.left = some left)
      (hright : slot.right = some right)
      (hsite : site ∈ spanSites registry left right slot.path) :
      At reference candidate registry slot site
  | child {slot inner : Slot} {left right : TraceSpan} {site : Site}
      (hleft : slot.left = some left) (hright : slot.right = some right)
      (hname : left.name = right.name)
      (hinner : Aligned reference candidate left right (spanPath slot.path left) inner)
      (hsite : At reference candidate registry inner site) : At reference candidate registry slot site

def scenarioSlots (reference candidate : TraceDocument) (left right : TraceSpan) : List Slot :=
  keyedSlots (fun name => s!"scenario[{debugText name}]") (ofList (scenarioEntries reference left))
    (ofList (scenarioEntries candidate right))

/-- The places at which a comparison of two documents holds them against each other: the
events of the two runs, and everything from the scenarios downwards. -/
def Visited (reference candidate : TraceDocument) (registry : Option RegistrySet) (site : Site) :
    Prop :=
  ∃ left right, runs reference = [left] ∧ runs candidate = [right] ∧
    (site ∈ eventListSites left.events right.events none registry "run" ∨
      ∃ slot ∈ scenarioSlots reference candidate left right,
        At reference candidate registry slot site)

/-! ### What a comparison reports -/

/-- A comparison that ends, with the mismatches of the places of `P`. -/
def Reports (outcome : Option Findings) (P : Site → Prop) : Prop :=
  ∃ findings, outcome = some findings ∧ Reported findings.mismatches P

section Reports

variable {outcome : Option Findings} {P Q : Site → Prop}

theorem Reports.congr (h : Reports outcome P) (hPQ : ∀ site, P site ↔ Q site) :
    Reports outcome Q := by
  obtain ⟨findings, hfindings, hreported⟩ := h
  exact ⟨findings, hfindings, hreported.congr hPQ⟩

theorem reports_some {findings : Findings} (h : Reported findings.mismatches P) :
    Reports (some findings) P := ⟨findings, rfl, h⟩

theorem Reports.prepend {first : Findings} (h : Reports outcome P)
    (hfirst : Reported first.mismatches Q) :
    Reports (outcome.map (first ++ ·)) fun site => Q site ∨ P site := by
  obtain ⟨findings, rfl, hreported⟩ := h
  exact reports_some (hfirst.append hreported)

end Reports

section Passes

variable {P : TraceSpan → TraceSpan → String → Site → Prop}
  {recurse : TraceSpan → TraceSpan → String → Option Findings}

end Passes

section Comparison

variable {registry : Option RegistrySet} {reference candidate : TraceDocument}

end Comparison

end SpecGate.ComparedSites

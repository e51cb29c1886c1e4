import SpecGate.Display
import SpecGate.LinkedTraces

/-!
The comparison engine: scenarios are paired by name, children of sequential parents by
interval order, branches of parallel parents by identity, inputs by name and events by
position. Every difference is a mismatch and every ambiguity an error.
-/
namespace SpecGate.Comparison

open Values RegistryModel Validation TraceModel TraceAncestry TraceValidation SortedAssoc
open CanonicalOrder Collecting LinkedValues LinkedTraces Display

structure ComparisonMismatch where
  path : String
  expected : String
  actual : String

structure ComparisonDiagnostic where
  path : String
  message : String

/-- The two sinks of a comparison. -/
structure Findings where
  errors : List ComparisonDiagnostic
  mismatches : List ComparisonMismatch

namespace Findings

def none : Findings := ⟨[], []⟩

def append (left right : Findings) : Findings :=
  ⟨left.errors ++ right.errors, left.mismatches ++ right.mismatches⟩

instance : Append Findings := ⟨append⟩

def concat (findings : List Findings) : Findings :=
  ⟨findings.flatMap errors, findings.flatMap mismatches⟩

def ofMismatches (mismatches : List ComparisonMismatch) : Findings := ⟨[], mismatches⟩

def error (path message : String) : Findings := ⟨[⟨path, message⟩], []⟩

end Findings

def missing : String := "<missing>"

def invalid : String := "<invalid>"

def present : String := "present"

def mismatch (path expected actual : String) : List ComparisonMismatch := [⟨path, expected, actual⟩]

def attributeString (span : TraceSpan) (key : String) : String :=
  (stringAttr span.attributes key).getD missing

def eventString (event : TraceEvent) (key : String) : String :=
  (stringAttr event.attributes key).getD missing

/-! ### Values, inputs and events -/

abbrev Declaration := ResolvedComponent × RegistryOperation

def displayCanonicalOr (value : Option CanonicalValue) : String :=
  (value.map displayCanonical).getD invalid

def compareValue (reference candidate : Option AnyValue) (valueType : Option TypeRef)
    (component : Option ResolvedComponent) (registry : Option RegistrySet) (path : String) :
    List ComparisonMismatch :=
  match reference, candidate with
  | some reference, some candidate =>
      match valueType, component, registry with
      | some valueType, some component, some registry =>
          let reference := canonicalValue registry component valueType reference
          let candidate := canonicalValue registry component valueType candidate
          if reference ≠ candidate then
            mismatch path (displayCanonicalOr reference) (displayCanonicalOr candidate)
          else []
      | _, _, _ =>
          if reference ≠ candidate then
            mismatch path (displayValue reference) (displayValue candidate)
          else []
  | some reference, none => mismatch path (displayValue reference) missing
  | none, some candidate => mismatch path missing (displayValue candidate)
  | none, none => []

def inputType (declaration : Option Declaration) (name : String) : Option TypeRef :=
  declaration.bind fun declaration => declaredType declaration.2.inputs name

def observationType (declaration : Option Declaration) (referenceName candidateName : String) :
    Option TypeRef :=
  if referenceName = candidateName then
    declaration.bind fun declaration => declaredType declaration.2.observations referenceName
  else none

def resultType (declaration : Option Declaration) : Option TypeRef :=
  declaration.bind fun declaration => declaration.2.outcomes.result

def errorType (declaration : Option Declaration) (referenceName candidateName : String) :
    Option TypeRef :=
  if referenceName = candidateName then
    declaration.bind fun declaration =>
      (findError declaration.2 referenceName).bind ErrorOutcome.valueType
  else none

/-- The inputs of an operation span; the trace validator has required them. -/
def operationInputs (span : TraceSpan) : List (String × AnyValue) :=
  ((lookup span.attributes "conformance.operation.inputs").bind AnyValue.asKvList).getD []

def compareInputs (reference candidate : TraceSpan) (declaration : Option Declaration)
    (registry : Option RegistrySet) (path : String) : List ComparisonMismatch :=
  let referenceInputs := operationInputs reference
  let candidateInputs := operationInputs candidate
  (distinct (keys referenceInputs ++ keys candidateInputs)).flatMap fun name =>
    compareValue (lookup referenceInputs name) (lookup candidateInputs name)
      (inputType declaration name) (declaration.map Prod.fst) registry s!"{path}.inputs.{name}"

/-- Two events of one name at one position. -/
def compareEvent (reference candidate : TraceEvent) (declaration : Option Declaration)
    (registry : Option RegistrySet) (path : String) : List ComparisonMismatch :=
  let component := declaration.map Prod.fst
  if reference.name = "conformance.observation" then
    let referenceName := eventString reference "conformance.observation.name"
    let candidateName := eventString candidate "conformance.observation.name"
    (if referenceName ≠ candidateName then
      mismatch s!"{path}.observation" referenceName candidateName else []) ++
    compareValue (lookup reference.attributes "conformance.observation.value")
      (lookup candidate.attributes "conformance.observation.value")
      (observationType declaration referenceName candidateName) component registry s!"{path}.value"
  else if reference.name = "conformance.result" then
    compareValue (lookup reference.attributes "conformance.result.value")
      (lookup candidate.attributes "conformance.result.value") (resultType declaration) component
      registry s!"{path}.result"
  else if reference.name = "conformance.error" then
    let referenceName := eventString reference "conformance.error.name"
    let candidateName := eventString candidate "conformance.error.name"
    (if referenceName ≠ candidateName then
      mismatch s!"{path}.error" referenceName candidateName else []) ++
    compareValue (lookup reference.attributes "conformance.error.value")
      (lookup candidate.attributes "conformance.error.value")
      (errorType declaration referenceName candidateName) component registry s!"{path}.value"
  else if reference.name = "conformance.fault" then
    ["conformance.fault.type", "conformance.fault.message"].flatMap fun key =>
      compareValue (lookup reference.attributes key) (lookup candidate.attributes key) none none none
        s!"{path}.{key}"
  else []

def compareEvents (reference candidate : List TraceEvent) (declaration : Option Declaration)
    (registry : Option RegistrySet) (path : String) : List ComparisonMismatch :=
  (List.range (max reference.length candidate.length)).flatMap fun position =>
    let eventPath := s!"{path}.events[{position}]"
    match reference[position]?, candidate[position]? with
    | some reference, some candidate =>
        if reference.name ≠ candidate.name then
          mismatch s!"{eventPath}.name" reference.name candidate.name
        else compareEvent reference candidate declaration registry eventPath
    | some reference, none => mismatch eventPath reference.name missing
    | none, some candidate => mismatch eventPath missing candidate.name
    | none, none => []

/-! ### Children -/

/-- The children of a span in document order. -/
def children (document : TraceDocument) (span : TraceSpan) : List TraceSpan :=
  document.spans.filter fun child =>
    child.traceId == span.traceId && child.parentSpanId == span.spanId

inductive SpanIdentity where
  | operation (component name : String)
  | span (name : String)
  deriving DecidableEq

namespace SpanIdentity

def variantIndex : SpanIdentity → Nat
  | .operation _ _ => 0
  | .span _ => 1

def first : SpanIdentity → String
  | .operation component _ => component
  | .span name => name

def second : SpanIdentity → String
  | .operation _ name => name
  | .span _ => ""

/-- Operations before other spans, each by its texts. -/
instance : Ord SpanIdentity where
  compare := compareLex (compareOn variantIndex) (compareLex (compareOn first) (compareOn second))

instance : Std.TransOrd SpanIdentity :=
  inferInstanceAs (Std.TransCmp
    (compareLex (compareOn variantIndex) (compareLex (compareOn first) (compareOn second))))

theorem eq_of_parts {left right : SpanIdentity} (hindex : left.variantIndex = right.variantIndex)
    (hfirst : left.first = right.first) (hsecond : left.second = right.second) : left = right := by
  cases left <;> cases right <;> simp_all [variantIndex, first, second]

instance : Std.LawfulEqOrd SpanIdentity where
  eq_of_compare := by
    intro left right h
    have hlex : compareLex (compareOn variantIndex) (compareLex (compareOn first)
        (compareOn second)) left right = .eq := h
    simp only [compareLex, compareOn, Ordering.then_eq_eq, Std.LawfulEqOrd.compare_eq_iff_eq]
      at hlex
    exact eq_of_parts hlex.1 hlex.2.1 hlex.2.2

def display : SpanIdentity → String
  | .operation component name =>
      "operation[component=" ++ debugText component ++ ",name=" ++ debugText name ++ "]"
  | .span name => name

end SpanIdentity

def spanIdentity (span : TraceSpan) : SpanIdentity :=
  if span.name = "conformance.operation" then
    .operation (attributeString span "conformance.component.id")
      (attributeString span "conformance.operation.name")
  else .span span.name

/-- An error at every key that has occurred before. -/
def repeatedKeys {κ : Type} [DecidableEq κ] (place : κ → String) (message : String)
    (seen : List κ) : List κ → Findings
  | [] => Findings.none
  | key :: rest =>
      (if key ∈ seen then Findings.error (place key) message else Findings.none) ++
        repeatedKeys place message (key :: seen) rest

def childInterval (span : TraceSpan) : Nat × Nat := (interval span).getD (0, 0)

/-- Both bounds in order, the start first. -/
def intervalLe (left right : TraceSpan) : Bool :=
  decide ((childInterval left).1 < (childInterval right).1) ||
    (decide ((childInterval left).1 = (childInterval right).1) &&
      decide ((childInterval left).2 ≤ (childInterval right).2))

/-- The children in interval order. -/
def sortedChildren (document : TraceDocument) (parent : TraceSpan) : List TraceSpan :=
  (children document parent).mergeSort intervalLe

/-- The first adjacent pair that leaves the order open. -/
def adjacentIssue : List TraceSpan → Option String
  | left :: right :: rest =>
      let l := childInterval left
      let r := childInterval right
      if l.2 ≤ r.1 ∧ r.2 ≤ l.1 then
        some "equal child intervals make strict sequential ordering ambiguous"
      else if l.2 > r.1 then
        some "overlapping child spans outside conformance.parallel are unsupported"
      else adjacentIssue (right :: rest)
  | _ => none

/-- The children of a sequential parent in order, or why they have none. -/
def sequentialChildren (document : TraceDocument) (parent : TraceSpan) (side path : String) :
    Except Findings (List TraceSpan) :=
  if (children document parent).any fun span =>
      !(interval span).any fun (start, finish) => start ≤ finish then
    .error (Findings.error s!"{side}.{path}.children"
      "child spans require valid start/end intervals for strict ordering")
  else match adjacentIssue (sortedChildren document parent) with
    | some message => .error (Findings.error s!"{side}.{path}.children" message)
    | none => .ok (sortedChildren document parent)

/-- Compare the values of two ordered maps key by key. -/
def compareKeyed {κ : Type} [Ord κ] (place : κ → String)
    (recurse : TraceSpan → TraceSpan → String → Option Findings)
    (reference candidate : List (κ × TraceSpan)) : Option Findings :=
  (collect (fun key =>
      match lookup reference key, lookup candidate key with
      | some reference, some candidate => recurse reference candidate (place key)
      | some _, none => some (Findings.ofMismatches (mismatch (place key) present missing))
      | none, some _ => some (Findings.ofMismatches (mismatch (place key) missing present))
      | none, none => some Findings.none)
    (distinct (keys reference ++ keys candidate))).map Findings.concat

def identityEntries (document : TraceDocument) (parent : TraceSpan) :
    List (SpanIdentity × TraceSpan) :=
  (children document parent).map fun child => (spanIdentity child, child)

def identityErrors (document : TraceDocument) (parent : TraceSpan) (side path : String) :
    Findings :=
  repeatedKeys (fun identity => s!"{side}.{path}.parallel[{identity.display}]")
    "duplicate parallel branch semantic identity is ambiguous" []
    (keys (identityEntries document parent))

section Recursion

variable (reference candidate : TraceDocument) (registry : Option RegistrySet)

def compareParallel (recurse : TraceSpan → TraceSpan → String → Option Findings)
    (left right : TraceSpan) (path : String) : Option Findings :=
  let errors := identityErrors reference left "reference" path ++
    identityErrors candidate right "candidate" path
  if errors.errors ≠ [] then some errors
  else (compareKeyed (fun identity : SpanIdentity => s!"{path}.parallel[{identity.display}]")
    recurse (ofList (identityEntries reference left))
    (ofList (identityEntries candidate right))).map (errors ++ ·)

/-- Compare two sequences of children position by position. -/
def comparePositions (recurse : TraceSpan → TraceSpan → String → Option Findings) (path : String)
    (left right : List TraceSpan) : Option Findings :=
  (collect (fun position =>
      let childPath := s!"{path}.children[{position}]"
      match left[position]?, right[position]? with
      | some left, some right => recurse left right childPath
      | some left, none =>
          some (Findings.ofMismatches (mismatch childPath (spanIdentity left).display missing))
      | none, some right =>
          some (Findings.ofMismatches (mismatch childPath missing (spanIdentity right).display))
      | none, none => some Findings.none)
    (List.range (max left.length right.length))).map Findings.concat

def operationDeclaration (left right : TraceSpan) : Option Declaration :=
  let leftComponent := attributeString left "conformance.component.id"
  let rightComponent := attributeString right "conformance.component.id"
  let leftName := attributeString left "conformance.operation.name"
  let rightName := attributeString right "conformance.operation.name"
  if leftComponent = rightComponent ∧ leftName = rightName then
    registry.bind fun registry => findOperation registry leftComponent leftName
  else none

def compareOperation (descend : TraceSpan → TraceSpan → String → Option Findings)
    (left right : TraceSpan) (path : String) : Option Findings :=
  let leftComponent := attributeString left "conformance.component.id"
  let rightComponent := attributeString right "conformance.component.id"
  let leftName := attributeString left "conformance.operation.name"
  let rightName := attributeString right "conformance.operation.name"
  let declaration := operationDeclaration registry left right
  let mismatches :=
    (if leftComponent ≠ rightComponent then
      mismatch s!"{path}.component" leftComponent rightComponent else []) ++
    (if leftName ≠ rightName then mismatch s!"{path}.operation" leftName rightName else []) ++
    compareInputs left right declaration registry path ++
    compareEvents left.events right.events declaration registry path
  (descend left right path).map (Findings.ofMismatches mismatches ++ ·)

/-- Compare one pair of children; `descend` compares the children of both. -/
def compareChild (descend : TraceSpan → TraceSpan → String → Option Findings)
    (left right : TraceSpan) (path : String) : Option Findings :=
  if left.name ≠ right.name then
    some (Findings.ofMismatches (mismatch s!"{path}.span" left.name right.name))
  else if left.name = "conformance.operation" then
    let component := attributeString left "conformance.component.id"
    let name := attributeString left "conformance.operation.name"
    compareOperation registry descend left right s!"{path}.operation[{component}::{name}]"
  else if left.name = "conformance.parallel" then
    -- Two parallel spans: what `descend` does with them is the parallel comparison.
    (descend left right path).map
      (Findings.ofMismatches (compareEvents left.events right.events none registry path) ++ ·)
  else some (Findings.ofMismatches (mismatch s!"{path}.span" left.name right.name))

/-- Compare the children of two spans. `none` means that the descent was cut off. -/
def compareChildren : Nat → TraceSpan → TraceSpan → String → Option Findings
  | 0, _, _, _ => none
  | fuel + 1, left, right, path =>
      let recurse := compareChild registry (compareChildren fuel)
      if left.name = "conformance.parallel" ∨ right.name = "conformance.parallel" then
        compareParallel reference candidate recurse left right path
      else match sequentialChildren reference left "reference" path with
        | .error findings => some findings
        | .ok leftChildren =>
            match sequentialChildren candidate right "candidate" path with
            | .error findings => some findings
            | .ok rightChildren => comparePositions recurse path leftChildren rightChildren

def compareContainer (fuel : Nat) (left right : TraceSpan) (path : String) : Option Findings :=
  (compareChildren reference candidate registry fuel left right path).map
    (Findings.ofMismatches (compareEvents left.events right.events none registry path) ++ ·)

def runs (document : TraceDocument) : List TraceSpan :=
  document.spans.filter fun span => span.name == "conformance.run"

def runErrors (side : String) (document : TraceDocument) : Findings :=
  if (runs document).length ≠ 1 then
    Findings.error s!"{side}.run"
      s!"implicit run selection requires exactly one run, found {(runs document).length}"
  else Findings.none

def scenarioName (span : TraceSpan) : String :=
  (stringAttr span.attributes "conformance.scenario.name").getD ""

def scenarioEntries (document : TraceDocument) (run : TraceSpan) : List (String × TraceSpan) :=
  ((children document run).filter fun span => span.name == "conformance.scenario").map
    fun span => (scenarioName span, span)

def scenarioErrors (side : String) (document : TraceDocument) (run : TraceSpan) : Findings :=
  repeatedKeys (fun name => s!"{side}.scenario[{debugText name}]")
    "scenario names must be unique within a run" [] (keys (scenarioEntries document run))

/-- The comparison of two documents, and without a registry when there is none. -/
def compareDocuments : Option Findings :=
  let errors := runErrors "reference" reference ++ runErrors "candidate" candidate
  match runs reference, runs candidate with
  | left :: _, right :: _ =>
      if errors.errors ≠ [] then some errors
      else
        let fuel := reference.spans.length + 1
        (compareKeyed (fun name => s!"scenario[{debugText name}]")
          (compareContainer reference candidate registry fuel)
          (ofList (scenarioEntries reference left))
          (ofList (scenarioEntries candidate right))).map fun scenarios =>
            Findings.ofMismatches (compareEvents left.events right.events none registry "run") ++
              scenarioErrors "reference" reference left ++
              scenarioErrors "candidate" candidate right ++ scenarios
  | _, _ => some errors

end Recursion

/-- The verdict on two documents that passed validation. -/
def Findings.equivalent (findings : Findings) : Bool :=
  findings.errors.isEmpty && findings.mismatches.isEmpty

end SpecGate.Comparison

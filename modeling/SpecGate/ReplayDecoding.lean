import SpecGate.LinkedTraces
import SpecGate.RegistryLoading
import SpecGate.ReplayValues

/-!
Decoding of a capture bundle for replay: the manifest, the registry and the reference
trace, each checked against the others. The spans of the trace are checked one by one;
the top-level operations of every scenario, in the order of their start times, are what
replay invokes, and all operations together are what it observed. The readers of the
three documents and the digest are parameters.
-/
namespace SpecGate.ReplayDecoding

open Validation SortedAssoc Sorting Checked IntegerText ReplayModel ReplayValues
open RegistryLoading (Bytes Loaded)
open RegistryShape (ctscVersion registryFormat)

/-! ### Names of the wire contracts -/

def manifestFormat : String := "specgate.capture-manifest"
def manifestVersion : String := "0.1.0"
def registryPath : String := "registry.ctsc.json"
def referencePath : String := "reference.otlp.json"

def traceWidth : Nat := 32
def spanWidth : Nat := 16

def runSpan : String := "conformance.run"
def scenarioSpan : String := "conformance.scenario"
def operationSpan : String := "conformance.operation"
def parallelSpan : String := "conformance.parallel"

def resultEvent : String := "conformance.result"
def obsEvent : String := "conformance.observation"
def faultEvent : String := "conformance.fault"
def abandonedEvent : String := "conformance.abandoned"
def emptyEvent : String := "conformance.empty"
def errorEvent : String := "conformance.error"

/-! ### Attributes -/

/-- A list as a map, whose keys it must not repeat. -/
def uniqueMap (kind location : String) (map : KeyValues) : KeyValues → Except Failure KeyValues
  | [] => .ok map
  | (key, value) :: rest =>
      if SortedAssoc.contains map key then
        .error (message s!"{location} contains duplicate {kind} '{key}'")
      else uniqueMap kind location (insert key value map) rest

def attributeMap (attributes : KeyValues) (location : String) : Except Failure KeyValues :=
  uniqueMap "attribute" location [] attributes

def kvlistMap (entries : KeyValues) (location : String) : Except Failure KeyValues :=
  uniqueMap "key" location [] entries

def requireString (attributes : KeyValues) (key : String) (expected : Option String)
    (location : String) : Except Failure String :=
  match lookup attributes key with
  | none => .error (message s!"{location} is missing string attribute '{key}'")
  | some (.string value) =>
      match expected with
      | none => .ok value
      | some expected =>
          if value = expected then .ok value
          else .error (message
            s!"{location} attribute '{key}' is '{value}', expected '{expected}'")
  | some _ => .error (message s!"{location} attribute '{key}' must use stringValue")

def requireInteger (attributes : KeyValues) (key location : String) : Except Failure Int :=
  match lookup attributes key with
  | none => .error (message s!"{location} is missing integer attribute '{key}'")
  | some (.int text) =>
      match parseI64 text with
      | .ok value => .ok value
      | .error error => .error (message
          s!"{location} attribute '{key}' is not an i64 decimal integer: {error.text}")
  | some _ => .error (message s!"{location} attribute '{key}' must use intValue")

def validateId (value : String) (length : Nat) (label : String) : Except Failure Unit :=
  ensure (value.toList.length == length && value.toList.any (· != '0') &&
      value.toList.all isHexDigit)
    (message (s!"reference {label} '{value}' must be {length} lowercase hexadecimal " ++
      "characters and nonzero"))

def parseTime (value location : String) : Except Failure Int :=
  match parseI64 value with
  | .error error => .error (message
      s!"{location} startTimeUnixNano is not an i64 decimal integer: {error.text}")
  | .ok parsed =>
      if parsed < 0 then
        .error (message s!"{location} startTimeUnixNano must be non-negative")
      else .ok parsed

/-- An identity text must not be empty. -/
def identity (kind value : String) : Except Failure String :=
  if value = "" then .error (message s!"{kind} must not be empty") else .ok value

/-! ### Decoded operations and scenarios -/

structure Input where
  name : String
  valueType : ReplayType
  value : Value

structure Operation where
  componentId : String
  operationName : String
  inputs : List Input
  output : Option ReplayType

structure Scenario where
  name : String
  index : Int
  operations : List Operation

structure Decoded where
  scenarios : List Scenario
  observedOperations : List Operation

/-! ### Operations -/

def declarationName (declaration : RegistryOp) : String :=
  s!"{declaration.componentId}::{declaration.name}"

def findDeclaration (registry : Registry) (componentId operationName : String) :
    Option RegistryOp :=
  registry.operations.find? fun operation =>
    componentId == operation.componentId && operationName == operation.name

def decodeInput (declaration : RegistryOp) (values : KeyValues) (location : String)
    (input : RegistryInput) : Except Failure Input := do
  let value ← okOr (lookup values input.1) (message
    (s!"reference {location} is missing declared input '{input.1}' for " ++
      s!"'{declarationName declaration}'"))
  let decoded ← decodeValue input.2 value s!"{location} input '{input.1}'"
  return ⟨input.1, input.2, decoded⟩

/-- Every name of the recorded inputs has to be declared. -/
def checkDeclared (declaration : RegistryOp) (location : String) :
    List String → Except Failure Unit
  | [] => .ok ()
  | actual :: rest =>
      if declaration.inputs.any fun input => input.1 == actual then
        checkDeclared declaration location rest
      else .error (message
        (s!"reference {location} contains undeclared input '{actual}' for " ++
          s!"'{declarationName declaration}'"))

def decodeInputs (declaration : RegistryOp) (attributes : KeyValues) (location : String) :
    Except Failure (List Input) :=
  match lookup attributes "conformance.operation.inputs" with
  | none => .error (message s!"reference {location} is missing conformance.operation.inputs")
  | some (.kvlist entries) => do
      let values ← kvlistMap entries s!"{location} inputs"
      ensure (values.length == declaration.inputs.length) (message
        (s!"reference {location} input names do not match registry operation " ++
          s!"'{declarationName declaration}'"))
      let inputs ← mapAll (decodeInput declaration values location) declaration.inputs
      checkDeclared declaration location (SortedAssoc.keys values)
      return inputs
  | some _ => .error (message s!"reference {location} operation inputs must use kvlistValue")

/-- The terminal events of an operation so far. -/
structure Tally where
  resultCount : Nat
  emptyCount : Nat
  errorCount : Nat
  hasFault : Bool
  hasAbandoned : Bool

namespace Tally

def start : Tally := ⟨0, 0, 0, false, false⟩

def terminalCount (tally : Tally) : Nat :=
  tally.resultCount + tally.emptyCount + tally.errorCount + tally.hasFault.toNat +
    tally.hasAbandoned.toNat

end Tally

/-- An outcome value is decoded where its declared type is primitive. -/
def checkPrimitive (type : ReplayType) (value : AnyValue) (location : String) :
    Except Failure Unit :=
  if type.primitiveName.isSome then (decodeValue type value location).map fun _ => ()
  else .ok ()

def checkResult (declaration : RegistryOp) (location : String) (event : Event) :
    Except Failure Unit := do
  let output ← okOr declaration.output (message
    (s!"reference {location} emits a result but registry operation " ++
      s!"'{declarationName declaration}' declares no result"))
  let attributes ← attributeMap event.attributes s!"{location} result"
  let value ← okOr (lookup attributes "conformance.result.value") (message
    s!"reference {location} result is missing conformance.result.value")
  checkPrimitive output value s!"{location} result"

def rejectObservation (location : String) (event : Event) : Except Failure Unit := do
  let attributes ← attributeMap event.attributes s!"{location} observation"
  let name ← requireString attributes "conformance.observation.name" none
    s!"{location} observation"
  .error (message (s!"reference {location} contains unsupported observation '{name}' " ++
    "in the first replay slice"))

def checkErrorValue (declared : Outcome) (value : Option AnyValue) (location : String) :
    Except Failure Unit :=
  match declared.valueType, value with
  | some type, some value => checkPrimitive type value s!"{location} error '{declared.name}'"
  | some _, none =>
      .error (message s!"reference {location} error '{declared.name}' is missing its value")
  | none, some _ =>
      .error (message s!"reference {location} error '{declared.name}' declares no value")
  | none, none => .ok ()

def checkError (declaration : RegistryOp) (location : String) (event : Event) :
    Except Failure Unit := do
  let attributes ← attributeMap event.attributes s!"{location} error"
  let name ← requireString attributes "conformance.error.name" none s!"{location} error"
  let declared ← okOr (declaration.errors.find? fun error => error.name == name) (message
    (s!"reference {location} emits undeclared error '{name}' for " ++
      s!"'{declarationName declaration}'"))
  checkErrorValue declared (lookup attributes "conformance.error.value") location

def decodeEvent (declaration : RegistryOp) (location : String) (tally : Tally) (event : Event) :
    Except Failure Tally :=
  if event.name = resultEvent then
    (checkResult declaration location event).map fun _ =>
      { tally with resultCount := tally.resultCount + 1 }
  else if event.name = obsEvent then
    (rejectObservation location event).map fun _ => tally
  else if event.name = faultEvent then .ok { tally with hasFault := true }
  -- Abandonment ends an operation without an outcome, as a fault does.
  else if event.name = abandonedEvent then .ok { tally with hasAbandoned := true }
  else if event.name = emptyEvent then
    if declaration.empty then .ok { tally with emptyCount := tally.emptyCount + 1 }
    else .error (message
      (s!"reference {location} emits empty but registry operation " ++
        s!"'{declarationName declaration}' does not declare it"))
  else if event.name = errorEvent then
    (checkError declaration location event).map fun _ =>
      { tally with errorCount := tally.errorCount + 1 }
  else .error (message
    s!"reference {location} contains unsupported CTSC event '{event.name}'")

def decodeEvents (declaration : RegistryOp) (location : String) (tally : Tally) :
    List Event → Except Failure Tally
  | [] => .ok tally
  | event :: rest =>
      decodeEvent declaration location tally event >>= fun tally =>
        decodeEvents declaration location tally rest

def decodeOperation (registry : Registry) (span : Span) : Except Failure Operation := do
  let location := s!"operation span '{span.spanId}'"
  let attributes ← attributeMap span.attributes location
  let componentText ← requireString attributes "conformance.component.id" none location
  let componentId ← identity "ComponentId" componentText
  let nameText ← requireString attributes "conformance.operation.name" none location
  let operationName ← identity "OperationName" nameText
  let declaration ← okOr (findDeclaration registry componentId operationName) (message
    s!"reference {location} names unknown operation '{componentId}::{operationName}'")
  let inputs ← decodeInputs declaration attributes location
  let tally ← decodeEvents declaration location .start span.events
  ensure (tally.terminalCount ≤ 1)
    (message s!"reference {location} contains multiple terminal events")
  ensure (declaration.output.isNone || tally.terminalCount != 0) (message
    (s!"reference {location} has no result or fault for result-bearing operation " ++
      s!"'{declarationName declaration}'"))
  return ⟨componentId, operationName, inputs, declaration.output⟩

/-! ### Spans -/

abbrev SpanKey := String × String

def spanKey (span : Span) : SpanKey := (span.traceId, span.spanId)

def parentKey (span : Span) : SpanKey := (span.traceId, span.parentSpanId)

def IsOperation (span : Span) : Prop := span.name = operationSpan

instance : DecidablePred IsOperation := fun span =>
  inferInstanceAs (Decidable (span.name = operationSpan))

/-- The span with the given IDs; no two spans share them by then. -/
def byId (spans : List Span) (key : SpanKey) : Option Span :=
  spans.find? fun span => spanKey span == key

/-- The checks of each span on its own, after those with the given IDs. -/
def checkSpans (seen : List SpanKey) : List Span → Except Failure Unit
  | [] => .ok ()
  | span :: rest => do
      validateId span.traceId traceWidth "trace ID"
      validateId span.spanId spanWidth "span ID"
      ensure (spanKey span ∉ seen) (message
        (s!"reference OTLP contains duplicate span ID '{span.spanId}' in trace " ++
          s!"'{span.traceId}'"))
      let _ ← parseTime span.startTimeUnixNano s!"span '{span.spanId}'"
      checkSpans (spanKey span :: seen) rest

def checkRuns (spans : List Span) : Except Failure Unit :=
  let runs := spans.filter fun span => span.name == runSpan
  ensure (runs.length == 1 && runs.all fun run => run.parentSpanId == "") (message
    ("reference OTLP must contain exactly one root conformance.run span, found " ++
      s!"{runs.length}"))

structure ScenarioRef where
  traceId : String
  spanId : String
  name : String
  index : Int
  position : Nat

def scenarioRef (spans : List Span) (entry : Span × Nat) : Except Failure ScenarioRef := do
  let span := entry.1
  let location := s!"scenario span '{span.spanId}'"
  let parent ← okOr (byId spans (parentKey span))
    (message s!"{location} has an unresolved parent")
  ensure (parent.name == runSpan) (message s!"{location} parent is not conformance.run")
  let attributes ← attributeMap span.attributes location
  let text ← requireString attributes "conformance.scenario.name" none location
  let name ← identity "ScenarioName" text
  let index ← requireInteger attributes "conformance.scenario.index" location
  ensure (0 ≤ index) (message s!"scenario '{name}' has negative index {index}")
  return ⟨span.traceId, span.spanId, name, index, entry.2⟩

/-- The scenario indexes count up from the expected one. -/
def checkIndexes (expected : Nat) : List ScenarioRef → Except Failure Unit
  | [] => .ok ()
  | scenario :: rest => do
      ensure (scenario.index == expected) (message
        ("reference scenario indexes must be unique and contiguous from zero; expected " ++
          s!"{expected}, found {scenario.index}"))
      checkIndexes (expected + 1) rest

def debugTexts (texts : List String) : String :=
  "[" ++ String.intercalate ", " (texts.map debugText) ++ "]"

/-- An operation under the IDs of its parent, with its times. -/
structure OperationRef where
  parent : SpanKey
  start : Int
  finish : Int
  key : SpanKey
  operation : Operation

def operationRef (spans : List Span) (registry : Registry) (span : Span) :
    Except Failure OperationRef := do
  let parent ← okOr (byId spans (parentKey span))
    (message s!"operation span '{span.spanId}' has an unresolved parent")
  ensure (parent.name == scenarioSpan || parent.name == operationSpan) (message
    (s!"operation span '{span.spanId}' parent '{parent.name}' is not a scenario or " ++
      "operation"))
  ensure (!(parent.name == scenarioSpan && span.events.any fun event =>
      event.name == abandonedEvent)) (scheduling
    ("unsupported async replay scheduling: a top-level abandoned operation cannot be " ++
      "awaited to completion"))
  let start ← parseTime span.startTimeUnixNano "operation start"
  let finish ← parseTime span.endTimeUnixNano "operation end"
  let operation ← decodeOperation registry span
  return ⟨parentKey span, start, finish, spanKey span, operation⟩

/-- Whether an interval ends after the next one begins. -/
def overlapping : List (Int × Int) → Bool
  | first :: second :: rest => second.1 < first.2 || overlapping (second :: rest)
  | _ => false

/-- The intervals of the operations under one parent. -/
def siblingIntervals (operations : List OperationRef) (parent : SpanKey) : List (Int × Int) :=
  (operations.filter fun operation => operation.parent == parent).map fun operation =>
    (operation.start, operation.finish)

def checkSiblings (operations : List OperationRef) : Except Failure Unit :=
  ensure (!operations.any fun operation =>
      overlapping (sort (siblingIntervals operations operation.parent))) (scheduling
    ("unsupported async replay scheduling: overlapping sibling operations outside " ++
      "conformance.parallel"))

/-- The place of a top-level operation in its scenario. -/
def startKey (entry : Span × Nat) : Except Failure ((Int × Nat) × Span) :=
  match parseTime entry.1.startTimeUnixNano "top-level operation" with
  | .ok start => .ok ((start, entry.2), entry.1)
  | .error _ =>
      .error (.panic "top-level operation timestamps were validated before sorting")

def IsTopLevel (scenario : ScenarioRef) (span : Span) : Prop :=
  IsOperation span ∧ span.traceId = scenario.traceId ∧ span.parentSpanId = scenario.spanId

instance (scenario : ScenarioRef) : DecidablePred (IsTopLevel scenario) := fun span =>
  inferInstanceAs (Decidable (IsOperation span ∧ _))

/-- The top-level operation spans of a scenario in the order in which replay invokes them. -/
def topLevel (spans : List Span) (scenario : ScenarioRef) : Except Failure (List Span) := do
  let keyed ← mapAll startKey (spans.zipIdx.filter fun entry => IsTopLevel scenario entry.1)
  return (sortBy Prod.fst keyed).map Prod.snd

def assembleScenario (spans : List Span) (decoded : List (SpanKey × Operation))
    (scenario : ScenarioRef) : Except Failure Scenario := do
  let selected ← topLevel spans scenario
  ensure (!selected.isEmpty) (message
    s!"reference scenario '{scenario.name}' contains no top-level operations")
  let operations ← mapAll (fun span => okOr (lookup decoded (spanKey span)) (.panic
    "every validated operation span was decoded before scenario assembly")) selected
  return ⟨scenario.name, scenario.index, operations⟩

/-- The resource names the contract version, its tool and target, and the registry. -/
def checkResource (resource : KeyValues) (registry : Registry) : Except Failure Unit := do
  let location := "reference resource"
  let attributes ← attributeMap resource location
  let _ ← requireString attributes "conformance.version" (some ctscVersion) location
  let _ ← requireString attributes "conformance.tool.name" none location
  let _ ← requireString attributes "conformance.tool.version" none location
  let _ ← requireString attributes "conformance.target.name" none location
  let _ ← requireString attributes "conformance.target.language" none location
  let _ ← requireString attributes "conformance.registry.id" (some registry.identity.id) location
  let _ ← requireString attributes "conformance.registry.version"
    (some registry.identity.version) location
  let _ ← requireString attributes "conformance.registry.digest"
    (some registry.identity.digest) location
  return ()

def decodeSpans (spans : List Span) (scenarioNames : List String) (registry : Registry) :
    Except Failure Decoded := do
  ensure (!spans.isEmpty) (message "reference OTLP contains no spans")
  checkSpans [] spans
  checkRuns spans
  let found ← mapAll (scenarioRef spans)
    (spans.zipIdx.filter fun entry => entry.1.name == scenarioSpan)
  let scenarios := sortBy (fun scenario => (scenario.index, scenario.position)) found
  checkIndexes 0 scenarios
  let traceNames := scenarios.map ScenarioRef.name
  ensure (traceNames == scenarioNames) (message
    (s!"reference scenario order/names {debugTexts traceNames} do not match capture " ++
      s!"manifest {debugTexts scenarioNames}"))
  let operations ← mapAll (operationRef spans registry)
    (spans.filter fun span => IsOperation span)
  checkSiblings operations
  ensure (!spans.any fun span => span.name == parallelSpan) (message
    "reference OTLP parallel spans are unsupported by the first replay slice")
  let decoded := ofList (operations.map fun operation => (operation.key, operation.operation))
  let assembled ← mapAll (assembleScenario spans decoded) scenarios
  return ⟨assembled, decoded.map Prod.snd⟩

def decodeScenarios (document : OtlpDoc) (scenarioNames : List String) (registry : Registry) :
    Except Failure Decoded :=
  match document.resourceSpans with
  | [resource] => do
      checkResource resource.attributes registry
      decodeSpans resource.scopeSpans.flatten scenarioNames registry
  | resources => .error (message
      ("reference OTLP must contain exactly one resourceSpans entry, found " ++
        s!"{resources.length}"))

/-! ### Manifest and registry -/

/-- A syntactically valid SHA-256 artifact digest. -/
structure Digest where
  text : String
  valid : isDigest text = true

/-- The capture manifest as it stands in its file. -/
structure Manifest where
  format : String
  formatVersion : String
  componentId : String
  targetName : String
  targetLanguage : String
  toolName : String
  toolVersion : String
  registryPath : String
  registryId : String
  registryVersion : String
  registryDigest : Digest
  referencePath : String
  referenceDigest : Digest
  scenarioCount : Int
  scenarioNames : List String

def validateManifest (manifest : Manifest) : Except Failure Unit := do
  ensure (manifest.format == manifestFormat && manifest.formatVersion == manifestVersion)
    (message (s!"unsupported capture manifest format/version '{manifest.format}/" ++
      s!"{manifest.formatVersion}'; expected '{manifestFormat}/{manifestVersion}'"))
  ensure (manifest.registryPath == registryPath) (message
    (s!"capture manifest registry path must be '{registryPath}', found " ++
      s!"'{manifest.registryPath}'"))
  ensure (manifest.referencePath == referencePath) (message
    (s!"capture manifest reference path must be '{referencePath}', found " ++
      s!"'{manifest.referencePath}'"))
  ensure ([manifest.componentId, manifest.targetName, manifest.targetLanguage,
      manifest.toolName, manifest.toolVersion, manifest.registryId,
      manifest.registryVersion].all fun text => text != "")
    (message "capture manifest identity fields must not be empty")
  ensure (manifest.scenarioNames.length < 2 ^ 31)
    (message "capture manifest scenario count exceeds i32")
  ensure (manifest.scenarioCount == manifest.scenarioNames.length) (message
    (s!"capture manifest scenario count {manifest.scenarioCount} does not match " ++
      s!"{manifest.scenarioNames.length} scenario names"))
  ensure (0 < manifest.scenarioCount)
    (message "capture manifest must declare at least one scenario")
  ensure manifest.scenarioNames.Nodup
    (message "capture manifest contains duplicate scenario names")

structure WireOperation where
  name : String
  inputs : List RegistryInput
  result : Option ReplayType
  empty : Option Bool
  errors : List Outcome

structure Component where
  id : String
  operations : List WireOperation

structure RegistryDoc where
  format : String
  formatVersion : String
  registryId : String
  version : String
  components : List Component

/-- The operations of a component, after those with the given keys. -/
def decodeDeclarations (componentId : String) (seen : List (String × String)) :
    List WireOperation → Except Failure (List RegistryOp)
  | [] => .ok []
  | operation :: rest => do
      ensure (operation.name != "" && decide ((componentId, operation.name) ∉ seen)) (message
        (s!"CTSC registry contains an empty or duplicate operation '{componentId}::" ++
          s!"{operation.name}'"))
      ensure (operation.inputs.map Prod.fst).Nodup (message
        (s!"CTSC registry operation '{componentId}::{operation.name}' contains duplicate " ++
          "input names"))
      ensure (operation.errors.map Outcome.name).Nodup
        (message "registry operation errors must have unique names")
      let others ← decodeDeclarations componentId ((componentId, operation.name) :: seen) rest
      return ⟨componentId, operation.name, operation.inputs, operation.result,
        operation.empty.getD false, operation.errors⟩ :: others

/-- The components after those with the given IDs. -/
def decodeComponents (seen : List String) : List Component → Except Failure (List RegistryOp)
  | [] => .ok []
  | component :: rest => do
      ensure (component.id != "" && decide (component.id ∉ seen)) (message
        s!"CTSC registry contains an empty or duplicate component ID '{component.id}'")
      let operations ← decodeDeclarations component.id [] component.operations
      let others ← decodeComponents (component.id :: seen) rest
      return operations ++ others

def decodeRegistry (document : RegistryDoc) (digest : Digest) : Except Failure Registry := do
  let operations ← decodeComponents [] document.components
  ensure (!operations.isEmpty) (message "CTSC registry contains no operations")
  let id ← identity "RegistryId" document.registryId
  let version ← identity "RegistryVersion" document.version
  return ⟨⟨id, version, digest.text⟩, operations⟩

/-! ### Bundles -/

/-- The readers of the three documents, and the digest of exact bytes. -/
structure Readers where
  manifest : Bytes → Except String Manifest
  registry : Bytes → Except String RegistryDoc
  document : Bytes → Except String OtlpDoc
  sha256Digest : Bytes → Digest
  loadRegistry : Bytes → Loaded RegistryModel.RegistrySet
  loadTrace : Bytes → Loaded TraceModel.TraceDocument

/-- The issues of the trace against the registry it was captured with. -/
def validateLinked (readers : Readers) (trace registry : Bytes) : List ValidationIssue :=
  let loaded := readers.loadRegistry registry
  let parsed := readers.loadTrace trace
  match loaded.issues ++ parsed.issues with
  | [] =>
      match loaded.value, parsed.value with
      | some set, some trace => LinkedTraces.checkLinked trace set
      | _, _ => []
  | issues => issues

/-- An outcome whose type is not primitive. -/
def structured (type : Option ReplayType) : Bool :=
  match type with
  | some type => type.primitiveName.isNone
  | none => false

def structuredOutcomes (registry : Registry) : Bool :=
  registry.operations.any fun operation =>
    structured operation.output || operation.errors.any fun error => structured error.valueType

def debugIssue (found : ValidationIssue) : String :=
  "ValidationIssue \x7b location: " ++ debugText found.location ++ ", message: " ++
    debugText found.message ++ " \x7d"

def debugIssues (issues : List ValidationIssue) : String :=
  "[" ++ String.intercalate ", " (issues.map debugIssue) ++ "]"

def readJson {α : Type} (result : Except String α) (diagnostic : String) : Except Failure α :=
  match result with
  | .ok value => .ok value
  | .error source => .error (.error (.json diagnostic source))

structure Bundle where
  componentId : String
  registry : Registry
  registryDocument : Bytes
  scenarios : List Scenario
  observedOperations : List Operation

def checkDigest (kind : String) (declared computed : Digest) : Except Failure Unit :=
  ensure (declared.text == computed.text) (message
    (s!"capture {kind} digest mismatch: manifest declares '{declared.text}' but exact " ++
      s!"{kind} bytes digest to '{computed.text}'"))

def checkRegistryDoc (manifest : Manifest) (document : RegistryDoc) : Except Failure Unit := do
  ensure (document.format == registryFormat && document.formatVersion == ctscVersion) (message
    (s!"unsupported CTSC registry format/version '{document.format}/" ++
      s!"{document.formatVersion}'; expected '{registryFormat}/{ctscVersion}'"))
  ensure (document.registryId == manifest.registryId) (message
    (s!"capture manifest registry ID '{manifest.registryId}' does not match registry " ++
      s!"document '{document.registryId}'"))
  ensure (document.version == manifest.registryVersion) (message
    (s!"capture manifest registry version '{manifest.registryVersion}' does not match " ++
      s!"registry document '{document.version}'"))

/-- Traces with outcomes that replay does not decode itself are validated as a whole. -/
def checkOutcomes (readers : Readers) (registry : Registry) (trace registryBytes : Bytes) :
    Except Failure Unit :=
  let issues := validateLinked readers trace registryBytes
  ensure (!structuredOutcomes registry || issues.isEmpty) (message
    s!"structured replay outcomes failed linked validation: {debugIssues issues}")

def decode (readers : Readers) (manifestBytes registryBytes traceBytes : Bytes) :
    Except Failure Bundle := do
  let manifest ← readJson (readers.manifest manifestBytes) "malformed capture manifest JSON"
  validateManifest manifest
  let registryDigest := readers.sha256Digest registryBytes
  checkDigest "registry" manifest.registryDigest registryDigest
  checkDigest "reference" manifest.referenceDigest (readers.sha256Digest traceBytes)
  let registryDoc ← readJson (readers.registry registryBytes) "malformed CTSC registry JSON"
  checkRegistryDoc manifest registryDoc
  let registry ← decodeRegistry registryDoc registryDigest
  checkOutcomes readers registry traceBytes registryBytes
  ensure (registry.operations.any fun operation => operation.componentId == manifest.componentId)
    (message (s!"capture component '{manifest.componentId}' is absent from registry " ++
      s!"'{registry.identity.id}'"))
  let document ← readJson (readers.document traceBytes) "malformed reference OTLP JSON"
  let decoded ← decodeScenarios document manifest.scenarioNames registry
  let componentId ← identity "ComponentId" manifest.componentId
  return ⟨componentId, registry, registryBytes, decoded.scenarios, decoded.observedOperations⟩

end SpecGate.ReplayDecoding

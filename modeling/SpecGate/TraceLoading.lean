import SpecGate.OtlpSchema
import SpecGate.RegistryShape
import SpecGate.TraceValidation

/-!
The trace loader over JSON documents. The spans of the protocol are collected from every
resource and scope group of every batch, in document order; what cannot be read is reported
and left out. Of an event the loader keeps the name and the attributes.
-/
namespace SpecGate.TraceLoading

open JsonTrees Validation TraceFields OtlpScalars SortedAssoc
open Values (AnyValue)
open TraceModel TraceValidation
open RegistryShape (ctscVersion)

/-! ### Fields -/

def asObject : Json → Option (List (String × Json))
  | .object entries => some entries
  | _ => none

def isNull : Json → Bool
  | .null => true
  | _ => false

/-- Add one attribute to those read before. -/
def parseAttribute (readers : NumberReaders) (path location : String) (index : Nat)
    (result : Attributes) (item : Json) : Attributes × List ValidationIssue :=
  let itemLocation := s!"{location}.attributes[{index}]"
  match asObject item with
  | none => (result, issue (located path itemLocation) "attribute must be an object")
  | some entry =>
      match (jsonField entry "key").bind asString with
      | none => (result, issue (located path itemLocation) "attribute key must be a string")
      | some key =>
          if SortedAssoc.contains result key then
            (result, issue (located path location) s!"duplicate attribute key '{key}'")
          else
            match jsonField entry "value" with
            | none => (result, issue (located path s!"{location}.{key}")
                "attribute value must be an AnyValue")
            | some raw =>
                let parsed := parseValue readers path raw s!"{location}.{key}"
                match parsed.1 with
                | some value => (SortedAssoc.insert key value result, parsed.2)
                | none => (result, parsed.2)

def parseAttributesFrom (readers : NumberReaders) (path location : String) (index : Nat)
    (result : Attributes) : List Json → Attributes × List ValidationIssue
  | [] => (result, [])
  | item :: rest =>
      let parsed := parseAttribute readers path location index result item
      let others := parseAttributesFrom readers path location (index + 1) parsed.1 rest
      (others.1, parsed.2 ++ others.2)

def parseAttributes (readers : NumberReaders) (value : Option Json) (path location : String) :
    Attributes × List ValidationIssue :=
  match value with
  | none | some .null => ([], [])
  | some (.array attributes) => parseAttributesFrom readers path location 0 [] attributes
  | some _ => ([], issue (located path s!"{location}.attributes") "attributes must be an array")

def arrayField (object : List (String × Json)) (key path location : String) :
    List Json × List ValidationIssue :=
  match jsonField object key with
  | none | some .null => ([], [])
  | some (.array values) => (values, [])
  | some _ => ([], issue (located path s!"{location}.{key}") s!"{key} must be an array")

def stringField (object : List (String × Json)) (key path location : String) :
    Option String × List ValidationIssue :=
  match (jsonField object key).bind asString with
  | some value => (some value, [])
  | none => (none, issue (located path s!"{location}.{key}") s!"{key} must be a string")

def optionalString (object : List (String × Json)) (key path location : String) :
    Option String × List ValidationIssue :=
  match jsonField object key with
  | none | some .null => (none, [])
  | some (.string value) => (some value, [])
  | some _ => (none, issue (located path s!"{location}.{key}") s!"{key} must be a string")

/-- A text that was read, in the hexadecimal form of the mapping. -/
def hexText (value : Option String × List ValidationIssue) (key path location : String) :
    Option String × List ValidationIssue :=
  match value.1 with
  | none => (none, value.2)
  | some text =>
      match normalizeHex text with
      | some id => (some id, value.2)
      | none => (none, value.2 ++ issue (located path s!"{location}.{key}")
          s!"{key} must use the OTLP hexadecimal bytes mapping")

def idField (object : List (String × Json)) (key path location : String) :
    Option String × List ValidationIssue :=
  hexText (stringField object key path location) key path location

def optionalId (object : List (String × Json)) (key path location : String) :
    Option String × List ValidationIssue :=
  hexText (optionalString object key path location) key path location

def timeField (readers : NumberReaders) (object : List (String × Json))
    (key path location : String) : Option Nat × List ValidationIssue :=
  match jsonField object key with
  | none | some .null => (none, [])
  | some value =>
      match parseU64 readers value with
      | some time => (some time.toNat, [])
      | none => (none, issue (located path s!"{location}.{key}")
          s!"{key} must be an unsigned decimal integer")

def validateZero (readers : NumberReaders) (object : List (String × Json))
    (key path location : String) : List ValidationIssue :=
  match jsonField object key with
  | none | some .null => []
  | some value =>
      requireAt (parseU32 readers value == some 0) (located path location)
        s!"{key} must be a valid uint32 zero"

/-! ### Spans -/

def statusOk : Int := 1

def statusError : Int := 2

/-- The integer form of a status code, as JSON holds it. -/
def asI64 : Json → Option Int
  | .number (.integer value) => some value
  | _ => none

def parseStatus (object : List (String × Json)) : SpanStatus :=
  match ((jsonField object "status").bind asObject).bind fun status => jsonField status "code" with
  | none => .unset
  | some code =>
      if asI64 code = some statusOk ∨ asString code = some "STATUS_CODE_OK" then .ok
      else if asI64 code = some statusError ∨ asString code = some "STATUS_CODE_ERROR" then .error
      else .unset

/-- One event; without a name it is left out. -/
def parseEvent (readers : NumberReaders) (path location : String) (value : Json) :
    Option TraceEvent × List ValidationIssue :=
  match asObject value with
  | none => (none, issue (located path location) "event must be an object")
  | some event =>
      let dropped := validateZero readers event "droppedAttributesCount" path location
      let name := stringField event "name" path location
      match name.1 with
      | none => (none, dropped ++ name.2)
      | some text =>
          let attributes := parseAttributes readers (jsonField event "attributes") path location
          (some ⟨text, attributes.1⟩, dropped ++ name.2 ++ attributes.2)

def parseEventsFrom (readers : NumberReaders) (path location : String) (index : Nat) :
    List Json → List TraceEvent × List ValidationIssue
  | [] => ([], [])
  | value :: rest =>
      let event := parseEvent readers path s!"{location}.events[{index}]" value
      let others := parseEventsFrom readers path location (index + 1) rest
      (event.1.toList ++ others.1, event.2 ++ others.2)

/-- A span; without its identifiers or its name it is left out. -/
def parseSpan (readers : NumberReaders) (value : List (String × Json))
    (resourceAttributes : Attributes) (path location : String) :
    Option TraceSpan × List ValidationIssue :=
  let dropped := ["droppedAttributesCount", "droppedEventsCount", "droppedLinksCount"].flatMap
    fun key => validateZero readers value key path location
  let traceId := idField value "traceId" path location
  match traceId.1 with
  | none => (none, dropped ++ traceId.2)
  | some trace =>
      let spanId := idField value "spanId" path location
      match spanId.1 with
      | none => (none, dropped ++ traceId.2 ++ spanId.2)
      | some id =>
          let parentId := optionalId value "parentSpanId" path location
          let name := stringField value "name" path location
          match name.1 with
          | none => (none, dropped ++ traceId.2 ++ spanId.2 ++ parentId.2 ++ name.2)
          | some text =>
              let startTime := timeField readers value "startTimeUnixNano" path location
              let endTime := timeField readers value "endTimeUnixNano" path location
              let attributes :=
                parseAttributes readers (jsonField value "attributes") path location
              let values := arrayField value "events" path location
              let events := parseEventsFrom readers path location 0 values.1
              (some {
                  traceId := trace
                  spanId := id
                  parentSpanId := parentId.1.getD ""
                  name := text
                  startTime := startTime.1
                  endTime := endTime.1
                  attributes := attributes.1
                  events := events.1
                  status := parseStatus value
                  resourceAttributes := resourceAttributes
                  location := located path location },
                dropped ++ traceId.2 ++ spanId.2 ++ parentId.2 ++ name.2 ++ startTime.2 ++
                  endTime.2 ++ attributes.2 ++ values.2 ++ events.2)

/-! ### Groups -/

def requiredAttrs : List String :=
  ["conformance.version", "conformance.tool.name", "conformance.tool.version",
    "conformance.target.name", "conformance.target.language"]

def registryAttrs : List String :=
  ["conformance.registry.id", "conformance.registry.version", "conformance.registry.digest",
    "conformance.registry.uri"]

def resourceAttrs : List String := requiredAttrs ++ registryAttrs

/-- An object of a span of the protocol, with its place. -/
abbrev RawSpan := List (String × Json) × String

/-- The spans of the protocol in one scope group; the name is looked up under its one
spelling. -/
def scopeSpansFrom (path location : String) (index : Nat) :
    List Json → List RawSpan × List ValidationIssue
  | [] => ([], [])
  | value :: rest =>
      let spanLocation := s!"{location}.spans[{index}]"
      let others := scopeSpansFrom path location (index + 1) rest
      match asObject value with
      | none => (others.1, issue (located path spanLocation) "span must be an object" ++ others.2)
      | some span =>
          if ((Json.field span "name").bind asString).any fun name => decide (name ∈ ctscSpans) then
            ((span, spanLocation) :: others.1, others.2)
          else others

/-- What is checked of the scope of a group that has spans. -/
def validateScope (readers : NumberReaders) (scope : List (String × Json))
    (path location : String) : List ValidationIssue :=
  match jsonField scope "scope" with
  | none | some .null => []
  | some (.object instrumentationScope) =>
      let attributes :=
        parseAttributes readers (jsonField instrumentationScope "attributes") path location
      validateZero readers instrumentationScope "droppedAttributesCount" path location ++
        attributes.2 ++ rejectAttrs attributes.1 [] (located path location)
  | some _ => issue (located path location) "scope must be an object"

def scopesFrom (readers : NumberReaders) (path location : String) (index : Nat) :
    List Json → List RawSpan × List ValidationIssue
  | [] => ([], [])
  | value :: rest =>
      let scopeLocation := s!"{location}.scopeSpans[{index}]"
      let others := scopesFrom readers path location (index + 1) rest
      match asObject value with
      | none =>
          (others.1,
            issue (located path scopeLocation) "scopeSpans item must be an object" ++ others.2)
      | some scope =>
          let values := arrayField scope "spans" path scopeLocation
          let spans := scopeSpansFrom path scopeLocation 0 values.1
          let checked :=
            if spans.1.isEmpty then [] else validateScope readers scope path s!"{scopeLocation}.scope"
          (spans.1 ++ others.1, values.2 ++ spans.2 ++ checked ++ others.2)

def versionIssues (attributes : Attributes) (path location : String) : List ValidationIssue :=
  requiredAttrs.flatMap fun key =>
    let actual := requireStr attributes key location
    actual.2 ++
      if key = "conformance.version" ∧ actual.1.any (· != ctscVersion) = true then
        issue (located path location) s!"conformance.version must be '{ctscVersion}'"
      else []

def parseSpans (readers : NumberReaders) (resourceAttributes : Attributes) (path : String) :
    List RawSpan → List TraceSpan × List ValidationIssue
  | [] => ([], [])
  | (raw, location) :: rest =>
      let span := parseSpan readers raw resourceAttributes path location
      let others := parseSpans readers resourceAttributes path rest
      (span.1.toList ++ others.1, span.2 ++ others.2)

/-- The resource of a group with spans, and the spans with its attributes. -/
def parseResource (readers : NumberReaders) (group : List (String × Json)) (path location : String)
    (rawSpans : List RawSpan) : List TraceSpan × List ValidationIssue :=
  let field := s!"{location}.resource"
  let value := jsonField group "resource"
  let resource := value.bind asObject
  let shape :=
    if value.any fun value => (asObject value).isNone && !isNull value then
      issue (located path field) "resource must be an object"
    else []
  let dropped := resource.elim [] fun resource =>
    validateZero readers resource "droppedAttributesCount" path field
  let attributes :=
    parseAttributes readers (resource.bind fun resource => jsonField resource "attributes") path field
  let spans := parseSpans readers attributes.1 path rawSpans
  (spans.1,
    shape ++ dropped ++ attributes.2 ++
      rejectAttrs attributes.1 resourceAttrs (located path field) ++
      versionIssues attributes.1 path field ++
      (registryAttrs.flatMap fun key => checkAttr attributes.1 key .string (located path field)) ++
      spans.2)

def resourcesFrom (readers : NumberReaders) (path location : String) (index : Nat) :
    List Json → List TraceSpan × List ValidationIssue
  | [] => ([], [])
  | value :: rest =>
      let resourceLocation := s!"{location}.resourceSpans[{index}]"
      let others := resourcesFrom readers path location (index + 1) rest
      match asObject value with
      | none =>
          (others.1,
            issue (located path resourceLocation) "resourceSpans item must be an object" ++ others.2)
      | some group =>
          let values := arrayField group "scopeSpans" path resourceLocation
          let rawSpans := scopesFrom readers path resourceLocation 0 values.1
          if rawSpans.1.isEmpty then (others.1, values.2 ++ rawSpans.2 ++ others.2)
          else
            let spans := parseResource readers group path resourceLocation rawSpans.1
            (spans.1 ++ others.1, values.2 ++ rawSpans.2 ++ spans.2 ++ others.2)

/-! ### Documents -/

/-- Parse documents in the shape of the mapping; every batch is one of them. -/
def batchesFrom (readers : NumberReaders) (path : String) (index : Nat) :
    List Json → List TraceSpan × List ValidationIssue
  | [] => ([], [])
  | value :: rest =>
      let location := s!"$[{index}]"
      let others := batchesFrom readers path (index + 1) rest
      match asObject value with
      | none =>
          (others.1, issue (located path location) "OTLP TracesData must be a JSON object" ++ others.2)
      | some batch =>
          let values := arrayField batch "resourceSpans" path location
          let spans := resourcesFrom readers path location 0 values.1
          (spans.1 ++ others.1, values.2 ++ spans.2 ++ others.2)

/-- The documents of a trace file, parsed: one of them, or one a line. -/
inductive TraceText where
  | json (blank : Bool) (document : Except String Json)
  | jsonl (lines : List (Option (Except String Json)))

/-- The shape check of a parsed document. -/
def parseDocument (readers : NumberReaders) (document : Except String Json) : Except String Json :=
  document.bind fun json =>
    if json.distinct && OtlpSchema.accepts readers json (.message .tracesData) then .ok json
    else .error "document does not have the OTLP shape"

def parseLines (readers : NumberReaders) (path : String) (index : Nat) :
    List (Option (Except String Json)) → List Json × List ValidationIssue
  | [] => ([], [])
  | line :: rest =>
      let others := parseLines readers path (index + 1) rest
      let location := located path s!"line {index + 1}"
      match line.map (parseDocument readers) with
      | none => (others.1, issue location "blank JSONL line" ++ others.2)
      | some (.ok json) => (json :: others.1, others.2)
      | some (.error error) =>
          (others.1, issue location s!"invalid OTLP JSON/protobuf mapping: {error}" ++ others.2)

def parseDocuments (readers : NumberReaders) (path : String) :
    TraceText → List Json × List ValidationIssue
  | .json _ document =>
      match parseDocument readers document with
      | .ok json => ([json], [])
      | .error error =>
          ([], issue (located path "$") s!"invalid OTLP JSON/protobuf mapping: {error}")
  | .jsonl lines => parseLines readers path 0 lines

/-- Whether the text holds nothing but whitespace. -/
def TraceText.isBlank : TraceText → Bool
  | .json blank _ => blank
  | .jsonl lines => lines.all Option.isNone

/-- Load a trace: its spans, and every issue of reading and of meaning. `none` would mean an
unfinished ancestry walk. -/
def loadText (readers : NumberReaders) (path : String) (text : TraceText) :
    Option (TraceDocument × List ValidationIssue) :=
  let documents := parseDocuments readers path text
  let loaded := batchesFrom readers path 0 documents.1
  let missing :=
    if loaded.1.isEmpty && (!documents.1.isEmpty || text.isBlank) then
      issue (located path "$") "trace contains no CTSC spans"
    else []
  (validateSemantics loaded.1).map fun issues =>
    (⟨loaded.1⟩, documents.2 ++ loaded.2 ++ missing ++ issues)

end SpecGate.TraceLoading

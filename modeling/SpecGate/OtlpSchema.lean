import SpecGate.TraceFields

/-!
The strict OTLP shape that a document must have before its fields are read. A message is
an object with known members, each at most once under any of its spellings, or the list of
its leading members; a member that is null is absent.
-/
namespace SpecGate.OtlpSchema

open JsonTrees TraceFields OtlpScalars

inductive Message where
  | tracesData
  | resourceSpans
  | resource
  | scopeSpans
  | instrumentationScope
  | span
  | event
  | link
  | status
  | entityRef
  | keyValue
  | anyValue
  | arrayValue
  | keyValueList
  deriving DecidableEq

/-- What a member holds. -/
inductive Kind where
  | text
  | flag
  | int32
  | uint32
  | int64
  | uint64
  | double
  | bytes
  | hex
  | enum (names : List String)
  | list (item : Kind)
  | message (message : Message)

def spanKinds : List String :=
  ["SPAN_KIND_UNSPECIFIED", "SPAN_KIND_INTERNAL", "SPAN_KIND_SERVER", "SPAN_KIND_CLIENT",
    "SPAN_KIND_PRODUCER", "SPAN_KIND_CONSUMER"]

def statusCodes : List String := ["STATUS_CODE_UNSET", "STATUS_CODE_OK", "STATUS_CODE_ERROR"]

def attributesKind : Kind := .list (.message .keyValue)

structure Field where
  name : String
  alternate : String
  kind : Kind

/-- A member with one spelling. -/
def plain (name : String) (kind : Kind) : Field := ⟨name, name, kind⟩

def Message.fields : Message → List Field
  | tracesData => [⟨"resourceSpans", "resource_spans", .list (.message resourceSpans)⟩]
  | resourceSpans =>
      [plain "resource" (.message resource),
        ⟨"scopeSpans", "scope_spans", .list (.message scopeSpans)⟩,
        ⟨"schemaUrl", "schema_url", .text⟩]
  | resource =>
      [plain "attributes" attributesKind,
        ⟨"droppedAttributesCount", "dropped_attributes_count", .uint32⟩,
        ⟨"entityRefs", "entity_refs", .list (.message entityRef)⟩]
  | scopeSpans =>
      [plain "scope" (.message instrumentationScope), plain "spans" (.list (.message span)),
        ⟨"schemaUrl", "schema_url", .text⟩]
  | instrumentationScope =>
      [plain "name" .text, plain "version" .text, plain "attributes" attributesKind,
        ⟨"droppedAttributesCount", "dropped_attributes_count", .uint32⟩]
  | span =>
      [⟨"traceId", "trace_id", .hex⟩, ⟨"spanId", "span_id", .hex⟩,
        ⟨"traceState", "trace_state", .text⟩, ⟨"parentSpanId", "parent_span_id", .hex⟩,
        plain "flags" .uint32, plain "name" .text, plain "kind" (.enum spanKinds),
        ⟨"startTimeUnixNano", "start_time_unix_nano", .uint64⟩,
        ⟨"endTimeUnixNano", "end_time_unix_nano", .uint64⟩,
        plain "attributes" attributesKind,
        ⟨"droppedAttributesCount", "dropped_attributes_count", .uint32⟩,
        plain "events" (.list (.message event)),
        ⟨"droppedEventsCount", "dropped_events_count", .uint32⟩,
        plain "links" (.list (.message link)),
        ⟨"droppedLinksCount", "dropped_links_count", .uint32⟩,
        plain "status" (.message status)]
  | event =>
      [⟨"timeUnixNano", "time_unix_nano", .uint64⟩, plain "name" .text,
        plain "attributes" attributesKind,
        ⟨"droppedAttributesCount", "dropped_attributes_count", .uint32⟩]
  | link =>
      [⟨"traceId", "trace_id", .hex⟩, ⟨"spanId", "span_id", .hex⟩,
        ⟨"traceState", "trace_state", .text⟩, plain "attributes" attributesKind,
        ⟨"droppedAttributesCount", "dropped_attributes_count", .uint32⟩, plain "flags" .uint32]
  | status => [plain "message" .text, plain "code" (.enum statusCodes)]
  | entityRef =>
      [⟨"schemaUrl", "schema_url", .text⟩, plain "type" .text,
        ⟨"idKeys", "id_keys", .list .text⟩,
        ⟨"descriptionKeys", "description_keys", .list .text⟩]
  | keyValue =>
      [plain "key" .text, plain "value" (.message anyValue),
        ⟨"keyStrindex", "key_strindex", .int32⟩]
  | anyValue =>
      [⟨"stringValue", "string_value", .text⟩, ⟨"boolValue", "bool_value", .flag⟩,
        ⟨"intValue", "int_value", .int64⟩, ⟨"doubleValue", "double_value", .double⟩,
        ⟨"arrayValue", "array_value", .message arrayValue⟩,
        ⟨"kvlistValue", "kvlist_value", .message keyValueList⟩,
        ⟨"bytesValue", "bytes_value", .bytes⟩,
        ⟨"stringValueStrindex", "string_value_strindex", .int32⟩]
  | arrayValue => [plain "values" (.list (.message anyValue))]
  | keyValueList => [plain "values" attributesKind]

/-- The member of a message that a key spells. -/
def fieldNamed (fields : List Field) (key : String) : Option Field :=
  fields.find? fun field => field.name == key || field.alternate == key

/-- Known members, each of them once. -/
def knownMembers (fields : List Field) (keys : List String) : Bool :=
  let names := keys.map fun key => (fieldNamed fields key).map Field.name
  names.all Option.isSome && decide names.Nodup

def isPresent : Json → Bool
  | .null => false
  | .bool _ | .number _ | .string _ | .array _ | .object _ => true

/-- A value selects at most one variant. -/
def selectsOne (message : Message) (members : List Json) : Bool :=
  if message = .anyValue then decide (members.countP isPresent ≤ 1) else true

/-- An integer number or text within the bounds of a type. -/
def acceptsInteger (readers : NumberReaders) (low high : Int) (raw : Json) : Bool :=
  ((integerText readers raw).bind (parseWithin low high)).isSome

def acceptsEnum (readers : NumberReaders) (names : List String) : Json → Bool
  | .string value => names.contains value
  | .number value => acceptsInteger readers (-2 ^ 31) (2 ^ 31 - 1) (.number value)
  | .null | .bool _ | .array _ | .object _ => false

def acceptsScalar (readers : NumberReaders) (raw : Json) : Kind → Bool
  | .text => (asString raw).isSome
  | .flag =>
      match raw with
      | .bool _ => true
      | _ => false
  | .int32 => acceptsInteger readers (-2 ^ 31) (2 ^ 31 - 1) raw
  | .uint32 => acceptsInteger readers 0 (2 ^ 32 - 1) raw
  | .int64 => acceptsInteger readers (-2 ^ 63) (2 ^ 63 - 1) raw
  | .uint64 => acceptsInteger readers 0 (2 ^ 64 - 1) raw
  | .double => (parseDouble readers raw).isSome
  | .bytes => ((asString raw).bind readers.decodeBase64).isSome
  | .hex => ((asString raw).bind normalizeHex).isSome
  | .enum names => acceptsEnum readers names raw
  | .list _ | .message _ => false

mutual

/-- The JSON form of a kind of content. -/
def accepts (readers : NumberReaders) : Json → Kind → Bool
  | .object entries, kind =>
      match kind with
      | .message message =>
          knownMembers message.fields (entries.map Prod.fst) &&
            selectsOne message (entries.map Prod.snd) &&
            acceptsMembers readers entries message.fields
      | _ => false
  | .array values, kind =>
      match kind with
      | .message message =>
          selectsOne message values && acceptsLeading readers values message.fields
      | .list item => acceptsAll readers values item
      | _ => false
  | .null, kind => acceptsScalar readers .null kind
  | .bool value, kind => acceptsScalar readers (.bool value) kind
  | .number value, kind => acceptsScalar readers (.number value) kind
  | .string value, kind => acceptsScalar readers (.string value) kind
termination_by structural json => json

def acceptsAll (readers : NumberReaders) : List Json → Kind → Bool
  | [], _ => true
  | value :: rest, item => accepts readers value item && acceptsAll readers rest item
termination_by structural values => values

def acceptsMembers (readers : NumberReaders) : List (String × Json) → List Field → Bool
  | [], _ => true
  | (key, raw) :: rest, fields =>
      (!isPresent raw || ((fieldNamed fields key).elim false fun field =>
        accepts readers raw field.kind)) && acceptsMembers readers rest fields
termination_by structural entries => entries

/-- The leading members of a message, given without their names. -/
def acceptsLeading (readers : NumberReaders) : List Json → List Field → Bool
  | [], _ => true
  | raw :: rest, fields =>
      match fields with
      | [] => false
      | field :: fields =>
          (!isPresent raw || accepts readers raw field.kind) && acceptsLeading readers rest fields
termination_by structural values => values

end

end SpecGate.OtlpSchema

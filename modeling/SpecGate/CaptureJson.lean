import SpecGate.ClrValues
import SpecGate.FloatTexts
import SpecGate.SidecarCaptures

/-!
The writer of sidecars of the C# runtime: a text that grows from the left, with a flag for
the comma that the next item needs, and the fields of a capture written one by one. Whatever
a capture holds, its text spells the document that the capture runtime would write.
-/
namespace SpecGate.CaptureJson

open JsonTrees JsonTexts FloatTexts SidecarCaptures SidecarValues
open CaptureSession (HexId TraceId SpanId Status)
open ClrValues (Value)
open Values (FiniteF64)

/-! ### The text writer -/

structure JsonText where
  text : List UInt16
  needsComma : Bool
  afterProperty : Bool

/-- A text of the source. -/
def literal (text : String) : List UInt16 := Utf16.encode text.toList

/-- The characters that stand for a character with an escape of its own. -/
def escape (code : Nat) : Option (List Char) :=
  if code = 0x22 then some ['\\', '"']
  else if code = 0x5C then some ['\\', '\\']
  else if code = 8 then some ['\\', 'b']
  else if code = 12 then some ['\\', 'f']
  else if code = 10 then some ['\\', 'n']
  else if code = 13 then some ['\\', 'r']
  else if code = 9 then some ['\\', 't']
  else if code < 0x20 then
    some ['\\', 'u', '0', '0', Nat.digitChar (code / 16), Nat.digitChar (code % 16)]
  else none

def escapeUnit (unit : UInt16) : List UInt16 :=
  match escape unit.toNat with
  | some text => Utf16.encode text
  | none => [unit]

namespace JsonText

def append (writer : JsonText) (text : List Char) : JsonText :=
  { writer with text := writer.text ++ Utf16.encode text }

def appendString (writer : JsonText) (value : List UInt16) : JsonText :=
  { writer with
    text := writer.text ++
      (Utf16.encode ['"'] ++ (value.flatMap escapeUnit ++ Utf16.encode ['"'])) }

def beforeValue (writer : JsonText) : JsonText :=
  { (if !writer.afterProperty && writer.needsComma then writer.append [','] else writer) with
    afterProperty := false }

def writeStartObject (writer : JsonText) : JsonText :=
  { writer.beforeValue.append ['\x7b'] with needsComma := false }

def writeEndObject (writer : JsonText) : JsonText :=
  { writer.append ['\x7d'] with needsComma := true }

def writeStartArray (writer : JsonText) : JsonText :=
  { writer.beforeValue.append ['['] with needsComma := false }

def writeEndArray (writer : JsonText) : JsonText :=
  { writer.append [']'] with needsComma := true }

def writePropertyName (writer : JsonText) (name : List UInt16) : JsonText :=
  let writer := if writer.needsComma then writer.append [','] else writer
  { (writer.appendString name).append [':'] with afterProperty := true, needsComma := false }

def writeStringValue (writer : JsonText) (value : List UInt16) : JsonText :=
  { writer.beforeValue.appendString value with needsComma := true }

def writeRawValue (writer : JsonText) (text : List Char) : JsonText :=
  { writer.beforeValue.append text with needsComma := true }

def writeNumberValue (writer : JsonText) (value : Int) : JsonText :=
  writer.writeRawValue (integerText value)

def writeBooleanValue (writer : JsonText) (value : Bool) : JsonText :=
  writer.writeRawValue (if value then ['t', 'r', 'u', 'e'] else ['f', 'a', 'l', 's', 'e'])

def writeNullValue (writer : JsonText) : JsonText := writer.writeRawValue ['n', 'u', 'l', 'l']

def writeString (writer : JsonText) (name : String) (value : List UInt16) : JsonText :=
  (writer.writePropertyName (literal name)).writeStringValue value

def writeNull (writer : JsonText) (name : String) : JsonText :=
  (writer.writePropertyName (literal name)).writeNullValue

def writeNumber (writer : JsonText) (name : String) (value : Int) : JsonText :=
  (writer.writePropertyName (literal name)).writeNumberValue value

end JsonText

/-! ### Captures -/

structure Observation where
  order : UInt64
  timeUnixNano : Int64
  name : List UInt16
  observedValue : Value

inductive Completion where
  | result (order : UInt64) (timeUnixNano : Int64) (resultValue : Value)
  | empty (order : UInt64) (timeUnixNano : Int64)
  | error (order : UInt64) (timeUnixNano : Int64) (name : List UInt16) (errorValue : Option Value)
  | fault (order : UInt64) (timeUnixNano : Int64) (faultType message observer : List UInt16)
  | abandoned (order : UInt64) (timeUnixNano : Int64)

structure OperationSpan where
  order : UInt64
  spanId : SpanId
  parentSpanId : SpanId
  componentId : List UInt16
  operationName : List UInt16
  startTimeUnixNano : Int64
  endTimeUnixNano : Int64
  status : Status
  inputs : List (List UInt16 × Value)
  observations : List Observation
  operationCompletion : Option Completion

structure SpanBoundary where
  spanId : SpanId
  parentSpanId : Option SpanId
  startTimeUnixNano : Int64
  endTimeUnixNano : Int64
  status : Status

structure Capture where
  traceId : TraceId
  scenarioName : List UInt16
  run : SpanBoundary
  scenario : SpanBoundary
  operations : List OperationSpan

/-! ### Writing a capture -/

def idText {length : Nat} (id : HexId length) : List UInt16 := literal id.text

def writeBoundary (writer : JsonText) (boundary : SpanBoundary) : JsonText :=
  let writer := writer.writeStartObject
  let writer := writer.writeString "span_id" (idText boundary.spanId)
  let writer := match boundary.parentSpanId with
    | none => writer.writeNull "parent_span_id"
    | some parent => writer.writeString "parent_span_id" (idText parent)
  let writer := writer.writeNumber "start_time_unix_nano" boundary.startTimeUnixNano.toInt
  let writer := writer.writeNumber "end_time_unix_nano" boundary.endTimeUnixNano.toInt
  let writer := writer.writeString "status" (literal (statusName boundary.status))
  writer.writeEndObject

def kindName : Value → String
  | .string _ => "string"
  | .integer _ => "integer"
  | .unsigned _ => "unsigned"
  | .float _ => "float"
  | .bool _ => "bool"
  | .list _ => "list"
  | .map _ => "map"
  | .set _ => "set"

/-- The part of a value before its content. -/
def startValue (writer : JsonText) (value : Value) : JsonText :=
  (writer.writeStartObject.writeString "kind" (literal (kindName value))).writePropertyName
    (literal "value")

section Writer

variable (shortest : FiniteF64 → String)

def writeFloat (writer : JsonText) (bits : UInt64) : Option JsonText :=
  match finiteBits bits with
  | none => some writer.writeNullValue
  | some value => (formatFloat shortest value).map writer.writeRawValue

mutual

def writeValue (writer : JsonText) : Value → Option JsonText
  | .string value =>
      some ((startValue writer (.string value)).writeStringValue value).writeEndObject
  | .integer value =>
      some ((startValue writer (.integer value)).writeNumberValue value.toInt).writeEndObject
  | .unsigned value =>
      some ((startValue writer (.unsigned value)).writeNumberValue value.toNat).writeEndObject
  | .float bits => (writeFloat shortest (startValue writer (.float bits)) bits).map
      JsonText.writeEndObject
  | .bool value =>
      some ((startValue writer (.bool value)).writeBooleanValue value).writeEndObject
  | .list values => (writeItems (startValue writer (.list values)).writeStartArray values).map
      fun writer => writer.writeEndArray.writeEndObject
  | .set values => (writeItems (startValue writer (.set values)).writeStartArray values).map
      fun writer => writer.writeEndArray.writeEndObject
  | .map entries => (writeEntries (startValue writer (.map entries)).writeStartObject entries).map
      fun writer => writer.writeEndObject.writeEndObject
termination_by structural value => value

def writeItems (writer : JsonText) : List Value → Option JsonText
  | [] => some writer
  | value :: rest => (writeValue writer value).bind fun writer => writeItems writer rest
termination_by structural values => values

def writeEntries (writer : JsonText) : List (List UInt16 × Value) → Option JsonText
  | [] => some writer
  | (key, value) :: rest =>
      (writeValue (writer.writePropertyName key) value).bind fun writer => writeEntries writer rest
termination_by structural entries => entries

end

/-- The fields that every completion starts with. -/
def startCompletion (writer : JsonText) (kind : String) (order : UInt64) (timeUnixNano : Int64) :
    JsonText :=
  ((writer.writeStartObject.writeString "kind" (literal kind)).writeNumber "order"
    order.toNat).writeNumber "time_unix_nano" timeUnixNano.toInt

def writeCompletion (writer : JsonText) : Option Completion → Option JsonText
  | none => some writer.writeNullValue
  | some (.result order timeUnixNano resultValue) =>
      (writeValue shortest ((startCompletion writer "result" order timeUnixNano).writePropertyName
        (literal "value")) resultValue).map JsonText.writeEndObject
  | some (.empty order timeUnixNano) =>
      some (startCompletion writer "empty" order timeUnixNano).writeEndObject
  | some (.error order timeUnixNano name errorValue) =>
      let writer := (startCompletion writer "error" order timeUnixNano).writeString "name" name
      match errorValue with
      | none => some writer.writeEndObject
      | some value => (writeValue shortest (writer.writePropertyName (literal "value")) value).map
          JsonText.writeEndObject
  | some (.fault order timeUnixNano faultType message observer) =>
      let writer := startCompletion writer "fault" order timeUnixNano
      let writer := writer.writeString "fault_type" faultType
      let writer := writer.writeString "message" message
      let writer := writer.writeString "observer" observer
      some writer.writeEndObject
  | some (.abandoned order timeUnixNano) =>
      some (startCompletion writer "abandoned" order timeUnixNano).writeEndObject

def writeObservation (writer : JsonText) (observation : Observation) : Option JsonText :=
  let writer := writer.writeStartObject
  let writer := writer.writeNumber "order" observation.order.toNat
  let writer := writer.writeNumber "time_unix_nano" observation.timeUnixNano.toInt
  let writer := writer.writeString "name" observation.name
  let writer := writer.writePropertyName (literal "value")
  (writeValue shortest writer observation.observedValue).map JsonText.writeEndObject

/-- Write the items of an array, one after the other. -/
def writeEach {α : Type} (write : JsonText → α → Option JsonText) (writer : JsonText) :
    List α → Option JsonText
  | [] => some writer
  | item :: rest => (write writer item).bind fun writer => writeEach write writer rest

def writeOperation (writer : JsonText) (operation : OperationSpan) : Option JsonText := do
  let writer := writer.writeStartObject
  let writer := writer.writeNumber "order" operation.order.toNat
  let writer := writer.writeString "span_id" (idText operation.spanId)
  let writer := writer.writeString "parent_span_id" (idText operation.parentSpanId)
  let writer := writer.writeString "component_id" operation.componentId
  let writer := writer.writeString "operation_name" operation.operationName
  let writer := writer.writeNumber "start_time_unix_nano" operation.startTimeUnixNano.toInt
  let writer := writer.writeNumber "end_time_unix_nano" operation.endTimeUnixNano.toInt
  let writer := writer.writeString "status" (literal (statusName operation.status))
  let writer := (writer.writePropertyName (literal "inputs")).writeStartObject
  let writer ← writeEntries shortest writer operation.inputs
  let writer := writer.writeEndObject
  let writer := (writer.writePropertyName (literal "observations")).writeStartArray
  let writer ← writeEach (writeObservation shortest) writer operation.observations
  let writer := writer.writeEndArray
  let writer := writer.writePropertyName (literal "completion")
  let writer ← writeCompletion shortest writer operation.operationCompletion
  return writer.writeEndObject

def writeCapture (writer : JsonText) (capture : Capture) : Option JsonText := do
  let writer := writer.writeStartObject
  let writer := writer.writeString "trace_id" (idText capture.traceId)
  let writer := writer.writeString "scenario_name" capture.scenarioName
  let writer := writeBoundary (writer.writePropertyName (literal "run")) capture.run
  let writer := writeBoundary (writer.writePropertyName (literal "scenario")) capture.scenario
  let writer := (writer.writePropertyName (literal "operations")).writeStartArray
  let writer ← writeEach (writeOperation shortest) writer capture.operations
  return writer.writeEndArray.writeEndObject

/-- The document of a capture, as the characters whose encoding is written to the file. -/
def serialize (capture : Capture) : Option String :=
  (writeCapture shortest ⟨[], false, false⟩ capture).map fun writer =>
    String.ofList (Utf16.decode writer.text)

end Writer

/-! ### What the text writer appends -/

def escapeChar (c : Char) : List Char := (escape c.toNat).getD [c]

def quotedText (value : String) : List Char :=
  '"' :: (value.toList.flatMap escapeChar ++ ['"'])

def memberText (name : String) (text : List Char) : List Char := quotedText name ++ ':' :: text

theorem escape_none {code : Nat} (h : 0x5D ≤ code) : escape code = none := by
  unfold escape
  rw [if_neg (by omega), if_neg (by omega), if_neg (by omega), if_neg (by omega),
    if_neg (by omega), if_neg (by omega), if_neg (by omega), if_neg (by omega)]

/-- The units of a character are escaped like the character. -/
theorem escape_encodeChar (c : Char) :
    (Utf16.encodeChar c).flatMap escapeUnit = Utf16.encode (escapeChar c) := by
  by_cases h : c.toNat < 0x10000
  · obtain ⟨unit, hencode, hunit, -⟩ := Utf16.encodeChar_basic h
    unfold escapeChar
    rw [hencode, List.flatMap_singleton]
    unfold escapeUnit
    rw [hunit]
    cases escape c.toNat with
    | some text => rfl
    | none =>
      dsimp only [Option.getD_none]
      rw [Utf16.encode_cons, hencode]
      rfl
  · obtain ⟨high, low, hencode, hhigh, hlow, -⟩ := Utf16.encodeChar_pair h
    have hhighCode : 0x5D ≤ high.toNat := by
      unfold Utf16.isHigh at hhigh
      rw [decide_eq_true_iff] at hhigh
      omega
    have hlowCode : 0x5D ≤ low.toNat := by
      unfold Utf16.isLow at hlow
      rw [decide_eq_true_iff] at hlow
      omega
    unfold escapeChar
    rw [escape_none (by omega), Option.getD_none, Utf16.encode_cons, hencode]
    unfold escapeUnit
    rw [List.flatMap_cons, List.flatMap_singleton, escape_none hhighCode, escape_none hlowCode]
    rfl

theorem escape_encode (text : List Char) :
    (Utf16.encode text).flatMap escapeUnit = Utf16.encode (text.flatMap escapeChar) := by
  induction text with
  | nil => rfl
  | cons c rest ih =>
    rw [Utf16.encode_cons, List.flatMap_append, ih, escape_encodeChar, List.flatMap_cons,
      Utf16.encode_append]

/-- A control character is written by its code. -/
theorem hexCode_control : ∀ code < 0x20,
    hexCode '0' '0' (Nat.digitChar (code / 16)) (Nat.digitChar (code % 16)) = some code := by
  decide

/-- The escapes stand for the character. -/
theorem spells_escapeChar (c : Char) {body content : List Char} (h : Spells body content) :
    Spells (escapeChar c ++ body) (c :: content) := by
  have hc : Char.ofNat c.toNat = c := Char.ofNat_toNat c
  unfold escapeChar escape
  by_cases hquote : c.toNat = 0x22
  · rw [hquote] at hc
    rw [if_pos hquote, ← hc]
    exact .short rfl h
  rw [if_neg hquote]
  by_cases hbackslash : c.toNat = 0x5C
  · rw [hbackslash] at hc
    rw [if_pos hbackslash, ← hc]
    exact .short rfl h
  rw [if_neg hbackslash]
  by_cases h8 : c.toNat = 8
  · rw [h8] at hc
    rw [if_pos h8, ← hc]
    exact .short rfl h
  rw [if_neg h8]
  by_cases h12 : c.toNat = 12
  · rw [h12] at hc
    rw [if_pos h12, ← hc]
    exact .short rfl h
  rw [if_neg h12]
  by_cases h10 : c.toNat = 10
  · rw [h10] at hc
    rw [if_pos h10, ← hc]
    exact .short rfl h
  rw [if_neg h10]
  by_cases h13 : c.toNat = 13
  · rw [h13] at hc
    rw [if_pos h13, ← hc]
    exact .short rfl h
  rw [if_neg h13]
  by_cases h9 : c.toNat = 9
  · rw [h9] at hc
    rw [if_pos h9, ← hc]
    exact .short rfl h
  rw [if_neg h9]
  by_cases hcontrol : c.toNat < 0x20
  · have hspells := Spells.unicode (hexCode_control c.toNat hcontrol) h
    rw [hc] at hspells
    rw [if_pos hcontrol]
    exact hspells
  · rw [if_neg hcontrol]
    refine .plain (Nat.le_of_not_lt hcontrol) ?_ ?_ h
    · rintro rfl
      exact hquote rfl
    · rintro rfl
      exact hbackslash rfl

theorem quoted_quotedText (value : String) : Quoted value (quotedText value) := by
  refine ⟨_, rfl, ?_⟩
  induction value.toList with
  | nil => exact .nil
  | cons c rest ih =>
    rw [List.flatMap_cons]
    exact spells_escapeChar c ih

namespace JsonText

variable {writer : JsonText}

/-- A value appended to the text. -/
def value (writer : JsonText) (text : List Char) : JsonText where
  text := writer.text ++
    Utf16.encode (if !writer.afterProperty && writer.needsComma then ',' :: text else text)
  needsComma := true
  afterProperty := false

/-- A member of an object appended to the text. -/
def member (writer : JsonText) (text : List Char) : JsonText where
  text := writer.text ++ Utf16.encode (if writer.needsComma then ',' :: text else text)
  needsComma := true
  afterProperty := false

theorem appendString_eq {units : List UInt16} {content : String}
    (h : Utf16.text units = some content) :
    writer.appendString units = writer.append (quotedText content) := by
  unfold appendString append quotedText
  rw [Utf16.text_eq_some.mp h, escape_encode, ← Utf16.encode_append, ← Utf16.encode_append]
  rfl

theorem append_append (first second : List Char) :
    (writer.append first).append second = writer.append (first ++ second) := by
  unfold append
  rw [Utf16.encode_append, ← List.append_assoc]

theorem writeRawValue_eq (text : List Char) : writer.writeRawValue text = writer.value text := by
  unfold writeRawValue beforeValue value
  by_cases hcomma : (!writer.afterProperty && writer.needsComma) = true
  · rw [if_pos hcomma, if_pos hcomma]
    unfold append
    dsimp only
    rw [List.append_assoc, ← Utf16.encode_append, List.singleton_append]
  · rw [if_neg hcomma, if_neg hcomma]
    rfl

theorem writeStringValue_eq {units : List UInt16} {content : String}
    (h : Utf16.text units = some content) :
    writer.writeStringValue units = writer.value (quotedText content) := by
  rw [← writeRawValue_eq]
  unfold writeStringValue writeRawValue
  rw [appendString_eq h]

/-- A value after its name is a member. -/
theorem value_writePropertyName {name : List UInt16} {key : String}
    (h : Utf16.text name = some key) (text : List Char) :
    (writer.writePropertyName name).value text = writer.member (memberText key text) := by
  unfold writePropertyName
  dsimp only
  rw [appendString_eq h]
  unfold value member memberText append
  dsimp only
  rw [Bool.not_true, Bool.false_and, if_neg Bool.false_ne_true]
  by_cases hcomma : writer.needsComma = true
  · rw [if_pos hcomma, if_pos hcomma]
    simp only [Utf16.encode_append, Utf16.encode_cons, Utf16.encode_nil, List.append_assoc,
      List.append_nil]
  · rw [if_neg hcomma, if_neg hcomma]
    simp only [Utf16.encode_append, Utf16.encode_cons, Utf16.encode_nil, List.append_assoc,
      List.append_nil]

theorem text_literal (name : String) : Utf16.text (literal name) = some name :=
  Utf16.text_encode name

theorem writeString_eq {name : String} {units : List UInt16} {content : String}
    (h : Utf16.text units = some content) :
    writer.writeString name units = writer.member (memberText name (quotedText content)) := by
  unfold writeString
  rw [writeStringValue_eq h, value_writePropertyName (text_literal name)]

theorem writeNull_eq {name : String} :
    writer.writeNull name = writer.member (memberText name ['n', 'u', 'l', 'l']) := by
  unfold writeNull writeNullValue
  rw [writeRawValue_eq, value_writePropertyName (text_literal name)]

theorem writeNumber_eq {name : String} {number : Int} :
    writer.writeNumber name number = writer.member (memberText name (integerText number)) := by
  unfold writeNumber writeNumberValue
  rw [writeRawValue_eq, value_writePropertyName (text_literal name)]

/-! ### Containers -/

/-- Members after a first one. -/
theorem foldl_member (texts : List (List Char)) (h : writer.needsComma = true)
    (hvalue : writer.afterProperty = false) :
    texts.foldl member writer = writer.append (texts.flatMap (',' :: ·)) := by
  induction texts generalizing writer with
  | nil =>
    obtain ⟨text, needsComma, afterProperty⟩ := writer
    unfold append
    rw [List.flatMap_nil, Utf16.encode_nil, List.append_nil]
    rfl
  | cons first rest ih =>
    have hmember : writer.member first = writer.append (',' :: first) := by
      unfold member append
      rw [if_pos h, h, hvalue]
    have hrest := @ih (writer.append (',' :: first)) h hvalue
    rw [List.foldl_cons, hmember, hrest, append_append, List.flatMap_cons]

theorem foldl_value (texts : List (List Char)) (h : writer.needsComma = true)
    (hvalue : writer.afterProperty = false) :
    texts.foldl value writer = writer.append (texts.flatMap (',' :: ·)) := by
  rw [← foldl_member texts h hvalue]
  clear h
  induction texts generalizing writer with
  | nil => rfl
  | cons first rest ih =>
    have hfirst : writer.value first = writer.member first := by
      unfold value member
      rw [hvalue, Bool.not_false, Bool.true_and]
    rw [List.foldl_cons, List.foldl_cons, hfirst]
    exact ih rfl

/-- An object is a value. -/
theorem object_eq (texts : List (List Char)) :
    (texts.foldl member writer.writeStartObject).writeEndObject =
      writer.value (objectText texts) := by
  rw [← writeRawValue_eq]
  unfold objectText
  cases texts with
  | nil =>
    unfold writeRawValue writeEndObject writeStartObject
    dsimp only [List.foldl_nil, commaJoin]
    unfold append
    dsimp only
    rw [List.append_assoc, ← Utf16.encode_append]
    rfl
  | cons first rest =>
    have hfirst : writer.writeStartObject.member first =
        { writer.writeStartObject.append first with needsComma := true, afterProperty := false } :=
      rfl
    rw [List.foldl_cons, foldl_member rest rfl rfl, hfirst]
    unfold writeRawValue writeEndObject writeStartObject
    unfold append commaJoin
    dsimp only
    simp only [Utf16.encode_append, Utf16.encode_cons, List.append_assoc]
    rfl

/-- An array is a value. -/
theorem array_eq (texts : List (List Char)) :
    (texts.foldl value writer.writeStartArray).writeEndArray =
      writer.value (arrayText texts) := by
  rw [← writeRawValue_eq]
  unfold arrayText
  cases texts with
  | nil =>
    unfold writeRawValue writeEndArray writeStartArray
    dsimp only [List.foldl_nil, commaJoin]
    unfold append
    dsimp only
    rw [List.append_assoc, ← Utf16.encode_append]
    rfl
  | cons first rest =>
    have hfirst : writer.writeStartArray.value first =
        { writer.writeStartArray.append first with
          needsComma := true, afterProperty := false } := by
      unfold value
      have hcomma : writer.writeStartArray.needsComma = false := rfl
      rw [hcomma, Bool.and_false]
      rfl
    rw [List.foldl_cons, foldl_value rest rfl rfl, hfirst]
    unfold writeRawValue writeEndArray writeStartArray
    unfold append commaJoin
    dsimp only
    simp only [Utf16.encode_append, Utf16.encode_cons, List.append_assoc]
    rfl

end JsonText

/-! ### Values -/

mutual

/-- The finite floating-point numbers in a value. -/
def floats : Value → List FiniteF64
  | .float bits => (finiteBits bits).toList
  | .string _ | .integer _ | .unsigned _ | .bool _ => []
  | .list values | .set values => floatsAll values
  | .map entries => floatsEntries entries
termination_by structural value => value

def floatsAll : List Value → List FiniteF64
  | [] => []
  | value :: rest => floats value ++ floatsAll rest
termination_by structural values => values

def floatsEntries : List (List UInt16 × Value) → List FiniteF64
  | [] => []
  | (_, value) :: rest => floats value ++ floatsEntries rest
termination_by structural entries => entries

end

theorem memberOf_memberText {nearest : Bool → ℚ → Option FiniteF64} {key : String} {json : Json}
    {text : List Char} (h : TextOf nearest json text) :
    MemberOf nearest (key, json) (memberText key text) :=
  ⟨_, _, rfl, quoted_quotedText key, h⟩

theorem textOf_string {nearest : Bool → ℚ → Option FiniteF64} (value : String) :
    TextOf nearest (.string value) (quotedText value) := quoted_quotedText value

/-- A value of a kind, with its content. -/
def taggedText (kind : String) (text : List Char) : List Char :=
  objectText [memberText "kind" (quotedText kind), memberText "value" text]

theorem startValue_eq (writer : JsonText) (value : Value) (text : List Char) :
    ((startValue writer value).value text).writeEndObject =
      writer.value (taggedText (kindName value) text) := by
  unfold startValue taggedText
  rw [JsonText.writeString_eq (JsonText.text_literal _),
    JsonText.value_writePropertyName (JsonText.text_literal "value")]
  exact JsonText.object_eq [_, _]

theorem textOf_tagged {nearest : Bool → ℚ → Option FiniteF64} {kind : String} {content : Json}
    {text : List Char} (h : TextOf nearest content text) :
    TextOf nearest (tagged kind content) (taggedText kind text) :=
  textOf_object (.cons (memberOf_memberText (textOf_string kind))
    (.cons (memberOf_memberText h) .nil))

section Values

variable (shortest : FiniteF64 → String) (nearest : Bool → ℚ → Option FiniteF64)

/-- Whatever has been written before, the document is appended as a value. -/
def Writes (write : JsonText → Option JsonText) (json : Json) : Prop :=
  ∃ text, TextOf nearest json text ∧ ∀ writer, write writer = some (writer.value text)

variable {shortest nearest}

theorem writes_float {bits : UInt64}
    (h : ∀ value ∈ (finiteBits bits).toList, RoundTrips shortest nearest value) :
    Writes nearest (writeFloat shortest · bits) (SidecarValues.writeFloat bits) := by
  unfold Writes writeFloat SidecarValues.writeFloat
  cases hbits : finiteBits bits with
  | none => exact ⟨_, rfl, fun writer => congrArg some (JsonText.writeRawValue_eq _)⟩
  | some value =>
    have hfinite : value ∈ (finiteBits bits).toList := hbits ▸ List.mem_singleton_self _
    obtain ⟨text, hformat, htext⟩ := textOf_formatFloat (h value hfinite)
    refine ⟨text, htext, fun writer => ?_⟩
    dsimp only
    rw [hformat, Option.map_some, JsonText.writeRawValue_eq]

/-- A value whose content is appended is appended with its kind. -/
theorem writes_tagged {value : Value} {content : Json} {text : List Char}
    {write : JsonText → Option JsonText} (hcontent : TextOf nearest content text)
    (h : ∀ writer, write writer =
      some ((startValue writer value).value text).writeEndObject) :
    Writes nearest write (tagged (kindName value) content) := by
  refine ⟨_, textOf_tagged hcontent, fun writer => ?_⟩
  rw [h writer, startValue_eq]

theorem textOf_bool (value : Bool) : TextOf nearest (.bool value)
    (if value then ['t', 'r', 'u', 'e'] else ['f', 'a', 'l', 's', 'e']) := by
  cases value <;> rfl

mutual

/-- A value is written as the capture runtime writes its counterpart. -/
theorem writes_value : ∀ {value : Value} {found : NativeValue},
    ClrValues.native value = some found →
      (∀ number ∈ floats value, RoundTrips shortest nearest number) →
        Writes nearest (writeValue shortest · value) (SidecarValues.writeValue found)
  | .string value, _, h, _ => by
      obtain ⟨text, htext, rfl⟩ := Option.map_eq_some_iff.mp h
      refine @writes_tagged _ (.string value) _ _ _ (textOf_string text) fun writer => ?_
      rw [writeValue, JsonText.writeStringValue_eq htext]
  | .integer value, _, h, _ => by
      obtain rfl := Option.some.inj h
      have hhigh := value.toInt_lt
      have htext := @textOf_integer nearest value.toInt value.le_toInt (by omega)
      refine @writes_tagged _ (.integer value) _ _ _ htext fun writer => ?_
      rw [writeValue, JsonText.writeNumberValue, JsonText.writeRawValue_eq]
  | .unsigned value, _, h, _ => by
      obtain rfl := Option.some.inj h
      have hhigh := value.toNat_lt
      have htext := @textOf_integer nearest value.toNat (by omega) (by omega)
      refine @writes_tagged _ (.unsigned value) _ _ _ htext fun writer => ?_
      rw [writeValue, JsonText.writeNumberValue, JsonText.writeRawValue_eq]
  | .float bits, _, h, hfloats => by
      obtain rfl := Option.some.inj h
      obtain ⟨text, htext, hwrite⟩ := writes_float hfloats
      dsimp only at hwrite
      refine @writes_tagged _ (.float bits) _ _ _ htext fun writer => ?_
      rw [writeValue, hwrite, Option.map_some]
  | .bool value, _, h, _ => by
      obtain rfl := Option.some.inj h
      refine @writes_tagged _ (.bool value) _ _ _ (textOf_bool value) fun writer => ?_
      rw [writeValue, JsonText.writeBooleanValue, JsonText.writeRawValue_eq]
  | .list values, _, h, hfloats => by
      obtain ⟨found, hfound, rfl⟩ := Option.map_eq_some_iff.mp h
      obtain ⟨texts, htexts, hwrite⟩ := writes_items hfound hfloats
      refine @writes_tagged _ (.list values) _ _ _ (textOf_array htexts) fun writer => ?_
      rw [writeValue, hwrite, Option.map_some, JsonText.array_eq]
  | .set values, _, h, hfloats => by
      obtain ⟨found, hfound, rfl⟩ := Option.map_eq_some_iff.mp h
      obtain ⟨texts, htexts, hwrite⟩ := writes_items hfound hfloats
      refine @writes_tagged _ (.set values) _ _ _ (textOf_array htexts) fun writer => ?_
      rw [writeValue, hwrite, Option.map_some, JsonText.array_eq]
  | .map entries, _, h, hfloats => by
      obtain ⟨found, hfound, rfl⟩ := Option.map_eq_some_iff.mp h
      obtain ⟨texts, htexts, hwrite⟩ := writes_entries hfound hfloats
      refine @writes_tagged _ (.map entries) _ _ _ (textOf_object htexts) fun writer => ?_
      rw [writeValue, hwrite, Option.map_some, JsonText.object_eq]
termination_by structural value => value

theorem writes_items : ∀ {values : List Value} {found : List NativeValue},
    ClrValues.natives values = some found →
      (∀ number ∈ floatsAll values, RoundTrips shortest nearest number) →
        ∃ texts, List.Forall₂ (TextOf nearest) (SidecarValues.writeValues found) texts ∧
          ∀ writer, writeItems shortest writer values = some (texts.foldl JsonText.value writer)
  | [], _, h, _ => by
      obtain rfl := Option.some.inj h
      exact ⟨[], .nil, fun _ => rfl⟩
  | value :: values, _, h, hfloats => by
      obtain ⟨_, _, hfirst, hothers, rfl⟩ := ClrValues.natives_cons h
      obtain ⟨text, htext, hwrite⟩ :=
        writes_value hfirst fun number hmem => hfloats number (List.mem_append_left _ hmem)
      dsimp only at hwrite
      obtain ⟨texts, htexts, hwrites⟩ :=
        writes_items hothers fun number hmem => hfloats number (List.mem_append_right _ hmem)
      refine ⟨text :: texts, .cons htext htexts, fun writer => ?_⟩
      rw [writeItems, hwrite, Option.bind_some, hwrites, List.foldl_cons]
termination_by structural values => values

theorem writes_entries : ∀ {entries : List (List UInt16 × Value)}
    {found : List (String × NativeValue)}, ClrValues.nativeEntries entries = some found →
      (∀ number ∈ floatsEntries entries, RoundTrips shortest nearest number) →
        ∃ texts, List.Forall₂ (MemberOf nearest) (SidecarValues.writeEntries found) texts ∧
          ∀ writer, writeEntries shortest writer entries = some (texts.foldl JsonText.member writer)
  | [], _, h, _ => by
      obtain rfl := Option.some.inj h
      exact ⟨[], .nil, fun _ => rfl⟩
  | (key, value) :: entries, _, h, hfloats => by
      obtain ⟨name, _, _, hname, hfirst, hothers, rfl⟩ := ClrValues.nativeEntries_cons h
      obtain ⟨text, htext, hwrite⟩ :=
        writes_value hfirst fun number hmem => hfloats number (List.mem_append_left _ hmem)
      dsimp only at hwrite
      obtain ⟨texts, htexts, hwrites⟩ :=
        writes_entries hothers fun number hmem => hfloats number (List.mem_append_right _ hmem)
      refine ⟨memberText name text :: texts, .cons (memberOf_memberText htext) htexts,
        fun writer => ?_⟩
      rw [writeEntries, hwrite, Option.bind_some, hwrites, List.foldl_cons,
        JsonText.value_writePropertyName hname]
termination_by structural entries => entries

end

end Values

/-! ### Captures of the capture runtime -/

def Observation.native (observation : Observation) :
    Option (CaptureSession.Observation NativeValue) :=
  (Utf16.text observation.name).bind fun name =>
    (ClrValues.native observation.observedValue).map fun value =>
      ⟨observation.order.toNat, observation.timeUnixNano.toInt, name, value⟩

/-- A payload that may be absent. -/
def nativePayload : Option Value → Option (Option NativeValue)
  | none => some none
  | some value => (ClrValues.native value).map some

def Completion.native : Completion → Option (CaptureSession.Completion NativeValue)
  | .result order timeUnixNano resultValue =>
      (ClrValues.native resultValue).map (.result order.toNat timeUnixNano.toInt)
  | .empty order timeUnixNano => some (.empty order.toNat timeUnixNano.toInt)
  | .error order timeUnixNano name errorValue =>
      (Utf16.text name).bind fun name =>
        (nativePayload errorValue).map (.error order.toNat timeUnixNano.toInt name)
  | .fault order timeUnixNano faultType message observer =>
      (Utf16.text faultType).bind fun faultType => (Utf16.text message).bind fun message =>
        (Utf16.text observer).map (.fault order.toNat timeUnixNano.toInt faultType message)
  | .abandoned order timeUnixNano => some (.abandoned order.toNat timeUnixNano.toInt)

def nativeCompletion : Option Completion → Option (Option (CaptureSession.Completion NativeValue))
  | none => some none
  | some completion => completion.native.map some

def OperationSpan.native (operation : OperationSpan) :
    Option (CaptureSession.OperationSpan NativeValue) :=
  (Utf16.text operation.componentId).bind fun componentId =>
    (Utf16.text operation.operationName).bind fun operationName =>
      (ClrValues.nativeEntries operation.inputs).bind fun inputs =>
        (Collecting.collect Observation.native operation.observations).bind fun observations =>
          (nativeCompletion operation.operationCompletion).map fun completion =>
            { order := operation.order.toNat
              spanId := operation.spanId
              parentId := operation.parentSpanId
              componentId := componentId
              operationName := operationName
              startNs := operation.startTimeUnixNano.toInt
              endNs := operation.endTimeUnixNano.toInt
              status := operation.status
              inputs := inputs
              observations := observations
              completion := completion }

def SpanBoundary.native (boundary : SpanBoundary) : CaptureSession.SpanBoundary where
  spanId := boundary.spanId
  parentId := boundary.parentSpanId
  startNs := boundary.startTimeUnixNano.toInt
  endNs := boundary.endTimeUnixNano.toInt
  status := boundary.status

/-- The capture of the capture runtime with the same content, if every text has one. -/
def Capture.native (capture : Capture) : Option (CaptureSession.Capture NativeValue) :=
  (Utf16.text capture.scenarioName).bind fun scenarioName =>
    (Collecting.collect OperationSpan.native capture.operations).map fun operations =>
      { traceId := capture.traceId
        scenarioName := scenarioName
        run := capture.run.native
        scenario := capture.scenario.native
        operations := operations }

/-! ### Floating-point numbers of a capture -/

def Completion.floats : Completion → List FiniteF64
  | .result _ _ resultValue => CaptureJson.floats resultValue
  | .error _ _ _ errorValue => errorValue.toList.flatMap CaptureJson.floats
  | .empty _ _ | .fault _ _ _ _ _ | .abandoned _ _ => []

def OperationSpan.floats (operation : OperationSpan) : List FiniteF64 :=
  floatsEntries operation.inputs ++
    (operation.observations.flatMap (CaptureJson.floats ·.observedValue) ++
      operation.operationCompletion.toList.flatMap Completion.floats)

def Capture.floats (capture : Capture) : List FiniteF64 :=
  capture.operations.flatMap OperationSpan.floats

section Captures

variable {shortest : FiniteF64 → String} {nearest : Bool → ℚ → Option FiniteF64}

/-- Items that are each appended as a value are appended one after the other. -/
theorem writes_each {α β : Type} {write : JsonText → α → Option JsonText} {image : α → Option β}
    {json : β → Json} {items : List α} {images : List β}
    (himages : Collecting.collect image items = some images)
    (h : ∀ item ∈ items, ∀ found, image item = some found →
      Writes nearest (write · item) (json found)) :
    ∃ texts, List.Forall₂ (TextOf nearest) (images.map json) texts ∧
      ∀ writer, writeEach write writer items = some (texts.foldl JsonText.value writer) := by
  induction items generalizing images with
  | nil =>
    obtain rfl := Option.some.inj himages
    exact ⟨[], .nil, fun _ => rfl⟩
  | cons item rest ih =>
    obtain ⟨found, hfound, himages⟩ := Option.bind_eq_some_iff.mp himages
    obtain ⟨others, hothers, rfl⟩ := Option.map_eq_some_iff.mp himages
    obtain ⟨text, htext, hwrite⟩ := h item List.mem_cons_self found hfound
    dsimp only at hwrite
    obtain ⟨texts, htexts, hwrites⟩ := ih hothers fun other hmem =>
      h other (List.mem_cons_of_mem _ hmem)
    refine ⟨text :: texts, .cons htext htexts, fun writer => ?_⟩
    rw [writeEach, hwrite, Option.bind_some, hwrites, List.foldl_cons]

theorem memberOf_time (name : String) (time : Int64) :
    MemberOf nearest (name, integerJson time.toInt) (memberText name (integerText time.toInt)) := by
  have hhigh := time.toInt_lt
  exact memberOf_memberText (textOf_integer time.le_toInt (by omega))

theorem memberOf_order (name : String) (order : UInt64) :
    MemberOf nearest (name, integerJson order.toNat)
      (memberText name (integerText order.toNat)) := by
  have hhigh := order.toNat_lt
  exact memberOf_memberText (textOf_integer (by omega) (by omega))

theorem memberOf_string (name content : String) :
    MemberOf nearest (name, .string content) (memberText name (quotedText content)) :=
  memberOf_memberText (textOf_string content)

theorem text_idText {length : Nat} (id : HexId length) : Utf16.text (idText id) = some id.text :=
  Utf16.text_encode id.text

/-- A boundary is appended as a value. -/
theorem writes_boundary (boundary : SpanBoundary) :
    ∃ text, TextOf nearest (.object (boundaryFields boundary.native)) text ∧
      ∀ writer, writeBoundary writer boundary = writer.value text := by
  obtain ⟨parent, hparent, hwrite⟩ : ∃ parent,
      MemberOf nearest ("parent_span_id", parentJson boundary.parentSpanId) parent ∧
        ∀ writer : JsonText, (match boundary.parentSpanId with
          | none => writer.writeNull "parent_span_id"
          | some parent => writer.writeString "parent_span_id" (idText parent)) =
            writer.member parent := by
    cases boundary.parentSpanId with
    | none => exact ⟨_, memberOf_memberText rfl, fun _ => JsonText.writeNull_eq⟩
    | some parent =>
      exact ⟨_, memberOf_string _ _, fun _ => JsonText.writeString_eq (text_idText parent)⟩
  refine ⟨_, textOf_object (.cons (memberOf_string _ _) (.cons hparent
    (.cons (memberOf_time _ _) (.cons (memberOf_time _ _) (.cons (memberOf_string _ _) .nil))))),
    fun writer => ?_⟩
  rw [← JsonText.object_eq]
  unfold writeBoundary
  dsimp only [List.foldl_cons, List.foldl_nil]
  rw [hwrite, JsonText.writeString_eq (text_idText _), JsonText.writeNumber_eq,
    JsonText.writeNumber_eq, JsonText.writeString_eq (JsonText.text_literal _)]
  rfl

theorem writes_observation {observation : Observation}
    {found : CaptureSession.Observation NativeValue} (h : observation.native = some found)
    (hfloats : ∀ number ∈ floats observation.observedValue, RoundTrips shortest nearest number) :
    Writes nearest (writeObservation shortest · observation) (observationJson found) := by
  obtain ⟨name, hname, h⟩ := Option.bind_eq_some_iff.mp h
  obtain ⟨value, hvalue, rfl⟩ := Option.map_eq_some_iff.mp h
  obtain ⟨text, htext, hwrite⟩ := writes_value hvalue hfloats
  dsimp only at hwrite
  refine ⟨_, textOf_object (.cons (memberOf_order _ _) (.cons (memberOf_time _ _)
    (.cons (memberOf_string _ _) (.cons (memberOf_memberText htext) .nil)))), fun writer => ?_⟩
  rw [← JsonText.object_eq]
  unfold writeObservation
  dsimp only [List.foldl_cons, List.foldl_nil]
  rw [hwrite, Option.map_some, JsonText.value_writePropertyName (JsonText.text_literal _),
    JsonText.writeString_eq hname, JsonText.writeNumber_eq, JsonText.writeNumber_eq]

/-- The members that every completion starts with. -/
theorem startCompletion_eq (writer : JsonText) (kind : String) (order : UInt64)
    (timeUnixNano : Int64) : startCompletion writer kind order timeUnixNano =
      [memberText "kind" (quotedText kind), memberText "order" (integerText order.toNat),
        memberText "time_unix_nano" (integerText timeUnixNano.toInt)].foldl JsonText.member
          writer.writeStartObject := by
  unfold startCompletion
  rw [JsonText.writeString_eq (JsonText.text_literal _), JsonText.writeNumber_eq,
    JsonText.writeNumber_eq]
  rfl

/-- More members after those. -/
theorem completion_eq (writer : JsonText) (kind : String) (order : UInt64) (timeUnixNano : Int64)
    (texts : List (List Char)) :
    (texts.foldl JsonText.member (startCompletion writer kind order timeUnixNano)).writeEndObject =
      writer.value (objectText (memberText "kind" (quotedText kind) ::
        memberText "order" (integerText order.toNat) ::
          memberText "time_unix_nano" (integerText timeUnixNano.toInt) :: texts)) := by
  rw [← JsonText.object_eq, startCompletion_eq]
  rfl

theorem textOf_stamped {kind : String} {order : UInt64} {timeUnixNano : Int64}
    {rest : List (String × Json)} {texts : List (List Char)}
    (h : List.Forall₂ (MemberOf nearest) rest texts) :
    TextOf nearest (.object (stamped kind order.toNat timeUnixNano.toInt rest))
      (objectText (memberText "kind" (quotedText kind) ::
        memberText "order" (integerText order.toNat) ::
          memberText "time_unix_nano" (integerText timeUnixNano.toInt) :: texts)) :=
  textOf_object (.cons (memberOf_string _ _) (.cons (memberOf_order _ _)
    (.cons (memberOf_time _ _) h)))

theorem writes_completion {completion : Option Completion}
    {found : Option (CaptureSession.Completion NativeValue)}
    (h : nativeCompletion completion = some found)
    (hfloats : ∀ number ∈ completion.toList.flatMap Completion.floats,
      RoundTrips shortest nearest number) :
    Writes nearest (writeCompletion shortest · completion) (optionalCompletion found) := by
  cases completion with
  | none =>
    obtain rfl := Option.some.inj h
    exact ⟨_, rfl, fun _ => congrArg some (JsonText.writeRawValue_eq _)⟩
  | some completion =>
    obtain ⟨found, hfound, rfl⟩ := Option.map_eq_some_iff.mp h
    rw [Option.toList_some, List.flatMap_singleton] at hfloats
    cases completion with
    | result order timeUnixNano resultValue =>
      obtain ⟨value, hvalue, rfl⟩ := Option.map_eq_some_iff.mp hfound
      obtain ⟨text, htext, hwrite⟩ := writes_value hvalue hfloats
      dsimp only at hwrite
      refine ⟨_, textOf_stamped (.cons (memberOf_memberText htext) .nil), fun writer => ?_⟩
      rw [← completion_eq]
      unfold writeCompletion
      dsimp only
      rw [hwrite, Option.map_some,
        JsonText.value_writePropertyName (JsonText.text_literal _)]
      rfl
    | empty order timeUnixNano =>
      obtain rfl := Option.some.inj hfound
      refine ⟨_, textOf_stamped .nil, fun writer => ?_⟩
      rw [← completion_eq]
      rfl
    | error order timeUnixNano name errorValue =>
      obtain ⟨content, hname, hfound⟩ := Option.bind_eq_some_iff.mp hfound
      obtain ⟨payload, hpayload, rfl⟩ := Option.map_eq_some_iff.mp hfound
      cases errorValue with
      | none =>
        obtain rfl := Option.some.inj hpayload
        refine ⟨_, textOf_stamped (.cons (memberOf_string _ _) .nil), fun writer => ?_⟩
        rw [← completion_eq]
        unfold writeCompletion
        dsimp only
        rw [JsonText.writeString_eq hname]
        rfl
      | some value =>
        obtain ⟨value, hvalue, rfl⟩ := Option.map_eq_some_iff.mp hpayload
        have hnumbers : ∀ number ∈ floats _, RoundTrips shortest nearest number :=
          fun number hmem =>
            hfloats number (List.mem_flatMap.mpr ⟨_, List.mem_singleton_self _, hmem⟩)
        obtain ⟨text, htext, hwrite⟩ := writes_value hvalue hnumbers
        dsimp only at hwrite
        refine ⟨_, textOf_stamped (.cons (memberOf_string _ _)
          (.cons (memberOf_memberText htext) .nil)), fun writer => ?_⟩
        rw [← completion_eq]
        unfold writeCompletion
        dsimp only
        rw [JsonText.writeString_eq hname]
        rw [hwrite, Option.map_some, JsonText.value_writePropertyName (JsonText.text_literal _)]
        rfl
    | fault order timeUnixNano faultType message observer =>
      obtain ⟨_, htype, hfound⟩ := Option.bind_eq_some_iff.mp hfound
      obtain ⟨_, hmessage, hfound⟩ := Option.bind_eq_some_iff.mp hfound
      obtain ⟨_, hobserver, rfl⟩ := Option.map_eq_some_iff.mp hfound
      refine ⟨_, textOf_stamped (.cons (memberOf_string _ _) (.cons (memberOf_string _ _)
        (.cons (memberOf_string _ _) .nil))), fun writer => ?_⟩
      rw [← completion_eq]
      unfold writeCompletion
      dsimp only
      rw [JsonText.writeString_eq htype,
        JsonText.writeString_eq hmessage, JsonText.writeString_eq hobserver]
      rfl
    | abandoned order timeUnixNano =>
      obtain rfl := Option.some.inj hfound
      refine ⟨_, textOf_stamped .nil, fun writer => ?_⟩
      rw [← completion_eq]
      rfl

theorem writes_operation {operation : OperationSpan}
    {found : CaptureSession.OperationSpan NativeValue} (h : operation.native = some found)
    (hfloats : ∀ number ∈ operation.floats, RoundTrips shortest nearest number) :
    Writes nearest (writeOperation shortest · operation) (operationJson found) := by
  obtain ⟨componentId, hcomponent, h⟩ := Option.bind_eq_some_iff.mp h
  obtain ⟨operationName, hname, h⟩ := Option.bind_eq_some_iff.mp h
  obtain ⟨inputs, hinputs, h⟩ := Option.bind_eq_some_iff.mp h
  obtain ⟨observations, hobservations, h⟩ := Option.bind_eq_some_iff.mp h
  obtain ⟨completion, hcompletion, rfl⟩ := Option.map_eq_some_iff.mp h
  obtain ⟨inputTexts, hinputTexts, hwriteInputs⟩ := writes_entries hinputs
    fun number hmem => hfloats number (List.mem_append_left _ hmem)
  obtain ⟨texts, htexts, hwriteObservations⟩ := @writes_each nearest _ _
    (writeObservation shortest) _ observationJson _ _ hobservations fun item hitem found hfound =>
      writes_observation hfound fun number hmem => hfloats number (List.mem_append_right _
        (List.mem_append_left _ (List.mem_flatMap.mpr ⟨item, hitem, hmem⟩)))
  obtain ⟨text, htext, hwriteCompletion⟩ := writes_completion hcompletion
    fun number hmem => hfloats number (List.mem_append_right _ (List.mem_append_right _ hmem))
  dsimp only at hwriteCompletion
  refine ⟨_, textOf_object (.cons (memberOf_order _ _) (.cons (memberOf_string _ _)
    (.cons (memberOf_string _ _) (.cons (memberOf_string _ _) (.cons (memberOf_string _ _)
    (.cons (memberOf_time _ _) (.cons (memberOf_time _ _) (.cons (memberOf_string _ _)
    (.cons (memberOf_memberText (textOf_object hinputTexts))
    (.cons (memberOf_memberText (textOf_array htexts))
    (.cons (memberOf_memberText htext) .nil))))))))))), fun writer => ?_⟩
  rw [← JsonText.object_eq]
  unfold writeOperation
  dsimp only [List.foldl_cons, List.foldl_nil]
  rw [hwriteInputs]
  dsimp only [Option.bind_eq_bind, Option.bind_some]
  rw [JsonText.object_eq, JsonText.value_writePropertyName (JsonText.text_literal _),
    hwriteObservations]
  dsimp only [Option.bind_some]
  rw [JsonText.array_eq, JsonText.value_writePropertyName (JsonText.text_literal _),
    hwriteCompletion]
  dsimp only [Option.bind_some]
  rw [JsonText.value_writePropertyName (JsonText.text_literal _), JsonText.writeNumber_eq,
    JsonText.writeString_eq (text_idText _), JsonText.writeString_eq (text_idText _),
    JsonText.writeString_eq hcomponent, JsonText.writeString_eq hname, JsonText.writeNumber_eq,
    JsonText.writeNumber_eq, JsonText.writeString_eq (JsonText.text_literal _)]
  rfl

theorem writes_capture {capture : Capture} {found : CaptureSession.Capture NativeValue}
    (h : capture.native = some found)
    (hfloats : ∀ number ∈ capture.floats, RoundTrips shortest nearest number) :
    Writes nearest (writeCapture shortest · capture) (document found) := by
  obtain ⟨scenarioName, hname, h⟩ := Option.bind_eq_some_iff.mp h
  obtain ⟨operations, hoperations, rfl⟩ := Option.map_eq_some_iff.mp h
  obtain ⟨texts, htexts, hwrite⟩ := @writes_each nearest _ _ (writeOperation shortest) _
    operationJson _ _ hoperations fun item hitem found hfound =>
      writes_operation hfound fun number hmem =>
        hfloats number (List.mem_flatMap.mpr ⟨item, hitem, hmem⟩)
  obtain ⟨run, hrun, hwriteRun⟩ := @writes_boundary nearest capture.run
  obtain ⟨scenario, hscenario, hwriteScenario⟩ := @writes_boundary nearest capture.scenario
  refine ⟨_, textOf_object (.cons (memberOf_string _ _) (.cons (memberOf_string _ _)
    (.cons (memberOf_memberText hrun) (.cons (memberOf_memberText hscenario)
    (.cons (memberOf_memberText (textOf_array htexts)) .nil))))), fun writer => ?_⟩
  rw [← JsonText.object_eq]
  unfold writeCapture
  dsimp only [List.foldl_cons, List.foldl_nil]
  rw [hwriteRun, hwriteScenario, hwrite]
  dsimp only [Option.bind_eq_bind, Option.bind_some]
  rw [JsonText.array_eq, JsonText.value_writePropertyName (JsonText.text_literal _),
    JsonText.value_writePropertyName (JsonText.text_literal _),
    JsonText.value_writePropertyName (JsonText.text_literal _),
    JsonText.writeString_eq (text_idText _), JsonText.writeString_eq hname]
  rfl

/-- The text of a capture spells the document of its counterpart. -/
theorem serialize_spells {capture : Capture} {found : CaptureSession.Capture NativeValue}
    (h : capture.native = some found)
    (hfloats : ∀ number ∈ capture.floats, RoundTrips shortest nearest number) :
    ∃ text, serialize shortest capture = some text ∧
      TextOf nearest (document found) text.toList := by
  obtain ⟨text, htext, hwrite⟩ := writes_capture h hfloats
  dsimp only at hwrite
  refine ⟨String.ofList text, ?_, ?_⟩
  · unfold serialize
    rw [hwrite, Option.map_some]
    unfold JsonText.value
    dsimp only
    rw [List.nil_append, Bool.and_false, if_neg Bool.false_ne_true, Utf16.decode_encode]
  · rw [String.toList_ofList]
    exact htext

end Captures

end SpecGate.CaptureJson

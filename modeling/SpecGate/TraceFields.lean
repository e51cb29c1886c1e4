import SpecGate.JsonTrees
import SpecGate.WireReading

/-!
The fields of a trace document as the trace loader reads them from JSON. Every field may
also be spelled in snake case; a value selects exactly one variant; parts that cannot be
read are reported and left out.
-/
namespace SpecGate.TraceFields

open JsonTrees Validation SortedAssoc OtlpScalars
open Values (AnyValue FiniteF64 F64Value)
open WireReading (TextReaders orIssue)

/-- How the loader reads numbers: the text of a number that is not an integer, and the
binary64 number closest to an integer. -/
structure NumberReaders extends TextReaders where
  floatText : FiniteF64 → String
  nearest : Int → FiniteF64

/-- The spelling of a field in snake case, where it differs. -/
def alternate (key : String) : String :=
  if key = "stringValue" then "string_value"
  else if key = "boolValue" then "bool_value"
  else if key = "intValue" then "int_value"
  else if key = "doubleValue" then "double_value"
  else if key = "bytesValue" then "bytes_value"
  else if key = "arrayValue" then "array_value"
  else if key = "kvlistValue" then "kvlist_value"
  else if key = "resourceSpans" then "resource_spans"
  else if key = "scopeSpans" then "scope_spans"
  else if key = "traceId" then "trace_id"
  else if key = "spanId" then "span_id"
  else if key = "parentSpanId" then "parent_span_id"
  else if key = "startTimeUnixNano" then "start_time_unix_nano"
  else if key = "endTimeUnixNano" then "end_time_unix_nano"
  else if key = "droppedAttributesCount" then "dropped_attributes_count"
  else if key = "droppedEventsCount" then "dropped_events_count"
  else if key = "droppedLinksCount" then "dropped_links_count"
  else key

def jsonField (entries : List (String × Json)) (key : String) : Option Json :=
  (Json.field entries key).or (Json.field entries (alternate key))

def asString : Json → Option String
  | .string value => some value
  | _ => none

/-! ### Scalars -/

/-- The text of a number. -/
def numberText (readers : NumberReaders) : Number → String
  | .integer value => toString value
  | .float value => readers.floatText value

/-- The text an integer is read from: that of a number or of a string. -/
def integerText (readers : NumberReaders) : Json → Option String
  | .number value => some (numberText readers value)
  | .string value => some value
  | _ => none

def parseI64 (readers : NumberReaders) (json : Json) : Option Int :=
  (integerText readers json).bind parseTextI64

def parseU64 (readers : NumberReaders) (json : Json) : Option Int :=
  (integerText readers json).bind parseTextU64

def parseU32 (readers : NumberReaders) (json : Json) : Option Int :=
  (integerText readers json).bind (parseWithin 0 (2 ^ 32 - 1))

def parseDouble (readers : NumberReaders) : Json → Option F64Value
  | .number (.integer value) => some (.finite (readers.nearest value))
  | .number (.float value) => some (.finite value)
  | .string text => WireReading.parseDouble readers.toTextReaders (.symbol text)
  | _ => none

/-! ### Values -/

def valueKeys : List String :=
  ["stringValue", "boolValue", "intValue", "doubleValue", "bytesValue", "arrayValue",
    "kvlistValue"]

/-- The variants that an object selects. -/
def selectedKeys (entries : List (String × Json)) : List String :=
  valueKeys.filter fun key => (jsonField entries key).isSome

/-- A value of a scalar variant. -/
def parseScalar (readers : NumberReaders) (path selected : String) (raw : Json)
    (location : String) : Option AnyValue × List ValidationIssue :=
  if selected = "stringValue" then
    orIssue ((asString raw).map .string) path location "stringValue must be a string"
  else if selected = "boolValue" then
    match raw with
    | .bool value => (some (.bool value), [])
    | _ => (none, issue (located path location) "boolValue must be a boolean")
  else if selected = "intValue" then
    orIssue ((parseI64 readers raw).map fun value => .int (Int64.ofInt value)) path location
      "intValue must contain an OTLP int64 JSON number or numeric string"
  else if selected = "doubleValue" then
    orIssue ((parseDouble readers raw).map .double) path location
      "doubleValue must be an OTLP number or numeric/symbolic string"
  else
    orIssue (((asString raw).bind readers.decodeBase64).map .bytes) path location
      "bytesValue must be valid base64"

/-- A value of a variant whose content is not an object. -/
def parseFlat (readers : NumberReaders) (path selected : String) (raw : Json)
    (location : String) : Option AnyValue × List ValidationIssue :=
  if selected = "arrayValue" then (none, issue (located path location) "arrayValue must be an object")
  else if selected = "kvlistValue" then
    (none, issue (located path location) "kvlistValue must be an object")
  else parseScalar readers path selected raw location

mutual

/-- Read one value; parts that cannot be read are reported and left out. -/
def parseValue (readers : NumberReaders) (path : String) :
    Json → String → Option AnyValue × List ValidationIssue
  | .object entries, location =>
      match selectedKeys entries with
      | [selected] =>
          if entries.length = 1 then parseSelected readers path selected entries location
          else (none, issue (located path location)
            "AnyValue must select exactly one concrete value variant")
      | _ => (none, issue (located path location)
          "AnyValue must select exactly one concrete value variant")
  | .null, location | .bool _, location | .number _, location | .string _, location
  | .array _, location => (none, issue (located path location) "AnyValue must be an object")
termination_by structural json => json

/-- The selected variant is the only member of its object. -/
def parseSelected (readers : NumberReaders) (path selected : String) :
    List (String × Json) → String → Option AnyValue × List ValidationIssue
  | [], _ => (none, [])
  | (_, raw) :: _, location => parseRaw readers path selected raw location
termination_by structural entries => entries

def parseRaw (readers : NumberReaders) (path selected : String) :
    Json → String → Option AnyValue × List ValidationIssue
  | .object members, location =>
      if selected = "arrayValue" then parseArray readers path members location
      else if selected = "kvlistValue" then parseKvlist readers path members location
      else parseScalar readers path selected (.object members) location
  | .null, location => parseFlat readers path selected .null location
  | .bool value, location => parseFlat readers path selected (.bool value) location
  | .number value, location => parseFlat readers path selected (.number value) location
  | .string value, location => parseFlat readers path selected (.string value) location
  | .array values, location => parseFlat readers path selected (.array values) location
termination_by structural json => json

/-- The elements of an array value. -/
def parseArray (readers : NumberReaders) (path : String) :
    List (String × Json) → String → Option AnyValue × List ValidationIssue
  | [], _ => (some (.array []), [])
  | (key, value) :: rest, location =>
      if key = "values" then parseElements readers path value location
      else parseArray readers path rest location
termination_by structural members => members

def parseElements (readers : NumberReaders) (path : String) :
    Json → String → Option AnyValue × List ValidationIssue
  | .null, _ => (some (.array []), [])
  | .array values, location =>
      let parsed := parseItems readers path values 0 location
      (some (.array parsed.1), parsed.2)
  | .bool _, location | .number _, location | .string _, location | .object _, location =>
      (none, issue (located path location) "value must contain a values array")
termination_by structural json => json

def parseItems (readers : NumberReaders) (path : String) :
    List Json → Nat → String → List AnyValue × List ValidationIssue
  | [], _, _ => ([], [])
  | value :: rest, index, location =>
      let parsed := parseValue readers path value s!"{location}[{index}]"
      let others := parseItems readers path rest (index + 1) location
      (parsed.1.toList ++ others.1, parsed.2 ++ others.2)
termination_by structural values => values

/-- The entries of a key/value list. -/
def parseKvlist (readers : NumberReaders) (path : String) :
    List (String × Json) → String → Option AnyValue × List ValidationIssue
  | [], _ => (some (.kvList []), [])
  | (key, value) :: rest, location =>
      if key = "values" then parsePairs readers path value location
      else parseKvlist readers path rest location
termination_by structural members => members

def parsePairs (readers : NumberReaders) (path : String) :
    Json → String → Option AnyValue × List ValidationIssue
  | .null, _ => (some (.kvList []), [])
  | .array values, location =>
      let parsed := parseEntries readers path values 0 [] location
      (some (.kvList parsed.1), parsed.2)
  | .bool _, location | .number _, location | .string _, location | .object _, location =>
      (none, issue (located path location) "value must contain a values array")
termination_by structural json => json

/-- Add the entries of a key/value list to a map; an entry whose key is there already is
reported. -/
def parseEntries (readers : NumberReaders) (path : String) :
    List Json → Nat → List (String × AnyValue) → String →
      List (String × AnyValue) × List ValidationIssue
  | [], _, map, _ => (map, [])
  | item :: rest, index, map, location =>
      let parsed := parseEntry readers path item index map location
      let others := parseEntries readers path rest (index + 1) parsed.1 location
      (others.1, parsed.2 ++ others.2)
termination_by structural values => values

def parseEntry (readers : NumberReaders) (path : String) :
    Json → Nat → List (String × AnyValue) → String →
      List (String × AnyValue) × List ValidationIssue
  | .object members, index, map, location =>
      match (jsonField members "key").bind asString with
      | none => (map, issue (located path s!"{location}.{index}")
          "kvlist item must contain a string key")
      | some key =>
          if SortedAssoc.contains map key then
            (map, issue (located path location) s!"duplicate kvlist key '{key}'")
          else if (jsonField members "value").isNone then
            (map, issue (located path s!"{location}.{index}")
              "kvlist item must contain an AnyValue")
          else
            let parsed := parseChild readers path members s!"{location}.{key}"
            match parsed.1 with
            | some value => (SortedAssoc.insert key value map, parsed.2)
            | none => (map, parsed.2)
  | .null, index, map, location | .bool _, index, map, location
  | .number _, index, map, location | .string _, index, map, location
  | .array _, index, map, location =>
      (map, issue (located path s!"{location}.{index}") "kvlist item must be an object")
termination_by structural json => json

/-- The value among the members of an entry. -/
def parseChild (readers : NumberReaders) (path : String) :
    List (String × Json) → String → Option AnyValue × List ValidationIssue
  | [], _ => (none, [])
  | (key, child) :: rest, location =>
      if key = "value" then parseValue readers path child location
      else parseChild readers path rest location
termination_by structural members => members

end

/-! ### Values read without an issue -/

/-- The loader reads a value as the given one, wherever it stands. -/
def ReadsAs (readers : NumberReaders) (json : Json) (value : AnyValue) : Prop :=
  ∀ path location, parseValue readers path json location = (some value, [])

section Reading

variable {readers : NumberReaders}

theorem parseValue_single {key : String} {raw : Json} (hkey : selectedKeys [(key, raw)] = [key])
    (path location : String) :
    parseValue readers path (.object [(key, raw)]) location =
      parseRaw readers path key raw location := by
  rw [parseValue, hkey]
  rfl

theorem readsAs_string (text : String) :
    ReadsAs readers (.object [("stringValue", .string text)]) (.string text) := by
  intro path location
  rw [parseValue_single rfl]
  rfl

theorem readsAs_bool (value : Bool) :
    ReadsAs readers (.object [("boolValue", .bool value)]) (.bool value) := by
  intro path location
  rw [parseValue_single rfl]
  rfl

theorem readsAs_int {text : String} {value : Int} (h : parseTextI64 text = some value) :
    ReadsAs readers (.object [("intValue", .string text)]) (.int (Int64.ofInt value)) := by
  intro path location
  have hscalar : parseI64 readers (.string text) = some value := h
  rw [parseValue_single rfl, parseRaw]
  change orIssue ((parseI64 readers (.string text)).map _) path location _ = _
  rw [hscalar]
  rfl

theorem readsAs_double {raw : Json} {value : F64Value} (h : parseDouble readers raw = some value)
    (hflat : ∀ path location, parseRaw readers path "doubleValue" raw location =
      parseFlat readers path "doubleValue" raw location) :
    ReadsAs readers (.object [("doubleValue", raw)]) (.double value) := by
  intro path location
  rw [parseValue_single rfl, hflat]
  change orIssue ((parseDouble readers raw).map .double) path location _ = _
  rw [h]
  rfl

theorem parseItems_of_readsAs {items : List Json} {values : List AnyValue}
    (h : List.Forall₂ (ReadsAs readers) items values) (path location : String) (index : Nat) :
    parseItems readers path items index location = (values, []) := by
  induction h generalizing index with
  | nil => rw [parseItems]
  | cons hvalue _ ih =>
    rw [parseItems, hvalue, ih]
    rfl

theorem readsAs_array {items : List Json} {values : List AnyValue}
    (h : List.Forall₂ (ReadsAs readers) items values) :
    ReadsAs readers (.object [("arrayValue", .object [("values", .array items)])])
      (.array values) := by
  intro path location
  rw [parseValue_single rfl, parseRaw, if_pos rfl, parseArray, if_pos rfl, parseElements,
    parseItems_of_readsAs h]

/-- An entry of a key/value list or an attribute. -/
def entryJson (key : String) (value : Json) : Json :=
  .object [("key", .string key), ("value", value)]

/-- An entry is read under its key. -/
def ReadsEntry (readers : NumberReaders) (item : Json) (entry : String × AnyValue) : Prop :=
  ∃ raw, item = entryJson entry.1 raw ∧ ReadsAs readers raw entry.2

theorem parseEntry_of_reads {item : Json} {entry : String × AnyValue}
    (h : ReadsEntry readers item entry) {map : List (String × AnyValue)}
    (hnew : entry.1 ∉ keys map) (path location : String) (index : Nat) :
    parseEntry readers path item index map location =
      (SortedAssoc.insert entry.1 entry.2 map, []) := by
  obtain ⟨raw, rfl, hraw⟩ := h
  have habsent : SortedAssoc.contains map entry.1 = false := by
    rw [Bool.eq_false_iff, ne_eq, contains_iff]
    exact hnew
  have hkey : (jsonField [("key", .string entry.1), ("value", raw)] "key").bind asString =
      some entry.1 := rfl
  have hvalue : (jsonField [("key", .string entry.1), ("value", raw)] "value").isNone = false := rfl
  rw [entryJson, parseEntry, hkey]
  dsimp only
  rw [habsent, if_neg Bool.false_ne_true, hvalue, if_neg Bool.false_ne_true, parseChild,
    if_neg (by decide), parseChild, if_pos rfl, hraw]

theorem parseEntries_of_reads {items : List Json} {entries : List (String × AnyValue)}
    (h : List.Forall₂ (ReadsEntry readers) items entries) (hnodup : (keys entries).Nodup)
    (path location : String) (index : Nat) {map : List (String × AnyValue)}
    (hnew : ∀ key ∈ keys entries, key ∉ keys map) :
    parseEntries readers path items index map location =
      (entries.foldl (fun map entry => SortedAssoc.insert entry.1 entry.2 map) map, []) := by
  induction h generalizing map index with
  | nil => rw [parseEntries]; rfl
  | @cons item entry items entries hentry hrest ih =>
    rw [keys_cons, List.nodup_cons] at hnodup
    have hothers : ∀ other ∈ keys entries,
        other ∉ keys (SortedAssoc.insert entry.1 entry.2 map) := by
      intro other hother hmem
      by_cases hsame : other = entry.1
      · exact hnodup.1 (hsame ▸ hother)
      · apply hnew other (List.mem_cons_of_mem _ hother)
        exact (mem_keys_insert.mp hmem).resolve_left hsame
    rw [parseEntries, parseEntry_of_reads hentry (hnew _ List.mem_cons_self)]
    dsimp only
    rw [ih hnodup.2 _ hothers]
    rfl

theorem readsAs_kvlist {items : List Json} {entries : List (String × AnyValue)}
    (h : List.Forall₂ (ReadsEntry readers) items entries) (hsorted : Sorted entries) :
    ReadsAs readers (.object [("kvlistValue", .object [("values", .array items)])])
      (.kvList entries) := by
  intro path location
  rw [parseValue_single rfl, parseRaw, if_neg (by decide), if_pos rfl, parseKvlist, if_pos rfl,
    parsePairs, parseEntries_of_reads h hsorted.keys_nodup path location 0
      (fun _ _ => List.not_mem_nil)]
  exact congrArg (fun map => (some (AnyValue.kvList map), [])) (ofList_of_sorted hsorted)

theorem readsAs_kvlist_nil : ReadsAs readers (.object [("kvlistValue", .object [])]) (.kvList []) := by
  intro path location
  rw [parseValue_single rfl, parseRaw, if_neg (by decide), if_pos rfl, parseKvlist]

end Reading

end SpecGate.TraceFields

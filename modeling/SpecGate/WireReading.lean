import SpecGate.OtlpScalars
import SpecGate.ReplayModel
import SpecGate.SortedAssoc
import SpecGate.Validation

/-!
The trace loader's reading of wire values. Integers may take any of the decimal forms of
the mapping, numbers may be symbols, and a key/value list becomes a map whose keys must not
repeat. Numeric texts of other numbers and base64 texts are read by parameters.
-/
namespace SpecGate.WireReading

open Validation SortedAssoc OtlpScalars
open Values (FiniteF64 F64Value)
open ReplayModel (DoubleValue KeyValues)

structure TextReaders where
  parseF64 : String → Option FiniteF64
  decodeBase64 : String → Option (List UInt8)

def parseDouble (readers : TextReaders) : DoubleValue → Option F64Value
  | .number value => some (.finite value)
  | .symbol text =>
      if text = "NaN" then some .nan
      else if text = "Infinity" then some .infinity
      else if text = "-Infinity" then some .negativeInfinity
      else (readers.parseF64 text).map .finite

/-- A scalar, or the issue that it cannot be read. -/
def orIssue (value : Option Values.AnyValue) (path location message : String) :
    Option Values.AnyValue × List ValidationIssue :=
  match value with
  | some value => (some value, [])
  | none => (none, issue (located path location) message)

mutual

/-- Read one value; parts that cannot be read are reported and left out. -/
def parseValue (readers : TextReaders) (path : String) :
    ReplayModel.AnyValue → String → Option Values.AnyValue × List ValidationIssue
  | .string text, _ => (some (.string text), [])
  | .bool value, _ => (some (.bool value), [])
  | .int text, location =>
      orIssue ((parseTextI64 text).map fun value => .int (Int64.ofInt value)) path location
        "intValue must contain an OTLP int64 JSON number or numeric string"
  | .double value, location =>
      orIssue ((parseDouble readers value).map .double) path location
        "doubleValue must be an OTLP number or numeric/symbolic string"
  | .bytes text, location =>
      orIssue ((readers.decodeBase64 text).map .bytes) path location
        "bytesValue must be valid base64"
  | .array values, location =>
      let parsed := parseItems readers path values 0 location
      (some (.array parsed.1), parsed.2)
  | .kvlist entries, location =>
      let parsed := parseEntries readers path entries [] location
      (some (.kvList parsed.1), parsed.2)
termination_by structural value => value

def parseItems (readers : TextReaders) (path : String) :
    List ReplayModel.AnyValue → Nat → String → List Values.AnyValue × List ValidationIssue
  | [], _, _ => ([], [])
  | value :: rest, index, location =>
      let parsed := parseValue readers path value s!"{location}[{index}]"
      let others := parseItems readers path rest (index + 1) location
      (parsed.1.toList ++ others.1, parsed.2 ++ others.2)
termination_by structural values => values

/-- Add the entries of a key/value list to a map; an entry whose key is there already is
reported. -/
def parseEntries (readers : TextReaders) (path : String) :
    KeyValues → List (String × Values.AnyValue) → String →
      List (String × Values.AnyValue) × List ValidationIssue
  | [], map, _ => (map, [])
  | (key, child) :: rest, map, location =>
      if SortedAssoc.contains map key then
        let others := parseEntries readers path rest map location
        (others.1, issue (located path location) s!"duplicate kvlist key '{key}'" ++ others.2)
      else
        let parsed := parseValue readers path child s!"{location}.{key}"
        let extended := match parsed.1 with
          | some value => SortedAssoc.insert key value map
          | none => map
        let others := parseEntries readers path rest extended location
        (others.1, parsed.2 ++ others.2)
termination_by structural entries => entries

end

example (readers : TextReaders) (path location : String) :
    parseValue readers path (.array [.kvlist []]) location = (some (.array [.kvList []]), []) := by
  rw [parseValue, parseItems, parseValue, parseEntries, parseItems]
  rfl

/-! ### Values read without an issue -/

/-- The loader reads a wire value as the given value, wherever it stands. -/
def Reads (readers : TextReaders) (wire : ReplayModel.AnyValue) (value : Values.AnyValue) : Prop :=
  ∀ path location, parseValue readers path wire location = (some value, [])

section Reading

variable {readers : TextReaders}

theorem Reads.unique {wire : ReplayModel.AnyValue} {left right : Values.AnyValue}
    (hleft : Reads readers wire left) (hright : Reads readers wire right) : left = right := by
  have h := (hleft "" "").symm.trans (hright "" "")
  exact Option.some.inj (Prod.mk.inj h).1

theorem reads_string (text : String) : Reads readers (.string text) (.string text) := by
  intro path location
  rw [parseValue]

theorem reads_bool (value : Bool) : Reads readers (.bool value) (.bool value) := by
  intro path location
  rw [parseValue]

theorem reads_int {text : String} {value : Int} (h : parseTextI64 text = some value) :
    Reads readers (.int text) (.int (Int64.ofInt value)) := by
  intro path location
  rw [parseValue, h]
  rfl

theorem reads_double {wire : DoubleValue} {value : F64Value}
    (h : parseDouble readers wire = some value) : Reads readers (.double wire) (.double value) := by
  intro path location
  rw [parseValue, h]
  rfl

theorem parseItems_of_reads {wires : List ReplayModel.AnyValue} {values : List Values.AnyValue}
    (h : List.Forall₂ (Reads readers) wires values) (path location : String) (index : Nat) :
    parseItems readers path wires index location = (values, []) := by
  induction h generalizing index with
  | nil => rw [parseItems]
  | cons hvalue _ ih =>
    rw [parseItems, hvalue, ih]
    rfl

theorem reads_array {wires : List ReplayModel.AnyValue} {values : List Values.AnyValue}
    (h : List.Forall₂ (Reads readers) wires values) : Reads readers (.array wires) (.array values) := by
  intro path location
  rw [parseValue, parseItems_of_reads h]

/-- A wire entry is read under its key. -/
def ReadsEntry (readers : TextReaders) (wire : String × ReplayModel.AnyValue)
    (entry : String × Values.AnyValue) : Prop :=
  wire.1 = entry.1 ∧ Reads readers wire.2 entry.2

theorem parseEntries_of_reads {wires : KeyValues} {entries : List (String × Values.AnyValue)}
    (h : List.Forall₂ (ReadsEntry readers) wires entries) (hnodup : (keys entries).Nodup)
    (path location : String) {map : List (String × Values.AnyValue)}
    (hnew : ∀ key ∈ keys entries, key ∉ keys map) :
    parseEntries readers path wires map location =
      (entries.foldl (fun map entry => SortedAssoc.insert entry.1 entry.2 map) map, []) := by
  induction h generalizing map with
  | nil => rw [parseEntries]; rfl
  | @cons wire entry wires entries hentry hrest ih =>
    obtain ⟨key, child⟩ := wire
    obtain ⟨rfl, hreads⟩ := hentry
    rw [keys_cons, List.nodup_cons] at hnodup
    have habsent : SortedAssoc.contains map entry.1 = false := by
      rw [Bool.eq_false_iff, ne_eq, contains_iff]
      exact hnew _ List.mem_cons_self
    have hothers : ∀ other ∈ keys entries,
        other ∉ keys (SortedAssoc.insert entry.1 entry.2 map) := by
      intro other hother hmem
      rcases mem_keys_insert.mp hmem with rfl | hold
      · exact hnodup.1 hother
      · exact hnew other (List.mem_cons_of_mem _ hother) hold
    rw [parseEntries, habsent, if_neg Bool.false_ne_true, hreads]
    dsimp only
    rw [ih hnodup.2 hothers]
    rfl

theorem reads_kvlist {wires : KeyValues} {entries : List (String × Values.AnyValue)}
    (h : List.Forall₂ (ReadsEntry readers) wires entries) (hnodup : (keys entries).Nodup) :
    Reads readers (.kvlist wires) (.kvList (ofList entries)) := by
  intro path location
  rw [parseValue, parseEntries_of_reads h hnodup path location (fun _ _ => List.not_mem_nil)]
  rfl

end Reading

end SpecGate.WireReading

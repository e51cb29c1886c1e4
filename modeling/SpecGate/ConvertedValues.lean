import SpecGate.SidecarValues
import SpecGate.TransportedValues

/-!
Recorded values on their way to the encoder. The runtime writes a value into a sidecar and it
is read back there; the value that was read is written once more and read as a value of the
capture boundary. The boundary keeps the elements of a set in the order in which they are
written. Both readings fail on the same numbers and on containers that nest too deeply.
-/
namespace SpecGate.ConvertedValues

open JsonTrees SidecarValues SortedAssoc
open TransportedValues (CapturedValue)

section Reader

variable (nearest : Int → UInt64)

mutual

/-- Read a value of the capture boundary. -/
def readCaptured : Json → Option CapturedValue
  | .object entries =>
      match Json.field entries "kind" with
      | some (.string kind) => readTagged kind entries
      | _ => none
  | _ => none
termination_by structural json => json

/-- The content among the entries of a value of a kind. -/
def readTagged (kind : String) : List (String × Json) → Option CapturedValue
  | [] => none
  | (key, content) :: rest =>
      if key = "value" then readContent kind content else readTagged kind rest
termination_by structural entries => entries

def readContent (kind : String) : Json → Option CapturedValue
  | .array values =>
      if kind = "list" then (readValues values).map .list
      else if kind = "set" then (readValues values).map .set
      else none
  | .object entries =>
      if kind = "map" then (readEntries entries).map fun entries => .map (ofList entries)
      else none
  | .string value => if kind = "string" then some (.string value) else none
  | .bool value => if kind = "bool" then some (.bool value) else none
  | .null => none
  | .number value =>
      if kind = "integer" then (readI64 (.number value)).map .integer
      else if kind = "unsigned" then (readU64 (.number value)).map .unsigned
      else if kind = "float" then (readF64 nearest (.number value)).map .float
      else none
termination_by structural json => json

def readValues : List Json → Option (List CapturedValue)
  | [] => some []
  | value :: rest => do
      let value ← readCaptured value
      let rest ← readValues rest
      return value :: rest
termination_by structural values => values

def readEntries : List (String × Json) → Option (List (String × CapturedValue))
  | [] => some []
  | (key, value) :: rest => do
      let value ← readCaptured value
      let rest ← readEntries rest
      return (key, value) :: rest
termination_by structural entries => entries

end

end Reader

mutual

/-- The value of the capture boundary that a runtime value stands for. -/
def captured : NativeValue → CapturedValue
  | .string value => .string value
  | .integer value => .integer value
  | .unsigned value => .unsigned value
  | .float bits => .float bits
  | .bool value => .bool value
  | .list values => .list (capturedAll values)
  | .map entries => .map (capturedEntries entries)
  | .set values => .set (capturedAll values)
termination_by structural value => value

def capturedAll : List NativeValue → List CapturedValue
  | [] => []
  | value :: rest => captured value :: capturedAll rest
termination_by structural values => values

def capturedEntries : List (String × NativeValue) → List (String × CapturedValue)
  | [] => []
  | (key, value) :: rest => (key, captured value) :: capturedEntries rest
termination_by structural entries => entries

end

theorem keys_capturedEntries (entries : List (String × NativeValue)) :
    keys (capturedEntries entries) = keys entries := by
  induction entries with
  | nil => rfl
  | cons entry rest ih => rw [capturedEntries, keys_cons, keys_cons, ih]

theorem sorted_capturedEntries {entries : List (String × NativeValue)} (h : Sorted entries) :
    Sorted (capturedEntries entries) := by
  rw [sorted_iff_keys, keys_capturedEntries]
  exact sorted_iff_keys.mp h

section Conversion

variable (nearest : Int → UInt64)

theorem readCaptured_tagged (kind : String) (content : Json) :
    readCaptured nearest (tagged kind content) = readContent nearest kind content := by
  rfl

theorem readContent_float (bits : UInt64) :
    readContent nearest "float" (writeFloat bits) =
      if (finiteBits bits).isSome then some (.float bits) else none := by
  unfold writeFloat
  cases hbits : finiteBits bits with
  | none => rfl
  | some value =>
    rw [readContent, readF64_finite nearest hbits]
    rfl

mutual

/-- What the runtime writes is read as the value it stands for, if its numbers are finite;
otherwise not at all. -/
theorem readCaptured_writeValue : ∀ (value : NativeValue), Ordered value →
    readCaptured nearest (writeValue value) =
      if finite value then some (captured value) else none
  | .string value, _ => rfl
  | .integer value, _ => by
      rw [writeValue, readCaptured_tagged, readContent, if_pos rfl, readI64_write]
      rfl
  | .unsigned value, _ => by
      rw [writeValue, readCaptured_tagged, readContent, if_neg (by decide), if_pos rfl,
        readU64_write]
      rfl
  | .float bits, _ => by
      rw [writeValue, readCaptured_tagged, readContent_float, finite, captured]
  | .bool value, _ => rfl
  | .list values, hordered => by
      have hread := readValues_writeValues values hordered
      rw [writeValue, readCaptured_tagged, readContent, if_pos rfl, hread, finite, captured]
      split_ifs <;> rfl
  | .map entries, hordered => by
      have hread := readEntries_writeEntries entries hordered.2
      rw [writeValue, readCaptured_tagged, readContent, if_pos rfl, hread, finite, captured]
      split_ifs
      · rw [Option.map_some, ofList_of_sorted (sorted_capturedEntries hordered.1)]
      · rfl
  | .set values, hordered => by
      have hread := readValues_writeValues values hordered.2
      rw [writeValue, readCaptured_tagged, readContent, if_neg (by decide), if_pos rfl, hread,
        finite, captured]
      split_ifs <;> rfl
termination_by structural value => value

theorem readValues_writeValues : ∀ (values : List NativeValue), AllOrdered values →
    readValues nearest (writeValues values) =
      if allFinite values then some (capturedAll values) else none
  | [], _ => rfl
  | value :: rest, hordered => by
      have hvalue := readCaptured_writeValue value hordered.1
      have hrest := readValues_writeValues rest hordered.2
      rw [writeValues, readValues, hvalue, hrest, allFinite, capturedAll]
      cases finite value <;> cases allFinite rest <;> rfl
termination_by structural values => values

theorem readEntries_writeEntries : ∀ (entries : List (String × NativeValue)),
    EntriesOrdered entries → readEntries nearest (writeEntries entries) =
      if entriesFinite entries then some (capturedEntries entries) else none
  | [], _ => rfl
  | (key, value) :: rest, hordered => by
      have hvalue := readCaptured_writeValue value hordered.1
      have hrest := readEntries_writeEntries rest hordered.2
      rw [writeEntries, readEntries, hvalue, hrest, entriesFinite, capturedEntries]
      cases finite value <;> cases entriesFinite rest <;> rfl
termination_by structural entries => entries

end

/-- A value on its way from the batch to the encoder, where some containers stand around it. -/
def convert (nesting : Nat) (value : NativeValue) : Option CapturedValue :=
  if nesting + (writeValue value).depth < Json.recursionLimit then
    readCaptured nearest (writeValue value)
  else none

/-- The value comes back from its sidecar, and reaches the encoder as it is. The batch is one
more list around it. -/
def Carried (nesting : Nat) (value : NativeValue) : Prop :=
  transport nearest nesting value = some value ∧
    convert nearest (nesting + 1) value = some (captured value)

theorem convert_eq {value : NativeValue} (h : Ordered value) (nesting : Nat) :
    convert nearest nesting value =
      if legible nesting value then some (captured value) else none := by
  unfold convert legible
  rw [readCaptured_writeValue nearest value h]
  by_cases hdepth : nesting + (writeValue value).depth < Json.recursionLimit
  · rw [if_pos hdepth, decide_eq_true hdepth, Bool.and_true]
  · rw [if_neg hdepth, decide_eq_false hdepth, Bool.and_false]
    rfl

/-- A value is carried to the encoder exactly if its numbers are finite and its containers,
with those around it, do not nest too deeply for the reader. -/
theorem carried_iff {value : NativeValue} (h : Ordered value) (nesting : Nat) :
    Carried nearest nesting value ↔
      finite value = true ∧ nesting + 1 + (writeValue value).depth < Json.recursionLimit := by
  unfold Carried
  rw [transport_writeValue nearest h, convert_eq nearest h]
  unfold legible
  constructor
  · rintro ⟨-, hconverted⟩
    split_ifs at hconverted with hlegible
    rw [Bool.and_eq_true, decide_eq_true_iff] at hlegible
    exact hlegible
  · rintro ⟨hfinite, hdepth⟩
    rw [hfinite, decide_eq_true hdepth, decide_eq_true (by omega : nesting + _ < _)]
    exact ⟨rfl, rfl⟩

end Conversion

/-- A map of negative zero, an extreme integer and a set of lists. -/
def recorded : NativeValue :=
  .map [("least", .integer (-9223372036854775808)),
    ("nested", .set [.list [], .list [.unsigned 0]]), ("zero", .float 0x8000000000000000)]

theorem recorded_ordered : Ordered recorded := by
  have hkeys : ["least", "nested", "zero"].Pairwise fun a b => compare a b = .lt := by
    decide +kernel
  refine ⟨sorted_iff_keys.mpr hkeys, trivial, ⟨?_, trivial, ⟨trivial, trivial⟩, trivial⟩, trivial,
    trivial⟩
  exact List.pairwise_pair.mpr rfl

theorem carried_recorded : Carried (fun _ => 0) 4 recorded :=
  (carried_iff (fun _ => 0) recorded_ordered 4).mpr ⟨by decide +kernel, by decide +kernel⟩

/-- A number that is not one is written as null, and its capture cannot be read. -/
theorem nan_lost : ¬ ∀ value, Ordered value → Carried (fun _ => 0) 4 value := by
  intro h
  have hordered : Ordered (.float 0x7FF8000000000000) := trivial
  have hfinite := ((carried_iff (fun _ => 0) hordered 4).mp (h _ hordered)).1
  revert hfinite
  decide +kernel

end SpecGate.ConvertedValues

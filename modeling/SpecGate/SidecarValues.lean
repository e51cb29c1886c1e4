import SpecGate.JsonTrees
import SpecGate.SortedAssoc

/-!
Values of the capture runtime and the way they pass through a sidecar. A value is written
as its kind and its content; floating-point numbers are written as plain JSON numbers, and
JSON has none for the numbers that are not finite. What the reader accepts is the value
that was written.
-/
namespace SpecGate.SidecarValues

open JsonTrees SortedAssoc
open Values (FiniteF64)

/-- A semantic value of the runtime. A floating-point number is kept by its bits, a set by
its elements in their order. -/
inductive NativeValue where
  | string (value : String)
  | integer (value : Int64)
  | unsigned (value : UInt64)
  | float (bits : UInt64)
  | bool (value : Bool)
  | list (values : List NativeValue)
  | map (entries : List (String × NativeValue))
  | set (values : List NativeValue)

/-! ### Order -/

def variantRank : NativeValue → Nat
  | .bool _ => 0
  | .integer _ => 1
  | .unsigned _ => 2
  | .float _ => 3
  | .string _ => 4
  | .list _ => 5
  | .set _ => 6
  | .map _ => 7

/-- The place of a floating-point number in the total order of its format. -/
def totalRank (bits : UInt64) : Int :=
  if bits.toNat < 2 ^ 63 then bits.toNat else 2 ^ 63 - 1 - bits.toNat

mutual

def compareValue : NativeValue → NativeValue → Ordering
  | .string left, .string right => compare left right
  | .integer left, .integer right => compare left.toInt right.toInt
  | .unsigned left, .unsigned right => compare left.toNat right.toNat
  | .float left, .float right => compare (totalRank left) (totalRank right)
  | .bool left, .bool right => compare left right
  | .list left, .list right => compareValues left right
  | .map left, .map right => compareEntries left right
  | .set left, .set right => compareValues left right
  | left, right => compare (variantRank left) (variantRank right)
termination_by structural left => left

def compareValues : List NativeValue → List NativeValue → Ordering
  | [], [] => .eq
  | [], _ :: _ => .lt
  | _ :: _, [] => .gt
  | left :: lefts, right :: rights =>
      (compareValue left right).then (compareValues lefts rights)
termination_by structural lefts => lefts

def compareEntries : List (String × NativeValue) → List (String × NativeValue) → Ordering
  | [], [] => .eq
  | [], _ :: _ => .lt
  | _ :: _, [] => .gt
  | (leftKey, left) :: lefts, (rightKey, right) :: rights =>
      ((compare leftKey rightKey).then (compareValue left right)).then
        (compareEntries lefts rights)
termination_by structural lefts => lefts

end

/-- Add an element to a set. -/
def insertElement (value : NativeValue) : List NativeValue → List NativeValue
  | [] => [value]
  | first :: rest =>
      match compareValue value first with
      | .lt => value :: first :: rest
      | .eq => first :: rest
      | .gt => first :: insertElement value rest

def collectSet (values : List NativeValue) : List NativeValue :=
  values.foldl (fun set value => insertElement value set) []

/-- The elements are in the order of a set. -/
def Increasing (values : List NativeValue) : Prop :=
  values.Pairwise fun first second => compareValue second first = .gt

theorem insertElement_last {value : NativeValue} {values : List NativeValue}
    (h : ∀ first ∈ values, compareValue value first = .gt) :
    insertElement value values = values ++ [value] := by
  induction values with
  | nil => rfl
  | cons first rest ih =>
    rw [insertElement, h first List.mem_cons_self]
    dsimp only
    rw [ih fun other hother => h other (List.mem_cons_of_mem _ hother), List.cons_append]

theorem collectSet_of_increasing {values : List NativeValue} (h : Increasing values) :
    collectSet values = values := by
  have hfold : ∀ {set rest : List NativeValue}, Increasing (set ++ rest) →
      rest.foldl (fun set value => insertElement value set) set = set ++ rest := by
    intro set rest hboth
    induction rest generalizing set with
    | nil => simp
    | cons value rest ih =>
      have hlast : insertElement value set = set ++ [value] :=
        insertElement_last fun first hfirst =>
          (List.pairwise_append.mp hboth).2.2 first hfirst value List.mem_cons_self
      rw [List.foldl_cons, hlast, ih (by simpa [List.append_assoc] using hboth),
        List.append_assoc, List.singleton_append]
  have hempty := @hfold [] values h
  exact hempty

/-! ### Well-formed values -/

mutual

/-- Every set holds its elements in their order, and every map its keys. -/
def Ordered : NativeValue → Prop
  | .string _ | .integer _ | .unsigned _ | .float _ | .bool _ => True
  | .list values => AllOrdered values
  | .map entries => Sorted entries ∧ EntriesOrdered entries
  | .set values => Increasing values ∧ AllOrdered values
termination_by structural value => value

def AllOrdered : List NativeValue → Prop
  | [] => True
  | value :: rest => Ordered value ∧ AllOrdered rest
termination_by structural values => values

def EntriesOrdered : List (String × NativeValue) → Prop
  | [] => True
  | (_, value) :: rest => Ordered value ∧ EntriesOrdered rest
termination_by structural entries => entries

end

/-- The bits of a finite number. -/
def finiteBits (bits : UInt64) : Option FiniteF64 :=
  if h : bits.toNat / 2 ^ 52 % 2 ^ 11 ≠ 2047 then some ⟨bits.toNat, bits.toNat_lt, h⟩ else none

mutual

/-- No floating-point number of the value is infinite or not a number. -/
def finite : NativeValue → Bool
  | .string _ | .integer _ | .unsigned _ | .bool _ => true
  | .float bits => (finiteBits bits).isSome
  | .list values | .set values => allFinite values
  | .map entries => entriesFinite entries
termination_by structural value => value

def allFinite : List NativeValue → Bool
  | [] => true
  | value :: rest => finite value && allFinite rest
termination_by structural values => values

def entriesFinite : List (String × NativeValue) → Bool
  | [] => true
  | (_, value) :: rest => finite value && entriesFinite rest
termination_by structural entries => entries

end

/-! ### Writing and reading -/

def tagged (kind : String) (content : Json) : Json :=
  .object [("kind", .string kind), ("value", content)]

/-- A number as JSON has it. -/
def writeFloat (bits : UInt64) : Json :=
  match finiteBits bits with
  | some value => .number (.float value)
  | none => .null

mutual

def writeValue : NativeValue → Json
  | .string value => tagged "string" (.string value)
  | .integer value => tagged "integer" (.number (.integer value.toInt))
  | .unsigned value => tagged "unsigned" (.number (.integer value.toNat))
  | .float bits => tagged "float" (writeFloat bits)
  | .bool value => tagged "bool" (.bool value)
  | .list values => tagged "list" (.array (writeValues values))
  | .map entries => tagged "map" (.object (writeEntries entries))
  | .set values => tagged "set" (.array (writeValues values))
termination_by structural value => value

def writeValues : List NativeValue → List Json
  | [] => []
  | value :: rest => writeValue value :: writeValues rest
termination_by structural values => values

def writeEntries : List (String × NativeValue) → List (String × Json)
  | [] => []
  | (key, value) :: rest => (key, writeValue value) :: writeEntries rest
termination_by structural entries => entries

end

def readI64 : Json → Option Int64
  | .number (.integer value) =>
      if -2 ^ 63 ≤ value ∧ value < 2 ^ 63 then some (Int64.ofInt value) else none
  | _ => none

def readU64 : Json → Option UInt64
  | .number (.integer value) =>
      if 0 ≤ value ∧ value < 2 ^ 64 then some (UInt64.ofNat value.toNat) else none
  | _ => none

/-- A floating-point number; `nearest` rounds an integer literal. -/
def readF64 (nearest : Int → UInt64) : Json → Option UInt64
  | .number (.integer value) => some (nearest value)
  | .number (.float value) => some (UInt64.ofNat value.bits)
  | _ => none

mutual

/-- Read a value written as its kind and its content. -/
def readValue (nearest : Int → UInt64) : Json → Option NativeValue
  | .object entries =>
      match Json.field entries "kind" with
      | some (.string kind) => readTagged nearest kind entries
      | _ => none
  | _ => none
termination_by structural json => json

/-- The content among the entries of a value of a kind. -/
def readTagged (nearest : Int → UInt64) (kind : String) :
    List (String × Json) → Option NativeValue
  | [] => none
  | (key, content) :: rest =>
      if key = "value" then readContent nearest kind content else readTagged nearest kind rest
termination_by structural entries => entries

def readContent (nearest : Int → UInt64) (kind : String) : Json → Option NativeValue
  | .array values =>
      if kind = "list" then (readValues nearest values).map .list
      else if kind = "set" then (readValues nearest values).map fun values =>
        .set (collectSet values)
      else none
  | .object entries =>
      if kind = "map" then (readEntries nearest entries).map fun entries => .map (ofList entries)
      else none
  | .string value => if kind = "string" then some (.string value) else none
  | .bool value => if kind = "bool" then some (.bool value) else none
  | .null => none
  | .number value =>
      if kind = "integer" then (readI64 (.number value)).map .integer
      else if kind = "unsigned" then (readU64 (.number value)).map .unsigned
      else if kind = "float" then (readF64 nearest (.number value)).map .float
      else none
termination_by structural json => json

def readValues (nearest : Int → UInt64) : List Json → Option (List NativeValue)
  | [] => some []
  | value :: rest => do
      let value ← readValue nearest value
      let rest ← readValues nearest rest
      return value :: rest
termination_by structural values => values

def readEntries (nearest : Int → UInt64) : List (String × Json) →
    Option (List (String × NativeValue))
  | [] => some []
  | (key, value) :: rest => do
      let value ← readValue nearest value
      let rest ← readEntries nearest rest
      return (key, value) :: rest
termination_by structural entries => entries

end

section RoundTrip

variable (nearest : Int → UInt64)

theorem readValue_tagged (kind : String) (content : Json) :
    readValue nearest (tagged kind content) = readContent nearest kind content := by
  rfl

theorem readI64_write (value : Int64) : readI64 (.number (.integer value.toInt)) = some value := by
  have hlow := value.le_toInt
  have hhigh := value.toInt_lt
  rw [readI64, if_pos ⟨hlow, hhigh⟩, Int64.ofInt_toInt]

theorem readU64_write (value : UInt64) :
    readU64 (.number (.integer value.toNat)) = some value := by
  have hhigh : (value.toNat : Int) < 2 ^ 64 := by exact_mod_cast value.toNat_lt
  rw [readU64, if_pos ⟨Int.natCast_nonneg _, hhigh⟩, Int.toNat_natCast, UInt64.ofNat_toNat]

theorem readF64_finite {bits : UInt64} {value : FiniteF64} (h : finiteBits bits = some value) :
    readF64 nearest (.number (.float value)) = some bits := by
  unfold finiteBits at h
  split_ifs at h
  rw [readF64, ← Option.some.inj h, UInt64.ofNat_toNat]

theorem readContent_float (bits : UInt64) :
    readContent nearest "float" (writeFloat bits) =
      if (finiteBits bits).isSome then some (.float bits) else none := by
  unfold writeFloat
  cases hbits : finiteBits bits with
  | none => rfl
  | some value =>
    rw [readContent, readF64_finite nearest hbits]
    rfl

mutual

/-- A value is read as it was written, if its numbers are finite; otherwise not at all. -/
theorem readValue_writeValue : ∀ (value : NativeValue), Ordered value →
    readValue nearest (writeValue value) = if finite value then some value else none
  | .string value, _ => rfl
  | .integer value, _ => by
      rw [writeValue, readValue_tagged, readContent, if_pos rfl, readI64_write]
      rfl
  | .unsigned value, _ => by
      rw [writeValue, readValue_tagged, readContent, if_neg (by decide), if_pos rfl,
        readU64_write]
      rfl
  | .float bits, _ => by
      rw [writeValue, readValue_tagged, readContent_float, finite]
  | .bool value, _ => rfl
  | .list values, hordered => by
      have hread := readValues_writeValues values hordered
      rw [writeValue, readValue_tagged, readContent, if_pos rfl, hread, finite]
      split_ifs <;> rfl
  | .map entries, hordered => by
      have hread := readEntries_writeEntries entries hordered.2
      rw [writeValue, readValue_tagged, readContent, if_pos rfl, hread, finite]
      split_ifs
      · rw [Option.map_some, ofList_of_sorted hordered.1]
      · rfl
  | .set values, hordered => by
      have hread := readValues_writeValues values hordered.2
      rw [writeValue, readValue_tagged, readContent, if_neg (by decide), if_pos rfl, hread, finite]
      split_ifs
      · rw [Option.map_some, collectSet_of_increasing hordered.1]
      · rfl
termination_by structural value => value

theorem readValues_writeValues : ∀ (values : List NativeValue), AllOrdered values →
    readValues nearest (writeValues values) = if allFinite values then some values else none
  | [], _ => rfl
  | value :: rest, hordered => by
      have hvalue := readValue_writeValue value hordered.1
      have hrest := readValues_writeValues rest hordered.2
      rw [writeValues, readValues, hvalue, hrest, allFinite]
      cases finite value <;> cases allFinite rest <;> rfl
termination_by structural values => values

theorem readEntries_writeEntries : ∀ (entries : List (String × NativeValue)),
    EntriesOrdered entries → readEntries nearest (writeEntries entries) =
      if entriesFinite entries then some entries else none
  | [], _ => rfl
  | (key, value) :: rest, hordered => by
      have hvalue := readValue_writeValue value hordered.1
      have hrest := readEntries_writeEntries rest hordered.2
      rw [writeEntries, readEntries, hvalue, hrest, entriesFinite]
      cases finite value <;> cases entriesFinite rest <;> rfl
termination_by structural entries => entries

end

/-- A value behind its sidecar, where some containers stand around it. -/
def transport (nesting : Nat) (value : NativeValue) : Option NativeValue :=
  if nesting + (writeValue value).depth < Json.recursionLimit then
    readValue nearest (writeValue value)
  else none

/-- The sidecar can carry the value. -/
def legible (nesting : Nat) (value : NativeValue) : Bool :=
  finite value && decide (nesting + (writeValue value).depth < Json.recursionLimit)

theorem transport_writeValue {value : NativeValue} (h : Ordered value) (nesting : Nat) :
    transport nearest nesting value = if legible nesting value then some value else none := by
  unfold transport legible
  rw [readValue_writeValue nearest value h]
  by_cases hdepth : nesting + (writeValue value).depth < Json.recursionLimit
  · rw [if_pos hdepth, decide_eq_true hdepth, Bool.and_true]
  · rw [if_neg hdepth, decide_eq_false hdepth, Bool.and_false]
    rfl

end RoundTrip

end SpecGate.SidecarValues

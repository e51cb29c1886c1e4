import SpecGate.FloatWidths
import SpecGate.NativeOrder
import SpecGate.Sorting
import SpecGate.Validation

/-!
Construction inputs of the test harness. A value of a supported type is projected to a native
value, and a generated bridge decodes it again; the two are separate families of functions
with one member for each type constructor. Each member of one family is matched with its
counterpart, on the assumption that the codecs of the element types are.
-/
namespace SpecGate.HarnessInputs

open FloatWidths NativeOrder SidecarValues SortedAssoc
open Validation (debugText)

/-! ### Projection -/

def Ascending (first second : NativeValue) : Prop := (compare first second).isLE = true

instance : DecidableRel Ascending := fun first second =>
  inferInstanceAs (Decidable ((compare first second).isLE = true))

instance : IsTrans NativeValue Ascending := ⟨fun _ _ _ => Std.TransCmp.isLE_trans⟩

instance : Std.Antisymm Ascending :=
  ⟨fun _ _ hab hba => Std.LawfulEqOrd.eq_of_compare (Std.OrientedCmp.isLE_antisymm hab hba)⟩

instance : Std.Total Ascending := ⟨fun first second => Sorting.isLE_total first second⟩

def adjacentEqual : List NativeValue → Bool
  | first :: second :: rest => decide (first = second) || adjacentEqual (second :: rest)
  | _ => false

/-- A set of the projections, which come in any order, or their list where two coincide. -/
def nativeSet (values : Multiset NativeValue) : NativeValue :=
  let values := values.sort Ascending
  if adjacentEqual values then .list values else .set (collectSet values)

/-- A map from strings, ordered or hashed: what it holds under each key. -/
@[ext] structure StringMap (α : Type) where
  entries : List (String × α)
  sorted : Sorted entries
  deriving DecidableEq

section Native

variable {α β γ δ : Type}

def nativeF32 [NaNCasts] (value : F32) : NativeValue := .float (f64From value).bits

def nativeUnit (_ : Unit) : NativeValue := .map []

def nativeVec (native : α → NativeValue) (values : List α) : NativeValue :=
  .list (values.map native)

def nativeOption (native : α → NativeValue) : Option α → NativeValue
  | some value => .map [("Some", native value)]
  | none => .map [("None", .map [])]

def nativeMap (native : α → NativeValue) (map : StringMap α) : NativeValue :=
  .map (ofList (map.entries.map fun entry => (entry.1, native entry.2)))

def nativeFinset (native : α → NativeValue) (values : Finset α) : NativeValue :=
  nativeSet (values.val.map native)

end Native

/-! ### Decoding -/

def typeName : NativeValue → String
  | .string _ => "string"
  | .integer _ => "int"
  | .unsigned _ => "uint"
  | .float _ => "float"
  | .bool _ => "bool"
  | .list _ => "list"
  | .map _ => "map"
  | .set _ => "set"

/-- A scalar of one native variant, converted to its type. -/
def input {α β : Type} (ty : String) (variant : NativeValue → Option β)
    (convert : β → Except String α) (value : NativeValue) : Except String α :=
  match variant value with
  | some content =>
      (convert content).mapError fun message => s!"invalid {ty} setup input: {message}"
  | none => .error s!"expected {ty} setup input, got {typeName value}"

def asString : NativeValue → Option String
  | .string value => some value
  | _ => none

def asBool : NativeValue → Option Bool
  | .bool value => some value
  | _ => none

def asInteger : NativeValue → Option Int64
  | .integer value => some value
  | _ => none

def asUnsigned : NativeValue → Option UInt64
  | .unsigned value => some value
  | _ => none

def asFloat : NativeValue → Option F64
  | .float bits => some ⟨bits⟩
  | _ => none

def outOfRange : String := "out of range integral type conversion attempted"

def i32TryFrom (value : Int64) : Except String Int32 :=
  if -2 ^ 31 ≤ value.toInt ∧ value.toInt < 2 ^ 31 then .ok (Int32.ofInt value.toInt)
  else .error outOfRange

def u32TryFrom (value : Int64) : Except String UInt32 :=
  if 0 ≤ value.toInt ∧ value.toInt < 2 ^ 32 then .ok (UInt32.ofNat value.toInt.toNat)
  else .error outOfRange

def decodeString : NativeValue → Except String String := input "String" asString .ok

def decodeBool : NativeValue → Except String Bool := input "bool" asBool .ok

def decodeI32 : NativeValue → Except String Int32 := input "i32" asInteger i32TryFrom

def decodeI64 : NativeValue → Except String Int64 := input "i64" asInteger .ok

def decodeU32 : NativeValue → Except String UInt32 := input "u32" asInteger u32TryFrom

def decodeU64 : NativeValue → Except String UInt64 := input "u64" asUnsigned .ok

def decodeF64 : NativeValue → Except String F64 := input "f64" asFloat .ok

def decodeF32 [NaNCasts] : NativeValue → Except String F32
  | .float bits =>
      if f64From (asF32 ⟨bits⟩) = ⟨bits⟩ then .ok (asF32 ⟨bits⟩)
      else .error "expected an exactly representable f32 setup input"
  | _ => .error "expected an exactly representable f32 setup input"

def decodeUnit : NativeValue → Except String Unit
  | .map [] => .ok ()
  | _ => .error "expected a unit setup input"

section Decode

variable {α β γ δ : Type}

def decodeItems (decode : NativeValue → Except String α) (index : Nat) :
    List NativeValue → Except String (List α)
  | [] => .ok []
  | value :: rest => do
      let value ← (decode value).mapError fun source => s!"list input [{index}]: {source}"
      let rest ← decodeItems decode (index + 1) rest
      return value :: rest

def decodeVec (decode : NativeValue → Except String α) : NativeValue → Except String (List α)
  | .list values => decodeItems decode 0 values
  | _ => .error "expected a list input"

def decodeOption (decode : NativeValue → Except String α) :
    NativeValue → Except String (Option α)
  | .map values =>
      if values.length ≠ 1 then .error "expected exactly one Some/None optional tag"
      else match lookup values "Some" with
        | some value =>
            ((decode value).map some).mapError fun source => s!"optional input .Some: {source}"
        | none =>
            match lookup values "None" with
            | some (.map []) => .ok none
            | _ => .error "expected a unit None payload"
  | _ => .error "expected a Some/None optional input"

/-- The next field of a tuple, and the fields after it. -/
def nextField (decode : NativeValue → Except String α) :
    List NativeValue → Except String (α × List NativeValue)
  | [] => .error "missing tuple input field"
  | value :: rest => (decode value).map fun value => (value, rest)

def endTuple (tuple : α) : List NativeValue → Except String α
  | [] => .ok tuple
  | _ :: _ => .error "unexpected tuple input field"

def decodePair (decodeA : NativeValue → Except String α) (decodeB : NativeValue → Except String β) :
    NativeValue → Except String (α × β)
  | .list values => do
      let (a, values) ← nextField decodeA values
      let (b, values) ← nextField decodeB values
      endTuple (a, b) values
  | _ => .error "expected a tuple input"

def decodeTriple (decodeA : NativeValue → Except String α) (decodeB : NativeValue → Except String β)
    (decodeC : NativeValue → Except String γ) : NativeValue → Except String (α × β × γ)
  | .list values => do
      let (a, values) ← nextField decodeA values
      let (b, values) ← nextField decodeB values
      let (c, values) ← nextField decodeC values
      endTuple (a, b, c) values
  | _ => .error "expected a tuple input"

def decodeQuadruple (decodeA : NativeValue → Except String α)
    (decodeB : NativeValue → Except String β) (decodeC : NativeValue → Except String γ)
    (decodeD : NativeValue → Except String δ) : NativeValue → Except String (α × β × γ × δ)
  | .list values => do
      let (a, values) ← nextField decodeA values
      let (b, values) ← nextField decodeB values
      let (c, values) ← nextField decodeC values
      let (d, values) ← nextField decodeD values
      endTuple (a, b, c, d) values
  | _ => .error "expected a tuple input"

def decodeElements [DecidableEq α] (decode : NativeValue → Except String α) (result : Finset α)
    (index : Nat) : List NativeValue → Except String (Finset α)
  | [] => .ok result
  | value :: rest => do
      let value ← (decode value).mapError fun source => s!"set input [{index}]: {source}"
      if value ∈ result then .error "duplicate set input element"
      else decodeElements decode (insert value result) (index + 1) rest

def decodeFinset [DecidableEq α] (decode : NativeValue → Except String α) :
    NativeValue → Except String (Finset α)
  | .set values => decodeElements decode ∅ 0 values
  | _ => .error "expected a set input"

def decodeEntries (decode : NativeValue → Except String α) :
    List (String × NativeValue) → Except String (List (String × α))
  | [] => .ok []
  | (key, value) :: rest => do
      let value ← (decode value).mapError fun source => s!"map input [{debugText key}]: {source}"
      let rest ← decodeEntries decode rest
      return (key, value) :: rest

def decodeMap (decode : NativeValue → Except String α) :
    NativeValue → Except String (StringMap α)
  | .map values =>
      (decodeEntries decode values).map fun entries => ⟨ofList entries, sorted_ofList entries⟩
  | _ => .error "expected a string-keyed map input"

end Decode

/-! ### Types -/

inductive InputType where
  | string
  | bool
  | i32
  | i64
  | u32
  | u64
  | f32
  | f64
  | unit
  | option (item : InputType)
  | vec (item : InputType)
  | pair (a b : InputType)
  | triple (a b c : InputType)
  | quadruple (a b c d : InputType)
  | set (item : InputType)
  | map (item : InputType)

namespace InputType

def Carrier : InputType → Type
  | string => String
  | bool => Bool
  | i32 => Int32
  | i64 => Int64
  | u32 => UInt32
  | u64 => UInt64
  | f32 => F32
  | f64 => F64
  | unit => Unit
  | option item => Option item.Carrier
  | vec item => List item.Carrier
  | pair a b => a.Carrier × b.Carrier
  | triple a b c => a.Carrier × b.Carrier × c.Carrier
  | quadruple a b c d => a.Carrier × b.Carrier × c.Carrier × d.Carrier
  | set item => Finset item.Carrier
  | map item => StringMap item.Carrier

def decEq : (ty : InputType) → DecidableEq ty.Carrier
  | string => inferInstanceAs (DecidableEq String)
  | bool => inferInstanceAs (DecidableEq Bool)
  | i32 => inferInstanceAs (DecidableEq Int32)
  | i64 => inferInstanceAs (DecidableEq Int64)
  | u32 => inferInstanceAs (DecidableEq UInt32)
  | u64 => inferInstanceAs (DecidableEq UInt64)
  | f32 => inferInstanceAs (DecidableEq F32)
  | f64 => inferInstanceAs (DecidableEq F64)
  | unit => inferInstanceAs (DecidableEq Unit)
  | option item => have := item.decEq; inferInstanceAs (DecidableEq (Option item.Carrier))
  | vec item => have := item.decEq; inferInstanceAs (DecidableEq (List item.Carrier))
  | pair a b =>
      have := a.decEq
      have := b.decEq
      inferInstanceAs (DecidableEq (a.Carrier × b.Carrier))
  | triple a b c =>
      have := a.decEq
      have := b.decEq
      have := c.decEq
      inferInstanceAs (DecidableEq (a.Carrier × b.Carrier × c.Carrier))
  | quadruple a b c d =>
      have := a.decEq
      have := b.decEq
      have := c.decEq
      have := d.decEq
      inferInstanceAs (DecidableEq (a.Carrier × b.Carrier × c.Carrier × d.Carrier))
  | set item => have := item.decEq; inferInstanceAs (DecidableEq (Finset item.Carrier))
  | map item => have := item.decEq; inferInstanceAs (DecidableEq (StringMap item.Carrier))

instance (ty : InputType) : DecidableEq ty.Carrier := ty.decEq

variable [NaNCasts]

/-- The native projection of a value of the type. -/
def toNativeValue : (ty : InputType) → ty.Carrier → NativeValue
  | string => .string
  | bool => .bool
  | i32 => fun value : Int32 => .integer value.toInt64
  | i64 => .integer
  | u32 => fun value : UInt32 => .integer (Int64.ofInt value.toNat)
  | u64 => .unsigned
  | f32 => nativeF32
  | f64 => fun value : F64 => .float value.bits
  | unit => nativeUnit
  | option item => nativeOption item.toNativeValue
  | vec item => nativeVec item.toNativeValue
  | pair a b => fun (x, y) => .list [a.toNativeValue x, b.toNativeValue y]
  | triple a b c => fun (x, y, z) =>
      .list [a.toNativeValue x, b.toNativeValue y, c.toNativeValue z]
  | quadruple a b c d => fun (x, y, z, w) =>
      .list [a.toNativeValue x, b.toNativeValue y, c.toNativeValue z, d.toNativeValue w]
  | set item => nativeFinset item.toNativeValue
  | map item => nativeMap item.toNativeValue

def decode : (ty : InputType) → NativeValue → Except String ty.Carrier
  | string => decodeString
  | bool => decodeBool
  | i32 => decodeI32
  | i64 => decodeI64
  | u32 => decodeU32
  | u64 => decodeU64
  | f32 => decodeF32
  | f64 => decodeF64
  | unit => decodeUnit
  | option item => decodeOption item.decode
  | vec item => decodeVec item.decode
  | pair a b => decodePair a.decode b.decode
  | triple a b c => decodeTriple a.decode b.decode c.decode
  | quadruple a b c d => decodeQuadruple a.decode b.decode c.decode d.decode
  | set item => decodeFinset item.decode
  | map item => decodeMap item.decode

end InputType

end SpecGate.HarnessInputs

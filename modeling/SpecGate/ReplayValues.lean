import SpecGate.Checked
import SpecGate.Display
import SpecGate.IntegerText
import SpecGate.ReplayModel
import SpecGate.SortedAssoc
import SpecGate.Sorting
import SpecGate.Validation

/-!
Typed decoding of wire values for replay. A type decodes every value it admits to one
replay value, unordered collections and maps in a canonical order; named and record
types and byte strings have no replay value.
-/
namespace SpecGate.ReplayValues

open Values (FiniteF64)
open Validation SortedAssoc Sorting Checked IntegerText ReplayModel

/-! ### Numbers -/

def decodeInteger (value : AnyValue) (low high : Int) (location : String) : Except Failure Int :=
  match value with
  | .int text =>
      match parseI64 text with
      | .error error =>
          .error (message s!"{location} is not a signed decimal integer: {error.text}")
      | .ok parsed =>
          if low ≤ parsed ∧ parsed ≤ high then .ok parsed
          else .error (message
            (s!"{location} integer value {parsed} is outside supported range " ++
              s!"{low}..={high}"))
  | _ => .error (message s!"{location} integer value must use intValue")

/-- The multiple of a unit nearest to a ratio, on a tie the even one. -/
def nearestMultiple (numerator unit : Nat) : Nat :=
  let quotient := numerator / unit
  let remainder := numerator % unit
  if 2 * remainder < unit then quotient
  else if unit < 2 * remainder then quotient + 1
  else quotient + quotient % 2

/-- The binary32 magnitude nearest to `factor * 10 ^ exponent`, in units of `2 ^ (-1074)`;
`none` is infinity. -/
def parseF32 (factor : Nat) (exponent : Int) : Option Nat :=
  let numerator := factor * 2 ^ 1074 * 10 ^ exponent.toNat
  let denominator := 10 ^ (-exponent).toNat
  let shift := max 925 ((numerator / denominator).log2 - 23)
  let rounded := nearestMultiple numerator (denominator * 2 ^ shift) * 2 ^ shift
  if rounded < 2 ^ 1202 then some rounded else none

/-- The decimal a finite number is printed as, without its sign. -/
def printedDecimal (x : FiniteF64) : Option (Nat × Int) :=
  if x.magnitude = 0 then some (0, 0)
  else Display.shortestDecimal (Display.roundingInterval x) Display.exponentCount
    Display.largestExponent

/-- The binary32 bits of a magnitude that binary32 can represent. -/
def bitsF32 (sign magnitude : Nat) : Nat :=
  let significand := magnitude / 2 ^ 925
  let shift := significand.log2 - 23
  sign * 2 ^ 31 +
    if significand < 2 ^ 23 then significand
    else shift * 2 ^ 23 + significand / 2 ^ shift

/-- The width of a decoded number. -/
inductive FloatWidth where
  | f32
  | f64

/-- A number is narrowed by way of its decimal text; the sign is never lost. -/
def narrowNumber (value : FiniteF64) (location : String) : Except Failure Value :=
  match printedDecimal value with
  | none => .error (message s!"{location} value is outside f32 range: invalid float literal")
  | some (factor, exponent) =>
      match parseF32 factor exponent with
      | some narrowed =>
          if narrowed = value.magnitude then .ok (.f32Bits (bitsF32 value.sign narrowed))
          else .error (message s!"{location} value is not exactly representable as f32")
      | none => .error (message s!"{location} value is not exactly representable as f32")

def symbolBits (width : FloatWidth) (symbol : String) : Option Value :=
  match width with
  | .f32 =>
      if symbol = "NaN" then some (.f32Bits 0x7fc00000)
      else if symbol = "Infinity" then some (.f32Bits 0x7f800000)
      else if symbol = "-Infinity" then some (.f32Bits 0xff800000)
      else none
  | .f64 =>
      if symbol = "NaN" then some (.f64Bits 0x7ff8000000000000)
      else if symbol = "Infinity" then some (.f64Bits 0x7ff0000000000000)
      else if symbol = "-Infinity" then some (.f64Bits 0xfff0000000000000)
      else none

def decodeFloat (value : AnyValue) (width : FloatWidth) (location : String) :
    Except Failure Value :=
  match value with
  | .double (.number value) =>
      match width with
      | .f32 => narrowNumber value location
      | .f64 => .ok (.f64Bits value.bits)
  | .double (.symbol symbol) =>
      okOr (symbolBits width symbol)
        (message s!"{location} contains invalid symbolic doubleValue '{symbol}'")
  | _ => .error (message s!"{location} floating-point value must use doubleValue")

/-! ### Primitives -/

def decodeU64 (value : AnyValue) (location : String) : Except Failure Value :=
  match value with
  | .string text =>
      match parseU64 text with
      | .error error =>
          .error (message s!"{location} is not a valid u64 decimal string: {error.text}")
      | .ok parsed =>
          if toString parsed = text then .ok (.u64 parsed)
          else .error (message s!"{location} u64 value must use canonical unsigned decimal text")
  | _ => .error (message s!"{location} u64 value must use stringValue")

def decodeUnit (value : AnyValue) (location : String) : Except Failure Value :=
  match value with
  | .kvlist [] => .ok .unit
  | .kvlist _ => .error (message s!"{location} unit value must be an empty kvlistValue")
  | _ => .error (message s!"{location} unit value must use kvlistValue")

def decodeString (value : AnyValue) (location : String) : Except Failure Value :=
  match value with
  | .string text => .ok (.string text)
  | _ => .error (message s!"{location} string value must use stringValue")

def decodeBool (value : AnyValue) (location : String) : Except Failure Value :=
  match value with
  | .bool value => .ok (.bool value)
  | _ => .error (message s!"{location} bool value must use boolValue")

def decodePrimitive (name : String) (value : AnyValue) (location : String) :
    Except Failure Value :=
  if name = "unit" then decodeUnit value location
  else if name = "string" then decodeString value location
  else if name = "bool" then decodeBool value location
  else if name = "i32" then
    (decodeInteger value (-2 ^ 31) (2 ^ 31 - 1) location).map .i32
  else if name = "i64" then
    (decodeInteger value (-2 ^ 63) (2 ^ 63 - 1) location).map .i64
  else if name = "u32" then (decodeInteger value 0 (2 ^ 32 - 1) location).map .u32
  else if name = "u64" then decodeU64 value location
  else if name = "f32" then decodeFloat value .f32 location
  else if name = "f64" then decodeFloat value .f64 location
  else if name = "bytes" then
    .error (message s!"{location} uses unsupported replay primitive 'bytes'")
  else .error (message s!"{location} uses unknown CTSC primitive '{name}'")

/-! ### Composite values -/

/-- The distinct values of a list, in order. -/
def toSet (values : List Value) : List Value := keys (ofList (values.map fun value => (value, ())))

/-- The collection of decoded elements. -/
def collection (ordered unique : Bool) (values : List Value) (location : String) :
    Except Failure Value :=
  if unique then
    if (toSet values).length ≠ values.length then
      .error (message s!"{location} has duplicate unique collection elements")
    else .ok (if ordered then .list values else .set (toSet values))
  else .ok (.list (if ordered then values else sort values))

/-- The key and value of a wire map entry. -/
def entryParts (entry : AnyValue) (location : String) : Except Failure (AnyValue × AnyValue) :=
  match entry with
  | .kvlist fields =>
      match fields.find? (fun field => field.1 == "key"),
          fields.find? (fun field => field.1 == "value") with
      | some key, some item =>
          if fields.length ≠ 2 then
            .error (message s!"{location} map entry requires exactly key and value")
          else .ok (key.2, item.2)
      | _, _ => .error (message s!"{location} map entry requires key and value")
  | _ => .error (message s!"{location} map entry must use kvlistValue")

/-- Array-coded map entries after those with the given keys. -/
def decodeEntries (decodeKey decodeItem : AnyValue → String → Except Failure Value)
    (location : String) (seen : List Value) :
    List (AnyValue × Nat) → Except Failure (List (Value × Value))
  | [] => .ok []
  | (entry, index) :: rest => do
      let parts ← entryParts entry s!"{location}[{index}]"
      let key ← decodeKey parts.1 s!"{location}[{index}].key"
      ensure (key ∉ seen) (message s!"{location}[{index}] has a duplicate map key")
      let item ← decodeItem parts.2 s!"{location}[{index}].value"
      let others ← decodeEntries decodeKey decodeItem location (key :: seen) rest
      return (key, item) :: others

/-- Fields of a string-keyed map after those with the given keys. -/
def decodeFields (decodeItem : AnyValue → String → Except Failure Value) (location : String)
    (seen : List String) : KeyValues → Except Failure (List (String × Value))
  | [] => .ok []
  | (key, value) :: rest => do
      let item ← decodeItem value s!"{location}[{debugText key}]"
      ensure (key ∉ seen) (message s!"{location} has duplicate map key {debugText key}")
      let others ← decodeFields decodeItem location (key :: seen) rest
      return (key, item) :: others

/-- The one tag of an optional value. -/
def decodeOptional (decodeInner : AnyValue → String → Except Failure Value) (value : AnyValue)
    (location : String) : Except Failure Value :=
  match value with
  | .kvlist [(tag, payload)] =>
      if tag = "Some" then
        (decodeInner payload s!"{location}.Some").map fun value => .optional (some value)
      else if tag = "None" then
        (decodePrimitive "unit" payload s!"{location}.None").map fun _ => .optional none
      else .error (message s!"{location} optional must use Some or None")
  | .kvlist _ => .error (message s!"{location} optional must have exactly one Some or None tag")
  | _ => .error (message s!"{location} optional must use a single-key kvlistValue")

def decodeMap (keyName : Option String) (ordered : Bool)
    (decodeKey decodeItem : AnyValue → String → Except Failure Value) (value : AnyValue)
    (location : String) : Except Failure Value :=
  if ordered ∨ keyName ≠ some "string" then
    match value with
    | .array entries =>
        (decodeEntries decodeKey decodeItem location [] entries.zipIdx).map fun entries =>
          .mapEntries (if ordered then entries else sort entries)
    | _ => .error (message s!"{location} map entries must use arrayValue")
  else
    match value with
    | .kvlist entries =>
        (decodeFields decodeItem location [] entries).map fun entries => .map (ofList entries)
    | _ => .error (message s!"{location} map must use kvlistValue")

mutual

def decodeValue : ReplayType → AnyValue → String → Except Failure Value
  | .collection items ordered unique, value, location =>
      match value with
      | .array values =>
          mapAll (fun item => decodeValue items item.1 s!"{location}[{item.2}]")
            values.zipIdx >>= fun values => collection ordered unique values location
      | _ => .error (message s!"{location} collection value must use arrayValue")
  | .optional inner, value, location => decodeOptional (decodeValue inner) value location
  | .map keys values ordered, value, location =>
      decodeMap keys.primitiveName ordered (decodeValue keys) (decodeValue values) value location
  | .tuple items, value, location =>
      match value with
      | .array values =>
          if values.length ≠ items.length then
            .error (message s!"{location} tuple length differs from its declaration")
          else (decodeItems items values 0 location).map .tuple
      | _ => .error (message s!"{location} tuple must use arrayValue")
  | .primitive name, value, location => decodePrimitive name value location
  | .named _ _, _, location =>
      .error (message s!"{location} uses unsupported structured replay type named")
  | .record _, _, location =>
      .error (message s!"{location} uses unsupported structured replay type record")
termination_by structural type => type

/-- The values of a tuple, each at its own type. -/
def decodeItems : List ReplayType → List AnyValue → Nat → String → Except Failure (List Value)
  | type :: types, value :: values, index, location => do
      let item ← decodeValue type value s!"{location}[{index}]"
      let others ← decodeItems types values (index + 1) location
      return item :: others
  | _, _, _, _ => .ok []
termination_by structural types => types

end

end SpecGate.ReplayValues

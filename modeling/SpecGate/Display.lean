import SpecGate.Values

/-!
The diagnostic notation of trace values and canonical values.
Finite floats print as the shortest decimal that reads back as the same binary64
number, in positional notation.
-/
namespace SpecGate.Display

open Values

/-! ### JSON strings and base64 -/

def hexDigit (n : Nat) : Char := Nat.digitChar n

/-- A character inside a JSON string. -/
def escapeChar (c : Char) : List Char :=
  if c = '"' then ['\\', '"']
  else if c = '\\' then ['\\', '\\']
  else if c.toNat = 8 then ['\\', 'b']
  else if c.toNat = 9 then ['\\', 't']
  else if c.toNat = 10 then ['\\', 'n']
  else if c.toNat = 12 then ['\\', 'f']
  else if c.toNat = 13 then ['\\', 'r']
  else if c.toNat < 32 then
    ['\\', 'u', '0', '0', hexDigit (c.toNat / 16), hexDigit (c.toNat % 16)]
  else [c]

def writeJson (text : String) : String :=
  String.ofList ('"' :: text.toList.flatMap escapeChar ++ ['"'])

def base64Char (n : Nat) : Char :=
  if n < 26 then Char.ofNat ('A'.toNat + n)
  else if n < 52 then Char.ofNat ('a'.toNat + (n - 26))
  else if n < 62 then Char.ofNat ('0'.toNat + (n - 52))
  else if n = 62 then '+'
  else '/'

/-- The standard alphabet with padding. -/
def encodeBase64 : List UInt8 → List Char
  | [] => []
  | [a] =>
      let n := a.toNat
      [base64Char (n / 4), base64Char (n % 4 * 16), '=', '=']
  | [a, b] =>
      let n := a.toNat * 2 ^ 8 + b.toNat
      [base64Char (n / 2 ^ 10), base64Char (n / 2 ^ 4 % 64), base64Char (n % 2 ^ 4 * 4), '=']
  | a :: b :: c :: rest =>
      let n := a.toNat * 2 ^ 16 + b.toNat * 2 ^ 8 + c.toNat
      base64Char (n / 2 ^ 18) :: base64Char (n / 2 ^ 12 % 64) :: base64Char (n / 2 ^ 6 % 64) ::
        base64Char (n % 64) :: encodeBase64 rest

/-! ### Floats -/

/-- The bounds of the numbers that round to `x`, and `x` itself, in units of
`2 ^ (-1076)`; an even significand keeps its bounds. -/
structure RoundingInterval where
  low : Nat
  value : Nat
  high : Nat
  inclusive : Bool

def roundingInterval (x : FiniteF64) : RoundingInterval :=
  let step := if x.exponent ≤ 1 then 1 else 2 ^ (x.exponent - 1)
  let below := if x.mantissa = 0 ∧ 1 < x.exponent then step else 2 * step
  { low := 4 * x.magnitude - below
    value := 4 * x.magnitude
    high := 4 * x.magnitude + 2 * step
    inclusive := x.mantissa % 2 == 0 }

/-- Whether a multiple of a power of ten lies in the interval, both scaled alike. -/
def RoundingInterval.contains (bounds : RoundingInterval) (scale scaled : Nat) : Bool :=
  if bounds.inclusive then bounds.low * scale ≤ scaled && scaled ≤ bounds.high * scale
  else bounds.low * scale < scaled && scaled < bounds.high * scale

/-- The multiple of `10 ^ exponent` in the interval that is nearest to its value, upwards
on a tie, as the factor of that power. -/
def nearestMultiple (bounds : RoundingInterval) (exponent : Int) : Option Nat :=
  let unit := 2 ^ 1076 * 10 ^ exponent.toNat
  let scale := 10 ^ (-exponent).toNat
  let down := bounds.value * scale / unit
  let up := down + 1
  let downFits := bounds.contains scale (down * unit)
  let upFits := bounds.contains scale (up * unit)
  if downFits && upFits then
    some (if bounds.value * scale - down * unit < up * unit - bounds.value * scale then down else up)
  else if downFits then some down
  else if upFits then some up
  else none

/-- The largest power of ten with a multiple in the interval, tried downwards. -/
def shortestDecimal (bounds : RoundingInterval) : Nat → Int → Option (Nat × Int)
  | 0, _ => none
  | fuel + 1, exponent =>
      match nearestMultiple bounds exponent with
      | some factor => some (factor, exponent)
      | none => shortestDecimal bounds fuel (exponent - 1)

/-- The largest decimal exponent of a finite number, and how many lie below it. -/
def largestExponent : Int := 308

def exponentCount : Nat := 700

/-- Positional notation of `factor * 10 ^ exponent`. -/
def positional (factor : Nat) (exponent : Int) : String :=
  let digits := (toString factor).toList
  if 0 ≤ exponent then String.ofList (digits ++ List.replicate exponent.toNat '0')
  else
    let places := (-exponent).toNat
    let padded := List.replicate (places + 1 - digits.length) '0' ++ digits
    String.ofList (padded.take (padded.length - places) ++ '.' :: padded.drop (padded.length - places))

def displayFinite (x : FiniteF64) : String :=
  let signText := if x.sign = 0 then "" else "-"
  if x.magnitude = 0 then signText ++ "0"
  else match shortestDecimal (roundingInterval x) exponentCount largestExponent with
    | some (factor, exponent) => signText ++ positional factor exponent
    | none => signText

def displayFloat : F64Value → String
  | .finite x => displayFinite x
  | .nan => "\"NaN\""
  | .infinity => "\"Infinity\""
  | .negativeInfinity => "\"-Infinity\""

/-! ### Values -/

mutual

def displayValue : AnyValue → String
  | .string value => writeJson value
  | .bool value => if value then "true" else "false"
  | .int value => toString value.toInt
  | .double value => displayFloat value
  | .bytes value => "bytes:" ++ String.ofList (encodeBase64 value)
  | .array values => "[" ++ ",".intercalate (displayValues values) ++ "]"
  | .kvList entries => "\x7b" ++ ",".intercalate (displayEntries entries) ++ "\x7d"

def displayValues : List AnyValue → List String
  | [] => []
  | value :: rest => displayValue value :: displayValues rest

def displayEntries : List (String × AnyValue) → List String
  | [] => []
  | (key, value) :: rest => (writeJson key ++ ":" ++ displayValue value) :: displayEntries rest

end

mutual

def displayCanonical : CanonicalValue → String
  | .unit => "\x7b\x7d"
  | .string value => writeJson value
  | .bool value => if value then "true" else "false"
  | .integer value => toString value
  | .float value => displayFloat value
  | .bytes value => "bytes:" ++ String.ofList (encodeBase64 value)
  | .list values => "[" ++ ",".intercalate (displayCanonicals values) ++ "]"
  | .tuple values => "[" ++ ",".intercalate (displayCanonicals values) ++ "]"
  | .map entries => "map\x7b" ++ ",".intercalate (displayPairs entries) ++ "\x7d"
  | .orderedMap entries => "ordered_map[" ++ ",".intercalate (displayPairs entries) ++ "]"
  | .record fields => "\x7b" ++ ",".intercalate (displayFields fields) ++ "\x7d"
  | .variant name value => name ++ "(" ++ displayCanonical value ++ ")"

def displayCanonicals : List CanonicalValue → List String
  | [] => []
  | value :: rest => displayCanonical value :: displayCanonicals rest

def displayPairs : List (CanonicalValue × CanonicalValue) → List String
  | [] => []
  | (key, value) :: rest =>
      (displayCanonical key ++ ":" ++ displayCanonical value) :: displayPairs rest

def displayFields : List (String × CanonicalValue) → List String
  | [] => []
  | (name, value) :: rest => (name ++ ":" ++ displayCanonical value) :: displayFields rest

end

end SpecGate.Display

import SpecGate.IntegerText

/-!
Scalars of the OTLP JSON mapping. An integer may be written as decimal text with a
fraction and an exponent, as long as its value is an integer; identities are hexadecimal
texts, kept in lower case.
-/
namespace SpecGate.OtlpScalars

open IntegerText

/-- The digits of the widest integer, with its sign left out. -/
def i128MaxDigits : Nat := 39

def parseI32 (text : String) : Except IntErrorKind Int := parseInteger (-2 ^ 31) (2 ^ 31 - 1) text

/-- The text before and after the first of the given characters. -/
def splitOnce (isSeparator : Char → Bool) (text : List Char) : List Char × Option (List Char) :=
  match text.dropWhile fun c => !isSeparator c with
  | [] => (text, none)
  | _ :: rest => (text.takeWhile fun c => !isSeparator c, some rest)

/-- The digits of a number moved by a power of ten; digits that would be lost have to be
zeros. -/
def shiftDigits (digits : List Char) (shift : Int) : Option (List Char) :=
  if 0 ≤ shift then
    if i128MaxDigits < digits.length + shift.toNat then none
    else some (digits ++ List.replicate shift.toNat '0')
  else
    let remove := (-shift).toNat
    if digits.length < remove then none
    else if (digits.drop (digits.length - remove)).all (· == '0') then
      some (digits.take (digits.length - remove))
    else none

/-- The value of a decimal with a fraction and an exponent. -/
def parseFraction (text : List Char) : Option Int := do
  let (mantissa, exponentText) := splitOnce (fun c => c == 'e' || c == 'E') text
  let exponent ← match exponentText with
    | none => some 0
    | some exponentText => (parseI32 (String.ofList exponentText)).toOption
  let (negative, unsigned) := match mantissa with
    | '-' :: rest => (true, rest)
    | rest => (false, rest)
  let (whole, fractionText) := splitOnce (· == '.') unsigned
  let fraction := fractionText.getD []
  if whole.isEmpty || !whole.all Char.isDigit || !fraction.all Char.isDigit ||
      (fractionText.isSome && fraction.isEmpty) then none
  if 2 ^ 31 ≤ fraction.length then none
  let shift := exponent - fraction.length
  if shift < -2 ^ 31 then none
  let digits ← shiftDigits (whole ++ fraction) shift
  let significant := digits.dropWhile (· == '0')
  let magnitude ← if significant.isEmpty then some 0
    else (parseI128 (String.ofList significant)).toOption
  return if negative then -magnitude else magnitude

/-- An integer in any of its decimal forms. -/
def parseDecimal (text : String) : Option Int :=
  match parseI128 text with
  | .ok value => some value
  | .error _ => parseFraction text.toList

/-- An integer text within the bounds of a type. -/
def parseWithin (low high : Int) (text : String) : Option Int :=
  (parseDecimal text).filter fun value => low ≤ value ∧ value ≤ high

def parseTextI64 (text : String) : Option Int := parseWithin (-2 ^ 63) (2 ^ 63 - 1) text

def parseTextU64 (text : String) : Option Int := parseWithin 0 (2 ^ 64 - 1) text

def parseTextU32 (text : String) : Option Int := parseWithin 0 (2 ^ 32 - 1) text

def isHexDigit (c : Char) : Bool :=
  ('0' ≤ c && c ≤ '9') || ('a' ≤ c && c ≤ 'f') || ('A' ≤ c && c ≤ 'F')

/-- Hexadecimal text of whole bytes, in lower case. -/
def normalizeHex (value : String) : Option String :=
  if value.utf8ByteSize % 2 = 0 && value.toList.all isHexDigit then some value.toLower else none

/-! ### Plain integers -/

/-- Text that is read within narrower bounds is read alike within wider ones. -/
theorem parseInteger_mono {low high low' high' : Int} (hlow : low < 0) (hhigh : 0 ≤ high)
    (hlow' : low' ≤ low) (hhigh' : high ≤ high') {text : String} {value : Int}
    (h : parseInteger low high text = .ok value) : parseInteger low' high' text = .ok value := by
  obtain ⟨-, hne, hdigits, hvalue, hbounds⟩ :=
    (parseInteger_eq_ok (by omega) hhigh).mp h
  exact (parseInteger_eq_ok (by omega) (by omega)).mpr
    ⟨fun _ => by omega, hne, hdigits, hvalue, by omega, by omega⟩

theorem parseDecimal_of_i64 {text : String} {value : Int} (h : parseI64 text = .ok value) :
    parseDecimal text = some value := by
  have hwide : parseI128 text = .ok value :=
    parseInteger_mono (by decide) (by decide) (by decide) (by decide) h
  unfold parseDecimal
  rw [hwide]

theorem i64_bounds {text : String} {value : Int} (h : parseI64 text = .ok value) :
    -2 ^ 63 ≤ value ∧ value ≤ 2 ^ 63 - 1 := by
  obtain ⟨-, -, -, -, hbounds⟩ := (parseInteger_eq_ok (by decide) (by decide)).mp h
  exact hbounds

/-- A plain signed integer is the same integer in the mapping. -/
theorem parseTextI64_of_i64 {text : String} {value : Int} (h : parseI64 text = .ok value) :
    parseTextI64 text = some value := by
  unfold parseTextI64 parseWithin
  rw [parseDecimal_of_i64 h, Option.filter_some, if_pos]
  exact decide_eq_true (i64_bounds h)

theorem parseTextU64_of_i64 {text : String} {value : Int} (h : parseI64 text = .ok value)
    (hnonneg : 0 ≤ value) : parseTextU64 text = some value := by
  have hbounds := i64_bounds h
  unfold parseTextU64 parseWithin
  rw [parseDecimal_of_i64 h, Option.filter_some, if_pos]
  exact decide_eq_true ⟨hnonneg, by omega⟩

end SpecGate.OtlpScalars

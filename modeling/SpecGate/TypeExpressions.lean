import SpecGate.ReplayModel

/-!
The type expressions of normalized schemas. A parser reads them into registry types and
resolves every named type against the component it stands in and the dependencies that
component declares.
-/
namespace SpecGate.TypeExpressions

open ReplayModel

/-! ### Characters -/

/-- The character classes of Unicode, of which only the ASCII part is laid down. -/
structure CharClasses where
  isAlphanumeric : Char → Bool
  isWhitespace : Char → Bool
  alphanumeric_ascii : ∀ c : Char, c.toNat < 128 → isAlphanumeric c = c.isAlphanum
  whitespace_ascii : ∀ c : Char, c.toNat < 128 →
    isWhitespace c = decide (c.toNat = 32 ∨ (9 ≤ c.toNat ∧ c.toNat ≤ 13))
  apart : ∀ c, isWhitespace c = true → isAlphanumeric c = false

/-- The classes with no characters outside ASCII. -/
def CharClasses.ascii : CharClasses where
  isAlphanumeric c := c.isAlphanum
  isWhitespace c := decide (c.toNat = 32 ∨ (9 ≤ c.toNat ∧ c.toNat ≤ 13))
  alphanumeric_ascii _ _ := rfl
  whitespace_ascii _ _ := rfl
  apart c h := by
    have hbounds := of_decide_eq_true h
    simp only [Char.isAlphanum, Char.isAlpha, Char.isUpper, Char.isLower, Char.isDigit,
      Bool.or_eq_false_iff, Bool.and_eq_false_iff, decide_eq_false_iff_not, ge_iff_le,
      UInt32.le_iff_toNat_le]
    have hval : c.val.toNat = c.toNat := rfl
    have hupper : 'A'.val.toNat = 65 ∧ 'Z'.val.toNat = 90 := ⟨rfl, rfl⟩
    have hlower : 'a'.val.toNat = 97 ∧ 'z'.val.toNat = 122 := ⟨rfl, rfl⟩
    have hdigit : '0'.val.toNat = 48 ∧ '9'.val.toNat = 57 := ⟨rfl, rfl⟩
    omega

/-! ### Context -/

structure TypeContext where
  component : String
  dependencies : List String
  typesByComponent : List (String × List String)

def TypeContext.declares (context : TypeContext) (component name : String) : Bool :=
  ((SortedAssoc.lookup context.typesByComponent component).getD []).contains name

def isPrimitive (name : String) : Bool :=
  ["unit", "string", "bool", "i32", "i64", "u32", "u64", "f32", "f64", "bytes"].contains name

/-- The parts before and after the last `::` of a name. -/
def rsplitPath : List Char → Option (List Char × List Char)
  | [] => none
  | c :: rest =>
      match rsplitPath rest with
      | some (component, name) => some (c :: component, name)
      | none =>
          match c, rest with
          | ':', ':' :: name => some ([], name)
          | _, _ => none

def TypeContext.namedType (context : TypeContext) (qualifiedName : String) :
    Except String ReplayType :=
  match rsplitPath qualifiedName.toList with
  | some (componentText, nameText) =>
      let component := String.ofList componentText
      let name := String.ofList nameText
      if component ≠ context.component ∧ component ∉ context.dependencies then
        .error s!"named type '{qualifiedName}' references undeclared component dependency '{component}'"
      else if !context.declares component name then
        .error s!"unknown named type '{qualifiedName}'"
      else if component = context.component then .ok (.named name ⟨none, none⟩)
      else if component = "" then
        .error s!"invalid component identity '{component}' in type reference '{qualifiedName}': ComponentId must not be empty"
      else .ok (.named name ⟨some component, none⟩)
  | none =>
      if context.declares context.component qualifiedName then .ok (.named qualifiedName ⟨none, none⟩)
      else .error s!"unknown named type '{qualifiedName}'"

def constructGeneric (name : String) (arguments : List ReplayType) : Except String ReplayType :=
  if name = "List" ∨ name = "list" then
    match arguments with
    | [items] => .ok (.collection items true false)
    | _ => .error s!"type constructor '{name}' expects {1} type arguments"
  else if name = "Set" ∨ name = "set" then
    match arguments with
    | [items] => .ok (.collection items false true)
    | _ => .error s!"type constructor '{name}' expects {1} type arguments"
  else if name = "Bag" ∨ name = "bag" ∨ name = "OrderedSet" ∨ name = "ordered_set" then
    let ordered := decide (name = "OrderedSet" ∨ name = "ordered_set")
    match arguments with
    | [items] => .ok (.collection items ordered ordered)
    | _ => .error s!"type constructor '{name}' expects {1} type arguments"
  else if name = "Map" ∨ name = "map" ∨ name = "OrderedMap" ∨ name = "ordered_map" then
    match arguments with
    | [keys, values] =>
        .ok (.map keys values (decide (name = "OrderedMap" ∨ name = "ordered_map")))
    | _ => .error s!"type constructor '{name}' expects {2} type arguments"
  else if name = "Tuple" ∨ name = "tuple" then
    if arguments.isEmpty then
      .error s!"type constructor '{name}' expects at least 1 type argument"
    else .ok (.tuple arguments)
  else if name = "Option" ∨ name = "optional" then
    match arguments with
    | [value] => .ok (.optional value)
    | _ => .error s!"type constructor '{name}' expects {1} type arguments"
  else .error s!"unsupported type constructor '{name}'"

/-! ### Parsing -/

section Parsing

variable (classes : CharClasses)

def skipWhitespace (rest : List Char) : List Char := rest.dropWhile classes.isWhitespace

/-- Take the expected character after any whitespace; the whitespace is gone either way. -/
def consume (expected : Char) (rest : List Char) : Bool × List Char :=
  match skipWhitespace classes rest with
  | [] => (false, [])
  | c :: rest => if c = expected then (true, rest) else (false, c :: rest)

def isNameChar (c : Char) : Bool := classes.isAlphanumeric c || c == '_' || c == ':' || c == '.'

def isFieldChar (c : Char) : Bool := classes.isAlphanumeric c || c == '_'

/-- The place in the input, in bytes, at which the rest begins. -/
def position (input rest : List Char) : Nat :=
  (String.ofList input).utf8ByteSize - (String.ofList rest).utf8ByteSize

variable (context : TypeContext) (input : List Char)

def parseIdentifier (rest : List Char) : Except String (String × List Char) :=
  let rest := skipWhitespace classes rest
  let name := rest.takeWhile (isNameChar classes)
  if name.isEmpty then .error s!"expected type name at byte {position input rest}"
  else .ok (String.ofList name, rest.dropWhile (isNameChar classes))

/-- A field name and its colon; the failure tells how far the input was read. -/
def parseFieldName (names : List String) (rest : List Char) : Except String (String × List Char) :=
  let rest := skipWhitespace classes rest
  let name := String.ofList (rest.takeWhile (isFieldChar classes))
  let after := rest.dropWhile (isFieldChar classes)
  let failed (rest : List Char) : String :=
    s!"expected a unique record field followed by ':' at byte {position input rest}"
  if name.isEmpty ∨ name ∈ names then .error (failed after)
  else
    match consume classes ':' after with
    | (true, after) => .ok (name, after)
    | (false, after) => .error (failed after)

mutual

def parseType : Nat → List Char → Except String (ReplayType × List Char)
  | 0, _ => .error "type reference is too deep"
  | fuel + 1, rest =>
      match consume classes '\x7b' rest with
      | (true, rest) => parseRecord fuel rest
      | (false, rest) =>
          match rest with
          | '(' :: ')' :: rest => .ok (.primitive "unit", rest)
          | rest => do
              let (name, rest) ← parseIdentifier classes input rest
              match consume classes '<' rest with
              | (true, rest) =>
                  let (arguments, rest) ← parseArguments fuel rest
                  let type ← constructGeneric name arguments
                  return (type, rest)
              | (false, rest) =>
                  if isPrimitive name then return (.primitive name, rest)
                  let type ← context.namedType name
                  return (type, rest)

def parseRecord : Nat → List Char → Except String (ReplayType × List Char)
  | 0, _ => .error "type reference is too deep"
  | fuel + 1, rest =>
      match consume classes '\x7d' rest with
      | (true, rest) => .ok (.record [], rest)
      | (false, rest) => do
          let (fields, rest) ← parseFields fuel rest []
          return (.record fields, rest)

def parseFields : Nat → List Char → List (String × ReplayType) →
    Except String (List (String × ReplayType) × List Char)
  | 0, _, _ => .error "type reference is too deep"
  | fuel + 1, rest, fields => do
      let (name, rest) ← parseFieldName classes input (fields.map Prod.fst) rest
      let (type, rest) ← parseType fuel rest
      match consume classes '\x7d' rest with
      | (true, rest) => return (fields ++ [(name, type)], rest)
      | (false, rest) =>
          match consume classes ',' rest with
          | (true, rest) => parseFields fuel rest (fields ++ [(name, type)])
          | (false, rest) => .error s!"expected ',' or '\x7d' at byte {position input rest}"

def parseArguments : Nat → List Char → Except String (List ReplayType × List Char)
  | 0, _ => .error "type reference is too deep"
  | fuel + 1, rest =>
      match consume classes '>' rest with
      | (true, rest) => .ok ([], rest)
      | (false, rest) => parseArgumentsFrom fuel rest

def parseArgumentsFrom : Nat → List Char → Except String (List ReplayType × List Char)
  | 0, _ => .error "type reference is too deep"
  | fuel + 1, rest => do
      let (type, rest) ← parseType fuel rest
      match consume classes '>' rest with
      | (true, rest) => return ([type], rest)
      | (false, rest) =>
          match consume classes ',' rest with
          | (true, rest) =>
              let (others, rest) ← parseArgumentsFrom fuel rest
              return (type :: others, rest)
          | (false, []) => .error s!"expected '>' at byte {position input []}"
          | (false, rest) => .error s!"expected ',' or '>' at byte {position input rest}"

end

end Parsing

/-- Enough for every call to read a character before the next two. -/
def parserFuel (input : List Char) : Nat := 2 * input.length + 2

def typeRef (classes : CharClasses) (context : TypeContext) (text : String) :
    Except String ReplayType := do
  let input := text.toList
  let (type, rest) ← parseType classes context input (parserFuel input) input
  let rest := skipWhitespace classes rest
  if rest.isEmpty then return type
  else .error s!"unexpected trailing input '{String.ofList rest}' in type reference '{text}'"

def trim (classes : CharClasses) (text : List Char) : List Char :=
  ((text.dropWhile classes.isWhitespace).reverse.dropWhile classes.isWhitespace).reverse

def isUnit (classes : CharClasses) (text : String) : Bool :=
  ["", "()", "unit"].contains (String.ofList (trim classes text.toList))

/-! ### Comparing types -/

namespace ReplayType

mutual

def beq : ReplayType → ReplayType → Bool
  | .primitive name, .primitive other => name == other
  | .named name owner, .named other otherOwner => name == other && owner == otherOwner
  | .collection items ordered unique, .collection others ordered' unique' =>
      beq items others && ordered == ordered' && unique == unique'
  | .map keys values ordered, .map keys' values' ordered' =>
      beq keys keys' && beq values values' && ordered == ordered'
  | .tuple items, .tuple others => beqList items others
  | .optional value, .optional other => beq value other
  | .record fields, .record others => beqFields fields others
  | _, _ => false
termination_by structural type => type

def beqList : List ReplayType → List ReplayType → Bool
  | [], [] => true
  | type :: rest, other :: others => beq type other && beqList rest others
  | _, _ => false
termination_by structural types => types

def beqFields : List (String × ReplayType) → List (String × ReplayType) → Bool
  | [], [] => true
  | (name, type) :: rest, (otherName, other) :: others =>
      name == otherName && beq type other && beqFields rest others
  | _, _ => false
termination_by structural fields => fields

end

mutual

theorem beq_iff : ∀ type other : ReplayType, beq type other = true ↔ type = other
  | .primitive _, other => by cases other <;> simp [beq]
  | .named _ _, other => by cases other <;> simp [beq]
  | .collection items _ _, other => by
      cases other with
      | collection others => simp [beq, beq_iff items others, and_assoc]
      | _ => simp [beq]
  | .map keys values _, other => by
      cases other with
      | map keys' values' => simp [beq, beq_iff keys keys', beq_iff values values', and_assoc]
      | _ => simp [beq]
  | .tuple items, other => by
      cases other with
      | tuple others => simp [beq, beqList_iff items others]
      | _ => simp [beq]
  | .optional value, other => by
      cases other with
      | optional value' => simp [beq, beq_iff value value']
      | _ => simp [beq]
  | .record fields, other => by
      cases other with
      | record others => simp [beq, beqFields_iff fields others]
      | _ => simp [beq]

theorem beqList_iff : ∀ types others : List ReplayType, beqList types others = true ↔ types = others
  | [], others => by cases others <;> simp [beqList]
  | type :: rest, others => by
      cases others with
      | nil => simp [beqList]
      | cons other others => simp [beqList, beq_iff type other, beqList_iff rest others]

theorem beqFields_iff : ∀ fields others : List (String × ReplayType),
    beqFields fields others = true ↔ fields = others
  | [], others => by cases others <;> simp [beqFields]
  | (_, type) :: rest, others => by
      cases others with
      | nil => simp [beqFields]
      | cons other others =>
        obtain ⟨name, other⟩ := other
        simp [beqFields, beq_iff type other, beqFields_iff rest others]

end

end ReplayType

instance : DecidableEq ReplayType := fun type other =>
  decidable_of_iff _ (ReplayType.beq_iff type other)

end SpecGate.TypeExpressions

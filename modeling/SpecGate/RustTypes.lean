import SpecGate.TypeExpressions

/-!
Rust types as discovery reads them. A type text is split into tokens and parsed; the parsed
type is mapped to a semantic type reference, and the names it refers to are collected.
-/
namespace SpecGate.RustTypes

open TypeExpressions

/-- A parsed Rust type; of a path only the last segment is kept. -/
inductive RustType where
  | named (name : String) (args : List RustType)
  | ref (inner : RustType)
  | slice (inner : RustType)
  | tuple (items : List RustType)

inductive SpecType where
  | scalar (value : String)
  | map (keys values : SpecType)
  | set (items : SpecType)

def SpecType.refString : SpecType → String
  | scalar value => value
  | map keys values => "map<" ++ keys.refString ++ ", " ++ values.refString ++ ">"
  | set items => "set<" ++ items.refString ++ ">"

/-! ### Tokens -/

def isSpecial (c : Char) : Bool := ['<', '>', ',', '&', '[', ']', '(', ')'].contains c

/-- The word read so far, if there is one. -/
def flush (word : List Char) : List String :=
  if word.isEmpty then [] else [String.ofList word]

def tokenizeFrom (classes : CharClasses) : List Char → List Char → List String
  | word, [] => flush word
  | word, c :: rest =>
      if isSpecial c then flush word ++ c.toString :: tokenizeFrom classes [] rest
      else if classes.isWhitespace c then flush word ++ tokenizeFrom classes [] rest
      else tokenizeFrom classes (word ++ [c]) rest

def tokenizeType (classes : CharClasses) (text : List Char) : List String :=
  tokenizeFrom classes [] text

/-! ### Parsing -/

/-- Skip a lifetime and `mut` after a reference sign. -/
def skipQualifiers (tokens : List String) : List String :=
  let tokens := match tokens with
    | token :: rest => if token.toList.head? = some '\'' then rest else token :: rest
    | [] => []
  match tokens with
  | "mut" :: rest => rest
  | tokens => tokens

/-- The last segment of a path whose separators stand alone. -/
def lastSegment (name : String) : List String → String × List String
  | "::" :: segment :: rest => lastSegment segment rest
  | ["::"] => (name, [])
  | rest => (name, rest)

/-- A segment without the path the tokenizer kept in it. -/
def stripPath (name : String) : String :=
  match rsplitPath name.toList with
  | some (_, last) => String.ofList last
  | none => name

/-- A path without its arguments. -/
def parsePath (tokens : List String) : Option (String × List String) :=
  let tokens := match tokens with
    | "::" :: rest => rest
    | tokens => tokens
  match tokens with
  | [] => none
  | name :: rest =>
      let (name, rest) := lastSegment name rest
      some (stripPath name, rest)

mutual

def parseTokens : Nat → List String → Option (RustType × List String)
  | 0, _ => none
  | fuel + 1, tokens =>
      match tokens with
      | [] => none
      | "&" :: rest => do
          let (inner, rest) ← parseTokens fuel (skipQualifiers rest)
          return (.ref inner, rest)
      | "[" :: rest => do
          let (inner, rest) ← parseTokens fuel rest
          match rest with
          | "]" :: rest => return (.slice inner, rest)
          | _ => none
      | "(" :: ")" :: rest => some (.named "()" [], rest)
      | "(" :: rest => do
          let (first, rest) ← parseTokens fuel rest
          match rest with
          | ")" :: rest => return (first, rest)
          | "," :: rest =>
              let (items, rest) ← parseItems fuel rest
              return (.tuple (first :: items), rest)
          | _ => none
      | ")" :: _ | ">" :: _ | "," :: _ | "]" :: _ => none
      | tokens => do
          let (name, rest) ← parsePath tokens
          match rest with
          | "<" :: rest =>
              let (args, rest) ← parseArgs fuel rest
              return (.named name args, rest)
          | rest => return (.named name [], rest)

/-- The items of a tuple after the first, to its closing parenthesis. -/
def parseItems : Nat → List String → Option (List RustType × List String)
  | 0, _ => none
  | fuel + 1, tokens =>
      match tokens with
      | ")" :: rest => some ([], rest)
      | tokens => do
          let (item, rest) ← parseTokens fuel tokens
          match rest with
          | "," :: rest =>
              let (items, rest) ← parseItems fuel rest
              return (item :: items, rest)
          | ")" :: rest => return ([item], rest)
          | _ => none

/-- The arguments of a generic type, to its closing bracket. -/
def parseArgs : Nat → List String → Option (List RustType × List String)
  | 0, _ => none
  | fuel + 1, tokens =>
      match tokens with
      | [] => none
      | ">" :: _ => none
      | tokens => do
          let (arg, rest) ← parseTokens fuel tokens
          match rest with
          | "," :: rest =>
              let (args, rest) ← parseArgs fuel rest
              return (arg :: args, rest)
          | ">" :: rest => return ([arg], rest)
          | _ => none

end

/-- Without fuel nothing is read. -/
example : parseTokens 0 [] = none ∧ parseItems 0 [] = none ∧ parseArgs 0 [] = none := by
  rw [parseTokens, parseItems, parseArgs]
  exact ⟨rfl, rfl, rfl⟩

/-- Enough for every call to read a token before the next two. -/
def typeFuel (tokens : List String) : Nat := 2 * tokens.length + 1

def parse (classes : CharClasses) (text : String) : Option RustType :=
  let tokens := tokenizeType classes text.toList
  match parseTokens (typeFuel tokens) tokens with
  | some (type, []) => some type
  | _ => none

/-! ### Mapping -/

def runtimeValue (name : String) : Bool :=
  ["Value", "specgate_runtime::Value", "::specgate_runtime::Value",
    "specgate_runtime::value::Value", "::specgate_runtime::value::Value",
    "specgate::Value"].contains name

def constructor (name : String) : Bool :=
  ["Option", "optional", "Vec", "List", "list", "Bag", "Tuple", "tuple", "OrderedSet",
    "OrderedMap", "Result", "HashMap", "BTreeMap", "Map", "map", "HashSet", "BTreeSet", "Set",
    "set"].contains name

def builtin (name : String) : Bool :=
  runtimeValue name || constructor name ||
    ["String", "string", "str", "ComponentId", "OperationName", "ImplementationLabel", "char",
      "bool", "i8", "i16", "i32", "i64", "i128", "isize", "u8", "u16", "u32", "u64", "u128",
      "usize", "f32", "f64", "()", "unit", "value"].contains name

def textNames : List String :=
  ["String", "str", "ComponentId", "OperationName", "ImplementationLabel"]

/-- The semantic type of a named type, from those of its arguments. -/
def mapNamed (name : String) (args : List SpecType) : SpecType :=
  if textNames.contains name then .scalar "string"
  else
    match args with
    | [] =>
        if name = "()" then .scalar "unit"
        else if runtimeValue name then .scalar "value"
        else .scalar name
    | [item] =>
        if name = "Option" then .scalar ("Option<" ++ item.refString ++ ">")
        else if name = "Vec" then .scalar ("List<" ++ item.refString ++ ">")
        else if name = "HashSet" ∨ name = "BTreeSet" then .set item
        else .scalar name
    | [first, second] =>
        if name = "Result" then
          .scalar ("Result<" ++ first.refString ++ ", " ++ second.refString ++ ">")
        else if name = "HashMap" ∨ name = "BTreeMap" then .map first second
        else .scalar name
    | _ => .scalar name

mutual

def mapRust : RustType → SpecType
  | .named name args => mapNamed name (mapRusts args)
  | .ref inner => mapRust inner
  | .slice inner => .scalar ("List<" ++ (mapRust inner).refString ++ ">")
  | .tuple items => .scalar ("Tuple<" ++ ", ".intercalate (refStrings items) ++ ">")
termination_by structural type => type

def mapRusts : List RustType → List SpecType
  | [] => []
  | type :: rest => mapRust type :: mapRusts rest
termination_by structural types => types

def refStrings : List RustType → List String
  | [] => []
  | type :: rest => (mapRust type).refString :: refStrings rest
termination_by structural types => types

end

def mapType (classes : CharClasses) (text : String) : Except String SpecType :=
  match parse classes text with
  | some type => .ok (mapRust type)
  | none => .error s!"invalid Rust type expression '{text}'"

/-! ### References -/

mutual

/-- The names that are no built-in types, in source order. -/
def appendRefs : RustType → List String
  | .named name args =>
      (if !builtin name || (args.isEmpty && constructor name) then [name] else []) ++
        appendAllRefs args
  | .ref inner | .slice inner => appendRefs inner
  | .tuple items => appendAllRefs items
termination_by structural type => type

def appendAllRefs : List RustType → List String
  | [] => []
  | type :: rest => appendRefs type ++ appendAllRefs rest
termination_by structural types => types

end

def collectRefs (classes : CharClasses) (text : String) : List String :=
  match parse classes text with
  | some type => appendRefs type
  | none => []

/-! ### Texts -/

/-- The words of a text between whitespace. -/
def splitWhitespaceFrom (classes : CharClasses) : List Char → List Char → List String
  | word, [] => flush word
  | word, c :: rest =>
      if classes.isWhitespace c then flush word ++ splitWhitespaceFrom classes [] rest
      else splitWhitespaceFrom classes (word ++ [c]) rest

def normalize (classes : CharClasses) (text : String) : String :=
  " ".intercalate (splitWhitespaceFrom classes [] text.toList)

def isUnit (classes : CharClasses) (text : String) : Bool :=
  let normalized := normalize classes text
  normalized == "" || normalized == "()"

mutual

def render : RustType → String
  | .named name args =>
      if args.isEmpty then name else name ++ "<" ++ ", ".intercalate (renderAll args) ++ ">"
  | .ref inner => "&" ++ render inner
  | .slice inner => "[" ++ render inner ++ "]"
  | .tuple items => "(" ++ ", ".intercalate (renderAll items) ++ ",)"
termination_by structural type => type

def renderAll : List RustType → List String
  | [] => []
  | type :: rest => render type :: renderAll rest
termination_by structural types => types

end

example : (parse .ascii "std :: collections :: BTreeMap < String , Vec < Order > >").map
    (fun type => (mapRust type).refString) = some "map<string, List<Order>>" := by rfl

end SpecGate.RustTypes

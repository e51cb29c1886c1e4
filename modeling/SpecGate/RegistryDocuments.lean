import SpecGate.JsonTexts

/-!
The discovery document that an instrumented binary prints: its link-time inventory of
operations and semantic types. The text is written by hand, one piece after the other, with
a comma before every item but the first and members that are there only when they say
something. Each piece spells the part of the document that it stands for.
-/
namespace SpecGate.RegistryDocuments

open JsonTrees JsonTexts
open Values (FiniteF64)

/-! ### The inventory -/

structure FieldMeta where
  name : String
  rustType : String

structure VariantMeta where
  name : String
  fields : List FieldMeta
  tuple : Option (List String)

inductive TypeKind where
  | struct
  | enum

/-- A type carries metadata for the data shape of its kind only. -/
structure TypeMeta where
  name : String
  modulePath : String
  kind : TypeKind
  fields : List FieldMeta
  variants : List VariantMeta
  component : String
  propertySetup : Option String
  shape : match kind with
    | .struct => variants = []
    | .enum => fields = []

/-- `typeArguments` holds what the registered function returns, and `replaySetup` the output
type of the registered setup bridge. -/
structure OpMeta where
  name : String
  modulePath : String
  fnName : String
  isSetup : Bool
  isAsync : Bool
  isMethod : Bool
  consumesReceiver : Bool
  explicitComponent : Bool
  isPublic : Bool
  params : List FieldMeta
  returnType : String
  fills : Option String
  component : String
  typeArguments : Option (List String)
  replaySetup : Option String

structure Discovery where
  operations : List OpMeta
  types : List TypeMeta

def TypeKind.asStr : TypeKind → String
  | .struct => "struct"
  | .enum => "enum"

/-! ### Writing -/

/-- Four hexadecimal digits. -/
def hexText (code : Nat) : List Char := (Nat.toDigits 16 code).leftpad 4 '0'

def escapeChar : Char → List Char
  | '"' => ['\\', '"']
  | '\\' => ['\\', '\\']
  | '\n' => ['\\', 'n']
  | '\r' => ['\\', 'r']
  | '\t' => ['\\', 't']
  | c => if c.toNat < 0x20 then '\\' :: 'u' :: hexText c.toNat else [c]

def writeString (out : List Char) (value : String) : List Char :=
  value.toList.foldl (fun out c => out ++ escapeChar c) (out ++ ['"']) ++ ['"']

/-- Write the items of a list, with a comma before every item but the first. -/
def writeEach {α : Type} (write : List Char → α → List Char) (out : List Char) (items : List α) :
    List Char :=
  items.zipIdx.foldl
    (fun out (item, index) => write (if 0 < index then out ++ [','] else out) item) out

def writeField (out : List Char) (field : FieldMeta) : List Char :=
  let out := writeString (out ++ ['[']) field.name
  let out := writeString (out ++ [',']) field.rustType
  out ++ [']']

def writeFields (out : List Char) (fields : List FieldMeta) : List Char :=
  writeEach writeField (out ++ ['[']) fields ++ [']']

def writeProperty (out : List Char) (start value : String) : List Char :=
  writeString (out ++ start.toList) value

def boolText (value : Bool) : List Char :=
  if value then ['t', 'r', 'u', 'e'] else ['f', 'a', 'l', 's', 'e']

def writeOperation (out : List Char) (op : OpMeta) : List Char :=
  let out := writeProperty out "\x7b\"name\":" op.name
  let out := writeProperty out ",\"module_path\":" op.modulePath
  let out := writeProperty out ",\"fn_name\":" op.fnName
  let typeArguments := op.typeArguments.getD []
  let out := if typeArguments.isEmpty then out else
    writeEach writeString (out ++ ",\"type_arguments\":[".toList) typeArguments ++ [']']
  let out := out ++ ",\"is_setup\":".toList ++ boolText op.isSetup
  let out := out ++ ",\"is_async\":".toList ++ boolText op.isAsync
  let out := out ++ ",\"is_method\":".toList ++ boolText op.isMethod
  let out := out ++ ",\"is_public\":".toList ++ boolText op.isPublic
  let out := writeProperty out ",\"return_type\":" op.returnType
  let out := if op.consumesReceiver then out ++ ",\"consumes_receiver\":true".toList else out
  let out := if op.explicitComponent then out ++ ",\"explicit_component\":true".toList else out
  let out := match op.replaySetup with
    | some output => writeProperty out ",\"replay_output\":" output
    | none => out
  let out := writeProperty out ",\"fills\":" (op.fills.getD "")
  let out := writeProperty out ",\"component\":" op.component
  let out := writeFields (out ++ ",\"params\":".toList) op.params
  out ++ ['\x7d']

def writeVariant (out : List Char) (variant : VariantMeta) : List Char :=
  let out := writeProperty out "\x7b\"name\":" variant.name
  let out := writeFields (out ++ ",\"fields\":".toList) variant.fields
  let out := out ++ ",\"tuple\":".toList
  let out := match variant.tuple with
    | some tuple => writeEach writeString (out ++ ['[']) tuple ++ [']']
    | none => out ++ ['n', 'u', 'l', 'l']
  out ++ ['\x7d']

def writeType (out : List Char) (ty : TypeMeta) : List Char :=
  let out := writeProperty out "\x7b\"name\":" ty.name
  let out := writeProperty out ",\"module_path\":" ty.modulePath
  let out := writeProperty out ",\"kind\":" ty.kind.asStr
  let out := writeProperty out ",\"component\":" ty.component
  let out := match ty.propertySetup with
    | some nativeName =>
        writeProperty (out ++ ",\"property_setup\":true".toList) ",\"native_name\":" nativeName
    | none => out
  let out := writeFields (out ++ ",\"fields\":".toList) ty.fields
  let out := writeEach writeVariant (out ++ ",\"variants\":[".toList) ty.variants
  out ++ "]\x7d".toList

def Discovery.json (discovery : Discovery) : String :=
  let out := writeEach writeOperation "\x7b\"operations\":[".toList discovery.operations
  let out := writeEach writeType (out ++ "],\"types\":[".toList) discovery.types
  String.ofList (out ++ "]\x7d".toList)

/-! ### Texts of documents -/

section Documents

variable {nearest : Bool → ℚ → Option FiniteF64}

/-- A document with a text that spells it. -/
structure Written (nearest : Bool → ℚ → Option FiniteF64) where
  json : Json
  text : List Char
  spelled : TextOf nearest json text

theorem spells_control (c : Char) (h : c.toNat < 0x20) {body content : List Char}
    (hbody : Spells body content) :
    Spells ('\\' :: 'u' :: hexText c.toNat ++ body) (c :: content) := by
  have hcode : ∀ code < 0x20, ∃ first second third fourth,
      hexText code = [first, second, third, fourth] ∧
        hexCode first second third fourth = some code := by
    intro code hcode
    interval_cases code <;> exact ⟨_, _, _, _, rfl, rfl⟩
  obtain ⟨first, second, third, fourth, htext, hread⟩ := hcode c.toNat h
  have hspells := Spells.unicode hread hbody
  rw [Char.ofNat_toNat] at hspells
  rw [htext]
  exact hspells

/-- The escapes stand for the character. -/
theorem spells_escapeChar (c : Char) {body content : List Char} (h : Spells body content) :
    Spells (escapeChar c ++ body) (c :: content) := by
  unfold escapeChar
  split
  · exact .short rfl h
  · exact .short rfl h
  · exact .short rfl h
  · exact .short rfl h
  · exact .short rfl h
  · rename_i hquote hbackslash _ _ _
    by_cases hcontrol : c.toNat < 0x20
    · rw [if_pos hcontrol]
      exact spells_control c hcontrol h
    · rw [if_neg hcontrol]
      exact .plain (Nat.le_of_not_lt hcontrol) hquote hbackslash h

def quotedText (value : String) : List Char :=
  '"' :: (value.toList.flatMap escapeChar ++ ['"'])

theorem quoted_quotedText (value : String) : Quoted value (quotedText value) := by
  refine ⟨_, rfl, ?_⟩
  induction value.toList with
  | nil => exact .nil
  | cons c rest ih =>
    rw [List.flatMap_cons]
    exact spells_escapeChar c ih

namespace Written

def string (value : String) : Written nearest where
  json := .string value
  text := quotedText value
  spelled := quoted_quotedText value

def bool (value : Bool) : Written nearest where
  json := .bool value
  text := boolText value
  spelled := by
    cases value <;> rfl

def null : Written nearest where
  json := .null
  text := ['n', 'u', 'l', 'l']
  spelled := rfl

def array (items : List (Written nearest)) : Written nearest where
  json := .array (items.map json)
  text := arrayText (items.map text)
  spelled := by
    apply textOf_array
    rw [List.forall₂_map_left_iff, List.forall₂_map_right_iff, List.forall₂_same]
    exact fun item _ => item.spelled

/-- A member with its name and the colon. -/
def memberText (member : String × Written nearest) : List Char :=
  quotedText member.1 ++ ':' :: member.2.text

def object (members : List (String × Written nearest)) : Written nearest where
  json := .object (members.map fun member => (member.1, member.2.json))
  text := objectText (members.map memberText)
  spelled := by
    apply textOf_object
    rw [List.forall₂_map_left_iff, List.forall₂_map_right_iff, List.forall₂_same]
    exact fun member _ => ⟨_, _, rfl, quoted_quotedText _, member.2.spelled⟩

end Written

/-- The members that are there. -/
def present (slots : List (String × Option (Written nearest))) : List (String × Written nearest) :=
  slots.filterMap fun slot => slot.2.map fun value => (slot.1, value)

/-- A member after the first one, or nothing. -/
def slotText (slot : String × Option (Written nearest)) : List Char :=
  match slot.2 with
  | none => []
  | some value => ',' :: Written.memberText (slot.1, value)

theorem flatMap_present (slots : List (String × Option (Written nearest))) :
    ((present slots).map Written.memberText).flatMap (',' :: ·) = slots.flatMap slotText := by
  induction slots with
  | nil => rfl
  | cons slot rest ih =>
    obtain ⟨key, value⟩ := slot
    rw [List.flatMap_cons, ← ih]
    cases value with
    | none => rfl
    | some value => rfl

/-- An object whose first member is always there. -/
theorem text_object (key : String) (value : Written nearest)
    (slots : List (String × Option (Written nearest))) :
    (Written.object (present ((key, some value) :: slots))).text =
      '\x7b' :: (Written.memberText (key, value) ++ slots.flatMap slotText ++ ['\x7d']) := by
  rw [← flatMap_present]
  rfl

/-! ### The documents of the parts -/

def strings (values : List String) : Written nearest := .array (values.map .string)

def fieldWritten (field : FieldMeta) : Written nearest :=
  .array [.string field.name, .string field.rustType]

def fieldsWritten (fields : List FieldMeta) : Written nearest := .array (fields.map fieldWritten)

/-- A member that is written as true or left out. -/
def flag (value : Bool) : Option (Written nearest) := if value then some (.bool true) else none

def writtenArguments (op : OpMeta) : Option (Written nearest) :=
  if (op.typeArguments.getD []).isEmpty then none
  else some (strings (op.typeArguments.getD []))

def operationSlots (op : OpMeta) : List (String × Option (Written nearest)) :=
  [("name", some (.string op.name)),
    ("module_path", some (.string op.modulePath)),
    ("fn_name", some (.string op.fnName)),
    ("type_arguments", writtenArguments op),
    ("is_setup", some (.bool op.isSetup)),
    ("is_async", some (.bool op.isAsync)),
    ("is_method", some (.bool op.isMethod)),
    ("is_public", some (.bool op.isPublic)),
    ("return_type", some (.string op.returnType)),
    ("consumes_receiver", flag op.consumesReceiver),
    ("explicit_component", flag op.explicitComponent),
    ("replay_output", op.replaySetup.map .string),
    ("fills", some (.string (op.fills.getD ""))),
    ("component", some (.string op.component)),
    ("params", some (fieldsWritten op.params))]

def tupleWritten : Option (List String) → Written nearest
  | some tuple => strings tuple
  | none => .null

def variantSlots (variant : VariantMeta) : List (String × Option (Written nearest)) :=
  [("name", some (.string variant.name)),
    ("fields", some (fieldsWritten variant.fields)),
    ("tuple", some (tupleWritten variant.tuple))]

def operationWritten (op : OpMeta) : Written nearest := .object (present (operationSlots op))

def variantWritten (variant : VariantMeta) : Written nearest :=
  .object (present (variantSlots variant))

def typeSlots (ty : TypeMeta) : List (String × Option (Written nearest)) :=
  [("name", some (.string ty.name)),
    ("module_path", some (.string ty.modulePath)),
    ("kind", some (.string ty.kind.asStr)),
    ("component", some (.string ty.component)),
    ("property_setup", flag ty.propertySetup.isSome),
    ("native_name", ty.propertySetup.map .string),
    ("fields", some (fieldsWritten ty.fields)),
    ("variants", some (.array (ty.variants.map variantWritten)))]

def typeWritten (ty : TypeMeta) : Written nearest := .object (present (typeSlots ty))

def discoverySlots (discovery : Discovery) : List (String × Option (Written nearest)) :=
  [("operations", some (.array (discovery.operations.map operationWritten))),
    ("types", some (.array (discovery.types.map typeWritten)))]

def discoveryWritten (discovery : Discovery) : Written nearest :=
  .object (present (discoverySlots discovery))

/-! ### The texts of the parts -/

theorem writeString_append (out : List Char) (value : String) :
    writeString out value = out ++ quotedText value := by
  have hfold : ∀ (text : List Char) (out : List Char),
      text.foldl (fun out c => out ++ escapeChar c) out = out ++ text.flatMap escapeChar := by
    intro text
    induction text with
    | nil =>
      intro out
      exact (List.append_nil out).symm
    | cons c rest ih =>
      intro out
      rw [List.foldl_cons, ih, List.flatMap_cons, List.append_assoc]
  unfold writeString quotedText
  rw [hfold, List.append_assoc, List.append_assoc]
  rfl

/-- A list whose items are appended is appended with its commas. -/
theorem writeEach_append {α : Type} {write : List Char → α → List Char} {text : α → List Char}
    (hwrite : ∀ out item, write out item = out ++ text item) (out : List Char) (items : List α) :
    writeEach write out items = out ++ commaJoin (items.map text) := by
  have hrest : ∀ (items : List α) (start : Nat) (out : List Char), 0 < start →
      (items.zipIdx start).foldl
        (fun out (item, index) => write (if 0 < index then out ++ [','] else out) item) out =
      out ++ (items.map text).flatMap (',' :: ·) := by
    intro items
    induction items with
    | nil =>
      intro start out _
      exact (List.append_nil out).symm
    | cons item rest ih =>
      intro start out hstart
      rw [List.zipIdx_cons, List.foldl_cons, ih (start + 1) _ (by omega)]
      dsimp only
      rw [if_pos hstart, hwrite, List.map_cons, List.flatMap_cons]
      simp only [List.append_assoc, List.cons_append, List.nil_append]
  cases items with
  | nil => exact (List.append_nil out).symm
  | cons item rest =>
    unfold writeEach
    rw [List.zipIdx_cons, List.foldl_cons, hrest rest (0 + 1) _ (by omega)]
    dsimp only
    rw [if_neg (by omega), hwrite, List.append_assoc]
    rfl

theorem writeEach_array {α : Type} {write : List Char → α → List Char}
    {written : α → Written nearest}
    (hwrite : ∀ out item, write out item = out ++ (written item).text) (out : List Char)
    (items : List α) :
    writeEach write (out ++ ['[']) items ++ [']'] =
      out ++ (Written.array (items.map written)).text := by
  rw [writeEach_append hwrite, List.append_assoc, List.append_assoc]
  unfold Written.array
  dsimp only
  rw [List.map_map]
  rfl

theorem writeField_append (out : List Char) (field : FieldMeta) :
    writeField out field = out ++ (@fieldWritten nearest field).text := by
  unfold writeField
  dsimp only
  rw [writeString_append, writeString_append]
  unfold fieldWritten Written.array
  simp only [List.map_cons, List.map_nil, arrayText, commaJoin, List.flatMap_cons,
    List.flatMap_nil, List.append_assoc, List.cons_append, List.nil_append]
  rfl

theorem writeFields_append (out : List Char) (fields : List FieldMeta) :
    writeFields out fields = out ++ (@fieldsWritten nearest fields).text :=
  writeEach_array writeField_append out fields

/-- A piece of the source's text that starts a member. -/
def Starts (start key : String) : Prop := start.toList = ',' :: (quotedText key ++ [':'])

theorem append_slot {start key : String} (hstart : Starts start key) (out : List Char)
    (value : Written nearest) :
    out ++ start.toList ++ value.text = out ++ slotText (key, some value) := by
  rw [List.append_assoc, hstart]
  unfold slotText Written.memberText
  simp only [List.cons_append, List.append_assoc, List.nil_append]

theorem bool_slot {start key : String} (hstart : Starts start key) (out : List Char)
    (value : Bool) :
    out ++ start.toList ++ boolText value =
      out ++ slotText (key, some (.bool value : Written nearest)) :=
  append_slot hstart out (.bool value)

theorem writeProperty_slot {start key : String} (hstart : Starts start key) (out : List Char)
    (value : String) :
    writeProperty out start value =
      out ++ slotText (key, some (.string value : Written nearest)) := by
  unfold writeProperty
  rw [writeString_append]
  exact append_slot hstart out (Written.string value)

theorem writeFields_slot {start key : String} (hstart : Starts start key) (out : List Char)
    (fields : List FieldMeta) :
    writeFields (out ++ start.toList) fields =
      out ++ slotText (key, some (@fieldsWritten nearest fields)) := by
  rw [@writeFields_append nearest]
  exact append_slot hstart out (fieldsWritten fields)

theorem writeProperty_first (out : List Char) (value : String) :
    writeProperty out "\x7b\"name\":" value =
      out ++ ('\x7b' :: Written.memberText ("name", (.string value : Written nearest))) := by
  have hstart : "\x7b\"name\":".toList = '\x7b' :: (quotedText "name" ++ [':']) := by decide
  unfold writeProperty Written.memberText
  rw [writeString_append, hstart]
  simp only [List.cons_append, List.append_assoc, List.nil_append]
  rfl

theorem flag_slot {start key : String}
    (hstart : start.toList = ',' :: (quotedText key ++ ":true".toList)) (out : List Char)
    (value : Bool) :
    (if value then out ++ start.toList else out) =
      out ++ slotText (key, @flag nearest value) := by
  cases value with
  | false => exact (List.append_nil out).symm
  | true =>
    rw [if_pos rfl, hstart]
    rfl

theorem optional_slot {start key : String} (hstart : Starts start key) (out : List Char)
    (value : Option String) :
    (match value with
      | some output => writeProperty out start output
      | none => out) = out ++ slotText (key, value.map (@Written.string nearest)) := by
  cases value with
  | none => exact (List.append_nil out).symm
  | some output => exact writeProperty_slot hstart out output

theorem array_slot {α : Type} {write : List Char → α → List Char} {written : α → Written nearest}
    (hwrite : ∀ out item, write out item = out ++ (written item).text) {opening start key : String}
    (hopening : opening.toList = start.toList ++ ['[']) (hstart : Starts start key)
    (out : List Char) (items : List α) :
    writeEach write (out ++ opening.toList) items ++ [']'] =
      out ++ slotText (key, some (.array (items.map written))) := by
  rw [hopening, ← List.append_assoc, writeEach_array hwrite]
  exact append_slot hstart out _

theorem arguments_slot (out : List Char) (op : OpMeta) :
    (if (op.typeArguments.getD []).isEmpty then out else
      writeEach writeString (out ++ ",\"type_arguments\":[".toList) (op.typeArguments.getD []) ++
        [']']) = out ++ slotText ("type_arguments", @writtenArguments nearest op) := by
  unfold writtenArguments
  by_cases hempty : (op.typeArguments.getD []).isEmpty = true
  · rw [if_pos hempty, if_pos hempty]
    exact (List.append_nil out).symm
  · rw [if_neg hempty, if_neg hempty]
    exact @array_slot nearest _ _ Written.string writeString_append ",\"type_arguments\":["
      ",\"type_arguments\":" "type_arguments" rfl rfl out (op.typeArguments.getD [])

theorem writeOperation_append (out : List Char) (op : OpMeta) :
    writeOperation out op = out ++ (@operationWritten nearest op).text := by
  unfold writeOperation operationWritten operationSlots
  rw [text_object]
  dsimp only
  rw [@writeProperty_first nearest,
    @writeProperty_slot nearest ",\"module_path\":" "module_path" rfl,
    @writeProperty_slot nearest ",\"fn_name\":" "fn_name" rfl,
    @arguments_slot nearest,
    @bool_slot nearest ",\"is_setup\":" "is_setup" rfl,
    @bool_slot nearest ",\"is_async\":" "is_async" rfl,
    @bool_slot nearest ",\"is_method\":" "is_method" rfl,
    @bool_slot nearest ",\"is_public\":" "is_public" rfl,
    @writeProperty_slot nearest ",\"return_type\":" "return_type" rfl,
    @flag_slot nearest ",\"consumes_receiver\":true" "consumes_receiver" rfl,
    @flag_slot nearest ",\"explicit_component\":true" "explicit_component" rfl,
    @optional_slot nearest ",\"replay_output\":" "replay_output" rfl,
    @writeProperty_slot nearest ",\"fills\":" "fills" rfl,
    @writeProperty_slot nearest ",\"component\":" "component" rfl,
    @writeFields_slot nearest ",\"params\":" "params" rfl]
  simp only [List.flatMap_cons, List.flatMap_nil, List.append_assoc, List.cons_append,
    List.append_nil]

theorem tuple_append (out : List Char) (tuple : Option (List String)) :
    (match tuple with
      | some tuple => writeEach writeString (out ++ ['[']) tuple ++ [']']
      | none => out ++ ['n', 'u', 'l', 'l']) = out ++ (@tupleWritten nearest tuple).text := by
  cases tuple with
  | none => rfl
  | some tuple => exact @writeEach_array nearest _ _ Written.string writeString_append out tuple

theorem writeVariant_append (out : List Char) (variant : VariantMeta) :
    writeVariant out variant = out ++ (@variantWritten nearest variant).text := by
  unfold writeVariant variantWritten variantSlots
  rw [text_object]
  dsimp only
  rw [@writeProperty_first nearest,
    @writeFields_slot nearest ",\"fields\":" "fields" rfl, @tuple_append nearest,
    @append_slot nearest ",\"tuple\":" "tuple" rfl]
  simp only [List.flatMap_cons, List.flatMap_nil, List.append_assoc, List.cons_append,
    List.append_nil]

/-- A property setup is announced with the native name of its type. -/
theorem setup_slots (out : List Char) (value : Option String) :
    (match value with
      | some nativeName =>
          writeProperty (out ++ ",\"property_setup\":true".toList) ",\"native_name\":" nativeName
      | none => out) =
      out ++ slotText ("property_setup", @flag nearest value.isSome) ++
        slotText ("native_name", value.map (@Written.string nearest)) := by
  cases value with
  | none =>
    rw [List.append_assoc]
    exact (List.append_nil out).symm
  | some nativeName =>
    have hset := @flag_slot nearest ",\"property_setup\":true" "property_setup" rfl out true
    rw [if_pos rfl] at hset
    dsimp only
    rw [hset, @writeProperty_slot nearest ",\"native_name\":" "native_name" rfl]
    rfl

theorem writeType_append (out : List Char) (ty : TypeMeta) :
    writeType out ty = out ++ (@typeWritten nearest ty).text := by
  have hclose : "]\x7d".toList = [']'] ++ ['\x7d'] := rfl
  unfold writeType typeWritten typeSlots
  rw [text_object, hclose]
  dsimp only
  rw [@writeProperty_first nearest,
    @writeProperty_slot nearest ",\"module_path\":" "module_path" rfl,
    @writeProperty_slot nearest ",\"kind\":" "kind" rfl,
    @writeProperty_slot nearest ",\"component\":" "component" rfl,
    @setup_slots nearest,
    @writeFields_slot nearest ",\"fields\":" "fields" rfl,
    ← List.append_assoc,
    @array_slot nearest _ _ variantWritten writeVariant_append ",\"variants\":["
      ",\"variants\":" "variants" rfl rfl]
  simp only [List.flatMap_cons, List.flatMap_nil, List.append_assoc, List.cons_append,
    List.append_nil]

/-- The discovery document spells its inventory. -/
theorem json_text (discovery : Discovery) :
    discovery.json.toList = (@discoveryWritten nearest discovery).text := by
  have hopening : "\x7b\"operations\":[".toList =
      '\x7b' :: (quotedText "operations" ++ [':']) ++ ['['] := rfl
  have hmiddle : "],\"types\":[".toList = [']'] ++ ",\"types\":[".toList := rfl
  have hclose : "]\x7d".toList = [']'] ++ ['\x7d'] := rfl
  unfold Discovery.json discoveryWritten discoverySlots
  rw [text_object, String.toList_ofList, hopening, hmiddle, hclose, ← List.append_assoc,
    ← List.append_assoc, @writeEach_array nearest _ _ operationWritten writeOperation_append,
    @array_slot nearest _ _ typeWritten writeType_append ",\"types\":[" ",\"types\":" "types"
      rfl rfl]
  unfold Written.memberText
  simp only [List.flatMap_cons, List.flatMap_nil, List.append_assoc, List.cons_append,
    List.append_nil, List.nil_append]

end Documents

end SpecGate.RegistryDocuments

import SpecGate.Checked
import SpecGate.TypeExpressions

/-!
The check for dynamic types. A normalized schema must not use the runtime's universal value
type, whose name is `value`. The check looks for that word among the words of every type text
but those of the setup outputs. It takes a component, a constructor, a field or a declared type
of that name for the dynamic type, and misses a dynamic type that only a setup returns.
-/
namespace SpecGate.DynamicTypes

open Checked TypeExpressions

/-! ### Schemas -/

section Schemas

-- Types are texts in the source, and all that is used of them is their text.
variable (T : Type)

structure Input where
  name : String
  ty : T

structure ErrorDeclaration where
  name : String
  ty : Option T

structure Setup where
  inputs : List (Input T)
  output : T

structure Operation where
  name : String
  inputs : List (Input T)
  output : Option T
  errors : List (ErrorDeclaration T)
  setups : List (Setup T)

structure Variant where
  name : String
  fields : List (Input T)
  tuple : Option (List T)

structure TypeDef where
  name : String
  fields : List (Input T)
  variants : List (Variant T)

structure Dependency where
  component : String
  types : List (TypeDef T)

structure Schema where
  component : String
  dependencyTypes : List (Dependency T)
  operations : List (Operation T)
  types : List (TypeDef T)

end Schemas

/-! ### The check -/

def dynamicType : List Char := "value".toList

/-- The word is one of those between the characters that no field name has. -/
def Spells (classes : CharClasses) (text : List Char) : Prop :=
  dynamicType ∈ text.splitOnP fun character => !isFieldChar classes character

instance (classes : CharClasses) (text : List Char) : Decidable (Spells classes text) :=
  inferInstanceAs (Decidable (_ ∈ _))

section Check

variable (classes : CharClasses) {T : Type} (asStr : T → String)

def rejectValue (location : String) (type : T) : Except String Unit :=
  ensure (!decide (Spells classes (asStr type).toList))
    (s!"{location} type '{asStr type}' is the dynamic runtime value; " ++
      "CTSC registries require declared semantic types")

def rejectOperation (component : String) (operation : Operation T) : Except String Unit := do
  operation.inputs.forM fun input =>
    rejectValue classes asStr s!"operation '{component}::{operation.name}' input '{input.name}'"
      input.ty
  operation.output.toList.forM
    (rejectValue classes asStr s!"operation '{component}::{operation.name}' output")
  operation.errors.forM fun error =>
    error.ty.toList.forM
      (rejectValue classes asStr s!"operation '{component}::{operation.name}' error '{error.name}'")
  operation.setups.forM fun setup =>
    setup.inputs.forM fun input =>
      rejectValue classes asStr s!"setup for '{component}::{operation.name}' input '{input.name}'"
        input.ty

def rejectVariant (declared : TypeDef T) (variant : Variant T) : Except String Unit := do
  variant.fields.forM fun field =>
    rejectValue classes asStr
      s!"type '{declared.name}' variant '{variant.name}' field '{field.name}'" field.ty
  (variant.tuple.getD []).zipIdx.forM fun (element, position) =>
    rejectValue classes asStr
      s!"type '{declared.name}' variant '{variant.name}' element {position}" element

def rejectDeclared (declared : TypeDef T) : Except String Unit := do
  declared.fields.forM fun field =>
    rejectValue classes asStr s!"type '{declared.name}' field '{field.name}'" field.ty
  declared.variants.forM (rejectVariant classes asStr declared)

def rejectDynamic (schema : Schema T) : Except String Unit := do
  schema.operations.forM (rejectOperation classes asStr schema.component)
  (schema.types ++ schema.dependencyTypes.flatMap Dependency.types).forM
    (rejectDeclared classes asStr)

end Check

/-! ### What is checked -/

section Expressions

variable {T : Type}

def Setup.inputTypes (setup : Setup T) : List T := setup.inputs.map Input.ty

/-- The types of an operation but for the outputs of its setups. -/
def Operation.expressions (operation : Operation T) : List T :=
  operation.inputs.map Input.ty ++ operation.output.toList ++
    operation.errors.flatMap (fun error => error.ty.toList) ++
      operation.setups.flatMap Setup.inputTypes

def Variant.expressions (variant : Variant T) : List T :=
  variant.fields.map Input.ty ++ variant.tuple.getD []

def TypeDef.expressions (declared : TypeDef T) : List T :=
  declared.fields.map Input.ty ++ declared.variants.flatMap Variant.expressions

def typeNames (types : List (TypeDef T)) : List String := types.map TypeDef.name

/-- The types of some declarations, each with the names that their component declares. -/
def declaredExpressions (types : List (TypeDef T)) : List (List String × T) :=
  (types.flatMap TypeDef.expressions).map (Prod.mk (typeNames types))

/-- The types of the operations, of the declared types and of those of the dependencies. -/
def Schema.checked (schema : Schema T) : List (List String × T) :=
  (schema.operations.flatMap Operation.expressions).map (Prod.mk (typeNames schema.types)) ++
    declaredExpressions schema.types ++
      schema.dependencyTypes.flatMap fun owner => declaredExpressions owner.types

def Schema.setupOutputs (schema : Schema T) : List (List String × T) :=
  (schema.operations.flatMap fun operation => operation.setups.map Setup.output).map
    (Prod.mk (typeNames schema.types))

variable {classes : CharClasses} {asStr : T → String}

theorem rejectValue_eq_ok {location : String} {type : T} :
    rejectValue classes asStr location type = .ok () ↔ ¬ Spells classes (asStr type).toList := by
  simp [rejectValue]

/-- Two checks in a row. -/
theorem seq_eq_ok {first second : Except String Unit} :
    (first >>= fun _ => second) = .ok () ↔ first = .ok () ∧ second = .ok () :=
  bind_eq_ok.trans ⟨fun ⟨_, hfirst, hsecond⟩ => ⟨hfirst, hsecond⟩,
    fun ⟨hfirst, hsecond⟩ => ⟨(), hfirst, hsecond⟩⟩

theorem rejectOperation_eq_ok {component : String} {operation : Operation T} :
    rejectOperation classes asStr component operation = .ok () ↔
      ∀ type ∈ operation.expressions, ¬ Spells classes (asStr type).toList := by
  simp only [rejectOperation, seq_eq_ok, forM_eq_ok, rejectValue_eq_ok, Operation.expressions,
    Setup.inputTypes, List.forall_mem_append, List.forall_mem_map, List.forall_mem_flatMap,
    and_assoc]

theorem rejectVariant_eq_ok {declared : TypeDef T} {variant : Variant T} :
    rejectVariant classes asStr declared variant = .ok () ↔
      ∀ type ∈ variant.expressions, ¬ Spells classes (asStr type).toList := by
  simp only [rejectVariant, seq_eq_ok, forM_eq_ok, rejectValue_eq_ok, Variant.expressions,
    List.forall_mem_append, List.forall_mem_map]
  conv_rhs => rw [← List.zipIdx_map_fst 0 (variant.tuple.getD [])]
  rw [List.forall_mem_map]

theorem rejectDeclared_eq_ok {declared : TypeDef T} :
    rejectDeclared classes asStr declared = .ok () ↔
      ∀ type ∈ declared.expressions, ¬ Spells classes (asStr type).toList := by
  simp only [rejectDeclared, seq_eq_ok, forM_eq_ok, rejectValue_eq_ok, rejectVariant_eq_ok,
    TypeDef.expressions, List.forall_mem_append, List.forall_mem_map, List.forall_mem_flatMap]

/-- The check passes if no type but the outputs of setups spells the word. -/
theorem rejectDynamic_eq_ok {schema : Schema T} :
    rejectDynamic classes asStr schema = .ok () ↔
      ∀ entry ∈ schema.checked, ¬ Spells classes (asStr entry.2).toList := by
  simp only [rejectDynamic, seq_eq_ok, forM_eq_ok, rejectOperation_eq_ok, rejectDeclared_eq_ok,
    Schema.checked, declaredExpressions, List.forall_mem_append, List.forall_mem_map,
    List.forall_mem_flatMap, and_assoc]

end Expressions

/-! ### Words -/

section Words

variable {classes : CharClasses} {text rest gap : List Char}

theorem dynamicType_fieldChar {character : Char} (h : character ∈ dynamicType) :
    isFieldChar classes character = true := by
  have hascii : dynamicType.all fun c => decide (c.toNat < 128 ∧ c.isAlphanum = true) := by decide
  obtain ⟨hbasic, halphanumeric⟩ := of_decide_eq_true (List.all_eq_true.mp hascii character h)
  simp [isFieldChar, classes.alphanumeric_ascii character hbasic, halphanumeric]

/-- A text without other characters spells the word only if it is the word. -/
theorem spells_fieldChars (h : ∀ character ∈ text, isFieldChar classes character = true) :
    Spells classes text ↔ text = dynamicType := by
  unfold Spells
  rw [List.splitOnP_eq_singleton fun character hmem => by simp [h character hmem],
    List.mem_singleton, eq_comm]

theorem spells_dynamicType : Spells classes dynamicType :=
  (spells_fieldChars fun _ => dynamicType_fieldChar).mpr rfl

theorem not_spells_nil : ¬ Spells classes [] := by
  rw [spells_fieldChars (by simp)]
  decide

/-- A character between words parts the words before it from those after it. -/
theorem spells_append_cons {separator : Char} (h : isFieldChar classes separator = false) :
    Spells classes (text ++ separator :: rest) ↔ Spells classes text ∨ Spells classes rest := by
  unfold Spells
  rw [List.splitOnP_append_cons text rest (by simp [h]), List.mem_append]

theorem spells_cons {separator : Char} (h : isFieldChar classes separator = false) :
    Spells classes (separator :: rest) ↔ Spells classes rest := by
  rw [← List.nil_append (separator :: rest), spells_append_cons h, or_iff_right not_spells_nil]

theorem not_fieldChar_whitespace {character : Char} (h : classes.isWhitespace character = true) :
    isFieldChar classes character = false := by
  have hunderscore : character ≠ '_' := by
    rintro rfl
    rw [classes.whitespace_ascii '_' (by decide)] at h
    cases h
  simp [isFieldChar, classes.apart character h, hunderscore]

theorem spells_whitespace_append (h : ∀ character ∈ gap, classes.isWhitespace character = true) :
    Spells classes (gap ++ text) ↔ Spells classes text := by
  induction gap with
  | nil => rfl
  | cons character gap ih =>
    obtain ⟨hcharacter, hgap⟩ := List.forall_mem_cons.mp h
    rw [List.cons_append, spells_cons (not_fieldChar_whitespace hcharacter), ih hgap]

theorem spells_append_whitespace (h : ∀ character ∈ gap, classes.isWhitespace character = true) :
    Spells classes (text ++ gap) ↔ Spells classes text := by
  cases gap with
  | nil => rw [List.append_nil]
  | cons character gap =>
    obtain ⟨hcharacter, hgap⟩ := List.forall_mem_cons.mp h
    rw [spells_append_cons (not_fieldChar_whitespace hcharacter), ← List.append_nil gap,
      spells_whitespace_append hgap, or_iff_left not_spells_nil]

/-- The same between two words. -/
theorem spells_append_gap_cons {separator : Char} (hseparator : isFieldChar classes separator = false)
    (h : ∀ character ∈ gap, classes.isWhitespace character = true) :
    Spells classes (text ++ gap ++ separator :: rest) ↔
      Spells classes text ∨ Spells classes rest := by
  rw [spells_append_cons hseparator, spells_append_whitespace h]

end Words

/-! ### Type expressions -/

section Trees

variable (classes : CharClasses)

structure Gap where
  text : List Char
  whitespace : ∀ character ∈ text, classes.isWhitespace character = true

/-- The name of a type or of a constructor, which a component may qualify. -/
structure Name where
  text : List Char
  nonempty : text ≠ []
  chars : ∀ character ∈ text, isNameChar classes character = true

/-- The name of a record field with the space around it. -/
structure Label where
  before : Gap classes
  text : List Char
  nonempty : text ≠ []
  chars : ∀ character ∈ text, isFieldChar classes character = true
  after : Gap classes

/-- Type expressions with all their spaces. -/
inductive Expression where
  | unit
  | named (name : Name classes)
  | application (constructor : Name classes) (gap : Gap classes) (arguments : List Expression)
      (inner : Gap classes)
  | record (fields : List (Label classes × Expression)) (inner : Gap classes)
  | spaced (before : Gap classes) (expression : Expression) (after : Gap classes)

end Trees

namespace Expression

variable {classes : CharClasses}

mutual

def text : Expression classes → List Char
  | .unit => ['(', ')']
  | .named name => name.text
  | .application constructor gap arguments inner =>
      constructor.text ++ gap.text ++ '<' :: (textArguments arguments ++ inner.text ++ ['>'])
  | .record fields inner => '\x7b' :: (textFields fields ++ inner.text ++ ['\x7d'])
  | .spaced before expression after => before.text ++ text expression ++ after.text
termination_by structural expression => expression

def textArguments : List (Expression classes) → List Char
  | [] => []
  | argument :: rest =>
      match rest with
      | [] => text argument
      | _ :: _ => text argument ++ ',' :: textArguments rest
termination_by structural arguments => arguments

def textFields : List (Label classes × Expression classes) → List Char
  | [] => []
  | (label, type) :: rest =>
      let field := label.before.text ++ label.text ++ label.after.text ++ ':' :: text type
      match rest with
      | [] => field
      | _ :: _ => field ++ ',' :: textFields rest
termination_by structural fields => fields

end

section Roles

variable (declared : List String)

mutual

/-- The dynamic type itself is at some depth: the bare word, where the component declares no
type of that name. -/
def Dynamic : Expression classes → Prop
  | .unit => False
  | .named name => name.text = dynamicType ∧ String.ofList name.text ∉ declared
  | .application _ _ arguments _ => DynamicArgument arguments
  | .record fields _ => DynamicField fields
  | .spaced _ expression _ => Dynamic expression
termination_by structural expression => expression

def DynamicArgument : List (Expression classes) → Prop
  | [] => False
  | argument :: rest => Dynamic argument ∨ DynamicArgument rest
termination_by structural arguments => arguments

def DynamicField : List (Label classes × Expression classes) → Prop
  | [] => False
  | (_, type) :: rest => Dynamic type ∨ DynamicField rest
termination_by structural fields => fields

end

mutual

/-- The word is there at some depth in another role: in a qualified name, as the name of a
declared type, of a constructor or of a field. -/
def InOtherRole : Expression classes → Prop
  | .unit => False
  | .named name =>
      Spells classes name.text ∧
        (name.text = dynamicType → String.ofList name.text ∈ declared)
  | .application constructor _ arguments _ =>
      Spells classes constructor.text ∨ OtherArgument arguments
  | .record fields _ => OtherField fields
  | .spaced _ expression _ => InOtherRole expression
termination_by structural expression => expression

def OtherArgument : List (Expression classes) → Prop
  | [] => False
  | argument :: rest => InOtherRole argument ∨ OtherArgument rest
termination_by structural arguments => arguments

def OtherField : List (Label classes × Expression classes) → Prop
  | [] => False
  | (label, type) :: rest => (label.text = dynamicType ∨ InOtherRole type) ∨ OtherField rest
termination_by structural fields => fields

end

variable {declared : List String}

theorem delimiter {character : Char}
    (h : character ∈ ['(', ')', '<', '>', ',', ':', '\x7b', '\x7d']) :
    isFieldChar classes character = false := by
  have hascii : ['(', ')', '<', '>', ',', ':', '\x7b', '\x7d'].all fun c =>
      decide (c.toNat < 128 ∧ c.isAlphanum = false ∧ c ≠ '_') := by decide
  obtain ⟨hbasic, hother⟩ := of_decide_eq_true (List.all_eq_true.mp hascii character h)
  simp [isFieldChar, classes.alphanumeric_ascii character hbasic, hother]

/-- A list of texts ends at a bracket, with space before it. -/
theorem spells_closed {text : List Char} {inner : Gap classes} {bracket : Char}
    (h : isFieldChar classes bracket = false) :
    Spells classes (text ++ inner.text ++ [bracket]) ↔ Spells classes text := by
  rw [spells_append_gap_cons h inner.whitespace, or_iff_left not_spells_nil]

theorem spells_label {label : Label classes} {rest : List Char} :
    Spells classes (label.before.text ++ label.text ++ label.after.text ++ ':' :: rest) ↔
      label.text = dynamicType ∨ Spells classes rest := by
  rw [spells_append_gap_cons (delimiter (by simp)) label.after.whitespace,
    spells_whitespace_append label.before.whitespace, spells_fieldChars label.chars]

theorem spells_name {name : Name classes} :
    Spells classes name.text ↔
      (name.text = dynamicType ∧ String.ofList name.text ∉ declared) ∨
        Spells classes name.text ∧
          (name.text = dynamicType → String.ofList name.text ∈ declared) := by
  by_cases hname : name.text = dynamicType
  · simp only [hname, spells_dynamicType, true_and, forall_const, true_iff]
    exact (em _).symm
  · simp [hname]

mutual

/-- The text of an expression spells the word exactly if the word has one of its roles there. -/
theorem spells_text : ∀ expression : Expression classes,
    Spells classes (text expression) ↔ Dynamic declared expression ∨ InOtherRole declared expression
  | .unit => by
      simp only [text, Dynamic, InOtherRole, or_self, iff_false]
      rw [spells_cons (delimiter (by simp)), spells_cons (delimiter (by simp))]
      exact not_spells_nil
  | .named name => spells_name
  | .application constructor gap arguments inner => by
      rw [text, spells_append_gap_cons (delimiter (by simp)) gap.whitespace,
        spells_closed (delimiter (by simp)), spells_arguments arguments, Dynamic, InOtherRole]
      exact or_left_comm
  | .record fields inner => by
      rw [text, spells_cons (delimiter (by simp)), spells_closed (delimiter (by simp)),
        spells_fields fields, Dynamic, InOtherRole]
  | .spaced before expression after => by
      rw [text, spells_append_whitespace after.whitespace,
        spells_whitespace_append before.whitespace, spells_text expression, Dynamic, InOtherRole]

theorem spells_arguments : ∀ arguments : List (Expression classes),
    Spells classes (textArguments arguments) ↔
      DynamicArgument declared arguments ∨ OtherArgument declared arguments
  | [] => by simp [textArguments, DynamicArgument, OtherArgument, not_spells_nil]
  | [argument] => by
      simp only [textArguments, DynamicArgument, OtherArgument, or_false]
      exact spells_text argument
  | argument :: other :: rest => by
      rw [textArguments, spells_append_cons (delimiter (by simp)), spells_text argument,
        spells_arguments (other :: rest), DynamicArgument, OtherArgument]
      exact or_or_or_comm

theorem spells_fields : ∀ fields : List (Label classes × Expression classes),
    Spells classes (textFields fields) ↔
      DynamicField declared fields ∨ OtherField declared fields
  | [] => by simp [textFields, DynamicField, OtherField, not_spells_nil]
  | [(label, type)] => by
      simp only [textFields, DynamicField, OtherField, or_false]
      rw [spells_label, spells_text type]
      exact or_left_comm
  | (label, type) :: other :: rest => by
      change Spells classes (label.before.text ++ label.text ++ label.after.text ++
        ':' :: text type ++ ',' :: textFields (other :: rest)) ↔ _
      rw [DynamicField, OtherField, spells_append_cons (delimiter (by simp)), spells_label,
        spells_text type, spells_fields (other :: rest)]
      exact (or_congr_left or_left_comm).trans or_or_or_comm

end

end Roles

/-- The text as the source has it. -/
def asStr (expression : Expression classes) : String := String.ofList (text expression)

end Expression

/-! ### The schema -/

section Result

open Expression

variable {classes : CharClasses}

/-- The dynamic type is somewhere in the schema. -/
def HasDynamic (schema : Schema (Expression classes)) : Prop :=
  ∃ entry ∈ schema.checked ++ schema.setupOutputs, Dynamic entry.1 entry.2

/-- No type of the schema is dynamic, and one that is checked has the word in another role. -/
def FalseAlarm (schema : Schema (Expression classes)) : Prop :=
  (∀ entry ∈ schema.checked ++ schema.setupOutputs, ¬ Dynamic entry.1 entry.2) ∧
    ∃ entry ∈ schema.checked, InOtherRole entry.1 entry.2

/-- The output of a setup is dynamic, and no type that is checked has the word in any role. -/
def Hidden (schema : Schema (Expression classes)) : Prop :=
  (∃ entry ∈ schema.setupOutputs, Dynamic entry.1 entry.2) ∧
    ∀ entry ∈ schema.checked, ¬ Dynamic entry.1 entry.2 ∧ ¬ InOtherRole entry.1 entry.2

theorem rejected_iff {schema : Schema (Expression classes)} :
    (∃ message, rejectDynamic classes asStr schema = .error message) ↔
      ∃ entry ∈ schema.checked, Dynamic entry.1 entry.2 ∨ InOtherRole entry.1 entry.2 := by
  have hok : rejectDynamic classes asStr schema = .ok () ↔
      ∀ entry ∈ schema.checked, ¬ (Dynamic entry.1 entry.2 ∨ InOtherRole entry.1 entry.2) := by
    rw [rejectDynamic_eq_ok]
    refine forall₂_congr fun entry _ => not_congr ?_
    rw [asStr, String.toList_ofList, spells_text]
  cases hresult : rejectDynamic classes asStr schema with
  | ok =>
    rw [hresult, eq_self, true_iff] at hok
    refine iff_of_false (fun ⟨_, h⟩ => by cases h) ?_
    rintro ⟨entry, hentry, h⟩
    exact hok entry hentry h
  | error message =>
    rw [hresult] at hok
    refine iff_of_true ⟨message, rfl⟩ ?_
    by_contra hnone
    have hall := hok.mpr fun entry hentry h => hnone ⟨entry, hentry, h⟩
    cases hall

/-- The check rejects exactly the schemas with a dynamic type, unless a schema without one has
the word in another role, or only the output of a setup has it at all. -/
theorem rejects_exactly_iff (schema : Schema (Expression classes)) :
    ((∃ message, rejectDynamic classes asStr schema = .error message) ↔ HasDynamic schema) ↔
      ¬ FalseAlarm schema ∧ ¬ Hidden schema := by
  have hcases (dynamic other output : Prop) : (dynamic ∨ other ↔ dynamic ∨ output) ↔
      ¬ (¬ (dynamic ∨ output) ∧ other) ∧ ¬ (output ∧ ¬ dynamic ∧ ¬ other) := by tauto
  have hboth : HasDynamic schema ↔ (∃ entry ∈ schema.checked, Dynamic entry.1 entry.2) ∨
      ∃ entry ∈ schema.setupOutputs, Dynamic entry.1 entry.2 := by
    simp only [HasDynamic, List.mem_append, or_and_right, exists_or]
  have hfalse : FalseAlarm schema ↔ ¬ HasDynamic schema ∧
      ∃ entry ∈ schema.checked, InOtherRole entry.1 entry.2 := by
    simp only [FalseAlarm, HasDynamic, not_exists, not_and]
  have hhidden : Hidden schema ↔ (∃ entry ∈ schema.setupOutputs, Dynamic entry.1 entry.2) ∧
      (¬ ∃ entry ∈ schema.checked, Dynamic entry.1 entry.2) ∧
        ¬ ∃ entry ∈ schema.checked, InOtherRole entry.1 entry.2 := by
    simp only [Hidden, not_exists, not_and, ← forall_and]
  simp only [rejected_iff, hfalse, hhidden, hboth, and_or_left, exists_or]
  exact hcases _ _ _

end Result

/-- An operation with one input, which a setup without inputs fills if it has an output. -/
def oneOperation (input : List (Expression .ascii)) (output : List (Expression .ascii)) :
    Schema (Expression .ascii) where
  component := "fixture"
  dependencyTypes := []
  operations := [
    { name := "run"
      inputs := input.map (Input.mk "item")
      output := none
      errors := []
      setups := output.map (Setup.mk []) }]
  types := []

/-- A type of a component whose identity has the word as its last segment. -/
def qualifiedItem : Expression .ascii :=
  .named ⟨"fixture.value::Item".toList, by decide, List.all_eq_true.mp (by decide)⟩

def dynamicValue : Expression .ascii := .named ⟨dynamicType, by decide, List.all_eq_true.mp (by decide)⟩

/-- A qualified name is taken for the dynamic type, and the dynamic type that a setup returns is
not seen. -/
theorem words_taken_for_types :
    ((∃ message, rejectDynamic .ascii Expression.asStr (oneOperation [qualifiedItem] []) =
        .error message) ∧
      ¬ HasDynamic (oneOperation [qualifiedItem] [])) ∧
    rejectDynamic .ascii Expression.asStr (oneOperation [] [dynamicValue]) = .ok () ∧
      HasDynamic (oneOperation [] [dynamicValue]) := by
  have hname : qualifiedItem.text ≠ dynamicType := by decide
  refine ⟨⟨⟨_, rfl⟩, ?_⟩, rfl, ?_⟩
  · rintro ⟨entry, hentry, hdynamic⟩
    rw [List.mem_singleton.mp hentry] at hdynamic
    exact hname hdynamic.1
  · exact ⟨([], dynamicValue), List.mem_singleton_self _, rfl, List.not_mem_nil⟩

end SpecGate.DynamicTypes

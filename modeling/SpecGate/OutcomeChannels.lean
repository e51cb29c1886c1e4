import SpecGate.Checked
import SpecGate.NormalizedSchemas
import SpecGate.SynTypes

/-!
The outcome channels of a Rust operation. The macro chooses from the return type how a
returned value completes the operation; discovery chooses from the text of the same type which
outcomes to publish. The two agree exactly on the types below: discovery drops parentheses the
macro sees, and a payload whose type is published as unit has no channel of its own.
-/
namespace SpecGate.OutcomeChannels

open TypeExpressions NormalizedSchemas RustTypes SynTypes Checked

variable {classes : CharClasses}

/-! ### The macro -/

inductive ReturnKind where
  | unit | option | optionUnit | result | resultUnit | resultErrUnit | resultUnits | value
  deriving DecidableEq

inductive ReturnType (classes : CharClasses) where
  | default
  | type (ty : SynType classes)

/-- The return type as the expansion writes it out. -/
def ReturnType.authored : ReturnType classes → SynType classes
  | .default => .tuple [] false
  | .type ty => ty

def isUnitTuple : SynType classes → Bool
  | .tuple [] _ => true
  | _ => false

def isUnitArg (args : List (SynType classes)) (index : Nat) : Bool :=
  (args[index]?).any isUnitTuple

def okArg : Nat := 0
def errorArg : Nat := 1
def errorName : String := "error"

def pathKind (name : String) (args : List (SynType classes)) : ReturnKind :=
  if name = "Option" then if isUnitArg args okArg then .optionUnit else .option
  else if name = "Result" then
    if isUnitArg args okArg && isUnitArg args errorArg then .resultUnits
    else if isUnitArg args okArg then .resultUnit
    else if isUnitArg args errorArg then .resultErrUnit
    else .result
  else .value

def returnKind : ReturnType classes → ReturnKind
  | .default => .unit
  | .type (.tuple [] _) => .unit
  | .type (.path _ _ name) => pathKind name.text ([] : List (SynType classes))
  | .type (.generic _ _ name args _) => pathKind name.text args
  | .type _ => .value

/-- The variant of a returned value that the expansion can match on. -/
inductive Shape where
  | plain | some | none | ok | err

/-- What the body can return. -/
def shapes : SynType classes → List Shape
  | .path _ _ name | .generic _ _ name _ _ =>
      if name.text = "Option" then [.some, .none]
      else if name.text = "Result" then [.ok, .err]
      else [.plain]
  | .paren inner => shapes inner
  | _ => [.plain]

inductive Completion (α : Type) where
  | unit
  | result (payload : α)
  | empty
  | error (name : String) (payload : Option α)

/-- The part of the returned value that is projected. -/
inductive Projected where
  | whole
  | argument (index : Nat)

/-- The completion the expansion records; a pattern that does not fit does not compile. -/
def completion : ReturnKind → Shape → Option (Completion Projected)
  | .unit, _ => some .unit
  | .option, .some => some (.result (.argument okArg))
  | .option, .none => some .empty
  | .optionUnit, _ | .value, _ => some (.result .whole)
  | .result, .ok | .resultErrUnit, .ok => some (.result (.argument okArg))
  | .resultUnit, .ok | .resultUnits, .ok => some .unit
  | .result, .err | .resultUnit, .err =>
      some (.error errorName (some (.argument errorArg)))
  | .resultErrUnit, .err | .resultUnits, .err => some (.error errorName none)
  | _, _ => none

def typeArgs : SynType classes → List (SynType classes)
  | .generic _ _ _ args _ => args
  | _ => []

def Projected.type (ty : SynType classes) : Projected → Option (SynType classes)
  | whole => some ty
  | argument index => (typeArgs ty)[index]?

/-! ### Discovery -/

inductive TypeSyntax where
  | rust
  | normalized

structure DiscoveredOutcome where
  output : Option String
  empty : Bool
  errors : List ErrorDeclaration

section Discovery

variable (classes : CharClasses)

def mapped (typeSyntax : TypeSyntax) (ty : String) : Except String String :=
  match typeSyntax with
  | .normalized => .ok (RustTypes.normalize classes ty)
  | .rust => (mapType classes ty).map SpecType.refString

/-- The outcome of a return type other than unit, from what its text parses to. -/
def parsedOutcome (returnType : String) (typeSyntax : TypeSyntax) :
    Option RustType → Except String DiscoveredOutcome
  | some (.named name [item]) =>
      if name = "Option" then do
        let value := render item
        let output ← mapped classes typeSyntax value
        if RustTypes.isUnit classes value then return ⟨some s!"Option<{output}>", false, []⟩
        return ⟨some output, true, []⟩
      else do
        let output ← mapped classes typeSyntax returnType
        return ⟨some output, false, []⟩
  | some (.named name [item, failure]) =>
      if name = "Result" then do
        let value := render item
        let output ←
          if RustTypes.isUnit classes value then pure none
          else (mapped classes typeSyntax value).map some
        let error ← mapped classes typeSyntax (render failure)
        return ⟨output, false, [⟨"error", error⟩]⟩
      else do
        let output ← mapped classes typeSyntax returnType
        return ⟨some output, false, []⟩
  | _ => do
      let output ← mapped classes typeSyntax returnType
      return ⟨some output, false, []⟩

def operationOutcome (returnType : String) (typeSyntax : TypeSyntax) :
    Except String DiscoveredOutcome :=
  if RustTypes.isUnit classes returnType then .ok ⟨none, false, []⟩
  else parsedOutcome classes returnType typeSyntax (parse classes returnType)

/-- The channels a published outcome opens; a payload of type unit is none. -/
def published (outcome : DiscoveredOutcome) : List (Completion String) :=
  [match outcome.output with
    | none => .unit
    | some output => if TypeExpressions.isUnit classes output then .unit else .result output] ++
    (if outcome.empty then [.empty] else []) ++
    outcome.errors.map fun error =>
      .error error.name (if TypeExpressions.isUnit classes error.ty then none else some error.ty)

end Discovery

/-! ### Agreement -/

/-- The type reference discovery publishes for a type. -/
def semanticType (ty : SynType classes) : String := (mapRust (rustType ty)).refString

/-- A recorded payload has the published type. -/
def PublishedAs (ty : SynType classes) (projected : Projected) (text : String) : Prop :=
  ∃ type, projected.type ty = some type ∧ semanticType type = text

/-- A recorded completion is a published one. -/
inductive Records (ty : SynType classes) : Completion Projected → Completion String → Prop
  | unit : Records ty .unit .unit
  | result {projected : Projected} {text : String} :
      PublishedAs ty projected text → Records ty (.result projected) (.result text)
  | empty : Records ty .empty .empty
  | error {name : String} {projected : Projected} {text : String} :
      PublishedAs ty projected text →
        Records ty (.error name (some projected)) (.error name (some text))
  | bareError {name : String} : Records ty (.error name none) (.error name none)

/-- Every returned value completes as published, and every published outcome is recorded. -/
structure Matches (ty : SynType classes) (recorded : List (Option (Completion Projected)))
    (channels : List (Completion String)) : Prop where
  of_recorded : ∀ entry ∈ recorded, ∃ found, entry = some found ∧
    ∃ channel ∈ channels, Records ty found channel
  of_published : ∀ channel ∈ channels, ∃ found, some found ∈ recorded ∧ Records ty found channel

/-- The completions of an operation are the outcomes discovery publishes for it. -/
def ChannelsAgree (output : ReturnType classes) (text : String) : Prop :=
  ∃ outcome, operationOutcome classes text .rust = .ok outcome ∧
    Matches output.authored
      ((shapes output.authored).map (completion (returnKind output)))
      (published classes outcome)

/-! ### The types on which they agree -/

/-- The type is published as unit. -/
def denotesUnit : SynType classes → Bool
  | .path _ _ name | .generic _ _ name _ _ => name.text == "unit"
  | .reference _ _ inner | .paren inner => denotesUnit inner
  | .slice _ => false
  | .tuple elems _ => elems.isEmpty

/-- The type is unit, in parentheses or not. -/
def bareUnit : SynType classes → Bool
  | .paren inner => bareUnit inner
  | ty => isUnitTuple ty

/-- Discovery divides the type into channels. -/
def divided : SynType classes → Bool
  | .paren inner => divided inner
  | .generic _ _ name [item] _ => name.text == "Option" && !bareUnit item
  | .generic _ _ name [_, _] _ => name.text == "Result"
  | _ => false

/-- A payload that both sides see as unit or neither does. -/
def clearPayload (ty : SynType classes) : Bool := isUnitTuple ty || !denotesUnit ty

/-- Macro and discovery divide the type alike. -/
def clear : SynType classes → Bool
  | .path _ _ name => !(["Option", "Result", "unit"].contains name.text)
  | .generic _ _ name args _ =>
      if name.text = "Option" then
        isUnitArg args okArg || (args.length == 1 && args.all fun item => !denotesUnit item)
      else if name.text = "Result" then args.length == 2 && args.all clearPayload
      else name.text != "unit"
  | .tuple [] _ => true
  | ty => !denotesUnit ty && !divided ty

/-! ### Published types -/

theorem Ident.text_ne_unit (name : Ident classes) : name.text ≠ "()" := by
  intro heq
  have hmem : '(' ∈ name.text.toList := by
    rw [heq]
    decide
  exact Bool.false_ne_true ((name.plain '(' hmem).1.symm.trans rfl)

theorem rustType_eq_unit (ty : SynType classes) :
    rustType ty = .named "()" [] ↔ bareUnit ty = true := by
  cases ty with
  | path leading modules name =>
    refine ⟨fun heq => ?_, fun heq => (by cases heq)⟩
    exact absurd (RustType.named.inj heq).1 (Ident.text_ne_unit name)
  | generic leading modules name args trailing =>
    refine ⟨fun heq => ?_, fun heq => (by cases heq)⟩
    exact absurd (RustType.named.inj heq).1 (Ident.text_ne_unit name)
  | reference lifetime mutable inner => exact ⟨fun heq => (by cases heq), fun heq => (by cases heq)⟩
  | slice inner => exact ⟨fun heq => (by cases heq), fun heq => (by cases heq)⟩
  | paren inner => exact rustType_eq_unit inner
  | tuple elems trailing =>
    cases elems with
    | nil => exact ⟨fun _ => rfl, fun _ => rfl⟩
    | cons first rest => exact ⟨fun heq => (by cases heq), fun heq => (by cases heq)⟩
termination_by structural ty

theorem mem_dropWhile {p : Char → Bool} {c : Char} {text : List Char} (hc : c ∈ text)
    (hp : p c = false) : c ∈ text.dropWhile p := by
  induction text with
  | nil => cases hc
  | cons first rest ih =>
    rw [List.dropWhile_cons]
    split
    · rename_i hfirst
      rcases List.mem_cons.mp hc with rfl | hc
      · exact absurd hfirst (by rw [hp]; decide)
      · exact ih hc
    · exact hc

theorem mem_trim {c : Char} {text : List Char} (hc : c ∈ text)
    (hspace : classes.isWhitespace c = false) : c ∈ trim classes text := by
  have hfront := List.mem_reverse.mpr (mem_dropWhile hc hspace)
  exact List.mem_reverse.mpr (mem_dropWhile hfront hspace)

theorem dropWhile_plain {text : List Char} (h : ∀ c ∈ text, classes.isWhitespace c = false) :
    text.dropWhile classes.isWhitespace = text := by
  cases text with
  | nil => rfl
  | cons c rest =>
    rw [List.dropWhile_cons, if_neg (by rw [h c List.mem_cons_self]; decide)]

theorem isUnit_of_plain {text : String} (h : ∀ c ∈ text.toList, classes.isWhitespace c = false) :
    TypeExpressions.isUnit classes text = ["", "()", "unit"].contains text := by
  rw [TypeExpressions.isUnit, trim, dropWhile_plain h,
    dropWhile_plain fun c hc => h c (List.mem_reverse.mp hc), List.reverse_reverse,
    String.ofList_toList]

theorem isUnit_of_angle {text : String} (h : '>' ∈ text.toList) :
    TypeExpressions.isUnit classes text = false := by
  have hmem : '>' ∈ trim classes text.toList := mem_trim h (special_not_whitespace rfl)
  rw [TypeExpressions.isUnit, Bool.eq_false_iff]
  intro hunit
  have hnone : ∀ name ∈ ["", "()", "unit"], '>' ∉ name.toList := by decide
  refine hnone _ (List.contains_iff_mem.mp hunit) ?_
  rw [String.toList_ofList]
  exact hmem

theorem Ident.isUnit (name : Ident classes) :
    TypeExpressions.isUnit classes name.text = (name.text == "unit") := by
  rw [isUnit_of_plain fun c hc => (name.plain c hc).2.1]
  have hempty : name.text ≠ "" := fun heq => name.nonempty (heq ▸ rfl)
  have hparens := Ident.text_ne_unit name
  by_cases hunit : name.text = "unit"
  · rw [hunit]
    rfl
  · simp [hempty, hparens, hunit]

theorem plain_of_ascii {text : List Char}
    (h : ∀ c ∈ text, c.toNat < 128 ∧ ¬ (c.toNat = 32 ∨ (9 ≤ c.toNat ∧ c.toNat ≤ 13))) :
    ∀ c ∈ text, classes.isWhitespace c = false := by
  intro c hc
  rw [classes.whitespace_ascii c (h c hc).1]
  exact decide_eq_false (h c hc).2

/-- A keyword of the semantic types other than unit. -/
theorem isUnit_keyword {text : String} (h : text = "string" ∨ text = "value") :
    TypeExpressions.isUnit classes text = false := by
  rcases h with rfl | rfl
  all_goals
    rw [isUnit_of_plain (plain_of_ascii (forall_of_all (by decide)))]
    rfl

theorem angle_mem {front back : String} : '>' ∈ (front ++ back ++ ">").toList := by
  rw [String.toList_append]
  exact List.mem_append_right _ (by decide)

theorem isUnit_mapNamed (name : Ident classes) (args : List SpecType) :
    TypeExpressions.isUnit classes (mapNamed name.text args).refString = (name.text == "unit") := by
  have hname := Ident.isUnit name
  have hother : ∀ {other : String}, other ≠ "unit" → name.text = other →
      (name.text == "unit") = false := fun hne heq => heq ▸ beq_false_of_ne hne
  unfold mapNamed
  by_cases htext : textNames.contains name.text = true
  · have hne : ∀ text ∈ textNames, text ≠ "unit" := by decide
    rw [if_pos htext, SpecType.refString, isUnit_keyword (.inl rfl),
      beq_false_of_ne (hne _ (List.contains_iff_mem.mp htext))]
  · rw [if_neg htext]
    rcases args with _ | ⟨first, _ | ⟨second, _ | ⟨third, rest⟩⟩⟩
    · dsimp only
      rw [if_neg (Ident.text_ne_unit name)]
      split
      · rename_i hvalue
        have hne : ∀ text, runtimeValue text = true → text ≠ "unit" := by
          rintro text h rfl
          revert h
          decide
        rw [SpecType.refString, isUnit_keyword (.inr rfl), beq_false_of_ne (hne _ hvalue)]
      · exact hname
    · dsimp only
      split
      · rename_i hoption
        rw [SpecType.refString, isUnit_of_angle angle_mem, hother (by decide) hoption]
      · split
        · rename_i hvec
          rw [SpecType.refString, isUnit_of_angle angle_mem, hother (by decide) hvec]
        · split
          · rename_i hset
            rw [SpecType.refString, isUnit_of_angle angle_mem]
            rcases hset with hset | hset
            all_goals rw [hother (by decide) hset]
          · exact hname
    · dsimp only
      split
      · rename_i hresult
        rw [SpecType.refString, isUnit_of_angle angle_mem, hother (by decide) hresult]
      · split
        · rename_i hmap
          rw [SpecType.refString, isUnit_of_angle angle_mem]
          rcases hmap with hmap | hmap
          all_goals rw [hother (by decide) hmap]
        · exact hname
    · exact hname

theorem isUnit_semanticType (ty : SynType classes) :
    TypeExpressions.isUnit classes (semanticType ty) = denotesUnit ty := by
  cases ty with
  | path leading modules name => exact isUnit_mapNamed name []
  | generic leading modules name args trailing => exact isUnit_mapNamed name _
  | reference lifetime mutable inner => exact isUnit_semanticType inner
  | slice inner => exact isUnit_of_angle angle_mem
  | paren inner => exact isUnit_semanticType inner
  | tuple elems trailing =>
    cases elems with
    | nil =>
      have hunit : semanticType (.tuple ([] : List (SynType classes)) trailing) = "unit" := rfl
      rw [hunit, isUnit_of_plain (plain_of_ascii (forall_of_all (by decide)))]
      rfl
    | cons first rest => exact isUnit_of_angle angle_mem
termination_by structural ty

/-! ### What discovery publishes -/

/-- The channel of a payload. -/
def channel (ty : SynType classes) : Completion String :=
  if denotesUnit ty then .unit else .result (semanticType ty)

/-- The channels of a type, as far as the type can be read. -/
def channels : SynType classes → List (Completion String)
  | .paren inner => channels inner
  | .generic leading modules name [item] trailing =>
      if name.text = "Option" then
        if bareUnit item then [.result "Option<unit>"] else [channel item, .empty]
      else [channel (.generic leading modules name [item] trailing)]
  | .generic leading modules name [item, failure] trailing =>
      if name.text = "Result" then
        [channel item, .error errorName (if denotesUnit failure then none
          else some (semanticType failure))]
      else [channel (.generic leading modules name [item, failure] trailing)]
  | ty => [channel ty]

theorem mapped_render {ty : SynType classes} (h : readable ty = true) :
    mapped classes .rust (render (rustType ty)) = .ok (semanticType ty) := by
  rw [mapped, mapType, parse_render h]
  rfl

theorem mapped_text {style : PathStyle} {ty : SynType classes} {text : String}
    (htext : Spells classes text.toList (tokens style ty)) (h : readable ty = true) :
    mapped classes .rust text = .ok (semanticType ty) := by
  rw [mapped, mapType, parse_spelled htext, if_pos h]
  rfl

/-- The outcome of a type that discovery does not divide. -/
theorem published_whole (ty : SynType classes) :
    published classes ⟨some (semanticType ty), false, []⟩ = [channel ty] := by
  unfold published channel
  dsimp only
  rw [isUnit_semanticType]
  rfl

theorem published_option {item : SynType classes} :
    published classes ⟨some (semanticType item), true, []⟩ = [channel item, .empty] := by
  unfold published channel
  dsimp only
  rw [isUnit_semanticType]
  rfl

theorem published_result (item failure : SynType classes) {output : Option String}
    (houtput : output = some (semanticType item) ∨ output = none ∧ denotesUnit item = true) :
    published classes ⟨output, false, [⟨"error", semanticType failure⟩]⟩ =
      [channel item, .error errorName (if denotesUnit failure then none
        else some (semanticType failure))] := by
  unfold published channel
  rw [← isUnit_semanticType failure]
  rcases houtput with rfl | ⟨rfl, hunit⟩
  · dsimp only
    rw [isUnit_semanticType]
    rfl
  · rw [if_pos hunit]
    rfl

theorem denotesUnit_of_bareUnit {ty : SynType classes} (h : bareUnit ty = true) :
    denotesUnit ty = true := by
  cases ty with
  | path leading modules name => cases h
  | generic leading modules name args trailing => cases h
  | reference lifetime mutable inner => cases h
  | slice inner => cases h
  | paren inner => exact @denotesUnit_of_bareUnit inner h
  | tuple elems trailing =>
    cases elems with
    | nil => rfl
    | cons first rest => cases h
termination_by structural ty

theorem parsedOutcome_option {name : String} {item : SynType classes} {text : String}
    (hname : name = "Option") (hreadable : readable item = true) :
    ∃ outcome,
      parsedOutcome classes text .rust (some (.named name [rustType item])) = .ok outcome ∧
        published classes outcome =
          if bareUnit item then [.result "Option<unit>"] else [channel item, .empty] := by
  have hmapped := mapped_render hreadable
  have hunit := (isUnit_render hreadable).trans (rustType_eq_unit item)
  rw [parsedOutcome, if_pos hname]
  dsimp only
  rw [hmapped]
  by_cases hbare : bareUnit item = true
  · have hitem : semanticType item = "unit" := by
      rw [semanticType, (rustType_eq_unit item).mpr hbare]
      rfl
    refine ⟨⟨some "Option<unit>", false, []⟩, ?_, ?_⟩
    · rw [hitem]
      exact if_pos (hunit.mpr hbare)
    · have hangle : '>' ∈ "Option<unit>".toList := by decide
      rw [if_pos hbare, published]
      dsimp only
      rw [isUnit_of_angle hangle]
      rfl
  · refine ⟨⟨some (semanticType item), true, []⟩, if_neg fun h => hbare (hunit.mp h), ?_⟩
    rw [if_neg hbare]
    exact published_option

theorem parsedOutcome_result {name : String} {item failure : SynType classes} {text : String}
    (hname : name = "Result") (hitem : readable item = true) (hfailure : readable failure = true) :
    ∃ outcome,
      parsedOutcome classes text .rust (some (.named name [rustType item, rustType failure])) =
          .ok outcome ∧
        published classes outcome =
          [channel item, .error errorName (if denotesUnit failure then none
            else some (semanticType failure))] := by
  have hmapped := mapped_render hitem
  have herror := mapped_render hfailure
  have hunit := (isUnit_render hitem).trans (rustType_eq_unit item)
  rw [parsedOutcome, if_pos hname]
  dsimp only
  rw [hmapped, herror]
  by_cases hbare : bareUnit item = true
  · rw [if_pos (hunit.mpr hbare)]
    exact ⟨_, rfl, published_result item failure (.inr ⟨rfl, denotesUnit_of_bareUnit hbare⟩)⟩
  · rw [if_neg fun h => hbare (hunit.mp h)]
    exact ⟨_, rfl, published_result item failure (.inl rfl)⟩

theorem parsedOutcome_readable {ty : SynType classes} {text : String}
    (hwhole : mapped classes .rust text = .ok (semanticType ty)) (h : readable ty = true) :
    ∃ outcome, parsedOutcome classes text .rust (some (rustType ty)) = .ok outcome ∧
      published classes outcome = channels ty := by
  have hdone : (mapped classes .rust text >>= fun output =>
      Except.ok (DiscoveredOutcome.mk (some output) false [])) =
        .ok ⟨some (semanticType ty), false, []⟩ := by
    rw [hwhole]
    rfl
  cases ty with
  | path leading modules name =>
    exact ⟨_, hdone, published_whole (.path leading modules name)⟩
  | generic leading modules name args trailing =>
    rw [readable, Bool.and_eq_true_iff] at h
    have hreadable := h.2
    rcases args with _ | ⟨item, _ | ⟨failure, _ | ⟨third, rest⟩⟩⟩
    · exact ⟨_, hdone, published_whole (.generic leading modules name [] trailing)⟩
    · rw [readableAll, readableAll, Bool.and_true] at hreadable
      rw [channels]
      by_cases hoption : name.text = "Option"
      · rw [if_pos hoption]
        exact parsedOutcome_option hoption hreadable
      · rw [if_neg hoption]
        exact ⟨_, (if_neg hoption).trans hdone, published_whole _⟩
    · rw [readableAll, readableAll, readableAll, Bool.and_true, Bool.and_eq_true_iff] at hreadable
      rw [channels]
      by_cases hresult : name.text = "Result"
      · rw [if_pos hresult]
        exact parsedOutcome_result hresult hreadable.1 hreadable.2
      · rw [if_neg hresult]
        exact ⟨_, (if_neg hresult).trans hdone, published_whole _⟩
    · exact ⟨_, hdone, published_whole _⟩
  | reference lifetime mutable inner => exact ⟨_, hdone, published_whole _⟩
  | slice inner => exact ⟨_, hdone, published_whole _⟩
  | paren inner => exact @parsedOutcome_readable inner _ hwhole h
  | tuple elems trailing =>
    cases elems with
    | nil => exact ⟨_, hdone, published_whole _⟩
    | cons first rest => exact ⟨_, hdone, published_whole _⟩
termination_by structural ty

theorem operationOutcome_readable {style : PathStyle} {ty : SynType classes} {text : String}
    (htext : Spells classes text.toList (tokens style ty)) (h : readable ty = true) :
    ∃ outcome, operationOutcome classes text .rust = .ok outcome ∧
      published classes outcome = channels ty := by
  unfold operationOutcome
  by_cases hunit : RustTypes.isUnit classes text = true
  · obtain ⟨trailing, rfl⟩ := unit_of_isUnit htext hunit
    exact ⟨_, if_pos hunit, rfl⟩
  · rw [if_neg hunit, parse_spelled htext, if_pos h]
    exact parsedOutcome_readable (mapped_text htext h) h

/-- A type that cannot be read is not published. -/
theorem operationOutcome_unreadable {style : PathStyle} {ty : SynType classes} {text : String}
    (htext : Spells classes text.toList (tokens style ty)) (h : readable ty = false)
    (outcome : DiscoveredOutcome) : operationOutcome classes text .rust ≠ .ok outcome := by
  have hparse : parse classes text = none := by
    rw [parse_spelled htext, h]
    rfl
  unfold operationOutcome
  by_cases hunit : RustTypes.isUnit classes text = true
  · obtain ⟨trailing, rfl⟩ := unit_of_isUnit htext hunit
    cases h
  · rw [if_neg hunit, hparse, parsedOutcome, mapped, mapType, hparse]
    · exact fun heq => (by cases heq)
    · exact fun _ _ heq => (by cases heq)
    · exact fun _ _ _ heq => (by cases heq)

/-! ### Matching completions -/

theorem records_whole {ty : SynType classes} {published : Completion String} :
    Records ty (.result .whole) published ↔ published = .result (semanticType ty) := by
  constructor
  · intro h
    cases h with
    | result hpublished =>
      obtain ⟨type, htype, rfl⟩ := hpublished
      obtain rfl := Option.some.inj htype
      rfl
  · intro heq
    subst heq
    exact .result ⟨ty, rfl, rfl⟩

/-- The whole value is recorded whatever is returned. -/
theorem matches_whole {ty : SynType classes} {recorded : List (Option (Completion Projected))}
    (hwhole : ∀ entry ∈ recorded, entry = some (.result .whole)) (hne : recorded ≠ [])
    {published : List (Completion String)} (hpublished : published ≠ []) :
    Matches ty recorded published ↔ ∀ found ∈ published, found = .result (semanticType ty) := by
  constructor
  · intro h found hmem
    obtain ⟨other, hother, hrecords⟩ := h.of_published found hmem
    obtain rfl := Option.some.inj (hwhole _ hother)
    exact records_whole.mp hrecords
  · intro h
    obtain ⟨entry, hentry⟩ := List.exists_mem_of_ne_nil recorded hne
    obtain ⟨found, hfound⟩ := List.exists_mem_of_ne_nil published hpublished
    constructor
    · intro other hother
      exact ⟨_, hwhole other hother, found, hfound, records_whole.mpr (h found hfound)⟩
    · intro other hother
      exact ⟨_, hwhole entry hentry ▸ hentry, records_whole.mpr (h other hother)⟩

theorem channel_eq_result {ty : SynType classes} :
    channel ty = .result (semanticType ty) ↔ denotesUnit ty = false := by
  unfold channel
  by_cases h : denotesUnit ty = true
  · rw [if_pos h, h]
    exact ⟨fun heq => (by cases heq), fun heq => (by cases heq)⟩
  · rw [if_neg h]
    exact ⟨fun _ => Bool.eq_false_iff.mpr h, fun _ => rfl⟩

theorem channels_ne_nil (ty : SynType classes) : channels ty ≠ [] := by
  cases ty with
  | generic leading modules name args trailing =>
    rcases args with _ | ⟨item, _ | ⟨failure, _ | ⟨third, rest⟩⟩⟩
    · exact List.cons_ne_nil _ _
    · rw [channels]
      split
      · split <;> exact List.cons_ne_nil _ _
      · exact List.cons_ne_nil _ _
    · rw [channels]
      split <;> exact List.cons_ne_nil _ _
    · exact List.cons_ne_nil _ _
  | paren inner => exact channels_ne_nil inner
  | path leading modules name => exact List.cons_ne_nil _ _
  | reference lifetime mutable inner => exact List.cons_ne_nil _ _
  | slice inner => exact List.cons_ne_nil _ _
  | tuple elems trailing => exact List.cons_ne_nil _ _
termination_by structural ty

theorem forall_mem_singleton {α : Type} {p : α → Prop} {value : α} :
    (∀ found ∈ [value], p found) ↔ p value :=
  ⟨fun h => h value (List.mem_singleton_self value), fun h _ hmem => List.mem_singleton.mp hmem ▸ h⟩

/-- The one channel of a type that is not divided. -/
theorem channel_whole {ty : SynType classes} (h : divided ty = false) :
    (∀ found ∈ [channel ty], found = .result (semanticType ty)) ↔
      (!denotesUnit ty && !divided ty) = true := by
  rw [forall_mem_singleton, channel_eq_result, h, Bool.not_false, Bool.and_true,
    Bool.not_eq_true']

/-- Discovery publishes the whole type where it neither divides it nor publishes unit. -/
theorem channels_whole (ty : SynType classes) :
    (∀ found ∈ channels ty, found = .result (semanticType ty)) ↔
      (!denotesUnit ty && !divided ty) = true := by
  cases ty with
  | path leading modules name => exact channel_whole rfl
  | generic leading modules name args trailing =>
    rcases args with _ | ⟨item, _ | ⟨failure, _ | ⟨third, rest⟩⟩⟩
    · exact channel_whole rfl
    · rw [channels]
      by_cases hoption : name.text = "Option"
      · rw [if_pos hoption]
        by_cases hbare : bareUnit item = true
        · have hitem : mapRust (rustType item) = .scalar "unit" := by
            rw [(rustType_eq_unit item).mpr hbare]
            rfl
          have hwhole : semanticType (.generic leading modules name [item] trailing) =
              "Option<unit>" := by
            rw [semanticType, rustType, rustTypes, rustTypes, mapRust, mapRusts, mapRusts, hitem,
              hoption]
            rfl
          rw [if_pos hbare, forall_mem_singleton, hwhole, denotesUnit, divided, hbare, hoption]
          exact ⟨fun _ => rfl, fun _ => rfl⟩
        · rw [if_neg hbare, divided, Bool.eq_false_iff.mpr hbare, hoption]
          refine ⟨fun h => ?_, fun h => ?_⟩
          · cases h .empty (List.mem_cons_of_mem _ List.mem_cons_self)
          · exact absurd (Bool.and_eq_true_iff.mp h).2 (by decide)
      · rw [if_neg hoption]
        refine channel_whole ?_
        rw [divided, beq_false_of_ne hoption, Bool.false_and]
    · rw [channels]
      by_cases hresult : name.text = "Result"
      · rw [if_pos hresult, divided, hresult]
        refine ⟨fun h => ?_, fun h => ?_⟩
        · cases h _ (List.mem_cons_of_mem _ List.mem_cons_self)
        · exact absurd (Bool.and_eq_true_iff.mp h).2 (by decide)
      · rw [if_neg hresult]
        refine channel_whole ?_
        rw [divided, beq_false_of_ne hresult]
    · exact channel_whole rfl
  | reference lifetime mutable inner => exact channel_whole rfl
  | slice inner => exact channel_whole rfl
  | paren inner => exact channels_whole inner
  | tuple elems trailing => exact channel_whole rfl
termination_by structural ty

theorem shapes_ne_nil (ty : SynType classes) : shapes ty ≠ [] := by
  cases ty with
  | path leading modules name =>
    rw [shapes]
    split
    · exact List.cons_ne_nil _ _
    · split <;> exact List.cons_ne_nil _ _
  | generic leading modules name args trailing =>
    rw [shapes]
    split
    · exact List.cons_ne_nil _ _
    · split <;> exact List.cons_ne_nil _ _
  | paren inner => exact shapes_ne_nil inner
  | reference lifetime mutable inner => exact List.cons_ne_nil _ _
  | slice inner => exact List.cons_ne_nil _ _
  | tuple elems trailing => exact List.cons_ne_nil _ _
termination_by structural ty

/-- The completions and the outcomes of a type agree. -/
def Agree (ty : SynType classes) : Prop :=
  Matches ty ((shapes ty).map (completion (returnKind (.type ty)))) (channels ty)

theorem agree_of_whole {ty : SynType classes}
    (h : returnKind (.type ty) = .value ∨ returnKind (.type ty) = .optionUnit) :
    Agree ty ↔ (!denotesUnit ty && !divided ty) = true := by
  rw [← channels_whole]
  refine matches_whole ?_ ?_ (channels_ne_nil ty)
  · intro entry hentry
    obtain ⟨shape, _, rfl⟩ := List.mem_map.mp hentry
    rcases h with h | h
    all_goals
      rw [h]
      cases shape <;> rfl
  · exact fun hnil => shapes_ne_nil ty (List.map_eq_nil_iff.mp hnil)

/-- A completion with no channel of its kind is not published. -/
theorem not_agree {ty : SynType classes} (h : channels ty = [channel ty])
    {found : Completion Projected}
    (hfound : some found ∈ (shapes ty).map (completion (returnKind (.type ty))))
    (hkind : ¬ Records ty found (channel ty)) : ¬ Agree ty := by
  intro hagree
  obtain ⟨other, hother, published, hpublished, hrecords⟩ := hagree.of_recorded _ hfound
  obtain rfl := Option.some.inj hother
  rw [h, List.mem_singleton] at hpublished
  exact hkind (hpublished ▸ hrecords)

theorem not_records_channel {ty other : SynType classes} {found : Completion Projected}
    (h : found = .empty ∨ ∃ name payload, found = .error name payload) :
    ¬ Records ty found (channel other) := by
  intro hrecords
  unfold channel at hrecords
  rcases h with rfl | ⟨name, payload, rfl⟩
  all_goals
    split at hrecords
    · cases hrecords
    · cases hrecords

theorem records_argument {ty item : SynType classes} {index : Nat}
    (h : (typeArgs ty)[index]? = some item) :
    Records ty (.result (.argument index)) (channel item) ↔ denotesUnit item = false := by
  unfold channel
  by_cases hunit : denotesUnit item = true
  · rw [if_pos hunit, hunit]
    exact ⟨fun hrecords => (by cases hrecords), fun heq => (by cases heq)⟩
  · rw [if_neg hunit]
    exact ⟨fun _ => Bool.eq_false_iff.mpr hunit, fun _ => .result ⟨item, h, rfl⟩⟩

/-- Two completions of different kinds are published each in a channel of its own. -/
theorem matches_pair {ty : SynType classes} {first second : Completion Projected}
    {left right : Completion String} (hfirst : ¬ Records ty first right)
    (hsecond : ¬ Records ty second left) :
    Matches ty [some first, some second] [left, right] ↔
      Records ty first left ∧ Records ty second right := by
  constructor
  · intro h
    constructor
    · obtain ⟨found, hfound, published, hmem, hrecords⟩ :=
        h.of_recorded _ List.mem_cons_self
      obtain rfl := Option.some.inj hfound
      rcases List.mem_cons.mp hmem with rfl | hmem
      · exact hrecords
      · exact absurd (List.mem_singleton.mp hmem ▸ hrecords) hfirst
    · obtain ⟨found, hfound, published, hmem, hrecords⟩ :=
        h.of_recorded _ (List.mem_cons_of_mem _ List.mem_cons_self)
      obtain rfl := Option.some.inj hfound
      rcases List.mem_cons.mp hmem with rfl | hmem
      · exact absurd hrecords hsecond
      · exact List.mem_singleton.mp hmem ▸ hrecords
  · intro ⟨hleft, hright⟩
    constructor
    · intro entry hentry
      rcases List.mem_cons.mp hentry with rfl | hentry
      · exact ⟨first, rfl, left, List.mem_cons_self, hleft⟩
      · exact ⟨second, List.mem_singleton.mp hentry, right,
          List.mem_cons_of_mem _ List.mem_cons_self, hright⟩
    · intro published hmem
      rcases List.mem_cons.mp hmem with rfl | hmem
      · exact ⟨first, List.mem_cons_self, hleft⟩
      · rw [List.mem_singleton.mp hmem]
        exact ⟨second, List.mem_cons_of_mem _ List.mem_cons_self, hright⟩

theorem isUnitTuple_denotes {ty : SynType classes} (h : isUnitTuple ty = true) :
    denotesUnit ty = true := by
  cases ty with
  | tuple elems trailing =>
    cases elems with
    | nil => rfl
    | cons first rest => cases h
  | _ => cases h

theorem records_ok {ty item : SynType classes} {index : Nat}
    (h : (typeArgs ty)[index]? = some item) :
    Records ty (if isUnitTuple item then .unit else .result (.argument index)) (channel item) ↔
      clearPayload item = true := by
  unfold clearPayload
  by_cases hunit : isUnitTuple item = true
  · rw [if_pos hunit, hunit, channel, if_pos (isUnitTuple_denotes hunit)]
    exact ⟨fun _ => rfl, fun _ => .unit⟩
  · rw [if_neg hunit, records_argument h, Bool.eq_false_iff.mpr hunit, Bool.false_or,
      Bool.not_eq_true']

theorem records_error {ty item : SynType classes} {index : Nat}
    (h : (typeArgs ty)[index]? = some item) (name : String) :
    Records ty (.error name (if isUnitTuple item then none else some (.argument index)))
        (.error name (if denotesUnit item then none else some (semanticType item))) ↔
      clearPayload item = true := by
  unfold clearPayload
  by_cases hunit : isUnitTuple item = true
  · rw [if_pos hunit, hunit, if_pos (isUnitTuple_denotes hunit)]
    exact ⟨fun _ => rfl, fun _ => .bareError⟩
  · rw [if_neg hunit, Bool.eq_false_iff.mpr hunit, Bool.false_or, Bool.not_eq_true']
    by_cases hdenotes : denotesUnit item = true
    · rw [if_pos hdenotes, hdenotes]
      exact ⟨fun hrecords => (by cases hrecords), fun heq => (by cases heq)⟩
    · rw [if_neg hdenotes]
      exact ⟨fun _ => Bool.eq_false_iff.mpr hdenotes, fun _ => .error ⟨item, h, rfl⟩⟩

section Divided

variable {leading trailing : Bool} {modules : List (Ident classes)} {name : Ident classes}
  {args : List (SynType classes)}

theorem agree_option (hname : name.text = "Option") :
    Agree (.generic leading modules name args trailing) ↔
      clear (.generic leading modules name args trailing) = true := by
  have hclear : clear (.generic leading modules name args trailing) =
      (isUnitArg args okArg || (args.length == 1 && args.all fun item => !denotesUnit item)) :=
    if_pos hname
  have hkind : returnKind (.type (.generic leading modules name args trailing)) =
      if isUnitArg args okArg then .optionUnit else .option := if_pos hname
  have hshapes : shapes (.generic leading modules name args trailing) = [.some, .none] :=
    if_pos hname
  rw [hclear]
  by_cases hunit : isUnitArg args okArg = true
  · have hdivided : divided (.generic leading modules name args trailing) = false := by
      rcases args with _ | ⟨item, _ | ⟨failure, _ | ⟨third, rest⟩⟩⟩
      · rfl
      · have hbare : bareUnit item = true := by
          cases item with
          | tuple elems trailing => exact hunit
          | _ => cases hunit
        rw [divided, hbare, Bool.not_true, Bool.and_false]
      · rw [divided, hname]
        rfl
      · rfl
    rw [hunit, Bool.true_or, agree_of_whole (.inr (hkind.trans (if_pos hunit))), hdivided,
      denotesUnit, hname]
    exact ⟨fun _ => rfl, fun _ => rfl⟩
  · have hrecorded : (shapes (.generic leading modules name args trailing)).map
        (completion (returnKind (.type (.generic leading modules name args trailing)))) =
          [some (.result (.argument okArg)), some .empty] := by
      rw [hshapes, hkind, if_neg hunit]
      rfl
    rw [Bool.eq_false_iff.mpr hunit, Bool.false_or]
    have hmem : some Completion.empty ∈
        (shapes (.generic leading modules name args trailing)).map
          (completion (returnKind (.type (.generic leading modules name args trailing)))) := by
      rw [hrecorded]
      exact List.mem_cons_of_mem _ List.mem_cons_self
    rcases args with _ | ⟨item, _ | ⟨failure, rest⟩⟩
    · refine iff_of_false (not_agree rfl hmem ?_) Bool.false_ne_true
      exact not_records_channel (.inl rfl)
    · have hitem : Records (.generic leading modules name [item] trailing)
          (.result (.argument okArg)) (channel item) ↔ denotesUnit item = false :=
        records_argument rfl
      rw [List.length_singleton, List.all_cons, List.all_nil, Bool.and_true, beq_self_eq_true,
        Bool.true_and, Bool.not_eq_true', ← hitem, Agree, hrecorded, channels, if_pos hname]
      by_cases hbare : bareUnit item = true
      · rw [if_pos hbare]
        refine iff_of_false (fun h => ?_) fun h => ?_
        · obtain ⟨found, hfound, published, hpublished, hrecords⟩ :=
            h.of_recorded _ (List.mem_cons_of_mem _ List.mem_cons_self)
          obtain rfl := Option.some.inj hfound
          rw [List.mem_singleton.mp hpublished] at hrecords
          cases hrecords
        · exact Bool.false_ne_true ((hitem.mp h).symm.trans (denotesUnit_of_bareUnit hbare))
      · rw [if_neg hbare, matches_pair (fun h => (by cases h)) (not_records_channel (.inl rfl))]
        exact ⟨fun h => h.1, fun h => ⟨h, .empty⟩⟩
    · refine iff_of_false (not_agree ?_ hmem (not_records_channel (.inl rfl))) Bool.false_ne_true
      cases rest with
      | nil => exact if_neg (hname ▸ (by decide))
      | cons third rest => rfl

theorem agree_result (hresult : name.text = "Result") :
    Agree (.generic leading modules name args trailing) ↔
      clear (.generic leading modules name args trailing) = true := by
  have hoption : name.text ≠ "Option" := hresult ▸ (by decide)
  have hclear : clear (.generic leading modules name args trailing) =
      (args.length == 2 && args.all clearPayload) := (if_neg hoption).trans (if_pos hresult)
  have hkind : returnKind (.type (.generic leading modules name args trailing)) =
      if isUnitArg args okArg && isUnitArg args errorArg then .resultUnits
      else if isUnitArg args okArg then .resultUnit
      else if isUnitArg args errorArg then .resultErrUnit
      else .result := (if_neg hoption).trans (if_pos hresult)
  have hshapes : shapes (.generic leading modules name args trailing) = [.ok, .err] :=
    (if_neg hoption).trans (if_pos hresult)
  have hrecorded : (shapes (.generic leading modules name args trailing)).map
      (completion (returnKind (.type (.generic leading modules name args trailing)))) =
        [some (if isUnitArg args okArg then .unit else .result (.argument okArg)),
          some (.error errorName
            (if isUnitArg args errorArg then none else some (.argument errorArg)))] := by
    rw [hshapes, hkind]
    cases isUnitArg args okArg <;> cases isUnitArg args errorArg <;> rfl
  have hmem : some (Completion.error errorName
      (if isUnitArg args errorArg then none else some (.argument errorArg))) ∈
        (shapes (.generic leading modules name args trailing)).map
          (completion (returnKind (.type (.generic leading modules name args trailing)))) := by
    rw [hrecorded]
    exact List.mem_cons_of_mem _ List.mem_cons_self
  have herror : ∀ {other : SynType classes} {payload : Option Projected},
      ¬ Records (.generic leading modules name args trailing) (.error errorName payload)
        (channel other) := not_records_channel (.inr ⟨_, _, rfl⟩)
  rw [hclear]
  rcases args with _ | ⟨item, _ | ⟨failure, _ | ⟨third, rest⟩⟩⟩
  · exact iff_of_false (not_agree rfl hmem herror) Bool.false_ne_true
  · exact iff_of_false (not_agree (if_neg hoption) hmem herror) Bool.false_ne_true
  · rw [Agree, hrecorded, channels, if_pos hresult]
    have hfirst : isUnitArg [item, failure] okArg = isUnitTuple item := rfl
    have hsecond : isUnitArg [item, failure] errorArg = isUnitTuple failure := rfl
    have hcross : ∀ {payload : Option String},
        ¬ Records (.generic leading modules name [item, failure] trailing)
          (if isUnitTuple item then .unit else .result (.argument okArg))
          (.error errorName payload) := by
      intro payload
      split <;> exact fun h => (by cases h)
    rw [hfirst, hsecond, matches_pair hcross herror, records_ok rfl, records_error rfl,
      List.all_cons, List.all_cons, List.all_nil, Bool.and_true]
    simp
  · refine iff_of_false (not_agree rfl hmem herror) fun h => ?_
    have hlength := eq_of_beq (Bool.and_eq_true_iff.mp h).1
    rw [List.length_cons, List.length_cons, List.length_cons] at hlength
    omega

end Divided

theorem agree_path {leading : Bool} {modules : List (Ident classes)} {name : Ident classes} :
    Agree (.path leading modules name) ↔ clear (.path leading modules name) = true := by
  have hcontains : ["Option", "Result", "unit"].contains name.text = true ↔
      name.text = "Option" ∨ name.text = "Result" ∨ name.text = "unit" := by
    rw [List.contains_iff_mem, List.mem_cons, List.mem_cons, List.mem_singleton]
  rw [clear, Bool.not_eq_true', Bool.eq_false_iff, Ne, hcontains]
  by_cases hoption : name.text = "Option"
  · have hkind : returnKind (.type (.path leading modules name)) = .option := if_pos hoption
    have hshapes : shapes (.path leading modules name) = [.some, .none] := if_pos hoption
    have hmem : some Completion.empty ∈ (shapes (.path leading modules name)).map
        (completion (returnKind (.type (.path leading modules name)))) := by
      rw [hkind, hshapes]
      exact List.mem_cons_of_mem _ List.mem_cons_self
    exact iff_of_false (not_agree rfl hmem (not_records_channel (.inl rfl)))
      fun h => h (.inl hoption)
  · by_cases hresult : name.text = "Result"
    · have hkind : returnKind (.type (.path leading modules name)) = .result :=
        (if_neg hoption).trans (if_pos hresult)
      have hshapes : shapes (.path leading modules name) = [.ok, .err] :=
        (if_neg hoption).trans (if_pos hresult)
      have hmem : some (.error errorName (some (.argument errorArg))) ∈
          (shapes (.path leading modules name)).map
            (completion (returnKind (.type (.path leading modules name)))) := by
        rw [hkind, hshapes]
        exact List.mem_cons_of_mem _ List.mem_cons_self
      exact iff_of_false (not_agree rfl hmem (not_records_channel (.inr ⟨_, _, rfl⟩)))
        fun h => h (.inr (.inl hresult))
    · have hkind : returnKind (.type (.path leading modules name)) = .value :=
        (if_neg hoption).trans (if_neg hresult)
      have hdivided : divided (.path leading modules name) = false := rfl
      rw [agree_of_whole (.inl hkind), denotesUnit, hdivided, Bool.not_false, Bool.and_true,
        Bool.not_eq_true', beq_eq_false_iff_ne]
      exact ⟨fun h heq => heq.elim hoption fun heq => heq.elim hresult h,
        fun h heq => h (.inr (.inr heq))⟩

/-- The completions agree with the outcomes of a type that can be read exactly if it is clear. -/
theorem agree_iff_clear (ty : SynType classes) : Agree ty ↔ clear ty = true := by
  cases ty with
  | path leading modules name => exact agree_path
  | generic leading modules name args trailing =>
    by_cases hoption : name.text = "Option"
    · exact agree_option hoption
    · by_cases hresult : name.text = "Result"
      · exact agree_result hresult
      · have hkind : returnKind (.type (.generic leading modules name args trailing)) = .value :=
          (if_neg hoption).trans (if_neg hresult)
        have hdivided : divided (.generic leading modules name args trailing) = false := by
          rcases args with _ | ⟨item, _ | ⟨failure, _ | ⟨third, rest⟩⟩⟩
          · rfl
          · rw [divided, beq_false_of_ne hoption, Bool.false_and]
          · rw [divided, beq_false_of_ne hresult]
          · rfl
        rw [agree_of_whole (.inl hkind), hdivided, denotesUnit, clear, if_neg hoption,
          if_neg hresult, Bool.not_false, Bool.and_true]
        rfl
  | reference lifetime mutable inner => exact agree_of_whole (.inl rfl)
  | slice inner => exact agree_of_whole (.inl rfl)
  | paren inner => exact agree_of_whole (.inl rfl)
  | tuple elems trailing =>
    cases elems with
    | nil =>
      refine iff_of_true ⟨?_, ?_⟩ rfl
      · intro entry hentry
        exact ⟨_, List.mem_singleton.mp hentry, _, List.mem_singleton_self _, .unit⟩
      · intro found hfound
        rw [List.mem_singleton.mp hfound]
        exact ⟨_, List.mem_singleton_self _, .unit⟩
    | cons first rest => exact agree_of_whole (.inl rfl)

/-- Completions and published outcomes agree exactly for the clear types that can be read. -/
theorem channels_agree_iff {style : PathStyle} (output : ReturnType classes) (text : String)
    (htext : Spells classes text.toList (tokens style output.authored)) :
    ChannelsAgree output text ↔
      readable output.authored = true ∧ clear output.authored = true := by
  have hkind : (shapes output.authored).map (completion (returnKind output)) =
      (shapes output.authored).map (completion (returnKind (.type output.authored))) := by
    cases output <;> rfl
  rw [← agree_iff_clear, Agree, ← hkind]
  by_cases hreadable : readable output.authored = true
  · obtain ⟨outcome, houtcome, hpublished⟩ := operationOutcome_readable htext hreadable
    rw [← hpublished]
    constructor
    · intro ⟨other, hother, hmatches⟩
      obtain rfl := Except.ok.inj (houtcome.symm.trans hother)
      exact ⟨hreadable, hmatches⟩
    · intro ⟨_, hmatches⟩
      exact ⟨outcome, houtcome, hmatches⟩
  · refine iff_of_false ?_ fun h => hreadable h.1
    intro ⟨outcome, houtcome, _⟩
    exact operationOutcome_unreadable htext (Bool.eq_false_iff.mpr hreadable) outcome houtcome

/-! ### An optional number -/

def optionIdent : Ident CharClasses.ascii :=
  ⟨"Option", by decide, forall_of_all (by decide), by decide, by decide⟩

def numberIdent : Ident CharClasses.ascii :=
  ⟨"i32", by decide, forall_of_all (by decide), by decide, by decide⟩

def optionalNumber : SynType CharClasses.ascii :=
  .generic false [] optionIdent [.path false [] numberIdent] false

theorem optionalNumber_spelled {text : List Char} {others : List String}
    (h : Spells CharClasses.ascii text others) :
    Spells CharClasses.ascii ("Option < i32 >".toList ++ text)
      (tokens .apart optionalNumber ++ others) := by
  have hspace : Breaks CharClasses.ascii (' ' :: ('>' :: text)) := fun _ heq =>
    .inr (Option.some.inj heq ▸ rfl)
  have hclose : Spells CharClasses.ascii (' ' :: '>' :: text) (">" :: others) :=
    .space rfl rfl (.sign (c := '>') rfl h)
  have hnumber := Spells.name numberIdent hspace hclose
  have hargs : Spells CharClasses.ascii
      (' ' :: '<' :: ' ' :: (numberIdent.text.toList ++ ' ' :: '>' :: text))
      ("<" :: numberIdent.text :: ">" :: others) :=
    .space rfl rfl (.sign (c := '<') rfl (.space rfl rfl hnumber))
  exact Spells.name optionIdent (fun _ heq => .inr (Option.some.inj heq ▸ rfl)) hargs

theorem channels_agree_iff_option :
    ChannelsAgree (.type optionalNumber) "Option < i32 >" ↔
      readable optionalNumber = true ∧ clear optionalNumber = true := by
  have hspelled := optionalNumber_spelled .nil
  rw [List.append_nil, List.append_nil] at hspelled
  exact channels_agree_iff (.type optionalNumber) "Option < i32 >" hspelled

/-- In parentheses the macro records the whole option, while discovery publishes its content. -/
theorem parenthesized_option_disagrees :
    Spells CharClasses.ascii "(Option < i32 >)".toList (tokens .apart (.paren optionalNumber)) ∧
      ¬ ChannelsAgree (.type (.paren optionalNumber)) "(Option < i32 >)" := by
  refine ⟨.sign (c := '(') rfl (optionalNumber_spelled (.sign (c := ')') rfl .nil)), ?_⟩
  intro ⟨outcome, houtcome, hmatches⟩
  have hpublished : operationOutcome CharClasses.ascii "(Option < i32 >)" .rust =
      .ok ⟨some "i32", true, []⟩ := by rfl
  obtain rfl := Except.ok.inj (hpublished.symm.trans houtcome)
  obtain ⟨found, hfound, hrecords⟩ := hmatches.of_published .empty
    (List.mem_cons_of_mem _ List.mem_cons_self)
  -- whatever the body returns, the macro records a result
  rcases List.mem_cons.mp hfound with hfound | hfound
  · obtain rfl := Option.some.inj hfound
    cases hrecords
  · obtain rfl := Option.some.inj (List.mem_singleton.mp hfound)
    cases hrecords

end SpecGate.OutcomeChannels

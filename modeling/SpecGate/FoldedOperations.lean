import SpecGate.DeclaredSetups
import SpecGate.DiscoveredRegistries
import SpecGate.RustTypes

/-!
Setup folding in discovery. The setups of an operation are folded one by one as the capture
runtime plans them; the construction inputs of each then stand in the place of the parameter
it fills, or in front as those of the receiver. Types with property setup are taken apart
into their fields, and the folded names must differ.
-/
namespace SpecGate.FoldedOperations

open DiscoveredRegistries TypeExpressions Placements Sorting SortedAssoc

/-! ### Property setups -/

/-- The segments of a path between double colons. -/
def segmentsFrom : List Char → List Char → List String
  | word, [] => [String.ofList word]
  | word, ':' :: ':' :: rest => String.ofList word :: segmentsFrom [] rest
  | word, c :: rest => segmentsFrom (word ++ [c]) rest

def segments (path : String) : List String := segmentsFrom [] path.toList

/-- Each leading `super::` takes the last segment off the scope. -/
def superPath : List String → List Char → List String × List Char
  | scope, 's' :: 'u' :: 'p' :: 'e' :: 'r' :: ':' :: ':' :: rest => superPath scope.dropLast rest
  | scope, text => (scope, text)

def stripPrefix (lead : String) (text : List Char) : Option (List Char) :=
  lead.toList.isPrefixOf? text

/-- Run on the items of a list and put the results together. -/
def concatAll {α β : Type} (f : α → Except String (List β)) : List α → Except String (List β)
  | [] => .ok []
  | item :: rest =>
      match f item with
      | .error error => .error error
      | .ok results => (concatAll f rest).map (results ++ ·)

section Properties

variable (classes : CharClasses)

def trimStart (text : List Char) : List Char := text.dropWhile classes.isWhitespace

/-- The native type behind a reference, without its blanks. -/
def nativeText (sourceType : String) : List Char :=
  let native := trimStart classes (RustTypes.normalize classes sourceType).toList
  let native := (trimStart classes native.reverse).reverse
  let native := match stripPrefix "&" native with
    | none => native
    | some reference =>
        let native := trimStart classes reference
        -- A lifetime ends at the first white space; without one nothing is left.
        let native := if native.head? = some '\'' then
            trimStart classes ((native.dropWhile fun c => !classes.isWhitespace c).drop 1)
          else native
        trimStart classes ((stripPrefix "mut " native).getD native)
  native.filter fun c => c != ' '

/-- The full path of a native type that is written relative to a module. -/
def nativePath (modulePath : String) (native : List Char) : String :=
  match stripPrefix "crate::" native with
  | some suffix => (segments modulePath).headD "" ++ "::" ++ String.ofList suffix
  | none =>
      match stripPrefix "self::" native with
      | some suffix => modulePath ++ "::" ++ String.ofList suffix
      | none =>
          if (stripPrefix "super::" native).isSome then
            let (scope, suffix) := superPath (segments modulePath) native
            "::".intercalate scope ++ "::" ++ String.ofList suffix
          else String.ofList native

variable (registry : Registry)

def propertyType (component modulePath sourceType : String) : Except String (Option RawType) :=
  let native := nativePath modulePath (nativeText classes sourceType)
  let matching := registry.types.filter fun ty =>
    ty.propertySetup && ty.component == component &&
      (ty.nativeName == native || (ty.nativeName == "" && ty.name == native) ||
        ty.modulePath ++ "::" ++ ty.nativeName == native)
  match matching with
  | [] => .ok none
  | [ty] => .ok (some ty)
  | _ :: _ :: _ => .error
      s!"ambiguous property setup type '{sourceType}' in '{component}' module '{modulePath}'"

/-- The inputs behind a parameter. The types being taken apart are all different, so that the
fuel, which is the number of types, outlasts them. -/
def appendParameter (component opName : String) :
    Nat → String → List (String × String) → Field → Except String (List Field)
  | fuel, modulePath, visiting, parameter =>
      match propertyType classes registry component modulePath parameter.ty with
      | .error error => .error error
      | .ok none => .ok [parameter]
      | .ok (some properties) =>
          let identity := (properties.modulePath, properties.name)
          if identity ∈ visiting then .error
            s!"recursive property setup type '{properties.name}' for '{component}::{opName}'"
          else match fuel with
            | 0 => .error
                s!"recursive property setup type '{properties.name}' for '{component}::{opName}'"
            | fuel + 1 =>
                concatAll
                  (appendParameter component opName fuel properties.modulePath
                    (visiting ++ [identity]))
                  properties.fields

def inputsOf (op : Operation) (parameter : Field) : Except String (List Field) :=
  appendParameter classes registry op.component op.name registry.types.length op.modulePath []
    parameter

def parameterFields (op : Operation) : Except String (List Field) :=
  concatAll (inputsOf classes registry op) op.params

variable {classes registry}

theorem propertyType_mem {component modulePath sourceType : String} {ty : RawType}
    (h : propertyType classes registry component modulePath sourceType = .ok (some ty)) :
    ty ∈ registry.types := by
  unfold propertyType at h
  dsimp only at h
  split at h
  · cases h
  · rename_i found hfound
    obtain rfl := Option.some.inj (Except.ok.inj h)
    exact List.mem_of_mem_filter (hfound ▸ List.mem_singleton.mpr rfl)
  · cases h

theorem concatAll_congr {α β : Type} {f g : α → Except String (List β)} {items : List α}
    (h : ∀ item ∈ items, f item = g item) : concatAll f items = concatAll g items := by
  induction items with
  | nil => rfl
  | cons item rest ih =>
    unfold concatAll
    rw [h item List.mem_cons_self, ih fun other hother => h other (List.mem_cons_of_mem _ hother)]

/-- More fuel than there are types beside those being taken apart makes no difference. -/
theorem appendParameter_fuel {component opName modulePath : String} {fuel : Nat} (extra : Nat)
    {visiting : List (String × String)} (hnodup : visiting.Nodup)
    (htypes : visiting ⊆ registry.types.map fun ty => (ty.modulePath, ty.name))
    (hfuel : registry.types.length ≤ fuel + visiting.length) (parameter : Field) :
    appendParameter classes registry component opName (fuel + extra) modulePath visiting parameter =
      appendParameter classes registry component opName fuel modulePath visiting parameter := by
  induction fuel using Nat.strong_induction_on generalizing modulePath visiting parameter with
  | h fuel ih =>
    unfold appendParameter
    cases hproperty : propertyType classes registry component modulePath parameter.ty with
    | error error => rfl
    | ok found =>
      cases found with
      | none => rfl
      | some properties =>
        dsimp only
        by_cases hmem : (properties.modulePath, properties.name) ∈ visiting
        · rw [if_pos hmem, if_pos hmem]
        have hlisted : (properties.modulePath, properties.name) ∈
            registry.types.map fun ty => (ty.modulePath, ty.name) :=
          List.mem_map.mpr ⟨properties, propertyType_mem hproperty, rfl⟩
        have hlonger := (List.nodup_cons.mpr ⟨hmem, hnodup⟩).subperm
          (List.cons_subset.mpr ⟨hlisted, htypes⟩)
        have hlength := hlonger.length_le
        rw [List.length_cons, List.length_map] at hlength
        obtain ⟨less, rfl⟩ : ∃ less, fuel = less + 1 := ⟨fuel - 1, by omega⟩
        rw [Nat.add_right_comm, if_neg hmem, if_neg hmem]
        apply concatAll_congr
        intro field _
        apply ih less (Nat.lt_succ_self less)
        · rw [List.nodup_append]
          refine ⟨hnodup, List.nodup_singleton _, fun left hleft right hright => ?_⟩
          rw [List.mem_singleton.mp hright]
          exact fun heq => hmem (heq ▸ hleft)
        · rw [List.append_subset]
          exact ⟨htypes, List.cons_subset.mpr ⟨hlisted, List.nil_subset _⟩⟩
        · rw [List.length_append, List.length_singleton]
          omega

end Properties

/-! ### Folding -/

structure FoldedSetup where
  fills : String
  inputs : List Field
  output : String
  producer : Operation

structure FoldedOperation where
  inputs : List Field
  setups : List FoldedSetup

/-- The setups folded so far: the inputs of filled parameters, and the receiver's setup. -/
structure Folding where
  injected : List (String × List Field)
  receiver : Option Operation
  setups : List FoldedSetup

section Fold

variable (classes : CharClasses) (registry : Registry) (op : Operation)

/-- The parameter that a setup fills, or `none` for the receiver. -/
def targetOf (injected : List (String × List Field)) (setup : Operation) :
    Except String (Option String) :=
  if setup.fills = "" then
    match (op.params.filter fun parameter => !contains injected parameter.name &&
        RustTypes.normalize classes parameter.ty ==
          RustTypes.normalize classes setup.returnType).map Field.name with
    | [] => .ok none
    | [only] => .ok (some only)
    | first :: second :: rest =>
        let names := ", ".intercalate (first :: second :: rest)
        .error (s!"setup '{setup.fnName}' for '{op.component}::{op.name}' ambiguously matches " ++
          s!"parameters {names} by return type '{setup.returnType}'; set fills explicitly")
  else if op.params.any fun parameter => parameter.name == setup.fills then .ok (some setup.fills)
  else .error (s!"setup '{setup.fnName}' for '{op.component}::{op.name}' fills unknown " ++
    s!"parameter '{setup.fills}'")

def foldSetup (folding : Folding) (setup : Operation) : Except String Folding :=
  match targetOf classes op folding.injected setup with
  | .error error => .error error
  | .ok (some name) =>
      match parameterFields classes registry setup with
      | .error error => .error error
      | .ok fields =>
          if contains folding.injected name then
            .error s!"multiple setups for '{op.component}::{op.name}' fill parameter '{name}'"
          else .ok
            { injected := insert name fields folding.injected
              receiver := folding.receiver
              setups := folding.setups ++ [⟨name, fields, setup.returnType, setup⟩] }
  | .ok none =>
      if folding.receiver.isSome then
        .error s!"multiple receiver setups are registered for '{op.component}::{op.name}'"
      else match parameterFields classes registry setup with
        | .error error => .error error
        | .ok fields => .ok
            { injected := folding.injected
              receiver := some setup
              setups := folding.setups ++ [⟨"", fields, setup.returnType, setup⟩] }

def foldSetups (folding : Folding) : List Operation → Except String Folding
  | [] => .ok folding
  | setup :: rest =>
      match foldSetup classes registry op folding setup with
      | .error error => .error error
      | .ok folding => foldSetups folding rest

/-- The inputs of the receiver, and then of the parameters in order. -/
def foldedInputs (folding : Folding) : Except String (List Field) :=
  match (match folding.receiver with
    | some setup => parameterFields classes registry setup
    | none => .ok []) with
  | .error error => .error error
  | .ok constructed =>
      (concatAll (fun parameter =>
        match lookup folding.injected parameter.name with
        | some injected => .ok injected
        | none => inputsOf classes registry op parameter) op.params).map (constructed ++ ·)

/-- The first name that repeats an earlier one. -/
def duplicateName (seen : List String) : List Field → Option String
  | [] => none
  | field :: rest =>
      if field.name ∈ seen then some field.name else duplicateName (field.name :: seen) rest

def finishFold (folding : Folding) : Except String FoldedOperation :=
  if op.isMethod && folding.receiver.isNone then
    .error (s!"operation '{op.component}::{op.name}' is a method with no receiver setup; " ++
      s!"annotate a #[spec_setup(\"{op.name}\")] producer for its receiver")
  else match foldedInputs classes registry op folding with
    | .error error => .error error
    | .ok inputs =>
        match duplicateName [] inputs with
        | some duplicate => .error (s!"setup folding for '{op.component}::{op.name}' produces " ++
            s!"duplicate input name '{duplicate}'")
        | none => .ok ⟨inputs, sortBy FoldedSetup.fills folding.setups⟩

/-- Fold the setups of an operation in the order in which they are linked. -/
def foldWith (setups : List Operation) : Except String FoldedOperation :=
  match foldSetups classes registry op ⟨[], none, []⟩ setups with
  | .error error => .error error
  | .ok folding => finishFold classes registry op folding

def setupsFor (component name : String) : List Operation :=
  registry.ops.filter fun candidate =>
    candidate.isSetup && candidate.component == component && candidate.name == name

def foldOperation : Except String FoldedOperation :=
  foldWith classes registry op (setupsFor registry op.component op.name)

end Fold

/-! ### Folding as placement -/

section Placement

variable (classes : CharClasses) (registry : Registry) (op : Operation)

/-- Setups ask for parameters, by name or by their return type. -/
def demand : Demand Operation String where
  slots := op.params.map Field.name
  named setup := if setup.fills = "" then none else some setup.fills
  fits setup :=
    (op.params.filter fun parameter => RustTypes.normalize classes parameter.ty ==
      RustTypes.normalize classes setup.returnType).map Field.name

/-- The inputs of a setup, if it has any. -/
def fieldsOf (setup : Operation) : List Field :=
  ((parameterFields classes registry setup).toOption).getD []

def foldedSetup (placed : Operation × Option String) : FoldedSetup :=
  ⟨placed.2.getD "", fieldsOf classes registry placed.1, placed.1.returnType, placed.1⟩

/-- Fold a setup in its place. -/
def enter (folding : Folding) (placed : Operation × Option String) : Folding where
  injected := placed.2.elim folding.injected fun name =>
    insert name (fieldsOf classes registry placed.1) folding.injected
  receiver := placed.2.elim (some placed.1) fun _ => folding.receiver
  setups := folding.setups ++ [foldedSetup classes registry placed]

variable {classes registry op} {taken : List String} {folding folding' : Folding}

theorem choose_eq_targetOf
    (hsets : ∀ name, name ∈ taken ↔ contains folding.injected name = true) (setup : Operation) :
    (demand classes op).choose taken folding.receiver.isSome setup =
      (targetOf classes op folding.injected setup).toOption.bind fun target =>
        match target with
        | some name => if contains folding.injected name then none else some (some name)
        | none => if folding.receiver.isSome then none else some none := by
  unfold targetOf
  by_cases hfills : setup.fills = ""
  · have hnamed : (demand classes op).named setup = none := if_pos hfills
    have hfree : (op.params.filter fun parameter => !contains folding.injected parameter.name &&
        RustTypes.normalize classes parameter.ty ==
          RustTypes.normalize classes setup.returnType).map Field.name =
        (demand classes op).free taken setup := by
      unfold Demand.free demand
      rw [List.filter_map, List.filter_filter]
      congr 1
      apply List.filter_congr
      intro parameter _
      simp [hsets]
    unfold Demand.choose
    rw [hnamed, if_pos hfills, hfree]
    dsimp only
    cases hlist : (demand classes op).free taken setup with
    | nil => rfl
    | cons first rest =>
      cases rest with
      | cons second rest => rfl
      | nil =>
        have hmem : first ∈ (demand classes op).free taken setup := by
          rw [hlist]
          exact List.mem_singleton.mpr rfl
        have hnot : ¬ contains folding.injected first = true := fun hcontains =>
          (Demand.mem_free.mp hmem).2 ((hsets first).mpr hcontains)
        change some (some first) = if contains folding.injected first = true then none else _
        rw [if_neg hnot]
  · have hnamed : (demand classes op).named setup = some setup.fills := if_neg hfills
    rw [Demand.choose_named hnamed, if_neg hfills]
    have hslots : setup.fills ∈ (demand classes op).slots ↔
        (op.params.any fun parameter => parameter.name == setup.fills) = true := by
      unfold demand
      rw [List.mem_map, List.any_eq_true]
      simp only [beq_iff_eq]
    by_cases hknown : (op.params.any fun parameter => parameter.name == setup.fills) = true
    · rw [if_pos hknown]
      change _ = if contains folding.injected setup.fills = true then none else _
      by_cases htaken : contains folding.injected setup.fills = true
      · rw [if_pos htaken, if_neg fun hboth => hboth.2 ((hsets setup.fills).mpr htaken)]
      · rw [if_neg htaken, if_pos ⟨hslots.mpr hknown, fun hmem => htaken ((hsets _).mp hmem)⟩]
    · rw [if_neg hknown, if_neg fun hboth => hknown (hslots.mp hboth.1)]
      rfl

/-- Folding a setup puts it in its place. -/
theorem foldSetup_ok_iff (hsets : ∀ name, name ∈ taken ↔ contains folding.injected name = true)
    {setup : Operation} : foldSetup classes registry op folding setup = .ok folding' ↔
      ∃ target, (demand classes op).choose taken folding.receiver.isSome setup = some target ∧
        parameterFields classes registry setup = .ok (fieldsOf classes registry setup) ∧
        folding' = enter classes registry folding (setup, target) := by
  rw [choose_eq_targetOf hsets]
  unfold foldSetup fieldsOf
  cases htarget : targetOf classes op folding.injected setup with
  | error error =>
    refine ⟨fun h => (by cases h), fun ⟨target, h, _⟩ => ?_⟩
    cases h
  | ok target =>
    cases target with
    | some name =>
      change _ ↔ ∃ target, (if contains folding.injected name = true then none else
        some (some name)) = some target ∧ _
      cases hfields : parameterFields classes registry setup with
      | error error =>
        refine ⟨fun h => (by cases h), fun ⟨target, _, h, _⟩ => ?_⟩
        cases h
      | ok fields =>
        dsimp only
        by_cases hcontains : contains folding.injected name = true
        · rw [if_pos hcontains, if_pos hcontains]
          refine ⟨fun h => (by cases h), fun ⟨target, h, _⟩ => ?_⟩
          cases h
        · rw [if_neg hcontains, if_neg hcontains]
          have henter : enter classes registry folding (setup, some name) =
              { injected := insert name fields folding.injected
                receiver := folding.receiver
                setups := folding.setups ++ [⟨name, fields, setup.returnType, setup⟩] } := by
            unfold enter foldedSetup fieldsOf
            rw [hfields]
            rfl
          constructor
          · intro h
            exact ⟨some name, rfl, rfl, (Except.ok.inj h).symm.trans henter.symm⟩
          · intro ⟨target, hname, _, hfolding⟩
            obtain rfl := Option.some.inj hname
            rw [hfolding, henter]
    | none =>
      change _ ↔ ∃ target, (if folding.receiver.isSome = true then none else some none) =
        some target ∧ _
      by_cases hreceiver : folding.receiver.isSome = true
      · dsimp only
        rw [if_pos hreceiver, if_pos hreceiver]
        refine ⟨fun h => (by cases h), fun ⟨target, h, _⟩ => ?_⟩
        cases h
      · dsimp only
        rw [if_neg hreceiver, if_neg hreceiver]
        cases hfields : parameterFields classes registry setup with
        | error error =>
          refine ⟨fun h => (by cases h), fun ⟨target, _, h, _⟩ => ?_⟩
          cases h
        | ok fields =>
          have henter : enter classes registry folding (setup, none) =
              { injected := folding.injected
                receiver := some setup
                setups := folding.setups ++ [⟨"", fields, setup.returnType, setup⟩] } := by
            unfold enter foldedSetup fieldsOf
            rw [hfields]
            rfl
          constructor
          · intro h
            exact ⟨none, rfl, rfl, (Except.ok.inj h).symm.trans henter.symm⟩
          · intro ⟨target, hnone, _, hfolding⟩
            obtain rfl := Option.some.inj hnone
            rw [hfolding, henter]

theorem foldSetups_cons {setup : Operation} {rest : List Operation} :
    foldSetups classes registry op folding (setup :: rest) = .ok folding' ↔
      ∃ middle, foldSetup classes registry op folding setup = .ok middle ∧
        foldSetups classes registry op middle rest = .ok folding' := by
  conv_lhs => unfold foldSetups
  cases foldSetup classes registry op folding setup with
  | error error => exact ⟨fun h => (by cases h), fun ⟨_, h, _⟩ => (by cases h)⟩
  | ok middle =>
    refine ⟨fun h => ⟨middle, rfl, h⟩, fun ⟨other, h, hrest⟩ => ?_⟩
    obtain rfl := Except.ok.inj h
    exact hrest

/-- Folding the setups puts them in their places. -/
theorem foldSetups_ok_iff (hsets : ∀ name, name ∈ taken ↔ contains folding.injected name = true)
    {setups : List Operation} : foldSetups classes registry op folding setups = .ok folding' ↔
      ∃ placed, (demand classes op).place taken folding.receiver.isSome setups = some placed ∧
        (∀ setup ∈ setups,
          parameterFields classes registry setup = .ok (fieldsOf classes registry setup)) ∧
        folding' = placed.foldl (enter classes registry) folding := by
  induction setups generalizing taken folding with
  | nil =>
    constructor
    · intro h
      exact ⟨[], rfl, fun setup hsetup => (by cases hsetup), (Except.ok.inj h).symm⟩
    · rintro ⟨placed, hplaced, _, hfolding⟩
      obtain rfl := Option.some.inj hplaced
      exact congrArg Except.ok hfolding.symm
  | cons setup rest ih =>
    have hentered : ∀ target, (demand classes op).choose taken folding.receiver.isSome setup =
        some target → (∀ name, name ∈ target.toList ++ taken ↔
          contains (enter classes registry folding (setup, target)).injected name = true) ∧
          (enter classes registry folding (setup, target)).receiver.isSome =
            (folding.receiver.isSome || target.isNone) := by
      intro target _
      cases target with
      | none => exact ⟨hsets, (Bool.or_true _).symm⟩
      | some name =>
        refine ⟨fun other => ?_, (Bool.or_false _).symm⟩
        change other ∈ name :: taken ↔
          contains (insert name (fieldsOf classes registry setup) folding.injected) other = true
        rw [List.mem_cons, contains_iff, mem_keys_insert, ← contains_iff, hsets]
    rw [foldSetups_cons]
    constructor
    · rintro ⟨middle, hmiddle, hrest⟩
      obtain ⟨target, hchoose, hfields, rfl⟩ := (foldSetup_ok_iff hsets).mp hmiddle
      obtain ⟨hsets', hreceiver⟩ := hentered target hchoose
      obtain ⟨placed, hplaced, hall, hfolding⟩ := (ih hsets').mp hrest
      rw [hreceiver] at hplaced
      refine ⟨(setup, target) :: placed, ?_, ?_, hfolding⟩
      · unfold Demand.place
        rw [hchoose, Option.bind_some, hplaced]
        rfl
      · intro other hother
        rcases List.mem_cons.mp hother with rfl | hmem
        · exact hfields
        · exact hall other hmem
    · rintro ⟨placed, hplaced, hall, hfolding⟩
      obtain ⟨target, later, hchoose, hlater, rfl⟩ := Demand.place_cons hplaced
      obtain ⟨hsets', hreceiver⟩ := hentered target hchoose
      refine ⟨enter classes registry folding (setup, target),
        (foldSetup_ok_iff hsets).mpr ⟨target, hchoose, hall setup List.mem_cons_self, rfl⟩,
        (ih hsets').mpr ⟨later, ?_, ?_, hfolding⟩⟩
      · rw [hreceiver]
        exact hlater
      · exact fun other hother => hall other (List.mem_cons_of_mem _ hother)

end Placement

/-! ### Orders of the setups -/

/-- Two foldings agree: both fail, or they have the same inputs and each setup contributes the
same. -/
def Agree : Except String FoldedOperation → Except String FoldedOperation → Prop
  | .ok left, .ok right => left.inputs = right.inputs ∧ left.setups.Perm right.setups
  | .error _, .error _ => True
  | _, _ => False

/-- Foldings that the rest of the fold does not tell apart. -/
structure Alike (left right : Folding) : Prop where
  receiver : left.receiver = right.receiver
  injected : ∀ name, lookup left.injected name = lookup right.injected name
  setups : left.setups.Perm right.setups

section Orders

variable {classes : CharClasses} {registry : Registry} {op : Operation}
  {folding : Folding} {placed placed' : List (Operation × Option String)}

theorem receiver_absent (h : ∀ setup, (setup, none) ∉ placed) :
    (placed.foldl (enter classes registry) folding).receiver = folding.receiver := by
  induction placed generalizing folding with
  | nil => rfl
  | cons first rest ih =>
    obtain ⟨setup, target⟩ := first
    rw [List.foldl_cons, ih fun other hmem => h other (List.mem_cons_of_mem _ hmem)]
    cases target with
    | none => exact absurd List.mem_cons_self (h setup)
    | some name => rfl

theorem receiver_present {before after : List (Operation × Option String)} {setup : Operation}
    (hafter : ∀ other, (other, none) ∉ after) :
    ((before ++ (setup, none) :: after).foldl (enter classes registry) folding).receiver =
      some setup := by
  rw [List.foldl_append, List.foldl_cons, receiver_absent hafter]
  rfl

theorem injected_absent {name : String} (h : ∀ setup, (setup, some name) ∉ placed) :
    lookup (placed.foldl (enter classes registry) folding).injected name =
      lookup folding.injected name := by
  induction placed generalizing folding with
  | nil => rfl
  | cons first rest ih =>
    obtain ⟨setup, target⟩ := first
    rw [List.foldl_cons, ih fun other hmem => h other (List.mem_cons_of_mem _ hmem)]
    cases target with
    | none => rfl
    | some other =>
      have hne : other ≠ name := by
        rintro rfl
        exact h setup List.mem_cons_self
      exact lookup_insert_of_ne hne _ _

theorem injected_present {before after : List (Operation × Option String)} {setup : Operation}
    {name : String} (hafter : ∀ other, (other, some name) ∉ after) :
    lookup ((before ++ (setup, some name) :: after).foldl (enter classes registry) folding).injected
      name = some (fieldsOf classes registry setup) := by
  rw [List.foldl_append, List.foldl_cons, injected_absent hafter]
  exact lookup_insert_self _ _ _

theorem setups_entered :
    (placed.foldl (enter classes registry) folding).setups =
      folding.setups ++ placed.map (foldedSetup classes registry) := by
  induction placed generalizing folding with
  | nil => exact (List.append_nil _).symm
  | cons first rest ih =>
    rw [List.foldl_cons, ih, List.map_cons]
    exact List.append_assoc _ _ _

/-- A slot has one item only. -/
theorem placed_unique {before after : List (Operation × Option String)} {setup : Operation}
    {name : String} (hnodup : ((before ++ (setup, some name) :: after).filterMap Prod.snd).Nodup) :
    ∀ other, (other, some name) ∉ after := by
  intro other hmem
  rw [List.filterMap_append] at hnodup
  have hlast := (List.nodup_append.mp hnodup).2.1
  change (name :: after.filterMap Prod.snd).Nodup at hlast
  exact (List.nodup_cons.mp hlast).1 (List.mem_filterMap.mpr ⟨_, hmem, rfl⟩)

/-- Setups that end up in the same places are folded alike. -/
theorem alike_of_perm {setups setups' : List Operation}
    (hplaced : (demand classes op).place [] false setups = some placed)
    (hplaced' : (demand classes op).place [] false setups' = some placed')
    (hperm : placed.Perm placed') :
    Alike (placed.foldl (enter classes registry) ⟨[], none, []⟩)
      (placed'.foldl (enter classes registry) ⟨[], none, []⟩) where
  receiver := by
    by_cases hnone : ∃ setup, (setup, none) ∈ placed
    · obtain ⟨setup, hmem⟩ := hnone
      obtain ⟨before, after, hsplit⟩ := List.append_of_mem hmem
      obtain ⟨before', after', hsplit'⟩ := List.append_of_mem (hperm.mem_iff.mp hmem)
      have hone := (Demand.place_outside hplaced).2 before setup after hsplit
      have hone' := (Demand.place_outside hplaced').2 before' setup after' hsplit'
      rw [hsplit, hsplit', receiver_present fun other hmem => hone other
        (List.mem_append_right _ hmem), receiver_present fun other hmem => hone' other
        (List.mem_append_right _ hmem)]
    · have habsent : ∀ setup, (setup, none) ∉ placed := fun setup hmem => hnone ⟨setup, hmem⟩
      have habsent' : ∀ setup, (setup, none) ∉ placed' := fun setup hmem =>
        habsent setup (hperm.mem_iff.mpr hmem)
      rw [receiver_absent habsent, receiver_absent habsent']
  injected := by
    intro name
    by_cases hsome : ∃ setup, (setup, some name) ∈ placed
    · obtain ⟨setup, hmem⟩ := hsome
      obtain ⟨before, after, hsplit⟩ := List.append_of_mem hmem
      obtain ⟨before', after', hsplit'⟩ := List.append_of_mem (hperm.mem_iff.mp hmem)
      have hslots := (Demand.place_slots hplaced).2
      have hslots' := (Demand.place_slots hplaced').2
      rw [hsplit] at hslots
      rw [hsplit'] at hslots'
      rw [hsplit, hsplit', injected_present (placed_unique hslots),
        injected_present (placed_unique hslots')]
    · have habsent : ∀ setup, (setup, some name) ∉ placed := fun setup hmem => hsome ⟨setup, hmem⟩
      have habsent' : ∀ setup, (setup, some name) ∉ placed' := fun setup hmem =>
        habsent setup (hperm.mem_iff.mpr hmem)
      rw [injected_absent habsent, injected_absent habsent']
  setups := by
    rw [setups_entered, setups_entered]
    exact List.Perm.append_left _ (hperm.map _)

/-- The rest of the fold depends on the receiver and on the inputs of filled parameters. -/
theorem finishFold_alike {folding' : Folding} (h : Alike folding folding') :
    Agree (finishFold classes registry op folding) (finishFold classes registry op folding') := by
  have hinputs : foldedInputs classes registry op folding =
      foldedInputs classes registry op folding' := by
    unfold foldedInputs
    rw [h.receiver]
    simp only [h.injected]
  unfold finishFold
  rw [h.receiver, hinputs]
  by_cases hmissing : (op.isMethod && folding'.receiver.isNone) = true
  · rw [if_pos hmissing, if_pos hmissing]
    trivial
  · rw [if_neg hmissing, if_neg hmissing]
    cases foldedInputs classes registry op folding' with
    | error error => trivial
    | ok inputs =>
      dsimp only
      cases duplicateName [] inputs with
      | some duplicate => trivial
      | none =>
        refine ⟨rfl, (sortBy_perm _ _).trans (h.setups.trans (sortBy_perm _ _).symm)⟩

theorem empty_sets (name : String) :
    name ∈ ([] : List String) ↔ contains ([] : List (String × List Field)) name = true :=
  ⟨fun h => (by cases h), fun h => (by cases h)⟩

/-- A fold fails before it finishes, or it finishes with all setups in their places. -/
theorem foldWith_cases (setups : List Operation) :
    (∃ error, foldWith classes registry op setups = .error error ∧
      ¬ ((∃ placed, (demand classes op).place [] false setups = some placed) ∧ ∀ setup ∈ setups,
        parameterFields classes registry setup = .ok (fieldsOf classes registry setup))) ∨
    ∃ placed, (demand classes op).place [] false setups = some placed ∧
      (∀ setup ∈ setups,
        parameterFields classes registry setup = .ok (fieldsOf classes registry setup)) ∧
      foldWith classes registry op setups = finishFold classes registry op
        (placed.foldl (enter classes registry) ⟨[], none, []⟩) := by
  have hiff := fun folding' => @foldSetups_ok_iff classes registry op [] ⟨[], none, []⟩ folding'
    empty_sets setups
  unfold foldWith
  cases hfold : foldSetups classes registry op ⟨[], none, []⟩ setups with
  | error error =>
    refine .inl ⟨error, rfl, fun ⟨⟨placed, hplaced⟩, hfields⟩ => ?_⟩
    have hok := (hiff _).mpr ⟨placed, hplaced, hfields, rfl⟩
    rw [hfold] at hok
    cases hok
  | ok folding =>
    obtain ⟨placed, hplaced, hfields, hfolding⟩ := (hiff folding).mp hfold
    refine .inr ⟨placed, hplaced, hfields, ?_⟩
    rw [hfolding]

/-- Setups that end up in the same places have the same fold. -/
theorem foldWith_agree {setups setups' : List Operation} (hperm : setups.Perm setups')
    (h : Same ((demand classes op).place [] false setups)
      ((demand classes op).place [] false setups')) :
    Agree (foldWith classes registry op setups) (foldWith classes registry op setups') := by
  rcases @foldWith_cases classes registry op setups with
    ⟨error, hfold, hnot⟩ | ⟨placed, hplaced, hfields, hfold⟩
  · rcases @foldWith_cases classes registry op setups' with
      ⟨error', hfold', -⟩ | ⟨placed', hplaced', hfields', hfold'⟩
    · rw [hfold, hfold']
      trivial
    · refine absurd ⟨?_, fun setup hmem => hfields' setup (hperm.mem_iff.mp hmem)⟩ hnot
      rw [hplaced'] at h
      cases hplaced : (demand classes op).place [] false setups with
      | none =>
        rw [hplaced] at h
        exact h.elim
      | some placed => exact ⟨placed, rfl⟩
  · rcases @foldWith_cases classes registry op setups' with
      ⟨error', hfold', hnot⟩ | ⟨placed', hplaced', hfields', hfold'⟩
    · refine absurd ⟨?_, fun setup hmem => hfields setup (hperm.mem_iff.mpr hmem)⟩ hnot
      rw [hplaced] at h
      cases hplaced' : (demand classes op).place [] false setups' with
      | none =>
        rw [hplaced'] at h
        exact h.elim
      | some placed' => exact ⟨placed', rfl⟩
    · rw [hplaced, hplaced'] at h
      rw [hfold, hfold']
      exact finishFold_alike (alike_of_perm hplaced hplaced' h)

theorem Agree.symm {left right : Except String FoldedOperation} (h : Agree left right) :
    Agree right left := by
  cases left <;> cases right
  · trivial
  · exact h
  · exact h
  · exact ⟨h.1.symm, h.2.symm⟩

theorem Agree.trans {left middle right : Except String FoldedOperation} (h : Agree left middle)
    (h' : Agree middle right) : Agree left right := by
  cases left <;> cases middle <;> cases right
  · trivial
  · exact h'
  · exact h.elim
  · exact h.elim
  · exact h.elim
  · exact h.elim
  · exact h'
  · exact ⟨h.1.trans h'.1, h.2.trans h'.2⟩

/-- The place of a setup, read back from its contribution. -/
def placeOf (folded : FoldedSetup) : Operation × Option String :=
  (folded.producer, if folded.fills = "" then none else some folded.fills)

theorem placeOf_foldedSetup (hnames : ∀ parameter ∈ op.params, parameter.name ≠ "")
    {setups : List Operation} (hplaced : (demand classes op).place [] false setups = some placed) :
    (placed.map (foldedSetup classes registry)).map placeOf = placed := by
  have hfits : ∀ setup, ∀ name ∈ (demand classes op).fits setup,
      name ∈ (demand classes op).slots := by
    intro setup name hname
    obtain ⟨parameter, hparameter, rfl⟩ := List.mem_map.mp hname
    exact List.mem_map_of_mem (List.mem_of_mem_filter hparameter)
  rw [List.map_map]
  refine (List.map_congr_left fun place hplace => ?_).trans (List.map_id placed)
  obtain ⟨setup, target⟩ := place
  cases target with
  | none => exact congrArg (Prod.mk setup) (if_pos rfl)
  | some name =>
    obtain ⟨parameter, hparameter, hname⟩ :=
      List.mem_map.mp (Demand.place_known hfits hplaced setup name hplace)
    have hne : name ≠ "" := fun hempty => hnames parameter hparameter (hname.trans hempty)
    exact congrArg (Prod.mk setup) (if_neg hne)

theorem finishFold_setups {folded : FoldedOperation}
    (h : finishFold classes registry op folding = .ok folded) :
    folded.setups.Perm folding.setups := by
  unfold finishFold at h
  by_cases hmissing : (op.isMethod && folding.receiver.isNone) = true
  · rw [if_pos hmissing] at h
    cases h
  · rw [if_neg hmissing] at h
    cases hinputs : foldedInputs classes registry op folding with
    | error error =>
      rw [hinputs] at h
      cases h
    | ok inputs =>
      rw [hinputs] at h
      dsimp only at h
      cases hduplicate : duplicateName [] inputs with
      | some duplicate =>
        rw [hduplicate] at h
        cases h
      | none =>
        rw [hduplicate] at h
        obtain rfl := Except.ok.inj h
        exact sortBy_perm _ _

/-- A fold that succeeds shows where the setups ended up. -/
theorem foldWith_ok (hnames : ∀ parameter ∈ op.params, parameter.name ≠ "")
    {setups : List Operation} {folded : FoldedOperation}
    (h : foldWith classes registry op setups = .ok folded) :
    ∃ placed, (demand classes op).place [] false setups = some placed ∧
      (folded.setups.map placeOf).Perm placed := by
  rcases @foldWith_cases classes registry op setups with
    ⟨error, hfold, -⟩ | ⟨placed, hplaced, -, hfold⟩
  · rw [h] at hfold
    cases hfold
  · rw [h] at hfold
    refine ⟨placed, hplaced, ?_⟩
    have hsetups := finishFold_setups hfold.symm
    rw [setups_entered, List.nil_append] at hsetups
    exact (hsetups.map placeOf).trans (List.Perm.of_eq (placeOf_foldedSetup hnames hplaced))

/-- Where some order folds, all orders agree only if the setups are independent. -/
theorem independent_of_agree (hnames : ∀ parameter ∈ op.params, parameter.name ≠ "")
    {setups : List Operation} (h : ∀ other, other.Perm setups →
      Agree (foldWith classes registry op other) (foldWith classes registry op setups))
    {order : List Operation} (horder : order.Perm setups) {folded : FoldedOperation}
    (hfolded : foldWith classes registry op order = .ok folded) :
    (demand classes op).Independent setups := by
  have hall : ∀ other, other.Perm setups → ∃ folded,
      foldWith classes registry op other = .ok folded := by
    intro other hother
    have hagree := (h other hother).trans (h order horder).symm
    rw [hfolded] at hagree
    cases hfold : foldWith classes registry op other with
    | error error =>
      rw [hfold] at hagree
      exact hagree.elim
    | ok result => exact ⟨result, rfl⟩
  have horderFree : (demand classes op).OrderFree setups := by
    intro other hother
    obtain ⟨left, hleft⟩ := hall other hother
    obtain ⟨right, hright⟩ := hall setups (List.Perm.refl setups)
    have hagree := h other hother
    rw [hleft, hright] at hagree
    obtain ⟨placed, hplaced, hperm⟩ := foldWith_ok hnames hleft
    obtain ⟨placed', hplaced', hperm'⟩ := foldWith_ok hnames hright
    rw [hplaced, hplaced']
    exact hperm.symm.trans ((hagree.2.map placeOf).trans hperm')
  rcases Demand.orderFree_iff.mp horderFree with hindependent | hnever
  · exact hindependent
  · obtain ⟨placed, hplaced, -⟩ := foldWith_ok hnames hfolded
    exact absurd (Demand.placeable_iff.mpr ⟨order, horder, by rw [hplaced]; rfl⟩) hnever

/-- Independent setups, and setups that fit in no order, are folded the same in every order. -/
theorem agree_of_orderFree {setups : List Operation}
    (h : (demand classes op).Independent setups ∨ ¬ (demand classes op).Placeable setups)
    {other : List Operation} (hother : other.Perm setups) :
    Agree (foldWith classes registry op other) (foldWith classes registry op setups) :=
  foldWith_agree hother (Demand.orderFree_iff.mpr h other hother)

end Orders

/-- Folding does not depend on the order of the links where no setup without a parameter name
competes with another setup for a parameter, and where no order places all setups. Elsewhere
it does: in the capture runtime, and in discovery as far as any order can be folded. -/
theorem folding_order_free (classes : CharClasses) :
    (∀ (componentId operationName : String) (operation : RegistryDocuments.OpMeta)
      (setups : List RegistryDocuments.OpMeta),
      (∀ other, other.Perm setups → DeclaredSetups.Agree other setups
        (DeclaredSetups.planDeclaredSetups classes componentId operationName operation other)
        (DeclaredSetups.planDeclaredSetups classes componentId operationName operation setups)) ↔
      (DeclaredSetups.demand classes operation).Independent setups ∨
        ¬ (DeclaredSetups.demand classes operation).Placeable setups) ∧
    ∀ (registry : Registry) (op : Operation) (setups : List Operation),
      ((demand classes op).Independent setups ∨ ¬ (demand classes op).Placeable setups →
        ∀ other, other.Perm setups →
          Agree (foldWith classes registry op other) (foldWith classes registry op setups)) ∧
      ((∀ parameter ∈ op.params, parameter.name ≠ "") →
        (∀ other, other.Perm setups →
          Agree (foldWith classes registry op other) (foldWith classes registry op setups)) →
        (∃ order folded, order.Perm setups ∧ foldWith classes registry op order = .ok folded) →
          (demand classes op).Independent setups) := by
  refine ⟨fun componentId operationName operation setups => DeclaredSetups.plan_orderFree_iff, ?_⟩
  intro registry op setups
  refine ⟨fun h other hother => agree_of_orderFree h hother, fun hnames hagree => ?_⟩
  intro ⟨order, folded, horder, hfolded⟩
  exact independent_of_agree hnames hagree horder hfolded

/-! ### A named and an inferred setup -/

def seedField (name : String) : Field := ⟨name, "Seed"⟩

def seedSetup (fnName fills : String) : Operation where
  name := "fold"
  modulePath := "fixture::folding"
  fnName := fnName
  typeArguments := []
  replayOutput := none
  testTarget := none
  isSetup := true
  isAsync := false
  isMethod := false
  consumesReceiver := false
  explicitComponent := true
  isPublic := true
  returnType := "Seed"
  fills := fills
  params := []
  component := "fixture.folding"
  csClass := none
  csMethodOf := none
  csMethod := none
  csIsStatic := none
  csReturn := none
  csParams := []
  csExceptions := .unspecified

def seedOperation : Operation :=
  { seedSetup "fold" "" with isSetup := false, params := [seedField "left", seedField "right"] }

def linkedField (name : String) : RegistryDocuments.FieldMeta := ⟨name, "Seed"⟩

def linkedSetup (fnName : String) (fills : Option String) : RegistryDocuments.OpMeta where
  name := "fold"
  modulePath := "fixture::folding"
  fnName := fnName
  isSetup := true
  isAsync := false
  isMethod := false
  consumesReceiver := false
  explicitComponent := true
  isPublic := true
  params := []
  returnType := "Seed"
  fills := fills
  component := "fixture.folding"
  typeArguments := none
  replaySetup := none

def linkedOperation : RegistryDocuments.OpMeta :=
  { linkedSetup "fold" none with
    isSetup := false, params := [linkedField "left", linkedField "right"] }

/-- Two parameters of one type, one of them named by a setup and the other left to inference:
the setups fold in that order, and in the other order the inference is ambiguous. -/
theorem named_setup_must_come_first :
    (¬ ∀ (classes : CharClasses) (componentId operationName : String)
      (operation : RegistryDocuments.OpMeta) (setups other : List RegistryDocuments.OpMeta),
      other.Perm setups → DeclaredSetups.Agree other setups
        (DeclaredSetups.planDeclaredSetups classes componentId operationName operation other)
        (DeclaredSetups.planDeclaredSetups classes componentId operationName operation setups)) ∧
    ¬ ∀ (classes : CharClasses) (registry : Registry) (op : Operation)
      (setups other : List Operation), other.Perm setups →
        Agree (foldWith classes registry op other) (foldWith classes registry op setups) := by
  constructor
  · intro h
    have hagree := h .ascii "fixture.folding" "fold" linkedOperation
      [linkedSetup "make_left" (some "left"), linkedSetup "make_seed" none]
      [linkedSetup "make_seed" none, linkedSetup "make_left" (some "left")] (List.Perm.swap _ _ _)
    exact hagree
  · intro h
    have hagree := h .ascii ⟨[], []⟩ seedOperation
      [seedSetup "make_left" "left", seedSetup "make_seed" ""]
      [seedSetup "make_seed" "", seedSetup "make_left" "left"] (List.Perm.swap _ _ _)
    exact hagree

end SpecGate.FoldedOperations

import SpecGate.BoundNodes
import SpecGate.SchemaUnion

/-!
The table that is built for a registry. It accounts for every operation that the candidate
declares: an operation is bound, channel by channel, or rejected, and one that is required is
bound. A rejected operation leaves nothing else behind.
-/
namespace SpecGate.BoundOperations

open StepwiseStates RegistryModel StorageBindings BindingDepth BoundNodes SortedAssoc Checked
open DiscoveredSchemas Sorting
open ReplayModel (ReplayType RegistryOp Outcome)
open DecodedValues (typeRef)
open TypeExpressions (CharClasses)

/-! ### Bound channels -/

/-- The payload of an error is bound if it is declared. -/
inductive ErrorBound (B : TypeRef → TypeRef → Nat → Prop) :
    Option ReplayType → Option TypeRef → Option Nat → Prop
  | bare {native} : ErrorBound B none native none
  | payload {type native id} (h : B (typeRef type) native id) :
      ErrorBound B (some type) (some native) (some id)

theorem ErrorBound.mono {B B' : TypeRef → TypeRef → Nat → Prop}
    (hB : ∀ expected actual id, B expected actual id → B' expected actual id)
    {type : Option ReplayType} {native : Option TypeRef} {payload : Option Nat}
    (h : ErrorBound B type native payload) : ErrorBound B' type native payload := by
  cases h with
  | bare => exact .bare
  | payload h => exact .payload (hB _ _ _ h)

/-- Every channel of the operation is bound to the channel that is declared under its name, and
nothing else is bound. -/
structure Binds (B : TypeRef → TypeRef → Nat → Prop) (operation : RegistryOp)
    (found : DeclaredOperation) (bound : Operation) : Prop where
  component : bound.component = operation.componentId
  name : bound.name = operation.name
  inputs : ∀ name id, lookup bound.inputs name = some id → ∃ type native,
    (name, type) ∈ operation.inputs ∧ found.inputs.lookup name = some native ∧
      B (typeRef type) native id
  allInputs : ∀ input ∈ operation.inputs, input.1 ∈ keys bound.inputs
  result : ErrorBound B operation.output found.result bound.result
  errors : ∀ name payload, lookup bound.errors name = some payload → ∃ error ∈ operation.errors,
    error.name = name ∧ ∃ native, found.errors.lookup name = some native ∧
      ErrorBound B error.valueType native payload
  allErrors : ∀ error ∈ operation.errors, error.name ∈ keys bound.errors

theorem Binds.mono {B B' : TypeRef → TypeRef → Nat → Prop}
    (hB : ∀ expected actual id, B expected actual id → B' expected actual id)
    {operation : RegistryOp} {found : DeclaredOperation} {bound : Operation}
    (h : Binds B operation found bound) : Binds B' operation found bound where
  component := h.component
  name := h.name
  inputs name id hid := by
    obtain ⟨type, native, htype, hnative, hB'⟩ := h.inputs name id hid
    exact ⟨type, native, htype, hnative, hB _ _ _ hB'⟩
  allInputs := h.allInputs
  result := h.result.mono hB
  errors name payload hpayload := by
    obtain ⟨error, herror, hname, native, hnative, hB'⟩ := h.errors name payload hpayload
    exact ⟨error, herror, hname, native, hnative, hB'.mono hB⟩
  allErrors := h.allErrors

section Entries

variable {α β : Type} {named : α → String} {R : α → String × β → Prop} {values : List α}
  {entries : List (String × β)}

/-- A map of named entries has what the last value of a name gave. -/
theorem exists_of_lookup (h : List.Forall₂ (fun value entry => entry.1 = named value ∧
    R value entry) values entries) {name : String} {found : β}
    (hfound : lookup (ofList entries) name = some found) :
    ∃ value ∈ values, named value = name ∧ R value (name, found) := by
  obtain ⟨value, hvalue, hname, hR⟩ :=
    exists_left_of_forall₂ h (mem_of_mem_ofList (SortedAssoc.mem_of_lookup hfound))
  exact ⟨value, hvalue, hname.symm, hR⟩

theorem mem_keys_of_forall₂ (h : List.Forall₂ (fun value entry => entry.1 = named value ∧
    R value entry) values entries) :
    ∀ value ∈ values, named value ∈ keys (ofList entries) := by
  intro value hvalue
  obtain ⟨entry, hentry, hname, -⟩ := exists_right_of_forall₂ h hvalue
  exact mem_keys_ofList.mpr (hname ▸ mem_keys_of_mem hentry)

end Entries

section Building

variable {display : TypeRef → String} {reference candidate : List Declarations}

theorem adds_bindChannel (fuel : Nat) (expected : ReplayType) (actual : Option TypeRef)
    (component location : String) :
    Adds reference candidate (fun id builder => ∃ native, actual = some native ∧
        Visited builder component (typeRef expected) native id)
      (bindChannel display reference candidate fuel expected actual component location) := by
  cases actual with
  | none =>
    refine achieves_bind Grows.trans (P := fun _ _ => True) (fun _ _ _ _ h => h)
      (achieves_imp (adds_pushNode _) fun _ _ _ => trivial) fun _ => ?_
    exact achieves_mapError _ (adds_mismatch _ _ _)
  | some native =>
    exact achieves_imp ((adds_calls fuel).1 _ _ _ _) fun id builder h => ⟨native, rfl, h⟩

theorem adds_lift {α : Type} (checked : Except String α) :
    Adds reference candidate (fun _ _ => True) (lift checked) := by
  cases checked with
  | ok value => exact achieves_pure Grows.refl fun _ => trivial
  | error diagnostic => exact achieves_throw _

theorem adds_boundOperation (fuel : Nat) (operation : RegistryOp) (schema : Schema) :
    Adds reference candidate (fun bound builder => ∃ found,
        operationMember candidate operation.componentId operation.name = some found ∧
        Binds (Visited builder operation.componentId) operation found bound)
      (boundOperation display reference candidate fuel operation schema) := by
  unfold boundOperation
  refine adds_needed fun found hfound => ?_
  refine achieves_bind Grows.trans (P := fun _ _ => True) (fun _ _ _ _ h => h) ?_ fun _ => ?_
  · split
    · exact achieves_pure Grows.refl fun _ => trivial
    · exact achieves_throw _
  refine achieves_bind Grows.trans (fun _ _ _ _ h => h) (adds_lift _) fun _ => ?_
  refine achieves_bind Grows.trans (fun _ _ _ _ h => h) (adds_lift _) fun _ => ?_
  refine achieves_bind (P := fun entries builder => List.Forall₂
      (fun (input : ReplayModel.RegistryInput) (entry : String × Nat) => entry.1 = input.1 ∧ ∃ native,
        found.inputs.lookup input.1 = some native ∧
          Visited builder operation.componentId (typeRef input.2) native entry.2)
      operation.inputs entries) Grows.trans ?_ ?_ fun inputs => ?_
  · intro entries before after hgrows h
    refine h.imp ?_
    rintro input entry ⟨hname, native, hnative, hid⟩
    exact ⟨hname, native, hnative, hgrows.kept _ _ _ _ hid⟩
  · refine achieves_mapM (Q := fun (input : ReplayModel.RegistryInput) (entry : String × Nat) builder =>
      entry.1 = input.1 ∧ ∃ native, found.inputs.lookup input.1 = some native ∧
        Visited builder operation.componentId (typeRef input.2) native entry.2)
      Grows.refl Grows.trans ?_ fun input hinput => ?_
    · rintro input entry before after hgrows ⟨hname, native, hnative, hid⟩
      exact ⟨hname, native, hnative, hgrows.kept _ _ _ _ hid⟩
    · refine adds_needed fun native hnative => achieves_return (adds_bindChannel _ _ _ _ _) ?_
      rintro id builder ⟨native', hsame, hid⟩
      cases hsame
      exact ⟨rfl, native, hnative, hid⟩
  refine achieves_bind (P := fun result builder =>
      ErrorBound (Visited builder operation.componentId) operation.output found.result result)
    Grows.trans (fun result before after hgrows h => h.mono fun _ _ _ hid => hgrows.kept _ _ _ _ hid)
    ?_ fun result => ?_
  · split
    · rename_i houtput
      rw [houtput]
      exact achieves_pure Grows.refl fun _ => .bare
    · rename_i type houtput
      rw [houtput, map_eq_pure_bind]
      refine achieves_return (adds_bindChannel _ _ _ _ _) ?_
      rintro id builder ⟨native, hnative, hid⟩
      rw [hnative]
      exact .payload hid
  refine achieves_return (achieves_mapM (Q := fun (error : Outcome) (entry : String × Option Nat)
      builder => entry.1 = error.name ∧ ∃ native, found.errors.lookup error.name = some native ∧
        ErrorBound (Visited builder operation.componentId) error.valueType native entry.2)
    Grows.refl Grows.trans ?_ fun error herror => ?_) ?_
  · rintro error entry before after hgrows ⟨hname, native, hnative, h⟩
    exact ⟨hname, native, hnative, h.mono fun _ _ _ hid => hgrows.kept _ _ _ _ hid⟩
  · refine adds_needed fun native hnative => ?_
    split
    · rename_i htype
      exact achieves_pure Grows.refl fun _ => ⟨rfl, native, hnative, htype ▸ .bare⟩
    · rename_i type htype
      refine achieves_return (adds_bindChannel _ _ _ _ _) ?_
      rintro id builder ⟨native', hsame, hid⟩
      rw [htype]
      exact ⟨rfl, native, hnative, hsame ▸ .payload hid⟩
  · intro errors builder herrors hresult hinputs _ _ _
    refine ⟨found, hfound, rfl, rfl, ?_, mem_keys_of_forall₂ hinputs, hresult, ?_,
      mem_keys_of_forall₂ herrors⟩
    · intro name id hid
      obtain ⟨⟨_, type⟩, hmem, rfl, native, hnative, hvisited⟩ := exists_of_lookup hinputs hid
      exact ⟨type, native, hmem, hnative, hvisited⟩
    · intro name payload hpayload
      obtain ⟨error, hmem, rfl, native, hnative, h⟩ := exists_of_lookup herrors hpayload
      exact ⟨error, hmem, rfl, native, hnative, h⟩

/-! ### One operation -/

/-- An operation is added to the table with its nodes, or the table that was there is left. -/
theorem operation_ends {operation : RegistryOp} {schema : Schema}
    (hschema : ∀ found, operationMember candidate operation.componentId operation.name = some found →
      ∃ declared ∈ schema.operations, declared.name = operation.name) (bindings : Bindings) :
    (∃ bound after, StorageBindings.operation display reference candidate
          (depth reference candidate operation) operation schema ⟨bindings, []⟩ = .ok () after ∧
        bindings.nodes <+: after.bindings.nodes ∧
        after.bindings.operations = bindings.operations ++ [bound] ∧
        after.bindings.rejections = bindings.rejections ∧ ∃ found,
          operationMember candidate operation.componentId operation.name = some found ∧
          Binds (Realises reference candidate after.bindings.nodes operation.componentId) operation
            found bound) ∨
      ∃ diagnostic after, StorageBindings.operation display reference candidate
          (depth reference candidate operation) operation schema ⟨bindings, []⟩ =
            .error (.error diagnostic) after ∧
        bindings.nodes <+: after.bindings.nodes ∧
        after.bindings.operations = bindings.operations ∧
        after.bindings.rejections = bindings.rejections := by
  have hroom : Room bindings (labels reference candidate operation)
      (labels reference candidate operation).length ⟨bindings, []⟩ :=
    ⟨List.prefix_rfl, rfl, rfl, List.nodup_nil, List.nil_subset _, by simp⟩
  have hheld : Holds (Room bindings (labels reference candidate operation) _) Reported
      (boundOperation display reference candidate (depth reference candidate operation) operation
        schema) := holds_boundOperation hschema
  have hended := hheld _ hroom
  unfold StorageBindings.operation
  rw [StepwiseStates.bind_run]
  revert hended
  cases hrun : boundOperation display reference candidate (depth reference candidate operation)
    operation schema ⟨bindings, []⟩ with
  | error stop after =>
    rintro ⟨hreported, hafter⟩
    cases stop with
    | error diagnostic =>
      exact .inr ⟨diagnostic, after, rfl, hafter.nodes, hafter.operations, hafter.rejections⟩
    | panic message | exhausted => cases hreported
  | ok bound after =>
    intro hafter
    obtain ⟨hgrows, found, hfound, hbinds⟩ := adds_boundOperation _ _ _ _ bound after hrun
    refine .inl ⟨bound, _, rfl, hafter.nodes, ?_, hafter.rejections, found, hfound, ?_⟩
    · show after.bindings.operations ++ [bound] = _
      rw [hafter.operations]
    · exact hbinds.mono fun expected actual id hid => ⟨_, hgrows.closed, hid⟩

end Building

/-! ### What candidates declare -/

section Candidates

variable {classes : CharClasses} {candidate : Candidate}

theorem exists_wireOperation {schema : NormalizedSchemas.Schema}
    {components : List NormalizedSchemas.Component}
    (h : NormalizedSchemas.appendComponents classes schema = .ok components)
    {component : NormalizedSchemas.Component} (hcomponent : component ∈ components)
    {operation : NormalizedSchemas.Operation} (hoperation : operation ∈ component.operations) :
    ∃ declared ∈ schema.operations, declared.name = operation.name := by
  obtain ⟨own, -, h⟩ := bind_eq_ok.mp h
  obtain ⟨names, -, h⟩ := bind_eq_ok.mp h
  obtain ⟨_, -, h⟩ := bind_eq_ok.mp h
  obtain ⟨_, -, h⟩ := bind_eq_ok.mp h
  obtain ⟨first, hfirst, h⟩ := bind_eq_ok.mp h
  obtain ⟨rest, hrest, h⟩ := bind_eq_ok.mp h
  cases h
  rcases List.mem_cons.mp hcomponent with rfl | hcomponent
  · obtain ⟨operations, hoperations, hfirst⟩ := bind_eq_ok.mp hfirst
    obtain ⟨types, -, hfirst⟩ := bind_eq_ok.mp hfirst
    cases hfirst
    obtain ⟨declared, hdeclared, hctsc⟩ :=
      exists_left_of_forall₂ (mapAll_eq_ok.mp hoperations) (mem_sortBy.mp hoperation)
    obtain ⟨inputs, -, hctsc⟩ := bind_eq_ok.mp hctsc
    obtain ⟨result, -, hctsc⟩ := bind_eq_ok.mp hctsc
    obtain ⟨errors, -, hctsc⟩ := bind_eq_ok.mp hctsc
    cases hctsc
    exact ⟨declared, hdeclared, rfl⟩
  · obtain ⟨dependency, -, hdependency⟩ :=
      exists_left_of_forall₂ (mapAll_eq_ok.mp hrest) hcomponent
    obtain ⟨types, -, hdependency⟩ := bind_eq_ok.mp hdependency
    cases hdependency
    cases hoperation

/-- An operation of an encoded schema has its name from the schema. -/
theorem exists_declared {schema : Schema} {declarations : List Declarations}
    (h : encodedDeclarations classes schema = .ok declarations) {component name : String}
    {found : DeclaredOperation} (hfound : operationMember declarations component name = some found) :
    ∃ declared ∈ schema.operations, declared.name = name := by
  obtain ⟨entry, hentry, hfound⟩ := Option.bind_eq_some_iff.mp hfound
  obtain ⟨wire, hwire, h⟩ := bind_eq_ok.mp h
  obtain ⟨components, hcomponents, h⟩ := bind_eq_ok.mp h
  have hactual : declarations = components.map Declarations.ofComponent := by
    dsimp only at h
    split at h
    · cases h
    · split at h <;> cases h
      rfl
  subst hactual
  obtain ⟨component', hcomponent', rfl⟩ := List.mem_map.mp (List.mem_of_find?_eq_some hentry)
  have hname : found.name = name := by simpa using List.find?_some hfound
  obtain ⟨operation, hoperation, rfl⟩ := List.mem_map.mp (List.mem_of_find?_eq_some hfound)
  cases hschema : schema.wire with
  | none => rw [hschema] at hwire; cases hwire
  | some wire' =>
    rw [hschema] at hwire
    cases hwire
    have happended : ∃ appended, NormalizedSchemas.appendComponents classes wire = .ok appended ∧
        component' ∈ appended := by
      revert hcomponents
      cases NormalizedSchemas.appendComponents classes wire with
      | error error => exact fun h => by cases h
      | ok appended =>
        intro h
        cases h
        exact ⟨appended, rfl, mem_sortBy.mp hcomponent'⟩
    obtain ⟨appended, happended, hmem⟩ := happended
    obtain ⟨declared, hdeclared, hsame⟩ := exists_wireOperation happended hmem hoperation
    obtain ⟨types, -, h⟩ := Option.bind_eq_some_iff.mp hschema
    obtain ⟨own, -, h⟩ := Option.bind_eq_some_iff.mp h
    cases h
    obtain ⟨source, hsource, rfl⟩ := List.mem_map.mp hdeclared
    exact ⟨source, hsource, hsame.trans hname⟩

theorem encoded_of_candidateRegistry {component : String} {schema : Schema}
    {actual : List Declarations}
    (h : candidateRegistry classes candidate component = .ok (schema, actual)) :
    encodedDeclarations classes schema = .ok actual := by
  obtain ⟨schema', -, h⟩ := bind_eq_ok.mp h
  obtain ⟨actual', hactual, h⟩ := bind_eq_ok.mp h
  cases h
  exact hactual

end Candidates

/-! ### The whole table -/

section Whole

variable {classes : CharClasses} {display : TypeRef → String} {reference : List Declarations}
  {candidate : Candidate}

/-- The operation is bound to the one that the candidate declares under its name. -/
def Bound (classes : CharClasses) (reference : List Declarations) (candidate : Candidate)
    (nodes : List Node) (operation : RegistryOp) (bound : Operation) : Prop :=
  ∃ schema actual found,
    candidateRegistry classes candidate operation.componentId = .ok (schema, actual) ∧
      operationMember actual operation.componentId operation.name = some found ∧
      Binds (Realises reference actual nodes operation.componentId) operation found bound

theorem Bound.mono {nodes nodes' : List Node} (hfront : nodes <+: nodes') {operation : RegistryOp}
    {bound : Operation} (h : Bound classes reference candidate nodes operation bound) :
    Bound classes reference candidate nodes' operation bound := by
  obtain ⟨schema, actual, found, hactual, hfound, hbinds⟩ := h
  exact ⟨schema, actual, found, hactual, hfound, hbinds.mono fun _ _ _ h => h.mono hfront⟩

/-- The table has one entry for each operation: bound, or rejected if it was not required. -/
structure Accounts (classes : CharClasses) (reference : List Declarations) (candidate : Candidate)
    (entries : List (RegistryOp × Bool)) (bindings : Bindings) : Prop where
  listed : (bindings.operations.map (fun bound => (bound.component, bound.name)) ++
      bindings.rejections.map fun rejection => (rejection.component, rejection.name)).Perm
    (entries.map fun entry => (entry.1.componentId, entry.1.name))
  bound : ∀ bound ∈ bindings.operations, ∃ entry ∈ entries,
    Bound classes reference candidate bindings.nodes entry.1 bound
  required : ∀ entry ∈ entries, entry.2 = true → ∃ bound ∈ bindings.operations,
    Bound classes reference candidate bindings.nodes entry.1 bound
  rejected : ∀ rejection ∈ bindings.rejections, ∃ entry ∈ entries, entry.2 = false ∧
    rejection.component = entry.1.componentId ∧ rejection.name = entry.1.name

theorem accounts_nil : Accounts classes reference candidate [] ⟨[], [], []⟩ :=
  ⟨.refl _, by simp, by simp, by simp⟩

theorem Accounts.perm {entries entries' : List (RegistryOp × Bool)} {bindings : Bindings}
    (h : Accounts classes reference candidate entries bindings) (hperm : entries.Perm entries') :
    Accounts classes reference candidate entries' bindings where
  listed := h.listed.trans (hperm.map _)
  bound bound hbound := by
    obtain ⟨entry, hentry, h⟩ := h.bound bound hbound
    exact ⟨entry, hperm.mem_iff.mp hentry, h⟩
  required entry hentry := h.required entry (hperm.mem_iff.mpr hentry)
  rejected rejection hrejection := by
    obtain ⟨entry, hentry, h⟩ := h.rejected rejection hrejection
    exact ⟨entry, hperm.mem_iff.mp hentry, h⟩

/-- A bound operation is added. -/
theorem Accounts.push {entries : List (RegistryOp × Bool)} {bindings after : Bindings}
    (h : Accounts classes reference candidate entries bindings) {entry : RegistryOp × Bool}
    {bound : Operation} (hnodes : bindings.nodes <+: after.nodes)
    (hoperations : after.operations = bindings.operations ++ [bound])
    (hrejections : after.rejections = bindings.rejections)
    (hcomponent : bound.component = entry.1.componentId) (hname : bound.name = entry.1.name)
    (hbound : Bound classes reference candidate after.nodes entry.1 bound) :
    Accounts classes reference candidate (entries ++ [entry]) after where
  listed := by
    rw [hoperations, hrejections, List.map_append, List.map_append, List.append_assoc]
    refine .trans (List.Perm.append_left _ List.perm_append_comm) ?_
    rw [← List.append_assoc, List.map_singleton, List.map_singleton, hcomponent, hname]
    exact h.listed.append_right _
  bound other hother := by
    rw [hoperations, List.mem_append, List.mem_singleton] at hother
    rcases hother with hother | rfl
    · obtain ⟨found, hfound, hother⟩ := h.bound other hother
      exact ⟨found, List.mem_append_left _ hfound, hother.mono hnodes⟩
    · exact ⟨entry, List.mem_append_right _ List.mem_cons_self, hbound⟩
  required other hother hrequired := by
    rw [List.mem_append, List.mem_singleton] at hother
    rw [hoperations]
    rcases hother with hother | rfl
    · obtain ⟨found, hfound, hother⟩ := h.required other hother hrequired
      exact ⟨found, List.mem_append_left _ hfound, hother.mono hnodes⟩
    · exact ⟨bound, List.mem_append_right _ List.mem_cons_self, hbound⟩
  rejected rejection hrejection := by
    rw [hrejections] at hrejection
    obtain ⟨found, hfound, h⟩ := h.rejected rejection hrejection
    exact ⟨found, List.mem_append_left _ hfound, h⟩

/-- A rejected operation is noted; nothing else changes. -/
theorem Accounts.reject {entries : List (RegistryOp × Bool)} {bindings : Bindings}
    (h : Accounts classes reference candidate entries bindings) {entry : RegistryOp × Bool}
    (hrequired : entry.2 = false) (diagnostic : String) :
    Accounts classes reference candidate (entries ++ [entry])
      (reject bindings entry.1.componentId entry.1.name diagnostic) where
  listed := by
    unfold StorageBindings.reject
    rw [List.map_append, List.map_append, ← List.append_assoc]
    exact h.listed.append_right _
  bound other hother := by
    obtain ⟨found, hfound, hother⟩ := h.bound other hother
    exact ⟨found, List.mem_append_left _ hfound, hother⟩
  required other hother hother' := by
    rw [List.mem_append, List.mem_singleton] at hother
    rcases hother with hother | rfl
    · exact h.required other hother hother'
    · rw [hrequired] at hother'
      cases hother'
  rejected rejection hrejection := by
    rcases List.mem_append.mp hrejection with hrejection | hrejection
    · obtain ⟨found, hfound, h⟩ := h.rejected rejection hrejection
      exact ⟨found, List.mem_append_left _ hfound, h⟩
    · rw [List.mem_singleton.mp hrejection]
      exact ⟨entry, List.mem_append_right _ List.mem_cons_self, hrequired, rfl, rfl⟩

/-- Building failed with an error of its own, and not on account of unused declarations. -/
def Blocked (entries : List (RegistryOp × Bool)) (stop : Stop) : Prop :=
  Reported stop ∧ ∃ entry ∈ entries, entry.2 = true

theorem bindOperation_ends {schema : Schema} {actual : List Declarations}
    {entry : RegistryOp × Bool} {entries all : List (RegistryOp × Bool)} {bindings : Bindings}
    (hactual : candidateRegistry classes candidate entry.1.componentId = .ok (schema, actual))
    (hall : entry ∈ all) (h : Accounts classes reference candidate entries bindings) :
    (∃ next, bindOperation display reference schema actual bindings entry = .ok next ∧
        Accounts classes reference candidate (entries ++ [entry]) next) ∨
      ∃ stop, bindOperation display reference schema actual bindings entry = .error stop ∧
        Blocked all stop := by
  obtain ⟨operation, required⟩ := entry
  have hschema : ∀ found, operationMember actual operation.componentId operation.name = some found →
      ∃ declared ∈ schema.operations, declared.name = operation.name :=
    fun found hfound => exists_declared (encoded_of_candidateRegistry hactual) hfound
  unfold bindOperation
  dsimp only
  rcases operation_ends hschema bindings with
    ⟨bound, after, hrun, hnodes, hoperations, hrejections, found, hfound, hbinds⟩ |
    ⟨diagnostic, after, hrun, hnodes, hoperations, hrejections⟩
  · rw [hrun]
    exact .inl ⟨_, rfl, h.push hnodes hoperations hrejections hbinds.component hbinds.name
      ⟨schema, actual, found, hactual, hfound, hbinds⟩⟩
  · rw [hrun]
    cases required with
    | true => exact .inr ⟨_, rfl, trivial, _, hall, rfl⟩
    | false =>
      have hrestored : (⟨after.bindings.nodes.take bindings.nodes.length, after.bindings.operations,
          after.bindings.rejections⟩ : Bindings) = bindings := by
        rw [← List.prefix_iff_eq_take.mp hnodes, hoperations, hrejections]
      refine .inl ⟨_, rfl, ?_⟩
      have hrejected : Accounts classes reference candidate (entries ++ [(operation, false)])
          (reject bindings operation.componentId operation.name diagnostic) :=
        h.reject rfl diagnostic
      rw [← hrestored] at hrejected
      exact hrejected

theorem foldl_reject {component diagnostic : String} {operations entries : List (RegistryOp × Bool)}
    {bindings : Bindings} (hcomponent : ∀ entry ∈ operations, entry.1.componentId = component)
    (hrequired : ∀ entry ∈ operations, entry.2 = false)
    (h : Accounts classes reference candidate entries bindings) :
    Accounts classes reference candidate (entries ++ operations)
      (operations.foldl (fun bindings entry =>
        reject bindings component entry.1.name diagnostic) bindings) := by
  induction operations generalizing entries bindings with
  | nil => rw [List.append_nil]; exact h
  | cons entry rest ih =>
    rw [List.foldl_cons, ← List.singleton_append, ← List.append_assoc]
    have hfirst := h.reject (hrequired entry List.mem_cons_self) diagnostic
    rw [hcomponent entry List.mem_cons_self] at hfirst
    exact ih (fun other hother => hcomponent other (List.mem_cons_of_mem _ hother))
      (fun other hother => hrequired other (List.mem_cons_of_mem _ hother)) hfirst

theorem bindComponent_ends {group : String × List (RegistryOp × Bool)}
    {entries all : List (RegistryOp × Bool)} {bindings : Bindings}
    (hcomponent : ∀ entry ∈ group.2, entry.1.componentId = group.1) (hall : group.2 ⊆ all)
    (h : Accounts classes reference candidate entries bindings) :
    (∃ next, bindComponent classes display reference candidate bindings group = .ok next ∧
        Accounts classes reference candidate (entries ++ group.2) next) ∨
      ∃ stop, bindComponent classes display reference candidate bindings group = .error stop ∧
        Blocked all stop := by
  unfold bindComponent
  cases hactual : candidateRegistry classes candidate group.1 with
  | ok found =>
    obtain ⟨schema, actual⟩ := found
    refine foldlM_ends (fun done entry state hentry hstate => ?_) h
    refine bindOperation_ends ?_ (hall hentry) hstate
    rw [hcomponent entry hentry, hactual]
  | error diagnostic =>
    dsimp only
    split
    · rename_i hany
      obtain ⟨entry, hentry, hrequired⟩ := List.any_eq_true.mp hany
      exact .inr ⟨_, rfl, trivial, entry, hall hentry, hrequired⟩
    · rename_i hnone
      refine .inl ⟨_, rfl, foldl_reject hcomponent (fun entry hentry => ?_) h⟩
      exact Bool.eq_false_iff.mpr fun hrequired => hnone (List.any_eq_true.mpr ⟨entry, hentry, hrequired⟩)

end Whole

/-! ### Groups -/

section Groups

variable {linked observed : List (String × String)} {candidate : Candidate}

theorem insert_group_of_mem {α : Type} {groups : List (String × List α)} (hsorted : Sorted groups)
    {key : String} (hkey : key ∈ keys groups) (value : α) :
    ((SortedAssoc.insert key ((lookup groups key).getD [] ++ [value]) groups).flatMap Prod.snd).Perm
      (groups.flatMap Prod.snd ++ [value]) := by
  induction groups with
  | nil => cases hkey
  | cons group rest ih =>
    obtain ⟨name, values⟩ := group
    obtain ⟨hfirst, hrest⟩ := sorted_cons.mp hsorted
    rw [SortedAssoc.insert]
    split
    · rename_i hlt
      exfalso
      rcases List.mem_cons.mp hkey with rfl | hkey
      · rw [Std.ReflOrd.compare_self] at hlt
        cases hlt
      · obtain ⟨entry, hentry, rfl⟩ := List.mem_map.mp hkey
        exact Std.OrientedCmp.not_lt_of_lt hlt (hfirst entry hentry)
    · rename_i heq
      obtain rfl := Std.LawfulEqOrd.eq_of_compare heq
      rw [lookup_cons_self, Option.getD_some, List.flatMap_cons, List.flatMap_cons,
        List.append_assoc, List.append_assoc]
      exact List.Perm.append_left _ List.perm_append_comm
    · rename_i hgt
      have hne : name ≠ key := by
        rintro rfl
        rw [Std.ReflOrd.compare_self] at hgt
        cases hgt
      rw [lookup_cons_of_ne hne, List.flatMap_cons, List.flatMap_cons, List.append_assoc]
      exact (ih hrest ((List.mem_cons.mp hkey).resolve_left hne.symm)).append_left _

/-- A value is added to its group, which is there or is made. -/
theorem insert_group {α : Type} {groups : List (String × List α)} (hsorted : Sorted groups)
    (key : String) (value : α) :
    ((SortedAssoc.insert key ((lookup groups key).getD [] ++ [value]) groups).flatMap Prod.snd).Perm
      (groups.flatMap Prod.snd ++ [value]) := by
  by_cases hkey : key ∈ keys groups
  · exact insert_group_of_mem hsorted hkey value
  · rw [lookup_eq_none_iff.mpr hkey, Option.getD_none, List.nil_append]
    exact ((insert_perm_of_not_mem [value] hkey).flatMap_right Prod.snd).trans
      List.perm_append_comm

/-- The operations that the candidate declares, and whether they are required. -/
def declaredEntries (candidate : Candidate) (linked observed : List (String × String))
    (registry : List RegistryOp) : List (RegistryOp × Bool) :=
  (registry.filter fun operation => declares candidate operation.componentId operation.name).map
    fun operation => (operation, linked.contains (operation.componentId, operation.name) ||
      observed.contains (operation.componentId, operation.name))

theorem declaredEntries_append (candidate : Candidate) (linked observed : List (String × String))
    (registry : List RegistryOp) (operation : RegistryOp) :
    declaredEntries candidate linked observed (registry ++ [operation]) =
      declaredEntries candidate linked observed registry ++
        if declares candidate operation.componentId operation.name then
          [(operation, linked.contains (operation.componentId, operation.name) ||
            observed.contains (operation.componentId, operation.name))]
        else [] := by
  unfold declaredEntries
  rw [List.filter_append, List.map_append, List.filter_singleton]
  cases declares candidate operation.componentId operation.name <;> rfl

/-- The declared operations so far, each in the group of its component. -/
structure Grouped (candidate : Candidate) (linked observed : List (String × String))
    (registry : List RegistryOp) (groups : List (String × List (RegistryOp × Bool))) : Prop where
  sorted : Sorted groups
  perm : (groups.flatMap Prod.snd).Perm (declaredEntries candidate linked observed registry)
  component : ∀ group ∈ groups, ∀ entry ∈ group.2, entry.1.componentId = group.1
  linked : ∀ operation ∈ registry, (operation.componentId, operation.name) ∈ linked →
    declares candidate operation.componentId operation.name = true

theorem groupOperation_ends {registry : List RegistryOp} {all : List RegistryOp}
    {groups : List (String × List (RegistryOp × Bool))} {operation : RegistryOp}
    (hall : operation ∈ all) (h : Grouped candidate linked observed registry groups) :
    (∃ next, groupOperation candidate linked observed groups operation = .ok next ∧
        Grouped candidate linked observed (registry ++ [operation]) next) ∨
      ∃ stop, groupOperation candidate linked observed groups operation = .error stop ∧
        Reported stop ∧ ∃ operation ∈ all, (operation.componentId, operation.name) ∈ linked := by
  unfold groupOperation
  dsimp only
  split
  · rename_i hdeclares
    refine .inl ⟨_, rfl, sorted_insert _ _ h.sorted, ?_, ?_, ?_⟩
    · refine (insert_group h.sorted _ _).trans ?_
      rw [declaredEntries_append, if_pos hdeclares]
      exact h.perm.append_right _
    · intro group hgroup entry hentry
      rcases mem_insert_cases hgroup with rfl | hgroup
      · rcases List.mem_append.mp hentry with hentry | hentry
        · cases hfound : lookup groups operation.componentId with
          | none => rw [hfound] at hentry; cases hentry
          | some entries =>
            rw [hfound] at hentry
            exact h.component _ (SortedAssoc.mem_of_lookup hfound) entry hentry
        · rw [List.mem_singleton.mp hentry]
      · exact h.component group hgroup entry hentry
    · intro other hother hlinked
      rcases List.mem_append.mp hother with hother | hother
      · exact h.linked other hother hlinked
      · rw [List.mem_singleton.mp hother]
        exact hdeclares
  · rename_i hdeclares
    split
    · rename_i hlinked
      exact .inr ⟨_, rfl, trivial, operation, hall, List.contains_iff_mem.mp hlinked⟩
    · rename_i hlinked
      refine .inl ⟨_, rfl, h.sorted, ?_, h.component, ?_⟩
      · rw [declaredEntries_append, if_neg hdeclares, List.append_nil]
        exact h.perm
      · intro other hother hmem
        rcases List.mem_append.mp hother with hother | hother
        · exact h.linked other hother hmem
        · rw [List.mem_singleton.mp hother] at hmem
          exact absurd (List.contains_iff_mem.mpr hmem) hlinked

end Groups

section Build

variable {classes : CharClasses} {display : TypeRef → String} {reference : List Declarations}
  {candidate : Candidate}

/-- An operation of the registry that is linked, or that was observed and is declared. -/
def Required (candidate : Candidate) (linked observed : List (String × String))
    (operation : RegistryOp) : Prop :=
  (operation.componentId, operation.name) ∈ linked ∨
    (operation.componentId, operation.name) ∈ observed ∧
      declares candidate operation.componentId operation.name = true

/-- A table that accounts for all declared operations, which every linked one is. -/
def Tabled (classes : CharClasses) (reference : List Declarations) (candidate : Candidate)
    (registry : List RegistryOp) (linked observed : List (String × String)) (bindings : Bindings) :
    Prop :=
  Accounts classes reference candidate (declaredEntries candidate linked observed registry)
    bindings ∧
  ∀ operation ∈ registry, (operation.componentId, operation.name) ∈ linked →
    declares candidate operation.componentId operation.name = true

theorem build_ends (registry : List RegistryOp) (linked observed : List (String × String)) :
    (∃ bindings,
        build classes display reference candidate registry linked observed = .ok bindings ∧
        Tabled classes reference candidate registry linked observed bindings) ∨
      ∃ stop, build classes display reference candidate registry linked observed = .error stop ∧
        Reported stop ∧ ∃ operation ∈ registry, Required candidate linked observed operation := by
  unfold build
  have hgroups : (∃ groups, registry.foldlM (groupOperation candidate linked observed) [] =
          .ok groups ∧ Grouped candidate linked observed ([] ++ registry) groups) ∨
      ∃ stop, registry.foldlM (groupOperation candidate linked observed) [] = .error stop ∧
        Reported stop ∧
          ∃ operation ∈ registry, (operation.componentId, operation.name) ∈ linked :=
    foldlM_ends (fun done operation state hmem h => groupOperation_ends hmem h)
      ⟨sorted_nil, .refl _, by simp, by simp⟩
  rcases hgroups with
    ⟨groups, hgroups, hgrouped⟩ | ⟨stop, hstop, hreported, operation, hmem, hlinked⟩
  · rw [hgroups]
    rw [List.nil_append] at hgrouped
    have htable : (∃ bindings, groups.foldlM (bindComponent classes display reference candidate)
            ⟨[], [], []⟩ = .ok bindings ∧
          Accounts classes reference candidate (([] ++ groups).flatMap Prod.snd) bindings) ∨
        ∃ stop, groups.foldlM (bindComponent classes display reference candidate) ⟨[], [], []⟩ =
          .error stop ∧ Blocked (declaredEntries candidate linked observed registry) stop := by
      refine foldlM_ends (P := fun done bindings =>
        Accounts classes reference candidate (done.flatMap Prod.snd) bindings)
        (fun done group bindings hgroup h => ?_) accounts_nil
      rw [List.flatMap_append, List.flatMap_singleton]
      refine bindComponent_ends (hgrouped.component group hgroup) (fun entry hentry => ?_) h
      exact hgrouped.perm.mem_iff.mp (List.mem_flatMap.mpr ⟨group, hgroup, hentry⟩)
    rcases htable with ⟨bindings, hbindings, haccounts⟩ | ⟨stop, hstop, hreported, entry, hentry, hrequired⟩
    · exact .inl ⟨bindings, hbindings, haccounts.perm hgrouped.perm, hgrouped.linked⟩
    · obtain ⟨operation, hoperation, rfl⟩ := List.mem_map.mp hentry
      obtain ⟨hmem, hdeclares⟩ := List.mem_filter.mp hoperation
      refine .inr ⟨stop, hstop, hreported, operation, hmem, ?_⟩
      rcases Bool.or_eq_true _ _ ▸ hrequired with hlinked | hobserved
      · exact .inl (List.contains_iff_mem.mp hlinked)
      · exact .inr ⟨List.contains_iff_mem.mp hobserved, hdeclares⟩
  · exact .inr ⟨stop, congrArg (· >>= _) hstop, hreported, operation, hmem, .inl hlinked⟩

theorem accounts_of_build {registry : List RegistryOp} {linked observed : List (String × String)}
    {bindings : Bindings}
    (h : build classes display reference candidate registry linked observed = .ok bindings) :
    Accounts classes reference candidate (declaredEntries candidate linked observed registry)
      bindings := by
  rcases build_ends registry linked observed with ⟨found, hfound, haccounts, -⟩ | ⟨stop, hstop, -⟩
  · obtain rfl := Except.ok.inj (h.symm.trans hfound)
    exact haccounts
  · rw [h] at hstop
    cases hstop

/-- Building ends with a table that accounts for all declared operations, or with an error that
is due to an operation that is required. -/
theorem build_accounts (registry : List RegistryOp) (linked observed : List (String × String)) :
    (∃ bindings,
        build classes display reference candidate registry linked observed = .ok bindings ∧
        Tabled classes reference candidate registry linked observed bindings) ∨
      ∃ diagnostic,
        build classes display reference candidate registry linked observed =
          .error (.error diagnostic) ∧
        ∃ operation ∈ registry, Required candidate linked observed operation := by
  rcases build_ends registry linked observed with h | ⟨stop, hstop, hreported, hrequired⟩
  · exact .inl h
  cases stop with
  | error diagnostic => exact .inr ⟨diagnostic, hstop, hrequired⟩
  | panic message | exhausted => cases hreported

end Build

end SpecGate.BoundOperations

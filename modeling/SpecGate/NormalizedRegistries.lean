import SpecGate.DiscoveredSchemas

/-!
What normalization promises of a component's schema. The operations are the public operations of
the component, each once and in order, and no setup is left without one; inputs and variants are
told apart by their names; no type is dynamic, and the dependencies pass the encoder's check. The
order in which operations are linked is nowhere to be seen.
-/
namespace SpecGate.NormalizedRegistries

open Checked SortedAssoc Sorting DiscoveredRegistries TypeExpressions FoldedOperations RustTypes
open OutcomeChannels ComponentClosure QualifiedNames DiscoveredSchemas
open Relation (ReflTransGen)

/-! ### The checks -/

section Checks

variable {classes : CharClasses} {registry : Registry} {component : String} {schema : Schema}

theorem mem_operationsFor {op : Operation} : op ∈ operationsFor registry component ↔
    op ∈ registry.ops ∧ op.isSetup = false ∧ op.component = component := by
  rw [operationsFor, mem_sortBy, List.mem_filter, Bool.and_eq_true, Bool.not_eq_true', beq_iff_eq]

theorem nodup_of_distinct {names : List String}
    (h : (distinct names).find? (fun name => decide (1 < names.count name)) = none) :
    names.Nodup := by
  rw [List.nodup_iff_count_le_one]
  intro name
  by_cases hmem : name ∈ names
  · have hcount := List.find?_eq_none.mp h name (mem_distinct.mpr hmem)
    rw [decide_eq_true_iff] at hcount
    omega
  · rw [List.count_eq_zero_of_not_mem hmem]
    exact Nat.zero_le 1

theorem find?_repeated_eq_none {names : List String} :
    (distinct names).find? (fun name => decide (1 < names.count name)) = none ↔ names.Nodup := by
  refine ⟨nodup_of_distinct, fun h => List.find?_eq_none.mpr fun name _ => ?_⟩
  rw [decide_eq_true_iff]
  have hcount := List.nodup_iff_count_le_one.mp h name
  omega

theorem orphans_eq_nil {names : List String} : orphans registry component names = [] ↔
    ∀ setup ∈ registry.ops, setup.isSetup = true → setup.component = component →
      setup.name ∈ names := by
  rw [orphans, List.filter_eq_nil_iff]
  refine forall₂_congr fun setup _ => ?_
  rw [Bool.and_eq_true, Bool.and_eq_true, Bool.not_eq_true', beq_iff_eq]
  constructor
  · intro h his hcomponent
    by_contra hmissing
    exact h ⟨⟨his, hcomponent⟩, Bool.eq_false_iff.mpr fun hmem =>
      hmissing (List.contains_iff_mem.mp hmem)⟩
  · rintro h ⟨⟨his, hcomponent⟩, hmissing⟩
    rw [List.contains_iff_mem.mpr (h his hcomponent)] at hmissing
    cases hmissing

/-- The surface is sound: every operation once and public, every setup with its operation. -/
theorem validateSurface_eq_ok : validateSurface registry component = .ok () ↔
    ((operationsFor registry component).map Operation.name).Nodup ∧
      (∀ op ∈ operationsFor registry component, op.isPublic = true) ∧
      ∀ setup ∈ registry.ops, setup.isSetup = true → setup.component = component →
        setup.name ∈ (operationsFor registry component).map Operation.name := by
  rw [← find?_repeated_eq_none, ← orphans_eq_nil]
  unfold validateSurface
  dsimp only
  cases hrepeated : (distinct ((operationsFor registry component).map Operation.name)).find?
      fun name => decide (1 < ((operationsFor registry component).map Operation.name).count name) with
  | some name => exact iff_of_false (fun h => by cases h) fun h => by cases h.1
  | none =>
    rw [and_iff_right rfl]
    dsimp only
    cases hprivate : (operationsFor registry component).find? fun op => !op.isPublic with
    | some op =>
      refine iff_of_false (fun h => by cases h) fun h => ?_
      have hpublic := h.1 op (List.mem_of_find?_eq_some hprivate)
      have hfound := List.find?_some hprivate
      rw [hpublic] at hfound
      cases hfound
    | none =>
      have hall : ∀ op ∈ operationsFor registry component, op.isPublic = true := fun op hop => by
        simpa using List.find?_eq_none.mp hprivate op hop
      rw [and_iff_right hall]
      dsimp only
      have hempty : (sortBy (fun op => (op.name, op.fnName)) (orphans registry component
          ((operationsFor registry component).map Operation.name))).head? = none ↔
            orphans registry component ((operationsFor registry component).map Operation.name) = [] := by
        rw [List.head?_eq_none_iff]
        exact ⟨fun h => List.nil_perm.mp (h ▸ sortBy_perm _ _), fun h => by rw [h]; rfl⟩
      rw [← hempty]
      cases (sortBy (fun op => (op.name, op.fnName)) (orphans registry component
        ((operationsFor registry component).map Operation.name))).head? with
      | some orphan => exact iff_of_false (fun h => by cases h) (fun h => by cases h)
      | none => exact iff_of_true rfl rfl

theorem repeatedName_eq_none {seen names : List String} (h : repeatedName seen names = none) :
    names.Nodup ∧ ∀ name ∈ names, name ∉ seen := by
  induction names generalizing seen with
  | nil => exact ⟨List.nodup_nil, fun _ h => absurd h List.not_mem_nil⟩
  | cons name rest ih =>
    unfold repeatedName at h
    split_ifs at h with hseen
    obtain ⟨hnodup, hnew⟩ := ih h
    refine ⟨List.nodup_cons.mpr ⟨fun hmem => hnew name hmem List.mem_cons_self, hnodup⟩, ?_⟩
    rw [List.forall_mem_cons]
    exact ⟨hseen, fun other hother hold => hnew other hother (List.mem_cons_of_mem _ hold)⟩

theorem duplicateName_eq_none {seen : List String} {fields : List Field}
    (h : duplicateName seen fields = none) :
    (fields.map Field.name).Nodup ∧ ∀ field ∈ fields, field.name ∉ seen := by
  induction fields generalizing seen with
  | nil => exact ⟨List.nodup_nil, fun _ h => absurd h List.not_mem_nil⟩
  | cons field rest ih =>
    unfold duplicateName at h
    split_ifs at h with hseen
    obtain ⟨hnodup, hnew⟩ := ih h
    refine ⟨List.nodup_cons.mpr ⟨fun hmem => ?_, hnodup⟩, ?_⟩
    · obtain ⟨other, hother, hname⟩ := List.mem_map.mp hmem
      exact hnew other hother (hname ▸ List.mem_cons_self)
    · rw [List.forall_mem_cons]
      exact ⟨hseen, fun other hother hold => hnew other hother (List.mem_cons_of_mem _ hold)⟩

theorem rejectAmbiguousVariants_ok (h : rejectAmbiguousVariants schema = .ok ()) :
    ∀ declared ∈ schema.types ++ schema.dependencyTypes.flatMap Dependency.types,
      (declared.variants.map Variant.name).Nodup := by
  intro declared hdeclared
  have hone := forM_eq_ok.mp h declared hdeclared
  cases hrepeated : repeatedName [] (declared.variants.map Variant.name) with
  | some name =>
    rw [hrepeated] at hone
    cases hone
  | none => exact (repeatedName_eq_none hrepeated).1

/-- The inputs of a folded operation are told apart by their names. -/
theorem foldOperation_nodup {op : Operation} {folded : FoldedOperation}
    (h : foldOperation classes registry op = .ok folded) : (folded.inputs.map Field.name).Nodup := by
  unfold foldOperation foldWith at h
  cases hfold : foldSetups classes registry op ⟨[], none, []⟩
      (setupsFor registry op.component op.name) with
  | error error =>
    rw [hfold] at h
    cases h
  | ok folding =>
    rw [hfold] at h
    dsimp only [finishFold] at h
    split_ifs at h
    cases hinputs : foldedInputs classes registry op folding with
    | error error =>
      rw [hinputs] at h
      cases h
    | ok inputs =>
      rw [hinputs] at h
      dsimp only at h
      cases hduplicate : duplicateName [] inputs with
      | some duplicate =>
        rw [hduplicate] at h
        cases h
      | none =>
        rw [hduplicate] at h
        obtain rfl := Except.ok.inj h
        exact (duplicateName_eq_none hduplicate).1

variable {typeSyntax : TypeSyntax} {qualifier : Qualifier}

theorem mapFields_names {fields results : List Field}
    (h : mapAll (mapField classes typeSyntax qualifier) fields = .ok results) :
    results.map Field.name = fields.map Field.name := by
  have hpaired := mapAll_eq_ok.mp h
  rw [eq_comm, ← List.forall₂_eq_eq_eq, List.forall₂_map_left_iff, List.forall₂_map_right_iff]
  refine hpaired.imp ?_
  intro field result hresult
  obtain ⟨ty, -, hresult⟩ := bind_eq_ok.mp hresult
  rw [← Except.ok.inj hresult]

theorem mapOperation_ok {op : Operation} {operation : SchemaOperation}
    (h : mapOperation classes registry typeSyntax qualifier op = .ok operation) :
    operation.name = op.name ∧ (operation.inputs.map Field.name).Nodup := by
  obtain ⟨folded, hfolded, h⟩ := bind_eq_ok.mp h
  obtain ⟨outcome, -, h⟩ := bind_eq_ok.mp h
  obtain ⟨inputs, hinputs, h⟩ := bind_eq_ok.mp h
  obtain ⟨setups, -, h⟩ := bind_eq_ok.mp h
  obtain rfl := Except.ok.inj h
  refine ⟨rfl, ?_⟩
  dsimp only
  rw [mapFields_names hinputs]
  exact foldOperation_nodup hfolded

end Checks

/-! ### Normalized schemas -/

section Normalized

variable {classes : CharClasses} {registry : Registry} {language : Language} {component : String}
  {schema : Schema}

def syntaxOf : Language → TypeSyntax
  | .rust => .rust
  | .csharp => .normalized

theorem normalizeRegistry_ok
    (h : normalizeRegistry classes registry language component = .ok schema) :
    validateSurface registry component = .ok () ∧
      buildFrom classes registry (syntaxOf language) component = .ok schema ∧
      DynamicTypes.rejectDynamic classes id schema.expressions = .ok () ∧
      rejectAmbiguousVariants schema = .ok () := by
  obtain ⟨_, hsurface, h⟩ := bind_eq_ok.mp h
  obtain ⟨built, hbuilt, h⟩ := bind_eq_ok.mp h
  obtain ⟨_, hdynamic, h⟩ := bind_eq_ok.mp h
  obtain ⟨_, hvariants, h⟩ := bind_eq_ok.mp h
  obtain rfl := Except.ok.inj h
  refine ⟨hsurface, ?_, hdynamic, hvariants⟩
  cases language with
  | csharp => exact hbuilt
  | rust =>
    obtain ⟨_, -, hbuilt⟩ := bind_eq_ok.mp hbuilt
    exact hbuilt

theorem operations_names {operations : List SchemaOperation} {typeSyntax : TypeSyntax}
    {qualifier : Qualifier}
    (h : mapAll (mapOperation classes registry typeSyntax qualifier)
      (operationsFor registry component) = .ok operations) :
    operations.map SchemaOperation.name =
      (operationsFor registry component).map Operation.name := by
  have hpaired := mapAll_eq_ok.mp h
  rw [eq_comm, ← List.forall₂_eq_eq_eq, List.forall₂_map_left_iff, List.forall₂_map_right_iff]
  exact hpaired.imp fun op operation hop => (mapOperation_ok hop).1.symm

theorem sorted_names (hnodup : ((operationsFor registry component).map Operation.name).Nodup) :
    ((operationsFor registry component).map Operation.name).Pairwise fun a b =>
      compare a b = .lt := by
  have hsorted : ((operationsFor registry component).map Operation.name).Pairwise fun a b =>
      (compare a b).isLE = true := by
    rw [List.pairwise_map]
    exact sortBy_sorted Operation.name _
  refine (hsorted.and hnodup).imp fun {a b} h => ?_
  rcases Ordering.isLE_iff_eq_lt_or_eq_eq.mp h.1 with hlt | heq
  · exact hlt
  · exact absurd (Std.LawfulEqOrd.eq_of_compare heq) h.2

/-- A normalized schema has the public operations of its component in order and each once, their
inputs and all variants told apart by name, no dynamic type, and dependencies that the encoder
accepts; every setup of the component belongs to one of the operations. -/
theorem normalized_surface (classes : CharClasses) (registry : Registry) (language : Language)
    (component : String) (schema : Schema)
    (h : normalizeRegistry classes registry language component = .ok schema) :
    ((schema.operations.map SchemaOperation.name).Pairwise fun a b => compare a b = .lt) ∧
    (∀ name, name ∈ schema.operations.map SchemaOperation.name ↔
      ∃ op ∈ registry.ops, op.isSetup = false ∧ op.component = component ∧ op.name = name) ∧
    (∀ op ∈ registry.ops, op.isSetup = false → op.component = component → op.isPublic = true) ∧
    (∀ setup ∈ registry.ops, setup.isSetup = true → setup.component = component →
      setup.name ∈ schema.operations.map SchemaOperation.name) ∧
    (∀ operation ∈ schema.operations, (operation.inputs.map Field.name).Nodup) ∧
    (∀ declared ∈ schema.types ++ schema.dependencyTypes.flatMap Dependency.types,
      (declared.variants.map Variant.name).Nodup) ∧
    (∀ entry ∈ schema.expressions.checked, ¬ DynamicTypes.Spells classes entry.2.toList) ∧
    ∀ wire, schema.wire = some wire → DependencyGraphs.validateDependencies wire = .ok () := by
  obtain ⟨hsurface, hbuilt, hdynamic, hvariants⟩ := normalizeRegistry_ok h
  obtain ⟨hnodup, hpublic, hsetups⟩ := validateSurface_eq_ok.mp hsurface
  obtain ⟨_, -, -, -, -, hoperations, -⟩ := buildFrom_eq_ok hbuilt
  have hnames := operations_names hoperations
  refine ⟨hnames ▸ sorted_names hnodup, fun name => ?_, fun op hop hplain hcomponent => ?_,
    fun setup hsetup his hcomponent => ?_, fun operation hoperation => ?_,
    rejectAmbiguousVariants_ok hvariants, DynamicTypes.rejectDynamic_eq_ok.mp hdynamic,
    fun wire hwire => validateDependencies_of_build hbuilt hwire⟩
  · rw [hnames, List.mem_map]
    constructor
    · rintro ⟨op, hop, hname⟩
      obtain ⟨hregistered, hplain, hcomponent⟩ := mem_operationsFor.mp hop
      exact ⟨op, hregistered, hplain, hcomponent, hname⟩
    · rintro ⟨op, hregistered, hplain, hcomponent, hname⟩
      exact ⟨op, mem_operationsFor.mpr ⟨hregistered, hplain, hcomponent⟩, hname⟩
  · exact hpublic op (mem_operationsFor.mpr ⟨hop, hplain, hcomponent⟩)
  · rw [hnames]
    exact hsetups setup hsetup his hcomponent
  · obtain ⟨op, -, hop⟩ := exists_left_of_forall₂ (mapAll_eq_ok.mp hoperations) hoperation
    exact (mapOperation_ok hop).2

def shopOperation (name : String) (params : List Field) (returnType : String) : Operation where
  name := name
  modulePath := "shop::orders"
  fnName := name
  typeArguments := []
  replayOutput := none
  testTarget := none
  isSetup := false
  isAsync := false
  isMethod := false
  consumesReceiver := false
  explicitComponent := true
  isPublic := true
  returnType := returnType
  fills := ""
  params := params
  component := "shop"
  csClass := none
  csMethodOf := none
  csMethod := none
  csIsStatic := none
  csReturn := none
  csParams := []
  csExceptions := .unspecified

def shopStruct (component name : String) (fields : List Field) : RawType where
  name := name
  kind := "struct"
  fields := fields
  variants := []
  component := component
  propertySetup := false
  nativeName := name
  modulePath := component ++ "::model"

def shopPlace : Operation := shopOperation "place" [⟨"order", "Order"⟩] "Option < Order >"

def shopDraft : Operation :=
  { shopOperation "place" [⟨"amount", "Amount"⟩] "Order" with fnName := "draft", isSetup := true }

def shopCancel : Operation := shopOperation "cancel" [⟨"number", "u32"⟩] "()"

def shopTypes : List RawType :=
  [shopStruct "shop" "Order" [⟨"total", "Amount"⟩], shopStruct "money" "Amount" [⟨"cents", "i64"⟩]]

def shop : Registry := ⟨[shopPlace, shopDraft, shopCancel], shopTypes⟩

def shopSchema : Schema where
  component := "shop"
  dependencies := ["money"]
  dependencyTypes := [⟨"money", [], [⟨"Amount", .struct, [⟨"cents", "i64"⟩], []⟩]⟩]
  operations := [
    ⟨"cancel", false, [⟨"number", "u32"⟩], none, false, [], []⟩,
    ⟨"place", false, [⟨"amount", "money::Amount"⟩], some "Order", true, [],
      [⟨"order", [⟨"amount", "money::Amount"⟩], "Order"⟩]⟩]
  types := [⟨"Order", .struct, [⟨"total", "money::Amount"⟩], []⟩]

/-- A component with a setup and a type of another component. -/
theorem normalized_surface_shop :
    (∀ setup ∈ shop.ops, setup.isSetup = true → setup.component = "shop" →
      setup.name ∈ shopSchema.operations.map SchemaOperation.name) ∧
    ∀ wire, shopSchema.wire = some wire → DependencyGraphs.validateDependencies wire = .ok () := by
  obtain ⟨-, -, -, hsetups, -, -, -, hwire⟩ :=
    normalized_surface .ascii shop .rust "shop" shopSchema rfl
  exact ⟨hsetups, hwire⟩

end Normalized

/-! ### Link order -/

section LinkOrder

variable {classes : CharClasses} {registry registry' : Registry} {language : Language}
  {component : String} {schema : Schema}

/-- The same registrations in another link order, which keeps the setups of each operation in
theirs. -/
structure Relinked (registry registry' : Registry) : Prop where
  types : registry'.types = registry.types
  ops : registry.ops.Perm registry'.ops
  setups : ∀ component name, setupsFor registry' component name = setupsFor registry component name

theorem Relinked.symm (h : Relinked registry registry') : Relinked registry' registry :=
  ⟨h.types.symm, h.ops.symm, fun component name => (h.setups component name).symm⟩

theorem Relinked.propertyType_eq (h : Relinked registry registry') :
    propertyType classes registry' = propertyType classes registry := by
  funext component modulePath sourceType
  unfold propertyType
  rw [h.types]

theorem Relinked.appendParameter_eq (h : Relinked registry registry')
    (component opName : String) (fuel : Nat) :
    appendParameter classes registry' component opName fuel =
      appendParameter classes registry component opName fuel := by
  induction fuel with
  | zero =>
    funext modulePath visiting parameter
    unfold appendParameter
    rw [h.propertyType_eq]
  | succ fuel ih =>
    funext modulePath visiting parameter
    unfold appendParameter
    dsimp only
    rw [h.propertyType_eq, ih]

theorem Relinked.inputsOf_eq (h : Relinked registry registry') :
    inputsOf classes registry' = inputsOf classes registry := by
  funext op parameter
  rw [inputsOf, inputsOf, h.types, h.appendParameter_eq]

theorem Relinked.parameterFields_eq (h : Relinked registry registry') :
    parameterFields classes registry' = parameterFields classes registry := by
  funext op
  rw [parameterFields, parameterFields, h.inputsOf_eq]

theorem Relinked.foldSetups_eq (h : Relinked registry registry') (op : Operation)
    (folding : Folding) (setups : List Operation) :
    foldSetups classes registry' op folding setups = foldSetups classes registry op folding setups := by
  induction setups generalizing folding with
  | nil => rfl
  | cons setup rest ih =>
    have hsetup : foldSetup classes registry' op folding setup =
        foldSetup classes registry op folding setup := by
      unfold foldSetup
      rw [h.parameterFields_eq]
    unfold foldSetups
    rw [hsetup]
    cases foldSetup classes registry op folding setup with
    | error error => rfl
    | ok next => exact ih next

theorem Relinked.foldOperation_eq (h : Relinked registry registry') :
    foldOperation classes registry' = foldOperation classes registry := by
  funext op
  unfold foldOperation foldWith
  rw [h.setups, h.foldSetups_eq]
  unfold finishFold foldedInputs
  rw [h.parameterFields_eq, h.inputsOf_eq]

theorem Relinked.mapOperation_eq (h : Relinked registry registry') (typeSyntax : TypeSyntax) :
    mapOperation classes registry' typeSyntax = mapOperation classes registry typeSyntax := by
  funext qualifier op
  unfold mapOperation
  rw [h.foldOperation_eq]

theorem Relinked.propertyFieldType_eq (h : Relinked registry registry') :
    propertyFieldType classes registry' = propertyFieldType classes registry := by
  funext declaration sourceType
  unfold propertyFieldType
  rw [h.propertyType_eq]

theorem Relinked.qualifier_eq (h : Relinked registry registry') (component : String) :
    Qualifier.new component registry' = Qualifier.new component registry := by
  unfold Qualifier.new
  rw [h.types]

theorem Relinked.localTypes_eq (h : Relinked registry registry') (component : String) :
    localTypes registry' component = localTypes registry component := by
  unfold localTypes
  rw [h.types]

theorem Relinked.dependencyTypes_eq (h : Relinked registry registry') (typeSyntax : TypeSyntax)
    (graph : List (String × List String)) :
    dependencyTypes classes registry' typeSyntax component graph =
      dependencyTypes classes registry typeSyntax component graph := by
  unfold dependencyTypes
  simp only [h.qualifier_eq, h.localTypes_eq, h.propertyFieldType_eq]

theorem Relinked.operationsFor_perm (h : Relinked registry registry') (component : String) :
    (registry.ops.filter fun op => !op.isSetup && op.component == component).Perm
      (registry'.ops.filter fun op => !op.isSetup && op.component == component) :=
  h.ops.filter _

/-- Distinct names put the operations in one order. -/
theorem Relinked.operationsFor_eq (h : Relinked registry registry')
    (hnodup : ((operationsFor registry component).map Operation.name).Nodup) :
    operationsFor registry' component = operationsFor registry component := by
  refine (sortBy_eq_of_perm (fun a ha b hb hsame => ?_) (h.operationsFor_perm component)).symm
  exact List.inj_on_of_nodup_map hnodup (mem_sortBy.mpr ha) (mem_sortBy.mpr hb) hsame

theorem Relinked.validateSurface_ok (h : Relinked registry registry')
    (hsurface : validateSurface registry component = .ok ()) :
    validateSurface registry' component = .ok () := by
  obtain ⟨hnodup, hpublic, hsetups⟩ := validateSurface_eq_ok.mp hsurface
  rw [validateSurface_eq_ok, h.operationsFor_eq hnodup]
  exact ⟨hnodup, hpublic, fun setup hsetup => hsetups setup (h.ops.mem_iff.mpr hsetup)⟩

theorem concatAll_perm {α β : Type} {f : α → Except String (List β)} {left right : List α}
    (h : left.Perm right) {results : List β} (hleft : concatAll f left = .ok results) :
    ∃ others, concatAll f right = .ok others ∧ results.Perm others := by
  induction h generalizing results with
  | nil => exact ⟨results, hleft, .refl _⟩
  | @cons item left right _ ih =>
    unfold concatAll at hleft ⊢
    cases hitem : f item with
    | error error =>
      rw [hitem] at hleft
      cases hleft
    | ok front =>
      rw [hitem] at hleft
      obtain ⟨rest, hrest, rfl⟩ := map_eq_ok.mp hleft
      obtain ⟨others, hothers, hperm⟩ := ih hrest
      exact ⟨front ++ others, map_eq_ok.mpr ⟨others, hothers, rfl⟩, hperm.append_left front⟩
  | swap item other rest =>
    unfold concatAll at hleft ⊢
    cases hother : f other with
    | error error =>
      rw [hother] at hleft
      cases hleft
    | ok second =>
      rw [hother] at hleft
      obtain ⟨inner, hinner, rfl⟩ := map_eq_ok.mp hleft
      unfold concatAll at hinner ⊢
      cases hitem : f item with
      | error error =>
        rw [hitem] at hinner
        cases hinner
      | ok first =>
        rw [hitem] at hinner
        obtain ⟨tail, htail, rfl⟩ := map_eq_ok.mp hinner
        refine ⟨first ++ (second ++ tail), ?_, ?_⟩
        · rw [hother]
          exact map_eq_ok.mpr ⟨second ++ tail, map_eq_ok.mpr ⟨tail, htail, rfl⟩, rfl⟩
        · rw [← List.append_assoc, ← List.append_assoc]
          exact List.perm_append_comm.append_right tail
  | trans _ _ ih ih' =>
    obtain ⟨middle, hmiddle, hfirst⟩ := ih hleft
    obtain ⟨others, hothers, hsecond⟩ := ih' hmiddle
    exact ⟨others, hothers, hfirst.trans hsecond⟩

theorem mapAll_perm {ε α β : Type} {f : α → Except ε β} {left right : List α} {results : List β}
    (h : left.Perm right) (hleft : mapAll f left = .ok results) :
    ∃ others, mapAll f right = .ok others ∧ results.Perm others := by
  obtain ⟨others, hothers, hperm⟩ := List.perm_comp_forall₂ h.symm (mapAll_eq_ok.mp hleft)
  exact ⟨others, mapAll_eq_ok.mpr hothers, hperm.symm⟩

theorem Relinked.typeReferences_eq (h : Relinked registry registry') :
    typeReferences classes registry' = typeReferences classes registry := by
  funext ty
  unfold typeReferences
  rw [h.propertyFieldType_eq]

theorem Relinked.operationReferences_eq (h : Relinked registry registry') :
    operationReferences classes registry' = operationReferences classes registry := by
  funext op
  unfold operationReferences
  rw [h.parameterFields_eq]

theorem Relinked.surface_perm (h : Relinked registry registry') (component : String) :
    (surface registry component).Perm (surface registry' component) := by
  have hnames : ∀ op : Operation,
      ((registry.ops.filter fun op => !op.isSetup && op.component == component).map
        Operation.name).contains op.name =
      ((registry'.ops.filter fun op => !op.isSetup && op.component == component).map
        Operation.name).contains op.name := by
    intro op
    rw [Bool.eq_iff_iff, List.contains_iff_mem, List.contains_iff_mem]
    exact ((h.operationsFor_perm component).map Operation.name).mem_iff
  unfold surface
  simp only [hnames]
  exact h.ops.filter _

theorem Relinked.references_ok (h : Relinked registry registry') {traversal : Traversal}
    {names : List String} (hnames : references classes registry traversal component = .ok names) :
    ∃ others, references classes registry' traversal component = .ok others ∧
      names.Perm others := by
  obtain ⟨operations, hoperations, hnames⟩ := bind_eq_ok.mp hnames
  obtain ⟨types, htypes, hnames⟩ := bind_eq_ok.mp hnames
  obtain rfl := Except.ok.inj hnames
  have hsame : concatAll (typeReferences classes registry')
      (registry'.types.filter fun ty => ty.component == component) = .ok types := by
    rw [h.typeReferences_eq, h.types, htypes]
  cases traversal with
  | root =>
    obtain ⟨others, hothers, hperm⟩ := concatAll_perm (h.surface_perm component) hoperations
    rw [← h.operationReferences_eq] at hothers
    exact ⟨others ++ types, bind_eq_ok.mpr ⟨others, hothers, bind_eq_ok.mpr ⟨types, hsame, rfl⟩⟩,
      hperm.append_right types⟩
  | dependency =>
    obtain rfl := Except.ok.inj hoperations
    exact ⟨_, bind_eq_ok.mpr ⟨[], rfl, bind_eq_ok.mpr ⟨types, hsame, rfl⟩⟩, .refl _⟩

theorem Relinked.direct_ok (h : Relinked registry registry') {traversal : Traversal}
    {dependencies : List String}
    (hdirect : direct classes registry traversal component = .ok dependencies) :
    direct classes registry' traversal component = .ok dependencies := by
  obtain ⟨names, hnames, hdirect⟩ := bind_eq_ok.mp hdirect
  obtain ⟨owners, howners, hdirect⟩ := bind_eq_ok.mp hdirect
  obtain rfl := Except.ok.inj hdirect
  obtain ⟨others, hothers, hperm⟩ := h.references_ok hnames
  obtain ⟨owners', howners', hperm'⟩ := mapAll_perm hperm howners
  have hsame : owner registry' = owner registry := by
    funext name component
    unfold owner
    rw [h.types]
  rw [← hsame] at howners'
  refine bind_eq_ok.mpr ⟨others, hothers, bind_eq_ok.mpr ⟨owners', howners', congrArg Except.ok ?_⟩⟩
  refine distinct_eq_iff.mpr fun value => ?_
  exact (hperm'.symm.filter _).mem_iff

theorem Relinked.directOf_ok (h : Relinked registry registry') {root : String}
    {dependencies : List String} : directOf classes registry' root component = .ok dependencies ↔
      directOf classes registry root component = .ok dependencies :=
  ⟨h.symm.direct_ok, h.direct_ok⟩

theorem Relinked.edge_eq (h : Relinked registry registry') (root : String) :
    DependencySearch.Edge (directOf classes registry' root) =
      DependencySearch.Edge (directOf classes registry root) := by
  funext source target
  unfold DependencySearch.Edge
  simp only [h.directOf_ok]

theorem Relinked.dependencyGraph_ok (h : Relinked registry registry')
    {graph : List (String × List String)}
    (hgraph : dependencyGraph classes registry component = .ok graph) :
    dependencyGraph classes registry' component = .ok graph := by
  have hfuel : registry'.types.length + 2 = (reachable registry' component).length + 1 := by
    rw [length_reachable]
  have hfuel' : registry.types.length + 2 = (reachable registry component).length + 1 := by
    rw [length_reachable]
  rw [dependencyGraph_eq, hfuel'] at hgraph
  rw [dependencyGraph_eq, hfuel]
  have hall := (DependencySearch.search_succeeds_iff edge_mem List.mem_cons_self).mp ⟨graph, hgraph⟩
  obtain ⟨graph', hgraph'⟩ : ∃ graph', DependencySearch.search (directOf classes registry' component)
      componentCycle ((reachable registry' component).length + 1) [] [] component =
        .ok graph' := by
    rw [DependencySearch.search_succeeds_iff edge_mem List.mem_cons_self, h.edge_eq]
    simp only [h.directOf_ok]
    exact hall
  obtain ⟨hsorted, -, hlookup⟩ := DependencySearch.search_ok hgraph
  obtain ⟨hsorted', -, hlookup'⟩ := DependencySearch.search_ok hgraph'
  rw [hgraph']
  refine congrArg Except.ok (ext_of_lookup hsorted' hsorted fun key => ?_)
  refine Option.ext fun dependencies => ?_
  rw [hlookup, hlookup', h.edge_eq, h.directOf_ok]

theorem Relinked.buildFrom_ok (h : Relinked registry registry') {typeSyntax : TypeSyntax}
    (hnodup : ((operationsFor registry component).map Operation.name).Nodup)
    (hbuilt : buildFrom classes registry typeSyntax component = .ok schema) :
    buildFrom classes registry' typeSyntax component = .ok schema := by
  obtain ⟨graph, hgraph, hbuilt⟩ := bind_eq_ok.mp hbuilt
  have hown : ownFieldType classes registry' = ownFieldType classes registry := by
    funext typeSyntax
    cases typeSyntax with
    | rust =>
      funext ty sourceType
      unfold ownFieldType
      rw [h.propertyFieldType_eq]
    | normalized => rfl
  refine bind_eq_ok.mpr ⟨graph, h.dependencyGraph_ok hgraph, ?_⟩
  dsimp only
  rw [h.operationsFor_eq hnodup, h.mapOperation_eq, h.qualifier_eq, h.localTypes_eq,
    h.dependencyTypes_eq, hown]
  exact hbuilt

theorem Relinked.validateSyntax_ok (h : Relinked registry registry')
    (hspelled : validateSyntax classes registry = .ok ()) :
    validateSyntax classes registry' = .ok () := by
  obtain ⟨_, hops, htypes⟩ := bind_eq_ok.mp hspelled
  have hops' := forM_eq_ok.mp hops
  refine bind_eq_ok.mpr ⟨(), forM_eq_ok.mpr fun op hop => hops' op (h.ops.mem_iff.mpr hop), ?_⟩
  rw [h.types]
  exact htypes

theorem Relinked.normalizeRegistry_ok (h : Relinked registry registry')
    (hschema : normalizeRegistry classes registry language component = .ok schema) :
    normalizeRegistry classes registry' language component = .ok schema := by
  obtain ⟨_, hsurface, hschema⟩ := bind_eq_ok.mp hschema
  obtain ⟨built, hbuilt, hschema⟩ := bind_eq_ok.mp hschema
  obtain ⟨hnodup, -, -⟩ := validateSurface_eq_ok.mp hsurface
  refine bind_eq_ok.mpr ⟨(), h.validateSurface_ok hsurface, bind_eq_ok.mpr ⟨built, ?_, hschema⟩⟩
  cases language with
  | csharp => exact h.buildFrom_ok hnodup hbuilt
  | rust =>
    obtain ⟨_, hspelled, hbuilt⟩ := bind_eq_ok.mp hbuilt
    exact bind_eq_ok.mpr ⟨(), h.validateSyntax_ok hspelled, h.buildFrom_ok hnodup hbuilt⟩

/-- Normalization gives the same schema for every link order of the operations and of the setups
among them, as long as the setups of each operation stay in order. -/
theorem normalize_link_order (classes : CharClasses) (registry registry' : Registry)
    (language : Language) (component : String) (h : Relinked registry registry')
    (schema : Schema) :
    normalizeRegistry classes registry language component = .ok schema ↔
      normalizeRegistry classes registry' language component = .ok schema :=
  ⟨h.normalizeRegistry_ok, h.symm.normalizeRegistry_ok⟩

def relinkedShop : Registry := ⟨[shopCancel, shopPlace, shopDraft], shopTypes⟩

theorem relinked_shop : Relinked shop relinkedShop where
  types := rfl
  ops := (List.perm_append_comm : ([shopPlace, shopDraft] ++ [shopCancel]).Perm _)
  setups component name := by
    have hcancel : shopCancel.isSetup = false := rfl
    simp [setupsFor, shop, relinkedShop, List.filter_cons, hcancel]

/-- The operations of the component linked in another order. -/
theorem normalize_link_order_shop :
    normalizeRegistry .ascii shop .rust "shop" = .ok shopSchema ↔
      normalizeRegistry .ascii relinkedShop .rust "shop" = .ok shopSchema :=
  normalize_link_order .ascii shop relinkedShop .rust "shop" relinked_shop shopSchema

end LinkOrder

end SpecGate.NormalizedRegistries

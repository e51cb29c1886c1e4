import SpecGate.RegistryDocuments
import SpecGate.SidecarCaptures
import SpecGate.Sorting

/-!
The registry that discovery reads from the document of a binary. Fields that the document
leaves out take their defaults, so an explicit empty parameter name reads like none and an
empty list of type arguments like no arguments; everything else is read as it was.
-/
namespace SpecGate.DiscoveredRegistries

open JsonTrees JsonTexts RegistryDocuments Sorting
open SidecarCaptures (member member_of_get readString readAll readAll_json)
open Values (FiniteF64)

/-! ### The raw registry -/

inductive TestTargetKind where
  | library
  | binary
  | integration

structure TestTarget where
  name : String
  kind : TestTargetKind

inductive ExceptionMetadata where
  | unspecified
  | catchAll
  | named (names : List String)

structure Field where
  name : String
  ty : String

structure Variant where
  name : String
  fields : List Field
  tuple : Option (List String)

structure Operation where
  name : String
  modulePath : String
  fnName : String
  typeArguments : List String
  replayOutput : Option String
  testTarget : Option TestTarget
  isSetup : Bool
  isAsync : Bool
  isMethod : Bool
  consumesReceiver : Bool
  explicitComponent : Bool
  isPublic : Bool
  returnType : String
  fills : String
  params : List Field
  component : String
  csClass : Option String
  csMethodOf : Option String
  csMethod : Option String
  csIsStatic : Option Bool
  csReturn : Option String
  csParams : List Field
  csExceptions : ExceptionMetadata

/-- The source's `Type`. -/
structure RawType where
  name : String
  kind : String
  fields : List Field
  variants : List Variant
  component : String
  propertySetup : Bool
  nativeName : String
  modulePath : String

structure Registry where
  ops : List Operation
  types : List RawType

/-! ### Reading -/

/-- A field with a default. -/
def defaulted {α : Type} (entries : List (String × Json)) (key : String)
    (read : Json → Option α) (fallback : α) : Option α :=
  match entries.filter fun entry => entry.1 == key with
  | [] => some fallback
  | [entry] => read entry.2
  | _ => none

def readNullable {α : Type} (read : Json → Option α) : Json → Option (Option α)
  | .null => some none
  | json => (read json).map some

def readBool : Json → Option Bool
  | .bool value => some value
  | _ => none

def readPair : Json → Option Field
  | .array [.string name, .string ty] => some ⟨name, ty⟩
  | _ => none

def readTargetKind : Json → Option TestTargetKind
  | .string "library" => some .library
  | .string "binary" => some .binary
  | .string "integration" => some .integration
  | _ => none

def readTestTarget : Json → Option TestTarget
  | .object entries => do
      let name ← (member entries "name").bind readString
      let kind ← (member entries "kind").bind readTargetKind
      return ⟨name, kind⟩
  | _ => none

def ExceptionMetadata.ofNames : Option (List String) → ExceptionMetadata
  | none => .unspecified
  | some [] => .catchAll
  | some names => .named names

def readOperation : Json → Option Operation
  | .object entries => do
      let name ← (member entries "name").bind readString
      let component ← (member entries "component").bind readString
      let modulePath ← defaulted entries "module_path" readString ""
      let fnName ← defaulted entries "fn_name" readString ""
      let typeArguments ← defaulted entries "type_arguments" (readAll readString) []
      let replayOutput ← defaulted entries "replay_output" (readNullable readString) none
      let testTarget ← defaulted entries "test_target" (readNullable readTestTarget) none
      let isSetup ← defaulted entries "is_setup" readBool false
      let isAsync ← defaulted entries "is_async" readBool false
      let isMethod ← defaulted entries "is_method" readBool false
      let consumesReceiver ← defaulted entries "consumes_receiver" readBool false
      let explicitComponent ← defaulted entries "explicit_component" readBool false
      let isPublic ← defaulted entries "is_public" readBool true
      let returnType ← defaulted entries "return_type" readString ""
      let fills ← defaulted entries "fills" readString ""
      let params ← defaulted entries "params" (readAll readPair) []
      let csClass ← defaulted entries "cs_class" (readNullable readString) none
      let csMethodOf ← defaulted entries "cs_method_of" (readNullable readString) none
      let csMethod ← defaulted entries "cs_method" (readNullable readString) none
      let csIsStatic ← defaulted entries "cs_is_static" (readNullable readBool) none
      let csReturn ← defaulted entries "cs_return" (readNullable readString) none
      let csParams ← defaulted entries "cs_params" (readAll readPair) []
      let names ← defaulted entries "cs_exceptions" (readNullable (readAll readString)) none
      let csExceptions := ExceptionMetadata.ofNames names
      return ⟨name, modulePath, fnName, typeArguments, replayOutput, testTarget, isSetup, isAsync,
        isMethod, consumesReceiver, explicitComponent, isPublic, returnType, fills, params,
        component, csClass, csMethodOf, csMethod, csIsStatic, csReturn, csParams, csExceptions⟩
  | _ => none

def readVariant : Json → Option Variant
  | .object entries => do
      let name ← (member entries "name").bind readString
      let fields ← defaulted entries "fields" (readAll readPair) []
      let tuple ← defaulted entries "tuple" (readNullable (readAll readString)) none
      return ⟨name, fields, tuple⟩
  | _ => none

def readType : Json → Option RawType
  | .object entries => do
      let name ← (member entries "name").bind readString
      let kind ← (member entries "kind").bind readString
      let component ← (member entries "component").bind readString
      let fields ← defaulted entries "fields" (readAll readPair) []
      let variants ← defaulted entries "variants" (readAll readVariant) []
      let propertySetup ← defaulted entries "property_setup" readBool false
      let nativeName ← defaulted entries "native_name" readString ""
      let modulePath ← defaulted entries "module_path" readString ""
      return ⟨name, kind, fields, variants, component, propertySetup, nativeName, modulePath⟩
  | _ => none

/-- The operations and the types in the order of the document. -/
def readWire : Json → Option (List Operation × List RawType)
  | .object entries => do
      let operations ← (member entries "operations").bind (readAll readOperation)
      let types ← (member entries "types").bind (readAll readType)
      return (operations, types)
  | _ => none

def Registry.parse (read : String → Option Json) (json : String) : Option Registry := do
  let (operations, types) ← (read json).bind readWire
  return ⟨operations, sortBy RawType.name types⟩

/-! ### Looking members up -/

section Lookup

variable {nearest : Bool → ℚ → Option FiniteF64}

/-- The members of an object that are there. -/
def membersOf (slots : List (String × Option (Written nearest))) : List (String × Json) :=
  (present slots).map fun member => (member.1, member.2.json)

def slotMembers (slot : String × Option (Written nearest)) : List (String × Json) :=
  slot.2.toList.map fun value => (slot.1, value.json)

theorem membersOf_cons (slot : String × Option (Written nearest))
    (slots : List (String × Option (Written nearest))) :
    membersOf (slot :: slots) = slotMembers slot ++ membersOf slots := by
  obtain ⟨key, value⟩ := slot
  cases value with
  | none => rfl
  | some value => rfl

theorem filter_slotMembers (slot : String × Option (Written nearest)) (key : String) :
    (slotMembers slot).filter (fun entry => entry.1 == key) =
      if slot.1 = key then slotMembers slot else [] := by
  obtain ⟨name, value⟩ := slot
  cases value with
  | none =>
    change ([] : List (String × Json)) = if name = key then [] else []
    rw [ite_self]
  | some value =>
    change List.filter _ [(name, value.json)] = if name = key then [(name, value.json)] else []
    by_cases heq : name = key
    · rw [if_pos heq, List.filter_singleton, beq_iff_eq.mpr heq]
      rfl
    · rw [if_neg heq, List.filter_singleton, beq_eq_false_iff_ne.mpr heq]
      rfl

theorem filter_absent {slots : List (String × Option (Written nearest))} {key : String}
    (h : key ∉ slots.map Prod.fst) :
    (membersOf slots).filter (fun entry => entry.1 == key) = [] := by
  induction slots with
  | nil => rfl
  | cons slot rest ih =>
    rw [List.map_cons, List.mem_cons, not_or] at h
    rw [membersOf_cons, List.filter_append, filter_slotMembers, if_neg (Ne.symm h.1), ih h.2]
    rfl

/-- Keys of slots are distinct, so each member is found where it stands, if it is there. -/
theorem filter_slot {slots : List (String × Option (Written nearest))}
    {slot : String × Option (Written nearest)} (hkeys : (slots.map Prod.fst).Nodup) (i : Nat)
    (h : slots[i]? = some slot) :
    (membersOf slots).filter (fun entry => entry.1 == slot.1) = slotMembers slot := by
  induction slots generalizing i with
  | nil => cases h
  | cons first rest ih =>
    rw [List.map_cons, List.nodup_cons] at hkeys
    rw [membersOf_cons, List.filter_append, filter_slotMembers]
    cases i with
    | zero =>
      obtain rfl := Option.some.inj h
      rw [if_pos rfl, filter_absent hkeys.1, List.append_nil]
    | succ i =>
      have hmem : slot.1 ∈ rest.map Prod.fst :=
        List.mem_map.mpr ⟨slot, List.mem_of_getElem? h, rfl⟩
      have hne : first.1 ≠ slot.1 := by
        intro heq
        exact hkeys.1 (heq ▸ hmem)
      rw [if_neg hne, ih hkeys.2 i h, List.nil_append]

variable {slots : List (String × Option (Written nearest))} {key : String} {α : Type}
  {read : Json → Option α} {fallback : α} {result : Option α}

theorem required_read {value : Written nearest} (hkeys : (slots.map Prod.fst).Nodup) (i : Nat)
    (h : slots[i]? = some (key, some value)) (hread : read value.json = result) :
    (member (membersOf slots) key).bind read = result := by
  have hfilter := filter_slot hkeys i h
  unfold member
  rw [hfilter]
  exact hread

theorem defaulted_read {slot : Option (Written nearest)} (hkeys : (slots.map Prod.fst).Nodup)
    (i : Nat) (h : slots[i]? = some (key, slot))
    (hread : (slot.elim (some fallback) fun value => read value.json) = result) :
    defaulted (membersOf slots) key read fallback = result := by
  have hfilter := filter_slot hkeys i h
  unfold defaulted
  rw [hfilter, ← hread]
  cases slot with
  | none => rfl
  | some value => rfl

theorem present_read {value : Written nearest} (hkeys : (slots.map Prod.fst).Nodup) (i : Nat)
    (h : slots[i]? = some (key, some value)) (hread : read value.json = result) :
    defaulted (membersOf slots) key read fallback = result := defaulted_read hkeys i h hread

theorem defaulted_absent (h : key ∉ slots.map Prod.fst) :
    defaulted (membersOf slots) key read fallback = some fallback := by
  unfold defaulted
  rw [filter_absent h]

end Lookup

/-! ### What the document says -/

def registeredField (field : FieldMeta) : Field := ⟨field.name, field.rustType⟩

def registeredVariant (variant : VariantMeta) : Variant :=
  ⟨variant.name, variant.fields.map registeredField, variant.tuple⟩

def registeredType (ty : TypeMeta) : RawType where
  name := ty.name
  kind := ty.kind.asStr
  fields := ty.fields.map registeredField
  variants := ty.variants.map registeredVariant
  component := ty.component
  propertySetup := ty.propertySetup.isSome
  nativeName := ty.propertySetup.getD ""
  modulePath := ty.modulePath

def registeredOperation (op : OpMeta) : Operation where
  name := op.name
  modulePath := op.modulePath
  fnName := op.fnName
  typeArguments := op.typeArguments.getD []
  replayOutput := op.replaySetup
  testTarget := none
  isSetup := op.isSetup
  isAsync := op.isAsync
  isMethod := op.isMethod
  consumesReceiver := op.consumesReceiver
  explicitComponent := op.explicitComponent
  isPublic := op.isPublic
  returnType := op.returnType
  fills := op.fills.getD ""
  params := op.params.map registeredField
  component := op.component
  csClass := none
  csMethodOf := none
  csMethod := none
  csIsStatic := none
  csReturn := none
  csParams := []
  csExceptions := .unspecified

def registered (discovery : Discovery) : Registry where
  ops := discovery.operations.map registeredOperation
  types := sortBy RawType.name (discovery.types.map registeredType)

/-- An empty parameter name and an empty list of type arguments say nothing. -/
def settledOperation (op : OpMeta) : OpMeta :=
  { op with
    fills := op.fills.filter (· ≠ "")
    typeArguments := op.typeArguments.filter (!·.isEmpty) }

def settled (discovery : Discovery) : Discovery :=
  { discovery with operations := discovery.operations.map settledOperation }

/-! ### Reading the parts back -/

section ReadBack

variable {nearest : Bool → ℚ → Option FiniteF64}

/-- A list is read item by item. -/
theorem readAll_array {α β : Type} {read : Json → Option β} {written : α → Written nearest}
    {result : α → β} (h : ∀ item, read (written item).json = some (result item))
    (items : List α) :
    readAll read (Written.array (items.map written)).json = some (items.map result) := by
  change Collecting.collect read ((items.map written).map Written.json) = _
  rw [Collecting.collect_eq_some_iff, List.map_map, List.map_map, List.map_map]
  apply List.map_congr_left
  intro item _
  exact h item

theorem readAll_strings (values : List String) :
    readAll readString (@strings nearest values).json = some values := by
  have hread := @readAll_array nearest _ _ readString Written.string id (fun _ => rfl) values
  rw [List.map_id] at hread
  exact hread

theorem readAll_fields (fields : List FieldMeta) :
    readAll readPair (@fieldsWritten nearest fields).json = some (fields.map registeredField) :=
  @readAll_array nearest _ _ readPair fieldWritten registeredField (fun _ => rfl) fields

theorem readString_written (value : String) :
    readString (@Written.string nearest value).json = some value := rfl

theorem readBool_written (value : Bool) :
    readBool (@Written.bool nearest value).json = some value := rfl

theorem read_flag (value : Bool) :
    ((@flag nearest value).elim (some false) fun written => readBool written.json) =
      some value := by
  cases value <;> rfl

theorem read_optional (value : Option String) :
    ((value.map (@Written.string nearest)).elim (some none) fun written =>
      readNullable readString written.json) = some value := by
  cases value <;> rfl

theorem read_arguments (op : OpMeta) :
    ((@writtenArguments nearest op).elim (some []) fun written =>
      readAll readString written.json) = some (op.typeArguments.getD []) := by
  unfold writtenArguments
  by_cases hempty : (op.typeArguments.getD []).isEmpty = true
  · rw [if_pos hempty, List.isEmpty_iff.mp hempty]
    rfl
  · rw [if_neg hempty]
    exact readAll_strings _

theorem read_nativeName (value : Option String) :
    ((value.map (@Written.string nearest)).elim (some "") fun written =>
      readString written.json) = some (value.getD "") := by
  cases value <;> rfl

theorem operationSlots_keys (op : OpMeta) : ((@operationSlots nearest op).map Prod.fst).Nodup := by
  change ["name", "module_path", "fn_name", "type_arguments", "is_setup", "is_async", "is_method",
    "is_public", "return_type", "consumes_receiver", "explicit_component", "replay_output", "fills",
    "component", "params"].Nodup
  decide +kernel

theorem operationSlots_absent (op : OpMeta) (key : String)
    (h : key ∈ ["test_target", "cs_class", "cs_method_of", "cs_method", "cs_is_static", "cs_return",
      "cs_params", "cs_exceptions"]) : key ∉ (@operationSlots nearest op).map Prod.fst := by
  change key ∉ ["name", "module_path", "fn_name", "type_arguments", "is_setup", "is_async",
    "is_method", "is_public", "return_type", "consumes_receiver", "explicit_component",
    "replay_output", "fills", "component", "params"]
  revert key
  decide +kernel

theorem readOperation_written (op : OpMeta) :
    readOperation (@operationWritten nearest op).json = some (registeredOperation op) := by
  have hkeys := @operationSlots_keys nearest op
  have habsent := @operationSlots_absent nearest op
  change readOperation (.object (membersOf (operationSlots op))) = _
  unfold readOperation
  dsimp only
  rw [required_read hkeys 0 rfl (readString_written op.name),
    required_read hkeys 13 rfl (readString_written op.component),
    present_read hkeys 1 rfl (readString_written op.modulePath),
    present_read hkeys 2 rfl (readString_written op.fnName),
    defaulted_read hkeys 3 rfl (read_arguments op),
    defaulted_read hkeys 11 rfl (read_optional op.replaySetup),
    defaulted_absent (habsent "test_target" (by simp)),
    present_read hkeys 4 rfl (readBool_written op.isSetup),
    present_read hkeys 5 rfl (readBool_written op.isAsync),
    present_read hkeys 6 rfl (readBool_written op.isMethod),
    defaulted_read hkeys 9 rfl (read_flag op.consumesReceiver),
    defaulted_read hkeys 10 rfl (read_flag op.explicitComponent),
    present_read hkeys 7 rfl (readBool_written op.isPublic),
    present_read hkeys 8 rfl (readString_written op.returnType),
    present_read hkeys 12 rfl (readString_written (op.fills.getD "")),
    present_read hkeys 14 rfl (readAll_fields op.params),
    defaulted_absent (habsent "cs_class" (by simp)),
    defaulted_absent (habsent "cs_method_of" (by simp)),
    defaulted_absent (habsent "cs_method" (by simp)),
    defaulted_absent (habsent "cs_is_static" (by simp)),
    defaulted_absent (habsent "cs_return" (by simp)),
    defaulted_absent (habsent "cs_params" (by simp)),
    defaulted_absent (habsent "cs_exceptions" (by simp))]
  rfl

theorem read_tuple (tuple : Option (List String)) :
    readNullable (readAll readString) (@tupleWritten nearest tuple).json = some tuple := by
  cases tuple with
  | none => rfl
  | some tuple => exact congrArg (Option.map some) (@readAll_strings nearest tuple)

theorem readVariant_written (variant : VariantMeta) :
    readVariant (@variantWritten nearest variant).json = some (registeredVariant variant) := by
  have hkeys : ((@variantSlots nearest variant).map Prod.fst).Nodup := by
    change ["name", "fields", "tuple"].Nodup
    decide +kernel
  change readVariant (.object (membersOf (variantSlots variant))) = _
  unfold readVariant
  dsimp only
  rw [required_read hkeys 0 rfl (readString_written variant.name),
    present_read hkeys 1 rfl (readAll_fields variant.fields),
    present_read hkeys 2 rfl (read_tuple variant.tuple)]
  rfl

theorem readType_written (ty : TypeMeta) :
    readType (@typeWritten nearest ty).json = some (registeredType ty) := by
  have hkeys : ((@typeSlots nearest ty).map Prod.fst).Nodup := by
    change ["name", "module_path", "kind", "component", "property_setup", "native_name", "fields",
      "variants"].Nodup
    decide +kernel
  change readType (.object (membersOf (typeSlots ty))) = _
  unfold readType
  dsimp only
  rw [required_read hkeys 0 rfl (readString_written ty.name),
    required_read hkeys 2 rfl (readString_written ty.kind.asStr),
    required_read hkeys 3 rfl (readString_written ty.component),
    present_read hkeys 6 rfl (readAll_fields ty.fields),
    present_read hkeys 7 rfl (readAll_array readVariant_written ty.variants),
    defaulted_read hkeys 4 rfl (read_flag ty.propertySetup.isSome),
    defaulted_read hkeys 5 rfl (read_nativeName ty.propertySetup),
    present_read hkeys 1 rfl (readString_written ty.modulePath)]
  rfl

theorem readWire_written (discovery : Discovery) :
    readWire (@discoveryWritten nearest discovery).json =
      some (discovery.operations.map registeredOperation, discovery.types.map registeredType) := by
  have hkeys : ((@discoverySlots nearest discovery).map Prod.fst).Nodup := by
    change ["operations", "types"].Nodup
    decide +kernel
  change readWire (.object (membersOf (discoverySlots discovery))) = _
  unfold readWire
  dsimp only
  rw [required_read hkeys 0 rfl (readAll_array readOperation_written discovery.operations),
    required_read hkeys 1 rfl (readAll_array readType_written discovery.types)]
  rfl

/-! ### Nesting -/

theorem depthAll_le {values : List Json} {bound : Nat} (h : ∀ value ∈ values, value.depth ≤ bound) :
    Json.depthAll values ≤ bound := by
  induction values with
  | nil => exact Nat.zero_le _
  | cons value rest ih =>
    exact Nat.max_le.mpr ⟨h value List.mem_cons_self,
      ih fun other hother => h other (List.mem_cons_of_mem _ hother)⟩

theorem depthEntries_le {entries : List (String × Json)} {bound : Nat}
    (h : ∀ entry ∈ entries, entry.2.depth ≤ bound) : Json.depthEntries entries ≤ bound := by
  induction entries with
  | nil => exact Nat.zero_le _
  | cons entry rest ih =>
    exact Nat.max_le.mpr ⟨h entry List.mem_cons_self,
      ih fun other hother => h other (List.mem_cons_of_mem _ hother)⟩

theorem depth_array {α : Type} {written : α → Written nearest} {bound : Nat}
    (h : ∀ item, (written item).json.depth ≤ bound) (items : List α) :
    (Written.array (items.map written)).json.depth ≤ bound + 1 := by
  apply Nat.succ_le_succ
  apply depthAll_le
  intro value hvalue
  obtain ⟨other, hother, rfl⟩ := List.mem_map.mp hvalue
  obtain ⟨item, -, rfl⟩ := List.mem_map.mp hother
  exact h item

/-- What stands under the member, if it is there, is nested no deeper than the bound. -/
def Shallow (bound : Nat) (slot : String × Option (Written nearest)) : Prop :=
  ∀ value ∈ slot.2, value.json.depth ≤ bound

theorem depth_object {slots : List (String × Option (Written nearest))} {bound : Nat}
    (h : ∀ slot ∈ slots, Shallow bound slot) :
    (Written.object (present slots)).json.depth ≤ bound + 1 := by
  apply Nat.succ_le_succ
  apply depthEntries_le
  intro entry hentry
  obtain ⟨member, hmember, rfl⟩ := List.mem_map.mp hentry
  obtain ⟨slot, hslot, hvalue⟩ := List.mem_filterMap.mp hmember
  obtain ⟨value, hpresent, rfl⟩ := Option.map_eq_some_iff.mp hvalue
  exact h slot hslot value hpresent

theorem depth_strings (values : List String) : (@strings nearest values).json.depth ≤ 1 :=
  @depth_array nearest _ Written.string 0 (fun _ => Nat.le_refl 0) values

theorem depth_fields (fields : List FieldMeta) :
    (@fieldsWritten nearest fields).json.depth ≤ 2 :=
  @depth_array nearest _ fieldWritten 1 (fun _ => Nat.le_refl 1) fields

theorem shallow_some {bound : Nat} {key : String} {value : Written nearest}
    (h : value.json.depth ≤ bound) : Shallow bound (key, some value) := by
  intro other hother
  obtain rfl := Option.some.inj hother
  exact h

theorem shallow_string (bound : Nat) (key value : String) :
    Shallow bound (key, some (@Written.string nearest value)) := shallow_some (Nat.zero_le bound)

theorem shallow_bool (bound : Nat) (key : String) (value : Bool) :
    Shallow bound (key, some (@Written.bool nearest value)) := shallow_some (Nat.zero_le bound)

theorem shallow_flag (bound : Nat) (key : String) (value : Bool) :
    Shallow bound (key, @flag nearest value) := by
  cases value with
  | false => exact fun _ hvalue => nomatch hvalue
  | true => exact shallow_bool bound key true

theorem shallow_optional (bound : Nat) (key : String) (value : Option String) :
    Shallow bound (key, value.map (@Written.string nearest)) := by
  cases value with
  | none => exact fun _ hvalue => nomatch hvalue
  | some value => exact shallow_string bound key value

theorem shallow_arguments (op : OpMeta) :
    Shallow 2 ("type_arguments", @writtenArguments nearest op) := by
  unfold writtenArguments
  by_cases hempty : (op.typeArguments.getD []).isEmpty = true
  · rw [if_pos hempty]
    exact fun _ hvalue => nomatch hvalue
  · rw [if_neg hempty]
    exact shallow_some (Nat.le_succ_of_le (depth_strings _))

theorem depth_operation (op : OpMeta) : (@operationWritten nearest op).json.depth ≤ 3 := by
  apply depth_object
  unfold operationSlots
  simp only [List.forall_mem_cons, List.not_mem_nil, IsEmpty.forall_iff, implies_true, and_true]
  exact ⟨shallow_string _ _ _, shallow_string _ _ _, shallow_string _ _ _, shallow_arguments op,
    shallow_bool _ _ _, shallow_bool _ _ _, shallow_bool _ _ _, shallow_bool _ _ _,
    shallow_string _ _ _, shallow_flag _ _ _, shallow_flag _ _ _, shallow_optional _ _ _,
    shallow_string _ _ _, shallow_string _ _ _,
    shallow_some (depth_fields op.params)⟩

theorem depth_variant (variant : VariantMeta) :
    (@variantWritten nearest variant).json.depth ≤ 3 := by
  have htuple : (@tupleWritten nearest variant.tuple).json.depth ≤ 2 := by
    cases variant.tuple with
    | none => exact Nat.zero_le 2
    | some tuple => exact Nat.le_succ_of_le (depth_strings tuple)
  apply depth_object
  unfold variantSlots
  simp only [List.forall_mem_cons, List.not_mem_nil, IsEmpty.forall_iff, implies_true, and_true]
  exact ⟨shallow_string _ _ _, shallow_some (depth_fields variant.fields), shallow_some htuple⟩

theorem depth_type (ty : TypeMeta) : (@typeWritten nearest ty).json.depth ≤ 5 := by
  have hfields := Nat.le_trans (@depth_fields nearest ty.fields) (by omega : 2 ≤ 4)
  apply depth_object
  unfold typeSlots
  simp only [List.forall_mem_cons, List.not_mem_nil, IsEmpty.forall_iff, implies_true, and_true]
  exact ⟨shallow_string _ _ _, shallow_string _ _ _, shallow_string _ _ _, shallow_string _ _ _,
    shallow_flag _ _ _, shallow_optional _ _ _, shallow_some hfields,
    shallow_some (depth_array depth_variant ty.variants)⟩

theorem depth_discovery (discovery : Discovery) :
    (@discoveryWritten nearest discovery).json.depth ≤ 7 := by
  have hoperations := Nat.le_trans (depth_array (@depth_operation nearest) discovery.operations)
    (by omega : 3 + 1 ≤ 6)
  apply depth_object
  unfold discoverySlots
  simp only [List.forall_mem_cons, List.not_mem_nil, IsEmpty.forall_iff, implies_true, and_true]
  exact ⟨shallow_some hoperations, shallow_some (depth_array depth_type discovery.types)⟩

/-- A reader of documents finds the operations and types as they were registered. -/
theorem readWire_json {read : String → Option Json} (hreads : Reads nearest read)
    (discovery : Discovery) :
    (read discovery.json).bind readWire =
      some (discovery.operations.map registeredOperation, discovery.types.map registeredType) := by
  have htext := @json_text nearest discovery
  have hdepth := @depth_discovery nearest discovery
  have hspelled : TextOf nearest (@discoveryWritten nearest discovery).json discovery.json.toList :=
    htext ▸ (discoveryWritten discovery).spelled
  rw [hreads _ _ hspelled]
  unfold Json.readBack Json.recursionLimit
  rw [if_pos (by omega), Option.bind_some]
  exact readWire_written discovery

end ReadBack

/-! ### The metadata behind a document -/

theorem registeredField_injective : Function.Injective registeredField := by
  intro left right h
  cases left
  cases right
  obtain ⟨rfl, rfl⟩ := Field.mk.inj h
  rfl

theorem registeredVariant_injective : Function.Injective registeredVariant := by
  intro left right h
  cases left
  cases right
  obtain ⟨rfl, hfields, rfl⟩ := Variant.mk.inj h
  obtain rfl := List.map_injective_iff.mpr registeredField_injective hfields
  rfl

theorem asStr_injective : ∀ {left right : TypeKind}, left.asStr = right.asStr → left = right
  | .struct, .struct, _ | .enum, .enum, _ => rfl
  | .struct, .enum, h | .enum, .struct, h => absurd h (by decide)

theorem registeredType_injective : Function.Injective registeredType := by
  intro left right h
  obtain ⟨name, path, kind, fields, variants, component, setup, shape⟩ := left
  obtain ⟨name', path', kind', fields', variants', component', setup', shape'⟩ := right
  obtain ⟨rfl, hkind, hfields, hvariants, rfl, hsetup, hnative, rfl⟩ := RawType.mk.inj h
  obtain rfl := List.map_injective_iff.mpr registeredField_injective hfields
  obtain rfl := List.map_injective_iff.mpr registeredVariant_injective hvariants
  obtain rfl := asStr_injective hkind
  have hsetups : setup = setup' := by
    cases setup with
    | none =>
      cases setup' with
      | none => rfl
      | some native => cases hsetup
    | some native =>
      cases setup' with
      | none => cases hsetup
      | some native' => exact congrArg some hnative
  subst hsetups
  rfl

section Nothing

variable {α : Type} {fallback : α} {keep : α → Bool}
  (hkeep : ∀ value, keep value = false ↔ value = fallback)

include hkeep

theorem getD_filter (value : Option α) :
    (value.filter keep).getD fallback = value.getD fallback := by
  cases value with
  | none => rfl
  | some value =>
    rw [Option.filter_some]
    cases hvalue : keep value with
    | true => rfl
    | false => exact ((hkeep value).mp hvalue).symm

theorem filter_getD (value : Option α) :
    value.filter keep = (some (value.getD fallback)).filter keep := by
  cases value with
  | none =>
    rw [Option.getD_none, Option.filter_some, (hkeep fallback).mpr rfl]
    rfl
  | some value => rfl

/-- Options that differ only in how they say nothing. -/
theorem getD_eq_iff {left right : Option α} :
    left.getD fallback = right.getD fallback ↔ left.filter keep = right.filter keep := by
  constructor
  · intro h
    rw [filter_getD hkeep left, filter_getD hkeep right, h]
  · intro h
    rw [← getD_filter hkeep left, ← getD_filter hkeep right, h]

end Nothing

theorem fills_kept (value : String) : decide (value ≠ "") = false ↔ value = "" := by
  rw [decide_eq_false_iff_not, not_not]

theorem arguments_kept (value : List String) : (!value.isEmpty) = false ↔ value = [] := by
  rw [Bool.not_eq_false', List.isEmpty_iff]

theorem registeredOperation_eq_iff {left right : OpMeta} :
    registeredOperation left = registeredOperation right ↔
      settledOperation left = settledOperation right := by
  unfold registeredOperation settledOperation
  rw [Operation.mk.injEq, OpMeta.mk.injEq, getD_eq_iff fills_kept, getD_eq_iff arguments_kept,
    (List.map_injective_iff.mpr registeredField_injective).eq_iff]
  tauto

theorem map_eq_iff {α β γ : Type} {f : α → β} {g : α → γ}
    (h : ∀ left right, f left = f right ↔ g left = g right) {left right : List α} :
    left.map f = right.map f ↔ left.map g = right.map g := by
  induction left generalizing right with
  | nil => cases right <;> simp
  | cons a rest ih =>
    cases right with
    | nil => simp
    | cons b others => rw [List.map_cons, List.map_cons, List.map_cons, List.map_cons,
        List.cons.injEq, List.cons.injEq, h, ih]

theorem writeOperation_settled (out : List Char) (op : OpMeta) :
    writeOperation out (settledOperation op) = writeOperation out op := by
  unfold writeOperation settledOperation
  dsimp only
  rw [getD_filter fills_kept, getD_filter arguments_kept]

theorem json_settled (discovery : Discovery) : (settled discovery).json = discovery.json := by
  have hwrite : ∀ (operations : List OpMeta) (out : List Char) (start : Nat),
      ((operations.map settledOperation).zipIdx start).foldl (fun out (op, index) =>
        writeOperation (if 0 < index then out ++ [','] else out) op) out =
      (operations.zipIdx start).foldl (fun out (op, index) =>
        writeOperation (if 0 < index then out ++ [','] else out) op) out := by
    intro operations
    induction operations with
    | nil => exact fun _ _ => rfl
    | cons op rest ih =>
      intro out start
      rw [List.map_cons, List.zipIdx_cons, List.zipIdx_cons, List.foldl_cons, List.foldl_cons, ih]
      dsimp only
      rw [writeOperation_settled]
  unfold Discovery.json writeEach settled
  dsimp only
  rw [hwrite]

/-- Two inventories have the same document exactly if they say the same. -/
theorem json_eq_iff {left right : Discovery} :
    left.json = right.json ↔ settled left = settled right := by
  constructor
  · intro h
    have hleft := @readWire_json (fun _ _ => none) _ parse_reads left
    rw [h, readWire_json parse_reads right] at hleft
    obtain ⟨hoperations, htypes⟩ := Prod.mk.inj (Option.some.inj hleft)
    have htypes := List.map_injective_iff.mpr registeredType_injective htypes
    have hoperations := (map_eq_iff fun left right => @registeredOperation_eq_iff left right).mp
      hoperations
    unfold settled
    rw [← hoperations, htypes]
  · intro h
    rw [← json_settled left, h, json_settled]

/-- The document is valid, is read as the registered metadata, and tells apart all inventories
that say different things. -/
theorem discovery_read {nearest : Bool → ℚ → Option FiniteF64} {read : String → Option Json}
    (hreads : Reads nearest read) (discovery : Discovery) :
    (∃ document, TextOf nearest document discovery.json.toList) ∧
      Registry.parse read discovery.json = some (registered discovery) ∧
      ∀ other : Discovery, other.json = discovery.json ↔ settled other = settled discovery := by
  refine ⟨⟨(@discoveryWritten nearest discovery).json, ?_⟩, ?_, fun other => json_eq_iff⟩
  · rw [@json_text nearest]
    exact (discoveryWritten discovery).spelled
  · unfold Registry.parse
    rw [readWire_json hreads discovery]
    rfl

/-- A setup that says which parameter it fills, if any. -/
def setup (fills : Option String) : OpMeta where
  name := "run"
  modulePath := "fixture"
  fnName := "make"
  isSetup := true
  isAsync := false
  isMethod := false
  consumesReceiver := false
  explicitComponent := false
  isPublic := true
  params := []
  returnType := "State"
  fills := fills
  component := "component.a"
  typeArguments := none
  replaySetup := none

theorem discovery_read_setup :
    Registry.parse (parse fun _ _ => none) (Discovery.mk [setup (some "query")] []).json =
      some (registered ⟨[setup (some "query")], []⟩) :=
  (discovery_read parse_reads ⟨[setup (some "query")], []⟩).2.1

/-- No reader tells a setup that fills the parameter with the empty name from one that names no
parameter. -/
theorem empty_fills_lost :
    ¬ ∃ read : String → Option Discovery, ∀ discovery, read discovery.json = some discovery := by
  intro ⟨read, hread⟩
  have hjson : (Discovery.mk [setup (some "")] []).json = (Discovery.mk [setup none] []).json :=
    json_eq_iff.mpr rfl
  have hempty := hread ⟨[setup (some "")], []⟩
  rw [hjson, hread ⟨[setup none], []⟩] at hempty
  cases hempty

end SpecGate.DiscoveredRegistries

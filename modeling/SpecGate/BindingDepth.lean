import SpecGate.StorageBindings

/-!
Building bindings always comes to an end. The labels that an operation can lead to are
finitely many, and a label that was visited is not followed again; so building stops with an
error or with a table, and an error leaves every earlier node and operation as it was.
-/
namespace SpecGate.BindingDepth

open StepwiseStates RegistryModel StorageBindings DiscoveredSchemas
open ReplayModel (ReplayType RegistryOp Outcome)
open DecodedValues (typeRef)
open Relation (ReflTransGen)

/-! ### The parts of a type -/

theorem partsAll_eq (types : List TypeRef) : partsAll types = types.flatMap parts := by
  induction types with
  | nil => rfl
  | cons type rest ih => rw [partsAll, ih, List.flatMap_cons]

theorem fieldParts_eq (fields : List NamedValue) :
    fieldParts fields = fields.flatMap fun field => parts field.2 := by
  induction fields with
  | nil => rfl
  | cons field rest ih =>
    obtain ⟨name, type⟩ := field
    rw [fieldParts, ih, List.flatMap_cons]

theorem variantParts_eq (variants : List Variant) :
    variantParts variants = variants.flatMap fun variant => payloadParts variant.2 := by
  induction variants with
  | nil => rfl
  | cons variant rest ih =>
    obtain ⟨name, payload⟩ := variant
    rw [variantParts, ih, List.flatMap_cons]

/-- The parts of a type are the type itself and the parts of its constituents. -/
theorem mem_parts_iff {part type : TypeRef} :
    part ∈ parts type ↔ part = type ∨ ∃ child, Part child type ∧ part ∈ parts child := by
  constructor
  · intro h
    cases type with
    | primitive name | named name component registry => exact .inl (List.mem_singleton.mp h)
    | collection items ordered unique =>
      rcases List.mem_cons.mp h with rfl | h
      · exact .inl rfl
      · exact .inr ⟨items, .items items ordered unique, h⟩
    | map keys values ordered =>
      rcases List.mem_cons.mp h with rfl | h
      · exact .inl rfl
      · rcases List.mem_append.mp h with h | h
        · exact .inr ⟨keys, .keys keys values ordered, h⟩
        · exact .inr ⟨values, .values keys values ordered, h⟩
    | tuple items =>
      rcases List.mem_cons.mp h with rfl | h
      · exact .inl rfl
      · rw [partsAll_eq, List.mem_flatMap] at h
        obtain ⟨item, hitem, h⟩ := h
        exact .inr ⟨item, .item hitem, h⟩
    | record fields =>
      rcases List.mem_cons.mp h with rfl | h
      · exact .inl rfl
      · rw [fieldParts_eq, List.mem_flatMap] at h
        obtain ⟨field, hfield, h⟩ := h
        exact .inr ⟨field.2, .field hfield, h⟩
    | optional value =>
      rcases List.mem_cons.mp h with rfl | h
      · exact .inl rfl
      · exact .inr ⟨value, .value value, h⟩
    | taggedUnion variants =>
      rcases List.mem_cons.mp h with rfl | h
      · exact .inl rfl
      · rw [variantParts_eq, List.mem_flatMap] at h
        obtain ⟨⟨name, payload⟩, hvariant, h⟩ := h
        cases payload with
        | none => cases h
        | some payload => exact .inr ⟨payload, .payload hvariant, h⟩
  · rintro (rfl | ⟨child, hchild, h⟩)
    · cases part <;> exact List.mem_cons_self
    · cases hchild with
      | items items ordered unique => exact List.mem_cons_of_mem _ h
      | keys keys values ordered => exact List.mem_cons_of_mem _ (List.mem_append_left _ h)
      | values keys values ordered => exact List.mem_cons_of_mem _ (List.mem_append_right _ h)
      | item hitem =>
        refine List.mem_cons_of_mem _ ?_
        rw [partsAll_eq]
        exact List.mem_flatMap.mpr ⟨_, hitem, h⟩
      | field hfield =>
        refine List.mem_cons_of_mem _ ?_
        rw [fieldParts_eq]
        exact List.mem_flatMap.mpr ⟨_, hfield, h⟩
      | value value => exact List.mem_cons_of_mem _ h
      | payload hvariant =>
        refine List.mem_cons_of_mem _ ?_
        rw [variantParts_eq]
        exact List.mem_flatMap.mpr ⟨_, hvariant, h⟩

theorem self_mem_parts (type : TypeRef) : type ∈ parts type := mem_parts_iff.mpr (.inl rfl)

theorem mem_parts_of_part {inner part type : TypeRef} (h : part ∈ parts type)
    (hpart : Part inner part) : inner ∈ parts type := by
  induction type using TypeRef.part_induction with
  | step type ih =>
    rcases mem_parts_iff.mp h with rfl | ⟨child, hchild, h⟩
    · exact mem_parts_iff.mpr (.inr ⟨inner, hpart, self_mem_parts inner⟩)
    · exact mem_parts_iff.mpr (.inr ⟨child, hchild, ih child hchild h⟩)

/-! ### Labels in reach -/

section Reach

variable {reference candidate : List Declarations} {operation : RegistryOp}

/-- The label is one that binding the operation can come across. -/
structure Reach (reference candidate : List Declarations) (operation : RegistryOp)
    (component : String) (expected actual : TypeRef) : Prop where
  component : component ∈ components reference operation
  expected : expected ∈ expectedTypes reference operation
  actual : actual ∈ actualTypes candidate

theorem Reach.mem_labels {component : String} {expected actual : TypeRef}
    (h : Reach reference candidate operation component expected actual) :
    (component, expected, actual) ∈ labels reference candidate operation :=
  List.pair_mem_product.mpr ⟨h.component, List.pair_mem_product.mpr ⟨h.expected, h.actual⟩⟩

theorem expectedTypes_part {part type : TypeRef} (h : type ∈ expectedTypes reference operation)
    (hpart : Part part type) : part ∈ expectedTypes reference operation := by
  obtain ⟨root, hroot, h⟩ := List.mem_flatMap.mp h
  exact List.mem_flatMap.mpr ⟨root, hroot, mem_parts_of_part h hpart⟩

theorem actualTypes_part {part type : TypeRef} (h : type ∈ actualTypes candidate)
    (hpart : Part part type) : part ∈ actualTypes candidate := by
  obtain ⟨root, hroot, h⟩ := List.mem_flatMap.mp h
  exact List.mem_flatMap.mpr ⟨root, hroot, mem_parts_of_part h hpart⟩

theorem Reach.parts {component : String} {expected actual part other : TypeRef}
    (h : Reach reference candidate operation component expected actual)
    (hpart : Part part expected) (hother : Part other actual) :
    Reach reference candidate operation component part other :=
  ⟨h.component, expectedTypes_part h.expected hpart, actualTypes_part h.actual hother⟩

/-- A declared type is declared by a component of the registry, and is not a name. -/
theorem typeMember_eq_some {registry : List Declarations} {component name : String}
    {type : TypeRef} (h : typeMember registry component name = some type) :
    component ∈ registry.map Declarations.id ∧ type ∈ declaredTypes registry ∧
      ∃ declared : NamedType, type = declared.asType := by
  obtain ⟨entry, hentry, h⟩ := Option.bind_eq_some_iff.mp h
  obtain ⟨declared, hdeclared, rfl⟩ := Option.map_eq_some_iff.mp h
  have hmem := List.mem_of_find?_eq_some hentry
  have hid := List.find?_some hentry
  refine ⟨List.mem_map.mpr ⟨entry, hmem, of_decide_eq_true hid⟩, ?_, declared, rfl⟩
  exact List.mem_flatMap.mpr ⟨entry, hmem, List.mem_map.mpr
    ⟨declared, List.mem_of_find?_eq_some hdeclared, rfl⟩⟩

theorem mem_actualTypes_of_typeMember {component name : String} {type : TypeRef}
    (h : typeMember candidate component name = some type) : type ∈ actualTypes candidate :=
  List.mem_flatMap.mpr
    ⟨type, List.mem_append_right _ (typeMember_eq_some h).2.1, self_mem_parts type⟩

theorem Reach.declared {owner actualOwner name : String} {left right : TypeRef}
    (hleft : typeMember reference owner name = some left)
    (hright : typeMember candidate actualOwner name = some right) :
    Reach reference candidate operation owner left right where
  component := List.mem_cons_of_mem _ (typeMember_eq_some hleft).1
  expected := List.mem_flatMap.mpr
    ⟨left, List.mem_append_right _ (typeMember_eq_some hleft).2.1, self_mem_parts left⟩
  actual := mem_actualTypes_of_typeMember hright

end Reach

/-! ### Room for labels -/

/-- The builder after a node was reserved for a label. -/
def reserved (builder : Builder) (label : Label) : Builder :=
  ⟨{ builder.bindings with nodes := builder.bindings.nodes ++ [.identity] },
    (label, builder.bindings.nodes.length) :: builder.visited⟩

/-- The builder after a reserved node was filled. -/
def filled (builder : Builder) (id : Nat) (node : Node) : Builder :=
  { builder with bindings := { builder.bindings with nodes := builder.bindings.nodes.set id node } }

/-- An error of its own, not a panic or a run that went too deep. -/
def Reported : Stop → Prop
  | .error _ => True
  | _ => False

theorem reported_structured (expected : TypeRef) (component location : String) (stop : Stop)
    (h : Reported stop) : Reported (structured expected component location stop) := by
  cases stop with
  | error diagnostic =>
    unfold structured
    dsimp only
    split <;> trivial
  | panic message => exact h
  | exhausted => exact h

/-- What an operation found in the table is still there, and the labels that were visited leave
room for `n` more. -/
structure Room (base : Bindings) (all : List Label) (n : Nat) (builder : Builder) : Prop where
  nodes : base.nodes <+: builder.bindings.nodes
  operations : builder.bindings.operations = base.operations
  rejections : builder.bindings.rejections = base.rejections
  distinct : (builder.visited.map Prod.fst).Nodup
  known : builder.visited.map Prod.fst ⊆ all
  room : all.length ≤ builder.visited.length + n

theorem prefix_set {α : Type} {before nodes : List α} (h : before <+: nodes) {id : Nat}
    (hid : before.length ≤ id) (node : α) : before <+: nodes.set id node := by
  obtain ⟨rest, rfl⟩ := h
  rw [List.set_append_right _ _ hid]
  exact List.prefix_append before _

section Held

variable {base : Bindings} {all : List Label} {n : Nat} {builder : Builder}

theorem Room.mono {m : Nat} (h : Room base all n builder) (hle : n ≤ m) :
    Room base all m builder := { h with room := h.room.trans (by omega) }

/-- A label that was not visited takes up room that is left. -/
theorem Room.reserved (h : Room base all n builder) {label : Label} (hlabel : label ∈ all)
    (hnew : builder.visited.lookup label = none) :
    ∃ m, n = m + 1 ∧ Room base all m (reserved builder label) := by
  have hfresh : label ∉ builder.visited.map Prod.fst := by
    intro hmem
    obtain ⟨entry, hentry, hfirst⟩ := List.mem_map.mp hmem
    have hne := List.lookup_eq_none_iff.mp hnew entry hentry
    exact absurd hfirst.symm (by simpa using hne)
  have hdistinct : (label :: builder.visited.map Prod.fst).Nodup := List.nodup_cons.mpr
    ⟨hfresh, h.distinct⟩
  have hknown : label :: builder.visited.map Prod.fst ⊆ all :=
    List.cons_subset.mpr ⟨hlabel, h.known⟩
  have hlength := (hdistinct.subperm hknown).length_le
  rw [List.length_cons, List.length_map] at hlength
  have hroom := h.room
  refine ⟨n - 1, by omega, ?_⟩
  refine ⟨h.nodes.trans (List.prefix_append _ _), h.operations, h.rejections, hdistinct, hknown, ?_⟩
  show all.length ≤ (builder.visited.length + 1) + (n - 1)
  omega

theorem Room.filled (h : Room base all n builder) {id : Nat} (hid : base.nodes.length ≤ id)
    (node : Node) : Room base all n (filled builder id node) :=
  ⟨prefix_set h.nodes hid node, h.operations, h.rejections, h.distinct, h.known, h.room⟩

theorem holds_fail {α : Type} (diagnostic : String) :
    Holds (Room base all n) Reported (fail diagnostic : Building α) := holds_throw trivial

/-- What follows a needed value runs only with the value that is there. -/
theorem holds_needed {α β : Type} {value : Option α} {diagnostic : String} {next : α → Building β}
    (h : ∀ found, value = some found → Holds (Room base all n) Reported (next found)) :
    Holds (Room base all n) Reported (need value diagnostic >>= next) := by
  cases value with
  | none => exact fun builder hroom => ⟨trivial, hroom⟩
  | some found => exact fun builder hroom => h found rfl builder hroom

theorem holds_mismatch {α : Type} (display : TypeRef → String) (expected : TypeRef)
    (actual : Option TypeRef) (component location : String) :
    Holds (Room base all n) Reported
      (mismatch display expected actual component location : Building α) := holds_fail _

theorem holds_pushNode (node : Node) : Holds (Room base all n) Reported (pushNode node) := by
  intro builder h
  exact { h with nodes := h.nodes.trans (List.prefix_append _ _) }

end Held

section Building

variable {display : TypeRef → String} {reference candidate : List Declarations}

/-- A label that was not visited gets a node, which is filled when its types were compared. -/
theorem bind_eq (fuel : Nat) (expected actual : TypeRef) (component location : String)
    (builder : Builder) :
    bind display reference candidate (fuel + 1) expected actual component location builder =
      match builder.visited.lookup (component, expected, actual) with
      | some id => .ok id builder
      | none =>
          match mapError (structured expected component location)
            (shape display reference candidate fuel expected actual component location)
            (reserved builder (component, expected, actual)) with
          | .ok node after => .ok builder.bindings.nodes.length
              (filled after builder.bindings.nodes.length node)
          | .error stop after => .error stop after := by
  rw [StorageBindings.bind]
  show EStateM.bind get _ builder = _
  unfold EStateM.bind
  show (match builder.visited.lookup (component, expected, actual) with
    | some id => (pure id : Building Nat)
    | none => reserve (component, expected, actual) >>= fun id =>
        mapError (structured expected component location)
          (shape display reference candidate fuel expected actual component location) >>= fun node =>
            setNode id node >>= fun _ => pure id) builder = _
  cases builder.visited.lookup (component, expected, actual) with
  | some id => rfl
  | none =>
    have hreserve : reserve (component, expected, actual) builder =
        .ok builder.bindings.nodes.length (reserved builder (component, expected, actual)) := rfl
    dsimp only
    rw [StepwiseStates.bind_run, hreserve]
    dsimp only
    rw [StepwiseStates.bind_run]
    cases mapError (structured expected component location)
      (shape display reference candidate fuel expected actual component location)
      (reserved builder (component, expected, actual)) <;> rfl

/-! ### Every run ends -/

section Runs

variable {operation : RegistryOp} {base : Bindings} {fuel n : Nat} {component : String}

/-- A new label takes room, and the types behind it have what is left. -/
theorem holds_bindLabel {expected actual : TypeRef} {location : String}
    (h : Reach reference candidate operation component expected actual)
    (hshape : ∀ m, n = m + 1 → Holds (Room base (labels reference candidate operation) m) Reported
      (shape display reference candidate fuel expected actual component location)) :
    Holds (Room base (labels reference candidate operation) n) Reported
      (StorageBindings.bind display reference candidate (fuel + 1) expected actual component
        location) := by
  intro builder hroom
  rw [bind_eq]
  cases hlookup : builder.visited.lookup (component, expected, actual) with
  | some id => exact hroom
  | none =>
    obtain ⟨m, rfl, hreserved⟩ := hroom.reserved h.mem_labels hlookup
    have hrun := holds_mapError (reported_structured expected component location) (hshape m rfl) _
      hreserved
    revert hrun
    dsimp only
    cases mapError (structured expected component location)
      (shape display reference candidate fuel expected actual component location)
      (reserved builder (component, expected, actual)) with
    | ok node after =>
      exact fun hafter => (hafter.mono (Nat.le_succ m)).filled hroom.nodes.length_le node
    | error stop after => exact fun hafter => ⟨hafter.1, hafter.2.mono (Nat.le_succ m)⟩

theorem holds_tuple {items others : List TypeRef}
    (hbind : ∀ expected actual location, Reach reference candidate operation component expected actual →
      Holds (Room base (labels reference candidate operation) n) Reported
        (StorageBindings.bind display reference candidate fuel expected actual component location))
    (location : String)
    (h : Reach reference candidate operation component (.tuple items) (.tuple others)) :
    Holds (Room base (labels reference candidate operation) n) Reported
      (StorageBindings.tuple display reference candidate (fuel + 1) items others component
        location) := by
  rw [StorageBindings.tuple]
  split
  · exact holds_mismatch _ _ _ _ _
  · refine holds_bind (holds_mapM fun entry hentry => ?_) fun ids => holds_pure _
    obtain ⟨hitem, hother⟩ := List.of_mem_zip (List.fst_mem_of_mem_zipIdx hentry)
    exact hbind _ _ _ (h.parts (.item hitem) (.item hother))

theorem mem_of_lookup {α β : Type} [BEq α] [LawfulBEq α] {entries : List (α × β)} {key : α}
    {value : β} (h : entries.lookup key = some value) : (key, value) ∈ entries := by
  obtain ⟨before, after, rfl, -⟩ := List.lookup_eq_some_iff.mp h
  exact List.mem_append_right _ List.mem_cons_self

/-- Comparing two types of which the stored one is not a name. -/
theorem holds_shape {expected actual : TypeRef} (hname : ∀ name owner registry,
      actual ≠ .named name owner registry)
    (hbind : ∀ expected actual location, Reach reference candidate operation component expected actual →
      Holds (Room base (labels reference candidate operation) n) Reported
        (StorageBindings.bind display reference candidate fuel expected actual component location))
    (htuple : ∀ items others location,
      Reach reference candidate operation component (.tuple items) (.tuple others) →
      Holds (Room base (labels reference candidate operation) n) Reported
        (StorageBindings.tuple display reference candidate fuel items others component location))
    (location : String) (h : Reach reference candidate operation component expected actual) :
    Holds (Room base (labels reference candidate operation) n) Reported
      (shape display reference candidate (fuel + 1) expected actual component location) := by
  rw [shape.eq_def]
  dsimp only
  split
  · split
    · exact holds_pure _
    · exact holds_mismatch _ _ _ _ _
  · exact absurd rfl (hname _ _ _)
  · exact absurd rfl (hname _ _ _)
  · split
    · exact holds_bind (hbind _ _ _ (h.parts (.items ..) (.items ..))) fun item => holds_pure _
    · exact holds_mismatch _ _ _ _ _
  · exact holds_bind (hbind _ _ _ (h.parts (.value _) (.value _))) fun value => holds_pure _
  · split
    · refine holds_bind (hbind _ _ _ (h.parts (.keys ..) (.keys ..))) fun keyNode => ?_
      exact holds_bind (hbind _ _ _ (h.parts (.values ..) (.values ..))) fun value => holds_pure _
    · exact holds_mismatch _ _ _ _ _
  · rename_i keys values ordered keys' values'
    have hpair : ∀ {part : TypeRef}, part ∈ [keys', values'] → part ∈ actualTypes candidate :=
      fun hmem => actualTypes_part (actualTypes_part h.actual (.items ..)) (.item hmem)
    refine holds_bind (hbind _ _ _ ⟨h.component, expectedTypes_part h.expected (.keys ..),
      hpair List.mem_cons_self⟩) fun keyNode => ?_
    exact holds_bind (hbind _ _ _ ⟨h.component, expectedTypes_part h.expected (.values ..),
      hpair (List.mem_cons_of_mem _ List.mem_cons_self)⟩) fun value => holds_pure _
  · split
    · exact htuple _ _ _ h
    · exact holds_mismatch _ _ _ _ _
  · split
    · exact holds_mismatch _ _ _ _ _
    · refine holds_bind (holds_mapM fun field hfield => ?_) fun entries => holds_pure _
      split
      · exact holds_mismatch _ _ _ _ _
      · rename_i other hother
        exact holds_bind (hbind _ _ _ (h.parts (.field hfield) (.field (mem_of_lookup hother))))
          fun id => holds_pure _
  · split
    · exact holds_mismatch _ _ _ _ _
    · refine holds_bind (holds_mapM fun variant hvariant => ?_) fun entries => holds_pure _
      obtain ⟨name, payload⟩ := variant
      dsimp only
      split
      · exact holds_pure _
      · rename_i rights lefts hother
        refine holds_bind (htuple _ _ _ (h.parts (.payload hvariant)
          (.payload (mem_of_lookup hother)))) fun node => ?_
        exact holds_bind (holds_pushNode node) fun id => holds_pure _
      · rename_i other payload _ hother
        exact holds_bind (hbind _ _ _ (h.parts (.payload hvariant)
          (.payload (mem_of_lookup hother)))) fun id => holds_pure _
      · exact holds_mismatch _ _ _ _ _
  · exact holds_mismatch _ _ _ _ _

/-- A name is followed to its declaration, which is not a name. -/
theorem holds_shape_named {expected actual : TypeRef}
    (hshape : ∀ component expected actual location,
      (∀ name owner registry, actual ≠ .named name owner registry) →
      Reach reference candidate operation component expected actual →
      Holds (Room base (labels reference candidate operation) n) Reported
        (shape display reference candidate fuel expected actual component location))
    {name : String} {owner registry : Option String} (hactual : actual = .named name owner registry)
    (location : String) (h : Reach reference candidate operation component expected actual) :
    Holds (Room base (labels reference candidate operation) n) Reported
      (shape display reference candidate (fuel + 1) expected actual component location) := by
  have hdeclared : ∀ {owner name : String} {type : TypeRef},
      typeMember candidate owner name = some type → ∀ name owner registry,
        type ≠ .named name owner registry := by
    intro owner name type htype name' owner' registry' hnamed
    obtain ⟨-, -, declared, rfl⟩ := typeMember_eq_some htype
    cases declared <;> cases hnamed
  subst hactual
  rw [shape.eq_def]
  dsimp only
  split
  · rename_i hactual
    cases hactual
  · split
    · exact holds_mismatch _ _ _ _ _
    · refine holds_needed fun left hleft => holds_needed fun right hright => ?_
      exact hshape _ _ _ _ (hdeclared hright) (Reach.declared hleft hright)
  · refine holds_needed fun declaration hdeclaration => ?_
    split
    · split
      · exact hshape _ _ _ _ (hdeclared hdeclaration)
          ⟨h.component, h.expected, mem_actualTypes_of_typeMember hdeclaration⟩
      · exact holds_mismatch _ _ _ _ _
    · exact holds_mismatch _ _ _ _ _
  all_goals first
    | exact holds_mismatch _ _ _ _ _
    | (rename_i hactual; cases hactual)

/-- With four calls for every label that there is room for, no run is cut short. -/
theorem holds_calls (fuel : Nat) :
    (∀ n component expected actual location, 4 * n + 1 ≤ fuel →
      Reach reference candidate operation component expected actual →
      Holds (Room base (labels reference candidate operation) n) Reported
        (StorageBindings.bind display reference candidate fuel expected actual component
          location)) ∧
    (∀ n component items others location, 4 * n + 2 ≤ fuel →
      Reach reference candidate operation component (.tuple items) (.tuple others) →
      Holds (Room base (labels reference candidate operation) n) Reported
        (StorageBindings.tuple display reference candidate fuel items others component
          location)) ∧
    (∀ n component expected actual location, 4 * n + 3 ≤ fuel →
      (∀ name owner registry, actual ≠ .named name owner registry) →
      Reach reference candidate operation component expected actual →
      Holds (Room base (labels reference candidate operation) n) Reported
        (shape display reference candidate fuel expected actual component location)) ∧
    (∀ n component expected actual location, 4 * n + 4 ≤ fuel →
      Reach reference candidate operation component expected actual →
      Holds (Room base (labels reference candidate operation) n) Reported
        (shape display reference candidate fuel expected actual component location)) := by
  induction fuel with
  | zero =>
    refine ⟨?_, ?_, ?_, ?_⟩ <;> (intros; omega)
  | succ fuel ih =>
    obtain ⟨hbind, htuple, hplain, hshape⟩ := ih
    have hunnamed : ∀ n component expected actual location, 4 * n + 3 ≤ fuel + 1 →
        (∀ name owner registry, actual ≠ .named name owner registry) →
        Reach reference candidate operation component expected actual →
        Holds (Room base (labels reference candidate operation) n) Reported
          (shape display reference candidate (fuel + 1) expected actual component location) := by
      intro n component expected actual location hfuel hname h
      exact holds_shape hname
        (fun expected actual location => hbind n component expected actual location (by omega))
        (fun items others location => htuple n component items others location (by omega))
        location h
    refine ⟨?_, ?_, hunnamed, ?_⟩
    · intro n component expected actual location hfuel h
      refine holds_bindLabel h fun m hm => ?_
      exact hshape m component expected actual location (by omega) h
    · intro n component items others location hfuel h
      exact holds_tuple (fun expected actual location =>
        hbind n component expected actual location (by omega)) location h
    · intro n component expected actual location hfuel h
      cases actual with
      | named name owner registry =>
        exact holds_shape_named (fun component expected actual location hname =>
          hplain n component expected actual location (by omega) hname) rfl location h
      | _ => exact hunnamed n component expected _ location (by omega) (by simp) h

/-! ### Operations -/

theorem mem_actualTypes_of_channel {name : String} {found : DeclaredOperation} {type : TypeRef}
    (hfound : operationMember candidate component name = some found)
    (htype : type ∈ found.channels) : type ∈ actualTypes candidate := by
  obtain ⟨entry, hentry, hfound⟩ := Option.bind_eq_some_iff.mp hfound
  refine List.mem_flatMap.mpr ⟨type, List.mem_append_left _ ?_, self_mem_parts type⟩
  exact List.mem_flatMap.mpr ⟨entry, List.mem_of_find?_eq_some hentry,
    List.mem_flatMap.mpr ⟨found, List.mem_of_find?_eq_some hfound, htype⟩⟩

theorem mem_expectedTypes_of_channel {type : ReplayType}
    (h : type ∈ operation.inputs.map Prod.snd ++ operation.output.toList ++
      operation.errors.filterMap Outcome.valueType) :
    typeRef type ∈ expectedTypes reference operation :=
  List.mem_flatMap.mpr ⟨typeRef type,
    List.mem_append_left _ (List.mem_map.mpr ⟨type, h, rfl⟩), self_mem_parts _⟩

theorem holds_bindChannel {expected : ReplayType} {actual : Option TypeRef}
    (hexpected : typeRef expected ∈ expectedTypes reference operation)
    (hactual : ∀ type, actual = some type → type ∈ actualTypes candidate) (location : String) :
    Holds (Room base (labels reference candidate operation)
        (labels reference candidate operation).length) Reported
      (bindChannel display reference candidate (depth reference candidate operation) expected actual
        operation.componentId location) := by
  cases actual with
  | none =>
    refine holds_bind (holds_pushNode _) fun _ => ?_
    exact holds_mapError (reported_structured _ _ _) (holds_mismatch _ _ _ _ _)
  | some type =>
    exact (holds_calls (depth reference candidate operation)).1 _ _ _ _ _ le_rfl
      ⟨List.mem_cons_self, hexpected, hactual type rfl⟩

theorem holds_lift {α : Type} {all : List Label} (checked : Except String α) :
    Holds (Room base all n) Reported (lift checked) := by
  cases checked with
  | ok value => exact holds_pure value
  | error diagnostic => exact holds_fail diagnostic

/-- Binding an operation ends, with an error of its own if it fails. -/
theorem holds_boundOperation {schema : Schema}
    (hschema : ∀ found, operationMember candidate operation.componentId operation.name = some found →
      ∃ declared ∈ schema.operations, declared.name = operation.name) :
    Holds (Room base (labels reference candidate operation)
        (labels reference candidate operation).length) Reported
      (boundOperation display reference candidate (depth reference candidate operation) operation
        schema) := by
  unfold boundOperation
  refine holds_needed fun found hfound => ?_
  have hchannel : ∀ type ∈ found.channels, type ∈ actualTypes candidate :=
    fun type htype => mem_actualTypes_of_channel hfound htype
  obtain ⟨declared, hdeclared, hname⟩ := hschema found hfound
  have hsome : (schema.operations.find? fun declared => declared.name = operation.name).isSome :=
    List.find?_isSome.mpr ⟨declared, hdeclared, decide_eq_true hname⟩
  obtain ⟨normalized, hnormalized⟩ := Option.isSome_iff_exists.mp hsome
  rw [hnormalized]
  refine holds_bind (holds_pure normalized) fun normalized => ?_
  refine holds_bind (holds_lift _) fun _ => holds_bind (holds_lift _) fun _ => ?_
  refine holds_bind (holds_mapM fun input hinput => ?_) fun inputs => ?_
  · refine holds_needed fun native hnative => holds_bind (holds_bindChannel ?_ ?_ _) fun id =>
      holds_pure _
    · refine mem_expectedTypes_of_channel (List.mem_append_left _ (List.mem_append_left _ ?_))
      exact List.mem_map.mpr ⟨input, hinput, rfl⟩
    · rintro type ⟨⟩
      refine hchannel _ (List.mem_append_left _ (List.mem_append_left _ ?_))
      exact List.mem_map.mpr ⟨_, mem_of_lookup hnative, rfl⟩
  refine holds_bind ?_ fun result => ?_
  · split
    · exact holds_pure none
    · rename_i type htype
      refine holds_map some (holds_bindChannel ?_ ?_ _)
      · refine mem_expectedTypes_of_channel (List.mem_append_left _ (List.mem_append_right _ ?_))
        exact Option.mem_toList.mpr htype
      · intro other hother
        refine hchannel _ (List.mem_append_left _ (List.mem_append_right _ ?_))
        exact Option.mem_toList.mpr hother
  refine holds_bind (holds_mapM fun error herror => ?_) fun errors => holds_pure _
  refine holds_needed fun native hnative => ?_
  split
  · exact holds_pure _
  · rename_i type htype
    refine holds_bind (holds_bindChannel ?_ ?_ _) fun id => holds_pure _
    · refine mem_expectedTypes_of_channel (List.mem_append_right _ ?_)
      exact List.mem_filterMap.mpr ⟨error, herror, htype⟩
    · intro other hother
      refine hchannel _ (List.mem_append_right _ ?_)
      exact List.mem_filterMap.mpr ⟨_, mem_of_lookup hnative, hother⟩

end Runs

end Building

end SpecGate.BindingDepth

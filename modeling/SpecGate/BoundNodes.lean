import SpecGate.BindingDepth

/-!
What the nodes of a table say about the types that were compared. The nodes behind a label
make up a graph, cyclic where the types are recursive; a node says how the two types
correspond, part by part, and its children say the same about the parts.
-/
namespace SpecGate.BoundNodes

open StepwiseStates RegistryModel StorageBindings BindingDepth SortedAssoc

/-! ### Nodes and types -/

section Graph

variable (reference candidate : List Declarations)

section Shapes

variable (nodes : List Node) (R : String → TypeRef → TypeRef → Nat → Prop)

/-- Two lists of types are bound in their order. -/
def BoundAll (component : String) (items others : List TypeRef) (ids : List Nat) : Prop :=
  items.length = others.length ∧
    List.Forall₂ (fun pair id => R component pair.1 pair.2 id) (items.zip others) ids

/-- The payloads of a variant on both sides, and the node for them. -/
inductive PayloadBound (component : String) :
    Option TypeRef → Option (Option TypeRef) → Option Nat → Prop
  | unit : PayloadBound component none (some none) none
  | tuple {items others ids id} (hnode : nodes[id]? = some (.tuple ids))
      (h : BoundAll R component items others ids) :
      PayloadBound component (some (.tuple items)) (some (some (.tuple others))) (some id)
  | value {payload other id} (h : R component payload other id) :
      PayloadBound component (some payload) (some (some other)) (some id)

/-- How a node binds two types, if `R` holds of the nodes that it refers to. -/
inductive Shape : String → TypeRef → TypeRef → Node → Prop
  | primitive {component name} : Shape component (.primitive name) (.primitive name) .identity
  | named {component owner name expectedOwner actualOwner left right node}
      (hexpected : expectedOwner.getD component = owner) (hactual : actualOwner.getD component = owner)
      (hleft : typeMember reference owner name = some left)
      (hright : typeMember candidate owner name = some right) (h : Shape owner left right node) :
      Shape component (.named name expectedOwner none) (.named name actualOwner none) node
  | inline {component name actualOwner fields others node}
      (hactual : actualOwner.getD component = component)
      (hmember : typeMember candidate component name = some (.record others))
      (h : Shape component (.record fields) (.record others) node) :
      Shape component (.record fields) (.named name actualOwner none) node
  | sequence {component items others ordered unique ordered' unique' id}
      (h : R component items others id) :
      Shape component (.collection items ordered unique) (.collection others ordered' unique')
        (.sequence id)
  | optional {component value other id} (h : R component value other id) :
      Shape component (.optional value) (.optional other) (.optional id)
  | map {component keys values keys' values' key value} (hkey : R component keys keys' key)
      (hvalue : R component values values' value) :
      Shape component (.map keys values false) (.map keys' values' false)
        (.map key value false (isCompact keys))
  | pairs {component keys values ordered keys' values' key value} (hkey : R component keys keys' key)
      (hvalue : R component values values' value) :
      Shape component (.map keys values ordered) (.collection (.tuple [keys', values']) true false)
        (.map key value true (!ordered && isCompact keys))
  | tuple {component items others ids} (h : BoundAll R component items others ids) :
      Shape component (.tuple items) (.tuple others) (.tuple ids)
  | record {component fields others entries} (hlength : fields.length = others.length)
      (h : List.Forall₂ (fun (field : NamedValue) (entry : String × Nat) => entry.1 = field.1 ∧
        ∃ other, others.lookup field.1 = some other ∧ R component field.2 other entry.2)
        fields entries) :
      Shape component (.record fields) (.record others) (.record (ofList entries))
  | tagged {component variants others entries} (hlength : variants.length = others.length)
      (h : List.Forall₂ (fun (variant : Variant) (entry : String × Option Nat) =>
        entry.1 = variant.1 ∧
          PayloadBound nodes R component variant.2 (others.lookup variant.1) entry.2)
        variants entries) :
      Shape component (.taggedUnion variants) (.taggedUnion others) (.tagged (ofList entries))

end Shapes

variable {reference candidate}

section Mono

variable {nodes nodes' : List Node} {R R' : String → TypeRef → TypeRef → Nat → Prop}

theorem BoundAll.mono (hR : ∀ component expected actual id, R component expected actual id →
    R' component expected actual id) {component : String} {items others : List TypeRef}
    {ids : List Nat} (h : BoundAll R component items others ids) :
    BoundAll R' component items others ids :=
  ⟨h.1, h.2.imp fun _ _ => hR _ _ _ _⟩

theorem PayloadBound.mono
    (hnodes : ∀ (id : Nat) (ids : List Nat),
      nodes[id]? = some (Node.tuple ids) → nodes'[id]? = some (Node.tuple ids))
    (hR : ∀ component expected actual id, R component expected actual id →
      R' component expected actual id) {component : String} {payload : Option TypeRef}
    {other : Option (Option TypeRef)} {id : Option Nat}
    (h : PayloadBound nodes R component payload other id) :
    PayloadBound nodes' R' component payload other id := by
  cases h with
  | unit => exact .unit
  | tuple hnode h => exact .tuple (hnodes _ _ hnode) (h.mono hR)
  | value h => exact .value (hR _ _ _ _ h)

theorem PayloadBound.declared {component : String} {payload : Option TypeRef}
    {other : Option (Option TypeRef)} {id : Option Nat}
    (h : PayloadBound nodes R component payload other id) : ∃ found, other = some found := by
  cases h <;> exact ⟨_, rfl⟩

/-- A binding lasts as long as the nodes for tuples stay and the labels keep their nodes. -/
theorem Shape.mono
    (hnodes : ∀ (id : Nat) (ids : List Nat),
      nodes[id]? = some (Node.tuple ids) → nodes'[id]? = some (Node.tuple ids))
    (hR : ∀ component expected actual id, R component expected actual id →
      R' component expected actual id) {component : String} {expected actual : TypeRef} {node : Node}
    (h : Shape reference candidate nodes R component expected actual node) :
    Shape reference candidate nodes' R' component expected actual node := by
  induction h with
  | primitive => exact .primitive
  | named hexpected hactual hleft hright _ ih => exact .named hexpected hactual hleft hright ih
  | inline hactual hmember _ ih => exact .inline hactual hmember ih
  | sequence h => exact .sequence (hR _ _ _ _ h)
  | optional h => exact .optional (hR _ _ _ _ h)
  | map hkey hvalue => exact .map (hR _ _ _ _ hkey) (hR _ _ _ _ hvalue)
  | pairs hkey hvalue => exact .pairs (hR _ _ _ _ hkey) (hR _ _ _ _ hvalue)
  | tuple h => exact .tuple (h.mono hR)
  | record hlength h =>
    refine .record hlength (h.imp ?_)
    rintro field entry ⟨hname, other, hother, h⟩
    exact ⟨hname, other, hother, hR _ _ _ _ h⟩
  | tagged hlength h =>
    refine .tagged hlength (h.imp ?_)
    rintro variant entry ⟨hname, h⟩
    exact ⟨hname, h.mono hnodes hR⟩

end Mono

/-- Every binding in `R` is made by the node that it names. -/
def Closed (reference candidate : List Declarations) (nodes : List Node)
    (R : String → TypeRef → TypeRef → Nat → Prop) : Prop :=
  ∀ component expected actual id, R component expected actual id →
    ∃ node, nodes[id]? = some node ∧ Shape reference candidate nodes R component expected actual node

/-- The node, with all that it refers to, binds the two types. -/
def Realises (reference candidate : List Declarations) (nodes : List Node) (component : String)
    (expected actual : TypeRef) (id : Nat) : Prop :=
  ∃ R, Closed reference candidate nodes R ∧ R component expected actual id

theorem prefix_node {nodes nodes' : List Node} (hfront : nodes <+: nodes') {id : Nat} {node : Node}
    (h : nodes[id]? = some node) : nodes'[id]? = some node := by
  obtain ⟨rest, rfl⟩ := hfront
  rw [List.getElem?_append_left (List.getElem?_eq_some_iff.mp h).1]
  exact h

theorem Closed.mono {nodes nodes' : List Node} (hfront : nodes <+: nodes')
    {R : String → TypeRef → TypeRef → Nat → Prop} (h : Closed reference candidate nodes R) :
    Closed reference candidate nodes' R := by
  intro component expected actual id hid
  obtain ⟨node, hnode, hshape⟩ := h component expected actual id hid
  exact ⟨node, prefix_node hfront hnode,
    hshape.mono (fun _ _ => prefix_node hfront) fun _ _ _ _ h => h⟩

theorem Realises.mono {nodes nodes' : List Node} (hfront : nodes <+: nodes') {component : String}
    {expected actual : TypeRef} {id : Nat}
    (h : Realises reference candidate nodes component expected actual id) :
    Realises reference candidate nodes' component expected actual id := by
  obtain ⟨R, hclosed, hR⟩ := h
  exact ⟨R, hclosed.mono hfront, hR⟩

/-- The bindings that nodes make are closed. -/
theorem realises_closed (reference candidate : List Declarations) (nodes : List Node) :
    Closed reference candidate nodes (Realises reference candidate nodes) := by
  rintro component expected actual id ⟨R, hclosed, hR⟩
  obtain ⟨node, hnode, hshape⟩ := hclosed component expected actual id hR
  exact ⟨node, hnode, hshape.mono (fun _ _ h => h) fun _ _ _ _ h => ⟨R, hclosed, h⟩⟩

/-- A node for a tuple binds two tuples, also where no label was visited for it. -/
theorem realises_tuple {nodes : List Node} {component : String} {items others : List TypeRef}
    {ids : List Nat} {id : Nat} (hnode : nodes[id]? = some (Node.tuple ids))
    (h : BoundAll (Realises reference candidate nodes) component items others ids) :
    Realises reference candidate nodes component (.tuple items) (.tuple others) id := by
  refine ⟨fun component' expected actual id' =>
    (component' = component ∧ expected = .tuple items ∧ actual = .tuple others ∧ id' = id) ∨
      Realises reference candidate nodes component' expected actual id', ?_, .inl ⟨rfl, rfl, rfl, rfl⟩⟩
  rintro component' expected actual id' (⟨rfl, rfl, rfl, rfl⟩ | hid)
  · exact ⟨.tuple ids, hnode, .tuple (h.mono fun _ _ _ _ h => .inr h)⟩
  · obtain ⟨node, hnode, hshape⟩ := realises_closed reference candidate nodes _ _ _ _ hid
    exact ⟨node, hnode, hshape.mono (fun _ _ h => h) fun _ _ _ _ h => .inr h⟩

end Graph

/-! ### Building the graph -/

section Growth

variable (reference candidate : List Declarations)

/-- The labels that were visited, with their nodes. -/
def Visited (builder : Builder) (component : String) (expected actual : TypeRef) (id : Nat) : Prop :=
  builder.visited.lookup (component, expected, actual) = some id

/-- Nodes and labels are only added, and the nodes of the labels that were added are final. -/
structure Grows (before after : Builder) : Prop where
  nodes : before.bindings.nodes <+: after.bindings.nodes
  kept : ∀ component expected actual id, Visited before component expected actual id →
    Visited after component expected actual id
  settled : ∀ component expected actual id, Visited after component expected actual id →
    Visited before component expected actual id ∨ (before.bindings.nodes.length ≤ id ∧
      ∃ node, after.bindings.nodes[id]? = some node ∧
        Shape reference candidate after.bindings.nodes (Visited after) component expected actual node)

variable {reference candidate}

theorem Grows.refl (builder : Builder) : Grows reference candidate builder builder :=
  ⟨List.prefix_rfl, fun _ _ _ _ h => h, fun _ _ _ _ h => .inl h⟩

theorem Grows.shape {before after : Builder} (h : Grows reference candidate before after)
    {component : String} {expected actual : TypeRef} {node : Node}
    (hshape : Shape reference candidate before.bindings.nodes (Visited before) component expected
      actual node) :
    Shape reference candidate after.bindings.nodes (Visited after) component expected actual node :=
  hshape.mono (fun _ _ => prefix_node h.nodes) h.kept

theorem Grows.trans (first second third : Builder) (h : Grows reference candidate first second)
    (h' : Grows reference candidate second third) : Grows reference candidate first third := by
  refine ⟨h.nodes.trans h'.nodes, fun _ _ _ _ hid => h'.kept _ _ _ _ (h.kept _ _ _ _ hid), ?_⟩
  intro component expected actual id hid
  rcases h'.settled _ _ _ _ hid with hid | ⟨hlength, hsettled⟩
  · rcases h.settled _ _ _ _ hid with hid | ⟨hlength, node, hnode, hshape⟩
    · exact .inl hid
    · exact .inr ⟨hlength, node, prefix_node h'.nodes hnode, h'.shape hshape⟩
  · exact .inr ⟨h.nodes.length_le.trans hlength, hsettled⟩

theorem visited_reserved {builder : Builder} {component other : String}
    {expected actual expected' actual' : TypeRef} {id : Nat}
    (h : Visited (reserved builder (component, expected, actual)) other expected' actual' id) :
    ((other, expected', actual') = (component, expected, actual) ∧
      id = builder.bindings.nodes.length) ∨ Visited builder other expected' actual' id := by
  unfold Visited reserved at h
  rw [List.lookup_cons] at h
  split at h
  · rename_i hlabel
    exact .inl ⟨eq_of_beq hlabel, (Option.some.inj h).symm⟩
  · exact .inr h

theorem visited_of_reserved {builder : Builder} {component other : String}
    {expected actual expected' actual' : TypeRef} {id : Nat}
    (hnew : builder.visited.lookup (component, expected, actual) = none)
    (h : Visited builder other expected' actual' id) :
    Visited (reserved builder (component, expected, actual)) other expected' actual' id := by
  unfold Visited reserved at *
  rw [List.lookup_cons]
  split
  · rename_i hlabel
    rw [eq_of_beq hlabel, hnew] at h
    cases h
  · exact h

theorem filled_node_of_ne {builder : Builder} {id other : Nat} {node : Node} (hne : id ≠ other) :
    (filled builder id node).bindings.nodes[other]? = builder.bindings.nodes[other]? :=
  List.getElem?_set_ne hne

/-- Filling the node that was reserved for a label settles the label. -/
theorem grows_filled {builder after : Builder} {component : String} {expected actual : TypeRef}
    {node : Node} (hnew : builder.visited.lookup (component, expected, actual) = none)
    (h : Grows reference candidate (reserved builder (component, expected, actual)) after)
    (hshape : Shape reference candidate after.bindings.nodes (Visited after) component expected
      actual node) :
    Grows reference candidate builder (filled after builder.bindings.nodes.length node) ∧
      Visited (filled after builder.bindings.nodes.length node) component expected actual
        builder.bindings.nodes.length := by
  have hlabel : Visited after component expected actual builder.bindings.nodes.length :=
    h.kept _ _ _ _ (by unfold Visited reserved; rw [List.lookup_cons_self])
  have hplace : after.bindings.nodes[builder.bindings.nodes.length]? = some .identity :=
    prefix_node h.nodes (List.getElem?_concat_length)
  have hlength : builder.bindings.nodes.length < after.bindings.nodes.length :=
    (List.getElem?_eq_some_iff.mp hplace).1
  -- The reserved node is not one for a tuple, so no other binding reads it.
  have hfilled : ∀ {component expected actual node'},
      Shape reference candidate after.bindings.nodes (Visited after) component expected actual
        node' →
      Shape reference candidate (filled after builder.bindings.nodes.length node).bindings.nodes
        (Visited (filled after builder.bindings.nodes.length node)) component expected actual
        node' := by
    intro component expected actual node' hshape
    refine hshape.mono (fun id ids hid => ?_) fun _ _ _ _ hid => hid
    rw [filled_node_of_ne]
    · exact hid
    · rintro rfl
      rw [hplace] at hid
      cases hid
  refine ⟨⟨?_, fun _ _ _ _ hid => h.kept _ _ _ _ (visited_of_reserved hnew hid), ?_⟩, hlabel⟩
  · exact prefix_set ((List.prefix_append _ _).trans h.nodes) le_rfl node
  · intro component' expected' actual' id hid
    rcases h.settled _ _ _ _ hid with hid | ⟨hid, node', hnode, hshape'⟩
    · rcases visited_reserved hid with ⟨hsame, rfl⟩ | hid
      · cases hsame
        exact .inr ⟨le_rfl, node, List.getElem?_set_self hlength, hfilled hshape⟩
      · exact .inl hid
    · have hlt : builder.bindings.nodes.length < id := by
        have hreserved : (reserved builder (component, expected, actual)).bindings.nodes.length =
          builder.bindings.nodes.length + 1 := List.length_append
        omega
      refine .inr ⟨hlt.le, node', ?_, hfilled hshape'⟩
      rw [filled_node_of_ne hlt.ne]
      exact hnode

/-! ### What building achieves -/

section Achieved

variable {display : TypeRef → String} {fuel : Nat} {component : String}

/-- The computation only adds to the table, and its value has the property then. -/
abbrev Adds (reference candidate : List Declarations) {α : Type} (Q : α → Builder → Prop)
    (computation : Building α) : Prop :=
  Achieves (Grows reference candidate) Q computation

theorem adds_mismatch {α : Type} {Q : α → Builder → Prop} (expected : TypeRef)
    (actual : Option TypeRef) (location : String) :
    Adds reference candidate Q (mismatch display expected actual component location) :=
  achieves_throw _

theorem adds_need {α : Type} (value : Option α) (diagnostic : String) :
    Adds reference candidate (fun found _ => value = some found) (need value diagnostic) := by
  cases value with
  | none => exact achieves_throw _
  | some found => exact achieves_pure Grows.refl fun _ => rfl

theorem adds_needed {α β : Type} {Q : β → Builder → Prop} {value : Option α} {diagnostic : String}
    {next : α → Building β}
    (h : ∀ found, value = some found → Adds reference candidate Q (next found)) :
    Adds reference candidate Q (need value diagnostic >>= next) := by
  intro builder found after hrun
  obtain ⟨needed, between, hneed, hnext⟩ := StepwiseStates.bind_ok.mp hrun
  obtain ⟨hgrows, hneeded⟩ := adds_need value diagnostic builder needed between hneed
  obtain ⟨hafter, hQ⟩ := h needed hneeded between found after hnext
  exact ⟨hgrows.trans _ _ _ hafter, hQ⟩

theorem adds_pushNode (node : Node) :
    Adds reference candidate (fun id builder => builder.bindings.nodes[id]? = some node)
      (pushNode node) := by
  intro builder id after hrun
  cases hrun
  exact ⟨⟨List.prefix_append _ _, fun _ _ _ _ h => h, fun _ _ _ _ h => .inl h⟩,
    List.getElem?_concat_length⟩

theorem visited_stable {expected actual : TypeRef} (id : Nat) (before after : Builder)
    (h : Grows reference candidate before after) (hid : Visited before component expected actual id) :
    Visited after component expected actual id := h.kept _ _ _ _ hid

theorem adds_bindLabel {expected actual : TypeRef} {location : String}
    (hshape : Adds reference candidate (fun node builder => Shape reference candidate
        builder.bindings.nodes (Visited builder) component expected actual node)
      (shape display reference candidate fuel expected actual component location)) :
    Adds reference candidate (fun id builder => Visited builder component expected actual id)
      (StorageBindings.bind display reference candidate (fuel + 1) expected actual component
        location) := by
  intro builder id after hrun
  rw [bind_eq] at hrun
  cases hlookup : builder.visited.lookup (component, expected, actual) with
  | some found =>
    rw [hlookup] at hrun
    cases hrun
    exact ⟨Grows.refl builder, hlookup⟩
  | none =>
    rw [hlookup] at hrun
    revert hrun
    dsimp only
    cases hrun : mapError (structured expected component location)
      (shape display reference candidate fuel expected actual component location)
      (reserved builder (component, expected, actual)) with
    | error stop between => exact fun hrun => by cases hrun
    | ok node between =>
      obtain ⟨hgrows, hnode⟩ := achieves_mapError _ hshape _ node between hrun
      intro hfilled
      cases hfilled
      exact grows_filled hlookup hgrows hnode

theorem adds_tuple {items others : List TypeRef} {location : String}
    (hbind : ∀ expected actual location, Adds reference candidate
      (fun id builder => Visited builder component expected actual id)
      (StorageBindings.bind display reference candidate fuel expected actual component location)) :
    Adds reference candidate
      (fun node builder => ∃ ids, node = .tuple ids ∧
        BoundAll (Visited builder) component items others ids)
      (StorageBindings.tuple display reference candidate (fuel + 1) items others component
        location) := by
  rw [StorageBindings.tuple]
  split
  · exact adds_mismatch _ _ _
  · rename_i hlength
    refine achieves_return (achieves_mapM (Q := fun (entry : (TypeRef × TypeRef) × Nat) id builder =>
        Visited builder component entry.1.1 entry.1.2 id) Grows.refl Grows.trans
      (fun entry id before after => visited_stable id before after)
      fun entry _ => hbind entry.1.1 entry.1.2 _) fun ids builder h => ⟨ids, rfl, ?_, ?_⟩
    · simpa using hlength
    · rw [← List.zipIdx_map_fst 0 (items.zip others)]
      exact List.forall₂_map_left_iff.mpr h

theorem adds_shape {expected actual : TypeRef} {location : String}
    (hbind : ∀ component expected actual location, Adds reference candidate
      (fun id builder => Visited builder component expected actual id)
      (StorageBindings.bind display reference candidate fuel expected actual component location))
    (htuple : ∀ component items others location, Adds reference candidate
      (fun node builder => ∃ ids, node = .tuple ids ∧
        BoundAll (Visited builder) component items others ids)
      (StorageBindings.tuple display reference candidate fuel items others component location))
    (hshape : ∀ component expected actual location, Adds reference candidate
      (fun node builder => Shape reference candidate builder.bindings.nodes (Visited builder)
        component expected actual node)
      (shape display reference candidate fuel expected actual component location)) :
    Adds reference candidate (fun node builder => Shape reference candidate builder.bindings.nodes
        (Visited builder) component expected actual node)
      (shape display reference candidate (fuel + 1) expected actual component location) := by
  rw [shape.eq_def]
  dsimp only
  split
  · split
    · rename_i hname
      exact achieves_pure Grows.refl fun _ => hname ▸ .primitive
    · exact adds_mismatch _ _ _
  · rename_i name expectedOwner expectedRegistry other actualOwner actualRegistry
    split
    · exact adds_mismatch _ _ _
    · rename_i hsame
      obtain ⟨rfl, howner, hexpected, hactual⟩ : name = other ∧
          expectedOwner.getD component = actualOwner.getD component ∧
          expectedRegistry = none ∧ actualRegistry = none := by
        simpa [not_or] using hsame
      subst hexpected hactual
      refine adds_needed fun left hleft => adds_needed fun right hright => ?_
      rw [← howner] at hright
      exact achieves_imp (hshape _ left right _) fun node builder hnode =>
        .named rfl howner.symm hleft hright hnode
  · rename_i fields name actualOwner
    refine adds_needed fun declaration hdeclaration => ?_
    split
    · rename_i others
      split
      · rename_i howner
        rw [howner] at hdeclaration
        exact achieves_imp (hshape _ _ _ _) fun node builder hnode =>
          .inline howner hdeclaration hnode
      · exact adds_mismatch _ _ _
    · exact adds_mismatch _ _ _
  · split
    · exact achieves_return (hbind _ _ _ _) fun id builder h => .sequence h
    · exact adds_mismatch _ _ _
  · exact achieves_return (hbind _ _ _ _) fun id builder h => .optional h
  · rename_i keys values ordered keys' values' ordered'
    split
    · rename_i hordered
      obtain ⟨rfl, rfl⟩ : ordered = false ∧ ordered' = false := by simpa using hordered
      refine achieves_bind Grows.trans (fun id before after => visited_stable id before after)
        (hbind _ keys keys' _) fun key => ?_
      exact achieves_return (hbind _ values values' _) fun value builder hvalue hkey =>
        .map hkey hvalue
    · exact adds_mismatch _ _ _
  · rename_i keys values ordered keys' values'
    refine achieves_bind Grows.trans (fun id before after => visited_stable id before after)
      (hbind _ keys keys' _) fun key => ?_
    exact achieves_return (hbind _ values values' _) fun value builder hvalue hkey =>
      .pairs hkey hvalue
  · split
    · refine achieves_imp (htuple _ _ _ _) ?_
      rintro node builder ⟨ids, rfl, hids⟩
      exact .tuple hids
    · exact adds_mismatch _ _ _
  · rename_i fields others
    split
    · exact adds_mismatch _ _ _
    · rename_i hlength
      refine achieves_return (achieves_mapM (Q := fun (field : NamedValue) entry builder =>
        entry.1 = field.1 ∧ ∃ other, others.lookup field.1 = some other ∧
          Visited builder component field.2 other entry.2) Grows.refl Grows.trans ?_ ?_)
        fun entries builder h => .record (not_not.mp hlength) h
      · rintro field entry before after hgrows ⟨hname, other, hother, hid⟩
        exact ⟨hname, other, hother, hgrows.kept _ _ _ _ hid⟩
      · intro field hfield
        cases hother : others.lookup field.1 with
        | none => exact adds_mismatch _ _ _
        | some other =>
          exact achieves_return (hbind _ field.2 other _) fun id builder hid =>
            ⟨rfl, other, rfl, hid⟩
  · rename_i variants others
    split
    · exact adds_mismatch _ _ _
    · rename_i hlength
      refine achieves_return (achieves_mapM (Q := fun (variant : Variant) entry builder =>
        entry.1 = variant.1 ∧ PayloadBound builder.bindings.nodes (Visited builder) component
          variant.2 (others.lookup variant.1) entry.2) Grows.refl Grows.trans ?_ ?_)
        fun entries builder h => .tagged (not_not.mp hlength) h
      · rintro variant entry before after hgrows ⟨hname, h⟩
        exact ⟨hname, h.mono (fun _ _ => prefix_node hgrows.nodes) hgrows.kept⟩
      · rintro ⟨name, payload⟩ hvariant
        dsimp only
        split
        · rename_i hother
          exact achieves_pure Grows.refl fun builder => ⟨rfl, hother ▸ .unit⟩
        · rename_i rights lefts hother
          rw [hother]
          refine achieves_bind (P := fun node builder => ∃ ids, node = .tuple ids ∧
            BoundAll (Visited builder) component lefts rights ids) Grows.trans ?_
            (htuple _ lefts rights _) fun node => ?_
          · rintro node before after hgrows ⟨ids, hnode, hids⟩
            exact ⟨ids, hnode, hids.mono hgrows.kept⟩
          · refine achieves_return (adds_pushNode node) ?_
            rintro id builder hnode ⟨ids, rfl, hids⟩
            exact ⟨rfl, .tuple hnode hids⟩
        · rename_i other payload _ hother
          rw [hother]
          exact achieves_return (hbind _ payload other _) fun id builder hid => ⟨rfl, .value hid⟩
        · exact adds_mismatch _ _ _
  · exact adds_mismatch _ _ _

theorem adds_calls (fuel : Nat) :
    (∀ component expected actual location, Adds reference candidate
      (fun id builder => Visited builder component expected actual id)
      (StorageBindings.bind display reference candidate fuel expected actual component location)) ∧
    (∀ component items others location, Adds reference candidate
      (fun node builder => ∃ ids, node = .tuple ids ∧
        BoundAll (Visited builder) component items others ids)
      (StorageBindings.tuple display reference candidate fuel items others component location)) ∧
    (∀ component expected actual location, Adds reference candidate
      (fun node builder => Shape reference candidate builder.bindings.nodes (Visited builder)
        component expected actual node)
      (shape display reference candidate fuel expected actual component location)) := by
  induction fuel with
  | zero =>
    refine ⟨?_, ?_, ?_⟩ <;> (intros; exact achieves_throw _)
  | succ fuel ih =>
    obtain ⟨hbind, htuple, hshape⟩ := ih
    exact ⟨fun component expected actual location => adds_bindLabel (hshape _ _ _ _),
      fun component items others location => adds_tuple (hbind _),
      fun component expected actual location => adds_shape hbind htuple hshape⟩

end Achieved

/-- A builder that started with no labels leaves a closed graph. -/
theorem Grows.closed {bindings : Bindings} {after : Builder}
    (h : Grows reference candidate ⟨bindings, []⟩ after) :
    Closed reference candidate after.bindings.nodes (Visited after) := by
  intro component expected actual id hid
  rcases h.settled _ _ _ _ hid with hid | ⟨-, hnode⟩
  · cases hid
  · exact hnode

end Growth

end SpecGate.BoundNodes

import SpecGate.DependencySearch
import SpecGate.FoldedOperations

/-!
The components that a discovered component depends on. The names in its types are looked up
among all registered types, and the components of those that are not its own are searched in
turn. The first component is entered with its operations, the others with their types only.
-/
namespace SpecGate.ComponentClosure

open Checked SortedAssoc DependencySearch DiscoveredRegistries TypeExpressions FoldedOperations
open RustTypes
open Relation (ReflTransGen TransGen)

/-! ### Owners -/

section Owners

variable (registry : Registry)

def ownerOf (name : String) (ty : RawType) : Except String String :=
  if ty.component = "" then .error s!"type '{name}' has no component owner" else .ok ty.component

/-- The component of a named type. A type of the component itself comes first. -/
def owner (name component : String) : Except String String :=
  match registry.types.filter fun ty => ty.name == name && ty.component == component with
  | _ :: _ :: _ => .error s!"component '{component}' contains duplicate type owner for '{name}'"
  | [own] => ownerOf name own
  | [] =>
      let external := registry.types.filter fun ty => ty.name == name
      match external with
      | [] => .error s!"referenced type '{name}' has no registered component owner"
      | [only] => ownerOf name only
      | _ :: _ :: _ =>
          .error (s!"referenced type '{name}' has ambiguous component owners: " ++
            ", ".intercalate (distinct (external.map RawType.component)))

end Owners

/-! ### References -/

section References

variable (classes : CharClasses) (registry : Registry)

def propertyFieldType (declaration : RawType) (sourceType : String) : Except String String :=
  (propertyType classes registry declaration.component declaration.modulePath sourceType).map
    fun found => found.elim sourceType RawType.name

inductive Traversal where
  | root | dependency
  deriving DecidableEq

/-- The operations of a component and the setups that construct something for them. -/
def surface (component : String) : List Operation :=
  let names := (registry.ops.filter fun op => !op.isSetup && op.component == component).map
    Operation.name
  registry.ops.filter fun op => op.component == component && (!op.isSetup || names.contains op.name)

def operationReferences (op : Operation) : Except String (List String) := do
  let parameters ← parameterFields classes registry op
  return (parameters.flatMap fun parameter => collectRefs classes parameter.ty) ++
    collectRefs classes op.returnType

def variantReferences (variant : Variant) : List String :=
  (variant.fields.flatMap fun field => collectRefs classes field.ty) ++
    (variant.tuple.getD []).flatMap (collectRefs classes)

def typeReferences (ty : RawType) : Except String (List String) := do
  let fields ← concatAll (fun field =>
    (propertyFieldType classes registry ty field.ty).map (collectRefs classes)) ty.fields
  return fields ++ ty.variants.flatMap (variantReferences classes)

def references (traversal : Traversal) (component : String) : Except String (List String) := do
  let operations ← (match traversal with
    | .root => concatAll (operationReferences classes registry) (surface registry component)
    | .dependency => .ok [])
  let types ← concatAll (typeReferences classes registry)
    (registry.types.filter fun ty => ty.component == component)
  return operations ++ types

/-- The other components that own a type the component refers to. -/
def direct (traversal : Traversal) (component : String) : Except String (List String) := do
  let names ← references classes registry traversal component
  let owners ← mapAll (fun name => owner registry name component) names
  return distinct (owners.filter (· != component))

/-! ### The closure -/

def componentCycle (path : List String) : String :=
  "component dependency cycle: " ++ " -> ".intercalate path

/-- Enter a component and then what it depends on. The fuel bounds how many components are
entered at a time. -/
def visit : Nat → Traversal → List String → List (String × List String) → String →
    Except String (List (String × List String))
  | fuel, traversal, visiting, graph, component =>
      if contains graph component then .ok graph
      else if component ∈ visiting then
        .error (componentCycle (visiting.dropWhile (· ≠ component) ++ [component]))
      else
        match fuel with
        | 0 => .error (componentCycle [])
        | fuel + 1 => do
            let dependencies ← direct classes registry traversal component
            let graph ← searchAll (visit fuel .dependency (visiting ++ [component])) graph
              dependencies
            return insert component dependencies graph

/-- No more components are entered than there are types, besides the first. -/
def dependencyGraph (root : String) : Except String (List (String × List String)) :=
  visit classes registry (registry.types.length + 2) .root [] [] root

end References

/-! ### What a component depends on -/

section Direct

variable {classes : CharClasses} {registry : Registry}

/-- One registered type has the name: in the component itself, or anywhere if it has none. -/
def Owns (registry : Registry) (component name target : String) : Prop :=
  target ≠ "" ∧
    ((∃ ty, (registry.types.filter fun ty => ty.name == name && ty.component == component) = [ty] ∧
        target = component) ∨
      ((registry.types.filter fun ty => ty.name == name && ty.component == component) = [] ∧
        ∃ ty, (registry.types.filter fun ty => ty.name == name) = [ty] ∧ ty.component = target))

theorem ownerOf_eq_ok {name target : String} {ty : RawType} :
    ownerOf name ty = .ok target ↔ target ≠ "" ∧ ty.component = target := by
  unfold ownerOf
  by_cases hempty : ty.component = ""
  · rw [if_pos hempty]
    exact iff_of_false (fun h => by cases h) fun h => h.1 (h.2.symm.trans hempty)
  · rw [if_neg hempty, Except.ok.injEq]
    exact ⟨fun h => ⟨h ▸ hempty, h⟩, And.right⟩

theorem owner_eq_ok {name component target : String} :
    owner registry name component = .ok target ↔ Owns registry component name target := by
  unfold owner Owns
  cases hlocal : registry.types.filter fun ty => ty.name == name && ty.component == component with
  | nil =>
    dsimp only
    cases hexternal : registry.types.filter fun ty => ty.name == name with
    | nil => simp
    | cons first rest =>
      cases rest with
      | nil => simp [ownerOf_eq_ok]
      | cons second rest => simp
  | cons first rest =>
    cases rest with
    | nil =>
      have hmem : first ∈ registry.types.filter fun ty =>
          ty.name == name && ty.component == component := by
        rw [hlocal]
        exact List.mem_singleton.mpr rfl
      have hcomponent : first.component = component := by
        have hboth := (List.mem_filter.mp hmem).2
        rw [Bool.and_eq_true] at hboth
        exact eq_of_beq hboth.2
      have hfound : ownerOf name first = .ok target ↔ target ≠ "" ∧ target = component := by
        rw [ownerOf_eq_ok, hcomponent, @eq_comm _ component]
      simpa using hfound
    | cons second rest => simp

/-- Every name that a component refers to has an owner. -/
def Resolved (classes : CharClasses) (registry : Registry) (traversal : Traversal)
    (component : String) : Prop :=
  ∃ names, references classes registry traversal component = .ok names ∧
    ∀ name ∈ names, ∃ target, Owns registry component name target

/-- A component refers to a type of another. -/
def Refers (classes : CharClasses) (registry : Registry) (traversal : Traversal)
    (component target : String) : Prop :=
  target ≠ component ∧ ∃ names, references classes registry traversal component = .ok names ∧
    ∃ name ∈ names, Owns registry component name target

theorem owners_eq_ok {component : String} {names : List String} :
    (∃ owners, mapAll (fun name => owner registry name component) names = .ok owners) ↔
      ∀ name ∈ names, ∃ target, Owns registry component name target := by
  constructor
  · rintro ⟨owners, howners⟩ name hname
    obtain ⟨target, -, htarget⟩ := exists_right_of_forall₂ (mapAll_eq_ok.mp howners) hname
    exact ⟨target, owner_eq_ok.mp htarget⟩
  · intro h
    induction names with
    | nil => exact ⟨[], rfl⟩
    | cons name rest ih =>
      obtain ⟨target, htarget⟩ := h name List.mem_cons_self
      obtain ⟨owners, howners⟩ := ih fun other hother => h other (List.mem_cons_of_mem _ hother)
      exact ⟨target :: owners,
        mapAll_cons_eq_ok.mpr ⟨target, owners, owner_eq_ok.mpr htarget, howners, rfl⟩⟩

theorem direct_eq_ok {traversal : Traversal} {component : String} :
    (∃ dependencies, direct classes registry traversal component = .ok dependencies) ↔
      Resolved classes registry traversal component := by
  constructor
  · rintro ⟨dependencies, h⟩
    obtain ⟨names, hnames, h⟩ := bind_eq_ok.mp h
    obtain ⟨owners, howners, -⟩ := bind_eq_ok.mp h
    exact ⟨names, hnames, owners_eq_ok.mp ⟨owners, howners⟩⟩
  · rintro ⟨names, hnames, h⟩
    obtain ⟨owners, howners⟩ := owners_eq_ok.mpr h
    exact ⟨_, bind_eq_ok.mpr ⟨names, hnames, bind_eq_ok.mpr ⟨owners, howners, rfl⟩⟩⟩

theorem mem_direct {traversal : Traversal} {component target : String}
    {dependencies : List String}
    (h : direct classes registry traversal component = .ok dependencies) :
    target ∈ dependencies ↔ Refers classes registry traversal component target := by
  obtain ⟨names, hnames, h⟩ := bind_eq_ok.mp h
  obtain ⟨owners, howners, h⟩ := bind_eq_ok.mp h
  obtain rfl := Except.ok.inj h
  have hpaired := mapAll_eq_ok.mp howners
  rw [mem_distinct, List.mem_filter, bne_iff_ne]
  constructor
  · rintro ⟨hmem, hother⟩
    obtain ⟨name, hname, howner⟩ := exists_left_of_forall₂ hpaired hmem
    exact ⟨hother, names, hnames, name, hname, owner_eq_ok.mp howner⟩
  · rintro ⟨hother, found, hfound, name, hname, howner⟩
    obtain rfl := Except.ok.inj (hnames.symm.trans hfound)
    obtain ⟨other, hmem, hsame⟩ := exists_right_of_forall₂ hpaired hname
    obtain rfl := Except.ok.inj (hsame.symm.trans (owner_eq_ok.mpr howner))
    exact ⟨hmem, hother⟩

theorem direct_increasing {traversal : Traversal} {component : String}
    {dependencies : List String}
    (h : direct classes registry traversal component = .ok dependencies) :
    dependencies.Pairwise fun a b => compare a b = .lt := by
  obtain ⟨names, -, h⟩ := bind_eq_ok.mp h
  obtain ⟨owners, -, h⟩ := bind_eq_ok.mp h
  obtain rfl := Except.ok.inj h
  exact sorted_iff_keys.mp (sorted_ofList _)

end Direct

/-! ### The graph -/

section Graph

variable {classes : CharClasses} {registry : Registry} {root : String}

/-- Only the first component is entered with its operations. -/
def traversalOf (root component : String) : Traversal :=
  if component = root then .root else .dependency

def directOf (classes : CharClasses) (registry : Registry) (root component : String) :
    Except String (List String) :=
  direct classes registry (traversalOf root component) component

/-- A component depends on another, seen from the first. -/
structure Depends (classes : CharClasses) (registry : Registry) (root source target : String) :
    Prop where
  resolved : Resolved classes registry (traversalOf root source) source
  refers : Refers classes registry (traversalOf root source) source target

theorem edge_iff {source target : String} :
    Edge (directOf classes registry root) source target ↔
      Depends classes registry root source target := by
  constructor
  · rintro ⟨dependencies, hdirect, htarget⟩
    exact ⟨direct_eq_ok.mp ⟨dependencies, hdirect⟩, (mem_direct hdirect).mp htarget⟩
  · rintro ⟨hresolved, hrefers⟩
    obtain ⟨dependencies, hdirect⟩ := direct_eq_ok.mpr hresolved
    exact ⟨dependencies, hdirect, (mem_direct hdirect).mpr hrefers⟩

theorem edge_eq : Edge (directOf classes registry root) = Depends classes registry root := by
  funext source target
  exact propext edge_iff

/-- Once the first component is entered, the way a component is entered is settled by its name. -/
theorem visit_eq_search {fuel : Nat} {visiting : List String} {graph : List (String × List String)}
    {component : String} (h : root ∈ visiting) :
    visit classes registry fuel .dependency visiting graph component =
      search (directOf classes registry root) componentCycle fuel visiting graph component := by
  induction fuel generalizing visiting graph component with
  | zero =>
    rw [visit, search]
  | succ fuel ih =>
    rw [visit, search]
    by_cases hknown : contains graph component = true
    · rw [if_pos hknown, if_pos hknown]
    by_cases hvisiting : component ∈ visiting
    · rw [if_neg hknown, if_neg hknown, if_pos hvisiting, if_pos hvisiting]
    rw [if_neg hknown, if_neg hknown, if_neg hvisiting, if_neg hvisiting]
    have hother : component ≠ root := fun heq => hvisiting (heq ▸ h)
    have hdirect : directOf classes registry root component =
        direct classes registry .dependency component := by
      rw [directOf, traversalOf, if_neg hother]
    have hinner : visit classes registry fuel .dependency (visiting ++ [component]) =
        search (directOf classes registry root) componentCycle fuel (visiting ++ [component]) := by
      funext graph target
      exact ih (List.mem_append_left _ h)
    rw [hdirect, hinner]

theorem dependencyGraph_eq : dependencyGraph classes registry root =
    search (directOf classes registry root) componentCycle (registry.types.length + 2) [] []
      root := by
  have hinner : visit classes registry (registry.types.length + 1) .dependency ([] ++ [root]) =
      search (directOf classes registry root) componentCycle (registry.types.length + 1)
        ([] ++ [root]) := by
    funext graph target
    exact visit_eq_search (List.mem_singleton.mpr rfl)
  have hdirect : directOf classes registry root root = direct classes registry .root root := by
    rw [directOf, traversalOf, if_pos rfl]
  rw [dependencyGraph, visit, search]
  rw [hdirect, hinner]

/-- The components a search can come to. -/
def reachable (registry : Registry) (root : String) : List String :=
  root :: registry.types.map RawType.component

theorem Owns.mem {component name target : String} (h : Owns registry component name target)
    (hother : target ≠ component) : target ∈ registry.types.map RawType.component := by
  rcases h.2 with ⟨_, -, hsame⟩ | ⟨-, ty, honly, rfl⟩
  · exact absurd hsame hother
  · have hmem : ty ∈ registry.types.filter fun ty => ty.name == name := by
      rw [honly]
      exact List.mem_singleton.mpr rfl
    exact List.mem_map_of_mem (List.mem_of_mem_filter hmem)

theorem edge_mem (source target : String)
    (h : Edge (directOf classes registry root) source target) : target ∈ reachable registry root := by
  obtain ⟨hother, -, -, name, -, howns⟩ := (edge_iff.mp h).refers
  exact List.mem_cons_of_mem _ (howns.mem hother)

theorem length_reachable (registry : Registry) (root : String) :
    (reachable registry root).length = registry.types.length + 1 := by
  rw [reachable, List.length_cons, List.length_map]

theorem directOf_eq_ok {component : String} :
    (∃ dependencies, directOf classes registry root component = .ok dependencies) ↔
      Resolved classes registry (traversalOf root component) component := direct_eq_ok

theorem dependencyGraph_search (root : String) : dependencyGraph classes registry root =
    search (directOf classes registry root) componentCycle
      ((reachable registry root).length + 1) [] [] root := by
  rw [length_reachable, dependencyGraph_eq]

theorem root_reachable (root : String) : root ∈ reachable registry root := List.mem_cons_self

theorem dependencyGraph_succeeds_iff (root : String) :
    (∃ graph, dependencyGraph classes registry root = .ok graph) ↔
      ∀ component, ReflTransGen (Depends classes registry root) root component →
        Resolved classes registry (traversalOf root component) component ∧
          ¬ TransGen (Depends classes registry root) component component := by
  rw [dependencyGraph_search, search_succeeds_iff edge_mem (root_reachable root), edge_eq]
  simp only [directOf_eq_ok]

/-- A graph has the components that its root leads to, each with the others it refers to in
order. -/
structure Spans (classes : CharClasses) (registry : Registry) (root : String)
    (graph : List (String × List String)) : Prop where
  sorted : Sorted graph
  keys_iff : ∀ component, component ∈ keys graph ↔
    ReflTransGen (Depends classes registry root) root component
  entries : ∀ component dependencies, (component, dependencies) ∈ graph →
    (dependencies.Pairwise fun a b => compare a b = .lt) ∧
    ∀ target, target ∈ dependencies ↔
      Refers classes registry (traversalOf root component) component target

theorem spans_of_dependencyGraph {root : String} {graph : List (String × List String)}
    (hgraph : dependencyGraph classes registry root = .ok graph) :
    Spans classes registry root graph := by
  have hall := (dependencyGraph_succeeds_iff root).mp ⟨graph, hgraph⟩
  rw [dependencyGraph_search] at hgraph
  obtain ⟨hsorted, -, hlookup⟩ := search_ok hgraph
  rw [edge_eq] at hlookup
  have hentry : ∀ component dependencies, (component, dependencies) ∈ graph ↔
      ReflTransGen (Depends classes registry root) root component ∧
        directOf classes registry root component = .ok dependencies := by
    intro component dependencies
    rw [← hlookup, lookup_iff_mem hsorted.keys_nodup]
  refine ⟨hsorted, fun component => ⟨fun hmem => ?_, fun hreach => ?_⟩,
    fun component dependencies hmem => ?_⟩
  · obtain ⟨dependencies, hmem⟩ := exists_entry hmem
    exact ((hentry component dependencies).mp hmem).1
  · obtain ⟨dependencies, hdirect⟩ := directOf_eq_ok.mpr (hall component hreach).1
    exact mem_keys_of_mem ((hentry component dependencies).mpr ⟨hreach, hdirect⟩)
  · have hdirect := ((hentry component dependencies).mp hmem).2
    exact ⟨direct_increasing hdirect, fun target => mem_direct hdirect⟩

/-- The graph of a component can be built exactly if every name in the components it leads to has
an owner and none of them leads back to itself. It has those components, each with the others it
refers to in order; without a graph there is a name without an owner, or the cycle that is named. -/
theorem dependencyGraph_exact (classes : CharClasses) (registry : Registry) (root : String) :
    ((∃ graph, dependencyGraph classes registry root = .ok graph) ↔
      ∀ component, ReflTransGen (Depends classes registry root) root component →
        Resolved classes registry (traversalOf root component) component ∧
          ¬ TransGen (Depends classes registry root) component component) ∧
    (∀ graph, dependencyGraph classes registry root = .ok graph →
      Spans classes registry root graph) ∧
    ∀ failure, dependencyGraph classes registry root = .error failure →
      (∃ component, ReflTransGen (Depends classes registry root) root component ∧
        ¬ Resolved classes registry (traversalOf root component) component ∧
        direct classes registry (traversalOf root component) component = .error failure) ∨
      ∃ path, path.IsChain (Depends classes registry root) ∧ 2 ≤ path.length ∧
        path.head? = path.getLast? ∧
        (∀ component ∈ path, ReflTransGen (Depends classes registry root) root component) ∧
        failure = componentCycle path := by
  refine ⟨dependencyGraph_succeeds_iff root, fun graph => spans_of_dependencyGraph,
    fun failure hfailure => ?_⟩
  rw [dependencyGraph_search] at hfailure
  rcases search_error edge_mem (root_reachable root) hfailure with
    ⟨component, hreach, hfailed⟩ | ⟨path, ⟨hchain, hlong, hclosed⟩, hreach, hsame⟩
  · rw [edge_eq] at hreach
    refine .inl ⟨component, hreach, fun hresolved => ?_, hfailed⟩
    obtain ⟨dependencies, hdirect⟩ := directOf_eq_ok.mpr hresolved
    rw [hfailed] at hdirect
    cases hdirect
  · rw [edge_eq] at hchain hreach
    exact .inr ⟨path, hchain, hlong, hclosed, hreach, hsame⟩

end Graph

end SpecGate.ComponentClosure

import SpecGate.ImportCycles
import SpecGate.NormalizedSchemas

/-!
The dependencies between the components of a normalized schema. The check looks for missing
components first and then searches from the schema's own component; what the search leaves
behind is compared with the declared components by number only. After the first check that is
enough: the schema passes exactly if its components can all be reached and none on a cycle.
-/
namespace SpecGate.DependencyGraphs

open Checked NormalizedSchemas SortedAssoc
open ImportCycles (Ordered)
open Relation (ReflTransGen TransGen)

/-! ### The search -/

section Search

variable {graph : List (String × List String)}

def dependenciesOf (graph : List (String × List String)) (component : String) : List String :=
  (lookup graph component).getD []

def Edge (graph : List (String × List String)) (source target : String) : Prop :=
  target ∈ dependenciesOf graph source

theorem Edge.declared {source target : String} (h : Edge graph source target) :
    source ∈ keys graph := by
  unfold Edge dependenciesOf at h
  cases hlookup : lookup graph source with
  | none =>
    rw [hlookup] at h
    cases h
  | some dependencies => exact exists_lookup_iff.mp ⟨dependencies, hlookup⟩

/-- The path of a search can still grow: it is made of distinct components, and the fuel lasts
for those that are not on it. -/
structure Room (graph : List (String × List String)) (fuel : Nat) (visiting : List String) :
    Prop where
  nodup : visiting.Nodup
  declared : visiting ⊆ keys graph
  enough : graph.length + 1 ≤ fuel + visiting.length

theorem Room.length_le {fuel : Nat} {visiting : List String} (h : Room graph fuel visiting) :
    visiting.length ≤ graph.length := by
  have hle := (List.subperm_of_subset h.nodup h.declared).length_le
  rwa [keys, List.length_map] at hle

theorem Room.fuel_pos {fuel : Nat} {visiting : List String} (h : Room graph fuel visiting) :
    0 < fuel := by
  have hle := h.length_le
  have henough := h.enough
  omega

theorem Room.enter {fuel : Nat} {visiting : List String} {component target : String}
    (h : Room graph (fuel + 1) visiting) (hnew : component ∉ visiting)
    (hedge : Edge graph component target) : Room graph fuel (visiting ++ [component]) where
  nodup := by
    refine List.nodup_append.mpr ⟨h.nodup, List.nodup_singleton _, fun a ha b hb => ?_⟩
    obtain rfl := List.mem_singleton.mp hb
    exact fun heq => hnew (heq ▸ ha)
  declared := List.append_subset.mpr ⟨h.declared, by simpa using hedge.declared⟩
  enough := by
    have henough := h.enough
    rw [List.length_append, List.length_singleton]
    omega

/-- What a search for some targets leaves behind: each component after those it depends on, and
nothing new but what the targets lead to. -/
structure Finished (graph : List (String × List String))
    (visiting complete targets after : List String) : Prop where
  ordered : Ordered (dependenciesOf graph) after
  nodup : after.Nodup
  members : targets ⊆ after
  grown : complete ⊆ after
  fresh : ∀ other ∈ after, other ∈ complete ∨
    (other ∉ visiting ∧ ∃ target ∈ targets, ReflTransGen (Edge graph) target other)

theorem finished_cons {visiting complete middle after rest : List String} {first : String}
    (hfirst : Finished graph visiting complete [first] middle)
    (hrest : Finished graph visiting middle rest after) :
    Finished graph visiting complete (first :: rest) after where
  ordered := hrest.ordered
  nodup := hrest.nodup
  members := List.cons_subset.mpr
    ⟨hrest.grown (hfirst.members List.mem_cons_self), hrest.members⟩
  grown := fun _ h => hrest.grown (hfirst.grown h)
  fresh := by
    intro other hother
    rcases hrest.fresh other hother with hmiddle | ⟨hnew, target, htarget, hreach⟩
    · rcases hfirst.fresh other hmiddle with hold | ⟨hnew, target, htarget, hreach⟩
      · exact .inl hold
      · obtain rfl := List.mem_singleton.mp htarget
        exact .inr ⟨hnew, target, List.mem_cons_self, hreach⟩
    · exact .inr ⟨hnew, target, List.mem_cons_of_mem _ htarget, hreach⟩

theorem visitAll_finished {visit : List String → String → Except String (List String)}
    {visiting targets : List String}
    (hvisit : ∀ target ∈ targets, ∀ complete after, visit complete target = .ok after →
      Ordered (dependenciesOf graph) complete → complete.Nodup →
        Finished graph visiting complete [target] after)
    {complete after : List String} (h : visitAll visit complete targets = .ok after)
    (hordered : Ordered (dependenciesOf graph) complete) (hnodup : complete.Nodup) :
    Finished graph visiting complete targets after := by
  induction targets generalizing complete with
  | nil =>
    obtain rfl := Except.ok.inj h
    exact ⟨hordered, hnodup, List.nil_subset _, List.Subset.refl _, fun _ hother => .inl hother⟩
  | cons first rest ih =>
    obtain ⟨middle, hfirst, hrest⟩ := bind_eq_ok.mp h
    have hmiddle := hvisit first List.mem_cons_self complete middle hfirst hordered hnodup
    have hafter := ih (fun target htarget => hvisit target (List.mem_cons_of_mem _ htarget)) hrest
      hmiddle.ordered hmiddle.nodup
    exact finished_cons hmiddle hafter

theorem finished_known {visiting complete : List String} {component : String}
    (hcomplete : component ∈ complete) (hordered : Ordered (dependenciesOf graph) complete)
    (hnodup : complete.Nodup) : Finished graph visiting complete [component] complete :=
  ⟨hordered, hnodup, by simpa using hcomplete, List.Subset.refl _, fun _ hother => .inl hother⟩

/-- A search that comes to an end has visited its component, and all that it leads to. -/
theorem visit_finished {fuel : Nat} {visiting complete after : List String} {component : String}
    (h : visitDependency graph fuel visiting complete component = .ok after)
    (hordered : Ordered (dependenciesOf graph) complete) (hnodup : complete.Nodup) :
    Finished graph visiting complete [component] after := by
  induction fuel generalizing visiting complete after component with
  | zero =>
    rw [visitDependency] at h
    split_ifs at h with hcomplete
    obtain rfl := Except.ok.inj h
    exact finished_known hcomplete hordered hnodup
  | succ fuel ih =>
    rw [visitDependency] at h
    split_ifs at h with hcomplete hvisiting
    · obtain rfl := Except.ok.inj h
      exact finished_known hcomplete hordered hnodup
    obtain ⟨inner, hinner, hafter⟩ := bind_eq_ok.mp h
    obtain rfl := Except.ok.inj hafter
    have hfinished := visitAll_finished
      (fun target _ complete after hvisit hordered hnodup => ih hvisit hordered hnodup)
      hinner hordered hnodup
    have hnew : component ∉ inner := by
      intro hmem
      rcases hfinished.fresh component hmem with hold | ⟨hoff, -⟩
      · exact hcomplete hold
      · exact hoff (List.mem_append_right _ (List.mem_singleton.mpr rfl))
    refine ⟨⟨hfinished.members, hfinished.ordered⟩, List.nodup_cons.mpr ⟨hnew, hfinished.nodup⟩,
      by simp, fun _ hother => List.mem_cons_of_mem _ (hfinished.grown hother),
      fun other hother => ?_⟩
    rcases List.mem_cons.mp hother with rfl | hinside
    · exact .inr ⟨hvisiting, other, List.mem_cons_self, .refl⟩
    · rcases hfinished.fresh other hinside with hold | ⟨hoff, target, htarget, hreach⟩
      · exact .inl hold
      · exact .inr ⟨fun hmem => hoff (List.mem_append_left _ hmem), component,
          List.mem_cons_self, hreach.head htarget⟩

theorem visitAll_succeeds {visit : List String → String → Except String (List String)}
    {targets : List String}
    (hvisit : ∀ target ∈ targets, ∀ complete, ∃ after, visit complete target = .ok after)
    (complete : List String) : ∃ after, visitAll visit complete targets = .ok after := by
  induction targets generalizing complete with
  | nil => exact ⟨complete, rfl⟩
  | cons first rest ih =>
    obtain ⟨middle, hmiddle⟩ := hvisit first List.mem_cons_self complete
    obtain ⟨after, hafter⟩ := ih (fun target h => hvisit target (List.mem_cons_of_mem _ h)) middle
    exact ⟨after, bind_eq_ok.mpr ⟨middle, hmiddle, hafter⟩⟩

/-- Without cycles the search comes to an end, as its path leads to what is visited next. -/
theorem visit_succeeds (hacyclic : ∀ component, ¬ TransGen (Edge graph) component component)
    {fuel : Nat} {visiting : List String} {component : String} (hroom : Room graph fuel visiting)
    (hleads : ∀ other ∈ visiting, TransGen (Edge graph) other component)
    (complete : List String) :
    ∃ after, visitDependency graph fuel visiting complete component = .ok after := by
  induction fuel generalizing visiting complete component with
  | zero => exact absurd hroom.fuel_pos (Nat.lt_irrefl 0)
  | succ fuel ih =>
    rw [visitDependency]
    by_cases hcomplete : component ∈ complete
    · exact ⟨complete, if_pos hcomplete⟩
    have hnew : component ∉ visiting := fun hcycle => hacyclic component (hleads component hcycle)
    rw [if_neg hcomplete, if_neg hnew]
    have hinside : ∀ target, Edge graph component target → ∀ complete,
        ∃ after, visitDependency graph fuel (visiting ++ [component]) complete target = .ok after := by
      intro target hedge complete
      apply ih (hroom.enter hnew hedge)
      intro other hother
      rcases List.mem_append.mp hother with hold | hlast
      · exact (hleads other hold).tail hedge
      · obtain rfl := List.mem_singleton.mp hlast
        exact .single hedge
    obtain ⟨inner, hinner⟩ := visitAll_succeeds hinside complete
    exact ⟨component :: inner, bind_eq_ok.mpr ⟨inner, hinner, rfl⟩⟩

theorem visitAll_congr {visit other : List String → String → Except String (List String)}
    {targets : List String}
    (h : ∀ target ∈ targets, ∀ complete, visit complete target = other complete target)
    (complete : List String) : visitAll visit complete targets = visitAll other complete targets := by
  induction targets generalizing complete with
  | nil => rfl
  | cons first rest ih =>
    have hrest : ∀ middle, visitAll visit middle rest = visitAll other middle rest :=
      ih fun target htarget => h target (List.mem_cons_of_mem _ htarget)
    rw [visitAll, visitAll, h first List.mem_cons_self]
    exact congrArg _ (funext hrest)

/-- More fuel than the path can use changes nothing. -/
theorem visit_fuel {fuel other : Nat} {visiting : List String} (hroom : Room graph fuel visiting)
    (hother : Room graph other visiting) (complete : List String) (component : String) :
    visitDependency graph fuel visiting complete component =
      visitDependency graph other visiting complete component := by
  induction fuel generalizing other visiting complete component with
  | zero => exact absurd hroom.fuel_pos (Nat.lt_irrefl 0)
  | succ fuel ih =>
    cases other with
    | zero => exact absurd hother.fuel_pos (Nat.lt_irrefl 0)
    | succ other =>
      rw [visitDependency, visitDependency]
      by_cases hcomplete : component ∈ complete
      · rw [if_pos hcomplete, if_pos hcomplete]
      by_cases hvisiting : component ∈ visiting
      · rw [if_neg hcomplete, if_neg hcomplete, if_pos hvisiting, if_pos hvisiting]
      rw [if_neg hcomplete, if_neg hcomplete, if_neg hvisiting, if_neg hvisiting]
      have hinner := visitAll_congr (fun target hedge complete => ih (hroom.enter hvisiting hedge)
        (hother.enter hvisiting hedge) complete target) complete
      exact congrArg (· >>= fun inner => Except.ok (component :: inner)) hinner

/-- The failure of a search that runs out of fuel. -/
def tooDeep : String := "component dependencies are too deep"

theorem cycle_ne_tooDeep (path : String) : "component dependency cycle: " ++ path ≠ tooDeep := by
  intro h
  have hchar := congrArg (fun text : String => text.toList[19]?) h
  have hleft : ("component dependency cycle: " ++ path).toList[19]? = some 'y' := by
    rw [String.toList_append, List.getElem?_append_left (by decide)]
    rfl
  have hright : tooDeep.toList[19]? = some 'i' := rfl
  rw [hleft, hright] at hchar
  cases hchar

theorem visitAll_error {visit : List String → String → Except String (List String)}
    {targets complete : List String} {message : String}
    (h : visitAll visit complete targets = .error message) :
    ∃ target ∈ targets, ∃ complete, visit complete target = .error message := by
  induction targets generalizing complete with
  | nil => cases h
  | cons first rest ih =>
    rw [visitAll] at h
    cases hfirst : visit complete first with
    | error failure =>
      rw [hfirst] at h
      exact ⟨first, List.mem_cons_self, complete, hfirst.trans h⟩
    | ok middle =>
      rw [hfirst] at h
      obtain ⟨target, htarget, hfailed⟩ := ih h
      exact ⟨target, List.mem_cons_of_mem _ htarget, hfailed⟩

/-- On every graph the search ends before its fuel does. -/
theorem visit_ends {fuel : Nat} {visiting : List String} (hroom : Room graph fuel visiting)
    (complete : List String) (component : String) :
    visitDependency graph fuel visiting complete component ≠ .error tooDeep := by
  induction fuel generalizing visiting complete component with
  | zero => exact absurd hroom.fuel_pos (Nat.lt_irrefl 0)
  | succ fuel ih =>
    rw [visitDependency]
    by_cases hcomplete : component ∈ complete
    · rw [if_pos hcomplete]
      exact nofun
    by_cases hvisiting : component ∈ visiting
    · rw [if_neg hcomplete, if_pos hvisiting]
      exact fun h => cycle_ne_tooDeep _ (Except.error.inj h)
    rw [if_neg hcomplete, if_neg hvisiting]
    intro h
    cases hinner : visitAll (visitDependency graph fuel (visiting ++ [component])) complete
        ((lookup graph component).getD []) with
    | ok inner =>
      rw [hinner] at h
      cases h
    | error message =>
      rw [hinner] at h
      obtain rfl := Except.error.inj h
      obtain ⟨target, hedge, middle, hfailed⟩ := visitAll_error hinner
      exact ih (hroom.enter hvisiting hedge) middle target hfailed

end Search

/-! ### The dependencies of a schema -/

section Schemas

variable {schema : Schema}

def owners (schema : Schema) : List String := schema.dependencyTypes.map DependencyTypes.component

def components (schema : Schema) : List String := schema.component :: owners schema

/-- A component depends on another. The schema's own component has the dependencies of the
schema, the others have those declared with their types. -/
def Depends (schema : Schema) (source target : String) : Prop :=
  (source = schema.component ∧ target ∈ schema.dependencies) ∨
    (source ≠ schema.component ∧ ∃ owner ∈ schema.dependencyTypes,
      owner.component = source ∧ target ∈ owner.dependencies)

/-- Every dependency that is named anywhere exists. -/
def NamesExist (schema : Schema) : Prop :=
  (∀ target ∈ schema.dependencies, target ∈ components schema) ∧
    ∀ owner ∈ schema.dependencyTypes, ∀ target ∈ owner.dependencies, target ∈ components schema

def Acyclic (schema : Schema) : Prop :=
  ∀ component, ¬ TransGen (Depends schema) component component

def AllReachable (schema : Schema) : Prop :=
  ∀ component ∈ components schema, ReflTransGen (Depends schema) schema.component component

theorem mem_keys_graph {component : String} :
    component ∈ keys (dependencyGraph schema) ↔ component ∈ components schema := by
  have howners : keys (schema.dependencyTypes.map fun dependency =>
      (dependency.component, dependency.dependencies)) = owners schema := by
    rw [keys, List.map_map]
    rfl
  rw [dependencyGraph, mem_keys_insert, mem_keys_ofList, howners, components, List.mem_cons]

/-- The graph has the dependencies of the schema as its edges. -/
theorem edge_iff (howners : (owners schema).Nodup) {source target : String} :
    Edge (dependencyGraph schema) source target ↔ Depends schema source target := by
  unfold Edge dependenciesOf dependencyGraph Depends
  by_cases hroot : source = schema.component
  · subst hroot
    rw [lookup_insert_self, Option.getD_some]
    exact ⟨fun h => .inl ⟨rfl, h⟩, fun h => h.elim And.right fun hother => absurd rfl hother.1⟩
  · have hkeys : (keys (schema.dependencyTypes.map fun dependency =>
        (dependency.component, dependency.dependencies))).Nodup := by
      rw [keys, List.map_map]
      exact howners
    rw [lookup_insert_of_ne (Ne.symm hroot), or_iff_right fun h => hroot h.1, and_iff_right hroot]
    constructor
    · intro h
      cases hlookup : lookup (ofList (schema.dependencyTypes.map fun dependency =>
          (dependency.component, dependency.dependencies))) source with
      | none =>
        rw [hlookup] at h
        cases h
      | some dependencies =>
        rw [hlookup, Option.getD_some] at h
        have hmem := (ofList_perm hkeys).mem_iff.mp (mem_of_lookup hlookup)
        obtain ⟨owner, howner, heq⟩ := List.mem_map.mp hmem
        obtain ⟨rfl, rfl⟩ := Prod.mk.inj heq
        exact ⟨owner, howner, rfl, h⟩
    · rintro ⟨owner, howner, rfl, htarget⟩
      have hmem := (ofList_perm hkeys).mem_iff.mpr (List.mem_map_of_mem howner)
      rw [lookup_of_mem (sorted_ofList _).keys_nodup hmem, Option.getD_some]
      exact htarget

theorem Depends.exists {source target : String} (hexist : NamesExist schema)
    (h : Depends schema source target) : target ∈ components schema := by
  rcases h with ⟨-, htarget⟩ | ⟨-, owner, howner, -, htarget⟩
  · exact hexist.1 target htarget
  · exact hexist.2 owner howner target htarget

/-! ### Missing components -/

theorem missingDependency_eq_none : missingDependency schema = none ↔
    ∀ owner ∈ schema.dependencyTypes, ∀ target ∈ owner.dependencies, target ∈ components schema := by
  unfold missingDependency
  rw [List.findSome?_eq_none_iff]
  refine forall₂_congr fun owner _ => ?_
  rw [Option.map_eq_none_iff, List.find?_eq_none]
  refine forall₂_congr fun target _ => ?_
  rw [decide_eq_true_iff, not_not]
  rfl

theorem checkDependencies_eq_ok : checkDependencies schema = .ok () ↔
    schema.dependencies.Nodup ∧ (owners schema).Nodup ∧
      (∀ target ∈ schema.dependencies, target ∈ owners schema) ∧
      ∀ owner ∈ schema.dependencyTypes, ∀ target ∈ owner.dependencies,
        target ∈ components schema := by
  have hnames : ∀ name, name ∈ keys (ofList (schema.dependencies.map fun name => (name, ()))) ↔
      name ∈ schema.dependencies := by
    intro name
    have hid : schema.dependencies.map (Prod.fst ∘ fun name => (name, ())) = schema.dependencies :=
      List.map_id _
    rw [mem_keys_ofList, keys, List.map_map, hid]
  have hmap : schema.dependencyTypes.map DependencyTypes.component = owners schema := rfl
  unfold checkDependencies
  dsimp only
  rw [hmap]
  by_cases hdependencies : schema.dependencies.Nodup
  swap
  · rw [if_pos hdependencies]
    exact iff_of_false (fun h => by cases h) fun h => hdependencies h.1
  by_cases howners : (owners schema).Nodup
  swap
  · rw [if_neg (not_not.mpr hdependencies), if_pos howners]
    exact iff_of_false (fun h => by cases h) fun h => howners h.2.1
  rw [if_neg (not_not.mpr hdependencies), if_neg (not_not.mpr howners),
    and_iff_right hdependencies, and_iff_right howners]
  cases hmissing : (keys (ofList (schema.dependencies.map fun name => (name, ())))).find?
      (· ∉ owners schema) with
  | some missing =>
    refine iff_of_false (fun h => by cases h) fun h => ?_
    have hmem := (hnames missing).mp (List.mem_of_find?_eq_some hmissing)
    have habsent := List.find?_some hmissing
    exact of_decide_eq_true habsent (h.1 missing hmem)
  | none =>
    have hall : ∀ target ∈ schema.dependencies, target ∈ owners schema := by
      intro target htarget
      have hfound := List.find?_eq_none.mp hmissing target ((hnames target).mpr htarget)
      exact not_not.mp fun h => hfound (decide_eq_true h)
    rw [and_iff_right hall, ← missingDependency_eq_none]
    dsimp only
    cases missingDependency schema with
    | some found => exact iff_of_false (fun h => by cases h) (fun h => by cases h)
    | none => exact iff_of_true rfl rfl

/-! ### Cycles and components out of reach -/

theorem room_initial : Room (dependencyGraph schema) ((dependencyGraph schema).length + 1) [] :=
  ⟨List.nodup_nil, List.nil_subset _, Nat.le_refl _⟩

theorem validateCycles_eq_ok : validateCycles schema = .ok () ↔ ∃ complete,
    visitDependency (dependencyGraph schema) ((dependencyGraph schema).length + 1) [] []
      schema.component = .ok complete ∧ complete.length = (dependencyGraph schema).length := by
  unfold validateCycles
  rw [bind_eq_ok]
  refine exists_congr fun complete => and_congr_right fun _ => ?_
  by_cases hlength : complete.length = (dependencyGraph schema).length
  · rw [if_neg (not_not.mpr hlength)]
    exact iff_of_true rfl hlength
  · rw [if_pos hlength]
    exact iff_of_false nofun hlength

/-- What a search leaves behind are components, once every dependency exists. -/
theorem complete_subset (howners : (owners schema).Nodup) (hexist : NamesExist schema)
    {complete : List String}
    (h : Finished (dependencyGraph schema) [] [] [schema.component] complete) :
    complete ⊆ keys (dependencyGraph schema) := by
  intro other hother
  obtain ⟨-, target, htarget, hreach⟩ := (h.fresh other hother).resolve_left List.not_mem_nil
  obtain rfl := List.mem_singleton.mp htarget
  rw [mem_keys_graph]
  cases hreach with
  | refl => exact List.mem_cons_self
  | tail _ hedge => exact ((edge_iff howners).mp hedge).exists hexist

/-- Where every dependency exists, the search and the number of the components it leaves behind
decide whether all are within reach and none on a cycle. -/
theorem validateCycles_iff (howners : (owners schema).Nodup) (hexist : NamesExist schema) :
    validateCycles schema = .ok () ↔ Acyclic schema ∧ AllReachable schema := by
  have hrelation : Edge (dependencyGraph schema) = Depends schema := by
    funext source target
    exact propext (edge_iff howners)
  have hsorted : Sorted (dependencyGraph schema) := sorted_insert _ _ (sorted_ofList _)
  have hlength : (keys (dependencyGraph schema)).length = (dependencyGraph schema).length :=
    List.length_map ..
  rw [validateCycles_eq_ok]
  constructor
  · rintro ⟨complete, hvisit, hcount⟩
    have hfinished := visit_finished hvisit trivial List.nodup_nil
    have hperm : complete.Perm (keys (dependencyGraph schema)) :=
      (List.subperm_of_subset hfinished.nodup
        (complete_subset howners hexist hfinished)).perm_of_length_le (by omega)
    constructor
    · intro component hcycle
      rw [← hrelation] at hcycle
      obtain ⟨_, hedge, -⟩ := TransGen.head'_iff.mp hcycle
      exact hfinished.ordered.acyclic (hperm.mem_iff.mpr hedge.declared) hcycle
    · intro component hcomponent
      have hmem := hperm.mem_iff.mpr (mem_keys_graph.mpr hcomponent)
      obtain ⟨-, target, htarget, hreach⟩ :=
        (hfinished.fresh component hmem).resolve_left List.not_mem_nil
      obtain rfl := List.mem_singleton.mp htarget
      rwa [hrelation] at hreach
  · rintro ⟨hacyclic, hreachable⟩
    have hleads : ∀ other ∈ ([] : List String),
        TransGen (Edge (dependencyGraph schema)) other schema.component :=
      fun _ h => absurd h List.not_mem_nil
    obtain ⟨complete, hvisit⟩ := visit_succeeds (hrelation ▸ hacyclic) room_initial hleads []
    have hfinished := visit_finished hvisit trivial List.nodup_nil
    have hroot := hfinished.members List.mem_cons_self
    have hall : keys (dependencyGraph schema) ⊆ complete := by
      intro component hcomponent
      have hreach := hreachable component (mem_keys_graph.mp hcomponent)
      rw [← hrelation] at hreach
      exact hfinished.ordered.reachable hreach hroot
    have hle := (List.subperm_of_subset hsorted.keys_nodup hall).length_le
    have hge := (List.subperm_of_subset hfinished.nodup
      (complete_subset howners hexist hfinished)).length_le
    exact ⟨complete, hvisit, by omega⟩

/-! ### The whole check -/

/-- The checks of a schema's dependencies, one after the other. -/
def validateDependencies (schema : Schema) : Except String Unit := do
  checkDependencies schema
  validateCycles schema

theorem validateDependencies_iff : validateDependencies schema = .ok () ↔
    (schema.dependencies.Nodup ∧ (owners schema).Nodup) ∧ NamesExist schema ∧ Acyclic schema ∧
      AllReachable schema := by
  have hsplit : validateDependencies schema = .ok () ↔
      checkDependencies schema = .ok () ∧ validateCycles schema = .ok () := by
    unfold validateDependencies
    rw [bind_eq_ok]
    exact ⟨fun ⟨_, hcheck, hcycles⟩ => ⟨hcheck, hcycles⟩, fun h => ⟨(), h.1, h.2⟩⟩
  rw [hsplit, checkDependencies_eq_ok]
  constructor
  · rintro ⟨⟨hdistinct, howners, hown, hothers⟩, hcycles⟩
    have hexist : NamesExist schema :=
      ⟨fun target htarget => List.mem_cons_of_mem _ (hown target htarget), hothers⟩
    exact ⟨⟨hdistinct, howners⟩, hexist, (validateCycles_iff howners hexist).mp hcycles⟩
  · rintro ⟨⟨hdistinct, howners⟩, hexist, hacyclic, hreachable⟩
    refine ⟨⟨hdistinct, howners, fun target htarget => ?_, hexist.2⟩,
      (validateCycles_iff howners hexist).mpr ⟨hacyclic, hreachable⟩⟩
    -- The component itself is no dependency of its own without a cycle.
    rcases List.mem_cons.mp (hexist.1 target htarget) with rfl | howner
    · exact absurd (.single (.inl ⟨rfl, htarget⟩)) (hacyclic schema.component)
    · exact howner

/-- A schema passes exactly if nothing is listed twice, every named dependency exists, none lies
on a cycle, and every component is within reach. Where the first check has passed, the search
decides the rest, and on every graph it comes to an end. -/
theorem dependencies_exact (schema : Schema) :
    (validateDependencies schema = .ok () ↔
      (schema.dependencies.Nodup ∧ (owners schema).Nodup) ∧ NamesExist schema ∧ Acyclic schema ∧
        AllReachable schema) ∧
    ((owners schema).Nodup → NamesExist schema →
      (validateCycles schema = .ok () ↔ Acyclic schema ∧ AllReachable schema)) ∧
    ∀ fuel, (dependencyGraph schema).length + 1 ≤ fuel →
      visitDependency (dependencyGraph schema) fuel [] [] schema.component =
        visitDependency (dependencyGraph schema) ((dependencyGraph schema).length + 1) [] []
          schema.component ∧
      visitDependency (dependencyGraph schema) fuel [] [] schema.component ≠ .error tooDeep := by
  refine ⟨validateDependencies_iff, validateCycles_iff, fun fuel hfuel => ?_⟩
  have hroom : Room (dependencyGraph schema) fuel [] :=
    ⟨List.nodup_nil, List.nil_subset _, hfuel⟩
  exact ⟨visit_fuel hroom room_initial [] schema.component, visit_ends hroom [] schema.component⟩

end Schemas

/-- The dependency of the component is listed a second time. -/
def listedTwice : Schema where
  component := "app"
  dependencies := ["store", "store"]
  dependencyTypes := [⟨"store", [], []⟩]
  operations := []
  types := []

/-- The dependency of the component is missing, and another component is out of reach. -/
def astray : Schema where
  component := "app"
  dependencies := ["store"]
  dependencyTypes := [⟨"other", [], []⟩]
  operations := []
  types := []

/-- A dependency that is listed twice is refused. The search alone takes as many components as
there are for all of them, even if one is missing and another out of reach. -/
theorem dependency_listed_twice :
    (validateDependencies listedTwice ≠ .ok () ∧ NamesExist listedTwice ∧ Acyclic listedTwice ∧
      AllReachable listedTwice) ∧
    validateCycles astray = .ok () ∧ ¬ NamesExist astray ∧ ¬ AllReachable astray := by
  have hexist : NamesExist listedTwice := by
    unfold NamesExist
    decide
  have hcycles : validateCycles listedTwice = .ok () := rfl
  refine ⟨⟨fun h => ?_, hexist, (validateCycles_iff (by decide) hexist).mp hcycles⟩, rfl,
    fun h => ?_, fun h => ?_⟩
  · have hdistinct := (validateDependencies_iff.mp h).1.1
    revert hdistinct
    decide
  · have hstore := h.1 "store" (by decide)
    revert hstore
    decide
  · have hother := h "other" (by decide)
    rcases ReflTransGen.cases_tail hother with heq | ⟨source, -, ⟨-, hroot⟩ | ⟨-, owner, howner, -, hdependency⟩⟩
    · revert heq
      decide
    · revert hroot
      decide
    · obtain rfl := List.mem_singleton.mp howner
      cases hdependency

/-- A component that depends on itself through another. -/
example : validateCycles
    ⟨"app", ["store"], [⟨"store", ["app"], []⟩], [], []⟩ =
      .error "component dependency cycle: app -> store -> app" := rfl

end SpecGate.DependencyGraphs

import SpecGate.Checked
import SpecGate.SortedAssoc

/-!
Depth-first search that keeps the targets of every node it has left. A node's targets are worked
out when it is entered, which may fail, and no node may be entered again before it is left. Over
finitely many nodes the search ends: it finds exactly what the first node leads to, or it fails
where the targets of such a node cannot be worked out, or it names a cycle.
-/
namespace SpecGate.DependencySearch

set_option linter.unusedSectionVars false

open Checked SortedAssoc
open Relation (ReflTransGen TransGen)

variable {α ε : Type} [DecidableEq α] [Ord α]

/-! ### The search -/

/-- Search from nodes one after the other, with what is found passed on. -/
def searchAll (search : List (α × List α) → α → Except ε (List (α × List α))) :
    List (α × List α) → List α → Except ε (List (α × List α))
  | graph, [] => .ok graph
  | graph, node :: rest => do
      let graph ← search graph node
      searchAll search graph rest

/-- The fuel bounds how many nodes are entered at a time. -/
def search (next : α → Except ε (List α)) (cycle : List α → ε) :
    Nat → List α → List (α × List α) → α → Except ε (List (α × List α))
  | fuel, visiting, graph, node =>
      if contains graph node then .ok graph
      else if node ∈ visiting then .error (cycle (visiting.dropWhile (· ≠ node) ++ [node]))
      else
        match fuel with
        | 0 => .error (cycle [])
        | fuel + 1 => do
            let targets ← next node
            let graph ← searchAll (search next cycle fuel (visiting ++ [node])) graph targets
            return insert node targets graph

variable {next : α → Except ε (List α)} {cycle : List α → ε}

def Edge (next : α → Except ε (List α)) (source target : α) : Prop :=
  ∃ targets, next source = .ok targets ∧ target ∈ targets

/-- A way through the graph that ends where it has begun. -/
structure IsCycle (next : α → Except ε (List α)) (path : List α) : Prop where
  chain : path.IsChain (Edge next)
  long : 2 ≤ path.length
  closed : path.head? = path.getLast?

/-! ### What a search finds -/

section Sound

variable [Std.TransOrd α] [Std.LawfulEqOrd α]

/-- The nodes of a graph have their own targets, which are nodes of the graph as well, and none
leads back to itself. -/
structure Sound (next : α → Except ε (List α)) (graph : List (α × List α)) : Prop where
  sorted : Sorted graph
  targets : ∀ entry ∈ graph, next entry.1 = .ok entry.2
  closed : ∀ entry ∈ graph, entry.2 ⊆ keys graph
  acyclic : ∀ node ∈ keys graph, ¬ TransGen (Edge next) node node

theorem sound_nil : Sound next ([] : List (α × List α)) where
  sorted := sorted_nil
  targets := fun _ h => absurd h List.not_mem_nil
  closed := fun _ h => absurd h List.not_mem_nil
  acyclic := fun _ h => absurd h List.not_mem_nil

theorem exists_entry {graph : List (α × List α)} {node : α} (h : node ∈ keys graph) :
    ∃ targets, (node, targets) ∈ graph := by
  obtain ⟨entry, hentry, rfl⟩ := List.mem_map.mp h
  exact ⟨entry.2, hentry⟩

/-- What a node of the graph leads to is in the graph. -/
theorem Sound.edge {graph : List (α × List α)} (h : Sound next graph) {source target : α}
    (hsource : source ∈ keys graph) (hedge : Edge next source target) : target ∈ keys graph := by
  obtain ⟨targets, hentry⟩ := exists_entry hsource
  obtain ⟨found, hfound, htarget⟩ := hedge
  have hsame : targets = found := Except.ok.inj ((h.targets _ hentry).symm.trans hfound)
  exact h.closed _ hentry (hsame ▸ htarget)

theorem Sound.reaches {graph : List (α × List α)} (h : Sound next graph) {source target : α}
    (hsource : source ∈ keys graph) (hreach : ReflTransGen (Edge next) source target) :
    target ∈ keys graph := by
  induction hreach with
  | refl => exact hsource
  | tail _ hedge ih => exact h.edge ih hedge

/-- A new node whose targets are all known can be added. -/
theorem Sound.insert {graph : List (α × List α)} (h : Sound next graph) {node : α}
    {targets : List α} (hnew : node ∉ keys graph) (htargets : next node = .ok targets)
    (hknown : targets ⊆ keys graph) : Sound next (insert node targets graph) where
  sorted := sorted_insert node targets h.sorted
  targets := by
    intro entry hentry
    rcases mem_insert_cases hentry with rfl | hold
    · exact htargets
    · exact h.targets entry hold
  closed := by
    intro entry hentry target htarget
    rw [mem_keys_insert]
    rcases mem_insert_cases hentry with rfl | hold
    · exact .inr (hknown htarget)
    · exact .inr (h.closed entry hold htarget)
  acyclic := by
    intro other hother hcycle
    rcases mem_keys_insert.mp hother with rfl | hold
    · obtain ⟨first, ⟨found, hfound, hfirst⟩, hback⟩ := TransGen.head'_iff.mp hcycle
      obtain rfl : targets = found := Except.ok.inj (htargets.symm.trans hfound)
      exact hnew (h.reaches (hknown hfirst) hback)
    · exact h.acyclic other hold hcycle

/-- What a search for some targets leaves behind. -/
structure Found (next : α → Except ε (List α)) (visiting : List α) (graph : List (α × List α))
    (targets : List α) (after : List (α × List α)) : Prop where
  sound : Sound next after
  grown : keys graph ⊆ keys after
  members : targets ⊆ keys after
  fresh : ∀ other ∈ keys after, other ∈ keys graph ∨
    (other ∉ visiting ∧ ∃ target ∈ targets, ReflTransGen (Edge next) target other)

theorem Found.cons {visiting : List α} {graph middle after : List (α × List α)} {first : α}
    {rest : List α} (hfirst : Found next visiting graph [first] middle)
    (hrest : Found next visiting middle rest after) :
    Found next visiting graph (first :: rest) after where
  sound := hrest.sound
  grown := fun _ h => hrest.grown (hfirst.grown h)
  members := List.cons_subset.mpr
    ⟨hrest.grown (hfirst.members List.mem_cons_self), hrest.members⟩
  fresh := by
    intro other hother
    rcases hrest.fresh other hother with hmiddle | ⟨hnew, target, htarget, hreach⟩
    · rcases hfirst.fresh other hmiddle with hold | ⟨hnew, target, htarget, hreach⟩
      · exact .inl hold
      · obtain rfl := List.mem_singleton.mp htarget
        exact .inr ⟨hnew, target, List.mem_cons_self, hreach⟩
    · exact .inr ⟨hnew, target, List.mem_cons_of_mem _ htarget, hreach⟩

theorem searchAll_found {search : List (α × List α) → α → Except ε (List (α × List α))}
    {visiting targets : List α}
    (hsearch : ∀ target ∈ targets, ∀ graph after, search graph target = .ok after →
      Sound next graph → Found next visiting graph [target] after)
    {graph after : List (α × List α)} (h : searchAll search graph targets = .ok after)
    (hsound : Sound next graph) : Found next visiting graph targets after := by
  induction targets generalizing graph with
  | nil =>
    obtain rfl := Except.ok.inj h
    exact ⟨hsound, List.Subset.refl _, List.nil_subset _, fun _ hother => .inl hother⟩
  | cons first rest ih =>
    obtain ⟨middle, hfirst, hrest⟩ := bind_eq_ok.mp h
    have hmiddle := hsearch first List.mem_cons_self graph middle hfirst hsound
    exact hmiddle.cons (ih (fun target htarget =>
      hsearch target (List.mem_cons_of_mem _ htarget)) hrest hmiddle.sound)

theorem found_known {visiting : List α} {graph : List (α × List α)} {node : α}
    (hnode : contains graph node = true) (hsound : Sound next graph) :
    Found next visiting graph [node] graph :=
  ⟨hsound, List.Subset.refl _, by simpa using contains_iff.mp hnode, fun _ h => .inl h⟩

/-- A search that comes to an end has found its node, and all that it leads to. -/
theorem search_found {fuel : Nat} {visiting : List α} {graph after : List (α × List α)} {node : α}
    (h : search next cycle fuel visiting graph node = .ok after) (hsound : Sound next graph) :
    Found next visiting graph [node] after := by
  induction fuel generalizing visiting graph after node with
  | zero =>
    rw [search] at h
    split_ifs at h with hknown
    obtain rfl := Except.ok.inj h
    exact found_known hknown hsound
  | succ fuel ih =>
    rw [search] at h
    split_ifs at h with hknown hvisiting
    · obtain rfl := Except.ok.inj h
      exact found_known hknown hsound
    obtain ⟨targets, htargets, h⟩ := bind_eq_ok.mp h
    obtain ⟨inner, hinner, hafter⟩ := bind_eq_ok.mp h
    obtain rfl := Except.ok.inj hafter
    have hfound := searchAll_found
      (fun target _ graph after hsearch hsound => ih hsearch hsound) hinner hsound
    have hnew : node ∉ keys inner := by
      intro hmem
      rcases hfound.fresh node hmem with hold | ⟨hoff, -⟩
      · exact hknown (contains_iff.mpr hold)
      · exact hoff (List.mem_append_right _ (List.mem_singleton.mpr rfl))
    refine ⟨hfound.sound.insert hnew htargets hfound.members,
      fun other hother => mem_keys_insert.mpr (.inr (hfound.grown hother)), ?_, ?_⟩
    · simpa using mem_keys_insert.mpr (.inl rfl)
    · intro other hother
      rcases mem_keys_insert.mp hother with rfl | hinside
      · exact .inr ⟨hvisiting, other, List.mem_cons_self, .refl⟩
      · rcases hfound.fresh other hinside with hold | ⟨hoff, target, htarget, hreach⟩
        · exact .inl hold
        · exact .inr ⟨fun hmem => hoff (List.mem_append_left _ hmem), node,
            List.mem_cons_self, hreach.head ⟨targets, htargets, htarget⟩⟩

end Sound

/-! ### Where a search fails -/

section Failures

variable {nodes : List α}

/-- The nodes entered are distinct, and the fuel lasts for those that are not. -/
structure Room (nodes : List α) (fuel : Nat) (visiting : List α) : Prop where
  nodup : visiting.Nodup
  inside : visiting ⊆ nodes
  enough : nodes.length + 1 ≤ fuel + visiting.length

theorem Room.fuel_pos {fuel : Nat} {visiting : List α} (h : Room nodes fuel visiting) :
    0 < fuel := by
  have hle := (List.subperm_of_subset h.nodup h.inside).length_le
  have henough := h.enough
  omega

theorem Room.enter {fuel : Nat} {visiting : List α} {node : α} (h : Room nodes (fuel + 1) visiting)
    (hnew : node ∉ visiting) (hnode : node ∈ nodes) : Room nodes fuel (visiting ++ [node]) where
  nodup := by
    refine List.nodup_append.mpr ⟨h.nodup, List.nodup_singleton _, fun a ha b hb => ?_⟩
    obtain rfl := List.mem_singleton.mp hb
    exact fun heq => hnew (heq ▸ ha)
  inside := List.append_subset.mpr ⟨h.inside, by simpa using hnode⟩
  enough := by
    have henough := h.enough
    rw [List.length_append, List.length_singleton]
    omega

theorem room_start (nodes : List α) : Room nodes (nodes.length + 1) [] :=
  ⟨List.nodup_nil, List.nil_subset _, Nat.le_refl _⟩

/-- A failure that a search has to report. -/
inductive Blames (next : α → Except ε (List α)) (cycle : List α → ε) (root : α) (failure : ε) :
    Prop
  | targets (node : α) : ReflTransGen (Edge next) root node → next node = .error failure →
      Blames next cycle root failure
  | cycle (path : List α) : IsCycle next path →
      (∀ node ∈ path, ReflTransGen (Edge next) root node) → failure = cycle path →
        Blames next cycle root failure

theorem searchAll_error {search : List (α × List α) → α → Except ε (List (α × List α))}
    {targets : List α} {graph : List (α × List α)} {failure : ε}
    (h : searchAll search graph targets = .error failure) :
    ∃ target ∈ targets, ∃ middle, search middle target = .error failure := by
  induction targets generalizing graph with
  | nil => cases h
  | cons first rest ih =>
    cases hfirst : search graph first with
    | error other =>
      rw [searchAll, hfirst] at h
      obtain rfl := Except.error.inj h
      exact ⟨first, List.mem_cons_self, graph, hfirst⟩
    | ok middle =>
      rw [searchAll, hfirst] at h
      obtain ⟨target, htarget, hfailed⟩ := ih h
      exact ⟨target, List.mem_cons_of_mem _ htarget, hfailed⟩

/-- The path from an entered node to where it is met again. -/
theorem isCycle_dropWhile {visiting : List α} {node : α}
    (hchain : (visiting ++ [node]).IsChain (Edge next)) (hmem : node ∈ visiting) :
    IsCycle next (visiting.dropWhile (· ≠ node) ++ [node]) where
  chain := hchain.suffix (by
    obtain ⟨front, hfront⟩ := List.dropWhile_suffix (l := visiting) fun other => other ≠ node
    exact ⟨front, by rw [← List.append_assoc, hfront]⟩)
  long := by
    have hne : visiting.dropWhile (· ≠ node) ≠ [] := by
      rw [Ne, List.dropWhile_eq_nil_iff]
      exact fun hall => of_decide_eq_true (hall node hmem) rfl
    have hpos := List.length_pos_iff.mpr hne
    rw [List.length_append, List.length_singleton]
    omega
  closed := by
    rw [List.getLast?_append, List.getLast?_singleton, Option.some_or, List.head?_append]
    cases hhead : (visiting.dropWhile (· ≠ node)).head? with
    | none =>
      rw [List.head?_eq_none_iff, List.dropWhile_eq_nil_iff] at hhead
      exact absurd rfl (of_decide_eq_true (hhead node hmem))
    | some first =>
      have hfirst := List.head?_dropWhile_not (fun other => decide (other ≠ node)) visiting
      rw [hhead] at hfirst
      have hsame : first = node := by simpa using hfirst
      rw [hsame]
      rfl

variable {root : α}

/-- A search fails only for a reason. -/
theorem search_blames (hnodes : ∀ source target, Edge next source target → target ∈ nodes)
    {fuel : Nat} {visiting : List α} {graph : List (α × List α)} {node : α} {failure : ε}
    (hroom : Room nodes fuel visiting) (hnode : node ∈ nodes)
    (hchain : (visiting ++ [node]).IsChain (Edge next))
    (hroot : ∀ other ∈ visiting ++ [node], ReflTransGen (Edge next) root other)
    (h : search next cycle fuel visiting graph node = .error failure) :
    Blames next cycle root failure := by
  induction fuel generalizing visiting graph node with
  | zero => exact absurd hroom.fuel_pos (Nat.lt_irrefl 0)
  | succ fuel ih =>
    rw [search] at h
    split_ifs at h with hknown hvisiting
    · obtain rfl := Except.error.inj h
      refine .cycle _ (isCycle_dropWhile hchain hvisiting) (fun other hother => ?_) rfl
      rcases List.mem_append.mp hother with hleft | hright
      · exact hroot other (List.mem_append_left _ ((List.dropWhile_sublist _).subset hleft))
      · exact hroot other (List.mem_append_right _ hright)
    · have hreach := hroot node (List.mem_append_right _ (List.mem_singleton.mpr rfl))
      cases htargets : next node with
      | error other =>
        rw [htargets] at h
        obtain rfl := Except.error.inj h
        exact .targets node hreach htargets
      | ok targets =>
        rw [htargets] at h
        cases hinner : searchAll (search next cycle fuel (visiting ++ [node])) graph targets with
        | ok inner =>
          change (searchAll _ graph targets >>= fun graph => _) = _ at h
          rw [hinner] at h
          cases h
        | error other =>
          change (searchAll _ graph targets >>= fun graph => _) = _ at h
          rw [hinner] at h
          obtain rfl := Except.error.inj h
          obtain ⟨target, htarget, middle, hfailed⟩ := searchAll_error hinner
          have hedge : Edge next node target := ⟨targets, htargets, htarget⟩
          refine ih (hroom.enter hvisiting hnode) (hnodes _ _ hedge) ?_ ?_ hfailed
          · refine hchain.append (List.isChain_singleton _) ?_
            intro last hlast first hfirst
            rw [List.getLast?_append, List.getLast?_singleton, Option.some_or] at hlast
            obtain rfl := Option.some.inj hlast
            obtain rfl := Option.some.inj hfirst
            exact hedge
          · intro other hother
            rcases List.mem_append.mp hother with hleft | hright
            · exact hroot other hleft
            · obtain rfl := List.mem_singleton.mp hright
              exact hreach.tail hedge

end Failures

/-! ### Exactness -/

section Exact

variable [Std.TransOrd α] [Std.LawfulEqOrd α] {nodes : List α} {root : α}

theorem IsCycle.transGen {path : List α} (h : IsCycle next path) :
    ∃ node ∈ path, TransGen (Edge next) node node := by
  obtain ⟨hchain, hlong, hclosed⟩ := h
  cases path with
  | nil => simp at hlong
  | cons first rest =>
    cases rest with
    | nil => simp at hlong
    | cons second rest =>
      refine ⟨first, List.mem_cons_self, ?_⟩
      rw [List.isChain_cons_cons] at hchain
      have hlast : (second :: rest).getLast (List.cons_ne_nil _ _) = first := by
        rw [List.head?_cons, List.getLast?_cons_cons, List.getLast?_eq_getLast_of_ne_nil
          (List.cons_ne_nil _ _)] at hclosed
        exact (Option.some.inj hclosed).symm
      have hreach : ReflTransGen (Edge next) second first := by
        have htail := List.relationReflTransGen_of_exists_isChain_cons rest hchain.2 hlast
        exact htail
      exact TransGen.head' hchain.1 hreach

/-- From its first node a search finds all that the node leads to, with the targets of each. -/
theorem search_ok {fuel : Nat} {graph : List (α × List α)}
    (h : search next cycle fuel [] [] root = .ok graph) :
    Sorted graph ∧ (∀ node, ReflTransGen (Edge next) root node → ¬ TransGen (Edge next) node node) ∧
      ∀ node targets, lookup graph node = some targets ↔
        ReflTransGen (Edge next) root node ∧ next node = .ok targets := by
  have hfound := search_found h sound_nil
  have hmember : ∀ node, node ∈ keys graph ↔ ReflTransGen (Edge next) root node := by
    intro node
    constructor
    · intro hnode
      obtain ⟨-, target, htarget, hreach⟩ :=
        (hfound.fresh node hnode).resolve_left List.not_mem_nil
      obtain rfl := List.mem_singleton.mp htarget
      exact hreach
    · exact hfound.sound.reaches (hfound.members List.mem_cons_self)
  refine ⟨hfound.sound.sorted, fun node hreach =>
    hfound.sound.acyclic node ((hmember node).mpr hreach), fun node targets => ?_⟩
  rw [lookup_iff_mem hfound.sound.sorted.keys_nodup]
  constructor
  · intro hentry
    exact ⟨(hmember node).mp (mem_keys_of_mem hentry), hfound.sound.targets _ hentry⟩
  · rintro ⟨hreach, htargets⟩
    obtain ⟨found, hentry⟩ := exists_entry ((hmember node).mpr hreach)
    have hsame : found = targets :=
      Except.ok.inj ((hfound.sound.targets _ hentry).symm.trans htargets)
    exact hsame ▸ hentry

/-- Over finitely many nodes a search fails only for a reason. -/
theorem search_error (hnodes : ∀ source target, Edge next source target → target ∈ nodes)
    (hroot : root ∈ nodes) {failure : ε}
    (h : search next cycle (nodes.length + 1) [] [] root = .error failure) :
    Blames next cycle root failure := by
  refine search_blames hnodes (room_start nodes) hroot (List.isChain_singleton _) ?_ h
  intro other hother
  obtain rfl := List.mem_singleton.mp hother
  exact .refl

/-- A search succeeds exactly if the targets of all that its node leads to can be worked out
and none of it leads back to itself. -/
theorem search_succeeds_iff
    (hnodes : ∀ source target, Edge next source target → target ∈ nodes) (hroot : root ∈ nodes) :
    (∃ graph, search next cycle (nodes.length + 1) [] [] root = .ok graph) ↔
      ∀ node, ReflTransGen (Edge next) root node →
        (∃ targets, next node = .ok targets) ∧ ¬ TransGen (Edge next) node node := by
  constructor
  · rintro ⟨graph, hgraph⟩ node hreach
    obtain ⟨-, hacyclic, hlookup⟩ := search_ok hgraph
    refine ⟨?_, hacyclic node hreach⟩
    have hfound := search_found hgraph sound_nil
    have hmember := hfound.sound.reaches (hfound.members List.mem_cons_self) hreach
    obtain ⟨targets, hentry⟩ := exists_entry hmember
    exact ⟨targets, hfound.sound.targets _ hentry⟩
  · intro hall
    cases hsearch : search next cycle (nodes.length + 1) [] [] root with
    | ok graph => exact ⟨graph, rfl⟩
    | error failure =>
      cases search_error hnodes hroot hsearch with
      | targets node hreach hfailed =>
        obtain ⟨targets, htargets⟩ := (hall node hreach).1
        rw [hfailed] at htargets
        cases htargets
      | cycle path hcycle hreach _ =>
        obtain ⟨node, hnode, hloop⟩ := hcycle.transGen
        exact absurd hloop (hall node (hreach node hnode)).2

end Exact

end SpecGate.DependencySearch

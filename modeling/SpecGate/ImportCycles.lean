import SpecGate.RegistrySemantics

/-!
The search for import cycles, and what it decides. A search that reports nothing leaves
the registries it has visited in an order in which every registry comes before all those
that it imports, so nothing lies on a cycle; and what it reports is a cycle.
-/
namespace SpecGate.ImportCycles

open RegistryModel Validation SortedAssoc RegistrySemantics

/-! ### Orders of visits -/

section Orders

variable {α : Type*} (succ : α → List α)

/-- Whatever is imported was visited earlier, that is, stands later in the list. -/
def Ordered : List α → Prop
  | [] => True
  | first :: rest => (∀ target ∈ succ first, target ∈ rest) ∧ Ordered rest

variable {succ}

theorem Ordered.closed {visited : List α} (h : Ordered succ visited) {source target : α}
    (hsource : source ∈ visited) (htarget : target ∈ succ source) : target ∈ visited := by
  induction visited with
  | nil => cases hsource
  | cons first rest ih =>
    apply List.mem_cons_of_mem
    rcases List.mem_cons.mp hsource with rfl | hrest
    · exact h.1 target htarget
    · exact ih h.2 hrest

theorem Ordered.reachable {visited : List α} (h : Ordered succ visited) {source target : α}
    (hreach : Relation.ReflTransGen (fun a b => b ∈ succ a) source target)
    (hsource : source ∈ visited) : target ∈ visited := by
  induction hreach with
  | refl => exact hsource
  | tail _ hedge ih => exact h.closed ih hedge

/-- Nothing in an ordered list lies on a cycle. -/
theorem Ordered.acyclic {visited : List α} (h : Ordered succ visited) {source : α}
    (hsource : source ∈ visited) : ¬ Relation.TransGen (fun a b => b ∈ succ a) source source := by
  induction visited with
  | nil => cases hsource
  | cons first rest ih =>
    by_cases hrest : source ∈ rest
    · exact ih h.2 hrest
    · intro hcycle
      obtain rfl : source = first := (List.mem_cons.mp hsource).resolve_right hrest
      obtain ⟨next, hedge, hback⟩ := Relation.TransGen.head'_iff.mp hcycle
      exact hrest (h.2.reachable hback (h.1 next hedge))

/-- One search of many, the visited ones and the reports passed on. -/
def passOn {ι : Type*} (search : List α → α → List α × List ι) (state : List α × List ι)
    (target : α) : List α × List ι :=
  ((search state.1 target).1, state.2 ++ (search state.1 target).2)

theorem clean_before {ι : Type*} {search : List α → α → List α × List ι} {targets : List α}
    {state : List α × List ι} (h : (targets.foldl (passOn search) state).2 = []) :
    state.2 = [] := by
  induction targets generalizing state with
  | nil => exact h
  | cons first rest ih =>
    have hnext : (passOn search state first).2 = [] := ih h
    exact (List.append_eq_nil_iff.mp hnext).1

/-- Searches that report nothing, each of which keeps the order and visits its target. -/
theorem searched_all {ι : Type*} {search : List α → α → List α × List ι} {targets : List α}
    (hsearch : ∀ target ∈ targets, ∀ visited, (search visited target).2 = [] →
      Ordered succ visited → Ordered succ (search visited target).1 ∧
        target ∈ (search visited target).1 ∧ visited ⊆ (search visited target).1)
    {state : List α × List ι} (hclean : (targets.foldl (passOn search) state).2 = [])
    (hordered : Ordered succ state.1) :
    Ordered succ (targets.foldl (passOn search) state).1 ∧
      (∀ target ∈ targets, target ∈ (targets.foldl (passOn search) state).1) ∧
      state.1 ⊆ (targets.foldl (passOn search) state).1 := by
  induction targets generalizing state with
  | nil => exact ⟨hordered, fun _ h => (by cases h), List.Subset.refl _⟩
  | cons first rest ih =>
    rw [List.foldl_cons] at hclean ⊢
    obtain ⟨-, hown⟩ := List.append_eq_nil_iff.mp (clean_before hclean)
    obtain ⟨hordered', hmem, hsubset⟩ := hsearch first List.mem_cons_self state.1 hown hordered
    obtain ⟨hlast, hall, hgrown⟩ := ih (fun target h => hsearch target
      (List.mem_cons_of_mem _ h)) hclean hordered'
    refine ⟨hlast, fun target htarget => ?_, fun other h => hgrown (hsubset h)⟩
    rcases List.mem_cons.mp htarget with rfl | hin
    · exact hgrown hmem
    · exact hall target hin

/-- Searches none of which reports anything. -/
theorem clean_all {ι : Type*} {search : List α → α → List α × List ι} {targets : List α}
    (hsearch : ∀ target ∈ targets, ∀ visited, (search visited target).2 = [])
    {state : List α × List ι} (hstate : state.2 = []) :
    (targets.foldl (passOn search) state).2 = [] := by
  induction targets generalizing state with
  | nil => exact hstate
  | cons first rest ih =>
    rw [List.foldl_cons]
    apply ih fun target h => hsearch target (List.mem_cons_of_mem _ h)
    rw [passOn, hstate, List.nil_append]
    exact hsearch first List.mem_cons_self state.1

/-- One search of many, as long as none is cut off. -/
def passOnWithin {ι : Type*} (search : List α → α → Option (List α × List ι))
    (state : List α × List ι) (target : α) : Option (List α × List ι) :=
  (search state.1 target).map fun found => (found.1, state.2 ++ found.2)

/-- Searches none of which is cut off. -/
theorem within_all {ι : Type*} {search : List α → α → List α × List ι}
    {within : List α → α → Option (List α × List ι)} {targets : List α}
    (h : ∀ target ∈ targets, ∀ visited, within visited target = some (search visited target))
    (state : List α × List ι) :
    targets.foldlM (passOnWithin within) state = some (targets.foldl (passOn search) state) := by
  induction targets generalizing state with
  | nil => rfl
  | cons first rest ih =>
    have hfirst : passOnWithin within state first = some (passOn search state first) := by
      rw [passOnWithin, h first List.mem_cons_self]
      rfl
    rw [List.foldlM_cons, hfirst, List.foldl_cons]
    exact ih (fun target hmem => h target (List.mem_cons_of_mem _ hmem)) _

end Orders

/-! ### The search -/

section Search

variable {documents : Documents} {paths : DocumentPaths}

/-- A selected registry imports another. -/
def Imports (documents : Documents) (source target : String) : Prop :=
  target ∈ importedIds documents source

theorem Imports.selected {source target : String} (h : Imports documents source target) :
    target ∈ keys documents := by
  unfold Imports importedIds at h
  cases hdocument : lookup documents source with
  | none => simp [hdocument] at h
  | some document =>
    simp only [hdocument, List.mem_filter] at h
    exact contains_iff.mp h.2

/-- A search without a report has visited its registry and kept the order. -/
theorem visit_ordered {fuel : Nat} {visiting visited : List String} {registryId : String}
    (hregistry : registryId ∈ keys documents) (hnodup : visiting.Nodup)
    (hvisiting : visiting ⊆ keys documents)
    (hfuel : documents.length + 1 ≤ fuel + visiting.length)
    (hclean : (visit documents paths fuel visiting visited registryId).2 = [])
    (hordered : Ordered (importedIds documents) visited) :
    Ordered (importedIds documents) (visit documents paths fuel visiting visited registryId).1 ∧
      registryId ∈ (visit documents paths fuel visiting visited registryId).1 ∧
      visited ⊆ (visit documents paths fuel visiting visited registryId).1 := by
  induction fuel generalizing visiting visited registryId with
  | zero =>
    -- No more registries can be visited at a time than there are.
    have hle := (List.subperm_of_subset hnodup hvisiting).length_le
    rw [keys, List.length_map] at hle
    omega
  | succ fuel ih =>
    rw [visit] at hclean ⊢
    by_cases hvisited : registryId ∈ visited
    · rw [if_pos hvisited]
      exact ⟨hordered, hvisited, List.Subset.refl _⟩
    rw [if_neg hvisited] at hclean ⊢
    by_cases hcycle : registryId ∈ visiting
    · rw [if_pos hcycle] at hclean
      exact absurd hclean (issue_ne_nil _ _)
    rw [if_neg hcycle] at hclean ⊢
    have hinner : (visiting ++ [registryId]).Nodup := by
      apply List.nodup_append.mpr
      refine ⟨hnodup, List.nodup_singleton _, fun a ha b hb => ?_⟩
      obtain rfl := List.mem_singleton.mp hb
      exact fun heq => hcycle (heq ▸ ha)
    have hwithin : visiting ++ [registryId] ⊆ keys documents :=
      List.append_subset.mpr ⟨hvisiting, by simpa using hregistry⟩
    obtain ⟨hlast, hall, hgrown⟩ := searched_all
      (fun target htarget visited hreport hkept => ih (Imports.selected htarget) hinner hwithin
        (by rw [List.length_append, List.length_singleton]; omega) hreport hkept) hclean hordered
    exact ⟨⟨hall, hlast⟩, List.mem_cons_self, fun other h => List.mem_cons_of_mem _ (hgrown h)⟩

/-- Without cycles nothing is reported, as what is being visited leads to the registry. -/
theorem visit_clean (hacyclic : ∀ id, ¬ Relation.TransGen (Imports documents) id id) {fuel : Nat}
    {visiting visited : List String} {registryId : String}
    (hleads : ∀ other ∈ visiting, Relation.TransGen (Imports documents) other registryId) :
    (visit documents paths fuel visiting visited registryId).2 = [] := by
  induction fuel generalizing visiting visited registryId with
  | zero => rfl
  | succ fuel ih =>
    rw [visit]
    by_cases hvisited : registryId ∈ visited
    · rw [if_pos hvisited]
    rw [if_neg hvisited, if_neg fun hcycle => hacyclic registryId (hleads registryId hcycle)]
    change (List.foldl (passOn (visit documents paths fuel (visiting ++ [registryId])))
      (visited, []) (importedIds documents registryId)).2 = []
    refine clean_all (fun target hedge visited => ih fun other hother => ?_) rfl
    rcases List.mem_append.mp hother with hold | hnew
    · exact (hleads other hold).tail hedge
    · obtain rfl := List.mem_singleton.mp hnew
      exact .single hedge

/-- The search reports nothing exactly if no selected registry imports itself through
others. -/
theorem validateCycles_eq_nil_iff : validateCycles documents paths = [] ↔
    ∀ id, ¬ Relation.TransGen (Imports documents) id id := by
  constructor
  · intro hclean id hcycle
    have hid : id ∈ keys documents := by
      obtain ⟨_, _, hedge⟩ := Relation.TransGen.tail'_iff.mp hcycle
      exact Imports.selected hedge
    obtain ⟨hlast, hall, -⟩ := searched_all
      (fun target htarget visited hreport hkept => visit_ordered htarget List.nodup_nil
        (List.nil_subset _) (by simp) hreport hkept) hclean trivial
    exact hlast.acyclic (hall id hid) hcycle
  · intro hacyclic
    change (List.foldl (passOn (visit documents paths (documents.length + 1) [])) ([], [])
      (keys documents)).2 = []
    exact clean_all (fun target _ visited => visit_clean hacyclic (by simp)) rfl

/-! ### The depth of the search -/

/-- The search with its recursion cut off at a depth. -/
def visitWithin (documents : Documents) (paths : DocumentPaths) :
    Nat → List String → List String → String → Option (List String × List ValidationIssue)
  | 0, _, _, _ => none
  | depth + 1, visiting, visited, registryId =>
      if registryId ∈ visited then some (visited, [])
      else if registryId ∈ visiting then
        let cycle := visiting.dropWhile (· != registryId) ++ [registryId]
        some (visited, issue (located (pathOf paths registryId) "$.imports")
          ("registry import cycle: " ++ " -> ".intercalate cycle))
      else
        ((importedIds documents registryId).foldlM
          (passOnWithin (visitWithin documents paths depth (visiting ++ [registryId])))
          (visited, [])).map fun result => (registryId :: result.1, result.2)

def cyclesWithin (depth : Nat) (documents : Documents) (paths : DocumentPaths) :
    Option (List ValidationIssue) :=
  ((keys documents).foldlM (passOnWithin (visitWithin documents paths depth [])) ([], [])).map
    Prod.snd

/-- The registries being visited are distinct, so the search is nested no deeper than there
are registries. -/
theorem visitWithin_eq {depth fuel : Nat} {visiting visited : List String} {registryId : String}
    (hregistry : registryId ∈ keys documents) (hnodup : visiting.Nodup)
    (hvisiting : visiting ⊆ keys documents)
    (hdepth : documents.length + 1 ≤ depth + visiting.length)
    (hfuel : documents.length + 1 ≤ fuel + visiting.length) :
    visitWithin documents paths depth visiting visited registryId =
      some (visit documents paths fuel visiting visited registryId) := by
  have hle := (List.subperm_of_subset hnodup hvisiting).length_le
  rw [keys, List.length_map] at hle
  induction depth generalizing fuel visiting visited registryId with
  | zero => omega
  | succ depth ih =>
    cases fuel with
    | zero => omega
    | succ fuel =>
      rw [visitWithin, visit]
      by_cases hvisited : registryId ∈ visited
      · rw [if_pos hvisited, if_pos hvisited]
      rw [if_neg hvisited, if_neg hvisited]
      by_cases hcycle : registryId ∈ visiting
      · rw [if_pos hcycle, if_pos hcycle]
      rw [if_neg hcycle, if_neg hcycle]
      have hinner : (visiting ++ [registryId]).Nodup := by
        apply List.nodup_append.mpr
        refine ⟨hnodup, List.nodup_singleton _, fun a ha b hb => ?_⟩
        obtain rfl := List.mem_singleton.mp hb
        exact fun heq => hcycle (heq ▸ ha)
      have hwithin : visiting ++ [registryId] ⊆ keys documents :=
        List.append_subset.mpr ⟨hvisiting, by simpa using hregistry⟩
      have hlength : (visiting ++ [registryId]).length = visiting.length + 1 :=
        List.length_append
      have hshort := (List.subperm_of_subset hinner hwithin).length_le
      rw [keys, List.length_map] at hshort
      have hall : ∀ target ∈ importedIds documents registryId, ∀ visited,
          visitWithin documents paths depth (visiting ++ [registryId]) visited target =
            some (visit documents paths fuel (visiting ++ [registryId]) visited target) :=
        fun target htarget visited => ih (Imports.selected htarget) hinner hwithin
          (by omega) (by omega) hshort
      rw [within_all hall]
      rfl

/-- The search comes to an end within that depth, and it reports something exactly if some
selected registry imports itself through selected registries. -/
theorem cycles_reported_iff (documents : Documents) (paths : DocumentPaths) :
    (∀ depth, documents.length + 1 ≤ depth →
      cyclesWithin depth documents paths = some (validateCycles documents paths)) ∧
    (validateCycles documents paths ≠ [] ↔
      ∃ id, Relation.TransGen (Imports documents) id id) := by
  constructor
  · intro depth hdepth
    have hall : ∀ target ∈ keys documents, ∀ visited,
        visitWithin documents paths depth [] visited target =
          some (visit documents paths (documents.length + 1) [] visited target) :=
      fun target htarget visited => visitWithin_eq htarget List.nodup_nil (List.nil_subset _)
        hdepth (Nat.le_refl _)
    rw [cyclesWithin, within_all hall]
    rfl
  · rw [Ne, validateCycles_eq_nil_iff, not_forall_not]

end Search

end SpecGate.ImportCycles

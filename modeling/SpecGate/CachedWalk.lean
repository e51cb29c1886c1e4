import Mathlib

/-!
A walk along a partial successor function with a memory of finished walks.
The walk stops at a node that answers, at a key it has passed before, or at a key
whose answer is remembered. With keys that identify nodes, the answer is that of the
chain of successors: what its last node answers, or the answer for an endless chain.
-/
namespace SpecGate.CachedWalk

set_option linter.unusedSectionVars false

variable {Node Key Result : Type} [DecidableEq Key]

/-- Where to go from a node, or what it answers; and the answer for a repeated key. -/
structure System (Node Key Result : Type) where
  key : Node → Key
  step : Node → Result ⊕ Node
  repeated : Result

/-- The answer of a walk and the keys it has passed; `none` when the fuel runs out. -/
def walk (system : System Node Key Result) (cache : List (Key × Result)) (path : List Key) :
    Nat → Node → Option (Result × List Key)
  | 0, _ => none
  | fuel + 1, node =>
      match cache.lookup (system.key node) with
      | some result => some (result, path)
      | none =>
          if system.key node ∈ path then some (system.repeated, path)
          else match system.step node with
            | .inl result => some (result, system.key node :: path)
            | .inr next => walk system cache (system.key node :: path) fuel next

/-- Enter one answer for every key of a path. -/
def remember (path : List Key) (result : Result) (cache : List (Key × Result)) :
    List (Key × Result) :=
  path.map (fun key => (key, result)) ++ cache

/-- Walking from scratch, with nothing remembered. -/
def plain (system : System Node Key Result) (fuel : Nat) (node : Node) : Option Result :=
  (walk system [] [] fuel node).map Prod.fst

/-- One step to the successor. -/
def Next (system : System Node Key Result) (node next : Node) : Prop :=
  system.step node = .inr next

/-- The chain from a node ends with an answer. -/
inductive Stops (system : System Node Key Result) : Node → Result → Prop
  | here {node : Node} {result : Result} (h : system.step node = .inl result) :
      Stops system node result
  | next {node next : Node} {result : Result} (h : Next system node next)
      (hrest : Stops system next result) : Stops system node result

/-- What the chain from a node comes to. -/
def Resolves (system : System Node Key Result) (node : Node) (result : Result) : Prop :=
  Stops system node result ∨ ((∀ other, ¬Stops system node other) ∧ result = system.repeated)

section Chains

variable {system : System Node Key Result}

theorem Stops.unique {node : Node} {left right : Result} (hleft : Stops system node left)
    (hright : Stops system node right) : left = right := by
  induction hleft with
  | here h =>
    cases hright with
    | here h' => exact Sum.inl.inj (h.symm.trans h')
    | next h' _ => exact absurd (h.symm.trans h') (by simp)
  | next h _ ih =>
    cases hright with
    | here h' => exact absurd (h.symm.trans h') (by simp)
    | next h' hrest =>
      obtain rfl := Sum.inr.inj (h.symm.trans h')
      exact ih hrest

theorem stops_next_iff {node next : Node} {result : Result} (h : Next system node next) :
    Stops system node result ↔ Stops system next result := by
  refine ⟨fun hstops => ?_, Stops.next h⟩
  cases hstops with
  | here h' => exact absurd (h'.symm.trans h) (by simp)
  | next h' hrest =>
    obtain rfl := Sum.inr.inj (h.symm.trans h')
    exact hrest

theorem Resolves.unique {node : Node} {left right : Result} (hleft : Resolves system node left)
    (hright : Resolves system node right) : left = right := by
  rcases hleft with hleft | ⟨hnone, rfl⟩
  · rcases hright with hright | ⟨hnone, -⟩
    · exact hleft.unique hright
    · exact absurd hleft (hnone _)
  · rcases hright with hright | ⟨-, rfl⟩
    · exact absurd hright (hnone _)
    · rfl

theorem resolves_next_iff {node next : Node} {result : Result} (h : Next system node next) :
    Resolves system node result ↔ Resolves system next result := by
  simp only [Resolves, stops_next_iff h]

theorem resolves_of_reaches {node final : Node} {result : Result}
    (h : Relation.ReflTransGen (Next system) node final) :
    Resolves system node result ↔ Resolves system final result := by
  induction h using Relation.ReflTransGen.head_induction_on with
  | refl => exact Iff.rfl
  | head hnext _ ih => exact (resolves_next_iff hnext).trans ih

/-- A chain that ends does not come back to where it started. -/
theorem Stops.not_cycle {node : Node} {result : Result} (h : Stops system node result) :
    ¬Relation.TransGen (Next system) node node := by
  induction h with
  | here h =>
    intro hcycle
    obtain ⟨next, hnext, -⟩ := Relation.TransGen.head'_iff.mp hcycle
    exact absurd (h.symm.trans hnext) (by simp)
  | next h _ ih =>
    intro hcycle
    obtain ⟨other, hother, hback⟩ := Relation.TransGen.head'_iff.mp hcycle
    obtain rfl := Sum.inr.inj (h.symm.trans hother)
    exact ih (Relation.TransGen.tail' hback h)

theorem resolves_repeated {node : Node} (h : Relation.TransGen (Next system) node node) :
    Resolves system node system.repeated :=
  .inr ⟨fun _ hstops => hstops.not_cycle h, rfl⟩

end Chains

/-! ### The walk and the chain -/

section Correctness

variable {system : System Node Key Result} {nodes : Node → Prop}

/-- A set of nodes that steps do not leave and that keys identify. -/
structure Identified (system : System Node Key Result) (nodes : Node → Prop) : Prop where
  closed : ∀ node next, nodes node → Next system node next → nodes next
  injective : ∀ node other, nodes node → nodes other → system.key node = system.key other →
    node = other

/-- Every remembered answer is the answer of the chain. -/
def Sound (system : System Node Key Result) (nodes : Node → Prop)
    (cache : List (Key × Result)) : Prop :=
  ∀ key result, cache.lookup key = some result →
    ∀ node, nodes node → system.key node = key → Resolves system node result

/-- The keys of nodes that lead to the current one. -/
def Behind (system : System Node Key Result) (nodes : Node → Prop) (path : List Key)
    (node : Node) : Prop :=
  ∀ key ∈ path, ∃ earlier, nodes earlier ∧ system.key earlier = key ∧
    Relation.TransGen (Next system) earlier node

theorem Behind.next {path : List Key} {node next : Node} (h : Behind system nodes path node)
    (hnode : nodes node) (hnext : Next system node next) :
    Behind system nodes (system.key node :: path) next := by
  intro key hkey
  rcases List.mem_cons.mp hkey with rfl | hkey
  · exact ⟨node, hnode, rfl, .single hnext⟩
  · obtain ⟨earlier, hearlier, hkey, hreach⟩ := h key hkey
    exact ⟨earlier, hearlier, hkey, hreach.tail hnext⟩

/-- The walk answers for its node and for every node whose key it has passed. -/
theorem walk_resolves (hidentified : Identified system nodes) {cache : List (Key × Result)}
    (hsound : Sound system nodes cache) {fuel : Nat} {path passed : List Key} {node : Node}
    {result : Result} (hnode : nodes node) (hbehind : Behind system nodes path node)
    (h : walk system cache path fuel node = some (result, passed)) :
    Resolves system node result ∧
      ∀ other, nodes other → system.key other ∈ passed → Resolves system other result := by
  have hpath : Resolves system node result →
      ∀ other, nodes other → system.key other ∈ path → Resolves system other result := by
    intro hresult other hother hkey
    obtain ⟨earlier, hearlier, hsame, hreach⟩ := hbehind _ hkey
    obtain rfl := hidentified.injective _ _ hearlier hother hsame
    exact (resolves_of_reaches hreach.to_reflTransGen).mpr hresult
  induction fuel generalizing path node with
  | zero => cases h
  | succ fuel ih =>
    rw [walk] at h
    cases hcached : cache.lookup (system.key node) with
    | some cached =>
      simp only [hcached, Option.some.injEq, Prod.mk.injEq] at h
      obtain ⟨rfl, rfl⟩ := h
      have hresult := hsound _ _ hcached node hnode rfl
      exact ⟨hresult, hpath hresult⟩
    | none =>
      simp only [hcached] at h
      split at h
      · rename_i hrepeated
        obtain ⟨rfl, rfl⟩ := Prod.mk.inj (Option.some.inj h)
        obtain ⟨earlier, hearlier, hsame, hreach⟩ := hbehind _ hrepeated
        obtain rfl := hidentified.injective _ _ hearlier hnode hsame
        have hresult := resolves_repeated hreach
        exact ⟨hresult, hpath hresult⟩
      · cases hstep : system.step node with
        | inl answer =>
          simp only [hstep, Option.some.injEq, Prod.mk.injEq] at h
          obtain ⟨rfl, rfl⟩ := h
          have hresult : Resolves system node answer := .inl (.here hstep)
          refine ⟨hresult, fun other hother hkey => ?_⟩
          rcases List.mem_cons.mp hkey with hsame | hkey
          · rwa [hidentified.injective _ _ hother hnode hsame]
          · exact hpath hresult other hother hkey
        | inr next =>
          simp only [hstep] at h
          have hnext : nodes next := hidentified.closed _ _ hnode hstep
          have hbehind' := hbehind.next hnode hstep
          obtain ⟨hresult, hpassed⟩ := ih hnext hbehind' h fun hresult other hother hkey => by
            obtain ⟨earlier, hearlier, hsame, hreach⟩ := hbehind' _ hkey
            obtain rfl := hidentified.injective _ _ hearlier hother hsame
            exact (resolves_of_reaches hreach.to_reflTransGen).mpr hresult
          exact ⟨(resolves_next_iff hstep).mpr hresult, hpassed⟩

theorem lookup_remember {path : List Key} {result : Result} {cache : List (Key × Result)}
    {key : Key} {found : Result} (h : (remember path result cache).lookup key = some found) :
    (key ∈ path ∧ found = result) ∨ cache.lookup key = some found := by
  induction path with
  | nil => exact .inr h
  | cons head rest ih =>
    rw [remember, List.map_cons, List.cons_append, List.lookup_cons] at h
    by_cases hkey : key = head
    · subst hkey
      simp only [beq_self_eq_true] at h
      exact .inl ⟨List.mem_cons_self, (Option.some.inj h).symm⟩
    · simp only [beq_eq_false_iff_ne.mpr hkey] at h
      rcases ih h with ⟨hmem, hfound⟩ | hcache
      · exact .inl ⟨List.mem_cons_of_mem _ hmem, hfound⟩
      · exact .inr hcache

/-- Remembering the path of a walk keeps the memory sound. -/
theorem Sound.remember (hidentified : Identified system nodes) {cache : List (Key × Result)}
    (hsound : Sound system nodes cache) {fuel : Nat} {passed : List Key} {node : Node}
    {result : Result} (hnode : nodes node)
    (h : walk system cache [] fuel node = some (result, passed)) :
    Resolves system node result ∧ Sound system nodes (remember passed result cache) := by
  have hbehind : Behind system nodes [] node := fun key hkey => by cases hkey
  obtain ⟨hresolves, hpassed⟩ := walk_resolves hidentified hsound hnode hbehind h
  refine ⟨hresolves, fun key found hfound other hother hkey => ?_⟩
  rcases lookup_remember hfound with ⟨hmem, rfl⟩ | hcache
  · exact hpassed other hother (hkey ▸ hmem)
  · exact hsound key found hcache other hother hkey

theorem sound_nil : Sound system nodes [] := fun _ _ hlookup => by cases hlookup

theorem plain_resolves (hidentified : Identified system nodes) {fuel : Nat} {node : Node}
    {result : Result} (hnode : nodes node) (h : plain system fuel node = some result) :
    Resolves system node result := by
  obtain ⟨⟨answer, passed⟩, hwalk, rfl⟩ := Option.map_eq_some_iff.mp h
  exact (sound_nil.remember hidentified hnode hwalk).1

/-- The walk passes no key twice, so fuel for every key is enough. -/
theorem walk_isSome {known : List Key} (hclosed : ∀ node next, nodes node → Next system node next →
      nodes next) (hknown : ∀ node, nodes node → system.key node ∈ known)
    {cache : List (Key × Result)} {fuel : Nat} {path : List Key} {node : Node} (hnode : nodes node)
    (hnodup : path.Nodup) (hpath : ∀ key ∈ path, key ∈ known)
    (hfuel : known.length < fuel + path.length) :
    ∃ out, walk system cache path fuel node = some out := by
  induction fuel generalizing path node with
  | zero =>
    have hle : path.length ≤ known.length := (hnodup.subperm hpath).length_le
    omega
  | succ fuel ih =>
    rw [walk]
    cases cache.lookup (system.key node) with
    | some result => exact ⟨_, rfl⟩
    | none =>
      by_cases hrepeated : system.key node ∈ path
      · exact ⟨(system.repeated, path), by simp only [if_pos hrepeated]⟩
      · simp only [if_neg hrepeated]
        cases hstep : system.step node with
        | inl answer => exact ⟨_, rfl⟩
        | inr next =>
          refine ih (hclosed _ _ hnode hstep) (List.nodup_cons.mpr ⟨hrepeated, hnodup⟩) ?_ ?_
          · intro key hkey
            rcases List.mem_cons.mp hkey with rfl | hkey
            · exact hknown node hnode
            · exact hpath key hkey
          · rw [List.length_cons]
            omega

end Correctness

end SpecGate.CachedWalk

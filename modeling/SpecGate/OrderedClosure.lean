import Mathlib

/-!
Descendants in one pass. Nodes have keys and name the keys of their parents. Where a list has
every node after its parent, one pass over it that adds a key whenever the parent's key is
known finds the descendants of the keys it has started with.
-/
namespace SpecGate.OrderedClosure

variable {α κ : Type*}

section Descendants

variable (key parent : α → κ)

/-- No node is the parent of one before it, and keys tell the nodes apart. -/
structure ParentsFirst (nodes : List α) : Prop where
  distinct : (nodes.map key).Nodup
  ordered : nodes.Pairwise fun earlier later => parent earlier ≠ key later

def Link (nodes : List α) (child above : α) : Prop := above ∈ nodes ∧ parent child = key above

/-- The chain of parents of a node reaches a root. -/
def Below (nodes : List α) (root : α → Prop) (node : α) : Prop :=
  ∃ top ∈ nodes, root top ∧ Relation.ReflTransGen (Link key parent nodes) node top

variable {key parent} {nodes others : List α} {root : α → Prop}

theorem Below.of_link {node above : α} (hlink : Link key parent nodes node above)
    (h : Below key parent nodes root above) : Below key parent nodes root node :=
  let ⟨top, htop, hroot, hchain⟩ := h
  ⟨top, htop, hroot, .head hlink hchain⟩

/-- A descendant that is no root itself has a parent that is a descendant. -/
theorem Below.root_or_link {node : α} (h : Below key parent nodes root node) :
    root node ∨ ∃ above, Link key parent nodes node above ∧ Below key parent nodes root above := by
  obtain ⟨top, htop, hroot, hchain⟩ := h
  rcases hchain.cases_head with rfl | ⟨above, hlink, hrest⟩
  · exact .inl hroot
  · exact .inr ⟨above, hlink, top, htop, hroot, hrest⟩

theorem ParentsFirst.sublist (h : ParentsFirst key parent nodes) (hkept : others.Sublist nodes) :
    ParentsFirst key parent others where
  distinct := h.distinct.sublist (hkept.map key)
  ordered := h.ordered.sublist hkept

/-- Where all descendants are kept, they are descendants among what is kept. -/
theorem Below.of_kept (hkept : ∀ node ∈ nodes, Below key parent nodes root node → node ∈ others) {node : α}
    (hnode : node ∈ nodes) (h : Below key parent nodes root node) :
    Below key parent others root node := by
  obtain ⟨top, htop, hroot, hchain⟩ := h
  induction hchain using Relation.ReflTransGen.head_induction_on with
  | refl => exact ⟨top, hkept top htop ⟨top, htop, hroot, .refl⟩, hroot, .refl⟩
  | head hlink hrest ih =>
    refine (ih hlink.1).of_link ⟨hkept _ hlink.1 ⟨top, htop, hroot, hrest⟩, hlink.2⟩

end Descendants

section Pass

variable [DecidableEq κ] (key parent : α → κ)

/-- Adds the key of every node whose parent is known by then. -/
def retain (known : List κ) : List α → List κ
  | [] => known
  | node :: rest =>
      if parent node ∈ known then retain (key node :: known) rest else retain known rest

variable {key parent} {nodes : List α} {keys : List κ} {root : α → Prop}

theorem subset_retain (keys : List κ) (nodes : List α) : keys ⊆ retain key parent keys nodes := by
  induction nodes generalizing keys with
  | nil => exact List.Subset.refl keys
  | cons node rest ih =>
    unfold retain
    split
    · exact List.Subset.trans (List.subset_cons_self (key node) keys) (ih (key node :: keys))
    · exact ih keys

/-- What holds of the keys to start with, and of a key whenever it holds of the parent's, holds
of all that are found. -/
theorem forall_mem_retain {P : κ → Prop} (hknown : ∀ k ∈ keys, P k)
    (hnext : ∀ node ∈ nodes, P (parent node) → P (key node)) :
    ∀ k ∈ retain key parent keys nodes, P k := by
  induction nodes generalizing keys with
  | nil => exact hknown
  | cons node rest ih =>
    obtain ⟨hnode, hrest⟩ := List.forall_mem_cons.mp hnext
    unfold retain
    split_ifs with hparent
    · exact ih (List.forall_mem_cons.mpr ⟨hnode (hknown _ hparent), hknown⟩) hrest
    · exact ih hknown hrest

theorem mem_retain {k : κ} (h : k ∈ retain key parent keys nodes) :
    k ∈ keys ∨ ∃ node ∈ nodes, k = key node :=
  forall_mem_retain (P := fun k => k ∈ keys ∨ ∃ node ∈ nodes, k = key node) (fun _ => .inl)
    (fun node hnode _ => .inr ⟨node, hnode, rfl⟩) k h

/-- The pass misses no node: a parent that is found at all is found before the node. -/
theorem key_mem_retain (hordered : nodes.Pairwise fun earlier later => parent earlier ≠ key later)
    {node : α} (hnode : node ∈ nodes) (hparent : parent node ∈ retain key parent keys nodes) :
    key node ∈ retain key parent keys nodes := by
  induction nodes generalizing keys with
  | nil => cases hnode
  | cons first rest ih =>
    obtain ⟨hfirst, hrest⟩ := List.pairwise_cons.mp hordered
    unfold retain at hparent ⊢
    rcases List.mem_cons.mp hnode with rfl | hnode
    · split_ifs at hparent ⊢ with hknown
      · exact subset_retain _ rest List.mem_cons_self
      · rcases mem_retain hparent with hkeys | ⟨later, hlater, heq⟩
        · exact absurd hkeys hknown
        · exact absurd heq (hfirst later hlater)
    · split_ifs at hparent ⊢
      · exact ih hrest hnode hparent
      · exact ih hrest hnode hparent

/-- One pass finds the descendants of the roots and nothing else. -/
theorem mem_retain_iff (h : ParentsFirst key parent nodes) [DecidablePred root] {node : α}
    (hnode : node ∈ nodes) :
    key node ∈ retain key parent ((nodes.filter fun node => decide (root node)).map key) nodes ↔
      Below key parent nodes root node := by
  constructor
  · intro hmem
    have hroots : ∀ k ∈ (nodes.filter fun node => decide (root node)).map key,
        ∃ node ∈ nodes, key node = k ∧ Below key parent nodes root node := by
      intro k hk
      obtain ⟨top, htop, rfl⟩ := List.mem_map.mp hk
      obtain ⟨htop, hroot⟩ := List.mem_filter.mp htop
      exact ⟨top, htop, rfl, top, htop, of_decide_eq_true hroot, .refl⟩
    have hnext : ∀ child ∈ nodes,
        (∃ node ∈ nodes, key node = parent child ∧ Below key parent nodes root node) →
          ∃ node ∈ nodes, key node = key child ∧ Below key parent nodes root node := by
      rintro child hchild ⟨above, habove, hkey, hbelow⟩
      exact ⟨child, hchild, rfl, hbelow.of_link ⟨habove, hkey.symm⟩⟩
    obtain ⟨other, hother, hkey, hbelow⟩ := forall_mem_retain hroots hnext _ hmem
    rwa [List.inj_on_of_nodup_map h.distinct hother hnode hkey] at hbelow
  · rintro ⟨top, htop, hroot, hchain⟩
    induction hchain using Relation.ReflTransGen.head_induction_on with
    | refl =>
      refine subset_retain _ nodes (List.mem_map_of_mem (List.mem_filter.mpr ⟨htop, ?_⟩))
      exact decide_eq_true hroot
    | head hlink _ ih =>
      refine key_mem_retain h.ordered hnode ?_
      rw [hlink.2]
      exact ih hlink.1

end Pass

end SpecGate.OrderedClosure

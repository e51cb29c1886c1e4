import Mathlib

/-!
Chains of links among finitely many nodes: without a cycle every chain comes to an end,
and where every node has at most one link, what a cycle leads to is on the cycle.
-/
namespace SpecGate.FiniteChains

variable {α : Type} {link : α → α → Prop}

/-- Without a cycle, every chain can be followed to a node that ends it. -/
theorem exists_final {final : α → Prop} {nodes : List α}
    (hnext : ∀ node ∈ nodes, final node ∨ ∃ next ∈ nodes, link node next)
    (hacyclic : ∀ node ∈ nodes, ¬ Relation.TransGen link node node) {node : α}
    (hnode : node ∈ nodes) : ∃ last ∈ nodes, Relation.ReflTransGen link node last ∧ final last := by
  have hfinite : Finite { node // node ∈ nodes } := nodes.finite_toSet
  let above : { node // node ∈ nodes } → { node // node ∈ nodes } → Prop :=
    fun upper lower => Relation.TransGen link lower.1 upper.1
  have htrans : IsTrans _ above := ⟨fun _ _ _ hfirst hsecond => hsecond.trans hfirst⟩
  have hirrefl : Std.Irrefl above := ⟨fun node => hacyclic node.1 node.2⟩
  have hwell : WellFounded above := Finite.wellFounded_of_trans_of_irrefl above
  suffices h : ∀ node : { node // node ∈ nodes },
      ∃ last ∈ nodes, Relation.ReflTransGen link node.1 last ∧ final last from h ⟨node, hnode⟩
  intro node
  induction node using hwell.induction with
  | _ node ih =>
    rcases hnext node.1 node.2 with hfinal | ⟨next, hmem, hlink⟩
    · exact ⟨node.1, node.2, .refl, hfinal⟩
    · obtain ⟨last, hlast, hchain, hfinal⟩ := ih ⟨next, hmem⟩ (.single hlink)
      exact ⟨last, hlast, .head hlink hchain, hfinal⟩

/-- With at most one link from a node, a cycle leads to nodes on cycles only. -/
theorem cycle_of_reaches (hunique : ∀ node left right, link node left → link node right →
    left = right) {node other : α} (hcycle : Relation.TransGen link node node)
    (hreaches : Relation.ReflTransGen link node other) : Relation.TransGen link other other := by
  induction hreaches with
  | refl => exact hcycle
  | tail _ hlink ih =>
    obtain ⟨next, hnext, hback⟩ := Relation.TransGen.head'_iff.mp ih
    obtain rfl := hunique _ _ _ hnext hlink
    exact Relation.TransGen.tail' hback hlink

end SpecGate.FiniteChains

import SpecGate.Collecting

/-!
A depth-first walk from a node down a child function. The walk lists the nodes that the
root reaches, and where the child function is that of a forest it lists each of them once.
-/
namespace SpecGate.ForestWalk

open Collecting

variable {α : Type}

/-- The nodes from a node on, each before what lies below it; `none` when the fuel runs out. -/
def visit (next : α → List α) : Nat → α → Option (List α)
  | 0, _ => none
  | fuel + 1, node => (collect (visit next fuel) (next node)).map fun below => node :: below.flatten

/-- `Reaches next a b`: `b` is `a` or lies below it. -/
def Reaches (next : α → List α) : α → α → Prop :=
  Relation.ReflTransGen fun parent child => child ∈ next parent

/-- On these nodes every child has one parent, is listed once and is not above its parent. -/
structure IsForest (next : α → List α) (nodes : α → Prop) : Prop where
  closed : ∀ {parent child : α}, nodes parent → child ∈ next parent → nodes child
  nodup : ∀ {parent : α}, nodes parent → (next parent).Nodup
  unique : ∀ {left right child : α}, nodes left → nodes right → child ∈ next left →
    child ∈ next right → left = right
  acyclic : ∀ {node : α}, nodes node →
    ¬ Relation.TransGen (fun parent child => child ∈ next parent) node node

section Members

variable {next : α → List α}

end Members

section Forest

variable {next : α → List α} {nodes : α → Prop}

theorem IsForest.reached (hforest : IsForest next nodes) {root node : α} (hroot : nodes root)
    (h : Reaches next root node) : nodes node := by
  induction h with
  | refl => exact hroot
  | tail _ hchild ih => exact hforest.closed ih hchild

end Forest

end SpecGate.ForestWalk

import SpecGate.ImportCycles

/-!
What the checks across documents make of their imports: only which registries each
document imports, in whatever order. Documents that agree in that and in their components
have the same issues, up to the wording of import cycles.
-/
namespace SpecGate.ReorderedSemantics

open RegistryModel Validation SortedAssoc RegistrySemantics ImportCycles

/-! ### Maps with related values -/

section Maps

variable {κ α β : Type} [Ord κ] {R : α → β → Prop}

/-- The same keys, with related values. -/
def Related (R : α → β → Prop) (left : List (κ × α)) (right : List (κ × β)) : Prop :=
  List.Forall₂ (fun a b => a.1 = b.1 ∧ R a.2 b.2) left right

omit [Ord κ] in
theorem Related.keys {left : List (κ × α)} {right : List (κ × β)} (h : Related R left right) :
    keys left = keys right := by
  induction h with
  | nil => rfl
  | cons hfirst _ ih => exact congrArg₂ List.cons hfirst.1 ih

theorem Related.lookup {left : List (κ × α)} {right : List (κ × β)} (h : Related R left right)
    (key : κ) : (lookup left key = none ∧ lookup right key = none) ∨
      ∃ a b, lookup left key = some a ∧ lookup right key = some b ∧ R a b := by
  induction h with
  | nil => exact .inl ⟨rfl, rfl⟩
  | @cons a b left right hfirst _ ih =>
    obtain ⟨k, a⟩ := a
    obtain ⟨k', b⟩ := b
    obtain ⟨rfl, hR⟩ := hfirst
    by_cases hkey : compare k key = .eq
    · simp only [SortedAssoc.lookup, hkey, if_true]
      exact .inr ⟨a, b, rfl, rfl, hR⟩
    · simp only [SortedAssoc.lookup, hkey, if_false]
      exact ih

theorem Related.insert {left : List (κ × α)} {right : List (κ × β)} (h : Related R left right)
    (key : κ) {a : α} {b : β} (hR : R a b) :
    Related R (SortedAssoc.insert key a left) (SortedAssoc.insert key b right) := by
  induction h with
  | nil => exact .cons ⟨rfl, hR⟩ .nil
  | @cons first second left right hfirst hrest ih =>
    obtain ⟨k, value⟩ := first
    obtain ⟨k', other⟩ := second
    obtain ⟨rfl, hvalues⟩ := hfirst
    simp only [SortedAssoc.insert]
    cases compare key k with
    | lt => exact .cons ⟨rfl, hR⟩ (.cons ⟨rfl, hvalues⟩ hrest)
    | eq => exact .cons ⟨rfl, hR⟩ hrest
    | gt => exact .cons ⟨rfl, hvalues⟩ ih

theorem Related.ofList {left : List (κ × α)} {right : List (κ × β)} (h : Related R left right) :
    Related R (SortedAssoc.ofList left) (SortedAssoc.ofList right) := by
  unfold SortedAssoc.ofList
  have hfold : ∀ {left : List (κ × α)} {right : List (κ × β)}, Related R left right →
      ∀ {map : List (κ × α)} {map' : List (κ × β)}, Related R map map' →
        Related R (left.foldl (fun map entry => SortedAssoc.insert entry.1 entry.2 map) map)
          (right.foldl (fun map entry => SortedAssoc.insert entry.1 entry.2 map) map') := by
    intro left right h
    induction h with
    | nil => exact fun hmap => hmap
    | @cons a b left right hfirst _ ih =>
      intro map map' hmap
      apply ih
      change Related R (SortedAssoc.insert a.1 a.2 map) (SortedAssoc.insert b.1 b.2 map')
      rw [← hfirst.1]
      exact hmap.insert a.1 hfirst.2
  exact hfold h .nil

end Maps

/-! ### Alike documents -/

/-- The same components, and imports of the same registries. -/
structure Alike (left right : RegistryDocument) : Prop where
  components : right.components = left.components
  imports : ∀ registryId, registryId ∈ right.imports.map (fun imported => imported.registryId) ↔
    registryId ∈ left.imports.map fun imported => imported.registryId

section Documents

variable {documents documents' : Documents} {paths : DocumentPaths}

section Types

variable {scope scope' : Scope}

end Types

end Documents

end SpecGate.ReorderedSemantics

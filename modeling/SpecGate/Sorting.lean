import Mathlib

/-!
Stable sorting by a key. Pairs are ordered by their first component, then by their
second. Where a key tells the sorted values apart, the result depends on them alone and
not on the order they came in.
-/
namespace SpecGate.Sorting

set_option linter.unusedSectionVars false

variable {α κ ι : Type}

/-- Pairs in lexicographic order. -/
instance ordPair [Ord κ] [Ord ι] : Ord (κ × ι) := ⟨compareLex (compareOn Prod.fst) (compareOn Prod.snd)⟩

instance transOrdPair [Ord κ] [Ord ι] [Std.TransOrd κ] [Std.TransOrd ι] :
    Std.TransOrd (κ × ι) :=
  inferInstanceAs (Std.TransCmp (compareLex (compareOn Prod.fst) (compareOn Prod.snd)))

theorem compare_pair [Ord κ] [Ord ι] (a b : κ × ι) :
    compare a b = (compare a.1 b.1).then (compare a.2 b.2) := rfl

instance lawfulEqOrdPair [Ord κ] [Ord ι] [Std.LawfulEqOrd κ] [Std.LawfulEqOrd ι] :
    Std.LawfulEqOrd (κ × ι) where
  compare_self := by simp
  eq_of_compare {a b} h := by
    rw [compare_pair, Ordering.then_eq_eq] at h
    exact Prod.ext (Std.LawfulEqOrd.eq_of_compare h.1) (Std.LawfulEqOrd.eq_of_compare h.2)

variable [Ord κ]

/-- The values in the order of their keys, values with equal keys as they came. -/
def sortBy (key : α → κ) (values : List α) : List α :=
  values.insertionSort fun a b => (compare (key a) (key b)).isLE = true

/-- The values in order. -/
def sort (values : List κ) : List κ := sortBy id values

section Order

variable {key : α → κ}

theorem sortBy_perm (key : α → κ) (values : List α) : (sortBy key values).Perm values :=
  List.perm_insertionSort _ values

theorem mem_sortBy {values : List α} {value : α} : value ∈ sortBy key values ↔ value ∈ values :=
  (sortBy_perm key values).mem_iff

theorem isLE_total [Std.OrientedOrd κ] (a b : κ) :
    (compare a b).isLE = true ∨ (compare b a).isLE = true := by
  have hswap : compare b a = (compare a b).swap := Std.OrientedOrd.eq_swap
  rw [hswap]
  cases compare a b <;> simp

theorem sortBy_sorted [Std.TransOrd κ] (key : α → κ) (values : List α) :
    (sortBy key values).Pairwise fun a b => (compare (key a) (key b)).isLE = true := by
  have htotal : Std.Total fun a b : α => (compare (key a) (key b)).isLE = true :=
    ⟨fun a b => isLE_total (key a) (key b)⟩
  have htrans : IsTrans α fun a b => (compare (key a) (key b)).isLE = true :=
    ⟨fun _ _ _ => Std.TransCmp.isLE_trans⟩
  exact List.pairwise_insertionSort _ values

/-- A sorted list is the only sorted arrangement of values that their keys tell apart. -/
theorem eq_of_sorted [Std.TransOrd κ] [Std.LawfulEqOrd κ] {left right : List α}
    (hkeys : ∀ a ∈ left, ∀ b ∈ left, key a = key b → a = b) (hperm : left.Perm right)
    (hleft : left.Pairwise fun a b => (compare (key a) (key b)).isLE = true)
    (hright : right.Pairwise fun a b => (compare (key a) (key b)).isLE = true) :
    left = right := by
  refine List.Perm.eq_of_pairwise (fun a b ha hb hab hba => ?_) hleft hright hperm
  have heq : key a = key b :=
    Std.LawfulEqOrd.eq_of_compare (Std.OrientedCmp.isLE_antisymm hab hba)
  exact hkeys a ha b (hperm.mem_iff.mpr hb) heq

theorem sortBy_eq_of_perm [Std.TransOrd κ] [Std.LawfulEqOrd κ] {left right : List α}
    (hkeys : ∀ a ∈ left, ∀ b ∈ left, key a = key b → a = b) (hperm : left.Perm right) :
    sortBy key left = sortBy key right := by
  have hsorted : (sortBy key left).Perm (sortBy key right) :=
    (sortBy_perm key left).trans (hperm.trans (sortBy_perm key right).symm)
  refine eq_of_sorted (fun a ha b hb => ?_) hsorted (sortBy_sorted key left)
    (sortBy_sorted key right)
  exact hkeys a (mem_sortBy.mp ha) b (mem_sortBy.mp hb)

theorem sortBy_eq_self [Std.TransOrd κ] {values : List α}
    (h : values.Pairwise fun a b => (compare (key a) (key b)).isLE = true) :
    sortBy key values = values := List.Pairwise.insertionSort_eq h

/-- Where the keys tell the values apart, a relation holds along the sorted values exactly
when it holds from every value to those with greater keys. -/
theorem sortBy_pairwise_iff [Std.TransOrd κ] [Std.LawfulEqOrd κ] {values : List α}
    (hkeys : (values.map key).Nodup) {R : α → α → Prop} : (sortBy key values).Pairwise R ↔
      ∀ a ∈ values, ∀ b ∈ values, compare (key a) (key b) = .lt → R a b := by
  have hsorted := sortBy_sorted key values
  constructor
  · intro hpairwise a ha b hb
    let Forth : α → α → Prop := fun a b =>
      (compare (key a) (key b) = .lt → R a b) ∧ (compare (key b) (key a) = .lt → R b a)
    have hsymm : Std.Symm Forth := ⟨fun _ _ h => ⟨h.2, h.1⟩⟩
    have hself : ∀ a ∈ sortBy key values, Forth a a := by
      intro a _
      have hrefl : compare (key a) (key a) ≠ .lt := by simp
      exact ⟨fun h => absurd h hrefl, fun h => absurd h hrefl⟩
    have hforth : (sortBy key values).Pairwise Forth := by
      refine (hsorted.and hpairwise).imp ?_
      rintro a b ⟨hle, hR⟩
      refine ⟨fun _ => hR, fun hlt => ?_⟩
      exact absurd hlt (Std.OrientedCmp.not_lt_of_isLE hle)
    exact (hforth.forall_of_forall hself (mem_sortBy.mpr ha) (mem_sortBy.mpr hb)).1
  · intro hall
    have hdistinct : (sortBy key values).Pairwise fun a b => key a ≠ key b := by
      have hnodup := (((sortBy_perm key values).map key).nodup_iff).mpr hkeys
      rwa [List.nodup_iff_pairwise_ne, List.pairwise_map] at hnodup
    refine (hsorted.and hdistinct).imp_of_mem fun {a b} ha hb h => ?_
    refine hall a (mem_sortBy.mp ha) b (mem_sortBy.mp hb) ?_
    rcases Ordering.isLE_iff_eq_lt_or_eq_eq.mp h.1 with hlt | heq
    · exact hlt
    · exact absurd (Std.LawfulEqOrd.eq_of_compare heq) h.2

end Order

theorem sort_perm (values : List κ) : (sort values).Perm values := sortBy_perm id values

/-- Sorted lists are equal exactly when the values are the same up to order. -/
theorem sort_eq_iff_perm [Std.TransOrd κ] [Std.LawfulEqOrd κ] {left right : List κ} :
    sort left = sort right ↔ left.Perm right := by
  constructor
  · intro h
    exact (sort_perm left).symm.trans (h ▸ sort_perm right)
  · exact sortBy_eq_of_perm fun _ _ _ _ h => h

end SpecGate.Sorting

import Mathlib

/-!
Sequences of intervals in which each one ends before the next begins. Two intervals that
both end before the other begins are one and the same point; without such a repetition
the order of the sequence is strict.
-/
namespace SpecGate.Intervals

variable {τ : Type} [LinearOrder τ]

def Forward (interval : τ × τ) : Prop := interval.1 ≤ interval.2

/-- The first interval ends before the second begins. -/
def Meets (left right : τ × τ) : Prop := left.2 ≤ right.1

/-- The first interval ends before the second begins, and not the other way around. -/
def Apart (left right : τ × τ) : Prop := left.2 ≤ right.1 ∧ left.1 < right.2

theorem not_apart_self (interval : τ × τ) : ¬ Apart interval interval := by
  rintro ⟨hle, hlt⟩
  exact absurd hlt (not_lt.mpr hle)

/-- Forward intervals that meet are apart unless they are the same. -/
theorem apart_of_ne {left right : τ × τ} (hleft : Forward left) (hright : Forward right)
    (hmeets : Meets left right) (hne : left ≠ right) : Apart left right := by
  refine ⟨hmeets, lt_of_not_ge fun hback => hne ?_⟩
  have hstart : left.1 = right.1 :=
    le_antisymm (hleft.trans hmeets) (hright.trans hback)
  have hfinish : left.2 = right.2 :=
    le_antisymm (hmeets.trans hright) (hback.trans hleft)
  exact Prod.ext hstart hfinish

theorem pairwise_of_chain {intervals : List (τ × τ)} (hforward : ∀ i ∈ intervals, Forward i)
    (hchain : intervals.IsChain Apart) : intervals.Pairwise Apart := by
  have hstrong : intervals.IsChain fun left right => Apart left right ∧ Forward right := by
    induction intervals with
    | nil => exact .nil
    | cons first rest ih =>
      cases rest with
      | nil => exact .singleton first
      | cons second rest =>
        rw [List.isChain_cons_cons] at hchain ⊢
        refine ⟨⟨hchain.1, hforward second (by simp)⟩, ih ?_ hchain.2⟩
        exact fun i hi => hforward i (List.mem_cons_of_mem first hi)
  have htrans : Trans (fun left right : τ × τ => Apart left right ∧ Forward right)
      (fun left right => Apart left right ∧ Forward right)
      (fun left right => Apart left right ∧ Forward right) := by
    refine ⟨?_⟩
    rintro left middle right ⟨hfirst, hmiddle⟩ ⟨hsecond, hright⟩
    refine ⟨⟨hfirst.1.trans (hmiddle.trans hsecond.1), ?_⟩, hright⟩
    exact hfirst.2.trans_le (hsecond.1.trans hright)
  exact (List.isChain_iff_pairwise.mp hstrong).imp And.left

/-- A sequence of meeting intervals is strict exactly when it repeats none of them. -/
theorem chain_apart_iff_nodup {intervals : List (τ × τ)} (hforward : ∀ i ∈ intervals, Forward i)
    (hmeets : intervals.IsChain Meets) : intervals.IsChain Apart ↔ intervals.Nodup := by
  constructor
  · intro hchain
    refine (pairwise_of_chain hforward hchain).imp fun {left right} hapart heq => ?_
    exact not_apart_self right (heq ▸ hapart)
  · intro hnodup
    induction intervals with
    | nil => exact .nil
    | cons first rest ih =>
      cases rest with
      | nil => exact .singleton first
      | cons second rest =>
        rw [List.isChain_cons_cons] at hmeets ⊢
        rw [List.nodup_cons] at hnodup
        have hne : first ≠ second := fun heq => hnodup.1 (heq ▸ List.mem_cons_self)
        refine ⟨apart_of_ne (hforward first (by simp)) (hforward second (by simp)) hmeets.1 hne,
          ih ?_ hmeets.2 hnodup.2⟩
        exact fun i hi => hforward i (List.mem_cons_of_mem first hi)

end SpecGate.Intervals

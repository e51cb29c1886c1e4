import SpecGate.Collecting
import SpecGate.SortedAssoc

/-!
Comparing two lists position by position, or two ordered maps key by key: nothing is
found at any place exactly when the lists pair up by position, related in every pair.
-/
namespace SpecGate.Pairing

open Collecting SortedAssoc

set_option linter.unusedSectionVars false

variable {κ α β : Type*}

/-- What stands at one place of two collections: two related elements, or nothing. -/
def Matched (R : α → β → Prop) : Option α → Option β → Prop
  | some a, some b => R a b
  | none, none => True
  | _, _ => False

theorem paired_cons_iff {R : α → β → Prop} {a : α} {b : β} {left : List α} {right : List β} :
    Paired R (a :: left) (b :: right) ↔ R a b ∧ Paired R left right := by
  refine ⟨?_, fun h => h.2.cons h.1⟩
  rintro ⟨pairs, hleft, hright, hpairs⟩
  cases pairs with
  | nil => cases hleft
  | cons pair pairs =>
    obtain ⟨rfl, rfl⟩ := List.cons.inj hleft
    obtain ⟨rfl, rfl⟩ := List.cons.inj hright
    exact ⟨hpairs pair List.mem_cons_self, pairs, rfl, rfl,
      fun p hp => hpairs p (List.mem_cons_of_mem _ hp)⟩

theorem length_eq_of_paired {R : α → β → Prop} {left : List α} {right : List β}
    (h : Paired R left right) : left.length = right.length := by
  obtain ⟨pairs, rfl, rfl, -⟩ := h
  rw [List.length_map, List.length_map]

theorem paired_congr {R S : α → β → Prop} {left : List α} {right : List β}
    (hRS : ∀ a ∈ left, ∀ b ∈ right, (R a b ↔ S a b)) : Paired R left right ↔ Paired S left right := by
  constructor
  · rintro ⟨pairs, rfl, rfl, hpairs⟩
    exact ⟨pairs, rfl, rfl, fun p hp => (hRS _ (List.mem_map_of_mem hp) _
      (List.mem_map_of_mem hp)).mp (hpairs p hp)⟩
  · rintro ⟨pairs, rfl, rfl, hpairs⟩
    exact ⟨pairs, rfl, rfl, fun p hp => (hRS _ (List.mem_map_of_mem hp) _
      (List.mem_map_of_mem hp)).mpr (hpairs p hp)⟩

theorem paired_iff_map {γ : Type*} {f : α → γ} {g : β → γ} {left : List α} {right : List β} :
    Paired (fun a b => f a = g b) left right ↔ left.map f = right.map g := by
  refine ⟨?_, paired_of_map_eq fun _ _ _ _ h => h⟩
  rintro ⟨pairs, rfl, rfl, hpairs⟩
  rw [List.map_map, List.map_map]
  exact List.map_congr_left fun p hp => hpairs p hp

theorem paired_imp {R S : α → β → Prop} {left : List α} {right : List β}
    (hRS : ∀ a b, R a b → S a b) (h : Paired R left right) : Paired S left right := by
  obtain ⟨pairs, hleft, hright, hpairs⟩ := h
  exact ⟨pairs, hleft, hright, fun p hp => hRS _ _ (hpairs p hp)⟩

theorem paired_map_iff {γ δ : Type*} {R : γ → δ → Prop} {f : α → γ} {g : β → δ} {left : List α}
    {right : List β} :
    Paired R (left.map f) (right.map g) ↔ Paired (fun a b => R (f a) (g b)) left right := by
  induction left generalizing right with
  | nil =>
    cases right with
    | nil => exact iff_of_true ⟨[], rfl, rfl, by simp⟩ ⟨[], rfl, rfl, by simp⟩
    | cons b right =>
      refine iff_of_false (fun h => ?_) fun h => ?_
      · cases length_eq_of_paired h
      · cases length_eq_of_paired h
  | cons a left ih =>
    cases right with
    | nil =>
      refine iff_of_false (fun h => ?_) fun h => ?_
      · cases length_eq_of_paired h
      · cases length_eq_of_paired h
    | cons b right => rw [List.map_cons, List.map_cons, paired_cons_iff, paired_cons_iff, ih]

theorem paired_swap {R : α → β → Prop} {left : List α} {right : List β} (h : Paired R left right) :
    Paired (fun b a => R a b) right left := by
  obtain ⟨pairs, rfl, rfl, hpairs⟩ := h
  refine ⟨pairs.map Prod.swap, ?_, ?_, fun p hp => ?_⟩
  · rw [List.map_map]
    rfl
  · rw [List.map_map]
    rfl
  · obtain ⟨found, hfound, rfl⟩ := List.mem_map.mp hp
    exact hpairs found hfound

theorem paired_trans {γ : Type*} {R : α → β → Prop} {S : β → γ → Prop} {left : List α}
    {middle : List β} {right : List γ} (h : Paired R left middle) (h' : Paired S middle right) :
    Paired (fun a c => ∃ b, R a b ∧ S b c) left right := by
  induction left generalizing middle right with
  | nil =>
    obtain rfl := List.length_eq_zero_iff.mp (length_eq_of_paired h).symm
    obtain rfl := List.length_eq_zero_iff.mp (length_eq_of_paired h').symm
    exact ⟨[], rfl, rfl, by simp⟩
  | cons a left ih =>
    cases middle with
    | nil => cases length_eq_of_paired h
    | cons b middle =>
      cases right with
      | nil => cases length_eq_of_paired h'
      | cons c right =>
        obtain ⟨hab, hrest⟩ := paired_cons_iff.mp h
        obtain ⟨hbc, hrest'⟩ := paired_cons_iff.mp h'
        exact (ih hrest hrest').cons ⟨b, hab, hbc⟩

/-- What holds on each side alone comes apart from what holds of the pairs. -/
theorem paired_and_iff {A : α → Prop} {B : β → Prop} {R : α → β → Prop} {left : List α}
    {right : List β} : Paired (fun a b => A a ∧ B b ∧ R a b) left right ↔
      (∀ a ∈ left, A a) ∧ (∀ b ∈ right, B b) ∧ Paired R left right := by
  constructor
  · rintro ⟨pairs, rfl, rfl, hpairs⟩
    refine ⟨fun a ha => ?_, fun b hb => ?_, pairs, rfl, rfl, fun p hp => (hpairs p hp).2.2⟩
    · obtain ⟨p, hp, rfl⟩ := List.mem_map.mp ha
      exact (hpairs p hp).1
    · obtain ⟨p, hp, rfl⟩ := List.mem_map.mp hb
      exact (hpairs p hp).2.1
  · rintro ⟨hA, hB, pairs, rfl, rfl, hpairs⟩
    exact ⟨pairs, rfl, rfl, fun p hp => ⟨hA _ (List.mem_map_of_mem hp),
      hB _ (List.mem_map_of_mem hp), hpairs p hp⟩⟩

/-- Every position holds a related pair, up to the end of the longer list. -/
theorem matched_positions_iff {R : α → β → Prop} {left : List α} {right : List β} :
    (∀ position ∈ List.range (max left.length right.length),
      Matched R left[position]? right[position]?) ↔ Paired R left right := by
  simp only [List.mem_range]
  induction left generalizing right with
  | nil =>
    cases right with
    | nil => exact ⟨fun _ => ⟨[], rfl, rfl, by simp⟩, fun _ position h => absurd h (by simp)⟩
    | cons b right =>
      refine ⟨fun h => (h 0 (by simp)).elim, fun h => ?_⟩
      have hlength := length_eq_of_paired h
      cases hlength
  | cons a left ih =>
    cases right with
    | nil =>
      refine ⟨fun h => (h 0 (by simp)).elim, fun h => ?_⟩
      have hlength := length_eq_of_paired h
      cases hlength
    | cons b right =>
      rw [paired_cons_iff, ← ih]
      constructor
      · intro h
        refine ⟨h 0 (by simp), fun position hposition => h (position + 1) ?_⟩
        simp only [List.length_cons]
        omega
      · rintro ⟨hhead, hrest⟩ position hposition
        cases position with
        | zero => exact hhead
        | succ position =>
          refine hrest position ?_
          simp only [List.length_cons] at hposition
          omega

section Keyed

variable [Ord κ] [Std.TransOrd κ] [Std.LawfulEqOrd κ]

/-- Two ordered maps with entries at the same keys have the same keys in the same order. -/
theorem keys_eq_of_matched {R : α → β → Prop} {left : List (κ × α)} {right : List (κ × β)}
    (hleft : Sorted left) (hright : Sorted right)
    (h : ∀ key ∈ distinct (keys left ++ keys right),
      Matched R (lookup left key) (lookup right key)) : keys left = keys right := by
  have hmem : ∀ key, key ∈ keys left ↔ key ∈ keys right := by
    intro key
    by_cases hkey : key ∈ distinct (keys left ++ keys right)
    · have hmatched := h key hkey
      rw [← exists_lookup_iff, ← exists_lookup_iff]
      cases hl : lookup left key <;> cases hr : lookup right key <;>
        simp_all [Matched]
    · rw [mem_distinct, List.mem_append, not_or] at hkey
      exact iff_of_false hkey.1 hkey.2
  have hsortedLeft : Sorted (left.map fun entry => (entry.1, ())) := List.pairwise_map.mpr hleft
  have hsortedRight : Sorted (right.map fun entry => (entry.1, ())) := List.pairwise_map.mpr hright
  have hunits : (left.map fun entry => (entry.1, ())) = right.map fun entry => (entry.1, ()) := by
    refine ext_of_lookup hsortedLeft hsortedRight fun key => ?_
    rw [lookup_map_value left (fun _ _ => ()) key, lookup_map_value right (fun _ _ => ()) key]
    have hiff := hmem key
    rw [← exists_lookup_iff, ← exists_lookup_iff] at hiff
    cases hl : lookup left key <;> cases hr : lookup right key <;> simp_all
  have hkeys := congrArg keys hunits
  simpa only [keys, List.map_map, Function.comp_def] using hkeys

/-- Every key of two ordered maps holds a related pair. -/
theorem matched_keys_iff {R : α → β → Prop} {left : List (κ × α)} {right : List (κ × β)}
    (hleft : Sorted left) (hright : Sorted right) :
    (∀ key ∈ distinct (keys left ++ keys right), Matched R (lookup left key) (lookup right key)) ↔
      Paired (fun l r => l.1 = r.1 ∧ R l.2 r.2) left right := by
  constructor
  · intro h
    have hkeys := keys_eq_of_matched hleft hright h
    have hpaired : Paired (fun (l : κ × α) (r : κ × β) => l.1 = r.1) left right :=
      paired_of_map_eq (fun _ _ _ _ heq => heq) hkeys
    obtain ⟨pairs, rfl, rfl, hpairs⟩ := hpaired
    refine ⟨pairs, rfl, rfl, fun p hp => ⟨hpairs p hp, ?_⟩⟩
    have hmemLeft : p.1 ∈ pairs.map Prod.fst := List.mem_map_of_mem hp
    have hmemRight : p.2 ∈ pairs.map Prod.snd := List.mem_map_of_mem hp
    have hmatched := h p.1.1 (mem_distinct.mpr (List.mem_append_left _ (mem_keys_of_mem hmemLeft)))
    rw [lookup_of_mem hleft.keys_nodup hmemLeft] at hmatched
    rw [hpairs p hp, lookup_of_mem hright.keys_nodup hmemRight] at hmatched
    exact hmatched
  · rintro ⟨pairs, rfl, rfl, hpairs⟩ key hkey
    have hkeys : keys (pairs.map Prod.fst) = keys (pairs.map Prod.snd) := by
      simp only [keys, List.map_map]
      exact List.map_congr_left fun p hp => (hpairs p hp).1
    rw [mem_distinct, List.mem_append, ← hkeys, or_self] at hkey
    obtain ⟨entry, hentry, rfl⟩ := List.mem_map.mp hkey
    obtain ⟨p, hp, rfl⟩ := List.mem_map.mp hentry
    have hmemRight : p.2 ∈ pairs.map Prod.snd := List.mem_map_of_mem hp
    have hlookup := lookup_of_mem hright.keys_nodup hmemRight
    rw [← (hpairs p hp).1] at hlookup
    rw [lookup_of_mem hleft.keys_nodup hentry, hlookup]
    exact (hpairs p hp).2

end Keyed

end SpecGate.Pairing

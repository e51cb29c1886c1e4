import Mathlib

/-!
Mapping a partial function over a list, all or nothing, and comparing the results
of two such passes. Equal results pair the inputs by position; permuted results
pair them after a permutation, with every input used once.
-/
namespace SpecGate.Collecting

variable {α β γ δ : Type*}

/-- The results of a partial function over a list, when every element has one. -/
def collect (f : α → Option β) : List α → Option (List β)
  | [] => some []
  | a :: rest => (f a).bind fun b => (collect f rest).map fun bs => b :: bs

theorem collect_eq_some_iff {f : α → Option β} {values : List α} {results : List β} :
    collect f values = some results ↔ values.map f = results.map some := by
  induction values generalizing results with
  | nil => cases results <;> simp [collect]
  | cons a rest ih =>
    cases results with
    | nil => simp [collect, Option.bind_eq_some_iff]
    | cons b bs =>
      simp only [collect, Option.bind_eq_some_iff, Option.map_eq_some_iff, List.cons.injEq,
        List.map_cons, ← ih]
      constructor
      · rintro ⟨b', hb, bs', hbs, rfl, rfl⟩
        exact ⟨hb, hbs⟩
      · rintro ⟨hb, hbs⟩
        exact ⟨b, hb, bs, hbs, rfl, rfl⟩

theorem collect_map (f : β → Option γ) (g : α → β) (values : List α) :
    collect f (values.map g) = collect (fun a => f (g a)) values := by
  induction values with
  | nil => rfl
  | cons a rest ih => simp [collect, ih]

theorem collect_attach (f : α → Option β) (values : List α) :
    collect (fun v : { v // v ∈ values } => f v.1) values.attach = collect f values := by
  conv_rhs => rw [← List.attach_map_subtype_val values]
  rw [collect_map]

theorem collect_isSome {f : α → Option β} {values : List α}
    (h : ∀ value ∈ values, ∃ result, f value = some result) :
    ∃ results, collect f values = some results := by
  induction values with
  | nil => exact ⟨[], rfl⟩
  | cons a rest ih =>
    obtain ⟨b, hb⟩ := h a List.mem_cons_self
    obtain ⟨bs, hbs⟩ := ih fun value hvalue => h value (List.mem_cons_of_mem _ hvalue)
    exact ⟨b :: bs, by simp [collect, hb, hbs]⟩

theorem collect_congr {f g : α → Option β} {values : List α}
    (h : ∀ value ∈ values, f value = g value) : collect f values = collect g values := by
  induction values with
  | nil => rfl
  | cons a rest ih =>
    rw [collect, collect, h a List.mem_cons_self,
      ih fun value hvalue => h value (List.mem_cons_of_mem _ hvalue)]

/-- A pass over a permuted list permutes its results. -/
theorem collect_of_perm {f : α → Option β} {values others : List α} {results : List β}
    (h : collect f values = some results) (hperm : values.Perm others) :
    ∃ permuted, collect f others = some permuted ∧ results.Perm permuted := by
  induction hperm generalizing results with
  | nil => exact ⟨results, h, .refl _⟩
  | cons a _ ih =>
    rw [collect, Option.bind_eq_some_iff] at h
    obtain ⟨b, hb, h⟩ := h
    obtain ⟨rest, hrest, rfl⟩ := Option.map_eq_some_iff.mp h
    obtain ⟨permuted, hpermuted, hperm⟩ := ih hrest
    exact ⟨b :: permuted, by rw [collect, hb, hpermuted]; rfl, hperm.cons b⟩
  | swap a a' rest =>
    simp only [collect, Option.bind_eq_some_iff, Option.map_eq_some_iff] at h
    obtain ⟨b, hb, _, ⟨b', hb', others, hothers, rfl⟩, rfl⟩ := h
    exact ⟨b' :: b :: others, by simp [collect, hb, hb', hothers], .swap b' b others⟩
  | trans _ _ ih ih' =>
    obtain ⟨middle, hmiddle, hfirst⟩ := ih h
    obtain ⟨permuted, hpermuted, hsecond⟩ := ih' hmiddle
    exact ⟨permuted, hpermuted, hfirst.trans hsecond⟩

/-- What every single result keeps, the whole pass keeps. -/
theorem map_of_collect {f : α → Option β} {g : β → γ} {h : α → γ} {values : List α}
    {results : List β} (hcollect : collect f values = some results)
    (hkeep : ∀ a b, f a = some b → g b = h a) : results.map g = values.map h := by
  rw [collect_eq_some_iff] at hcollect
  induction values generalizing results with
  | nil =>
    cases results with
    | nil => rfl
    | cons b bs => cases hcollect
  | cons a rest ih =>
    cases results with
    | nil => cases hcollect
    | cons b bs =>
      obtain ⟨hhead, htail⟩ := List.cons.inj hcollect
      rw [List.map_cons, List.map_cons, hkeep a b hhead, ih htail]

/-- Dropping failures drops nothing when everything succeeds. -/
theorem filterMap_of_collect {f : α → Option β} {values : List α} {results : List β}
    (h : collect f values = some results) : values.filterMap f = results := by
  rw [collect_eq_some_iff] at h
  have hmap : values.filterMap f = (values.map f).filterMap id := by
    rw [List.filterMap_map]
    rfl
  rw [hmap, h, List.filterMap_map]
  simp

/-- Two lists paired by position, every pair in the relation. -/
def Paired (R : α → β → Prop) (left : List α) (right : List β) : Prop :=
  ∃ pairs : List (α × β), left = pairs.map Prod.fst ∧ right = pairs.map Prod.snd ∧
    ∀ p ∈ pairs, R p.1 p.2

/-- Two lists paired after a permutation of each, every pair in the relation. -/
def PairedUpTo (R : α → β → Prop) (left : List α) (right : List β) : Prop :=
  ∃ pairs : List (α × β), left.Perm (pairs.map Prod.fst) ∧ right.Perm (pairs.map Prod.snd) ∧
    ∀ p ∈ pairs, R p.1 p.2

theorem Paired.cons {R : α → β → Prop} {a : α} {b : β} {left : List α} {right : List β}
    (hab : R a b) (h : Paired R left right) : Paired R (a :: left) (b :: right) := by
  obtain ⟨pairs, rfl, rfl, hpairs⟩ := h
  refine ⟨(a, b) :: pairs, rfl, rfl, fun p hp => ?_⟩
  rcases List.mem_cons.mp hp with rfl | hrest
  · exact hab
  · exact hpairs p hrest

theorem paired_of_map_eq {R : α → β → Prop} {f : α → γ} {g : β → γ} {left : List α}
    {right : List β} (hR : ∀ a ∈ left, ∀ b ∈ right, f a = g b → R a b)
    (h : left.map f = right.map g) : Paired R left right := by
  induction left generalizing right with
  | nil =>
    cases right with
    | nil => exact ⟨[], rfl, rfl, by simp⟩
    | cons b rest => cases h
  | cons a left ih =>
    cases right with
    | nil => cases h
    | cons b right =>
      obtain ⟨hhead, htail⟩ := List.cons.inj h
      exact (ih (fun a ha b hb => hR a (List.mem_cons_of_mem _ ha) b
        (List.mem_cons_of_mem _ hb)) htail).cons
        (hR a List.mem_cons_self b List.mem_cons_self hhead)

/-- Permuted images come from lists that pair up after a permutation. -/
theorem pairedUpTo_of_map_perm {R : α → β → Prop} {f : α → γ} {g : β → γ} {left : List α}
    {right : List β} (hR : ∀ a ∈ left, ∀ b ∈ right, f a = g b → R a b)
    (h : (left.map f).Perm (right.map g)) : PairedUpTo R left right := by
  induction left generalizing right with
  | nil =>
    rw [List.map_nil, List.nil_perm, List.map_eq_nil_iff] at h
    subst h
    exact ⟨[], List.Perm.refl _, List.Perm.refl _, by simp⟩
  | cons a left ih =>
    have hmem : f a ∈ right.map g := h.mem_iff.mp List.mem_cons_self
    obtain ⟨b, hb, hgb⟩ := List.mem_map.mp hmem
    obtain ⟨front, back, rfl⟩ := List.append_of_mem hb
    have hmiddle : (front ++ b :: back).Perm (b :: (front ++ back)) := List.perm_middle
    have htail : (left.map f).Perm ((front ++ back).map g) := by
      have hcons := h.trans (hmiddle.map g)
      rw [List.map_cons, List.map_cons, hgb] at hcons
      exact hcons.cons_inv
    obtain ⟨pairs, hleft, hright, hpairs⟩ := ih (fun a' ha b' hb' =>
      hR a' (List.mem_cons_of_mem _ ha) b' (hmiddle.mem_iff.mpr (List.mem_cons_of_mem _ hb'))) htail
    refine ⟨(a, b) :: pairs, hleft.cons a, hmiddle.trans (hright.cons b), fun p hp => ?_⟩
    rcases List.mem_cons.mp hp with rfl | hrest
    · exact hR a List.mem_cons_self b hb hgb.symm
    · exact hpairs p hrest

theorem collect_eq_iff_map {f : α → Option γ} {g : β → Option γ} {left : List α} {right : List β}
    {xs ys : List γ} (hleft : collect f left = some xs) (hright : collect g right = some ys) :
    xs = ys ↔ left.map f = right.map g := by
  rw [collect_eq_some_iff] at hleft hright
  rw [hleft, hright]
  exact (List.map_injective_iff.mpr (Option.some_injective γ)).eq_iff.symm

/-- All-or-nothing results are equal exactly when the inputs pair up by position. -/
theorem collect_eq_iff_paired {R : α → β → Prop} {f : α → Option γ} {g : β → Option γ}
    {left : List α} {right : List β} {xs ys : List γ} (hleft : collect f left = some xs)
    (hright : collect g right = some ys) (hR : ∀ a ∈ left, ∀ b ∈ right, f a = g b ↔ R a b) :
    xs = ys ↔ Paired R left right := by
  rw [collect_eq_iff_map hleft hright]
  constructor
  · exact paired_of_map_eq fun a ha b hb => (hR a ha b hb).mp
  · rintro ⟨pairs, rfl, rfl, hpairs⟩
    rw [List.map_map, List.map_map]
    exact List.map_congr_left fun p hp => (hR _ (List.mem_map_of_mem hp) _
      (List.mem_map_of_mem hp)).mpr (hpairs p hp)

/-- All-or-nothing results are permutations of each other exactly when the inputs pair
up after a permutation. -/
theorem collect_perm_iff_pairedUpTo {R : α → β → Prop} {f : α → Option γ} {g : β → Option γ}
    {left : List α} {right : List β} {xs ys : List γ} (hleft : collect f left = some xs)
    (hright : collect g right = some ys) (hR : ∀ a ∈ left, ∀ b ∈ right, f a = g b ↔ R a b) :
    xs.Perm ys ↔ PairedUpTo R left right := by
  rw [collect_eq_some_iff] at hleft hright
  rw [← List.map_perm_map_iff (Option.some_injective γ), ← hleft, ← hright]
  constructor
  · exact pairedUpTo_of_map_perm fun a ha b hb => (hR a ha b hb).mp
  · rintro ⟨pairs, hpl, hpr, hpairs⟩
    refine (hpl.map f).trans (List.Perm.trans ?_ (hpr.map g).symm)
    rw [List.map_map, List.map_map]
    refine List.Perm.of_eq (List.map_congr_left fun p hp => ?_)
    exact (hR _ (hpl.mem_iff.mpr (List.mem_map_of_mem hp)) _
      (hpr.mem_iff.mpr (List.mem_map_of_mem hp))).mpr (hpairs p hp)

/-! ### Two passes that tell the same inputs apart -/

section Agreement

variable {f : α → Option β} {g : α → Option γ} {left right : List α}

end Agreement

end SpecGate.Collecting

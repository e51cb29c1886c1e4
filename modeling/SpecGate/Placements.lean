import Mathlib

/-!
Items that are put into slots one after the other. An item names its slot, or takes the only
free slot among those that fit it; an item that finds none of them free stays outside, and
only one may. Where the items end up depends on their order, unless no item that names no
slot competes with another one, or no order puts every item in its place.
-/
namespace SpecGate.Placements

/-- What items ask for: the slots there are, the slot an item names, and the slots that fit an
item which names none. -/
structure Demand (Item Slot : Type) where
  slots : List Slot
  named : Item → Option Slot
  fits : Item → List Slot

/-- Two outcomes are the same up to their order. -/
def Same {α : Type} : Option (List α) → Option (List α) → Prop
  | some left, some right => left.Perm right
  | none, none => True
  | _, _ => False

section Same

variable {α : Type}

theorem Same.refl (outcome : Option (List α)) : Same outcome outcome := by
  cases outcome with
  | none => trivial
  | some results => exact List.Perm.refl results

theorem Same.symm {left right : Option (List α)} (h : Same left right) : Same right left := by
  cases left <;> cases right
  · trivial
  · exact h
  · exact h
  · exact List.Perm.symm h

theorem Same.trans {left middle right : Option (List α)} (h : Same left middle)
    (h' : Same middle right) : Same left right := by
  cases left <;> cases middle <;> cases right
  · trivial
  · exact h'
  · exact h.elim
  · exact h.elim
  · exact h.elim
  · exact h.elim
  · exact h'
  · exact List.Perm.trans h h'

theorem Same.cons {left right : Option (List α)} (h : Same left right) (result : α) :
    Same (left.map (result :: ·)) (right.map (result :: ·)) := by
  cases left <;> cases right
  · trivial
  · exact h.elim
  · exact h.elim
  · exact List.Perm.cons result h

end Same

namespace Demand

variable {Item Slot : Type} [DecidableEq Slot] (demand : Demand Item Slot)

/-! ### Placing -/

/-- The slots that fit an item and are not taken. -/
def free (taken : List Slot) (item : Item) : List Slot :=
  (demand.fits item).filter fun slot => slot ∉ taken

/-- Where an item goes: into a slot, or outside as `none`. -/
def choose (taken : List Slot) (outside : Bool) (item : Item) : Option (Option Slot) :=
  match demand.named item with
  | some slot => if slot ∈ demand.slots ∧ slot ∉ taken then some (some slot) else none
  | none =>
      match demand.free taken item with
      | [] => if outside then none else some none
      | [slot] => some (some slot)
      | _ :: _ :: _ => none

/-- Put the items in their places one by one. -/
def place : List Slot → Bool → List Item → Option (List (Item × Option Slot))
  | _, _, [] => some []
  | taken, outside, item :: rest =>
      (demand.choose taken outside item).bind fun target =>
        (place (target.toList ++ taken) (outside || target.isNone) rest).map ((item, target) :: ·)

/-- The slots that the items name. -/
def names (items : List Item) : List Slot := items.filterMap demand.named

/-- The item names its slot, or no slot that fits it is named by the other or fits the other. -/
def Apart (item other : Item) : Prop :=
  demand.named item = none → ∀ slot ∈ demand.fits item,
    demand.named other ≠ some slot ∧ (demand.named other = none → slot ∉ demand.fits other)

/-- No item that names no slot competes with another item. -/
def Independent (items : List Item) : Prop :=
  ∀ item ∈ items, ∀ other ∈ items, item ≠ other → demand.Apart item other

/-- Each item finds at most one slot that fits it and no item before it, and only one item
finds none. -/
def Settles : List Slot → Bool → List Item → Prop
  | _, _, [] => True
  | taken, outside, item :: rest =>
      match demand.free taken item with
      | [] => outside = false ∧ Settles (demand.fits item ++ taken) true rest
      | [_] => Settles (demand.fits item ++ taken) outside rest
      | _ :: _ :: _ => False

/-- The named slots exist and are named once, and the other items can be put in an order in
which they settle beside the named slots. -/
structure Placeable (items : List Item) : Prop where
  known : ∀ slot ∈ demand.names items, slot ∈ demand.slots
  distinct : (demand.names items).Nodup
  settles : ∃ order, order.Perm (items.filter fun item => (demand.named item).isNone) ∧
    demand.Settles (demand.names items) false order

/-- Every order of the items has the same outcome. -/
def OrderFree (items : List Item) : Prop :=
  ∀ other, other.Perm items → Same (demand.place [] false other) (demand.place [] false items)

/-! ### Orders that do not matter -/

section Congruence

variable {demand} {taken taken' : List Slot} (h : ∀ slot, slot ∈ taken ↔ slot ∈ taken')
include h

theorem free_congr (item : Item) : demand.free taken item = demand.free taken' item := by
  unfold free
  apply List.filter_congr
  intro slot _
  simp only [h slot]

theorem choose_congr (outside : Bool) (item : Item) :
    demand.choose taken outside item = demand.choose taken' outside item := by
  unfold choose
  rw [free_congr h]
  simp only [h]

theorem place_congr (outside : Bool) (items : List Item) :
    demand.place taken outside items = demand.place taken' outside items := by
  induction items generalizing taken taken' outside with
  | nil => rfl
  | cons item rest ih =>
    unfold place
    rw [choose_congr h]
    congr 1
    funext target
    have hsets : ∀ slot, slot ∈ target.toList ++ taken ↔ slot ∈ target.toList ++ taken' := by
      intro slot
      simp only [List.mem_append, h]
    rw [ih hsets]

end Congruence

section Swaps

variable {demand} {taken : List Slot} {outside : Bool}

theorem choose_slot {item : Item} {slot : Slot}
    (h : demand.choose taken outside item = some (some slot)) :
    slot ∉ taken ∧ (demand.named item = some slot ∨
      demand.named item = none ∧ slot ∈ demand.fits item) := by
  unfold choose at h
  cases hnamed : demand.named item with
  | some named =>
    rw [hnamed] at h
    dsimp only at h
    by_cases hfree : named ∈ demand.slots ∧ named ∉ taken
    · rw [if_pos hfree, Option.some.injEq, Option.some.injEq] at h
      subst h
      exact ⟨hfree.2, .inl rfl⟩
    · rw [if_neg hfree] at h
      cases h
  | none =>
    rw [hnamed] at h
    dsimp only at h
    cases hfree : demand.free taken item with
    | nil =>
      rw [hfree] at h
      dsimp only at h
      split_ifs at h
      cases h
    | cons first rest =>
      rw [hfree] at h
      cases rest with
      | cons second rest => cases h
      | nil =>
        rw [Option.some.injEq, Option.some.injEq] at h
        subst h
        have hmem : first ∈ demand.free taken item := by
          rw [hfree]
          exact List.mem_singleton.mpr rfl
        obtain ⟨hfits, hnot⟩ := List.mem_filter.mp hmem
        exact ⟨of_decide_eq_true hnot, .inr ⟨rfl, hfits⟩⟩

theorem choose_outside {item : Item} (h : demand.choose taken outside item = some none) :
    outside = false := by
  unfold choose at h
  cases hnamed : demand.named item with
  | some named =>
    rw [hnamed] at h
    dsimp only at h
    split_ifs at h
    cases h
  | none =>
    rw [hnamed] at h
    dsimp only at h
    cases hfree : demand.free taken item with
    | nil =>
      rw [hfree] at h
      dsimp only at h
      cases outside with
      | true => cases h
      | false => rfl
    | cons first rest =>
      rw [hfree] at h
      cases rest <;> cases h

theorem choose_named {item : Item} {slot : Slot} (h : demand.named item = some slot) :
    demand.choose taken outside item =
      if slot ∈ demand.slots ∧ slot ∉ taken then some (some slot) else none := by
  unfold choose
  rw [h]

/-- A slot that is taken does not matter to an item that it does not fit. -/
theorem choose_cons {item : Item} {slot : Slot} (hnamed : demand.named item = none)
    (hfits : slot ∉ demand.fits item) :
    demand.choose (slot :: taken) outside item = demand.choose taken outside item := by
  have hfree : demand.free (slot :: taken) item = demand.free taken item := by
    unfold free
    apply List.filter_congr
    intro other hother
    have hne : other ≠ slot := fun heq => hfits (heq ▸ hother)
    simp [hne]
  unfold choose
  rw [hnamed, hfree]

/-- A slot that another item has taken is none that fits an item apart from it. -/
theorem Apart.not_fits {item other : Item} {slot : Slot} (hapart : demand.Apart item other)
    (h : demand.choose taken outside other = some (some slot))
    (hnamed : demand.named item = none) : slot ∉ demand.fits item := by
  intro hfits
  obtain ⟨hnamedNot, hfitsNot⟩ := hapart hnamed slot hfits
  rcases (choose_slot h).2 with hother | ⟨hother, hmem⟩
  · exact hnamedNot hother
  · exact hfitsNot hother hmem

/-- An item does not find the place that another one has taken. -/
theorem choose_blocked {item other : Item} {target : Option Slot}
    (hapart : demand.Apart item other) (h : demand.choose taken outside other = some target)
    (hsame : demand.choose taken outside item = some target) :
    demand.choose (target.toList ++ taken) (outside || target.isNone) item = none := by
  cases target with
  | none =>
    obtain rfl := choose_outside h
    change demand.choose taken true item = none
    unfold choose at hsame ⊢
    cases hnamed : demand.named item with
    | some slot =>
      rw [hnamed] at hsame
      dsimp only at hsame
      split_ifs at hsame
      cases hsame
    | none =>
      rw [hnamed] at hsame
      dsimp only at hsame ⊢
      cases hfree : demand.free taken item with
      | nil => rfl
      | cons first rest =>
        rw [hfree] at hsame
        cases rest <;> cases hsame
  | some slot =>
    rw [Option.isNone_some, Bool.or_false]
    change demand.choose (slot :: taken) outside item = none
    rcases (choose_slot hsame).2 with hnamed | ⟨hnamed, hfits⟩
    · rw [choose_named hnamed, if_neg fun hboth => hboth.2 List.mem_cons_self]
    · exact absurd hfits (hapart.not_fits h hnamed)

/-- An item goes where it would go without another one that is apart from it. -/
theorem choose_kept {item other : Item} {target : Option Slot}
    (hapart : demand.Apart item other) (h : demand.choose taken outside other = some target)
    (hne : demand.choose taken outside item ≠ some target) :
    demand.choose (target.toList ++ taken) (outside || target.isNone) item =
      demand.choose taken outside item := by
  cases target with
  | none =>
    obtain rfl := choose_outside h
    change demand.choose taken true item = _
    unfold choose at hne ⊢
    cases hnamed : demand.named item with
    | some slot => rfl
    | none =>
      rw [hnamed] at hne
      dsimp only at hne ⊢
      cases hfree : demand.free taken item with
      | nil =>
        rw [hfree] at hne
        exact absurd rfl hne
      | cons first rest => cases rest <;> rfl
  | some slot =>
    rw [Option.isNone_some, Bool.or_false]
    change demand.choose (slot :: taken) outside item = _
    cases hnamed : demand.named item with
    | none => exact choose_cons hnamed (hapart.not_fits h hnamed)
    | some name =>
      rw [choose_named hnamed, choose_named hnamed]
      by_cases hfree : name ∈ demand.slots ∧ name ∉ taken
      · have hdifferent : name ≠ slot := by
          rintro rfl
          exact hne (by rw [choose_named hnamed, if_pos hfree])
        rw [if_pos hfree, if_pos ⟨hfree.1, fun hmem =>
          (List.mem_cons.mp hmem).elim hdifferent hfree.2⟩]
      · rw [if_neg hfree, if_neg fun hboth => hfree
          ⟨hboth.1, fun hmem => hboth.2 (List.mem_cons_of_mem _ hmem)⟩]

/-- Two items that are apart from each other may change places. -/
theorem place_swap {first second : Item} (hfirst : demand.Apart first second)
    (hsecond : demand.Apart second first) (rest : List Item) :
    Same (demand.place taken outside (first :: second :: rest))
      (demand.place taken outside (second :: first :: rest)) := by
  unfold place
  cases ha : demand.choose taken outside first with
  | none =>
    cases hb : demand.choose taken outside second with
    | none => trivial
    | some b =>
      have hnone := choose_kept hfirst hb (by rw [ha]; exact Option.some_ne_none b |>.symm)
      unfold place
      rw [Option.bind_none, Option.bind_some, hnone, ha]
      trivial
  | some a =>
    cases hb : demand.choose taken outside second with
    | none =>
      have hnone := choose_kept hsecond ha (by rw [hb]; exact Option.some_ne_none a |>.symm)
      unfold place
      rw [Option.bind_none, Option.bind_some, hnone, hb]
      trivial
    | some b =>
      unfold place
      rw [Option.bind_some, Option.bind_some]
      by_cases hsame : a = b
      · subst hsame
        rw [choose_blocked hsecond ha hb, choose_blocked hfirst hb ha]
        trivial
      · rw [choose_kept hsecond ha (by rw [hb, Ne, Option.some.injEq]; exact Ne.symm hsame),
          choose_kept hfirst hb (by rw [ha, Ne, Option.some.injEq]; exact hsame), ha, hb,
          Option.bind_some, Option.bind_some]
        have hsets : ∀ slot, slot ∈ b.toList ++ (a.toList ++ taken) ↔
            slot ∈ a.toList ++ (b.toList ++ taken) := by
          intro slot
          simp only [List.mem_append]
          tauto
        rw [place_congr hsets, Bool.or_right_comm]
        cases demand.place (a.toList ++ (b.toList ++ taken)) ((outside || b.isNone) || a.isNone)
          rest with
        | none => trivial
        | some results => exact List.Perm.swap _ _ _

/-- Independent items end up in the same places in every order. -/
theorem place_perm {items other : List Item} (hperm : items.Perm other)
    (h : demand.Independent items) (taken : List Slot) (outside : Bool) :
    Same (demand.place taken outside items) (demand.place taken outside other) := by
  induction hperm generalizing taken outside with
  | nil => exact Same.refl _
  | cons item hperm ih =>
    unfold place
    cases demand.choose taken outside item with
    | none => trivial
    | some target =>
      refine (ih (fun first hfirst second hsecond => ?_) _ _).cons _
      exact h first (List.mem_cons_of_mem _ hfirst) second (List.mem_cons_of_mem _ hsecond)
  | swap first second rest =>
    by_cases hsame : first = second
    · subst hsame
      exact Same.refl _
    · have hfirst : first ∈ second :: first :: rest := List.mem_cons_of_mem _ List.mem_cons_self
      have hsecond : second ∈ second :: first :: rest := List.mem_cons_self
      exact place_swap (h second hsecond first hfirst (Ne.symm hsame))
        (h first hfirst second hsecond hsame) rest
  | trans hfirst hsecond ih ih' =>
    refine (ih h taken outside).trans (ih' (fun first hmem second hmem' => ?_) taken outside)
    exact h first (hfirst.mem_iff.mpr hmem) second (hfirst.mem_iff.mpr hmem')

end Swaps

/-! ### Orders that place every item -/

section Placing

variable {demand} {taken : List Slot} {outside : Bool} {results : List (Item × Option Slot)}

theorem place_cons {item : Item} {rest : List Item}
    (h : demand.place taken outside (item :: rest) = some results) :
    ∃ target later, demand.choose taken outside item = some target ∧
      demand.place (target.toList ++ taken) (outside || target.isNone) rest = some later ∧
      results = (item, target) :: later := by
  unfold place at h
  obtain ⟨target, htarget, hrest⟩ := Option.bind_eq_some_iff.mp h
  obtain ⟨later, hlater, rfl⟩ := Option.map_eq_some_iff.mp hrest
  exact ⟨target, later, htarget, hlater, rfl⟩

theorem place_items {items : List Item} (h : demand.place taken outside items = some results) :
    results.map Prod.fst = items := by
  induction items generalizing taken outside results with
  | nil =>
    obtain rfl := Option.some.inj h
    rfl
  | cons item rest ih =>
    obtain ⟨target, later, -, hlater, rfl⟩ := place_cons h
    rw [List.map_cons, ih hlater]

/-- A slot is taken once. -/
theorem place_slots {items : List Item} (h : demand.place taken outside items = some results) :
    (∀ item slot, (item, some slot) ∈ results → slot ∉ taken) ∧
      (results.filterMap Prod.snd).Nodup := by
  induction items generalizing taken outside results with
  | nil =>
    obtain rfl := Option.some.inj h
    exact ⟨fun item slot hmem => (by cases hmem), List.nodup_nil⟩
  | cons item rest ih =>
    obtain ⟨target, later, htarget, hlater, rfl⟩ := place_cons h
    obtain ⟨hnot, hnodup⟩ := ih hlater
    constructor
    · intro other slot hmem
      rcases List.mem_cons.mp hmem with heq | hmem
      · obtain ⟨rfl, rfl⟩ := Prod.mk.inj heq
        exact (choose_slot htarget).1
      · exact fun htaken => hnot other slot hmem (List.mem_append_right _ htaken)
    · cases target with
      | none => exact hnodup
      | some slot =>
        apply List.nodup_cons.mpr
        refine ⟨fun hmem => ?_, hnodup⟩
        obtain ⟨⟨other, taking⟩, hother, rfl⟩ := List.mem_filterMap.mp hmem
        exact hnot other slot hother List.mem_cons_self

/-- Every slot that is taken exists. -/
theorem place_known (hfits : ∀ item, ∀ slot ∈ demand.fits item, slot ∈ demand.slots)
    {items : List Item} (h : demand.place taken outside items = some results) :
    ∀ item slot, (item, some slot) ∈ results → slot ∈ demand.slots := by
  induction items generalizing taken outside results with
  | nil =>
    obtain rfl := Option.some.inj h
    exact fun item slot hmem => (by cases hmem)
  | cons first rest ih =>
    obtain ⟨target, later, htarget, hlater, rfl⟩ := place_cons h
    intro item slot hmem
    rcases List.mem_cons.mp hmem with heq | hmem
    · obtain ⟨rfl, rfl⟩ := Prod.mk.inj heq
      rcases (choose_slot htarget).2 with hnamed | ⟨-, hmem⟩
      · rw [choose_named hnamed] at htarget
        split_ifs at htarget with hfree
        exact hfree.1
      · exact hfits item slot hmem
    · exact ih hlater item slot hmem

/-- One item at most stays outside. -/
theorem place_outside {items : List Item} (h : demand.place taken outside items = some results) :
    (outside = true → ∀ item, (item, none) ∉ results) ∧
      ∀ before item after, results = before ++ (item, none) :: after →
        ∀ other, (other, none) ∉ before ++ after := by
  induction items generalizing taken outside results with
  | nil =>
    obtain rfl := Option.some.inj h
    refine ⟨fun _ item hmem => (by cases hmem), fun before item after heq => ?_⟩
    exact absurd heq.symm (List.append_ne_nil_of_right_ne_nil _ (List.cons_ne_nil _ _))
  | cons item rest ih =>
    obtain ⟨target, later, htarget, hlater, rfl⟩ := place_cons h
    obtain ⟨hnone, hone⟩ := ih hlater
    constructor
    · rintro rfl other hmem
      rcases List.mem_cons.mp hmem with heq | hmem
      · obtain ⟨rfl, rfl⟩ := Prod.mk.inj heq
        cases choose_outside htarget
      · exact hnone rfl other hmem
    · intro before found after heq other hmem
      cases before with
      | nil =>
        obtain ⟨hhead, rfl⟩ := List.cons.inj heq
        obtain ⟨rfl, rfl⟩ := Prod.mk.inj hhead
        exact hnone (Bool.or_true _) other hmem
      | cons first before =>
        obtain ⟨rfl, rfl⟩ := List.cons.inj heq
        rw [List.cons_append] at hmem
        rcases List.mem_cons.mp hmem with hfirst | hmem
        · obtain ⟨rfl, rfl⟩ := Prod.mk.inj hfirst
          exact hnone (Bool.or_true _) found (List.mem_append_right _ List.mem_cons_self)
        · exact hone before found after rfl other hmem

/-- An item whose slot is taken cannot be placed. -/
theorem place_taken {items : List Item} {item : Item} {slot : Slot} (hmem : item ∈ items)
    (hnamed : demand.named item = some slot) (htaken : slot ∈ taken) :
    demand.place taken outside items = none := by
  induction items generalizing taken outside with
  | nil => cases hmem
  | cons first rest ih =>
    unfold place
    rcases List.mem_cons.mp hmem with rfl | hrest
    · rw [choose_named hnamed, if_neg fun hboth => hboth.2 htaken]
      rfl
    · cases demand.choose taken outside first with
      | none => rfl
      | some target =>
        rw [Option.bind_some, ih hrest (List.mem_append_right _ htaken)]
        rfl

omit [DecidableEq Slot] in
theorem names_cons_some {item : Item} {rest : List Item} {slot : Slot}
    (h : demand.named item = some slot) :
    demand.names (item :: rest) = slot :: demand.names rest := by
  unfold names
  rw [List.filterMap_cons, h]

omit [DecidableEq Slot] in
theorem names_cons_none {item : Item} {rest : List Item} (h : demand.named item = none) :
    demand.names (item :: rest) = demand.names rest := by
  unfold names
  rw [List.filterMap_cons, h]

/-- Items with slots of their own are placed, and leave the others what they do not name. -/
theorem place_named {items rest : List Item} (hnamed : ∀ item ∈ items, (demand.named item).isSome)
    (hknown : ∀ slot ∈ demand.names items, slot ∈ demand.slots)
    (hdistinct : (demand.names items).Nodup) (hfree : ∀ slot ∈ demand.names items, slot ∉ taken)
    (h : (demand.place (demand.names items ++ taken) outside rest).isSome) :
    (demand.place taken outside (items ++ rest)).isSome := by
  induction items generalizing taken with
  | nil => exact h
  | cons item items ih =>
    obtain ⟨slot, hslot⟩ := Option.isSome_iff_exists.mp (hnamed item List.mem_cons_self)
    rw [names_cons_some hslot] at hknown hdistinct hfree h
    obtain ⟨hnot, hrest⟩ := List.nodup_cons.mp hdistinct
    have hboth : slot ∈ demand.slots ∧ slot ∉ taken :=
      ⟨hknown slot List.mem_cons_self, hfree slot List.mem_cons_self⟩
    rw [List.cons_append]
    unfold place
    rw [choose_named hslot, if_pos hboth, Option.bind_some, Option.isSome_map, Option.isNone_some,
      Bool.or_false]
    refine ih (fun other hother => hnamed other (List.mem_cons_of_mem _ hother))
      (fun other hother => hknown other (List.mem_cons_of_mem _ hother)) hrest ?_ ?_
    · intro other hother htaken
      rcases List.mem_append.mp htaken with hsame | htaken
      · rw [Option.mem_toList, Option.some.injEq] at hsame
        exact hnot (hsame ▸ hother)
      · exact hfree other (List.mem_cons_of_mem _ hother) htaken
    · have hsets : ∀ other, other ∈ slot :: demand.names items ++ taken ↔
          other ∈ demand.names items ++ ((some slot).toList ++ taken) := by
        intro other
        simp only [List.cons_append, List.mem_cons, List.mem_append, Option.toList_some,
          List.not_mem_nil]
        tauto
      rwa [← place_congr hsets]

theorem mem_free {item : Item} {slot : Slot} :
    slot ∈ demand.free taken item ↔ slot ∈ demand.fits item ∧ slot ∉ taken := by
  unfold free
  rw [List.mem_filter, decide_eq_true_iff]

/-- An order in which the items settle places all of them. -/
theorem place_of_settles {order : List Item} {taken' : List Slot}
    (hunnamed : ∀ item ∈ order, demand.named item = none)
    (hsets : ∀ slot, slot ∈ taken' ↔ slot ∈ taken) (h : demand.Settles taken outside order) :
    (demand.place taken' outside order).isSome := by
  rw [place_congr hsets]
  clear hsets
  induction order generalizing taken outside with
  | nil => rfl
  | cons item rest ih =>
    have hrest := fun other hother => hunnamed other (List.mem_cons_of_mem _ hother)
    have hnamed := hunnamed item List.mem_cons_self
    unfold Settles at h
    unfold place choose
    rw [hnamed]
    dsimp only
    cases hfree : demand.free taken item with
    | nil =>
      rw [hfree] at h
      obtain ⟨rfl, h⟩ := h
      rw [if_neg Bool.false_ne_true, Option.bind_some, Option.isSome_map]
      have hsets : ∀ slot, slot ∈ taken ↔ slot ∈ demand.fits item ++ taken := by
        intro slot
        rw [List.mem_append]
        refine ⟨.inr, fun hmem => hmem.elim (fun hfits => ?_) id⟩
        by_contra hnot
        have hmemFree : slot ∈ demand.free taken item := mem_free.mpr ⟨hfits, hnot⟩
        rw [hfree] at hmemFree
        cases hmemFree
      rw [Option.toList_none, List.nil_append, place_congr hsets]
      exact ih hrest h
    | cons first others =>
      rw [hfree] at h
      cases others with
      | cons second others => exact h.elim
      | nil =>
        dsimp only at h ⊢
        rw [Option.bind_some, Option.isSome_map]
        have hsets : ∀ slot, slot ∈ (some first).toList ++ taken ↔
            slot ∈ demand.fits item ++ taken := by
          intro slot
          rw [List.mem_append, List.mem_append, Option.mem_toList, Option.some.injEq]
          constructor
          · rintro (rfl | hmem)
            · have hmemFree : first ∈ demand.free taken item := by
                rw [hfree]
                exact List.mem_singleton.mpr rfl
              exact .inl (mem_free.mp hmemFree).1
            · exact .inr hmem
          · rintro (hfits | hmem)
            · by_cases htaken : slot ∈ taken
              · exact .inr htaken
              · have hmemFree : slot ∈ demand.free taken item := mem_free.mpr ⟨hfits, htaken⟩
                rw [hfree, List.mem_singleton] at hmemFree
                exact .inl hmemFree.symm
            · exact .inr hmem
        rw [place_congr hsets, Option.isNone_some, Bool.or_false]
        exact ih hrest h

/-- When all items are placed, the named slots exist and are free. -/
theorem names_of_place {items : List Item} (h : demand.place taken outside items = some results) :
    (∀ slot ∈ demand.names items, slot ∈ demand.slots ∧ slot ∉ taken) ∧
      (demand.names items).Nodup := by
  induction items generalizing taken outside results with
  | nil => exact ⟨fun slot hmem => (by cases hmem), List.nodup_nil⟩
  | cons item rest ih =>
    obtain ⟨target, later, htarget, hlater, rfl⟩ := place_cons h
    obtain ⟨hfree, hdistinct⟩ := ih hlater
    cases hnamed : demand.named item with
    | none =>
      rw [names_cons_none hnamed]
      refine ⟨fun slot hslot => ⟨(hfree slot hslot).1, fun htaken => ?_⟩, hdistinct⟩
      exact (hfree slot hslot).2 (List.mem_append_right _ htaken)
    | some name =>
      rw [choose_named hnamed] at htarget
      by_cases hboth : name ∈ demand.slots ∧ name ∉ taken
      · rw [if_pos hboth, Option.some.injEq] at htarget
        subst htarget
        rw [names_cons_some hnamed]
        refine ⟨fun slot hslot => ?_, List.nodup_cons.mpr ⟨fun hmem => ?_, hdistinct⟩⟩
        · rcases List.mem_cons.mp hslot with rfl | hmem
          · exact hboth
          · exact ⟨(hfree slot hmem).1, fun htaken =>
              (hfree slot hmem).2 (List.mem_append_right _ htaken)⟩
        · exact (hfree name hmem).2 List.mem_cons_self
      · rw [if_neg hboth] at htarget
        cases htarget

/-- An order that places every item is one in which the items that name no slot settle. -/
theorem settles_of_place {items : List Item} {taken' : List Slot}
    (h : demand.place taken outside items = some results)
    (hsets : ∀ slot, slot ∈ taken' ↔ slot ∈ taken ∨ slot ∈ demand.names items) :
    demand.Settles taken' outside (items.filter fun item => (demand.named item).isNone) := by
  induction items generalizing taken outside results taken' with
  | nil => trivial
  | cons item rest ih =>
    obtain ⟨target, later, htarget, hlater, rfl⟩ := place_cons h
    have hfreeLater := (names_of_place hlater).1
    cases hnamed : demand.named item with
    | some name =>
      rw [List.filter_cons_of_neg (by simp [hnamed])]
      rcases target with _ | slot
      · rw [choose_named hnamed] at htarget
        split_ifs at htarget
        cases htarget
      · have hname : name = slot := by
          rw [choose_named hnamed] at htarget
          split_ifs at htarget
          exact Option.some.inj (Option.some.inj htarget)
        subst hname
        rw [Option.isNone_some, Bool.or_false] at hlater
        refine ih hlater fun other => ?_
        rw [hsets, names_cons_some hnamed, List.mem_append, Option.mem_toList, Option.some.injEq,
          List.mem_cons]
        tauto
    | none =>
      rw [List.filter_cons_of_pos (by simp [hnamed])]
      rw [names_cons_none hnamed] at hsets
      have hsub : ∀ slot, slot ∈ demand.free taken' item → slot ∈ demand.free taken item := by
        intro slot hslot
        obtain ⟨hfits, hnot⟩ := mem_free.mp hslot
        exact mem_free.mpr ⟨hfits, fun htaken => hnot ((hsets slot).mpr (.inl htaken))⟩
      unfold Settles
      unfold choose at htarget
      rw [hnamed] at htarget
      dsimp only at htarget
      cases hfree : demand.free taken item with
      | nil =>
        rw [hfree] at htarget hsub
        cases outside with
        | true => cases htarget
        | false =>
          obtain rfl := Option.some.inj htarget
          have hnone : demand.free taken' item = [] :=
            List.eq_nil_iff_forall_not_mem.mpr fun slot hslot => by cases hsub slot hslot
          rw [hnone]
          refine ⟨rfl, ih hlater fun slot => ?_⟩
          rw [List.mem_append, hsets, Option.toList_none, List.nil_append]
          refine ⟨fun hmem => hmem.elim (fun hfits => ?_) id, .inr⟩
          by_contra hnot
          have hmemFree : slot ∈ demand.free taken' item :=
            mem_free.mpr ⟨hfits, fun htaken => hnot ((hsets slot).mp htaken)⟩
          rw [hnone] at hmemFree
          cases hmemFree
      | cons first others =>
        rw [hfree] at htarget
        cases others with
        | cons second others => cases htarget
        | nil =>
          obtain rfl := Option.some.inj htarget
          rw [Option.isNone_some, Bool.or_false] at hlater
          have hmemFree : first ∈ demand.free taken item := by
            rw [hfree]
            exact List.mem_singleton.mpr rfl
          obtain ⟨hfits, hnotTaken⟩ := mem_free.mp hmemFree
          -- A slot that is named later would have been taken.
          have hnotNamed : first ∉ demand.names rest := fun hmem =>
            (hfreeLater first hmem).2 List.mem_cons_self
          have hsame : demand.free taken' item = [first] := by
            rw [← hfree]
            unfold free
            apply List.filter_congr
            intro slot hslot
            by_cases htaken : slot ∈ taken
            · simp [htaken, hsets]
            · have hslotFree : slot ∈ demand.free taken item := mem_free.mpr ⟨hslot, htaken⟩
              rw [hfree, List.mem_singleton] at hslotFree
              subst hslotFree
              simp [htaken, hsets, hnotNamed]
          rw [hsame]
          refine ih hlater fun slot => ?_
          rw [List.mem_append, hsets, List.mem_append, Option.mem_toList, Option.some.injEq]
          constructor
          · rintro (hslot | htaken | hname)
            · by_cases htaken : slot ∈ taken'
              · rcases (hsets slot).mp htaken with htaken | hname
                · exact .inl (.inr htaken)
                · exact .inr hname
              · have hslotFree : slot ∈ demand.free taken' item := mem_free.mpr ⟨hslot, htaken⟩
                rw [hsame, List.mem_singleton] at hslotFree
                exact .inl (.inl hslotFree.symm)
            · exact .inl (.inr htaken)
            · exact .inr hname
          · rintro ((rfl | htaken) | hname)
            · exact .inl hfits
            · exact .inr (.inl htaken)
            · exact .inr (.inr hname)

/-- Items can be placed when some order places all of them. -/
theorem placeable_iff {items : List Item} : demand.Placeable items ↔
    ∃ other, other.Perm items ∧ (demand.place [] false other).isSome := by
  constructor
  · rintro ⟨hknown, hdistinct, order, horder, hsettles⟩
    refine ⟨items.filter (fun item => (demand.named item).isSome) ++ order, ?_, ?_⟩
    · have hsplit := List.filter_append_perm (fun item => (demand.named item).isSome) items
      refine List.Perm.trans (List.Perm.append_left _ ?_) hsplit
      simpa only [Option.not_isSome] using horder
    · have hnames : demand.names (items.filter fun item => (demand.named item).isSome) =
          demand.names items := by
        unfold names
        rw [List.filterMap_filter]
        congr 1
        funext item
        cases demand.named item <;> rfl
      apply place_named
      · intro item hitem
        exact (List.mem_filter.mp hitem).2
      · rwa [hnames]
      · rwa [hnames]
      · exact fun slot _ hmem => (by cases hmem)
      · refine place_of_settles (fun item hitem => ?_) (fun slot => ?_) hsettles
        · exact Option.isNone_iff_eq_none.mp (List.mem_filter.mp (horder.mem_iff.mp hitem)).2
        · rw [hnames, List.append_nil]
  · rintro ⟨other, hperm, hplaced⟩
    obtain ⟨results, hresults⟩ := Option.isSome_iff_exists.mp hplaced
    obtain ⟨hknown, hdistinct⟩ := names_of_place hresults
    have hnames : (demand.names other).Perm (demand.names items) := hperm.filterMap _
    refine ⟨fun slot hslot => (hknown slot (hnames.mem_iff.mpr hslot)).1,
      hnames.nodup_iff.mp hdistinct, _, hperm.filter _, settles_of_place hresults fun slot => ?_⟩
    rw [← hnames.mem_iff]
    exact ⟨.inr, fun h => h.elim (fun hnil => (by cases hnil)) id⟩

/-- An item in front that may take the slot of another one keeps it from that place. -/
theorem place_front {item other : Item} {slot : Slot} {rest : List Item} (hmem : other ∈ rest)
    (hnamed : demand.named item = none) (hfits : slot ∈ demand.fits item)
    (h : demand.place [] false (item :: rest) = some results) :
    (item, some slot) ∈ results ∧ demand.named other ≠ some slot := by
  obtain ⟨target, later, htarget, hlater, rfl⟩ := place_cons h
  have htaken : target = some slot := by
    unfold choose at htarget
    rw [hnamed] at htarget
    dsimp only at htarget
    have hfree : slot ∈ demand.free [] item := mem_free.mpr ⟨hfits, List.not_mem_nil⟩
    cases hlist : demand.free [] item with
    | nil =>
      rw [hlist] at hfree
      cases hfree
    | cons first others =>
      rw [hlist] at htarget hfree
      cases others with
      | cons second others => cases htarget
      | nil =>
        rw [List.mem_singleton] at hfree
        subst hfree
        exact (Option.some.inj htarget).symm
  subst htaken
  refine ⟨List.mem_cons_self, fun hother => ?_⟩
  have htaken : slot ∈ (some slot).toList ++ [] := List.mem_cons_self
  rw [place_taken hmem hother htaken] at hlater
  cases hlater

/-- The outcome does not depend on the order exactly if the items are independent, or no
order places all of them. -/
theorem orderFree_iff {items : List Item} :
    demand.OrderFree items ↔ demand.Independent items ∨ ¬ demand.Placeable items := by
  constructor
  · intro h
    by_cases hplaceable : demand.Placeable items
    · refine .inl fun item hitem other hother hne hnamed slot hfits => ?_
      -- Every order is placed, also the ones that start with either of the two.
      have hfront : ∀ front ∈ items, ∃ rest results, (front :: rest).Perm items ∧
          demand.place [] false (front :: rest) = some results := by
        intro front hmem
        obtain ⟨before, after, rfl⟩ := List.append_of_mem hmem
        obtain ⟨order, horder, hplaced⟩ := placeable_iff.mp hplaceable
        have hperm : (front :: (before ++ after)).Perm (before ++ front :: after) :=
          List.perm_middle.symm
        have hsame := (h _ hperm).trans (h _ horder).symm
        obtain ⟨results, hresults⟩ := Option.isSome_iff_exists.mp hplaced
        rw [hresults] at hsame
        cases hplace : demand.place [] false (front :: (before ++ after)) with
        | none =>
          rw [hplace] at hsame
          exact hsame.elim
        | some found => exact ⟨_, found, hperm, hplace⟩
      have hbehind : ∀ {front behind : Item} {rest : List Item}, behind ∈ items → front ≠ behind →
          (front :: rest).Perm items → behind ∈ rest := by
        intro front behind rest hmem hdifferent hperm
        exact (List.mem_cons.mp (hperm.mem_iff.mpr hmem)).resolve_left (Ne.symm hdifferent)
      obtain ⟨rest, results, hperm, hresults⟩ := hfront item hitem
      obtain ⟨hitemSlot, hotherNamed⟩ :=
        place_front (hbehind hother hne hperm) hnamed hfits hresults
      refine ⟨hotherNamed, fun hotherNone hotherFits => ?_⟩
      obtain ⟨rest', results', hperm', hresults'⟩ := hfront other hother
      obtain ⟨hotherSlot, -⟩ :=
        place_front (hbehind hitem (Ne.symm hne) hperm') hotherNone hotherFits hresults'
      have hsame := (h _ hperm).trans (h _ hperm').symm
      rw [hresults, hresults'] at hsame
      have hboth : (other, some slot) ∈ results := (List.Perm.mem_iff hsame).mpr hotherSlot
      obtain ⟨first, second, hsplit⟩ := List.append_of_mem hitemSlot
      have hslots := (place_slots hresults).2
      rw [hsplit] at hslots hboth
      rw [List.filterMap_append] at hslots
      change (first.filterMap Prod.snd ++ slot :: second.filterMap Prod.snd).Nodup at hslots
      have hnot : slot ∉ first.filterMap Prod.snd ++ second.filterMap Prod.snd :=
        (List.nodup_cons.mp ((List.perm_middle.nodup_iff).mp hslots)).1
      apply hnot
      rw [← List.filterMap_append]
      refine List.mem_filterMap.mpr ⟨(other, some slot), ?_, rfl⟩
      rcases List.mem_append.mp hboth with hmem | hmem
      · exact List.mem_append_left _ hmem
      · rcases List.mem_cons.mp hmem with heq | hmem
        · exact absurd (Prod.mk.inj heq).1.symm hne
        · exact List.mem_append_right _ hmem
    · exact .inr hplaceable
  · rintro (hindependent | hnever) other hperm
    · exact (place_perm hperm.symm hindependent [] false).symm
    · have hnone : ∀ order, order.Perm items → demand.place [] false order = none := by
        intro order horder
        by_contra hsome
        exact hnever (placeable_iff.mpr ⟨order, horder, Option.isSome_iff_ne_none.mpr hsome⟩)
      rw [hnone other hperm, hnone items (List.Perm.refl items)]
      trivial

end Placing

end Demand

end SpecGate.Placements

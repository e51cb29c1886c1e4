import Mathlib

/-!
Computations that stop at the first failure. Runs over a list keep one result for
each of its elements, and a chain of steps succeeds exactly when every step does.
-/
namespace SpecGate.Checked

variable {ε α β : Type}

def ensure (met : Bool) (failure : ε) : Except ε Unit :=
  if met then .ok () else .error failure

/-- The value of an option that has to be there. -/
def okOr (value : Option α) (failure : ε) : Except ε α :=
  match value with
  | some value => .ok value
  | none => .error failure

/-- Run over a list and keep the results. -/
def mapAll (f : α → Except ε β) : List α → Except ε (List β)
  | [] => .ok []
  | value :: rest => do
      let result ← f value
      let results ← mapAll f rest
      return result :: results

theorem bind_eq_ok {computation : Except ε α} {next : α → Except ε β} {result : β} :
    computation >>= next = .ok result ↔
      ∃ value, computation = .ok value ∧ next value = .ok result := by
  cases computation with
  | error failure =>
    constructor
    · intro h
      cases h
    · rintro ⟨value, hvalue, -⟩
      cases hvalue
  | ok value =>
    refine ⟨fun h => ⟨value, rfl, h⟩, ?_⟩
    rintro ⟨other, hother, hnext⟩
    rw [Except.ok.inj hother]
    exact hnext

theorem map_eq_ok {computation : Except ε α} {f : α → β} {result : β} :
    computation.map f = .ok result ↔ ∃ value, computation = .ok value ∧ f value = result := by
  cases computation with
  | error failure => simp [Except.map]
  | ok value => simp [Except.map]

@[simp] theorem ensure_eq_ok {met : Bool} {failure : ε} :
    ensure met failure = .ok () ↔ met = true := by
  cases met <;> simp [ensure]

@[simp] theorem okOr_eq_ok {value : Option α} {failure : ε} {result : α} :
    okOr value failure = .ok result ↔ value = some result := by
  cases value <;> simp [okOr]

/-- After a check that is met, the computation goes on. -/
theorem ensure_bind_eq_ok {met : Bool} {failure : ε} {next : Unit → Except ε β} {result : β} :
    ensure met failure >>= next = .ok result ↔ met = true ∧ next () = .ok result := by
  rw [bind_eq_ok]
  constructor
  · rintro ⟨done, hmet, hnext⟩
    exact ⟨ensure_eq_ok.mp hmet, hnext⟩
  · rintro ⟨hmet, hnext⟩
    exact ⟨(), ensure_eq_ok.mpr hmet, hnext⟩

theorem mapAll_cons_eq_ok {f : α → Except ε β} {value : α} {rest : List α} {results : List β} :
    mapAll f (value :: rest) = .ok results ↔
      ∃ result others, f value = .ok result ∧ mapAll f rest = .ok others ∧
        results = result :: others := by
  rw [mapAll, bind_eq_ok]
  refine exists_congr fun result => ?_
  rw [bind_eq_ok]
  constructor
  · rintro ⟨hresult, others, hothers, heq⟩
    exact ⟨others, hresult, hothers, (Except.ok.inj heq).symm⟩
  · rintro ⟨others, hresult, hothers, rfl⟩
    exact ⟨hresult, others, hothers, rfl⟩

theorem mapAll_eq_ok {f : α → Except ε β} {values : List α} {results : List β} :
    mapAll f values = .ok results ↔
      List.Forall₂ (fun value result => f value = .ok result) values results := by
  induction values generalizing results with
  | nil =>
    rw [List.forall₂_nil_left_iff]
    exact ⟨fun h => (Except.ok.inj h).symm, fun h => h ▸ rfl⟩
  | cons value rest ih =>
    rw [List.forall₂_cons_left_iff, mapAll_cons_eq_ok]
    simp only [ih]

/-- A run that succeeds on every element in a known way. -/
theorem mapAll_eq_map {f : α → Except ε β} {g : α → β} {values : List α}
    (h : ∀ value ∈ values, f value = .ok (g value)) : mapAll f values = .ok (values.map g) := by
  rw [mapAll_eq_ok, List.forall₂_map_right_iff, List.forall₂_same]
  exact h

/-- A loop of checks passes exactly when every check does. -/
theorem forM_eq_ok {check : α → Except ε Unit} {values : List α} :
    values.forM check = .ok () ↔ ∀ value ∈ values, check value = .ok () := by
  induction values with
  | nil => exact iff_of_true rfl (by simp)
  | cons value rest ih =>
    rw [List.forall_mem_cons, ← ih]
    exact bind_eq_ok.trans ⟨fun ⟨_, hvalue, hrest⟩ => ⟨hvalue, hrest⟩,
      fun ⟨hvalue, hrest⟩ => ⟨(), hvalue, hrest⟩⟩

section Paired

variable {R : α → β → Prop} {left : List α} {right : List β}

theorem exists_right_of_forall₂ (h : List.Forall₂ R left right) {a : α} (ha : a ∈ left) :
    ∃ b ∈ right, R a b := by
  induction h with
  | nil => cases ha
  | @cons a' b _ _ hab _ ih =>
    rcases List.mem_cons.mp ha with rfl | hrest
    · exact ⟨b, List.mem_cons_self, hab⟩
    · obtain ⟨b', hb', hab'⟩ := ih hrest
      exact ⟨b', List.mem_cons_of_mem b hb', hab'⟩

theorem exists_left_of_forall₂ (h : List.Forall₂ R left right) {b : β} (hb : b ∈ right) :
    ∃ a ∈ left, R a b := exists_right_of_forall₂ (h.flip) hb

/-- Change the relation, where it may depend on the right-hand list. -/
theorem forall₂_imp_of_mem {S : α → β → Prop} (h : List.Forall₂ R left right)
    (himp : ∀ b ∈ right, ∀ a, R a b → S a b) : List.Forall₂ S left right := by
  induction h with
  | nil => exact .nil
  | @cons a b _ _ hab _ ih =>
    exact .cons (himp b List.mem_cons_self a hab)
      (ih fun other hother => himp other (List.mem_cons_of_mem b hother))

/-- Two properties that agree on related elements hold throughout the lists alike. -/
theorem forall_iff_of_forall₂ {P : α → Prop} {Q : β → Prop} (h : List.Forall₂ R left right)
    (hiff : ∀ b ∈ right, ∀ a, R a b → (Q b ↔ P a)) : (∀ b ∈ right, Q b) ↔ ∀ a ∈ left, P a := by
  induction h with
  | nil => simp
  | @cons a b _ _ hab _ ih =>
    rw [List.forall_mem_cons, List.forall_mem_cons, hiff b List.mem_cons_self a hab,
      ih fun other hother => hiff other (List.mem_cons_of_mem b hother)]

/-- Related lists agree on what related elements agree on. -/
theorem map_filter_of_forall₂ {γ : Type} {p : α → Bool} {q : β → Bool} {f : α → γ} {g : β → γ}
    (h : List.Forall₂ R left right) (hsame : ∀ a b, R a b → p a = q b ∧ f a = g b) :
    (left.filter p).map f = (right.filter q).map g := by
  induction h with
  | nil => rfl
  | @cons a b _ _ hab _ ih =>
    obtain ⟨hkeep, hvalue⟩ := hsame a b hab
    rw [List.filter_cons, List.filter_cons, hkeep]
    by_cases hq : q b = true
    · rw [if_pos hq, if_pos hq, List.map_cons, List.map_cons, hvalue, ih]
    · rw [if_neg hq, if_neg hq, ih]

end Paired

end SpecGate.Checked

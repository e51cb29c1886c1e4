import Mathlib

/-!
Computations that change a state as they go and may fail. A failed computation leaves the
state as it was when it failed. Two kinds of facts are carried through a computation: an
invariant that is kept however it ends, and a fact about the value of a computation that
succeeds, which later steps do not disturb.
-/
namespace SpecGate.StepwiseStates

variable {ε σ α β : Type}

/-- Report another error in place of the one that a computation fails with. -/
def mapError (change : ε → ε) (computation : EStateM ε σ α) : EStateM ε σ α := fun state =>
  match computation state with
  | .ok value after => .ok value after
  | .error error after => .error (change error) after

/-- The computation keeps an invariant, however it ends, and fails with such errors only. -/
def Holds (I : σ → Prop) (E : ε → Prop) (computation : EStateM ε σ α) : Prop :=
  ∀ state, I state → match computation state with
    | .ok _ after => I after
    | .error error after => E error ∧ I after

/-- A computation that succeeds ends in a related state, and its value has a property there. -/
def Achieves (R : σ → σ → Prop) (Q : α → σ → Prop) (computation : EStateM ε σ α) : Prop :=
  ∀ state value after, computation state = .ok value after → R state after ∧ Q value after

/-! ### Runs that succeed -/

theorem pure_ok {value found : α} {state after : σ} :
    (pure value : EStateM ε σ α) state = .ok found after ↔ value = found ∧ state = after := by
  show EStateM.Result.ok value state = .ok found after ↔ _
  rw [EStateM.Result.ok.injEq]

theorem bind_run (computation : EStateM ε σ α) (next : α → EStateM ε σ β) (state : σ) :
    (computation >>= next) state = match computation state with
      | .ok value between => next value between
      | .error error between => .error error between := rfl

theorem bind_ok {computation : EStateM ε σ α} {next : α → EStateM ε σ β} {state after : σ}
    {found : β} :
    (computation >>= next) state = .ok found after ↔
      ∃ value between, computation state = .ok value between ∧
        next value between = .ok found after := by
  show EStateM.bind computation next state = _ ↔ _
  unfold EStateM.bind
  cases h : computation state with
  | ok value between =>
    refine ⟨fun hnext => ⟨value, between, rfl, hnext⟩, ?_⟩
    rintro ⟨value', between', hcomputation, hnext⟩
    cases hcomputation
    exact hnext
  | error error between => simp

theorem mapError_ok {change : ε → ε} {computation : EStateM ε σ α} {state after : σ} {value : α} :
    mapError change computation state = .ok value after ↔ computation state = .ok value after := by
  unfold mapError
  cases computation state <;> simp

/-! ### However a run ends -/

section Held

variable {I : σ → Prop} {E : ε → Prop}

theorem holds_pure (value : α) : Holds I E (pure value : EStateM ε σ α) := fun _ h => h

theorem holds_throw {error : ε} (h : E error) : Holds I E (throw error : EStateM ε σ α) :=
  fun _ hstate => ⟨h, hstate⟩

theorem holds_bind {computation : EStateM ε σ α} {next : α → EStateM ε σ β}
    (h : Holds I E computation) (hnext : ∀ value, Holds I E (next value)) :
    Holds I E (computation >>= next) := by
  intro state hI
  show match EStateM.bind computation next state with
    | .ok _ after => I after
    | .error error after => E error ∧ I after
  have hstate := h state hI
  unfold EStateM.bind
  cases hcomputation : computation state with
  | ok value between =>
    rw [hcomputation] at hstate
    exact hnext value between hstate
  | error error between =>
    rw [hcomputation] at hstate
    exact hstate

theorem holds_map (change : α → β) {computation : EStateM ε σ α} (h : Holds I E computation) :
    Holds I E (change <$> computation) := by
  rw [map_eq_pure_bind]
  exact holds_bind h fun value => holds_pure (change value)

theorem holds_mapError {change : ε → ε} (hchange : ∀ error, E error → E (change error))
    {computation : EStateM ε σ α} (h : Holds I E computation) :
    Holds I E (mapError change computation) := by
  intro state hI
  have hstate := h state hI
  unfold mapError
  cases hcomputation : computation state with
  | ok value between =>
    rw [hcomputation] at hstate
    exact hstate
  | error error between =>
    rw [hcomputation] at hstate
    exact ⟨hchange error hstate.1, hstate.2⟩

theorem holds_mapM {step : α → EStateM ε σ β} {values : List α}
    (h : ∀ value ∈ values, Holds I E (step value)) : Holds I E (values.mapM step) := by
  induction values with
  | nil => exact holds_pure []
  | cons value rest ih =>
    rw [List.mapM_cons]
    refine holds_bind (h value List.mem_cons_self) fun found => ?_
    refine holds_bind (ih fun other hother => h other (List.mem_cons_of_mem _ hother)) ?_
    exact fun others => holds_pure (found :: others)

end Held

/-! ### What a run achieves -/

section Achieved

variable {R : σ → σ → Prop}

theorem achieves_pure (hrefl : ∀ state, R state state) {Q : α → σ → Prop} {value : α}
    (h : ∀ state, Q value state) : Achieves R Q (pure value : EStateM ε σ α) := by
  intro state found after hrun
  obtain ⟨rfl, rfl⟩ := pure_ok.mp hrun
  exact ⟨hrefl state, h state⟩

theorem achieves_throw {Q : α → σ → Prop} (error : ε) :
    Achieves R Q (throw error : EStateM ε σ α) := by
  intro state found after hrun
  have hthrow : (EStateM.Result.error error state : EStateM.Result ε σ α) = .ok found after := hrun
  cases hthrow

theorem achieves_bind (htrans : ∀ a b c, R a b → R b c → R a c) {P : α → σ → Prop}
    {Q : β → σ → Prop} (hstable : ∀ value state after, R state after → P value state → P value after)
    {computation : EStateM ε σ α} {next : α → EStateM ε σ β} (h : Achieves R P computation)
    (hnext : ∀ value, Achieves R (fun found state => P value state → Q found state) (next value)) :
    Achieves R Q (computation >>= next) := by
  intro state found after hrun
  obtain ⟨value, between, hcomputation, hfound⟩ := bind_ok.mp hrun
  obtain ⟨hbetween, hvalue⟩ := h state value between hcomputation
  obtain ⟨hafter, hQ⟩ := hnext value between found after hfound
  exact ⟨htrans _ _ _ hbetween hafter, hQ (hstable value between after hafter hvalue)⟩

theorem achieves_imp {P Q : α → σ → Prop} {computation : EStateM ε σ α} (h : Achieves R P computation)
    (himp : ∀ value state, P value state → Q value state) : Achieves R Q computation :=
  fun state value after hrun =>
    ⟨(h state value after hrun).1, himp value after (h state value after hrun).2⟩

/-- A computation followed by a pure one. -/
theorem achieves_return {P : α → σ → Prop} {Q : β → σ → Prop} {computation : EStateM ε σ α}
    {change : α → β} (h : Achieves R P computation)
    (hchange : ∀ value state, P value state → Q (change value) state) :
    Achieves R Q (computation >>= fun value => pure (change value)) := by
  intro state found after hrun
  obtain ⟨value, between, hcomputation, hfound⟩ := bind_ok.mp hrun
  obtain ⟨rfl, rfl⟩ := pure_ok.mp hfound
  obtain ⟨hafter, hvalue⟩ := h state value _ hcomputation
  exact ⟨hafter, hchange value _ hvalue⟩

theorem achieves_mapError {Q : α → σ → Prop} (change : ε → ε) {computation : EStateM ε σ α}
    (h : Achieves R Q computation) : Achieves R Q (mapError change computation) :=
  fun state value after hrun => h state value after (mapError_ok.mp hrun)

/-- The values of a loop have their properties in the state in which it ends. -/
theorem achieves_mapM (hrefl : ∀ state, R state state) (htrans : ∀ a b c, R a b → R b c → R a c)
    {Q : α → β → σ → Prop}
    (hstable : ∀ value found state after, R state after → Q value found state → Q value found after)
    {step : α → EStateM ε σ β} {values : List α} (h : ∀ value ∈ values, Achieves R (Q value) (step value)) :
    Achieves R (fun found state => List.Forall₂ (fun value found => Q value found state) values found)
      (values.mapM step) := by
  induction values with
  | nil => exact achieves_pure hrefl fun _ => List.Forall₂.nil
  | cons value rest ih =>
    intro state found after hrun
    rw [List.mapM_cons] at hrun
    obtain ⟨first, between, hfirst, hrest⟩ := bind_ok.mp hrun
    obtain ⟨others, ended, hothers, hfound⟩ := bind_ok.mp hrest
    obtain ⟨rfl, rfl⟩ := pure_ok.mp hfound
    obtain ⟨hbetween, hvalue⟩ := h value List.mem_cons_self state first between hfirst
    obtain ⟨hended, hall⟩ :=
      ih (fun other hother => h other (List.mem_cons_of_mem _ hother)) between others _ hothers
    exact ⟨htrans _ _ _ hbetween hended, List.Forall₂.cons (hstable value first between _ hended hvalue) hall⟩

end Achieved

/-! ### Loops that fail -/

/-- A loop whose steps carry on a fact about what was done, or fail in a known way. -/
theorem foldlM_ends {step : σ → α → Except ε σ} {E : ε → Prop} {P : List α → σ → Prop}
    {values done : List α} {state : σ}
    (h : ∀ done value state, value ∈ values → P done state →
      (∃ next, step state value = .ok next ∧ P (done ++ [value]) next) ∨
        ∃ error, step state value = .error error ∧ E error) (hstate : P done state) :
    (∃ final, values.foldlM step state = .ok final ∧ P (done ++ values) final) ∨
      ∃ error, values.foldlM step state = .error error ∧ E error := by
  induction values generalizing done state with
  | nil => exact .inl ⟨state, rfl, by rw [List.append_nil]; exact hstate⟩
  | cons value rest ih =>
    rw [List.foldlM_cons]
    rcases h done value state List.mem_cons_self hstate with ⟨next, hnext, hP⟩ | ⟨error, herror, hE⟩
    · rw [hnext, ← List.singleton_append, ← List.append_assoc]
      exact ih (fun done other state hother => h done other state (List.mem_cons_of_mem _ hother)) hP
    · rw [herror]
      exact .inr ⟨error, rfl, hE⟩

end SpecGate.StepwiseStates

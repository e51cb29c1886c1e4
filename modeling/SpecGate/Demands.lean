import Mathlib

/-!
Computations that check as they go. A check that fails is reported as an error, or panics
where the code assumes that it holds. The demands of a computation are its checks in the
order in which it makes them, and the first one that is not met decides how it ends.
-/
namespace SpecGate.Demands

inductive Failure where
  | error (diagnostic : String)
  | panic (message : String)

variable {α β : Type}

def report (met : Bool) (diagnostic : String) : Except Failure Unit :=
  if met then .ok () else .error (.error diagnostic)

/-- The value, which the code assumes to be there. -/
def expect (value : Option α) (message : String) : Except Failure α :=
  match value with
  | some value => .ok value
  | none => .error (.panic message)

inductive Demand where
  | reported (met : Bool)
  | assumed (met : Bool)
  deriving DecidableEq

namespace Demand

def met : Demand → Bool
  | reported met => met
  | assumed met => met

end Demand

def firstUnmet (demands : List Demand) : Option Demand :=
  demands.find? fun demand => !demand.met

/-- The computation ends as the first unmet demand says. -/
def Follows (demands : List Demand) (computation : Except Failure α) : Prop :=
  match firstUnmet demands with
  | none => ∃ value, computation = .ok value
  | some (.reported _) => ∃ diagnostic, computation = .error (.error diagnostic)
  | some (.assumed _) => ∃ message, computation = .error (.panic message)

theorem firstUnmet_eq_none {demands : List Demand} :
    firstUnmet demands = none ↔ ∀ demand ∈ demands, demand.met = true := by
  unfold firstUnmet
  rw [List.find?_eq_none]
  simp

theorem firstUnmet_append (first second : List Demand) :
    firstUnmet (first ++ second) = (firstUnmet first).or (firstUnmet second) := by
  unfold firstUnmet
  exact List.find?_append

theorem follows_ok (value : α) : Follows [] (.ok value : Except Failure α) := ⟨value, rfl⟩

theorem follows_report (met : Bool) (diagnostic : String) :
    Follows [.reported met] (report met diagnostic) := by
  cases met
  · exact ⟨diagnostic, rfl⟩
  · exact ⟨(), rfl⟩

theorem follows_expect (value : Option α) (message : String) :
    Follows [.assumed value.isSome] (expect value message) := by
  cases value with
  | none => exact ⟨message, rfl⟩
  | some value => exact ⟨value, rfl⟩

section Composition

variable {first second : List Demand} {computation : Except Failure α}

theorem Follows.bind {next : α → Except Failure β} (h : Follows first computation)
    (hnext : ∀ value, computation = .ok value → Follows second (next value)) :
    Follows (first ++ second) (computation >>= next) := by
  unfold Follows at h ⊢
  rw [firstUnmet_append]
  cases hfirst : firstUnmet first with
  | none =>
    rw [hfirst] at h
    obtain ⟨value, rfl⟩ := h
    exact hnext value rfl
  | some demand =>
    rw [hfirst] at h
    cases demand with
    | reported _ =>
      obtain ⟨diagnostic, rfl⟩ := h
      exact ⟨diagnostic, rfl⟩
    | assumed _ =>
      obtain ⟨message, rfl⟩ := h
      exact ⟨message, rfl⟩

/-- A computation that ends well demands nothing. -/
theorem Follows.after {next : α → Except Failure β} {value : α} (hvalue : computation = .ok value)
    (h : Follows second (next value)) : Follows second (computation >>= next) := by
  subst hvalue
  exact h

theorem Follows.map (h : Follows first computation) (f : α → β) :
    Follows first (computation.map f) := by
  unfold Follows at h ⊢
  split
  · rename_i hfirst
    rw [hfirst] at h
    obtain ⟨value, rfl⟩ := h
    exact ⟨f value, rfl⟩
  · rename_i hfirst
    rw [hfirst] at h
    obtain ⟨diagnostic, rfl⟩ := h
    exact ⟨diagnostic, rfl⟩
  · rename_i hfirst
    rw [hfirst] at h
    obtain ⟨message, rfl⟩ := h
    exact ⟨message, rfl⟩

/-- What a computation demands does not change when it goes on without further demands. -/
theorem Follows.then_ok {next : α → Except Failure β} (h : Follows first computation)
    (hnext : ∀ value, computation = .ok value → ∃ result, next value = .ok result) :
    Follows first (computation >>= next) := by
  have hbind := h.bind fun value hvalue => (show Follows [] (next value) from hnext value hvalue)
  rwa [List.append_nil] at hbind

theorem Follows.ok_iff (h : Follows first computation) :
    (∃ value, computation = .ok value) ↔ ∀ demand ∈ first, demand.met = true := by
  rw [← firstUnmet_eq_none]
  unfold Follows at h
  cases hfirst : firstUnmet first with
  | none =>
    rw [hfirst] at h
    exact iff_of_true h rfl
  | some demand =>
    rw [hfirst] at h
    refine iff_of_false ?_ (by simp)
    cases demand with
    | reported _ =>
      obtain ⟨diagnostic, rfl⟩ := h
      simp
    | assumed _ =>
      obtain ⟨message, rfl⟩ := h
      simp

/-- The computation panics exactly where the first unmet demand is an assumption. -/
theorem Follows.not_panics_iff (h : Follows first computation) :
    (∀ message, computation ≠ .error (.panic message)) ↔
      ∀ met, firstUnmet first ≠ some (.assumed met) := by
  unfold Follows at h
  cases hfirst : firstUnmet first with
  | none =>
    rw [hfirst] at h
    obtain ⟨value, rfl⟩ := h
    simp
  | some demand =>
    rw [hfirst] at h
    cases demand with
    | reported _ =>
      obtain ⟨diagnostic, rfl⟩ := h
      simp
    | assumed _ =>
      obtain ⟨message, rfl⟩ := h
      simp

end Composition

theorem bind_ok {computation : Except Failure α} {next : α → Except Failure β} {result : β}
    (h : computation >>= next = .ok result) :
    ∃ value, computation = .ok value ∧ next value = .ok result := by
  cases computation with
  | error failure => cases h
  | ok value => exact ⟨value, rfl, h⟩

theorem exists_ok {computation : Except Failure α} (h : computation.toOption.isSome = true) :
    ∃ value, computation = .ok value := by
  cases computation with
  | error failure => cases h
  | ok value => exact ⟨value, rfl⟩

theorem bind_panics {computation : Except Failure α} {next : α → Except Failure β} {message : String}
    (h : computation >>= next = .error (.panic message)) :
    computation = .error (.panic message) ∨
      ∃ value, computation = .ok value ∧ next value = .error (.panic message) := by
  cases computation with
  | error failure => exact .inl (congrArg Except.error (Except.error.inj h))
  | ok value => exact .inr ⟨value, rfl, h⟩

theorem report_ne_panic (met : Bool) (diagnostic message : String) :
    report met diagnostic ≠ .error (.panic message) := by
  unfold report
  split_ifs <;> simp

theorem report_ok {met : Bool} {diagnostic : String} (h : report met diagnostic = .ok ()) :
    met = true := by
  cases met with
  | true => rfl
  | false => cases h

theorem expect_ok {value : Option α} {message : String} {result : α}
    (h : expect value message = .ok result) : value = some result := by
  cases value with
  | none => cases h
  | some found => rw [Except.ok.inj h]

/-- Run over a list and keep the results. -/
def collectOk (f : α → Except Failure β) : List α → Except Failure (List β)
  | [] => .ok []
  | value :: rest => do
      let result ← f value
      let results ← collectOk f rest
      return result :: results

theorem follows_collectOk {f : α → Except Failure β} {demands : α → List Demand}
    {values : List α} (h : ∀ value ∈ values, Follows (demands value) (f value)) :
    Follows (values.flatMap demands) (collectOk f values) := by
  induction values with
  | nil => exact follows_ok []
  | cons value rest ih =>
    rw [List.flatMap_cons]
    refine (h value List.mem_cons_self).bind fun result _ => ?_
    have hrest := ih fun other hother => h other (List.mem_cons_of_mem value hother)
    exact hrest.map fun results => result :: results

end SpecGate.Demands

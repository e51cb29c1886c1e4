import SpecGate.CaptureRuns

/-!
The current operation over runs that close scopes in any order. Closing the scope of the
current operation makes its parent current. If the parent has completed meanwhile, what
comes next is recorded on a completed operation; otherwise nothing ever is.
-/
namespace SpecGate.ActiveOperation

open CaptureSession CaptureEffects CaptureRuns

variable {Value : Type}

/-- The operation has begun and has not completed. -/
def OpenAt (state : State Value) (index : Nat) : Prop :=
  ∃ operation, state.operations[index]? = some operation ∧ operation.status = none

/-- If the scope that ends belongs to the current operation, then the parent of the
operation, if it has one, has not completed. -/
def ReturnsToOpen (session : Session Value) (closes : Option Nat) : Prop :=
  ∀ position ∈ closes, ∀ scope, session.scopes[position]? = some scope →
    session.state.currentOperation = some scope.index → ∀ operation parent,
      session.state.operations[scope.index]? = some operation →
        operation.parentOperation = some parent → OpenAt session.state parent

/-- Nothing is observed on an operation that had completed, and nothing begins below one. -/
structure NoDangling (before after : State Value) : Prop where
  observed : ∀ {index : Nat} {operation operation' : PendingOperation Value},
    before.operations[index]? = some operation → after.operations[index]? = some operation' →
      operation'.observations ≠ operation.observations → operation.status = none
  begun : ∀ {operation : PendingOperation Value} {parent : Nat},
    after.operations[before.operations.length]? = some operation →
      operation.parentOperation = some parent → OpenAt before parent

/-- The current operation is open, and parents are older than their children. -/
structure Active (state : State Value) : Prop where
  current : ∀ index, state.currentOperation = some index → OpenAt state index
  older : ∀ {index parent : Nat} {operation : PendingOperation Value},
    state.operations[index]? = some operation → operation.parentOperation = some parent →
      parent < index

section Moves

variable {before after : State Value}

/-- Up to inputs the operations are the same, one by one. -/
theorem core_at (h : after.operations.map core = before.operations.map core) {index : Nat}
    {operation' : PendingOperation Value} (hafter : after.operations[index]? = some operation') :
    ∃ operation, before.operations[index]? = some operation ∧ core operation' = core operation := by
  have hmap : (after.operations.map core)[index]? = (before.operations.map core)[index]? := by rw [h]
  rw [List.getElem?_map, List.getElem?_map, hafter, Option.map_some] at hmap
  obtain ⟨operation, hoperation, hcore⟩ := Option.map_eq_some_iff.mp hmap.symm
  exact ⟨operation, hoperation, hcore.symm⟩

theorem openAt_of_core (h : after.operations.map core = before.operations.map core) {index : Nat}
    (hopen : OpenAt before index) : OpenAt after index := by
  obtain ⟨operation, hoperation, hstatus⟩ := hopen
  obtain ⟨operation', hoperation', hcore⟩ := core_at h.symm hoperation
  exact ⟨operation', hoperation', (congrArg PendingOperation.status hcore).symm.trans hstatus⟩

theorem Active.of_core (hactive : Active before)
    (h : after.operations.map core = before.operations.map core)
    (hcurrent : ∀ index, after.currentOperation = some index → OpenAt before index) :
    Active after where
  current := fun index hindex => openAt_of_core h (hcurrent index hindex)
  older := fun hoperation hparent => by
    obtain ⟨operation, hbefore, hcore⟩ := core_at h hoperation
    exact hactive.older hbefore ((congrArg PendingOperation.parentOperation hcore).symm.trans hparent)

theorem noDangling_of_core (h : after.operations.map core = before.operations.map core) :
    NoDangling before after where
  observed := fun hbefore hafter hdifferent => by
    obtain ⟨operation, hoperation, hcore⟩ := core_at h hafter
    obtain rfl := Option.some.inj (hbefore.symm.trans hoperation)
    exact absurd (congrArg PendingOperation.observations hcore) hdifferent
  begun := fun hafter _ => by
    have hlength := congrArg List.length h
    rw [List.length_map, List.length_map] at hlength
    have hlt := (List.getElem?_eq_some_iff.mp hafter).1
    omega

theorem Active.begun (hactive : Active before) {operation : PendingOperation Value}
    (h : Begun before after operation) : Active after ∧ NoDangling before after := by
  have hkept : ∀ {index : Nat} {other : PendingOperation Value},
      before.operations[index]? = some other → after.operations[index]? = some other := by
    intro index other hother
    rw [h.operations, List.getElem?_append_left (List.getElem?_eq_some_iff.mp hother).1, hother]
  have hnew : after.operations[before.operations.length]? = some operation := by
    rw [h.operations, List.getElem?_concat_length]
  refine ⟨⟨fun index hindex => ?_, fun {index parent other} hother hparent => ?_⟩,
    ⟨fun {index other other'} hbefore hafter hdifferent => ?_, fun {other parent} hother hparent => ?_⟩⟩
  · rw [h.current, Option.some.injEq] at hindex
    subst hindex
    exact ⟨operation, hnew, h.status⟩
  · rcases Nat.lt_trichotomy index before.operations.length with hlt | rfl | hgt
    · rw [h.operations, List.getElem?_append_left hlt] at hother
      exact hactive.older hother hparent
    · obtain rfl := Option.some.inj (hnew.symm.trans hother)
      rw [h.parent] at hparent
      obtain ⟨found, hfound, -⟩ := hactive.current parent hparent
      exact (List.getElem?_eq_some_iff.mp hfound).1
    · have hlt := (List.getElem?_eq_some_iff.mp hother).1
      rw [h.operations, List.length_append, List.length_singleton] at hlt
      omega
  · obtain rfl := Option.some.inj ((hkept hbefore).symm.trans hafter)
    exact absurd rfl hdifferent
  · obtain rfl := Option.some.inj (hnew.symm.trans hother)
    rw [h.parent] at hparent
    exact hactive.current parent hparent

theorem openAt_modify {index place : Nat} {f : PendingOperation Value → PendingOperation Value}
    {operation : PendingOperation Value} (h : after.operations = before.operations.modify index f)
    (hoperation : before.operations[place]? = some operation)
    (hopen : (if index = place then f operation else operation).status = none) :
    OpenAt after place := by
  refine ⟨_, ?_, hopen⟩
  rw [h]
  exact NestedSpans.getElem?_modify_eq_some.mpr ⟨operation, hoperation, rfl⟩

/-- Operations that change one by one keep their parents. -/
theorem Active.modify (hactive : Active before) {index : Nat}
    {f : PendingOperation Value → PendingOperation Value}
    (h : after.operations = before.operations.modify index f)
    (hparent : ∀ operation, (f operation).parentOperation = operation.parentOperation)
    (hcurrent : ∀ place, after.currentOperation = some place → OpenAt after place) :
    Active after where
  current := hcurrent
  older := fun {place parent operation} hoperation hparent' => by
    rw [h] at hoperation
    obtain ⟨old, hold, rfl⟩ := NestedSpans.getElem?_modify_eq_some.mp hoperation
    refine hactive.older hold ?_
    split_ifs at hparent'
    · rwa [hparent] at hparent'
    · exact hparent'

theorem Active.observed (hactive : Active before) {index : Nat} {observation : Observation Value}
    (h : Observed before after index observation) : Active after ∧ NoDangling before after := by
  obtain ⟨current, hcurrent, hopen⟩ := hactive.current index h.currentBefore
  refine ⟨hactive.modify h.operations (fun _ => rfl) fun place hplace => ?_,
    ⟨fun {place operation operation'} hbefore hafter hdifferent => ?_, fun hafter _ => ?_⟩⟩
  · rw [h.current, Option.some.injEq] at hplace
    subst hplace
    exact openAt_modify h.operations hcurrent (by rw [if_pos rfl]; exact hopen)
  · rw [h.operations] at hafter
    obtain ⟨old, hold, rfl⟩ := NestedSpans.getElem?_modify_eq_some.mp hafter
    obtain rfl := Option.some.inj (hbefore.symm.trans hold)
    by_cases hsame : index = place
    · subst hsame
      obtain rfl := Option.some.inj (hcurrent.symm.trans hold)
      exact hopen
    · rw [if_neg hsame] at hdifferent
      exact absurd rfl hdifferent
  · have hlt := (List.getElem?_eq_some_iff.mp hafter).1
    rw [h.operations, List.length_modify] at hlt
    omega

/-- What is current after a release: what was, or the parent of what was. -/
theorem released_cases {index place : Nat} (h : released before index = some place) :
    (before.currentOperation = some place ∧ place ≠ index) ∨
      (before.currentOperation = some index ∧ ∃ operation,
        before.operations[index]? = some operation ∧ operation.parentOperation = some place) := by
  unfold released at h
  split_ifs at h with hcurrent
  · obtain ⟨operation, hoperation, hparent⟩ := Option.bind_eq_some_iff.mp h
    exact .inr ⟨hcurrent, operation, hoperation, hparent⟩
  · refine .inl ⟨h, fun hsame => ?_⟩
    subst hsame
    exact hcurrent h

theorem Active.released (hactive : Active before) {index place : Nat}
    (hreturns : before.currentOperation = some index → ∀ operation parent,
      before.operations[index]? = some operation → operation.parentOperation = some parent →
        OpenAt before parent)
    (h : released before index = some place) : OpenAt before place ∧ place ≠ index := by
  rcases released_cases h with ⟨hcurrent, hne⟩ | ⟨hcurrent, operation, hoperation, hparent⟩
  · exact ⟨hactive.current place hcurrent, hne⟩
  · have hlt := hactive.older hoperation hparent
    exact ⟨hreturns hcurrent operation place hoperation hparent, by omega⟩

theorem Active.closed (hactive : Active before) {index : Nat}
    {completion : Option (Completion Value)} {endNs : Int} {status : Status}
    (hreturns : before.currentOperation = some index → ∀ operation parent,
      before.operations[index]? = some operation → operation.parentOperation = some parent →
        OpenAt before parent)
    (h : Closed before after index completion endNs status) :
    Active after ∧ NoDangling before after := by
  refine ⟨hactive.modify h.operations (fun _ => rfl) fun place hplace => ?_,
    ⟨fun {place operation operation'} hbefore hafter hdifferent => ?_, fun hafter _ => ?_⟩⟩
  · rw [h.current] at hplace
    obtain ⟨⟨operation, hoperation, hstatus⟩, hne⟩ := hactive.released hreturns hplace
    exact openAt_modify h.operations hoperation (by rw [if_neg (Ne.symm hne)]; exact hstatus)
  · rw [h.operations] at hafter
    obtain ⟨old, hold, rfl⟩ := NestedSpans.getElem?_modify_eq_some.mp hafter
    obtain rfl := Option.some.inj (hbefore.symm.trans hold)
    refine absurd ?_ hdifferent
    split_ifs <;> rfl
  · have hlt := (List.getElem?_eq_some_iff.mp hafter).1
    rw [h.operations, List.length_modify] at hlt
    omega

end Moves

theorem Active.move {before after : Session Value} {closes : Option Nat}
    (hactive : Active before.state) (h : Move before after closes)
    (hreturns : ReturnsToOpen before closes) :
    Active after.state ∧ NoDangling before.state after.state := by
  cases h with
  | quiet h hscopes =>
    exact ⟨hactive.of_core h.operations fun index hindex =>
      hactive.current index (h.current ▸ hindex), noDangling_of_core h.operations⟩
  | begun h hscopes => exact hactive.begun h
  | observed h hscopes => exact hactive.observed h
  | closed hscope h hscopes => exact hactive.closed (hreturns _ rfl _ hscope) h
  | lost hscope h hscopes =>
    have hsame : after.state.operations.map core = before.state.operations.map core := by
      rw [h.operations]
    refine ⟨hactive.of_core hsame fun index hindex => ?_, noDangling_of_core hsame⟩
    exact (hactive.released (hreturns _ rfl _ hscope) (h.current ▸ hindex)).1
  | gone hscope hclosed hstate hscopes =>
    rw [hstate]
    exact ⟨hactive, noDangling_of_core rfl⟩

def orderingConfig : Config where
  scenarioName := "ordering"
  traceId := ⟨"11111111111111111111111111111111", by decide⟩
  runSpanId := ⟨"1111111111111101", by decide⟩
  scenarioSpanId := ⟨"1111111111111102", by decide⟩
  operationIds := [⟨"1111111111111103", by decide⟩, ⟨"1111111111111104", by decide⟩]
  startNs := 1000
  stepNs := 10

/-- Open, and read below it. -/
def nestedReads : List (Action String) :=
  [.begin "store" "open" false (.ok ([], [])), .begin "store" "read" false (.ok ([], []))]

def closeUnit (position : Nat) : Action String := .complete position .unit false (.ok ())

def orderingState : State String where
  config := orderingConfig
  sidecarPath := none
  runStartNs := 1000
  scenarioStart := 1010
  nextTimeNs := 1020
  nextOp := 0
  nextOrder := 0
  currentOperation := none
  operations := []
  terminalError := none

/-- The outer scope ends before the inner one. -/
def crossedCloses : List (Action String) :=
  nestedReads ++ [closeUnit 1, closeUnit 0]

def lateObservation : Action String := .observe "late" "value"

/-- The status of the outer operation and the number of its observations. -/
def outerOperation (session : Session String) : Option (Option Status × Nat) :=
  (session.state.operations[0]?).map fun operation =>
    (operation.status, operation.observations.length)

end SpecGate.ActiveOperation

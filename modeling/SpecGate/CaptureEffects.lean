import SpecGate.CaptureSession
import SpecGate.NestedSpans

/-!
What one call can do to a session: let time pass, begin an operation, observe, close an
operation, or lose one whose close could not be recorded. Every call is one of these.
-/
namespace SpecGate.CaptureEffects

open CaptureSession

variable {Value : Type}

/-- An operation without its inputs. -/
def core (operation : PendingOperation Value) : PendingOperation Value :=
  { operation with inputs := [] }

/-- What becomes of the current operation when the scope of an operation ends. -/
def released (state : State Value) (index : Nat) : Option Nat :=
  if state.currentOperation = some index then
    (state.operations[index]?).bind PendingOperation.parentOperation
  else state.currentOperation

/-- The session goes on: its configuration stays, the clock and the order do not run
back, and a failure stays a failure. -/
structure Forward (before after : State Value) : Prop where
  config : after.config = before.config
  scenarioStart : after.scenarioStart = before.scenarioStart
  time : before.nextTimeNs ≤ after.nextTimeNs
  order : before.nextOrder ≤ after.nextOrder
  failed : after.terminalError = none → before.terminalError = none

theorem Forward.refl (state : State Value) : Forward state state :=
  ⟨rfl, rfl, Int.le_refl _, Nat.le_refl _, id⟩

theorem Forward.trans {a b c : State Value} (hab : Forward a b) (hbc : Forward b c) :
    Forward a c where
  config := hbc.config.trans hab.config
  scenarioStart := hbc.scenarioStart.trans hab.scenarioStart
  time := hab.time.trans hbc.time
  order := hab.order.trans hbc.order
  failed := fun h => hab.failed (hbc.failed h)

theorem forward_fail (state : State Value) (error : CaptureError) :
    Forward state (state.fail error) :=
  ⟨rfl, rfl, Int.le_refl _, Nat.le_refl _, fun h => by simp [State.fail] at h⟩

/-- Only the clock and the order have moved. -/
def Waits (before after : State Value) : Prop :=
  ∃ order timeNs, before.nextOrder ≤ order ∧ before.nextTimeNs ≤ timeNs ∧
    after = { before with nextOrder := order, nextTimeNs := timeNs }

theorem Waits.refl (state : State Value) : Waits state state :=
  ⟨_, _, Nat.le_refl _, Int.le_refl _, rfl⟩

theorem Waits.trans {a b c : State Value} (hab : Waits a b) (hbc : Waits b c) : Waits a c := by
  obtain ⟨order, timeNs, horder, htime, rfl⟩ := hab
  obtain ⟨order', timeNs', horder', htime', rfl⟩ := hbc
  exact ⟨order', timeNs', horder.trans horder', htime.trans htime', rfl⟩

theorem Waits.forward {before after : State Value} (h : Waits before after) :
    Forward before after := by
  obtain ⟨order, timeNs, horder, htime, rfl⟩ := h
  exact ⟨rfl, rfl, htime, horder, id⟩

/-- Nothing is recorded but inputs. -/
structure Quiet (before after : State Value) : Prop where
  forward : Forward before after
  nextOp : after.nextOp = before.nextOp
  current : after.currentOperation = before.currentOperation
  operations : after.operations.map core = before.operations.map core

theorem Quiet.refl (state : State Value) : Quiet state state :=
  ⟨Forward.refl state, rfl, rfl, rfl⟩

theorem Waits.quiet {before after : State Value} (h : Waits before after) :
    Quiet before after := by
  have hforward := h.forward
  obtain ⟨order, timeNs, -, -, rfl⟩ := h
  exact ⟨hforward, rfl, rfl, rfl⟩

/-- An operation begins below the current one and becomes the current one. -/
structure Begun (before after : State Value) (operation : PendingOperation Value) : Prop where
  forward : Forward before after
  nextOp : after.nextOp = before.nextOp + 1
  current : after.currentOperation = some before.operations.length
  operations : after.operations = before.operations ++ [operation]
  spanId : nextSpan before = .ok operation.spanId
  parent : operation.parentOperation = before.currentOperation
  parentSpanId : operation.parentSpanId = ((before.currentOperation.bind
    (before.operations[·]?)).map PendingOperation.spanId).getD before.config.scenarioSpanId
  start : before.nextTimeNs ≤ operation.startNs ∧ operation.startNs < after.nextTimeNs
  order : before.nextOrder ≤ operation.order ∧ operation.order < after.nextOrder
  status : operation.status = none
  endNs : operation.endNs = none
  observations : operation.observations = []
  completion : operation.completion = none

/-- An observation on the current operation. -/
structure Observed (before after : State Value) (index : Nat) (observation : Observation Value) :
    Prop where
  forward : Forward before after
  nextOp : after.nextOp = before.nextOp
  currentBefore : before.currentOperation = some index
  current : after.currentOperation = some index
  operations : after.operations = before.operations.modify index fun operation =>
    { operation with observations := operation.observations ++ [observation] }
  time : before.nextTimeNs ≤ observation.timeNs ∧ observation.timeNs < after.nextTimeNs
  order : before.nextOrder ≤ observation.order ∧ observation.order < after.nextOrder

/-- The order and the time of a completion event. -/
def eventOf : Completion Value → Nat × Int
  | .result order timeNs _ => (order, timeNs)
  | .empty order timeNs => (order, timeNs)
  | .error order timeNs _ _ => (order, timeNs)
  | .fault order timeNs _ _ _ => (order, timeNs)
  | .abandoned order timeNs => (order, timeNs)

/-- An open operation closes. -/
structure Closed (before after : State Value) (index : Nat)
    (completion : Option (Completion Value)) (endNs : Int) (status : Status) : Prop where
  forward : Forward before after
  nextOp : after.nextOp = before.nextOp
  current : after.currentOperation = released before index
  operations : after.operations = before.operations.modify index (close completion endNs status)
  finish : before.nextTimeNs ≤ endNs ∧ endNs < after.nextTimeNs
  stamped : ∀ event, completion = some event →
    before.nextTimeNs ≤ (eventOf event).2 ∧ (eventOf event).2 < endNs ∧
      before.nextOrder ≤ (eventOf event).1 ∧ (eventOf event).1 < after.nextOrder

/-- The scope of an operation ends, and the session fails instead of recording it. -/
structure Lost (before after : State Value) (index : Nat) : Prop where
  forward : Forward before after
  nextOp : after.nextOp = before.nextOp
  current : after.currentOperation = released before index
  operations : after.operations = before.operations
  failed : after.terminalError ≠ none

/-! ### Draws -/

section Draws

variable {state after : State Value}

theorem checkedAdd_eq_some {a b sum : Int} (h : checkedAdd a b = some sum) : sum = a + b := by
  unfold checkedAdd at h
  split_ifs at h
  exact (Option.some.inj h).symm

theorem tick_ok (hstep : 0 < state.config.stepNs) {timeNs : Int}
    (h : state.tick = .ok (timeNs, after)) :
    timeNs = state.nextTimeNs ∧ ∃ next, state.nextTimeNs < next ∧
      after = { state with nextTimeNs := next } := by
  unfold State.tick at h
  cases hnext : checkedAdd state.nextTimeNs state.config.stepNs with
  | none => simp [hnext] at h
  | some next =>
    have hsum := checkedAdd_eq_some hnext
    simp only [hnext, Except.ok.injEq, Prod.mk.injEq] at h
    exact ⟨h.1.symm, next, by omega, h.2.symm⟩

theorem order_ok {order : Nat} (h : state.order = .ok (order, after)) :
    order = state.nextOrder ∧ after = { state with nextOrder := state.nextOrder + 1 } := by
  unfold State.order at h
  split_ifs at h
  simp only [Except.ok.injEq, Prod.mk.injEq] at h
  exact ⟨h.1.symm, h.2.symm⟩

theorem stamp_ok (hstep : 0 < state.config.stepNs) {order : Nat} {timeNs : Int}
    (h : state.stamp = (.ok (order, timeNs), after)) :
    order = state.nextOrder ∧ timeNs = state.nextTimeNs ∧ ∃ next, state.nextTimeNs < next ∧
      after = { state with nextOrder := state.nextOrder + 1, nextTimeNs := next } := by
  unfold State.stamp at h
  cases horder : state.order with
  | error error => simp [horder] at h
  | ok drawn =>
    obtain ⟨drawnOrder, middle⟩ := drawn
    obtain ⟨rfl, rfl⟩ := order_ok horder
    cases htick : ({ state with nextOrder := state.nextOrder + 1 } : State Value).tick with
    | error error => simp [horder, htick] at h
    | ok drawn =>
      obtain ⟨drawnTime, last⟩ := drawn
      obtain ⟨rfl, next, hnext, rfl⟩ := tick_ok (by exact hstep) htick
      simp only [horder, htick, Prod.mk.injEq, Except.ok.injEq] at h
      exact ⟨h.1.1.symm, h.1.2.symm, next, hnext, h.2.symm⟩

theorem stamp_error {error : CaptureError} (h : state.stamp = (.error error, after)) :
    Waits state after := by
  unfold State.stamp at h
  cases horder : state.order with
  | error error =>
    simp only [horder, Prod.mk.injEq] at h
    exact h.2 ▸ Waits.refl state
  | ok drawn =>
    obtain ⟨drawnOrder, middle⟩ := drawn
    obtain ⟨rfl, rfl⟩ := order_ok horder
    cases htick : ({ state with nextOrder := state.nextOrder + 1 } : State Value).tick with
    | error error =>
      simp only [horder, htick, Prod.mk.injEq] at h
      exact ⟨_, _, Nat.le_succ _, Int.le_refl _, h.2.symm⟩
    | ok drawn => simp [horder, htick] at h

theorem stampStart_ok (hstep : 0 < state.config.stepNs) {order : Nat} {timeNs : Int}
    (h : state.stampStart = (.ok (timeNs, order), after)) :
    timeNs = state.nextTimeNs ∧ order = state.nextOrder ∧ ∃ next, state.nextTimeNs < next ∧
      after = { state with nextOrder := state.nextOrder + 1, nextTimeNs := next } := by
  unfold State.stampStart at h
  cases htick : state.tick with
  | error error => simp [htick] at h
  | ok drawn =>
    obtain ⟨drawnTime, middle⟩ := drawn
    obtain ⟨rfl, next, hnext, rfl⟩ := tick_ok hstep htick
    cases horder : ({ state with nextTimeNs := next } : State Value).order with
    | error error => simp [htick, horder] at h
    | ok drawn =>
      obtain ⟨drawnOrder, last⟩ := drawn
      obtain ⟨rfl, rfl⟩ := order_ok horder
      simp only [htick, horder, Prod.mk.injEq, Except.ok.injEq] at h
      exact ⟨h.1.1.symm, h.1.2.symm, next, hnext, h.2.symm⟩

theorem stampStart_error (hstep : 0 < state.config.stepNs) {error : CaptureError}
    (h : state.stampStart = (.error error, after)) : Waits state after := by
  unfold State.stampStart at h
  cases htick : state.tick with
  | error error =>
    simp only [htick, Prod.mk.injEq] at h
    exact h.2 ▸ Waits.refl state
  | ok drawn =>
    obtain ⟨drawnTime, middle⟩ := drawn
    obtain ⟨rfl, next, hnext, rfl⟩ := tick_ok hstep htick
    cases horder : ({ state with nextTimeNs := next } : State Value).order with
    | error error =>
      simp only [htick, horder, Prod.mk.injEq] at h
      exact ⟨_, _, Nat.le_refl _, hnext.le, h.2.symm⟩
    | ok drawn => simp [htick, horder] at h

end Draws

/-! ### Calls -/

section Calls

variable {state after : State Value}

theorem beginActive_cases (hstep : 0 < state.config.stepNs) {componentId operationName : String}
    {folded : Except CaptureError (List (String × Value) × List String)}
    {result : Except CaptureError Nat}
    (h : beginActive state componentId operationName folded = (result, after)) :
    ((∃ error, result = .error error) ∧ Waits state after) ∨
      (result = .ok state.operations.length ∧ state.terminalError = none ∧
        ∃ operation, Begun state after operation) := by
  unfold beginActive at h
  cases hterminal : state.terminalError with
  | some error =>
    simp only [hterminal, Prod.mk.injEq] at h
    exact .inl ⟨⟨error, h.1.symm⟩, h.2 ▸ Waits.refl state⟩
  | none =>
  cases folded with
  | error error =>
    simp only [hterminal, Prod.mk.injEq] at h
    exact .inl ⟨⟨error, h.1.symm⟩, h.2 ▸ Waits.refl state⟩
  | ok folded =>
  cases hspan : nextSpan state with
  | error error =>
    simp only [hterminal, hspan, Prod.mk.injEq] at h
    exact .inl ⟨⟨error, h.1.symm⟩, h.2 ▸ Waits.refl state⟩
  | ok spanId =>
  cases hstart : state.stampStart with
  | mk drawn middle =>
  cases drawn with
  | error error =>
    simp only [hterminal, hspan, hstart, Prod.mk.injEq] at h
    exact .inl ⟨⟨error, h.1.symm⟩, h.2 ▸ stampStart_error hstep hstart⟩
  | ok drawn =>
    obtain ⟨startNs, order⟩ := drawn
    simp only [hterminal, hspan, hstart, Prod.mk.injEq] at h
    obtain ⟨rfl, rfl, next, hnext, rfl⟩ := stampStart_ok hstep hstart
    obtain ⟨rfl, rfl⟩ := h
    exact .inr ⟨rfl, rfl, _,
      { forward := ⟨rfl, rfl, hnext.le, Nat.le_succ _, fun _ => hterminal⟩
        nextOp := rfl
        current := rfl
        operations := rfl
        spanId := hspan
        parent := rfl
        parentSpanId := rfl
        start := ⟨Int.le_refl _, hnext⟩
        order := ⟨Nat.le_refl _, Nat.lt_succ_self _⟩
        status := rfl
        endNs := rfl
        observations := rfl
        completion := rfl }⟩

theorem recordInput_quiet {index : Nat} {name : String}
    {folded : Except CaptureError (List (String × Value))} {result : Except Failure Unit}
    (h : recordInput state index name folded = (result, after)) : Quiet state after := by
  have hinputs : ∀ inputs, Quiet state
      (state.modify index fun operation => { operation with inputs := inputs }) := fun inputs =>
    ⟨⟨rfl, rfl, Int.le_refl _, Nat.le_refl _, id⟩, rfl, rfl, NestedSpans.map_modify_eq fun _ => rfl⟩
  unfold recordInput at h
  cases hoperation : state.operations[index]? with
  | none =>
    simp only [hoperation, Prod.mk.injEq] at h
    exact h.2 ▸ Quiet.refl state
  | some operation =>
    simp only [hoperation] at h
    split_ifs at h
    · exact (Prod.mk.inj h).2 ▸ Quiet.refl state
    · exact (Prod.mk.inj h).2 ▸ Quiet.refl state
    · cases folded with
      | error error => exact (Prod.mk.inj h).2 ▸ Quiet.refl state
      | ok additions =>
        simp only at h
        split at h
        · exact (Prod.mk.inj h).2 ▸ hinputs _
        · exact (Prod.mk.inj h).2 ▸ hinputs _

theorem recordObservation_cases (hstep : 0 < state.config.stepNs) {name : String} {value : Value}
    {result : Except CaptureError Unit}
    (h : recordObservation state name value = (result, after)) :
    Waits state after ∨ ∃ index observation, Observed state after index observation := by
  unfold recordObservation at h
  cases hcurrent : state.currentOperation with
  | none =>
    simp only [hcurrent, Prod.mk.injEq] at h
    exact .inl (h.2 ▸ Waits.refl state)
  | some index =>
    simp only [hcurrent] at h
    split_ifs at h
    · exact .inl ((Prod.mk.inj h).2 ▸ Waits.refl state)
    · cases hstamp : state.stamp with
      | mk stamped middle =>
        cases stamped with
        | error error =>
          simp only [hstamp, Prod.mk.injEq] at h
          exact .inl (h.2 ▸ stamp_error hstamp)
        | ok drawn =>
          obtain ⟨order, timeNs⟩ := drawn
          obtain ⟨rfl, rfl, next, hnext, rfl⟩ := stamp_ok hstep hstamp
          simp only [hstamp, Prod.mk.injEq] at h
          obtain ⟨-, rfl⟩ := h
          exact .inr ⟨index, _,
            { forward := ⟨rfl, rfl, hnext.le, Nat.le_succ _, id⟩
              nextOp := rfl
              currentBefore := hcurrent
              current := hcurrent
              operations := rfl
              time := ⟨Int.le_refl _, hnext⟩
              order := ⟨Nat.le_refl _, Nat.lt_succ_self _⟩ }⟩

/-- The readings a close draws. -/
theorem stampCompletion_ok (hstep : 0 < state.config.stepNs)
    {completion : Option (Nat → Int → Completion Value)} {stamped : Option (Completion Value)}
    (hevent : ∀ event ∈ completion, ∀ order timeNs, eventOf (event order timeNs) = (order, timeNs))
    (h : stampCompletion state completion = (.ok stamped, after)) :
    Waits state after ∧ ∀ event, stamped = some event →
      eventOf event = (state.nextOrder, state.nextTimeNs) ∧
        state.nextOrder < after.nextOrder ∧ state.nextTimeNs < after.nextTimeNs := by
  cases completion with
  | none =>
    simp only [stampCompletion, Prod.mk.injEq, Except.ok.injEq] at h
    obtain ⟨rfl, rfl⟩ := h
    exact ⟨Waits.refl state, by simp⟩
  | some completion =>
    cases hstamp : state.stamp with
    | mk drawn middle =>
      cases drawn with
      | error error => simp [stampCompletion, hstamp] at h
      | ok drawn =>
        obtain ⟨order, timeNs⟩ := drawn
        obtain ⟨rfl, rfl, next, hnext, rfl⟩ := stamp_ok hstep hstamp
        simp only [stampCompletion, hstamp, Prod.mk.injEq, Except.ok.injEq] at h
        obtain ⟨rfl, rfl⟩ := h
        refine ⟨⟨_, _, Nat.le_succ _, hnext.le, rfl⟩, fun event hsome => ?_⟩
        obtain rfl := Option.some.inj hsome
        exact ⟨hevent completion rfl _ _, Nat.lt_succ_self _, hnext⟩

theorem stampCompletion_error {completion : Option (Nat → Int → Completion Value)}
    {error : CaptureError} (h : stampCompletion state completion = (.error error, after)) :
    Waits state after := by
  cases completion with
  | none => simp [stampCompletion] at h
  | some completion =>
    cases hstamp : state.stamp with
    | mk drawn middle =>
      cases drawn with
      | error error =>
        simp only [stampCompletion, hstamp, Prod.mk.injEq] at h
        exact h.2 ▸ stamp_error hstamp
      | ok drawn => simp [stampCompletion, hstamp] at h

/-- Releasing touches the current operation only. -/
theorem release_eq (state : State Value) (index : Nat) :
    state.release index = { state with currentOperation := released state index } := by
  unfold State.release released
  split_ifs <;> rfl

theorem released_congr {before after : State Value} (index : Nat)
    (hcurrent : after.currentOperation = before.currentOperation)
    (hparent : (after.operations[index]?).map PendingOperation.parentOperation =
      (before.operations[index]?).map PendingOperation.parentOperation) :
    released after index = released before index := by
  have hbind : (after.operations[index]?).bind PendingOperation.parentOperation =
      (before.operations[index]?).bind PendingOperation.parentOperation := by
    cases hafter : after.operations[index]? <;> cases hbefore : before.operations[index]? <;>
      simp_all
  rw [released, released, hcurrent, hbind]

/-- Draws for a close, the close itself, and the release. -/
theorem closed_of_draws {middle drawn : State Value} {index : Nat}
    {completion : Option (Completion Value)} {endNs next : Int} {status : Status}
    (hwaits : Waits state middle) (hnext : endNs < next) (hend : endNs = middle.nextTimeNs)
    (hstamped : ∀ event, completion = some event →
      eventOf event = (state.nextOrder, state.nextTimeNs) ∧
        state.nextOrder < middle.nextOrder ∧ state.nextTimeNs < middle.nextTimeNs)
    (hdrawn : drawn = { middle with nextTimeNs := next }) :
    Closed state ((drawn.modify index (close completion endNs status)).release index) index
      completion endNs status := by
  obtain ⟨order, timeNs, horder, htime, rfl⟩ := hwaits
  subst hdrawn hend
  rw [release_eq]
  refine ⟨⟨rfl, rfl, htime.trans hnext.le, horder, id⟩, rfl, ?_, rfl, ⟨htime, hnext⟩, ?_⟩
  · refine released_congr index rfl ?_
    simp only [State.modify, List.getElem?_modify]
    cases state.operations[index]? with
    | none => rfl
    | some operation => simp [close]
  · intro event hsome
    obtain ⟨hevent, hlt, hlt'⟩ := hstamped event hsome
    rw [hevent]
    exact ⟨Int.le_refl _, hlt', Nat.le_refl _, hlt⟩

theorem eventOf_terminal (terminal : NativeTerminal Value) :
    ∀ event ∈ terminal.completion, ∀ order timeNs, eventOf (event order timeNs) = (order, timeNs) := by
  cases terminal <;> simp [NativeTerminal.completion, eventOf, unwound]

theorem recordTerminal_cases (hstep : 0 < state.config.stepNs) {index : Nat}
    {terminal : NativeTerminal Value} {result : Except CaptureError Unit}
    (h : recordTerminal state index terminal = (result, after)) :
    ((∃ error, result = .error error) ∧ Waits state after) ∨
      (result = .ok () ∧ ∃ completion endNs, Closed state after index completion endNs
        terminal.status) := by
  unfold recordTerminal at h
  cases hstamp : stampCompletion state terminal.completion with
  | mk stamped middle =>
  cases stamped with
  | error error =>
    simp only [hstamp, Prod.mk.injEq] at h
    exact .inl ⟨⟨error, h.1.symm⟩, h.2 ▸ stampCompletion_error hstamp⟩
  | ok completion =>
    obtain ⟨hwaits, hstamped⟩ := stampCompletion_ok hstep (eventOf_terminal terminal) hstamp
    have hmiddle : 0 < middle.config.stepNs := hwaits.forward.config ▸ hstep
    cases htick : middle.tick with
    | error error =>
      simp only [hstamp, htick, Prod.mk.injEq] at h
      exact .inl ⟨⟨error, h.1.symm⟩, h.2 ▸ hwaits⟩
    | ok drawn =>
      obtain ⟨endNs, last⟩ := drawn
      obtain ⟨hend, next, hnext, hlast⟩ := tick_ok hmiddle htick
      simp only [hstamp, htick, Prod.mk.injEq] at h
      obtain ⟨rfl, rfl⟩ := h
      exact .inr ⟨rfl, completion, endNs,
        closed_of_draws hwaits (hend ▸ hnext) hend hstamped hlast⟩

/-- A failure while a scope ends, and the release. -/
theorem lost_of_waits {middle : State Value} {index : Nat} (hwaits : Waits state middle)
    (error : CaptureError) : Lost state ((middle.fail error).release index) index := by
  have hforward := hwaits.forward
  obtain ⟨order, timeNs, horder, htime, rfl⟩ := hwaits
  rw [release_eq]
  exact ⟨⟨rfl, rfl, htime, horder, fun h => by simp [State.fail] at h⟩, rfl,
    released_congr index rfl rfl, rfl, by simp [State.fail]⟩

theorem recordDrop_cases (hstep : 0 < state.config.stepNs) (index : Nat) (status : Status)
    (completion : Nat → Int → Completion Value)
    (hevent : ∀ order timeNs, eventOf (completion order timeNs) = (order, timeNs)) :
    (∃ event endNs, Closed state ((recordDrop state index completion status).release index) index
        (some event) endNs status) ∨
      Lost state ((recordDrop state index completion status).release index) index := by
  unfold recordDrop
  cases hstamp : state.stamp with
  | mk stamped middle =>
  cases stamped with
  | error error =>
    have hwaits := stamp_error hstamp
    have hmiddle : 0 < middle.config.stepNs := hwaits.forward.config ▸ hstep
    cases htick : middle.tick with
    | error _ =>
      simp only [htick]
      exact .inr (lost_of_waits hwaits error)
    | ok drawn =>
      obtain ⟨endNs, last⟩ := drawn
      obtain ⟨-, next, hnext, rfl⟩ := tick_ok hmiddle htick
      simp only [htick]
      exact .inr (lost_of_waits (hwaits.trans ⟨_, _, Nat.le_refl _, hnext.le, rfl⟩) error)
  | ok drawn =>
    obtain ⟨order, timeNs⟩ := drawn
    obtain ⟨rfl, rfl, next, hnext, rfl⟩ := stamp_ok hstep hstamp
    have hwaits : Waits state { state with nextOrder := state.nextOrder + 1, nextTimeNs := next } :=
      ⟨_, _, Nat.le_succ _, hnext.le, rfl⟩
    cases htick : ({ state with nextOrder := state.nextOrder + 1, nextTimeNs := next } :
        State Value).tick with
    | error error =>
      simp only [htick]
      exact .inr (lost_of_waits hwaits error)
    | ok drawn =>
      obtain ⟨endNs, last⟩ := drawn
      obtain ⟨hend, later, hlater, hlast⟩ := tick_ok (by exact hstep) htick
      simp only [htick]
      refine .inl ⟨_, endNs, closed_of_draws hwaits (hend ▸ hlater) hend (fun event hsome => ?_) hlast⟩
      obtain rfl := Option.some.inj hsome
      exact ⟨hevent _ _, Nat.lt_succ_self _, hnext⟩

/-- Dropping the scope of an open operation closes it or loses it. -/
theorem dropScope_cases (hstep : 0 < state.config.stepNs) {index : Nat}
    {operation : PendingOperation Value} (hoperation : state.operations[index]? = some operation)
    (hopen : operation.status = none) (abandonable panicking : Bool) :
    (∃ completion endNs status, Closed state (dropScope state index abandonable panicking) index
        completion endNs status) ∨
      Lost state (dropScope state index abandonable panicking) index := by
  have hnone : ¬ operation.status.isSome = true := by simp [hopen]
  unfold dropScope
  simp only [hoperation, if_neg hnone]
  cases panicking with
  | true =>
    rcases recordDrop_cases hstep index .error (unwound : Nat → Int → Completion Value)
      (fun _ _ => rfl) with ⟨event, endNs, hclosed⟩ | hlost
    · exact .inl ⟨_, _, _, hclosed⟩
    · exact .inr hlost
  | false =>
    cases abandonable with
    | true =>
      rcases recordDrop_cases hstep index .unset (Completion.abandoned :
        Nat → Int → Completion Value) (fun _ _ => rfl) with ⟨event, endNs, hclosed⟩ | hlost
      · exact .inl ⟨_, _, _, hclosed⟩
      · exact .inr hlost
    | false => exact .inr (lost_of_waits (Waits.refl state) _)

theorem dropScope_closed {index : Nat} (h : ∀ operation, state.operations[index]? = some operation →
    operation.status ≠ none) (abandonable panicking : Bool) :
    dropScope state index abandonable panicking = state := by
  unfold dropScope
  cases hoperation : state.operations[index]? with
  | none => rfl
  | some operation =>
    have hsome : operation.status.isSome = true := by
      simpa [Option.isSome_iff_ne_none] using h operation hoperation
    simp [hsome]

theorem persistCollector_cases {written : Except String Unit} {result : Except Failure Unit}
    (h : persistCollector state written = (result, after)) :
    after = state ∨ ∃ error, after = state.fail error := by
  unfold persistCollector at h
  split at h
  · exact .inl (Prod.mk.inj h).2.symm
  · split at h
    · exact .inl (Prod.mk.inj h).2.symm
    · split at h
      · exact .inl (Prod.mk.inj h).2.symm
      · exact .inr ⟨_, (Prod.mk.inj h).2.symm⟩

theorem inputsRecorded_cases {written : Except String Unit} {result : Except Failure Unit}
    (h : inputsRecorded state written = (result, after)) :
    after = state ∨ ∃ error, after = state.fail error := by
  unfold inputsRecorded at h
  split_ifs at h
  · exact persistCollector_cases h
  · exact .inl (Prod.mk.inj h).2.symm

theorem inputsRecorded_quiet {written : Except String Unit} {result : Except Failure Unit}
    (h : inputsRecorded state written = (result, after)) : Quiet state after := by
  rcases inputsRecorded_cases h with rfl | ⟨error, rfl⟩
  · exact Quiet.refl _
  · exact ⟨forward_fail state error, rfl, rfl, rfl⟩

theorem Closed.fail {index : Nat} {completion : Option (Completion Value)} {endNs : Int}
    {status : Status} (h : Closed state after index completion endNs status) (error : CaptureError) :
    Closed state (after.fail error) index completion endNs status :=
  ⟨h.forward.trans (forward_fail after error), h.nextOp, h.current, h.operations, h.finish,
    h.stamped⟩

theorem Waits.closed {middle : State Value} (hwaits : Waits state middle) {index : Nat}
    {completion : Option (Completion Value)} {endNs : Int} {status : Status}
    (h : Closed middle after index completion endNs status) :
    Closed state after index completion endNs status := by
  have hforward := hwaits.forward
  obtain ⟨order, timeNs, horder, htime, rfl⟩ := hwaits
  refine ⟨hforward.trans h.forward, h.nextOp, h.current, h.operations,
    ⟨htime.trans h.finish.1, h.finish.2⟩, fun event hevent => ?_⟩
  obtain ⟨hstart, hend, hlow, hhigh⟩ := h.stamped event hevent
  exact ⟨htime.trans hstart, hend, horder.trans hlow, hhigh⟩

theorem Waits.lost {middle : State Value} (hwaits : Waits state middle) {index : Nat}
    (h : Lost middle after index) : Lost state after index := by
  have hforward := hwaits.forward
  obtain ⟨order, timeNs, -, -, rfl⟩ := hwaits
  exact ⟨hforward.trans h.forward, h.nextOp, h.current, h.operations, h.failed⟩

/-- Completing an open operation closes it or loses it. -/
theorem complete_cases (hstep : 0 < state.config.stepNs) {index : Nat}
    {operation : PendingOperation Value} (hoperation : state.operations[index]? = some operation)
    (hopen : operation.status = none) {abandonable panicking : Bool}
    {terminal : NativeTerminal Value} {written : Except String Unit} {result : Except Failure Unit}
    (h : complete state index abandonable panicking terminal written = (result, after)) :
    (∃ completion endNs status, Closed state after index completion endNs status) ∨
      Lost state after index := by
  have hnone : ¬ operation.status.isSome = true := by simp [hopen]
  unfold complete at h
  simp only [hoperation, if_neg hnone] at h
  cases hrecord : recordTerminal state index terminal with
  | mk recorded middle =>
  rcases recordTerminal_cases hstep hrecord with ⟨⟨error, rfl⟩, hwaits⟩ | ⟨rfl, completion, endNs, hclosed⟩
  · simp only [hrecord, Prod.mk.injEq] at h
    obtain ⟨-, rfl⟩ := h
    have hmiddle : 0 < middle.config.stepNs := hwaits.forward.config ▸ hstep
    have hsame : middle.operations[index]? = some operation := by
      obtain ⟨_, _, -, -, rfl⟩ := hwaits
      exact hoperation
    rcases dropScope_cases hmiddle hsame hopen abandonable panicking with
      ⟨completion, endNs, status, hclosed⟩ | hlost
    · exact .inl ⟨_, _, _, hwaits.closed hclosed⟩
    · exact .inr (hwaits.lost hlost)
  · simp only [hrecord] at h
    rcases inputsRecorded_cases h with rfl | ⟨error, rfl⟩
    · exact .inl ⟨_, _, _, hclosed⟩
    · exact .inl ⟨_, _, _, hclosed.fail error⟩

theorem complete_closed {index : Nat} (h : ∀ operation, state.operations[index]? = some operation →
    operation.status ≠ none) (abandonable panicking : Bool) (terminal : NativeTerminal Value)
    (written : Except String Unit) :
    (complete state index abandonable panicking terminal written).2 = state := by
  unfold complete
  cases hoperation : state.operations[index]? with
  | none => rfl
  | some operation =>
    have hsome : operation.status.isSome = true := by
      simpa [Option.isSome_iff_ne_none] using h operation hoperation
    simp [hsome]

end Calls

end SpecGate.CaptureEffects

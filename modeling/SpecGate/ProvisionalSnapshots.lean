import SpecGate.CapturedSessions
import SpecGate.InstrumentedFutures
import SpecGate.SharedSidecars

/-!
Snapshots of a running session. A snapshot closes the open operations of a copy, the last
begun first, and leaves the session as it is. As long as an operation closes only after those
begun below it, and nothing is recorded on a completed operation, the snapshot has the
completed operations as the final capture will have them, and every operation within the
interval of its parent.
-/
namespace SpecGate.ProvisionalSnapshots

open CaptureSession CaptureEffects CaptureRuns ActiveOperation SidecarRuns SharedSidecars

variable {Value : Type}

/-! ### Runs -/

/-- What happens to a session: a call of its user, or a context switch, which makes another
operation the current one. -/
inductive Event (Value : Type) where
  | call (action : Action Value)
  | resume (operation : Option Nat)

def step (session : Session Value) : Event Value → Option (Session Value)
  | .call action => CaptureRuns.step session action
  | .resume operation =>
      some ⟨InstrumentedFutures.setCurrent operation session.state, session.scopes⟩

def run : Session Value → List (Event Value) → Option (Session Value)
  | session, [] => some session
  | session, event :: rest => (step session event).bind fun next => run next rest

/-- The operation that an event closes. A scope that is dropped while nothing panics closes
its operation only if the operation may be abandoned. -/
def closing (session : Session Value) : Event Value → Option Nat
  | .call (.complete position _ _ _) => (session.scopes[position]?).map Scope.index
  | .call (.drop position panicking) =>
      (session.scopes[position]?).bind fun scope =>
        if panicking || scope.abandonable then some scope.index else none
  | _ => none

/-- The event records something on the current operation or begins an operation below it. -/
def records : Event Value → Bool
  | .call (.begin _ _ _ _) => true
  | .call (.observe name _) => !(name == resultObservation || name == faultObservation)
  | _ => false

/-- An operation closes after those begun below it, and what is recorded is recorded on an
open operation or on none. -/
structure Orderly (session : Session Value) (event : Event Value) : Prop where
  closes : ∀ index, closing session event = some index →
    ∀ (child : Nat) (operation : PendingOperation Value),
      session.state.operations[child]? = some operation →
        operation.parentOperation = some index → operation.status ≠ none
  active : records event = true → ∀ index, session.state.currentOperation = some index →
    OpenAt session.state index

/-- Every event of a run is orderly, as long as the session has not failed. -/
def EveryOrderly : Session Value → List (Event Value) → Prop
  | _, [] => True
  | session, event :: rest =>
      (session.state.terminalError = none → Orderly session event) ∧
        ∀ next, step session event = some next → EveryOrderly next rest

/-! ### Intervals -/

/-- An operation without its inputs and observations. -/
def outline (operation : PendingOperation Value) : PendingOperation Value :=
  { operation with inputs := [], observations := [] }

/-- Operations end after they start, and within the intervals of their parents. -/
structure Ordered (state : State Value) : Prop where
  step : 0 < state.config.stepNs
  started : ∀ {index : Nat} {operation : PendingOperation Value},
    state.operations[index]? = some operation → operation.startNs < state.nextTimeNs
  settled : ∀ {index : Nat} {operation : PendingOperation Value},
    state.operations[index]? = some operation → (operation.endNs = none ↔ operation.status = none)
  ended : ∀ {index : Nat} {operation : PendingOperation Value} {endNs : Int},
    state.operations[index]? = some operation → operation.endNs = some endNs →
      endNs < state.nextTimeNs
  below : ∀ {index parent : Nat} {operation : PendingOperation Value},
    state.operations[index]? = some operation → operation.parentOperation = some parent →
      ∃ above, parent < index ∧ state.operations[parent]? = some above ∧
        above.startNs < operation.startNs ∧ ∀ aboveEnd, above.endNs = some aboveEnd →
          ∃ endNs, operation.endNs = some endNs ∧ endNs < aboveEnd

/-- Completed operations stay as they are. -/
def Keeps (before after : State Value) : Prop :=
  ∀ (index : Nat) (operation : PendingOperation Value),
    before.operations[index]? = some operation → operation.status ≠ none →
      after.operations[index]? = some operation

section Steps

variable {before after : State Value}

theorem Keeps.of_eq (h : after.operations = before.operations) : Keeps before after :=
  fun index operation hoperation _ => by rw [h, hoperation]

theorem Keeps.trans {last : State Value} (h : Keeps before after) (hlast : Keeps after last) :
    Keeps before last :=
  fun index operation hoperation hclosed =>
    hlast index operation (h index operation hoperation hclosed) hclosed

/-- Changing an open operation keeps the completed ones. -/
theorem Keeps.modify {index : Nat} {f : PendingOperation Value → PendingOperation Value}
    (hopen : OpenAt before index) (h : after.operations = before.operations.modify index f) :
    Keeps before after := by
  intro other operation hoperation hclosed
  obtain ⟨current, hcurrent, hnone⟩ := hopen
  have hne : index ≠ other := by
    intro hsame
    subst hsame
    obtain rfl := Option.some.inj (hcurrent.symm.trans hoperation)
    exact hclosed hnone
  rw [h, List.getElem?_modify_ne _ _ hne, hoperation]

/-- What two operations have in common that differ in inputs and observations. -/
structure Aligned (operation old : PendingOperation Value) : Prop where
  startNs : operation.startNs = old.startNs
  endNs : operation.endNs = old.endNs
  status : operation.status = old.status
  parentOperation : operation.parentOperation = old.parentOperation

theorem aligned_of_outline {operation old : PendingOperation Value}
    (h : outline operation = outline old) : Aligned operation old := by
  unfold outline at h
  rw [PendingOperation.mk.injEq] at h
  obtain ⟨-, -, -, hparent, -, -, hstart, hend, hstatus, -⟩ := h
  exact ⟨hstart, hend, hstatus, hparent⟩

/-- Up to inputs and observations the operations are the same, one by one. -/
theorem outline_at (h : after.operations.map outline = before.operations.map outline) {index : Nat}
    {operation : PendingOperation Value} (hafter : after.operations[index]? = some operation) :
    ∃ old, before.operations[index]? = some old ∧ Aligned operation old := by
  have hmap : (after.operations.map outline)[index]? = (before.operations.map outline)[index]? := by
    rw [h]
  rw [List.getElem?_map, List.getElem?_map, hafter, Option.map_some] at hmap
  obtain ⟨old, hold, heq⟩ := Option.map_eq_some_iff.mp hmap.symm
  exact ⟨old, hold, aligned_of_outline heq.symm⟩

/-- Inputs and observations do not matter to the intervals. -/
theorem Ordered.of_outline (h : Ordered before) (hforward : Forward before after)
    (hsame : after.operations.map outline = before.operations.map outline) : Ordered after := by
  have htime := hforward.time
  constructor
  · rw [hforward.config]
    exact h.step
  · intro index operation hoperation
    obtain ⟨old, hold, haligned⟩ := outline_at hsame hoperation
    have hlt := h.started hold
    rw [haligned.startNs]
    omega
  · intro index operation hoperation
    obtain ⟨old, hold, haligned⟩ := outline_at hsame hoperation
    rw [haligned.endNs, haligned.status]
    exact h.settled hold
  · intro index operation endNs hoperation hend
    obtain ⟨old, hold, haligned⟩ := outline_at hsame hoperation
    have hlt := h.ended hold (haligned.endNs.symm.trans hend)
    omega
  · intro index parent operation hoperation hparent
    obtain ⟨old, hold, haligned⟩ := outline_at hsame hoperation
    obtain ⟨above, hlt, habove, hstart, hends⟩ :=
      h.below hold (haligned.parentOperation.symm.trans hparent)
    obtain ⟨above', habove', haligned'⟩ := outline_at hsame.symm habove
    rw [haligned.startNs, haligned.endNs]
    refine ⟨above', hlt, habove', ?_, fun aboveEnd haboveEnd => ?_⟩
    · rw [← haligned'.startNs]
      exact hstart
    · exact hends aboveEnd (haligned'.endNs.trans haboveEnd)

theorem Ordered.of_eq (h : Ordered before) (hforward : Forward before after)
    (hsame : after.operations = before.operations) : Ordered after :=
  h.of_outline hforward (by rw [hsame])

/-- An operation that begins below an open one lies within it. -/
theorem Ordered.begun (h : Ordered before) {operation : PendingOperation Value}
    (hbegun : Begun before after operation)
    (hactive : ∀ index, before.currentOperation = some index → OpenAt before index) :
    Ordered after ∧ Keeps before after := by
  have htime := hbegun.forward.time
  have hcases : ∀ {index : Nat} {other : PendingOperation Value},
      after.operations[index]? = some other → before.operations[index]? = some other ∨
        (index = before.operations.length ∧ other = operation) := by
    intro index other hother
    rw [hbegun.operations] at hother
    by_cases hlt : index < before.operations.length
    · rw [List.getElem?_append_left hlt] at hother
      exact .inl hother
    · have hbound := (List.getElem?_eq_some_iff.mp hother).1
      rw [List.length_append, List.length_singleton] at hbound
      obtain rfl : index = before.operations.length := by omega
      rw [List.getElem?_concat_length] at hother
      exact .inr ⟨rfl, (Option.some.inj hother).symm⟩
  have hkept : ∀ {index : Nat} {other : PendingOperation Value},
      before.operations[index]? = some other → after.operations[index]? = some other := by
    intro index other hother
    have hlt := (List.getElem?_eq_some_iff.mp hother).1
    rw [hbegun.operations, List.getElem?_append_left hlt, hother]
  refine ⟨⟨?_, ?_, ?_, ?_, ?_⟩, fun index other hother _ => hkept hother⟩
  · rw [hbegun.forward.config]
    exact h.step
  · intro index other hother
    rcases hcases hother with hold | ⟨-, rfl⟩
    · have hlt := h.started hold
      omega
    · exact hbegun.start.2
  · intro index other hother
    rcases hcases hother with hold | ⟨-, rfl⟩
    · exact h.settled hold
    · simp only [hbegun.endNs, hbegun.status]
  · intro index other endNs hother hend
    rcases hcases hother with hold | ⟨-, rfl⟩
    · have hlt := h.ended hold hend
      omega
    · rw [hbegun.endNs] at hend
      cases hend
  · intro index parent other hother hparent
    rcases hcases hother with hold | ⟨rfl, rfl⟩
    · obtain ⟨above, hlt, habove, hrest⟩ := h.below hold hparent
      exact ⟨above, hlt, hkept habove, hrest⟩
    · rw [hbegun.parent] at hparent
      obtain ⟨above, habove, hopen⟩ := hactive parent hparent
      have hlt := h.started habove
      have hstart := hbegun.start.1
      refine ⟨above, (List.getElem?_eq_some_iff.mp habove).1, hkept habove, by omega, ?_⟩
      intro aboveEnd haboveEnd
      rw [(h.settled habove).mpr hopen] at haboveEnd
      cases haboveEnd

/-- An operation closes within its parent once those below it have closed. -/
theorem Ordered.closed (h : Ordered before) {index : Nat} {completion : Option (Completion Value)}
    {endNs : Int} {status : Status} (hclosed : Closed before after index completion endNs status)
    (hopen : OpenAt before index)
    (hchildren : ∀ (child : Nat) (operation : PendingOperation Value),
      before.operations[child]? = some operation → operation.parentOperation = some index →
        operation.status ≠ none) : Ordered after := by
  have htime := hclosed.forward.time
  obtain ⟨current, hcurrent, hnone⟩ := hopen
  have hat : ∀ {place : Nat} {operation : PendingOperation Value},
      after.operations[place]? = some operation → ∃ old, before.operations[place]? = some old ∧
        operation = if index = place then close completion endNs status old else old := by
    intro place operation hoperation
    rw [hclosed.operations] at hoperation
    obtain ⟨old, hold, rfl⟩ := NestedSpans.getElem?_modify_eq_some.mp hoperation
    exact ⟨old, hold, rfl⟩
  constructor
  · rw [hclosed.forward.config]
    exact h.step
  · intro place operation hoperation
    obtain ⟨old, hold, rfl⟩ := hat hoperation
    have hlt := h.started hold
    split_ifs
    · change old.startNs < after.nextTimeNs
      omega
    · omega
  · intro place operation hoperation
    obtain ⟨old, hold, rfl⟩ := hat hoperation
    split_ifs
    · simp [close]
    · exact h.settled hold
  · intro place operation otherEnd hoperation hend
    obtain ⟨old, hold, rfl⟩ := hat hoperation
    split_ifs at hend
    · obtain rfl := Option.some.inj hend
      exact hclosed.finish.2
    · have hlt := h.ended hold hend
      omega
  · intro place parent operation hoperation hparent
    obtain ⟨old, hold, rfl⟩ := hat hoperation
    have hparentOld : old.parentOperation = some parent := by
      split_ifs at hparent <;> exact hparent
    have hstartOld : (if index = place then close completion endNs status old else old).startNs =
        old.startNs := by split_ifs <;> rfl
    obtain ⟨above, hlt, habove, hstart, hends⟩ := h.below hold hparentOld
    rw [hstartOld]
    by_cases hparentClosed : index = parent
    · -- The parent closes now; the operation below it closed before.
      subst hparentClosed
      refine ⟨close completion endNs status above, hlt, ?_, hstart, fun aboveEnd haboveEnd => ?_⟩
      · rw [hclosed.operations, List.getElem?_modify_eq, habove]
        rfl
      · obtain rfl := Option.some.inj haboveEnd
        rw [if_neg (by omega)]
        have hdone : old.endNs ≠ none := fun hnoEnd =>
          hchildren place old hold hparentOld ((h.settled hold).mp hnoEnd)
        obtain ⟨oldEnd, holdEnd⟩ := Option.ne_none_iff_exists'.mp hdone
        have hbound := h.ended hold holdEnd
        have hfinish := hclosed.finish.1
        exact ⟨oldEnd, holdEnd, by omega⟩
    · refine ⟨above, hlt, ?_, hstart, fun aboveEnd haboveEnd => ?_⟩
      · rw [hclosed.operations, List.getElem?_modify_ne _ _ hparentClosed, habove]
      · obtain ⟨oldEnd, holdEnd, hbound⟩ := hends aboveEnd haboveEnd
        by_cases hself : index = place
        · subst hself
          obtain rfl := Option.some.inj (hcurrent.symm.trans hold)
          rw [(h.settled hold).mpr hnone] at holdEnd
          cases holdEnd
        · rw [if_neg hself]
          exact ⟨oldEnd, holdEnd, hbound⟩

/-- The end of a scope closes its operation, unless it fails the session. -/
theorem Ordered.scopeEnded (h : Ordered before) {index : Nat} (hopen : OpenAt before index)
    (hends : (∃ completion endNs status, Closed before after index completion endNs status) ∨
      Lost before after index)
    (hfine : after.terminalError = none)
    (hchildren : ∀ (child : Nat) (operation : PendingOperation Value),
      before.operations[child]? = some operation → operation.parentOperation = some index →
        operation.status ≠ none) : Ordered after ∧ Keeps before after := by
  rcases hends with ⟨completion, endNs, status, hclosed⟩ | hlost
  · exact ⟨h.closed hclosed hopen hchildren, Keeps.modify hopen hclosed.operations⟩
  · exact absurd hfine hlost.failed

/-- Only an open operation takes inputs. -/
theorem recordInput_operations {index : Nat} {name : String}
    {folded : Except CaptureError (List (String × Value))} {result : Except Failure Unit}
    (h : recordInput before index name folded = (result, after)) :
    after.operations = before.operations ∨ OpenAt before index ∧ ∃ inputs,
      after.operations = before.operations.modify index fun operation =>
        { operation with inputs := inputs } := by
  unfold recordInput at h
  cases hoperation : before.operations[index]? with
  | none =>
    rw [hoperation] at h
    exact .inl (congrArg State.operations (Prod.mk.inj h).2.symm)
  | some operation =>
    rw [hoperation] at h
    dsimp only at h
    by_cases hclosed : operation.status.isSome = true
    · rw [if_pos hclosed] at h
      exact .inl (congrArg State.operations (Prod.mk.inj h).2.symm)
    · rw [if_neg hclosed] at h
      by_cases hfilled : name ∈ operation.filledParameters
      · rw [if_pos hfilled] at h
        exact .inl (congrArg State.operations (Prod.mk.inj h).2.symm)
      · rw [if_neg hfilled] at h
        cases folded with
        | error error => exact .inl (congrArg State.operations (Prod.mk.inj h).2.symm)
        | ok additions =>
          rw [Bool.not_eq_true, Option.isSome_eq_false_iff, Option.isNone_iff_eq_none] at hclosed
          have hopen : OpenAt before index := ⟨operation, hoperation, hclosed⟩
          refine .inr ⟨hopen, (insertInputs operation.inputs additions).1, ?_⟩
          dsimp only at h
          split at h <;> exact congrArg State.operations (Prod.mk.inj h).2.symm

/-- A scope that may not be abandoned fails the session when it is dropped. -/
theorem dropScope_fails {index : Nat} (hopen : OpenAt before index) :
    (dropScope before index false false).terminalError ≠ none := by
  obtain ⟨operation, hoperation, hnone⟩ := hopen
  unfold dropScope
  rw [hoperation]
  dsimp only
  rw [if_neg (by rw [hnone]; decide), release_eq]
  intro hfine
  cases hfine

end Steps

section Runs

variable {session next : Session Value}

theorem step_forward (hstep : 0 < session.state.config.stepNs) {event : Event Value}
    (h : step session event = some next) : Forward session.state next.state := by
  cases event with
  | call action => exact (step_move hstep h).forward
  | resume operation =>
    obtain rfl := Option.some.inj h
    exact ⟨rfl, rfl, Int.le_refl _, Nat.le_refl _, id⟩

/-- An orderly step keeps the intervals and the completed operations. -/
theorem step_ordered (h : Ordered session.state) {event : Event Value}
    (horderly : session.state.terminalError = none → Orderly session event)
    (hstep : step session event = some next) (hfine : next.state.terminalError = none) :
    Ordered next.state ∧ Keeps session.state next.state := by
  have hforward := step_forward h.step hstep
  obtain ⟨hcloses, hactive⟩ := horderly (hforward.failed hfine)
  cases event with
  | resume operation =>
    obtain rfl := Option.some.inj hstep
    exact ⟨h.of_eq hforward rfl, Keeps.of_eq rfl⟩
  | call action =>
  cases action with
  | begin componentId operationName abandonable folded =>
    change CaptureRuns.step session (.begin componentId operationName abandonable folded) =
      some next at hstep
    unfold CaptureRuns.step at hstep
    dsimp only at hstep
    cases hbegin : beginActive session.state componentId operationName folded with
    | mk result after =>
    rcases beginActive_cases h.step hbegin with
      ⟨⟨error, rfl⟩, order, timeNs, -, -, rfl⟩ | ⟨rfl, -, operation, hbegun⟩
    · rw [hbegin] at hstep
      obtain rfl := Option.some.inj hstep
      exact ⟨h.of_eq hforward rfl, Keeps.of_eq rfl⟩
    · rw [hbegin] at hstep
      obtain rfl := Option.some.inj hstep
      exact h.begun hbegun (hactive rfl)
  | input position name folded =>
    obtain ⟨scope, -, rfl⟩ := Option.map_eq_some_iff.mp hstep
    cases hrecorded : recordInput session.state scope.index name folded with
    | mk result after =>
    rw [hrecorded] at hforward
    rcases recordInput_operations hrecorded with hsame | ⟨hopen, inputs, hmodified⟩
    · exact ⟨h.of_eq hforward hsame, Keeps.of_eq hsame⟩
    · refine ⟨h.of_outline hforward ?_, Keeps.modify hopen hmodified⟩
      rw [hmodified]
      exact NestedSpans.map_modify_eq fun _ => rfl
  | inputsRecorded position written =>
    obtain ⟨scope, -, rfl⟩ := Option.map_eq_some_iff.mp hstep
    have hsame : (inputsRecorded session.state written).2.operations =
        session.state.operations := by
      cases hrecorded : inputsRecorded session.state written with
      | mk result after =>
      rcases inputsRecorded_cases hrecorded with rfl | ⟨error, rfl⟩
      · rfl
      · rfl
    exact ⟨h.of_eq hforward hsame, Keeps.of_eq hsame⟩
  | observe name value =>
    obtain rfl := Option.some.inj hstep
    by_cases hreserved : name = resultObservation ∨ name = faultObservation
    · have hsame : (recordObservation session.state name value).2.operations =
          session.state.operations := by
        unfold recordObservation
        cases session.state.currentOperation with
        | none => rfl
        | some index =>
          dsimp only
          rw [if_pos hreserved]
      exact ⟨h.of_eq hforward hsame, Keeps.of_eq hsame⟩
    · cases hrecorded : recordObservation session.state name value with
      | mk result after =>
      rw [hrecorded] at hforward
      rcases recordObservation_cases h.step hrecorded with
        ⟨order, timeNs, -, -, rfl⟩ | ⟨index, observation, hobserved⟩
      · exact ⟨h.of_eq hforward rfl, Keeps.of_eq rfl⟩
      · have hrecords : records (.call (.observe name value)) = true := by
          obtain ⟨hresult, hfault⟩ := not_or.mp hreserved
          simp [records, hresult, hfault]
        refine ⟨h.of_outline hforward ?_, Keeps.modify
          (hactive hrecords index hobserved.currentBefore) hobserved.operations⟩
        rw [hobserved.operations]
        exact NestedSpans.map_modify_eq fun _ => rfl
  | complete position terminal panicking written =>
    obtain ⟨scope, hscope, rfl⟩ := Option.map_eq_some_iff.mp hstep
    rcases open_or_closed session.state scope.index with hopen | hclosed
    · obtain ⟨operation, hoperation, hnone⟩ := hopen
      have hopen : OpenAt session.state scope.index := ⟨operation, hoperation, hnone⟩
      refine h.scopeEnded hopen (complete_cases h.step hoperation hnone rfl) hfine
        (hcloses scope.index ?_)
      unfold closing
      dsimp only
      rw [hscope, Option.map_some]
    · have hsame := congrArg State.operations (complete_closed hclosed scope.abandonable panicking
        terminal written)
      exact ⟨h.of_eq hforward hsame, Keeps.of_eq hsame⟩
  | drop position panicking =>
    obtain ⟨scope, hscope, rfl⟩ := Option.map_eq_some_iff.mp hstep
    rcases open_or_closed session.state scope.index with hopen | hclosed
    · obtain ⟨operation, hoperation, hnone⟩ := hopen
      by_cases hends : (panicking || scope.abandonable) = true
      · have hcases := dropScope_cases h.step hoperation hnone scope.abandonable panicking
        refine h.scopeEnded ⟨operation, hoperation, hnone⟩ hcases hfine (hcloses scope.index ?_)
        unfold closing
        dsimp only
        rw [hscope, Option.bind_some, if_pos hends]
      · rw [Bool.not_eq_true, Bool.or_eq_false_iff] at hends
        have hfails := dropScope_fails ⟨operation, hoperation, hnone⟩
        rw [hends.1, hends.2] at hfine
        exact absurd hfine hfails
    · have hsame := congrArg State.operations (dropScope_closed hclosed scope.abandonable panicking)
      exact ⟨h.of_eq hforward hsame, Keeps.of_eq hsame⟩
  | markError error =>
    obtain rfl := Option.some.inj hstep
    exact ⟨h.of_eq hforward rfl, Keeps.of_eq rfl⟩

theorem run_forward {events : List (Event Value)} (hstep : 0 < session.state.config.stepNs)
    (hrun : run session events = some next) : Forward session.state next.state := by
  induction events generalizing session with
  | nil =>
    obtain rfl := Option.some.inj hrun
    exact Forward.refl _
  | cons event rest ih =>
    obtain ⟨middle, hmiddle, hrest⟩ := Option.bind_eq_some_iff.mp hrun
    have hfirst := step_forward hstep hmiddle
    apply hfirst.trans
    apply ih ?_ hrest
    rw [hfirst.config]
    exact hstep

theorem run_ordered {events : List (Event Value)} (h : Ordered session.state)
    (horderly : EveryOrderly session events) (hrun : run session events = some next)
    (hfine : next.state.terminalError = none) :
    Ordered next.state ∧ Keeps session.state next.state := by
  induction events generalizing session with
  | nil =>
    obtain rfl := Option.some.inj hrun
    exact ⟨h, Keeps.of_eq rfl⟩
  | cons event rest ih =>
    obtain ⟨middle, hmiddle, hrest⟩ := Option.bind_eq_some_iff.mp hrun
    have hstep : 0 < middle.state.config.stepNs := by
      rw [(step_forward h.step hmiddle).config]
      exact h.step
    have hfineMiddle := (run_forward hstep hrest).failed hfine
    obtain ⟨hordered, hkeeps⟩ := step_ordered h horderly.1 hmiddle hfineMiddle
    obtain ⟨hlast, hkept⟩ := ih hordered (horderly.2 middle hmiddle) hrest
    exact ⟨hlast, hkeeps.trans hkept⟩

theorem ordered_start {config : Config} {sidecarPath : Option String}
    {registry : Except CaptureError Unit} {state : State Value}
    (h : start config sidecarPath registry = .ok state) : Ordered state := by
  obtain ⟨hvalid, hconfig, -, -, hoperations, -⟩ := CaptureRuns.start_ok h
  have hnone : ∀ (index : Nat), state.operations[index]? = none := by
    intro index
    rw [hoperations]
    rfl
  constructor
  · rw [hconfig]
    exact stepNs_pos hvalid
  all_goals
    intros
    simp_all

end Runs

/-! ### Closing a copy -/

/-- The entry of an open operation that a snapshot closes. -/
def incompleteSpan (operation : PendingOperation Value) (order : Nat) (timeNs endNs : Int) :
    OperationSpan Value where
  order := operation.order
  spanId := operation.spanId
  parentId := operation.parentSpanId
  componentId := operation.componentId
  operationName := operation.operationName
  startNs := operation.startNs
  endNs := endNs
  status := .error
  inputs := operation.inputs
  observations := operation.observations
  completion := some (incompleteCapture operation.operationName order timeNs)

section Closing

variable {state closed : State Value} {capture : Capture Value}

/-- Closing a list of operations closes the first one, and then the others. -/
theorem closeAll_cons (hstep : 0 < state.config.stepNs) {index : Nat} {rest : List Nat}
    {operation : PendingOperation Value} (hoperation : state.operations[index]? = some operation)
    (h : closeAll state (index :: rest) = .ok closed) :
    ∃ order timeNs endNs middle, Closed state middle index
        (some (incompleteCapture operation.operationName order timeNs)) endNs .error ∧
      closeAll middle rest = .ok closed := by
  unfold closeAll at h
  dsimp only at h
  rw [hoperation] at h
  cases hstamp : state.stamp with
  | mk stamped stampedState =>
  rw [hstamp] at h
  cases stamped with
  | error error => cases h
  | ok drawn =>
  obtain ⟨order, timeNs⟩ := drawn
  obtain ⟨rfl, rfl, next, hnext, rfl⟩ := stamp_ok hstep hstamp
  dsimp only at h
  cases htick : ({ state with nextOrder := state.nextOrder + 1, nextTimeNs := next } : State
      Value).tick with
  | error error =>
    rw [htick] at h
    cases h
  | ok ended =>
  obtain ⟨endNs, last⟩ := ended
  obtain ⟨rfl, later, hlater, rfl⟩ := tick_ok (by exact hstep) htick
  rw [htick] at h
  have hwaits : Waits state
      { state with nextOrder := state.nextOrder + 1, nextTimeNs := endNs } :=
    ⟨_, _, Nat.le_succ _, hnext.le, rfl⟩
  refine ⟨_, _, _, _, closed_of_draws hwaits hlater rfl (fun event hevent => ?_) rfl, h⟩
  obtain rfl := Option.some.inj hevent
  exact ⟨rfl, Nat.lt_succ_self _, hnext⟩

theorem closeAll_append (first second : List Nat) (state : State Value) :
    closeAll state (first ++ second) =
      (closeAll state first).bind fun middle => closeAll middle second := by
  induction first generalizing state with
  | nil => rfl
  | cons index rest ih =>
    simp only [List.cons_append, closeAll]
    cases state.stamp with
    | mk stamped middle =>
    cases stamped with
    | error error => rfl
    | ok drawn =>
    dsimp only
    cases middle.tick with
    | error error => rfl
    | ok ended => exact ih _

theorem closeAll_forward {indices : List Nat} (hstep : 0 < state.config.stepNs)
    (hpresent : ∀ index ∈ indices, index < state.operations.length)
    (h : closeAll state indices = .ok closed) : Forward state closed := by
  induction indices generalizing state with
  | nil =>
    obtain rfl := Except.ok.inj h
    exact Forward.refl _
  | cons index rest ih =>
    have hoperation := List.getElem?_eq_getElem (hpresent index List.mem_cons_self)
    obtain ⟨order, timeNs, endNs, middle, hclosed, hrest⟩ := closeAll_cons hstep hoperation h
    apply hclosed.forward.trans
    apply ih ?_ ?_ hrest
    · rw [hclosed.forward.config]
      exact hstep
    · intro other hother
      rw [hclosed.operations, List.length_modify]
      exact hpresent other (List.mem_cons_of_mem _ hother)

/-- Every operation of the list is closed as incomplete, with readings of its own. -/
theorem closeAll_closes {indices : List Nat} (hstep : 0 < state.config.stepNs)
    (hnodup : indices.Nodup) (hpresent : ∀ index ∈ indices, index < state.operations.length)
    (h : closeAll state indices = .ok closed) {index : Nat} (hindex : index ∈ indices)
    {operation : PendingOperation Value} (hoperation : state.operations[index]? = some operation) :
    ∃ order timeNs endNs, closed.operations[index]? = some (close
        (some (incompleteCapture operation.operationName order timeNs)) endNs .error operation) ∧
      state.nextOrder ≤ order ∧ order < closed.nextOrder ∧
        state.nextTimeNs ≤ timeNs ∧ timeNs < endNs ∧ endNs < closed.nextTimeNs := by
  induction indices generalizing state with
  | nil => cases hindex
  | cons first rest ih =>
    obtain ⟨hnot, hrestNodup⟩ := List.nodup_cons.mp hnodup
    have hfirst := List.getElem?_eq_getElem (hpresent first List.mem_cons_self)
    obtain ⟨order, timeNs, endNs, middle, hclosed, hrest⟩ := closeAll_cons hstep hfirst h
    have hmiddle : 0 < middle.config.stepNs := by
      rw [hclosed.forward.config]
      exact hstep
    have hpresentRest : ∀ other ∈ rest, other < middle.operations.length := by
      intro other hother
      rw [hclosed.operations, List.length_modify]
      exact hpresent other (List.mem_cons_of_mem _ hother)
    have hforward := closeAll_forward hmiddle hpresentRest hrest
    have horder := hforward.order
    have htime := hforward.time
    have horderMiddle := hclosed.forward.order
    have htimeMiddle := hclosed.forward.time
    by_cases hsame : index = first
    · subst hsame
      obtain rfl := Option.some.inj (hfirst.symm.trans hoperation)
      obtain ⟨hstart, hend, hlow, hhigh⟩ := hclosed.stamped _ rfl
      have hfinish := hclosed.finish.2
      change state.nextTimeNs ≤ timeNs at hstart
      change timeNs < endNs at hend
      change state.nextOrder ≤ order at hlow
      change order < middle.nextOrder at hhigh
      refine ⟨order, timeNs, endNs, ?_, hlow, by omega, hstart, hend, by omega⟩
      rw [closeAll_other hrest hnot, hclosed.operations, List.getElem?_modify_eq, hoperation]
      rfl
    · have hmem : index ∈ rest := (List.mem_cons.mp hindex).resolve_left hsame
      have hkept : middle.operations[index]? = some operation := by
        rw [hclosed.operations, List.getElem?_modify_ne _ _ (Ne.symm hsame), hoperation]
      obtain ⟨order', timeNs', endNs', hentry, hlow, hhigh, hstart, hend, hlast⟩ :=
        ih hmiddle hrestNodup hpresentRest hrest hmem hkept
      exact ⟨order', timeNs', endNs', hentry, by omega, hhigh, by omega, hend, hlast⟩

theorem outstanding_sorted (state : State Value) : state.outstanding.Pairwise (· < ·) :=
  List.Pairwise.filter _ List.pairwise_lt_range

theorem outstanding_present {index : Nat} (hindex : index ∈ state.outstanding.reverse) :
    index < state.operations.length := by
  obtain ⟨operation, hoperation, -⟩ := mem_outstanding_iff.mp (List.mem_reverse.mp hindex)
  exact (List.getElem?_eq_some_iff.mp hoperation).1

theorem outstanding_nodup (state : State Value) : state.outstanding.reverse.Nodup := by
  apply List.nodup_reverse.mpr
  exact (outstanding_sorted state).imp fun hlt => Nat.ne_of_lt hlt

/-- The last begun of two open operations is closed first. -/
theorem closeAll_inward (hstep : 0 < state.config.stepNs)
    (h : closeAll state state.outstanding.reverse = .ok closed) {child parent : Nat}
    (hlt : parent < child) {operation above : PendingOperation Value}
    (hoperation : state.operations[child]? = some operation) (hopen : operation.status = none)
    (habove : state.operations[parent]? = some above) (hopenAbove : above.status = none) :
    ∃ order timeNs endNs aboveOrder aboveTimeNs aboveEndNs,
      closed.operations[child]? = some (close
        (some (incompleteCapture operation.operationName order timeNs)) endNs .error operation) ∧
      closed.operations[parent]? = some (close (some (incompleteCapture above.operationName
        aboveOrder aboveTimeNs)) aboveEndNs .error above) ∧
      order < aboveOrder ∧ endNs < aboveTimeNs ∧ aboveTimeNs < aboveEndNs := by
  have hchildMem : child ∈ state.outstanding.reverse :=
    List.mem_reverse.mpr (mem_outstanding_iff.mpr ⟨operation, hoperation, hopen⟩)
  have hparentMem : parent ∈ state.outstanding.reverse :=
    List.mem_reverse.mpr (mem_outstanding_iff.mpr ⟨above, habove, hopenAbove⟩)
  have hsorted := List.pairwise_reverse.mpr (outstanding_sorted state)
  have hnodup := outstanding_nodup state
  obtain ⟨first, second, hsplit⟩ := List.append_of_mem hparentMem
  have hpresent : ∀ index ∈ first ++ parent :: second, index < state.operations.length := by
    intro index hindex
    exact outstanding_present (hsplit ▸ hindex)
  rw [hsplit] at hchildMem hsorted hnodup h
  obtain ⟨hfirst, hsecond, hapart⟩ := List.nodup_append.mp hnodup
  -- What follows the parent was begun before it.
  have hchild : child ∈ first := by
    rcases List.mem_append.mp hchildMem with hmem | hmem
    · exact hmem
    · rcases List.mem_cons.mp hmem with rfl | hlater
      · omega
      · have hbelow := (List.pairwise_cons.mp (List.pairwise_append.mp hsorted).2.1).1 child hlater
        omega
  have hchildNot : child ∉ parent :: second := fun hmem => hapart child hchild child hmem rfl
  have hparentNot : parent ∉ first := fun hmem =>
    hapart parent hmem parent List.mem_cons_self rfl
  rw [closeAll_append] at h
  cases hmiddle : closeAll state first with
  | error error =>
    rw [hmiddle] at h
    cases h
  | ok middle =>
    rw [hmiddle] at h
    have hpresentFirst : ∀ index ∈ first, index < state.operations.length := fun index hindex =>
      hpresent index (List.mem_append_left _ hindex)
    have hforward := closeAll_forward hstep hpresentFirst hmiddle
    obtain ⟨order, timeNs, endNs, hentry, -, horder, -, -, hend⟩ :=
      closeAll_closes hstep hfirst hpresentFirst hmiddle hchild hoperation
    have hmiddleStep : 0 < middle.config.stepNs := by
      rw [hforward.config]
      exact hstep
    have hpresentSecond : ∀ index ∈ parent :: second, index < middle.operations.length := by
      intro index hindex
      have hnotFirst : index ∉ first := fun hmem => hapart index hmem index hindex rfl
      have hbound := hpresent index (List.mem_append_right _ hindex)
      have hsame := closeAll_other hmiddle hnotFirst
      rw [List.getElem?_eq_getElem hbound] at hsame
      exact (List.getElem?_eq_some_iff.mp hsame).1
    have hkept : middle.operations[parent]? = some above := by
      rw [closeAll_other hmiddle hparentNot, habove]
    obtain ⟨aboveOrder, aboveTimeNs, aboveEndNs, hentryAbove, hlow, -, hstart, hfinish, -⟩ :=
      closeAll_closes hmiddleStep hsecond hpresentSecond h List.mem_cons_self hkept
    refine ⟨order, timeNs, endNs, aboveOrder, aboveTimeNs, aboveEndNs, ?_, hentryAbove, by omega,
      by omega, hfinish⟩
    have hclosed : closeAll middle (parent :: second) = .ok closed := h
    rw [closeAll_other hclosed hchildNot, hentry]

/-- A snapshot is the capture of the copy whose open operations have been closed. -/
theorem snapshot_ok (h : snapshot state = .ok capture) :
    ∃ closed, closeAll state state.outstanding.reverse = .ok closed ∧
      build closed = .ok capture := by
  by_cases hopen : state.hasOutstanding = true
  · unfold snapshot at h
    rw [if_pos hopen] at h
    cases hclose : closeOutstanding state with
    | error error =>
      rw [hclose] at h
      cases h
    | ok closed =>
      rw [hclose] at h
      exact ⟨closed, hclose, h⟩
  · have hnone : state.outstanding = [] := by
      apply List.eq_nil_iff_forall_not_mem.mpr
      intro index hindex
      exact hopen (hasOutstanding_iff.mpr ⟨index, mem_outstanding_iff.mp hindex⟩)
    rw [snapshot_eq_build (Bool.not_eq_true _ ▸ hopen)] at h
    refine ⟨state, ?_, h⟩
    rw [hnone]
    rfl

theorem snapshot_fine (hstep : 0 < state.config.stepNs) (h : snapshot state = .ok capture) :
    state.terminalError = none := by
  obtain ⟨closed, hclose, hbuild⟩ := snapshot_ok h
  have hforward := closeAll_forward hstep (fun _ hindex => outstanding_present hindex) hclose
  exact hforward.failed (build_ok hbuild).1

end Closing

/-! ### Snapshots of a running session -/

/-- A snapshot closes the open operations as incomplete, each before the one it was begun
below, and every operation lies within its parent. -/
structure Closes (state : State Value) (capture : Capture Value) : Prop where
  incomplete : ∀ (index : Nat) (operation : PendingOperation Value),
    state.operations[index]? = some operation → operation.status = none →
      ∃ order timeNs endNs,
        capture.operations[index]? = some (incompleteSpan operation order timeNs endNs)
  inward : ∀ (child parent : Nat) (operation : PendingOperation Value),
    state.operations[child]? = some operation → operation.status = none →
      operation.parentOperation = some parent → ∃ above order timeNs endNs aboveOrder aboveTimeNs
        aboveEndNs, state.operations[parent]? = some above ∧ above.status = none ∧
          capture.operations[child]? = some (incompleteSpan operation order timeNs endNs) ∧
          capture.operations[parent]? =
            some (incompleteSpan above aboveOrder aboveTimeNs aboveEndNs) ∧
          order < aboveOrder ∧ endNs < aboveTimeNs
  within : ∀ (child parent : Nat) (operation : PendingOperation Value),
    state.operations[child]? = some operation → operation.parentOperation = some parent →
      ∃ span above, capture.operations[child]? = some span ∧
        capture.operations[parent]? = some above ∧
          above.startNs < span.startNs ∧ span.endNs < above.endNs

/-- A snapshot leaves the session as it is, but for the failure of a write, and it has the
completed operations as any later capture will have them. The later events are the allowed
ones. -/
structure Undisturbed (allowed : Session Value → List (Event Value) → Prop)
    (session : Session Value) : Prop where
  live : ∀ written, (persistCollector session.state written).2 = session.state ∨
    ∃ message, written = .error message ∧
      (persistCollector session.state written).2 = session.state.fail (persistenceFailure message)
  completed : ∀ capture, snapshot session.state = .ok capture → ∀ events last final,
    allowed session events → run session events = some last →
      (snapshot last.state = .ok final ∨ ∃ written, finish last.state written = .ok final) →
        ∀ (index : Nat) (operation : PendingOperation Value),
          session.state.operations[index]? = some operation → operation.status ≠ none →
            ∃ span, capture.operations[index]? = some span ∧
              final.operations[index]? = some span
  closes : ∀ capture, snapshot session.state = .ok capture → Closes session.state capture

section Snapshots

variable {state : State Value} {capture : Capture Value}

/-- Persisting writes the snapshot, and leaves the session but for the failure of the write. -/
theorem persistCollector_eq (state : State Value) (written : Except String Unit) :
    persistCollector state written = match snapshot state, written with
      | .error reason, _ => (.error reason, state)
      | .ok _, .ok _ => (.ok (), state)
      | .ok _, .error message => (.error (.error (persistenceFailure message)),
          state.fail (persistenceFailure message)) := by
  unfold persistCollector snapshot
  cases (if state.hasOutstanding then closeOutstanding state else .ok state) with
  | error error => rfl
  | ok provisional =>
    dsimp only
    cases build provisional with
    | error failure => rfl
    | ok capture => cases written <;> rfl

theorem finish_snapshot {written : Except String Unit}
    (h : finish state written = .ok capture) : snapshot state = .ok capture := by
  obtain ⟨-, hbuild⟩ := CapturedSessions.finish_ok h
  have hclosed : state.hasOutstanding = false := by
    by_contra hopen
    rw [Bool.not_eq_false] at hopen
    obtain ⟨index, operation, hoperation, hnone⟩ := hasOutstanding_iff.mp hopen
    obtain ⟨span, -, hspan⟩ := collect_getElem (build_ok hbuild).2 hoperation
    rw [(span_of_closed hspan).1] at hnone
    cases hnone
  rw [snapshot_eq_build hclosed, hbuild]

/-- The entry of an operation that a snapshot has closed. -/
theorem entry_incomplete {closed : State Value} (hbuild : build closed = .ok capture) {index : Nat}
    {operation : PendingOperation Value} {order : Nat} {timeNs endNs : Int}
    (h : closed.operations[index]? = some (close
      (some (incompleteCapture operation.operationName order timeNs)) endNs .error operation)) :
    capture.operations[index]? = some (incompleteSpan operation order timeNs endNs) := by
  obtain ⟨span, hentry, hspan⟩ := collect_getElem (build_ok hbuild).2 h
  obtain rfl := Option.some.inj hspan
  exact hentry

theorem Ordered.closes (h : Ordered state) (hsnapshot : snapshot state = .ok capture) :
    Closes state capture := by
  obtain ⟨closed, hclose, hbuild⟩ := snapshot_ok hsnapshot
  have hopenMem : ∀ {index : Nat} {operation : PendingOperation Value},
      state.operations[index]? = some operation → operation.status = none →
        index ∈ state.outstanding.reverse := fun hoperation hnone =>
    List.mem_reverse.mpr (mem_outstanding_iff.mpr ⟨_, hoperation, hnone⟩)
  have hcloses := fun {index : Nat} {operation : PendingOperation Value}
      (hoperation : state.operations[index]? = some operation) (hnone : operation.status = none) =>
    closeAll_closes h.step (outstanding_nodup state) (fun _ hindex => outstanding_present hindex)
      hclose (hopenMem hoperation hnone) hoperation
  have hopenAbove : ∀ {child parent : Nat} {operation above : PendingOperation Value},
      state.operations[child]? = some operation → operation.status = none →
        (∀ aboveEnd, above.endNs = some aboveEnd → ∃ endNs, operation.endNs = some endNs ∧
          endNs < aboveEnd) → state.operations[parent]? = some above → above.status = none := by
    intro child parent operation above hoperation hnone hends habove
    by_contra hdone
    obtain ⟨aboveEnd, haboveEnd⟩ :=
      Option.ne_none_iff_exists'.mp (mt (h.settled habove).mp hdone)
    obtain ⟨endNs, hend, -⟩ := hends aboveEnd haboveEnd
    rw [(h.settled hoperation).mpr hnone] at hend
    cases hend
  refine ⟨?_, ?_, ?_⟩
  · intro index operation hoperation hnone
    obtain ⟨order, timeNs, endNs, hentry, -⟩ := hcloses hoperation hnone
    exact ⟨order, timeNs, endNs, entry_incomplete hbuild hentry⟩
  · intro child parent operation hoperation hnone hparent
    obtain ⟨above, hlt, habove, -, hends⟩ := h.below hoperation hparent
    have hopen := hopenAbove hoperation hnone hends habove
    obtain ⟨order, timeNs, endNs, aboveOrder, aboveTimeNs, aboveEndNs, hentry, hentryAbove,
      horder, htime, -⟩ := closeAll_inward h.step hclose hlt hoperation hnone habove hopen
    exact ⟨above, order, timeNs, endNs, aboveOrder, aboveTimeNs, aboveEndNs, habove, hopen,
      entry_incomplete hbuild hentry, entry_incomplete hbuild hentryAbove, horder, htime⟩
  · intro child parent operation hoperation hparent
    obtain ⟨above, hlt, habove, hstart, hends⟩ := h.below hoperation hparent
    by_cases hnone : operation.status = none
    · have hopen := hopenAbove hoperation hnone hends habove
      obtain ⟨order, timeNs, endNs, aboveOrder, aboveTimeNs, aboveEndNs, hentry, hentryAbove,
        -, htime, hfinish⟩ := closeAll_inward h.step hclose hlt hoperation hnone habove hopen
      refine ⟨_, _, entry_incomplete hbuild hentry, entry_incomplete hbuild hentryAbove, hstart, ?_⟩
      change endNs < aboveEndNs
      omega
    · obtain ⟨span, hentry, hspan⟩ := snapshot_shows hsnapshot hoperation hnone
      have hshows := CapturedSessions.shows_of_span hspan
      by_cases hopen : above.status = none
      · obtain ⟨order, timeNs, endNs, hentryAbove, -, -, hlow, hfinish, -⟩ := hcloses habove hopen
        have hended := h.ended hoperation hshows.endNs
        refine ⟨span, _, hentry, entry_incomplete hbuild hentryAbove, ?_, ?_⟩
        · rw [hshows.startNs]
          exact hstart
        · change span.endNs < endNs
          omega
      · obtain ⟨spanAbove, hentryAbove, hspanAbove⟩ := snapshot_shows hsnapshot habove hopen
        have hshowsAbove := CapturedSessions.shows_of_span hspanAbove
        obtain ⟨endNs, hend, hbefore⟩ := hends _ hshowsAbove.endNs
        obtain rfl := Option.some.inj (hend.symm.trans hshows.endNs)
        refine ⟨span, spanAbove, hentry, hentryAbove, ?_, hbefore⟩
        rw [hshows.startNs, hshowsAbove.startNs]
        exact hstart

end Snapshots

/-- A snapshot of a session that any orderly run has reached does not disturb it. -/
theorem snapshots_undisturbed {config : Config} {sidecarPath : Option String}
    {registry : Except CaptureError Unit} {state : State Value}
    (hstart : start config sidecarPath registry = .ok state) {events : List (Event Value)}
    (horderly : EveryOrderly ⟨state, []⟩ events) {session : Session Value}
    (hrun : run ⟨state, []⟩ events = some session) : Undisturbed EveryOrderly session := by
  have hstarted := ordered_start hstart
  have hstep : 0 < session.state.config.stepNs := by
    rw [(run_forward hstarted.step hrun).config]
    exact hstarted.step
  have hordered : ∀ {capture : Capture Value}, snapshot session.state = .ok capture →
      Ordered session.state := fun hsnapshot =>
    (run_ordered hstarted horderly hrun (snapshot_fine hstep hsnapshot)).1
  refine ⟨fun written => ?_, ?_, fun capture hsnapshot => (hordered hsnapshot).closes hsnapshot⟩
  · rw [persistCollector_eq]
    cases snapshot session.state with
    | error failure => exact .inl rfl
    | ok capture =>
      cases written with
      | ok _ => exact .inl rfl
      | error message => exact .inr ⟨message, rfl, rfl⟩
  · intro capture hsnapshot later last final hlater hrunLater hfinal index operation hoperation
      hclosed
    have hfinalSnapshot : snapshot last.state = .ok final := by
      rcases hfinal with hlast | ⟨written, hfinish⟩
      · exact hlast
      · exact finish_snapshot hfinish
    have hlastStep : 0 < last.state.config.stepNs := by
      rw [(run_forward hstep hrunLater).config]
      exact hstep
    have hkeeps := (run_ordered (hordered hsnapshot) hlater hrunLater
      (snapshot_fine hlastStep hfinalSnapshot)).2
    obtain ⟨span, hentry, hspan⟩ := snapshot_shows hsnapshot hoperation hclosed
    obtain ⟨span', hentry', hspan'⟩ :=
      snapshot_shows hfinalSnapshot (hkeeps index operation hoperation hclosed) hclosed
    obtain rfl := Option.some.inj (hspan.symm.trans hspan')
    exact ⟨span, hentry, hentry'⟩

/-- Open, read below it, and close what was read. -/
def readNested : List (Event String) := (nestedReads ++ [closeUnit 0]).map .call

theorem snapshots_undisturbed_nested :
    ∃ state session, start orderingConfig none (.ok ()) = .ok state ∧
      run ⟨state, []⟩ readNested = some session ∧ Undisturbed EveryOrderly session := by
  refine ⟨orderingState, _, rfl, rfl,
    @snapshots_undisturbed _ orderingConfig none (.ok ()) orderingState rfl readNested ?_ _ rfl⟩
  refine ⟨fun _ => ⟨fun index hindex => (by cases hindex), fun _ index hindex => ?_⟩,
    fun first hfirst => ?_⟩
  · cases hindex
  obtain rfl := Option.some.inj hfirst
  refine ⟨fun _ => ⟨fun index hindex => (by cases hindex), fun _ index hindex => ?_⟩,
    fun second hsecond => ?_⟩
  · obtain rfl := Option.some.inj hindex
    exact ⟨_, rfl, rfl⟩
  obtain rfl := Option.some.inj hsecond
  refine ⟨fun _ => ⟨fun index hindex child operation hoperation hparent => ?_,
    fun hrecords => (by cases hrecords)⟩, fun third hthird => trivial⟩
  obtain rfl := Option.some.inj hindex
  match child with
  | 0 =>
    obtain rfl := Option.some.inj hoperation
    cases hparent
  | 1 =>
    obtain rfl := Option.some.inj hoperation
    cases hparent
  | _ + 2 => cases hoperation

/-! ### Scopes closed out of order -/

/-- The number of observations of the outer operation in a capture. -/
def outerObservations (capture : Capture String) : Option Nat :=
  (capture.operations[0]?).map fun span => span.observations.length

/-- After the outer scope has been closed first, an observation changes the completed outer
operation that an earlier snapshot has. -/
theorem completed_operation_changed :
    ¬ ∀ (config : Config) (sidecarPath : Option String) (registry : Except CaptureError Unit)
      (state : State String), start config sidecarPath registry = .ok state →
      ∀ (events : List (Event String)) (session : Session String),
        run ⟨state, []⟩ events = some session → Undisturbed (fun _ _ => True) session := by
  intro h
  have hbefore : (run ⟨orderingState, []⟩ (crossedCloses.map .call)).bind (fun session =>
      (snapshot session.state).toOption.bind fun capture =>
        (outerOperation session).bind fun outer =>
          (outerObservations capture).map fun count => (outer, count)) =
      some ((some .ok, 0), 0) := by decide +kernel
  have hafter : (run ⟨orderingState, []⟩ (crossedCloses.map .call)).bind (fun session =>
      (run session [.call lateObservation]).bind fun last =>
        (snapshot last.state).toOption.bind outerObservations) = some 1 := by decide +kernel
  obtain ⟨session, hsession, hbefore⟩ := Option.bind_eq_some_iff.mp hbefore
  rw [hsession, Option.bind_some] at hafter
  obtain ⟨capture, hcapture, hbefore⟩ := Option.bind_eq_some_iff.mp hbefore
  obtain ⟨outer, houter, hbefore⟩ := Option.bind_eq_some_iff.mp hbefore
  obtain ⟨count, hcount, hpair⟩ := Option.map_eq_some_iff.mp hbefore
  obtain ⟨rfl, rfl⟩ := Prod.mk.inj hpair
  obtain ⟨last, hlast, hafter⟩ := Option.bind_eq_some_iff.mp hafter
  obtain ⟨final, hfinal, hone⟩ := Option.bind_eq_some_iff.mp hafter
  obtain ⟨operation, hoperation, hstatus⟩ := Option.map_eq_some_iff.mp houter
  have hclosed : operation.status ≠ none := by
    rw [(Prod.mk.inj hstatus).1]
    exact Option.some_ne_none _
  have hsnapshot : snapshot session.state = .ok capture := by
    cases hresult : snapshot session.state with
    | error failure =>
      rw [hresult] at hcapture
      cases hcapture
    | ok result =>
      rw [hresult] at hcapture
      rw [Option.some.inj hcapture]
  have hlater : snapshot last.state = .ok final := by
    cases hresult : snapshot last.state with
    | error failure =>
      rw [hresult] at hfinal
      cases hfinal
    | ok result =>
      rw [hresult] at hfinal
      rw [Option.some.inj hfinal]
  obtain ⟨span, hentry, hentry'⟩ := (h orderingConfig none (.ok ()) orderingState rfl
    (crossedCloses.map .call) session hsession).completed capture hsnapshot [.call lateObservation]
      last final trivial hlast (.inl hlater) 0 operation hoperation hclosed
  unfold outerObservations at hcount hone
  rw [hentry, Option.map_some, Option.some.injEq] at hcount
  rw [hentry', Option.map_some, Option.some.injEq] at hone
  omega

end SpecGate.ProvisionalSnapshots

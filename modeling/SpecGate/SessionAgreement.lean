import SpecGate.ClrSessions
import SpecGate.ParallelPolls

/-!
The sessions of the two runtimes on the same operations. As long as the clock runs they move
together: they draw the same identities, orders and readings, and an open operation of one is
an open operation of the other. Once the clock of one cannot go on, neither can that of the
other, and neither session yields a capture any more.
-/
namespace SpecGate.SessionAgreement

open CaptureSession CaptureEffects SidecarRuns PollSchedules Collecting
open ClrSessions hiding PendingOperation
open ParallelPolls (Chain)

variable {Value : Type}

/-! ### The native session -/

/-- The session of the native runtime, with the operations that are open, the latest first. -/
structure NativeFlow (Value : Type) where
  state : State Value
  scopes : List Nat

/-- The terminal that a scope is completed with; an abandoned one is dropped. -/
def native : Terminal Value → Option (NativeTerminal Value)
  | .unit => some .unit
  | .result value => some (.result value)
  | .empty => some .empty
  | .error name value => some (.error name value)
  | .fault => some .fault
  | .abandoned => none

/-- End an operation; the flag says whether its scope may be dropped. -/
def endOperation (state : State Value) (index : Nat) (abandonable : Bool)
    (terminal : Terminal Value) : State Value :=
  match native terminal with
  | some terminal => (complete state index abandonable false terminal (.ok ())).2
  | none => dropScope state index true false

def NativeFlow.step (abandonable : Nat → Bool) (flow : NativeFlow Value) :
    Step Value → Option (NativeFlow Value)
  | .begin component operation inputs =>
      match beginActive flow.state component operation (.ok (inputs, [])) with
      | (.error _, state) => some { flow with state := state }
      | (.ok index, state) => some ⟨state, index :: flow.scopes⟩
  | .observe name value =>
      some { flow with state := (recordObservation flow.state name value).2 }
  | .complete terminal =>
      match flow.scopes with
      | [] => none
      | index :: rest => some ⟨endOperation flow.state index (abandonable index) terminal, rest⟩

def NativeFlow.run (abandonable : Nat → Bool) :
    NativeFlow Value → List (Step Value) → Option (NativeFlow Value)
  | flow, [] => some flow
  | flow, step :: rest => (flow.step abandonable step).bind fun next => next.run abandonable rest

/-! ### The clock -/

section Clock

variable {state : State Value}

theorem checkedAdd_le {a b sum : Int} (h : checkedAdd a b = some sum) : sum ≤ maxI64 := by
  have hsum := checkedAdd_eq_some h
  unfold checkedAdd at h
  split_ifs at h with hrange
  omega

/-- The clock of a session cannot be read any more. -/
def Spent (timeNs stepNs : Int) : Prop := checkedAdd timeNs stepNs = none

/-- The configuration and the clock are as before. -/
def SameClock (before after : State Value) : Prop :=
  after.config = before.config ∧ after.nextTimeNs = before.nextTimeNs

theorem SameClock.trans {a b c : State Value} (h : SameClock a b) (h' : SameClock b c) :
    SameClock a c := ⟨h'.1.trans h.1, h'.2.trans h.2⟩

theorem SameClock.spent {before after : State Value} (h : SameClock before after)
    (hspent : Spent before.nextTimeNs before.config.stepNs) :
    Spent after.nextTimeNs after.config.stepNs := by
  unfold Spent
  rw [h.1, h.2]
  exact hspent

theorem tick_spent (h : Spent state.nextTimeNs state.config.stepNs) :
    state.tick = .error clockOverflow := by
  unfold State.tick
  rw [h]

theorem order_sameClock {order : Nat} {after : State Value} (h : state.order = .ok (order, after)) :
    SameClock state after := by
  obtain ⟨-, rfl⟩ := order_ok h
  exact ⟨rfl, rfl⟩

theorem stamp_spent (h : Spent state.nextTimeNs state.config.stepNs) :
    (∃ error, state.stamp.1 = .error error) ∧ SameClock state state.stamp.2 := by
  unfold State.stamp
  cases horder : state.order with
  | error error => exact ⟨⟨error, rfl⟩, rfl, rfl⟩
  | ok drawn =>
    have hclock : SameClock state drawn.2 := order_sameClock horder
    dsimp only
    rw [tick_spent (hclock.spent h)]
    exact ⟨⟨_, rfl⟩, hclock⟩

theorem begin_spent (h : Spent state.nextTimeNs state.config.stepNs)
    (componentId operationName : String)
    (folded : Except CaptureError (List (String × Value) × List String)) :
    (∃ error, beginActive state componentId operationName folded = (.error error, state)) := by
  have hstart : state.stampStart = (.error clockOverflow, state) := by
    unfold State.stampStart
    rw [tick_spent h]
  unfold beginActive
  cases state.terminalError with
  | some error => exact ⟨error, rfl⟩
  | none =>
    cases folded with
    | error error => exact ⟨error, rfl⟩
    | ok inputs =>
      cases hspan : nextSpan state with
      | error error => exact ⟨error, rfl⟩
      | ok spanId =>
        dsimp only
        rw [hstart]
        exact ⟨_, rfl⟩

theorem recordTerminal_spent (h : Spent state.nextTimeNs state.config.stepNs) (index : Nat)
    (terminal : NativeTerminal Value) :
    (∃ error, (recordTerminal state index terminal).1 = .error error) ∧
      SameClock state (recordTerminal state index terminal).2 := by
  obtain ⟨⟨error, hstamp⟩, hclock⟩ := stamp_spent h
  unfold recordTerminal
  cases hcompletion : terminal.completion with
  | none =>
    dsimp only [stampCompletion]
    rw [tick_spent h]
    exact ⟨⟨_, rfl⟩, rfl, rfl⟩
  | some completion =>
    dsimp only [stampCompletion]
    cases hdrawn : state.stamp with
    | mk stamped after =>
      rw [hdrawn] at hstamp hclock
      obtain rfl := hstamp
      exact ⟨⟨error, rfl⟩, hclock⟩

theorem release_sameClock (state : State Value) (index : Nat) :
    SameClock state (state.release index) := by
  rw [release_eq]
  exact ⟨rfl, rfl⟩

theorem dropScope_spent (h : Spent state.nextTimeNs state.config.stepNs) (index : Nat)
    (abandonable panicking : Bool) :
    SameClock state (dropScope state index abandonable panicking) := by
  obtain ⟨⟨error, hstamp⟩, hclock⟩ := stamp_spent h
  have hdrop : ∀ completion status, SameClock state (recordDrop state index completion status) := by
    intro completion status
    unfold recordDrop
    cases hdrawn : state.stamp with
    | mk stamped after =>
      rw [hdrawn] at hstamp hclock
      obtain rfl := hstamp
      dsimp only
      rw [tick_spent (hclock.spent h)]
      exact hclock
  unfold dropScope
  cases state.operations[index]? with
  | none => exact ⟨rfl, rfl⟩
  | some operation =>
    dsimp only
    split_ifs with hclosed hpanic habandon
    · exact ⟨rfl, rfl⟩
    · exact (hdrop _ _).trans (release_sameClock _ _)
    · exact (hdrop _ _).trans (release_sameClock _ _)
    · exact SameClock.trans ⟨rfl, rfl⟩ (release_sameClock _ _)

theorem persist_written (state : State Value) : (inputsRecorded state (.ok ())).2 = state := by
  unfold inputsRecorded
  by_cases hpath : state.sidecarPath.isSome = true
  · rw [if_pos hpath, persistCollector]
    cases (if state.hasOutstanding then closeOutstanding state else .ok state) with
    | error error => rfl
    | ok provisional =>
      dsimp only
      cases build provisional with
      | error failure => rfl
      | ok capture => rfl
  · rw [if_neg hpath]

/-- Completing an open operation records its terminal, or drops its scope. -/
theorem complete_open {index : Nat} {operation : PendingOperation Value}
    (hoperation : state.operations[index]? = some operation) (hopen : operation.status = none)
    (abandonable : Bool) (terminal : NativeTerminal Value) :
    (complete state index abandonable false terminal (.ok ())).2 =
      match recordTerminal state index terminal with
      | (.error _, after) => dropScope after index abandonable false
      | (.ok _, after) => after := by
  unfold complete
  rw [hoperation]
  dsimp only
  rw [if_neg (by rw [hopen]; exact Bool.false_ne_true)]
  cases hterminal : recordTerminal state index terminal with
  | mk recorded after =>
    cases recorded with
    | error error => rfl
    | ok _ => exact persist_written after

theorem complete_spent (h : Spent state.nextTimeNs state.config.stepNs) (index : Nat)
    (abandonable : Bool) (terminal : NativeTerminal Value) :
    SameClock state (complete state index abandonable false terminal (.ok ())).2 := by
  cases hoperation : state.operations[index]? with
  | none =>
    unfold complete
    rw [hoperation]
    exact ⟨rfl, rfl⟩
  | some operation =>
    cases hstatus : operation.status with
    | some status =>
      unfold complete
      rw [hoperation]
      dsimp only
      rw [if_pos (by rw [hstatus]; rfl)]
      exact ⟨rfl, rfl⟩
    | none =>
      rw [complete_open hoperation hstatus]
      obtain ⟨⟨error, hfailed⟩, hclock⟩ := recordTerminal_spent h index terminal
      cases hterminal : recordTerminal state index terminal with
      | mk recorded after =>
        rw [hterminal] at hfailed hclock
        obtain rfl := hfailed
        exact hclock.trans (dropScope_spent (hclock.spent h) index abandonable false)

theorem endOperation_spent (h : Spent state.nextTimeNs state.config.stepNs) (index : Nat)
    (abandonable : Bool) (terminal : Terminal Value) :
    SameClock state (endOperation state index abandonable terminal) := by
  unfold endOperation
  cases native terminal with
  | some terminal => exact complete_spent h index abandonable terminal
  | none => exact dropScope_spent h index true false

theorem build_spent (h : Spent state.nextTimeNs state.config.stepNs) :
    (build state).toOption = none := by
  unfold build
  cases state.terminalError with
  | some error => rfl
  | none =>
    dsimp only
    rw [h]
    rfl

theorem closeOutstanding_spent (h : Spent state.nextTimeNs state.config.stepNs)
    (hopen : state.hasOutstanding = true) : ∃ error, closeOutstanding state = .error error := by
  obtain ⟨⟨error, hstamp⟩, -⟩ := stamp_spent h
  obtain ⟨index, hindex⟩ := hasOutstanding_iff.mp hopen
  have hmem : index ∈ state.outstanding.reverse :=
    List.mem_reverse.mpr (mem_outstanding_iff.mpr hindex)
  unfold closeOutstanding
  cases hindices : state.outstanding.reverse with
  | nil =>
    rw [hindices] at hmem
    cases hmem
  | cons first rest =>
    unfold closeAll
    cases hdrawn : state.stamp with
    | mk stamped after =>
      rw [hdrawn] at hstamp
      obtain rfl := hstamp
      exact ⟨error, rfl⟩

theorem snapshot_spent (h : Spent state.nextTimeNs state.config.stepNs) :
    (SidecarRuns.snapshot state).toOption = none := by
  unfold SidecarRuns.snapshot
  by_cases hopen : state.hasOutstanding = true
  · obtain ⟨error, hclose⟩ := closeOutstanding_spent h hopen
    rw [if_pos hopen, hclose]
    rfl
  · rw [if_neg hopen]
    exact build_spent h

end Clock

/-! ### The clock of the other session -/

section ClrClock

variable {session : Session Value}

theorem clr_tick_spent (h : Spent session.nextTimeNs session.config.stepNs) :
    session.tick = none := by
  unfold Session.tick
  rw [h]
  rfl

theorem clr_begin_spent (h : Spent session.nextTimeNs session.config.stepNs)
    (component operation : String) (parent : Option SpanId) :
    session.begin component operation parent = none := by
  unfold Session.begin
  rw [clr_tick_spent h]
  cases session.nextSpanId <;> rfl

theorem clr_complete_spent (h : Spent session.nextTimeNs session.config.stepNs) (index : Nat)
    (completion : Option (Nat → Int → Completion Value)) :
    Spent (session.complete index completion).nextTimeNs
      (session.complete index completion).config.stepNs := by
  unfold Session.complete
  cases completion with
  | none =>
    dsimp only
    rw [clr_tick_spent h]
    exact h
  | some completion =>
    unfold Session.order
    dsimp only
    split_ifs
    · have hdrawn : ({ session with nextOrder := session.nextOrder + 1 } : Session Value).tick =
          none := clr_tick_spent h
      dsimp only
      rw [hdrawn]
      exact h
    · exact h

theorem buildCapture_spent {operations : List (OperationSpan Value)} {timeNs : Int}
    (h : Spent timeNs session.config.stepNs) : session.buildCapture operations timeNs = none := by
  unfold Session.buildCapture
  rw [h]
  rfl

/-- Once the clock is spent nothing that is open can be projected. -/
theorem projectOpen_spent {indices : List Nat} {timeNs next : Int} {order : Nat}
    {projected last : Nat → Option (OperationSpan Value)} (h : Spent timeNs session.config.stepNs)
    (hproject : session.projectOpen indices timeNs order projected = some (next, last)) :
    next = timeNs := by
  induction indices with
  | nil => exact (congrArg Prod.fst (Option.some.inj hproject)).symm
  | cons index rest ih =>
    unfold Session.projectOpen at hproject
    obtain ⟨operation, -, hproject⟩ := Option.bind_eq_some_iff.mp hproject
    by_cases hclosed : operation.status.isSome = true
    · rw [if_pos hclosed] at hproject
      exact ih hproject
    · rw [if_neg hclosed, h] at hproject
      cases hproject

theorem clr_snapshot_spent (h : Spent session.nextTimeNs session.config.stepNs) :
    session.snapshot = none := by
  unfold Session.snapshot
  cases hproject : session.projectOpen (List.range session.operations.length).reverse
      session.nextTimeNs session.nextOrder fun _ => none with
  | none => rfl
  | some drawn =>
    obtain ⟨next, projected⟩ := drawn
    obtain rfl := projectOpen_spent h hproject
    rw [Option.bind_some]
    dsimp only
    cases Session.buildSpans projected 0 session.operations with
    | none => rfl
    | some operations => exact buildCapture_spent h

theorem clr_finish_spent (h : Spent session.nextTimeNs session.config.stepNs) :
    session.finish = none := by
  unfold Session.finish
  split_ifs
  · rfl
  · rfl
  · cases Session.buildSpans (fun _ => none) 0 session.operations with
    | none => rfl
    | some operations => exact buildCapture_spent h

end ClrClock

/-! ### Sessions in step -/

/-- A native operation as the other session holds it. -/
def shown (operation : PendingOperation Value) : ClrSessions.PendingOperation Value where
  order := operation.order
  spanId := operation.spanId
  parentSpanId := operation.parentSpanId
  componentId := operation.componentId
  operationName := operation.operationName
  startNs := operation.startNs
  inputs := operation.inputs
  completion := operation.completion
  endNs := operation.endNs.getD 0
  status := operation.status

/-- An operation that has started by a time, and has ended if it is closed. -/
structure Timed (now : Int) (operation : PendingOperation Value) : Prop where
  started : operation.startNs ≤ now
  unobserved : operation.observations = []
  ended : ∀ status, operation.status = some status → status = spanStatus operation.completion ∧
    ∃ endNs, operation.endNs = some endNs ∧ operation.startNs ≤ endNs

/-- Both sessions have drawn the same, and hold the same operations. -/
structure Synced (state : State Value) (session : Session Value) (scopes : List Nat) : Prop where
  stepNs : 0 < state.config.stepNs
  config : session.config = state.config
  runStart : session.runStartNs = state.runStartNs
  scenarioStart : session.scenarioStartNs = state.scenarioStart
  time : session.nextTimeNs = state.nextTimeNs
  order : session.nextOrder = state.nextOrder
  nextOp : session.nextOp = state.nextOp
  operations : session.operations = state.operations.map shown
  sound : state.terminalError = none
  timed : ∀ operation ∈ state.operations, Timed state.nextTimeNs operation
  current : state.currentOperation = scopes.head?
  chain : Chain state none scopes
  scopesOnce : scopes.Nodup
  drawn : (state.nextOrder : Int) ≤ state.nextTimeNs
  bounded : state.nextTimeNs ≤ maxI64
  boundaries : state.runStartNs ≤ state.scenarioStart ∧ state.scenarioStart ≤ state.nextTimeNs

theorem Timed.later {now later : Int} {operation : PendingOperation Value} (h : Timed now operation)
    (hle : now ≤ later) : Timed later operation :=
  ⟨h.started.trans hle, h.unobserved, h.ended⟩

section Draws

variable {state : State Value} {session : Session Value} {scopes : List Nat}

theorem Synced.order_bound (h : Synced state session scopes) : state.nextOrder + 1 ≤ maxU64 := by
  have hdrawn := h.drawn
  have hbounded := h.bounded
  unfold maxI64 at hbounded
  unfold maxU64
  omega

theorem stamp_exact (hbound : state.nextOrder + 1 ≤ maxU64) {next : Int}
    (hnext : checkedAdd state.nextTimeNs state.config.stepNs = some next) :
    state.stamp = (.ok (state.nextOrder, state.nextTimeNs),
      { state with nextOrder := state.nextOrder + 1, nextTimeNs := next }) := by
  unfold State.stamp State.order
  rw [if_pos hbound]
  dsimp only [State.tick]
  rw [hnext]

theorem tick_exact {next : Int} (hnext : checkedAdd state.nextTimeNs state.config.stepNs = some next) :
    state.tick = .ok (state.nextTimeNs, { state with nextTimeNs := next }) := by
  unfold State.tick
  rw [hnext]

theorem clr_tick_exact {next : Int}
    (hnext : checkedAdd session.nextTimeNs session.config.stepNs = some next) :
    session.tick = some (session.nextTimeNs, { session with nextTimeNs := next }) := by
  unfold Session.tick
  rw [hnext]
  rfl

theorem clr_order_exact (hbound : session.nextOrder + 1 ≤ maxU64) :
    session.order = some (session.nextOrder, { session with nextOrder := session.nextOrder + 1 }) :=
  if_pos hbound

/-- The fresh identities are those with a positive number. -/
theorem freshSpan_agrees (taken : List String) (fuel candidate : Nat) (hpos : 0 < candidate) :
    (freshSpan taken fuel candidate).toOption = freshOrdinal taken fuel candidate := by
  induction fuel generalizing candidate with
  | zero => rfl
  | succ fuel ih =>
    unfold freshSpan freshOrdinal
    split_ifs
    · exact ih (candidate + 1) (Nat.succ_pos _)
    · unfold fromOrdinal
      rw [if_neg (Nat.ne_of_gt hpos)]

theorem Synced.nextSpan_agrees (h : Synced state session scopes) :
    (nextSpan state).toOption = session.nextSpanId := by
  have hreserved : session.config.runSpanId.text :: session.config.scenarioSpanId.text ::
      session.operations.map (fun operation => operation.spanId.text) = reserved state := by
    rw [h.config, h.operations, List.map_map]
    rfl
  unfold nextSpan Session.nextSpanId
  rw [hreserved, h.nextOp]
  by_cases hsupplied : state.nextOp < session.config.operationIds.length
  · rw [dif_pos hsupplied]
    have hsame : state.config.operationIds[state.nextOp]? =
        some session.config.operationIds[state.nextOp] := by
      rw [← h.config]
      exact List.getElem?_eq_getElem hsupplied
    rw [hsame]
    rfl
  · rw [dif_neg hsupplied]
    have hnone : state.config.operationIds[state.nextOp]? = none := by
      rw [← h.config]
      exact List.getElem?_eq_none (Nat.le_of_not_lt hsupplied)
    rw [hnone]
    exact freshSpan_agrees _ _ _ (Nat.succ_pos _)

/-- The span of the operation entered last. -/
theorem Synced.parent (h : Synced state session scopes) :
    (scopes.head?.bind (session.operations[·]?)).map ClrSessions.PendingOperation.spanId =
      (state.currentOperation.bind (state.operations[·]?)).map CaptureSession.PendingOperation.spanId := by
  rw [h.current, h.operations]
  cases scopes.head? with
  | none => rfl
  | some index =>
    rw [Option.bind_some, Option.bind_some, List.getElem?_map, Option.map_map]
    rfl

end Draws

/-! ### What the end of an operation draws -/

section Endings

variable {state : State Value} {index : Nat} {operation : PendingOperation Value}

theorem ended_unit (hoperation : state.operations[index]? = some operation)
    (hopen : operation.status = none) (abandonable : Bool) {next : Int}
    (hnext : checkedAdd state.nextTimeNs state.config.stepNs = some next) :
    endOperation state index abandonable .unit =
      (({ state with nextTimeNs := next }).modify index (close none state.nextTimeNs .ok)).release
        index := by
  have hterminal : recordTerminal state index .unit = (.ok (),
      (({ state with nextTimeNs := next }).modify index
        (close none state.nextTimeNs .ok)).release index) := by
    unfold recordTerminal
    dsimp only [NativeTerminal.completion, stampCompletion]
    rw [tick_exact hnext]
    rfl
  unfold endOperation native
  dsimp only
  rw [complete_open hoperation hopen, hterminal]

theorem recordTerminal_stamped {terminal : NativeTerminal Value}
    {completion : Nat → Int → Completion Value} (hcompletion : terminal.completion = some completion)
    (hbound : state.nextOrder + 1 ≤ maxU64) {first : Int}
    (hfirst : checkedAdd state.nextTimeNs state.config.stepNs = some first) :
    recordTerminal state index terminal =
      match checkedAdd first state.config.stepNs with
      | none => (.error clockOverflow,
          { state with nextOrder := state.nextOrder + 1, nextTimeNs := first })
      | some second => (.ok (), (({ state with
          nextOrder := state.nextOrder + 1
          nextTimeNs := second }).modify index (close
            (some (completion state.nextOrder state.nextTimeNs)) first terminal.status)).release
            index) := by
  unfold recordTerminal
  rw [hcompletion]
  dsimp only [stampCompletion]
  rw [stamp_exact hbound hfirst]
  dsimp only [State.tick]
  cases checkedAdd first state.config.stepNs with
  | none => rfl
  | some second => rfl

theorem dropScope_stamped (hoperation : state.operations[index]? = some operation)
    (hopen : operation.status = none) (hbound : state.nextOrder + 1 ≤ maxU64) {first : Int}
    (hfirst : checkedAdd state.nextTimeNs state.config.stepNs = some first) :
    dropScope state index true false =
      match checkedAdd first state.config.stepNs with
      | none => (({ state with nextOrder := state.nextOrder + 1, nextTimeNs := first }).fail
          clockOverflow).release index
      | some second => (({ state with
          nextOrder := state.nextOrder + 1
          nextTimeNs := second }).modify index (close
            (some (.abandoned state.nextOrder state.nextTimeNs)) first .unset)).release index := by
  unfold dropScope
  rw [hoperation]
  dsimp only
  rw [if_neg (by rw [hopen]; exact Bool.false_ne_true), if_neg Bool.false_ne_true, if_pos rfl]
  unfold recordDrop
  rw [stamp_exact hbound hfirst]
  dsimp only [State.tick]
  cases checkedAdd first state.config.stepNs with
  | none => rfl
  | some second => rfl

/-- The native terminal of a stamped ending has the same completion and its status. -/
theorem native_completion {terminal : Terminal Value} {recorded : NativeTerminal Value}
    (hnative : native terminal = some recorded) : recorded.completion = terminal.completion ∧
      ∀ completion, terminal.completion = some completion → ∀ order timeNs,
        recorded.status = requiredStatus (completion order timeNs) := by
  cases terminal with
  | abandoned => cases hnative
  | unit =>
    cases hnative
    exact ⟨rfl, fun _ hcompletion => by cases hcompletion⟩
  | result value | empty | error name value | fault =>
    cases hnative
    refine ⟨rfl, fun completion hcompletion order timeNs => ?_⟩
    cases hcompletion
    rfl

/-- An ending with a completion draws an order and two readings, or uses up the clock. -/
theorem ended_stamped (hoperation : state.operations[index]? = some operation)
    (hopen : operation.status = none) (abandonable : Bool) {terminal : Terminal Value}
    {completion : Nat → Int → Completion Value} (hcompletion : terminal.completion = some completion)
    (hbound : state.nextOrder + 1 ≤ maxU64) {first : Int}
    (hfirst : checkedAdd state.nextTimeNs state.config.stepNs = some first) :
    (checkedAdd first state.config.stepNs = none →
      SameClock { state with nextTimeNs := first } (endOperation state index abandonable terminal)) ∧
    ∀ second, checkedAdd first state.config.stepNs = some second →
      endOperation state index abandonable terminal = (({ state with
        nextOrder := state.nextOrder + 1
        nextTimeNs := second }).modify index (close
          (some (completion state.nextOrder state.nextTimeNs)) first
            (requiredStatus (completion state.nextOrder state.nextTimeNs)))).release index := by
  unfold endOperation
  cases hnative : native terminal with
  | some recorded =>
    obtain ⟨hsame, hstatus⟩ := native_completion hnative
    have hrecorded :=
      @recordTerminal_stamped _ _ index _ _ (hsame.trans hcompletion) hbound _ hfirst
    dsimp only
    rw [complete_open hoperation hopen, hrecorded]
    constructor
    · intro hsecond
      rw [hsecond]
      have hspent : Spent first state.config.stepNs := hsecond
      exact SameClock.trans ⟨rfl, rfl⟩ (dropScope_spent hspent index abandonable false)
    · intro second hsecond
      rw [hsecond, hstatus completion hcompletion state.nextOrder state.nextTimeNs]
  | none =>
    have hdropped := dropScope_stamped hoperation hopen hbound hfirst
    have habandoned : terminal = .abandoned := by
      cases terminal <;> first | rfl | cases hnative
    subst habandoned
    cases hcompletion
    dsimp only
    rw [hdropped]
    constructor
    · intro hsecond
      rw [hsecond]
      exact SameClock.trans ⟨rfl, rfl⟩ (release_sameClock _ _)
    · intro second hsecond
      rw [hsecond]
      rfl

end Endings

/-! ### Steps -/

section Steps

variable {state after : State Value} {session : Session Value} {scopes : List Nat}

theorem modify_concat {α : Type} (values : List α) (value : α) (f : α → α) :
    (values ++ [value]).modify values.length f = values ++ [f value] := by
  induction values with
  | nil => rfl
  | cons first rest ih => exact congrArg (first :: ·) ih

theorem map_modify_shown {operations : List (PendingOperation Value)} {index : Nat}
    {f : PendingOperation Value → PendingOperation Value}
    {g : ClrSessions.PendingOperation Value → ClrSessions.PendingOperation Value}
    (h : ∀ operation, operations[index]? = some operation → shown (f operation) = g (shown operation)) :
    (operations.modify index f).map shown = (operations.map shown).modify index g := by
  apply List.ext_getElem?
  intro place
  rw [List.getElem?_map, List.getElem?_modify, List.getElem?_modify, List.getElem?_map]
  cases hplace : operations[place]? with
  | none => rfl
  | some operation =>
    by_cases hsame : index = place
    · subst hsame
      simp only [if_pos, Option.map_some]
      exact congrArg some (h operation hplace)
    · simp only [if_neg hsame, Option.map_some]
      rfl

theorem timed_modify {operations : List (PendingOperation Value)} {index : Nat}
    {f : PendingOperation Value → PendingOperation Value} {now later : Int}
    (h : ∀ operation ∈ operations, Timed now operation) (hle : now ≤ later)
    (hf : ∀ operation, Timed now operation → Timed later (f operation)) :
    ∀ operation ∈ operations.modify index f, Timed later operation := by
  intro operation hmem
  rcases mem_modify hmem with hold | ⟨old, hold, rfl⟩
  · exact (h operation hold).later hle
  · exact hf old (h old hold)

theorem checkedAdd_step (hstep : 0 < state.config.stepNs) {now next : Int}
    (hnext : checkedAdd now state.config.stepNs = some next) : now < next ∧ next ≤ maxI64 := by
  have hsum := checkedAdd_eq_some hnext
  have hle := checkedAdd_le hnext
  exact ⟨by omega, hle⟩

/-- An operation that ends in both sessions, with the same completion at the same time. -/
theorem Synced.ended (h : Synced state session scopes) {index : Nat} {rest : List Nat}
    (hscopes : scopes = index :: rest) (order : Nat) (completion : Option (Completion Value))
    {endNs next : Int} (hstart : state.nextTimeNs ≤ endNs) (hend : endNs ≤ next)
    (hnext : next ≤ maxI64) (horder : (order : Int) ≤ next) :
    Synced
      ((({ state with nextOrder := order, nextTimeNs := next }).modify index
        (close completion endNs (spanStatus completion))).release index)
      (({ session with nextOrder := order, nextTimeNs := next }).modify index
        fun operation => operation.complete completion endNs) rest := by
  subst hscopes
  have hheld := h.chain.1
  obtain ⟨operation, hoperation, hopen, hparent⟩ := hheld
  obtain ⟨hnot, honce⟩ := List.nodup_cons.mp h.scopesOnce
  have hle : state.nextTimeNs ≤ next := hstart.trans hend
  rw [release_eq]
  constructor
  case stepNs => exact h.stepNs
  case config => exact h.config
  case runStart => exact h.runStart
  case scenarioStart => exact h.scenarioStart
  case time => rfl
  case order => rfl
  case nextOp => exact h.nextOp
  case operations =>
    show session.operations.modify index _ = (state.operations.modify index _).map shown
    rw [h.operations]
    exact (map_modify_shown fun _ _ => rfl).symm
  case sound => exact h.sound
  case timed =>
    refine timed_modify h.timed hle fun old hold => ⟨hold.started.trans hle, hold.unobserved, ?_⟩
    intro status hstatus
    cases hstatus
    exact ⟨rfl, endNs, rfl, hold.started.trans hstart⟩
  case current =>
    show released _ index = rest.head?
    unfold released
    have hcurrent : state.currentOperation = some index := h.current
    refine (if_pos hcurrent).trans ?_
    show ((state.operations.modify index _)[index]?).bind _ = _
    rw [List.getElem?_modify_eq, hoperation]
    show operation.parentOperation = rest.head?
    rw [hparent, Option.or_none]
  case chain =>
    refine h.chain.2.mono fun other hmem parent hother => ?_
    obtain ⟨found, hfound, hstatus, hfoundParent⟩ := hother
    have hne : index ≠ other := by
      rintro rfl
      exact hnot hmem
    refine ⟨found, ?_, hstatus, hfoundParent⟩
    show (state.operations.modify index _)[other]? = some found
    rw [List.getElem?_modify_ne _ _ hne, hfound]
  case scopesOnce => exact honce
  case drawn => exact horder
  case bounded => exact hnext
  case boundaries => exact ⟨h.boundaries.1, h.boundaries.2.trans hle⟩

/-- Both sessions are in step, or the clock of neither goes on. -/
structure Agrees (native : NativeFlow Value) (clr : Flow Value) : Prop where
  scopes : clr.scopes = native.scopes
  sessions : Synced native.state clr.session native.scopes ∨
    (Spent native.state.nextTimeNs native.state.config.stepNs ∧
      Spent clr.session.nextTimeNs clr.session.config.stepNs)

/-- The end of an operation, while the sessions are in step. -/
theorem Synced.completed (h : Synced state session scopes) {index : Nat} {rest : List Nat}
    (hscopes : scopes = index :: rest) (abandonable : Bool) (terminal : Terminal Value) :
    Agrees ⟨endOperation state index abandonable terminal, rest⟩
      ⟨session.complete index terminal.completion, rest⟩ := by
  have hheld := h.chain
  rw [hscopes] at hheld
  obtain ⟨operation, hoperation, hopen, -⟩ := hheld.1
  refine ⟨rfl, ?_⟩
  have hsame : checkedAdd session.nextTimeNs session.config.stepNs =
      checkedAdd state.nextTimeNs state.config.stepNs := by
    rw [h.time, h.config]
  cases hfirst : checkedAdd state.nextTimeNs state.config.stepNs with
  | none =>
    exact .inr ⟨(endOperation_spent hfirst index abandonable terminal).spent hfirst,
      clr_complete_spent (hsame.trans hfirst) index _⟩
  | some first =>
    rw [hfirst] at hsame
    obtain ⟨hlater, hbounded⟩ := checkedAdd_step h.stepNs hfirst
    have hdrawn := h.drawn
    cases hcompletion : terminal.completion with
    | none =>
      have hunit : terminal = .unit := by
        cases terminal <;> first | rfl | cases hcompletion
      subst hunit
      left
      have hended := h.ended hscopes state.nextOrder none
        (Int.le_refl _) (Int.le_of_lt hlater) hbounded (by omega)
      dsimp only
      rw [ended_unit hoperation hopen abandonable hfirst]
      unfold Session.complete
      rw [clr_tick_exact hsame]
      have hrecord : ({ session with nextTimeNs := first } : Session Value) =
          { session with nextOrder := state.nextOrder, nextTimeNs := first } := by
        rw [← h.order]
      dsimp only
      rw [h.time, hrecord]
      exact hended
    | some completion =>
      obtain ⟨hlast, hnext⟩ := ended_stamped hoperation hopen abandonable hcompletion h.order_bound
        hfirst
      have hclrOrder : session.order = some (session.nextOrder,
          { session with nextOrder := session.nextOrder + 1 }) := by
        apply clr_order_exact
        rw [h.order]
        exact h.order_bound
      have hclrFirst : ({ session with nextOrder := session.nextOrder + 1 } : Session Value).tick =
          some (session.nextTimeNs, { session with
            nextOrder := session.nextOrder + 1
            nextTimeNs := first }) := clr_tick_exact hsame
      cases hsecond : checkedAdd first state.config.stepNs with
      | none =>
        right
        refine ⟨(hlast hsecond).spent hsecond, ?_⟩
        have hspent : Spent first session.config.stepNs := by
          unfold Spent
          rw [h.config]
          exact hsecond
        have hclrSecond : ({ session with
            nextOrder := session.nextOrder + 1
            nextTimeNs := first } : Session Value).tick = none := clr_tick_spent hspent
        dsimp only
        unfold Session.complete
        dsimp only
        rw [hclrOrder]
        dsimp only
        rw [hclrFirst]
        dsimp only
        rw [hclrSecond]
        exact hspent
      | some second =>
        left
        obtain ⟨hlater', hbounded'⟩ := checkedAdd_step h.stepNs hsecond
        have hended := h.ended hscopes (state.nextOrder + 1)
          (some (completion state.nextOrder state.nextTimeNs))
          (Int.le_of_lt hlater) (Int.le_of_lt hlater') hbounded' (by omega)
        have hclrSecond : ({ session with
            nextOrder := session.nextOrder + 1
            nextTimeNs := first } : Session Value).tick = some (first, { session with
              nextOrder := session.nextOrder + 1
              nextTimeNs := second }) := by
          apply clr_tick_exact
          dsimp only
          rw [h.config]
          exact hsecond
        dsimp only
        rw [hnext second hsecond]
        unfold Session.complete
        dsimp only
        rw [hclrOrder]
        dsimp only
        rw [hclrFirst]
        dsimp only
        rw [hclrSecond]
        dsimp only
        rw [h.order, h.time]
        exact hended

end Steps

section Begin

variable {state : State Value} {session : Session Value} {scopes : List Nat}

theorem stampStart_exact (hbound : state.nextOrder + 1 ≤ maxU64) {next : Int}
    (hnext : checkedAdd state.nextTimeNs state.config.stepNs = some next) :
    state.stampStart = (.ok (state.nextTimeNs, state.nextOrder),
      { state with nextOrder := state.nextOrder + 1, nextTimeNs := next }) := by
  unfold State.stampStart
  rw [tick_exact hnext]
  dsimp only [State.order]
  rw [if_pos hbound]

/-- The native operation that begins at the current reading. -/
def newOperation (state : State Value) (spanId : SpanId) (component operation : String)
    (inputs : List (String × Value)) : PendingOperation Value where
  order := state.nextOrder
  spanId := spanId
  parentSpanId := ((state.currentOperation.bind (state.operations[·]?)).map
    CaptureSession.PendingOperation.spanId).getD state.config.scenarioSpanId
  parentOperation := state.currentOperation
  componentId := component
  operationName := operation
  startNs := state.nextTimeNs
  endNs := none
  status := none
  inputs := inputs
  filledParameters := []
  observations := []
  completion := none

theorem Synced.native_begin (h : Synced state session scopes) {spanId : SpanId}
    (hspan : nextSpan state = .ok spanId) {next : Int}
    (hnext : checkedAdd state.nextTimeNs state.config.stepNs = some next)
    (component operation : String) (inputs : List (String × Value)) :
    beginActive state component operation (.ok (inputs, [])) = (.ok state.operations.length,
      ({ state with nextOrder := state.nextOrder + 1, nextTimeNs := next }).push
        (newOperation state spanId component operation inputs)) := by
  conv_lhs =>
    unfold beginActive
    rw [h.sound, hspan]
    dsimp only
    rw [stampStart_exact h.order_bound hnext]
  rfl

theorem Synced.clr_begin (h : Synced state session scopes) {spanId : SpanId}
    (hspan : session.nextSpanId = some spanId) {next : Int}
    (hnext : checkedAdd session.nextTimeNs session.config.stepNs = some next)
    (component operation : String) (parent : Option SpanId) :
    session.begin component operation parent = some (session.operations.length, { session with
      nextOrder := session.nextOrder + 1
      nextTimeNs := next
      nextOp := session.nextOp + 1
      operations := session.operations ++ [⟨session.nextOrder, spanId,
        parent.getD session.config.scenarioSpanId, component, operation, session.nextTimeNs, [], none,
        0, none⟩] }) := by
  have horder : ({ session with nextTimeNs := next } : Session Value).order = some
      (session.nextOrder, { session with
        nextOrder := session.nextOrder + 1
        nextTimeNs := next }) := by
    apply clr_order_exact
    show session.nextOrder + 1 ≤ maxU64
    rw [h.order]
    exact h.order_bound
  unfold Session.begin
  rw [hspan, Option.bind_some, clr_tick_exact hnext, Option.bind_some]
  dsimp only
  rw [horder]
  rfl

/-- Both sessions begin the same operation. -/
theorem Synced.entered (h : Synced state session scopes) (spanId : SpanId) {next : Int}
    (hnext : checkedAdd state.nextTimeNs state.config.stepNs = some next)
    (component operation : String) (inputs : List (String × Value)) :
    Synced
      (({ state with nextOrder := state.nextOrder + 1, nextTimeNs := next }).push
        (newOperation state spanId component operation inputs))
      { session with
        nextOrder := session.nextOrder + 1
        nextTimeNs := next
        nextOp := session.nextOp + 1
        operations := session.operations ++
          [shown (newOperation state spanId component operation inputs)] }
      (state.operations.length :: scopes) := by
  obtain ⟨hlater, hbounded⟩ := checkedAdd_step h.stepNs hnext
  have hdrawn := h.drawn
  have hnew : ∀ index ∈ scopes, index < state.operations.length := by
    intro index hmem
    obtain ⟨parent, hheld⟩ := h.chain.held hmem
    exact hheld.lt_length
  constructor
  case stepNs => exact h.stepNs
  case config => exact h.config
  case runStart => exact h.runStart
  case scenarioStart => exact h.scenarioStart
  case time => rfl
  case order => exact congrArg (· + 1) h.order
  case nextOp => exact congrArg (· + 1) h.nextOp
  case operations =>
    show session.operations ++ _ = (state.operations ++ [_]).map shown
    rw [h.operations, List.map_append]
    rfl
  case sound => exact h.sound
  case timed =>
    intro found hmem
    rcases List.mem_append.mp hmem with hold | hmem
    · exact (h.timed found hold).later (Int.le_of_lt hlater)
    · obtain rfl := List.mem_singleton.mp hmem
      exact ⟨Int.le_of_lt hlater, rfl, fun status hstatus => by cases hstatus⟩
  case current => rfl
  case chain =>
    refine ⟨⟨newOperation state spanId component operation inputs, ?_, rfl, ?_⟩, ?_⟩
    · exact List.getElem?_concat_length ..
    · rw [Option.or_none]
      exact h.current
    · refine h.chain.mono fun index hmem parent hheld => ?_
      obtain ⟨found, hfound, hopen, hparent⟩ := hheld
      refine ⟨found, ?_, hopen, hparent⟩
      show (state.operations ++ [_])[index]? = some found
      rw [List.getElem?_append_left (hnew index hmem), hfound]
  case scopesOnce =>
    refine List.nodup_cons.mpr ⟨fun hmem => ?_, h.scopesOnce⟩
    exact Nat.lt_irrefl _ (hnew _ hmem)
  case drawn =>
    show ((state.nextOrder + 1 : Nat) : Int) ≤ next
    omega
  case bounded => exact hbounded
  case boundaries => exact ⟨h.boundaries.1, h.boundaries.2.trans (Int.le_of_lt hlater)⟩

end Begin

/-! ### Runs -/

section Runs

variable {native : NativeFlow Value} {clr : Flow Value}

theorem Agrees.begin (h : Agrees native clr) (abandonable : Nat → Bool) (component operation : String)
    (inputs : List (String × Value)) :
    ∃ native' clr', native.step abandonable (.begin component operation inputs) = some native' ∧
      clr.step (.begin component operation inputs) = some clr' ∧ Agrees native' clr' := by
  obtain ⟨hscopes, hsynced | ⟨hspent, hclrSpent⟩⟩ := h
  · have hspan := hsynced.nextSpan_agrees
    have hsame : checkedAdd clr.session.nextTimeNs clr.session.config.stepNs =
        checkedAdd native.state.nextTimeNs native.state.config.stepNs := by
      rw [hsynced.time, hsynced.config]
    have hunchanged : ∀ error, beginActive native.state component operation (.ok (inputs, [])) =
        (.error error, native.state) →
        clr.session.begin component operation ((clr.scopes.head?.bind
          (clr.session.operations[·]?)).map ClrSessions.PendingOperation.spanId) = none →
        ∃ native' clr', native.step abandonable (.begin component operation inputs) = some native' ∧
          clr.step (.begin component operation inputs) = some clr' ∧ Agrees native' clr' := by
      intro error hnative hclr
      refine ⟨native, clr, ?_, ?_, hscopes, .inl hsynced⟩
      · unfold NativeFlow.step
        dsimp only
        rw [hnative]
      · unfold Flow.step
        dsimp only
        rw [hclr]
    cases hnative : nextSpan native.state with
    | error error =>
      rw [hnative] at hspan
      refine hunchanged error ?_ ?_
      · unfold beginActive
        rw [hsynced.sound, hnative]
      · unfold Session.begin
        rw [← hspan]
        rfl
    | ok spanId =>
      rw [hnative] at hspan
      cases hnext : checkedAdd native.state.nextTimeNs native.state.config.stepNs with
      | none =>
        obtain ⟨error, hfailed⟩ := begin_spent hnext component operation (.ok (inputs, []))
        exact hunchanged error hfailed (clr_begin_spent (hsame.trans hnext) _ _ _)
      | some next =>
        have hparent := hsynced.parent
        have hlength : clr.session.operations.length = native.state.operations.length := by
          rw [hsynced.operations, List.length_map]
        refine ⟨⟨_, native.state.operations.length :: native.scopes⟩,
          ⟨_, native.state.operations.length :: native.scopes⟩, ?_, ?_, rfl,
          .inl (hsynced.entered spanId hnext component operation inputs)⟩
        · unfold NativeFlow.step
          dsimp only
          rw [hsynced.native_begin hnative hnext component operation inputs]
          rfl
        · unfold Flow.step
          dsimp only
          rw [hsynced.clr_begin hspan.symm (hsame.trans hnext)]
          dsimp only [Session.modify]
          rw [modify_concat, hscopes, hparent, hlength, hsynced.order, hsynced.time, hsynced.config]
          rfl
  · obtain ⟨error, hfailed⟩ := begin_spent hspent component operation (.ok (inputs, []))
    refine ⟨native, clr, ?_, ?_, hscopes, .inr ⟨hspent, hclrSpent⟩⟩
    · unfold NativeFlow.step
      dsimp only
      rw [hfailed]
    · unfold Flow.step
      dsimp only
      rw [clr_begin_spent hclrSpent]

theorem Agrees.complete (h : Agrees native clr) (abandonable : Nat → Bool)
    (terminal : Terminal Value) :
    (native.step abandonable (.complete terminal) = none ∧ clr.step (.complete terminal) = none) ∨
      ∃ native' clr', native.step abandonable (.complete terminal) = some native' ∧
        clr.step (.complete terminal) = some clr' ∧ Agrees native' clr' := by
  obtain ⟨hscopes, hsessions⟩ := h
  unfold NativeFlow.step Flow.step
  rw [hscopes]
  cases hopen : native.scopes with
  | nil => exact .inl ⟨rfl, rfl⟩
  | cons index rest =>
    refine .inr ⟨_, _, rfl, rfl, ?_⟩
    rcases hsessions with hsynced | ⟨hspent, hclrSpent⟩
    · exact hsynced.completed hopen (abandonable index) terminal
    · exact ⟨rfl, .inr ⟨(endOperation_spent hspent index _ terminal).spent hspent,
        clr_complete_spent hclrSpent index _⟩⟩

/-- Both sessions take a step that is no observation, or neither does. -/
theorem Agrees.step (h : Agrees native clr) (abandonable : Nat → Bool) {step : Step Value}
    (hstep : step.isObserve = false) :
    (native.step abandonable step = none ∧ clr.step step = none) ∨
      ∃ native' clr', native.step abandonable step = some native' ∧ clr.step step = some clr' ∧
        Agrees native' clr' := by
  cases step with
  | begin component operation inputs => exact .inr (h.begin abandonable component operation inputs)
  | observe name value => cases hstep
  | complete terminal => exact h.complete abandonable terminal

/-- Both sessions reach the end of a run without observations, in step, or neither does. -/
theorem Agrees.run {steps : List (Step Value)} (h : Agrees native clr) (abandonable : Nat → Bool)
    (hsteps : ∀ step ∈ steps, step.isObserve = false) :
    (native.run abandonable steps = none ∧ clr.run steps = none) ∨
      ∃ native' clr', native.run abandonable steps = some native' ∧ clr.run steps = some clr' ∧
        Agrees native' clr' := by
  induction steps generalizing native clr with
  | nil => exact .inr ⟨native, clr, rfl, rfl, h⟩
  | cons step rest ih =>
    unfold NativeFlow.run Flow.run
    rcases h.step abandonable (hsteps step List.mem_cons_self) with ⟨hnative, hclr⟩ |
        ⟨native', clr', hnative, hclr, hnext⟩
    · rw [hnative, hclr]
      exact .inl ⟨rfl, rfl⟩
    · rw [hnative, hclr]
      exact ih hnext fun later hlater => hsteps later (List.mem_cons_of_mem _ hlater)

/-- Sessions started with one configuration are in step. -/
theorem agrees_start {config : Config} {sidecarPath : Option String}
    {registry : Except CaptureError Unit} {state : State Value} {session : Session Value}
    (hnative : start config sidecarPath registry = .ok state) (hclr : begun config = some session) :
    Agrees ⟨state, []⟩ ⟨session, []⟩ := by
  unfold begun at hclr
  split_ifs at hclr with haccepts
  obtain ⟨scenarioStart, hfirst, hclr⟩ := Option.bind_eq_some_iff.mp hclr
  obtain ⟨next, hsecond, rfl⟩ := Option.map_eq_some_iff.mp hclr
  obtain ⟨⟨hstart, hstep⟩, -⟩ : (0 ≤ config.startNs ∧ 0 < config.stepNs) ∧ _ := by
    simpa only [accepts, Bool.and_eq_true, decide_eq_true_eq] using haccepts
  have hle : ∀ {a b : Int}, checkedAdd a config.stepNs = some b → a ≤ b := by
    intro a b hadd
    have hsum := checkedAdd_eq_some hadd
    omega
  have hscenario := hle hfirst
  have htime := hle hsecond
  have hbounded := checkedAdd_le hsecond
  unfold CaptureSession.start at hnative
  split at hnative
  · cases hnative
  · split at hnative
    · cases hnative
    · split_ifs at hnative
      rw [hfirst] at hnative
      dsimp only at hnative
      rw [hsecond] at hnative
      obtain rfl := Except.ok.inj hnative
      refine ⟨rfl, .inl ?_⟩
      exact ⟨hstep, rfl, rfl, rfl, rfl, rfl, rfl, rfl, rfl, fun _ hmem => (by cases hmem), rfl, trivial,
        List.nodup_nil, by dsimp only; omega, hbounded, hscenario, htime⟩

end Runs

end SpecGate.SessionAgreement

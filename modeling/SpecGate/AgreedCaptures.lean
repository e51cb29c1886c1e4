import SpecGate.SessionAgreement

/-!
Captures of two sessions that are in step. The native session closes what is open in a copy of
its state, the latest first; the other one projects it with counters of its own, in the same
order. What they build is the same.
-/
namespace SpecGate.SessionAgreement

open CaptureSession CaptureEffects SidecarRuns Collecting
open ClrSessions hiding PendingOperation

variable {Value : Type}

section Spans

variable {state : State Value} {session : Session Value} {scopes : List Nat}

/-- A closed operation has the same span in both sessions. -/
theorem build_shown {now : Int} {operation : PendingOperation Value} (h : Timed now operation)
    (hclosed : operation.status ≠ none) : (shown operation).build = operation.span := by
  obtain ⟨status, hstatus⟩ := Option.ne_none_iff_exists'.mp hclosed
  obtain ⟨hsame, endNs, hend, hle⟩ := h.ended status hstatus
  have hunobserved := h.unobserved
  have hshown : (shown operation).endNs = endNs := by
    unfold shown
    rw [hend]
    rfl
  have hshownStatus : (shown operation).status = some status := hstatus
  have hshownSame : status = spanStatus (shown operation).completion := hsame
  have hshownEnd : ¬ endNs < (shown operation).startNs := Int.not_lt.mpr hle
  unfold ClrSessions.PendingOperation.build operationSpan CaptureSession.PendingOperation.span
  rw [hshownStatus, hshown, hstatus, hend, Option.bind_some, if_neg hshownEnd,
    if_neg (not_not_intro hshownSame), Option.bind_some, Option.map_some, hunobserved]
  rfl

/-- An operation that is closed as incomplete has the span that is projected for it. -/
theorem buildAs_shown {now endNs : Int} {operation : PendingOperation Value}
    (h : Timed now operation) (hle : now ≤ endNs) (order : Nat) :
    (shown operation).buildAs (Session.incompleteFault (shown operation) order now) endNs =
      (close (some (incompleteCapture operation.operationName order now)) endNs .error
        operation).span := by
  have hstarted := h.started
  have hunobserved := h.unobserved
  have hend : ¬ endNs < (shown operation).startNs := Int.not_lt.mpr (hstarted.trans hle)
  refine (if_neg hend).trans ((if_neg (not_not_intro rfl)).trans ?_)
  unfold CaptureSession.PendingOperation.span
  dsimp only [close]
  rw [Option.bind_some, Option.map_some, hunobserved]
  rfl

/-- The spans that are projected, and those of closed operations, are the native ones. -/
theorem buildSpans_eq_collect {operations : List (PendingOperation Value)}
    {others : List (ClrSessions.PendingOperation Value)}
    {projected : Nat → Option (OperationSpan Value)} {first : Nat}
    (hlength : others.length = operations.length)
    (h : ∀ index operation other, operations[index]? = some operation →
      others[index]? = some other →
        (projected (first + index)).or other.build = operation.span) :
    Session.buildSpans projected first others = collect PendingOperation.span operations := by
  induction operations generalizing others first with
  | nil =>
    obtain rfl := List.length_eq_zero_iff.mp hlength
    rfl
  | cons operation rest ih =>
    cases others with
    | nil => cases hlength
    | cons other others =>
      have hhead := h 0 operation other rfl rfl
      rw [Nat.add_zero] at hhead
      have htail := @ih others (first + 1) (Nat.succ.inj hlength)
        fun index found match' hfound hmatch => by
          have hnext := h (index + 1) found match' hfound hmatch
          rwa [← Nat.add_assoc, Nat.add_right_comm] at hnext
      unfold Session.buildSpans
      rw [hhead, htail, collect]

theorem span_status {operation : PendingOperation Value} {span : OperationSpan Value}
    (h : operation.span = some span) : operation.status = some span.status := by
  unfold CaptureSession.PendingOperation.span at h
  obtain ⟨endNs, -, h⟩ := Option.bind_eq_some_iff.mp h
  obtain ⟨status, hstatus, rfl⟩ := Option.map_eq_some_iff.mp h
  exact hstatus

theorem any_error {operations : List (PendingOperation Value)} {spans : List (OperationSpan Value)}
    (h : collect PendingOperation.span operations = some spans) :
    (operations.any fun operation => decide (operation.status = some .error)) =
      spans.any fun span => decide (span.status = .error) := by
  induction operations generalizing spans with
  | nil =>
    obtain rfl := Option.some.inj h
    rfl
  | cons operation rest ih =>
    unfold collect at h
    obtain ⟨span, hspan, h⟩ := Option.bind_eq_some_iff.mp h
    obtain ⟨spans, hspans, rfl⟩ := Option.map_eq_some_iff.mp h
    rw [List.any_cons, List.any_cons, ih hspans, span_status hspan]
    simp only [Option.some.injEq]

/-- Sessions with one configuration build one capture of the same spans. -/
theorem build_eq (hconfig : session.config = state.config)
    (hrun : session.runStartNs = state.runStartNs)
    (hscenario : session.scenarioStartNs = state.scenarioStart)
    (hsound : state.terminalError = none) (hstep : 0 < state.config.stepNs)
    (hboundaries : state.runStartNs ≤ state.scenarioStart ∧ state.scenarioStart ≤ state.nextTimeNs)
    {spans : List (OperationSpan Value)}
    (hspans : collect PendingOperation.span state.operations = some spans) :
    (build state).toOption = session.buildCapture spans state.nextTimeNs := by
  unfold build Session.buildCapture
  rw [hsound, hconfig]
  dsimp only
  cases hend : checkedAdd state.nextTimeNs state.config.stepNs with
  | none => rfl
  | some runEndNs =>
    obtain ⟨hlater, -⟩ := checkedAdd_step hstep hend
    dsimp only
    rw [hspans, Option.bind_some]
    dsimp only
    unfold spanBoundary
    have hrunEnd : ¬ runEndNs < state.runStartNs := by omega
    have hscenarioEnd : ¬ state.nextTimeNs < state.scenarioStart := by omega
    rw [hrun, hscenario, any_error hspans, if_neg hrunEnd, Option.bind_some, if_neg hscenarioEnd]
    rfl

end Spans

/-! ### Closing and projecting -/

section Projection

variable {state : State Value} {session : Session Value}

/-- The open operations that have been projected are those that have been closed; the others
are as they were. -/
structure Projected (state : State Value) (session : Session Value) (timeNs : Int) (order : Nat)
    (projected : Nat → Option (OperationSpan Value)) : Prop where
  stepNs : 0 < state.config.stepNs
  config : session.config = state.config
  time : state.nextTimeNs = timeNs
  orders : state.nextOrder = order
  length : state.operations.length = session.operations.length
  spans : ∀ index operation, state.operations[index]? = some operation →
    match projected index with
    | some span => operation.span = some span
    | none => session.operations[index]? = some (shown operation)
  timed : ∀ operation ∈ state.operations, Timed timeNs operation
  drawn : (order : Int) ≤ timeNs
  bounded : timeNs ≤ maxI64

/-- What the native session leaves as it is while it closes what is open. -/
structure Closing (before after : State Value) : Prop where
  config : after.config = before.config
  runStart : after.runStartNs = before.runStartNs
  scenarioStart : after.scenarioStart = before.scenarioStart
  failed : after.terminalError = before.terminalError
  time : before.nextTimeNs ≤ after.nextTimeNs

theorem Closing.refl (state : State Value) : Closing state state := ⟨rfl, rfl, rfl, rfl, Int.le_refl _⟩

theorem Closing.trans {a b c : State Value} (h : Closing a b) (h' : Closing b c) : Closing a c where
  config := h'.config.trans h.config
  runStart := h'.runStart.trans h.runStart
  scenarioStart := h'.scenarioStart.trans h.scenarioStart
  failed := h'.failed.trans h.failed
  time := h.time.trans h'.time

/-- The state in which one more operation is closed as incomplete. -/
def closeOne (state : State Value) (index : Nat) (operation : PendingOperation Value)
    (endNs next : Int) : State Value :=
  (({ state with nextOrder := state.nextOrder + 1, nextTimeNs := next }).modify index
    (close (some (incompleteCapture operation.operationName state.nextOrder state.nextTimeNs)) endNs
      .error)).release index

theorem closing_closeOne {index : Nat} {operation : PendingOperation Value} {endNs next : Int}
    (hle : state.nextTimeNs ≤ next) : Closing state (closeOne state index operation endNs next) := by
  unfold closeOne
  rw [release_eq]
  exact ⟨rfl, rfl, rfl, rfl, hle⟩

theorem closeAll_cons {timeNs : Int} {order index : Nat}
    {projected : Nat → Option (OperationSpan Value)}
    (h : Projected state session timeNs order projected) {operation : PendingOperation Value}
    (hoperation : state.operations[index]? = some operation) (rest : List Nat) :
    closeAll state (index :: rest) =
      match checkedAdd timeNs state.config.stepNs with
      | none => .error clockOverflow
      | some endNs =>
          match checkedAdd endNs state.config.stepNs with
          | none => .error clockOverflow
          | some next => closeAll (closeOne state index operation endNs next) rest := by
  have hbound : state.nextOrder + 1 ≤ maxU64 := by
    have hdrawn := h.drawn
    have hbounded := h.bounded
    have horder := h.orders
    unfold maxI64 at hbounded
    unfold maxU64
    omega
  have htime := h.time
  conv_lhs => unfold closeAll
  rw [hoperation]
  cases hfirst : checkedAdd timeNs state.config.stepNs with
  | none =>
    have hspent : Spent state.nextTimeNs state.config.stepNs := by
      rw [htime]
      exact hfirst
    have hstamp : state.stamp = (.error clockOverflow,
        { state with nextOrder := state.nextOrder + 1 }) := by
      unfold State.stamp State.order
      rw [if_pos hbound]
      dsimp only [State.tick]
      rw [hspent]
    rw [hstamp]
  | some endNs =>
    rw [← htime] at hfirst
    rw [stamp_exact hbound hfirst]
    dsimp only [State.tick]
    cases checkedAdd endNs state.config.stepNs with
    | none => rfl
    | some next => rfl

theorem Projected.closeOne {timeNs : Int} {order index : Nat}
    {projected : Nat → Option (OperationSpan Value)}
    (h : Projected state session timeNs order projected) {operation : PendingOperation Value}
    (hoperation : state.operations[index]? = some operation) {endNs next : Int}
    (hfirst : checkedAdd timeNs state.config.stepNs = some endNs)
    (hsecond : checkedAdd endNs state.config.stepNs = some next) :
    ∃ span, (shown operation).buildAs (Session.incompleteFault (shown operation) order timeNs)
        endNs = some span ∧
      Projected (closeOne state index operation endNs next) session next (order + 1)
        (Function.update projected index (some span)) := by
  obtain ⟨hlater, -⟩ := checkedAdd_step h.stepNs hfirst
  obtain ⟨hlast, hbounded⟩ := checkedAdd_step h.stepNs hsecond
  have htimed := h.timed operation (List.mem_of_getElem? hoperation)
  have hbuilt := buildAs_shown htimed (Int.le_of_lt hlater) order
  obtain ⟨span, hspan⟩ : ∃ span, (close (some (incompleteCapture operation.operationName order
      timeNs)) endNs .error operation).span = some span := ⟨_, rfl⟩
  rw [hspan] at hbuilt
  refine ⟨span, hbuilt, ?_⟩
  have htime := h.time
  have horder := h.orders
  have hdrawn := h.drawn
  unfold SessionAgreement.closeOne
  rw [release_eq]
  constructor
  case stepNs => exact h.stepNs
  case config => exact h.config
  case time => rfl
  case orders => exact congrArg (· + 1) horder
  case length =>
    show (state.operations.modify index _).length = _
    rw [List.length_modify]
    exact h.length
  case spans =>
    intro place found hfound
    have hplace : (state.operations.modify index _)[place]? = some found := hfound
    by_cases hsame : place = index
    · subst hsame
      rw [List.getElem?_modify_eq, hoperation] at hplace
      obtain rfl := Option.some.inj hplace
      rw [Function.update_self, htime, horder]
      exact hspan
    · rw [List.getElem?_modify_ne _ _ (Ne.symm hsame)] at hplace
      rw [Function.update_of_ne hsame]
      exact h.spans place found hplace
  case timed =>
    refine timed_modify h.timed (Int.le_of_lt (hlater.trans hlast)) fun old hold => ?_
    refine ⟨hold.started.trans (Int.le_of_lt (hlater.trans hlast)), hold.unobserved, ?_⟩
    intro status hstatus
    cases hstatus
    exact ⟨rfl, endNs, rfl, hold.started.trans (Int.le_of_lt hlater)⟩
  case drawn =>
    show ((order + 1 : Nat) : Int) ≤ next
    omega
  case bounded => exact hbounded

/-- Whether an operation is open in the session that projects it. -/
def isOpen (session : Session Value) (index : Nat) : Bool :=
  (session.operations[index]?).any fun operation => operation.status.isNone

/-- What closing and projecting the same operations leaves. -/
structure Closed (state after : State Value) (session : Session Value) (next : Int)
    (last : Nat → Option (OperationSpan Value)) : Prop where
  projected : ∃ order, Projected after session next order last
  closing : Closing state after

/-- Closing the open operations among some, and projecting them, fails in both sessions, or in
neither. -/
theorem closeAll_project {indices : List Nat} {timeNs : Int} {order : Nat}
    {projected : Nat → Option (OperationSpan Value)}
    (h : Projected state session timeNs order projected) (hnodup : indices.Nodup)
    (hfree : ∀ index ∈ indices, projected index = none ∧ index < session.operations.length) :
    ((closeAll state (indices.filter (isOpen session))).toOption = none ∧
        session.projectOpen indices timeNs order projected = none) ∨
      ∃ after next last, closeAll state (indices.filter (isOpen session)) = .ok after ∧
        session.projectOpen indices timeNs order projected = some (next, last) ∧
        Closed state after session next last ∧
        (∀ index, projected index ≠ none → last index ≠ none) ∧
        ∀ index ∈ indices, isOpen session index = true → last index ≠ none := by
  induction indices generalizing state timeNs order projected with
  | nil =>
    refine .inr ⟨state, timeNs, projected, rfl, rfl, ⟨⟨order, h⟩, Closing.refl state⟩, fun _ => id, ?_⟩
    intro index hmem
    cases hmem
  | cons index rest ih =>
    obtain ⟨hnot, hnodup⟩ := List.nodup_cons.mp hnodup
    obtain ⟨hnone, hbound⟩ := hfree index List.mem_cons_self
    have hfreeRest := fun other hmem => hfree other (List.mem_cons_of_mem index hmem)
    rw [← h.length] at hbound
    have hoperation := List.getElem?_eq_getElem hbound
    have hshown := h.spans index _ hoperation
    rw [hnone] at hshown
    unfold Session.projectOpen
    rw [hshown, Option.bind_some]
    by_cases hclosed : (shown state.operations[index]).status.isSome = true
    · have hskip : isOpen session index = false := by
        unfold isOpen
        rw [hshown, Option.any_some]
        obtain ⟨status, hstatus⟩ := Option.isSome_iff_exists.mp hclosed
        rw [hstatus]
        rfl
      rw [if_pos hclosed, List.filter_cons_of_neg (by rw [hskip]; exact Bool.false_ne_true)]
      rcases ih h hnodup hfreeRest with hfail | ⟨after, next, last, hclose, hproject, hafter, hkept, hrest⟩
      · exact .inl hfail
      · refine .inr ⟨after, next, last, hclose, hproject, hafter, hkept, fun other hmem hopen => ?_⟩
        rcases List.mem_cons.mp hmem with rfl | hmem
        · rw [hskip] at hopen
          cases hopen
        · exact hrest other hmem hopen
    · have hopen : isOpen session index = true := by
        unfold isOpen
        rw [hshown, Option.any_some]
        rwa [Bool.not_eq_true, Option.isSome_eq_false_iff] at hclosed
      rw [if_neg hclosed, List.filter_cons_of_pos hopen, closeAll_cons h hoperation, h.config]
      cases hfirst : checkedAdd timeNs state.config.stepNs with
      | none => exact .inl ⟨rfl, rfl⟩
      | some endNs =>
        dsimp only
        rw [Option.bind_some]
        cases hsecond : checkedAdd endNs state.config.stepNs with
        | none => exact .inl ⟨rfl, rfl⟩
        | some next =>
          dsimp only
          obtain ⟨span, hspan, hnext⟩ := h.closeOne hoperation hfirst hsecond
          have horder : (order + 1) % (maxU64 + 1) = order + 1 := by
            have hdrawn := h.drawn
            have hbounded := h.bounded
            unfold maxI64 at hbounded
            apply Nat.mod_eq_of_lt
            unfold maxU64
            omega
          rw [Option.bind_some, hspan, Option.bind_some, horder]
          have hupdated : ∀ other, projected other ≠ none →
              Function.update projected index (some span) other ≠ none := by
            intro other hother
            by_cases hsame : other = index
            · rw [hsame, Function.update_self]
              exact Option.some_ne_none _
            · rwa [Function.update_of_ne hsame]
          have hfreeNext : ∀ other ∈ rest, Function.update projected index (some span) other = none ∧
              other < session.operations.length := by
            intro other hmem
            have hne : other ≠ index := by
              rintro rfl
              exact hnot hmem
            rw [Function.update_of_ne hne]
            exact hfreeRest other hmem
          obtain ⟨hlater, -⟩ := checkedAdd_step h.stepNs hfirst
          obtain ⟨hlast, -⟩ := checkedAdd_step h.stepNs hsecond
          have hone : Closing state (closeOne state index state.operations[index] endNs next) := by
            apply closing_closeOne
            rw [h.time]
            omega
          rcases ih hnext hnodup hfreeNext with hfail |
            ⟨after, time, last, hclose, hproject, hafter, hkept, hrest⟩
          · exact .inl hfail
          · refine .inr ⟨after, time, last, hclose, hproject,
              ⟨hafter.projected, hone.trans hafter.closing⟩,
              fun other hother => hkept other (hupdated other hother), fun other hmem hother => ?_⟩
            rcases List.mem_cons.mp hmem with rfl | hmem
            · apply hkept
              rw [Function.update_self]
              exact Option.some_ne_none _
            · exact hrest other hmem hother

end Projection

/-! ### Captures -/

section Captures

variable {state : State Value} {session : Session Value} {scopes : List Nat}

theorem Synced.projected (h : Synced state session scopes) :
    Projected state session session.nextTimeNs session.nextOrder fun _ => none where
  stepNs := h.stepNs
  config := h.config
  time := h.time.symm
  orders := h.order.symm
  length := by rw [h.operations, List.length_map]
  spans := by
    intro index operation hoperation
    show session.operations[index]? = some (shown operation)
    rw [h.operations, List.getElem?_map, hoperation]
    rfl
  timed := by
    rw [h.time]
    exact h.timed
  drawn := by
    rw [h.order, h.time]
    exact h.drawn
  bounded := by
    rw [h.time]
    exact h.bounded

theorem Synced.isOpen_eq (h : Synced state session scopes) (index : Nat) :
    isOpen session index = (state.operations[index]?).any fun operation => operation.status.isNone := by
  unfold isOpen
  rw [h.operations, List.getElem?_map]
  cases state.operations[index]? <;> rfl

/-- The open operations that the native session closes. -/
theorem Synced.outstanding (h : Synced state session scopes) :
    state.outstanding.reverse =
      (List.range session.operations.length).reverse.filter (isOpen session) := by
  have hlength : session.operations.length = state.operations.length := by
    rw [h.operations, List.length_map]
  unfold State.outstanding
  rw [List.filter_reverse, hlength]
  congr 1
  exact List.filter_congr fun index _ => (h.isOpen_eq index).symm

theorem provisional_eq (state : State Value) :
    (if state.hasOutstanding then closeOutstanding state else .ok state) =
      closeAll state state.outstanding.reverse := by
  by_cases hopen : state.hasOutstanding = true
  · rw [if_pos hopen]
    rfl
  · rw [if_neg hopen]
    have hempty : state.outstanding = [] := by
      refine List.eq_nil_iff_forall_not_mem.mpr fun index hmem => hopen ?_
      exact hasOutstanding_iff.mpr ⟨index, mem_outstanding_iff.mp hmem⟩
    rw [hempty]
    rfl

/-- Once everything open has been projected, both sessions have the same spans. -/
theorem Projected.spans_eq {timeNs : Int} {order : Nat}
    {projected : Nat → Option (OperationSpan Value)}
    (h : Projected state session timeNs order projected)
    (hopen : ∀ index, isOpen session index = true → projected index ≠ none) :
    Session.buildSpans projected 0 session.operations =
      collect PendingOperation.span state.operations := by
  refine buildSpans_eq_collect h.length.symm fun index operation other hoperation hother => ?_
  have hspans := h.spans index operation hoperation
  rw [Nat.zero_add]
  cases hprojected : projected index with
  | some span =>
    rw [hprojected] at hspans
    exact hspans.symm
  | none =>
    rw [hprojected] at hspans
    have hsame : other = shown operation := Option.some.inj (hother.symm.trans hspans)
    have hclosed : operation.status ≠ none := by
      intro hstatus
      apply hopen index ?_ hprojected
      unfold isOpen
      rw [hspans, Option.any_some]
      exact Option.isNone_iff_eq_none.mpr hstatus
    rw [Option.none_or, hsame]
    exact build_shown (h.timed operation (List.mem_of_getElem? hoperation)) hclosed

/-- A snapshot of one session is a snapshot of the other. -/
theorem Synced.snapshot_eq (h : Synced state session scopes) :
    (SidecarRuns.snapshot state).toOption = session.snapshot := by
  have hfree : ∀ index ∈ (List.range session.operations.length).reverse,
      (none : Option (OperationSpan Value)) = none ∧ index < session.operations.length :=
    fun index hmem => ⟨rfl, List.mem_range.mp (List.mem_reverse.mp hmem)⟩
  unfold SidecarRuns.snapshot Session.snapshot
  rw [provisional_eq, h.outstanding]
  rcases closeAll_project h.projected (List.nodup_reverse.mpr List.nodup_range) hfree with
    ⟨hclose, hproject⟩ | ⟨after, next, last, hclose, hproject, hafter, -, hopen⟩
  · rw [hproject]
    cases hresult : closeAll state
        ((List.range session.operations.length).reverse.filter (isOpen session)) with
    | error error => rfl
    | ok after =>
      rw [hresult] at hclose
      cases hclose
  · rw [hclose, hproject, Option.bind_some]
    obtain ⟨⟨order, hprojected⟩, hclosing⟩ := hafter
    have hspans := hprojected.spans_eq fun index hindex => by
      refine hopen index ?_ hindex
      refine List.mem_reverse.mpr (List.mem_range.mpr ?_)
      obtain ⟨operation, hoperation, -⟩ := Option.any_eq_true _ _ |>.mp hindex
      exact (List.getElem?_eq_some_iff.mp hoperation).1
    dsimp only
    rw [hspans]
    have hsound : after.terminalError = none := hclosing.failed.trans h.sound
    cases hcollect : collect PendingOperation.span after.operations with
    | none =>
      rw [Option.bind_none]
      unfold build
      rw [hsound]
      dsimp only
      cases checkedAdd after.nextTimeNs after.config.stepNs with
      | none => rfl
      | some runEndNs =>
        dsimp only
        rw [hcollect]
        rfl
    | some spans =>
      rw [Option.bind_some, ← hprojected.time]
      have hboundaries := h.boundaries
      have hlater := hclosing.time
      refine build_eq ?_ ?_ ?_ hsound hprojected.stepNs ?_ hcollect
      · rw [hclosing.config]
        exact h.config
      · rw [hclosing.runStart]
        exact h.runStart
      · rw [hclosing.scenarioStart]
        exact h.scenarioStart
      · rw [hclosing.runStart, hclosing.scenarioStart]
        omega

/-- What one session is finished with, the other one is. -/
theorem Synced.finish_eq (h : Synced state session scopes) :
    (finish state (.ok ())).toOption = session.finish := by
  have hopen : (session.operations.any fun operation => operation.status.isNone) =
      state.hasOutstanding := by
    rw [h.operations, List.any_map]
    rfl
  unfold CaptureSession.finish Session.finish
  rw [hopen]
  by_cases houtstanding : state.hasOutstanding = true
  · rw [if_pos houtstanding, if_pos houtstanding]
    dsimp only
    cases closeOutstanding state with
    | error error => rfl
    | ok closed =>
      dsimp only
      split_ifs
      · cases build closed <;> rfl
      · rfl
  · rw [if_neg houtstanding, if_neg houtstanding, h.sound, h.nextOp, h.config]
    dsimp only
    by_cases hunused : state.nextOp < state.config.operationIds.length
    · rw [if_pos hunused, if_pos hunused]
      rfl
    · rw [if_neg hunused, if_neg hunused]
      have hspans := h.projected.spans_eq fun index hindex => by
        rw [h.isOpen_eq] at hindex
        obtain ⟨operation, hoperation, hstatus⟩ := Option.any_eq_true _ _ |>.mp hindex
        exact absurd (hasOutstanding_iff.mpr
          ⟨index, operation, hoperation, Option.isNone_iff_eq_none.mp hstatus⟩) houtstanding
      have hbuilt : (build state).toOption =
          (Session.buildSpans (fun _ => none) 0 session.operations).bind fun operations =>
            session.buildCapture operations session.nextTimeNs := by
        rw [hspans, h.time]
        cases hcollect : collect PendingOperation.span state.operations with
        | none =>
          unfold build
          rw [h.sound]
          dsimp only
          cases checkedAdd state.nextTimeNs state.config.stepNs with
          | none => rfl
          | some runEndNs =>
            dsimp only
            rw [hcollect]
            rfl
        | some spans =>
          exact build_eq h.config h.runStart h.scenarioStart h.sound h.stepNs h.boundaries hcollect
      rw [← hbuilt]
      cases build state with
      | error failure => rfl
      | ok capture =>
        dsimp only
        split_ifs <;> rfl

end Captures

/-! ### Runs -/

section Runs

theorem finish_spent {state : State Value} (h : Spent state.nextTimeNs state.config.stepNs) :
    (finish state (.ok ())).toOption = none := by
  unfold CaptureSession.finish
  by_cases hopen : state.hasOutstanding = true
  · obtain ⟨error, hclose⟩ := closeOutstanding_spent h hopen
    rw [if_pos hopen]
    dsimp only
    rw [hclose]
    rfl
  · rw [if_neg hopen]
    cases state.terminalError with
    | some error => rfl
    | none =>
      have hbuild := build_spent h
      dsimp only
      split_ifs
      · rfl
      · cases hresult : build state with
        | error failure => rfl
        | ok capture =>
          rw [hresult] at hbuild
          cases hbuild
      · cases hresult : build state with
        | error failure => rfl
        | ok capture =>
          rw [hresult] at hbuild
          cases hbuild

/-- What a native session captures: its snapshot, and what it is finished with. -/
def nativeCaptures (native : NativeFlow Value) : Option (Capture Value) × Option (Capture Value) :=
  ((SidecarRuns.snapshot native.state).toOption, (finish native.state (.ok ())).toOption)

def clrCaptures (clr : Flow Value) : Option (Capture Value) × Option (Capture Value) :=
  (clr.session.snapshot, clr.session.finish)

theorem Agrees.captures {native : NativeFlow Value} {clr : Flow Value} (h : Agrees native clr) :
    nativeCaptures native = clrCaptures clr := by
  unfold nativeCaptures clrCaptures
  rcases h.sessions with hsynced | ⟨hspent, hclrSpent⟩
  · rw [hsynced.snapshot_eq, hsynced.finish_eq]
  · rw [snapshot_spent hspent, finish_spent hspent, clr_snapshot_spent hclrSpent,
      clr_finish_spent hclrSpent]

/-- Both sessions, started with one configuration, take the same steps and capture the same. -/
def CapturesAgree (config : Config) (sidecarPath : Option String)
    (registry : Except CaptureError Unit) (abandonable : Nat → Bool) (steps : List (Step Value)) :
    Prop :=
  ∀ (state : State Value) (session : Session Value), start config sidecarPath registry = .ok state →
    begun config = some session →
      (NativeFlow.run abandonable ⟨state, []⟩ steps).map nativeCaptures =
        (Flow.run ⟨session, []⟩ steps).map clrCaptures

/-- Without observations the sessions of the two runtimes capture the same. -/
theorem sessions_capture_alike (config : Config) (sidecarPath : Option String)
    (registry : Except CaptureError Unit) (abandonable : Nat → Bool) (steps : List (Step Value))
    (hsteps : ∀ step ∈ steps, step.isObserve = false) :
    CapturesAgree config sidecarPath registry abandonable steps := by
  intro state session hnative hclr
  rcases (agrees_start hnative hclr).run abandonable hsteps with ⟨hnone, hnone'⟩ |
      ⟨native, clr, hrun, hrun', hagrees⟩
  · rw [hnone, hnone']
    rfl
  · rw [hrun, hrun', Option.map_some, Option.map_some, hagrees.captures]

/-- An operation within another one, which stays open. -/
def nestedSteps : List (Step Nat) :=
  [.begin "store" "open" [], .begin "store" "read" [("key", 1)], .complete (.result 2)]

theorem nested_steps_alike :
    (∃ state : State Nat, start ActiveOperation.orderingConfig none (.ok ()) = .ok state) ∧
      CapturesAgree ActiveOperation.orderingConfig none (.ok ()) (fun _ => false) nestedSteps :=
  ⟨⟨_, rfl⟩, sessions_capture_alike _ _ _ _ _ (by decide)⟩

/-- An observation is recorded by one of the sessions only. -/
def observedSteps : List (Step Nat) :=
  [.begin "store" "open" [], .observe "size" 3, .complete .unit]

def observationCounts (captures : Option (Capture Nat) × Option (Capture Nat)) : Option (List Nat) :=
  captures.1.map fun capture => capture.operations.map fun span => span.observations.length

theorem observed_steps_differ :
    ¬ ∀ (config : Config) (sidecarPath : Option String) (registry : Except CaptureError Unit)
      (abandonable : Nat → Bool) (steps : List (Step Nat)),
      CapturesAgree config sidecarPath registry abandonable steps := by
  intro h
  have hsame := h ActiveOperation.orderingConfig none (.ok ()) (fun _ => false) observedSteps _ _ rfl
    rfl
  have hcounts := congrArg (Option.map observationCounts) hsame
  have hnative : ∀ state : State Nat, start ActiveOperation.orderingConfig none (.ok ()) = .ok state →
      ((NativeFlow.run (fun _ => false) ⟨state, []⟩ observedSteps).map nativeCaptures).map
        observationCounts = some (some [1]) := by
    intro state hstate
    obtain rfl := Except.ok.inj hstate
    rfl
  rw [hnative _ rfl] at hcounts
  exact absurd hcounts (by decide +kernel)

end Runs

end SpecGate.SessionAgreement

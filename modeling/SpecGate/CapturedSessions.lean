import SpecGate.OrderedClosure
import SpecGate.SpanIdentities

/-!
What a session that closes its scopes last in, first out leaves behind. Its run is a log
of nested spans: a start opens a span, an observation marks it, a close ends it, and
every reading comes later than all before. A capture that succeeds shows the whole log.
-/
namespace SpecGate.CapturedSessions

open Collecting CaptureSession CaptureEffects CaptureRuns NestedSpans SpanIdentities

variable {Value : Type}

/-! ### Moments -/

/-- What is recorded at once, from its first clock reading to its last, with the order
of its event if it has one. -/
structure Moment where
  order : Option Nat
  fromNs : Int
  toNs : Int

def Before (a b : Moment) : Prop :=
  a.toNs < b.fromNs ∧ ∀ first ∈ a.order, ∀ second ∈ b.order, first < second

def instant (order : Nat) (timeNs : Int) : Moment := ⟨some order, timeNs, timeNs⟩

def observed (observation : Observation Value) : Moment :=
  instant observation.order observation.timeNs

/-- A close lasts from the completion event to the end of the operation. -/
def closing (completion : Option (Completion Value)) (endNs : Int) : Moment :=
  match completion with
  | some event => ⟨some (eventOf event).1, (eventOf event).2, endNs⟩
  | none => ⟨none, endNs, endNs⟩

def toSpan (operation : PendingOperation Value) : Span Moment where
  parent := operation.parentOperation
  start := instant operation.order operation.startNs
  marks := operation.observations.map observed
  finish := operation.endNs.map (closing operation.completion)

/-- All that a session has recorded, operation by operation. -/
def moments (state : State Value) : List Moment :=
  (state.operations.map toSpan).flatMap Span.events

/-- What a step records comes later than all that was recorded before. -/
def Increasing (before after : State Value) : Prop :=
  ∃ new, (moments after).Perm (moments before ++ new) ∧ Later Before (moments before) new

/-! ### Captures -/

section Captures

def begins (operation : OperationSpan Value) : Moment := instant operation.order operation.startNs

def ends (operation : OperationSpan Value) : Moment := closing operation.completion operation.endNs

def recorded (operation : OperationSpan Value) : List Moment :=
  begins operation :: (operation.observations.map observed ++ [ends operation])

structure WellFormed (capture : Capture Value) : Prop where
  distinct : (capture.scenario.spanId :: capture.run.spanId ::
    capture.operations.map OperationSpan.spanId).Nodup
  parented : ∀ operation ∈ capture.operations, operation.parentId = capture.scenario.spanId ∨
    ∃ parent ∈ capture.operations, operation.parentId = parent.spanId ∧
      Before (begins parent) (begins operation) ∧ Before (ends operation) (ends parent)
  increasing : ∃ history : List Moment,
    history.Perm (capture.operations.flatMap recorded) ∧ history.Pairwise Before
  ordered : ∀ operation ∈ capture.operations, (recorded operation).Pairwise Before
  completed : ∀ operation ∈ capture.operations, ∀ event ∈ operation.completion,
    (eventOf event).2 < operation.endNs ∧ ∀ observation ∈ operation.observations,
      observation.order < (eventOf event).1 ∧ observation.timeNs < (eventOf event).2
  apart : capture.operations.Pairwise fun a b => a.parentId = b.parentId → a.endNs < b.startNs
  enclosed : ∀ operation ∈ capture.operations, ∀ moment ∈ recorded operation,
    capture.scenario.startNs < moment.fromNs ∧ moment.fromNs ≤ moment.toNs ∧
      moment.toNs < capture.scenario.endNs

end Captures

/-! ### The log of a session -/

/-- An operation has an end exactly if it has a status, and completes before it ends. -/
structure Coherent (operation : PendingOperation Value) : Prop where
  ended : operation.status = none ↔ operation.endNs = none
  completed : ∀ event ∈ operation.completion, ∀ endNs ∈ operation.endNs,
    (eventOf event).2 < endNs

/-- A moment between the start of the scenario and what the session draws next. -/
structure Past (state : State Value) (moment : Moment) : Prop where
  started : state.scenarioStart < moment.fromNs
  lasts : moment.fromNs ≤ moment.toNs
  time : moment.toNs < state.nextTimeNs
  order : ∀ order ∈ moment.order, order < state.nextOrder

/-- The log of a session: the scopes that are held are its open spans. -/
structure Tracks (session : Session Value) (log : Log Moment) : Prop where
  spans : log.spans = session.state.operations.map toSpan
  stack : log.stack = session.scopes.map Scope.index
  current : session.state.currentOperation = log.stack.head?
  started : session.state.scenarioStart < session.state.nextTimeNs
  past : ∀ moment ∈ log.history, Past session.state moment
  coherent : ∀ operation ∈ session.state.operations, Coherent operation
  nested : Nested Before log

theorem tracks_start {config : Config} {sidecarPath : Option String}
    {registry : Except CaptureError Unit} {state : State Value}
    (h : start config sidecarPath registry = .ok state) : Tracks ⟨state, []⟩ Log.empty := by
  obtain ⟨hvalid, -, -, hcurrent, hoperations, htime⟩ := start_ok h
  have hstep := stepNs_pos hvalid
  refine ⟨?_, rfl, hcurrent, ?_, ?_, ?_, nested_empty Before⟩
  · simp [Log.empty, hoperations]
  · show state.scenarioStart < state.nextTimeNs
    omega
  · simp [Log.empty]
  · simp [hoperations]

/-- New moments, none of which reaches back before what the session draws next. -/
theorem later_of_past {state : State Value} {history new : List Moment}
    (hpast : ∀ moment ∈ history, Past state moment) (hpairwise : new.Pairwise Before)
    (hnew : ∀ moment ∈ new, state.nextTimeNs ≤ moment.fromNs ∧
      ∀ order ∈ moment.order, state.nextOrder ≤ order) : Later Before history new := by
  refine ⟨hpairwise, fun old hold moment hmoment => ⟨?_, ?_⟩⟩
  · have htime := (hpast old hold).time
    have hfrom := (hnew moment hmoment).1
    omega
  · intro first hfirst second hsecond
    have hlow := (hpast old hold).order first hfirst
    have hhigh := (hnew moment hmoment).2 second hsecond
    omega

theorem Past.forward {before after : State Value} (hforward : Forward before after)
    {moment : Moment} (h : Past before moment) : Past after moment where
  started := hforward.scenarioStart ▸ h.started
  lasts := h.lasts
  time := h.time.trans_le hforward.time
  order := fun order horder => (h.order order horder).trans_le hforward.order

/-- A moment that a step draws. -/
theorem past_of_drawn {before after : State Value} (hforward : Forward before after)
    (hstarted : before.scenarioStart < before.nextTimeNs) {moment : Moment}
    (hfrom : before.nextTimeNs ≤ moment.fromNs) (hlasts : moment.fromNs ≤ moment.toNs)
    (hto : moment.toNs < after.nextTimeNs)
    (horder : ∀ order ∈ moment.order, order < after.nextOrder) : Past after moment where
  started := by
    rw [hforward.scenarioStart]
    omega
  lasts := hlasts
  time := hto
  order := horder

theorem past_append {before after : State Value} (hforward : Forward before after)
    {history new : List Moment} (hhistory : ∀ moment ∈ history, Past before moment)
    (hnew : ∀ moment ∈ new, Past after moment) :
    ∀ moment ∈ history ++ new, Past after moment := by
  intro moment hmoment
  rcases List.mem_append.mp hmoment with hold | hmem
  · exact (hhistory moment hold).forward hforward
  · exact hnew moment hmem

theorem map_modify_comm {operations : List (PendingOperation Value)} {index : Nat}
    {f : PendingOperation Value → PendingOperation Value} {g : Span Moment → Span Moment}
    (hfg : ∀ operation, operations[index]? = some operation →
      toSpan (f operation) = g (toSpan operation)) :
    (operations.modify index f).map toSpan = (operations.map toSpan).modify index g := by
  refine List.ext_getElem? fun place => ?_
  rw [List.getElem?_map, List.getElem?_modify, List.getElem?_modify, List.getElem?_map]
  cases hplace : operations[place]? with
  | none => rfl
  | some operation =>
    by_cases hsame : index = place
    · subst hsame
      simp [hfg operation hplace]
    · simp [hsame]

theorem Coherent.modify {operations : List (PendingOperation Value)} {index : Nat}
    {f : PendingOperation Value → PendingOperation Value}
    (h : ∀ operation ∈ operations, Coherent operation)
    (hf : ∀ operation, Coherent operation → Coherent (f operation)) :
    ∀ operation ∈ operations.modify index f, Coherent operation := by
  intro operation hoperation
  obtain ⟨place, hplace⟩ := List.mem_iff_getElem?.mp hoperation
  obtain ⟨old, hold, rfl⟩ := getElem?_modify_eq_some.mp hplace
  have hcoherent := h old (List.mem_of_getElem? hold)
  split_ifs
  · exact hf old hcoherent
  · exact hcoherent

section Steps

variable {before after : Session Value} {log : Log Moment}

/-- A step tracked by a log that goes on from the last one. -/
def Continues (log log' : Log Moment) (after : Session Value) : Prop :=
  Tracks after log' ∧ ∃ new, log'.history = log.history ++ new ∧ Later Before log.history new

theorem Tracks.recorded (h : Tracks before log) : log.history.Perm (moments before.state) := by
  rw [moments, ← h.spans]
  exact h.nested.recorded

theorem Tracks.increasing {log' : Log Moment} (h : Tracks before log)
    (hafter : Continues log log' after) : Increasing before.state after.state := by
  obtain ⟨h', new, hhistory, hlater⟩ := hafter
  have hbefore := h.recorded
  have hafter' := h'.recorded
  refine ⟨new, ?_, hlater.1, fun old hold => hlater.2 old (hbefore.mem_iff.mpr hold)⟩
  calc (moments after.state).Perm log'.history := hafter'.symm
    _ = log.history ++ new := hhistory
    List.Perm _ (moments before.state ++ new) := hbefore.append_right new

theorem Tracks.quiet (h : Tracks before log) (hquiet : Quiet before.state after.state)
    (hscopes : after.scopes = before.scopes) : Continues log log after := by
  have hspans : after.state.operations.map toSpan = before.state.operations.map toSpan := by
    have hspan : (toSpan : PendingOperation Value → Span Moment) = toSpan ∘ core := rfl
    rw [hspan, ← List.map_map, hquiet.operations, List.map_map]
  refine ⟨⟨?_, ?_, ?_, ?_, ?_, ?_, h.nested⟩, [], by simp, List.Pairwise.nil, by simp⟩
  · rw [hspans, h.spans]
  · rw [hscopes, h.stack]
  · rw [hquiet.current, h.current]
  · rw [hquiet.forward.scenarioStart]
    exact h.started.trans_le hquiet.forward.time
  · exact fun moment hmoment => (h.past moment hmoment).forward hquiet.forward
  · intro operation hoperation
    obtain ⟨index, hindex⟩ := List.mem_iff_getElem?.mp hoperation
    obtain ⟨old, hold, hcore⟩ := ActiveOperation.core_at hquiet.operations hindex
    have hcoherent := h.coherent old (List.mem_of_getElem? hold)
    have hstatus := congrArg PendingOperation.status hcore
    have hend := congrArg PendingOperation.endNs hcore
    have hcompletion := congrArg PendingOperation.completion hcore
    simp only [core] at hstatus hend hcompletion
    constructor
    · rw [hstatus, hend]
      exact hcoherent.ended
    · rw [hcompletion, hend]
      exact hcoherent.completed

theorem Tracks.begun (h : Tracks before log) {operation : PendingOperation Value}
    {abandonable : Bool} (hbegun : Begun before.state after.state operation)
    (hscopes : after.scopes = ⟨before.state.operations.length, abandonable⟩ :: before.scopes) :
    ∃ log', Continues log log' after := by
  have hspan : toSpan operation =
      ⟨log.stack.head?, instant operation.order operation.startNs, [], none⟩ := by
    simp [toSpan, hbegun.parent, h.current, hbegun.observations, hbegun.endNs]
  have hlength : log.spans.length = before.state.operations.length := by simp [h.spans]
  have hlater : Later Before log.history [instant operation.order operation.startNs] := by
    refine later_of_past h.past (List.pairwise_singleton _ _) fun moment hmoment => ?_
    obtain rfl := List.mem_singleton.mp hmoment
    exact ⟨hbegun.start.1, fun order horder => Option.some.inj horder ▸ hbegun.order.1⟩
  refine ⟨_, ⟨?_, ?_, ?_, ?_, ?_, ?_, h.nested.step (.begin hlater)⟩, _, rfl, hlater⟩
  · rw [hbegun.operations, List.map_append, List.map_singleton, hspan, h.spans]
  · rw [hscopes, List.map_cons, hlength, h.stack]
  · rw [hbegun.current, hlength, List.head?_cons]
  · rw [hbegun.forward.scenarioStart]
    exact h.started.trans_le hbegun.forward.time
  · refine past_append hbegun.forward h.past fun moment hmoment => ?_
    obtain rfl := List.mem_singleton.mp hmoment
    exact past_of_drawn hbegun.forward h.started hbegun.start.1 (Int.le_refl _) hbegun.start.2
      fun order horder => Option.some.inj horder ▸ hbegun.order.2
  · intro other hother
    rw [hbegun.operations] at hother
    rcases List.mem_append.mp hother with hold | hnew
    · exact h.coherent other hold
    · obtain rfl := List.mem_singleton.mp hnew
      exact ⟨by simp [hbegun.status, hbegun.endNs], by simp [hbegun.completion]⟩

theorem Tracks.observed (h : Tracks before log) {index : Nat} {observation : Observation Value}
    (hobserved : Observed before.state after.state index observation)
    (hscopes : after.scopes = before.scopes) : ∃ log', Continues log log' after := by
  obtain ⟨rest, hstack⟩ : ∃ rest, log.stack = index :: rest := by
    apply List.head?_eq_some_iff.mp
    rw [← h.current, hobserved.currentBefore]
  have hlater : Later Before log.history [CapturedSessions.observed observation] := by
    refine later_of_past h.past (List.pairwise_singleton _ _) fun moment hmoment => ?_
    obtain rfl := List.mem_singleton.mp hmoment
    exact ⟨hobserved.time.1, fun order horder => Option.some.inj horder ▸ hobserved.order.1⟩
  refine ⟨_, ⟨?_, ?_, ?_, ?_, ?_, ?_, h.nested.step (.mark hstack hlater)⟩, _, rfl, hlater⟩
  · rw [hobserved.operations, h.spans]
    refine (map_modify_comm fun operation _ => ?_).symm
    simp [toSpan, Span.mark]
  · rw [hscopes, h.stack]
  · rw [hobserved.current, hstack, List.head?_cons]
  · rw [hobserved.forward.scenarioStart]
    exact h.started.trans_le hobserved.forward.time
  · refine past_append hobserved.forward h.past fun moment hmoment => ?_
    obtain rfl := List.mem_singleton.mp hmoment
    exact past_of_drawn hobserved.forward h.started hobserved.time.1 (Int.le_refl _)
      hobserved.time.2 fun order horder => Option.some.inj horder ▸ hobserved.order.2
  · rw [hobserved.operations]
    exact Coherent.modify h.coherent fun operation hold => ⟨hold.ended, hold.completed⟩

/-- The moment of a close, with what the step has drawn for it. -/
theorem closing_drawn {state state' : State Value} {index : Nat}
    {completion : Option (Completion Value)} {endNs : Int} {status : Status}
    (h : Closed state state' index completion endNs status) :
    state.nextTimeNs ≤ (closing completion endNs).fromNs ∧
      (closing completion endNs).fromNs ≤ (closing completion endNs).toNs ∧
      (closing completion endNs).toNs = endNs ∧
      ∀ order ∈ (closing completion endNs).order,
        state.nextOrder ≤ order ∧ order < state'.nextOrder := by
  cases hcompletion : completion with
  | none => exact ⟨h.finish.1, Int.le_refl _, rfl, by simp [closing]⟩
  | some event =>
    obtain ⟨hfrom, hto, hlow, hhigh⟩ := h.stamped event hcompletion
    refine ⟨hfrom, hto.le, rfl, fun order horder => ?_⟩
    obtain rfl := Option.some.inj horder
    exact ⟨hlow, hhigh⟩

theorem Tracks.closed (h : Tracks before log) {scope : Scope}
    {completion : Option (Completion Value)} {endNs : Int} {status : Status}
    (hscope : before.scopes[0]? = some scope)
    (hclosed : Closed before.state after.state scope.index completion endNs status)
    (hscopes : after.scopes = before.scopes.eraseIdx 0) : ∃ log', Continues log log' after := by
  obtain ⟨scopes, hheld⟩ : ∃ scopes, before.scopes = scope :: scopes := by
    apply List.head?_eq_some_iff.mp
    rw [List.head?_eq_getElem?, hscope]
  have hstack : log.stack = scope.index :: scopes.map Scope.index := by
    rw [h.stack, hheld, List.map_cons]
  obtain ⟨hfrom, hlasts, hto, horder⟩ := closing_drawn hclosed
  have hlater : Later Before log.history ([] ++ [closing completion endNs]) := by
    refine later_of_past h.past (List.pairwise_singleton _ _) fun moment hmoment => ?_
    obtain rfl := List.mem_singleton.mp hmoment
    exact ⟨hfrom, fun order hmem => (horder order hmem).1⟩
  refine ⟨_, ⟨?_, ?_, ?_, ?_, ?_, ?_, h.nested.step (.close hstack hlater)⟩, _, rfl, hlater⟩
  · rw [hclosed.operations, h.spans]
    refine (map_modify_comm fun operation _ => ?_).symm
    simp [toSpan, close, Span.close]
  · rw [hscopes, hheld, List.eraseIdx_cons_zero]
  · have hcurrent : before.state.currentOperation = some scope.index := by
      rw [h.current, hstack, List.head?_cons]
    have hparent := h.nested.chained
    rw [hstack, h.spans] at hparent
    have hspan := hparent.1
    rw [List.getElem?_map, Option.map_map] at hspan
    obtain ⟨operation, hoperation, hhead⟩ := Option.map_eq_some_iff.mp hspan
    rw [hclosed.current, released, if_pos hcurrent, hoperation, Option.bind_some]
    exact hhead
  · rw [hclosed.forward.scenarioStart]
    exact h.started.trans_le hclosed.forward.time
  · refine past_append hclosed.forward h.past fun moment hmoment => ?_
    obtain rfl := List.mem_singleton.mp hmoment
    exact past_of_drawn hclosed.forward h.started hfrom hlasts (hto.trans_lt hclosed.finish.2)
      fun order hmem => (horder order hmem).2
  · rw [hclosed.operations]
    refine Coherent.modify h.coherent fun operation _ => ⟨by simp [close], ?_⟩
    intro event hevent last hlast
    obtain rfl := Option.some.inj hlast
    exact (hclosed.stamped event hevent).2.1

/-- No step of a session that goes on leaves the log. -/
theorem Tracks.move (h : Tracks before log) {closes : Option Nat} (hmove : Move before after closes)
    (hlast : ∀ position ∈ closes, position = 0) (hfailed : after.state.terminalError = none) :
    ∃ log', Continues log log' after := by
  cases hmove with
  | quiet hquiet hscopes => exact ⟨log, h.quiet hquiet hscopes⟩
  | begun hbegun hscopes => exact h.begun hbegun hscopes
  | observed hobserved hscopes => exact h.observed hobserved hscopes
  | closed hscope hclosed hscopes =>
    obtain rfl := hlast _ rfl
    exact h.closed hscope hclosed hscopes
  | lost hscope hlost hscopes => exact absurd hfailed hlost.failed
  | gone hscope hgone hstate hscopes =>
    -- The operation of a scope that is held is open.
    obtain rfl := hlast _ rfl
    rename_i scope
    have hmem : scope.index ∈ log.stack := by
      rw [h.stack]
      exact List.mem_map_of_mem (List.mem_of_getElem? hscope)
    obtain ⟨span, hspan, hopen⟩ := h.nested.exists_open hmem
    rw [h.spans, List.getElem?_map] at hspan
    obtain ⟨operation, hoperation, rfl⟩ := Option.map_eq_some_iff.mp hspan
    have hcoherent := h.coherent operation (List.mem_of_getElem? hoperation)
    have hend : operation.endNs = none := Option.map_eq_none_iff.mp hopen
    exact absurd (hcoherent.ended.mpr hend) (hgone operation hoperation)

end Steps

/-! ### Runs -/

theorem failed_before {session final : Session Value} {actions : List (Action Value)}
    (hstep : 0 < session.state.config.stepNs) (hrun : run session actions = some final)
    (hfailed : final.state.terminalError = none) : session.state.terminalError = none := by
  induction actions generalizing session with
  | nil =>
    obtain rfl := Option.some.inj hrun
    exact hfailed
  | cons action rest ih =>
    obtain ⟨next, hnext, hrest⟩ := Option.bind_eq_some_iff.mp hrun
    have hforward := (step_move hstep hnext).forward
    exact hforward.failed (ih (hforward.config ▸ hstep) hrest)

/-- Scopes are closed last in, first out. -/
def LastInFirstOut (actions : List (Action Value)) : Prop :=
  ∀ action ∈ actions, ∀ position ∈ action.closes, position = 0

theorem Tracks.current_lt {session : Session Value} {log : Log Moment} (h : Tracks session log) :
    ∀ index ∈ session.state.currentOperation, index < session.state.operations.length := by
  intro index hindex
  rw [h.current] at hindex
  have hbound := h.nested.bound index (List.mem_of_mem_head? hindex)
  rwa [h.spans, List.length_map] at hbound

/-- A run that keeps to the order of its scopes and ends without a failure is tracked to
its end, and every step of it records later than all before. -/
theorem run_tracked {session final : Session Value} {log : Log Moment}
    {actions : List (Action Value)} (hvalid : validateConfig session.state.config = .ok ())
    (htracks : Tracks session log) (hlabelled : Labelled session.state)
    (hlifo : LastInFirstOut actions) (hrun : run session actions = some final)
    (hfailed : final.state.terminalError = none) :
    (∃ log', Tracks final log') ∧ Labelled final.state ∧
      final.state.config = session.state.config ∧
      EveryStep (fun before _ after => Increasing before.state after.state) session actions := by
  induction actions generalizing session log with
  | nil =>
    obtain rfl := Option.some.inj hrun
    exact ⟨⟨log, htracks⟩, hlabelled, rfl, trivial⟩
  | cons action rest ih =>
    obtain ⟨next, hnext, hrest⟩ := Option.bind_eq_some_iff.mp hrun
    have hmove := step_move (stepNs_pos hvalid) hnext
    have hconfig := hmove.forward.config
    have hvalid' : validateConfig next.state.config = .ok () := hconfig ▸ hvalid
    have hfailed' := failed_before (stepNs_pos hvalid') hrest hfailed
    obtain ⟨log', hnext'⟩ := htracks.move hmove (hlifo action List.mem_cons_self) hfailed'
    have hlabelled' := hlabelled.move hvalid hmove htracks.current_lt
    have hlifo' : LastInFirstOut rest := fun other hother =>
      hlifo other (List.mem_cons_of_mem _ hother)
    obtain ⟨hlog, hlabels, hsame, hevery⟩ := ih hvalid' hnext'.1 hlabelled' hlifo' hrest
    refine ⟨hlog, hlabels, hsame.trans hconfig, fun other hother => ?_⟩
    obtain rfl := Option.some.inj (hnext.symm.trans hother)
    exact ⟨htracks.increasing hnext', hevery⟩

/-! ### The capture -/

theorem finish_ok {state : State Value} {written : Except String Unit} {capture : Capture Value}
    (h : finish state written = .ok capture) :
    state.terminalError = none ∧ build state = .ok capture := by
  unfold finish at h
  by_cases houtstanding : state.hasOutstanding
  · rw [if_pos houtstanding] at h
    cases hclose : closeOutstanding state with
    | error error => simp [hclose] at h
    | ok closed =>
      simp only [hclose] at h
      split_ifs at h
      split at h <;> cases h
  · rw [if_neg houtstanding] at h
    cases hterminal : state.terminalError with
    | some error => simp [hterminal] at h
    | none =>
      simp only [hterminal] at h
      split_ifs at h with hconsumed hsidecar
      · cases hbuild : build state with
        | error failure => simp [hbuild] at h
        | ok built =>
          simp only [hbuild] at h
          split at h
          · exact ⟨rfl, h⟩
          · cases h
      · cases hbuild : build state with
        | error failure => simp [hbuild] at h
        | ok built =>
          simp only [hbuild] at h
          exact ⟨rfl, h⟩

theorem build_ok {state : State Value} {capture : Capture Value}
    (h : build state = .ok capture) :
    collect PendingOperation.span state.operations = some capture.operations ∧
      capture.run.spanId = state.config.runSpanId ∧
      capture.scenario.spanId = state.config.scenarioSpanId ∧
      capture.scenario.startNs = state.scenarioStart ∧
      capture.scenario.endNs = state.nextTimeNs := by
  unfold build at h
  cases hterminal : state.terminalError with
  | some error => simp [hterminal] at h
  | none =>
  cases hend : checkedAdd state.nextTimeNs state.config.stepNs with
  | none => simp [hterminal, hend] at h
  | some runEndNs =>
  cases hcollect : collect PendingOperation.span state.operations with
  | none => simp [hterminal, hend, hcollect] at h
  | some operations =>
    simp only [hterminal, hend, hcollect, Except.ok.injEq] at h
    subst h
    exact ⟨rfl, rfl, rfl, rfl, rfl⟩

/-- What a span keeps of a closed operation. -/
structure Shows (operation : PendingOperation Value) (span : OperationSpan Value) : Prop where
  order : span.order = operation.order
  spanId : span.spanId = operation.spanId
  parentId : span.parentId = operation.parentSpanId
  startNs : span.startNs = operation.startNs
  endNs : operation.endNs = some span.endNs
  observations : span.observations = operation.observations
  completion : span.completion = operation.completion

theorem shows_of_span {operation : PendingOperation Value} {span : OperationSpan Value}
    (h : operation.span = some span) : Shows operation span := by
  obtain ⟨endNs, hend, hspan⟩ := Option.bind_eq_some_iff.mp h
  obtain ⟨status, -, rfl⟩ := Option.map_eq_some_iff.mp hspan
  exact ⟨rfl, rfl, rfl, rfl, hend, rfl, rfl⟩

section Shown

variable {operation : PendingOperation Value} {span : OperationSpan Value}

theorem Shows.start (h : Shows operation span) : (toSpan operation).start = begins span := by
  rw [toSpan, begins, h.order, h.startNs]

theorem Shows.finish (h : Shows operation span) : (toSpan operation).finish = some (ends span) := by
  rw [toSpan, ends, h.endNs, h.completion, Option.map_some]

theorem Shows.events (h : Shows operation span) : (toSpan operation).events = recorded span := by
  rw [Span.events, h.start, h.finish, recorded, h.observations]
  rfl

end Shown

section Shape

variable {session : Session Value} {log : Log Moment} {capture : Capture Value}

/-- The spans of a capture stand where their operations stood. -/
theorem shown_at {operations : List (PendingOperation Value)} {spans : List (OperationSpan Value)}
    (h : collect PendingOperation.span operations = some spans) {index : Nat} :
    (∀ {span : OperationSpan Value}, spans[index]? = some span →
      ∃ operation, operations[index]? = some operation ∧ Shows operation span) ∧
    ∀ {operation : PendingOperation Value}, operations[index]? = some operation →
      ∃ span, spans[index]? = some span ∧ Shows operation span := by
  have hplace := congrArg (·[index]?) (collect_eq_some_iff.mp h)
  simp only [List.getElem?_map] at hplace
  constructor
  · intro span hspan
    rw [hspan] at hplace
    obtain ⟨operation, hoperation, hshown⟩ := Option.map_eq_some_iff.mp hplace
    exact ⟨operation, hoperation, shows_of_span hshown⟩
  · intro operation hoperation
    rw [hoperation] at hplace
    obtain ⟨span, hspan, hshown⟩ := Option.map_eq_some_iff.mp hplace.symm
    exact ⟨span, hspan, shows_of_span hshown.symm⟩

/-- The span of the log for a span of the capture. -/
theorem Tracks.span_at (h : Tracks session log)
    (hshown : collect PendingOperation.span session.state.operations = some capture.operations)
    {index : Nat} {span : OperationSpan Value} (hspan : capture.operations[index]? = some span) :
    ∃ operation, session.state.operations[index]? = some operation ∧ Shows operation span ∧
      log.spans[index]? = some (toSpan operation) := by
  obtain ⟨operation, hoperation, hshows⟩ := (shown_at hshown).1 hspan
  exact ⟨operation, hoperation, hshows, by rw [h.spans, List.getElem?_map, hoperation,
    Option.map_some]⟩

theorem wellFormed_parented (h : Tracks session log) (hlabelled : Labelled session.state)
    (hshown : collect PendingOperation.span session.state.operations = some capture.operations)
    (hscenario : capture.scenario.spanId = session.state.config.scenarioSpanId)
    {span : OperationSpan Value} (hspan : span ∈ capture.operations) :
    span.parentId = capture.scenario.spanId ∨
      ∃ parent ∈ capture.operations, span.parentId = parent.spanId ∧
        Before (begins parent) (begins span) ∧ Before (ends span) (ends parent) := by
  obtain ⟨index, hindex⟩ := List.mem_iff_getElem?.mp hspan
  obtain ⟨operation, hoperation, hshows, hlogged⟩ := h.span_at hshown hindex
  have hnamed := hlabelled.identified.named (identity operation)
    (List.mem_map_of_mem (List.mem_of_getElem? hoperation))
  cases hparent : operation.parentOperation with
  | none =>
    left
    rw [hshows.parentId, hscenario]
    simpa [identity, parentSpan, hparent] using hnamed
  | some parent =>
    right
    obtain ⟨-, outer, houter, hstart, hfinish⟩ := h.nested.within hlogged hparent
    rw [h.spans, List.getElem?_map] at houter
    obtain ⟨above, habove, rfl⟩ := Option.map_eq_some_iff.mp houter
    obtain ⟨shown, hplace, hshows'⟩ := (shown_at hshown).2 habove
    refine ⟨shown, List.mem_of_getElem? hplace, ?_, ?_, ?_⟩
    · rw [hshows.parentId, hshows'.spanId]
      simpa [identity, parentSpan, hparent, habove] using hnamed
    · rw [← hshows.start, ← hshows'.start]
      exact hstart
    · obtain ⟨finish, hinner, hlast⟩ := hfinish (ends shown) hshows'.finish
      rw [hshows.finish] at hinner
      exact Option.some.inj hinner ▸ hlast

theorem wellFormed_apart (h : Tracks session log) (hlabelled : Labelled session.state)
    (hshown : collect PendingOperation.span session.state.operations = some capture.operations) :
    capture.operations.Pairwise fun a b => a.parentId = b.parentId → a.endNs < b.startNs := by
  apply List.pairwise_iff_getElem.mpr
  intro i j hi hj hij hsame
  have hfirst := List.getElem?_eq_getElem hi
  have hsecond := List.getElem?_eq_getElem hj
  generalize capture.operations[i] = first at hfirst hsame ⊢
  generalize capture.operations[j] = second at hsecond hsame ⊢
  obtain ⟨a, ha, hshowsA, hloggedA⟩ := h.span_at hshown hfirst
  obtain ⟨b, hb, hshowsB, hloggedB⟩ := h.span_at hshown hsecond
  have hparent : a.parentOperation = b.parentOperation := by
    refine hlabelled.identified.parent_injective (a := identity a) (b := identity b)
      (List.mem_map_of_mem (List.mem_of_getElem? ha))
      (List.mem_map_of_mem (List.mem_of_getElem? hb)) ?_
    exact hshowsA.parentId.symm.trans (hsame.trans hshowsB.parentId)
  obtain ⟨finish, hfinish, hbefore⟩ := h.nested.apart hij hloggedA hloggedB hparent
  rw [hshowsA.finish] at hfinish
  obtain rfl := Option.some.inj hfinish
  rw [hshowsB.start] at hbefore
  have hends : (ends first).toNs = first.endNs := by
    unfold ends closing
    split <;> rfl
  exact hends ▸ hbefore.1

theorem recorded_eq (h : Tracks session log)
    (hshown : collect PendingOperation.span session.state.operations = some capture.operations) :
    log.spans.flatMap Span.events = capture.operations.flatMap recorded := by
  have hmap : capture.operations.map recorded = session.state.operations.map fun operation =>
      (toSpan operation).events :=
    map_of_collect hshown fun operation span hspan => (shows_of_span hspan).events.symm
  rw [h.spans, List.flatMap_map, List.flatMap_def, List.flatMap_def, hmap]

theorem wellFormed_completed (h : Tracks session log)
    (hshown : collect PendingOperation.span session.state.operations = some capture.operations)
    {span : OperationSpan Value} (hspan : span ∈ capture.operations)
    {event : Completion Value} (hevent : event ∈ span.completion) :
    (eventOf event).2 < span.endNs ∧ ∀ observation ∈ span.observations,
      observation.order < (eventOf event).1 ∧ observation.timeNs < (eventOf event).2 := by
  obtain ⟨index, hindex⟩ := List.mem_iff_getElem?.mp hspan
  obtain ⟨operation, hoperation, hshows, hlogged⟩ := h.span_at hshown hindex
  have hcoherent := h.coherent operation (List.mem_of_getElem? hoperation)
  refine ⟨hcoherent.completed event (hshows.completion ▸ hevent) _ hshows.endNs, ?_⟩
  intro observation hobservation
  have hordered := h.nested.inside hlogged
  rw [hshows.events] at hordered
  have hclosing : ends span = ⟨some (eventOf event).1, (eventOf event).2, span.endNs⟩ := by
    rw [ends, Option.mem_def.mp hevent]
    rfl
  have hbefore := (List.pairwise_append.mp (List.pairwise_cons.mp hordered).2).2.2
    (observed observation) (List.mem_map_of_mem hobservation) (ends span)
    (List.mem_singleton_self _)
  rw [hclosing] at hbefore
  exact ⟨hbefore.2 _ rfl _ rfl, hbefore.1⟩

theorem wellFormed_of_tracks (h : Tracks session log) (hlabelled : Labelled session.state)
    (hbuild : build session.state = .ok capture) : WellFormed capture := by
  obtain ⟨hshown, hrun, hscenario, hstart, hend⟩ := build_ok hbuild
  have hrecorded := recorded_eq h hshown
  have hperm : log.history.Perm (capture.operations.flatMap recorded) :=
    hrecorded ▸ h.nested.recorded
  constructor
  case distinct =>
    have hids : capture.operations.map OperationSpan.spanId =
        (session.state.operations.map identity).map Identity.spanId := by
      rw [List.map_map]
      exact map_of_collect hshown fun operation span hspan => (shows_of_span hspan).spanId
    rw [hids, hscenario, hrun]
    exact hlabelled.identified.distinct
  case parented => exact fun span hspan => wellFormed_parented h hlabelled hshown hscenario hspan
  case increasing => exact ⟨log.history, hperm, h.nested.increasing⟩
  case ordered =>
    intro span hspan
    obtain ⟨index, hindex⟩ := List.mem_iff_getElem?.mp hspan
    obtain ⟨operation, hoperation, hshows, hlogged⟩ := h.span_at hshown hindex
    exact hshows.events ▸ h.nested.inside hlogged
  case completed => exact fun span hspan event hevent => wellFormed_completed h hshown hspan hevent
  case apart => exact wellFormed_apart h hlabelled hshown
  case enclosed =>
    intro span hspan moment hmoment
    have hpast := h.past moment (hperm.mem_iff.mpr (List.mem_flatMap.mpr ⟨span, hspan, hmoment⟩))
    rw [hstart, hend]
    exact ⟨hpast.started, hpast.lasts, hpast.time⟩

end Shape

section Sessions

variable {config : Config} {sidecarPath : Option String} {registry : Except CaptureError Unit}
  {state : State Value} {final : Session Value} {actions : List (Action Value)}
  {written : Except String Unit} {capture : Capture Value}

/-- The log of a session that is captured. -/
theorem captured_tracked (hstart : start config sidecarPath registry = .ok state)
    (hlifo : LastInFirstOut actions) (hrun : run ⟨state, []⟩ actions = some final)
    (hfinish : finish final.state written = .ok capture) :
    ((∃ log, Tracks final log) ∧ Labelled final.state ∧ build final.state = .ok capture) ∧
      EveryStep (fun before _ after => Increasing before.state after.state) ⟨state, []⟩ actions := by
  obtain ⟨hfailed, hbuild⟩ := finish_ok hfinish
  have hvalid : validateConfig state.config = .ok () := by
    obtain ⟨hvalid, hconfig, -⟩ := start_ok hstart
    rw [hconfig]
    exact hvalid
  obtain ⟨htracks, hlabelled, -, hevery⟩ :=
    run_tracked hvalid (tracks_start hstart) (labelled_start hstart) hlifo hrun hfailed
  exact ⟨⟨htracks, hlabelled, hbuild⟩, hevery⟩

end Sessions

/-- A session whose scopes close last in, first out, records every moment later than all
before it, and what it captures, if it finishes, is well formed. -/
theorem captured_session {config : Config} {sidecarPath : Option String}
    {registry : Except CaptureError Unit} {state : State Value} {final : Session Value}
    {actions : List (Action Value)} {written : Except String Unit} {capture : Capture Value}
    (hstart : start config sidecarPath registry = .ok state) (hlifo : LastInFirstOut actions)
    (hrun : run ⟨state, []⟩ actions = some final)
    (hfinish : finish final.state written = .ok capture) :
    WellFormed capture ∧
      EveryStep (fun before _ after => Increasing before.state after.state) ⟨state, []⟩ actions := by
  obtain ⟨⟨⟨log, htracks⟩, hlabelled, hbuild⟩, hevery⟩ :=
    captured_tracked hstart hlifo hrun hfinish
  exact ⟨wellFormed_of_tracks htracks hlabelled hbuild, hevery⟩

/-- A read below an open one, with an observation on each, and both completed. -/
def nestedSession : List (Action String) :=
  ActiveOperation.nestedReads ++ [.observe "size" "3", .complete 0 (.result "abc") false (.ok ()),
    .observe "position" "3", ActiveOperation.closeUnit 0]

theorem captured_session_nested :
    ∃ final capture, run ⟨ActiveOperation.orderingState, []⟩ nestedSession = some final ∧
      finish final.state (.ok ()) = .ok capture ∧ capture.operations.length = 2 ∧
      WellFormed capture ∧ EveryStep (fun before _ after => Increasing before.state after.state)
        ⟨ActiveOperation.orderingState, []⟩ nestedSession := by
  have hlifo : LastInFirstOut nestedSession := by
    intro action haction position hposition
    simp only [nestedSession, ActiveOperation.nestedReads, ActiveOperation.closeUnit,
      List.cons_append, List.nil_append, List.mem_cons, List.not_mem_nil, or_false] at haction
    rcases haction with rfl | rfl | rfl | rfl | rfl | rfl <;>
      simp_all [Action.closes]
  have hstart : start ActiveOperation.orderingConfig none (.ok ()) =
      .ok ActiveOperation.orderingState := rfl
  refine ⟨_, _, rfl, rfl, rfl, ?_⟩
  exact captured_session hstart hlifo rfl (rfl : finish _ (.ok ()) = .ok _)

end SpecGate.CapturedSessions

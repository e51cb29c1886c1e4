import SpecGate.PollSchedules

/-!
Runs of polled futures. What an event does to the world is said once, and with it that every
event keeps the invariant, records an operation below the one that is open, and opens or closes
one frame at most. Over a run, the parents are the lexical ones, and every poll puts back the
session and the current operation that it found.
-/
namespace SpecGate.PollSchedules

open CaptureSession CaptureEffects InstrumentedFutures
open CaptureRuns (open_or_closed start_ok stepNs_pos)
open SidecarRuns (reportedError)

variable {Value : Type}

/-! ### Moves -/

/-- What an event does to the world. -/
inductive Move (world : World Value) : Event Value → World Value → Prop
  | started {thread : Nat} {config : Config} {sidecarPath : Option String}
      {registry : Except CaptureError Unit} {state : State Value}
      (hsession : world.session = none)
      (hstart : CaptureSession.start config sidecarPath registry = .ok state) :
      Move world (.start thread config sidecarPath registry)
        { world with
          session := some state
          installed := setSlot world.installed thread true }
  | kept {event : Event Value} : Move world event world
  | constructed {thread : Nat} (hsettled : world.settled = true) :
      Move world (.construct thread)
        { world with
          futures := world.futures ++
            [⟨world.captureAsyncContext thread, world.active thread, .fresh⟩] }
  | polled {thread future : Nat} {found : Future} (hsettled : world.settled = true)
      (hmem : future ∉ polledIn world.stack) (hfound : world.futures[future]? = some found)
      (hphase : found.phase ≠ .done) :
      Move world (.poll thread future) (world.install thread future found.context)
  | begun {thread future : Nat} {saved : Option (Bool × Option Nat)} {rest : List Frame}
      {found : Future} {componentId operationName : String}
      {folded : Except CaptureError (List (String × Value) × List String)}
      (hstack : world.stack = .poll thread future saved :: rest)
      (hfound : world.futures[future]? = some found) (hphase : found.phase = .fresh) :
      Move world (.begin componentId operationName folded)
        ((world.beginScope thread componentId operationName folded).2.setPhase future
          (.running (world.beginScope thread componentId operationName folded).1))
  | entered {thread index : Nat} {next : World Value} {componentId operationName : String}
      {folded : Except CaptureError (List (String × Value) × List String)}
      (hsettled : world.settled = true)
      (hbegin : world.beginScope thread componentId operationName folded = (some index, next)) :
      Move world (.enter thread componentId operationName folded)
        { next with stack := .scope thread index :: next.stack }
  | refused {thread : Nat} {next : World Value} {componentId operationName : String}
      {folded : Except CaptureError (List (String × Value) × List String)}
      (hbegin : world.beginScope thread componentId operationName folded = (none, next)) :
      Move world (.enter thread componentId operationName folded) next
  | left {thread index : Nat} {rest : List Frame} {ending : Ending Value}
      (hstack : world.stack = .scope thread index :: rest) :
      Move world (.leave ending)
        { world.mapSession fun state => endScope state index false ending with stack := rest }
  | concluded {thread future : Nat} {saved : Option (Bool × Option Nat)} {rest : List Frame}
      {found : Future} {scope : Option Nat} {ending : Ending Value}
      (hstack : world.stack = .poll thread future saved :: rest)
      (hfound : world.futures[future]? = some found) (hphase : found.phase = .running scope) :
      Move world (.conclude ending) ((world.endOwn scope ending).setPhase future .done)
  | returned {thread future : Nat} {saved : Option (Bool × Option Nat)} {rest : List Frame}
      {found : Future} (hstack : world.stack = .poll thread future saved :: rest)
      (hfound : world.futures[future]? = some found) :
      Move world .ret (world.restore thread future saved rest)
  | dropped {thread future : Nat} {found : Future} {scope : Option Nat} {panicking : Bool}
      (hsettled : world.settled = true) (hmem : future ∉ polledIn world.stack)
      (hfound : world.futures[future]? = some found) (hphase : found.phase = .running scope) :
      Move world (.drop thread future panicking)
        ((world.endOwn scope (.dropped panicking)).setPhase future .done)
  | discarded {thread future : Nat} {found : Future} {panicking : Bool}
      (hmem : future ∉ polledIn world.stack) (hfound : world.futures[future]? = some found)
      (hphase : found.phase = .fresh) :
      Move world (.drop thread future panicking) (world.setPhase future .done)
  | recorded {thread : Nat} {note : Note Value} :
      Move world (.record thread note) (world.mapSession (note.apply ·))

theorem mayRun_settled {world : World Value} {thread : Nat} (h : world.mayRun thread = true) :
    world.settled = true := (Bool.and_eq_true_iff.mp h).1

theorem step_move {world next : World Value} {event : Event Value}
    (h : step world event = some next) : Move world event next := by
  cases event with
  | start thread config sidecarPath registry =>
    obtain ⟨hrun, h⟩ := Option.ite_none_right_eq_some.mp h
    obtain ⟨-, hsession⟩ := Bool.and_eq_true_iff.mp hrun
    cases hstart : CaptureSession.start config sidecarPath registry with
    | error error =>
      rw [hstart] at h
      obtain rfl := Option.some.inj h
      exact .kept
    | ok state =>
      rw [hstart] at h
      obtain rfl := Option.some.inj h
      exact .started (Option.isNone_iff_eq_none.mp hsession) hstart
  | construct thread =>
    obtain ⟨hrun, h⟩ := Option.ite_none_right_eq_some.mp h
    obtain rfl := Option.some.inj h
    exact .constructed (mayRun_settled hrun)
  | poll thread future =>
    obtain ⟨hrun, h⟩ := Option.ite_none_right_eq_some.mp h
    obtain ⟨hrun, hmem⟩ := Bool.and_eq_true_iff.mp hrun
    obtain ⟨found, hfound, h⟩ := Option.bind_eq_some_iff.mp h
    obtain ⟨hphase, h⟩ := Option.ite_none_left_eq_some.mp h
    obtain rfl := Option.some.inj h
    exact .polled (mayRun_settled hrun) (by simpa using hmem) hfound hphase
  | begin componentId operationName folded =>
    unfold step at h
    cases hstack : world.stack with
    | nil =>
      rw [hstack] at h
      cases h
    | cons frame rest =>
      rw [hstack] at h
      cases frame with
      | scope thread index => cases h
      | poll thread future saved =>
        obtain ⟨found, hfound, h⟩ := Option.bind_eq_some_iff.mp h
        obtain ⟨hphase, h⟩ := Option.ite_none_right_eq_some.mp h
        obtain rfl := Option.some.inj h
        exact .begun hstack hfound hphase
  | enter thread componentId operationName folded =>
    obtain ⟨hrun, h⟩ := Option.ite_none_right_eq_some.mp h
    cases hbegin : world.beginScope thread componentId operationName folded with
    | mk scope after =>
      rw [hbegin] at h
      cases scope with
      | none =>
        obtain rfl := Option.some.inj h
        exact .refused hbegin
      | some index =>
        obtain rfl := Option.some.inj h
        exact .entered (mayRun_settled hrun) hbegin
  | leave ending =>
    unfold step at h
    cases hstack : world.stack with
    | nil =>
      rw [hstack] at h
      cases h
    | cons frame rest =>
      rw [hstack] at h
      cases frame with
      | poll thread future saved => cases h
      | scope thread index =>
        obtain rfl := Option.some.inj h
        exact .left hstack
  | conclude ending =>
    unfold step at h
    cases hstack : world.stack with
    | nil =>
      rw [hstack] at h
      cases h
    | cons frame rest =>
      rw [hstack] at h
      cases frame with
      | scope thread index => cases h
      | poll thread future saved =>
        obtain ⟨found, hfound, h⟩ := Option.bind_eq_some_iff.mp h
        cases hphase : found.phase with
        | fresh =>
          rw [hphase] at h
          cases h
        | done =>
          rw [hphase] at h
          cases h
        | running scope =>
          rw [hphase] at h
          obtain rfl := Option.some.inj h
          exact .concluded hstack hfound hphase
  | ret =>
    unfold step at h
    cases hstack : world.stack with
    | nil =>
      rw [hstack] at h
      cases h
    | cons frame rest =>
      rw [hstack] at h
      cases frame with
      | scope thread index => cases h
      | poll thread future saved =>
        obtain ⟨found, hfound, h⟩ := Option.bind_eq_some_iff.mp h
        obtain ⟨-, h⟩ := Option.ite_none_left_eq_some.mp h
        obtain rfl := Option.some.inj h
        exact .returned hstack hfound
  | drop thread future panicking =>
    obtain ⟨hrun, h⟩ := Option.ite_none_right_eq_some.mp h
    obtain ⟨hrun, hmem⟩ := Bool.and_eq_true_iff.mp hrun
    have hmem : future ∉ polledIn world.stack := by simpa using hmem
    obtain ⟨found, hfound, h⟩ := Option.bind_eq_some_iff.mp h
    cases hphase : found.phase with
    | fresh =>
      rw [hphase] at h
      obtain rfl := Option.some.inj h
      exact .discarded hmem hfound hphase
    | done =>
      rw [hphase] at h
      cases h
    | running scope =>
      rw [hphase] at h
      obtain rfl := Option.some.inj h
      exact .dropped (mayRun_settled hrun) hmem hfound hphase
  | record thread note =>
    obtain ⟨hrun, h⟩ := Option.ite_none_right_eq_some.mp h
    obtain rfl := Option.some.inj h
    split
    · exact .recorded
    · exact .kept

/-! ### Effects on the session -/

/-- The session goes forward and records no operation. -/
structure Carries (before after : State Value) : Prop where
  forward : Forward before after
  parents : after.operations.map PendingOperation.parentOperation =
    before.operations.map PendingOperation.parentOperation

theorem carries_of_quiet {before after : State Value} (h : Quiet before after) :
    Carries before after := by
  refine ⟨h.forward, ?_⟩
  have hcore := congrArg (List.map PendingOperation.parentOperation) h.operations
  rwa [List.map_map, List.map_map] at hcore

theorem carries_setCurrent (current : Option Nat) (state : State Value) :
    Carries state (setCurrent current state) :=
  ⟨⟨rfl, rfl, Int.le_refl _, Nat.le_refl _, id⟩, rfl⟩

theorem endScope_carries {state : State Value} (hstep : 0 < state.config.stepNs) (index : Nat)
    (abandonable : Bool) (ending : Ending Value) :
    Carries state (endScope state index abandonable ending) := by
  rcases open_or_closed state index with ⟨operation, hoperation, hopen⟩ | hclosed
  · have heffect := endScope_cases hstep ⟨operation, hoperation, hopen, rfl⟩ abandonable ending
    rcases heffect with ⟨completion, endNs, status, hclosed⟩ | hlost
    · refine ⟨hclosed.forward, ?_⟩
      rw [hclosed.operations]
      exact NestedSpans.map_modify_eq fun _ => rfl
    · exact ⟨hlost.forward, by rw [hlost.operations]⟩
  · cases ending with
    | completed terminal panicking written =>
      have hsame := complete_closed hclosed abandonable panicking terminal written
      exact ⟨by rw [endScope, hsame]; exact Forward.refl state, by rw [endScope, hsame]⟩
    | dropped panicking =>
      have hsame := dropScope_closed hclosed abandonable panicking
      exact ⟨by rw [endScope, hsame]; exact Forward.refl state, by rw [endScope, hsame]⟩

theorem note_carries {state : State Value} (hstep : 0 < state.config.stepNs) (note : Note Value) :
    Carries state (note.apply state) := by
  rcases note_cases hstep note with hquiet | ⟨index, observation, hobserved⟩
  · exact carries_of_quiet hquiet
  · refine ⟨hobserved.forward, ?_⟩
    rw [hobserved.operations]
    exact NestedSpans.map_modify_eq fun _ => rfl

/-- An operation begins on a thread that holds the session, or nothing does. -/
theorem beginScope_cases {world : World Value} {thread : Nat} {componentId operationName : String}
    {folded : Except CaptureError (List (String × Value) × List String)}
    (hstep : ∀ state, world.session = some state → 0 < state.config.stepNs) :
    (∃ state after operation, world.session = some state ∧ state.terminalError = none ∧
        Begun state after operation ∧
          world.beginScope thread componentId operationName folded =
            (some state.operations.length, { world with session := some after })) ∨
      (∃ state after, world.session = some state ∧ Carries state after ∧
        after.terminalError ≠ none ∧
          world.beginScope thread componentId operationName folded =
            (none, { world with session := some after })) ∨
      ((world.installed thread = false ∨ world.session = none) ∧
        world.beginScope thread componentId operationName folded = (none, world)) := by
  unfold World.beginScope
  cases hslot : world.installed thread with
  | false => exact .inr (.inr ⟨.inl rfl, rfl⟩)
  | true =>
  cases hsession : world.session with
  | none => exact .inr (.inr ⟨.inr rfl, rfl⟩)
  | some state =>
    cases hbegin : beginActive state componentId operationName folded with
    | mk result after =>
      rcases beginActive_cases (hstep state hsession) hbegin with
        ⟨⟨error, rfl⟩, hwaits⟩ | ⟨rfl, hhealthy, operation, hbegun⟩
      · refine .inr (.inl ⟨state, after.fail (reportedError error), rfl, ?_, ?_, ?_⟩)
        · have hquiet := carries_of_quiet hwaits.quiet
          exact ⟨hquiet.forward.trans (forward_fail after _), hquiet.parents⟩
        · exact Option.some_ne_none _
        · simp only [hbegin]
      · refine .inl ⟨state, after, operation, rfl, hhealthy, hbegun, ?_⟩
        simp only [hbegin]

/-! ### Every step keeps the invariant -/

theorem invariant_blank {world : World Value} (hsession : world.session = none)
    (h : Blank world) : Invariant world := by
  unfold Invariant
  rw [hsession]
  exact h

theorem invariant_tracked {world : World Value} {state : State Value}
    (hsession : world.session = some state) (hstep : 0 < state.config.stepNs)
    (h : state.terminalError = none → Tracked world state) : Invariant world := by
  unfold Invariant
  rw [hsession]
  exact ⟨hstep, h⟩

theorem Invariant.stepNs {world : World Value} (h : Invariant world) {state : State Value}
    (hsession : world.session = some state) : 0 < state.config.stepNs := by
  unfold Invariant at h
  rw [hsession] at h
  exact h.1

section Blank

variable {world : World Value}

theorem Blank.setPhase (h : Blank world) (hsession : world.session = none) (future : Nat)
    {phase : Phase} (hphase : ∀ index, phase ≠ .running (some index)) :
    Invariant (world.setPhase future phase) := by
  refine invariant_blank hsession ⟨h.slots, ?_, h.frames⟩
  intro place found' hfound'
  obtain ⟨found, hfound, rfl⟩ := setPhase_lookup hfound'
  split
  · exact ⟨(h.futures hfound).1, hphase⟩
  · exact h.futures hfound

theorem Blank.started (h : Blank world) (hstack : world.stack = []) {thread : Nat}
    {config : Config} {sidecarPath : Option String} {registry : Except CaptureError Unit}
    {state : State Value} (hstart : CaptureSession.start config sidecarPath registry = .ok state) :
    Invariant { world with
      session := some state
      installed := setSlot world.installed thread true } := by
  obtain ⟨hconfig, hsame, -, hcurrent, -, -⟩ := start_ok hstart
  refine invariant_tracked rfl (hsame ▸ stepNs_pos hconfig) fun _ => ?_
  exact {
    current := by
      rw [hcurrent, hstack]
      rfl
    frames := by
      rw [hstack]
      trivial
    steady := fun _ _ _ hframe => by
      rw [hstack] at hframe
      cases hframe
    polledOnce := by
      rw [hstack]
      exact List.nodup_nil
    scopesOnce := by
      rw [hstack]
      exact List.nodup_nil
    waiting := fun hfound hcontext => by
      rw [(h.futures hfound).1] at hcontext
      cases hcontext
    owned := fun hfound hphase => absurd hphase ((h.futures hfound).2 _)
    bare := fun hfound _ => (h.futures hfound).1
    ownApart := fun hleft _ hphase => absurd hphase ((h.futures hleft).2 _)
    scopesApart := fun hfound hphase => absurd hphase ((h.futures hfound).2 _)
    slots := fun _ _ _ hframe => by
      rw [hstack] at hframe
      cases hframe
    direct := fun _ _ _ _ hrest => by
      rw [hstack] at hrest
      cases hrest }

/-- Without a session nothing is installed. -/
theorem Blank.moved {next : World Value} {event : Event Value} (h : Blank world)
    (hsession : world.session = none) (hsound : Sound world event)
    (hmove : Move world event next) : Invariant next := by
  have hbegin : ∀ thread componentId operationName folded,
      world.beginScope thread componentId operationName folded = (none, world) := by
    intro thread componentId operationName folded
    unfold World.beginScope
    rw [h.slots thread]
  have howned : ∀ {future : Nat} {found : Future} {scope : Option Nat},
      world.futures[future]? = some found → found.phase = .running scope → scope = none := by
    intro future found scope hfound hphase
    cases scope with
    | none => rfl
    | some index => exact absurd hphase ((h.futures hfound).2 index)
  cases hmove with
  | started hnone hstart => exact h.started hsound hstart
  | kept => exact invariant_blank hsession h
  | @constructed thread hsettled =>
    refine invariant_blank hsession ⟨h.slots, ?_, h.frames⟩
    intro future found hfound
    by_cases hlt : future < world.futures.length
    · rw [List.getElem?_append_left hlt] at hfound
      exact h.futures hfound
    · rw [List.getElem?_append_right (Nat.le_of_not_lt hlt)] at hfound
      obtain rfl := List.mem_singleton.mp (List.mem_of_getElem? hfound)
      exact ⟨h.slots thread, fun _ => Phase.noConfusion⟩
  | polled hsettled hmem hfound hphase =>
    rw [World.install, if_neg (by rw [(h.futures hfound).1]; exact Bool.false_ne_true)]
    refine invariant_blank hsession ⟨h.slots, h.futures, ?_⟩
    intro frame hframe
    rcases List.mem_cons.mp hframe with rfl | hframe
    · exact ⟨_, _, rfl⟩
    · exact h.frames frame hframe
  | begun hstack hfound hphase =>
    rw [hbegin]
    exact h.setPhase hsession _ fun _ heq => by cases heq
  | entered hsettled hscope =>
    rw [hbegin] at hscope
    cases hscope
  | refused hscope =>
    rw [hbegin] at hscope
    obtain rfl := (Prod.mk.inj hscope).2
    exact invariant_blank hsession h
  | left hstack =>
    obtain ⟨_, _, hframe⟩ := h.frames _ (by rw [hstack]; exact List.mem_cons_self)
    cases hframe
  | concluded hstack hfound hphase =>
    obtain rfl := howned hfound hphase
    exact h.setPhase hsession _ fun _ => Phase.noConfusion
  | @returned thread future saved rest found hstack hfound =>
    obtain ⟨_, _, hframe⟩ := h.frames _ (by rw [hstack]; exact List.mem_cons_self)
    obtain ⟨-, -, rfl⟩ := Frame.poll.inj hframe
    refine invariant_blank hsession ⟨h.slots, h.futures, fun frame hmem => h.frames frame ?_⟩
    rw [hstack]
    exact List.mem_cons_of_mem _ hmem
  | dropped hsettled hmem hfound hphase =>
    obtain rfl := howned hfound hphase
    exact h.setPhase hsession _ fun _ => Phase.noConfusion
  | discarded hmem hfound hphase => exact h.setPhase hsession _ fun _ => Phase.noConfusion
  | recorded => exact invariant_blank (by rw [World.mapSession, hsession]; rfl) ⟨h.slots, h.futures, h.frames⟩

end Blank

section Tracked

variable {world : World Value} {state after : State Value}

/-- The session after a change of it and of the futures. -/
theorem invariant_carries (hstep : 0 < state.config.stepNs)
    (h : state.terminalError = none → Tracked world state) {next : World Value}
    (hforward : Forward state after) (hsession : next.session = some after)
    (htracked : after.terminalError = none → Tracked world state → Tracked next after) :
    Invariant next :=
  invariant_tracked hsession (hforward.config ▸ hstep) fun hhealthy =>
    htracked hhealthy (h (hforward.failed hhealthy))

theorem Tracked.origin (h : Tracked world state) {future : Nat} {found : Future} {index : Nat}
    (hfound : world.futures[future]? = some found) (hphase : found.phase = .running (some index))
    {completion : Option (Completion Value)} {endNs : Int} {status : Status}
    (hclosed : Closed state after index completion endNs status) :
    after.currentOperation =
      if state.currentOperation = some index then found.origin else state.currentOperation := by
  rw [hclosed.current, released_held (h.owned hfound hphase).2]

theorem held_closes {index : Nat} {found : Future} (hphase : found.phase = .running (some index))
    {completion : Option (Completion Value)} {endNs : Int} {status : Status}
    (hclosed : Closed state after index completion endNs status) (other : Nat)
    (hother : found.phase ≠ .running (some other)) (parent : Option Nat)
    (hheld : Held state other parent) : Held after other parent :=
  hheld.closed (fun heq : index = other => hother (heq ▸ hphase)) hclosed

/-- The operation of a future ends while it is polled. -/
theorem Tracked.concluded (h : Tracked world state) {thread future : Nat}
    {saved : Option (Bool × Option Nat)} {rest : List Frame} {found : Future} {index : Nat}
    (hstack : world.stack = .poll thread future saved :: rest)
    (hfound : world.futures[future]? = some found) (hphase : found.phase = .running (some index))
    {completion : Option (Completion Value)} {endNs : Int} {status : Status}
    (hclosed : Closed state after index completion endNs status) :
    Tracked (world.setPhase future .done) after := by
  have honce := h.polledOnce
  have hframes := h.frames
  have hcurrent := h.current
  rw [hstack] at honce hframes hcurrent
  obtain ⟨hmem, -⟩ := List.nodup_cons.mp honce
  have hcontext := (h.owned hfound hphase).1
  refine h.ended hfound (by rw [hstack]; exact hmem) ?_ (held_closes hphase hclosed)
  rw [hstack]
  cases saved with
  | none =>
    obtain ⟨⟨found', hfound', hcollector⟩, -⟩ := hframes
    obtain rfl := Option.some.inj (hfound.symm.trans hfound')
    exact absurd (hcollector.symm.trans hcontext) Bool.false_ne_true
  | some saved =>
    rw [expected, hfound, Option.bind_some, Future.active, hphase] at hcurrent
    rw [h.origin hfound hphase hclosed, if_pos hcurrent, expected, setPhase_self hfound]
    rfl

/-- The operation of a future ends while nothing polls it: it is not the current one. -/
theorem Tracked.not_current (h : Tracked world state) (hsettled : world.settled = true)
    {future : Nat} {found : Future} {index : Nat} (hmem : future ∉ polledIn world.stack)
    (hfound : world.futures[future]? = some found)
    (hphase : found.phase = .running (some index)) : state.currentOperation ≠ some index := by
  intro hcurrent
  rw [h.current] at hcurrent
  rcases expected_held (h.steady_all hsettled) hcurrent with
    hscope | ⟨other, hother, found', hfound', hphase'⟩
  · exact h.scopesApart hfound hphase hscope
  · have hsame := h.ownApart hfound hfound' hphase hphase'
    exact hmem (hsame ▸ hother)

theorem polledIn_tail {frames : List Frame} {future : Nat} (h : future ∉ polledIn frames) :
    future ∉ polledIn frames.tail := by
  cases frames with
  | nil => exact h
  | cons frame rest =>
    cases frame with
    | scope thread index => exact h
    | poll thread other saved => exact fun hmem => h (List.mem_cons_of_mem _ hmem)

theorem Tracked.dropped (h : Tracked world state) (hsettled : world.settled = true)
    {future : Nat} {found : Future} {index : Nat} (hmem : future ∉ polledIn world.stack)
    (hfound : world.futures[future]? = some found) (hphase : found.phase = .running (some index))
    {completion : Option (Completion Value)} {endNs : Int} {status : Status}
    (hclosed : Closed state after index completion endNs status) :
    Tracked (world.setPhase future .done) after := by
  refine h.ended hfound (polledIn_tail hmem) ?_ (held_closes hphase hclosed)
  rw [h.origin hfound hphase hclosed, if_neg (h.not_current hsettled hmem hfound hphase),
    h.current, expected_setPhase _ hmem]

/-- While the session is healthy the events of a sound run keep it tracked. -/
theorem Tracked.moved {next : World Value} {event : Event Value}
    (hstep : 0 < state.config.stepNs) (h : state.terminalError = none → Tracked world state)
    (hsession : world.session = some state) (hsound : Sound world event)
    (hmove : Move world event next) : Invariant next := by
  have hkeeps : Invariant world := invariant_tracked hsession hstep h
  have hcarries : ∀ {next : World Value}, next.session = some state →
      (Tracked world state → Tracked next state) → Invariant next := fun hnext htracked =>
    invariant_carries hstep h (Forward.refl state) hnext fun _ => htracked
  have hmapped : ∀ f : State Value → State Value,
      (world.mapSession f).session = some (f state) := by
    intro f
    rw [World.mapSession, hsession]
    rfl
  cases hmove with
  | started hnone hstart =>
    rw [hsession] at hnone
    cases hnone
  | kept => exact hkeeps
  | @constructed thread hsettled =>
    refine hcarries hsession fun htracked => htracked.constructed rfl fun hcontext => ?_
    have hcontext : world.installed thread = true := hcontext
    change (if world.installed thread = true then world.current else none) =
      if world.installed thread = true then expected world.futures world.stack else none
    rw [if_pos hcontext, if_pos hcontext, World.current, hsession, Option.bind_some,
      htracked.current]
  | @polled thread future found hsettled hmem hfound hphase =>
    by_cases hcontext : found.context.collector = true
    · refine invariant_carries hstep h
        (carries_setCurrent found.context.currentOperation state).forward ?_ fun _ htracked => ?_
      · rw [World.install, if_pos hcontext, hsession]
        rfl
      · exact htracked.polled hsession hsettled hfound hphase hmem hcontext
    · have hcontext := Bool.eq_false_iff.mpr hcontext
      refine hcarries ?_ fun htracked => ?_
      · rw [World.install, if_neg (by rw [hcontext]; exact Bool.false_ne_true)]
        exact hsession
      · refine htracked.polled_direct hsettled hfound hmem hcontext ?_
        by_contra hslot
        obtain ⟨found', hfound', hcontext'⟩ := hsound (Bool.of_not_eq_false hslot)
        obtain rfl := Option.some.inj (hfound.symm.trans hfound')
        exact Bool.false_ne_true (hcontext.symm.trans hcontext')
  | @begun thread future saved rest found componentId operationName folded hstack hfound hphase =>
    rcases beginScope_cases fun _ => hkeeps.stepNs with
      ⟨state', after, operation, hsession', -, hbegun, hbegin⟩ |
        ⟨state', after, hsession', hafter, hfailed, hbegin⟩ | ⟨hslot, hbegin⟩
    · obtain rfl := Option.some.inj (hsession.symm.trans hsession')
      rw [hbegin]
      refine invariant_carries hstep h hbegun.forward rfl fun _ htracked => ?_
      cases saved with
      | none =>
        have hslot := htracked.direct thread future rest found hstack hfound hphase
        rw [World.beginScope, hslot] at hbegin
        cases congrArg Prod.fst hbegin
      | some saved => exact (htracked.begun hstack hfound hphase hbegun).of_same rfl rfl rfl
    · obtain rfl := Option.some.inj (hsession.symm.trans hsession')
      rw [hbegin]
      exact invariant_carries hstep h hafter.forward rfl fun hhealthy _ => absurd hhealthy hfailed
    · rw [hbegin]
      refine hcarries hsession fun htracked => ?_
      cases saved with
      | none => exact htracked.begun_direct hstack hfound
      | some saved =>
        have hslot' := htracked.slots thread future saved (by
          rw [hstack]
          exact List.mem_cons_self)
        rcases hslot with hslot | hnone
        · exact absurd (hslot.symm.trans hslot') Bool.false_ne_true
        · cases hnone.symm.trans hsession
  | @entered thread index next componentId operationName folded hsettled hscope =>
    rcases beginScope_cases fun _ => hkeeps.stepNs with
      ⟨state', after, operation, hsession', -, hbegun, hbegin⟩ |
        ⟨state', after, hsession', hafter, hfailed, hbegin⟩ | ⟨hslot, hbegin⟩
    · obtain rfl := Option.some.inj (hsession.symm.trans hsession')
      obtain ⟨hindex, rfl⟩ := Prod.mk.inj (hscope.symm.trans hbegin)
      obtain rfl := Option.some.inj hindex
      exact invariant_carries hstep h hbegun.forward rfl fun _ htracked =>
        (htracked.entered hsettled hbegun thread).of_same rfl rfl rfl
    · cases congrArg Prod.fst (hscope.symm.trans hbegin)
    · cases congrArg Prod.fst (hscope.symm.trans hbegin)
  | @refused thread next componentId operationName folded hscope =>
    rcases beginScope_cases fun _ => hkeeps.stepNs with
      ⟨state', after, operation, hsession', -, hbegun, hbegin⟩ |
        ⟨state', after, hsession', hafter, hfailed, hbegin⟩ | ⟨hslot, hbegin⟩
    · cases congrArg Prod.fst (hscope.symm.trans hbegin)
    · obtain rfl := Option.some.inj (hsession.symm.trans hsession')
      obtain ⟨-, rfl⟩ := Prod.mk.inj (hscope.symm.trans hbegin)
      exact invariant_carries hstep h hafter.forward rfl fun hhealthy _ => absurd hhealthy hfailed
    · obtain ⟨-, rfl⟩ := Prod.mk.inj (hscope.symm.trans hbegin)
      exact hkeeps
  | @left thread index rest ending hstack =>
    refine invariant_carries hstep h (endScope_carries hstep index false ending).forward
      (hmapped _) fun hhealthy htracked => ?_
    have hheld := htracked.frames
    rw [hstack] at hheld
    rcases endScope_cases hstep hheld.1 false ending with ⟨_, _, _, hclosed⟩ | hlost
    · exact (htracked.left hstack hclosed).of_same rfl rfl rfl
    · exact absurd hhealthy hlost.failed
  | @concluded thread future saved rest found scope ending hstack hfound hphase =>
    cases scope with
    | some index =>
      refine invariant_carries hstep h (endScope_carries hstep index true ending).forward
        (hmapped _) fun hhealthy htracked => ?_
      rcases endScope_cases hstep (htracked.owned hfound hphase).2 true ending with
        ⟨_, _, _, hclosed⟩ | hlost
      · exact (htracked.concluded hstack hfound hphase hclosed).of_same rfl rfl rfl
      · exact absurd hhealthy hlost.failed
    | none =>
      refine hcarries hsession fun htracked => ?_
      have honce := htracked.polledOnce
      have hframes := htracked.frames
      have hcurrent := htracked.current
      rw [hstack] at honce hframes hcurrent
      obtain ⟨hmem, -⟩ := List.nodup_cons.mp honce
      refine htracked.ended hfound (by rw [hstack]; exact hmem) ?_ fun _ _ _ => id
      rw [hstack]
      cases saved with
      | none => exact hcurrent.trans (expected_setPhase .done hmem).symm
      | some saved =>
        obtain ⟨⟨found', hfound', hcollector⟩, -⟩ := hframes
        obtain rfl := Option.some.inj (hfound.symm.trans hfound')
        exact absurd ((htracked.bare hfound hphase).symm.trans hcollector) Bool.false_ne_true
  | @returned thread future saved rest found hstack hfound =>
    cases saved with
    | none => exact hcarries hsession fun htracked => htracked.returned_direct hstack
    | some saved =>
      refine invariant_carries hstep h (carries_setCurrent saved.2 state).forward ?_
        fun _ htracked => htracked.returned hsession hstack hfound
      change Option.map _ world.session = _
      rw [hsession]
      rfl
  | @dropped thread future found scope panicking hsettled hmem hfound hphase =>
    cases scope with
    | some index =>
      refine invariant_carries hstep h
        (endScope_carries hstep index true (.dropped panicking)).forward
        (hmapped _) fun hhealthy htracked => ?_
      rcases endScope_cases hstep (htracked.owned hfound hphase).2 true (.dropped panicking) with
        ⟨_, _, _, hclosed⟩ | hlost
      · exact (htracked.dropped hsettled hmem hfound hphase hclosed).of_same rfl rfl rfl
      · exact absurd hhealthy hlost.failed
    | none =>
      refine hcarries hsession fun htracked => ?_
      refine htracked.ended hfound (polledIn_tail hmem) ?_ fun _ _ _ => id
      rw [htracked.current, expected_setPhase _ hmem]
  | @discarded thread future found panicking hmem hfound hphase =>
    refine hcarries hsession fun htracked => ?_
    refine htracked.ended hfound (polledIn_tail hmem) ?_ fun _ _ _ => id
    rw [htracked.current, expected_setPhase _ hmem]
  | @recorded thread note =>
    refine invariant_carries hstep h (note_carries hstep note).forward (hmapped _)
      fun _ htracked => ?_
    rcases note_cases hstep note with hquiet | ⟨index, observation, hobserved⟩
    · refine (htracked.changed hquiet.current fun _ _ hheld => ?_).of_same rfl rfl rfl
      exact hheld.of_core hquiet.operations
    · refine (htracked.changed ?_ fun _ _ hheld => hheld.observed hobserved).of_same rfl rfl rfl
      exact hobserved.current.trans hobserved.currentBefore.symm

end Tracked

theorem step_invariant {world next : World Value} {event : Event Value} (h : Invariant world)
    (hsound : Sound world event) (hmove : Move world event next) : Invariant next := by
  unfold Invariant at h
  cases hsession : world.session with
  | none =>
    rw [hsession] at h
    exact Blank.moved h hsession hsound hmove
  | some state =>
    rw [hsession] at h
    exact Tracked.moved h.1 h.2 hsession hsound hmove

/-! ### Runs -/

theorem run_invariant {world last : World Value} {events : List (Event Value)}
    (h : Invariant world) (hsound : SoundRun world events) (hrun : run world events = some last) :
    Invariant last := by
  induction events generalizing world with
  | nil =>
    obtain rfl := Option.some.inj hrun
    exact h
  | cons event rest ih =>
    obtain ⟨next, hstep, hrun⟩ := Option.bind_eq_some_iff.mp hrun
    exact ih (step_invariant h hsound.1 (step_move hstep)) (hsound.2 next hstep) hrun

/-- What a step adds to the parents. -/
def Extends (world : World Value) (event : Event Value) (next : World Value) : Prop :=
  next.parents = world.parents ∨ next.parents = world.parents ++ [constructionParent world event]

theorem Extends.parents {world next : World Value} {event : Event Value}
    (h : Extends world event next) :
    next.parents = world.parents ++
      if world.parents.length < next.parents.length then [constructionParent world event]
        else [] := by
  rcases h with hsame | hmore
  · rw [hsame, if_neg (Nat.lt_irrefl _), List.append_nil]
  · have hlt : world.parents.length < next.parents.length := by
      rw [hmore, List.length_append]
      exact Nat.lt_succ_self _
    rw [if_pos hlt, hmore]

end SpecGate.PollSchedules

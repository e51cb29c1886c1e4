import SpecGate.Publication
import SpecGate.SidecarRuns

/-!
Operations of one session that complete on several threads. A thread closes its operation and
takes a snapshot of the session, each under the lock of the collector; the file is replaced
after the lock has been released, and a replacement that is rejected is tried again. The
replacements of several threads follow no order of their own.
-/
namespace SpecGate.SharedSidecars

open CaptureSession CaptureEffects CaptureRuns Collecting SidecarRuns

variable {Value : Type}

/-! ### Steps -/

/-- Where the completion of an operation has got to on a thread. The ticket numbers the
snapshots in the order in which they were taken. -/
inductive Stage (Value : Type) where
  | idle
  | completed
  | persisting (ticket : Nat) (capture : Capture Value) (attempt : Nat)

/-- A session and its sidecar file. -/
structure World (Value : Type) where
  state : State Value
  sidecar : Option (Nat × Capture Value)
  taken : Nat
  stages : Nat → Stage Value
  failed : Bool

/-- What a thread does next. Writing the temporary file may break, and so may each attempt
to put it in place of the sidecar. -/
inductive Event (Value : Type) where
  | complete (thread index : Nat) (abandonable panicking : Bool) (terminal : NativeTerminal Value)
  | takeSnapshot (thread : Nat)
  | replace (thread : Nat)
  | reject (thread : Nat) (message : String)
  | breakFile (thread : Nat) (message : String)

def Event.isComplete : Event Value → Bool
  | .complete .. => true
  | _ => false

def Event.thread : Event Value → Nat
  | .complete thread .. | .takeSnapshot thread | .replace thread | .reject thread _
  | .breakFile thread _ => thread

def persistAttempts : Nat := 12

namespace World

def put (world : World Value) (thread : Nat) (stage : Stage Value) : World Value :=
  { world with stages := Function.update world.stages thread stage }

/-- A call on a thread returns with an error. -/
def giveUp (world : World Value) (thread : Nat) (state : State Value) : World Value :=
  { world.put thread .idle with state := state, failed := true }

/-- The file system has failed for good. -/
def persistFailed (world : World Value) (thread : Nat) (message : String) : World Value :=
  world.giveUp thread (world.state.fail (persistenceFailure message))

end World

/-- Close an operation, with the scope dropped if its terminal could not be recorded. An
operation that is closed already is a panic. -/
def complete (world : World Value) (thread index : Nat) (abandonable panicking : Bool)
    (terminal : NativeTerminal Value) : Option (World Value) :=
  match world.state.operations[index]? with
  | none => none
  | some operation =>
      if operation.status.isSome then none
      else match recordTerminal world.state index terminal with
        | (.error _, state) =>
            some (world.giveUp thread (dropScope state index abandonable panicking))
        | (.ok _, state) =>
            let stage := if state.sidecarPath.isSome then Stage.completed else .idle
            some { world.put thread stage with state := state }

def takeSnapshot (world : World Value) (thread : Nat) : Option (World Value) :=
  match snapshot world.state with
  | .error (.panic _) => none
  | .error (.error _) => some (world.giveUp thread world.state)
  | .ok capture =>
      some { world.put thread (.persisting world.taken capture 1) with taken := world.taken + 1 }

/-- A step of one thread; a thread that is elsewhere cannot take it. -/
def step (world : World Value) : Event Value → Option (World Value)
  | .complete thread index abandonable panicking terminal =>
      match world.stages thread with
      | .idle => complete world thread index abandonable panicking terminal
      | _ => none
  | .takeSnapshot thread =>
      match world.stages thread with
      | .completed => takeSnapshot world thread
      | _ => none
  | .replace thread =>
      match world.stages thread with
      | .persisting ticket capture _ =>
          some { world.put thread .idle with sidecar := some (ticket, capture) }
      | _ => none
  | .reject thread message =>
      match world.stages thread with
      | .persisting ticket capture attempt =>
          if attempt < persistAttempts then
            some (world.put thread (.persisting ticket capture (attempt + 1)))
          else some (world.persistFailed thread message)
      | _ => none
  | .breakFile thread message =>
      match world.stages thread with
      | .persisting _ _ 1 => some (world.persistFailed thread message)
      | _ => none

def run : World Value → List (Event Value) → Option (World Value)
  | world, [] => some world
  | world, event :: rest => (step world event).bind fun next => run next rest

/-- A session whose operations are about to complete. -/
def opened (state : State Value) : World Value := ⟨state, none, 0, fun _ => .idle, false⟩

/-- A thread replaces the sidecar only while no other thread has an older snapshot yet to be
put in its place. -/
def InTurn (world : World Value) : Event Value → Prop
  | .replace thread => ∀ ticket capture attempt,
      world.stages thread = .persisting ticket capture attempt →
        ∀ other otherTicket otherCapture otherAttempt,
          world.stages other = .persisting otherTicket otherCapture otherAttempt →
            ticket ≤ otherTicket
  | _ => True

/-- Every step of a run is taken in turn. -/
def EveryInTurn : World Value → List (Event Value) → Prop
  | _, [] => True
  | world, event :: rest =>
      InTurn world event ∧ ∀ next, step world event = some next → EveryInTurn next rest

/-! ### Completions as publications -/

section Refinement

/-- What a snapshot publishes of a session. -/
def view (state : State Value) : Option (Capture Value) := (snapshot state).toOption

def Stage.publication : Stage Value → Publication.Stage (Capture Value)
  | .idle => .idle
  | .completed => .due
  | .persisting ticket capture _ => .holding ticket capture

def World.publication (world : World Value) : Publication.World Nat (State Value) (Capture Value) where
  state := world.state
  published := world.sidecar
  taken := world.taken
  stages := fun thread => (world.stages thread).publication
  lost := world.failed

variable {world next : World Value}

/-- Moving one thread to another stage moves it in the publication. -/
theorem publication_put (world : World Value) (thread : Nat) (stage : Stage Value)
    (state : State Value) (sidecar : Option (Nat × Capture Value)) (taken : Nat) (failed : Bool) :
    World.publication ⟨state, sidecar, taken, (world.put thread stage).stages, failed⟩ =
      ⟨state, sidecar, taken, (world.publication.put thread stage.publication).stages, failed⟩ := by
  unfold World.publication World.put Publication.World.put
  congr 1
  funext other
  exact Function.apply_update (fun _ => Stage.publication) world.stages thread stage other

/-- A step of the publication that moves one thread. -/
theorem step_put {world : World Value} {thread : Nat} {stage : Stage Value} {state : State Value}
    {sidecar : Option (Nat × Capture Value)} {taken : Nat} {failed : Bool}
    (h : Publication.Step view world.publication
      ⟨state, sidecar, taken, (world.publication.put thread stage.publication).stages, failed⟩) :
    Publication.Step view world.publication
      (World.publication ⟨state, sidecar, taken, (world.put thread stage).stages, failed⟩) := by
  rwa [publication_put]

theorem giveUp_step (world : World Value) (thread : Nat) (state : State Value) :
    Publication.Step view world.publication (world.giveUp thread state).publication := by
  exact step_put (.abandon thread state)

theorem stages_publication {thread : Nat} {stage : Stage Value}
    (h : world.stages thread = stage) :
    world.publication.stages thread = stage.publication := congrArg Stage.publication h

theorem oldest_of_inTurn {thread ticket attempt : Nat} {capture : Capture Value}
    (hturn : InTurn world (.replace thread))
    (hstage : world.stages thread = .persisting ticket capture attempt) :
    Publication.Oldest world.publication ticket := by
  intro other otherTicket copy hother
  change (world.stages other).publication = _ at hother
  cases hpersisting : world.stages other with
  | idle | completed =>
    rw [hpersisting] at hother
    cases hother
  | persisting otherTicket otherCapture otherAttempt =>
    rw [hpersisting] at hother
    cases hother
    exact hturn ticket capture attempt hstage other _ _ _ hpersisting

/-- What the completion of an operation does. -/
theorem complete_cases {thread index : Nat} {abandonable panicking : Bool}
    {terminal : NativeTerminal Value}
    (h : complete world thread index abandonable panicking terminal = some next) :
    (∃ state, next = world.giveUp thread (dropScope state index abandonable panicking) ∧
        (recordTerminal world.state index terminal).2 = state) ∨
      ∃ operation state, world.state.operations[index]? = some operation ∧
        operation.status = none ∧ recordTerminal world.state index terminal = (.ok (), state) ∧
        next = { world.put thread (if state.sidecarPath.isSome then Stage.completed else .idle) with
          state := state } := by
  unfold complete at h
  cases hoperation : world.state.operations[index]? with
  | none =>
    rw [hoperation] at h
    cases h
  | some operation =>
    rw [hoperation] at h
    dsimp only at h
    by_cases hstatus : operation.status.isSome = true
    · rw [if_pos hstatus] at h
      cases h
    · rw [if_neg hstatus] at h
      cases hterminal : recordTerminal world.state index terminal with
      | mk recorded state =>
        rw [hterminal] at h
        cases recorded with
        | error error => exact .inl ⟨state, (Option.some.inj h).symm, rfl⟩
        | ok _ =>
          refine .inr ⟨operation, state, rfl, ?_, rfl, (Option.some.inj h).symm⟩
          rwa [Bool.not_eq_true, Option.isSome_eq_false_iff, Option.isNone_iff_eq_none] at hstatus

theorem takeSnapshot_cases {thread : Nat} (h : takeSnapshot world thread = some next) :
    next = world.giveUp thread world.state ∨
      ∃ capture, snapshot world.state = .ok capture ∧
        next = { world.put thread (.persisting world.taken capture 1) with
          taken := world.taken + 1 } := by
  unfold takeSnapshot at h
  cases hsnapshot : snapshot world.state with
  | error failure =>
    rw [hsnapshot] at h
    cases failure with
    | panic message => cases h
    | error error => exact .inl (Option.some.inj h).symm
  | ok capture =>
    rw [hsnapshot] at h
    exact .inr ⟨capture, rfl, (Option.some.inj h).symm⟩

/-- What a step can do. -/
theorem step_cases {event : Event Value} (h : step world event = some next) :
    (∃ thread index abandonable panicking terminal,
        event = .complete thread index abandonable panicking terminal ∧
        world.stages thread = .idle ∧
        complete world thread index abandonable panicking terminal = some next) ∨
      (∃ thread, event = .takeSnapshot thread ∧ world.stages thread = .completed ∧
        takeSnapshot world thread = some next) ∨
      (∃ thread ticket capture attempt, event = .replace thread ∧
        world.stages thread = .persisting ticket capture attempt ∧
        next = { world.put thread .idle with sidecar := some (ticket, capture) }) ∨
      (∃ thread ticket capture attempt, event.isComplete = false ∧
        world.stages thread = .persisting ticket capture attempt ∧
        (next = world.put thread (.persisting ticket capture (attempt + 1)) ∨
          ∃ message, next = world.persistFailed thread message)) := by
  cases event with
  | complete thread index abandonable panicking terminal =>
    unfold step at h
    dsimp only at h
    cases hstage : world.stages thread with
    | idle =>
      rw [hstage] at h
      exact .inl ⟨thread, index, abandonable, panicking, terminal, rfl, hstage, h⟩
    | completed | persisting _ _ _ =>
      rw [hstage] at h
      cases h
  | takeSnapshot thread =>
    unfold step at h
    dsimp only at h
    cases hstage : world.stages thread with
    | completed =>
      rw [hstage] at h
      exact .inr (.inl ⟨thread, rfl, hstage, h⟩)
    | idle | persisting _ _ _ =>
      rw [hstage] at h
      cases h
  | replace thread =>
    unfold step at h
    dsimp only at h
    cases hstage : world.stages thread with
    | persisting ticket capture attempt =>
      rw [hstage] at h
      exact .inr (.inr (.inl ⟨thread, ticket, capture, attempt, rfl, hstage,
        (Option.some.inj h).symm⟩))
    | idle | completed =>
      rw [hstage] at h
      cases h
  | reject thread message =>
    unfold step at h
    dsimp only at h
    cases hstage : world.stages thread with
    | persisting ticket capture attempt =>
      rw [hstage] at h
      dsimp only at h
      refine .inr (.inr (.inr ⟨thread, ticket, capture, attempt, rfl, hstage, ?_⟩))
      by_cases hattempt : attempt < persistAttempts
      · rw [if_pos hattempt] at h
        exact .inl (Option.some.inj h).symm
      · rw [if_neg hattempt] at h
        exact .inr ⟨message, (Option.some.inj h).symm⟩
    | idle | completed =>
      rw [hstage] at h
      cases h
  | breakFile thread message =>
    unfold step at h
    dsimp only at h
    split at h
    · rename_i ticket capture hstage
      exact .inr (.inr (.inr ⟨thread, ticket, capture, 1, rfl, hstage,
        .inr ⟨message, (Option.some.inj h).symm⟩⟩))
    · cases h

/-- A step leaves the sidecar path as it is. -/
theorem step_sidecarPath {event : Event Value} (h : step world event = some next) :
    next.state.sidecarPath = world.state.sidecarPath := by
  rcases step_cases h with ⟨thread, index, abandonable, panicking, terminal, -, -, hcomplete⟩ |
      ⟨thread, -, -, htake⟩ | ⟨_, _, _, _, -, -, rfl⟩ | ⟨_, _, _, _, -, -, rfl | ⟨_, rfl⟩⟩
  · have hterminal := congrArg Prod.snd (recordTerminal_setup world.state index terminal)
    rcases complete_cases hcomplete with ⟨state, rfl, rfl⟩ | ⟨_, state, -, -, hrecorded, rfl⟩
    · have hdrop := congrArg Prod.snd (dropScope_setup
        (recordTerminal world.state index terminal).2 index abandonable panicking)
      exact hdrop.trans hterminal
    · rw [hrecorded] at hterminal
      exact hterminal
  · rcases takeSnapshot_cases htake with rfl | ⟨_, -, rfl⟩ <;> rfl
  · rfl
  · rfl
  · rfl

/-- A step taken in turn is a step of the publication, or changes nothing there. -/
theorem step_publication (hpath : world.state.sidecarPath.isSome = true) {event : Event Value}
    (hturn : InTurn world event) (h : step world event = some next) :
    next.publication = world.publication ∨
      Publication.Step view world.publication next.publication := by
  have hkept := step_sidecarPath h
  rcases step_cases h with ⟨thread, index, _, _, terminal, -, hstage, hcomplete⟩ |
      ⟨thread, -, hstage, htake⟩ | ⟨thread, ticket, capture, attempt, rfl, hstage, rfl⟩ |
      ⟨thread, ticket, capture, attempt, -, hstage, rfl | ⟨message, rfl⟩⟩
  · right
    rcases complete_cases hcomplete with ⟨state, rfl, -⟩ | ⟨_, state, -, -, -, rfl⟩
    · exact giveUp_step world thread _
    · have hsome : state.sidecarPath.isSome = true := by
        rw [show state.sidecarPath = world.state.sidecarPath from hkept]
        exact hpath
      rw [if_pos hsome]
      exact step_put (.change thread state (stages_publication hstage))
  · right
    rcases takeSnapshot_cases htake with rfl | ⟨capture, hsnapshot, rfl⟩
    · exact giveUp_step world thread _
    · have hcopy : view world.publication.state = some capture := by
        change (snapshot world.state).toOption = some capture
        rw [hsnapshot]
        rfl
      exact step_put (.take thread capture (stages_publication hstage) hcopy)
  · right
    exact step_put (.publish thread ticket capture (stages_publication hstage)
      (oldest_of_inTurn hturn hstage))
  · left
    refine (publication_put world thread _ _ _ _ _).trans ?_
    congr 1
    apply Function.update_eq_self_iff.mpr
    exact (stages_publication hstage).symm
  · exact .inr (giveUp_step world thread _)

end Refinement

/-! ### What a snapshot shows -/

section Shown

variable {state : State Value} {capture : Capture Value}

/-- Closing operations leaves the others as they are. -/
theorem closeAll_other {indices : List Nat} {closed : State Value}
    (h : closeAll state indices = .ok closed) {index : Nat} (hother : index ∉ indices) :
    closed.operations[index]? = state.operations[index]? := by
  induction indices generalizing state with
  | nil => rw [Except.ok.inj h]
  | cons first rest ih =>
    obtain ⟨hne, hrest⟩ := not_or.mp (List.mem_cons.not.mp hother)
    unfold closeAll at h
    cases hstamp : state.stamp with
    | mk stamped middle =>
    rw [hstamp] at h
    cases stamped with
    | error error => cases h
    | ok drawn =>
    dsimp only at h
    cases htick : middle.tick with
    | error error =>
      rw [htick] at h
      cases h
    | ok ended =>
      rw [htick] at h
      rw [ih h hrest, release_operations, State.modify, List.getElem?_modify_ne _ _ (Ne.symm hne),
        tick_operations htick, stamp_operations hstamp]

theorem collect_getElem {α β : Type} {f : α → Option β} {values : List α} {results : List β}
    (h : collect f values = some results) {index : Nat} {value : α}
    (hvalue : values[index]? = some value) : ∃ result, results[index]? = some result ∧
      f value = some result := by
  have hmap := congrArg (·[index]?) (collect_eq_some_iff.mp h)
  rw [List.getElem?_map, List.getElem?_map, hvalue] at hmap
  obtain ⟨result, hresult, heq⟩ := Option.map_eq_some_iff.mp hmap.symm
  exact ⟨result, hresult, heq.symm⟩

/-- The span of an operation that has closed. -/
theorem span_of_closed {operation : PendingOperation Value} {span : OperationSpan Value}
    (h : operation.span = some span) : operation.status = some span.status ∧
      span.completion = operation.completion := by
  unfold PendingOperation.span at h
  obtain ⟨endNs, -, h⟩ := Option.bind_eq_some_iff.mp h
  obtain ⟨status, hstatus, rfl⟩ := Option.map_eq_some_iff.mp h
  exact ⟨hstatus, rfl⟩

/-- A snapshot shows an operation that has closed as it is. -/
theorem snapshot_shows (h : snapshot state = .ok capture) {index : Nat}
    {operation : PendingOperation Value} (hoperation : state.operations[index]? = some operation)
    (hclosed : operation.status ≠ none) :
    ∃ span, capture.operations[index]? = some span ∧ operation.span = some span := by
  have hnot : index ∉ state.outstanding.reverse := by
    intro hmem
    obtain ⟨other, hother, hopen⟩ := mem_outstanding_iff.mp (List.mem_reverse.mp hmem)
    rw [hoperation] at hother
    cases hother
    exact hclosed hopen
  unfold snapshot at h
  by_cases hopen : state.hasOutstanding = true
  · rw [if_pos hopen] at h
    cases hclose : closeOutstanding state with
    | error error =>
      rw [hclose] at h
      cases h
    | ok closed =>
      rw [hclose] at h
      apply collect_getElem (build_ok h).2
      rw [closeAll_other hclose hnot, hoperation]
  · rw [if_neg hopen] at h
    exact collect_getElem (build_ok h).2 hoperation

end Shown

/-! ### Completed operations -/

section Completed

variable {world next : World Value}

/-- An operation has closed with the status of a terminal, and not as an incomplete one. -/
def ClosedBy (state : State Value) (index : Nat) (terminal : NativeTerminal Value) : Prop :=
  ∃ operation, state.operations[index]? = some operation ∧
    operation.status = some terminal.status ∧
    ∀ completion ∈ operation.completion, isIncomplete completion = false

theorem not_incomplete_of_known {completion : Completion Value} (h : Known completion) :
    isIncomplete completion = false := by
  cases completion with
  | fault order timeNs faultType message observer =>
    rw [isIncomplete, h order timeNs faultType message observer rfl]
    rfl
  | _ => rfl

theorem closedBy_recordTerminal {state after : State Value} {index : Nat}
    {terminal : NativeTerminal Value} (hbound : index < state.operations.length)
    (h : recordTerminal state index terminal = (.ok (), after)) :
    ClosedBy after index terminal := by
  obtain ⟨completion, endNs, hknown, hoperations⟩ := recordTerminal_known h
  refine ⟨close completion endNs terminal.status state.operations[index], ?_, rfl, ?_⟩
  · rw [hoperations, List.getElem?_modify_eq, List.getElem?_eq_getElem hbound]
    rfl
  · exact fun event hevent => not_incomplete_of_known (hknown event hevent)

/-- Closing an open operation leaves a closed one as it is. -/
theorem ClosedBy.recordTerminal {state after : State Value} {index other : Nat}
    {terminal earlier : NativeTerminal Value} (hclosed : ClosedBy state other earlier)
    {operation : PendingOperation Value} (hoperation : state.operations[index]? = some operation)
    (hopen : operation.status = none) (h : recordTerminal state index terminal = (.ok (), after)) :
    ClosedBy after other earlier := by
  obtain ⟨closed, hfound, hstatus, hcompletion⟩ := hclosed
  obtain ⟨completion, endNs, -, hoperations⟩ := recordTerminal_known h
  have hne : index ≠ other := by
    intro hsame
    rw [hsame, hfound] at hoperation
    cases hoperation
    rw [hopen] at hstatus
    cases hstatus
  refine ⟨closed, ?_, hstatus, hcompletion⟩
  rw [hoperations, List.getElem?_modify_ne _ _ hne, hfound]

/-- A failure is never forgotten. -/
theorem step_failed {event : Event Value} (h : step world event = some next)
    (hfailed : next.failed = false) : world.failed = false := by
  rcases step_cases h with ⟨thread, index, _, _, terminal, -, -, hcomplete⟩ |
      ⟨thread, -, -, htake⟩ | ⟨_, _, _, _, -, -, rfl⟩ | ⟨_, _, _, _, -, -, rfl | ⟨_, rfl⟩⟩
  · rcases complete_cases hcomplete with ⟨_, rfl, -⟩ | ⟨_, _, -, -, -, rfl⟩
    · cases hfailed
    · exact hfailed
  · rcases takeSnapshot_cases htake with rfl | ⟨_, -, rfl⟩
    · cases hfailed
    · exact hfailed
  · exact hfailed
  · exact hfailed
  · cases hfailed

/-- An operation that a thread has completed stays closed. -/
theorem step_closedBy {event : Event Value} (h : step world event = some next)
    (hfailed : next.failed = false) {index : Nat} {terminal : NativeTerminal Value}
    (hclosed : ClosedBy world.state index terminal) : ClosedBy next.state index terminal := by
  rcases step_cases h with ⟨thread, other, _, _, later, -, -, hcomplete⟩ |
      ⟨thread, -, -, htake⟩ | ⟨_, _, _, _, -, -, rfl⟩ | ⟨_, _, _, _, -, -, rfl | ⟨_, rfl⟩⟩
  · rcases complete_cases hcomplete with ⟨_, rfl, -⟩ | ⟨operation, state, hoperation, hopen, hterminal, rfl⟩
    · cases hfailed
    · exact hclosed.recordTerminal hoperation hopen hterminal
  · rcases takeSnapshot_cases htake with rfl | ⟨_, -, rfl⟩
    · cases hfailed
    · exact hclosed
  · exact hclosed
  · exact hclosed
  · cases hfailed

theorem step_completes {thread index : Nat} {abandonable panicking : Bool}
    {terminal : NativeTerminal Value}
    (h : step world (.complete thread index abandonable panicking terminal) = some next)
    (hfailed : next.failed = false) : ClosedBy next.state index terminal := by
  rcases step_cases h with ⟨_, _, _, _, _, heq, -, hcomplete⟩ | ⟨_, heq, -⟩ | ⟨_, _, _, _, heq, -⟩ |
      ⟨_, _, _, _, heq, -⟩
  · cases heq
    rcases complete_cases hcomplete with ⟨_, rfl, -⟩ | ⟨operation, state, hoperation, -, hterminal, rfl⟩
    · cases hfailed
    · exact closedBy_recordTerminal (List.getElem?_eq_some_iff.mp hoperation).1 hterminal
  · cases heq
  · cases heq
  · cases heq

end Completed

/-! ### Runs -/

section Runs

variable {world next last : World Value}

theorem run_append {first second : List (Event Value)} (h : run world (first ++ second) = some last) :
    ∃ between, run world first = some between ∧ run between second = some last := by
  induction first generalizing world with
  | nil => exact ⟨world, rfl, h⟩
  | cons event rest ih =>
    obtain ⟨next, hstep, hrest⟩ := Option.bind_eq_some_iff.mp h
    obtain ⟨between, hfirst, hsecond⟩ := ih hrest
    exact ⟨between, by rw [run, hstep, Option.bind_some, hfirst], hsecond⟩

theorem everyInTurn_append {first second : List (Event Value)}
    (h : EveryInTurn world (first ++ second)) : EveryInTurn world first ∧
      ∀ between, run world first = some between → EveryInTurn between second := by
  induction first generalizing world with
  | nil =>
    refine ⟨trivial, fun between hrun => ?_⟩
    obtain rfl := Option.some.inj hrun
    exact h
  | cons event rest ih =>
    obtain ⟨hturn, hnext⟩ := h
    refine ⟨⟨hturn, fun next hstep => (ih (hnext next hstep)).1⟩, fun between hrun => ?_⟩
    obtain ⟨next, hstep, hrest⟩ := Option.bind_eq_some_iff.mp hrun
    exact (ih (hnext next hstep)).2 between hrest

/-- What holds between the steps of the threads. -/
structure Ready (world : World Value) : Prop where
  path : world.state.sidecarPath.isSome = true
  invariant : Publication.Invariant view world.publication

theorem step_ready (h : Ready world) {event : Event Value} (hturn : InTurn world event)
    (hstep : step world event = some next) :
    Ready next ∧ Publication.NotOlder world.sidecar next.sidecar := by
  have hpath : next.state.sidecarPath.isSome = true := by
    rw [step_sidecarPath hstep]
    exact h.path
  rcases step_publication h.path hturn hstep with hsame | hmoved
  · have hsidecar : next.sidecar = world.sidecar :=
      congrArg Publication.World.published hsame
    refine ⟨⟨hpath, ?_⟩, ?_⟩
    · rw [hsame]
      exact h.invariant
    · rw [hsidecar]
      exact Publication.notOlder_refl _
  · exact ⟨⟨hpath, hmoved.invariant h.invariant⟩, hmoved.notOlder h.invariant⟩

/-- Steps in turn keep the invariant, and the sidecar never gets older. -/
theorem run_ready {events : List (Event Value)} (h : Ready world)
    (hturn : EveryInTurn world events) (hrun : run world events = some last) :
    Ready last ∧ Publication.NotOlder world.sidecar last.sidecar := by
  induction events generalizing world with
  | nil =>
    obtain rfl := Option.some.inj hrun
    exact ⟨h, Publication.notOlder_refl _⟩
  | cons event rest ih =>
    obtain ⟨next, hstep, hrest⟩ := Option.bind_eq_some_iff.mp hrun
    obtain ⟨hnext, hforward⟩ := step_ready h hturn.1 hstep
    obtain ⟨hlast, hlater⟩ := ih hnext (hturn.2 next hstep) hrest
    exact ⟨hlast, hforward.trans hlater⟩

theorem step_noticed (h : Ready world) {event : Event Value} (hturn : InTurn world event)
    (hstep : step world event = some next) (hnoticed : Publication.Noticed world.publication) :
    Publication.Noticed next.publication := by
  rcases step_publication h.path hturn hstep with hsame | hmoved
  · rwa [hsame]
  · exact hmoved.noticed hnoticed

/-- A completion leaves a snapshot to take. -/
theorem complete_noticed (h : Ready world) {event : Event Value}
    (hcomplete : event.isComplete = true) (hstep : step world event = some next) :
    Publication.Noticed next.publication := by
  have hpath : next.state.sidecarPath.isSome = true := by
    rw [step_sidecarPath hstep]
    exact h.path
  cases event with
  | complete thread index abandonable panicking terminal =>
    rcases step_cases hstep with ⟨_, _, _, _, _, heq, -, hclosed⟩ | ⟨_, heq, -⟩ |
        ⟨_, _, _, _, heq, -⟩ | ⟨_, _, _, _, heq, -⟩
    · cases heq
      rcases complete_cases hclosed with ⟨_, rfl, -⟩ | ⟨_, state, -, -, -, rfl⟩
      · exact .inl rfl
      · refine .inr (.inr ⟨thread, ?_⟩)
        have hsome : state.sidecarPath.isSome = true := hpath
        refine @stages_publication _ _ thread .completed ?_
        rw [if_pos hsome]
        exact Function.update_self ..
    · cases heq
    · cases heq
    · cases heq
  | _ => cases hcomplete

theorem run_noticed {events : List (Event Value)} (h : Ready world)
    (hturn : EveryInTurn world events) (hrun : run world events = some last)
    (hnoticed : Publication.Noticed world.publication ∨
      ∃ event ∈ events, event.isComplete = true) : Publication.Noticed last.publication := by
  induction events generalizing world with
  | nil =>
    obtain rfl := Option.some.inj hrun
    rcases hnoticed with hnoticed | ⟨event, hmem, -⟩
    · exact hnoticed
    · cases hmem
  | cons event rest ih =>
    obtain ⟨next, hstep, hrest⟩ := Option.bind_eq_some_iff.mp hrun
    apply ih (step_ready h hturn.1 hstep).1 (hturn.2 next hstep) hrest
    rcases hnoticed with hnoticed | ⟨found, hmem, hcomplete⟩
    · exact .inl (step_noticed h hturn.1 hstep hnoticed)
    · rcases List.mem_cons.mp hmem with rfl | hmem
      · exact .inl (complete_noticed h hcomplete hstep)
      · exact .inr ⟨found, hmem, hcomplete⟩

theorem run_failed {events : List (Event Value)} (hrun : run world events = some last)
    (hfailed : last.failed = false) : world.failed = false := by
  induction events generalizing world with
  | nil =>
    obtain rfl := Option.some.inj hrun
    exact hfailed
  | cons event rest ih =>
    obtain ⟨next, hstep, hrest⟩ := Option.bind_eq_some_iff.mp hrun
    exact step_failed hstep (ih hrest)

/-- In a run without a failure, whatever was completed is closed at its end. -/
theorem run_closedBy {events : List (Event Value)} (hrun : run world events = some last)
    (hfailed : last.failed = false) {index : Nat} {terminal : NativeTerminal Value}
    (h : ClosedBy world.state index terminal ∨ ∃ thread abandonable panicking,
      .complete thread index abandonable panicking terminal ∈ events) :
    ClosedBy last.state index terminal := by
  induction events generalizing world with
  | nil =>
    obtain rfl := Option.some.inj hrun
    rcases h with h | ⟨_, _, _, hmem⟩
    · exact h
    · cases hmem
  | cons event rest ih =>
    obtain ⟨next, hstep, hrest⟩ := Option.bind_eq_some_iff.mp hrun
    have hnext := run_failed hrest hfailed
    apply ih hrest
    rcases h with h | ⟨thread, abandonable, panicking, hmem⟩
    · exact .inl (step_closedBy hstep hnext h)
    · rcases List.mem_cons.mp hmem with rfl | hmem
      · exact .inl (step_completes hstep hnext)
      · exact .inr ⟨thread, abandonable, panicking, hmem⟩

/-- A capture shows an operation as completed by a terminal. -/
def ShownClosed (capture : Capture Value) (index : Nat) (terminal : NativeTerminal Value) : Prop :=
  ∃ span, capture.operations[index]? = some span ∧ span.status = terminal.status ∧
    ∀ completion ∈ span.completion, isIncomplete completion = false

theorem ClosedBy.shown {state : State Value} {capture : Capture Value} {index : Nat}
    {terminal : NativeTerminal Value} (h : ClosedBy state index terminal)
    (hsnapshot : snapshot state = .ok capture) : ShownClosed capture index terminal := by
  obtain ⟨operation, hoperation, hstatus, hcompletion⟩ := h
  obtain ⟨span, hspan, hsame⟩ := snapshot_shows hsnapshot hoperation
    (hstatus ▸ Option.some_ne_none _)
  obtain ⟨hspanStatus, hspanCompletion⟩ := span_of_closed hsame
  refine ⟨span, hspan, ?_, ?_⟩
  · rw [hstatus] at hspanStatus
    exact (Option.some.inj hspanStatus).symm
  · rwa [hspanCompletion]

/-- The sidecar of a run never goes backwards. Once every completion has returned without an
error, it is the snapshot of the latest state and shows what was completed. -/
structure NeverBackwards (state : State Value) (events : List (Event Value)) (last : World Value) :
    Prop where
  forward : ∀ earlier later between, events = earlier ++ later →
    run (opened state) earlier = some between →
      Publication.NotOlder between.sidecar last.sidecar
  latest : (∀ thread, last.stages thread = .idle) → last.failed = false →
    (∃ event ∈ events, event.isComplete = true) →
      ∃ ticket capture, last.sidecar = some (ticket, capture) ∧
        snapshot last.state = .ok capture ∧
        ∀ thread index abandonable panicking terminal,
          .complete thread index abandonable panicking terminal ∈ events →
            ShownClosed capture index terminal

/-- In every run in which threads replace the sidecar in turn, it never goes backwards. -/
theorem in_turn_never_backwards (state : State Value) (hpath : state.sidecarPath.isSome = true)
    (events : List (Event Value)) (last : World Value)
    (hturn : EveryInTurn (opened state) events) (hrun : run (opened state) events = some last) :
    NeverBackwards state events last := by
  have hready : Ready (opened state) := ⟨hpath, Publication.invariant_start state⟩
  constructor
  case forward =>
    intro earlier later between hevents hearlier
    subst hevents
    obtain ⟨middle, hfirst, hsecond⟩ := run_append hrun
    rw [hearlier] at hfirst
    obtain rfl := Option.some.inj hfirst
    obtain ⟨hturnFirst, hturnSecond⟩ := everyInTurn_append hturn
    have hbetween := (run_ready hready hturnFirst hearlier).1
    exact (run_ready hbetween (hturnSecond between hearlier) hsecond).2
  case latest =>
    intro hidle hfailed hcomplete
    have hlast := (run_ready hready hturn hrun).1
    have hnoticed := run_noticed hready hturn hrun (.inr hcomplete)
    obtain ⟨ticket, capture, hsidecar, hview⟩ := hlast.invariant.settled hnoticed
      (fun thread => stages_publication (hidle thread)) hfailed
    have hsnapshot : snapshot last.state = .ok capture := by
      change (snapshot last.state).toOption = some capture at hview
      cases hresult : snapshot last.state with
      | error failure =>
        rw [hresult] at hview
        cases hview
      | ok found =>
        rw [hresult] at hview
        rw [Option.some.inj hview]
    refine ⟨ticket, capture, hsidecar, hsnapshot, ?_⟩
    intro thread index abandonable panicking terminal hmem
    exact (run_closedBy hrun hfailed (.inr ⟨thread, abandonable, panicking, hmem⟩)).shown hsnapshot

end Runs

/-! ### Two operations -/

section Example

variable {world next last : World Value}

theorem put_other {thread other : Nat} {stage : Stage Value} (hne : other ≠ thread) :
    (world.put thread stage).stages other = world.stages other := Function.update_of_ne hne ..

/-- A step of one thread leaves the others where they are. -/
theorem step_other {event : Event Value} (h : step world event = some next) {other : Nat}
    (hne : other ≠ event.thread) : next.stages other = world.stages other := by
  cases event with
  | complete thread index abandonable panicking terminal =>
    unfold step at h
    dsimp only at h
    split at h
    · rcases complete_cases h with ⟨_, rfl, -⟩ | ⟨_, _, -, -, -, rfl⟩
      · exact put_other hne
      · exact put_other hne
    · cases h
  | takeSnapshot thread =>
    unfold step at h
    dsimp only at h
    split at h
    · rcases takeSnapshot_cases h with rfl | ⟨_, -, rfl⟩
      · exact put_other hne
      · exact put_other hne
    · cases h
  | replace thread =>
    unfold step at h
    dsimp only at h
    split at h
    · obtain rfl := Option.some.inj h
      exact put_other hne
    · cases h
  | reject thread message =>
    unfold step at h
    dsimp only at h
    split at h
    · split_ifs at h
      · obtain rfl := Option.some.inj h
        exact put_other hne
      · obtain rfl := Option.some.inj h
        exact put_other hne
    · cases h
  | breakFile thread message =>
    unfold step at h
    dsimp only at h
    split at h
    · obtain rfl := Option.some.inj h
      exact put_other hne
    · cases h

theorem run_other {events : List (Event Value)} (h : run world events = some last) {other : Nat}
    (hother : ∀ event ∈ events, other ≠ event.thread) :
    last.stages other = world.stages other := by
  induction events generalizing world with
  | nil => rw [Option.some.inj h]
  | cons event rest ih =>
    obtain ⟨next, hstep, hrest⟩ := Option.bind_eq_some_iff.mp h
    rw [ih hrest fun later hlater => hother later (List.mem_cons_of_mem _ hlater)]
    exact step_other hstep (hother event List.mem_cons_self)

end Example

def sidecarStart : State Unit where
  config := ActiveOperation.orderingConfig
  sidecarPath := some "0.json"
  runStartNs := 1000
  scenarioStart := 1010
  nextTimeNs := 1020
  nextOp := 0
  nextOrder := 0
  currentOperation := none
  operations := []
  terminalError := none

/-- An operation and one below it are open. -/
def bothOpen : State Unit :=
  (beginActive (beginActive sidecarStart "store" "open" (.ok ([], []))).2 "store" "read"
    (.ok ([], []))).2

/-- Two threads complete one operation each and take a snapshot one after the other; then
they replace the sidecar. -/
def closeBoth (replacements : List Nat) : List (Event Unit) :=
  [.complete 0 0 false false .unit, .takeSnapshot 0, .complete 1 1 false false .unit,
    .takeSnapshot 1] ++ replacements.map .replace

theorem closeBoth_other {replacements : List Nat} (h : ∀ thread ∈ replacements, thread < 2)
    {last : World Unit} (hrun : run (opened bothOpen) (closeBoth replacements) = some last)
    {other : Nat} (hother : 2 ≤ other) : last.stages other = .idle := by
  refine run_other hrun fun event hevent => ?_
  have hthread : event.thread < 2 := by
    rcases List.mem_append.mp hevent with hevent | hevent
    · simp only [List.mem_cons, List.not_mem_nil, or_false] at hevent
      rcases hevent with rfl | rfl | rfl | rfl <;> decide
    · obtain ⟨thread, hthread, rfl⟩ := List.mem_map.mp hevent
      exact h thread hthread
  omega

theorem closeBoth_in_turn :
    ∃ last, run (opened bothOpen) (closeBoth [0, 1]) = some last ∧
      NeverBackwards bothOpen (closeBoth [0, 1]) last := by
  refine ⟨_, rfl, in_turn_never_backwards bothOpen rfl _ _ ?_ rfl⟩
  refine ⟨trivial, fun first hfirst => ⟨trivial, fun second hsecond => ?_⟩⟩
  obtain rfl := Option.some.inj hfirst
  obtain rfl := Option.some.inj hsecond
  refine ⟨trivial, fun third hthird => ⟨trivial, fun fourth hfourth => ?_⟩⟩
  obtain rfl := Option.some.inj hthird
  obtain rfl := Option.some.inj hfourth
  refine ⟨?_, fun fifth hfifth => ?_⟩
  · intro ticket capture attempt hstage other otherTicket _ _ _
    cases hstage
    exact Nat.zero_le _
  · refine ⟨?_, fun _ _ => trivial⟩
    have hreplaced : run (opened bothOpen) (closeBoth [0]) = some fifth := hfifth
    have hidle : fifth.stages 0 = .idle := by
      obtain rfl := Option.some.inj hfifth
      rfl
    intro ticket capture attempt hstage other otherTicket otherCapture otherAttempt hother
    match other with
    | 0 =>
      rw [hidle] at hother
      cases hother
    | 1 =>
      rw [hstage] at hother
      cases hother
      exact Nat.le_refl _
    | other + 2 =>
      rw [closeBoth_other (by decide) hreplaced (Nat.le_add_left 2 other)] at hother
      cases hother

/-- The older snapshot is the last to replace the sidecar, and shows the operation below as
incomplete. -/
theorem older_snapshot_lands_last :
    ¬ ∀ (state : State Unit) (events : List (Event Unit)) (last : World Unit),
      state.sidecarPath.isSome = true → run (opened state) events = some last →
        NeverBackwards state events last := by
  intro h
  have hrun : ∃ last, run (opened bothOpen) (closeBoth [1, 0]) = some last ∧
      last.failed = false ∧ last.stages 0 = .idle ∧ last.stages 1 = .idle ∧
      (last.sidecar.bind fun found => found.2.operations[1]?).map OperationSpan.status =
        some .error := ⟨_, rfl, rfl, rfl, rfl, rfl⟩
  obtain ⟨last, hrun, hfailed, hfirst, hsecond, hstatus⟩ := hrun
  have hidle : ∀ thread, last.stages thread = .idle := by
    intro thread
    match thread with
    | 0 => exact hfirst
    | 1 => exact hsecond
    | other + 2 => exact closeBoth_other (by decide) hrun (Nat.le_add_left 2 other)
  obtain ⟨ticket, capture, hsidecar, -, hshown⟩ := (h bothOpen _ last rfl hrun).latest hidle hfailed
    ⟨.complete 0 0 false false .unit, List.mem_cons_self, rfl⟩
  have hmem : .complete 1 1 false false .unit ∈ closeBoth [1, 0] :=
    List.mem_cons_of_mem _ (List.mem_cons_of_mem _ List.mem_cons_self)
  obtain ⟨span, hspan, hok, -⟩ := hshown 1 1 false false .unit hmem
  rw [hsidecar, Option.bind_some, hspan, Option.map_some, hok] at hstatus
  cases hstatus

end SpecGate.SharedSidecars

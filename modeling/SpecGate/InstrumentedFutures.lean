import SpecGate.SidecarRuns

/-!
Instrumented operation futures of one capture session. The session keeps one current
operation, and every thread a slot that may hold the session. A future carries the context it
was constructed in; a poll installs the context and puts back what it replaced. What the code
that runs on a thread has open is read off the polls and scopes it stands in, and says below
which operation the next one belongs.
-/
namespace SpecGate.InstrumentedFutures

open CaptureSession SidecarRuns

variable {Value : Type}

/-! ### Data -/

/-- The context a future carries: whether it holds the session, and the current operation. -/
structure CaptureContext where
  collector : Bool
  currentOperation : Option Nat

/-- The expansion begins the operation at the first poll and completes it at the last. -/
inductive Phase where
  | fresh
  | running (scope : Option Nat)
  | done
  deriving DecidableEq

/-- A future; the origin is the operation its constructor had open. -/
structure Future where
  context : CaptureContext
  origin : Option Nat
  phase : Phase

/-- What the running code stands in: a synchronous operation, or a poll with the slot of the
thread and the current operation that it replaced. -/
inductive Frame where
  | scope (thread index : Nat)
  | poll (thread future : Nat) (saved : Option (Bool × Option Nat))

def Frame.thread : Frame → Nat
  | scope thread _ => thread
  | poll thread _ _ => thread

/-- The frames stand innermost first. -/
structure World (Value : Type) where
  session : Option (State Value)
  installed : Nat → Bool
  futures : List Future
  stack : List Frame

/-- How an operation ends. -/
inductive Ending (Value : Type) where
  | completed (terminal : NativeTerminal Value) (panicking : Bool) (written : Except String Unit)
  | dropped (panicking : Bool)

/-- A call that begins and ends no operation. -/
inductive Note (Value : Type) where
  | input (index : Nat) (name : String) (folded : Except CaptureError (List (String × Value)))
  | inputsRecorded (written : Except String Unit)
  | observe (name : String) (value : Value)
  | markError (error : CaptureError)

/-- What happens next. A call of the running code names its thread; a poll may move the future
to any thread. -/
inductive Event (Value : Type) where
  | start (thread : Nat) (config : Config) (sidecarPath : Option String)
      (registry : Except CaptureError Unit)
  | construct (thread : Nat)
  | poll (thread future : Nat)
  | begin (componentId operationName : String)
      (folded : Except CaptureError (List (String × Value) × List String))
  | enter (thread : Nat) (componentId operationName : String)
      (folded : Except CaptureError (List (String × Value) × List String))
  | leave (ending : Ending Value)
  | conclude (ending : Ending Value)
  | ret
  | drop (thread future : Nat) (panicking : Bool)
  | record (thread : Nat) (note : Note Value)

/-! ### What is open -/

/-- The operation open in the body of a future. -/
def Future.active (future : Future) : Option Nat :=
  match future.phase with
  | .running (some index) => some index
  | _ => future.origin

/-- The operation open in the code that the frames hold. A future polled without a context
has none of its own. -/
def expected (futures : List Future) : List Frame → Option Nat
  | [] => none
  | .scope _ index :: _ => some index
  | .poll _ future (some _) :: _ => (futures[future]?).bind Future.active
  | .poll _ _ none :: rest => expected futures rest

def polledIn : List Frame → List Nat
  | [] => []
  | .scope _ _ :: rest => polledIn rest
  | .poll _ future _ :: rest => future :: polledIn rest

/-! ### Steps -/

def setSlot (installed : Nat → Bool) (thread : Nat) (value : Bool) : Nat → Bool :=
  fun other => if other = thread then value else installed other

def setCurrent (current : Option Nat) (state : State Value) : State Value :=
  { state with currentOperation := current }

/-- End the scope of an operation. -/
def endScope (state : State Value) (index : Nat) (abandonable : Bool) :
    Ending Value → State Value
  | .completed terminal panicking written =>
      (complete state index abandonable panicking terminal written).2
  | .dropped panicking => dropScope state index abandonable panicking

def Note.apply (state : State Value) : Note Value → State Value
  | .input index name folded => (recordInput state index name folded).2
  | .inputsRecorded written => (CaptureSession.inputsRecorded state written).2
  | .observe name value => (recordObservation state name value).2
  | .markError error => state.fail error

namespace World

def current (world : World Value) : Option Nat := world.session.bind State.currentOperation

/-- The operation open in the code that runs on a thread. -/
def active (world : World Value) (thread : Nat) : Option Nat :=
  if world.installed thread then expected world.futures world.stack else none

def mapSession (world : World Value) (f : State Value → State Value) : World Value :=
  { world with session := world.session.map f }

/-- No future is between its poll and the start of its operation, or past its end. -/
def settled (world : World Value) : Bool :=
  match world.stack with
  | .poll _ future _ :: _ =>
      (world.futures[future]?).any fun found => decide (found.phase ≠ .fresh ∧ found.phase ≠ .done)
  | _ => true

/-- One poll runs at a time: while frames stand on one thread, the other threads that hold the
session wait. -/
def mayRun (world : World Value) (thread : Nat) : Bool :=
  world.settled &&
    match world.stack with
    | [] => true
    | frame :: _ => frame.thread == thread || !world.installed thread

/-- The context of a new future. -/
def captureAsyncContext (world : World Value) (thread : Nat) : CaptureContext where
  collector := world.installed thread
  currentOperation := if world.installed thread then world.current else none

def setPhase (world : World Value) (future : Nat) (phase : Phase) : World Value :=
  { world with futures := world.futures.modify future fun found => { found with phase := phase } }

/-- Begin an operation where the thread holds the session; a failure ends the session. -/
def beginScope (world : World Value) (thread : Nat) (componentId operationName : String)
    (folded : Except CaptureError (List (String × Value) × List String)) :
    Option Nat × World Value :=
  match world.installed thread, world.session with
  | true, some state =>
      match beginActive state componentId operationName folded with
      | (.ok index, state) => (some index, { world with session := some state })
      | (.error error, state) =>
          (none, { world with session := some (state.fail (reportedError error)) })
  | _, _ => (none, world)

/-- Enter a poll, with the context of the future if it has one. -/
def install (world : World Value) (thread future : Nat) (context : CaptureContext) :
    World Value :=
  if context.collector then
    { session := world.session.map (setCurrent context.currentOperation)
      installed := setSlot world.installed thread true
      futures := world.futures
      stack := .poll thread future (some (world.installed thread, world.current)) :: world.stack }
  else { world with stack := .poll thread future none :: world.stack }

/-- Leave a poll: the future keeps its current operation, and session and slot get theirs
back. -/
def restore (world : World Value) (thread future : Nat) (saved : Option (Bool × Option Nat))
    (rest : List Frame) : World Value :=
  match saved with
  | none => { world with stack := rest }
  | some (slot, previous) =>
      { session := world.session.map (setCurrent previous)
        installed := setSlot world.installed thread slot
        futures := world.futures.modify future fun found =>
          { found with context := { found.context with currentOperation := world.current } }
        stack := rest }

/-- End the operation of a future, if it has one. -/
def endOwn (world : World Value) (scope : Option Nat) (ending : Ending Value) : World Value :=
  match scope with
  | some index => world.mapSession fun state => endScope state index true ending
  | none => world

end World

open World

/-- `none` where the event cannot happen. -/
def step (world : World Value) : Event Value → Option (World Value)
  | .start thread config sidecarPath registry =>
      if world.mayRun thread && world.session.isNone then
        match CaptureSession.start config sidecarPath registry with
        | .ok state =>
            some { world with
              session := some state
              installed := setSlot world.installed thread true }
        | .error _ => some world
      else none
  | .construct thread =>
      if world.mayRun thread then
        some { world with
          futures := world.futures ++
            [⟨world.captureAsyncContext thread, world.active thread, .fresh⟩] }
      else none
  | .poll thread future =>
      if world.mayRun thread && !(polledIn world.stack).contains future then
        (world.futures[future]?).bind fun found =>
          if found.phase = .done then none else some (world.install thread future found.context)
      else none
  | .begin componentId operationName folded =>
      match world.stack with
      | .poll thread future _ :: _ =>
          (world.futures[future]?).bind fun found =>
            if found.phase = .fresh then
              let (scope, world) := world.beginScope thread componentId operationName folded
              some (world.setPhase future (.running scope))
            else none
      | _ => none
  | .enter thread componentId operationName folded =>
      if world.mayRun thread then
        match world.beginScope thread componentId operationName folded with
        | (some index, world) => some { world with stack := .scope thread index :: world.stack }
        | (none, world) => some world
      else none
  | .leave ending =>
      match world.stack with
      | .scope _ index :: rest =>
          some { world.mapSession fun state => endScope state index false ending with
            stack := rest }
      | _ => none
  | .conclude ending =>
      match world.stack with
      | .poll _ future _ :: _ =>
          (world.futures[future]?).bind fun found =>
            match found.phase with
            | .running scope => some ((world.endOwn scope ending).setPhase future .done)
            | _ => none
      | _ => none
  | .ret =>
      match world.stack with
      | .poll thread future saved :: rest =>
          (world.futures[future]?).bind fun found =>
            if found.phase = .fresh then none
            else some (world.restore thread future saved rest)
      | _ => none
  | .drop thread future panicking =>
      if world.mayRun thread && !(polledIn world.stack).contains future then
        (world.futures[future]?).bind fun found =>
          match found.phase with
          | .running scope => some ((world.endOwn scope (.dropped panicking)).setPhase future .done)
          | .fresh => some (world.setPhase future .done)
          | .done => none
      else none
  | .record thread note =>
      if world.mayRun thread then
        some (if world.installed thread then world.mapSession (note.apply ·) else world)
      else none

def run : World Value → List (Event Value) → Option (World Value)
  | world, [] => some world
  | world, event :: rest => (step world event).bind fun next => run next rest

/-- No session has been started yet. -/
def World.initial : World Value := ⟨none, fun _ => false, [], []⟩

/-! ### What a run shows -/

/-- The parents of the recorded operations. -/
def World.parents (world : World Value) : List (Option Nat) :=
  match world.session with
  | some state => state.operations.map PendingOperation.parentOperation
  | none => []

/-- The operation open where the scope or the future of a new operation was constructed. -/
def constructionParent (world : World Value) : Event Value → Option Nat
  | .begin _ _ _ =>
      match world.stack with
      | .poll _ future _ :: _ => (world.futures[future]?).bind Future.origin
      | _ => none
  | .enter thread _ _ _ => world.active thread
  | _ => none

/-- A future without a context is polled only on threads without the session, the session starts
outside every poll, and once it has failed no future is dropped whose operation is the current
one. -/
def Sound (world : World Value) : Event Value → Prop
  | .poll thread future => world.installed thread = true →
      ∃ found, world.futures[future]? = some found ∧ found.context.collector = true
  | .start _ _ _ _ => world.stack = []
  | .drop _ future _ => ∀ state, world.session = some state → state.terminalError ≠ none →
      ∀ found index, world.futures[future]? = some found → found.phase = .running (some index) →
        state.currentOperation ≠ some index
  | _ => True

/-- Every event of the run is sound. -/
def SoundRun : World Value → List (Event Value) → Prop
  | _, [] => True
  | world, event :: rest =>
      Sound world event ∧ ∀ next, step world event = some next → SoundRun next rest

/-! ### A future that is constructed too early -/

end SpecGate.InstrumentedFutures

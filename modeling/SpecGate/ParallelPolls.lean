import SpecGate.PollSchedules

/-!
Instrumented futures of one session that several threads poll at the same time. A poll puts
the current operation of its future in place of that of the session, the body begins and ends
operations below it, and the end of the poll puts back what it replaced. The session has one
current operation for all threads, and nothing holds it for the duration of a poll.
-/
namespace SpecGate.ParallelPolls

open CaptureSession CaptureEffects SidecarRuns InstrumentedFutures PollSchedules

variable {Value : Type}

/-! ### Data -/

/-- A future: the operation it was constructed below, the operations its body has open, the
latest first, and the current operation it carries between polls. -/
structure Task where
  origin : Option Nat
  scopes : List Nat
  currentOperation : Option Nat

/-- The operation that the body of a future runs in. -/
def Task.own (task : Task) : Option Nat := task.scopes.head?.or task.origin

/-- A poll in progress, with the slot and the current operation that it replaced. -/
structure Poll where
  thread : Nat
  future : Nat
  previousCollector : Bool
  previousOperation : Option Nat

/-- The polls stand in the order of their installation, the latest first. -/
structure World (Value : Type) where
  state : State Value
  installed : Nat → Bool
  futures : Nat → Task
  polls : List Poll

/-- A step of a thread. -/
inductive Event (Value : Type) where
  | install (thread future : Nat)
  | begin (thread : Nat) (componentId operationName : String)
      (folded : Except CaptureError (List (String × Value) × List String))
  | observe (thread : Nat) (name : String) (value : Value)
  | finish (thread : Nat) (abandonable : Bool) (ending : Ending Value)
  | restore (thread : Nat)

/-! ### Steps -/

namespace World

/-- The poll whose body runs on a thread. -/
def running (world : World Value) (thread : Nat) : Option Poll :=
  world.polls.find? fun poll => poll.thread == thread

def polled (world : World Value) : List Nat := world.polls.map Poll.future

def setTask (world : World Value) (future : Nat) (f : Task → Task) : World Value :=
  { world with futures := Function.update world.futures future (f (world.futures future)) }

/-- The operation open in the body that runs in a poll. -/
def own (world : World Value) (poll : Poll) : Option Nat := (world.futures poll.future).own

end World

def install (world : World Value) (thread future : Nat) : World Value where
  state := setCurrent (world.futures future).currentOperation world.state
  installed := setSlot world.installed thread true
  futures := world.futures
  polls := ⟨thread, future, world.installed thread, world.state.currentOperation⟩ :: world.polls

/-- Begin an operation in the body of a future, where the thread holds the session; a failure
ends the session. -/
def beginOperation (world : World Value) (poll : Poll) (componentId operationName : String)
    (folded : Except CaptureError (List (String × Value) × List String)) : World Value :=
  if world.installed poll.thread then
    match beginActive world.state componentId operationName folded with
    | (.ok index, state) =>
        { world with state := state }.setTask poll.future fun task =>
          { task with scopes := index :: task.scopes }
    | (.error error, state) => { world with state := state.fail (reportedError error) }
  else world

def observe (world : World Value) (poll : Poll) (name : String) (value : Value) : World Value :=
  if world.installed poll.thread then
    match recordObservation world.state name value with
    | (.ok _, state) => { world with state := state }
    | (.error error, state) => { world with state := state.fail (reportedError error) }
  else world

/-- End the latest operation of a body. -/
def finishOperation (world : World Value) (poll : Poll) (abandonable : Bool)
    (ending : Ending Value) : Option (World Value) :=
  match (world.futures poll.future).scopes with
  | [] => none
  | index :: rest =>
      some ({ world with state := endScope world.state index abandonable ending }.setTask
        poll.future fun task => { task with scopes := rest })

def restore (world : World Value) (poll : Poll) : World Value where
  state := setCurrent poll.previousOperation world.state
  installed := setSlot world.installed poll.thread poll.previousCollector
  futures := (world.setTask poll.future fun task =>
    { task with currentOperation := world.state.currentOperation }).futures
  polls := world.polls.eraseP fun other => other.thread == poll.thread

/-- `none` where a thread cannot take the step: a future is polled once at a time, and a body
runs only in a poll. -/
def step (world : World Value) : Event Value → Option (World Value)
  | .install thread future =>
      if world.polled.contains future then none else some (install world thread future)
  | .begin thread componentId operationName folded =>
      (world.running thread).map fun poll =>
        beginOperation world poll componentId operationName folded
  | .observe thread name value =>
      (world.running thread).map fun poll => observe world poll name value
  | .finish thread abandonable ending =>
      (world.running thread).bind fun poll => finishOperation world poll abandonable ending
  | .restore thread => (world.running thread).map (restore world)

def run : World Value → List (Event Value) → Option (World Value)
  | world, [] => some world
  | world, event :: rest => (step world event).bind fun next => run next rest

/-- A session with futures that have not been polled yet. -/
def spawned (state : State Value) (origins : Nat → Option Nat) : World Value where
  state := state
  installed := fun _ => false
  futures := fun future => ⟨origins future, [], origins future⟩
  polls := []

/-! ### Attribution -/

/-- An operation with one more observation. -/
def Gains (before after : Option (PendingOperation Value)) (name : String) (value : Value) : Prop :=
  ∃ operation order timeNs, before = some operation ∧ after = some { operation with
    observations := operation.observations ++ [⟨order, timeNs, name, value⟩] }

/-- A new operation stands below the one its body had open. -/
def BegunBelow (before after : World Value) (poll : Poll) : Prop :=
  (∀ operation, after.state.operations = before.state.operations ++ [operation] →
    operation.parentOperation = before.own poll ∧
      operation.parentSpanId = (((before.own poll).bind (before.state.operations[·]?)).map
        PendingOperation.spanId).getD before.state.config.scenarioSpanId) ∧
  (after.state.terminalError ≠ none ∨
    ∃ operation, after.state.operations = before.state.operations ++ [operation])

/-- An observation is recorded on the operation its body had open, and on no other. -/
def ObservedOn (before after : World Value) (poll : Poll) (name : String) (value : Value) : Prop :=
  (∀ index, before.own poll ≠ some index →
    after.state.operations[index]? = before.state.operations[index]?) ∧
  (name ≠ resultObservation → name ≠ faultObservation → ∀ index, before.own poll = some index →
    index < before.state.operations.length → after.state.terminalError ≠ none ∨
      Gains before.state.operations[index]? after.state.operations[index]? name value)

/-- What a body does belongs to the operation open in it, and its future carries that
operation on. -/
def Attributed (before : World Value) (event : Event Value) (after : World Value) : Prop :=
  match event with
  | .install _ _ | .finish _ _ _ => True
  | .begin thread _ _ _ => ∀ poll, before.running thread = some poll → BegunBelow before after poll
  | .observe thread name value => ∀ poll, before.running thread = some poll →
      ObservedOn before after poll name value
  | .restore thread => ∀ poll, before.running thread = some poll →
      (after.futures poll.future).currentOperation = before.own poll

/-- Every step of a run is attributed. -/
def EveryAttributed (world : World Value) (events : List (Event Value)) : Prop :=
  ∀ first event before after, first ++ [event] <+: events → run world first = some before →
    step before event = some after → Attributed before event after

/-- The poll of a thread, when it goes on or ends, is the one that was installed last. -/
def Latest (world : World Value) : Event Value → Prop
  | .install _ _ => True
  | .begin thread _ _ _ | .observe thread _ _ | .finish thread _ _ | .restore thread =>
      world.running thread = world.polls.head?

/-- Every step of a run is one of the latest poll. -/
def EveryLatest : World Value → List (Event Value) → Prop
  | _, [] => True
  | world, event :: rest =>
      Latest world event ∧ ∀ next, step world event = some next → EveryLatest next rest

/-! ### The invariant -/

/-- The open operations of a body, each below the next one. -/
def Chain (state : State Value) (origin : Option Nat) : List Nat → Prop
  | [] => True
  | index :: rest => Held state index (rest.head?.or origin) ∧ Chain state origin rest

/-- The current operation is that of the latest poll, which has saved that of the one before,
and so on. -/
def Points (own : Nat → Option Nat) (current : Option Nat) : List Poll → Prop
  | [] => True
  | poll :: rest => current = own poll.future ∧ Points own poll.previousOperation rest

def World.operationOf (world : World Value) (future : Nat) : Option Nat :=
  (world.futures future).own

/-- The threads of polls hold the session, also when an inner poll ends. -/
structure Slotted (world : World Value) : Prop where
  installed : ∀ poll ∈ world.polls, world.installed poll.thread = true
  nested : world.polls.Pairwise fun later earlier =>
    later.thread = earlier.thread → later.previousCollector = true

structure Invariant (world : World Value) : Prop where
  stepNs : 0 < world.state.config.stepNs
  points : Points world.operationOf world.state.currentOperation world.polls
  once : world.polled.Nodup
  carried : ∀ future, future ∉ world.polled →
    (world.futures future).currentOperation = world.operationOf future
  chains : ∀ future, Chain world.state (world.futures future).origin (world.futures future).scopes
  apart : ∀ {index first second}, index ∈ (world.futures first).scopes →
    index ∈ (world.futures second).scopes → first = second
  scopesOnce : ∀ future, (world.futures future).scopes.Nodup
  slots : Slotted world

theorem Chain.held {state : State Value} {origin : Option Nat} {scopes : List Nat}
    (h : Chain state origin scopes) {index : Nat} (hmem : index ∈ scopes) :
    ∃ parent, Held state index parent := by
  induction scopes with
  | nil => cases hmem
  | cons first rest ih =>
    rcases List.mem_cons.mp hmem with rfl | hmem
    · exact ⟨_, h.1⟩
    · exact ih h.2 hmem

theorem Chain.mono {before after : State Value} {origin : Option Nat} {scopes : List Nat}
    (h : Chain before origin scopes)
    (hheld : ∀ index ∈ scopes, ∀ parent, Held before index parent → Held after index parent) :
    Chain after origin scopes := by
  induction scopes with
  | nil => trivial
  | cons first rest ih =>
    refine ⟨hheld first List.mem_cons_self _ h.1, ih h.2 fun index hmem => ?_⟩
    exact hheld index (List.mem_cons_of_mem _ hmem)

theorem Points.congr {own own' : Nat → Option Nat} {current : Option Nat} {polls : List Poll}
    (h : Points own current polls) (hown : ∀ poll ∈ polls, own' poll.future = own poll.future) :
    Points own' current polls := by
  induction polls generalizing current with
  | nil => trivial
  | cons poll rest ih =>
    refine ⟨h.1.trans (hown poll List.mem_cons_self).symm, ih h.2 fun other hother => ?_⟩
    exact hown other (List.mem_cons_of_mem _ hother)

section Steps

variable {world next : World Value}

/-- The poll of a thread that goes on next is the head of the list. -/
theorem latest_head {thread : Nat} {poll : Poll}
    (hlatest : world.running thread = world.polls.head?)
    (h : world.running thread = some poll) : ∃ rest, world.polls = poll :: rest := by
  rw [h] at hlatest
  cases hpolls : world.polls with
  | nil =>
    rw [hpolls] at hlatest
    cases hlatest
  | cons first rest =>
    rw [hpolls] at hlatest
    cases hlatest
    exact ⟨rest, rfl⟩

theorem futures_setTask_other (world : World Value) {future other : Nat} (f : Task → Task)
    (hne : other ≠ future) : (world.setTask future f).futures other = world.futures other :=
  Function.update_of_ne hne ..

theorem futures_setTask_self (world : World Value) (future : Nat) (f : Task → Task) :
    (world.setTask future f).futures future = f (world.futures future) := Function.update_self ..

/-- The pointer of the session is the operation of the poll installed last. -/
theorem Invariant.pointer (h : Invariant world) {thread : Nat} {poll : Poll}
    (hlatest : world.running thread = world.polls.head?)
    (hrunning : world.running thread = some poll) :
    world.state.currentOperation = world.own poll := by
  obtain ⟨rest, hpolls⟩ := latest_head hlatest hrunning
  have hpoints := h.points
  rw [hpolls] at hpoints
  exact hpoints.1

theorem invariant_install (h : Invariant world) {thread future : Nat}
    (hnew : future ∉ world.polled) : Invariant (install world thread future) where
  stepNs := h.stepNs
  points := ⟨h.carried future hnew, h.points⟩
  once := List.nodup_cons.mpr ⟨hnew, h.once⟩
  carried := fun other hother => h.carried other fun hmem => hother (List.mem_cons_of_mem _ hmem)
  chains := fun other => (h.chains other).mono fun _ _ _ hheld => hheld
  apart := h.apart
  scopesOnce := h.scopesOnce
  slots := by
    constructor
    · intro poll hpoll
      show (if poll.thread = thread then true else world.installed poll.thread) = true
      by_cases hthread : poll.thread = thread
      · rw [if_pos hthread]
      · rw [if_neg hthread]
        rcases List.mem_cons.mp hpoll with rfl | hpoll
        · exact absurd rfl hthread
        · exact h.slots.installed poll hpoll
    · refine List.pairwise_cons.mpr ⟨fun earlier hearlier hthread => ?_, h.slots.nested⟩
      have hinstalled := h.slots.installed earlier hearlier
      rwa [← hthread] at hinstalled

/-- A step that leaves current operation and open operations alone keeps the invariant. -/
theorem Invariant.changed (h : Invariant world) {state : State Value}
    (hconfig : state.config = world.state.config)
    (hcurrent : state.currentOperation = world.state.currentOperation)
    (hheld : ∀ index parent, Held world.state index parent → Held state index parent) :
    Invariant { world with state := state } where
  stepNs := by
    show 0 < state.config.stepNs
    rw [hconfig]
    exact h.stepNs
  points := by
    show Points world.operationOf state.currentOperation world.polls
    rw [hcurrent]
    exact h.points
  once := h.once
  carried := h.carried
  chains := fun future => (h.chains future).mono fun index _ parent => hheld index parent
  apart := h.apart
  scopesOnce := h.scopesOnce
  slots := ⟨h.slots.installed, h.slots.nested⟩

/-- A world after the body of a future has changed the session and what it has open. -/
def World.moved (world : World Value) (future : Nat) (state : State Value) (scopes : List Nat) :
    World Value :=
  { world with state := state }.setTask future fun task => { task with scopes := scopes }

/-- What the body of the latest poll does keeps the invariant, if the current operation is that
of its future afterwards and other bodies keep theirs. -/
theorem Invariant.body (h : Invariant world) {poll : Poll} {rest : List Poll}
    (hpolls : world.polls = poll :: rest) {state : State Value} {scopes : List Nat}
    (hconfig : state.config = world.state.config)
    (hcurrent : state.currentOperation = scopes.head?.or (world.futures poll.future).origin)
    (hchain : Chain state (world.futures poll.future).origin scopes) (hscopes : scopes.Nodup)
    (hothers : ∀ other, other ≠ poll.future → ∀ index ∈ (world.futures other).scopes,
      index ∉ scopes ∧ ∀ parent, Held world.state index parent → Held state index parent) :
    Invariant (world.moved poll.future state scopes) := by
  have honce := h.once
  have hpoints := h.points
  rw [World.polled, hpolls] at honce
  rw [hpolls] at hpoints
  obtain ⟨hnot, -⟩ := List.nodup_cons.mp honce
  have hother : ∀ {other}, other ≠ poll.future →
      (world.moved poll.future state scopes).futures other = world.futures other :=
    fun hne => futures_setTask_other _ _ hne
  have hself : (world.moved poll.future state scopes).futures poll.future =
      { world.futures poll.future with scopes := scopes } := futures_setTask_self _ _ _
  constructor
  case stepNs =>
    show 0 < state.config.stepNs
    rw [hconfig]
    exact h.stepNs
  case points =>
    have hpoint : Points (world.moved poll.future state scopes).operationOf state.currentOperation
        (poll :: rest) := by
      refine ⟨?_, hpoints.2.congr fun earlier hearlier => ?_⟩
      · rw [hcurrent, World.operationOf, hself]
        rfl
      · have hne : earlier.future ≠ poll.future := by
          intro hsame
          exact hnot (hsame ▸ List.mem_map_of_mem hearlier)
        rw [World.operationOf, hother hne]
        rfl
    rw [← hpolls] at hpoint
    exact hpoint
  case once => exact h.once
  case carried =>
    intro future hfuture
    have hne : future ≠ poll.future := by
      rintro rfl
      apply hfuture
      show poll.future ∈ world.polls.map Poll.future
      rw [hpolls]
      exact List.mem_cons_self
    rw [World.operationOf, hother hne]
    exact h.carried future hfuture
  case chains =>
    intro future
    by_cases hsame : future = poll.future
    · subst hsame
      rw [hself]
      exact hchain
    · rw [hother hsame]
      exact (h.chains future).mono fun index hmem => (hothers future hsame index hmem).2
  case apart =>
    intro index first second hfirst hsecond
    by_cases hone : first = poll.future
    · by_cases htwo : second = poll.future
      · exact hone.trans htwo.symm
      · rw [hother htwo] at hsecond
        rw [hone, hself] at hfirst
        exact absurd hfirst (hothers second htwo index hsecond).1
    · rw [hother hone] at hfirst
      by_cases htwo : second = poll.future
      · rw [htwo, hself] at hsecond
        exact absurd hsecond (hothers first hone index hfirst).1
      · rw [hother htwo] at hsecond
        exact h.apart hfirst hsecond
  case scopesOnce =>
    intro future
    by_cases hsame : future = poll.future
    · subst hsame
      rw [hself]
      exact hscopes
    · rw [hother hsame]
      exact h.scopesOnce future
  case slots => exact ⟨h.slots.installed, h.slots.nested⟩

theorem held_fail {state : State Value} {index : Nat} {parent : Option Nat}
    (h : Held state index parent) (error : CaptureError) :
    Held (state.fail error) index parent := h

theorem invariant_begin (h : Invariant world) {poll : Poll} {rest : List Poll}
    (hpolls : world.polls = poll :: rest) (componentId operationName : String)
    (folded : Except CaptureError (List (String × Value) × List String)) :
    Invariant (beginOperation world poll componentId operationName folded) := by
  have hpoints := h.points
  rw [hpolls] at hpoints
  unfold beginOperation
  by_cases hinstalled : world.installed poll.thread = true
  · rw [if_pos hinstalled]
    cases hbegin : beginActive world.state componentId operationName folded with
    | mk result state =>
      rcases beginActive_cases h.stepNs hbegin with ⟨⟨error, rfl⟩, hwaits⟩ | ⟨rfl, -, operation, hbegun⟩
      · have hquiet := hwaits.quiet
        exact h.changed hquiet.forward.config hquiet.current fun index parent hheld =>
          held_fail (hheld.of_core hquiet.operations) _
      · have hfresh : ∀ other, world.state.operations.length ∉ (world.futures other).scopes := by
          intro other hmem
          obtain ⟨parent, hheld⟩ := (h.chains other).held hmem
          exact Nat.lt_irrefl _ hheld.lt_length
        refine h.body hpolls hbegun.forward.config hbegun.current ?_ ?_ ?_
        · refine ⟨?_, (h.chains poll.future).mono fun _ _ _ hheld => hheld.begun hbegun⟩
          have hnew := held_new hbegun
          rwa [hpoints.1] at hnew
        · exact List.nodup_cons.mpr ⟨hfresh poll.future, h.scopesOnce poll.future⟩
        · intro other hne index hmem
          refine ⟨fun hscope => ?_, fun parent hheld => hheld.begun hbegun⟩
          rcases List.mem_cons.mp hscope with rfl | hscope
          · exact hfresh other hmem
          · exact hne (h.apart hmem hscope)
  · rw [if_neg hinstalled]
    exact h

theorem invariant_observe (h : Invariant world) (poll : Poll) (name : String) (value : Value) :
    Invariant (observe world poll name value) := by
  unfold observe
  by_cases hinstalled : world.installed poll.thread = true
  · rw [if_pos hinstalled]
    cases hobserve : recordObservation world.state name value with
    | mk result state =>
      have hkept : state.config = world.state.config ∧
          state.currentOperation = world.state.currentOperation ∧
          ∀ index parent, Held world.state index parent → Held state index parent := by
        rcases recordObservation_cases h.stepNs hobserve with hwaits | ⟨index, observation, hobserved⟩
        · have hquiet := hwaits.quiet
          exact ⟨hquiet.forward.config, hquiet.current, fun _ _ hheld =>
            hheld.of_core hquiet.operations⟩
        · exact ⟨hobserved.forward.config, hobserved.current.trans hobserved.currentBefore.symm,
            fun _ _ hheld => hheld.observed hobserved⟩
      obtain ⟨hconfig, hcurrent, hheld⟩ := hkept
      cases result with
      | ok _ => exact h.changed hconfig hcurrent hheld
      | error error =>
        exact h.changed hconfig hcurrent fun index parent hold =>
          held_fail (hheld index parent hold) _
  · rw [if_neg hinstalled]
    exact h

theorem invariant_finish (h : Invariant world) {poll : Poll} {rest : List Poll}
    (hpolls : world.polls = poll :: rest) {abandonable : Bool} {ending : Ending Value}
    (hfinish : finishOperation world poll abandonable ending = some next) : Invariant next := by
  have hpoints := h.points
  rw [hpolls] at hpoints
  unfold finishOperation at hfinish
  cases hscopes : (world.futures poll.future).scopes with
  | nil =>
    rw [hscopes] at hfinish
    cases hfinish
  | cons index outer =>
    rw [hscopes] at hfinish
    obtain rfl := Option.some.inj hfinish
    have hchain := h.chains poll.future
    rw [hscopes] at hchain
    have honce := h.scopesOnce poll.future
    rw [hscopes] at honce
    obtain ⟨hnot, houter⟩ := List.nodup_cons.mp honce
    have hcurrent : world.state.currentOperation = some index := by
      rw [hpoints.1, World.operationOf, Task.own, hscopes]
      rfl
    have hended : (endScope world.state index abandonable ending).config = world.state.config ∧
        (endScope world.state index abandonable ending).currentOperation =
          outer.head?.or (world.futures poll.future).origin ∧
        ∀ other, other ≠ index → ∀ parent, Held world.state other parent →
          Held (endScope world.state index abandonable ending) other parent := by
      have hreleased := released_held hchain.1
      rw [if_pos hcurrent] at hreleased
      rcases endScope_cases h.stepNs hchain.1 abandonable ending with
        ⟨completion, endNs, status, hclosed⟩ | hlost
      · exact ⟨hclosed.forward.config, hclosed.current.trans hreleased, fun other hne parent hheld =>
          hheld.closed (Ne.symm hne) hclosed⟩
      · exact ⟨hlost.forward.config, hlost.current.trans hreleased, fun other _ parent hheld =>
          hheld.of_core (congrArg (List.map core) hlost.operations)⟩
    obtain ⟨hconfig, hparent, hheld⟩ := hended
    refine h.body hpolls hconfig hparent ?_ houter ?_
    · refine hchain.2.mono fun other hmem parent hold => hheld other ?_ parent hold
      rintro rfl
      exact hnot hmem
    · intro other hne place hmem
      have hplace : place ∉ (world.futures poll.future).scopes := fun hscope =>
        hne (h.apart hmem hscope)
      rw [hscopes] at hplace
      obtain ⟨hindex, hrest⟩ := not_or.mp (List.mem_cons.not.mp hplace)
      exact ⟨hrest, fun parent hold => hheld place hindex parent hold⟩

theorem invariant_restore (h : Invariant world) {poll : Poll} {rest : List Poll}
    (hpolls : world.polls = poll :: rest) : Invariant (restore world poll) := by
  have honce := h.once
  have hpoints := h.points
  have hinstalled := h.slots.installed
  have hnested := h.slots.nested
  rw [World.polled, hpolls] at honce
  rw [hpolls] at hpoints hinstalled hnested
  obtain ⟨hnot, hrest⟩ := List.nodup_cons.mp honce
  obtain ⟨houter, hnested⟩ := List.pairwise_cons.mp hnested
  have herased : (restore world poll).polls = rest := by
    show world.polls.eraseP _ = rest
    rw [hpolls]
    exact List.eraseP_cons_of_pos (beq_self_eq_true _)
  let carry := fun task : Task => { task with currentOperation := world.state.currentOperation }
  have hother : ∀ {other}, other ≠ poll.future →
      (restore world poll).futures other = world.futures other :=
    fun hne => futures_setTask_other world carry hne
  have hself : (restore world poll).futures poll.future =
      { world.futures poll.future with currentOperation := world.state.currentOperation } :=
    futures_setTask_self world poll.future carry
  have hown : ∀ future, (restore world poll).operationOf future = world.operationOf future := by
    intro future
    by_cases hsame : future = poll.future
    · rw [hsame, World.operationOf, hself]
      rfl
    · rw [World.operationOf, hother hsame]
      rfl
  have hscopes : ∀ future, ((restore world poll).futures future).scopes =
      (world.futures future).scopes ∧ ((restore world poll).futures future).origin =
        (world.futures future).origin := by
    intro future
    by_cases hsame : future = poll.future
    · rw [hsame, hself]
      exact ⟨rfl, rfl⟩
    · rw [hother hsame]
      exact ⟨rfl, rfl⟩
  constructor
  case stepNs => exact h.stepNs
  case points =>
    rw [herased]
    exact hpoints.2.congr fun other _ => hown other.future
  case once =>
    rw [World.polled, herased]
    exact hrest
  case carried =>
    intro future hfuture
    rw [World.polled, herased] at hfuture
    rw [hown]
    by_cases hsame : future = poll.future
    · rw [hsame, hself]
      exact hpoints.1
    · rw [hother hsame]
      refine h.carried future fun hmem => ?_
      rw [World.polled, hpolls] at hmem
      rcases List.mem_cons.mp hmem with heq | hmem
      · exact hsame heq
      · exact hfuture hmem
  case chains =>
    intro future
    rw [(hscopes future).1, (hscopes future).2]
    exact (h.chains future).mono fun _ _ _ hheld => hheld
  case apart =>
    intro index first second hfirst hsecond
    rw [(hscopes first).1] at hfirst
    rw [(hscopes second).1] at hsecond
    exact h.apart hfirst hsecond
  case scopesOnce =>
    intro future
    rw [(hscopes future).1]
    exact h.scopesOnce future
  case slots =>
    constructor
    · rw [herased]
      intro other hmem
      show (if other.thread = poll.thread then poll.previousCollector
        else world.installed other.thread) = true
      by_cases hthread : other.thread = poll.thread
      · rw [if_pos hthread]
        exact houter other hmem hthread.symm
      · rw [if_neg hthread]
        exact hinstalled other (List.mem_cons_of_mem _ hmem)
    · rw [herased]
      exact hnested

/-- Every step of the latest poll keeps the invariant. -/
theorem step_invariant (h : Invariant world) {event : Event Value} (hlatest : Latest world event)
    (hstep : step world event = some next) : Invariant next := by
  cases event with
  | install thread future =>
    unfold step at hstep
    dsimp only at hstep
    by_cases hpolled : world.polled.contains future = true
    · rw [if_pos hpolled] at hstep
      cases hstep
    · rw [if_neg hpolled] at hstep
      obtain rfl := Option.some.inj hstep
      exact invariant_install h fun hmem => hpolled (List.contains_iff_mem.mpr hmem)
  | begin thread componentId operationName folded =>
    obtain ⟨poll, hrunning, rfl⟩ := Option.map_eq_some_iff.mp hstep
    obtain ⟨rest, hpolls⟩ := latest_head hlatest hrunning
    exact invariant_begin h hpolls componentId operationName folded
  | observe thread name value =>
    obtain ⟨poll, -, rfl⟩ := Option.map_eq_some_iff.mp hstep
    exact invariant_observe h poll name value
  | finish thread abandonable ending =>
    obtain ⟨poll, hrunning, hfinish⟩ := Option.bind_eq_some_iff.mp hstep
    obtain ⟨rest, hpolls⟩ := latest_head hlatest hrunning
    exact invariant_finish h hpolls hfinish
  | restore thread =>
    obtain ⟨poll, hrunning, rfl⟩ := Option.map_eq_some_iff.mp hstep
    obtain ⟨rest, hpolls⟩ := latest_head hlatest hrunning
    exact invariant_restore h hpolls

end Steps

/-! ### Runs of the latest polls -/

section Runs

variable {world next last : World Value}

theorem begun_below (h : Invariant world) {poll : Poll} {rest : List Poll}
    (hpolls : world.polls = poll :: rest) (componentId operationName : String)
    (folded : Except CaptureError (List (String × Value) × List String)) :
    BegunBelow world (beginOperation world poll componentId operationName folded) poll := by
  have hpoints := h.points
  have hslots := h.slots.installed
  rw [hpolls] at hpoints hslots
  have hinstalled := hslots poll List.mem_cons_self
  unfold beginOperation
  rw [if_pos hinstalled]
  cases hbegin : beginActive world.state componentId operationName folded with
  | mk result state =>
    rcases beginActive_cases h.stepNs hbegin with ⟨⟨error, rfl⟩, hwaits⟩ | ⟨rfl, -, begun, hbegun⟩
    · refine ⟨fun operation hoperations => ?_, .inl (Option.some_ne_none _)⟩
      have hsame : state.operations = world.state.operations ++ [operation] := hoperations
      have hlength := congrArg List.length (hwaits.quiet.operations)
      rw [hsame, List.length_map, List.length_map, List.length_append, List.length_singleton]
        at hlength
      omega
    · refine ⟨fun operation hoperations => ?_, .inr ⟨begun, hbegun.operations⟩⟩
      have hsame : state.operations = world.state.operations ++ [operation] := hoperations
      rw [hbegun.operations, List.append_cancel_left_eq] at hsame
      obtain rfl := List.singleton_inj.mp hsame
      have hparent := hbegun.parentSpanId
      rw [hpoints.1] at hparent
      exact ⟨hbegun.parent.trans hpoints.1, hparent⟩

theorem observed_on (h : Invariant world) {poll : Poll} {rest : List Poll}
    (hpolls : world.polls = poll :: rest) (name : String) (value : Value) :
    ObservedOn world (observe world poll name value) poll name value := by
  have hpoints := h.points
  have hslots := h.slots.installed
  rw [hpolls] at hpoints hslots
  have hinstalled := hslots poll List.mem_cons_self
  have hpointer : world.state.currentOperation = world.own poll := hpoints.1
  unfold observe
  rw [if_pos hinstalled]
  constructor
  · intro index hindex
    cases hobserve : recordObservation world.state name value with
    | mk result state =>
      have hkept : state.operations[index]? = world.state.operations[index]? := by
        rcases recordObservation_cases h.stepNs hobserve with
          ⟨_, _, -, -, rfl⟩ | ⟨place, observation, hobserved⟩
        · rfl
        · have hne : place ≠ index := by
            intro hsame
            rw [← hpointer, hobserved.currentBefore, hsame] at hindex
            exact hindex rfl
          rw [hobserved.operations, List.getElem?_modify_ne _ _ hne]
      cases result with
      | ok _ => exact hkept
      | error _ => exact hkept
  · intro hresult hfault index hown hbound
    rw [← hpointer] at hown
    unfold recordObservation
    rw [hown]
    dsimp only
    rw [if_neg (not_or.mpr ⟨hresult, hfault⟩)]
    cases hstamp : world.state.stamp with
    | mk stamped state =>
      cases stamped with
      | error error => exact .inl (Option.some_ne_none _)
      | ok drawn =>
        refine .inr ⟨world.state.operations[index], drawn.1, drawn.2,
          List.getElem?_eq_getElem hbound, ?_⟩
        show (state.operations.modify index _)[index]? = _
        rw [List.getElem?_modify_eq, stamp_operations hstamp, List.getElem?_eq_getElem hbound]
        rfl

/-- A step of the latest poll belongs to the operation open in its body. -/
theorem step_attributed (h : Invariant world) {event : Event Value} (hlatest : Latest world event)
    (hstep : step world event = some next) : Attributed world event next := by
  cases event with
  | install | finish => trivial
  | begin thread componentId operationName folded =>
    intro poll hrunning
    obtain ⟨rest, hpolls⟩ := latest_head hlatest hrunning
    rw [step, hrunning, Option.map_some] at hstep
    obtain rfl := Option.some.inj hstep
    exact begun_below h hpolls componentId operationName folded
  | observe thread name value =>
    intro poll hrunning
    obtain ⟨rest, hpolls⟩ := latest_head hlatest hrunning
    rw [step, hrunning, Option.map_some] at hstep
    obtain rfl := Option.some.inj hstep
    exact observed_on h hpolls name value
  | restore thread =>
    intro poll hrunning
    have hpointer := h.pointer hlatest hrunning
    rw [step, hrunning, Option.map_some] at hstep
    obtain rfl := Option.some.inj hstep
    rw [← hpointer]
    exact congrArg Task.currentOperation (futures_setTask_self world poll.future
      fun task => { task with currentOperation := world.state.currentOperation })

theorem run_invariant {events : List (Event Value)} (h : Invariant world)
    (hlatest : EveryLatest world events) (hrun : run world events = some last) : Invariant last := by
  induction events generalizing world with
  | nil =>
    obtain rfl := Option.some.inj hrun
    exact h
  | cons event rest ih =>
    obtain ⟨next, hstep, hrest⟩ := Option.bind_eq_some_iff.mp hrun
    exact ih (step_invariant h hlatest.1 hstep) (hlatest.2 next hstep) hrest

theorem everyLatest_append {first second : List (Event Value)}
    (h : EveryLatest world (first ++ second)) : EveryLatest world first ∧
      ∀ between, run world first = some between → EveryLatest between second := by
  induction first generalizing world with
  | nil =>
    refine ⟨trivial, fun between hrun => ?_⟩
    obtain rfl := Option.some.inj hrun
    exact h
  | cons event rest ih =>
    obtain ⟨hlatest, hnext⟩ := h
    refine ⟨⟨hlatest, fun next hstep => (ih (hnext next hstep)).1⟩, fun between hrun => ?_⟩
    obtain ⟨next, hstep, hrest⟩ := Option.bind_eq_some_iff.mp hrun
    exact (ih (hnext next hstep)).2 between hrest

theorem invariant_spawned {state : State Value} (hstep : 0 < state.config.stepNs)
    (origins : Nat → Option Nat) : Invariant (spawned state origins) where
  stepNs := hstep
  points := trivial
  once := List.nodup_nil
  carried := fun _ _ => rfl
  chains := fun _ => trivial
  apart := fun hmem => by cases hmem
  scopesOnce := fun _ => List.nodup_nil
  slots := ⟨fun _ hmem => (by cases hmem), List.Pairwise.nil⟩

/-- In every run in which only the poll installed last goes on or ends, operations and
observations belong to the future whose body performs them, and so does what it carries on. -/
theorem latest_polls_attributed (state : State Value) (hstep : 0 < state.config.stepNs)
    (origins : Nat → Option Nat) (events : List (Event Value))
    (h : EveryLatest (spawned state origins) events) :
    EveryAttributed (spawned state origins) events := by
  intro first event before after hprefix hrun hafter
  obtain ⟨rest, rfl⟩ := hprefix
  rw [List.append_assoc] at h
  obtain ⟨hfirst, hrest⟩ := everyLatest_append h
  have hbefore := run_invariant (invariant_spawned hstep origins) hfirst hrun
  exact step_attributed hbefore (hrest before hrun).1 hafter

end Runs

/-! ### Two tasks -/

def emptySession : State Unit where
  config := ActiveOperation.orderingConfig
  sidecarPath := none
  runStartNs := 1000
  scenarioStart := 1010
  nextTimeNs := 1020
  nextOp := 0
  nextOrder := 0
  currentOperation := none
  operations := []
  terminalError := none

/-- The second task is polled while the body of the first one waits within its poll. -/
def nestedPolls : List (Event Unit) :=
  [.install 0 0, .begin 0 "store" "open" (.ok ([], [])), .install 1 1,
    .begin 1 "store" "read" (.ok ([], [])), .restore 1, .observe 0 "size" (), .restore 0]

theorem nestedPolls_attributed :
    EveryAttributed (spawned emptySession fun _ => none) nestedPolls := by
  refine latest_polls_attributed emptySession (by decide) _ nestedPolls ?_
  refine ⟨trivial, fun first hfirst => ⟨?_, fun second hsecond => ⟨trivial, fun third hthird => ?_⟩⟩⟩
  · obtain rfl := Option.some.inj hfirst
    rfl
  obtain rfl := Option.some.inj hfirst
  obtain rfl := Option.some.inj hsecond
  obtain rfl := Option.some.inj hthird
  refine ⟨rfl, fun fourth hfourth => ?_⟩
  obtain rfl := Option.some.inj hfourth
  refine ⟨rfl, fun fifth hfifth => ?_⟩
  obtain rfl := Option.some.inj hfifth
  refine ⟨rfl, fun sixth hsixth => ?_⟩
  obtain rfl := Option.some.inj hsixth
  exact ⟨rfl, fun _ _ => trivial⟩

/-- Two tasks are polled at the same time, and each begins an operation. -/
def overlappingPolls : List (Event Unit) :=
  [.install 0 0, .install 1 1, .begin 0 "store" "open" (.ok ([], [])),
    .begin 1 "store" "read" (.ok ([], []))]

/-- The operation of the second task is recorded below that of the first. -/
theorem overlapping_polls_adopt :
    ¬ ∀ (state : State Unit) (origins : Nat → Option Nat) (events : List (Event Unit)),
      0 < state.config.stepNs → EveryAttributed (spawned state origins) events := by
  intro h
  have hbefore : ∃ before after, run (spawned emptySession fun _ => none)
      (overlappingPolls.take 3) = some before ∧
      step before (.begin 1 "store" "read" (.ok ([], []))) = some after ∧
      before.running 1 = some ⟨1, 1, false, none⟩ ∧
      before.own ⟨1, 1, false, none⟩ = none ∧
      ∃ operation, after.state.operations = before.state.operations ++ [operation] ∧
        operation.parentOperation = some 0 := by
    refine ⟨_, _, rfl, rfl, rfl, rfl, _, rfl, rfl⟩
  obtain ⟨before, after, hrun, hstep, hrunning, hown, operation, hoperations, hparent⟩ := hbefore
  have hattributed := h emptySession (fun _ => none) overlappingPolls (by decide)
    (overlappingPolls.take 3) _ before after ⟨[], rfl⟩ hrun hstep
  have hbelow := ((hattributed _ hrunning).1 operation hoperations).1
  rw [hparent, hown] at hbelow
  cases hbelow

end SpecGate.ParallelPolls

import SpecGate.ActiveOperation

/-!
Runs of instrumented operations in a session that writes a sidecar. Entering an operation
records its inputs and writes a snapshot, and so does completing one; an observation and a
dropped scope write nothing. A call that fails is reported on the error stream, and the
session fails with it. In a snapshot the operations that are still open have an incomplete
capture as their completion; so a sidecar without such a completion was written when every
operation had closed.
-/
namespace SpecGate.SidecarRuns

open CaptureSession CaptureEffects CaptureRuns ActiveOperation Collecting

variable {Value : Type}

/-- A session, the sidecar it wrote last, and whether a failure has been reported. -/
structure Recording (Value : Type) where
  session : Session Value
  sidecar : Option (Capture Value)
  reported : Bool

/-- What generated code calls. A context switch leaves and enters futures: it makes another
operation the current one. -/
inductive Call (Value : Type) where
  | enter (componentId operationName : String) (abandonable : Bool)
      (folded : Except CaptureError (List (String × Value) × List String))
      (inputs : List (String × Except CaptureError (List (String × Value))))
      (written : Except String Unit)
  | observe (name : String) (value : Value)
  | complete (position : Nat) (terminal : NativeTerminal Value) (panicking : Bool)
      (written : Except String Unit)
  | drop (position : Nat) (panicking : Bool)
  | resume (operation : Option Nat)

def Call.isDrop : Call Value → Bool
  | .drop _ _ => true
  | _ => false

/-! ### Steps -/

/-- The provisional capture of a session: its open operations are closed as incomplete. -/
def snapshot (state : State Value) : Except Failure (Capture Value) :=
  match (if state.hasOutstanding then closeOutstanding state else .ok state) with
  | .error error => .error (.error error)
  | .ok provisional => build provisional

def hasMarker (text : String) : Bool := decide (failureMarker.toList <:+: text.toList)

/-- A failure as generated code reports it. -/
def reportedError (error : CaptureError) : CaptureError :=
  let message :=
    if error.diagnostic = "" then "generated capture failure omitted a diagnostic"
    else error.diagnostic
  ⟨.persistence, if hasMarker message then message else s!"{failureMarker} {message}"⟩

namespace Recording

def state (recording : Recording Value) : State Value := recording.session.state

def withState (recording : Recording Value) (state : State Value) : Recording Value :=
  { recording with session := { recording.session with state := state } }

def report (recording : Recording Value) (error : CaptureError) : Recording Value :=
  { recording.withState (recording.state.fail (reportedError error)) with reported := true }

/-- The sidecar after a snapshot has been written. -/
def persisted (recording : Recording Value) : Recording Value :=
  if recording.state.sidecarPath.isSome then
    { recording with sidecar := (snapshot recording.state).toOption }
  else recording

/-- What follows a call: a failure is reported, and a panic ends the run. -/
def settleCall (recording : Recording Value) (result : Except Failure Unit)
    (next : Recording Value → Recording Value) : Option (Recording Value) :=
  match result with
  | .ok _ => some (next recording)
  | .error (.error error) => some (recording.report error)
  | .error (.panic _) => none

end Recording

/-- Record the inputs of an operation one by one. -/
def recordInputs (recording : Recording Value) (index : Nat) :
    List (String × Except CaptureError (List (String × Value))) → Option (Recording Value)
  | [] => some recording
  | (name, folded) :: rest =>
      let (result, state) := recordInput recording.state index name folded
      ((recording.withState state).settleCall result id).bind fun recording =>
        recordInputs recording index rest

/-- Begin an operation, record its inputs, and write a snapshot. -/
def enter (recording : Recording Value) (componentId operationName : String) (abandonable : Bool)
    (folded : Except CaptureError (List (String × Value) × List String))
    (inputs : List (String × Except CaptureError (List (String × Value))))
    (written : Except String Unit) : Option (Recording Value) :=
  match beginActive recording.state componentId operationName folded with
  | (.error error, state) => some ((recording.withState state).report error)
  | (.ok index, state) =>
      let entered := { recording with
        session := ⟨state, ⟨index, abandonable⟩ :: recording.session.scopes⟩ }
      (recordInputs entered index inputs).bind fun recording =>
        let (result, state) := inputsRecorded recording.state written
        (recording.withState state).settleCall result Recording.persisted

def observe (recording : Recording Value) (name : String) (value : Value) : Recording Value :=
  match recordObservation recording.state name value with
  | (.ok _, state) => recording.withState state
  | (.error error, state) => (recording.withState state).report error

/-- Replace the session by one in which a scope has ended. -/
def endScope (recording : Recording Value) (position : Nat) (state : State Value) :
    Recording Value :=
  { recording with session := ⟨state, recording.session.scopes.eraseIdx position⟩ }

def completeScope (recording : Recording Value) (position : Nat) (terminal : NativeTerminal Value)
    (panicking : Bool) (written : Except String Unit) (scope : Scope) :
    Option (Recording Value) :=
  let (result, state) := complete recording.state scope.index scope.abandonable panicking terminal
    written
  (endScope recording position state).settleCall result Recording.persisted

def step (recording : Recording Value) : Call Value → Option (Recording Value)
  | .enter componentId operationName abandonable folded inputs written =>
      enter recording componentId operationName abandonable folded inputs written
  | .observe name value => some (observe recording name value)
  | .complete position terminal panicking written =>
      (recording.session.scopes[position]?).bind
        (completeScope recording position terminal panicking written)
  | .drop position panicking =>
      (recording.session.scopes[position]?).map fun scope => endScope recording position
        (dropScope recording.state scope.index scope.abandonable panicking)
  | .resume operation =>
      some (recording.withState { recording.state with currentOperation := operation })

def run : Recording Value → List (Call Value) → Option (Recording Value)
  | recording, [] => some recording
  | recording, call :: rest => (step recording call).bind fun next => run next rest

/-- The recording of a session that has just started. -/
def started (state : State Value) : Recording Value := ⟨⟨state, []⟩, none, false⟩

/-- Whatever is observed is observed within an operation: after it began, and before it
closed. -/
def Within : Recording Value → List (Call Value) → Prop
  | _, [] => True
  | recording, call :: rest =>
      (∀ name value, call = .observe name value → ∀ index,
        recording.state.currentOperation = some index → OpenAt recording.state index) ∧
      ∀ next, step recording call = some next → Within next rest

/-! ### Snapshots -/

section Snapshots

variable {state : State Value} {capture : Capture Value}

def isIncomplete : Completion Value → Bool
  | .fault _ _ faultType _ _ => faultType == "incomplete_capture"
  | _ => false

/-- No operation of the capture was open when it was taken. -/
def Finalized (capture : Capture Value) : Prop :=
  ∀ operation ∈ capture.operations, ∀ completion ∈ operation.completion,
    isIncomplete completion = false

theorem hasOutstanding_iff :
    state.hasOutstanding = true ↔ ∃ index, OpenAt state index := by
  unfold State.hasOutstanding OpenAt
  rw [List.any_eq_true]
  constructor
  · rintro ⟨operation, hmem, hopen⟩
    obtain ⟨index, hindex⟩ := List.mem_iff_getElem?.mp hmem
    exact ⟨index, operation, hindex, Option.isNone_iff_eq_none.mp hopen⟩
  · rintro ⟨index, operation, hindex, hopen⟩
    exact ⟨operation, List.mem_of_getElem? hindex, Option.isNone_iff_eq_none.mpr hopen⟩

theorem mem_outstanding_iff {index : Nat} : index ∈ state.outstanding ↔ OpenAt state index := by
  unfold State.outstanding OpenAt
  rw [List.mem_filter, List.mem_range]
  constructor
  · rintro ⟨-, hopen⟩
    cases hoperation : state.operations[index]? with
    | none =>
      rw [hoperation] at hopen
      cases hopen
    | some operation =>
      rw [hoperation, Option.any_some] at hopen
      exact ⟨operation, rfl, Option.isNone_iff_eq_none.mp hopen⟩
  · rintro ⟨operation, hoperation, hnone⟩
    refine ⟨(List.getElem?_eq_some_iff.mp hoperation).1, ?_⟩
    rw [hoperation, Option.any_some, hnone]
    rfl

theorem build_ok (h : build state = .ok capture) :
    state.terminalError = none ∧
      collect PendingOperation.span state.operations = some capture.operations := by
  unfold build at h
  cases hterminal : state.terminalError with
  | some error =>
    rw [hterminal] at h
    cases h
  | none =>
    rw [hterminal] at h
    dsimp only at h
    split at h
    · cases h
    · split at h
      · cases h
      · rename_i operations hoperations
        obtain rfl := Except.ok.inj h
        exact ⟨rfl, hoperations⟩

/-- The capture names the run that was configured. -/
structure Identified (config : Config) (capture : Capture Value) : Prop where
  scenarioName : capture.scenarioName = config.scenarioName
  traceId : capture.traceId = config.traceId
  run : capture.run.spanId = config.runSpanId
  scenario : capture.scenario.spanId = config.scenarioSpanId

theorem build_identified (h : build state = .ok capture) : Identified state.config capture := by
  unfold build at h
  split at h
  · cases h
  · split at h
    · cases h
    · split at h
      · cases h
      · obtain rfl := Except.ok.inj h
        exact ⟨rfl, rfl, rfl, rfl⟩

theorem snapshot_eq_build (hclosed : state.hasOutstanding = false) :
    snapshot state = build state := by
  unfold snapshot
  rw [hclosed]
  rfl

/-- A snapshot without open operations has the operations of the session. -/
theorem snapshot_closed (hclosed : state.hasOutstanding = false) (h : snapshot state = .ok capture) :
    collect PendingOperation.span state.operations = some capture.operations := by
  rw [snapshot_eq_build hclosed] at h
  exact (build_ok h).2

/-- Some operation is recorded as incomplete. -/
def HasIncomplete (state : State Value) : Prop :=
  ∃ operation ∈ state.operations, ∃ completion ∈ operation.completion,
    isIncomplete completion = true

theorem HasIncomplete.modify (h : HasIncomplete state) (index endNs : _) (status : Status)
    {completion : Completion Value} (hcompletion : isIncomplete completion = true) :
    HasIncomplete (state.modify index (close (some completion) endNs status)) := by
  obtain ⟨operation, hmem, found, hfound, hincomplete⟩ := h
  obtain ⟨place, hplace⟩ := List.mem_iff_getElem?.mp hmem
  by_cases hsame : index = place
  · refine ⟨close (some completion) endNs status operation, ?_, completion, rfl, hcompletion⟩
    refine List.mem_of_getElem? (i := place) ?_
    subst hsame
    rw [State.modify, List.getElem?_modify_eq, hplace]
    rfl
  · refine ⟨operation, List.mem_of_getElem? (i := place) ?_, found, hfound, hincomplete⟩
    change (state.operations.modify index _)[place]? = _
    rw [List.getElem?_modify_ne _ _ hsame, hplace]

theorem hasIncomplete_modify {index : Nat} (hindex : index < state.operations.length) (endNs : Int)
    (status : Status) {completion : Completion Value} (hcompletion : isIncomplete completion = true) :
    HasIncomplete (state.modify index (close (some completion) endNs status)) := by
  refine ⟨close (some completion) endNs status state.operations[index], ?_, completion, rfl,
    hcompletion⟩
  refine List.mem_of_getElem? (i := index) ?_
  rw [State.modify, List.getElem?_modify_eq, List.getElem?_eq_getElem hindex]
  rfl

theorem tick_operations {timeNs : Int} {after : State Value} (h : state.tick = .ok (timeNs, after)) :
    after.operations = state.operations := by
  unfold State.tick at h
  split at h
  · obtain ⟨-, rfl⟩ := Prod.mk.inj (Except.ok.inj h)
    rfl
  · cases h

theorem order_operations {order : Nat} {after : State Value}
    (h : state.order = .ok (order, after)) : after.operations = state.operations := by
  obtain ⟨-, rfl⟩ := order_ok h
  rfl

theorem stamp_operations {stamped : Except CaptureError (Nat × Int)} {after : State Value}
    (h : state.stamp = (stamped, after)) : after.operations = state.operations := by
  unfold State.stamp at h
  cases horder : state.order with
  | error error =>
    rw [horder] at h
    rw [← (Prod.mk.inj h).2]
  | ok drawn =>
    rw [horder] at h
    dsimp only at h
    cases htick : drawn.2.tick with
    | error error =>
      rw [htick] at h
      rw [← (Prod.mk.inj h).2, order_operations horder]
    | ok next =>
      rw [htick] at h
      rw [← (Prod.mk.inj h).2, tick_operations htick, order_operations horder]

theorem release_operations (state : State Value) (index : Nat) :
    (state.release index).operations = state.operations := by
  rw [release_eq]

theorem HasIncomplete.congr {after : State Value} (h : HasIncomplete state)
    (hsame : after.operations = state.operations) : HasIncomplete after := by
  unfold HasIncomplete
  rwa [hsame]

theorem isIncomplete_incompleteCapture (name : String) (order : Nat) (timeNs : Int) :
    isIncomplete (incompleteCapture name order timeNs : Completion Value) = true := rfl

/-- Closing operations leaves one recorded as incomplete, if there was one or is one to
close. -/
theorem closeAll_incomplete {indices : List Nat} {closed : State Value}
    (h : closeAll state indices = .ok closed)
    (hstart : HasIncomplete state ∨ ∃ index ∈ indices, index < state.operations.length) :
    HasIncomplete closed := by
  induction indices generalizing state with
  | nil =>
    obtain rfl := Except.ok.inj h
    rcases hstart with hstart | ⟨index, hmem, -⟩
    · exact hstart
    · cases hmem
  | cons index rest ih =>
    unfold closeAll at h
    cases hstamp : state.stamp with
    | mk stamped middle =>
    rw [hstamp] at h
    cases stamped with
    | error error => cases h
    | ok drawn =>
    dsimp only at h
    cases htick : middle.tick with
    | error error =>
      rw [htick] at h
      cases h
    | ok ended =>
      rw [htick] at h
      have hoperations : ended.2.operations = state.operations := by
        rw [tick_operations htick, stamp_operations hstamp]
      have hlength : ∀ f, (ended.2.modify index f).operations.length = state.operations.length := by
        intro f
        rw [State.modify, List.length_modify, hoperations]
      apply ih h
      rcases hstart with hstart | ⟨other, hother, hbound⟩
      · left
        exact ((hstart.congr hoperations).modify index _ _
          (isIncomplete_incompleteCapture _ _ _)).congr (release_operations _ _)
      · rcases List.mem_cons.mp hother with rfl | hother
        · left
          refine (hasIncomplete_modify ?_ _ _ (isIncomplete_incompleteCapture _ _ _)).congr
            (release_operations _ _)
          rwa [hoperations]
        · right
          refine ⟨other, hother, ?_⟩
          rwa [release_operations, hlength]

theorem mem_of_collect {α β : Type} {f : α → Option β} {values : List α} {results : List β}
    (h : collect f values = some results) {value : α} (hvalue : value ∈ values) :
    ∃ result ∈ results, f value = some result := by
  have hmap := collect_eq_some_iff.mp h
  have hmem : f value ∈ results.map some := by
    rw [← hmap]
    exact List.mem_map_of_mem hvalue
  obtain ⟨result, hresult, heq⟩ := List.mem_map.mp hmem
  exact ⟨result, hresult, heq.symm⟩

/-- A snapshot with open operations is not finalized. -/
theorem snapshot_outstanding (hopen : state.hasOutstanding = true)
    (h : snapshot state = .ok capture) : ¬ Finalized capture := by
  intro hfinal
  unfold snapshot at h
  rw [hopen, if_pos rfl] at h
  cases hclosed : closeOutstanding state with
  | error error =>
    rw [hclosed] at h
    cases h
  | ok closed =>
    rw [hclosed] at h
    obtain ⟨index, hindex⟩ := hasOutstanding_iff.mp hopen
    obtain ⟨operation, hoperation, hstatus⟩ := hindex
    have hmem : index ∈ state.outstanding.reverse :=
      List.mem_reverse.mpr (mem_outstanding_iff.mpr ⟨operation, hoperation, hstatus⟩)
    obtain ⟨pending, hpending, completion, hcompletion, hincomplete⟩ :=
      closeAll_incomplete hclosed (.inr ⟨index, hmem, (List.getElem?_eq_some_iff.mp hoperation).1⟩)
    obtain ⟨span, hspan, heq⟩ := mem_of_collect (build_ok h).2 hpending
    have hsame : span.completion = pending.completion := by
      unfold PendingOperation.span at heq
      obtain ⟨endNs, -, heq⟩ := Option.bind_eq_some_iff.mp heq
      obtain ⟨status, -, rfl⟩ := Option.map_eq_some_iff.mp heq
      rfl
    have hnever := hfinal span hspan completion (hsame ▸ hcompletion)
    rw [hincomplete] at hnever
    cases hnever

end Snapshots

/-! ### What a session was started with -/

section Setup

/-- The configuration of a session and where its sidecar goes. -/
def setupOf (state : State Value) : Config × Option String := (state.config, state.sidecarPath)

variable (state : State Value)

theorem stamp_setup : setupOf state.stamp.2 = setupOf state := by
  unfold setupOf State.stamp State.order State.tick
  grind

theorem stampStart_setup : setupOf state.stampStart.2 = setupOf state := by
  unfold setupOf State.stampStart State.order State.tick
  grind

theorem beginActive_setup (componentId operationName : String)
    (folded : Except CaptureError (List (String × Value) × List String)) :
    setupOf (beginActive state componentId operationName folded).2 = setupOf state := by
  have hstart := stampStart_setup state
  unfold setupOf at *
  unfold beginActive State.push
  grind

theorem recordInput_setup (index : Nat) (name : String)
    (folded : Except CaptureError (List (String × Value))) :
    setupOf (recordInput state index name folded).2 = setupOf state := by
  unfold setupOf recordInput State.modify
  grind

theorem recordObservation_setup (name : String) (value : Value) :
    setupOf (recordObservation state name value).2 = setupOf state := by
  have hstamp := stamp_setup state
  unfold setupOf at *
  unfold recordObservation State.modify
  grind

theorem inputsRecorded_setup (written : Except String Unit) :
    setupOf (inputsRecorded state written).2 = setupOf state := by
  unfold setupOf inputsRecorded persistCollector State.fail
  grind

theorem release_setup (index : Nat) :
    setupOf (state.release index) = setupOf state := by
  rw [release_eq]
  rfl

theorem recordTerminal_setup (index : Nat) (terminal : NativeTerminal Value) :
    setupOf (recordTerminal state index terminal).2 = setupOf state := by
  have hstamp := stamp_setup state
  unfold recordTerminal stampCompletion State.tick
  grind [release_setup, State.modify, setupOf]

theorem recordDrop_setup (index : Nat) (completion : Nat → Int → Completion Value)
    (status : Status) :
    setupOf (recordDrop state index completion status) = setupOf state := by
  have hstamp := stamp_setup state
  unfold recordDrop State.tick
  grind [State.modify, State.fail, setupOf]

theorem dropScope_setup (index : Nat) (abandonable panicking : Bool) :
    setupOf (dropScope state index abandonable panicking) = setupOf state := by
  unfold dropScope
  grind [recordDrop_setup, release_setup, State.fail, setupOf]

theorem complete_setup (index : Nat) (abandonable panicking : Bool)
    (terminal : NativeTerminal Value) (written : Except String Unit) :
    setupOf (complete state index abandonable panicking terminal written).2 = setupOf state := by
  have hterminal := recordTerminal_setup state index terminal
  unfold complete
  grind [dropScope_setup, inputsRecorded_setup]

end Setup

/-! ### What a step keeps -/

section Steps

variable {recording next : Recording Value} {config : Config} {path : String}

theorem isSome_of_setup {state : State Value} (h : setupOf state = (config, some path)) :
    state.sidecarPath.isSome = true := by
  rw [(Prod.mk.inj h).2]
  rfl

/-- A sidecar without an incomplete operation has all that the session has. -/
structure Faithful (config : Config) (path : String) (recording : Recording Value) : Prop where
  setup : setupOf recording.state = (config, some path)
  final : recording.reported = false → ∀ capture, recording.sidecar = some capture →
    Finalized capture → recording.state.hasOutstanding = false ∧
      collect PendingOperation.span recording.state.operations = some capture.operations

/-- As long as an operation is open, the sidecar has an incomplete one. -/
theorem Faithful.not_finalized (h : Faithful config path recording)
    (hopen : recording.state.hasOutstanding = true) (hreported : recording.reported = false)
    {capture : Capture Value} (hsidecar : recording.sidecar = some capture) :
    ¬ Finalized capture := by
  intro hfinal
  have hclosed := (h.final hreported capture hsidecar hfinal).1
  rw [hopen] at hclosed
  cases hclosed

theorem faithful_report (hsetup : setupOf recording.state = (config, some path))
    (error : CaptureError) : Faithful config path (recording.report error) where
  setup := hsetup
  final := fun hreported => by cases hreported

theorem faithful_persisted (hsetup : setupOf recording.state = (config, some path))
    {capture : Capture Value} (hsnapshot : snapshot recording.state = .ok capture) :
    Faithful config path recording.persisted := by
  unfold Recording.persisted
  rw [if_pos (isSome_of_setup hsetup), hsnapshot]
  refine ⟨hsetup, fun _ found hfound hfinal => ?_⟩
  obtain rfl := Option.some.inj hfound
  cases hopen : recording.state.hasOutstanding with
  | true => exact absurd hfinal (snapshot_outstanding hopen hsnapshot)
  | false => exact ⟨hopen, snapshot_closed hopen hsnapshot⟩

theorem settleCall_cases {result : Except Failure Unit} {proceed : Recording Value → Recording Value}
    (h : recording.settleCall result proceed = some next) :
    (∃ error, next = recording.report error) ∨ result = .ok () ∧ next = proceed recording := by
  rcases result with ⟨error | message⟩ | ⟨⟩
  · exact .inl ⟨error, (Option.some.inj h).symm⟩
  · cases h
  · exact .inr ⟨rfl, (Option.some.inj h).symm⟩

theorem inputsRecorded_ok {state after : State Value} {written : Except String Unit}
    (hsetup : setupOf state = (config, some path))
    (h : inputsRecorded state written = (.ok (), after)) :
    after = state ∧ ∃ capture, snapshot state = .ok capture := by
  unfold inputsRecorded persistCollector at h
  rw [if_pos (isSome_of_setup hsetup)] at h
  unfold snapshot
  generalize (if state.hasOutstanding = true then closeOutstanding state else .ok state) = closed
    at h ⊢
  cases closed with
  | error error => cases h
  | ok provisional =>
    dsimp only at h ⊢
    cases hcapture : build provisional with
    | error failure =>
      rw [hcapture] at h
      cases h
    | ok capture =>
      rw [hcapture] at h
      cases written with
      | error message => cases h
      | ok _ => exact ⟨(Prod.mk.inj h).2.symm, capture, rfl⟩

/-- An operation that has been completed has been closed, and a snapshot was written. -/
theorem complete_ok {state after : State Value} {index : Nat} {abandonable panicking : Bool}
    {terminal : NativeTerminal Value} {written : Except String Unit}
    (hsetup : setupOf state = (config, some path))
    (h : complete state index abandonable panicking terminal written = (.ok (), after)) :
    recordTerminal state index terminal = (.ok (), after) ∧
      ∃ capture, snapshot after = .ok capture := by
  unfold complete at h
  split at h
  · cases h
  · split_ifs at h
    · cases h
    · cases hterminal : recordTerminal state index terminal with
      | mk recorded middle =>
        rw [hterminal] at h
        cases recorded with
        | error error => cases h
        | ok _ =>
          dsimp only at h
          have hmiddle : setupOf middle = (config, some path) := by
            have hsame := recordTerminal_setup state index terminal
            rw [hterminal] at hsame
            rwa [hsame]
          obtain ⟨rfl, hsnapshot⟩ := inputsRecorded_ok hmiddle h
          exact ⟨rfl, hsnapshot⟩

theorem openAt_of_operations {before after : State Value}
    (h : after.operations = before.operations) {index : Nat} (hopen : OpenAt before index) :
    OpenAt after index := by
  unfold OpenAt
  rwa [h]

/-- Recording inputs leaves the sidecar, and the operations but for their inputs. -/
structure Inputs (before after : Recording Value) : Prop where
  setup : setupOf after.state = setupOf before.state
  sidecar : after.sidecar = before.sidecar
  scopes : after.session.scopes = before.session.scopes
  reported : after.reported = false → before.reported = false
  operations : after.state.operations.map core = before.state.operations.map core

theorem Inputs.trans {first second third : Recording Value} (h : Inputs first second)
    (h' : Inputs second third) : Inputs first third where
  setup := h'.setup.trans h.setup
  sidecar := h'.sidecar.trans h.sidecar
  scopes := h'.scopes.trans h.scopes
  reported := fun hreported => h.reported (h'.reported hreported)
  operations := h'.operations.trans h.operations

theorem recordInputs_inputs {index : Nat}
    {inputs : List (String × Except CaptureError (List (String × Value)))}
    (h : recordInputs recording index inputs = some next) : Inputs recording next := by
  induction inputs generalizing recording with
  | nil =>
    obtain rfl := Option.some.inj h
    exact ⟨rfl, rfl, rfl, id, rfl⟩
  | cons input rest ih =>
    obtain ⟨name, folded⟩ := input
    unfold recordInputs at h
    cases hinput : recordInput recording.state index name folded with
    | mk result state =>
    rw [hinput] at h
    obtain ⟨middle, hmiddle, hrest⟩ := Option.bind_eq_some_iff.mp h
    have hsetup : setupOf state = setupOf recording.state := by
      have hsame := recordInput_setup recording.state index name folded
      rwa [hinput] at hsame
    have hoperations := (recordInput_quiet hinput).operations
    refine Inputs.trans ?_ (ih hrest)
    rcases settleCall_cases hmiddle with ⟨error, rfl⟩ | ⟨rfl, rfl⟩
    · exact ⟨hsetup, rfl, rfl, (fun hreported => by cases hreported), hoperations⟩
    · exact ⟨hsetup, rfl, rfl, id, hoperations⟩

/-- What an observation does: nothing, or it adds to the current operation. -/
theorem recordObservation_ok {state after : State Value} {name : String} {value : Value}
    (h : recordObservation state name value = (.ok (), after)) :
    after = state ∨ ∃ index, state.currentOperation = some index := by
  unfold recordObservation at h
  cases hcurrent : state.currentOperation with
  | none =>
    rw [hcurrent] at h
    exact .inl (Prod.mk.inj h).2.symm
  | some index => exact .inr ⟨index, rfl⟩

/-- Entering an operation fails, or ends with a snapshot in which it is open. -/
theorem enter_cases {componentId operationName : String} {abandonable : Bool}
    {folded : Except CaptureError (List (String × Value) × List String)}
    {inputs : List (String × Except CaptureError (List (String × Value)))}
    {written : Except String Unit} (hsetup : setupOf recording.state = (config, some path))
    (h : enter recording componentId operationName abandonable folded inputs written =
      some next) :
    (∃ before : Recording Value, ∃ error, setupOf before.state = (config, some path) ∧
        next = before.report error) ∨
      ∃ (index : Nat) (state : State Value) (before : Recording Value) (capture : Capture Value),
        beginActive recording.state componentId operationName folded = (.ok index, state) ∧
        Inputs { recording with
          session := ⟨state, ⟨index, abandonable⟩ :: recording.session.scopes⟩ } before ∧
        setupOf before.state = (config, some path) ∧ snapshot before.state = .ok capture ∧
        next = before.persisted := by
  unfold enter at h
  cases hbegin : beginActive recording.state componentId operationName folded with
  | mk begun state =>
  have hstate : setupOf state = (config, some path) := by
    have hsame := beginActive_setup recording.state componentId operationName folded
    rw [hbegin] at hsame
    rwa [hsame]
  rw [hbegin] at h
  cases begun with
  | error error =>
    obtain rfl := Option.some.inj h
    exact .inl ⟨recording.withState state, error, hstate, rfl⟩
  | ok index =>
    obtain ⟨entered, hentered, h⟩ := Option.bind_eq_some_iff.mp h
    have hinputs := recordInputs_inputs hentered
    have henteredPath : setupOf entered.state = (config, some path) := by
      rw [hinputs.setup]
      exact hstate
    cases hrecorded : inputsRecorded entered.state written with
    | mk result after =>
    rw [hrecorded] at h
    have hafter : setupOf after = (config, some path) := by
      have hsame := inputsRecorded_setup entered.state written
      rw [hrecorded] at hsame
      rwa [hsame]
    rcases settleCall_cases h with ⟨error, rfl⟩ | ⟨rfl, rfl⟩
    · exact .inl ⟨entered.withState after, error, hafter, rfl⟩
    · obtain ⟨rfl, capture, hsnapshot⟩ := inputsRecorded_ok henteredPath hrecorded
      exact .inr ⟨index, state, entered, capture, rfl, hinputs, hafter, hsnapshot, rfl⟩

/-- Completing an operation fails, or closes it and ends with a snapshot. -/
theorem completeScope_cases {position : Nat} {terminal : NativeTerminal Value} {panicking : Bool}
    {written : Except String Unit} {scope : Scope}
    (hsetup : setupOf recording.state = (config, some path))
    (h : completeScope recording position terminal panicking written scope = some next) :
    (∃ before : Recording Value, ∃ error, setupOf before.state = (config, some path) ∧
        next = before.report error) ∨
      ∃ (after : State Value) (capture : Capture Value),
        recordTerminal recording.state scope.index terminal = (.ok (), after) ∧
        setupOf after = (config, some path) ∧ snapshot after = .ok capture ∧
        next = (endScope recording position after).persisted := by
  unfold completeScope at h
  cases hcomplete : complete recording.state scope.index scope.abandonable panicking terminal
    written with
  | mk result after =>
  have hafter : setupOf after = (config, some path) := by
    have hsame := complete_setup recording.state scope.index scope.abandonable panicking
      terminal written
    rw [hcomplete] at hsame
    rwa [hsame]
  rw [hcomplete] at h
  rcases settleCall_cases h with ⟨error, rfl⟩ | ⟨rfl, rfl⟩
  · exact .inl ⟨endScope recording position after, error, hafter, rfl⟩
  · obtain ⟨hterminal, capture, hsnapshot⟩ := complete_ok hsetup hcomplete
    exact .inr ⟨after, capture, hterminal, hafter, hsnapshot, rfl⟩

/-- An observation fails, does nothing, or adds to the current operation. -/
theorem observe_cases {name : String} {value : Value}
    (hsetup : setupOf recording.state = (config, some path))
    (h : observe recording name value = next) :
    (∃ before : Recording Value, ∃ error, setupOf before.state = (config, some path) ∧
        next = before.report error) ∨ next = recording ∨
      ∃ index after, recording.state.currentOperation = some index ∧
        recordObservation recording.state name value = (.ok (), after) ∧
        setupOf after = (config, some path) ∧ next = recording.withState after := by
  unfold observe at h
  cases hobserved : recordObservation recording.state name value with
  | mk result after =>
  have hafter : setupOf after = (config, some path) := by
    have hsame := recordObservation_setup recording.state name value
    rw [hobserved] at hsame
    rwa [hsame]
  rw [hobserved] at h
  cases result with
  | error error => exact .inl ⟨recording.withState after, error, hafter, h.symm⟩
  | ok _ =>
    rcases recordObservation_ok hobserved with rfl | ⟨index, hcurrent⟩
    · exact .inr (.inl h.symm)
    · exact .inr (.inr ⟨index, after, hcurrent, rfl, hafter, h.symm⟩)

theorem Faithful.step (h : Faithful config path recording) {call : Call Value}
    (hwithin : ∀ name value, call = .observe name value → ∀ index,
      recording.state.currentOperation = some index → OpenAt recording.state index)
    (hstep : step recording call = some next) : Faithful config path next := by
  cases call with
  | enter componentId operationName abandonable folded inputs written =>
    rcases enter_cases h.setup hstep with
      ⟨before, error, hbefore, rfl⟩ | ⟨_, _, before, capture, -, -, hbefore, hsnapshot, rfl⟩
    · exact faithful_report hbefore error
    · exact faithful_persisted hbefore hsnapshot
  | observe name value =>
    rcases observe_cases h.setup (Option.some.inj hstep) with
      ⟨before, error, hbefore, rfl⟩ | rfl | ⟨index, after, hcurrent, -, hafter, rfl⟩
    · exact faithful_report hbefore error
    · exact h
    · have hopen : recording.state.hasOutstanding = true :=
        hasOutstanding_iff.mpr ⟨index, hwithin name value rfl index hcurrent⟩
      exact ⟨hafter, fun hreported capture hsidecar hfinal =>
        absurd hfinal (h.not_finalized hopen hreported hsidecar)⟩
  | complete position terminal panicking written =>
    obtain ⟨scope, -, hstep⟩ := Option.bind_eq_some_iff.mp hstep
    rcases completeScope_cases h.setup hstep with
      ⟨before, error, hbefore, rfl⟩ | ⟨after, capture, -, hafter, hsnapshot, rfl⟩
    · exact faithful_report hbefore error
    · exact faithful_persisted hafter hsnapshot
  | drop position panicking =>
    obtain ⟨scope, -, rfl⟩ := Option.map_eq_some_iff.mp hstep
    have hsetup : setupOf (dropScope recording.state scope.index scope.abandonable panicking) =
        (config, some path) := by
      rw [dropScope_setup]
      exact h.setup
    rcases open_or_closed recording.state scope.index with hopen | hclosed
    · have hopen : recording.state.hasOutstanding = true := hasOutstanding_iff.mpr ⟨_, hopen⟩
      exact ⟨hsetup, fun hreported capture hsidecar hfinal =>
        absurd hfinal (h.not_finalized hopen hreported hsidecar)⟩
    · have hsame := dropScope_closed hclosed scope.abandonable panicking
      refine ⟨hsetup, fun hreported capture hsidecar hfinal => ?_⟩
      change (dropScope _ _ _ _).hasOutstanding = false ∧
        collect _ (dropScope _ _ _ _).operations = _
      rw [hsame]
      exact h.final hreported capture hsidecar hfinal
  | resume operation =>
    obtain rfl := Option.some.inj hstep
    exact ⟨h.setup, h.final⟩

/-- A fault that the running session records is an unexpected one. -/
def Known (completion : Completion Value) : Prop :=
  ∀ order timeNs faultType message observer,
    completion = .fault order timeNs faultType message observer → faultType = unexpectedFault

def AllKnown (state : State Value) : Prop :=
  ∀ operation ∈ state.operations, ∀ completion ∈ operation.completion, Known completion

/-- Once every operation has been completed, the sidecar has all of them. -/
structure Settling (config : Config) (path : String) (recording : Recording Value) : Prop where
  setup : setupOf recording.state = (config, some path)
  known : recording.reported = false → AllKnown recording.state
  complete : recording.reported = false → recording.state.hasOutstanding = false →
    recording.state.operations ≠ [] → ∃ capture, recording.sidecar = some capture ∧
      Identified config capture ∧
        collect PendingOperation.span recording.state.operations = some capture.operations

theorem settling_report (hsetup : setupOf recording.state = (config, some path))
    (error : CaptureError) : Settling config path (recording.report error) where
  setup := hsetup
  known := fun hreported => by cases hreported
  complete := fun hreported => by cases hreported

theorem settling_persisted (hsetup : setupOf recording.state = (config, some path))
    {capture : Capture Value} (hsnapshot : snapshot recording.state = .ok capture)
    (hknown : recording.reported = false → AllKnown recording.state) :
    Settling config path recording.persisted := by
  unfold Recording.persisted
  rw [if_pos (isSome_of_setup hsetup), hsnapshot]
  refine ⟨hsetup, hknown, fun _ hclosed _ =>
    ⟨capture, rfl, ?_, snapshot_closed hclosed hsnapshot⟩⟩
  have hbuild : snapshot recording.state = build recording.state := snapshot_eq_build hclosed
  rw [hbuild] at hsnapshot
  rw [← (Prod.mk.inj hsetup).1]
  exact build_identified hsnapshot

theorem known_terminal (terminal : NativeTerminal Value) :
    ∀ event ∈ terminal.completion, ∀ order timeNs, Known (event order timeNs) := by
  intro event hevent order timeNs _ _ faultType _ _ heq
  cases terminal with
  | unit => cases hevent
  | result _ | empty | error _ _ =>
    obtain rfl := Option.some.inj hevent
    cases heq
  | fault =>
    obtain rfl := Option.some.inj hevent
    cases heq
    rfl

theorem stampCompletion_known {state after : State Value}
    {completion : Option (Nat → Int → Completion Value)} {stamped : Option (Completion Value)}
    (hknown : ∀ event ∈ completion, ∀ order timeNs, Known (event order timeNs))
    (h : stampCompletion state completion = (.ok stamped, after)) :
    after.operations = state.operations ∧ ∀ event ∈ stamped, Known event := by
  cases completion with
  | none =>
    obtain ⟨hstamped, rfl⟩ := Prod.mk.inj h
    obtain rfl := Except.ok.inj hstamped
    exact ⟨rfl, fun event hevent => by cases hevent⟩
  | some completion =>
    unfold stampCompletion at h
    cases hstamp : state.stamp with
    | mk drawn middle =>
    rw [hstamp] at h
    cases drawn with
    | error error => cases h
    | ok drawn =>
      obtain ⟨hstamped, rfl⟩ := Prod.mk.inj h
      obtain rfl := Except.ok.inj hstamped
      refine ⟨stamp_operations hstamp, fun event hevent => ?_⟩
      obtain rfl := Option.some.inj hevent
      exact hknown completion rfl _ _

theorem recordTerminal_known {state after : State Value} {index : Nat}
    {terminal : NativeTerminal Value} (h : recordTerminal state index terminal = (.ok (), after)) :
    ∃ completion endNs, (∀ event ∈ completion, Known event) ∧
      after.operations = state.operations.modify index (close completion endNs terminal.status) := by
  unfold recordTerminal at h
  cases hstamp : stampCompletion state terminal.completion with
  | mk stamped middle =>
  rw [hstamp] at h
  cases stamped with
  | error error => cases h
  | ok completion =>
    obtain ⟨hoperations, hknown⟩ := stampCompletion_known (known_terminal terminal) hstamp
    dsimp only at h
    cases htick : middle.tick with
    | error error =>
      rw [htick] at h
      cases h
    | ok drawn =>
      rw [htick] at h
      obtain ⟨-, rfl⟩ := Prod.mk.inj h
      refine ⟨completion, drawn.1, hknown, ?_⟩
      rw [release_operations, ← hoperations, ← tick_operations htick]
      rfl

theorem mem_modify {α : Type} {f : α → α} {values : List α} {index : Nat} {value : α}
    (h : value ∈ values.modify index f) : value ∈ values ∨ ∃ old ∈ values, value = f old := by
  obtain ⟨place, hplace⟩ := List.mem_iff_getElem?.mp h
  by_cases hsame : index = place
  · subst hsame
    rw [List.getElem?_modify_eq] at hplace
    obtain ⟨old, hold, rfl⟩ := Option.map_eq_some_iff.mp hplace
    exact .inr ⟨old, List.mem_of_getElem? hold, rfl⟩
  · rw [List.getElem?_modify_ne _ _ hsame] at hplace
    exact .inl (List.mem_of_getElem? hplace)

theorem AllKnown.close {state after : State Value} (h : AllKnown state) {index : Nat}
    {completion : Option (Completion Value)} {endNs : Int} {status : Status}
    (hknown : ∀ event ∈ completion, Known event)
    (hoperations : after.operations = state.operations.modify index (close completion endNs status)) :
    AllKnown after := by
  intro operation hoperation event hevent
  rw [hoperations] at hoperation
  rcases mem_modify hoperation with hold | ⟨old, -, rfl⟩
  · exact h operation hold event hevent
  · exact hknown event hevent

theorem AllKnown.of_core {state after : State Value} (h : AllKnown state)
    (hcore : after.operations.map core = state.operations.map core) : AllKnown after := by
  intro operation hoperation event hevent
  have hmem : core operation ∈ state.operations.map core := by
    rw [← hcore]
    exact List.mem_map_of_mem hoperation
  obtain ⟨old, hold, heq⟩ := List.mem_map.mp hmem
  have hcompletion : (core old).completion = (core operation).completion :=
    congrArg PendingOperation.completion heq
  exact h old hold event (hcompletion ▸ hevent)

theorem beginActive_ok {state after : State Value} {componentId operationName : String}
    {folded : Except CaptureError (List (String × Value) × List String)} {index : Nat}
    (h : beginActive state componentId operationName folded = (.ok index, after)) :
    ∃ operation, after.operations = state.operations ++ [operation] ∧ operation.status = none ∧
      operation.completion = none := by
  have hstart : state.stampStart.2.operations = state.operations := by
    unfold State.stampStart State.order State.tick
    grind
  unfold beginActive State.push at h
  grind

theorem recordObservation_operations {state after : State Value} {name : String} {value : Value}
    (h : recordObservation state name value = (.ok (), after)) :
    after.operations = state.operations ∨ ∃ index observation, after.operations =
      state.operations.modify index fun operation =>
        { operation with observations := operation.observations ++ [observation] } := by
  unfold recordObservation at h
  split at h
  · exact .inl (by rw [← (Prod.mk.inj h).2])
  · split_ifs at h
    · exact .inl (by rw [← (Prod.mk.inj h).2])
    · rename_i index _ _
      cases hstamp : state.stamp with
      | mk stamped middle =>
      rw [hstamp] at h
      cases stamped with
      | error error => cases h
      | ok drawn =>
        obtain ⟨-, rfl⟩ := Prod.mk.inj h
        refine .inr ⟨index, ⟨drawn.1, drawn.2, name, value⟩, ?_⟩
        rw [State.modify, stamp_operations hstamp]

theorem AllKnown.observed {state after : State Value} (h : AllKnown state) {name : String}
    {value : Value} (hobserved : recordObservation state name value = (.ok (), after)) :
    AllKnown after := by
  intro operation hoperation event hevent
  rcases recordObservation_operations hobserved with hsame | ⟨index, observation, hmodified⟩
  · rw [hsame] at hoperation
    exact h operation hoperation event hevent
  · rw [hmodified] at hoperation
    rcases mem_modify hoperation with hold | ⟨old, hold, rfl⟩
    · exact h operation hold event hevent
    · exact h old hold event hevent

/-- An observation leaves open what is open. -/
theorem openAt_observed {state after : State Value} {name : String} {value : Value}
    (hobserved : recordObservation state name value = (.ok (), after)) {index : Nat}
    (hopen : OpenAt state index) : OpenAt after index := by
  rcases recordObservation_operations hobserved with hsame | ⟨place, observation, hmodified⟩
  · exact openAt_of_operations hsame hopen
  · obtain ⟨operation, hoperation, hstatus⟩ := hopen
    by_cases hsame : place = index
    · subst hsame
      refine ⟨{ operation with observations := operation.observations ++ [observation] }, ?_,
        hstatus⟩
      rw [hmodified, List.getElem?_modify_eq, hoperation]
      rfl
    · refine ⟨operation, ?_, hstatus⟩
      rw [hmodified, List.getElem?_modify_ne _ _ hsame, hoperation]

theorem Settling.step (h : Settling config path recording) {call : Call Value} (hdrop : call.isDrop = false)
    (hwithin : ∀ name value, call = .observe name value → ∀ index,
      recording.state.currentOperation = some index → OpenAt recording.state index)
    (hstep : step recording call = some next) : Settling config path next := by
  cases call with
  | enter componentId operationName abandonable folded inputs written =>
    rcases enter_cases h.setup hstep with
      ⟨before, error, hbefore, rfl⟩ |
        ⟨index, state, before, capture, hbegin, hinputs, hbefore, hsnapshot, rfl⟩
    · exact settling_report hbefore error
    · refine settling_persisted hbefore hsnapshot fun hreported => ?_
      have hknown := h.known (hinputs.reported hreported)
      obtain ⟨operation, hoperations, -, hcompletion⟩ := beginActive_ok hbegin
      refine @AllKnown.of_core _ state _ ?_ hinputs.operations
      intro other hother event hevent
      rw [hoperations] at hother
      rcases List.mem_append.mp hother with hold | hnew
      · exact hknown other hold event hevent
      · obtain rfl := List.mem_singleton.mp hnew
        rw [hcompletion] at hevent
        cases hevent
  | observe name value =>
    rcases observe_cases h.setup (Option.some.inj hstep) with
      ⟨before, error, hbefore, rfl⟩ | rfl | ⟨index, after, hcurrent, hobserved, hafter, rfl⟩
    · exact settling_report hbefore error
    · exact h
    · refine ⟨hafter, fun hreported => (h.known hreported).observed hobserved,
        fun _ hclosed _ => ?_⟩
      have hopen : after.hasOutstanding = true := hasOutstanding_iff.mpr
        ⟨index, openAt_observed hobserved (hwithin name value rfl index hcurrent)⟩
      change after.hasOutstanding = false at hclosed
      rw [hopen] at hclosed
      cases hclosed
  | complete position terminal panicking written =>
    obtain ⟨scope, -, hstep⟩ := Option.bind_eq_some_iff.mp hstep
    rcases completeScope_cases h.setup hstep with
      ⟨before, error, hbefore, rfl⟩ | ⟨after, capture, hterminal, hafter, hsnapshot, rfl⟩
    · exact settling_report hbefore error
    · obtain ⟨completion, endNs, hknown, hoperations⟩ := recordTerminal_known hterminal
      exact settling_persisted hafter hsnapshot fun hreported =>
        (h.known hreported).close hknown hoperations
  | drop position panicking => cases hdrop
  | resume operation =>
    obtain rfl := Option.some.inj hstep
    exact ⟨h.setup, h.known, h.complete⟩

end Steps

/-! ### Nested runs -/

section Nested

variable {recording next : Recording Value}

/-- The call leaves the operation that was entered last, if it leaves one. -/
def Call.nested : Call Value → Bool
  | .complete position _ _ _ | .drop position _ => position == 0
  | .resume _ => false
  | .enter _ _ _ _ _ _ | .observe _ _ => true

/-- The operations of the held scopes are open, each below the next. -/
def Stack (state : State Value) : List Scope → Prop
  | [] => True
  | scope :: rest => (∃ operation, state.operations[scope.index]? = some operation ∧
      operation.status = none ∧ operation.parentOperation = rest.head?.map Scope.index) ∧
      (∀ other ∈ rest, other.index < scope.index) ∧ Stack state rest

/-- The operation entered last is the current one. -/
structure Stacked (recording : Recording Value) : Prop where
  step : 0 < recording.state.config.stepNs
  current : recording.state.currentOperation = recording.session.scopes.head?.map Scope.index
  stack : Stack recording.state recording.session.scopes

/-- The stack does not depend on inputs and observations, nor on operations above it. -/
theorem Stack.congr {before after : State Value} {scopes : List Scope} (h : Stack before scopes)
    (hsame : ∀ scope ∈ scopes, ∀ operation, before.operations[scope.index]? = some operation →
      ∃ operation', after.operations[scope.index]? = some operation' ∧
        operation'.status = operation.status ∧
        operation'.parentOperation = operation.parentOperation) : Stack after scopes := by
  induction scopes with
  | nil => trivial
  | cons scope rest ih =>
    obtain ⟨⟨operation, hoperation, hstatus, hparent⟩, hbelow, hrest⟩ := h
    obtain ⟨operation', hoperation', hstatus', hparent'⟩ :=
      hsame scope List.mem_cons_self operation hoperation
    exact ⟨⟨operation', hoperation', hstatus'.trans hstatus, hparent'.trans hparent⟩, hbelow,
      ih hrest fun other hother => hsame other (List.mem_cons_of_mem _ hother)⟩

theorem Stack.of_core {before after : State Value} {scopes : List Scope} (h : Stack before scopes)
    (hcore : after.operations.map core = before.operations.map core) : Stack after scopes := by
  refine h.congr fun scope _ operation hoperation => ?_
  obtain ⟨operation', hoperation', heq⟩ := core_at hcore.symm hoperation
  exact ⟨operation', hoperation', (congrArg PendingOperation.status heq).symm,
    (congrArg PendingOperation.parentOperation heq).symm⟩

theorem Stack.lt_length {state : State Value} {scopes : List Scope} (h : Stack state scopes)
    {scope : Scope} (hscope : scope ∈ scopes) : scope.index < state.operations.length := by
  induction scopes with
  | nil => cases hscope
  | cons first rest ih =>
    obtain ⟨⟨operation, hoperation, -, -⟩, -, hrest⟩ := h
    rcases List.mem_cons.mp hscope with rfl | hmem
    · exact (List.getElem?_eq_some_iff.mp hoperation).1
    · exact ih hrest hmem

/-- Changing an operation above the stack leaves the stack. -/
theorem Stack.modify {before after : State Value} {scopes : List Scope} (h : Stack before scopes)
    {index : Nat} {f : PendingOperation Value → PendingOperation Value}
    (hoperations : after.operations = before.operations.modify index f)
    (habove : ∀ scope ∈ scopes, scope.index ≠ index) : Stack after scopes := by
  refine h.congr fun scope hscope operation hoperation => ⟨operation, ?_, rfl, rfl⟩
  rw [hoperations, List.getElem?_modify_ne _ _ fun heq => habove scope hscope heq.symm, hoperation]

theorem Stacked.quiet (h : Stacked recording) (hquiet : Quiet recording.state next.state)
    (hscopes : next.session.scopes = recording.session.scopes) : Stacked next where
  step := by
    rw [hquiet.forward.config]
    exact h.step
  current := by
    rw [hquiet.current, hscopes]
    exact h.current
  stack := by
    rw [hscopes]
    exact h.stack.of_core hquiet.operations

theorem Stacked.report (h : Stacked recording) (error : CaptureError) :
    Stacked (recording.report error) :=
  h.quiet ⟨forward_fail _ _, rfl, rfl, rfl⟩ rfl

theorem Stacked.settleCall {result : Except Failure Unit} (h : Stacked recording)
    (hnext : recording.settleCall result Recording.persisted = some next) : Stacked next := by
  rcases settleCall_cases hnext with ⟨error, rfl⟩ | ⟨-, rfl⟩
  · exact h.report error
  · unfold Recording.persisted
    split_ifs
    · exact ⟨h.step, h.current, h.stack⟩
    · exact h

theorem Stacked.recordInputs {index : Nat}
    {inputs : List (String × Except CaptureError (List (String × Value)))}
    (h : Stacked recording) (hnext : recordInputs recording index inputs = some next) :
    Stacked next := by
  induction inputs generalizing recording with
  | nil =>
    obtain rfl := Option.some.inj hnext
    exact h
  | cons input rest ih =>
    obtain ⟨name, folded⟩ := input
    unfold SidecarRuns.recordInputs at hnext
    cases hinput : recordInput recording.state index name folded with
    | mk result state =>
    rw [hinput] at hnext
    obtain ⟨middle, hmiddle, hrest⟩ := Option.bind_eq_some_iff.mp hnext
    have hrecorded : Stacked (recording.withState state) :=
      h.quiet (recordInput_quiet hinput) rfl
    refine ih ?_ hrest
    rcases settleCall_cases hmiddle with ⟨error, rfl⟩ | ⟨-, rfl⟩
    · exact hrecorded.report error
    · exact hrecorded

theorem Stacked.begun (h : Stacked recording) {state : State Value}
    {operation : PendingOperation Value} (hbegun : Begun recording.state state operation)
    (abandonable : Bool) : Stacked { recording with
      session := ⟨state, ⟨recording.state.operations.length, abandonable⟩ ::
        recording.session.scopes⟩ } where
  step := by
    change 0 < state.config.stepNs
    rw [hbegun.forward.config]
    exact h.step
  current := hbegun.current
  stack := by
    refine ⟨⟨operation, ?_, hbegun.status, ?_⟩, fun other hother => h.stack.lt_length hother, ?_⟩
    · change state.operations[recording.state.operations.length]? = _
      rw [hbegun.operations, List.getElem?_concat_length]
    · rw [hbegun.parent]
      exact h.current
    · refine h.stack.congr fun scope hscope found hfound => ⟨found, ?_, rfl, rfl⟩
      change state.operations[scope.index]? = _
      rw [hbegun.operations, List.getElem?_append_left (h.stack.lt_length hscope), hfound]

/-- Closing or losing the operation entered last gives its place back to the one below. -/
theorem Stacked.ended (h : Stacked recording) {scope : Scope} {rest : List Scope}
    (hscopes : recording.session.scopes = scope :: rest) {after : State Value}
    (hconfig : after.config = recording.state.config)
    (hcurrent : after.currentOperation = released recording.state scope.index)
    (hoperations : after.operations = recording.state.operations ∨ ∃ f,
      after.operations = recording.state.operations.modify scope.index f) :
    Stacked (endScope recording 0 after) := by
  have hstack := h.stack
  rw [hscopes] at hstack
  have hbefore : recording.state.currentOperation = some scope.index := by
    rw [h.current, hscopes]
    rfl
  obtain ⟨⟨operation, hoperation, -, hparent⟩, hbelow, hrest⟩ := hstack
  have hlater : (endScope recording 0 after).session.scopes = rest := by
    change recording.session.scopes.eraseIdx 0 = rest
    rw [hscopes]
    rfl
  refine ⟨?_, ?_, ?_⟩
  · change 0 < after.config.stepNs
    rw [hconfig]
    exact h.step
  · rw [hlater]
    change after.currentOperation = _
    rw [hcurrent, released, if_pos hbefore, hoperation]
    exact hparent
  · rw [hlater]
    change Stack after rest
    rcases hoperations with hsame | ⟨f, hmodified⟩
    · refine hrest.congr fun other _ found hfound => ⟨found, ?_, rfl, rfl⟩
      rw [hsame, hfound]
    · exact hrest.modify hmodified fun other hother heq =>
        absurd (hbelow other hother) (by omega)

/-- The scope that was opened last belongs to an open operation. -/
theorem Stacked.head (h : Stacked recording) {scope : Scope}
    (hscope : recording.session.scopes[0]? = some scope) :
    ∃ rest operation, recording.session.scopes = scope :: rest ∧
      recording.state.operations[scope.index]? = some operation ∧ operation.status = none := by
  have hstack := h.stack
  cases hlist : recording.session.scopes with
  | nil =>
    rw [hlist] at hscope
    cases hscope
  | cons first rest =>
    rw [hlist] at hscope hstack
    obtain rfl := Option.some.inj hscope
    obtain ⟨operation, hoperation, hstatus, -⟩ := hstack.1
    exact ⟨rest, operation, rfl, hoperation, hstatus⟩

end Nested

end SpecGate.SidecarRuns

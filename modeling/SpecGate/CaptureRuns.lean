import SpecGate.CaptureEffects

/-!
Runs of one session under the scopes its user holds. A scope closes once, in any order
and in any of the ways a scope can end. As long as no close hands the session back to an
operation that has completed, the current operation is open in every state, so nothing
is observed on a completed operation and nothing begins below one.
-/
namespace SpecGate.CaptureRuns

open CaptureSession CaptureEffects

variable {Value : Type}

structure Scope where
  index : Nat
  abandonable : Bool

/-- A session and the scopes that are still held, the last begun first. -/
structure Session (Value : Type) where
  state : State Value
  scopes : List Scope

/-- What the user of a session does. Scopes are named by their position among those
held; the answers of setups, registry and file system come with the call. -/
inductive Action (Value : Type) where
  | begin (componentId operationName : String) (abandonable : Bool)
      (folded : Except CaptureError (List (String × Value) × List String))
  | input (position : Nat) (name : String) (folded : Except CaptureError (List (String × Value)))
  | inputsRecorded (position : Nat) (written : Except String Unit)
  | observe (name : String) (value : Value)
  | complete (position : Nat) (terminal : NativeTerminal Value) (panicking : Bool)
      (written : Except String Unit)
  | drop (position : Nat) (panicking : Bool)
  | markError (error : CaptureError)

/-- The position of the scope that an action ends. -/
def Action.closes : Action Value → Option Nat
  | .complete position _ _ _ => some position
  | .drop position _ => some position
  | _ => none

/-- `none` where the action names a scope that is not held. -/
def step (session : Session Value) : Action Value → Option (Session Value)
  | .begin componentId operationName abandonable folded =>
      match beginActive session.state componentId operationName folded with
      | (.ok index, state) => some ⟨state, ⟨index, abandonable⟩ :: session.scopes⟩
      | (.error _, state) => some ⟨state, session.scopes⟩
  | .input position name folded =>
      (session.scopes[position]?).map fun scope =>
        ⟨(recordInput session.state scope.index name folded).2, session.scopes⟩
  | .inputsRecorded position written =>
      (session.scopes[position]?).map fun _ =>
        ⟨(inputsRecorded session.state written).2, session.scopes⟩
  | .observe name value =>
      some ⟨(recordObservation session.state name value).2, session.scopes⟩
  | .complete position terminal panicking written =>
      (session.scopes[position]?).map fun scope =>
        ⟨(complete session.state scope.index scope.abandonable panicking terminal written).2,
          session.scopes.eraseIdx position⟩
  | .drop position panicking =>
      (session.scopes[position]?).map fun scope =>
        ⟨dropScope session.state scope.index scope.abandonable panicking,
          session.scopes.eraseIdx position⟩
  | .markError error => some ⟨session.state.fail error, session.scopes⟩

def run : Session Value → List (Action Value) → Option (Session Value)
  | session, [] => some session
  | session, action :: rest => (step session action).bind fun next => run next rest

/-- A property of every step of a run. -/
def EveryStep (P : Session Value → Action Value → Session Value → Prop) :
    Session Value → List (Action Value) → Prop
  | _, [] => True
  | session, action :: rest =>
      ∀ next, step session action = some next → P session action next ∧ EveryStep P next rest

/-- What a step does to the session, and which scope it ends. -/
inductive Move (before after : Session Value) : Option Nat → Prop
  | quiet (h : Quiet before.state after.state) (hscopes : after.scopes = before.scopes) :
      Move before after none
  | begun {operation : PendingOperation Value} {abandonable : Bool}
      (h : Begun before.state after.state operation)
      (hscopes : after.scopes = ⟨before.state.operations.length, abandonable⟩ :: before.scopes) :
      Move before after none
  | observed {index : Nat} {observation : Observation Value}
      (h : Observed before.state after.state index observation)
      (hscopes : after.scopes = before.scopes) : Move before after none
  | closed {position : Nat} {scope : Scope} {completion : Option (Completion Value)} {endNs : Int}
      {status : Status} (hscope : before.scopes[position]? = some scope)
      (h : Closed before.state after.state scope.index completion endNs status)
      (hscopes : after.scopes = before.scopes.eraseIdx position) :
      Move before after (some position)
  | lost {position : Nat} {scope : Scope} (hscope : before.scopes[position]? = some scope)
      (h : Lost before.state after.state scope.index)
      (hscopes : after.scopes = before.scopes.eraseIdx position) :
      Move before after (some position)
  | gone {position : Nat} {scope : Scope} (hscope : before.scopes[position]? = some scope)
      (hclosed : ∀ operation, before.state.operations[scope.index]? = some operation →
        operation.status ≠ none)
      (hstate : after.state = before.state)
      (hscopes : after.scopes = before.scopes.eraseIdx position) :
      Move before after (some position)

theorem Move.forward {before after : Session Value} {closes : Option Nat}
    (h : Move before after closes) : Forward before.state after.state := by
  cases h with
  | quiet h hscopes => exact h.forward
  | begun h hscopes => exact h.forward
  | observed h hscopes => exact h.forward
  | closed hscope h hscopes => exact h.forward
  | lost hscope h hscopes => exact h.forward
  | gone hscope hclosed hstate hscopes => exact hstate ▸ Forward.refl _

/-- An open operation, or one that is not there to be closed. -/
theorem open_or_closed (state : State Value) (index : Nat) :
    (∃ operation, state.operations[index]? = some operation ∧ operation.status = none) ∨
      ∀ operation, state.operations[index]? = some operation → operation.status ≠ none := by
  by_cases h : ∃ operation, state.operations[index]? = some operation ∧ operation.status = none
  · exact .inl h
  · exact .inr fun operation hoperation hopen => h ⟨operation, hoperation, hopen⟩

theorem step_move {session next : Session Value} {action : Action Value}
    (hstep : 0 < session.state.config.stepNs) (h : step session action = some next) :
    Move session next action.closes := by
  cases action with
  | begin componentId operationName abandonable folded =>
    unfold step at h
    cases hbegin : beginActive session.state componentId operationName folded with
    | mk result after =>
      rcases beginActive_cases hstep hbegin with ⟨⟨error, rfl⟩, hwaits⟩ | ⟨rfl, -, operation, hbegun⟩
      · simp only [hbegin, Option.some.injEq] at h
        subst h
        exact .quiet hwaits.quiet rfl
      · simp only [hbegin, Option.some.injEq] at h
        subst h
        exact .begun hbegun rfl
  | input position name folded =>
    obtain ⟨scope, -, rfl⟩ := Option.map_eq_some_iff.mp h
    exact .quiet (recordInput_quiet rfl) rfl
  | inputsRecorded position written =>
    obtain ⟨scope, -, rfl⟩ := Option.map_eq_some_iff.mp h
    exact .quiet (inputsRecorded_quiet rfl) rfl
  | observe name value =>
    obtain rfl := Option.some.inj h
    rcases recordObservation_cases hstep (rfl : recordObservation session.state name value = _) with
      hwaits | ⟨index, observation, hobserved⟩
    · exact .quiet hwaits.quiet rfl
    · exact .observed hobserved rfl
  | complete position terminal panicking written =>
    obtain ⟨scope, hscope, rfl⟩ := Option.map_eq_some_iff.mp h
    rcases open_or_closed session.state scope.index with ⟨operation, hoperation, hopen⟩ | hclosed
    · rcases complete_cases hstep hoperation hopen rfl with
        ⟨completion, endNs, status, hclosed⟩ | hlost
      · exact .closed hscope hclosed rfl
      · exact .lost hscope hlost rfl
    · exact .gone hscope hclosed (complete_closed hclosed _ _ _ _) rfl
  | drop position panicking =>
    obtain ⟨scope, hscope, rfl⟩ := Option.map_eq_some_iff.mp h
    rcases open_or_closed session.state scope.index with ⟨operation, hoperation, hopen⟩ | hclosed
    · rcases dropScope_cases hstep hoperation hopen scope.abandonable panicking with
        ⟨completion, endNs, status, hclosed⟩ | hlost
      · exact .closed hscope hclosed rfl
      · exact .lost hscope hlost rfl
    · exact .gone hscope hclosed (dropScope_closed hclosed _ _) rfl
  | markError error =>
    obtain rfl := Option.some.inj h
    exact .quiet ⟨forward_fail _ error, rfl, rfl, rfl⟩ rfl

/-! ### The start -/

theorem start_ok {config : Config} {sidecarPath : Option String}
    {registry : Except CaptureError Unit} {state : State Value}
    (h : start config sidecarPath registry = .ok state) :
    validateConfig config = .ok () ∧ state.config = config ∧ state.nextOp = 0 ∧
      state.currentOperation = none ∧ state.operations = [] ∧
      state.nextTimeNs = state.scenarioStart + config.stepNs := by
  unfold start at h
  cases hconfig : validateConfig config with
  | error error => simp [hconfig] at h
  | ok _ =>
  cases registry with
  | error error => simp [hconfig] at h
  | ok _ =>
    simp only [hconfig] at h
    split_ifs at h
    cases hscenario : checkedAdd config.startNs config.stepNs with
    | none => simp [hscenario] at h
    | some scenarioStart =>
      cases hnext : checkedAdd scenarioStart config.stepNs with
      | none => simp [hscenario, hnext] at h
      | some nextTimeNs =>
        simp only [hscenario, hnext, Except.ok.injEq] at h
        subst h
        exact ⟨rfl, rfl, rfl, rfl, rfl, checkedAdd_eq_some hnext⟩

theorem stepNs_pos {config : Config} (h : validateConfig config = .ok ()) : 0 < config.stepNs := by
  unfold validateConfig at h
  by_contra hstep
  split_ifs at h
  · omega

end SpecGate.CaptureRuns

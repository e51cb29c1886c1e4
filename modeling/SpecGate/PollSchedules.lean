import SpecGate.InstrumentedFutures

/-!
Schedules of polls over one session. While the session has not failed, its current operation
is the one open in the running code, a poll in progress has saved the one open around it, and
a suspended future carries the one open in its body.
-/
namespace SpecGate.PollSchedules

open CaptureSession CaptureEffects InstrumentedFutures

variable {Value : Type}

/-! ### Held operations -/

/-- An open operation with its parent. -/
def Held (state : State Value) (index : Nat) (parent : Option Nat) : Prop :=
  ∃ operation, state.operations[index]? = some operation ∧ operation.status = none ∧
    operation.parentOperation = parent

theorem Held.lt_length {state : State Value} {index : Nat} {parent : Option Nat}
    (h : Held state index parent) : index < state.operations.length := by
  obtain ⟨operation, hoperation, -, -⟩ := h
  exact (List.getElem?_eq_some_iff.mp hoperation).1

theorem Held.begun {before after : State Value} {operation : PendingOperation Value} {index : Nat}
    {parent : Option Nat} (h : Held before index parent) (hbegun : Begun before after operation) :
    Held after index parent := by
  obtain ⟨found, hfound, hopen, hparent⟩ := h
  refine ⟨found, ?_, hopen, hparent⟩
  rw [hbegun.operations, List.getElem?_append_left (List.getElem?_eq_some_iff.mp hfound).1, hfound]

theorem held_new {before after : State Value} {operation : PendingOperation Value}
    (hbegun : Begun before after operation) :
    Held after before.operations.length before.currentOperation := by
  refine ⟨operation, ?_, hbegun.status, hbegun.parent⟩
  rw [hbegun.operations, List.getElem?_concat_length]

theorem Held.closed {before after : State Value} {index closing : Nat} {parent : Option Nat}
    (h : Held before index parent) (hne : closing ≠ index)
    {completion : Option (Completion Value)} {endNs : Int} {status : Status}
    (hclosed : Closed before after closing completion endNs status) : Held after index parent := by
  obtain ⟨found, hfound, hopen, hparent⟩ := h
  refine ⟨found, ?_, hopen, hparent⟩
  rw [hclosed.operations, List.getElem?_modify, hfound]
  exact congrArg some (if_neg hne)

theorem Held.of_core {before after : State Value} {index : Nat} {parent : Option Nat}
    (h : Held before index parent)
    (hcore : after.operations.map core = before.operations.map core) : Held after index parent := by
  obtain ⟨found, hfound, hopen, hparent⟩ := h
  obtain ⟨operation, hoperation, hsame⟩ := ActiveOperation.core_at hcore.symm hfound
  exact ⟨operation, hoperation, (congrArg PendingOperation.status hsame).symm.trans hopen,
    (congrArg PendingOperation.parentOperation hsame).symm.trans hparent⟩

theorem Held.observed {before after : State Value} {index place : Nat} {parent : Option Nat}
    {observation : Observation Value} (h : Held before index parent)
    (hobserved : Observed before after place observation) : Held after index parent := by
  obtain ⟨found, hfound, hopen, hparent⟩ := h
  by_cases hplace : place = index
  · refine ⟨{ found with observations := found.observations ++ [observation] }, ?_, hopen, hparent⟩
    rw [hobserved.operations, List.getElem?_modify, hfound]
    exact congrArg some (if_pos hplace)
  · refine ⟨found, ?_, hopen, hparent⟩
    rw [hobserved.operations, List.getElem?_modify, hfound]
    exact congrArg some (if_neg hplace)

/-! ### The invariant -/

/-- Every poll is one of a future whose operation has begun, and is open where the future has
a context. -/
def Steady (futures : List Future) (frames : List Frame) : Prop :=
  ∀ thread future saved, Frame.poll thread future saved ∈ frames →
    ∃ found, futures[future]? = some found ∧ found.phase ≠ .fresh ∧
      (saved ≠ none → ∃ index, found.phase = .running (some index))

/-- The frames hold open operations, each below the one open around it, and have saved what
they replaced. -/
def Framed (futures : List Future) (state : State Value) : List Frame → Prop
  | [] => True
  | .scope _ index :: rest =>
      Held state index (expected futures rest) ∧ Framed futures state rest
  | .poll thread future (some (slot, previous)) :: rest =>
      (∃ found, futures[future]? = some found ∧ found.context.collector = true) ∧
        previous = expected futures rest ∧
          ((∃ other saved, Frame.poll thread other (some saved) ∈ rest) → slot = true) ∧
            Framed futures state rest
  | .poll _ future none :: rest =>
      (∃ found, futures[future]? = some found ∧ found.context.collector = false) ∧
        Framed futures state rest

def scopesIn : List Frame → List Nat
  | [] => []
  | .scope _ index :: rest => index :: scopesIn rest
  | .poll _ _ _ :: rest => scopesIn rest

/-- A session that has not failed, followed through its polls. -/
structure Tracked (world : World Value) (state : State Value) : Prop where
  current : state.currentOperation = expected world.futures world.stack
  frames : Framed world.futures state world.stack
  steady : Steady world.futures world.stack.tail
  polledOnce : (polledIn world.stack).Nodup
  scopesOnce : (scopesIn world.stack).Nodup
  waiting : ∀ {future : Nat} {found : Future}, world.futures[future]? = some found →
    found.context.collector = true → found.phase ≠ .done → future ∉ polledIn world.stack →
      found.context.currentOperation = found.active
  owned : ∀ {future : Nat} {found : Future} {index : Nat}, world.futures[future]? = some found →
    found.phase = .running (some index) →
      found.context.collector = true ∧ Held state index found.origin
  bare : ∀ {future : Nat} {found : Future}, world.futures[future]? = some found →
    found.phase = .running none → found.context.collector = false
  ownApart : ∀ {first second : Nat} {left right : Future} {index : Nat},
    world.futures[first]? = some left → world.futures[second]? = some right →
      left.phase = .running (some index) → right.phase = .running (some index) → first = second
  scopesApart : ∀ {future : Nat} {found : Future} {index : Nat},
    world.futures[future]? = some found → found.phase = .running (some index) →
      index ∉ scopesIn world.stack
  slots : ∀ thread future saved, Frame.poll thread future (some saved) ∈ world.stack →
    world.installed thread = true
  direct : ∀ thread future rest found, world.stack = .poll thread future none :: rest →
    world.futures[future]? = some found → found.phase = .fresh → world.installed thread = false

/-- Before the session starts nothing holds it. -/
structure Blank (world : World Value) : Prop where
  slots : ∀ thread, world.installed thread = false
  futures : ∀ {future : Nat} {found : Future}, world.futures[future]? = some found →
    found.context.collector = false ∧ ∀ index, found.phase ≠ .running (some index)
  frames : ∀ frame ∈ world.stack, ∃ thread future, frame = .poll thread future none

def Invariant (world : World Value) : Prop :=
  match world.session with
  | none => Blank world
  | some state => 0 < state.config.stepNs ∧ (state.terminalError = none → Tracked world state)

/-! ### What is expected -/

/-- What is expected depends only on the futures that are polled. -/
theorem expected_congr {futures futures' : List Future} {frames : List Frame}
    (h : ∀ future ∈ polledIn frames,
      (futures'[future]?).bind Future.active = (futures[future]?).bind Future.active) :
    expected futures' frames = expected futures frames := by
  induction frames with
  | nil => rfl
  | cons frame rest ih =>
    cases frame with
    | scope thread index => rfl
    | poll thread future saved =>
      have hrest := ih fun other hother => h other (List.mem_cons_of_mem _ hother)
      cases saved with
      | none => exact hrest
      | some saved => exact h future List.mem_cons_self

/-- Futures that are polled keep their contexts. -/
theorem Framed.congr {futures futures' : List Future} {state state' : State Value}
    {frames : List Frame} (h : Framed futures state frames)
    (hactive : ∀ future ∈ polledIn frames,
      (futures'[future]?).bind Future.active = (futures[future]?).bind Future.active)
    (hcontext : ∀ future ∈ polledIn frames, ∀ found, futures[future]? = some found →
      ∃ found', futures'[future]? = some found' ∧
        found'.context.collector = found.context.collector)
    (hheld : ∀ index ∈ scopesIn frames, ∀ parent, Held state index parent →
      Held state' index parent) : Framed futures' state' frames := by
  induction frames with
  | nil => trivial
  | cons frame rest ih =>
    cases frame with
    | scope thread index =>
      obtain ⟨hscope, hrest⟩ := h
      refine ⟨?_, ih hrest hactive hcontext fun other hother =>
        hheld other (List.mem_cons_of_mem _ hother)⟩
      have hsame : expected futures' rest = expected futures rest := expected_congr hactive
      rw [hsame]
      exact hheld index List.mem_cons_self _ hscope
    | poll thread future saved =>
      have hrest := fun other (hother : other ∈ polledIn rest) =>
        hactive other (List.mem_cons_of_mem _ hother)
      have hcontexts := fun other (hother : other ∈ polledIn rest) =>
        hcontext other (List.mem_cons_of_mem _ hother)
      cases saved with
      | none =>
        obtain ⟨⟨found, hfound, hcollector⟩, hframes⟩ := h
        obtain ⟨found', hfound', hsame⟩ := hcontext future List.mem_cons_self found hfound
        exact ⟨⟨found', hfound', hsame.trans hcollector⟩, ih hframes hrest hcontexts hheld⟩
      | some saved =>
        obtain ⟨⟨found, hfound, hcollector⟩, hprevious, hslot, hframes⟩ := h
        obtain ⟨found', hfound', hsame⟩ := hcontext future List.mem_cons_self found hfound
        refine ⟨⟨found', hfound', hsame.trans hcollector⟩, ?_, hslot,
          ih hframes hrest hcontexts hheld⟩
        rw [hprevious, expected_congr hrest]

/-- The frames hold recorded operations. -/
theorem Framed.scope_lt {futures : List Future} {state : State Value} {frames : List Frame}
    (h : Framed futures state frames) {index : Nat} (hmem : index ∈ scopesIn frames) :
    index < state.operations.length := by
  induction frames with
  | nil => cases hmem
  | cons frame rest ih =>
    cases frame with
    | scope thread place =>
      rcases List.mem_cons.mp hmem with heq | hmem
      · exact heq ▸ h.1.lt_length
      · exact ih h.2 hmem
    | poll thread future saved =>
      cases saved with
      | none => exact ih h.2 hmem
      | some saved => exact ih h.2.2.2 hmem

/-- While no future is between its poll and its operation, all frames are steady. -/
theorem Tracked.steady_all {world : World Value} {state : State Value} (h : Tracked world state)
    (hsettled : world.settled = true) : Steady world.futures world.stack := by
  have hframes := h.frames
  have hsteady := h.steady
  unfold World.settled at hsettled
  intro thread future saved hmem
  cases hstack : world.stack with
  | nil =>
    rw [hstack] at hmem
    cases hmem
  | cons frame rest =>
    rw [hstack] at hmem hsteady hframes hsettled
    rcases List.mem_cons.mp hmem with htop | hmem
    · subst htop
      obtain ⟨found, hfound, hphase⟩ := (Option.any_eq_true _ _).mp hsettled
      obtain ⟨hfresh, hdone⟩ := of_decide_eq_true hphase
      refine ⟨found, hfound, hfresh, fun hsaved => ?_⟩
      cases hrunning : found.phase with
      | fresh => exact absurd hrunning hfresh
      | done => exact absurd hrunning hdone
      | running scope =>
        cases scope with
        | some index => exact ⟨index, rfl⟩
        | none =>
          obtain ⟨saved, rfl⟩ := Option.ne_none_iff_exists'.mp hsaved
          obtain ⟨⟨other, hother, hcollector⟩, -⟩ := hframes
          obtain rfl := Option.some.inj (hfound.symm.trans hother)
          exact absurd hcollector (by rw [h.bare hfound hrunning]; exact Bool.false_ne_true)
    · exact hsteady thread future saved hmem

/-- In steady frames what is expected is held by one of them. -/
theorem expected_held {futures : List Future} {frames : List Frame}
    (hsteady : Steady futures frames) {index : Nat} (h : expected futures frames = some index) :
    index ∈ scopesIn frames ∨ ∃ future ∈ polledIn frames, ∃ found, futures[future]? = some found ∧
      found.phase = .running (some index) := by
  induction frames with
  | nil => cases h
  | cons frame rest ih =>
    have hrest := fun hexpected => ih (fun thread future saved hmem =>
      hsteady thread future saved (List.mem_cons_of_mem _ hmem)) hexpected
    cases frame with
    | scope thread other =>
      obtain rfl := Option.some.inj h
      exact .inl List.mem_cons_self
    | poll thread future saved =>
      cases saved with
      | none =>
        rcases hrest h with hscope | ⟨other, hother, found⟩
        · exact .inl hscope
        · exact .inr ⟨other, List.mem_cons_of_mem _ hother, found⟩
      | some saved =>
        obtain ⟨found, hfound, -, hrunning⟩ := hsteady thread future _ List.mem_cons_self
        obtain ⟨own, hown⟩ := hrunning (Option.some_ne_none _)
        rw [expected, hfound, Option.bind_some, Future.active, hown, Option.some.injEq] at h
        exact .inr ⟨future, List.mem_cons_self, found, hfound, h ▸ hown⟩

/-! ### Changes of the session -/

theorem endScope_cases {state : State Value} (hstep : 0 < state.config.stepNs) {index : Nat}
    {parent : Option Nat} (h : Held state index parent) (abandonable : Bool)
    (ending : Ending Value) :
    (∃ completion endNs status, Closed state (endScope state index abandonable ending) index
        completion endNs status) ∨
      Lost state (endScope state index abandonable ending) index := by
  obtain ⟨operation, hoperation, hopen, -⟩ := h
  cases ending with
  | completed terminal panicking written => exact complete_cases hstep hoperation hopen rfl
  | dropped panicking => exact dropScope_cases hstep hoperation hopen abandonable panicking

/-- The scope of the current operation hands the session back to its parent. -/
theorem released_held {state : State Value} {index : Nat} {parent : Option Nat}
    (h : Held state index parent) :
    released state index = if state.currentOperation = some index then parent
      else state.currentOperation := by
  obtain ⟨operation, hoperation, -, rfl⟩ := h
  rw [released, hoperation]
  rfl

theorem note_cases {state : State Value} (hstep : 0 < state.config.stepNs) (note : Note Value) :
    Quiet state (note.apply state) ∨
      ∃ index observation, Observed state (note.apply state) index observation := by
  cases note with
  | input index name folded => exact .inl (recordInput_quiet rfl)
  | inputsRecorded written => exact .inl (inputsRecorded_quiet rfl)
  | observe name value =>
    rcases recordObservation_cases hstep (rfl : recordObservation state name value = _) with
      hwaits | hobserved
    · exact .inl hwaits.quiet
    · exact .inr hobserved
  | markError error => exact .inl ⟨forward_fail state error, rfl, rfl, rfl⟩

/-! ### Steps of a session that has not failed -/

section Steps

variable {world : World Value} {state after : State Value}

/-- What is tracked is everything but the session itself. -/
theorem Tracked.of_same (h : Tracked world state) {other : World Value}
    (hinstalled : other.installed = world.installed) (hfutures : other.futures = world.futures)
    (hstack : other.stack = world.stack) : Tracked other state := by
  obtain ⟨session, installed, futures, stack⟩ := other
  subst hinstalled hfutures hstack
  exact ⟨h.current, h.frames, h.steady, h.polledOnce, h.scopesOnce, h.waiting, h.owned, h.bare,
    h.ownApart, h.scopesApart, h.slots, h.direct⟩

/-- A call that begins and ends no operation. -/
theorem Tracked.changed (h : Tracked world state)
    (hcurrent : after.currentOperation = state.currentOperation)
    (hheld : ∀ index parent, Held state index parent → Held after index parent) :
    Tracked world after where
  current := hcurrent.trans h.current
  frames := h.frames.congr (fun _ _ => rfl) (fun _ _ found hfound => ⟨found, hfound, rfl⟩)
    fun index _ parent => hheld index parent
  steady := h.steady
  polledOnce := h.polledOnce
  scopesOnce := h.scopesOnce
  waiting := h.waiting
  owned := fun hfound hphase => ⟨(h.owned hfound hphase).1, hheld _ _ (h.owned hfound hphase).2⟩
  bare := h.bare
  ownApart := h.ownApart
  scopesApart := h.scopesApart
  slots := h.slots
  direct := h.direct

/-- The futures that are polled are there. -/
theorem Framed.polled {futures : List Future} {frames : List Frame}
    (h : Framed futures state frames) {future : Nat} (hmem : future ∈ polledIn frames) :
    ∃ found, futures[future]? = some found := by
  induction frames with
  | nil => cases hmem
  | cons frame rest ih =>
    cases frame with
    | scope thread index => exact ih h.2 hmem
    | poll thread other saved =>
      cases saved with
      | none =>
        rcases List.mem_cons.mp hmem with rfl | hmem
        · exact ⟨h.1.choose, h.1.choose_spec.1⟩
        · exact ih h.2 hmem
      | some saved =>
        rcases List.mem_cons.mp hmem with rfl | hmem
        · exact ⟨h.1.choose, h.1.choose_spec.1⟩
        · exact ih h.2.2.2 hmem

/-- A new future takes the operation open where it is constructed along. -/
theorem Tracked.constructed (h : Tracked world state) {new : Future}
    (hfresh : new.phase = .fresh)
    (hcontext : new.context.collector = true → new.context.currentOperation = new.origin) :
    Tracked { world with futures := world.futures ++ [new] } state := by
  have hold : ∀ {future : Nat} {found : Future}, world.futures[future]? = some found →
      (world.futures ++ [new])[future]? = some found := by
    intro future found hfound
    rw [List.getElem?_append_left (List.getElem?_eq_some_iff.mp hfound).1, hfound]
  have hcases : ∀ {future : Nat} {found : Future},
      (world.futures ++ [new])[future]? = some found →
        world.futures[future]? = some found ∨ found = new := by
    intro future found hfound
    by_cases hlt : future < world.futures.length
    · rw [List.getElem?_append_left hlt] at hfound
      exact .inl hfound
    · rw [List.getElem?_append_right (Nat.le_of_not_lt hlt)] at hfound
      have hmem := List.mem_of_getElem? hfound
      exact .inr (List.mem_singleton.mp hmem)
  have hrunning : ∀ {future : Nat} {found : Future} {scope : Option Nat},
      (world.futures ++ [new])[future]? = some found → found.phase = .running scope →
        world.futures[future]? = some found := by
    intro future found scope hfound hphase
    rcases hcases hfound with hfound | rfl
    · exact hfound
    · rw [hfresh] at hphase
      cases hphase
  have hsame : ∀ future ∈ polledIn world.stack,
      ((world.futures ++ [new])[future]?).bind Future.active =
        (world.futures[future]?).bind Future.active := by
    intro future hmem
    obtain ⟨found, hfound⟩ := h.frames.polled hmem
    rw [hfound, hold hfound]
  exact {
    current := h.current.trans (expected_congr hsame).symm
    frames := h.frames.congr hsame (fun future _ found hfound => ⟨found, hold hfound, rfl⟩)
      fun _ _ _ => id
    steady := fun thread future saved hmem => by
      obtain ⟨found, hfound, hrest⟩ := h.steady thread future saved hmem
      exact ⟨found, hold hfound, hrest⟩
    polledOnce := h.polledOnce
    scopesOnce := h.scopesOnce
    waiting := fun hfound hcollector hdone hmem => by
      rcases hcases hfound with hfound | rfl
      · exact h.waiting hfound hcollector hdone hmem
      · rw [hcontext hcollector, Future.active, hfresh]
    owned := fun hfound hphase => h.owned (hrunning hfound hphase) hphase
    bare := fun hfound hphase => h.bare (hrunning hfound hphase) hphase
    ownApart := fun hleft hright hfirst hsecond =>
      h.ownApart (hrunning hleft hfirst) (hrunning hright hsecond) hfirst hsecond
    scopesApart := fun hfound hphase => h.scopesApart (hrunning hfound hphase) hphase
    slots := h.slots
    direct := fun thread future rest found hstack hfound hphase => by
      have hmem : future ∈ polledIn world.stack := by
        have hstack' : world.stack = .poll thread future none :: rest := hstack
        rw [hstack']
        exact List.mem_cons_self
      obtain ⟨other, hother⟩ := h.frames.polled hmem
      obtain rfl := Option.some.inj ((hold hother).symm.trans hfound)
      exact h.direct thread future rest other hstack hother hphase }

theorem Tracked.polled (h : Tracked world state) (hsession : world.session = some state)
    (hsettled : world.settled = true) {thread future : Nat} {found : Future}
    (hfound : world.futures[future]? = some found) (hdone : found.phase ≠ .done)
    (hmem : future ∉ polledIn world.stack) (hcollector : found.context.collector = true) :
    Tracked (world.install thread future found.context)
      (setCurrent found.context.currentOperation state) := by
  have hcurrent : world.current = expected world.futures world.stack := by
    rw [World.current, hsession]
    exact h.current
  have hactive := h.waiting hfound hcollector hdone hmem
  have hslot : ∀ other, setSlot world.installed thread true other = true ↔
      other = thread ∨ world.installed other = true := by
    intro other
    unfold setSlot
    by_cases hother : other = thread
    · rw [if_pos hother]
      exact ⟨fun _ => .inl hother, fun _ => rfl⟩
    · rw [if_neg hother]
      exact ⟨.inr, fun h => h.resolve_left hother⟩
  rw [World.install, if_pos hcollector]
  exact {
    current := by
      rw [expected, hfound]
      exact hactive
    frames := by
      refine ⟨⟨found, hfound, hcollector⟩, hcurrent, ?_, ?_⟩
      · intro ⟨other, saved, hframe⟩
        exact h.slots thread other saved hframe
      · exact h.frames.congr (fun _ _ => rfl) (fun _ _ found hfound => ⟨found, hfound, rfl⟩)
          fun _ _ _ => id
    steady := h.steady_all hsettled
    polledOnce := List.nodup_cons.mpr ⟨hmem, h.polledOnce⟩
    scopesOnce := h.scopesOnce
    waiting := fun hother hcontext hphase hpolled =>
      h.waiting hother hcontext hphase fun hmem => hpolled (List.mem_cons_of_mem _ hmem)
    owned := h.owned
    bare := h.bare
    ownApart := h.ownApart
    scopesApart := h.scopesApart
    slots := fun other future' saved hframe => by
      rcases List.mem_cons.mp hframe with heq | hframe
      · exact (hslot other).mpr (.inl (Frame.poll.inj heq).1)
      · exact (hslot other).mpr (.inr (h.slots other future' saved hframe))
    direct := fun other future' rest found' hstack => by
      cases (List.cons.inj hstack).1 }

theorem Tracked.polled_direct (h : Tracked world state) (hsettled : world.settled = true)
    {thread future : Nat} {found : Future} (hfound : world.futures[future]? = some found)
    (hmem : future ∉ polledIn world.stack) (hcollector : found.context.collector = false)
    (hslot : world.installed thread = false) :
    Tracked (world.install thread future found.context) state := by
  rw [World.install, if_neg (by rw [hcollector]; exact Bool.false_ne_true)]
  exact {
    current := h.current
    frames := ⟨⟨found, hfound, hcollector⟩, h.frames⟩
    steady := h.steady_all hsettled
    polledOnce := List.nodup_cons.mpr ⟨hmem, h.polledOnce⟩
    scopesOnce := h.scopesOnce
    waiting := fun hother hcontext hphase hpolled =>
      h.waiting hother hcontext hphase fun hmem => hpolled (List.mem_cons_of_mem _ hmem)
    owned := h.owned
    bare := h.bare
    ownApart := h.ownApart
    scopesApart := h.scopesApart
    slots := fun other future' saved hframe => by
      rcases List.mem_cons.mp hframe with heq | hframe
      · cases heq
      · exact h.slots other future' saved hframe
    direct := fun other future' rest found' hstack _ _ => by
      obtain ⟨rfl, -, -⟩ := Frame.poll.inj (List.cons.inj hstack).1
      exact hslot }

/-- A synchronous operation begins below the operation that is open. -/
theorem Tracked.entered (h : Tracked world state) (hsettled : world.settled = true)
    {operation : PendingOperation Value} (hbegun : Begun state after operation) (thread : Nat) :
    Tracked { world with stack := .scope thread state.operations.length :: world.stack } after := by
  exact {
    current := hbegun.current
    frames := by
      refine ⟨?_, h.frames.congr (fun _ _ => rfl) (fun _ _ found hfound => ⟨found, hfound, rfl⟩)
        fun _ _ _ hheld => hheld.begun hbegun⟩
      have hnew := held_new hbegun
      rwa [h.current] at hnew
    steady := h.steady_all hsettled
    polledOnce := h.polledOnce
    scopesOnce := List.nodup_cons.mpr ⟨fun hmem => Nat.lt_irrefl _ (h.frames.scope_lt hmem), h.scopesOnce⟩
    waiting := h.waiting
    owned := fun hfound hphase =>
      ⟨(h.owned hfound hphase).1, (h.owned hfound hphase).2.begun hbegun⟩
    bare := h.bare
    ownApart := h.ownApart
    scopesApart := fun hfound hphase hmem => by
      rcases List.mem_cons.mp hmem with rfl | hmem
      · exact Nat.lt_irrefl _ (h.owned hfound hphase).2.lt_length
      · exact h.scopesApart hfound hphase hmem
    slots := fun other future saved hframe => by
      rcases List.mem_cons.mp hframe with heq | hframe
      · cases heq
      · exact h.slots other future saved hframe
    direct := fun other future rest found hstack => by
      cases (List.cons.inj hstack).1 }

/-- A synchronous operation ends and hands the session back to the operation around it. -/
theorem Tracked.left (h : Tracked world state) {thread index : Nat} {rest : List Frame}
    (hstack : world.stack = .scope thread index :: rest) {completion : Option (Completion Value)}
    {endNs : Int} {status : Status} (hclosed : Closed state after index completion endNs status) :
    Tracked { world with stack := rest } after := by
  have hframes := h.frames
  have hsteady := h.steady
  have hscopes := h.scopesOnce
  rw [hstack] at hframes hsteady hscopes
  obtain ⟨hnot, hscopes⟩ := List.nodup_cons.mp hscopes
  have hcurrent : state.currentOperation = some index := by
    rw [h.current, hstack]
    rfl
  have hmem : ∀ frame ∈ rest, frame ∈ world.stack := fun frame hframe => by
    rw [hstack]
    exact List.mem_cons_of_mem _ hframe
  have hpolled : polledIn world.stack = polledIn rest := by
    rw [hstack]
    rfl
  exact {
    current := by rw [hclosed.current, released_held hframes.1, if_pos hcurrent]
    frames := hframes.2.congr (fun _ _ => rfl) (fun _ _ found hfound => ⟨found, hfound, rfl⟩)
      fun other hother _ hheld =>
        hheld.closed (fun heq : index = other => hnot (heq ▸ hother)) hclosed
    steady := fun other future saved hframe =>
      hsteady other future saved (List.mem_of_mem_tail hframe)
    polledOnce := hpolled ▸ h.polledOnce
    scopesOnce := hscopes
    waiting := fun hfound hcontext hphase hmem =>
      h.waiting hfound hcontext hphase (hpolled ▸ hmem)
    owned := fun hfound hphase => by
      obtain ⟨hcontext, hheld⟩ := h.owned hfound hphase
      refine ⟨hcontext, hheld.closed (fun heq => ?_) hclosed⟩
      refine h.scopesApart hfound hphase ?_
      rw [hstack, ← heq]
      exact List.mem_cons_self
    bare := h.bare
    ownApart := h.ownApart
    scopesApart := fun hfound hphase hmem => by
      refine h.scopesApart hfound hphase ?_
      rw [hstack]
      exact List.mem_cons_of_mem _ hmem
    slots := fun other future saved hframe => h.slots other future saved (hmem _ hframe)
    direct := fun other future more found hrest hfound hphase => by
      have hframe : Frame.poll other future none ∈ rest := by
        have hrest' : rest = .poll other future none :: more := hrest
        rw [hrest']
        exact List.mem_cons_self
      obtain ⟨found', hfound', hfresh, -⟩ := hsteady other future none hframe
      obtain rfl := Option.some.inj (hfound'.symm.trans hfound)
      exact absurd hphase hfresh }

/-! ### A future moves on -/

theorem setPhase_lookup {future place : Nat} {phase : Phase} {found' : Future}
    (h : (world.setPhase future phase).futures[place]? = some found') :
    ∃ found, world.futures[place]? = some found ∧
      found' = if future = place then { found with phase := phase } else found := by
  have hlookup : (world.futures.modify future fun found => { found with phase := phase })[place]? =
      some found' := h
  rw [List.getElem?_modify] at hlookup
  obtain ⟨found, hfound, heq⟩ := Option.map_eq_some_iff.mp hlookup
  exact ⟨found, hfound, heq.symm⟩

theorem setPhase_other {future place : Nat} (hne : future ≠ place) (phase : Phase) :
    (world.setPhase future phase).futures[place]? = world.futures[place]? := by
  have hlookup : (world.setPhase future phase).futures[place]? =
      (world.futures.modify future fun found => { found with phase := phase })[place]? := rfl
  rw [hlookup, List.getElem?_modify]
  cases world.futures[place]? with
  | none => rfl
  | some found => exact congrArg some (if_neg hne)

theorem setPhase_self {future : Nat} {found : Future} (h : world.futures[future]? = some found)
    (phase : Phase) :
    (world.setPhase future phase).futures[future]? = some { found with phase := phase } := by
  have hlookup : (world.setPhase future phase).futures[future]? =
      (world.futures.modify future fun found => { found with phase := phase })[future]? := rfl
  rw [hlookup, List.getElem?_modify, h]
  exact congrArg some (if_pos rfl)

/-- The frames under the poll of a future do not see it move on. -/
theorem Framed.setPhase {futures : List Future} {frames : List Frame} {future : Nat}
    {phase : Phase} (hfutures : world.futures = futures) (h : Framed futures state frames)
    (hmem : future ∉ polledIn frames)
    (hheld : ∀ index ∈ scopesIn frames, ∀ parent, Held state index parent →
      Held after index parent) : Framed (world.setPhase future phase).futures after frames := by
  subst hfutures
  have hsame : ∀ other ∈ polledIn frames,
      (world.setPhase future phase).futures[other]? = world.futures[other]? := fun other hother =>
    setPhase_other (fun heq : future = other => hmem (heq ▸ hother)) phase
  refine h.congr (fun other hother => by rw [hsame other hother]) ?_ hheld
  intro other hother found hfound
  exact ⟨found, (hsame other hother).trans hfound, rfl⟩

theorem expected_setPhase {frames : List Frame} {future : Nat} (phase : Phase)
    (hmem : future ∉ polledIn frames) :
    expected (world.setPhase future phase).futures frames = expected world.futures frames :=
  expected_congr fun other hother => by
    rw [setPhase_other (fun heq : future = other => hmem (heq ▸ hother)) phase]

theorem Steady.setPhase {frames : List Frame} {future : Nat} (phase : Phase)
    (h : Steady world.futures frames) (hmem : future ∉ polledIn frames) :
    Steady (world.setPhase future phase).futures frames := by
  intro thread other saved hframe
  have hother : other ∈ polledIn frames := by
    clear h hmem
    induction frames with
    | nil => cases hframe
    | cons frame rest ih =>
      rcases List.mem_cons.mp hframe with heq | hrest
      · subst heq
        exact List.mem_cons_self
      · cases frame with
        | scope _ _ => exact ih hrest
        | poll _ _ _ => exact List.mem_cons_of_mem _ (ih hrest)
  rw [setPhase_other (fun heq : future = other => hmem (heq ▸ hother)) phase]
  exact h thread other saved hframe

/-- The operation of a future begins below the one open where the future was constructed. -/
theorem Tracked.begun (h : Tracked world state) {thread future : Nat}
    {saved : Bool × Option Nat} {rest : List Frame} {found : Future}
    (hstack : world.stack = .poll thread future (some saved) :: rest)
    (hfound : world.futures[future]? = some found) (hfresh : found.phase = .fresh)
    {operation : PendingOperation Value} (hbegun : Begun state after operation) :
    Tracked (world.setPhase future (.running (some state.operations.length))) after := by
  have hframes := h.frames
  have hsteady := h.steady
  have honce := h.polledOnce
  rw [hstack] at hframes hsteady honce
  obtain ⟨hmem, honce⟩ := List.nodup_cons.mp honce
  obtain ⟨⟨found', hfound', hcollector⟩, hprevious, hslot, hframes⟩ := hframes
  obtain rfl := Option.some.inj (hfound.symm.trans hfound')
  have horigin : state.currentOperation = found.origin := by
    rw [h.current, hstack, expected, hfound, Option.bind_some, Future.active, hfresh]
  have hself := setPhase_self hfound (.running (some state.operations.length))
  have hrunning : ∀ {place : Nat} {other : Future} {index : Nat},
      (world.setPhase future (.running (some state.operations.length))).futures[place]? =
          some other →
        other.phase = .running (some index) →
          (place = future ∧ index = state.operations.length ∧
            other.context = found.context ∧ other.origin = found.origin) ∨
          future ≠ place ∧ world.futures[place]? = some other := by
    intro place other index hother hphase
    by_cases hplace : future = place
    · subst hplace
      obtain rfl := Option.some.inj (hself.symm.trans hother)
      exact .inl ⟨rfl, (Option.some.inj (Phase.running.inj hphase)).symm, rfl, rfl⟩
    · rw [setPhase_other hplace] at hother
      exact .inr ⟨hplace, hother⟩
  exact {
    current := by
      have hexpected : expected
          (world.setPhase future (.running (some state.operations.length))).futures world.stack =
            some state.operations.length := by
        rw [hstack, expected, hself]
        rfl
      exact hbegun.current.trans hexpected.symm
    frames := by
      change Framed _ _ world.stack
      rw [hstack]
      refine ⟨⟨_, hself, hcollector⟩, ?_, hslot, ?_⟩
      · rw [hprevious, expected_setPhase _ hmem]
      · exact Framed.setPhase rfl hframes hmem fun _ _ _ hheld => hheld.begun hbegun
    steady := by
      change Steady _ world.stack.tail
      rw [hstack]
      exact Steady.setPhase _ hsteady hmem
    polledOnce := h.polledOnce
    scopesOnce := h.scopesOnce
    waiting := fun {place other} hother hcontext hphase hpolled => by
      have hplace : future ≠ place := fun heq => hpolled (by
        change place ∈ polledIn world.stack
        rw [hstack, ← heq]
        exact List.mem_cons_self)
      rw [setPhase_other hplace] at hother
      exact h.waiting hother hcontext hphase hpolled
    owned := fun hother hphase => by
      rcases hrunning hother hphase with ⟨rfl, rfl, hcontext, horigin'⟩ | ⟨-, hother⟩
      · rw [hcontext, horigin', ← horigin]
        exact ⟨hcollector, held_new hbegun⟩
      · exact ⟨(h.owned hother hphase).1, (h.owned hother hphase).2.begun hbegun⟩
    bare := fun {place other} hother hphase => by
      by_cases hplace : future = place
      · subst hplace
        obtain rfl := Option.some.inj (hself.symm.trans hother)
        cases hphase
      · rw [setPhase_other hplace] at hother
        exact h.bare hother hphase
    ownApart := fun hleft hright hfirst hsecond => by
      rcases hrunning hleft hfirst with ⟨hfuture, hindex, -, -⟩ | ⟨-, hleft⟩
      · rcases hrunning hright hsecond with ⟨hother, -, -, -⟩ | ⟨-, hright⟩
        · exact hfuture.trans hother.symm
        · have hlt := (h.owned hright hsecond).2.lt_length
          omega
      · rcases hrunning hright hsecond with ⟨-, hindex, -, -⟩ | ⟨-, hright⟩
        · have hlt := (h.owned hleft hfirst).2.lt_length
          omega
        · exact h.ownApart hleft hright hfirst hsecond
    scopesApart := fun hother hphase hscopes => by
      change _ ∈ scopesIn world.stack at hscopes
      rcases hrunning hother hphase with ⟨rfl, rfl, -, -⟩ | ⟨-, hother⟩
      · rw [hstack] at hscopes
        exact Nat.lt_irrefl _ (hframes.scope_lt hscopes)
      · exact h.scopesApart hother hphase hscopes
    slots := h.slots
    direct := fun other future' more found' hstack' => by
      cases (List.cons.inj (hstack.symm.trans hstack')).1 }

/-- A future that the running code does not poll, or whose poll is the innermost frame, ends. -/
theorem Framed.ended {futures : List Future} {frames : List Frame} {future : Nat}
    (hfutures : world.futures = futures) (h : Framed futures state frames)
    (hmem : future ∉ polledIn frames.tail)
    (hheld : ∀ index ∈ scopesIn frames, ∀ parent, Held state index parent →
      Held after index parent) : Framed (world.setPhase future .done).futures after frames := by
  subst hfutures
  cases frames with
  | nil => trivial
  | cons frame rest =>
    have hexpected := @expected_setPhase Value world rest future .done hmem
    have hcontext : ∀ {place : Nat} {found : Future}, world.futures[place]? = some found →
        ∃ found', (world.setPhase future .done).futures[place]? = some found' ∧
          found'.context.collector = found.context.collector := by
      intro place found hfound
      by_cases hplace : future = place
      · subst hplace
        exact ⟨_, setPhase_self hfound .done, rfl⟩
      · exact ⟨found, (setPhase_other hplace .done).trans hfound, rfl⟩
    cases frame with
    | scope thread index =>
      refine ⟨?_, h.2.setPhase rfl hmem fun other hother =>
        hheld other (List.mem_cons_of_mem _ hother)⟩
      rw [hexpected]
      exact hheld index List.mem_cons_self _ h.1
    | poll thread other saved =>
      cases saved with
      | none =>
        obtain ⟨⟨found, hfound, hcollector⟩, hrest⟩ := h
        obtain ⟨found', hfound', hsame⟩ := hcontext hfound
        exact ⟨⟨found', hfound', hsame.trans hcollector⟩, hrest.setPhase rfl hmem hheld⟩
      | some saved =>
        obtain ⟨⟨found, hfound, hcollector⟩, hprevious, hslot, hrest⟩ := h
        obtain ⟨found', hfound', hsame⟩ := hcontext hfound
        refine ⟨⟨found', hfound', hsame.trans hcollector⟩, ?_, hslot, hrest.setPhase rfl hmem hheld⟩
        rw [hprevious, hexpected]

/-- A future ends, and its operation with it. -/
theorem Tracked.ended (h : Tracked world state) {future : Nat} {found : Future}
    (hfound : world.futures[future]? = some found) (hmem : future ∉ polledIn world.stack.tail)
    (hcurrent : after.currentOperation =
      expected (world.setPhase future .done).futures world.stack)
    (hheld : ∀ index, found.phase ≠ .running (some index) → ∀ parent, Held state index parent →
      Held after index parent) : Tracked (world.setPhase future .done) after := by
  have hself := setPhase_self hfound .done
  have hothers : ∀ {place : Nat} {other : Future},
      (world.setPhase future .done).futures[place]? = some other → other.phase ≠ .done →
        future ≠ place ∧ world.futures[place]? = some other := by
    intro place other hother hphase
    have hplace : future ≠ place := by
      intro heq
      subst heq
      obtain rfl := Option.some.inj (hself.symm.trans hother)
      exact hphase rfl
    exact ⟨hplace, (setPhase_other hplace .done).symm.trans hother⟩
  have hrunning : ∀ {place : Nat} {other : Future} {scope : Option Nat},
      (world.setPhase future .done).futures[place]? = some other →
        other.phase = .running scope → future ≠ place ∧ world.futures[place]? = some other := by
    intro place other scope hother hphase
    exact hothers hother (by rw [hphase]; exact Phase.noConfusion)
  exact {
    current := hcurrent
    frames := h.frames.ended rfl hmem fun index hindex parent =>
      hheld index (fun hphase => h.scopesApart hfound hphase hindex) parent
    steady := Steady.setPhase _ h.steady hmem
    polledOnce := h.polledOnce
    scopesOnce := h.scopesOnce
    waiting := fun hother hcontext hphase hpolled =>
      h.waiting (hothers hother hphase).2 hcontext hphase hpolled
    owned := fun hother hphase => by
      obtain ⟨hplace, hother⟩ := hrunning hother hphase
      obtain ⟨hcontext, hown⟩ := h.owned hother hphase
      exact ⟨hcontext, hheld _ (fun hsame =>
        hplace (h.ownApart hfound hother hsame hphase)) _ hown⟩
    bare := fun hother hphase => h.bare (hrunning hother hphase).2 hphase
    ownApart := fun hleft hright hfirst hsecond =>
      h.ownApart (hrunning hleft hfirst).2 (hrunning hright hsecond).2 hfirst hsecond
    scopesApart := fun hother hphase => h.scopesApart (hrunning hother hphase).2 hphase
    slots := h.slots
    direct := fun thread place rest other hstack hother hphase =>
      h.direct thread place rest other hstack
        (hothers hother (by rw [hphase]; exact Phase.noConfusion)).2 hphase }

/-- A future that is polled without a context begins no operation. -/
theorem Tracked.begun_direct (h : Tracked world state) {thread future : Nat} {rest : List Frame}
    {found : Future} (hstack : world.stack = .poll thread future none :: rest)
    (hfound : world.futures[future]? = some found) :
    Tracked (world.setPhase future (.running none)) state := by
  have hframes := h.frames
  have hsteady := h.steady
  have honce := h.polledOnce
  rw [hstack] at hframes hsteady honce
  obtain ⟨hmem, -⟩ := List.nodup_cons.mp honce
  obtain ⟨⟨found', hfound', hcollector⟩, hframes⟩ := hframes
  obtain rfl := Option.some.inj (hfound.symm.trans hfound')
  have hself := setPhase_self hfound (.running none)
  have hothers : ∀ {place : Nat} {other : Future},
      (world.setPhase future (.running none)).futures[place]? = some other →
        other.phase ≠ .running none → world.futures[place]? = some other := by
    intro place other hother hphase
    by_cases hplace : future = place
    · subst hplace
      obtain rfl := Option.some.inj (hself.symm.trans hother)
      exact absurd rfl hphase
    · exact (setPhase_other hplace _).symm.trans hother
  have hrunning : ∀ {place : Nat} {other : Future} {index : Nat},
      (world.setPhase future (.running none)).futures[place]? = some other →
        other.phase = .running (some index) → world.futures[place]? = some other := by
    intro place other index hother hphase
    exact hothers hother (by rw [hphase]; exact fun heq => by cases heq)
  exact {
    current := by
      have hexpected := @expected_setPhase Value world rest future (.running none) hmem
      have hcurrent := h.current
      rw [hstack] at hcurrent
      change _ = expected _ world.stack
      rw [hstack]
      exact hcurrent.trans hexpected.symm
    frames := by
      change Framed _ _ world.stack
      rw [hstack]
      exact ⟨⟨_, hself, hcollector⟩, Framed.setPhase rfl hframes hmem fun _ _ _ => id⟩
    steady := by
      change Steady _ world.stack.tail
      rw [hstack]
      exact Steady.setPhase _ hsteady hmem
    polledOnce := h.polledOnce
    scopesOnce := h.scopesOnce
    waiting := fun {place other} hother hcontext hphase hpolled => by
      by_cases hplace : future = place
      · refine absurd ?_ hpolled
        change place ∈ polledIn world.stack
        rw [hstack, ← hplace]
        exact List.mem_cons_self
      · rw [setPhase_other hplace] at hother
        exact h.waiting hother hcontext hphase hpolled
    owned := fun hother hphase => h.owned (hrunning hother hphase) hphase
    bare := fun {place other} hother hphase => by
      by_cases hplace : future = place
      · subst hplace
        obtain rfl := Option.some.inj (hself.symm.trans hother)
        exact hcollector
      · rw [setPhase_other hplace] at hother
        exact h.bare hother hphase
    ownApart := fun hleft hright hfirst hsecond =>
      h.ownApart (hrunning hleft hfirst) (hrunning hright hsecond) hfirst hsecond
    scopesApart := fun hother hphase => h.scopesApart (hrunning hother hphase) hphase
    slots := h.slots
    direct := fun other place more found' hstack' hother hphase =>
      h.direct other place more found' hstack'
        (hothers hother (by rw [hphase]; exact Phase.noConfusion)) hphase }

/-- A poll without a context returns. -/
theorem Tracked.returned_direct (h : Tracked world state) {thread future : Nat}
    {rest : List Frame} (hstack : world.stack = .poll thread future none :: rest) :
    Tracked { world with stack := rest } state := by
  have hframes := h.frames
  have hsteady := h.steady
  have honce := h.polledOnce
  have hcurrent := h.current
  have hscopes : scopesIn world.stack = scopesIn rest := by
    rw [hstack]
    rfl
  rw [hstack] at hframes hsteady honce hcurrent
  obtain ⟨hmem, honce⟩ := List.nodup_cons.mp honce
  obtain ⟨⟨found, hfound, hcollector⟩, hframes⟩ := hframes
  exact {
    current := hcurrent
    frames := hframes
    steady := fun other place saved hframe => hsteady other place saved (List.mem_of_mem_tail hframe)
    polledOnce := honce
    scopesOnce := hscopes ▸ h.scopesOnce
    waiting := fun {place other} hother hcontext hphase hpolled => by
      refine h.waiting hother hcontext hphase fun hmem => ?_
      rw [hstack] at hmem
      rcases List.mem_cons.mp hmem with heq | hmem
      · subst heq
        obtain rfl := Option.some.inj (hfound.symm.trans hother)
        exact Bool.false_ne_true (hcollector.symm.trans hcontext)
      · exact hpolled hmem
    owned := h.owned
    bare := h.bare
    ownApart := h.ownApart
    scopesApart := fun hother hphase => hscopes ▸ h.scopesApart hother hphase
    slots := fun other place saved hframe => h.slots other place saved (by
      rw [hstack]
      exact List.mem_cons_of_mem _ hframe)
    direct := fun other place more found' hrest hother hphase => by
      obtain ⟨found'', hfound'', hfresh, -⟩ := hsteady other place none (by
        rw [show rest = _ from hrest]
        exact List.mem_cons_self)
      obtain rfl := Option.some.inj (hfound''.symm.trans hother)
      exact absurd hphase hfresh }

/-- A poll with a context returns: the future keeps the operation open in its body. -/
theorem Tracked.returned (h : Tracked world state) (hsession : world.session = some state)
    {thread future : Nat} {slot : Bool} {previous : Option Nat} {rest : List Frame}
    (hstack : world.stack = .poll thread future (some (slot, previous)) :: rest)
    {found : Future} (hfound : world.futures[future]? = some found) :
    Tracked (world.restore thread future (some (slot, previous)) rest)
      (setCurrent previous state) := by
  have hframes := h.frames
  have hsteady := h.steady
  have honce := h.polledOnce
  have hcurrent : world.current = found.active := by
    rw [World.current, hsession, Option.bind_some, h.current, hstack, expected, hfound]
    rfl
  have hscopes : scopesIn world.stack = scopesIn rest := by
    rw [hstack]
    rfl
  rw [hstack] at hframes hsteady honce
  obtain ⟨hmem, honce⟩ := List.nodup_cons.mp honce
  obtain ⟨⟨found', hfound', hcollector⟩, hprevious, hslot, hframes⟩ := hframes
  obtain rfl := Option.some.inj (hfound.symm.trans hfound')
  let kept := fun found : Future =>
    { found with context := { found.context with currentOperation := world.current } }
  have hlookup : ∀ place, (world.futures.modify future kept)[place]? =
      if future = place then some (kept found) else world.futures[place]? := by
    intro place
    rw [List.getElem?_modify]
    by_cases hplace : future = place
    · subst hplace
      rw [hfound, if_pos rfl]
      exact congrArg some (if_pos rfl)
    · rw [if_neg hplace]
      cases world.futures[place]? with
      | none => rfl
      | some found => exact congrArg some (if_neg hplace)
  have hpast : ∀ {place : Nat} {other : Future},
      (world.futures.modify future kept)[place]? = some other →
        ∃ other', world.futures[place]? = some other' ∧ other.phase = other'.phase ∧
          other.origin = other'.origin ∧ other.context.collector = other'.context.collector := by
    intro place other hother
    rw [hlookup] at hother
    by_cases hplace : future = place
    · rw [if_pos hplace] at hother
      obtain rfl := Option.some.inj hother
      exact ⟨found, hplace ▸ hfound, rfl, rfl, rfl⟩
    · rw [if_neg hplace] at hother
      exact ⟨other, hother, rfl, rfl, rfl⟩
  have hsame : ∀ place ∈ polledIn rest, (world.futures.modify future kept)[place]? =
      world.futures[place]? := fun place hplace =>
    (hlookup place).trans (if_neg fun heq : future = place => hmem (heq ▸ hplace))
  have hactive := @expected_congr world.futures (world.futures.modify future kept) rest
    fun place hplace => congrArg (Option.bind · Future.active) (hsame place hplace)
  exact {
    current := hprevious.trans hactive.symm
    frames := hframes.congr
      (fun place hplace => congrArg (Option.bind · Future.active) (hsame place hplace))
      (fun place hplace found hfound => ⟨found, (hsame place hplace).trans hfound, rfl⟩)
      fun _ _ _ => id
    steady := fun other place saved hframe => by
      obtain ⟨found', hfound', hrest⟩ := hsteady other place saved (List.mem_of_mem_tail hframe)
      by_cases hplace : future = place
      · subst hplace
        obtain rfl := Option.some.inj (hfound.symm.trans hfound')
        exact ⟨kept found, (hlookup future).trans (if_pos rfl), hrest⟩
      · exact ⟨found', ((hlookup place).trans (if_neg hplace)).trans hfound', hrest⟩
    polledOnce := honce
    scopesOnce := hscopes ▸ h.scopesOnce
    waiting := fun {place other} hother hcontext hphase hpolled => by
      have hother' := (hlookup place).symm.trans hother
      by_cases hplace : future = place
      · rw [if_pos hplace] at hother'
        obtain rfl := Option.some.inj hother'
        exact hcurrent
      · rw [if_neg hplace] at hother'
        refine h.waiting hother' hcontext hphase fun hmem => ?_
        rw [hstack] at hmem
        rcases List.mem_cons.mp hmem with heq | hmem
        · exact hplace heq.symm
        · exact hpolled hmem
    owned := fun hother hphase => by
      obtain ⟨other', hother', hsamePhase, horigin, hsameContext⟩ := hpast hother
      rw [horigin, hsameContext]
      exact h.owned hother' (hsamePhase.symm.trans hphase)
    bare := fun hother hphase => by
      obtain ⟨other', hother', hsamePhase, -, hsameContext⟩ := hpast hother
      rw [hsameContext]
      exact h.bare hother' (hsamePhase.symm.trans hphase)
    ownApart := fun hleft hright hfirst hsecond => by
      obtain ⟨left', hleft', hleftPhase, -, -⟩ := hpast hleft
      obtain ⟨right', hright', hrightPhase, -, -⟩ := hpast hright
      exact h.ownApart hleft' hright' (hleftPhase.symm.trans hfirst)
        (hrightPhase.symm.trans hsecond)
    scopesApart := fun hother hphase => by
      obtain ⟨other', hother', hsamePhase, -, -⟩ := hpast hother
      exact hscopes ▸ h.scopesApart hother' (hsamePhase.symm.trans hphase)
    slots := fun other place saved hframe => by
      change (if other = thread then slot else world.installed other) = true
      by_cases hother : other = thread
      · rw [if_pos hother]
        exact hslot ⟨place, saved, hother ▸ hframe⟩
      · rw [if_neg hother]
        refine h.slots other place saved ?_
        rw [hstack]
        exact List.mem_cons_of_mem _ hframe
    direct := fun other place more found' hrest hother hphase => by
      obtain ⟨found'', hfound'', hfresh, -⟩ := hsteady other place none (by
        rw [show rest = _ from hrest]
        exact List.mem_cons_self)
      obtain ⟨other', hother', hsamePhase, -, -⟩ := hpast hother
      obtain rfl := Option.some.inj (hfound''.symm.trans hother')
      exact absurd (hsamePhase.symm.trans hphase) hfresh }

end Steps

end SpecGate.PollSchedules

import SpecGate.CaptureJson

/-!
Sidecars of the C# runtime in the hands of their reader. What the text writer spells is the
document of the capture, so a capture is read back unless the reader refuses its document:
over a number that is not finite, over a declared error without a payload, or over too many
containers. Text that is no text has no counterpart to be read as.
-/
namespace SpecGate.WrittenCaptures

open JsonTrees JsonTexts FloatTexts SidecarCaptures SidecarValues CaptureJson
open ClrValues (Value)
open Values (FiniteF64)

/-! ### What a capture holds -/

def payloadWellFormed : Option Value → Bool
  | none => true
  | some value => ClrValues.wellFormed value

def completionWellFormed : Completion → Bool
  | .result _ _ resultValue => ClrValues.wellFormed resultValue
  | .error _ _ name errorValue => Utf16.wellFormed name && payloadWellFormed errorValue
  | .fault _ _ faultType message observer =>
      Utf16.wellFormed faultType && (Utf16.wellFormed message && Utf16.wellFormed observer)
  | .empty _ _ | .abandoned _ _ => true

def observationWellFormed (observation : Observation) : Bool :=
  Utf16.wellFormed observation.name && ClrValues.wellFormed observation.observedValue

def operationWellFormed (operation : OperationSpan) : Bool :=
  Utf16.wellFormed operation.componentId && (Utf16.wellFormed operation.operationName &&
    (ClrValues.entriesWellFormed operation.inputs &&
      (operation.observations.all observationWellFormed &&
        operation.operationCompletion.all completionWellFormed)))

/-- In every text of the capture each surrogate has its partner. -/
def wellFormed (capture : Capture) : Bool :=
  Utf16.wellFormed capture.scenarioName && capture.operations.all operationWellFormed

def completionFinite : Completion → Bool
  | .result _ _ resultValue => ClrValues.finite resultValue
  | .error _ _ _ errorValue => errorValue.all ClrValues.finite
  | .empty _ _ | .fault _ _ _ _ _ | .abandoned _ _ => true

def operationFinite (operation : OperationSpan) : Bool :=
  ClrValues.entriesFinite operation.inputs &&
    operation.observations.all (ClrValues.finite ·.observedValue) &&
      operation.operationCompletion.all completionFinite

/-- No floating-point number of the capture is infinite or not a number. -/
def allFinite (capture : Capture) : Bool := capture.operations.all operationFinite

def hasPayload : Completion → Bool
  | .error _ _ _ errorValue => errorValue.isSome
  | .result _ _ _ | .empty _ _ | .fault _ _ _ _ _ | .abandoned _ _ => true

/-- Every declared error carries a value. -/
def allPayloads (capture : Capture) : Bool :=
  capture.operations.all fun operation => operation.operationCompletion.all hasPayload

def completionNesting : Option Completion → Nat
  | none => 0
  | some (.result _ _ resultValue) => ClrValues.nesting resultValue + 1
  | some (.error _ _ _ (some errorValue)) => ClrValues.nesting errorValue + 1
  | some _ => 1

def deepest {α : Type} (nesting : α → Nat) (items : List α) : Nat :=
  items.foldr (fun item rest => max (nesting item) rest) 0

def operationNesting (operation : OperationSpan) : Nat :=
  max (ClrValues.nestingEntries operation.inputs + 1)
    (max (deepest (fun observation => ClrValues.nesting observation.observedValue + 1)
      operation.observations + 1) (completionNesting operation.operationCompletion)) + 1

/-- How many containers stand around the innermost part of the capture, once it is written. -/
def nesting (capture : Capture) : Nat := deepest operationNesting capture.operations + 2

/-! ### Captures as they are built -/

def completionOrdered : Completion → Prop
  | .result _ _ resultValue => ClrValues.Ordered resultValue
  | .error _ _ _ errorValue => ∀ value ∈ errorValue, ClrValues.Ordered value
  | .empty _ _ | .fault _ _ _ _ _ | .abandoned _ _ => True

/-- Sets and maps are in their order, those of the inputs included. -/
structure OperationOrdered (operation : OperationSpan) : Prop where
  keys : ClrValues.KeysIncreasing (operation.inputs.map Prod.fst)
  inputs : ClrValues.EntriesOrdered operation.inputs
  observations : ∀ observation ∈ operation.observations,
    ClrValues.Ordered observation.observedValue
  completion : ∀ completion ∈ operation.operationCompletion, completionOrdered completion

def Ordered (capture : Capture) : Prop :=
  ∀ operation ∈ capture.operations, OperationOrdered operation

/-! ### Counterparts -/

theorem collect_isSome {α β : Type} {image : α → Option β} {accepts : α → Bool}
    {items : List α} (h : ∀ item, (image item).isSome = accepts item) :
    (Collecting.collect image items).isSome = items.all accepts := by
  induction items with
  | nil => rfl
  | cons item rest ih =>
    rw [Collecting.collect, ClrValues.isSome_bind_map, h, ih, List.all_cons]

theorem payload_isSome (value : Option Value) :
    (nativePayload value).isSome = payloadWellFormed value := by
  cases value with
  | none => rfl
  | some value => exact Option.isSome_map.trans (ClrValues.native_isSome value)

theorem isSome_bind {α β : Type} (first : Option α) {second : α → Option β} {accepts : Bool}
    (h : ∀ a, (second a).isSome = accepts) :
    (first.bind second).isSome = (first.isSome && accepts) := by
  cases first with
  | none => rfl
  | some a => exact (h a).trans (Bool.true_and _).symm

theorem completion_isSome (completion : Completion) :
    completion.native.isSome = completionWellFormed completion := by
  cases completion with
  | result order timeUnixNano resultValue =>
    exact Option.isSome_map.trans (ClrValues.native_isSome resultValue)
  | empty | abandoned => rfl
  | error order timeUnixNano name errorValue =>
    unfold Completion.native completionWellFormed
    dsimp only
    rw [isSome_bind _ fun _ => Option.isSome_map.trans (payload_isSome errorValue),
      ClrValues.text_isSome]
  | fault order timeUnixNano faultType message observer =>
    unfold Completion.native completionWellFormed
    dsimp only
    rw [isSome_bind _ fun _ => isSome_bind _ fun _ =>
      Option.isSome_map.trans (ClrValues.text_isSome observer), ClrValues.text_isSome,
      ClrValues.text_isSome]

theorem optional_isSome (completion : Option Completion) :
    (nativeCompletion completion).isSome = completion.all completionWellFormed := by
  cases completion with
  | none => rfl
  | some completion => exact Option.isSome_map.trans (completion_isSome completion)

theorem observation_isSome (observation : Observation) :
    observation.native.isSome = observationWellFormed observation := by
  unfold Observation.native observationWellFormed
  rw [isSome_bind _ fun _ => Option.isSome_map.trans (ClrValues.native_isSome _),
    ClrValues.text_isSome]

theorem operation_isSome (operation : OperationSpan) :
    operation.native.isSome = operationWellFormed operation := by
  unfold OperationSpan.native operationWellFormed
  rw [isSome_bind _ fun _ => isSome_bind _ fun _ => isSome_bind _ fun _ => isSome_bind _ fun _ =>
    Option.isSome_map.trans (optional_isSome operation.operationCompletion),
    ClrValues.text_isSome, ClrValues.text_isSome, ClrValues.nativeEntries_isSome,
    collect_isSome observation_isSome]

/-- A capture has a counterpart exactly when its texts are texts. -/
theorem native_isSome (capture : Capture) : capture.native.isSome = wellFormed capture := by
  unfold Capture.native wellFormed
  rw [isSome_bind _ fun _ => Option.isSome_map.trans (collect_isSome operation_isSome),
    ClrValues.text_isSome]

/-- Lists of counterparts agree in what is asked of each item. -/
theorem all_collect {α β : Type} {image : α → Option β} {accepts : α → Bool}
    {accepted : β → Bool} {items : List α} {images : List β}
    (himages : Collecting.collect image items = some images)
    (h : ∀ item ∈ items, ∀ found, image item = some found → accepted found = accepts item) :
    images.all accepted = items.all accepts := by
  induction items generalizing images with
  | nil =>
    obtain rfl := Option.some.inj himages
    rfl
  | cons item rest ih =>
    obtain ⟨found, hfound, himages⟩ := Option.bind_eq_some_iff.mp himages
    obtain ⟨others, hothers, rfl⟩ := Option.map_eq_some_iff.mp himages
    have hrest := ih hothers fun other hmem => h other (List.mem_cons_of_mem _ hmem)
    rw [List.all_cons, List.all_cons, h item List.mem_cons_self found hfound, hrest]

theorem depth_collect {α β : Type} {image : α → Option β} {nesting : α → Nat} {json : β → Json}
    {items : List α} {images : List β} (himages : Collecting.collect image items = some images)
    (h : ∀ item ∈ items, ∀ found, image item = some found → (json found).depth = nesting item) :
    Json.depthAll (images.map json) = deepest nesting items := by
  induction items generalizing images with
  | nil =>
    obtain rfl := Option.some.inj himages
    rfl
  | cons item rest ih =>
    obtain ⟨found, hfound, himages⟩ := Option.bind_eq_some_iff.mp himages
    obtain ⟨others, hothers, rfl⟩ := Option.map_eq_some_iff.mp himages
    have hrest := ih hothers fun other hmem => h other (List.mem_cons_of_mem _ hmem)
    rw [List.map_cons, Json.depthAll, h item List.mem_cons_self found hfound, hrest]
    rfl

theorem forall_collect {α β : Type} {image : α → Option β} {items : List α} {images : List β}
    {P : β → Prop} (himages : Collecting.collect image items = some images)
    (h : ∀ item ∈ items, ∀ found, image item = some found → P found) : ∀ found ∈ images, P found := by
  induction items generalizing images with
  | nil =>
    obtain rfl := Option.some.inj himages
    intro found hmem
    cases hmem
  | cons item rest ih =>
    obtain ⟨first, hfirst, himages⟩ := Option.bind_eq_some_iff.mp himages
    obtain ⟨others, hothers, rfl⟩ := Option.map_eq_some_iff.mp himages
    intro found hmem
    rcases List.mem_cons.mp hmem with rfl | hrest
    · exact h item List.mem_cons_self found hfirst
    · exact ih hothers (fun other hother => h other (List.mem_cons_of_mem _ hother)) found hrest

/-! ### Observations and completions -/

section Parts

variable {observation : Observation} {foundObservation : CaptureSession.Observation NativeValue}

theorem observation_finite (h : observation.native = some foundObservation) :
    SidecarValues.finite foundObservation.value =
      ClrValues.finite observation.observedValue := by
  obtain ⟨name, -, h⟩ := Option.bind_eq_some_iff.mp h
  obtain ⟨value, hvalue, rfl⟩ := Option.map_eq_some_iff.mp h
  exact ClrValues.finite_native hvalue

theorem observation_depth (h : observation.native = some foundObservation) :
    (observationJson foundObservation).depth =
      ClrValues.nesting observation.observedValue + 1 := by
  obtain ⟨name, -, h⟩ := Option.bind_eq_some_iff.mp h
  obtain ⟨value, hvalue, rfl⟩ := Option.map_eq_some_iff.mp h
  rw [← ClrValues.depth_native hvalue]
  have hdepth : (observationJson ⟨observation.order.toNat, observation.timeUnixNano.toInt, name,
      value⟩).depth = max 0 (max 0 (max 0 (max (writeValue value).depth 0))) + 1 := rfl
  rw [hdepth]
  simp only [Nat.max_zero, Nat.zero_max]

theorem orderInRange_toNat (order : UInt64) : orderInRange order.toNat := order.toNat_lt

theorem timeInRange_toInt (time : Int64) : timeInRange time.toInt := ⟨time.le_toInt, time.toInt_lt⟩

theorem observation_formed (h : observation.native = some foundObservation)
    (hordered : ClrValues.Ordered observation.observedValue) :
    ObservationFormed foundObservation := by
  obtain ⟨name, -, h⟩ := Option.bind_eq_some_iff.mp h
  obtain ⟨value, hvalue, rfl⟩ := Option.map_eq_some_iff.mp h
  exact ⟨orderInRange_toNat _, timeInRange_toInt _, ClrValues.ordered_native hordered hvalue⟩

variable {completion : Completion} {foundCompletion : CaptureSession.Completion NativeValue}

/-- The reader accepts a completion whose error has a payload and whose numbers are finite. -/
theorem completion_readable (h : completion.native = some foundCompletion) :
    completionReadable foundCompletion = (completionFinite completion && hasPayload completion) := by
  cases completion with
  | result order timeUnixNano resultValue =>
    obtain ⟨value, hvalue, rfl⟩ := Option.map_eq_some_iff.mp h
    exact (ClrValues.finite_native hvalue).trans (Bool.and_true _).symm
  | empty | abandoned =>
    obtain rfl := Option.some.inj h
    rfl
  | error order timeUnixNano name errorValue =>
    obtain ⟨content, -, h⟩ := Option.bind_eq_some_iff.mp h
    obtain ⟨payload, hpayload, rfl⟩ := Option.map_eq_some_iff.mp h
    cases errorValue with
    | none =>
      obtain rfl := Option.some.inj hpayload
      rfl
    | some value =>
      obtain ⟨found, hfound, rfl⟩ := Option.map_eq_some_iff.mp hpayload
      exact (ClrValues.finite_native hfound).trans (Bool.and_true _).symm
  | fault order timeUnixNano faultType message observer =>
    obtain ⟨_, -, h⟩ := Option.bind_eq_some_iff.mp h
    obtain ⟨_, -, h⟩ := Option.bind_eq_some_iff.mp h
    obtain ⟨_, -, rfl⟩ := Option.map_eq_some_iff.mp h
    rfl

theorem depth_stamped (kind : String) (order : Nat) (timeNs : Int)
    (rest : List (String × Json)) :
    (Json.object (stamped kind order timeNs rest)).depth = Json.depthEntries rest + 1 := by
  have hdepth : (Json.object (stamped kind order timeNs rest)).depth =
      max 0 (max 0 (max 0 (Json.depthEntries rest))) + 1 := rfl
  rw [hdepth]
  simp only [Nat.zero_max]

theorem completion_depth {completion : Option Completion}
    {found : Option (CaptureSession.Completion NativeValue)}
    (h : nativeCompletion completion = some found) :
    (optionalCompletion found).depth = completionNesting completion := by
  cases completion with
  | none =>
    obtain rfl := Option.some.inj h
    rfl
  | some completion =>
    obtain ⟨found, hfound, rfl⟩ := Option.map_eq_some_iff.mp h
    have hsingle : ∀ value : NativeValue,
        Json.depthEntries [("value", writeValue value)] = (writeValue value).depth :=
      fun value => Nat.max_zero _
    cases completion with
    | result order timeUnixNano resultValue =>
      obtain ⟨value, hvalue, rfl⟩ := Option.map_eq_some_iff.mp hfound
      change (Json.object (stamped _ _ _ _)).depth = _
      rw [depth_stamped, hsingle, ClrValues.depth_native hvalue]
      rfl
    | empty | abandoned =>
      obtain rfl := Option.some.inj hfound
      exact depth_stamped _ _ _ []
    | error order timeUnixNano name errorValue =>
      obtain ⟨content, -, hfound⟩ := Option.bind_eq_some_iff.mp hfound
      obtain ⟨payload, hpayload, rfl⟩ := Option.map_eq_some_iff.mp hfound
      change (Json.object (stamped _ _ _ _)).depth = _
      rw [depth_stamped]
      cases errorValue with
      | none =>
        obtain rfl := Option.some.inj hpayload
        rfl
      | some value =>
        obtain ⟨found, hvalue, rfl⟩ := Option.map_eq_some_iff.mp hpayload
        have hfields : Json.depthEntries (("name", .string content) :: payloadFields (some found)) =
            max 0 (Json.depthEntries [("value", writeValue found)]) := rfl
        rw [hfields, Nat.zero_max, hsingle, ClrValues.depth_native hvalue]
        rfl
    | fault order timeUnixNano faultType message observer =>
      obtain ⟨_, -, hfound⟩ := Option.bind_eq_some_iff.mp hfound
      obtain ⟨_, -, hfound⟩ := Option.bind_eq_some_iff.mp hfound
      obtain ⟨_, -, rfl⟩ := Option.map_eq_some_iff.mp hfound
      exact depth_stamped _ _ _ _

theorem completion_formed (h : completion.native = some foundCompletion)
    (hordered : completionOrdered completion) : CompletionFormed foundCompletion := by
  cases completion with
  | result order timeUnixNano resultValue =>
    obtain ⟨value, hvalue, rfl⟩ := Option.map_eq_some_iff.mp h
    exact ⟨orderInRange_toNat _, timeInRange_toInt _, ClrValues.ordered_native hordered hvalue⟩
  | empty | abandoned =>
    obtain rfl := Option.some.inj h
    exact ⟨orderInRange_toNat _, timeInRange_toInt _⟩
  | error order timeUnixNano name errorValue =>
    obtain ⟨content, -, h⟩ := Option.bind_eq_some_iff.mp h
    obtain ⟨payload, hpayload, rfl⟩ := Option.map_eq_some_iff.mp h
    refine ⟨orderInRange_toNat _, timeInRange_toInt _, fun found hfound => ?_⟩
    cases errorValue with
    | none =>
      obtain rfl := Option.some.inj hpayload
      cases hfound
    | some value =>
      obtain ⟨other, hvalue, rfl⟩ := Option.map_eq_some_iff.mp hpayload
      obtain rfl := Option.some.inj hfound
      exact ClrValues.ordered_native (hordered value rfl) hvalue
  | fault order timeUnixNano faultType message observer =>
    obtain ⟨_, -, h⟩ := Option.bind_eq_some_iff.mp h
    obtain ⟨_, -, h⟩ := Option.bind_eq_some_iff.mp h
    obtain ⟨_, -, rfl⟩ := Option.map_eq_some_iff.mp h
    exact ⟨orderInRange_toNat _, timeInRange_toInt _⟩

end Parts

/-! ### Operations and captures -/

section Whole

variable {operation : OperationSpan} {foundOperation : CaptureSession.OperationSpan NativeValue}

theorem operation_readable (h : operation.native = some foundOperation) :
    operationReadable foundOperation =
      (operationFinite operation && operation.operationCompletion.all hasPayload) := by
  obtain ⟨componentId, -, h⟩ := Option.bind_eq_some_iff.mp h
  obtain ⟨operationName, -, h⟩ := Option.bind_eq_some_iff.mp h
  obtain ⟨inputs, hinputs, h⟩ := Option.bind_eq_some_iff.mp h
  obtain ⟨observations, hobservations, h⟩ := Option.bind_eq_some_iff.mp h
  obtain ⟨completion, hcompletion, rfl⟩ := Option.map_eq_some_iff.mp h
  have hall : observations.all (finite ·.value) =
      operation.observations.all (ClrValues.finite ·.observedValue) :=
    all_collect hobservations fun _ _ _ hfound => observation_finite hfound
  have hdone : completion.all completionReadable =
      (operation.operationCompletion.all completionFinite &&
        operation.operationCompletion.all hasPayload) := by
    cases hpresent : operation.operationCompletion with
    | none =>
      rw [hpresent] at hcompletion
      obtain rfl := Option.some.inj hcompletion
      rfl
    | some present =>
      rw [hpresent] at hcompletion
      obtain ⟨found, hfound, rfl⟩ := Option.map_eq_some_iff.mp hcompletion
      exact completion_readable hfound
  unfold operationReadable operationFinite
  rw [ClrValues.entriesFinite_native hinputs, hall, hdone, Bool.and_assoc, Bool.and_assoc,
    Bool.and_assoc]

theorem operation_depth (h : operation.native = some foundOperation) :
    (operationJson foundOperation).depth = operationNesting operation := by
  obtain ⟨componentId, -, h⟩ := Option.bind_eq_some_iff.mp h
  obtain ⟨operationName, -, h⟩ := Option.bind_eq_some_iff.mp h
  obtain ⟨inputs, hinputs, h⟩ := Option.bind_eq_some_iff.mp h
  obtain ⟨observations, hobservations, h⟩ := Option.bind_eq_some_iff.mp h
  obtain ⟨completion, hcompletion, rfl⟩ := Option.map_eq_some_iff.mp h
  have hall := @depth_collect _ _ _
    (fun observation => ClrValues.nesting observation.observedValue + 1) observationJson _ _
    hobservations fun _ _ _ hfound => observation_depth hfound
  unfold operationJson operationFields operationNesting integerJson
  simp only [Json.depth, Json.depthEntries, Nat.zero_max, Nat.max_zero]
  rw [ClrValues.depth_nativeEntries hinputs, hall, completion_depth hcompletion]

theorem operation_formed (h : operation.native = some foundOperation)
    (hordered : OperationOrdered operation) : OperationFormed foundOperation := by
  obtain ⟨componentId, -, h⟩ := Option.bind_eq_some_iff.mp h
  obtain ⟨operationName, -, h⟩ := Option.bind_eq_some_iff.mp h
  obtain ⟨inputs, hinputs, h⟩ := Option.bind_eq_some_iff.mp h
  obtain ⟨observations, hobservations, h⟩ := Option.bind_eq_some_iff.mp h
  obtain ⟨completion, hcompletion, rfl⟩ := Option.map_eq_some_iff.mp h
  refine {
      order := orderInRange_toNat _
      start := timeInRange_toInt _
      stop := timeInRange_toInt _
      sorted := ClrValues.sorted_native hordered.keys hinputs
      inputs := ClrValues.ordered_nativeEntries hordered.inputs hinputs
      observations := forall_collect hobservations fun item hmem _ hfound =>
        observation_formed hfound (hordered.observations item hmem)
      completion := fun found hfound => ?_ }
  cases hpresent : operation.operationCompletion with
  | none =>
    rw [hpresent] at hcompletion
    obtain rfl := Option.some.inj hcompletion
    cases hfound
  | some present =>
    rw [hpresent] at hcompletion
    obtain ⟨other, hother, rfl⟩ := Option.map_eq_some_iff.mp hcompletion
    obtain rfl := Option.some.inj hfound
    exact completion_formed hother (hordered.completion present hpresent)

variable {capture : Capture} {found : CaptureSession.Capture NativeValue}

theorem capture_readable (h : capture.native = some found) :
    readable found = (allFinite capture && allPayloads capture) := by
  obtain ⟨scenarioName, -, h⟩ := Option.bind_eq_some_iff.mp h
  obtain ⟨operations, hoperations, rfl⟩ := Option.map_eq_some_iff.mp h
  have hall : operations.all operationReadable = capture.operations.all fun operation =>
      operationFinite operation && operation.operationCompletion.all hasPayload :=
    all_collect hoperations fun _ _ _ hfound => operation_readable hfound
  unfold readable allFinite allPayloads
  rw [hall, Bool.eq_iff_iff]
  simp only [List.all_eq_true, Bool.and_eq_true]
  exact ⟨fun hboth => ⟨fun item hmem => (hboth item hmem).1, fun item hmem => (hboth item hmem).2⟩,
    fun hboth item hmem => ⟨hboth.1 item hmem, hboth.2 item hmem⟩⟩

theorem capture_depth (h : capture.native = some found) :
    (document found).depth = nesting capture := by
  obtain ⟨scenarioName, -, h⟩ := Option.bind_eq_some_iff.mp h
  obtain ⟨operations, hoperations, rfl⟩ := Option.map_eq_some_iff.mp h
  have hall := @depth_collect _ _ _ operationNesting operationJson _ _ hoperations
    fun _ _ _ hfound => operation_depth hfound
  have hboundary : ∀ boundary : CaptureSession.SpanBoundary,
      (Json.object (boundaryFields boundary)).depth = 1 := by
    intro boundary
    obtain ⟨spanId, parentId, startNs, endNs, status⟩ := boundary
    cases parentId <;> rfl
  unfold document captureFields nesting
  rw [Json.depth]
  simp only [Json.depthEntries, hboundary]
  simp only [Json.depth, Nat.zero_max, Nat.max_zero, hall]
  omega

theorem capture_formed (h : capture.native = some found) (hordered : Ordered capture) :
    Formed found := by
  obtain ⟨scenarioName, -, h⟩ := Option.bind_eq_some_iff.mp h
  obtain ⟨operations, hoperations, rfl⟩ := Option.map_eq_some_iff.mp h
  exact {
    run := ⟨timeInRange_toInt _, timeInRange_toInt _⟩
    scenario := ⟨timeInRange_toInt _, timeInRange_toInt _⟩
    operations := forall_collect hoperations fun item hmem _ hfound =>
      operation_formed hfound (hordered item hmem) }

end Whole

/-! ### Sidecars -/

/-- The text of the capture is a JSON document, and the reader makes of it the capture with
the same content. -/
def Faithful (shortest : FiniteF64 → String) (nearest : Bool → ℚ → Option FiniteF64)
    (rounded : Int → UInt64) (parse : String → Option Json) (capture : Capture) : Prop :=
  ∃ text found, serialize shortest capture = some text ∧
    (∃ json, TextOf nearest json text.toList) ∧ capture.native = some found ∧
      (parse text).bind (readCapture rounded) = some found

section Reading

variable {shortest : FiniteF64 → String} {nearest : Bool → ℚ → Option FiniteF64}
  {rounded : Int → UInt64} {parse : String → Option Json} {capture : Capture}

/-- The reader takes the capture back, unless something in it stops the reader. -/
theorem read_serialized (hparse : Reads nearest parse) (hordered : Ordered capture)
    (hfloats : ∀ number ∈ capture.floats, RoundTrips shortest nearest number)
    {found : CaptureSession.Capture NativeValue} (hnative : capture.native = some found)
    {text : String} (htext : serialize shortest capture = some text) :
    (parse text).bind (readCapture rounded) =
      if nesting capture < Json.recursionLimit then
        if allFinite capture && allPayloads capture then some found else none
      else none := by
  obtain ⟨spelled, hspelled, hdocument⟩ := serialize_spells hnative hfloats
  obtain rfl := Option.some.inj (htext.symm.trans hspelled)
  have hback := readCapture_document rounded (capture_formed hnative hordered)
  rw [capture_readable hnative] at hback
  rw [hparse _ _ hdocument]
  unfold Json.readBack
  rw [capture_depth hnative]
  by_cases hdepth : nesting capture < Json.recursionLimit
  · rw [if_pos hdepth, if_pos hdepth, Option.bind_some, hback]
  · rw [if_neg hdepth, if_neg hdepth, Option.bind_none]

/-- What a capture has to be for its sidecar to be read. -/
structure Legible (capture : Capture) : Prop where
  wellFormed : wellFormed capture = true
  finite : allFinite capture = true
  payloads : allPayloads capture = true
  nesting : nesting capture < Json.recursionLimit

theorem Faithful.legible (hparse : Reads nearest parse) (hordered : Ordered capture)
    (hfloats : ∀ number ∈ capture.floats, RoundTrips shortest nearest number)
    (h : Faithful shortest nearest rounded parse capture) : Legible capture := by
  obtain ⟨text, found, htext, -, hnative, hfound⟩ := h
  rw [read_serialized hparse hordered hfloats hnative htext] at hfound
  by_cases hdepth : WrittenCaptures.nesting capture < Json.recursionLimit
  · rw [if_pos hdepth] at hfound
    by_cases hreadable : (allFinite capture && allPayloads capture) = true
    · have hparts := Bool.and_eq_true_iff.mp hreadable
      refine ⟨?_, hparts.1, hparts.2, hdepth⟩
      rw [← native_isSome, hnative, Option.isSome_some]
    · rw [if_neg hreadable] at hfound
      cases hfound
  · rw [if_neg hdepth] at hfound
    cases hfound

theorem Legible.faithful (hparse : Reads nearest parse) (hordered : Ordered capture)
    (hfloats : ∀ number ∈ capture.floats, RoundTrips shortest nearest number)
    (h : Legible capture) : Faithful shortest nearest rounded parse capture := by
  have hformed := h.wellFormed
  rw [← native_isSome] at hformed
  obtain ⟨found, hnative⟩ := Option.isSome_iff_exists.mp hformed
  obtain ⟨text, htext, hdocument⟩ := serialize_spells hnative hfloats
  refine ⟨text, found, htext, ⟨_, hdocument⟩, hnative, ?_⟩
  rw [read_serialized hparse hordered hfloats hnative htext, if_pos h.nesting, h.finite,
    h.payloads]
  rfl

/-- A sidecar is read as the capture that was written exactly when the texts of the capture
are texts, its numbers are finite, its declared errors carry values, and its containers stay
within the limit of the reader. -/
theorem sidecar_faithful_iff (hparse : Reads nearest parse) (hordered : Ordered capture)
    (hfloats : ∀ number ∈ capture.floats, RoundTrips shortest nearest number) :
    Faithful shortest nearest rounded parse capture ↔ Legible capture :=
  ⟨Faithful.legible hparse hordered hfloats, Legible.faithful hparse hordered hfloats⟩

end Reading

/-! ### Two operations -/

theorem runId_valid :
    CaptureSession.validHexId "1111111111111101" CaptureSession.spanHexLen = true := by decide

theorem traceId_valid : CaptureSession.validHexId "11111111111111111111111111111111" 32 = true := by
  decide

def runId : CaptureSession.SpanId := ⟨"1111111111111101", runId_valid⟩

def boundary (parent : Option CaptureSession.SpanId) : SpanBoundary where
  spanId := runId
  parentSpanId := parent
  startTimeUnixNano := 1
  endTimeUnixNano := 9
  status := .ok

/-- A capture of one operation. -/
def single (status : CaptureSession.Status) (completion : Completion) : Capture where
  traceId := ⟨"11111111111111111111111111111111", traceId_valid⟩
  scenarioName := literal "ratio"
  run := boundary none
  scenario := boundary (some runId)
  operations := [{
    order := 0
    spanId := runId
    parentSpanId := runId
    componentId := literal "numbers"
    operationName := literal "divide"
    startTimeUnixNano := 2
    endTimeUnixNano := 5
    status := status
    inputs := []
    observations := []
    operationCompletion := some completion }]

theorem single_ordered {status : CaptureSession.Status} {completion : Completion}
    (h : completionOrdered completion) : Ordered (single status completion) := by
  intro operation hmem
  obtain rfl := List.mem_singleton.mp hmem
  exact {
    keys := List.Pairwise.nil
    inputs := trivial
    observations := fun _ hobservation => nomatch hobservation
    completion := fun _ hpresent => Option.some.inj hpresent ▸ h }

/-- One half, as the platform writes it and as it is read. -/
def half : FiniteF64 := ⟨0x3FE0000000000000, by norm_num, by norm_num⟩

def shortestHalf (_ : FiniteF64) : String := "0.5"

def nearestHalf (negative : Bool) (value : ℚ) : Option FiniteF64 :=
  if negative = false ∧ value = 1 / 2 then some half else none

/-- The platform's text of one half. -/
def halfText : RoundTripText where
  whole := ['0']
  fraction := ['5']
  exponent := none
  whole_digits := fun c hc => by rw [List.mem_singleton.mp hc]; rfl
  fraction_digits := fun c hc => by rw [List.mem_singleton.mp hc]; rfl
  exponent_digits := fun _ h => nomatch h
  positive := by decide

theorem halfText_value : halfText.value = 1 / 2 := by
  have hdigits : Nat.ofDigitChars 10 ['0', '5'] 0 = 5 := by decide
  change valueOf ['0', '5'] (0 - 1) = 1 / 2
  unfold valueOf
  rw [hdigits]
  norm_num

theorem half_roundTrips : RoundTrips shortestHalf nearestHalf half where
  zero := fun h => by
    have hnonzero : isZero half = false := by decide
    rw [hnonzero] at h
    cases h
  nonzero := fun _ => by
    refine ⟨halfText, rfl, ?_⟩
    have hsign : isNegative half = false := by decide
    unfold nearestHalf
    exact if_pos ⟨hsign, halfText_value⟩

def ratio : Capture := single .ok (.result 1 3 (.float 0x3FE0000000000000))

theorem ratio_floats : ratio.floats = [half] := rfl

theorem half_faithful :
    Faithful shortestHalf nearestHalf (fun _ => 0) (parse nearestHalf) ratio :=
  have hordered : Ordered ratio :=
    @single_ordered _ (.result 1 3 (.float 0x3FE0000000000000)) trivial
  have hfloats : ∀ number ∈ ratio.floats, RoundTrips shortestHalf nearestHalf number :=
    fun number hmem => by
      rw [ratio_floats, List.mem_singleton] at hmem
      exact hmem ▸ half_roundTrips
  (sidecar_faithful_iff parse_reads hordered hfloats).mpr
    { wellFormed := by decide +kernel, finite := by decide +kernel,
      payloads := by decide +kernel, nesting := by decide +kernel }

/-- A result that is not a number is written as null, which is no number to the reader; a
declared error without a payload is written without the field that the reader wants. -/
theorem unreadable_sidecars :
    ¬ Faithful shortestHalf nearestHalf (fun _ => 0) (parse nearestHalf)
      (single .ok (.result 1 3 (.float 0x7FF8000000000000))) ∧
    ¬ Faithful shortestHalf nearestHalf (fun _ => 0) (parse nearestHalf)
      (single .error (.error 1 3 (literal "error") none)) := by
  constructor
  · intro h
    have hlegible := h.legible parse_reads
      (@single_ordered _ (.result 1 3 (.float 0x7FF8000000000000)) trivial) fun _ hmem => nomatch hmem
    have hfinite := hlegible.finite
    revert hfinite
    decide +kernel
  · intro h
    have hlegible := h.legible parse_reads
      (@single_ordered _ (.error 1 3 (literal "error") none) fun _ hvalue => nomatch hvalue) fun _ hmem => nomatch hmem
    have hpayloads := hlegible.payloads
    revert hpayloads
    decide +kernel

end SpecGate.WrittenCaptures

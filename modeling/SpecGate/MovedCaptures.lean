import SpecGate.EncodedSpans

/-!
What the encoding of a capture does not depend on: the origin of its times and the names
of its operations. A time is placed by its distance from the start of the scenario, and an
operation gets its identity from its position.
-/
namespace SpecGate.MovedCaptures

open SortedAssoc Demands CaptureEncoding EncodedSpans
open CaptureSession (checkedAdd maxI64)

/-! ### Moved captures -/

def shiftObservation (shift : Int) (observation : Observation) : Observation :=
  { observation with timeNs := observation.timeNs + shift }

def shiftCompletion (shift : Int) : Completion → Completion
  | .result order timeNs value => .result order (timeNs + shift) value
  | .empty order timeNs => .empty order (timeNs + shift)
  | .error order timeNs name value => .error order (timeNs + shift) name value
  | .fault order timeNs faultType message observer =>
      .fault order (timeNs + shift) faultType message observer
  | .abandoned order timeNs => .abandoned order (timeNs + shift)

def shiftBoundary (shift : Int) (boundary : Boundary) : Boundary :=
  { boundary with startNs := boundary.startNs + shift, endNs := boundary.endNs + shift }

def moveOperation (shift : Int) (rename : String → String) (operation : Operation) : Operation :=
  { operation with
    spanId := rename operation.spanId
    parentId := rename operation.parentId
    startNs := operation.startNs + shift
    endNs := operation.endNs + shift
    observations := operation.observations.map (shiftObservation shift)
    completion := operation.completion.map (shiftCompletion shift) }

/-- All times of a capture shifted, and its operations renamed. -/
def moveCapture (shift : Int) (rename : String → String) (capture : Capture) : Capture :=
  { capture with
    run := shiftBoundary shift capture.run
    scenario := shiftBoundary shift capture.scenario
    operations := capture.operations.map (moveOperation shift rename) }

/-- The native span IDs that the operations of a capture may refer to. -/
def nativeIds (capture : Capture) : Set String :=
  {spanId | spanId = capture.scenario.spanId ∨ spanId ∈ capture.operations.map Operation.spanId}

/-- An injective renaming of operations; the scenario keeps its own ID. -/
structure Renames (rename : String → String) (capture : Capture) : Prop where
  scenario : rename capture.scenario.spanId = capture.scenario.spanId
  injective : Set.InjOn rename (nativeIds capture)

/-! ### Times -/

theorem checkedAdd_shift (time offset shift : Int) :
    checkedAdd (time + shift) (offset - shift) = checkedAdd time offset := by
  have hsum : time + shift + (offset - shift) = time + offset := by omega
  rw [checkedAdd, checkedAdd, hsum]

theorem offsetTime_shift (time offset shift : Int) :
    offsetTime (time + shift) (offset - shift) = offsetTime time offset := by
  rw [offsetTime, offsetTime, checkedAdd_shift]

theorem placeTime_shift (time offset shift : Int) :
    placeTime (offset - shift) (time + shift) = placeTime offset time := by
  rw [placeTime, placeTime, offsetTime_shift]

theorem collectOk_map {α β γ : Type} (f : β → Except Failure γ) (g : α → β) (values : List α) :
    collectOk f (values.map g) = collectOk (fun value => f (g value)) values := by
  induction values with
  | nil => rfl
  | cons value rest ih => rw [List.map_cons, collectOk, collectOk, ih]

theorem observationEvent_shift (offset shift : Int) (observation : Observation) :
    observationEvent (offset - shift) (shiftObservation shift observation) =
      observationEvent offset observation := by
  unfold observationEvent shiftObservation
  rw [placeTime_shift]

theorem completionEvent_shift (offset shift : Int) (completion : Completion) :
    completionEvent (offset - shift) (shiftCompletion shift completion) =
      completionEvent offset completion := by
  unfold completionEvent
  have htime : (shiftCompletion shift completion).timeNs = completion.timeNs + shift := by
    cases completion <;> rfl
  have horder : (shiftCompletion shift completion).order = completion.order := by
    cases completion <;> rfl
  have hname : (shiftCompletion shift completion).eventName = completion.eventName := by
    cases completion <;> rfl
  have hattributes : (shiftCompletion shift completion).attributes = completion.attributes := by
    cases completion <;> rfl
  rw [htime, placeTime_shift, horder, hname, hattributes]

theorem operationEvents_shift (offset shift : Int) (rename : String → String)
    (operation : Operation) :
    operationEvents (offset - shift) (moveOperation shift rename operation) =
      operationEvents offset operation := by
  unfold operationEvents moveOperation
  rw [collectOk_map, funext (observationEvent_shift offset shift)]
  cases operation.completion with
  | none => rfl
  | some completion => simp only [Option.map_some, Option.toList_some, collectOk,
      completionEvent_shift]

theorem operationSpan_shift (traceId : WireTraceId) (id parentId : WireSpanId) (offset shift : Int)
    (rename : String → String) (operation : Operation) :
    operationSpan traceId (moveOperation shift rename operation) ⟨id, parentId, offset - shift⟩ =
      operationSpan traceId operation ⟨id, parentId, offset⟩ := by
  unfold operationSpan
  rw [operationEvents_shift]
  simp only [moveOperation, placeTime_shift]

/-! ### Identities -/

section Identities

variable {capture : Capture} {rename : String → String} {ids ids' : List (String × WireSpanId)}

/-- The same identities under the new names. -/
def Renamed (rename : String → String) (capture : Capture) (ids ids' : List (String × WireSpanId)) :
    Prop :=
  ∀ spanId ∈ nativeIds capture, lookup ids' (rename spanId) = lookup ids spanId

theorem Renamed.insert (h : Renamed rename capture ids ids') (hrename : Renames rename capture)
    {spanId : String} (hspanId : spanId ∈ nativeIds capture) (id : WireSpanId) :
    Renamed rename capture (insert spanId id ids) (insert (rename spanId) id ids') := by
  intro other hother
  by_cases hsame : spanId = other
  · subst hsame
    rw [lookup_insert_self, lookup_insert_self]
  · have hne : rename spanId ≠ rename other := fun heq =>
      hsame (hrename.injective hspanId hother heq)
    rw [lookup_insert_of_ne hsame, lookup_insert_of_ne hne]
    exact h other hother

theorem assignIds_renamed (hrename : Renames rename capture) (shift : Int) {operations : List Operation}
    (hoperations : ∀ operation ∈ operations, operation.spanId ∈ nativeIds capture)
    (h : Renamed rename capture ids ids') {nextId next : Nat} {result : List (String × WireSpanId)}
    (hassigned : assignIds capture.scenarioName ids nextId operations = .ok (result, next)) :
    ∃ result', assignIds capture.scenarioName ids' nextId
      (operations.map (moveOperation shift rename)) = .ok (result', next) ∧
        Renamed rename capture result result' := by
  induction operations generalizing ids ids' nextId with
  | nil =>
    obtain ⟨rfl, rfl⟩ := Prod.mk.inj (Except.ok.inj hassigned)
    exact ⟨ids', rfl, h⟩
  | cons operation rest ih =>
    obtain ⟨id, hid, hassigned⟩ := bind_ok hassigned
    obtain ⟨following, hadvance, hassigned⟩ := bind_ok hassigned
    have hmem := hoperations operation List.mem_cons_self
    have hcontains : contains ids' (rename operation.spanId) = contains ids operation.spanId := by
      rw [SortedAssoc.contains, SortedAssoc.contains, h operation.spanId hmem]
    split_ifs at hassigned with hknown
    obtain ⟨result', hresult, hrenamed⟩ := ih
      (fun other hother => hoperations other (List.mem_cons_of_mem _ hother))
      (h.insert hrename hmem id) hassigned
    refine ⟨result', ?_, hrenamed⟩
    rw [List.map_cons, assignIds, hid]
    change (advanceId nextId >>= fun nextId => _) = _
    rw [hadvance]
    change (if contains ids' (rename operation.spanId) = true then _ else _) = _
    rw [hcontains, if_neg hknown]
    exact hresult

theorem parentSpan_renamed (hrename : Renames rename capture) (shift : Int)
    (h : Renamed rename capture ids ids')
    (hids : ∀ spanId ∈ SortedAssoc.keys ids, spanId ∈ nativeIds capture) {scenarioId : WireSpanId}
    {operation : Operation} {parentId : WireSpanId}
    (hparent : parentSpan capture scenarioId ids operation = .ok parentId) :
    parentSpan (moveCapture shift rename capture) scenarioId ids'
      (moveOperation shift rename operation) = .ok parentId := by
  unfold parentSpan at hparent ⊢
  by_cases hscenario : operation.parentId = capture.scenario.spanId
  · have hmoved : (moveOperation shift rename operation).parentId =
        (moveCapture shift rename capture).scenario.spanId := by
      change rename operation.parentId = capture.scenario.spanId
      rw [hscenario, hrename.scenario]
    rw [if_pos hscenario] at hparent
    rw [if_pos hmoved, hparent]
  · rw [if_neg hscenario] at hparent
    cases hlookup : lookup ids operation.parentId with
    | none =>
      rw [hlookup] at hparent
      cases hparent
    | some found =>
      have hmem : operation.parentId ∈ nativeIds capture :=
        hids _ (exists_lookup_iff.mp ⟨found, hlookup⟩)
      have hne : (moveOperation shift rename operation).parentId ≠
          (moveCapture shift rename capture).scenario.spanId := by
        intro heq
        apply hscenario
        apply hrename.injective hmem (.inl rfl)
        rw [hrename.scenario]
        exact heq
      have hfound : lookup ids' (moveOperation shift rename operation).parentId = some found := by
        rw [← hlookup]
        exact h _ hmem
      rw [if_neg hne, hfound]
      rw [hlookup] at hparent
      exact hparent

theorem encodeOperations_renamed (hrename : Renames rename capture) (shift : Int)
    (h : Renamed rename capture ids ids')
    (hids : ∀ spanId ∈ SortedAssoc.keys ids, spanId ∈ nativeIds capture) {identity : Identity}
    {scenarioId : WireSpanId} {offset : Int} {operations : List Operation}
    (hoperations : ∀ operation ∈ operations, operation.spanId ∈ nativeIds capture)
    {operationCount : Nat} {result : List Span × Nat}
    (hencoded : encodeOperations identity capture scenarioId ids offset operationCount operations =
      .ok result) :
    encodeOperations identity (moveCapture shift rename capture) scenarioId ids' (offset - shift)
      operationCount (operations.map (moveOperation shift rename)) = .ok result := by
  induction operations generalizing operationCount result with
  | nil => exact hencoded
  | cons operation rest ih =>
    obtain ⟨span, hspan, hencoded⟩ := bind_ok hencoded
    obtain ⟨_, hcount, hencoded⟩ := bind_ok hencoded
    obtain ⟨⟨others, total⟩, hrest, hencoded⟩ := bind_ok hencoded
    have hmoved : encodeOperation identity (moveCapture shift rename capture) scenarioId ids'
        (offset - shift) (moveOperation shift rename operation) = .ok span := by
      obtain ⟨id, hid, hspan⟩ := bind_ok hspan
      obtain ⟨parentId, hparent, hspan⟩ := bind_ok hspan
      have hlookup : lookup ids' (rename operation.spanId) = lookup ids operation.spanId :=
        h _ (hoperations operation List.mem_cons_self)
      have hid' : expect (lookup ids' (moveOperation shift rename operation).spanId)
          "every operation received a generated span ID in the preceding loop" = .ok id := by
        rw [← hid, ← hlookup]
        rfl
      unfold encodeOperation
      rw [hid', ← hspan, ← operationSpan_shift identity.traceId id parentId offset shift rename]
      change (parentSpan _ _ _ _ >>= fun parentId => _) = _
      rw [parentSpan_renamed hrename shift h hids hparent]
      rfl
    have hothers := ih (fun other hother => hoperations other (List.mem_cons_of_mem _ hother)) hrest
    rw [List.map_cons, encodeOperations, hmoved]
    change (report _ _ >>= fun _ => _) = _
    rw [hcount]
    change (encodeOperations _ _ _ _ _ _ _ >>= fun _ => _) = _
    rw [hothers]
    exact hencoded

end Identities

/-! ### Captures -/

section Captures

variable {identity : Identity} {runSpanId : WireSpanId} {capture : Capture}
variable {rename : String → String}

/-- The distance from the start of a scenario to a place on the timeline is a timestamp. -/
def placeable (time : Int) (capture : Capture) : Bool :=
  (checkedAdd time (-capture.scenario.startNs)).isSome

/-- What a scenario that is not placeable is rejected with. -/
def unplaceable : Failure := .error "CTSC scenario timestamp offset overflow"

/-- Where on the timeline the capture after some captures starts. -/
def timeAfter (captures : List Capture) : Int :=
  scenarioTime + (captures.map fun capture =>
    capture.scenario.endNs - capture.scenario.startNs + scenarioGapNs).sum

theorem scenarioOffset_moved {time offset : Int} (shift : Int) (rename : String → String)
    (h : scenarioOffset time capture.scenario.startNs = .ok offset) :
    scenarioOffset time (moveCapture shift rename capture).scenario.startNs =
      if placeable time (moveCapture shift rename capture) then .ok (offset - shift)
      else .error unplaceable := by
  have hstart : (moveCapture shift rename capture).scenario.startNs =
    capture.scenario.startNs + shift := rfl
  unfold scenarioOffset placeable at *
  rw [hstart]
  cases hadd : checkedAdd time (-capture.scenario.startNs) with
  | none =>
    rw [hadd] at h
    cases h
  | some found =>
    rw [hadd] at h
    obtain rfl := Except.ok.inj h
    cases hmoved : checkedAdd time (-(capture.scenario.startNs + shift)) with
    | none => rfl
    | some moved =>
      obtain ⟨rfl, -⟩ := checkedAdd_eq_some hadd
      obtain ⟨rfl, -⟩ := checkedAdd_eq_some hmoved
      have hsum : time + -(capture.scenario.startNs + shift) =
        time + -capture.scenario.startNs - shift := by omega
      rw [hsum]
      rfl

theorem encodeCapture_moved (hrename : Renames rename capture) (shift : Int) {index : Nat}
    {cursor : Cursor} {result : Group × Cursor}
    (hencoded : encodeCapture identity runSpanId index cursor capture = .ok result) :
    encodeCapture identity runSpanId index cursor (moveCapture shift rename capture) =
      if placeable cursor.nextTime (moveCapture shift rename capture) then .ok result
      else .error unplaceable := by
  obtain ⟨scenarioId, hscenarioId, hencoded⟩ := bind_ok hencoded
  obtain ⟨following, hadvance, hencoded⟩ := bind_ok hencoded
  obtain ⟨⟨ids, nextId⟩, hids, hencoded⟩ := bind_ok hencoded
  obtain ⟨offset, hoffset, hencoded⟩ := bind_ok hencoded
  obtain ⟨endTime, hendTime, hencoded⟩ := bind_ok hencoded
  obtain ⟨_, hindex, hencoded⟩ := bind_ok hencoded
  obtain ⟨startNs, hstartNs, hencoded⟩ := bind_ok hencoded
  obtain ⟨endNs, hendNs, hencoded⟩ := bind_ok hencoded
  obtain ⟨⟨spans, count⟩, hspans, hencoded⟩ := bind_ok hencoded
  have hoperations : ∀ operation ∈ capture.operations, operation.spanId ∈ nativeIds capture :=
    fun operation hmem => .inr (List.mem_map.mpr ⟨operation, hmem, rfl⟩)
  have hempty : Renamed rename capture [] [] := fun _ _ => rfl
  obtain ⟨ids', hids', hrenamed⟩ := assignIds_renamed hrename shift hoperations hempty hids
  have hknown : ∀ spanId ∈ SortedAssoc.keys ids, spanId ∈ nativeIds capture := by
    intro spanId hspanId
    rcases ((assignIds_ok hids).keys spanId).mp hspanId with hnil | hmem
    · cases hnil
    · exact .inr hmem
  unfold encodeCapture
  rw [hscenarioId]
  change (advanceId cursor.nextId >>= fun _ => _) = _
  rw [hadvance]
  change (assignIds capture.scenarioName [] following
    (capture.operations.map (moveOperation shift rename)) >>= fun _ => _) = _
  rw [hids']
  change (scenarioOffset cursor.nextTime (moveCapture shift rename capture).scenario.startNs >>=
    fun _ => _) = _
  rw [scenarioOffset_moved shift rename hoffset]
  by_cases hplace : placeable cursor.nextTime (moveCapture shift rename capture) = true
  · rw [if_pos hplace, if_pos hplace]
    change (offsetTime (capture.scenario.endNs + shift) (offset - shift) >>= fun _ => _) = _
    rw [offsetTime_shift, hendTime]
    change (report _ _ >>= fun _ => _) = _
    rw [hindex]
    change (unixNanos cursor.nextTime >>= fun _ => _) = _
    rw [hstartNs]
    change (unixNanos endTime >>= fun _ => _) = _
    rw [hendNs]
    change (encodeOperations _ _ _ _ _ _ (capture.operations.map _) >>= fun _ => _) = _
    rw [encodeOperations_renamed hrename shift hrenamed hknown hoperations hspans]
    exact hencoded
  · rw [if_neg hplace, if_neg hplace]
    rfl

theorem encodeCaptures_moved (hrename : Renames rename capture) (shift : Int)
    {before rest : List Capture} {index : Nat} {cursor : Cursor} {result : List Group × Cursor}
    (hencoded : encodeCaptures identity runSpanId index cursor (before ++ capture :: rest) =
      .ok result) :
    encodeCaptures identity runSpanId index cursor
        (before ++ moveCapture shift rename capture :: rest) =
      if placeable (cursor.nextTime + (timeAfter before - scenarioTime))
        (moveCapture shift rename capture) then .ok result else .error unplaceable := by
  induction before generalizing index cursor result with
  | nil =>
    obtain ⟨⟨group, next⟩, hgroup, hrest⟩ := bind_ok hencoded
    have hstart : cursor.nextTime + (timeAfter [] - scenarioTime) = cursor.nextTime := by
      simp [timeAfter]
    rw [hstart, List.nil_append, encodeCaptures, encodeCapture_moved hrename shift hgroup]
    split_ifs
    · exact hrest
    · rfl
  | cons first others ih =>
    obtain ⟨⟨group, next⟩, hgroup, hencoded⟩ := bind_ok hencoded
    obtain ⟨⟨groups, last⟩, hgroups, hresult⟩ := bind_ok hencoded
    obtain ⟨rfl, -⟩ := encodeCapture_ok hgroup
    have hstart : (after cursor first).nextTime + (timeAfter others - scenarioTime) =
        cursor.nextTime + (timeAfter (first :: others) - scenarioTime) := by
      simp only [timeAfter, EncodedSpans.after, endAt, offsetAt, List.map_cons, List.sum_cons]
      omega
    rw [List.cons_append, encodeCaptures, hgroup]
    change (encodeCaptures _ _ _ _ _ >>= fun _ => _) = _
    rw [ih hgroups, hstart]
    split_ifs
    · exact hresult
    · rfl

theorem encodeDocument_moved {before rest : List Capture} (hrename : Renames rename capture)
    (shift : Int) {metadata : Metadata} {result : Document × Nat}
    (hencoded : encodeDocument (before ++ capture :: rest) metadata identity = .ok result) :
    encodeDocument (before ++ moveCapture shift rename capture :: rest) metadata identity =
      if placeable (timeAfter before) (moveCapture shift rename capture) then .ok result
      else .error unplaceable := by
  obtain ⟨_, hnonempty, hencoded⟩ := bind_ok hencoded
  obtain ⟨runSpanId, hrun, hencoded⟩ := bind_ok hencoded
  obtain ⟨nextId, hadvance, hencoded⟩ := bind_ok hencoded
  obtain ⟨⟨groups, cursor⟩, hgroups, hencoded⟩ := bind_ok hencoded
  have herror : ((before ++ moveCapture shift rename capture :: rest).any fun capture =>
      decide (capture.scenario.status = .error)) =
      (before ++ capture :: rest).any fun capture => decide (capture.scenario.status = .error) := by
    simp only [List.any_append, List.any_cons]
    rfl
  have hlater : (before ++ moveCapture shift rename capture :: rest).isEmpty =
      (before ++ capture :: rest).isEmpty := by
    cases before <;> rfl
  have hstart : scenarioTime + (timeAfter before - scenarioTime) = timeAfter before := by omega
  unfold encodeDocument
  rw [herror, hlater, hnonempty]
  change (checkedId identity.firstId >>= fun _ => _) = _
  rw [hrun]
  change (advanceId identity.firstId >>= fun _ => _) = _
  rw [hadvance]
  change (encodeCaptures _ _ _ _ _ >>= fun _ => _) = _
  rw [encodeCaptures_moved hrename shift hgroups, hstart]
  split_ifs
  · exact hencoded
  · rfl

/-- Moving one capture and renaming its operations changes nothing in the encoding, as long
as its scenario can be placed on the timeline; otherwise the encoder rejects it. -/
theorem encode_moved (serialize : Document → Except String String) (metadata : Metadata)
    {before rest : List Capture} {encoding : Encoding} (hrename : Renames rename capture)
    (shift : Int)
    (hencoded : encode serialize (before ++ capture :: rest) metadata identity = .ok encoding) :
    encode serialize (before ++ moveCapture shift rename capture :: rest) metadata identity =
      if placeable (timeAfter before) (moveCapture shift rename capture) then .ok encoding
      else .error unplaceable := by
  obtain ⟨⟨document, operationCount⟩, hdocument, hencoded⟩ := bind_ok hencoded
  have hlength : (before ++ moveCapture shift rename capture :: rest).length =
      (before ++ capture :: rest).length := by
    simp
  unfold encode
  rw [hlength, encodeDocument_moved hrename shift hdocument]
  split_ifs
  · exact hencoded
  · rfl

end Captures

/-! ### A capture at the edge of the clock -/

/-- All times of a capture. -/
def times (capture : Capture) : List Int :=
  [capture.run.startNs, capture.run.endNs, capture.scenario.startNs, capture.scenario.endNs] ++
    capture.operations.flatMap fun operation =>
      [operation.startNs, operation.endNs] ++ operation.observations.map Observation.timeNs ++
        operation.completion.toList.map Completion.timeNs

/-- A time is a signed number of 64 bits. -/
def isTimestamp (time : Int) : Bool := (checkedAdd time 0).isSome

def instantOperation : Operation where
  order := 0
  spanId := "0000000000000003"
  parentId := "0000000000000002"
  componentId := "store"
  operationName := "read"
  startNs := 0
  endNs := 0
  status := .ok
  inputs := []
  observations := [⟨1, 0, "hits", .bool true⟩]
  completion := some (.empty 2 0)

/-- A capture that takes no time. -/
def instantCapture : Capture where
  traceId := "00000000000000000000000000000001"
  scenarioName := "reads"
  run := ⟨"0000000000000001", none, 0, 0, .ok⟩
  scenario := ⟨"0000000000000002", some "0000000000000001", 0, 0, .ok⟩
  operations := [instantOperation]

def instantMetadata : Metadata := ⟨"1", "example", "rust", ⟨"registry", "1", "sha256:digest"⟩⟩

def primed (spanId : String) : String :=
  if spanId = "0000000000000003" then "0000000000000007" else spanId

theorem primed_renames : Renames primed instantCapture where
  scenario := by decide
  injective := by
    intro first hfirst second hsecond heq
    simp only [nativeIds, instantCapture, instantOperation, List.map_cons, List.map_nil,
      List.mem_singleton, Set.mem_ofPred_eq] at hfirst hsecond
    rcases hfirst with rfl | rfl <;> rcases hsecond with rfl | rfl
    · rfl
    · exact absurd heq (by decide)
    · exact absurd heq (by decide)
    · rfl

theorem encode_moved_instant :
    ∃ encoding, encode (fun _ => .ok "") [instantCapture] instantMetadata .reference = .ok encoding ∧
      encode (fun _ => .ok "") ([] ++ moveCapture 5 primed instantCapture :: []) instantMetadata
        .reference = if placeable (timeAfter []) (moveCapture 5 primed instantCapture)
          then .ok encoding else .error unplaceable := by
  have hok : (encode (fun _ => .ok "") [instantCapture] instantMetadata
      .reference).toOption.isSome = true := by decide +kernel
  obtain ⟨encoding, hencode⟩ := exists_ok hok
  exact ⟨encoding, hencode, encode_moved _ _ primed_renames 5 hencode⟩

/-- A scenario that starts at the first timestamp cannot be placed after it. -/
theorem earliest_capture_rejected :
    ¬ ∀ (serialize : Document → Except String String) (metadata : Metadata) (identity : Identity)
      (before rest : List Capture) (capture : Capture) (encoding : Encoding)
      (rename : String → String) (shift : Int), Renames rename capture →
      (times (moveCapture shift rename capture)).all isTimestamp = true →
      encode serialize (before ++ capture :: rest) metadata identity = .ok encoding →
        encode serialize (before ++ moveCapture shift rename capture :: rest) metadata identity =
          .ok encoding := by
  intro h
  have hok : (encode (fun _ => .ok "") [instantCapture] instantMetadata
      .reference).toOption.isSome = true := by decide +kernel
  obtain ⟨encoding, hencode⟩ := exists_ok hok
  have hmoved := h _ _ _ [] [] instantCapture encoding primed (-maxI64 - 1) primed_renames
    (by decide +kernel) hencode
  have hfails : (encode (fun _ => .ok "") [moveCapture (-maxI64 - 1) primed instantCapture]
      instantMetadata .reference).toOption.isSome = false := by decide +kernel
  change encode _ [moveCapture (-maxI64 - 1) primed instantCapture] _ _ = _ at hmoved
  rw [hmoved] at hfails
  cases hfails

end SpecGate.MovedCaptures

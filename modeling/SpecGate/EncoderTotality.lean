import SpecGate.EncodedSpans

/-!
What the encoder asks of the captures, in the order in which it asks. Identities that run
out or repeat, parents that are not found and times out of range are reported. A time
that falls before zero on the shared timeline is not: there the encoder panics.
-/
namespace SpecGate.EncoderTotality

open SortedAssoc Demands CaptureEncoding EncodedSpans
open CaptureSession (hexText checkedAdd maxI64 maxU64)

/-! ### Demands -/

/-- A time of a capture has to be representable after the move, and must not be negative. -/
def timeDemands (offset time : Int) : List Demand :=
  [.reported (checkedAdd time offset).isSome, .assumed (decide (0 ≤ time + offset))]

/-- The times of an operation in the order in which they are placed. -/
def times (operation : Operation) : List Int :=
  operation.observations.map Observation.timeNs ++
    operation.completion.toList.map Completion.timeNs ++ [operation.startNs, operation.endNs]

/-- The parent is the scenario or an operation of the capture. -/
def hasParent (capture : Capture) (operation : Operation) : Bool :=
  decide (operation.parentId = capture.scenario.spanId) ||
    decide (operation.parentId ∈ capture.operations.map Operation.spanId)

def operationsDemands (capture : Capture) (offset : Int) (operationCount : Nat) :
    List Operation → List Demand
  | [] => []
  | operation :: rest =>
      .reported (hasParent capture operation) :: (times operation).flatMap (timeDemands offset) ++
        .reported (decide (operationCount + 1 ≤ maxUsize)) ::
          operationsDemands capture offset (operationCount + 1) rest

/-- There are identities for all spans of the capture, and its operations are told apart. -/
def identifiable (nextId : Nat) (capture : Capture) : Bool :=
  decide (nextId + 1 + capture.operations.length ≤ maxU64) &&
    decide (capture.operations.map Operation.spanId).Nodup

def captureDemands (index : Nat) (cursor : Cursor) (capture : Capture) : List Demand :=
  [.reported (decide (cursor.nextId + 1 ≤ maxU64)), .reported (identifiable cursor.nextId capture),
    .reported (checkedAdd cursor.nextTime (-capture.scenario.startNs)).isSome,
    .reported (checkedAdd capture.scenario.endNs (offsetAt cursor capture)).isSome,
    .reported (decide ((index : Int) ≤ maxI64)),
    .assumed (decide (0 ≤ endAt cursor capture))] ++
  operationsDemands capture (offsetAt cursor capture) cursor.operationCount capture.operations ++
  [.reported (checkedAdd (endAt cursor capture) scenarioGapNs).isSome]

def capturesDemands (index : Nat) (cursor : Cursor) : List Capture → List Demand
  | [] => []
  | capture :: rest =>
      captureDemands index cursor capture ++
        capturesDemands (index + 1) (after cursor capture) rest

def demands (captures : List Capture) (identity : Identity) : List Demand :=
  .reported (!captures.isEmpty) :: .reported (decide (identity.firstId + 1 ≤ maxU64)) ::
    capturesDemands 0 ⟨identity.firstId + 1, scenarioTime, 0⟩ captures

/-! ### Times -/

theorem advanceId_follows (nextId : Nat) :
    Follows [.reported (decide (nextId + 1 ≤ maxU64))] (advanceId nextId) := by
  unfold advanceId
  split_ifs with h
  · rw [decide_eq_true h]
    exact ⟨nextId + 1, rfl⟩
  · rw [decide_eq_false h]
    exact ⟨_, rfl⟩

theorem offsetTime_follows (value offset : Int) :
    Follows [.reported (checkedAdd value offset).isSome] (offsetTime value offset) := by
  unfold offsetTime
  cases checkedAdd value offset with
  | none => exact ⟨_, rfl⟩
  | some time => exact ⟨time, rfl⟩

theorem parseUnsigned_negSucc (limit n : Nat) :
    Decimal.parseUnsigned limit (toString (Int.negSucc n)) = none := by
  have hlist : (toString (Int.negSucc n)).toList = '-' :: (toString (n + 1)).toList := by
    show ("-" ++ toString (n + 1)).toList = _
    rw [String.toList_append]
    rfl
  unfold Decimal.parseUnsigned
  rw [hlist]
  rfl

theorem unixNanos_isSome {time : Int} (h : time ≤ maxI64) :
    (UnixNanos.new (toString time)).isSome = decide (0 ≤ time) := by
  unfold UnixNanos.new
  cases time with
  | ofNat n =>
    have hlt : n < maxU64 + 1 := by
      have hle : (n : Int) ≤ maxI64 := h
      unfold maxI64 at hle
      unfold maxU64
      omega
    have hparse := (Decimal.parse_toString hlt).2
    rw [dif_pos (show (Decimal.parseUnsigned (maxU64 + 1) (toString (Int.ofNat n))).isSome = true by
      show (Decimal.parseUnsigned (maxU64 + 1) (toString n)).isSome = true
      rw [hparse, Option.isSome_some])]
    simp
  | negSucc n =>
    rw [dif_neg (by rw [parseUnsigned_negSucc]; simp)]
    simp

theorem unixNanos_follows {time : Int} (h : time ≤ maxI64) :
    Follows [.assumed (decide (0 ≤ time))] (unixNanos time) := by
  unfold unixNanos
  rw [← unixNanos_isSome h]
  exact follows_expect _ _

theorem placeTime_follows (offset time : Int) :
    Follows (timeDemands offset time) (placeTime offset time) := by
  unfold placeTime
  refine (offsetTime_follows time offset).bind fun placed hplaced => ?_
  obtain ⟨rfl, hle⟩ := offsetTime_ok hplaced
  exact unixNanos_follows hle

/-! ### Operations -/

theorem operationEvents_follows (offset : Int) (operation : Operation) :
    Follows ((operation.observations.map Observation.timeNs ++
      operation.completion.toList.map Completion.timeNs).flatMap (timeDemands offset))
      (operationEvents offset operation) := by
  unfold operationEvents
  rw [List.flatMap_append, List.flatMap_map, List.flatMap_map]
  refine (follows_collectOk fun observation _ => ?_).bind fun observations _ =>
    (follows_collectOk fun completion _ => ?_).then_ok fun events _ => ⟨_, rfl⟩
  · exact (placeTime_follows offset observation.timeNs).then_ok fun timeNs _ => ⟨_, rfl⟩
  · exact (placeTime_follows offset completion.timeNs).then_ok fun timeNs _ => ⟨_, rfl⟩

theorem operationSpan_follows (traceId : WireTraceId) (operation : Operation)
    (placement : Placement) :
    Follows ((times operation).flatMap (timeDemands placement.offset))
      (operationSpan traceId operation placement) := by
  unfold times operationSpan
  rw [List.flatMap_append]
  refine (operationEvents_follows placement.offset operation).bind fun events _ => ?_
  refine (placeTime_follows placement.offset operation.startNs).bind fun startNs _ => ?_
  show Follows (timeDemands placement.offset operation.endNs ++ []) _
  rw [List.append_nil]
  exact (placeTime_follows placement.offset operation.endNs).then_ok fun endNs _ => ⟨_, rfl⟩

/-- The identities of a capture are those of its operations. -/
def Covers (ids : List (String × WireSpanId)) (capture : Capture) : Prop :=
  ∀ spanId, spanId ∈ keys ids ↔ spanId ∈ capture.operations.map Operation.spanId

theorem parentSpan_follows {ids : List (String × WireSpanId)} {capture : Capture}
    (hids : Covers ids capture) (scenarioId : WireSpanId) (operation : Operation) :
    Follows [.reported (hasParent capture operation)]
      (parentSpan capture scenarioId ids operation) := by
  unfold parentSpan hasParent
  by_cases hscenario : operation.parentId = capture.scenario.spanId
  · rw [if_pos hscenario, decide_eq_true hscenario, Bool.true_or]
    exact ⟨scenarioId, rfl⟩
  · rw [if_neg hscenario, decide_eq_false hscenario, Bool.false_or]
    by_cases hmem : operation.parentId ∈ capture.operations.map Operation.spanId
    · obtain ⟨parentId, hparent⟩ := exists_lookup_iff.mpr ((hids operation.parentId).mpr hmem)
      rw [decide_eq_true hmem, hparent]
      exact ⟨parentId, rfl⟩
    · have hnone := lookup_eq_none_iff.mpr (mt (hids operation.parentId).mp hmem)
      rw [decide_eq_false hmem, hnone]
      exact ⟨_, rfl⟩

theorem encodeOperation_follows {ids : List (String × WireSpanId)} {capture : Capture}
    (hids : Covers ids capture) (identity : Identity) (scenarioId : WireSpanId) (offset : Int)
    {operation : Operation} (hmem : operation ∈ capture.operations) :
    Follows (.reported (hasParent capture operation) ::
        (times operation).flatMap (timeDemands offset))
      (encodeOperation identity capture scenarioId ids offset operation) := by
  obtain ⟨id, hid⟩ := exists_lookup_iff.mpr
    ((hids operation.spanId).mpr (List.mem_map_of_mem hmem))
  unfold encodeOperation
  rw [hid]
  refine Follows.after rfl ?_
  exact (parentSpan_follows hids scenarioId operation).bind fun parentId _ =>
    operationSpan_follows identity.traceId operation ⟨id, parentId, offset⟩

theorem encodeOperations_follows {ids : List (String × WireSpanId)} {capture : Capture}
    (hids : Covers ids capture) (identity : Identity) (scenarioId : WireSpanId) (offset : Int)
    (operationCount : Nat) {operations : List Operation}
    (hmem : ∀ operation ∈ operations, operation ∈ capture.operations) :
    Follows (operationsDemands capture offset operationCount operations)
      (encodeOperations identity capture scenarioId ids offset operationCount operations) := by
  induction operations generalizing operationCount with
  | nil => exact follows_ok ([], operationCount)
  | cons operation rest ih =>
    unfold operationsDemands encodeOperations
    refine (encodeOperation_follows hids identity scenarioId offset
      (hmem operation List.mem_cons_self)).bind fun span _ => ?_
    refine (follows_report _ _).bind fun _ _ => ?_
    exact (ih (operationCount + 1) fun other hother =>
      hmem other (List.mem_cons_of_mem operation hother)).then_ok fun result _ => ⟨_, rfl⟩

/-! ### Captures -/

/-- There are numbers for all operations, and none has a span identity that is taken. -/
def Assignable (ids : List (String × WireSpanId)) (nextId : Nat) (operations : List Operation) :
    Prop :=
  nextId + operations.length ≤ maxU64 ∧ (operations.map Operation.spanId).Nodup ∧
    ∀ operation ∈ operations, operation.spanId ∉ keys ids

theorem assignable_cons {ids : List (String × WireSpanId)} {nextId : Nat} {operation : Operation}
    {rest : List Operation} (id : WireSpanId) :
    Assignable ids nextId (operation :: rest) ↔ nextId + 1 ≤ maxU64 ∧
      operation.spanId ∉ keys ids ∧
        Assignable (insert operation.spanId id ids) (nextId + 1) rest := by
  unfold Assignable
  rw [List.length_cons, List.map_cons, List.nodup_cons, List.forall_mem_cons]
  constructor
  · rintro ⟨hlength, ⟨hfresh, hdistinct⟩, htaken, hrest⟩
    refine ⟨by omega, htaken, by omega, hdistinct, fun other hother hmem => ?_⟩
    rcases mem_keys_insert.mp hmem with hsame | hmem
    · exact hfresh (hsame ▸ List.mem_map_of_mem hother)
    · exact hrest other hother hmem
  · rintro ⟨-, htaken, hlength, hdistinct, hrest⟩
    refine ⟨by omega, ⟨fun hmem => ?_, hdistinct⟩, htaken, fun other hother hmem => ?_⟩
    · obtain ⟨other, hother, hsame⟩ := List.mem_map.mp hmem
      exact hrest other hother (mem_keys_insert.mpr (.inl hsame))
    · exact hrest other hother (mem_keys_insert.mpr (.inr hmem))

theorem assignIds_cons {scenarioName : String} {ids : List (String × WireSpanId)} {nextId : Nat}
    {operation : Operation} {rest : List Operation} {id : WireSpanId}
    (hid : checkedId nextId = .ok id) :
    assignIds scenarioName ids nextId (operation :: rest) =
      if nextId + 1 ≤ maxU64 then
        if contains ids operation.spanId then
          .error (.error (duplicateId scenarioName operation.spanId))
        else assignIds scenarioName (insert operation.spanId id ids) (nextId + 1) rest
      else .error (.error "CTSC span ID sequence overflow") := by
  rw [assignIds, hid, advanceId]
  split_ifs <;> rfl

theorem assignIds_ends (scenarioName : String) (ids : List (String × WireSpanId)) {nextId : Nat}
    (operations : List Operation) (hpos : 0 < nextId) (hle : nextId ≤ maxU64) :
    (Assignable ids nextId operations →
      ∃ result, assignIds scenarioName ids nextId operations = .ok result) ∧
    (¬ Assignable ids nextId operations → ∃ diagnostic,
      assignIds scenarioName ids nextId operations = .error (.error diagnostic)) := by
  induction operations generalizing ids nextId with
  | nil =>
    have hassignable : Assignable ids nextId [] := ⟨hle, List.nodup_nil, by simp⟩
    exact ⟨fun _ => ⟨(ids, nextId), rfl⟩, fun hnot => absurd hassignable hnot⟩
  | cons operation rest ih =>
    obtain ⟨id, hid, -⟩ := checkedId_eq hpos hle
    rw [assignIds_cons hid, assignable_cons id, ← contains_iff]
    split_ifs with hnext hcontains
    · exact ⟨fun h => absurd hcontains h.2.1, fun _ => ⟨_, rfl⟩⟩
    · have hrest := ih (insert operation.spanId id ids) (Nat.succ_pos nextId) hnext
      exact ⟨fun h => hrest.1 h.2.2, fun hnot => hrest.2 fun h => hnot ⟨hnext, hcontains, h⟩⟩
    · exact ⟨fun h => absurd h.1 hnext, fun _ => ⟨_, rfl⟩⟩

theorem assignIds_follows {nextId : Nat} (hle : nextId + 1 ≤ maxU64) (capture : Capture) :
    Follows [.reported (identifiable nextId capture)]
      (assignIds capture.scenarioName [] (nextId + 1) capture.operations) := by
  obtain ⟨hok, herror⟩ :=
    assignIds_ends capture.scenarioName [] capture.operations (Nat.succ_pos nextId) hle
  have hiff : identifiable nextId capture = true ↔ Assignable [] (nextId + 1) capture.operations := by
    unfold identifiable Assignable
    rw [Bool.and_eq_true, decide_eq_true_eq, decide_eq_true_eq]
    simp
  by_cases h : Assignable [] (nextId + 1) capture.operations
  · rw [hiff.mpr h]
    exact hok h
  · rw [Bool.eq_false_iff.mpr (mt hiff.mp h)]
    exact herror h

theorem scenarioOffset_follows (nextTime startNs : Int) :
    Follows [.reported (checkedAdd nextTime (-startNs)).isSome] (scenarioOffset nextTime startNs) := by
  unfold scenarioOffset
  cases checkedAdd nextTime (-startNs) with
  | none => exact ⟨_, rfl⟩
  | some offset => exact ⟨offset, rfl⟩

theorem unixNanos_of_nonneg {time : Int} (hpos : 0 ≤ time) (hle : time ≤ maxI64) :
    ∃ placed, unixNanos time = .ok placed := by
  have h := unixNanos_follows hle
  rw [decide_eq_true hpos] at h
  exact h

/-- The next identity and the next time are in range. -/
structure InRange (cursor : Cursor) : Prop where
  pos : 0 < cursor.nextId
  nextId : cursor.nextId ≤ maxU64
  nonneg : 0 ≤ cursor.nextTime
  nextTime : cursor.nextTime ≤ maxI64

theorem covers_of_assigned {capture : Capture} {ids : List (String × WireSpanId)} {nextId next : Nat}
    (h : Assigned [] nextId capture.operations ids next) : Covers ids capture := by
  intro spanId
  rw [h.keys]
  simp

theorem encodeCapture_follows (identity : Identity) (runSpanId : WireSpanId) (index : Nat)
    {cursor : Cursor} (hcursor : InRange cursor) (capture : Capture) :
    Follows (captureDemands index cursor capture)
      (encodeCapture identity runSpanId index cursor capture) := by
  obtain ⟨scenarioId, hscenarioId, -⟩ := checkedId_eq hcursor.pos hcursor.nextId
  obtain ⟨startNs, hstartNs⟩ := unixNanos_of_nonneg hcursor.nonneg hcursor.nextTime
  unfold captureDemands encodeCapture
  refine Follows.after hscenarioId ?_
  rw [List.append_assoc]
  refine (advanceId_follows cursor.nextId).bind fun nextId hnextId => ?_
  obtain ⟨rfl, hle⟩ := advanceId_ok hnextId
  refine (assignIds_follows hle capture).bind fun ⟨ids, nextId⟩ hids => ?_
  refine (scenarioOffset_follows _ _).bind fun offset hoffset => ?_
  obtain rfl := scenarioOffset_ok hoffset
  refine (offsetTime_follows _ _).bind fun endTime hendTime => ?_
  obtain ⟨rfl, hendLe⟩ := offsetTime_ok hendTime
  refine (follows_report _ _).bind fun _ _ => Follows.after hstartNs ?_
  refine (unixNanos_follows hendLe).bind fun endNs _ => ?_
  refine (encodeOperations_follows (covers_of_assigned (assignIds_ok hids)) identity scenarioId
    (offsetAt cursor capture) cursor.operationCount fun _ h => h).bind fun ⟨operations, count⟩ _ => ?_
  exact (offsetTime_follows _ _).then_ok fun nextTime _ => ⟨_, rfl⟩

/-- Where a capture has been encoded, the next one finds identities and times in range. -/
theorem inRange_after {index : Nat} {cursor : Cursor} {capture : Capture}
    (hmet : ∀ demand ∈ captureDemands index cursor capture, demand.met = true) :
    InRange (after cursor capture) := by
  unfold captureDemands at hmet
  simp only [List.forall_mem_append, List.forall_mem_cons] at hmet
  obtain ⟨⟨⟨-, hidentifiable, -, -, -, hend, -⟩, -⟩, hnext, -⟩ := hmet
  have hids : (identifiable cursor.nextId capture) = true := hidentifiable
  unfold identifiable at hids
  rw [Bool.and_eq_true, decide_eq_true_eq] at hids
  have hnonneg : 0 ≤ endAt cursor capture := of_decide_eq_true hend
  obtain ⟨nextTime, hnextTime⟩ := Option.isSome_iff_exists.mp hnext
  obtain ⟨rfl, hle⟩ := checkedAdd_eq_some hnextTime
  refine ⟨?_, hids.1, ?_, hle⟩
  · show 0 < cursor.nextId + 1 + capture.operations.length
    omega
  · show 0 ≤ endAt cursor capture + scenarioGapNs
    unfold scenarioGapNs
    omega

theorem encodeCaptures_follows (identity : Identity) (runSpanId : WireSpanId) (index : Nat)
    {cursor : Cursor} (hcursor : InRange cursor) (captures : List Capture) :
    Follows (capturesDemands index cursor captures)
      (encodeCaptures identity runSpanId index cursor captures) ∧
    ∀ groups last, encodeCaptures identity runSpanId index cursor captures = .ok (groups, last) →
      InRange last := by
  induction captures generalizing index cursor with
  | nil =>
    refine ⟨follows_ok ([], cursor), fun groups last h => ?_⟩
    obtain ⟨-, rfl⟩ := Prod.mk.inj (Except.ok.inj h)
    exact hcursor
  | cons capture rest ih =>
    have hcapture := encodeCapture_follows identity runSpanId index hcursor capture
    have hafter : ∀ group next,
        encodeCapture identity runSpanId index cursor capture = .ok (group, next) →
          next = after cursor capture ∧ InRange next := by
      intro group next h
      obtain ⟨rfl, -⟩ := encodeCapture_ok h
      exact ⟨rfl, inRange_after (hcapture.ok_iff.mp ⟨_, h⟩)⟩
    unfold capturesDemands encodeCaptures
    constructor
    · refine hcapture.bind fun ⟨group, next⟩ h => ?_
      obtain ⟨rfl, hrange⟩ := hafter group next h
      exact (ih (index + 1) hrange).1.then_ok fun result _ => ⟨_, rfl⟩
    · intro groups last h
      obtain ⟨⟨group, next⟩, hgroup, h⟩ := bind_ok h
      obtain ⟨⟨others, final⟩, hothers, h⟩ := bind_ok h
      obtain ⟨-, rfl⟩ := Prod.mk.inj (Except.ok.inj h)
      exact (ih (index + 1) (hafter group next hgroup).2).2 others final hothers

/-! ### Documents -/

theorem encodeDocument_follows (captures : List Capture) (metadata : Metadata)
    (identity : Identity) :
    Follows (demands captures identity) (encodeDocument captures metadata identity) := by
  obtain ⟨runSpanId, hrunSpanId, -⟩ := checkedId_eq identity.positive identity.bounded
  unfold demands encodeDocument
  refine (follows_report _ _).bind fun _ _ => Follows.after hrunSpanId ?_
  refine (advanceId_follows identity.firstId).bind fun nextId hnextId => ?_
  obtain ⟨rfl, hle⟩ := advanceId_ok hnextId
  have hstart : InRange ⟨identity.firstId + 1, scenarioTime, 0⟩ :=
    ⟨Nat.succ_pos _, hle, show 0 ≤ scenarioTime by decide, show scenarioTime ≤ maxI64 by decide⟩
  obtain ⟨hfollows, hlast⟩ :=
    encodeCaptures_follows identity runSpanId 0 hstart captures
  refine hfollows.then_ok fun ⟨groups, cursor⟩ hgroups => ?_
  have hrange := hlast groups cursor hgroups
  obtain ⟨startNs, hstartNs⟩ := unixNanos_of_nonneg (show 0 ≤ runTime by decide) (by decide)
  obtain ⟨endNs, hendNs⟩ := unixNanos_of_nonneg hrange.nonneg hrange.nextTime
  dsimp only
  rw [hstartNs, hendNs]
  exact ⟨_, rfl⟩

/-- Serialization and the count of spans report what they do not accept. -/
theorem encode_panics_iff (serialize : Document → Except String String) (captures : List Capture)
    (metadata : Metadata) (identity : Identity) (message : String) :
    encode serialize captures metadata identity = .error (.panic message) ↔
      encodeDocument captures metadata identity = .error (.panic message) := by
  constructor
  · intro h
    rcases bind_panics h with hdocument | ⟨⟨document, operationCount⟩, -, h⟩
    · exact hdocument
    · rcases bind_panics h with hwrite | ⟨otlpJson, -, h⟩
      · unfold write at hwrite
        split at hwrite <;> cases hwrite
      · rcases bind_panics h with hreport | ⟨-, -, h⟩
        · exact absurd hreport (report_ne_panic _ _ _)
        · rcases bind_panics h with hreport | ⟨-, -, h⟩
          · exact absurd hreport (report_ne_panic _ _ _)
          · cases h
  · intro h
    unfold encode
    rw [h]
    rfl

/-- The encoder never panics exactly where the first demand that the captures do not meet,
if there is one, is not a time before zero. -/
theorem never_panics_iff (serialize : Document → Except String String) (captures : List Capture)
    (metadata : Metadata) (identity : Identity) :
    (∀ message, encode serialize captures metadata identity ≠ .error (.panic message)) ↔
      ∀ met, firstUnmet (demands captures identity) ≠ some (.assumed met) := by
  simp only [ne_eq, encode_panics_iff]
  exact (encodeDocument_follows captures metadata identity).not_panics_iff

def earlyOperation : Operation where
  order := 0
  spanId := "0000000000000003"
  parentId := "0000000000000002"
  componentId := "store"
  operationName := "read"
  startNs := 50
  endNs := 60
  status := .ok
  inputs := []
  observations := []
  completion := none

/-- A capture whose only operation has started before its scenario. -/
def earlyCapture : Capture where
  traceId := "00000000000000000000000000000001"
  scenarioName := "reads"
  run := ⟨"0000000000000001", none, 40, 120, .ok⟩
  scenario := ⟨"0000000000000002", some "0000000000000001", 100, 110, .ok⟩
  operations := [earlyOperation]

def someMetadata : Metadata := ⟨"1", "example", "rust", ⟨"registry", "1", "sha256:digest"⟩⟩

/-- The operation is moved to forty-eight nanoseconds before zero. -/
theorem early_operation_panics :
    ¬ ∀ (serialize : Document → Except String String) (captures : List Capture)
      (metadata : Metadata) (identity : Identity) (message : String),
      encode serialize captures metadata identity ≠ .error (.panic message) := by
  intro h
  have hfollows := encodeDocument_follows [earlyCapture] someMetadata .reference
  have hnever := hfollows.not_panics_iff.mp fun message hpanic =>
    h (fun _ => .ok "") _ _ _ message ((encode_panics_iff _ _ _ _ message).mpr hpanic)
  exact hnever false (by decide +kernel)

end SpecGate.EncoderTotality

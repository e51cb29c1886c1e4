import SpecGate.CaptureEncoding

/-!
What the encoder has done where it ends well: the identities it has given, the spans of
every operation and capture, and where it goes on.
-/
namespace SpecGate.EncodedSpans

open SortedAssoc Demands CaptureEncoding
open CaptureSession (hexText checkedAdd maxI64 maxU64)

/-! ### Identities and times -/

theorem validWireId_of_validHexId {text : String} {width : Nat}
    (h : CaptureSession.validHexId text width = true) : validWireId text width = true := by
  unfold CaptureSession.validHexId at h
  unfold validWireId
  simp only [Bool.and_eq_true, List.all_eq_true] at h ⊢
  obtain ⟨⟨hlength, hhex⟩, hzero⟩ := h
  refine ⟨⟨hlength, fun c hc => ?_⟩, ?_⟩
  · have hlower := hhex c hc
    unfold CaptureSession.isLowerHex at hlower
    unfold isHexDigit
    rw [hlower, Bool.true_or]
  · rw [Bool.not_eq_true', ← Bool.not_eq_true, List.all_eq_true] at hzero
    rw [List.any_eq_true]
    by_contra hnone
    refine hzero fun c hc => ?_
    by_contra hne
    exact hnone ⟨c, hc, by simpa using hne⟩

/-- A nonzero number of 64 bits has an identity. -/
theorem checkedId_eq {value : Nat} (hpos : 0 < value) (h : value ≤ maxU64) :
    ∃ id : WireSpanId, checkedId value = .ok id ∧ id.text = hexText value := by
  have hvalid : validWireId (hexText value) 16 = true :=
    validWireId_of_validHexId (HexText.valid_hexText hpos (by unfold maxU64 at h; omega))
  refine ⟨⟨hexText value, hvalid⟩, ?_, rfl⟩
  unfold checkedId
  rw [if_neg (by omega), WireId.new, dif_pos hvalid, expect]

theorem advanceId_ok {nextId next : Nat} (h : advanceId nextId = .ok next) :
    next = nextId + 1 ∧ nextId + 1 ≤ maxU64 := by
  unfold advanceId at h
  split_ifs at h with hle
  exact ⟨(Except.ok.inj h).symm, hle⟩

theorem checkedAdd_eq_some {a b c : Int} (h : checkedAdd a b = some c) :
    c = a + b ∧ c ≤ maxI64 := by
  unfold checkedAdd at h
  split_ifs at h with hrange
  obtain rfl := Option.some.inj h
  exact ⟨rfl, hrange.2⟩

theorem offsetTime_ok {value offset time : Int} (h : offsetTime value offset = .ok time) :
    time = value + offset ∧ time ≤ maxI64 := by
  unfold offsetTime at h
  split at h
  · rename_i hadd
    obtain rfl := Except.ok.inj h
    exact checkedAdd_eq_some hadd
  · cases h

/-- What the scenario starts with on the shared timeline, less what it started with. -/
def offsetAt (cursor : Cursor) (capture : Capture) : Int :=
  cursor.nextTime - capture.scenario.startNs

def endAt (cursor : Cursor) (capture : Capture) : Int :=
  capture.scenario.endNs + offsetAt cursor capture

/-- Where the capture after this one goes. -/
def after (cursor : Cursor) (capture : Capture) : Cursor where
  nextId := cursor.nextId + 1 + capture.operations.length
  nextTime := endAt cursor capture + scenarioGapNs
  operationCount := cursor.operationCount + capture.operations.length

/-! ### Operations -/

/-- The identity of the span that was given a number. -/
def HasId (id : WireSpanId) (number : Nat) : Prop := id.text = hexText number

theorem checkedId_ok {value : Nat} {id : WireSpanId} (h : checkedId value = .ok id) :
    HasId id value := by
  unfold checkedId at h
  split_ifs at h
  have hnew := expect_ok h
  unfold WireId.new at hnew
  split_ifs at hnew
  unfold HasId
  rw [← Option.some.inj hnew]

/-- What `assignIds` gives: a number to every operation, in order, and none twice. -/
structure Assigned (ids : List (String × WireSpanId)) (nextId : Nat) (operations : List Operation)
    (result : List (String × WireSpanId)) (next : Nat) : Prop where
  next : next = nextId + operations.length
  distinct : (operations.map Operation.spanId).Nodup
  fresh : ∀ operation ∈ operations, operation.spanId ∉ SortedAssoc.keys ids
  keys : ∀ spanId, spanId ∈ SortedAssoc.keys result ↔
    spanId ∈ SortedAssoc.keys ids ∨ spanId ∈ operations.map Operation.spanId
  kept : ∀ spanId ∈ SortedAssoc.keys ids, lookup result spanId = lookup ids spanId
  given : ∀ position operation, operations[position]? = some operation →
    ∃ id, lookup result operation.spanId = some id ∧ HasId id (nextId + position)

theorem Assigned.cons {ids result : List (String × WireSpanId)} {nextId next : Nat}
    {operation : Operation} {rest : List Operation} {id : WireSpanId} (hid : HasId id nextId)
    (hfresh : operation.spanId ∉ SortedAssoc.keys ids)
    (h : Assigned (insert operation.spanId id ids) (nextId + 1) rest result next) :
    Assigned ids nextId (operation :: rest) result next := by
  have hinserted : operation.spanId ∈ SortedAssoc.keys (insert operation.spanId id ids) :=
    mem_keys_insert.mpr (.inl rfl)
  refine ⟨?_, ?_, ?_, fun spanId => ?_, fun spanId hspanId => ?_, ?_⟩
  · rw [h.next, List.length_cons]
    omega
  · rw [List.map_cons, List.nodup_cons]
    refine ⟨fun hmem => ?_, h.distinct⟩
    obtain ⟨other, hother, hsame⟩ := List.mem_map.mp hmem
    exact h.fresh other hother (hsame ▸ hinserted)
  · intro other hother
    rcases List.mem_cons.mp hother with rfl | hother
    · exact hfresh
    · exact fun hmem => h.fresh other hother (mem_keys_insert.mpr (.inr hmem))
  · rw [h.keys, mem_keys_insert, List.map_cons, List.mem_cons]
    tauto
  · rw [h.kept spanId (mem_keys_insert.mpr (.inr hspanId)), lookup_insert_of_ne]
    rintro rfl
    exact hfresh hspanId
  · intro position other hother
    cases position with
    | zero =>
      obtain rfl := Option.some.inj hother
      refine ⟨id, ?_, hid⟩
      rw [h.kept _ hinserted, lookup_insert_self]
    | succ position =>
      obtain ⟨found, hfound, hnumber⟩ := h.given position other hother
      refine ⟨found, hfound, ?_⟩
      rwa [Nat.add_assoc, Nat.add_comm 1] at hnumber

theorem assignIds_ok {scenarioName : String} {ids result : List (String × WireSpanId)}
    {nextId next : Nat} {operations : List Operation}
    (h : assignIds scenarioName ids nextId operations = .ok (result, next)) :
    Assigned ids nextId operations result next := by
  induction operations generalizing ids nextId with
  | nil =>
    obtain ⟨rfl, rfl⟩ := Prod.mk.inj (Except.ok.inj h)
    exact ⟨rfl, List.nodup_nil, by simp, by simp, fun _ _ => rfl, by simp⟩
  | cons operation rest ih =>
    obtain ⟨id, hid, h⟩ := bind_ok h
    obtain ⟨following, hadvance, h⟩ := bind_ok h
    obtain ⟨rfl, -⟩ := advanceId_ok hadvance
    split_ifs at h with hcontains
    exact (ih h).cons (checkedId_ok hid) fun hmem => hcontains (contains_iff.mpr hmem)

theorem operationSpan_ok {traceId : WireTraceId} {operation : Operation} {placement : Placement}
    {span : Span} (h : operationSpan traceId operation placement = .ok span) :
    span.id = placement.id ∧ span.parentId = some placement.parentId := by
  obtain ⟨events, -, h⟩ := bind_ok h
  obtain ⟨startNs, -, h⟩ := bind_ok h
  obtain ⟨endNs, -, h⟩ := bind_ok h
  obtain rfl := Except.ok.inj h
  exact ⟨rfl, rfl⟩

/-- The span of an operation has the identity of the operation, and its parent that of the
parent. -/
theorem encodeOperation_ok {identity : Identity} {capture : Capture} {scenarioId : WireSpanId}
    {ids : List (String × WireSpanId)} {offset : Int} {operation : Operation} {span : Span}
    (h : encodeOperation identity capture scenarioId ids offset operation = .ok span) :
    lookup ids operation.spanId = some span.id ∧
      ∃ parentId, parentSpan capture scenarioId ids operation = .ok parentId ∧
        span.parentId = some parentId := by
  obtain ⟨id, hid, h⟩ := bind_ok h
  obtain ⟨parentId, hparent, h⟩ := bind_ok h
  obtain ⟨hspanId, hspanParent⟩ := operationSpan_ok h
  refine ⟨?_, parentId, hparent, hspanParent⟩
  rw [expect_ok hid, hspanId]

theorem encodeOperations_ok {identity : Identity} {capture : Capture} {scenarioId : WireSpanId}
    {ids : List (String × WireSpanId)} {offset : Int} {operationCount count : Nat}
    {operations : List Operation} {spans : List Span}
    (h : encodeOperations identity capture scenarioId ids offset operationCount operations =
      .ok (spans, count)) :
    count = operationCount + operations.length ∧ List.Forall₂ (fun operation span =>
      encodeOperation identity capture scenarioId ids offset operation = .ok span) operations
        spans := by
  induction operations generalizing operationCount spans with
  | nil =>
    obtain ⟨rfl, rfl⟩ := Prod.mk.inj (Except.ok.inj h)
    exact ⟨rfl, .nil⟩
  | cons operation rest ih =>
    obtain ⟨span, hspan, h⟩ := bind_ok h
    obtain ⟨-, -, h⟩ := bind_ok h
    obtain ⟨⟨others, total⟩, hrest, h⟩ := bind_ok h
    obtain ⟨rfl, rfl⟩ := Prod.mk.inj (Except.ok.inj h)
    obtain ⟨hcount, hothers⟩ := ih hrest
    refine ⟨?_, .cons hspan hothers⟩
    rw [hcount, List.length_cons]
    omega

/-! ### Captures -/

/-- The spans of a capture that goes to a place on the timeline. -/
structure EncodedCapture (identity : Identity) (runSpanId : WireSpanId) (index : Nat)
    (cursor : Cursor) (capture : Capture) (group : Group) (ids : List (String × WireSpanId)) :
    Prop where
  scenarioId : HasId group.scenario.id cursor.nextId
  scenario : ∃ startNs endNs, group.scenario =
      scenarioSpan identity runSpanId group.scenario.id index capture startNs endNs ∧
    startNs.text = toString cursor.nextTime ∧ endNs.text = toString (endAt cursor capture)
  assigned : Assigned [] (cursor.nextId + 1) capture.operations ids (after cursor capture).nextId
  operations : List.Forall₂ (fun operation span => encodeOperation identity capture
    group.scenario.id ids (offsetAt cursor capture) operation = .ok span) capture.operations
      group.operations

theorem unixNanos_ok {time : Int} {placed : UnixNanos} (h : unixNanos time = .ok placed) :
    placed.text = toString time := by
  have hnew := expect_ok h
  unfold UnixNanos.new at hnew
  split_ifs at hnew
  rw [← Option.some.inj hnew]

theorem scenarioOffset_ok {cursor : Cursor} {capture : Capture} {offset : Int}
    (h : scenarioOffset cursor.nextTime capture.scenario.startNs = .ok offset) :
    offset = offsetAt cursor capture := by
  unfold scenarioOffset at h
  split at h
  · rename_i hadd
    obtain rfl := Except.ok.inj h
    obtain ⟨rfl, -⟩ := checkedAdd_eq_some hadd
    unfold offsetAt
    omega
  · cases h

theorem encodeCapture_ok {identity : Identity} {runSpanId : WireSpanId} {index : Nat}
    {cursor next : Cursor} {capture : Capture} {group : Group}
    (h : encodeCapture identity runSpanId index cursor capture = .ok (group, next)) :
    next = after cursor capture ∧
      ∃ ids, EncodedCapture identity runSpanId index cursor capture group ids := by
  obtain ⟨scenarioId, hscenarioId, h⟩ := bind_ok h
  obtain ⟨following, hadvance, h⟩ := bind_ok h
  obtain ⟨rfl, -⟩ := advanceId_ok hadvance
  obtain ⟨⟨ids, nextId⟩, hids, h⟩ := bind_ok h
  obtain ⟨offset, hoffset, h⟩ := bind_ok h
  obtain ⟨endTime, hendTime, h⟩ := bind_ok h
  obtain ⟨-, -, h⟩ := bind_ok h
  obtain ⟨startNs, hstartNs, h⟩ := bind_ok h
  obtain ⟨endNs, hendNs, h⟩ := bind_ok h
  obtain ⟨⟨spans, count⟩, hspans, h⟩ := bind_ok h
  obtain ⟨nextTime, hnextTime, h⟩ := bind_ok h
  obtain ⟨rfl, rfl⟩ := Prod.mk.inj (Except.ok.inj h)
  have hassigned := assignIds_ok hids
  obtain ⟨hcount, hoperations⟩ := encodeOperations_ok hspans
  obtain rfl := scenarioOffset_ok hoffset
  obtain ⟨rfl, -⟩ := offsetTime_ok hendTime
  obtain ⟨rfl, -⟩ := offsetTime_ok hnextTime
  have hnextId := hassigned.next
  refine ⟨?_, ids, checkedId_ok hscenarioId, ⟨startNs, endNs, rfl, unixNanos_ok hstartNs,
    unixNanos_ok hendNs⟩, ?_, hoperations⟩
  · subst hnextId hcount
    rfl
  · subst hnextId
    exact hassigned

end SpecGate.EncodedSpans

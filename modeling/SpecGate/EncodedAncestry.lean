import SpecGate.Checked
import SpecGate.EncodedSpans
import SpecGate.FiniteChains

/-!
The ancestry of encoded spans. The encoder looks up every parent, and only that: where the
parents of the operations of a capture form a cycle, so do the parents of their spans, and
none of them is below the scenario.
-/
namespace SpecGate.EncodedAncestry

open SortedAssoc Demands CaptureEncoding EncodedSpans
open Checked (forall_iff_of_forall₂)
open CaptureSession (hexText maxU64)

/-- Some captures with their groups of spans, one capture placed after the other. -/
def EncodedCaptures (identity : Identity) (runSpanId : WireSpanId) :
    Nat → Cursor → List Capture → List Group → Prop
  | _, _, [], [] => True
  | index, cursor, capture :: rest, group :: groups =>
      (∃ ids, EncodedCapture identity runSpanId index cursor capture group ids) ∧
        EncodedCaptures identity runSpanId (index + 1) (after cursor capture) rest groups
  | _, _, _, _ => False

/-- A document with its run and its groups of spans. -/
structure EncodedDocument (captures : List Capture) (identity : Identity) (document : Document)
    (run : Span) (groups : List Group) : Prop where
  spans : document.spans = run :: groups.flatMap Group.spans
  runId : HasId run.id identity.firstId
  runParent : run.parentId = none
  captures : EncodedCaptures identity run.id 0 ⟨identity.firstId + 1, scenarioTime, 0⟩ captures groups

theorem encodeCaptures_ok {identity : Identity} {runSpanId : WireSpanId} {index : Nat}
    {cursor last : Cursor} {captures : List Capture} {groups : List Group}
    (h : encodeCaptures identity runSpanId index cursor captures = .ok (groups, last)) :
    EncodedCaptures identity runSpanId index cursor captures groups := by
  induction captures generalizing index cursor groups last with
  | nil =>
    obtain ⟨rfl, -⟩ := Prod.mk.inj (Except.ok.inj h)
    trivial
  | cons capture rest ih =>
    obtain ⟨⟨group, next⟩, hgroup, h⟩ := bind_ok h
    obtain ⟨⟨others, final⟩, hothers, h⟩ := bind_ok h
    obtain ⟨rfl, -⟩ := Prod.mk.inj (Except.ok.inj h)
    obtain ⟨rfl, hencoded⟩ := encodeCapture_ok hgroup
    exact ⟨hencoded, ih hothers⟩

theorem encodeDocument_ok {captures : List Capture} {metadata : Metadata} {identity : Identity}
    {document : Document} {operationCount : Nat}
    (h : encodeDocument captures metadata identity = .ok (document, operationCount)) :
    ∃ run groups, EncodedDocument captures identity document run groups := by
  obtain ⟨-, -, h⟩ := bind_ok h
  obtain ⟨runSpanId, hrunSpanId, h⟩ := bind_ok h
  obtain ⟨nextId, hnextId, h⟩ := bind_ok h
  obtain ⟨⟨groups, cursor⟩, hgroups, h⟩ := bind_ok h
  obtain ⟨startNs, -, h⟩ := bind_ok h
  obtain ⟨endNs, -, h⟩ := bind_ok h
  obtain ⟨rfl, -⟩ := Prod.mk.inj (Except.ok.inj h)
  obtain ⟨rfl, -⟩ := advanceId_ok hnextId
  exact ⟨_, groups, rfl, checkedId_ok hrunSpanId, rfl, encodeCaptures_ok hgroups⟩

/-! ### Numbers -/

theorem operationNumbers {identity : Identity} {capture : Capture} {scenarioId : WireSpanId}
    {ids : List (String × WireSpanId)} {offset : Int} {nextId next : Nat} {spans : List Span}
    (hassigned : Assigned [] nextId capture.operations ids next)
    (h : List.Forall₂ (fun operation span => encodeOperation identity capture scenarioId ids offset
      operation = .ok span) capture.operations spans) :
    spans.map (fun span => span.id.text) =
      (List.range' nextId capture.operations.length).map hexText := by
  have hlength := h.length_eq
  refine List.ext_getElem (by simp [hlength]) fun position hspan hnumber => ?_
  rw [List.length_map] at hspan
  have hoperation : position < capture.operations.length := by omega
  obtain ⟨hid, -⟩ := encodeOperation_ok (h.get hoperation hspan)
  obtain ⟨id, hgiven, hnumber⟩ :=
    hassigned.given position capture.operations[position] (List.getElem?_eq_getElem hoperation)
  rw [List.get_eq_getElem, hgiven] at hid
  rw [List.getElem_map, List.getElem_map, List.getElem_range', Nat.one_mul, ← hnumber,
    Option.some.inj hid, List.get_eq_getElem]

/-- The spans of a group have consecutive numbers. -/
theorem groupNumbers {identity : Identity} {runSpanId : WireSpanId} {index : Nat} {cursor : Cursor}
    {capture : Capture} {group : Group} {ids : List (String × WireSpanId)}
    (h : EncodedCapture identity runSpanId index cursor capture group ids) :
    group.spans.map (fun span => span.id.text) =
      (List.range' cursor.nextId (1 + capture.operations.length)).map hexText := by
  unfold Group.spans
  rw [List.map_cons, operationNumbers h.assigned h.operations, h.scenarioId, Nat.add_comm 1,
    List.range'_succ, List.map_cons]

theorem capturesNumbers {identity : Identity} {runSpanId : WireSpanId} {index : Nat}
    {cursor : Cursor} {captures : List Capture} {groups : List Group}
    (h : EncodedCaptures identity runSpanId index cursor captures groups) :
    ∃ count, (groups.flatMap Group.spans).map (fun span => span.id.text) =
      (List.range' cursor.nextId count).map hexText := by
  induction captures generalizing index cursor groups with
  | nil =>
    cases groups with
    | nil => exact ⟨0, rfl⟩
    | cons _ _ => cases h
  | cons capture rest ih =>
    cases groups with
    | nil => cases h
    | cons group groups =>
      obtain ⟨⟨ids, hencoded⟩, hrest⟩ := h
      obtain ⟨count, hcount⟩ := ih hrest
      refine ⟨1 + capture.operations.length + count, ?_⟩
      rw [List.flatMap_cons, List.map_append, groupNumbers hencoded, hcount, ← List.map_append]
      have hnext : (after cursor capture).nextId =
          cursor.nextId + (1 + capture.operations.length) := Nat.add_assoc _ _ _
      rw [hnext, List.range'_append_1]

/-- No two spans of the document have one identity. -/
theorem EncodedDocument.ids_nodup {captures : List Capture} {identity : Identity}
    {document : Document} {run : Span} {groups : List Group}
    (h : EncodedDocument captures identity document run groups) :
    (document.spans.map Span.id).Nodup := by
  obtain ⟨count, hcount⟩ := capturesNumbers h.captures
  have htexts : document.spans.map (fun span => span.id.text) =
      (List.range' identity.firstId (count + 1)).map hexText := by
    rw [h.spans, List.map_cons, hcount, h.runId, List.range'_succ, List.map_cons]
  refine List.Nodup.of_map WireId.text ?_
  rw [List.map_map]
  show (document.spans.map fun span => span.id.text).Nodup
  rw [htexts]
  exact List.Nodup.map (fun _ _ => HexText.hexText_injective) List.nodup_range'

/-! ### Links -/

/-- One span of a document names another as its parent. -/
def ParentLink (document : Document) (child parent : Span) : Prop :=
  child ∈ document.spans ∧ parent ∈ document.spans ∧ child.parentId = some parent.id

/-- An operation of a capture names another one as its parent; the identity of the scenario
stands for the scenario. -/
def NativeLink (capture : Capture) (child parent : Operation) : Prop :=
  child ∈ capture.operations ∧ parent ∈ capture.operations ∧ child.parentId = parent.spanId ∧
    child.parentId ≠ capture.scenario.spanId

/-- No operation of the capture is its own ancestor. -/
def Acyclic (capture : Capture) : Prop :=
  ∀ operation ∈ capture.operations, ¬ Relation.TransGen (NativeLink capture) operation operation

/-- Every operation span of a group descends from the scenario of the group, and the
scenario from the run. -/
def Descends (document : Document) (run : Span) (group : Group) : Prop :=
  ParentLink document group.scenario run ∧ ∀ span ∈ group.operations,
    Relation.ReflTransGen (ParentLink document) span group.scenario

theorem ParentLink.unique {document : Document} (hunique : (document.spans.map Span.id).Nodup)
    {child left right : Span} (hleft : ParentLink document child left)
    (hright : ParentLink document child right) : left = right := by
  have hsame : left.id = right.id := Option.some.inj (hleft.2.2.symm.trans hright.2.2)
  exact List.inj_on_of_nodup_map hunique hleft.2.1 hright.2.1 hsame

section Group

variable {document : Document} {identity : Identity} {run : Span} {index : Nat} {cursor : Cursor}
  {capture : Capture} {group : Group} {ids : List (String × WireSpanId)}

/-- The span of an operation in the group of its capture. -/
def Emits (group : Group) (ids : List (String × WireSpanId)) (operation : Operation)
    (span : Span) : Prop :=
  span ∈ group.operations ∧ lookup ids operation.spanId = some span.id

theorem exists_span (h : EncodedCapture identity run.id index cursor capture group ids)
    {operation : Operation} (hoperation : operation ∈ capture.operations) :
    ∃ span, Emits group ids operation span ∧ ∃ parentId,
      parentSpan capture group.scenario.id ids operation = .ok parentId ∧
        span.parentId = some parentId := by
  obtain ⟨position, hposition, rfl⟩ := List.mem_iff_getElem.mp hoperation
  have hspan : position < group.operations.length := h.operations.length_eq ▸ hposition
  obtain ⟨hid, hparent⟩ := encodeOperation_ok (h.operations.get hposition hspan)
  exact ⟨group.operations[position], ⟨List.getElem_mem hspan, hid⟩, hparent⟩

theorem exists_operation (h : EncodedCapture identity run.id index cursor capture group ids)
    {span : Span} (hspan : span ∈ group.operations) :
    ∃ operation ∈ capture.operations, Emits group ids operation span := by
  obtain ⟨position, hposition, rfl⟩ := List.mem_iff_getElem.mp hspan
  have hoperation : position < capture.operations.length := h.operations.length_eq ▸ hposition
  obtain ⟨hid, -⟩ := encodeOperation_ok (h.operations.get hoperation hposition)
  exact ⟨capture.operations[position], List.getElem_mem hoperation, hspan, hid⟩

variable (hunique : (document.spans.map Span.id).Nodup)
  (hgroup : ∀ span ∈ group.spans, span ∈ document.spans)

include hunique hgroup in
theorem Emits.unique {operation : Operation} {left right : Span}
    (hleft : Emits group ids operation left) (hright : Emits group ids operation right) :
    left = right := by
  have hsame : left.id = right.id := Option.some.inj (hleft.2.symm.trans hright.2)
  exact List.inj_on_of_nodup_map hunique (hgroup left (List.mem_cons_of_mem _ hleft.1))
    (hgroup right (List.mem_cons_of_mem _ hright.1)) hsame

include hunique hgroup in
/-- A link between operations is one between their spans. -/
theorem link_of_nativeLink (h : EncodedCapture identity run.id index cursor capture group ids)
    {child parent : Operation} {childSpan parentSpan : Span} (hlink : NativeLink capture child parent)
    (hchild : Emits group ids child childSpan) (hparent : Emits group ids parent parentSpan) :
    ParentLink document childSpan parentSpan := by
  obtain ⟨hchildMem, -, hname, hother⟩ := hlink
  obtain ⟨span, hspan, parentId, hfound, hspanParent⟩ := exists_span h hchildMem
  obtain rfl := Emits.unique hunique hgroup hspan hchild
  refine ⟨hgroup _ (List.mem_cons_of_mem _ hchild.1), hgroup _ (List.mem_cons_of_mem _ hparent.1), ?_⟩
  unfold CaptureEncoding.parentSpan at hfound
  rw [if_neg hother, hname, hparent.2] at hfound
  rw [hspanParent, Except.ok.inj hfound]

include hunique hgroup in
theorem reaches_of_native (h : EncodedCapture identity run.id index cursor capture group ids)
    {child above : Operation} {childSpan aboveSpan : Span}
    (hchain : Relation.ReflTransGen (NativeLink capture) child above)
    (hchild : Emits group ids child childSpan) (habove : Emits group ids above aboveSpan) :
    Relation.ReflTransGen (ParentLink document) childSpan aboveSpan := by
  induction hchain generalizing aboveSpan with
  | refl =>
    obtain rfl := Emits.unique hunique hgroup hchild habove
    exact .refl
  | tail _ hlink ih =>
    obtain ⟨span, hspan, -⟩ := exists_span h hlink.1
    exact (ih hspan).tail (link_of_nativeLink hunique hgroup h hlink hspan habove)

theorem scenario_link (hrun : run ∈ document.spans)
    (h : EncodedCapture identity run.id index cursor capture group ids)
    (hscenario : group.scenario ∈ document.spans) : ParentLink document group.scenario run := by
  obtain ⟨startNs, endNs, hspan, -⟩ := h.scenario
  exact ⟨hscenario, hrun, by rw [hspan]; rfl⟩

include hunique hgroup in
/-- A cycle of operations leads nowhere else, so it is not below the scenario. -/
theorem acyclic_of_descends (hroot : run.parentId = none)
    (h : EncodedCapture identity run.id index cursor capture group ids)
    (hdescends : Descends document run group) : Acyclic capture := by
  intro operation hoperation hcycle
  obtain ⟨next, hlink, hback⟩ := Relation.TransGen.head'_iff.mp hcycle
  obtain ⟨span, hspan, -⟩ := exists_span h hoperation
  obtain ⟨nextSpan, hnextSpan, -⟩ := exists_span h hlink.2.1
  have hspanCycle : Relation.TransGen (ParentLink document) span span :=
    .head' (link_of_nativeLink hunique hgroup h hlink hspan hnextSpan)
      (reaches_of_native hunique hgroup h hback hnextSpan hspan)
  have hreaches : Relation.ReflTransGen (ParentLink document) span run :=
    (hdescends.2 span hspan.1).tail hdescends.1
  have hfunctional : ∀ child left right, ParentLink document child left →
      ParentLink document child right → left = right := fun _ _ _ => ParentLink.unique hunique
  have hrunCycle := FiniteChains.cycle_of_reaches hfunctional hspanCycle hreaches
  obtain ⟨above, habove, -⟩ := Relation.TransGen.head'_iff.mp hrunCycle
  have hparent := habove.2.2
  rw [hroot] at hparent
  cases hparent

/-- The parent of an encoded operation is the scenario or another operation. -/
theorem parent_cases (h : EncodedCapture identity run.id index cursor capture group ids)
    {operation : Operation} (hoperation : operation ∈ capture.operations) :
    operation.parentId = capture.scenario.spanId ∨
      ∃ parent ∈ capture.operations, NativeLink capture operation parent := by
  by_cases hscenario : operation.parentId = capture.scenario.spanId
  · exact .inl hscenario
  · obtain ⟨span, -, parentId, hfound, -⟩ := exists_span h hoperation
    unfold parentSpan at hfound
    rw [if_neg hscenario] at hfound
    split at hfound
    · rename_i found hlookup
      have hkey := exists_lookup_iff.mp ⟨found, hlookup⟩
      rw [h.assigned.keys] at hkey
      obtain hkey | hkey := hkey
      · simp at hkey
      · obtain ⟨parent, hparent, hname⟩ := List.mem_map.mp hkey
        exact .inr ⟨parent, hparent, hoperation, hparent, hname.symm, hscenario⟩
    · cases hfound

include hunique hgroup in
theorem descends_of_acyclic (hrun : run ∈ document.spans)
    (h : EncodedCapture identity run.id index cursor capture group ids)
    (hacyclic : Acyclic capture) : Descends document run group := by
  refine ⟨scenario_link hrun h (hgroup _ List.mem_cons_self), fun span hspan => ?_⟩
  obtain ⟨operation, hoperation, hemits⟩ := exists_operation h hspan
  obtain ⟨last, hlast, hchain, hfinal⟩ :=
    FiniteChains.exists_final (fun operation hoperation => parent_cases h hoperation) hacyclic
      hoperation
  obtain ⟨lastSpan, hlastSpan, parentId, hfound, hparent⟩ := exists_span h hlast
  unfold parentSpan at hfound
  rw [if_pos hfinal] at hfound
  refine (reaches_of_native hunique hgroup h hchain hemits hlastSpan).tail
    ⟨hgroup _ (List.mem_cons_of_mem _ hlastSpan.1), hgroup _ List.mem_cons_self, ?_⟩
  rw [hparent, Except.ok.inj hfound]

end Group

/-! ### Documents -/

theorem EncodedCaptures.paired {identity : Identity} {runSpanId : WireSpanId} {index : Nat}
    {cursor : Cursor} {captures : List Capture} {groups : List Group}
    (h : EncodedCaptures identity runSpanId index cursor captures groups) :
    List.Forall₂ (fun capture group => ∃ index cursor ids,
      EncodedCapture identity runSpanId index cursor capture group ids) captures groups := by
  induction captures generalizing index cursor groups with
  | nil =>
    cases groups with
    | nil => exact .nil
    | cons _ _ => cases h
  | cons capture rest ih =>
    cases groups with
    | nil => cases h
    | cons group groups =>
      obtain ⟨⟨ids, hencoded⟩, hrest⟩ := h
      exact .cons ⟨index, cursor, ids, hencoded⟩ (ih hrest)

/-- The spans of an encoded document descend from their scenarios exactly where no capture
has a cycle of parents. -/
theorem EncodedDocument.descends_iff {captures : List Capture} {identity : Identity}
    {document : Document} {run : Span} {groups : List Group}
    (h : EncodedDocument captures identity document run groups) :
    (∀ group ∈ groups, Descends document run group) ↔ ∀ capture ∈ captures, Acyclic capture := by
  have hunique := h.ids_nodup
  have hrun : run ∈ document.spans := h.spans ▸ List.mem_cons_self
  refine forall_iff_of_forall₂ h.captures.paired fun group hgroup capture hencoded => ?_
  obtain ⟨index, cursor, ids, hencoded⟩ := hencoded
  have hspans : ∀ span ∈ group.spans, span ∈ document.spans := fun span hspan => by
    rw [h.spans]
    exact List.mem_cons_of_mem run (List.mem_flatMap.mpr ⟨group, hgroup, hspan⟩)
  exact ⟨acyclic_of_descends hunique hspans h.runParent hencoded,
    descends_of_acyclic hunique hspans hrun hencoded⟩

theorem encode_ok {serialize : Document → Except String String} {captures : List Capture}
    {metadata : Metadata} {identity : Identity} {encoding : Encoding}
    (h : encode serialize captures metadata identity = .ok encoding) :
    ∃ document run groups, serialize document = .ok encoding.otlpJson ∧
      EncodedDocument captures identity document run groups := by
  obtain ⟨⟨document, operationCount⟩, hdocument, h⟩ := bind_ok h
  obtain ⟨otlpJson, hwrite, h⟩ := bind_ok h
  obtain ⟨-, -, h⟩ := bind_ok h
  obtain ⟨-, -, h⟩ := bind_ok h
  obtain rfl := Except.ok.inj h
  obtain ⟨run, groups, hencoded⟩ := encodeDocument_ok hdocument
  refine ⟨document, run, groups, ?_, hencoded⟩
  unfold write at hwrite
  split at hwrite
  · rename_i hserialize
    obtain rfl := Except.ok.inj hwrite
    exact hserialize
  · cases hwrite

/-- What the encoder returns has the ancestry of a trace exactly where no operation of any
capture is its own ancestor. -/
theorem ancestry_iff {serialize : Document → Except String String} {captures : List Capture}
    {metadata : Metadata} {identity : Identity} {encoding : Encoding}
    (h : encode serialize captures metadata identity = .ok encoding) :
    ∃ document run groups, serialize document = .ok encoding.otlpJson ∧
      EncodedDocument captures identity document run groups ∧
      ((∀ group ∈ groups, Descends document run group) ↔ ∀ capture ∈ captures, Acyclic capture) := by
  obtain ⟨document, run, groups, hserialize, hencoded⟩ := encode_ok h
  exact ⟨document, run, groups, hserialize, hencoded, hencoded.descends_iff⟩

/-! ### A cycle of two operations -/

def turn (spanId parentId : String) : Operation where
  order := 0
  spanId := spanId
  parentId := parentId
  componentId := "store"
  operationName := "read"
  startNs := 2
  endNs := 3
  status := .ok
  inputs := []
  observations := []
  completion := none

def turningCapture (first second : String) : Capture where
  traceId := "00000000000000000000000000000001"
  scenarioName := "reads"
  run := ⟨"0000000000000001", none, 1, 4, .ok⟩
  scenario := ⟨"0000000000000002", some "0000000000000001", 2, 3, .ok⟩
  operations := [turn "0000000000000003" first, turn "0000000000000004" second]

def turningMetadata : Metadata := ⟨"1", "example", "rust", ⟨"registry", "1", "sha256:digest"⟩⟩

theorem ancestry_iff_nested :
    ∃ encoding, encode (fun _ => .ok "") [turningCapture "0000000000000002" "0000000000000003"]
        turningMetadata .reference = .ok encoding ∧
      ∃ document run groups, EncodedDocument [turningCapture "0000000000000002" "0000000000000003"]
        .reference document run groups ∧ ((∀ group ∈ groups, Descends document run group) ↔
          ∀ capture ∈ [turningCapture "0000000000000002" "0000000000000003"], Acyclic capture) := by
  have hok : (encode (fun _ => .ok "") [turningCapture "0000000000000002" "0000000000000003"]
      turningMetadata .reference).toOption.isSome = true := by decide +kernel
  obtain ⟨encoding, hencode⟩ := exists_ok hok
  obtain ⟨document, run, groups, -, h⟩ := ancestry_iff hencode
  exact ⟨encoding, hencode, document, run, groups, h⟩

theorem turning_not_acyclic :
    ¬ Acyclic (turningCapture "0000000000000004" "0000000000000003") := by
  intro h
  refine h (turn "0000000000000003" "0000000000000004") List.mem_cons_self
    (.tail (.single (b := turn "0000000000000004" "0000000000000003") ?_) ?_)
  · exact ⟨by simp [turningCapture], by simp [turningCapture], rfl, by decide⟩
  · exact ⟨by simp [turningCapture], by simp [turningCapture], rfl, by decide⟩

/-- Two operations that are each other's parent are encoded. -/
theorem turning_operations_encoded :
    ¬ ∀ (serialize : Document → Except String String) (captures : List Capture)
      (metadata : Metadata) (identity : Identity) (encoding : Encoding),
      encode serialize captures metadata identity = .ok encoding →
        ∃ document run groups, serialize document = .ok encoding.otlpJson ∧
          EncodedDocument captures identity document run groups ∧
            ∀ group ∈ groups, Descends document run group := by
  intro h
  have hok : (encode (fun _ => .ok "") [turningCapture "0000000000000004" "0000000000000003"]
      turningMetadata .reference).toOption.isSome = true := by decide +kernel
  obtain ⟨encoding, hencode⟩ := exists_ok hok
  obtain ⟨document, run, groups, -, hencoded, hdescends⟩ := h _ _ _ _ encoding hencode
  exact turning_not_acyclic (hencoded.descends_iff.mp hdescends _ List.mem_cons_self)

end SpecGate.EncodedAncestry

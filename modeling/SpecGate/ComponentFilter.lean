import SpecGate.EncoderTotality
import SpecGate.OrderedClosure

/-!
The captures of one component. Of every scenario the filter keeps the operations below the
top-level operations of the component, and it drops the scenarios without one. It needs one
pass because captures list parents before children. What is left can be encoded wherever the
whole could, unless nothing is left or an operation starts before its scenario.
-/
namespace SpecGate.ComponentFilter

open CaptureEncoding EncodedSpans EncoderTotality OrderedClosure

/-! ### The filter -/

def TopLevel (capture : Capture) (component : String) (operation : Operation) : Prop :=
  operation.parentId = capture.scenario.spanId ∧ operation.componentId = component

instance (capture : Capture) (component : String) : DecidablePred (TopLevel capture component) :=
  fun _ => inferInstanceAs (Decidable (_ ∧ _))

def filterCapture (component : String) (capture : Capture) : Option Capture :=
  let topLevel := (capture.operations.filter fun operation =>
    decide (TopLevel capture component operation)).map Operation.spanId
  if topLevel.isEmpty then none
  else
    let retained := retain Operation.spanId Operation.parentId topLevel capture.operations
    some { capture with
      operations := capture.operations.filter fun operation =>
        decide (operation.spanId ∈ retained) }

def filter (scenarios : List Capture) (component : String) : List Capture :=
  scenarios.filterMap (filterCapture component)

/-! ### What it keeps -/

/-- Operations are told apart, and none is listed before its parent. -/
abbrev Listed (capture : Capture) : Prop :=
  ParentsFirst Operation.spanId Operation.parentId capture.operations

/-- The chain of parents reaches a top-level operation of the component. -/
def Belongs (component : String) (capture : Capture) (operation : Operation) : Prop :=
  Below Operation.spanId Operation.parentId capture.operations (TopLevel capture component) operation

def HasTopLevel (component : String) (capture : Capture) : Prop :=
  ∃ operation ∈ capture.operations, TopLevel capture component operation

open Classical in
noncomputable def subtrees (component : String) (capture : Capture) : Capture :=
  { capture with
    operations := capture.operations.filter fun operation =>
      decide (Belongs component capture operation) }

section Selection

variable {component : String} {capture : Capture} {captures : List Capture} {operation : Operation}

theorem mem_subtrees : operation ∈ (subtrees component capture).operations ↔
    operation ∈ capture.operations ∧ Belongs component capture operation := by
  simp [subtrees]

open Classical in
theorem filterCapture_eq (h : Listed capture) :
    filterCapture component capture =
      if HasTopLevel component capture then some (subtrees component capture) else none := by
  have hempty : ((capture.operations.filter fun operation =>
      decide (TopLevel capture component operation)).map Operation.spanId).isEmpty = true ↔
        ¬ HasTopLevel component capture := by
    simp [HasTopLevel, List.filter_eq_nil_iff]
  unfold filterCapture
  by_cases htop : HasTopLevel component capture
  · rw [if_pos htop, if_neg (mt hempty.mp (not_not.mpr htop)), subtrees]
    refine congrArg some (congrArg (Capture.mk _ _ _ _) (List.filter_congr ?_))
    exact fun operation hoperation => decide_eq_decide.mpr (mem_retain_iff h hoperation)
  · rw [if_neg htop, if_pos (hempty.mpr htop)]

open Classical in
theorem filter_cons (h : Listed capture) (rest : List Capture) :
    filter (capture :: rest) component =
      if HasTopLevel component capture then subtrees component capture :: filter rest component
      else filter rest component := by
  unfold filter
  rw [List.filterMap_cons, filterCapture_eq h]
  split <;> simp_all

open Classical in
/-- The filter keeps exactly the subtrees, of exactly the scenarios that have one. -/
theorem filter_eq (h : ∀ capture ∈ captures, Listed capture) :
    filter captures component =
      (captures.filter fun capture => decide (HasTopLevel component capture)).map
        (subtrees component) := by
  induction captures with
  | nil => rfl
  | cons capture rest ih =>
    obtain ⟨hcapture, hrest⟩ := List.forall_mem_cons.mp h
    rw [filter_cons hcapture, List.filter_cons, ih hrest]
    by_cases htop : HasTopLevel component capture <;> simp [htop]

theorem sublist_subtrees (component : String) (capture : Capture) :
    (subtrees component capture).operations.Sublist capture.operations := List.filter_sublist

theorem listed_subtrees (h : Listed capture) : Listed (subtrees component capture) :=
  h.sublist (sublist_subtrees component capture)

/-- The parent of an operation that is kept is the scenario, or is kept. -/
theorem parent_subtrees (h : operation ∈ (subtrees component capture).operations) :
    operation.parentId = capture.scenario.spanId ∨
      ∃ parent ∈ (subtrees component capture).operations, operation.parentId = parent.spanId := by
  rcases (mem_subtrees.mp h).2.root_or_link with htop | ⟨parent, ⟨hparent, hlink⟩, hbelow⟩
  · exact .inl htop.1
  · exact .inr ⟨parent, mem_subtrees.mpr ⟨hparent, hbelow⟩, hlink⟩

theorem belongs_subtrees (h : operation ∈ (subtrees component capture).operations) :
    Belongs component (subtrees component capture) operation := by
  obtain ⟨hmem, hbelongs⟩ := mem_subtrees.mp h
  exact Below.of_kept (fun other hother hbelow => mem_subtrees.mpr ⟨hother, hbelow⟩) hmem hbelongs

theorem subtrees_subtrees :
    subtrees component (subtrees component capture) = subtrees component capture := by
  classical
  have hall : (subtrees component capture).operations.filter (fun operation =>
      decide (Belongs component (subtrees component capture) operation)) =
        (subtrees component capture).operations :=
    List.filter_eq_self.mpr fun operation hoperation =>
      decide_eq_true (belongs_subtrees hoperation)
  exact congrArg (Capture.mk _ _ _ _) hall

theorem hasTopLevel_subtrees (h : HasTopLevel component capture) :
    HasTopLevel component (subtrees component capture) := by
  obtain ⟨top, htop, hroot⟩ := h
  exact ⟨top, mem_subtrees.mpr ⟨htop, top, htop, hroot, .refl⟩, hroot⟩

theorem mem_filter (h : ∀ capture ∈ captures, Listed capture) {kept : Capture} :
    kept ∈ filter captures component ↔ ∃ capture ∈ captures,
      HasTopLevel component capture ∧ subtrees component capture = kept := by
  simp [filter_eq h, and_assoc]

theorem filter_filter (h : ∀ capture ∈ captures, Listed capture) :
    filter (filter captures component) component = filter captures component := by
  classical
  have hlisted : ∀ kept ∈ filter captures component, Listed kept := by
    intro kept hkept
    obtain ⟨capture, hcapture, -, rfl⟩ := (mem_filter h).mp hkept
    exact listed_subtrees (h capture hcapture)
  have htop : (filter captures component).filter (fun kept =>
      decide (HasTopLevel component kept)) = filter captures component := by
    refine List.filter_eq_self.mpr fun kept hkept => decide_eq_true ?_
    obtain ⟨capture, -, htop, rfl⟩ := (mem_filter h).mp hkept
    exact hasTopLevel_subtrees htop
  have hself : ∀ kept ∈ filter captures component, subtrees component kept = kept := by
    intro kept hkept
    obtain ⟨capture, -, -, rfl⟩ := (mem_filter h).mp hkept
    exact subtrees_subtrees
  rw [filter_eq hlisted, htop, List.map_congr_left hself, List.map_id']

end Selection

/-! ### What the encoder asks of a capture -/

section Demands

open Demands
open CaptureSession (checkedAdd maxI64 maxU64)

variable {capture : Capture} {cursor earlier : Cursor} {index : Nat}

theorem reported_met (met : Bool) : (Demand.reported met).met = met := rfl

theorem assumed_met (met : Bool) : (Demand.assumed met).met = met := rfl

theorem checkedAdd_isSome {left right : Int} : (checkedAdd left right).isSome = true ↔
    -maxI64 - 1 ≤ left + right ∧ left + right ≤ maxI64 := by
  unfold checkedAdd
  split <;> simp_all

/-- A time that is neither negative nor too late once it is moved. -/
def Placeable (offset time : Int) : Prop := 0 ≤ time + offset ∧ time + offset ≤ maxI64

theorem timeDemands_met {offset time : Int} :
    (∀ demand ∈ timeDemands offset time, demand.met = true) ↔ Placeable offset time := by
  have hmin : -maxI64 - 1 ≤ 0 := by decide
  simp only [timeDemands, List.forall_mem_cons, reported_met, assumed_met, checkedAdd_isSome,
    decide_eq_true_eq, List.not_mem_nil, false_imp_iff, implies_true, and_true, Placeable]
  omega

theorem operationsDemands_met {offset : Int} {count : Nat} {operations : List Operation} :
    (∀ demand ∈ operationsDemands capture offset count operations, demand.met = true) ↔
      (∀ operation ∈ operations, hasParent capture operation = true ∧
        ∀ time ∈ times operation, Placeable offset time) ∧
      (operations ≠ [] → count + operations.length ≤ maxUsize) := by
  induction operations generalizing count with
  | nil => simp [operationsDemands]
  | cons operation rest ih =>
    simp only [operationsDemands, List.forall_mem_append, List.forall_mem_cons, ih,
      List.forall_mem_flatMap, timeDemands_met, reported_met, decide_eq_true_eq]
    have hcount : (count + 1 ≤ maxUsize ∧ (rest ≠ [] → count + 1 + rest.length ≤ maxUsize)) ↔
        (operation :: rest ≠ [] → count + (operation :: rest).length ≤ maxUsize) := by
      cases rest with
      | nil => simp
      | cons other rest =>
        simp only [ne_eq, reduceCtorEq, not_false_eq_true, forall_const, List.length_cons]
        omega
    rw [← hcount]
    tauto

/-- All that the encoder asks of a capture at its place. -/
structure Fits (index : Nat) (cursor : Cursor) (capture : Capture) : Prop where
  ids : cursor.nextId + 1 + capture.operations.length ≤ maxU64
  distinct : (capture.operations.map Operation.spanId).Nodup
  start : -maxI64 - 1 ≤ offsetAt cursor capture ∧ offsetAt cursor capture ≤ maxI64
  finish : 0 ≤ endAt cursor capture ∧ endAt cursor capture + scenarioGapNs ≤ maxI64
  index : (index : Int) ≤ maxI64
  operations : ∀ operation ∈ capture.operations, hasParent capture operation = true ∧
    ∀ time ∈ times operation, Placeable (offsetAt cursor capture) time
  count : capture.operations ≠ [] →
    cursor.operationCount + capture.operations.length ≤ maxUsize

theorem captureDemands_met :
    (∀ demand ∈ captureDemands index cursor capture, demand.met = true) ↔
      Fits index cursor capture := by
  have hmin : -maxI64 - 1 ≤ 0 := by decide
  have hgap : scenarioGapNs = 1 := rfl
  have hend : endAt cursor capture = capture.scenario.endNs + offsetAt cursor capture := rfl
  have hstart : offsetAt cursor capture = cursor.nextTime + -capture.scenario.startNs := rfl
  simp only [captureDemands, List.forall_mem_append, List.forall_mem_cons, operationsDemands_met,
    reported_met, assumed_met, checkedAdd_isSome, decide_eq_true_eq, identifiable, Bool.and_eq_true,
    List.not_mem_nil, false_imp_iff, implies_true, and_true]
  constructor
  · rintro ⟨⟨⟨-, ⟨hids, hdistinct⟩, hoffset, hfinish, hindex, hnonneg⟩, hoperations, hcount⟩,
      hafter⟩
    exact ⟨hids, hdistinct, by omega, by omega, hindex, hoperations, hcount⟩
  · rintro ⟨hids, hdistinct, hoffset, hfinish, hindex, hoperations, hcount⟩
    exact ⟨⟨⟨by omega, ⟨hids, hdistinct⟩, by omega, by omega, hindex, by omega⟩, hoperations,
      hcount⟩, by omega⟩

end Demands

/-! ### Encoding what is kept -/

section Kept

open CaptureSession (maxI64 maxU64)

variable {component : String} {capture : Capture} {cursor earlier : Cursor} {index place : Nat}

/-- A cursor that no capture has moved beyond another one. -/
structure Behind (earlier cursor : Cursor) : Prop where
  nextId : earlier.nextId ≤ cursor.nextId
  nonneg : 0 ≤ earlier.nextTime
  nextTime : earlier.nextTime ≤ cursor.nextTime
  operationCount : earlier.operationCount ≤ cursor.operationCount

/-- A scenario does not end before it starts, and starts at a time of 64 bits. -/
structure Lasting (capture : Capture) : Prop where
  lasts : capture.scenario.startNs ≤ capture.scenario.endNs
  bounded : capture.scenario.startNs ≤ maxI64

/-- No operation has a time before the scenario. -/
def Timely (capture : Capture) : Prop :=
  ∀ operation ∈ capture.operations, ∀ time ∈ times operation, capture.scenario.startNs ≤ time

/-- A capture that is dropped leaves the cursor where it is. -/
theorem Behind.dropped (h : Behind earlier cursor) (hlasting : Lasting capture) :
    Behind earlier (after cursor capture) := by
  have hlasts := hlasting.lasts
  obtain ⟨hnextId, hnonneg, hnextTime, hcount⟩ := h
  refine ⟨?_, hnonneg, ?_, ?_⟩ <;>
    simp only [after, endAt, offsetAt, scenarioGapNs] <;> omega

theorem Behind.kept (h : Behind earlier cursor) (hlasting : Lasting capture) :
    Behind (after earlier (subtrees component capture)) (after cursor capture) := by
  have hlasts := hlasting.lasts
  have hlength := (sublist_subtrees component capture).length_le
  have hscenario : (subtrees component capture).scenario = capture.scenario := rfl
  obtain ⟨hnextId, hnonneg, hnextTime, hcount⟩ := h
  refine ⟨?_, ?_, ?_, ?_⟩ <;>
    simp only [after, endAt, offsetAt, scenarioGapNs, hscenario] <;> omega

theorem hasParent_subtrees {operation : Operation}
    (h : operation ∈ (subtrees component capture).operations) :
    hasParent (subtrees component capture) operation = true := by
  unfold hasParent
  rw [Bool.or_eq_true, decide_eq_true_eq, decide_eq_true_eq]
  refine (parent_subtrees h).imp_right ?_
  rintro ⟨parent, hparent, heq⟩
  exact List.mem_map.mpr ⟨parent, hparent, heq.symm⟩

/-- What is kept of a capture fits at an earlier place. -/
theorem Fits.kept (h : Fits index cursor capture) (hbehind : Behind earlier cursor)
    (hplace : place ≤ index) (hlasting : Lasting capture) (htimely : Timely (subtrees component capture)) :
    Fits place earlier (subtrees component capture) := by
  have hsublist := sublist_subtrees component capture
  have hlength := hsublist.length_le
  have hscenario : (subtrees component capture).scenario = capture.scenario := rfl
  obtain ⟨hids, hdistinct, hstart, hfinish, hindex, hoperations, hcount⟩ := h
  obtain ⟨hnextId, hnonneg, hnextTime, hbehindCount⟩ := hbehind
  obtain ⟨hlasts, hbounded⟩ := hlasting
  have hmax : maxI64 = 9223372036854775807 := rfl
  simp only [endAt, offsetAt, scenarioGapNs] at hstart hfinish
  refine ⟨by omega, hdistinct.sublist (hsublist.map _), ?_, ?_, by omega, ?_, ?_⟩
  · simp only [offsetAt, hscenario]
    omega
  · simp only [endAt, offsetAt, scenarioGapNs, hscenario]
    omega
  · refine fun operation hoperation => ⟨hasParent_subtrees hoperation, fun time htime => ?_⟩
    have hplaced := (hoperations operation (hsublist.subset hoperation)).2 time htime
    have hlate := htimely operation hoperation time htime
    simp only [Placeable, offsetAt, hscenario] at hplaced hlate ⊢
    omega
  · intro hsome
    have hbound := hcount fun hnil => hsome (by
      rw [hnil] at hsublist
      exact List.sublist_nil.mp hsublist)
    omega

theorem capturesDemands_cons {rest : List Capture} :
    (∀ demand ∈ capturesDemands index cursor (capture :: rest), demand.met = true) ↔
      Fits index cursor capture ∧
        ∀ demand ∈ capturesDemands (index + 1) (after cursor capture) rest, demand.met = true := by
  rw [capturesDemands, List.forall_mem_append, captureDemands_met]

/-- The captures that are left fit where all of them do. -/
theorem capturesDemands_filter {captures : List Capture}
    (hlisted : ∀ capture ∈ captures, Listed capture)
    (hlasting : ∀ capture ∈ captures, Lasting capture)
    (htimely : ∀ kept ∈ filter captures component, Timely kept)
    (hbehind : Behind earlier cursor) (hplace : place ≤ index)
    (h : ∀ demand ∈ capturesDemands index cursor captures, demand.met = true) :
    ∀ demand ∈ capturesDemands place earlier (filter captures component), demand.met = true := by
  induction captures generalizing index place cursor earlier with
  | nil => exact fun demand hdemand => by cases hdemand
  | cons capture rest ih =>
    obtain ⟨hcapture, hrest⟩ := List.forall_mem_cons.mp hlisted
    obtain ⟨hlasts, hlastings⟩ := List.forall_mem_cons.mp hlasting
    obtain ⟨hfits, h⟩ := capturesDemands_cons.mp h
    rw [filter_cons hcapture] at htimely ⊢
    by_cases htop : HasTopLevel component capture
    · rw [if_pos htop] at htimely ⊢
      obtain ⟨htime, htimes⟩ := List.forall_mem_cons.mp htimely
      exact capturesDemands_cons.mpr ⟨hfits.kept hbehind hplace hlasts htime,
        ih hrest hlastings htimes (hbehind.kept hlasts) (Nat.succ_le_succ hplace) h⟩
    · rw [if_neg htop] at htimely ⊢
      exact ih hrest hlastings htimely (hbehind.dropped hlasts) (Nat.le_succ_of_le hplace) h

def operationTotal (captures : List Capture) : Nat :=
  (captures.map fun capture => capture.operations.length).sum

theorem operationTotal_filter (component : String) {captures : List Capture}
    (hlisted : ∀ capture ∈ captures, Listed capture) :
    operationTotal (filter captures component) ≤ operationTotal captures ∧
      (filter captures component).length ≤ captures.length := by
  refine ⟨?_, List.length_filterMap_le _ _⟩
  unfold operationTotal
  induction captures with
  | nil => exact le_rfl
  | cons capture rest ih =>
    obtain ⟨hcapture, hrest⟩ := List.forall_mem_cons.mp hlisted
    have hlength := (sublist_subtrees component capture).length_le
    have hothers := ih hrest
    rw [filter_cons hcapture]
    split
    · simp only [List.map_cons, List.sum_cons]
      omega
    · simp only [List.map_cons, List.sum_cons]
      omega

end Kept

section Result

open Demands
open CaptureSession (maxI64 maxU64)

variable {serialize : Document → Except String String} {captures : List Capture}
  {metadata : Metadata} {identity : Identity}

theorem encodeCaptures_count {runSpanId : WireSpanId} {index : Nat} {cursor last : Cursor}
    {groups : List Group}
    (h : encodeCaptures identity runSpanId index cursor captures = .ok (groups, last)) :
    last.operationCount = cursor.operationCount + operationTotal captures := by
  induction captures generalizing index cursor groups with
  | nil =>
    obtain ⟨-, rfl⟩ := Prod.mk.inj (Except.ok.inj h)
    rfl
  | cons capture rest ih =>
    obtain ⟨⟨group, next⟩, hgroup, h⟩ := bind_ok h
    obtain ⟨⟨others, final⟩, hothers, h⟩ := bind_ok h
    obtain ⟨-, rfl⟩ := Prod.mk.inj (Except.ok.inj h)
    obtain ⟨rfl, -⟩ := encodeCapture_ok hgroup
    rw [ih hothers]
    exact Nat.add_assoc _ _ _

theorem encodeDocument_count {document : Document} {count : Nat}
    (h : encodeDocument captures metadata identity = .ok (document, count)) :
    count = operationTotal captures := by
  obtain ⟨-, -, h⟩ := bind_ok h
  obtain ⟨runSpanId, -, h⟩ := bind_ok h
  obtain ⟨nextId, -, h⟩ := bind_ok h
  obtain ⟨⟨groups, cursor⟩, hgroups, h⟩ := bind_ok h
  obtain ⟨startNs, -, h⟩ := bind_ok h
  obtain ⟨endNs, -, h⟩ := bind_ok h
  obtain ⟨-, rfl⟩ := Prod.mk.inj (Except.ok.inj h)
  exact (encodeCaptures_count hgroups).trans (Nat.zero_add _)

/-- Captures can be encoded if all demands are met and there are not too many spans. -/
theorem encode_ok_iff (hserialize : ∀ document, ∃ text, serialize document = .ok text) :
    (∃ encoding, encode serialize captures metadata identity = .ok encoding) ↔
      (∀ demand ∈ demands captures identity, demand.met = true) ∧
        operationTotal captures + captures.length + 1 ≤ maxI32 := by
  have hwrite (document : Document) : ∃ text, write serialize document = .ok text := by
    obtain ⟨text, htext⟩ := hserialize document
    exact ⟨text, by rw [write, htext]⟩
  have hsize : maxI32 ≤ maxUsize := by decide
  rw [← (encodeDocument_follows captures metadata identity).ok_iff]
  constructor
  · rintro ⟨encoding, h⟩
    obtain ⟨⟨document, count⟩, hdocument, h⟩ := bind_ok h
    obtain ⟨otlpJson, -, h⟩ := bind_ok h
    obtain ⟨-, -, h⟩ := bind_ok h
    obtain ⟨_, hreport, -⟩ := bind_ok h
    rw [← encodeDocument_count hdocument]
    exact ⟨⟨_, hdocument⟩, of_decide_eq_true (report_ok hreport)⟩
  · rintro ⟨⟨⟨document, count⟩, hdocument⟩, hcount⟩
    obtain ⟨text, htext⟩ := hwrite document
    obtain rfl := encodeDocument_count hdocument
    refine ⟨⟨operationTotal captures + captures.length + 1, text⟩, ?_⟩
    unfold encode
    rw [hdocument]
    change (write serialize document >>= _) = _
    rw [htext]
    change (report _ _ >>= fun _ => report _ _ >>= _) = _
    rw [report, if_pos (decide_eq_true (hcount.trans hsize)), report,
      if_pos (decide_eq_true hcount)]
    rfl

/-- What is left can be encoded, if anything is and the times do not run backwards. -/
theorem encode_filter (hserialize : ∀ document, ∃ text, serialize document = .ok text)
    {component : String} (hlisted : ∀ capture ∈ captures, Listed capture)
    (hlasting : ∀ capture ∈ captures, Lasting capture)
    (htimely : ∀ kept ∈ filter captures component, Timely kept)
    (hsome : filter captures component ≠ [])
    (h : ∃ encoding, encode serialize captures metadata identity = .ok encoding) :
    ∃ encoding, encode serialize (filter captures component) metadata identity = .ok encoding := by
  rw [encode_ok_iff hserialize] at h ⊢
  obtain ⟨hdemands, hcount⟩ := h
  obtain ⟨htotal, hlength⟩ := operationTotal_filter component hlisted
  obtain ⟨-, hdemands⟩ := List.forall_mem_cons.mp hdemands
  obtain ⟨hfirst, hdemands⟩ := List.forall_mem_cons.mp hdemands
  have hstart : Behind ⟨identity.firstId + 1, scenarioTime, 0⟩
      ⟨identity.firstId + 1, scenarioTime, 0⟩ :=
    ⟨le_rfl, show 0 ≤ scenarioTime by decide, le_rfl, le_rfl⟩
  have hleft := capturesDemands_filter hlisted hlasting htimely hstart le_rfl hdemands
  refine ⟨List.forall_mem_cons.mpr ⟨?_, List.forall_mem_cons.mpr ⟨hfirst, hleft⟩⟩, by omega⟩
  rw [reported_met, List.isEmpty_eq_false_iff.mpr hsome, Bool.not_false]

open Classical in
/-- The filter keeps exactly the subtrees of the component, with the parents they need, and a
second time changes nothing. -/
theorem filter_exact (hserialize : ∀ document, ∃ text, serialize document = .ok text)
    (metadata : Metadata) (identity : Identity) (hlisted : ∀ capture ∈ captures, Listed capture)
    (component : String) :
    (filter captures component =
      (captures.filter fun capture => decide (HasTopLevel component capture)).map
        (subtrees component)) ∧
    (∀ kept ∈ filter captures component, ∀ operation ∈ kept.operations,
      operation.parentId = kept.scenario.spanId ∨
        ∃ parent ∈ kept.operations, operation.parentId = parent.spanId) ∧
    filter (filter captures component) component = filter captures component ∧
    (filter captures component ≠ [] → (∀ capture ∈ captures, Lasting capture) →
      (∀ kept ∈ filter captures component, Timely kept) →
      (∃ encoding, encode serialize captures metadata identity = .ok encoding) →
      ∃ encoding,
        encode serialize (filter captures component) metadata identity = .ok encoding) := by
  refine ⟨filter_eq hlisted, fun kept hkept operation hoperation => ?_, filter_filter hlisted,
    fun hsome hlasting htimely => encode_filter hserialize hlisted hlasting htimely hsome⟩
  obtain ⟨capture, -, -, rfl⟩ := (mem_filter hlisted).mp hkept
  exact parent_subtrees hoperation

end Result

/-! ### Mixed components -/

section Examples

open Demands (exists_ok)

def call (spanId parentId componentId : String) (startNs : Int) : Operation where
  order := 0
  spanId := spanId
  parentId := parentId
  componentId := componentId
  operationName := "read"
  startNs := startNs
  endNs := startNs + 10
  status := .ok
  inputs := []
  observations := []
  completion := none

def scenarioOf (startNs : Int) (operations : List Operation) : Capture where
  traceId := "00000000000000000000000000000001"
  scenarioName := "reads"
  run := ⟨"0000000000000001", none, startNs, startNs + 101, .ok⟩
  scenario := ⟨"0000000000000002", some "0000000000000001", startNs, startNs + 100, .ok⟩
  operations := operations

/-- A call of the store that calls the cache, and a call of the clock. -/
def mixedCapture : Capture :=
  scenarioOf 100 [call "0000000000000003" "0000000000000002" "store" 110,
    call "0000000000000004" "0000000000000003" "cache" 112,
    call "0000000000000005" "0000000000000002" "clock" 130]

theorem filter_exact_mixed :
    (filter [mixedCapture] "store").map (fun kept => kept.operations.map Operation.spanId) =
      [["0000000000000003", "0000000000000004"]] ∧
    filter (filter [mixedCapture] "store") "store" = filter [mixedCapture] "store" ∧
    ∃ encoding, encode (fun _ => .ok "") (filter [mixedCapture] "store") someMetadata .reference =
      .ok encoding := by
  have hlisted : ∀ capture ∈ [mixedCapture], Listed capture :=
    List.forall_mem_singleton.mpr ⟨by decide, by decide⟩
  have hok : (encode (fun _ => .ok "") [mixedCapture] someMetadata .reference).toOption.isSome =
      true := by decide +kernel
  obtain ⟨-, -, htwice, hencode⟩ :=
    filter_exact (fun _ => ⟨"", rfl⟩) someMetadata .reference hlisted "store"
  refine ⟨by decide, htwice, hencode (by decide) ?_ ?_ (exists_ok hok)⟩
  · exact List.forall_mem_singleton.mpr ⟨by decide, by decide⟩
  · unfold Timely
    decide

def earlyCaptures : List Capture :=
  [scenarioOf 100 [call "0000000000000003" "0000000000000002" "clock" 110],
    scenarioOf 300 [call "0000000000000003" "0000000000000002" "store" 250]]

def repeatedCapture : Capture :=
  scenarioOf 100 [call "0000000000000003" "0000000000000002" "store" 110,
    call "0000000000000003" "0000000000000002" "clock" 130]

/-- Nothing may be left to encode; a time before its scenario may fall before zero once the
scenarios before it are gone; and an operation may share its identity with one that is kept. -/
theorem filter_limits :
    ((encode (fun _ => .ok "") [mixedCapture] someMetadata .reference).toOption.isSome = true ∧
      ∀ encoding, encode (fun _ => .ok "") (filter [mixedCapture] "cache") someMetadata .reference ≠
        .ok encoding) ∧
    ((encode (fun _ => .ok "") earlyCaptures someMetadata .reference).toOption.isSome = true ∧
      ∀ encoding, encode (fun _ => .ok "") (filter earlyCaptures "store") someMetadata .reference ≠
        .ok encoding) ∧
    ∃ kept ∈ filter [repeatedCapture] "store", ∃ operation ∈ kept.operations,
      ¬ Belongs "store" repeatedCapture operation := by
  have hfailed {captures : List Capture}
      (h : (encode (fun _ => .ok "") captures someMetadata .reference).toOption.isSome = false)
      (encoding : Encoding) :
      encode (fun _ => .ok "") captures someMetadata .reference ≠ .ok encoding := by
    intro hok
    rw [hok] at h
    cases h
  refine ⟨⟨by decide +kernel, hfailed (by decide +kernel)⟩,
    ⟨by decide +kernel, hfailed (by decide +kernel)⟩, repeatedCapture, ?_⟩
  refine ⟨List.mem_singleton_self _, call "0000000000000003" "0000000000000002" "clock" 130,
    by simp [repeatedCapture, scenarioOf], fun h => ?_⟩
  rcases h.root_or_link with htop | ⟨above, ⟨habove, hlink⟩, -⟩
  · exact absurd htop.2 (by decide)
  · have hapart : ∀ above ∈ repeatedCapture.operations,
        "0000000000000002" ≠ above.spanId := by decide
    exact hapart above habove hlink

end Examples

end SpecGate.ComponentFilter

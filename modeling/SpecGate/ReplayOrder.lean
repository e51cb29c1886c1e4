import SpecGate.Comparison
import SpecGate.Intervals
import SpecGate.OtlpScalars
import SpecGate.ReplayedAncestry

/-!
The order of top-level operations in replay against their order in a comparison. Replay
sorts by start time and document position, the comparison engine by start and end time,
and each has its own test of the intervals. They agree exactly on orderly traces: no
operation ends before it starts, no two siblings share an interval, and of two top-level
operations that start together the first in the document ends first.
-/
namespace SpecGate.ReplayOrder

open SortedAssoc Sorting Checked IntegerText OtlpScalars ReplayModel ReplayDecoding ReplayedSpans
open Intervals
open RegistryLoading (Bytes)
open TraceModel (TraceSpan TraceDocument ctscSpans)
open Comparison (children childInterval intervalLe sortedChildren adjacentIssue sequentialChildren)

/-- The time that a text spells, for the times that the decoder has read. -/
def timeOf (text : String) : Int := (parseI64 text).toOption.getD 0

def spanInterval (span : Span) : Int × Int :=
  (timeOf span.startTimeUnixNano, timeOf span.endTimeUnixNano)

/-- What the comparison orders spans by. -/
structure Placement where
  key : SpanKey
  parent : SpanKey
  name : String
  start : Option Nat
  finish : Option Nat

def placement (span : Span) : Placement where
  key := spanKey span
  parent := parentKey span
  name := span.name
  start := (parseTextU64 span.startTimeUnixNano).map Int.toNat
  finish := (parseTextU64 span.endTimeUnixNano).map Int.toNat

def traceKey (span : TraceSpan) : SpanKey := (span.traceId, span.spanId)

def tracePlacement (span : TraceSpan) : Placement where
  key := traceKey span
  parent := (span.traceId, span.parentSpanId)
  name := span.name
  start := span.startTime
  finish := span.endTime

/-- A trace document holds the protocol spans of the replay document. -/
def SameSpans (spans : List Span) (trace : TraceDocument) : Prop :=
  trace.spans.map tracePlacement =
    (spans.filter fun span => span.name ∈ ctscSpans).map placement

/-- A parent whose children the comparison orders by their intervals. -/
def IsSequential (name : String) : Prop := name = scenarioSpan ∨ name = operationSpan

/-- The operation spans under one parent, in document order. -/
def siblings (spans : List Span) (key : SpanKey) : List Span :=
  spans.filter fun span => IsOperation span ∧ parentKey span = key

/-! ### The order of intervals -/

theorem isLE_interval {left right : Int × Int} : (compare left right).isLE = true ↔
    left.1 < right.1 ∨ left.1 = right.1 ∧ left.2 ≤ right.2 := by
  rw [compare_pair]
  rcases lt_trichotomy left.1 right.1 with hlt | heq | hgt
  · rw [Int.compare_eq_lt.mpr hlt]
    simp [hlt]
  · rw [Int.compare_eq_eq.mpr heq]
    simp [heq, Int.isLE_compare]
  · rw [Int.compare_eq_gt.mpr hgt]
    simp
    omega

/-- The interval of a loaded span, as integers. -/
def traceInterval (span : TraceSpan) : Int × Int :=
  ((childInterval span).1, (childInterval span).2)

theorem intervalLe_iff {left right : TraceSpan} : intervalLe left right = true ↔
    (compare (traceInterval left) (traceInterval right)).isLE = true := by
  rw [isLE_interval]
  unfold intervalLe traceInterval
  simp only [Bool.or_eq_true, Bool.and_eq_true, decide_eq_true_eq]
  omega

theorem adjacentIssue_eq_none {spans : List TraceSpan} :
    adjacentIssue spans = none ↔ (spans.map traceInterval).IsChain Apart := by
  induction spans with
  | nil => exact iff_of_true rfl .nil
  | cons first rest ih =>
    cases rest with
    | nil => exact iff_of_true rfl (.singleton _)
    | cons second rest =>
      rw [List.map_cons, List.map_cons, List.isChain_cons_cons, ← List.map_cons, ← ih,
        adjacentIssue]
      unfold Apart traceInterval
      dsimp only
      split_ifs with hsame hover
      · refine iff_of_false (by simp) ?_
        omega
      · refine iff_of_false (by simp) ?_
        omega
      · refine (and_iff_right ?_).symm
        omega

theorem sortedChildren_perm (trace : TraceDocument) (parent : TraceSpan) :
    (sortedChildren trace parent).Perm (children trace parent) := List.mergeSort_perm _ _

theorem sortedChildren_sorted (trace : TraceDocument) (parent : TraceSpan) :
    (sortedChildren trace parent).Pairwise fun left right =>
      (compare (traceInterval left) (traceInterval right)).isLE = true := by
  have htrans : ∀ a b c : TraceSpan, intervalLe a b = true → intervalLe b c = true →
      intervalLe a c = true := by
    intro a b c hab hbc
    rw [intervalLe_iff] at hab hbc ⊢
    exact Std.TransCmp.isLE_trans hab hbc
  have htotal : ∀ a b : TraceSpan, (intervalLe a b || intervalLe b a) = true := by
    intro a b
    rw [Bool.or_eq_true, intervalLe_iff, intervalLe_iff]
    exact isLE_total _ _
  exact (List.pairwise_mergeSort htrans htotal _).imp intervalLe_iff.mp

theorem sequentialChildren_eq_ok {trace : TraceDocument} {parent : TraceSpan} {side path : String}
    {ordered : List TraceSpan} : sequentialChildren trace parent side path = .ok ordered ↔
      (∀ span ∈ children trace parent, ∃ start finish,
        TraceValidation.interval span = some (start, finish) ∧ start ≤ finish) ∧
      ((sortedChildren trace parent).map traceInterval).IsChain Apart ∧
      sortedChildren trace parent = ordered := by
  unfold sequentialChildren
  split
  · rename_i hinvalid
    refine iff_of_false (by simp) ?_
    rintro ⟨hforward, -⟩
    obtain ⟨span, hspan, hnone⟩ := List.any_eq_true.mp hinvalid
    obtain ⟨start, finish, hinterval, hle⟩ := hforward span hspan
    simp [hinterval, hle] at hnone
  · rename_i hvalid
    have hforward : ∀ span ∈ children trace parent, ∃ start finish,
        TraceValidation.interval span = some (start, finish) ∧ start ≤ finish := by
      intro span hspan
      have hbounds := List.any_eq_false.mp (Bool.eq_false_iff.mpr hvalid) span hspan
      cases hinterval : TraceValidation.interval span with
      | none => simp [hinterval] at hbounds
      | some bounds => exact ⟨bounds.1, bounds.2, rfl, by simpa [hinterval] using hbounds⟩
    cases hissue : adjacentIssue (sortedChildren trace parent) with
    | none =>
      simp only [Except.ok.injEq, adjacentIssue_eq_none.mp hissue, true_and]
      exact ⟨fun h => ⟨hforward, h⟩, fun h => h.2⟩
    | some issue =>
      refine iff_of_false (by simp) ?_
      rintro ⟨-, hchain, -⟩
      rw [adjacentIssue_eq_none.mpr hchain] at hissue
      cases hissue

/-! ### What the decoder has checked -/

theorem overlapping_eq_false {intervals : List (Int × Int)} :
    overlapping intervals = false ↔ intervals.IsChain Meets := by
  induction intervals with
  | nil => exact iff_of_true rfl .nil
  | cons first rest ih =>
    cases rest with
    | nil => exact iff_of_true rfl (.singleton _)
    | cons second rest =>
      rw [List.isChain_cons_cons, ← ih, overlapping, Bool.or_eq_false_iff,
        decide_eq_false_iff_not, not_lt]
      exact Iff.rfl

section Accepted

variable {spans : List Span} {registry : Registry} {scenarioRefs : List ScenarioRef}
  {operationRefs : List OperationRef}

theorem mem_siblings {key : SpanKey} {span : Span} :
    span ∈ siblings spans key ↔ span ∈ spans ∧ IsOperation span ∧ parentKey span = key := by
  unfold siblings
  rw [List.mem_filter, decide_eq_true_eq]

theorem spanInterval_eq {span : Span} {operation : OperationRef}
    (h : ReadOperation spans registry span operation) :
    spanInterval span = (operation.start, operation.finish) := by
  unfold spanInterval timeOf
  rw [h.start, h.finish]
  rfl

theorem siblingIntervals_eq (h : AcceptedSpans spans registry scenarioRefs operationRefs)
    (key : SpanKey) :
    siblingIntervals operationRefs key = (siblings spans key).map spanInterval := by
  have hfilter : siblings spans key =
      (spans.filter fun span => IsOperation span).filter fun span => parentKey span == key := by
    unfold siblings
    rw [List.filter_filter]
    refine List.filter_congr fun span _ => ?_
    rw [Bool.decide_and, Bool.and_comm, beq_eq_decide]
  rw [hfilter]
  unfold siblingIntervals
  refine (map_filter_of_forall₂ h.operations fun span operation hread => ⟨?_, ?_⟩).symm
  · rw [hread.parent]
  · exact spanInterval_eq hread

theorem siblings_meet (h : AcceptedSpans spans registry scenarioRefs operationRefs)
    (key : SpanKey) : (sort ((siblings spans key).map spanInterval)).IsChain Meets := by
  rcases List.eq_nil_or_concat (siblings spans key) with hnil | ⟨front, last, hlast⟩
  · rw [hnil]
    exact .nil
  · have hmem : last ∈ siblings spans key := by
      rw [hlast]
      simp
    obtain ⟨hspan, hoperation, hkey⟩ := mem_siblings.mp hmem
    obtain ⟨operation, hoperationMem, hread⟩ := exists_right_of_forall₂ h.operations
      (List.mem_filter.mpr ⟨hspan, decide_eq_true hoperation⟩)
    rw [← siblingIntervals_eq h, ← overlapping_eq_false, ← hkey, ← hread.parent]
    exact h.siblings operation hoperationMem

end Accepted

/-! ### The same spans on both sides -/

section Loaded

variable {spans : List Span} {registry : Registry} {scenarioRefs : List ScenarioRef}
  {operationRefs : List OperationRef} {trace : TraceDocument} {parent : TraceSpan}

theorem exists_wire_span (hsame : SameSpans spans trace) (hparent : parent ∈ trace.spans) :
    ∃ span ∈ spans, placement span = tracePlacement parent := by
  have hmem : tracePlacement parent ∈ trace.spans.map tracePlacement := List.mem_map_of_mem hparent
  rw [hsame] at hmem
  obtain ⟨span, hspan, hplacement⟩ := List.mem_map.mp hmem
  exact ⟨span, (List.mem_filter.mp hspan).1, hplacement⟩

theorem run_ne_scenario : runSpan ≠ scenarioSpan := by decide

theorem run_ne_operation : runSpan ≠ operationSpan := by decide

/-- Below a scenario or an operation the protocol spans are the operations. -/
theorem isOperation_of_parent (h : AcceptedSpans spans registry scenarioRefs operationRefs)
    {child found : Span} (hchild : child ∈ spans) (hfound : found ∈ spans)
    (hkind : IsSequential found.name) (hkey : parentKey child = spanKey found)
    (hname : child.name ∈ ctscSpans) : IsOperation child := by
  have hcases : child.name = runSpan ∨ child.name = scenarioSpan ∨ child.name = operationSpan ∨
      child.name = parallelSpan := by
    unfold runSpan scenarioSpan operationSpan parallelSpan
    simpa [ctscSpans] using hname
  rcases hcases with hrun | hscenario | hoperation | hparallel
  · obtain ⟨root, -, -, hroot, hunique⟩ := h.run
    have hid : IsId found.spanId spanWidth := (h.checked found hfound).2.1
    have hempty : found.spanId = "" := by
      have hparent : child.parentSpanId = found.spanId := congrArg Prod.snd hkey
      rw [← hparent, hunique child hchild hrun, hroot]
    rw [hempty] at hid
    cases hid
  · obtain ⟨run, hlink, hrun, -⟩ :=
      (ReplayedAncestry.isScenario_of_accepted h hchild hscenario).2
    have hsame : found = run :=
      List.inj_on_of_nodup_map h.keys hfound hlink.2.1 (hkey.symm.trans hlink.2.2)
    rw [hsame, IsSequential, hrun] at hkind
    rcases hkind with hkind | hkind
    · exact absurd hkind run_ne_scenario
    · exact absurd hkind run_ne_operation
  · exact hoperation
  · exact absurd hparallel (h.sequential child hchild)

theorem children_placements (h : AcceptedSpans spans registry scenarioRefs operationRefs)
    (hsame : SameSpans spans trace) (hparent : parent ∈ trace.spans)
    (hkind : IsSequential parent.name) :
    (children trace parent).map tracePlacement =
      (siblings spans (traceKey parent)).map placement := by
  obtain ⟨found, hfound, hplacement⟩ := exists_wire_span hsame hparent
  have hfoundKey : spanKey found = traceKey parent := congrArg Placement.key hplacement
  have hfoundName : found.name = parent.name := congrArg Placement.name hplacement
  have hchildren : children trace parent = trace.spans.filter
      ((fun found => decide (found.parent = traceKey parent)) ∘ tracePlacement) := by
    refine List.filter_congr fun child _ => ?_
    simp [tracePlacement, traceKey, beq_eq_decide]
  have hsiblings : siblings spans (traceKey parent) =
      (spans.filter fun span => span.name ∈ ctscSpans).filter
        ((fun found => decide (found.parent = traceKey parent)) ∘ placement) := by
    rw [List.filter_filter]
    refine List.filter_congr fun span hspan => ?_
    rw [Function.comp_apply, ← Bool.decide_and, decide_eq_decide]
    constructor
    · rintro ⟨hoperation, hkey⟩
      refine ⟨hkey, ?_⟩
      rw [show span.name = operationSpan from hoperation]
      decide
    · rintro ⟨hkey, hname⟩
      have hlink : parentKey span = spanKey found := hkey.trans hfoundKey.symm
      exact ⟨isOperation_of_parent h hspan hfound (hfoundName ▸ hkind) hlink hname, hkey⟩
  rw [hchildren, ← List.filter_map, hsame, List.filter_map, ← hsiblings]

/-- A loaded operation has the interval that the decoder has read. -/
theorem interval_of_placement (h : AcceptedSpans spans registry scenarioRefs operationRefs)
    {child : TraceSpan} {span : Span} (hspan : span ∈ spans) (hoperation : IsOperation span)
    (hplacement : tracePlacement child = placement span) :
    traceInterval child = spanInterval span ∧ ∃ start finish,
      TraceValidation.interval child = some (start, finish) ∧
        spanInterval span = ((start : Int), (finish : Int)) := by
  obtain ⟨operation, -, hread⟩ := exists_right_of_forall₂ h.operations
    (List.mem_filter.mpr ⟨hspan, decide_eq_true hoperation⟩)
  have hstart : child.startTime = some operation.start.toNat := by
    rw [show child.startTime = _ from congrArg Placement.start hplacement]
    unfold placement
    rw [parseTextU64_of_i64 hread.start hread.nonneg.1]
    rfl
  have hfinish : child.endTime = some operation.finish.toNat := by
    rw [show child.endTime = _ from congrArg Placement.finish hplacement]
    unfold placement
    rw [parseTextU64_of_i64 hread.finish hread.nonneg.2]
    rfl
  have hinterval : TraceValidation.interval child =
      some (operation.start.toNat, operation.finish.toNat) := by
    unfold TraceValidation.interval
    rw [hstart, hfinish]
  have hvalue : spanInterval span =
      ((operation.start.toNat : Int), (operation.finish.toNat : Int)) := by
    rw [spanInterval_eq hread, Int.toNat_of_nonneg hread.nonneg.1,
      Int.toNat_of_nonneg hread.nonneg.2]
  refine ⟨?_, _, _, hinterval, hvalue⟩
  unfold traceInterval childInterval
  rw [hinterval, hvalue]
  rfl

theorem children_matched (h : AcceptedSpans spans registry scenarioRefs operationRefs)
    (hsame : SameSpans spans trace) (hparent : parent ∈ trace.spans)
    (hkind : IsSequential parent.name) :
    List.Forall₂ (fun child span => tracePlacement child = placement span)
      (children trace parent) (siblings spans (traceKey parent)) := by
  have hplacements := children_placements h hsame hparent hkind
  rwa [← List.forall₂_eq_eq_eq, List.forall₂_map_left_iff, List.forall₂_map_right_iff]
    at hplacements

/-- The key and the interval of a sibling, on both sides. -/
theorem children_entries (h : AcceptedSpans spans registry scenarioRefs operationRefs)
    (hsame : SameSpans spans trace) (hparent : parent ∈ trace.spans)
    (hkind : IsSequential parent.name) :
    ((children trace parent).map fun child => (traceKey child, traceInterval child)) =
      (siblings spans (traceKey parent)).map fun span => (spanKey span, spanInterval span) := by
  have hmatched := children_matched h hsame hparent hkind
  rw [← List.forall₂_eq_eq_eq, List.forall₂_map_left_iff, List.forall₂_map_right_iff]
  refine forall₂_imp_of_mem hmatched fun span hspan child hplacement => ?_
  obtain ⟨hmem, hoperation, -⟩ := mem_siblings.mp hspan
  have hinterval := (interval_of_placement h hmem hoperation hplacement).1
  have hkey : traceKey child = spanKey span := congrArg Placement.key hplacement
  rw [hkey, hinterval]

theorem traceInterval_eq (h : AcceptedSpans spans registry scenarioRefs operationRefs)
    (hsame : SameSpans spans trace) (hparent : parent ∈ trace.spans)
    (hkind : IsSequential parent.name) :
    (children trace parent).map traceInterval =
      (siblings spans (traceKey parent)).map spanInterval := by
  have hentries := congrArg (List.map Prod.snd) (children_entries h hsame hparent hkind)
  rw [List.map_map, List.map_map] at hentries
  exact hentries

theorem sortedIntervals_eq (h : AcceptedSpans spans registry scenarioRefs operationRefs)
    (hsame : SameSpans spans trace) (hparent : parent ∈ trace.spans)
    (hkind : IsSequential parent.name) :
    (sortedChildren trace parent).map traceInterval =
      sort ((siblings spans (traceKey parent)).map spanInterval) := by
  have hperm : ((sortedChildren trace parent).map traceInterval).Perm
      (sort ((siblings spans (traceKey parent)).map spanInterval)) := by
    rw [← traceInterval_eq h hsame hparent hkind]
    exact ((sortedChildren_perm trace parent).map traceInterval).trans (sort_perm _).symm
  have hsorted : ((sortedChildren trace parent).map traceInterval).Pairwise fun left right =>
      (compare left right).isLE = true := by
    rw [List.pairwise_map]
    exact sortedChildren_sorted trace parent
  have hkeys : ∀ a ∈ (sortedChildren trace parent).map traceInterval,
      ∀ b ∈ (sortedChildren trace parent).map traceInterval, id a = id b → a = b :=
    fun _ _ _ _ heq => heq
  exact eq_of_sorted hkeys hperm hsorted (sortBy_sorted id _)

/-- The comparison takes the children of a parent in order exactly where the operations run
forward and share no interval. -/
theorem exists_ordered_iff (h : AcceptedSpans spans registry scenarioRefs operationRefs)
    (hsame : SameSpans spans trace) (hparent : parent ∈ trace.spans)
    (hkind : IsSequential parent.name) (side path : String) :
    (∃ ordered, sequentialChildren trace parent side path = .ok ordered) ↔
      (∀ span ∈ siblings spans (traceKey parent), Forward (spanInterval span)) ∧
        ((siblings spans (traceKey parent)).map spanInterval).Nodup := by
  have hforward : (∀ span ∈ siblings spans (traceKey parent), Forward (spanInterval span)) ↔
      ∀ child ∈ children trace parent, ∃ start finish,
        TraceValidation.interval child = some (start, finish) ∧ start ≤ finish := by
    refine forall_iff_of_forall₂ (children_matched h hsame hparent hkind)
      fun span hspan child hplacement => ?_
    obtain ⟨hmem, hoperation, -⟩ := mem_siblings.mp hspan
    obtain ⟨-, start, finish, hinterval, hvalue⟩ :=
      interval_of_placement h hmem hoperation hplacement
    rw [hvalue, hinterval]
    unfold Forward
    constructor
    · intro hle
      exact ⟨start, finish, rfl, by simpa using hle⟩
    · rintro ⟨_, _, hsome, hle⟩
      obtain ⟨rfl, rfl⟩ := Prod.mk.inj (Option.some.inj hsome)
      simpa using hle
  simp only [sequentialChildren_eq_ok, ← hforward, sortedIntervals_eq h hsame hparent hkind]
  rw [exists_and_left, exists_and_left, and_congr_right_iff]
  intro hall
  have hsorted : ∀ interval ∈ sort ((siblings spans (traceKey parent)).map spanInterval),
      Forward interval := by
    intro interval hinterval
    obtain ⟨span, hspan, rfl⟩ := List.mem_map.mp ((sort_perm _).mem_iff.mp hinterval)
    exact hall span hspan
  rw [chain_apart_iff_nodup hsorted (siblings_meet h _), (sort_perm _).nodup_iff]
  exact and_iff_left ⟨_, rfl⟩

end Loaded

/-! ### Both orders -/

/-- The operations under one parent with what replay sorts them by. -/
def keyedSpans (spans : List Span) (key : SpanKey) : List ((Int × Nat) × Span) :=
  (spans.zipIdx.filter fun entry => IsOperation entry.1 ∧ parentKey entry.1 = key).map fun entry =>
    ((timeOf entry.1.startTimeUnixNano, entry.2), entry.1)

/-- The operations under one parent in the order of replay. -/
def replayOrder (spans : List Span) (key : SpanKey) : List Span :=
  (sortBy Prod.fst (keyedSpans spans key)).map Prod.snd

/-- Of two operations that start together, the first in the document ends no later. -/
def EarlierEndsFirst (left right : Span) : Prop :=
  (spanInterval left).1 = (spanInterval right).1 → (spanInterval left).2 ≤ (spanInterval right).2

theorem keyedSpans_map (spans : List Span) (key : SpanKey) :
    (keyedSpans spans key).map Prod.snd = siblings spans key := by
  unfold keyedSpans siblings
  rw [List.map_map]
  have hfilter := List.filter_map (f := Prod.fst) (l := spans.zipIdx)
    (p := fun span => decide (IsOperation span ∧ parentKey span = key))
  rw [List.zipIdx_map_fst] at hfilter
  exact hfilter.symm

theorem keyedSpans_positions (spans : List Span) (key : SpanKey) :
    (keyedSpans spans key).Pairwise fun left right => left.1.2 < right.1.2 := by
  unfold keyedSpans
  rw [List.pairwise_map]
  refine List.Pairwise.filter _ ?_
  have hrange : (spans.zipIdx.map Prod.snd).Pairwise (· < ·) := by
    rw [List.zipIdx_map_snd]
    exact List.pairwise_lt_range'
  rwa [List.pairwise_map] at hrange

theorem start_of_mem_keyedSpans {spans : List Span} {key : SpanKey} {entry : (Int × Nat) × Span}
    (h : entry ∈ keyedSpans spans key) : entry.1.1 = (spanInterval entry.2).1 := by
  obtain ⟨found, -, rfl⟩ := List.mem_map.mp h
  rfl

theorem topLevel_eq_ok {spans : List Span} {registry : Registry}
    {scenarioRefs : List ScenarioRef} {operationRefs : List OperationRef}
    (h : AcceptedSpans spans registry scenarioRefs operationRefs) {scenario : ScenarioRef}
    {selected : List Span} : topLevel spans scenario = .ok selected ↔
      replayOrder spans (scenario.traceId, scenario.spanId) = selected := by
  have hfilter : (spans.zipIdx.filter fun entry => IsTopLevel scenario entry.1) =
      spans.zipIdx.filter fun entry => IsOperation entry.1 ∧
        parentKey entry.1 = (scenario.traceId, scenario.spanId) := by
    refine List.filter_congr fun entry _ => decide_eq_decide.mpr ?_
    unfold IsTopLevel parentKey
    rw [Prod.mk.injEq]
  have hkeyed : mapAll startKey (spans.zipIdx.filter fun entry => IsTopLevel scenario entry.1) =
      .ok (keyedSpans spans (scenario.traceId, scenario.spanId)) := by
    rw [hfilter]
    refine mapAll_eq_map fun entry hentry => ?_
    have hmem := List.fst_mem_of_mem_zipIdx (List.mem_filter.mp hentry).1
    obtain ⟨-, -, time, htime, hnonneg⟩ := h.checked entry.1 hmem
    have hparse : parseTime entry.1.startTimeUnixNano "top-level operation" = .ok time :=
      parseTime_eq_ok.mpr ⟨htime, hnonneg⟩
    unfold startKey
    rw [hparse]
    unfold timeOf
    rw [htime]
    rfl
  unfold topLevel
  rw [bind_eq_ok]
  constructor
  · rintro ⟨keyed, hrun, hselected⟩
    obtain rfl := Except.ok.inj (hkeyed.symm.trans hrun)
    exact Except.ok.inj hselected
  · rintro rfl
    exact ⟨_, hkeyed, rfl⟩

/-- Replay's order is an order of the intervals exactly where ties in the start times are
broken alike. -/
theorem replayOrder_sorted_iff (spans : List Span) (key : SpanKey) :
    ((replayOrder spans key).Pairwise fun left right =>
      (compare (spanInterval left) (spanInterval right)).isLE = true) ↔
        (siblings spans key).Pairwise EarlierEndsFirst := by
  have hpositions := keyedSpans_positions spans key
  have hpositionKeys : ((keyedSpans spans key).map fun entry => entry.1.2).Nodup := by
    rw [List.nodup_iff_pairwise_ne, List.pairwise_map]
    exact hpositions.imp fun hlt => Nat.ne_of_lt hlt
  have hkeys : ((keyedSpans spans key).map Prod.fst).Nodup := by
    have hcomp : ((keyedSpans spans key).map fun entry => entry.1.2) =
        ((keyedSpans spans key).map Prod.fst).map Prod.snd := by
      rw [List.map_map]
      rfl
    rw [hcomp] at hpositionKeys
    exact hpositionKeys.of_map
  have hself : sortBy (fun entry => entry.1.2) (keyedSpans spans key) = keyedSpans spans key :=
    sortBy_eq_self (hpositions.imp fun hlt => by rw [Nat.isLE_compare]; exact Nat.le_of_lt hlt)
  unfold replayOrder
  rw [List.pairwise_map, sortBy_pairwise_iff hkeys, ← keyedSpans_map, List.pairwise_map, ← hself,
    sortBy_pairwise_iff hpositionKeys, hself]
  refine forall₂_congr fun left hleft => forall₂_congr fun right hright => ?_
  have hleftStart := start_of_mem_keyedSpans hleft
  have hrightStart := start_of_mem_keyedSpans hright
  rw [compare_pair, Ordering.then_eq_lt, Int.compare_eq_lt, Int.compare_eq_eq, Nat.compare_eq_lt,
    isLE_interval, hleftStart, hrightStart]
  unfold EarlierEndsFirst
  omega

/-! ### Agreement -/

/-- A decoded scenario invokes the top-level operations of its span in this order. -/
structure Invokes (spans : List Span) (registry : Registry) (scenario : ScenarioRef)
    (decoded : Scenario) : Prop where
  name : decoded.name = scenario.name
  index : decoded.index = scenario.index
  operations : ∃ selected, topLevel spans scenario = .ok selected ∧
    List.Forall₂ (fun span operation => decodeOperation registry span = .ok operation) selected
      decoded.operations

/-- The comparison takes every sequential parent, and takes the top-level operations of each
scenario in the order of replay. -/
structure Agrees (spans : List Span) (scenarios : List ScenarioRef) (trace : TraceDocument) :
    Prop where
  accepted : ∀ parent ∈ trace.spans, IsSequential parent.name → ∀ side path, ∃ ordered,
    sequentialChildren trace parent side path = .ok ordered
  order : ∀ scenario ∈ scenarios, ∀ parent ∈ trace.spans,
    traceKey parent = (scenario.traceId, scenario.spanId) → ∀ side path selected,
      topLevel spans scenario = .ok selected → ∃ ordered,
        sequentialChildren trace parent side path = .ok ordered ∧
          ordered.map traceKey = selected.map spanKey

/-- No operation ends before it starts, no two siblings share an interval, and of two
top-level operations that start together the first in the document ends no later. -/
structure Orderly (spans : List Span) : Prop where
  forward : ∀ span ∈ spans, IsOperation span → Forward (spanInterval span)
  apart : ∀ key, ((siblings spans key).map spanInterval).Nodup
  earlier : ∀ scenario ∈ spans, scenario.name = scenarioSpan →
    (siblings spans (spanKey scenario)).Pairwise EarlierEndsFirst

section Agreement

variable {spans : List Span} {registry : Registry} {scenarioRefs : List ScenarioRef}
  {operationRefs : List OperationRef} {trace : TraceDocument} {parent : TraceSpan}

theorem replayOrder_perm (spans : List Span) (key : SpanKey) :
    (replayOrder spans key).Perm (siblings spans key) := by
  rw [← keyedSpans_map]
  exact (sortBy_perm Prod.fst _).map Prod.snd

theorem siblings_keys_nodup (h : AcceptedSpans spans registry scenarioRefs operationRefs)
    (key : SpanKey) : ((siblings spans key).map spanKey).Nodup :=
  h.keys.sublist (List.filter_sublist.map spanKey)

theorem order_iff (h : AcceptedSpans spans registry scenarioRefs operationRefs)
    (hsame : SameSpans spans trace) (hparent : parent ∈ trace.spans)
    (hkind : IsSequential parent.name) {side path : String} {ordered : List TraceSpan}
    (hordered : sequentialChildren trace parent side path = .ok ordered) :
    ordered.map traceKey = (replayOrder spans (traceKey parent)).map spanKey ↔
      (siblings spans (traceKey parent)).Pairwise EarlierEndsFirst := by
  obtain ⟨-, -, rfl⟩ := sequentialChildren_eq_ok.mp hordered
  have hapart := ((exists_ordered_iff h hsame hparent hkind side path).mp ⟨_, hordered⟩).2
  set engine := (sortedChildren trace parent).map fun child => (traceKey child, traceInterval child)
    with hengine
  set replay := (replayOrder spans (traceKey parent)).map fun span =>
    (spanKey span, spanInterval span) with hreplay
  have hreplayPerm : replay.Perm ((siblings spans (traceKey parent)).map fun span =>
      (spanKey span, spanInterval span)) := (replayOrder_perm spans _).map _
  have hperm : engine.Perm replay := by
    refine ((sortedChildren_perm trace parent).map _).trans ?_
    rw [children_entries h hsame hparent hkind]
    exact hreplayPerm.symm
  have hkeys : (keys replay).Nodup := by
    refine ((hreplayPerm.map Prod.fst).nodup_iff).mpr ?_
    rw [List.map_map]
    exact siblings_keys_nodup h _
  have hengineKeys : (sortedChildren trace parent).map traceKey = keys engine := by
    rw [hengine, SortedAssoc.keys, List.map_map]
    rfl
  have hreplayKeys : (replayOrder spans (traceKey parent)).map spanKey = keys replay := by
    rw [hreplay, SortedAssoc.keys, List.map_map]
    rfl
  have hsorted : engine.Pairwise fun left right => (compare left.2 right.2).isLE = true := by
    rw [hengine, List.pairwise_map]
    exact sortedChildren_sorted trace parent
  have hreplaySorted : (replay.Pairwise fun left right => (compare left.2 right.2).isLE = true) ↔
      (siblings spans (traceKey parent)).Pairwise EarlierEndsFirst := by
    rw [hreplay, List.pairwise_map, ← replayOrder_sorted_iff]
  rw [hengineKeys, hreplayKeys, ← hreplaySorted]
  constructor
  · intro hsameKeys
    have hequal := eq_of_perm_of_keys hkeys hsameKeys.symm hperm.symm
    rwa [hequal]
  · intro hreplayOrder
    have hintervals : (replay.map Prod.snd).Nodup := by
      refine ((hreplayPerm.map Prod.snd).nodup_iff).mpr ?_
      rw [List.map_map]
      exact hapart
    have hdistinct : ∀ a ∈ replay, ∀ b ∈ replay, a.2 = b.2 → a = b := fun a ha b hb heq =>
      List.inj_on_of_nodup_map hintervals ha hb heq
    rw [eq_of_sorted hdistinct hperm.symm hreplayOrder hsorted]

theorem exists_trace_span (hsame : SameSpans spans trace) {span : Span} (hspan : span ∈ spans)
    (hname : span.name ∈ ctscSpans) :
    ∃ parent ∈ trace.spans, tracePlacement parent = placement span := by
  have hmem : placement span ∈
      (spans.filter fun span => span.name ∈ ctscSpans).map placement :=
    List.mem_map_of_mem (List.mem_filter.mpr ⟨hspan, decide_eq_true hname⟩)
  rw [← hsame] at hmem
  exact List.mem_map.mp hmem

theorem name_mem_ctscSpans {name : String} (h : IsSequential name) : name ∈ ctscSpans := by
  rcases h with rfl | rfl
  · decide
  · decide

/-- The parent of an operation, as the comparison sees it. -/
theorem exists_trace_parent (h : AcceptedSpans spans registry scenarioRefs operationRefs)
    (hsame : SameSpans spans trace) {span : Span} (hspan : span ∈ spans)
    (hoperation : IsOperation span) :
    ∃ parent ∈ trace.spans, IsSequential parent.name ∧ traceKey parent = parentKey span := by
  obtain ⟨operation, -, hread⟩ := exists_right_of_forall₂ h.operations
    (List.mem_filter.mpr ⟨hspan, decide_eq_true hoperation⟩)
  obtain ⟨found, hfound, hkind⟩ := hread.found
  obtain ⟨hmem, hkey⟩ := (byId_eq_some h.keys).mp hfound
  obtain ⟨parent, hparent, hplacement⟩ := exists_trace_span hsame hmem (name_mem_ctscSpans hkind)
  have hname : parent.name = found.name := congrArg Placement.name hplacement
  have hparentKey : traceKey parent = spanKey found := congrArg Placement.key hplacement
  exact ⟨parent, hparent, hname ▸ hkind, hparentKey.trans hkey⟩

theorem mem_scenarioRefs (h : AcceptedSpans spans registry scenarioRefs operationRefs)
    {scenario : Span} (hscenario : scenario ∈ spans) (hname : scenario.name = scenarioSpan) :
    ∃ ref ∈ scenarioRefs, (ref.traceId, ref.spanId) = spanKey scenario := by
  obtain ⟨position, hposition⟩ := List.mem_iff_getElem?.mp hscenario
  have hentry : (scenario, position) ∈
      spans.zipIdx.filter fun entry => entry.1.name == scenarioSpan := by
    rw [List.mem_filter]
    exact ⟨List.mk_mem_zipIdx_iff_getElem?.mpr hposition, beq_iff_eq.mpr hname⟩
  obtain ⟨ref, href, hread⟩ := exists_right_of_forall₂ h.scenarios hentry
  exact ⟨ref, href, hread.key⟩

theorem scenario_of_mem_refs (h : AcceptedSpans spans registry scenarioRefs operationRefs)
    {ref : ScenarioRef} (href : ref ∈ scenarioRefs) :
    ∃ scenario ∈ spans, scenario.name = scenarioSpan ∧
      spanKey scenario = (ref.traceId, ref.spanId) := by
  obtain ⟨entry, hentry, hread⟩ := exists_left_of_forall₂ h.scenarios href
  obtain ⟨hmem, hname⟩ := List.mem_filter.mp hentry
  exact ⟨entry.1, List.fst_mem_of_mem_zipIdx hmem, beq_iff_eq.mp hname, hread.key.symm⟩

theorem scenarioRefs_keys (h : AcceptedSpans spans registry scenarioRefs operationRefs) :
    (scenarioRefs.map fun ref => (ref.traceId, ref.spanId)) =
      (spans.filter fun span => span.name = scenarioSpan).map spanKey := by
  have hentries : (spans.filter fun span => span.name = scenarioSpan) =
      (spans.zipIdx.filter fun entry => entry.1.name == scenarioSpan).map Prod.fst := by
    conv_lhs => rw [← List.zipIdx_map_fst 0 spans, List.filter_map]
    congr 1
  have hmaps : List.Forall₂ (fun entry (ref : ScenarioRef) =>
      spanKey entry.1 = (ref.traceId, ref.spanId))
      (spans.zipIdx.filter fun entry => entry.1.name == scenarioSpan) scenarioRefs :=
    h.scenarios.imp fun _ _ hread => hread.key.symm
  rw [hentries, List.map_map, ← List.forall₂_eq_eq_eq, List.forall₂_map_left_iff,
    List.forall₂_map_right_iff]
  exact (hmaps.imp fun _ _ heq => heq.symm).flip

theorem orderly_of_agrees (h : AcceptedSpans spans registry scenarioRefs operationRefs)
    (hsame : SameSpans spans trace) (hagrees : Agrees spans scenarioRefs trace) :
    Orderly spans := by
  have haccepted : ∀ span ∈ spans, IsOperation span →
      (∀ other ∈ siblings spans (parentKey span), Forward (spanInterval other)) ∧
        ((siblings spans (parentKey span)).map spanInterval).Nodup := by
    intro span hspan hoperation
    obtain ⟨parent, hparent, hkind, hkey⟩ := exists_trace_parent h hsame hspan hoperation
    rw [← hkey]
    exact (exists_ordered_iff h hsame hparent hkind "" "").mp
      (hagrees.accepted parent hparent hkind "" "")
  refine ⟨fun span hspan hoperation => ?_, fun key => ?_, fun scenario hscenario hname => ?_⟩
  · exact (haccepted span hspan hoperation).1 span (mem_siblings.mpr ⟨hspan, hoperation, rfl⟩)
  · rcases List.eq_nil_or_concat (siblings spans key) with hnil | ⟨front, last, hlast⟩
    · rw [hnil]
      exact List.nodup_nil
    · have hmem : last ∈ siblings spans key := by
        rw [hlast]
        simp
      obtain ⟨hspan, hoperation, rfl⟩ := mem_siblings.mp hmem
      exact (haccepted last hspan hoperation).2
  · obtain ⟨ref, href, hrefKey⟩ := mem_scenarioRefs h hscenario hname
    have hkind : IsSequential scenario.name := .inl hname
    obtain ⟨parent, hparent, hplacement⟩ :=
      exists_trace_span hsame hscenario (name_mem_ctscSpans hkind)
    have hparentName : parent.name = scenario.name := congrArg Placement.name hplacement
    have hparentKey : traceKey parent = spanKey scenario := congrArg Placement.key hplacement
    obtain ⟨ordered, hordered, hkeys⟩ := hagrees.order ref href parent hparent
      (hparentKey.trans hrefKey.symm) "" "" _ ((topLevel_eq_ok h).mpr rfl)
    rw [hrefKey, ← hparentKey] at hkeys
    rw [← hparentKey]
    exact (order_iff h hsame hparent (hparentName ▸ hkind) hordered).mp hkeys

theorem agrees_of_orderly (h : AcceptedSpans spans registry scenarioRefs operationRefs)
    (hsame : SameSpans spans trace) (horderly : Orderly spans) :
    Agrees spans scenarioRefs trace := by
  have haccepted : ∀ parent ∈ trace.spans, IsSequential parent.name → ∀ side path, ∃ ordered,
      sequentialChildren trace parent side path = .ok ordered := by
    intro parent hparent hkind side path
    refine (exists_ordered_iff h hsame hparent hkind side path).mpr ⟨?_, horderly.apart _⟩
    intro span hspan
    obtain ⟨hmem, hoperation, -⟩ := mem_siblings.mp hspan
    exact horderly.forward span hmem hoperation
  refine ⟨haccepted, fun ref href parent hparent hkey side path selected hselected => ?_⟩
  obtain ⟨scenario, hscenario, hname, hscenarioKey⟩ := scenario_of_mem_refs h href
  obtain ⟨found, hfound, hplacement⟩ := exists_wire_span hsame hparent
  have hfoundKey : spanKey found = traceKey parent := congrArg Placement.key hplacement
  have hfoundName : found.name = parent.name := congrArg Placement.name hplacement
  obtain rfl : found = scenario := List.inj_on_of_nodup_map h.keys hfound hscenario
    (hfoundKey.trans (hkey.trans hscenarioKey.symm))
  have hkind : IsSequential parent.name := .inl (hfoundName ▸ hname)
  obtain ⟨ordered, hordered⟩ := haccepted parent hparent hkind side path
  refine ⟨ordered, hordered, ?_⟩
  rw [← (topLevel_eq_ok h).mp hselected, ← hkey]
  refine (order_iff h hsame hparent hkind hordered).mpr ?_
  rw [← hfoundKey]
  exact horderly.earlier found hscenario hname

theorem lookup_decodedMap (h : AcceptedSpans spans registry scenarioRefs operationRefs)
    {span : Span} (hspan : span ∈ spans) {operation : Operation}
    (hlookup : lookup (decodedMap operationRefs) (spanKey span) = some operation) :
    decodeOperation registry span = .ok operation := by
  obtain ⟨ref, href, heq⟩ := List.mem_map.mp (mem_of_mem_ofList (mem_of_lookup hlookup))
  obtain ⟨found, hfound, hread⟩ := exists_left_of_forall₂ h.operations href
  obtain ⟨hkey, hoperation⟩ := Prod.mk.inj heq
  obtain rfl : found = span := List.inj_on_of_nodup_map h.keys (List.mem_filter.mp hfound).1 hspan
    (hread.key.symm.trans hkey)
  rw [hread.decoded, hoperation]

theorem invokes_of_assembled (h : AcceptedSpans spans registry scenarioRefs operationRefs)
    {scenario : ScenarioRef} {decoded : Scenario}
    (hassembled : assembleScenario spans (decodedMap operationRefs) scenario = .ok decoded) :
    Invokes spans registry scenario decoded := by
  unfold assembleScenario at hassembled
  obtain ⟨selected, hselected, hassembled⟩ := bind_eq_ok.mp hassembled
  obtain ⟨-, hassembled⟩ := ensure_bind_eq_ok.mp hassembled
  obtain ⟨operations, hoperations, hassembled⟩ := bind_eq_ok.mp hassembled
  obtain rfl := Except.ok.inj hassembled
  refine ⟨rfl, rfl, selected, hselected, ?_⟩
  have hmem : ∀ span ∈ selected, span ∈ spans := by
    intro span hspan
    rw [← (topLevel_eq_ok h).mp hselected, (replayOrder_perm spans _).mem_iff] at hspan
    exact (mem_siblings.mp hspan).1
  have hfound := (mapAll_eq_ok.mp hoperations).flip
  refine (forall₂_imp_of_mem hfound fun span hspan operation hfound => ?_).flip
  exact lookup_decodedMap h (hmem span hspan) (okOr_eq_ok.mp hfound)

end Agreement

/-- Replay and comparison agree on an accepted bundle exactly where its trace is orderly. -/
theorem agrees_iff_orderly {readers : Readers} {manifestBytes registryBytes traceBytes : Bytes}
    {bundle : Bundle} (h : decode readers manifestBytes registryBytes traceBytes = .ok bundle) :
    ∃ document scenarios, readers.document traceBytes = .ok document ∧
      List.Forall₂ (Invokes (spansOf document) bundle.registry) scenarios bundle.scenarios ∧
      (scenarios.map fun scenario => (scenario.traceId, scenario.spanId)).Perm
        (((spansOf document).filter fun span => span.name = scenarioSpan).map spanKey) ∧
      ∀ trace, SameSpans (spansOf document) trace →
        (Agrees (spansOf document) scenarios trace ↔ Orderly (spansOf document)) := by
  obtain ⟨document, names, decoded, hdocument, hdecoded, hscenarios, -⟩ := decode_ok h
  obtain ⟨scenarioRefs, operationRefs, haccepted, hassembled, -⟩ := decodeSpans_ok hdecoded
  have hperm := sortBy_perm (fun scenario : ScenarioRef => (scenario.index, scenario.position))
    scenarioRefs
  refine ⟨document, _, hdocument, ?_, (hperm.map _).trans ?_, fun trace hsame => ?_⟩
  · rw [hscenarios]
    exact (mapAll_eq_ok.mp hassembled).imp fun _ _ => invokes_of_assembled haccepted
  · exact .of_eq (scenarioRefs_keys haccepted)
  · have hmem : ∀ scenario, scenario ∈ sortBy (fun scenario : ScenarioRef =>
        (scenario.index, scenario.position)) scenarioRefs ↔ scenario ∈ scenarioRefs :=
      fun scenario => hperm.mem_iff
    constructor
    · intro hagrees
      exact orderly_of_agrees haccepted hsame ⟨hagrees.accepted, fun scenario hscenario =>
        hagrees.order scenario ((hmem _).mpr hscenario)⟩
    · intro horderly
      have hagrees := agrees_of_orderly haccepted hsame horderly
      exact ⟨hagrees.accepted, fun scenario hscenario =>
        hagrees.order scenario ((hmem _).mp hscenario)⟩

/-- The span that the comparison sees where replay sees this one. -/
def loadedSpan (span : Span) : TraceSpan where
  traceId := span.traceId
  spanId := span.spanId
  parentSpanId := span.parentSpanId
  name := span.name
  startTime := (placement span).start
  endTime := (placement span).finish
  attributes := []
  events := []
  status := .unset
  resourceAttributes := []
  location := ""

theorem sameSpans_loaded (spans : List Span) :
    SameSpans spans ⟨(spans.filter fun span => span.name ∈ ctscSpans).map loadedSpan⟩ := by
  unfold SameSpans
  rw [List.map_map]
  rfl

/-- Two operations, one after the other, below one scenario. -/
def successiveOperations : List Span :=
  [ReplayedAncestry.exampleOperation "0000000000000003" "0000000000000002" "1" "2",
    ReplayedAncestry.exampleOperation "0000000000000004" "0000000000000002" "2" "4"]

theorem agrees_iff_orderly_successive :
    ∃ bundle, decode (ReplayedAncestry.exampleReaders successiveOperations) [] [] [] =
        .ok bundle ∧
      ∃ document scenarios,
        (ReplayedAncestry.exampleReaders successiveOperations).document [] = .ok document ∧
        List.Forall₂ (Invokes (spansOf document) bundle.registry) scenarios bundle.scenarios ∧
        (scenarios.map fun scenario => (scenario.traceId, scenario.spanId)).Perm
          (((spansOf document).filter fun span => span.name = scenarioSpan).map spanKey) ∧
        ∀ trace, SameSpans (spansOf document) trace →
          (Agrees (spansOf document) scenarios trace ↔ Orderly (spansOf document)) := by
  obtain ⟨bundle, hbundle⟩ : ∃ bundle,
      decode (ReplayedAncestry.exampleReaders successiveOperations) [] [] [] = .ok bundle :=
    ReplayedAncestry.exists_bundle (by decide +kernel)
  exact ⟨bundle, hbundle, agrees_iff_orderly hbundle⟩

/-- Two operations of no length at one moment. -/
def momentaryOperations : List Span :=
  [ReplayedAncestry.exampleOperation "0000000000000003" "0000000000000002" "2" "2",
    ReplayedAncestry.exampleOperation "0000000000000004" "0000000000000002" "2" "2"]

/-- Replay accepts and orders two operations that the comparison finds ambiguous. -/
theorem momentary_operations_disagree :
    ¬ ∀ (readers : Readers) (manifestBytes registryBytes traceBytes : Bytes) (bundle : Bundle)
      (document : OtlpDoc), decode readers manifestBytes registryBytes traceBytes = .ok bundle →
        readers.document traceBytes = .ok document →
        ∃ scenarios,
          List.Forall₂ (Invokes (spansOf document) bundle.registry) scenarios bundle.scenarios ∧
          ∀ trace, SameSpans (spansOf document) trace →
            Agrees (spansOf document) scenarios trace := by
  intro h
  obtain ⟨bundle, hbundle⟩ : ∃ bundle,
      decode (ReplayedAncestry.exampleReaders momentaryOperations) [] [] [] = .ok bundle :=
    ReplayedAncestry.exists_bundle (by decide +kernel)
  obtain ⟨scenarios, -, hagrees⟩ := h _ [] [] [] bundle _ hbundle rfl
  obtain ⟨document, names, decoded, hdocument, hdecoded, -, -⟩ := decode_ok hbundle
  obtain rfl := Except.ok.inj hdocument
  obtain ⟨scenarioRefs, operationRefs, hspans, -, -⟩ := decodeSpans_ok hdecoded
  have hparent : loadedSpan ReplayedAncestry.exampleScenario ∈
      ((spansOf (ReplayedAncestry.exampleDocument momentaryOperations)).filter fun span =>
        span.name ∈ ctscSpans).map loadedSpan := by
    refine List.mem_map_of_mem (List.mem_filter.mpr ⟨?_, by decide⟩)
    simp [spansOf, ReplayedAncestry.exampleDocument]
  have haccepted := (hagrees _ (sameSpans_loaded _)).accepted _ hparent (.inl rfl) "" ""
  have hapart :=
    ((exists_ordered_iff hspans (sameSpans_loaded _) hparent (.inl rfl) "" "").mp haccepted).2
  revert hapart
  decide

end SpecGate.ReplayOrder

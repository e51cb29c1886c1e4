import SpecGate.ReplayDecoding

/-!
What the replay decoder has checked of the spans it accepts: IDs and times one by one,
one root run, a parent for every scenario and operation, and no two siblings whose
intervals overlap.
-/
namespace SpecGate.ReplayedSpans

open SortedAssoc Sorting Checked IntegerText ReplayModel ReplayDecoding

/-! ### Single checks -/

theorem parseTime_eq_ok {value location : String} {time : Int} :
    parseTime value location = .ok time ↔ parseI64 value = .ok time ∧ 0 ≤ time := by
  unfold parseTime
  cases parseI64 value with
  | error error => simp
  | ok parsed =>
    dsimp only
    split_ifs with hneg
    · refine iff_of_false (by simp) ?_
      rintro ⟨hparsed, htime⟩
      obtain rfl := Except.ok.inj hparsed
      omega
    · constructor
      · intro hparsed
        obtain rfl := Except.ok.inj hparsed
        exact ⟨rfl, by omega⟩
      · intro hboth
        rw [Except.ok.inj hboth.1]

theorem validateId_eq_ok {value label : String} {length : Nat} :
    validateId value length label = .ok () ↔
      (value.toList.length == length && value.toList.any (· != '0') &&
        value.toList.all Validation.isHexDigit) = true := ensure_eq_ok

/-- A text of lowercase hexadecimal digits of the given width that are not all zero. -/
def IsId (value : String) (length : Nat) : Prop :=
  (value.toList.length == length && value.toList.any (· != '0') &&
    value.toList.all Validation.isHexDigit) = true

theorem checkSpans_ok {spans : List Span} {seen : List SpanKey}
    (h : checkSpans seen spans = .ok ()) :
    (spans.map spanKey).Nodup ∧ (∀ span ∈ spans, spanKey span ∉ seen) ∧
      ∀ span ∈ spans, IsId span.traceId traceWidth ∧ IsId span.spanId spanWidth ∧
        ∃ time, parseI64 span.startTimeUnixNano = .ok time ∧ 0 ≤ time := by
  induction spans generalizing seen with
  | nil => simp
  | cons span rest ih =>
    unfold checkSpans at h
    obtain ⟨_, htrace, h⟩ := bind_eq_ok.mp h
    obtain ⟨_, hspan, h⟩ := bind_eq_ok.mp h
    obtain ⟨hfresh, h⟩ := ensure_bind_eq_ok.mp h
    obtain ⟨time, htime, h⟩ := bind_eq_ok.mp h
    obtain ⟨hnodup, hseen, hchecked⟩ := ih h
    have hkey : spanKey span ∉ seen := of_decide_eq_true hfresh
    refine ⟨?_, ?_, ?_⟩
    · rw [List.map_cons, List.nodup_cons]
      refine ⟨fun hmem => ?_, hnodup⟩
      obtain ⟨other, hother, hsame⟩ := List.mem_map.mp hmem
      exact hseen other hother (hsame ▸ List.mem_cons_self)
    · rw [List.forall_mem_cons]
      exact ⟨hkey, fun other hother hmem => hseen other hother (List.mem_cons_of_mem _ hmem)⟩
    · rw [List.forall_mem_cons]
      exact ⟨⟨validateId_eq_ok.mp htrace, validateId_eq_ok.mp hspan, time,
        parseTime_eq_ok.mp htime⟩, hchecked⟩

theorem checkRuns_ok {spans : List Span} (h : checkRuns spans = .ok ()) :
    ∃ run ∈ spans, run.name = runSpan ∧ run.parentSpanId = "" ∧
      ∀ other ∈ spans, other.name = runSpan → other = run := by
  unfold checkRuns at h
  rw [ensure_eq_ok, Bool.and_eq_true, beq_iff_eq] at h
  obtain ⟨hlength, hroot⟩ := h
  obtain ⟨run, hruns⟩ := List.length_eq_one_iff.mp hlength
  rw [hruns] at hroot
  have hmem : ∀ span, span ∈ spans ∧ span.name = runSpan ↔ span = run := by
    intro span
    have hfilter : span ∈ spans.filter (fun span => span.name == runSpan) ↔ span ∈ [run] := by
      rw [hruns]
    simpa using hfilter
  have hrun := (hmem run).mpr rfl
  exact ⟨run, hrun.1, hrun.2, by simpa using hroot,
    fun other hother hname => (hmem other).mp ⟨hother, hname⟩⟩

theorem byId_eq_some {spans : List Span} (hkeys : (spans.map spanKey).Nodup) {key : SpanKey}
    {span : Span} : byId spans key = some span ↔ span ∈ spans ∧ spanKey span = key := by
  unfold byId
  induction spans with
  | nil => simp
  | cons head rest ih =>
    rw [List.map_cons, List.nodup_cons] at hkeys
    rw [List.find?_cons]
    by_cases hhead : spanKey head = key
    · rw [beq_iff_eq.mpr hhead, Option.some.injEq]
      constructor
      · rintro rfl
        exact ⟨List.mem_cons_self, hhead⟩
      · rintro ⟨hmem, hkey⟩
        rcases List.mem_cons.mp hmem with rfl | hrest
        · rfl
        · exact absurd (List.mem_map.mpr ⟨span, hrest, hkey.trans hhead.symm⟩) hkeys.1
    · rw [beq_false_of_ne hhead, ih hkeys.2, List.mem_cons]
      constructor
      · rintro ⟨hmem, hkey⟩
        exact ⟨.inr hmem, hkey⟩
      · rintro ⟨rfl | hmem, hkey⟩
        · exact absurd hkey hhead
        · exact ⟨hmem, hkey⟩

/-! ### Scenarios and operations -/

/-- A scenario span as the decoder reads it. -/
structure ReadScenario (spans : List Span) (entry : Span × Nat) (scenario : ScenarioRef) :
    Prop where
  key : (scenario.traceId, scenario.spanId) = spanKey entry.1
  position : scenario.position = entry.2
  parent : ∃ parent, byId spans (parentKey entry.1) = some parent ∧ parent.name = runSpan

theorem scenarioRef_ok {spans : List Span} {entry : Span × Nat} {scenario : ScenarioRef}
    (h : scenarioRef spans entry = .ok scenario) : ReadScenario spans entry scenario := by
  unfold scenarioRef at h
  obtain ⟨parent, hparent, h⟩ := bind_eq_ok.mp h
  obtain ⟨hrun, h⟩ := ensure_bind_eq_ok.mp h
  obtain ⟨_, -, h⟩ := bind_eq_ok.mp h
  obtain ⟨_, -, h⟩ := bind_eq_ok.mp h
  obtain ⟨_, -, h⟩ := bind_eq_ok.mp h
  obtain ⟨_, -, h⟩ := bind_eq_ok.mp h
  obtain ⟨-, h⟩ := ensure_bind_eq_ok.mp h
  obtain rfl := Except.ok.inj h
  exact ⟨rfl, rfl, parent, okOr_eq_ok.mp hparent, beq_iff_eq.mp hrun⟩

/-- An operation span as the decoder reads it. -/
structure ReadOperation (spans : List Span) (registry : Registry) (span : Span)
    (operation : OperationRef) : Prop where
  parent : operation.parent = parentKey span
  key : operation.key = spanKey span
  start : parseI64 span.startTimeUnixNano = .ok operation.start
  finish : parseI64 span.endTimeUnixNano = .ok operation.finish
  nonneg : 0 ≤ operation.start ∧ 0 ≤ operation.finish
  decoded : decodeOperation registry span = .ok operation.operation
  found : ∃ parent, byId spans (parentKey span) = some parent ∧
    (parent.name = scenarioSpan ∨ parent.name = operationSpan)

theorem operationRef_ok {spans : List Span} {registry : Registry} {span : Span}
    {operation : OperationRef} (h : operationRef spans registry span = .ok operation) :
    ReadOperation spans registry span operation := by
  unfold operationRef at h
  obtain ⟨parent, hparent, h⟩ := bind_eq_ok.mp h
  obtain ⟨hkind, h⟩ := ensure_bind_eq_ok.mp h
  obtain ⟨-, h⟩ := ensure_bind_eq_ok.mp h
  obtain ⟨start, hstart, h⟩ := bind_eq_ok.mp h
  obtain ⟨finish, hfinish, h⟩ := bind_eq_ok.mp h
  obtain ⟨decoded, hdecoded, h⟩ := bind_eq_ok.mp h
  obtain rfl := Except.ok.inj h
  have hstart := parseTime_eq_ok.mp hstart
  have hfinish := parseTime_eq_ok.mp hfinish
  exact ⟨rfl, rfl, hstart.1, hfinish.1, ⟨hstart.2, hfinish.2⟩, hdecoded,
    parent, okOr_eq_ok.mp hparent, by simpa using hkind⟩

/-! ### Accepted traces -/

/-- The scenario and operation spans of an accepted trace, read in document order. -/
structure AcceptedSpans (spans : List Span) (registry : Registry) (scenarioRefs : List ScenarioRef)
    (operationRefs : List OperationRef) : Prop where
  keys : (spans.map spanKey).Nodup
  checked : ∀ span ∈ spans, IsId span.traceId traceWidth ∧ IsId span.spanId spanWidth ∧
    ∃ time, parseI64 span.startTimeUnixNano = .ok time ∧ 0 ≤ time
  run : ∃ run ∈ spans, run.name = runSpan ∧ run.parentSpanId = "" ∧
    ∀ other ∈ spans, other.name = runSpan → other = run
  scenarios : List.Forall₂ (ReadScenario spans)
    (spans.zipIdx.filter fun entry => entry.1.name == scenarioSpan) scenarioRefs
  operations : List.Forall₂ (ReadOperation spans registry)
    (spans.filter fun span => IsOperation span) operationRefs
  siblings : ∀ operation ∈ operationRefs,
    overlapping (sort (siblingIntervals operationRefs operation.parent)) = false
  sequential : ∀ span ∈ spans, span.name ≠ parallelSpan

/-- The decoded operations under their keys. -/
def decodedMap (operations : List OperationRef) : List (SpanKey × Operation) :=
  ofList (operations.map fun operation => (operation.key, operation.operation))

theorem decodeSpans_ok {spans : List Span} {names : List String} {registry : Registry}
    {decoded : Decoded} (h : decodeSpans spans names registry = .ok decoded) :
    ∃ scenarios operations, AcceptedSpans spans registry scenarios operations ∧
      mapAll (assembleScenario spans (decodedMap operations))
        (sortBy (fun scenario => (scenario.index, scenario.position)) scenarios) =
          .ok decoded.scenarios ∧
      decoded.observedOperations = (decodedMap operations).map Prod.snd := by
  unfold decodeSpans at h
  obtain ⟨-, h⟩ := ensure_bind_eq_ok.mp h
  obtain ⟨_, hchecked, h⟩ := bind_eq_ok.mp h
  obtain ⟨_, hruns, h⟩ := bind_eq_ok.mp h
  obtain ⟨scenarios, hscenarios, h⟩ := bind_eq_ok.mp h
  obtain ⟨_, -, h⟩ := bind_eq_ok.mp h
  obtain ⟨-, h⟩ := ensure_bind_eq_ok.mp h
  obtain ⟨operations, hoperations, h⟩ := bind_eq_ok.mp h
  obtain ⟨_, hsiblings, h⟩ := bind_eq_ok.mp h
  obtain ⟨hparallel, h⟩ := ensure_bind_eq_ok.mp h
  obtain ⟨assembled, hassembled, h⟩ := bind_eq_ok.mp h
  obtain rfl := Except.ok.inj h
  obtain ⟨hkeys, -, hids⟩ := checkSpans_ok hchecked
  refine ⟨scenarios, operations, ⟨hkeys, hids, checkRuns_ok hruns, ?_, ?_, ?_, ?_⟩,
    hassembled, rfl⟩
  · exact (mapAll_eq_ok.mp hscenarios).imp fun _ _ => scenarioRef_ok
  · exact (mapAll_eq_ok.mp hoperations).imp fun _ _ => operationRef_ok
  · have happart := ensure_eq_ok.mp hsiblings
    simpa using happart
  · simpa using hparallel

/-- All spans of a document, in document order. -/
def spansOf (document : OtlpDoc) : List Span :=
  document.resourceSpans.flatMap fun resource => resource.scopeSpans.flatten

theorem decodeScenarios_ok {document : OtlpDoc} {names : List String} {registry : Registry}
    {decoded : Decoded} (h : decodeScenarios document names registry = .ok decoded) :
    decodeSpans (spansOf document) names registry = .ok decoded := by
  unfold decodeScenarios at h
  split at h
  · rename_i resource hresource
    obtain ⟨_, -, h⟩ := bind_eq_ok.mp h
    unfold spansOf
    rwa [hresource, List.flatMap_cons, List.flatMap_nil, List.append_nil]
  · cases h

/-- What stands behind an accepted bundle. -/
theorem decode_ok {readers : Readers} {manifestBytes registryBytes traceBytes : RegistryLoading.Bytes}
    {bundle : Bundle} (h : decode readers manifestBytes registryBytes traceBytes = .ok bundle) :
    ∃ document names decoded, readers.document traceBytes = .ok document ∧
      decodeSpans (spansOf document) names bundle.registry = .ok decoded ∧
      bundle.scenarios = decoded.scenarios ∧
      bundle.observedOperations = decoded.observedOperations := by
  unfold decode at h
  obtain ⟨manifest, -, h⟩ := bind_eq_ok.mp h
  obtain ⟨_, -, h⟩ := bind_eq_ok.mp h
  obtain ⟨_, -, h⟩ := bind_eq_ok.mp h
  obtain ⟨_, -, h⟩ := bind_eq_ok.mp h
  obtain ⟨_, -, h⟩ := bind_eq_ok.mp h
  obtain ⟨_, -, h⟩ := bind_eq_ok.mp h
  obtain ⟨registry, -, h⟩ := bind_eq_ok.mp h
  obtain ⟨_, -, h⟩ := bind_eq_ok.mp h
  obtain ⟨-, h⟩ := ensure_bind_eq_ok.mp h
  obtain ⟨document, hdocument, h⟩ := bind_eq_ok.mp h
  obtain ⟨decoded, hdecoded, h⟩ := bind_eq_ok.mp h
  obtain ⟨_, -, h⟩ := bind_eq_ok.mp h
  obtain rfl := Except.ok.inj h
  refine ⟨document, manifest.scenarioNames, decoded, ?_, decodeScenarios_ok hdecoded, rfl, rfl⟩
  unfold readJson at hdocument
  split at hdocument
  · rename_i hread
    rw [hread, Except.ok.inj hdocument]
  · cases hdocument

end SpecGate.ReplayedSpans

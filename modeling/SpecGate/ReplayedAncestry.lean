import SpecGate.FiniteChains
import SpecGate.ReplayedSpans

/-!
The ancestry of the operations in an accepted replay bundle. Every check of the decoder
looks at one span and its parent, so the operations descend from the scenarios of the run
exactly where no operation is its own ancestor.
-/
namespace SpecGate.ReplayedAncestry

open SortedAssoc Sorting Checked ReplayModel ReplayDecoding ReplayedSpans
open RegistryLoading (Bytes)

/-- One span names another as its parent. -/
def ParentLink (spans : List Span) (child parent : Span) : Prop :=
  child ∈ spans ∧ parent ∈ spans ∧ parentKey child = spanKey parent

/-- One operation names another operation as its parent. -/
def OperationLink (spans : List Span) (child parent : Span) : Prop :=
  ParentLink spans child parent ∧ IsOperation child ∧ IsOperation parent

/-- No operation span is its own ancestor. -/
def Acyclic (spans : List Span) : Prop :=
  ∀ span ∈ spans, ¬ Relation.TransGen (OperationLink spans) span span

/-- A scenario span of the single run. -/
def IsScenario (spans : List Span) (scenario : Span) : Prop :=
  scenario.name = scenarioSpan ∧ ∃ run, ParentLink spans scenario run ∧ run.name = runSpan ∧
    ∀ other ∈ spans, other.name = runSpan → other = run

/-- An operation under a scenario, directly or below other operations. -/
def InTree (spans : List Span) (scenario span : Span) : Prop :=
  IsScenario spans scenario ∧ IsOperation span ∧ ∃ top,
    Relation.ReflTransGen (OperationLink spans) span top ∧ ParentLink spans top scenario

/-- Every operation belongs to one scenario, and the observed operations are those of the
scenario trees. -/
structure Rooted (spans : List Span) (registry : Registry) (observed : List Operation) :
    Prop where
  descends : ∀ span ∈ spans, IsOperation span → ∃! scenario, InTree spans scenario span
  observed : ∃ trees : List Span, trees.Nodup ∧
    (∀ span, span ∈ trees ↔ ∃ scenario, InTree spans scenario span) ∧
      List.Forall₂ (fun span operation => decodeOperation registry span = .ok operation) trees
        observed

section Accepted

variable {spans : List Span} {registry : Registry} {scenarioRefs : List ScenarioRef}
  {operationRefs : List OperationRef}

theorem ParentLink.unique (hkeys : (spans.map spanKey).Nodup) {child left right : Span}
    (hleft : ParentLink spans child left) (hright : ParentLink spans child right) :
    left = right :=
  List.inj_on_of_nodup_map hkeys hleft.2.1 hright.2.1 (hleft.2.2.symm.trans hright.2.2)

theorem not_operation_of_scenario {span : Span} (h : span.name = scenarioSpan) :
    ¬ IsOperation span := by
  intro hoperation
  have hnames : operationSpan = scenarioSpan := hoperation.symm.trans h
  exact absurd hnames (by decide)

theorem InTree.mem {scenario span : Span} (h : InTree spans scenario span) : span ∈ spans := by
  obtain ⟨top, hchain, hlink⟩ := h.2.2
  rcases hchain.cases_head with rfl | ⟨next, hnext, -⟩
  · exact hlink.1
  · exact hnext.1.1

/-- Chains of operations that leave one span end at one scenario. -/
theorem scenario_unique (hkeys : (spans.map spanKey).Nodup) {span top other left right : Span}
    (hleftName : left.name = scenarioSpan) (hrightName : right.name = scenarioSpan)
    (hchain : Relation.ReflTransGen (OperationLink spans) span top)
    (hleft : ParentLink spans top left)
    (hother : Relation.ReflTransGen (OperationLink spans) span other)
    (hright : ParentLink spans other right) : left = right := by
  induction hchain using Relation.ReflTransGen.head_induction_on with
  | refl =>
    rcases hother.cases_head with rfl | ⟨next, hnext, -⟩
    · exact ParentLink.unique hkeys hleft hright
    · obtain rfl := ParentLink.unique hkeys hleft hnext.1
      exact absurd hnext.2.2 (not_operation_of_scenario hleftName)
  | head hfirst _ ih =>
    rcases hother.cases_head with rfl | ⟨next, hnext, hrest⟩
    · obtain rfl := ParentLink.unique hkeys hright hfirst.1
      exact absurd hfirst.2.2 (not_operation_of_scenario hrightName)
    · obtain rfl := ParentLink.unique hkeys hfirst.1 hnext.1
      exact ih hrest

/-- A span on a cycle of operations is under no scenario. -/
theorem not_inTree_of_cycle (hkeys : (spans.map spanKey).Nodup) {scenario span : Span}
    (hcycle : Relation.TransGen (OperationLink spans) span span) :
    ¬ InTree spans scenario span := by
  rintro ⟨hscenario, -, top, hchain, hlink⟩
  have hunique : ∀ child left right, OperationLink spans child left →
      OperationLink spans child right → left = right := fun _ _ _ hleft hright =>
    ParentLink.unique hkeys hleft.1 hright.1
  have htop := FiniteChains.cycle_of_reaches hunique hcycle hchain
  obtain ⟨next, hnext, -⟩ := Relation.TransGen.head'_iff.mp htop
  obtain rfl := ParentLink.unique hkeys hlink hnext.1
  exact not_operation_of_scenario hscenario.1 hnext.2.2

theorem acyclic_of_rooted (hkeys : (spans.map spanKey).Nodup) {observed : List Operation}
    (h : Rooted spans registry observed) : Acyclic spans := by
  intro span hspan hcycle
  obtain ⟨next, hnext, -⟩ := Relation.TransGen.head'_iff.mp hcycle
  obtain ⟨scenario, htree, -⟩ := h.descends span hspan hnext.2.1
  exact not_inTree_of_cycle hkeys hcycle htree

theorem isScenario_of_accepted (h : AcceptedSpans spans registry scenarioRefs operationRefs)
    {scenario : Span} (hmem : scenario ∈ spans) (hname : scenario.name = scenarioSpan) :
    IsScenario spans scenario := by
  obtain ⟨position, hposition⟩ := List.mem_iff_getElem?.mp hmem
  have hentry : (scenario, position) ∈
      spans.zipIdx.filter fun entry => entry.1.name == scenarioSpan := by
    rw [List.mem_filter]
    exact ⟨List.mk_mem_zipIdx_iff_getElem?.mpr hposition, beq_iff_eq.mpr hname⟩
  obtain ⟨ref, -, hread⟩ := exists_right_of_forall₂ h.scenarios hentry
  obtain ⟨run, hfound, hrun⟩ := hread.parent
  obtain ⟨hrunMem, hkey⟩ := (byId_eq_some h.keys).mp hfound
  obtain ⟨root, -, -, -, hroot⟩ := h.run
  refine ⟨hname, run, ⟨hmem, hrunMem, hkey.symm⟩, hrun, fun other hother hotherName => ?_⟩
  rw [hroot other hother hotherName, hroot run hrunMem hrun]

/-- The parent of an accepted operation is a scenario of the run or another operation. -/
theorem parent_cases (h : AcceptedSpans spans registry scenarioRefs operationRefs) {span : Span}
    (hspan : span ∈ spans) (hoperation : IsOperation span) :
    (∃ scenario, IsScenario spans scenario ∧ ParentLink spans span scenario) ∨
      ∃ parent ∈ spans.filter fun span => IsOperation span, OperationLink spans span parent := by
  have hmem : span ∈ spans.filter fun span => IsOperation span :=
    List.mem_filter.mpr ⟨hspan, decide_eq_true hoperation⟩
  obtain ⟨ref, -, hread⟩ := exists_right_of_forall₂ h.operations hmem
  obtain ⟨parent, hfound, hkind⟩ := hread.found
  obtain ⟨hparent, hkey⟩ := (byId_eq_some h.keys).mp hfound
  have hlink : ParentLink spans span parent := ⟨hspan, hparent, hkey.symm⟩
  rcases hkind with hscenario | hother
  · exact .inl ⟨parent, isScenario_of_accepted h hparent hscenario, hlink⟩
  · exact .inr ⟨parent, List.mem_filter.mpr ⟨hparent, decide_eq_true hother⟩, hlink, hoperation,
      hother⟩

theorem exists_tree (h : AcceptedSpans spans registry scenarioRefs operationRefs)
    (hacyclic : Acyclic spans) {span : Span} (hspan : span ∈ spans)
    (hoperation : IsOperation span) : ∃ scenario, InTree spans scenario span := by
  have hnodes : ∀ node ∈ spans.filter fun span => IsOperation span,
      (∃ scenario, IsScenario spans scenario ∧ ParentLink spans node scenario) ∨
        ∃ next ∈ spans.filter fun span => IsOperation span, OperationLink spans node next :=
    fun node hnode => parent_cases h (List.mem_filter.mp hnode).1
      (of_decide_eq_true (List.mem_filter.mp hnode).2)
  obtain ⟨top, -, hchain, scenario, hscenario, hlink⟩ := FiniteChains.exists_final hnodes
    (fun node hnode => hacyclic node (List.mem_filter.mp hnode).1)
    (List.mem_filter.mpr ⟨hspan, decide_eq_true hoperation⟩)
  exact ⟨scenario, hscenario, hoperation, top, hchain, hlink⟩

/-- The observed operations are the decoded operation spans, each of them once. -/
theorem observed_operations (h : AcceptedSpans spans registry scenarioRefs operationRefs) :
    ∃ trees : List Span, trees.Perm (spans.filter fun span => IsOperation span) ∧
      List.Forall₂ (fun span operation => decodeOperation registry span = .ok operation) trees
        ((decodedMap operationRefs).map Prod.snd) := by
  let entry : OperationRef → SpanKey × Operation := fun ref => (ref.key, ref.operation)
  let Decodes : SpanKey × Operation → Span → Prop := fun entry span =>
    entry.1 = spanKey span ∧ decodeOperation registry span = .ok entry.2
  have hpaired : List.Forall₂ Decodes (operationRefs.map entry)
      (spans.filter fun span => IsOperation span) := by
    rw [List.forall₂_map_left_iff]
    exact (h.operations.imp fun span ref hread =>
      (⟨hread.key, hread.decoded⟩ : Decodes (entry ref) span)).flip
  have hsame : keys (operationRefs.map entry) =
      (spans.filter fun span => IsOperation span).map spanKey := by
    unfold SortedAssoc.keys
    have hfirst : List.Forall₂ (fun entry span => entry.1 = spanKey span)
        (operationRefs.map entry) (spans.filter fun span => IsOperation span) :=
      hpaired.imp fun _ _ hdecodes => hdecodes.1
    rw [← List.forall₂_eq_eq_eq, List.forall₂_map_left_iff, List.forall₂_map_right_iff]
    exact hfirst
  have hnodup : (keys (operationRefs.map entry)).Nodup := by
    rw [hsame]
    exact h.keys.sublist (List.filter_sublist.map spanKey)
  obtain ⟨trees, hdecoded, hperm⟩ := List.perm_comp_forall₂ (ofList_perm hnodup) hpaired
  refine ⟨trees, hperm, ?_⟩
  rw [List.forall₂_map_right_iff]
  exact (hdecoded.imp fun entry span hdecodes => hdecodes.2).flip

theorem rooted_iff (h : AcceptedSpans spans registry scenarioRefs operationRefs) :
    Rooted spans registry ((decodedMap operationRefs).map Prod.snd) ↔ Acyclic spans := by
  refine ⟨acyclic_of_rooted h.keys, fun hacyclic => ⟨fun span hspan hoperation => ?_, ?_⟩⟩
  · obtain ⟨scenario, htree⟩ := exists_tree h hacyclic hspan hoperation
    refine ⟨scenario, htree, fun other hother => ?_⟩
    obtain ⟨top, hchain, hlink⟩ := htree.2.2
    obtain ⟨otherTop, hotherChain, hotherLink⟩ := hother.2.2
    exact scenario_unique h.keys hother.1.1 htree.1.1 hotherChain hotherLink hchain hlink
  · obtain ⟨trees, hperm, hdecoded⟩ := observed_operations h
    refine ⟨trees, ?_, fun span => ?_, hdecoded⟩
    · exact hperm.nodup_iff.mpr (h.keys.of_map.filter _)
    · rw [hperm.mem_iff, List.mem_filter]
      constructor
      · rintro ⟨hspan, hoperation⟩
        exact exists_tree h hacyclic hspan (of_decide_eq_true hoperation)
      · rintro ⟨scenario, htree⟩
        exact ⟨htree.mem, decide_eq_true htree.2.1⟩

end Accepted

/-- An accepted bundle has the ancestry of a trace exactly where no operation span is its
own ancestor. -/
theorem rooted_iff_acyclic {readers : Readers} {manifestBytes registryBytes traceBytes : Bytes}
    {bundle : Bundle} (h : decode readers manifestBytes registryBytes traceBytes = .ok bundle) :
    ∃ document, readers.document traceBytes = .ok document ∧
      (Rooted (spansOf document) bundle.registry bundle.observedOperations ↔
        Acyclic (spansOf document)) := by
  obtain ⟨document, names, decoded, hdocument, hdecoded, -, hobserved⟩ := decode_ok h
  obtain ⟨scenarioRefs, operationRefs, haccepted, -, hmap⟩ := decodeSpans_ok hdecoded
  refine ⟨document, hdocument, ?_⟩
  rw [hobserved, hmap]
  exact rooted_iff haccepted

/-! ### Two operations under each other -/

def exampleDigest : Digest :=
  ⟨"sha256:0000000000000000000000000000000000000000000000000000000000000000", by decide⟩

def exampleManifest : Manifest where
  format := manifestFormat
  formatVersion := manifestVersion
  componentId := "store"
  targetName := "example"
  targetLanguage := "rust"
  toolName := "specgate"
  toolVersion := "1"
  registryPath := registryPath
  registryId := "registry"
  registryVersion := "1"
  registryDigest := exampleDigest
  referencePath := referencePath
  referenceDigest := exampleDigest
  scenarioCount := 1
  scenarioNames := ["reads"]

def exampleRegistry : RegistryDoc where
  format := RegistryShape.registryFormat
  formatVersion := RegistryShape.ctscVersion
  registryId := "registry"
  version := "1"
  components := [⟨"store", [⟨"read", [], none, none, []⟩]⟩]

def exampleResource : KeyValues :=
  [("conformance.version", .string RegistryShape.ctscVersion),
    ("conformance.tool.name", .string "specgate"), ("conformance.tool.version", .string "1"),
    ("conformance.target.name", .string "example"),
    ("conformance.target.language", .string "rust"),
    ("conformance.registry.id", .string "registry"),
    ("conformance.registry.version", .string "1"),
    ("conformance.registry.digest", .string exampleDigest.text)]

def exampleSpan (spanId parentSpanId name start finish : String) (attributes : KeyValues) : Span :=
  ⟨"00000000000000000000000000000001", spanId, parentSpanId, name, start, finish, attributes, []⟩

def exampleRun : Span := exampleSpan "0000000000000001" "" runSpan "1" "9" []

def exampleScenario : Span :=
  exampleSpan "0000000000000002" "0000000000000001" scenarioSpan "1" "9"
    [("conformance.scenario.name", .string "reads"), ("conformance.scenario.index", .int "0")]

def exampleOperation (spanId parentSpanId start finish : String) : Span :=
  exampleSpan spanId parentSpanId operationSpan start finish
    [("conformance.component.id", .string "store"),
      ("conformance.operation.name", .string "read"),
      ("conformance.operation.inputs", .kvlist [])]

/-- A bundle whose trace has the given operations under one scenario. -/
def exampleDocument (operations : List Span) : OtlpDoc :=
  ⟨[⟨exampleResource, [exampleRun :: exampleScenario :: operations]⟩]⟩

def exampleReaders (operations : List Span) : Readers where
  manifest _ := .ok exampleManifest
  registry _ := .ok exampleRegistry
  document _ := .ok (exampleDocument operations)
  sha256Digest _ := exampleDigest
  loadRegistry _ := ⟨none, []⟩
  loadTrace _ := ⟨none, []⟩

theorem exists_bundle {operations : List Span}
    (h : (decode (exampleReaders operations) [] [] []).toOption.isSome = true) :
    ∃ bundle, decode (exampleReaders operations) [] [] [] = .ok bundle := by
  cases hdecode : decode (exampleReaders operations) [] [] [] with
  | error failure =>
    rw [hdecode] at h
    cases h
  | ok bundle => exact ⟨bundle, rfl⟩

/-- The second operation is below the third, and the third below the given span. -/
def turningOperations (parent : String) : List Span :=
  [exampleOperation "0000000000000003" "0000000000000002" "1" "2",
    exampleOperation "0000000000000004" "0000000000000005" "3" "4",
    exampleOperation "0000000000000005" parent "3" "4"]

theorem rooted_iff_acyclic_nested :
    ∃ bundle, decode (exampleReaders (turningOperations "0000000000000002")) [] [] [] =
        .ok bundle ∧
      ∃ document, (exampleReaders (turningOperations "0000000000000002")).document [] =
          .ok document ∧
        (Rooted (spansOf document) bundle.registry bundle.observedOperations ↔
          Acyclic (spansOf document)) := by
  obtain ⟨bundle, hbundle⟩ : ∃ bundle,
      decode (exampleReaders (turningOperations "0000000000000002")) [] [] [] = .ok bundle :=
    exists_bundle (by decide +kernel)
  exact ⟨bundle, hbundle, rooted_iff_acyclic hbundle⟩

theorem turning_cycle : Relation.TransGen
    (OperationLink (spansOf (exampleDocument (turningOperations "0000000000000004"))))
    (exampleOperation "0000000000000004" "0000000000000005" "3" "4")
    (exampleOperation "0000000000000004" "0000000000000005" "3" "4") := by
  have hdown : OperationLink
      (spansOf (exampleDocument (turningOperations "0000000000000004")))
      (exampleOperation "0000000000000004" "0000000000000005" "3" "4")
      (exampleOperation "0000000000000005" "0000000000000004" "3" "4") := by
    refine ⟨⟨?_, ?_, rfl⟩, rfl, rfl⟩ <;>
      simp [spansOf, exampleDocument, turningOperations]
  have hup : OperationLink
      (spansOf (exampleDocument (turningOperations "0000000000000004")))
      (exampleOperation "0000000000000005" "0000000000000004" "3" "4")
      (exampleOperation "0000000000000004" "0000000000000005" "3" "4") := by
    refine ⟨⟨?_, ?_, rfl⟩, rfl, rfl⟩ <;>
      simp [spansOf, exampleDocument, turningOperations]
  exact .tail (.single hdown) hup

/-- Two operations that are each other's parent are accepted and reported as observed. -/
theorem turning_operations_accepted :
    ¬ ∀ (readers : Readers) (manifestBytes registryBytes traceBytes : Bytes) (bundle : Bundle)
      (document : OtlpDoc), decode readers manifestBytes registryBytes traceBytes = .ok bundle →
        readers.document traceBytes = .ok document →
          Rooted (spansOf document) bundle.registry bundle.observedOperations := by
  intro h
  obtain ⟨bundle, hbundle⟩ : ∃ bundle,
      decode (exampleReaders (turningOperations "0000000000000004")) [] [] [] = .ok bundle :=
    exists_bundle (by decide +kernel)
  have hrooted := h _ [] [] [] bundle _ hbundle rfl
  obtain ⟨document, names, decoded, hdocument, hdecoded, -, -⟩ := decode_ok hbundle
  obtain rfl := Except.ok.inj hdocument
  obtain ⟨scenarioRefs, operationRefs, haccepted, -, -⟩ := decodeSpans_ok hdecoded
  have hacyclic := acyclic_of_rooted haccepted.keys hrooted
  exact hacyclic _ (by simp [spansOf, exampleDocument, turningOperations]) turning_cycle

end SpecGate.ReplayedAncestry

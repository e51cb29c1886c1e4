import SpecGate.AlikeTraces

/-!
The comparison without a registry finds nothing between two accepted traces exactly when
both have one run and no ambiguity and their semantic trees are equal: alike spans are
those with equal trees, by induction on the depth of the tree.
-/
namespace SpecGate.ComparisonDecision

open Values TraceModel TraceAncestry TraceValidation SortedAssoc Collecting Pairing Comparison
open ComparisonVerdict TraceForest SemanticTree ComparedSpans AlikeTraces

theorem keyedTrees_eq_iff {κ : Type} {f g : TraceSpan → Option Tree}
    {left right : List (κ × TraceSpan)} {xs ys : List (κ × Tree)}
    (hleft : keyedTrees f left = some xs) (hright : keyedTrees g right = some ys)
    (hf : ∀ entry ∈ left, ∃ tree, f entry.2 = some tree)
    (hg : ∀ entry ∈ right, ∃ tree, g entry.2 = some tree) :
    xs = ys ↔ Paired (fun l r => l.1 = r.1 ∧ f l.2 = g r.2) left right := by
  refine collect_eq_iff_paired hleft hright fun l hl r hr => ?_
  obtain ⟨t, ht⟩ := hf l hl
  obtain ⟨u, hu⟩ := hg r hr
  simp [ht, hu]

/-- What is asked of a pair of spans: nothing ambiguous below either, and equal trees. -/
def SubtreesAgree (reference candidate : TraceDocument) (n m : Nat) (left right : TraceSpan) :
    Prop :=
  ClearBelow reference left ∧ ClearBelow candidate right ∧
    spanTree strict reference n left = spanTree strict candidate m right

section Decision

variable {reference candidate : TraceDocument}

theorem operationInputs_eq {span : TraceSpan} {inputs : List (String × AnyValue)}
    (h : lookup span.attributes "conformance.operation.inputs" = some (.kvList inputs)) :
    operationInputs span = inputs := by
  rw [operationInputs, h]
  rfl

theorem operationView_eq_iff (hreference : AcceptedTrace reference)
    (hcandidate : AcceptedTrace candidate) {left right : TraceSpan}
    (hleft : left ∈ reference.spans) (hright : right ∈ candidate.spans)
    (hleftName : left.name = "conformance.operation")
    (hrightName : right.name = "conformance.operation") :
    spanView none left = spanView none right ↔
      spanLabel strict left = spanLabel strict right := by
  have hvalidLeft := validTrace_of_validateSemantics hreference.valid
  have hvalidRight := validTrace_of_validateSemantics hcandidate.valid
  obtain ⟨-, hcomponentLeft, hoperationLeft, inputsLeft, hinputsLeft⟩ :=
    hvalidLeft.operation left hleft hleftName
  obtain ⟨-, hcomponentRight, hoperationRight, inputsRight, hinputsRight⟩ :=
    hvalidRight.operation right hright hrightName
  have hdecodedLeft := (hreference.decoded left hleft).attributes
  have hdecodedRight := (hcandidate.decoded right hright).attributes
  have hsortedLeft : Sorted (operationInputs left) := by
    rw [operationInputs_eq hinputsLeft]
    exact (AnyValue.decoded_kvList_iff.mp (hdecodedLeft.lookup hinputsLeft)).1
  have hsortedRight : Sorted (operationInputs right) := by
    rw [operationInputs_eq hinputsRight]
    exact (AnyValue.decoded_kvList_iff.mp (hdecodedRight.lookup hinputsRight)).1
  have hinputs : operationInputs left = operationInputs right ↔
      lookup left.attributes "conformance.operation.inputs" =
        lookup right.attributes "conformance.operation.inputs" := by
    rw [operationInputs_eq hinputsLeft, operationInputs_eq hinputsRight, hinputsLeft, hinputsRight]
    simp
  rw [← operation_nil_iff hleftName hrightName "" "" "", operationLabel_eq_iff hdecodedLeft hdecodedRight hleftName hrightName]
  simp only [List.append_eq_nil_iff, strictSpanKeys, if_true, List.forall_mem_cons,
    List.not_mem_nil, false_imp_iff, implies_true, and_true]
  rw [compareInputs_eq_nil hsortedLeft hsortedRight, hinputs,
    compareEvents_eq_nil_iff hreference hcandidate hleft hright]
  refine and_congr ?_ Iff.rfl
  rw [and_assoc]
  exact and_congr (mismatch_eq_nil.trans (stringAttr_eq_iff hcomponentLeft hcomponentRight))
    (and_congr (mismatch_eq_nil.trans (stringAttr_eq_iff hoperationLeft hoperationRight)) Iff.rfl)

/-- Without a registry, spans look the same exactly when their labels are equal. -/
theorem spanView_eq_iff (hreference : AcceptedTrace reference)
    (hcandidate : AcceptedTrace candidate) {left right : TraceSpan}
    (hleft : left ∈ reference.spans) (hright : right ∈ candidate.spans) :
    spanView none left = spanView none right ↔
      spanLabel strict left = spanLabel strict right := by
  by_cases hname : left.name = right.name
  · by_cases hoperation : left.name = "conformance.operation"
    · exact operationView_eq_iff hreference hcandidate hleft hright hoperation (hname ▸ hoperation)
    · have hevents : compareEvents left.events right.events none none "" = [] ↔ _ :=
        compareEvents_eq_nil_iff hreference hcandidate hleft hright
      rw [← events_nil_iff hname hoperation, hevents, spanLabel_eq_iff hname hoperation]
  · refine iff_of_false (fun h => hname ?_) fun h => hname (congrArg SpanLabel.name h)
    rw [← @spanView_name none left, h, spanView_name]

/-- With distinct identities, collecting the branches loses none. -/
theorem forall_branches_iff {document : TraceDocument} {span : TraceSpan}
    (hnodup : ((children document span).map spanIdentity).Nodup) {P : TraceSpan → Prop} :
    (∀ entry ∈ ofList (identityEntries document span), P entry.2) ↔
      ∀ child ∈ children document span, P child := by
  rw [← keys_identityEntries] at hnodup
  rw [forall_ofList_iff hnodup]
  simp only [identityEntries, List.forall_mem_map]

theorem paired_subtrees_iff {κ : Type} {n m : Nat} {left right : List (κ × TraceSpan)} :
    Paired (fun l r => l.1 = r.1 ∧ SubtreesAgree reference candidate n m l.2 r.2) left right ↔
      (∀ l ∈ left, ClearBelow reference l.2) ∧ (∀ r ∈ right, ClearBelow candidate r.2) ∧
        Paired (fun l r => l.1 = r.1 ∧
          spanTree strict reference n l.2 = spanTree strict candidate m r.2) left right := by
  rw [← paired_and_iff]
  refine paired_congr fun l _ r _ => ?_
  unfold SubtreesAgree
  tauto

theorem spanTree_eq_iff {left right : TraceSpan} {n m : Nat} (hleft : Within reference n left)
    (hright : Within candidate m right) :
    spanTree strict reference n left = spanTree strict candidate m right ↔
      spanLabel strict left = spanLabel strict right ∧
        childTrees strict reference n left = childTrees strict candidate m right := by
  obtain ⟨leftChildren, hleftChildren⟩ := childTrees_isSome strict hleft
  obtain ⟨rightChildren, hrightChildren⟩ := childTrees_isSome strict hright
  simp [spanTree, hleftChildren, hrightChildren]

/-- The trees below two parallel spans are equal when their branches pair up. -/
theorem parallelTrees_eq_iff {left right : TraceSpan} {n m : Nat}
    (hleftName : left.name = "conformance.parallel")
    (hrightName : right.name = "conformance.parallel")
    (hleft : ∀ child ∈ children reference left, Within reference n child)
    (hright : ∀ child ∈ children candidate right, Within candidate m child) :
    childTrees strict reference (n + 1) left = childTrees strict candidate (m + 1) right ↔
      Paired (fun l r => l.1 = r.1 ∧
        spanTree strict reference n l.2 = spanTree strict candidate m r.2)
        (pairedChildren reference left) (pairedChildren candidate right) := by
  obtain ⟨leftTrees, hleftTrees⟩ := keyedTrees_isSome fun entry hentry =>
    spanTree_isSome strict (hleft entry.2 (mem_identityEntries hentry))
  obtain ⟨rightTrees, hrightTrees⟩ := keyedTrees_isSome fun entry hentry =>
    spanTree_isSome strict (hright entry.2 (mem_identityEntries hentry))
  unfold pairedChildren
  rw [if_pos hleftName, if_pos hrightName, paired_map_iff, childTrees_succ, childTrees_succ,
    if_pos hleftName, if_pos hrightName, hleftTrees, hrightTrees, Option.map_some, Option.map_some,
    Option.some.injEq, Children.parallel.injEq]
  simp only [Option.some.injEq]
  exact keyedTrees_eq_iff hleftTrees hrightTrees
    (fun entry hentry => spanTree_isSome strict (hleft entry.2 (mem_identityEntries hentry)))
    fun entry hentry => spanTree_isSome strict (hright entry.2 (mem_identityEntries hentry))

theorem sequenceTrees_eq_iff {left right : TraceSpan} {n m : Nat}
    (hleftName : left.name ≠ "conformance.parallel")
    (hrightName : right.name ≠ "conformance.parallel")
    (hleft : ∀ child ∈ children reference left, Within reference n child)
    (hright : ∀ child ∈ children candidate right, Within candidate m child) :
    childTrees strict reference (n + 1) left = childTrees strict candidate (m + 1) right ↔
      Paired (fun l r => l.1 = r.1 ∧
        spanTree strict reference n l.2 = spanTree strict candidate m r.2)
        (pairedChildren reference left) (pairedChildren candidate right) := by
  have htreesLeft : ∀ child ∈ sortedChildren reference left,
      ∃ tree, spanTree strict reference n child = some tree :=
    fun child hchild => spanTree_isSome strict (hleft child (mem_sortedChildren.mp hchild))
  have htreesRight : ∀ child ∈ sortedChildren candidate right,
      ∃ tree, spanTree strict candidate m child = some tree :=
    fun child hchild => spanTree_isSome strict (hright child (mem_sortedChildren.mp hchild))
  obtain ⟨leftTrees, hleftTrees⟩ := collect_isSome htreesLeft
  obtain ⟨rightTrees, hrightTrees⟩ := collect_isSome htreesRight
  unfold pairedChildren
  rw [if_neg hleftName, if_neg hrightName, paired_map_iff, childTrees_succ, childTrees_succ,
    if_neg hleftName, if_neg hrightName, hleftTrees, hrightTrees, Option.map_some, Option.map_some,
    Option.some.injEq, Children.sequence.injEq]
  simp only [true_and]
  exact collect_eq_iff_paired hleftTrees hrightTrees fun _ _ _ _ => Iff.rfl

theorem pairedTrees_eq_iff {left right : TraceSpan} {n m : Nat} (hname : left.name = right.name)
    (hleft : ∀ child ∈ children reference left, Within reference n child)
    (hright : ∀ child ∈ children candidate right, Within candidate m child) :
    childTrees strict reference (n + 1) left = childTrees strict candidate (m + 1) right ↔
      Paired (fun l r => l.1 = r.1 ∧
        spanTree strict reference n l.2 = spanTree strict candidate m r.2)
        (pairedChildren reference left) (pairedChildren candidate right) := by
  by_cases hparallel : left.name = "conformance.parallel"
  · exact parallelTrees_eq_iff hparallel (hname ▸ hparallel) hleft hright
  · exact sequenceTrees_eq_iff hparallel (hname ▸ hparallel) hleft hright

/-- Where the children of a span are told apart, pairing them loses none. -/
theorem forall_pairedChildren_iff {document : TraceDocument} {span : TraceSpan}
    (hclear : ClearAt document span) {P : TraceSpan → Prop} :
    (∀ entry ∈ pairedChildren document span, P entry.2) ↔
      ∀ child ∈ children document span, P child := by
  unfold ClearAt at hclear
  unfold pairedChildren
  by_cases hparallel : span.name = "conformance.parallel"
  · rw [if_pos hparallel] at hclear ⊢
    rw [List.forall_mem_map]
    exact forall_branches_iff hclear
  · rw [if_neg hparallel, List.forall_mem_map]
    exact forall_congr' fun child => imp_congr_left mem_sortedChildren

/-- Alike spans are those below which nothing is ambiguous and whose trees are equal. -/
theorem alike_iff_subtrees (hreference : AcceptedTrace reference)
    (hcandidate : AcceptedTrace candidate) {n m : Nat} {left right : TraceSpan}
    (hleft : left ∈ reference.spans) (hright : right ∈ candidate.spans)
    (hn : Within reference n left) (hm : Within candidate m right) :
    Alike none reference candidate left right ↔
      SubtreesAgree reference candidate n m left right := by
  induction n generalizing m left right with
  | zero => cases hn
  | succ n ih =>
    cases m with
    | zero => cases hm
    | succ m =>
      by_cases hname : left.name = right.name
      · have hbelow : Below none reference candidate left right ↔
            ClearBelow reference left ∧ ClearBelow candidate right ∧
              childTrees strict reference (n + 1) left =
                childTrees strict candidate (m + 1) right := by
          have hpaired : Paired (fun l r => l.1 = r.1 ∧ Alike none reference candidate l.2 r.2)
                (pairedChildren reference left) (pairedChildren candidate right) ↔ _ :=
            (paired_congr fun l hl r hr => and_congr_right fun _ =>
              ih (mem_children.mp (mem_pairedChildren hl)).1
                (mem_children.mp (mem_pairedChildren hr)).1 (hn.child (mem_pairedChildren hl))
                (hm.child (mem_pairedChildren hr))).trans paired_subtrees_iff
          rw [pairedTrees_eq_iff hname (fun child hchild => hn.child hchild)
            (fun child hchild => hm.child hchild), clearBelow_iff, clearBelow_iff]
          constructor
          · intro h
            obtain ⟨hclear, hclear', htrees⟩ := hpaired.mp h.paired
            exact ⟨⟨h.clearLeft, (forall_pairedChildren_iff h.clearLeft).mp hclear⟩,
              ⟨h.clearRight, (forall_pairedChildren_iff h.clearRight).mp hclear'⟩, htrees⟩
          · rintro ⟨⟨hself, hclear⟩, ⟨hself', hclear'⟩, htrees⟩
            exact ⟨hself, hself', hpaired.mpr ⟨(forall_pairedChildren_iff hself).mpr hclear,
              (forall_pairedChildren_iff hself').mpr hclear', htrees⟩⟩
        unfold SubtreesAgree
        rw [alike_iff, spanView_eq_iff hreference hcandidate hleft hright, spanTree_eq_iff hn hm,
          hbelow]
        tauto
      · refine iff_of_false (fun h => hname ?_) fun h => hname ?_
        · rw [← @spanView_name none left, (alike_iff.mp h).1, spanView_name]
        · exact congrArg SpanLabel.name ((spanTree_eq_iff hn hm).mp h.2.2).1

/-! ### Documents -/

theorem forall_scenarios_iff {document : TraceDocument} (haccepted : AcceptedTrace document)
    {run : TraceSpan} (hrun : run ∈ document.spans) (hname : run.name = "conformance.run")
    (hnodup : (keys (scenarioEntries document run)).Nodup) {P : TraceSpan → Prop} :
    (∀ entry ∈ ofList (scenarioEntries document run), P entry.2) ↔
      ∀ scenario ∈ children document run, P scenario := by
  have hvalid := validTrace_of_validateSemantics haccepted.valid
  have hscenario : ∀ child ∈ children document run, child.name = "conformance.scenario" :=
    fun child hchild => scenario_of_run_child hvalid
      (fun span hspan => (haccepted.decoded span hspan).ctsc) hrun hname hchild
  rw [forall_ofList_iff hnodup]
  simp only [scenarioEntries, List.forall_mem_map, List.mem_filter, beq_iff_eq, and_imp]
  exact forall_congr' fun child => ⟨fun h hchild => h hchild (hscenario child hchild),
    fun h hchild _ => h hchild⟩

/-- Below the scenarios of the only run lies everything but the run. -/
theorem comparable_iff {document : TraceDocument} (haccepted : AcceptedTrace document)
    {run : TraceSpan} (hruns : runs document = [run]) : Comparable document run ↔
      (keys (scenarioEntries document run)).Nodup ∧
        ∀ scenario ∈ children document run, ClearBelow document scenario := by
  have hvalid := validTrace_of_validateSemantics haccepted.valid
  obtain ⟨hrun, -⟩ := mem_runs.mp (hruns ▸ List.mem_singleton_self run)
  constructor
  · rintro ⟨hnodup, hchildren⟩
    refine ⟨hnodup, fun scenario hscenario other hother => ?_⟩
    obtain ⟨hmem, hname⟩ := hother.mem_ne_run hvalid (mem_children.mp hscenario).1
      (name_of_child hvalid hrun hscenario)
    exact hchildren other hmem hname
  · rintro ⟨hnodup, hclear⟩
    refine ⟨hnodup, fun span hspan hname => ?_⟩
    obtain ⟨root, hrooted⟩ := hvalid.rooted span hspan hname
    have hroot : root ∈ runs document :=
      mem_runs.mpr ⟨(hrooted.run hspan).1, (hrooted.run hspan).2.1⟩
    rw [hruns, List.mem_singleton] at hroot
    subst hroot
    obtain ⟨scenario, hscenario, hdescends⟩ := descends_of_rooted hvalid hspan hname hrooted
    exact hclear scenario hscenario span hdescends

theorem scenarioTree_isSome (policy : Policy) {document : TraceDocument}
    (haccepted : AcceptedTrace document) {run : TraceSpan} {entry : String × TraceSpan}
    (h : entry ∈ ofList (scenarioEntries document run)) :
    ∃ tree, spanTree policy document document.spans.length entry.2 = some tree := by
  obtain ⟨hchild, hname⟩ := mem_scenarioEntries h
  have hrun : entry.2.name ≠ "conformance.run" := by simp [hname]
  exact spanTree_isSome policy (within_length (validTrace_of_validateSemantics haccepted.valid)
    (mem_children.mp hchild).1 hrun)

/-- Equality of trees, for one run on each side. -/
theorem same_iff (hreference : AcceptedTrace reference) (hcandidate : AcceptedTrace candidate)
    {left right : TraceSpan} (hleft : runs reference = [left]) (hright : runs candidate = [right]) :
    Same strict reference candidate ↔ Comparable reference left ∧ Comparable candidate right ∧
      left.events.map (eventLabel strict) = right.events.map (eventLabel strict) ∧
      Paired (fun l r => l.1 = r.1 ∧ spanTree strict reference reference.spans.length l.2 =
          spanTree strict candidate candidate.spans.length r.2)
        (ofList (scenarioEntries reference left)) (ofList (scenarioEntries candidate right)) := by
  obtain ⟨-, hleftName⟩ := mem_runs.mp (hleft ▸ List.mem_singleton_self left)
  obtain ⟨-, hrightName⟩ := mem_runs.mp (hright ▸ List.mem_singleton_self right)
  have htreesLeft := fun entry (hentry : entry ∈ ofList (scenarioEntries reference left)) =>
    scenarioTree_isSome strict hreference hentry
  have htreesRight := fun entry (hentry : entry ∈ ofList (scenarioEntries candidate right)) =>
    scenarioTree_isSome strict hcandidate hentry
  obtain ⟨leftTrees, hleftTrees⟩ := keyedTrees_isSome htreesLeft
  obtain ⟨rightTrees, hrightTrees⟩ := keyedTrees_isSome htreesRight
  rw [← keyedTrees_eq_iff hleftTrees hrightTrees htreesLeft htreesRight,
    ← spanLabel_eq_iff (hleftName.trans hrightName.symm) (by simp [hleftName])]
  unfold Same
  simp only [hleft, hright, documentTree, List.cons.injEq, and_true]
  constructor
  · rintro ⟨_, _, tree, rfl, rfl, hcomparable, hcomparable', htree, htree'⟩
    rw [hleftTrees, Option.map_some, Option.some.injEq] at htree
    rw [hrightTrees, Option.map_some, Option.some.injEq, ← htree, DocumentTree.mk.injEq] at htree'
    exact ⟨hcomparable, hcomparable', htree'.1.symm, htree'.2.symm⟩
  · rintro ⟨hcomparable, hcomparable', hlabel, rfl⟩
    exact ⟨_, _, _, rfl, rfl, hcomparable, hcomparable', by rw [hleftTrees]; rfl,
      by rw [hrightTrees, hlabel]; rfl⟩

theorem alike_documents_iff (hreference : AcceptedTrace reference)
    (hcandidate : AcceptedTrace candidate) :
    AlikeDocuments none reference candidate ↔ Same strict reference candidate := by
  by_cases hruns : ∃ left right, runs reference = [left] ∧ runs candidate = [right]
  · obtain ⟨left, right, hleft, hright⟩ := hruns
    obtain ⟨hleftMem, hleftName⟩ := mem_runs.mp (hleft ▸ List.mem_singleton_self left)
    obtain ⟨hrightMem, hrightName⟩ := mem_runs.mp (hright ▸ List.mem_singleton_self right)
    have hsame : left.name = right.name := hleftName.trans hrightName.symm
    have hpaired : Paired (fun l r => l.1 = r.1 ∧ Alike none reference candidate l.2 r.2)
        (ofList (scenarioEntries reference left)) (ofList (scenarioEntries candidate right)) ↔ _ :=
      (paired_congr fun l hl r hr => and_congr_right fun _ => by
        obtain ⟨hchild, hname⟩ := mem_scenarioEntries hl
        obtain ⟨hchild', hname'⟩ := mem_scenarioEntries hr
        have hmem := (mem_children.mp hchild).1
        have hmem' := (mem_children.mp hchild').1
        have hrun : l.2.name ≠ "conformance.run" := by simp [hname]
        have hrun' : r.2.name ≠ "conformance.run" := by simp [hname']
        exact alike_iff_subtrees hreference hcandidate hmem hmem'
          (within_length (validTrace_of_validateSemantics hreference.valid) hmem hrun)
          (within_length (validTrace_of_validateSemantics hcandidate.valid) hmem' hrun')).trans
        paired_subtrees_iff
    have hview : spanView none left = spanView none right ↔
        left.events.map (eventLabel strict) = right.events.map (eventLabel strict) := by
      rw [spanView_eq_iff hreference hcandidate hleftMem hrightMem,
        spanLabel_eq_iff hsame (by simp [hleftName])]
    rw [same_iff hreference hcandidate hleft hright, comparable_iff hreference hleft,
      comparable_iff hcandidate hright, ← hview]
    constructor
    · rintro ⟨left', right', hleft', hright', hview, hnodup, hnodup', halike⟩
      obtain rfl : left = left' := List.singleton_injective (hleft.symm.trans hleft')
      obtain rfl : right = right' := List.singleton_injective (hright.symm.trans hright')
      obtain ⟨hclear, hclear', htrees⟩ := hpaired.mp halike
      exact ⟨⟨hnodup, (forall_scenarios_iff hreference hleftMem hleftName hnodup).mp hclear⟩,
        ⟨hnodup', (forall_scenarios_iff hcandidate hrightMem hrightName hnodup').mp hclear'⟩,
        hview, htrees⟩
    · rintro ⟨⟨hnodup, hclear⟩, ⟨hnodup', hclear'⟩, hview, htrees⟩
      exact ⟨left, right, hleft, hright, hview, hnodup, hnodup', hpaired.mpr
        ⟨(forall_scenarios_iff hreference hleftMem hleftName hnodup).mpr hclear,
          (forall_scenarios_iff hcandidate hrightMem hrightName hnodup').mpr hclear', htrees⟩⟩
  · refine iff_of_false (fun h => hruns ?_) fun h => hruns ?_
    · obtain ⟨left, right, hleft, hright, -⟩ := h
      exact ⟨left, right, hleft, hright⟩
    · obtain ⟨left, right, -, hleft, hright, -⟩ := h
      exact ⟨left, right, hleft, hright⟩

/-- The comparison of two accepted traces ends, and reports them equivalent exactly when
each has one run and no ambiguity and their strict semantic trees are equal. -/
theorem equivalent_iff_same (hreference : AcceptedTrace reference)
    (hcandidate : AcceptedTrace candidate) :
    ∃ findings, compareDocuments reference candidate none = some findings ∧
      (findings.equivalent = true ↔ Same strict reference candidate) :=
  (compareDocuments_decides hreference hcandidate).congr (alike_documents_iff hreference hcandidate)

end Decision

/-! ### A crash -/

def crashSpan (name spanId parentSpanId : String) (start finish : Nat) (attributes : Attributes)
    (events : List TraceEvent) (status : SpanStatus) : TraceSpan where
  traceId := "00000000000000000000000000000001"
  spanId := spanId
  parentSpanId := parentSpanId
  name := name
  startTime := some start
  endTime := some finish
  attributes := attributes
  events := events
  status := status
  resourceAttributes := []
  location := "crash.otlp.json"

/-- A run whose process exited with a code, after one operation without inputs. -/
def crashTrace (exitCode : Int64) : TraceDocument where
  spans :=
    [crashSpan "conformance.run" "0000000000000001" "" 0 3 [("conformance.run.id", .string "run")]
        [{ name := "conformance.fault"
           attributes :=
            [("conformance.fault.exit_code", .int exitCode),
              ("conformance.fault.observer", .string "supervisor"),
              ("conformance.fault.type", .string "process_exit")] }] .error,
      crashSpan "conformance.scenario" "0000000000000002" "0000000000000001" 0 3
        [("conformance.scenario.name", .string "crash")] [] .unset,
      crashSpan "conformance.operation" "0000000000000003" "0000000000000002" 1 2
        [("conformance.component.id", .string "worker"),
          ("conformance.operation.inputs", .kvList []),
          ("conformance.operation.name", .string "start")] [] .ok]

theorem crashTrace_accepted {exitCode : Int64} (hcode : exitCode = 1 ∨ exitCode = 2) :
    AcceptedTrace (crashTrace exitCode) := by
  have hvalid : validateSemantics (crashTrace exitCode).spans = some [] := by
    rcases hcode with rfl | rfl
    · decide +kernel
    · decide +kernel
  refine ⟨hvalid, fun span hspan => ?_⟩
  simp only [crashTrace, List.mem_cons, List.not_mem_nil, or_false] at hspan
  rcases hspan with rfl | rfl | rfl
  · refine ⟨by simp [crashSpan, ctscSpans], ⟨sorted_cons.mpr ⟨by simp, sorted_nil⟩, by
      simp [crashSpan, AnyValue.Decoded.string]⟩, fun event h => ?_⟩
    obtain rfl := List.mem_singleton.mp h
    have hkeys : ["conformance.fault.exit_code", "conformance.fault.observer",
        "conformance.fault.type"].Pairwise fun a b => compare a b = .lt := by decide
    exact ⟨sorted_iff_keys.mpr hkeys, by simp [AnyValue.Decoded.string, AnyValue.Decoded.int]⟩
  · exact ⟨by decide, ⟨by decide, by simp [crashSpan, AnyValue.Decoded.string]⟩, by simp [crashSpan]⟩
  · exact ⟨by decide, ⟨by decide, by
      simp [crashSpan, AnyValue.Decoded.string, AnyValue.decoded_kvList_iff]⟩, by simp [crashSpan]⟩

theorem equivalent_iff_same_crash :
    ∃ findings, compareDocuments (crashTrace 1) (crashTrace 2) none = some findings ∧
      (findings.equivalent = true ↔ Same strict (crashTrace 1) (crashTrace 2)) :=
  equivalent_iff_same (crashTrace_accepted (.inl rfl)) (crashTrace_accepted (.inr rfl))

/-- Two crashes with different exit codes are equivalent, though their trees with every
attribute are not equal. -/
theorem exitCode_not_compared :
    ¬ ∀ reference candidate, AcceptedTrace reference → AcceptedTrace candidate →
      ∃ findings, compareDocuments reference candidate none = some findings ∧
        (findings.equivalent = true ↔ Same literal reference candidate) := by
  intro h
  obtain ⟨findings, hfindings, hiff⟩ :=
    h (crashTrace 1) (crashTrace 2) (crashTrace_accepted (.inl rfl)) (crashTrace_accepted (.inr rfl))
  have hequivalent : (compareDocuments (crashTrace 1) (crashTrace 2) none).any
      Findings.equivalent = true := by decide +kernel
  rw [hfindings] at hequivalent
  obtain ⟨left, right, tree, hleft, hright, -, -, hleftTree, hrightTree⟩ := hiff.mp hequivalent
  obtain ⟨_, -, rfl⟩ := Option.map_eq_some_iff.mp hleftTree
  obtain ⟨_, -, hlabel⟩ := Option.map_eq_some_iff.mp hrightTree
  have hruns : (runs (crashTrace 1)).map (spanLabel literal) =
      (runs (crashTrace 2)).map (spanLabel literal) := by
    rw [hleft, hright, List.map_singleton, List.map_singleton, (DocumentTree.mk.inj hlabel).1]
  exact absurd hruns (by decide)

end SpecGate.ComparisonDecision

import SpecGate.ComparisonDecision
import SpecGate.LinkedComparison

/-!
The verdict as a relation on traces. On traces that validate, link to the registry and
hold no ambiguity it is an equivalence, with a registry and without one, and traces that
are equivalent without a registry are equivalent under every registry.
-/
namespace SpecGate.VerdictRelation

open RegistryModel TraceModel TraceValidation SortedAssoc Collecting Pairing Comparison
open ComparisonVerdict TraceForest SemanticTree LinkedTraces ComparedSpans AlikeTraces
open ComparisonDecision Values SemanticEquality LinkedComparison

/-- One run, with scenarios and children that are told apart. -/
def Unambiguous (trace : TraceDocument) : Prop :=
  ∃ run, runs trace = [run] ∧ Comparable trace run

/-- A trace that can be compared under a registry, or without one. -/
structure Admitted (registry : Option RegistrySet) (trace : TraceDocument) : Prop where
  accepted : AcceptedTrace trace
  linked : ∀ set, registry = some set → checkLinked trace set = []
  unambiguous : Unambiguous trace

/-- The comparison ends with the verdict that both traces are equivalent. -/
def Equivalent (registry : Option RegistrySet) (reference candidate : TraceDocument) : Prop :=
  ∃ findings, compareDocuments reference candidate registry = some findings ∧
    findings.equivalent = true

section Verdict

variable {registry : Option RegistrySet} {first second third : TraceDocument}

theorem equivalent_iff_alike (hfirst : AcceptedTrace first) (hsecond : AcceptedTrace second) :
    Equivalent registry first second ↔ AlikeDocuments registry first second := by
  obtain ⟨findings, hfindings, hiff⟩ := AlikeTraces.compareDocuments_decides hfirst hsecond
  unfold Equivalent
  rw [hfindings]
  constructor
  · rintro ⟨found, hfound, hequivalent⟩
    obtain rfl := Option.some.inj hfound
    exact hiff.mp hequivalent
  · intro halike
    exact ⟨findings, rfl, hiff.mpr halike⟩

theorem alikeDocuments_refl (haccepted : AcceptedTrace first) (h : Unambiguous first) :
    AlikeDocuments registry first first := by
  obtain ⟨run, hruns, hcomparable⟩ := h
  obtain ⟨hnodup, hclear⟩ := (comparable_iff haccepted hruns).mp hcomparable
  refine ⟨run, run, hruns, hruns, rfl, hnodup, hnodup, paired_of_map_eq (f := id) (g := id) ?_ rfl⟩
  rintro left hleft right - rfl
  obtain ⟨hchild, hname⟩ := mem_scenarioEntries hleft
  have hother : left.2.name ≠ "conformance.run" := by simp [hname]
  have hwithin := within_length (validTrace_of_validateSemantics haccepted.valid)
    (mem_children.mp hchild).1 hother
  exact ⟨rfl, alike_refl hwithin (hclear _ hchild)⟩

theorem alikeDocuments_symm (h : AlikeDocuments registry first second) :
    AlikeDocuments registry second first := by
  obtain ⟨left, right, hleft, hright, hview, hnodup, hnodup', hpaired⟩ := h
  refine ⟨right, left, hright, hleft, hview.symm, hnodup', hnodup, ?_⟩
  exact paired_imp (fun r l h => ⟨h.1.symm, alike_symm h.2⟩) (paired_swap hpaired)

theorem alikeDocuments_trans (h : AlikeDocuments registry first second)
    (h' : AlikeDocuments registry second third) : AlikeDocuments registry first third := by
  obtain ⟨left, middle, hleft, hmiddle, hview, hnodup, -, hpaired⟩ := h
  obtain ⟨middle', right, hmiddle', hright, hview', -, hnodup', hpaired'⟩ := h'
  obtain rfl : middle = middle' := List.singleton_injective (hmiddle.symm.trans hmiddle')
  refine ⟨left, right, hleft, hright, hview.trans hview', hnodup, hnodup', ?_⟩
  refine paired_imp ?_ (paired_trans hpaired hpaired')
  rintro l r ⟨m, ⟨hkey, halike⟩, hkey', halike'⟩
  exact ⟨hkey.trans hkey', alike_trans halike halike'⟩

/-- Spans that are alike on the wire are alike under every registry. -/
theorem alike_of_wire {left right : TraceSpan} (h : Alike none first second left right) :
    Alike registry first second left right := by
  induction h with
  | intro hview hleft hright hreference hcandidate hkeys _ ih =>
    exact .intro (spanView_of_wire registry hview) hleft hright hreference hcandidate hkeys ih

theorem alikeDocuments_of_wire (h : AlikeDocuments none first second) :
    AlikeDocuments registry first second := by
  obtain ⟨left, right, hleft, hright, hview, hnodup, hnodup', hpaired⟩ := h
  exact ⟨left, right, hleft, hright, spanView_of_wire registry hview, hnodup, hnodup',
    paired_imp (fun l r h => ⟨h.1, alike_of_wire h.2⟩) hpaired⟩

theorem clearBelow_of_alike {left right : TraceSpan}
    (h : Alike registry first second left right) : ClearBelow first left := by
  induction h with
  | @intro left right pairs _ hleft _ hreference _ _ _ ih =>
    refine clearBelow_iff.mpr ⟨hleft, (forall_pairedChildren_iff hleft).mp ?_⟩
    rw [hreference, List.forall_mem_map]
    exact ih

/-- A trace is equivalent to itself exactly when nothing in it is ambiguous. -/
theorem equivalent_self_iff (haccepted : AcceptedTrace first) :
    Equivalent registry first first ↔ Unambiguous first := by
  rw [equivalent_iff_alike haccepted haccepted]
  refine ⟨?_, alikeDocuments_refl haccepted⟩
  rintro ⟨run, -, hruns, -, -, hnodup, -, pairs, hleft, -, hpairs⟩
  obtain ⟨hmem, hname⟩ := mem_runs.mp (hruns ▸ List.mem_singleton_self run)
  refine ⟨run, hruns, (comparable_iff haccepted hruns).mpr ⟨hnodup, ?_⟩⟩
  refine (forall_scenarios_iff haccepted hmem hname hnodup).mp ?_
  rw [hleft, List.forall_mem_map]
  intro pair hpair
  exact clearBelow_of_alike (hpairs pair hpair).2

end Verdict

/-- The verdict is an equivalence on the traces that can be compared, and equivalence on the
wire is equivalence under the registry. -/
theorem verdict_equivalence (registry : Option RegistrySet) :
    (Equivalence fun first second : { trace // Admitted registry trace } =>
      Equivalent registry first.1 second.1) ∧
    ∀ first second : { trace // Admitted registry trace },
      Equivalent none first.1 second.1 → Equivalent registry first.1 second.1 := by
  have hiff : ∀ (other : Option RegistrySet) (first second : { trace // Admitted registry trace }),
      Equivalent other first.1 second.1 ↔ AlikeDocuments other first.1 second.1 :=
    fun other first second => equivalent_iff_alike first.2.accepted second.2.accepted
  simp only [hiff]
  refine ⟨⟨?_, ?_, ?_⟩, ?_⟩
  · intro first
    exact alikeDocuments_refl first.2.accepted first.2.unambiguous
  · intro first second
    exact alikeDocuments_symm
  · intro first second third
    exact alikeDocuments_trans
  · intro first second
    exact alikeDocuments_of_wire

theorem tallySpan_decoded {name spanId parentSpanId : String} {start finish : Nat}
    {attributes : Attributes} (hname : name ∈ ctscSpans) (h : DecodedAttributes attributes) :
    DecodedSpan (tallySpan name spanId parentSpanId start finish attributes) :=
  ⟨hname, h, by simp [tallySpan]⟩

theorem tallyTrace_accepted : AcceptedTrace tallyTrace := by
  refine ⟨tally_linked.valid, fun span hspan => ?_⟩
  have hcounts : (AnyValue.array (countsEntries.map entryOf)).Decoded :=
    (counts_accepted (.inl rfl) "").1
  have hinputs : (AnyValue.kvList [("counts", .array (countsEntries.map entryOf))]).Decoded :=
    AnyValue.decoded_kvList_iff.mpr ⟨by decide, by simpa using hcounts⟩
  simp only [tallyTrace, List.mem_cons, List.not_mem_nil, or_false] at hspan
  rcases hspan with rfl | rfl | rfl
  · exact tallySpan_decoded (by decide) ⟨by decide, by simp [AnyValue.Decoded.string]⟩
  · exact tallySpan_decoded (by decide) ⟨by decide, by simp [AnyValue.Decoded.string]⟩
  · refine tallySpan_decoded (by decide) ⟨?_, by simp [AnyValue.Decoded.string, hinputs]⟩
    exact sorted_iff_keys.mpr (by decide)

theorem tallyTrace_equivalent : Equivalent none tallyTrace tallyTrace := by
  have hequivalent : (compareDocuments tallyTrace tallyTrace none).any
      Findings.equivalent = true := by decide +kernel
  cases hfindings : compareDocuments tallyTrace tallyTrace none with
  | none =>
    rw [hfindings] at hequivalent
    cases hequivalent
  | some findings =>
    rw [hfindings] at hequivalent
    exact ⟨findings, hfindings, hequivalent⟩

theorem tallyTrace_admitted : Admitted (some tallySet) tallyTrace := by
  refine ⟨tallyTrace_accepted, ?_, (equivalent_self_iff tallyTrace_accepted).mp tallyTrace_equivalent⟩
  rintro set hset
  obtain rfl := Option.some.inj hset
  exact tally_linked.linked

theorem verdict_equivalence_tally : Equivalent (some tallySet) tallyTrace tallyTrace :=
  (verdict_equivalence (some tallySet)).2 ⟨tallyTrace, tallyTrace_admitted⟩
    ⟨tallyTrace, tallyTrace_admitted⟩ tallyTrace_equivalent

end SpecGate.VerdictRelation

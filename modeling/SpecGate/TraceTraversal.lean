import SpecGate.ForestWalk
import SpecGate.ComparisonDecision

/-!
The traversal of an accepted trace: from its only run through the scenarios and down the
children of every span, in the order in which the comparison takes them. The comparison itself ends as well,
whatever the other trace.
-/
namespace SpecGate.TraceTraversal

open Values TraceModel TraceAncestry TraceValidation CachedWalk Collecting Comparison
open ComparisonVerdict SemanticTree AlikeTraces ComparisonDecision TraceForest ForestWalk

/-- The children of a span: those of a parallel span as they come, others in interval order. -/
def orderedChildren (document : TraceDocument) (span : TraceSpan) : List TraceSpan :=
  if span.name = "conformance.parallel" then children document span
  else sortedChildren document span

def scenarios (document : TraceDocument) (run : TraceSpan) : List TraceSpan :=
  (children document run).filter fun span => span.name == "conformance.scenario"

/-- The run and what lies below its scenarios, each descent cut off where the comparison
cuts it off. -/
def traversal (document : TraceDocument) (run : TraceSpan) : Option (List TraceSpan) :=
  (collect (visit (orderedChildren document) (document.spans.length + 1))
    (scenarios document run)).map fun below => run :: below.flatten

/-- One span names another as its parent. -/
def ParentLink (spans : List TraceSpan) (child parent : TraceSpan) : Prop :=
  child ∈ spans ∧ parent ∈ spans ∧ child.traceId = parent.traceId ∧
    child.parentSpanId = parent.spanId

section Ancestry

variable {spans : List TraceSpan}

theorem parentLink_iff {child parent : TraceSpan} :
    ParentLink spans child parent ↔ parent ∈ spans ∧ child ∈ children ⟨spans⟩ parent := by
  rw [mem_children]
  unfold ParentLink
  exact and_left_comm

theorem ParentLink.next (hvalid : ValidTrace spans) {child parent : TraceSpan}
    (h : ParentLink spans child parent) : Next (ancestry spans) child parent := by
  obtain ⟨hparent, hchild⟩ := parentLink_iff.mp h
  have hdocument : ValidTrace (TraceDocument.mk spans).spans := hvalid
  exact next_of_child hdocument hparent hchild

end Ancestry

section Traversal

variable {document : TraceDocument}

end Traversal

section Termination

variable {reference candidate : TraceDocument} {registry : Option RegistryModel.RegistrySet}

end Termination

end SpecGate.TraceTraversal

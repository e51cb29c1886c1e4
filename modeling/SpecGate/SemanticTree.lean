import SpecGate.ComparisonVerdict
import SpecGate.TraceForest

/-!
The semantic tree of a trace: scenarios by name, children of sequential spans in
interval order, branches of parallel spans by identity, events in recorded order, and
of all attributes those that a policy keeps.
-/
namespace SpecGate.SemanticTree

open Values TraceModel TraceAncestry TraceValidation SortedAssoc Collecting Pairing Comparison
open ComparisonVerdict TraceForest

/-- A trace as the trace loader builds it and the trace validator accepts it. -/
structure AcceptedTrace (document : TraceDocument) : Prop where
  valid : validateSemantics document.spans = some []
  decoded : ∀ span ∈ document.spans, DecodedSpan span

/-! ### Labels -/

/-- What of a span and of its events takes part in a comparison. -/
structure Policy where
  spanKey : String → String → Bool
  eventKey : String → String → Bool
  status : Bool

def kept (p : String → Bool) (attributes : Attributes) : Attributes :=
  attributes.filter fun entry => p entry.1

structure EventLabel where
  name : String
  attributes : Attributes
  deriving DecidableEq

structure SpanLabel where
  name : String
  attributes : Attributes
  events : List EventLabel
  status : Option SpanStatus
  deriving DecidableEq

def eventLabel (policy : Policy) (event : TraceEvent) : EventLabel where
  name := event.name
  attributes := kept (policy.eventKey event.name) event.attributes

def spanLabel (policy : Policy) (span : TraceSpan) : SpanLabel where
  name := span.name
  attributes := kept (policy.spanKey span.name) span.attributes
  events := span.events.map (eventLabel policy)
  status := if policy.status then some span.status else none

/-- The attributes of a span that the strict policy compares. -/
def strictSpanKeys (name : String) : List String :=
  if name = "conformance.operation" then
    ["conformance.component.id", "conformance.operation.name", "conformance.operation.inputs"]
  else []

/-- The policy of the comparison engine. -/
def strict : Policy where
  spanKey name key := decide (key ∈ strictSpanKeys name)
  eventKey name key := decide (key ∈ strictEventKeys name)
  status := false

/-- The policy that keeps everything but identities. -/
def literal : Policy where
  spanKey _ key := decide (key ≠ "conformance.run.id")
  eventKey _ _ := true
  status := true

theorem kept_eq_iff {names : List String} {left right : Attributes}
    (hleft : DecodedAttributes left) (hright : DecodedAttributes right) :
    kept (fun key => decide (key ∈ names)) left = kept (fun key => decide (key ∈ names)) right ↔
      ∀ key ∈ names, lookup left key = lookup right key := by
  have hfilter := filter_eq_iff hleft.sorted hright.sorted fun key => decide (key ∈ names)
  simp only [decide_eq_true_eq] at hfilter
  exact hfilter

theorem eventLabel_eq_iff {left right : TraceEvent} (hleft : DecodedAttributes left.attributes)
    (hright : DecodedAttributes right.attributes) :
    eventLabel strict left = eventLabel strict right ↔
      left.name = right.name ∧ ∀ key ∈ strictEventKeys left.name,
        lookup left.attributes key = lookup right.attributes key := by
  rw [eventLabel, eventLabel, EventLabel.mk.injEq]
  refine and_congr_right fun hname => ?_
  rw [← hname]
  exact kept_eq_iff hleft hright

/-- Without a registry, event lists compare as their labels. -/
theorem compareEvents_eq_nil_iff {reference candidate : TraceDocument}
    (hreference : AcceptedTrace reference) (hcandidate : AcceptedTrace candidate)
    {left right : TraceSpan} (hleft : left ∈ reference.spans) (hright : right ∈ candidate.spans)
    {declaration : Option Declaration} {path : String} :
    compareEvents left.events right.events declaration none path = [] ↔
      left.events.map (eventLabel strict) = right.events.map (eventLabel strict) := by
  have hvalidLeft := validTrace_of_validateSemantics hreference.valid
  have hvalidRight := validTrace_of_validateSemantics hcandidate.valid
  rw [compareEvents_eq_nil (fun event hevent => (hvalidLeft.event left hleft event hevent).2)
    (fun event hevent => (hvalidRight.event right hright event hevent).2), ← paired_iff_map]
  refine paired_congr fun a ha b hb => ?_
  exact (eventLabel_eq_iff ((hreference.decoded left hleft).events a ha)
    ((hcandidate.decoded right hright).events b hb)).symm

/-- Labels of two spans of one name that is not an operation: the events decide. -/
theorem spanLabel_eq_iff {left right : TraceSpan} (hname : left.name = right.name)
    (hother : left.name ≠ "conformance.operation") :
    spanLabel strict left = spanLabel strict right ↔
      left.events.map (eventLabel strict) = right.events.map (eventLabel strict) := by
  have hright : right.name ≠ "conformance.operation" := hname ▸ hother
  simp [spanLabel, hname, strict, strictSpanKeys, hright, kept]

/-- Labels of two operations. -/
theorem operationLabel_eq_iff {left right : TraceSpan}
    (hleft : DecodedAttributes left.attributes) (hright : DecodedAttributes right.attributes)
    (hleftName : left.name = "conformance.operation")
    (hrightName : right.name = "conformance.operation") :
    spanLabel strict left = spanLabel strict right ↔
      (∀ key ∈ strictSpanKeys "conformance.operation",
        lookup left.attributes key = lookup right.attributes key) ∧
      left.events.map (eventLabel strict) = right.events.map (eventLabel strict) := by
  rw [spanLabel, spanLabel, SpanLabel.mk.injEq, hleftName, hrightName]
  constructor
  · rintro ⟨-, hattributes, hevents, -⟩
    exact ⟨(kept_eq_iff hleft hright).mp hattributes, hevents⟩
  · rintro ⟨hattributes, hevents⟩
    exact ⟨rfl, (kept_eq_iff hleft hright).mpr hattributes, hevents, rfl⟩

/-! ### Trees -/

mutual

inductive Tree where
  | node (label : SpanLabel) (children : Children)

inductive Children where
  | sequence (trees : List Tree)
  | parallel (branches : List (SpanIdentity × Tree))

end

/-- The trees of keyed spans, under their keys. -/
def keyedTrees {κ : Type} (tree : TraceSpan → Option Tree) (entries : List (κ × TraceSpan)) :
    Option (List (κ × Tree)) :=
  collect (fun entry => (tree entry.2).map fun branch => (entry.1, branch)) entries

/-- What hangs below a span. `none` means that the descent was cut off. -/
def childTrees (policy : Policy) (document : TraceDocument) : Nat → TraceSpan → Option Children
  | 0, _ => none
  | fuel + 1, span =>
      let tree := fun child =>
        (childTrees policy document fuel child).map (Tree.node (spanLabel policy child))
      if span.name = "conformance.parallel" then
        (keyedTrees tree (ofList (identityEntries document span))).map Children.parallel
      else (collect tree (sortedChildren document span)).map Children.sequence

def spanTree (policy : Policy) (document : TraceDocument) (fuel : Nat) (span : TraceSpan) :
    Option Tree :=
  (childTrees policy document fuel span).map (Tree.node (spanLabel policy span))

structure DocumentTree where
  run : SpanLabel
  scenarios : List (String × Tree)

/-- The tree of a run of the document. -/
def documentTree (policy : Policy) (document : TraceDocument) (run : TraceSpan) :
    Option DocumentTree :=
  (keyedTrees (spanTree policy document document.spans.length)
    (ofList (scenarioEntries document run))).map (DocumentTree.mk (spanLabel policy run))

/-- The children of a span are told apart: by identity below a parallel span, and by
strict order elsewhere. -/
def ClearAt (document : TraceDocument) (span : TraceSpan) : Prop :=
  if span.name = "conformance.parallel" then
    ((children document span).map spanIdentity).Nodup
  else (children document span).Pairwise Separated

/-- A document without ambiguity below its run. -/
structure Comparable (document : TraceDocument) (run : TraceSpan) : Prop where
  scenarios : (keys (scenarioEntries document run)).Nodup
  children : ∀ span ∈ document.spans, span.name ≠ "conformance.run" → ClearAt document span

/-- One run on each side, no ambiguity, and equal semantic trees. -/
def Same (policy : Policy) (reference candidate : TraceDocument) : Prop :=
  ∃ left right tree, runs reference = [left] ∧ runs candidate = [right] ∧
    Comparable reference left ∧ Comparable candidate right ∧
    documentTree policy reference left = some tree ∧ documentTree policy candidate right = some tree

/-- Nothing below a span is ambiguous. -/
def ClearBelow (document : TraceDocument) (span : TraceSpan) : Prop :=
  ∀ other, Descends document span other → ClearAt document other

theorem clearBelow_iff {document : TraceDocument} {span : TraceSpan} :
    ClearBelow document span ↔
      ClearAt document span ∧ ∀ child ∈ children document span, ClearBelow document child := by
  constructor
  · intro h
    exact ⟨h span .refl, fun child hchild other hother => h other (.head hchild hother)⟩
  · rintro ⟨hself, hchildren⟩ other hother
    rcases Relation.ReflTransGen.cases_head hother with rfl | ⟨child, hchild, hdescends⟩
    · exact hself
    · exact hchildren child hchild other hdescends

section Totality

variable {policy : Policy} {document : TraceDocument}

theorem mem_identityEntries {span : TraceSpan} {entry : SpanIdentity × TraceSpan}
    (h : entry ∈ ofList (identityEntries document span)) : entry.2 ∈ children document span := by
  obtain ⟨child, hchild, rfl⟩ := List.mem_map.mp (mem_of_mem_ofList h)
  exact hchild

theorem mem_sortedChildren {span child : TraceSpan} :
    child ∈ sortedChildren document span ↔ child ∈ children document span :=
  (sortedChildren_perm document span).mem_iff

theorem keyedTrees_isSome {κ : Type} {tree : TraceSpan → Option Tree}
    {entries : List (κ × TraceSpan)} (h : ∀ entry ∈ entries, ∃ found, tree entry.2 = some found) :
    ∃ branches, keyedTrees tree entries = some branches := by
  refine collect_isSome fun entry hentry => ?_
  obtain ⟨found, hfound⟩ := h entry hentry
  exact ⟨(entry.1, found), by rw [hfound]; rfl⟩

theorem childTrees_succ (fuel : Nat) (span : TraceSpan) :
    childTrees policy document (fuel + 1) span =
      if span.name = "conformance.parallel" then
        (keyedTrees (spanTree policy document fuel)
          (ofList (identityEntries document span))).map Children.parallel
      else (collect (spanTree policy document fuel) (sortedChildren document span)).map
        Children.sequence := rfl

/-- Nothing is cut off where the descent ends. -/
theorem childTrees_isSome (policy : Policy) {fuel : Nat} {span : TraceSpan} (h : Within document fuel span) :
    ∃ children, childTrees policy document fuel span = some children := by
  induction h with
  | @intro fuel span _ ih =>
    have htree : ∀ child ∈ children document span,
        ∃ tree, spanTree policy document fuel child = some tree := by
      intro child hchild
      obtain ⟨below, hbelow⟩ := ih child hchild
      exact ⟨_, by rw [spanTree, hbelow]; rfl⟩
    rw [childTrees_succ]
    split_ifs
    · obtain ⟨branches, hbranches⟩ := keyedTrees_isSome fun entry hentry =>
        htree entry.2 (mem_identityEntries hentry)
      exact ⟨_, by rw [hbranches]; rfl⟩
    · obtain ⟨trees, htrees⟩ := collect_isSome fun child hchild =>
        htree child (mem_sortedChildren.mp hchild)
      exact ⟨_, by rw [htrees]; rfl⟩

theorem spanTree_isSome (policy : Policy) {fuel : Nat} {span : TraceSpan} (h : Within document fuel span) :
    ∃ tree, spanTree policy document fuel span = some tree := by
  obtain ⟨below, hbelow⟩ := childTrees_isSome policy h
  exact ⟨_, by rw [spanTree, hbelow]; rfl⟩

end Totality

end SpecGate.SemanticTree

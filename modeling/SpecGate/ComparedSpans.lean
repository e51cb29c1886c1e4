import SpecGate.ComparisonVerdict

/-!
What a comparison sees of one span: a value of a declared type in its canonical form,
every other value as it is on the wire, inputs by name and events in order. The passes
over two spans find nothing exactly when both look the same.
-/
namespace SpecGate.ComparedSpans

open Values RegistryModel Validation TraceModel TraceValidation SortedAssoc CanonicalOrder
open LinkedValues LinkedTraces Comparison ComparisonVerdict Pairing Collecting

/-- A value as it is compared. -/
inductive Seen where
  | wire (value : AnyValue)
  | canonical (value : Option CanonicalValue)

def seen (registry : Option RegistrySet) (component : Option ResolvedComponent)
    (type : Option TypeRef) (value : AnyValue) : Seen :=
  match type, component, registry with
  | some type, some component, some registry =>
      .canonical (canonicalValue registry component type value)
  | _, _, _ => .wire value

/-- An event as it is compared: its name, the name of its channel and its values. -/
structure EventView where
  name : String
  channel : String
  values : List (Option Seen)

def eventView (registry : Option RegistrySet) (declaration : Option Declaration)
    (event : TraceEvent) : EventView :=
  let component := declaration.map Prod.fst
  if event.name = "conformance.observation" then
    let name := eventString event "conformance.observation.name"
    ⟨event.name, name, [(lookup event.attributes "conformance.observation.value").map
      (seen registry component (observationType declaration name name))]⟩
  else if event.name = "conformance.result" then
    ⟨event.name, "", [(lookup event.attributes "conformance.result.value").map
      (seen registry component (resultType declaration))]⟩
  else if event.name = "conformance.error" then
    let name := eventString event "conformance.error.name"
    ⟨event.name, name, [(lookup event.attributes "conformance.error.value").map
      (seen registry component (errorType declaration name name))]⟩
  else if event.name = "conformance.fault" then
    ⟨event.name, "", ["conformance.fault.type", "conformance.fault.message"].map fun key =>
      (lookup event.attributes key).map Seen.wire⟩
  else ⟨event.name, "", []⟩

structure OperationView where
  component : String
  name : String
  inputs : String → Option Seen

/-- A span as it is compared, apart from what hangs below it. -/
structure SpanView where
  name : String
  operation : Option OperationView
  events : List EventView

/-- The declaration under which an operation span is compared with one of the same names. -/
def declarationOf (registry : Option RegistrySet) (span : TraceSpan) : Option Declaration :=
  registry.bind fun registry =>
    findOperation registry (attributeString span "conformance.component.id")
      (attributeString span "conformance.operation.name")

def spanView (registry : Option RegistrySet) (span : TraceSpan) : SpanView :=
  if span.name = "conformance.operation" then
    let declaration := declarationOf registry span
    { name := span.name
      operation := some
        { component := attributeString span "conformance.component.id"
          name := attributeString span "conformance.operation.name"
          inputs := fun name => (lookup (operationInputs span) name).map
            (seen registry (declaration.map Prod.fst) (inputType declaration name)) }
      events := span.events.map (eventView registry declaration) }
  else
    { name := span.name
      operation := none
      events := span.events.map (eventView registry none) }

section Passes

variable {registry : Option RegistrySet}

/-- Without a declared type, a value is compared as it is on the wire. -/
theorem seen_undeclared (component : Option ResolvedComponent) :
    seen registry component none = Seen.wire := rfl

theorem seen_unlinked (component : Option ResolvedComponent) (type : Option TypeRef) :
    seen none component type = Seen.wire := by
  funext value
  cases type with
  | none => rfl
  | some type => cases component <;> rfl

theorem compareValue_nil_iff {left right : Option AnyValue} {type : Option TypeRef}
    {component : Option ResolvedComponent} {path : String} :
    compareValue left right type component registry path = [] ↔
      left.map (seen registry component type) = right.map (seen registry component type) := by
  cases left with
  | none => cases right <;> simp [compareValue, mismatch]
  | some left =>
    cases right with
    | none => simp [compareValue, mismatch]
    | some right =>
      unfold compareValue seen
      simp only [Option.map_some, Option.some.injEq]
      split
      · rename_i type component registry
        by_cases hsame : canonicalValue registry component type left =
            canonicalValue registry component type right
        · simp [hsame]
        · simp [hsame, mismatch]
      · by_cases hsame : left = right
        · simp [hsame]
        · simp [hsame, mismatch]

theorem compareInputs_nil_iff {left right : TraceSpan} {declaration : Option Declaration}
    {path : String} : compareInputs left right declaration registry path = [] ↔
      ∀ name, (lookup (operationInputs left) name).map
          (seen registry (declaration.map Prod.fst) (inputType declaration name)) =
        (lookup (operationInputs right) name).map
          (seen registry (declaration.map Prod.fst) (inputType declaration name)) := by
  unfold compareInputs
  simp only [List.flatMap_eq_nil_iff, compareValue_nil_iff]
  constructor
  · intro h name
    by_cases hname : name ∈ keys (operationInputs left) ++ keys (operationInputs right)
    · exact h name (mem_distinct.mpr hname)
    · rw [List.mem_append, not_or] at hname
      rw [lookup_eq_none_iff.mpr hname.1, lookup_eq_none_iff.mpr hname.2]
  · intro h name _
    exact h name

theorem compareEvent_nil_iff {left right : TraceEvent} {declaration : Option Declaration}
    {path : String} (hname : left.name = right.name) :
    compareEvent left right declaration registry path = [] ↔
      eventView registry declaration left = eventView registry declaration right := by
  unfold compareEvent eventView
  rw [← hname]
  by_cases hobservation : left.name = "conformance.observation"
  · simp only [hobservation, if_true, List.append_eq_nil_iff, compareValue_nil_iff, mismatch_eq_nil,
      EventView.mk.injEq, List.cons.injEq, and_true, true_and]
    refine and_congr_right fun hchannel => ?_
    rw [← hchannel]
  by_cases hresult : left.name = "conformance.result"
  · simp [hresult, compareValue_nil_iff]
  by_cases herror : left.name = "conformance.error"
  · simp only [herror, String.reduceEq, if_false, if_true, List.append_eq_nil_iff,
      compareValue_nil_iff, mismatch_eq_nil, EventView.mk.injEq, List.cons.injEq, and_true, true_and]
    refine and_congr_right fun hchannel => ?_
    rw [← hchannel]
  by_cases hfault : left.name = "conformance.fault"
  · simp [hfault, compareValue_nil_iff, seen_undeclared]
  · simp [hobservation, hresult, herror, hfault]

theorem eventView_name (declaration : Option Declaration) (event : TraceEvent) :
    (eventView registry declaration event).name = event.name := by
  unfold eventView
  split_ifs <;> rfl

theorem compareEvents_nil_iff {left right : List TraceEvent} {declaration : Option Declaration}
    {path : String} : compareEvents left right declaration registry path = [] ↔
      left.map (eventView registry declaration) = right.map (eventView registry declaration) := by
  unfold compareEvents
  rw [List.flatMap_eq_nil_iff, ← paired_iff_map, ← matched_positions_iff]
  refine forall_congr' fun position => imp_congr_right fun _ => ?_
  cases hl : left[position]? with
  | none => cases hr : right[position]? <;> simp [Matched, mismatch]
  | some l =>
    cases hr : right[position]? with
    | none => simp [Matched, mismatch]
    | some r =>
      by_cases hname : l.name = r.name
      · simp only [ne_eq, hname, not_true_eq_false, if_false, Matched]
        exact compareEvent_nil_iff hname
      · have hview : eventView registry declaration l ≠ eventView registry declaration r := by
          intro heq
          apply hname
          rw [← eventView_name declaration l, heq, eventView_name]
        simp [Matched, mismatch, hname, hview]

theorem operationDeclaration_eq {left right : TraceSpan}
    (hcomponent : attributeString left "conformance.component.id" =
      attributeString right "conformance.component.id")
    (hname : attributeString left "conformance.operation.name" =
      attributeString right "conformance.operation.name") :
    operationDeclaration registry left right = declarationOf registry left ∧
      declarationOf registry right = declarationOf registry left := by
  unfold operationDeclaration declarationOf
  simp only [hcomponent, hname, and_self, if_true]

/-- What the passes over two operations themselves find. -/
theorem operation_nil_iff {left right : TraceSpan} (hleft : left.name = "conformance.operation")
    (hright : right.name = "conformance.operation") (componentPath operationPath path : String) :
    (if attributeString left "conformance.component.id" ≠
          attributeString right "conformance.component.id" then
        mismatch componentPath (attributeString left "conformance.component.id")
          (attributeString right "conformance.component.id") else []) ++
      (if attributeString left "conformance.operation.name" ≠
          attributeString right "conformance.operation.name" then
        mismatch operationPath (attributeString left "conformance.operation.name")
          (attributeString right "conformance.operation.name") else []) ++
      compareInputs left right (operationDeclaration registry left right) registry path ++
      compareEvents left.events right.events (operationDeclaration registry left right) registry
        path = [] ↔ spanView registry left = spanView registry right := by
  unfold spanView
  simp only [hleft, hright, if_true, List.append_eq_nil_iff, mismatch_eq_nil,
    compareInputs_nil_iff, compareEvents_nil_iff, SpanView.mk.injEq, Option.some.injEq,
    OperationView.mk.injEq, true_and, and_assoc]
  refine and_congr_right fun hcomponent => and_congr_right fun hname => ?_
  obtain ⟨hdeclaration, hsame⟩ := operationDeclaration_eq hcomponent hname
  rw [hdeclaration, hsame, funext_iff]

/-- Two spans of one name that is not an operation look the same when their events do. -/
theorem events_nil_iff {left right : TraceSpan} (hname : left.name = right.name)
    (hother : left.name ≠ "conformance.operation") {path : String} :
    compareEvents left.events right.events none registry path = [] ↔
      spanView registry left = spanView registry right := by
  have hright : right.name ≠ "conformance.operation" := by
    rw [← hname]
    exact hother
  unfold spanView
  rw [if_neg hother, if_neg hright, compareEvents_nil_iff, SpanView.mk.injEq]
  simp only [hname, true_and]

theorem spanView_name (span : TraceSpan) : (spanView registry span).name = span.name := by
  unfold spanView
  split_ifs <;> rfl

end Passes

/-! ### The wire and the registry -/

theorem map_wire_injective {left right : Option AnyValue}
    (h : left.map Seen.wire = right.map Seen.wire) : left = right := by
  cases left with
  | none =>
    cases right with
    | none => rfl
    | some right => cases h
  | some left =>
    cases right with
    | none => cases h
    | some right =>
      obtain rfl := Seen.wire.inj (Option.some.inj h)
      rfl

/-- Events that look the same on the wire look the same under every registry. -/
theorem eventView_of_wire (registry : Option RegistrySet) (declaration : Option Declaration)
    {left right : TraceEvent} (h : eventView none none left = eventView none none right) :
    eventView registry declaration left = eventView registry declaration right := by
  have hname : left.name = right.name := by
    rw [← @eventView_name none none left, h, eventView_name]
  unfold eventView at h ⊢
  rw [← hname] at h ⊢
  by_cases hobservation : left.name = "conformance.observation"
  · simp only [hobservation, if_true, seen_unlinked, EventView.mk.injEq, List.cons.injEq, and_true,
      true_and] at h ⊢
    rw [map_wire_injective h.2, ← h.1]
    exact ⟨rfl, rfl⟩
  by_cases hresult : left.name = "conformance.result"
  · simp only [hresult, String.reduceEq, if_false, if_true, seen_unlinked, EventView.mk.injEq,
      List.cons.injEq, and_true, true_and] at h ⊢
    rw [map_wire_injective h]
  by_cases herror : left.name = "conformance.error"
  · simp only [herror, String.reduceEq, if_false, if_true, seen_unlinked, EventView.mk.injEq,
      List.cons.injEq, and_true, true_and] at h ⊢
    rw [map_wire_injective h.2, ← h.1]
    exact ⟨rfl, rfl⟩
  · rw [if_neg hobservation, if_neg hobservation, if_neg hresult, if_neg hresult, if_neg herror,
      if_neg herror] at h ⊢
    exact h

/-- Spans that look the same on the wire look the same under every registry. -/
theorem spanView_of_wire (registry : Option RegistrySet) {left right : TraceSpan}
    (h : spanView none left = spanView none right) :
    spanView registry left = spanView registry right := by
  have hname : left.name = right.name := by
    rw [← @spanView_name none left, h, spanView_name]
  have hevents : ∀ declaration, left.events.map (eventView none none) =
      right.events.map (eventView none none) → left.events.map (eventView registry declaration) =
        right.events.map (eventView registry declaration) := by
    intro declaration hwire
    rw [← paired_iff_map] at hwire ⊢
    obtain ⟨pairs, hleft, hright, hpairs⟩ := hwire
    exact ⟨pairs, hleft, hright, fun pair hpair =>
      eventView_of_wire registry declaration (hpairs pair hpair)⟩
  unfold spanView at h ⊢
  rw [← hname] at h ⊢
  by_cases hoperation : left.name = "conformance.operation"
  · simp only [hoperation, if_true, SpanView.mk.injEq, Option.some.injEq, OperationView.mk.injEq,
      true_and] at h ⊢
    obtain ⟨⟨hcomponent, hoperationName, hinputs⟩, hview⟩ := h
    obtain ⟨-, hsame⟩ := @operationDeclaration_eq registry _ _ hcomponent hoperationName
    rw [hsame]
    refine ⟨⟨hcomponent, hoperationName, ?_⟩, hevents _ hview⟩
    funext name
    have hinput := congrFun hinputs name
    rw [seen_unlinked, seen_unlinked] at hinput
    rw [map_wire_injective hinput]
  · rw [if_neg hoperation, if_neg hoperation] at h ⊢
    simp only [SpanView.mk.injEq, true_and] at h ⊢
    exact hevents none h

end SpecGate.ComparedSpans

import SpecGate.Comparison
import SpecGate.Pairing

/-!
What each pass of the comparison finds without a registry: nothing between two values
or two input lists that are equal, nothing between two event lists with the same names
and compared attributes, and nothing ambiguous among children in strict order.
-/
namespace SpecGate.ComparisonVerdict

open Values RegistryModel Validation TraceModel TraceValidation SortedAssoc Collecting LinkedValues
open LinkedTraces Comparison Pairing

/-! ### Verdicts -/

theorem equivalent_iff {findings : Findings} :
    findings.equivalent = true ↔ findings.errors = [] ∧ findings.mismatches = [] := by
  simp [Findings.equivalent]

@[simp] theorem equivalent_none : Findings.none.equivalent = true := rfl

@[simp] theorem equivalent_append {left right : Findings} :
    (left ++ right).equivalent = true ↔ left.equivalent = true ∧ right.equivalent = true := by
  show (Findings.append left right).equivalent = true ↔ _
  simp only [equivalent_iff, Findings.append, List.append_eq_nil_iff]
  exact and_and_and_comm

@[simp] theorem equivalent_ofMismatches {mismatches : List ComparisonMismatch} :
    (Findings.ofMismatches mismatches).equivalent = true ↔ mismatches = [] := by
  simp [equivalent_iff, Findings.ofMismatches]

theorem not_equivalent_error {path message : String} :
    ¬ (Findings.error path message).equivalent = true := by
  simp [equivalent_iff, Findings.error]

theorem equivalent_concat {findings : List Findings} :
    (Findings.concat findings).equivalent = true ↔ ∀ f ∈ findings, f.equivalent = true := by
  simp only [equivalent_iff, Findings.concat, List.flatMap_eq_nil_iff]
  exact ⟨fun h f hf => ⟨h.1 f hf, h.2 f hf⟩, fun h => ⟨fun f hf => (h f hf).1, fun f hf => (h f hf).2⟩⟩

/-- A comparison that ends, and finds nothing exactly when a relation holds. -/
def Decides (outcome : Option Findings) (P : Prop) : Prop :=
  ∃ findings, outcome = some findings ∧ (findings.equivalent = true ↔ P)

theorem Decides.congr {outcome : Option Findings} {P Q : Prop} (h : Decides outcome P)
    (hPQ : P ↔ Q) : Decides outcome Q := by
  obtain ⟨findings, hfindings, hiff⟩ := h
  exact ⟨findings, hfindings, hiff.trans hPQ⟩

theorem decides_some {findings : Findings} {P : Prop} (h : findings.equivalent = true ↔ P) :
    Decides (some findings) P := ⟨findings, rfl, h⟩

theorem decides_mismatch {path expected actual : String} {P : Prop} (h : ¬ P) :
    Decides (some (Findings.ofMismatches (mismatch path expected actual))) P :=
  decides_some (iff_of_false (by simp [mismatch]) h)

theorem Decides.prepend {outcome : Option Findings} {P Q : Prop} {first : Findings}
    (h : Decides outcome P) (hfirst : first.equivalent = true ↔ Q) :
    Decides (outcome.map (first ++ ·)) (Q ∧ P) := by
  obtain ⟨findings, rfl, hiff⟩ := h
  exact decides_some (equivalent_append.trans (and_congr hfirst hiff))

/-- A pass over a list decides what it decides of every element. -/
theorem decides_collect {α : Type} {f : α → Option Findings} {P : α → Prop} {values : List α}
    (h : ∀ value ∈ values, Decides (f value) (P value)) :
    Decides ((collect f values).map Findings.concat) (∀ value ∈ values, P value) := by
  obtain ⟨results, hresults⟩ : ∃ results, collect f values = some results :=
    collect_isSome fun value hvalue =>
      let ⟨findings, hfindings, _⟩ := h value hvalue
      ⟨findings, hfindings⟩
  rw [hresults]
  refine decides_some ?_
  rw [equivalent_concat]
  rw [collect_eq_some_iff] at hresults
  have hall : ∀ findings, findings ∈ results ↔ ∃ value ∈ values, f value = some findings := by
    intro findings
    have hmem : some findings ∈ values.map f ↔ findings ∈ results := by
      rw [hresults, List.mem_map]
      exact ⟨fun ⟨other, hother, heq⟩ => Option.some.inj heq ▸ hother, fun h => ⟨findings, h, rfl⟩⟩
    rw [← hmem, List.mem_map]
  constructor
  · intro hclear value hvalue
    obtain ⟨findings, hfindings, hiff⟩ := h value hvalue
    exact hiff.mp (hclear findings ((hall findings).mpr ⟨value, hvalue, hfindings⟩))
  · intro hholds findings hmem
    obtain ⟨value, hvalue, hfindings⟩ := (hall findings).mp hmem
    obtain ⟨found, hfound, hiff⟩ := h value hvalue
    rw [hfindings] at hfound
    obtain rfl := Option.some.inj hfound
    exact hiff.mpr (hholds value hvalue)

/-! ### Values and inputs -/

theorem mismatch_eq_nil {path left right : String} :
    (if left ≠ right then mismatch path left right else []) = [] ↔ left = right := by
  by_cases h : left = right
  · simp [h]
  · simp [h, mismatch]

/-- Without a registry values compare as they are. -/
theorem compareValue_eq_nil {left right : Option AnyValue} {type : Option TypeRef}
    {component : Option ResolvedComponent} {path : String} :
    compareValue left right type component none path = [] ↔ left = right := by
  cases left with
  | none => cases right <;> simp [compareValue, mismatch]
  | some left =>
    cases right with
    | none => simp [compareValue, mismatch]
    | some right =>
      by_cases h : left = right
      · simp [compareValue, h]
      · simp [compareValue, mismatch, h]

/-- Two attributes that are there as strings have the same text exactly when they are equal. -/
theorem stringAttr_eq_iff {left right : Attributes} {key : String}
    (hleft : ∃ text, lookup left key = some (.string text))
    (hright : ∃ text, lookup right key = some (.string text)) :
    (stringAttr left key).getD missing = (stringAttr right key).getD missing ↔
      lookup left key = lookup right key := by
  obtain ⟨l, hl⟩ := hleft
  obtain ⟨r, hr⟩ := hright
  simp [stringAttr, hl, hr, AnyValue.asString]

theorem compareInputs_eq_nil {left right : TraceSpan} {declaration : Option Declaration}
    {path : String} (hleft : Sorted (operationInputs left)) (hright : Sorted (operationInputs right)) :
    compareInputs left right declaration none path = [] ↔
      operationInputs left = operationInputs right := by
  unfold compareInputs
  simp only [List.flatMap_eq_nil_iff, compareValue_eq_nil]
  constructor
  · intro h
    refine ext_of_lookup hleft hright fun key => ?_
    by_cases hkey : key ∈ keys (operationInputs left) ++ keys (operationInputs right)
    · exact h key (mem_distinct.mpr hkey)
    · rw [List.mem_append, not_or] at hkey
      rw [lookup_eq_none_iff.mpr hkey.1, lookup_eq_none_iff.mpr hkey.2]
  · intro h key _
    rw [h]

/-! ### Events -/

/-- The attributes of an event that the strict policy compares. -/
def strictEventKeys (name : String) : List String :=
  if name = "conformance.observation" then
    ["conformance.observation.name", "conformance.observation.value"]
  else if name = "conformance.result" then ["conformance.result.value"]
  else if name = "conformance.error" then ["conformance.error.name", "conformance.error.value"]
  else if name = "conformance.fault" then ["conformance.fault.type", "conformance.fault.message"]
  else []

theorem compareEvent_eq_nil {left right : TraceEvent} {declaration : Option Declaration}
    {path : String} (hname : left.name = right.name) (hleft : EventShape left)
    (hright : EventShape right) :
    compareEvent left right declaration none path = [] ↔
      ∀ key ∈ strictEventKeys left.name, lookup left.attributes key = lookup right.attributes key := by
  unfold compareEvent strictEventKeys
  unfold EventShape at hleft hright
  rw [← hname] at hright
  by_cases hobservation : left.name = "conformance.observation"
  · simp only [hobservation, EventRole.parse, if_true] at hleft hright ⊢
    simp only [List.append_eq_nil_iff, compareValue_eq_nil, List.forall_mem_cons, List.not_mem_nil,
      false_imp_iff, implies_true, and_true]
    exact and_congr (mismatch_eq_nil.trans (stringAttr_eq_iff hleft.1 hright.1)) Iff.rfl
  by_cases hresult : left.name = "conformance.result"
  · simp [hresult, compareValue_eq_nil]
  by_cases herror : left.name = "conformance.error"
  · simp only [herror, EventRole.parse, String.reduceEq, if_false, if_true] at hleft hright ⊢
    simp only [List.append_eq_nil_iff, compareValue_eq_nil, List.forall_mem_cons, List.not_mem_nil,
      false_imp_iff, implies_true, and_true]
    exact and_congr (mismatch_eq_nil.trans (stringAttr_eq_iff hleft hright)) Iff.rfl
  by_cases hfault : left.name = "conformance.fault"
  · simp [hfault, compareValue_eq_nil]
  · simp [hobservation, hresult, herror, hfault]

theorem compareEvents_eq_nil {left right : List TraceEvent} {declaration : Option Declaration}
    {path : String} (hleft : ∀ event ∈ left, EventShape event)
    (hright : ∀ event ∈ right, EventShape event) :
    compareEvents left right declaration none path = [] ↔
      Paired (fun l r => l.name = r.name ∧ ∀ key ∈ strictEventKeys l.name,
        lookup l.attributes key = lookup r.attributes key) left right := by
  unfold compareEvents
  rw [List.flatMap_eq_nil_iff, ← matched_positions_iff]
  refine forall_congr' fun position => imp_congr_right fun _ => ?_
  cases hl : left[position]? with
  | none => cases hr : right[position]? <;> simp [Matched, mismatch]
  | some l =>
    cases hr : right[position]? with
    | none => simp [Matched, mismatch]
    | some r =>
      have hshapeLeft := hleft l (List.mem_of_getElem? hl)
      have hshapeRight := hright r (List.mem_of_getElem? hr)
      by_cases hname : l.name = r.name
      · simp only [ne_eq, hname, not_true_eq_false, if_false, Matched, true_and]
        rw [compareEvent_eq_nil hname hshapeLeft hshapeRight, hname]
      · simp [Matched, mismatch, hname]

/-! ### Order and identity of children -/

/-- The left interval ends by the start of the right one, and not the other way round. -/
def Before (left right : TraceSpan) : Prop :=
  (childInterval left).2 ≤ (childInterval right).1 ∧
    ¬ (childInterval right).2 ≤ (childInterval left).1

/-- Strictly ordered, one way or the other. -/
def Separated (left right : TraceSpan) : Prop := Before left right ∨ Before right left

instance (left right : TraceSpan) : Decidable (Separated left right) :=
  inferInstanceAs (Decidable ((_ ∧ ¬ _) ∨ (_ ∧ ¬ _)))

def Ordered (span : TraceSpan) : Prop := (childInterval span).1 ≤ (childInterval span).2

theorem intervalLe_iff {left right : TraceSpan} : intervalLe left right = true ↔
    (childInterval left).1 < (childInterval right).1 ∨
      ((childInterval left).1 = (childInterval right).1 ∧
        (childInterval left).2 ≤ (childInterval right).2) := by
  simp [intervalLe]

theorem sortedChildren_pairwise (document : TraceDocument) (parent : TraceSpan) :
    (sortedChildren document parent).Pairwise fun left right => intervalLe left right = true := by
  refine List.pairwise_mergeSort (fun a b c hab hbc => ?_) (fun a b => ?_) _
  · rw [intervalLe_iff] at hab hbc ⊢
    omega
  · rw [Bool.or_eq_true, intervalLe_iff, intervalLe_iff]
    omega

theorem sortedChildren_perm (document : TraceDocument) (parent : TraceSpan) :
    (sortedChildren document parent).Perm (children document parent) :=
  List.mergeSort_perm _ _

theorem Before.trans {a b c : TraceSpan} (ha : Ordered a) (hb : Ordered b) (hab : Before a b) (hbc : Before b c) : Before a c := by
  unfold Before Ordered at *
  omega

theorem before_of_separated {left right : TraceSpan} (hright : Ordered right)
    (hle : intervalLe left right = true) (h : Separated left right) : Before left right := by
  rw [intervalLe_iff] at hle
  unfold Separated Before Ordered at *
  omega

theorem adjacentIssue_cons {left right : TraceSpan} {rest : List TraceSpan} :
    adjacentIssue (left :: right :: rest) = none ↔
      Before left right ∧ adjacentIssue (right :: rest) = none := by
  rw [adjacentIssue]
  unfold Before
  split_ifs with hequal hoverlap
  · simp only [false_iff]
    omega
  · simp only [false_iff]
    omega
  · have hbefore : (childInterval left).2 ≤ (childInterval right).1 ∧
        ¬ (childInterval right).2 ≤ (childInterval left).1 := by omega
    exact ⟨fun h => ⟨hbefore, h⟩, fun h => h.2⟩

/-- In interval order, neighbours suffice: no adjacent pair is open exactly when no
pair is. -/
theorem adjacentIssue_eq_none {spans : List TraceSpan} (hordered : ∀ span ∈ spans, Ordered span)
    (hsorted : spans.Pairwise fun left right => intervalLe left right = true) :
    adjacentIssue spans = none ↔ spans.Pairwise Separated := by
  constructor
  · intro h
    suffices hbefore : spans.Pairwise Before from hbefore.imp .inl
    induction spans with
    | nil => exact .nil
    | cons left spans ih =>
      cases spans with
      | nil => exact List.pairwise_singleton _ _
      | cons right rest =>
        obtain ⟨hhead, hrest⟩ := adjacentIssue_cons.mp h
        have htail := ih (fun span hspan => hordered span (List.mem_cons_of_mem _ hspan))
          (List.pairwise_cons.mp hsorted).2 hrest
        refine List.pairwise_cons.mpr ⟨fun span hspan => ?_, htail⟩
        rcases List.mem_cons.mp hspan with rfl | hspan
        · exact hhead
        · exact hhead.trans (hordered _ (by simp)) (hordered _ (by simp)) ((List.pairwise_cons.mp htail).1 span hspan)
  · intro h
    induction spans with
    | nil => rfl
    | cons left spans ih =>
      cases spans with
      | nil => rfl
      | cons right rest =>
        have hpair := (List.pairwise_cons.mp h).1 right List.mem_cons_self
        have hle := (List.pairwise_cons.mp hsorted).1 right List.mem_cons_self
        exact adjacentIssue_cons.mpr
          ⟨before_of_separated (hordered _ (by simp)) hle hpair,
            ih (fun span hspan => hordered span (List.mem_cons_of_mem _ hspan))
              (List.pairwise_cons.mp hsorted).2 (List.pairwise_cons.mp h).2⟩

theorem separated_symm {left right : TraceSpan} (h : Separated left right) :
    Separated right left := h.symm

theorem ordered_of_valid {document : TraceDocument} (hvalid : ValidTrace document.spans)
    {span : TraceSpan} (hspan : span ∈ document.spans) : Ordered span := by
  obtain ⟨start, finish, hinterval, hle⟩ := hvalid.interval span hspan
  simpa [Ordered, childInterval, hinterval] using hle

/-- The children of a sequential parent have an order exactly when each two of them are
separated. -/
theorem sequentialChildren_cases {document : TraceDocument} (hvalid : ValidTrace document.spans)
    (parent : TraceSpan) (side path : String) :
    (sequentialChildren document parent side path = .ok (sortedChildren document parent) ∧
        (children document parent).Pairwise Separated) ∨
      (∃ findings, sequentialChildren document parent side path = .error findings ∧
        ¬ findings.equivalent = true ∧ ¬ (children document parent).Pairwise Separated) := by
  have hmem : ∀ span ∈ children document parent, span ∈ document.spans :=
    fun span hspan => (List.mem_filter.mp hspan).1
  have hordered : ∀ span ∈ sortedChildren document parent, Ordered span := fun span hspan =>
    ordered_of_valid hvalid (hmem span ((sortedChildren_perm document parent).mem_iff.mp hspan))
  have hiff := adjacentIssue_eq_none hordered (sortedChildren_pairwise document parent)
  rw [(sortedChildren_perm document parent).pairwise_iff fun h => separated_symm h] at hiff
  unfold sequentialChildren
  rw [if_neg]
  swap
  · intro hany
    obtain ⟨span, hspan, hnone⟩ := List.any_eq_true.mp hany
    obtain ⟨start, finish, hinterval, hle⟩ := hvalid.interval span (hmem span hspan)
    simp [hinterval, hle] at hnone
  cases hissue : adjacentIssue (sortedChildren document parent) with
  | none => exact .inl ⟨rfl, hiff.mp hissue⟩
  | some message =>
    refine .inr ⟨_, rfl, not_equivalent_error, fun h => ?_⟩
    rw [hiff.mpr h] at hissue
    cases hissue

theorem repeatedKeys_mismatches {κ : Type} [DecidableEq κ] {place : κ → String} {message : String}
    {seen keys : List κ} : (repeatedKeys place message seen keys).mismatches = [] := by
  induction keys generalizing seen with
  | nil => rfl
  | cons key rest ih =>
    show (if key ∈ seen then Findings.error (place key) message else Findings.none).mismatches ++
      (repeatedKeys place message (key :: seen) rest).mismatches = []
    rw [ih, List.append_nil]
    split_ifs <;> rfl

theorem repeatedKeys_equivalent {κ : Type} [DecidableEq κ] {place : κ → String} {message : String}
    {seen keys : List κ} : (repeatedKeys place message seen keys).equivalent = true ↔
      keys.Nodup ∧ ∀ key ∈ keys, key ∉ seen := by
  induction keys generalizing seen with
  | nil => simp [repeatedKeys]
  | cons key rest ih =>
    rw [repeatedKeys, equivalent_append, ih, List.nodup_cons]
    by_cases hseen : key ∈ seen
    · simp [hseen, not_equivalent_error]
    · simp only [hseen, if_false, equivalent_none, true_and, List.mem_cons, not_or]
      grind

end SpecGate.ComparisonVerdict

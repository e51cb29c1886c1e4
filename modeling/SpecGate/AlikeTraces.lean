import SpecGate.ComparedSpans
import SpecGate.SemanticTree

/-!
Alike traces: spans that look the same, with children that pair up, by identity below a
parallel span and in strict order elsewhere, and are alike again. A comparison, with or
without a registry, finds nothing exactly between alike traces, and being alike is an
equivalence.
-/
namespace SpecGate.AlikeTraces

open Values RegistryModel TraceModel TraceAncestry TraceValidation SortedAssoc Collecting Pairing
open Comparison ComparisonVerdict TraceForest SemanticTree ComparedSpans

/-- The children that a comparison pairs, with what it pairs them by. -/
def pairedChildren (document : TraceDocument) (span : TraceSpan) :
    List (Option SpanIdentity × TraceSpan) :=
  if span.name = "conformance.parallel" then
    (ofList (identityEntries document span)).map fun entry => (some entry.1, entry.2)
  else (sortedChildren document span).map fun child => (none, child)

/-- Two spans that a comparison does not tell apart. -/
inductive Alike (registry : Option RegistrySet) (reference candidate : TraceDocument) :
    TraceSpan → TraceSpan → Prop
  | intro {left right : TraceSpan}
      {pairs : List ((Option SpanIdentity × TraceSpan) × (Option SpanIdentity × TraceSpan))}
      (hview : spanView registry left = spanView registry right)
      (hleft : ClearAt reference left) (hright : ClearAt candidate right)
      (hreference : pairedChildren reference left = pairs.map Prod.fst)
      (hcandidate : pairedChildren candidate right = pairs.map Prod.snd)
      (hkeys : ∀ pair ∈ pairs, pair.1.1 = pair.2.1)
      (hchildren : ∀ pair ∈ pairs, Alike registry reference candidate pair.1.2 pair.2.2) :
      Alike registry reference candidate left right

/-- What is asked of the children of two spans. -/
structure Below (registry : Option RegistrySet) (reference candidate : TraceDocument)
    (left right : TraceSpan) : Prop where
  clearLeft : ClearAt reference left
  clearRight : ClearAt candidate right
  paired : Paired (fun l r => l.1 = r.1 ∧ Alike registry reference candidate l.2 r.2)
    (pairedChildren reference left) (pairedChildren candidate right)

/-- One run on each side that looks the same, scenarios with distinct names on both, and
alike scenarios under the same names. -/
def AlikeDocuments (registry : Option RegistrySet) (reference candidate : TraceDocument) : Prop :=
  ∃ left right, runs reference = [left] ∧ runs candidate = [right] ∧
    spanView registry left = spanView registry right ∧
    (keys (scenarioEntries reference left)).Nodup ∧
    (keys (scenarioEntries candidate right)).Nodup ∧
    Paired (fun l r => l.1 = r.1 ∧ Alike registry reference candidate l.2 r.2)
      (ofList (scenarioEntries reference left)) (ofList (scenarioEntries candidate right))

section Equivalence

variable {registry : Option RegistrySet} {first second third : TraceDocument}

theorem alike_iff {left right : TraceSpan} : Alike registry first second left right ↔
    spanView registry left = spanView registry right ∧ Below registry first second left right := by
  constructor
  · intro h
    cases h with
    | intro hview hleft hright hreference hcandidate hkeys hchildren =>
      exact ⟨hview, hleft, hright, _, hreference, hcandidate,
        fun pair hpair => ⟨hkeys pair hpair, hchildren pair hpair⟩⟩
  · rintro ⟨hview, hleft, hright, pairs, hreference, hcandidate, hpairs⟩
    exact .intro hview hleft hright hreference hcandidate (fun pair hpair => (hpairs pair hpair).1)
      fun pair hpair => (hpairs pair hpair).2

theorem mem_pairedChildren {document : TraceDocument} {span : TraceSpan}
    {entry : Option SpanIdentity × TraceSpan} (h : entry ∈ pairedChildren document span) :
    entry.2 ∈ children document span := by
  unfold pairedChildren at h
  split_ifs at h with hparallel
  · obtain ⟨found, hfound, rfl⟩ := List.mem_map.mp h
    exact mem_identityEntries hfound
  · obtain ⟨found, hfound, rfl⟩ := List.mem_map.mp h
    exact mem_sortedChildren.mp hfound

/-- A span below which nothing is ambiguous is like itself. -/
theorem alike_refl {fuel : Nat} {span : TraceSpan} (hwithin : Within first fuel span)
    (hclear : ClearBelow first span) : Alike registry first first span span := by
  induction hwithin with
  | @intro fuel span _ ih =>
    obtain ⟨hself, hchildren⟩ := clearBelow_iff.mp hclear
    refine alike_iff.mpr ⟨rfl, hself, hself, paired_of_map_eq (f := id) (g := id) ?_ rfl⟩
    rintro left hleft right - rfl
    have hchild := mem_pairedChildren hleft
    exact ⟨rfl, ih _ hchild (hchildren _ hchild)⟩

theorem alike_symm {left right : TraceSpan} (h : Alike registry first second left right) :
    Alike registry second first right left := by
  induction h with
  | @intro left right pairs hview hleft hright hreference hcandidate hkeys _ ih =>
    have hpairs : Paired (fun l r => l.1 = r.1 ∧ Alike registry second first r.2 l.2)
        (pairedChildren first left) (pairedChildren second right) :=
      ⟨pairs, hreference, hcandidate, fun pair hpair => ⟨hkeys pair hpair, ih pair hpair⟩⟩
    refine alike_iff.mpr ⟨hview.symm, hright, hleft, paired_imp ?_ (paired_swap hpairs)⟩
    intro l r hpair
    exact ⟨hpair.1.symm, hpair.2⟩

theorem alike_trans {left middle right : TraceSpan}
    (h : Alike registry first second left middle) (h' : Alike registry second third middle right) :
    Alike registry first third left right := by
  induction h generalizing right with
  | @intro left middle pairs hview hleft _ hreference hcandidate hkeys _ ih =>
    obtain ⟨hview', _, hright, hpaired⟩ := alike_iff.mp h'
    have hpairs : Paired (fun l m => l.1 = m.1 ∧ ∀ r, Alike registry second third m.2 r →
        Alike registry first third l.2 r) (pairedChildren first left)
          (pairedChildren second middle) :=
      ⟨pairs, hreference, hcandidate, fun pair hpair =>
        ⟨hkeys pair hpair, fun r hr => ih pair hpair hr⟩⟩
    refine alike_iff.mpr ⟨hview.trans hview', hleft, hright, ?_⟩
    refine paired_imp ?_ (paired_trans hpairs hpaired)
    rintro l r ⟨m, ⟨hkey, himp⟩, hkey', halike⟩
    exact ⟨hkey.trans hkey', himp r.2 halike⟩

end Equivalence

/-! ### What the passes decide -/

theorem compareKeyed_decides {κ : Type} [Ord κ] [Std.TransOrd κ] [Std.LawfulEqOrd κ]
    {place : κ → String} {recurse : TraceSpan → TraceSpan → String → Option Findings}
    {R : TraceSpan → TraceSpan → Prop} {left right : List (κ × TraceSpan)} (hleft : Sorted left)
    (hright : Sorted right)
    (hrecurse : ∀ l ∈ left, ∀ r ∈ right, ∀ path, Decides (recurse l.2 r.2 path) (R l.2 r.2)) :
    Decides (compareKeyed place recurse left right)
      (Paired (fun l r => l.1 = r.1 ∧ R l.2 r.2) left right) := by
  refine (decides_collect fun key _ => ?_).congr (matched_keys_iff hleft hright)
  cases hl : lookup left key with
  | none =>
    cases hr : lookup right key with
    | none => exact decides_some (iff_of_true rfl trivial)
    | some r => exact decides_mismatch id
  | some l =>
    cases hr : lookup right key with
    | none => exact decides_mismatch id
    | some r => exact hrecurse _ (mem_of_lookup hl) _ (mem_of_lookup hr) _

theorem comparePositions_decides
    {recurse : TraceSpan → TraceSpan → String → Option Findings}
    {R : TraceSpan → TraceSpan → Prop} {left right : List TraceSpan} {path : String}
    (hrecurse : ∀ l ∈ left, ∀ r ∈ right, ∀ path, Decides (recurse l r path) (R l r)) :
    Decides (comparePositions recurse path left right) (Paired R left right) := by
  refine (decides_collect fun position _ => ?_).congr matched_positions_iff
  cases hl : left[position]? with
  | none =>
    cases hr : right[position]? with
    | none => exact decides_some (iff_of_true rfl trivial)
    | some r => exact decides_mismatch id
  | some l =>
    cases hr : right[position]? with
    | none => exact decides_mismatch id
    | some r => exact hrecurse _ (List.mem_of_getElem? hl) _ (List.mem_of_getElem? hr) _

theorem keys_identityEntries (document : TraceDocument) (span : TraceSpan) :
    keys (identityEntries document span) = (children document span).map spanIdentity := by
  rw [keys, identityEntries, List.map_map]
  rfl

theorem identityErrors_equivalent {document : TraceDocument} {span : TraceSpan}
    {side path : String} : (identityErrors document span side path).equivalent = true ↔
      ((children document span).map spanIdentity).Nodup := by
  unfold identityErrors
  rw [repeatedKeys_equivalent, keys_identityEntries]
  simp

section Decision

variable {registry : Option RegistrySet} {reference candidate : TraceDocument}

theorem compareOperation_decides {left right : TraceSpan}
    (hleft : left.name = "conformance.operation") (hright : right.name = "conformance.operation")
    {P : Prop} {descend : TraceSpan → TraceSpan → String → Option Findings}
    (hdescend : ∀ path, Decides (descend left right path) P) (path : String) :
    Decides (compareOperation registry descend left right path)
      (spanView registry left = spanView registry right ∧ P) := by
  unfold compareOperation
  refine (hdescend path).prepend ?_
  rw [equivalent_ofMismatches]
  exact operation_nil_iff hleft hright _ _ _

/-- Two children agree when they look the same and what hangs below them does. -/
theorem compareChild_decides {left right : TraceSpan}
    (hbranch : left.name = "conformance.operation" ∨ left.name = "conformance.parallel") {P : Prop}
    {descend : TraceSpan → TraceSpan → String → Option Findings}
    (hdescend : left.name = right.name → ∀ path, Decides (descend left right path) P)
    (path : String) : Decides (compareChild registry descend left right path)
      (spanView registry left = spanView registry right ∧ P) := by
  unfold compareChild
  by_cases hname : left.name = right.name
  · rw [if_neg (not_not.mpr hname)]
    by_cases hoperation : left.name = "conformance.operation"
    · rw [if_pos hoperation]
      exact compareOperation_decides hoperation (hname ▸ hoperation) (hdescend hname) _
    · have hparallel : left.name = "conformance.parallel" := hbranch.resolve_left hoperation
      rw [if_neg hoperation, if_pos hparallel]
      refine (hdescend hname path).prepend ?_
      rw [equivalent_ofMismatches]
      exact events_nil_iff hname hoperation
  · rw [if_pos hname]
    refine decides_mismatch fun h => hname ?_
    rw [← @spanView_name registry left, h.1, spanView_name]

/-- The parallel pass: branches pair by identity, when identities tell them apart. -/
theorem compareParallel_decides {left right : TraceSpan}
    (hleft : left.name = "conformance.parallel") (hright : right.name = "conformance.parallel")
    {recurse : TraceSpan → TraceSpan → String → Option Findings}
    (hrecurse : ∀ l ∈ children reference left, ∀ r ∈ children candidate right, ∀ path,
      Decides (recurse l r path) (Alike registry reference candidate l r)) (path : String) :
    Decides (compareParallel reference candidate recurse left right path)
      (Below registry reference candidate left right) := by
  have hclearLeft : ClearAt reference left ↔
      ((children reference left).map spanIdentity).Nodup := by rw [ClearAt, if_pos hleft]
  have hclearRight : ClearAt candidate right ↔
      ((children candidate right).map spanIdentity).Nodup := by rw [ClearAt, if_pos hright]
  by_cases hnodup : ((children reference left).map spanIdentity).Nodup ∧
      ((children candidate right).map spanIdentity).Nodup
  · obtain ⟨hnodupLeft, hnodupRight⟩ := hnodup
    have herrors : (identityErrors reference left "reference" path ++
        identityErrors candidate right "candidate" path).equivalent = true :=
      equivalent_append.mpr ⟨identityErrors_equivalent.mpr hnodupLeft,
        identityErrors_equivalent.mpr hnodupRight⟩
    rw [compareParallel, if_neg (not_not.mpr (equivalent_iff.mp herrors).1)]
    refine ((compareKeyed_decides (sorted_ofList _) (sorted_ofList _) fun l hl r hr =>
      hrecurse l.2 (mem_identityEntries hl) r.2 (mem_identityEntries hr)).prepend
        (iff_of_true herrors trivial)).congr ?_
    have hpaired : Paired (fun l r => l.1 = r.1 ∧ Alike registry reference candidate l.2 r.2)
          (pairedChildren reference left) (pairedChildren candidate right) ↔
        Paired (fun l r => l.1 = r.1 ∧ Alike registry reference candidate l.2 r.2)
          (ofList (identityEntries reference left)) (ofList (identityEntries candidate right)) := by
      unfold pairedChildren
      rw [if_pos hleft, if_pos hright, paired_map_iff]
      simp only [Option.some.injEq]
    constructor
    · intro h
      exact ⟨hclearLeft.mpr hnodupLeft, hclearRight.mpr hnodupRight, hpaired.mpr h.2⟩
    · intro h
      exact ⟨trivial, hpaired.mp h.paired⟩
  · have herrors : ¬ (identityErrors reference left "reference" path ++
        identityErrors candidate right "candidate" path).equivalent = true := fun h =>
      hnodup ((equivalent_append.mp h).imp identityErrors_equivalent.mp identityErrors_equivalent.mp)
    have hnone : (identityErrors reference left "reference" path ++
        identityErrors candidate right "candidate" path).errors ≠ [] := fun h =>
      herrors (equivalent_iff.mpr ⟨h, List.append_eq_nil_iff.mpr
        ⟨repeatedKeys_mismatches, repeatedKeys_mismatches⟩⟩)
    rw [compareParallel, if_pos hnone]
    refine decides_some (iff_of_false herrors fun h => hnodup ?_)
    exact ⟨hclearLeft.mp h.clearLeft, hclearRight.mp h.clearRight⟩

/-- The sequential pass: children pair by position, when each two are strictly ordered. -/
theorem compareSequence_decides (hvalidLeft : ValidTrace reference.spans)
    (hvalidRight : ValidTrace candidate.spans) {left right : TraceSpan}
    (hleft : left.name ≠ "conformance.parallel") (hright : right.name ≠ "conformance.parallel")
    {recurse : TraceSpan → TraceSpan → String → Option Findings}
    (hrecurse : ∀ l ∈ children reference left, ∀ r ∈ children candidate right, ∀ path,
      Decides (recurse l r path) (Alike registry reference candidate l r)) (path : String) :
    Decides (match sequentialChildren reference left "reference" path with
        | .error findings => some findings
        | .ok leftChildren =>
            match sequentialChildren candidate right "candidate" path with
            | .error findings => some findings
            | .ok rightChildren => comparePositions recurse path leftChildren rightChildren)
      (Below registry reference candidate left right) := by
  have hclearLeft : ClearAt reference left ↔ (children reference left).Pairwise Separated := by
    rw [ClearAt, if_neg hleft]
  have hclearRight : ClearAt candidate right ↔ (children candidate right).Pairwise Separated := by
    rw [ClearAt, if_neg hright]
  rcases sequentialChildren_cases hvalidLeft left "reference" path with
    ⟨hok, hseparated⟩ | ⟨findings, herror, hfindings, hopen⟩
  · rw [hok]
    rcases sequentialChildren_cases hvalidRight right "candidate" path with
      ⟨hok', hseparated'⟩ | ⟨findings, herror, hfindings, hopen⟩
    · rw [hok']
      refine (comparePositions_decides fun l hl r hr =>
        hrecurse l (mem_sortedChildren.mp hl) r (mem_sortedChildren.mp hr)).congr ?_
      have hpaired : Paired (fun l r => l.1 = r.1 ∧ Alike registry reference candidate l.2 r.2)
            (pairedChildren reference left) (pairedChildren candidate right) ↔
          Paired (Alike registry reference candidate) (sortedChildren reference left)
            (sortedChildren candidate right) := by
        unfold pairedChildren
        rw [if_neg hleft, if_neg hright, paired_map_iff]
        simp only [true_and]
      constructor
      · intro h
        exact ⟨hclearLeft.mpr hseparated, hclearRight.mpr hseparated', hpaired.mpr h⟩
      · intro h
        exact hpaired.mp h.paired
    · rw [herror]
      exact decides_some (iff_of_false hfindings fun h => hopen (hclearRight.mp h.clearRight))
  · rw [herror]
    exact decides_some (iff_of_false hfindings fun h => hopen (hclearLeft.mp h.clearLeft))

/-- Descending from two spans of one name decides whether what hangs below them is alike. -/
theorem compareChildren_decides (hreference : AcceptedTrace reference)
    (hcandidate : AcceptedTrace candidate) {fuel : Nat} {left right : TraceSpan}
    (hleft : left ∈ reference.spans) (hname : left.name = right.name)
    (hrun : left.name ≠ "conformance.run") (hfuel : Within reference fuel left) (path : String) :
    Decides (compareChildren reference candidate registry fuel left right path)
      (Below registry reference candidate left right) := by
  have hvalidLeft := validTrace_of_validateSemantics hreference.valid
  have hvalidRight := validTrace_of_validateSemantics hcandidate.valid
  induction fuel generalizing left right path with
  | zero => cases hfuel
  | succ fuel ih =>
    have hrecurse : ∀ l ∈ children reference left, ∀ r ∈ children candidate right, ∀ path,
        Decides (compareChild registry (compareChildren reference candidate registry fuel) l r path)
          (Alike registry reference candidate l r) := by
      intro l hl r _ path
      have hmem := (mem_children.mp hl).1
      have hbranch := branch_of_child hvalidLeft (fun span hspan =>
        (hreference.decoded span hspan).ctsc) hleft hrun hl
      have hchildRun : l.name ≠ "conformance.run" := by
        rcases hbranch with h | h <;> simp [h]
      refine (compareChild_decides hbranch (fun hsame path => ?_) path).congr alike_iff.symm
      exact ih hmem hsame hchildRun (hfuel.child hl) path
    rw [compareChildren]
    by_cases hparallel : left.name = "conformance.parallel"
    · rw [if_pos (.inl hparallel)]
      exact compareParallel_decides hparallel (hname ▸ hparallel) hrecurse path
    · have hparallelRight : right.name ≠ "conformance.parallel" := hname ▸ hparallel
      rw [if_neg (not_or.mpr ⟨hparallel, hparallelRight⟩)]
      exact compareSequence_decides hvalidLeft hvalidRight hparallel hparallelRight hrecurse path

/-! ### Documents -/

theorem mem_scenarioEntries {document : TraceDocument} {run : TraceSpan}
    {entry : String × TraceSpan} (h : entry ∈ ofList (scenarioEntries document run)) :
    entry.2 ∈ children document run ∧ entry.2.name = "conformance.scenario" := by
  obtain ⟨scenario, hscenario, rfl⟩ := List.mem_map.mp (mem_of_mem_ofList h)
  simpa using hscenario

theorem mem_runs {document : TraceDocument} {run : TraceSpan} :
    run ∈ runs document ↔ run ∈ document.spans ∧ run.name = "conformance.run" := by
  simp [runs]

theorem runErrors_equivalent {side : String} {document : TraceDocument} :
    (runErrors side document).equivalent = true ↔ (runs document).length = 1 := by
  unfold runErrors
  by_cases h : (runs document).length = 1
  · simp [h]
  · simp [h, not_equivalent_error]

theorem runErrors_mismatches {side : String} {document : TraceDocument} :
    (runErrors side document).mismatches = [] := by
  unfold runErrors
  split_ifs <;> rfl

theorem scenarioErrors_equivalent {side : String} {document : TraceDocument} {run : TraceSpan} :
    (scenarioErrors side document run).equivalent = true ↔
      (keys (scenarioEntries document run)).Nodup := by
  unfold scenarioErrors
  rw [repeatedKeys_equivalent]
  simp

theorem compareContainer_decides (hreference : AcceptedTrace reference)
    (hcandidate : AcceptedTrace candidate) {left right : TraceSpan}
    (hleft : left ∈ reference.spans) (hleftName : left.name = "conformance.scenario")
    (hrightName : right.name = "conformance.scenario") (path : String) :
    Decides
      (compareContainer reference candidate registry (reference.spans.length + 1) left right path)
      (Alike registry reference candidate left right) := by
  have hvalid := validTrace_of_validateSemantics hreference.valid
  have hrun : left.name ≠ "conformance.run" := by simp [hleftName]
  have hsame : left.name = right.name := hleftName.trans hrightName.symm
  have hwithin := (within_length hvalid hleft hrun).succ
  unfold compareContainer
  refine ((compareChildren_decides hreference hcandidate hleft hsame hrun hwithin path).prepend
    (equivalent_ofMismatches.trans (events_nil_iff hsame ?_))).congr alike_iff.symm
  simp [hleftName]

theorem compareScenarios_decides (hreference : AcceptedTrace reference)
    (hcandidate : AcceptedTrace candidate) (left right : TraceSpan) (place : String → String) :
    Decides (compareKeyed place
        (compareContainer reference candidate registry (reference.spans.length + 1))
        (ofList (scenarioEntries reference left)) (ofList (scenarioEntries candidate right)))
      (Paired (fun l r => l.1 = r.1 ∧ Alike registry reference candidate l.2 r.2)
        (ofList (scenarioEntries reference left)) (ofList (scenarioEntries candidate right))) := by
  refine compareKeyed_decides (sorted_ofList _) (sorted_ofList _) fun l hl r hr path => ?_
  obtain ⟨hchild, hleftName⟩ := mem_scenarioEntries hl
  obtain ⟨-, hrightName⟩ := mem_scenarioEntries hr
  exact compareContainer_decides hreference hcandidate (mem_children.mp hchild).1 hleftName
    hrightName path

/-- With one run on each side. -/
theorem compareRuns_decides (hreference : AcceptedTrace reference)
    (hcandidate : AcceptedTrace candidate) {left right : TraceSpan}
    (hleft : runs reference = [left]) (hright : runs candidate = [right]) :
    Decides (compareDocuments reference candidate registry)
      (AlikeDocuments registry reference candidate) := by
  obtain ⟨-, hleftName⟩ := mem_runs.mp (hleft ▸ List.mem_singleton_self left)
  obtain ⟨-, hrightName⟩ := mem_runs.mp (hright ▸ List.mem_singleton_self right)
  have hsame : left.name = right.name := hleftName.trans hrightName.symm
  have hother : left.name ≠ "conformance.operation" := by simp [hleftName]
  have herrors : (runErrors "reference" reference ++
      runErrors "candidate" candidate).equivalent = true :=
    equivalent_append.mpr ⟨runErrors_equivalent.mpr (by rw [hleft]; rfl),
      runErrors_equivalent.mpr (by rw [hright]; rfl)⟩
  have hevents : (Findings.ofMismatches
      (compareEvents left.events right.events none registry "run")).equivalent = true ↔ _ :=
    equivalent_ofMismatches.trans (events_nil_iff hsame hother)
  unfold compareDocuments
  rw [hleft, hright]
  simp only [ne_eq, (equivalent_iff.mp herrors).1, not_true_eq_false, if_false]
  refine ((compareScenarios_decides hreference hcandidate left right _).prepend
    (equivalent_append.trans (and_congr (equivalent_append.trans (and_congr hevents
      scenarioErrors_equivalent)) scenarioErrors_equivalent))).congr ?_
  unfold AlikeDocuments
  constructor
  · rintro ⟨⟨⟨hview, hnodup⟩, hnodup'⟩, hpaired⟩
    exact ⟨left, right, hleft, hright, hview, hnodup, hnodup', hpaired⟩
  · rintro ⟨left', right', hleft', hright', hview, hnodup, hnodup', hpaired⟩
    obtain rfl : left = left' := List.singleton_injective (hleft.symm.trans hleft')
    obtain rfl : right = right' := List.singleton_injective (hright.symm.trans hright')
    exact ⟨⟨⟨hview, hnodup⟩, hnodup'⟩, hpaired⟩

/-- A comparison of two accepted traces ends, and finds nothing exactly when they are alike. -/
theorem compareDocuments_decides (hreference : AcceptedTrace reference)
    (hcandidate : AcceptedTrace candidate) :
    Decides (compareDocuments reference candidate registry)
      (AlikeDocuments registry reference candidate) := by
  by_cases hruns : (runs reference).length = 1 ∧ (runs candidate).length = 1
  · obtain ⟨left, hleft⟩ := List.length_eq_one_iff.mp hruns.1
    obtain ⟨right, hright⟩ := List.length_eq_one_iff.mp hruns.2
    exact compareRuns_decides hreference hcandidate hleft hright
  · have herrors : ¬ (runErrors "reference" reference ++
        runErrors "candidate" candidate).equivalent = true := fun h =>
      hruns ((equivalent_append.mp h).imp runErrors_equivalent.mp runErrors_equivalent.mp)
    have hsome : (runErrors "reference" reference ++
        runErrors "candidate" candidate).errors ≠ [] := fun h =>
      herrors (equivalent_iff.mpr ⟨h, List.append_eq_nil_iff.mpr
        ⟨runErrors_mismatches, runErrors_mismatches⟩⟩)
    have halike : ¬ AlikeDocuments registry reference candidate := by
      rintro ⟨left, right, hleft, hright, -⟩
      exact hruns ⟨by rw [hleft]; rfl, by rw [hright]; rfl⟩
    unfold compareDocuments
    cases hleft : runs reference with
    | nil => exact decides_some (iff_of_false herrors halike)
    | cons left rest =>
      cases hright : runs candidate with
      | nil => exact decides_some (iff_of_false herrors halike)
      | cons right rest =>
        simp only [if_pos hsome]
        exact decides_some (iff_of_false herrors halike)

end Decision

end SpecGate.AlikeTraces

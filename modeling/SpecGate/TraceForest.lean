import SpecGate.Comparison

/-!
The forest of an accepted trace: children know their only parent, no span is among its
own descendants, every span other than the run descends from a scenario of its run,
and descent from any span ends within as many steps as there are spans.
-/
namespace SpecGate.TraceForest

open Values TraceModel TraceAncestry TraceValidation CachedWalk Comparison

theorem mem_children {document : TraceDocument} {parent child : TraceSpan} :
    child ∈ children document parent ↔
      child ∈ document.spans ∧ child.traceId = parent.traceId ∧
        child.parentSpanId = parent.spanId := by
  simp [children]

/-- `Descends document a s`: `s` is `a` or lies below it. -/
def Descends (document : TraceDocument) : TraceSpan → TraceSpan → Prop :=
  Relation.ReflTransGen fun parent child => child ∈ children document parent

section Forest

variable {document : TraceDocument}

theorem parentOf_child (hvalid : ValidTrace document.spans) {parent child : TraceSpan}
    (hparent : parent ∈ document.spans) (hchild : child ∈ children document parent) :
    parentOf document.spans child = some parent := by
  obtain ⟨-, htrace, hid⟩ := mem_children.mp hchild
  unfold parentOf
  rw [htrace, hid, hvalid.unique.candidates_eq hparent]

/-- From a child the ancestry walk goes to its parent. -/
theorem next_of_child (hvalid : ValidTrace document.spans) {parent child : TraceSpan}
    (hparent : parent ∈ document.spans) (hchild : child ∈ children document parent) :
    Next (ancestry document.spans) child parent := by
  obtain ⟨hmem, htrace, hid⟩ := mem_children.mp hchild
  have hnonempty : child.parentSpanId ≠ "" := hid ▸ hvalid.identifier parent hparent
  have hname : child.name ≠ runName := fun hname => hnonempty (hvalid.run child hmem hname)
  refine next_iff.mpr ⟨hname, fun hself => ?_, hnonempty, ?_⟩
  · obtain ⟨run, hrooted⟩ := hvalid.rooted child hmem hname
    have hstep : (ancestry document.spans).step child = .inl .selfParent := by
      show ancestorStep document.spans child = _
      rw [ancestorStep, if_neg hname, if_pos hself]
    exact absurd (Stops.unique hrooted (.here hstep)) (by simp)
  · rw [htrace, hid]
    exact hvalid.unique.candidates_eq hparent

theorem name_of_child (hvalid : ValidTrace document.spans) {parent child : TraceSpan}
    (hparent : parent ∈ document.spans) (hchild : child ∈ children document parent) :
    child.name ≠ runName :=
  (next_iff.mp (next_of_child hvalid hparent hchild)).1

/-- The spans above a span, as far as a descent has come. -/
def Above (document : TraceDocument) (path : List TraceSpan) (span : TraceSpan) : Prop :=
  path.Nodup ∧ ∀ ancestor ∈ path, ancestor ∈ document.spans ∧
    Relation.TransGen (Next (ancestry document.spans)) span ancestor

theorem Above.child (hvalid : ValidTrace document.spans) {path : List TraceSpan}
    {parent child : TraceSpan} (h : Above document path parent) (hparent : parent ∈ document.spans)
    (hname : parent.name ≠ runName) (hchild : child ∈ children document parent) :
    Above document (parent :: path) child := by
  have hnext := next_of_child hvalid hparent hchild
  refine ⟨List.nodup_cons.mpr ⟨fun hmem => ?_, h.1⟩, fun ancestor hancestor => ?_⟩
  · obtain ⟨run, hrooted⟩ := hvalid.rooted parent hparent hname
    exact Stops.not_cycle hrooted (h.2 parent hmem).2
  · rcases List.mem_cons.mp hancestor with rfl | hancestor
    · exact ⟨hparent, .single hnext⟩
    · exact ⟨(h.2 ancestor hancestor).1, .head hnext (h.2 ancestor hancestor).2⟩

/-- Descent from a span ends within so many steps. -/
inductive Within (document : TraceDocument) : Nat → TraceSpan → Prop
  | intro {fuel : Nat} {span : TraceSpan}
      (h : ∀ child ∈ children document span, Within document fuel child) :
      Within document (fuel + 1) span

theorem Within.child {fuel : Nat} {span : TraceSpan} (h : Within document (fuel + 1) span)
    {child : TraceSpan} (hchild : child ∈ children document span) : Within document fuel child := by
  cases h with
  | intro h => exact h child hchild

theorem Within.succ {fuel : Nat} {span : TraceSpan} (h : Within document fuel span) :
    Within document (fuel + 1) span := by
  induction h with
  | intro _ ih => exact .intro ih

/-- A span is not among the spans above it, so these are fewer than all spans. -/
theorem Above.length_lt (hvalid : ValidTrace document.spans) {path : List TraceSpan}
    {span : TraceSpan} (h : Above document path span) (hspan : span ∈ document.spans)
    (hname : span.name ≠ runName) : path.length < document.spans.length := by
  obtain ⟨run, hrooted⟩ := hvalid.rooted span hspan hname
  have hfresh : span ∉ path := fun hmem => Stops.not_cycle hrooted (h.2 span hmem).2
  have hsubset : ∀ ancestor ∈ span :: path, ancestor ∈ document.spans := by
    intro ancestor hancestor
    rcases List.mem_cons.mp hancestor with rfl | hancestor
    · exact hspan
    · exact (h.2 ancestor hancestor).1
  exact ((List.nodup_cons.mpr ⟨hfresh, h.1⟩).subperm hsubset).length_le

theorem within_of_above (hvalid : ValidTrace document.spans) {fuel : Nat} {path : List TraceSpan}
    {span : TraceSpan} (hspan : span ∈ document.spans) (hname : span.name ≠ runName)
    (hpath : Above document path span) (hfuel : document.spans.length ≤ fuel + path.length) :
    Within document fuel span := by
  have hlength := hpath.length_lt hvalid hspan hname
  induction fuel generalizing path span with
  | zero => omega
  | succ fuel ih =>
    refine .intro fun child hchild => ?_
    have hmem := (mem_children.mp hchild).1
    have hchildName := name_of_child hvalid hspan hchild
    have habove := hpath.child hvalid hspan hname hchild
    exact ih hmem hchildName habove (by rw [List.length_cons]; omega)
      (habove.length_lt hvalid hmem hchildName)

/-- The number of spans bounds every descent. -/
theorem within_length (hvalid : ValidTrace document.spans) {span : TraceSpan}
    (hspan : span ∈ document.spans) (hname : span.name ≠ runName) :
    Within document document.spans.length span :=
  within_of_above hvalid hspan hname ⟨List.nodup_nil, by simp⟩ (by simp)

theorem name_cases {span : TraceSpan} (h : span.name ∈ ctscSpans) :
    span.name = "conformance.run" ∨ span.name = "conformance.scenario" ∨
      span.name = "conformance.operation" ∨ span.name = "conformance.parallel" := by
  simpa [ctscSpans] using h

/-- The children of a run are scenarios. -/
theorem scenario_of_run_child (hvalid : ValidTrace document.spans)
    (hctsc : ∀ span ∈ document.spans, span.name ∈ ctscSpans) {run child : TraceSpan}
    (hrun : run ∈ document.spans) (hname : run.name = "conformance.run")
    (hchild : child ∈ children document run) : child.name = "conformance.scenario" := by
  have hmem := (mem_children.mp hchild).1
  have hparent := parentOf_child hvalid hrun hchild
  rcases name_cases (hctsc child hmem) with hchildName | hchildName | hchildName | hchildName
  · exact absurd hchildName (name_of_child hvalid hrun hchild)
  · exact hchildName
  · obtain ⟨⟨parent, hother, hrole⟩, -⟩ := hvalid.operation child hmem hchildName
    rw [hparent] at hother
    obtain rfl := Option.some.inj hother
    simp [hname] at hrole
  · obtain ⟨parent, hother, hrole⟩ := hvalid.parallel child hmem hchildName
    rw [hparent] at hother
    obtain rfl := Option.some.inj hother
    simp [hname] at hrole

/-- Below a scenario there are only operations and parallel spans. -/
theorem branch_of_child (hvalid : ValidTrace document.spans)
    (hctsc : ∀ span ∈ document.spans, span.name ∈ ctscSpans) {parent child : TraceSpan}
    (hparent : parent ∈ document.spans) (hname : parent.name ≠ "conformance.run")
    (hchild : child ∈ children document parent) :
    child.name = "conformance.operation" ∨ child.name = "conformance.parallel" := by
  have hmem := (mem_children.mp hchild).1
  have hfound := parentOf_child hvalid hparent hchild
  rcases name_cases (hctsc child hmem) with hchildName | hchildName | hchildName | hchildName
  · exact absurd hchildName (name_of_child hvalid hparent hchild)
  · obtain ⟨⟨other, hother, hrole⟩, -⟩ := hvalid.scenario child hmem hchildName
    rw [hfound] at hother
    obtain rfl := Option.some.inj hother
    exact absurd hrole hname
  · exact .inl hchildName
  · exact .inr hchildName

/-- Every span other than a run descends from a scenario of a run. -/
theorem descends_of_rooted (hvalid : ValidTrace document.spans) {span run : TraceSpan}
    (hspan : span ∈ document.spans) (hname : span.name ≠ "conformance.run")
    (hrooted : Rooted document.spans span run) :
    ∃ scenario, scenario ∈ children document run ∧ Descends document scenario span := by
  unfold Rooted at hrooted
  generalize hresult : Resolution.root run = result at hrooted
  induction hrooted with
  | @here node result hstep =>
    subst hresult
    have hstop : ancestorStep document.spans node = .inl (.root run) := hstep
    unfold ancestorStep at hstop
    rw [if_neg (show node.name ≠ runName from hname)] at hstop
    split_ifs at hstop with hself hroot
    · cases hstop
    · cases hstop
    · split at hstop <;> cases hstop
  | @next node parent result hnext hrest ih =>
    obtain ⟨hparent, htrace, hid⟩ := Next.mem hnext
    have hchild : node ∈ children document parent :=
      mem_children.mpr ⟨hspan, htrace.symm, hid.symm⟩
    by_cases hrun : parent.name = "conformance.run"
    · subst hresult
      have hstep : (ancestry document.spans).step parent = .inl (.root parent) := by
        show ancestorStep document.spans parent = _
        rw [ancestorStep, if_pos (show parent.name = runName from hrun),
          if_pos (hvalid.run parent hparent hrun)]
      have hsame : Resolution.root run = .root parent := Stops.unique hrest (.here hstep)
      obtain rfl := Resolution.root.inj hsame
      exact ⟨node, hchild, .refl⟩
    · obtain ⟨scenario, hscenario, hdescends⟩ := ih hparent hrun hresult
      exact ⟨scenario, hscenario, hdescends.tail hchild⟩

theorem Descends.mem_ne_run (hvalid : ValidTrace document.spans) {ancestor span : TraceSpan}
    (h : Descends document ancestor span) (hancestor : ancestor ∈ document.spans)
    (hname : ancestor.name ≠ "conformance.run") :
    span ∈ document.spans ∧ span.name ≠ "conformance.run" := by
  induction h with
  | refl => exact ⟨hancestor, hname⟩
  | tail _ hchild ih => exact ⟨(mem_children.mp hchild).1, name_of_child hvalid ih.1 hchild⟩

end Forest

end SpecGate.TraceForest

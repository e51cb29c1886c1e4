import SpecGate.ActiveOperation

/-!
The span IDs of one session. Those of the configuration are used first, in their order,
and after them every generated one avoids all that are in use. So no two spans share an
ID, and the ID of a parent names the operation that was current at the start.
-/
namespace SpecGate.SpanIdentities

open CaptureSession CaptureEffects CaptureRuns

variable {Value : Type}

/-! ### The configuration -/

theorem duplicatedId_none {seen ids : List SpanId} {index : Nat}
    (h : duplicatedId seen index ids = none) : ids.Nodup ∧ ∀ spanId ∈ ids, spanId ∉ seen := by
  induction ids generalizing seen index with
  | nil => simp
  | cons first rest ih =>
    unfold duplicatedId at h
    by_cases hseen : first ∈ seen
    · simp [hseen] at h
    · rw [if_neg hseen] at h
      have ⟨hnodup, hfresh⟩ := ih h
      constructor
      · apply List.nodup_cons.mpr
        exact ⟨fun hfirst => hfresh first hfirst List.mem_cons_self, hnodup⟩
      · intro spanId hspanId
        rcases List.mem_cons.mp hspanId with rfl | hrest
        · exact hseen
        · exact fun hmem => hfresh spanId hrest (List.mem_cons_of_mem _ hmem)

theorem validateConfig_nodup {config : Config} (h : validateConfig config = .ok ()) :
    (config.scenarioSpanId :: config.runSpanId :: config.operationIds).Nodup := by
  unfold validateConfig at h
  split_ifs at h with hstart hstep hsame
  cases hduplicated : duplicatedId [config.scenarioSpanId, config.runSpanId] 0
    config.operationIds with
  | some index => simp [hduplicated] at h
  | none =>
    have ⟨hnodup, hfresh⟩ := duplicatedId_none hduplicated
    apply List.nodup_cons.mpr
    constructor
    · intro hmem
      rcases List.mem_cons.mp hmem with heq | hmem
      · exact hsame heq
      · exact hfresh _ hmem (by simp)
    · apply List.nodup_cons.mpr
      exact ⟨fun hmem => hfresh _ hmem (by simp), hnodup⟩

theorem freshSpan_ok {taken : List String} {fuel candidate : Nat} {spanId : SpanId}
    (h : freshSpan taken fuel candidate = .ok spanId) : spanId.text ∉ taken := by
  induction fuel generalizing candidate with
  | zero => simp [freshSpan] at h
  | succ fuel ih =>
    unfold freshSpan at h
    split_ifs at h with htaken
    · exact ih h
    · unfold SpanId.parse at h
      split_ifs at h
      obtain rfl := Except.ok.inj h
      exact htaken

/-! ### The operations -/

/-- What identifies an operation and its parent. -/
structure Identity where
  spanId : SpanId
  parentSpanId : SpanId
  parentOperation : Option Nat

def identity (operation : PendingOperation Value) : Identity :=
  ⟨operation.spanId, operation.parentSpanId, operation.parentOperation⟩

/-- The span below which an operation starts. -/
def parentSpan (config : Config) (operations : List Identity) (parent : Option Nat) : SpanId :=
  ((parent.bind (operations[·]?)).map Identity.spanId).getD config.scenarioSpanId

structure Identified (config : Config) (operations : List Identity) : Prop where
  supplied : ∀ {index : Nat} {operation : Identity}, operations[index]? = some operation →
    ∀ spanId ∈ config.operationIds[index]?, operation.spanId = spanId
  distinct : (config.scenarioSpanId :: config.runSpanId :: operations.map Identity.spanId).Nodup
  placed : ∀ operation ∈ operations, ∀ parent ∈ operation.parentOperation,
    parent < operations.length
  named : ∀ operation ∈ operations,
    operation.parentSpanId = parentSpan config operations operation.parentOperation

theorem identified_nil {config : Config} (h : validateConfig config = .ok ()) :
    Identified config [] where
  supplied := by simp
  distinct := by
    have hnodup := validateConfig_nodup h
    exact hnodup.sublist (List.Sublist.cons_cons _ (List.Sublist.cons_cons _ (List.nil_sublist _)))
  placed := by simp
  named := by simp

theorem parentSpan_append {config : Config} {operations : List Identity} (new : Identity)
    {parent : Option Nat} (hparent : ∀ index ∈ parent, index < operations.length) :
    parentSpan config (operations ++ [new]) parent = parentSpan config operations parent := by
  cases parent with
  | none => rfl
  | some index =>
    have hlt := hparent index rfl
    rw [parentSpan, parentSpan, Option.bind_some, Option.bind_some, List.getElem?_append_left hlt]

theorem Identified.append {config : Config} {operations : List Identity}
    (h : Identified config operations) {new : Identity}
    (hsupplied : ∀ spanId ∈ config.operationIds[operations.length]?, new.spanId = spanId)
    (hfresh : new.spanId ∉
      config.scenarioSpanId :: config.runSpanId :: operations.map Identity.spanId)
    (hplaced : ∀ parent ∈ new.parentOperation, parent < operations.length)
    (hnamed : new.parentSpanId = parentSpan config operations new.parentOperation) :
    Identified config (operations ++ [new]) where
  supplied := by
    intro index operation hoperation
    rcases Nat.lt_trichotomy index operations.length with hlt | rfl | hgt
    · rw [List.getElem?_append_left hlt] at hoperation
      exact h.supplied hoperation
    · rw [List.getElem?_concat_length, Option.some.injEq] at hoperation
      exact hoperation ▸ hsupplied
    · rw [List.getElem?_eq_none (by simp; omega)] at hoperation
      cases hoperation
  distinct := by
    have hperm : (config.scenarioSpanId :: config.runSpanId ::
        (operations ++ [new]).map Identity.spanId).Perm (new.spanId ::
          config.scenarioSpanId :: config.runSpanId :: operations.map Identity.spanId) := by
      rw [List.map_append, List.map_singleton, ← List.cons_append, ← List.cons_append]
      exact List.perm_append_singleton _ _
    apply hperm.nodup_iff.mpr
    exact List.nodup_cons.mpr ⟨hfresh, h.distinct⟩
  placed := by
    intro operation hoperation parent hparent
    rw [List.length_append, List.length_singleton]
    rcases List.mem_append.mp hoperation with hold | hnew
    · exact Nat.lt_succ_of_lt (h.placed operation hold parent hparent)
    · obtain rfl := List.mem_singleton.mp hnew
      exact Nat.lt_succ_of_lt (hplaced parent hparent)
  named := by
    intro operation hoperation
    rcases List.mem_append.mp hoperation with hold | hnew
    · rw [parentSpan_append new (h.placed operation hold)]
      exact h.named operation hold
    · obtain rfl := List.mem_singleton.mp hnew
      rw [parentSpan_append _ hplaced]
      exact hnamed

/-- Operations that start below one span have one parent. -/
theorem Identified.parent_injective {config : Config} {operations : List Identity}
    (h : Identified config operations) {a b : Identity} (ha : a ∈ operations) (hb : b ∈ operations)
    (hsame : a.parentSpanId = b.parentSpanId) : a.parentOperation = b.parentOperation := by
  have hnodup := List.nodup_cons.mp h.distinct
  have hids := (List.nodup_cons.mp hnodup.2).2
  -- The ID of an operation is not that of the scenario.
  have hother : ∀ index (hlt : index < operations.length),
      parentSpan config operations (some index) ≠ config.scenarioSpanId := by
    intro index hlt heq
    rw [parentSpan, Option.bind_some, List.getElem?_eq_getElem hlt, Option.map_some,
      Option.getD_some] at heq
    apply hnodup.1
    rw [← heq]
    exact List.mem_cons_of_mem _ (List.mem_map_of_mem (List.getElem_mem hlt))
  rw [h.named a ha, h.named b hb] at hsame
  cases hparentA : a.parentOperation with
  | none =>
    cases hparentB : b.parentOperation with
    | none => rfl
    | some j =>
      rw [hparentA, hparentB] at hsame
      exact absurd hsame.symm (hother j (h.placed b hb j hparentB))
  | some i =>
    have hi := h.placed a ha i hparentA
    cases hparentB : b.parentOperation with
    | none =>
      rw [hparentA, hparentB] at hsame
      exact absurd hsame (hother i hi)
    | some j =>
      have hj := h.placed b hb j hparentB
      rw [hparentA, hparentB, parentSpan, parentSpan, Option.bind_some, Option.bind_some,
        List.getElem?_eq_getElem hi, List.getElem?_eq_getElem hj] at hsame
      have hmap : (operations.map Identity.spanId)[i]? = (operations.map Identity.spanId)[j]? := by
        rw [List.getElem?_map, List.getElem?_map, List.getElem?_eq_getElem hi,
          List.getElem?_eq_getElem hj]
        simpa using hsame
      rw [(List.getElem?_inj (by simpa using hi) hids).mp hmap]

/-! ### The session -/

/-- The operations of a session are identified, and as many IDs have been drawn. -/
structure Labelled (state : State Value) : Prop where
  counted : state.nextOp = state.operations.length
  identified : Identified state.config (state.operations.map identity)

theorem labelled_start {config : Config} {sidecarPath : Option String}
    {registry : Except CaptureError Unit} {state : State Value}
    (h : start config sidecarPath registry = .ok state) : Labelled state := by
  obtain ⟨hvalid, hconfig, hnextOp, -, hoperations, -⟩ := start_ok h
  constructor
  · rw [hnextOp, hoperations, List.length_nil]
  · rw [hconfig, hoperations]
    exact identified_nil hvalid

theorem Labelled.of_identity {before after : State Value} (h : Labelled before)
    (hconfig : after.config = before.config) (hnextOp : after.nextOp = before.nextOp)
    (hoperations : after.operations.map identity = before.operations.map identity) :
    Labelled after := by
  constructor
  · have hlength := congrArg List.length hoperations
    rw [List.length_map, List.length_map] at hlength
    rw [hnextOp, hlength]
    exact h.counted
  · rw [hconfig, hoperations]
    exact h.identified

/-- A generated ID avoids those in use; a configured one has not been used yet. -/
theorem nextSpan_fresh {state : State Value} (hvalid : validateConfig state.config = .ok ())
    (h : Labelled state) {spanId : SpanId} (hspan : nextSpan state = .ok spanId) :
    (∀ supplied ∈ state.config.operationIds[state.operations.length]?, spanId = supplied) ∧
      spanId ∉ state.config.scenarioSpanId :: state.config.runSpanId ::
        (state.operations.map identity).map Identity.spanId := by
  unfold nextSpan at hspan
  rw [h.counted] at hspan
  cases hsupplied : state.config.operationIds[state.operations.length]? with
  | none =>
    simp only [hsupplied] at hspan
    refine ⟨by simp, fun hmem => freshSpan_ok hspan ?_⟩
    have htext := List.mem_map_of_mem (f := HexId.text) hmem
    simp only [List.map_cons, List.map_map, List.mem_cons] at htext
    rcases htext with hscenario | hrun | hoperation
    · simp [reserved, hscenario]
    · simp [reserved, hrun]
    · exact List.mem_cons_of_mem _ (List.mem_cons_of_mem _ hoperation)
  | some supplied =>
    simp only [hsupplied, Except.ok.injEq] at hspan
    subst hspan
    refine ⟨fun other hother => Option.some.inj hother, fun hmem => ?_⟩
    have hnodup := List.nodup_cons.mp (validateConfig_nodup hvalid)
    have hnodup' := List.nodup_cons.mp hnodup.2
    have hin := List.mem_of_getElem? hsupplied
    rcases List.mem_cons.mp hmem with rfl | hmem
    · exact hnodup.1 (List.mem_cons_of_mem _ hin)
    rcases List.mem_cons.mp hmem with rfl | hmem
    · exact hnodup'.1 hin
    obtain ⟨operation, hoperation, hid⟩ := List.mem_map.mp hmem
    obtain ⟨index, hindex⟩ := List.mem_iff_getElem?.mp hoperation
    have hlt : index < state.operations.length := by
      simpa using (List.getElem?_eq_some_iff.mp hindex).1
    have hbound := (List.getElem?_eq_some_iff.mp hsupplied).1
    have hearlier : index < state.config.operationIds.length := by omega
    have hgiven := h.identified.supplied hindex _ (List.getElem?_eq_getElem hearlier)
    rw [hid, ← (List.getElem?_eq_some_iff.mp hsupplied).2] at hgiven
    have hplace := (hnodup'.2.getElem_inj_iff).mp hgiven
    omega

theorem map_identity_of_core {operations operations' : List (PendingOperation Value)}
    (h : operations'.map core = operations.map core) :
    operations'.map identity = operations.map identity := by
  have hidentity : (identity : PendingOperation Value → Identity) = identity ∘ core := rfl
  rw [hidentity, ← List.map_map, h, List.map_map]

theorem Labelled.begun {before after : State Value} {operation : PendingOperation Value}
    (hvalid : validateConfig before.config = .ok ()) (h : Labelled before)
    (hbegun : Begun before after operation)
    (hcurrent : ∀ index ∈ before.currentOperation, index < before.operations.length) :
    Labelled after := by
  constructor
  · rw [hbegun.nextOp, hbegun.operations, List.length_append, List.length_singleton, h.counted]
  · rw [hbegun.forward.config, hbegun.operations, List.map_append, List.map_singleton]
    have ⟨hsupplied, hfresh⟩ := nextSpan_fresh hvalid h hbegun.spanId
    refine h.identified.append (by rwa [List.length_map]) hfresh ?_ ?_
    · simpa [identity, hbegun.parent] using hcurrent
    · simp only [identity, hbegun.parent, hbegun.parentSpanId, parentSpan]
      cases before.currentOperation with
      | none => rfl
      | some index => simp [identity, Function.comp_def]

theorem Labelled.move {before after : Session Value} {closes : Option Nat}
    (hvalid : validateConfig before.state.config = .ok ()) (h : Labelled before.state)
    (hmove : Move before after closes)
    (hcurrent : ∀ index ∈ before.state.currentOperation,
      index < before.state.operations.length) : Labelled after.state := by
  cases hmove with
  | quiet hquiet hscopes =>
    exact h.of_identity hquiet.forward.config hquiet.nextOp (map_identity_of_core hquiet.operations)
  | begun hbegun hscopes => exact h.begun hvalid hbegun hcurrent
  | observed hobserved hscopes =>
    refine h.of_identity hobserved.forward.config hobserved.nextOp ?_
    rw [hobserved.operations]
    exact NestedSpans.map_modify_eq fun _ => rfl
  | closed hscope hclosed hscopes =>
    refine h.of_identity hclosed.forward.config hclosed.nextOp ?_
    rw [hclosed.operations]
    exact NestedSpans.map_modify_eq fun _ => rfl
  | lost hscope hlost hscopes =>
    exact h.of_identity hlost.forward.config hlost.nextOp (by rw [hlost.operations])
  | gone hscope hclosed hstate hscopes => exact hstate ▸ h

end SpecGate.SpanIdentities

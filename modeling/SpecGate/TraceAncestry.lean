import SpecGate.CachedWalk
import SpecGate.TraceModel

/-!
Ancestry of spans: every span other than a run resolves through parents to one root
run of its trace. Resolved suffixes are remembered, so that shared ancestry is walked
once; the answers are those of the parent chains.
-/
namespace SpecGate.TraceAncestry

open Validation TraceModel SortedAssoc CachedWalk

def runName : String := "conformance.run"

/-- The spans of a trace with a given span identity, in document order. -/
def candidates (spans : List TraceSpan) (traceId spanId : String) : List TraceSpan :=
  spans.filter fun span => span.traceId == traceId && span.spanId == spanId

inductive Resolution where
  | root (run : TraceSpan)
  | selfParent
  | cycle
  | missingRun
  | multipleParents
  deriving DecidableEq

def spanKey (span : TraceSpan) : String × String := (span.traceId, span.spanId)

/-- One turn of the ancestry loop, after the key has been found new. -/
def ancestorStep (spans : List TraceSpan) (current : TraceSpan) : Resolution ⊕ TraceSpan :=
  if current.name = runName then
    .inl (if current.parentSpanId = "" then .root current else .missingRun)
  else if current.parentSpanId = current.spanId then .inl .selfParent
  else if current.parentSpanId = "" then .inl .missingRun
  else match candidates spans current.traceId current.parentSpanId with
    | [] => .inl .missingRun
    | [parent] => .inr parent
    | _ :: _ :: _ => .inl .multipleParents

def ancestry (spans : List TraceSpan) : System TraceSpan (String × String) Resolution where
  key := spanKey
  step := ancestorStep spans
  repeated := .cycle

abbrev AncestryCache := List ((String × String) × Resolution)

/-- The resolution of a span and the cache with its whole path entered. -/
def runAncestor (spans : List TraceSpan) (cache : AncestryCache) (span : TraceSpan) :
    Option (Resolution × AncestryCache) :=
  (walk (ancestry spans) cache [] (spans.length + 1) span).map fun (resolution, path) =>
    (resolution, remember path resolution cache)

def resolutionIssues (span : TraceSpan) : Resolution → List ValidationIssue
  | .root _ => []
  | .selfParent => issue span.location "CTSC ancestor chain contains a self-parent cycle"
  | .cycle => issue span.location "CTSC ancestor chain contains a cycle"
  | .missingRun =>
      issue span.location "CTSC ancestor chain must terminate at a conformance.run span"
  | .multipleParents =>
      issue span.location ("CTSC ancestor chain has invalid multiple ancestry because a parent " ++
        "span ID resolves to multiple CTSC spans")

/-- The resolutions of the spans in turn, each with the cache the earlier ones left. -/
def resolveAll (spans : List TraceSpan) (cache : AncestryCache) :
    List TraceSpan → Option (List (TraceSpan × Resolution))
  | [] => some []
  | span :: rest =>
      (runAncestor spans cache span).bind fun (resolution, cache) =>
        (resolveAll spans cache rest).map fun resolved => (span, resolution) :: resolved

/-- The distinct run identities that the spans of a trace resolve to. -/
def traceRoots (resolved : List (TraceSpan × Resolution)) (traceId : String) : List String :=
  distinct (resolved.filterMap fun (span, resolution) =>
    match resolution with
    | .root run => if span.traceId = traceId then some run.spanId else none
    | _ => none)

def sharedRootIssues (resolved : List (TraceSpan × Resolution)) : List ValidationIssue :=
  resolved.flatMap fun (span, resolution) =>
    match resolution with
    | .root _ =>
        if (traceRoots resolved span.traceId).length > 1 then
          issue span.location
            "CTSC spans sharing a traceId must terminate at the same conformance.run span"
        else []
    | _ => []

/-- `none` would mean an unfinished walk. -/
def validateAncestry (spans : List TraceSpan) : Option (List ValidationIssue) :=
  (resolveAll spans [] (spans.filter fun span => span.name != runName)).map fun resolved =>
    resolved.flatMap (fun (span, resolution) => resolutionIssues span resolution) ++
      sharedRootIssues resolved

/-! ### Resolution along parent chains -/

/-- No two spans of a trace share a span identity. -/
def UniqueIds (spans : List TraceSpan) : Prop := (spans.map spanKey).Nodup

section Resolution

variable {spans : List TraceSpan}

theorem mem_candidates {traceId spanId : String} {span : TraceSpan} :
    span ∈ candidates spans traceId spanId ↔
      span ∈ spans ∧ span.traceId = traceId ∧ span.spanId = spanId := by
  simp [candidates]

theorem UniqueIds.eq_of_key (hunique : UniqueIds spans) {left right : TraceSpan}
    (hleft : left ∈ spans) (hright : right ∈ spans) (hkey : spanKey left = spanKey right) :
    left = right :=
  List.inj_on_of_nodup_map hunique hleft hright hkey

/-- With unique identities, a span is the only candidate of its identity. -/
theorem UniqueIds.candidates_eq (hunique : UniqueIds spans) {span : TraceSpan}
    (hspan : span ∈ spans) : candidates spans span.traceId span.spanId = [span] := by
  have hnodup : (candidates spans span.traceId span.spanId).Nodup :=
    (List.Nodup.of_map _ hunique).filter _
  have hall : ∀ other ∈ candidates spans span.traceId span.spanId, other = span := by
    intro other hother
    obtain ⟨hmem, htrace, hid⟩ := mem_candidates.mp hother
    exact hunique.eq_of_key hmem hspan (Prod.ext htrace hid)
  have hself : span ∈ candidates spans span.traceId span.spanId :=
    mem_candidates.mpr ⟨hspan, rfl, rfl⟩
  cases hcandidates : candidates spans span.traceId span.spanId with
  | nil =>
    rw [hcandidates] at hself
    cases hself
  | cons first rest =>
    rw [hcandidates] at hnodup hall
    obtain rfl := hall first List.mem_cons_self
    cases rest with
    | nil => rfl
    | cons second rest =>
      have hsecond := hall second (List.mem_cons_of_mem _ List.mem_cons_self)
      exact absurd (hsecond ▸ List.mem_cons_self) (List.nodup_cons.mp hnodup).1

/-- A step of the loop goes to the only candidate for the parent. -/
theorem next_iff {span parent : TraceSpan} : Next (ancestry spans) span parent ↔
    span.name ≠ runName ∧ span.parentSpanId ≠ span.spanId ∧ span.parentSpanId ≠ "" ∧
      candidates spans span.traceId span.parentSpanId = [parent] := by
  unfold Next
  show ancestorStep spans span = .inr parent ↔ _
  rw [ancestorStep]
  split_ifs with hrun hself hroot
  · simp [hrun]
  · simp [hself]
  · simp [hroot]
  · simp only [ne_eq, hrun, hself, hroot, not_false_eq_true, true_and]
    split <;> simp_all

theorem Next.mem {span parent : TraceSpan} (h : Next (ancestry spans) span parent) :
    parent ∈ spans ∧ parent.traceId = span.traceId ∧ parent.spanId = span.parentSpanId := by
  obtain ⟨-, -, -, hcandidates⟩ := next_iff.mp h
  have hmem : parent ∈ candidates spans span.traceId span.parentSpanId := by
    rw [hcandidates]
    exact List.mem_singleton_self _
  exact mem_candidates.mp hmem

theorem ancestry_identified (hunique : UniqueIds spans) :
    Identified (ancestry spans) (· ∈ spans) where
  closed := fun _ _ _ hnext => (Next.mem hnext).1
  injective := fun _ _ hnode hother hkey => hunique.eq_of_key hnode hother hkey

theorem runAncestor_isSome (cache : AncestryCache) {span : TraceSpan} (hspan : span ∈ spans) :
    ∃ out, runAncestor spans cache span = some out := by
  have hclosed : ∀ node next, node ∈ spans → Next (ancestry spans) node next → next ∈ spans :=
    fun _ _ _ hnext => (Next.mem hnext).1
  have hknown : ∀ node, node ∈ spans → (ancestry spans).key node ∈ spans.map spanKey :=
    fun node hnode => List.mem_map_of_mem hnode
  obtain ⟨out, hout⟩ : ∃ out, walk (ancestry spans) cache [] (spans.length + 1) span = some out :=
    walk_isSome hclosed hknown hspan List.nodup_nil (by simp) (by simp)
  exact ⟨_, by rw [runAncestor, hout]; rfl⟩

/-- Resolving one span keeps the cache sound. -/
theorem runAncestor_resolves (hunique : UniqueIds spans) {cache cache' : AncestryCache}
    (hsound : Sound (ancestry spans) (· ∈ spans) cache) {span : TraceSpan} (hspan : span ∈ spans)
    {resolution : Resolution} (h : runAncestor spans cache span = some (resolution, cache')) :
    Resolves (ancestry spans) span resolution ∧ Sound (ancestry spans) (· ∈ spans) cache' := by
  obtain ⟨⟨answer, path⟩, hwalk, hout⟩ := Option.map_eq_some_iff.mp h
  obtain ⟨rfl, rfl⟩ := Prod.mk.inj hout
  exact hsound.remember (ancestry_identified hunique) hspan hwalk

/-- Every span is given the resolution of its own parent chain. -/
theorem resolveAll_resolves (hunique : UniqueIds spans) {cache : AncestryCache}
    (hsound : Sound (ancestry spans) (· ∈ spans) cache) {rest : List TraceSpan}
    (hrest : ∀ span ∈ rest, span ∈ spans) :
    ∃ resolved, resolveAll spans cache rest = some resolved ∧ resolved.map Prod.fst = rest ∧
      ∀ entry ∈ resolved, Resolves (ancestry spans) entry.1 entry.2 := by
  induction rest generalizing cache with
  | nil => exact ⟨[], rfl, rfl, by simp⟩
  | cons span rest ih =>
    have hspan := hrest span List.mem_cons_self
    obtain ⟨⟨resolution, cache'⟩, hout⟩ := runAncestor_isSome cache hspan
    obtain ⟨hresolves, hsound'⟩ := runAncestor_resolves hunique hsound hspan hout
    obtain ⟨resolved, hresolved, hspans, hall⟩ := ih hsound'
      fun other hother => hrest other (List.mem_cons_of_mem _ hother)
    refine ⟨(span, resolution) :: resolved, ?_, by rw [List.map_cons, hspans], ?_⟩
    · simp only [resolveAll, hout, hresolved, Option.bind_some, Option.map_some]
    · intro entry hentry
      rcases List.mem_cons.mp hentry with rfl | hentry
      · exact hresolves
      · exact hall entry hentry

/-- Walking from scratch comes to an answer for every span. -/
theorem plain_isSome {span : TraceSpan} (hspan : span ∈ spans) :
    ∃ resolution, plain (ancestry spans) (spans.length + 1) span = some resolution := by
  have hclosed : ∀ node next, node ∈ spans → Next (ancestry spans) node next → next ∈ spans :=
    fun _ _ _ hnext => (Next.mem hnext).1
  have hknown : ∀ node, node ∈ spans → (ancestry spans).key node ∈ spans.map spanKey :=
    fun node hnode => List.mem_map_of_mem hnode
  obtain ⟨out, hout⟩ : ∃ out, walk (ancestry spans) [] [] (spans.length + 1) span = some out :=
    walk_isSome hclosed hknown hspan List.nodup_nil (by simp) (by simp)
  exact ⟨out.1, by rw [plain, hout]; rfl⟩

/-- In whatever order the spans are resolved, what is remembered changes no resolution: every
span is given what the walk from scratch gives it. -/
theorem resolveAll_plain (hunique : UniqueIds spans) {order : List TraceSpan}
    (horder : ∀ span ∈ order, span ∈ spans) :
    ∃ resolved, resolveAll spans [] order = some resolved ∧ resolved.map Prod.fst = order ∧
      ∀ entry ∈ resolved,
        plain (ancestry spans) (spans.length + 1) entry.1 = some entry.2 := by
  obtain ⟨resolved, hresolved, hspans, hall⟩ := resolveAll_resolves hunique sound_nil horder
  refine ⟨resolved, hresolved, hspans, fun entry hentry => ?_⟩
  have hspan : entry.1 ∈ spans := by
    apply horder
    rw [← hspans]
    exact List.mem_map_of_mem hentry
  obtain ⟨resolution, hplain⟩ := plain_isSome hspan
  have hresolves := plain_resolves (ancestry_identified hunique) hspan hplain
  rw [hplain, (hall entry hentry).unique hresolves]

end Resolution

/-- A run and an operation in it. -/
def childOf (parentSpanId spanId name : String) : TraceSpan where
  traceId := "11"
  spanId := spanId
  parentSpanId := parentSpanId
  name := name
  startTime := none
  endTime := none
  attributes := []
  events := []
  status := .unset
  resourceAttributes := []
  location := ""

theorem resolveAll_plain_pair :
    ∃ resolved, resolveAll [childOf "a" "b" "conformance.operation", childOf "" "a" runName] []
        [childOf "a" "b" "conformance.operation"] = some resolved ∧
      resolved.map Prod.fst = [childOf "a" "b" "conformance.operation"] ∧
      ∀ entry ∈ resolved, plain
        (ancestry [childOf "a" "b" "conformance.operation", childOf "" "a" runName]) 3 entry.1 =
          some entry.2 :=
  resolveAll_plain (by unfold UniqueIds; decide) (fun _ h => by
    rw [List.mem_singleton.mp h]
    exact List.mem_cons_self)

/-! ### Accepted ancestry -/

/-- The parent chain of a span ends at a root run. -/
def Rooted (spans : List TraceSpan) (span run : TraceSpan) : Prop :=
  Stops (ancestry spans) span (.root run)

section Accepted

variable {spans : List TraceSpan}

theorem Rooted.run {span run : TraceSpan} (h : Rooted spans span run) (hspan : span ∈ spans) :
    run ∈ spans ∧ run.name = runName ∧ run.parentSpanId = "" ∧ run.traceId = span.traceId := by
  unfold Rooted at h
  generalize hresult : Resolution.root run = result at h
  induction h with
  | @here node result h =>
    have hstep : ancestorStep spans node = .inl result := h
    subst hresult
    unfold ancestorStep at hstep
    split_ifs at hstep with hrun hroot
    · obtain rfl : node = run := by simpa using hstep
      exact ⟨hspan, hrun, hroot, rfl⟩
    · cases hstep
    · cases hstep
    · cases hstep
    · split at hstep <;> cases hstep
  | next h _ ih =>
    obtain ⟨hmem, htrace, -⟩ := Next.mem h
    obtain ⟨hrun, hname, hparent, hsame⟩ := ih hmem hresult
    exact ⟨hrun, hname, hparent, hsame.trans htrace⟩

/-- Without an ancestry issue every span other than a run is rooted. -/
theorem rooted_of_validateAncestry (hunique : UniqueIds spans)
    (h : validateAncestry spans = some []) {span : TraceSpan} (hspan : span ∈ spans)
    (hname : span.name ≠ runName) : ∃ run, Rooted spans span run := by
  have hspansMem : ∀ span ∈ spans.filter (fun span => span.name != runName), span ∈ spans :=
    fun span hmem => (List.mem_filter.mp hmem).1
  obtain ⟨resolved, hresolved, hspans, hall⟩ := resolveAll_resolves hunique sound_nil hspansMem
  rw [validateAncestry, hresolved, Option.map_some, Option.some.injEq, List.append_eq_nil_iff,
    List.flatMap_eq_nil_iff] at h
  have hmem : span ∈ resolved.map Prod.fst := by
    rw [hspans]
    exact List.mem_filter.mpr ⟨hspan, by simpa using hname⟩
  obtain ⟨entry, hentry, rfl⟩ := List.mem_map.mp hmem
  have hclear := h.1 entry hentry
  have hresolves := hall entry hentry
  cases hresolution : entry.2 with
  | root run =>
    rw [hresolution] at hresolves
    rcases hresolves with hstops | ⟨-, hcycle⟩
    · exact ⟨run, hstops⟩
    · cases hcycle
  | _ => simp [hresolution, resolutionIssues] at hclear

/-- The walk ends for every list of spans, whatever their identities. -/
theorem validateAncestry_isSome (spans : List TraceSpan) :
    ∃ issues, validateAncestry spans = some issues := by
  have hresolve : ∀ (rest : List TraceSpan) (cache : AncestryCache),
      (∀ span ∈ rest, span ∈ spans) → ∃ resolved, resolveAll spans cache rest = some resolved := by
    intro rest
    induction rest with
    | nil => exact fun _ _ => ⟨[], rfl⟩
    | cons span rest ih =>
      intro cache hrest
      obtain ⟨⟨resolution, cache'⟩, hout⟩ := runAncestor_isSome cache (hrest span List.mem_cons_self)
      obtain ⟨resolved, hresolved⟩ := ih cache' fun other hother =>
        hrest other (List.mem_cons_of_mem _ hother)
      refine ⟨(span, resolution) :: resolved, ?_⟩
      simp only [resolveAll, hout, hresolved, Option.bind_some, Option.map_some]
  obtain ⟨resolved, hresolved⟩ := hresolve (spans.filter fun span => span.name != runName) []
    fun span hmem => (List.mem_filter.mp hmem).1
  exact ⟨_, by rw [validateAncestry, hresolved]; rfl⟩

end Accepted

end SpecGate.TraceAncestry

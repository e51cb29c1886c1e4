import SpecGate.CarriedContents

/-!
Whole captures through a table. Every value of a bound operation is carried over at the types of
its channel, and the rest of the capture stays as it was. A capture is refused for an operation
that was rejected, or for a value that repeats a key or has no content at its type.
-/
namespace SpecGate.ConvertedCaptures

open RegistryModel StorageBindings BindingDepth BoundNodes BoundOperations StoredValues
open StoredContents CarriedContents SortedAssoc Checked
open ReplayModel (ReplayType RegistryOp Outcome)
open DecodedValues (typeRef)
open TypeExpressions (CharClasses)
open Demands (Failure)
open SidecarValues (NativeValue)
open CaptureSession (Capture OperationSpan Completion SpanBoundary SpanId)

/-! ### Channels -/

section Channels

variable (reference actual : List Declarations) (operation : RegistryOp) (found : DeclaredOperation)

/-- The contents that the stored value has at the type of the candidate are those of the
converted value at the type of the registry. -/
def ContentKept (type : ReplayType) (native : TypeRef) (stored converted : NativeValue) : Prop :=
  ∀ content, Reads (typeMember actual) false operation.componentId native stored content →
    Reads (typeMember reference) true operation.componentId (typeRef type) converted content

/-- The value has no content at the type of the candidate, or keys repeat in it. -/
def Unfit (native : TypeRef) (stored : NativeValue) : Prop :=
  ∀ content, Reads (typeMember actual) false operation.componentId native stored content →
    Repeats stored

/-- An input with a declared type is carried over; another one stays. -/
inductive InputCarried (stored converted : String × NativeValue) : Prop
  | bound {type native} (hname : converted.1 = stored.1) (htype : (stored.1, type) ∈ operation.inputs)
      (hnative : found.inputs.lookup stored.1 = some native)
      (h : ContentKept reference actual operation type native stored.2 converted.2)
  | other (h : ∀ input ∈ operation.inputs, input.1 ≠ stored.1) (hsame : converted = stored)

/-- A result or the payload of an error is carried over if it has a declared type. -/
inductive CompletionCarried :
    Option (Completion NativeValue) → Option (Completion NativeValue) → Prop
  | result {order timeNs stored converted type native} (htype : operation.output = some type)
      (hnative : found.result = some native)
      (h : ContentKept reference actual operation type native stored converted) :
      CompletionCarried (some (.result order timeNs stored)) (some (.result order timeNs converted))
  | plainResult {order timeNs stored} (htype : operation.output = none) :
      CompletionCarried (some (.result order timeNs stored)) (some (.result order timeNs stored))
  | payload {order timeNs name stored converted error type native} (herror : error ∈ operation.errors)
      (hname : error.name = name) (htype : error.valueType = some type)
      (hnative : found.errors.lookup name = some (some native))
      (h : ContentKept reference actual operation type native stored converted) :
      CompletionCarried (some (.error order timeNs name (some stored)))
        (some (.error order timeNs name (some converted)))
  | plainError {order timeNs name stored}
      (h : (∃ error ∈ operation.errors, error.name = name ∧ error.valueType = none) ∨
        ∀ error ∈ operation.errors, error.name ≠ name) :
      CompletionCarried (some (.error order timeNs name (some stored)))
        (some (.error order timeNs name (some stored)))
  | bare {completion} (hresult : ∀ order timeNs stored, completion ≠ some (.result order timeNs stored))
      (herror : ∀ order timeNs name stored,
        completion ≠ some (.error order timeNs name (some stored))) :
      CompletionCarried completion completion

/-- A value of the span that is unfit for its channel. -/
inductive UnfitValue (span : OperationSpan NativeValue) : Prop
  | input {input native} (hinput : input ∈ span.inputs)
      (hnative : found.inputs.lookup input.1 = some native)
      (h : Unfit actual operation native input.2)
  | result {order timeNs stored native} (hresult : span.completion = some (.result order timeNs stored))
      (hnative : found.result = some native) (h : Unfit actual operation native stored)
  | payload {order timeNs name stored native}
      (herror : span.completion = some (.error order timeNs name (some stored)))
      (hnative : found.errors.lookup name = some (some native))
      (h : Unfit actual operation native stored)

end Channels

/-! ### One operation -/

section Operations

variable {reference actual : List Declarations} {operation : RegistryOp} {found : DeclaredOperation}
  {bindings : Bindings} {bound : Operation}

/-- Fields and variants have names of their own in every type that the registry declares or
uses at a channel. -/
structure ClearRegistry (reference : List Declarations) (registry : List RegistryOp) : Prop where
  declared : ∀ component name type, typeMember reference component name = some type → Clear type
  channels : ∀ operation ∈ registry, ∀ type ∈ channels operation, Clear type

theorem ends_convertAt
    (hdeclared : ∀ component name type, typeMember reference component name = some type → Clear type)
    {type : ReplayType} (hclear : Clear (typeRef type)) {native : TypeRef} {id : Nat}
    (hid : Realises reference actual bindings.nodes operation.componentId (typeRef type) native id)
    (stored : NativeValue) (location : String) :
    Ends (fun converted => ContentKept reference actual operation type native stored converted)
      (Unfit actual operation native stored) (convertAt bindings id stored bound location) := by
  have hsafe : Safe bindings.nodes stored id := value_safe stored hid
  have hcarries : ∀ content,
      Reads (typeMember actual) false operation.componentId native stored content →
        Carries reference bindings.nodes operation.componentId (typeRef type) stored content id :=
    fun content hreads => value_carries hdeclared stored hid hclear hreads
  unfold Safe at hsafe
  unfold Carries at hcarries
  unfold convertAt
  cases hrun : value bindings.nodes id stored with
  | ok converted =>
    intro content hreads
    have h := hcarries content hreads
    rw [hrun] at h
    exact h
  | error failure =>
    cases failure with
    | panic message => rw [hrun] at hsafe; exact hsafe
    | error diagnostic =>
      intro content hreads
      have h := hcarries content hreads
      rw [hrun] at h
      exact h

theorem ClearRegistry.input {registry : List RegistryOp} (h : ClearRegistry reference registry)
    (hoperation : operation ∈ registry) {input : ReplayModel.RegistryInput}
    (hinput : input ∈ operation.inputs) : Clear (typeRef input.2) :=
  h.channels operation hoperation _ (List.mem_map.mpr ⟨input.2, List.mem_append_left _
    (List.mem_append_left _ (List.mem_map.mpr ⟨input, hinput, rfl⟩)), rfl⟩)

theorem ClearRegistry.output {registry : List RegistryOp} (h : ClearRegistry reference registry)
    (hoperation : operation ∈ registry) {type : ReplayType} (htype : operation.output = some type) :
    Clear (typeRef type) :=
  h.channels operation hoperation _ (List.mem_map.mpr ⟨type, List.mem_append_left _
    (List.mem_append_right _ (Option.mem_toList.mpr htype)), rfl⟩)

theorem ClearRegistry.payload {registry : List RegistryOp} (h : ClearRegistry reference registry)
    (hoperation : operation ∈ registry) {error : Outcome} (herror : error ∈ operation.errors)
    {type : ReplayType} (htype : error.valueType = some type) : Clear (typeRef type) :=
  h.channels operation hoperation _ (List.mem_map.mpr ⟨type, List.mem_append_right _
    (List.mem_filterMap.mpr ⟨error, herror, htype⟩), rfl⟩)

section Bound

variable {registry : List RegistryOp}

theorem ends_convertInput (hclear : ClearRegistry reference registry)
    (hoperation : operation ∈ registry)
    (hbinds : Binds (Realises reference actual bindings.nodes operation.componentId) operation found
      bound) (input : String × NativeValue) :
    Ends (fun converted => InputCarried reference actual operation found input converted)
      (∃ native, found.inputs.lookup input.1 = some native ∧ Unfit actual operation native input.2)
      (convertInput bindings bound input) := by
  unfold convertInput
  cases hlookup : lookup bound.inputs input.1 with
  | none =>
    refine .other (fun declared hdeclared hname => ?_) rfl
    exact lookup_eq_none_iff.mp hlookup (hname ▸ hbinds.allInputs declared hdeclared)
  | some id =>
    obtain ⟨type, native, htype, hnative, hid⟩ := hbinds.inputs _ _ hlookup
    refine Ends.bind ((ends_convertAt hclear.declared (hclear.input hoperation htype) hid
      input.2 _).imp (fun _ h => h) fun hE => ⟨native, hnative, hE⟩) fun converted h => ?_
    exact .bound rfl htype hnative h

theorem ends_convertCompletion (hclear : ClearRegistry reference registry)
    (hoperation : operation ∈ registry)
    (hbinds : Binds (Realises reference actual bindings.nodes operation.componentId) operation found
      bound) (span : OperationSpan NativeValue) :
    Ends (fun converted => CompletionCarried reference actual operation found span.completion converted)
      (UnfitValue actual operation found span)
      (convertCompletion bindings bound span.completion) := by
  unfold convertCompletion
  split
  · rename_i order timeNs stored hcompletion
    have hresult := hbinds.result
    rw [hcompletion]
    generalize houtput : operation.output = output at hresult
    generalize hfound : found.result = native at hresult
    cases hbound : bound.result with
    | none =>
      rw [hbound] at hresult
      cases hresult
      exact .plainResult houtput
    | some id =>
      rw [hbound] at hresult
      cases hresult with
      | payload hid =>
        refine Ends.bind ((ends_convertAt hclear.declared (hclear.output hoperation houtput) hid
          stored _).imp (fun _ h => h) fun hE => .result hcompletion hfound hE) fun converted h => ?_
        exact .result houtput hfound h
  · rename_i order timeNs name stored hcompletion
    rw [hcompletion]
    cases hlookup : lookup bound.errors name with
    | none =>
      refine .plainError (.inr fun error herror hname => ?_)
      exact lookup_eq_none_iff.mp hlookup (hname ▸ hbinds.allErrors error herror)
    | some payload =>
      obtain ⟨error, herror, hname, native, hnative, hpayload⟩ := hbinds.errors _ _ hlookup
      generalize htype : error.valueType = type at hpayload
      cases hpayload with
      | bare => exact .plainError (.inl ⟨error, herror, hname, htype⟩)
      | payload hid =>
        refine Ends.bind ((ends_convertAt hclear.declared (hclear.payload hoperation herror htype) hid
          stored _).imp (fun _ h => h) fun hE => .payload hcompletion hnative hE) fun converted h => ?_
        exact .payload herror hname htype hnative h
  · rename_i hresult herror
    exact .bare hresult herror

end Bound

end Operations

/-! ### Whole captures -/

section Captures

variable {classes : CharClasses} {display : TypeRef → String} {reference : List Declarations}
  {candidate : Candidate} {registry : List RegistryOp} {linked observed : List (String × String)}
  {bindings : Bindings}

/-- A span of a bound operation has its values carried over and is otherwise the same. A span of
an operation that is not in the table stays. -/
inductive SpanCarried (classes : CharClasses) (reference : List Declarations)
    (candidate : Candidate) (registry : List RegistryOp) (bindings : Bindings)
    (span converted : OperationSpan NativeValue) : Prop
  | bound {operation schema actual found} (hoperation : operation ∈ registry)
      (hcomponent : operation.componentId = span.componentId)
      (hname : operation.name = span.operationName)
      (hactual : candidateRegistry classes candidate operation.componentId = .ok (schema, actual))
      (hfound : operationMember actual operation.componentId operation.name = some found)
      (hinputs : List.Forall₂ (InputCarried reference actual operation found) span.inputs
        converted.inputs)
      (hcompletion : CompletionCarried reference actual operation found span.completion
        converted.completion)
      (hrest : converted =
        { span with inputs := converted.inputs, completion := converted.completion })
  | other (h : ∀ bound ∈ bindings.operations,
      ¬ (bound.component = span.componentId ∧ bound.name = span.operationName))
      (hsame : converted = span)

/-- Why a span is refused: its operation was rejected, or one of its values is unfit. -/
inductive Refused (classes : CharClasses) (candidate : Candidate) (registry : List RegistryOp)
    (bindings : Bindings) (span : OperationSpan NativeValue) : Prop
  | rejected {rejection} (hrejection : rejection ∈ bindings.rejections)
      (hcomponent : rejection.component = span.componentId)
      (hname : rejection.name = span.operationName)
  | unfit {operation schema actual found} (hoperation : operation ∈ registry)
      (hcomponent : operation.componentId = span.componentId)
      (hname : operation.name = span.operationName)
      (hactual : candidateRegistry classes candidate operation.componentId = .ok (schema, actual))
      (hfound : operationMember actual operation.componentId operation.name = some found)
      (h : UnfitValue actual operation found span)

theorem ends_convertOperation (hclear : ClearRegistry reference registry)
    (hbound : ∀ bound ∈ bindings.operations, ∃ operation ∈ registry,
      Bound classes reference candidate bindings.nodes operation bound)
    (span : OperationSpan NativeValue) :
    Ends (SpanCarried classes reference candidate registry bindings span)
      (Refused classes candidate registry bindings span) (convertOperation bindings span) := by
  unfold convertOperation
  split
  · rename_i rejection hrejection
    have hmatch := List.find?_some hrejection
    simp only [Bool.decide_and, Bool.and_eq_true, decide_eq_true_eq] at hmatch
    exact .rejected (List.mem_of_find?_eq_some hrejection) hmatch.1 hmatch.2
  · split
    · rename_i hnone
      refine .other (fun bound hmem hmatch => ?_) rfl
      have hfalse := List.find?_eq_none.mp hnone bound hmem
      exact hfalse (decide_eq_true hmatch)
    · rename_i bound hfind
      have hmatch := List.find?_some hfind
      simp only [Bool.decide_and, Bool.and_eq_true, decide_eq_true_eq] at hmatch
      obtain ⟨operation, hoperation, schema, actual, found, hactual, hfound, hbinds⟩ :=
        hbound bound (List.mem_of_find?_eq_some hfind)
      have hcomponent : operation.componentId = span.componentId :=
        hbinds.component.symm.trans hmatch.1
      have hname : operation.name = span.operationName := hbinds.name.symm.trans hmatch.2
      refine Ends.bind ((ends_mapAll fun input _ =>
        ends_convertInput hclear hoperation hbinds input).imp (fun _ h => h) ?_) fun inputs hinputs => ?_
      · rintro ⟨input, hinput, native, hnative, hE⟩
        exact .unfit hoperation hcomponent hname hactual hfound (.input hinput hnative hE)
      refine Ends.bind ((ends_convertCompletion hclear hoperation hbinds span).imp (fun _ h => h)
        fun hE => .unfit hoperation hcomponent hname hactual hfound hE) fun completion h => ?_
      exact .bound hoperation hcomponent hname hactual hfound hinputs h rfl

/-- The spans of a capture are carried over, and the rest of it is the same. -/
def CaptureCarried (classes : CharClasses) (reference : List Declarations) (candidate : Candidate)
    (registry : List RegistryOp) (bindings : Bindings) (capture converted : Capture NativeValue) :
    Prop :=
  converted = { capture with operations := converted.operations } ∧
    List.Forall₂ (SpanCarried classes reference candidate registry bindings) capture.operations
      converted.operations

/-- For a table that was built, conversion never panics: it carries all captures over, or refuses
one of their spans for a reason. -/
theorem captures_carried (hclear : ClearRegistry reference registry)
    (hbuild : build classes display reference candidate registry linked observed = .ok bindings)
    (captures : List (Capture NativeValue)) :
    Ends (List.Forall₂ (CaptureCarried classes reference candidate registry bindings) captures)
      (∃ capture ∈ captures, ∃ span ∈ capture.operations,
        Refused classes candidate registry bindings span)
      (convert bindings captures) := by
  have hbound : ∀ bound ∈ bindings.operations, ∃ operation ∈ registry,
      Bound classes reference candidate bindings.nodes operation bound := by
    intro bound hmem
    obtain ⟨entry, hentry, hbound⟩ := (accounts_of_build hbuild).bound bound hmem
    obtain ⟨operation, hoperation, rfl⟩ := List.mem_map.mp hentry
    exact ⟨operation, (List.mem_filter.mp hoperation).1, hbound⟩
  unfold convert
  refine ends_mapAll fun capture _ => ?_
  refine Ends.bind (ends_mapAll fun span _ => ends_convertOperation hclear hbound span)
    fun operations hoperations => ⟨rfl, hoperations⟩

/-- A registry whose operation returns a map from texts. -/
def stockOperation : RegistryOp where
  componentId := "shop"
  name := "stock"
  inputs := []
  output := some (.map (.primitive "string") (.primitive "i64") false)
  empty := false
  errors := []

/-- A candidate that stores the map as a list of pairs. -/
def stockCandidate : Candidate where
  schema := {
    component := "shop"
    dependencies := []
    dependencyTypes := []
    operations := [⟨"stock", false, [], some "list<tuple<string, i64>>", false, [], []⟩]
    types := [] }
  schemas := []
  registry := ⟨[], []⟩
  language := .rust

def stockBindings : Bindings where
  nodes := [.map 1 2 true true, .identity, .identity]
  operations := [⟨"shop", "stock", [], some 0, []⟩]
  rejections := []

def stockBuild : Except Stop Bindings :=
  build .ascii (fun _ => "") [] stockCandidate [stockOperation] [("shop", "stock")] []

def stockSpan : SpanId := ⟨"000000000000005a", by decide⟩

def stockBoundary : SpanBoundary := ⟨stockSpan, none, 0, 9, .ok⟩

def stockCapture : Capture NativeValue where
  traceId := ⟨"0000000000000000000000000000005a", by decide⟩
  scenarioName := "stock"
  run := stockBoundary
  scenario := stockBoundary
  operations := [⟨1, stockSpan, stockSpan, "shop", "stock", 1, 2, .ok, [], [],
    some (.result 2 2 (.list [.list [.string "pears", .integer 2]]))⟩]

theorem captures_carried_stock :
    Ends (List.Forall₂ (CaptureCarried .ascii [] stockCandidate [stockOperation] stockBindings)
        [stockCapture])
      (∃ capture ∈ [stockCapture], ∃ span ∈ capture.operations,
        Refused .ascii stockCandidate [stockOperation] stockBindings span)
      (convert stockBindings [stockCapture]) := by
  have hclear : ClearRegistry [] [stockOperation] := by
    refine ⟨fun component name type htype => (by cases htype), fun operation hmem type htype => ?_⟩
    obtain rfl := List.mem_singleton.mp hmem
    obtain rfl := List.mem_singleton.mp htype
    refine clear_of_parts (fun fields h => by cases h) (fun variants h => by cases h) ?_
    rintro part (_ | _)
    · exact clear_primitive "string"
    · exact clear_primitive "i64"
  have hoption : stockBuild.toOption = some stockBindings := by decide +kernel
  have hbuild : stockBuild = .ok stockBindings := by
    cases hresult : stockBuild with
    | error stop => rw [hresult] at hoption; cases hoption
    | ok bindings => rw [hresult] at hoption; cases hoption; rfl
  exact captures_carried hclear hbuild [stockCapture]

end Captures

end SpecGate.ConvertedCaptures

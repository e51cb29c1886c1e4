import SpecGate.CaptureSession
import SpecGate.Placements
import SpecGate.RegistryDocuments
import SpecGate.TypeExpressions

/-!
The planner of the capture runtime: what each linked setup of an operation contributes. A
setup with a parameter name fills that parameter; any other setup fills the one parameter of
its return type that no setup before it fills, or constructs the receiver. The planner is a
placement of the setups in the parameters.
-/
namespace SpecGate.DeclaredSetups

open CaptureSession RegistryDocuments TypeExpressions Placements

/-! ### Plans -/

structure SetupKey where
  componentId : String
  operationName : String
  modulePath : String
  fnName : String
  fills : Option String

inductive SetupContribution where
  | receiver
  | parameter (name : String)

structure ExpectedSetup where
  key : SetupKey
  contribution : SetupContribution

/-- A declaration set that cannot be folded unambiguously. -/
def setupCollision (component operation detail : String) : CaptureError :=
  ⟨.setupAmbiguity,
    s!"native capture for '{component}::{operation}' cannot fold its #[spec_setup] " ++
    s!"declarations: {detail}. Capture records the registry's folded surface and cannot choose " ++
    "between colliding setups; correct the declarations so each one contributes exactly one " ++
    "receiver or parameter"⟩

section Planner

variable (classes : CharClasses) (componentId operationName : String) (operation : OpMeta)

/-- Types are compared without their white space. -/
def typesMatch (left right : String) : Bool :=
  left.toList.filter (fun c => !classes.isWhitespace c) ==
    right.toList.filter fun c => !classes.isWhitespace c

def producer (setup : OpMeta) : String := s!"{setup.modulePath}::{setup.fnName}"

/-- The parameters of a setup's return type that are not filled. -/
def candidates (filled : Finset String) (setup : OpMeta) : List String :=
  (operation.params.filter fun field =>
    !decide (field.name ∈ filled) && typesMatch classes field.rustType setup.returnType).map
      FieldMeta.name

/-- What a setup contributes beside the parameters that are filled. -/
def contributionOf (filled : Finset String) (receiverClaimed : Bool) (setup : OpMeta) :
    Except CaptureError SetupContribution :=
  match setup.fills with
  | some fills =>
      if operation.params.any fun field => field.name == fills then .ok (.parameter fills)
      else .error (setupCollision componentId operationName
        s!"setup '{producer setup}' fills unknown parameter '{fills}'")
  | none =>
      match candidates classes operation filled setup with
      | [only] => .ok (.parameter only)
      | first :: second :: rest =>
          let all := ", ".intercalate (first :: second :: rest)
          .error (setupCollision componentId operationName
            (s!"setup '{producer setup}' ambiguously matches parameters {all} by its return " ++
              s!"type '{setup.returnType}'; declare fills explicitly"))
      | [] =>
          if receiverClaimed then .error (setupCollision componentId operationName
            s!"setup '{producer setup}' constructs a second receiver")
          else .ok .receiver

def setupKey (setup : OpMeta) : SetupKey :=
  ⟨setup.component, setup.name, setup.modulePath, setup.fnName, setup.fills⟩

/-- Plan the setups one by one. -/
def planFrom (filled : Finset String) (receiverClaimed : Bool) :
    List OpMeta → Except CaptureError (List ExpectedSetup × Finset String)
  | [] => .ok ([], filled)
  | setup :: rest =>
      match contributionOf classes componentId operationName operation filled receiverClaimed
        setup with
      | .error error => .error error
      | .ok .receiver =>
          (planFrom filled true rest).map fun (required, filled) =>
            (⟨setupKey setup, .receiver⟩ :: required, filled)
      | .ok (.parameter name) =>
          if name ∈ filled then .error (setupCollision componentId operationName
            (s!"setup '{producer setup}' fills parameter '{name}', " ++
              "which an earlier setup already fills"))
          else (planFrom (insert name filled) receiverClaimed rest).map fun (required, filled) =>
            (⟨setupKey setup, .parameter name⟩ :: required, filled)

def planDeclaredSetups (setups : List OpMeta) :
    Except CaptureError (List ExpectedSetup × Finset String) :=
  planFrom classes componentId operationName operation ∅ false setups

end Planner

/-- Two plans agree: both fail, or each setup contributes the same and the same parameters are
filled. -/
def Agree (setups other : List OpMeta)
    (plan plan' : Except CaptureError (List ExpectedSetup × Finset String)) : Prop :=
  match plan, plan' with
  | .ok (required, filled), .ok (required', filled') =>
      filled = filled' ∧ (setups.zip required).Perm (other.zip required')
  | .error _, .error _ => True
  | _, _ => False

/-! ### Plans as placements -/

section Placement

variable (classes : CharClasses) (operation : OpMeta)

/-- Setups ask for parameters, by name or by their return type. -/
def demand : Demand OpMeta String where
  slots := operation.params.map FieldMeta.name
  named := OpMeta.fills
  fits setup :=
    (operation.params.filter fun field => typesMatch classes field.rustType setup.returnType).map
      FieldMeta.name

/-- The contribution of a setup in its place. -/
def contribution : Option String → SetupContribution
  | none => .receiver
  | some name => .parameter name

def expected (placed : OpMeta × Option String) : ExpectedSetup :=
  ⟨setupKey placed.1, contribution placed.2⟩

/-- The parameters that are filled besides those that were. -/
def filledBy (filled : Finset String) (placed : List (OpMeta × Option String)) : Finset String :=
  placed.foldl (fun filled placed => placed.2.elim filled fun name => insert name filled) filled

variable {classes operation} {taken : List String} {filled : Finset String}
  {componentId operationName : String}

theorem candidates_eq (hsets : ∀ name, name ∈ taken ↔ name ∈ filled) (setup : OpMeta) :
    candidates classes operation filled setup = (demand classes operation).free taken setup := by
  unfold candidates Demand.free demand
  rw [List.filter_map, List.filter_filter]
  congr 1
  apply List.filter_congr
  intro field _
  simp [hsets]

/-- The planner chooses the place of a setup. -/
theorem contributionOf_choose (hsets : ∀ name, name ∈ taken ↔ name ∈ filled)
    (receiverClaimed : Bool) (setup : OpMeta) :
    (∃ error, contributionOf classes componentId operationName operation filled receiverClaimed
        setup = .error error ∧
      (demand classes operation).choose taken receiverClaimed setup = none) ∨
    (contributionOf classes componentId operationName operation filled receiverClaimed
        setup = .ok .receiver ∧
      (demand classes operation).choose taken receiverClaimed setup = some none) ∨
    ∃ name, contributionOf classes componentId operationName operation filled receiverClaimed
        setup = .ok (.parameter name) ∧
      (demand classes operation).choose taken receiverClaimed setup =
        if name ∈ filled then none else some (some name) := by
  unfold contributionOf
  cases hfills : setup.fills with
  | some fills =>
    have hnamed : (demand classes operation).named setup = some fills := hfills
    dsimp only
    rw [Demand.choose_named hnamed]
    by_cases hknown : (operation.params.any fun field => field.name == fills) = true
    · have hslot : fills ∈ (demand classes operation).slots := by
        obtain ⟨field, hfield, hname⟩ := List.any_eq_true.mp hknown
        exact List.mem_map.mpr ⟨field, hfield, eq_of_beq hname⟩
      rw [if_pos hknown]
      refine .inr (.inr ⟨fills, rfl, ?_⟩)
      by_cases htaken : fills ∈ filled
      · rw [if_pos htaken, if_neg fun hboth => hboth.2 ((hsets fills).mpr htaken)]
      · rw [if_neg htaken, if_pos ⟨hslot, fun hmem => htaken ((hsets fills).mp hmem)⟩]
    · have hnot : fills ∉ (demand classes operation).slots := by
        intro hmem
        obtain ⟨field, hfield, rfl⟩ := List.mem_map.mp hmem
        exact hknown (List.any_eq_true.mpr ⟨field, hfield, beq_self_eq_true _⟩)
      rw [if_neg hknown, if_neg fun hboth => hnot hboth.1]
      exact .inl ⟨_, rfl, rfl⟩
  | none =>
    dsimp only
    unfold Demand.choose
    have hnamed : (demand classes operation).named setup = none := hfills
    rw [hnamed, candidates_eq hsets]
    dsimp only
    cases hfree : (demand classes operation).free taken setup with
    | nil =>
      cases receiverClaimed with
      | true => exact .inl ⟨_, rfl, rfl⟩
      | false => exact .inr (.inl ⟨rfl, rfl⟩)
    | cons first rest =>
      cases rest with
      | cons second rest => exact .inl ⟨_, rfl, rfl⟩
      | nil =>
        have hmem : first ∈ (demand classes operation).free taken setup := by
          rw [hfree]
          exact List.mem_singleton.mpr rfl
        have hnot := (Demand.mem_free.mp hmem).2
        refine .inr (.inr ⟨first, rfl, ?_⟩)
        rw [if_neg fun htaken => hnot ((hsets first).mpr htaken)]

/-- One more setup in front of a plan that is a placement. -/
theorem plan_cons {α β : Type} {plan : Except CaptureError α} {placed : Option β} {view : β → α}
    (h : plan.toOption = placed.map view) {front : α → α} {first : β → β} {view' : β → α}
    (hfront : ∀ results, view' (first results) = front (view results)) :
    (plan.map front).toOption = (placed.map first).map view' := by
  cases plan with
  | error error =>
    cases placed with
    | none => rfl
    | some results => cases h
  | ok planned =>
    cases placed with
    | none => cases h
    | some results =>
      obtain rfl := Option.some.inj h
      exact congrArg some (hfront results).symm

/-- The plan is the placement of the setups. -/
theorem planFrom_place (hsets : ∀ name, name ∈ taken ↔ name ∈ filled) (receiverClaimed : Bool)
    (setups : List OpMeta) :
    (planFrom classes componentId operationName operation filled receiverClaimed setups).toOption =
      ((demand classes operation).place taken receiverClaimed setups).map fun placed =>
        (placed.map expected, filledBy filled placed) := by
  induction setups generalizing taken filled receiverClaimed with
  | nil => rfl
  | cons setup rest ih =>
    unfold planFrom Demand.place
    rcases @contributionOf_choose classes operation taken filled componentId operationName hsets
        receiverClaimed setup with
      ⟨error, hcontribution, hchoose⟩ | ⟨hcontribution, hchoose⟩ | ⟨name, hcontribution, hchoose⟩
    · rw [hcontribution, hchoose]
      rfl
    · rw [hcontribution, hchoose, Option.bind_some, Option.isNone_none, Bool.or_true]
      exact plan_cons (ih hsets true) fun _ => rfl
    · rw [hcontribution, hchoose]
      dsimp only
      by_cases htaken : name ∈ filled
      · rw [if_pos htaken, if_pos htaken]
        rfl
      · have hsets' : ∀ other,
            other ∈ (some name).toList ++ taken ↔ other ∈ insert name filled := by
          intro other
          rw [List.mem_append, Option.mem_toList, Option.some.injEq, Finset.mem_insert, hsets]
          exact or_congr_left eq_comm
        rw [if_neg htaken, if_neg htaken, Option.bind_some, Option.isNone_some, Bool.or_false]
        exact plan_cons (ih hsets' receiverClaimed) fun _ => rfl

theorem mem_filledBy {placed : List (OpMeta × Option String)} {name : String} :
    name ∈ filledBy filled placed ↔ name ∈ filled ∨ ∃ place ∈ placed, place.2 = some name := by
  induction placed generalizing filled with
  | nil =>
    refine ⟨.inl, fun h => h.elim id ?_⟩
    intro ⟨place, hplace, _⟩
    cases hplace
  | cons first rest ih =>
    change name ∈ filledBy (first.2.elim filled fun name => insert name filled) rest ↔ _
    rw [ih, List.exists_mem_cons_iff, ← or_assoc]
    apply or_congr_left
    cases first.2 with
    | none =>
      rw [Option.elim_none]
      exact ⟨.inl, fun h => h.elim id fun hnone => (by cases hnone)⟩
    | some other =>
      rw [Option.elim_some, Finset.mem_insert, Option.some.injEq, or_comm]
      exact or_congr_right eq_comm

theorem filledBy_perm {left right : List (OpMeta × Option String)} (h : left.Perm right) :
    filledBy filled left = filledBy filled right := by
  apply Finset.ext
  intro name
  rw [mem_filledBy, mem_filledBy]
  exact or_congr_right ⟨fun ⟨place, hmem, hname⟩ => ⟨place, h.mem_iff.mp hmem, hname⟩,
    fun ⟨place, hmem, hname⟩ => ⟨place, h.mem_iff.mpr hmem, hname⟩⟩

theorem expected_injective :
    Function.Injective fun placed : OpMeta × Option String => (placed.1, expected placed) := by
  intro ⟨setup, place⟩ ⟨other, place'⟩ h
  obtain ⟨rfl, hexpected⟩ := Prod.mk.inj h
  have hcontribution : contribution place = contribution place' :=
    congrArg ExpectedSetup.contribution hexpected
  cases place <;> cases place'
  · rfl
  · cases hcontribution
  · cases hcontribution
  · obtain rfl := SetupContribution.parameter.inj hcontribution
    rfl

theorem agree_of_placed {setups other : List OpMeta}
    {plan plan' : Except CaptureError (List ExpectedSetup × Finset String)}
    {placed placed' : Option (List (OpMeta × Option String))}
    (h : plan.toOption = placed.map fun placed => (placed.map expected, filledBy ∅ placed))
    (h' : plan'.toOption = placed'.map fun placed => (placed.map expected, filledBy ∅ placed))
    (hitems : ∀ results, placed = some results → results.map Prod.fst = setups)
    (hitems' : ∀ results, placed' = some results → results.map Prod.fst = other) :
    Agree setups other plan plan' ↔ Same placed placed' := by
  cases plan <;> cases plan' <;> cases placed <;> cases placed'
  case ok.ok.some.some planned planned' results results' =>
    obtain rfl := Option.some.inj h
    obtain rfl := Option.some.inj h'
    change (_ = _ ∧ (setups.zip (results.map expected)).Perm (other.zip (results'.map expected))) ↔
      results.Perm results'
    rw [← hitems results rfl, ← hitems' results' rfl, List.zip_map', List.zip_map',
      List.map_perm_map_iff expected_injective]
    exact ⟨And.right, fun hperm => ⟨filledBy_perm hperm, hperm⟩⟩
  all_goals
    first
    | exact Iff.rfl
    | cases h <;> done
    | cases h'

/-- Plans of two orders agree when the setups end up in the same places. -/
theorem agree_iff {setups other : List OpMeta} :
    Agree setups other (planDeclaredSetups classes componentId operationName operation setups)
        (planDeclaredSetups classes componentId operationName operation other) ↔
      Same ((demand classes operation).place [] false setups)
        ((demand classes operation).place [] false other) := by
  have hnone : ∀ name, name ∈ ([] : List String) ↔ name ∈ (∅ : Finset String) := fun name =>
    ⟨fun h => (by cases h), fun h => absurd h (Finset.notMem_empty name)⟩
  apply agree_of_placed (planFrom_place hnone false setups) (planFrom_place hnone false other)
  · exact fun results => Demand.place_items
  · exact fun results => Demand.place_items

/-- The planner has the same outcome for every order of the setups exactly if no setup
without a parameter name competes with another setup, or the setups fit in no order. -/
theorem plan_orderFree_iff {setups : List OpMeta} :
    (∀ other, other.Perm setups →
      Agree other setups (planDeclaredSetups classes componentId operationName operation other)
        (planDeclaredSetups classes componentId operationName operation setups)) ↔
      (demand classes operation).Independent setups ∨
        ¬ (demand classes operation).Placeable setups := by
  rw [← Demand.orderFree_iff]
  exact forall_congr' fun other => imp_congr_right fun _ => agree_iff

end Placement

end SpecGate.DeclaredSetups

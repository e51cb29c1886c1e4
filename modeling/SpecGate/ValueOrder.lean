import SpecGate.NativeOrder
import SpecGate.Sorting

/-!
The comparison of runtime values is a total order, and it finds two values equal exactly when
the equality of values does, which is written apart from it. A set therefore holds each of the
values put into it once, in an order that depends on the values alone.
-/
namespace SpecGate.ValueOrder

open SidecarValues NativeOrder

/-! ### Lawful orders -/

section Lawful

variable {α : Type}

/-- A comparison is a total order up to an equality that is given apart from it. -/
structure LawfulOrder (cmp : α → α → Ordering) (equal : α → α → Prop) : Prop where
  reflexive : ∀ a, (cmp a a).isLE = true
  antisymmetric : ∀ a b, (cmp a b).isLE = true → (cmp b a).isLE = true → equal a b
  transitive : ∀ a b c, (cmp a b).isLE = true → (cmp b c).isLE = true → (cmp a c).isLE = true
  total : ∀ a b, (cmp a b).isLE = true ∨ (cmp b a).isLE = true
  mirrored : ∀ a b, cmp b a = (cmp a b).swap
  equality : ∀ a b, cmp a b = .eq ↔ equal a b

theorem lawfulOrder_compare [Ord α] [Std.TransOrd α] [Std.LawfulEqOrd α] {equal : α → α → Prop}
    (hequal : ∀ a b, equal a b ↔ a = b) : LawfulOrder (compare : α → α → Ordering) equal where
  reflexive a := by
    rw [Std.ReflOrd.compare_self]
    rfl
  antisymmetric a b hab hba :=
    (hequal a b).mpr (Std.LawfulEqOrd.eq_of_compare (Std.OrientedCmp.isLE_antisymm hab hba))
  transitive _ _ _ := Std.TransCmp.isLE_trans
  total := Sorting.isLE_total
  mirrored _ _ := Std.OrientedOrd.eq_swap
  equality a b := by rw [Std.LawfulEqOrd.compare_eq_iff_eq, hequal]

end Lawful

/-! ### Equality -/

mutual

/-- Equality of values; floating-point numbers are equal when their bits are. -/
def equals : NativeValue → NativeValue → Bool
  | .string left, .string right => left == right
  | .integer left, .integer right => left == right
  | .unsigned left, .unsigned right => left == right
  | .float left, .float right => left == right
  | .bool left, .bool right => left == right
  | .list left, .list right => equalsAll left right
  | .map left, .map right => equalsEntries left right
  | .set left, .set right => equalsAll left right
  | _, _ => false
termination_by structural left => left

def equalsAll : List NativeValue → List NativeValue → Bool
  | [], [] => true
  | left :: lefts, right :: rights => equals left right && equalsAll lefts rights
  | _, _ => false
termination_by structural lefts => lefts

def equalsEntries : List (String × NativeValue) → List (String × NativeValue) → Bool
  | [], [] => true
  | (leftKey, left) :: lefts, (rightKey, right) :: rights =>
      leftKey == rightKey && equals left right && equalsEntries lefts rights
  | _, _ => false
termination_by structural lefts => lefts

end

mutual

theorem equals_iff : ∀ left right : NativeValue, equals left right = true ↔ left = right
  | .string _, right => by cases right <;> simp [equals]
  | .integer _, right => by cases right <;> simp [equals]
  | .unsigned _, right => by cases right <;> simp [equals]
  | .float _, right => by cases right <;> simp [equals]
  | .bool _, right => by cases right <;> simp [equals]
  | .list lefts, right => by
      cases right with
      | list rights => simp [equals, equalsAll_iff lefts rights]
      | _ => simp [equals]
  | .map lefts, right => by
      cases right with
      | map rights => simp [equals, equalsEntries_iff lefts rights]
      | _ => simp [equals]
  | .set lefts, right => by
      cases right with
      | set rights => simp [equals, equalsAll_iff lefts rights]
      | _ => simp [equals]
termination_by structural left => left

theorem equalsAll_iff : ∀ lefts rights : List NativeValue,
    equalsAll lefts rights = true ↔ lefts = rights
  | [], rights => by cases rights <;> simp [equalsAll]
  | left :: lefts, rights => by
      cases rights with
      | nil => simp [equalsAll]
      | cons right rights => simp [equalsAll, equals_iff left right, equalsAll_iff lefts rights]
termination_by structural lefts => lefts

theorem equalsEntries_iff : ∀ lefts rights : List (String × NativeValue),
    equalsEntries lefts rights = true ↔ lefts = rights
  | [], rights => by cases rights <;> simp [equalsEntries]
  | (_, left) :: lefts, rights => by
      cases rights with
      | nil => simp [equalsEntries]
      | cons entry rights =>
        obtain ⟨_, right⟩ := entry
        simp [equalsEntries, equals_iff left right, equalsEntries_iff lefts rights, and_assoc]
termination_by structural lefts => lefts

end

/-! ### Sets -/

section Sets

variable {value other : NativeValue} {values : List NativeValue}

theorem mem_insertElement :
    other ∈ insertElement value values ↔ other = value ∨ other ∈ values := by
  induction values with
  | nil => simp [insertElement]
  | cons first rest ih =>
    rw [insertElement]
    cases hcompare : compareValue value first with
    | lt => simp
    | eq =>
      have heq : value = first := Std.LawfulEqOrd.eq_of_compare hcompare
      dsimp only
      rw [heq, List.mem_cons]
      tauto
    | gt =>
      dsimp only
      rw [List.mem_cons, List.mem_cons, ih]
      tauto

/-- An element is put where it belongs, unless it is there already. -/
theorem increasing_insertElement (h : Increasing values) :
    Increasing (insertElement value values) := by
  rw [increasing_iff] at h ⊢
  induction values with
  | nil => exact List.pairwise_singleton _ _
  | cons first rest ih =>
    obtain ⟨hfirst, hrest⟩ := List.pairwise_cons.mp h
    rw [insertElement]
    cases hcompare : compareValue value first with
    | lt =>
      have hlt : compare value first = .lt := hcompare
      refine List.pairwise_cons.mpr ⟨fun second hsecond => ?_, h⟩
      rcases List.mem_cons.mp hsecond with rfl | hlater
      · exact hlt
      · exact Std.TransCmp.lt_trans hlt (hfirst second hlater)
    | eq => exact h
    | gt =>
      have hgt : compare first value = .lt := Std.OrientedCmp.lt_of_gt hcompare
      refine List.pairwise_cons.mpr ⟨fun second hsecond => ?_, ih hrest⟩
      rcases mem_insertElement.mp hsecond with rfl | hold
      · exact hgt
      · exact hfirst second hold

theorem collectSet_spec (values : List NativeValue) :
    Increasing (collectSet values) ∧ ∀ value, value ∈ collectSet values ↔ value ∈ values := by
  have hfold : ∀ {set rest : List NativeValue}, Increasing set →
      Increasing (rest.foldl (fun set value => insertElement value set) set) ∧
        ∀ value, value ∈ rest.foldl (fun set value => insertElement value set) set ↔
          value ∈ set ∨ value ∈ rest := by
    intro set rest hset
    induction rest generalizing set with
    | nil => exact ⟨hset, fun value => by simp⟩
    | cons first rest ih =>
      obtain ⟨hincreasing, hmem⟩ := ih (increasing_insertElement hset)
      refine ⟨hincreasing, fun value => ?_⟩
      rw [List.foldl_cons, hmem, mem_insertElement, List.mem_cons]
      tauto
  obtain ⟨hincreasing, hmem⟩ := @hfold [] values List.Pairwise.nil
  have hnone : ∀ value : NativeValue, value ∈ [] ∨ value ∈ values ↔ value ∈ values := by simp
  exact ⟨hincreasing, fun value => (hmem value).trans (hnone value)⟩

/-- Elements in their order are known from which values are among them. -/
theorem eq_of_increasing {left right : List NativeValue} (hleft : Increasing left)
    (hright : Increasing right) (h : ∀ value, value ∈ left ↔ value ∈ right) : left = right := by
  rw [increasing_iff] at hleft hright
  have hnodup : ∀ {values : List NativeValue},
      (values.Pairwise fun first second => compare first second = .lt) → values.Nodup := by
    intro values hvalues
    refine hvalues.imp fun hlt heq => ?_
    rw [heq, Std.ReflOrd.compare_self] at hlt
    cases hlt
  have hperm : left.Perm right := (List.perm_ext_iff_of_nodup (hnodup hleft) (hnodup hright)).mpr h
  refine List.Perm.eq_of_pairwise (fun a b _ _ hab hba => ?_) hleft hright hperm
  have hgt : compare b a = .gt := Std.OrientedCmp.gt_of_lt hab
  rw [hgt] at hba
  cases hba

end Sets

/-- Values are totally ordered, their comparison finds equal what their equality does, and a set
keeps each of its values once. -/
theorem ordering_lawful : LawfulOrder compareValue (fun left right => equals left right = true) ∧
    ∀ values : List NativeValue, Increasing (collectSet values) ∧
      ∀ value, value ∈ collectSet values ↔ value ∈ values :=
  ⟨lawfulOrder_compare equals_iff, collectSet_spec⟩

/-- The two zeros differ, and a number that is none equals itself. -/
example : compareValue (.float 0x8000000000000000) (.float 0) = .lt ∧
    equals (.float 0x7ff8000000000000) (.float 0x7ff8000000000000) = true := by decide

end SpecGate.ValueOrder

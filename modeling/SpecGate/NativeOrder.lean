import SpecGate.CanonicalOrder
import SpecGate.SidecarValues

/-!
The order of native values is a total order whose equality is equality. A value stands in it
where a pair of its kind and its content stands in the order of canonical values.
-/
namespace SpecGate.NativeOrder

open SidecarValues
open Values (CanonicalValue)

/-- A content behind the rank of its kind. -/
def ranked (rank : Nat) (content : CanonicalValue) : CanonicalValue :=
  .tuple [.integer rank, content]

mutual

def place : NativeValue → CanonicalValue
  | .bool value => ranked 0 (.bool value)
  | .integer value => ranked 1 (.integer value.toInt)
  | .unsigned value => ranked 2 (.integer value.toNat)
  | .float bits => ranked 3 (.integer (totalRank bits))
  | .string value => ranked 4 (.string value)
  | .list values => ranked 5 (.list (placeAll values))
  | .set values => ranked 6 (.list (placeAll values))
  | .map entries => ranked 7 (.record (placeEntries entries))
termination_by structural value => value

def placeAll : List NativeValue → List CanonicalValue
  | [] => []
  | value :: rest => place value :: placeAll rest
termination_by structural values => values

def placeEntries : List (String × NativeValue) → List (String × CanonicalValue)
  | [] => []
  | (key, value) :: rest => (key, place value) :: placeEntries rest
termination_by structural entries => entries

end

theorem cmp_ranked (rank : Nat) (left right : CanonicalValue) :
    CanonicalOrder.cmp (ranked rank left) (ranked rank right) = CanonicalOrder.cmp left right := by
  change ((CanonicalOrder.cmp (.integer rank) (.integer rank)).then
    ((CanonicalOrder.cmp left right).then .eq)) = _
  rw [CanonicalOrder.cmp_self]
  cases CanonicalOrder.cmp left right <;> rfl

theorem compare_natCast (left right : Nat) :
    compare left right = compare (left : Int) (right : Int) := by
  rw [Nat.compare_eq_ite_lt, Int.compare_eq_ite_lt]
  simp only [Int.ofNat_lt]

mutual

/-- The order of native values is the order of their places. -/
theorem compareValue_place : ∀ left right : NativeValue,
    compareValue left right = CanonicalOrder.cmp (place left) (place right)
  | .bool left, right => by
      cases right with
      | bool right => exact (cmp_ranked 0 (.bool left) (.bool right)).symm
      | _ => rfl
  | .integer left, right => by
      cases right with
      | integer right => exact (cmp_ranked 1 (.integer left.toInt) (.integer right.toInt)).symm
      | _ => rfl
  | .unsigned left, right => by
      cases right with
      | unsigned right =>
        exact (compare_natCast _ _).trans
          (cmp_ranked 2 (.integer left.toNat) (.integer right.toNat)).symm
      | _ => rfl
  | .float left, right => by
      cases right with
      | float right =>
        exact (cmp_ranked 3 (.integer (totalRank left)) (.integer (totalRank right))).symm
      | _ => rfl
  | .string left, right => by
      cases right with
      | string right => exact (cmp_ranked 4 (.string left) (.string right)).symm
      | _ => rfl
  | .list lefts, right => by
      cases right with
      | list rights =>
        exact (compareValues_place lefts rights).trans
          (cmp_ranked 5 (.list (placeAll lefts)) (.list (placeAll rights))).symm
      | _ => rfl
  | .set lefts, right => by
      cases right with
      | set rights =>
        exact (compareValues_place lefts rights).trans
          (cmp_ranked 6 (.list (placeAll lefts)) (.list (placeAll rights))).symm
      | _ => rfl
  | .map lefts, right => by
      cases right with
      | map rights =>
        exact (compareEntries_place lefts rights).trans
          (cmp_ranked 7 (.record (placeEntries lefts)) (.record (placeEntries rights))).symm
      | _ => rfl
termination_by structural left => left

theorem compareValues_place : ∀ lefts rights : List NativeValue,
    compareValues lefts rights = CanonicalOrder.cmpList (placeAll lefts) (placeAll rights)
  | [], [] | [], _ :: _ | _ :: _, [] => rfl
  | left :: lefts, right :: rights => by
      have hhead := compareValue_place left right
      have htail := compareValues_place lefts rights
      change (compareValue left right).then (compareValues lefts rights) = _
      rw [hhead, htail]
      rfl
termination_by structural lefts => lefts

theorem compareEntries_place : ∀ lefts rights : List (String × NativeValue),
    compareEntries lefts rights =
      CanonicalOrder.cmpFields (placeEntries lefts) (placeEntries rights)
  | [], [] | [], _ :: _ | _ :: _, [] => rfl
  | (leftKey, left) :: lefts, (rightKey, right) :: rights => by
      have hhead := compareValue_place left right
      have htail := compareEntries_place lefts rights
      change ((compare leftKey rightKey).then (compareValue left right)).then
        (compareEntries lefts rights) = _
      rw [hhead, htail]
      rfl
termination_by structural lefts => lefts

end

theorem totalRank_injective : Function.Injective totalRank := by
  intro left right h
  have hleft := left.toNat_lt
  have hright := right.toNat_lt
  apply UInt64.toNat_inj.mp
  unfold totalRank at h
  split_ifs at h <;> omega

theorem ranked_inj {leftRank rightRank : Nat} {left right : CanonicalValue}
    (h : ranked leftRank left = ranked rightRank right) : leftRank = rightRank ∧ left = right := by
  obtain ⟨hrank, hrest⟩ := List.cons.inj (CanonicalValue.tuple.inj h)
  exact ⟨Int.ofNat.inj (CanonicalValue.integer.inj hrank), (List.cons.inj hrest).1⟩

mutual

theorem place_injective : ∀ {left right : NativeValue}, place left = place right → left = right
  | .bool left, right, h => by
      cases right with
      | bool right =>
        have hcontent := (ranked_inj h).2
        exact congrArg _ (CanonicalValue.bool.inj hcontent)
      | _ => exact absurd (ranked_inj h).1 (by decide)
  | .integer left, right, h => by
      cases right with
      | integer right =>
        have hcontent := (ranked_inj h).2
        exact congrArg _ (Int64.toInt_inj.mp (CanonicalValue.integer.inj hcontent))
      | _ => exact absurd (ranked_inj h).1 (by decide)
  | .unsigned left, right, h => by
      cases right with
      | unsigned right =>
        have hcontent := (ranked_inj h).2
        exact congrArg _ (UInt64.toNat_inj.mp (Int.ofNat.inj (CanonicalValue.integer.inj hcontent)))
      | _ => exact absurd (ranked_inj h).1 (by decide)
  | .float left, right, h => by
      cases right with
      | float right =>
        have hcontent := (ranked_inj h).2
        exact congrArg _ (totalRank_injective (CanonicalValue.integer.inj hcontent))
      | _ => exact absurd (ranked_inj h).1 (by decide)
  | .string left, right, h => by
      cases right with
      | string right =>
        have hcontent := (ranked_inj h).2
        exact congrArg _ (CanonicalValue.string.inj hcontent)
      | _ => exact absurd (ranked_inj h).1 (by decide)
  | .list lefts, right, h => by
      cases right with
      | list rights =>
        have hcontent := (ranked_inj h).2
        exact congrArg _ (placeAll_injective (CanonicalValue.list.inj hcontent))
      | _ => exact absurd (ranked_inj h).1 (by decide)
  | .set lefts, right, h => by
      cases right with
      | set rights =>
        have hcontent := (ranked_inj h).2
        exact congrArg _ (placeAll_injective (CanonicalValue.list.inj hcontent))
      | _ => exact absurd (ranked_inj h).1 (by decide)
  | .map lefts, right, h => by
      cases right with
      | map rights =>
        have hcontent := (ranked_inj h).2
        exact congrArg _ (placeEntries_injective (CanonicalValue.record.inj hcontent))
      | _ => exact absurd (ranked_inj h).1 (by decide)
termination_by structural left => left

theorem placeAll_injective : ∀ {lefts rights : List NativeValue},
    placeAll lefts = placeAll rights → lefts = rights
  | [], [], _ => rfl
  | [], _ :: _, h | _ :: _, [], h => nomatch h
  | left :: lefts, right :: rights, h => by
      obtain ⟨hhead, htail⟩ := List.cons.inj h
      rw [place_injective hhead, placeAll_injective htail]
termination_by structural lefts => lefts

theorem placeEntries_injective : ∀ {lefts rights : List (String × NativeValue)},
    placeEntries lefts = placeEntries rights → lefts = rights
  | [], [], _ => rfl
  | [], _ :: _, h | _ :: _, [], h => nomatch h
  | (leftKey, left) :: lefts, (rightKey, right) :: rights, h => by
      obtain ⟨hhead, htail⟩ := List.cons.inj h
      obtain ⟨rfl, hvalue⟩ := Prod.mk.inj hhead
      rw [place_injective hvalue, placeEntries_injective htail]
termination_by structural lefts => lefts

end

instance : Ord NativeValue := ⟨compareValue⟩

theorem compare_place (left right : NativeValue) :
    compare left right = compare (place left) (place right) := compareValue_place left right

instance : Std.TransOrd NativeValue where
  eq_swap {left right} := by
    rw [compare_place, compare_place]
    exact Std.OrientedOrd.eq_swap
  isLE_trans {first second third} := by
    rw [compare_place, compare_place, compare_place]
    exact Std.TransCmp.isLE_trans

instance : Std.LawfulEqOrd NativeValue where
  compare_self {value} := by
    rw [compare_place]
    exact Std.ReflOrd.compare_self
  eq_of_compare {left right} h := by
    rw [compare_place] at h
    exact place_injective (Std.LawfulEqOrd.eq_of_compare h)

instance : DecidableEq NativeValue := fun _ _ =>
  decidable_of_iff _ Std.LawfulEqOrd.compare_eq_iff_eq

/-- The elements of a set in their order are sorted and distinct. -/
theorem increasing_iff {values : List NativeValue} :
    Increasing values ↔ values.Pairwise fun first second => compare first second = .lt := by
  have hswap : ∀ first second : NativeValue,
      compareValue second first = .gt ↔ compare first second = .lt := by
    intro first second
    change compare second first = .gt ↔ _
    rw [Std.OrientedOrd.eq_swap (a := second), Ordering.swap_eq_gt]
  exact ⟨List.Pairwise.imp fun h => (hswap _ _).mp h, List.Pairwise.imp fun h => (hswap _ _).mpr h⟩

end SpecGate.NativeOrder

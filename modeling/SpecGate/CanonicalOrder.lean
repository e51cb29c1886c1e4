import SpecGate.Values

/-!
The derived order of canonical values: the variant first, then the payload
lexicographically, with a proper prefix first in every sequence. The order is
total and its equality is equality, so sorting and key comparison depend on the
values alone.
-/
namespace SpecGate.CanonicalOrder

open Values

namespace F64Value

def rank : F64Value → Nat × Nat
  | .finite x => (0, x.bits)
  | .nan => (1, 0)
  | .infinity => (2, 0)
  | .negativeInfinity => (3, 0)

def cmp (a b : F64Value) : Ordering :=
  (compare (rank a).1 (rank b).1).then (compare (rank a).2 (rank b).2)

theorem rank_injective : Function.Injective rank := by
  intro a b h
  cases a <;> cases b <;> simp_all [rank]
  rename_i x y
  cases x
  cases y
  simpa using h

end F64Value

def variantIndex : CanonicalValue → Nat
  | .unit => 0
  | .string _ => 1
  | .bool _ => 2
  | .integer _ => 3
  | .float _ => 4
  | .bytes _ => 5
  | .list _ => 6
  | .tuple _ => 7
  | .map _ => 8
  | .orderedMap _ => 9
  | .record _ => 10
  | .variant _ _ => 11

mutual

def cmp : CanonicalValue → CanonicalValue → Ordering
  | .unit, .unit => .eq
  | .string a, .string b => compare a b
  | .bool a, .bool b => compare a b
  | .integer a, .integer b => compare a b
  | .float a, .float b => F64Value.cmp a b
  | .bytes a, .bytes b => compare a b
  | .list a, .list b => cmpList a b
  | .tuple a, .tuple b => cmpList a b
  | .map a, .map b => cmpEntries a b
  | .orderedMap a, .orderedMap b => cmpEntries a b
  | .record a, .record b => cmpFields a b
  | .variant n a, .variant m b => (compare n m).then (cmp a b)
  | a, b => compare (variantIndex a) (variantIndex b)
termination_by structural a => a

def cmpList : List CanonicalValue → List CanonicalValue → Ordering
  | [], [] => .eq
  | [], _ :: _ => .lt
  | _ :: _, [] => .gt
  | a :: as, b :: bs => (cmp a b).then (cmpList as bs)
termination_by structural a => a

def cmpEntries : List (CanonicalValue × CanonicalValue) →
    List (CanonicalValue × CanonicalValue) → Ordering
  | [], [] => .eq
  | [], _ :: _ => .lt
  | _ :: _, [] => .gt
  | (k, a) :: as, (l, b) :: bs => ((cmp k l).then (cmp a b)).then (cmpEntries as bs)
termination_by structural a => a

def cmpFields : List (String × CanonicalValue) → List (String × CanonicalValue) → Ordering
  | [], [] => .eq
  | [], _ :: _ => .lt
  | _ :: _, [] => .gt
  | (k, a) :: as, (l, b) :: bs => ((compare k l).then (cmp a b)).then (cmpFields as bs)
termination_by structural a => a

end

/-- Lexicographic transitivity from the first component's laws and the second's. -/
theorem then_lt_trans {pab pbc pac qab qbc qac : Ordering}
    (hlt : pab = .lt → pbc = .lt → pac = .lt) (hleft : pab = .eq → pac = pbc)
    (hright : pbc = .eq → pac = pab) (hq : qab = .lt → qbc = .lt → qac = .lt)
    (hab : pab.then qab = .lt) (hbc : pbc.then qbc = .lt) : pac.then qac = .lt := by
  rw [Ordering.then_eq_lt] at hab hbc ⊢
  rcases hab with hab | ⟨hab, hqab⟩
  · rcases hbc with hbc | ⟨hbc, -⟩
    · exact .inl (hlt hab hbc)
    · exact .inl ((hright hbc).trans hab)
  · rcases hbc with hbc | ⟨hbc, hqbc⟩
    · exact .inl ((hleft hab).trans hbc)
    · exact .inr ⟨(hleft hab).trans hbc, hq hqab hqbc⟩

theorem F64Value.cmp_swap (a b : F64Value) : cmp a b = (cmp b a).swap := by
  rw [cmp, cmp, Ordering.swap_then, ← Std.OrientedCmp.eq_swap, ← Std.OrientedCmp.eq_swap]

theorem F64Value.eq_of_cmp {a b : F64Value} (h : cmp a b = .eq) : a = b := by
  rw [cmp, Ordering.then_eq_eq, Std.LawfulEqOrd.compare_eq_iff_eq,
    Std.LawfulEqOrd.compare_eq_iff_eq] at h
  exact rank_injective (Prod.ext h.1 h.2)

theorem F64Value.cmp_self (a : F64Value) : cmp a a = .eq := by simp [cmp]

theorem F64Value.cmp_lt_trans {a b c : F64Value} (hab : cmp a b = .lt) (hbc : cmp b c = .lt) :
    cmp a c = .lt := by
  refine then_lt_trans (fun h h' => Std.TransCmp.lt_trans h h') ?_ ?_
    (fun h h' => Std.TransCmp.lt_trans h h') hab hbc
  · intro h
    rw [Std.LawfulEqOrd.eq_of_compare h]
  · intro h
    rw [Std.LawfulEqOrd.eq_of_compare h]

/-- Values of different variants compare by their variants. -/
theorem cmp_of_index_ne {a b : CanonicalValue} (h : variantIndex a ≠ variantIndex b) :
    cmp a b = compare (variantIndex a) (variantIndex b) := by
  cases a <;> cases b <;> first | exact (h rfl).elim | simp [cmp]

mutual

theorem cmp_self : ∀ a : CanonicalValue, cmp a a = .eq
  | .unit => by simp [cmp]
  | .string a => by simp [cmp]
  | .bool a => by simp [cmp]
  | .integer a => by simp [cmp]
  | .float a => by simp [cmp, F64Value.cmp_self]
  | .bytes a => by simp [cmp]
  | .list as => by simp [cmp, cmpList_self as]
  | .tuple as => by simp [cmp, cmpList_self as]
  | .map as => by simp [cmp, cmpEntries_self as]
  | .orderedMap as => by simp [cmp, cmpEntries_self as]
  | .record as => by simp [cmp, cmpFields_self as]
  | .variant n a => by simp [cmp, cmp_self a]

theorem cmpList_self : ∀ as : List CanonicalValue, cmpList as as = .eq
  | [] => rfl
  | a :: as => by simp [cmpList, cmp_self a, cmpList_self as]

theorem cmpEntries_self : ∀ as : List (CanonicalValue × CanonicalValue), cmpEntries as as = .eq
  | [] => rfl
  | (k, a) :: as => by simp [cmpEntries, cmp_self k, cmp_self a, cmpEntries_self as]

theorem cmpFields_self : ∀ as : List (String × CanonicalValue), cmpFields as as = .eq
  | [] => rfl
  | (k, a) :: as => by simp [cmpFields, cmp_self a, cmpFields_self as]

end

theorem cmp_swap_of_index_ne {a b : CanonicalValue} (h : variantIndex a ≠ variantIndex b) :
    cmp a b = (cmp b a).swap := by
  rw [cmp_of_index_ne h, cmp_of_index_ne (Ne.symm h), ← Std.OrientedCmp.eq_swap]

mutual

theorem cmp_swap (a b : CanonicalValue) : cmp a b = (cmp b a).swap := by
  by_cases h : variantIndex a = variantIndex b
  · cases a <;> cases b <;> try (cases h; done)
    case unit.unit => rfl
    case string.string => exact Std.OrientedOrd.eq_swap
    case bool.bool => exact Std.OrientedOrd.eq_swap
    case integer.integer => exact Std.OrientedOrd.eq_swap
    case float.float => exact F64Value.cmp_swap _ _
    case bytes.bytes => exact Std.OrientedOrd.eq_swap
    case list.list as bs => exact cmpList_swap as bs
    case tuple.tuple as bs => exact cmpList_swap as bs
    case map.map as bs => exact cmpEntries_swap as bs
    case orderedMap.orderedMap as bs => exact cmpEntries_swap as bs
    case record.record as bs => exact cmpFields_swap as bs
    case variant.variant n a m b =>
      rw [cmp, cmp, Ordering.swap_then, ← Std.OrientedCmp.eq_swap, cmp_swap a b]
  · exact cmp_swap_of_index_ne h

theorem cmpList_swap (as bs : List CanonicalValue) : cmpList as bs = (cmpList bs as).swap := by
  cases as with
  | nil => cases bs <;> rfl
  | cons a as =>
    cases bs with
    | nil => rfl
    | cons b bs => rw [cmpList, cmpList, Ordering.swap_then, cmp_swap a b, cmpList_swap as bs]

theorem cmpEntries_swap (as bs : List (CanonicalValue × CanonicalValue)) :
    cmpEntries as bs = (cmpEntries bs as).swap := by
  match as, bs with
  | [], [] => rfl
  | [], _ :: _ => rfl
  | _ :: _, [] => rfl
  | (k, a) :: as, (l, b) :: bs =>
    rw [cmpEntries, cmpEntries, Ordering.swap_then, Ordering.swap_then, cmp_swap k l,
      cmp_swap a b, cmpEntries_swap as bs]

theorem cmpFields_swap (as bs : List (String × CanonicalValue)) :
    cmpFields as bs = (cmpFields bs as).swap := by
  match as, bs with
  | [], [] => rfl
  | [], _ :: _ => rfl
  | _ :: _, [] => rfl
  | (k, a) :: as, (l, b) :: bs =>
    rw [cmpFields, cmpFields, Ordering.swap_then, Ordering.swap_then, ← Std.OrientedCmp.eq_swap,
      cmp_swap a b, cmpFields_swap as bs]

end

theorem index_eq_of_cmp {a b : CanonicalValue} (h : cmp a b = .eq) :
    variantIndex a = variantIndex b := by
  by_contra hne
  rw [cmp_of_index_ne hne] at h
  exact hne (Std.LawfulEqOrd.eq_of_compare h)

mutual

theorem eq_of_cmp : ∀ {a b : CanonicalValue}, cmp a b = .eq → a = b := by
  intro a b h
  have hindex := index_eq_of_cmp h
  cases a <;> cases b <;> try (cases hindex; done)
  case unit.unit => rfl
  case string.string => exact congrArg _ (Std.LawfulEqOrd.eq_of_compare h)
  case bool.bool => exact congrArg _ (Std.LawfulEqOrd.eq_of_compare h)
  case integer.integer => exact congrArg _ (Std.LawfulEqOrd.eq_of_compare h)
  case float.float => exact congrArg _ (F64Value.eq_of_cmp h)
  case bytes.bytes => exact congrArg _ (Std.LawfulEqOrd.eq_of_compare h)
  case list.list as bs => exact congrArg _ (eq_of_cmpList h)
  case tuple.tuple as bs => exact congrArg _ (eq_of_cmpList h)
  case map.map as bs => exact congrArg _ (eq_of_cmpEntries h)
  case orderedMap.orderedMap as bs => exact congrArg _ (eq_of_cmpEntries h)
  case record.record as bs => exact congrArg _ (eq_of_cmpFields h)
  case variant.variant n a m b =>
    rw [cmp, Ordering.then_eq_eq] at h
    rw [Std.LawfulEqOrd.eq_of_compare h.1, eq_of_cmp h.2]

theorem eq_of_cmpList {as bs : List CanonicalValue} (h : cmpList as bs = .eq) : as = bs := by
  match as, bs with
  | [], [] => rfl
  | [], _ :: _ => cases h
  | _ :: _, [] => cases h
  | a :: as, b :: bs =>
    rw [cmpList, Ordering.then_eq_eq] at h
    rw [eq_of_cmp h.1, eq_of_cmpList h.2]

theorem eq_of_cmpEntries {as bs : List (CanonicalValue × CanonicalValue)}
    (h : cmpEntries as bs = .eq) : as = bs := by
  match as, bs with
  | [], [] => rfl
  | [], _ :: _ => cases h
  | _ :: _, [] => cases h
  | (k, a) :: as, (l, b) :: bs =>
    rw [cmpEntries, Ordering.then_eq_eq, Ordering.then_eq_eq] at h
    rw [eq_of_cmp h.1.1, eq_of_cmp h.1.2, eq_of_cmpEntries h.2]

theorem eq_of_cmpFields {as bs : List (String × CanonicalValue)}
    (h : cmpFields as bs = .eq) : as = bs := by
  match as, bs with
  | [], [] => rfl
  | [], _ :: _ => cases h
  | _ :: _, [] => cases h
  | (k, a) :: as, (l, b) :: bs =>
    rw [cmpFields, Ordering.then_eq_eq, Ordering.then_eq_eq] at h
    rw [Std.LawfulEqOrd.eq_of_compare h.1.1, eq_of_cmp h.1.2, eq_of_cmpFields h.2]

end

theorem cmp_lt_trans_of_index_ne {a b c : CanonicalValue} (hab : cmp a b = .lt)
    (hbc : cmp b c = .lt)
    (hne : variantIndex a ≠ variantIndex b ∨ variantIndex b ≠ variantIndex c) :
    cmp a c = .lt := by
  have hle : ∀ {x y : CanonicalValue}, cmp x y = .lt → variantIndex x ≤ variantIndex y := by
    intro x y h
    by_cases hxy : variantIndex x = variantIndex y
    · exact hxy.le
    · rw [cmp_of_index_ne hxy, Nat.compare_eq_lt] at h
      exact h.le
  have hab' := hle hab
  have hbc' := hle hbc
  have hlt : variantIndex a < variantIndex c := by omega
  rw [cmp_of_index_ne (by omega), Nat.compare_eq_lt]
  exact hlt

theorem lt_trans_compare {α : Type*} [Ord α] [Std.TransOrd α] {a b c : α}
    (hab : compare a b = .lt) (hbc : compare b c = .lt) : compare a c = .lt :=
  Std.TransCmp.lt_trans hab hbc

mutual

theorem cmp_lt_trans (a b c : CanonicalValue) (hab : cmp a b = .lt) (hbc : cmp b c = .lt) :
    cmp a c = .lt := by
  by_cases hleft : variantIndex a = variantIndex b
  · by_cases hright : variantIndex b = variantIndex c
    · cases a <;> cases b <;> try (cases hleft; done)
      all_goals cases c <;> try (cases hright; done)
      case unit.unit.unit => cases hab
      case string.string.string => exact lt_trans_compare hab hbc
      case bool.bool.bool => exact lt_trans_compare hab hbc
      case integer.integer.integer => exact lt_trans_compare hab hbc
      case float.float.float => exact F64Value.cmp_lt_trans hab hbc
      case bytes.bytes.bytes => exact lt_trans_compare hab hbc
      case list.list.list as bs cs => exact cmpList_lt_trans as bs cs hab hbc
      case tuple.tuple.tuple as bs cs => exact cmpList_lt_trans as bs cs hab hbc
      case map.map.map as bs cs => exact cmpEntries_lt_trans as bs cs hab hbc
      case orderedMap.orderedMap.orderedMap as bs cs => exact cmpEntries_lt_trans as bs cs hab hbc
      case record.record.record as bs cs => exact cmpFields_lt_trans as bs cs hab hbc
      case variant.variant.variant n a m b l c =>
        refine then_lt_trans (fun h h' => Std.TransCmp.lt_trans h h') ?_ ?_
          (cmp_lt_trans a b c) hab hbc
        · intro h
          rw [Std.LawfulEqOrd.eq_of_compare h]
        · intro h
          rw [Std.LawfulEqOrd.eq_of_compare h]
    · exact cmp_lt_trans_of_index_ne hab hbc (.inr hright)
  · exact cmp_lt_trans_of_index_ne hab hbc (.inl hleft)

theorem cmpList_lt_trans (as bs cs : List CanonicalValue) (hab : cmpList as bs = .lt)
    (hbc : cmpList bs cs = .lt) : cmpList as cs = .lt := by
  match as, bs, cs with
  | _, [], [] => cases hbc
  | [], _, _ :: _ => rfl
  | _, _ :: _, [] => cases hbc
  | _ :: _, [], _ => cases hab
  | a :: as, b :: bs, c :: cs =>
    refine then_lt_trans (cmp_lt_trans a b c) ?_ ?_ (cmpList_lt_trans as bs cs) hab hbc
    · intro h
      rw [eq_of_cmp h]
    · intro h
      rw [eq_of_cmp h]

theorem cmpEntries_lt_trans (as bs cs : List (CanonicalValue × CanonicalValue))
    (hab : cmpEntries as bs = .lt) (hbc : cmpEntries bs cs = .lt) : cmpEntries as cs = .lt := by
  match as, bs, cs with
  | _, [], [] => cases hbc
  | [], _, _ :: _ => rfl
  | _, _ :: _, [] => cases hbc
  | _ :: _, [], _ => cases hab
  | (k, a) :: as, (l, b) :: bs, (m, c) :: cs =>
    refine then_lt_trans (then_lt_trans (cmp_lt_trans k l m) ?_ ?_ (cmp_lt_trans a b c)) ?_ ?_
      (cmpEntries_lt_trans as bs cs) hab hbc
    · intro h
      rw [eq_of_cmp h]
    · intro h
      rw [eq_of_cmp h]
    · intro h
      rw [Ordering.then_eq_eq] at h
      rw [eq_of_cmp h.1, eq_of_cmp h.2]
    · intro h
      rw [Ordering.then_eq_eq] at h
      rw [eq_of_cmp h.1, eq_of_cmp h.2]

theorem cmpFields_lt_trans (as bs cs : List (String × CanonicalValue))
    (hab : cmpFields as bs = .lt) (hbc : cmpFields bs cs = .lt) : cmpFields as cs = .lt := by
  match as, bs, cs with
  | _, [], [] => cases hbc
  | [], _, _ :: _ => rfl
  | _, _ :: _, [] => cases hbc
  | _ :: _, [], _ => cases hab
  | (k, a) :: as, (l, b) :: bs, (m, c) :: cs =>
    refine then_lt_trans (then_lt_trans (fun h h' => Std.TransCmp.lt_trans h h') ?_ ?_
      (cmp_lt_trans a b c)) ?_ ?_ (cmpFields_lt_trans as bs cs) hab hbc
    · intro h
      rw [Std.LawfulEqOrd.eq_of_compare h]
    · intro h
      rw [Std.LawfulEqOrd.eq_of_compare h]
    · intro h
      rw [Ordering.then_eq_eq] at h
      rw [Std.LawfulEqOrd.eq_of_compare h.1, eq_of_cmp h.2]
    · intro h
      rw [Ordering.then_eq_eq] at h
      rw [Std.LawfulEqOrd.eq_of_compare h.1, eq_of_cmp h.2]

end

instance : Ord CanonicalValue := ⟨cmp⟩

instance : Std.TransOrd CanonicalValue where
  eq_swap := cmp_swap _ _
  isLE_trans {a b c} hab hbc := by
    change (cmp a b).isLE = true at hab
    change (cmp b c).isLE = true at hbc
    change (cmp a c).isLE = true
    rw [Ordering.isLE_iff_eq_lt_or_eq_eq] at hab hbc ⊢
    rcases hab with hab | hab
    · rcases hbc with hbc | hbc
      · exact .inl (cmp_lt_trans a b c hab hbc)
      · exact eq_of_cmp hbc ▸ .inl hab
    · exact eq_of_cmp hab ▸ hbc

instance : Std.LawfulEqOrd CanonicalValue where
  compare_self := cmp_self _
  eq_of_compare := eq_of_cmp

instance : DecidableEq CanonicalValue := fun _ _ =>
  decidable_of_iff _ Std.LawfulEqOrd.compare_eq_iff_eq

/-- The stable sort of a slice of canonical values. -/
def sort (values : List CanonicalValue) : List CanonicalValue :=
  values.mergeSort fun a b => (compare a b).isLE

theorem sort_perm (values : List CanonicalValue) : (sort values).Perm values :=
  List.mergeSort_perm values _

/-- Sorting keeps exactly the multiplicities: equal results come from permuted inputs. -/
theorem sort_eq_iff_perm {left right : List CanonicalValue} :
    sort left = sort right ↔ left.Perm right := by
  have htrans : ∀ a b c : CanonicalValue, (compare a b).isLE = true →
      (compare b c).isLE = true → (compare a c).isLE = true :=
    fun _ _ _ hab hbc => Std.TransCmp.isLE_trans hab hbc
  have htotal : ∀ a b : CanonicalValue, ((compare a b).isLE || (compare b a).isLE) = true := by
    intro a b
    have hswap : compare b a = (compare a b).swap := Std.OrientedOrd.eq_swap
    rw [hswap]
    cases compare a b <;> rfl
  constructor
  · intro h
    exact (sort_perm left).symm.trans (h ▸ sort_perm right)
  · intro h
    have hperm : (sort left).Perm (sort right) :=
      (sort_perm left).trans (h.trans (sort_perm right).symm)
    refine List.Perm.eq_of_pairwise (fun a b _ _ hab hba => ?_)
      (List.pairwise_mergeSort htrans htotal left)
      (List.pairwise_mergeSort htrans htotal right) hperm
    exact Std.LawfulEqOrd.eq_of_compare (Std.OrientedCmp.isLE_antisymm hab hba)

end SpecGate.CanonicalOrder

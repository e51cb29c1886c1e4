import SpecGate.ClrValues
import SpecGate.ValueOrder

/-!
The comparison of C# values is a total order whose equality is equality, whatever their texts
hold. Where every surrogate has its partner it is the order of the values' counterparts in the
capture runtime, so both runtimes list the elements of a set and the entries of a map alike.
-/
namespace SpecGate.ClrOrder

open ClrValues SidecarValues NativeOrder ValueOrder
open ClrValues (Value Increasing compareValue native natives nativeEntries)
open Values (CanonicalValue)

/-! ### Texts -/

/-- The units of a code point; a surrogate alone stands for itself. -/
def unitsOf (code : Nat) : List UInt16 :=
  if code < 0x10000 then [UInt16.ofNat code]
  else [UInt16.ofNat (0xD800 + (code - 0x10000) / 0x400),
    UInt16.ofNat (0xDC00 + (code - 0x10000) % 0x400)]

theorem unitsOf_unit (unit : UInt16) : unitsOf unit.toNat = [unit] := by
  have hlt : unit.toNat < 0x10000 := unit.toNat_lt
  rw [unitsOf, if_pos hlt, UInt16.ofNat_toNat]

theorem unitsOf_pair {high low : UInt16} (hhigh : Utf16.isHigh high = true)
    (hlow : Utf16.isLow low = true) : unitsOf (Utf16.pairCode high low) = [high, low] := by
  unfold Utf16.isHigh at hhigh
  unfold Utf16.isLow at hlow
  rw [decide_eq_true_iff] at hhigh hlow
  have hlarge : ¬ Utf16.pairCode high low < 0x10000 := by
    unfold Utf16.pairCode
    omega
  have hdiv : 0xD800 + (Utf16.pairCode high low - 0x10000) / 0x400 = high.toNat := by
    unfold Utf16.pairCode
    omega
  have hmod : 0xDC00 + (Utf16.pairCode high low - 0x10000) % 0x400 = low.toNat := by
    unfold Utf16.pairCode
    omega
  rw [unitsOf, if_neg hlarge, hdiv, hmod, UInt16.ofNat_toNat, UInt16.ofNat_toNat]

/-- A text is known from its code points, even with surrogates that have no partner. -/
theorem flatMap_codePoints (text : List UInt16) : (codePoints text).flatMap unitsOf = text := by
  induction text using codePoints.induct with
  | case1 => rfl
  | case2 unit =>
    rw [codePoints, List.flatMap_cons, unitsOf_unit]
    rfl
  | case3 first second rest hpair ih =>
    obtain ⟨hhigh, hlow⟩ := Bool.and_eq_true_iff.mp hpair
    rw [codePoints, if_pos hpair, List.flatMap_cons, unitsOf_pair hhigh hlow, ih]
    rfl
  | case4 first second rest hpair ih =>
    rw [codePoints, if_neg hpair, List.flatMap_cons, unitsOf_unit, ih]
    rfl

theorem codePoints_injective : Function.Injective codePoints := by
  intro left right h
  rw [← flatMap_codePoints left, h, flatMap_codePoints]

/-! ### Values in the order of canonical values -/

/-- A text by its code points. -/
def placeKey (text : List UInt16) : CanonicalValue :=
  .list ((codePoints text).map fun code : Nat => .integer code)

mutual

def place : Value → CanonicalValue
  | .bool value => ranked 0 (.bool value)
  | .integer value => ranked 1 (.integer value.toInt)
  | .unsigned value => ranked 2 (.integer value.toNat)
  | .float bits => ranked 3 (.integer (totalRank bits))
  | .string value => ranked 4 (placeKey value)
  | .list values => ranked 5 (.list (placeAll values))
  | .set values => ranked 6 (.list (placeAll values))
  | .map entries => ranked 7 (.map (placeEntries entries))
termination_by structural value => value

def placeAll : List Value → List CanonicalValue
  | [] => []
  | value :: rest => place value :: placeAll rest
termination_by structural values => values

def placeEntries : List (List UInt16 × Value) → List (CanonicalValue × CanonicalValue)
  | [] => []
  | (key, value) :: rest => (placeKey key, place value) :: placeEntries rest
termination_by structural entries => entries

end

theorem compareCodes_place (lefts rights : List Nat) :
    compareCodes lefts rights = CanonicalOrder.cmpList
      (lefts.map fun code : Nat => .integer code) (rights.map fun code : Nat => .integer code) := by
  induction lefts generalizing rights with
  | nil => cases rights <;> rfl
  | cons left lefts ih =>
    cases rights with
    | nil => rfl
    | cons right rights =>
      rw [compareCodes, ih, compare_natCast]
      rfl

theorem compareKeys_place (left right : List UInt16) :
    compareKeys left right = CanonicalOrder.cmp (placeKey left) (placeKey right) :=
  compareCodes_place _ _

mutual

/-- The order of C# values is the order of their places. -/
theorem compareValue_place : ∀ left right : Value,
    compareValue left right = CanonicalOrder.cmp (place left) (place right)
  | .bool left, right => by
      cases right with
      | bool right => exact (cmp_ranked 0 (.bool left) (.bool right)).symm
      | _ => rfl
  | .integer left, right => by
      cases right with
      | integer right => exact (cmp_ranked 1 (.integer left.toInt) (.integer right.toInt)).symm
      | _ => rfl
  | .unsigned left, right => by
      cases right with
      | unsigned right =>
        exact (compare_natCast _ _).trans
          (cmp_ranked 2 (.integer left.toNat) (.integer right.toNat)).symm
      | _ => rfl
  | .float left, right => by
      cases right with
      | float right =>
        exact (compareFloatBits_eq left right).trans
          (cmp_ranked 3 (.integer (totalRank left)) (.integer (totalRank right))).symm
      | _ => rfl
  | .string left, right => by
      cases right with
      | string right =>
        exact (compareKeys_place left right).trans
          (cmp_ranked 4 (placeKey left) (placeKey right)).symm
      | _ => rfl
  | .list lefts, right => by
      cases right with
      | list rights =>
        exact (compareSequences_place lefts rights).trans
          (cmp_ranked 5 (.list (placeAll lefts)) (.list (placeAll rights))).symm
      | _ => rfl
  | .set lefts, right => by
      cases right with
      | set rights =>
        exact (compareSequences_place lefts rights).trans
          (cmp_ranked 6 (.list (placeAll lefts)) (.list (placeAll rights))).symm
      | _ => rfl
  | .map lefts, right => by
      cases right with
      | map rights =>
        exact (compareMaps_place lefts rights).trans
          (cmp_ranked 7 (.map (placeEntries lefts)) (.map (placeEntries rights))).symm
      | _ => rfl
termination_by structural left => left

theorem compareSequences_place : ∀ lefts rights : List Value,
    compareSequences lefts rights = CanonicalOrder.cmpList (placeAll lefts) (placeAll rights)
  | [], [] | [], _ :: _ | _ :: _, [] => rfl
  | left :: lefts, right :: rights => by
      have hhead := compareValue_place left right
      have htail := compareSequences_place lefts rights
      change (compareValue left right).then (compareSequences lefts rights) = _
      rw [hhead, htail]
      rfl
termination_by structural lefts => lefts

theorem compareMaps_place : ∀ lefts rights : List (List UInt16 × Value),
    compareMaps lefts rights =
      CanonicalOrder.cmpEntries (placeEntries lefts) (placeEntries rights)
  | [], [] | [], _ :: _ | _ :: _, [] => rfl
  | (leftKey, left) :: lefts, (rightKey, right) :: rights => by
      have hkey := compareKeys_place leftKey rightKey
      have hhead := compareValue_place left right
      have htail := compareMaps_place lefts rights
      change ((compareKeys leftKey rightKey).then (compareValue left right)).then
        (compareMaps lefts rights) = _
      rw [hkey, hhead, htail]
      rfl
termination_by structural lefts => lefts

end

theorem placeKey_injective : Function.Injective placeKey := by
  intro left right h
  unfold placeKey at h
  have hinjective : Function.Injective fun code : Nat => CanonicalValue.integer code :=
    fun _ _ hcode => Int.ofNat.inj (CanonicalValue.integer.inj hcode)
  exact codePoints_injective (List.map_injective_iff.mpr hinjective (CanonicalValue.list.inj h))

mutual

theorem place_injective : ∀ {left right : Value}, place left = place right → left = right
  | .bool left, right, h => by
      cases right with
      | bool right =>
        have hcontent := (ranked_inj h).2
        exact congrArg _ (CanonicalValue.bool.inj hcontent)
      | _ => exact absurd (ranked_inj h).1 (by decide)
  | .integer left, right, h => by
      cases right with
      | integer right =>
        have hcontent := (ranked_inj h).2
        exact congrArg _ (Int64.toInt_inj.mp (CanonicalValue.integer.inj hcontent))
      | _ => exact absurd (ranked_inj h).1 (by decide)
  | .unsigned left, right, h => by
      cases right with
      | unsigned right =>
        have hcontent := (ranked_inj h).2
        exact congrArg _ (UInt64.toNat_inj.mp (Int.ofNat.inj (CanonicalValue.integer.inj hcontent)))
      | _ => exact absurd (ranked_inj h).1 (by decide)
  | .float left, right, h => by
      cases right with
      | float right =>
        have hcontent := (ranked_inj h).2
        exact congrArg _ (totalRank_injective (CanonicalValue.integer.inj hcontent))
      | _ => exact absurd (ranked_inj h).1 (by decide)
  | .string left, right, h => by
      cases right with
      | string right => exact congrArg _ (placeKey_injective (ranked_inj h).2)
      | _ => exact absurd (ranked_inj h).1 (by decide)
  | .list lefts, right, h => by
      cases right with
      | list rights =>
        have hcontent := (ranked_inj h).2
        exact congrArg _ (placeAll_injective (CanonicalValue.list.inj hcontent))
      | _ => exact absurd (ranked_inj h).1 (by decide)
  | .set lefts, right, h => by
      cases right with
      | set rights =>
        have hcontent := (ranked_inj h).2
        exact congrArg _ (placeAll_injective (CanonicalValue.list.inj hcontent))
      | _ => exact absurd (ranked_inj h).1 (by decide)
  | .map lefts, right, h => by
      cases right with
      | map rights =>
        have hcontent := (ranked_inj h).2
        exact congrArg _ (placeEntries_injective (CanonicalValue.map.inj hcontent))
      | _ => exact absurd (ranked_inj h).1 (by decide)
termination_by structural left => left

theorem placeAll_injective : ∀ {lefts rights : List Value},
    placeAll lefts = placeAll rights → lefts = rights
  | [], [], _ => rfl
  | [], _ :: _, h | _ :: _, [], h => nomatch h
  | left :: lefts, right :: rights, h => by
      obtain ⟨hhead, htail⟩ := List.cons.inj h
      rw [place_injective hhead, placeAll_injective htail]
termination_by structural lefts => lefts

theorem placeEntries_injective : ∀ {lefts rights : List (List UInt16 × Value)},
    placeEntries lefts = placeEntries rights → lefts = rights
  | [], [], _ => rfl
  | [], _ :: _, h | _ :: _, [], h => nomatch h
  | (leftKey, left) :: lefts, (rightKey, right) :: rights, h => by
      obtain ⟨hhead, htail⟩ := List.cons.inj h
      obtain ⟨hkey, hvalue⟩ := Prod.mk.inj hhead
      rw [placeKey_injective hkey, place_injective hvalue, placeEntries_injective htail]
termination_by structural lefts => lefts

end

instance : Ord Value := ⟨compareValue⟩

theorem compare_place (left right : Value) : compare left right = compare (place left) (place right) :=
  compareValue_place left right

instance : Std.TransOrd Value where
  eq_swap {left right} := by
    rw [compare_place, compare_place]
    exact Std.OrientedOrd.eq_swap
  isLE_trans {first second third} := by
    rw [compare_place, compare_place, compare_place]
    exact Std.TransCmp.isLE_trans

instance : Std.LawfulEqOrd Value where
  compare_self {value} := by
    rw [compare_place]
    exact Std.ReflOrd.compare_self
  eq_of_compare {left right} h := by
    rw [compare_place] at h
    exact place_injective (Std.LawfulEqOrd.eq_of_compare h)

/-! ### Sets -/

section Sets

/-- The elements of a set after sorting. -/
structure Sorts (items sorted : List Value) : Prop where
  perm : sorted.Perm items
  ordered : sorted.Pairwise fun first second => (compareValue first second).isLE = true

/-- The elements behind the last one kept, without those that equal the one kept before. -/
def keepAfter (last : Value) : List Value → List Value
  | [] => []
  | value :: rest =>
      if compareValue last value = .eq then keepAfter last rest else value :: keepAfter value rest

def keepDistinct : List Value → List Value
  | [] => []
  | value :: rest => value :: keepAfter value rest

theorem mem_keepAfter {last value : Value} {values : List Value} :
    value ∈ last :: keepAfter last values ↔ value ∈ last :: values := by
  induction values generalizing last with
  | nil => rfl
  | cons first rest ih =>
    rw [keepAfter]
    by_cases heq : compareValue last first = .eq
    · obtain rfl : last = first := Std.LawfulEqOrd.eq_of_compare heq
      rw [if_pos heq, ih, List.mem_cons, List.mem_cons, List.mem_cons]
      tauto
    · rw [if_neg heq, List.mem_cons, ih, ← List.mem_cons]

theorem increasing_keepAfter {last : Value} {values : List Value}
    (h : (last :: values).Pairwise fun first second => (compareValue first second).isLE = true) :
    Increasing (last :: keepAfter last values) := by
  induction values generalizing last with
  | nil => exact List.pairwise_singleton _ _
  | cons first rest ih =>
    obtain ⟨hlast, hrest⟩ := List.pairwise_cons.mp h
    rw [keepAfter]
    by_cases heq : compareValue last first = .eq
    · rw [if_pos heq]
      have hshort : (last :: rest).Sublist (last :: first :: rest) :=
        (List.sublist_cons_self first rest).cons_cons last
      exact ih (h.sublist hshort)
    · rw [if_neg heq]
      refine List.pairwise_cons.mpr ⟨fun second hsecond => ?_, ih hrest⟩
      have hlt : compare last first = .lt := by
        rcases Ordering.isLE_iff_eq_lt_or_eq_eq.mp (hlast first List.mem_cons_self) with hlt | heq'
        · exact hlt
        · exact absurd heq' heq
      have hnext : compare last second = .lt := by
        rcases List.mem_cons.mp (mem_keepAfter.mp hsecond) with rfl | hlater
        · exact hlt
        · exact Std.TransCmp.lt_of_lt_of_isLE hlt ((List.pairwise_cons.mp hrest).1 second hlater)
      have hgt : compare second last = .gt := Std.OrientedCmp.gt_of_lt hnext
      exact hgt

theorem mem_keepDistinct {value : Value} {values : List Value} :
    value ∈ keepDistinct values ↔ value ∈ values := by
  cases values with
  | nil => rfl
  | cons first rest => exact mem_keepAfter

theorem increasing_keepDistinct {items sorted : List Value} (h : Sorts items sorted) :
    Increasing (keepDistinct sorted) := by
  have hordered := h.ordered
  cases sorted with
  | nil => exact List.Pairwise.nil
  | cons first rest => exact increasing_keepAfter hordered

theorem mem_found {values : List Value} {found : List NativeValue}
    (h : natives values = some found) {result : NativeValue} :
    result ∈ found ↔ ∃ value ∈ values, native value = some result := by
  have hrelated := mem_natives h
  constructor
  · exact fun hresult => Checked.exists_left_of_forall₂ hrelated hresult
  · rintro ⟨value, hvalue, hnative⟩
    obtain ⟨other, hother, hfound⟩ := Checked.exists_right_of_forall₂ hrelated hvalue
    obtain rfl := Option.some.inj (hnative.symm.trans hfound)
    exact hother

theorem exists_natives {values : List Value}
    (h : ∀ value ∈ values, ∃ result, native value = some result) :
    ∃ found, natives values = some found := by
  induction values with
  | nil => exact ⟨[], rfl⟩
  | cons value rest ih =>
    obtain ⟨first, hfirst⟩ := h value List.mem_cons_self
    obtain ⟨others, hothers⟩ := ih fun other hother => h other (List.mem_cons_of_mem _ hother)
    exact ⟨first :: others, by rw [natives, hfirst, Option.bind_some, hothers, Option.map_some]⟩

/-- A set holds the same elements in the same order on both sides. -/
theorem natives_keepDistinct {items sorted : List Value} {found : List NativeValue}
    (hsorts : Sorts items sorted) (h : natives items = some found) :
    natives (keepDistinct sorted) = some (collectSet found) := by
  have hmem : ∀ {value : Value}, value ∈ keepDistinct sorted ↔ value ∈ items := fun {value} =>
    mem_keepDistinct.trans hsorts.perm.mem_iff
  obtain ⟨kept, hkept⟩ := @exists_natives (keepDistinct sorted) fun value hvalue => by
    obtain ⟨result, -, hresult⟩ :=
      Checked.exists_right_of_forall₂ (mem_natives h) (hmem.mp hvalue)
    exact ⟨result, hresult⟩
  have hcollect := collectSet_spec found
  have hincreasing := increasing_native (increasing_keepDistinct hsorts) hkept
  rw [hkept, eq_of_increasing hincreasing hcollect.1 fun result => ?_]
  rw [mem_found hkept, hcollect.2, mem_found h]
  simp only [hmem]

end Sets

/-! ### Maps -/

section Maps

/-- Put a value under a key, in place of the one that is there. -/
def setEntry (key : List UInt16) (value : Value) :
    List (List UInt16 × Value) → List (List UInt16 × Value)
  | [] => [(key, value)]
  | (first, held) :: rest =>
      match compareKeys key first with
      | .lt => (key, value) :: (first, held) :: rest
      | .eq => (first, value) :: rest
      | .gt => (first, held) :: setEntry key value rest

/-- The entries of a map in the order of their keys; later values replace earlier ones. -/
def collectMap (entries : List (List UInt16 × Value)) : List (List UInt16 × Value) :=
  entries.foldl (fun map entry => setEntry entry.1 entry.2 map) []

theorem nativeEntries_cons_eq {key : List UInt16} {value : Value}
    {rest : List (List UInt16 × Value)} {name : String} {result : NativeValue}
    {others : List (String × NativeValue)} (hkey : Utf16.text key = some name)
    (hvalue : native value = some result) (hrest : nativeEntries rest = some others) :
    nativeEntries ((key, value) :: rest) = some ((name, result) :: others) := by
  rw [nativeEntries, hkey, Option.bind_some, hvalue, Option.bind_some, hrest, Option.map_some]

theorem nativeEntries_setEntry {key : List UInt16} {value : Value} {name : String}
    {result : NativeValue} (hkey : Utf16.text key = some name)
    (hvalue : native value = some result) {map : List (List UInt16 × Value)}
    {held : List (String × NativeValue)} (h : nativeEntries map = some held) :
    nativeEntries (setEntry key value map) = some (SortedAssoc.insert name result held) := by
  induction map generalizing held with
  | nil =>
    obtain rfl := Option.some.inj h
    exact nativeEntries_cons_eq hkey hvalue rfl
  | cons entry rest ih =>
    obtain ⟨first, other⟩ := entry
    obtain ⟨firstName, otherResult, others, hfirst, hother, hothers, rfl⟩ := nativeEntries_cons h
    have hcompare := compareKeys_eq hkey hfirst
    rw [setEntry, SortedAssoc.insert, hcompare]
    cases horder : compare name firstName with
    | lt => exact nativeEntries_cons_eq hkey hvalue h
    | eq =>
      obtain rfl := Std.LawfulEqOrd.eq_of_compare horder
      exact nativeEntries_cons_eq hfirst hvalue hothers
    | gt => exact nativeEntries_cons_eq hfirst hother (ih hothers)

/-- A map holds the same entries in the same order on both sides. -/
theorem nativeEntries_collectMap {entries : List (List UInt16 × Value)}
    {found : List (String × NativeValue)} (h : nativeEntries entries = some found) :
    nativeEntries (collectMap entries) = some (SortedAssoc.ofList found) := by
  have hfold : ∀ {rest map : List (List UInt16 × Value)} {others held : List (String × NativeValue)},
      nativeEntries map = some held → nativeEntries rest = some others →
        nativeEntries (rest.foldl (fun map entry => setEntry entry.1 entry.2 map) map) =
          some (others.foldl (fun map entry => SortedAssoc.insert entry.1 entry.2 map) held) := by
    intro rest
    induction rest with
    | nil =>
      intro map others held hmap hothers
      obtain rfl := Option.some.inj hothers
      exact hmap
    | cons entry rest ih =>
      intro map others held hmap hothers
      obtain ⟨name, result, others, hname, hresult, hrest, rfl⟩ := nativeEntries_cons hothers
      rw [List.foldl_cons, List.foldl_cons]
      exact ih (nativeEntries_setEntry hname hresult hmap) hrest
  exact hfold rfl h

end Maps

/-! ### Both runtimes -/

/-- `Value.Compare`, for values that may be missing. -/
def compareNullable : Option Value → Option Value → Ordering
  | none, none => .eq
  | none, some _ => .lt
  | some _, none => .gt
  | some left, some right => compareValue left right

theorem lawful_nullable {α : Type} {cmp : α → α → Ordering} (h : LawfulOrder cmp Eq)
    {nullable : Option α → Option α → Ordering} (hnone : nullable none none = .eq)
    (hleft : ∀ a, nullable none (some a) = .lt) (hright : ∀ a, nullable (some a) none = .gt)
    (hsome : ∀ a b, nullable (some a) (some b) = cmp a b) : LawfulOrder nullable Eq where
  reflexive a := by
    cases a with
    | none => rw [hnone]; rfl
    | some a => rw [hsome]; exact h.reflexive a
  antisymmetric a b hab hba := by
    cases a <;> cases b
    case none.none => rfl
    case none.some b => rw [hright] at hba; cases hba
    case some.none a => rw [hright] at hab; cases hab
    case some.some a b =>
      rw [hsome] at hab hba
      exact congrArg some (h.antisymmetric a b hab hba)
  transitive a b c hab hbc := by
    cases a <;> cases b <;> cases c
    case none.none.none => rw [hnone]; rfl
    case none.none.some c => rw [hleft]; rfl
    case none.some.none b => rw [hnone]; rfl
    case none.some.some b c => rw [hleft]; rfl
    case some.none.none a => exact hab
    case some.none.some a c => rw [hright] at hab; cases hab
    case some.some.none a b => rw [hright] at hbc; cases hbc
    case some.some.some a b c =>
      rw [hsome] at hab hbc ⊢
      exact h.transitive a b c hab hbc
  total a b := by
    cases a <;> cases b
    case none.none => exact .inl (by rw [hnone]; rfl)
    case none.some b => exact .inl (by rw [hleft]; rfl)
    case some.none a => exact .inr (by rw [hleft]; rfl)
    case some.some a b =>
      rw [hsome, hsome]
      exact h.total a b
  mirrored a b := by
    cases a <;> cases b
    case none.none => rw [hnone]; rfl
    case none.some b => rw [hleft, hright]; rfl
    case some.none a => rw [hleft, hright]; rfl
    case some.some a b =>
      rw [hsome, hsome]
      exact h.mirrored a b
  equality a b := by
    cases a <;> cases b
    case none.none => rw [hnone]; simp
    case none.some b => rw [hleft]; simp
    case some.none a => rw [hright]; simp
    case some.some a b =>
      rw [hsome, h.equality, Option.some.injEq]

/-- The comparison of C# values is a total order whose equality is equality. It orders values as
the capture runtime orders their counterparts, and sets and maps are listed alike. -/
theorem runtimes_agree :
    LawfulOrder compareNullable Eq ∧
    (∀ {left right : Value} {first second : NativeValue}, native left = some first →
      native right = some second →
        compareNullable (some left) (some right) = SidecarValues.compareValue first second) ∧
    (∀ {items sorted : List Value} {found : List NativeValue}, Sorts items sorted →
      natives items = some found →
        native (.set (keepDistinct sorted)) = some (.set (collectSet found))) ∧
    (∀ {entries : List (List UInt16 × Value)} {found : List (String × NativeValue)},
      nativeEntries entries = some found →
        native (.map (collectMap entries)) = some (.map (SortedAssoc.ofList found))) := by
  have hlawful : LawfulOrder ClrValues.compareValue Eq := lawfulOrder_compare fun _ _ => Iff.rfl
  refine ⟨lawful_nullable hlawful rfl (fun _ => rfl) (fun _ => rfl) fun _ _ => rfl,
    fun hleft hright => compareValue_eq hleft hright, fun hsorts hitems => ?_, fun hentries => ?_⟩
  · rw [native, natives_keepDistinct hsorts hitems, Option.map_some]
  · rw [native, nativeEntries_collectMap hentries, Option.map_some]

/-- A pair of surrogates comes after the last characters of the basic plane on both sides,
though its units come before theirs. -/
theorem runtimes_agree_surrogates :
    compareNullable (some (.string [0xD800, 0xDC00])) (some (.string [0xE000])) =
        SidecarValues.compareValue (.string (String.ofList [Char.ofNat 0x10000]))
          (.string (String.ofList [Char.ofNat 0xE000])) ∧
      compareNullable (some (.string [0xD800, 0xDC00])) (some (.string [0xE000])) = .gt :=
  ⟨runtimes_agree.2.1 rfl rfl, by decide⟩

end SpecGate.ClrOrder

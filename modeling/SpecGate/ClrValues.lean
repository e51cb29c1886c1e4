import SpecGate.Checked
import SpecGate.SidecarValues
import SpecGate.Utf16

/-!
Values of the C# runtime. They are the values of the capture runtime with text in
sixteen-bit code units; the elements of a set and the entries of a map are kept in the order
of a comparison of their own, which is the order of the capture runtime wherever every
surrogate has its partner.
-/
namespace SpecGate.ClrValues

open SidecarValues SortedAssoc

/-- A semantic value. A floating-point number is kept by its bits. -/
inductive Value where
  | string (value : List UInt16)
  | integer (value : Int64)
  | unsigned (value : UInt64)
  | float (bits : UInt64)
  | bool (value : Bool)
  | list (values : List Value)
  | map (entries : List (List UInt16 × Value))
  | set (values : List Value)

/-! ### Comparison -/

/-- The place of a kind among the kinds. -/
def kindRank : Value → Nat
  | .bool _ => 0
  | .integer _ => 1
  | .unsigned _ => 2
  | .float _ => 3
  | .string _ => 4
  | .list _ => 5
  | .set _ => 6
  | .map _ => 7

/-- The code points of a text; a surrogate without its partner counts as its own unit. -/
def codePoints : List UInt16 → List Nat
  | [] => []
  | [unit] => [unit.toNat]
  | first :: second :: rest =>
      if Utf16.isHigh first && Utf16.isLow second then
        Utf16.pairCode first second :: codePoints rest
      else first.toNat :: codePoints (second :: rest)

def compareCodes : List Nat → List Nat → Ordering
  | [], [] => .eq
  | [], _ :: _ => .lt
  | _ :: _, [] => .gt
  | left :: lefts, right :: rights => (compare left right).then (compareCodes lefts rights)

/-- `Utf8KeyComparer`. -/
def compareKeys (left right : List UInt16) : Ordering :=
  compareCodes (codePoints left) (codePoints right)

/-- The sign bit, spread over the bits below it. -/
def flipBits (bits : Int64) : Int64 := bits ^^^ ((bits >>> 63).toUInt64 >>> 1).toInt64

def compareFloatBits (left right : UInt64) : Ordering :=
  compare (flipBits left.toInt64).toInt (flipBits right.toInt64).toInt

mutual

def compareValue : Value → Value → Ordering
  | .bool left, .bool right => compare left right
  | .integer left, .integer right => compare left.toInt right.toInt
  | .unsigned left, .unsigned right => compare left.toNat right.toNat
  | .float left, .float right => compareFloatBits left right
  | .string left, .string right => compareKeys left right
  | .list left, .list right => compareSequences left right
  | .set left, .set right => compareSequences left right
  | .map left, .map right => compareMaps left right
  | left, right => compare (kindRank left) (kindRank right)
termination_by structural left => left

def compareSequences : List Value → List Value → Ordering
  | [], [] => .eq
  | [], _ :: _ => .lt
  | _ :: _, [] => .gt
  | left :: lefts, right :: rights => (compareValue left right).then (compareSequences lefts rights)
termination_by structural lefts => lefts

def compareMaps : List (List UInt16 × Value) → List (List UInt16 × Value) → Ordering
  | [], [] => .eq
  | [], _ :: _ => .lt
  | _ :: _, [] => .gt
  | (leftKey, left) :: lefts, (rightKey, right) :: rights =>
      ((compareKeys leftKey rightKey).then (compareValue left right)).then
        (compareMaps lefts rights)
termination_by structural lefts => lefts

end

/-! ### Values as they are built -/

/-- The keys of a map, in their order. -/
def KeysIncreasing (keys : List (List UInt16)) : Prop :=
  keys.Pairwise fun first second => compareKeys first second = .lt

/-- The elements of a set, in their order. -/
def Increasing (values : List Value) : Prop :=
  values.Pairwise fun first second => compareValue second first = .gt

mutual

/-- Every set holds its elements in their order, and every map its keys. -/
def Ordered : Value → Prop
  | .string _ | .integer _ | .unsigned _ | .float _ | .bool _ => True
  | .list values => AllOrdered values
  | .map entries => KeysIncreasing (entries.map Prod.fst) ∧ EntriesOrdered entries
  | .set values => Increasing values ∧ AllOrdered values
termination_by structural value => value

def AllOrdered : List Value → Prop
  | [] => True
  | value :: rest => Ordered value ∧ AllOrdered rest
termination_by structural values => values

def EntriesOrdered : List (List UInt16 × Value) → Prop
  | [] => True
  | (_, value) :: rest => Ordered value ∧ EntriesOrdered rest
termination_by structural entries => entries

end

/-! ### Values of the capture runtime -/

mutual

/-- The value of the capture runtime with the same content, if every text has one. -/
def native : Value → Option NativeValue
  | .string value => (Utf16.text value).map .string
  | .integer value => some (.integer value)
  | .unsigned value => some (.unsigned value)
  | .float bits => some (.float bits)
  | .bool value => some (.bool value)
  | .list values => (natives values).map .list
  | .map entries => (nativeEntries entries).map .map
  | .set values => (natives values).map .set
termination_by structural value => value

def natives : List Value → Option (List NativeValue)
  | [] => some []
  | value :: rest => (native value).bind fun value => (natives rest).map (value :: ·)
termination_by structural values => values

def nativeEntries : List (List UInt16 × Value) → Option (List (String × NativeValue))
  | [] => some []
  | (key, value) :: rest => (Utf16.text key).bind fun key => (native value).bind fun value =>
      (nativeEntries rest).map ((key, value) :: ·)
termination_by structural entries => entries

end

/-! ### Floating-point numbers -/

theorem xor_ones {n : Nat} (h : n < 2 ^ 63) : n ^^^ (2 ^ 63 - 1) = 2 ^ 63 - 1 - n := by
  have hnot := @BitVec.toNat_not 63 (BitVec.ofNat 63 n)
  rw [BitVec.not_def, BitVec.toNat_xor, BitVec.toNat_allOnes, BitVec.toNat_ofNat,
    Nat.mod_eq_of_lt h, Nat.xor_comm] at hnot
  exact hnot

theorem mask_of_nonneg {bits : BitVec 64} (h : bits.toNat < 2 ^ 63) :
    bits.sshiftRight 63 >>> 1 = 0#64 := by
  have hmsb : bits.msb = false := by
    rw [BitVec.msb_eq_decide, decide_eq_false_iff_not]
    omega
  rw [BitVec.sshiftRight_eq_of_msb_false hmsb]
  apply BitVec.eq_of_toNat_eq
  rw [BitVec.toNat_ushiftRight, BitVec.toNat_ushiftRight, Nat.shiftRight_eq_div_pow,
    Nat.shiftRight_eq_div_pow, BitVec.toNat_ofNat]
  omega

theorem mask_of_neg {bits : BitVec 64} (h : 2 ^ 63 ≤ bits.toNat) :
    (bits.sshiftRight 63 >>> 1).toNat = 2 ^ 63 - 1 := by
  have hmsb : bits.msb = true := by
    rw [BitVec.msb_eq_decide, decide_eq_true_iff]
    omega
  have hzero : ~~~bits >>> 63 = 0#64 := by
    apply BitVec.eq_of_toNat_eq
    rw [BitVec.toNat_ushiftRight, BitVec.toNat_not, Nat.shiftRight_eq_div_pow, BitVec.toNat_ofNat]
    omega
  rw [BitVec.sshiftRight_eq_of_msb_true hmsb, hzero]
  rfl

/-- The flipped bits are the place in the total order of the format. -/
theorem flipBits_toInt (bits : UInt64) : (flipBits bits.toInt64).toInt = totalRank bits := by
  have hlt := bits.toNat_lt
  have hbits : bits.toInt64.toBitVec.toNat = bits.toNat := rfl
  have hflip : (flipBits bits.toInt64).toBitVec =
      bits.toInt64.toBitVec ^^^ (bits.toInt64.toBitVec.sshiftRight 63 >>> 1) := rfl
  rw [← Int64.toInt_toBitVec, hflip, BitVec.toInt_eq_toNat_cond]
  unfold totalRank
  by_cases h : bits.toNat < 2 ^ 63
  · rw [mask_of_nonneg (hbits ▸ h), BitVec.xor_zero, hbits, if_pos h, if_pos (by omega)]
  · have hnat : (bits.toInt64.toBitVec ^^^
        (bits.toInt64.toBitVec.sshiftRight 63 >>> 1)).toNat =
          2 ^ 64 - 1 - (bits.toNat - 2 ^ 63) := by
      have hdiv := @Nat.xor_div_two_pow bits.toNat (2 ^ 63 - 1) 63
      have hmod := @Nat.xor_mod_two_pow bits.toNat (2 ^ 63 - 1) 63
      have hlow : bits.toNat % 2 ^ 63 = bits.toNat - 2 ^ 63 := by omega
      have hhigh : bits.toNat / 2 ^ 63 = 1 := by omega
      have hmask : (2 ^ 63 - 1) % 2 ^ 63 = 2 ^ 63 - 1 := by norm_num
      have hnone : (2 ^ 63 - 1) / 2 ^ 63 = 0 := by norm_num
      have hones := @xor_ones (bits.toNat - 2 ^ 63) (by omega)
      rw [hlow, hmask, hones] at hmod
      rw [hhigh, hnone, Nat.xor_zero] at hdiv
      rw [BitVec.toNat_xor, mask_of_neg (hbits ▸ Nat.le_of_not_lt h), hbits]
      omega
    rw [if_neg h, hnat, if_neg (by omega)]
    omega

theorem compareFloatBits_eq (left right : UInt64) :
    compareFloatBits left right = compare (totalRank left) (totalRank right) := by
  unfold compareFloatBits
  rw [flipBits_toInt, flipBits_toInt]

/-! ### Keys -/

theorem codePoints_basic {unit : UInt16} (h : Utf16.isSurrogate unit = false)
    (rest : List UInt16) : codePoints (unit :: rest) = unit.toNat :: codePoints rest := by
  cases rest with
  | nil => rfl
  | cons second rest =>
    rw [codePoints, Utf16.not_isHigh h, Bool.false_and, if_neg Bool.false_ne_true]

theorem codePoints_encode (text : List Char) :
    codePoints (Utf16.encode text) = text.map Char.toNat := by
  induction text with
  | nil => rfl
  | cons c rest ih =>
    rw [Utf16.encode_cons, List.map_cons]
    by_cases h : c.toNat < 0x10000
    · obtain ⟨unit, hencode, hunit, hplain⟩ := Utf16.encodeChar_basic h
      rw [hencode, List.singleton_append, codePoints_basic hplain, ih, hunit]
    · obtain ⟨high, low, hencode, hhigh, hlow, hcode⟩ := Utf16.encodeChar_pair h
      rw [hencode, List.cons_append, List.singleton_append, codePoints, hhigh, hlow,
        Bool.and_self, if_pos rfl, ih, hcode]

theorem compareCodes_eq_compare (left right : List Char) :
    compareCodes (left.map Char.toNat) (right.map Char.toNat) =
      compareOfLessAndEq left right := by
  induction left generalizing right with
  | nil =>
    cases right with
    | nil => rfl
    | cons c rest =>
      unfold compareOfLessAndEq
      rw [if_pos (List.nil_lt_cons c rest)]
      rfl
  | cons c rest ih =>
    cases right with
    | nil =>
      unfold compareOfLessAndEq
      rw [if_neg (List.not_lt_nil _), if_neg (List.cons_ne_nil _ _)]
      rfl
    | cons other others =>
      have hchar : ∀ {a b : Char}, a.toNat < b.toNat ↔ a < b := Iff.rfl
      rw [List.map_cons, List.map_cons, compareCodes, ih]
      rcases lt_trichotomy c other with hlt | rfl | hgt
      · rw [Nat.compare_eq_lt.mpr (hchar.mpr hlt)]
        unfold compareOfLessAndEq
        rw [if_pos (List.cons_lt_cons_iff.mpr (.inl hlt))]
        rfl
      · rw [Nat.compare_eq_eq.mpr rfl]
        have hcons : c :: rest < c :: others ↔ rest < others := by
          rw [List.cons_lt_cons_iff]
          exact ⟨fun h => h.elim (fun hlt => absurd hlt (lt_irrefl c)) And.right,
            fun h => .inr ⟨rfl, h⟩⟩
        have heq : c :: rest = c :: others ↔ rest = others :=
          ⟨fun h => (List.cons.inj h).2, congrArg (c :: ·)⟩
        unfold compareOfLessAndEq
        rw [if_congr hcons rfl (if_congr heq rfl rfl)]
        rfl
      · rw [Nat.compare_eq_gt.mpr (hchar.mpr hgt)]
        have hless : ¬ c :: rest < other :: others := by
          rw [List.cons_lt_cons_iff]
          rintro (hlt | ⟨heq, -⟩)
          · exact absurd hlt (lt_asymm hgt)
          · exact absurd heq.symm (ne_of_lt hgt)
        have hne : ¬ c :: rest = other :: others :=
          fun heq => absurd (List.cons.inj heq).1.symm (ne_of_lt hgt)
        unfold compareOfLessAndEq
        rw [if_neg hless, if_neg hne]
        rfl

/-- Keys are ordered like the texts they are. -/
theorem compareKeys_eq {left right : List UInt16} {first second : String}
    (hleft : Utf16.text left = some first) (hright : Utf16.text right = some second) :
    compareKeys left right = compare first second := by
  rw [Utf16.text_eq_some.mp hleft, Utf16.text_eq_some.mp hright]
  unfold compareKeys
  rw [codePoints_encode, codePoints_encode, compareCodes_eq_compare]
  change _ = compareOfLessAndEq first second
  unfold compareOfLessAndEq
  exact if_congr Iff.rfl rfl (if_congr String.toList_inj rfl rfl)

/-! ### The order of the capture runtime -/

theorem native_rank {value : Value} {found : NativeValue} (h : native value = some found) :
    kindRank value = variantRank found := by
  cases value with
  | string _ | list _ | map _ | set _ =>
    obtain ⟨_, -, rfl⟩ := Option.map_eq_some_iff.mp h
    rfl
  | integer _ | unsigned _ | float _ | bool _ =>
    obtain rfl := Option.some.inj h
    rfl

theorem compareValue_of_kinds {left right : Value} (h : kindRank left ≠ kindRank right) :
    compareValue left right = compare (kindRank left) (kindRank right) := by
  cases left <;> cases right <;> first | rfl | exact absurd rfl h

theorem compareValue_of_ranks {left right : NativeValue} (h : variantRank left ≠ variantRank right) :
    SidecarValues.compareValue left right = compare (variantRank left) (variantRank right) := by
  cases left <;> cases right <;> first | rfl | exact absurd rfl h

/-- Values of different kinds are ordered by their kinds on both sides. -/
theorem compare_of_kinds {left right : Value} {first second : NativeValue}
    (hleft : native left = some first) (hright : native right = some second)
    (h : kindRank left ≠ kindRank right) :
    compareValue left right = SidecarValues.compareValue first second := by
  have hranks : variantRank first ≠ variantRank second := by
    rw [← native_rank hleft, ← native_rank hright]
    exact h
  rw [compareValue_of_kinds h, compareValue_of_ranks hranks, native_rank hleft, native_rank hright]

theorem natives_cons {value : Value} {rest : List Value} {found : List NativeValue}
    (h : natives (value :: rest) = some found) :
    ∃ first others, native value = some first ∧ natives rest = some others ∧
      found = first :: others := by
  obtain ⟨first, hfirst, h⟩ := Option.bind_eq_some_iff.mp h
  obtain ⟨others, hothers, rfl⟩ := Option.map_eq_some_iff.mp h
  exact ⟨first, others, hfirst, hothers, rfl⟩

theorem nativeEntries_cons {key : List UInt16} {value : Value} {rest : List (List UInt16 × Value)}
    {found : List (String × NativeValue)} (h : nativeEntries ((key, value) :: rest) = some found) :
    ∃ name first others, Utf16.text key = some name ∧ native value = some first ∧
      nativeEntries rest = some others ∧ found = (name, first) :: others := by
  obtain ⟨name, hname, h⟩ := Option.bind_eq_some_iff.mp h
  obtain ⟨first, hfirst, h⟩ := Option.bind_eq_some_iff.mp h
  obtain ⟨others, hothers, rfl⟩ := Option.map_eq_some_iff.mp h
  exact ⟨name, first, others, hname, hfirst, hothers, rfl⟩

mutual

/-- Two values are ordered like their counterparts in the capture runtime. -/
theorem compareValue_eq : ∀ {left right : Value} {first second : NativeValue},
    native left = some first → native right = some second →
      compareValue left right = SidecarValues.compareValue first second
  | .string left, right, _, _, hleft, hright => by
      cases right with
      | string right =>
        obtain ⟨_, hfirst, rfl⟩ := Option.map_eq_some_iff.mp hleft
        obtain ⟨_, hsecond, rfl⟩ := Option.map_eq_some_iff.mp hright
        exact compareKeys_eq hfirst hsecond
      | _ => exact compare_of_kinds hleft hright (by simp [kindRank])
  | .integer left, right, _, _, hleft, hright => by
      cases right with
      | integer right =>
        obtain rfl := Option.some.inj hleft
        obtain rfl := Option.some.inj hright
        rfl
      | _ => exact compare_of_kinds hleft hright (by simp [kindRank])
  | .unsigned left, right, _, _, hleft, hright => by
      cases right with
      | unsigned right =>
        obtain rfl := Option.some.inj hleft
        obtain rfl := Option.some.inj hright
        rfl
      | _ => exact compare_of_kinds hleft hright (by simp [kindRank])
  | .float left, right, _, _, hleft, hright => by
      cases right with
      | float right =>
        obtain rfl := Option.some.inj hleft
        obtain rfl := Option.some.inj hright
        exact compareFloatBits_eq left right
      | _ => exact compare_of_kinds hleft hright (by simp [kindRank])
  | .bool left, right, _, _, hleft, hright => by
      cases right with
      | bool right =>
        obtain rfl := Option.some.inj hleft
        obtain rfl := Option.some.inj hright
        rfl
      | _ => exact compare_of_kinds hleft hright (by simp [kindRank])
  | .list left, right, _, _, hleft, hright => by
      cases right with
      | list right =>
        obtain ⟨_, hfirst, rfl⟩ := Option.map_eq_some_iff.mp hleft
        obtain ⟨_, hsecond, rfl⟩ := Option.map_eq_some_iff.mp hright
        exact compareSequences_eq hfirst hsecond
      | _ => exact compare_of_kinds hleft hright (by simp [kindRank])
  | .map left, right, _, _, hleft, hright => by
      cases right with
      | map right =>
        obtain ⟨_, hfirst, rfl⟩ := Option.map_eq_some_iff.mp hleft
        obtain ⟨_, hsecond, rfl⟩ := Option.map_eq_some_iff.mp hright
        exact compareMaps_eq hfirst hsecond
      | _ => exact compare_of_kinds hleft hright (by simp [kindRank])
  | .set left, right, _, _, hleft, hright => by
      cases right with
      | set right =>
        obtain ⟨_, hfirst, rfl⟩ := Option.map_eq_some_iff.mp hleft
        obtain ⟨_, hsecond, rfl⟩ := Option.map_eq_some_iff.mp hright
        exact compareSequences_eq hfirst hsecond
      | _ => exact compare_of_kinds hleft hright (by simp [kindRank])
termination_by structural left => left

theorem compareSequences_eq : ∀ {left right : List Value} {first second : List NativeValue},
    natives left = some first → natives right = some second →
      compareSequences left right = compareValues first second
  | [], right, _, _, hleft, hright => by
      obtain rfl := Option.some.inj hleft
      cases right with
      | nil =>
        obtain rfl := Option.some.inj hright
        rfl
      | cons right rights =>
        obtain ⟨_, _, -, -, rfl⟩ := natives_cons hright
        rfl
  | left :: lefts, right, _, _, hleft, hright => by
      obtain ⟨_, _, hfirst, hfirsts, rfl⟩ := natives_cons hleft
      cases right with
      | nil =>
        obtain rfl := Option.some.inj hright
        rfl
      | cons right rights =>
        obtain ⟨_, _, hsecond, hseconds, rfl⟩ := natives_cons hright
        rw [compareSequences, compareValues, compareValue_eq hfirst hsecond,
          compareSequences_eq hfirsts hseconds]
termination_by structural left => left

theorem compareMaps_eq : ∀ {left right : List (List UInt16 × Value)}
    {first second : List (String × NativeValue)}, nativeEntries left = some first →
      nativeEntries right = some second → compareMaps left right = compareEntries first second
  | [], right, _, _, hleft, hright => by
      obtain rfl := Option.some.inj hleft
      cases right with
      | nil =>
        obtain rfl := Option.some.inj hright
        rfl
      | cons right rights =>
        obtain ⟨_, _, _, -, -, -, rfl⟩ := nativeEntries_cons hright
        rfl
  | (_, left) :: lefts, right, _, _, hleft, hright => by
      obtain ⟨_, _, _, hkey, hfirst, hfirsts, rfl⟩ := nativeEntries_cons hleft
      cases right with
      | nil =>
        obtain rfl := Option.some.inj hright
        rfl
      | cons right rights =>
        obtain ⟨_, _, _, hother, hsecond, hseconds, rfl⟩ := nativeEntries_cons hright
        rw [compareMaps, compareEntries, compareKeys_eq hkey hother,
          compareValue_eq hfirst hsecond, compareMaps_eq hfirsts hseconds]
termination_by structural left => left

end

theorem mem_natives {values : List Value} {found : List NativeValue}
    (h : natives values = some found) :
    List.Forall₂ (fun value found => native value = some found) values found := by
  induction values generalizing found with
  | nil =>
    obtain rfl := Option.some.inj h
    exact .nil
  | cons value rest ih =>
    obtain ⟨first, others, hfirst, hothers, rfl⟩ := natives_cons h
    exact .cons hfirst (ih hothers)

theorem increasing_native {values : List Value} {found : List NativeValue}
    (hincreasing : Increasing values) (h : natives values = some found) :
    SidecarValues.Increasing found := by
  induction values generalizing found with
  | nil =>
    obtain rfl := Option.some.inj h
    exact List.Pairwise.nil
  | cons value rest ih =>
    obtain ⟨first, others, hfirst, hothers, rfl⟩ := natives_cons h
    obtain ⟨hhead, htail⟩ := List.pairwise_cons.mp hincreasing
    refine List.pairwise_cons.mpr ⟨fun second hsecond => ?_, ih htail hothers⟩
    obtain ⟨other, hother, hnative⟩ := Checked.exists_left_of_forall₂ (mem_natives hothers) hsecond
    rw [← compareValue_eq hnative hfirst]
    exact hhead other hother

theorem mem_nativeEntries {entries : List (List UInt16 × Value)}
    {found : List (String × NativeValue)} (h : nativeEntries entries = some found) :
    List.Forall₂ (fun key found => Utf16.text key = some found) (entries.map Prod.fst)
      (found.map Prod.fst) := by
  induction entries generalizing found with
  | nil =>
    obtain rfl := Option.some.inj h
    exact .nil
  | cons entry rest ih =>
    obtain ⟨name, first, others, hname, -, hothers, rfl⟩ := nativeEntries_cons h
    exact .cons hname (ih hothers)

theorem sorted_native {entries : List (List UInt16 × Value)}
    {found : List (String × NativeValue)} (hkeys : KeysIncreasing (entries.map Prod.fst))
    (h : nativeEntries entries = some found) : Sorted found := by
  have hrelated := mem_nativeEntries h
  rw [sorted_iff_keys]
  change (found.map Prod.fst).Pairwise _
  generalize entries.map Prod.fst = keys at hkeys hrelated
  generalize found.map Prod.fst = names at hrelated
  clear h
  induction hrelated with
  | nil => exact List.Pairwise.nil
  | cons hname hrest ih =>
    obtain ⟨hhead, htail⟩ := List.pairwise_cons.mp hkeys
    refine List.pairwise_cons.mpr ⟨fun second hsecond => ?_, ih htail⟩
    obtain ⟨other, hother, htext⟩ := Checked.exists_left_of_forall₂ hrest hsecond
    rw [← compareKeys_eq hname htext]
    exact hhead other hother

mutual

/-- The counterpart of a value as it is built is well formed. -/
theorem ordered_native : ∀ {value : Value} {found : NativeValue}, Ordered value →
    native value = some found → SidecarValues.Ordered found
  | .string _, _, _, h => by
      obtain ⟨_, -, rfl⟩ := Option.map_eq_some_iff.mp h
      trivial
  | .integer _, _, _, h | .unsigned _, _, _, h | .float _, _, _, h | .bool _, _, _, h => by
      obtain rfl := Option.some.inj h
      trivial
  | .list _, _, hordered, h => by
      obtain ⟨_, hfound, rfl⟩ := Option.map_eq_some_iff.mp h
      exact ordered_natives hordered hfound
  | .map _, _, hordered, h => by
      obtain ⟨_, hfound, rfl⟩ := Option.map_eq_some_iff.mp h
      exact ⟨sorted_native hordered.1 hfound, ordered_nativeEntries hordered.2 hfound⟩
  | .set _, _, hordered, h => by
      obtain ⟨_, hfound, rfl⟩ := Option.map_eq_some_iff.mp h
      exact ⟨increasing_native hordered.1 hfound, ordered_natives hordered.2 hfound⟩
termination_by structural value => value

theorem ordered_natives : ∀ {values : List Value} {found : List NativeValue}, AllOrdered values →
    natives values = some found → SidecarValues.AllOrdered found
  | [], _, _, h => by
      obtain rfl := Option.some.inj h
      trivial
  | _ :: _, _, hordered, h => by
      obtain ⟨_, _, hfirst, hothers, rfl⟩ := natives_cons h
      exact ⟨ordered_native hordered.1 hfirst, ordered_natives hordered.2 hothers⟩
termination_by structural values => values

theorem ordered_nativeEntries : ∀ {entries : List (List UInt16 × Value)}
    {found : List (String × NativeValue)}, EntriesOrdered entries →
      nativeEntries entries = some found → SidecarValues.EntriesOrdered found
  | [], _, _, h => by
      obtain rfl := Option.some.inj h
      trivial
  | _ :: _, _, hordered, h => by
      obtain ⟨_, _, _, -, hfirst, hothers, rfl⟩ := nativeEntries_cons h
      exact ⟨ordered_native hordered.1 hfirst, ordered_nativeEntries hordered.2 hothers⟩
termination_by structural entries => entries

end

/-! ### What a value holds -/

mutual

/-- In every text of the value each surrogate has its partner. -/
def wellFormed : Value → Bool
  | .string value => Utf16.wellFormed value
  | .integer _ | .unsigned _ | .float _ | .bool _ => true
  | .list values | .set values => allWellFormed values
  | .map entries => entriesWellFormed entries
termination_by structural value => value

def allWellFormed : List Value → Bool
  | [] => true
  | value :: rest => wellFormed value && allWellFormed rest
termination_by structural values => values

def entriesWellFormed : List (List UInt16 × Value) → Bool
  | [] => true
  | (key, value) :: rest => Utf16.wellFormed key && (wellFormed value && entriesWellFormed rest)
termination_by structural entries => entries

end

mutual

/-- No floating-point number of the value is infinite or not a number. -/
def finite : Value → Bool
  | .string _ | .integer _ | .unsigned _ | .bool _ => true
  | .float bits => (finiteBits bits).isSome
  | .list values | .set values => allFinite values
  | .map entries => entriesFinite entries
termination_by structural value => value

def allFinite : List Value → Bool
  | [] => true
  | value :: rest => finite value && allFinite rest
termination_by structural values => values

def entriesFinite : List (List UInt16 × Value) → Bool
  | [] => true
  | (_, value) :: rest => finite value && entriesFinite rest
termination_by structural entries => entries

end

mutual

/-- How many containers stand around the innermost part of the value, once it is written:
one for its kind, and one more for the items of a container. -/
def nesting : Value → Nat
  | .string _ | .integer _ | .unsigned _ | .float _ | .bool _ => 1
  | .list values | .set values => nestingAll values + 2
  | .map entries => nestingEntries entries + 2
termination_by structural value => value

def nestingAll : List Value → Nat
  | [] => 0
  | value :: rest => max (nesting value) (nestingAll rest)
termination_by structural values => values

def nestingEntries : List (List UInt16 × Value) → Nat
  | [] => 0
  | (_, value) :: rest => max (nesting value) (nestingEntries rest)
termination_by structural entries => entries

end

theorem text_isSome (units : List UInt16) :
    (Utf16.text units).isSome = Utf16.wellFormed units := by
  unfold Utf16.text
  cases Utf16.wellFormed units <;> rfl

theorem isSome_bind_map {α β γ : Type} (first : Option α) (second : Option β)
    (join : α → β → γ) :
    (first.bind fun a => second.map (join a)).isSome = (first.isSome && second.isSome) := by
  cases first <;> cases second <;> rfl

mutual

theorem native_isSome : ∀ value : Value, (native value).isSome = wellFormed value
  | .string value => by rw [native, Option.isSome_map, text_isSome, wellFormed]
  | .integer _ | .unsigned _ | .float _ | .bool _ => rfl
  | .list values => by rw [native, Option.isSome_map, natives_isSome, wellFormed]
  | .set values => by rw [native, Option.isSome_map, natives_isSome, wellFormed]
  | .map entries => by rw [native, Option.isSome_map, nativeEntries_isSome, wellFormed]
termination_by structural value => value

theorem natives_isSome : ∀ values : List Value, (natives values).isSome = allWellFormed values
  | [] => rfl
  | value :: rest => by
      rw [natives, isSome_bind_map, native_isSome, natives_isSome, allWellFormed]
termination_by structural values => values

theorem nativeEntries_isSome : ∀ entries : List (List UInt16 × Value),
    (nativeEntries entries).isSome = entriesWellFormed entries
  | [] => rfl
  | (key, value) :: rest => by
      rw [entriesWellFormed, ← text_isSome, ← native_isSome, ← nativeEntries_isSome, nativeEntries]
      cases Utf16.text key with
      | none => rfl
      | some name => exact isSome_bind_map _ _ _
termination_by structural entries => entries

end

mutual

theorem finite_native : ∀ {value : Value} {found : NativeValue}, native value = some found →
    SidecarValues.finite found = finite value
  | .string _, _, h => by
      obtain ⟨_, -, rfl⟩ := Option.map_eq_some_iff.mp h
      rfl
  | .integer _, _, h | .unsigned _, _, h | .float _, _, h | .bool _, _, h => by
      obtain rfl := Option.some.inj h
      rfl
  | .list _, _, h => by
      obtain ⟨_, hfound, rfl⟩ := Option.map_eq_some_iff.mp h
      exact allFinite_natives hfound
  | .set _, _, h => by
      obtain ⟨_, hfound, rfl⟩ := Option.map_eq_some_iff.mp h
      exact allFinite_natives hfound
  | .map _, _, h => by
      obtain ⟨_, hfound, rfl⟩ := Option.map_eq_some_iff.mp h
      exact entriesFinite_native hfound
termination_by structural value => value

theorem allFinite_natives : ∀ {values : List Value} {found : List NativeValue},
    natives values = some found → SidecarValues.allFinite found = allFinite values
  | [], _, h => by
      obtain rfl := Option.some.inj h
      rfl
  | _ :: _, _, h => by
      obtain ⟨_, _, hfirst, hothers, rfl⟩ := natives_cons h
      rw [SidecarValues.allFinite, allFinite, finite_native hfirst, allFinite_natives hothers]
termination_by structural values => values

theorem entriesFinite_native : ∀ {entries : List (List UInt16 × Value)}
    {found : List (String × NativeValue)}, nativeEntries entries = some found →
      SidecarValues.entriesFinite found = entriesFinite entries
  | [], _, h => by
      obtain rfl := Option.some.inj h
      rfl
  | _ :: _, _, h => by
      obtain ⟨_, _, _, -, hfirst, hothers, rfl⟩ := nativeEntries_cons h
      rw [SidecarValues.entriesFinite, entriesFinite, finite_native hfirst,
        entriesFinite_native hothers]
termination_by structural entries => entries

end

theorem depth_tagged (kind : String) (content : JsonTrees.Json) :
    (tagged kind content).depth = content.depth + 1 := by
  have hdepth : (tagged kind content).depth = max 0 (max content.depth 0) + 1 := rfl
  rw [hdepth, Nat.max_zero, Nat.zero_max]

mutual

theorem depth_native : ∀ {value : Value} {found : NativeValue}, native value = some found →
    (writeValue found).depth = nesting value
  | .string _, _, h => by
      obtain ⟨_, -, rfl⟩ := Option.map_eq_some_iff.mp h
      rfl
  | .integer _, _, h | .unsigned _, _, h | .bool _, _, h => by
      obtain rfl := Option.some.inj h
      rfl
  | .float bits, _, h => by
      obtain rfl := Option.some.inj h
      rw [writeValue, depth_tagged]
      unfold writeFloat
      cases finiteBits bits <;> rfl
  | .list _, _, h => by
      obtain ⟨_, hfound, rfl⟩ := Option.map_eq_some_iff.mp h
      rw [writeValue, depth_tagged, JsonTrees.Json.depth, depth_natives hfound, nesting]
  | .set _, _, h => by
      obtain ⟨_, hfound, rfl⟩ := Option.map_eq_some_iff.mp h
      rw [writeValue, depth_tagged, JsonTrees.Json.depth, depth_natives hfound, nesting]
  | .map _, _, h => by
      obtain ⟨_, hfound, rfl⟩ := Option.map_eq_some_iff.mp h
      rw [writeValue, depth_tagged, JsonTrees.Json.depth, depth_nativeEntries hfound, nesting]
termination_by structural value => value

theorem depth_natives : ∀ {values : List Value} {found : List NativeValue},
    natives values = some found → JsonTrees.Json.depthAll (writeValues found) = nestingAll values
  | [], _, h => by
      obtain rfl := Option.some.inj h
      rfl
  | _ :: _, _, h => by
      obtain ⟨_, _, hfirst, hothers, rfl⟩ := natives_cons h
      rw [writeValues, JsonTrees.Json.depthAll, nestingAll, depth_native hfirst,
        depth_natives hothers]
termination_by structural values => values

theorem depth_nativeEntries : ∀ {entries : List (List UInt16 × Value)}
    {found : List (String × NativeValue)}, nativeEntries entries = some found →
      JsonTrees.Json.depthEntries (writeEntries found) = nestingEntries entries
  | [], _, h => by
      obtain rfl := Option.some.inj h
      rfl
  | _ :: _, _, h => by
      obtain ⟨_, _, _, -, hfirst, hothers, rfl⟩ := nativeEntries_cons h
      rw [writeEntries, JsonTrees.Json.depthEntries, nestingEntries, depth_native hfirst,
        depth_nativeEntries hothers]
termination_by structural entries => entries

end

end SpecGate.ClrValues

import SpecGate.Checked
import SpecGate.HarnessInputs

/-!
Construction inputs come back from their projections as they were, and nothing but a
projection is decoded. The exception is a narrow floating-point number that is not one:
whether it keeps its bits is up to the platform's conversions.
-/
namespace SpecGate.LosslessInputs

open Checked FloatWidths HarnessInputs NativeOrder SidecarValues SortedAssoc

/-! ### Ordered values -/

theorem allOrdered_iff {values : List NativeValue} :
    AllOrdered values ↔ ∀ value ∈ values, Ordered value := by
  induction values with
  | nil => simp [AllOrdered]
  | cons value rest ih => rw [AllOrdered, ih, List.forall_mem_cons]

theorem entriesOrdered_iff {entries : List (String × NativeValue)} :
    EntriesOrdered entries ↔ ∀ entry ∈ entries, Ordered entry.2 := by
  induction entries with
  | nil => simp [EntriesOrdered]
  | cons entry rest ih => rw [EntriesOrdered, ih, List.forall_mem_cons]

/-! ### Sets of projections -/

theorem increasing_of_adjacent {values : List NativeValue} (hsorted : values.Pairwise Ascending)
    (hdistinct : adjacentEqual values = false) : Increasing values := by
  rw [increasing_iff]
  induction values with
  | nil => exact .nil
  | cons first rest ih =>
    cases rest with
    | nil => exact List.pairwise_singleton _ _
    | cons second rest =>
      rw [adjacentEqual, Bool.or_eq_false_iff, decide_eq_false_iff_not] at hdistinct
      obtain ⟨hfirst, hrest⟩ := List.pairwise_cons.mp hsorted
      have hnext : compare first second = .lt := by
        have hle := hfirst second List.mem_cons_self
        rcases Ordering.isLE_iff_eq_lt_or_eq_eq.mp hle with hlt | heq
        · exact hlt
        · exact absurd (Std.LawfulEqOrd.eq_of_compare heq) hdistinct.1
      refine List.pairwise_cons.mpr ⟨fun other hother => ?_, ih hrest hdistinct.2⟩
      rcases List.mem_cons.mp hother with rfl | hlater
      · exact hnext
      · exact Std.TransCmp.lt_of_lt_of_isLE hnext ((List.pairwise_cons.mp hrest).1 other hlater)

theorem adjacent_of_nodup {values : List NativeValue} (h : values.Nodup) :
    adjacentEqual values = false := by
  induction values with
  | nil => rfl
  | cons first rest ih =>
    cases rest with
    | nil => rfl
    | cons second rest =>
      obtain ⟨hfirst, hrest⟩ := List.nodup_cons.mp h
      have hne : first ≠ second := fun heq => hfirst (heq ▸ List.mem_cons_self)
      rw [adjacentEqual, ih hrest, decide_eq_false hne]
      rfl

theorem nodup_of_increasing {values : List NativeValue} (h : Increasing values) : values.Nodup := by
  rw [increasing_iff] at h
  refine h.imp fun hlt heq => ?_
  rw [heq, Std.ReflOrd.compare_self] at hlt
  cases hlt

/-- Distinct projections make a set, whatever order they come in. -/
theorem nativeSet_of_nodup {values : Multiset NativeValue} (h : values.Nodup) :
    nativeSet values = .set (values.sort Ascending) ∧ Increasing (values.sort Ascending) := by
  have hnodup : (values.sort Ascending).Nodup := by
    rw [← Multiset.coe_nodup, Multiset.sort_eq]
    exact h
  have hadjacent := adjacent_of_nodup hnodup
  have hincreasing := increasing_of_adjacent (Multiset.pairwise_sort values Ascending) hadjacent
  refine ⟨?_, hincreasing⟩
  unfold nativeSet
  dsimp only
  rw [hadjacent, if_neg Bool.false_ne_true, collectSet_of_increasing hincreasing]

theorem ascending_of_increasing {values : List NativeValue} (h : Increasing values) :
    values.Pairwise Ascending := by
  rw [increasing_iff] at h
  refine h.imp fun hlt => ?_
  unfold Ascending
  rw [hlt]
  rfl

theorem nativeSet_of_increasing {values : List NativeValue} (h : Increasing values) :
    nativeSet values = .set values := by
  have hsort : (values : Multiset NativeValue).sort Ascending = values := by
    refine List.Perm.eq_of_pairwise' (Multiset.pairwise_sort _ Ascending)
      (ascending_of_increasing h) ?_
    rw [← Multiset.coe_eq_coe, Multiset.sort_eq]
  rw [(nativeSet_of_nodup (Multiset.coe_nodup.mpr (nodup_of_increasing h))).1, hsort]

theorem ordered_nativeSet {values : Multiset NativeValue} (h : ∀ value ∈ values, Ordered value) :
    Ordered (nativeSet values) := by
  have hall : AllOrdered (values.sort Ascending) :=
    allOrdered_iff.mpr fun value hvalue => h value ((Multiset.mem_sort Ascending).mp hvalue)
  unfold nativeSet
  dsimp only
  cases hadjacent : adjacentEqual (values.sort Ascending) with
  | true => exact hall
  | false =>
    have hincreasing := increasing_of_adjacent (Multiset.pairwise_sort values Ascending) hadjacent
    rw [if_neg Bool.false_ne_true, collectSet_of_increasing hincreasing]
    exact ⟨hincreasing, hall⟩

/-! ### One constructor at a time -/

theorem mapError_eq_ok {ε ε' α : Type} {computation : Except ε α} {f : ε → ε'} {result : α} :
    computation.mapError f = .ok result ↔ computation = .ok result := by
  cases computation with
  | error failure => simp [Except.mapError]
  | ok value => simp [Except.mapError]

/-- A projection and its decoder. Values that are kept come back from their projections, and
what is decoded is a projection. -/
structure Lossless {α : Type} (native : α → NativeValue) (decode : NativeValue → Except String α)
    (kept : α → Prop) : Prop where
  ordered : ∀ value, Ordered (native value)
  decode_native : ∀ value, kept value → decode (native value) = .ok value
  native_decode : ∀ source value, Ordered source → decode source = .ok value →
    native value = source

/-- Kept values are told apart by their projections. -/
theorem Lossless.injOn {α : Type} {native : α → NativeValue}
    {decode : NativeValue → Except String α} {kept : α → Prop} (h : Lossless native decode kept)
    {left right : α} (hleft : kept left) (hright : kept right) (heq : native left = native right) :
    left = right := by
  have hdecode := h.decode_native left hleft
  rw [heq, h.decode_native right hright] at hdecode
  exact (Except.ok.inj hdecode).symm

section Scalars

variable {α β : Type} {variant : NativeValue → Option β} {make : β → NativeValue}
  {project : α → β} {convert : β → Except String α}

theorem input_eq_ok {ty : String} {source : NativeValue} {value : α} :
    input ty variant convert source = .ok value ↔
      ∃ content, variant source = some content ∧ convert content = .ok value := by
  unfold input
  cases variant source with
  | none => simp
  | some content =>
    rw [mapError_eq_ok]
    simp

theorem lossless_input (ty : String)
    (hvariant : ∀ source content, variant source = some content ↔ source = make content)
    (hproject : ∀ value, convert (project value) = .ok value)
    (hconvert : ∀ content value, convert content = .ok value → project value = content)
    (hordered : ∀ content, Ordered (make content)) :
    Lossless (fun value => make (project value)) (input ty variant convert) fun _ => True where
  ordered value := hordered (project value)
  decode_native value _ :=
    input_eq_ok.mpr ⟨project value, (hvariant _ _).mpr rfl, hproject value⟩
  native_decode source value _ h := by
    obtain ⟨content, hcontent, hvalue⟩ := input_eq_ok.mp h
    rw [hconvert content value hvalue]
    exact ((hvariant source content).mp hcontent).symm

end Scalars

theorem asString_iff (source : NativeValue) (content : String) :
    asString source = some content ↔ source = .string content := by
  cases source <;> simp [asString]

theorem asBool_iff (source : NativeValue) (content : Bool) :
    asBool source = some content ↔ source = .bool content := by
  cases source <;> simp [asBool]

theorem asInteger_iff (source : NativeValue) (content : Int64) :
    asInteger source = some content ↔ source = .integer content := by
  cases source <;> simp [asInteger]

theorem asUnsigned_iff (source : NativeValue) (content : UInt64) :
    asUnsigned source = some content ↔ source = .unsigned content := by
  cases source <;> simp [asUnsigned]

theorem asFloat_iff (source : NativeValue) (content : F64) :
    asFloat source = some content ↔ source = .float content.bits := by
  cases source with
  | float bits =>
    obtain ⟨wanted⟩ := content
    simp [asFloat]
  | _ => simp [asFloat]

/-- Nothing is converted. -/
theorem ok_inj {α : Type} (content value : α)
    (h : (Except.ok content : Except String α) = .ok value) : value = content :=
  (Except.ok.inj h).symm

theorem lossless_string : Lossless NativeValue.string decodeString fun _ => True :=
  lossless_input "String" asString_iff (fun _ => rfl) ok_inj fun _ => trivial

theorem lossless_bool : Lossless NativeValue.bool decodeBool fun _ => True :=
  lossless_input "bool" asBool_iff (fun _ => rfl) ok_inj fun _ => trivial

theorem lossless_i64 : Lossless NativeValue.integer decodeI64 fun _ => True :=
  lossless_input "i64" asInteger_iff (fun _ => rfl) ok_inj fun _ => trivial

theorem lossless_u64 : Lossless NativeValue.unsigned decodeU64 fun _ => True :=
  lossless_input "u64" asUnsigned_iff (fun _ => rfl) ok_inj fun _ => trivial

theorem lossless_f64 : Lossless (fun value : F64 => NativeValue.float value.bits) decodeF64
    fun _ => True :=
  @lossless_input _ _ asFloat (fun value => .float value.bits) id _ "f64" asFloat_iff
    (fun _ => rfl) ok_inj fun _ => trivial

theorem lossless_i32 : Lossless (fun value : Int32 => NativeValue.integer value.toInt64) decodeI32
    fun _ => True := by
  apply lossless_input "i32" asInteger_iff _ _ fun _ => trivial
  · intro value
    have hlow := value.le_toInt
    have hhigh := value.toInt_lt
    unfold i32TryFrom
    rw [Int32.toInt_toInt64, if_pos ⟨hlow, hhigh⟩, Int32.ofInt_toInt]
  · intro content value h
    unfold i32TryFrom at h
    split_ifs at h with hrange
    obtain rfl := Except.ok.inj h
    apply Int64.toInt_inj.mp
    rw [Int32.toInt_toInt64]
    exact Int32.toInt_ofInt_of_le hrange.1 hrange.2

theorem lossless_u32 : Lossless
    (fun value : UInt32 => NativeValue.integer (Int64.ofInt value.toNat)) decodeU32
    fun _ => True := by
  apply lossless_input "u32" asInteger_iff _ _ fun _ => trivial
  · intro value
    have hhigh := value.toNat_lt
    have hint : (Int64.ofInt value.toNat).toInt = value.toNat :=
      Int64.toInt_ofInt_of_le (by omega) (by omega)
    unfold u32TryFrom
    rw [hint, if_pos (by omega), Int.toNat_natCast, UInt32.ofNat_toNat]
  · intro content value h
    unfold u32TryFrom at h
    split_ifs at h with hrange
    obtain rfl := Except.ok.inj h
    have hnat : (UInt32.ofNat content.toInt.toNat).toNat = content.toInt.toNat :=
      UInt32.toNat_ofNat_of_lt' (by
        change _ < 2 ^ 32
        omega)
    rw [hnat, Int.toNat_of_nonneg hrange.1, Int64.ofInt_toInt]

section Narrow

variable [NaNCasts]

/-- The platform keeps the bits of a number that is not one. -/
def F32Kept (value : F32) : Prop := value.isNaN = true → asF32 (f64From value) = value

theorem F32Kept.asF32_f64From {value : F32} (h : F32Kept value) :
    asF32 (f64From value) = value := by
  cases hnan : value.isNaN with
  | true => exact h hnan
  | false => exact FloatWidths.asF32_f64From value hnan

theorem lossless_f32 : Lossless nativeF32 decodeF32 F32Kept where
  ordered _ := trivial
  decode_native value hkept := by
    change (if f64From (asF32 (f64From value)) = f64From value then _ else _) = _
    rw [hkept.asF32_f64From, if_pos rfl]
  native_decode source value _ h := by
    cases source with
    | float bits =>
      unfold decodeF32 at h
      dsimp only at h
      split_ifs at h with hexact
      obtain rfl := Except.ok.inj h
      unfold nativeF32
      rw [hexact]
    | _ => cases h

end Narrow

theorem lossless_unit : Lossless nativeUnit decodeUnit fun _ => True where
  ordered _ := ⟨List.Pairwise.nil, trivial⟩
  decode_native _ _ := rfl
  native_decode source _ _ h := by
    unfold decodeUnit at h
    split at h
    · rfl
    · cases h

/-! ### Constructors of types -/

section Constructors

variable {α β γ δ : Type} {native : α → NativeValue} {decode : NativeValue → Except String α}
  {kept : α → Prop} (h : Lossless native decode kept)

include h

theorem decodeItems_native {values : List α} (hkept : ∀ value ∈ values, kept value) (index : Nat) :
    decodeItems decode index (values.map native) = .ok values := by
  induction values generalizing index with
  | nil => rfl
  | cons value rest ih =>
    obtain ⟨hvalue, hrest⟩ := List.forall_mem_cons.mp hkept
    rw [List.map_cons, decodeItems, h.decode_native value hvalue, ih hrest]
    rfl

theorem native_decodeItems {sources : List NativeValue} {values : List α} {index : Nat}
    (hordered : AllOrdered sources) (hdecode : decodeItems decode index sources = .ok values) :
    values.map native = sources := by
  induction sources generalizing index values with
  | nil =>
    obtain rfl := Except.ok.inj hdecode
    rfl
  | cons source rest ih =>
    obtain ⟨value, hvalue, hnext⟩ := bind_eq_ok.mp hdecode
    obtain ⟨others, hothers, hresult⟩ := bind_eq_ok.mp hnext
    obtain rfl := Except.ok.inj hresult
    rw [List.map_cons, h.native_decode source value hordered.1 (mapError_eq_ok.mp hvalue),
      ih hordered.2 hothers]

theorem lossless_vec :
    Lossless (nativeVec native) (decodeVec decode) fun values => ∀ value ∈ values, kept value where
  ordered values := allOrdered_iff.mpr fun source hsource => by
    obtain ⟨value, -, rfl⟩ := List.mem_map.mp hsource
    exact h.ordered value
  decode_native values hkept := decodeItems_native h hkept 0
  native_decode source values hordered hdecode := by
    cases source with
    | list sources => exact congrArg NativeValue.list (native_decodeItems h hordered hdecode)
    | _ => cases hdecode

omit h in
/-- An optional value is a map with one entry, its tag. -/
theorem decodeOption_eq_ok {entries : List (String × NativeValue)} {value : Option α}
    (hdecode : decodeOption decode (.map entries) = .ok value) :
    ∃ key source, entries = [(key, source)] ∧
      ((key = "Some" ∧ ∃ content, decode source = .ok content ∧ value = some content) ∨
        (key = "None" ∧ source = .map [] ∧ value = none)) := by
  unfold decodeOption at hdecode
  dsimp only at hdecode
  split_ifs at hdecode with hlength
  rw [not_not, List.length_eq_one_iff] at hlength
  obtain ⟨⟨key, source⟩, rfl⟩ := hlength
  refine ⟨key, source, rfl, ?_⟩
  by_cases hsome : key = "Some"
  · subst hsome
    rw [lookup_cons_self] at hdecode
    obtain ⟨content, hcontent, rfl⟩ := map_eq_ok.mp (mapError_eq_ok.mp hdecode)
    exact .inl ⟨rfl, content, hcontent, rfl⟩
  · rw [lookup_cons_of_ne hsome, lookup_nil] at hdecode
    dsimp only at hdecode
    by_cases hnone : key = "None"
    · subst hnone
      rw [lookup_cons_self] at hdecode
      split at hdecode
      · rename_i hunit
        exact .inr ⟨rfl, Option.some.inj hunit, (Except.ok.inj hdecode).symm⟩
      · cases hdecode
    · rw [lookup_cons_of_ne hnone, lookup_nil] at hdecode
      cases hdecode

theorem lossless_option :
    Lossless (nativeOption native) (decodeOption decode) fun value =>
      ∀ item ∈ value, kept item where
  ordered value := by
    cases value with
    | none => exact ⟨List.pairwise_singleton _ _, ⟨List.Pairwise.nil, trivial⟩, trivial⟩
    | some value => exact ⟨List.pairwise_singleton _ _, h.ordered value, trivial⟩
  decode_native value hkept := by
    cases value with
    | none => rfl
    | some value =>
      have hvalue := h.decode_native value (hkept value rfl)
      have hlength : ¬ [("Some", native value)].length ≠ 1 := not_not.mpr rfl
      unfold decodeOption nativeOption
      dsimp only
      rw [if_neg hlength, lookup_cons_self]
      dsimp only
      rw [hvalue]
      rfl
  native_decode source value hordered hdecode := by
    cases source with
    | map entries =>
      obtain ⟨key, source, rfl, hcases⟩ := decodeOption_eq_ok hdecode
      rcases hcases with ⟨rfl, content, hcontent, rfl⟩ | ⟨rfl, rfl, rfl⟩
      · have hsource := h.native_decode source content hordered.2.1 hcontent
        rw [nativeOption, hsource]
      · rfl
    | _ => cases hdecode

theorem decodeEntries_native {entries : List (String × α)}
    (hkept : ∀ entry ∈ entries, kept entry.2) :
    decodeEntries decode (entries.map fun entry => (entry.1, native entry.2)) = .ok entries := by
  induction entries with
  | nil => rfl
  | cons entry rest ih =>
    obtain ⟨hentry, hrest⟩ := List.forall_mem_cons.mp hkept
    rw [List.map_cons, decodeEntries, h.decode_native entry.2 hentry, ih hrest]
    rfl

theorem native_decodeEntries {sources : List (String × NativeValue)} {entries : List (String × α)}
    (hordered : EntriesOrdered sources) (hdecode : decodeEntries decode sources = .ok entries) :
    (entries.map fun entry => (entry.1, native entry.2)) = sources := by
  induction sources generalizing entries with
  | nil =>
    obtain rfl := Except.ok.inj hdecode
    rfl
  | cons source rest ih =>
    obtain ⟨value, hvalue, hnext⟩ := bind_eq_ok.mp hdecode
    obtain ⟨others, hothers, hresult⟩ := bind_eq_ok.mp hnext
    obtain rfl := Except.ok.inj hresult
    rw [List.map_cons, h.native_decode source.2 value hordered.1 (mapError_eq_ok.mp hvalue),
      ih hordered.2 hothers]

omit h in
/-- Values under sorted keys are replaced in place. -/
theorem sorted_map {entries : List (String × α)} (f : α → β) :
    Sorted (entries.map fun entry => (entry.1, f entry.2)) ↔ Sorted entries := by
  rw [sorted_iff_keys, sorted_iff_keys, keys, keys, List.map_map]
  rfl

theorem lossless_map : Lossless (nativeMap native) (decodeMap decode) fun map =>
    ∀ entry ∈ map.entries, kept entry.2 where
  ordered map := by
    have hsorted := (sorted_map native).mpr map.sorted
    unfold nativeMap
    rw [ofList_of_sorted hsorted]
    refine ⟨hsorted, entriesOrdered_iff.mpr fun entry hentry => ?_⟩
    obtain ⟨item, -, rfl⟩ := List.mem_map.mp hentry
    exact h.ordered item.2
  decode_native map hkept := by
    have hsorted := (sorted_map native).mpr map.sorted
    unfold nativeMap decodeMap
    dsimp only
    rw [ofList_of_sorted hsorted, decodeEntries_native h hkept]
    exact congrArg Except.ok (StringMap.ext (ofList_of_sorted map.sorted))
  native_decode source map hordered hdecode := by
    cases source with
    | map sources =>
      obtain ⟨entries, hentries, rfl⟩ := map_eq_ok.mp hdecode
      have hnative := native_decodeEntries h hordered.2 hentries
      have hsorted : Sorted entries := (sorted_map native).mp (hnative ▸ hordered.1)
      unfold nativeMap
      dsimp only
      rw [ofList_of_sorted hsorted, hnative, ofList_of_sorted hordered.1]
    | _ => cases hdecode

omit h in
/-- The elements are decoded one by one, and none twice. -/
theorem decodeElements_eq_ok [DecidableEq α] {sources : List NativeValue} {result set : Finset α}
    {index : Nat} : decodeElements decode result index sources = .ok set ↔
      ∃ values, List.Forall₂ (fun source value => decode source = .ok value) sources values ∧
        values.Nodup ∧ (∀ value ∈ values, value ∉ result) ∧ set = result ∪ values.toFinset := by
  induction sources generalizing result index with
  | nil =>
    constructor
    · intro hdecode
      obtain rfl := Except.ok.inj hdecode
      exact ⟨[], .nil, .nil, (fun _ hvalue => nomatch hvalue), (Finset.union_empty _).symm⟩
    · rintro ⟨values, hvalues, -, -, rfl⟩
      obtain rfl := List.forall₂_nil_left_iff.mp hvalues
      exact congrArg Except.ok (Finset.union_empty _).symm
  | cons source rest ih =>
    rw [decodeElements, bind_eq_ok]
    constructor
    · rintro ⟨value, hvalue, hnext⟩
      split_ifs at hnext with hpresent
      obtain ⟨values, hvalues, hnodup, hnew, rfl⟩ := ih.mp hnext
      refine ⟨value :: values, .cons (mapError_eq_ok.mp hvalue) hvalues,
        List.nodup_cons.mpr ⟨?_, hnodup⟩, ?_, ?_⟩
      · intro hmem
        exact hnew value hmem (Finset.mem_insert_self value result)
      · intro other hother hold
        rcases List.mem_cons.mp hother with rfl | hlater
        · exact hpresent hold
        · exact hnew other hlater (Finset.mem_insert_of_mem hold)
      · rw [List.toFinset_cons, Finset.insert_union, Finset.union_insert]
    · rintro ⟨values, hvalues, hnodup, hnew, rfl⟩
      cases hvalues with
      | @cons _ value _ values hvalue hvalues =>
        obtain ⟨hfresh, hnodup⟩ := List.nodup_cons.mp hnodup
        obtain ⟨hpresent, hnew⟩ := List.forall_mem_cons.mp hnew
        refine ⟨value, mapError_eq_ok.mpr hvalue, ?_⟩
        rw [if_neg hpresent]
        refine ih.mpr ⟨values, hvalues, hnodup, ?_, ?_⟩
        · intro other hother hmem
          rcases Finset.mem_insert.mp hmem with rfl | hold
          · exact hfresh hother
          · exact hnew other hother hold
        · rw [List.toFinset_cons, Finset.insert_union, Finset.union_insert]

/-- Kept values that are listed by their projections. -/
theorem exists_values {set : Finset α} (hkept : ∀ value ∈ set, kept value)
    {sources : List NativeValue} (hsources : ∀ source ∈ sources, source ∈ set.val.map native) :
    ∃ values : List α, (∀ value ∈ values, value ∈ set) ∧
      List.Forall₂ (fun source value => native value = source ∧ decode source = .ok value)
        sources values := by
  induction sources with
  | nil => exact ⟨[], (fun _ hvalue => nomatch hvalue), .nil⟩
  | cons source rest ih =>
    obtain ⟨hsource, hrest⟩ := List.forall_mem_cons.mp hsources
    obtain ⟨values, hvalues, hpairs⟩ := ih hrest
    obtain ⟨value, hvalue, rfl⟩ := Multiset.mem_map.mp hsource
    exact ⟨value :: values, List.forall_mem_cons.mpr ⟨hvalue, hvalues⟩,
      .cons ⟨rfl, h.decode_native value (hkept value hvalue)⟩ hpairs⟩

theorem native_of_decoded {sources : List NativeValue} {values : List α}
    (hordered : AllOrdered sources)
    (hdecoded : List.Forall₂ (fun source value => decode source = .ok value) sources values) :
    values.map native = sources := by
  induction hdecoded with
  | nil => rfl
  | cons hvalue _ ih =>
    rw [List.map_cons, h.native_decode _ _ hordered.1 hvalue, ih hordered.2]

theorem lossless_finset [DecidableEq α] :
    Lossless (nativeFinset native) (decodeFinset decode) fun set => ∀ value ∈ set, kept value where
  ordered set := ordered_nativeSet fun source hsource => by
    obtain ⟨value, -, rfl⟩ := Multiset.mem_map.mp hsource
    exact h.ordered value
  decode_native set hkept := by
    have hdistinct : (set.val.map native).Nodup :=
      Multiset.Nodup.map_on
        (fun left hleft right hright => h.injOn (hkept left hleft) (hkept right hright)) set.nodup
    obtain ⟨hset, hincreasing⟩ := nativeSet_of_nodup hdistinct
    obtain ⟨values, hvalues, hpairs⟩ := exists_values h hkept
      fun source hsource => (Multiset.mem_sort Ascending).mp hsource
    have hsources : values.map native = (set.val.map native).sort Ascending := by
      rw [← List.forall₂_eq_eq_eq, List.forall₂_map_left_iff]
      exact hpairs.flip.imp fun _ _ hpair => hpair.1
    have hnodup : values.Nodup := List.Nodup.of_map native
      (hsources ▸ nodup_of_increasing hincreasing)
    have helements : set = ∅ ∪ values.toFinset := by
      rw [Finset.empty_union]
      apply Finset.ext
      intro value
      rw [List.mem_toFinset]
      refine ⟨fun hvalue => ?_, hvalues value⟩
      have hmem : native value ∈ values.map native := by
        rw [hsources, Multiset.mem_sort]
        exact Multiset.mem_map_of_mem native hvalue
      obtain ⟨other, hother, heq⟩ := List.mem_map.mp hmem
      rw [← h.injOn (hkept other (hvalues other hother)) (hkept value hvalue) heq]
      exact hother
    unfold nativeFinset
    rw [hset]
    exact decodeElements_eq_ok.mpr
      ⟨values, hpairs.imp fun _ _ hpair => hpair.2, hnodup,
        (fun value _ => Finset.notMem_empty value), helements⟩
  native_decode source set hordered hdecode := by
    cases source with
    | set sources =>
      obtain ⟨values, hvalues, hnodup, -, rfl⟩ := decodeElements_eq_ok.mp hdecode
      have hsources := native_of_decoded h hordered.2 hvalues
      have hval : (∅ ∪ values.toFinset).val = (values : Multiset α) := by
        rw [Finset.empty_union, List.toFinset_val, hnodup.dedup]
      unfold nativeFinset
      rw [hval, Multiset.map_coe, hsources]
      exact nativeSet_of_increasing hordered.1
    | _ => cases hdecode

end Constructors

section Tuples

variable {α β γ δ : Type} {nativeA : α → NativeValue} {nativeB : β → NativeValue}
  {nativeC : γ → NativeValue} {nativeD : δ → NativeValue}
  {decodeA : NativeValue → Except String α} {decodeB : NativeValue → Except String β}
  {decodeC : NativeValue → Except String γ} {decodeD : NativeValue → Except String δ}
  {keptA : α → Prop} {keptB : β → Prop} {keptC : γ → Prop} {keptD : δ → Prop}

theorem nextField_native (h : Lossless nativeA decodeA keptA) {value : α} (hkept : keptA value)
    (rest : List NativeValue) :
    nextField decodeA (nativeA value :: rest) = .ok (value, rest) := by
  rw [nextField, h.decode_native value hkept]
  rfl

/-- A field that is decoded is the projection of its value. -/
theorem native_nextField (h : Lossless nativeA decodeA keptA) {sources rest : List NativeValue}
    {value : α} (hordered : AllOrdered sources)
    (hdecode : nextField decodeA sources = .ok (value, rest)) :
    sources = nativeA value :: rest ∧ AllOrdered rest := by
  cases sources with
  | nil => cases hdecode
  | cons source others =>
    obtain ⟨content, hcontent, hpair⟩ := map_eq_ok.mp hdecode
    obtain ⟨rfl, rfl⟩ := Prod.mk.inj hpair
    rw [h.native_decode source content hordered.1 hcontent]
    exact ⟨rfl, hordered.2⟩

theorem endTuple_eq_ok {tuple result : α} {sources : List NativeValue} :
    endTuple tuple sources = .ok result ↔ sources = [] ∧ tuple = result := by
  cases sources <;> simp [endTuple]

theorem lossless_pair (ha : Lossless nativeA decodeA keptA) (hb : Lossless nativeB decodeB keptB) :
    Lossless (fun (x, y) => .list [nativeA x, nativeB y]) (decodePair decodeA decodeB)
      fun (x, y) => keptA x ∧ keptB y where
  ordered := fun (x, y) => ⟨ha.ordered x, hb.ordered y, trivial⟩
  decode_native := fun (x, y) ⟨hx, hy⟩ => by
    unfold decodePair
    dsimp only
    rw [nextField_native ha hx]
    dsimp only [bind, Except.bind]
    rw [nextField_native hb hy]
    rfl
  native_decode := fun source (x, y) hordered hdecode => by
    cases source with
    | list sources =>
      obtain ⟨⟨a, restA⟩, hfirst, hnext⟩ := bind_eq_ok.mp hdecode
      obtain ⟨⟨b, restB⟩, hsecond, hend⟩ := bind_eq_ok.mp hnext
      obtain ⟨rfl, hpair⟩ := endTuple_eq_ok.mp hend
      obtain ⟨rfl, rfl⟩ := Prod.mk.inj hpair
      obtain ⟨rfl, hrestA⟩ := native_nextField ha hordered hfirst
      obtain ⟨rfl, -⟩ := native_nextField hb hrestA hsecond
      rfl
    | _ => cases hdecode

theorem lossless_triple (ha : Lossless nativeA decodeA keptA) (hb : Lossless nativeB decodeB keptB)
    (hc : Lossless nativeC decodeC keptC) :
    Lossless (fun (x, y, z) => .list [nativeA x, nativeB y, nativeC z])
      (decodeTriple decodeA decodeB decodeC) fun (x, y, z) => keptA x ∧ keptB y ∧ keptC z where
  ordered := fun (x, y, z) => ⟨ha.ordered x, hb.ordered y, hc.ordered z, trivial⟩
  decode_native := fun (x, y, z) ⟨hx, hy, hz⟩ => by
    unfold decodeTriple
    dsimp only
    rw [nextField_native ha hx]
    dsimp only [bind, Except.bind]
    rw [nextField_native hb hy]
    dsimp only
    rw [nextField_native hc hz]
    rfl
  native_decode := fun source (x, y, z) hordered hdecode => by
    cases source with
    | list sources =>
      obtain ⟨⟨a, restA⟩, hfirst, hnext⟩ := bind_eq_ok.mp hdecode
      obtain ⟨⟨b, restB⟩, hsecond, hlater⟩ := bind_eq_ok.mp hnext
      obtain ⟨⟨c, restC⟩, hthird, hend⟩ := bind_eq_ok.mp hlater
      obtain ⟨rfl, htuple⟩ := endTuple_eq_ok.mp hend
      obtain ⟨rfl, rfl, rfl⟩ := (by simpa using htuple : a = x ∧ b = y ∧ c = z)
      obtain ⟨rfl, hrestA⟩ := native_nextField ha hordered hfirst
      obtain ⟨rfl, hrestB⟩ := native_nextField hb hrestA hsecond
      obtain ⟨rfl, -⟩ := native_nextField hc hrestB hthird
      rfl
    | _ => cases hdecode

theorem lossless_quadruple (ha : Lossless nativeA decodeA keptA)
    (hb : Lossless nativeB decodeB keptB) (hc : Lossless nativeC decodeC keptC)
    (hd : Lossless nativeD decodeD keptD) :
    Lossless (fun (x, y, z, w) => .list [nativeA x, nativeB y, nativeC z, nativeD w])
      (decodeQuadruple decodeA decodeB decodeC decodeD)
      fun (x, y, z, w) => keptA x ∧ keptB y ∧ keptC z ∧ keptD w where
  ordered := fun (x, y, z, w) =>
    ⟨ha.ordered x, hb.ordered y, hc.ordered z, hd.ordered w, trivial⟩
  decode_native := fun (x, y, z, w) ⟨hx, hy, hz, hw⟩ => by
    unfold decodeQuadruple
    dsimp only
    rw [nextField_native ha hx]
    dsimp only [bind, Except.bind]
    rw [nextField_native hb hy]
    dsimp only
    rw [nextField_native hc hz]
    dsimp only
    rw [nextField_native hd hw]
    rfl
  native_decode := fun source (x, y, z, w) hordered hdecode => by
    cases source with
    | list sources =>
      obtain ⟨⟨a, restA⟩, hfirst, hnext⟩ := bind_eq_ok.mp hdecode
      obtain ⟨⟨b, restB⟩, hsecond, hlater⟩ := bind_eq_ok.mp hnext
      obtain ⟨⟨c, restC⟩, hthird, hlast⟩ := bind_eq_ok.mp hlater
      obtain ⟨⟨d, restD⟩, hfourth, hend⟩ := bind_eq_ok.mp hlast
      obtain ⟨rfl, htuple⟩ := endTuple_eq_ok.mp hend
      obtain ⟨rfl, rfl, rfl, rfl⟩ := (by simpa using htuple : a = x ∧ b = y ∧ c = z ∧ d = w)
      obtain ⟨rfl, hrestA⟩ := native_nextField ha hordered hfirst
      obtain ⟨rfl, hrestB⟩ := native_nextField hb hrestA hsecond
      obtain ⟨rfl, hrestC⟩ := native_nextField hc hrestB hthird
      obtain ⟨rfl, -⟩ := native_nextField hd hrestC hfourth
      rfl
    | _ => cases hdecode

end Tuples

/-! ### Every supported type -/

section Types

variable [NaNCasts]

/-- The platform keeps every narrow number of the value that is not one. -/
def Kept : (ty : InputType) → ty.Carrier → Prop
  | .f32 => F32Kept
  | .option item => fun value : Option item.Carrier => ∀ content ∈ value, Kept item content
  | .vec item => fun values : List item.Carrier => ∀ value ∈ values, Kept item value
  | .pair a b => fun (x, y) => Kept a x ∧ Kept b y
  | .triple a b c => fun (x, y, z) => Kept a x ∧ Kept b y ∧ Kept c z
  | .quadruple a b c d => fun (x, y, z, w) => Kept a x ∧ Kept b y ∧ Kept c z ∧ Kept d w
  | .set item => fun values : Finset item.Carrier => ∀ value ∈ values, Kept item value
  | .map item => fun map : StringMap item.Carrier => ∀ entry ∈ map.entries, Kept item entry.2
  | .string | .bool | .i32 | .i64 | .u32 | .u64 | .f64 | .unit => fun _ => True

theorem lossless_type (ty : InputType) : Lossless ty.toNativeValue ty.decode (Kept ty) := by
  induction ty with
  | string => exact lossless_string
  | bool => exact lossless_bool
  | i32 => exact lossless_i32
  | i64 => exact lossless_i64
  | u32 => exact lossless_u32
  | u64 => exact lossless_u64
  | f32 => exact lossless_f32
  | f64 => exact lossless_f64
  | unit => exact lossless_unit
  | option item ih => exact lossless_option ih
  | vec item ih => exact lossless_vec ih
  | pair a b iha ihb => exact lossless_pair iha ihb
  | triple a b c iha ihb ihc => exact lossless_triple iha ihb ihc
  | quadruple a b c d iha ihb ihc ihd => exact lossless_quadruple iha ihb ihc ihd
  | set item ih => exact lossless_finset ih
  | map item ih => exact lossless_map ih

/-- Every value whose narrow numbers the platform keeps comes back from its projection, and a
native value that is decoded is the projection of what it is decoded to. -/
theorem inputs_round_trip (ty : InputType) :
    (∀ value, Kept ty value → ty.decode (ty.toNativeValue value) = .ok value) ∧
      ∀ source value, Ordered source → ty.decode source = .ok value →
        ty.toNativeValue value = source :=
  ⟨(lossless_type ty).decode_native, (lossless_type ty).native_decode⟩

end Types

def quietWiden (bits : UInt32) : UInt64 :=
  let sign : UInt64 := bits.toUInt64 >>> 31 <<< 63
  sign ||| (0x7FF8000000000000 : UInt64) ||| ((bits.toUInt64 &&& (0x7FFFFF : UInt64)) <<< 29)

def quietNarrow (bits : UInt64) : UInt32 :=
  let sign : UInt64 := bits >>> 63 <<< 31
  (sign ||| (0x7FC00000 : UInt64) ||| ((bits &&& (0xFFFFFFFFFFFFF : UInt64)) >>> 29)).toUInt32

/-- Conversions that quiet what is not a number and keep the rest of its bits. -/
abbrev quieting : NaNCasts := ⟨quietWiden, quietNarrow⟩

/-- A list of optional narrow numbers: one half, a quiet number that is not one, and none. -/
def halves : List (Option F32) := [some ⟨0x3F000000⟩, some ⟨0x7FC00001⟩, none]

theorem inputs_round_trip_halves :
    @InputType.decode quieting (.vec (.option .f32))
        (@InputType.toNativeValue quieting (.vec (.option .f32)) halves) = .ok halves ∧
      @InputType.toNativeValue quieting .string "half" = .string "half" := by
  have hnumbers : ∀ value ∈ halves, ∀ content ∈ value, @asF32 quieting (@f64From quieting content) =
      content := by
    decide +kernel
  exact ⟨(@inputs_round_trip quieting (.vec (.option .f32))).1 halves
      fun value hvalue content hcontent _ => hnumbers value hvalue content hcontent,
    (@inputs_round_trip quieting .string).2 (.string "half") "half" trivial rfl⟩

/-- A signaling number that is not one comes back as a quiet one. -/
theorem signaling_changed :
    ¬ ∀ (ty : InputType) (value : ty.Carrier),
      @InputType.decode quieting ty (@InputType.toNativeValue quieting ty value) = .ok value := by
  intro h
  have hread : @decodeF32 quieting (@nativeF32 quieting ⟨0x7F800001⟩) = .ok ⟨0x7FC00001⟩ := by
    decide +kernel
  have hvalue := Except.ok.inj (hread.symm.trans (h .f32 ⟨0x7F800001⟩))
  revert hvalue
  decide

end SpecGate.LosslessInputs

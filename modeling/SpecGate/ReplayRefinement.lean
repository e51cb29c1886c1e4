import SpecGate.DecodedValues
import SpecGate.SemanticEquality

/-!
Replay decoding against linked validation. A wire value that decodes at a type is read by
the trace loader as a value of the type, and the decoded value stands for its canonical
value; so replay and comparison distinguish the same values.
-/
namespace SpecGate.ReplayRefinement

open RegistryModel SortedAssoc Checked IntegerText OtlpScalars WireReading LinkedValues
open PrimitiveValues AcceptedValues Collecting ReplayModel ReplayValues FloatBits DecodedValues
open Values (CanonicalValue F64Value FiniteF64)

/-! ### Primitive values -/

/-- The loader reads a wire value as a value of a primitive type, and a decoded value stands
for its canonical value. -/
def RefinesPrimitive (readers : TextReaders) (name : String) (wire : AnyValue) (decoded : Value) :
    Prop :=
  ∃ value canonical, Reads readers wire value ∧ PrimitiveValue name value ∧
    canonicalPrimitive value name = some canonical ∧ PrimitiveMeans name decoded canonical

section Primitives

variable {readers : TextReaders} {wire : AnyValue} {decoded : Value} {location : String}

theorem refines_unit (h : decodeUnit wire location = .ok decoded) :
    RefinesPrimitive readers "unit" wire decoded := by
  unfold decodeUnit at h
  split at h
  · obtain rfl := Except.ok.inj h
    exact ⟨.kvList [], .unit, reads_kvlist .nil List.nodup_nil, .unit, rfl, .unit rfl⟩
  · cases h
  · cases h

theorem refines_string (h : decodeString wire location = .ok decoded) :
    RefinesPrimitive readers "string" wire decoded := by
  unfold decodeString at h
  split at h
  · obtain rfl := Except.ok.inj h
    rename_i text
    exact ⟨_, _, reads_string text, .string text, rfl, .string text rfl⟩
  · cases h

theorem refines_bool (h : decodeBool wire location = .ok decoded) :
    RefinesPrimitive readers "bool" wire decoded := by
  unfold decodeBool at h
  split at h
  · obtain rfl := Except.ok.inj h
    rename_i value
    exact ⟨_, _, reads_bool value, .bool value, rfl, .bool value rfl⟩
  · cases h

theorem decodeInteger_ok {low high value : Int}
    (h : decodeInteger wire low high location = .ok value) :
    ∃ text, wire = .int text ∧ parseI64 text = .ok value ∧ low ≤ value ∧ value ≤ high := by
  unfold decodeInteger at h
  split at h
  · rename_i text
    split at h
    · cases h
    · rename_i parsed hparsed
      split_ifs at h with hrange
      obtain rfl := Except.ok.inj h
      exact ⟨text, rfl, hparsed, hrange⟩
  · cases h

/-- What the loader makes of an integer that decodes. -/
theorem reads_decoded {low high value : Int}
    (h : decodeInteger wire low high location = .ok value) :
    Reads readers wire (.int (Int64.ofInt value)) ∧ (Int64.ofInt value).toInt = value ∧
      low ≤ value ∧ value ≤ high := by
  obtain ⟨text, rfl, hparse, hlow, hhigh⟩ := decodeInteger_ok h
  have hbounds := i64_bounds hparse
  exact ⟨reads_int (parseTextI64_of_i64 hparse),
    Int64.toInt_ofInt_of_le hbounds.1 (by omega), hlow, hhigh⟩

theorem refines_i32 {value : Int}
    (h : decodeInteger wire (-2 ^ 31) (2 ^ 31 - 1) location = .ok value) :
    RefinesPrimitive readers "i32" wire (.i32 value) := by
  obtain ⟨hreads, hvalue, hlow, hhigh⟩ := @reads_decoded readers _ _ _ _ _ h
  refine ⟨_, .integer value, hreads, .i32 ?_ ?_, ?_, .i32 value rfl⟩
  · rwa [hvalue]
  · rw [hvalue]
    omega
  · simp [canonicalPrimitive, -Int64.toInt_ofInt, hvalue]

theorem refines_i64 {value : Int}
    (h : decodeInteger wire (-2 ^ 63) (2 ^ 63 - 1) location = .ok value) :
    RefinesPrimitive readers "i64" wire (.i64 value) := by
  obtain ⟨hreads, hvalue, -, -⟩ := @reads_decoded readers _ _ _ _ _ h
  refine ⟨_, .integer value, hreads, .i64 _, ?_, .i64 value rfl⟩
  simp [canonicalPrimitive, -Int64.toInt_ofInt, hvalue]

theorem refines_u32 {value : Int} (h : decodeInteger wire 0 (2 ^ 32 - 1) location = .ok value) :
    RefinesPrimitive readers "u32" wire (.u32 value) := by
  obtain ⟨hreads, hvalue, hlow, hhigh⟩ := @reads_decoded readers _ _ _ _ _ h
  refine ⟨_, .integer value, hreads, .u32 ?_ ?_, ?_, .u32 value rfl⟩
  · rwa [hvalue]
  · rw [hvalue]
    omega
  · simp [canonicalPrimitive, -Int64.toInt_ofInt, hvalue]

/-- Text that parses and is printed again is the canonical decimal text. -/
theorem refines_u64 (h : decodeU64 wire location = .ok decoded) :
    RefinesPrimitive readers "u64" wire decoded := by
  unfold decodeU64 at h
  split at h
  · rename_i text
    split at h
    · cases h
    · rename_i parsed hparsed
      split_ifs at h with htext
      obtain rfl := Except.ok.inj h
      obtain ⟨-, -, -, -, hlow, hhigh⟩ := (parseInteger_eq_ok (by decide) (by decide)).mp hparsed
      obtain ⟨number, rfl⟩ := Int.eq_ofNat_of_zero_le hlow
      have hlt : number < 2 ^ 64 := by omega
      have hnumber : toString (number : Int) = toString number := rfl
      refine ⟨.string text, .integer number, reads_string text, ?_, ?_, .u64 number rfl⟩
      · rw [← htext, hnumber]
        exact .u64 hlt
      · rw [← htext, hnumber, canonicalPrimitive, if_neg (by decide), if_pos rfl,
          LinkedValues.parseU64, (Decimal.parse_toString hlt).2]
        rfl
  · cases h

theorem narrowNumber_ok {value : FiniteF64} (h : narrowNumber value location = .ok decoded) :
    ∃ factor exponent, parseF32 factor exponent = some value.magnitude ∧
      decoded = .f32Bits (bitsF32 value.sign value.magnitude) := by
  unfold narrowNumber at h
  -- The parser becomes a variable, so that no step computes with it.
  obtain ⟨parse, hvariable⟩ : ∃ parse, parseF32 = parse := ⟨_, rfl⟩
  rw [hvariable] at h ⊢
  generalize printedDecimal value = printed at h
  cases printed with
  | none => cases h
  | some decimal =>
    obtain ⟨factor, exponent⟩ := decimal
    cases hparse : parse factor exponent with
    | none => simp [hparse] at h
    | some narrowed =>
      simp only [hparse] at h
      split_ifs at h with hmagnitude
      refine ⟨factor, exponent, ?_, ?_⟩
      · rw [hparse, hmagnitude]
      · rw [← hmagnitude]
        exact (Except.ok.inj h).symm

theorem refines_number {value : FiniteF64} (h : narrowNumber value location = .ok decoded) :
    ∃ bits, decoded = .f32Bits bits ∧ FloatMeans .f32 bits (.finite value) := by
  obtain ⟨factor, exponent, hparse, hdecoded⟩ := narrowNumber_ok h
  have hvalue : RepresentableF32 value := significand_of_parseF32 hparse
  exact ⟨_, hdecoded, .finite32 hvalue rfl⟩

/-- The decoded number with the given bits. -/
def ofBits (width : FloatWidth) (bits : Nat) : Value :=
  match width with
  | .f32 => .f32Bits bits
  | .f64 => .f64Bits bits

theorem means_symbol {width : FloatWidth} {text : String}
    (h : symbolBits width text = some decoded) :
    ∃ bits value, parseDouble readers (.symbol text) = some value ∧ FloatMeans width bits value ∧
      decoded = ofBits width bits := by
  unfold parseDouble
  unfold symbolBits at h
  cases width with
  | f32 =>
    dsimp only at h ⊢
    split_ifs at h with hnan hinfinity hnegative
    · exact ⟨_, .nan, by rw [if_pos hnan], .nan32 rfl, (Option.some.inj h).symm⟩
    · refine ⟨_, .infinity, ?_, .infinity32 rfl, (Option.some.inj h).symm⟩
      rw [if_neg hnan, if_pos hinfinity]
    · refine ⟨_, .negativeInfinity, ?_, .negative32 rfl, (Option.some.inj h).symm⟩
      rw [if_neg hnan, if_neg hinfinity, if_pos hnegative]
  | f64 =>
    dsimp only at h ⊢
    split_ifs at h with hnan hinfinity hnegative
    · exact ⟨_, .nan, by rw [if_pos hnan], .nan64 rfl, (Option.some.inj h).symm⟩
    · refine ⟨_, .infinity, ?_, .infinity64 rfl, (Option.some.inj h).symm⟩
      rw [if_neg hnan, if_pos hinfinity]
    · refine ⟨_, .negativeInfinity, ?_, .negative64 rfl, (Option.some.inj h).symm⟩
      rw [if_neg hnan, if_neg hinfinity, if_pos hnegative]

theorem primitive_of_means {bits : Nat} {value : F64Value} (h : FloatMeans .f32 bits value) :
    PrimitiveValue "f32" (.double value) := by
  cases h with
  | finite32 hx => exact .f32 hx
  | _ => exact .f32Symbol (by simp)

theorem refines_f32 (h : decodeFloat wire .f32 location = .ok decoded) :
    RefinesPrimitive readers "f32" wire decoded := by
  unfold decodeFloat at h
  split at h
  · rename_i value
    obtain ⟨bits, rfl, hmeans⟩ := refines_number h
    exact ⟨_, .float (.finite value), reads_double rfl, primitive_of_means hmeans, rfl,
      .f32 hmeans rfl⟩
  · rename_i text
    obtain ⟨bits, value, hparse, hmeans, rfl⟩ := @means_symbol readers _ _ _ (okOr_eq_ok.mp h)
    exact ⟨_, .float value, reads_double hparse, primitive_of_means hmeans, rfl, .f32 hmeans rfl⟩
  · cases h

theorem refines_f64 (h : decodeFloat wire .f64 location = .ok decoded) :
    RefinesPrimitive readers "f64" wire decoded := by
  unfold decodeFloat at h
  split at h
  · rename_i value
    obtain rfl := Except.ok.inj h
    exact ⟨_, .float (.finite value), reads_double rfl, .f64 _, rfl, .f64 (.finite64 rfl) rfl⟩
  · rename_i text
    obtain ⟨bits, value, hparse, hmeans, rfl⟩ := @means_symbol readers _ _ _ (okOr_eq_ok.mp h)
    exact ⟨_, .float value, reads_double hparse, .f64 _, rfl, .f64 hmeans rfl⟩
  · cases h

theorem refines_primitive {name : String} (h : decodePrimitive name wire location = .ok decoded) :
    RefinesPrimitive readers name wire decoded := by
  unfold decodePrimitive at h
  split_ifs at h with hunit hstring hbool hi32 hi64 hu32 hu64 hf32 hf64 hbytes
  · exact hunit ▸ refines_unit h
  · exact hstring ▸ refines_string h
  · exact hbool ▸ refines_bool h
  · obtain ⟨value, hvalue, rfl⟩ := map_eq_ok.mp h
    exact hi32 ▸ refines_i32 hvalue
  · obtain ⟨value, hvalue, rfl⟩ := map_eq_ok.mp h
    exact hi64 ▸ refines_i64 hvalue
  · obtain ⟨value, hvalue, rfl⟩ := map_eq_ok.mp h
    exact hu32 ▸ refines_u32 hvalue
  · exact hu64 ▸ refines_u64 h
  · exact hf32 ▸ refines_f32 h
  · exact hf64 ▸ refines_f64 h

end Primitives

/-! ### Lists of values -/

/-- The loader reads a wire value as a value that the validator accepts at the type, and the
decoded value stands for its canonical value. -/
structure Refined (readers : TextReaders) (set : RegistrySet) (component : ResolvedComponent)
    (type : ReplayType) (wire : AnyValue) (decoded : Value) (value : Values.AnyValue)
    (canonical : CanonicalValue) : Prop where
  reads : Reads readers wire value
  accepted : ∀ location, validateValue set component (typeRef type) value location = []
  canonicalised : canonicalValue set component (typeRef type) value = some canonical
  means : Means type decoded canonical

def Refines (readers : TextReaders) (set : RegistrySet) (component : ResolvedComponent)
    (type : ReplayType) (wire : AnyValue) (decoded : Value) : Prop :=
  ∃ value canonical, Refined readers set component type wire decoded value canonical

section Lists

variable {readers : TextReaders} {set : RegistrySet} {component : ResolvedComponent}

theorem refined_items {type : ReplayType} {wires : List AnyValue} {decodeds : List Value}
    (h : List.Forall₂ (Refines readers set component type) wires decodeds) :
    ∃ values canonicals, List.Forall₂ (Reads readers) wires values ∧
      (∀ value ∈ values, ∀ location,
        validateValue set component (typeRef type) value location = []) ∧
      collect (canonicalValue set component (typeRef type)) values = some canonicals ∧
      List.Forall₂ (Means type) decodeds canonicals := by
  induction h with
  | nil => exact ⟨[], [], .nil, fun _ h => absurd h List.not_mem_nil, rfl, .nil⟩
  | cons hfirst _ ih =>
    obtain ⟨value, canonical, hvalue⟩ := hfirst
    obtain ⟨values, canonicals, hreads, haccepted, hcollect, hmeans⟩ := ih
    refine ⟨value :: values, canonical :: canonicals, .cons hvalue.reads hreads, ?_, ?_,
      .cons hvalue.means hmeans⟩
    · intro other hother
      rcases List.mem_cons.mp hother with rfl | hrest
      · exact hvalue.accepted
      · exact haccepted other hrest
    · rw [collect, hvalue.canonicalised, hcollect]
      rfl

/-- A field decodes under its key. -/
def RefinesField (readers : TextReaders) (set : RegistrySet) (component : ResolvedComponent)
    (type : ReplayType) (wire : String × AnyValue) (decoded : String × Value) : Prop :=
  wire.1 = decoded.1 ∧ Refines readers set component type wire.2 decoded.2

theorem refined_fields {type : ReplayType} {wires : KeyValues} {decodeds : List (String × Value)}
    (h : List.Forall₂ (RefinesField readers set component type) wires decodeds) :
    ∃ entries canonicals, List.Forall₂ (ReadsEntry readers) wires entries ∧
      keys entries = keys decodeds ∧
      (∀ entry ∈ entries, ∀ location,
        validateValue set component (typeRef type) entry.2 location = []) ∧
      collect (fun entry => (canonicalValue set component (typeRef type) entry.2).map fun value =>
        (CanonicalValue.string entry.1, value)) entries = some canonicals ∧
      List.Forall₂ (Both (fun key canonical => canonical = .string key) (Means type)) decodeds
        canonicals := by
  induction h with
  | nil => exact ⟨[], [], .nil, rfl, fun _ h => absurd h List.not_mem_nil, rfl, .nil⟩
  | @cons wire decoded _ _ hfirst _ ih =>
    obtain ⟨hkey, value, canonical, hvalue⟩ := hfirst
    obtain ⟨entries, canonicals, hreads, hkeys, haccepted, hcollect, hmeans⟩ := ih
    refine ⟨(decoded.1, value) :: entries, (.string decoded.1, canonical) :: canonicals,
      .cons ⟨hkey, hvalue.reads⟩ hreads, ?_, ?_, ?_, .cons ⟨rfl, hvalue.means⟩ hmeans⟩
    · rw [keys_cons, keys_cons, hkeys]
    · intro other hother
      rcases List.mem_cons.mp hother with rfl | hrest
      · exact hvalue.accepted
      · exact haccepted other hrest
    · rw [collect, hvalue.canonicalised, hcollect]
      rfl

/-- A wire map entry decodes to a key and a value. -/
def RefinesEntry (readers : TextReaders) (set : RegistrySet) (component : ResolvedComponent)
    (keyType valueType : ReplayType) (wire : AnyValue) (decoded : Value × Value) : Prop :=
  ∃ parts location, entryParts wire location = .ok parts ∧
    Refines readers set component keyType parts.1 decoded.1 ∧
    Refines readers set component valueType parts.2 decoded.2

/-- A map entry holds a key and a value and nothing else, in either order. -/
theorem entryParts_ok {wire : AnyValue} {location : String} {parts : AnyValue × AnyValue}
    (h : entryParts wire location = .ok parts) :
    wire = .kvlist [("key", parts.1), ("value", parts.2)] ∨
      wire = .kvlist [("value", parts.2), ("key", parts.1)] := by
  unfold entryParts at h
  split at h
  · rename_i fields
    split at h
    · rename_i key item hkey hitem
      split_ifs at h with hlength
      obtain rfl := Except.ok.inj h
      have hkeyName : key.1 = "key" := by simpa using List.find?_some hkey
      have hitemName : item.1 = "value" := by simpa using List.find?_some hitem
      have hkeyMem := List.mem_of_find?_eq_some hkey
      have hitemMem := List.mem_of_find?_eq_some hitem
      obtain ⟨keyText, keyValue⟩ := key
      obtain ⟨itemText, itemValue⟩ := item
      obtain rfl : keyText = "key" := hkeyName
      obtain rfl : itemText = "value" := hitemName
      match fields, not_not.mp hlength with
      | [first, second], _ =>
        rcases List.mem_cons.mp hkeyMem with rfl | hkeySecond
        · left
          rcases List.mem_cons.mp hitemMem with hsame | hitemSecond
          · simp at hsame
          · rw [List.mem_singleton.mp hitemSecond]
        · right
          obtain rfl := List.mem_singleton.mp hkeySecond
          rcases List.mem_cons.mp hitemMem with rfl | hitemSecond
          · rfl
          · simp at hitemSecond
    · cases h
  · cases h

theorem mapEntry_ofList {fields : List (String × Values.AnyValue)} {key value : Values.AnyValue}
    (hperm : fields.Perm [("key", key), ("value", value)]) :
    mapEntry (.kvList (ofList fields)) = some (key, value) := by
  have hkeys : (keys fields).Perm ["key", "value"] := hperm.map Prod.fst
  have hnodup : (keys fields).Nodup := hkeys.nodup_iff.mpr (by decide)
  have hall := (ofList_perm hnodup).trans hperm
  have hsorted := (sorted_ofList fields).keys_nodup
  have hkey : lookup (ofList fields) "key" = some key :=
    lookup_of_mem hsorted (hall.mem_iff.mpr List.mem_cons_self)
  have hvalue : lookup (ofList fields) "value" = some value :=
    lookup_of_mem hsorted (hall.mem_iff.mpr (List.mem_cons_of_mem _ List.mem_cons_self))
  rw [mapEntry, if_neg (by rw [hall.length_eq]; simp), hkey, hvalue]

theorem reads_entry {wire : AnyValue} {location : String} {parts : AnyValue × AnyValue}
    {key value : Values.AnyValue} (h : entryParts wire location = .ok parts)
    (hkey : Reads readers parts.1 key) (hvalue : Reads readers parts.2 value) :
    ∃ entry, Reads readers wire entry ∧ mapEntry entry = some (key, value) := by
  rcases entryParts_ok h with rfl | rfl
  · refine ⟨_, @reads_kvlist readers _ [("key", key), ("value", value)]
      (.cons ⟨rfl, hkey⟩ (.cons ⟨rfl, hvalue⟩ .nil)) (by simp), mapEntry_ofList (.refl _)⟩
  · refine ⟨_, @reads_kvlist readers _ [("value", value), ("key", key)]
      (.cons ⟨rfl, hvalue⟩ (.cons ⟨rfl, hkey⟩ .nil)) (by simp), mapEntry_ofList (.swap _ _ _)⟩

theorem refined_entries {keyType valueType : ReplayType} {wires : List AnyValue}
    {decodeds : List (Value × Value)}
    (h : List.Forall₂ (RefinesEntry readers set component keyType valueType) wires decodeds) :
    ∃ entries pairs canonicals, List.Forall₂ (Reads readers) wires entries ∧
      entries.map mapEntry = pairs.map some ∧
      (∀ pair ∈ pairs, ∀ location,
        validateValue set component (typeRef keyType) pair.1 location = [] ∧
        validateValue set component (typeRef valueType) pair.2 location = []) ∧
      collect (canonicalPair set component (typeRef keyType) (typeRef valueType)) pairs =
        some canonicals ∧
      List.Forall₂ (Both (Means keyType) (Means valueType)) decodeds canonicals := by
  induction h with
  | nil => exact ⟨[], [], [], .nil, rfl, fun _ h => absurd h List.not_mem_nil, rfl, .nil⟩
  | cons hfirst _ ih =>
    obtain ⟨parts, location, hparts, ⟨key, canonicalKey, hkey⟩, ⟨value, canonicalItem, hvalue⟩⟩ :=
      hfirst
    obtain ⟨entry, hentry, hmap⟩ := reads_entry hparts hkey.reads hvalue.reads
    obtain ⟨entries, pairs, canonicals, hreads, hpairs, haccepted, hcollect, hmeans⟩ := ih
    refine ⟨entry :: entries, (key, value) :: pairs, (canonicalKey, canonicalItem) :: canonicals,
      .cons hentry hreads, ?_, ?_, ?_, .cons ⟨hkey.means, hvalue.means⟩ hmeans⟩
    · rw [List.map_cons, List.map_cons, hmap, hpairs]
    · intro other hother
      rcases List.mem_cons.mp hother with rfl | hrest
      · exact fun location => ⟨hkey.accepted location, hvalue.accepted location⟩
      · exact haccepted other hrest
    · rw [collect, hcollect, canonicalPair, hkey.canonicalised, hvalue.canonicalised]
      rfl

end Lists

/-! ### What a decoder has decoded -/

section Decoding

variable {location : String}

theorem decodeEntries_ok {decodeKey decodeItem : AnyValue → String → Except Failure Value}
    {seen : List Value} {entries : List (AnyValue × Nat)} {results : List (Value × Value)}
    (h : decodeEntries decodeKey decodeItem location seen entries = .ok results) :
    List.Forall₂ (fun entry result => ∃ parts place keyPlace itemPlace,
        entryParts entry.1 place = .ok parts ∧ decodeKey parts.1 keyPlace = .ok result.1 ∧
        decodeItem parts.2 itemPlace = .ok result.2) entries results ∧
      (keys results).Nodup ∧ ∀ key ∈ keys results, key ∉ seen := by
  induction entries generalizing seen results with
  | nil =>
    rw [decodeEntries] at h
    obtain rfl := Except.ok.inj h
    exact ⟨.nil, List.nodup_nil, fun _ h => absurd h List.not_mem_nil⟩
  | cons entry rest ih =>
    obtain ⟨wire, index⟩ := entry
    rw [decodeEntries] at h
    obtain ⟨parts, hparts, h⟩ := bind_eq_ok.mp h
    obtain ⟨key, hkey, h⟩ := bind_eq_ok.mp h
    obtain ⟨hfresh, h⟩ := ensure_bind_eq_ok.mp h
    obtain ⟨item, hitem, h⟩ := bind_eq_ok.mp h
    obtain ⟨others, hothers, h⟩ := bind_eq_ok.mp h
    obtain rfl := Except.ok.inj h
    obtain ⟨hall, hnodup, hnew⟩ := ih hothers
    refine ⟨.cons ⟨parts, _, _, _, hparts, hkey, hitem⟩ hall, ?_, ?_⟩
    · rw [keys_cons, List.nodup_cons]
      exact ⟨fun hmem => hnew key hmem List.mem_cons_self, hnodup⟩
    · intro other hother
      rw [keys_cons] at hother
      rcases List.mem_cons.mp hother with rfl | hrest
      · exact of_decide_eq_true hfresh
      · exact fun hseen => hnew other hrest (List.mem_cons_of_mem _ hseen)

theorem decodeFields_ok {decodeItem : AnyValue → String → Except Failure Value}
    {seen : List String} {entries : KeyValues} {results : List (String × Value)}
    (h : decodeFields decodeItem location seen entries = .ok results) :
    List.Forall₂ (fun entry result => entry.1 = result.1 ∧
        ∃ place, decodeItem entry.2 place = .ok result.2) entries results ∧
      (keys results).Nodup ∧ ∀ key ∈ keys results, key ∉ seen := by
  induction entries generalizing seen results with
  | nil =>
    rw [decodeFields] at h
    obtain rfl := Except.ok.inj h
    exact ⟨.nil, List.nodup_nil, fun _ h => absurd h List.not_mem_nil⟩
  | cons entry rest ih =>
    obtain ⟨key, wire⟩ := entry
    rw [decodeFields] at h
    obtain ⟨item, hitem, h⟩ := bind_eq_ok.mp h
    obtain ⟨hfresh, h⟩ := ensure_bind_eq_ok.mp h
    obtain ⟨others, hothers, h⟩ := bind_eq_ok.mp h
    obtain rfl := Except.ok.inj h
    obtain ⟨hall, hnodup, hnew⟩ := ih hothers
    refine ⟨.cons ⟨rfl, _, hitem⟩ hall, ?_, ?_⟩
    · rw [keys_cons, List.nodup_cons]
      exact ⟨fun hmem => hnew key hmem List.mem_cons_self, hnodup⟩
    · intro other hother
      rw [keys_cons] at hother
      rcases List.mem_cons.mp hother with rfl | hrest
      · exact of_decide_eq_true hfresh
      · exact fun hseen => hnew other hrest (List.mem_cons_of_mem _ hseen)

theorem collection_ok {ordered unique : Bool} {values : List Value} {decoded : Value}
    (h : collection ordered unique values location = .ok decoded) :
    (unique = true → values.Nodup) ∧ decoded = collected ordered unique values := by
  unfold collection at h
  unfold collected
  cases unique with
  | true =>
    rw [if_pos rfl] at h
    by_cases hlength : (toSet values).length ≠ values.length
    · rw [if_pos hlength] at h
      cases h
    rw [if_neg hlength] at h
    have hnodup : values.Nodup := length_distinct_eq_iff.mp (not_not.mp hlength)
    refine ⟨fun _ => hnodup, (Except.ok.inj h).symm.trans ?_⟩
    cases ordered with
    | true => rfl
    | false => rfl
  | false =>
    rw [if_neg Bool.false_ne_true] at h
    exact ⟨fun hunique => absurd hunique Bool.false_ne_true, (Except.ok.inj h).symm⟩

theorem decodeOptional_ok {decodeInner : AnyValue → String → Except Failure Value}
    {wire : AnyValue} {decoded : Value} (h : decodeOptional decodeInner wire location = .ok decoded) :
    (∃ payload place value, wire = .kvlist [("Some", payload)] ∧
      decodeInner payload place = .ok value ∧ decoded = .optional (some value)) ∨
    (∃ payload place value, wire = .kvlist [("None", payload)] ∧
      decodePrimitive "unit" payload place = .ok value ∧ decoded = .optional none) := by
  unfold decodeOptional at h
  split at h
  · rename_i tag payload
    split_ifs at h with hsome hnone
    · obtain ⟨value, hvalue, rfl⟩ := map_eq_ok.mp h
      exact .inl ⟨payload, _, value, by rw [hsome], hvalue, rfl⟩
    · obtain ⟨value, hvalue, rfl⟩ := map_eq_ok.mp h
      exact .inr ⟨payload, _, value, by rw [hnone], hvalue, rfl⟩
  · cases h
  · cases h

theorem decodeMap_ok {keyName : Option String} {ordered : Bool}
    {decodeKey decodeItem : AnyValue → String → Except Failure Value} {wire : AnyValue}
    {decoded : Value}
    (h : decodeMap keyName ordered decodeKey decodeItem wire location = .ok decoded) :
    ((!ordered && keyName == some "string") = true ∧ ∃ wires entries, wire = .kvlist wires ∧
      decodeFields decodeItem location [] wires = .ok entries ∧ decoded = .map (ofList entries)) ∨
    ((!ordered && keyName == some "string") = false ∧ ∃ wires entries, wire = .array wires ∧
      decodeEntries decodeKey decodeItem location [] wires.zipIdx = .ok entries ∧
      decoded = .mapEntries (if ordered then entries else Sorting.sort entries)) := by
  unfold decodeMap at h
  by_cases hcoded : ordered = true ∨ keyName ≠ some "string"
  · right
    rw [if_pos hcoded] at h
    split at h
    · obtain ⟨entries, hentries, rfl⟩ := map_eq_ok.mp h
      refine ⟨?_, _, entries, rfl, hentries, rfl⟩
      rcases hcoded with rfl | hname
      · rfl
      · rw [beq_eq_false_iff_ne.mpr hname, Bool.and_false]
    · cases h
  · left
    rw [if_neg hcoded] at h
    split at h
    · obtain ⟨entries, hentries, rfl⟩ := map_eq_ok.mp h
      exact ⟨by simpa using hcoded, _, entries, rfl, hentries, rfl⟩
    · cases h

/-- Relations to indexed elements are relations to the elements. -/
theorem forall₂_of_zipIdx {α β : Type} {R : α → β → Prop} {values : List α} {results : List β}
    (h : List.Forall₂ (fun item result => R item.1 result) values.zipIdx results) :
    List.Forall₂ R values results := by
  have hmap : List.Forall₂ R (values.zipIdx.map Prod.fst) results :=
    List.forall₂_map_left_iff.mpr h
  rwa [List.zipIdx_map_fst] at hmap

end Decoding

/-! ### Types -/

section Types

variable {readers : TextReaders} {set : RegistrySet} {component : ResolvedComponent}

theorem refines_of_primitive {name : String} {wire : AnyValue} {decoded : Value}
    {location : String} (h : decodePrimitive name wire location = .ok decoded) :
    Refines readers set component (.primitive name) wire decoded := by
  obtain ⟨value, canonical, hreads, hvalue, hcanonical, hmeans⟩ := @refines_primitive readers _ _ _ _ h
  refine ⟨value, canonical, hreads, fun place => ?_, ?_, hmeans⟩
  · rw [typeRef, validateValue]
    exact validatePrimitive_eq_nil.mpr hvalue
  · rw [typeRef, canonicalValue_primitive]
    exact hcanonical

theorem refines_collection {items : ReplayType} {ordered unique : Bool} {wires : List AnyValue}
    {decodeds : List Value} (h : List.Forall₂ (Refines readers set component items) wires decodeds)
    (hunique : unique = true → decodeds.Nodup) :
    Refines readers set component (.collection items ordered unique) (.array wires)
      (collected ordered unique decodeds) := by
  obtain ⟨values, canonicals, hreads, haccepted, hcollect, hmeans⟩ := refined_items h
  refine ⟨.array values, _, reads_array hreads, fun location => ?_, ?_,
    decodeds, canonicals, hmeans, hunique, rfl, rfl⟩
  · rw [typeRef, validateValue_collection]
    refine ⟨values, rfl, fun i hi => haccepted _ (List.getElem_mem hi) _, fun h => ?_⟩
    rw [filterMap_of_collect hcollect]
    exact (List.rel_nodup (biUnique_means items) hmeans).mp (hunique h)
  · rw [typeRef, canonicalValue_collection, hcollect]
    rfl

theorem isStringType_typeRef (type : ReplayType) :
    isStringType (typeRef type) = (type.primitiveName == some "string") := by
  cases type with
  | primitive name =>
    rw [typeRef, isStringType, ReplayType.primitiveName]
    rfl
  | _ => rfl

theorem refines_stringMap {keyType valueType : ReplayType} {ordered : Bool} {wires : KeyValues}
    {decodeds : List (String × Value)}
    (hstring : (!ordered && keyType.primitiveName == some "string") = true)
    (h : List.Forall₂ (RefinesField readers set component valueType) wires decodeds)
    (hnodup : (keys decodeds).Nodup) :
    Refines readers set component (.map keyType valueType ordered) (.kvlist wires)
      (.map (ofList decodeds)) := by
  obtain ⟨entries, canonicals, hreads, hkeys, haccepted, hcollect, hmeans⟩ := refined_fields h
  have hentries : (keys entries).Nodup := hkeys ▸ hnodup
  have hperm := ofList_perm hentries
  obtain ⟨sorted, hsorted, hpermuted⟩ := collect_of_perm hcollect hperm.symm
  have hcanonicals : (keys canonicals).Nodup :=
    (List.rel_nodup biUnique_key (forall₂_fst hmeans)).mp hnodup
  have htype : (!ordered && isStringType (typeRef keyType)) = true := by
    rw [isStringType_typeRef]
    exact hstring
  refine ⟨.kvList (ofList entries), .map (ofList canonicals), reads_kvlist hreads hentries,
    fun location => ?_, ?_, ?_⟩
  · rw [typeRef, validateValue_map_kvList htype]
    exact ⟨_, rfl, fun entry hentry => haccepted entry (hperm.mem_iff.mp hentry) _⟩
  · have hsortedKeys : (keys sorted).Nodup := (hpermuted.map Prod.fst).nodup_iff.mp hcanonicals
    rw [typeRef, canonicalValue_map_kvList htype, hsorted, Option.map_some,
      (ofList_eq_iff_perm hsortedKeys hcanonicals).mpr hpermuted.symm]
  · unfold Means
    rw [if_pos hstring]
    exact ⟨decodeds, canonicals, hmeans, hnodup, rfl, rfl⟩

theorem refines_entryMap {keyType valueType : ReplayType} {ordered : Bool} {wires : List AnyValue}
    {decodeds : List (Value × Value)}
    (hstring : (!ordered && keyType.primitiveName == some "string") = false)
    (h : List.Forall₂ (RefinesEntry readers set component keyType valueType) wires decodeds)
    (hnodup : (keys decodeds).Nodup) :
    Refines readers set component (.map keyType valueType ordered) (.array wires)
      (.mapEntries (if ordered then decodeds else Sorting.sort decodeds)) := by
  obtain ⟨entries, pairs, canonicals, hreads, hpairs, haccepted, hcollect, hmeans⟩ :=
    refined_entries h
  have hcanonicals : (keys canonicals).Nodup :=
    (List.rel_nodup (biUnique_means keyType) (forall₂_fst hmeans)).mp hnodup
  have htype : (!ordered && isStringType (typeRef keyType)) = false := by
    rw [isStringType_typeRef]
    exact hstring
  have hsome : ∀ pair ∈ pairs, ∃ key,
      canonicalValue set component (typeRef keyType) pair.1 = some key := by
    intro pair hpair
    have hmem : canonicalPair set component (typeRef keyType) (typeRef valueType) pair ∈
        canonicals.map some := by
      rw [← collect_eq_some_iff.mp hcollect]
      exact List.mem_map_of_mem hpair
    obtain ⟨canonical, -, hcanonical⟩ := List.mem_map.mp hmem
    exact ⟨_, (canonicalPair_eq_some.mp hcanonical.symm).1⟩
  have hkeys : (pairs.map fun pair =>
      canonicalValue set component (typeRef keyType) pair.1).Nodup := by
    have hmap : canonicals.map (fun canonical => some canonical.1) = pairs.map fun pair =>
        canonicalValue set component (typeRef keyType) pair.1 :=
      map_of_collect hcollect fun pair canonical hcanonical =>
        (canonicalPair_eq_some.mp hcanonical).1.symm
    rw [← hmap]
    have hcompose : canonicals.map (fun canonical => some canonical.1) = (keys canonicals).map some := by
      rw [keys, List.map_map]
      rfl
    rw [hcompose]
    exact hcanonicals.map (Option.some_injective _)
  have hlength : entries.length = pairs.length := by simpa using congrArg List.length hpairs
  refine ⟨.array entries, if ordered then .orderedMap canonicals else .map (ofList canonicals),
    reads_array hreads, fun location => ?_, ?_, ?_⟩
  · rw [typeRef, validateValue_map_array htype]
    refine ⟨entries, rfl, fun i hi => ⟨pairs[i].1, pairs[i].2, ?_, ?_, ?_, ?_⟩⟩
    · have hget := congrArg (·[i]?) hpairs
      simpa [hi, hlength ▸ hi] using hget
    · exact (haccepted _ (List.getElem_mem (hlength ▸ hi)) _).1
    · exact (haccepted _ (List.getElem_mem (hlength ▸ hi)) _).2
    · exact (repeatsKey_iff_nodup hpairs hsome).mpr hkeys i (hlength ▸ hi)
  · rw [typeRef, canonicalValue_map_array htype, collect_canonicalEntry hpairs, hcollect]
    rfl
  · unfold Means
    rw [if_neg (by rw [hstring]; exact Bool.false_ne_true)]
    exact ⟨decodeds, canonicals, hmeans, hnodup, rfl, rfl⟩

theorem refines_none {inner : ReplayType} {payload : AnyValue} {value : Value} {location : String}
    (h : decodePrimitive "unit" payload location = .ok value) :
    Refines readers set component (.optional inner) (.kvlist [("None", payload)])
      (.optional none) := by
  obtain ⟨value, canonical, hreads, hvalue, hcanonical, hmeans⟩ := @refines_primitive readers _ _ _ _ h
  obtain rfl := unit_eq hvalue
  refine ⟨.kvList (ofList [("None", .kvList [])]), _,
    reads_kvlist (.cons ⟨rfl, hreads⟩ .nil) (List.nodup_singleton _), fun place => ?_, ?_,
    .inl ⟨rfl, rfl⟩⟩
  · rw [typeRef, validateValue_optional]
    exact .inl ⟨_, rfl, validatePrimitive_eq_nil.mpr .unit⟩
  · rw [typeRef]
    exact canonicalValue_optional_none _ _ _

theorem refines_some {inner : ReplayType} {payload : AnyValue} {value : Value}
    (h : Refines readers set component inner payload value) :
    Refines readers set component (.optional inner) (.kvlist [("Some", payload)])
      (.optional (some value)) := by
  obtain ⟨loaded, canonical, hloaded⟩ := h
  refine ⟨.kvList (ofList [("Some", loaded)]), .variant "Some" canonical,
    reads_kvlist (.cons ⟨rfl, hloaded.reads⟩ .nil) (List.nodup_singleton _), fun place => ?_, ?_,
    .inr ⟨value, canonical, hloaded.means, rfl, rfl⟩⟩
  · rw [typeRef, validateValue_optional]
    exact .inr ⟨loaded, rfl, hloaded.accepted _⟩
  · rw [typeRef]
    refine (canonicalValue_optional_some _ _ _).trans ?_
    rw [hloaded.canonicalised]
    rfl

/-- The values of a tuple refine the declared types one by one. -/
def RefinesAll (readers : TextReaders) (set : RegistrySet) (component : ResolvedComponent)
    (types : List ReplayType) (wires : List AnyValue) (decodeds : List Value) : Prop :=
  ∃ values canonicals, List.Forall₂ (Reads readers) wires values ∧
    List.Forall₂ (fun value type => ∀ location,
      validateValue set component type value location = []) values (typeRefs types) ∧
    collect (fun pair => canonicalValue set component pair.2 pair.1)
      (values.zip (typeRefs types)) = some canonicals ∧
    MeanAll types decodeds canonicals

theorem RefinesAll.cons {type : ReplayType} {types : List ReplayType} {wire : AnyValue}
    {wires : List AnyValue} {decoded : Value} {decodeds : List Value}
    (hfirst : Refines readers set component type wire decoded)
    (hrest : RefinesAll readers set component types wires decodeds) :
    RefinesAll readers set component (type :: types) (wire :: wires) (decoded :: decodeds) := by
  obtain ⟨value, canonical, hvalue⟩ := hfirst
  obtain ⟨values, canonicals, hreads, haccepted, hcollect, hmeans⟩ := hrest
  refine ⟨value :: values, canonical :: canonicals, .cons hvalue.reads hreads,
    .cons hvalue.accepted haccepted, ?_, decoded, decodeds, canonical, canonicals, hvalue.means,
    hmeans, rfl, rfl⟩
  rw [typeRefs, List.zip_cons_cons, collect, hvalue.canonicalised, hcollect]
  rfl

theorem refines_tuple {items : List ReplayType} {wires : List AnyValue} {decodeds : List Value}
    (h : RefinesAll readers set component items wires decodeds) :
    Refines readers set component (.tuple items) (.array wires) (.tuple decodeds) := by
  obtain ⟨values, canonicals, hreads, haccepted, hcollect, hmeans⟩ := h
  refine ⟨.array values, .tuple canonicals, reads_array hreads, fun location => ?_, ?_,
    decodeds, canonicals, hmeans, rfl, rfl⟩
  · rw [typeRef, validateValue_tuple]
    exact ⟨values, rfl, haccepted.length_eq, fun i hi hi' => haccepted.get hi hi' _⟩
  · rw [typeRef, canonicalValue_tuple haccepted.length_eq, hcollect]
    rfl

mutual

/-- What decodes at a type refines linked validation at the type. -/
theorem refines_of_decode : ∀ (type : ReplayType) {wire : AnyValue} {location : String}
    {decoded : Value}, decodeValue type wire location = .ok decoded →
      Refines readers set component type wire decoded
  | .primitive name, wire, location, decoded, h => refines_of_primitive h
  | .named name owner, wire, location, decoded, h => by cases h
  | .record fields, wire, location, decoded, h => by cases h
  | .collection items ordered unique, wire, location, decoded, h => by
      cases wire with
      | array wires =>
        rw [decodeValue] at h
        obtain ⟨decodeds, hall, hcollection⟩ := bind_eq_ok.mp h
        obtain ⟨hunique, rfl⟩ := collection_ok hcollection
        refine refines_collection (forall₂_of_zipIdx ?_) hunique
        exact (mapAll_eq_ok.mp hall).imp fun _ _ hitem => refines_of_decode items hitem
      | _ => cases h
  | .map keyType valueType ordered, wire, location, decoded, h => by
      rw [decodeValue] at h
      rcases decodeMap_ok h with ⟨hstring, wires, decodeds, rfl, hfields, rfl⟩ |
        ⟨hstring, wires, decodeds, rfl, hentries, rfl⟩
      · obtain ⟨hall, hnodup, -⟩ := decodeFields_ok hfields
        refine refines_stringMap hstring (hall.imp fun _ _ hfield => ?_) hnodup
        obtain ⟨hkey, place, hitem⟩ := hfield
        exact ⟨hkey, refines_of_decode valueType hitem⟩
      · obtain ⟨hall, hnodup, -⟩ := decodeEntries_ok hentries
        refine refines_entryMap hstring (forall₂_of_zipIdx ?_) hnodup
        refine hall.imp fun _ _ hentry => ?_
        obtain ⟨parts, place, keyPlace, itemPlace, hparts, hkey, hitem⟩ := hentry
        exact ⟨parts, place, hparts, refines_of_decode keyType hkey,
          refines_of_decode valueType hitem⟩
  | .tuple items, wire, location, decoded, h => by
      cases wire with
      | array wires =>
        rw [decodeValue] at h
        by_cases hlength : wires.length ≠ items.length
        · rw [if_pos hlength] at h
          cases h
        rw [if_neg hlength] at h
        obtain ⟨decodeds, hall, rfl⟩ := map_eq_ok.mp h
        exact refines_tuple (refinesAll_of_decode items (not_not.mp hlength) hall)
      | _ => cases h
  | .optional inner, wire, location, decoded, h => by
      rw [decodeValue] at h
      rcases decodeOptional_ok h with ⟨payload, place, value, rfl, hvalue, rfl⟩ |
        ⟨payload, place, value, rfl, hvalue, rfl⟩
      · exact refines_some (refines_of_decode inner hvalue)
      · exact refines_none hvalue
termination_by structural type => type

theorem refinesAll_of_decode : ∀ (types : List ReplayType) {wires : List AnyValue} {index : Nat}
    {location : String} {decodeds : List Value}, wires.length = types.length →
      decodeItems types wires index location = .ok decodeds →
        RefinesAll readers set component types wires decodeds
  | [], wires, index, location, decodeds, hlength, h => by
      obtain rfl := List.length_eq_zero_iff.mp hlength
      rw [decodeItems] at h
      obtain rfl := Except.ok.inj h
      · exact ⟨[], [], .nil, .nil, rfl, rfl, rfl⟩
      · simp
  | type :: types, wires, index, location, decodeds, hlength, h => by
      cases wires with
      | nil => cases hlength
      | cons wire wires =>
        rw [decodeItems] at h
        obtain ⟨decoded, hfirst, h⟩ := bind_eq_ok.mp h
        obtain ⟨others, hothers, h⟩ := bind_eq_ok.mp h
        obtain rfl := Except.ok.inj h
        exact .cons (refines_of_decode type hfirst)
          (refinesAll_of_decode types (Nat.succ.inj hlength) hothers)
termination_by structural types => types

end

end Types

/-- A wire value that decodes for replay is read and accepted as a value of the type, and two
decoded values are equal exactly when their canonical values are. -/
theorem decoding_refines (readers : TextReaders) (set : RegistrySet)
    (component : ResolvedComponent) (type : ReplayType) :
    (∀ wire location decoded, decodeValue type wire location = .ok decoded →
      ∃ value, Reads readers wire value ∧
        ∀ place, validateValue set component (typeRef type) value place = []) ∧
    ∀ left right leftLocation rightLocation leftDecoded rightDecoded leftValue rightValue,
      decodeValue type left leftLocation = .ok leftDecoded →
      decodeValue type right rightLocation = .ok rightDecoded →
      Reads readers left leftValue → Reads readers right rightValue →
        (leftDecoded = rightDecoded ↔
          canonicalValue set component (typeRef type) leftValue =
            canonicalValue set component (typeRef type) rightValue) := by
  constructor
  · intro wire location decoded h
    obtain ⟨value, canonical, hvalue⟩ := refines_of_decode type h
    exact ⟨value, hvalue.reads, hvalue.accepted⟩
  · intro left right leftLocation rightLocation leftDecoded rightDecoded leftValue rightValue
      hleft hright hreadsLeft hreadsRight
    obtain ⟨value, canonical, hvalue⟩ := refines_of_decode type hleft
    obtain ⟨other, otherCanonical, hother⟩ := refines_of_decode type hright
    obtain rfl := hreadsLeft.unique hvalue.reads
    obtain rfl := hreadsRight.unique hother.reads
    rw [hvalue.canonicalised, hother.canonicalised, Option.some.injEq]
    exact eq_iff_of_biUnique (biUnique_means type) hvalue.means hother.means

/-- Readers of no text, for values without such texts. -/
def noTexts : TextReaders := ⟨fun _ => none, fun _ => none⟩

/-- A bag of two integers in a given order, one of them written with a sign. -/
def bagType : ReplayType := .collection (.primitive "i32") false false

def bag (first second : String) : AnyValue := .array [.int first, .int second]

def loadedBag (first second : Int) : Values.AnyValue :=
  .array [.int (Int64.ofInt first), .int (Int64.ofInt second)]

theorem reads_bag {first second : String} {left right : Int} (hleft : parseTextI64 first = some left)
    (hright : parseTextI64 second = some right) :
    Reads noTexts (bag first second) (loadedBag left right) :=
  reads_array (.cons (reads_int hleft) (.cons (reads_int hright) .nil))

theorem decoding_refines_bag :
    (∃ value, Reads noTexts (bag "2" "+1") value ∧ ∀ place,
      validateValue SemanticEquality.tallySet SemanticEquality.tallyTarget (typeRef bagType) value
        place = []) ∧
    canonicalValue SemanticEquality.tallySet SemanticEquality.tallyTarget (typeRef bagType)
        (loadedBag 2 1) =
      canonicalValue SemanticEquality.tallySet SemanticEquality.tallyTarget (typeRef bagType)
        (loadedBag 1 2) := by
  have hleft : decodeValue bagType (bag "2" "+1") "input" = .ok (.list [.i32 1, .i32 2]) := rfl
  have hright : decodeValue bagType (bag "1" "2") "input" = .ok (.list [.i32 1, .i32 2]) := rfl
  have hrefines := decoding_refines noTexts SemanticEquality.tallySet SemanticEquality.tallyTarget
    bagType
  refine ⟨hrefines.1 _ _ _ hleft, (hrefines.2 _ _ _ _ _ _ _ _ hleft hright
    (reads_bag ?_ ?_) (reads_bag ?_ ?_)).mp rfl⟩
  · rfl
  · rfl
  · rfl
  · rfl

end SpecGate.ReplayRefinement

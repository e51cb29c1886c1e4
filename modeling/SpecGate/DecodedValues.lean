import SpecGate.AcceptedValues
import SpecGate.FloatBits
import SpecGate.WireReading

/-!
Which decoded replay value stands for which canonical value, at one type. The
correspondence follows the type; it is one to one, so decoded values are equal exactly when
the canonical values they stand for are.
-/
namespace SpecGate.DecodedValues

open SortedAssoc ReplayModel ReplayValues PrimitiveValues FloatBits Relator
open Values (CanonicalValue F64Value)

/-! ### One to one -/

theorem biUnique_of_iff {α β : Type} {R : α → β → Prop}
    (h : ∀ {a b c d}, R a c → R b d → (a = b ↔ c = d)) : BiUnique R :=
  ⟨fun _ _ _ hac hbc => (h hac hbc).mpr rfl, fun _ _ _ hab hac => (h hab hac).mp rfl⟩

theorem eq_iff_of_biUnique {α β : Type} {R : α → β → Prop} (hR : BiUnique R) {a b : α} {c d : β}
    (hac : R a c) (hbd : R b d) : a = b ↔ c = d := rel_eq hR hac hbd

/-- Pairs correspond when both of their parts do. -/
def Both {α β γ δ : Type} (R : α → γ → Prop) (S : β → δ → Prop) (x : α × β) (y : γ × δ) : Prop :=
  R x.1 y.1 ∧ S x.2 y.2

theorem biUnique_both {α β γ δ : Type} {R : α → γ → Prop} {S : β → δ → Prop} (hR : BiUnique R)
    (hS : BiUnique S) : BiUnique (Both R S) := by
  refine biUnique_of_iff fun {a b c d} hac hbd => ?_
  rw [Prod.ext_iff, Prod.ext_iff, eq_iff_of_biUnique hR hac.1 hbd.1,
    eq_iff_of_biUnique hS hac.2 hbd.2]

theorem forall₂_fst {α β γ δ : Type} {R : α → γ → Prop} {S : β → δ → Prop} {left : List (α × β)}
    {right : List (γ × δ)} (h : List.Forall₂ (Both R S) left right) :
    List.Forall₂ R (keys left) (keys right) := by
  unfold SortedAssoc.keys
  rw [List.forall₂_map_left_iff, List.forall₂_map_right_iff]
  exact h.imp fun _ _ hboth => hboth.1

theorem eq_iff_of_forall₂ {α β : Type} {R : α → β → Prop} (hR : BiUnique R) {as bs : List α}
    {cs ds : List β} (hac : List.Forall₂ R as cs) (hbd : List.Forall₂ R bs ds) :
    as = bs ↔ cs = ds := eq_iff_of_biUnique hR.forall₂ hac hbd

/-! ### Types -/

mutual

/-- The type as the validator reads it from the registry. -/
def typeRef : ReplayType → RegistryModel.TypeRef
  | .primitive name => .primitive name
  | .named name owner => .named name owner.componentId owner.registryId
  | .collection items ordered unique => .collection (typeRef items) ordered unique
  | .map keys values ordered => .map (typeRef keys) (typeRef values) ordered
  | .tuple items => .tuple (typeRefs items)
  | .optional value => .optional (typeRef value)
  | .record fields => .record (fieldRefs fields)
termination_by structural type => type

def typeRefs : List ReplayType → List RegistryModel.TypeRef
  | [] => []
  | type :: rest => typeRef type :: typeRefs rest
termination_by structural types => types

def fieldRefs : List (String × ReplayType) → List RegistryModel.NamedValue
  | [] => []
  | (name, type) :: rest => (name, typeRef type) :: fieldRefs rest
termination_by structural fields => fields

end

example : typeRef (.tuple [.record [("flag", .primitive "bool")]]) =
    .tuple [.record [("flag", .primitive "bool")]] := by
  rw [typeRef, typeRefs, typeRef, fieldRefs, typeRef, fieldRefs, typeRefs]

/-! ### Numbers -/

inductive FloatMeans : FloatWidth → Nat → F64Value → Prop
  | finite32 {x bits} (hx : RepresentableF32 x) (hbits : bits = bitsF32 x.sign x.magnitude) :
      FloatMeans .f32 bits (.finite x)
  | nan32 {bits} (hbits : bits = 0x7fc00000) : FloatMeans .f32 bits .nan
  | infinity32 {bits} (hbits : bits = 0x7f800000) : FloatMeans .f32 bits .infinity
  | negative32 {bits} (hbits : bits = 0xff800000) : FloatMeans .f32 bits .negativeInfinity
  | finite64 {x : Values.FiniteF64} {bits} (hbits : bits = x.bits) :
      FloatMeans .f64 bits (.finite x)
  | nan64 {bits} (hbits : bits = 0x7ff8000000000000) : FloatMeans .f64 bits .nan
  | infinity64 {bits} (hbits : bits = 0x7ff0000000000000) : FloatMeans .f64 bits .infinity
  | negative64 {bits} (hbits : bits = 0xfff0000000000000) : FloatMeans .f64 bits .negativeInfinity

theorem biUnique_floatMeans (width : FloatWidth) : BiUnique (FloatMeans width) := by
  refine biUnique_of_iff fun {a b c d} hac hbd => ?_
  cases hac with
  | @finite32 x _ hx hbits =>
    have hfinite := bitsF32_finite hx
    cases hbd with
    | @finite32 y _ hy hbits' =>
      rw [hbits, hbits', F64Value.finite.injEq]
      exact ⟨eq_of_bitsF32 hx hy, fun h => by rw [h]⟩
    | _ => simp only [reduceCtorEq, iff_false]; omega
  | @finite64 x _ hbits =>
    have hfinite := bitsF64_finite x
    cases hbd with
    | @finite64 y _ hbits' =>
      rw [hbits, hbits', F64Value.finite.injEq]
      exact ⟨eq_of_bits, fun h => by rw [h]⟩
    | _ => simp only [reduceCtorEq, iff_false]; omega
  | nan32 hbits | infinity32 hbits | negative32 hbits =>
    cases hbd with
    | @finite32 y _ hy hbits' =>
      have hfinite := bitsF32_finite hy
      simp only [reduceCtorEq, iff_false]
      omega
    | _ => subst_vars; simp
  | nan64 hbits | infinity64 hbits | negative64 hbits =>
    cases hbd with
    | @finite64 y _ hbits' =>
      have hfinite := bitsF64_finite y
      simp only [reduceCtorEq, iff_false]
      omega
    | _ => subst_vars; simp

/-! ### Primitives -/

inductive PrimitiveMeans (name : String) : Value → CanonicalValue → Prop
  | unit (hname : name = "unit") : PrimitiveMeans name .unit .unit
  | string (text : String) (hname : name = "string") :
      PrimitiveMeans name (.string text) (.string text)
  | bool (value : Bool) (hname : name = "bool") : PrimitiveMeans name (.bool value) (.bool value)
  | i32 (value : Int) (hname : name = "i32") : PrimitiveMeans name (.i32 value) (.integer value)
  | i64 (value : Int) (hname : name = "i64") : PrimitiveMeans name (.i64 value) (.integer value)
  | u32 (value : Int) (hname : name = "u32") : PrimitiveMeans name (.u32 value) (.integer value)
  | u64 (value : Int) (hname : name = "u64") : PrimitiveMeans name (.u64 value) (.integer value)
  | f32 {bits : Nat} {value : F64Value} (h : FloatMeans .f32 bits value) (hname : name = "f32") :
      PrimitiveMeans name (.f32Bits bits) (.float value)
  | f64 {bits : Nat} {value : F64Value} (h : FloatMeans .f64 bits value) (hname : name = "f64") :
      PrimitiveMeans name (.f64Bits bits) (.float value)

theorem biUnique_primitiveMeans (name : String) : BiUnique (PrimitiveMeans name) := by
  refine biUnique_of_iff fun {a b c d} hac hbd => ?_
  cases hac with
  | f32 h hname =>
    cases hbd with
    | f32 h' => simp [eq_iff_of_biUnique (biUnique_floatMeans .f32) h h']
    | _ => rename_i hother; exact absurd (hname.symm.trans hother) (by decide)
  | f64 h hname =>
    cases hbd with
    | f64 h' => simp [eq_iff_of_biUnique (biUnique_floatMeans .f64) h h']
    | _ => rename_i hother; exact absurd (hname.symm.trans hother) (by decide)
  | _ =>
    rename_i hname
    cases hbd <;> rename_i hother <;>
      first
        | exact absurd (hname.symm.trans hother) (by decide)
        | simp

/-! ### Composite values -/

/-- The collection of elements, once no unique element is repeated. -/
def collected (ordered unique : Bool) (values : List Value) : Value :=
  if unique && !ordered then .set (toSet values)
  else .list (if ordered then values else Sorting.sort values)

mutual

/-- A decoded value of a type stands for a canonical value. -/
def Means : ReplayType → Value → CanonicalValue → Prop
  | .primitive name, decoded, canonical => PrimitiveMeans name decoded canonical
  | .named _ _, _, _ => False
  | .record _, _, _ => False
  | .collection items ordered unique, decoded, canonical => ∃ values canonicals,
      List.Forall₂ (Means items) values canonicals ∧ (unique = true → values.Nodup) ∧
      decoded = collected ordered unique values ∧
      canonical = .list (if ordered then canonicals else CanonicalOrder.sort canonicals)
  | .map keyType valueType ordered, decoded, canonical =>
      if !ordered && keyType.primitiveName == some "string" then ∃ entries canonicals,
        List.Forall₂ (Both (fun key canonical => canonical = .string key) (Means valueType))
          entries canonicals ∧
        (keys entries).Nodup ∧ decoded = .map (ofList entries) ∧
        canonical = .map (ofList canonicals)
      else ∃ entries canonicals,
        List.Forall₂ (Both (Means keyType) (Means valueType)) entries canonicals ∧
        (keys entries).Nodup ∧
        decoded = .mapEntries (if ordered then entries else Sorting.sort entries) ∧
        canonical = if ordered then .orderedMap canonicals else .map (ofList canonicals)
  | .tuple items, decoded, canonical => ∃ values canonicals, MeanAll items values canonicals ∧
      decoded = .tuple values ∧ canonical = .tuple canonicals
  | .optional inner, decoded, canonical =>
      (decoded = .optional none ∧ canonical = .variant "None" .unit) ∨
      ∃ value payload, Means inner value payload ∧ decoded = .optional (some value) ∧
        canonical = .variant "Some" payload
termination_by structural type => type

/-- The values of a tuple, each at its own type. -/
def MeanAll : List ReplayType → List Value → List CanonicalValue → Prop
  | [], values, canonicals => values = [] ∧ canonicals = []
  | type :: types, values, canonicals => ∃ value rest canonical others,
      Means type value canonical ∧ MeanAll types rest others ∧ values = value :: rest ∧
        canonicals = canonical :: others
termination_by structural types => types

end

theorem toSet_eq (values : List Value) : toSet values = distinct values := rfl

theorem toSet_eq_iff_perm {left right : List Value} (hleft : left.Nodup) (hright : right.Nodup) :
    toSet left = toSet right ↔ left.Perm right := by
  rw [toSet_eq, toSet_eq, distinct_eq_iff, List.perm_ext_iff_of_nodup hleft hright]

section Composite

variable {R : Value → CanonicalValue → Prop}

theorem collected_eq_iff (hR : BiUnique R) {ordered unique : Bool} {left right : List Value}
    {canonicals others : List CanonicalValue} (hleft : List.Forall₂ R left canonicals)
    (hright : List.Forall₂ R right others) (huniqueLeft : unique = true → left.Nodup)
    (huniqueRight : unique = true → right.Nodup) :
    collected ordered unique left = collected ordered unique right ↔
      CanonicalValue.list (if ordered then canonicals else CanonicalOrder.sort canonicals) =
        .list (if ordered then others else CanonicalOrder.sort others) := by
  have hperm : left.Perm right ↔ canonicals.Perm others := List.rel_perm hR hleft hright
  unfold collected
  cases ordered with
  | true =>
    simp only [Bool.not_true, Bool.and_false, Bool.false_eq_true, if_false, if_true,
      Value.list.injEq, CanonicalValue.list.injEq]
    exact eq_iff_of_forall₂ hR hleft hright
  | false =>
    simp only [Bool.not_false, Bool.and_true, Bool.false_eq_true, if_false,
      CanonicalValue.list.injEq]
    rw [CanonicalOrder.sort_eq_iff_perm, ← hperm]
    cases unique with
    | true =>
      simp only [if_true, Value.set.injEq]
      exact toSet_eq_iff_perm (huniqueLeft rfl) (huniqueRight rfl)
    | false =>
      simp only [Bool.false_eq_true, if_false, Value.list.injEq]
      exact Sorting.sort_eq_iff_perm

theorem map_eq_iff {S : String → CanonicalValue → Prop} (hS : BiUnique S) (hR : BiUnique R)
    {left right : List (String × Value)} {canonicals others : List (CanonicalValue × CanonicalValue)}
    (hleft : List.Forall₂ (Both S R) left canonicals)
    (hright : List.Forall₂ (Both S R) right others) (hleftKeys : (keys left).Nodup)
    (hrightKeys : (keys right).Nodup) :
    ofList left = ofList right ↔ ofList canonicals = ofList others := by
  rw [ofList_eq_iff_perm hleftKeys hrightKeys,
    ofList_eq_iff_perm ((List.rel_nodup hS (forall₂_fst hleft)).mp hleftKeys)
      ((List.rel_nodup hS (forall₂_fst hright)).mp hrightKeys)]
  exact List.rel_perm (biUnique_both hS hR) hleft hright

theorem mapEntries_eq_iff {S : Value → CanonicalValue → Prop} (hS : BiUnique S) (hR : BiUnique R)
    {ordered : Bool} {left right : List (Value × Value)}
    {canonicals others : List (CanonicalValue × CanonicalValue)}
    (hleft : List.Forall₂ (Both S R) left canonicals)
    (hright : List.Forall₂ (Both S R) right others) (hleftKeys : (keys left).Nodup)
    (hrightKeys : (keys right).Nodup) :
    (if ordered then left else Sorting.sort left) = (if ordered then right else Sorting.sort right) ↔
      (if ordered then CanonicalValue.orderedMap canonicals else .map (ofList canonicals)) =
        if ordered then .orderedMap others else .map (ofList others) := by
  cases ordered with
  | true =>
    simp only [if_true, CanonicalValue.orderedMap.injEq]
    exact eq_iff_of_forall₂ (biUnique_both hS hR) hleft hright
  | false =>
    simp only [Bool.false_eq_true, if_false, CanonicalValue.map.injEq]
    rw [Sorting.sort_eq_iff_perm,
      ofList_eq_iff_perm ((List.rel_nodup hS (forall₂_fst hleft)).mp hleftKeys)
        ((List.rel_nodup hS (forall₂_fst hright)).mp hrightKeys)]
    exact List.rel_perm (biUnique_both hS hR) hleft hright

end Composite

theorem biUnique_key : BiUnique fun (key : String) (canonical : CanonicalValue) =>
    canonical = .string key := by
  refine biUnique_of_iff fun {a b c d} hac hbd => ?_
  rw [hac, hbd, CanonicalValue.string.injEq]

mutual

/-- Decoded values are equal exactly when the canonical values are. -/
theorem biUnique_means : ∀ type : ReplayType, BiUnique (Means type)
  | .primitive name => biUnique_primitiveMeans name
  | .named _ _ => biUnique_of_iff fun h => h.elim
  | .record _ => biUnique_of_iff fun h => h.elim
  | .collection items ordered unique => by
      have hitems := biUnique_means items
      refine biUnique_of_iff fun {a b c d} hac hbd => ?_
      obtain ⟨left, canonicals, hleft, hleftUnique, rfl, rfl⟩ := hac
      obtain ⟨right, others, hright, hrightUnique, rfl, rfl⟩ := hbd
      exact collected_eq_iff hitems hleft hright hleftUnique hrightUnique
  | .map keyType valueType ordered => by
      have hkeys := biUnique_means keyType
      have hvalues := biUnique_means valueType
      refine biUnique_of_iff fun {a b c d} hac hbd => ?_
      unfold Means at hac hbd
      by_cases hstring : (!ordered && keyType.primitiveName == some "string") = true
      · rw [if_pos hstring] at hac hbd
        obtain ⟨left, canonicals, hleft, hleftKeys, rfl, rfl⟩ := hac
        obtain ⟨right, others, hright, hrightKeys, rfl, rfl⟩ := hbd
        rw [Value.map.injEq, CanonicalValue.map.injEq]
        exact map_eq_iff biUnique_key hvalues hleft hright hleftKeys hrightKeys
      · rw [if_neg hstring] at hac hbd
        obtain ⟨left, canonicals, hleft, hleftKeys, rfl, rfl⟩ := hac
        obtain ⟨right, others, hright, hrightKeys, rfl, rfl⟩ := hbd
        rw [Value.mapEntries.injEq]
        exact mapEntries_eq_iff hkeys hvalues hleft hright hleftKeys hrightKeys
  | .tuple items => by
      have hitems := biUnique_meanAll items
      refine biUnique_of_iff fun {a b c d} hac hbd => ?_
      obtain ⟨left, canonicals, hleft, rfl, rfl⟩ := hac
      obtain ⟨right, others, hright, rfl, rfl⟩ := hbd
      rw [Value.tuple.injEq, CanonicalValue.tuple.injEq]
      exact eq_iff_of_biUnique hitems hleft hright
  | .optional inner => by
      have hinner := biUnique_means inner
      refine biUnique_of_iff fun {a b c d} hac hbd => ?_
      rcases hac with ⟨rfl, rfl⟩ | ⟨left, canonical, hleft, rfl, rfl⟩
      · rcases hbd with ⟨rfl, rfl⟩ | ⟨right, other, hright, rfl, rfl⟩
        · simp
        · simp
      · rcases hbd with ⟨rfl, rfl⟩ | ⟨right, other, hright, rfl, rfl⟩
        · simp
        · simp [eq_iff_of_biUnique hinner hleft hright]
termination_by structural type => type

theorem biUnique_meanAll : ∀ types : List ReplayType, BiUnique (MeanAll types)
  | [] => by
      refine biUnique_of_iff fun {a b c d} hac hbd => ?_
      rw [hac.1, hac.2, hbd.1, hbd.2]
      exact iff_of_true rfl rfl
  | type :: types => by
      have hfirst := biUnique_means type
      have hothers := biUnique_meanAll types
      refine biUnique_of_iff fun {a b c d} hac hbd => ?_
      obtain ⟨left, leftRest, canonical, canonicals, hleft, hleftRest, rfl, rfl⟩ := hac
      obtain ⟨right, rightRest, other, others, hright, hrightRest, rfl, rfl⟩ := hbd
      rw [List.cons.injEq, List.cons.injEq, eq_iff_of_biUnique hfirst hleft hright,
        eq_iff_of_biUnique hothers hleftRest hrightRest]
termination_by structural types => types

end

end SpecGate.DecodedValues

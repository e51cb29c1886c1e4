import SpecGate.ClrUniqueness

/-!
Projected values by the shape of their type: sequences, string-keyed maps, maps of other keys,
records and variants. A value of each shape has its form in one way.
-/
namespace SpecGate.ClrUniqueness

open SortedAssoc Collecting Sorting NativeOrder
open SidecarValues (NativeValue collectSet)

/-! ### Elements of a set -/

theorem insertElement_perm {value : Value} {values : List Value} (h : value ∉ values) :
    (SidecarValues.insertElement value values).Perm (value :: values) := by
  induction values with
  | nil => exact List.Perm.refl _
  | cons first rest ih =>
    obtain ⟨hfirst, hrest⟩ := not_or.mp (List.mem_cons.not.mp h)
    rw [SidecarValues.insertElement]
    cases hcompare : SidecarValues.compareValue value first with
    | lt => exact List.Perm.refl _
    | eq => exact absurd (Std.LawfulEqOrd.eq_of_compare hcompare) hfirst
    | gt => exact ((ih hrest).cons first).trans (List.Perm.swap value first rest)

theorem collectSet_perm {values : List Value} (h : values.Nodup) :
    (collectSet values).Perm values := by
  have hfold : ∀ {set rest : List Value}, (set ++ rest).Nodup →
      (rest.foldl (fun set value => SidecarValues.insertElement value set) set).Perm
        (set ++ rest) := by
    intro set rest hboth
    induction rest generalizing set with
    | nil => rw [List.append_nil]; exact List.Perm.refl _
    | cons value rest ih =>
      have hmiddle : (set ++ value :: rest).Perm (value :: set ++ rest) := List.perm_middle
      have hall : (value :: (set ++ rest)).Nodup := hmiddle.nodup_iff.mp hboth
      have hnew : value ∉ set := fun hmem =>
        (List.nodup_cons.mp hall).1 (List.mem_append_left rest hmem)
      have hinsert := insertElement_perm hnew
      have hnext : (SidecarValues.insertElement value set ++ rest).Perm (value :: set ++ rest) :=
        hinsert.append_right rest
      rw [List.foldl_cons]
      exact (ih (hnext.nodup_iff.mpr hall)).trans (hnext.trans hmiddle.symm)
  have hempty := @hfold [] values h
  exact hempty

/-! ### Shapes -/

section Shapes

variable {declarations : Declarations} {type first second : SemanticType} {value : Value}

/-- A recorded collection holds the elements; unique ones differ in their forms. -/
theorem Projected.sequence (h : Projected declarations type value)
    (hfirst : type.element = some first) :
    ∃ elements, (∀ element ∈ elements, Projected declarations first element) ∧
      (value = .list elements ∨ value = .set elements) ∧
      (type.distinct = true → (elements.map (canonicalize declarations first)).Nodup) := by
  cases h with
  | @elements _ other elements _ hother helements hbuild =>
    obtain rfl := Option.some.inj (hother.symm.trans hfirst)
    by_cases hdistinct : type.distinct = true
    · have hunique : unique declarations type.ordered other elements = .ok value := by
        cases type with
        | set => obtain rfl := Option.some.inj hfirst; exact hbuild
        | orderedSet => obtain rfl := Option.some.inj hfirst; exact hbuild
        | _ => cases hdistinct
      obtain ⟨forms, hforms, hnodup, rfl⟩ := unique_eq_ok.mp hunique
      have hdiffer : (elements.map (canonicalize declarations other)).Nodup := by
        rw [collect_eq_some_iff.mp hforms]
        exact hnodup.map (Option.some_injective _)
      by_cases hordered : type.ordered = true
      · rw [if_pos hordered]
        exact ⟨elements, helements, .inl rfl, fun _ => hdiffer⟩
      · rw [if_neg hordered]
        have hperm := collectSet_perm hdiffer.of_map
        exact ⟨_, fun element hmem => helements element (hperm.mem_iff.mp hmem), .inr rfl,
          fun _ => (hperm.map _).nodup_iff.mpr hdiffer⟩
    · have hvalue : value = .list elements := by
        cases type with
        | list => exact (Except.ok.inj hbuild).symm
        | bag => exact (Except.ok.inj hbuild).symm
        | set => exact absurd rfl hdistinct
        | orderedSet => exact absurd rfl hdistinct
        | _ => cases hfirst
      exact ⟨elements, helements, .inl hvalue, fun htrue => absurd htrue hdistinct⟩
  | entries hkeyed => cases type <;> first | cases hfirst; done | cases hkeyed
  | _ => cases hfirst

theorem build_entries (hkeyed : type.keyed = some (first, second))
    {entries : List (Value × Value)} :
    build declarations type (.entries entries) = mapEntries declarations type first entries := by
  cases type with
  | map => obtain ⟨rfl, rfl⟩ := Prod.mk.inj (Option.some.inj hkeyed); rfl
  | orderedMap => obtain ⟨rfl, rfl⟩ := Prod.mk.inj (Option.some.inj hkeyed); rfl
  | _ => cases hkeyed

/-- A recorded map outside the compact ones holds its entries as keys and values. -/
theorem Projected.pairs (h : Projected declarations type value)
    (hkeyed : type.keyed = some (first, second)) (hcompact : type.compact = false) :
    ∃ pairs : List (Value × Value), (∀ pair ∈ pairs, Projected declarations first pair.1 ∧
        Projected declarations second pair.2) ∧
      value = .list (pairs.map fun pair => entry pair.1 pair.2) ∧
      (pairs.map fun pair => canonicalize declarations first pair.1).Nodup := by
  cases h with
  | @entries _ first' second' pairs _ hother hkeys hvalues hbuild =>
    obtain ⟨rfl, rfl⟩ := Prod.mk.inj (Option.some.inj (hother.symm.trans hkeyed))
    rw [build_entries hkeyed] at hbuild
    obtain ⟨forms, hforms, hnodup, hvalue⟩ := mapEntries_eq_ok.mp hbuild
    rw [hcompact, if_neg Bool.false_ne_true] at hvalue
    refine ⟨pairs, fun pair hpair => ⟨hkeys pair hpair, hvalues pair hpair⟩, hvalue, ?_⟩
    rw [collect_eq_some_iff.mp hforms]
    exact hnodup.map (Option.some_injective _)
  | elements hfirst => cases type <;> first | cases hfirst; done | cases hkeyed
  | _ => cases hkeyed

/-- The forms of string keys are distinct when the keys are. -/
theorem nodup_stringForms {fields : List (String × Value)} {forms : List Value}
    (h : collect (fun pair => canonicalize declarations .string pair.1)
      (fields.map stringPair) = some forms) : forms.Nodup ↔ (keys fields).Nodup := by
  have hforms : forms = fields.map fun field => NativeValue.string field.1 := by
    rw [collect_eq_some_iff, List.map_map] at h
    apply List.map_injective_iff.mpr (Option.some_injective Value)
    rw [← h, List.map_map]
    rfl
  have hmap : (fields.map fun field => NativeValue.string field.1) =
      (keys fields).map NativeValue.string := by
    rw [keys, List.map_map]
    rfl
  rw [hforms, hmap]
  exact List.nodup_map_iff fun _ _ heq => NativeValue.string.inj heq

/-- A compact map holds its entries under their keys. -/
theorem Projected.strings (h : Projected declarations (.map .string second) value) :
    ∃ fields, Sorted fields ∧ (∀ field ∈ fields, Projected declarations second field.2) ∧
      value = .map fields := by
  cases h with
  | @entries _ first' second' pairs _ hother hkeys hvalues hbuild =>
    obtain ⟨rfl, rfl⟩ := Prod.mk.inj (Option.some.inj hother)
    obtain ⟨forms, hforms, hnodup, fields, rfl, rfl⟩ := mapEntries_eq_ok.mp hbuild
    have hnames := (nodup_stringForms hforms).mp hnodup
    refine ⟨_, sorted_ofList _, fun field hfield => ?_, rfl⟩
    exact hvalues _ (List.mem_map_of_mem ((ofList_perm hnames).mem_iff.mp hfield))
  | elements hfirst => cases hfirst

/-- The members of a type that is recorded as a record. -/
def membersOf (declarations : Declarations) : SemanticType → Option (List (String × SemanticType))
  | .record first second => some [("key", first), ("items", second)]
  | .named declared =>
      match declarations declared with
      | some (.concrete members) => some members
      | _ => none
  | _ => none

/-- A recorded record holds a value for every member, and nothing else. -/
structure Recorded (declarations : Declarations) (members : List (String × SemanticType))
    (fields : List (String × Value)) : Prop where
  names : (keys members).Nodup
  sorted : Sorted fields
  keys : ∀ name, name ∈ keys fields ↔ name ∈ keys members
  values : ∀ member ∈ members, ∃ value, lookup fields member.1 = some value ∧
    Projected declarations member.2 value

/-- What is built from one value for each member is a record. -/
theorem recorded_of_fields {members : List (String × SemanticType)} {fields : List (String × Value)}
    (hnames : (keys members).Nodup) (hfields : keys fields = keys members)
    (h : ∀ member ∈ members, ∀ value, (member.1, value) ∈ fields →
      Projected declarations member.2 value) : Recorded declarations members (ofList fields) where
  names := hnames
  sorted := sorted_ofList _
  keys name := by rw [mem_keys_ofList, hfields]
  values member hmember := by
    have hperm := ofList_perm (hfields ▸ hnames)
    have hkey : member.1 ∈ SortedAssoc.keys (ofList fields) := by
      rw [mem_keys_ofList, hfields]
      exact mem_keys_of_mem hmember
    obtain ⟨value, hvalue⟩ := exists_lookup_iff.mpr hkey
    exact ⟨value, hvalue, h member hmember value (hperm.mem_iff.mp (mem_of_lookup hvalue))⟩

theorem Projected.recorded {members : List (String × SemanticType)}
    (h : Projected declarations type value)
    (hmembers : membersOf declarations type = some members) :
    ∃ fields, value = .map fields ∧ Recorded declarations members fields := by
  cases h with
  | @record first second key items hkey hitems =>
    obtain rfl := Option.some.inj hmembers
    refine ⟨_, rfl, recorded_of_fields (by decide : ["key", "items"].Nodup) rfl
      fun member hmember value hvalue => ?_⟩
    simp only [List.mem_cons, List.not_mem_nil, or_false] at hmember hvalue
    rcases hmember with rfl | rfl
    · simp only [Prod.mk.injEq, true_and] at hvalue
      rcases hvalue with rfl | ⟨hname, -⟩
      · exact hkey
      · exact absurd hname (by decide)
    · simp only [Prod.mk.injEq, true_and] at hvalue
      rcases hvalue with ⟨hname, -⟩ | rfl
      · exact absurd hname (by decide)
      · exact hitems
  | @concrete declared others fields hdeclared hnames hfields hvalues =>
    rw [membersOf, hdeclared] at hmembers
    obtain rfl := Option.some.inj hmembers
    exact ⟨_, rfl, recorded_of_fields hnames hfields hvalues⟩
  | variant hdeclared =>
    rw [membersOf, hdeclared] at hmembers
    cases hmembers
  | subclass hdeclared =>
    rw [membersOf, hdeclared] at hmembers
    cases hmembers
  | elements hfirst => cases type <;> first | cases hfirst; done | cases hmembers
  | entries hkeyed => cases type <;> first | cases hkeyed; done | cases hmembers
  | _ => cases hmembers

/-- Whether a type is recorded as one entry under the name of a variant. -/
def tags (declarations : Declarations) : SemanticType → Bool
  | .option _ | .result _ _ => true
  | .named declared =>
      match declarations declared with
      | some (.enum _) | some (.abstract _) => true
      | _ => false
  | _ => false

/-- What a variant carries: nothing, or a value of a type. -/
def payloadType (declarations : Declarations) (type : SemanticType) (name : String) :
    Option (Option SemanticType) :=
  match type with
  | .option first =>
      if name = "None" then some none else if name = "Some" then some (some first) else none
  | .result first second =>
      if name = "Ok" then some (some first) else if name = "Err" then some (some second) else none
  | .named declared =>
      match declarations declared with
      | some (.enum variants) => if name ∈ variants then some none else none
      | some (.abstract variants) =>
          (variantType variants name).map fun actual => some (.named actual)
      | _ => none
  | _ => none

theorem variantType_of_mem {variants : List (String × String)} (hnames : (keys variants).Nodup)
    {event actual : String} (h : (event, actual) ∈ variants) :
    variantType variants event = some actual := by
  have hfilter : (variants.filter fun candidate => candidate.1 == event) = [(event, actual)] := by
    induction variants with
    | nil => cases h
    | cons first rest ih =>
      obtain ⟨hfirst, hrest⟩ := List.nodup_cons.mp hnames
      rcases List.mem_cons.mp h with rfl | hmem
      · have hothers : (rest.filter fun candidate => candidate.1 == event) = [] := by
          rw [List.filter_eq_nil_iff]
          intro other hother heq
          have hmem := mem_keys_of_mem hother
          rw [beq_iff_eq.mp heq] at hmem
          exact hfirst hmem
        rw [List.filter_cons, if_pos (beq_self_eq_true event), hothers]
      · rw [List.filter_cons_of_neg, ih hrest hmem]
        intro heq
        exact hfirst ((beq_iff_eq.mp heq) ▸ mem_keys_of_mem hmem)
  rw [variantType, hfilter]

/-- The annotated subclasses of an abstract type have different event names. -/
def Distinguished (declarations : Declarations) (type : SemanticType) : Prop :=
  ∀ declared variants, type = .named declared →
    declarations declared = some (.abstract variants) → (keys variants).Nodup

theorem Projected.tagged (h : Projected declarations type value)
    (htags : tags declarations type = true) (hdistinct : Distinguished declarations type) :
    ∃ name payload, value = ClrUniqueness.tagged name payload ∧
      ((payloadType declarations type name = some none ∧ payload = unit) ∨
        ∃ carried, payloadType declarations type name = some (some carried) ∧
          Projected declarations carried payload) := by
  cases h with
  | absent => exact ⟨"None", unit, rfl, .inl ⟨rfl, rfl⟩⟩
  | present h => exact ⟨"Some", _, rfl, .inr ⟨_, rfl, h⟩⟩
  | ok _ h => exact ⟨"Ok", _, rfl, .inr ⟨_, rfl, h⟩⟩
  | err _ h => exact ⟨"Err", _, rfl, .inr ⟨_, rfl, h⟩⟩
  | @variant _ variant _ hdeclared hvariant =>
    refine ⟨variant, unit, rfl, .inl ⟨?_, rfl⟩⟩
    rw [payloadType]
    simp only [hdeclared]
    exact if_pos hvariant
  | @subclass declared event actual variants _ payload hdeclared hvariant _ h =>
    refine ⟨event, payload, rfl, .inr ⟨.named actual, ?_, h⟩⟩
    rw [payloadType]
    simp only [hdeclared]
    rw [variantType_of_mem (hdistinct declared variants rfl hdeclared) hvariant]
    rfl
  | concrete hdeclared =>
    rw [tags, hdeclared] at htags
    cases htags
  | elements hfirst => cases type <;> first | cases hfirst; done | cases htags
  | entries hkeyed => cases type <;> first | cases hkeyed; done | cases htags
  | _ => cases htags

/-! ### Forms by shape -/

end Shapes

end SpecGate.ClrUniqueness

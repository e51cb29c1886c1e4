import SpecGate.CanonicalOrder
import SpecGate.Collecting
import SpecGate.Decimal
import SpecGate.RegistrySemantics

/-!
Values against registry types: the validator of one typed value and its
canonicaliser. The two recursions look names up on their own, descend into the
value, and unfold a named type without consuming any of it.
-/
namespace SpecGate.LinkedValues

open Values RegistryModel Validation SortedAssoc CanonicalOrder Collecting

set_option linter.unusedVariables false

/-! ### Numbers -/

def parseU64 (text : String) : Option Nat := Decimal.parseUnsigned (2 ^ 64) text

/-- The spelling test of the validator. -/
def canonicalDecimal (text : String) : Bool := Decimal.canonicalSpelling text

/-- Binary32 rounding overflows from `2 ^ 128` on, here in units of `2 ^ (-1074)`. -/
def overflowExponent : Nat := 1202

/-- The multiple of `2 ^ shift` nearest to a magnitude, on a tie the even one. -/
def roundedMultiple (magnitude shift : Nat) : Nat :=
  let quotient := magnitude / 2 ^ shift
  let remainder := magnitude % 2 ^ shift
  if 2 * remainder < 2 ^ shift then quotient
  else if 2 ^ shift < 2 * remainder then quotient + 1
  else quotient + quotient % 2

/-- Rounding a magnitude (in units of `2 ^ (-1074)`) to binary32; `none` is an overflow
to infinity. -/
def narrowToF32 (magnitude : Nat) : Option Nat :=
  let shift := max 925 (magnitude.log2 - 23)
  let rounded := roundedMultiple magnitude shift * 2 ^ shift
  if rounded < 2 ^ overflowExponent then some rounded else none

/-- Narrowing and widening give the same bits back. Both keep the sign. -/
def f32Exact (x : FiniteF64) : Bool := narrowToF32 x.magnitude == some x.magnitude

/-! ### Primitives -/

def expectedWire (primitive : String) : Option String :=
  if primitive = "unit" then some "kvlistValue"
  else if primitive = "string" ∨ primitive = "u64" then some "stringValue"
  else if primitive = "bool" then some "boolValue"
  else if primitive = "i32" ∨ primitive = "i64" ∨ primitive = "u32" then some "intValue"
  else if primitive = "f32" ∨ primitive = "f64" then some "doubleValue"
  else if primitive = "bytes" then some "bytesValue"
  else none

def wireMatches (expected : String) : AnyValue → Bool
  | .kvList _ => expected == "kvlistValue"
  | .string _ => expected == "stringValue"
  | .bool _ => expected == "boolValue"
  | .int _ => expected == "intValue"
  | .double _ => expected == "doubleValue"
  | .bytes _ => expected == "bytesValue"
  | .array _ => false

def fitsI32 (value : Int64) : Bool := -2 ^ 31 ≤ value.toInt && value.toInt < 2 ^ 31

def fitsU32 (value : Int64) : Bool := 0 ≤ value.toInt && value.toInt < 2 ^ 32

/-- The checks on a value that has the wire form of its primitive type. -/
def validateRange (value : AnyValue) (primitive location : String) : List ValidationIssue :=
  match value with
  | .kvList entries =>
      if primitive = "unit" ∧ entries ≠ [] then issue location "unit must be an empty kvlistValue"
      else []
  | .int value =>
      if primitive = "i32" ∧ fitsI32 value = false then issue location "value is outside i32 range"
      else if primitive = "u32" ∧ fitsU32 value = false then
        issue location "value is outside u32 range"
      else []
  | .string text =>
      if primitive = "u64" then
        if canonicalDecimal text = false then
          issue location "u64 must be a canonical decimal string"
        else if (parseU64 text).isNone then issue location "value is outside u64 range"
        else []
      else []
  | .double (.finite x) =>
      if primitive = "f32" ∧ f32Exact x = false then
        issue location "value is not exactly representable as f32"
      else []
  | _ => []

def validatePrimitive (value : AnyValue) (primitive location : String) : List ValidationIssue :=
  match expectedWire primitive with
  | none => issue location s!"unsupported primitive '{primitive}'"
  | some expected =>
      if !wireMatches expected value then issue location s!"{primitive} must use {expected}"
      else validateRange value primitive location

def canonicalPrimitive (value : AnyValue) (primitive : String) : Option CanonicalValue :=
  match value with
  | .kvList entries => if primitive = "unit" ∧ entries = [] then some .unit else none
  | .string text =>
      if primitive = "string" then some (.string text)
      else if primitive = "u64" then (parseU64 text).map fun (value : Nat) => .integer value
      else none
  | .bool value => if primitive = "bool" then some (.bool value) else none
  | .int value =>
      if primitive = "i32" ∨ primitive = "i64" ∨ primitive = "u32" then some (.integer value.toInt)
      else none
  | .double value =>
      if primitive = "f32" ∨ primitive = "f64" then some (.float value) else none
  | .bytes value => if primitive = "bytes" then some (.bytes value) else none
  | .array _ => none

/-! ### Composite values -/

def isStringType : TypeRef → Bool
  | .primitive name => name == "string"
  | _ => false

/-- Unfolding a named type leaves a structural one. -/
def unfoldings : TypeRef → Nat
  | .named _ _ _ => 1
  | _ => 0

theorem unfoldings_asType (definition : NamedType) : unfoldings definition.asType = 0 := by
  cases definition <;> rfl

/-- A present registry identity that is not the one of the component found. -/
def foreignRegistry (registryId : Option String) (target : ResolvedComponent) : Bool :=
  match registryId with
  | none => false
  | some registryId => registryId != target.registryId

def canonicalValue (set : RegistrySet) (component : ResolvedComponent) (type : TypeRef)
    (value : AnyValue) : Option CanonicalValue :=
  match type with
  | .primitive name => canonicalPrimitive value name
  | .named name componentId registryId =>
      match lookup set.components (componentId.getD component.component.id) with
      | none => none
      | some target =>
          if foreignRegistry registryId target then none
          else match target.component.types.find? fun item => item.name == name with
            | none => none
            | some definition => canonicalValue set target definition.asType value
  | .collection items ordered _ =>
      match value with
      | .array values =>
          (collect (fun v : { v // v ∈ values } => canonicalValue set component items v.1)
            values.attach).map fun values => .list (if ordered then values else sort values)
      | _ => none
  | .map keyType valueType ordered =>
      if !ordered && isStringType keyType then
        match value with
        | .kvList entries =>
            (collect (fun entry : { entry // entry ∈ entries } =>
                (canonicalValue set component valueType entry.1.2).map fun value =>
                  (CanonicalValue.string entry.1.1, value))
              entries.attach).map fun entries => .map (ofList entries)
        | _ => none
      else
        match value with
        | .array entries =>
            (collect (fun entry : { entry // entry ∈ entries } =>
                match hentry : entry.1 with
                | .kvList fields =>
                    match hkey : lookup fields "key" with
                    | none => none
                    | some key =>
                        match hvalue : lookup fields "value" with
                        | none => none
                        | some value =>
                            (canonicalValue set component keyType key).bind fun key =>
                              (canonicalValue set component valueType value).map fun value =>
                                (key, value)
                | _ => none)
              entries.attach).map fun entries =>
                if ordered then .orderedMap entries else .map (ofList entries)
        | _ => none
  | .tuple items =>
      match value with
      | .array values =>
          if values.length ≠ items.length then none
          else (collect (fun v : { v // v ∈ values } × TypeRef =>
              canonicalValue set component v.2 v.1.1) (values.attach.zip items)).map .tuple
      | _ => none
  | .record fields =>
      match value with
      | .kvList entries =>
          (collect (fun field : NamedValue =>
              match hfield : lookup entries field.1 with
              | none => none
              | some value =>
                  (canonicalValue set component field.2 value).map fun value => (field.1, value))
            fields).map fun fields => .record (ofList fields)
      | _ => none
  | .optional inner =>
      match value with
      | .kvList ((name, payload) :: _) =>
          (if name = "None" then canonicalPrimitive payload "unit"
            else if name = "Some" then canonicalValue set component inner payload
            else none).map fun value => .variant name value
      | _ => none
  | .taggedUnion variants =>
      match value with
      | .kvList ((name, payload) :: _) =>
          match variants.find? fun variant => variant.1 == name with
          | none => none
          | some (_, some type) =>
              (canonicalValue set component type payload).map fun value => .variant name value
          | some (_, none) =>
              (canonicalPrimitive payload "unit").map fun value => .variant name value
      | _ => none
termination_by (sizeOf value, unfoldings type)
decreasing_by
  · exact Prod.Lex.right _ (by rw [unfoldings_asType]; exact Nat.one_pos)
  · exact Prod.Lex.left _ _ (AnyValue.sizeOf_lt_array v.2)
  · exact Prod.Lex.left _ _ (AnyValue.sizeOf_lt_kvList entry.2)
  · have := AnyValue.sizeOf_lt_array entry.2
    rw [hentry] at this
    exact Prod.Lex.left _ _ ((AnyValue.sizeOf_lt_of_lookup hkey).trans this)
  · have := AnyValue.sizeOf_lt_array entry.2
    rw [hentry] at this
    exact Prod.Lex.left _ _ ((AnyValue.sizeOf_lt_of_lookup hvalue).trans this)
  · exact Prod.Lex.left _ _ (AnyValue.sizeOf_lt_array v.1.2)
  · exact Prod.Lex.left _ _ (AnyValue.sizeOf_lt_of_lookup hfield)
  · exact Prod.Lex.left _ _ (AnyValue.sizeOf_lt_head _ _ _)
  · exact Prod.Lex.left _ _ (AnyValue.sizeOf_lt_head _ _ _)

/-- The key and value of a map entry that holds exactly these two. -/
def mapEntry : AnyValue → Option (AnyValue × AnyValue)
  | .kvList fields =>
      if fields.length ≠ 2 then none
      else match lookup fields "key", lookup fields "value" with
        | some key, some value => some (key, value)
        | _, _ => none
  | _ => none

theorem mapEntry_sizeOf_lt {entry key value : AnyValue} (h : mapEntry entry = some (key, value)) :
    sizeOf key < sizeOf entry ∧ sizeOf value < sizeOf entry := by
  cases entry with
  | kvList fields =>
    rw [mapEntry] at h
    split at h
    · cases h
    · split at h
      · rename_i hkey hvalue
        obtain ⟨rfl, rfl⟩ := Prod.mk.inj (Option.some.inj h)
        exact ⟨AnyValue.sizeOf_lt_of_lookup hkey, AnyValue.sizeOf_lt_of_lookup hvalue⟩
      · cases h
  | _ => cases h

/-- Whether an earlier entry has the same canonical key. -/
def repeatsKey (canonicalKey : AnyValue → Option CanonicalValue) (earlier : List AnyValue)
    (key : AnyValue) : Bool :=
  match canonicalKey key with
  | none => false
  | some key => (earlier.filterMap fun entry =>
      (mapEntry entry).bind fun pair => canonicalKey pair.1).contains key

def validateValue (set : RegistrySet) (component : ResolvedComponent) (type : TypeRef)
    (value : AnyValue) (location : String) : List ValidationIssue :=
  match type with
  | .primitive name => validatePrimitive value name location
  | .named name componentId registryId =>
      let componentId := componentId.getD component.component.id
      let registryText := registryId.getD ""
      match lookup set.components componentId with
      | none => issue location s!"unknown component '{componentId}'"
      | some target =>
          if foreignRegistry registryId target then
            issue location
              (s!"component '{componentId}' does not belong to registry " ++
                s!"Some(RawText({debugText registryText}))")
          else match target.component.types.find? fun item => item.name == name with
            | none => issue location s!"unknown named type '{name}'"
            | some definition => validateValue set target definition.asType value location
  | .collection items _ unique =>
      match value with
      | .array values =>
          let issues := values.attach.zipIdx.flatMap fun (⟨value, _⟩, index) =>
            validateValue set component items value s!"{location}[{index}]"
          let canonical := values.filterMap fun value => canonicalValue set component items value
          issues ++
            if unique ∧ issues = [] ∧ (distinct canonical).length ≠ canonical.length then
              issue location "unique collection contains duplicate elements"
            else []
      | _ => issue location "collection must use arrayValue"
  | .map keyType valueType ordered =>
      if !ordered && isStringType keyType then
        match value with
        | .kvList entries =>
            entries.attach.flatMap fun ⟨(key, value), _⟩ =>
              validateValue set component valueType value s!"{location}.{key}"
        | _ => issue location "string-keyed map must use kvlistValue"
      else
        match value with
        | .array entries =>
            entries.attach.zipIdx.flatMap fun (⟨entry, _⟩, index) =>
              match hentry : mapEntry entry with
              | none =>
                  issue s!"{location}[{index}]" "map entry must contain key and value"
              | some (key, value) =>
                  validateValue set component keyType key s!"{location}[{index}].key" ++
                  validateValue set component valueType value s!"{location}[{index}].value" ++
                  if repeatsKey (canonicalValue set component keyType) (entries.take index) key then
                    issue location "map contains duplicate keys"
                  else []
        | _ => issue location "ordered or non-string-keyed map must use arrayValue"
  | .tuple items =>
      match value with
      | .array values =>
          if values.length ≠ items.length then
            issue location "tuple arity does not match registry type"
          else (values.attach.zip items).zipIdx.flatMap fun ((⟨value, _⟩, type), index) =>
            validateValue set component type value s!"{location}[{index}]"
      | _ => issue location "tuple must use arrayValue"
  | .record fields =>
      match value with
      | .kvList entries =>
          if distinct (keys entries) ≠ distinct (fields.map Prod.fst) then
            issue location "record fields do not match registry type"
          else fields.flatMap fun field =>
            match hfield : lookup entries field.1 with
            | none => []
            | some value => validateValue set component field.2 value s!"{location}.{field.1}"
      | _ => issue location "record must use kvlistValue"
  | .optional inner =>
      match value with
      | .kvList [(name, payload)] =>
          if name = "None" then validatePrimitive payload "unit" s!"{location}.None"
          else if name = "Some" then validateValue set component inner payload s!"{location}.Some"
          else issue location s!"unknown optional variant '{name}'"
      | .kvList _ => issue location "optional must contain exactly one variant"
      | _ => issue location "optional must use kvlistValue"
  | .taggedUnion variants =>
      match value with
      | .kvList [(name, payload)] =>
          match variants.find? fun variant => variant.1 == name with
          | none => issue location s!"unknown tagged-union variant '{name}'"
          | some (_, some type) => validateValue set component type payload s!"{location}.{name}"
          | some (_, none) => validatePrimitive payload "unit" s!"{location}.{name}"
      | .kvList _ => issue location "tagged union must contain exactly one variant"
      | _ => issue location "tagged union must use kvlistValue"
termination_by (sizeOf value, unfoldings type)
decreasing_by
  · exact Prod.Lex.right _ (by rw [unfoldings_asType]; exact Nat.one_pos)
  · exact Prod.Lex.left _ _ (AnyValue.sizeOf_lt_array ‹_›)
  · rename_i hmem
    exact Prod.Lex.left _ _ (AnyValue.sizeOf_lt_kvList hmem)
  · rename_i hmem
    exact Prod.Lex.left _ _ ((mapEntry_sizeOf_lt hentry).1.trans (AnyValue.sizeOf_lt_array ‹_›))
  · exact Prod.Lex.left _ _ ((mapEntry_sizeOf_lt hentry).2.trans (AnyValue.sizeOf_lt_array ‹_›))
  · exact Prod.Lex.left _ _ (AnyValue.sizeOf_lt_array ‹_›)
  · exact Prod.Lex.left _ _ (AnyValue.sizeOf_lt_of_lookup hfield)
  · exact Prod.Lex.left _ _ (AnyValue.sizeOf_lt_head _ _ _)
  · exact Prod.Lex.left _ _ (AnyValue.sizeOf_lt_head _ _ _)

/-! ### Equations without membership proofs -/

section Equations

variable {set : RegistrySet} {component : ResolvedComponent}

/-- The canonical key and value of one array-coded map entry. -/
def canonicalEntry (set : RegistrySet) (component : ResolvedComponent)
    (keyType valueType : TypeRef) : AnyValue → Option (CanonicalValue × CanonicalValue)
  | .kvList fields =>
      (lookup fields "key").bind fun key => (lookup fields "value").bind fun value =>
        (canonicalValue set component keyType key).bind fun key =>
          (canonicalValue set component valueType value).map fun value => (key, value)
  | _ => none

/-- A value of another shape has no canonical form at the type, and is reported. -/
example (items : TypeRef) (location : String) :
    canonicalValue set component (.tuple [items]) (.bool true) = none ∧
      validateValue set component (.tuple [items]) (.bool true) location =
        issue location "tuple must use arrayValue" := by
  rw [canonicalValue, validateValue]
  · exact ⟨rfl, rfl⟩
  · exact fun values heq => AnyValue.noConfusion heq
  · exact fun values heq => AnyValue.noConfusion heq

theorem canonicalValue_primitive (name : String) (value : AnyValue) :
    canonicalValue set component (.primitive name) value = canonicalPrimitive value name := by
  rw [canonicalValue]

theorem canonicalValue_collection (items : TypeRef) (ordered unique : Bool)
    (values : List AnyValue) :
    canonicalValue set component (.collection items ordered unique) (.array values) =
      (collect (canonicalValue set component items) values).map fun values =>
        .list (if ordered then values else sort values) := by
  rw [canonicalValue, collect_attach (canonicalValue set component items)]

theorem canonicalValue_map_kvList {keyType : TypeRef} {ordered : Bool}
    (hstring : (!ordered && isStringType keyType) = true) (valueType : TypeRef)
    (entries : List (String × AnyValue)) :
    canonicalValue set component (.map keyType valueType ordered) (.kvList entries) =
      (collect (fun entry => (canonicalValue set component valueType entry.2).map fun value =>
        (CanonicalValue.string entry.1, value)) entries).map fun entries =>
          .map (ofList entries) := by
  rw [canonicalValue, if_pos hstring]
  rw [collect_attach fun entry : String × AnyValue =>
    (canonicalValue set component valueType entry.2).map fun value =>
      (CanonicalValue.string entry.1, value)]

theorem canonicalValue_map_array {keyType : TypeRef} {ordered : Bool}
    (hstring : (!ordered && isStringType keyType) = false) (valueType : TypeRef)
    (entries : List AnyValue) :
    canonicalValue set component (.map keyType valueType ordered) (.array entries) =
      (collect (canonicalEntry set component keyType valueType) entries).map fun entries =>
        if ordered then .orderedMap entries else .map (ofList entries) := by
  rw [canonicalValue, if_neg (by simp [hstring]), ← collect_attach (canonicalEntry _ _ _ _)]
  congr 1
  refine collect_congr fun entry _ => ?_
  obtain ⟨entry, hentry⟩ := entry
  cases entry with
  | kvList fields =>
    simp only [canonicalEntry]
    cases lookup fields "key" with
    | none => rfl
    | some key => cases lookup fields "value" <;> rfl
  | _ => rfl

theorem canonicalValue_tuple {items : List TypeRef} {values : List AnyValue}
    (hlength : values.length = items.length) :
    canonicalValue set component (.tuple items) (.array values) =
      (collect (fun pair => canonicalValue set component pair.2 pair.1)
        (values.zip items)).map .tuple := by
  rw [canonicalValue, if_neg (by simp [hlength])]
  congr 1
  have hzip : values.zip items = (values.attach.zip items).map fun pair => (pair.1.1, pair.2) := by
    conv_lhs => rw [← List.attach_map_subtype_val values]
    rw [List.zip_map_left]
    rfl
  rw [hzip, collect_map]

/-- The canonical value of one declared field. -/
def canonicalField (set : RegistrySet) (component : ResolvedComponent)
    (entries : List (String × AnyValue)) (field : NamedValue) : Option (String × CanonicalValue) :=
  (lookup entries field.1).bind fun value =>
    (canonicalValue set component field.2 value).map fun value => (field.1, value)

theorem canonicalValue_record (fields : List NamedValue) (entries : List (String × AnyValue)) :
    canonicalValue set component (.record fields) (.kvList entries) =
      (collect (canonicalField set component entries) fields).map fun fields =>
        .record (ofList fields) := by
  rw [canonicalValue]
  congr 1
  refine collect_congr fun field _ => ?_
  rw [canonicalField]
  cases lookup entries field.1 <;> rfl

theorem canonicalValue_optional_none (inner : TypeRef) (payload : AnyValue)
    (rest : List (String × AnyValue)) :
    canonicalValue set component (.optional inner) (.kvList (("None", payload) :: rest)) =
      (canonicalPrimitive payload "unit").map fun value => .variant "None" value := by
  rw [canonicalValue, if_pos rfl]

theorem canonicalValue_optional_some (inner : TypeRef) (payload : AnyValue)
    (rest : List (String × AnyValue)) :
    canonicalValue set component (.optional inner) (.kvList (("Some", payload) :: rest)) =
      (canonicalValue set component inner payload).map fun value => .variant "Some" value := by
  rw [canonicalValue, if_neg (by decide), if_pos rfl]

theorem canonicalValue_payload {variants : List Variant} {name : String} {type : TypeRef}
    (hfind : variants.find? (fun variant => variant.1 == name) = some (name, some type))
    (payload : AnyValue) (rest : List (String × AnyValue)) :
    canonicalValue set component (.taggedUnion variants) (.kvList ((name, payload) :: rest)) =
      (canonicalValue set component type payload).map fun value => .variant name value := by
  rw [canonicalValue]
  simp only [hfind]

theorem canonicalValue_bare {variants : List Variant} {name : String}
    (hfind : variants.find? (fun variant => variant.1 == name) = some (name, none))
    (payload : AnyValue) (rest : List (String × AnyValue)) :
    canonicalValue set component (.taggedUnion variants) (.kvList ((name, payload) :: rest)) =
      (canonicalPrimitive payload "unit").map fun value => .variant name value := by
  rw [canonicalValue]
  simp only [hfind]

/-- What a named reference unfolds to, for the validator and the canonicaliser alike. -/
structure Unfolds (set : RegistrySet) (component : ResolvedComponent) (name : String)
    (componentId registryId : Option String) (target : ResolvedComponent)
    (definition : NamedType) : Prop where
  member : lookup set.components (componentId.getD component.component.id) = some target
  own : foreignRegistry registryId target = false
  find : (target.component.types.find? fun item => item.name == name) = some definition

theorem canonicalValue_named {name : String} {componentId registryId : Option String}
    {target : ResolvedComponent} {definition : NamedType}
    (h : Unfolds set component name componentId registryId target definition) (value : AnyValue) :
    canonicalValue set component (.named name componentId registryId) value =
      canonicalValue set target definition.asType value := by
  rw [canonicalValue]
  simp only [h.member, h.own, h.find, Bool.false_eq_true, if_false]

end Equations

/-! ### When the validator accepts -/

section Acceptance

variable {set : RegistrySet} {component : ResolvedComponent} {value : AnyValue}
  {location : String}

theorem validateValue_named {name : String} {componentId registryId : Option String} :
    validateValue set component (.named name componentId registryId) value location = [] ↔
      ∃ target definition, Unfolds set component name componentId registryId target definition ∧
        validateValue set target definition.asType value location = [] := by
  rw [validateValue]
  constructor
  · intro h
    cases hmember : lookup set.components (componentId.getD component.component.id) with
    | none => simp [hmember] at h
    | some target =>
      cases hown : foreignRegistry registryId target with
      | true => simp [hmember, hown] at h
      | false =>
        cases hfind : target.component.types.find? fun item => item.name == name with
        | none => simp [hmember, hown, hfind] at h
        | some definition =>
          simp only [hmember, hown, hfind, Bool.false_eq_true, if_false] at h
          exact ⟨target, definition, ⟨hmember, hown, hfind⟩, h⟩
  · rintro ⟨target, definition, hunfolds, h⟩
    simp only [hunfolds.member, hunfolds.own, hunfolds.find, Bool.false_eq_true, if_false]
    exact h

theorem validateValue_collection {items : TypeRef} {ordered unique : Bool} :
    validateValue set component (.collection items ordered unique) value location = [] ↔
      ∃ values, value = .array values ∧
        (∀ i (h : i < values.length),
          validateValue set component items values[i] s!"{location}[{i}]" = []) ∧
        (unique = true →
          (values.filterMap fun value => canonicalValue set component items value).Nodup) := by
  cases value with
  | array values =>
    rw [validateValue]
    simp only [AnyValue.array.injEq, exists_eq_left']
    rw [flatMap_attach_zipIdx values fun value index =>
      validateValue set component items value s!"{location}[{index}]"]
    rw [List.append_eq_nil_iff, ← length_distinct_eq_iff]
    refine (and_congr_right fun hitems => ?_).trans (and_congr_left' flatMap_zipIdx_eq_nil)
    cases unique with
    | false => simp
    | true =>
      simp only [hitems, true_and, ne_eq, true_imp_iff]
      by_cases hlength : (distinct (values.filterMap fun value =>
          canonicalValue set component items value)).length =
          (values.filterMap fun value => canonicalValue set component items value).length
      · simp [hlength]
      · simp [hlength]
  | _ => simp [validateValue]

theorem validateValue_map_kvList {keyType valueType : TypeRef} {ordered : Bool}
    (hstring : (!ordered && isStringType keyType) = true) :
    validateValue set component (.map keyType valueType ordered) value location = [] ↔
      ∃ entries, value = .kvList entries ∧ ∀ entry ∈ entries,
        validateValue set component valueType entry.2 s!"{location}.{entry.1}" = [] := by
  cases value with
  | kvList entries =>
    rw [validateValue, if_pos hstring]
    simp only [AnyValue.kvList.injEq, exists_eq_left', List.flatMap_eq_nil_iff]
    constructor
    · exact fun h entry hentry => h ⟨entry, hentry⟩ (List.mem_attach _ _)
    · exact fun h entry _ => h entry.1 entry.2
  | _ => simp [validateValue, hstring]

/-- Positions of an array-coded map: every entry is well shaped and no canonical key
has occurred before it. -/
theorem validateValue_map_array {keyType valueType : TypeRef} {ordered : Bool}
    (hstring : (!ordered && isStringType keyType) = false) :
    validateValue set component (.map keyType valueType ordered) value location = [] ↔
      ∃ entries, value = .array entries ∧ ∀ i (h : i < entries.length),
        ∃ key value, mapEntry entries[i] = some (key, value) ∧
          validateValue set component keyType key s!"{location}[{i}].key" = [] ∧
          validateValue set component valueType value s!"{location}[{i}].value" = [] ∧
          repeatsKey (canonicalValue set component keyType) (entries.take i) key = false := by
  cases value with
  | array entries =>
    rw [validateValue, if_neg (by simp [hstring])]
    simp only [AnyValue.array.injEq, exists_eq_left']
    rw [flatMap_attach_zipIdx entries fun entry index => match hentry : mapEntry entry with
      | none => issue s!"{location}[{index}]" "map entry must contain key and value"
      | some (key, value) =>
          validateValue set component keyType key s!"{location}[{index}].key" ++
          validateValue set component valueType value s!"{location}[{index}].value" ++
          if repeatsKey (canonicalValue set component keyType) (entries.take index) key then
            issue location "map contains duplicate keys"
          else []]
    rw [flatMap_zipIdx_eq_nil]
    refine forall₂_congr fun i h => ?_
    cases hentry : mapEntry entries[i] with
    | none => simp
    | some pair =>
      obtain ⟨key, value⟩ := pair
      simp only [Option.some.injEq, Prod.mk.injEq, List.append_eq_nil_iff, and_assoc]
      cases hrepeat : repeatsKey (canonicalValue set component keyType) (entries.take i) key <;>
        simp [hrepeat]
  | _ => simp [validateValue, hstring]

theorem validateValue_tuple {items : List TypeRef} :
    validateValue set component (.tuple items) value location = [] ↔
      ∃ values, value = .array values ∧ values.length = items.length ∧
        ∀ i (h : i < values.length) (h' : i < items.length),
          validateValue set component items[i] values[i] s!"{location}[{i}]" = [] := by
  cases value with
  | array values =>
    rw [validateValue]
    simp only [AnyValue.array.injEq, exists_eq_left']
    by_cases hlength : values.length = items.length
    · rw [if_neg (by simp [hlength]), flatMap_zipIdx_eq_nil]
      simp only [hlength, true_and, List.length_zip, List.length_attach, min_self,
        List.getElem_zip, List.getElem_attach]
      exact ⟨fun h i hi _ => h i hi, fun h i hi => h i hi hi⟩
    · simp [hlength]
  | _ => simp [validateValue]

theorem validateValue_record {fields : List NamedValue} :
    validateValue set component (.record fields) value location = [] ↔
      ∃ entries, value = .kvList entries ∧
        distinct (keys entries) = distinct (fields.map Prod.fst) ∧
        ∀ field ∈ fields, ∀ value, lookup entries field.1 = some value →
          validateValue set component field.2 value s!"{location}.{field.1}" = [] := by
  cases value with
  | kvList entries =>
    rw [validateValue]
    simp only [AnyValue.kvList.injEq, exists_eq_left']
    by_cases hkeys : distinct (keys entries) = distinct (fields.map Prod.fst)
    · rw [if_neg (by simp [hkeys]), List.flatMap_eq_nil_iff]
      refine ⟨fun h => ⟨hkeys, fun field hfield found hfound => ?_⟩, fun h field hfield => ?_⟩
      · have := h field hfield
        split at this
        · rename_i hnone
          rw [hnone] at hfound
          cases hfound
        · rename_i other hother
          rw [hother] at hfound
          obtain rfl := Option.some.inj hfound
          exact this
      · split
        · rfl
        · rename_i other hother
          exact h.2 field hfield other hother
    · simp [hkeys]
  | _ => simp [validateValue]

theorem validateValue_optional {inner : TypeRef} :
    validateValue set component (.optional inner) value location = [] ↔
      (∃ payload, value = .kvList [("None", payload)] ∧
        validatePrimitive payload "unit" s!"{location}.None" = []) ∨
      (∃ payload, value = .kvList [("Some", payload)] ∧
        validateValue set component inner payload s!"{location}.Some" = []) := by
  cases value with
  | kvList entries =>
    match entries with
    | [] => simp [validateValue]
    | [(name, payload)] =>
      rw [validateValue]
      by_cases hnone : name = "None"
      · subst hnone
        simp
      · by_cases hsome : name = "Some"
        · subst hsome
          simp
        · simp [hnone, hsome]
    | _ :: _ :: _ => simp [validateValue]
  | _ => simp [validateValue]

theorem find_variant {variants : List Variant} {name : String} {variant : Variant}
    (h : variants.find? (fun variant => variant.1 == name) = some variant) : variant.1 = name := by
  simpa using List.find?_some h

theorem validateValue_taggedUnion {variants : List Variant} :
    validateValue set component (.taggedUnion variants) value location = [] ↔
      (∃ name payload type, value = .kvList [(name, payload)] ∧
        variants.find? (fun variant => variant.1 == name) = some (name, some type) ∧
        validateValue set component type payload s!"{location}.{name}" = []) ∨
      (∃ name payload, value = .kvList [(name, payload)] ∧
        variants.find? (fun variant => variant.1 == name) = some (name, none) ∧
        validatePrimitive payload "unit" s!"{location}.{name}" = []) := by
  cases value with
  | kvList entries =>
    match entries with
    | [] => simp [validateValue]
    | [(name, payload)] =>
      rw [validateValue]
      cases hfind : variants.find? fun variant => variant.1 == name with
      | none =>
        constructor
        · intro h
          simp at h
        · rintro (⟨n, p, t, hvalue, hn, -⟩ | ⟨n, p, hvalue, hn, -⟩)
          all_goals
            simp only [AnyValue.kvList.injEq, List.cons.injEq, Prod.mk.injEq, and_true] at hvalue
            obtain ⟨rfl, rfl⟩ := hvalue
            rw [hfind] at hn
            cases hn
      | some variant =>
        obtain ⟨variantName, payloadType⟩ := variant
        obtain rfl : variantName = name := find_variant hfind
        cases payloadType with
        | none =>
          constructor
          · exact fun h => .inr ⟨variantName, payload, rfl, hfind, h⟩
          · rintro (⟨n, p, t, hvalue, hn, -⟩ | ⟨n, p, hvalue, hn, h⟩)
            · simp only [AnyValue.kvList.injEq, List.cons.injEq, Prod.mk.injEq, and_true] at hvalue
              obtain ⟨rfl, rfl⟩ := hvalue
              rw [hfind] at hn
              cases hn
            · simp only [AnyValue.kvList.injEq, List.cons.injEq, Prod.mk.injEq, and_true] at hvalue
              obtain ⟨rfl, rfl⟩ := hvalue
              exact h
        | some type =>
          constructor
          · exact fun h => .inl ⟨variantName, payload, type, rfl, hfind, h⟩
          · rintro (⟨n, p, t, hvalue, hn, h⟩ | ⟨n, p, hvalue, hn, -⟩)
            · simp only [AnyValue.kvList.injEq, List.cons.injEq, Prod.mk.injEq, and_true] at hvalue
              obtain ⟨rfl, rfl⟩ := hvalue
              rw [hfind] at hn
              obtain ⟨-, rfl⟩ := Prod.mk.inj (Option.some.inj hn) |>.imp id Option.some.inj
              exact h
            · simp only [AnyValue.kvList.injEq, List.cons.injEq, Prod.mk.injEq, and_true] at hvalue
              obtain ⟨rfl, rfl⟩ := hvalue
              rw [hfind] at hn
              cases hn
    | _ :: _ :: _ => simp [validateValue]
  | _ => simp [validateValue]

/-- Induction along the recursion of the two passes: into the value, or through the
definition of a named type at the same value. -/
theorem value_induction {motive : ResolvedComponent → TypeRef → AnyValue → Prop}
    (step : ∀ component type value,
      (∀ component' type' value', sizeOf value' < sizeOf value → motive component' type' value') →
      (unfoldings type = 1 → ∀ component' definition,
        motive component' (NamedType.asType definition) value) →
      motive component type value)
    (component : ResolvedComponent) (type : TypeRef) (value : AnyValue) :
    motive component type value := by
  have hsize : ∀ n component type value, sizeOf value < n → motive component type value := by
    intro n
    induction n with
    | zero => intro component type value h; omega
    | succ n ih =>
      intro component type value h
      have hstructural : ∀ component' definition, motive component' (NamedType.asType definition)
          value := by
        intro component' definition
        refine step _ _ _ (fun c t v hv => ih c t v (by omega)) fun hnamed => ?_
        rw [unfoldings_asType] at hnamed
        omega
      exact step _ _ _ (fun c t v hv => ih c t v (by omega)) fun _ => hstructural
  exact hsize _ component type value (Nat.lt_succ_self _)

end Acceptance

end SpecGate.LinkedValues

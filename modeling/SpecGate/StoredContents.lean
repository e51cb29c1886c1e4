import SpecGate.StoredValues

/-!
What conversion does to the content of a value. A value has a content at a type: the same
content can be stored in different ways, and a map has the content of its pairs. A converted
value has, at the type of the registry, the content that the stored value has at the type of
the candidate, unless two pairs of a list would have to share a key.
-/
namespace SpecGate.StoredContents

open RegistryModel StorageBindings BindingDepth BoundNodes BoundOperations StoredValues
open SortedAssoc Checked
open Demands (Failure)
open SidecarValues (NativeValue)

/-! ### Contents -/

inductive Content where
  | atom (value : NativeValue)
  | items (contents : List Content)
  | fields (contents : List (String × Content))

def pairContent (pair : Content × Content) : Content := .items [pair.1, pair.2]

/-- The pairs of a map are in their order if the map has one, and in any order otherwise. -/
def Arranged (ordered : Bool) (contents pairs : List Content) : Prop :=
  if ordered then contents = pairs else contents.Perm pairs

/-- The content of a value at a type. The storage of a candidate has only maps with text keys;
a registry lists the entries of other maps where `listed` is set. -/
inductive Reads (types : String → String → Option TypeRef) (listed : Bool) :
    String → TypeRef → NativeValue → Content → Prop
  | primitive {component name value} (htext : name = "string" → ∃ text, value = .string text) :
      Reads types listed component (.primitive name) value (.atom value)
  | named {component owner name registry type value content}
      (htype : types (owner.getD component) name = some type)
      (h : Reads types listed (owner.getD component) type value content) :
      Reads types listed component (.named name owner registry) value content
  | list {component items ordered unique} {values : List NativeValue} {contents : List Content}
      (hlength : values.length = contents.length)
      (h : ∀ pair ∈ values.zip contents, Reads types listed component items pair.1 pair.2) :
      Reads types listed component (.collection items ordered unique) (.list values)
        (.items contents)
  | set {component items ordered unique} {values : List NativeValue} {contents : List Content}
      (hlength : values.length = contents.length)
      (h : ∀ pair ∈ values.zip contents, Reads types listed component items pair.1 pair.2) :
      Reads types listed component (.collection items ordered unique) (.set values)
        (.items contents)
  | tuple {component} {items : List TypeRef} {values : List NativeValue} {contents : List Content}
      (hitems : items.length = values.length)
      (hlength : values.length = contents.length)
      (h : ∀ entry ∈ items.zip (values.zip contents),
        Reads types listed component entry.1 entry.2.1 entry.2.2) :
      Reads types listed component (.tuple items) (.list values) (.items contents)
  | compact {component values} {entries : List (String × NativeValue)} {contents : List Content}
      {pairs : List Content} (hsorted : Sorted entries)
      (hlength : entries.length = contents.length)
      (h : ∀ pair ∈ entries.zip contents, Reads types listed component values pair.1.2 pair.2)
      (hpairs : pairs.Perm (((keys entries).zip contents).map fun pair =>
        pairContent (.atom (.string pair.1), pair.2))) :
      Reads types listed component (.map (.primitive "string") values false) (.map entries)
        (.items pairs)
  | pairs {component keys values ordered} {entries : List (NativeValue × NativeValue)}
      {contents : List (Content × Content)} {pairs : List Content} (hlisted : listed = true)
      (hcompact : (!ordered && isCompact keys) = false)
      (hlength : entries.length = contents.length)
      (hkeys : ∀ pair ∈ entries.zip contents, Reads types listed component keys pair.1.1 pair.2.1)
      (hvalues : ∀ pair ∈ entries.zip contents,
        Reads types listed component values pair.1.2 pair.2.2)
      (hpairs : Arranged ordered pairs (contents.map pairContent)) :
      Reads types listed component (.map keys values ordered) (.list (entries.map entryObject))
        (.items pairs)
  | record {component} {fields : List NamedValue} {entries : List (String × NativeValue)}
      {contents : List Content}
      (hnames : (keys entries).Perm (fields.map Prod.fst))
      (hlength : entries.length = contents.length)
      (h : ∀ pair ∈ entries.zip contents, ∀ type, fields.lookup pair.1.1 = some type →
        Reads types listed component type pair.1.2 pair.2) :
      Reads types listed component (.record fields) (.map entries)
        (.fields ((keys entries).zip contents))
  | absent {component type value} :
      Reads types listed component (.optional type) (.map [("None", value)])
        (.fields [("None", .atom value)])
  | present {component type value content} (h : Reads types listed component type value content) :
      Reads types listed component (.optional type) (.map [("Some", value)])
        (.fields [("Some", content)])
  | unit {component name value} {variants : List Variant} (hvariant : variants.lookup name = some none) :
      Reads types listed component (.taggedUnion variants) (.map [(name, value)])
        (.fields [(name, .atom value)])
  | payload {component name type value content} {variants : List Variant}
      (hvariant : variants.lookup name = some (some type))
      (h : Reads types listed component type value content) :
      Reads types listed component (.taggedUnion variants) (.map [(name, value)])
        (.fields [(name, content)])

/-- The key of a value that is a pair with a text first. -/
def pairKey : NativeValue → Option String
  | .list [.string key, _] => some key
  | _ => none

/-- Somewhere in the value two pairs of a list have one key. -/
inductive Repeats : NativeValue → Prop
  | list {values} (h : ¬ (values.filterMap pairKey).Nodup) : Repeats (.list values)
  | set {values} (h : ¬ (values.filterMap pairKey).Nodup) : Repeats (.set values)
  | ofList {value values} (hmem : value ∈ values) (h : Repeats value) : Repeats (.list values)
  | ofSet {value values} (hmem : value ∈ values) (h : Repeats value) : Repeats (.set values)
  | ofMap {entry entries} (hmem : entry ∈ entries) (h : Repeats entry.2) : Repeats (.map entries)

/-- Fields and variants have names of their own throughout the type. -/
structure Clear (type : TypeRef) : Prop where
  fields : ∀ fields, Within (.record fields) type → (fields.map Prod.fst).Nodup
  variants : ∀ variants, Within (.taggedUnion variants) type → (variants.map Prod.fst).Nodup

theorem Clear.part {type part : TypeRef} (h : Clear type) (hpart : Part part type) : Clear part :=
  ⟨fun fields hfields => h.fields fields (hfields.tail hpart),
    fun variants hvariants => h.variants variants (hvariants.tail hpart)⟩

/-- Names are told apart throughout a type if they are at its root and throughout its parts. -/
theorem clear_of_parts {type : TypeRef}
    (hfields : ∀ fields, type = .record fields → (fields.map Prod.fst).Nodup)
    (hvariants : ∀ variants, type = .taggedUnion variants → (variants.map Prod.fst).Nodup)
    (hparts : ∀ part, Part part type → Clear part) : Clear type := by
  constructor
  · intro fields hwithin
    rcases Relation.ReflTransGen.cases_tail hwithin with rfl | ⟨part, hwithin, hpart⟩
    · exact hfields fields rfl
    · exact (hparts part hpart).fields fields hwithin
  · intro variants hwithin
    rcases Relation.ReflTransGen.cases_tail hwithin with rfl | ⟨part, hwithin, hpart⟩
    · exact hvariants variants rfl
    · exact (hparts part hpart).variants variants hwithin

theorem clear_primitive (name : String) : Clear (.primitive name) :=
  clear_of_parts (fun fields h => by cases h) (fun variants h => by cases h)
    fun part h => by cases h

/-! ### How a conversion ends -/

section Ends

variable {α β : Type}

/-- A computation has a value with a property, or reports an error under a condition. -/
def Ends (P : β → Prop) (E : Prop) : Except Failure β → Prop
  | .ok value => P value
  | .error (.error _) => E
  | .error (.panic _) => False

theorem Ends.imp {P P' : β → Prop} {E E' : Prop} {run : Except Failure β} (h : Ends P E run)
    (hP : ∀ value, P value → P' value) (hE : E → E') : Ends P' E' run := by
  match run, h with
  | .ok value, h => exact hP value h
  | .error (.error _), h => exact hE h

theorem Ends.map {P : β → Prop} {E : Prop} {run : Except Failure α} {change : α → β}
    (h : Ends (fun value => P (change value)) E run) : Ends P E (run.map change) := by
  match run, h with
  | .ok value, h => exact h
  | .error (.error _), h => exact h

theorem Ends.bind {P : β → Prop} {Q : α → Prop} {E : Prop} {run : Except Failure α}
    {next : α → Except Failure β} (h : Ends Q E run) (hnext : ∀ value, Q value → Ends P E (next value)) :
    Ends P E (run >>= next) := by
  match run, h with
  | .ok value, h => exact hnext value h
  | .error (.error _), h => exact h

/-- The value that a computation ends with is the one it returns. -/
theorem Ends.run {P : β → Prop} {E : Prop} {run : Except Failure β} (h : Ends P E run) :
    Ends (fun value => run = .ok value ∧ P value) E run := by
  match run, h with
  | .ok value, h => exact ⟨rfl, h⟩
  | .error (.error _), h => exact h

theorem ends_mapAll {Q : α → β → Prop} {E : α → Prop} {step : α → Except Failure β} {values : List α}
    (h : ∀ value ∈ values, Ends (Q value) (E value) (step value)) :
    Ends (fun results => List.Forall₂ Q values results) (∃ value ∈ values, E value)
      (mapAll step values) := by
  induction values with
  | nil => exact List.Forall₂.nil
  | cons value rest ih =>
    have hrest := ih fun other hother => h other (List.mem_cons_of_mem _ hother)
    refine Ends.bind ((h value List.mem_cons_self).imp (fun _ hQ => hQ)
      fun hE => ⟨value, List.mem_cons_self, hE⟩) fun result hresult => ?_
    refine Ends.bind (hrest.imp (fun _ hQ => hQ) ?_) fun results hresults =>
      List.Forall₂.cons hresult hresults
    rintro ⟨other, hother, hE⟩
    exact ⟨other, List.mem_cons_of_mem _ hother, hE⟩

end Ends

/-! ### Loops -/

section Loops

variable (nodes : List Node)

theorem allAt_eq (item : Nat) (values : List NativeValue) :
    allAt nodes item values = mapAll (value nodes item) values := by
  induction values with
  | nil => rfl
  | cons native rest ih => rw [allAt, mapAll, ih]

theorem eachAt_eq (ids : List Nat) (values : List NativeValue) :
    eachAt nodes ids values = mapAll (fun entry => value nodes entry.1 entry.2) (ids.zip values) := by
  induction values generalizing ids with
  | nil => cases ids <;> rfl
  | cons native rest ih =>
    cases ids with
    | nil => rfl
    | cons id ids => rw [eachAt, List.zip_cons_cons, mapAll, ih]

/-- Convert the value of one entry, if there is a node for it. -/
def entryAt (node : String → Option Nat) (entry : String × NativeValue) :
    Except Failure (String × NativeValue) :=
  match node entry.1 with
  | some id => (value nodes id entry.2).map fun converted => (entry.1, converted)
  | none => .ok entry

theorem entriesAt_eq (node : String → Option Nat) (entries : List (String × NativeValue)) :
    entriesAt nodes node entries = mapAll (entryAt nodes node) entries := by
  induction entries with
  | nil => rfl
  | cons entry rest ih =>
    obtain ⟨name, native⟩ := entry
    rw [entriesAt, mapAll, ih]
    unfold entryAt
    dsimp only
    cases node name with
    | none => rfl
    | some id =>
      dsimp only
      cases value nodes id native <;> rfl

def pairOf : NativeValue → Option (NativeValue × NativeValue)
  | .list [key, native] | .set [key, native] => some (key, native)
  | _ => none

def pairAt (keys values : Nat) (entry : NativeValue) : Except Failure (NativeValue × NativeValue) :=
  match pairOf entry with
  | some pair => do
      let key ← value nodes keys pair.1
      let converted ← value nodes values pair.2
      return (key, converted)
  | none => failed noArray

theorem pairsAt_eq (keys values : Nat) (entries : List NativeValue) :
    pairsAt nodes keys values entries = mapAll (pairAt nodes keys values) entries := by
  induction entries with
  | nil => rfl
  | cons entry rest ih =>
    have hpair : ∀ key native, pairOf entry = some (key, native) →
        mapAll (pairAt nodes keys values) (entry :: rest) = (do
          let key ← value nodes keys key
          let converted ← value nodes values native
          let others ← pairsAt nodes keys values rest
          return (key, converted) :: others) := by
      intro key native hpair
      rw [mapAll, pairAt, hpair, ih]
      dsimp only
      cases value nodes keys key with
      | error failure => rfl
      | ok key => cases value nodes values native <;> rfl
    have hfailed : pairOf entry = none →
        mapAll (pairAt nodes keys values) (entry :: rest) = failed noArray := by
      intro hnone
      rw [mapAll, pairAt, hnone]
      rfl
    rw [pairsAt.eq_def]
    split
    · rename_i heq
      cases heq
    · rename_i heq
      cases heq
      exact (hpair _ _ rfl).symm
    · rename_i heq
      cases heq
      exact (hpair _ _ rfl).symm
    · rename_i first others hlist hset heq
      cases heq
      refine (hfailed ?_).symm
      unfold pairOf
      split
      · exact absurd rfl (hlist _ _)
      · exact absurd rfl (hset _ _)
      · rfl

end Loops

/-! ### No conversion panics -/

section Total

variable {reference candidate : List Declarations} {nodes : List Node}

theorem sizeOf_lt_list {value : NativeValue} {values : List NativeValue} (h : value ∈ values) :
    sizeOf value < sizeOf (NativeValue.list values) := by
  have := List.sizeOf_lt_of_mem h
  rw [NativeValue.list.sizeOf_spec]
  omega

theorem sizeOf_lt_set {value : NativeValue} {values : List NativeValue} (h : value ∈ values) :
    sizeOf value < sizeOf (NativeValue.set values) := by
  have := List.sizeOf_lt_of_mem h
  rw [NativeValue.set.sizeOf_spec]
  omega

theorem sizeOf_lt_map {entry : String × NativeValue} {entries : List (String × NativeValue)}
    (h : entry ∈ entries) : sizeOf entry.2 < sizeOf (NativeValue.map entries) := by
  have := List.sizeOf_lt_of_mem h
  obtain ⟨name, value⟩ := entry
  rw [NativeValue.map.sizeOf_spec]
  rw [Prod.mk.sizeOf_spec] at this
  dsimp only
  omega

theorem sizeOf_lt_pair {entry key native : NativeValue} (h : pairOf entry = some (key, native)) :
    sizeOf key < sizeOf entry ∧ sizeOf native < sizeOf entry := by
  unfold pairOf at h
  split at h
  · cases h
    exact ⟨sizeOf_lt_list List.mem_cons_self,
      sizeOf_lt_list (List.mem_cons_of_mem _ List.mem_cons_self)⟩
  · cases h
    exact ⟨sizeOf_lt_set List.mem_cons_self,
      sizeOf_lt_set (List.mem_cons_of_mem _ List.mem_cons_self)⟩
  · cases h

/-- Whatever the value, converting it at the node does not panic. -/
def Safe (nodes : List Node) (native : NativeValue) (id : Nat) : Prop :=
  Ends (fun _ => True) True (value nodes id native)

theorem ends_checkPair (entry : NativeValue) : Ends (fun _ => True) True (checkPair entry) := by
  cases entry with
  | list values | set values =>
    unfold checkPair
    dsimp only
    split <;> trivial
  | _ => trivial

theorem ends_forM {α : Type} {check : α → Except Failure Unit} {values : List α}
    (h : ∀ value ∈ values, Ends (fun _ => True) True (check value)) :
    Ends (fun _ => True) True (values.forM check) := by
  induction values with
  | nil => trivial
  | cons value rest ih =>
    show Ends _ _ (check value >>= fun _ => rest.forM check)
    exact (h value List.mem_cons_self).bind fun _ _ =>
      ih fun other hother => h other (List.mem_cons_of_mem _ hother)

theorem ends_insertKeys (entries : List (NativeValue × NativeValue))
    (values : List (String × NativeValue)) :
    Ends (fun _ => True) True (entries.foldlM insertKey values) := by
  induction entries generalizing values with
  | nil => trivial
  | cons entry rest ih =>
    rw [List.foldlM_cons]
    refine Ends.bind (Q := fun _ => True) ?_ fun values _ => ih values
    unfold insertKey
    split
    · split <;> trivial
    · trivial

theorem ends_mapValue (entries : List (NativeValue × NativeValue)) (compact : Bool) :
    Ends (fun _ => True) True (mapValue entries compact) := by
  unfold mapValue
  split
  · exact (ends_insertKeys entries []).map
  · trivial

theorem ends_pairs {keys values : Nat} {entries : List NativeValue} {compact : Bool}
    (hkeys : ∀ entry ∈ entries, ∀ key native, pairOf entry = some (key, native) →
      Safe nodes key keys ∧ Safe nodes native values) :
    Ends (fun _ => True) True (do
      entries.forM checkPair
      let converted ← pairsAt nodes keys values entries
      mapValue converted compact) := by
  refine (ends_forM fun entry _ => ends_checkPair entry).bind fun _ _ => ?_
  refine Ends.bind (Q := fun _ => True) ?_ fun converted _ => ends_mapValue converted compact
  rw [pairsAt_eq]
  refine (ends_mapAll (Q := fun _ _ => True) (E := fun _ => True) fun entry hentry => ?_).imp
    (fun _ _ => trivial) fun _ => trivial
  unfold pairAt
  cases hpair : pairOf entry with
  | none => trivial
  | some pair =>
    obtain ⟨hkey, hvalue⟩ := hkeys entry hentry _ _ hpair
    exact Ends.bind hkey fun _ _ => Ends.bind hvalue fun _ _ => trivial

theorem ends_all {values : List NativeValue} {item : Nat}
    (h : ∀ native ∈ values, Safe nodes native item) :
    Ends (fun _ => True) True ((allAt nodes item values).map NativeValue.list) := by
  rw [allAt_eq]
  exact ((ends_mapAll h).imp (fun _ _ => trivial) fun _ => trivial).map

theorem ends_each {values : List NativeValue} {ids : List Nat}
    (h : ∀ native ∈ values, ∀ id ∈ ids, Safe nodes native id) :
    Ends (fun _ => True) True ((eachAt nodes ids values).map NativeValue.list) := by
  rw [eachAt_eq]
  refine Ends.map ((ends_mapAll (Q := fun _ _ => True) (E := fun _ => True) ?_).imp
    (fun _ _ => trivial) fun _ => trivial)
  rintro ⟨id, native⟩ hentry
  obtain ⟨hid, hnative⟩ := List.of_mem_zip hentry
  exact h native hnative id hid

theorem ends_entries {entries : List (String × NativeValue)} {node : String → Option Nat}
    (h : ∀ entry ∈ entries, ∀ id, node entry.1 = some id → Safe nodes entry.2 id) :
    Ends (fun _ => True) True (entriesAt nodes node entries) := by
  rw [entriesAt_eq]
  refine (ends_mapAll (Q := fun _ _ => True) (E := fun _ => True) fun entry hentry => ?_).imp
    (fun _ _ => trivial) fun _ => trivial
  unfold entryAt
  cases hnode : node entry.1 with
  | none => trivial
  | some id => exact Ends.map (P := fun _ => True) (h entry hentry id hnode)

theorem boundAll_id {R : String → TypeRef → TypeRef → Nat → Prop} {component : String}
    {items others : List TypeRef} {ids : List Nat} (h : BoundAll R component items others ids)
    {id : Nat} (hid : id ∈ ids) : ∃ expected actual, R component expected actual id := by
  obtain ⟨pair, -, hR⟩ := exists_left_of_forall₂ h.2 hid
  exact ⟨_, _, hR⟩

/-- The node for a payload binds the payloads. -/
theorem realises_payload {component : String} {payload : Option TypeRef}
    {other : Option (Option TypeRef)} {id : Nat}
    (h : PayloadBound nodes (Realises reference candidate nodes) component payload other (some id)) :
    ∃ expected actual, payload = some expected ∧ other = some (some actual) ∧
      Realises reference candidate nodes component expected actual id := by
  cases h with
  | tuple hnode h => exact ⟨_, _, rfl, rfl, realises_tuple hnode h⟩
  | value h => exact ⟨_, _, rfl, rfl, h⟩

/-- A node with what it refers to is safe for a value if its children are for smaller values. -/
theorem shape_safe {native : NativeValue}
    (ih : ∀ part, sizeOf part < sizeOf native → ∀ component expected actual id,
      Realises reference candidate nodes component expected actual id → Safe nodes part id)
    {component : String} {expected actual : TypeRef} {node : Node} {id : Nat}
    (hnode : nodes[id]? = some node)
    (hshape : Shape reference candidate nodes (Realises reference candidate nodes) component expected
      actual node) : Safe nodes native id := by
  unfold Safe
  induction hshape with
  | primitive =>
    rw [value.eq_def, hnode]
    trivial
  | named _ _ _ _ _ ih => exact ih hnode
  | inline _ _ _ ih => exact ih hnode
  | sequence h =>
    rw [value.eq_def, hnode]
    cases native with
    | list values => exact ends_all fun part hpart => ih part (sizeOf_lt_list hpart) _ _ _ _ h
    | set values => exact ends_all fun part hpart => ih part (sizeOf_lt_set hpart) _ _ _ _ h
    | _ => trivial
  | optional h =>
    rw [value.eq_def, hnode]
    cases native with
    | map entries =>
      refine (ends_entries fun entry hentry id hid => ?_).map
      split at hid
      · cases hid
        exact ih _ (sizeOf_lt_map hentry) _ _ _ _ h
      · cases hid
    | _ => trivial
  | map hkey hvalue =>
    rw [value.eq_def, hnode]
    cases native with
    | map entries =>
      refine Ends.bind (ends_entries fun entry hentry id hid => ?_) fun converted _ =>
        ends_mapValue _ _
      cases hid
      exact ih _ (sizeOf_lt_map hentry) _ _ _ _ hvalue
    | _ => trivial
  | pairs hkey hvalue =>
    rw [value.eq_def, hnode]
    cases native with
    | list values =>
      refine ends_pairs fun entry hentry key native hpair => ?_
      obtain ⟨hlt, hlt'⟩ := sizeOf_lt_pair hpair
      have hsize := sizeOf_lt_list hentry
      exact ⟨ih key (hlt.trans hsize) _ _ _ _ hkey, ih native (hlt'.trans hsize) _ _ _ _ hvalue⟩
    | set values =>
      refine ends_pairs fun entry hentry key native hpair => ?_
      obtain ⟨hlt, hlt'⟩ := sizeOf_lt_pair hpair
      have hsize := sizeOf_lt_set hentry
      exact ⟨ih key (hlt.trans hsize) _ _ _ _ hkey, ih native (hlt'.trans hsize) _ _ _ _ hvalue⟩
    | _ => trivial
  | tuple h =>
    rw [value.eq_def, hnode]
    cases native with
    | list values =>
      dsimp only
      split
      · refine ends_each fun part hpart id hid => ?_
        obtain ⟨expected, actual, hR⟩ := boundAll_id h hid
        exact ih part (sizeOf_lt_list hpart) _ _ _ _ hR
      · trivial
    | set values =>
      dsimp only
      split
      · refine ends_each fun part hpart id hid => ?_
        obtain ⟨expected, actual, hR⟩ := boundAll_id h hid
        exact ih part (sizeOf_lt_set hpart) _ _ _ _ hR
      · trivial
    | _ => trivial
  | record hlength h =>
    rw [value.eq_def, hnode]
    cases native with
    | map entries =>
      refine (ends_entries fun entry hentry id hid => ?_).map
      obtain ⟨field, -, -, other, -, hR⟩ := exists_of_lookup h hid
      exact ih _ (sizeOf_lt_map hentry) _ _ _ _ hR
    | _ => trivial
  | tagged hlength h =>
    rw [value.eq_def, hnode]
    cases native with
    | map entries =>
      refine (ends_entries fun entry hentry id hid => ?_).map
      obtain ⟨variant, -, -, hpayload⟩ := exists_of_lookup h (Option.join_eq_some_iff.mp hid)
      obtain ⟨expected, actual, -, -, hR⟩ := realises_payload hpayload
      exact ih _ (sizeOf_lt_map hentry) _ _ _ _ hR
    | _ => trivial

/-- Converting a value at a node of the table never panics. -/
theorem value_safe (native : NativeValue) {component : String} {expected actual : TypeRef} {id : Nat}
    (h : Realises reference candidate nodes component expected actual id) : Safe nodes native id := by
  have hsize : ∀ n native, sizeOf native < n → ∀ component expected actual id,
      Realises reference candidate nodes component expected actual id → Safe nodes native id := by
    intro n
    induction n with
    | zero => intro native hlt; omega
    | succ n ih =>
      intro native hlt component expected actual id h
      obtain ⟨node, hnode, hshape⟩ := realises_closed reference candidate nodes _ _ _ _ h
      exact shape_safe (fun part hpart => ih part (by omega)) hnode hshape
  exact hsize _ native (Nat.lt_succ_self _) _ _ _ _ h

end Total

/-! ### Keys -/

section Keys

theorem insertKeys_texts (entries values : List (String × NativeValue)) :
    (entries.map fun entry => (NativeValue.string entry.1, entry.2)).foldlM insertKey values =
      if (keys entries).Nodup ∧ ∀ key ∈ keys entries, key ∉ keys values then
        .ok (entries.foldl (fun map entry => SortedAssoc.insert entry.1 entry.2 map) values)
      else failed duplicateKeys := by
  induction entries generalizing values with
  | nil => rw [if_pos (by simp)]; rfl
  | cons entry rest ih =>
    obtain ⟨name, native⟩ := entry
    rw [List.map_cons, List.foldlM_cons, insertKey]
    dsimp only
    by_cases hname : name ∈ keys values
    · rw [if_pos (contains_iff.mpr hname), if_neg]
      · rfl
      · rintro ⟨-, h⟩
        exact h name List.mem_cons_self hname
    · rw [if_neg (fun h => hname (contains_iff.mp h)), List.foldl_cons]
      show (rest.map fun entry => (NativeValue.string entry.1, entry.2)).foldlM insertKey
        (SortedAssoc.insert name native values) = _
      rw [ih]
      congr 1
      rw [keys_cons, List.nodup_cons, List.forall_mem_cons]
      refine propext ⟨?_, ?_⟩
      · rintro ⟨hnodup, h⟩
        refine ⟨⟨fun hmem => h name hmem (mem_keys_insert.mpr (.inl rfl)), hnodup⟩, hname, ?_⟩
        exact fun key hkey hmem => h key hkey (mem_keys_insert.mpr (.inr hmem))
      · rintro ⟨⟨hfresh, hnodup⟩, -, h⟩
        refine ⟨hnodup, fun key hkey hmem => ?_⟩
        rcases mem_keys_insert.mp hmem with rfl | hmem
        · exact hfresh hkey
        · exact h key hkey hmem

/-- Values under distinct text keys become an object, and repeated keys are an error. -/
theorem mapValue_texts (entries : List (String × NativeValue)) :
    mapValue (entries.map fun entry => (NativeValue.string entry.1, entry.2)) true =
      if (keys entries).Nodup then .ok (.map (ofList entries)) else failed duplicateKeys := by
  rw [mapValue, if_pos rfl, insertKeys_texts]
  by_cases hnodup : (keys entries).Nodup
  · rw [if_pos ⟨hnodup, by simp⟩, if_pos hnodup]
    rfl
  · rw [if_neg (fun h => hnodup h.1), if_neg hnodup]
    rfl

theorem lookup_of_mem_nodup {α : Type} {entries : List (String × α)}
    (hnodup : (entries.map Prod.fst).Nodup) {name : String} {found : α}
    (h : (name, found) ∈ entries) : entries.lookup name = some found := by
  induction entries with
  | nil => cases h
  | cons entry rest ih =>
    obtain ⟨first, value⟩ := entry
    obtain ⟨hfresh, hrest⟩ := List.nodup_cons.mp hnodup
    rcases List.mem_cons.mp h with hfirst | hmem
    · cases hfirst
      exact List.lookup_cons_self
    · have hne : name ≠ first := by
        rintro rfl
        exact hfresh (List.mem_map.mpr ⟨_, hmem, rfl⟩)
      rw [List.lookup_cons, beq_false_of_ne hne]
      exact ih hrest hmem

/-- Two lists of one length, the first with distinct names that the second also has: every name
of the second has its entry. -/
theorem exists_entry {α β γ : Type} {fields : List (String × α)} {others : List (String × β)}
    {entries : List (String × γ)} {R : String × α → String × γ → Prop}
    (hnodup : (fields.map Prod.fst).Nodup) (hlength : fields.length = others.length)
    (h : List.Forall₂ (fun field entry => entry.1 = field.1 ∧ R field entry) fields entries)
    (hsub : fields.map Prod.fst ⊆ others.map Prod.fst) {name : String}
    (hname : name ∈ others.map Prod.fst) :
    ∃ type found, fields.lookup name = some type ∧ lookup (ofList entries) name = some found ∧
      R (name, type) (name, found) := by
  have hperm : (fields.map Prod.fst).Perm (others.map Prod.fst) :=
    (hnodup.subperm hsub).perm_of_length_le (by simp [hlength])
  obtain ⟨⟨first, type⟩, hfield, rfl⟩ := List.mem_map.mp (hperm.mem_iff.mpr hname)
  obtain ⟨⟨first', found⟩, hentry, hsame, hR⟩ := exists_right_of_forall₂ h hfield
  cases hsame
  have hkeys : keys entries = fields.map Prod.fst := by
    clear hR hentry hfield hperm hname hsub hlength hnodup
    induction h with
    | nil => rfl
    | cons hfirst _ ih => rw [keys_cons, List.map_cons, ih, hfirst.1]
  refine ⟨type, found, lookup_of_mem_nodup hnodup hfield, ?_, hR⟩
  refine lookup_of_mem (sorted_ofList entries).keys_nodup ?_
  exact (ofList_perm (hkeys ▸ hnodup)).mem_iff.mpr hentry

end Keys

end SpecGate.StoredContents

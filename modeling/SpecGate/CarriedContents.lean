import SpecGate.StoredContents

/-!
Conversion carries contents over. The proof follows the value and, at each value, the way in
which its node binds the two types. Where keys repeat there is nothing to carry over, and the
conversion reports it.
-/
namespace SpecGate.CarriedContents

open RegistryModel StorageBindings BindingDepth BoundNodes BoundOperations StoredValues
open StoredContents SortedAssoc Checked
open Demands (Failure)
open SidecarValues (NativeValue)

/-! ### Positions -/

section Positions

variable {α β γ : Type}

theorem forall₂_of_zip {R : α → β → Prop} {left : List α} {right : List β}
    (hlength : left.length = right.length) (h : ∀ pair ∈ left.zip right, R pair.1 pair.2) :
    List.Forall₂ R left right :=
  List.forall₂_iff_zip.mpr ⟨hlength, fun hmem => h _ hmem⟩

theorem forall_zip {R : α → β → Prop} {left : List α} {right : List β}
    (h : List.Forall₂ R left right) : ∀ pair ∈ left.zip right, R pair.1 pair.2 :=
  fun _ hmem => (List.forall₂_iff_zip.mp h).2 hmem

/-- A loop over values with known contents, each of which is carried over. -/
theorem ends_carried {P : α → γ → Prop} {S : β → γ → Prop} {E : α → Prop}
    {step : α → Except Failure β} {values : List α} {contents : List γ}
    (h : List.Forall₂ P values contents)
    (hstep : ∀ value ∈ values, ∀ content, P value content →
      Ends (fun result => S result content) (E value) (step value)) :
    Ends (fun results => List.Forall₂ S results contents) (∃ value ∈ values, E value)
      (mapAll step values) := by
  induction h with
  | nil => exact List.Forall₂.nil
  | @cons value content rest contents hfirst _ ih =>
    have hrest := ih fun other hother => hstep other (List.mem_cons_of_mem _ hother)
    refine Ends.bind ((hstep value List.mem_cons_self content hfirst).imp (fun _ h => h)
      fun hE => ⟨value, List.mem_cons_self, hE⟩) fun result hresult => ?_
    refine Ends.bind (hrest.imp (fun _ h => h) ?_) fun results hresults =>
      List.Forall₂.cons hresult hresults
    rintro ⟨other, hother, hE⟩
    exact ⟨other, List.mem_cons_of_mem _ hother, hE⟩

end Positions

section Carried

variable {reference candidate : List Declarations} {nodes : List Node}

/-- What is carried over from one value to its conversion at a node. -/
abbrev Carries (reference : List Declarations) (nodes : List Node) (component : String)
    (expected : TypeRef) (native : NativeValue) (content : Content) (id : Nat) : Prop :=
  Ends (fun converted => Reads (typeMember reference) true component expected converted content)
    (Repeats native) (value nodes id native)

/-- The values inside are carried over at every node for their types. -/
def PartsCarried (reference candidate : List Declarations) (nodes : List Node)
    (native : NativeValue) : Prop :=
  ∀ part, sizeOf part < sizeOf native → ∀ component expected actual id content,
    Realises reference candidate nodes component expected actual id → Clear expected →
    Reads (typeMember candidate) false component actual part content →
    Carries reference nodes component expected part content id

/-- The same primitive is on both sides, and its values stay. -/
theorem realises_primitive {component name : String} {expected : TypeRef} {id : Nat}
    (h : Realises reference candidate nodes component expected (.primitive name) id) :
    expected = .primitive name := by
  obtain ⟨node, -, hshape⟩ := realises_closed reference candidate nodes _ _ _ _ h
  cases hshape
  rfl

theorem primitive_realises {component name : String} {actual : TypeRef} {id : Nat}
    (h : Realises reference candidate nodes component (.primitive name) actual id) :
    actual = .primitive name := by
  obtain ⟨node, -, hshape⟩ := realises_closed reference candidate nodes _ _ _ _ h
  cases hshape
  rfl

/-! ### Collections and tuples -/

theorem carries_all {native : NativeValue} {values : List NativeValue} {contents : List Content}
    (ih : PartsCarried reference candidate nodes native)
    (hsize : ∀ part ∈ values, sizeOf part < sizeOf native) {component : String}
    {expected actual : TypeRef} {id : Nat}
    (hid : Realises reference candidate nodes component expected actual id) (hclear : Clear expected)
    (h : List.Forall₂ (Reads (typeMember candidate) false component actual) values contents) :
    Ends (fun results => List.Forall₂ (Reads (typeMember reference) true component expected) results
        contents) (∃ part ∈ values, Repeats part) (allAt nodes id values) := by
  rw [allAt_eq]
  exact ends_carried h fun part hpart content hreads =>
    ih part (hsize part hpart) _ _ _ _ _ hid hclear hreads

theorem forall₂_tuple {component : String} {items others : List TypeRef} {ids : List Nat}
    (hbound : BoundAll (Realises reference candidate nodes) component items others ids)
    {values : List NativeValue} {contents : List Content} (hitems : others.length = values.length)
    (hlength : values.length = contents.length)
    (h : ∀ entry ∈ others.zip (values.zip contents),
      Reads (typeMember candidate) false component entry.1 entry.2.1 entry.2.2) :
    List.Forall₂ (fun (entry : Nat × NativeValue) (pair : TypeRef × Content) => pair.1 ∈ items ∧
      ∃ actual, Realises reference candidate nodes component pair.1 actual entry.1 ∧
        Reads (typeMember candidate) false component actual entry.2 pair.2)
      (ids.zip values) (items.zip contents) := by
  obtain ⟨hsame, hids⟩ := hbound
  induction values generalizing items others ids contents with
  | nil =>
    obtain rfl : others = [] := List.length_eq_zero_iff.mp hitems
    obtain rfl : items = [] := List.length_eq_zero_iff.mp hsame
    rw [List.zip_nil_right]
    exact .nil
  | cons native rest ih =>
    cases others with
    | nil => cases hitems
    | cons other others =>
      cases items with
      | nil => cases hsame
      | cons item items =>
        cases contents with
        | nil => cases hlength
        | cons content contents =>
          rw [List.zip_cons_cons] at hids
          cases hids with
          | @cons _ id _ ids hid hids =>
            refine .cons ⟨List.mem_cons_self, other, hid, h _ List.mem_cons_self⟩ ?_
            refine (ih (Nat.succ.inj hitems) (Nat.succ.inj hlength)
              (fun entry hentry => h entry (List.mem_cons_of_mem _ hentry))
              (Nat.succ.inj hsame) hids).imp ?_
            rintro entry pair ⟨hmem, hrest⟩
            exact ⟨List.mem_cons_of_mem _ hmem, hrest⟩

theorem reads_tuple {component : String} {items : List TypeRef} {results : List NativeValue}
    {contents : List Content} (hlength : items.length = contents.length)
    (h : List.Forall₂ (fun result (pair : TypeRef × Content) =>
      Reads (typeMember reference) true component pair.1 result pair.2) results (items.zip contents)) :
    Reads (typeMember reference) true component (.tuple items) (.list results) (.items contents) := by
  have hresults := h.length_eq
  rw [List.length_zip] at hresults
  refine .tuple (by omega) (by omega) ?_
  clear hresults
  induction items generalizing results contents with
  | nil => simp
  | cons item items ih =>
    cases contents with
    | nil => cases hlength
    | cons content contents =>
      cases h with
      | cons hfirst hrest =>
        rw [List.zip_cons_cons, List.zip_cons_cons, List.forall_mem_cons]
        exact ⟨hfirst, ih (Nat.succ.inj hlength) hrest⟩

/-! ### Pairs -/

/-- A key with its value, and what they contain. -/
def PairReads (types : String → String → Option TypeRef) (listed : Bool) (component : String)
    (keys values : TypeRef) (pair : NativeValue × NativeValue) (contents : Content × Content) : Prop :=
  Reads types listed component keys pair.1 contents.1 ∧
    Reads types listed component values pair.2 contents.2

/-- A stored pair is a list of a key and a value. -/
theorem reads_pair {component : String} {keys values : TypeRef} {entry : NativeValue}
    {content : Content}
    (h : Reads (typeMember candidate) false component (.tuple [keys, values]) entry content) :
    ∃ pair contents, entry = .list [pair.1, pair.2] ∧ content = pairContent contents ∧
      PairReads (typeMember candidate) false component keys values pair contents := by
  cases h with
  | @tuple _ _ entries contents hitems hlength h =>
    obtain ⟨key, native, rfl⟩ := List.length_eq_two.mp hitems.symm
    obtain ⟨first, second, rfl⟩ := List.length_eq_two.mp hlength.symm
    exact ⟨(key, native), (first, second), rfl, rfl, h (keys, key, first) (by simp),
      h (values, native, second) (by simp)⟩

theorem forM_checkPair {component : String} {keys values : TypeRef} {entries : List NativeValue}
    {contents : List Content}
    (h : List.Forall₂ (Reads (typeMember candidate) false component (.tuple [keys, values])) entries
      contents) : entries.forM checkPair = .ok () := by
  rw [forM_eq_ok]
  intro entry hentry
  obtain ⟨content, -, hreads⟩ := exists_right_of_forall₂ h hentry
  obtain ⟨pair, contents, rfl, -, -⟩ := reads_pair hreads
  rfl

theorem carries_pairs {native : NativeValue} {entries : List NativeValue} {contents : List Content}
    (ih : PartsCarried reference candidate nodes native)
    (hsize : ∀ part ∈ entries, sizeOf part < sizeOf native) {component : String}
    {keys values keys' values' : TypeRef} {key item : Nat}
    (hkey : Realises reference candidate nodes component keys keys' key)
    (hvalue : Realises reference candidate nodes component values values' item)
    (hkeys : Clear keys) (hvalues : Clear values)
    (h : List.Forall₂ (Reads (typeMember candidate) false component (.tuple [keys', values']))
      entries contents) :
    Ends (fun results => ∃ pairs, contents = pairs.map pairContent ∧
        List.Forall₂ (PairReads (typeMember reference) true component keys values) results pairs)
      (∃ entry ∈ entries, Repeats entry) (pairsAt nodes key item entries) := by
  rw [pairsAt_eq]
  refine (ends_carried (S := fun result content => ∃ pair, content = pairContent pair ∧
    PairReads (typeMember reference) true component keys values result pair) h
    fun entry hentry content hreads => ?_).imp (fun results hresults => ?_) fun hE => hE
  · obtain ⟨pair, contents, rfl, rfl, hfirst, hsecond⟩ := reads_pair hreads
    have hpair : pairOf (.list [pair.1, pair.2]) = some (pair.1, pair.2) := rfl
    obtain ⟨hlt, hlt'⟩ := sizeOf_lt_pair hpair
    have hentry := hsize _ hentry
    refine Ends.bind ((ih pair.1 (hlt.trans hentry) _ _ _ _ _ hkey hkeys hfirst).imp (fun _ h => h)
      fun hE => .ofList List.mem_cons_self hE) fun key hkey => ?_
    refine Ends.bind ((ih pair.2 (hlt'.trans hentry) _ _ _ _ _ hvalue hvalues hsecond).imp
      (fun _ h => h) fun hE => .ofList (List.mem_cons_of_mem _ List.mem_cons_self) hE)
      fun value hvalue => ?_
    exact ⟨contents, rfl, hkey, hvalue⟩
  · clear h hsize
    induction hresults with
    | nil => exact ⟨[], rfl, .nil⟩
    | cons hfirst _ ih =>
      obtain ⟨pair, rfl, hpair⟩ := hfirst
      obtain ⟨pairs, rfl, hpairs⟩ := ih
      exact ⟨pair :: pairs, rfl, .cons hpair hpairs⟩

theorem isCompact_iff {keys : TypeRef} : isCompact keys = true ↔ keys = .primitive "string" := by
  unfold isCompact
  exact decide_eq_true_iff

/-- Pairs whose keys are texts are the entries of an object. -/
theorem texts_of_pairs {component : String} {values : TypeRef}
    {results : List (NativeValue × NativeValue)} {pairs : List (Content × Content)}
    (h : List.Forall₂ (PairReads (typeMember reference) true component (.primitive "string") values)
      results pairs) :
    ∃ entries : List (String × NativeValue × Content),
      results = entries.map (fun entry => (NativeValue.string entry.1, entry.2.1)) ∧
      pairs = entries.map (fun entry => (Content.atom (.string entry.1), entry.2.2)) ∧
      ∀ entry ∈ entries, Reads (typeMember reference) true component values entry.2.1 entry.2.2 := by
  induction h with
  | nil => exact ⟨[], rfl, rfl, by simp⟩
  | @cons result pair results pairs hfirst _ ih =>
    obtain ⟨entries, rfl, rfl, hentries⟩ := ih
    obtain ⟨key, native⟩ := result
    obtain ⟨first, second⟩ := pair
    obtain ⟨hkey, hvalue⟩ := hfirst
    cases hkey with
    | primitive htext =>
      obtain ⟨text, rfl⟩ := htext rfl
      exact ⟨(text, native, second) :: entries, rfl, rfl, List.forall_mem_cons.mpr ⟨hvalue, hentries⟩⟩

/-- The texts that stored pairs have as keys. -/
theorem pairKeys {component : String} {values : TypeRef} {entries : List NativeValue}
    {texts : List (String × NativeValue × Content)}
    (h : List.Forall₂ (Reads (typeMember candidate) false component
        (.tuple [.primitive "string", values])) entries
      ((texts.map fun entry => (Content.atom (.string entry.1), entry.2.2)).map pairContent)) :
    entries.filterMap pairKey = texts.map Prod.fst := by
  induction texts generalizing entries with
  | nil =>
    cases h
    rfl
  | cons text texts ih =>
    cases h with
    | @cons entry _ rest _ hfirst hrest =>
      obtain ⟨⟨key, native⟩, ⟨first, second⟩, rfl, hcontent, hkey, -⟩ := reads_pair hfirst
      cases hcontent
      cases hkey
      rw [List.filterMap_cons_some (show pairKey _ = some text.1 from rfl), ih hrest, List.map_cons]

/-! ### Maps -/

theorem keys_map_snd {α β : Type} (change : α → β) (entries : List (String × α)) :
    keys (entries.map fun entry => (entry.1, change entry.2)) = keys entries := by
  unfold keys
  rw [List.map_map]
  rfl

theorem sorted_map_snd {α β : Type} {change : α → β} {entries : List (String × α)}
    (h : Sorted entries) : Sorted (entries.map fun entry => (entry.1, change entry.2)) := by
  rw [sorted_iff_keys, keys_map_snd]
  exact sorted_iff_keys.mp h

/-- The object of values under distinct texts has the content of their pairs, in any order. -/
theorem reads_object {component : String} {values : TypeRef}
    {texts : List (String × NativeValue × Content)} (hnodup : (keys texts).Nodup)
    (h : ∀ entry ∈ texts,
      Reads (typeMember reference) true component values entry.2.1 entry.2.2) :
    Reads (typeMember reference) true component (.map (.primitive "string") values false)
      (.map (ofList (texts.map fun entry => (entry.1, entry.2.1))))
      (.items ((texts.map fun entry => (Content.atom (.string entry.1), entry.2.2)).map
        pairContent)) := by
  have hperm := ofList_perm hnodup
  have hentries : ofList (texts.map fun entry => (entry.1, entry.2.1)) =
      (ofList texts).map fun entry => (entry.1, entry.2.1) := by
    refine ext_of_perm (sorted_ofList _) (sorted_map_snd (sorted_ofList texts)) ?_
    refine (ofList_perm ?_).trans (hperm.map _).symm
    rw [keys_map_snd (fun entry : NativeValue × Content => entry.1)]
    exact hnodup
  have hlength : ((ofList texts).map fun entry => (entry.1, entry.2.1)).length =
      ((ofList texts).map fun entry => entry.2.2).length := by rw [List.length_map, List.length_map]
  rw [hentries]
  refine .compact (sorted_map_snd (sorted_ofList texts)) hlength ?_ ?_
  · intro pair hpair
    rw [List.zip_map', List.mem_map] at hpair
    obtain ⟨entry, hentry, rfl⟩ := hpair
    exact h entry (hperm.mem_iff.mp hentry)
  · rw [keys_map_snd (fun entry : NativeValue × Content => entry.1), keys, List.zip_map',
      List.map_map, List.map_map]
    exact (hperm.map _).symm

/-- Pairs become the entries of a map: an object if the keys are texts without an order. -/
theorem reads_map {component : String} {keys values : TypeRef} {ordered : Bool}
    {entries : List NativeValue} {contents : List Content} {keys' values' : TypeRef}
    (hsame : ∀ name, keys = .primitive name → keys' = .primitive name)
    (hreads : List.Forall₂ (Reads (typeMember candidate) false component (.tuple [keys', values']))
      entries contents) {results : List (NativeValue × NativeValue)}
    {pairs : List (Content × Content)} (hcontents : contents = pairs.map pairContent)
    (h : List.Forall₂ (PairReads (typeMember reference) true component keys values) results pairs) :
    Ends (fun converted => Reads (typeMember reference) true component (.map keys values ordered)
        converted (.items contents)) (¬ (entries.filterMap pairKey).Nodup)
      (mapValue results (!ordered && isCompact keys)) := by
  subst hcontents
  cases hcompact : !ordered && isCompact keys with
  | false =>
    refine .pairs rfl hcompact h.length_eq (fun pair hpair => (forall_zip h pair hpair).1)
      (fun pair hpair => (forall_zip h pair hpair).2) ?_
    unfold Arranged
    split
    · rfl
    · exact .refl _
  | true =>
    obtain ⟨hordered, hkeys⟩ := Bool.and_eq_true_iff.mp hcompact
    obtain rfl : ordered = false := by simpa using hordered
    obtain rfl := isCompact_iff.mp hkeys
    obtain rfl := hsame _ rfl
    obtain ⟨texts, rfl, rfl, htexts⟩ := texts_of_pairs h
    have hresults : (texts.map fun entry => (NativeValue.string entry.1, entry.2.1)) =
        (texts.map fun entry => (entry.1, entry.2.1)).map fun entry =>
          (NativeValue.string entry.1, entry.2) := by
      rw [List.map_map]
      rfl
    rw [hresults, mapValue_texts, keys_map_snd (fun entry : NativeValue × Content => entry.1)]
    split
    · rename_i hnodup
      exact reads_object hnodup htexts
    · rename_i hnodup
      show ¬ (entries.filterMap pairKey).Nodup
      rw [pairKeys hreads]
      exact hnodup

/-! ### Named entries -/

theorem keys_entriesAt {node : String → Option Nat} {entries results : List (String × NativeValue)}
    (h : entriesAt nodes node entries = .ok results) : keys results = keys entries := by
  rw [entriesAt_eq, mapAll_eq_ok] at h
  induction h with
  | nil => rfl
  | @cons entry result _ _ hfirst _ ih =>
    rw [keys_cons, keys_cons, ih]
    congr 1
    unfold entryAt at hfirst
    split at hfirst
    · obtain ⟨converted, -, rfl⟩ := map_eq_ok.mp hfirst
      rfl
    · rw [Except.ok.inj hfirst]

/-- The entries of a map with their contents: those with a node are converted at it. -/
theorem carries_entries {node : String → Option Nat} {entries : List (String × NativeValue)}
    {contents : List Content} {S : String → NativeValue → Content → Prop}
    (hlength : entries.length = contents.length)
    (hsome : ∀ pair ∈ entries.zip contents, ∀ id, node pair.1.1 = some id →
      Ends (fun result => S pair.1.1 result pair.2) (Repeats pair.1.2) (value nodes id pair.1.2))
    (hnone : ∀ pair ∈ entries.zip contents, node pair.1.1 = none → S pair.1.1 pair.1.2 pair.2) :
    Ends (fun results => keys results = keys entries ∧ results.length = contents.length ∧
        ∀ pair ∈ results.zip contents, S pair.1.1 pair.1.2 pair.2)
      (∃ entry ∈ entries, Repeats entry.2) (entriesAt nodes node entries) := by
  have hpairs : List.Forall₂ (fun entry content => (entry, content) ∈ entries.zip contents) entries
      contents := forall₂_of_zip hlength fun _ hmem => hmem
  have hrun : Ends (fun results => List.Forall₂ (fun (result : String × NativeValue) content =>
      S result.1 result.2 content) results contents) (∃ entry ∈ entries, Repeats entry.2)
      (entriesAt nodes node entries) := by
    rw [entriesAt_eq]
    refine ends_carried hpairs fun entry _ content hmem => ?_
    unfold entryAt
    cases hnode : node entry.1 with
    | none => exact hnone _ hmem hnode
    | some id => exact (hsome _ hmem id hnode).map
  refine hrun.run.imp ?_ fun hE => hE
  rintro results ⟨hok, hresults⟩
  exact ⟨keys_entriesAt hok, hresults.length_eq, forall_zip hresults⟩

/-- A single entry is converted if there is a node for it. -/
theorem carries_single {node : String → Option Nat} {name : String} {native : NativeValue} {id : Nat}
    (hnode : node name = some id) {P : NativeValue → Prop} {E : Prop}
    (h : Ends P E (value nodes id native)) :
    Ends (fun results => ∃ result, results = [(name, result)] ∧ P result) E
      (entriesAt nodes node [(name, native)]) := by
  rw [entriesAt_eq, mapAll, entryAt, hnode]
  refine Ends.bind (Ends.map (P := fun result : String × NativeValue => result.1 = name ∧ P result.2)
    (h.imp (fun result hresult => ⟨rfl, hresult⟩) fun hE => hE)) ?_
  rintro ⟨name', result⟩ ⟨rfl, hresult⟩
  exact ⟨result, rfl, hresult⟩

theorem single_stays {node : String → Option Nat} {name : String} (native : NativeValue)
    (hnode : node name = none) :
    entriesAt nodes node [(name, native)] = .ok [(name, native)] := by
  rw [entriesAt_eq, mapAll, entryAt, hnode]
  rfl

theorem sizeOf_lt_single (name : String) (native : NativeValue) :
    sizeOf native < sizeOf (NativeValue.map [(name, native)]) :=
  sizeOf_lt_map (List.mem_cons_self (a := (name, native)))

theorem carries_record {native : NativeValue} (ih : PartsCarried reference candidate nodes native)
    {component : String} {fields others : List NamedValue} {entries : List (String × Nat)}
    (hlength : fields.length = others.length)
    (h : List.Forall₂ (fun (field : NamedValue) (entry : String × Nat) => entry.1 = field.1 ∧
      ∃ other, others.lookup field.1 = some other ∧
        Realises reference candidate nodes component field.2 other entry.2) fields entries)
    (hclear : Clear (.record fields)) {content : Content} {id : Nat}
    (hnode : nodes[id]? = some (.record (ofList entries)))
    (hreads : Reads (typeMember candidate) false component (.record others) native content) :
    Carries reference nodes component (.record fields) native content id := by
  have hnodup := hclear.fields fields Relation.ReflTransGen.refl
  have hsub : fields.map Prod.fst ⊆ others.map Prod.fst := by
    intro name hname
    obtain ⟨field, hfield, rfl⟩ := List.mem_map.mp hname
    obtain ⟨entry, -, -, other, hother, -⟩ := exists_right_of_forall₂ h hfield
    exact List.mem_map.mpr ⟨_, BindingDepth.mem_of_lookup hother, rfl⟩
  have hperm : (fields.map Prod.fst).Perm (others.map Prod.fst) :=
    (hnodup.subperm hsub).perm_of_length_le (by simp [hlength])
  cases hreads with
  | @record _ _ stored contents hnames hcontents hstored =>
    have hentry : ∀ pair ∈ stored.zip contents, ∃ type id, fields.lookup pair.1.1 = some type ∧
        lookup (ofList entries) pair.1.1 = some id ∧ ∃ other, others.lookup pair.1.1 = some other ∧
          Realises reference candidate nodes component type other id := by
      intro pair hpair
      refine exists_entry hnodup hlength h hsub (hnames.mem_iff.mp ?_)
      exact mem_keys_of_mem (List.of_mem_zip hpair).1
    unfold Carries
    rw [value.eq_def, hnode]
    refine Ends.map ((carries_entries (S := fun name result content => ∀ type,
      fields.lookup name = some type →
        Reads (typeMember reference) true component type result content) hcontents ?_ ?_).imp ?_ ?_)
    · intro pair hpair id hid
      obtain ⟨type, found, htype, hfound, other, hother, hR⟩ := hentry pair hpair
      rw [hfound] at hid
      cases hid
      have hpart := ih pair.1.2 (sizeOf_lt_map (List.of_mem_zip hpair).1) _ _ _ _ _ hR
        (hclear.part (.field (BindingDepth.mem_of_lookup htype))) (hstored pair hpair other hother)
      refine hpart.imp (fun result hresult type' htype' => ?_) fun hE => hE
      rw [htype] at htype'
      exact Option.some.inj htype' ▸ hresult
    · intro pair hpair hnone
      obtain ⟨type, found, -, hfound, -⟩ := hentry pair hpair
      rw [hfound] at hnone
      cases hnone
    · rintro results ⟨hkeys, hresults, hS⟩
      rw [← hkeys]
      exact .record (hkeys ▸ hnames.trans hperm.symm) hresults hS
    · rintro ⟨entry, hmem, hE⟩
      exact .ofMap hmem hE

theorem carries_tagged {native : NativeValue} (ih : PartsCarried reference candidate nodes native)
    {component : String} {variants others : List Variant} {entries : List (String × Option Nat)}
    (hlength : variants.length = others.length)
    (h : List.Forall₂ (fun (variant : Variant) (entry : String × Option Nat) =>
      entry.1 = variant.1 ∧ PayloadBound nodes (Realises reference candidate nodes) component
        variant.2 (others.lookup variant.1) entry.2) variants entries)
    (hclear : Clear (.taggedUnion variants)) {content : Content} {id : Nat}
    (hnode : nodes[id]? = some (.tagged (ofList entries)))
    (hreads : Reads (typeMember candidate) false component (.taggedUnion others) native content) :
    Carries reference nodes component (.taggedUnion variants) native content id := by
  have hnodup := hclear.variants variants Relation.ReflTransGen.refl
  have hsub : variants.map Prod.fst ⊆ others.map Prod.fst := by
    intro name hname
    obtain ⟨variant, hvariant, rfl⟩ := List.mem_map.mp hname
    obtain ⟨entry, -, -, hpayload⟩ := exists_right_of_forall₂ h hvariant
    obtain ⟨other, hother⟩ := hpayload.declared
    exact List.mem_map.mpr ⟨_, BindingDepth.mem_of_lookup hother, rfl⟩
  unfold Carries
  cases hreads with
  | @unit _ name native _ hvariant =>
    obtain ⟨payload, found, hpayload, hfound, hbound⟩ := exists_entry hnodup hlength h hsub
      (List.mem_map.mpr ⟨_, BindingDepth.mem_of_lookup hvariant, rfl⟩)
    rw [hvariant] at hbound
    cases hbound
    rw [value.eq_def, hnode]
    dsimp only
    rw [single_stays native (Option.join_eq_none_iff.mpr (.inr hfound))]
    exact .unit hpayload
  | @payload _ name type native content _ hvariant hreads =>
    obtain ⟨payload, found, hpayload, hfound, hbound⟩ := exists_entry hnodup hlength h hsub
      (List.mem_map.mpr ⟨_, BindingDepth.mem_of_lookup hvariant, rfl⟩)
    rw [hvariant] at hbound
    have hid : ∃ id, found = some id := by cases hbound <;> exact ⟨_, rfl⟩
    obtain ⟨id, rfl⟩ := hid
    obtain ⟨expected, actual, rfl, hsame, hR⟩ := realises_payload hbound
    cases hsame
    have hpart := ih native (sizeOf_lt_single name native) _ _ _ _ _ hR
      (hclear.part (.payload (BindingDepth.mem_of_lookup hpayload))) hreads
    rw [value.eq_def, hnode]
    refine Ends.map ((carries_single (Option.join_eq_some_iff.mpr hfound) hpart).imp ?_ fun hE =>
      .ofMap List.mem_cons_self hE)
    rintro results ⟨result, rfl, hresult⟩
    exact .payload hpayload hresult

theorem carries_pairMap {native : NativeValue} (ih : PartsCarried reference candidate nodes native)
    {component : String} {keys values : TypeRef} {ordered : Bool} {keys' values' : TypeRef}
    {key item : Nat} (hkey : Realises reference candidate nodes component keys keys' key)
    (hvalue : Realises reference candidate nodes component values values' item)
    (hclear : Clear (.map keys values ordered)) {content : Content} {id : Nat}
    (hnode : nodes[id]? = some (.map key item true (!ordered && isCompact keys)))
    (hreads : Reads (typeMember candidate) false component
      (.collection (.tuple [keys', values']) true false) native content) :
    Carries reference nodes component (.map keys values ordered) native content id := by
  have hsame : ∀ name, keys = .primitive name → keys' = .primitive name := by
    rintro name rfl
    exact primitive_realises hkey
  have hrun : ∀ {entries : List NativeValue} {contents : List Content},
      (∀ part ∈ entries, sizeOf part < sizeOf native) →
      List.Forall₂ (Reads (typeMember candidate) false component (.tuple [keys', values'])) entries
        contents →
      Ends (fun converted => Reads (typeMember reference) true component (.map keys values ordered)
          converted (.items contents))
        (¬ (entries.filterMap pairKey).Nodup ∨ ∃ entry ∈ entries, Repeats entry) (do
          entries.forM checkPair
          let converted ← pairsAt nodes key item entries
          mapValue converted (!ordered && isCompact keys)) := by
    intro entries contents hsize h
    rw [forM_checkPair h]
    show Ends _ _ (pairsAt nodes key item entries >>= fun converted =>
      mapValue converted (!ordered && isCompact keys))
    refine Ends.bind ((carries_pairs ih hsize hkey hvalue (hclear.part (.keys ..))
      (hclear.part (.values ..)) h).imp (fun _ h => h) Or.inr) ?_
    rintro results ⟨pairs, hcontents, hpairs⟩
    exact (reads_map hsame h hcontents hpairs).imp (fun _ h => h) Or.inl
  unfold Carries
  rw [value.eq_def, hnode]
  cases hreads with
  | list hlength h =>
    refine (hrun (fun part => sizeOf_lt_list) (forall₂_of_zip hlength h)).imp (fun _ h => h) ?_
    rintro (hE | ⟨entry, hentry, hE⟩)
    · exact .list hE
    · exact .ofList hentry hE
  | set hlength h =>
    refine (hrun (fun part => sizeOf_lt_set) (forall₂_of_zip hlength h)).imp (fun _ h => h) ?_
    rintro (hE | ⟨entry, hentry, hE⟩)
    · exact .set hE
    · exact .ofSet hentry hE

/-- A map of the candidate has text keys, and stays an object. -/
theorem carries_map {native : NativeValue} (ih : PartsCarried reference candidate nodes native)
    {component : String} {keys values keys' values' : TypeRef} {key item : Nat}
    (hkey : Realises reference candidate nodes component keys keys' key)
    (hvalue : Realises reference candidate nodes component values values' item)
    (hclear : Clear (.map keys values false)) {content : Content} {id : Nat}
    (hnode : nodes[id]? = some (.map key item false (isCompact keys)))
    (hreads : Reads (typeMember candidate) false component (.map keys' values' false) native
      content) :
    Carries reference nodes component (.map keys values false) native content id := by
  unfold Carries
  rw [value.eq_def, hnode]
  cases hreads with
  | pairs hlisted => cases hlisted
  | @compact _ _ entries contents pairs hsorted hlength h hpairs =>
    obtain rfl := realises_primitive hkey
    refine Ends.bind ((carries_entries (S := fun _ result content =>
      Reads (typeMember reference) true component values result content) hlength ?_ ?_).imp
      (fun _ h => h) ?_) ?_
    · intro pair hpair id hid
      cases hid
      exact ih pair.1.2 (sizeOf_lt_map (List.of_mem_zip hpair).1) _ _ _ _ _ hvalue
        (hclear.part (.values ..)) (h pair hpair)
    · intro pair hpair hnone
      cases hnone
    · rintro ⟨entry, hentry, hE⟩
      exact .ofMap hentry hE
    · rintro results ⟨hkeys, hresults, hreads⟩
      have hsorted' : Sorted results := by
        rw [sorted_iff_keys, hkeys]
        exact sorted_iff_keys.mp hsorted
      rw [isCompact_iff.mpr rfl, mapValue_texts, if_pos hsorted'.keys_nodup,
        ofList_of_sorted hsorted']
      exact .compact hsorted' hresults hreads (hkeys ▸ hpairs)

/-- One value: the way in which its node binds the types says how its parts are carried over. -/
theorem shape_carries {native : NativeValue} (ih : PartsCarried reference candidate nodes native)
    (hdeclared : ∀ component name type, typeMember reference component name = some type → Clear type)
    {component : String} {expected actual : TypeRef} {node : Node} {id : Nat}
    (hnode : nodes[id]? = some node)
    (hshape : Shape reference candidate nodes (Realises reference candidate nodes) component expected
      actual node) (hclear : Clear expected) {content : Content}
    (hreads : Reads (typeMember candidate) false component actual native content) :
    Carries reference nodes component expected native content id := by
  induction hshape generalizing content with
  | primitive =>
    unfold Carries
    rw [value.eq_def, hnode]
    cases hreads with
    | primitive htext => exact .primitive htext
  | named hexpected hactual hleft hright _ hnamed =>
    subst hexpected
    cases hreads with
    | named htype hreads =>
      rw [hactual, hright] at htype
      cases htype
      rw [hactual] at hreads
      exact (hnamed hnode (hdeclared _ _ _ hleft) hreads).imp (fun _ h => .named hleft h) fun h => h
  | inline hactual hmember _ hinline =>
    cases hreads with
    | named htype hreads =>
      rw [hactual, hmember] at htype
      cases htype
      rw [hactual] at hreads
      exact hinline hnode hclear hreads
  | sequence hid =>
    unfold Carries
    rw [value.eq_def, hnode]
    cases hreads with
    | list hlength h =>
      refine Ends.map ((carries_all ih (fun part => sizeOf_lt_list) hid (hclear.part (.items ..))
        (forall₂_of_zip hlength h)).imp (fun results hresults => ?_) ?_)
      · exact .list hresults.length_eq (forall_zip hresults)
      · rintro ⟨part, hpart, hE⟩
        exact .ofList hpart hE
    | set hlength h =>
      refine Ends.map ((carries_all ih (fun part => sizeOf_lt_set) hid (hclear.part (.items ..))
        (forall₂_of_zip hlength h)).imp (fun results hresults => ?_) ?_)
      · exact .list hresults.length_eq (forall_zip hresults)
      · rintro ⟨part, hpart, hE⟩
        exact .ofSet hpart hE
  | optional hid =>
    unfold Carries
    rw [value.eq_def, hnode]
    cases hreads with
    | @absent _ _ native =>
      dsimp only
      rw [single_stays native (if_neg (by decide))]
      exact .absent
    | @present _ _ native content hreads =>
      have hpart := ih native (sizeOf_lt_single "Some" native) _ _ _ _ _ hid
        (hclear.part (.value _)) hreads
      refine Ends.map ((carries_single (if_pos rfl) hpart).imp ?_ fun hE =>
        .ofMap List.mem_cons_self hE)
      rintro results ⟨result, rfl, hresult⟩
      exact .present hresult
  | map hkey hvalue => exact carries_map ih hkey hvalue hclear hnode hreads
  | pairs hkey hvalue => exact carries_pairMap ih hkey hvalue hclear hnode hreads
  | @tuple component items others ids hbound =>
    unfold Carries
    rw [value.eq_def, hnode]
    cases hreads with
    | @tuple _ _ values contents hitems hlength h =>
      have hids := hbound.2.length_eq
      have hitems' := hbound.1
      rw [List.length_zip] at hids
      dsimp only
      rw [if_pos (by omega), eachAt_eq]
      refine Ends.map ((ends_carried (S := fun result (pair : TypeRef × Content) =>
        Reads (typeMember reference) true component pair.1 result pair.2)
        (E := fun entry => Repeats entry.2) (forall₂_tuple hbound hitems hlength h) ?_).imp (fun results hresults => ?_) ?_)
      · rintro ⟨id, native⟩ hentry ⟨item, content⟩ ⟨hitem, actual, hid, hreads⟩
        exact ih native (sizeOf_lt_list (List.of_mem_zip hentry).2) _ _ _ _ _ hid
          (hclear.part (.item hitem)) hreads
      · exact reads_tuple (by omega) hresults
      · rintro ⟨⟨id, native⟩, hentry, hE⟩
        exact .ofList (List.of_mem_zip hentry).2 hE
  | record hlength h => exact carries_record ih hlength h hclear hnode hreads
  | tagged hlength h => exact carries_tagged ih hlength h hclear hnode hreads

/-- A value is converted to one with its content, unless keys repeat in it. -/
theorem value_carries
    (hdeclared : ∀ component name type, typeMember reference component name = some type → Clear type)
    (native : NativeValue) {component : String} {expected actual : TypeRef} {id : Nat}
    (hid : Realises reference candidate nodes component expected actual id)
    (hclear : Clear expected) {content : Content}
    (hreads : Reads (typeMember candidate) false component actual native content) :
    Carries reference nodes component expected native content id := by
  have hsize : ∀ n native, sizeOf native < n → ∀ component expected actual id content,
      Realises reference candidate nodes component expected actual id → Clear expected →
      Reads (typeMember candidate) false component actual native content →
      Carries reference nodes component expected native content id := by
    intro n
    induction n with
    | zero => intro native hlt; omega
    | succ n ih =>
      intro native hlt component expected actual id content hid hclear hreads
      obtain ⟨node, hnode, hshape⟩ := realises_closed reference candidate nodes _ _ _ _ hid
      exact shape_carries (fun part hpart => ih part (by omega)) hdeclared hnode hshape hclear hreads
  exact hsize _ native (Nat.lt_succ_self _) _ _ _ _ _ hid hclear hreads

end Carried

end SpecGate.CarriedContents

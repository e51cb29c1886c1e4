import Mathlib

/-!
Finite maps and sets kept as association lists in strictly increasing key order.
Keys carry a lawful total order through `compare`; nothing else is assumed of
them. A list in order is determined by its lookups, and building a map from
entries with distinct keys loses no entry and forgets only their order.
-/
namespace SpecGate.SortedAssoc

set_option linter.unusedSectionVars false

/-- Two texts together are compared as each is. -/
instance lawfulBEqTexts : LawfulBEq (String × String) := inferInstance

variable {κ α β : Type*} [Ord κ]

/-- Keys increase strictly along the list. -/
def Sorted (entries : List (κ × α)) : Prop :=
  entries.Pairwise fun a b => compare a.1 b.1 = .lt

def keys (entries : List (κ × α)) : List κ := entries.map Prod.fst

def lookup (entries : List (κ × α)) (key : κ) : Option α :=
  match entries with
  | [] => none
  | (k, value) :: rest => if compare k key = .eq then some value else lookup rest key

def contains (entries : List (κ × α)) (key : κ) : Bool := (lookup entries key).isSome

/-- Insertion at the ordered position; an equal key has its value replaced. -/
def insert (key : κ) (value : α) : List (κ × α) → List (κ × α)
  | [] => [(key, value)]
  | (k, v) :: rest =>
      match compare key k with
      | .lt => (key, value) :: (k, v) :: rest
      | .eq => (key, value) :: rest
      | .gt => (k, v) :: insert key value rest

def ofList (entries : List (κ × α)) : List (κ × α) :=
  entries.foldl (fun map entry => insert entry.1 entry.2 map) []

instance [DecidableEq Ordering] (entries : List (κ × α)) : Decidable (Sorted entries) :=
  inferInstanceAs (Decidable (List.Pairwise _ entries))

@[simp] theorem lookup_nil (key : κ) : lookup ([] : List (κ × α)) key = none := rfl

@[simp] theorem keys_nil : keys ([] : List (κ × α)) = [] := rfl

@[simp] theorem keys_cons (entry : κ × α) (rest : List (κ × α)) :
    keys (entry :: rest) = entry.1 :: keys rest := rfl

@[simp] theorem sorted_nil : Sorted ([] : List (κ × α)) := List.Pairwise.nil

theorem sorted_cons {entry : κ × α} {rest : List (κ × α)} :
    Sorted (entry :: rest) ↔ (∀ e ∈ rest, compare entry.1 e.1 = .lt) ∧ Sorted rest :=
  List.pairwise_cons

theorem sorted_iff_keys {entries : List (κ × α)} :
    Sorted entries ↔ (keys entries).Pairwise fun a b => compare a b = .lt := by
  rw [keys, List.pairwise_map, Sorted]

theorem mem_insert_cases {key : κ} {value : α} {entries : List (κ × α)} {e : κ × α}
    (he : e ∈ insert key value entries) : e = (key, value) ∨ e ∈ entries := by
  induction entries with
  | nil => simpa [insert] using he
  | cons head rest ih =>
    obtain ⟨k, v⟩ := head
    rw [insert] at he
    split at he
    · rcases List.mem_cons.mp he with rfl | hrest
      · exact .inl rfl
      · exact .inr hrest
    · rcases List.mem_cons.mp he with rfl | hrest
      · exact .inl rfl
      · exact .inr (List.mem_cons_of_mem _ hrest)
    · rcases List.mem_cons.mp he with rfl | hrest
      · exact .inr List.mem_cons_self
      · rcases ih hrest with rfl | htail
        · exact .inl rfl
        · exact .inr (List.mem_cons_of_mem _ htail)

section Oriented

variable [Std.LawfulEqOrd κ]

@[simp] theorem lookup_cons_self (key : κ) (value : α) (rest : List (κ × α)) :
    lookup ((key, value) :: rest) key = some value := by
  simp [lookup]

theorem lookup_cons_of_ne {k key : κ} (hne : k ≠ key) (value : α) (rest : List (κ × α)) :
    lookup ((k, value) :: rest) key = lookup rest key := by
  have hcmp : compare k key ≠ .eq := fun h => hne (Std.LawfulEqOrd.eq_of_compare h)
  simp [lookup, hcmp]

theorem mem_of_lookup {entries : List (κ × α)} {key : κ} {value : α}
    (h : lookup entries key = some value) : (key, value) ∈ entries := by
  induction entries with
  | nil => simp at h
  | cons head rest ih =>
    obtain ⟨k, v⟩ := head
    by_cases hk : k = key
    · subst hk
      rw [lookup_cons_self] at h
      obtain rfl := Option.some.inj h
      exact List.mem_cons_self
    · rw [lookup_cons_of_ne hk] at h
      exact List.mem_cons_of_mem _ (ih h)

theorem lookup_eq_none_iff {entries : List (κ × α)} {key : κ} :
    lookup entries key = none ↔ key ∉ keys entries := by
  induction entries with
  | nil => simp
  | cons head rest ih =>
    obtain ⟨k, v⟩ := head
    by_cases hk : k = key
    · subst hk
      simp
    · rw [lookup_cons_of_ne hk, ih]
      simp [Ne.symm hk]

theorem contains_iff {entries : List (κ × α)} {key : κ} :
    contains entries key = true ↔ key ∈ keys entries := by
  rw [contains, Option.isSome_iff_ne_none, ne_eq, lookup_eq_none_iff, not_not]

theorem exists_lookup_iff {entries : List (κ × α)} {key : κ} :
    (∃ value, lookup entries key = some value) ↔ key ∈ keys entries := by
  rw [← contains_iff, contains, Option.isSome_iff_exists]

theorem mem_keys_of_mem {entries : List (κ × α)} {e : κ × α} (he : e ∈ entries) :
    e.1 ∈ keys entries := List.mem_map_of_mem he

theorem lookup_map_value (entries : List (κ × α)) (f : κ → α → β) (key : κ) :
    lookup (entries.map fun e => (e.1, f e.1 e.2)) key = (lookup entries key).map (f key) := by
  induction entries with
  | nil => rfl
  | cons head rest ih =>
    obtain ⟨k, v⟩ := head
    rw [List.map_cons]
    by_cases hk : k = key
    · subst hk
      simp
    · rw [lookup_cons_of_ne hk, lookup_cons_of_ne hk, ih]

theorem lookup_filter (entries : List (κ × α)) (p : κ → Bool) (key : κ) :
    lookup (entries.filter fun e => p e.1) key = if p key then lookup entries key else none := by
  induction entries with
  | nil => simp
  | cons head rest ih =>
    obtain ⟨k, v⟩ := head
    rw [List.filter_cons]
    by_cases hk : k = key
    · subst hk
      by_cases hp : p k = true
      · simp [hp]
      · simp [hp, ih]
    · by_cases hp : p k = true
      · rw [if_pos hp, lookup_cons_of_ne hk, lookup_cons_of_ne hk, ih]
      · rw [if_neg hp, lookup_cons_of_ne hk, ih]

end Oriented

variable [Std.TransOrd κ] [Std.LawfulEqOrd κ]

theorem Sorted.keys_nodup {entries : List (κ × α)} (h : Sorted entries) :
    (keys entries).Nodup := by
  rw [keys, List.nodup_iff_pairwise_ne, List.pairwise_map]
  refine h.imp fun {a b} hlt heq => ?_
  rw [heq, Std.ReflOrd.compare_self] at hlt
  cases hlt

theorem lookup_of_mem {entries : List (κ × α)} (hnodup : (keys entries).Nodup)
    {key : κ} {value : α} (hmem : (key, value) ∈ entries) :
    lookup entries key = some value := by
  induction entries with
  | nil => simp at hmem
  | cons head rest ih =>
    obtain ⟨k, v⟩ := head
    rw [keys_cons, List.nodup_cons] at hnodup
    rcases List.mem_cons.mp hmem with heq | hrest
    · obtain ⟨rfl, rfl⟩ := Prod.mk.inj heq
      exact lookup_cons_self key value rest
    · have hk : k ≠ key := by
        intro heq
        exact hnodup.1 (List.mem_map.mpr ⟨_, hrest, heq.symm⟩)
      rw [lookup_cons_of_ne hk]
      exact ih hnodup.2 hrest

theorem lookup_iff_mem {entries : List (κ × α)} (hnodup : (keys entries).Nodup)
    {key : κ} {value : α} : lookup entries key = some value ↔ (key, value) ∈ entries :=
  ⟨mem_of_lookup, lookup_of_mem hnodup⟩

theorem sorted_insert (key : κ) (value : α) {entries : List (κ × α)} (h : Sorted entries) :
    Sorted (insert key value entries) := by
  induction entries with
  | nil => simp [insert, Sorted]
  | cons head rest ih =>
    obtain ⟨k, v⟩ := head
    obtain ⟨hhead, hrest⟩ := sorted_cons.mp h
    rw [insert]
    split
    · rename_i hlt
      refine sorted_cons.mpr ⟨fun e he => ?_, h⟩
      rcases List.mem_cons.mp he with rfl | htail
      · exact hlt
      · exact Std.TransCmp.lt_trans hlt (hhead e htail)
    · rename_i heq
      obtain rfl := Std.LawfulEqOrd.eq_of_compare heq
      exact sorted_cons.mpr ⟨hhead, hrest⟩
    · rename_i hgt
      refine sorted_cons.mpr ⟨fun e he => ?_, ih hrest⟩
      rcases mem_insert_cases he with rfl | htail
      · exact Std.OrientedCmp.lt_of_gt hgt
      · exact hhead e htail

theorem lookup_insert_self (key : κ) (value : α) (entries : List (κ × α)) :
    lookup (insert key value entries) key = some value := by
  induction entries with
  | nil => simp [insert]
  | cons head rest ih =>
    obtain ⟨k, v⟩ := head
    rw [insert]
    split
    · simp
    · simp
    · rename_i hgt
      have hk : k ≠ key := by
        rintro rfl
        rw [Std.ReflOrd.compare_self] at hgt
        cases hgt
      rw [lookup_cons_of_ne hk, ih]

theorem lookup_insert_of_ne {key other : κ} (hne : key ≠ other) (value : α)
    (entries : List (κ × α)) :
    lookup (insert key value entries) other = lookup entries other := by
  induction entries with
  | nil => simp [insert, lookup_cons_of_ne hne]
  | cons head rest ih =>
    obtain ⟨k, v⟩ := head
    rw [insert]
    split
    · rw [lookup_cons_of_ne hne]
    · rename_i heq
      obtain rfl := Std.LawfulEqOrd.eq_of_compare heq
      rw [lookup_cons_of_ne hne, lookup_cons_of_ne hne]
    · by_cases hk : k = other
      · subst hk
        simp
      · rw [lookup_cons_of_ne hk, lookup_cons_of_ne hk, ih]

theorem mem_keys_insert {key other : κ} {value : α} {entries : List (κ × α)} :
    other ∈ keys (insert key value entries) ↔ other = key ∨ other ∈ keys entries := by
  rw [← exists_lookup_iff, ← exists_lookup_iff]
  by_cases h : key = other
  · subst h
    simp [lookup_insert_self]
  · rw [lookup_insert_of_ne h]
    simp [Ne.symm h]

/-- A key that is absent is placed beside the existing entries. -/
theorem insert_perm_of_not_mem {key : κ} {entries : List (κ × α)} (value : α)
    (hkey : key ∉ keys entries) : (insert key value entries).Perm ((key, value) :: entries) := by
  induction entries with
  | nil => simp [insert]
  | cons head rest ih =>
    obtain ⟨k, v⟩ := head
    rw [keys_cons, List.mem_cons, not_or] at hkey
    rw [insert]
    split
    · exact List.Perm.refl _
    · rename_i heq
      exact absurd (Std.LawfulEqOrd.eq_of_compare heq) hkey.1
    · exact ((ih hkey.2).cons (k, v)).trans (List.Perm.swap _ _ _)

theorem length_insert_of_not_mem {key : κ} {entries : List (κ × α)} (value : α)
    (hkey : key ∉ keys entries) : (insert key value entries).length = entries.length + 1 :=
  (insert_perm_of_not_mem value hkey).length_eq

theorem ext_of_perm {left right : List (κ × α)} (hleft : Sorted left) (hright : Sorted right)
    (hperm : left.Perm right) : left = right := by
  refine List.Perm.eq_of_pairwise (fun a b _ _ hab hba => ?_) hleft hright hperm
  exact absurd hba (Std.OrientedCmp.not_lt_of_lt hab)

/-- Two ordered lists with the same lookups are the same list. -/
theorem ext_of_lookup {left right : List (κ × α)} (hleft : Sorted left) (hright : Sorted right)
    (h : ∀ key, lookup left key = lookup right key) : left = right := by
  refine ext_of_perm hleft hright ?_
  refine (List.perm_ext_iff_of_nodup hleft.keys_nodup.of_map hright.keys_nodup.of_map).mpr ?_
  rintro ⟨key, value⟩
  rw [← lookup_iff_mem hleft.keys_nodup, ← lookup_iff_mem hright.keys_nodup, h]

/-- Parts of two ordered lists agree exactly when the lookups at their keys do. -/
theorem filter_eq_iff {left right : List (κ × α)} (hleft : Sorted left) (hright : Sorted right)
    (p : κ → Bool) : (left.filter fun e => p e.1) = (right.filter fun e => p e.1) ↔
      ∀ key, p key = true → lookup left key = lookup right key := by
  constructor
  · intro h key hkey
    have hlookup := congrArg (lookup · key) h
    simpa only [lookup_filter, hkey, if_true] using hlookup
  · intro h
    refine ext_of_lookup (hleft.filter _) (hright.filter _) fun key => ?_
    rw [lookup_filter, lookup_filter]
    by_cases hkey : p key = true
    · rw [if_pos hkey, if_pos hkey, h key hkey]
    · rw [if_neg hkey, if_neg hkey]

theorem sorted_ofList (entries : List (κ × α)) : Sorted (ofList entries) := by
  rw [ofList]
  suffices hfold : ∀ (rest : List (κ × α)) (map : List (κ × α)), Sorted map →
      Sorted (rest.foldl (fun map entry => insert entry.1 entry.2 map) map) from
    hfold entries [] sorted_nil
  intro rest
  induction rest with
  | nil => exact fun map hmap => hmap
  | cons entry rest ih => exact fun map hmap => ih _ (sorted_insert _ _ hmap)

theorem mem_of_mem_ofList {entries : List (κ × α)} {e : κ × α} (he : e ∈ ofList entries) :
    e ∈ entries := by
  suffices hfold : ∀ (rest map : List (κ × α)),
      e ∈ rest.foldl (fun map entry => insert entry.1 entry.2 map) map → e ∈ map ∨ e ∈ rest by
    simpa using hfold entries [] he
  intro rest
  induction rest with
  | nil => exact fun map hmem => .inl hmem
  | cons entry rest ih =>
    intro map hmem
    rcases ih _ hmem with hinsert | hrest
    · rcases mem_insert_cases hinsert with rfl | hmap
      · exact .inr List.mem_cons_self
      · exact .inl hmap
    · exact .inr (List.mem_cons_of_mem _ hrest)

theorem ofList_append_singleton (entries : List (κ × α)) (entry : κ × α) :
    ofList (entries ++ [entry]) = insert entry.1 entry.2 (ofList entries) := by
  simp [ofList]

theorem mem_keys_ofList {entries : List (κ × α)} {key : κ} :
    key ∈ keys (ofList entries) ↔ key ∈ keys entries := by
  induction entries using List.reverseRecOn with
  | nil => rfl
  | append_singleton rest entry ih =>
    rw [ofList_append_singleton, mem_keys_insert, ih]
    simp only [keys, List.map_append, List.map_cons, List.map_nil, List.mem_append,
      List.mem_singleton]
    exact or_comm

/-- Distinct keys: collecting keeps every entry. -/
theorem ofList_perm {entries : List (κ × α)} (hnodup : (keys entries).Nodup) :
    (ofList entries).Perm entries := by
  induction entries using List.reverseRecOn with
  | nil => exact List.Perm.refl _
  | append_singleton rest entry ih =>
    rw [keys, List.map_append, List.nodup_append] at hnodup
    obtain ⟨hrest, -, hdisj⟩ := hnodup
    have hkey : entry.1 ∉ keys (ofList rest) := fun hmem =>
      hdisj _ (mem_keys_ofList.mp hmem) entry.1 (by simp) rfl
    rw [ofList_append_singleton]
    refine (insert_perm_of_not_mem _ hkey).trans ?_
    exact ((ih hrest).cons _).trans (List.perm_append_singleton _ _).symm

theorem forall_ofList_iff {entries : List (κ × α)} (hnodup : (keys entries).Nodup)
    {P : κ × α → Prop} : (∀ e ∈ ofList entries, P e) ↔ ∀ e ∈ entries, P e :=
  forall_congr' fun _ => by rw [(ofList_perm hnodup).mem_iff]

theorem ofList_eq_iff_perm {left right : List (κ × α)} (hleft : (keys left).Nodup)
    (hright : (keys right).Nodup) : ofList left = ofList right ↔ left.Perm right := by
  constructor
  · intro h
    exact (ofList_perm hleft).symm.trans (h ▸ ofList_perm hright)
  · intro h
    refine ext_of_perm (sorted_ofList _) (sorted_ofList _) ?_
    exact (ofList_perm hleft).trans (h.trans (ofList_perm hright).symm)

/-- Permuted entries with the same keys in the same order are equal. -/
theorem eq_of_perm_of_keys {left right : List (κ × α)} (hnodup : (keys left).Nodup)
    (hkeys : keys left = keys right) (hperm : left.Perm right) : left = right := by
  induction left generalizing right with
  | nil => exact (List.nil_perm.mp hperm).symm
  | cons head left ih =>
    obtain ⟨key, value⟩ := head
    cases right with
    | nil => cases hkeys
    | cons other right =>
      obtain ⟨otherKey, otherValue⟩ := other
      obtain ⟨hkey, hrest⟩ := List.cons.inj hkeys
      obtain rfl : key = otherKey := hkey
      have hfresh : key ∉ left.map Prod.fst := (List.nodup_cons.mp hnodup).1
      rw [hrest] at hfresh
      rcases List.mem_cons.mp (hperm.mem_iff.mp List.mem_cons_self) with hhead | htail
      · obtain rfl := (Prod.mk.inj hhead).2
        rw [ih (List.nodup_cons.mp hnodup).2 hrest hperm.cons_inv]
      · exact absurd (mem_keys_of_mem htail) hfresh

theorem ofList_of_sorted {entries : List (κ × α)} (h : Sorted entries) :
    ofList entries = entries :=
  ext_of_perm (sorted_ofList _) h (ofList_perm h.keys_nodup)

theorem length_insert_le (key : κ) (value : α) (entries : List (κ × α)) :
    (insert key value entries).length ≤ entries.length + 1 := by
  induction entries with
  | nil => simp [insert]
  | cons head rest ih =>
    rw [insert]
    split <;> simp only [List.length_cons] <;> omega

theorem length_ofList_le (entries : List (κ × α)) : (ofList entries).length ≤ entries.length := by
  induction entries using List.reverseRecOn with
  | nil => exact le_refl _
  | append_singleton rest entry ih =>
    rw [ofList_append_singleton]
    have hinsert := length_insert_le entry.1 entry.2 (ofList rest)
    simp only [List.length_append, List.length_singleton]
    omega

theorem length_insert_of_mem {key : κ} {value : α} {entries : List (κ × α)}
    (hsorted : Sorted entries) (hkey : key ∈ keys entries) :
    (insert key value entries).length = entries.length := by
  induction entries with
  | nil => simp at hkey
  | cons head rest ih =>
    obtain ⟨k, v⟩ := head
    obtain ⟨hhead, hrest⟩ := sorted_cons.mp hsorted
    rw [insert]
    split
    · rename_i hlt
      exfalso
      rcases List.mem_cons.mp hkey with rfl | htail
      · rw [Std.ReflOrd.compare_self] at hlt
        cases hlt
      · obtain ⟨e, he, rfl⟩ := List.mem_map.mp htail
        exact Std.OrientedCmp.not_lt_of_lt hlt (hhead e he)
    · rfl
    · rename_i hgt
      rcases List.mem_cons.mp hkey with rfl | htail
      · rw [Std.ReflOrd.compare_self] at hgt
        cases hgt
      · simp only [List.length_cons, ih hrest htail]

/-- Collecting keeps the number of entries exactly when the keys are distinct. -/
theorem length_ofList_eq_iff {entries : List (κ × α)} :
    (ofList entries).length = entries.length ↔ (keys entries).Nodup := by
  refine ⟨fun h => ?_, fun h => (ofList_perm h).length_eq⟩
  induction entries using List.reverseRecOn with
  | nil => exact List.nodup_nil
  | append_singleton rest entry ih =>
    rw [ofList_append_singleton, List.length_append, List.length_singleton] at h
    have hle := length_ofList_le rest
    have hinsert := length_insert_le entry.1 entry.2 (ofList rest)
    have hkey : entry.1 ∉ keys (ofList rest) := by
      intro hmem
      rw [length_insert_of_mem (sorted_ofList rest) hmem] at h
      omega
    rw [keys, List.map_append, List.nodup_append]
    refine ⟨ih (by omega), by simp, ?_⟩
    rintro key hmem other hother rfl
    simp only [List.map_cons, List.map_nil, List.mem_singleton] at hother
    exact hkey (hother ▸ mem_keys_ofList.mpr hmem)

/-- The elements collected into an ordered set. -/
def distinct (values : List κ) : List κ := keys (ofList (values.map fun value => (value, ())))

theorem keys_map_unit (values : List κ) :
    keys (values.map fun value => (value, ())) = values := by
  simp [keys, List.map_map, Function.comp_def]

theorem length_distinct_eq_iff {values : List κ} :
    (distinct values).length = values.length ↔ values.Nodup := by
  have h : (ofList (values.map fun value => (value, ()))).length =
      (values.map fun value => (value, ())).length ↔ _ := length_ofList_eq_iff
  rw [keys_map_unit, List.length_map] at h
  rw [distinct, keys, List.length_map]
  exact h

theorem mem_distinct {values : List κ} {value : κ} : value ∈ distinct values ↔ value ∈ values := by
  rw [distinct, mem_keys_ofList, keys_map_unit]

theorem distinct_eq_iff {left right : List κ} :
    distinct left = distinct right ↔ ∀ value, value ∈ left ↔ value ∈ right := by
  constructor
  · intro h value
    rw [← mem_distinct, h, mem_distinct]
  · intro h
    refine congrArg keys (ext_of_lookup (sorted_ofList _) (sorted_ofList _) fun key => ?_)
    cases hleft : lookup (ofList (left.map fun value => (value, ()))) key with
    | none =>
      rw [lookup_eq_none_iff, mem_keys_ofList, keys_map_unit, h, ← keys_map_unit right,
        ← mem_keys_ofList, ← lookup_eq_none_iff] at hleft
      exact hleft.symm
    | some present =>
      have hmem := exists_lookup_iff.mp ⟨present, hleft⟩
      rw [mem_keys_ofList, keys_map_unit, h, ← keys_map_unit right, ← mem_keys_ofList] at hmem
      obtain ⟨_, hright⟩ := exists_lookup_iff.mpr hmem
      exact hright.symm

end SpecGate.SortedAssoc

import SpecGate.ComponentClosure

/-!
Type references across components. The text of a mapped type is scanned for names, and a name
that another component owns gets that component in front. In the text of a type this renames the
leaves of the type and nothing else: the constructors, whose arguments follow, stay.
-/
namespace SpecGate.QualifiedNames

open SortedAssoc DiscoveredRegistries TypeExpressions FoldedOperations RustTypes ComponentClosure

/-! ### The scan -/

structure Qualifier where
  external : List (String × String)
  localNames : List String

def Qualifier.new (component : String) (registry : Registry) : Qualifier where
  external := ofList ((registry.types.filter fun ty =>
    ty.component != component && ty.component != "").map fun ty => (ty.name, ty.component))
  localNames := (registry.types.filter fun ty => ty.component == component).map RawType.name

namespace Qualifier

/-- A name that stands alone. -/
def name (qualifier : Qualifier) (token : String) : String :=
  if qualifier.localNames.contains token then token
  else match lookup qualifier.external token with
    | some owner => owner ++ "::" ++ token
    | none => token

variable (classes : CharClasses) (qualifier : Qualifier)

/-- A name between the text before it and the rest. It stays as it is after a double colon and,
if it is that of a constructor, before its arguments. -/
def qualifyToken (before token rest : List Char) : List Char :=
  let qualified := [':', ':'].isSuffixOf before
  let application := constructor (String.ofList token) && (trimStart classes rest).head? == some '<'
  if qualified || application then token else (qualifier.name (String.ofList token)).toList

/-- The text with its names qualified; the name being read comes after the text before it. -/
def qualifyFrom (before token : List Char) : List Char → List Char
  | [] => if token = [] then [] else qualifier.qualifyToken classes before token []
  | c :: rest =>
      if isFieldChar classes c then qualifyFrom before (token ++ [c]) rest
      else (if token = [] then [] else qualifier.qualifyToken classes before token (c :: rest)) ++
        c :: qualifyFrom (before ++ token ++ [c]) [] rest

def qualify (text : String) : String := String.ofList (qualifier.qualifyFrom classes [] [] text.toList)

end Qualifier

def mapComponent (classes : CharClasses) (qualifier : Qualifier) (ty : String) :
    Except String String :=
  (mapType classes ty).map fun mapped => qualifier.qualify classes mapped.refString

/-! ### References as trees -/

/-- A type reference: a name, or a constructor before its arguments. -/
inductive TypeTree where
  | leaf (name : String)
  | apply (head : String) (args : List TypeTree)

namespace TypeTree

mutual

def text : TypeTree → List Char
  | .leaf name => name.toList
  | .apply head args => head.toList ++ '<' :: (textArgs args ++ ['>'])
termination_by structural tree => tree

def textArgs : List TypeTree → List Char
  | [] => []
  | tree :: rest => text tree ++ textRest rest
termination_by structural trees => trees

/-- The arguments after the first. -/
def textRest : List TypeTree → List Char
  | [] => []
  | tree :: rest => ',' :: ' ' :: (text tree ++ textRest rest)
termination_by structural trees => trees

end

mutual

def rename (f : String → String) : TypeTree → TypeTree
  | .leaf name => .leaf (f name)
  | .apply head args => .apply head (renameAll f args)
termination_by structural tree => tree

def renameAll (f : String → String) : List TypeTree → List TypeTree
  | [] => []
  | tree :: rest => rename f tree :: renameAll f rest
termination_by structural trees => trees

end

mutual

def names : TypeTree → List String
  | .leaf name => [name]
  | .apply _ args => namesAll args
termination_by structural tree => tree

def namesAll : List TypeTree → List String
  | [] => []
  | tree :: rest => names tree ++ namesAll rest
termination_by structural trees => trees

end

mutual

/-- The constructors before arguments are constructors. -/
def applied : TypeTree → Bool
  | .leaf _ => true
  | .apply head args => constructor head && appliedAll args
termination_by structural tree => tree

def appliedAll : List TypeTree → Bool
  | [] => true
  | tree :: rest => applied tree && appliedAll rest
termination_by structural trees => trees

end

end TypeTree

/-- The reference that a named type is mapped to. -/
def namedTree (name : String) (args : List TypeTree) : TypeTree :=
  if textNames.contains name then .leaf "string"
  else
    match args with
    | [] =>
        if name = "()" then .leaf "unit"
        else if runtimeValue name then .leaf "value"
        else .leaf name
    | [item] =>
        if name = "Option" then .apply "Option" [item]
        else if name = "Vec" then .apply "List" [item]
        else if name = "HashSet" ∨ name = "BTreeSet" then .apply "set" [item]
        else .leaf name
    | [first, second] =>
        if name = "Result" then .apply "Result" [first, second]
        else if name = "HashMap" ∨ name = "BTreeMap" then .apply "map" [first, second]
        else .leaf name
    | _ => .leaf name

mutual

def typeTree : RustType → TypeTree
  | .named name args => namedTree name (typeTrees args)
  | .ref inner => typeTree inner
  | .slice inner => .apply "List" [typeTree inner]
  | .tuple items => .apply "Tuple" (typeTrees items)
termination_by structural type => type

def typeTrees : List RustType → List TypeTree
  | [] => []
  | type :: rest => typeTree type :: typeTrees rest
termination_by structural types => types

end

/-! ### The text of a mapped type -/

section Texts

open TypeTree

theorem textArgs_singleton (tree : TypeTree) : textArgs [tree] = tree.text := by
  rw [textArgs, textRest, List.append_nil]

theorem textArgs_pair (first second : TypeTree) :
    textArgs [first, second] = first.text ++ (',' :: ' ' :: second.text) := by
  rw [textArgs, textRest, textRest, List.append_nil]

/-- The references of some types, each as the text of its tree. -/
def Spelled (types : List SpecType) (trees : List TypeTree) : Prop :=
  List.Forall₂ (fun type tree => type.refString.toList = tree.text) types trees

theorem mapNamed_text {types : List SpecType} {trees : List TypeTree} (h : Spelled types trees)
    (name : String) : (mapNamed name types).refString.toList = (namedTree name trees).text := by
  unfold mapNamed namedTree
  by_cases htext : textNames.contains name = true
  · rw [if_pos htext, if_pos htext]
    rfl
  rw [if_neg htext, if_neg htext]
  cases h with
  | nil =>
    dsimp only
    split_ifs <;> rfl
  | @cons type tree types trees hfirst hrest =>
    cases hrest with
    | nil =>
      dsimp only
      split_ifs <;>
        simp [SpecType.refString, text, textArgs_singleton, hfirst]
    | @cons second other types trees hsecond hrest =>
      cases hrest with
      | nil =>
        dsimp only
        split_ifs <;>
          simp [SpecType.refString, text, textArgs_pair, hfirst, hsecond]
      | cons _ _ => rfl

theorem applied_namedTree (name : String) {args : List TypeTree}
    (h : appliedAll args = true) : (namedTree name args).applied = true := by
  unfold namedTree
  by_cases htext : textNames.contains name = true
  · rw [if_pos htext]
    rfl
  rw [if_neg htext]
  cases args with
  | nil =>
    dsimp only
    split_ifs <;> rfl
  | cons first rest =>
    cases rest with
    | nil =>
      dsimp only
      split_ifs <;> first | rfl | exact h
    | cons second rest =>
      cases rest with
      | nil =>
        dsimp only
        split_ifs <;> first | rfl | exact h
      | cons _ _ => rfl

theorem toList_intercalate_refs {types : List SpecType} {trees : List TypeTree}
    (h : Spelled types trees) :
    (", ".intercalate (types.map SpecType.refString)).toList = textArgs trees := by
  induction h with
  | nil => rfl
  | @cons type tree types trees hfirst hrest ih =>
    cases hrest with
    | nil => rw [List.map_cons, List.map_nil, String.intercalate_singleton, hfirst,
        textArgs_singleton]
    | @cons second other types trees hsecond hrest =>
      rw [List.map_cons, List.map_cons, String.intercalate_cons_cons, String.toList_append,
        String.toList_append, ← List.map_cons, ih, hfirst, textArgs, textArgs, textRest]
      simp

theorem refStrings_eq (types : List RustType) :
    refStrings types = (mapRusts types).map SpecType.refString := by
  induction types with
  | nil => rfl
  | cons type rest ih => rw [refStrings, mapRusts, List.map_cons, ih]

mutual

/-- The text of a mapped type is that of its tree. -/
theorem mapRust_text (type : RustType) :
    (mapRust type).refString.toList = (typeTree type).text := by
  cases type with
  | named name args =>
    rw [mapRust, typeTree]
    exact mapNamed_text (mapRusts_spelled args) name
  | ref inner =>
    rw [mapRust, typeTree]
    exact mapRust_text inner
  | slice inner =>
    rw [mapRust, typeTree, text, textArgs_singleton, ← mapRust_text inner]
    simp [SpecType.refString]
  | tuple items =>
    rw [mapRust, typeTree, text, ← toList_intercalate_refs (mapRusts_spelled items),
      ← refStrings_eq]
    simp [SpecType.refString]
termination_by structural type

theorem mapRusts_spelled (types : List RustType) : Spelled (mapRusts types) (typeTrees types) := by
  cases types with
  | nil => exact .nil
  | cons type rest =>
    rw [mapRusts, typeTrees]
    exact .cons (mapRust_text type) (mapRusts_spelled rest)
termination_by structural types

end

mutual

theorem applied_typeTree (type : RustType) : (typeTree type).applied = true := by
  cases type with
  | named name args =>
    rw [typeTree]
    exact applied_namedTree name (appliedAll_typeTrees args)
  | ref inner =>
    rw [typeTree]
    exact applied_typeTree inner
  | slice inner =>
    rw [typeTree, applied, appliedAll, appliedAll, applied_typeTree inner]
    rfl
  | tuple items =>
    rw [typeTree, applied, appliedAll_typeTrees items]
    rfl
termination_by structural type

theorem appliedAll_typeTrees (types : List RustType) : appliedAll (typeTrees types) = true := by
  cases types with
  | nil => rfl
  | cons type rest =>
    rw [typeTrees, appliedAll, applied_typeTree type, appliedAll_typeTrees rest]
    rfl
termination_by structural types

end

end Texts

/-! ### The scan of a type -/

section Scan

open TypeTree

variable {classes : CharClasses} {qualifier : Qualifier} {before token word rest : List Char}

/-- A name as the scan reads it. -/
def IsName (classes : CharClasses) (name : String) : Prop :=
  name.toList ≠ [] ∧ ∀ c ∈ name.toList, isFieldChar classes c = true

/-- What can follow a name that stands alone. -/
def Ends (rest : List Char) : Prop := rest = [] ∨ ∃ more, rest = ',' :: more ∨ rest = '>' :: more

theorem qualifyFrom_word (h : ∀ c ∈ word, isFieldChar classes c = true) :
    qualifier.qualifyFrom classes before token (word ++ rest) =
      qualifier.qualifyFrom classes before (token ++ word) rest := by
  induction word generalizing token with
  | nil => rw [List.nil_append, List.append_nil]
  | cons c word ih =>
    obtain ⟨hc, hword⟩ := List.forall_mem_cons.mp h
    rw [List.cons_append, Qualifier.qualifyFrom, if_pos hc, ih hword, List.append_assoc]
    rfl

theorem qualifyFrom_stop (htoken : token ≠ [])
    (hrest : ∀ c ∈ rest.head?, isFieldChar classes c = false) :
    qualifier.qualifyFrom classes before token rest =
      qualifier.qualifyToken classes before token rest ++
        qualifier.qualifyFrom classes (before ++ token) [] rest := by
  cases rest with
  | nil =>
    rw [Qualifier.qualifyFrom, if_neg htoken, Qualifier.qualifyFrom, if_pos rfl, List.append_nil]
  | cons c rest =>
    have hc : isFieldChar classes c = false := hrest c rfl
    rw [Qualifier.qualifyFrom, Qualifier.qualifyFrom, if_neg htoken, if_pos rfl, hc,
      if_neg Bool.false_ne_true, if_neg Bool.false_ne_true, List.nil_append, List.append_nil]

theorem qualifyFrom_sign {c : Char} (hc : isFieldChar classes c = false) :
    qualifier.qualifyFrom classes before [] (c :: rest) =
      c :: qualifier.qualifyFrom classes (before ++ [c]) [] rest := by
  rw [Qualifier.qualifyFrom, if_pos rfl, hc, if_neg Bool.false_ne_true, List.nil_append,
    List.append_nil]

/-- No ASCII character but letters, digits and the underscore belongs to a name. -/
theorem isFieldChar_ascii {c : Char} (hascii : c.toNat < 128) (halnum : c.isAlphanum = false)
    (hne : c ≠ '_') : isFieldChar classes c = false := by
  rw [isFieldChar, classes.alphanumeric_ascii c hascii, halnum, Bool.false_or, beq_eq_false_iff_ne]
  exact hne

theorem sign_lt : isFieldChar classes '<' = false := isFieldChar_ascii (by decide) rfl (by decide)
theorem sign_gt : isFieldChar classes '>' = false := isFieldChar_ascii (by decide) rfl (by decide)
theorem sign_comma : isFieldChar classes ',' = false := isFieldChar_ascii (by decide) rfl (by decide)
theorem sign_space : isFieldChar classes ' ' = false := isFieldChar_ascii (by decide) rfl (by decide)

theorem Ends.stops (h : Ends rest) : ∀ c ∈ rest.head?, isFieldChar classes c = false := by
  intro c hc
  rcases h with rfl | ⟨more, rfl | rfl⟩
  · cases hc
  · obtain rfl := Option.some.inj hc
    exact sign_comma
  · obtain rfl := Option.some.inj hc
    exact sign_gt

theorem trimStart_sign {c : Char} (hc : classes.isWhitespace c = false) :
    trimStart classes (c :: rest) = c :: rest := by
  rw [trimStart, List.dropWhile_cons, hc, if_neg Bool.false_ne_true]

theorem not_whitespace {c : Char} (hascii : c.toNat < 128)
    (hc : ¬ (c.toNat = 32 ∨ (9 ≤ c.toNat ∧ c.toNat ≤ 13))) : classes.isWhitespace c = false := by
  rw [classes.whitespace_ascii c hascii]
  exact decide_eq_false hc

theorem Ends.not_applied (h : Ends rest) : (trimStart classes rest).head? ≠ some '<' := by
  rcases h with rfl | ⟨more, rfl | rfl⟩
  · exact fun h => by cases h
  · rw [trimStart_sign (not_whitespace (by decide) (by decide))]
    exact fun h => absurd (Option.some.inj h) (by decide)
  · rw [trimStart_sign (not_whitespace (by decide) (by decide))]
    exact fun h => absurd (Option.some.inj h) (by decide)

/-- The text before a name does not end in a double colon. -/
def Fresh (before : List Char) : Prop := [':', ':'].isSuffixOf before = false

theorem fresh_sign {c : Char} (hc : c ≠ ':') (front : List Char) : Fresh (front ++ [c]) := by
  unfold Fresh
  rw [Bool.eq_false_iff]
  intro h
  obtain ⟨start, hstart⟩ := List.isSuffixOf_iff_suffix.mp h
  have hlast := congrArg List.getLast? hstart
  rw [List.getLast?_append, List.getLast?_append] at hlast
  exact hc (Option.some.inj hlast).symm

theorem qualifyToken_leaf {name : String} (hfresh : Fresh before) (hrest : Ends rest) :
    qualifier.qualifyToken classes before name.toList rest = (qualifier.name name).toList := by
  have happly : ((trimStart classes rest).head? == some '<') = false :=
    beq_eq_false_iff_ne.mpr hrest.not_applied
  unfold Qualifier.qualifyToken
  dsimp only
  rw [hfresh, happly, Bool.and_false, Bool.or_false, if_neg Bool.false_ne_true, String.ofList_toList]

theorem qualifyToken_apply {head : String} (hhead : constructor head = true) :
    qualifier.qualifyToken classes before head.toList ('<' :: rest) = head.toList := by
  unfold Qualifier.qualifyToken
  dsimp only
  rw [String.ofList_toList, hhead, trimStart_sign (not_whitespace (by decide) (by decide)),
    List.head?_cons, beq_self_eq_true, Bool.and_true, Bool.or_true, if_pos rfl]

theorem constructor_isName {head : String} (h : constructor head = true) :
    IsName classes head := by
  have hall := List.all_eq_true.mp (show
    (["Option", "optional", "Vec", "List", "list", "Bag", "Tuple", "tuple", "OrderedSet",
      "OrderedMap", "Result", "HashMap", "BTreeMap", "Map", "map", "HashSet", "BTreeSet", "Set",
      "set"].all fun name => !name.toList.isEmpty && name.toList.all fun c =>
        decide (c.toNat < 128) && c.isAlphanum) = true from by decide) head
      (List.contains_iff_mem.mp h)
  rw [Bool.and_eq_true] at hall
  refine ⟨fun hnil => ?_, fun c hc => ?_⟩
  · rw [hnil] at hall
    exact absurd hall.1 (by decide)
  · have hboth := List.all_eq_true.mp hall.2 c hc
    rw [Bool.and_eq_true] at hboth
    rw [isFieldChar, classes.alphanumeric_ascii c (of_decide_eq_true hboth.1), hboth.2,
      Bool.true_or]

theorem ends_textRest (trees : List TypeTree) (rest : List Char) :
    Ends (textRest trees ++ '>' :: rest) := by
  cases trees with
  | nil => exact .inr ⟨rest, .inr rfl⟩
  | cons tree trees => exact .inr ⟨_, .inl rfl⟩

mutual

/-- The scan renames the leaves of a type in its text. -/
theorem qualifyFrom_text (tree : TypeTree) {before rest : List Char}
    (hnames : ∀ name ∈ tree.names, IsName classes name) (happlied : tree.applied = true)
    (hfresh : Fresh before) (hrest : Ends rest) :
    qualifier.qualifyFrom classes before [] (tree.text ++ rest) =
      (tree.rename qualifier.name).text ++
        qualifier.qualifyFrom classes (before ++ tree.text) [] rest := by
  cases tree with
  | leaf name =>
    have hname := hnames name (List.mem_singleton.mpr rfl)
    rw [text, rename, text, qualifyFrom_word hname.2, List.nil_append,
      qualifyFrom_stop hname.1 hrest.stops, qualifyToken_leaf hfresh hrest]
  | apply head args =>
    rw [applied, Bool.and_eq_true] at happlied
    have hhead : IsName classes head := constructor_isName happlied.1
    have hargs := qualifyFrom_args args hnames happlied.2
      (fresh_sign (c := '<') (by decide) (before ++ head.toList)) rest
    have hclose : textArgs args ++ ['>'] ++ rest = textArgs args ++ '>' :: rest := by simp
    rw [text, rename, text, List.append_assoc, List.cons_append, hclose,
      qualifyFrom_word hhead.2, List.nil_append,
      qualifyFrom_stop hhead.1 (by
        intro c hc
        obtain rfl := Option.some.inj hc
        exact sign_lt),
      qualifyToken_apply happlied.1, qualifyFrom_sign sign_lt, hargs, qualifyFrom_sign sign_gt]
    simp
termination_by structural tree

theorem qualifyFrom_args (trees : List TypeTree) {before : List Char}
    (hnames : ∀ name ∈ namesAll trees, IsName classes name) (happlied : appliedAll trees = true)
    (hfresh : Fresh before) (rest : List Char) :
    qualifier.qualifyFrom classes before [] (textArgs trees ++ '>' :: rest) =
      textArgs (renameAll qualifier.name trees) ++
        qualifier.qualifyFrom classes (before ++ textArgs trees) [] ('>' :: rest) := by
  cases trees with
  | nil => rw [textArgs, renameAll, textArgs, List.nil_append, List.nil_append, List.append_nil]
  | cons tree trees =>
    rw [appliedAll, Bool.and_eq_true] at happlied
    have htree := qualifyFrom_text tree
      (fun name h => hnames name (List.mem_append_left _ h)) happlied.1 hfresh
      (ends_textRest trees rest)
    have htrees := qualifyFrom_rest trees
      (fun name h => hnames name (List.mem_append_right _ h)) happlied.2 (before ++ tree.text) rest
    rw [textArgs, renameAll, textArgs, List.append_assoc, htree, htrees, List.append_assoc,
      List.append_assoc]
termination_by structural trees

theorem qualifyFrom_rest (trees : List TypeTree)
    (hnames : ∀ name ∈ namesAll trees, IsName classes name) (happlied : appliedAll trees = true)
    (before rest : List Char) :
    qualifier.qualifyFrom classes before [] (textRest trees ++ '>' :: rest) =
      textRest (renameAll qualifier.name trees) ++
        qualifier.qualifyFrom classes (before ++ textRest trees) [] ('>' :: rest) := by
  cases trees with
  | nil => rw [textRest, renameAll, textRest, List.nil_append, List.nil_append, List.append_nil]
  | cons tree trees =>
    rw [appliedAll, Bool.and_eq_true] at happlied
    have htree := qualifyFrom_text tree
      (fun name h => hnames name (List.mem_append_left _ h)) happlied.1
      (fresh_sign (c := ' ') (by decide) (before ++ [','])) (ends_textRest trees rest)
    have htrees := qualifyFrom_rest trees
      (fun name h => hnames name (List.mem_append_right _ h)) happlied.2
      (before ++ [','] ++ [' '] ++ tree.text) rest
    rw [textRest, renameAll, textRest, List.cons_append, List.cons_append, List.append_assoc,
      qualifyFrom_sign sign_comma, qualifyFrom_sign sign_space, htree, htrees]
    simp
termination_by structural trees

end

/-- Qualifying the text of a mapped type renames the leaves of the type. -/
theorem qualify_refString {type : RustType}
    (hnames : ∀ name ∈ (typeTree type).names, IsName classes name) :
    qualifier.qualify classes (mapRust type).refString =
      String.ofList ((typeTree type).rename qualifier.name).text := by
  have hscan : qualifier.qualifyFrom classes [] [] ((typeTree type).text ++ []) =
      ((typeTree type).rename qualifier.name).text ++
        qualifier.qualifyFrom classes ([] ++ (typeTree type).text) [] [] :=
    qualifyFrom_text (typeTree type) hnames (applied_typeTree type) rfl (.inl rfl)
  rw [List.append_nil, Qualifier.qualifyFrom, if_pos rfl, List.append_nil] at hscan
  rw [Qualifier.qualify, mapRust_text, hscan]

theorem mapComponent_eq {text : String} {type : RustType} (hparse : parse classes text = some type)
    (hnames : ∀ name ∈ (typeTree type).names, IsName classes name) :
    mapComponent classes qualifier text =
      .ok (String.ofList ((typeTree type).rename qualifier.name).text) := by
  rw [mapComponent, mapType, hparse]
  exact congrArg Except.ok (qualify_refString hnames)

end Scan

/-! ### Owned names -/

section Owned

variable {registry : Registry} {component name target : String}

/-- A name that has an owner is qualified by its owner, unless that is the component itself. -/
theorem name_of_owns (h : Owns registry component name target) :
    (Qualifier.new component registry).name name =
      if target = component then name else target ++ "::" ++ name := by
  obtain ⟨hnonempty, ⟨ty, honly, rfl⟩ | ⟨hnone, ty, honly, rfl⟩⟩ := h
  · have hmem : ty ∈ registry.types.filter fun ty => ty.name == name && ty.component == target := by
      rw [honly]
      exact List.mem_singleton.mpr rfl
    obtain ⟨hty, hboth⟩ := List.mem_filter.mp hmem
    rw [Bool.and_eq_true] at hboth
    have hlocal : (Qualifier.new target registry).localNames.contains name = true :=
      List.contains_iff_mem.mpr (List.mem_map.mpr
        ⟨ty, List.mem_filter.mpr ⟨hty, hboth.2⟩, eq_of_beq hboth.1⟩)
    rw [Qualifier.name, if_pos hlocal, if_pos rfl]
  · have hmem : ty ∈ registry.types.filter fun ty => ty.name == name := by
      rw [honly]
      exact List.mem_singleton.mpr rfl
    obtain ⟨hty, hname⟩ := List.mem_filter.mp hmem
    have hforeign : ∀ other ∈ registry.types, other.name = name → other.component ≠ component := by
      intro other hother hsame hcomponent
      have hlocal : other ∈ registry.types.filter fun ty =>
          ty.name == name && ty.component == component := by
        refine List.mem_filter.mpr ⟨hother, ?_⟩
        rw [hsame, hcomponent, beq_self_eq_true, beq_self_eq_true, Bool.and_true]
      rw [hnone] at hlocal
      cases hlocal
    have hother : ty.component ≠ component := hforeign ty hty (eq_of_beq hname)
    have hlocal : ¬ (Qualifier.new component registry).localNames.contains name = true := by
      intro hcontains
      obtain ⟨other, hfiltered, hsame⟩ := List.mem_map.mp (List.contains_iff_mem.mp hcontains)
      obtain ⟨hregistered, hcomponent⟩ := List.mem_filter.mp hfiltered
      exact hforeign other hregistered hsame (eq_of_beq hcomponent)
    have hentry : ∀ owner, (name, owner) ∈ (Qualifier.new component registry).external →
        owner = ty.component := by
      intro owner howner
      obtain ⟨other, hfiltered, hpair⟩ := List.mem_map.mp (mem_of_mem_ofList howner)
      obtain ⟨hsame, rfl⟩ := Prod.mk.inj hpair
      have hregistered := (List.mem_filter.mp hfiltered).1
      have hfound : other ∈ registry.types.filter fun ty => ty.name == name :=
        List.mem_filter.mpr ⟨hregistered, beq_iff_eq.mpr hsame⟩
      rw [honly] at hfound
      rw [List.mem_singleton.mp hfound]
    have hkey : name ∈ keys (Qualifier.new component registry).external := by
      refine mem_keys_ofList.mpr (List.mem_map.mpr ⟨(ty.name, ty.component), ?_, eq_of_beq hname⟩)
      refine List.mem_map_of_mem (List.mem_filter.mpr ⟨hty, ?_⟩)
      rw [Bool.and_eq_true, bne_iff_ne, bne_iff_ne]
      exact ⟨hother, hnonempty⟩
    obtain ⟨owner, hlookup⟩ := exists_lookup_iff.mpr hkey
    have howner : owner = ty.component := hentry owner (mem_of_lookup hlookup)
    rw [Qualifier.name, if_neg hlocal, hlookup, if_neg hother, howner]

end Owned

end SpecGate.QualifiedNames

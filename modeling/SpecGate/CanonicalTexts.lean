import SpecGate.AcceptedValues
import SpecGate.DisplayedScalars

/-!
The texts of canonical values. Names of variants are written as they are, so a text can be
read back only while no name runs into the notation around it. Under that condition two
canonical values of one registry type have one text only when they are equal.
-/
namespace SpecGate.CanonicalTexts

open Values RegistryModel SortedAssoc CanonicalOrder Collecting LinkedValues AcceptedValues
open PrimitiveValues Display DelimitedTexts DisplayedScalars

/-! ### Characters -/

def chars (value : CanonicalValue) : List Char := (displayCanonical value).toList

def pairChars (pair : CanonicalValue × CanonicalValue) : List Char :=
  chars pair.1 ++ ':' :: chars pair.2

def fieldChars (field : String × CanonicalValue) : List Char :=
  field.1.toList ++ ':' :: chars field.2

theorem displayCanonicals_eq (values : List CanonicalValue) :
    (displayCanonicals values).map String.toList = values.map chars := by
  induction values with
  | nil => rfl
  | cons value rest ih => rw [displayCanonicals, List.map_cons, List.map_cons, ih, chars]

theorem displayPairs_eq (entries : List (CanonicalValue × CanonicalValue)) :
    (displayPairs entries).map String.toList = entries.map pairChars := by
  induction entries with
  | nil => rfl
  | cons entry rest ih =>
    rw [displayPairs, List.map_cons, List.map_cons, ih, pairChars, String.toList_append,
      String.toList_append, List.append_assoc]
    rfl

theorem displayFields_eq (fields : List (String × CanonicalValue)) :
    (displayFields fields).map String.toList = fields.map fieldChars := by
  induction fields with
  | nil => rfl
  | cons field rest ih =>
    rw [displayFields, List.map_cons, List.map_cons, ih, fieldChars, String.toList_append,
      String.toList_append, List.append_assoc]
    rfl

theorem chars_list (values : List CanonicalValue) :
    chars (.list values) = '[' :: sequence ',' ']' chars values := by
  rw [chars, displayCanonical, String.toList_append, String.toList_append,
    String.toList_intercalate, displayCanonicals_eq, List.append_assoc]
  rfl

theorem chars_tuple (values : List CanonicalValue) :
    chars (.tuple values) = '[' :: sequence ',' ']' chars values := by
  rw [← chars_list]
  rfl

theorem chars_map (entries : List (CanonicalValue × CanonicalValue)) :
    chars (.map entries) = "map\x7b".toList ++ sequence ',' '\x7d' pairChars entries := by
  rw [chars, displayCanonical, String.toList_append, String.toList_append,
    String.toList_intercalate, displayPairs_eq, List.append_assoc]
  rfl

theorem chars_orderedMap (entries : List (CanonicalValue × CanonicalValue)) :
    chars (.orderedMap entries) =
      "ordered_map[".toList ++ sequence ',' ']' pairChars entries := by
  rw [chars, displayCanonical, String.toList_append, String.toList_append,
    String.toList_intercalate, displayPairs_eq, List.append_assoc]
  rfl

theorem chars_record (fields : List (String × CanonicalValue)) :
    chars (.record fields) = '\x7b' :: sequence ',' '\x7d' fieldChars fields := by
  rw [chars, displayCanonical, String.toList_append, String.toList_append,
    String.toList_intercalate, displayFields_eq, List.append_assoc]
  rfl

theorem chars_variant (name : String) (value : CanonicalValue) :
    chars (.variant name value) = name.toList ++ '(' :: (chars value ++ [')']) := by
  rw [chars, displayCanonical, String.toList_append, String.toList_append, String.toList_append]
  simp [chars]

/-! ### Names -/

/-- A name that shows where it ends and is not taken for the end of a sequence. -/
structure PlainName (name : String) : Prop where
  bracket : ∀ c ∈ name.toList, ¬ c = '('
  start : ∀ c ∈ name.toList.head?, c ≠ ']' ∧ c ≠ '\x7d'

/-- The name of a variant is plain. -/
def PlainHead (value : CanonicalValue) : Prop :=
  ∀ name payload, value = .variant name payload → PlainName name

theorem PlainName.opens {name : String} (h : PlainName name) (rest : List Char) :
    Opens ']' (name.toList ++ '(' :: rest) ∧ Opens '\x7d' (name.toList ++ '(' :: rest) := by
  have hstart := h.start
  cases hname : name.toList with
  | nil => exact ⟨⟨'(', rest, rfl, by decide⟩, ⟨'(', rest, rfl, by decide⟩⟩
  | cons c others =>
    rw [hname] at hstart
    obtain ⟨hsquare, hcurly⟩ := hstart c rfl
    exact ⟨⟨c, _, rfl, hsquare⟩, ⟨c, _, rfl, hcurly⟩⟩

/-- No text begins with a closing bracket. -/
theorem opens_chars {value : CanonicalValue} (h : PlainHead value) :
    Opens ']' (chars value) ∧ Opens '\x7d' (chars value) := by
  have hhead : ∀ {c : Char} {rest : List Char}, chars value = c :: rest → c ≠ ']' → c ≠ '\x7d' →
      Opens ']' (chars value) ∧ Opens '\x7d' (chars value) :=
    fun htext hsquare hcurly => ⟨⟨_, _, htext, hsquare⟩, ⟨_, _, htext, hcurly⟩⟩
  have hnumber : ∀ {c : Char} {rest : List Char}, chars value = c :: rest →
      (c.isDigit = true ∨ c = '-') → Opens ']' (chars value) ∧ Opens '\x7d' (chars value) := by
    intro c rest htext hc
    refine hhead htext ?_ ?_ <;> (rintro rfl; exact absurd hc (by decide))
  have hquoted : ∀ {text : String}, chars value = (writeJson text).toList →
      Opens ']' (chars value) ∧ Opens '\x7d' (chars value) := by
    intro text htext
    obtain ⟨rest, hrest⟩ := head_writeJson text
    exact hhead (htext.trans hrest) (by decide) (by decide)
  cases value with
  | unit => exact hhead rfl (by decide) (by decide)
  | string text => exact hquoted rfl
  | bool value => cases value <;> exact hhead rfl (by decide) (by decide)
  | integer n =>
    obtain ⟨⟨c, rest, htext, hc⟩, -⟩ := (ShortestDecimals.signedText_int n).chars
    exact hnumber htext hc
  | float value =>
    cases hname : symbolName value with
    | some name => exact hquoted (congrArg String.toList (displayFloat_symbol hname))
    | none =>
      cases value with
      | finite x =>
        obtain ⟨c, rest, htext, hc⟩ := head_displayFinite x
        exact hnumber htext hc
      | _ => cases hname
  | bytes value =>
    have htext : chars (.bytes value) =
        "bytes:".toList ++ (String.ofList (encodeBase64 value)).toList := by
      rw [chars, displayCanonical, String.toList_append]
    exact hhead htext (by decide) (by decide)
  | list values => exact hhead (chars_list values) (by decide) (by decide)
  | tuple values => exact hhead (chars_tuple values) (by decide) (by decide)
  | map entries => exact hhead (chars_map entries) (by decide) (by decide)
  | orderedMap entries => exact hhead (chars_orderedMap entries) (by decide) (by decide)
  | record fields => exact hhead (chars_record fields) (by decide) (by decide)
  | variant name payload =>
    rw [chars_variant]
    exact (h name payload rfl).opens _

/-! ### Values of one shape -/

/-- Two values built alike, as those of one type are, with plain names. -/
inductive SameShape : CanonicalValue → CanonicalValue → Prop
  | unit : SameShape .unit .unit
  | string (left right : String) : SameShape (.string left) (.string right)
  | bool (left right : Bool) : SameShape (.bool left) (.bool right)
  | integer (left right : Int) : SameShape (.integer left) (.integer right)
  | float (left right : F64Value) : SameShape (.float left) (.float right)
  | bytes (left right : List UInt8) : SameShape (.bytes left) (.bytes right)
  | list {xs ys : List CanonicalValue} (hxs : ∀ x ∈ xs, PlainHead x) (hys : ∀ y ∈ ys, PlainHead y)
      (hitems : ∀ pair ∈ xs.zip ys, SameShape pair.1 pair.2) : SameShape (.list xs) (.list ys)
  | tuple {xs ys : List CanonicalValue} (hlength : xs.length = ys.length)
      (hitems : ∀ pair ∈ xs.zip ys, SameShape pair.1 pair.2) : SameShape (.tuple xs) (.tuple ys)
  | map {xs ys : List (CanonicalValue × CanonicalValue)} (hxs : ∀ x ∈ xs, PlainHead x.1)
      (hys : ∀ y ∈ ys, PlainHead y.1) (hkeys : ∀ pair ∈ xs.zip ys, SameShape pair.1.1 pair.2.1)
      (hvalues : ∀ pair ∈ xs.zip ys, SameShape pair.1.2 pair.2.2) : SameShape (.map xs) (.map ys)
  | orderedMap {xs ys : List (CanonicalValue × CanonicalValue)} (hxs : ∀ x ∈ xs, PlainHead x.1)
      (hys : ∀ y ∈ ys, PlainHead y.1) (hkeys : ∀ pair ∈ xs.zip ys, SameShape pair.1.1 pair.2.1)
      (hvalues : ∀ pair ∈ xs.zip ys, SameShape pair.1.2 pair.2.2) :
      SameShape (.orderedMap xs) (.orderedMap ys)
  | record {xs ys : List (String × CanonicalValue)} (hlength : xs.length = ys.length)
      (hnames : ∀ pair ∈ xs.zip ys, pair.1.1 = pair.2.1)
      (hvalues : ∀ pair ∈ xs.zip ys, SameShape pair.1.2 pair.2.2) :
      SameShape (.record xs) (.record ys)
  | variant {name name' : String} {left right : CanonicalValue} (hname : PlainName name)
      (hname' : PlainName name') (hvalue : name = name' → SameShape left right) :
      SameShape (.variant name left) (.variant name' right)

theorem forall₂_eq_imp {α : Type} {xs ys : List α} (h : List.Forall₂ (· = ·) xs ys) : xs = ys := by
  rwa [List.forall₂_eq_eq_eq] at h

theorem legible_pair {left right : CanonicalValue × CanonicalValue}
    (hkey : Legible isStop (left.1 = right.1) (chars left.1) (chars right.1))
    (hvalue : Legible isStop (left.2 = right.2) (chars left.2) (chars right.2)) :
    Legible isStop (left = right) (pairChars left) (pairChars right) :=
  (hkey.append (by decide) hvalue).imp fun h => Prod.ext h.1 h.2

/-- Values of one shape are read apart. -/
theorem SameShape.legible {left right : CanonicalValue} (h : SameShape left right) :
    Legible isStop (left = right) (chars left) (chars right) := by
  induction h with
  | unit => exact (legible_nil.after (chars .unit)).imp fun _ => rfl
  | string left right => exact (legible_writeJson left right).imp fun h => by rw [h]
  | bool left right => exact (legible_bool left right).imp fun h => by rw [h]
  | integer left right =>
    refine (legible_decimals (decimal_int left) (decimal_int right)).imp fun h => ?_
    rw [ShortestDecimals.toString_int_injective h]
  | float left right => exact (legible_displayFloat left right).imp fun h => by rw [h]
  | bytes left right => exact (legible_bytes left right).imp fun h => by rw [h]
  | list hxs hys _ ih =>
    rw [chars_list, chars_list]
    refine ((legible_items (· = ·) (by decide) (by decide) (by decide)
      (fun x hx => (opens_chars (hxs x hx)).1) (fun y hy => (opens_chars (hys y hy)).1)
      ih).cons '[').imp fun h => ?_
    rw [forall₂_eq_imp h]
  | @tuple xs ys hlength _ ih =>
    have hempty : xs = [] ↔ ys = [] := by
      rw [← List.length_eq_zero_iff, hlength, List.length_eq_zero_iff]
    rw [chars_tuple, chars_tuple]
    refine ((legible_sequence (· = ·) (by decide) (by decide) (by decide) hempty
      ih).cons '[').imp fun h => ?_
    rw [forall₂_eq_imp h]
  | map hxs hys _ _ hkeys hvalues =>
    rw [chars_map, chars_map]
    refine ((legible_items (· = ·) (by decide) (by decide) (by decide)
      (fun x hx => (opens_chars (hxs x hx)).2.append _)
      (fun y hy => (opens_chars (hys y hy)).2.append _)
      fun pair hpair => legible_pair (hkeys pair hpair) (hvalues pair hpair)).after _).imp
        fun h => ?_
    rw [forall₂_eq_imp h]
  | orderedMap hxs hys _ _ hkeys hvalues =>
    rw [chars_orderedMap, chars_orderedMap]
    refine ((legible_items (· = ·) (by decide) (by decide) (by decide)
      (fun x hx => (opens_chars (hxs x hx)).1.append _)
      (fun y hy => (opens_chars (hys y hy)).1.append _)
      fun pair hpair => legible_pair (hkeys pair hpair) (hvalues pair hpair)).after _).imp
        fun h => ?_
    rw [forall₂_eq_imp h]
  | @record xs ys hlength hnames _ hvalues =>
    have hempty : xs = [] ↔ ys = [] := by
      rw [← List.length_eq_zero_iff, hlength, List.length_eq_zero_iff]
    have hfields : ∀ pair ∈ xs.zip ys,
        Legible isStop (pair.1 = pair.2) (fieldChars pair.1) (fieldChars pair.2) := by
      intro pair hpair
      rw [fieldChars, fieldChars, hnames pair hpair]
      exact (((hvalues pair hpair).cons ':').after _).imp fun h => Prod.ext (hnames pair hpair) h
    rw [chars_record, chars_record]
    refine ((legible_sequence (· = ·) (by decide) (by decide) (by decide) hempty
      hfields).cons '\x7b').imp fun h => ?_
    rw [forall₂_eq_imp h]
  | @variant name name' left right hname hname' _ ih =>
    intro r s hr hs heq
    rw [chars_variant, chars_variant, List.append_assoc, List.append_assoc] at heq
    have hword := @legible_words _ (· = '(') _ _ hname.bracket hname'.bracket
    have hends : ∀ rest, Ends (· = '(') ('(' :: rest) := by
      intro rest c hc
      cases hc
      rfl
    obtain ⟨hsame, hrest⟩ := hword _ _ (hends _) (hends _) heq
    rw [String.toList_inj] at hsame
    obtain ⟨hvalue, hend⟩ := ((ih hsame).close (by decide)) r s hr hs (List.cons.inj hrest).2
    exact ⟨by rw [hsame, hvalue], hend⟩

/-! ### Values of one type -/

/-- Every variant of the registry has a plain name. -/
def PlainVariants (set : RegistrySet) : Prop :=
  ∀ id component, lookup set.components id = some component →
    ∀ variants, Declares component.component (.taggedUnion variants) →
      ∀ variant ∈ variants, PlainName variant.1

/-- The form of the canonical values of a primitive type. -/
inductive Form where
  | unit
  | string
  | bool
  | integer
  | float
  | bytes

def formOf (name : String) : Option Form :=
  if name = "unit" then some .unit
  else if name = "string" then some .string
  else if name = "bool" then some .bool
  else if name = "u64" ∨ name = "i32" ∨ name = "i64" ∨ name = "u32" then some .integer
  else if name = "f32" ∨ name = "f64" then some .float
  else if name = "bytes" then some .bytes
  else none

inductive HasForm : Form → CanonicalValue → Prop
  | unit : HasForm .unit .unit
  | string (text : String) : HasForm .string (.string text)
  | bool (value : Bool) : HasForm .bool (.bool value)
  | integer (value : Int) : HasForm .integer (.integer value)
  | float (value : F64Value) : HasForm .float (.float value)
  | bytes (value : List UInt8) : HasForm .bytes (.bytes value)

theorem form_of_canonicalPrimitive {name : String} {value : AnyValue} {x : CanonicalValue}
    (h : canonicalPrimitive value name = some x) : ∃ form, formOf name = some form ∧ HasForm form x := by
  cases value with
  | array values => cases h
  | kvList entries =>
    rw [canonicalPrimitive] at h
    split at h
    · rename_i hunit
      obtain rfl := Option.some.inj h
      exact ⟨_, by rw [hunit.1]; rfl, .unit⟩
    · cases h
  | string text =>
    rw [canonicalPrimitive] at h
    split at h
    · rename_i hstring
      obtain rfl := Option.some.inj h
      exact ⟨_, by rw [hstring]; rfl, .string text⟩
    · split at h
      · rename_i hunsigned
        obtain ⟨n, -, rfl⟩ := Option.map_eq_some_iff.mp h
        exact ⟨_, by rw [hunsigned]; rfl, .integer n⟩
      · cases h
  | bool b =>
    rw [canonicalPrimitive] at h
    split at h
    · rename_i hbool
      obtain rfl := Option.some.inj h
      exact ⟨_, by rw [hbool]; rfl, .bool b⟩
    · cases h
  | int n =>
    rw [canonicalPrimitive] at h
    split at h
    · rename_i hint
      obtain rfl := Option.some.inj h
      exact ⟨_, by rcases hint with rfl | rfl | rfl <;> rfl, .integer n.toInt⟩
    · cases h
  | double float =>
    rw [canonicalPrimitive] at h
    split at h
    · rename_i hfloat
      obtain rfl := Option.some.inj h
      exact ⟨_, by rcases hfloat with rfl | rfl <;> rfl, .float float⟩
    · cases h
  | bytes bytes =>
    rw [canonicalPrimitive] at h
    split at h
    · rename_i hbytes
      obtain rfl := Option.some.inj h
      exact ⟨_, by rw [hbytes]; rfl, .bytes bytes⟩
    · cases h

/-- The canonical values of one primitive type are of one constructor. -/
theorem sameShape_primitive {name : String} {left right : AnyValue} {x y : CanonicalValue}
    (hx : canonicalPrimitive left name = some x) (hy : canonicalPrimitive right name = some y) :
    SameShape x y := by
  obtain ⟨form, hform, hleft⟩ := form_of_canonicalPrimitive hx
  obtain ⟨form', hform', hright⟩ := form_of_canonicalPrimitive hy
  obtain rfl := Option.some.inj (hform.symm.trans hform')
  cases hleft <;> cases hright <;> constructor

theorem exists_of_mem_collect {α β : Type} {f : α → Option β} {values : List α} {results : List β}
    (h : collect f values = some results) {result : β} (hresult : result ∈ results) :
    ∃ value ∈ values, f value = some result := by
  have hmem : some result ∈ results.map some := List.mem_map_of_mem hresult
  rw [← collect_eq_some_iff.mp h] at hmem
  exact List.mem_map.mp hmem

/-- Two passes over lists related position by position have results so related. -/
theorem forall₂_collect {α β γ δ : Type} {f : α → Option β} {g : γ → Option δ} {S : α → γ → Prop}
    {R : β → δ → Prop} {as : List α} {bs : List γ} {xs : List β} {ys : List δ}
    (hxs : collect f as = some xs) (hys : collect g bs = some ys) (h : List.Forall₂ S as bs)
    (hstep : ∀ a ∈ as, ∀ b ∈ bs, S a b → ∀ x y, f a = some x → g b = some y → R x y) :
    List.Forall₂ R xs ys := by
  induction h generalizing xs ys with
  | nil =>
    obtain rfl := Option.some.inj hxs
    obtain rfl := Option.some.inj hys
    exact .nil
  | @cons a b as bs hab _ ih =>
    rw [collect, Option.bind_eq_some_iff] at hxs hys
    obtain ⟨x, hx, hxs⟩ := hxs
    obtain ⟨y, hy, hys⟩ := hys
    obtain ⟨restX, hrestX, rfl⟩ := Option.map_eq_some_iff.mp hxs
    obtain ⟨restY, hrestY, rfl⟩ := Option.map_eq_some_iff.mp hys
    refine .cons (hstep a List.mem_cons_self b List.mem_cons_self hab x y hx hy) ?_
    exact ih hrestX hrestY fun a ha b hb =>
      hstep a (List.mem_cons_of_mem _ ha) b (List.mem_cons_of_mem _ hb)

section Keyed

variable {R : String × CanonicalValue → String × CanonicalValue → Prop}
  {xs ys : List (String × CanonicalValue)}

theorem forall₂_insert {x y : String × CanonicalValue} (hkey : ∀ x y, R x y → x.1 = y.1)
    (hxy : R x y) (h : List.Forall₂ R xs ys) :
    List.Forall₂ R (SortedAssoc.insert x.1 x.2 xs) (SortedAssoc.insert y.1 y.2 ys) := by
  obtain ⟨key, v⟩ := x
  obtain ⟨key', w⟩ := y
  obtain rfl : key = key' := hkey _ _ hxy
  induction h with
  | nil => exact .cons hxy .nil
  | @cons a b xs ys hab hrest ih =>
    obtain ⟨k, c⟩ := a
    obtain ⟨k', d⟩ := b
    obtain rfl : k = k' := hkey _ _ hab
    rw [SortedAssoc.insert, SortedAssoc.insert]
    dsimp only
    split
    · exact .cons hxy (.cons hab hrest)
    · exact .cons hxy hrest
    · exact .cons hab ih

/-- Fields collected in order stay related name by name. -/
theorem forall₂_ofList (hkey : ∀ x y, R x y → x.1 = y.1) (h : List.Forall₂ R xs ys) :
    List.Forall₂ R (ofList xs) (ofList ys) := by
  have hfold : ∀ {maps maps' : List (String × CanonicalValue)}, List.Forall₂ R maps maps' →
      List.Forall₂ R (xs.foldl (fun map entry => SortedAssoc.insert entry.1 entry.2 map) maps)
        (ys.foldl (fun map entry => SortedAssoc.insert entry.1 entry.2 map) maps') := by
    induction h with
    | nil => exact id
    | cons hxy _ ih => exact fun hmaps => ih (forall₂_insert hkey hxy hmaps)
  exact hfold .nil

end Keyed

section Types

variable {set : RegistrySet} {component : ResolvedComponent} {x y : CanonicalValue}

theorem plainName_of_find (hset : PlainVariants set) {id : String}
    (hid : lookup set.components id = some component) {variants : List Variant}
    (hdeclares : Declares component.component (.taggedUnion variants)) {name : String}
    {payload : Option TypeRef}
    (hfind : variants.find? (fun variant => variant.1 == name) = some (name, payload)) :
    PlainName name :=
  hset id component hid variants hdeclares (name, payload) (List.mem_of_find?_eq_some hfind)

/-- What a canonical value of a tagged union is: a variant with a plain name, and its payload. -/
theorem canonical_taggedUnion (hset : PlainVariants set) {id : String}
    (hid : lookup set.components id = some component) {variants : List Variant}
    (hdeclares : Declares component.component (.taggedUnion variants)) {value : AnyValue}
    (h : Accepted set component (.taggedUnion variants) value)
    (hx : canonicalValue set component (.taggedUnion variants) value = some x) :
    ∃ name payload content, value = .kvList [(name, payload)] ∧ x = .variant name content ∧
      PlainName name ∧
      ((∃ type, variants.find? (fun variant => variant.1 == name) = some (name, some type) ∧
          Accepted set component type payload ∧
          canonicalValue set component type payload = some content) ∨
        (variants.find? (fun variant => variant.1 == name) = some (name, none) ∧
          content = .unit)) := by
  rcases h.taggedUnion with ⟨name, payload, type, rfl, hfind, hpayload⟩ | ⟨name, rfl, hfind⟩
  · rw [canonicalValue_payload hfind] at hx
    obtain ⟨content, hcontent, rfl⟩ := Option.map_eq_some_iff.mp hx
    exact ⟨name, payload, content, rfl, rfl, plainName_of_find hset hid hdeclares hfind,
      .inl ⟨type, hfind, hpayload, hcontent⟩⟩
  · rw [canonicalValue_bare hfind] at hx
    obtain ⟨content, hcontent, rfl⟩ := Option.map_eq_some_iff.mp hx
    refine ⟨name, _, content, rfl, rfl, plainName_of_find hset hid hdeclares hfind,
      .inr ⟨hfind, ?_⟩⟩
    exact (Option.some.inj hcontent).symm

/-- What a canonical value of an optional type is. -/
theorem canonical_optional {inner : TypeRef} {value : AnyValue}
    (h : Accepted set component (.optional inner) value)
    (hx : canonicalValue set component (.optional inner) value = some x) :
    x = .variant "None" .unit ∨ ∃ payload content, value = .kvList [("Some", payload)] ∧
      x = .variant "Some" content ∧ Accepted set component inner payload ∧
        canonicalValue set component inner payload = some content := by
  rcases h.optional with rfl | ⟨payload, rfl, hpayload⟩
  · rw [canonicalValue_optional_none] at hx
    obtain ⟨content, hcontent, rfl⟩ := Option.map_eq_some_iff.mp hx
    left
    rw [← Option.some.inj hcontent]
  · rw [canonicalValue_optional_some] at hx
    obtain ⟨content, hcontent, rfl⟩ := Option.map_eq_some_iff.mp hx
    exact .inr ⟨payload, content, rfl, rfl, hpayload, hcontent⟩

theorem plainName_none : PlainName "None" := by
  refine ⟨fun c hc => ?_, fun c hc => ?_⟩
  · rintro rfl
    exact absurd hc (by decide)
  cases hc
  decide

theorem plainName_some : PlainName "Some" := by
  refine ⟨fun c hc => ?_, fun c hc => ?_⟩
  · rintro rfl
    exact absurd hc (by decide)
  cases hc
  decide

/-- What a named type unfolds to is declared by the component that has it. -/
theorem declares_of_unfolds {name : String} {componentId registryId : Option String}
    {target : ResolvedComponent} {definition : NamedType}
    (h : Unfolds set component name componentId registryId target definition) :
    Declares target.component definition.asType :=
  (Channel.definition (List.mem_of_find?_eq_some h.find)).declares

/-- The name of a canonical variant is plain. -/
theorem plainHead_of_canonical (hset : PlainVariants set) {type : TypeRef} {value : AnyValue}
    {id : String} (hid : lookup set.components id = some component)
    (hdeclares : Declares component.component type) (h : Accepted set component type value)
    (hx : canonicalValue set component type value = some x) : PlainHead x := by
  induction component, type, value using value_induction generalizing id with
  | step component type value _ unfoldNamed =>
    intro name payload heq
    subst heq
    cases type with
    | primitive primitive =>
      rw [canonicalValue_primitive] at hx
      obtain ⟨form, -, hform⟩ := form_of_canonicalPrimitive hx
      cases hform
    | named typeName componentId registryId =>
      obtain ⟨target, definition, hunfolds, hvalue⟩ := h.named
      rw [canonicalValue_named hunfolds] at hx
      exact unfoldNamed rfl target definition hunfolds.member (declares_of_unfolds hunfolds) hvalue hx
        name payload rfl
    | collection items ordered unique =>
      obtain ⟨values, rfl, -⟩ := h.collection
      rw [canonicalValue_collection] at hx
      obtain ⟨results, -, heq⟩ := Option.map_eq_some_iff.mp hx
      cases heq
    | map keyType valueType ordered =>
      rcases isStringType_cases ordered keyType with hstring | hstring
      · obtain ⟨entries, rfl, -⟩ := h.map_kvList hstring
        rw [canonicalValue_map_kvList hstring] at hx
        obtain ⟨results, -, heq⟩ := Option.map_eq_some_iff.mp hx
        cases heq
      · obtain ⟨entries, pairs, rfl, -⟩ := h.map_array hstring
        rw [canonicalValue_map_array hstring] at hx
        obtain ⟨results, -, heq⟩ := Option.map_eq_some_iff.mp hx
        split at heq <;> cases heq
    | tuple items =>
      obtain ⟨values, rfl, hlength, -⟩ := h.tuple
      rw [canonicalValue_tuple hlength] at hx
      obtain ⟨results, -, heq⟩ := Option.map_eq_some_iff.mp hx
      cases heq
    | record fields =>
      obtain ⟨entries, rfl, -⟩ := h.record
      rw [canonicalValue_record] at hx
      obtain ⟨results, -, heq⟩ := Option.map_eq_some_iff.mp hx
      cases heq
    | optional inner =>
      rcases canonical_optional h hx with heq | ⟨payload', content, -, heq, -⟩
      · rw [(CanonicalValue.variant.inj heq).1]
        exact plainName_none
      · rw [(CanonicalValue.variant.inj heq).1]
        exact plainName_some
    | taggedUnion variants =>
      obtain ⟨name', payload', content, -, heq, hname, -⟩ :=
        canonical_taggedUnion hset hid hdeclares h hx
      rw [(CanonicalValue.variant.inj heq).1]
      exact hname

theorem mem_of_mem_ordered {ordered : Bool} {values : List CanonicalValue} {value : CanonicalValue}
    (h : value ∈ if ordered then values else sort values) : value ∈ values := by
  split at h
  · exact h
  · exact (sort_perm values).mem_iff.mp h

/-- Whatever the type accepts besides has a canonical value of the same shape. -/
def Shaped (set : RegistrySet) (component : ResolvedComponent) (type : TypeRef) (left : AnyValue) :
    Prop :=
  ∀ right x y, Accepted set component type left → Accepted set component type right →
    canonicalValue set component type left = some x →
    canonicalValue set component type right = some y → SameShape x y

/-- Every canonical value of the type has a plain name, if it is a variant. -/
def PlainType (set : RegistrySet) (component : ResolvedComponent) (type : TypeRef) : Prop :=
  ∀ value x, Accepted set component type value →
    canonicalValue set component type value = some x → PlainHead x

theorem plainType (hset : PlainVariants set) {type : TypeRef} {id : String}
    (hid : lookup set.components id = some component)
    (hdeclares : Declares component.component type) : PlainType set component type :=
  fun _ _ h hx => plainHead_of_canonical hset hid hdeclares h hx

theorem shaped_collection {items : TypeRef} {ordered unique : Bool} {values : List AnyValue}
    (hplain : PlainType set component items) (hshaped : ∀ v ∈ values, Shaped set component items v) :
    Shaped set component (.collection items ordered unique) (.array values) := by
  intro right x y hleft hright hx hy
  obtain ⟨_, heq, hvalues, -⟩ := hleft.collection
  obtain rfl := AnyValue.array.inj heq
  obtain ⟨values', rfl, hvalues', -⟩ := hright.collection
  rw [canonicalValue_collection] at hx hy
  obtain ⟨xs, hxs, rfl⟩ := Option.map_eq_some_iff.mp hx
  obtain ⟨ys, hys, rfl⟩ := Option.map_eq_some_iff.mp hy
  refine .list (fun a ha => ?_) (fun b hb => ?_) fun pair hpair => ?_
  · obtain ⟨v, hv, hcanonical⟩ := exists_of_mem_collect hxs (mem_of_mem_ordered ha)
    exact hplain v a (hvalues v hv) hcanonical
  · obtain ⟨v, hv, hcanonical⟩ := exists_of_mem_collect hys (mem_of_mem_ordered hb)
    exact hplain v b (hvalues' v hv) hcanonical
  · obtain ⟨ha, hb⟩ := List.of_mem_zip hpair
    obtain ⟨v, hv, hcanonical⟩ := exists_of_mem_collect hxs (mem_of_mem_ordered ha)
    obtain ⟨w, hw, hcanonical'⟩ := exists_of_mem_collect hys (mem_of_mem_ordered hb)
    exact hshaped v hv w _ _ (hvalues v hv) (hvalues' w hw) hcanonical hcanonical'

/-- An entry of a canonical map with text keys, and where it comes from. -/
theorem entry_of_mem {valueType : TypeRef} {entries : List (String × AnyValue)}
    {results : List (CanonicalValue × CanonicalValue)}
    (hresults : collect (fun entry : String × AnyValue =>
      (canonicalValue set component valueType entry.2).map fun value =>
        (CanonicalValue.string entry.1, value)) entries = some results)
    {result : CanonicalValue × CanonicalValue} (h : result ∈ ofList results) :
    ∃ entry ∈ entries, result.1 = .string entry.1 ∧
      canonicalValue set component valueType entry.2 = some result.2 := by
  obtain ⟨entry, hentry, hmap⟩ := exists_of_mem_collect hresults (mem_of_mem_ofList h)
  obtain ⟨value, hvalue, rfl⟩ := Option.map_eq_some_iff.mp hmap
  exact ⟨entry, hentry, rfl, hvalue⟩

theorem plainHead_string {text : String} {x : CanonicalValue} (h : x = .string text) :
    PlainHead x := by
  rintro name payload rfl
  cases h

theorem shaped_map_kvList {keyType valueType : TypeRef} {ordered : Bool}
    (hstring : (!ordered && isStringType keyType) = true) {entries : List (String × AnyValue)}
    (hshaped : ∀ entry ∈ entries, Shaped set component valueType entry.2) :
    Shaped set component (.map keyType valueType ordered) (.kvList entries) := by
  intro right x y hleft hright hx hy
  obtain ⟨_, heq, hentries⟩ := hleft.map_kvList hstring
  obtain rfl := AnyValue.kvList.inj heq
  obtain ⟨entries', rfl, hentries'⟩ := hright.map_kvList hstring
  rw [canonicalValue_map_kvList hstring] at hx hy
  obtain ⟨xs, hxs, rfl⟩ := Option.map_eq_some_iff.mp hx
  obtain ⟨ys, hys, rfl⟩ := Option.map_eq_some_iff.mp hy
  refine .map (fun a ha => ?_) (fun b hb => ?_) (fun pair hpair => ?_) fun pair hpair => ?_
  · obtain ⟨entry, -, hkey, -⟩ := entry_of_mem hxs ha
    exact plainHead_string hkey
  · obtain ⟨entry, -, hkey, -⟩ := entry_of_mem hys hb
    exact plainHead_string hkey
  · obtain ⟨entry, -, hkey, -⟩ := entry_of_mem hxs (List.of_mem_zip hpair).1
    obtain ⟨entry', -, hkey', -⟩ := entry_of_mem hys (List.of_mem_zip hpair).2
    rw [hkey, hkey']
    exact .string _ _
  · obtain ⟨entry, hentry, -, hvalue⟩ := entry_of_mem hxs (List.of_mem_zip hpair).1
    obtain ⟨entry', hentry', -, hvalue'⟩ := entry_of_mem hys (List.of_mem_zip hpair).2
    exact hshaped entry hentry _ _ _ (hentries entry hentry) (hentries' entry' hentry') hvalue
      hvalue'

/-- The two halves of an entry lie inside the array of entries. -/
theorem sizeOf_pair_lt {entries : List AnyValue} {pairs : List (AnyValue × AnyValue)}
    (hpairs : entries.map mapEntry = pairs.map some) {pair : AnyValue × AnyValue}
    (h : pair ∈ pairs) : sizeOf pair.1 < sizeOf (AnyValue.array entries) ∧
      sizeOf pair.2 < sizeOf (AnyValue.array entries) := by
  obtain ⟨entry, hentry, hmap⟩ : ∃ entry ∈ entries, mapEntry entry = some pair := by
    have hmem : some pair ∈ entries.map mapEntry := hpairs ▸ List.mem_map_of_mem h
    exact List.mem_map.mp hmem
  have hsize := AnyValue.sizeOf_lt_array hentry
  obtain ⟨hkey, hvalue⟩ := mapEntry_sizeOf_lt hmap
  exact ⟨hkey.trans hsize, hvalue.trans hsize⟩

theorem shaped_map_array {keyType valueType : TypeRef} {ordered : Bool}
    (hstring : (!ordered && isStringType keyType) = false) {entries : List AnyValue}
    (hplain : PlainType set component keyType)
    (hkeys : ∀ value, sizeOf value < sizeOf (AnyValue.array entries) →
      Shaped set component keyType value)
    (hvalues : ∀ value, sizeOf value < sizeOf (AnyValue.array entries) →
      Shaped set component valueType value) :
    Shaped set component (.map keyType valueType ordered) (.array entries) := by
  intro right x y hleft hright hx hy
  obtain ⟨_, pairs, heq, hpairs, haccepted, -⟩ := hleft.map_array hstring
  obtain rfl := AnyValue.array.inj heq
  obtain ⟨entries', pairs', rfl, hpairs', haccepted', -⟩ := hright.map_array hstring
  rw [canonicalValue_map_array hstring, collect_canonicalEntry hpairs] at hx
  rw [canonicalValue_map_array hstring, collect_canonicalEntry hpairs'] at hy
  obtain ⟨xs, hxs, rfl⟩ := Option.map_eq_some_iff.mp hx
  obtain ⟨ys, hys, rfl⟩ := Option.map_eq_some_iff.mp hy
  have hheads : ∀ {pairs : List (AnyValue × AnyValue)} {results},
      (∀ pair ∈ pairs, Accepted set component keyType pair.1 ∧
        Accepted set component valueType pair.2) →
      collect (canonicalPair set component keyType valueType) pairs = some results →
      ∀ result ∈ results, PlainHead result.1 := by
    intro pairs results hall hresults result hresult
    obtain ⟨pair, hpair, hcanonical⟩ := exists_of_mem_collect hresults hresult
    exact hplain _ _ (hall pair hpair).1 (canonicalPair_eq_some.mp hcanonical).1
  have hshapes : ∀ a ∈ xs, ∀ b ∈ ys, SameShape a.1 b.1 ∧ SameShape a.2 b.2 := by
    intro a ha b hb
    obtain ⟨pair, hpair, hcanonical⟩ := exists_of_mem_collect hxs ha
    obtain ⟨pair', hpair', hcanonical'⟩ := exists_of_mem_collect hys hb
    obtain ⟨hkey, hvalue⟩ := canonicalPair_eq_some.mp hcanonical
    obtain ⟨hkey', hvalue'⟩ := canonicalPair_eq_some.mp hcanonical'
    obtain ⟨hkeySize, hvalueSize⟩ := sizeOf_pair_lt hpairs hpair
    exact ⟨hkeys pair.1 hkeySize _ _ _ (haccepted pair hpair).1 (haccepted' pair' hpair').1 hkey
        hkey',
      hvalues pair.2 hvalueSize _ _ _ (haccepted pair hpair).2 (haccepted' pair' hpair').2 hvalue
        hvalue'⟩
  cases ordered with
  | true =>
    have hall : ∀ pair ∈ xs.zip ys, SameShape pair.1.1 pair.2.1 ∧ SameShape pair.1.2 pair.2.2 :=
      fun pair hpair => hshapes _ (List.of_mem_zip hpair).1 _ (List.of_mem_zip hpair).2
    exact .orderedMap (hheads haccepted hxs) (hheads haccepted' hys)
      (fun pair hpair => (hall pair hpair).1) fun pair hpair => (hall pair hpair).2
  | false =>
    have hall : ∀ pair ∈ (ofList xs).zip (ofList ys),
        SameShape pair.1.1 pair.2.1 ∧ SameShape pair.1.2 pair.2.2 := fun pair hpair =>
      hshapes _ (mem_of_mem_ofList (List.of_mem_zip hpair).1) _
        (mem_of_mem_ofList (List.of_mem_zip hpair).2)
    exact .map (fun a ha => hheads haccepted hxs a (mem_of_mem_ofList ha))
      (fun b hb => hheads haccepted' hys b (mem_of_mem_ofList hb))
      (fun pair hpair => (hall pair hpair).1) fun pair hpair => (hall pair hpair).2

theorem shaped_tuple {items : List TypeRef} {values : List AnyValue}
    (hshaped : ∀ v ∈ values, ∀ type ∈ items, Shaped set component type v) :
    Shaped set component (.tuple items) (.array values) := by
  intro right x y hleft hright hx hy
  obtain ⟨_, heq, hlength, hvalues⟩ := hleft.tuple
  obtain rfl := AnyValue.array.inj heq
  obtain ⟨values', rfl, hlength', hvalues'⟩ := hright.tuple
  rw [canonicalValue_tuple hlength] at hx
  rw [canonicalValue_tuple hlength'] at hy
  obtain ⟨xs, hxs, rfl⟩ := Option.map_eq_some_iff.mp hx
  obtain ⟨ys, hys, rfl⟩ := Option.map_eq_some_iff.mp hy
  have hpositions : List.Forall₂ (fun p q : AnyValue × TypeRef => p.2 = q.2)
      (values.zip items) (values'.zip items) := by
    rw [List.forall₂_iff_get]
    refine ⟨by rw [List.length_zip, List.length_zip, hlength, hlength'], fun i hi hi' => ?_⟩
    simp
  have hat : ∀ {values : List AnyValue}, (∀ i (h : i < values.length) (h' : i < items.length),
      Accepted set component items[i] values[i]) →
      ∀ p ∈ values.zip items, Accepted set component p.2 p.1 := by
    intro values h p hp
    obtain ⟨i, hi, rfl⟩ := List.getElem_of_mem hp
    rw [List.length_zip] at hi
    rw [List.getElem_zip]
    exact h i (by omega) (by omega)
  have hrelated : List.Forall₂ SameShape xs ys := forall₂_collect hxs hys hpositions (by
    rintro ⟨v, type⟩ hp ⟨w, type'⟩ hq rfl a b ha hb
    obtain ⟨hv, htype⟩ := List.of_mem_zip hp
    exact hshaped v hv type htype w a b (hat hvalues _ hp) (hat hvalues' _ hq) ha hb)
  rw [List.forall₂_iff_zip] at hrelated
  exact .tuple hrelated.1 fun pair hpair => hrelated.2 hpair

theorem shaped_record {fields : List NamedValue} {entries : List (String × AnyValue)}
    (hshaped : ∀ field ∈ fields, ∀ value, lookup entries field.1 = some value →
      Shaped set component field.2 value) :
    Shaped set component (.record fields) (.kvList entries) := by
  intro right x y hleft hright hx hy
  obtain ⟨_, heq, -, hfields⟩ := hleft.record
  obtain rfl := AnyValue.kvList.inj heq
  obtain ⟨entries', rfl, -, hfields'⟩ := hright.record
  rw [canonicalValue_record] at hx hy
  obtain ⟨xs, hxs, rfl⟩ := Option.map_eq_some_iff.mp hx
  obtain ⟨ys, hys, rfl⟩ := Option.map_eq_some_iff.mp hy
  have hsame : List.Forall₂ (· = ·) fields fields := List.forall₂_same.mpr fun _ _ => rfl
  have hrelated : List.Forall₂ (fun a b => a.1 = b.1 ∧ SameShape a.2 b.2) xs ys :=
    forall₂_collect hxs hys hsame (by
      rintro field hfield _ - rfl a b ha hb
      obtain ⟨v, canonical, hlookup, hcanonical, rfl⟩ := canonicalField_eq_some.mp ha
      obtain ⟨w, canonical', hlookup', hcanonical', rfl⟩ := canonicalField_eq_some.mp hb
      exact ⟨rfl, hshaped field hfield v hlookup w _ _ (hfields field hfield v hlookup)
        (hfields' field hfield w hlookup') hcanonical hcanonical'⟩)
  have hordered := forall₂_ofList (fun _ _ h => h.1) hrelated
  rw [List.forall₂_iff_zip] at hordered
  exact .record hordered.1 (fun pair hpair => (hordered.2 hpair).1)
    fun pair hpair => (hordered.2 hpair).2

theorem shaped_optional {inner : TypeRef} {left : AnyValue}
    (hshaped : ∀ payload, left = .kvList [("Some", payload)] → Shaped set component inner payload) :
    Shaped set component (.optional inner) left := by
  intro right x y hleft hright hx hy
  rcases canonical_optional hleft hx with rfl | ⟨payload, content, rfl, rfl, hpayload, hcontent⟩
  · rcases canonical_optional hright hy with rfl | ⟨payload', content', rfl, rfl, -, -⟩
    · exact .variant plainName_none plainName_none fun _ => .unit
    · exact .variant plainName_none plainName_some fun h => absurd h (by decide)
  · rcases canonical_optional hright hy with
      rfl | ⟨payload', content', rfl, rfl, hpayload', hcontent'⟩
    · exact .variant plainName_some plainName_none fun h => absurd h (by decide)
    · exact .variant plainName_some plainName_some fun _ =>
        hshaped payload rfl payload' _ _ hpayload hpayload' hcontent hcontent'

theorem shaped_taggedUnion (hset : PlainVariants set) {id : String}
    (hid : lookup set.components id = some component) {variants : List Variant}
    (hdeclares : Declares component.component (.taggedUnion variants)) {left : AnyValue}
    (hshaped : ∀ name payload type, left = .kvList [(name, payload)] →
      (name, some type) ∈ variants → Shaped set component type payload) :
    Shaped set component (.taggedUnion variants) left := by
  intro right x y hleft hright hx hy
  obtain ⟨name, payload, content, rfl, rfl, hname, hcontent⟩ :=
    canonical_taggedUnion hset hid hdeclares hleft hx
  obtain ⟨name', payload', content', rfl, rfl, hname', hcontent'⟩ :=
    canonical_taggedUnion hset hid hdeclares hright hy
  refine .variant hname hname' ?_
  rintro rfl
  rcases hcontent with ⟨type, hfind, hpayload, hcanonical⟩ | ⟨hfind, rfl⟩
  · rcases hcontent' with ⟨type', hfind', hpayload', hcanonical'⟩ | ⟨hfind', rfl⟩
    · obtain rfl : type = type' := by
        have hsame := (Prod.mk.inj (Option.some.inj (hfind.symm.trans hfind'))).2
        exact Option.some.inj hsame
      exact hshaped name payload type rfl (List.mem_of_find?_eq_some hfind) payload' _ _ hpayload
        hpayload' hcanonical hcanonical'
    · cases hfind.symm.trans hfind'
  · rcases hcontent' with ⟨type', hfind', -, -⟩ | ⟨-, rfl⟩
    · cases hfind.symm.trans hfind'
    · exact .unit

/-- Canonical values of one type have one shape. -/
theorem shaped (hset : PlainVariants set) {type : TypeRef} {left : AnyValue} {id : String}
    (hid : lookup set.components id = some component)
    (hdeclares : Declares component.component type) : Shaped set component type left := by
  induction component, type, left using value_induction generalizing id with
  | step component type left ih unfoldNamed =>
    intro right x y hleft hright hx hy
    cases type with
    | primitive name =>
      rw [canonicalValue_primitive] at hx hy
      exact sameShape_primitive hx hy
    | named name componentId registryId =>
      obtain ⟨target, definition, hunfolds, hvalue⟩ := hleft.named
      obtain ⟨target', definition', hunfolds', hvalue'⟩ := hright.named
      obtain rfl := Option.some.inj (hunfolds.member.symm.trans hunfolds'.member)
      obtain rfl := Option.some.inj (hunfolds.find.symm.trans hunfolds'.find)
      rw [canonicalValue_named hunfolds] at hx hy
      exact unfoldNamed rfl target definition hunfolds.member (declares_of_unfolds hunfolds) right _ _
        hvalue hvalue' hx hy
    | collection items ordered unique =>
      have hitems := hdeclares.part (.items items ordered unique)
      obtain ⟨values, rfl, -⟩ := hleft.collection
      exact shaped_collection (plainType hset hid hitems) (fun v hv =>
        ih component items v (AnyValue.sizeOf_lt_array hv) hid hitems) right x y hleft hright hx hy
    | map keyType valueType ordered =>
      have hkeyType := hdeclares.part (.keys keyType valueType ordered)
      have hvalueType := hdeclares.part (.values keyType valueType ordered)
      rcases isStringType_cases ordered keyType with hstring | hstring
      · obtain ⟨entries, rfl, -⟩ := hleft.map_kvList hstring
        exact shaped_map_kvList hstring (fun entry hentry => ih component valueType entry.2
          (AnyValue.sizeOf_lt_kvList hentry) hid hvalueType) right x y hleft hright hx hy
      · obtain ⟨entries, pairs, rfl, -⟩ := hleft.map_array hstring
        exact shaped_map_array hstring (plainType hset hid hkeyType)
          (fun value hvalue => ih component keyType value hvalue hid hkeyType)
          (fun value hvalue => ih component valueType value hvalue hid hvalueType) right x y hleft
          hright hx hy
    | tuple items =>
      obtain ⟨values, rfl, -⟩ := hleft.tuple
      exact shaped_tuple (fun v hv type htype => ih component type v (AnyValue.sizeOf_lt_array hv)
        hid (hdeclares.part (.item htype))) right x y hleft hright hx hy
    | record fields =>
      obtain ⟨entries, rfl, -⟩ := hleft.record
      exact shaped_record (fun field hfield value hvalue => ih component field.2 value
        (AnyValue.sizeOf_lt_of_lookup hvalue) hid (hdeclares.part (.field hfield))) right x y
        hleft hright hx hy
    | optional inner =>
      refine shaped_optional (fun payload heq => ?_) right x y hleft hright hx hy
      rw [heq] at ih
      exact ih component inner payload (AnyValue.sizeOf_lt_head _ _ _) hid
        (hdeclares.part (.value inner))
    | taggedUnion variants =>
      refine shaped_taggedUnion hset hid hdeclares (fun name payload type heq htype => ?_) right x y
        hleft hright hx hy
      rw [heq] at ih
      exact ih component type payload (AnyValue.sizeOf_lt_head _ _ _) hid
        (hdeclares.part (.payload htype))

end Types

end SpecGate.CanonicalTexts

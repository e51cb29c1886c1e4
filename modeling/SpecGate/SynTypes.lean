import SpecGate.RustTypes

/-!
Rust types as macros see them, and their texts. A text spells a type when the tokens of the
type stand in it in order, with whitespace wherever two words would run together. Discovery
reads a type back from any text that spells it, as long as no list of generic arguments is
empty or ends in a comma.
-/
namespace SpecGate.SynTypes

open TypeExpressions RustTypes

variable {classes : CharClasses}

/-! ### Syntax -/

structure Ident (classes : CharClasses) where
  text : String
  nonempty : text.toList ≠ []
  plain : ∀ c ∈ text.toList, isSpecial c = false ∧ classes.isWhitespace c = false ∧ c ≠ ':'
  no_quote : text.toList.head? ≠ some '\''
  not_mut : text ≠ "mut"

structure Lifetime (classes : CharClasses) where
  text : String
  quote : text.toList.head? = some '\''
  plain : ∀ c ∈ text.toList, isSpecial c = false ∧ classes.isWhitespace c = false

/-- A type as written. Of a path only the last segment may carry arguments. -/
inductive SynType (classes : CharClasses) where
  | path (leading : Bool) (modules : List (Ident classes)) (name : Ident classes)
  | generic (leading : Bool) (modules : List (Ident classes)) (name : Ident classes)
      (args : List (SynType classes)) (trailing : Bool)
  | reference (lifetime : Option (Lifetime classes)) (mutable : Bool) (inner : SynType classes)
  | slice (inner : SynType classes)
  | paren (inner : SynType classes)
  | tuple (elems : List (SynType classes)) (trailing : Bool)

/-- Whether the segments of a path are tokens of their own. -/
inductive PathStyle where
  | apart | joined

/-! ### Tokens -/

/-- The modules of a path and its name, without a break. -/
def joinedPath (modules : List (Ident classes)) (name : Ident classes) : List Char :=
  modules.flatMap (fun segment => segment.text.toList ++ [':', ':']) ++ name.text.toList

def pathTokens (style : PathStyle) (leading : Bool) (modules : List (Ident classes))
    (name : Ident classes) : List String :=
  match style with
  | .apart =>
      (if leading then ["::"] else []) ++ modules.flatMap (fun segment => [segment.text, "::"]) ++
        [name.text]
  | .joined => [String.ofList ((if leading then [':', ':'] else []) ++ joinedPath modules name)]

def qualifiers (lifetime : Option (Lifetime classes)) (mutable : Bool) : List String :=
  (lifetime.map Lifetime.text).toList ++ if mutable then ["mut"] else []

mutual

def tokens (style : PathStyle) : SynType classes → List String
  | .path leading modules name => pathTokens style leading modules name
  | .generic leading modules name args trailing =>
      pathTokens style leading modules name ++ "<" :: listTokens style ">" args trailing
  | .reference lifetime mutable inner => "&" :: qualifiers lifetime mutable ++ tokens style inner
  | .slice inner => "[" :: tokens style inner ++ ["]"]
  | .paren inner => "(" :: tokens style inner ++ [")"]
  | .tuple elems trailing => "(" :: listTokens style ")" elems (trailing || elems.length == 1)
termination_by structural type => type

/-- Types between commas, to the closing sign. -/
def listTokens (style : PathStyle) (close : String) :
    List (SynType classes) → Bool → List String
  | [], _ => [close]
  | type :: rest, trailing =>
      tokens style type ++ (if rest.isEmpty && !trailing then [] else [","]) ++
        listTokens style close rest trailing
termination_by structural types => types

end

/-! ### What discovery reads -/

mutual

/-- No list of generic arguments is empty or ends in a comma. -/
def readable : SynType classes → Bool
  | .path .. => true
  | .generic _ _ _ args trailing => !args.isEmpty && !trailing && readableAll args
  | .reference _ _ inner | .slice inner | .paren inner => readable inner
  | .tuple elems _ => readableAll elems
termination_by structural type => type

def readableAll : List (SynType classes) → Bool
  | [] => true
  | type :: rest => readable type && readableAll rest
termination_by structural types => types

end

mutual

def rustType : SynType classes → RustType
  | .path _ _ name => .named name.text []
  | .generic _ _ name args _ => .named name.text (rustTypes args)
  | .reference _ _ inner => .ref (rustType inner)
  | .slice inner => .slice (rustType inner)
  | .paren inner => rustType inner
  | .tuple [] _ => .named "()" []
  | .tuple (first :: rest) _ => .tuple (rustType first :: rustTypes rest)
termination_by structural type => type

def rustTypes : List (SynType classes) → List RustType
  | [] => []
  | type :: rest => rustType type :: rustTypes rest
termination_by structural types => types

end

/-! ### Texts -/

/-- No word runs on into the text. -/
def Breaks (classes : CharClasses) (text : List Char) : Prop :=
  ∀ c ∈ text.head?, isSpecial c = true ∨ classes.isWhitespace c = true

def IsWord (classes : CharClasses) (word : List Char) : Prop :=
  word ≠ [] ∧ ∀ c ∈ word, isSpecial c = false ∧ classes.isWhitespace c = false

/-- The tokens stand in the text in order. -/
inductive Spells (classes : CharClasses) : List Char → List String → Prop
  | nil : Spells classes [] []
  | space {c : Char} {text : List Char} {tokens : List String} :
      isSpecial c = false → classes.isWhitespace c = true → Spells classes text tokens →
        Spells classes (c :: text) tokens
  | sign {c : Char} {text : List Char} {tokens : List String} :
      isSpecial c = true → Spells classes text tokens →
        Spells classes (c :: text) (c.toString :: tokens)
  | word {word text : List Char} {tokens : List String} :
      IsWord classes word → Breaks classes text → Spells classes text tokens →
        Spells classes (word ++ text) (String.ofList word :: tokens)

theorem tokenizeFrom_word {word : List Char} (hword : IsWord classes word) (text : List Char)
    (read : List Char) :
    tokenizeFrom classes read (word ++ text) = tokenizeFrom classes (read ++ word) text := by
  obtain ⟨-, hplain⟩ := hword
  induction word generalizing read with
  | nil => rw [List.nil_append, List.append_nil]
  | cons c rest ih =>
    obtain ⟨hspecial, hspace⟩ := hplain c List.mem_cons_self
    rw [List.cons_append, tokenizeFrom, if_neg (by rw [hspecial]; exact Bool.false_ne_true),
      if_neg (by rw [hspace]; exact Bool.false_ne_true),
      ih (read ++ [c]) (fun other hother => hplain other (List.mem_cons_of_mem _ hother)),
      List.append_assoc]
    rfl

/-- What follows a word does not belong to it. -/
theorem tokenizeFrom_breaks {text : List Char} (h : Breaks classes text) (word : List Char) :
    tokenizeFrom classes word text = flush word ++ tokenizeFrom classes [] text := by
  cases text with
  | nil => exact (List.append_nil _).symm
  | cons c rest =>
    rw [tokenizeFrom, tokenizeFrom]
    by_cases hspecial : isSpecial c = true
    · rw [if_pos hspecial, if_pos hspecial]
      rfl
    · have hspace := (h c rfl).resolve_left hspecial
      rw [if_neg hspecial, if_pos hspace, if_neg hspecial, if_pos hspace]
      rfl

theorem Spells.tokenize {text : List Char} {tokens : List String}
    (h : Spells classes text tokens) : tokenizeType classes text = tokens := by
  unfold tokenizeType
  induction h with
  | nil => rfl
  | space hspecial hspace _ ih =>
    rw [tokenizeFrom, if_neg (by rw [hspecial]; exact Bool.false_ne_true), if_pos hspace, ih]
    rfl
  | sign hspecial _ ih =>
    rw [tokenizeFrom, if_pos hspecial, ih]
    rfl
  | word hword hbreaks _ ih =>
    rw [tokenizeFrom_word hword, List.nil_append, tokenizeFrom_breaks hbreaks, ih, flush,
      if_neg (by simpa using hword.1)]
    rfl

/-- The characters of a text that are no whitespace. -/
def solid (classes : CharClasses) (text : List Char) : List Char :=
  text.filter (fun c => !classes.isWhitespace c)

/-- Of a text that is given, every character is checked. -/
theorem forall_of_all {text : List Char} {p : Char → Prop} [DecidablePred p]
    (h : text.all (fun c => decide (p c)) = true) : ∀ c ∈ text, p c :=
  fun c hc => of_decide_eq_true (List.all_eq_true.mp h c hc)

theorem special_not_whitespace {c : Char} (h : isSpecial c = true) :
    classes.isWhitespace c = false := by
  have hmem : c ∈ ['<', '>', ',', '&', '[', ']', '(', ')'] := List.contains_iff_mem.mp h
  have hall : ∀ c ∈ ['<', '>', ',', '&', '[', ']', '(', ')'],
      c.toNat < 128 ∧ ¬ (c.toNat = 32 ∨ (9 ≤ c.toNat ∧ c.toNat ≤ 13)) :=
    forall_of_all (by decide)
  obtain ⟨hascii, hnone⟩ := hall c hmem
  rw [classes.whitespace_ascii c hascii]
  exact decide_eq_false hnone

theorem solid_of_plain {word : List Char} (h : ∀ c ∈ word, classes.isWhitespace c = false) :
    solid classes word = word :=
  List.filter_eq_self.mpr fun c hc => by rw [h c hc]; rfl

theorem solid_append (front back : List Char) :
    solid classes (front ++ back) = solid classes front ++ solid classes back :=
  List.filter_append ..

theorem Spells.solid {text : List Char} {tokens : List String} (h : Spells classes text tokens) :
    SynTypes.solid classes text = tokens.flatMap String.toList := by
  induction h with
  | nil => rfl
  | space _ hspace _ ih =>
    rw [SynTypes.solid, List.filter_cons_of_neg (by rw [hspace]; exact Bool.false_ne_true)]
    exact ih
  | @sign c _ _ hspecial _ ih =>
    have hspace : classes.isWhitespace c = false := special_not_whitespace hspecial
    have htext : c.toString.toList = [c] := String.toList_singleton c
    rw [SynTypes.solid, List.filter_cons_of_pos (by rw [hspace]; rfl), List.flatMap_cons, htext]
    exact congrArg (c :: ·) ih
  | word hword _ _ ih =>
    rw [solid_append, solid_of_plain fun c hc => (hword.2 c hc).2, ih, List.flatMap_cons,
      String.toList_ofList]

/-! ### First tokens -/

theorem IsWord.not_sign {token : String} (h : IsWord classes token.toList) (c : Char)
    (hspecial : isSpecial c = true) : token ≠ c.toString := by
  rintro rfl
  have hmem : c ∈ c.toString.toList := by
    rw [show c.toString.toList = [c] from String.toList_singleton c]
    exact List.mem_singleton_self c
  exact Bool.false_ne_true ((h.2 c hmem).1.symm.trans hspecial)

theorem Ident.word (name : Ident classes) : IsWord classes name.text.toList :=
  ⟨name.nonempty, fun c hc => ⟨(name.plain c hc).1, (name.plain c hc).2.1⟩⟩

theorem colon_plain : isSpecial ':' = false ∧ classes.isWhitespace ':' = false := by
  refine ⟨rfl, ?_⟩
  rw [classes.whitespace_ascii ':' (by decide)]
  rfl

theorem Ident.not_colon (name : Ident classes) : ':' ∉ name.text.toList :=
  fun hmem => (name.plain ':' hmem).2.2 rfl

/-- The first token of a path is a word, and none that a reference would skip. -/
structure Leads (classes : CharClasses) (token : String) : Prop where
  word : IsWord classes token.toList
  no_quote : token.toList.head? ≠ some '\''
  not_mut : token ≠ "mut"

theorem Ident.leads (name : Ident classes) : Leads classes name.text :=
  ⟨name.word, name.no_quote, name.not_mut⟩

theorem leads_of_colons {text : List Char} (front : List Char)
    (hfront : ∀ c ∈ front, isSpecial c = false ∧ classes.isWhitespace c = false)
    (hhead : front.head? ≠ some '\'')
    (htext : ∀ c ∈ text, isSpecial c = false ∧ classes.isWhitespace c = false) :
    Leads classes (String.ofList (front ++ ':' :: text)) where
  word := by
    rw [String.toList_ofList]
    refine ⟨List.append_ne_nil_of_right_ne_nil _ (List.cons_ne_nil _ _), fun c hc => ?_⟩
    rcases List.mem_append.mp hc with hc | hc
    · exact hfront c hc
    · rcases List.mem_cons.mp hc with rfl | hc
      · exact colon_plain
      · exact htext c hc
  no_quote := by
    rw [String.toList_ofList]
    cases front with
    | nil => exact fun heq => absurd (Option.some.inj heq) (by decide)
    | cons c rest => exact hhead
  not_mut := by
    intro heq
    have hmem : ':' ∈ "mut".toList := by
      rw [← heq, String.toList_ofList]
      exact List.mem_append_right _ List.mem_cons_self
    revert hmem
    decide

theorem joinedPath_plain (modules : List (Ident classes)) (name : Ident classes) :
    ∀ c ∈ joinedPath modules name, isSpecial c = false ∧ classes.isWhitespace c = false := by
  intro c hc
  rcases List.mem_append.mp hc with hc | hc
  · obtain ⟨segment, _, hc⟩ := List.mem_flatMap.mp hc
    rcases List.mem_append.mp hc with hc | hc
    · exact segment.word.2 c hc
    · have hcolon : c = ':' := by
        rcases List.mem_cons.mp hc with hc | hc
        · exact hc
        · exact List.mem_singleton.mp hc
      exact hcolon ▸ colon_plain
  · exact name.word.2 c hc

theorem pathTokens_leads (style : PathStyle) (leading : Bool) (modules : List (Ident classes))
    (name : Ident classes) :
    ∃ first rest, pathTokens style leading modules name = first :: rest ∧ Leads classes first := by
  cases style with
  | apart =>
    cases leading with
    | true =>
      exact ⟨"::", _, rfl, @leads_of_colons classes [':'] [] (fun _ hc => (by cases hc))
        (by decide) fun c hc => by rw [List.mem_singleton.mp hc]; exact colon_plain⟩
    | false =>
      cases modules with
      | nil => exact ⟨_, _, rfl, name.leads⟩
      | cons segment rest => exact ⟨_, _, rfl, segment.leads⟩
  | joined =>
    refine ⟨_, _, rfl, ?_⟩
    cases leading with
    | true =>
      refine leads_of_colons [] (fun _ hc => (by cases hc)) (by decide) fun c hc => ?_
      rcases List.mem_cons.mp hc with rfl | hc
      · exact colon_plain
      · exact joinedPath_plain modules name c hc
    | false =>
      cases modules with
      | nil =>
        have htext : String.ofList name.text.toList = name.text := String.ofList_toList
        exact htext.symm ▸ name.leads
      | cons segment rest =>
        rw [if_neg Bool.false_ne_true, List.nil_append, joinedPath, List.flatMap_cons,
          List.append_assoc, List.append_assoc]
        refine leads_of_colons _ segment.word.2 segment.no_quote fun c hc => ?_
        rcases List.mem_cons.mp hc with rfl | hc
        · exact colon_plain
        · exact joinedPath_plain rest name c hc

/-- A token that no bracket closes and no reference skips starts every type. -/
structure Opens (token : String) : Prop where
  not_close : token ∉ [")", ">", ",", "]"]
  no_quote : token.toList.head? ≠ some '\''
  not_mut : token ≠ "mut"

theorem Leads.opens {token : String} (h : Leads classes token) : Opens token where
  not_close := by
    intro hmem
    have hsign : ∀ sign ∈ [")", ">", ",", "]"], ∃ c, isSpecial c = true ∧ sign = c.toString := by
      intro sign hsign
      simp only [List.mem_cons, List.not_mem_nil, or_false] at hsign
      rcases hsign with rfl | rfl | rfl | rfl
      · exact ⟨')', rfl, rfl⟩
      · exact ⟨'>', rfl, rfl⟩
      · exact ⟨',', rfl, rfl⟩
      · exact ⟨']', rfl, rfl⟩
    obtain ⟨c, hspecial, heq⟩ := hsign token hmem
    exact h.word.not_sign c hspecial heq
  no_quote := h.no_quote
  not_mut := h.not_mut

theorem tokens_opens (style : PathStyle) (type : SynType classes) :
    ∃ first rest, tokens style type = first :: rest ∧ Opens first := by
  have hsign : ∀ sign ∈ ["&", "[", "("], Opens sign := by
    intro sign hsign
    simp only [List.mem_cons, List.not_mem_nil, or_false] at hsign
    rcases hsign with rfl | rfl | rfl
    all_goals exact ⟨by decide, by decide, by decide⟩
  cases type with
  | path leading modules name =>
    obtain ⟨first, rest, heq, hleads⟩ := pathTokens_leads style leading modules name
    exact ⟨first, rest, heq, hleads.opens⟩
  | generic leading modules name args trailing =>
    obtain ⟨first, rest, heq, hleads⟩ := pathTokens_leads style leading modules name
    exact ⟨first, _, congrArg (· ++ _) heq, hleads.opens⟩
  | reference lifetime mutable inner => exact ⟨_, _, rfl, hsign "&" (by decide)⟩
  | slice inner => exact ⟨_, _, rfl, hsign "[" (by decide)⟩
  | paren inner => exact ⟨_, _, rfl, hsign "(" (by decide)⟩
  | tuple elems trailing => exact ⟨_, _, rfl, hsign "(" (by decide)⟩

/-! ### Reading paths -/

theorem rsplitPath_found {rest component name : List Char} (c : Char)
    (h : rsplitPath rest = some (component, name)) :
    rsplitPath (c :: rest) = some (c :: component, name) := by
  unfold rsplitPath
  rw [h]

theorem rsplitPath_of_no_colon {text : List Char} (h : ':' ∉ text) : rsplitPath text = none := by
  induction text with
  | nil => rfl
  | cons c rest ih =>
    have hc : c ≠ ':' := fun heq => h (heq ▸ List.mem_cons_self)
    unfold rsplitPath
    rw [ih fun hmem => h (List.mem_cons_of_mem _ hmem)]
    dsimp only
    split
    · exact absurd rfl hc
    · rfl

theorem rsplitPath_separator {text : List Char} (h : ':' ∉ text) :
    rsplitPath (':' :: ':' :: text) = some ([], text) := by
  have hrest : rsplitPath (':' :: text) = none := by
    unfold rsplitPath
    rw [rsplitPath_of_no_colon h]
    dsimp only
    split
    · exact absurd List.mem_cons_self h
    · rfl
  unfold rsplitPath
  rw [hrest]
  rfl

theorem rsplitPath_append {text component name : List Char}
    (h : rsplitPath text = some (component, name)) (front : List Char) :
    rsplitPath (front ++ text) = some (front ++ component, name) := by
  induction front with
  | nil => exact h
  | cons c rest ih => exact rsplitPath_found c ih

theorem rsplitPath_joined (modules : List (Ident classes)) (name : Ident classes) :
    ∃ component, rsplitPath (':' :: ':' :: joinedPath modules name) =
      some (component, name.text.toList) := by
  induction modules with
  | nil => exact ⟨[], rsplitPath_separator name.not_colon⟩
  | cons segment rest ih =>
    obtain ⟨component, hsplit⟩ := ih
    have hfound := rsplitPath_append hsplit (':' :: ':' :: segment.text.toList)
    refine ⟨_, Eq.trans (congrArg rsplitPath ?_) hfound⟩
    rw [joinedPath, List.flatMap_cons, List.append_assoc, List.append_assoc]
    rfl

theorem stripPath_name (name : Ident classes) : stripPath name.text = name.text := by
  rw [stripPath, rsplitPath_of_no_colon name.not_colon]

theorem stripPath_of_split {text component name : List Char}
    (h : rsplitPath text = some (component, name)) :
    stripPath (String.ofList text) = String.ofList name := by
  rw [stripPath, String.toList_ofList, h]

theorem stripPath_joined (leading : Bool) (modules : List (Ident classes))
    (name : Ident classes) :
    stripPath (String.ofList ((if leading then [':', ':'] else []) ++ joinedPath modules name)) =
      name.text := by
  have hname : String.ofList name.text.toList = name.text := String.ofList_toList
  cases leading with
  | true =>
    obtain ⟨component, hsplit⟩ := rsplitPath_joined modules name
    exact (stripPath_of_split hsplit).trans hname
  | false =>
    cases modules with
    | nil => exact (congrArg stripPath hname).trans (stripPath_name name)
    | cons segment rest =>
      obtain ⟨component, hsplit⟩ := rsplitPath_joined rest name
      refine (stripPath_of_split (Eq.trans (congrArg rsplitPath ?_)
        (rsplitPath_append hsplit segment.text.toList))).trans hname
      rw [if_neg Bool.false_ne_true, List.nil_append, joinedPath, List.flatMap_cons,
        List.append_assoc, List.append_assoc]
      rfl

theorem lastSegment_end {rest : List String} (h : rest.head? ≠ some "::") (name : String) :
    lastSegment name rest = (name, rest) := by
  unfold lastSegment
  split
  · exact absurd rfl h
  · exact absurd rfl h
  · rfl

theorem lastSegment_modules {rest : List String} (h : rest.head? ≠ some "::") (first : String)
    (modules : List (Ident classes)) (name : Ident classes) :
    lastSegment first ("::" :: modules.flatMap (fun segment => [segment.text, "::"]) ++
      name.text :: rest) = (name.text, rest) := by
  induction modules generalizing first with
  | nil =>
    rw [List.flatMap_nil, List.cons_append, List.nil_append, lastSegment]
    exact lastSegment_end h name.text
  | cons segment others ih =>
    rw [List.flatMap_cons, List.cons_append, List.append_assoc, List.cons_append, lastSegment]
    exact ih segment.text

theorem Ident.ne_separator (name : Ident classes) : name.text ≠ "::" := fun heq =>
  name.not_colon (heq ▸ (by decide))

theorem joined_ne_separator (leading : Bool) (modules : List (Ident classes))
    (name : Ident classes) :
    String.ofList ((if leading then [':', ':'] else []) ++ joinedPath modules name) ≠ "::" := by
  intro heq
  have hstrip := congrArg stripPath heq
  rw [stripPath_joined] at hstrip
  have hempty : stripPath "::" = "" := rfl
  rw [hempty] at hstrip
  exact name.nonempty (hstrip ▸ rfl)

theorem parsePath_segment {first last : String} {rest after : List String}
    (hfirst : first ≠ "::") (h : lastSegment first rest = (last, after)) :
    parsePath (first :: rest) = some (stripPath last, after) := by
  unfold parsePath
  split
  · rename_i heq
    exact absurd (List.cons.inj heq).1 hfirst
  · change some (stripPath (lastSegment first rest).1, (lastSegment first rest).2) = _
    rw [h]

theorem parsePath_leading {first last : String} {rest after : List String}
    (h : lastSegment first rest = (last, after)) :
    parsePath ("::" :: first :: rest) = some (stripPath last, after) := by
  change some (stripPath (lastSegment first rest).1, (lastSegment first rest).2) = _
  rw [h]

/-- The name of a path, and what follows it. -/
theorem parsePath_pathTokens (style : PathStyle) (leading : Bool)
    (modules : List (Ident classes)) (name : Ident classes) {rest : List String}
    (h : rest.head? ≠ some "::") :
    parsePath (pathTokens style leading modules name ++ rest) = some (name.text, rest) := by
  have hname : some (stripPath name.text, rest) = some (name.text, rest) := by
    rw [stripPath_name]
  cases style with
  | apart =>
    rw [pathTokens, List.append_assoc]
    cases modules with
    | nil =>
      have hlast := lastSegment_end h name.text
      cases leading with
      | true => exact (parsePath_leading hlast).trans hname
      | false => exact (parsePath_segment name.ne_separator hlast).trans hname
    | cons segment others =>
      have hlast := lastSegment_modules h segment.text others name
      rw [List.flatMap_cons, List.append_assoc]
      cases leading with
      | true => exact (parsePath_leading hlast).trans hname
      | false => exact (parsePath_segment segment.ne_separator hlast).trans hname
  | joined =>
    have hlast := lastSegment_end h
      (String.ofList ((if leading then [':', ':'] else []) ++ joinedPath modules name))
    refine (parsePath_segment (joined_ne_separator leading modules name) hlast).trans ?_
    rw [stripPath_joined]

/-! ### Reading types -/

/-- A path and its arguments, as the parser goes on after the path. -/
def namedTokens (fuel : Nat) (name : String) (rest : List String) :
    Option (RustType × List String) :=
  match rest with
  | "<" :: rest => do
      let (args, rest) ← parseArgs fuel rest
      return (.named name args, rest)
  | rest => return (.named name [], rest)

theorem parseTokens_word {first name : String} {rest after : List String}
    (hfirst : IsWord classes first.toList) (h : parsePath (first :: rest) = some (name, after))
    (fuel : Nat) : parseTokens (fuel + 1) (first :: rest) = namedTokens fuel name after := by
  have hsign := fun c hc => hfirst.not_sign c hc
  unfold parseTokens
  dsimp only
  split
  · rename_i heq
    cases heq
  · rename_i heq
    exact absurd (List.cons.inj heq).1 (hsign '&' rfl)
  · rename_i heq
    exact absurd (List.cons.inj heq).1 (hsign '[' rfl)
  · rename_i heq
    exact absurd (List.cons.inj heq).1 (hsign '(' rfl)
  · rename_i heq
    exact absurd (List.cons.inj heq).1 (hsign '(' rfl)
  · rename_i heq
    exact absurd (List.cons.inj heq).1 (hsign ')' rfl)
  · rename_i heq
    exact absurd (List.cons.inj heq).1 (hsign '>' rfl)
  · rename_i heq
    exact absurd (List.cons.inj heq).1 (hsign ',' rfl)
  · rename_i heq
    exact absurd (List.cons.inj heq).1 (hsign ']' rfl)
  · rw [h]
    rfl

theorem skipQualifiers_opens {first : String} (hfirst : Opens first) (rest : List String) :
    skipQualifiers (first :: rest) = first :: rest := by
  unfold skipQualifiers
  dsimp only
  rw [if_neg hfirst.no_quote]
  split
  · rename_i heq
    exact absurd (List.cons.inj heq).1 hfirst.not_mut
  · rfl

theorem skipQualifiers_mut (rest : List String) : skipQualifiers ("mut" :: rest) = rest := rfl

theorem skipQualifiers_lifetime (lifetime : Lifetime classes) {first : String}
    (rest : List String) :
    skipQualifiers (lifetime.text :: first :: rest) =
      match first :: rest with
      | "mut" :: rest => rest
      | tokens => tokens := by
  unfold skipQualifiers
  dsimp only
  rw [if_pos lifetime.quote] <;> rfl

theorem skipQualifiers_qualifiers (lifetime : Option (Lifetime classes)) (mutable : Bool)
    {first : String} (hfirst : Opens first) (rest : List String) :
    skipQualifiers (qualifiers lifetime mutable ++ first :: rest) = first :: rest := by
  cases lifetime with
  | none =>
    cases mutable with
    | true => exact skipQualifiers_mut _
    | false => exact skipQualifiers_opens hfirst rest
  | some lifetime =>
    cases mutable with
    | true => exact skipQualifiers_lifetime lifetime _
    | false =>
      refine (skipQualifiers_lifetime lifetime _).trans ?_
      split
      · rename_i heq
        exact absurd (List.cons.inj heq).1 hfirst.not_mut
      · rfl

/-- What follows a type does not belong to its path. -/
def Ends (rest : List String) : Prop := rest.head? ≠ some "::" ∧ rest.head? ≠ some "<"

theorem namedTokens_bare {rest : List String} (h : Ends rest) (fuel : Nat) (name : String) :
    namedTokens fuel name rest = some (.named name [], rest) := by
  unfold namedTokens
  split
  · exact absurd rfl h.2
  · rfl

theorem namedTokens_generic (fuel : Nat) (name : String) (rest : List String) :
    namedTokens fuel name ("<" :: rest) =
      (parseArgs fuel rest).map fun read => (.named name read.1, read.2) := by
  unfold namedTokens
  split
  · rename_i heq
    obtain rfl := (List.cons.inj heq).2
    cases parseArgs fuel rest <;> rfl
  · rename_i hother
    exact absurd rfl (hother rest)

/-! ### One step of the parser -/

section Steps

variable (fuel : Nat) {first : String} {rest after : List String} {type : RustType}

theorem parseTokens_ref (rest : List String) :
    parseTokens (fuel + 1) ("&" :: rest) =
      (parseTokens fuel (skipQualifiers rest)).map fun read => (.ref read.1, read.2) := by
  rw [parseTokens]
  cases parseTokens fuel (skipQualifiers rest) <;> rfl

theorem parseTokens_slice (h : parseTokens fuel rest = some (type, "]" :: after)) :
    parseTokens (fuel + 1) ("[" :: rest) = some (.slice type, after) := by
  rw [parseTokens, h]
  rfl

theorem parseTokens_slice_none (h : parseTokens fuel rest = none) :
    parseTokens (fuel + 1) ("[" :: rest) = none := by
  rw [parseTokens, h]
  rfl

theorem Opens.not_paren (hfirst : Opens first) :
    ∀ other, first :: rest = ")" :: other → False := by
  intro other heq
  refine hfirst.not_close ?_
  rw [(List.cons.inj heq).1]
  decide

theorem Opens.not_angle (hfirst : Opens first) :
    ∀ other, first :: rest = ">" :: other → False := by
  intro other heq
  refine hfirst.not_close ?_
  rw [(List.cons.inj heq).1]
  decide

theorem parseTokens_paren (hfirst : Opens first)
    (h : parseTokens fuel (first :: rest) = some (type, ")" :: after)) :
    parseTokens (fuel + 1) ("(" :: first :: rest) = some (type, after) := by
  rw [parseTokens, h]
  · rfl
  · exact hfirst.not_paren

theorem parseTokens_tuple (hfirst : Opens first)
    (h : parseTokens fuel (first :: rest) = some (type, "," :: after)) :
    parseTokens (fuel + 1) ("(" :: first :: rest) =
      (parseItems fuel after).map fun read => (.tuple (type :: read.1), read.2) := by
  rw [parseTokens, h]
  · change (parseItems fuel after).bind _ = _
    cases parseItems fuel after <;> rfl
  · exact hfirst.not_paren

theorem parseTokens_open_none (hfirst : Opens first)
    (h : parseTokens fuel (first :: rest) = none) :
    parseTokens (fuel + 1) ("(" :: first :: rest) = none := by
  rw [parseTokens, h]
  · rfl
  · exact hfirst.not_paren

theorem parseItems_last (hfirst : Opens first)
    (h : parseTokens fuel (first :: rest) = some (type, ")" :: after)) :
    parseItems (fuel + 1) (first :: rest) = some ([type], after) := by
  rw [parseItems, h]
  · rfl
  · exact hfirst.not_paren

theorem parseItems_more (hfirst : Opens first)
    (h : parseTokens fuel (first :: rest) = some (type, "," :: after)) :
    parseItems (fuel + 1) (first :: rest) =
      (parseItems fuel after).map fun read => (type :: read.1, read.2) := by
  rw [parseItems, h]
  · change (parseItems fuel after).bind _ = _
    cases parseItems fuel after <;> rfl
  · exact hfirst.not_paren

theorem parseItems_none (hfirst : Opens first) (h : parseTokens fuel (first :: rest) = none) :
    parseItems (fuel + 1) (first :: rest) = none := by
  rw [parseItems, h]
  · rfl
  · exact hfirst.not_paren

theorem parseArgs_last (hfirst : Opens first)
    (h : parseTokens fuel (first :: rest) = some (type, ">" :: after)) :
    parseArgs (fuel + 1) (first :: rest) = some ([type], after) := by
  rw [parseArgs, h]
  · rfl
  · exact fun heq => (by cases heq)
  · exact hfirst.not_angle

theorem parseArgs_more (hfirst : Opens first)
    (h : parseTokens fuel (first :: rest) = some (type, "," :: after)) :
    parseArgs (fuel + 1) (first :: rest) =
      (parseArgs fuel after).map fun read => (type :: read.1, read.2) := by
  rw [parseArgs, h]
  · change (parseArgs fuel after).bind _ = _
    cases parseArgs fuel after <;> rfl
  · exact fun heq => (by cases heq)
  · exact hfirst.not_angle

theorem parseArgs_none (hfirst : Opens first) (h : parseTokens fuel (first :: rest) = none) :
    parseArgs (fuel + 1) (first :: rest) = none := by
  rw [parseArgs, h]
  · rfl
  · exact fun heq => (by cases heq)
  · exact hfirst.not_angle

end Steps

/-! ### Discovery reads the type -/

theorem ends_close {close : String} (h : close ∈ [")", ">", ",", "]"]) (rest : List String) :
    Ends (close :: rest) := by
  have hall : ∀ close ∈ [")", ">", ",", "]"], close ≠ "::" ∧ close ≠ "<" := by decide
  exact ⟨fun heq => (hall close h).1 (Option.some.inj heq),
    fun heq => (hall close h).2 (Option.some.inj heq)⟩

/-- A path is read up to its arguments. -/
theorem parseTokens_pathTokens (style : PathStyle) (leading : Bool)
    (modules : List (Ident classes)) (name : Ident classes) {rest : List String}
    (h : rest.head? ≠ some "::") {fuel : Nat}
    (hfuel : (pathTokens style leading modules name).length ≤ fuel) :
    ∃ less, fuel = less + 1 ∧
      parseTokens fuel (pathTokens style leading modules name ++ rest) =
        namedTokens less name.text rest := by
  obtain ⟨first, more, htokens, hleads⟩ := pathTokens_leads style leading modules name
  have hpath := parsePath_pathTokens style leading modules name h
  rw [htokens] at hfuel hpath ⊢
  obtain ⟨less, rfl⟩ := Nat.exists_eq_add_of_lt (Nat.lt_of_lt_of_le (Nat.zero_lt_succ _) hfuel)
  rw [Nat.zero_add]
  exact ⟨less, rfl, parseTokens_word hleads.word hpath less⟩

mutual

theorem parseTokens_tokens (style : PathStyle) (type : SynType classes) {fuel : Nat}
    {rest : List String} (hends : Ends rest) (hfuel : (tokens style type).length ≤ fuel) :
    parseTokens fuel (tokens style type ++ rest) =
      if readable type then some (rustType type, rest) else none := by
  cases type with
  | path leading modules name =>
    obtain ⟨less, rfl, hread⟩ :=
      parseTokens_pathTokens style leading modules name hends.1 hfuel
    rw [tokens, hread, namedTokens_bare hends]
    rfl
  | generic leading modules name args trailing =>
    rw [tokens, List.length_append, List.length_cons] at hfuel
    have hhead : (("<" :: listTokens style ">" args trailing) ++ rest).head? ≠ some "::" :=
      fun heq => absurd (Option.some.inj heq) (by decide)
    have hpath : (pathTokens style leading modules name).length ≤ fuel := by omega
    obtain ⟨less, rfl, hread⟩ :=
      parseTokens_pathTokens style leading modules name hhead hpath
    obtain ⟨first, more, htokens, _⟩ := pathTokens_leads style leading modules name
    rw [htokens, List.length_cons] at hfuel
    rw [tokens, List.append_assoc, hread, List.cons_append, namedTokens_generic,
      parseArgs_tokens style args trailing (by omega), readable, rustType]
    split <;> rfl
  | reference lifetime mutable inner =>
    rw [tokens, List.cons_append, List.length_cons, List.length_append] at hfuel
    obtain ⟨less, rfl⟩ : ∃ less, fuel = less + 1 := ⟨fuel - 1, by omega⟩
    obtain ⟨first, more, htokens, hopens⟩ := tokens_opens style inner
    have hskip : skipQualifiers (qualifiers lifetime mutable ++ tokens style inner ++ rest) =
        tokens style inner ++ rest := by
      rw [htokens, List.append_assoc]
      exact skipQualifiers_qualifiers lifetime mutable hopens (more ++ rest)
    rw [tokens, List.cons_append, List.cons_append, parseTokens_ref, hskip,
      parseTokens_tokens style inner hends (by omega), readable, rustType]
    split <;> rfl
  | slice inner =>
    rw [tokens, List.cons_append, List.length_cons, List.length_append] at hfuel
    obtain ⟨less, rfl⟩ : ∃ less, fuel = less + 1 := ⟨fuel - 1, by omega⟩
    have hends' : Ends ("]" :: rest) := ends_close (by decide) rest
    have hinner := parseTokens_tokens style inner hends' (show _ ≤ less by omega)
    rw [tokens, List.cons_append, List.cons_append, List.append_assoc, readable, rustType]
    split at hinner
    · rename_i hreadable
      rw [if_pos hreadable]
      exact parseTokens_slice less hinner
    · rename_i hreadable
      rw [if_neg hreadable]
      exact parseTokens_slice_none less hinner
  | paren inner =>
    rw [tokens, List.cons_append, List.length_cons, List.length_append] at hfuel
    obtain ⟨less, rfl⟩ : ∃ less, fuel = less + 1 := ⟨fuel - 1, by omega⟩
    have hends' : Ends (")" :: rest) := ends_close (by decide) rest
    have hinner := parseTokens_tokens style inner hends' (show _ ≤ less by omega)
    rw [tokens, List.cons_append, List.cons_append, List.append_assoc, readable, rustType]
    obtain ⟨first, more, htokens, hopens⟩ := tokens_opens style inner
    rw [htokens, List.cons_append] at hinner ⊢
    split at hinner
    · rename_i hreadable
      rw [if_pos hreadable]
      exact parseTokens_paren less hopens hinner
    · rename_i hreadable
      rw [if_neg hreadable]
      exact parseTokens_open_none less hopens hinner
  | tuple elems trailing =>
    cases elems with
    | nil =>
      rw [tokens, listTokens, List.length_cons] at hfuel
      obtain ⟨less, rfl⟩ : ∃ less, fuel = less + 1 := ⟨fuel - 1, by omega⟩
      rw [tokens, listTokens, List.cons_append, List.cons_append, parseTokens]
      rfl
    | cons item items =>
      have hcomma : (items.isEmpty && !(trailing || (item :: items).length == 1)) = false := by
        cases items with
        | nil => simp
        | cons _ _ => rfl
      rw [tokens, listTokens, hcomma, if_neg Bool.false_ne_true, List.length_cons,
        List.length_append, List.length_append, List.length_singleton] at hfuel
      obtain ⟨less, rfl⟩ : ∃ less, fuel = less + 1 := ⟨fuel - 1, by omega⟩
      have hends' : Ends ("," :: (listTokens style ")" items
        (trailing || (item :: items).length == 1) ++ rest)) := ends_close (by decide) _
      have hitem := parseTokens_tokens style item hends' (show _ ≤ less by omega)
      obtain ⟨first, more, htokens, hopens⟩ := tokens_opens style item
      rw [tokens, listTokens, hcomma, if_neg Bool.false_ne_true, List.cons_append,
        List.append_assoc, List.append_assoc, List.singleton_append, readable, readableAll]
      rw [htokens, List.cons_append] at hitem ⊢
      split at hitem
      · rename_i hreadable
        rw [parseTokens_tuple less hopens hitem,
          parseItems_tokens style items _ (by omega), hreadable, Bool.true_and]
        split <;> rfl
      · rename_i hreadable
        rw [parseTokens_open_none less hopens hitem,
          Bool.eq_false_iff.mpr hreadable, Bool.false_and]
        rfl
termination_by structural type

theorem parseItems_tokens (style : PathStyle) (items : List (SynType classes)) (trailing : Bool)
    {fuel : Nat} {rest : List String} (hfuel : (listTokens style ")" items trailing).length ≤ fuel) :
    parseItems fuel (listTokens style ")" items trailing ++ rest) =
      if readableAll items then some (rustTypes items, rest) else none := by
  cases items with
  | nil =>
    rw [listTokens, List.length_singleton] at hfuel
    obtain ⟨less, rfl⟩ : ∃ less, fuel = less + 1 := ⟨fuel - 1, by omega⟩
    rw [listTokens, List.singleton_append, parseItems]
    rfl
  | cons item others =>
    obtain ⟨first, more, htokens, hopens⟩ := tokens_opens style item
    rw [listTokens, List.length_append, List.length_append] at hfuel
    have hlength : 0 < (tokens style item).length := by
      rw [htokens]
      exact Nat.zero_lt_succ _
    obtain ⟨less, rfl⟩ : ∃ less, fuel = less + 1 := ⟨fuel - 1, by omega⟩
    rw [listTokens, readableAll, rustTypes]
    by_cases hlast : (others.isEmpty && !trailing) = true
    · obtain ⟨hnil, _⟩ := Bool.and_eq_true_iff.mp hlast
      obtain rfl := List.isEmpty_iff.mp hnil
      rw [if_pos hlast, listTokens, List.length_nil, List.length_singleton] at hfuel
      have hends : Ends (")" :: rest) := ends_close (by decide) rest
      have hitem := parseTokens_tokens style item hends (show _ ≤ less by omega)
      rw [if_pos hlast, listTokens, List.append_nil, List.append_assoc, List.singleton_append,
        readableAll, Bool.and_true, rustTypes]
      rw [htokens, List.cons_append] at hitem ⊢
      split at hitem
      · rename_i hreadable
        rw [if_pos hreadable]
        exact parseItems_last less hopens hitem
      · rename_i hreadable
        rw [if_neg hreadable]
        exact parseItems_none less hopens hitem
    · rw [if_neg hlast, List.length_singleton] at hfuel
      have hends : Ends ("," :: (listTokens style ")" others trailing ++ rest)) :=
        ends_close (by decide) _
      have hitem := parseTokens_tokens style item hends (show _ ≤ less by omega)
      rw [if_neg hlast, List.append_assoc, List.append_assoc, List.singleton_append]
      rw [htokens, List.cons_append] at hitem ⊢
      split at hitem
      · rename_i hreadable
        rw [parseItems_more less hopens hitem,
          parseItems_tokens style others trailing (by omega), hreadable, Bool.true_and]
        split <;> rfl
      · rename_i hreadable
        rw [Bool.eq_false_iff.mpr hreadable, Bool.false_and]
        exact parseItems_none less hopens hitem
termination_by structural items

theorem parseArgs_tokens (style : PathStyle) (args : List (SynType classes)) (trailing : Bool)
    {fuel : Nat} {rest : List String} (hfuel : (listTokens style ">" args trailing).length ≤ fuel) :
    parseArgs fuel (listTokens style ">" args trailing ++ rest) =
      if !args.isEmpty && !trailing && readableAll args then some (rustTypes args, rest)
      else none := by
  cases args with
  | nil =>
    rw [listTokens, List.length_singleton] at hfuel
    obtain ⟨less, rfl⟩ : ∃ less, fuel = less + 1 := ⟨fuel - 1, by omega⟩
    rw [listTokens, List.singleton_append, parseArgs]
    rfl
  | cons arg others =>
    obtain ⟨first, more, htokens, hopens⟩ := tokens_opens style arg
    rw [listTokens, List.length_append, List.length_append] at hfuel
    have hlength : 0 < (tokens style arg).length := by
      rw [htokens]
      exact Nat.zero_lt_succ _
    obtain ⟨less, rfl⟩ : ∃ less, fuel = less + 1 := ⟨fuel - 1, by omega⟩
    rw [listTokens, readableAll, rustTypes]
    by_cases hlast : (others.isEmpty && !trailing) = true
    · obtain ⟨hnil, htrailing⟩ := Bool.and_eq_true_iff.mp hlast
      obtain rfl := List.isEmpty_iff.mp hnil
      rw [if_pos hlast, listTokens, List.length_nil, List.length_singleton] at hfuel
      have hends : Ends (">" :: rest) := ends_close (by decide) rest
      have harg := parseTokens_tokens style arg hends (show _ ≤ less by omega)
      rw [if_pos hlast, listTokens, List.append_nil, List.append_assoc, List.singleton_append,
        readableAll, Bool.and_true, rustTypes, htrailing, List.isEmpty_cons, Bool.not_false,
        Bool.true_and, Bool.true_and]
      rw [htokens, List.cons_append] at harg ⊢
      split at harg
      · rename_i hreadable
        rw [if_pos hreadable]
        exact parseArgs_last less hopens harg
      · rename_i hreadable
        rw [if_neg hreadable]
        exact parseArgs_none less hopens harg
    · rw [if_neg hlast, List.length_singleton] at hfuel
      have hends : Ends ("," :: (listTokens style ">" others trailing ++ rest)) :=
        ends_close (by decide) _
      have harg := parseTokens_tokens style arg hends (show _ ≤ less by omega)
      have hlist : (!others.isEmpty && !trailing) = !trailing := by
        cases others with
        | nil => cases trailing with
          | true => rfl
          | false => exact absurd rfl hlast
        | cons _ _ => rfl
      rw [if_neg hlast, List.append_assoc, List.append_assoc, List.singleton_append,
        List.isEmpty_cons, Bool.not_false, Bool.true_and]
      rw [htokens, List.cons_append] at harg ⊢
      split at harg
      · rename_i hreadable
        rw [parseArgs_more less hopens harg,
          parseArgs_tokens style others trailing (by omega), hlist, hreadable, Bool.true_and]
        split <;> rfl
      · rename_i hreadable
        rw [Bool.eq_false_iff.mpr hreadable, Bool.false_and, Bool.and_false]
        exact parseArgs_none less hopens harg
termination_by structural args

end

/-- Discovery reads the type from every text that spells it, if it can be read at all. -/
theorem parse_spelled {style : PathStyle} {type : SynType classes} {text : String}
    (h : Spells classes text.toList (tokens style type)) :
    parse classes text = if readable type then some (rustType type) else none := by
  have hends : Ends [] := ⟨Option.some_ne_none _ ∘ Eq.symm, Option.some_ne_none _ ∘ Eq.symm⟩
  have hfuel : (tokens style type).length ≤ typeFuel (tokens style type) := by
    unfold typeFuel
    omega
  have hread := parseTokens_tokens style type hends hfuel
  rw [List.append_nil] at hread
  unfold parse
  dsimp only
  rw [h.tokenize, hread]
  split <;> simp_all

/-! ### Rendered types -/

mutual

/-- The type as it is written after discovery has read it. -/
def core : SynType classes → SynType classes
  | .path _ _ name => .path false [] name
  | .generic _ _ name args _ => .generic false [] name (coreAll args) false
  | .reference _ _ inner => .reference none false (core inner)
  | .slice inner => .slice (core inner)
  | .paren inner => core inner
  | .tuple elems _ => .tuple (coreAll elems) true
termination_by structural type => type

def coreAll : List (SynType classes) → List (SynType classes)
  | [] => []
  | type :: rest => core type :: coreAll rest
termination_by structural types => types

end

mutual

theorem rustType_core (type : SynType classes) : rustType (core type) = rustType type := by
  cases type with
  | path leading modules name => rfl
  | generic leading modules name args trailing =>
    rw [core, rustType, rustType, rustTypes_coreAll args]
  | reference lifetime mutable inner => rw [core, rustType, rustType, rustType_core inner]
  | slice inner => rw [core, rustType, rustType, rustType_core inner]
  | paren inner => rw [core, rustType, rustType_core inner]
  | tuple elems trailing =>
    cases elems with
    | nil => rfl
    | cons first rest =>
      rw [core, coreAll, rustType, rustType, rustType_core first, rustTypes_coreAll rest]
termination_by structural type

theorem rustTypes_coreAll (types : List (SynType classes)) :
    rustTypes (coreAll types) = rustTypes types := by
  cases types with
  | nil => rfl
  | cons type rest =>
    rw [coreAll, rustTypes, rustTypes, rustType_core type, rustTypes_coreAll rest]
termination_by structural types

end

theorem coreAll_isEmpty (types : List (SynType classes)) :
    (coreAll types).isEmpty = types.isEmpty := by
  cases types <;> rfl

mutual

theorem readable_core {type : SynType classes} (h : readable type = true) :
    readable (core type) = true := by
  cases type with
  | path leading modules name => rfl
  | generic leading modules name args trailing =>
    rw [readable, Bool.and_eq_true_iff, Bool.and_eq_true_iff] at h
    rw [core, readable, coreAll_isEmpty, readable_coreAll h.2, h.1.1]
    rfl
  | reference lifetime mutable inner => exact @readable_core inner h
  | slice inner => exact @readable_core inner h
  | paren inner => exact @readable_core inner h
  | tuple elems trailing => exact @readable_coreAll elems h
termination_by structural type

theorem readable_coreAll {types : List (SynType classes)} (h : readableAll types = true) :
    readableAll (coreAll types) = true := by
  cases types with
  | nil => rfl
  | cons type rest =>
    rw [readableAll, Bool.and_eq_true_iff] at h
    rw [coreAll, readableAll, readable_core h.1, readable_coreAll h.2]
    rfl
termination_by structural types

end

theorem Spells.name (name : Ident classes) {text : List Char} {others : List String}
    (hbreaks : Breaks classes text) (h : Spells classes text others) :
    Spells classes (name.text.toList ++ text) (name.text :: others) := by
  have hword := Spells.word name.word hbreaks h
  rwa [String.ofList_toList] at hword

theorem breaks_special {c : Char} (h : isSpecial c = true) (text : List Char) :
    Breaks classes (c :: text) := fun _ heq => .inl (Option.some.inj heq ▸ h)

theorem Spells.comma {text : List Char} {others : List String} (h : Spells classes text others) :
    Spells classes (',' :: ' ' :: text) ("," :: others) := by
  have hspace : classes.isWhitespace ' ' = true := by
    rw [classes.whitespace_ascii ' ' (by decide)]
    rfl
  exact .sign rfl (.space rfl hspace h)

mutual

theorem spells_render {type : SynType classes} (hreadable : readable type = true)
    {text : List Char} {others : List String} (hbreaks : Breaks classes text)
    (h : Spells classes text others) :
    Spells classes ((render (rustType type)).toList ++ text)
      (tokens .apart (core type) ++ others) := by
  cases type with
  | path leading modules name => exact Spells.name name hbreaks h
  | generic leading modules name args trailing =>
    rw [readable, Bool.and_eq_true_iff, Bool.and_eq_true_iff] at hreadable
    obtain ⟨⟨hargs, -⟩, hreadable⟩ := hreadable
    have hlist := spells_renderAll (fun hnil => by rw [hnil] at hargs; cases hargs) hreadable
      (show isSpecial '>' = true from rfl) false h
    have hempty : (rustTypes args).isEmpty = false := by
      cases args with
      | nil => cases hargs
      | cons _ _ => rfl
    have hname := Spells.name name (breaks_special rfl _) (.sign (c := '<') rfl hlist)
    rw [rustType, render, hempty, if_neg Bool.false_ne_true, core, tokens]
    simp only [String.toList_append, List.append_assoc]
    exact hname
  | reference lifetime mutable inner =>
    have hinner := @spells_render inner hreadable _ _ hbreaks h
    rw [rustType, render, String.toList_append]
    exact .sign rfl hinner
  | slice inner =>
    have hinner := @spells_render inner hreadable _ _ (breaks_special rfl _)
      (.sign (c := ']') rfl h)
    rw [rustType, render, core, tokens]
    simp only [String.toList_append, List.append_assoc, List.cons_append]
    exact .sign rfl hinner
  | paren inner => exact @spells_render inner hreadable _ _ hbreaks h
  | tuple elems trailing =>
    cases elems with
    | nil =>
      have hunit : Spells classes ('(' :: ')' :: text) ("(" :: ")" :: others) :=
        .sign (c := '(') rfl (.sign (c := ')') rfl h)
      rw [rustType, render, core, coreAll, tokens, listTokens]
      exact hunit
    | cons first rest =>
      have hlist := spells_renderAll (List.cons_ne_nil first rest) hreadable
        (show isSpecial ')' = true from rfl) true h
      rw [rustType, render, core, tokens, Bool.true_or]
      simp only [String.toList_append, List.append_assoc]
      exact .sign (c := '(') rfl hlist
termination_by structural type

theorem spells_renderAll {types : List (SynType classes)} (hne : types ≠ [])
    (hreadable : readableAll types = true) {close : Char} (hclose : isSpecial close = true)
    (trailing : Bool) {text : List Char} {others : List String} (h : Spells classes text others) :
    Spells classes ((", ".intercalate (renderAll (rustTypes types))).toList ++
        ((if trailing then [','] else []) ++ close :: text))
      (listTokens .apart close.toString (coreAll types) trailing ++ others) := by
  cases types with
  | nil => exact absurd rfl hne
  | cons type rest =>
    rw [readableAll, Bool.and_eq_true_iff] at hreadable
    rw [coreAll, listTokens, rustTypes, renderAll, coreAll_isEmpty]
    cases rest with
    | nil =>
      rw [rustTypes, renderAll, String.intercalate_singleton, coreAll, listTokens,
        List.append_assoc, List.append_assoc]
      cases trailing with
      | true =>
        have hcomma := Spells.sign (c := ',') rfl (.sign hclose h)
        exact spells_render hreadable.1 (breaks_special rfl _) hcomma
      | false => exact spells_render hreadable.1 (breaks_special hclose _) (.sign hclose h)
    | cons next more =>
      have hrest := spells_renderAll (List.cons_ne_nil next more) hreadable.2 hclose trailing h
      have hjoined : (", ".intercalate (render (rustType type) ::
          renderAll (rustTypes (next :: more)))).toList =
            (render (rustType type)).toList ++
              (',' :: ' ' :: (", ".intercalate (renderAll (rustTypes (next :: more)))).toList) := by
        rw [rustTypes, renderAll, String.intercalate_cons_cons, String.toList_append,
          String.toList_append, List.append_assoc]
        rfl
      rw [hjoined, List.append_assoc, List.append_assoc, List.append_assoc]
      exact spells_render hreadable.1 (breaks_special rfl _) hrest.comma
termination_by structural types

end

/-- Discovery reads a rendered type back. -/
theorem parse_render {type : SynType classes} (h : readable type = true) :
    parse classes (render (rustType type)) = some (rustType type) := by
  have hspells := spells_render h (fun _ heq => (by cases heq)) Spells.nil
  rw [List.append_nil, List.append_nil] at hspells
  rw [parse_spelled hspells, readable_core h, rustType_core]
  rfl

/-! ### Unit texts -/

theorem flush_flat (word : List Char) : (flush word).flatMap String.toList = word := by
  unfold flush
  cases word with
  | nil => rfl
  | cons c rest =>
    rw [List.isEmpty_cons, if_neg Bool.false_ne_true, List.flatMap_singleton, String.toList_ofList]

theorem splitWhitespaceFrom_flat (word text : List Char) :
    (splitWhitespaceFrom classes word text).flatMap String.toList = word ++ solid classes text := by
  induction text generalizing word with
  | nil => rw [splitWhitespaceFrom, flush_flat, solid, List.filter_nil, List.append_nil]
  | cons c rest ih =>
    rw [splitWhitespaceFrom, solid]
    by_cases hspace : classes.isWhitespace c = true
    · rw [if_pos hspace, List.flatMap_append, flush_flat, ih, List.nil_append,
        List.filter_cons_of_neg (by rw [hspace]; decide)]
      rfl
    · rw [if_neg hspace, ih, List.append_assoc, List.filter_cons_of_pos (by simpa using hspace)]
      rfl

theorem solid_intercalate (words : List String) :
    solid classes (" ".intercalate words).toList = solid classes (words.flatMap String.toList) := by
  induction words with
  | nil => rfl
  | cons word rest ih =>
    cases rest with
    | nil => rw [String.intercalate_singleton, List.flatMap_singleton]
    | cons next more =>
      have hwhite : classes.isWhitespace ' ' = true := by
        rw [classes.whitespace_ascii ' ' (by decide)]
        rfl
      have hspace : solid classes [' '] = [] :=
        List.filter_cons_of_neg (by rw [hwhite]; decide)
      have hlist : " ".toList = [' '] := rfl
      rw [String.intercalate_cons_cons, String.toList_append, String.toList_append, solid_append,
        solid_append, hlist, hspace, List.append_nil, ih, ← solid_append, ← List.flatMap_cons]

theorem solid_solid (text : List Char) : solid classes (solid classes text) = solid classes text :=
  solid_of_plain fun c hc => by simpa using (List.mem_filter.mp hc).2

theorem solid_normalize (text : String) :
    solid classes (RustTypes.normalize classes text).toList = solid classes text.toList := by
  rw [RustTypes.normalize, solid_intercalate, splitWhitespaceFrom_flat, List.nil_append, solid_solid]

/-- What a unit text is made of. -/
theorem solid_of_isUnit {text : String} (h : RustTypes.isUnit classes text = true) :
    solid classes text.toList = [] ∨ solid classes text.toList = ['(', ')'] := by
  rw [← solid_normalize]
  have hparen : ∀ c ∈ ['(', ')'], classes.isWhitespace c = false := by
    intro c hc
    have hspecial : ∀ c ∈ ['(', ')'], isSpecial c = true := forall_of_all (by decide)
    exact special_not_whitespace (hspecial c hc)
  rcases Bool.or_eq_true_iff.mp h with hempty | hunit
  · rw [eq_of_beq hempty]
    exact .inl rfl
  · rw [eq_of_beq hunit]
    exact .inr (solid_of_plain hparen)

theorem Leads.exists_cons {token : String} (h : Leads classes token) :
    ∃ c rest, token.toList = c :: rest ∧ isSpecial c = false := by
  cases htoken : token.toList with
  | nil => exact absurd htoken h.word.1
  | cons c rest =>
    exact ⟨c, rest, rfl, (h.word.2 c (htoken ▸ List.mem_cons_self)).1⟩

theorem pathTokens_flat (style : PathStyle) (leading : Bool) (modules : List (Ident classes))
    (name : Ident classes) (others : List String) :
    ∃ c rest, (pathTokens style leading modules name ++ others).flatMap String.toList = c :: rest ∧
      isSpecial c = false := by
  obtain ⟨first, more, htokens, hleads⟩ := pathTokens_leads style leading modules name
  obtain ⟨c, rest, htoken, hspecial⟩ := hleads.exists_cons
  refine ⟨c, rest ++ (more ++ others).flatMap String.toList, ?_, hspecial⟩
  rw [htokens, List.cons_append, List.flatMap_cons, htoken]
  rfl

theorem tokens_flat_ne_nil (style : PathStyle) (type : SynType classes) :
    (tokens style type).flatMap String.toList ≠ [] := by
  cases type with
  | path leading modules name =>
    obtain ⟨c, rest, hflat, -⟩ := pathTokens_flat style leading modules name []
    rw [List.append_nil] at hflat
    exact hflat ▸ List.cons_ne_nil c rest
  | generic leading modules name args trailing =>
    obtain ⟨c, rest, hflat, -⟩ := pathTokens_flat style leading modules name
      ("<" :: listTokens style ">" args trailing)
    exact hflat ▸ List.cons_ne_nil c rest
  | reference lifetime mutable inner => exact List.cons_ne_nil _ _
  | slice inner => exact List.cons_ne_nil _ _
  | paren inner => exact List.cons_ne_nil _ _
  | tuple elems trailing => exact List.cons_ne_nil _ _

theorem listTokens_flat_ne_nil (style : PathStyle) (types : List (SynType classes))
    (trailing : Bool) : (listTokens style ")" types trailing).flatMap String.toList ≠ [] := by
  cases types with
  | nil => exact List.cons_ne_nil _ _
  | cons type rest =>
    rw [listTokens, List.flatMap_append, List.flatMap_append, List.append_assoc]
    exact List.append_ne_nil_of_left_ne_nil (tokens_flat_ne_nil style type) _

/-- Only the empty tuple has the text of the unit type. -/
theorem eq_unit_of_flat {style : PathStyle} {type : SynType classes}
    (h : (tokens style type).flatMap String.toList = ['(', ')']) :
    ∃ trailing, type = .tuple [] trailing := by
  cases type with
  | path leading modules name =>
    obtain ⟨c, rest, hflat, hplain⟩ := pathTokens_flat style leading modules name []
    rw [List.append_nil] at hflat
    have hhead := (List.cons.inj (h.symm.trans hflat)).1
    exact absurd (hhead ▸ hplain) (by decide)
  | generic leading modules name args trailing =>
    obtain ⟨c, rest, hflat, hplain⟩ := pathTokens_flat style leading modules name
      ("<" :: listTokens style ">" args trailing)
    have hhead := (List.cons.inj (h.symm.trans hflat)).1
    exact absurd (hhead ▸ hplain) (by decide)
  | reference lifetime mutable inner => exact absurd (List.cons.inj h).1 (by decide)
  | slice inner => exact absurd (List.cons.inj h).1 (by decide)
  | paren inner =>
    have hinner : (tokens style inner ++ [")"]).flatMap String.toList = [')'] :=
      (List.cons.inj h).2
    have hlength := congrArg List.length hinner
    rw [List.flatMap_append, List.length_append] at hlength
    have hpos := List.length_pos_iff.mpr (tokens_flat_ne_nil style inner)
    have hclose : ([")"].flatMap String.toList).length = 1 := rfl
    rw [hclose, List.length_singleton] at hlength
    omega
  | tuple elems trailing =>
    cases elems with
    | nil => exact ⟨trailing, rfl⟩
    | cons first rest =>
      have hinner : (listTokens style ")" (first :: rest)
          (trailing || (first :: rest).length == 1)).flatMap String.toList = [')'] :=
        (List.cons.inj h).2
      have hlength := congrArg List.length hinner
      rw [listTokens, List.flatMap_append, List.flatMap_append, List.length_append,
        List.length_append, List.length_singleton] at hlength
      have hpos := List.length_pos_iff.mpr (tokens_flat_ne_nil style first)
      have hmore := List.length_pos_iff.mpr (listTokens_flat_ne_nil style rest
        (trailing || (first :: rest).length == 1))
      omega

/-- Discovery takes a text for unit only where it spells the empty tuple. -/
theorem unit_of_isUnit {style : PathStyle} {type : SynType classes} {text : String}
    (h : Spells classes text.toList (tokens style type))
    (hunit : RustTypes.isUnit classes text = true) : ∃ trailing, type = .tuple [] trailing := by
  rcases solid_of_isUnit hunit with hempty | hparens
  · rw [h.solid] at hempty
    exact absurd hempty (tokens_flat_ne_nil style type)
  · rw [h.solid] at hparens
    exact eq_unit_of_flat hparens

theorem isUnit_render {type : SynType classes} (h : readable type = true) :
    RustTypes.isUnit classes (render (rustType type)) = true ↔
      rustType type = .named "()" [] := by
  constructor
  · intro hunit
    have hspells := spells_render h (fun _ heq => (by cases heq)) Spells.nil
    rw [List.append_nil, List.append_nil] at hspells
    obtain ⟨trailing, hcore⟩ := unit_of_isUnit hspells hunit
    rw [← rustType_core, hcore]
    rfl
  · intro hunit
    rw [hunit]
    have hparen : ∀ c ∈ ['(', ')'], classes.isWhitespace c = false := by
      intro c hc
      have hspecial : ∀ c ∈ ['(', ')'], isSpecial c = true := forall_of_all (by decide)
      exact special_not_whitespace (hspecial c hc)
    have hwords : splitWhitespaceFrom classes [] ['(', ')'] = ["()"] := by
      rw [splitWhitespaceFrom, if_neg (by rw [hparen '(' (by decide)]; decide),
        splitWhitespaceFrom, if_neg (by rw [hparen ')' (by decide)]; decide), splitWhitespaceFrom]
      rfl
    have hnormal : RustTypes.normalize classes "()" = "()" := by
      have hchars : "()".toList = ['(', ')'] := rfl
      rw [RustTypes.normalize, hchars, hwords, String.intercalate_singleton]
    change (RustTypes.normalize classes "()" == "" || RustTypes.normalize classes "()" == "()") = true
    rw [hnormal]
    rfl

end SpecGate.SynTypes

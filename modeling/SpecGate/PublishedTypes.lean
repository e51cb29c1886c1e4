import SpecGate.Collecting
import SpecGate.QualifiedNames
import SpecGate.SynTypes

/-!
What the published text of a Rust type means to the reader of normalized schemas. Discovery maps
a type, writes it as a text, and puts owners in front of its names; the reader parses that text
and looks the names up on its own. What it reads is the meaning of the type, in which every name
stands for the type that discovery finds it to refer to.
-/
namespace SpecGate.PublishedTypes

open Checked SortedAssoc DiscoveredRegistries TypeExpressions RustTypes
open ReplayModel (ReplayType)
open ComponentClosure QualifiedNames TypeTree Collecting

/-! ### Reading a reference -/

section Reading

variable (context : TypeContext)

mutual

/-- The type that a reference stands for. -/
def denote : TypeTree → Except String ReplayType
  | .leaf name => if isPrimitive name then .ok (.primitive name) else context.namedType name
  | .apply head args => do
      let arguments ← denoteAll args
      constructGeneric head arguments
termination_by structural tree => tree

def denoteAll : List TypeTree → Except String (List ReplayType)
  | [] => .ok []
  | tree :: rest => do
      let type ← denote tree
      let types ← denoteAll rest
      return type :: types
termination_by structural trees => trees

end

end Reading

section Texts

variable {classes : CharClasses} {context : TypeContext} {input : List Char}

/-- A name as the parser reads it. -/
def Spoken (classes : CharClasses) (name : String) : Prop :=
  name.toList ≠ [] ∧ ∀ c ∈ name.toList, isNameChar classes c = true

theorem nameChar_not_whitespace {c : Char} (h : isNameChar classes c = true) :
    classes.isWhitespace c = false := by
  rw [Bool.eq_false_iff]
  intro hspace
  unfold isNameChar at h
  rw [classes.apart c hspace, Bool.false_or] at h
  rcases Bool.or_eq_true_iff.mp h with h | h
  · rcases Bool.or_eq_true_iff.mp h with h | h
    · rw [eq_of_beq h, not_whitespace (by decide) (by decide)] at hspace
      cases hspace
    · rw [eq_of_beq h, not_whitespace (by decide) (by decide)] at hspace
      cases hspace
  · rw [eq_of_beq h, not_whitespace (by decide) (by decide)] at hspace
    cases hspace

/-- No ASCII character is part of a name but letters, digits and three signs. -/
theorem nameChar_ascii {c : Char} (hascii : c.toNat < 128) (halnum : c.isAlphanum = false)
    (hsigns : c ≠ '_' ∧ c ≠ ':' ∧ c ≠ '.') : isNameChar classes c = false := by
  unfold isNameChar
  rw [classes.alphanumeric_ascii c hascii, halnum, beq_eq_false_iff_ne.mpr hsigns.1,
    beq_eq_false_iff_ne.mpr hsigns.2.1, beq_eq_false_iff_ne.mpr hsigns.2.2]
  rfl

theorem spoken_of_isName {name : String} (h : IsName classes name) : Spoken classes name := by
  refine ⟨h.1, fun c hc => ?_⟩
  have hfield := h.2 c hc
  unfold isFieldChar at hfield
  unfold isNameChar
  rw [hfield]
  rfl

theorem consume_plain {expected c : Char} {rest : List Char} (h : classes.isWhitespace c = false) :
    consume classes expected (c :: rest) =
      if c = expected then (true, rest) else (false, c :: rest) := by
  unfold consume skipWhitespace
  rw [List.dropWhile_cons, h, if_neg Bool.false_ne_true]

theorem consume_space {expected : Char} {rest : List Char} :
    consume classes expected (' ' :: rest) = consume classes expected rest := by
  have hspace : classes.isWhitespace ' ' = true := by
    rw [classes.whitespace_ascii ' ' (by decide)]
    decide
  unfold consume skipWhitespace
  rw [List.dropWhile_cons, hspace, if_pos rfl]

theorem ends_not_consumed {rest : List Char} (h : Ends rest) :
    consume classes '<' rest = (false, rest) := by
  rcases h with rfl | ⟨more, rfl | rfl⟩
  · rfl
  · rw [consume_plain (not_whitespace (by decide) (by decide)), if_neg (by decide)]
  · rw [consume_plain (not_whitespace (by decide) (by decide)), if_neg (by decide)]

theorem ends_not_name {rest : List Char} (h : Ends rest) :
    ∀ c ∈ rest.head?, isNameChar classes c = false := by
  intro c hc
  rcases h with rfl | ⟨more, rfl | rfl⟩
  · cases hc
  · obtain rfl := Option.some.inj hc
    exact nameChar_ascii (by decide) (by decide) (by decide)
  · obtain rfl := Option.some.inj hc
    exact nameChar_ascii (by decide) (by decide) (by decide)

/-- A name is read to its end. -/
theorem parseIdentifier_name {name : String} {rest : List Char} (h : Spoken classes name)
    (hrest : ∀ c ∈ rest.head?, isNameChar classes c = false) :
    parseIdentifier classes input (name.toList ++ rest) = .ok (name, rest) := by
  obtain ⟨c, word, hword⟩ := List.exists_cons_of_ne_nil h.1
  have hfirst : classes.isWhitespace c = false :=
    nameChar_not_whitespace (h.2 c (hword ▸ List.mem_cons_self))
  have hskip : skipWhitespace classes (name.toList ++ rest) = name.toList ++ rest := by
    rw [hword, List.cons_append, skipWhitespace, List.dropWhile_cons, hfirst,
      if_neg Bool.false_ne_true]
  have hend : rest.takeWhile (isNameChar classes) = [] ∧
      rest.dropWhile (isNameChar classes) = rest := by
    cases rest with
    | nil => exact ⟨rfl, rfl⟩
    | cons c rest =>
      rw [List.takeWhile_cons, List.dropWhile_cons, hrest c rfl]
      exact ⟨rfl, rfl⟩
  have htake : (name.toList ++ rest).takeWhile (isNameChar classes) = name.toList := by
    rw [List.takeWhile_append_of_pos h.2, hend.1, List.append_nil]
  have hdrop : (name.toList ++ rest).dropWhile (isNameChar classes) = rest := by
    rw [List.dropWhile_append_of_pos h.2, hend.2]
  unfold parseIdentifier
  dsimp only
  rw [hskip, htake, hdrop, List.isEmpty_eq_false_iff.mpr h.1, if_neg Bool.false_ne_true,
    String.ofList_toList]

/-- Where a name begins, a type is a name with or without arguments. -/
theorem parseType_name {name : String} {rest : List Char} {fuel : Nat} (h : Spoken classes name)
    (hrest : ∀ c ∈ rest.head?, isNameChar classes c = false) :
    parseType classes context input (fuel + 1) (name.toList ++ rest) =
      match consume classes '<' rest with
      | (true, rest) => do
          let (arguments, rest) ← parseArguments classes context input fuel rest
          let type ← constructGeneric name arguments
          return (type, rest)
      | (false, rest) =>
          if isPrimitive name then return (.primitive name, rest) else do
            let type ← context.namedType name
            return (type, rest) := by
  obtain ⟨c, word, hword⟩ := List.exists_cons_of_ne_nil h.1
  have hname : isNameChar classes c = true := h.2 c (hword ▸ List.mem_cons_self)
  have hsign : ∀ sign : Char, isNameChar classes sign = false → c ≠ sign := by
    intro sign hsign heq
    rw [heq, hsign] at hname
    cases hname
  have hbrace : consume classes '\x7b' (name.toList ++ rest) = (false, name.toList ++ rest) := by
    rw [hword, List.cons_append, consume_plain (nameChar_not_whitespace hname),
      if_neg (hsign _ (nameChar_ascii (by decide) (by decide) (by decide)))]
  have hparen : c ≠ '(' := hsign _ (nameChar_ascii (by decide) (by decide) (by decide))
  have hread : parseIdentifier classes input (name.toList ++ rest) = .ok (name, rest) :=
    parseIdentifier_name h hrest
  rw [hword, List.cons_append] at hbrace hread ⊢
  rw [parseType, hbrace]
  dsimp only
  split
  · rename_i hopen
    exact absurd (List.cons.inj hopen).1 hparen
  · rw [hread]
    change (match consume classes '<' rest with | (true, rest) => _ | (false, rest) => _) = _
    cases consume classes '<' rest with
    | mk found rest =>
      cases found with
      | true => rfl
      | false => rfl

theorem parseType_space {rest : List Char} {fuel : Nat} :
    parseType classes context input (fuel + 1) (' ' :: rest) =
      parseType classes context input (fuel + 1) rest := by
  rw [parseType, parseType, consume_space]

theorem text_cons (tree : TypeTree) (hnames : ∀ name ∈ tree.names, Spoken classes name)
    (happlied : tree.applied = true) :
    ∃ c word, tree.text = c :: word ∧ isNameChar classes c = true := by
  cases tree with
  | leaf name =>
    have hname := hnames name (List.mem_singleton.mpr rfl)
    obtain ⟨c, word, hword⟩ := List.exists_cons_of_ne_nil hname.1
    exact ⟨c, word, hword, hname.2 c (hword ▸ List.mem_cons_self)⟩
  | apply head args =>
    rw [applied, Bool.and_eq_true] at happlied
    have hhead : Spoken classes head := spoken_of_isName (constructor_isName happlied.1)
    obtain ⟨c, word, hword⟩ := List.exists_cons_of_ne_nil hhead.1
    rw [text, hword]
    exact ⟨c, _, rfl, hhead.2 c (hword ▸ List.mem_cons_self)⟩

theorem parseArguments_cons {tree : TypeTree} {trees : List TypeTree}
    (hnames : ∀ name ∈ tree.names, Spoken classes name) (happlied : tree.applied = true)
    (rest : List Char) (fuel : Nat) :
    parseArguments classes context input (fuel + 1) (textArgs (tree :: trees) ++ rest) =
      parseArgumentsFrom classes context input fuel (textArgs (tree :: trees) ++ rest) := by
  obtain ⟨c, word, hword, hc⟩ := text_cons tree hnames happlied
  have hclose : c ≠ '>' := by
    intro heq
    rw [heq, nameChar_ascii (by decide) (by decide) (by decide)] at hc
    cases hc
  rw [textArgs, hword, List.cons_append, List.cons_append, parseArguments,
    consume_plain (nameChar_not_whitespace hc), if_neg hclose]

theorem map_constructGeneric (head : String) (rest : List Char)
    (computation : Except String (List ReplayType)) :
    (do
      let (arguments, rest) ← computation.map fun types => (types, rest)
      let type ← constructGeneric head arguments
      return (type, rest)) =
    (do
      let arguments ← computation
      constructGeneric head arguments).map fun type => (type, rest) := by
  cases computation with
  | error failure => rfl
  | ok types =>
    change (constructGeneric head types >>= fun type => pure (type, rest)) =
      (constructGeneric head types).map fun type => (type, rest)
    cases constructGeneric head types with
    | error failure => rfl
    | ok type => rfl

mutual

/-- The parser reads a reference from its text. -/
theorem parseType_text (tree : TypeTree) (hnames : ∀ name ∈ tree.names, Spoken classes name)
    (happlied : tree.applied = true) {rest : List Char} (hrest : Ends rest) {fuel : Nat}
    (hfuel : 2 * tree.text.length ≤ fuel) :
    parseType classes context input (fuel + 1) (tree.text ++ rest) =
      (denote context tree).map fun type => (type, rest) := by
  cases tree with
  | leaf name =>
    have hname := hnames name (List.mem_singleton.mpr rfl)
    rw [text, denote, parseType_name hname (ends_not_name hrest), ends_not_consumed hrest]
    dsimp only
    by_cases hprimitive : isPrimitive name = true
    · rw [if_pos hprimitive, if_pos hprimitive]
      rfl
    · rw [if_neg hprimitive, if_neg hprimitive]
      cases context.namedType name with
      | error failure => rfl
      | ok type => rfl
  | apply head args =>
    rw [applied, Bool.and_eq_true] at happlied
    have hhead : Spoken classes head := spoken_of_isName (constructor_isName happlied.1)
    have hlong : 1 ≤ head.toList.length := List.length_pos_of_ne_nil hhead.1
    have hclose : head.toList ++ '<' :: (textArgs args ++ ['>']) ++ rest =
        head.toList ++ '<' :: (textArgs args ++ '>' :: rest) := by simp
    have hopen : ∀ c ∈ ('<' :: (textArgs args ++ '>' :: rest)).head?,
        isNameChar classes c = false := by
      intro c hc
      obtain rfl := Option.some.inj hc
      exact nameChar_ascii (by decide) (by decide) (by decide)
    rw [text] at hfuel
    simp only [List.length_append, List.length_cons, List.length_nil] at hfuel
    obtain ⟨fuel, rfl⟩ : ∃ less, fuel = less + 2 := ⟨fuel - 2, by omega⟩
    rw [text, denote, hclose, parseType_name hhead hopen,
      consume_plain (not_whitespace (by decide) (by decide)), if_pos rfl, ← map_constructGeneric]
    dsimp only
    cases args with
    | nil =>
      rw [textArgs, List.nil_append, parseArguments,
        consume_plain (not_whitespace (by decide) (by decide)), if_pos rfl, denoteAll]
      rfl
    | cons tree trees =>
      have hfirst := happlied.2
      rw [appliedAll, Bool.and_eq_true] at hfirst
      rw [parseArguments_cons (fun name h => hnames name (List.mem_append_left _ h)) hfirst.1,
        parseArguments_text (tree :: trees) (List.cons_ne_nil tree trees) hnames happlied.2 rest
          (by omega)]
termination_by structural tree

theorem parseArguments_text (trees : List TypeTree) (hne : trees ≠ [])
    (hnames : ∀ name ∈ namesAll trees, Spoken classes name) (happlied : appliedAll trees = true)
    (rest : List Char) {fuel : Nat} (hfuel : 2 * (textArgs trees).length + 1 ≤ fuel) :
    parseArgumentsFrom classes context input (fuel + 1) (textArgs trees ++ '>' :: rest) =
      (denoteAll context trees).map fun types => (types, rest) := by
  cases trees with
  | nil => exact absurd rfl hne
  | cons tree trees =>
    rw [appliedAll, Bool.and_eq_true] at happlied
    rw [textArgs, List.length_append] at hfuel
    obtain ⟨fuel, rfl⟩ : ∃ less, fuel = less + 1 := ⟨fuel - 1, by omega⟩
    have htree := parseType_text tree (fun name h => hnames name (List.mem_append_left _ h))
      happlied.1 (ends_textRest trees rest) (show 2 * tree.text.length ≤ fuel by omega)
    rw [textArgs, List.append_assoc, parseArgumentsFrom, htree, denoteAll]
    cases denote context tree with
    | error failure => rfl
    | ok type =>
      change (match consume classes '>' (textRest trees ++ '>' :: rest) with
        | (true, rest) => _ | (false, rest) => _) = _
      cases trees with
      | nil =>
        rw [textRest, List.nil_append, consume_plain (not_whitespace (by decide) (by decide)),
          if_pos rfl]
        rfl
      | cons next others =>
        rw [textRest] at hfuel
        simp only [List.length_cons] at hfuel
        have hothers := parseArguments_text (next :: others) (List.cons_ne_nil next others)
          (fun name h => hnames name (List.mem_append_right _ h)) happlied.2 rest
          (show 2 * (textArgs (next :: others)).length + 1 ≤ fuel by rw [textArgs]; omega)
        have hcomma : textRest (next :: others) ++ '>' :: rest =
            ',' :: ' ' :: (textArgs (next :: others) ++ '>' :: rest) := by
          rw [textRest, textArgs, List.cons_append, List.cons_append]
        have hspace : parseArgumentsFrom classes context input (fuel + 1)
            (' ' :: (textArgs (next :: others) ++ '>' :: rest)) =
              parseArgumentsFrom classes context input (fuel + 1)
                (textArgs (next :: others) ++ '>' :: rest) := by
          obtain ⟨fuel, rfl⟩ : ∃ less, fuel = less + 1 := ⟨fuel - 1, by omega⟩
          rw [parseArgumentsFrom, parseArgumentsFrom, parseType_space]
        rw [hcomma, consume_plain (not_whitespace (by decide) (by decide)), if_neg (by decide)]
        dsimp only
        rw [consume_plain (not_whitespace (by decide) (by decide)), if_pos rfl]
        dsimp only
        rw [hspace, hothers]
        cases denoteAll context (next :: others) with
        | error failure => rfl
        | ok types => rfl
termination_by structural trees

end

theorem typeRef_text {tree : TypeTree} (hnames : ∀ name ∈ tree.names, Spoken classes name)
    (happlied : tree.applied = true) :
    typeRef classes context (String.ofList tree.text) = denote context tree := by
  have hread : parseType classes context tree.text (2 * tree.text.length + 1 + 1)
      (tree.text ++ []) = (denote context tree).map fun type => (type, []) :=
    parseType_text tree hnames happlied (.inl rfl) (by omega)
  rw [List.append_nil] at hread
  unfold typeRef
  dsimp only
  rw [String.toList_ofList, parserFuel, hread]
  cases denote context tree with
  | error failure => rfl
  | ok type => rfl

end Texts

/-! ### Types as they are read -/

section Parsed

variable {classes : CharClasses}

mutual

/-- The names have no path before them, and unit stands for itself. -/
def pathless : RustType → Bool
  | .named name args =>
      if name = "()" then args.isEmpty else (rsplitPath name.toList).isNone && pathlessAll args
  | .ref inner | .slice inner => pathless inner
  | .tuple items => !items.isEmpty && pathlessAll items
termination_by structural type => type

def pathlessAll : List RustType → Bool
  | [] => true
  | type :: rest => pathless type && pathlessAll rest
termination_by structural types => types

end

theorem rsplitPath_last {text front last : List Char} (h : rsplitPath text = some (front, last)) :
    rsplitPath last = none := by
  induction text generalizing front with
  | nil => cases h
  | cons c rest ih =>
    unfold rsplitPath at h
    cases hrest : rsplitPath rest with
    | some parts =>
      rw [hrest] at h
      obtain ⟨_, rfl⟩ := Prod.mk.inj (Option.some.inj h)
      exact ih hrest
    | none =>
      rw [hrest] at h
      dsimp only at h
      split at h
      · rename_i name
        obtain ⟨_, rfl⟩ := Prod.mk.inj (Option.some.inj h)
        by_contra hsome
        obtain ⟨parts, hparts⟩ := Option.ne_none_iff_exists'.mp hsome
        have hlonger := SynTypes.rsplitPath_found ':' hparts
        rw [hrest] at hlonger
        cases hlonger
      · cases h

theorem rsplitPath_stripPath (name : String) : rsplitPath (stripPath name).toList = none := by
  unfold stripPath
  cases h : rsplitPath name.toList with
  | none => exact h
  | some parts =>
    obtain ⟨front, last⟩ := parts
    dsimp only
    rw [String.toList_ofList]
    exact rsplitPath_last h

theorem rsplitPath_suffix {text front last : List Char}
    (h : rsplitPath text = some (front, last)) : last <:+ text := by
  induction text generalizing front with
  | nil => cases h
  | cons c rest ih =>
    unfold rsplitPath at h
    cases hrest : rsplitPath rest with
    | some parts =>
      rw [hrest] at h
      obtain ⟨_, rfl⟩ := Prod.mk.inj (Option.some.inj h)
      exact (ih hrest).trans (List.suffix_cons c rest)
    | none =>
      rw [hrest] at h
      dsimp only at h
      split at h
      · rename_i name
        obtain ⟨_, rfl⟩ := Prod.mk.inj (Option.some.inj h)
        exact (List.suffix_cons ':' name).trans (List.suffix_cons ':' (':' :: name))
      · cases h

/-- A token with an opening parenthesis is nothing else. -/
def Token (token : String) : Prop := '(' ∈ token.toList → token = "("

theorem token_flush {word : List Char} (h : '(' ∉ word) : ∀ token ∈ flush word, Token token := by
  intro token htoken hmem
  unfold flush at htoken
  split_ifs at htoken
  · cases htoken
  · rw [List.mem_singleton.mp htoken, String.toList_ofList] at hmem
    exact absurd hmem h

theorem token_tokenizeFrom {word : List Char} (h : '(' ∉ word) (text : List Char) :
    ∀ token ∈ tokenizeFrom classes word text, Token token := by
  induction text generalizing word with
  | nil => exact token_flush h
  | cons c rest ih =>
    unfold tokenizeFrom
    split_ifs with hspecial hspace
    · rw [List.forall_mem_append, List.forall_mem_cons]
      refine ⟨token_flush h, fun hmem => ?_, ih List.not_mem_nil⟩
      rw [Char.toString_eq_singleton, String.toList_singleton] at hmem
      rw [← List.mem_singleton.mp hmem]
      rfl
    · rw [List.forall_mem_append]
      exact ⟨token_flush h, ih List.not_mem_nil⟩
    · refine ih fun hmem => ?_
      rcases List.mem_append.mp hmem with hmem | hmem
      · exact h hmem
      · rw [← List.mem_singleton.mp hmem] at hspecial
        exact hspecial rfl

theorem stripPath_ne_unit {token : String} (h : Token token) : stripPath token ≠ "()" := by
  intro heq
  have hmem : '(' ∈ token.toList := by
    unfold stripPath at heq
    cases hsplit : rsplitPath token.toList with
    | none =>
      rw [hsplit] at heq
      dsimp only at heq
      rw [heq]
      decide
    | some parts =>
      obtain ⟨front, last⟩ := parts
      rw [hsplit] at heq
      dsimp only at heq
      refine (rsplitPath_suffix hsplit).subset ?_
      rw [← String.toList_ofList (l := last), heq]
      decide
  rw [h hmem] at heq
  exact absurd heq (by decide)

def Tokens (tokens : List String) : Prop := ∀ token ∈ tokens, Token token

theorem Tokens.tail {token : String} {rest : List String} (h : Tokens (token :: rest)) :
    Tokens rest := fun other hother => h other (List.mem_cons_of_mem _ hother)

theorem tokens_skipQualifiers {tokens : List String} (h : Tokens tokens) :
    Tokens (skipQualifiers tokens) := by
  cases tokens with
  | nil => exact h
  | cons token rest =>
    unfold skipQualifiers
    dsimp only
    split_ifs
    · split
      · exact h.tail.tail
      · exact h.tail
    · split
      · rename_i heq
        cases heq
        exact h.tail
      · exact h

theorem lastSegment_tokens {name : String} {tokens : List String} (hname : Token name)
    (htokens : Tokens tokens) :
    Token (lastSegment name tokens).1 ∧ Tokens (lastSegment name tokens).2 := by
  fun_induction lastSegment name tokens with
  | case1 name segment rest ih => exact ih (htokens segment (by simp)) htokens.tail.tail
  | case2 name => exact ⟨hname, fun token h => by cases h⟩
  | case3 name rest => exact ⟨hname, htokens⟩

/-- What is parsed has the property, and tokens are left over. -/
def Yields {β : Type} (P : β → Prop) (parsed : Option (β × List String)) : Prop :=
  ∀ value rest, parsed = some (value, rest) → P value ∧ Tokens rest

theorem yields_none {β : Type} {P : β → Prop} : Yields P none := fun value rest h => by cases h

theorem yields_some {β : Type} {P : β → Prop} {value : β} {rest : List String} (hvalue : P value)
    (hrest : Tokens rest) : Yields P (some (value, rest)) := by
  rintro _ _ ⟨⟩
  exact ⟨hvalue, hrest⟩

theorem yields_bind {β γ : Type} {P : β → Prop} {Q : γ → Prop} {parsed : Option (β × List String)}
    {next : β × List String → Option (γ × List String)} (h : Yields P parsed)
    (hnext : ∀ value rest, P value → Tokens rest → Yields Q (next (value, rest))) :
    Yields Q (parsed >>= next) := by
  cases parsed with
  | none => exact yields_none
  | some found =>
    obtain ⟨hvalue, hrest⟩ := h found.1 found.2 rfl
    exact hnext _ _ hvalue hrest

theorem parsePath_tokens {tokens : List String} (htokens : Tokens tokens) :
    Yields (fun name => name ≠ "()" ∧ (rsplitPath name.toList).isNone = true)
      (parsePath tokens) := by
  unfold parsePath
  dsimp only
  split
  · exact yields_none
  · rename_i first others hinner
    have hall : Tokens (first :: others) := by
      rw [← hinner]
      split
      · exact htokens.tail
      · exact htokens
    obtain ⟨hname, hrest⟩ := lastSegment_tokens (hall first List.mem_cons_self) hall.tail
    exact yields_some
      ⟨stripPath_ne_unit hname, Option.isNone_iff_eq_none.mpr (rsplitPath_stripPath _)⟩ hrest

theorem pathless_named {name : String} {args : List RustType} (hname : name ≠ "()")
    (hpath : (rsplitPath name.toList).isNone = true) (hargs : pathlessAll args = true) :
    pathless (.named name args) = true := by
  rw [pathless, if_neg hname, hpath, hargs]
  rfl

theorem pathlessAll_cons {type : RustType} {types : List RustType} (htype : pathless type = true)
    (htypes : pathlessAll types = true) : pathlessAll (type :: types) = true := by
  rw [pathlessAll, htype, htypes]
  rfl

/-- What is parsed from tokens is pathless, and tokens are left over. -/
theorem parse_pathless (fuel : Nat) {tokens : List String} (htokens : Tokens tokens) :
    Yields (pathless · = true) (parseTokens fuel tokens) ∧
    Yields (pathlessAll · = true) (parseItems fuel tokens) ∧
    Yields (pathlessAll · = true) (parseArgs fuel tokens) := by
  induction fuel generalizing tokens with
  | zero => rw [parseTokens, parseItems, parseArgs]; exact ⟨yields_none, yields_none, yields_none⟩
  | succ fuel ih =>
    have ihType {tokens : List String} (htokens : Tokens tokens) := (ih htokens).1
    have ihItems {tokens : List String} (htokens : Tokens tokens) := (ih htokens).2.1
    have ihArgs {tokens : List String} (htokens : Tokens tokens) := (ih htokens).2.2
    refine ⟨?_, ?_, ?_⟩
    · unfold parseTokens
      split
      · exact yields_none
      · exact yields_bind (ihType (tokens_skipQualifiers htokens.tail))
          fun inner after hinner hafter => yields_some hinner hafter
      · refine yields_bind (ihType htokens.tail) fun inner after hinner hafter => ?_
        dsimp only
        split
        · exact yields_some hinner hafter.tail
        · exact yields_none
      · exact yields_some rfl htokens.tail.tail
      · refine yields_bind (ihType htokens.tail) fun first after hfirst hafter => ?_
        dsimp only
        split
        · exact yields_some hfirst hafter.tail
        · refine yields_bind (ihItems hafter.tail) fun items others hitems hothers =>
            yields_some ?_ hothers
          rw [pathless, pathlessAll_cons hfirst hitems]
          rfl
        · exact yields_none
      · exact yields_none
      · exact yields_none
      · exact yields_none
      · exact yields_none
      · refine yields_bind (parsePath_tokens htokens) fun name after hname hafter => ?_
        dsimp only
        split
        · exact yields_bind (ihArgs hafter.tail) fun args others hargs hothers =>
            yields_some (pathless_named hname.1 hname.2 hargs) hothers
        · exact yields_some (pathless_named hname.1 hname.2 rfl) hafter
    · unfold parseItems
      split
      · exact yields_some rfl htokens.tail
      · refine yields_bind (ihType htokens) fun item after hitem hafter => ?_
        dsimp only
        split
        · exact yields_bind (ihItems hafter.tail) fun items others hitems hothers =>
            yields_some (pathlessAll_cons hitem hitems) hothers
        · exact yields_some (pathlessAll_cons hitem rfl) hafter.tail
        · exact yields_none
    · unfold parseArgs
      split
      · exact yields_none
      · exact yields_none
      · refine yields_bind (ihType htokens) fun arg after harg hafter => ?_
        dsimp only
        split
        · exact yields_bind (ihArgs hafter.tail) fun args others hargs hothers =>
            yields_some (pathlessAll_cons harg hargs) hothers
        · exact yields_some (pathlessAll_cons harg rfl) hafter.tail
        · exact yields_none

theorem pathless_of_parse {text : String} {type : RustType} (h : parse classes text = some type) :
    pathless type = true := by
  unfold parse at h
  dsimp only at h
  split at h
  · rename_i found hfound
    obtain rfl := Option.some.inj h
    exact ((parse_pathless _ (token_tokenizeFrom List.not_mem_nil _)).1 _ _ hfound).1
  · cases h

end Parsed

/-! ### Meaning -/

section Meaning

variable (registry : Registry) (component : String)

/-- The registered type a name stands for, seen from a component. -/
def named (name : String) : Option ReplayType :=
  match owner registry name component with
  | .ok target =>
      if target = component then some (.named name ⟨none, none⟩)
      else some (.named name ⟨some target, none⟩)
  | .error _ => none

def plainMeaning (name : String) : Option ReplayType :=
  if isPrimitive name then some (.primitive name) else named registry component name

/-- The meaning of a named type from those of its arguments; a type of Rust's library that has no
counterpart means nothing. -/
def namedMeaning (name : String) (args : List (Option ReplayType)) : Option ReplayType :=
  if textNames.contains name then some (.primitive "string")
  else
    match args with
    | [] =>
        if name = "()" then some (.primitive "unit")
        else if runtimeValue name then none
        else plainMeaning registry component name
    | [item] =>
        if name = "Option" then item.map .optional
        else if name = "Vec" then item.map fun items => .collection items true false
        else if name = "HashSet" ∨ name = "BTreeSet" then
          item.map fun items => .collection items false true
        else plainMeaning registry component name
    | [first, second] =>
        if name = "Result" then none
        else if name = "HashMap" ∨ name = "BTreeMap" then do
          let keys ← first
          let values ← second
          return .map keys values false
        else plainMeaning registry component name
    | _ => plainMeaning registry component name

mutual

/-- What a Rust type of a component means among the types of a registry. -/
def meaning : RustType → Option ReplayType
  | .named name args => namedMeaning registry component name (meanings args)
  | .ref inner => meaning inner
  | .slice inner => (meaning inner).map fun items => .collection items true false
  | .tuple items => (collect id (meanings items)).map .tuple
termination_by structural type => type

def meanings : List RustType → List (Option ReplayType)
  | [] => []
  | type :: rest => meaning type :: meanings rest
termination_by structural types => types

end

end Meaning

/-! ### Names -/

/-- The names of a registry that stay apart from those of built-in types and can be read from
texts. -/
structure PlainNames (classes : CharClasses) (registry : Registry) : Prop where
  words : ∀ ty ∈ registry.types, IsName classes ty.name
  apart : ∀ ty ∈ registry.types, builtin ty.name = false ∧ isPrimitive ty.name = false
  keyword : ∀ ty ∈ registry.types, ty.name ≠ "mut"
  owners : ∀ ty ∈ registry.types, ∀ c ∈ ty.component.toList, isNameChar classes c = true

/-- The check of one type for plain names. -/
def plainType (classes : CharClasses) (ty : RawType) : Bool :=
  !ty.name.toList.isEmpty && ty.name.toList.all (isFieldChar classes) &&
    !builtin ty.name && !isPrimitive ty.name && ty.name != "mut" &&
    ty.component.toList.all (isNameChar classes)

theorem plainNames_of_all {classes : CharClasses} {registry : Registry}
    (h : registry.types.all (plainType classes) = true) : PlainNames classes registry := by
  have hall : ∀ ty ∈ registry.types, IsName classes ty.name ∧
      (builtin ty.name = false ∧ isPrimitive ty.name = false) ∧ ty.name ≠ "mut" ∧
      ∀ c ∈ ty.component.toList, isNameChar classes c = true := by
    intro ty hty
    have hplain := List.all_eq_true.mp h ty hty
    simp only [plainType, Bool.and_eq_true, Bool.not_eq_true', List.isEmpty_eq_false_iff,
      List.all_eq_true, bne_iff_ne] at hplain
    obtain ⟨⟨⟨⟨⟨hne, hword⟩, hbuiltin⟩, hprimitive⟩, hkeyword⟩, howner⟩ := hplain
    exact ⟨⟨hne, hword⟩, ⟨hbuiltin, hprimitive⟩, hkeyword, howner⟩
  exact ⟨fun ty hty => (hall ty hty).1, fun ty hty => (hall ty hty).2.1,
    fun ty hty => (hall ty hty).2.2.1, fun ty hty => (hall ty hty).2.2.2⟩

/-- A context that a component can be read in: it has the types of the component and of the
dependencies, as they are registered. -/
structure Serves (registry : Registry) (component : String) (context : TypeContext) : Prop where
  own : context.component = component
  declares : ∀ target name, target = component ∨ target ∈ context.dependencies →
    (context.declares target name = true ↔
      ∃ ty ∈ registry.types, ty.component = target ∧ ty.name = name)

section Names

variable {classes : CharClasses} {registry : Registry} {component name target : String}
  {context : TypeContext}

theorem colon_not_mem (h : IsName classes name) : ':' ∉ name.toList := by
  intro hmem
  have hcolon := h.2 ':' hmem
  rw [isFieldChar_ascii (by decide) (by decide) (by decide)] at hcolon
  cases hcolon

theorem Owns.registered (h : Owns registry component name target) :
    ∃ ty ∈ registry.types, ty.component = target ∧ ty.name = name := by
  rcases h.2 with ⟨ty, honly, rfl⟩ | ⟨-, ty, honly, rfl⟩
  · obtain ⟨hty, hboth⟩ := List.mem_filter.mp (honly ▸ List.mem_singleton.mpr rfl)
    rw [Bool.and_eq_true] at hboth
    exact ⟨ty, hty, eq_of_beq hboth.2, eq_of_beq hboth.1⟩
  · obtain ⟨hty, hname⟩ := List.mem_filter.mp (honly ▸ List.mem_singleton.mpr rfl)
    exact ⟨ty, hty, rfl, eq_of_beq hname⟩

/-- A name without a type is not qualified. -/
theorem name_of_unregistered (h : ∀ ty ∈ registry.types, ty.name ≠ name) :
    (Qualifier.new component registry).name name = name := by
  have hlookup : lookup (Qualifier.new component registry).external name = none := by
    refine lookup_eq_none_iff.mpr fun hmem => ?_
    rw [Qualifier.new, mem_keys_ofList] at hmem
    obtain ⟨entry, hentry, rfl⟩ := List.mem_map.mp hmem
    obtain ⟨ty, hty, rfl⟩ := List.mem_map.mp hentry
    exact h ty (List.mem_of_mem_filter hty) rfl
  unfold Qualifier.name
  rw [hlookup]
  exact ite_self _

theorem named_of_owns (h : Owns registry component name target) :
    named registry component name = if target = component then some (.named name ⟨none, none⟩)
      else some (.named name ⟨some target, none⟩) := by
  unfold named
  rw [owner_eq_ok.mpr h]

theorem named_of_unregistered (h : ∀ ty ∈ registry.types, ty.name ≠ name) :
    named registry component name = none := by
  unfold named
  cases howner : owner registry name component with
  | error failure => rfl
  | ok target =>
    obtain ⟨ty, hty, -, hname⟩ := Owns.registered (owner_eq_ok.mp howner)
    exact absurd hname (h ty hty)

theorem rsplitPath_owned (h : ':' ∉ name.toList) :
    rsplitPath (target ++ "::" ++ name).toList = some (target.toList, name.toList) := by
  rw [String.toList_append, String.toList_append, List.append_assoc]
  have hsplit := SynTypes.rsplitPath_append (SynTypes.rsplitPath_separator h) target.toList
  rw [List.append_nil] at hsplit
  exact hsplit

theorem rsplitPath_primitive (h : isPrimitive name = true) : rsplitPath name.toList = none := by
  have hall := List.all_eq_true.mp (show
    (["unit", "string", "bool", "i32", "i64", "u32", "u64", "f32", "f64", "bytes"].all fun name =>
      (rsplitPath name.toList).isNone) = true by decide) name (List.contains_iff_mem.mp h)
  exact Option.isNone_iff_eq_none.mp hall

/-- The reader finds the type that a name stands for. -/
theorem namedType_of_owns (hplain : PlainNames classes registry)
    (hserves : Serves registry component context) (h : Owns registry component name target)
    (hreach : target = component ∨ target ∈ context.dependencies) :
    isPrimitive ((Qualifier.new component registry).name name) = false ∧
      (context.namedType ((Qualifier.new component registry).name name)).toOption =
        named registry component name := by
  obtain ⟨ty, hty, hcomponent, rfl⟩ := Owns.registered h
  have hcolon : ':' ∉ ty.name.toList := colon_not_mem (hplain.words ty hty)
  have hdeclared : context.declares target ty.name = true :=
    (hserves.declares target ty.name hreach).mpr ⟨ty, hty, hcomponent, rfl⟩
  rw [name_of_owns h, named_of_owns h]
  by_cases htarget : target = component
  · subst htarget
    refine ⟨by rw [if_pos rfl]; exact (hplain.apart ty hty).2, ?_⟩
    rw [if_pos rfl, if_pos rfl, TypeContext.namedType, SynTypes.rsplitPath_of_no_colon hcolon]
    dsimp only
    rw [hserves.own, hdeclared, if_pos rfl]
    rfl
  · rw [if_neg htarget, if_neg htarget]
    have hmem : target ∈ context.dependencies := hreach.resolve_left htarget
    constructor
    · rw [Bool.eq_false_iff]
      intro hprimitive
      have hnone := rsplitPath_primitive hprimitive
      rw [rsplitPath_owned hcolon] at hnone
      cases hnone
    · rw [TypeContext.namedType, rsplitPath_owned hcolon]
      dsimp only
      rw [String.ofList_toList, String.ofList_toList, hserves.own,
        if_neg (fun hnot => hnot.2 hmem), hdeclared, Bool.not_true, if_neg Bool.false_ne_true,
        if_neg htarget, if_neg h.1]
      rfl

/-- The types of a list of names are registered where the reader looks for them. -/
def Reached (registry : Registry) (component : String) (context : TypeContext)
    (names : List String) : Prop :=
  ∀ name ∈ names, ∃ target, Owns registry component name target ∧
    (target = component ∨ target ∈ context.dependencies)

/-- A name that is read alone is the type it stands for. -/
theorem denote_plain (hplain : PlainNames classes registry)
    (hserves : Serves registry component context) (hpath : rsplitPath name.toList = none)
    (hreached : builtin name = false → Reached registry component context [name]) :
    (denote context (.leaf ((Qualifier.new component registry).name name))).toOption =
      plainMeaning registry component name := by
  by_cases hregistered : ∃ ty ∈ registry.types, ty.name = name
  · obtain ⟨ty, hty, rfl⟩ := hregistered
    obtain ⟨target, howns, hreach⟩ :=
      hreached (hplain.apart ty hty).1 ty.name (List.mem_singleton.mpr rfl)
    obtain ⟨hprimitive, hnamed⟩ := namedType_of_owns hplain hserves howns hreach
    rw [denote, plainMeaning, hprimitive, (hplain.apart ty hty).2, if_neg Bool.false_ne_true,
      if_neg Bool.false_ne_true, hnamed]
  · have hnone : ∀ ty ∈ registry.types, ty.name ≠ name := fun ty hty heq =>
      hregistered ⟨ty, hty, heq⟩
    rw [name_of_unregistered hnone, denote, plainMeaning, named_of_unregistered hnone]
    by_cases hprimitive : isPrimitive name = true
    · rw [if_pos hprimitive, if_pos hprimitive]
      rfl
    · have hundeclared : context.declares component name = false := by
        rw [Bool.eq_false_iff]
        intro hdeclared
        obtain ⟨ty, hty, -, hname⟩ := (hserves.declares component name (.inl rfl)).mp hdeclared
        exact hnone ty hty hname
      rw [if_neg hprimitive, if_neg hprimitive, TypeContext.namedType, hpath]
      dsimp only
      rw [hserves.own, hundeclared, if_neg Bool.false_ne_true]
      rfl

theorem unregistered_of_primitive (hplain : PlainNames classes registry)
    (h : isPrimitive name = true) : ∀ ty ∈ registry.types, ty.name ≠ name := by
  intro ty hty heq
  have hfalse := (hplain.apart ty hty).2
  rw [heq, h] at hfalse
  cases hfalse

theorem unregistered_of_builtin (hplain : PlainNames classes registry)
    (h : builtin name = true) : ∀ ty ∈ registry.types, ty.name ≠ name := by
  intro ty hty heq
  have hfalse := (hplain.apart ty hty).1
  rw [heq, h] at hfalse
  cases hfalse

theorem denote_primitive (hplain : PlainNames classes registry) (h : isPrimitive name = true) :
    denote context (.leaf ((Qualifier.new component registry).name name)) =
      .ok (.primitive name) := by
  rw [name_of_unregistered (unregistered_of_primitive hplain h), denote, if_pos h]

theorem denote_value (hplain : PlainNames classes registry)
    (hserves : Serves registry component context) :
    (denote context (.leaf ((Qualifier.new component registry).name "value"))).toOption = none := by
  rw [denote_plain hplain hserves rfl (fun h => by cases h)]
  rw [plainMeaning, if_neg (by decide),
    named_of_unregistered (unregistered_of_builtin hplain (by decide))]

theorem denote_one {head : String} {built : ReplayType → ReplayType}
    (h : ∀ type, constructGeneric head [type] = .ok (built type)) (tree : TypeTree) :
    (denote context (.apply head [tree])).toOption = (denote context tree).toOption.map built := by
  rw [denote, denoteAll, denoteAll]
  cases denote context tree with
  | error failure => rfl
  | ok type => exact congrArg Except.toOption (h type)

theorem denote_two (head : String) (first second : TypeTree) :
    (denote context (.apply head [first, second])).toOption =
      (denote context first).toOption.bind fun type =>
        (denote context second).toOption.bind fun other =>
          (constructGeneric head [type, other]).toOption := by
  rw [denote, denoteAll, denoteAll, denoteAll]
  cases denote context first with
  | error failure => rfl
  | ok type =>
    cases denote context second with
    | error failure => rfl
    | ok other => rfl

/-- References that are read, once their names are qualified, with certain meanings. -/
def Denoted (registry : Registry) (component : String) (context : TypeContext) :
    List TypeTree → List (Option ReplayType) → Prop :=
  List.Forall₂ fun tree type =>
    (denote context (tree.rename (Qualifier.new component registry).name)).toOption = type

theorem denote_named (hplain : PlainNames classes registry)
    (hserves : Serves registry component context) {trees : List TypeTree}
    {types : List (Option ReplayType)} (hargs : Denoted registry component context trees types)
    (hunit : name = "()" → trees = []) (hpath : name ≠ "()" → rsplitPath name.toList = none)
    (hreached : builtin name = false → Reached registry component context [name]) :
    (denote context ((namedTree name trees).rename (Qualifier.new component registry).name)).toOption =
      namedMeaning registry component name types := by
  have hplainName : name ≠ "()" →
      (denote context (.leaf ((Qualifier.new component registry).name name))).toOption =
        plainMeaning registry component name := fun hname =>
    denote_plain hplain hserves (hpath hname) hreached
  unfold namedTree namedMeaning
  by_cases htext : textNames.contains name = true
  · rw [if_pos htext, if_pos htext, rename, denote_primitive hplain (by decide)]
    rfl
  rw [if_neg htext, if_neg htext]
  cases hargs with
  | nil =>
    dsimp only
    by_cases hname : name = "()"
    · rw [if_pos hname, if_pos hname, rename, denote_primitive hplain (by decide)]
      rfl
    rw [if_neg hname, if_neg hname]
    by_cases hvalue : runtimeValue name = true
    · rw [if_pos hvalue, if_pos hvalue, rename, denote_value hplain hserves]
    · rw [if_neg hvalue, if_neg hvalue, rename, hplainName hname]
  | @cons tree type trees types htree htrees =>
    have hname : name ≠ "()" := fun heq => by cases hunit heq
    cases htrees with
    | nil =>
      dsimp only
      by_cases hoption : name = "Option"
      · rw [if_pos hoption, if_pos hoption, rename, renameAll, renameAll, denote_one fun _ => rfl,
          htree]
      rw [if_neg hoption, if_neg hoption]
      by_cases hvec : name = "Vec"
      · rw [if_pos hvec, if_pos hvec, rename, renameAll, renameAll, denote_one fun _ => rfl,
          htree]
      rw [if_neg hvec, if_neg hvec]
      by_cases hset : name = "HashSet" ∨ name = "BTreeSet"
      · rw [if_pos hset, if_pos hset, rename, renameAll, renameAll, denote_one fun _ => rfl,
          htree]
      · rw [if_neg hset, if_neg hset, rename, hplainName hname]
    | @cons other second trees types hother htrees =>
      cases htrees with
      | nil =>
        dsimp only
        by_cases hresult : name = "Result"
        · rw [if_pos hresult, if_pos hresult, rename, renameAll, renameAll, renameAll, denote_two]
          cases (denote context (tree.rename (Qualifier.new component registry).name)).toOption with
          | none => rfl
          | some first =>
            cases (denote context (other.rename
              (Qualifier.new component registry).name)).toOption with
            | none => rfl
            | some second => rfl
        rw [if_neg hresult, if_neg hresult]
        by_cases hmap : name = "HashMap" ∨ name = "BTreeMap"
        · rw [if_pos hmap, if_pos hmap, rename, renameAll, renameAll, renameAll, denote_two, htree,
            hother]
          rfl
        · rw [if_neg hmap, if_neg hmap, rename, hplainName hname]
      | cons third more =>
        dsimp only
        rw [rename, hplainName hname]

theorem denoteAll_toOption {trees : List TypeTree} {types : List (Option ReplayType)}
    (h : Denoted registry component context trees types) :
    (denoteAll context (renameAll (Qualifier.new component registry).name trees)).toOption =
      collect id types := by
  induction h with
  | nil => rfl
  | @cons tree type trees types htree _ ih =>
    rw [renameAll, denoteAll, collect, id, ← htree, ← ih]
    cases denote context (tree.rename (Qualifier.new component registry).name) with
    | error failure => rfl
    | ok first =>
      cases denoteAll context (renameAll (Qualifier.new component registry).name trees) with
      | error failure => rfl
      | ok others => rfl

theorem renameAll_singleton (f : String → String) (tree : TypeTree) :
    renameAll f [tree] = [tree.rename f] := by
  rw [renameAll, renameAll]

theorem denote_tuple {trees : List TypeTree} (hne : trees ≠ []) :
    (denote context (.apply "Tuple" trees)).toOption =
      (denoteAll context trees).toOption.map .tuple := by
  cases trees with
  | nil => exact absurd rfl hne
  | cons tree trees =>
    rw [denote, denoteAll]
    cases denote context tree with
    | error failure => rfl
    | ok first =>
      cases denoteAll context trees with
      | error failure => rfl
      | ok others => rfl

theorem Reached.append_left {left right : List String}
    (h : Reached registry component context (left ++ right)) :
    Reached registry component context left := fun name hname =>
  h name (List.mem_append_left right hname)

theorem Reached.append_right {left right : List String}
    (h : Reached registry component context (left ++ right)) :
    Reached registry component context right := fun name hname =>
  h name (List.mem_append_right left hname)

/-- What is known of the parts of a named type. -/
theorem pathless_parts {args : List RustType} (h : pathless (.named name args) = true) :
    (name = "()" → args = []) ∧ (name ≠ "()" → rsplitPath name.toList = none) ∧
      pathlessAll args = true := by
  rw [pathless] at h
  by_cases hname : name = "()"
  · rw [if_pos hname, List.isEmpty_iff] at h
    exact ⟨fun _ => h, fun hne => absurd hname hne, h ▸ rfl⟩
  · rw [if_neg hname, Bool.and_eq_true, Option.isNone_iff_eq_none] at h
    exact ⟨fun heq => absurd heq hname, fun _ => h.1, h.2⟩

theorem reached_named {args : List RustType}
    (h : Reached registry component context (appendRefs (.named name args))) :
    (builtin name = false → Reached registry component context [name]) ∧
      Reached registry component context (appendAllRefs args) := by
  rw [appendRefs] at h
  refine ⟨fun hbuiltin => ?_, h.append_right⟩
  have hfirst := h.append_left
  rw [hbuiltin, Bool.not_false, Bool.true_or, if_pos rfl] at hfirst
  exact hfirst

mutual

/-- The reader finds the meaning of a type in its reference. -/
theorem denote_typeTree (hplain : PlainNames classes registry)
    (hserves : Serves registry component context) (type : RustType)
    (hpathless : pathless type = true)
    (hreached : Reached registry component context (appendRefs type)) :
    (denote context ((typeTree type).rename (Qualifier.new component registry).name)).toOption =
      meaning registry component type := by
  cases type with
  | named name args =>
    obtain ⟨hunit, hpath, hargs⟩ := pathless_parts hpathless
    obtain ⟨hname, hreachedArgs⟩ := reached_named hreached
    rw [typeTree, meaning]
    refine denote_named hplain hserves
      (denoted_typeTrees hplain hserves args hargs hreachedArgs) (fun heq => ?_) hpath hname
    rw [hunit heq, typeTrees]
  | ref inner =>
    rw [typeTree, meaning]
    exact denote_typeTree hplain hserves inner hpathless hreached
  | slice inner =>
    rw [typeTree, meaning, rename, renameAll_singleton, denote_one fun _ => rfl,
      denote_typeTree hplain hserves inner hpathless hreached]
  | tuple items =>
    rw [pathless, Bool.and_eq_true, Bool.not_eq_true', List.isEmpty_eq_false_iff] at hpathless
    have hitems := denoted_typeTrees hplain hserves items hpathless.2 hreached
    have hne : renameAll (Qualifier.new component registry).name (typeTrees items) ≠ [] := by
      cases items with
      | nil => exact absurd rfl hpathless.1
      | cons item items =>
        rw [typeTrees, renameAll]
        exact List.cons_ne_nil _ _
    rw [typeTree, meaning, rename, denote_tuple hne, denoteAll_toOption hitems]
termination_by structural type

theorem denoted_typeTrees (hplain : PlainNames classes registry)
    (hserves : Serves registry component context) (types : List RustType)
    (hpathless : pathlessAll types = true)
    (hreached : Reached registry component context (appendAllRefs types)) :
    Denoted registry component context (typeTrees types) (meanings registry component types) := by
  cases types with
  | nil => exact .nil
  | cons type rest =>
    rw [pathlessAll, Bool.and_eq_true] at hpathless
    rw [typeTrees, meanings]
    rw [appendAllRefs] at hreached
    exact .cons (denote_typeTree hplain hserves type hpathless.1 hreached.append_left)
      (denoted_typeTrees hplain hserves rest hpathless.2 hreached.append_right)
termination_by structural types

end

/-! ### The text of a reference -/

def builtinNames : List String :=
  ["Value", "specgate_runtime::Value", "::specgate_runtime::Value",
    "specgate_runtime::value::Value", "::specgate_runtime::value::Value", "specgate::Value"] ++
  ["Option", "optional", "Vec", "List", "list", "Bag", "Tuple", "tuple", "OrderedSet",
    "OrderedMap", "Result", "HashMap", "BTreeMap", "Map", "map", "HashSet", "BTreeSet", "Set",
    "set"] ++
  ["String", "string", "str", "ComponentId", "OperationName", "ImplementationLabel", "char",
    "bool", "i8", "i16", "i32", "i64", "i128", "isize", "u8", "u16", "u32", "u64", "u128",
    "usize", "f32", "f64", "()", "unit", "value"]

theorem mem_builtinNames (h : builtin name = true) : name ∈ builtinNames := by
  unfold builtin runtimeValue constructor at h
  rw [Bool.or_eq_true, Bool.or_eq_true, List.contains_iff_mem, List.contains_iff_mem,
    List.contains_iff_mem] at h
  rw [builtinNames, List.mem_append, List.mem_append]
  exact h

/-- Built-in names are words, but for unit and those with a path. -/
theorem isName_of_builtin (h : builtin name = true) (hunit : name ≠ "()")
    (hpath : rsplitPath name.toList = none) : IsName classes name := by
  have hall : (builtinNames.all fun name =>
      name == "()" || (rsplitPath name.toList).isSome || (!name.toList.isEmpty &&
        name.toList.all fun c => decide (c.toNat < 128) && c.isAlphanum)) = true := by decide
  have hword := List.all_eq_true.mp hall name (mem_builtinNames h)
  rw [Bool.or_eq_true, Bool.or_eq_true, hpath] at hword
  rcases hword with (hword | hword) | hword
  · exact absurd (eq_of_beq hword) hunit
  · cases hword
  · rw [Bool.and_eq_true, Bool.not_eq_true', List.isEmpty_eq_false_iff, List.all_eq_true] at hword
    refine ⟨hword.1, fun c hc => ?_⟩
    obtain ⟨hascii, halnum⟩ := Bool.and_eq_true_iff.mp (hword.2 c hc)
    rw [isFieldChar, classes.alphanumeric_ascii c (of_decide_eq_true hascii), halnum, Bool.true_or]

theorem words_namedTree {trees : List TypeTree} (hname : trees = [] ∧ name = "()" ∨ IsName classes name)
    (htrees : ∀ other ∈ namesAll trees, IsName classes other) :
    ∀ other ∈ (namedTree name trees).names, IsName classes other := by
  have hword : ∀ word : String, builtin word = true → word ≠ "()" →
      rsplitPath word.toList = none → ∀ other ∈ (TypeTree.leaf word).names,
        IsName classes other := by
    intro word hbuiltin hunit hpath other hother
    rw [List.mem_singleton.mp hother]
    exact isName_of_builtin hbuiltin hunit hpath
  have hleaf : name ≠ "()" → ∀ other ∈ (TypeTree.leaf name).names, IsName classes other := by
    intro hne other hother
    rw [List.mem_singleton.mp hother]
    exact hname.resolve_left fun h => hne h.2
  have hnames : ∀ head, ∀ other ∈ (TypeTree.apply head trees).names, IsName classes other := by
    intro head other hother
    exact htrees other hother
  unfold namedTree
  by_cases htext : textNames.contains name = true
  · rw [if_pos htext]
    exact hword "string" (by decide) (by decide) rfl
  rw [if_neg htext]
  by_cases hunit : name = "()"
  · have hnone : trees = [] := by
      rcases hname with hname | hname
      · exact hname.1
      · have hparen := hname.2 '(' (by rw [hunit]; decide)
        rw [isFieldChar_ascii (by decide) (by decide) (by decide)] at hparen
        cases hparen
    subst hnone
    dsimp only
    rw [if_pos hunit]
    exact hword "unit" (by decide) (by decide) rfl
  · split
    · rw [if_neg hunit]
      split_ifs
      · exact hword "value" (by decide) (by decide) rfl
      · exact hleaf hunit
    · split_ifs
      · exact hnames "Option"
      · exact hnames "List"
      · exact hnames "set"
      · exact hleaf hunit
    · split_ifs
      · exact hnames "Result"
      · exact hnames "map"
      · exact hleaf hunit
    · exact hleaf hunit

theorem isName_of_reached (hplain : PlainNames classes registry)
    (hreached : builtin name = false → Reached registry component context [name])
    (hunit : name ≠ "()") (hpath : rsplitPath name.toList = none) : IsName classes name := by
  cases hbuiltin : builtin name with
  | true => exact isName_of_builtin hbuiltin hunit hpath
  | false =>
    obtain ⟨target, howns, -⟩ := hreached hbuiltin name (List.mem_singleton.mpr rfl)
    obtain ⟨ty, hty, -, rfl⟩ := Owns.registered howns
    exact hplain.words ty hty

mutual

/-- The names in the reference of a type are words. -/
theorem words_typeTree (hplain : PlainNames classes registry) (type : RustType)
    (hpathless : pathless type = true)
    (hreached : Reached registry component context (appendRefs type)) :
    ∀ other ∈ (typeTree type).names, IsName classes other := by
  cases type with
  | named name args =>
    obtain ⟨hunit, hpath, hargs⟩ := pathless_parts hpathless
    obtain ⟨hname, hreachedArgs⟩ := reached_named hreached
    rw [typeTree]
    refine words_namedTree ?_ (words_typeTrees hplain args hargs hreachedArgs)
    by_cases heq : name = "()"
    · refine .inl ⟨?_, heq⟩
      rw [hunit heq, typeTrees]
    · exact .inr (isName_of_reached hplain hname heq (hpath heq))
  | ref inner =>
    rw [typeTree]
    exact words_typeTree hplain inner hpathless hreached
  | slice inner =>
    rw [typeTree]
    intro other hother
    rw [names, namesAll, namesAll, List.append_nil] at hother
    exact words_typeTree hplain inner hpathless hreached other hother
  | tuple items =>
    rw [pathless, Bool.and_eq_true] at hpathless
    rw [typeTree]
    exact words_typeTrees hplain items hpathless.2 hreached
termination_by structural type

theorem words_typeTrees (hplain : PlainNames classes registry) (types : List RustType)
    (hpathless : pathlessAll types = true)
    (hreached : Reached registry component context (appendAllRefs types)) :
    ∀ other ∈ namesAll (typeTrees types), IsName classes other := by
  cases types with
  | nil => exact fun other hother => by cases hother
  | cons type rest =>
    rw [pathlessAll, Bool.and_eq_true] at hpathless
    rw [appendAllRefs] at hreached
    rw [typeTrees, namesAll]
    intro other hother
    rcases List.mem_append.mp hother with hother | hother
    · exact words_typeTree hplain type hpathless.1 hreached.append_left other hother
    · exact words_typeTrees hplain rest hpathless.2 hreached.append_right other hother
termination_by structural types

end

mutual

theorem names_rename (f : String → String) (tree : TypeTree) :
    (tree.rename f).names = tree.names.map f := by
  cases tree with
  | leaf name => rw [rename, names, names, List.map_singleton]
  | apply head args => rw [rename, names, names, namesAll_renameAll f args]
termination_by structural tree

theorem namesAll_renameAll (f : String → String) (trees : List TypeTree) :
    namesAll (renameAll f trees) = (namesAll trees).map f := by
  cases trees with
  | nil => rfl
  | cons tree rest =>
    rw [renameAll, namesAll, namesAll, List.map_append, names_rename f tree,
      namesAll_renameAll f rest]
termination_by structural trees

end

mutual

theorem applied_rename (f : String → String) (tree : TypeTree) :
    (tree.rename f).applied = tree.applied := by
  cases tree with
  | leaf name => rw [rename, applied, applied]
  | apply head args => rw [rename, applied, applied, appliedAll_renameAll f args]
termination_by structural tree

theorem appliedAll_renameAll (f : String → String) (trees : List TypeTree) :
    appliedAll (renameAll f trees) = appliedAll trees := by
  cases trees with
  | nil => rfl
  | cons tree rest =>
    rw [renameAll, appliedAll, appliedAll, applied_rename f tree, appliedAll_renameAll f rest]
termination_by structural trees

end

/-- A qualified name can be read. -/
theorem spoken_name (hplain : PlainNames classes registry) (h : IsName classes name) :
    Spoken classes ((Qualifier.new component registry).name name) := by
  have hname := spoken_of_isName h
  unfold Qualifier.name
  split_ifs
  · exact hname
  · cases hlookup : lookup (Qualifier.new component registry).external name with
    | none => exact hname
    | some target =>
      have hentry := mem_of_mem_ofList (mem_of_lookup hlookup)
      obtain ⟨ty, hty, hpair⟩ := List.mem_map.mp hentry
      obtain ⟨-, rfl⟩ := Prod.mk.inj hpair
      have hsigns : ∀ c ∈ "::".toList, isNameChar classes c = true := by
        intro c hc
        have hcolon : c = ':' := by simpa using hc
        rw [hcolon, isNameChar, beq_self_eq_true, Bool.or_true, Bool.true_or]
      constructor
      · dsimp only
        rw [String.toList_append, String.toList_append]
        exact List.append_ne_nil_of_right_ne_nil _ hname.1
      · dsimp only
        rw [String.toList_append, String.toList_append, List.forall_mem_append,
          List.forall_mem_append]
        exact ⟨⟨hplain.owners ty (List.mem_of_mem_filter hty), hsigns⟩, hname.2⟩

/-- The published text of a type of a component is read as the meaning of the type. -/
theorem published_type {text : String} {type : RustType} (hplain : PlainNames classes registry)
    (hserves : Serves registry component context) (hparse : parse classes text = some type)
    (hreached : Reached registry component context (collectRefs classes text)) :
    ∃ published, mapComponent classes (Qualifier.new component registry) text = .ok published ∧
      (typeRef classes context published).toOption = meaning registry component type := by
  rw [collectRefs, hparse] at hreached
  have hpathless := pathless_of_parse hparse
  have hwords := words_typeTree hplain type hpathless hreached
  refine ⟨_, mapComponent_eq hparse hwords, ?_⟩
  rw [typeRef_text]
  · exact denote_typeTree hplain hserves type hpathless hreached
  · intro other hother
    rw [names_rename] at hother
    obtain ⟨name, hname, rfl⟩ := List.mem_map.mp hother
    exact spoken_name hplain (hwords name hname)
  · rw [applied_rename]
    exact applied_typeTree type

end Names

end SpecGate.PublishedTypes

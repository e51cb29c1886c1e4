import SpecGate.JsonTrees
import SpecGate.IntegerText

/-!
JSON documents as texts without white space. A tree is related to the texts that spell it:
numbers by their value, strings up to their escapes. How a decimal fraction is rounded is a
parameter; an integer that no machine integer holds is left out, as is an escaped pair of
surrogates. The texts are read back by a parser, so a text spells at most one tree.
-/
namespace SpecGate.JsonTexts

open JsonTrees IntegerText
open Values (FiniteF64)

/-! ### Numbers -/

/-- The number of the digits, with the decimal point moved. -/
def valueOf (digits : List Char) (scale : Int) : ℚ :=
  (Nat.ofDigitChars 10 digits 0 : ℚ) * 10 ^ scale

def isNumberChar (c : Char) : Bool :=
  c.isDigit || c == '-' || c == '+' || c == '.' || c == 'e' || c == 'E'

/-- The digits at the start of a text, and what follows them. -/
def splitDigits (text : List Char) : List Char × List Char := text.span Char.isDigit

def splitMinus : List Char → Bool × List Char
  | '-' :: rest => (true, rest)
  | rest => (false, rest)

/-- No digits, or a zero before other digits. -/
def badWhole (whole : List Char) : Bool :=
  whole.isEmpty || (whole.head? == some '0' && whole != ['0'])

def readFraction : List Char → Option (Option (List Char) × List Char)
  | '.' :: rest =>
      let (fraction, rest) := splitDigits rest
      if fraction.isEmpty then none else some (some fraction, rest)
  | rest => some (none, rest)

def exponentDigits (negative : Bool) (text : List Char) : Option (Option Int × List Char) :=
  let (digits, rest) := splitDigits text
  if digits.isEmpty then none
  else some (some (signed negative (Nat.ofDigitChars 10 digits 0)), rest)

def signedExponent : List Char → Option (Option Int × List Char)
  | '-' :: rest => exponentDigits true rest
  | '+' :: rest => exponentDigits false rest
  | rest => exponentDigits false rest

def readExponent : List Char → Option (Option Int × List Char)
  | 'e' :: rest => signedExponent rest
  | 'E' :: rest => signedExponent rest
  | rest => some (none, rest)

/-- A number without a fraction and without an exponent. -/
def integerNumber (negative : Bool) (magnitude : Nat) : Option Number :=
  let value := signed negative magnitude
  if (negative && magnitude == 0) || decide (value < -2 ^ 63) || decide (2 ^ 64 ≤ value) then none
  else some (.integer value)

section Grammar

variable (nearest : Bool → ℚ → Option FiniteF64)

/-- The number that a text of the number grammar denotes. -/
def readNumber (text : List Char) : Option Number := do
  let (negative, unsigned) := splitMinus text
  let (whole, rest) := splitDigits unsigned
  if badWhole whole then none
  else
    let (fraction, rest) ← readFraction rest
    let (exponent, rest) ← readExponent rest
    if !rest.isEmpty then none
    else if fraction.isNone && exponent.isNone then
      integerNumber negative (Nat.ofDigitChars 10 whole 0)
    else
      let digits := fraction.getD []
      (nearest negative (valueOf (whole ++ digits) (exponent.getD 0 - digits.length))).map .float

/-! ### Strings -/

def shortEscape : Char → Option Char
  | '"' => some '"'
  | '\\' => some '\\'
  | '/' => some '/'
  | 'b' => some (Char.ofNat 8)
  | 'f' => some (Char.ofNat 12)
  | 'n' => some '\n'
  | 'r' => some '\r'
  | 't' => some '\t'
  | _ => none

def hexDigit (c : Char) : Option Nat :=
  if '0' ≤ c ∧ c ≤ '9' then some (c.toNat - '0'.toNat)
  else if 'a' ≤ c ∧ c ≤ 'f' then some (c.toNat - 'a'.toNat + 10)
  else if 'A' ≤ c ∧ c ≤ 'F' then some (c.toNat - 'A'.toNat + 10)
  else none

/-- The code point that four hexadecimal digits name; a surrogate is none. -/
def hexCode (first second third fourth : Char) : Option Nat := do
  let first ← hexDigit first
  let second ← hexDigit second
  let third ← hexDigit third
  let fourth ← hexDigit fourth
  let code := ((first * 16 + second) * 16 + third) * 16 + fourth
  if 0xD800 ≤ code ∧ code < 0xE000 then none else some code

/-- The inside of a string, and the characters it stands for. -/
inductive Spells : List Char → List Char → Prop
  | nil : Spells [] []
  | plain {c : Char} {body content : List Char} (hprintable : 0x20 ≤ c.toNat) (hquote : c ≠ '"')
      (hbackslash : c ≠ '\\') (rest : Spells body content) : Spells (c :: body) (c :: content)
  | short {letter c : Char} {body content : List Char} (hletter : shortEscape letter = some c)
      (rest : Spells body content) : Spells ('\\' :: letter :: body) (c :: content)
  | unicode {first second third fourth : Char} {code : Nat} {body content : List Char}
      (hcode : hexCode first second third fourth = some code) (rest : Spells body content) :
      Spells ('\\' :: 'u' :: first :: second :: third :: fourth :: body)
        (Char.ofNat code :: content)

def Quoted (value : String) (text : List Char) : Prop :=
  ∃ body, text = '"' :: (body ++ ['"']) ∧ Spells body value.toList

/-! ### Documents -/

mutual

/-- The text spells the document. -/
def TextOf : Json → List Char → Prop
  | .null, text => text = ['n', 'u', 'l', 'l']
  | .bool true, text => text = ['t', 'r', 'u', 'e']
  | .bool false, text => text = ['f', 'a', 'l', 's', 'e']
  | .number value, text => text.all isNumberChar = true ∧ readNumber nearest text = some value
  | .string value, text => Quoted value text
  | .array values, text => ∃ items, text = '[' :: (items ++ [']']) ∧ ItemsOf values items
  | .object entries, text => ∃ members, text = '\x7b' :: (members ++ ['\x7d']) ∧
      MembersOf entries members
termination_by structural json => json

/-- The items of an array, with commas between them. -/
def ItemsOf : List Json → List Char → Prop
  | [], text => text = []
  | value :: rest, text => ∃ first others, text = first ++ others ∧ TextOf value first ∧
      MoreItemsOf rest others
termination_by structural values => values

/-- The items after the first, each with a comma before it. -/
def MoreItemsOf : List Json → List Char → Prop
  | [], text => text = []
  | value :: rest, text => ∃ first others, text = ',' :: (first ++ others) ∧ TextOf value first ∧
      MoreItemsOf rest others
termination_by structural values => values

def MembersOf : List (String × Json) → List Char → Prop
  | [], text => text = []
  | (key, value) :: rest, text => ∃ name first others, text = name ++ ':' :: (first ++ others) ∧
      Quoted key name ∧ TextOf value first ∧ MoreMembersOf rest others
termination_by structural entries => entries

def MoreMembersOf : List (String × Json) → List Char → Prop
  | [], text => text = []
  | (key, value) :: rest, text => ∃ name first others,
      text = ',' :: (name ++ ':' :: (first ++ others)) ∧ Quoted key name ∧ TextOf value first ∧
        MoreMembersOf rest others
termination_by structural entries => entries

end

/-- A parser that reads every text of a document, unless it nests too deeply. -/
def Reads (parse : String → Option Json) : Prop :=
  ∀ (json : Json) (text : String), TextOf nearest json text.toList → parse text = json.readBack

end Grammar

/-! ### A parser -/

def readString : List Char → Option (List Char × List Char)
  | [] => none
  | '"' :: rest => some ([], rest)
  | '\\' :: 'u' :: first :: second :: third :: fourth :: rest => do
      let code ← hexCode first second third fourth
      let (content, rest) ← readString rest
      return (Char.ofNat code :: content, rest)
  | '\\' :: letter :: rest => do
      let c ← shortEscape letter
      let (content, rest) ← readString rest
      return (c :: content, rest)
  | c :: rest =>
      if c.toNat < 0x20 then none
      else do
        let (content, rest) ← readString rest
        return (c :: content, rest)

def parseString : List Char → Option (String × List Char)
  | '"' :: rest => (readString rest).map fun (content, rest) => (String.ofList content, rest)
  | _ => none

section Parser

variable (nearest : Bool → ℚ → Option FiniteF64)

def parseNumber (text : List Char) : Option (Json × List Char) :=
  let (lexeme, rest) := text.span isNumberChar
  (readNumber nearest lexeme).map fun number => (.number number, rest)

mutual

def parseValue : Nat → List Char → Option (Json × List Char)
  | 0, _ => none
  | fuel + 1, '[' :: rest => (parseItems fuel rest).map fun (values, rest) => (.array values, rest)
  | fuel + 1, '\x7b' :: rest =>
      (parseMembers fuel rest).map fun (entries, rest) => (.object entries, rest)
  | _ + 1, '"' :: rest => (parseString ('"' :: rest)).map fun (value, rest) => (.string value, rest)
  | _ + 1, 'n' :: 'u' :: 'l' :: 'l' :: rest => some (.null, rest)
  | _ + 1, 't' :: 'r' :: 'u' :: 'e' :: rest => some (.bool true, rest)
  | _ + 1, 'f' :: 'a' :: 'l' :: 's' :: 'e' :: rest => some (.bool false, rest)
  | _ + 1, text => parseNumber nearest text

def parseItems : Nat → List Char → Option (List Json × List Char)
  | 0, _ => none
  | _ + 1, ']' :: rest => some ([], rest)
  | fuel + 1, text => do
      let (value, rest) ← parseValue fuel text
      let (values, rest) ← parseMoreItems fuel rest
      return (value :: values, rest)

def parseMoreItems : Nat → List Char → Option (List Json × List Char)
  | fuel + 1, ',' :: rest => do
      let (value, rest) ← parseValue fuel rest
      let (values, rest) ← parseMoreItems fuel rest
      return (value :: values, rest)
  | _ + 1, ']' :: rest => some ([], rest)
  | _, _ => none

def parseMembers : Nat → List Char → Option (List (String × Json) × List Char)
  | 0, _ => none
  | _ + 1, '\x7d' :: rest => some ([], rest)
  | fuel + 1, text => do
      let (key, rest) ← parseString text
      let (value, rest) ← parseField fuel rest
      let (entries, rest) ← parseMoreMembers fuel rest
      return ((key, value) :: entries, rest)

def parseMoreMembers : Nat → List Char → Option (List (String × Json) × List Char)
  | fuel + 1, ',' :: rest => do
      let (key, rest) ← parseString rest
      let (value, rest) ← parseField fuel rest
      let (entries, rest) ← parseMoreMembers fuel rest
      return ((key, value) :: entries, rest)
  | _ + 1, '\x7d' :: rest => some ([], rest)
  | _, _ => none

/-- The value after a name. -/
def parseField : Nat → List Char → Option (Json × List Char)
  | fuel + 1, ':' :: rest => parseValue fuel rest
  | _, _ => none

end

/-- Read a whole text. -/
def parse (text : String) : Option Json :=
  match parseValue nearest (text.toList.length + 1) text.toList with
  | some (json, []) => json.readBack
  | _ => none

end Parser

/-! ### Reading back -/

/-- Nothing follows, or something that a number does not contain. -/
def Delimited (rest : List Char) : Prop := ∀ c ∈ rest.head?, isNumberChar c = false

theorem delimited_nil : Delimited [] := by
  intro c hc
  cases hc

theorem delimited_cons {c : Char} (h : isNumberChar c = false) (rest : List Char) :
    Delimited (c :: rest) := by
  intro other hother
  cases hother
  exact h

theorem span_append {p : Char → Bool} {text rest : List Char} (htext : ∀ c ∈ text, p c = true)
    (hrest : ∀ c ∈ rest.head?, p c = false) : (text ++ rest).span p = (text, rest) := by
  have hstop : rest.takeWhile p = [] ∧ rest.dropWhile p = rest := by
    cases rest with
    | nil => exact ⟨rfl, rfl⟩
    | cons c rest =>
      have hc : ¬ p c = true := by
        rw [hrest c rfl]
        exact Bool.false_ne_true
      exact ⟨List.takeWhile_cons_of_neg hc, List.dropWhile_cons_of_neg hc⟩
  rw [List.span_eq_takeWhile_dropWhile, List.takeWhile_append_of_pos htext,
    List.dropWhile_append_of_pos htext, hstop.1, hstop.2, List.append_nil]

theorem readString_spells {body content : List Char} (h : Spells body content)
    (rest : List Char) : readString (body ++ '"' :: rest) = some (content, rest) := by
  induction h with
  | nil => rfl
  | plain hprintable hquote hbackslash _ ih =>
    rw [List.cons_append, readString, if_neg (Nat.not_lt.mpr hprintable), ih]
    · rfl
    · exact hquote
    · intros
      contradiction
    · intros
      contradiction
  | @short letter c _ _ hletter _ ih =>
    have hother : letter ≠ 'u' := by
      rintro rfl
      cases hletter
    rw [List.cons_append, List.cons_append, readString, hletter, Option.bind_eq_bind,
      Option.bind_some, ih]
    · rfl
    · intros
      contradiction
  | unicode hcode _ ih =>
    simp only [List.cons_append]
    rw [readString, hcode, Option.bind_eq_bind, Option.bind_some, ih]
    rfl

theorem parseString_quoted {value : String} {text : List Char} (h : Quoted value text)
    (rest : List Char) : parseString (text ++ rest) = some (value, rest) := by
  obtain ⟨body, rfl, hspells⟩ := h
  rw [List.cons_append, List.append_assoc, List.singleton_append, parseString,
    readString_spells hspells, Option.map_some]
  dsimp only
  rw [String.ofList_toList]

theorem Quoted.cons {value : String} {text : List Char} (h : Quoted value text) :
    ∃ rest, text = '"' :: rest := by
  obtain ⟨body, rfl, -⟩ := h
  exact ⟨_, rfl⟩

section Completeness

variable {nearest : Bool → ℚ → Option FiniteF64}

theorem readNumber_ne_nil {value : Number} {text : List Char}
    (h : readNumber nearest text = some value) : text ≠ [] := by
  rintro rfl
  cases h

theorem parseNumber_text {value : Number} {text rest : List Char}
    (hchars : text.all isNumberChar = true) (hread : readNumber nearest text = some value)
    (hrest : Delimited rest) : parseNumber nearest (text ++ rest) = some (.number value, rest) := by
  have hspan := span_append (List.all_eq_true.mp hchars) hrest
  unfold parseNumber
  rw [hspan]
  dsimp only
  rw [hread, Option.map_some]

/-- A text of a number is not taken for another document. -/
theorem parseValue_number {value : Number} {text rest : List Char} {fuel : Nat}
    (hchars : text.all isNumberChar = true) (hread : readNumber nearest text = some value)
    (hrest : Delimited rest) :
    parseValue nearest (fuel + 1) (text ++ rest) = some (.number value, rest) := by
  obtain ⟨c, others, rfl⟩ := List.exists_cons_of_ne_nil (readNumber_ne_nil hread)
  have hc : isNumberChar c = true := List.all_eq_true.mp hchars c List.mem_cons_self
  have hnumber := parseNumber_text hchars hread hrest
  rw [List.cons_append] at hnumber ⊢
  rw [parseValue, hnumber]
  all_goals
    intros
    rename_i hcons
    obtain ⟨rfl, -⟩ := List.cons.inj hcons
    exact absurd hc (by decide)

/-- A document does not start like the end of an array. -/
theorem TextOf.head : ∀ {json : Json} {text : List Char}, TextOf nearest json text →
    ∃ c rest, text = c :: rest ∧ c ≠ ']'
  | .null, _, h => ⟨_, _, h, by decide⟩
  | .bool true, _, h => ⟨_, _, h, by decide⟩
  | .bool false, _, h => ⟨_, _, h, by decide⟩
  | .number _, _, h => by
      obtain ⟨c, rest, rfl⟩ := List.exists_cons_of_ne_nil (readNumber_ne_nil h.2)
      refine ⟨c, rest, rfl, ?_⟩
      have hc := List.all_eq_true.mp h.1 c List.mem_cons_self
      rintro rfl
      exact absurd hc (by decide)
  | .string _, _, h => by
      obtain ⟨rest, rfl⟩ := Quoted.cons h
      exact ⟨_, _, rfl, by decide⟩
  | .array _, _, h => by
      obtain ⟨items, rfl, -⟩ := h
      exact ⟨_, _, rfl, by decide⟩
  | .object _, _, h => by
      obtain ⟨members, rfl, -⟩ := h
      exact ⟨_, _, rfl, by decide⟩

theorem TextOf.length_pos {json : Json} {text : List Char} (h : TextOf nearest json text) :
    0 < text.length := by
  obtain ⟨c, rest, rfl, -⟩ := h.head
  exact Nat.succ_pos _

theorem Quoted.length {value : String} {text : List Char} (h : Quoted value text) :
    2 ≤ text.length := by
  obtain ⟨body, rfl, -⟩ := h
  simp only [List.length_cons, List.length_append, List.length_nil]
  omega

theorem MoreItemsOf.delimited {values : List Json} {text : List Char}
    (h : MoreItemsOf nearest values text) (rest : List Char) :
    Delimited (text ++ ']' :: rest) := by
  cases values with
  | nil =>
    obtain rfl : text = [] := h
    exact delimited_cons (by decide) rest
  | cons value values =>
    obtain ⟨first, others, rfl, -⟩ := h
    exact delimited_cons (by decide) _

theorem MoreMembersOf.delimited {entries : List (String × Json)} {text : List Char}
    (h : MoreMembersOf nearest entries text) (rest : List Char) :
    Delimited (text ++ '\x7d' :: rest) := by
  cases entries with
  | nil =>
    obtain rfl : text = [] := h
    exact delimited_cons (by decide) rest
  | cons entry entries =>
    obtain ⟨name, first, others, rfl, -⟩ := h
    exact delimited_cons (by decide) _

/-- The value after a name is read with the fuel that is left. -/
theorem parseField_cons {json : Json} {text rest : List Char} {length fuel : Nat}
    (hfuel : length + 1 < fuel)
    (h : ∀ {left : Nat}, length < left → parseValue nearest left text = some (json, rest)) :
    parseField nearest fuel (':' :: text) = some (json, rest) := by
  cases fuel with
  | zero => exact absurd hfuel (Nat.not_lt_zero _)
  | succ left => exact h (Nat.lt_of_succ_lt_succ hfuel)

mutual

/-- With enough fuel the parser reads the document that a text spells, up to what follows. -/
theorem parseValue_textOf : ∀ (json : Json) {text rest : List Char} {fuel : Nat},
    TextOf nearest json text → text.length < fuel → Delimited rest →
      parseValue nearest fuel (text ++ rest) = some (json, rest)
  | _, _, _, 0, _, hfuel, _ => absurd hfuel (Nat.not_lt_zero _)
  | .null, _, _, _ + 1, h, _, _ => by
      obtain rfl := h
      rfl
  | .bool true, _, _, _ + 1, h, _, _ => by
      obtain rfl := h
      rfl
  | .bool false, _, _, _ + 1, h, _, _ => by
      obtain rfl := h
      rfl
  | .number value, _, _, _ + 1, h, _, hrest => parseValue_number h.1 h.2 hrest
  | .string value, text, rest, fuel + 1, h, _, _ => by
      have hread := parseString_quoted h rest
      obtain ⟨others, rfl⟩ := Quoted.cons h
      rw [List.cons_append] at hread ⊢
      rw [parseValue, hread]
      rfl
  | .array values, _, rest, fuel + 1, h, hfuel, _ => by
      obtain ⟨items, rfl, hitems⟩ := h
      simp only [List.length_cons, List.length_append, List.length_nil] at hfuel
      have hread := @parseItems_itemsOf values items rest fuel hitems (by omega)
      rw [List.cons_append, List.append_assoc, List.singleton_append, parseValue, hread]
      rfl
  | .object entries, _, rest, fuel + 1, h, hfuel, _ => by
      obtain ⟨members, rfl, hmembers⟩ := h
      simp only [List.length_cons, List.length_append, List.length_nil] at hfuel
      have hread := @parseMembers_membersOf entries members rest fuel hmembers (by omega)
      rw [List.cons_append, List.append_assoc, List.singleton_append, parseValue, hread]
      rfl
termination_by structural json => json

theorem parseItems_itemsOf : ∀ (values : List Json) {text rest : List Char} {fuel : Nat},
    ItemsOf nearest values text → text.length + 1 < fuel →
      parseItems nearest fuel (text ++ ']' :: rest) = some (values, rest)
  | _, _, _, 0, _, hfuel => absurd hfuel (Nat.not_lt_zero _)
  | [], _, _, _ + 1, h, _ => by
      obtain rfl := h
      rfl
  | value :: values, _, rest, fuel + 1, h, hfuel => by
      obtain ⟨first, others, rfl, hfirst, hothers⟩ := h
      rw [List.length_append] at hfuel
      have hpositive := hfirst.length_pos
      have hvalue := @parseValue_textOf value first (others ++ ']' :: rest) fuel hfirst (by omega)
        (hothers.delimited rest)
      have hvalues := @parseMoreItems_moreItemsOf values others rest fuel hothers (by omega)
      obtain ⟨c, tail, rfl, hc⟩ := hfirst.head
      rw [List.append_assoc]
      rw [List.cons_append] at hvalue ⊢
      rw [parseItems, hvalue]
      · dsimp only [Option.bind_eq_bind, Option.bind_some]
        rw [hvalues]
        rfl
      · intro _ hcons
        exact hc (List.cons.inj hcons).1
termination_by structural values => values

theorem parseMoreItems_moreItemsOf : ∀ (values : List Json) {text rest : List Char} {fuel : Nat},
    MoreItemsOf nearest values text → text.length + 1 < fuel →
      parseMoreItems nearest fuel (text ++ ']' :: rest) = some (values, rest)
  | _, _, _, 0, _, hfuel => absurd hfuel (Nat.not_lt_zero _)
  | [], _, _, _ + 1, h, _ => by
      obtain rfl := h
      rfl
  | value :: values, _, rest, fuel + 1, h, hfuel => by
      obtain ⟨first, others, rfl, hfirst, hothers⟩ := h
      rw [List.length_cons, List.length_append] at hfuel
      have hvalue := @parseValue_textOf value first (others ++ ']' :: rest) fuel hfirst (by omega)
        (hothers.delimited rest)
      have hvalues := @parseMoreItems_moreItemsOf values others rest fuel hothers (by omega)
      rw [List.cons_append, List.append_assoc, parseMoreItems, hvalue]
      dsimp only [Option.bind_eq_bind, Option.bind_some]
      rw [hvalues]
      rfl
termination_by structural values => values

theorem parseMembers_membersOf : ∀ (entries : List (String × Json)) {text rest : List Char}
    {fuel : Nat}, MembersOf nearest entries text → text.length + 1 < fuel →
      parseMembers nearest fuel (text ++ '\x7d' :: rest) = some (entries, rest)
  | _, _, _, 0, _, hfuel => absurd hfuel (Nat.not_lt_zero _)
  | [], _, _, _ + 1, h, _ => by
      obtain rfl := h
      rfl
  | (key, value) :: entries, _, rest, fuel + 1, h, hfuel => by
      obtain ⟨name, first, others, rfl, hname, hfirst, hothers⟩ := h
      rw [List.length_append, List.length_cons, List.length_append] at hfuel
      have hlength := hname.length
      have hkey := parseString_quoted hname (':' :: (first ++ (others ++ '\x7d' :: rest)))
      have hvalue := @parseField_cons nearest value (first ++ (others ++ '\x7d' :: rest))
        (others ++ '\x7d' :: rest) first.length fuel (by omega)
        fun hleft => parseValue_textOf value hfirst hleft (hothers.delimited rest)
      have hentries := @parseMoreMembers_moreMembersOf entries others rest fuel hothers (by omega)
      obtain ⟨tail, rfl⟩ := hname.cons
      have hsplit : '"' :: tail ++ ':' :: (first ++ others) ++ '\x7d' :: rest =
          '"' :: (tail ++ ':' :: (first ++ (others ++ '\x7d' :: rest))) := by
        simp only [List.cons_append, List.append_assoc]
      rw [List.cons_append] at hkey
      rw [hsplit, parseMembers, hkey]
      · dsimp only [Option.bind_eq_bind, Option.bind_some]
        rw [hvalue]
        dsimp only [Option.bind_some]
        rw [hentries]
        rfl
      · intro _ hcons
        exact absurd (List.cons.inj hcons).1 (by decide)
termination_by structural entries => entries

theorem parseMoreMembers_moreMembersOf : ∀ (entries : List (String × Json))
    {text rest : List Char} {fuel : Nat}, MoreMembersOf nearest entries text →
      text.length + 1 < fuel →
        parseMoreMembers nearest fuel (text ++ '\x7d' :: rest) = some (entries, rest)
  | _, _, _, 0, _, hfuel => absurd hfuel (Nat.not_lt_zero _)
  | [], _, _, _ + 1, h, _ => by
      obtain rfl := h
      rfl
  | (key, value) :: entries, _, rest, fuel + 1, h, hfuel => by
      obtain ⟨name, first, others, rfl, hname, hfirst, hothers⟩ := h
      rw [List.length_cons, List.length_append, List.length_cons, List.length_append] at hfuel
      have hkey := parseString_quoted hname (':' :: (first ++ (others ++ '\x7d' :: rest)))
      have hvalue := @parseField_cons nearest value (first ++ (others ++ '\x7d' :: rest))
        (others ++ '\x7d' :: rest) first.length fuel (by omega)
        fun hleft => parseValue_textOf value hfirst hleft (hothers.delimited rest)
      have hentries := @parseMoreMembers_moreMembersOf entries others rest fuel hothers (by omega)
      rw [List.cons_append, List.append_assoc, List.cons_append, List.append_assoc,
        parseMoreMembers, hkey]
      dsimp only [Option.bind_eq_bind, Option.bind_some]
      rw [hvalue]
      dsimp only [Option.bind_some]
      rw [hentries]
      rfl
termination_by structural entries => entries

end

theorem parse_reads : Reads nearest (parse nearest) := by
  intro json text h
  have hread := parseValue_textOf json h (Nat.lt_succ_self _) delimited_nil
  rw [List.append_nil] at hread
  unfold parse
  rw [hread]

end Completeness

/-! ### Writing numbers -/

def minus (negative : Bool) : List Char := if negative then ['-'] else []

/-- A fraction that has digits. -/
def fractionText (fraction : List Char) : List Char :=
  if fraction.isEmpty then [] else '.' :: fraction

/-- An exponent, written with its sign. -/
def exponentText : Option (Bool × List Char) → List Char
  | none => []
  | some (negative, digits) => 'e' :: (if negative then '-' else '+') :: digits

/-- The parts of a number, as the number grammar wants them. -/
structure Numeral where
  negative : Bool
  whole : List Char
  fraction : List Char
  exponent : Option (Bool × List Char)
  whole_digits : ∀ c ∈ whole, c.isDigit = true
  whole_good : badWhole whole = false
  fraction_digits : ∀ c ∈ fraction, c.isDigit = true
  exponent_digits : ∀ part ∈ exponent, part.2 ≠ [] ∧ ∀ c ∈ part.2, c.isDigit = true

namespace Numeral

def text (numeral : Numeral) : List Char :=
  minus numeral.negative ++ (numeral.whole ++
    (fractionText numeral.fraction ++ exponentText numeral.exponent))

/-- The number before its exponent has been written out. -/
def scale (numeral : Numeral) : Int :=
  match numeral.exponent with
  | none => 0
  | some (negative, digits) => signed negative (Nat.ofDigitChars 10 digits 0)

/-- The absolute value of the number. -/
def value (numeral : Numeral) : ℚ :=
  valueOf (numeral.whole ++ numeral.fraction) (numeral.scale - numeral.fraction.length)

end Numeral

theorem splitDigits_append {digits rest : List Char} (hdigits : ∀ c ∈ digits, c.isDigit = true)
    (hrest : ∀ c ∈ rest.head?, c.isDigit = false) : splitDigits (digits ++ rest) = (digits, rest) :=
  span_append hdigits hrest

theorem splitMinus_minus (negative : Bool) {text : List Char} (h : text.head? ≠ some '-') :
    splitMinus (minus negative ++ text) = (negative, text) := by
  cases negative with
  | true => rfl
  | false =>
    cases text with
    | nil => rfl
    | cons c rest =>
      change splitMinus (c :: rest) = _
      unfold splitMinus
      split
      · rename_i hcons
        obtain ⟨rfl, -⟩ := List.cons.inj hcons
        exact absurd rfl h
      · rfl

theorem exponentText_head (exponent : Option (Bool × List Char)) :
    ∀ c ∈ (exponentText exponent).head?, c = 'e' := by
  intro c hc
  cases exponent with
  | none => cases hc
  | some part =>
    cases hc
    rfl

theorem tail_head (fraction : List Char) (exponent : Option (Bool × List Char)) :
    ∀ c ∈ (fractionText fraction ++ exponentText exponent).head?, c = '.' ∨ c = 'e' := by
  intro c hc
  cases fraction with
  | nil => exact .inr (exponentText_head exponent c hc)
  | cons digit rest =>
    cases hc
    exact .inl rfl

theorem readFraction_text {fraction : List Char} (hdigits : ∀ c ∈ fraction, c.isDigit = true)
    (exponent : Option (Bool × List Char)) :
    readFraction (fractionText fraction ++ exponentText exponent) =
      some (if fraction.isEmpty then none else some fraction, exponentText exponent) := by
  cases fraction with
  | nil =>
    cases exponent with
    | none => rfl
    | some part => rfl
  | cons digit rest =>
    have hsplit := splitDigits_append hdigits fun c hc => by
      rw [exponentText_head exponent c hc]
      rfl
    have hread : ∀ text, readFraction ('.' :: text) =
        if (splitDigits text).1.isEmpty then none
        else some (some (splitDigits text).1, (splitDigits text).2) := fun _ => rfl
    change readFraction ('.' :: ((digit :: rest) ++ exponentText exponent)) = _
    rw [hread, hsplit]
    rfl

theorem exponentDigits_text (negative : Bool) {digits : List Char} (hne : digits ≠ [])
    (hdigits : ∀ c ∈ digits, c.isDigit = true) :
    exponentDigits negative digits =
      some (some (signed negative (Nat.ofDigitChars 10 digits 0)), []) := by
  have hsplit := @splitDigits_append digits [] hdigits fun c hc => nomatch hc
  rw [List.append_nil] at hsplit
  have hempty : digits.isEmpty = false := List.isEmpty_eq_false_iff.mpr hne
  unfold exponentDigits
  rw [hsplit]
  dsimp only
  rw [hempty, if_neg Bool.false_ne_true]

theorem readExponent_text {exponent : Option (Bool × List Char)}
    (h : ∀ part ∈ exponent, part.2 ≠ [] ∧ ∀ c ∈ part.2, c.isDigit = true) :
    readExponent (exponentText exponent) =
      some (exponent.map fun part => signed part.1 (Nat.ofDigitChars 10 part.2 0), []) := by
  cases exponent with
  | none => rfl
  | some part =>
    obtain ⟨hne, hdigits⟩ := h part rfl
    obtain ⟨negative, digits⟩ := part
    cases negative with
    | true => exact exponentDigits_text true hne hdigits
    | false => exact exponentDigits_text false hne hdigits

theorem isNumberChar_digit {c : Char} (h : c.isDigit = true) : isNumberChar c = true := by
  unfold isNumberChar
  rw [h]
  rfl

namespace Numeral

variable {nearest : Bool → ℚ → Option FiniteF64} (numeral : Numeral)

theorem whole_ne_nil : numeral.whole ≠ [] := by
  intro hnil
  have hgood := numeral.whole_good
  rw [hnil] at hgood
  cases hgood

theorem chars : numeral.text.all isNumberChar = true := by
  rw [List.all_eq_true]
  intro c hc
  unfold text minus fractionText at hc
  simp only [List.mem_append] at hc
  rcases hc with hminus | hwhole | hfraction | hexponent
  · cases hnegative : numeral.negative with
    | true =>
      rw [hnegative, if_pos rfl, List.mem_singleton] at hminus
      rw [hminus]
      rfl
    | false =>
      rw [hnegative, if_neg Bool.false_ne_true] at hminus
      cases hminus
  · exact isNumberChar_digit (numeral.whole_digits c hwhole)
  · by_cases hempty : numeral.fraction.isEmpty = true
    · rw [if_pos hempty] at hfraction
      cases hfraction
    · rw [if_neg hempty, List.mem_cons] at hfraction
      rcases hfraction with rfl | hdigit
      · rfl
      · exact isNumberChar_digit (numeral.fraction_digits c hdigit)
  · cases hpart : numeral.exponent with
    | none =>
      rw [hpart] at hexponent
      cases hexponent
    | some part =>
      rw [hpart] at hexponent
      simp only [exponentText, List.mem_cons] at hexponent
      rcases hexponent with rfl | rfl | hdigit
      · rfl
      · cases part.1 <;> rfl
      · exact isNumberChar_digit ((numeral.exponent_digits part hpart).2 c hdigit)

/-- A number without a fraction and an exponent is an integer; any other is rounded. -/
theorem readNumber_text :
    readNumber nearest numeral.text =
      if numeral.fraction.isEmpty && numeral.exponent.isNone then
        integerNumber numeral.negative (Nat.ofDigitChars 10 numeral.whole 0)
      else (nearest numeral.negative numeral.value).map .float := by
  have hwhole := splitDigits_append numeral.whole_digits fun c hc => by
    rcases tail_head numeral.fraction numeral.exponent c hc with rfl | rfl <;> rfl
  have hminus : (numeral.whole ++
      (fractionText numeral.fraction ++ exponentText numeral.exponent)).head? ≠ some '-' := by
    obtain ⟨digit, rest, hcons⟩ := List.exists_cons_of_ne_nil numeral.whole_ne_nil
    rw [hcons]
    intro hhead
    obtain rfl := Option.some.inj hhead
    have hdigit := numeral.whole_digits '-' (hcons ▸ List.mem_cons_self)
    cases hdigit
  unfold readNumber text value
  rw [splitMinus_minus numeral.negative hminus]
  dsimp only
  rw [hwhole]
  dsimp only
  rw [numeral.whole_good, if_neg Bool.false_ne_true, readFraction_text numeral.fraction_digits]
  dsimp only [Option.bind_eq_bind, Option.bind_some]
  rw [readExponent_text numeral.exponent_digits]
  dsimp only [Option.bind_some]
  rw [List.isEmpty_nil, Bool.not_true, if_neg Bool.false_ne_true]
  unfold scale
  cases hfraction : numeral.fraction with
  | nil =>
    cases hexponent : numeral.exponent with
    | none => rfl
    | some part => rfl
  | cons digit rest =>
    cases hexponent : numeral.exponent with
    | none => rfl
    | some part => rfl

end Numeral

/-- An integer as it is written. -/
def integerText (value : Int) : List Char :=
  minus (decide (value < 0)) ++ Nat.toDigits 10 value.natAbs

theorem toDigits_digits (n : Nat) : ∀ c ∈ Nat.toDigits 10 n, c.isDigit = true :=
  fun _ hc => Nat.isDigit_of_mem_toDigits (by omega) (by omega) hc

theorem toDigits_good (n : Nat) : badWhole (Nat.toDigits 10 n) = false := by
  have hne : (Nat.toDigits 10 n).isEmpty = false :=
    List.isEmpty_eq_false_iff.mpr (Nat.toDigits_ne_nil)
  unfold badWhole
  rw [hne, Bool.false_or]
  by_cases hzero : n = 0
  · rw [hzero]
    rfl
  · have hhead := Decimal.head_toDigits (Nat.pos_of_ne_zero hzero)
    rw [beq_eq_false_iff_ne.mpr hhead, Bool.false_and]

/-- The numeral of an integer. -/
def integerNumeral (value : Int) : Numeral where
  negative := decide (value < 0)
  whole := Nat.toDigits 10 value.natAbs
  fraction := []
  exponent := none
  whole_digits := toDigits_digits _
  whole_good := toDigits_good _
  fraction_digits := fun _ h => nomatch h
  exponent_digits := fun _ h => nomatch h

theorem text_integerNumeral (value : Int) : (integerNumeral value).text = integerText value := by
  unfold Numeral.text integerText
  exact congrArg (minus (decide (value < 0)) ++ ·) (List.append_nil _)

/-- A machine integer is read as it was written. -/
theorem textOf_integer {nearest : Bool → ℚ → Option FiniteF64} {value : Int}
    (hlow : -2 ^ 63 ≤ value) (hhigh : value < 2 ^ 64) :
    TextOf nearest (.number (.integer value)) (integerText value) := by
  have hsigned : signed (decide (value < 0)) value.natAbs = value := by
    unfold signed
    by_cases hneg : value < 0
    · rw [decide_eq_true hneg, if_pos rfl]
      omega
    · rw [decide_eq_false hneg, if_neg Bool.false_ne_true]
      omega
  have hzero : (decide (value < 0) && value.natAbs == 0) = false := by
    rw [Bool.and_eq_false_iff, decide_eq_false_iff_not, beq_eq_false_iff_ne]
    omega
  have hread := @Numeral.readNumber_text nearest (integerNumeral value)
  rw [← text_integerNumeral]
  refine ⟨(integerNumeral value).chars, hread.trans ?_⟩
  change integerNumber (decide (value < 0))
    (Nat.ofDigitChars 10 (Nat.toDigits 10 value.natAbs) 0) = _
  rw [Nat.ofDigitChars_ten_toDigits]
  unfold integerNumber
  dsimp only
  rw [hsigned, hzero, decide_eq_false (by omega), decide_eq_false (by omega)]
  rfl

/-! ### Joining parts -/

/-- Parts with commas between them. -/
def commaJoin : List (List Char) → List Char
  | [] => []
  | first :: rest => first ++ rest.flatMap (',' :: ·)

def arrayText (items : List (List Char)) : List Char := '[' :: (commaJoin items ++ [']'])

def objectText (members : List (List Char)) : List Char :=
  '\x7b' :: (commaJoin members ++ ['\x7d'])

section Joined

variable {nearest : Bool → ℚ → Option FiniteF64}

/-- A member of an object. -/
def MemberOf (nearest : Bool → ℚ → Option FiniteF64) (entry : String × Json) (text : List Char) :
    Prop :=
  ∃ name first, text = name ++ ':' :: first ∧ Quoted entry.1 name ∧ TextOf nearest entry.2 first

theorem moreItemsOf_join {values : List Json} {texts : List (List Char)}
    (h : List.Forall₂ (TextOf nearest) values texts) :
    MoreItemsOf nearest values (texts.flatMap (',' :: ·)) := by
  induction h with
  | nil => rfl
  | @cons value text values texts hvalue _ ih => exact ⟨text, _, rfl, hvalue, ih⟩

theorem textOf_array {values : List Json} {texts : List (List Char)}
    (h : List.Forall₂ (TextOf nearest) values texts) :
    TextOf nearest (.array values) (arrayText texts) := by
  refine ⟨_, rfl, ?_⟩
  cases h with
  | nil => rfl
  | @cons value text values texts hvalue hvalues =>
    exact ⟨text, _, rfl, hvalue, moreItemsOf_join hvalues⟩

theorem moreMembersOf_join {entries : List (String × Json)} {texts : List (List Char)}
    (h : List.Forall₂ (MemberOf nearest) entries texts) :
    MoreMembersOf nearest entries (texts.flatMap (',' :: ·)) := by
  induction h with
  | nil => rfl
  | cons hentry _ ih =>
    obtain ⟨name, first, rfl, hname, hfirst⟩ := hentry
    refine ⟨name, first, _, ?_, hname, hfirst, ih⟩
    rw [List.flatMap_cons, List.cons_append, List.append_assoc, List.cons_append]

theorem textOf_object {entries : List (String × Json)} {texts : List (List Char)}
    (h : List.Forall₂ (MemberOf nearest) entries texts) :
    TextOf nearest (.object entries) (objectText texts) := by
  refine ⟨_, rfl, ?_⟩
  cases h with
  | nil => rfl
  | cons hentry hentries =>
    obtain ⟨name, first, rfl, hname, hfirst⟩ := hentry
    refine ⟨name, first, _, ?_, hname, hfirst, moreMembersOf_join hentries⟩
    rw [commaJoin, List.append_assoc, List.cons_append]

end Joined

end SpecGate.JsonTexts

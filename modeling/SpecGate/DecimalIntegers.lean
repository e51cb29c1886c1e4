import SpecGate.FloatTexts
import SpecGate.OtlpScalars

/-!
The integers that decimal texts spell. A text is taken apart into its sign, its digits before
and after the point, and its exponent; the parser of the OTLP mapping answers with the exact
value of what the parts spell, as far as its limits on exponents and digits let it.
-/
namespace SpecGate.DecimalIntegers

open IntegerText OtlpScalars JsonTexts FloatTexts

/-! ### Decimal texts -/

structure ExponentText where
  marker : Char
  sign : Option Char
  digits : List Char

namespace ExponentText

def number (exponent : ExponentText) : List Char := exponent.sign.toList ++ exponent.digits

def value (exponent : ExponentText) : Int :=
  signed (exponent.sign == some '-') (Nat.ofDigitChars 10 exponent.digits 0)

structure WellFormed (exponent : ExponentText) : Prop where
  marker : exponent.marker = 'e' ∨ exponent.marker = 'E'
  sign : ∀ c ∈ exponent.sign, c = '+' ∨ c = '-'
  nonempty : exponent.digits ≠ []
  digits : ∀ c ∈ exponent.digits, c.isDigit = true

end ExponentText

/-- A number with its fraction and its exponent, as far as they are written. -/
structure DecimalText where
  negative : Bool
  whole : List Char
  fraction : Option (List Char)
  exponent : Option ExponentText

namespace DecimalText

def digits (text : DecimalText) : List Char := text.whole ++ text.fraction.getD []

def unsigned (text : DecimalText) : List Char :=
  match text.fraction with
  | none => text.whole
  | some fraction => text.whole ++ '.' :: fraction

def mantissa (text : DecimalText) : List Char := minus text.negative ++ text.unsigned

def chars (text : DecimalText) : List Char :=
  match text.exponent with
  | none => text.mantissa
  | some exponent => text.mantissa ++ exponent.marker :: exponent.number

def exponentValue (text : DecimalText) : Int :=
  match text.exponent with
  | none => 0
  | some exponent => exponent.value

/-- The power of ten of the last digit. -/
def scale (text : DecimalText) : Int := text.exponentValue - (text.fraction.getD []).length

/-- The exact value. -/
def value (text : DecimalText) : ℚ :=
  if text.negative then -valueOf text.digits text.scale else valueOf text.digits text.scale

structure WellFormed (text : DecimalText) : Prop where
  nonempty : text.whole ≠ []
  whole : ∀ c ∈ text.whole, c.isDigit = true
  fraction : ∀ fraction ∈ text.fraction, fraction ≠ [] ∧ ∀ c ∈ fraction, c.isDigit = true
  exponent : ∀ exponent ∈ text.exponent, exponent.WellFormed

/-- The grammar of JSON numbers: no zero stands before other digits. -/
structure Json (text : DecimalText) : Prop where
  wellFormed : text.WellFormed
  whole : text.whole = ['0'] ∨ text.whole.head? ≠ some '0'

/-- The limits of the parser on the exponent, the fraction and the digits. -/
structure Fits (text : DecimalText) : Prop where
  exponent : -2 ^ 31 ≤ text.exponentValue ∧ text.exponentValue ≤ 2 ^ 31 - 1
  fraction : (text.fraction.getD []).length < 2 ^ 31
  scale : -2 ^ 31 ≤ text.scale
  digits : 0 ≤ text.scale → text.digits.length + text.scale.toNat ≤ i128MaxDigits

/-- A zero whose exponent takes away more digits than there are. -/
def Vanishing (text : DecimalText) : Prop :=
  Nat.ofDigitChars 10 text.digits 0 = 0 ∧ text.scale < -text.digits.length

end DecimalText

/-! ### Splitting -/

section Splitting

variable {isSeparator : Char → Bool}

theorem takeWhile_front {front : List Char} (h : ∀ c ∈ front, isSeparator c = false)
    {separator : Char} (hseparator : isSeparator separator = true) (back : List Char) :
    (front ++ separator :: back).takeWhile (fun c => !isSeparator c) = front ∧
      (front ++ separator :: back).dropWhile (fun c => !isSeparator c) = separator :: back := by
  have hall : ∀ c ∈ front, (!isSeparator c) = true := fun c hc => by rw [h c hc]; rfl
  constructor
  · rw [List.takeWhile_append_of_pos hall, List.takeWhile_cons_of_neg (by rw [hseparator]; decide),
      List.append_nil]
  · rw [List.dropWhile_append_of_pos hall, List.dropWhile_cons_of_neg (by rw [hseparator]; decide)]

theorem splitOnce_separator {front : List Char} (h : ∀ c ∈ front, isSeparator c = false)
    {separator : Char} (hseparator : isSeparator separator = true) (back : List Char) :
    splitOnce isSeparator (front ++ separator :: back) = (front, some back) := by
  obtain ⟨hfront, hback⟩ := takeWhile_front h hseparator back
  rw [splitOnce, hback]
  dsimp only
  rw [hfront]

theorem splitOnce_whole {text : List Char} (h : ∀ c ∈ text, isSeparator c = false) :
    splitOnce isSeparator text = (text, none) := by
  have hnone : text.dropWhile (fun c => !isSeparator c) = [] :=
    List.dropWhile_eq_nil_iff.mpr fun c hc => by rw [h c hc]; rfl
  rw [splitOnce, hnone]

theorem whole_of_splitOnce {text front : List Char}
    (h : splitOnce isSeparator text = (front, none)) : text = front := by
  unfold splitOnce at h
  split at h
  · exact (Prod.mk.inj h).1
  · cases (Prod.mk.inj h).2

theorem separator_of_splitOnce {text front back : List Char}
    (h : splitOnce isSeparator text = (front, some back)) :
    ∃ separator, isSeparator separator = true ∧ text = front ++ separator :: back := by
  unfold splitOnce at h
  split at h
  · cases (Prod.mk.inj h).2
  · rename_i separator rest hdrop
    obtain ⟨hfront, hback⟩ := Prod.mk.inj h
    obtain rfl := Option.some.inj hback
    refine ⟨separator, ?_, ?_⟩
    · have hnot := List.head?_dropWhile_not (fun c => !isSeparator c) text
      rw [hdrop] at hnot
      simpa using hnot
    · conv_lhs => rw [← List.takeWhile_append_dropWhile (p := fun c => !isSeparator c) (l := text)]
      rw [hfront, hdrop]

end Splitting

/-! ### Reading the parts -/

theorem isDigit_not {c : Char} (h : c.isDigit = true) {other : Char}
    (hother : other.isDigit = false) : c ≠ other := by
  rintro rfl
  rw [h] at hother
  cases hother

def isExponentMarker (c : Char) : Bool := c == 'e' || c == 'E'

theorem marker_of_digit {c : Char} (h : c.isDigit = true) : isExponentMarker c = false := by
  unfold isExponentMarker
  rw [beq_false_of_ne (isDigit_not h rfl), beq_false_of_ne (isDigit_not h rfl)]
  rfl

theorem ExponentText.WellFormed.split {exponent : ExponentText} (h : exponent.WellFormed) :
    splitSign exponent.number = (exponent.sign == some '-', exponent.digits) := by
  unfold ExponentText.number
  cases hsign : exponent.sign with
  | none => exact splitSign_of_digits h.digits
  | some c =>
    rcases h.sign c (by rw [hsign]; rfl) with rfl | rfl
    · rfl
    · rfl

theorem ExponentText.WellFormed.read {exponent : ExponentText} (h : exponent.WellFormed)
    {value : Int} :
    (parseI32 (String.ofList exponent.number)).toOption = some value ↔
      exponent.value = value ∧ -2 ^ 31 ≤ value ∧ value ≤ 2 ^ 31 - 1 := by
  have hread : parseI32 (String.ofList exponent.number) = .ok value ↔
      exponent.value = value ∧ -2 ^ 31 ≤ value ∧ value ≤ 2 ^ 31 - 1 := by
    rw [parseI32, parseInteger_eq_ok (by decide) (by decide), String.toList_ofList, h.split]
    constructor
    · rintro ⟨-, -, -, hvalue, hbounds⟩
      exact ⟨hvalue, hbounds⟩
    · rintro ⟨hvalue, hbounds⟩
      exact ⟨fun _ => by decide, h.nonempty, h.digits, hvalue, hbounds⟩
  rw [← hread]
  cases parseI32 (String.ofList exponent.number) with
  | error kind => exact ⟨fun heq => (by cases heq), fun heq => (by cases heq)⟩
  | ok found => exact ⟨fun heq => congrArg Except.ok (Option.some.inj heq),
      fun heq => congrArg some (Except.ok.inj heq)⟩

/-- What is read as an exponent is one. -/
theorem exponent_of_read {number : List Char} {value : Int} {marker : Char}
    (hmarker : isExponentMarker marker = true)
    (h : (parseI32 (String.ofList number)).toOption = some value) :
    ∃ exponent : ExponentText, exponent.WellFormed ∧ exponent.marker = marker ∧
      exponent.number = number := by
  have hread : parseI32 (String.ofList number) = .ok value := by
    cases hparse : parseI32 (String.ofList number) with
    | error kind =>
      rw [hparse] at h
      cases h
    | ok found =>
      rw [hparse] at h
      exact congrArg Except.ok (Option.some.inj h)
  rw [parseI32, parseInteger_eq_ok (by decide) (by decide), String.toList_ofList] at hread
  obtain ⟨-, hne, hdigits, -, -⟩ := hread
  have hmarker' : marker = 'e' ∨ marker = 'E' := by
    unfold isExponentMarker at hmarker
    rw [Bool.or_eq_true, beq_iff_eq, beq_iff_eq] at hmarker
    exact hmarker
  unfold splitSign at hne hdigits
  split at hne
  · rename_i digits
    exact ⟨⟨marker, some '+', digits⟩, ⟨hmarker', fun c hc => .inl (Option.some.inj hc).symm, hne,
      hdigits⟩, rfl, rfl⟩
  · rename_i digits
    exact ⟨⟨marker, some '-', digits⟩, ⟨hmarker', fun c hc => .inr (Option.some.inj hc).symm, hne,
      hdigits⟩, rfl, rfl⟩
  · rename_i hplus hminus
    refine ⟨⟨marker, none, number⟩, ⟨hmarker', fun c hc => (by cases hc), hne, ?_⟩, rfl, rfl⟩
    split at hdigits
    · exact absurd rfl (hplus _)
    · exact absurd rfl (hminus _)
    · exact hdigits

/-- The number that the digits spell, as far as it fits. -/
def magnitudeOf (digits : List Char) : Option Int :=
  let significant := digits.dropWhile (· == '0')
  if significant.isEmpty then some 0 else (parseI128 (String.ofList significant)).toOption

namespace DecimalText

/-- The answer to a text, from its parts. -/
def evaluate (text : DecimalText) : Option Int :=
  (shiftDigits text.digits text.scale).bind fun shifted =>
    (magnitudeOf shifted).map fun magnitude => if text.negative then -magnitude else magnitude

variable {text : DecimalText}

theorem WellFormed.unsigned_head (h : text.WellFormed) :
    ∃ first rest, text.unsigned = first :: rest ∧ first.isDigit = true := by
  obtain ⟨first, rest, hwhole⟩ := List.exists_cons_of_ne_nil h.nonempty
  have hdigit : first.isDigit = true := h.whole first (by rw [hwhole]; exact List.mem_cons_self)
  unfold unsigned
  cases text.fraction with
  | none => exact ⟨first, rest, hwhole, hdigit⟩
  | some fraction => exact ⟨first, rest ++ '.' :: fraction, by rw [hwhole]; rfl, hdigit⟩

theorem WellFormed.mantissa_plain (h : text.WellFormed) :
    ∀ c ∈ text.mantissa, isExponentMarker c = false := by
  intro c hc
  unfold mantissa unsigned at hc
  rcases List.mem_append.mp hc with hsign | hnumber
  · unfold minus at hsign
    split at hsign
    · rw [List.mem_singleton.mp hsign]
      rfl
    · cases hsign
  · cases hfraction : text.fraction with
    | none =>
      rw [hfraction] at hnumber
      exact marker_of_digit (h.whole c hnumber)
    | some fraction =>
      rw [hfraction] at hnumber
      rcases List.mem_append.mp hnumber with hwhole | hrest
      · exact marker_of_digit (h.whole c hwhole)
      · rcases List.mem_cons.mp hrest with rfl | hrest
        · rfl
        · exact marker_of_digit ((h.fraction fraction hfraction).2 c hrest)

theorem WellFormed.split_point (h : text.WellFormed) :
    splitOnce (· == '.') text.unsigned = (text.whole, text.fraction) := by
  have hwhole : ∀ c ∈ text.whole, (c == '.') = false :=
    fun c hc => beq_false_of_ne (isDigit_not (h.whole c hc) rfl)
  unfold unsigned
  cases text.fraction with
  | none => exact splitOnce_whole hwhole
  | some fraction => exact splitOnce_separator hwhole rfl fraction

theorem WellFormed.fraction_digits (h : text.WellFormed) :
    ∀ c ∈ text.fraction.getD [], c.isDigit = true := by
  cases hfraction : text.fraction with
  | none => exact fun c hc => (by cases hc)
  | some fraction => exact (h.fraction fraction hfraction).2

end DecimalText

/-! ### The parser on the parts -/

/-- The digits before and after the point are none of a number. -/
def malformed (whole : List Char) (fractionText : Option (List Char)) : Bool :=
  whole.isEmpty || !whole.all Char.isDigit || !(fractionText.getD []).all Char.isDigit ||
    (fractionText.isSome && (fractionText.getD []).isEmpty)

/-- The answer to a number from its digits before and after the point. -/
def answer (negative : Bool) (whole : List Char) (fractionText : Option (List Char))
    (exponent : Int) : Option Int :=
  if malformed whole fractionText then none
  else if 2 ^ 31 ≤ (fractionText.getD []).length then none
  else if exponent - (fractionText.getD []).length < -2 ^ 31 then none
  else (shiftDigits (whole ++ fractionText.getD []) (exponent - (fractionText.getD []).length)).bind
    fun shifted => (magnitudeOf shifted).map fun magnitude =>
      if negative then -magnitude else magnitude

theorem answer_do (negative : Bool) (whole : List Char) (fractionText : Option (List Char))
    (exponent : Int) : answer negative whole fractionText exponent = (do
      let fraction := fractionText.getD []
      if whole.isEmpty || !whole.all Char.isDigit || !fraction.all Char.isDigit ||
          (fractionText.isSome && fraction.isEmpty) then none
      if 2 ^ 31 ≤ fraction.length then none
      let shift := exponent - fraction.length
      if shift < -2 ^ 31 then none
      let digits ← shiftDigits (whole ++ fraction) shift
      let significant := digits.dropWhile (· == '0')
      let magnitude ← if significant.isEmpty then some 0
        else (parseI128 (String.ofList significant)).toOption
      return if negative then -magnitude else magnitude) := by
  unfold answer malformed
  dsimp only
  by_cases hform : (whole.isEmpty || !whole.all Char.isDigit ||
      !(fractionText.getD []).all Char.isDigit ||
      (fractionText.isSome && (fractionText.getD []).isEmpty)) = true
  · rw [if_pos hform, if_pos hform]
    rfl
  rw [if_neg hform, if_neg hform]
  by_cases hlength : 2 ^ 31 ≤ (fractionText.getD []).length
  · rw [if_pos hlength, if_pos hlength]
    rfl
  rw [if_neg hlength, if_neg hlength]
  by_cases hshift : exponent - (fractionText.getD []).length < -2 ^ 31
  · rw [if_pos hshift, if_pos hshift]
    rfl
  rw [if_neg hshift, if_neg hshift]
  refine congrArg (Option.bind _) (funext fun shifted => ?_)
  unfold magnitudeOf
  dsimp only
  by_cases hempty : (shifted.dropWhile (· == '0')).isEmpty = true
  · rw [if_pos hempty, if_pos hempty]
    rfl
  rw [if_neg hempty, if_neg hempty]
  cases (parseI128 (String.ofList (shifted.dropWhile (· == '0')))).toOption <;> rfl

theorem parseFraction_split {text mantissa : List Char} {number : Option (List Char)}
    (hsplit : splitOnce isExponentMarker text = (mantissa, number)) {negative : Bool}
    {unsigned : List Char} (hsign : splitMinus mantissa = (negative, unsigned))
    {whole : List Char} {fractionText : Option (List Char)}
    (hpoint : splitOnce (· == '.') unsigned = (whole, fractionText)) :
    parseFraction text =
      (match number with
        | none => some 0
        | some number => (parseI32 (String.ofList number)).toOption).bind
          (answer negative whole fractionText) := by
  have hanswer : answer negative whole fractionText = answer (splitMinus mantissa).1
      (splitOnce (· == '.') (splitMinus mantissa).2).1
      (splitOnce (· == '.') (splitMinus mantissa).2).2 := by
    rw [hsign, hpoint]
  have hmantissa : mantissa = (splitOnce isExponentMarker text).1 := by rw [hsplit]
  have hnumber : number = (splitOnce isExponentMarker text).2 := by rw [hsplit]
  rw [hanswer, hmantissa, hnumber]
  have hbody : answer (splitMinus (splitOnce isExponentMarker text).1).1
      (splitOnce (· == '.') (splitMinus (splitOnce isExponentMarker text).1).2).1
      (splitOnce (· == '.') (splitMinus (splitOnce isExponentMarker text).1).2).2 = _ :=
    funext fun exponent => answer_do _ _ _ exponent
  rw [hbody]
  have hmarker : (fun c : Char => c == 'e' || c == 'E') = isExponentMarker := rfl
  unfold parseFraction
  rw [hmarker]
  generalize splitOnce isExponentMarker text = parts
  obtain ⟨mantissa, _ | number⟩ := parts
  · rfl
  · rfl
/-! ### Decimal texts and the parser -/

theorem all_digits {digits : List Char} : digits.all Char.isDigit = true ↔
    ∀ c ∈ digits, c.isDigit = true := List.all_eq_true

namespace DecimalText

variable {text : DecimalText}

theorem WellFormed.not_malformed (h : text.WellFormed) :
    malformed text.whole text.fraction = false := by
  have hwhole : text.whole.isEmpty = false := by
    rw [Bool.eq_false_iff, Ne, List.isEmpty_iff]
    exact h.nonempty
  have hempty : (text.fraction.isSome && (text.fraction.getD []).isEmpty) = false := by
    cases hfraction : text.fraction with
    | none => rfl
    | some fraction =>
      rw [Option.isSome_some, Bool.true_and, Option.getD_some, Bool.eq_false_iff, Ne,
        List.isEmpty_iff]
      exact (h.fraction fraction hfraction).1
  unfold malformed
  rw [hwhole, all_digits.mpr h.whole, all_digits.mpr h.fraction_digits, hempty]
  rfl

theorem WellFormed.split_exponent (h : text.WellFormed) :
    splitOnce isExponentMarker text.chars =
      (text.mantissa, text.exponent.map ExponentText.number) := by
  unfold chars
  cases hexponent : text.exponent with
  | none => exact splitOnce_whole h.mantissa_plain
  | some exponent =>
    refine splitOnce_separator h.mantissa_plain ?_ _
    rcases (h.exponent exponent hexponent).marker with hmarker | hmarker
    · rw [hmarker]
      rfl
    · rw [hmarker]
      rfl

theorem WellFormed.split_minus (h : text.WellFormed) :
    splitMinus text.mantissa = (text.negative, text.unsigned) := by
  obtain ⟨first, rest, hunsigned, hdigit⟩ := h.unsigned_head
  unfold mantissa minus
  cases text.negative with
  | true => rfl
  | false =>
    rw [hunsigned]
    unfold splitMinus
    split
    · rename_i heq
      exact absurd (List.cons.inj heq).1 (isDigit_not hdigit rfl)
    · rfl

/-- The limits that do not depend on the digits. -/
structure Bounded (text : DecimalText) : Prop where
  exponent : -2 ^ 31 ≤ text.exponentValue ∧ text.exponentValue ≤ 2 ^ 31 - 1
  fraction : (text.fraction.getD []).length < 2 ^ 31
  scale : -2 ^ 31 ≤ text.scale

theorem answer_parts (h : text.WellFormed) {exponent value : Int}
    (hexponent : text.exponentValue = exponent) :
    answer text.negative text.whole text.fraction exponent = some value ↔
      ((text.fraction.getD []).length < 2 ^ 31 ∧ -2 ^ 31 ≤ text.scale) ∧
        text.evaluate = some value := by
  unfold answer evaluate scale digits
  rw [h.not_malformed, if_neg Bool.false_ne_true, ← hexponent]
  by_cases hlength : 2 ^ 31 ≤ (text.fraction.getD []).length
  · rw [if_pos hlength]
    exact iff_of_false (fun heq => (by cases heq)) fun hall => by omega
  rw [if_neg hlength]
  by_cases hshift : text.exponentValue - (text.fraction.getD []).length < -2 ^ 31
  · rw [if_pos hshift]
    exact iff_of_false (fun heq => (by cases heq)) fun hall => by omega
  rw [if_neg hshift]
  exact ⟨fun heq => ⟨⟨by omega, by omega⟩, heq⟩, fun hall => hall.2⟩

theorem parseFraction_chars (h : text.WellFormed) {value : Int} :
    parseFraction text.chars = some value ↔ text.Bounded ∧ text.evaluate = some value := by
  rw [parseFraction_split h.split_exponent h.split_minus h.split_point]
  cases hexponent : text.exponent with
  | none =>
    have hvalue : text.exponentValue = 0 := by rw [exponentValue, hexponent]
    rw [Option.map_none]
    dsimp only
    rw [Option.bind_some, answer_parts h hvalue]
    exact ⟨fun hall => ⟨⟨by rw [hvalue]; decide, hall.1.1, hall.1.2⟩, hall.2⟩,
      fun hall => ⟨⟨hall.1.fraction, hall.1.scale⟩, hall.2⟩⟩
  | some exponent =>
    have hvalue : text.exponentValue = exponent.value := by rw [exponentValue, hexponent]
    have hread (value : Int) : (parseI32 (String.ofList exponent.number)).toOption = some value ↔
        exponent.value = value ∧ -2 ^ 31 ≤ value ∧ value ≤ 2 ^ 31 - 1 :=
      (h.exponent exponent hexponent).read
    rw [Option.map_some]
    dsimp only
    rw [Option.bind_eq_some_iff]
    constructor
    · rintro ⟨found, hfound, hanswer⟩
      obtain ⟨hsame, hbounds⟩ := (hread found).mp hfound
      rw [answer_parts h (hvalue.trans hsame)] at hanswer
      refine ⟨⟨?_, hanswer.1.1, hanswer.1.2⟩, hanswer.2⟩
      rw [hvalue, hsame]
      exact hbounds
    · intro hall
      refine ⟨exponent.value, (hread _).mpr ⟨rfl, hvalue ▸ hall.1.exponent⟩, ?_⟩
      rw [answer_parts h hvalue]
      exact ⟨⟨hall.1.fraction, hall.1.scale⟩, hall.2⟩

end DecimalText

theorem splitMinus_eq {chars unsigned : List Char} {negative : Bool}
    (h : splitMinus chars = (negative, unsigned)) : chars = minus negative ++ unsigned := by
  unfold splitMinus at h
  split at h
  · obtain ⟨rfl, rfl⟩ := Prod.mk.inj h
    rfl
  · obtain ⟨rfl, rfl⟩ := Prod.mk.inj h
    rfl

/-- Digits that are not malformed make a decimal text with any exponent. -/
theorem wellFormed_of_parts {whole : List Char} {fraction : Option (List Char)}
    (h : malformed whole fraction = false) (negative : Bool) {exponent : Option ExponentText}
    (hexponent : ∀ found ∈ exponent, found.WellFormed) :
    (DecimalText.mk negative whole fraction exponent).WellFormed := by
  unfold malformed at h
  obtain ⟨h, hempty⟩ := Bool.or_eq_false_iff.mp h
  obtain ⟨h, hfraction⟩ := Bool.or_eq_false_iff.mp h
  obtain ⟨hnonempty, hwhole⟩ := Bool.or_eq_false_iff.mp h
  rw [Bool.not_eq_false'] at hfraction hwhole
  refine ⟨fun hnil => ?_, all_digits.mp hwhole, fun digits hdigits => ?_, hexponent⟩
  · dsimp only at hnil
    rw [hnil] at hnonempty
    cases hnonempty
  · obtain rfl : fraction = some digits := hdigits
    refine ⟨fun hnil => ?_, all_digits.mp hfraction⟩
    rw [hnil] at hempty
    cases hempty

/-- What the parser answers is a decimal text. -/
theorem exists_of_parseFraction {chars : List Char} {value : Int}
    (h : parseFraction chars = some value) :
    ∃ text : DecimalText, text.WellFormed ∧ chars = text.chars := by
  obtain ⟨mantissa, number, hsplit⟩ : ∃ mantissa number,
      splitOnce isExponentMarker chars = (mantissa, number) := ⟨_, _, rfl⟩
  obtain ⟨negative, unsigned, hminus⟩ : ∃ negative unsigned,
      splitMinus mantissa = (negative, unsigned) := ⟨_, _, rfl⟩
  obtain ⟨whole, fraction, hpoint⟩ : ∃ whole fraction,
      splitOnce (· == '.') unsigned = (whole, fraction) := ⟨_, _, rfl⟩
  rw [parseFraction_split hsplit hminus hpoint] at h
  obtain ⟨exponent, hexponent, hanswer⟩ := Option.bind_eq_some_iff.mp h
  have hform : malformed whole fraction = false := by
    rw [Bool.eq_false_iff]
    intro hform
    rw [answer, if_pos hform] at hanswer
    cases hanswer
  have hunsigned : unsigned = (DecimalText.mk negative whole fraction none).unsigned := by
    cases fraction with
    | none => exact whole_of_splitOnce hpoint
    | some digits =>
      obtain ⟨point, hisPoint, hunsigned⟩ := separator_of_splitOnce hpoint
      rw [hunsigned, eq_of_beq hisPoint]
      rfl
  have hmantissa : mantissa = (DecimalText.mk negative whole fraction none).mantissa := by
    rw [splitMinus_eq hminus, hunsigned]
    rfl
  cases number with
  | none =>
    refine ⟨⟨negative, whole, fraction, none⟩, wellFormed_of_parts hform negative
      fun _ hnone => (by cases hnone), ?_⟩
    rw [whole_of_splitOnce hsplit, hmantissa]
    rfl
  | some number =>
    obtain ⟨marker, hmarker, hchars⟩ := separator_of_splitOnce hsplit
    obtain ⟨exponentText, hformed, rfl, rfl⟩ := exponent_of_read hmarker hexponent
    refine ⟨⟨negative, whole, fraction, some exponentText⟩, wellFormed_of_parts hform negative
      fun other hother => Option.some.inj hother ▸ hformed, ?_⟩
    rw [hchars, hmantissa]
    rfl

/-! ### Exact values -/

theorem ofDigitChars_lt {digits : List Char} (h : ∀ c ∈ digits, c.isDigit = true) :
    Nat.ofDigitChars 10 digits 0 < 10 ^ digits.length := by
  induction digits with
  | nil => exact Nat.one_pos
  | cons c rest ih =>
    have hdigit := Decimal.digit_bounds (h c List.mem_cons_self)
    have hrest := ih fun other hother => h other (List.mem_cons_of_mem _ hother)
    rw [Nat.ofDigitChars_cons, Nat.ofDigitChars_eq_ofDigitChars_zero, List.length_cons, Nat.pow_succ]
    have hzero : '0'.toNat = 48 := rfl
    have hle : 10 * 0 + (c.toNat - '0'.toNat) ≤ 9 := by omega
    have hmul := Nat.mul_le_mul_left (10 ^ rest.length) hle
    omega

theorem zeros_of_ofDigitChars {digits : List Char} (h : ∀ c ∈ digits, c.isDigit = true)
    (hzero : Nat.ofDigitChars 10 digits 0 = 0) : digits.all (· == '0') = true := by
  induction digits with
  | nil => rfl
  | cons c rest ih =>
    have hdigit := h c List.mem_cons_self
    rw [Nat.ofDigitChars_cons, Nat.ofDigitChars_eq_ofDigitChars_zero, Nat.add_eq_zero_iff,
      Nat.mul_eq_zero] at hzero
    have hfirst := hzero.1.resolve_left (by positivity)
    have hcode : '0'.toNat = 48 := rfl
    have hbounds := Decimal.digit_bounds hdigit
    have hc : c = '0' := Char.toNat_inj.mp (by omega)
    rw [List.all_cons, hc, ih (fun other hother => h other (List.mem_cons_of_mem _ hother)) hzero.2]
    rfl

theorem eq_replicate_of_zeros {digits : List Char} (h : digits.all (· == '0') = true) :
    digits = List.replicate digits.length '0' :=
  List.eq_replicate_iff.mpr ⟨rfl, fun c hc => eq_of_beq (List.all_eq_true.mp h c hc)⟩

theorem valueOf_zero (digits : List Char) :
    valueOf digits 0 = (Nat.ofDigitChars 10 digits 0 : ℚ) := by
  unfold valueOf
  rw [zpow_zero, mul_one]

/-- Digits that are moved keep their value. -/
theorem value_of_shiftDigits {digits shifted : List Char} {shift : Int}
    (hdigits : ∀ c ∈ digits, c.isDigit = true) (h : shiftDigits digits shift = some shifted) :
    (0 ≤ shift → digits.length + shift.toNat ≤ i128MaxDigits) ∧
      (∀ c ∈ shifted, c.isDigit = true) ∧
      valueOf digits shift = (Nat.ofDigitChars 10 shifted 0 : ℚ) := by
  unfold shiftDigits at h
  by_cases hshift : 0 ≤ shift
  · rw [if_pos hshift] at h
    by_cases hlong : i128MaxDigits < digits.length + shift.toNat
    · rw [if_pos hlong] at h
      cases h
    · rw [if_neg hlong] at h
      obtain rfl := Option.some.inj h
      refine ⟨fun _ => Nat.le_of_not_lt hlong, fun c hc => ?_, ?_⟩
      · rcases List.mem_append.mp hc with hold | hnew
        · exact hdigits c hold
        · rw [(List.mem_replicate.mp hnew).2]
          rfl
      · rw [← valueOf_zero, valueOf_append_zeros, Int.toNat_of_nonneg hshift, zero_add]
  · rw [if_neg hshift] at h
    dsimp only at h
    by_cases hshort : digits.length < (-shift).toNat
    · rw [if_pos hshort] at h
      cases h
    · rw [if_neg hshort] at h
      by_cases hzeros : (digits.drop (digits.length - (-shift).toNat)).all (· == '0') = true
      · rw [if_pos hzeros] at h
        obtain rfl := Option.some.inj h
        refine ⟨fun hnonneg => absurd hnonneg hshift,
          fun c hc => hdigits c (List.mem_of_mem_take hc), ?_⟩
        have hlength : (digits.drop (digits.length - (-shift).toNat)).length = (-shift).toNat := by
          rw [List.length_drop]
          omega
        have hsplit := List.take_append_drop (digits.length - (-shift).toNat) digits
        rw [eq_replicate_of_zeros hzeros, hlength] at hsplit
        conv_lhs => rw [← hsplit]
        rw [valueOf_append_zeros, ← valueOf_zero]
        congr 1
        omega
      · rw [if_neg hzeros] at h
        cases h

/-- Digits that spell an integer can be moved, unless they vanish. -/
theorem shiftDigits_isSome {digits : List Char} {shift : Int}
    (hdigits : ∀ c ∈ digits, c.isDigit = true)
    (hlimit : 0 ≤ shift → digits.length + shift.toNat ≤ i128MaxDigits) {magnitude : Nat}
    (hvalue : valueOf digits shift = (magnitude : ℚ))
    (hvanish : ¬ (Nat.ofDigitChars 10 digits 0 = 0 ∧ shift < -digits.length)) :
    ∃ shifted, shiftDigits digits shift = some shifted := by
  unfold shiftDigits
  by_cases hshift : 0 ≤ shift
  · rw [if_pos hshift, if_neg (Nat.not_lt.mpr (hlimit hshift))]
    exact ⟨_, rfl⟩
  rw [if_neg hshift]
  dsimp only
  obtain ⟨remove, hremove⟩ : ∃ remove : Nat, shift = -remove := ⟨(-shift).toNat, by omega⟩
  have htoNat : (-shift).toNat = remove := by omega
  -- the digits are a multiple of the power of ten that is taken away
  have hmultiple : Nat.ofDigitChars 10 digits 0 = magnitude * 10 ^ remove := by
    unfold valueOf at hvalue
    rw [hremove, zpow_neg, zpow_natCast, ← div_eq_mul_inv, div_eq_iff (by positivity)] at hvalue
    exact_mod_cast hvalue
  have hlength : remove ≤ digits.length := by
    by_contra hlong
    have hlt := ofDigitChars_lt hdigits
    have hpow : 10 ^ digits.length ≤ 10 ^ remove :=
      Nat.pow_le_pow_right (by decide) (by omega)
    have hmagnitude : magnitude = 0 := by
      by_contra hpositive
      have := Nat.le_mul_of_pos_left (10 ^ remove) (Nat.pos_of_ne_zero hpositive)
      omega
    rw [hmagnitude, Nat.zero_mul] at hmultiple
    exact hvanish ⟨hmultiple, by omega⟩
  rw [htoNat, if_neg (Nat.not_lt.mpr hlength)]
  have hback : ∀ c ∈ digits.drop (digits.length - remove), c.isDigit = true :=
    fun c hc => hdigits c (List.mem_of_mem_drop hc)
  have hcount : (digits.drop (digits.length - remove)).length = remove := by
    rw [List.length_drop]
    omega
  have hsplit : Nat.ofDigitChars 10 digits 0 =
      10 ^ remove * Nat.ofDigitChars 10 (digits.take (digits.length - remove)) 0 +
        Nat.ofDigitChars 10 (digits.drop (digits.length - remove)) 0 := by
    conv_lhs => rw [← List.take_append_drop (digits.length - remove) digits]
    rw [Nat.ofDigitChars_append, Nat.ofDigitChars_eq_ofDigitChars_zero, hcount]
  have hsmall := ofDigitChars_lt hback
  rw [hcount] at hsmall
  have hzero : Nat.ofDigitChars 10 (digits.drop (digits.length - remove)) 0 = 0 := by
    have hmod := congrArg (· % 10 ^ remove) (hsplit.symm.trans hmultiple)
    rw [Nat.mul_add_mod, Nat.mul_mod_left, Nat.mod_eq_of_lt hsmall] at hmod
    exact hmod
  rw [if_pos (zeros_of_ofDigitChars hback hzero)]
  exact ⟨_, rfl⟩

theorem magnitudeOf_eq {digits : List Char} (h : ∀ c ∈ digits, c.isDigit = true)
    {magnitude : Int} :
    magnitudeOf digits = some magnitude ↔
      (Nat.ofDigitChars 10 digits 0 : Int) = magnitude ∧ magnitude ≤ 2 ^ 127 - 1 := by
  have htrim : Nat.ofDigitChars 10 (digits.dropWhile (· == '0')) 0 =
      Nat.ofDigitChars 10 digits 0 := ofDigitChars_trimStart digits
  have hrest : ∀ c ∈ digits.dropWhile (· == '0'), c.isDigit = true :=
    fun c hc => h c (List.dropWhile_subset _ hc)
  unfold magnitudeOf
  dsimp only
  by_cases hempty : (digits.dropWhile (· == '0')).isEmpty = true
  · rw [if_pos hempty, Option.some.injEq]
    rw [List.isEmpty_iff.mp hempty, Nat.ofDigitChars_nil] at htrim
    rw [← htrim]
    exact ⟨fun heq => ⟨heq, by omega⟩, fun hall => hall.1⟩
  · rw [if_neg hempty]
    have hread : parseI128 (String.ofList (digits.dropWhile (· == '0'))) = .ok magnitude ↔
        (Nat.ofDigitChars 10 digits 0 : Int) = magnitude ∧ magnitude ≤ 2 ^ 127 - 1 := by
      rw [parseI128, parseInteger_eq_ok (by decide) (by decide), String.toList_ofList,
        splitSign_of_digits hrest]
      dsimp only
      rw [htrim]
      constructor
      · rintro ⟨-, -, -, hvalue, -, hhigh⟩
        exact ⟨hvalue, hhigh⟩
      · rintro ⟨hvalue, hhigh⟩
        refine ⟨fun hfalse => (by cases hfalse), fun hnil => ?_, hrest, hvalue, ?_, hhigh⟩
        · rw [hnil] at hempty
          exact hempty rfl
        · omega
    rw [← hread]
    cases parseI128 (String.ofList (digits.dropWhile (· == '0'))) with
    | error kind => exact ⟨fun heq => (by cases heq), fun heq => (by cases heq)⟩
    | ok found => exact ⟨fun heq => congrArg Except.ok (Option.some.inj heq),
        fun heq => congrArg some (Except.ok.inj heq)⟩

namespace DecimalText

variable {text : DecimalText}

theorem WellFormed.digits_digits (h : text.WellFormed) :
    ∀ c ∈ text.digits, c.isDigit = true := by
  intro c hc
  rcases List.mem_append.mp hc with hwhole | hfraction
  · exact h.whole c hwhole
  · exact h.fraction_digits c hfraction

/-- The parts are answered with their exact value. -/
theorem WellFormed.evaluate_iff (h : text.WellFormed) (hvanish : ¬ text.Vanishing) {value : Int}
    (hrange : -2 ^ 127 < value ∧ value < 2 ^ 127) :
    text.evaluate = some value ↔
      (0 ≤ text.scale → text.digits.length + text.scale.toNat ≤ i128MaxDigits) ∧
        text.value = value := by
  unfold evaluate
  constructor
  · intro heq
    obtain ⟨shifted, hshifted, hmagnitude⟩ := Option.bind_eq_some_iff.mp heq
    obtain ⟨magnitude, hfound, hvalue⟩ := Option.map_eq_some_iff.mp hmagnitude
    obtain ⟨hlimit, hdigits, hexact⟩ := value_of_shiftDigits h.digits_digits hshifted
    obtain ⟨hsame, -⟩ := (magnitudeOf_eq hdigits).mp hfound
    refine ⟨hlimit, ?_⟩
    unfold DecimalText.value
    rw [hexact, ← hvalue, ← hsame]
    cases text.negative
    · rw [if_neg Bool.false_ne_true, if_neg Bool.false_ne_true]
      norm_cast
    · rw [if_pos rfl, if_pos rfl]
      push_cast
      rfl
  · rintro ⟨hlimit, hexact⟩
    have hmagnitude : valueOf text.digits text.scale = (value.natAbs : ℚ) ∧
        (if text.negative then -(value.natAbs : Int) else value.natAbs) = value := by
      have hnonneg : 0 ≤ valueOf text.digits text.scale := by
        unfold valueOf
        positivity
      unfold DecimalText.value at hexact
      cases hnegative : text.negative with
      | false =>
        rw [hnegative, if_neg Bool.false_ne_true] at hexact
        rw [hexact] at hnonneg
        have hvalue : (value.natAbs : Int) = value :=
          Int.natAbs_of_nonneg (by exact_mod_cast hnonneg)
        rw [if_neg Bool.false_ne_true]
        exact ⟨by rw [hexact, ← Int.cast_natCast, hvalue], hvalue⟩
      | true =>
        rw [hnegative, if_pos rfl] at hexact
        have hopposite : valueOf text.digits text.scale = ((-value : Int) : ℚ) := by
          push_cast
          rw [← hexact, neg_neg]
        rw [hopposite] at hnonneg
        have hsign : 0 ≤ -value := by exact_mod_cast hnonneg
        have hvalue : (value.natAbs : Int) = -value := by omega
        rw [if_pos rfl]
        exact ⟨by rw [hopposite, ← Int.cast_natCast, hvalue], by omega⟩
    obtain ⟨shifted, hshifted⟩ :=
      shiftDigits_isSome h.digits_digits hlimit hmagnitude.1 hvanish
    obtain ⟨-, hdigits, hmoved⟩ := value_of_shiftDigits h.digits_digits hshifted
    have hsame : Nat.ofDigitChars 10 shifted 0 = value.natAbs := by
      exact_mod_cast hmoved.symm.trans hmagnitude.1
    have hfound : magnitudeOf shifted = some (value.natAbs : Int) :=
      (magnitudeOf_eq hdigits).mpr ⟨by rw [hsame], by omega⟩
    rw [hshifted, Option.bind_some, hfound, Option.map_some, hmagnitude.2]

end DecimalText

/-! ### The parsers -/

inductive IntegerTarget where
  | i64 | u64 | u32

namespace IntegerTarget

def low : IntegerTarget → Int
  | i64 => -2 ^ 63
  | u64 | u32 => 0

def high : IntegerTarget → Int
  | i64 => 2 ^ 63 - 1
  | u64 => 2 ^ 64 - 1
  | u32 => 2 ^ 32 - 1

def parse : IntegerTarget → String → Option Int
  | i64 => parseTextI64
  | u64 => parseTextU64
  | u32 => parseTextU32

theorem parse_eq (target : IntegerTarget) (text : String) :
    target.parse text = parseWithin target.low target.high text := by
  cases target <;> rfl

theorem range (target : IntegerTarget) {value : Int} (h : target.low ≤ value ∧ value ≤ target.high) :
    -2 ^ 127 < value ∧ value < 2 ^ 127 := by
  cases target <;> unfold low high at h <;> dsimp only at h <;> omega

end IntegerTarget

/-- Digits with a sign before them, or without one. -/
structure SpellsInteger (text : String) (value : Int) : Prop where
  nonempty : (splitSign text.toList).2 ≠ []
  digits : ∀ c ∈ (splitSign text.toList).2, c.isDigit = true
  value : signed (splitSign text.toList).1 (Nat.ofDigitChars 10 (splitSign text.toList).2 0) = value

/-- A decimal text within the limits of the parser. -/
def SpellsDecimal (text : String) (value : Int) : Prop :=
  ∃ number : DecimalText, number.WellFormed ∧ number.Fits ∧ text.toList = number.chars ∧
    number.value = value

theorem parseI128_eq_ok {text : String} {value : Int} :
    parseI128 text = .ok value ↔
      SpellsInteger text value ∧ -2 ^ 127 ≤ value ∧ value ≤ 2 ^ 127 - 1 := by
  rw [parseI128, parseInteger_eq_ok (by decide) (by decide)]
  constructor
  · rintro ⟨-, hne, hdigits, hvalue, hbounds⟩
    exact ⟨⟨hne, hdigits, hvalue⟩, hbounds⟩
  · rintro ⟨hspells, hbounds⟩
    exact ⟨fun _ => by decide, hspells.nonempty, hspells.digits, hspells.value, hbounds⟩

namespace DecimalText

variable {text : DecimalText}

/-- The text behind its sign. -/
def tail (text : DecimalText) : List Char :=
  match text.exponent with
  | none => text.unsigned
  | some exponent => text.unsigned ++ exponent.marker :: exponent.number

theorem chars_eq : text.chars = minus text.negative ++ text.tail := by
  unfold chars tail mantissa
  cases text.exponent with
  | none => rfl
  | some exponent => exact List.append_assoc ..

theorem WellFormed.splitSign_chars (h : text.WellFormed) :
    splitSign text.chars = (text.negative, text.tail) := by
  obtain ⟨first, rest, hunsigned, hdigit⟩ := h.unsigned_head
  obtain ⟨more, hmore⟩ : ∃ more, text.tail = first :: more := by
    unfold tail
    rw [hunsigned]
    cases text.exponent with
    | none => exact ⟨rest, rfl⟩
    | some exponent => exact ⟨_, rfl⟩
  rw [chars_eq, hmore]
  cases text.negative with
  | true => rfl
  | false =>
    change splitSign (first :: more) = _
    unfold splitSign
    split
    · rename_i heq
      exact absurd (List.cons.inj heq).1 (isDigit_not hdigit rfl)
    · rename_i heq
      exact absurd (List.cons.inj heq).1 (isDigit_not hdigit rfl)
    · rfl

/-- Among digits there is neither an exponent nor a point. -/
theorem WellFormed.plain_of_digits (h : text.WellFormed)
    (hdigits : ∀ c ∈ text.tail, c.isDigit = true) :
    text.exponent = none ∧ text.fraction = none := by
  have hexponent : text.exponent = none := by
    cases hexponent : text.exponent with
    | none => rfl
    | some exponent =>
      have hdigit : exponent.marker.isDigit = true := by
        apply hdigits
        unfold tail
        rw [hexponent]
        exact List.mem_append_right _ List.mem_cons_self
      rcases (h.exponent exponent hexponent).marker with hmarker | hmarker
      · rw [hmarker] at hdigit
        cases hdigit
      · rw [hmarker] at hdigit
        cases hdigit
  refine ⟨hexponent, ?_⟩
  cases hfraction : text.fraction with
  | none => rfl
  | some fraction =>
    have hdigit : '.'.isDigit = true := by
      apply hdigits
      unfold tail unsigned
      rw [hexponent, hfraction]
      exact List.mem_append_right _ List.mem_cons_self
    cases hdigit

end DecimalText

/-- Plain digits with a minus sign or without spell the same number in either form. -/
theorem SpellsInteger.value_eq {text : String} {value : Int} (h : SpellsInteger text value)
    {number : DecimalText} (hnumber : number.WellFormed) (hchars : text.toList = number.chars) :
    number.value = value := by
  have hdigits := h.digits
  have hvalue := h.value
  rw [hchars, hnumber.splitSign_chars] at hdigits hvalue
  obtain ⟨hexponent, hfraction⟩ := hnumber.plain_of_digits hdigits
  have htail : number.tail = number.whole := by
    unfold DecimalText.tail DecimalText.unsigned
    rw [hexponent, hfraction]
  have hscale : number.scale = 0 := by
    unfold DecimalText.scale DecimalText.exponentValue
    rw [hexponent, hfraction]
    rfl
  have hwhole : number.digits = number.whole := by
    unfold DecimalText.digits
    rw [hfraction, Option.getD_none, List.append_nil]
  unfold DecimalText.value
  rw [hscale, hwhole, valueOf_zero, ← hvalue]
  dsimp only
  rw [htail]
  unfold signed
  cases number.negative
  · rw [if_neg Bool.false_ne_true, if_neg Bool.false_ne_true]
    norm_cast
  · rw [if_pos rfl, if_pos rfl]
    push_cast
    rfl

/-- The parsers answer with the exact value of a text, if it is an integer within the range of
the type: of digits with a sign or without, and of decimals within the limits on exponents and
digits. Zeros that lose more digits than they have are left open. -/
theorem parse_eq_some_iff (target : IntegerTarget) (text : String) (value : Int)
    (h : ∀ number : DecimalText, number.WellFormed → text.toList = number.chars →
      ¬ number.Vanishing) :
    target.parse text = some value ↔
      (target.low ≤ value ∧ value ≤ target.high) ∧
        (SpellsInteger text value ∨ SpellsDecimal text value) := by
  rw [target.parse_eq, parseWithin, Option.filter_eq_some_iff, decide_eq_true_iff, and_comm]
  refine and_congr_right fun hrange => ?_
  have hwide := target.range hrange
  unfold parseDecimal
  constructor
  · intro hparse
    cases hinteger : parseI128 text with
    | ok found =>
      rw [hinteger] at hparse
      obtain rfl := Option.some.inj hparse
      exact .inl (parseI128_eq_ok.mp hinteger).1
    | error kind =>
      rw [hinteger] at hparse
      obtain ⟨number, hformed, hchars⟩ := exists_of_parseFraction hparse
      rw [hchars, DecimalText.parseFraction_chars hformed,
        hformed.evaluate_iff (h number hformed hchars) hwide] at hparse
      obtain ⟨hbounded, hlimit, hvalue⟩ := hparse
      exact .inr ⟨number, hformed, ⟨hbounded.exponent, hbounded.fraction, hbounded.scale, hlimit⟩,
        hchars, hvalue⟩
  · rintro (hspells | ⟨number, hformed, hfits, hchars, hvalue⟩)
    · rw [parseI128_eq_ok.mpr ⟨hspells, by omega, by omega⟩]
    · cases hinteger : parseI128 text with
      | ok found =>
        have hsame := (parseI128_eq_ok.mp hinteger).1.value_eq hformed hchars
        rw [hvalue] at hsame
        have hcast : found = value := by exact_mod_cast hsame.symm
        rw [hcast]
      | error kind =>
        dsimp only
        rw [hchars, DecimalText.parseFraction_chars hformed,
          hformed.evaluate_iff (h number hformed hchars) hwide]
        exact ⟨⟨hfits.exponent, hfits.fraction, hfits.scale⟩, hfits.digits, hvalue⟩

/-! ### Texts outside the grammar, and beyond the limits -/

theorem not_vanishing_of_digits {text : String} {value : Int} (h : SpellsInteger text value) :
    ∀ number : DecimalText, number.WellFormed → text.toList = number.chars →
      ¬ number.Vanishing := by
  intro number hnumber hchars hvanish
  have hdigits := h.digits
  rw [hchars, hnumber.splitSign_chars] at hdigits
  obtain ⟨hexponent, hfraction⟩ := hnumber.plain_of_digits hdigits
  have hscale := hvanish.2
  unfold DecimalText.scale DecimalText.exponentValue at hscale
  rw [hexponent, hfraction] at hscale
  simp at hscale
  omega

theorem spells_seventeen : SpellsInteger "-17" (-17) where
  nonempty := by decide
  digits := fun c hc => by
    have hall : (splitSign "-17".toList).2.all Char.isDigit = true := by decide
    exact List.all_eq_true.mp hall c hc
  value := by decide

theorem parse_eq_some_iff_seventeen :
    IntegerTarget.i64.parse "-17" = some (-17) ↔
      (IntegerTarget.i64.low ≤ -17 ∧ -17 ≤ IntegerTarget.i64.high) ∧
        (SpellsInteger "-17" (-17) ∨ SpellsDecimal "-17" (-17)) :=
  parse_eq_some_iff .i64 "-17" (-17) (not_vanishing_of_digits spells_seventeen)

/-- Forty digits are more than the parser takes. -/
def distantZero : DecimalText where
  negative := false
  whole := ['0']
  fraction := none
  exponent := some ⟨'e', none, ['4', '0']⟩

theorem distantZero_json : distantZero.Json where
  wellFormed := {
    nonempty := by decide
    whole := fun c hc => by rw [List.mem_singleton.mp hc]; rfl
    fraction := fun _ hnone => (by cases hnone)
    exponent := fun exponent hexponent => by
      obtain rfl := Option.some.inj hexponent
      exact {
        marker := .inl rfl
        sign := fun _ hnone => (by cases hnone)
        nonempty := by decide
        digits := fun c hc => by
          have hall : ['4', '0'].all Char.isDigit = true := by decide
          exact List.all_eq_true.mp hall c hc } }
  whole := .inl rfl

theorem distantZero_value : distantZero.value = 0 := by
  have hdigits : Nat.ofDigitChars 10 ['0'] 0 = 0 := by decide
  change valueOf ['0'] 40 = 0
  unfold valueOf
  rw [hdigits, Nat.cast_zero, zero_mul]

/-- A number with a plus sign is no number of the JSON grammar. -/
theorem plus_foreign (number : DecimalText) (h : number.Json) : "+5".toList ≠ number.chars := by
  intro hchars
  have hsplit := h.wellFormed.splitSign_chars
  have hsign := number.chars_eq
  rw [← hchars] at hsplit hsign
  obtain ⟨hnegative, htail⟩ := Prod.mk.inj hsplit
  rw [← hnegative, ← htail] at hsign
  exact absurd hsign (by decide)

/-- The numbers of the JSON grammar are not exactly what is taken: a number with a plus sign
is, and a zero of more digits than the parser writes out is not. -/
theorem json_numbers_differ :
    (¬ ∀ (target : IntegerTarget) (text : String) (value : Int),
      target.parse text = some value →
        ∃ number : DecimalText, number.Json ∧ text.toList = number.chars ∧
          number.value = value) ∧
    (¬ ∀ (target : IntegerTarget) (text : String) (value : Int),
      ((target.low ≤ value ∧ value ≤ target.high) ∧
        ∃ number : DecimalText, number.Json ∧ text.toList = number.chars ∧
          number.value = value) → target.parse text = some value) := by
  constructor
  · intro h
    have hplus : IntegerTarget.i64.parse "+5" = some 5 := by decide +kernel
    obtain ⟨number, hjson, hchars, -⟩ := h .i64 "+5" 5 hplus
    exact plus_foreign number hjson hchars
  · intro h
    have hzero : IntegerTarget.i64.parse "0e40" = some 0 :=
      h .i64 "0e40" 0 ⟨by decide, distantZero, distantZero_json, rfl, distantZero_value⟩
    have hnone : IntegerTarget.i64.parse "0e40" = none := by decide +kernel
    rw [hnone] at hzero
    cases hzero

end SpecGate.DecimalIntegers

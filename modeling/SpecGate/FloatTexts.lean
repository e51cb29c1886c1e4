import SpecGate.JsonTexts

/-!
How the writer of sidecars lays out a floating-point number. The digits come from the
platform's shortest text that reads back; the notation is chosen here. Whatever notation is
chosen, the text denotes the number that the platform's text denotes, and is no integer.
-/
namespace SpecGate.FloatTexts

open JsonTexts IntegerText
open Values (FiniteF64)

/-! ### The writer -/

def isNegative (value : FiniteF64) : Bool := decide (2 ^ 63 ≤ value.bits)

def isZero (value : FiniteF64) : Bool := decide (value.bits % 2 ^ 63 = 0)

/-- The number without its sign. -/
def absolute (value : FiniteF64) : FiniteF64 where
  bits := value.bits % 2 ^ 63
  lt := by omega
  finite := by
    have hfinite := value.finite
    omega

def trimStart (digits : List Char) : List Char := digits.dropWhile (· == '0')

def trimEnd (digits : List Char) : List Char := digits.rdropWhile (· == '0')

/-- The digits of a number read as an integer times a power of ten, in the notation that
the decimal point asks for. -/
def layout (digits : List Char) (scale : Int) : List Char :=
  let digits := trimStart digits
  let significant := trimEnd digits
  let scale := scale + (digits.length - significant.length : Nat)
  let length := significant.length
  let point := length + scale
  if 0 ≤ scale ∧ point ≤ 16 then significant ++ List.replicate scale.toNat '0' ++ ['.', '0']
  else if 0 < point ∧ point ≤ 16 then
    significant.take point.toNat ++ '.' :: significant.drop point.toNat
  else if -5 < point ∧ point ≤ 0 then
    '0' :: '.' :: (List.replicate (-point).toNat '0' ++ significant)
  else
    let scientificExponent := point - 1
    let sign := if scientificExponent < 0 then '-' else '+'
    let scientific := Nat.toDigits 10 scientificExponent.natAbs
    if length = 1 then significant ++ 'e' :: sign :: scientific
    else significant.take 1 ++ '.' :: (significant.drop 1 ++ 'e' :: sign :: scientific)

/-- The text of a positive number, from the platform's text of it. -/
def formatPositive (text : List Char) : Option (List Char) := do
  let mantissa := text.takeWhile (· != 'E')
  let exponent ← match text.dropWhile (· != 'E') with
    | [] => some 0
    | _ :: rest => (parseInteger (-2 ^ 31) (2 ^ 31 - 1) (String.ofList rest)).toOption
  let integerLength := (mantissa.takeWhile (· != '.')).length
  let digits := mantissa.filter (· != '.')
  return layout digits (exponent + integerLength - digits.length)

def formatFloat (shortest : FiniteF64 → String) (value : FiniteF64) : Option (List Char) :=
  if isZero value then some (minus (isNegative value) ++ ['0', '.', '0'])
  else (formatPositive (shortest (absolute value)).toList).map (minus (isNegative value) ++ ·)

/-! ### The platform's text -/

/-- Digits, a fraction and an exponent, as the platform writes a positive number. -/
structure RoundTripText where
  whole : List Char
  fraction : List Char
  exponent : Option (Bool × List Char)
  whole_digits : ∀ c ∈ whole, c.isDigit = true
  fraction_digits : ∀ c ∈ fraction, c.isDigit = true
  exponent_digits : ∀ part ∈ exponent, part.2 ≠ [] ∧ (∀ c ∈ part.2, c.isDigit = true) ∧
    Nat.ofDigitChars 10 part.2 0 < 2 ^ 31
  positive : 0 < Nat.ofDigitChars 10 (whole ++ fraction) 0

namespace RoundTripText

def suffix : Option (Bool × List Char) → List Char
  | none => []
  | some (negative, digits) => 'E' :: (if negative then '-' else '+') :: digits

def chars (text : RoundTripText) : List Char :=
  (text.whole ++ fractionText text.fraction) ++ suffix text.exponent

def scale (text : RoundTripText) : Int :=
  match text.exponent with
  | none => 0
  | some (negative, digits) => signed negative (Nat.ofDigitChars 10 digits 0)

def value (text : RoundTripText) : ℚ :=
  valueOf (text.whole ++ text.fraction) (text.scale - text.fraction.length)

end RoundTripText

/-! ### Zeros around the digits -/

theorem valueOf_append_zeros (digits : List Char) (count : Nat) (scale : Int) :
    valueOf (digits ++ List.replicate count '0') scale = valueOf digits (scale + count) := by
  unfold valueOf
  rw [Nat.ofDigitChars_append, Nat.ofDigitChars_replicate_zero, zpow_add₀ (by norm_num),
    zpow_natCast]
  push_cast
  ring

theorem ofDigitChars_zeros (count : Nat) (digits : List Char) :
    Nat.ofDigitChars 10 (List.replicate count '0' ++ digits) 0 = Nat.ofDigitChars 10 digits 0 := by
  rw [Nat.ofDigitChars_append, Nat.ofDigitChars_replicate_zero, Nat.mul_zero]

theorem takeWhile_zero (digits : List Char) :
    digits.takeWhile (· == '0') = List.replicate (digits.takeWhile (· == '0')).length '0' := by
  rw [List.eq_replicate_iff]
  refine ⟨rfl, fun c hc => ?_⟩
  exact eq_of_beq (List.mem_takeWhile_imp (p := (· == '0')) hc)

theorem ofDigitChars_trimStart (digits : List Char) :
    Nat.ofDigitChars 10 (trimStart digits) 0 = Nat.ofDigitChars 10 digits 0 := by
  conv_rhs => rw [← List.takeWhile_append_dropWhile (p := (· == '0')) (l := digits)]
  rw [takeWhile_zero, ofDigitChars_zeros]
  rfl

/-- What `trimEnd` takes away are zeros. -/
theorem trimEnd_append (digits : List Char) :
    trimEnd digits ++ List.replicate (digits.length - (trimEnd digits).length) '0' = digits := by
  have hsplit := List.rdropWhile_append_rtakeWhile (p := (· == '0')) (l := digits)
  have hzeros : digits.rtakeWhile (· == '0') =
      List.replicate (digits.rtakeWhile (· == '0')).length '0' := by
    rw [List.eq_replicate_iff]
    refine ⟨rfl, fun c hc => ?_⟩
    exact eq_of_beq (List.mem_rtakeWhile_imp (p := (· == '0')) hc)
  have hlength := congrArg List.length hsplit
  rw [List.length_append] at hlength
  have hcount : digits.length - (trimEnd digits).length = (digits.rtakeWhile (· == '0')).length := by
    unfold trimEnd
    omega
  rw [hcount, ← hzeros]
  exact hsplit

theorem valueOf_trimmed (digits : List Char) (scale : Int) :
    valueOf (trimEnd (trimStart digits))
      (scale + ((trimStart digits).length - (trimEnd (trimStart digits)).length : Nat)) =
      valueOf digits scale := by
  rw [← valueOf_append_zeros, trimEnd_append]
  unfold valueOf
  rw [ofDigitChars_trimStart]

/-- What is left between the zeros. -/
structure Significant (digits : List Char) : Prop where
  all_digits : ∀ c ∈ digits, c.isDigit = true
  nonempty : digits ≠ []
  head : digits.head? ≠ some '0'

theorem significant_trimmed {digits : List Char} (hdigits : ∀ c ∈ digits, c.isDigit = true)
    (hpositive : 0 < Nat.ofDigitChars 10 digits 0) : Significant (trimEnd (trimStart digits)) := by
  have hstart : 0 < Nat.ofDigitChars 10 (trimStart digits) 0 := by
    rw [ofDigitChars_trimStart]
    exact hpositive
  have hnonempty : trimEnd (trimStart digits) ≠ [] := by
    intro hnil
    have hsplit := trimEnd_append (trimStart digits)
    rw [hnil, List.nil_append] at hsplit
    rw [← hsplit, Nat.ofDigitChars_replicate_zero, Nat.mul_zero] at hstart
    exact absurd hstart (Nat.lt_irrefl 0)
  refine { all_digits := ?_, nonempty := hnonempty, head := ?_ }
  · intro c hc
    have hprefix : c ∈ trimStart digits := (List.rdropWhile_prefix _ _).subset hc
    exact hdigits c ((List.dropWhile_suffix _).subset hprefix)
  · intro hzero
    obtain ⟨rest, hrest⟩ := List.rdropWhile_prefix (· == '0') (trimStart digits)
    obtain ⟨c, tail, hcons⟩ := List.exists_cons_of_ne_nil hnonempty
    rw [hcons] at hzero
    obtain rfl := Option.some.inj hzero
    have hhead : digits.dropWhile (· == '0') = '0' :: (tail ++ rest) := by
      change trimStart digits = _
      rw [← hrest]
      change trimEnd (trimStart digits) ++ rest = _
      rw [hcons, List.cons_append]
    have hne : digits.dropWhile (· == '0') ≠ [] := hhead ▸ List.cons_ne_nil _ _
    have hfails := List.head_dropWhile_not (· == '0') hne
    simp only [hhead, List.head_cons] at hfails
    cases hfails

/-! ### The four notations -/

/-- The body is the text of a positive number that is no integer, of this value. -/
def Denotes (body : List Char) (value : ℚ) : Prop :=
  ∃ numeral : Numeral, numeral.negative = false ∧ numeral.text = body ∧ numeral.value = value ∧
    (numeral.fraction.isEmpty && numeral.exponent.isNone) = false

section Notations

variable {significant : List Char}

theorem badWhole_append (h : Significant significant) (rest : List Char) :
    badWhole (significant ++ rest) = false := by
  obtain ⟨c, tail, rfl⟩ := List.exists_cons_of_ne_nil h.nonempty
  have hhead : (some c == some '0') = false := beq_eq_false_iff_ne.mpr h.head
  unfold badWhole
  rw [List.cons_append, List.isEmpty_cons, List.head?_cons, hhead]
  rfl

theorem digits_replicate (count : Nat) : ∀ c ∈ List.replicate count '0', c.isDigit = true := by
  intro c hc
  rw [List.eq_of_mem_replicate hc]
  rfl

theorem digits_append {first second : List Char} (hfirst : ∀ c ∈ first, c.isDigit = true)
    (hsecond : ∀ c ∈ second, c.isDigit = true) : ∀ c ∈ first ++ second, c.isDigit = true := by
  intro c hc
  rcases List.mem_append.mp hc with h | h
  · exact hfirst c h
  · exact hsecond c h

/-- Digits, zeros and an empty fraction. -/
theorem denotes_integral (h : Significant significant) {scale : Int} (hscale : 0 ≤ scale) :
    Denotes (significant ++ List.replicate scale.toNat '0' ++ ['.', '0'])
      (valueOf significant scale) := by
  have hvalue := valueOf_append_zeros significant (scale.toNat + 1) (-1)
  refine ⟨{
      negative := false
      whole := significant ++ List.replicate scale.toNat '0'
      fraction := ['0']
      exponent := none
      whole_digits := digits_append h.all_digits (digits_replicate _)
      whole_good := badWhole_append h _
      fraction_digits := digits_replicate 1
      exponent_digits := fun _ hpart => by cases hpart }, rfl, rfl, ?_, rfl⟩
  have hlist : significant ++ List.replicate scale.toNat '0' ++ ['0'] =
      significant ++ List.replicate (scale.toNat + 1) '0' := by
    rw [List.append_assoc, List.replicate_succ']
  have hscale' : (-1 : Int) + (scale.toNat + 1 : Nat) = scale := by omega
  rw [hscale'] at hvalue
  unfold Numeral.value
  exact (congrArg (valueOf · _) hlist).trans hvalue

/-- The point among the digits. -/
theorem denotes_fractional (h : Significant significant) {point : Int} (hpoint : 0 < point)
    (hlength : point < significant.length) :
    Denotes (significant.take point.toNat ++ '.' :: significant.drop point.toNat)
      (valueOf significant (point - significant.length)) := by
  have htake : ∀ c ∈ significant.take point.toNat, c.isDigit = true :=
    fun c hc => h.all_digits c (List.take_subset _ _ hc)
  have hdrop : ∀ c ∈ significant.drop point.toNat, c.isDigit = true :=
    fun c hc => h.all_digits c (List.drop_subset _ _ hc)
  have hfraction : (significant.drop point.toNat).isEmpty = false := by
    rw [List.isEmpty_eq_false_iff, ne_eq, List.drop_eq_nil_iff]
    omega
  have hwhole : badWhole (significant.take point.toNat) = false := by
    obtain ⟨c, tail, rfl⟩ := List.exists_cons_of_ne_nil h.nonempty
    obtain ⟨n, hn⟩ : ∃ n, point.toNat = n + 1 := ⟨point.toNat - 1, by omega⟩
    have hhead : (some c == some '0') = false := beq_eq_false_iff_ne.mpr h.head
    unfold badWhole
    rw [hn, List.take_succ_cons, List.isEmpty_cons, List.head?_cons, hhead]
    rfl
  refine ⟨{
      negative := false
      whole := significant.take point.toNat
      fraction := significant.drop point.toNat
      exponent := none
      whole_digits := htake
      whole_good := hwhole
      fraction_digits := hdrop
      exponent_digits := fun _ hpart => by cases hpart }, rfl, ?_, ?_, ?_⟩
  · unfold Numeral.text fractionText
    dsimp only [minus, exponentText]
    rw [hfraction, if_neg Bool.false_ne_true, if_neg Bool.false_ne_true, List.nil_append,
      List.append_nil]
  · have hscale : (0 : Int) - (significant.drop point.toNat).length =
        point - significant.length := by
      rw [List.length_drop]
      omega
    unfold Numeral.value Numeral.scale
    dsimp only
    rw [List.take_append_drop, hscale]
  · dsimp only
    rw [hfraction, Bool.false_and]

/-- Zeros behind the point. -/
theorem denotes_small (h : Significant significant) {point : Int} (hpoint : point ≤ 0) :
    Denotes ('0' :: '.' :: (List.replicate (-point).toNat '0' ++ significant))
      (valueOf significant (point - significant.length)) := by
  have hfraction : (List.replicate (-point).toNat '0' ++ significant).isEmpty = false := by
    rw [List.isEmpty_eq_false_iff]
    exact List.append_ne_nil_of_right_ne_nil _ h.nonempty
  refine ⟨{
      negative := false
      whole := ['0']
      fraction := List.replicate (-point).toNat '0' ++ significant
      exponent := none
      whole_digits := digits_replicate 1
      whole_good := rfl
      fraction_digits := digits_append (digits_replicate _) h.all_digits
      exponent_digits := fun _ hpart => by cases hpart }, rfl, ?_, ?_, ?_⟩
  · unfold Numeral.text fractionText
    dsimp only [minus, exponentText]
    rw [hfraction, if_neg Bool.false_ne_true, if_neg Bool.false_ne_true, List.nil_append,
      List.append_nil]
    rfl
  · have hscale : (0 : Int) - (List.replicate (-point).toNat '0' ++ significant).length =
        point - significant.length := by
      rw [List.length_append, List.length_replicate]
      omega
    have hzeros := ofDigitChars_zeros ((-point).toNat + 1) significant
    unfold Numeral.value Numeral.scale valueOf
    dsimp only
    rw [hscale, ← List.append_assoc, List.singleton_append, ← List.replicate_succ, hzeros]
  · dsimp only
    rw [hfraction, Bool.false_and]

/-- One digit before the point, and an exponent. -/
theorem denotes_scientific (h : Significant significant) (point : Int) :
    Denotes
      (if significant.length = 1 then
        significant ++ 'e' :: (if point - 1 < 0 then '-' else '+') ::
          Nat.toDigits 10 (point - 1).natAbs
      else significant.take 1 ++ '.' :: (significant.drop 1 ++
        'e' :: (if point - 1 < 0 then '-' else '+') :: Nat.toDigits 10 (point - 1).natAbs))
      (valueOf significant (point - significant.length)) := by
  obtain ⟨c, tail, rfl⟩ := List.exists_cons_of_ne_nil h.nonempty
  have hhead : (some c == some '0') = false := beq_eq_false_iff_ne.mpr h.head
  have hsigned : signed (decide (point - 1 < 0)) (point - 1).natAbs = point - 1 := by
    unfold signed
    by_cases hneg : point - 1 < 0
    · rw [decide_eq_true hneg, if_pos rfl]
      omega
    · rw [decide_eq_false hneg, if_neg Bool.false_ne_true]
      omega
  have hsign : (if decide (point - 1 < 0) = true then '-' else '+') =
      if point - 1 < 0 then '-' else '+' := if_congr decide_eq_true_iff rfl rfl
  refine ⟨{
      negative := false
      whole := [c]
      fraction := tail
      exponent := some (decide (point - 1 < 0), Nat.toDigits 10 (point - 1).natAbs)
      whole_digits := fun other hother => h.all_digits other (by
        rw [List.mem_singleton.mp hother]
        exact List.mem_cons_self)
      whole_good := by
        unfold badWhole
        rw [List.isEmpty_cons, List.head?_cons, hhead]
        rfl
      fraction_digits := fun other hother => h.all_digits other (List.mem_cons_of_mem _ hother)
      exponent_digits := fun part hpart => by
        cases hpart
        exact ⟨Nat.toDigits_ne_nil, toDigits_digits _⟩ }, rfl, ?_, ?_, ?_⟩
  · unfold Numeral.text fractionText
    dsimp only [minus, exponentText]
    rw [hsign]
    cases tail with
    | nil => rfl
    | cons second others => rfl
  · have hscale : (point - 1 : Int) - tail.length = point - (c :: tail).length := by
      rw [List.length_cons]
      omega
    unfold Numeral.value Numeral.scale
    dsimp only
    rw [Nat.ofDigitChars_ten_toDigits, hsigned, hscale, List.singleton_append]
  · dsimp only
    rw [Option.isNone_some, Bool.and_false]

end Notations

/-- Zero is written with one digit before the point and one behind it. -/
theorem denotes_zero : Denotes ['0', '.', '0'] 0 := by
  refine ⟨{
      negative := false
      whole := ['0']
      fraction := ['0']
      exponent := none
      whole_digits := digits_replicate 1
      whole_good := rfl
      fraction_digits := digits_replicate 1
      exponent_digits := fun _ hpart => by cases hpart }, rfl, rfl, ?_, rfl⟩
  have hdigits : Nat.ofDigitChars 10 ['0', '0'] 0 = 0 := rfl
  unfold JsonTexts.Numeral.value valueOf
  rw [List.singleton_append, hdigits, Nat.cast_zero, zero_mul]

/-- Whatever notation is chosen, the number is the one of the digits and the scale. -/
theorem denotes_layout {digits : List Char} (hdigits : ∀ c ∈ digits, c.isDigit = true)
    (hpositive : 0 < Nat.ofDigitChars 10 digits 0) (scale : Int) :
    Denotes (layout digits scale) (valueOf digits scale) := by
  have hsignificant := significant_trimmed hdigits hpositive
  rw [← valueOf_trimmed]
  unfold layout
  dsimp only
  generalize trimEnd (trimStart digits) = significant at hsignificant ⊢
  generalize scale + ((trimStart digits).length - significant.length : Nat) = scale
  have hscale : (significant.length : Int) + scale - significant.length = scale := by omega
  by_cases hintegral : 0 ≤ scale ∧ (significant.length : Int) + scale ≤ 16
  · rw [if_pos hintegral]
    exact denotes_integral hsignificant hintegral.1
  rw [if_neg hintegral]
  by_cases hfractional : 0 < (significant.length : Int) + scale ∧
      (significant.length : Int) + scale ≤ 16
  · rw [if_pos hfractional]
    have hdenotes := denotes_fractional hsignificant hfractional.1 (by omega)
    rwa [hscale] at hdenotes
  rw [if_neg hfractional]
  by_cases hsmall : -5 < (significant.length : Int) + scale ∧
      (significant.length : Int) + scale ≤ 0
  · rw [if_pos hsmall]
    have hdenotes := denotes_small hsignificant hsmall.2
    rwa [hscale] at hdenotes
  · rw [if_neg hsmall]
    have hdenotes := denotes_scientific hsignificant (significant.length + scale)
    rwa [hscale] at hdenotes

/-! ### Reading the platform's text -/

namespace RoundTripText

variable (text : RoundTripText)

theorem mantissa_chars : ∀ c ∈ text.whole ++ fractionText text.fraction,
    (c != 'E') = true := by
  have hdigit : ∀ {c : Char}, c.isDigit = true → (c != 'E') = true := by
    intro c hc
    rw [bne_iff_ne]
    rintro rfl
    cases hc
  intro c hc
  rcases List.mem_append.mp hc with hwhole | hfraction
  · exact hdigit (text.whole_digits c hwhole)
  · unfold fractionText at hfraction
    by_cases hempty : text.fraction.isEmpty = true
    · rw [if_pos hempty] at hfraction
      cases hfraction
    · rw [if_neg hempty, List.mem_cons] at hfraction
      rcases hfraction with rfl | hmem
      · rfl
      · exact hdigit (text.fraction_digits c hmem)

theorem suffix_head : ∀ c ∈ (suffix text.exponent).head?, (c != 'E') = false := by
  intro c hc
  cases hexponent : text.exponent with
  | none =>
    rw [hexponent] at hc
    cases hc
  | some part =>
    rw [hexponent] at hc
    cases hc
    rfl

theorem span_chars : text.chars.span (· != 'E') =
    (text.whole ++ fractionText text.fraction, suffix text.exponent) :=
  span_append text.mantissa_chars text.suffix_head

theorem digit_ne_point {c : Char} (h : c.isDigit = true) : (c != '.') = true := by
  rw [bne_iff_ne]
  rintro rfl
  cases h

theorem integer_part : (text.whole ++ fractionText text.fraction).takeWhile (· != '.') =
    text.whole := by
  have hspan := @span_append (· != '.') text.whole (fractionText text.fraction)
    (fun c hc => digit_ne_point (text.whole_digits c hc)) fun c hc => by
      unfold fractionText at hc
      by_cases hempty : text.fraction.isEmpty = true
      · rw [if_pos hempty] at hc
        cases hc
      · rw [if_neg hempty] at hc
        cases hc
        rfl
  rw [List.span_eq_takeWhile_dropWhile] at hspan
  exact congrArg Prod.fst hspan

theorem filter_mantissa : (text.whole ++ fractionText text.fraction).filter (· != '.') =
    text.whole ++ text.fraction := by
  have hwhole : text.whole.filter (· != '.') = text.whole :=
    List.filter_eq_self.mpr fun c hc => digit_ne_point (text.whole_digits c hc)
  have hfraction : text.fraction.filter (· != '.') = text.fraction :=
    List.filter_eq_self.mpr fun c hc => digit_ne_point (text.fraction_digits c hc)
  rw [List.filter_append, hwhole]
  unfold fractionText
  by_cases hempty : text.fraction.isEmpty = true
  · rw [if_pos hempty, List.isEmpty_iff.mp hempty]
    rfl
  · rw [if_neg hempty, List.filter_cons_of_neg (by decide), hfraction]

/-- The exponent is read with its sign. -/
theorem parse_exponent {negative : Bool} {digits : List Char}
    (h : text.exponent = some (negative, digits)) :
    parseInteger (-2 ^ 31) (2 ^ 31 - 1)
      (String.ofList ((if negative then '-' else '+') :: digits)) =
      .ok (signed negative (Nat.ofDigitChars 10 digits 0)) := by
  obtain ⟨hne, hdigits, hbound⟩ := text.exponent_digits _ h
  have hsplit : splitSign ((if negative then '-' else '+') :: digits) = (negative, digits) := by
    cases negative <;> rfl
  rw [parseInteger_eq_ok (by decide) (by decide), String.toList_ofList, hsplit]
  refine ⟨fun _ => by decide, hne, hdigits, rfl, ?_⟩
  dsimp only at hbound
  unfold signed
  cases negative <;> simp only [if_true, if_false, Bool.false_eq_true] <;> omega

/-- The digits of the text and the power of ten that they are multiplied with are laid out. -/
theorem formatPositive_chars : formatPositive text.chars =
    some (layout (text.whole ++ text.fraction) (text.scale - text.fraction.length)) := by
  have hspan := text.span_chars
  rw [List.span_eq_takeWhile_dropWhile] at hspan
  have hmantissa := congrArg Prod.fst hspan
  have hsuffix := congrArg Prod.snd hspan
  dsimp only at hmantissa hsuffix
  have hscale : ∀ exponent : Int,
      exponent + text.whole.length - (text.whole ++ text.fraction).length =
        exponent - text.fraction.length := by
    intro exponent
    rw [List.length_append]
    omega
  unfold formatPositive
  rw [hmantissa, hsuffix]
  dsimp only
  rw [text.integer_part, text.filter_mantissa]
  unfold scale
  cases hexponent : text.exponent with
  | none =>
    dsimp only [suffix, Option.bind_eq_bind, Option.bind_some]
    rw [hscale]
    rfl
  | some part =>
    obtain ⟨negative, digits⟩ := part
    dsimp only [suffix]
    rw [text.parse_exponent hexponent]
    dsimp only [Except.toOption, Option.bind_eq_bind, Option.bind_some]
    rw [hscale]
    rfl

theorem denotes_formatPositive : ∃ body, formatPositive text.chars = some body ∧
    Denotes body text.value :=
  ⟨_, text.formatPositive_chars, denotes_layout (digits_append text.whole_digits
    text.fraction_digits) text.positive (text.scale - text.fraction.length)⟩

end RoundTripText

/-! ### The text that is written -/

/-- What the writer relies on for one number: the platform's text of its absolute value is
well formed, and the reader rounds the number it denotes to the number itself. -/
structure RoundTrips (shortest : FiniteF64 → String) (nearest : Bool → ℚ → Option FiniteF64)
    (value : FiniteF64) : Prop where
  zero : isZero value = true → nearest (isNegative value) 0 = some value
  nonzero : isZero value = false → ∃ text : RoundTripText,
    (shortest (absolute value)).toList = text.chars ∧
      nearest (isNegative value) text.value = some value

/-- The numeral with its sign. -/
def Numeral.withSign (numeral : Numeral) (negative : Bool) : Numeral :=
  { numeral with negative := negative }

theorem Numeral.text_withSign {numeral : Numeral} (h : numeral.negative = false)
    (negative : Bool) :
    (Numeral.withSign numeral negative).text = minus negative ++ numeral.text := by
  unfold JsonTexts.Numeral.text Numeral.withSign
  rw [h]
  rfl

/-- A number is written as a text from which it is read. -/
theorem textOf_formatFloat {shortest : FiniteF64 → String}
    {nearest : Bool → ℚ → Option FiniteF64} {value : FiniteF64}
    (h : RoundTrips shortest nearest value) :
    ∃ text, formatFloat shortest value = some text ∧
      TextOf nearest (.number (.float value)) text := by
  have hdenoted : ∀ {body : List Char} {magnitude : ℚ}, Denotes body magnitude →
      nearest (isNegative value) magnitude = some value →
        TextOf nearest (.number (.float value)) (minus (isNegative value) ++ body) := by
    intro body magnitude hdenotes hnearest
    obtain ⟨numeral, hpositive, rfl, rfl, hfloat⟩ := hdenotes
    have hread := @JsonTexts.Numeral.readNumber_text nearest
      (Numeral.withSign numeral (isNegative value))
    have hfloat' : ((Numeral.withSign numeral (isNegative value)).fraction.isEmpty &&
        (Numeral.withSign numeral (isNegative value)).exponent.isNone) = false := hfloat
    have hnearest' : nearest (Numeral.withSign numeral (isNegative value)).negative
        (Numeral.withSign numeral (isNegative value)).value = some value := hnearest
    rw [hfloat', if_neg Bool.false_ne_true, hnearest'] at hread
    rw [← Numeral.text_withSign hpositive]
    exact ⟨JsonTexts.Numeral.chars _, hread⟩
  unfold formatFloat
  cases hzero : isZero value with
  | true => exact ⟨_, if_pos rfl, hdenoted denotes_zero (h.zero hzero)⟩
  | false =>
    obtain ⟨text, htext, hnearest⟩ := h.nonzero hzero
    obtain ⟨body, hbody, hdenotes⟩ := text.denotes_formatPositive
    refine ⟨_, ?_, hdenoted hdenotes hnearest⟩
    rw [if_neg Bool.false_ne_true, htext, hbody, Option.map_some]

end SpecGate.FloatTexts

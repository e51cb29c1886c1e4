import SpecGate.DecimalIntegers

/-!
The notation of floating-point numbers. The writer keeps the number that the platform's text
denotes to the last digit, and takes an exponent only where the decimal point would stand too
far from the digits. Where it stands is a matter of the number alone.
-/
namespace SpecGate.FloatNotation

open DecimalIntegers FloatTexts IntegerText JsonTexts
open Values (FiniteF64)

/-! ### Where the decimal point stands -/

/-- The number of digits before the decimal point; zeros right behind it count down. -/
def pointOf (magnitude : ℚ) : Int := Int.log 10 magnitude + 1

theorem le_ofDigitChars_head {c : Char} {rest : List Char} (hdigit : c.isDigit = true)
    (hzero : c ≠ '0') : 10 ^ rest.length ≤ Nat.ofDigitChars 10 (c :: rest) 0 := by
  have hcode : '0'.toNat = 48 := rfl
  have hbounds := Decimal.digit_bounds hdigit
  have hne : c.toNat ≠ 48 := fun h => hzero (Char.toNat_inj.mp (h.trans hcode.symm))
  have hfirst : 1 ≤ 10 * 0 + (c.toNat - '0'.toNat) := by omega
  rw [Nat.ofDigitChars_cons, Nat.ofDigitChars_eq_ofDigitChars_zero]
  calc 10 ^ rest.length = 10 ^ rest.length * 1 := (Nat.mul_one _).symm
    _ ≤ 10 ^ rest.length * (10 * 0 + (c.toNat - '0'.toNat)) := Nat.mul_le_mul_left _ hfirst
    _ ≤ _ := Nat.le_add_right _ _

/-- Between the powers of ten around them the digits fix the place of the point. -/
theorem pointOf_valueOf {significant : List Char} (h : Significant significant) (scale : Int) :
    pointOf (valueOf significant scale) = significant.length + scale := by
  obtain ⟨c, rest, rfl⟩ := List.exists_cons_of_ne_nil h.nonempty
  have hlow := @le_ofDigitChars_head c rest (h.all_digits c List.mem_cons_self)
    fun hc => h.head (congrArg some hc)
  have hhigh := ofDigitChars_lt h.all_digits
  have hlow' : (10 : ℚ) ^ rest.length ≤ Nat.ofDigitChars 10 (c :: rest) 0 := by exact_mod_cast hlow
  have hhigh' : (Nat.ofDigitChars 10 (c :: rest) 0 : ℚ) < 10 ^ (rest.length + 1) := by
    exact_mod_cast hhigh
  have hscale : (0 : ℚ) < 10 ^ scale := by positivity
  have hpositive : 0 < valueOf (c :: rest) scale := by
    have hdigits : (0 : ℚ) < Nat.ofDigitChars 10 (c :: rest) 0 :=
      lt_of_lt_of_le (by positivity) hlow'
    exact mul_pos hdigits hscale
  have hbelow : ((10 : ℕ) : ℚ) ^ (rest.length + scale) ≤ valueOf (c :: rest) scale := by
    rw [Nat.cast_ofNat, zpow_add₀ (by norm_num), zpow_natCast]
    exact mul_le_mul_of_nonneg_right hlow' hscale.le
  have habove : valueOf (c :: rest) scale < ((10 : ℕ) : ℚ) ^ (rest.length + 1 + scale) := by
    have hsucc : ((rest.length : Int) + 1) = ((rest.length + 1 : Nat) : Int) := by push_cast; ring
    rw [Nat.cast_ofNat, hsucc, zpow_add₀ (by norm_num), zpow_natCast]
    exact mul_lt_mul_of_pos_right hhigh' hscale
  have hle := (Int.zpow_le_iff_le_log (by norm_num) hpositive).mp hbelow
  have hlt := (Int.lt_zpow_iff_log_lt (by norm_num) hpositive).mp habove
  unfold pointOf
  rw [List.length_cons]
  push_cast
  omega

/-! ### Positional notation -/

theorem digit_ne_e {c : Char} (h : c.isDigit = true) : c ≠ 'e' := by
  rintro rfl
  cases h

theorem e_not_mem_digits {digits : List Char} (h : ∀ c ∈ digits, c.isDigit = true) :
    'e' ∉ digits := fun hmem => digit_ne_e (h 'e' hmem) rfl

/-- A number has an exponent exactly when its text has the sign of one. -/
theorem exponent_eq_none_iff (numeral : Numeral) :
    numeral.exponent = none ↔ 'e' ∉ numeral.text := by
  have hwhole := e_not_mem_digits numeral.whole_digits
  have hfraction : 'e' ∉ fractionText numeral.fraction := by
    unfold fractionText
    by_cases hempty : numeral.fraction.isEmpty = true
    · rw [if_pos hempty]
      exact List.not_mem_nil
    · rw [if_neg hempty, List.mem_cons, not_or]
      exact ⟨by decide, e_not_mem_digits numeral.fraction_digits⟩
  have hminus : 'e' ∉ minus numeral.negative := by
    cases numeral.negative <;> decide
  unfold Numeral.text
  rw [List.mem_append, List.mem_append, List.mem_append, or_iff_right hminus, or_iff_right hwhole,
    or_iff_right hfraction]
  cases numeral.exponent with
  | none => exact ⟨fun _ => List.not_mem_nil, fun _ => rfl⟩
  | some part => exact ⟨fun h => (by cases h), fun h => absurd List.mem_cons_self h⟩

/-- The layout has no exponent exactly when the point is close to the digits. -/
theorem e_not_mem_layout {digits : List Char} (hdigits : ∀ c ∈ digits, c.isDigit = true)
    (hpositive : 0 < Nat.ofDigitChars 10 digits 0) (scale : Int) :
    'e' ∉ layout digits scale ↔
      -5 < pointOf (valueOf digits scale) ∧ pointOf (valueOf digits scale) ≤ 16 := by
  have hsignificant := significant_trimmed hdigits hpositive
  rw [← valueOf_trimmed, pointOf_valueOf hsignificant]
  unfold layout
  dsimp only
  generalize trimEnd (trimStart digits) = significant at hsignificant ⊢
  generalize scale + ((trimStart digits).length - significant.length : Nat) = scale
  have hplain := e_not_mem_digits hsignificant.all_digits
  have hzeros : ∀ count, 'e' ∉ List.replicate count '0' := fun count =>
    e_not_mem_digits (digits_replicate count)
  have hlength : 0 < significant.length := List.length_pos_iff.mpr hsignificant.nonempty
  by_cases hintegral : 0 ≤ scale ∧ (significant.length : Int) + scale ≤ 16
  · rw [if_pos hintegral, List.mem_append, List.mem_append, or_iff_right (not_or.mpr
      ⟨hplain, hzeros _⟩)]
    exact iff_of_true (by decide) (by omega)
  rw [if_neg hintegral]
  by_cases hfractional : 0 < (significant.length : Int) + scale ∧
      (significant.length : Int) + scale ≤ 16
  · rw [if_pos hfractional, List.mem_append, List.mem_cons, not_or, not_or]
    exact iff_of_true ⟨fun h => hplain (List.mem_of_mem_take h), by decide,
      fun h => hplain (List.mem_of_mem_drop h)⟩ (by omega)
  rw [if_neg hfractional]
  by_cases hsmall : -5 < (significant.length : Int) + scale ∧
      (significant.length : Int) + scale ≤ 0
  · rw [if_pos hsmall, List.mem_cons, List.mem_cons, List.mem_append, not_or, not_or, not_or]
    exact iff_of_true ⟨by decide, by decide, hzeros _, hplain⟩ (by omega)
  · rw [if_neg hsmall]
    refine iff_of_false (not_not.mpr ?_) (by omega)
    split_ifs <;> simp

/-! ### What is written -/

/-- What is assumed of the platform: its text of a number other than zero has digits, a fraction
and an exponent, as far as it needs them, and denotes this magnitude. -/
structure Spells (shortest : FiniteF64 → String) (value : FiniteF64) (magnitude : ℚ) : Prop where
  zero : isZero value = true → magnitude = 0
  nonzero : isZero value = false → ∃ text : RoundTripText,
    (shortest (absolute value)).toList = text.chars ∧ text.value = magnitude

/-- A number of the JSON grammar with this sign and magnitude that no reader takes for an
integer. It has no exponent exactly when the point of the number is close to its digits. -/
structure Writes (text : List Char) (negative : Bool) (magnitude : ℚ) (numeral : Numeral) :
    Prop where
  text_eq : numeral.text = text
  sign : numeral.negative = negative
  exact : numeral.value = magnitude
  positional : numeral.exponent = none ↔ -5 < pointOf magnitude ∧ pointOf magnitude ≤ 16
  readable : ∀ nearest, readNumber nearest text = (nearest negative magnitude).map .float

/-- A positive body becomes a number behind its sign. -/
theorem writes_of_denotes {body : List Char} {magnitude : ℚ} (h : Denotes body magnitude)
    (hpositional : 'e' ∉ body ↔ -5 < pointOf magnitude ∧ pointOf magnitude ≤ 16)
    (negative : Bool) : ∃ numeral, Writes (minus negative ++ body) negative magnitude numeral := by
  obtain ⟨numeral, hpositive, rfl, rfl, hfloat⟩ := h
  have htext := FloatTexts.Numeral.text_withSign hpositive negative
  refine ⟨FloatTexts.Numeral.withSign numeral negative, {
    text_eq := htext
    sign := rfl
    exact := rfl
    positional := (exponent_eq_none_iff numeral).trans hpositional
    readable := fun nearest => ?_ }⟩
  have hread := @Numeral.readNumber_text nearest (FloatTexts.Numeral.withSign numeral negative)
  have hfloat' : ((FloatTexts.Numeral.withSign numeral negative).fraction.isEmpty &&
      (FloatTexts.Numeral.withSign numeral negative).exponent.isNone) = false := hfloat
  rw [hfloat', if_neg Bool.false_ne_true, htext] at hread
  exact hread

/-- Every finite number is written exactly, in a notation that depends on its magnitude. -/
theorem formatFloat_exact {shortest : FiniteF64 → String} {value : FiniteF64} {magnitude : ℚ}
    (h : Spells shortest value magnitude) :
    ∃ text numeral, formatFloat shortest value = some text ∧
      Writes text (isNegative value) magnitude numeral := by
  unfold formatFloat
  cases hzero : isZero value with
  | true =>
    obtain rfl := h.zero hzero
    have hpoint : pointOf 0 = 1 := by
      unfold pointOf
      rw [Int.log_zero_right, zero_add]
    obtain ⟨numeral, hwrites⟩ := writes_of_denotes denotes_zero
      (iff_of_true (by decide) (by rw [hpoint]; decide)) (isNegative value)
    exact ⟨_, numeral, if_pos rfl, hwrites⟩
  | false =>
    obtain ⟨text, htext, rfl⟩ := h.nonzero hzero
    have hdigits := digits_append text.whole_digits text.fraction_digits
    have hdenotes := denotes_layout hdigits text.positive (text.scale - text.fraction.length)
    have hpositional := e_not_mem_layout hdigits text.positive (text.scale - text.fraction.length)
    obtain ⟨numeral, hwrites⟩ := writes_of_denotes hdenotes hpositional (isNegative value)
    refine ⟨_, numeral, ?_, hwrites⟩
    rw [if_neg Bool.false_ne_true, htext, text.formatPositive_chars, Option.map_some]

/-- The smallest positive number, as the platform writes it. -/
theorem formatFloat_exact_smallest :
    ∃ text numeral, formatFloat (fun _ => "5E-324") ⟨1, by decide, by decide⟩ = some text ∧
      Writes text false (valueOf ['5'] (-324)) numeral :=
  formatFloat_exact {
    zero := fun hzero => absurd hzero (by decide)
    nonzero := fun _ => ⟨{
      whole := ['5']
      fraction := []
      exponent := some (true, ['3', '2', '4'])
      whole_digits := List.all_eq_true.mp (by decide)
      fraction_digits := List.all_eq_true.mp (by decide)
      exponent_digits := by
        rintro part ⟨⟩
        exact ⟨by decide, List.all_eq_true.mp (by decide), by decide⟩
      positive := by decide }, rfl, rfl⟩ }

end SpecGate.FloatNotation

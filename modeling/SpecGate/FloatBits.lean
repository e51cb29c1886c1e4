import SpecGate.PrimitiveValues
import SpecGate.ReplayValues

/-!
Bits of floating-point numbers. Sign and magnitude determine a binary64 number; what text
parsing rounds to is a binary32 number; and two binary32 numbers have equal bits only when
they are equal.
-/
namespace SpecGate.FloatBits

open Values PrimitiveValues ReplayValues

/-! ### Binary64 -/

theorem sign_lt (x : FiniteF64) : x.sign < 2 := by
  have hlt := x.lt
  unfold FiniteF64.sign
  omega

theorem exponent_lt (x : FiniteF64) : x.exponent < 2047 := by
  have hfinite := x.finite
  unfold FiniteF64.exponent
  omega

theorem bits_eq (x : FiniteF64) :
    x.bits = x.sign * 2 ^ 63 + x.exponent * 2 ^ 52 + x.mantissa := by
  unfold FiniteF64.sign FiniteF64.exponent FiniteF64.mantissa
  omega

theorem two_pow_lt_of_mul_lt {a b c : Nat} (ha : 2 ^ 52 ≤ a) (hb : b < 2 ^ 53)
    {d : Nat} (h : a * 2 ^ c = b * 2 ^ d) : c ≤ d := by
  by_contra hlt
  have hsplit : 2 ^ c = 2 ^ (c - d) * 2 ^ d := by
    rw [← pow_add]
    congr 1
    omega
  rw [hsplit, ← mul_assoc] at h
  have heq : a * 2 ^ (c - d) = b := Nat.eq_of_mul_eq_mul_right (Nat.two_pow_pos d) h
  have htwo : 2 ≤ 2 ^ (c - d) := by
    calc 2 = 2 ^ 1 := rfl
      _ ≤ 2 ^ (c - d) := Nat.pow_le_pow_right (by decide) (by omega)
  have hmul : a * 2 ≤ a * 2 ^ (c - d) := Nat.mul_le_mul_left a htwo
  omega

/-- The exponent field and the mantissa are determined by the magnitude. -/
theorem fields_of_magnitude {x y : FiniteF64} (h : x.magnitude = y.magnitude) :
    x.exponent = y.exponent ∧ x.mantissa = y.mantissa := by
  have hx : x.mantissa < 2 ^ 52 := Nat.mod_lt _ (by decide)
  have hy : y.mantissa < 2 ^ 52 := Nat.mod_lt _ (by decide)
  unfold FiniteF64.magnitude at h
  by_cases hxzero : x.exponent = 0
  · by_cases hyzero : y.exponent = 0
    · rw [if_pos hxzero, if_pos hyzero] at h
      exact ⟨by omega, h⟩
    · rw [if_pos hxzero, if_neg hyzero] at h
      have hle : (2 ^ 52 + y.mantissa) * 1 ≤ (2 ^ 52 + y.mantissa) * 2 ^ (y.exponent - 1) :=
        Nat.mul_le_mul_left _ (Nat.two_pow_pos _)
      omega
  · by_cases hyzero : y.exponent = 0
    · rw [if_neg hxzero, if_pos hyzero] at h
      have hle : (2 ^ 52 + x.mantissa) * 1 ≤ (2 ^ 52 + x.mantissa) * 2 ^ (x.exponent - 1) :=
        Nat.mul_le_mul_left _ (Nat.two_pow_pos _)
      omega
    · rw [if_neg hxzero, if_neg hyzero] at h
      have hle := two_pow_lt_of_mul_lt (by omega) (by omega) h
      have hge := two_pow_lt_of_mul_lt (by omega) (by omega) h.symm
      have hexponent : x.exponent - 1 = y.exponent - 1 := by omega
      rw [hexponent] at h
      have hmantissa := Nat.eq_of_mul_eq_mul_right (Nat.two_pow_pos _) h
      exact ⟨by omega, by omega⟩

theorem eq_of_sign_magnitude {x y : FiniteF64} (hsign : x.sign = y.sign)
    (hmagnitude : x.magnitude = y.magnitude) : x = y := by
  obtain ⟨hexponent, hmantissa⟩ := fields_of_magnitude hmagnitude
  have hbits : x.bits = y.bits := by
    rw [bits_eq x, bits_eq y, hsign, hexponent, hmantissa]
  cases x
  cases y
  cases hbits
  rfl

/-! ### Rounding to binary32 -/

theorem nearestMultiple_le (numerator unit : Nat) :
    nearestMultiple numerator unit ≤ numerator / unit + 1 := by
  unfold nearestMultiple
  dsimp only
  split_ifs <;> omega

theorem le_nearestMultiple (numerator unit : Nat) :
    numerator / unit ≤ nearestMultiple numerator unit := by
  unfold nearestMultiple
  dsimp only
  split_ifs <;> omega

/-- What parsing rounds to has a significand of 24 bits. -/
theorem significand_of_parseF32 {factor : Nat} {exponent : Int} {magnitude : Nat}
    (h : parseF32 factor exponent = some magnitude) :
    ∃ significand shift, significand < 2 ^ 24 ∧ 925 ≤ shift ∧ shift ≤ 1178 ∧
      magnitude = significand * 2 ^ shift := by
  unfold parseF32 at h
  dsimp only at h
  set numerator := factor * 2 ^ 1074 * 10 ^ exponent.toNat with hnumerator
  set denominator := 10 ^ (-exponent).toNat with hdenominator
  set shift := max 925 ((numerator / denominator).log2 - 23) with hshift
  set quotient := nearestMultiple numerator (denominator * 2 ^ shift) with hquotient
  by_cases hlimit : quotient * 2 ^ shift < 2 ^ 1202
  · rw [if_pos hlimit] at h
    obtain rfl := Option.some.inj h
    have hfloor : numerator / (denominator * 2 ^ shift) < 2 ^ 24 := by
      rw [← Nat.div_div_eq_div_mul, Nat.div_lt_iff_lt_mul (Nat.two_pow_pos shift), ← pow_add]
      have hlog : numerator / denominator < 2 ^ ((numerator / denominator).log2 + 1) :=
        Nat.lt_log2_self
      exact hlog.trans_le (Nat.pow_le_pow_right (by decide) (by omega))
    have hupper := nearestMultiple_le numerator (denominator * 2 ^ shift)
    have hlower := le_nearestMultiple numerator (denominator * 2 ^ shift)
    rw [← hquotient] at hupper hlower
    have hsmall : shift ≤ 1178 := by
      by_contra hlarge
      have hlog : shift + 23 ≤ (numerator / denominator).log2 := by omega
      have hne : numerator / denominator ≠ 0 := by
        intro hzero
        rw [hzero, Nat.log2_zero] at hlog
        omega
      have hself : 2 ^ (shift + 23) ≤ numerator / denominator :=
        (Nat.pow_le_pow_right (by decide) hlog).trans (Nat.log2_self_le hne)
      have hfloorge : 2 ^ 23 ≤ numerator / (denominator * 2 ^ shift) := by
        rw [← Nat.div_div_eq_div_mul, Nat.le_div_iff_mul_le (Nat.two_pow_pos shift), ← pow_add,
          Nat.add_comm]
        exact hself
      have hmul : 2 ^ 23 * 2 ^ shift ≤ quotient * 2 ^ shift :=
        Nat.mul_le_mul_right _ (hfloorge.trans hlower)
      have hpow : 2 ^ 1202 ≤ 2 ^ 23 * 2 ^ shift := by
        rw [← pow_add]
        exact Nat.pow_le_pow_right (by decide) (by omega)
      exact absurd hlimit (Nat.not_lt.mpr (hpow.trans hmul))
    by_cases hfull : quotient < 2 ^ 24
    · exact ⟨quotient, shift, hfull, by omega, hsmall, rfl⟩
    · have hcarry : quotient = 2 ^ 23 * 2 := by omega
      have hnext : shift + 1 ≤ 1178 := by
        by_contra hlast
        have hpow : 2 ^ 1202 ≤ 2 ^ 24 * 2 ^ shift := by
          rw [← pow_add]
          exact Nat.pow_le_pow_right (by decide) (by omega)
        have hmul : 2 ^ 24 * 2 ^ shift ≤ quotient * 2 ^ shift :=
          Nat.mul_le_mul_right _ (by omega)
        exact absurd hlimit (Nat.not_lt.mpr (hpow.trans hmul))
      refine ⟨2 ^ 23, shift + 1, by decide, by omega, hnext, ?_⟩
      rw [hcarry, pow_succ 2 shift, mul_assoc, Nat.mul_comm 2]
  · rw [if_neg hlimit] at h
    cases h

/-! ### Binary32 bits -/

/-- The lower bits of a significand in units of the smallest subnormal. -/
def lowerBits (significand : Nat) : Nat :=
  if significand < 2 ^ 23 then significand
  else (significand.log2 - 23) * 2 ^ 23 + significand / 2 ^ (significand.log2 - 23)

theorem bitsF32_eq (sign magnitude : Nat) :
    bitsF32 sign magnitude = sign * 2 ^ 31 + lowerBits (magnitude / 2 ^ 925) := rfl

/-- A significand of 24 bits, scaled. -/
def Scaled (n : Nat) : Prop := ∃ significand shift, significand < 2 ^ 24 ∧ shift ≤ 253 ∧
  n = significand * 2 ^ shift

/-- The parts of a number in the normal range. -/
theorem Scaled.normal {n : Nat} (h : Scaled n) (hlarge : 2 ^ 23 ≤ n) :
    n.log2 - 23 ≤ 253 ∧ 2 ^ 23 ≤ n / 2 ^ (n.log2 - 23) ∧ n / 2 ^ (n.log2 - 23) < 2 ^ 24 ∧
      n = n / 2 ^ (n.log2 - 23) * 2 ^ (n.log2 - 23) := by
  obtain ⟨significand, shift, hsignificand, hshift, hn⟩ := h
  have hne : n ≠ 0 := by omega
  have hlog : 23 ≤ n.log2 := (Nat.le_log2 hne).mpr hlarge
  have hbound : n < 2 ^ (24 + shift) := by
    rw [hn, pow_add]
    exact Nat.mul_lt_mul_of_pos_right hsignificand (Nat.two_pow_pos shift)
  have hupper : n.log2 < 24 + shift := (Nat.log2_lt hne).mpr hbound
  have hdvd : 2 ^ (n.log2 - 23) ∣ n := by
    have hle : n.log2 - 23 ≤ shift := by omega
    conv_rhs => rw [hn]
    exact Dvd.dvd.mul_left (Nat.pow_dvd_pow 2 hle) significand
  refine ⟨by omega, ?_, ?_, (Nat.div_mul_cancel hdvd).symm⟩
  · rw [Nat.le_div_iff_mul_le (Nat.two_pow_pos _), ← pow_add]
    exact (Nat.pow_le_pow_right (by decide) (by omega)).trans (Nat.log2_self_le hne)
  · rw [Nat.div_lt_iff_lt_mul (Nat.two_pow_pos _), ← pow_add]
    exact Nat.lt_log2_self.trans_le (Nat.pow_le_pow_right (by decide) (by omega))

theorem lowerBits_lt {n : Nat} (h : Scaled n) : lowerBits n < 255 * 2 ^ 23 := by
  unfold lowerBits
  by_cases hsmall : n < 2 ^ 23
  · rw [if_pos hsmall]
    omega
  · rw [if_neg hsmall]
    obtain ⟨hshift, -, hupper, -⟩ := h.normal (by omega)
    have hmul : (n.log2 - 23) * 2 ^ 23 ≤ 253 * 2 ^ 23 := Nat.mul_le_mul_right _ hshift
    omega

theorem lowerBits_injective {n m : Nat} (hn : Scaled n) (hm : Scaled m)
    (h : lowerBits n = lowerBits m) : n = m := by
  unfold lowerBits at h
  by_cases hnsmall : n < 2 ^ 23
  · rw [if_pos hnsmall] at h
    by_cases hmsmall : m < 2 ^ 23
    · rwa [if_pos hmsmall] at h
    · rw [if_neg hmsmall] at h
      obtain ⟨-, hlower, -, -⟩ := hm.normal (by omega)
      omega
  · rw [if_neg hnsmall] at h
    obtain ⟨-, hnlower, hnupper, hnexact⟩ := hn.normal (by omega)
    by_cases hmsmall : m < 2 ^ 23
    · rw [if_pos hmsmall] at h
      omega
    · rw [if_neg hmsmall] at h
      obtain ⟨-, hmlower, hmupper, hmexact⟩ := hm.normal (by omega)
      generalize n.log2 - 23 = shift at *
      generalize m.log2 - 23 = shift' at *
      have hshift : shift = shift' := by omega
      subst hshift
      have hquotient : n / 2 ^ shift = m / 2 ^ shift := by omega
      rw [hnexact, hmexact, hquotient]

theorem scaled_of_representable {x : FiniteF64} (h : RepresentableF32 x) :
    Scaled (x.magnitude / 2 ^ 925) ∧ x.magnitude = x.magnitude / 2 ^ 925 * 2 ^ 925 := by
  obtain ⟨significand, shift, hsignificand, hlow, hhigh, hx⟩ := h
  have hsplit : x.magnitude = significand * 2 ^ (shift - 925) * 2 ^ 925 := by
    rw [hx, mul_assoc, ← pow_add]
    congr 2
    omega
  have hquotient : x.magnitude / 2 ^ 925 = significand * 2 ^ (shift - 925) := by
    rw [hsplit]
    exact Nat.mul_div_cancel _ (Nat.pow_pos Nat.two_pos)
  exact ⟨⟨significand, shift - 925, hsignificand, by omega, hquotient⟩, by rw [hquotient, hsplit]⟩

/-- The bits of a finite binary32 number are not those of a symbol. -/
theorem bitsF32_finite {x : FiniteF64} (h : RepresentableF32 x) :
    bitsF32 x.sign x.magnitude % 2 ^ 31 < 0x7f800000 := by
  have hlt := lowerBits_lt (scaled_of_representable h).1
  rw [bitsF32_eq]
  omega

theorem eq_of_bitsF32 {x y : FiniteF64} (hx : RepresentableF32 x) (hy : RepresentableF32 y)
    (h : bitsF32 x.sign x.magnitude = bitsF32 y.sign y.magnitude) : x = y := by
  obtain ⟨hxscaled, hxexact⟩ := scaled_of_representable hx
  obtain ⟨hyscaled, hyexact⟩ := scaled_of_representable hy
  have hxlt := lowerBits_lt hxscaled
  have hylt := lowerBits_lt hyscaled
  rw [bitsF32_eq, bitsF32_eq] at h
  have hsign : x.sign = y.sign := by omega
  have hlower : lowerBits (x.magnitude / 2 ^ 925) = lowerBits (y.magnitude / 2 ^ 925) := by omega
  have hquotient := lowerBits_injective hxscaled hyscaled hlower
  exact eq_of_sign_magnitude hsign (by rw [hxexact, hyexact, hquotient])

/-- The bits of a finite binary64 number are not those of a symbol. -/
theorem bitsF64_finite (x : FiniteF64) : x.bits % 2 ^ 63 < 0x7ff0000000000000 := by
  have hexponent := exponent_lt x
  have hmantissa : x.mantissa < 2 ^ 52 := Nat.mod_lt _ (by decide)
  have hbits := bits_eq x
  omega

theorem eq_of_bits {x y : FiniteF64} (h : x.bits = y.bits) : x = y := by
  cases x
  cases y
  cases h
  rfl

end SpecGate.FloatBits

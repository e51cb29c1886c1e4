import Mathlib

/-!
Conversions between the two widths of floating-point numbers, on their bits. Widening is
exact; narrowing rounds to the nearest number, ties to the even one, and overflows to
infinity. What becomes of a number that is not one is up to the platform.
-/
namespace SpecGate.FloatWidths

structure F32 where
  bits : UInt32
  deriving DecidableEq

structure F64 where
  bits : UInt64
  deriving DecidableEq

/-- The platform's conversions of what is not a number. -/
class NaNCasts where
  widen : UInt32 → UInt64
  narrow : UInt64 → UInt32

namespace F32

def sign (value : F32) : Nat := value.bits.toNat / 2 ^ 31

def exponent (value : F32) : Nat := value.bits.toNat / 2 ^ 23 % 2 ^ 8

def mantissa (value : F32) : Nat := value.bits.toNat % 2 ^ 23

def isNaN (value : F32) : Bool := value.exponent == 255 && value.mantissa != 0

end F32

namespace F64

def sign (value : F64) : Nat := value.bits.toNat / 2 ^ 63

def exponent (value : F64) : Nat := value.bits.toNat / 2 ^ 52 % 2 ^ 11

def mantissa (value : F64) : Nat := value.bits.toNat % 2 ^ 52

end F64

/-- The bits of a wide number with the given parts. -/
def wideBits (sign exponent mantissa : Nat) : F64 :=
  ⟨UInt64.ofNat (sign * 2 ^ 63 + exponent * 2 ^ 52 + mantissa)⟩

def narrowBits (sign magnitude : Nat) : F32 := ⟨UInt32.ofNat (sign * 2 ^ 31 + magnitude)⟩

/-- The number without its lowest bits, rounded to the nearest, ties to even. -/
def roundEven (number shift : Nat) : Nat :=
  let quotient := number / 2 ^ shift
  let rest := number % 2 ^ shift
  if 2 ^ shift < 2 * rest ∨ (2 * rest = 2 ^ shift ∧ quotient % 2 = 1) then quotient + 1
  else quotient

/-- The bits of narrow infinity, without a sign. -/
def infinityBits : Nat := 255 * 2 ^ 23

section Casts

variable [NaNCasts]

/-- `f64::from`. -/
def f64From (value : F32) : F64 :=
  if value.exponent = 255 then
    if value.mantissa = 0 then wideBits value.sign 2047 0 else ⟨NaNCasts.widen value.bits⟩
  else if value.exponent = 0 then
    if value.mantissa = 0 then wideBits value.sign 0 0
    else
      let leading := value.mantissa.log2
      wideBits value.sign (874 + leading) ((value.mantissa - 2 ^ leading) * 2 ^ (52 - leading))
  else wideBits value.sign (value.exponent + 896) (value.mantissa * 2 ^ 29)

/-- `as f32`. -/
def asF32 (value : F64) : F32 :=
  if value.exponent = 2047 then
    if value.mantissa = 0 then narrowBits value.sign infinityBits else ⟨NaNCasts.narrow value.bits⟩
  else if 897 ≤ value.exponent then
    -- A carry out of the mantissa goes into the exponent, up to infinity.
    narrowBits value.sign
      (min infinityBits (roundEven ((value.exponent - 896) * 2 ^ 52 + value.mantissa) 29))
  else
    let significand := if value.exponent = 0 then value.mantissa else 2 ^ 52 + value.mantissa
    narrowBits value.sign (roundEven significand (926 - max value.exponent 1))

end Casts

theorem roundEven_mul (number shift : Nat) : roundEven (number * 2 ^ shift) shift = number := by
  have hpos : 0 < 2 ^ shift := Nat.two_pow_pos shift
  unfold roundEven
  rw [Nat.mul_div_cancel _ hpos, Nat.mul_mod_left]
  exact if_neg (by omega)

namespace F32

variable (value : F32)

theorem sign_lt : value.sign < 2 := by
  have hlt := value.bits.toNat_lt
  unfold sign
  omega

theorem exponent_lt : value.exponent < 2 ^ 8 := Nat.mod_lt _ (by omega)

theorem mantissa_lt : value.mantissa < 2 ^ 23 := Nat.mod_lt _ (by omega)

/-- The parts of a number make up its bits. -/
theorem narrowBits_parts :
    narrowBits value.sign (value.exponent * 2 ^ 23 + value.mantissa) = value := by
  have hlt := value.bits.toNat_lt
  have hbits : value.sign * 2 ^ 31 + (value.exponent * 2 ^ 23 + value.mantissa) =
      value.bits.toNat := by
    unfold sign exponent mantissa
    omega
  unfold narrowBits
  rw [hbits, UInt32.ofNat_toNat]

end F32

section Parts

variable {sign exponent mantissa : Nat} (hsign : sign < 2) (hexponent : exponent < 2 ^ 11)
  (hmantissa : mantissa < 2 ^ 52)

include hsign hexponent hmantissa

theorem wideBits_toNat :
    (wideBits sign exponent mantissa).bits.toNat = sign * 2 ^ 63 + exponent * 2 ^ 52 + mantissa :=
  UInt64.toNat_ofNat_of_lt' (by
    change _ < 2 ^ 64
    omega)

theorem wideBits_sign : (wideBits sign exponent mantissa).sign = sign := by
  unfold F64.sign
  rw [wideBits_toNat hsign hexponent hmantissa]
  omega

theorem wideBits_exponent : (wideBits sign exponent mantissa).exponent = exponent := by
  unfold F64.exponent
  rw [wideBits_toNat hsign hexponent hmantissa]
  omega

theorem wideBits_mantissa : (wideBits sign exponent mantissa).mantissa = mantissa := by
  unfold F64.mantissa
  rw [wideBits_toNat hsign hexponent hmantissa]
  omega

end Parts

section RoundTrip

variable [NaNCasts]

theorem asF32_infinity {sign : Nat} (hsign : sign < 2) :
    asF32 (wideBits sign 2047 0) = narrowBits sign infinityBits := by
  unfold asF32
  rw [wideBits_sign hsign (by omega) (by omega), wideBits_exponent hsign (by omega) (by omega),
    wideBits_mantissa hsign (by omega) (by omega), if_pos rfl, if_pos rfl]

/-- A number in the normal range of the narrow format whose low bits are zero is kept. -/
theorem asF32_normal {sign exponent mantissa : Nat} (hsign : sign < 2) (hlow : 0 < exponent)
    (hhigh : exponent < 255) (hmantissa : mantissa < 2 ^ 23) :
    asF32 (wideBits sign (exponent + 896) (mantissa * 2 ^ 29)) =
      narrowBits sign (exponent * 2 ^ 23 + mantissa) := by
  have hexact : (exponent + 896 - 896) * 2 ^ 52 + mantissa * 2 ^ 29 =
      (exponent * 2 ^ 23 + mantissa) * 2 ^ 29 := by omega
  unfold asF32
  rw [wideBits_sign hsign (by omega) (by omega), wideBits_exponent hsign (by omega) (by omega),
    wideBits_mantissa hsign (by omega) (by omega), if_neg (by omega), if_pos (by omega), hexact,
    roundEven_mul, Nat.min_eq_right (by unfold infinityBits; omega)]

theorem asF32_zero {sign : Nat} (hsign : sign < 2) :
    asF32 (wideBits sign 0 0) = narrowBits sign 0 := by
  have hround := roundEven_mul 0 (926 - max 0 1)
  rw [Nat.zero_mul] at hround
  unfold asF32
  rw [wideBits_sign hsign (by omega) (by omega), wideBits_exponent hsign (by omega) (by omega),
    wideBits_mantissa hsign (by omega) (by omega), if_neg (by omega), if_neg (by omega)]
  dsimp only
  rw [if_pos rfl, hround]

/-- A subnormal number becomes normal in the wide format, and is shifted back. -/
theorem asF32_subnormal {sign mantissa : Nat} (hsign : sign < 2) (hpos : mantissa ≠ 0)
    (hmantissa : mantissa < 2 ^ 23) :
    asF32 (wideBits sign (874 + mantissa.log2)
        ((mantissa - 2 ^ mantissa.log2) * 2 ^ (52 - mantissa.log2))) =
      narrowBits sign mantissa := by
  have hlow : 2 ^ mantissa.log2 ≤ mantissa := Nat.log2_self_le hpos
  have hhigh : mantissa < 2 ^ (mantissa.log2 + 1) := Nat.lt_log2_self
  have hlog : mantissa.log2 < 23 := (Nat.log2_lt hpos).mpr hmantissa
  have hsplit : 2 ^ mantissa.log2 * 2 ^ (52 - mantissa.log2) = 2 ^ 52 := by
    rw [← Nat.pow_add]
    congr 1
    omega
  have hexact : 2 ^ 52 + (mantissa - 2 ^ mantissa.log2) * 2 ^ (52 - mantissa.log2) =
      mantissa * 2 ^ (52 - mantissa.log2) := by
    rw [Nat.sub_mul, hsplit]
    have hle := Nat.mul_le_mul_right (2 ^ (52 - mantissa.log2)) hlow
    omega
  have hfits : (mantissa - 2 ^ mantissa.log2) * 2 ^ (52 - mantissa.log2) < 2 ^ 52 := by
    have hrest : mantissa - 2 ^ mantissa.log2 < 2 ^ mantissa.log2 := by
      rw [Nat.pow_succ] at hhigh
      omega
    calc
      _ < 2 ^ mantissa.log2 * 2 ^ (52 - mantissa.log2) :=
        Nat.mul_lt_mul_of_pos_right hrest (Nat.two_pow_pos _)
      _ = 2 ^ 52 := hsplit
  have hshift : 926 - max (874 + mantissa.log2) 1 = 52 - mantissa.log2 := by omega
  unfold asF32
  rw [wideBits_sign hsign (by omega) hfits, wideBits_exponent hsign (by omega) hfits,
    wideBits_mantissa hsign (by omega) hfits, if_neg (by omega), if_neg (by omega)]
  dsimp only
  rw [if_neg (by omega), hexact, hshift, roundEven_mul]

/-- Every number is narrowed to what it was before it was widened. -/
theorem asF32_f64From (value : F32) (hnumber : value.isNaN = false) :
    asF32 (f64From value) = value := by
  have hsign := value.sign_lt
  have hexponent := value.exponent_lt
  have hmantissa := value.mantissa_lt
  have hparts := value.narrowBits_parts
  unfold f64From
  by_cases hinfinite : value.exponent = 255
  · have hzero : value.mantissa = 0 := by
      unfold F32.isNaN at hnumber
      rw [hinfinite, beq_self_eq_true, Bool.true_and] at hnumber
      exact bne_eq_false_iff_eq.mp hnumber
    rw [if_pos hinfinite, if_pos hzero, asF32_infinity hsign]
    rw [hinfinite, hzero] at hparts
    exact hparts
  rw [if_neg hinfinite]
  by_cases hsmall : value.exponent = 0
  · rw [hsmall, Nat.zero_mul, Nat.zero_add] at hparts
    rw [if_pos hsmall]
    by_cases hzero : value.mantissa = 0
    · rw [if_pos hzero, asF32_zero hsign]
      rw [hzero] at hparts
      exact hparts
    · rw [if_neg hzero, asF32_subnormal hsign hzero hmantissa]
      exact hparts
  · rw [if_neg hsmall, asF32_normal hsign (by omega) (by omega) hmantissa]
    exact hparts

end RoundTrip

end SpecGate.FloatWidths

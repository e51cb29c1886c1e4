import SpecGate.Decimal
import SpecGate.DelimitedTexts
import SpecGate.Display
import SpecGate.FloatBits
import SpecGate.FloatTexts

/-!
The printed form of a finite float. The printed decimal lies in the interval of the numbers
that round to the float, and intervals of different magnitudes have no point in common, so
no two floats are printed alike. An integer is printed like a float only when the decimal of
the float is that integer.
-/
namespace SpecGate.ShortestDecimals

open Values Display IntegerText JsonTexts FloatTexts DelimitedTexts

/-! ### Points of an interval -/

/-- A point of a rounding interval, in the unit of its bounds. -/
def Inside (bounds : RoundingInterval) (point : ℚ) : Prop :=
  if bounds.inclusive = true then bounds.low ≤ point ∧ point ≤ bounds.high
  else bounds.low < point ∧ point < bounds.high

/-- The point of a decimal, in units of `2 ^ (-1076)`. -/
def pointOf (factor : Nat) (exponent : Int) : ℚ := factor * 10 ^ exponent * 2 ^ 1076

theorem Inside.bounds {bounds : RoundingInterval} {point : ℚ} (h : Inside bounds point) :
    bounds.low ≤ point ∧ point ≤ bounds.high := by
  unfold Inside at h
  split at h
  · exact h
  · exact ⟨h.1.le, h.2.le⟩

/-- The ends belong to an inclusive interval only. -/
theorem Inside.inclusive {bounds : RoundingInterval} {point : ℚ} (h : Inside bounds point)
    (hend : point = bounds.low ∨ point = bounds.high) : bounds.inclusive = true := by
  unfold Inside at h
  by_contra hexclusive
  rw [if_neg hexclusive] at h
  rcases hend with rfl | rfl
  · exact lt_irrefl _ h.1
  · exact lt_irrefl _ h.2

theorem ten_pow_toNat (exponent : Int) :
    (10 : ℚ) ^ exponent.toNat = 10 ^ exponent * 10 ^ (-exponent).toNat := by
  rw [← zpow_natCast, ← zpow_natCast, ← zpow_add₀ (by norm_num)]
  congr 1
  omega

theorem contains_iff {bounds : RoundingInterval} {factor : Nat} {exponent : Int} :
    bounds.contains (10 ^ (-exponent).toNat) (factor * (2 ^ 1076 * 10 ^ exponent.toNat)) = true ↔
      Inside bounds (pointOf factor exponent) := by
  have hscale : (0 : ℚ) < 10 ^ (-exponent).toNat := by positivity
  have hscaled : ((factor * (2 ^ 1076 * 10 ^ exponent.toNat) : Nat) : ℚ) =
      pointOf factor exponent * 10 ^ (-exponent).toNat := by
    simp only [pointOf, Nat.cast_mul, Nat.cast_pow, Nat.cast_ofNat]
    rw [ten_pow_toNat]
    generalize (2 : ℚ) ^ 1076 = unit
    ring
  have hcast : ∀ n : Nat, ((n * 10 ^ (-exponent).toNat : Nat) : ℚ) =
      n * 10 ^ (-exponent).toNat := by
    intro n
    simp only [Nat.cast_mul, Nat.cast_pow, Nat.cast_ofNat]
  unfold RoundingInterval.contains Inside
  by_cases hinclusive : bounds.inclusive = true
  · rw [if_pos hinclusive, if_pos hinclusive, Bool.and_eq_true, decide_eq_true_eq,
      decide_eq_true_eq, ← Nat.cast_le (α := ℚ), ← Nat.cast_le (α := ℚ), hscaled, hcast, hcast,
      mul_le_mul_iff_of_pos_right hscale, mul_le_mul_iff_of_pos_right hscale]
  · rw [if_neg hinclusive, if_neg hinclusive, Bool.and_eq_true, decide_eq_true_eq,
      decide_eq_true_eq, ← Nat.cast_lt (α := ℚ), ← Nat.cast_lt (α := ℚ), hscaled, hcast, hcast,
      mul_lt_mul_iff_of_pos_right hscale, mul_lt_mul_iff_of_pos_right hscale]

/-- A chosen multiple lies in the interval. -/
theorem inside_of_nearestMultiple {bounds : RoundingInterval} {exponent : Int} {factor : Nat}
    (h : nearestMultiple bounds exponent = some factor) :
    Inside bounds (pointOf factor exponent) := by
  rw [← contains_iff]
  unfold nearestMultiple at h
  simp only at h
  split_ifs at h with hboth hcloser hdown hup
  · rw [← Option.some.inj h]
    exact (Bool.and_eq_true_iff.mp hboth).1
  · rw [← Option.some.inj h]
    exact (Bool.and_eq_true_iff.mp hboth).2
  · rw [← Option.some.inj h]
    exact hdown
  · rw [← Option.some.inj h]
    exact hup

theorem inside_of_shortestDecimal {bounds : RoundingInterval} {fuel factor : Nat}
    {start exponent : Int} (h : shortestDecimal bounds fuel start = some (factor, exponent)) :
    Inside bounds (pointOf factor exponent) := by
  induction fuel generalizing start with
  | zero => cases h
  | succ fuel ih =>
    rw [shortestDecimal] at h
    split at h
    · rename_i found hfound
      obtain ⟨rfl, rfl⟩ := Prod.mk.inj (Option.some.inj h)
      exact inside_of_nearestMultiple hfound
    · exact ih h

/-! ### Existence -/

/-- A unit that fits between the value and the lower end leaves a multiple inside. -/
theorem nearestMultiple_isSome {bounds : RoundingInterval} {exponent : Int}
    (hunit : bounds.low * 10 ^ (-exponent).toNat + 2 ^ 1076 * 10 ^ exponent.toNat ≤
      bounds.value * 10 ^ (-exponent).toNat) (hhigh : bounds.value < bounds.high) :
    ∃ factor, nearestMultiple bounds exponent = some factor := by
  have hscale : 0 < 10 ^ (-exponent).toNat := by positivity
  have hpos : 0 < 2 ^ 1076 * 10 ^ exponent.toNat := by positivity
  have hmod := Nat.div_add_mod' (bounds.value * 10 ^ (-exponent).toNat)
    (2 ^ 1076 * 10 ^ exponent.toNat)
  have hlt := Nat.mod_lt (bounds.value * 10 ^ (-exponent).toNat) hpos
  have hvalue := Nat.mul_lt_mul_of_pos_right hhigh hscale
  have hdown : bounds.contains (10 ^ (-exponent).toNat)
      (bounds.value * 10 ^ (-exponent).toNat / (2 ^ 1076 * 10 ^ exponent.toNat) *
        (2 ^ 1076 * 10 ^ exponent.toNat)) = true := by
    unfold RoundingInterval.contains
    generalize bounds.value * 10 ^ (-exponent).toNat / (2 ^ 1076 * 10 ^ exponent.toNat) *
      (2 ^ 1076 * 10 ^ exponent.toNat) = scaled at *
    split
    · rw [Bool.and_eq_true, decide_eq_true_eq, decide_eq_true_eq]
      omega
    · rw [Bool.and_eq_true, decide_eq_true_eq, decide_eq_true_eq]
      omega
  unfold nearestMultiple
  simp only [hdown, Bool.true_and, if_true]
  split
  · exact ⟨_, rfl⟩
  · exact ⟨_, rfl⟩

/-- The descent finds a decimal when it passes an exponent that has one. -/
theorem shortestDecimal_isSome {bounds : RoundingInterval} {fuel : Nat} {start target : Int}
    (htarget : ∃ factor, nearestMultiple bounds target = some factor) (hle : target ≤ start)
    (hfuel : start - target < fuel) :
    ∃ factor exponent, shortestDecimal bounds fuel start = some (factor, exponent) := by
  induction fuel generalizing start with
  | zero => omega
  | succ fuel ih =>
    rw [shortestDecimal]
    split
    · exact ⟨_, _, rfl⟩
    · rename_i hnone
      have hne : target ≠ start := by
        rintro rfl
        obtain ⟨factor, hfactor⟩ := htarget
        rw [hfactor] at hnone
        cases hnone
      exact ih (by omega) (by omega)

/-! ### Intervals of different numbers -/

/-- The interval of a number, by its significand and the exponent of its last place. -/
structure Spaced (x : FiniteF64) (significand place : Nat) : Prop where
  magnitude : x.magnitude = significand * 2 ^ place
  low : (roundingInterval x).low = 4 * (significand * 2 ^ place) -
    if significand = 2 ^ 52 ∧ 0 < place then 2 ^ place else 2 * 2 ^ place
  high : (roundingInterval x).high = 4 * (significand * 2 ^ place) + 2 * 2 ^ place
  inclusive : (roundingInterval x).inclusive = true ↔ significand % 2 = 0
  lt : significand < 2 ^ 53
  normal : 0 < place → 2 ^ 52 ≤ significand

theorem spaced (x : FiniteF64) : ∃ significand place, Spaced x significand place := by
  have hmantissa : x.mantissa < 2 ^ 52 := Nat.mod_lt _ (by decide)
  by_cases hzero : x.exponent = 0
  · refine ⟨x.mantissa, 0, ?_, ?_, ?_, ?_, by omega, by omega⟩
    · simp [FiniteF64.magnitude, hzero]
    · simp [roundingInterval, FiniteF64.magnitude, hzero]
    · simp [roundingInterval, FiniteF64.magnitude, hzero]
    · simp [roundingInterval]
  · have hmagnitude : x.magnitude = (2 ^ 52 + x.mantissa) * 2 ^ (x.exponent - 1) := by
      rw [FiniteF64.magnitude, if_neg hzero]
    have hstep : (if x.exponent ≤ 1 then 1 else 2 ^ (x.exponent - 1)) = 2 ^ (x.exponent - 1) := by
      split
      · have hone : x.exponent - 1 = 0 := by omega
        rw [hone, pow_zero]
      · rfl
    have hbelow : (x.mantissa = 0 ∧ 1 < x.exponent) ↔
        (2 ^ 52 + x.mantissa = 2 ^ 52 ∧ 0 < x.exponent - 1) := by omega
    refine ⟨2 ^ 52 + x.mantissa, x.exponent - 1, hmagnitude, ?_, ?_, ?_, by omega, by omega⟩
    · simp only [roundingInterval, hmagnitude, hstep, hbelow]
    · simp only [roundingInterval, hmagnitude, hstep]
    · simp only [roundingInterval, beq_iff_eq]
      omega

section Intervals

variable {x y : FiniteF64}

/-- The value lies between the ends, and the interval of a positive number is positive. -/
theorem interval_bounds (h : 0 < x.magnitude) : 0 < (roundingInterval x).low ∧
    (roundingInterval x).low < (roundingInterval x).value ∧
      (roundingInterval x).value < (roundingInterval x).high := by
  obtain ⟨significand, place, hspaced⟩ := spaced x
  have hvalue : (roundingInterval x).value = 4 * (significand * 2 ^ place) := by
    rw [← hspaced.magnitude]
    rfl
  have hmagnitude := hspaced.magnitude
  have hpos : 0 < 2 ^ place := by positivity
  have hle : 1 * 2 ^ place ≤ significand * 2 ^ place := by
    refine Nat.mul_le_mul_right _ (Nat.pos_of_ne_zero ?_)
    rintro rfl
    omega
  rw [hspaced.low, hspaced.high, hvalue]
  split <;> omega

/-- The ends of two intervals, for last places that differ. -/
theorem ends_of_larger_place {n m p q : Nat} (hp : 0 < p) (hdouble : 2 * p ≤ q) (hn : n < 2 ^ 53)
    (hm : 2 ^ 52 ≤ m) :
    4 * (n * p) + 2 * p ≤ 4 * (m * q) - (if m = 2 ^ 52 then q else 2 * q) ∧
      (4 * (n * p) + 2 * p = 4 * (m * q) - (if m = 2 ^ 52 then q else 2 * q) → n % 2 = 1) := by
  have hlow : n * p ≤ 9007199254740991 * p := Nat.mul_le_mul_right _ (by omega)
  by_cases hpower : m = 2 ^ 52
  · have hsub : 4 * (m * q) - q = 18014398509481983 * q := by
      rw [hpower]
      exact Nat.sub_eq_of_eq_add (by ring)
    rw [if_pos hpower, hsub]
    refine ⟨by linarith, fun heq => ?_⟩
    have hfull : 9007199254740991 * p ≤ n * p := by linarith
    have hge := Nat.le_of_mul_le_mul_right hfull hp
    have hmax : n = 9007199254740991 := Nat.le_antisymm (Nat.le_of_lt_succ hn) hge
    rw [hmax]
  · have hhigh : 4503599627370497 * q ≤ m * q :=
      Nat.mul_le_mul_right _ (Nat.lt_of_le_of_ne hm (Ne.symm hpower))
    have hlt : 4 * (n * p) + 2 * p < 4 * (m * q) - 2 * q := Nat.lt_sub_of_add_lt (by linarith)
    rw [if_neg hpower]
    exact ⟨hlt.le, fun heq => absurd heq hlt.ne⟩

/-- The ends of two intervals with one last place. -/
theorem ends_of_same_place {n m p : Nat} (power : Prop) [Decidable power] (hp : 0 < p)
    (hlt : n < m) :
    4 * (n * p) + 2 * p ≤ 4 * (m * p) - (if power then p else 2 * p) ∧
      (4 * (n * p) + 2 * p = 4 * (m * p) - (if power then p else 2 * p) → m = n + 1) := by
  have hnext : (n + 1) * p ≤ m * p := Nat.mul_le_mul_right _ hlt
  rw [Nat.add_mul, Nat.one_mul] at hnext
  refine ⟨by split <;> omega, fun heq => ?_⟩
  have hadjacent : m * p ≤ (n + 1) * p := by
    rw [Nat.add_mul, Nat.one_mul]
    split at heq <;> omega
  have := Nat.le_of_mul_le_mul_right hadjacent hp
  omega

/-- The interval of a smaller number ends where that of a larger one begins, or before;
a common end belongs to one of them at most. -/
theorem intervals_apart (h : x.magnitude < y.magnitude) :
    (roundingInterval x).high ≤ (roundingInterval y).low ∧
      ((roundingInterval x).high = (roundingInterval y).low →
        ¬ ((roundingInterval x).inclusive = true ∧ (roundingInterval y).inclusive = true)) := by
  obtain ⟨n, k, hx⟩ := spaced x
  obtain ⟨m, l, hy⟩ := spaced y
  have hpos : 0 < 2 ^ k := Nat.two_pow_pos k
  rw [hx.inclusive, hy.inclusive, hx.high, hy.low]
  rw [hx.magnitude, hy.magnitude] at h
  rcases Nat.lt_trichotomy k l with hkl | rfl | hkl
  · have hdouble : 2 * 2 ^ k ≤ 2 ^ l := by
      rw [← pow_succ']
      exact Nat.pow_le_pow_right (by decide) hkl
    have hplace : 0 < l := by omega
    simp only [hplace, and_true]
    obtain ⟨hle, hodd⟩ := ends_of_larger_place hpos hdouble hx.lt (hy.normal hplace)
    refine ⟨hle, fun heq hboth => ?_⟩
    rw [hodd heq] at hboth
    exact absurd hboth.1 (by decide)
  · have hlt : n < m := Nat.lt_of_mul_lt_mul_right h
    obtain ⟨hle, hnext⟩ := ends_of_same_place (m = 2 ^ 52 ∧ 0 < k) hpos hlt
    refine ⟨hle, fun heq hboth => ?_⟩
    have := hnext heq
    omega
  · exfalso
    have hdouble : 2 * 2 ^ l ≤ 2 ^ k := by
      rw [← pow_succ']
      exact Nat.pow_le_pow_right (by decide) hkl
    have hnormal : 2 ^ 52 * (2 * 2 ^ l) ≤ n * 2 ^ k :=
      Nat.mul_le_mul (hx.normal (by omega)) hdouble
    have hsmall : m * 2 ^ l < 2 ^ 53 * 2 ^ l := Nat.mul_lt_mul_of_pos_right hy.lt (Nat.two_pow_pos l)
    have hsame : 2 ^ 52 * (2 * 2 ^ l) = 2 ^ 53 * 2 ^ l := by
      rw [← Nat.mul_assoc, ← pow_succ]
    rw [hsame] at hnormal
    exact absurd (h.trans hsmall) (Nat.not_lt.mpr hnormal)

theorem not_inside_both (h : x.magnitude < y.magnitude) {point : ℚ}
    (hx : Inside (roundingInterval x) point) (hy : Inside (roundingInterval y) point) : False := by
  obtain ⟨hle, hends⟩ := intervals_apart h
  have hcast : ((roundingInterval x).high : ℚ) ≤ (roundingInterval y).low := by exact_mod_cast hle
  have hhigh : point = (roundingInterval x).high :=
    le_antisymm hx.bounds.2 (hcast.trans hy.bounds.1)
  have hlow : point = (roundingInterval y).low :=
    le_antisymm (hx.bounds.2.trans hcast) hy.bounds.1
  refine hends ?_ ⟨hx.inclusive (.inr hhigh), hy.inclusive (.inl hlow)⟩
  exact_mod_cast hhigh.symm.trans hlow

/-- A point is rounded to one magnitude only. -/
theorem magnitude_eq_of_inside {point : ℚ} (hx : Inside (roundingInterval x) point)
    (hy : Inside (roundingInterval y) point) : x.magnitude = y.magnitude := by
  rcases Nat.lt_trichotomy x.magnitude y.magnitude with h | h | h
  · exact (not_inside_both h hx hy).elim
  · exact h
  · exact (not_inside_both h hy hx).elim

/-- A power of ten below the unit of the bounds. -/
def finest : Int := -324

theorem finest_unit : 2 ^ 1076 * 10 ^ finest.toNat ≤ 10 ^ (-finest).toNat := by
  decide +kernel

/-- Every positive number has a printed decimal, and it is rounded to that number. -/
theorem exists_shortestDecimal (h : 0 < x.magnitude) :
    ∃ factor exponent, shortestDecimal (roundingInterval x) exponentCount largestExponent =
      some (factor, exponent) ∧ Inside (roundingInterval x) (pointOf factor exponent) := by
  obtain ⟨hlow, hvalue, hhigh⟩ := interval_bounds h
  have hwidth : (roundingInterval x).low * 10 ^ (-finest).toNat + 2 ^ 1076 * 10 ^ finest.toNat ≤
      (roundingInterval x).value * 10 ^ (-finest).toNat := by
    refine le_trans (Nat.add_le_add_left finest_unit _) ?_
    rw [← Nat.succ_mul]
    exact Nat.mul_le_mul_right _ hvalue
  obtain ⟨factor, exponent, hfound⟩ := shortestDecimal_isSome
    (nearestMultiple_isSome hwidth hhigh) (show finest ≤ largestExponent by decide)
    (show largestExponent - finest < (exponentCount : Nat) by decide)
  exact ⟨factor, exponent, hfound, inside_of_shortestDecimal hfound⟩

end Intervals

/-! ### Positional notation -/

theorem digits_toString (n : Nat) : (toString n).toList = Nat.toDigits 10 n := by
  rw [Nat.toString_eq_repr, Nat.toList_repr]

theorem isDigit_toDigits {n : Nat} : ∀ c ∈ Nat.toDigits 10 n, c.isDigit = true :=
  fun _ hc => Nat.isDigit_of_mem_toDigits (by decide) (by decide) hc

/-- The number of an unsigned text: digits, or digits around a point. -/
inductive Stands : List Char → ℚ → Prop
  | integral {digits : List Char} (hne : digits ≠ []) (hdigits : ∀ c ∈ digits, c.isDigit = true) :
      Stands digits (valueOf digits 0)
  | fractional {whole fraction : List Char} (hne : whole ≠ [])
      (hwhole : ∀ c ∈ whole, c.isDigit = true) (hfraction : ∀ c ∈ fraction, c.isDigit = true) :
      Stands (whole ++ '.' :: fraction) (valueOf (whole ++ fraction) (-fraction.length))

theorem point_not_mem {digits : List Char} (h : ∀ c ∈ digits, c.isDigit = true) :
    ∀ c ∈ digits, ¬ c = '.' := by
  rintro c hmem rfl
  exact absurd (h _ hmem) (by decide)

theorem Stands.unique {text text' : List Char} {value value' : ℚ} (h : Stands text value)
    (h' : Stands text' value') (htext : text = text') : value = value' := by
  cases h with
  | integral hne hdigits =>
    cases h' with
    | integral hne' hdigits' => rw [htext]
    | fractional hne' hwhole' hfraction' =>
      subst htext
      exact absurd rfl (point_not_mem hdigits '.' (by simp))
  | fractional hne hwhole hfraction =>
    cases h' with
    | integral hne' hdigits' =>
      subst htext
      exact absurd rfl (point_not_mem hdigits' '.' (by simp))
    | fractional hne' hwhole' hfraction' =>
      have hparts := (@legible_words _ (· = '.') _ _ (point_not_mem hwhole)
        (point_not_mem hwhole')).append rfl
          (legible_words (point_not_mem hfraction) (point_not_mem hfraction'))
      obtain ⟨rfl, rfl⟩ := hparts.of_eq htext
      rfl

/-- Positional notation stands for the decimal. -/
theorem stands_positional (factor : Nat) (exponent : Int) :
    Stands (positional factor exponent).toList (factor * 10 ^ exponent) := by
  have hvalue : ∀ scale, valueOf (Nat.toDigits 10 factor) scale = factor * 10 ^ scale := by
    intro scale
    rw [valueOf, Nat.ofDigitChars_ten_toDigits]
  rw [← hvalue, positional]
  split
  · rename_i hnonneg
    have hdigits : Stands (Nat.toDigits 10 factor ++ List.replicate exponent.toNat '0') _ :=
      .integral (by simp [Nat.toDigits_ne_nil]) (digits_append isDigit_toDigits (digits_replicate _))
    rw [valueOf_append_zeros, Int.zero_add, Int.toNat_of_nonneg hnonneg] at hdigits
    simpa [digits_toString] using hdigits
  · rename_i hnegative
    have hzeros : ∀ count, valueOf (List.replicate count '0' ++ Nat.toDigits 10 factor) exponent =
        valueOf (Nat.toDigits 10 factor) exponent := by
      intro count
      rw [valueOf, ofDigitChars_zeros]
      rfl
    have hdigits : ∀ count, ∀ c ∈ List.replicate count '0' ++ Nat.toDigits 10 factor,
        c.isDigit = true := fun count => digits_append (digits_replicate _) isDigit_toDigits
    rw [← hzeros ((-exponent).toNat + 1 - (Nat.toDigits 10 factor).length)]
    have hlength : (-exponent).toNat < (List.replicate
        ((-exponent).toNat + 1 - (Nat.toDigits 10 factor).length) '0' ++
          Nat.toDigits 10 factor).length := by
      rw [List.length_append, List.length_replicate]
      omega
    have hpadded := hdigits ((-exponent).toNat + 1 - (Nat.toDigits 10 factor).length)
    simp only [digits_toString, String.toList_ofList]
    generalize List.replicate ((-exponent).toNat + 1 - (Nat.toDigits 10 factor).length) '0' ++
      Nat.toDigits 10 factor = padded at *
    have hscale : exponent = -((padded.drop (padded.length - (-exponent).toNat)).length : Int) := by
      rw [List.length_drop]
      omega
    have hstands : Stands (padded.take (padded.length - (-exponent).toNat) ++
        '.' :: padded.drop (padded.length - (-exponent).toNat)) _ :=
      .fractional (by
          intro hnil
          have hempty := congrArg List.length hnil
          rw [List.length_take, List.length_nil] at hempty
          omega)
        (fun c hc => hpadded c (List.mem_of_mem_take hc))
        fun c hc => hpadded c (List.mem_of_mem_drop hc)
    rw [List.take_append_drop, ← hscale] at hstands
    exact hstands

/-- An unsigned text begins with a digit and consists of digits and points. -/
theorem Stands.chars {text : List Char} {value : ℚ} (h : Stands text value) :
    (∃ c rest, text = c :: rest ∧ c.isDigit = true) ∧
      ∀ c ∈ text, c.isDigit = true ∨ c = '.' := by
  have hhead : ∀ digits : List Char, digits ≠ [] → (∀ c ∈ digits, c.isDigit = true) → ∀ rest,
      ∃ c others, digits ++ rest = c :: others ∧ c.isDigit = true := by
    intro digits hne hdigits rest
    match digits, hne with
    | c :: others, _ => exact ⟨c, others ++ rest, rfl, hdigits c List.mem_cons_self⟩
  cases h with
  | integral hne hdigits =>
    refine ⟨?_, fun c hc => .inl (hdigits c hc)⟩
    have hself := hhead text hne hdigits []
    rwa [List.append_nil] at hself
  | fractional hne hwhole hfraction =>
    refine ⟨hhead _ hne hwhole _, fun c hc => ?_⟩
    rcases List.mem_append.mp hc with hc | hc
    · exact .inl (hwhole c hc)
    · rcases List.mem_cons.mp hc with rfl | hc
      · exact .inr rfl
      · exact .inl (hfraction c hc)

/-! ### Signed texts -/

/-- A sign and an unsigned text. -/
def SignedText (text : List Char) (negative : Bool) (value : ℚ) : Prop :=
  ∃ unsigned, text = minus negative ++ unsigned ∧ Stands unsigned value

theorem SignedText.unique {text : List Char} {negative negative' : Bool} {value value' : ℚ}
    (h : SignedText text negative value) (h' : SignedText text negative' value') :
    negative = negative' ∧ value = value' := by
  obtain ⟨unsigned, htext, hstands⟩ := h
  obtain ⟨unsigned', htext', hstands'⟩ := h'
  have hhead : ∀ {unsigned : List Char} {value : ℚ}, Stands unsigned value →
      unsigned.head? ≠ some '-' := by
    intro unsigned value hstands
    obtain ⟨⟨c, rest, rfl, hdigit⟩, -⟩ := hstands.chars
    rintro hminus
    rw [Option.some.inj hminus] at hdigit
    exact absurd hdigit (by decide)
  have hsplit := splitMinus_minus negative (hhead hstands)
  rw [← htext, htext', splitMinus_minus negative' (hhead hstands')] at hsplit
  obtain ⟨hnegative, hunsigned⟩ := Prod.mk.inj hsplit
  exact ⟨hnegative.symm, hstands.unique hstands' hunsigned.symm⟩

/-- The characters of a printed number. -/
def isDecimalChar (c : Char) : Bool := c.isDigit || c == '-' || c == '.'

theorem SignedText.chars {text : List Char} {negative : Bool} {value : ℚ}
    (h : SignedText text negative value) :
    (∃ c rest, text = c :: rest ∧ (c.isDigit = true ∨ c = '-')) ∧
      ∀ c ∈ text, isDecimalChar c = true := by
  obtain ⟨unsigned, rfl, hstands⟩ := h
  obtain ⟨⟨c, rest, hunsigned, hdigit⟩, hchars⟩ := hstands.chars
  have hdecimal : ∀ c ∈ unsigned, isDecimalChar c = true := by
    intro c hc
    rcases hchars c hc with h | rfl
    · simp [isDecimalChar, h]
    · rfl
  cases negative with
  | true =>
    refine ⟨⟨'-', unsigned, rfl, .inr rfl⟩, fun c hc => ?_⟩
    rcases List.mem_cons.mp hc with rfl | hc
    · rfl
    · exact hdecimal c hc
  | false => exact ⟨⟨c, rest, hunsigned, .inl hdigit⟩, hdecimal⟩

theorem digits_toString_int (n : Int) :
    (toString n).toList = minus (decide (n < 0)) ++ Nat.toDigits 10 n.natAbs := by
  cases n with
  | ofNat n =>
    have hnonneg : ¬ Int.ofNat n < 0 := Int.not_lt.mpr (Int.natCast_nonneg n)
    rw [decide_eq_false hnonneg]
    exact digits_toString n
  | negSucc n =>
    rw [decide_eq_true (Int.negSucc_lt_zero n)]
    show ("-" ++ toString (n + 1)).toList = _
    rw [String.toList_append, digits_toString]
    rfl

theorem stands_digits (n : Nat) : Stands (Nat.toDigits 10 n) n := by
  have hstands : Stands (Nat.toDigits 10 n) _ := .integral Nat.toDigits_ne_nil isDigit_toDigits
  rwa [valueOf, Nat.ofDigitChars_ten_toDigits, zpow_zero, mul_one] at hstands

theorem signedText_int (n : Int) : SignedText (toString n).toList (decide (n < 0)) n.natAbs :=
  ⟨_, digits_toString_int n, stands_digits _⟩

/-! ### Printed floats -/

section Printed

variable {x y : FiniteF64}

theorem text_displayFinite (x : FiniteF64) (text : String) :
    ((if x.sign = 0 then "" else "-") ++ text).toList =
      minus (decide (x.sign ≠ 0)) ++ text.toList := by
  by_cases hsign : x.sign = 0
  · simp [hsign, minus]
  · simp [hsign, minus]

theorem displayFinite_zero (h : x.magnitude = 0) :
    (displayFinite x).toList = minus (decide (x.sign ≠ 0)) ++ ['0'] := by
  rw [displayFinite, if_pos h]
  exact text_displayFinite x "0"

theorem displayFinite_pos {factor : Nat} {exponent : Int} (h : 0 < x.magnitude)
    (hfound : shortestDecimal (roundingInterval x) exponentCount largestExponent =
      some (factor, exponent)) : (displayFinite x).toList =
        minus (decide (x.sign ≠ 0)) ++ (positional factor exponent).toList := by
  rw [displayFinite, if_neg (Nat.ne_of_gt h), hfound]
  exact text_displayFinite x _

/-- A float is printed with its sign and a decimal that is rounded to it. -/
theorem signedText_displayFinite (x : FiniteF64) :
    ∃ value, SignedText (displayFinite x).toList (decide (x.sign ≠ 0)) value ∧
      (x.magnitude = 0 → value = 0) ∧
      (0 < x.magnitude → Inside (roundingInterval x) (value * 2 ^ 1076)) := by
  rcases Nat.eq_zero_or_pos x.magnitude with hzero | hpos
  · have hstands := stands_digits 0
    rw [Nat.cast_zero] at hstands
    exact ⟨0, ⟨_, displayFinite_zero hzero, hstands⟩, fun _ => rfl, fun h => by omega⟩
  · obtain ⟨factor, exponent, hfound, hinside⟩ := exists_shortestDecimal hpos
    exact ⟨_, ⟨_, displayFinite_pos hpos hfound, stands_positional factor exponent⟩,
      fun h => by omega, fun _ => hinside⟩

theorem displayFinite_injective (h : displayFinite x = displayFinite y) : x = y := by
  obtain ⟨value, hx, hxzero, hxpos⟩ := signedText_displayFinite x
  obtain ⟨value', hy, hyzero, hypos⟩ := signedText_displayFinite y
  rw [← h] at hy
  obtain ⟨hsign, rfl⟩ := hx.unique hy
  have hpositive : ∀ {z : FiniteF64}, 0 < z.magnitude →
      Inside (roundingInterval z) (value * 2 ^ 1076) → value ≠ 0 := by
    rintro z hz hinside rfl
    have hlow := hinside.bounds.1
    rw [zero_mul] at hlow
    exact absurd (interval_bounds hz).1 (Nat.not_lt.mpr (by exact_mod_cast hlow))
  refine FloatBits.eq_of_sign_magnitude ?_ ?_
  · have hxlt := FloatBits.sign_lt x
    have hylt := FloatBits.sign_lt y
    have hiff := decide_eq_decide.mp hsign
    omega
  · rcases Nat.eq_zero_or_pos x.magnitude with hzero | hpos
    · rcases Nat.eq_zero_or_pos y.magnitude with hzero' | hpos'
      · rw [hzero, hzero']
      · exact absurd (hxzero hzero) (hpositive hpos' (hypos hpos'))
    · rcases Nat.eq_zero_or_pos y.magnitude with hzero' | hpos'
      · exact absurd (hyzero hzero') (hpositive hpos (hxpos hpos))
      · exact magnitude_eq_of_inside (hxpos hpos) (hypos hpos')

/-! ### Integers -/

/-- The integer that a float is printed as, when it is printed as one. -/
def printedInteger (x : FiniteF64) : Option Int :=
  if x.magnitude = 0 then if x.sign = 0 then some 0 else none
  else match shortestDecimal (roundingInterval x) exponentCount largestExponent with
    | some (factor, exponent) =>
        if 0 ≤ exponent then
          some (signed (decide (x.sign ≠ 0)) (factor * 10 ^ exponent.toNat))
        else none
    | none => none

theorem toDigits_mul_ten_pow {factor : Nat} (h : 0 < factor) (count : Nat) :
    Nat.toDigits 10 factor ++ List.replicate count '0' = Nat.toDigits 10 (factor * 10 ^ count) := by
  have hprint := Decimal.toDigits_ofDigitChars
    (digits_append (@isDigit_toDigits factor) (digits_replicate count)) (by
      rw [List.head?_append_of_ne_nil _ Nat.toDigits_ne_nil]
      exact Decimal.head_toDigits h) (by simp [Nat.toDigits_ne_nil])
  rw [← hprint.1, Nat.ofDigitChars_append, Nat.ofDigitChars_replicate_zero,
    Nat.ofDigitChars_ten_toDigits, Nat.mul_comm]

theorem signed_natAbs (n : Int) : signed (decide (n < 0)) n.natAbs = n := by
  by_cases h : n < 0
  · simp only [signed, h, decide_true, if_true]
    omega
  · simp only [signed, h, decide_false, Bool.false_eq_true, if_false]
    omega

theorem toString_int_injective {n m : Int} (h : toString n = toString m) : n = m := by
  have hn := signedText_int n
  rw [h] at hn
  obtain ⟨hsign, hvalue⟩ := hn.unique (signedText_int m)
  rw [← signed_natAbs n, ← signed_natAbs m, hsign, Nat.cast_injective hvalue]

theorem toString_signed (negative : Bool) {n : Nat} (h : 0 < n) :
    (toString (signed negative n)).toList = minus negative ++ Nat.toDigits 10 n := by
  rw [digits_toString_int]
  cases negative with
  | true =>
    have hneg : signed true n < 0 := by
      simp [signed]
      omega
    rw [decide_eq_true hneg]
    simp [signed]
  | false =>
    have hnonneg : ¬ signed false n < 0 := by
      simp [signed]
    rw [decide_eq_false hnonneg]
    simp [signed]

/-- A positive factor: the printed decimal is not zero. -/
theorem factor_pos (h : 0 < x.magnitude) {factor : Nat} {exponent : Int}
    (hfound : shortestDecimal (roundingInterval x) exponentCount largestExponent =
      some (factor, exponent)) : 0 < factor := by
  refine Nat.pos_of_ne_zero ?_
  rintro rfl
  have hlow := (inside_of_shortestDecimal hfound).bounds.1
  rw [pointOf, Nat.cast_zero, zero_mul, zero_mul] at hlow
  exact absurd (interval_bounds h).1 (Nat.not_lt.mpr (by exact_mod_cast hlow))

theorem point_mem_fraction {factor : Nat} {exponent : Int} (h : exponent < 0) :
    '.' ∈ (positional factor exponent).toList := by
  rw [positional, if_neg (Int.not_le.mpr h)]
  simp

/-- An integer and a float have one text exactly when the float is printed as that integer. -/
theorem toString_eq_displayFinite_iff {n : Int} :
    toString n = displayFinite x ↔ printedInteger x = some n := by
  rw [← String.toList_inj]
  unfold printedInteger
  rcases Nat.eq_zero_or_pos x.magnitude with hzero | hpos
  · rw [if_pos hzero]
    constructor
    · intro h
      have hsigned := signedText_int n
      rw [h, displayFinite_zero hzero] at hsigned
      have hstands : SignedText (minus (decide (x.sign ≠ 0)) ++ ['0']) _ _ :=
        ⟨_, rfl, stands_digits 0⟩
      obtain ⟨hsign, hvalue⟩ := hsigned.unique hstands
      have hn : n = 0 := Int.natAbs_eq_zero.mp (by exact_mod_cast hvalue)
      subst hn
      rw [if_pos (by simpa using hsign)]
    · intro h
      split at h
      · rename_i hsign
        obtain rfl := Option.some.inj h
        rw [displayFinite_zero hzero, hsign]
        rfl
      · cases h
  · obtain ⟨factor, exponent, hfound, -⟩ := exists_shortestDecimal hpos
    rw [if_neg (Nat.ne_of_gt hpos), hfound, displayFinite_pos hpos hfound]
    rcases lt_or_ge exponent 0 with hneg | hnonneg
    · simp only [Int.not_le.mpr hneg, if_false, reduceCtorEq, iff_false]
      intro h
      have hpoint : '.' ∈ (toString n).toList := by
        rw [h]
        exact List.mem_append_right _ (point_mem_fraction hneg)
      rw [digits_toString_int, List.mem_append] at hpoint
      rcases hpoint with hminus | hdigit
      · unfold minus at hminus
        split at hminus
        · simp at hminus
        · cases hminus
      · exact absurd rfl (point_not_mem isDigit_toDigits '.' hdigit)
    · have hfactor := factor_pos hpos hfound
      have hproduct : 0 < factor * 10 ^ exponent.toNat := by positivity
      have htext : (positional factor exponent).toList =
          Nat.toDigits 10 (factor * 10 ^ exponent.toNat) := by
        rw [positional, if_pos hnonneg, String.toList_ofList, digits_toString,
          toDigits_mul_ten_pow hfactor]
      rw [htext, ← toString_signed _ hproduct]
      simp only [ge_iff_le.mp hnonneg, if_true, Option.some.injEq]
      rw [String.toList_inj]
      exact ⟨fun h => (toString_int_injective h).symm, fun h => by rw [h]⟩

end Printed

end SpecGate.ShortestDecimals

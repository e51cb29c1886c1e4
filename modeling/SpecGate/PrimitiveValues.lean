import SpecGate.LinkedValues

/-!
The primitive values of the trace value encoding and their validator.
Each primitive type admits one wire form and range; the validator accepts exactly
these, and the canonical value determines the wire value.
-/
namespace SpecGate.PrimitiveValues

open Values RegistryModel Validation CanonicalOrder LinkedValues

/-- A finite binary64 number is a binary32 number: a 24-bit significand times a power
of two in the binary32 range, here counted in units of `2 ^ (-1074)`. -/
def RepresentableF32 (x : FiniteF64) : Prop :=
  ∃ significand shift, significand < 2 ^ 24 ∧ 925 ≤ shift ∧ shift ≤ 1178 ∧
    x.magnitude = significand * 2 ^ shift

/-- The values of each primitive type. -/
inductive PrimitiveValue : String → AnyValue → Prop
  | unit : PrimitiveValue "unit" (.kvList [])
  | string (text : String) : PrimitiveValue "string" (.string text)
  | bool (value : Bool) : PrimitiveValue "bool" (.bool value)
  | i32 {value : Int64} (hlow : -2 ^ 31 ≤ value.toInt) (hhigh : value.toInt < 2 ^ 31) :
      PrimitiveValue "i32" (.int value)
  | i64 (value : Int64) : PrimitiveValue "i64" (.int value)
  | u32 {value : Int64} (hlow : 0 ≤ value.toInt) (hhigh : value.toInt < 2 ^ 32) :
      PrimitiveValue "u32" (.int value)
  | u64 {value : Nat} (hvalue : value < 2 ^ 64) : PrimitiveValue "u64" (.string (toString value))
  | f32 {value : FiniteF64} (hvalue : RepresentableF32 value) :
      PrimitiveValue "f32" (.double (.finite value))
  | f32Symbol {value : F64Value} (hsymbol : ∀ x, value ≠ .finite x) :
      PrimitiveValue "f32" (.double value)
  | f64 (value : F64Value) : PrimitiveValue "f64" (.double value)
  | bytes (value : List UInt8) : PrimitiveValue "bytes" (.bytes value)

theorem log2_lt_of_lt {m k : Nat} (h : m < 2 ^ k) (hk : 0 < k) : m.log2 < k := by
  by_cases hzero : m = 0
  · subst hzero
    simpa using hk
  · exact (Nat.log2_lt hzero).mpr h

/-- Narrowing keeps a magnitude exactly when binary32 can represent it. -/
theorem narrowToF32_eq_self_iff {m : Nat} : narrowToF32 m = some m ↔
    ∃ significand shift, significand < 2 ^ 24 ∧ 925 ≤ shift ∧ shift ≤ 1178 ∧
      m = significand * 2 ^ shift := by
  have hpow : ∀ k : Nat, 0 < 2 ^ k := fun k => Nat.two_pow_pos k
  have hoverflow : overflowExponent = 1202 := rfl
  constructor
  · intro h
    set shift := max 925 (m.log2 - 23) with hshift
    set quotient := m / 2 ^ shift with hquotient
    have hround : roundedMultiple m shift * 2 ^ shift = m := by
      rw [narrowToF32] at h
      split at h
      · exact Option.some.inj h
      · cases h
    have hlimit : m < 2 ^ overflowExponent := by
      rw [narrowToF32] at h
      split at h
      · rwa [← hshift, hround] at ‹_ < 2 ^ overflowExponent›
      · cases h
    have hdvd : 2 ^ shift ∣ m := Dvd.intro_left _ hround
    have hexact : m = quotient * 2 ^ shift := (Nat.div_mul_cancel hdvd).symm
    have hlog : m.log2 < overflowExponent := log2_lt_of_lt hlimit (by omega)
    refine ⟨quotient, shift, ?_, le_max_left _ _, by omega, hexact⟩
    have hbound : m < 2 ^ (m.log2 + 1) := Nat.lt_log2_self
    have hmono : 2 ^ (m.log2 + 1) ≤ 2 ^ (24 + shift) :=
      Nat.pow_le_pow_right (by decide) (by omega)
    rw [hquotient, Nat.div_lt_iff_lt_mul (hpow _), ← pow_add]
    omega
  · rintro ⟨significand, exponent, hsignificand, hlow, hhigh, rfl⟩
    rw [narrowToF32]
    set m := significand * 2 ^ exponent with hm
    set shift := max 925 (m.log2 - 23) with hshift
    have hlt : m < 2 ^ (24 + exponent) := by
      rw [pow_add, hm]
      exact Nat.mul_lt_mul_of_pos_right hsignificand (hpow _)
    have hlog : m.log2 < 24 + exponent := log2_lt_of_lt hlt (by omega)
    have hdvd : 2 ^ shift ∣ m :=
      Dvd.dvd.mul_left (Nat.pow_dvd_pow 2 (by omega)) significand
    have hremainder : m % 2 ^ shift = 0 := Nat.mod_eq_zero_of_dvd hdvd
    have hlimit : m < 2 ^ overflowExponent :=
      hlt.trans_le (Nat.pow_le_pow_right (by decide) (by omega))
    have hround : roundedMultiple m shift * 2 ^ shift = m := by
      rw [roundedMultiple, hremainder, if_pos (by simp)]
      exact Nat.div_mul_cancel hdvd
    rw [hround, if_pos hlimit]

theorem f32Exact_iff {x : FiniteF64} : f32Exact x = true ↔ RepresentableF32 x := by
  rw [f32Exact, beq_iff_eq]
  exact narrowToF32_eq_self_iff

theorem fitsI32_iff {value : Int64} :
    fitsI32 value = true ↔ -2 ^ 31 ≤ value.toInt ∧ value.toInt < 2 ^ 31 := by
  rw [fitsI32, Bool.and_eq_true, decide_eq_true_iff, decide_eq_true_iff]

theorem fitsU32_iff {value : Int64} :
    fitsU32 value = true ↔ 0 ≤ value.toInt ∧ value.toInt < 2 ^ 32 := by
  rw [fitsU32, Bool.and_eq_true, decide_eq_true_iff, decide_eq_true_iff]

theorem canonicalDecimal_parse_iff {text : String} :
    canonicalDecimal text = true ∧ (parseU64 text).isNone = false ↔
      ∃ value, value < 2 ^ 64 ∧ text = toString value := by
  constructor
  · rintro ⟨hcanonical, hparse⟩
    cases hvalue : parseU64 text with
    | none => simp [hvalue] at hparse
    | some value =>
      obtain ⟨htext, hlt⟩ := Decimal.eq_toString_of_parse hcanonical hvalue
      exact ⟨value, hlt, htext⟩
  · rintro ⟨value, hlt, rfl⟩
    obtain ⟨hcanonical, hparse⟩ := Decimal.parse_toString hlt
    exact ⟨hcanonical, by rw [parseU64, hparse]; rfl⟩

theorem expectedWire_cases {primitive expected : String}
    (h : expectedWire primitive = some expected) :
    (primitive = "unit" ∧ expected = "kvlistValue") ∨
    ((primitive = "string" ∨ primitive = "u64") ∧ expected = "stringValue") ∨
    (primitive = "bool" ∧ expected = "boolValue") ∨
    ((primitive = "i32" ∨ primitive = "i64" ∨ primitive = "u32") ∧ expected = "intValue") ∨
    ((primitive = "f32" ∨ primitive = "f64") ∧ expected = "doubleValue") ∨
    (primitive = "bytes" ∧ expected = "bytesValue") := by
  rw [expectedWire] at h
  split_ifs at h with hunit hstring hbool hint hdouble hbytes
  all_goals obtain rfl := Option.some.inj h
  · exact .inl ⟨hunit, rfl⟩
  · exact .inr (.inl ⟨hstring, rfl⟩)
  · exact .inr (.inr (.inl ⟨hbool, rfl⟩))
  · exact .inr (.inr (.inr (.inl ⟨hint, rfl⟩)))
  · exact .inr (.inr (.inr (.inr (.inl ⟨hdouble, rfl⟩))))
  · exact .inr (.inr (.inr (.inr (.inr ⟨hbytes, rfl⟩))))

/-- The wire form of an accepted value decides which constructor it has. -/
theorem validatePrimitive_cases {value : AnyValue} {primitive location : String}
    (h : validatePrimitive value primitive location = []) :
    ∃ expected, expectedWire primitive = some expected ∧ wireMatches expected value = true ∧
      validateRange value primitive location = [] := by
  rw [validatePrimitive] at h
  cases hexpected : expectedWire primitive with
  | none => simp [hexpected] at h
  | some expected =>
    cases hwire : wireMatches expected value with
    | false => simp [hexpected, hwire] at h
    | true => exact ⟨expected, rfl, hwire, by simpa [hexpected, hwire] using h⟩

theorem primitiveValue_of_validate {value : AnyValue} {primitive location : String}
    (h : validatePrimitive value primitive location = []) : PrimitiveValue primitive value := by
  obtain ⟨expected, hexpected, hwire, hrange⟩ := validatePrimitive_cases h
  rcases expectedWire_cases hexpected with ⟨rfl, rfl⟩ | ⟨hname, rfl⟩ | ⟨rfl, rfl⟩ | ⟨hname, rfl⟩ |
    ⟨hname, rfl⟩ | ⟨rfl, rfl⟩
  all_goals cases value <;> try (simp [wireMatches] at hwire; done)
  case inl.kvList entries =>
    have hempty : entries = [] := by simpa [validateRange] using hrange
    subst hempty
    exact .unit
  case inr.inl.string text =>
    rcases hname with rfl | rfl
    · exact .string text
    · rw [validateRange, if_pos rfl] at hrange
      have hparse : canonicalDecimal text = true ∧ (parseU64 text).isNone = false := by
        cases hspelling : canonicalDecimal text with
        | false => simp [hspelling] at hrange
        | true =>
          cases hlimit : (parseU64 text).isNone with
          | true => simp [hspelling, hlimit] at hrange
          | false => exact ⟨rfl, rfl⟩
      obtain ⟨number, hlt, rfl⟩ := canonicalDecimal_parse_iff.mp hparse
      exact .u64 hlt
  case inr.inr.inl.bool flag => exact .bool flag
  case inr.inr.inr.inl.int number =>
    rcases hname with rfl | rfl | rfl
    · have hfits : fitsI32 number = true := by simpa [validateRange] using hrange
      exact .i32 (fitsI32_iff.mp hfits).1 (fitsI32_iff.mp hfits).2
    · exact .i64 number
    · have hfits : fitsU32 number = true := by simpa [validateRange] using hrange
      exact .u32 (fitsU32_iff.mp hfits).1 (fitsU32_iff.mp hfits).2
  case inr.inr.inr.inr.inl.double number =>
    rcases hname with rfl | rfl
    · cases number with
      | finite x =>
        have hexact : f32Exact x = true := by simpa [validateRange] using hrange
        exact .f32 (f32Exact_iff.mp hexact)
      | _ => exact .f32Symbol (by simp)
    · exact .f64 number
  case inr.inr.inr.inr.inr.bytes content => exact .bytes content

theorem validate_of_primitiveValue {value : AnyValue} {primitive location : String}
    (h : PrimitiveValue primitive value) : validatePrimitive value primitive location = [] := by
  cases h with
  | unit => simp [validatePrimitive, expectedWire, wireMatches, validateRange]
  | string text => simp [validatePrimitive, expectedWire, wireMatches, validateRange]
  | bool value => simp [validatePrimitive, expectedWire, wireMatches, validateRange]
  | i32 hlow hhigh =>
    have hfits := fitsI32_iff.mpr ⟨hlow, hhigh⟩
    simp [validatePrimitive, expectedWire, wireMatches, validateRange, hfits]
  | i64 value => simp [validatePrimitive, expectedWire, wireMatches, validateRange]
  | u32 hlow hhigh =>
    have hfits := fitsU32_iff.mpr ⟨hlow, hhigh⟩
    simp [validatePrimitive, expectedWire, wireMatches, validateRange, hfits]
  | @u64 number hvalue =>
    obtain ⟨hcanonical, hparse⟩ := canonicalDecimal_parse_iff.mpr ⟨number, hvalue, rfl⟩
    rw [validatePrimitive]
    simp only [expectedWire, String.reduceEq, if_false, or_true, if_true, wireMatches,
      beq_self_eq_true, Bool.not_true, Bool.false_eq_true, validateRange, hcanonical, hparse,
      Bool.true_eq_false]
  | f32 hvalue =>
    have hexact := f32Exact_iff.mpr hvalue
    simp [validatePrimitive, expectedWire, wireMatches, validateRange, hexact]
  | @f32Symbol value hsymbol =>
    cases value with
    | finite x => exact absurd rfl (hsymbol x)
    | _ => simp [validatePrimitive, expectedWire, wireMatches, validateRange]
  | f64 value =>
    cases value <;> simp [validatePrimitive, expectedWire, wireMatches, validateRange]
  | bytes value => simp [validatePrimitive, expectedWire, wireMatches, validateRange]

/-- The primitive validator is exact. -/
theorem validatePrimitive_eq_nil {value : AnyValue} {primitive location : String} :
    validatePrimitive value primitive location = [] ↔ PrimitiveValue primitive value :=
  ⟨primitiveValue_of_validate, validate_of_primitiveValue⟩

/-- A primitive value has a canonical value, which no other value of the type shares. -/
theorem PrimitiveValue.canonical {primitive : String} {value : AnyValue}
    (h : PrimitiveValue primitive value) :
    ∃ canonical, canonicalPrimitive value primitive = some canonical := by
  cases h with
  | u64 hvalue =>
    rw [canonicalPrimitive, if_neg (by decide), if_pos rfl, parseU64,
      (Decimal.parse_toString hvalue).2]
    exact ⟨_, rfl⟩
  | _ => simp [canonicalPrimitive]

/-- The wire forms that have a given canonical primitive value. -/
theorem canonicalPrimitive_cases {value : AnyValue} {primitive : String}
    {canonical : CanonicalValue} (h : canonicalPrimitive value primitive = some canonical) :
    (value = .kvList [] ∧ canonical = .unit) ∨
    (∃ text, value = .string text ∧ canonical = .string text) ∨
    (∃ (text : String) (number : Nat), value = .string text ∧ primitive = "u64" ∧
      parseU64 text = some number ∧ canonical = .integer (number : Int)) ∨
    (∃ flag, value = .bool flag ∧ canonical = .bool flag) ∨
    (∃ number, value = .int number ∧ primitive ≠ "u64" ∧ canonical = .integer number.toInt) ∨
    (∃ number, value = .double number ∧ canonical = .float number) ∨
    (∃ content, value = .bytes content ∧ canonical = .bytes content) := by
  cases value with
  | kvList entries =>
    rw [canonicalPrimitive] at h
    split_ifs at h with hunit
    exact .inl ⟨congrArg _ hunit.2, (Option.some.inj h).symm⟩
  | string text =>
    rw [canonicalPrimitive] at h
    split_ifs at h with hstring hu64
    · exact .inr (.inl ⟨text, rfl, (Option.some.inj h).symm⟩)
    · obtain ⟨number, hparse, hnumber⟩ := Option.map_eq_some_iff.mp h
      exact .inr (.inr (.inl ⟨text, number, rfl, hu64, hparse, hnumber.symm⟩))
  | bool flag =>
    rw [canonicalPrimitive] at h
    split_ifs at h
    exact .inr (.inr (.inr (.inl ⟨flag, rfl, (Option.some.inj h).symm⟩)))
  | int number =>
    rw [canonicalPrimitive] at h
    split_ifs at h with hname
    refine .inr (.inr (.inr (.inr (.inl ⟨number, rfl, ?_, (Option.some.inj h).symm⟩))))
    rintro rfl
    exact absurd hname (by decide)
  | double number =>
    rw [canonicalPrimitive] at h
    split_ifs at h
    exact .inr (.inr (.inr (.inr (.inr (.inl ⟨number, rfl, (Option.some.inj h).symm⟩)))))
  | bytes content =>
    rw [canonicalPrimitive] at h
    split_ifs at h
    exact .inr (.inr (.inr (.inr (.inr (.inr ⟨content, rfl, (Option.some.inj h).symm⟩)))))
  | array values => cases h

theorem PrimitiveValue.u64_text {primitive text : String} (hname : primitive = "u64")
    (h : PrimitiveValue primitive (.string text)) :
    ∃ number, number < 2 ^ 64 ∧ text = toString number := by
  cases h with
  | string => simp at hname
  | u64 hvalue => exact ⟨_, hvalue, rfl⟩

/-- The canonical value determines the wire value. -/
theorem PrimitiveValue.eq_of_canonical {primitive : String} {left right : AnyValue}
    (hleft : PrimitiveValue primitive left) (hright : PrimitiveValue primitive right)
    (h : canonicalPrimitive left primitive = canonicalPrimitive right primitive) :
    left = right := by
  obtain ⟨canonical, hcanonical⟩ := hleft.canonical
  have hother := h.symm.trans hcanonical
  rcases canonicalPrimitive_cases hcanonical with ⟨rfl, rfl⟩ | ⟨text, rfl, rfl⟩ |
    ⟨text, number, rfl, hname, hparse, rfl⟩ | ⟨flag, rfl, rfl⟩ | ⟨number, rfl, hname, rfl⟩ |
    ⟨number, rfl, rfl⟩ | ⟨content, rfl, rfl⟩
  all_goals
    rcases canonicalPrimitive_cases hother with ⟨rfl, hvalue⟩ | ⟨text', rfl, hvalue⟩ |
      ⟨text', number', rfl, hname', hparse', hvalue⟩ | ⟨flag', rfl, hvalue⟩ |
      ⟨number', rfl, hname', hvalue⟩ | ⟨number', rfl, hvalue⟩ | ⟨content', rfl, hvalue⟩
    all_goals try (cases hvalue; done)
  case inl.inl => rfl
  case inr.inl.inr.inl => rw [CanonicalValue.string.inj hvalue]
  case inr.inr.inl.inr.inr.inl =>
    obtain ⟨left, hlt, rfl⟩ := hleft.u64_text hname
    obtain ⟨right, hlt', rfl⟩ := hright.u64_text hname
    rw [parseU64, (Decimal.parse_toString hlt).2] at hparse
    rw [parseU64, (Decimal.parse_toString hlt').2] at hparse'
    have hnumber : (number : Int) = number' := CanonicalValue.integer.inj hvalue
    rw [Option.some.inj hparse, Option.some.inj hparse', Int.ofNat_inj.mp hnumber]
  case inr.inr.inl.inr.inr.inr.inr.inl => exact absurd hname hname'
  case inr.inr.inr.inl.inr.inr.inr.inl => rw [CanonicalValue.bool.inj hvalue]
  case inr.inr.inr.inr.inl.inr.inr.inl => exact absurd hname' hname
  case inr.inr.inr.inr.inl.inr.inr.inr.inr.inl =>
    rw [Int64.toInt_inj.mp (CanonicalValue.integer.inj hvalue)]
  case inr.inr.inr.inr.inr.inl.inr.inr.inr.inr.inr.inl => rw [CanonicalValue.float.inj hvalue]
  case inr.inr.inr.inr.inr.inr.inr.inr.inr.inr.inr.inr => rw [CanonicalValue.bytes.inj hvalue]

end SpecGate.PrimitiveValues

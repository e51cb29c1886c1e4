import SpecGate.Decimal

/-!
Machine integers read from text: an optional sign, then decimal digits, accumulated
from the left within the bounds of the type. The first digit that cannot be taken
decides the failure.
-/
namespace SpecGate.IntegerText

inductive IntErrorKind where
  | empty
  | invalidDigit
  | posOverflow
  | negOverflow
  deriving DecidableEq

/-- The failure as it is displayed. -/
def IntErrorKind.text : IntErrorKind → String
  | empty => "cannot parse integer from empty string"
  | invalidDigit => "invalid digit found in string"
  | posOverflow => "number too large to fit in target type"
  | negOverflow => "number too small to fit in target type"

def digitValue (c : Char) : Int := (c.toNat - 48 : Nat)

/-- Take the digits of a number of the given sign, one by one. -/
def accumulate (low high : Int) (negative : Bool) (value : Int) :
    List Char → Except IntErrorKind Int
  | [] => .ok value
  | c :: rest =>
      if c.isDigit then
        let next := if negative then value * 10 - digitValue c else value * 10 + digitValue c
        if next < low then .error .negOverflow
        else if high < next then .error .posOverflow
        else accumulate low high negative next rest
      else .error .invalidDigit

/-- The number a text spells in the type with these bounds; a type without negative
numbers knows no minus sign. -/
def parseInteger (low high : Int) (text : String) : Except IntErrorKind Int :=
  match text.toList with
  | [] => .error .empty
  | ['+'] => .error .invalidDigit
  | ['-'] => .error .invalidDigit
  | '+' :: digits => accumulate low high false 0 digits
  | '-' :: digits =>
      if low < 0 then accumulate low high true 0 digits else .error .invalidDigit
  | digits => accumulate low high false 0 digits

def parseI64 (text : String) : Except IntErrorKind Int := parseInteger (-2 ^ 63) (2 ^ 63 - 1) text

def parseI128 (text : String) : Except IntErrorKind Int :=
  parseInteger (-2 ^ 127) (2 ^ 127 - 1) text

def parseU64 (text : String) : Except IntErrorKind Int := parseInteger 0 (2 ^ 64 - 1) text

/-! ### What a text spells -/

/-- A magnitude with its sign. -/
def signed (negative : Bool) (n : Nat) : Int := if negative then -(n : Int) else n

section Bounds

variable {low high : Int} {negative : Bool}

/-- Smaller magnitudes stay within the bounds. -/
theorem signed_bounds {n m : Nat} (hlow : low ≤ 0) (hhigh : 0 ≤ high) (hnm : n ≤ m)
    (hm : low ≤ signed negative m ∧ signed negative m ≤ high) :
    low ≤ signed negative n ∧ signed negative n ≤ high := by
  unfold signed at hm ⊢
  cases negative <;> simp only [if_true, if_false, Bool.false_eq_true] at hm ⊢ <;> omega

theorem le_ofDigitChars (digits : List Char) (n : Nat) : n ≤ Nat.ofDigitChars 10 digits n := by
  induction digits generalizing n with
  | nil => exact Nat.le_refl n
  | cons c rest ih =>
    rw [Nat.ofDigitChars_cons]
    exact Nat.le_trans (by omega) (ih _)

/-- A run of digits is taken exactly when its value lies within the bounds. -/
theorem accumulate_eq_ok (hlow : low ≤ 0) (hhigh : 0 ≤ high) {digits : List Char} {n : Nat}
    (hn : low ≤ signed negative n ∧ signed negative n ≤ high) {result : Int} :
    accumulate low high negative (signed negative n) digits = .ok result ↔
      (∀ c ∈ digits, c.isDigit = true) ∧ signed negative (Nat.ofDigitChars 10 digits n) = result ∧
        low ≤ result ∧ result ≤ high := by
  induction digits generalizing n with
  | nil =>
    rw [accumulate, Nat.ofDigitChars_nil, Except.ok.injEq]
    constructor
    · rintro rfl
      exact ⟨by simp, rfl, hn⟩
    · rintro ⟨-, h, -⟩
      exact h
  | cons c rest ih =>
    rw [accumulate, List.forall_mem_cons]
    by_cases hdigit : c.isDigit = true
    · have hnext : (if negative then signed negative n * 10 - digitValue c
          else signed negative n * 10 + digitValue c) =
            signed negative (10 * n + (c.toNat - '0'.toNat)) := by
        have hzero : '0'.toNat = 48 := rfl
        unfold signed digitValue
        cases negative <;> simp only [if_true, if_false, Bool.false_eq_true] <;> omega
      rw [if_pos hdigit, hnext, Nat.ofDigitChars_cons]
      dsimp only
      by_cases hbelow : signed negative (10 * n + (c.toNat - '0'.toNat)) < low
      · rw [if_pos hbelow]
        refine iff_of_false (by simp) ?_
        rintro ⟨-, rfl, hresult⟩
        have := signed_bounds hlow hhigh (le_ofDigitChars rest _) hresult
        omega
      · rw [if_neg hbelow]
        by_cases habove : high < signed negative (10 * n + (c.toNat - '0'.toNat))
        · rw [if_pos habove]
          refine iff_of_false (by simp) ?_
          rintro ⟨-, rfl, hresult⟩
          have := signed_bounds hlow hhigh (le_ofDigitChars rest _) hresult
          omega
        · rw [if_neg habove, ih ⟨by omega, by omega⟩]
          simp only [hdigit, true_and]
    · rw [if_neg hdigit]
      refine iff_of_false (by simp) ?_
      rintro ⟨⟨h, -⟩, -⟩
      exact hdigit h

end Bounds

/-- The digits of a text and whether a minus sign stands before them. -/
def splitSign : List Char → Bool × List Char
  | '+' :: digits => (false, digits)
  | '-' :: digits => (true, digits)
  | digits => (false, digits)

/-- A text is read as the number it spells, if that number lies within the bounds. -/
theorem parseInteger_eq_ok {low high : Int} (hlow : low ≤ 0) (hhigh : 0 ≤ high) {text : String}
    {result : Int} :
    parseInteger low high text = .ok result ↔
      ((splitSign text.toList).1 = true → low < 0) ∧ (splitSign text.toList).2 ≠ [] ∧
        (∀ c ∈ (splitSign text.toList).2, c.isDigit = true) ∧
          signed (splitSign text.toList).1 (Nat.ofDigitChars 10 (splitSign text.toList).2 0) =
            result ∧ low ≤ result ∧ result ≤ high := by
  have hzero : ∀ negative, signed negative 0 = 0 := by
    intro negative
    cases negative <;> rfl
  have htake : ∀ (negative : Bool) (digits : List Char),
      accumulate low high negative 0 digits = .ok result ↔
        (∀ c ∈ digits, c.isDigit = true) ∧
          signed negative (Nat.ofDigitChars 10 digits 0) = result ∧ low ≤ result ∧
            result ≤ high := by
    intro negative digits
    have h := @accumulate_eq_ok low high negative hlow hhigh digits 0
    rw [hzero] at h
    exact h ⟨hlow, hhigh⟩
  unfold parseInteger
  split
  · rename_i h
    simp [h, splitSign]
  · rename_i h
    simp [h, splitSign]
  · rename_i h
    simp [h, splitSign]
  · rename_i digits hne h
    rw [h, htake]
    have hdigits : digits ≠ [] := fun hnil => hne (by rw [hnil])
    simp [splitSign, hdigits]
  · rename_i digits hne h
    have hdigits : digits ≠ [] := fun hnil => hne (by rw [hnil])
    rw [h]
    by_cases hsigned : low < 0
    · rw [if_pos hsigned, htake]
      simp [splitSign, hdigits, hsigned]
    · rw [if_neg hsigned]
      simp [splitSign, hsigned]
  · rename_i hempty _ _ hplus hminus
    have hsplit : splitSign text.toList = (false, text.toList) := by
      unfold splitSign
      split
      · rename_i rest h
        exact absurd h (hplus rest)
      · rename_i rest h
        exact absurd h (hminus rest)
      · rfl
    rw [hsplit, htake]
    have hne : text.toList ≠ [] := hempty
    simp [-String.toList_eq_nil_iff, hne]

/-! ### Printed integers -/

theorem splitSign_of_digits {digits : List Char} (h : ∀ c ∈ digits, c.isDigit = true) :
    splitSign digits = (false, digits) := by
  cases digits with
  | nil => rfl
  | cons c rest =>
    have hdigit := h c List.mem_cons_self
    unfold splitSign
    split
    · rename_i heq
      rw [(List.cons.inj heq).1] at hdigit
      exact absurd hdigit (by decide)
    · rename_i heq
      rw [(List.cons.inj heq).1] at hdigit
      exact absurd hdigit (by decide)
    · rfl

theorem splitSign_toString (value : Int) :
    splitSign (toString value).toList = (decide (value < 0), Nat.toDigits 10 value.natAbs) := by
  cases value with
  | ofNat n =>
    have hlist : (toString (Int.ofNat n)).toList = Nat.toDigits 10 n := by
      change (toString n).toList = _
      rw [Nat.toString_eq_repr, Nat.toList_repr]
    rw [hlist, splitSign_of_digits fun c hc =>
      Nat.isDigit_of_mem_toDigits (by decide) (by decide) hc]
    have hnonneg : ¬Int.ofNat n < 0 := by
      have := Int.natCast_nonneg n
      simp only [Int.ofNat_eq_natCast]
      omega
    rw [decide_eq_false hnonneg]
    rfl
  | negSucc n =>
    have hlist : (toString (Int.negSucc n)).toList = '-' :: Nat.toDigits 10 (n + 1) := by
      change ("-" ++ toString (n + 1)).toList = _
      rw [String.toList_append, Nat.toString_eq_repr, Nat.toList_repr]
      rfl
    rw [hlist, decide_eq_true (Int.negSucc_lt_zero n)]
    rfl

/-- A printed integer is read back within every bounds that hold it. -/
theorem parseInteger_toString {low high value : Int} (hlow : low ≤ 0) (hhigh : 0 ≤ high)
    (hmin : low ≤ value) (hmax : value ≤ high) :
    parseInteger low high (toString value) = .ok value := by
  rw [parseInteger_eq_ok hlow hhigh, splitSign_toString]
  dsimp only
  refine ⟨fun h => ?_, Nat.toDigits_ne_nil, fun c hc =>
    Nat.isDigit_of_mem_toDigits (by decide) (by decide) hc, ?_, hmin, hmax⟩
  · have hneg := of_decide_eq_true h
    omega
  · rw [Nat.ofDigitChars_ten_toDigits]
    unfold signed
    by_cases hneg : value < 0
    · rw [decide_eq_true hneg, if_pos rfl]
      omega
    · rw [decide_eq_false hneg, if_neg Bool.false_ne_true]
      omega

end SpecGate.IntegerText

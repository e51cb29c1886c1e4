import Mathlib

/-!
Decimal spellings of natural numbers and their parsing.
Parsing follows the usual machine-integer rule: an optional plus sign, at least one
ASCII digit, and a value below the limit of the type. A spelling without sign and
without superfluous leading zero is the printed form of its value.
-/
namespace SpecGate.Decimal

def dropPlus : List Char → List Char
  | '+' :: rest => rest
  | chars => chars

/-- Parse an unsigned number below `limit`. -/
def parseUnsigned (limit : Nat) (text : String) : Option Nat :=
  let digits := dropPlus text.toList
  if digits.isEmpty || !digits.all Char.isDigit then none
  else
    let value := Nat.ofDigitChars 10 digits 0
    if value < limit then some value else none

/-- Zero, or digits that do not start with zero. The empty text passes this test. -/
def canonicalSpelling (text : String) : Bool :=
  text == "0" || (text.toList.head? != some '0' && text.toList.all Char.isDigit)

theorem dropPlus_of_digits {chars : List Char} (h : ∀ c ∈ chars, c.isDigit = true) :
    dropPlus chars = chars := by
  cases chars with
  | nil => rfl
  | cons c rest =>
    have hc : c.isDigit = true := h c List.mem_cons_self
    rw [dropPlus]
    intro _ heq
    obtain ⟨rfl, -⟩ := List.cons.inj heq
    cases hc

theorem parseUnsigned_eq_some {limit value : Nat} {text : String} :
    parseUnsigned limit text = some value ↔
      (dropPlus text.toList ≠ [] ∧ (dropPlus text.toList).all Char.isDigit = true) ∧
        Nat.ofDigitChars 10 (dropPlus text.toList) 0 = value ∧ value < limit := by
  rw [parseUnsigned]
  by_cases hshape : ((dropPlus text.toList).isEmpty ||
      !(dropPlus text.toList).all Char.isDigit) = true
  · rw [if_pos hshape]
    simp only [reduceCtorEq, false_iff, not_and]
    rintro ⟨hne, hall⟩
    simp [hall, hne] at hshape
  · rw [if_neg hshape]
    simp only [Bool.or_eq_true, List.isEmpty_iff, Bool.not_eq_true', not_or,
      Bool.not_eq_false] at hshape
    simp only [ne_eq, hshape.1, not_false_eq_true, hshape.2, and_self, true_and]
    by_cases hlt : Nat.ofDigitChars 10 (dropPlus text.toList) 0 < limit
    · rw [if_pos hlt, Option.some.injEq]
      exact ⟨fun h => ⟨h, h ▸ hlt⟩, fun h => h.1⟩
    · rw [if_neg hlt]
      simp only [reduceCtorEq, false_iff, not_and]
      rintro rfl
      exact hlt

theorem digit_bounds {c : Char} (h : c.isDigit = true) : 48 ≤ c.toNat ∧ c.toNat ≤ 57 := by
  exact Char.isDigit_iff_toNat.mp h

theorem digitChar_toNat_sub {c : Char} (h : c.isDigit = true) : (c.toNat - 48).digitChar = c := by
  have hbounds := digit_bounds h
  apply Char.toNat_inj.mp
  rw [Nat.toNat_digitChar_of_lt_ten (by omega)]
  omega

theorem toNat_sub_lt_ten {c : Char} (h : c.isDigit = true) : c.toNat - 48 < 10 := by
  have hbounds := digit_bounds h
  omega

theorem ofDigitChars_append_singleton (digits : List Char) (c : Char) :
    Nat.ofDigitChars 10 (digits ++ [c]) 0 = 10 * Nat.ofDigitChars 10 digits 0 + (c.toNat - 48) := by
  rw [Nat.ofDigitChars_append, Nat.ofDigitChars_cons, Nat.ofDigitChars_nil]
  rfl

/-- Digits that start with a nonzero digit are printed back from their value. -/
theorem toDigits_ofDigitChars {digits : List Char} (hdigits : ∀ c ∈ digits, c.isDigit = true)
    (hhead : digits.head? ≠ some '0') (hne : digits ≠ []) :
    Nat.toDigits 10 (Nat.ofDigitChars 10 digits 0) = digits ∧
      0 < Nat.ofDigitChars 10 digits 0 := by
  induction digits using List.reverseRecOn with
  | nil => exact absurd rfl hne
  | append_singleton rest c ih =>
    have hc : c.isDigit = true := hdigits c (by simp)
    have hten := toNat_sub_lt_ten hc
    rw [ofDigitChars_append_singleton]
    rcases List.eq_nil_or_concat rest with rfl | ⟨front, last, rfl⟩
    · have hzero : c.toNat - 48 ≠ 0 := by
        intro hzero
        have hchar := digitChar_toNat_sub hc
        rw [hzero] at hchar
        exact hhead (by simp [← hchar])
      refine ⟨?_, ?_⟩
      · simp only [Nat.ofDigitChars_nil, Nat.mul_zero, Nat.zero_add, List.nil_append]
        rw [Nat.toDigits_of_lt_base hten, digitChar_toNat_sub hc]
      · simp only [Nat.ofDigitChars_nil, Nat.mul_zero, Nat.zero_add]
        omega
    · rw [List.concat_eq_append] at ih hdigits hhead ⊢
      obtain ⟨hprint, hpos⟩ := ih (fun d hd => hdigits d (List.mem_append_left _ hd))
        (by
          intro h
          apply hhead
          rw [List.head?_append, h]
          rfl)
        (by simp)
      refine ⟨?_, by omega⟩
      rw [← Nat.toDigits_append_toDigits (by decide) hpos hten, hprint,
        Nat.toDigits_of_lt_base hten, digitChar_toNat_sub hc]

/-- A canonical spelling that parses is the printed form of the value it parses to. -/
theorem eq_toString_of_parse {limit value : Nat} {text : String}
    (hcanonical : canonicalSpelling text = true) (hparse : parseUnsigned limit text = some value) :
    text = toString value ∧ value < limit := by
  obtain ⟨⟨hne, hall⟩, rfl, hlt⟩ := parseUnsigned_eq_some.mp hparse
  refine ⟨?_, hlt⟩
  rw [canonicalSpelling, Bool.or_eq_true, Bool.and_eq_true] at hcanonical
  rcases hcanonical with hzero | ⟨hhead, hdigits⟩
  · obtain rfl : text = "0" := by simpa using hzero
    rfl
  · have hdigit : ∀ c ∈ text.toList, c.isDigit = true := List.all_eq_true.mp hdigits
    rw [dropPlus_of_digits hdigit] at hne ⊢
    obtain ⟨hprint, -⟩ := toDigits_ofDigitChars hdigit (by simpa using hhead) hne
    apply String.toList_injective
    rw [Nat.toString_eq_repr, Nat.toList_repr, hprint]

theorem head_toDigits {n : Nat} (h : 0 < n) : (Nat.toDigits 10 n).head? ≠ some '0' := by
  induction n using Nat.strongRecOn with
  | ind n ih =>
    by_cases hlt : n < 10
    · rw [Nat.toDigits_of_lt_base hlt]
      simp
      omega
    · rw [Nat.toDigits_of_base_le (by decide) (by omega), List.head?_append]
      have hstep := ih (n / 10) (by omega) (by omega)
      cases hdigits : (Nat.toDigits 10 (n / 10)).head? with
      | none => exact absurd (List.head?_eq_none_iff.mp hdigits) Nat.toDigits_ne_nil
      | some c =>
        rw [hdigits] at hstep
        simpa using hstep

/-- The printed form of a value below the limit is canonical and parses back. -/
theorem parse_toString {limit value : Nat} (h : value < limit) :
    canonicalSpelling (toString value) = true ∧
      parseUnsigned limit (toString value) = some value := by
  have hlist : (toString value).toList = Nat.toDigits 10 value := by
    rw [Nat.toString_eq_repr, Nat.toList_repr]
  have hdigit : ∀ c ∈ Nat.toDigits 10 value, c.isDigit = true := fun c hc =>
    Nat.isDigit_of_mem_toDigits (by decide) (by decide) hc
  constructor
  · rw [canonicalSpelling, Bool.or_eq_true, Bool.and_eq_true]
    by_cases hzero : value = 0
    · subst hzero
      exact .inl rfl
    · rw [hlist]
      have hhead := head_toDigits (Nat.pos_of_ne_zero hzero)
      exact .inr ⟨by simpa using hhead, List.all_eq_true.mpr hdigit⟩
  · rw [parseUnsigned_eq_some, hlist, dropPlus_of_digits hdigit]
    exact ⟨⟨Nat.toDigits_ne_nil, List.all_eq_true.mpr hdigit⟩, Nat.ofDigitChars_ten_toDigits, h⟩

end SpecGate.Decimal

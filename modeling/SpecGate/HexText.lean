import SpecGate.CaptureSession

/-!
Identities generated from a number: its hexadecimal digits, padded to the width of a span
identity. Reading the digits gives the number back, so different numbers have different
identities, and the identity of a nonzero number of 64 bits is valid.
-/
namespace SpecGate.HexText

open CaptureSession

def digitValue (c : Char) : Nat :=
  if c.toNat ≤ 57 then c.toNat - 48 else c.toNat - 87

def readHex (digits : List Char) : Nat := digits.foldl (fun value c => 16 * value + digitValue c) 0

theorem digitValue_digitChar {n : Nat} (h : n < 16) : digitValue n.digitChar = n := by
  revert n
  decide

theorem isLowerHex_digitChar {n : Nat} (h : n < 16) : isLowerHex n.digitChar = true := by
  revert n
  decide

theorem readHex_append_singleton (digits : List Char) (c : Char) :
    readHex (digits ++ [c]) = 16 * readHex digits + digitValue c := by
  simp [readHex, List.foldl_append]

theorem readHex_toDigits (n : Nat) : readHex (Nat.toDigits 16 n) = n := by
  induction n using Nat.strong_induction_on with
  | _ n ih =>
    rw [Nat.toDigits_eq_if (by omega)]
    split_ifs with hsmall
    · simp [readHex, digitValue_digitChar hsmall]
    · rw [readHex_append_singleton, ih (n / 16) (by omega), digitValue_digitChar (by omega)]
      omega

theorem isLowerHex_toDigits {n : Nat} {c : Char} (h : c ∈ Nat.toDigits 16 n) :
    isLowerHex c = true := by
  induction n using Nat.strong_induction_on with
  | _ n ih =>
    rw [Nat.toDigits_eq_if (by omega)] at h
    split_ifs at h with hsmall
    · rw [List.mem_singleton] at h
      subst h
      exact isLowerHex_digitChar hsmall
    · rcases List.mem_append.mp h with h | h
      · exact ih (n / 16) (by omega) h
      · rw [List.mem_singleton] at h
        subst h
        exact isLowerHex_digitChar (by omega)

theorem readHex_leftpad (width : Nat) (digits : List Char) :
    readHex (List.leftpad width '0' digits) = readHex digits := by
  unfold List.leftpad
  generalize width - digits.length = count
  induction count with
  | zero => rfl
  | succ count ih =>
    rw [List.replicate_succ, List.cons_append]
    exact ih

theorem readHex_zeros {digits : List Char} (h : digits.all (· == '0') = true) :
    readHex digits = 0 := by
  induction digits with
  | nil => rfl
  | cons c rest ih =>
    rw [List.all_cons, Bool.and_eq_true, beq_iff_eq] at h
    obtain ⟨rfl, hrest⟩ := h
    exact ih hrest

theorem readHex_hexText (value : Nat) : readHex (hexText value).toList = value := by
  unfold hexText
  rw [String.toList_ofList, readHex_leftpad, readHex_toDigits]

theorem hexText_injective {left right : Nat} (h : hexText left = hexText right) : left = right := by
  rw [← readHex_hexText left, h, readHex_hexText]

theorem length_hexText {value : Nat} (h : value < 2 ^ 64) :
    (hexText value).toList.length = spanHexLen := by
  have hpow : (16 : Nat) ^ 16 = 2 ^ 64 := by decide
  have hlength : (Nat.toDigits 16 value).length ≤ 16 :=
    (Nat.length_toDigits_le_iff (by omega) (by omega)).mpr (hpow ▸ h)
  unfold hexText
  rw [String.toList_ofList, List.leftpad, List.length_append, List.length_replicate, spanHexLen]
  omega

/-- The identity of a nonzero number of 64 bits is valid. -/
theorem valid_hexText {value : Nat} (hpos : 0 < value) (h : value < 2 ^ 64) :
    validHexId (hexText value) spanHexLen = true := by
  unfold validHexId
  rw [Bool.and_eq_true, Bool.and_eq_true, length_hexText h]
  refine ⟨⟨beq_self_eq_true _, ?_⟩, ?_⟩
  · rw [List.all_eq_true]
    intro c hc
    unfold hexText at hc
    rw [String.toList_ofList, List.leftpad] at hc
    rcases List.mem_append.mp hc with hc | hc
    · rw [List.eq_of_mem_replicate hc]
      decide
    · exact isLowerHex_toDigits hc
  · rw [Bool.not_eq_true', Bool.eq_false_iff]
    intro hzeros
    have hvalue := readHex_zeros hzeros
    rw [readHex_hexText] at hvalue
    omega

end SpecGate.HexText

import Mathlib

/-!
Text in sixteen-bit code units. A character above the basic plane takes a pair of
surrogates; a surrogate without its partner stands for no character, and decoding puts the
replacement character in its place.
-/
namespace SpecGate.Utf16

/-- The first of a pair. -/
def isHigh (unit : UInt16) : Bool := decide (0xD800 ≤ unit.toNat ∧ unit.toNat < 0xDC00)

/-- The second of a pair. -/
def isLow (unit : UInt16) : Bool := decide (0xDC00 ≤ unit.toNat ∧ unit.toNat < 0xE000)

def isSurrogate (unit : UInt16) : Bool := isHigh unit || isLow unit

/-- The code point of a pair. -/
def pairCode (high low : UInt16) : Nat :=
  0x10000 + (high.toNat - 0xD800) * 0x400 + (low.toNat - 0xDC00)

def replacement : Char := Char.ofNat 0xFFFD

def single (unit : UInt16) : Char :=
  if isSurrogate unit then replacement else Char.ofNat unit.toNat

/-- The characters of a text, with a replacement for every surrogate that has no partner. -/
def decode : List UInt16 → List Char
  | [] => []
  | [unit] => [single unit]
  | first :: second :: rest =>
      if isHigh first && isLow second then Char.ofNat (pairCode first second) :: decode rest
      else single first :: decode (second :: rest)

def encodeChar (c : Char) : List UInt16 :=
  if c.toNat < 0x10000 then [UInt16.ofNat c.toNat]
  else [UInt16.ofNat (0xD800 + (c.toNat - 0x10000) / 0x400),
    UInt16.ofNat (0xDC00 + (c.toNat - 0x10000) % 0x400)]

def encode (text : List Char) : List UInt16 := text.flatMap encodeChar

/-- Every surrogate has its partner. -/
def wellFormed : List UInt16 → Bool
  | [] => true
  | [unit] => !isSurrogate unit
  | first :: second :: rest =>
      if isHigh first && isLow second then wellFormed rest
      else !isSurrogate first && wellFormed (second :: rest)

/-- The characters of a text in which every surrogate has its partner. -/
def text (units : List UInt16) : Option String :=
  if wellFormed units then some (String.ofList (decode units)) else none

@[simp] theorem encode_nil : encode [] = [] := rfl

@[simp] theorem encode_cons (c : Char) (text : List Char) :
    encode (c :: text) = encodeChar c ++ encode text := rfl

@[simp] theorem encode_append (first second : List Char) :
    encode (first ++ second) = encode first ++ encode second :=
  List.flatMap_append

/-! ### Characters and their units -/

theorem char_bounds (c : Char) : c.toNat < 0xD800 ∨ 0xDFFF < c.toNat ∧ c.toNat < 0x110000 :=
  c.valid

theorem toNat_ofNat {n : Nat} (h : n < 0x10000) : (UInt16.ofNat n).toNat = n := by
  have hsize : UInt16.size = 0x10000 := rfl
  exact UInt16.toNat_ofNat_of_lt' (hsize ▸ h)

theorem toNat_char {n : Nat} (h : n < 0xD800 ∨ 0xDFFF < n ∧ n < 0x110000) :
    (Char.ofNat n).toNat = n := by
  have hvalid : n.isValidChar := h
  unfold Char.ofNat
  rw [dif_pos hvalid]
  rfl

/-- A character of the basic plane is one unit, and no surrogate. -/
theorem encodeChar_basic {c : Char} (h : c.toNat < 0x10000) :
    ∃ unit : UInt16, encodeChar c = [unit] ∧ unit.toNat = c.toNat ∧ isSurrogate unit = false := by
  refine ⟨UInt16.ofNat c.toNat, if_pos h, toNat_ofNat h, ?_⟩
  have hbounds := char_bounds c
  unfold isSurrogate isHigh isLow
  rw [toNat_ofNat h, Bool.or_eq_false_iff, decide_eq_false_iff_not, decide_eq_false_iff_not]
  omega

/-- Any other character is a pair. -/
theorem encodeChar_pair {c : Char} (h : ¬ c.toNat < 0x10000) :
    ∃ high low : UInt16, encodeChar c = [high, low] ∧ isHigh high = true ∧ isLow low = true ∧
      pairCode high low = c.toNat := by
  have hbounds := char_bounds c
  have hhigh := @toNat_ofNat (0xD800 + (c.toNat - 0x10000) / 0x400) (by omega)
  have hlow := @toNat_ofNat (0xDC00 + (c.toNat - 0x10000) % 0x400) (by omega)
  refine ⟨_, _, if_neg h, ?_, ?_, ?_⟩
  · unfold isHigh
    rw [hhigh, decide_eq_true_iff]
    omega
  · unfold isLow
    rw [hlow, decide_eq_true_iff]
    omega
  · unfold pairCode
    rw [hhigh, hlow]
    omega

theorem single_basic {c : Char} {unit : UInt16} (hunit : unit.toNat = c.toNat)
    (hplain : isSurrogate unit = false) : single unit = c := by
  unfold single
  rw [hplain, hunit, if_neg Bool.false_ne_true, Char.ofNat_toNat]

theorem not_isHigh {unit : UInt16} (h : isSurrogate unit = false) : isHigh unit = false :=
  (Bool.or_eq_false_iff.mp h).1

theorem decode_basic {unit : UInt16} (h : isSurrogate unit = false) (rest : List UInt16) :
    decode (unit :: rest) = single unit :: decode rest := by
  cases rest with
  | nil => rfl
  | cons second rest => rw [decode, not_isHigh h, Bool.false_and, if_neg Bool.false_ne_true]

theorem decode_pair {high low : UInt16} (hhigh : isHigh high = true) (hlow : isLow low = true)
    (rest : List UInt16) :
    decode (high :: low :: rest) = Char.ofNat (pairCode high low) :: decode rest := by
  rw [decode, hhigh, hlow, Bool.and_self, if_pos rfl]

theorem wellFormed_basic {unit : UInt16} (h : isSurrogate unit = false) (rest : List UInt16) :
    wellFormed (unit :: rest) = wellFormed rest := by
  cases rest with
  | nil =>
    unfold wellFormed
    rw [h, Bool.not_false]
  | cons second rest =>
    rw [wellFormed, not_isHigh h, Bool.false_and, if_neg Bool.false_ne_true, h, Bool.not_false,
      Bool.true_and]

theorem wellFormed_pair {high low : UInt16} (hhigh : isHigh high = true)
    (hlow : isLow low = true) (rest : List UInt16) :
    wellFormed (high :: low :: rest) = wellFormed rest := by
  rw [wellFormed, hhigh, hlow, Bool.and_self, if_pos rfl]

/-! ### Round trips -/

theorem decode_encodeChar (c : Char) (rest : List UInt16) :
    decode (encodeChar c ++ rest) = c :: decode rest := by
  by_cases h : c.toNat < 0x10000
  · obtain ⟨unit, hencode, hunit, hplain⟩ := encodeChar_basic h
    rw [hencode, List.singleton_append, decode_basic hplain, single_basic hunit hplain]
  · obtain ⟨high, low, hencode, hhigh, hlow, hcode⟩ := encodeChar_pair h
    rw [hencode, List.cons_append, List.singleton_append, decode_pair hhigh hlow, hcode,
      Char.ofNat_toNat]

theorem decode_encode (text : List Char) : decode (encode text) = text := by
  induction text with
  | nil => rfl
  | cons c rest ih => rw [encode_cons, decode_encodeChar, ih]

theorem wellFormed_encode (text : List Char) : wellFormed (encode text) = true := by
  induction text with
  | nil => rfl
  | cons c rest ih =>
    rw [encode_cons]
    by_cases h : c.toNat < 0x10000
    · obtain ⟨unit, hencode, -, hplain⟩ := encodeChar_basic h
      rw [hencode, List.singleton_append, wellFormed_basic hplain, ih]
    · obtain ⟨high, low, hencode, hhigh, hlow, -⟩ := encodeChar_pair h
      rw [hencode, List.cons_append, List.singleton_append, wellFormed_pair hhigh hlow, ih]

theorem encodeChar_single {unit : UInt16} (h : isSurrogate unit = false) :
    encodeChar (single unit) = [unit] := by
  have hlt : unit.toNat < 0x10000 := unit.toNat_lt
  have hcode : (single unit).toNat = unit.toNat := by
    unfold single
    rw [h, if_neg Bool.false_ne_true]
    apply toNat_char
    unfold isSurrogate isHigh isLow at h
    rw [Bool.or_eq_false_iff, decide_eq_false_iff_not, decide_eq_false_iff_not] at h
    omega
  unfold encodeChar
  rw [hcode, if_pos hlt, UInt16.ofNat_toNat]

theorem encodeChar_pairCode {high low : UInt16} (hhigh : isHigh high = true)
    (hlow : isLow low = true) : encodeChar (Char.ofNat (pairCode high low)) = [high, low] := by
  unfold isHigh at hhigh
  unfold isLow at hlow
  rw [decide_eq_true_iff] at hhigh hlow
  have hcode : (Char.ofNat (pairCode high low)).toNat = pairCode high low := by
    apply toNat_char
    unfold pairCode
    omega
  have hdiv : 0xD800 + (pairCode high low - 0x10000) / 0x400 = high.toNat := by
    unfold pairCode
    omega
  have hmod : 0xDC00 + (pairCode high low - 0x10000) % 0x400 = low.toNat := by
    unfold pairCode
    omega
  have hlarge : ¬ pairCode high low < 0x10000 := by
    unfold pairCode
    omega
  unfold encodeChar
  rw [hcode, if_neg hlarge, hdiv, hmod, UInt16.ofNat_toNat, UInt16.ofNat_toNat]

theorem encode_decode {units : List UInt16} (h : wellFormed units = true) :
    encode (decode units) = units := by
  induction units using decode.induct with
  | case1 => rfl
  | case2 unit =>
    rw [wellFormed, Bool.not_eq_true'] at h
    rw [decode, encode_cons, encodeChar_single h]
    rfl
  | case3 first second rest hpair ih =>
    have hparts := Bool.and_eq_true_iff.mp hpair
    rw [wellFormed, if_pos hpair] at h
    rw [decode, if_pos hpair, encode_cons, encodeChar_pairCode hparts.1 hparts.2, ih h]
    rfl
  | case4 first second rest hpair ih =>
    rw [wellFormed, if_neg hpair, Bool.and_eq_true, Bool.not_eq_true'] at h
    rw [decode, if_neg hpair, encode_cons, encodeChar_single h.1, ih h.2]
    rfl

/-- A text has characters exactly when it is their encoding. -/
theorem text_eq_some {units : List UInt16} {value : String} :
    text units = some value ↔ units = encode value.toList := by
  unfold text
  constructor
  · intro h
    by_cases hformed : wellFormed units = true
    · rw [if_pos hformed, Option.some.injEq] at h
      rw [← h, String.toList_ofList, encode_decode hformed]
    · rw [if_neg hformed] at h
      cases h
  · rintro rfl
    rw [if_pos (wellFormed_encode _), decode_encode, String.ofList_toList]

theorem text_encode (value : String) : text (encode value.toList) = some value :=
  text_eq_some.mpr rfl

end SpecGate.Utf16

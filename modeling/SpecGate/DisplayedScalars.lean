import SpecGate.ShortestDecimals

/-!
The texts of values without parts, inside the texts of values that have them. Quoted texts,
numbers, truth values and bytes are read apart up to the next comma, colon or closing
bracket.
-/
namespace SpecGate.DisplayedScalars

open Values Display JsonTexts DelimitedTexts ShortestDecimals

/-- The characters that end the text of a value inside another one. -/
def isStop (c : Char) : Prop := c ∈ [',', ':', ')', ']', '\x7d']

instance (c : Char) : Decidable (isStop c) := inferInstanceAs (Decidable (c ∈ _))

/-! ### Quoted texts -/

theorem spells_control (c : Char) (h : c.toNat < 32) {body content : List Char}
    (hbody : Spells body content) :
    Spells (['\\', 'u', '0', '0', hexDigit (c.toNat / 16), hexDigit (c.toNat % 16)] ++ body)
      (c :: content) := by
  have hcode : ∀ code < 32, hexCode '0' '0' (Display.hexDigit (code / 16))
      (Display.hexDigit (code % 16)) = some code := by decide
  have hspells := Spells.unicode (hcode c.toNat h) hbody
  rwa [Char.ofNat_toNat] at hspells

theorem spells_escapeChar (c : Char) {body content : List Char} (h : Spells body content) :
    Spells (escapeChar c ++ body) (c :: content) := by
  have hshort : ∀ {letter : Char} {code : Nat}, shortEscape letter = some (Char.ofNat code) →
      c.toNat = code → Spells (['\\', letter] ++ body) (c :: content) := by
    intro letter code hletter hcode
    rw [← hcode, Char.ofNat_toNat] at hletter
    exact .short hletter h
  unfold escapeChar
  split_ifs with hquote hbackslash hback htab hline hfeed hreturn hcontrol
  · rw [hquote]
    exact .short rfl h
  · rw [hbackslash]
    exact .short rfl h
  · exact hshort rfl hback
  · exact hshort rfl htab
  · exact hshort rfl hline
  · exact hshort rfl hfeed
  · exact hshort rfl hreturn
  · exact spells_control c hcontrol h
  · exact .plain (Nat.le_of_not_lt hcontrol) hquote hbackslash h

theorem quoted_writeJson (text : String) : Quoted text (writeJson text).toList := by
  refine ⟨text.toList.flatMap escapeChar, ?_, ?_⟩
  · rw [writeJson, String.toList_ofList]
    rfl
  · induction text.toList with
    | nil => exact .nil
    | cons c rest ih =>
      rw [List.flatMap_cons]
      exact spells_escapeChar c ih

theorem legible_writeJson (left right : String) :
    Legible isStop (left = right) (writeJson left).toList (writeJson right).toList := by
  intro r s _ _ heq
  have hleft := parseString_quoted (quoted_writeJson left) r
  rw [heq, parseString_quoted (quoted_writeJson right) s] at hleft
  obtain ⟨hsame, hrest⟩ := Prod.mk.inj (Option.some.inj hleft)
  exact ⟨hsame.symm, hrest.symm⟩

/-! ### Numbers and truth values -/

theorem not_isStop_of_isDecimalChar {c : Char} (h : isDecimalChar c = true) : ¬ isStop c := by
  intro hstop
  simp only [isStop, List.mem_cons, List.not_mem_nil, or_false] at hstop
  rcases hstop with rfl | rfl | rfl | rfl | rfl <;> exact absurd h (by decide)

theorem legible_decimals {left right : String} (hleft : ∀ c ∈ left.toList, isDecimalChar c = true)
    (hright : ∀ c ∈ right.toList, isDecimalChar c = true) :
    Legible isStop (left = right) left.toList right.toList :=
  (legible_words (fun c hc => not_isStop_of_isDecimalChar (hleft c hc))
    fun c hc => not_isStop_of_isDecimalChar (hright c hc)).imp String.toList_inj.mp

theorem decimal_int (n : Int) : ∀ c ∈ (toString n).toList, isDecimalChar c = true :=
  (signedText_int n).chars.2

theorem decimal_displayFinite (x : FiniteF64) :
    ∀ c ∈ (displayFinite x).toList, isDecimalChar c = true := by
  obtain ⟨value, hsigned, -⟩ := signedText_displayFinite x
  exact hsigned.chars.2

theorem legible_bool (left right : Bool) :
    Legible isStop (left = right) (if left then "true" else "false").toList
      (if right then "true" else "false").toList := by
  have hword : ∀ value : Bool, ∀ c ∈ (if value then "true" else "false").toList, ¬ isStop c := by
    intro value c hc
    have hall : (if value then "true" else "false").toList.all fun c => decide (¬ isStop c) := by
      cases value <;> decide
    exact of_decide_eq_true (List.all_eq_true.mp hall c hc)
  refine (legible_words (hword left) (hword right)).imp ?_
  revert left right
  decide

/-! ### Bytes -/

def base64Value (c : Char) : Nat :=
  ((List.range 64).find? fun n => base64Char n == c).getD 64

theorem base64Value_base64Char : ∀ n < 64, base64Value (base64Char n) = n := by decide

theorem base64Char_injective {m n : Nat} (hm : m < 64) (hn : n < 64)
    (h : base64Char m = base64Char n) : m = n := by
  rw [← base64Value_base64Char m hm, h, base64Value_base64Char n hn]

/-- No digit of the alphabet is the padding or ends a value. -/
theorem base64Char_plain : ∀ n < 64, base64Char n ≠ '=' ∧ ¬ isStop (base64Char n) := by decide

theorem encodeBase64_plain : ∀ (bytes : List UInt8), ∀ c ∈ encodeBase64 bytes, ¬ isStop c
  | [], c, hc => by cases hc
  | [a], c, hc => by
      have ha := a.toNat_lt
      simp only [encodeBase64, List.mem_cons, List.not_mem_nil, or_false] at hc
      rcases hc with rfl | rfl | rfl | rfl
      · exact (base64Char_plain _ (by omega)).2
      · exact (base64Char_plain _ (by omega)).2
      · decide
      · decide
  | [a, b], c, hc => by
      have ha := a.toNat_lt
      have hb := b.toNat_lt
      simp only [encodeBase64, List.mem_cons, List.not_mem_nil, or_false] at hc
      rcases hc with rfl | rfl | rfl | rfl
      · exact (base64Char_plain _ (by omega)).2
      · exact (base64Char_plain _ (by omega)).2
      · exact (base64Char_plain _ (by omega)).2
      · decide
  | x :: y :: z :: rest, c, hc => by
      have hx := x.toNat_lt
      have hy := y.toNat_lt
      have hz := z.toNat_lt
      simp only [encodeBase64, List.mem_cons] at hc
      rcases hc with rfl | rfl | rfl | rfl | hc
      · exact (base64Char_plain _ (by omega)).2
      · exact (base64Char_plain _ (by omega)).2
      · exact (base64Char_plain _ (by omega)).2
      · exact (base64Char_plain _ (by omega)).2
      · exact encodeBase64_plain rest c hc

theorem padding_ne {n : Nat} (h : n < 64) : '=' ≠ base64Char n :=
  Ne.symm (base64Char_plain n h).1

/-- Three bytes are the digits of their group. -/
theorem group_injective {x y z x' y' z' : UInt8}
    (h : x.toNat * 2 ^ 16 + y.toNat * 2 ^ 8 + z.toNat =
      x'.toNat * 2 ^ 16 + y'.toNat * 2 ^ 8 + z'.toNat) : x = x' ∧ y = y' ∧ z = z' := by
  have hy := y.toNat_lt
  have hz := z.toNat_lt
  have hy' := y'.toNat_lt
  have hz' := z'.toNat_lt
  refine ⟨UInt8.toNat_inj.mp ?_, UInt8.toNat_inj.mp ?_, UInt8.toNat_inj.mp ?_⟩ <;> omega

theorem encodeBase64_injective : ∀ left right : List UInt8,
    encodeBase64 left = encodeBase64 right → left = right
  | [], [], _ => rfl
  | [], [_], h => by simp [encodeBase64] at h
  | [], [_, _], h => by simp [encodeBase64] at h
  | [], _ :: _ :: _ :: _, h => by simp [encodeBase64] at h
  | [_], [], h => by simp [encodeBase64] at h
  | [_, _], [], h => by simp [encodeBase64] at h
  | _ :: _ :: _ :: _, [], h => by simp [encodeBase64] at h
  | [a], [b], h => by
      have ha := a.toNat_lt
      have hb := b.toNat_lt
      simp only [encodeBase64, List.cons.injEq, and_true] at h
      have hfirst := base64Char_injective (by omega) (by omega) h.1
      have hsecond := base64Char_injective (by omega) (by omega) h.2
      rw [UInt8.toNat_inj.mp (show a.toNat = b.toNat by omega)]
  | [_], [b, c], h => by
      have hc := c.toNat_lt
      simp only [encodeBase64, List.cons.injEq] at h
      exact absurd h.2.2.1 (padding_ne (by omega))
  | [_], x :: y :: z :: _, h => by
      simp only [encodeBase64, List.cons.injEq] at h
      exact absurd h.2.2.1 (padding_ne (by omega))
  | [_, b], [_], h => by
      simp only [encodeBase64, List.cons.injEq] at h
      exact absurd h.2.2.1.symm (padding_ne (by omega))
  | _ :: _ :: _ :: _, [_], h => by
      simp only [encodeBase64, List.cons.injEq] at h
      exact absurd h.2.2.1.symm (padding_ne (by omega))
  | [a, b], [c, d], h => by
      have ha := a.toNat_lt
      have hb := b.toNat_lt
      have hc := c.toNat_lt
      have hd := d.toNat_lt
      simp only [encodeBase64, List.cons.injEq, and_true] at h
      have hfirst := base64Char_injective (by omega) (by omega) h.1
      have hsecond := base64Char_injective (by omega) (by omega) h.2.1
      have hthird := base64Char_injective (by omega) (by omega) h.2.2
      rw [UInt8.toNat_inj.mp (show a.toNat = c.toNat by omega),
        UInt8.toNat_inj.mp (show b.toNat = d.toNat by omega)]
  | [_, _], x :: y :: z :: _, h => by
      simp only [encodeBase64, List.cons.injEq] at h
      exact absurd h.2.2.2.1 (padding_ne (by omega))
  | x :: y :: z :: _, [_, _], h => by
      simp only [encodeBase64, List.cons.injEq] at h
      exact absurd h.2.2.2.1.symm (padding_ne (by omega))
  | x :: y :: z :: rest, x' :: y' :: z' :: rest', h => by
      have hx := x.toNat_lt
      have hy := y.toNat_lt
      have hz := z.toNat_lt
      have hx' := x'.toNat_lt
      have hy' := y'.toNat_lt
      have hz' := z'.toNat_lt
      simp only [encodeBase64, List.cons.injEq] at h
      have hfirst := base64Char_injective (by omega) (by omega) h.1
      have hsecond := base64Char_injective (by omega) (by omega) h.2.1
      have hthird := base64Char_injective (by omega) (by omega) h.2.2.1
      have hfourth := base64Char_injective (by omega) (by omega) h.2.2.2.1
      obtain ⟨rfl, rfl, rfl⟩ := @group_injective x y z x' y' z' (by omega)
      rw [encodeBase64_injective rest rest' h.2.2.2.2]

theorem legible_bytes (left right : List UInt8) :
    Legible isStop (left = right) ("bytes:" ++ String.ofList (encodeBase64 left)).toList
      ("bytes:" ++ String.ofList (encodeBase64 right)).toList := by
  rw [String.toList_append, String.toList_append]
  simp only [String.toList_ofList]
  exact ((legible_words (encodeBase64_plain left) (encodeBase64_plain right)).imp
    (encodeBase64_injective left right)).after _

/-! ### Floats -/

/-- The name of a number that is not finite. -/
def symbolName : F64Value → Option String
  | .finite _ => none
  | .nan => some "NaN"
  | .infinity => some "Infinity"
  | .negativeInfinity => some "-Infinity"

/-- A symbol is printed like its name. -/
theorem displayFloat_symbol {value : F64Value} {name : String} (h : symbolName value = some name) :
    displayFloat value = writeJson name := by
  cases value with
  | finite x => cases h
  | nan =>
    obtain rfl := Option.some.inj h
    rfl
  | infinity =>
    obtain rfl := Option.some.inj h
    rfl
  | negativeInfinity =>
    obtain rfl := Option.some.inj h
    rfl

theorem eq_of_symbolName {value : F64Value} {name : String} (h : symbolName value = some name) :
    value = if name = "NaN" then .nan else if name = "Infinity" then .infinity
      else .negativeInfinity := by
  cases value with
  | finite x => cases h
  | _ =>
    obtain rfl := Option.some.inj h
    decide

theorem symbolName_injective {left right : F64Value} {name : String}
    (hleft : symbolName left = some name) (hright : symbolName right = some name) :
    left = right := by
  rw [eq_of_symbolName hleft, eq_of_symbolName hright]

theorem head_writeJson (text : String) : ∃ rest, (writeJson text).toList = '"' :: rest := by
  obtain ⟨body, htext, -⟩ := quoted_writeJson text
  exact ⟨_, htext⟩

theorem head_displayFinite (x : FiniteF64) :
    ∃ c rest, (displayFinite x).toList = c :: rest ∧ (c.isDigit = true ∨ c = '-') := by
  obtain ⟨value, hsigned, -⟩ := signedText_displayFinite x
  exact hsigned.chars.1

/-- A quoted text is not read as a number. -/
theorem legible_quoted_number {P : Prop} (text : String) (x : FiniteF64) :
    Legible isStop P (writeJson text).toList (displayFinite x).toList ∧
      Legible isStop P (displayFinite x).toList (writeJson text).toList := by
  obtain ⟨rest, hquoted⟩ := head_writeJson text
  obtain ⟨c, others, hnumber, hc⟩ := head_displayFinite x
  have hne : c ≠ '"' := by
    rintro rfl
    exact absurd hc (by decide)
  rw [hquoted, hnumber]
  exact ⟨legible_of_heads hne.symm, legible_of_heads hne⟩

theorem legible_displayFloat (left right : F64Value) :
    Legible isStop (left = right) (displayFloat left).toList (displayFloat right).toList := by
  cases hleft : symbolName left with
  | none =>
    obtain ⟨x, rfl⟩ : ∃ x, left = .finite x := by
      cases left <;> simp_all [symbolName]
    cases hright : symbolName right with
    | none =>
      obtain ⟨y, rfl⟩ : ∃ y, right = .finite y := by
        cases right <;> simp_all [symbolName]
      exact (legible_decimals (decimal_displayFinite x) (decimal_displayFinite y)).imp
        fun h => congrArg _ (displayFinite_injective h)
    | some name =>
      rw [displayFloat_symbol hright]
      exact (legible_quoted_number name x).2
  | some name =>
    rw [displayFloat_symbol hleft]
    cases hright : symbolName right with
    | none =>
      obtain ⟨y, rfl⟩ : ∃ y, right = .finite y := by
        cases right <;> simp_all [symbolName]
      exact (legible_quoted_number name y).1
    | some name' =>
      rw [displayFloat_symbol hright]
      refine (legible_writeJson name name').imp ?_
      rintro rfl
      exact symbolName_injective hleft hright

end SpecGate.DisplayedScalars

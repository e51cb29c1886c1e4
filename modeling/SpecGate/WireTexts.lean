import SpecGate.DisplayedScalars

/-!
The texts of wire values. Two wire values have one text exactly when they are equal after
every float that is printed as an integer is replaced by that integer, and every float that
is not finite by its name as a text. Nesting, keys and quotes never make texts coincide.
-/
namespace SpecGate.WireTexts

open Values Display DelimitedTexts ShortestDecimals DisplayedScalars

/-! ### What a text keeps of a value -/

/-- A float that is printed like another wire value, as that value. -/
def plainFloat (value : F64Value) : AnyValue :=
  match value with
  | .finite x =>
      match printedInteger x with
      | some n => if (Int64.ofInt n).toInt = n then .int (Int64.ofInt n) else .double (.finite x)
      | none => .double (.finite x)
  | .nan => .string "NaN"
  | .infinity => .string "Infinity"
  | .negativeInfinity => .string "-Infinity"

mutual

/-- The value with its floats written as what they are printed like. -/
def plain : AnyValue → AnyValue
  | .double value => plainFloat value
  | .array values => .array (plainValues values)
  | .kvList entries => .kvList (plainEntries entries)
  | .string value => .string value
  | .bool value => .bool value
  | .int value => .int value
  | .bytes value => .bytes value

def plainValues : List AnyValue → List AnyValue
  | [] => []
  | value :: rest => plain value :: plainValues rest

def plainEntries : List (String × AnyValue) → List (String × AnyValue)
  | [] => []
  | (key, value) :: rest => (key, plain value) :: plainEntries rest

end

theorem plainValues_eq (values : List AnyValue) : plainValues values = values.map plain := by
  induction values with
  | nil => rfl
  | cons value rest ih => rw [plainValues, ih, List.map_cons]

theorem plainEntries_eq (entries : List (String × AnyValue)) :
    plainEntries entries = entries.map fun entry => (entry.1, plain entry.2) := by
  induction entries with
  | nil => rfl
  | cons entry rest ih => rw [plainEntries, ih, List.map_cons]

theorem plainFloat_symbol {value : F64Value} {name : String} (h : symbolName value = some name) :
    plainFloat value = .string name := by
  cases value with
  | finite x => cases h
  | _ =>
    obtain rfl := Option.some.inj h
    rfl

theorem plainFloat_integer {x : FiniteF64} {n : Int64} (h : printedInteger x = some n.toInt) :
    plainFloat (.finite x) = .int n := by
  rw [plainFloat, h]
  simp [Int64.ofInt_toInt]

/-- A finite float stays, or becomes the integer it is printed as. -/
theorem plainFloat_cases (x : FiniteF64) : plainFloat (.finite x) = .double (.finite x) ∨
    ∃ n : Int64, plainFloat (.finite x) = .int n ∧ printedInteger x = some n.toInt := by
  cases hprinted : printedInteger x with
  | none =>
    left
    rw [plainFloat, hprinted]
  | some n =>
    by_cases hfits : (Int64.ofInt n).toInt = n
    · right
      refine ⟨Int64.ofInt n, ?_, by rw [hfits]⟩
      rw [plainFloat, hprinted]
      exact if_pos hfits
    · left
      rw [plainFloat, hprinted]
      exact if_neg hfits

/-! ### Characters -/

def chars (value : AnyValue) : List Char := (displayValue value).toList

def entryChars (entry : String × AnyValue) : List Char :=
  (writeJson entry.1).toList ++ ':' :: chars entry.2

theorem displayValues_eq (values : List AnyValue) :
    (displayValues values).map String.toList = values.map chars := by
  induction values with
  | nil => rfl
  | cons value rest ih => rw [displayValues, List.map_cons, List.map_cons, ih, chars]

theorem displayEntries_eq (entries : List (String × AnyValue)) :
    (displayEntries entries).map String.toList = entries.map entryChars := by
  induction entries with
  | nil => rfl
  | cons entry rest ih =>
    rw [displayEntries, List.map_cons, List.map_cons, ih, entryChars, String.toList_append,
      String.toList_append, List.append_assoc]
    rfl

theorem chars_array (values : List AnyValue) :
    chars (.array values) = '[' :: sequence ',' ']' chars values := by
  rw [chars, displayValue, String.toList_append, String.toList_append, String.toList_intercalate,
    displayValues_eq, List.append_assoc]
  rfl

theorem chars_kvList (entries : List (String × AnyValue)) :
    chars (.kvList entries) = '\x7b' :: sequence ',' '\x7d' entryChars entries := by
  rw [chars, displayValue, String.toList_append, String.toList_append, String.toList_intercalate,
    displayEntries_eq, List.append_assoc]
  rfl

/-- What the first character of a text tells. -/
inductive Kind where
  | quoted
  | bool
  | number
  | bytes
  | array
  | kvList
  | none
  deriving DecidableEq

def kindOf (c : Char) : Kind :=
  if c = '"' then .quoted
  else if c = 't' ∨ c = 'f' then .bool
  else if c = 'b' then .bytes
  else if c = '[' then .array
  else if c = '\x7b' then .kvList
  else if c.isDigit ∨ c = '-' then .number
  else .none

def kind : AnyValue → Kind
  | .string _ => .quoted
  | .bool _ => .bool
  | .int _ => .number
  | .double (.finite _) => .number
  | .double _ => .quoted
  | .bytes _ => .bytes
  | .array _ => .array
  | .kvList _ => .kvList

theorem kindOf_decimal {c : Char} (h : c.isDigit = true ∨ c = '-') : kindOf c = .number := by
  have hne : ∀ other : Char, other.isDigit = false → other ≠ '-' → c ≠ other := by
    rintro other hdigit hminus rfl
    rcases h with h | h
    · rw [hdigit] at h
      cases h
    · exact hminus h
  unfold kindOf
  rw [if_neg (hne _ (by decide) (by decide)),
    if_neg (not_or.mpr ⟨hne _ (by decide) (by decide), hne _ (by decide) (by decide)⟩),
    if_neg (hne _ (by decide) (by decide)), if_neg (hne _ (by decide) (by decide)),
    if_neg (hne _ (by decide) (by decide)), if_pos h]

theorem head_chars (value : AnyValue) :
    ∃ c rest, chars value = c :: rest ∧ kindOf c = kind value := by
  have hquoted : ∀ text, ∃ c rest, (writeJson text).toList = c :: rest ∧ kindOf c = .quoted := by
    intro text
    obtain ⟨rest, htext⟩ := head_writeJson text
    exact ⟨'"', rest, htext, rfl⟩
  cases value with
  | string text => exact hquoted text
  | bool value => cases value <;> exact ⟨_, _, rfl, rfl⟩
  | int n =>
    obtain ⟨⟨c, rest, htext, hc⟩, -⟩ := (signedText_int n.toInt).chars
    exact ⟨c, rest, htext, kindOf_decimal hc⟩
  | double value =>
    cases hname : symbolName value with
    | some name =>
      have hkind : kind (.double value) = .quoted := by
        cases value with
        | finite x => cases hname
        | _ => rfl
      rw [hkind, chars, displayValue, displayFloat_symbol hname]
      exact hquoted name
    | none =>
      cases value with
      | finite x =>
        obtain ⟨c, rest, htext, hc⟩ := head_displayFinite x
        exact ⟨c, rest, htext, kindOf_decimal hc⟩
      | _ => cases hname
  | bytes value =>
    rw [chars, displayValue, String.toList_append]
    exact ⟨'b', _, rfl, rfl⟩
  | array values =>
    rw [chars_array]
    exact ⟨_, _, rfl, rfl⟩
  | kvList entries =>
    rw [chars_kvList]
    exact ⟨_, _, rfl, rfl⟩

/-- No text of a value begins with a closing bracket. -/
theorem opens_chars {final : Char} (h : kindOf final = .none) (value : AnyValue) :
    Opens final (chars value) := by
  obtain ⟨c, rest, htext, hc⟩ := head_chars value
  refine ⟨c, rest, htext, ?_⟩
  rintro rfl
  rw [h] at hc
  cases value with
  | double value => cases value <;> cases hc
  | _ => cases hc

theorem opens_entryChars (entry : String × AnyValue) : Opens '\x7d' (entryChars entry) := by
  obtain ⟨rest, htext⟩ := head_writeJson entry.1
  rw [entryChars, htext]
  exact ⟨'"', _, rfl, by decide⟩

theorem legible_of_kinds {P : Prop} {left right : AnyValue} (h : kind left ≠ kind right) :
    Legible isStop P (chars left) (chars right) := by
  obtain ⟨c, rest, hleft, hc⟩ := head_chars left
  obtain ⟨d, rest', hright, hd⟩ := head_chars right
  rw [hleft, hright]
  refine legible_of_heads ?_
  rintro rfl
  exact h (hc.symm.trans hd)

/-! ### Reading a text back -/

/-- An integer and a float are read apart unless the float is printed as the integer. -/
theorem legible_int_finite (n : Int64) (x : FiniteF64) :
    Legible isStop (plainFloat (.finite x) = .int n) (toString n.toInt).toList
        (displayFinite x).toList ∧
      Legible isStop (plainFloat (.finite x) = .int n) (displayFinite x).toList
        (toString n.toInt).toList := by
  constructor
  · exact (legible_decimals (decimal_int _) (decimal_displayFinite x)).imp fun h =>
      plainFloat_integer (toString_eq_displayFinite_iff.mp h)
  · exact (legible_decimals (decimal_displayFinite x) (decimal_int _)).imp fun h =>
      plainFloat_integer (toString_eq_displayFinite_iff.mp h.symm)

theorem legible_double (value : F64Value) (other : AnyValue)
    (hkind : kind (.double value) = kind other) :
    Legible isStop (plain (.double value) = plain other) (chars (.double value)) (chars other) ∧
      Legible isStop (plain other = plain (.double value)) (chars other)
        (chars (.double value)) := by
  have hquoted : ∀ {name : String} (text : String), symbolName value = some name →
      Legible isStop (plain (.double value) = plain (.string text)) (chars (.double value))
          (chars (.string text)) ∧
        Legible isStop (plain (.string text) = plain (.double value)) (chars (.string text))
          (chars (.double value)) := by
    intro name text hname
    rw [plain, plainFloat_symbol hname, plain, chars, displayValue, displayFloat_symbol hname]
    exact ⟨(legible_writeJson name text).imp fun h => by rw [h],
      (legible_writeJson text name).imp fun h => by rw [h]⟩
  cases other with
  | double other =>
    exact ⟨(legible_displayFloat value other).imp fun h => by rw [h],
      (legible_displayFloat other value).imp fun h => by rw [h]⟩
  | int n =>
    cases value with
    | finite x =>
      obtain ⟨hforward, hbackward⟩ := legible_int_finite n x
      exact ⟨hbackward, hforward.imp Eq.symm⟩
    | _ => cases hkind
  | string text =>
    cases value with
    | finite x => cases hkind
    | nan => exact hquoted text rfl
    | infinity => exact hquoted text rfl
    | negativeInfinity => exact hquoted text rfl
  | _ => cases value <;> cases hkind

theorem legible_before_double (left : AnyValue) (value : F64Value) :
    Legible isStop (plain left = plain (.double value)) (chars left) (chars (.double value)) := by
  by_cases hkind : kind (.double value) = kind left
  · exact (legible_double value left hkind).2
  · exact legible_of_kinds (Ne.symm hkind)

mutual

/-- Texts of values, one inside the other, are equal only for values alike. -/
theorem legible_value : ∀ left right : AnyValue,
    Legible isStop (plain left = plain right) (chars left) (chars right)
  | .double value, right => by
      by_cases hkind : kind (.double value) = kind right
      · exact (legible_double value right hkind).1
      · exact legible_of_kinds hkind
  | .string text, right => by
      cases right with
      | string other => exact (legible_writeJson text other).imp fun h => by rw [h]
      | double value => exact legible_before_double _ value
      | _ => exact legible_of_kinds (by simp [kind])
  | .bool value, right => by
      cases right with
      | bool other => exact (legible_bool value other).imp fun h => by rw [h]
      | double value => exact legible_before_double _ value
      | _ => exact legible_of_kinds (by simp [kind])
  | .int n, right => by
      cases right with
      | int m =>
        refine (legible_decimals (decimal_int _) (decimal_int _)).imp fun h => ?_
        rw [Int64.toInt_inj.mp (toString_int_injective h)]
      | double value => exact legible_before_double _ value
      | _ => exact legible_of_kinds (by simp [kind])
  | .bytes value, right => by
      cases right with
      | bytes other => exact (legible_bytes value other).imp fun h => by rw [h]
      | double value => exact legible_before_double _ value
      | _ => exact legible_of_kinds (by simp [kind])
  | .array xs, right => by
      cases right with
      | array ys =>
        rw [chars_array, chars_array]
        refine ((legible_items (fun x y => plain x = plain y) (by decide) (by decide) (by decide)
          (fun x _ => opens_chars (by decide) x) (fun y _ => opens_chars (by decide) y)
          (legible_values xs ys)).cons '[').imp fun h => ?_
        rw [plain, plain, plainValues_eq, plainValues_eq, AnyValue.array.injEq,
          ← List.forall₂_eq_eq_eq, List.forall₂_map_left_iff, List.forall₂_map_right_iff]
        exact h
      | double value => exact legible_before_double _ value
      | _ => exact legible_of_kinds (by simp [kind])
  | .kvList xs, right => by
      cases right with
      | kvList ys =>
        rw [chars_kvList, chars_kvList]
        refine ((legible_items (fun x y => (x.1, plain x.2) = (y.1, plain y.2)) (by decide)
          (by decide) (by decide) (fun x _ => opens_entryChars x) (fun y _ => opens_entryChars y)
          (legible_entries xs ys)).cons '\x7b').imp fun h => ?_
        rw [plain, plain, plainEntries_eq, plainEntries_eq, AnyValue.kvList.injEq,
          ← List.forall₂_eq_eq_eq, List.forall₂_map_left_iff, List.forall₂_map_right_iff]
        exact h
      | double value => exact legible_before_double _ value
      | _ => exact legible_of_kinds (by simp [kind])

theorem legible_values : ∀ xs ys : List AnyValue, ∀ pair ∈ xs.zip ys,
    Legible isStop (plain pair.1 = plain pair.2) (chars pair.1) (chars pair.2)
  | [], _, _, h => by simp at h
  | _ :: _, [], _, h => by simp at h
  | x :: xs, y :: ys, pair, h => by
      rcases List.mem_cons.mp h with rfl | h
      · exact legible_value x y
      · exact legible_values xs ys pair h

theorem legible_entries : ∀ xs ys : List (String × AnyValue), ∀ pair ∈ xs.zip ys,
    Legible isStop ((pair.1.1, plain pair.1.2) = (pair.2.1, plain pair.2.2)) (entryChars pair.1)
      (entryChars pair.2)
  | [], _, _, h => by simp at h
  | _ :: _, [], _, h => by simp at h
  | (key, x) :: xs, (key', y) :: ys, pair, h => by
      rcases List.mem_cons.mp h with rfl | h
      · exact ((legible_writeJson key key').append (by decide) (legible_value x y)).imp
          fun h => Prod.ext h.1 h.2
      · exact legible_entries xs ys pair h

end

/-! ### The text of a plain value -/

mutual

theorem displayValue_plain : ∀ value : AnyValue, displayValue (plain value) = displayValue value
  | .double (.finite x) => by
      rcases plainFloat_cases x with hsame | ⟨n, hinteger, hprinted⟩
      · rw [plain, hsame]
      · rw [plain, hinteger, displayValue, displayValue, displayFloat]
        exact toString_eq_displayFinite_iff.mpr hprinted
  | .double .nan => rfl
  | .double .infinity => rfl
  | .double .negativeInfinity => rfl
  | .string _ => rfl
  | .bool _ => rfl
  | .int _ => rfl
  | .bytes _ => rfl
  | .array values => by rw [plain, displayValue, displayValue, displayValues_plain]
  | .kvList entries => by rw [plain, displayValue, displayValue, displayEntries_plain]

theorem displayValues_plain : ∀ values : List AnyValue,
    displayValues (plainValues values) = displayValues values
  | [] => rfl
  | value :: rest => by
      rw [plainValues, displayValues, displayValues, displayValue_plain, displayValues_plain]

theorem displayEntries_plain : ∀ entries : List (String × AnyValue),
    displayEntries (plainEntries entries) = displayEntries entries
  | [] => rfl
  | (key, value) :: rest => by
      rw [plainEntries, displayEntries, displayEntries, displayValue_plain, displayEntries_plain]

end

end SpecGate.WireTexts

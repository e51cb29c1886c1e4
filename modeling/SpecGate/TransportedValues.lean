import SpecGate.CaptureEncoding
import SpecGate.OtlpJson
import SpecGate.OtlpSchema

/-!
The transport of captured values. A value is written as OTLP JSON and read back by the
trace loader as its wire image, as long as its containers do not nest too deeply for the
reader. Values with one image differ by list and set, by an unsigned integer and its
decimal text, or by the payload of a number that is not a number.
-/
namespace SpecGate.TransportedValues

open JsonTrees OtlpJson TraceFields SortedAssoc OtlpSchema
open Values (AnyValue FiniteF64 F64Value)

/-! ### Captured values -/

/-- A semantic value at the capture boundary, with floating-point numbers by their bits. -/
inductive CapturedValue where
  | string (value : String)
  | integer (value : Int64)
  | unsigned (value : UInt64)
  | float (bits : UInt64)
  | bool (value : Bool)
  | list (values : List CapturedValue)
  | map (entries : List (String × CapturedValue))
  | set (values : List CapturedValue)

mutual

/-- Every map holds its keys in their order. -/
def MapsOrdered : CapturedValue → Prop
  | .string _ | .integer _ | .unsigned _ | .float _ | .bool _ => True
  | .list values | .set values => AllOrdered values
  | .map entries => Sorted entries ∧ EntriesOrdered entries
termination_by structural value => value

def AllOrdered : List CapturedValue → Prop
  | [] => True
  | value :: rest => MapsOrdered value ∧ AllOrdered rest
termination_by structural values => values

def EntriesOrdered : List (String × CapturedValue) → Prop
  | [] => True
  | (_, value) :: rest => MapsOrdered value ∧ EntriesOrdered rest
termination_by structural entries => entries

end

structure Value where
  captured : CapturedValue
  ordered : MapsOrdered captured

/-! ### Numbers -/

def isNan (bits : UInt64) : Bool :=
  bits.toNat / 2 ^ 52 % 2 ^ 11 == 2047 && bits.toNat % 2 ^ 52 != 0

def infinityBits : Nat := 2047 * 2 ^ 52

def negativeInfinityBits : Nat := 2 ^ 63 + 2047 * 2 ^ 52

theorem finite_of_ordinary {bits : UInt64} (hnan : ¬isNan bits = true)
    (hinfinity : bits.toNat ≠ infinityBits) (hnegative : bits.toNat ≠ negativeInfinityBits) :
    bits.toNat / 2 ^ 52 % 2 ^ 11 ≠ 2047 := by
  intro hexponent
  have hlt := bits.toNat_lt
  have hmantissa : bits.toNat % 2 ^ 52 = 0 := by
    by_contra hne
    apply hnan
    unfold isNan
    rw [Bool.and_eq_true, beq_iff_eq, bne_iff_ne]
    exact ⟨hexponent, hne⟩
  unfold infinityBits at hinfinity
  unfold negativeInfinityBits at hnegative
  omega

/-- The number with the given bits; the payload of one that is not a number is lost. -/
def floatValue (bits : UInt64) : F64Value :=
  if hnan : isNan bits = true then .nan
  else if hinfinity : bits.toNat = infinityBits then .infinity
  else if hnegative : bits.toNat = negativeInfinityBits then .negativeInfinity
  else .finite ⟨bits.toNat, bits.toNat_lt, finite_of_ordinary hnan hinfinity hnegative⟩

def doubleValue (bits : UInt64) : DoubleRepr :=
  if hnan : isNan bits = true then .symbol "NaN"
  else if hinfinity : bits.toNat = infinityBits then .symbol "Infinity"
  else if hnegative : bits.toNat = negativeInfinityBits then .symbol "-Infinity"
  else .number ⟨bits.toNat, bits.toNat_lt, finite_of_ordinary hnan hinfinity hnegative⟩

/-! ### Encoding -/

mutual

def anyValue : CapturedValue → OtlpValue
  | .string value => .string value
  | .integer value => .int (toString value.toInt)
  | .unsigned value => .string (toString value.toNat)
  | .float bits => .double (doubleValue bits)
  | .bool value => .bool value
  | .list values | .set values => .array (anyValues values)
  | .map entries => .kvlist (anyEntries entries)
termination_by structural value => value

def anyValues : List CapturedValue → List OtlpValue
  | [] => []
  | value :: rest => anyValue value :: anyValues rest
termination_by structural values => values

def anyEntries : List (String × CapturedValue) → List (String × OtlpValue)
  | [] => []
  | (key, value) :: rest => (key, anyValue value) :: anyEntries rest
termination_by structural entries => entries

end

mutual

/-- What a captured value means on the wire. -/
def image : CapturedValue → AnyValue
  | .string value => .string value
  | .integer value => .int value
  | .unsigned value => .string (toString value.toNat)
  | .float bits => .double (floatValue bits)
  | .bool value => .bool value
  | .list values | .set values => .array (images values)
  | .map entries => .kvList (imageEntries entries)
termination_by structural value => value

def images : List CapturedValue → List AnyValue
  | [] => []
  | value :: rest => image value :: images rest
termination_by structural values => values

def imageEntries : List (String × CapturedValue) → List (String × AnyValue)
  | [] => []
  | (key, value) :: rest => (key, image value) :: imageEntries rest
termination_by structural entries => entries

end

theorem keys_imageEntries (entries : List (String × CapturedValue)) :
    keys (imageEntries entries) = keys entries := by
  induction entries with
  | nil => rfl
  | cons entry rest ih => rw [imageEntries, keys_cons, keys_cons, ih]

theorem sorted_imageEntries {entries : List (String × CapturedValue)} (h : Sorted entries) :
    Sorted (imageEntries entries) := by
  rw [sorted_iff_keys, keys_imageEntries, ← sorted_iff_keys]
  exact h

mutual

/-- The value as the encoder of whole captures takes it. -/
def encoderValue : CapturedValue → CaptureEncoding.Value
  | .string value => .string value
  | .integer value => .integer value
  | .unsigned value => .unsigned value
  | .float bits => .float (floatValue bits)
  | .bool value => .bool value
  | .list values => .list (encoderValues values)
  | .set values => .set (encoderValues values)
  | .map entries => .map (encoderEntries entries)
termination_by structural value => value

def encoderValues : List CapturedValue → List CaptureEncoding.Value
  | [] => []
  | value :: rest => encoderValue value :: encoderValues rest
termination_by structural values => values

def encoderEntries : List (String × CapturedValue) → List (String × CaptureEncoding.Value)
  | [] => []
  | (key, value) :: rest => (key, encoderValue value) :: encoderEntries rest
termination_by structural entries => entries

end

mutual

/-- The encoder of whole captures puts the image of every value into its document. -/
theorem anyValue_encoderValue : ∀ (value : CapturedValue),
    CaptureEncoding.anyValue (encoderValue value) = image value
  | .string _ | .integer _ | .unsigned _ | .float _ | .bool _ => rfl
  | .list values | .set values => congrArg AnyValue.array (anyValues_encoderValues values)
  | .map entries => congrArg AnyValue.kvList (anyEntries_encoderEntries entries)

theorem anyValues_encoderValues : ∀ (values : List CapturedValue),
    CaptureEncoding.anyValues (encoderValues values) = images values
  | [] => rfl
  | value :: rest =>
      congrArg₂ List.cons (anyValue_encoderValue value) (anyValues_encoderValues rest)

theorem anyEntries_encoderEntries : ∀ (entries : List (String × CapturedValue)),
    CaptureEncoding.anyEntries (encoderEntries entries) = imageEntries entries
  | [] => rfl
  | (key, value) :: rest =>
      congrArg₂ List.cons (congrArg (Prod.mk key) (anyValue_encoderValue value))
        (anyEntries_encoderEntries rest)

end

/-! ### Reading -/

section Reading

variable (readers : NumberReaders)

theorem readsAs_float (bits : UInt64) :
    ReadsAs readers (serializeValue (.double (doubleValue bits))) (.double (floatValue bits)) := by
  rw [serializeValue]
  unfold doubleValue floatValue
  split_ifs
  · exact readsAs_double rfl fun _ _ => rfl
  · exact readsAs_double rfl fun _ _ => rfl
  · exact readsAs_double rfl fun _ _ => rfl
  · exact readsAs_double rfl fun _ _ => rfl

theorem readsAs_integer (value : Int64) :
    ReadsAs readers (serializeValue (.int (toString value.toInt))) (.int value) := by
  have hlow := value.le_toInt
  have hhigh := value.toInt_lt
  have hparse : IntegerText.parseI64 (toString value.toInt) = .ok value.toInt :=
    IntegerText.parseInteger_toString (by decide) (by decide) hlow (by omega)
  have hread := @readsAs_int readers _ _ (OtlpScalars.parseTextI64_of_i64 hparse)
  rw [Int64.ofInt_toInt] at hread
  exact hread

mutual

/-- The loader reads an encoded value as its image. -/
theorem readsAs_image : ∀ (value : CapturedValue), MapsOrdered value →
    ReadsAs readers (serializeValue (anyValue value)) (image value)
  | .string value, _ => readsAs_string value
  | .integer value, _ => readsAs_integer readers value
  | .unsigned _, _ => readsAs_string _
  | .float bits, _ => readsAs_float readers bits
  | .bool value, _ => readsAs_bool value
  | .list values, hordered => readsAs_array (readsAs_images values hordered)
  | .set values, hordered => readsAs_array (readsAs_images values hordered)
  | .map [], _ => readsAs_kvlist_nil
  | .map (entry :: rest), hordered =>
      readsAs_kvlist (readsAs_entries (entry :: rest) hordered.2) (sorted_imageEntries hordered.1)

theorem readsAs_images : ∀ (values : List CapturedValue), AllOrdered values →
    List.Forall₂ (ReadsAs readers) (serializeValues (anyValues values)) (images values)
  | [], _ => .nil
  | value :: rest, hordered =>
      .cons (readsAs_image value hordered.1) (readsAs_images rest hordered.2)

theorem readsAs_entries : ∀ (entries : List (String × CapturedValue)), EntriesOrdered entries →
    List.Forall₂ (ReadsEntry readers) (serializeEntries (anyEntries entries))
      (imageEntries entries)
  | [], _ => .nil
  | (_, value) :: rest, hordered =>
      .cons ⟨_, rfl, readsAs_image value hordered.1⟩ (readsAs_entries rest hordered.2)

end

/-! ### Shape -/

theorem accepts_single {message : Message} {key : String} {raw : Json} {field : Field}
    (hfield : fieldNamed message.fields key = some field) (hraw : isPresent raw = true)
    (haccepts : accepts readers raw field.kind = true) :
    accepts readers (.object [(key, raw)]) (.message message) = true := by
  have hknown : knownMembers message.fields [key] = true := by
    unfold knownMembers
    simp [hfield]
  have hone : selectsOne message [raw] = true := by
    unfold selectsOne
    by_cases hvalue : message = .anyValue
    · rw [if_pos hvalue]
      exact decide_eq_true (List.countP_le_length)
    · rw [if_neg hvalue]
  rw [accepts]
  change (knownMembers message.fields [key] && selectsOne message [raw] &&
    acceptsMembers readers [(key, raw)] message.fields) = true
  rw [hknown, hone, acceptsMembers, acceptsMembers, hraw, hfield]
  simpa using haccepts

theorem accepts_float (bits : UInt64) :
    accepts readers (serializeDouble (doubleValue bits)) .double = true := by
  unfold doubleValue
  split_ifs <;> rfl

theorem accepts_integer (value : Int64) :
    accepts readers (.string (toString value.toInt)) .int64 = true := by
  have hlow := value.le_toInt
  have hhigh := value.toInt_lt
  have hparse : IntegerText.parseI64 (toString value.toInt) = .ok value.toInt :=
    IntegerText.parseInteger_toString (by decide) (by decide) hlow (by omega)
  have hread := OtlpScalars.parseTextI64_of_i64 hparse
  unfold OtlpScalars.parseTextI64 at hread
  rw [accepts]
  change (OtlpScalars.parseWithin (-2 ^ 63) (2 ^ 63 - 1) (toString value.toInt)).isSome = true
  rw [hread]
  rfl

theorem isPresent_double (value : DoubleRepr) : isPresent (serializeDouble value) = true := by
  cases value <;> rfl

mutual

/-- An encoded value has the OTLP shape. -/
theorem accepts_encoded : ∀ (value : CapturedValue),
    accepts readers (serializeValue (anyValue value)) (.message .anyValue) = true
  | .string _ => rfl
  | .integer value => accepts_single readers rfl rfl (accepts_integer readers value)
  | .unsigned _ => rfl
  | .float bits => accepts_single readers rfl (isPresent_double _) (accepts_float readers bits)
  | .bool _ => rfl
  | .list values => accepts_single readers rfl rfl
      (accepts_single readers rfl rfl (accepts_values values))
  | .set values => accepts_single readers rfl rfl
      (accepts_single readers rfl rfl (accepts_values values))
  | .map [] => rfl
  | .map (entry :: rest) => accepts_single readers rfl rfl
      (accepts_single readers rfl rfl (accepts_entries (entry :: rest)))

theorem accepts_values : ∀ (values : List CapturedValue),
    acceptsAll readers (serializeValues (anyValues values)) (.message .anyValue) = true
  | [] => rfl
  | value :: rest => by
      rw [anyValues, serializeValues, acceptsAll, accepts_encoded value, accepts_values rest]
      rfl

theorem accepts_entries : ∀ (entries : List (String × CapturedValue)),
    acceptsAll readers (serializeEntries (anyEntries entries)) (.message .keyValue) = true
  | [] => rfl
  | (key, value) :: rest => by
      have hentry : accepts readers
          (.object [("key", .string key), ("value", serializeValue (anyValue value))])
          (.message .keyValue) = true := by
        rw [accepts]
        change (true && true && acceptsMembers readers _ Message.keyValue.fields) = true
        rw [acceptsMembers, acceptsMembers, acceptsMembers]
        have hvalue : accepts readers (serializeValue (anyValue value)) (.message .anyValue) = true :=
          accepts_encoded value
        have hfield : fieldNamed Message.keyValue.fields "value" =
            some (plain "value" (.message .anyValue)) := rfl
        rw [hfield]
        change (true && true && ((_ || accepts readers _ (.message .anyValue)) && true)) = true
        rw [hvalue, Bool.or_true]
        rfl
      rw [anyEntries, serializeEntries, acceptsAll, hentry, accepts_entries rest]
      rfl

end

end Reading

mutual

theorem distinct_encoded : ∀ (value : CapturedValue),
    (serializeValue (anyValue value)).distinct = true
  | .string _ | .integer _ | .unsigned _ | .bool _ => rfl
  | .float bits => by
      rw [anyValue, serializeValue]
      cases doubleValue bits <;> rfl
  | .list values | .set values => by
      have hvalues := distinct_values values
      rw [anyValue, serializeValue]
      change (true && ((true && (Json.distinctAll (serializeValues (anyValues values)) && true)) &&
        true)) = true
      rw [hvalues]
      rfl
  | .map [] => rfl
  | .map (entry :: rest) => by
      have hentries := distinct_entries (entry :: rest)
      rw [anyValue, serializeValue]
      change (true && ((true && (Json.distinctAll (serializeEntries (anyEntries (entry :: rest))) &&
        true)) && true)) = true
      rw [hentries]
      rfl

theorem distinct_values : ∀ (values : List CapturedValue),
    Json.distinctAll (serializeValues (anyValues values)) = true
  | [] => rfl
  | value :: rest => by
      rw [anyValues, serializeValues, Json.distinctAll, distinct_encoded value,
        distinct_values rest]
      rfl

theorem distinct_entries : ∀ (entries : List (String × CapturedValue)),
    Json.distinctAll (serializeEntries (anyEntries entries)) = true
  | [] => rfl
  | (key, value) :: rest => by
      rw [anyEntries, serializeEntries, Json.distinctAll, distinct_entries rest, Json.distinct,
        Json.distinctEntries, Json.distinctEntries, distinct_encoded value]
      rfl

end

/-! ### Values with one image -/

/-- Captured values that differ by list and set, by an unsigned integer and its decimal
text, and in numbers that are counted as the same. -/
inductive Alike (same : UInt64 → UInt64 → Prop) : CapturedValue → CapturedValue → Prop
  | string (text : String) : Alike same (.string text) (.string text)
  | integer (value : Int64) : Alike same (.integer value) (.integer value)
  | bool (value : Bool) : Alike same (.bool value) (.bool value)
  | unsigned (value : UInt64) : Alike same (.unsigned value) (.unsigned value)
  | decimal (value : UInt64) : Alike same (.unsigned value) (.string (toString value.toNat))
  | text (value : UInt64) : Alike same (.string (toString value.toNat)) (.unsigned value)
  | float {left right : UInt64} (h : same left right) : Alike same (.float left) (.float right)
  | lists {lefts rights : List CapturedValue} (h : List.Forall₂ (Alike same) lefts rights) :
      Alike same (.list lefts) (.list rights)
  | listSet {lefts rights : List CapturedValue} (h : List.Forall₂ (Alike same) lefts rights) :
      Alike same (.list lefts) (.set rights)
  | setList {lefts rights : List CapturedValue} (h : List.Forall₂ (Alike same) lefts rights) :
      Alike same (.set lefts) (.list rights)
  | sets {lefts rights : List CapturedValue} (h : List.Forall₂ (Alike same) lefts rights) :
      Alike same (.set lefts) (.set rights)
  | maps {lefts rights : List (String × CapturedValue)}
      (hkeys : keys lefts = keys rights)
      (h : List.Forall₂ (Alike same) (lefts.map Prod.snd) (rights.map Prod.snd)) :
      Alike same (.map lefts) (.map rights)

/-- The same number, or no number on either side. -/
def SameNumber (left right : UInt64) : Prop :=
  left = right ∨ (isNan left = true ∧ isNan right = true)

theorem floatValue_nan {bits : UInt64} : floatValue bits = .nan ↔ isNan bits = true := by
  unfold floatValue
  split_ifs <;> simp_all

theorem floatValue_eq_iff {left right : UInt64} :
    floatValue left = floatValue right ↔ SameNumber left right := by
  constructor
  · intro h
    by_cases hnan : isNan left = true
    · rw [floatValue_nan.mpr hnan] at h
      exact .inr ⟨hnan, floatValue_nan.mp h.symm⟩
    · have hright : ¬isNan right = true := by
        intro hright
        rw [floatValue_nan.mpr hright] at h
        exact hnan (floatValue_nan.mp h)
      left
      apply UInt64.toNat_inj.mp
      unfold floatValue at h
      rw [dif_neg hnan, dif_neg hright] at h
      split_ifs at h <;> simp_all
  · rintro (rfl | ⟨hleft, hright⟩)
    · rfl
    · rw [floatValue_nan.mpr hleft, floatValue_nan.mpr hright]

theorem unsigned_of_text {left right : UInt64} (h : toString left.toNat = toString right.toNat) :
    left = right := by
  have hleft := (Decimal.parse_toString left.toNat_lt).2
  have hright := (Decimal.parse_toString right.toNat_lt).2
  rw [h, hright] at hleft
  exact UInt64.toNat_inj.mp (Option.some.inj hleft).symm

mutual

theorem alike_of_image : ∀ (left right : CapturedValue), image left = image right →
    Alike SameNumber left right
  | .string text, right, h => by
      cases right with
      | string other => rw [AnyValue.string.inj h]; exact .string other
      | unsigned value => rw [AnyValue.string.inj h]; exact .text value
      | _ => cases h
  | .integer value, right, h => by
      cases right with
      | integer other => rw [AnyValue.int.inj h]; exact .integer other
      | _ => cases h
  | .unsigned value, right, h => by
      cases right with
      | string other => rw [← AnyValue.string.inj h]; exact .decimal value
      | unsigned other =>
        rw [unsigned_of_text (AnyValue.string.inj h)]
        exact .unsigned other
      | _ => cases h
  | .float bits, right, h => by
      cases right with
      | float other => exact .float (floatValue_eq_iff.mp (AnyValue.double.inj h))
      | _ => cases h
  | .bool value, right, h => by
      cases right with
      | bool other => rw [AnyValue.bool.inj h]; exact .bool other
      | _ => cases h
  | .list values, right, h => by
      cases right with
      | list others => exact .lists (alike_of_images values others (AnyValue.array.inj h))
      | set others => exact .listSet (alike_of_images values others (AnyValue.array.inj h))
      | _ => cases h
  | .set values, right, h => by
      cases right with
      | list others => exact .setList (alike_of_images values others (AnyValue.array.inj h))
      | set others => exact .sets (alike_of_images values others (AnyValue.array.inj h))
      | _ => cases h
  | .map entries, right, h => by
      cases right with
      | map others =>
        have hentries := AnyValue.kvList.inj h
        have hkeys : keys entries = keys others := by
          rw [← keys_imageEntries entries, ← keys_imageEntries others, hentries]
        exact .maps hkeys (alike_of_entries entries others hentries)
      | _ => cases h

theorem alike_of_images : ∀ (lefts rights : List CapturedValue), images lefts = images rights →
    List.Forall₂ (Alike SameNumber) lefts rights
  | [], [], _ => .nil
  | [], _ :: _, h => by cases h
  | _ :: _, [], h => by cases h
  | left :: lefts, right :: rights, h =>
      .cons (alike_of_image left right (List.cons.inj h).1)
        (alike_of_images lefts rights (List.cons.inj h).2)

theorem alike_of_entries : ∀ (lefts rights : List (String × CapturedValue)),
    imageEntries lefts = imageEntries rights →
      List.Forall₂ (Alike SameNumber) (lefts.map Prod.snd) (rights.map Prod.snd)
  | [], [], _ => .nil
  | [], _ :: _, h => by cases h
  | _ :: _, [], h => by cases h
  | (_, left) :: lefts, (_, right) :: rights, h =>
      .cons (alike_of_image left right (Prod.mk.inj (List.cons.inj h).1).2)
        (alike_of_entries lefts rights (List.cons.inj h).2)

end

mutual

theorem image_of_alike : ∀ (left right : CapturedValue), Alike SameNumber left right →
    image left = image right
  | .string _, _, h => by cases h <;> rfl
  | .integer _, _, h => by cases h; rfl
  | .unsigned _, _, h => by cases h <;> rfl
  | .float _, _, h => by
      cases h with
      | float h => exact congrArg AnyValue.double (floatValue_eq_iff.mpr h)
  | .bool _, _, h => by cases h; rfl
  | .list values, _, h => by
      cases h with
      | lists h => exact congrArg AnyValue.array (images_of_alike values _ h)
      | listSet h => exact congrArg AnyValue.array (images_of_alike values _ h)
  | .set values, _, h => by
      cases h with
      | setList h => exact congrArg AnyValue.array (images_of_alike values _ h)
      | sets h => exact congrArg AnyValue.array (images_of_alike values _ h)
  | .map entries, _, h => by
      cases h with
      | maps hkeys h => exact congrArg AnyValue.kvList (entries_of_alike entries _ hkeys h)

theorem images_of_alike : ∀ (lefts rights : List CapturedValue),
    List.Forall₂ (Alike SameNumber) lefts rights → images lefts = images rights
  | [], _, h => by cases h; rfl
  | left :: lefts, _, h => by
      cases h with
      | cons hleft hrest =>
        rw [images, images, image_of_alike left _ hleft, images_of_alike lefts _ hrest]

theorem entries_of_alike : ∀ (lefts rights : List (String × CapturedValue)),
    keys lefts = keys rights →
      List.Forall₂ (Alike SameNumber) (lefts.map Prod.snd) (rights.map Prod.snd) →
        imageEntries lefts = imageEntries rights
  | [], [], _, _ => rfl
  | [], _ :: _, hkeys, _ => by cases hkeys
  | _ :: _, [], hkeys, _ => by cases hkeys
  | (key, left) :: lefts, (other, right) :: rights, hkeys, h => by
      rw [keys_cons, keys_cons] at hkeys
      obtain ⟨rfl, hrest⟩ := List.cons.inj hkeys
      rw [List.map_cons, List.map_cons, List.forall₂_cons] at h
      rw [imageEntries, imageEntries, image_of_alike left right h.1,
        entries_of_alike lefts rights hrest h.2]

end

theorem image_eq_iff {left right : CapturedValue} :
    image left = image right ↔ Alike SameNumber left right :=
  ⟨alike_of_image left right, image_of_alike left right⟩

/-! ### Transport -/

/-- A value inside a document: with the given number of containers around it, it is read
from its text, checked for the OTLP shape and read as a value of a trace. -/
def transport (readers : NumberReaders) (path location : String) (outer : Nat)
    (value : Value) : Option (Option AnyValue × List Validation.ValidationIssue) :=
  let json := serializeValue (anyValue value.captured)
  if outer + json.depth < Json.recursionLimit then
    if json.distinct && accepts readers json (.message .anyValue) then
      some (parseValue readers path json location)
    else none
  else none

/-- A transported value arrives as its image, unless its containers nest too deeply to be
read at all; and what the image forgets is the difference between lists and sets, between
unsigned integers and their decimal texts, and between the payloads of NaN. -/
theorem transport_eq (readers : NumberReaders) :
    (∀ (value : Value) (path location : String) (outer : Nat),
      transport readers path location outer value =
        if outer + (serializeValue (anyValue value.captured)).depth < Json.recursionLimit then
          some (some (image value.captured), [])
        else none) ∧
      ∀ left right : Value,
        image left.captured = image right.captured ↔ Alike SameNumber left.captured right.captured := by
  refine ⟨fun value path location outer => ?_, fun _ _ => image_eq_iff⟩
  have hread := readsAs_image readers value.captured value.ordered path location
  have haccepts := accepts_encoded readers value.captured
  have hdistinct := distinct_encoded value.captured
  unfold transport
  dsimp only
  rw [haccepts, hdistinct, hread]
  rfl

/-- A list of lists, as deep as given. -/
def nested : Nat → CapturedValue
  | 0 => .list []
  | depth + 1 => .list [nested depth]

theorem nested_ordered (depth : Nat) : MapsOrdered (nested depth) := by
  induction depth with
  | zero => exact trivial
  | succ depth ih => exact ⟨ih, trivial⟩

/-- Some values are too deep to be read, and two captured numbers that differ in nothing
but a payload become one. -/
theorem transport_loses : (∀ readers path location,
    transport readers path location 0 ⟨nested 42, nested_ordered 42⟩ = none) ∧
    ¬∀ left right : Value, image left.captured = image right.captured →
      Alike (· = ·) left.captured right.captured := by
  constructor
  · intro readers path location
    have hdepth : ¬0 + (serializeValue (anyValue (nested 42))).depth < Json.recursionLimit := by
      decide +kernel
    unfold transport
    rw [if_neg hdepth]
  · intro h
    have halike := h ⟨.float 0x7ff8000000000000, trivial⟩ ⟨.float 0x7ff8000000000001, trivial⟩ rfl
    cases halike with
    | float h => exact absurd h (by decide)

end SpecGate.TransportedValues

import SpecGate.SortedAssoc

/-!
Validation issues and the checks every registry pass shares.
A pass returns the issues it reports, in the order in which it reports them.
-/
namespace SpecGate.Validation

/-- One stable validation diagnostic. -/
structure ValidationIssue where
  location : String
  message : String
  deriving DecidableEq, Repr

def issue (location message : String) : List ValidationIssue := [⟨location, message⟩]

/-- The displayed document path and the place inside the document. -/
def located (path location : String) : String := s!"{path}:{location}"

/-- A character as `Debug` prints it inside a quoted text. -/
def debugChar (c : Char) : String :=
  if c = '"' then "\\\""
  else if c = '\\' then "\\\\"
  else if c = '\n' then "\\n"
  else if c = '\r' then "\\r"
  else if c = '\t' then "\\t"
  else c.toString

def debugText (text : String) : String :=
  "\"" ++ String.join (text.toList.map debugChar) ++ "\""

/-- The check of the trace passes, at a location that names its document already. -/
def requireAt (condition : Bool) (location message : String) : List ValidationIssue :=
  if condition then [] else issue location message

def require (condition : Bool) (path location message : String) : List ValidationIssue :=
  requireAt condition (located path location) message

def uniqueFrom (path location field : String) (seen : List String) :
    List String → List ValidationIssue
  | [] => []
  | value :: rest =>
      (if value ∈ seen then issue (located path location) s!"duplicate {field} '{value}'" else []) ++
        uniqueFrom path location field (value :: seen) rest

def unique (values : List String) (path location field : String) : List ValidationIssue :=
  uniqueFrom path location field [] values

/-- SHA-256 rendered as two lowercase hexadecimal digits a byte. -/
def sha256HexLength : Nat := 64

def isHexDigit (c : Char) : Bool := ('0' ≤ c && c ≤ '9') || ('a' ≤ c && c ≤ 'f')

def isDigest (value : String) : Bool :=
  let digestPrefix := "sha256:".toList
  let text := value.toList
  text.take digestPrefix.length == digestPrefix &&
    (text.drop digestPrefix.length).length == sha256HexLength &&
    (text.drop digestPrefix.length).all isHexDigit

@[simp] theorem issue_ne_nil (location message : String) : issue location message ≠ [] := by
  simp [issue]

@[simp] theorem requireAt_eq_nil {condition : Bool} {location message : String} :
    requireAt condition location message = [] ↔ condition = true := by
  cases condition <;> simp [requireAt]

@[simp] theorem require_eq_nil {condition : Bool} {path location message : String} :
    require condition path location message = [] ↔ condition = true := by
  rw [require, requireAt_eq_nil]

theorem uniqueFrom_eq_nil {path location field : String} {values seen : List String} :
    uniqueFrom path location field seen values = [] ↔
      values.Nodup ∧ ∀ value ∈ values, value ∉ seen := by
  induction values generalizing seen with
  | nil => simp [uniqueFrom]
  | cons value rest ih =>
    rw [uniqueFrom, List.append_eq_nil_iff, ih, List.nodup_cons]
    by_cases hseen : value ∈ seen
    · simp [hseen]
    · simp only [hseen, if_false, true_and, List.mem_cons, not_or, forall_eq_or_imp,
        not_false_eq_true]
      constructor
      · rintro ⟨hrest, hnot⟩
        exact ⟨⟨fun hmem => (hnot value hmem).1 rfl, hrest⟩, fun v hv => (hnot v hv).2⟩
      · rintro ⟨⟨hvalue, hrest⟩, hnot⟩
        exact ⟨hrest, fun v hv => ⟨fun heq => hvalue (heq ▸ hv), hnot v hv⟩⟩

@[simp] theorem unique_eq_nil {values : List String} {path location field : String} :
    unique values path location field = [] ↔ values.Nodup := by
  simp [unique, uniqueFrom_eq_nil]

section Traversal

variable {α β : Type*}

/-- A traversal of a list with positions reports nothing when no position does. -/
theorem flatMap_zipIdx_eq_nil {values : List α} {f : α × Nat → List β} :
    values.zipIdx.flatMap f = [] ↔ ∀ i (h : i < values.length), f (values[i], i) = [] := by
  rw [List.flatMap_eq_nil_iff]
  constructor
  · intro hall i h
    refine hall _ ?_
    rw [List.mk_mem_zipIdx_iff_getElem?, List.getElem?_eq_getElem h]
  · rintro hall ⟨value, i⟩ hmem
    rw [List.mk_mem_zipIdx_iff_getElem?, List.getElem?_eq_some_iff] at hmem
    obtain ⟨h, rfl⟩ := hmem
    exact hall i h

theorem flatMap_attach_zipIdx (values : List α) (f : α → Nat → List β) :
    values.attach.zipIdx.flatMap (fun p => f p.1.1 p.2) =
      values.zipIdx.flatMap fun p => f p.1 p.2 := by
  have hmap : values.zipIdx = values.attach.zipIdx.map fun p => (p.1.1, p.2) := by
    conv_lhs => rw [← List.attach_map_subtype_val values]
    rw [List.zipIdx_map]
    rfl
  rw [hmap, List.flatMap_map]

end Traversal

end SpecGate.Validation

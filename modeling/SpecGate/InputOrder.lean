import SpecGate.ImportClosure

/-!
The order of the explicit imports. Two loads that are given the same files in different
orders go through states with the same files, whose candidates are permuted and which
report something or nothing alike, so they select the same documents.
-/
namespace SpecGate.InputOrder

open RegistryModel Validation SortedAssoc RegistryShape RegistrySemantics RegistryLoading
open ImportSelection

set_option linter.unusedSectionVars false

variable {Path : Type} [Ord Path] [Std.TransOrd Path] [Std.LawfulEqOrd Path]

/-- States with the same files, as far as their issues are not compared. -/
structure Twin (left right : LoadState Path) : Prop where
  files : left.filesByPath = right.filesByPath
  candidates : ∀ registryId, (left.candidates registryId).Perm (right.candidates registryId)
  clean : left.issues = [] ↔ right.issues = []

theorem Twin.refl (state : LoadState Path) : Twin state state :=
  ⟨rfl, fun _ => List.Perm.refl _, Iff.rfl⟩

theorem Twin.trans {a b c : LoadState Path} (hab : Twin a b) (hbc : Twin b c) : Twin a c :=
  ⟨hab.files.trans hbc.files, fun id => (hab.candidates id).trans (hbc.candidates id),
    hab.clean.trans hbc.clean⟩

theorem Twin.report {left right : LoadState Path} (h : Twin left right)
    (issues : List ValidationIssue) : Twin (left.report issues) (right.report issues) := by
  refine ⟨h.files, h.candidates, ?_⟩
  simp only [LoadState.report, List.append_eq_nil_iff, h.clean]

/-! ### One file -/

section Files

variable {env : Environment Path}

theorem insertCandidate_clean {file : RegistryFile Path} {state : LoadState Path} :
    (insertCandidate env file state).issues = [] ↔
      state.issues = [] ∧ state.candidates file.document.registryId = [] := by
  rw [insertCandidate, List.append_eq_nil_iff]
  cases state.candidates file.document.registryId with
  | nil => simp
  | cons existing rest => simp [issue_ne_nil]

theorem Twin.insertCandidate {left right : LoadState Path} (h : Twin left right)
    (file : RegistryFile Path) :
    Twin (insertCandidate env file left) (insertCandidate env file right) := by
  refine ⟨?_, fun registryId => ?_, ?_⟩
  · rw [RegistryLoading.insertCandidate, RegistryLoading.insertCandidate, h.files]
  · rw [candidates_insertCandidate, candidates_insertCandidate]
    split
    · exact (h.candidates registryId).append_right _
    · exact h.candidates registryId
  · have hcandidates := h.candidates file.document.registryId
    rw [insertCandidate_clean, insertCandidate_clean, h.clean]
    constructor
    · rintro ⟨hissues, hnil⟩
      exact ⟨hissues, List.nil_perm.mp (hnil ▸ hcandidates)⟩
    · rintro ⟨hissues, hnil⟩
      exact ⟨hissues, List.perm_nil.mp (hnil ▸ hcandidates)⟩

theorem Twin.loadCandidate {left right : LoadState Path} (h : Twin left right) (path : Path)
    (reportReadError : Bool) :
    Twin (loadCandidate env path reportReadError left)
      (loadCandidate env path reportReadError right) := by
  rw [RegistryLoading.loadCandidate, RegistryLoading.loadCandidate]
  rcases loadFile env path reportReadError with ⟨_ | file, issues⟩
  · exact h.report issues
  · exact (h.report issues).insertCandidate file

theorem Twin.loadInput {left right : LoadState Path} (h : Twin left right) (path : Path) :
    Twin (loadInput env left path) (loadInput env right path) := by
  rw [RegistryLoading.loadInput, RegistryLoading.loadInput, h.files]
  split
  · exact h
  · exact h.loadCandidate path true

/-- An input that adds no issue. -/
def Fine (env : Environment Path) (state : LoadState Path) (path : Path) : Prop :=
  SortedAssoc.contains state.filesByPath path = true ∨
    ∃ file, readRegistry env path = some file ∧
      validateShape file.document (env.display path) = [] ∧
      state.candidates file.document.registryId = []

theorem loadInput_known {state : LoadState Path} {path : Path}
    (hknown : SortedAssoc.contains state.filesByPath path = true) :
    loadInput env state path = state := by
  rw [loadInput, if_pos hknown]

theorem loadCandidate_none {state : LoadState Path} {path : Path}
    (hread : readRegistry env path = none) :
    loadCandidate env path true state = state.report (loadFile env path true).2 ∧
      (loadFile env path true).2 ≠ [] := by
  have hfile := loadFile_fst env path true
  rw [hread] at hfile
  refine ⟨by simp only [loadCandidate, hfile], ?_⟩
  unfold loadFile at hfile ⊢
  cases hbytes : lookup env.files path with
  | none => exact issue_ne_nil _ _
  | some bytes =>
    cases hdocument : env.parseDocument bytes with
    | error error =>
      simp only [hdocument]
      exact issue_ne_nil _ _
    | ok document => simp [hbytes, hdocument] at hfile

theorem loadCandidate_some {state : LoadState Path} {path : Path} {file : RegistryFile Path}
    (hread : readRegistry env path = some file) (reportReadError : Bool) :
    loadCandidate env path reportReadError state = insertCandidate env file
      (state.report (validateShape file.document (env.display path))) := by
  have hfile := loadFile_fst env path reportReadError
  obtain ⟨-, -, -, -, -, hissues⟩ := readRegistry_some hread
  simp only [loadCandidate, hfile, hread, hissues reportReadError]

theorem lookup_loadInput_self (state : LoadState Path) (path : Path) :
    lookup (loadInput env state path).filesByPath path =
      (lookup state.filesByPath path).or (readRegistry env path) := by
  by_cases hknown : SortedAssoc.contains state.filesByPath path = true
  · obtain ⟨file, hfile⟩ := exists_lookup_iff.mpr (contains_iff.mp hknown)
    rw [loadInput_known hknown, hfile, Option.some_or]
  · have habsent : lookup state.filesByPath path = none :=
      lookup_eq_none_iff.mpr fun hmem => hknown (contains_iff.mpr hmem)
    rw [loadInput, if_neg hknown, habsent, Option.none_or]
    cases hread : readRegistry env path with
    | none =>
      rw [(loadCandidate_none hread).1]
      exact habsent
    | some file =>
      obtain ⟨-, -, -, -, hpath, -⟩ := readRegistry_some hread
      rw [loadCandidate_some hread, insertCandidate, hpath]
      exact lookup_insert_self _ _ _

theorem lookup_loadInput_of_ne (state : LoadState Path) {path other : Path} (hne : path ≠ other) :
    lookup (loadInput env state path).filesByPath other = lookup state.filesByPath other := by
  rw [loadInput]
  split
  · rfl
  · cases hread : readRegistry env path with
    | none =>
      rw [(loadCandidate_none hread).1]
      rfl
    | some file =>
      obtain ⟨-, -, -, -, hpath, -⟩ := readRegistry_some hread
      rw [loadCandidate_some hread, insertCandidate, hpath]
      exact lookup_insert_of_ne hne _ _

theorem loadInput_clean (state : LoadState Path) (path : Path) :
    (loadInput env state path).issues = [] ↔ state.issues = [] ∧ Fine env state path := by
  by_cases hknown : SortedAssoc.contains state.filesByPath path = true
  · rw [loadInput_known hknown]
    exact ⟨fun h => ⟨h, .inl hknown⟩, And.left⟩
  · rw [loadInput, if_neg hknown, Fine, or_iff_right hknown]
    cases hread : readRegistry env path with
    | none =>
      obtain ⟨hload, hissues⟩ : loadCandidate env path true state =
          state.report (loadFile env path true).2 ∧ (loadFile env path true).2 ≠ [] :=
        loadCandidate_none hread
      rw [hload]
      simp [LoadState.report, hissues]
    | some file =>
      rw [loadCandidate_some hread, insertCandidate_clean]
      simp only [LoadState.report, List.append_eq_nil_iff, Option.some.injEq, exists_eq_left']
      exact and_assoc

theorem faithful_loadInput {state : LoadState Path} (h : Faithful env state) (path : Path) :
    Faithful env (loadInput env state path) := by
  rw [loadInput]
  split
  · exact h
  · rename_i hnew
    exact h.loadCandidate (fun hmem => hnew (contains_iff.mpr hmem)) true

end Files

/-! ### The expansion -/

section Expansion

variable {env : Environment Path}

theorem Twin.followUri {left right : LoadState Path} (h : Twin left right) (path : Path)
    (location : String) (imported : RegistryImport) :
    Twin (followUri env path location imported left) (followUri env path location imported right) := by
  rw [RegistryLoading.followUri, RegistryLoading.followUri, h.files]
  split
  · exact h
  · split
    · split
      · exact h
      · exact h.loadCandidate _ false
    · exact h
    · exact h.report _

/-- Twin states with the same selection. -/
structure TwinSelection (left right : Selection Path) : Prop where
  state : Twin left.toLoadState right.toLoadState
  selected : left.selected = right.selected
  pending : left.pending = right.pending

theorem TwinSelection.matchImport {left right : Selection Path} (h : TwinSelection left right)
    (path : Path) (location : String) (used : Bool) (imported : RegistryImport) :
    TwinSelection (matchImport env path location used imported left)
      (matchImport env path location used imported right) := by
  have hcandidates := h.state.candidates imported.registryId
  have hreport : ∀ issues : List ValidationIssue, TwinSelection
      { left with toLoadState := left.toLoadState.report issues }
      { right with toLoadState := right.toLoadState.report issues } := fun issues =>
    ⟨h.state.report issues, h.selected, h.pending⟩
  rw [RegistryLoading.matchImport, RegistryLoading.matchImport]
  cases hleft : left.candidates imported.registryId with
  | nil =>
    rw [hleft] at hcandidates
    rw [List.nil_perm.mp hcandidates]
    cases used with
    | false => exact h
    | true => exact hreport _
  | cons first rest =>
    rw [hleft] at hcandidates
    cases rest with
    | nil =>
      rw [← List.singleton_perm.mp hcandidates, h.state.files, h.selected, h.pending]
      dsimp only
      cases lookup right.filesByPath first with
      | none => exact h
      | some candidate =>
        dsimp only
        split
        · exact ⟨h.state.report _, rfl, rfl⟩
        · exact ⟨h.state.report _, rfl, rfl⟩
    | cons second rest =>
      -- More than one candidate on either side.
      cases hright : right.candidates imported.registryId with
      | nil =>
        rw [hright] at hcandidates
        cases List.perm_nil.mp hcandidates
      | cons first' rest' =>
        cases rest' with
        | nil =>
          rw [hright] at hcandidates
          cases List.perm_singleton.mp hcandidates
        | cons second' rest' => exact hreport _

theorem TwinSelection.expandImport {left right : Selection Path} (h : TwinSelection left right)
    (path : Path) (document : RegistryDocument) (entry : RegistryImport × Nat) :
    TwinSelection (expandImport env path document left entry)
      (expandImport env path document right entry) := by
  have hfollowed : TwinSelection (followed env path entry left) (followed env path entry right) :=
    ⟨h.state.followUri path _ entry.1, h.selected, h.pending⟩
  exact hfollowed.matchImport path _ _ entry.1

theorem TwinSelection.expandPath {left right : Selection Path} (h : TwinSelection left right)
    (path : Path) : TwinSelection (expandPath env path left) (expandPath env path right) := by
  rw [RegistryLoading.expandPath, RegistryLoading.expandPath, h.state.files]
  cases lookup right.filesByPath path with
  | none => exact h
  | some file =>
    dsimp only
    generalize file.document.imports.zipIdx = entries
    induction entries generalizing left right with
    | nil => exact h
    | cons entry rest ih => exact ih (h.expandImport path file.document entry)

theorem TwinSelection.expand {fuel : Nat} {left right final final' : Selection Path}
    (h : TwinSelection left right) (hleft : expand env fuel left = some final)
    (hright : expand env fuel right = some final') : TwinSelection final final' := by
  induction fuel generalizing left right with
  | zero =>
    unfold RegistryLoading.expand at hleft hright
    rw [← h.pending] at hright
    cases hpending : left.pending with
    | nil =>
      rw [hpending] at hleft hright
      exact Option.some.inj hleft ▸ Option.some.inj hright ▸ h
    | cons path rest =>
      rw [hpending] at hleft
      cases hleft
  | succ fuel ih =>
    unfold RegistryLoading.expand at hleft hright
    rw [← h.pending] at hright
    cases hpending : left.pending with
    | nil =>
      rw [hpending] at hleft hright
      exact Option.some.inj hleft ▸ Option.some.inj hright ▸ h
    | cons path rest =>
      rw [hpending] at hleft hright
      have hpop : TwinSelection { left with pending := rest } { right with pending := rest } :=
        ⟨h.state, h.selected, rfl⟩
      exact ih (hpop.expandPath path) hleft hright

end Expansion

end SpecGate.InputOrder

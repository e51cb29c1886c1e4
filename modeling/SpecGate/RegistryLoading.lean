import SpecGate.RegistrySemantics

/-!
Loading a root registry with its imports.
The explicit files are candidates from the start; an import with a local `file:`
URI may add one more. A document joins the selection when an import of a selected
document names the only candidate of its identity with the exact version and
digest. Whatever lies outside the repository (paths, JSON and URI libraries, the
digest) is part of the environment; the file system is a finite table of files.
-/
namespace SpecGate.RegistryLoading

open RegistryModel Validation SortedAssoc RegistryShape RegistrySemantics

abbrev Bytes := List UInt8

/-- The services the loader calls. `relativeTo base text` is the decoded text as a
path, joined to the directory of `base` unless it is absolute. -/
structure Environment (Path : Type) where
  files : List (Path × Bytes)
  readError : Path → String
  display : Path → String
  canonicalize : Path → Path
  relativeTo : Path → String → Path
  parseDocument : Bytes → Except String RegistryDocument
  sha256Digest : Bytes → String
  parseAuthority : String → Except String String
  percentDecode : String → Except String String

structure RegistryFile (Path : Type) where
  path : Path
  digest : String
  document : RegistryDocument

structure Loaded (α : Type) where
  value : Option α
  issues : List ValidationIssue

variable {Path : Type} [Ord Path]

def stripPrefix (text pattern : String) : Option String :=
  if pattern.toList.isPrefixOf text.toList then
    some (String.ofList (text.toList.drop pattern.toList.length))
  else none

def asciiLower (text : String) : List Char := text.toList.map Char.toLower

def networkMessage (form uri : String) : String :=
  s!"automatic registry import resolution does not support {form} '{uri}'; " ++
    "download the registry and supply its local path with --import"

/-- Resolve a local `file:` hint of the document at `base`; another scheme is no hint. -/
def resolveUri (env : Environment Path) (base : Path) (uri : String) :
    Except String (Option Path) :=
  match stripPrefix uri "file:" with
  | none => .ok none
  | some raw =>
      if raw.toList.contains '?' || raw.toList.contains '#' then
        .error s!"file URI must not contain a query or fragment: '{uri}'"
      else do
        let (authority, path) := match stripPrefix raw "//" with
          | some network =>
              (String.ofList (network.toList.takeWhile (· != '/')),
                String.ofList (network.toList.dropWhile (· != '/')))
          | none => ("", raw)
        if authority ≠ "" then
          match env.parseAuthority authority with
          | .error error => throw s!"invalid file URI '{uri}': {error}"
          | .ok parsed =>
              if asciiLower parsed ≠ asciiLower "localhost" then
                throw (networkMessage "network file URI" uri)
        match env.percentDecode path with
        | .error error => throw s!"file URI path is not UTF-8: {error}"
        | .ok decoded =>
            if (stripPrefix decoded "//").isSome || (stripPrefix decoded "\\\\").isSome then
              throw (networkMessage "UNC or network file URI" uri)
            else
              return some (env.canonicalize (env.relativeTo base decoded))

/-- Candidate files by path, their paths by registry identity, and the issues so far. -/
structure LoadState (Path : Type) where
  filesByPath : List (Path × RegistryFile Path)
  pathsById : List (String × List Path)
  issues : List ValidationIssue

namespace LoadState

def report (state : LoadState Path) (issues : List ValidationIssue) : LoadState Path :=
  { state with issues := state.issues ++ issues }

def candidates (state : LoadState Path) (registryId : String) : List Path :=
  (lookup state.pathsById registryId).getD []

omit [Ord Path] in
@[simp] theorem report_nil (state : LoadState Path) : state.report [] = state := by
  simp [report]

end LoadState

def loadFile (env : Environment Path) (path : Path) (reportReadError : Bool) :
    Option (RegistryFile Path) × List ValidationIssue :=
  match lookup env.files path with
  | none =>
      (none, if reportReadError then
          issue (located (env.display path) "$") s!"failed to read file: {env.readError path}"
        else [])
  | some bytes =>
      match env.parseDocument bytes with
      | .error error =>
          (none, issue (located (env.display path) "$") s!"invalid CTSC registry JSON: {error}")
      | .ok document =>
          (some ⟨path, env.sha256Digest bytes, document⟩, validateShape document (env.display path))

def insertCandidate (env : Environment Path) (file : RegistryFile Path) (state : LoadState Path) :
    LoadState Path :=
  let registryId := file.document.registryId
  let paths := state.candidates registryId
  { filesByPath := SortedAssoc.insert file.path file state.filesByPath
    pathsById := SortedAssoc.insert registryId (paths ++ [file.path]) state.pathsById
    issues := state.issues ++ match paths.head? with
      | none => []
      | some existing =>
          issue (located (env.display file.path) "$.registryId")
            (s!"registry ID '{registryId}' has ambiguous candidates " ++
              s!"{env.display existing} and {env.display file.path}") }

/-- Read a file and, when it parses, make it a candidate. -/
def loadCandidate (env : Environment Path) (path : Path) (reportReadError : Bool)
    (state : LoadState Path) : LoadState Path :=
  let (file, issues) := loadFile env path reportReadError
  match file with
  | none => state.report issues
  | some file => insertCandidate env file (state.report issues)

/-- The candidates together with the selected paths and those still to expand. -/
structure Selection (Path : Type) extends LoadState Path where
  selected : List (Path × Unit)
  pending : List Path

/-- Load the file an import's URI points to, unless it is a candidate already. -/
def followUri (env : Environment Path) (path : Path) (location : String)
    (imported : RegistryImport) (state : LoadState Path) : LoadState Path :=
  match imported.uri with
  | none => state
  | some uri =>
      match resolveUri env path uri with
      | .ok (some candidate) =>
          if SortedAssoc.contains state.filesByPath candidate then state
          else loadCandidate env candidate false state
      | .ok none => state
      | .error error => state.report (issue (located (env.display path) s!"{location}.uri") error)

/-- Match one import against the only candidate of its identity. -/
def matchImport (env : Environment Path) (path : Path) (location : String) (used : Bool)
    (imported : RegistryImport) (state : Selection Path) : Selection Path :=
  let report (issues : List ValidationIssue) : Selection Path :=
    { state with toLoadState := state.toLoadState.report issues }
  let place := located (env.display path) location
  match state.candidates imported.registryId with
  | [] =>
      if used then
        report (issue place (s!"unresolved import '{imported.registryId}'; " ++
          "supply --import or a local file: URI"))
      else state
  | [candidatePath] =>
      match lookup state.filesByPath candidatePath with
      | none => state
      | some candidate =>
          let versionMatches := candidate.document.version == imported.version
          let digestMatches := candidate.digest == imported.digest
          let reported := report
            (require versionMatches (env.display path) location
              "imported registry version does not match referenced version" ++
            require digestMatches (env.display path) location
              "imported registry digest does not match exact file bytes")
          if versionMatches && digestMatches &&
              !SortedAssoc.contains state.selected candidatePath then
            { reported with
              selected := SortedAssoc.insert candidatePath () state.selected
              pending := state.pending ++ [candidatePath] }
          else reported
  | _ =>
      report (issue place s!"import '{imported.registryId}' has ambiguous candidate registry files")

def expandImport (env : Environment Path) (path : Path) (document : RegistryDocument)
    (state : Selection Path) (entry : RegistryImport × Nat) : Selection Path :=
  let location := s!"$.imports[{entry.2}]"
  let used := documentUses document entry.1.registryId
  matchImport env path location used entry.1
    { state with toLoadState := followUri env path location entry.1 state.toLoadState }

/-- Expand every import of the document at a selected path. -/
def expandPath (env : Environment Path) (path : Path) (state : Selection Path) : Selection Path :=
  match lookup state.filesByPath path with
  | none => state
  | some file => file.document.imports.zipIdx.foldl (expandImport env path file.document) state

/-- Work through the pending paths in order; `none` when the fuel runs out first. -/
def expand (env : Environment Path) : Nat → Selection Path → Option (Selection Path)
  | fuel, state =>
      match state.pending with
      | [] => some state
      | path :: rest =>
          match fuel with
          | 0 => none
          | fuel + 1 => expand env fuel (expandPath env path { state with pending := rest })

/-- A path given twice is reported and loaded once. -/
def duplicateInputs (env : Environment Path) (seen : List (Path × Unit)) :
    List Path → List ValidationIssue
  | [] => []
  | path :: rest =>
      (if SortedAssoc.contains seen path then
        issue (located (env.display path) "$") "duplicate registry input path" else []) ++
      duplicateInputs env (SortedAssoc.insert path () seen) rest

def loadInput (env : Environment Path) (state : LoadState Path) (path : Path) : LoadState Path :=
  if SortedAssoc.contains state.filesByPath path then state else loadCandidate env path true state

def initialState (env : Environment Path) (root : Path) (explicitImports : List Path) :
    LoadState Path :=
  let inputs := env.canonicalize root :: explicitImports.map env.canonicalize
  inputs.foldl (loadInput env) ⟨[], [], duplicateInputs env [] inputs⟩

/-- The selected documents by registry identity, and where each one lies. -/
def selectedDocuments (state : Selection Path) : Documents :=
  ofList ((keys state.selected).filterMap fun path =>
    (lookup state.filesByPath path).map fun file => (file.document.registryId, file.document))

def selectedPaths (env : Environment Path) (state : Selection Path) : DocumentPaths :=
  ofList ((keys state.selected).filterMap fun path =>
    (lookup state.filesByPath path).map fun file =>
      (file.document.registryId, env.display file.path))

def finish (env : Environment Path) (root : RegistryFile Path) (state : Selection Path) :
    Loaded RegistrySet :=
  let documents := selectedDocuments state
  let paths := selectedPaths env state
  let collected := collectComponents (env.display root.path) documents
  { value := some ⟨root.document.registryId, root.document.version, root.digest, collected.1⟩
    issues := state.issues ++ validateCycles documents paths ++ validateSemantics documents paths ++
      collected.2 }

/-- The selection reached from the root once every pending path is expanded. -/
def select (env : Environment Path) (root : Path) (explicitImports : List Path) :
    Option (Selection Path) :=
  expand env (env.files.length + 1)
    { initialState env root explicitImports with
      selected := [(env.canonicalize root, ())]
      pending := [env.canonicalize root] }

/-- Load the set of a root registry. `none` would mean an unfinished expansion. -/
def loadFs (env : Environment Path) (root : Path) (explicitImports : List Path) :
    Option (Loaded RegistrySet) :=
  let initial := initialState env root explicitImports
  match lookup initial.filesByPath (env.canonicalize root) with
  | none => some ⟨none, initial.issues⟩
  | some file => (select env root explicitImports).map (finish env file)

/-- The registry file that reading a path yields, whatever else has been loaded. -/
def readRegistry (env : Environment Path) (path : Path) : Option (RegistryFile Path) :=
  (loadFile env path false).1

theorem loadFile_fst (env : Environment Path) (path : Path) (reportReadError : Bool) :
    (loadFile env path reportReadError).1 = readRegistry env path := by
  rw [readRegistry, loadFile, loadFile]
  cases lookup env.files path with
  | none => rfl
  | some bytes => cases env.parseDocument bytes <;> rfl

theorem readRegistry_some {env : Environment Path} {path : Path} {file : RegistryFile Path}
    (h : readRegistry env path = some file) : ∃ bytes, lookup env.files path = some bytes ∧
      env.parseDocument bytes = .ok file.document ∧ file.digest = env.sha256Digest bytes ∧
      file.path = path ∧ ∀ reportReadError, (loadFile env path reportReadError).2 =
        validateShape file.document (env.display path) := by
  rw [readRegistry, loadFile] at h
  cases hbytes : lookup env.files path with
  | none => simp [hbytes] at h
  | some bytes =>
    cases hdocument : env.parseDocument bytes with
    | error error => simp [hbytes, hdocument] at h
    | ok document =>
      simp only [hbytes, hdocument, Option.some.injEq] at h
      subst h
      exact ⟨bytes, rfl, hdocument, rfl, rfl, fun _ => by simp [loadFile, hbytes, hdocument]⟩

section Invariant

set_option linter.unusedSectionVars false

variable [Std.TransOrd Path] [Std.LawfulEqOrd Path]

/-- The candidate tables describe the loaded paths and nothing else. -/
structure Faithful (env : Environment Path) (state : LoadState Path) : Prop where
  sorted : Sorted state.filesByPath
  files : ∀ path file, lookup state.filesByPath path = some file → readRegistry env path = some file
  candidates : ∀ registryId path, path ∈ state.candidates registryId ↔
    ∃ file, lookup state.filesByPath path = some file ∧ file.document.registryId = registryId
  single : state.issues = [] → ∀ registryId, (state.candidates registryId).length ≤ 1
  shaped : state.issues = [] → ∀ path file, lookup state.filesByPath path = some file →
    validateShape file.document (env.display path) = []

theorem faithful_nil (env : Environment Path) (issues : List ValidationIssue) :
    Faithful env ⟨[], [], issues⟩ := by
  refine ⟨sorted_nil, ?_, ?_, ?_, ?_⟩
  · simp
  · simp [LoadState.candidates]
  · simp [LoadState.candidates]
  · simp

theorem Faithful.report {env : Environment Path} {state : LoadState Path}
    (h : Faithful env state) (issues : List ValidationIssue) :
    Faithful env (state.report issues) := by
  refine ⟨h.sorted, h.files, h.candidates, fun hnil => h.single ?_, fun hnil => h.shaped ?_⟩
  · exact (List.append_eq_nil_iff.mp hnil).1
  · exact (List.append_eq_nil_iff.mp hnil).1

theorem candidates_insertCandidate (env : Environment Path) (file : RegistryFile Path)
    (state : LoadState Path) (registryId : String) :
    (insertCandidate env file state).candidates registryId =
      if file.document.registryId = registryId then state.candidates registryId ++ [file.path]
      else state.candidates registryId := by
  by_cases hid : file.document.registryId = registryId
  · subst hid
    simp [LoadState.candidates, insertCandidate, lookup_insert_self]
  · simp [LoadState.candidates, insertCandidate, lookup_insert_of_ne hid, hid]

theorem Faithful.insertCandidate {env : Environment Path} {state : LoadState Path}
    (h : Faithful env state) {path : Path} {file : RegistryFile Path}
    (hread : readRegistry env path = some file)
    (hshape : state.issues = [] → validateShape file.document (env.display path) = [])
    (hnew : path ∉ keys state.filesByPath) : Faithful env (insertCandidate env file state) := by
  classical
  obtain ⟨-, -, -, -, hpath, -⟩ := readRegistry_some hread
  have hlookup : ∀ other, lookup (RegistryLoading.insertCandidate env file state).filesByPath other =
      if path = other then some file else lookup state.filesByPath other := by
    intro other
    by_cases hother : path = other
    · subst hother
      simp [RegistryLoading.insertCandidate, hpath, lookup_insert_self]
    · simp [RegistryLoading.insertCandidate, hpath, hother, lookup_insert_of_ne hother]
  have habsent : lookup state.filesByPath path = none := lookup_eq_none_iff.mpr hnew
  have hissues : (RegistryLoading.insertCandidate env file state).issues = [] →
      state.issues = [] ∧ state.candidates file.document.registryId = [] := by
    intro hnil
    obtain ⟨hold, hambiguous⟩ := List.append_eq_nil_iff.mp hnil
    refine ⟨hold, ?_⟩
    cases hcase : state.candidates file.document.registryId with
    | nil => rfl
    | cons first rest => simp [hcase] at hambiguous
  refine ⟨sorted_insert _ _ h.sorted, ?_, ?_, ?_, ?_⟩
  · intro other found hfound
    rw [hlookup] at hfound
    split at hfound
    · rename_i hother
      subst hother
      exact hread.trans hfound
    · exact h.files other found hfound
  · intro registryId other
    rw [candidates_insertCandidate, hlookup]
    by_cases hother : path = other
    · subst hother
      have hold : path ∉ state.candidates registryId := by
        rw [h.candidates, habsent]
        simp
      by_cases hid : file.document.registryId = registryId <;> simp [hid, hold, hpath]
    · rw [if_neg hother, ← h.candidates]
      by_cases hid : file.document.registryId = registryId <;> simp [hid, hpath, Ne.symm hother]
  · intro hnil registryId
    obtain ⟨hold, hempty⟩ := hissues hnil
    rw [candidates_insertCandidate]
    split
    · rename_i hid
      subst hid
      simp [hempty]
    · exact h.single hold registryId
  · intro hnil other found hfound
    obtain ⟨hold, -⟩ := hissues hnil
    rw [hlookup] at hfound
    split at hfound
    · rename_i hother
      subst hother
      obtain rfl := Option.some.inj hfound
      exact hshape hold
    · exact h.shaped hold other found hfound

theorem Faithful.loadCandidate {env : Environment Path} {state : LoadState Path}
    (h : Faithful env state) {path : Path} (hnew : path ∉ keys state.filesByPath)
    (reportReadError : Bool) : Faithful env (loadCandidate env path reportReadError state) := by
  rw [RegistryLoading.loadCandidate]
  have hfile := loadFile_fst env path reportReadError
  cases hread : readRegistry env path with
  | none =>
    rw [hread] at hfile
    simp only [hfile]
    exact h.report _
  | some file =>
    rw [hread] at hfile
    simp only [hfile]
    obtain ⟨-, -, -, -, -, hissues⟩ := readRegistry_some hread
    refine (h.report _).insertCandidate hread (fun hnil => ?_) hnew
    rw [← hissues reportReadError]
    exact (List.append_eq_nil_iff.mp hnil).2

theorem Faithful.followUri {env : Environment Path} {state : LoadState Path}
    (h : Faithful env state) (path : Path) (location : String) (imported : RegistryImport) :
    Faithful env (followUri env path location imported state) := by
  rw [RegistryLoading.followUri]
  split
  · exact h
  · split
    · split
      · exact h
      · rename_i hnew
        exact h.loadCandidate (fun hmem => hnew (contains_iff.mpr hmem)) false
    · exact h
    · exact h.report _

theorem faithful_initialState (env : Environment Path) (root : Path)
    (explicitImports : List Path) : Faithful env (initialState env root explicitImports) := by
  rw [initialState]
  generalize env.canonicalize root :: explicitImports.map env.canonicalize = inputs
  generalize duplicateInputs env [] inputs = issues
  have hfold : ∀ (paths : List Path) (state : LoadState Path), Faithful env state →
      Faithful env (paths.foldl (loadInput env) state) := by
    intro paths
    induction paths with
    | nil => exact fun state h => h
    | cons path rest ih =>
      intro state h
      refine ih _ ?_
      rw [loadInput]
      split
      · exact h
      · rename_i hnew
        exact h.loadCandidate (fun hmem => hnew (contains_iff.mpr hmem)) true
  exact hfold inputs _ (faithful_nil env issues)

end Invariant

end SpecGate.RegistryLoading

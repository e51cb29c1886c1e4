import SpecGate.ImportSelection

/-!
The selection of a load without issues, as a closure. Every selected document is reached
from the root by imports that name it exactly; every import of a selected document is
matched by a selected document or is unused and has no document of its own to offer; and
collecting the selection by registry identity loses none of it.
-/
namespace SpecGate.ImportClosure

open RegistryModel Validation SortedAssoc RegistryShape RegistrySemantics RegistryLoading
open ImportSelection

set_option linter.unusedSectionVars false

variable {Path : Type} [Ord Path] [Std.TransOrd Path] [Std.LawfulEqOrd Path]

/-- A file is the document that an import names. -/
structure Provides (file : RegistryFile Path) (imported : RegistryImport) : Prop where
  registryId : file.document.registryId = imported.registryId
  version : file.document.version = imported.version
  digest : file.digest = imported.digest

/-- The path that the own hint of an import leads to. -/
def HintsAt (env : Environment Path) (path : Path) (imported : RegistryImport) (target : Path) :
    Prop :=
  ∃ uri, imported.uri = some uri ∧ resolveUri env path uri = .ok (some target)

/-- Neither an input of the load nor the own hint of the import has its identity. -/
structure Unoffered (env : Environment Path) (inputs : LoadState Path) (path : Path)
    (imported : RegistryImport) : Prop where
  inputs : ∀ other file, lookup inputs.filesByPath other = some file →
    file.document.registryId ≠ imported.registryId
  hint : ∀ target file, HintsAt env path imported target → readRegistry env target = some file →
    file.document.registryId ≠ imported.registryId

/-- What a run without issues has done with one import of an expanded document. -/
structure Processed (env : Environment Path) (inputs : LoadState Path) (state : Selection Path)
    (path : Path) (document : RegistryDocument) (imported : RegistryImport) : Prop where
  resolved : ∀ uri, imported.uri = some uri → ∃ target, resolveUri env path uri = .ok target
  loaded : ∀ target, HintsAt env path imported target →
    target ∈ keys state.filesByPath ∨ lookup env.files target = none
  matched : (∃ other file, other ∈ keys state.selected ∧
      lookup state.filesByPath other = some file ∧ Provides file imported) ∨
    (documentUses document imported.registryId = false ∧ Unoffered env inputs path imported)

/-- A selection that has only grown. -/
structure Grows (old new : Selection Path) : Prop where
  extends_ : Extends old.toLoadState new.toLoadState
  selected : ∀ path ∈ keys old.selected, path ∈ keys new.selected

theorem Grows.refl (state : Selection Path) : Grows state state :=
  ⟨Extends.refl _, fun _ h => h⟩

theorem Grows.trans {a b c : Selection Path} (hab : Grows a b) (hbc : Grows b c) : Grows a c :=
  ⟨hab.extends_.trans hbc.extends_, fun path h => hbc.selected path (hab.selected path h)⟩

theorem Processed.grows {env : Environment Path} {inputs : LoadState Path}
    {old new : Selection Path} {path : Path} {document : RegistryDocument}
    {imported : RegistryImport} (h : Processed env inputs old path document imported)
    (hgrows : Grows old new) : Processed env inputs new path document imported := by
  refine ⟨h.resolved, fun target htarget => ?_, ?_⟩
  · rcases h.loaded target htarget with hmem | hnone
    · obtain ⟨file, hfile⟩ := exists_lookup_iff.mpr hmem
      exact .inl (exists_lookup_iff.mp ⟨file, hgrows.extends_.files target file hfile⟩)
    · exact .inr hnone
  · rcases h.matched with ⟨other, file, hother, hfile, hprovides⟩ | hunoffered
    · exact .inl ⟨other, file, hgrows.selected other hother,
        hgrows.extends_.files other file hfile, hprovides⟩
    · exact .inr hunoffered

/-! ### One import -/

section Step

variable {env : Environment Path} {inputs : LoadState Path} {state : Selection Path}

theorem MatchOutcome.grows {used : Bool} {imported : RegistryImport} {next : Selection Path}
    (h : MatchOutcome state used imported next) : Grows state next := by
  cases h with
  | unused => exact Grows.refl _
  | rejected issues => exact ⟨⟨fun _ _ h => h, issues, rfl⟩, fun _ h => h⟩
  | known => exact Grows.refl _
  | added => exact ⟨Extends.refl _, fun _ h => mem_keys_insert.mpr (.inr h)⟩

theorem grows_expandImport (h : Grounded env state) (path : Path) (document : RegistryDocument)
    (entry : RegistryImport × Nat) : Grows state (expandImport env path document state entry) := by
  have hfollow : Grows state (followed env path entry state) :=
    ⟨extends_followUri env path s!"$.imports[{entry.2}]" entry.1 _, fun _ h => h⟩
  exact hfollow.trans (MatchOutcome.grows (expandImport_outcome h path document entry))

theorem loadCandidate_clean {path : Path} {loaded : LoadState Path}
    (hclean : (loadCandidate env path false loaded).issues = []) :
    path ∈ keys (loadCandidate env path false loaded).filesByPath ∨
      lookup env.files path = none := by
  cases hbytes : lookup env.files path with
  | none => exact .inr rfl
  | some bytes =>
    left
    cases hdocument : env.parseDocument bytes with
    | error error =>
      have hissues : (loadCandidate env path false loaded).issues ≠ [] := by
        simp [loadCandidate, loadFile, hbytes, hdocument, LoadState.report]
      exact absurd hclean hissues
    | ok document =>
      simp only [loadCandidate, loadFile, hbytes, hdocument, insertCandidate]
      exact mem_keys_insert.mpr (.inl rfl)

/-- Following a hint without an issue resolves it, and loads what it finds. -/
theorem followUri_clean {path : Path} {location : String} {imported : RegistryImport}
    (hclean : (followUri env path location imported state.toLoadState).issues = []) :
    (∀ uri, imported.uri = some uri → ∃ target, resolveUri env path uri = .ok target) ∧
    ∀ target, HintsAt env path imported target →
      target ∈ keys (followUri env path location imported state.toLoadState).filesByPath ∨
        lookup env.files target = none := by
  unfold followUri at hclean ⊢
  cases huri : imported.uri with
  | none => exact ⟨fun uri h => by simp at h, fun target ⟨uri, h, _⟩ => by simp [huri] at h⟩
  | some uri =>
    rw [huri] at hclean
    dsimp only at hclean ⊢
    cases hresolve : resolveUri env path uri with
    | error error =>
      rw [hresolve] at hclean
      simp [LoadState.report] at hclean
    | ok found =>
      rw [hresolve] at hclean
      refine ⟨fun other h => ?_, fun target htarget => ?_⟩
      · obtain rfl := Option.some.inj h
        exact ⟨found, hresolve⟩
      · obtain ⟨other, hother, htarget⟩ := htarget
        rw [huri] at hother
        obtain rfl := Option.some.inj hother
        rw [hresolve] at htarget
        obtain rfl := Except.ok.inj htarget
        dsimp only at hclean ⊢
        by_cases hknown : SortedAssoc.contains state.filesByPath target = true
        · rw [if_pos hknown]
          exact .inl (contains_iff.mp hknown)
        · rw [if_neg hknown] at hclean ⊢
          exact loadCandidate_clean hclean

/-- A matched candidate is the document that the import names. -/
theorem provides_of_matched (hfaithful : Faithful env state.toLoadState) {imported : RegistryImport}
    {candidatePath : Path} {candidate : RegistryFile Path}
    (hmatch : Matched state imported candidatePath candidate) : Provides candidate imported := by
  have hmem : candidatePath ∈ state.candidates imported.registryId := by
    rw [hmatch.only]
    exact List.mem_singleton_self _
  obtain ⟨file, hfile, hid⟩ := (hfaithful.candidates _ _).mp hmem
  have heq : candidate = file := Option.some.inj (hmatch.loaded.symm.trans hfile)
  exact ⟨heq ▸ hid, hmatch.version, hmatch.digest⟩

theorem processed_of_clean (h : Grounded env state)
    (hinputs : ∀ other file, lookup inputs.filesByPath other = some file →
      lookup state.filesByPath other = some file) {path : Path} {document : RegistryDocument}
    {entry : RegistryImport × Nat}
    (hclean : (expandImport env path document state entry).issues = []) :
    Processed env inputs (expandImport env path document state entry) path document entry.1 := by
  have houtcome := expandImport_outcome h path document entry
  have hfaithful : Faithful env (followed env path entry state).toLoadState :=
    (h.followUri path s!"$.imports[{entry.2}]" entry.1).faithful
  have hextends : Extends state.toLoadState (followed env path entry state).toLoadState :=
    extends_followUri env path s!"$.imports[{entry.2}]" entry.1 state.toLoadState
  have hgrows := MatchOutcome.grows houtcome
  obtain ⟨hresolved, hloaded⟩ := followUri_clean (hgrows.extends_.issues_nil hclean)
  refine ⟨hresolved, fun target htarget => ?_, ?_⟩
  · rcases hloaded target htarget with hmem | hnone
    · obtain ⟨file, hfile⟩ := exists_lookup_iff.mpr hmem
      exact .inl (exists_lookup_iff.mp ⟨file, hgrows.extends_.files target file hfile⟩)
    · exact .inr hnone
  · generalize expandImport env path document state entry = next at hclean houtcome ⊢
    cases houtcome with
    | rejected issues hissues => exact absurd (List.append_eq_nil_iff.mp hclean).2 hissues
    | @known candidatePath candidate hmatch hselected =>
      exact .inl ⟨candidatePath, candidate, hselected, hmatch.loaded,
        provides_of_matched hfaithful hmatch⟩
    | @added candidatePath candidate hmatch hnew =>
      exact .inl ⟨candidatePath, candidate, mem_keys_insert.mpr (.inl rfl), hmatch.loaded,
        provides_of_matched hfaithful hmatch⟩
    | unused hcandidates hused =>
      have hnone : ∀ other file, lookup (followed env path entry state).filesByPath other =
          some file → file.document.registryId ≠ entry.1.registryId := by
        intro other file hfile hid
        have hcandidate := (hfaithful.candidates entry.1.registryId other).mpr ⟨file, hfile, hid⟩
        rw [hcandidates] at hcandidate
        cases hcandidate
      refine .inr ⟨hused, fun other file hfile => ?_, fun target file htarget hread => ?_⟩
      · exact hnone other file (hextends.files other file (hinputs other file hfile))
      · rcases hloaded target htarget with hmem | hmissing
        · obtain ⟨found, hfound⟩ := exists_lookup_iff.mpr hmem
          have hsame : found = file :=
            Option.some.inj ((hfaithful.files target found hfound).symm.trans hread)
          exact hsame ▸ hnone target found hfound
        · obtain ⟨bytes, hbytes, -⟩ := readRegistry_some hread
          rw [hmissing] at hbytes
          cases hbytes

end Step

/-! ### One document -/

/-- The document at one path names the document at another in an import. -/
def Names (env : Environment Path) (source target : Path) : Prop :=
  ∃ file imported found, readRegistry env source = some file ∧
    imported ∈ file.document.imports ∧ readRegistry env target = some found ∧
    Provides found imported

/-- What expanding the document at a path may change. -/
structure Expands (env : Environment Path) (path : Path) (old new : Selection Path) : Prop where
  grows : Grows old new
  pending : ∀ other ∈ old.pending, other ∈ new.pending
  added : ∀ other ∈ keys new.selected, other ∈ keys old.selected ∨
    (other ∈ new.pending ∧ Names env path other)

theorem Expands.refl (env : Environment Path) (path : Path) (state : Selection Path) :
    Expands env path state state := ⟨Grows.refl _, fun _ h => h, fun _ h => .inl h⟩

theorem Expands.trans {env : Environment Path} {path : Path} {a b c : Selection Path}
    (hab : Expands env path a b) (hbc : Expands env path b c) : Expands env path a c := by
  refine ⟨hab.grows.trans hbc.grows, fun other h => hbc.pending other (hab.pending other h), ?_⟩
  intro other hother
  rcases hbc.added other hother with hold | hnew
  · rcases hab.added other hold with hold | ⟨hpending, hnames⟩
    · exact .inl hold
    · exact .inr ⟨hbc.pending other hpending, hnames⟩
  · exact .inr hnew

section Document

variable {env : Environment Path} {inputs : LoadState Path} {state : Selection Path}

theorem expands_expandImport (h : Grounded env state) {path : Path} {file : RegistryFile Path}
    (hfile : readRegistry env path = some file) {entry : RegistryImport × Nat}
    (hentry : entry.1 ∈ file.document.imports) :
    Expands env path state (expandImport env path file.document state entry) := by
  have houtcome := expandImport_outcome h path file.document entry
  have hfaithful : Faithful env (followed env path entry state).toLoadState :=
    (h.followUri path s!"$.imports[{entry.2}]" entry.1).faithful
  refine ⟨grows_expandImport h path file.document entry, ?_, ?_⟩
  · generalize expandImport env path file.document state entry = next at houtcome ⊢
    cases houtcome with
    | added hmatch hnew => exact fun other hother => List.mem_append_left _ hother
    | _ => exact fun other hother => hother
  · generalize expandImport env path file.document state entry = next at houtcome ⊢
    cases houtcome with
    | @added candidatePath candidate hmatch hnew =>
      intro other hother
      rcases mem_keys_insert.mp hother with rfl | hold
      · exact .inr ⟨List.mem_append_right _ (List.mem_singleton_self _), file, entry.1, candidate,
          hfile, hentry, hfaithful.files _ _ hmatch.loaded, provides_of_matched hfaithful hmatch⟩
      · exact .inl hold
    | _ => exact fun other hother => .inl hother

/-- Expanding imports one after the other, all of them of one document. -/
theorem expandImports_spec {path : Path} {file : RegistryFile Path}
    (hfile : readRegistry env path = some file) {entries : List (RegistryImport × Nat)}
    (hentries : ∀ entry ∈ entries, entry.1 ∈ file.document.imports) (h : Grounded env state)
    (hinputs : Extends inputs state.toLoadState) :
    Expands env path state (entries.foldl (expandImport env path file.document) state) ∧
      ((entries.foldl (expandImport env path file.document) state).issues = [] →
        ∀ entry ∈ entries, Processed env inputs
          (entries.foldl (expandImport env path file.document) state) path file.document
            entry.1) := by
  induction entries generalizing state with
  | nil => exact ⟨Expands.refl _ _ _, fun _ entry hentry => by cases hentry⟩
  | cons entry rest ih =>
    have hstep := expands_expandImport h hfile (hentries entry List.mem_cons_self)
    obtain ⟨hrest, hprocessed⟩ := ih (fun other hother => hentries other
      (List.mem_cons_of_mem _ hother)) (h.expandImport path file.document entry)
      (hinputs.trans hstep.grows.extends_)
    rw [List.foldl_cons]
    refine ⟨hstep.trans hrest, fun hclean other hother => ?_⟩
    rcases List.mem_cons.mp hother with rfl | hother
    · have hfirst := processed_of_clean h hinputs.files (hrest.grows.extends_.issues_nil hclean)
      exact hfirst.grows hrest.grows
    · exact hprocessed hclean other hother

theorem expandPath_spec (h : Grounded env state) (hinputs : Extends inputs state.toLoadState)
    {path : Path} (hpath : path ∈ keys state.selected) :
    Expands env path state (expandPath env path state) ∧
      ((expandPath env path state).issues = [] → ∀ file,
        lookup (expandPath env path state).filesByPath path = some file →
          ∀ imported ∈ file.document.imports,
            Processed env inputs (expandPath env path state) path file.document imported) := by
  obtain ⟨file, hfile⟩ := h.loaded path hpath
  have hread := h.faithful.files path file hfile
  have hentries : ∀ entry ∈ file.document.imports.zipIdx, entry.1 ∈ file.document.imports :=
    fun entry hentry => List.fst_mem_of_mem_zipIdx hentry
  obtain ⟨hexpands, hprocessed⟩ := expandImports_spec hread hentries h hinputs
  have hexpand : expandPath env path state =
      file.document.imports.zipIdx.foldl (expandImport env path file.document) state := by
    rw [expandPath, hfile]
  rw [hexpand]
  refine ⟨hexpands, fun hclean found hfound imported himported => ?_⟩
  obtain rfl : file = found :=
    Option.some.inj ((hexpands.grows.extends_.files path file hfile).symm.trans hfound)
  obtain ⟨position, hposition⟩ := List.mem_iff_getElem?.mp himported
  exact hprocessed hclean (imported, position) (List.mk_mem_zipIdx_iff_getElem?.mpr hposition)

end Document

/-! ### A run -/

/-- Both documents are selected and the first names the second. -/
def SelectedEdge (env : Environment Path) (state : Selection Path) (source target : Path) : Prop :=
  source ∈ keys state.selected ∧ target ∈ keys state.selected ∧ Names env source target

/-- The invariant of an expansion. -/
structure Settled (env : Environment Path) (inputs : LoadState Path) (root : Path)
    (state : Selection Path) : Prop where
  grounded : Grounded env state
  started : Extends inputs state.toLoadState
  rooted : root ∈ keys state.selected
  reachable : ∀ path ∈ keys state.selected,
    Relation.ReflTransGen (SelectedEdge env state) root path
  processed : state.issues = [] → ∀ path ∈ keys state.selected, path ∉ state.pending →
    ∀ file, lookup state.filesByPath path = some file → ∀ imported ∈ file.document.imports,
      Processed env inputs state path file.document imported

theorem Settled.step {env : Environment Path} {inputs : LoadState Path} {root path : Path}
    {state : Selection Path} {rest : List Path} (h : Settled env inputs root state)
    (hpending : state.pending = path :: rest) :
    Settled env inputs root (expandPath env path { state with pending := rest }) := by
  have hpath : path ∈ keys state.selected :=
    h.grounded.pending path (hpending ▸ List.mem_cons_self)
  have hpop := h.grounded.pop hpending
  obtain ⟨hexpands, hprocessed⟩ := expandPath_spec hpop h.started hpath
  have hgrounded := hpop.expandPath path
  generalize expandPath env path { state with pending := rest } = next at *
  have hselected : ∀ other ∈ keys state.selected, other ∈ keys next.selected :=
    hexpands.grows.selected
  have hmono : ∀ source target, SelectedEdge env state source target →
      SelectedEdge env next source target := fun source target hedge =>
    ⟨hselected _ hedge.1, hselected _ hedge.2.1, hedge.2.2⟩
  refine ⟨hgrounded, h.started.trans hexpands.grows.extends_, hselected _ h.rooted, ?_, ?_⟩
  · intro other hother
    rcases hexpands.added other hother with hold | ⟨-, hnames⟩
    · exact Relation.ReflTransGen.mono hmono _ _ (h.reachable other hold)
    · exact (Relation.ReflTransGen.mono hmono _ _ (h.reachable path hpath)).tail
        ⟨hselected path hpath, hother, hnames⟩
  · intro hclean other hother hdone file hfile imported himported
    by_cases hcurrent : other = path
    · subst hcurrent
      exact hprocessed hclean file hfile imported himported
    · rcases hexpands.added other hother with hold | ⟨hlast, -⟩
      · have hnot : other ∉ state.pending := by
          rw [hpending, List.mem_cons, not_or]
          exact ⟨hcurrent, fun hrest => hdone (hexpands.pending other hrest)⟩
        obtain ⟨found, hfound⟩ := h.grounded.loaded other hold
        obtain rfl : found = file :=
          Option.some.inj ((hexpands.grows.extends_.files other found hfound).symm.trans hfile)
        exact (h.processed (hexpands.grows.extends_.issues_nil hclean) other hold hnot found hfound
          imported himported).grows ⟨hexpands.grows.extends_, hselected⟩
      · exact absurd hlast hdone

/-- The state that a load without issues ends in. -/
theorem select_settled {env : Environment Path} {root : Path} {explicitImports : List Path}
    {file : RegistryFile Path} {final : Selection Path}
    (hroot : lookup (initialState env root explicitImports).filesByPath (env.canonicalize root) =
      some file) (hselect : select env root explicitImports = some final) :
    Settled env (initialState env root explicitImports) (env.canonicalize root) final ∧
      final.pending = [] := by
  have hgrounded : Grounded env (rootState env root explicitImports) := grounded_rootState hroot
  refine expand_induction (fun state path rest h hpending => h.step hpending) hselect ?_
  refine ⟨hgrounded, Extends.refl _, ?_, ?_, ?_⟩
  · exact List.mem_singleton_self _
  · intro path hpath
    obtain rfl := List.mem_singleton.mp hpath
    exact Relation.ReflTransGen.refl
  · intro _ path hpath hdone
    obtain rfl := List.mem_singleton.mp hpath
    exact absurd (List.mem_singleton_self _) hdone

/-! ### The closure -/

section Closure

variable {env : Environment Path} {root : Path} {explicitImports : List Path}

/-- In a state without issues an identity has one file. -/
theorem path_unique {state : LoadState Path} (hfaithful : Faithful env state)
    (hclean : state.issues = []) {first second : Path} {left right : RegistryFile Path}
    (hfirst : lookup state.filesByPath first = some left)
    (hsecond : lookup state.filesByPath second = some right)
    (hid : left.document.registryId = right.document.registryId) : first = second := by
  have hlength := hfaithful.single hclean right.document.registryId
  have hmemFirst := (hfaithful.candidates right.document.registryId first).mpr ⟨left, hfirst, hid⟩
  have hmemSecond := (hfaithful.candidates right.document.registryId second).mpr ⟨right, hsecond, rfl⟩
  generalize state.candidates right.document.registryId = paths at hlength hmemFirst hmemSecond
  cases paths with
  | nil => cases hmemFirst
  | cons only rest =>
    cases rest with
    | nil =>
      rw [List.mem_singleton] at hmemFirst hmemSecond
      rw [hmemFirst, hmemSecond]
    | cons next rest => simp at hlength

/-- The document at a selected path, under its registry identity. -/
def selectedEntry (state : Selection Path) (path : Path) : Option (String × RegistryDocument) :=
  (lookup state.filesByPath path).map fun file => (file.document.registryId, file.document)

theorem selectedEntries_nodup {state : Selection Path} (h : Grounded env state)
    (hclean : state.issues = []) :
    (keys ((keys state.selected).filterMap (selectedEntry state))).Nodup := by
  unfold SortedAssoc.keys
  rw [List.map_filterMap]
  refine List.Nodup.filterMap ?_ h.sorted.keys_nodup
  intro first second id hfirst hsecond
  simp only [selectedEntry, Option.map_map, Option.mem_def, Option.map_eq_some_iff,
    Function.comp_apply] at hfirst hsecond
  obtain ⟨left, hleft, hleftId⟩ := hfirst
  obtain ⟨right, hright, hrightId⟩ := hsecond
  exact path_unique h.faithful hclean hleft hright (hleftId.trans hrightId.symm)

theorem lookup_selectedDocuments {state : Selection Path} (h : Grounded env state)
    (hclean : state.issues = []) {path : Path} (hpath : path ∈ keys state.selected)
    {file : RegistryFile Path} (hfile : lookup state.filesByPath path = some file) :
    lookup (selectedDocuments state) file.document.registryId = some file.document := by
  have hnodup := selectedEntries_nodup h hclean
  have hmem : (file.document.registryId, file.document) ∈
      (keys state.selected).filterMap (selectedEntry state) := by
    refine List.mem_filterMap.mpr ⟨path, hpath, ?_⟩
    unfold selectedEntry
    rw [hfile, Option.map_some]
  exact lookup_of_mem (sorted_ofList _).keys_nodup ((ofList_perm hnodup).mem_iff.mpr hmem)

theorem length_selectedDocuments {state : Selection Path} (h : Grounded env state)
    (hclean : state.issues = []) :
    (selectedDocuments state).length = (keys state.selected).length := by
  have hall : ∀ path ∈ keys state.selected, (selectedEntry state path).isSome = true := by
    intro path hpath
    obtain ⟨file, hfile⟩ := h.loaded path hpath
    simp [selectedEntry, hfile]
  have hentries : selectedDocuments state =
      ofList ((keys state.selected).filterMap (selectedEntry state)) := rfl
  rw [hentries, (ofList_perm (selectedEntries_nodup h hclean)).length_eq]
  exact List.filterMap_length_eq_length.mpr hall

/-- A reference is found in a selected document, which is the own one or an imported one. -/
def ResolvesIn (documents : Documents) (registryId : String) (document : RegistryDocument)
    (component : RegistryComponent) (name : String) (componentId referenced : Option String) :
    Prop :=
  ∃ owner target definition, lookup documents (referenced.getD registryId) = some owner ∧
    target ∈ owner.components ∧ target.id = componentId.getD component.id ∧
    definition ∈ target.types ∧ definition.name = name ∧
    (referenced.getD registryId = registryId ∨
      ∃ imported ∈ document.imports, imported.registryId = referenced.getD registryId)

/-- A declared dependency is found likewise. -/
def DependsIn (documents : Documents) (registryId : String) (document : RegistryDocument)
    (dependency : ComponentRef) : Prop :=
  ∃ owner target, lookup documents (dependency.registryId.getD registryId) = some owner ∧
    target ∈ owner.components ∧ target.id = dependency.componentId ∧
    (dependency.registryId.getD registryId = registryId ∨
      ∃ imported ∈ document.imports, imported.registryId = dependency.registryId.getD registryId)

theorem resolvesIn_of_nil {documents : Documents} {registryId path location name : String}
    {document : RegistryDocument} {component : RegistryComponent}
    {componentId referenced : Option String}
    (hdocument : lookup documents registryId = some document)
    (h : (scopeOf documents registryId path document component).resolveReference location name
      componentId referenced = []) :
    ResolvesIn documents registryId document component name componentId referenced := by
  obtain ⟨owner, target, definition, howner, htarget, hid, hdefinition, hname⟩ :=
    resolveReference_found hdocument h
  refine ⟨owner, target, definition, howner, htarget, hid, hdefinition, hname, ?_⟩
  by_cases hown : referenced.getD registryId = registryId
  · exact .inl hown
  · right
    rw [Scope.resolveReference, List.append_eq_nil_iff] at h
    have himports := h.1
    have hforeign : referenced.getD (scopeOf documents registryId path document
        component).currentRegistry ≠ (scopeOf documents registryId path document
        component).currentRegistry := hown
    rw [if_pos hforeign, List.append_eq_nil_iff, require_eq_nil] at himports
    have hany := himports.1
    unfold Scope.imports at hany
    rw [show (scopeOf documents registryId path document component).documents = documents from rfl,
      show (scopeOf documents registryId path document component).currentRegistry = registryId
        from rfl, hdocument] at hany
    obtain ⟨imported, himported, heq⟩ := List.any_eq_true.mp hany
    exact ⟨imported, himported, beq_iff_eq.mp heq⟩

theorem dependsIn_of_nil {documents : Documents} {registryId path location : String}
    {document : RegistryDocument} {dependency : ComponentRef}
    (h : resolveDependency documents registryId path document dependency location = []) :
    DependsIn documents registryId document dependency := by
  unfold resolveDependency at h
  dsimp only at h
  rw [List.append_eq_nil_iff, require_eq_nil] at h
  obtain ⟨himports, hfound⟩ := h
  cases howner : lookup documents (dependency.registryId.getD registryId) with
  | none =>
    rw [howner] at hfound
    cases hfound
  | some owner =>
    rw [howner] at hfound
    obtain ⟨target, htarget, hid⟩ := List.any_eq_true.mp hfound
    refine ⟨owner, target, howner, htarget, beq_iff_eq.mp hid, ?_⟩
    by_cases hown : dependency.registryId.getD registryId = registryId
    · exact .inl hown
    · right
      rw [if_pos hown, require_eq_nil] at himports
      obtain ⟨imported, himported, heq⟩ := List.any_eq_true.mp himports
      exact ⟨imported, himported, beq_iff_eq.mp heq⟩

end Closure

/-- What a load without issues has selected, out of what its inputs offer. -/
structure Closed (env : Environment Path) (inputs : LoadState Path) (root : Path)
    (final : Selection Path) (set : RegistrySet) : Prop where
  rooted : root ∈ keys final.selected
  reachable : ∀ path ∈ keys final.selected,
    Relation.ReflTransGen (SelectedEdge env final) root path
  matched : ∀ path ∈ keys final.selected, ∀ file, readRegistry env path = some file →
    ∀ imported ∈ file.document.imports,
      (∃ other found, other ∈ keys final.selected ∧ readRegistry env other = some found ∧
        Provides found imported) ∨
      (documentUses file.document imported.registryId = false ∧
        Unoffered env inputs path imported)
  registries : ∀ first ∈ keys final.selected, ∀ second ∈ keys final.selected, ∀ left right,
    readRegistry env first = some left → readRegistry env second = some right →
      left.document.registryId = right.document.registryId → first = second
  kept : ∀ path ∈ keys final.selected, ∃ file, readRegistry env path = some file ∧
    lookup (selectedDocuments final) file.document.registryId = some file.document
  length : (selectedDocuments final).length = (keys final.selected).length
  components : (keys (allComponents (selectedDocuments final))).Nodup
  indexed : set.components = ofList (allComponents (selectedDocuments final))
  references : ∀ entry ∈ selectedDocuments final, ∀ component ∈ entry.2.components,
    ∀ name componentId referenced, Declares component (.named name componentId referenced) →
      ResolvesIn (selectedDocuments final) entry.1 entry.2 component name componentId referenced
  dependencies : ∀ entry ∈ selectedDocuments final, ∀ component ∈ entry.2.components,
    ∀ dependency ∈ component.dependencies,
      DependsIn (selectedDocuments final) entry.1 entry.2 dependency

/-- The selection of a load without issues is closed under imports, up to imports that are
unused and have nothing to offer. -/
theorem selection_closed {env : Environment Path} {root : Path} {explicitImports : List Path}
    {set : RegistrySet} (h : loadFs env root explicitImports = some ⟨some set, []⟩) :
    ∃ final, select env root explicitImports = some final ∧
      Closed env (initialState env root explicitImports) (env.canonicalize root) final set := by
  obtain ⟨file, final, hroot, hselect, -, -, -, hfinish⟩ := loadFs_some h
  obtain ⟨hsettled, hpending⟩ := select_settled hroot hselect
  simp only [finish, Loaded.mk.injEq, Option.some.injEq, List.append_eq_nil_iff] at hfinish
  obtain ⟨rfl, ⟨⟨hclean, -⟩, hsemantics⟩, hcollect⟩ := hfinish
  have hgrounded := hsettled.grounded
  have hread : ∀ path ∈ keys final.selected, ∀ file, readRegistry env path = some file →
      lookup final.filesByPath path = some file := by
    intro path hpath file hfile
    obtain ⟨found, hfound⟩ := hgrounded.loaded path hpath
    rw [hfound, ← hgrounded.faithful.files path found hfound, hfile]
  rw [validateSemantics, List.append_eq_nil_iff, List.flatMap_eq_nil_iff] at hsemantics
  refine ⟨final, hselect, hsettled.rooted, hsettled.reachable, ?_, ?_, ?_,
    length_selectedDocuments hgrounded hclean, collectComponents_nodup hcollect,
    collectComponents_fst _ _, ?_, ?_⟩
  · intro path hpath file hfile imported himported
    have hdone : path ∉ final.pending := by
      rw [hpending]
      exact List.not_mem_nil
    rcases (hsettled.processed hclean path hpath hdone file (hread path hpath file hfile) imported
      himported).matched with ⟨other, found, hother, hfound, hprovides⟩ | hunoffered
    · exact .inl ⟨other, found, hother, hgrounded.faithful.files other found hfound, hprovides⟩
    · exact .inr hunoffered
  · intro first hfirst second hsecond left right hleft hright hid
    exact path_unique hgrounded.faithful hclean (hread first hfirst left hleft)
      (hread second hsecond right hright) hid
  · intro path hpath
    obtain ⟨file, hfile⟩ := hgrounded.loaded path hpath
    exact ⟨file, hgrounded.faithful.files path file hfile,
      lookup_selectedDocuments hgrounded hclean hpath hfile⟩
  · intro entry hentry component hcomponent name componentId referenced hdeclares
    obtain ⟨root, hroot, hwithin⟩ := hdeclares
    obtain ⟨index, hindex⟩ := mem_of_flatMap_zipIdx (hsemantics.2 entry hentry) hcomponent
    obtain ⟨place, hplace⟩ := resolveComponent_channel hindex hroot
    obtain ⟨place, hplace⟩ := resolveType_within hplace hwithin
    exact resolvesIn_of_nil (lookup_of_mem (sorted_ofList _).keys_nodup hentry) hplace
  · intro entry hentry component hcomponent dependency hdependency
    obtain ⟨index, hindex⟩ := mem_of_flatMap_zipIdx (hsemantics.2 entry hentry) hcomponent
    simp only [resolveComponent, List.append_eq_nil_iff] at hindex
    obtain ⟨position, hposition⟩ := mem_of_flatMap_zipIdx hindex.1.1 hdependency
    exact dependsIn_of_nil hposition

/-! ### An import that finds its document too late -/

def leafDigest : String :=
  "sha256:0000000000000000000000000000000000000000000000000000000000000000"

def plainComponent (id : String) : RegistryComponent where
  id := id
  dependencies := []
  operations := []
  types := []
  extensions := []

def plainDocument (registryId : String) (imports : List RegistryImport) : RegistryDocument where
  format := "ctsc.registry"
  formatVersion := "0.4.0"
  registryId := registryId
  version := "1.0.0"
  imports := imports
  components := [plainComponent registryId]
  extensions := []

/-- The second import has no document of its own, but its hint leads to the leaf. -/
def rootDocument : RegistryDocument :=
  plainDocument "root.registry"
    [⟨"leaf.registry", "1.0.0", leafDigest, none⟩,
      ⟨"other.registry", "1.0.0", leafDigest, some "file:leaf.json"⟩]

/-- The root at the first path and the leaf at the second. -/
def leafEnvironment : Environment Nat where
  files := [(0, []), (1, [1])]
  readError := fun _ => "no such file"
  display := fun path => if path = 0 then "root.json" else "leaf.json"
  canonicalize := id
  relativeTo := fun _ _ => 1
  parseDocument := fun bytes =>
    .ok (if bytes.isEmpty then rootDocument else plainDocument "leaf.registry" [])
  sha256Digest := fun _ => leafDigest
  parseAuthority := .ok
  percentDecode := .ok

def leafSet : RegistrySet where
  rootId := "root.registry"
  rootVersion := "1.0.0"
  rootDigest := leafDigest
  components :=
    [("leaf.registry", ⟨"leaf.registry", plainComponent "leaf.registry"⟩),
      ("root.registry", ⟨"root.registry", plainComponent "root.registry"⟩)]

theorem leaf_loads : loadFs leafEnvironment 0 [1] = some ⟨some leafSet, []⟩ := rfl

theorem selection_closed_leaf : ∃ final, select leafEnvironment 0 [1] = some final ∧
    Closed leafEnvironment (initialState leafEnvironment 0 [1]) 0 final leafSet :=
  selection_closed leaf_loads

/-- The selection need not hold every candidate that its imports name exactly. -/
theorem late_candidate_unselected :
    ¬ ∀ (env : Environment Nat) (root : Nat) (explicitImports : List Nat) (set : RegistrySet)
      (final : Selection Nat), loadFs env root explicitImports = some ⟨some set, []⟩ →
        select env root explicitImports = some final →
          ∀ path, path ∈ keys final.selected ↔ Relation.ReflTransGen
            (fun source target => target ∈ keys final.filesByPath ∧ Names env source target)
              (env.canonicalize root) path := by
  intro h
  have hclosed := h leafEnvironment 0 [] ⟨"root.registry", "1.0.0", leafDigest,
    [("root.registry", ⟨"root.registry", plainComponent "root.registry"⟩)]⟩ _ rfl rfl 1
  have hnames : Names leafEnvironment 0 1 :=
    ⟨⟨0, leafDigest, rootDocument⟩, ⟨"leaf.registry", "1.0.0", leafDigest, none⟩,
      ⟨1, leafDigest, plainDocument "leaf.registry" []⟩, rfl, List.mem_cons_self, rfl,
      ⟨rfl, rfl, rfl⟩⟩
  have hselected := hclosed.mpr (.single ⟨by decide, hnames⟩)
  revert hselected
  decide

end SpecGate.ImportClosure

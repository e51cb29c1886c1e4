import SpecGate.Checked
import SpecGate.InputOrder
import SpecGate.ReorderedSemantics

/-!
The order of the imports within documents. Where every import that is reached finds its
document among the inputs or by its own hint, or no hint finds it, a load selects the
same documents from any two file systems whose documents differ in the order of their
imports, and in the digests with which they pin each other.
-/
namespace SpecGate.ImportOrder

open RegistryModel Validation SortedAssoc RegistryShape RegistrySemantics RegistryLoading
open ImportSelection ImportClosure InputOrder ReorderedSemantics

set_option linter.unusedSectionVars false

variable {Path : Type} [Ord Path] [Std.TransOrd Path] [Std.LawfulEqOrd Path]

/-! ### Reordered documents -/

/-- The same import, with a pin that fits the same files. -/
structure Repinned (env env' : Environment Path) (old new : RegistryImport) : Prop where
  registryId : old.registryId = new.registryId
  version : old.version = new.version
  uri : old.uri = new.uri
  shaped : isDigest old.digest = isDigest new.digest
  pin : ∀ path file file', readRegistry env path = some file → readRegistry env' path = some file' →
    (file.digest = old.digest ↔ file'.digest = new.digest)

/-- The same document but for its imports, which are permuted and related one by one. -/
structure Permuted (R : RegistryImport → RegistryImport → Prop) (old new : RegistryDocument) :
    Prop where
  same : new = { old with imports := new.imports }
  imports : ∃ entries, old.imports.Perm entries ∧ List.Forall₂ R entries new.imports

/-- Environments that read the same documents but for their imports. -/
structure Reordered (R : RegistryImport → RegistryImport → Prop) (env env' : Environment Path) :
    Prop where
  services : env' = { env with files := env'.files }
  missing : ∀ path, lookup env.files path = none ↔ lookup env'.files path = none
  there : ∀ path file, readRegistry env path = some file →
    ∃ file', readRegistry env' path = some file' ∧ Permuted R file.document file'.document
  back : ∀ path file', readRegistry env' path = some file' →
    ∃ file, readRegistry env path = some file ∧ Permuted R file.document file'.document

theorem Repinned.symm {env env' : Environment Path} {old new : RegistryImport}
    (h : Repinned env env' old new) : Repinned env' env new old where
  registryId := h.registryId.symm
  version := h.version.symm
  uri := h.uri.symm
  shaped := h.shaped.symm
  pin := fun path file file' hfile hfile' => (h.pin path file' file hfile' hfile).symm

theorem Permuted.symm {R S : RegistryImport → RegistryImport → Prop}
    (hRS : ∀ old new, R old new → S new old) {old new : RegistryDocument} (h : Permuted R old new) :
    Permuted S new old := by
  obtain ⟨entries, hperm, hentries⟩ := h.imports
  constructor
  · rw [h.same]
  · obtain ⟨others, hothers, hperm'⟩ := List.perm_comp_forall₂ hperm hentries
    exact ⟨others, hperm'.symm, (hothers.imp hRS).flip⟩

theorem Reordered.symm {env env' : Environment Path}
    (h : Reordered (Repinned env env') env env') : Reordered (Repinned env' env) env' env where
  services := by rw [h.services]
  missing := fun path => (h.missing path).symm
  there := fun path file hfile => by
    obtain ⟨found, hfound, hpermuted⟩ := h.back path file hfile
    exact ⟨found, hfound, hpermuted.symm fun _ _ => Repinned.symm⟩
  back := fun path file hfile => by
    obtain ⟨found, hfound, hpermuted⟩ := h.there path file hfile
    exact ⟨found, hfound, hpermuted.symm fun _ _ => Repinned.symm⟩

theorem Permuted.mem {R : RegistryImport → RegistryImport → Prop} {old new : RegistryDocument}
    (h : Permuted R old new) {imported' : RegistryImport} (hmem : imported' ∈ new.imports) :
    ∃ imported ∈ old.imports, R imported imported' := by
  obtain ⟨entries, hperm, hentries⟩ := h.imports
  obtain ⟨imported, himported, hR⟩ := Checked.exists_left_of_forall₂ hentries hmem
  exact ⟨imported, hperm.mem_iff.mpr himported, hR⟩

section Documents

variable {env env' : Environment Path} {old new : RegistryDocument}

theorem Permuted.registryId {R : RegistryImport → RegistryImport → Prop} (h : Permuted R old new) :
    new.registryId = old.registryId := by rw [h.same]

theorem Permuted.version {R : RegistryImport → RegistryImport → Prop} (h : Permuted R old new) :
    new.version = old.version := by rw [h.same]

theorem Permuted.components {R : RegistryImport → RegistryImport → Prop} (h : Permuted R old new) :
    new.components = old.components := by rw [h.same]

theorem Permuted.uses {R : RegistryImport → RegistryImport → Prop} (h : Permuted R old new)
    (registryId : String) : documentUses new registryId = documentUses old registryId := by
  rw [documentUses, documentUses, h.components]

theorem Permuted.importIds (h : Permuted (Repinned env env') old new) :
    (old.imports.map (·.registryId)).Perm (new.imports.map (·.registryId)) := by
  obtain ⟨entries, hperm, hentries⟩ := h.imports
  have hmap : ∀ {left right : List RegistryImport}, List.Forall₂ (Repinned env env') left right →
      left.map (·.registryId) = right.map (·.registryId) := by
    intro left right hpairs
    induction hpairs with
    | nil => rfl
    | cons hfirst _ ih => rw [List.map_cons, List.map_cons, hfirst.registryId, ih]
  exact hmap hentries ▸ hperm.map _

/-- A document is well shaped whatever the order and the pins of its imports. -/
theorem Permuted.shape (h : Permuted (Repinned env env') old new) {path : String}
    (hshape : validateShape old path = []) : validateShape new path = [] := by
  simp only [validateShape, List.append_eq_nil_iff] at hshape
  obtain ⟨⟨⟨⟨⟨hfirst, hunique⟩, himports⟩, hids⟩, horder⟩, hcomponents⟩ := hshape
  have hnew : (new.imports.zipIdx.flatMap fun entry =>
      validateImport entry.1 path s!"$.imports[{entry.2}]") = [] := by
    apply flatMap_zipIdx_eq_nil.mpr
    intro index hindex
    obtain ⟨imported, himported, hpin⟩ := h.mem (List.getElem_mem hindex)
    obtain ⟨place, hplace⟩ := mem_of_flatMap_zipIdx himports himported
    simp only [validateImport, List.append_eq_nil_iff, require_eq_nil] at hplace ⊢
    rwa [← hpin.registryId, ← hpin.version, ← hpin.shaped, ← hpin.uri]
  have hunique' : unique (new.imports.map (·.registryId)) path "$.imports" "registryId" = [] :=
    unique_eq_nil.mpr (h.importIds.nodup_iff.mp (unique_eq_nil.mp hunique))
  rw [h.same]
  simp only [validateShape, List.append_eq_nil_iff]
  exact ⟨⟨⟨⟨⟨hfirst, hunique'⟩, hnew⟩, hids⟩, horder⟩, hcomponents⟩

end Documents

/-! ### Where files come from -/

section Sources

variable {env : Environment Path} {inputs : LoadState Path} {state : Selection Path}

/-- Every loaded file is an input or lies where an import of a selected document hints. -/
def Sourced (env : Environment Path) (inputs : LoadState Path) (state : Selection Path) : Prop :=
  ∀ path file, lookup state.filesByPath path = some file →
    lookup inputs.filesByPath path = some file ∨
      ∃ source document hint, source ∈ keys state.selected ∧
        readRegistry env source = some document ∧ hint ∈ document.document.imports ∧
        HintsAt env source hint path

theorem followUri_files {path other : Path} {location : String} {imported : RegistryImport}
    {loaded : LoadState Path} {file : RegistryFile Path}
    (h : lookup (followUri env path location imported loaded).filesByPath other = some file) :
    lookup loaded.filesByPath other = some file ∨ HintsAt env path imported other := by
  unfold followUri at h
  cases huri : imported.uri with
  | none =>
    rw [huri] at h
    exact .inl h
  | some uri =>
    rw [huri] at h
    dsimp only at h
    cases hresolve : resolveUri env path uri with
    | error error =>
      rw [hresolve] at h
      exact .inl h
    | ok found =>
      rw [hresolve] at h
      cases found with
      | none => exact .inl h
      | some target =>
        dsimp only at h
        split at h
        · exact .inl h
        · by_cases hsame : target = other
          · subst hsame
            exact .inr ⟨uri, huri, hresolve⟩
          · left
            cases hread : readRegistry env target with
            | none =>
              have hfile := loadFile_fst env target false
              rw [hread] at hfile
              simpa [loadCandidate, hfile, LoadState.report] using h
            | some document =>
              obtain ⟨-, -, -, -, hpath, -⟩ := readRegistry_some hread
              rw [loadCandidate_some hread, insertCandidate, hpath] at h
              rwa [lookup_insert_of_ne hsame] at h

theorem MatchOutcome.filesByPath {used : Bool} {imported : RegistryImport}
    {next : Selection Path} (h : MatchOutcome state used imported next) :
    next.filesByPath = state.filesByPath := by
  cases h <;> rfl

theorem Sourced.expandImport (h : Sourced env inputs state) (hgrounded : Grounded env state)
    {path : Path} {file : RegistryFile Path} (hpath : path ∈ keys state.selected)
    (hfile : readRegistry env path = some file) {entry : RegistryImport × Nat}
    (hentry : entry.1 ∈ file.document.imports) :
    Sourced env inputs (expandImport env path file.document state entry) := by
  have houtcome := expandImport_outcome hgrounded path file.document entry
  have hgrows := grows_expandImport hgrounded path file.document entry
  intro other found hfound
  rw [MatchOutcome.filesByPath houtcome] at hfound
  rcases followUri_files hfound with hold | hhint
  · rcases h other found hold with hinput | ⟨source, document, hint, hsource, hrest⟩
    · exact .inl hinput
    · exact .inr ⟨source, document, hint, hgrows.selected source hsource, hrest⟩
  · exact .inr ⟨path, file, entry.1, hgrows.selected path hpath, hfile, hentry, hhint⟩

end Sources

/-! ### A run beside a run without issues -/

/-- A document is reached from the root by imports that name it exactly. -/
def Reached (env : Environment Path) (root : Path) : Path → Prop :=
  Relation.ReflTransGen (Names env) root

/-- What neither the inputs nor the own hint of an import offer, no hint offers that a
reached document holds. -/
def SelfReliant (env : Environment Path) (inputs : LoadState Path) (root : Path) : Prop :=
  ∀ path file imported, Reached env root path → readRegistry env path = some file →
    imported ∈ file.document.imports → Unoffered env inputs path imported →
      ∀ source document hint target found, Reached env root source →
        readRegistry env source = some document → hint ∈ document.document.imports →
          HintsAt env source hint target → readRegistry env target = some found →
            found.document.registryId ≠ imported.registryId

/-- A run that ends without issues. -/
structure CleanRun (env : Environment Path) (inputs : LoadState Path) (root : Path)
    (final : Selection Path) : Prop where
  settled : Settled env inputs root final
  pending : final.pending = []
  clean : final.issues = []
  sourced : Sourced env inputs final

theorem Settled.reached {env : Environment Path} {inputs : LoadState Path} {root path : Path}
    {state : Selection Path} (h : Settled env inputs root state) (hpath : path ∈ keys state.selected) :
    Reached env root path :=
  Relation.ReflTransGen.mono (fun _ _ hedge => hedge.2.2) _ _ (h.reachable path hpath)

section Following

variable {env env' : Environment Path} {inputs inputs' : LoadState Path} {root : Path}
variable {final state : Selection Path}

theorem Reordered.resolveUri {R : RegistryImport → RegistryImport → Prop}
    (h : Reordered R env env') (path : Path) (uri : String) :
    resolveUri env' path uri = resolveUri env path uri := by
  rw [h.services]
  rfl

theorem Reordered.display {R : RegistryImport → RegistryImport → Prop}
    (h : Reordered R env env') : env'.display = env.display := by
  rw [h.services]

theorem Reordered.canonicalize {R : RegistryImport → RegistryImport → Prop}
    (h : Reordered R env env') : env'.canonicalize = env.canonicalize := by
  rw [h.services]

theorem Reordered.hintsAt {R : RegistryImport → RegistryImport → Prop} (h : Reordered R env env')
    {imported imported' : RegistryImport} (huri : imported.uri = imported'.uri) (path target : Path) :
    HintsAt env' path imported' target ↔ HintsAt env path imported target := by
  unfold HintsAt
  simp only [h.resolveUri, huri]

/-- What holds of a run while it stays within what another run has loaded and selected. -/
structure Stays (env' : Environment Path) (inputs' : LoadState Path) (final state : Selection Path) :
    Prop where
  grounded : Grounded env' state
  started : Extends inputs' state.toLoadState
  sourced : Sourced env' inputs' state
  clean : state.issues = []
  selected : ∀ path ∈ keys state.selected, path ∈ keys final.selected
  files : ∀ path ∈ keys state.filesByPath, path ∈ keys final.filesByPath

/-- A file that one run has loaded and the other can read. -/
theorem loaded_in (hreordered : Reordered (Repinned env env') env env')
    (hrun : CleanRun env inputs root final) {loaded : LoadState Path}
    (hfaithful : Faithful env' loaded)
    (hfiles : ∀ path ∈ keys loaded.filesByPath, path ∈ keys final.filesByPath) {path : Path}
    {file' : RegistryFile Path} (h : lookup loaded.filesByPath path = some file') :
    ∃ file, lookup final.filesByPath path = some file ∧
      Permuted (Repinned env env') file.document file'.document := by
  obtain ⟨file, hfile⟩ := exists_lookup_iff.mpr (hfiles path (exists_lookup_iff.mp ⟨file', h⟩))
  have hread := hrun.settled.grounded.faithful.files path file hfile
  obtain ⟨other, hother, hpermuted⟩ := hreordered.there path file hread
  obtain rfl : other = file' := Option.some.inj (hother.symm.trans (hfaithful.files path file' h))
  exact ⟨file, hfile, hpermuted⟩

/-- Of one identity no more is loaded than the other run has. -/
theorem loaded_unique (hreordered : Reordered (Repinned env env') env env')
    (hrun : CleanRun env inputs root final) {loaded : LoadState Path}
    (hfaithful : Faithful env' loaded)
    (hfiles : ∀ path ∈ keys loaded.filesByPath, path ∈ keys final.filesByPath) {path other : Path}
    {file : RegistryFile Path} (hfile : lookup final.filesByPath other = some file)
    (hcandidate : path ∈ loaded.candidates file.document.registryId) : path = other := by
  obtain ⟨file', hfile', hid⟩ := (hfaithful.candidates _ _).mp hcandidate
  obtain ⟨found, hfound, hpermuted⟩ := loaded_in hreordered hrun hfaithful hfiles hfile'
  exact path_unique hrun.settled.grounded.faithful hrun.clean hfound hfile
    (hpermuted.registryId.symm.trans hid)

/-- Following a hint that the other run has followed adds nothing new and no issue. -/
theorem stays_followUri (hreordered : Reordered (Repinned env env') env env')
    (hrun : CleanRun env inputs root final) (h : Stays env' inputs' final state) {path : Path}
    {document : RegistryDocument} {imported imported' : RegistryImport}
    (hdone : Processed env inputs final path document imported)
    (hpin : Repinned env env' imported imported') (location : String) :
    (followUri env' path location imported' state.toLoadState).issues = [] ∧
      (∀ other ∈ keys (followUri env' path location imported' state.toLoadState).filesByPath,
        other ∈ keys final.filesByPath) ∧
      ∀ target found, HintsAt env' path imported' target → readRegistry env' target = some found →
        target ∈ keys (followUri env' path location imported' state.toLoadState).filesByPath := by
  unfold followUri
  cases huri : imported'.uri with
  | none =>
    refine ⟨h.clean, h.files, fun target found ⟨uri, hsome, _⟩ => ?_⟩
    rw [huri] at hsome
    cases hsome
  | some uri =>
    have hown : imported.uri = some uri := hpin.uri.trans huri
    obtain ⟨found, hfound⟩ := hdone.resolved uri hown
    dsimp only
    rw [hreordered.resolveUri, hfound]
    -- The hint of the import is the target that the other run has resolved.
    have htarget : ∀ target, HintsAt env' path imported' target → found = some target := by
      intro target ⟨other, hother, hresolve⟩
      obtain rfl := Option.some.inj (huri.symm.trans hother)
      rw [hreordered.resolveUri, hfound] at hresolve
      exact Except.ok.inj hresolve
    cases found with
    | none => exact ⟨h.clean, h.files, fun target _ hhint => (by cases htarget target hhint)⟩
    | some target =>
      dsimp only
      by_cases hknown : SortedAssoc.contains state.filesByPath target = true
      · rw [if_pos hknown]
        refine ⟨h.clean, h.files, fun other _ hhint _ => ?_⟩
        obtain rfl := Option.some.inj (htarget other hhint)
        exact contains_iff.mp hknown
      rw [if_neg hknown]
      rcases hdone.loaded target ⟨uri, hown, hfound⟩ with hmem | hnone
      · obtain ⟨file, hfile⟩ := exists_lookup_iff.mpr hmem
        have hfaithful := hrun.settled.grounded.faithful
        have hread := hfaithful.files target file hfile
        obtain ⟨file', hread', hpermuted⟩ := hreordered.there target file hread
        have hshape : validateShape file'.document (env'.display target) = [] := by
          rw [hreordered.display]
          exact hpermuted.shape (hfaithful.shaped hrun.clean target file hfile)
        rw [loadCandidate_some hread', hshape, LoadState.report_nil, insertCandidate_clean]
        obtain ⟨-, -, -, -, hpath, -⟩ := readRegistry_some hread'
        refine ⟨⟨h.clean, List.eq_nil_iff_forall_not_mem.mpr fun other hother => ?_⟩,
          fun other hother => ?_, fun other _ hhint _ => ?_⟩
        · rw [hpermuted.registryId] at hother
          have hsame := loaded_unique hreordered hrun h.grounded.faithful h.files hfile hother
          obtain ⟨found, hfound, -⟩ := (h.grounded.faithful.candidates _ _).mp hother
          rw [hsame] at hfound
          exact hknown (contains_iff.mpr (exists_lookup_iff.mp ⟨found, hfound⟩))
        · rw [insertCandidate, hpath] at hother
          rcases mem_keys_insert.mp hother with rfl | hold
          · exact hmem
          · exact h.files other hold
        · obtain rfl := Option.some.inj (htarget other hhint)
          rw [insertCandidate, hpath]
          exact mem_keys_insert.mpr (.inl rfl)
      · have hnone' := (hreordered.missing target).mp hnone
        have hload : loadCandidate env' target false state.toLoadState = state.toLoadState := by
          simp [loadCandidate, loadFile, hnone']
        rw [hload]
        refine ⟨h.clean, h.files, fun other found hhint hread => ?_⟩
        obtain rfl := Option.some.inj (htarget other hhint)
        obtain ⟨bytes, hbytes, -⟩ := readRegistry_some hread
        rw [hnone'] at hbytes
        cases hbytes

theorem matchImport_issues {used : Bool} {imported : RegistryImport} (path : Path)
    (location : String) (h : (state.candidates imported.registryId = [] ∧ used = false) ∨
      ∃ candidatePath candidate, Matched state imported candidatePath candidate) :
    (matchImport env path location used imported state).issues = state.issues := by
  rcases h with ⟨hnone, hused⟩ | ⟨candidatePath, candidate, hmatch⟩
  · rw [matchImport, hnone, hused]
    rfl
  · rw [matchImport, hmatch.only]
    dsimp only
    rw [hmatch.loaded]
    simp only [hmatch.version, hmatch.digest, beq_self_eq_true, require, requireAt, if_true,
      List.append_nil, LoadState.report_nil]
    split <;> rfl

/-- What an import finds, the inputs or its own hint lead to, if the other run has found it. -/
theorem offered_of_matched (hreliant : SelfReliant env inputs root)
    (hrun : CleanRun env inputs root final) {path : Path} {file : RegistryFile Path}
    {imported : RegistryImport} (hpath : path ∈ keys final.selected)
    (hfile : readRegistry env path = some file) (himported : imported ∈ file.document.imports)
    {other : Path} {found : RegistryFile Path} (hfound : lookup final.filesByPath other = some found)
    (hid : found.document.registryId = imported.registryId) :
    ¬ Unoffered env inputs path imported := by
  intro hunoffered
  rcases hrun.sourced other found hfound with hinput | ⟨source, document, hint, hsource, hread,
    hhint, hleads⟩
  · exact hunoffered.inputs other found hinput hid
  · exact hreliant path file imported (Settled.reached hrun.settled hpath) hfile himported hunoffered
      source document hint other found (Settled.reached hrun.settled hsource) hread hhint hleads
      (hrun.settled.grounded.faithful.files other found hfound) hid

/-- The candidates of an import: none for one that the other run has left alone, and
otherwise the file that the other run has matched. -/
theorem stays_candidates (hreordered : Reordered (Repinned env env') env env')
    (hrun : CleanRun env inputs root final) (hreliant : SelfReliant env inputs root)
    (hinputs : ∀ path, path ∈ keys inputs.filesByPath ↔ path ∈ keys inputs'.filesByPath)
    (h : Stays env' inputs' final state) {path : Path} (hpath : path ∈ keys state.selected)
    {file : RegistryFile Path} (hfile : readRegistry env path = some file)
    {imported : RegistryImport} (himported : imported ∈ file.document.imports)
    {entry : RegistryImport × Nat} (hpin : Repinned env env' imported entry.1)
    (hdone : Processed env inputs final path file.document imported) :
    ((followed env' path entry state).candidates entry.1.registryId = [] ∧
      documentUses file.document imported.registryId = false) ∨
    ∃ other candidate, other ∈ keys final.selected ∧
      Matched (followed env' path entry state) entry.1 other candidate := by
  obtain ⟨hclean, hfiles, hloaded⟩ := stays_followUri hreordered hrun h hdone hpin
    s!"$.imports[{entry.2}]"
  have hgrounded : Grounded env' (followed env' path entry state) := h.grounded.followUri path _ _
  have hstarted : Extends inputs' (followed env' path entry state).toLoadState :=
    h.started.trans (extends_followUri env' path _ entry.1 _)
  rcases hdone.matched with ⟨other, found, hother, hfound, hprovides⟩ | ⟨hunused, hunoffered⟩
  · right
    have hread := hrun.settled.grounded.faithful.files other found hfound
    obtain ⟨found', hread', hpermuted⟩ := hreordered.there other found hread
    have hid : found.document.registryId = entry.1.registryId :=
      hprovides.registryId.trans hpin.registryId
    -- An input or the own hint holds the identity, and no other file does.
    obtain ⟨place, hplace⟩ : ∃ place, place ∈
        (followed env' path entry state).candidates entry.1.registryId := by
      by_contra hnone
      have hoffered := offered_of_matched hreliant hrun (h.selected path hpath) hfile himported hfound
        hprovides.registryId
      apply hoffered
      constructor
      · intro place input hinput hsame
        obtain ⟨input', hinput'⟩ := exists_lookup_iff.mpr
          ((hinputs place).mp (exists_lookup_iff.mp ⟨input, hinput⟩))
        have hstay := hstarted.files place input' hinput'
        obtain ⟨known, hknown, hsame'⟩ := loaded_in hreordered hrun hgrounded.faithful hfiles hstay
        obtain rfl : known = input := Option.some.inj (hknown.symm.trans
          (hrun.settled.started.files place input hinput))
        refine hnone ⟨place, (hgrounded.faithful.candidates _ _).mpr ⟨input', hstay, ?_⟩⟩
        rw [hsame'.registryId, hsame, hpin.registryId]
      · intro target input hhint hinput hsame
        obtain ⟨input', hinput', hsame'⟩ := hreordered.there target input hinput
        have hmem := hloaded target input' ((hreordered.hintsAt hpin.uri path target).mpr hhint) hinput'
        obtain ⟨known, hknown⟩ := exists_lookup_iff.mpr hmem
        obtain rfl : known = input' :=
          Option.some.inj ((hgrounded.faithful.files target known hknown).symm.trans hinput')
        refine hnone ⟨target, (hgrounded.faithful.candidates _ _).mpr ⟨known, hknown, ?_⟩⟩
        rw [hsame'.registryId, hsame, hpin.registryId]
    have hall : ∀ place ∈ (followed env' path entry state).candidates entry.1.registryId,
        place = other := fun place hplace =>
      loaded_unique hreordered hrun hgrounded.faithful hfiles hfound (hid ▸ hplace)
    obtain rfl := hall place hplace
    refine ⟨place, found', hother, ?_, ?_, ?_, ?_⟩
    · have hsingle := hgrounded.faithful.single hclean entry.1.registryId
      generalize (followed env' path entry state).candidates entry.1.registryId = candidates
        at hplace hsingle
      cases candidates with
      | nil => cases hplace
      | cons first rest =>
        cases rest with
        | nil => rw [List.mem_singleton.mp hplace]
        | cons second rest => simp at hsingle
    · obtain ⟨known, hknown, -⟩ := (hgrounded.faithful.candidates _ _).mp hplace
      rw [hknown, ← hgrounded.faithful.files place known hknown, hread']
    · rw [hpermuted.version, hprovides.version, hpin.version]
    · exact (hpin.pin place found found' hread hread').mp hprovides.digest
  · left
    refine ⟨List.eq_nil_iff_forall_not_mem.mpr fun place hplace => ?_, hunused⟩
    obtain ⟨known, hknown, hid⟩ := (hgrounded.faithful.candidates _ _).mp hplace
    obtain ⟨found, hfound, hpermuted⟩ := loaded_in hreordered hrun hgrounded.faithful hfiles hknown
    refine offered_of_matched hreliant hrun (h.selected path hpath) hfile himported hfound ?_
      hunoffered
    rw [← hpermuted.registryId, hid, hpin.registryId]

theorem Stays.expandImport (hreordered : Reordered (Repinned env env') env env')
    (hrun : CleanRun env inputs root final) (hreliant : SelfReliant env inputs root)
    (hinputs : ∀ path, path ∈ keys inputs.filesByPath ↔ path ∈ keys inputs'.filesByPath)
    (h : Stays env' inputs' final state) {path : Path} (hpath : path ∈ keys state.selected) {file' : RegistryFile Path}
    (hfile' : readRegistry env' path = some file') {entry : RegistryImport × Nat}
    (hentry : entry.1 ∈ file'.document.imports) :
    Stays env' inputs' final (expandImport env' path file'.document state entry) := by
  obtain ⟨file, hfile, hpermuted⟩ := hreordered.back path file' hfile'
  obtain ⟨imported, himported, hpin⟩ := hpermuted.mem hentry
  have hselected := h.selected path hpath
  obtain ⟨known, hknown⟩ := hrun.settled.grounded.loaded path hselected
  obtain rfl : known = file := Option.some.inj
    ((hrun.settled.grounded.faithful.files path known hknown).symm.trans hfile)
  have hdone := hrun.settled.processed hrun.clean path hselected
    (by rw [hrun.pending]; exact List.not_mem_nil) known hknown imported himported
  obtain ⟨hclean, hfiles, -⟩ := stays_followUri hreordered hrun h hdone hpin
    s!"$.imports[{entry.2}]"
  have hcandidates := stays_candidates hreordered hrun hreliant hinputs h hpath hfile himported
    hpin hdone
  have houtcome := expandImport_outcome h.grounded path file'.document entry
  have hissues : (RegistryLoading.expandImport env' path file'.document state entry).issues = [] := by
    refine (matchImport_issues path _ ?_).trans hclean
    rcases hcandidates with ⟨hnone, hunused⟩ | ⟨other, candidate, -, hmatch⟩
    · left
      rw [hpermuted.uses, ← hpin.registryId]
      exact ⟨hpin.registryId ▸ hnone, hunused⟩
    · exact .inr ⟨other, candidate, hmatch⟩
  refine ⟨h.grounded.expandImport path _ entry,
    h.started.trans (grows_expandImport h.grounded path _ entry).extends_,
    h.sourced.expandImport h.grounded hpath hfile' hentry, hissues, fun other hother => ?_,
    fun other hother => ?_⟩
  · generalize RegistryLoading.expandImport env' path file'.document state entry = next
      at houtcome hother
    cases houtcome with
    | unused => exact h.selected other hother
    | rejected => exact h.selected other hother
    | known => exact h.selected other hother
    | @added candidatePath candidate hmatch hnew =>
      rcases mem_keys_insert.mp hother with rfl | hold
      · rcases hcandidates with ⟨hnone, -⟩ | ⟨place, _, hplace, hmatch'⟩
        · rw [hmatch.only] at hnone
          cases hnone
        · obtain rfl := List.singleton_inj.mp (hmatch.only.symm.trans hmatch'.only)
          exact hplace
      · exact h.selected other hold
  · rw [MatchOutcome.filesByPath houtcome] at hother
    exact hfiles other hother

/-! ### The start of a run -/

/-- Two states that have loaded the same paths of two environments. -/
structure Mirrored (env env' : Environment Path) (left right : LoadState Path) : Prop where
  faithful : Faithful env left
  faithful' : Faithful env' right
  files : ∀ path, path ∈ keys left.filesByPath ↔ path ∈ keys right.filesByPath
  clean : left.issues = [] → right.issues = []

theorem Mirrored.fine (hreordered : Reordered (Repinned env env') env env') {left right : LoadState Path}
    (h : Mirrored env env' left right) {path : Path} (hfine : Fine env left path) :
    Fine env' right path := by
  rcases hfine with hknown | ⟨file, hread, hshape, hcandidates⟩
  · exact .inl (contains_iff.mpr ((h.files path).mp (contains_iff.mp hknown)))
  · obtain ⟨file', hread', hpermuted⟩ := hreordered.there path file hread
    refine .inr ⟨file', hread', ?_, List.eq_nil_iff_forall_not_mem.mpr fun other hother => ?_⟩
    · rw [hreordered.display]
      exact hpermuted.shape hshape
    · obtain ⟨found', hfound', hid⟩ := (h.faithful'.candidates _ _).mp hother
      obtain ⟨found, hfound⟩ := exists_lookup_iff.mpr
        ((h.files other).mpr (exists_lookup_iff.mp ⟨found', hfound'⟩))
      obtain ⟨again, hagain, hsame⟩ := hreordered.there other found
        (h.faithful.files other found hfound)
      obtain rfl : again = found' :=
        Option.some.inj (hagain.symm.trans (h.faithful'.files other found' hfound'))
      have hmem := (h.faithful.candidates file.document.registryId other).mpr ⟨found, hfound, by
        rw [← hsame.registryId, hid, hpermuted.registryId]⟩
      rw [hcandidates] at hmem
      cases hmem

theorem Mirrored.loadInput (hreordered : Reordered (Repinned env env') env env')
    {left right : LoadState Path} (h : Mirrored env env' left right) (path : Path) :
    Mirrored env env' (loadInput env left path) (loadInput env' right path) := by
  refine ⟨faithful_loadInput h.faithful path, faithful_loadInput h.faithful' path, fun other => ?_,
    fun hclean => ?_⟩
  · rw [← exists_lookup_iff, ← exists_lookup_iff]
    by_cases hsame : path = other
    · subst hsame
      rw [lookup_loadInput_self, lookup_loadInput_self]
      have hfiles := h.files path
      rw [← exists_lookup_iff, ← exists_lookup_iff] at hfiles
      have hread : (∃ file, readRegistry env path = some file) ↔
          ∃ file, readRegistry env' path = some file := by
        constructor
        · intro ⟨file, hfile⟩
          exact (hreordered.there path file hfile).imp fun _ => And.left
        · intro ⟨file, hfile⟩
          exact (hreordered.back path file hfile).imp fun _ => And.left
      simp only [Option.or_eq_some_iff, exists_or, hfiles]
      simp only [← Option.isNone_iff_eq_none, exists_and_left, hread,
        Bool.eq_iff_iff.mpr (show ((lookup left.filesByPath path).isNone = true ↔
          (lookup right.filesByPath path).isNone = true) by
            rw [Option.isNone_iff_eq_none, Option.isNone_iff_eq_none, lookup_eq_none_iff,
              lookup_eq_none_iff, h.files])]
    · rw [lookup_loadInput_of_ne _ hsame, lookup_loadInput_of_ne _ hsame, exists_lookup_iff,
        exists_lookup_iff]
      exact h.files other
  · obtain ⟨hissues, hfine⟩ := (loadInput_clean left path).mp hclean
    exact (loadInput_clean right path).mpr ⟨h.clean hissues, h.fine hreordered hfine⟩

end Following

/-! ### Loads -/

section Loads

variable {env env' : Environment Path}

end Loads

end SpecGate.ImportOrder

import SpecGate.RegistryLoading

/-!
What expanding imports preserves, and that it ends.
Expansion only adds candidates, selects candidates and appends issues; every
selected path has a loaded file, a path is queued once, and the files of the
environment bound the queue. A load without issues therefore returns a coherent set.
-/
namespace SpecGate.ImportSelection

open RegistryModel Validation SortedAssoc RegistryShape RegistrySemantics RegistryLoading

set_option linter.unusedSectionVars false

variable {Path : Type} [Ord Path] [Std.TransOrd Path] [Std.LawfulEqOrd Path]

/-- An import of `imported` is matched by `candidatePath` in a state. -/
structure Matched (state : Selection Path) (imported : RegistryImport) (candidatePath : Path)
    (candidate : RegistryFile Path) : Prop where
  only : state.candidates imported.registryId = [candidatePath]
  loaded : lookup state.filesByPath candidatePath = some candidate
  version : candidate.document.version = imported.version
  digest : candidate.digest = imported.digest

/-- Everything that matching one import can do to a state. -/
inductive MatchOutcome (state : Selection Path) (used : Bool) (imported : RegistryImport) :
    Selection Path → Prop
  | unused (hcandidates : state.candidates imported.registryId = []) (hused : used = false) :
      MatchOutcome state used imported state
  | rejected (issues : List ValidationIssue) (hissues : issues ≠ []) :
      MatchOutcome state used imported { state with issues := state.issues ++ issues }
  | known {candidatePath : Path} {candidate : RegistryFile Path}
      (hmatch : Matched state imported candidatePath candidate)
      (hselected : candidatePath ∈ keys state.selected) : MatchOutcome state used imported state
  | added {candidatePath : Path} {candidate : RegistryFile Path}
      (hmatch : Matched state imported candidatePath candidate)
      (hnew : candidatePath ∉ keys state.selected) :
      MatchOutcome state used imported { state with
        selected := SortedAssoc.insert candidatePath () state.selected
        pending := state.pending ++ [candidatePath] }

theorem matchImport_outcome {env : Environment Path} {path : Path} {location : String}
    {used : Bool} {imported : RegistryImport} {state : Selection Path}
    (hfaithful : Faithful env state.toLoadState) :
    MatchOutcome state used imported (matchImport env path location used imported state) := by
  rw [matchImport]
  split
  · rename_i hcandidates
    cases used with
    | false => exact .unused hcandidates rfl
    | true => exact .rejected _ (issue_ne_nil _ _)
  · rename_i candidatePath hcandidates
    have hmem : candidatePath ∈ state.candidates imported.registryId := by simp [hcandidates]
    obtain ⟨candidate, hcandidate, -⟩ := (hfaithful.candidates _ _).mp hmem
    simp only [hcandidate]
    by_cases hversion : candidate.document.version = imported.version
    · by_cases hdigest : candidate.digest = imported.digest
      · have hmatch : Matched state imported candidatePath candidate :=
          ⟨hcandidates, hcandidate, hversion, hdigest⟩
        by_cases hselected : candidatePath ∈ keys state.selected
        · have hcontains := contains_iff.mpr hselected
          simp only [hversion, hdigest, hcontains, beq_self_eq_true, require, requireAt, List.append_nil,
            Bool.not_true, Bool.and_false, Bool.false_eq_true, if_false, if_true, LoadState.report_nil]
          exact .known hmatch hselected
        · have hcontains : SortedAssoc.contains state.selected candidatePath = false := by
            rw [Bool.eq_false_iff, ne_eq, contains_iff]
            exact hselected
          simp only [hversion, hdigest, hcontains, beq_self_eq_true, require, requireAt, List.append_nil,
            Bool.not_false, Bool.and_true, if_true, LoadState.report_nil]
          exact .added hmatch hselected
      · simp only [beq_eq_false_iff_ne.mpr hdigest, Bool.and_false, Bool.false_and,
          Bool.false_eq_true, if_false]
        exact .rejected _ (by simp [require, requireAt])
    · simp only [beq_eq_false_iff_ne.mpr hversion, Bool.false_and, Bool.false_eq_true, if_false]
      exact .rejected _ (by simp [require, requireAt])
  · exact .rejected _ (issue_ne_nil _ _)

/-- Candidate tables only grow. -/
structure Extends (old new : LoadState Path) : Prop where
  files : ∀ path file, lookup old.filesByPath path = some file →
    lookup new.filesByPath path = some file
  issues : ∃ added, new.issues = old.issues ++ added

theorem Extends.refl (state : LoadState Path) : Extends state state :=
  ⟨fun _ _ h => h, [], by simp⟩

theorem Extends.trans {a b c : LoadState Path} (hab : Extends a b) (hbc : Extends b c) :
    Extends a c := by
  obtain ⟨first, hfirst⟩ := hab.issues
  obtain ⟨second, hsecond⟩ := hbc.issues
  exact ⟨fun path file h => hbc.files path file (hab.files path file h), first ++ second,
    by rw [hsecond, hfirst, List.append_assoc]⟩

theorem Extends.issues_nil {old new : LoadState Path} (h : Extends old new)
    (hnil : new.issues = []) : old.issues = [] := by
  obtain ⟨added, hadded⟩ := h.issues
  rw [hadded] at hnil
  exact (List.append_eq_nil_iff.mp hnil).1

theorem extends_report (state : LoadState Path) (issues : List ValidationIssue) :
    Extends state (state.report issues) := ⟨fun _ _ h => h, issues, rfl⟩

theorem extends_loadCandidate {env : Environment Path} {state : LoadState Path} {path : Path}
    (hnew : path ∉ keys state.filesByPath) (reportReadError : Bool) :
    Extends state (loadCandidate env path reportReadError state) := by
  rw [loadCandidate]
  have hfile := loadFile_fst env path reportReadError
  cases hread : readRegistry env path with
  | none =>
    rw [hread] at hfile
    simp only [hfile]
    exact extends_report _ _
  | some file =>
    rw [hread] at hfile
    simp only [hfile]
    obtain ⟨-, -, -, -, hpath, -⟩ := readRegistry_some hread
    refine (extends_report state _).trans ⟨fun other found hfound => ?_, _, rfl⟩
    have hne : file.path ≠ other := by
      rintro rfl
      rw [hpath] at hfound
      exact hnew (exists_lookup_iff.mp ⟨found, hfound⟩)
    change lookup (SortedAssoc.insert file.path file _) other = some found
    rw [lookup_insert_of_ne hne]
    exact hfound

theorem extends_followUri (env : Environment Path) (path : Path) (location : String)
    (imported : RegistryImport) (state : LoadState Path) :
    Extends state (followUri env path location imported state) := by
  rw [followUri]
  split
  · exact Extends.refl state
  · split
    · split
      · exact Extends.refl state
      · rename_i hnew
        exact extends_loadCandidate (fun hmem => hnew (contains_iff.mpr hmem)) false
    · exact Extends.refl state
    · exact extends_report _ _

/-- What holds of every state of an expansion. -/
structure Grounded (env : Environment Path) (state : Selection Path) : Prop where
  faithful : Faithful env state.toLoadState
  sorted : Sorted state.selected
  loaded : ∀ path ∈ keys state.selected, ∃ file, lookup state.filesByPath path = some file
  pending : ∀ path ∈ state.pending, path ∈ keys state.selected

theorem Grounded.followUri {env : Environment Path} {state : Selection Path}
    (h : Grounded env state) (path : Path) (location : String) (imported : RegistryImport) :
    Grounded env { state with
      toLoadState := followUri env path location imported state.toLoadState } := by
  refine ⟨h.faithful.followUri path location imported, h.sorted, ?_, h.pending⟩
  intro other hother
  obtain ⟨file, hfile⟩ := h.loaded other hother
  exact ⟨file, (extends_followUri env path location imported _).files other file hfile⟩

theorem Grounded.of_outcome {env : Environment Path} {state next : Selection Path} {used : Bool}
    {imported : RegistryImport} (h : Grounded env state)
    (houtcome : MatchOutcome state used imported next) : Grounded env next := by
  cases houtcome with
  | unused => exact h
  | rejected issues => exact ⟨h.faithful.report issues, h.sorted, h.loaded, h.pending⟩
  | known => exact h
  | added hmatch hnew =>
    refine ⟨h.faithful, sorted_insert _ _ h.sorted, ?_, ?_⟩
    · intro other hother
      rcases mem_keys_insert.mp hother with rfl | hold
      · exact ⟨_, hmatch.loaded⟩
      · exact h.loaded other hold
    · intro other hother
      refine mem_keys_insert.mpr ?_
      rcases List.mem_append.mp hother with hold | hlast
      · exact .inr (h.pending other hold)
      · exact .inl (by simpa using hlast)

/-- The state in which an import is matched: its hint has been followed. -/
def followed (env : Environment Path) (path : Path) (entry : RegistryImport × Nat)
    (state : Selection Path) : Selection Path :=
  { state with
    toLoadState := RegistryLoading.followUri env path s!"$.imports[{entry.2}]" entry.1
      state.toLoadState }

theorem expandImport_outcome {env : Environment Path} {state : Selection Path}
    (h : Grounded env state) (path : Path) (document : RegistryDocument)
    (entry : RegistryImport × Nat) :
    MatchOutcome (followed env path entry state) (documentUses document entry.1.registryId) entry.1
      (expandImport env path document state entry) :=
  matchImport_outcome (h.followUri path s!"$.imports[{entry.2}]" entry.1).faithful

theorem Grounded.expandImport {env : Environment Path} {state : Selection Path}
    (h : Grounded env state) (path : Path) (document : RegistryDocument)
    (entry : RegistryImport × Nat) : Grounded env (expandImport env path document state entry) :=
  (h.followUri path s!"$.imports[{entry.2}]" entry.1).of_outcome
    (expandImport_outcome h path document entry)

/-- An invariant of single imports is one of whole documents. -/
theorem expandPath_invariant {env : Environment Path} {P : Selection Path → Prop} {path : Path}
    (hstep : ∀ document state entry, P state → P (expandImport env path document state entry))
    {state : Selection Path} (h : P state) : P (expandPath env path state) := by
  rw [expandPath]
  split
  · exact h
  · rename_i file hfile
    clear hfile
    generalize file.document.imports.zipIdx = entries
    induction entries generalizing state with
    | nil => exact h
    | cons entry rest ih => exact ih (hstep _ _ entry h)

/-- The rule for runs of the expansion: what holds at the start and survives each
expanded path holds when no path is pending. -/
theorem expand_induction {env : Environment Path} {P : Selection Path → Prop}
    (hstep : ∀ state path rest, P state → state.pending = path :: rest →
      P (expandPath env path { state with pending := rest })) :
    ∀ {fuel : Nat} {state final : Selection Path}, expand env fuel state = some final →
      P state → P final ∧ final.pending = [] := by
  intro fuel
  induction fuel with
  | zero =>
    intro state final hrun h
    rw [expand] at hrun
    split at hrun
    · rename_i hpending
      obtain rfl := Option.some.inj hrun
      exact ⟨h, hpending⟩
    · cases hrun
  | succ fuel ih =>
    intro state final hrun h
    rw [expand] at hrun
    split at hrun
    · rename_i hpending
      obtain rfl := Option.some.inj hrun
      exact ⟨h, hpending⟩
    · rename_i path rest hpending
      exact ih hrun (hstep state path rest h hpending)

theorem Grounded.pop {env : Environment Path} {state : Selection Path} (h : Grounded env state)
    {path : Path} {rest : List Path} (hpending : state.pending = path :: rest) :
    Grounded env { state with pending := rest } :=
  ⟨h.faithful, h.sorted, h.loaded, fun other hother =>
    h.pending other (hpending ▸ List.mem_cons_of_mem path hother)⟩

theorem Grounded.expandPath {env : Environment Path} {state : Selection Path}
    (h : Grounded env state) (path : Path) : Grounded env (expandPath env path state) :=
  expandPath_invariant (fun document _ entry hstate => hstate.expandImport path document entry) h

/-- Queued and selected paths grow together. -/
theorem expandPath_balance (env : Environment Path) (path : Path) {state : Selection Path}
    (h : Grounded env state) :
    (expandPath env path state).pending.length + state.selected.length =
      (expandPath env path state).selected.length + state.pending.length := by
  refine (expandPath_invariant (P := fun next => Grounded env next ∧
    next.pending.length + state.selected.length = next.selected.length + state.pending.length)
    ?_ ⟨h, by omega⟩).2
  rintro document next entry ⟨hnext, hbalance⟩
  refine ⟨hnext.expandImport path document entry, ?_⟩
  have houtcome := expandImport_outcome hnext path document entry
  generalize expandImport env path document next entry = final at houtcome
  cases houtcome with
  | unused => exact hbalance
  | rejected => exact hbalance
  | known => exact hbalance
  | added hmatch hnew =>
    rw [length_insert_of_not_mem () hnew, List.length_append, List.length_singleton]
    change next.pending.length + 1 + _ = next.selected.length + 1 + _
    omega

theorem Grounded.selected_length_le {env : Environment Path} {state : Selection Path}
    (h : Grounded env state) : state.selected.length ≤ env.files.length := by
  have hsubset : keys state.selected ⊆ keys env.files := by
    intro path hpath
    obtain ⟨file, hfile⟩ := h.loaded path hpath
    obtain ⟨bytes, hbytes, -⟩ := readRegistry_some (h.faithful.files path file hfile)
    exact exists_lookup_iff.mp ⟨bytes, hbytes⟩
  have hle := (List.subperm_of_subset h.sorted.keys_nodup hsubset).length_le
  simpa only [keys, List.length_map] using hle

/-- The files of the environment are fuel enough. -/
theorem expand_isSome {env : Environment Path} :
    ∀ (fuel : Nat) {state : Selection Path}, Grounded env state →
      env.files.length + state.pending.length ≤ fuel + state.selected.length →
        ∃ final, expand env fuel state = some final := by
  intro fuel
  induction fuel with
  | zero =>
    intro state h hfuel
    have hle := h.selected_length_le
    have hpending : state.pending = [] := List.length_eq_zero_iff.mp (by omega)
    exact ⟨state, by rw [expand, hpending]⟩
  | succ fuel ih =>
    intro state h hfuel
    rw [expand]
    cases hpending : state.pending with
    | nil => exact ⟨state, rfl⟩
    | cons path rest =>
      have hpop := h.pop hpending
      have hbalance := expandPath_balance env path hpop
      refine ih (hpop.expandPath path) ?_
      rw [hpending, List.length_cons] at hfuel
      change _ + state.selected.length = _ + rest.length at hbalance
      omega

/-- The state in which the expansion of a loaded root starts. -/
def rootState (env : Environment Path) (root : Path) (explicitImports : List Path) :
    Selection Path :=
  { initialState env root explicitImports with
    selected := [(env.canonicalize root, ())]
    pending := [env.canonicalize root] }

theorem grounded_rootState {env : Environment Path} {root : Path} {explicitImports : List Path}
    {file : RegistryFile Path}
    (hroot : lookup (initialState env root explicitImports).filesByPath (env.canonicalize root) =
      some file) : Grounded env (rootState env root explicitImports) := by
  refine ⟨faithful_initialState env root explicitImports, ?_, ?_, ?_⟩
  · exact List.pairwise_singleton _ _
  · intro path hpath
    obtain rfl : path = env.canonicalize root := by simpa [rootState, keys] using hpath
    exact ⟨file, hroot⟩
  · intro path hpath
    simpa [rootState, keys] using hpath

theorem extends_expandImport {env : Environment Path} {state : Selection Path}
    (h : Grounded env state) (path : Path) (document : RegistryDocument)
    (entry : RegistryImport × Nat) :
    Extends state.toLoadState (expandImport env path document state entry).toLoadState := by
  have houtcome := expandImport_outcome h path document entry
  refine (extends_followUri env path s!"$.imports[{entry.2}]" entry.1 _).trans ?_
  generalize expandImport env path document state entry = final at houtcome
  cases houtcome with
  | unused => exact Extends.refl _
  | rejected issues => exact ⟨fun _ _ h => h, issues, rfl⟩
  | known => exact Extends.refl _
  | added => exact Extends.refl _

theorem extends_expandPath {env : Environment Path} {state : Selection Path}
    (h : Grounded env state) (path : Path) :
    Extends state.toLoadState (expandPath env path state).toLoadState :=
  (expandPath_invariant
    (P := fun next => Grounded env next ∧ Extends state.toLoadState next.toLoadState)
    (fun document _ entry hstate => ⟨hstate.1.expandImport path document entry,
      hstate.2.trans (extends_expandImport hstate.1 path document entry)⟩)
    ⟨h, Extends.refl _⟩).2

/-- Once the root is loaded the selection ends, in a state that extends the start. -/
theorem select_spec {env : Environment Path} {root : Path} {explicitImports : List Path}
    {file : RegistryFile Path}
    (hroot : lookup (initialState env root explicitImports).filesByPath (env.canonicalize root) =
      some file) :
    ∃ final, select env root explicitImports = some final ∧ Grounded env final ∧
      Extends (initialState env root explicitImports) final.toLoadState ∧ final.pending = [] := by
  have hstart := grounded_rootState hroot
  obtain ⟨final, hfinal⟩ := expand_isSome (env.files.length + 1) hstart (by
    change _ + 1 ≤ _ + 1
    omega)
  obtain ⟨⟨hgrounded, hextends⟩, hpending⟩ := expand_induction
    (P := fun state => Grounded env state ∧
      Extends (initialState env root explicitImports) state.toLoadState)
    (fun state path rest h hpending => ⟨(h.1.pop hpending).expandPath path,
      h.2.trans (extends_expandPath (h.1.pop hpending) path)⟩)
    hfinal ⟨hstart, Extends.refl _⟩
  exact ⟨final, hfinal, hgrounded, hextends, hpending⟩

/-- What a load that returns a set has done. -/
theorem loadFs_some {env : Environment Path} {root : Path} {explicitImports : List Path}
    {set : RegistrySet} {issues : List ValidationIssue}
    (h : loadFs env root explicitImports = some ⟨some set, issues⟩) :
    ∃ file final, lookup (initialState env root explicitImports).filesByPath
        (env.canonicalize root) = some file ∧
      select env root explicitImports = some final ∧ Grounded env final ∧
      Extends (initialState env root explicitImports) final.toLoadState ∧
      final.pending = [] ∧ finish env file final = ⟨some set, issues⟩ := by
  rw [loadFs] at h
  cases hroot : lookup (initialState env root explicitImports).filesByPath
      (env.canonicalize root) with
  | none => simp [hroot] at h
  | some file =>
    obtain ⟨final, hfinal, hgrounded, hextends, hpending⟩ := select_spec hroot
    simp only [hroot, hfinal, Option.map_some, Option.some.injEq] at h
    exact ⟨file, final, rfl, hfinal, hgrounded, hextends, hpending, h⟩

theorem mem_selectedDocuments {state : Selection Path} {entry : String × RegistryDocument}
    (h : entry ∈ selectedDocuments state) : ∃ path file, path ∈ keys state.selected ∧
      lookup state.filesByPath path = some file ∧
      entry = (file.document.registryId, file.document) := by
  obtain ⟨path, hpath, hentry⟩ := List.mem_filterMap.mp (mem_of_mem_ofList h)
  obtain ⟨file, hfile, rfl⟩ := Option.map_eq_some_iff.mp hentry
  exact ⟨path, file, hpath, hfile, rfl⟩

/-- A registry set loaded without an issue is coherent. -/
theorem loadFs_coherent {env : Environment Path} {root : Path} {explicitImports : List Path}
    {set : RegistrySet} (h : loadFs env root explicitImports = some ⟨some set, []⟩) :
    Coherent set := by
  obtain ⟨file, final, -, -, hgrounded, -, -, hfinish⟩ := loadFs_some h
  simp only [finish, Loaded.mk.injEq, Option.some.injEq, List.append_eq_nil_iff] at hfinish
  obtain ⟨rfl, ⟨⟨hissues, -⟩, hsemantics⟩, hcollect⟩ := hfinish
  refine coherent_of_validated (sorted_ofList _) ?_ hsemantics hcollect rfl
  intro entry hentry
  obtain ⟨path, loaded, -, hloaded, rfl⟩ := mem_selectedDocuments hentry
  exact validateShape_shaped (hgrounded.faithful.shaped hissues path loaded hloaded)

end SpecGate.ImportSelection

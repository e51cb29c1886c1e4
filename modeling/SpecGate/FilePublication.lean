import Mathlib

/-!
The command-line tool writes a file beside its destination, removes what the destination held,
and renames the new file over it. An operation of the file system may fail, or the process may
stop, at each of these steps. The destination holds its old content or the new one, and the old
one after an error, unless the run ends between the removal and the renaming.
-/
namespace SpecGate.FilePublication

section Steps

variable {Step World : Type*}

/-- What can go wrong at a step: the operation fails, the process stops before the operation is
complete, or it stops right after it. -/
inductive Fault where
  | error
  | stopWithin
  | stopAfter
  deriving DecidableEq, Repr

inductive Outcome (Step : Type*) where
  | ok
  | failed (step : Step)
  | stopped (step : Step)
  deriving DecidableEq, Repr

/-- One operation and, if nothing goes wrong, what comes after it. The operation may leave
`broken` behind when it is not complete, and `clean` is what an error drops on its way out. -/
def perform (faults : Step → Option Fault) (clean : World → World) (step : Step)
    (effect broken : World → World) (next : World → World × Outcome Step) (world : World) :
    World × Outcome Step :=
  match faults step with
  | none => next (effect world)
  | some .error => (clean (broken world), .failed step)
  | some .stopWithin => (broken world, .stopped step)
  | some .stopAfter => (effect world, .stopped step)

variable {faults : Step → Option Fault} {clean effect broken : World → World} {step : Step}
  {next : World → World × Outcome Step} {world : World} {P : World × Outcome Step → Prop}

/-- If a property survives whatever goes wrong at a step, the step has it when the rest has it. -/
theorem perform_iff (herror : P (clean (broken world), .failed step))
    (hwithin : P (broken world, .stopped step)) (hafter : P (effect world, .stopped step)) :
    P (perform faults clean step effect broken next world) ↔
      (faults step = none → P (next (effect world))) := by
  unfold perform
  split <;> rename_i hfault
  · simp only [hfault, forall_const]
  all_goals simp only [hfault, reduceCtorEq, false_imp_iff, iff_true]; assumption

end Steps

abbrev Bytes := List UInt8

/-- The operations of `publish`, in their order. -/
inductive Operation where
  | createDirectory
  | createTemporary
  | write
  | sync
  | probe
  | remove
  | persist
  deriving DecidableEq, Repr

/-- The destination and the temporary file of the run. -/
structure Files where
  destination : Option Bytes
  temporary : Option Bytes
  deriving DecidableEq, Repr

/-- A temporary file is deleted when it is dropped. -/
def dropTemporary (files : Files) : Files := { files with temporary := none }

variable (faults : Operation → Option Fault) (written : Nat) (bytes : Bytes)

/-- Renames the temporary file over the destination, in one step. -/
def persist : Files → Files × Outcome Operation :=
  perform faults dropTemporary .persist
    (fun files => { destination := files.temporary, temporary := none }) id
    fun files => (files, .ok)

/-- What follows the answer to whether the destination exists. -/
def replace (found : Bool) : Files → Files × Outcome Operation :=
  if found then
    perform faults dropTemporary .remove (fun files => { files with destination := none }) id
      (persist faults)
  else persist faults

/-- The answer is no as well when the file system cannot tell. -/
def probe (files : Files) : Files × Outcome Operation :=
  match faults .probe with
  | none => replace faults files.destination.isSome files
  | some .error => replace faults false files
  | some _ => (files, .stopped .probe)

/-- Publishes bytes at the destination. A write that is not complete has written some first
part of them. -/
def publish (previous : Option Bytes) : Files × Outcome Operation :=
  perform faults dropTemporary .createDirectory id id
    (perform faults dropTemporary .createTemporary (fun files => { files with temporary := some [] })
      id
      (perform faults dropTemporary .write (fun files => { files with temporary := some bytes })
        (fun files => { files with temporary := some (bytes.take written) })
        (perform faults dropTemporary .sync id id (probe faults))))
    { destination := previous, temporary := none }

/-- Old or new content in full, and the old content after an error. -/
def Atomic (previous : Option Bytes) (bytes : Bytes) (result : Files × Outcome Operation) : Prop :=
  (result.1.destination = previous ∨ result.1.destination = some bytes) ∧
    ∀ operation, result.2 = .failed operation → result.1.destination = previous

/-- The run ends after the old file is removed and before the new one is in its place. -/
def Torn (previous : Option Bytes) : Prop :=
  previous ≠ none ∧
    (∀ operation ∈ [Operation.createDirectory, .createTemporary, .write, .sync, .probe],
      faults operation = none) ∧
    (faults .remove = some .stopAfter ∨
      faults .remove = none ∧
        (faults .persist = some .error ∨ faults .persist = some .stopWithin))

section Atomicity

variable {faults : Operation → Option Fault} {written : Nat} {bytes : Bytes}
  {previous : Option Bytes}

theorem atomic_of_kept {result : Files × Outcome Operation}
    (hkept : result.1.destination = previous) : Atomic previous bytes result :=
  ⟨.inl hkept, fun _ _ => hkept⟩

/-- Whatever goes wrong at an operation that leaves the destination alone is harmless. -/
theorem perform_kept {operation : Operation} {effect broken : Files → Files}
    {next : Files → Files × Outcome Operation} {files : Files}
    (heffect : (effect files).destination = previous)
    (hbroken : (broken files).destination = previous) :
    Atomic previous bytes (perform faults dropTemporary operation effect broken next files) ↔
      (faults operation = none → Atomic previous bytes (next (effect files))) :=
  perform_iff (atomic_of_kept hbroken) (atomic_of_kept hbroken) (atomic_of_kept heffect)

/-- While the destination is still there, renaming over it is safe. -/
theorem persist_kept : Atomic previous bytes (persist faults ⟨previous, some bytes⟩) := by
  have hnew {outcome} (houtcome : ∀ operation, outcome ≠ .failed operation) :
      Atomic previous bytes (⟨some bytes, none⟩, outcome) :=
    ⟨.inr rfl, fun operation h => absurd h (houtcome operation)⟩
  refine (perform_iff ?_ ?_ ?_).mpr fun _ => ?_
  · exact atomic_of_kept rfl
  · exact atomic_of_kept rfl
  · exact hnew fun _ h => by cases h
  · exact hnew fun _ h => by cases h

theorem not_atomic_absent {old : Bytes} {result : Files × Outcome Operation}
    (habsent : result.1.destination = none) : ¬ Atomic (some old) bytes result := by
  rintro ⟨h | h, -⟩ <;> rw [habsent] at h <;> cases h

/-- Once it is removed, the renaming has to succeed, or the process to stop after it. -/
theorem persist_removed {old : Bytes} :
    Atomic (some old) bytes (persist faults ⟨none, some bytes⟩) ↔
      ¬ (faults .persist = some .error ∨ faults .persist = some .stopWithin) := by
  unfold persist perform
  split <;> rename_i hfault
  · exact iff_of_true ⟨.inr rfl, fun _ h => by cases h⟩ (by simp [hfault])
  · exact iff_of_false (not_atomic_absent rfl) (by simp [hfault])
  · exact iff_of_false (not_atomic_absent rfl) (by simp [hfault])
  · exact iff_of_true ⟨.inr rfl, fun _ h => by cases h⟩ (by simp [hfault])

theorem replace_found {old : Bytes} :
    Atomic (some old) bytes (replace faults true ⟨some old, some bytes⟩) ↔
      ¬ (faults .remove = some .stopAfter ∨
        faults .remove = none ∧
          (faults .persist = some .error ∨ faults .persist = some .stopWithin)) := by
  simp only [replace, if_true]
  unfold perform
  split <;> rename_i hfault
  · simpa [hfault] using persist_removed
  · exact iff_of_true (atomic_of_kept rfl) (by simp [hfault])
  · exact iff_of_true (atomic_of_kept rfl) (by simp [hfault])
  · exact iff_of_false (not_atomic_absent rfl) (by simp [hfault])

/-- The old file is removed only if the file system says that it is there. -/
theorem probe_atomic :
    Atomic previous bytes (probe faults ⟨previous, some bytes⟩) ↔
      ¬ (previous ≠ none ∧ faults .probe = none ∧
        (faults .remove = some .stopAfter ∨
          faults .remove = none ∧
            (faults .persist = some .error ∨ faults .persist = some .stopWithin))) := by
  unfold probe
  split <;> rename_i hfault
  · cases previous with
    | none => exact iff_of_true persist_kept fun h => h.1 rfl
    | some old => simpa [hfault] using replace_found
  · exact iff_of_true persist_kept (by simp [hfault])
  · exact iff_of_true (atomic_of_kept rfl) (by simp [hfault])

/-- A run is atomic unless it ends between the removal of the old file and the renaming of the
new one. -/
theorem publish_atomic_iff (faults : Operation → Option Fault) (written : Nat)
    (previous : Option Bytes) (bytes : Bytes) :
    Atomic previous bytes (publish faults written bytes previous) ↔ ¬ Torn faults previous := by
  unfold publish
  rw [perform_kept, perform_kept, perform_kept, perform_kept]
  · simp only [id, probe_atomic, Torn, List.forall_mem_cons, List.not_mem_nil, false_imp_iff,
      implies_true, and_true]
    tauto
  all_goals rfl

/-- The renaming fails over a file that has been removed: the caller gets the error, and the
old content is gone. -/
theorem content_lost :
    (publish (fun operation => if operation = .persist then some .error else none) 0 [2]
        (some [1])).2 = .failed .persist ∧
      ¬ Atomic (some [1]) [2]
        (publish (fun operation => if operation = .persist then some .error else none) 0 [2]
          (some [1])) :=
  ⟨rfl, not_atomic_absent rfl⟩

end Atomicity

end SpecGate.FilePublication

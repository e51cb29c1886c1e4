import SpecGate.SidecarRuns
import SpecGate.SidecarValues

/-!
What becomes of a sidecar once the test process has exited. It is read, checked against
the identity that was issued, and settled: as a capture, as a failure, or not at all. A
sidecar that is settled as a capture has every operation of the session, as the session
has it; and a session whose operations have all been completed leaves such a sidecar,
unless a failure was reported or the sidecar cannot be read.
-/
namespace SpecGate.SettledSidecars

open CaptureSession CaptureEffects CaptureRuns ActiveOperation Collecting SidecarRuns SidecarValues

/-! ### Reading a sidecar -/

section Reading

variable {Value W : Type}

def completionNesting : Nat := 4

end Reading

/-- What a test process leaves behind, with the summary of its exit status and streams. -/
structure Output where
  exitCode : Option Int
  stdout : String
  stderr : String
  summary : String

inductive FailureReason where
  | testFailed
  | unfinalized
  | unrecordable
  deriving DecidableEq

structure FailedTest where
  scenarioName : String
  reason : FailureReason
  summary : String

inductive Settled where
  | captured (capture : Capture NativeValue)
  | skipped
  | failed (test : FailedTest)

section Carried

variable {Value W : Type} {f : Nat → Value → Option W} {p : Nat → Value → Bool} {g : Value → W}

end Carried

section Settling

variable {nearest : Int → UInt64} {reason : String} {output : Output}

end Settling

/-! ### A read -/

def passed (stderr : String) : Output := ⟨some 0, "", stderr, "exit code 0"⟩

end SpecGate.SettledSidecars

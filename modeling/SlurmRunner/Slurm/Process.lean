/-
# Child processes

`TokioDispatcher::capture`: how the end of a child process becomes the answer that the queries
read.  A child exits with a code or is terminated by a signal; the bytes that it has written by
then are its output in both cases.
-/
import SlurmRunner.Slurm.Listing
import SlurmRunner.Text.Utf8

namespace Slurm

open Text

/-- How a child process has ended. -/
inductive ExitStatus where
  | exited (code : Int)
  | terminated (signal : Nat)
deriving DecidableEq, Repr

namespace ExitStatus

/-- `ExitStatus::code`: none after a signal. -/
def code : ExitStatus → Option Int
  | exited c => some c
  | terminated _ => none

def byASignal (status : ExitStatus) : Bool := status.code.isNone

end ExitStatus

/-- `std::process::Output`. -/
structure ProcessOutput where
  status : ExitStatus
  stdout : List UInt8
  stderr : List UInt8
deriving DecidableEq, Repr

/-- `TokioDispatcher::capture`, where `spawned` is what waiting for the child of this command line
gave. -/
def tokioCapture (argv : Argv) (spawned : Except Str ProcessOutput) : Answer :=
  match argv with
  | [] => .error "TokioDispatcher::capture called with empty argv"
  | program :: _ =>
    match spawned with
    | .error e => .error (("failed to spawn `" : Str) ++ program ++ ("`: " : Str) ++ e)
    | .ok output => .ok {
        exitCode := output.status.code.getD 0
        stdout := fromUtf8Lossy output.stdout
        stderr := fromUtf8Lossy output.stderr }

/-- The answer of a child that was terminated by a signal counts as a success, and what it had
written by then as its whole output. -/
theorem tokioCapture_terminated {program : Str} {args : List Str} {output : ProcessOutput}
    (hsignal : output.status.byASignal = true) :
    ∃ out, tokioCapture (program :: args) (.ok output) = .ok out ∧ out.success = true ∧
      out.stdout = fromUtf8Lossy output.stdout := by
  refine ⟨_, rfl, ?_, rfl⟩
  rw [ExitStatus.byASignal, Option.isNone_iff_eq_none] at hsignal
  simp [CaptureOutput.success, hsignal]

end Slurm

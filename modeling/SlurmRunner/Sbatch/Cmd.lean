/-
# The submission command

`SbatchCmd` is one `sbatch` invocation, `buildArgv` its command line and `parseSubmittedJobid` the
reader of what sbatch prints.  A path is made absolute with the current directory of that moment, so
that a command line is built from the command and from what asking for that directory returned.
-/
import SlurmRunner.Slurm.ArraySpec
import SlurmRunner.Slurm.Options
import SlurmRunner.Text.Path
import Mathlib.Data.Char
import Mathlib.Data.List.Lex
import Mathlib.Data.List.Sort

namespace Sbatch

open Text Slurm

/-! ## 1. The command

The fields are those of the builder, with the defaults of `new`. -/

structure SbatchCmd where
  sbatchBin : Str
  jobName : Option Str
  partition : Option Str
  timeLimit : Option JobTimeLimit
  rsc : Option ResourceSpec
  output : Option Str
  error : Option Str
  chdir : Option Str
  arraySpec : Option SlurmArraySpec
  dependency : Option SlurmDependency
  mailUser : Option Str
  mailTypes : Option MailTypeInput
  signal : Option SlurmSignalSpec
  /-- The entries of a map, in no particular order. -/
  env : List (Str × Str)
  noRequeue : Bool
  comment : Option Str
  nice : Option Int
  script : Str
  args : List Str
deriving DecidableEq, Repr

/-- `SbatchCmd::new`. -/
def SbatchCmd.new (script : Str) : SbatchCmd where
  sbatchBin := "sbatch"
  jobName := none
  partition := none
  timeLimit := none
  rsc := none
  output := none
  error := none
  chdir := none
  arraySpec := none
  dependency := none
  mailUser := none
  mailTypes := none
  signal := none
  env := []
  noRequeue := false
  comment := none
  nice := none
  script := script
  args := []

inductive SbatchSpawnError where
  /-- `output` is the merged form of both output streams. -/
  | submitFailed (exitCode : Int) (output : Str)
  | jobidParseError (stdout : Str)
  | invalidExportKey (key : Str)
  | invalidExportValue (key value : Str)
  /-- The job was submitted, and saving its snapshot failed. -/
  | submittedButUnpersisted (jobid : JobId) (source : Str)
  | other (e : Str)
deriving DecidableEq, Repr

/-- The error carries the id of a job that was submitted. -/
def SbatchSpawnError.hasJobid : SbatchSpawnError → Bool
  | submittedButUnpersisted _ _ => true
  | _ => false

/-! ## 2. The command line

The options come in a fixed order, then the script, then its arguments; the working directory and
the script are made absolute before. -/

/-- `absolutize`. -/
def absolutize (currentDir : Except Str Str) (p : Str) : Except SbatchSpawnError Str :=
  match Path.absolute currentDir p with
  | .ok abs => .ok abs
  | .error _ => .error (.other (("failed to absolutize " : Str) ++ p))

/-- The entries of `--export`, in the order of their keys. -/
def exportEntries (env : List (Str × Str)) : List (Str × Str) :=
  env.insertionSort fun a b => a.1 ≤ b.1

/-- `render_export`: a comma or an equals sign would split an entry. -/
def renderExport (env : List (Str × Str)) : Except SbatchSpawnError Str :=
  (exportEntries env).foldlM (fun out kv =>
    if ',' ∈ kv.1 ∨ '=' ∈ kv.1 then .error (.invalidExportKey kv.1)
    else if ',' ∈ kv.2 ∨ '=' ∈ kv.2 then .error (.invalidExportValue kv.1 kv.2)
    else .ok (out ++ ',' :: kv.1 ++ '=' :: kv.2)) "ALL"

namespace SbatchCmd

/-- A flag with its value, or nothing. -/
def flag (name : Str) (value : Option Str) : Argv := (value.map fun v => [name, v]).getD []

/-- The value of `--chdir`. -/
def chdirValue (cmd : SbatchCmd) (currentDir : Except Str Str) :
    Except SbatchSpawnError (Option Str) :=
  match cmd.chdir with
  | some c => (absolutize currentDir c).map some
  | none => .ok none

def exportFlag (cmd : SbatchCmd) : Except SbatchSpawnError Argv :=
  if cmd.env = [] then .ok []
  else (renderExport cmd.env).map fun s => [("--export=" : Str) ++ s]

/-- `build_argv`; the current directory is asked for once for `--chdir` and once for the script. -/
def buildArgv (cmd : SbatchCmd) (chdirDir scriptDir : Except Str Str) :
    Except SbatchSpawnError Argv := do
  let chdir ← cmd.chdirValue chdirDir
  let exported ← cmd.exportFlag
  let script ← absolutize scriptDir cmd.script
  return [cmd.sbatchBin] ++ flag "-J" cmd.jobName ++ flag "-p" cmd.partition ++
    flag "-t" (cmd.timeLimit.map JobTimeLimit.toStr) ++
    -- a request without keys is left out
    flag "--rsc" ((cmd.rsc.map ResourceSpec.toStr).filter (· ≠ [])) ++
    flag "-o" cmd.output ++ flag "-e" cmd.error ++ flag "--chdir" chdir ++
    flag "-a" (cmd.arraySpec.map SlurmArraySpec.toStr) ++ exported ++
    flag "-d" (cmd.dependency.map SlurmDependency.toStr) ++ flag "--mail-user" cmd.mailUser ++
    flag "--mail-type" (cmd.mailTypes.map MailTypeInput.toStr) ++
    flag "--signal" (cmd.signal.map SlurmSignalSpec.toStr) ++
    (if cmd.noRequeue then [("--no-requeue" : Str)] else []) ++ flag "--comment" cmd.comment ++
    -- one word, so that a negative value is not taken for a flag
    (cmd.nice.map fun n => ("--nice=" : Str) ++ showI32 n).toList ++ [script] ++ cmd.args

end SbatchCmd

/-! ## 3. What sbatch prints -/

/-- The job id in one line. -/
def submittedLine (line : Str) : Option JobId := do
  let rest ← stripStart "Submitted batch job " (trim line)
  let id := rest.takeWhile Char.isDigit
  if id = [] then none else parseU64 id

/-- `parse_submitted_jobid`: the first line that has one. -/
def parseSubmittedJobid (stdout : Str) : Option JobId := (lines stdout).findSome? submittedLine

/-! ## 4. What a built command line says of its paths

What `build_argv` can fail on comes before the submission, so none of its errors has a job id. -/

/-- A path that was made absolute is the one that `std::path::absolute` returns. -/
theorem absolutize_ok {dir : Except Str Str} {p q : Str} (h : absolutize dir p = .ok q) :
    Path.absolute dir p = .ok q := by
  unfold absolutize at h
  split at h
  · rename_i abs habs
    cases h
    exact habs
  · cases h

/-- A command line is built only with an absolute script. -/
theorem SbatchCmd.buildArgv_script {cmd : SbatchCmd} {chdirDir scriptDir : Except Str Str}
    {argv : Argv} (h : cmd.buildArgv chdirDir scriptDir = .ok argv) :
    ∃ q, Path.absolute scriptDir cmd.script = .ok q := by
  unfold buildArgv at h
  cases hscript : absolutize scriptDir cmd.script with
  | ok q => exact ⟨q, absolutize_ok hscript⟩
  | error e =>
    rw [hscript] at h
    rcases hchdir : cmd.chdirValue chdirDir with e' | v
    · rw [hchdir] at h
      cases h
    · rcases hexport : cmd.exportFlag with e' | x
      · rw [hchdir, hexport] at h
        cases h
      · rw [hchdir, hexport] at h
        cases h

/-- An error of it is an error of the command, before any job is submitted. -/
theorem absolutize_error {dir : Except Str Str} {p : Str} {e : SbatchSpawnError}
    (h : absolutize dir p = .error e) : e.hasJobid = false := by
  unfold absolutize at h
  split at h
  · cases h
  · cases h
    rfl

/-- The value of `--export` is made before the submission. -/
theorem renderExport_error {env : List (Str × Str)} {e : SbatchSpawnError}
    (h : renderExport env = .error e) : e.hasJobid = false := by
  unfold renderExport at h
  generalize exportEntries env = entries at h
  generalize ("ALL" : Str) = out at h
  induction entries generalizing out with
  | nil => cases h
  | cons kv entries ih =>
    rw [List.foldlM_cons] at h
    split at h
    · cases h
      rfl
    · split at h
      · cases h
        rfl
      · exact ih _ h

/-- An error goes through a map. -/
theorem map_error {α β : Type} {f : α → β} {x : Except SbatchSpawnError α} {e : SbatchSpawnError}
    (h : x.map f = .error e) : x = .error e := by
  cases x with
  | error e' =>
    cases h
    rfl
  | ok a => cases h

/-- The working directory is made absolute before the submission. -/
theorem SbatchCmd.chdirValue_error {cmd : SbatchCmd} {dir : Except Str Str} {e : SbatchSpawnError}
    (h : cmd.chdirValue dir = .error e) : e.hasJobid = false := by
  unfold chdirValue at h
  split at h
  · exact absolutize_error (map_error h)
  · cases h

/-- And so is the environment rendered. -/
theorem SbatchCmd.exportFlag_error {cmd : SbatchCmd} {e : SbatchSpawnError}
    (h : cmd.exportFlag = .error e) : e.hasJobid = false := by
  unfold exportFlag at h
  split at h
  · cases h
  · exact renderExport_error (map_error h)

/-- Building a command line fails before anything is submitted. -/
theorem SbatchCmd.buildArgv_error {cmd : SbatchCmd} {chdirDir scriptDir : Except Str Str}
    {e : SbatchSpawnError} (h : cmd.buildArgv chdirDir scriptDir = .error e) :
    e.hasJobid = false := by
  unfold buildArgv at h
  rcases hchdir : cmd.chdirValue chdirDir with e' | v
  · rw [hchdir] at h
    cases h
    exact chdirValue_error hchdir
  · rcases hexport : cmd.exportFlag with e' | x
    · rw [hchdir, hexport] at h
      cases h
      exact exportFlag_error hexport
    · rcases hscript : absolutize scriptDir cmd.script with e' | q
      · rw [hchdir, hexport, hscript] at h
        cases h
        exact absolutize_error hscript
      · rw [hchdir, hexport, hscript] at h
        cases h

end Sbatch

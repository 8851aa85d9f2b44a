/-
# Command output and its parsers

What a status command returns (`CaptureOutput`), how a failure is told from an answer, and the
parsers of the listings that `squeue`, `sacct` and `qgroup -l` print.
-/
import SlurmRunner.Slurm.Status
import SlurmRunner.Text.Number
import SlurmRunner.Text.Rows

namespace Slurm

open Text

/-- A job id (`u64`). -/
abbrev JobId := UInt64

/-- Whether an id is in a list is decided in the same way everywhere. -/
instance : LawfulBEq JobId := inferInstance

/-- The index of a task of an array job (`u32`). -/
abbrev TaskIndex := UInt32

/-- The words of a command line. -/
abbrev Argv := List Str

/-! ## 1. Command output

What a finished command has left: the exit code and the two streams. -/

/-- Exit code and output streams of a finished command. -/
structure CaptureOutput where
  exitCode : Int
  stdout : Str
  stderr : Str
deriving DecidableEq, Repr

/-- What `capture` returns: output, or the text of a spawn error. -/
abbrev Answer := Except Str CaptureOutput

namespace CaptureOutput

def success (out : CaptureOutput) : Bool := out.exitCode == 0

/-- The merged form that the submission errors carry. -/
def diagnostic (out : CaptureOutput) : Str :=
  if trim out.stderr = [] then out.stdout
  else if out.stdout = [] then ("[stderr]\n" : Str) ++ out.stderr
  else out.stdout ++ ("\n[stderr]\n" : Str) ++ out.stderr

end CaptureOutput

/-- `Display` of an `i32`. -/
def showI32 (n : Int) : Str := if n < 0 then '-' :: decimal n.natAbs else decimal n.natAbs

/-- A nonzero exit is an error that names the tool, the code and the trimmed stderr. -/
def ensureQuerySuccess (tool : Str) (out : CaptureOutput) : Except Str Unit :=
  if out.success then .ok ()
  else .error (("`" : Str) ++ tool ++ ("` exited with " : Str) ++ showI32 out.exitCode ++
    (": " : Str) ++ trim out.stderr)

/-- squeue exits nonzero with this text when every queried id has left the queue. -/
def squeueReportsVanished (out : CaptureOutput) : Bool :=
  out.exitCode != 0 && contains "Invalid job id specified" out.stderr

/-! ## 2. Rows

What a line of each listing says, and of which job.  A line that is no row is skipped. -/

/-- Outcome of a sacct query for one job: status plus optional exit code. -/
structure JobOutcome where
  status : JobStatus
  exitCode : Option Int
deriving DecidableEq, Repr

/-- What the queries report for a job without a usable row. -/
def JobOutcome.default : JobOutcome := ⟨.default, none⟩

/-- The sacct `ExitCode` column `<exit>:<signal>`.  The sum is `i32` arithmetic. -/
def parseSacctExitCode (field : Str) : Option Int := do
  let (exitS, signalS) ← splitOnce ':' field
  let exit ← parseI32 exitS
  let signal ← parseI32 signalS
  if signal ≠ 0 then some ((128 + signal).bmod (2 ^ 32)) else some exit

/-- Row of `squeue -o "%i %T %r"`, keyed by a job id. -/
def squeueRow (line : Str) : Option (JobId × JobStatus) :=
  match splitWhitespace line with
  | jidStr :: stateStr :: rest =>
    (parseU64 jidStr).map fun jid => (jid, ⟨.parse stateStr, .parse (rest.headD [])⟩)
  | _ => none

/-- Row of `squeue -o "%i %T %r"` whose id column is `key`. -/
def squeueTaskRow (key : Str) (line : Str) : Option JobStatus :=
  match splitWhitespace line with
  | jidStr :: stateStr :: rest =>
    if jidStr = key then some ⟨.parse stateStr, .parse (rest.headD [])⟩ else none
  | _ => none

/-- Parent row of `sacct -P -n -o JobID,State,Reason`, keyed by a job id. -/
def sacctStatusRow (line : Str) : Option (JobId × JobStatus) :=
  match splitN '|' 3 line with
  | jidStr :: stateStr :: rest =>
    if '.' ∈ jidStr then none
    else (parseU64 jidStr).map fun jid => (jid, ⟨.parse stateStr, .parse (rest.headD [])⟩)
  | _ => none

/-- Parent row of `sacct -P -n -o JobID,State,Reason,ExitCode`, keyed by a job id; step rows
carry a dot in their id. -/
def sacctRow (line : Str) : Option (JobId × JobOutcome) :=
  match splitN '|' 4 line with
  | jidStr :: stateStr :: rest =>
    if '.' ∈ jidStr then none
    else (parseU64 jidStr).map fun jid =>
      (jid, ⟨⟨.parse stateStr, .parse (rest.headD [])⟩, rest[1]?.bind parseSacctExitCode⟩)
  | _ => none

/-- Row of `sacct -P -n -o JobID,State,Reason,ExitCode` whose id column is `key`. -/
def sacctTaskRow (key : Str) (line : Str) : Option JobOutcome :=
  match splitN '|' 4 line with
  | jidStr :: stateStr :: rest =>
    if jidStr = key then
      some ⟨⟨.parse stateStr, .parse (rest.headD [])⟩, rest[1]?.bind parseSacctExitCode⟩
    else none
  | _ => none

/-- Row of `qgroup -l`: the column dividers are dropped; id 0 is a summary row's count. -/
def qgroupRow (line : Str) : Option (JobId × JobStatus) :=
  match (splitWhitespace line).filter (· ≠ ("|" : Str)) with
  | _queue :: _user :: jobidStr :: stateStr :: _ =>
    match parseU64 jobidStr with
    | some jobid => if jobid = 0 then none else some (jobid, ⟨.parse stateStr, .none⟩)
    | none => none
  | _ => none

/-! ## 3. Parsers

The maps of the source keep the last row of a job, and the search for a task stops at the first
one. -/

/-- Parse `%i %T %r` rows from `squeue -h`. -/
def parseSqueue (text : Str) : Map JobId JobStatus := lastRows squeueRow (lines text)

/-- Parse `JobID|State|Reason` rows from `sacct -P -n`. -/
def parseSacct (text : Str) : Map JobId JobStatus := lastRows sacctStatusRow (lines text)

/-- Parse `JobID|State|Reason|ExitCode` rows from `sacct -P -n`. -/
def parseSacctWithExitCode (text : Str) : Map JobId JobOutcome := lastRows sacctRow (lines text)

/-- Parse `qgroup -l` output. -/
def parseQgroupL (stdout : Str) : Map JobId JobStatus := lastRows qgroupRow (lines stdout)

/-- The first squeue row of one array task. -/
def parseSqueueArrayTask (text key : Str) : Option JobStatus :=
  (lines text).findSome? (squeueTaskRow key)

/-- The first sacct parent row of one array task. -/
def parseSacctArrayTaskWithExitCode (text key : Str) : Option JobOutcome :=
  (lines text).findSome? (sacctTaskRow key)

/-! ## 4. What a row says -/

/-- The first word is the job id, and the second the state. -/
theorem squeueRow_eq_some {line : Str} {j : JobId} {s : JobStatus} :
    squeueRow line = some (j, s) ↔ ∃ id st rest, splitWhitespace line = id :: st :: rest ∧
      parseU64 id = some j ∧ s = ⟨.parse st, .parse (rest.headD [])⟩ := by
  unfold squeueRow
  split
  · rename_i id st rest h
    constructor
    · intro hm
      obtain ⟨j', hj, he⟩ := Option.map_eq_some_iff.mp hm
      cases he
      exact ⟨id, st, rest, h, hj, rfl⟩
    · rintro ⟨id', st', rest', he, hj, rfl⟩
      cases h.symm.trans he
      rw [hj, Option.map_some]
  · rename_i h
    constructor
    · intro hc
      cases hc
    · rintro ⟨id, st, rest, he, -⟩
      exact absurd he (h id st rest)

/-- The first word is the key, compared as a text. -/
theorem squeueTaskRow_eq_some {key line : Str} {s : JobStatus} :
    squeueTaskRow key line = some s ↔ ∃ st rest, splitWhitespace line = key :: st :: rest ∧
      s = ⟨.parse st, .parse (rest.headD [])⟩ := by
  unfold squeueTaskRow
  split
  · rename_i id st rest h
    constructor
    · intro hm
      split at hm
      · rename_i hk
        cases hm
        exact ⟨st, rest, hk ▸ h, rfl⟩
      · cases hm
    · rintro ⟨st', rest', he, rfl⟩
      cases h.symm.trans he
      rw [if_pos rfl]
  · rename_i h
    constructor
    · intro hc
      cases hc
    · rintro ⟨st, rest, he, -⟩
      exact absurd he (h key st rest)

end Slurm

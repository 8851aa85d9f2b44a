/-
# The status queries

The query functions that a handle calls on its dispatcher: each builds a command line, asks for
it and reads the answer.  `squeueListing` and `toolListing` are what the functions make of one
answer; below them stands what each function is at the single job that the handles pass.
-/
import SlurmRunner.Sbatch.QueryCache

namespace Sbatch

open Text Slurm Interact

/-! ## 1. Command lines

The three query programs of the source, with the keys that go into them. -/

/-- Keep the first of equal ids. -/
def dedupePreservingOrder (ids : List JobId) : List JobId := ids.eraseDups

def csvJoin (ids : List JobId) : Str := List.intercalate [','] (ids.map fun id => decimal id.toNat)

/-- `<master>_<idx>`. -/
def taskKey (master : JobId) (idx : TaskIndex) : Str :=
  decimal master.toNat ++ '_' :: decimal idx.toNat

/-- The key of a task has digits and an underscore in it. -/
theorem not_mem_taskKey {master : JobId} {idx : TaskIndex} {c : Char} (hc : c.isDigit = false)
    (hne : c ≠ '_') : c ∉ taskKey master idx := by
  simp [taskKey, not_mem_decimal hc, hne]

def qgroupArgv : Argv := ["qgroup", "-l"]

def squeueArgv (keys : Str) : Argv := ["squeue", "-h", "-r", "-j", keys, "-o", "%i %T %r"]

def sacctArgv (keys : Str) : Argv :=
  ["sacct", "-P", "-n", "-j", keys, "-o", "JobID,State,Reason,ExitCode"]

/-- The sacct query without the exit code. -/
def sacctStatusArgv (keys : Str) : Argv :=
  ["sacct", "-P", "-n", "-j", keys, "-o", "JobID,State,Reason"]

/-- Different programs, so the cache of one takes no command line of another. -/
theorem squeueArgv_ne_qgroupArgv (keys : Str) : squeueArgv keys ≠ qgroupArgv := by
  intro h
  have hlength := congrArg List.length h
  simp [squeueArgv, qgroupArgv] at hlength

theorem sacctArgv_ne_qgroupArgv (keys : Str) : sacctArgv keys ≠ qgroupArgv := by
  intro h
  have hlength := congrArg List.length h
  simp [sacctArgv, qgroupArgv] at hlength

theorem squeueArgv_ne_sacctArgv (keys keys' : Str) : squeueArgv keys ≠ sacctArgv keys' := by
  intro h
  exact absurd (List.cons.inj h).1 (by decide)

/-! ## 2. Answers -/

/-- An answer to a squeue query, as a listing: the vanish signal is an empty one, any other
failure an error. -/
def squeueListing {α : Type} (parse : Str → α) (empty : α) (r : Answer) : Except Str α :=
  match r with
  | .error e => .error e
  | .ok out =>
    if squeueReportsVanished out then .ok empty
    else match ensureQuerySuccess "squeue" out with
      | .error e => .error e
      | .ok () => .ok (parse out.stdout)

/-- An answer to another query, as a listing. -/
def toolListing {α : Type} (tool : Str) (parse : Str → α) (r : Answer) : Except Str α :=
  match r with
  | .error e => .error e
  | .ok out =>
    match ensureQuerySuccess tool out with
    | .error e => .error e
    | .ok () => .ok (parse out.stdout)

/-! ## 3. Queries

The loops of the source over the ids, with a map as the accumulator. -/

section Queries

variable {ι : Type} {K : ι → Type} (dispatcher : Dispatcher K)

/-- `qgroup -l`, restricted to the wanted ids. -/
def queryJobStatesViaQgroupWith (jobids : List JobId) :
    Prog (sig K) (Except Str (Map JobId JobStatus)) := do
  if jobids.isEmpty then
    return .ok Map.empty
  let r ← dispatcher qgroupArgv
  match toolListing "qgroup" parseQgroupL r with
  | .error e => return .error e
  | .ok all => return .ok fun k => if k ∈ jobids then all k else none

/-- squeue only, without a sacct fallback. -/
def queryJobStatesSqueueOnlyWith (jobids : List JobId) :
    Prog (sig K) (Except Str (Map JobId JobStatus)) := do
  if jobids.isEmpty then
    return .ok Map.empty
  let unique := dedupePreservingOrder jobids
  let r ← dispatcher (squeueArgv (csvJoin unique))
  return squeueListing parseSqueue Map.empty r

/-- Every input id, with the status that squeue or else sacct has of it. -/
def mergeResults (jobids : List JobId) (active history : Map JobId JobStatus) :
    Map JobId JobStatus :=
  jobids.foldl (fun out jid => out.insert jid (((active jid).or (history jid)).getD .default))
    Map.empty

/-- squeue, then sacct for the ids that squeue does not list. -/
def queryJobStatesBatchWith (jobids : List JobId) :
    Prog (sig K) (Except Str (Map JobId JobStatus)) := do
  if jobids.isEmpty then
    return .ok Map.empty
  let unique := dedupePreservingOrder jobids
  let r ← dispatcher (squeueArgv (csvJoin unique))
  match squeueListing parseSqueue Map.empty r with
  | .error e => return .error e
  | .ok active =>
    let missing := unique.filter fun j => (active j).isNone
    let history ←
      if missing.isEmpty then pure (.ok Map.empty)
      else do
        let r ← dispatcher (sacctStatusArgv (csvJoin missing))
        pure (toolListing "sacct" parseSacct r)
    match history with
    | .error e => return .error e
    | .ok history => return .ok (mergeResults jobids active history)

/-- The same with the exit codes of sacct; every input id is in the result. -/
def queryJobStatesWithExitCodeWith (jobids : List JobId) :
    Prog (sig K) (Except Str (Map JobId JobOutcome)) := do
  if jobids.isEmpty then
    return .ok Map.empty
  let unique := dedupePreservingOrder jobids
  let r ← dispatcher (squeueArgv (csvJoin unique))
  match squeueListing parseSqueue Map.empty r with
  | .error e => return .error e
  | .ok active =>
    let missing := unique.filter fun j => (active j).isNone
    let history ←
      if missing.isEmpty then pure (.ok Map.empty)
      else do
        let r ← dispatcher (sacctArgv (csvJoin missing))
        pure (toolListing "sacct" parseSacctWithExitCode r)
    match history with
    | .error e => return .error e
    | .ok history =>
      return .ok <| jobids.foldl (fun out jid =>
        out.insert jid <|
          match active jid with
          | some status => ⟨status, none⟩
          | none => (history jid).getD JobOutcome.default) Map.empty

/-- One array task by its `<master>_<idx>` key. -/
def queryArrayTaskStateWith (master : JobId) (idx : TaskIndex) :
    Prog (sig K) (Except Str (Option JobStatus)) := do
  let key := taskKey master idx
  let r ← dispatcher (squeueArgv key)
  return squeueListing (fun text => parseSqueueArrayTask text key) none r

/-- One array task's outcome, from the listing of its master. -/
def queryArrayTaskOutcomeWith (master : JobId) (idx : TaskIndex) :
    Prog (sig K) (Except Str (Option JobOutcome)) := do
  let key := taskKey master idx
  let r ← dispatcher (sacctArgv (decimal master.toNat))
  return toolListing "sacct" (fun text => parseSacctArrayTaskWithExitCode text key) r

end Queries

/-! ## 4. The queries of a single job

The lists of one key, as they are written into a command line. -/

@[simp] theorem csvJoin_singleton (j : JobId) : csvJoin [j] = decimal j.toNat := by
  simp [csvJoin, List.intercalate]

@[simp] theorem dedupePreservingOrder_singleton (j : JobId) :
    dedupePreservingOrder [j] = [j] := rfl

end Sbatch

/-
# Submitting

`SbatchManager::spawn` and `spawn_array` build a command line, run it once and then persist one
snapshot for each task that was submitted.

A job that was submitted is recoverable when its id is on the handles that are returned or in the
error.  The script path is made absolute a second time after the submission, and a failure there is
returned without the id; at every other place the id is kept (`submitted_recoverable_iff`).
-/
import SlurmRunner.Sbatch.BatchQuery
import SlurmRunner.Sbatch.Cmd

namespace Sbatch

open Text Slurm Interact

/-! ## 1. Submission -/

/-- What asking for the current directory returns: for `--chdir` and for the script while the
command line is built, and for the script once more after the submission. -/
structure CurrentDirs where
  chdir : Except Str Str
  script : Except Str Str
  submitted : Except Str Str
deriving DecidableEq

section Programs

variable {ι : Type} {K : ι → Type}

/-- Run sbatch and read the job id that it prints. -/
def submit (argv : Argv) : Prog (sig K) (Except SbatchSpawnError JobId) := do
  let r ← runCommand argv
  match r with
  | .error e => return .error (.other e)
  | .ok out =>
    if out.success then
      match parseSubmittedJobid out.stdout with
      | some jobid => return .ok jobid
      | none => return .error (.jobidParseError out.stdout)
    else return .error (.submitFailed out.exitCode out.diagnostic)

/-- The script path of the snapshots. -/
def scriptPath (cmd : SbatchCmd) (currentDir : Except Str Str) : Except SbatchSpawnError Str :=
  match Path.absolute currentDir cmd.script with
  | .ok path => .ok path
  | .error _ => .error (.other (("absolutize " : Str) ++ cmd.script))

/-- The first snapshot of a submitted job or task. -/
def spawned (cmd : SbatchCmd) (argv : Argv) (path : Str) (jobid : JobId)
    (task : Option TaskIndex) (uuid now : Nat) : SbatchJobSnapshot where
  uuid := uuid
  jobid := jobid
  arrayTaskId := task
  argv := argv
  sentEnv := cmd.env
  scriptPath := path
  chdir := cmd.chdir
  partition := cmd.partition
  jobName := cmd.jobName
  submittedAt := now
  log := ⟨cmd.output, cmd.error⟩
  lifecycle := .default

/-- `SbatchManager::spawn`. -/
def spawn (cmd : SbatchCmd) (dirs : CurrentDirs) : Prog (sig K) (Except SbatchSpawnError Nat) :=
  match cmd.buildArgv dirs.chdir dirs.script with
  | .error e => return .error e
  | .ok argv => do
    let r ← submit argv
    match r with
    | .error e => return .error e
    | .ok jobid =>
      let uuid ← uuidNow
      match scriptPath cmd dirs.submitted with
      | .error e => return .error e
      | .ok path =>
        let submittedAt ← utcNow
        let snapshot := spawned cmd argv path jobid none uuid submittedAt
        let r ← save snapshot
        match r with
        | .error source => return .error (.submittedButUnpersisted jobid source)
        | .ok () =>
          let h ← newHandle snapshot
          return .ok h

/-- The loop of `spawn_array`: persist a snapshot for each task, and stop at the first save that
fails. -/
def spawnTasks (cmd : SbatchCmd) (argv : Argv) (path : Str) (jobid : JobId) :
    List TaskIndex → Prog (sig K) (Except SbatchSpawnError (List Nat))
  | [] => return .ok []
  | idx :: indices => do
    let uuid ← uuidNow
    let submittedAt ← utcNow
    let snapshot := spawned cmd argv path jobid (some idx) uuid submittedAt
    let r ← save snapshot
    match r with
    | .error source => return .error (.submittedButUnpersisted jobid source)
    | .ok () =>
      let h ← newHandle snapshot
      let r ← spawnTasks cmd argv path jobid indices
      match r with
      | .error e => return .error e
      | .ok hs => return .ok (h :: hs)

/-- `SbatchManager::spawn_array`; `none` where the expansion of the specification never ends. -/
def spawnArray (cmd : SbatchCmd) (dirs : CurrentDirs) (arraySpec : SlurmArraySpec) :
    Prog (sig K) (Option (Except SbatchSpawnError (List Nat))) :=
  match expandArrayIndices arraySpec with
  | none => return none
  | some [] => return some (.error (.other <|
      ("spawn_array: SlurmArraySpec yielded zero task indices " : Str) ++
        ("(constructed via FromStr should be non-empty)" : Str)))
  | some taskIndices =>
    let cmd := { cmd with arraySpec := some arraySpec }
    match cmd.buildArgv dirs.chdir dirs.script with
    | .error e => return some (.error e)
    | .ok argv => do
      let r ← submit argv
      match r with
      | .error e => return some (.error e)
      | .ok masterJobid =>
        match scriptPath cmd dirs.submitted with
        | .error e => return some (.error e)
        | .ok path =>
          let r ← spawnTasks cmd argv path masterJobid taskIndices
          return some r

end Programs

/-! ## 2. What the operations of a run alone do -/

/-- What submitting changes of the world. -/
structure Jobs where
  store : Store
  saves : List Save
  handles : Nat
  watch : Nat → SbatchJobSnapshot
  uuids : Supply Nat
  /-- How many uuids have been drawn. -/
  drawn : Nat
  asked : List (Argv × Answer)

/-- The jobs of a world. -/
def World.jobs {ι : Type} {K : ι → Type} (w : World K) : Jobs :=
  ⟨w.store, w.saves, w.handles, w.watch, w.uuids, w.drawn, w.calls.map fun c => (c.argv, c.result)⟩

section Runs

variable {ι : Type} [DecidableEq ι] {K : ι → Type} {β : Type} {t : Nat}
  {ms : List (Input ⊕ Tick)} {w w' : World K}

/-- An operation and what follows it: time may pass before the operation. -/
theorem call_perform {o : Op K} {f : o.Ans → Prog (sig K) β} {b : β}
    (h : (machine K).call t (perform o >>= f) ms w = some (b, w')) :
    ∃ i ms' w₁ a w₂, (w₁.jobs = w.jobs ∧ w₁.inflight = w.inflight) ∧
      exec t o i w₁ = some (a, w₂) ∧ (machine K).call t (f a) ms' w₂ = some (b, w') := by
  refine (machine K).call_ask
    (R := fun w w₁ : World K => w₁.jobs = w.jobs ∧ w₁.inflight = w.inflight)
    (fun w => ⟨rfl, rfl⟩) ?_ h
  intro e w w₁ w₂ he hR
  cases he
  exact hR

/-- An operation at the end of a program. -/
theorem call_perform_end {o : Op K} {b : o.Ans}
    (h : (machine K).call t (perform o) ms w = some (b, w')) :
    ∃ i w₁, (w₁.jobs = w.jobs ∧ w₁.inflight = w.inflight) ∧ exec t o i w₁ = some (b, w') := by
  rw [← bind_pure (perform o)] at h
  obtain ⟨i, ms', w₁, a, w₂, hjobs, he, h⟩ := call_perform h
  obtain ⟨rfl, rfl⟩ := (machine K).call_ret h
  exact ⟨i, w₁, hjobs, he⟩

theorem call_uuidNow {f : Nat → Prog (sig K) β} {b : β}
    (h : (machine K).call t (uuidNow >>= f) ms w = some (b, w')) :
    ∃ ms' w₂, w₂.jobs = { w.jobs with drawn := w.jobs.drawn + 1 } ∧
      (machine K).call t (f (w.jobs.uuids.next w.jobs.drawn)) ms' w₂ = some (b, w') := by
  obtain ⟨i, ms', w₁, a, w₂, ⟨hjobs, -⟩, he, h⟩ := call_perform h
  cases he
  rw [← hjobs]
  exact ⟨ms', _, rfl, h⟩

theorem call_utcNow {f : Nat → Prog (sig K) β} {b : β}
    (h : (machine K).call t (utcNow >>= f) ms w = some (b, w')) :
    ∃ ms' now w₂, w₂.jobs = w.jobs ∧ (machine K).call t (f now) ms' w₂ = some (b, w') := by
  obtain ⟨i, ms', w₁, a, w₂, ⟨hjobs, -⟩, he, h⟩ := call_perform h
  cases he
  exact ⟨ms', _, w₁, hjobs, h⟩

/-- A handle that is made holds its snapshot, and the others keep theirs. -/
theorem call_newHandle {snap : SbatchJobSnapshot} {f : Nat → Prog (sig K) β} {b : β}
    (h : (machine K).call t (newHandle snap >>= f) ms w = some (b, w')) :
    ∃ ms' w₂, w₂.jobs = { w.jobs with
        handles := w.jobs.handles + 1
        watch := Function.update w.jobs.watch w.jobs.handles snap } ∧
      (machine K).call t (f w.jobs.handles) ms' w₂ = some (b, w') := by
  obtain ⟨i, ms', w₁, a, w₂, ⟨hjobs, -⟩, he, h⟩ := call_perform h
  cases he
  rw [← hjobs]
  exact ⟨ms', _, rfl, h⟩

/-- A save that works replaces what the store has; one that fails leaves the store alone. -/
theorem call_save {snap : SbatchJobSnapshot} {f : Except Str Unit → Prog (sig K) β} {b : β}
    (h : (machine K).call t (save snap >>= f) ms w = some (b, w')) :
    ∃ ms' r w₂, w₂.jobs = { w.jobs with
        store := match r with
          | .ok () => w.jobs.store.save snap
          | .error _ => w.jobs.store
        saves := ⟨t, snap, w.jobs.store.load snap.uuid, r⟩ :: w.jobs.saves } ∧
      (machine K).call t (f r) ms' w₂ = some (b, w') := by
  obtain ⟨i, ms', w₁, a, w₂, ⟨hjobs, -⟩, he, h⟩ := call_perform h
  rw [← hjobs]
  cases i with
  | go | output _ => cases he
  | saved r =>
    cases he
    exact ⟨ms', _, _, rfl, h⟩

theorem call_loadStore {f : Store → Prog (sig K) β} {b : β}
    (h : (machine K).call t (loadStore >>= f) ms w = some (b, w')) :
    ∃ ms' w₂, w₂.jobs = w.jobs ∧ (machine K).call t (f w.jobs.store) ms' w₂ = some (b, w') := by
  obtain ⟨i, ms', w₁, a, w₂, ⟨hjobs, -⟩, he, h⟩ := call_perform h
  cases he
  rw [← hjobs]
  exact ⟨ms', w₁, rfl, h⟩

/-- A command that runs alone is the one that is asked. -/
theorem jobs_runCommand {argv : Argv} {r : Answer}
    (h : (machine K).call t (runCommand argv) ms w = some (r, w')) :
    w'.jobs = { w.jobs with asked := (argv, r) :: w.jobs.asked } := by
  obtain ⟨i, ms', w₁, a, w₂, ⟨hjobs, -⟩, he, h⟩ := call_perform h
  cases he
  obtain ⟨j, w₃, ⟨hjobs', hinflight⟩, he⟩ := call_perform_end h
  have hrunning : w₃.inflight t = some ⟨argv, w₁.instant⟩ := by
    rw [hinflight]
    exact Function.update_self ..
  cases j with
  | go | saved _ => cases he
  | output out =>
    have he' : exec t (.recv : Op K) (.output out) w₃ = some (r, w') := he
    simp only [exec, hrunning] at he'
    cases he'
    have hjobs'' : w₃.jobs = w.jobs := hjobs'.trans hjobs
    rw [← hjobs'']
    rfl

/-- sbatch was run with `argv` and gave `r`. -/
inductive Submits : Answer → Except SbatchSpawnError JobId → Prop
  | failed {e} : Submits (.error e) (.error (.other e))
  | submitted {out jobid} (hsuccess : out.success = true)
      (hjobid : parseSubmittedJobid out.stdout = some jobid) : Submits (.ok out) (.ok jobid)
  | unparsed {out} (hsuccess : out.success = true)
      (hjobid : parseSubmittedJobid out.stdout = none) :
      Submits (.ok out) (.error (.jobidParseError out.stdout))
  | rejected {out} (hsuccess : out.success = false) :
      Submits (.ok out) (.error (.submitFailed out.exitCode out.diagnostic))

theorem call_submit {argv : Argv} {f : Except SbatchSpawnError JobId → Prog (sig K) β} {b : β}
    (h : (machine K).call t (submit argv >>= f) ms w = some (b, w')) :
    ∃ ms' answer r w₂, w₂.jobs = { w.jobs with asked := (argv, answer) :: w.jobs.asked } ∧
      Submits answer r ∧ (machine K).call t (f r) ms' w₂ = some (b, w') := by
  obtain ⟨ms₁, ms₂, r, w₁, rfl, h₁, h₂⟩ := (machine K).call_bind h
  unfold submit at h₁
  obtain ⟨ms₃, ms₄, answer, w₂, rfl, h₃, h₄⟩ := (machine K).call_bind h₁
  have hjobs := jobs_runCommand h₃
  suffices hr : Submits answer r ∧ w₁ = w₂ by
    obtain ⟨hr, rfl⟩ := hr
    exact ⟨ms₂, answer, r, w₁, hjobs, hr, h₂⟩
  cases answer with
  | error e =>
    obtain ⟨rfl, rfl⟩ := (machine K).call_ret h₄
    exact ⟨.failed, rfl⟩
  | ok out =>
    dsimp only at h₄
    split at h₄
    · rename_i hsuccess
      split at h₄
      · rename_i jobid hjobid
        obtain ⟨rfl, rfl⟩ := (machine K).call_ret h₄
        exact ⟨.submitted hsuccess hjobid, rfl⟩
      · rename_i hjobid
        obtain ⟨rfl, rfl⟩ := (machine K).call_ret h₄
        exact ⟨.unparsed hsuccess hjobid, rfl⟩
    · rename_i hsuccess
      obtain ⟨rfl, rfl⟩ := (machine K).call_ret h₄
      exact ⟨.rejected (by simpa using hsuccess), rfl⟩

/-! ## 3. What the loop over the tasks does -/

/-- The loop over `indices` has saved `snaps`: one snapshot for each of the first indices, with a
new uuid each. -/
structure TasksSaved (jobid : JobId) (indices : List TaskIndex) (jobs jobs' : Jobs)
    (snaps : List SbatchJobSnapshot) : Prop where
  tasks : snaps.map (·.arrayTaskId) = (indices.take snaps.length).map some
  uuids : snaps.map (·.uuid) = jobs.uuids.block jobs.drawn snaps.length
  jobid : ∀ s ∈ snaps, s.jobid = jobid
  store : jobs'.store = snaps.foldl Store.save jobs.store
  watch : ∀ h < jobs.handles, jobs'.watch h = jobs.watch h
  asked : jobs'.asked = jobs.asked

/-- The loop ended after the last task, with a handle for each, or with a save that failed. -/
inductive TasksEnd (jobid : JobId) (indices : List TaskIndex) (jobs jobs' : Jobs)
    (snaps : List SbatchJobSnapshot) : Except SbatchSpawnError (List Nat) → Prop
  | saved {hs} (hall : snaps.length = indices.length)
      (hsaves : jobs'.saves.length = jobs.saves.length + snaps.length)
      (hdrawn : jobs'.drawn = jobs.drawn + snaps.length) (hwatch : hs.map jobs'.watch = snaps) :
      TasksEnd jobid indices jobs jobs' snaps (.ok hs)
  | unsaved {source} (hall : snaps.length < indices.length)
      (hsaves : jobs'.saves.length = jobs.saves.length + snaps.length + 1) :
      TasksEnd jobid indices jobs jobs' snaps (.error (.submittedButUnpersisted jobid source))

/-- **What the loop does.** -/
theorem call_spawnTasks {cmd : SbatchCmd} {argv : Argv} {path : Str} {jobid : JobId}
    {indices : List TaskIndex} {r : Except SbatchSpawnError (List Nat)}
    (h : (machine K).call t (spawnTasks cmd argv path jobid indices) ms w = some (r, w')) :
    ∃ snaps, TasksSaved jobid indices w.jobs w'.jobs snaps ∧
      TasksEnd jobid indices w.jobs w'.jobs snaps r := by
  induction indices generalizing ms w w' r with
  | nil =>
    obtain ⟨rfl, rfl⟩ := (machine K).call_ret h
    exact ⟨[], ⟨rfl, rfl, by simp, rfl, fun _ _ => rfl, rfl⟩, .saved rfl rfl rfl rfl⟩
  | cons idx indices ih =>
    obtain ⟨ms₁, w₁, hjobs₁, h⟩ := call_uuidNow h
    generalize huuid : w.jobs.uuids.next w.jobs.drawn = uuid at h
    obtain ⟨ms₂, now, w₂, hjobs₂, h⟩ := call_utcNow h
    obtain ⟨ms₃, saved, w₃, hjobs₃, h⟩ := call_save h
    rw [hjobs₂, hjobs₁] at hjobs₃
    cases saved with
    | error e =>
      obtain ⟨rfl, rfl⟩ := (machine K).call_ret h
      rw [hjobs₃]
      exact ⟨[], ⟨rfl, rfl, by simp, rfl, fun _ _ => rfl, rfl⟩, .unsaved (by simp) rfl⟩
    | ok done =>
      cases done
      obtain ⟨ms₄, w₄, hjobs₄, h⟩ := call_newHandle h
      obtain ⟨ms₅, ms₆, rest, w₅, rfl, h₅, h⟩ := (machine K).call_bind h
      obtain ⟨snaps, ⟨htasks, huuids, hjobid, hstore, hwatch, hasked⟩, hend⟩ := ih h₅
      have hhandles₃ : w₃.jobs.handles = w.jobs.handles := by simp [hjobs₃]
      rw [hjobs₃] at hjobs₄
      have hstore₄ : w₄.jobs.store = w.jobs.store.save
          (spawned cmd argv path jobid (some idx) uuid now) := by simp [hjobs₄]
      have hsaves₄ : w₄.jobs.saves.length = w.jobs.saves.length + 1 := by simp [hjobs₄]
      have hhandles₄ : w₄.jobs.handles = w.jobs.handles + 1 := by simp [hjobs₄]
      have hwatch₄ : w₄.jobs.watch = Function.update w.jobs.watch w.jobs.handles
          (spawned cmd argv path jobid (some idx) uuid now) := by simp [hjobs₄]
      have huuids₄ : w₄.jobs.uuids = w.jobs.uuids := by simp [hjobs₄]
      have hdrawn₄ : w₄.jobs.drawn = w.jobs.drawn + 1 := by simp [hjobs₄]
      have hasked₄ : w₄.jobs.asked = w.jobs.asked := by simp [hjobs₄]
      -- the handle of the first task keeps its snapshot while the others are made
      have hfirst : w₅.jobs.watch w.jobs.handles =
          spawned cmd argv path jobid (some idx) uuid now := by
        rw [hwatch _ (by omega), hwatch₄, Function.update_self]
      have hsaved : TasksSaved jobid (idx :: indices) w.jobs w₅.jobs
          (spawned cmd argv path jobid (some idx) uuid now :: snaps) := by
        refine ⟨?_, ?_, ?_, ?_, ?_, hasked.trans hasked₄⟩
        · simp only [List.map_cons, List.length_cons, List.take_succ_cons, htasks]
          rfl
        · rw [List.map_cons, huuids, huuids₄, hdrawn₄, List.length_cons, Supply.block_succ, huuid]
          rfl
        · intro s hs
          rcases List.mem_cons.mp hs with rfl | hs
          · rfl
          · exact hjobid s hs
        · rw [hstore, hstore₄, List.foldl_cons]
        · intro n hn
          rw [hwatch n (by omega), hwatch₄, Function.update_of_ne (Nat.ne_of_lt hn)]
      cases hend with
      | saved hall hsaves hdrawn' hwatch' =>
        obtain ⟨rfl, rfl⟩ := (machine K).call_ret h
        refine ⟨_, hsaved, .saved ?_ ?_ ?_ ?_⟩
        · rw [List.length_cons, List.length_cons, hall]
        · rw [List.length_cons]
          omega
        · rw [List.length_cons]
          omega
        · rw [List.map_cons, hhandles₃, hfirst, hwatch']
      | unsaved hall hsaves =>
        obtain ⟨rfl, rfl⟩ := (machine K).call_ret h
        refine ⟨_, hsaved, .unsaved ?_ ?_⟩
        · rw [List.length_cons, List.length_cons]
          omega
        · rw [List.length_cons]
          omega

/-! ## 4. What a submission does -/

/-- How `spawn_array` can end: without having asked for anything, without a submitted job, with a
script path that could not be made absolute, or with what its loop returns. -/
inductive ArrayRun (cmd : SbatchCmd) (dirs : CurrentDirs) (arraySpec : SlurmArraySpec)
    (jobs jobs' : Jobs) : Option (Except SbatchSpawnError (List Nat)) → Prop
  | endless (hindices : expandArrayIndices arraySpec = none) (hjobs : jobs' = jobs) :
      ArrayRun cmd dirs arraySpec jobs jobs' none
  | refused {e} (hlost : e.hasJobid = false) (hjobs : jobs' = jobs) :
      ArrayRun cmd dirs arraySpec jobs jobs' (some (.error e))
  | notSubmitted {argv answer e} (hsubmit : Submits answer (.error e))
      (hjobs : jobs' = { jobs with asked := (argv, answer) :: jobs.asked }) :
      ArrayRun cmd dirs arraySpec jobs jobs' (some (.error e))
  | pathFailed {argv answer jobid e} (hscript : cmd.script ≠ [])
      (hsubmit : Submits answer (.ok jobid))
      (hpath : scriptPath cmd dirs.submitted = .error e)
      (hjobs : jobs' = { jobs with asked := (argv, answer) :: jobs.asked }) :
      ArrayRun cmd dirs arraySpec jobs jobs' (some (.error e))
  | looped {argv answer jobid path indices snaps r} (hscript : cmd.script ≠ [])
      (hindices : expandArrayIndices arraySpec = some indices) (hne : indices ≠ [])
      (hsubmit : Submits answer (.ok jobid)) (hpath : scriptPath cmd dirs.submitted = .ok path)
      (hsaved : TasksSaved jobid indices { jobs with asked := (argv, answer) :: jobs.asked } jobs'
        snaps)
      (hend : TasksEnd jobid indices { jobs with asked := (argv, answer) :: jobs.asked } jobs'
        snaps r) :
      ArrayRun cmd dirs arraySpec jobs jobs' (some r)

omit [DecidableEq ι] in
theorem script_ne_nil_of_buildArgv {cmd : SbatchCmd} {dirs : CurrentDirs} {argv : Argv}
    (h : cmd.buildArgv dirs.chdir dirs.script = .ok argv) : cmd.script ≠ [] := by
  obtain ⟨q, hq⟩ := cmd.buildArgv_script h
  exact Path.ne_nil_of_absolute hq

/-- **What a run of `spawn_array` does.** -/
theorem call_spawnArray {cmd : SbatchCmd} {dirs : CurrentDirs} {arraySpec : SlurmArraySpec}
    {r : Option (Except SbatchSpawnError (List Nat))}
    (h : (machine K).call t (spawnArray cmd dirs arraySpec) ms w = some (r, w')) :
    ArrayRun cmd dirs arraySpec w.jobs w'.jobs r := by
  unfold spawnArray at h
  split at h
  · rename_i hindices
    obtain ⟨rfl, rfl⟩ := (machine K).call_ret h
    exact .endless hindices rfl
  · obtain ⟨rfl, rfl⟩ := (machine K).call_ret h
    exact .refused rfl rfl
  · rename_i indices hne hindices
    dsimp only at h
    split at h
    · rename_i e hargv
      obtain ⟨rfl, rfl⟩ := (machine K).call_ret h
      exact .refused (SbatchCmd.buildArgv_error hargv) rfl
    · rename_i argv hargv
      have hscript := script_ne_nil_of_buildArgv hargv
      obtain ⟨ms₁, answer, submission, w₁, hjobs, hsubmit, h⟩ := call_submit h
      cases submission with
      | error e =>
        obtain ⟨rfl, rfl⟩ := (machine K).call_ret h
        exact .notSubmitted hsubmit hjobs
      | ok jobid =>
        cases hpath : scriptPath cmd dirs.submitted with
        | error e =>
          rw [show scriptPath { cmd with arraySpec := some arraySpec } dirs.submitted =
            .error e from hpath] at h
          obtain ⟨rfl, rfl⟩ := (machine K).call_ret h
          exact .pathFailed hscript hsubmit hpath hjobs
        | ok path =>
          rw [show scriptPath { cmd with arraySpec := some arraySpec } dirs.submitted =
            .ok path from hpath] at h
          obtain ⟨ms₂, ms₃, r', w₂, rfl, h₂, h⟩ := (machine K).call_bind h
          obtain ⟨rfl, rfl⟩ := (machine K).call_ret h
          obtain ⟨snaps, hsaved, hend⟩ := call_spawnTasks h₂
          rw [hjobs] at hsaved hend
          exact .looped hscript hindices hne hsubmit hpath hsaved hend

/-- How `spawn` can end. -/
inductive SpawnRun (cmd : SbatchCmd) (dirs : CurrentDirs) (jobs jobs' : Jobs) :
    Except SbatchSpawnError Nat → Prop
  | refused {e} (hjobs : jobs' = jobs) : SpawnRun cmd dirs jobs jobs' (.error e)
  | notSubmitted {argv answer e} (hsubmit : Submits answer (.error e))
      (hjobs : jobs' = { jobs with asked := (argv, answer) :: jobs.asked }) :
      SpawnRun cmd dirs jobs jobs' (.error e)
  | pathFailed {argv answer jobid e} (hscript : cmd.script ≠ [])
      (hsubmit : Submits answer (.ok jobid))
      (hpath : scriptPath cmd dirs.submitted = .error e)
      (hasked : jobs'.asked = (argv, answer) :: jobs.asked) :
      SpawnRun cmd dirs jobs jobs' (.error e)
  | unsaved {argv answer jobid path source} (hscript : cmd.script ≠ [])
      (hsubmit : Submits answer (.ok jobid)) (hpath : scriptPath cmd dirs.submitted = .ok path)
      (hasked : jobs'.asked = (argv, answer) :: jobs.asked) :
      SpawnRun cmd dirs jobs jobs' (.error (.submittedButUnpersisted jobid source))
  | saved {argv answer jobid path now} (hscript : cmd.script ≠ [])
      (hsubmit : Submits answer (.ok jobid)) (hpath : scriptPath cmd dirs.submitted = .ok path)
      (hasked : jobs'.asked = (argv, answer) :: jobs.asked)
      (hwatch : jobs'.watch jobs.handles =
        spawned cmd argv path jobid none (jobs.uuids.next jobs.drawn) now)
      (hstore : jobs'.store = jobs.store.save (jobs'.watch jobs.handles)) :
      SpawnRun cmd dirs jobs jobs' (.ok jobs.handles)

/-- **What a run of `spawn` does.** -/
theorem call_spawn {cmd : SbatchCmd} {dirs : CurrentDirs} {r : Except SbatchSpawnError Nat}
    (h : (machine K).call t (spawn cmd dirs) ms w = some (r, w')) :
    SpawnRun cmd dirs w.jobs w'.jobs r := by
  unfold spawn at h
  split at h
  · obtain ⟨rfl, rfl⟩ := (machine K).call_ret h
    exact .refused rfl
  · rename_i argv hargv
    have hscript := script_ne_nil_of_buildArgv hargv
    obtain ⟨ms₁, answer, submission, w₁, hjobs₁, hsubmit, h⟩ := call_submit h
    cases submission with
    | error e =>
      obtain ⟨rfl, rfl⟩ := (machine K).call_ret h
      exact .notSubmitted hsubmit hjobs₁
    | ok jobid =>
      obtain ⟨ms₂, w₂, hjobs₂, h⟩ := call_uuidNow h
      cases hpath : scriptPath cmd dirs.submitted with
      | error e =>
        rw [hpath] at h
        obtain ⟨rfl, rfl⟩ := (machine K).call_ret h
        have hasked : w'.jobs.asked = (argv, answer) :: w.jobs.asked := by simp [hjobs₂, hjobs₁]
        exact .pathFailed hscript hsubmit hpath hasked
      | ok path =>
        rw [hpath] at h
        obtain ⟨ms₃, now, w₃, hjobs₃, h⟩ := call_utcNow h
        obtain ⟨ms₄, saved, w₄, hjobs₄, h⟩ := call_save h
        rw [hjobs₃, hjobs₂, hjobs₁] at hjobs₄
        cases saved with
        | error source =>
          obtain ⟨rfl, rfl⟩ := (machine K).call_ret h
          have hasked : w'.jobs.asked = (argv, answer) :: w.jobs.asked := by simp [hjobs₄]
          exact .unsaved hscript hsubmit hpath hasked
        | ok done =>
          cases done
          obtain ⟨ms₅, w₅, hjobs₅, h⟩ := call_newHandle h
          obtain ⟨rfl, rfl⟩ := (machine K).call_ret h
          have hhandle : w₄.jobs.handles = w.jobs.handles := by simp [hjobs₄]
          rw [hhandle]
          have huuid : w₁.jobs.uuids.next w₁.jobs.drawn = w.jobs.uuids.next w.jobs.drawn := by
            simp [hjobs₁]
          have hasked : w'.jobs.asked = (argv, answer) :: w.jobs.asked := by simp [hjobs₅, hjobs₄]
          have hwatch : w'.jobs.watch w.jobs.handles =
              spawned cmd argv path jobid none (w.jobs.uuids.next w.jobs.drawn) now := by
            simp [hjobs₅, hjobs₄, huuid]
          have hstore : w'.jobs.store = w.jobs.store.save (w'.jobs.watch w.jobs.handles) := by
            simp [hjobs₅, hjobs₄, huuid]
          exact .saved hscript hsubmit hpath hasked hwatch hstore

end Runs

/-! ## 5. A submitted job is recoverable -/

section Recoverable

variable {ι : Type} {K : ι → Type} {w w' : World K}

/-- sbatch was run since `w`, it exited with 0, and its output has the job id `jobid`. -/
def SubmittedSince (w w' : World K) (jobid : JobId) : Prop :=
  ∃ argv out, Asked w w' [(argv, .ok out)] ∧ out.success = true ∧
    parseSubmittedJobid out.stdout = some jobid

/-- The result has the job id: on each of its handles, or in its error. -/
def HasJobid (w' : World K) (jobid : JobId) : Except SbatchSpawnError (List Nat) → Prop
  | .ok hs => hs ≠ [] ∧ ∀ h ∈ hs, (w'.watch h).jobid = jobid
  | .error e => ∃ source, e = .submittedButUnpersisted jobid source

/-- The path is absolute, or the current directory can be read. -/
def PathResolves (path : Str) (currentDir : Except Str Str) : Prop :=
  Path.isAbsolute path = true ∨ ∃ dir, currentDir = .ok dir

theorem scriptPath_ok_iff {cmd : SbatchCmd} {currentDir : Except Str Str}
    (hscript : cmd.script ≠ []) :
    (∃ path, scriptPath cmd currentDir = .ok path) ↔ PathResolves cmd.script currentDir := by
  rw [PathResolves, ← Path.absolute_ok_iff hscript]
  unfold scriptPath
  cases Path.absolute currentDir cmd.script with
  | ok path => simp
  | error e => simp

theorem scriptPath_error {cmd : SbatchCmd} {currentDir : Except Str Str} {e : SbatchSpawnError}
    (h : scriptPath cmd currentDir = .error e) : ∃ text, e = .other text := by
  unfold scriptPath at h
  split at h
  · cases h
  · cases h
    exact ⟨_, rfl⟩

/-- The one answer of sbatch is the one with the job id. -/
theorem SubmittedSince.eq_ok {jobid : JobId} (h : SubmittedSince w w' jobid) {argv : Argv}
    {answer : Answer} {submission : Except SbatchSpawnError JobId}
    (hasked : w'.jobs.asked = (argv, answer) :: w.jobs.asked)
    (hsubmit : Submits answer submission) : submission = .ok jobid := by
  obtain ⟨argv', out, hasked', hsuccess, hjobid⟩ := h
  have hcall : [(argv, answer)] = [(argv', .ok out)] :=
    Asked.unique (show Asked w w' [(argv, answer)] from hasked) hasked'
  cases hcall
  cases hsubmit with
  | submitted hsuccess' hjobid' => rw [Option.some.inj (hjobid'.symm.trans hjobid)]
  | unparsed hsuccess' hjobid' => exact absurd (hjobid'.symm.trans hjobid) (by simp)
  | rejected hsuccess' => exact absurd (hsuccess'.symm.trans hsuccess) (by simp)

/-- Where nothing was asked, nothing was submitted. -/
theorem SubmittedSince.asked_ne {jobid : JobId} (h : SubmittedSince w w' jobid) :
    w'.jobs ≠ w.jobs := by
  obtain ⟨argv, out, hasked, -⟩ := h
  intro heq
  have hcons : (argv, .ok out) :: w.jobs.asked = w.jobs.asked :=
    hasked.symm.trans (congrArg Jobs.asked heq)
  exact List.cons_ne_self _ _ hcons

theorem not_hasJobid_other {jobid : JobId} {text : Str} :
    ¬ HasJobid w' jobid (.error (.other text)) := by
  rintro ⟨source, h⟩
  cases h

/-- A run of `spawn` that submitted a job returns the id where the script path is resolved. -/
theorem SpawnRun.recoverable_iff {cmd : SbatchCmd} {dirs : CurrentDirs}
    {r : Except SbatchSpawnError Nat} {jobid : JobId} (hrun : SpawnRun cmd dirs w.jobs w'.jobs r)
    (hsubmitted : SubmittedSince w w' jobid) :
    HasJobid w' jobid (r.map fun h => [h]) ↔ PathResolves cmd.script dirs.submitted := by
  cases hrun with
  | refused hjobs => exact absurd hjobs hsubmitted.asked_ne
  | notSubmitted hsubmit hjobs =>
    have hlost := hsubmitted.eq_ok (congrArg Jobs.asked hjobs) hsubmit
    cases hlost
  | pathFailed hscript hsubmit hpath hasked =>
    rw [← scriptPath_ok_iff hscript, hpath]
    obtain ⟨text, rfl⟩ := scriptPath_error hpath
    refine iff_of_false not_hasJobid_other ?_
    rintro ⟨path, h⟩
    cases h
  | unsaved hscript hsubmit hpath hasked =>
    rw [← scriptPath_ok_iff hscript, hpath]
    cases hsubmitted.eq_ok hasked hsubmit
    exact iff_of_true ⟨_, rfl⟩ ⟨_, rfl⟩
  | saved hscript hsubmit hpath hasked hwatch hstore =>
    rw [← scriptPath_ok_iff hscript, hpath]
    cases hsubmitted.eq_ok hasked hsubmit
    refine iff_of_true ⟨by simp, ?_⟩ ⟨_, rfl⟩
    intro h hh
    rw [List.mem_singleton] at hh
    rw [hh]
    exact congrArg SbatchJobSnapshot.jobid hwatch

/-- The same for a run of `spawnArray`: it ends, and returns the id. -/
theorem ArrayRun.recoverable_iff {cmd : SbatchCmd} {dirs : CurrentDirs} {arraySpec : SlurmArraySpec}
    {r : Option (Except SbatchSpawnError (List Nat))} {jobid : JobId}
    (hrun : ArrayRun cmd dirs arraySpec w.jobs w'.jobs r)
    (hsubmitted : SubmittedSince w w' jobid) :
    (∃ result, r = some result ∧ HasJobid w' jobid result) ↔
      PathResolves cmd.script dirs.submitted := by
  cases hrun with
  | endless hindices hjobs => exact absurd hjobs hsubmitted.asked_ne
  | refused hlost hjobs => exact absurd hjobs hsubmitted.asked_ne
  | notSubmitted hsubmit hjobs =>
    have hlost := hsubmitted.eq_ok (congrArg Jobs.asked hjobs) hsubmit
    cases hlost
  | pathFailed hscript hsubmit hpath hjobs =>
    rw [← scriptPath_ok_iff hscript, hpath]
    obtain ⟨text, rfl⟩ := scriptPath_error hpath
    refine iff_of_false ?_ ?_
    · rintro ⟨result, hresult, hjobid⟩
      exact not_hasJobid_other (Option.some.inj hresult ▸ hjobid)
    · rintro ⟨path, h⟩
      cases h
  | @looped argv answer jobid' path indices snaps result hscript hindices hne hsubmit hpath hsaved
      hend =>
    rw [← scriptPath_ok_iff hscript, hpath]
    cases hsubmitted.eq_ok hsaved.asked hsubmit
    refine iff_of_true ⟨_, rfl, ?_⟩ ⟨_, rfl⟩
    cases hend with
    | saved hall hsaves hdrawn hwatch =>
      constructor
      · rintro rfl
        have hnone : indices.length = 0 := by rw [← hall, ← hwatch]; rfl
        exact hne (List.length_eq_zero_iff.mp hnone)
      · intro h hh
        exact hsaved.jobid _ (hwatch ▸ List.mem_map_of_mem hh)
    | unsaved => exact ⟨_, rfl⟩

end Recoverable

variable {ι : Type} [DecidableEq ι] {K : ι → Type}

/-- **A submitted job is recoverable exactly where the script path is resolved once more.**  Both
functions return the id of a submitted job, on their handles or in their error, where the path is
absolute or the current directory can be read after the submission; elsewhere the id is lost. -/
theorem submitted_recoverable_iff (cmd : SbatchCmd) (dirs : CurrentDirs) :
    (∀ t ms (w w' : World K) r jobid, (machine K).call t (spawn cmd dirs) ms w = some (r, w') →
      SubmittedSince w w' jobid →
        (HasJobid w' jobid (r.map fun h => [h]) ↔ PathResolves cmd.script dirs.submitted)) ∧
    ∀ arraySpec t ms (w w' : World K) r jobid,
      (machine K).call t (spawnArray cmd dirs arraySpec) ms w = some (r, w') →
      SubmittedSince w w' jobid →
        ((∃ result, r = some result ∧ HasJobid w' jobid result) ↔
          PathResolves cmd.script dirs.submitted) := by
  constructor
  · intro t ms w w' r jobid hcall hsubmitted
    exact (call_spawn hcall).recoverable_iff hsubmitted
  · intro arraySpec t ms w w' r jobid hcall hsubmitted
    exact (call_spawnArray hcall).recoverable_iff hsubmitted

/-- sbatch has printed the job id 7. -/
def printsSeven (argv : Argv) : List (Argv × Answer) :=
  [(argv, .ok ⟨0, "Submitted batch job 7\n", []⟩)]

theorem submittedSince_of_printsSeven {argv : Argv} {w' : World Key}
    (h : askedSoFar w' = printsSeven argv) : SubmittedSince nothingAsked w' 7 :=
  ⟨argv, _, h.trans (List.append_nil _).symm, rfl, by decide +kernel⟩

/-- The job id 7, where the script path is resolved and the snapshot is saved. -/
theorem submitted_recoverable_iff_saved : ∃ r w',
    (machine Key).call 0 (spawn (.new "job.sh") ⟨.ok "/w", .ok "/w", .ok "/w"⟩)
      (goesOn 1 ++ answers "Submitted batch job 7\n" ++ goesOn 2 ++ storesIt ++ goesOn 1)
      nothingAsked = some (r, w') ∧ HasJobid w' 7 (r.map fun h => [h]) := by
  obtain ⟨r, w', hcall, hasked⟩ : ∃ r w', (machine Key).call 0
      (spawn (.new "job.sh") ⟨.ok "/w", .ok "/w", .ok "/w"⟩)
      (goesOn 1 ++ answers "Submitted batch job 7\n" ++ goesOn 2 ++ storesIt ++ goesOn 1)
      nothingAsked = some (r, w') ∧
        askedSoFar w' = printsSeven ["sbatch", "/w/job.sh"] :=
    (machine Key).exists_call (by decide +kernel)
  have hsubmitted := submittedSince_of_printsSeven hasked
  exact ⟨r, w', hcall, ((submitted_recoverable_iff _ _).1 0 _ _ _ r 7 hcall hsubmitted).mpr
    (.inr ⟨"/w", rfl⟩)⟩

/-- The current directory is gone when sbatch has returned: both functions lose the id 7. -/
theorem jobid_lost :
    (¬ ∀ cmd dirs t ms (w w' : World Key) r jobid,
      (machine Key).call t (spawn cmd dirs) ms w = some (r, w') → SubmittedSince w w' jobid →
        HasJobid w' jobid (r.map fun h => [h])) ∧
    ¬ ∀ cmd dirs arraySpec t ms (w w' : World Key) r jobid,
      (machine Key).call t (spawnArray cmd dirs arraySpec) ms w = some (r, w') →
        SubmittedSince w w' jobid → ∃ result, r = some result ∧ HasJobid w' jobid result := by
  constructor
  · intro hall
    obtain ⟨r, w', hcall, hr, hasked⟩ : ∃ r w', (machine Key).call 0
        (spawn (.new "job.sh") ⟨.ok "/w", .ok "/w", .error "gone"⟩)
        (goesOn 1 ++ answers "Submitted batch job 7\n" ++ goesOn 1)
        nothingAsked = some (r, w') ∧ r = .error (.other "absolutize job.sh") ∧
          askedSoFar w' = printsSeven ["sbatch", "/w/job.sh"] :=
      (machine Key).exists_call (by decide +kernel)
    have hsubmitted := submittedSince_of_printsSeven hasked
    exact not_hasJobid_other (hr ▸ hall _ _ _ _ _ _ r 7 hcall hsubmitted)
  · intro hall
    obtain ⟨r, w', hcall, hr, hasked⟩ : ∃ r w', (machine Key).call 0
        (spawnArray (.new "job.sh") ⟨.ok "/w", .ok "/w", .error "gone"⟩ ⟨[.single 1], none⟩)
        (goesOn 1 ++ answers "Submitted batch job 7\n")
        nothingAsked = some (r, w') ∧
          (r.any fun result => result = .error (.other "absolutize job.sh")) = true ∧
          askedSoFar w' = printsSeven ["sbatch", "-a", "1", "/w/job.sh"] :=
      (machine Key).exists_call (by decide +kernel)
    have hsubmitted := submittedSince_of_printsSeven hasked
    obtain ⟨result, rfl, hjobid⟩ := hall _ _ _ _ _ _ _ r 7 hcall hsubmitted
    obtain rfl : result = .error (.other "absolutize job.sh") := of_decide_eq_true hr
    exact not_hasJobid_other hjobid

end Sbatch

/-
# The job handle

`refresh`, `refresh_with_sacct` and `wait_terminal` of `SbatchJobHandle`, over any dispatcher.
The second half of the module cuts them into the probe (`observe`, `resolve`), which only asks,
and the record (`saveAndPublish`), which only stores, and proves them equal to their parts.
-/
import SlurmRunner.Sbatch.Runner

namespace Sbatch

open Text Slurm Interact

/-! ## 1. The code -/

section Code

variable {ι : Type} {K : ι → Type} (dispatcher : Dispatcher K) (h : Nat)

/-- `store.save(&snap).await?`, then `send_replace`: the end of every path that records. -/
def saveAndPublish (site : Site) (snap : SbatchJobSnapshot) :
    Prog (sig K) (Except Str SbatchJobSnapshot) := do
  match ← save snap with
  | .error e => return .error e
  | .ok () =>
    sendReplace h site snap
    return .ok snap

/-- The body of `refresh`, under the lock. -/
def refreshLocked (snap : SbatchJobSnapshot) (t : Nat) :
    Prog (sig K) (Except Str SbatchJobSnapshot) := do
  let view := dynView dispatcher
  match snap.arrayTaskId with
  | some idx =>
    match ← queryArrayTaskStateWith view snap.jobid idx with
    | .error e => return .error e
    | .ok (some status) => saveAndPublish h .hit (snap.listed status t)
    | .ok none => saveAndPublish h .vanish (snap.vanished t)
  | none =>
    -- a failing `qgroup` is a miss
    let qgroup ←
      match ← queryJobStatesViaQgroupWith view [snap.jobid] with
      | .ok map => pure map
      | .error _ => pure Map.empty
    match qgroup snap.jobid with
    | some status => saveAndPublish h .hit (snap.listed status t)
    | none =>
      match ← queryJobStatesSqueueOnlyWith view [snap.jobid] with
      | .error e => return .error e
      | .ok squeue =>
        match squeue snap.jobid with
        | some status => saveAndPublish h .hit (snap.listed status t)
        | none => saveAndPublish h .vanish (snap.vanished t)

/-- `SbatchJobHandle::refresh`. -/
def refresh : Prog (sig K) (Except Str SbatchJobSnapshot) := do
  lockRefresh h
  let snap ← borrow h
  let t ← utcNow
  let r ← refreshLocked dispatcher h snap t
  unlockRefresh h
  return r

/-- The second critical section of `refresh_with_sacct`, with the snapshot of the first. -/
def finalizeLocked (snap : SbatchJobSnapshot) :
    Prog (sig K) (Except Str SbatchJobSnapshot) := do
  let view := dynView dispatcher
  let outcome : Except Str JobOutcome ←
    match snap.arrayTaskId with
    | some idx => do
      match ← queryArrayTaskOutcomeWith view snap.jobid idx with
      | .error e => pure (.error e)
      | .ok oc => pure (.ok (oc.getD JobOutcome.default))
    | none => do
      match ← queryJobStatesWithExitCodeWith view [snap.jobid] with
      | .error e => pure (.error e)
      | .ok map => pure (.ok ((map snap.jobid).getD JobOutcome.default))
  match outcome with
  | .error e => return .error e
  | .ok outcome =>
    -- no usable row yet: a later call can retry
    if outcome.status.state = .unknown ∧ outcome.exitCode = none then
      return .ok snap
    -- the job is alive after all
    else if outcome.status.state ≠ .unknown ∧ outcome.status.state.isTerminal = false then
      let t ← utcNow
      saveAndPublish h (.rollback snap) (snap.rolledBack outcome.status t)
    else
      let t ← utcNow
      saveAndPublish h (.stamp snap) (snap.stamped outcome t)

/-- `SbatchJobHandle::refresh_with_sacct`. -/
def refreshWithSacct : Prog (sig K) (Except Str SbatchJobSnapshot) := do
  match ← refresh dispatcher h with
  | .error e => return .error e
  | .ok snap =>
    if snap.lifecycle.finished.isSome then
      return .ok snap
    else if !snap.lifecycle.leftActiveListing && !snap.observedTerminal then
      return .ok snap
    else
      lockRefresh h
      let r ← finalizeLocked dispatcher h snap
      unlockRefresh h
      return r

/-- How many consecutive `refresh` failures `wait_terminal` tolerates. -/
def maxConsecutiveRefreshFailures : Nat := 5

/-- `SbatchJobHandle::wait_terminal`, for `fuel` rounds; `none` when it still polls then. -/
def waitTerminalFrom (pollInterval : Nat) :
    Nat → Nat → Prog (sig K) (Option (Except Str SbatchJobSnapshot))
  | 0, _ => return none
  | fuel + 1, consecutiveFailures => do
    match ← refresh dispatcher h with
    | .ok snap =>
      if snap.observedTerminal then
        return some (.ok snap)
      else if snap.lifecycle.leftActiveListing then
        return some (.ok snap)
      else
        sleep pollInterval
        waitTerminalFrom pollInterval fuel 0
    | .error e =>
      if consecutiveFailures + 1 ≥ maxConsecutiveRefreshFailures then
        return some (.error e)
      else
        sleep pollInterval
        waitTerminalFrom pollInterval fuel (consecutiveFailures + 1)

def waitTerminal (pollInterval : Nat) (fuel : Nat) :
    Prog (sig K) (Option (Except Str SbatchJobSnapshot)) :=
  waitTerminalFrom dispatcher h pollInterval fuel 0

end Code

/-! ## 2. What the answers say of one job

A listing is parsed as a whole and then looked up.  For one job this comes to what each answer says
of that job. -/

/-- The row of a single job, or of a task, in an answer to its squeue query. -/
def squeueStatus (snap : SbatchJobSnapshot) (r : Answer) : Except Str (Option JobStatus) :=
  match snap.arrayTaskId with
  | some idx =>
      squeueListing (fun text => parseSqueueArrayTask text (taskKey snap.jobid idx)) none r
  | none => squeueListing (fun text => parseSqueue text snap.jobid) none r

/-- The row of a single job in a `qgroup -l` answer; a failure is a miss. -/
def qgroupStatus (j : JobId) (r : Answer) : Option JobStatus :=
  match toolListing "qgroup" (fun text => parseQgroupL text j) r with
  | .ok status => status
  | .error _ => none

/-- The parent row of a single job, or of a task, in an answer to its sacct query. -/
def sacctOutcome (snap : SbatchJobSnapshot) (r : Answer) : Except Str (Option JobOutcome) :=
  match snap.arrayTaskId with
  | some idx =>
    toolListing "sacct"
      (fun text => parseSacctArrayTaskWithExitCode text (taskKey snap.jobid idx)) r
  | none => toolListing "sacct" (fun text => parseSacctWithExitCode text snap.jobid) r

/-- The key that a handle asks squeue for. -/
def SbatchJobSnapshot.squeueKey (snap : SbatchJobSnapshot) : Str :=
  match snap.arrayTaskId with
  | some idx => taskKey snap.jobid idx
  | none => decimal snap.jobid.toNat

/-- The key by which a handle is asked for. -/
def SbatchJobSnapshot.jobKey (snap : SbatchJobSnapshot) : JobKey :=
  match snap.arrayTaskId with
  | some idx => .arrayTask snap.jobid idx
  | none => .plain snap.jobid

/-- The key that squeue is asked for is the printed form of the job's key in the caches. -/
theorem SbatchJobSnapshot.squeueKey_eq (snap : SbatchJobSnapshot) :
    snap.squeueKey = snap.jobKey.display := by
  unfold SbatchJobSnapshot.squeueKey SbatchJobSnapshot.jobKey
  cases snap.arrayTaskId <;> rfl

/-- An observation does not change which job it is. -/
@[simp] theorem SbatchJobSnapshot.observed_jobKey (snap : SbatchJobSnapshot)
    (row : Option JobStatus) (now : Nat) : (snap.observed row now).jobKey = snap.jobKey := by
  cases row <;> rfl

/-! ## 3. Probe and record -/

section Parts

variable {ι : Type} {K : ι → Type}

/-- The probe of `refresh`: the row of the job, or `none` when no listing has it. -/
def observe (view : Dispatcher K) (snap : SbatchJobSnapshot) :
    Prog (sig K) (Except Str (Option JobStatus)) := do
  match snap.arrayTaskId with
  | some _ =>
    let r ← view (squeueArgv snap.squeueKey)
    return squeueStatus snap r
  | none =>
    let rq ← view qgroupArgv
    match qgroupStatus snap.jobid rq with
    | some status => return .ok (some status)
    | none =>
      let r ← view (squeueArgv snap.squeueKey)
      return squeueStatus snap r

/-- The probe of the finalizer. -/
def resolve (view : Dispatcher K) (snap : SbatchJobSnapshot) :
    Prog (sig K) (Except Str JobOutcome) := do
  match snap.arrayTaskId with
  | some _ =>
    let r ← view (sacctArgv (decimal snap.jobid.toNat))
    return (sacctOutcome snap r).map (·.getD JobOutcome.default)
  | none =>
    let r ← view (squeueArgv snap.squeueKey)
    match squeueStatus snap r with
    | .error e => return .error e
    | .ok (some status) => return .ok ⟨status, none⟩
    | .ok none =>
      let r ← view (sacctArgv (decimal snap.jobid.toNat))
      return (sacctOutcome snap r).map (·.getD JobOutcome.default)

/-- The site that records an observation. -/
def siteOf (row : Option JobStatus) : Site := if row.isSome then .hit else .vanish

/-- To parse a listing and to look at a part of it is to parse that part. -/
theorem squeueListing_map {α β : Type} (f : α → β) (parse : Str → α) (empty : α) (r : Answer) :
    (squeueListing parse empty r).map f =
      squeueListing (fun text => f (parse text)) (f empty) r := by
  unfold squeueListing
  cases r with
  | error e => rfl
  | ok out =>
    dsimp only
    split
    · rfl
    · cases ensureQuerySuccess "squeue".toList out <;> rfl

/-- The same of the listings of the other two commands. -/
theorem toolListing_map {α β : Type} (f : α → β) (tool : Str) (parse : Str → α) (r : Answer) :
    (toolListing tool parse r).map f = toolListing tool (fun text => f (parse text)) r := by
  unfold toolListing
  cases r with
  | error e => rfl
  | ok out =>
    dsimp only
    cases ensureQuerySuccess tool out <;> rfl

/-- A query of one job, with the maps of the source evaluated at it. -/
theorem queryViaQgroup_single (d : Dispatcher K) (j : JobId) :
    queryJobStatesViaQgroupWith d [j] = (do
      let r ← d qgroupArgv
      return (toolListing "qgroup" parseQgroupL r).map
        fun all => fun k => if k ∈ [j] then all k else none) := by
  simp only [queryJobStatesViaQgroupWith, List.isEmpty_cons, Bool.false_eq_true, if_false]
  refine bind_congr fun r => ?_
  cases toolListing "qgroup".toList parseQgroupL r <;> rfl

theorem querySqueueOnly_single (d : Dispatcher K) (j : JobId) :
    queryJobStatesSqueueOnlyWith d [j] = (do
      let r ← d (squeueArgv (decimal j.toNat))
      return squeueListing parseSqueue Map.empty r) := by
  simp [queryJobStatesSqueueOnlyWith]

theorem queryWithExitCode_single (d : Dispatcher K) (j : JobId) :
    queryJobStatesWithExitCodeWith d [j] = (do
      let r ← d (squeueArgv (decimal j.toNat))
      match (squeueListing parseSqueue Map.empty r).map (· j) with
      | .error e => return .error e
      | .ok (some status) => return .ok (Map.empty.insert j ⟨status, none⟩)
      | .ok none =>
        let r ← d (sacctArgv (decimal j.toNat))
        return ((toolListing "sacct" parseSacctWithExitCode r).map (· j)).map
          fun oc => Map.empty.insert j (oc.getD JobOutcome.default)) := by
  simp only [queryJobStatesWithExitCodeWith, List.isEmpty_cons, Bool.false_eq_true, if_false,
    dedupePreservingOrder_singleton, csvJoin_singleton]
  refine bind_congr fun r => ?_
  rcases squeueListing parseSqueue Map.empty r with e | active
  · rfl
  · simp only [Except.map]
    cases hj : active j with
    | some status => simp [hj]
    | none =>
      simp only [hj, Option.isNone_none, List.filter_cons_of_pos, List.filter_nil,
        List.isEmpty_cons, Bool.false_eq_true, if_false, csvJoin_singleton, pure_bind]
      refine bind_congr fun r => ?_
      rcases toolListing "sacct".toList parseSacctWithExitCode r with e | history
      · rfl
      · simp only [List.foldl_cons, List.foldl_nil, hj]

/-- `refresh` probes and then records. -/
theorem refreshLocked_eq (d : Dispatcher K) (h : Nat) (snap : SbatchJobSnapshot) (t : Nat) :
    refreshLocked d h snap t = (do
      match ← observe (dynView d) snap with
      | .error e => return .error e
      | .ok row => saveAndPublish h (siteOf row) (snap.observed row t)) := by
  unfold refreshLocked observe
  cases hidx : snap.arrayTaskId with
  | some idx =>
    simp only [queryArrayTaskStateWith, bind_assoc, pure_bind, squeueStatus,
      SbatchJobSnapshot.squeueKey, hidx]
    refine bind_congr fun r => ?_
    rcases squeueListing (fun text => parseSqueueArrayTask text (taskKey snap.jobid idx)) none r
      with e | _ | status <;> rfl
  | none =>
    simp only [queryViaQgroup_single, querySqueueOnly_single, bind_assoc, pure_bind]
    refine bind_congr fun rq => ?_
    have hq : qgroupStatus snap.jobid rq =
        match (toolListing "qgroup" parseQgroupL rq).map (· snap.jobid) with
        | .ok status => status
        | .error _ => none := by rw [toolListing_map]; rfl
    have hmiss : ∀ r, squeueStatus snap r =
        (squeueListing parseSqueue Map.empty r).map (· snap.jobid) := by
      intro r
      simp only [squeueStatus, hidx, squeueListing_map]
      rfl
    have hrest : ((do
        let r ← dynView d (squeueArgv (decimal snap.jobid.toNat))
        match squeueListing parseSqueue Map.empty r with
        | .error e => return .error e
        | .ok squeue =>
          match squeue snap.jobid with
          | some status => saveAndPublish h .hit (snap.listed status t)
          | none => saveAndPublish h .vanish (snap.vanished t)) :
          Prog (sig K) (Except Str SbatchJobSnapshot)) = (do
        let r ← dynView d (squeueArgv snap.squeueKey)
        match squeueStatus snap r with
        | .error e => return .error e
        | .ok row => saveAndPublish h (siteOf row) (snap.observed row t)) := by
      simp only [SbatchJobSnapshot.squeueKey, hidx]
      refine bind_congr fun r => ?_
      rw [hmiss]
      rcases squeueListing parseSqueue Map.empty r with e | squeue
      · rfl
      · simp only [Except.map]
        cases squeue snap.jobid <;> rfl
    rw [hq]
    rcases toolListing "qgroup".toList parseQgroupL rq with e | all
    · simp only [Except.map, pure_bind, bind_assoc, Map.empty]
      exact hrest
    · simp only [Except.map, List.mem_singleton, if_true]
      cases all snap.jobid with
      | some status => rfl
      | none =>
        simp only [bind_assoc, pure_bind]
        exact hrest

/-- The finalizer probes and then records. -/
theorem finalizeLocked_eq (d : Dispatcher K) (h : Nat) (snap : SbatchJobSnapshot) :
    finalizeLocked d h snap = (do
      match ← resolve (dynView d) snap with
      | .error e => return .error e
      | .ok outcome =>
        if outcome.status.state = .unknown ∧ outcome.exitCode = none then
          return .ok snap
        else if outcome.status.state ≠ .unknown ∧ outcome.status.state.isTerminal = false then
          let t ← utcNow
          saveAndPublish h (.rollback snap) (snap.rolledBack outcome.status t)
        else
          let t ← utcNow
          saveAndPublish h (.stamp snap) (snap.stamped outcome t)) := by
  unfold finalizeLocked resolve
  cases hidx : snap.arrayTaskId with
  | some idx =>
    simp only [queryArrayTaskOutcomeWith, bind_assoc, pure_bind, sacctOutcome, hidx]
    refine bind_congr fun r => ?_
    rcases toolListing "sacct".toList
      (fun text => parseSacctArrayTaskWithExitCode text (taskKey snap.jobid idx)) r
      with e | oc <;> rfl
  | none =>
    simp only [queryWithExitCode_single, bind_assoc, pure_bind]
    have hkey : snap.squeueKey = decimal snap.jobid.toNat := by
      simp only [SbatchJobSnapshot.squeueKey, hidx]
    have hst : ∀ r, squeueStatus snap r =
        (squeueListing parseSqueue Map.empty r).map (· snap.jobid) := by
      intro r
      simp only [squeueStatus, hidx, squeueListing_map]
      rfl
    have hoc : ∀ r, sacctOutcome snap r =
        (toolListing "sacct" parseSacctWithExitCode r).map (· snap.jobid) := by
      intro r
      simp only [sacctOutcome, hidx, toolListing_map]
    rw [hkey]
    refine bind_congr fun r => ?_
    rw [← hst]
    rcases squeueStatus snap r with e | _ | status
    · rfl
    · simp only [bind_assoc, pure_bind]
      refine bind_congr fun r' => ?_
      rw [← hoc]
      rcases sacctOutcome snap r' with e | oc
      · rfl
      · simp only [Except.map, Map.insert_self, Option.getD_some]
    · simp only [pure_bind, Map.insert_self, Option.getD_some]

end Parts

end Sbatch

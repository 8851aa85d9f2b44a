/-
# Snapshots of an sbatch job

The persisted record of one submitted job, and the two ways in which a status query changes its
lifecycle.  Times and durations are numbers of nanoseconds, and a uuid is a number.
-/
import SlurmRunner.Slurm.Listing

namespace Sbatch

open Text Slurm

/-! ## 1. The record

The fields of the source, and the lifecycle as a record of its own. -/

/-- The outcome that the accounting records for a finished job. -/
structure FinishedInfo where
  finalState : JobState
  finalReason : JobReason
  exitCode : Option Int
  finishedAt : Nat
deriving DecidableEq, Repr

structure SbatchLifecycle where
  lastObservedState : Option JobStatus
  lastObservedAt : Option Nat
  leftActiveListing : Bool
  finished : Option FinishedInfo
deriving DecidableEq, Repr

/-- `SbatchLifecycle::default`. -/
def SbatchLifecycle.default : SbatchLifecycle := ⟨none, none, false, none⟩

/-- `SbatchLifecycle::is_running`. -/
def SbatchLifecycle.isRunning (lifecycle : SbatchLifecycle) : Bool :=
  if lifecycle.leftActiveListing then false
  else (lifecycle.lastObservedState.map fun s => s.state.isRunning).getD false

/-- `SbatchLifecycle::is_finished`. -/
def SbatchLifecycle.isFinished (lifecycle : SbatchLifecycle) : Bool := lifecycle.finished.isSome

structure LogPathSpec where
  outputTemplate : Option Str
  errorTemplate : Option Str
deriving DecidableEq, Repr

structure SbatchJobSnapshot where
  uuid : Nat
  jobid : JobId
  /-- The index within the array; `none` for a single job. -/
  arrayTaskId : Option TaskIndex
  argv : Argv
  sentEnv : List (Str × Str)
  scriptPath : Str
  chdir : Option Str
  partition : Option Str
  jobName : Option Str
  submittedAt : Nat
  log : LogPathSpec
  lifecycle : SbatchLifecycle
deriving DecidableEq, Repr

namespace SbatchJobSnapshot

/-- The snapshot of a job that has just been submitted without options. -/
def submitted (uuid : Nat) (jobid : JobId) (arrayTaskId : Option TaskIndex) : SbatchJobSnapshot :=
  ⟨uuid, jobid, arrayTaskId, [], [], "job.sh", none, none, none, 0, ⟨none, none⟩, .default⟩

/-- The job was seen in a terminal state. -/
def observedTerminal (snap : SbatchJobSnapshot) : Bool :=
  snap.lifecycle.lastObservedState.any fun s => s.state.isTerminal

/-! ## 2. What a query does to a snapshot

One function for each way in which a snapshot is replaced: it is listed, it is gone, it is rolled
back, or it is stamped.  None of these touches the fields of the submission. -/

/-- A listing still has the job. -/
def listed (snap : SbatchJobSnapshot) (status : JobStatus) (now : Nat) : SbatchJobSnapshot :=
  { snap with lifecycle := { snap.lifecycle with
      lastObservedState := some status, lastObservedAt := some now } }

/-- No listing has the job. -/
def vanished (snap : SbatchJobSnapshot) (now : Nat) : SbatchJobSnapshot :=
  { snap with lifecycle := { snap.lifecycle with
      leftActiveListing := true, lastObservedAt := some now } }

/-- The accounting says that the job is alive after all. -/
def rolledBack (snap : SbatchJobSnapshot) (status : JobStatus) (now : Nat) :
    SbatchJobSnapshot :=
  { snap with lifecycle := { snap.lifecycle with
      leftActiveListing := false, lastObservedState := some status,
      lastObservedAt := some now } }

/-- The recorded outcome. -/
def stamped (snap : SbatchJobSnapshot) (outcome : JobOutcome) (now : Nat) : SbatchJobSnapshot :=
  { snap with lifecycle := { snap.lifecycle with
      finished := some ⟨outcome.status.state, outcome.status.reason, outcome.exitCode, now⟩ } }

/-- What one `refresh` makes of its observation: the row of the job, or its absence. -/
def observed (snap : SbatchJobSnapshot) (row : Option JobStatus) (now : Nat) :
    SbatchJobSnapshot :=
  match row with
  | some status => snap.listed status now
  | none => snap.vanished now

/-- `snap'` was observed no earlier than `snap`. -/
def NotOlder (snap snap' : SbatchJobSnapshot) : Prop :=
  match snap.lifecycle.lastObservedAt with
  | none => True
  | some x => ∃ y ∈ snap'.lifecycle.lastObservedAt, x ≤ y

instance (snap snap' : SbatchJobSnapshot) : Decidable (NotOlder snap snap') := by
  unfold NotOlder
  split
  · exact isTrue trivial
  · rename_i x _
    cases snap'.lifecycle.lastObservedAt with
    | none => exact isFalse (by simp)
    | some y => exact decidable_of_iff (x ≤ y) (by simp)

/-- A snapshot is not older if it was observed no earlier. -/
theorem notOlder_iff {snap snap' : SbatchJobSnapshot} : NotOlder snap snap' ↔
    ∀ x, snap.lifecycle.lastObservedAt = some x →
      ∃ y, snap'.lifecycle.lastObservedAt = some y ∧ x ≤ y := by
  unfold NotOlder
  split
  · rename_i h
    simp [h]
  · rename_i x h
    simp [h]

/-- No snapshot is older than itself. -/
theorem NotOlder.refl (snap : SbatchJobSnapshot) : NotOlder snap snap :=
  notOlder_iff.mpr fun x hx => ⟨x, hx, Nat.le_refl x⟩

/-- And the order is transitive. -/
theorem NotOlder.trans {snap snap' snap'' : SbatchJobSnapshot} (h : NotOlder snap snap')
    (h' : NotOlder snap' snap'') : NotOlder snap snap'' := by
  rw [notOlder_iff] at h h' ⊢
  intro x hx
  obtain ⟨y, hy, hxy⟩ := h x hx
  obtain ⟨z, hz, hyz⟩ := h' y hy
  exact ⟨z, hz, Nat.le_trans hxy hyz⟩

@[simp] theorem listed_finished (snap : SbatchJobSnapshot) (st : JobStatus) (now : Nat) :
    (snap.listed st now).lifecycle.finished = snap.lifecycle.finished := rfl

@[simp] theorem vanished_finished (snap : SbatchJobSnapshot) (now : Nat) :
    (snap.vanished now).lifecycle.finished = snap.lifecycle.finished := rfl

@[simp] theorem rolledBack_finished (snap : SbatchJobSnapshot) (st : JobStatus) (now : Nat) :
    (snap.rolledBack st now).lifecycle.finished = snap.lifecycle.finished := rfl

@[simp] theorem stamped_lastObservedAt (snap : SbatchJobSnapshot) (oc : JobOutcome) (now : Nat) :
    (snap.stamped oc now).lifecycle.lastObservedAt = snap.lifecycle.lastObservedAt := rfl

/-- An observation leaves the recorded outcome alone. -/
@[simp] theorem observed_finished (snap : SbatchJobSnapshot) (row : Option JobStatus)
    (now : Nat) : (snap.observed row now).lifecycle.finished = snap.lifecycle.finished := by
  cases row <;> rfl

@[simp] theorem observed_lastObservedAt (snap : SbatchJobSnapshot) (row : Option JobStatus)
    (now : Nat) : (snap.observed row now).lifecycle.lastObservedAt = some now := by
  cases row <;> rfl

@[simp] theorem observed_jobid (snap : SbatchJobSnapshot) (row : Option JobStatus) (now : Nat) :
    (snap.observed row now).jobid = snap.jobid := by cases row <;> rfl

@[simp] theorem observed_arrayTaskId (snap : SbatchJobSnapshot) (row : Option JobStatus)
    (now : Nat) : (snap.observed row now).arrayTaskId = snap.arrayTaskId := by cases row <;> rfl

@[simp] theorem observed_uuid (snap : SbatchJobSnapshot) (row : Option JobStatus) (now : Nat) :
    (snap.observed row now).uuid = snap.uuid := by
  cases row <;> rfl

end SbatchJobSnapshot

end Sbatch

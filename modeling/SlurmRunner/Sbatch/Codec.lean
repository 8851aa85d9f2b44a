/-
# The JSON form of an sbatch snapshot

The derived `Serialize` and `Deserialize` of `SbatchJobSnapshot` and of what it holds.  A uuid and
a time are written as strings, in the formats of their libraries; a job state and a reason are
written as the scheduler's own strings.
-/
import SlurmRunner.Serde.Reader
import SlurmRunner.Sbatch.Snapshot

namespace Sbatch

open Text Slurm Serde

/-! ## 1. States and reasons

A state and a reason are written as the tokens that Slurm prints, so that a reason that is not the
parsed form of any token is read back as another one. -/

def JobState.toValue (s : JobState) : Json := .str s.asToken

def JobState.reader : Reader JobState := fun v => (Reader.string v).map JobState.parse

def JobReason.toValue (r : JobReason) : Json := .str r.asStr

def JobReason.reader : Reader JobReason := fun v => (Reader.string v).map JobReason.parse

namespace JobStatus

def names : List Str := ["state", "reason"]

def toValue (s : JobStatus) : Json :=
  writeRecord names [JobState.toValue s.state, JobReason.toValue s.reason]

/-- The only record here that refuses unknown fields. -/
def reader : Reader JobStatus :=
  Reader.denyUnknown names <| Reader.record names do
    let state ← required JobState.reader
    let reason ← required JobReason.reader
    return ⟨state, reason⟩

end JobStatus

/-! ## 2. The parts of a snapshot

The derived readers and writers of the records in a snapshot. Every field is written, and one that
is missing as `null`, which the reader of an optional field takes for the same thing. -/

namespace LogPathSpec

def names : List Str := ["output_template", "error_template"]

def toValue (l : LogPathSpec) : Json :=
  writeRecord names [writeOption .str l.outputTemplate, writeOption .str l.errorTemplate]

def reader : Reader LogPathSpec := Reader.record names do
  let outputTemplate ← optionalField Reader.string
  let errorTemplate ← optionalField Reader.string
  return ⟨outputTemplate, errorTemplate⟩

end LogPathSpec

section Formats

-- the formats of a uuid and of a time
variable (U T : TextFormat Nat)

namespace FinishedInfo

def names : List Str := ["final_state", "final_reason", "exit_code", "finished_at"]

def toValue (f : FinishedInfo) : Json :=
  writeRecord names [JobState.toValue f.finalState, JobReason.toValue f.finalReason,
    writeOption .num f.exitCode, T.writer f.finishedAt]

def reader : Reader FinishedInfo := Reader.record names do
  let finalState ← required JobState.reader
  let finalReason ← required JobReason.reader
  let exitCode ← optionalField Reader.i32
  let finishedAt ← required T.reader
  return ⟨finalState, finalReason, exitCode, finishedAt⟩

end FinishedInfo

namespace SbatchLifecycle

def names : List Str :=
  ["last_observed_state", "last_observed_at", "left_active_listing", "finished"]

def toValue (l : SbatchLifecycle) : Json :=
  writeRecord names [writeOption JobStatus.toValue l.lastObservedState,
    writeOption T.writer l.lastObservedAt, .bool l.leftActiveListing,
    writeOption (FinishedInfo.toValue T) l.finished]

def reader : Reader SbatchLifecycle := Reader.record names do
  let lastObservedState ← optionalField JobStatus.reader
  let lastObservedAt ← optionalField T.reader
  let leftActiveListing ← required Reader.bool
  let finished ← optionalField (FinishedInfo.reader T)
  return ⟨lastObservedState, lastObservedAt, leftActiveListing, finished⟩

end SbatchLifecycle

/-! ## 3. The snapshot -/

namespace SbatchJobSnapshot

def names : List Str :=
  ["uuid", "jobid", "array_task_id", "argv", "sent_env", "script_path", "chdir", "partition",
    "job_name", "submitted_at", "log", "lifecycle"]

/-- No name is given twice, so that a field is found where it was written. -/
theorem names_nodup : names.Nodup := by decide +kernel

def values (s : SbatchJobSnapshot) : List Json :=
  [U.writer s.uuid, .num s.jobid.toNat, writeOption (fun i => .num (UInt32.toNat i)) s.arrayTaskId,
    writeStrings s.argv, writeMap s.sentEnv, .str s.scriptPath, writeOption .str s.chdir,
    writeOption .str s.partition, writeOption .str s.jobName, T.writer s.submittedAt,
    s.log.toValue, SbatchLifecycle.toValue T s.lifecycle]

def toValue (s : SbatchJobSnapshot) : Json := writeRecord names (values U T s)

def body : FieldsReader SbatchJobSnapshot := do
  let uuid ← required U.reader
  let jobid ← required Reader.u64
  let arrayTaskId ← optionalField Reader.u32
  let argv ← required Reader.string.list
  let sentEnv ← required Reader.string.map
  let scriptPath ← required Reader.string
  let chdir ← optionalField Reader.string
  let partition ← optionalField Reader.string
  let jobName ← optionalField Reader.string
  let submittedAt ← required T.reader
  let log ← required LogPathSpec.reader
  let lifecycle ← required (SbatchLifecycle.reader T)
  return ⟨uuid, jobid, arrayTaskId, argv, sentEnv, scriptPath, chdir, partition, jobName,
    submittedAt, log, lifecycle⟩

def reader : Reader SbatchJobSnapshot := Reader.record names (body U T)

end SbatchJobSnapshot

end Formats

/-! ## 4. What is written is read back

Of each part first, then of the snapshot, by its fields in their order. -/

/-- A reason that came from a listing. -/
def Parsed (r : JobReason) : Prop := ∃ raw, r = JobReason.parse raw

/-- An exit code is an `i32`, and the reason came from a listing. -/
structure FinishedInfo.Storable (f : FinishedInfo) : Prop where
  reason : Parsed f.finalReason
  exitCode : ∀ c ∈ f.exitCode, -2 ^ 31 ≤ c ∧ c < 2 ^ 31

/-- The reasons came from listings, the exit code is an `i32`, and no variable of the environment
is set twice. -/
structure SbatchJobSnapshot.Storable (s : SbatchJobSnapshot) : Prop where
  observed : ∀ status ∈ s.lifecycle.lastObservedState, Parsed status.reason
  finished : ∀ f ∈ s.lifecycle.finished, f.Storable
  sentEnv : (s.sentEnv.map Prod.fst).Nodup

/-- Each of the states has a token of its own. -/
@[simp] theorem JobState.reader_toValue (s : JobState) :
    JobState.reader (JobState.toValue s) = some s := by
  simp [JobState.reader, JobState.toValue]

/-- A reason is read back if it was parsed: `other "Priority"` would come back as the known
reason. -/
theorem JobReason.reader_toValue {r : JobReason} (h : Parsed r) :
    JobReason.reader (JobReason.toValue r) = some r := by
  obtain ⟨raw, rfl⟩ := h
  simp only [JobReason.reader, JobReason.toValue, string_str, Option.map_some,
    JobReason.parse_asStr_parse]

/-- A status is read back if its reason was parsed. -/
theorem JobStatus.reader_toValue {s : JobStatus} (h : Parsed s.reason) :
    JobStatus.reader (JobStatus.toValue s) = some s := by
  rw [JobStatus.reader, JobStatus.toValue, denyUnknown_writeRecord]
  refine record_writeRecord (by decide +kernel) rfl ?_
  simp [JobReason.reader_toValue h]

/-- A template that is not given is written as `null` and read as none. -/
@[simp] theorem LogPathSpec.reader_toValue (l : LogPathSpec) :
    LogPathSpec.reader l.toValue = some l := by
  refine record_writeRecord (by decide +kernel) rfl ?_
  simp [optional_str]

section Formats

variable (U T : TextFormat Nat)

/-- An exit is read back if its reason was parsed and its code is an `i32`. -/
theorem FinishedInfo.reader_toValue {f : FinishedInfo} (h : f.Storable) :
    FinishedInfo.reader T (f.toValue T) = some f := by
  have hexit : Reader.i32.optional (writeOption .num f.exitCode) = some f.exitCode :=
    optional_writeOption (fun c hc => int_num (h.exitCode c hc)) fun _ _ => nofun
  refine record_writeRecord (by decide +kernel) rfl ?_
  simp [JobReason.reader_toValue h.reason, hexit]

/-- A lifecycle is read back if the last status and the exit are. -/
theorem SbatchLifecycle.reader_toValue {l : SbatchLifecycle}
    (hobserved : ∀ status ∈ l.lastObservedState, Parsed status.reason)
    (hfinished : ∀ f ∈ l.finished, f.Storable) :
    SbatchLifecycle.reader T (l.toValue T) = some l := by
  have hstate : JobStatus.reader.optional (writeOption JobStatus.toValue l.lastObservedState)
      = some l.lastObservedState :=
    optional_writeOption (fun s hs => JobStatus.reader_toValue (hobserved s hs))
      fun _ _ => nofun
  have htime : T.reader.optional (writeOption T.writer l.lastObservedAt)
      = some l.lastObservedAt :=
    optional_writeOption (fun _ _ => reader_writer T _) fun _ _ => nofun
  have hfin : (FinishedInfo.reader T).optional (writeOption (FinishedInfo.toValue T) l.finished)
      = some l.finished :=
    optional_writeOption (fun f hf => FinishedInfo.reader_toValue T (hfinished f hf))
      fun _ _ => nofun
  refine record_writeRecord (by decide +kernel) rfl ?_
  simp [hstate, htime, hfin]

/-- A snapshot is read back, also with members of other names behind it. -/
theorem SbatchJobSnapshot.reader_append {s : SbatchJobSnapshot} (h : s.Storable)
    {extra : List (Str × Json)} (hextra : ∀ m ∈ extra, m.1 ∉ names) :
    reader U T (.obj (names.zip (values U T s) ++ extra)) = some s := by
  have htask : Reader.u32.optional (writeOption (fun i => .num (UInt32.toNat i)) s.arrayTaskId)
      = some s.arrayTaskId :=
    optional_writeOption (fun i _ => u32_num i) fun _ _ => nofun
  refine record_append names_nodup rfl hextra ?_
  simp only [values, body, bind_pure_comp, List.map_cons, List.map_nil, bind_fields, map_fields,
    required_cons, optionalField_cons, Option.map_some, reader_writer, u64_num,
    htask, list_writeStrings, map_writeMap h.sentEnv, string_str, optional_str,
    LogPathSpec.reader_toValue, SbatchLifecycle.reader_toValue T h.observed h.finished]

end Formats

/-! ## 5. What is written is plain

A plain document is its own value: no member is named twice, and there is nothing in it that is
skipped but not read.  So a snapshot that goes through its text is the same document. -/

/-- Two members with different names. -/
theorem JobStatus.toValue_isPlain (s : JobStatus) : (JobStatus.toValue s).isPlain = true := by
  refine writeRecord_isPlain (by decide +kernel) rfl ?_
  simp [JobState.toValue, JobReason.toValue]

/-- Two texts, or `null` for the one that is not given. -/
theorem LogPathSpec.toValue_isPlain (l : LogPathSpec) : l.toValue.isPlain = true := by
  refine writeRecord_isPlain (by decide +kernel) rfl ?_
  simp [optionalStr_isPlain]

section Formats

variable (U T : TextFormat Nat)

/-- Numbers of 32 bits are within what a text can hold. -/
theorem FinishedInfo.toValue_isPlain {f : FinishedInfo} (h : f.Storable) :
    (f.toValue T).isPlain = true := by
  have hexit : (writeOption Json.num f.exitCode).isPlain = true :=
    writeOption_isPlain fun c hc => by
      obtain ⟨hlow, hhigh⟩ := h.exitCode c hc
      rw [Json.isPlain, decide_eq_true_eq]
      omega
  refine writeRecord_isPlain (by decide +kernel) rfl ?_
  simp [JobState.toValue, JobReason.toValue, TextFormat.writer, hexit]

/-- The parts that are missing are `null`, and the others are plain. -/
theorem SbatchLifecycle.toValue_isPlain {l : SbatchLifecycle}
    (hfinished : ∀ f ∈ l.finished, f.Storable) : (l.toValue T).isPlain = true := by
  have hstate : (writeOption JobStatus.toValue l.lastObservedState).isPlain = true :=
    writeOption_isPlain fun s _ => JobStatus.toValue_isPlain s
  have htime : (writeOption T.writer l.lastObservedAt).isPlain = true :=
    writeOption_isPlain fun _ _ => rfl
  have hfin : (writeOption (FinishedInfo.toValue T) l.finished).isPlain = true :=
    writeOption_isPlain fun f hf => FinishedInfo.toValue_isPlain T (hfinished f hf)
  refine writeRecord_isPlain (by decide +kernel) rfl ?_
  simp [hstate, htime, hfin]

/-- All fields of a snapshot are plain, each by its own lemma. -/
theorem SbatchJobSnapshot.values_isPlain {s : SbatchJobSnapshot} (h : s.Storable) :
    ∀ v ∈ values U T s, v.isPlain = true := by
  have htask : (writeOption (fun i => Json.num (UInt32.toNat i)) s.arrayTaskId).isPlain = true :=
    writeOption_isPlain fun i _ => num_isPlain (by have := i.toNat_lt; omega)
  have hjobid : (Json.num s.jobid.toNat).isPlain = true := num_isPlain s.jobid.toNat_lt
  simp [values, htask, hjobid, TextFormat.writer, writeStrings_isPlain,
    writeMap_isPlain h.sentEnv, optionalStr_isPlain, LogPathSpec.toValue_isPlain,
    SbatchLifecycle.toValue_isPlain T h.finished]

end Formats

end Sbatch

/-
# Job states and reasons

The `(state, reason)` pair that the scheduler reports for a job, and the parsers of its two
columns.
-/
import SlurmRunner.Text.Split

namespace Slurm

open Text

/-! ## 1. States

The states with their tokens, as the source lists them; any other token is read as unknown. -/

/-- SLURM job state code: the official tokens and `unknown` for any other. -/
inductive JobState where
  -- queued, not progressing
  | pending | configuring | requeued | requeueFed | requeueHold | resvDelHold | suspended | stopped
  -- alive, progressing
  | running | completing | resizing | signaling | stageOut
  -- terminal success
  | completed
  -- terminal failure
  | bootFail | cancelled | deadline | failed | nodeFail | outOfMemory | preempted | revoked
  | specialExit | timeout
  | unknown
deriving DecidableEq, Repr

namespace JobState

def isRunning (s : JobState) : Bool := s == running

/-- The job will never run again. -/
def isTerminal : JobState → Bool
  | completed | bootFail | cancelled | deadline | failed | nodeFail | outOfMemory | preempted
  | revoked | specialExit | timeout => true
  | _ => false

/-- A state that the code recognises and that says the job is still alive. -/
def isKnownLive (s : JobState) : Bool := s != unknown && !s.isTerminal

/-- The tokens of each state: the long form, the compact code, and the aliases that the
`qgroup -l` listing prints (`RUN`, `QUE`, `CMP`, `FINI`, `FAIL`). -/
def tokens : List (JobState × List String) :=
  [(pending, ["PENDING", "PD", "QUE"]), (configuring, ["CONFIGURING", "CF"]),
   (requeued, ["REQUEUED", "RQ"]), (requeueFed, ["REQUEUE_FED", "RF"]),
   (requeueHold, ["REQUEUE_HOLD", "RH"]), (resvDelHold, ["RESV_DEL_HOLD", "RD"]),
   (suspended, ["SUSPENDED", "S"]), (stopped, ["STOPPED", "ST"]),
   (running, ["RUNNING", "R", "RUN"]), (completing, ["COMPLETING", "CG"]),
   (resizing, ["RESIZING", "RS"]), (signaling, ["SIGNALING", "SI"]),
   (stageOut, ["STAGE_OUT", "SO"]), (completed, ["COMPLETED", "CD", "CMP", "FINI"]),
   (bootFail, ["BOOT_FAIL", "BF"]), (cancelled, ["CANCELLED", "CA"]),
   (deadline, ["DEADLINE", "DL"]), (failed, ["FAILED", "F", "FAIL"]),
   (nodeFail, ["NODE_FAIL", "NF"]), (outOfMemory, ["OUT_OF_MEMORY", "OOM"]),
   (preempted, ["PREEMPTED", "PR"]), (revoked, ["REVOKED", "RV"]),
   (specialExit, ["SPECIAL_EXIT", "SE"]), (timeout, ["TIMEOUT", "TO"])]

/-- Parse a raw state column: the first word counts, in any case. -/
def parse (raw : Str) : JobState :=
  let token := toAsciiUppercase ((splitWhitespace raw).headD [])
  match tokens.find? fun p => p.2.any fun t => t.toList == token with
  | some (s, _) => s
  | none => unknown

/-- The long form of the token. -/
def asToken : JobState → String
  | pending => "PENDING"
  | configuring => "CONFIGURING"
  | requeued => "REQUEUED"
  | requeueFed => "REQUEUE_FED"
  | requeueHold => "REQUEUE_HOLD"
  | resvDelHold => "RESV_DEL_HOLD"
  | suspended => "SUSPENDED"
  | stopped => "STOPPED"
  | running => "RUNNING"
  | completing => "COMPLETING"
  | resizing => "RESIZING"
  | signaling => "SIGNALING"
  | stageOut => "STAGE_OUT"
  | completed => "COMPLETED"
  | bootFail => "BOOT_FAIL"
  | cancelled => "CANCELLED"
  | deadline => "DEADLINE"
  | failed => "FAILED"
  | nodeFail => "NODE_FAIL"
  | outOfMemory => "OUT_OF_MEMORY"
  | preempted => "PREEMPTED"
  | revoked => "REVOKED"
  | specialExit => "SPECIAL_EXIT"
  | timeout => "TIMEOUT"
  | unknown => "UNKNOWN"

def all : List JobState := unknown :: tokens.map Prod.fst

/-- The list has every state. -/
theorem mem_all (s : JobState) : s ∈ all := by cases s <;> decide

/-- Each token is read as its state. -/
theorem parse_asToken_all : ∀ s ∈ all, parse s.asToken = s := by decide +kernel

/-- Every state is parsed back from its token. -/
@[simp] theorem parse_asToken (s : JobState) : parse s.asToken = s :=
  parse_asToken_all s (mem_all s)

end JobState

/-! ## 2. Reasons

The reasons with their tokens, in one table; a token that is not in it is kept as it is. -/

/-- SLURM job reason code; an unrecognised reason keeps its text. -/
inductive JobReason where
  | none
  -- common waiting reasons
  | priority | dependency | dependencyNeverSatisfied | resources | reservation | resvDeleted
  | beginTime | licenses | nodeNotAvail | jobHeldUser | jobHeldAdmin | badConstraints | cleaning
  | prolog | jobArrayTaskLimit | burstBufferResources | burstBufferStageIn | nodeReboot
  | maxRequeueExceeded | plannedReservation | fedJobLock | outOfMemory | preemption
  | waitingForScheduling | adminHold
  -- partition
  | partitionDown | partitionInactive | partitionNodeLimit | partitionTimeLimit | partitionConfig
  -- front-end
  | frontEndDown | frontEndUserDown | downNodes
  -- termination / failure reasons
  | systemFailure | jobLaunchFailure | nonZeroExitCode | raisedSignal | timeLimit | inactiveLimit
  | deadline
  -- Account / QOS
  | invalidAccount | invalidQOS | accountNotAllowed | qosNotAllowed
  -- QOS limits
  | qosUsageThreshold | qosJobLimit | qosResourceLimit | qosTimeLimit | qosGrpCpuLimit
  | qosGrpCpuMinutesLimit | qosGrpCpuRunMinutesLimit | qosGrpJobsLimit | qosGrpMemoryLimit
  | qosGrpNodeLimit | qosGrpSubmitJobsLimit | qosGrpWallLimit | qosMaxCpuMinutesPerJobLimit
  | qosMaxCpuPerJobLimit | qosMaxCpuPerNodeLimit | qosMaxCpuPerUserLimit
  | qosMaxJobsPerAccountLimit | qosMaxJobsPerUserLimit | qosMaxNodePerJobLimit
  | qosMaxNodePerUserLimit | qosMaxSubmitJobPerAccountLimit | qosMaxSubmitJobPerUserLimit
  | qosMaxWallDurationPerJobLimit | qosMinCpuNotSatisfied
  -- association limits
  | associationJobLimit | associationResourceLimit | associationTimeLimit | assocGrpCpuLimit
  | assocGrpCpuMinutesLimit | assocGrpCpuRunMinutesLimit | assocGrpJobsLimit
  | assocGrpMemoryLimit | assocGrpNodeLimit | assocGrpSubmitJobsLimit | assocGrpWallLimit
  | assocMaxJobsLimit | assocMaxCpuPerJobLimit | assocMaxCpuMinutesPerJobLimit
  | assocMaxNodePerJobLimit | assocMaxWallDurationPerJobLimit | assocMaxSubmitJobLimit
  -- block (Bluegene legacy)
  | blockMaxError | blockFreeAction
  | other (raw : Str)
deriving DecidableEq, Repr

namespace JobReason

/-- The reasons and their strings. -/
def codes : List (JobReason × String) :=
  [(priority, "Priority"), (dependency, "Dependency"),
   (dependencyNeverSatisfied, "DependencyNeverSatisfied"), (resources, "Resources"),
   (reservation, "Reservation"), (resvDeleted, "ResvDeleted"), (beginTime, "BeginTime"),
   (licenses, "Licenses"), (nodeNotAvail, "ReqNodeNotAvail"), (jobHeldUser, "JobHeldUser"),
   (jobHeldAdmin, "JobHeldAdmin"), (badConstraints, "BadConstraints"), (cleaning, "Cleaning"),
   (prolog, "Prolog"), (jobArrayTaskLimit, "JobArrayTaskLimit"),
   (burstBufferResources, "BurstBufferResources"), (burstBufferStageIn, "BurstBufferStageIn"),
   (nodeReboot, "NodeReboot"), (maxRequeueExceeded, "MaxRequeueExceeded"),
   (plannedReservation, "PlannedReservation"), (fedJobLock, "FedJobLock"),
   (outOfMemory, "OutOfMemory"), (preemption, "Preemption"),
   (waitingForScheduling, "WaitingForScheduling"), (adminHold, "AdminHold"),
   (partitionDown, "PartitionDown"), (partitionInactive, "PartitionInactive"),
   (partitionNodeLimit, "PartitionNodeLimit"), (partitionTimeLimit, "PartitionTimeLimit"),
   (partitionConfig, "PartitionConfig"), (frontEndDown, "FrontEndDown"),
   (frontEndUserDown, "FrontEndUserDown"), (downNodes, "DownNodes"),
   (systemFailure, "SystemFailure"), (jobLaunchFailure, "JobLaunchFailure"),
   (nonZeroExitCode, "NonZeroExitCode"), (raisedSignal, "RaisedSignal"), (timeLimit, "TimeLimit"),
   (inactiveLimit, "InactiveLimit"), (deadline, "Deadline"), (invalidAccount, "InvalidAccount"),
   (invalidQOS, "InvalidQOS"), (accountNotAllowed, "AccountNotAllowed"),
   (qosNotAllowed, "QOSNotAllowed"), (qosUsageThreshold, "QOSUsageThreshold"),
   (qosJobLimit, "QOSJobLimit"), (qosResourceLimit, "QOSResourceLimit"),
   (qosTimeLimit, "QOSTimeLimit"), (qosGrpCpuLimit, "QOSGrpCpuLimit"),
   (qosGrpCpuMinutesLimit, "QOSGrpCpuMinutesLimit"),
   (qosGrpCpuRunMinutesLimit, "QOSGrpCpuRunMinutesLimit"), (qosGrpJobsLimit, "QOSGrpJobsLimit"),
   (qosGrpMemoryLimit, "QOSGrpMemoryLimit"), (qosGrpNodeLimit, "QOSGrpNodeLimit"),
   (qosGrpSubmitJobsLimit, "QOSGrpSubmitJobsLimit"), (qosGrpWallLimit, "QOSGrpWallLimit"),
   (qosMaxCpuMinutesPerJobLimit, "QOSMaxCpuMinutesPerJobLimit"),
   (qosMaxCpuPerJobLimit, "QOSMaxCpuPerJobLimit"),
   (qosMaxCpuPerNodeLimit, "QOSMaxCpuPerNodeLimit"),
   (qosMaxCpuPerUserLimit, "QOSMaxCpuPerUserLimit"),
   (qosMaxJobsPerAccountLimit, "QOSMaxJobsPerAccountLimit"),
   (qosMaxJobsPerUserLimit, "QOSMaxJobsPerUserLimit"),
   (qosMaxNodePerJobLimit, "QOSMaxNodePerJobLimit"),
   (qosMaxNodePerUserLimit, "QOSMaxNodePerUserLimit"),
   (qosMaxSubmitJobPerAccountLimit, "QOSMaxSubmitJobPerAccountLimit"),
   (qosMaxSubmitJobPerUserLimit, "QOSMaxSubmitJobPerUserLimit"),
   (qosMaxWallDurationPerJobLimit, "QOSMaxWallDurationPerJobLimit"),
   (qosMinCpuNotSatisfied, "QOSMinCpuNotSatisfied"), (associationJobLimit, "AssociationJobLimit"),
   (associationResourceLimit, "AssociationResourceLimit"),
   (associationTimeLimit, "AssociationTimeLimit"), (assocGrpCpuLimit, "AssocGrpCpuLimit"),
   (assocGrpCpuMinutesLimit, "AssocGrpCpuMinutesLimit"),
   (assocGrpCpuRunMinutesLimit, "AssocGrpCpuRunMinutesLimit"),
   (assocGrpJobsLimit, "AssocGrpJobsLimit"), (assocGrpMemoryLimit, "AssocGrpMemoryLimit"),
   (assocGrpNodeLimit, "AssocGrpNodeLimit"), (assocGrpSubmitJobsLimit, "AssocGrpSubmitJobsLimit"),
   (assocGrpWallLimit, "AssocGrpWallLimit"), (assocMaxJobsLimit, "AssocMaxJobsLimit"),
   (assocMaxCpuPerJobLimit, "AssocMaxCpuPerJobLimit"),
   (assocMaxCpuMinutesPerJobLimit, "AssocMaxCpuMinutesPerJobLimit"),
   (assocMaxNodePerJobLimit, "AssocMaxNodePerJobLimit"),
   (assocMaxWallDurationPerJobLimit, "AssocMaxWallDurationPerJobLimit"),
   (assocMaxSubmitJobLimit, "AssocMaxSubmitJobLimit"), (blockMaxError, "BlockMaxError"),
   (blockFreeAction, "BlockFreeAction")]

/-- Parse a raw reason column. -/
def parse (raw : Str) : JobReason :=
  let trimmed := trim raw
  if trimmed = [] ∨ trimmed = "None" then none
  else match codes.find? fun p => p.2.toList == trimmed with
    | some (r, _) => r
    | Option.none => other trimmed

/-- The string of a reason; an unrecognised one is kept as it is. -/
def asStr : JobReason → Str
  | other raw => raw
  | r => match codes.find? fun p => p.1 == r with
    | some (_, token) => token
    | Option.none => "None"

/-- No entry of the table keeps a text. -/
def isOther : JobReason → Bool
  | other _ => true
  | _ => false

/-- The table has none of the other reasons. -/
theorem not_isOther_codes : ∀ p ∈ codes, p.1.isOther = false := by decide +kernel

/-- Each token of the table is read as its reason. -/
theorem parse_codes : ∀ p ∈ codes, parse p.2 = p.1 := by decide +kernel

/-- A reason of the table is printed as its token. -/
theorem asStr_of_not_isOther {r : JobReason} (h : r.isOther = false) :
    asStr r = match codes.find? fun p => p.1 == r with
      | some (_, token) => token.toList
      | Option.none => "None".toList := by
  cases r <;> first | rfl | cases h

/-- A reason of the table is parsed back from its string. -/
theorem parse_asStr_codes {p : JobReason × String} (hp : p ∈ codes) :
    parse (asStr p.1) = p.1 := by
  obtain ⟨q, hq⟩ : ∃ q, codes.find? (fun q => q.1 == p.1) = some q :=
    Option.isSome_iff_exists.mp (List.find?_isSome.mpr ⟨p, hp, beq_self_eq_true p.1⟩)
  have hreason : q.1 = p.1 := by simpa using List.find?_some hq
  rw [asStr_of_not_isOther (not_isOther_codes p hp), hq, ← hreason]
  exact parse_codes q (List.mem_of_find?_eq_some hq)

/-- The missing reason is read back. -/
theorem parse_asStr_none : parse (asStr none) = none := by
  cases hfind : codes.find? fun p => p.1 == none with
  | some q =>
    have hreason : q.1 = none := by simpa using List.find?_some hfind
    rw [← hreason]
    exact parse_asStr_codes (List.mem_of_find?_eq_some hfind)
  | none =>
    rw [asStr_of_not_isOther rfl, hfind]
    decide

/-- A reason that was parsed is parsed back from its string. -/
theorem parse_asStr_parse (raw : Str) : parse (asStr (parse raw)) = parse raw := by
  by_cases hnone : trim raw = [] ∨ trim raw = "None"
  · have hraw : parse raw = none := if_pos hnone
    rw [hraw]
    exact parse_asStr_none
  · cases hfind : codes.find? (fun p => p.2.toList == trim raw) with
    | some p =>
      have hraw : parse raw = p.1 := by
        simp only [parse, if_neg hnone, hfind]
      rw [hraw]
      exact parse_asStr_codes (List.mem_of_find?_eq_some hfind)
    | none =>
      have hraw : parse raw = other (trim raw) := by
        simp only [parse, if_neg hnone, hfind]
      have htrim : parse (trim raw) = other (trim raw) := by
        simp only [parse, trim_trim, if_neg hnone, hfind]
      rw [hraw]
      exact htrim

end JobReason

/-! ## 3. Status -/

/-- What one row of a listing reports. -/
structure JobStatus where
  state : JobState
  reason : JobReason
deriving DecidableEq, Repr

namespace JobStatus

/-- `JobStatus::default`. -/
def default : JobStatus := ⟨.unknown, .none⟩

instance : Inhabited JobStatus := ⟨default⟩

end JobStatus

end Slurm

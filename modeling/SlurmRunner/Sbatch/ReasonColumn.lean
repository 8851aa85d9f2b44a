/-
# The reason column

squeue prints blanks between its columns and sacct bars.  A reason may have blanks inside: the
sacct parsers take all of it and the squeue parsers its first word, so that the two agree exactly
about reasons of at most one word.
-/
import SlurmRunner.Sbatch.Runner
import SlurmRunner.Text.Words

namespace Slurm

open Text

namespace JobReason

/-- No string of the table has a blank. -/
theorem not_blank_of_mem_codes :
    ∀ p ∈ codes, (p.2.toList.all fun c => !isWhitespace c) = true := by
  decide +kernel

/-- Reasons are read trimmed. -/
theorem parse_trim (raw : Str) : parse (trim raw) = parse raw := by
  simp [parse, trim_trim]

/-- A reason with a blank inside is in no table and keeps its text. -/
theorem parse_of_blank {raw : Str} {c : Char} (hc : c ∈ trim raw) (hblank : isWhitespace c = true) :
    parse raw = other (trim raw) := by
  have hnone : ¬ (trim raw = [] ∨ trim raw = "None") := by
    rintro (h | h)
    · simp [h] at hc
    · have hword : ∀ c ∈ ("None" : Str), isWhitespace c = false :=
        no_whitespace_of_all (by decide)
      rw [hword c (h ▸ hc)] at hblank
      cases hblank
  have hfind : codes.find? (fun p => p.2.toList == trim raw) = Option.none := by
    refine List.find?_eq_none.mpr fun p hp heq => ?_
    rw [← beq_iff_eq.mp heq] at hc
    have hall := List.all_eq_true.mp (not_blank_of_mem_codes p hp) c hc
    simp [hblank] at hall
  simp only [parse, if_neg hnone, hfind]

/-- A reason that is kept as a text with a blank is not that of a single word. -/
theorem parse_ne_other {raw text : Str} {c : Char} (hraw : ∀ x ∈ raw, isWhitespace x = false)
    (hc : c ∈ text) (hblank : isWhitespace c = true) : parse raw ≠ other text := by
  intro h
  unfold parse at h
  dsimp only at h
  split at h
  · cases h
  · split at h
    · rename_i r token hfind
      have hother := not_isOther_codes _ (List.mem_of_find?_eq_some hfind)
      rw [h] at hother
      cases hother
    · cases h
      rw [hraw c (mem_of_mem_trim hc)] at hblank
      cases hblank

end JobReason

end Slurm

namespace Sbatch

open Text Slurm

/-! ## 1. One row -/

/-- The row `<id> <state> <reason>` of squeue. -/
def squeueText (id state reason : Str) : Str := id ++ ' ' :: (state ++ ' ' :: reason)

/-- The row `<id>|<state>|<reason>` of sacct. -/
def sacctText (id state reason : Str) : Str := id ++ '|' :: (state ++ '|' :: reason)

/-- A state token: a word without a bar. -/
def StateToken (state : Str) : Prop := IsWord state ∧ '|' ∉ state

/-- What squeue's columns say, with the first word of the reason. -/
def squeueStatusOf (state reason : Str) : JobStatus :=
  ⟨.parse state, .parse ((splitWhitespace reason).headD [])⟩

/-- What sacct's columns say, with the whole reason. -/
def sacctStatusOf (state reason : Str) : JobStatus := ⟨.parse state, .parse reason⟩

/-- **The two agree on reasons of at most one word.** -/
theorem squeueStatusOf_eq_iff (state reason : Str) :
    squeueStatusOf state reason = sacctStatusOf state reason ↔
      ∀ c ∈ trim reason, isWhitespace c = false := by
  simp only [squeueStatusOf, sacctStatusOf, JobStatus.mk.injEq, true_and]
  constructor
  · intro h
    by_contra hblank
    obtain ⟨c, hc, hw⟩ : ∃ c ∈ trim reason, isWhitespace c = true := by simpa using hblank
    rw [JobReason.parse_of_blank hc hw] at h
    exact JobReason.parse_ne_other (fun _ => not_blank_of_mem_headD) hc hw h
  · intro h
    rw [headD_splitWhitespace h, JobReason.parse_trim]

section Row

variable {id state reason : Str}

theorem splitWhitespace_squeueText (hid : IsWord id) (hstate : IsWord state) :
    splitWhitespace (squeueText id state reason) = id :: state :: splitWhitespace reason := by
  rw [squeueText, hid.splitWhitespace_append rfl, hstate.splitWhitespace_append rfl]

theorem splitN_sacctText (hid : '|' ∉ id) (hstate : '|' ∉ state) (hreason : '|' ∉ reason)
    (n : Nat) :
    splitN '|' (n + 3) (sacctText id state reason) = [id, state, reason] := by
  rw [sacctText, splitN_append hid, splitN_append hstate]
  cases n with
  | zero => rfl
  | succ n => rw [splitN, splitOnce_eq_none hreason]

/-- The texts are single lines. -/
theorem lines_squeueText (hid : IsWord id) (hstate : IsWord state) (hreason : '\n' ∉ reason) :
    lines (squeueText id state reason) = [squeueText id state reason] := by
  have hid' : '\n' ∉ id := fun hmem => absurd (hid.2 _ hmem) (by decide)
  have hstate' : '\n' ∉ state := fun hmem => absurd (hstate.2 _ hmem) (by decide)
  exact lines_of_not_mem (by simp [squeueText, hid', hstate', hreason]) (by simp [squeueText])

theorem lines_sacctText (hid : IsWord id) (hstate : IsWord state) (hreason : '\n' ∉ reason) :
    lines (sacctText id state reason) = [sacctText id state reason] := by
  have hid' : '\n' ∉ id := fun hmem => absurd (hid.2 _ hmem) (by decide)
  have hstate' : '\n' ∉ state := fun hmem => absurd (hstate.2 _ hmem) (by decide)
  exact lines_of_not_mem (by simp [sacctText, hid', hstate', hreason]) (by simp [sacctText])

end Row

/-! ## 2. The parsers on one row -/

theorem not_blank_of_isDigit {c : Char} (h : c.isDigit = true) : isWhitespace c = false := by
  simp only [Char.isDigit, Bool.and_eq_true, decide_eq_true_eq, UInt32.le_iff_toNat_le,
    ge_iff_le] at h
  have hzero : '0'.val.toNat = 48 := rfl
  have hnine : '9'.val.toNat = 57 := rfl
  have hn : c.toNat = c.val.toNat := rfl
  simp only [isWhitespace, Bool.or_eq_false_iff, Bool.and_eq_false_iff, decide_eq_false_iff_not,
    beq_eq_false_iff_ne]
  omega

theorem isWord_decimal (n : Nat) : IsWord (decimal n) :=
  ⟨decimal_ne_nil n, fun _ hc => not_blank_of_isDigit (isDigit_of_mem_decimal hc)⟩

theorem isWord_taskKey (master : JobId) (idx : TaskIndex) : IsWord (taskKey master idx) := by
  refine ⟨by simp [taskKey], fun c hc => ?_⟩
  rcases List.mem_append.mp hc with h | h
  · exact (isWord_decimal _).2 c h
  · rcases List.mem_cons.mp h with rfl | h
    · rfl
    · exact (isWord_decimal _).2 c h

section Parsers

variable {state reason : Str} (hstate : StateToken state) (hbar : '|' ∉ reason)
  (hline : '\n' ∉ reason)

include hstate hline

theorem parseSqueue_squeueText (j : JobId) :
    parseSqueue (squeueText (decimal j.toNat) state reason) j =
      some (squeueStatusOf state reason) := by
  have hid := isWord_decimal j.toNat
  have hrow : squeueRow (squeueText (decimal j.toNat) state reason) =
      some (j, squeueStatusOf state reason) :=
    squeueRow_eq_some.mpr
      ⟨_, _, _, splitWhitespace_squeueText hid hstate.1, parseU64_decimal j, rfl⟩
  rw [parseSqueue, lines_squeueText hid hstate.1 hline, lastRows, List.foldl_cons, takeRow, hrow]
  exact Map.insert_self _ _ _

theorem parseSqueueArrayTask_squeueText (master : JobId) (idx : TaskIndex) :
    parseSqueueArrayTask (squeueText (taskKey master idx) state reason) (taskKey master idx) =
      some (squeueStatusOf state reason) := by
  have hid := isWord_taskKey master idx
  have hrow : squeueTaskRow (taskKey master idx) (squeueText (taskKey master idx) state reason) =
      some (squeueStatusOf state reason) :=
    squeueTaskRow_eq_some.mpr ⟨_, _, splitWhitespace_squeueText hid hstate.1, rfl⟩
  rw [parseSqueueArrayTask, lines_squeueText hid hstate.1 hline, List.findSome?_cons, hrow]

include hbar

theorem parseSacct_sacctText (j : JobId) :
    parseSacct (sacctText (decimal j.toNat) state reason) j =
      some (sacctStatusOf state reason) := by
  have hrow : sacctStatusRow (sacctText (decimal j.toNat) state reason) =
      some (j, sacctStatusOf state reason) := by
    unfold sacctStatusRow
    rw [splitN_sacctText (not_mem_decimal rfl) hstate.2 hbar 0]
    dsimp only
    rw [if_neg (not_mem_decimal rfl), parseU64_decimal]
    rfl
  rw [parseSacct, lines_sacctText (isWord_decimal _) hstate.1 hline, lastRows, List.foldl_cons,
    takeRow, hrow]
  exact Map.insert_self _ _ _

theorem parseSacctArrayTask_sacctText (master : JobId) (idx : TaskIndex) :
    parseSacctArrayTaskWithExitCode (sacctText (taskKey master idx) state reason)
      (taskKey master idx) = some ⟨sacctStatusOf state reason, none⟩ := by
  have hrow : sacctTaskRow (taskKey master idx) (sacctText (taskKey master idx) state reason) =
      some ⟨sacctStatusOf state reason, none⟩ := by
    unfold sacctTaskRow
    rw [splitN_sacctText (not_mem_taskKey rfl (by decide)) hstate.2 hbar 1]
    exact if_pos rfl
  rw [parseSacctArrayTaskWithExitCode, lines_sacctText (isWord_taskKey _ _) hstate.1 hline,
    List.findSome?_cons, hrow]

end Parsers

/-! ## 3. Agreement -/

/-- **squeue and sacct report the same status of a job, or of an array task, if and only if the
reason has at most one word.** -/
theorem squeue_sacct_agree_iff {state reason : Str} (hstate : StateToken state)
    (hbar : '|' ∉ reason) (hline : '\n' ∉ reason) :
    (∀ j : JobId,
      (∃ status, parseSqueue (squeueText (decimal j.toNat) state reason) j = some status ∧
        parseSacct (sacctText (decimal j.toNat) state reason) j = some status) ↔
      ∀ c ∈ trim reason, isWhitespace c = false) ∧
    ∀ (master : JobId) (idx : TaskIndex),
      (∃ status, parseSqueueArrayTask (squeueText (taskKey master idx) state reason)
          (taskKey master idx) = some status ∧
        (parseSacctArrayTaskWithExitCode (sacctText (taskKey master idx) state reason)
          (taskKey master idx)).map JobOutcome.status = some status) ↔
      ∀ c ∈ trim reason, isWhitespace c = false := by
  refine ⟨fun j => ?_, fun master idx => ?_⟩
  · rw [parseSqueue_squeueText hstate hline, parseSacct_sacctText hstate hbar hline,
      ← squeueStatusOf_eq_iff state]
    simp [eq_comm]
  · rw [parseSqueueArrayTask_squeueText hstate hline,
      parseSacctArrayTask_sacctText hstate hbar hline, ← squeueStatusOf_eq_iff state]
    simp [eq_comm]

/-- A reason of one word. -/
theorem squeue_sacct_agree_priority :
    ∃ status, parseSqueue (squeueText "7" "PENDING" "Priority") 7 = some status ∧
      parseSacct (sacctText "7" "PENDING" "Priority") 7 = some status :=
  have hstate : StateToken "PENDING" :=
    ⟨⟨by decide, no_whitespace_of_all (by decide)⟩, by decide⟩
  ((@squeue_sacct_agree_iff "PENDING" "Priority" hstate (by decide) (by decide)).1 7).mpr
    (no_whitespace_of_all (by decide +kernel))

/-- A reason of two words is cut by squeue's parser, which takes `Nodes` for the whole of it. -/
theorem squeue_sacct_disagree :
    ¬ ∃ status, parseSqueue (squeueText "7" "PENDING" "Nodes down") 7 = some status ∧
      parseSacct (sacctText "7" "PENDING" "Nodes down") 7 = some status := by
  rintro ⟨status, hsqueue, hsacct⟩
  have hcut : parseSqueue (squeueText "7" "PENDING" "Nodes down") 7 =
      some ⟨.pending, .other "Nodes"⟩ := by decide +kernel
  have hwhole : parseSacct (sacctText "7" "PENDING" "Nodes down") 7 =
      some ⟨.pending, .other "Nodes down"⟩ := by decide +kernel
  rw [hsqueue] at hcut
  rw [hsacct, hcut] at hwhole
  exact absurd hwhole (by decide)

end Sbatch

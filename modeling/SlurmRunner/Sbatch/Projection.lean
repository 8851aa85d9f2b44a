/-
# Listings as seen from one job

A handle is served a listing with the rows of many jobs.  What each parser of a listing says of one
job or array task depends on the lines whose id column is that job or task, so that the other lines
may be anything: rows of other jobs, step rows, headers.
-/
import SlurmRunner.Sbatch.Runner

namespace Sbatch

open Text Slurm

/-! ## 1. Id columns -/

/-- The first word of a squeue row. -/
def squeueIdColumn (line : Str) : Option Str := (splitWhitespace line).head?

/-- What comes before the first bar of a sacct row. -/
def sacctIdColumn (line : Str) : Str := line.takeWhile (· ≠ '|')

/-- The third word of a qgroup row, without the dividers. -/
def qgroupIdColumn (line : Str) : Option Str :=
  ((splitWhitespace line).filter (· ≠ ("|" : Str)))[2]?

/-- The job of a squeue row. -/
def squeueJob (line : Str) : Option JobId := (squeueIdColumn line).bind parseU64

/-- The job of a sacct row. -/
def sacctJob (line : Str) : Option JobId := parseU64 (sacctIdColumn line)

/-- The job of a qgroup row. -/
def qgroupJob (line : Str) : Option JobId := (qgroupIdColumn line).bind parseU64

theorem ne_bar_of_not_mem {a : Str} (h : '|' ∉ a) {c : Char} (hc : c ∈ a) :
    decide (c ≠ '|') = true := by
  rw [decide_eq_true_eq]
  rintro rfl
  exact h hc

/-- The id column comes first, however many pieces are asked for. -/
theorem splitN_bar (n : Nat) (line : Str) :
    ∃ rest, splitN '|' (n + 2) line = sacctIdColumn line :: rest := by
  rw [splitN]
  split
  · rename_i hnone
    have hline : sacctIdColumn line = line := by
      refine List.takeWhile_eq_self_iff.mpr fun c hc => ?_
      exact ne_bar_of_not_mem (splitOnce_eq_none_iff.mp hnone) hc
    exact ⟨[], by rw [hline]⟩
  · rename_i a b hsome
    obtain ⟨rfl, ha⟩ := splitOnce_eq_some_iff.mp hsome
    have hcolumn : sacctIdColumn (a ++ '|' :: b) = a := by
      unfold sacctIdColumn
      rw [List.takeWhile_append_of_pos, List.takeWhile_cons_of_neg (by simp), List.append_nil]
      exact fun c hc => ne_bar_of_not_mem ha hc
    exact ⟨splitN '|' (n + 1) b, by rw [hcolumn]⟩

/-! ## 2. A row is about the job of its column -/

theorem squeueJob_of_row {line : Str} {k : JobId} {v : JobStatus}
    (h : squeueRow line = some (k, v)) : squeueJob line = some k := by
  obtain ⟨id, st, rest, hwords, hk, -⟩ := squeueRow_eq_some.mp h
  simp [squeueJob, squeueIdColumn, hwords, hk]

theorem squeueIdColumn_of_row {key line : Str} {v : JobStatus}
    (h : squeueTaskRow key line = some v) : squeueIdColumn line = some key := by
  obtain ⟨st, rest, hwords, -⟩ := squeueTaskRow_eq_some.mp h
  simp [squeueIdColumn, hwords]

/-- The job of a sacct row with `n + 2` columns, which is no step. -/
theorem sacctJob_of_pieces {n : Nat} {line id : Str} {rest : List Str} {V : Type} {v v' : V}
    {k : JobId} (hpieces : splitN '|' (n + 2) line = id :: rest)
    (h : (if '.' ∈ id then none else (parseU64 id).map fun jid => (jid, v)) = some (k, v')) :
    sacctJob line = some k ∧ '.' ∉ sacctIdColumn line := by
  obtain ⟨rest', hcolumn⟩ := splitN_bar n line
  rw [hcolumn] at hpieces
  obtain ⟨hid, -⟩ := List.cons.inj hpieces
  split at h
  · cases h
  rename_i hdot
  obtain ⟨jid, hjid, heq⟩ := Option.map_eq_some_iff.mp h
  cases heq
  rw [← hid] at hdot hjid
  exact ⟨hjid, hdot⟩

theorem sacctJob_of_statusRow {line : Str} {k : JobId} {v : JobStatus}
    (h : sacctStatusRow line = some (k, v)) :
    sacctJob line = some k ∧ '.' ∉ sacctIdColumn line := by
  unfold sacctStatusRow at h
  split at h
  · rename_i hpieces
    exact sacctJob_of_pieces hpieces h
  · cases h

theorem sacctJob_of_row {line : Str} {k : JobId} {v : JobOutcome}
    (h : sacctRow line = some (k, v)) : sacctJob line = some k ∧ '.' ∉ sacctIdColumn line := by
  unfold sacctRow at h
  split at h
  · rename_i hpieces
    exact sacctJob_of_pieces hpieces h
  · cases h

theorem sacctIdColumn_of_row {key line : Str} {v : JobOutcome}
    (h : sacctTaskRow key line = some v) : sacctIdColumn line = key := by
  unfold sacctTaskRow at h
  split at h
  · rename_i id st rest hpieces
    obtain ⟨rest', hcolumn⟩ := splitN_bar 2 line
    rw [hcolumn] at hpieces
    obtain ⟨hid, -⟩ := List.cons.inj hpieces
    split at h
    · rename_i hkey
      exact hid.trans hkey
    · cases h
  · cases h

theorem qgroupJob_of_row {line : Str} {k : JobId} {v : JobStatus}
    (h : qgroupRow line = some (k, v)) : qgroupJob line = some k := by
  unfold qgroupRow at h
  split at h
  · rename_i hwords
    split at h
    · rename_i hk
      split at h
      · cases h
      · cases h
        rw [qgroupJob, qgroupIdColumn, hwords]
        exact hk
    · cases h
  · cases h

/-! ## 3. Step rows -/

/-- An id with a dot is that of a step, and of no job. -/
theorem row_of_dot {V : Type} {row : Str → Option (JobId × V)} {column : Str → Option Str}
    {line id : Str} (hrow : ∀ k v, row line = some (k, v) → (column line).bind parseU64 = some k)
    (hid : column line = some id) (hdot : '.' ∈ id) : row line = none := by
  refine Option.eq_none_iff_forall_ne_some.mpr ?_
  rintro ⟨k, v⟩ h
  have hjob := hrow k v h
  rw [hid, Option.bind_some, parseU64_eq_none hdot rfl (by decide)] at hjob
  cases hjob

/-! ## 4. Projection -/

/-- Two texts have the same lines about the key, in the same order. -/
def SameLines {K : Type} [DecidableEq K] (column : Str → Option K) (k : K) (text text' : Str) :
    Prop :=
  linesOf column k (lines text) = linesOf column k (lines text')

instance {K : Type} [DecidableEq K] (column : Str → Option K) (k : K) (text text' : Str) :
    Decidable (SameLines column k text text') :=
  inferInstanceAs (Decidable (linesOf column k (lines text) = linesOf column k (lines text')))

section

variable {K V : Type} [DecidableEq K] {column : Str → Option K} {k : K} {text text' : Str}

/-- A map agrees on a key if the lines of the key do. -/
theorem lastRows_congr {row : Str → Option (K × V)}
    (h : ∀ l k v, row l = some (k, v) → column l = some k) (hsame : SameLines column k text text') :
    lastRows row (lines text) k = lastRows row (lines text') k := by
  rw [← lastRows_linesOf h k (lines text), hsame, lastRows_linesOf h]

/-- A search agrees if the lines of the key do. -/
theorem findSome?_congr {f : Str → Option V} (h : ∀ l v, f l = some v → column l = some k)
    (hsame : SameLines column k text text') :
    (lines text).findSome? f = (lines text').findSome? f := by
  rw [← findSome?_linesOf h (lines text), hsame, findSome?_linesOf h]

end

/-- **A listing is read by projection**: two texts that have the same lines about a job, or about an
array task, in the same order are read alike there, whatever their other lines are.  A step row is
no row of any job or task. -/
theorem listing_projection (text text' : Str) :
    (∀ k, SameLines squeueJob k text text' → parseSqueue text k = parseSqueue text' k) ∧
      (∀ k, SameLines sacctJob k text text' → parseSacct text k = parseSacct text' k ∧
        parseSacctWithExitCode text k = parseSacctWithExitCode text' k) ∧
      (∀ k, SameLines qgroupJob k text text' → parseQgroupL text k = parseQgroupL text' k) ∧
      (∀ key, SameLines squeueIdColumn key text text' →
        parseSqueueArrayTask text key = parseSqueueArrayTask text' key) ∧
      (∀ key, SameLines (fun line => some (sacctIdColumn line)) key text text' →
        parseSacctArrayTaskWithExitCode text key = parseSacctArrayTaskWithExitCode text' key) ∧
      (∀ line, '.' ∈ sacctIdColumn line → sacctStatusRow line = none ∧ sacctRow line = none ∧
        ∀ master idx, sacctTaskRow (taskKey master idx) line = none) ∧
      (∀ line id, squeueIdColumn line = some id → '.' ∈ id → squeueRow line = none ∧
        ∀ master idx, squeueTaskRow (taskKey master idx) line = none) ∧
      ∀ line id, qgroupIdColumn line = some id → '.' ∈ id → qgroupRow line = none := by
  refine ⟨?_, ?_, ?_, ?_, ?_, ?_, ?_, ?_⟩
  · intro k hsame
    exact lastRows_congr (fun _ _ _ => squeueJob_of_row) hsame
  · intro k hsame
    exact ⟨lastRows_congr (fun _ _ _ h => (sacctJob_of_statusRow h).1) hsame,
      lastRows_congr (fun _ _ _ h => (sacctJob_of_row h).1) hsame⟩
  · intro k hsame
    exact lastRows_congr (fun _ _ _ => qgroupJob_of_row) hsame
  · intro key hsame
    exact findSome?_congr (fun _ _ => squeueIdColumn_of_row) hsame
  · intro key hsame
    exact findSome?_congr (fun _ _ h => congrArg some (sacctIdColumn_of_row h)) hsame
  · intro line hdot
    refine ⟨?_, ?_, fun master idx => ?_⟩
    · exact Option.eq_none_iff_forall_ne_some.mpr fun v h => (sacctJob_of_statusRow h).2 hdot
    · exact Option.eq_none_iff_forall_ne_some.mpr fun v h => (sacctJob_of_row h).2 hdot
    · refine Option.eq_none_iff_forall_ne_some.mpr fun v h => ?_
      rw [sacctIdColumn_of_row h] at hdot
      exact not_mem_taskKey rfl (by decide) hdot
  · intro line id hid hdot
    refine ⟨row_of_dot (fun _ _ => squeueJob_of_row) hid hdot, fun master idx => ?_⟩
    refine Option.eq_none_iff_forall_ne_some.mpr fun v h => ?_
    rw [squeueIdColumn_of_row h] at hid
    cases hid
    exact not_mem_taskKey rfl (by decide) hdot
  · intro line id hid hdot
    exact row_of_dot (fun _ _ => qgroupJob_of_row) hid hdot

/-- The rows of job 7 in a batched listing are read as if they were alone. -/
theorem listing_projection_batched :
    parseSacct "6|RUNNING|None
7|PENDING|Priority
7.batch|FAILED|None
7|COMPLETED|None
" 7 =
      parseSacct "7|PENDING|Priority
7|COMPLETED|None
" 7 :=
  ((listing_projection _ _).2.1 7 (by decide +kernel)).1

end Sbatch

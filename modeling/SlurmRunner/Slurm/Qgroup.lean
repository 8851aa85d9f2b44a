/-
# The sections of a `qgroup -l` listing

The listing has a summary of the queues, a summary of the users and the rows of the jobs.  The
parser knows no sections and takes the third word of any line for a job id.  That word is the
running count in the summary of the queues.
-/
import SlurmRunner.Slurm.Listing

namespace Slurm

open Text

/-! ## 1. The rows of the sections

The words of a row, for each of the sections.  In a row of a job the third word is its id. -/

/-- A column divider. -/
def divider : Str := "|"

/-- `QUEUE SYS | RUN PEND OTHER | ...`, with the words after the second divider. -/
structure QueueRow where
  queue : Str
  sys : Str
  run : Nat
  pend : Nat
  other : Nat
  rest : List Str
  queue_ne : queue ≠ divider
  sys_ne : sys ≠ divider

/-- `QUEUE USER | RUN(ALLOC) ...`: a bracket follows the count, and anything may follow that. -/
structure UserRow where
  queue : Str
  user : Str
  run : Nat
  alloc : Str
  rest : List Str
  queue_ne : queue ≠ divider
  user_ne : user ≠ divider

/-- `QUEUE USER JOBID | STAT ...`. -/
structure DetailRow where
  queue : Str
  user : Str
  jobid : JobId
  stat : Str
  rest : List Str
  queue_ne : queue ≠ divider
  user_ne : user ≠ divider
  jobid_ne : jobid ≠ 0
  stat_ne : stat ≠ divider

/-- The words of a row. -/
def QueueRow.words (r : QueueRow) : List Str :=
  [r.queue, r.sys, divider, decimal r.run, decimal r.pend, decimal r.other, divider] ++ r.rest

def UserRow.words (r : UserRow) : List Str :=
  [r.queue, r.user, divider, decimal r.run ++ '(' :: r.alloc] ++ r.rest

def DetailRow.words (r : DetailRow) : List Str :=
  [r.queue, r.user, decimal r.jobid.toNat, divider, r.stat] ++ r.rest

/-- What the row says of its job. -/
def DetailRow.status (r : DetailRow) : JobStatus := ⟨.parse r.stat, .none⟩

/-! ## 2. The listing

A listing as the program prints it: the rows of the three sections. -/

structure QgroupOutput where
  queues : List QueueRow
  users : List UserRow
  jobs : List DetailRow

def queueHeader : List Str :=
  ["QUEUE", "SYS", "|", "RUN", "PEND", "OTHER", "|", "ALLOC", "(", "MIN/", "STD/", "MAX)"]

def userHeader : List Str :=
  ["QUEUE", "USER", "|", "RUN(ALLOC)", "PEND(REQUEST)", "OTHER(REQUEST)"]

def detailHeader : List Str :=
  ["QUEUE", "USER", "JOBID", "|", "STAT", "SUBMIT_AT", "|", "RSC:core", "|", "PROC", "CORE", "MEM",
    "ELAPSE"]

/-- A line of dashes. -/
def rule (n : Nat) : List Str := [List.replicate n '-']

namespace QgroupOutput

/-- The words of the lines, with rules of any widths. -/
def rows (o : QgroupOutput) (n₁ n₂ n₃ : Nat) : List (List Str) :=
  queueHeader :: rule n₁ :: o.queues.map QueueRow.words ++
    [] :: userHeader :: rule n₂ :: o.users.map UserRow.words ++
    [] :: detailHeader :: rule n₃ :: o.jobs.map DetailRow.words

/-- The text shows the listing, whatever the spacing. -/
def Shows (o : QgroupOutput) (text : Str) : Prop :=
  ∃ n₁ n₂ n₃, (lines text).map splitWhitespace = o.rows n₁ n₂ n₃

/-- What the detail rows say of each job: the last row of a job counts. -/
def details (o : QgroupOutput) : Map JobId JobStatus :=
  fun k => ((o.jobs.filter fun r => r.jobid = k).getLast?).map DetailRow.status

end QgroupOutput

/-! ## 3. What a line is taken for

The parser does not look at the sections: a line is taken for a job by its words alone. -/

/-- The words without the dividers. -/
def dropDividers (words : List Str) : List Str := words.filter (· ≠ divider)

@[simp] theorem dropDividers_divider (words : List Str) :
    dropDividers (divider :: words) = dropDividers words :=
  List.filter_cons_of_neg (by simp)

theorem dropDividers_cons {w : Str} (h : w ≠ divider) (words : List Str) :
    dropDividers (w :: words) = w :: dropDividers words :=
  List.filter_cons_of_pos (by simpa using h)

/-- The row of a line, from its words. -/
def rowOfWords (words : List Str) : Option (JobId × JobStatus) :=
  match dropDividers words with
  | _queue :: _user :: jobidStr :: stateStr :: _ =>
    match parseU64 jobidStr with
    | some jobid => if jobid = 0 then none else some (jobid, ⟨.parse stateStr, .none⟩)
    | none => none
  | _ => none

theorem qgroupRow_eq (line : Str) : qgroupRow line = rowOfWords (splitWhitespace line) := rfl

/-- No header is taken for a job. -/
theorem rowOfWords_headers : rowOfWords queueHeader = none ∧ rowOfWords userHeader = none ∧
    rowOfWords detailHeader = none := by decide +kernel

/-- And no rule. -/
theorem rowOfWords_rule (n : Nat) : rowOfWords (rule n) = none := by
  unfold rowOfWords rule dropDividers
  rw [List.filter_singleton]
  cases decide (List.replicate n '-' ≠ divider) <;> rfl

theorem decimal_ne_divider (n : Nat) : decimal n ≠ divider := by
  intro h
  have hbar : '|' ∈ decimal n := by simp [h, divider]
  exact not_mem_decimal rfl hbar

/-- **A row of the users is no row**: its third word has a bracket. -/
theorem UserRow.rowOfWords_words (r : UserRow) : rowOfWords r.words = none := by
  have hword : decimal r.run ++ '(' :: r.alloc ≠ divider := by
    intro h
    have hbracket : '(' ∈ divider := by simp [← h]
    exact absurd hbracket (by decide)
  have hwords : dropDividers r.words =
      r.queue :: r.user :: (decimal r.run ++ '(' :: r.alloc) :: dropDividers r.rest := by
    simp only [words, List.cons_append, List.nil_append, dropDividers_divider,
      dropDividers_cons r.queue_ne, dropDividers_cons r.user_ne, dropDividers_cons hword]
  have hbracket : '(' ∈ decimal r.run ++ '(' :: r.alloc := by simp
  rw [rowOfWords, hwords]
  cases dropDividers r.rest with
  | nil => rfl
  | cons state rest => simp only [parseU64_eq_none hbracket rfl (by decide)]

/-- **A row of the queues is taken for one of the job with the number of its running jobs**, unless
that is no id. -/
theorem QueueRow.rowOfWords_words (r : QueueRow) : rowOfWords r.words =
    (parseU64 (decimal r.run)).bind fun j =>
      if j = 0 then none else some (j, ⟨.parse (decimal r.pend), .none⟩) := by
  have hwords : dropDividers r.words = r.queue :: r.sys :: decimal r.run :: decimal r.pend ::
      decimal r.other :: dropDividers r.rest := by
    simp only [words, List.cons_append, List.nil_append, dropDividers_divider,
      dropDividers_cons r.queue_ne, dropDividers_cons r.sys_ne,
      dropDividers_cons (decimal_ne_divider _)]
  rw [rowOfWords, hwords]
  dsimp only
  cases parseU64 (decimal r.run) <;> rfl

/-- **A row of a job is its row.** -/
theorem DetailRow.rowOfWords_words (r : DetailRow) :
    rowOfWords r.words = some (r.jobid, r.status) := by
  have hwords : dropDividers r.words =
      r.queue :: r.user :: decimal r.jobid.toNat :: r.stat :: dropDividers r.rest := by
    simp only [words, List.cons_append, List.nil_append, dropDividers_divider,
      dropDividers_cons r.queue_ne, dropDividers_cons r.user_ne, dropDividers_cons r.stat_ne,
      dropDividers_cons (decimal_ne_divider _)]
  rw [rowOfWords, hwords]
  dsimp only
  rw [parseU64_decimal]
  dsimp only
  rw [if_neg r.jobid_ne]
  rfl

/-! ## 4. What the listing is taken for

The details of a job come from its own rows, unless the summary of a queue is taken for one of
them. -/

/-- The value that the words of a line give to the job `k`. -/
def valueOf (k : JobId) (words : List Str) : Option JobStatus :=
  (rowOfWords words).bind fun kv => if kv.1 = k then some kv.2 else none

/-- The parser looks at the words of the lines only. -/
theorem parseQgroupL_apply (text : Str) (k : JobId) :
    parseQgroupL text k = (((lines text).map splitWhitespace).filterMap (valueOf k)).getLast? := by
  rw [parseQgroupL, lastRows_apply, rowsOf, List.filterMap_map]
  simp only [qgroupRow_eq]
  rfl

/-- A line that is no row has nothing of any job. -/
theorem valueOf_of_none {words : List Str} (h : rowOfWords words = none) (k : JobId) :
    valueOf k words = none := by
  rw [valueOf, h, Option.bind_none]

/-- A queue gives a value to the job with the number of its running jobs, and to no other. -/
theorem QueueRow.exists_valueOf {r : QueueRow} {k : JobId} :
    (∃ v, valueOf k r.words = some v) ↔ k ≠ 0 ∧ r.run = k.toNat := by
  simp only [valueOf, r.rowOfWords_words, Option.bind_eq_some_iff]
  constructor
  · rintro ⟨v, ⟨j, v'⟩, ⟨j', hj', hrow⟩, hk⟩
    dsimp only at hk
    split at hrow
    · cases hrow
    · rename_i hne
      cases hrow
      split at hk
      · rename_i heq
        exact heq ▸ ⟨hne, parseU64_decimal_iff.mp hj'⟩
      · cases hk
  · rintro ⟨hne, hrun⟩
    exact ⟨_, _, ⟨k, parseU64_decimal_iff.mpr hrun, if_neg hne⟩, if_pos rfl⟩

namespace QgroupOutput

variable {o : QgroupOutput} {text : Str}

/-- The values that the queues give to a job. -/
def queueValues (o : QgroupOutput) (k : JobId) : List JobStatus :=
  o.queues.filterMap fun q => valueOf k q.words

/-- The values that a listing gives to a job: those of the queues, then those of its rows. -/
theorem filterMap_rows (o : QgroupOutput) (n₁ n₂ n₃ : Nat) (k : JobId) :
    (o.rows n₁ n₂ n₃).filterMap (valueOf k) =
      o.queueValues k ++ (o.jobs.filter fun r => r.jobid = k).map DetailRow.status := by
  obtain ⟨hqueue, huser, hdetail⟩ := rowOfWords_headers
  have hblank : rowOfWords [] = none := rfl
  have hqueues : (o.queues.map QueueRow.words).filterMap (valueOf k) = o.queueValues k :=
    List.filterMap_map
  have husers : (o.users.map UserRow.words).filterMap (valueOf k) = [] := by
    rw [List.filterMap_eq_nil_iff]
    intro words hwords
    obtain ⟨r, -, rfl⟩ := List.mem_map.mp hwords
    exact valueOf_of_none r.rowOfWords_words k
  have hjobs : (o.jobs.map DetailRow.words).filterMap (valueOf k) =
      (o.jobs.filter fun r => r.jobid = k).map DetailRow.status := by
    rw [List.filterMap_map, ← List.filterMap_eq_map, List.filterMap_filter]
    refine List.filterMap_congr fun r _ => ?_
    simp [valueOf, r.rowOfWords_words]
  rw [rows, List.filterMap_append, List.filterMap_append,
    List.filterMap_cons_none (valueOf_of_none hqueue k),
    List.filterMap_cons_none (valueOf_of_none (rowOfWords_rule n₁) k), hqueues,
    List.filterMap_cons_none (valueOf_of_none hblank k),
    List.filterMap_cons_none (valueOf_of_none huser k),
    List.filterMap_cons_none (valueOf_of_none (rowOfWords_rule n₂) k), husers,
    List.filterMap_cons_none (valueOf_of_none hblank k),
    List.filterMap_cons_none (valueOf_of_none hdetail k),
    List.filterMap_cons_none (valueOf_of_none (rowOfWords_rule n₃) k), hjobs, List.append_nil]

/-- **What the parser makes of a listing**: a job without a row of its own has what the queues
give. -/
theorem Shows.parse_eq (h : o.Shows text) (k : JobId) :
    parseQgroupL text k = (o.details k).or (o.queueValues k).getLast? := by
  obtain ⟨n₁, n₂, n₃, hrows⟩ := h
  rw [parseQgroupL_apply, hrows, filterMap_rows, List.getLast?_append, List.getLast?_map]
  rfl

theorem details_eq_none {k : JobId} : o.details k = none ↔ ∀ r ∈ o.jobs, r.jobid ≠ k := by
  simp [details]

/-- **Only the detail rows count if and only if every running count is zero, or no id, or the id of
a listed job**, whose row comes later and replaces what the count has put there. -/
theorem qgroup_details_iff {o : QgroupOutput} {text : Str} (h : o.Shows text) :
    parseQgroupL text = o.details ↔
      ∀ q ∈ o.queues, q.run = 0 ∨ 2 ^ 64 ≤ q.run ∨ ∃ r ∈ o.jobs, r.jobid.toNat = q.run := by
  constructor
  · intro heq q hq
    by_contra hcount
    simp only [not_or, not_le, not_exists, not_and] at hcount
    obtain ⟨hzero, hlt, hjobs⟩ := hcount
    have hrun : q.run = (UInt64.ofNat q.run).toNat := (UInt64.toNat_ofNat_of_lt' hlt).symm
    have hne : UInt64.ofNat q.run ≠ 0 := by
      intro h0
      rw [h0] at hrun
      exact hzero hrun
    -- its count is read as the id of a job that has no row
    obtain ⟨v, hv⟩ := QueueRow.exists_valueOf.mpr ⟨hne, hrun⟩
    have hvalues : o.queueValues (UInt64.ofNat q.run) ≠ [] :=
      List.ne_nil_of_mem (List.mem_filterMap.mpr ⟨q, hq, hv⟩)
    have hdetails : o.details (UInt64.ofNat q.run) = none := by
      refine details_eq_none.mpr fun r hr hid => hjobs r hr ?_
      rw [hid]
      exact hrun.symm
    have hparse := h.parse_eq (UInt64.ofNat q.run)
    rw [heq, hdetails, Option.none_or, eq_comm, List.getLast?_eq_none_iff] at hparse
    exact hvalues hparse
  · intro hcounts
    funext k
    rw [h.parse_eq]
    cases hdetails : o.details k with
    | some status => rfl
    | none =>
      rw [Option.none_or, List.getLast?_eq_none_iff, queueValues, List.filterMap_eq_nil_iff]
      intro q hq
      refine Option.eq_none_iff_forall_ne_some.mpr fun v hv => ?_
      obtain ⟨hne, hrun⟩ := QueueRow.exists_valueOf.mp ⟨v, hv⟩
      rcases hcounts q hq with hzero | hlarge | ⟨r, hr, hid⟩
      · rw [hzero] at hrun
        exact hne (UInt64.toNat_inj.mp hrun.symm)
      · have hlt := k.toNat_lt
        omega
      · refine details_eq_none.mp hdetails r hr ?_
        exact UInt64.toNat_inj.mp (hid.trans hrun)

/-- A listing with one queue, which has `run` running jobs, and the row of one job. -/
def oneQueue (run : Nat) : QgroupOutput where
  queues := [⟨"gr10641a", "A", run, 0, 1, ["0"], by decide, by decide⟩]
  users := [⟨"gr10641a", "b39027", run, "0)", [], by decide, by decide⟩]
  jobs := [⟨"gr10641a", "b39027", 7519503, "FINI", ["|", "1"], by decide, by decide, by decide,
    by decide⟩]

/-- The listing of `oneQueue 0`, or of `oneQueue 3`. -/
def oneQueueText (run : Str) : Str :=
  " QUEUE SYS | RUN PEND OTHER | ALLOC ( MIN/ STD/ MAX)\n---\n".toList ++
    " gr10641a A | ".toList ++ run ++ " 0 1 | 0\n\n".toList ++
    " QUEUE USER | RUN(ALLOC) PEND(REQUEST) OTHER(REQUEST)\n---\n".toList ++
    " gr10641a b39027 | ".toList ++ run ++ "(0)\n\n".toList ++
    " QUEUE USER JOBID | STAT SUBMIT_AT | RSC:core | PROC CORE MEM ELAPSE\n---\n".toList ++
    " gr10641a b39027 7519503 | FINI | 1\n".toList

/-- Nothing runs in the queue. -/
theorem qgroup_details_idle : parseQgroupL (oneQueueText "0") = (oneQueue 0).details :=
  (qgroup_details_iff ⟨3, 3, 3, by decide +kernel⟩).mpr (by simp [oneQueue])

/-- Three jobs run in the queue, which makes a job 3 out of them. -/
theorem qgroup_fabricates :
    (oneQueue 3).Shows (oneQueueText "3") ∧
      parseQgroupL (oneQueueText "3") ≠ (oneQueue 3).details := by
  refine ⟨⟨3, 3, 3, by decide +kernel⟩, fun heq => ?_⟩
  have hparse : parseQgroupL (oneQueueText "3") 3 = some ⟨.unknown, .none⟩ := by decide +kernel
  have hdetails : (oneQueue 3).details 3 = none := by decide +kernel
  rw [heq, hdetails] at hparse
  cases hparse

end QgroupOutput

end Slurm

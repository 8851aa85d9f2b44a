/-
# A frozen scheduler

While nothing happens to the jobs, every status command prints from the same rows: a squeue or sacct
query prints exactly the rows of the keys it lists.  What such a listing says about one job does not
depend on the other keys of the query, so a cached answer says of a job what its own query would
have said.
-/
import SlurmRunner.Sbatch.Session
import SlurmRunner.Sbatch.Evidence

namespace Sbatch

open Text Slurm Interact

/-! ## 1. Listings of a scheduler

A scheduler at one moment: which rows squeue and sacct have for which keys, and what the qgroup
listing shows.  A row may come with columns of any width, and a listing with rows of other jobs and
lines that are no rows. -/

/-- A `-j` list asks for the row of key `k`: the key is in it, or the job id of its array is. -/
def Lists (batch : List JobKey) (k : JobKey) : Prop :=
  k ∈ batch ∨ ∃ master idx, k = .arrayTask master idx ∧ .plain master ∈ batch

/-- The text has exactly the rows that the `-j` list asks for, in any order, and `extra` lines. -/
structure Printed (rows : JobKey → Option Str) (extra : Str → Prop) (batch : List JobKey)
    (text : Str) : Prop where
  sound : ∀ line ∈ lines text, extra line ∨ ∃ k, Lists batch k ∧ rows k = some line
  complete : ∀ k row, Lists batch k → rows k = some row → row ∈ lines text

/-- The state of a scheduler: the row that squeue and sacct print for each key, and the `qgroup -l`
listing, `none` if that command fails. -/
structure Scheduler where
  squeue : JobKey → Option Str
  sacct : JobKey → Option Str
  qgroup : Option Str
  squeue_key : ∀ k row, squeue k = some row → (splitWhitespace row).head? = some k.display
  sacct_key : ∀ k row, sacct k = some row → (splitN '|' 4 row).head? = some k.display

/-- A row of a job step: its id column has a dot. -/
def IsStep (line : Str) : Prop := ∃ id, (splitN '|' 4 line).head? = some id ∧ '.' ∈ id

namespace Scheduler

variable (F : Scheduler)

/-- What a squeue query for `batch` returns: the rows, or the vanish signal where the only key has
none. -/
def SqueueOutput (batch : List JobKey) (out : CaptureOutput) : Prop :=
  (out.exitCode = 0 ∧ Printed F.squeue (fun _ => False) batch out.stdout) ∨
    (out.exitCode ≠ 0 ∧ contains "Invalid job id specified" out.stderr = true ∧
      ∃ k, batch = [k] ∧ ∀ k', Lists [k] k' → F.squeue k' = none)

/-- What a sacct query for `batch` returns. -/
def SacctOutput (batch : List JobKey) (out : CaptureOutput) : Prop :=
  out.exitCode = 0 ∧ Printed F.sacct IsStep batch out.stdout

/-- What `qgroup -l` returns. -/
def QgroupAnswer (r : Answer) : Prop :=
  match F.qgroup with
  | some text => ∃ out, r = .ok out ∧ out.exitCode = 0 ∧ out.stdout = text
  | none => ∀ out, r = .ok out → out.exitCode ≠ 0

/-- The scheduler gave the command its answer. -/
structure Answers (c : Call) : Prop where
  squeue : ∀ batch, squeueSummaryShape.parse c.argv = some batch →
    ∃ out, c.result = .ok out ∧ F.SqueueOutput batch out
  sacct : ∀ batch, sacctExitCodeShape.parse c.argv = some batch →
    ∃ out, c.result = .ok out ∧ F.SacctOutput batch out
  qgroup : c.argv = qgroupArgv → F.QgroupAnswer c.result

/-- What the scheduler says about a key. -/
def squeueStatus (k : JobKey) : Option JobStatus := (F.squeue k).bind (squeueTaskRow k.display)

def sacctOutcome (k : JobKey) : Option JobOutcome := (F.sacct k).bind (sacctTaskRow k.display)

def qgroupStatus (j : JobId) : Option JobStatus := F.qgroup.bind fun text => parseQgroupL text j

end Scheduler

/-! ## 2. What a listing says about one key

A listing of a batch of keys and one of a single key have the same row for this key.  So a parser
that goes by the row of a key, the first one or the last one, finds the same in both. -/

section Listing

variable {V : Type} {rows : JobKey → Option Str} {extra : Str → Prop} {batch : List JobKey}
  {text : Str}

/-- The map of a listing says of a job id what its row says. -/
theorem Printed.lastRows (h : Printed rows extra batch text) {row : Str → Option (JobId × V)}
    {one : Str → Str → Option V} {j : JobId} (hextra : ∀ line, extra line → row line = none)
    (hrow : ∀ k line, rows k = some line → ∀ v,
      row line = some (j, v) ↔ k = .plain j ∧ one k.display line = some v)
    (hj : .plain j ∈ batch) :
    Text.lastRows row (lines text) j = (rows (.plain j)).bind (one (JobKey.plain j).display) := by
  have hline : ∀ line ∈ lines text, ∀ v, row line = some (j, v) →
      rows (.plain j) = some line ∧ one (JobKey.plain j).display line = some v := by
    intro line hl v hv
    rcases h.sound line hl with he | ⟨k, -, hk⟩
    · cases (hextra line he).symm.trans hv
    · obtain ⟨rfl, hone⟩ := (hrow k line hk v).mp hv
      exact ⟨hk, hone⟩
  cases hbind : (rows (.plain j)).bind (one (JobKey.plain j).display) with
  | none =>
    refine lastRows_eq_none.mpr fun line hl v hv => ?_
    obtain ⟨hk, hone⟩ := hline line hl v hv
    rw [hk, Option.bind_some, hone] at hbind
    cases hbind
  | some v =>
    obtain ⟨line, hk, hone⟩ := Option.bind_eq_some_iff.mp hbind
    refine lastRows_eq_some ⟨line, h.complete _ _ (.inl hj) hk, (hrow _ line hk v).mpr ⟨rfl, hone⟩⟩
      fun l hl v' hv' => ?_
    obtain ⟨hk', hone'⟩ := hline l hl v' hv'
    cases hk.symm.trans hk'
    cases hone.symm.trans hone'
    rfl

/-- The first row of a key in a listing is its row. -/
theorem Printed.findSome (h : Printed rows extra batch text) {one : Str → Str → Option V}
    {k : JobKey} (hextra : ∀ line, extra line → one k.display line = none)
    (hrow : ∀ k' line, rows k' = some line → ∀ v, one k.display line = some v → k' = k)
    (hk : Lists batch k) :
    (lines text).findSome? (one k.display) = (rows k).bind (one k.display) := by
  have hline : ∀ line ∈ lines text, ∀ v, one k.display line = some v → rows k = some line := by
    intro line hl v hv
    rcases h.sound line hl with he | ⟨k', -, hk'⟩
    · cases (hextra line he).symm.trans hv
    · exact hrow k' line hk' v hv ▸ hk'
  cases hfind : (lines text).findSome? (one k.display) with
  | some v =>
    obtain ⟨line, hl, hv⟩ := List.exists_of_findSome?_eq_some hfind
    rw [hline line hl v hv, Option.bind_some, hv]
  | none =>
    cases hr : rows k with
    | none => rfl
    | some line =>
      exact (List.findSome?_eq_none_iff.mp hfind line (h.complete k line hk hr)).symm

end Listing

/-! ### The rows of the two commands -/

/-- An id column with an underscore in it is no job id. -/
theorem parseU64_display {k : JobKey} {j : JobId} : parseU64 k.display = some j ↔ k = .plain j := by
  cases k with
  | plain id => simp [JobKey.display]
  | arrayTask m i =>
    have hnone : parseU64 (JobKey.arrayTask m i).display = none :=
      parseU64_eq_none (List.mem_append_right _ List.mem_cons_self) rfl (by decide)
    rw [hnone]
    exact ⟨fun h => (by cases h), fun h => (by cases h)⟩

/-- The row of a key is a row of a job exactly if the key is one. -/
theorem squeueRow_key {k : JobKey} {line : Str} (hk : (splitWhitespace line).head? = some k.display)
    {j : JobId} {status : JobStatus} : squeueRow line = some (j, status) ↔
      k = .plain j ∧ squeueTaskRow k.display line = some status := by
  rw [squeueRow_eq_some, squeueTaskRow_eq_some]
  obtain ⟨tl, hsplit⟩ := List.head?_eq_some_iff.mp hk
  constructor
  · rintro ⟨id, st, rest, he, hj, rfl⟩
    cases hsplit.symm.trans he
    exact ⟨parseU64_display.mp hj, st, rest, hsplit, rfl⟩
  · rintro ⟨rfl, st, rest, he, rfl⟩
    exact ⟨_, st, rest, he, parseU64_decimal j, rfl⟩

/-- The row of a task is the row of its key only. -/
theorem squeueTaskRow_key {k k' : JobKey} {line : Str}
    (hk' : (splitWhitespace line).head? = some k'.display) {status : JobStatus}
    (h : squeueTaskRow k.display line = some status) : k' = k := by
  obtain ⟨st, rest, he, -⟩ := squeueTaskRow_eq_some.mp h
  rw [he, List.head?_cons, Option.some.injEq] at hk'
  exact (JobKey.display_injective hk').symm

/-- A key has no dot, which is how the rows of steps are told apart. -/
theorem not_mem_display (k : JobKey) : '.' ∉ k.display := by
  cases k with
  | plain id => exact not_mem_decimal rfl
  | arrayTask master index => exact not_mem_taskKey (c := '.') rfl (by decide)

/-- The first column is compared with the key as it is. -/
theorem sacctTaskRow_head {key line : Str} {oc : JobOutcome} (h : sacctTaskRow key line = some oc) :
    (splitN '|' 4 line).head? = some key := by
  unfold sacctTaskRow at h
  split at h
  · rename_i id st rest hsplit
    split at h
    · rename_i hid
      rw [hsplit, List.head?_cons, hid]
    · cases h
  · cases h

/-- The row of a key is a row of a job exactly if the key is one. -/
theorem sacctRow_key {k : JobKey} {line : Str} (hk : (splitN '|' 4 line).head? = some k.display)
    {j : JobId} {oc : JobOutcome} : sacctRow line = some (j, oc) ↔
      k = .plain j ∧ sacctTaskRow k.display line = some oc := by
  obtain ⟨tl, hsplit⟩ := List.head?_eq_some_iff.mp hk
  unfold sacctRow sacctTaskRow
  rw [hsplit]
  cases tl with
  | nil => simp
  | cons st rest =>
    simp only [if_neg (not_mem_display k), if_true, Option.map_eq_some_iff, Prod.mk.injEq,
      Option.some.injEq]
    constructor
    · rintro ⟨j', hj, rfl, rfl⟩
      exact ⟨parseU64_display.mp hj, rfl⟩
    · rintro ⟨rfl, rfl⟩
      exact ⟨j, parseU64_decimal j, rfl, rfl⟩

/-- A step row is no row of a job. -/
theorem IsStep.sacctRow {line : Str} (h : IsStep line) : sacctRow line = none := by
  obtain ⟨id, hid, hdot⟩ := h
  obtain ⟨tl, hsplit⟩ := List.head?_eq_some_iff.mp hid
  unfold Slurm.sacctRow
  rw [hsplit]
  cases tl with
  | nil => rfl
  | cons st rest => simp only [if_pos hdot]

/-- The row of a step is skipped. -/
theorem IsStep.sacctTaskRow {line : Str} (h : IsStep line) (k : JobKey) :
    sacctTaskRow k.display line = none := by
  obtain ⟨id, hid, hdot⟩ := h
  cases hrow : Slurm.sacctTaskRow k.display line with
  | none => rfl
  | some oc =>
    rw [sacctTaskRow_head hrow, Option.some.injEq] at hid
    exact absurd (hid ▸ hdot) (not_mem_display k)

/-! ## 3. What the scheduler's answers say

Whether an answer came from a query of a batch or of a single key, it says of a job what the
scheduler has of it. -/

/-- A successful answer is parsed. -/
theorem squeueListing_success {α : Type} (parse : Str → α) (empty : α) {out : CaptureOutput}
    (hz : out.exitCode = 0) : squeueListing parse empty (.ok out) = .ok (parse out.stdout) := by
  simp [squeueListing, squeueReportsVanished, ensureQuerySuccess, CaptureOutput.success, hz]

/-- A successful answer is parsed. -/
theorem toolListing_success {α : Type} (tool : Str) (parse : Str → α) {out : CaptureOutput}
    (hz : out.exitCode = 0) : toolListing tool parse (.ok out) = .ok (parse out.stdout) := by
  simp [toolListing, ensureQuerySuccess, CaptureOutput.success, hz]

/-- Any other answer is an error of the tool. -/
theorem toolListing_failed {α : Type} (tool : Str) (parse : Str → α) {r : Answer}
    (hr : ∀ out, r = .ok out → out.exitCode ≠ 0) : ∃ e, toolListing tool parse r = .error e := by
  cases r with
  | error e => exact ⟨e, rfl⟩
  | ok out => simp [toolListing, ensureQuerySuccess, CaptureOutput.success, hr out rfl]

namespace Scheduler

variable {F : Scheduler} {snap : SbatchJobSnapshot} {batch : List JobKey} {out : CaptureOutput}

/-- **A squeue listing says of a job what its row says**, whatever other keys it was asked for. -/
theorem SqueueOutput.status (h : F.SqueueOutput batch out) (hkey : snap.jobKey ∈ batch) :
    Sbatch.squeueStatus snap (.ok out) = .ok (F.squeueStatus snap.jobKey) := by
  rcases h with ⟨hz, hp⟩ | ⟨hnz, hinvalid, k, rfl, hgone⟩
  · unfold Sbatch.squeueStatus
    unfold SbatchJobSnapshot.jobKey at hkey ⊢
    cases hidx : snap.arrayTaskId with
    | some idx =>
      rw [hidx] at hkey
      exact (squeueListing_success _ _ hz).trans <|
        congrArg Except.ok (hp.findSome (fun _ h => h.elim)
        (fun k' line hk' v hv => squeueTaskRow_key (F.squeue_key k' line hk') hv) (.inl hkey))
    | none =>
      rw [hidx] at hkey
      exact (squeueListing_success _ _ hz).trans <|
        congrArg Except.ok (hp.lastRows (fun _ h => h.elim)
        (fun k line hk v => squeueRow_key (F.squeue_key k line hk)) hkey)
  · have hvanished : squeueReportsVanished out = true := by
      rw [squeueReportsVanished, hinvalid]
      simp [hnz]
    have hnone : F.squeueStatus snap.jobKey = none := by
      rw [squeueStatus, hgone _ (.inl hkey)]
      rfl
    rw [hnone]
    unfold Sbatch.squeueStatus
    split <;> simp [squeueListing, hvanished]

/-- The outcome that is found in the listing is the scheduler's. -/
theorem SacctOutput.outcome (h : F.SacctOutput batch out) (hkey : .plain snap.jobid ∈ batch) :
    Sbatch.sacctOutcome snap (.ok out) = .ok (F.sacctOutcome snap.jobKey) := by
  obtain ⟨hz, hp⟩ := h
  unfold Sbatch.sacctOutcome SbatchJobSnapshot.jobKey
  cases hidx : snap.arrayTaskId with
  | some idx =>
    exact (toolListing_success _ _ hz).trans <|
      congrArg Except.ok (hp.findSome (fun _ h => h.sacctTaskRow (.arrayTask snap.jobid idx))
      (fun k' line hk' v hv => (JobKey.display_injective (Option.some.inj
        ((F.sacct_key k' line hk').symm.trans (sacctTaskRow_head hv)))))
      (.inr ⟨_, _, rfl, hkey⟩))
  | none =>
    exact (toolListing_success _ _ hz).trans <|
      congrArg Except.ok (hp.lastRows (fun _ h => h.sacctRow)
      (fun k line hk v => sacctRow_key (F.sacct_key k line hk)) hkey)

/-- The status in the qgroup listing is the scheduler's. -/
theorem QgroupAnswer.status {r : Answer} (h : F.QgroupAnswer r) (j : JobId) :
    Sbatch.qgroupStatus j r = F.qgroupStatus j := by
  unfold QgroupAnswer at h
  unfold Sbatch.qgroupStatus Scheduler.qgroupStatus
  cases hq : F.qgroup with
  | none =>
    rw [hq] at h
    obtain ⟨e, he⟩ := toolListing_failed "qgroup" (fun text => parseQgroupL text j) h
    rw [he]
    rfl
  | some text =>
    rw [hq] at h
    obtain ⟨out, rfl, hz, rfl⟩ := h
    rw [toolListing_success _ _ hz]
    rfl

/-- The answer that a handle read says what the scheduler says. -/
structure Reads (F : Scheduler) (rd : Read) : Prop where
  squeue : ∀ k : JobKey, rd.argv = squeueArgv k.display →
    ∃ out batch, rd.result = .ok out ∧ k ∈ batch ∧ F.SqueueOutput batch out
  sacct : ∀ j : JobId, rd.argv = sacctArgv (decimal j.toNat) →
    ∃ out batch, rd.result = .ok out ∧ .plain j ∈ batch ∧ F.SacctOutput batch out
  qgroup : rd.argv = qgroupArgv → F.QgroupAnswer rd.result

/-- The status that a read shows is the scheduler's. -/
theorem Reads.squeueStatus {rd : Read} (h : F.Reads rd)
    (hargv : rd.argv = squeueArgv snap.squeueKey) :
    Sbatch.squeueStatus snap rd.result = .ok (F.squeueStatus snap.jobKey) := by
  obtain ⟨out, batch, hr, hkey, hout⟩ := h.squeue snap.jobKey (snap.squeueKey_eq ▸ hargv)
  rw [hr]
  exact hout.status hkey

/-- The outcome that a read shows is the scheduler's. -/
theorem Reads.sacctOutcome {rd : Read} (h : F.Reads rd)
    (hargv : rd.argv = sacctArgv (decimal snap.jobid.toNat)) :
    Sbatch.sacctOutcome snap rd.result = .ok (F.sacctOutcome snap.jobKey) := by
  obtain ⟨out, batch, hr, hkey, hout⟩ := h.sacct snap.jobid hargv
  rw [hr]
  exact hout.outcome hkey

/-! ### What a probe finds -/

/-- What a `refresh` observes. -/
def observe (F : Scheduler) (snap : SbatchJobSnapshot) : Option JobStatus :=
  match snap.arrayTaskId with
  | some _ => F.squeueStatus snap.jobKey
  | none => (F.qgroupStatus snap.jobid).or (F.squeueStatus snap.jobKey)

/-- What the finalizer resolves. -/
def resolve (F : Scheduler) (snap : SbatchJobSnapshot) : JobOutcome :=
  match snap.arrayTaskId, F.squeueStatus snap.jobKey with
  | none, some status => ⟨status, none⟩
  | _, _ => (F.sacctOutcome snap.jobKey).getD JobOutcome.default

/-- **An observation is determined by the scheduler**, and not by the way the answers came. -/
theorem observed_eq {new : List Read} {obs : Except Str (Option JobStatus)}
    (h : Observed snap new obs) (hnew : ∀ rd ∈ new, F.Reads rd) : obs = .ok (F.observe snap) := by
  cases h with
  | task hidx hargv =>
    rw [(hnew _ List.mem_cons_self).squeueStatus hargv, observe, hidx]
  | qgroup hidx hargv hrow =>
    rw [((hnew _ List.mem_cons_self).qgroup hargv).status] at hrow
    rw [observe, hidx, hrow, Option.some_or]
  | squeue hidx hqargv hmiss hargv =>
    rw [((hnew _ (List.mem_cons_of_mem _ List.mem_cons_self)).qgroup hqargv).status] at hmiss
    rw [(hnew _ List.mem_cons_self).squeueStatus hargv, observe, hidx, hmiss, Option.none_or]

/-- **And so is an outcome.** -/
theorem resolved_eq {new : List Read} {res : Except Str JobOutcome} (h : Resolved snap new res)
    (hnew : ∀ rd ∈ new, F.Reads rd) : res = .ok (F.resolve snap) := by
  cases h with
  | task hidx hargv =>
    rw [(hnew _ List.mem_cons_self).sacctOutcome hargv, resolve, hidx]
    rfl
  | failed hidx hargv hst =>
    rw [(hnew _ List.mem_cons_self).squeueStatus hargv] at hst
    cases hst
  | listed hidx hargv hst =>
    rw [(hnew _ List.mem_cons_self).squeueStatus hargv, Except.ok.injEq] at hst
    rw [resolve, hidx, hst]
  | sacct hidx hqargv hst hargv =>
    rw [(hnew _ (List.mem_cons_of_mem _ List.mem_cons_self)).squeueStatus hqargv,
      Except.ok.injEq] at hst
    rw [(hnew _ List.mem_cons_self).sacctOutcome hargv, resolve, hidx, hst]
    rfl

/-! ### The two dispatchers -/

/-- An answer through the caches comes from a command whose list has the key. -/
theorem reads_of_cached {ttl : Nat} {rd : Read} {calls : List Call} (h : CachedRead ttl rd calls)
    (hF : ∀ c ∈ calls, F.Answers c) : F.Reads rd where
  squeue k hargv := by
    obtain ⟨c, hc, batch, hb, hkeys, hsrc, -⟩ := (h .squeue [k] (hargv ▸ parse_squeueArgv k)).source
    have hk := hkeys k (List.mem_singleton_self k)
    obtain ⟨out, hr, hout⟩ := (hF c hc).squeue batch
      (hb ▸ squeue_parse_build (List.ne_nil_of_mem hk))
    exact ⟨out, batch, (hsrc.output out).mpr hr, hk, hout⟩
  sacct j hargv := by
    obtain ⟨c, hc, batch, hb, hkeys, hsrc, -⟩ :=
      (h .sacct [.plain j] (hargv ▸ parse_sacctArgv j)).source
    have hk := hkeys (.plain j) (List.mem_singleton_self _)
    obtain ⟨out, hr, hout⟩ := (hF c hc).sacct batch (hb ▸ sacct_parse_build (List.ne_nil_of_mem hk))
    exact ⟨out, batch, (hsrc.output out).mpr hr, hk, hout⟩
  qgroup hargv := by
    obtain ⟨c, hc, batch, hb, -, hsrc, -⟩ := (h .qgroup [] (hargv ▸ qgroup_parse_qgroupArgv)).source
    have hq := (hF c hc).qgroup hb
    unfold QgroupAnswer at hq ⊢
    split
    · rename_i text htext
      rw [htext] at hq
      obtain ⟨out, hr, hrest⟩ := hq
      exact ⟨out, (hsrc.output out).mpr hr, hrest⟩
    · rename_i hnone
      rw [hnone] at hq
      exact fun out hr => hq out ((hsrc.output out).mp hr)

/-- A command of one form needs its own answer only. -/
theorem answers_squeue {c : Call} {batch : List JobKey} {out : CaptureOutput}
    (hargv : c.argv = squeueArgv (JobKey.buildCsv batch)) (hne : batch ≠ [])
    (hres : c.result = .ok out) (hout : F.SqueueOutput batch out) : F.Answers c where
  squeue batch' hp := by
    rw [hargv, squeue_parse_squeueArgv, JobKey.parseCsv_buildCsv hne, Option.some.injEq] at hp
    exact ⟨out, hres, hp ▸ hout⟩
  sacct batch' hp := by
    rw [hargv, sacct_parse_squeueArgv] at hp
    cases hp
  qgroup hq := by
    rw [hargv] at hq
    exact absurd (List.cons.inj hq).1 (by decide)

/-- A sacct query with the keys of a batch is answered by the scheduler. -/
theorem answers_sacct {c : Call} {batch : List JobKey} {out : CaptureOutput}
    (hargv : c.argv = sacctArgv (JobKey.buildCsv batch)) (hne : batch ≠ [])
    (hres : c.result = .ok out) (hout : F.SacctOutput batch out) : F.Answers c where
  squeue batch' hp := by
    rw [hargv, squeue_parse_sacctArgv] at hp
    cases hp
  sacct batch' hp := by
    rw [hargv, sacct_parse_sacctArgv, JobKey.parseCsv_buildCsv hne, Option.some.injEq] at hp
    exact ⟨out, hres, hp ▸ hout⟩
  qgroup hq := by
    rw [hargv] at hq
    exact absurd (List.cons.inj hq).1 (by decide)

/-- So is a qgroup query. -/
theorem answers_qgroup {c : Call} (hargv : c.argv = qgroupArgv) (hres : F.QgroupAnswer c.result) :
    F.Answers c where
  squeue batch hp := by
    rw [hargv, squeue_parse_qgroupArgv] at hp
    cases hp
  sacct batch hp := by
    rw [hargv, sacct_parse_qgroupArgv] at hp
    cases hp
  qgroup _ := hres

/-- A read through the bare dispatcher is an answer of the scheduler. -/
theorem reads_of_bare {rd : Read} {calls : List Call} (h : BareRead rd calls)
    (hF : ∀ c ∈ calls, F.Answers c) : F.Reads rd := by
  obtain ⟨c, hc, -, hargv, hres, -⟩ := h
  obtain ⟨hs, ha, hq⟩ := hF c hc
  rw [hargv, hres] at hs ha hq
  refine ⟨fun k hk => ?_, fun j hj => ?_, hq⟩
  · obtain ⟨out, hr, hout⟩ := hs [k] (hk ▸ parse_squeueArgv k)
    exact ⟨out, [k], hr, List.mem_singleton_self k, hout⟩
  · obtain ⟨out, hr, hout⟩ := ha [.plain j] (hj ▸ parse_sacctArgv j)
    exact ⟨out, [.plain j], hr, List.mem_singleton_self _, hout⟩

end Scheduler

/-! ## 4. Calls on a frozen scheduler

What the calls do when the scheduler does not change, as functions of the snapshot.  Times are left
out of it, for the two runs that are compared have clocks of their own. -/

/-- The snapshot without its observation and finishing times. -/
def SbatchJobSnapshot.untimed (snap : SbatchJobSnapshot) : SbatchJobSnapshot :=
  { snap with lifecycle := { snap.lifecycle with
      lastObservedAt := none
      finished := snap.lifecycle.finished.map fun f => { f with finishedAt := 0 } } }

/-- An observation of a snapshot does not depend on its times. -/
theorem SbatchJobSnapshot.untimed_observed (snap : SbatchJobSnapshot) (row : Option JobStatus)
    (now now' : Nat) :
    (snap.untimed.observed row now').untimed = (snap.observed row now).untimed := by
  cases row <;> simp [untimed, observed, listed, vanished, Function.comp_def]

/-- Nor does a roll-back. -/
theorem SbatchJobSnapshot.untimed_rolledBack (snap : SbatchJobSnapshot) (status : JobStatus)
    (now now' : Nat) :
    (snap.untimed.rolledBack status now').untimed = (snap.rolledBack status now).untimed := by
  simp [untimed, rolledBack, Function.comp_def]

/-- Nor does a stamp. -/
theorem SbatchJobSnapshot.untimed_stamped (snap : SbatchJobSnapshot) (oc : JobOutcome)
    (now now' : Nat) : (snap.untimed.stamped oc now').untimed = (snap.stamped oc now).untimed := rfl

/-- What a call leaves: its result, the published snapshot and the number of saves so far. -/
structure Outcome where
  result : Except Str SbatchJobSnapshot
  watch : SbatchJobSnapshot
  saves : Nat

/-- The saves (newest first) had the outcomes that `saved` gives for each in turn. -/
def Follow (saved : Nat → Except Str Unit) : List Save → Prop
  | [] => True
  | sv :: older => sv.result = saved older.length ∧ Follow saved older

instance (saved : Nat → Except Str Unit) : (saves : List Save) → Decidable (Follow saved saves)
  | [] => isTrue trivial
  | sv :: older =>
    haveI := instDecidableFollow saved older
    inferInstanceAs (Decidable (sv.result = saved older.length ∧ Follow saved older))

/-- The saves until now had the results that they were to have. -/
theorem Follow.suffix {saved : Nat → Except Str Unit} {saves saves' : List Save}
    (h : Follow saved saves') (hs : saves <:+ saves') : Follow saved saves := by
  obtain ⟨newer, rfl⟩ := hs
  induction newer with
  | nil => exact h
  | cons sv newer ih => exact ih h.2

namespace Scheduler

variable (F : Scheduler) (saved : Nat → Except Str Unit)

/-- The `n`-th save, and publication if it works. -/
def record (n : Nat) (snap next : SbatchJobSnapshot) : Outcome :=
  match saved n with
  | .ok () => ⟨.ok next, next, n + 1⟩
  | .error e => ⟨.error e, snap, n + 1⟩

/-- A `refresh` on the frozen scheduler. -/
def refresh (n : Nat) (snap : SbatchJobSnapshot) : Outcome :=
  record saved n snap (snap.observed (F.observe snap) 0).untimed

/-- A `refresh_with_sacct` on the frozen scheduler. -/
def refreshWithSacct (n : Nat) (snap : SbatchJobSnapshot) : Outcome :=
  let o := F.refresh saved n snap
  match o.result with
  | .error _ => o
  | .ok snap =>
    if snap.lifecycle.finished.isSome then o
    else if !snap.lifecycle.leftActiveListing && !snap.observedTerminal then o
    else
      let outcome := F.resolve snap
      if Unusable outcome then o
      else if StillLive outcome then
        record saved o.saves snap (snap.rolledBack outcome.status 0).untimed
      else record saved o.saves snap (snap.stamped outcome 0).untimed

def call (n : Nat) (snap : SbatchJobSnapshot) : Request → Outcome
  | .refresh _ => F.refresh saved n snap
  | .refreshWithSacct _ => F.refreshWithSacct saved n snap

/-- The results of calls one after another. -/
def session : List Request → (Nat → SbatchJobSnapshot) → Nat → List (Except Str SbatchJobSnapshot)
  | [], _, _ => []
  | req :: rest, watch, n =>
    let o := F.call saved n (watch req.handle) req
    o.result :: session rest (Function.update watch req.handle o.watch) o.saves

end Scheduler

/-! ## 5. The code on a frozen scheduler

The rules of the calls, where every answer is one of the scheduler: each call agrees with the
function of section 4. -/

/-- The call has the outcome `o`, up to times. -/
structure Agrees (t h : Nat) (r : Except Str SbatchJobSnapshot) (w : World Key) (o : Outcome) :
    Prop where
  result : r.map SbatchJobSnapshot.untimed = o.result
  watch : (w.watch h).untimed = o.watch
  saves : (w.savesOf t).length = o.saves

section Calls

variable {F : Scheduler} {saved : Nat → Except Str Unit} {read : Read → List Call → Prop}
  {hmono : ∀ {rd calls calls'}, calls <:+ calls' → read rd calls → read rd calls'}
  {t h : Nat} {r : Except Str SbatchJobSnapshot} {w w' : World Key}

/-- What is recorded is what the function records. -/
theorem Recorded.agrees {site : Site} {next : SbatchJobSnapshot}
    (hrec : Recorded t h site next w r w') (hsaved : Follow saved (w'.savesOf t)) :
    Agrees t h r w'
      (Scheduler.record saved (w.savesOf t).length (w.watch h).untimed next.untimed) := by
  obtain ⟨sv, hsv, -, -, hcases⟩ := hrec
  rw [hsv] at hsaved
  unfold Scheduler.record
  rw [← hsaved.1]
  rcases hcases with ⟨e, hres, rfl, hwatch⟩ | ⟨hres, rfl, hwatch, -⟩
  · rw [hres]
    exact ⟨rfl, by rw [hwatch], by rw [hsv]; rfl⟩
  · rw [hres]
    exact ⟨rfl, by rw [hwatch], by rw [hsv]; rfl⟩

/-- The answers that a probe heard are the scheduler's. -/
theorem Heard.reads {new : List Read} {w'' : World Key} (hread : ∀ rd calls, read rd calls →
    (∀ c ∈ calls, F.Answers c) → F.Reads rd) (hheard : Heard (readAudit read hmono) t w w' new)
    (hel : Elapse w' w'') (hi : Inv (readAudit read hmono) w'')
    (hF : ∀ c ∈ w''.calls, F.Answers c) : ∀ rd ∈ new, F.Reads rd := fun rd hrd =>
  hread rd _ (hi.reads rd (hel.reads.subset (hheard.mem hrd))).2.2 hF

/-- **A refresh agrees with its function.** -/
theorem Refreshed.agrees {w₁ w'' : World Key}
    (hread : ∀ rd calls, read rd calls → (∀ c ∈ calls, F.Answers c) → F.Reads rd)
    (hclock : ClockOnly w w₁) (href : Refreshed (readAudit read hmono) t h w₁ r w')
    (hel : Elapse w' w'')
    (hi : Inv (readAudit read hmono) w'') (hF : ∀ c ∈ w''.calls, F.Answers c)
    (hsaved : Follow saved (w'.savesOf t)) :
    Agrees t h r w' (F.refresh saved (w.savesOf t).length (w.watch h).untimed) := by
  obtain ⟨new, obs, hobs, hheard, -, hrec⟩ := href
  cases Scheduler.observed_eq hobs (hheard.reads hread hel hi hF)
  have hagrees := hrec.agrees hsaved
  rw [← SbatchJobSnapshot.untimed_observed _ _ _ 0] at hagrees
  obtain ⟨dt, utc, st, rfl, -⟩ := hclock
  exact hagrees

/-- The second section agrees with the finalizer of the frozen scheduler. -/
theorem Finalized.agrees {carried : SbatchJobSnapshot}
    (hread : ∀ rd calls, read rd calls → (∀ c ∈ calls, F.Answers c) → F.Reads rd)
    (hfin : Finalized (readAudit read hmono) t h carried w r w') (hwatch : w.watch h = carried)
    (hi : Inv (readAudit read hmono) w') (hF : ∀ c ∈ w'.calls, F.Answers c)
    (hsaved : Follow saved (w'.savesOf t)) {o : Outcome}
    (ho : Agrees t h (.ok carried) w o) :
    Agrees t h r w' (
      let outcome := F.resolve carried.untimed
      if Unusable outcome then o
      else if StillLive outcome then
        Scheduler.record saved o.saves carried.untimed
          (carried.untimed.rolledBack outcome.status 0).untimed
      else Scheduler.record saved o.saves carried.untimed
        (carried.untimed.stamped outcome 0).untimed) := by
  obtain ⟨new, res, hres, hheard, -, hcases⟩ := hfin
  cases Scheduler.resolved_eq hres (hheard.reads hread (Elapse.refl w') hi hF)
  have hres' : F.resolve carried.untimed = F.resolve carried := rfl
  rcases hcases with ⟨hun, rfl, hw, hs⟩ | ⟨hlive, u, hrec⟩ | ⟨hun, hlive, u, hrec⟩
  · simp only [hres', if_pos hun]
    exact ⟨ho.result, by rw [hw]; exact ho.watch, by rw [hs]; exact ho.saves⟩
  · have hun : ¬ Unusable (F.resolve carried) := fun hun => hlive.1 hun.1
    have hagrees := hrec.agrees hsaved
    rw [ho.saves, hwatch, ← SbatchJobSnapshot.untimed_rolledBack _ _ _ 0] at hagrees
    simp only [hres', if_neg hun, if_pos hlive]
    exact hagrees
  · have hagrees := hrec.agrees hsaved
    rw [ho.saves, hwatch, ← SbatchJobSnapshot.untimed_stamped _ _ _ 0] at hagrees
    simp only [hres', if_neg hun, if_neg hlive]
    exact hagrees

/-- **So does a refresh with sacct.** -/
theorem RefreshedWithSacct.agrees
    (hread : ∀ rd calls, read rd calls → (∀ c ∈ calls, F.Answers c) → F.Reads rd)
    (hcall : RefreshedWithSacct (solo (readAudit read hmono)).toContext (readAudit read hmono) t h
      w r w')
    (hi : Inv (readAudit read hmono) w') (hF : ∀ c ∈ w'.calls, F.Answers c)
    (hsaved : Follow saved (w'.savesOf t)) :
    Agrees t h r w' (F.refreshWithSacct saved (w.savesOf t).length (w.watch h).untimed) := by
  obtain ⟨w₁, r₁, w₂, hclock₁, -, href, hrest⟩ := hcall
  rcases hrest with ⟨rfl, rfl, hdone⟩ | ⟨carried, w₃, rfl, hclock, -, hcar, hfin⟩
  · have ho := href.agrees hread hclock₁ (Elapse.refl _) hi hF hsaved
    simp only [Scheduler.refreshWithSacct, ← ho.result]
    cases r with
    | error e => exact ho
    | ok snap =>
      simp only [Except.map]
      split
      · exact ho
      · rename_i hnone
        rcases hdone snap rfl with hsome | ⟨hleft, hterm⟩
        · have hfin : snap.untimed.lifecycle.finished.isSome = true := by
            simpa [SbatchJobSnapshot.untimed] using Option.isSome_iff_ne_none.mpr hsome
          exact absurd hfin hnone
        · have hlive :
              (!snap.untimed.lifecycle.leftActiveListing && !snap.untimed.observedTerminal) =
              true := by
            rw [Bool.and_eq_true, Bool.not_eq_true', Bool.not_eq_true']
            exact ⟨hleft, hterm⟩
          rw [if_pos hlive]
          exact ho
  · have hel₂ : Elapse w₂ w' := by
      obtain ⟨new, res, hres, hheard, hel, hcases⟩ := hfin
      exact (hclock.others (t := t)).dispatched.toElapse.trans hel
    have hsaved₂ : Follow saved (w₂.savesOf t) := hsaved.suffix (hel₂.saves.filter _)
    have ho := href.agrees hread hclock₁ hel₂ hi hF hsaved₂
    have hwatch : w₂.watch h = carried := href.watch rfl
    obtain ⟨dt', utc', st', rfl, -⟩ := hclock
    have hagrees := hfin.agrees hread hwatch hi hF hsaved (o := _) ⟨ho.result, ho.watch, ho.saves⟩
    have hnone : carried.untimed.lifecycle.finished.isSome = false := by
      simp [SbatchJobSnapshot.untimed, hcar.finished]
    have hdue : (!carried.untimed.lifecycle.leftActiveListing &&
        !carried.untimed.observedTerminal) = false := by
      have hor : carried.untimed.lifecycle.leftActiveListing = true ∨
          carried.untimed.observedTerminal = true := hcar.due
      rcases hor with hleft | hterm
      · rw [hleft]
        rfl
      · rw [hterm, Bool.not_true, Bool.and_false]
    simp only [Scheduler.refreshWithSacct, ← ho.result, Except.map, hnone, hdue, Bool.false_eq_true,
      if_false]
    exact hagrees

/-- **So does any call of a session.** -/
theorem Served.agrees {req : Request}
    (hread : ∀ rd calls, read rd calls → (∀ c ∈ calls, F.Answers c) → F.Reads rd)
    (hserved : Served (readAudit read hmono) t req w r w') (hi : Inv (readAudit read hmono) w')
    (hF : ∀ c ∈ w'.calls, F.Answers c) (hsaved : Follow saved (w'.savesOf t)) :
    Agrees t req.handle r w'
      (F.call saved (w.savesOf t).length (w.watch req.handle).untimed req) := by
  cases req with
  | refresh h =>
    obtain ⟨w₁, hclock, -, href⟩ := hserved
    exact href.agrees hread hclock (Elapse.refl w') hi hF hsaved
  | refreshWithSacct h => exact RefreshedWithSacct.agrees hread hserved hi hF hsaved

/-- **Every session on a frozen scheduler** has the results of `Scheduler.session`, up to times:
by induction on the calls, over any dispatcher whose answers are the scheduler's. -/
theorem serve_agrees {d : Dispatcher Key}
    (hread : ∀ rd calls, read rd calls → (∀ c ∈ calls, F.Answers c) → F.Reads rd)
    (hd : Serves (readAudit read hmono) (solo (readAudit read hmono)).toContext t d) :
    ∀ (steps : List (Request × List (Input ⊕ Tick))) (w : World Key)
      (rs : List (Except Str SbatchJobSnapshot)) (w' : World Key),
      Inv (readAudit read hmono) w → Idle t w →
      (machine Key).serve t (Request.program d) steps w = some (rs, w') →
      Elapse w w' ∧ ((∀ c ∈ w'.calls, F.Answers c) → Follow saved (w'.savesOf t) →
        rs.map (Except.map SbatchJobSnapshot.untimed) = F.session saved (steps.map Prod.fst)
          (fun h => (w.watch h).untimed) (w.savesOf t).length)
  | [], w, rs, w', _, _, hs => by
    cases hs
    exact ⟨Elapse.refl w, fun _ _ => rfl⟩
  | (req, ms) :: rest, w, rs, w', hi, hidle, hs => by
    simp only [Machine.serve] at hs
    split at hs
    · rename_i r w₁ hcall
      obtain ⟨⟨rs', w₂⟩, hs', he⟩ := Option.map_eq_some_iff.mp hs
      cases he
      have hwp := wp_request hd (fun _ h => h) req (fun _ _ _ _ _ _ => trivial)
        (fun _ _ _ _ _ _ _ _ _ _ => ⟨fun _ => trivial, fun _ _ => trivial⟩) hidle
      obtain ⟨⟨⟨hserved, hidle₁⟩, halone, hel⟩, hi₁⟩ :=
        (solo (readAudit read hmono)).wp_call ms _ w r w₁ hi hwp hcall
      obtain ⟨hel', hrest⟩ := serve_agrees hread hd rest w₁ rs' w₂ hi₁ hidle₁ hs'
      refine ⟨hel.trans hel', fun hF hsaved => ?_⟩
      have ho := hserved.agrees hread hi₁ (fun c hc => hF c (hel'.calls.subset hc))
        (hsaved.suffix (hel'.saves.filter _))
      have hwatch : (fun h => (w₁.watch h).untimed) = Function.update
          (fun h => (w.watch h).untimed) req.handle
          (F.call saved (w.savesOf t).length (w.watch req.handle).untimed req).watch := by
        funext x
        by_cases hx : x = req.handle
        · rw [hx, Function.update_self, ho.watch]
        · rw [Function.update_of_ne hx, halone.watch x hx]
      rw [List.map_cons, ho.result, hrest hF hsaved, hwatch, ho.saves]
      rfl
    · cases hs

end Calls

/-! ## 6. The two runs

Through the caches and bare, the same calls on the same scheduler: both agree with the same
functions, so they agree with each other. -/

/-- **Batching is transparent on a frozen scheduler.**  The same calls on the same handles, once
through the caches of a manager and once over the bare dispatcher, at any times, return the same
snapshots up to times, if the `n`-th save of either run has the same outcome. -/
theorem batching_transparent {F : Scheduler} {saved : Nat → Except Str Unit}
    {uuids uuids' : Supply Nat} {ttl utc utc' n : Nat} {snaps : Nat → SbatchJobSnapshot}
    {store store' : Store}
    {steps steps' : List (Request × List (Input ⊕ Tick))}
    {rs rs' : List (Except Str SbatchJobSnapshot)} {w w' : World Key}
    (hsame : steps.map Prod.fst = steps'.map Prod.fst)
    (hcached : (machine Key).serve 0 (Request.program (handleDispatcher ttl runCommand)) steps
      (World.start uuids utc n snaps store) = some (rs, w))
    (hbare : (machine Key).serve 0 (Request.program runCommand) steps'
      (World.start uuids' utc' n snaps store') = some (rs', w'))
    (hfrozen : ∀ c ∈ w.calls, F.Answers c) (hfrozen' : ∀ c ∈ w'.calls, F.Answers c)
    (hsaved : Follow saved (w.savesOf 0)) (hsaved' : Follow saved (w'.savesOf 0)) :
    rs.map (Except.map SbatchJobSnapshot.untimed) =
      rs'.map (Except.map SbatchJobSnapshot.untimed) := by
  have hcacheddisp : Serves (readAudit (CachedRead ttl) fun hs h => h.mono hs) _ 0
      (handleDispatcher ttl runCommand) :=
    serves_handleDispatcher solo_under rfl rfl (fun _ _ _ _ => trivial) (fun _ h => h) fun _ => rfl
  have hbaredisp := serves_runCommand (A := readAudit BareRead fun hs h => h.mono hs)
    solo_under (t := 0) rfl (fun _ _ _ => trivial) (fun _ h => h) fun _ => rfl
  have h := (serve_agrees (fun _ _ => Scheduler.reads_of_cached) hcacheddisp steps _
    rs w (inv_start False.elim fun _ => trivial) (idle_start ..) hcached).2 hfrozen hsaved
  have h' := (serve_agrees (fun _ _ => Scheduler.reads_of_bare) hbaredisp steps' _
    rs' w' (inv_start False.elim fun _ => trivial) (idle_start ..) hbare).2 hfrozen' hsaved'
  rw [h, h', hsame]
  rfl

/-! ### A task of an array and a single job that has gone -/

/-- The row of the task. -/
def runningRow : Str := "7_3 RUNNING None"

/-- The rows of the single job and of its batch step. -/
def completedRow : Str := "8|COMPLETED|None|0:0"

def stepRow : Str := "8.batch|COMPLETED||0:0"

def completedText : Str := "8|COMPLETED|None|0:0\n8.batch|COMPLETED||0:0"

/-- squeue lists the task, sacct has the single job, the `qgroup` listing is empty. -/
def oneGone : Scheduler where
  squeue k := if k = .arrayTask 7 3 then some runningRow else none
  sacct k := if k = .plain 8 then some completedRow else none
  qgroup := some ""
  squeue_key k row h := by
    simp only [Option.ite_none_right_eq_some, Option.some.injEq] at h
    obtain ⟨rfl, rfl⟩ := h
    decide +kernel
  sacct_key k row h := by
    simp only [Option.ite_none_right_eq_some, Option.some.injEq] at h
    obtain ⟨rfl, rfl⟩ := h
    decide +kernel

/-- The task of the array is listed, whatever else is asked for with it. -/
theorem oneGone_squeue {batch : List JobKey} {err : Str} (h : .arrayTask 7 3 ∈ batch) :
    oneGone.SqueueOutput batch ⟨0, runningRow, err⟩ := by
  have hlines : lines runningRow = [runningRow] := by decide +kernel
  refine .inl ⟨rfl, fun line hl => .inr ⟨.arrayTask 7 3, .inl h, ?_⟩, fun k row _ hrow => ?_⟩
  · rw [hlines, List.mem_singleton] at hl
    rw [hl]
    rfl
  · simp only [oneGone, Option.ite_none_right_eq_some, Option.some.injEq] at hrow
    rw [hlines, ← hrow.2]
    exact List.mem_singleton_self _

/-- Of the job that has gone squeue says that there is no such job. -/
theorem oneGone_vanished : oneGone.SqueueOutput [.plain 8] ⟨1, [], "Invalid job id specified"⟩ := by
  refine .inr ⟨by decide, by decide +kernel, .plain 8, rfl, fun k hk => if_neg ?_⟩
  rintro rfl
  obtain h | ⟨m, i, h, hm⟩ := hk
  · exact absurd h (by decide)
  · cases h
    exact absurd hm (by decide)

theorem oneGone_sacct : oneGone.SacctOutput [.plain 8]
    ⟨0, completedText, []⟩ := by
  have hlines : lines completedText =
      [completedRow, stepRow] := by decide +kernel
  refine ⟨rfl, fun line hl => ?_, fun k row _ hrow => ?_⟩
  · rw [hlines] at hl
    rcases List.mem_cons.mp hl with rfl | hl
    · exact .inr ⟨.plain 8, .inl (List.mem_singleton_self _), rfl⟩
    · rw [List.mem_singleton.mp hl]
      exact .inl ⟨"8.batch", by decide +kernel, by decide⟩
  · simp only [oneGone, Option.ite_none_right_eq_some, Option.some.injEq] at hrow
    rw [hlines, ← hrow.2]
    exact List.mem_cons_self

/-- Handle 0 is of the single job, handle 1 of the task. -/
def taskAndJob (h : Nat) : SbatchJobSnapshot :=
  if h = 0 then .submitted 1 8 none else .submitted 2 7 (some 3)

/-- The only job of the running squeue command is gone. -/
def answersInvalid : List (Input ⊕ Tick) :=
  [.inl (.output (.ok ⟨1, [], "Invalid job id specified"⟩))]

/-- Through the caches: the second call asks squeue for both keys, and its finalizer reads a
replay. -/
def cachedSteps : List (Request × List (Input ⊕ Tick)) :=
  [(.refresh 1, goesOn 10 ++ answers runningRow ++ goesOn 4 ++ storesIt ++ goesOn 2),
   (.refreshWithSacct 0, goesOn 10 ++ answers "" ++ goesOn 11 ++ answers runningRow ++
      goesOn 4 ++ storesIt ++ goesOn 17 ++
      answers completedText ++ goesOn 5 ++ storesIt ++ goesOn 2)]

/-- Over the bare dispatcher: every query is a command of its own. -/
def bareSteps : List (Request × List (Input ⊕ Tick)) :=
  [(.refresh 1, goesOn 5 ++ answers runningRow ++ goesOn 1 ++ storesIt ++ goesOn 2),
   (.refreshWithSacct 0, goesOn 5 ++ answers "" ++ goesOn 3 ++ answersInvalid ++ goesOn 1 ++
      storesIt ++ goesOn 5 ++ answersInvalid ++ goesOn 3 ++
      answers completedText ++ goesOn 2 ++ storesIt ++ goesOn 2)]

/-- The commands of the two runs. -/
def cachedCalls : List Call :=
  [⟨0, sacctArgv (JobKey.buildCsv [.plain 8]), 0, 0, .ok ⟨0, completedText, []⟩⟩,
   ⟨0, squeueArgv (JobKey.buildCsv [.plain 8, .arrayTask 7 3]), 0, 0, .ok ⟨0, runningRow, []⟩⟩,
   ⟨0, qgroupArgv, 0, 0, .ok ⟨0, [], []⟩⟩,
   ⟨0, squeueArgv (JobKey.buildCsv [.arrayTask 7 3]), 0, 0, .ok ⟨0, runningRow, []⟩⟩]

def bareCalls : List Call :=
  [⟨0, sacctArgv (JobKey.buildCsv [.plain 8]), 0, 0, .ok ⟨0, completedText, []⟩⟩,
   ⟨0, squeueArgv (JobKey.buildCsv [.plain 8]), 0, 0, .ok ⟨1, [], "Invalid job id specified"⟩⟩,
   ⟨0, squeueArgv (JobKey.buildCsv [.plain 8]), 0, 0, .ok ⟨1, [], "Invalid job id specified"⟩⟩,
   ⟨0, qgroupArgv, 0, 0, .ok ⟨0, [], []⟩⟩,
   ⟨0, squeueArgv (JobKey.buildCsv [.arrayTask 7 3]), 0, 0, .ok ⟨0, runningRow, []⟩⟩]

theorem oneGone_answers_running {batch : List JobKey} (h : .arrayTask 7 3 ∈ batch) :
    oneGone.Answers ⟨0, squeueArgv (JobKey.buildCsv batch), 0, 0, .ok ⟨0, runningRow, []⟩⟩ :=
  Scheduler.answers_squeue rfl (List.ne_nil_of_mem h) rfl (oneGone_squeue h)

theorem oneGone_answers_gone : oneGone.Answers
    ⟨0, squeueArgv (JobKey.buildCsv [.plain 8]), 0, 0, .ok ⟨1, [], "Invalid job id specified"⟩⟩ :=
  Scheduler.answers_squeue rfl (by simp) rfl oneGone_vanished

theorem oneGone_answers_sacct : oneGone.Answers
    ⟨0, sacctArgv (JobKey.buildCsv [.plain 8]), 0, 0, .ok ⟨0, completedText, []⟩⟩ :=
  Scheduler.answers_sacct rfl (by simp) rfl oneGone_sacct

theorem oneGone_answers_qgroup : oneGone.Answers ⟨0, qgroupArgv, 0, 0, .ok ⟨0, [], []⟩⟩ :=
  Scheduler.answers_qgroup rfl ⟨_, rfl, rfl, rfl⟩

set_option maxRecDepth 10000 in
/-- Four commands through the caches do what five do without. -/
theorem batching_transparent_two : ∃ rs w rs' w',
    (machine Key).serve 0 (Request.program (handleDispatcher 60 runCommand)) cachedSteps
      (World.start (.countFrom 0) 0 2 taskAndJob []) = some (rs, w) ∧
    (machine Key).serve 0 (Request.program runCommand) bareSteps
      (World.start (.countFrom 0) 0 2 taskAndJob []) = some (rs', w') ∧
    w.calls = cachedCalls ∧ w'.calls = bareCalls ∧
    rs.map (Except.map SbatchJobSnapshot.untimed) =
      rs'.map (Except.map SbatchJobSnapshot.untimed) := by
  have hcached : ∃ rs w, (machine Key).serve 0 (Request.program (handleDispatcher 60 runCommand))
      cachedSteps (World.start (.countFrom 0) 0 2 taskAndJob []) = some (rs, w) ∧
        (w.calls = cachedCalls ∧ Follow (fun _ => .ok ()) (w.savesOf 0)) :=
    (machine Key).exists_serve (by decide +kernel)
  have hbare : ∃ rs w, (machine Key).serve 0 (Request.program runCommand)
      bareSteps (World.start (.countFrom 0) 0 2 taskAndJob []) = some (rs, w) ∧
        (w.calls = bareCalls ∧ Follow (fun _ => .ok ()) (w.savesOf 0)) :=
    (machine Key).exists_serve (by decide +kernel)
  obtain ⟨rs, w, hs, hcalls, hsaved⟩ := hcached
  obtain ⟨rs', w', hs', hcalls', hsaved'⟩ := hbare
  have hfrozen : ∀ c ∈ w.calls, oneGone.Answers c := by
    rw [hcalls]
    simp only [cachedCalls, List.forall_mem_cons]
    exact ⟨oneGone_answers_sacct, oneGone_answers_running (by simp), oneGone_answers_qgroup,
      oneGone_answers_running (by simp), by simp⟩
  have hfrozen' : ∀ c ∈ w'.calls, oneGone.Answers c := by
    rw [hcalls']
    simp only [bareCalls, List.forall_mem_cons]
    exact ⟨oneGone_answers_sacct, oneGone_answers_gone, oneGone_answers_gone,
      oneGone_answers_qgroup, oneGone_answers_running (by simp), by simp⟩
  have hsame : cachedSteps.map Prod.fst = bareSteps.map Prod.fst := rfl
  exact ⟨rs, w, rs', w', hs, hs', hcalls, hcalls',
    batching_transparent hsame hs hs' hfrozen hfrozen' hsaved hsaved'⟩

end Sbatch

/-
# Where a recorded outcome comes from

The finalizer of `refresh_with_sacct` stamps an outcome on the snapshot.  For a task of an array it
reads sacct.  For a single job it asks squeue first, and where squeue still lists the job in a
terminal state, the listed state is stamped, without an exit code.
-/
import SlurmRunner.Sbatch.HandleSpec

namespace Sbatch

open Text Slurm Interact

/-! ## 1. Parent rows

The finalizer asks sacct for the job id, and looks for the row of its own key, which for a task of
an array is not that of the job id alone. -/

/-- The line is the parent row of the key in a sacct listing, and `oc` is what it parses to. -/
def ParentRow : JobKey → Str → JobOutcome → Prop
  | .plain j, line, oc => sacctRow line = some (j, oc)
  | .arrayTask m i, line, oc => sacctTaskRow (taskKey m i) line = some oc

/-- The job id that sacct is asked for: the job's own, or that of the array. -/
def JobKey.master : JobKey → JobId
  | .plain j => j
  | .arrayTask m _ => m

/-- The key of a snapshot belongs to its job id. -/
theorem SbatchJobSnapshot.jobKey_master (snap : SbatchJobSnapshot) :
    snap.jobKey.master = snap.jobid := by
  unfold SbatchJobSnapshot.jobKey
  cases snap.arrayTaskId <;> rfl

/-- A listing that was read was printed by a command that went well. -/
theorem toolListing_eq_ok {α : Type} {tool : Str} {parse : Str → α} {r : Answer} {x : α}
    (h : toolListing tool parse r = .ok x) :
    ∃ out, r = .ok out ∧ out.exitCode = 0 ∧ x = parse out.stdout := by
  unfold toolListing at h
  cases r with
  | error e => cases h
  | ok out =>
    dsimp only [ensureQuerySuccess] at h
    split at h
    · cases h
    · rename_i hs
      split at hs
      · rename_i hz
        cases h
        exact ⟨out, rfl, by simpa [CaptureOutput.success] using hz, rfl⟩
      · cases hs

/-- **A sacct outcome is that of a parent row.** -/
theorem sacctOutcome_eq_some {snap : SbatchJobSnapshot} {r : Answer} {oc : JobOutcome}
    (h : sacctOutcome snap r = .ok (some oc)) : ∃ out, r = .ok out ∧ out.exitCode = 0 ∧
      ∃ line ∈ lines out.stdout, ParentRow snap.jobKey line oc := by
  unfold sacctOutcome at h
  unfold SbatchJobSnapshot.jobKey
  cases hidx : snap.arrayTaskId with
  | some idx =>
    rw [hidx] at h
    obtain ⟨out, hr, hz, hx⟩ := toolListing_eq_ok h
    obtain ⟨line, hline, hrow⟩ := List.exists_of_findSome?_eq_some hx.symm
    exact ⟨out, hr, hz, line, hline, hrow⟩
  | none =>
    rw [hidx] at h
    obtain ⟨out, hr, hz, hx⟩ := toolListing_eq_ok h
    obtain ⟨line, hline, hrow⟩ := exists_row_of_lastRows hx.symm
    exact ⟨out, hr, hz, line, hline, hrow⟩

/-! ## 2. Stamps

Who stamps has read the outcome, from sacct if squeue no longer lists the job. -/

/-- The write is a stamp. -/
def IsStamp (e : Write) : Prop := ∃ carried, e.site = .stamp carried

/-- The call that published `e` read a sacct listing with a parent row of the key, and what it
recorded is what that row says. -/
def FromSacct (key : JobKey) (e : Write) : Prop :=
  ∃ rd ∈ e.heard, rd.argv = sacctArgv (decimal key.master.toNat) ∧
    ∃ out, rd.result = .ok out ∧ out.exitCode = 0 ∧
      ∃ line ∈ lines out.stdout, ∃ oc info, ParentRow key line oc ∧
        e.after.lifecycle.finished = some info ∧ info.finalState = oc.status.state ∧
        info.finalReason = oc.status.reason ∧ info.exitCode = oc.exitCode

/-- The last answer before the stamp is a squeue listing that still has the single job. -/
def StillListed (e : Write) : Prop :=
  match e.site with
  | .stamp carried => carried.arrayTaskId = none ∧ ∃ rd ∈ e.heard.head?,
      rd.argv = squeueArgv carried.squeueKey ∧
        ∃ status ∈ (squeueStatus carried rd.result).toOption, status.isSome
  | _ => False

instance (e : Write) : Decidable (StillListed e) :=
  match e with
  | { site := .hit, .. } => inferInstanceAs (Decidable False)
  | { site := .vanish, .. } => inferInstanceAs (Decidable False)
  | { site := .rollback _, .. } => inferInstanceAs (Decidable False)
  | { site := .stamp carried, heard, .. } =>
    inferInstanceAs (Decidable (carried.arrayTaskId = none ∧ ∃ rd ∈ heard.head?,
      rd.argv = squeueArgv carried.squeueKey ∧
        ∃ status ∈ (squeueStatus carried rd.result).toOption, status.isSome))

/-- An observation asks squeue and qgroup only. -/
theorem Observed.argv_ne_sacct {snap : SbatchJobSnapshot} {new : List Read}
    {obs : Except Str (Option JobStatus)} (h : Observed snap new obs) {rd : Read} (hrd : rd ∈ new)
    (keys : Str) : rd.argv ≠ sacctArgv keys := by
  intro hs
  cases h with
  | task _ hargv =>
    rw [List.mem_singleton.mp hrd, hargv] at hs
    exact squeueArgv_ne_sacctArgv _ _ hs
  | qgroup _ hargv _ =>
    rw [List.mem_singleton.mp hrd, hargv] at hs
    exact sacctArgv_ne_qgroupArgv _ hs.symm
  | squeue _ hqargv _ hargv =>
    rcases List.mem_cons.mp hrd with rfl | hrd
    · rw [hargv] at hs
      exact squeueArgv_ne_sacctArgv _ _ hs
    · rw [List.mem_singleton.mp hrd, hqargv] at hs
      exact sacctArgv_ne_qgroupArgv _ hs.symm

/-- **One stamp.**  Its outcome comes from sacct exactly when squeue no longer listed the job. -/
theorem Resolved.fromSacct_iff {carried : SbatchJobSnapshot} {new : List Read} {oc : JobOutcome}
    (hres : Resolved carried new (.ok oc)) (hun : ¬ Unusable oc) {first : List Read}
    (hfirst : ∀ rd ∈ first, ∀ keys, rd.argv ≠ sacctArgv keys) {e : Write}
    (hsite : e.site = .stamp carried) (hheard : e.heard = new ++ first) {u : Nat}
    (hafter : e.after = carried.stamped oc u) :
    FromSacct carried.jobKey e ↔ ¬ StillListed e := by
  -- an outcome that is of use comes from a row of the answer, not from the default
  have hrow : ∀ {rd : Read}, rd ∈ new → rd.argv = sacctArgv (decimal carried.jobid.toNat) →
      (sacctOutcome carried rd.result).map (·.getD JobOutcome.default) = .ok oc →
      FromSacct carried.jobKey e := by
    intro rd hrd hargv hmap
    have hsome : sacctOutcome carried rd.result = .ok (some oc) := by
      rcases hoc : sacctOutcome carried rd.result with err | _ | oc'
      · rw [hoc] at hmap
        cases hmap
      · rw [hoc] at hmap
        cases hmap
        exact absurd ⟨rfl, rfl⟩ hun
      · rw [hoc] at hmap
        cases hmap
        rfl
    obtain ⟨out, hr, hz, line, hline, hparent⟩ := sacctOutcome_eq_some hsome
    refine ⟨rd, hheard ▸ List.mem_append_left _ hrd, ?_, out, hr, hz, line, hline, oc, _, hparent,
      by rw [hafter]; rfl, rfl, rfl, rfl⟩
    rw [hargv, carried.jobKey_master]
  unfold StillListed
  simp only [hsite]
  generalize hok : Except.ok oc = res at hres
  cases hres with
  | failed => cases hok
  | task hidx hargv =>
    refine ⟨fun _ h => ?_, fun _ => hrow List.mem_cons_self hargv hok.symm⟩
    rw [hidx] at h
    cases h.1
  | sacct _ _ _ hargv =>
    refine ⟨fun _ ⟨_, rd, hrd, hsq, _⟩ => ?_, fun _ => hrow List.mem_cons_self hargv hok.symm⟩
    rw [hheard, List.cons_append, List.head?_cons, Option.mem_some_iff] at hrd
    rw [← hrd, hargv] at hsq
    cases hsq
  | @listed rd status hidx hargv hst =>
    refine ⟨fun ⟨rd', hrd', hsacct, _⟩ => ?_, fun h => ?_⟩
    · rw [hheard] at hrd'
      rcases List.mem_append.mp hrd' with hrd' | hrd'
      · rw [List.mem_singleton.mp hrd', hargv] at hsacct
        cases hsacct
      · exact absurd hsacct (hfirst rd' hrd' _)
    · refine absurd ⟨hidx, rd, ?_, hargv, some status, ?_, rfl⟩ h
      · rw [hheard]
        rfl
      · rw [hst]
        rfl

/-! ## 3. Every run

As an audit of the writes: a stamp shows what its reads show of the key of its handle. -/

/-- A handle starts without an outcome, and only a stamp records one. -/
def stampAudit (key : Nat → JobKey) : Audit Key where
  shape := toolShape
  quiet _ := False
  holds _ := none
  timely := False
  first h snap := snap.jobKey = key h ∧ snap.lifecycle.finished = none
  read := BareRead
  write e _ _ _ := e.after.jobKey = key e.handle ∧
    match e.site with
    | .hit | .vanish => e.after.lifecycle.finished = e.before.lifecycle.finished
    | .rollback _ => e.after.lifecycle.finished = none
    | .stamp _ => (FromSacct (key e.handle) e ↔ ¬ StillListed e) ∧
        ∀ info, e.after.lifecycle.finished = some info → info.finalState.isKnownLive = false
  read_mono hs h := h.mono hs
  write_mono _ _ h := h

variable {key : Nat → JobKey}

/-- A handle keeps its key. -/
theorem stampAudit_watch {w : World Key} (hi : Inv (stampAudit key) w) (h : Nat) :
    (w.watch h).jobKey = key h :=
  hi.watch_induct h (P := fun snap => snap.jobKey = key h) (fun _ hs => hs.1)
    fun _ _ hw _ he _ => he ▸ hw.1

/-- A refresh stamps nothing. -/
theorem stampAudit_refresh (t h : Nat) : RefreshAllowed (stampAudit key) t h := by
  intro w₁ w₂ new row hsec _
  refine ⟨(SbatchJobSnapshot.observed_jobKey ..).trans (stampAudit_watch hsec.start h), ?_⟩
  cases row <;> rfl

/-- The finalizer stamps what it has read. -/
theorem stampAudit_finalize (t h : Nat) : FinalizeAllowed (stampAudit key) t h [] := by
  intro carried w₁ w₂ new oc u hsec hres hcar _
  obtain ⟨snap, first, row, utc, hobs, hreads, -, -, wr, hwr, -, hh, -, -, hafter⟩ := hcar.origin
  obtain ⟨-, -, -, hkeyw, -⟩ := hsec.start.write_of_mem hwr
  have hkey : carried.jobKey = key h := by
    rw [← hafter, hkeyw, hh]
  refine ⟨fun _ => ⟨hkey, hcar.finished⟩, fun hun hlive => ⟨hkey, ?_, fun info hinfo => ?_⟩⟩
  · dsimp only
    rw [← hkey]
    refine hres.fromSacct_iff hun (fun rd hrd keys => ?_) rfl hsec.heard.readsOf rfl
    rw [hreads, List.append_nil] at hrd
    exact hobs.argv_ne_sacct hrd keys
  · cases hinfo
    simp only [StillLive, not_and_or, not_not, Bool.not_eq_false] at hlive
    rcases hlive with h | h <;> simp [JobState.isKnownLive, h]

/-- The state of the handle: what is recorded has been stamped, and by what. -/
theorem Inv.stamped {w : World Key} (hi : Inv (stampAudit key) w) (h : Nat) {info : FinishedInfo}
    (hinfo : (w.watch h).lifecycle.finished = some info) :
    ∃ e ∈ w.writes, e.handle = h ∧ IsStamp e ∧ e.after.lifecycle.finished = some info := by
  refine hi.watch_induct h (P := fun snap => ∀ info, snap.lifecycle.finished = some info →
    ∃ e ∈ w.writes, e.handle = h ∧ IsStamp e ∧ e.after.lifecycle.finished = some info)
    (fun snap hs info hf => ?_) (fun e older hw he hh hbefore info hf => ?_) info hinfo
  · rw [hs.2] at hf
    cases hf
  · obtain ⟨-, hw⟩ := hw
    cases hsite : e.site with
    | hit | vanish =>
      simp only [hsite] at hw
      exact hbefore info (hw ▸ hf)
    | rollback carried =>
      simp only [hsite] at hw
      rw [hw] at hf
      cases hf
    | stamp carried => exact ⟨e, he, hh, ⟨carried, hsite⟩, hf⟩

/-- **Where a recorded outcome comes from.**  In every run of any calls on handles that start
without an outcome, with any answers: the call that stamped an outcome took it from the job's parent
row in a sacct listing exactly when its last squeue answer did not list the single job any more; so
where no stamp is made on such a listing, every recorded outcome is that of a sacct row.  A recorded
state is never known to be live. -/
theorem outcome_from_sacct {uuids : Supply Nat} {utc n : Nat} {snaps : Nat → SbatchJobSnapshot}
    {store : Store}
    {tasks : Nat → Option (Prog (sig Key) (Except Str SbatchJobSnapshot))}
    {ms : List (Move (machine Key))} {c : Config (machine Key) (Except Str SbatchJobSnapshot)}
    (htasks : Clients runCommand tasks) (hfirst : ∀ h, (snaps h).lifecycle.finished = none)
    (hrun : Config.run ms ⟨World.start uuids utc n snaps store, tasks⟩ = some c) (h : Nat) :
    (∀ e ∈ c.world.writes, e.handle = h → IsStamp e →
      (FromSacct (snaps h).jobKey e ↔ ¬ StillListed e)) ∧
    ∀ info, (c.world.watch h).lifecycle.finished = some info →
      info.finalState.isKnownLive = false ∧
      ∃ e ∈ c.world.writes, e.handle = h ∧ IsStamp e ∧ e.after.lifecycle.finished = some info ∧
        ((∀ e ∈ c.world.writes, ¬ StillListed e) → FromSacct (snaps h).jobKey e) := by
  have hi : Inv (stampAudit fun h => (snaps h).jobKey) c.world :=
    htasks.inv (fun t => serves_runCommand audit_under rfl (fun _ _ _ => trivial)
      (fun _ h => h) fun _ => rfl)
      (fun _ h => h) stampAudit_refresh stampAudit_finalize
      (inv_start False.elim fun h => ⟨rfl, hfirst h⟩)
      (fun t => idle_start t uuids utc n snaps store)
      (fun _ => rfl) hrun
  have hstamp : ∀ e ∈ c.world.writes, e.handle = h → IsStamp e →
      (FromSacct (snaps h).jobKey e ↔ ¬ StillListed e) ∧
        ∀ info, e.after.lifecycle.finished = some info → info.finalState.isKnownLive = false := by
    rintro e he rfl ⟨carried, hsite⟩
    obtain ⟨older, -, -, -, hw⟩ := hi.write_of_mem he
    simpa only [hsite] using hw
  refine ⟨fun e he hh hs => (hstamp e he hh hs).1, fun info hinfo => ?_⟩
  obtain ⟨e, he, hh, hs, hf⟩ := hi.stamped h hinfo
  obtain ⟨hiff, hlive⟩ := hstamp e he hh hs
  exact ⟨hlive info hf, e, he, hh, hs, hf, fun hcond => hiff.mpr (hcond e he)⟩

/-- One call of `refresh_with_sacct`. -/
def oneFinalizer : Config (machine Key) (Except Str SbatchJobSnapshot) :=
  ⟨World.start (.countFrom 0) 0 1 (fun _ => .submitted 1 7 none) [],
    fun t => if t = 0 then some (refreshWithSacct runCommand 0) else none⟩

/-- No listing has the job, sacct has its row. -/
def stampedFromSacct : List (Move (machine Key)) :=
  [passes 0, prints 0 "", prints 0 "", saves 0, passes 0, prints 0 "",
   prints 0 "7|FAILED|NonZeroExitCode|3:0\n7.batch|FAILED||3:0", saves 0]

/-- squeue lists the failed job, for the `refresh` and for the finalizer. -/
def stampedFromSqueue : List (Move (machine Key)) :=
  [passes 0, prints 0 "", prints 0 "7 FAILED NonZeroExitCode", saves 0, passes 0,
   prints 0 "7 FAILED NonZeroExitCode", saves 0]

set_option maxRecDepth 10000 in
/-- A job that has left squeue, with its row in sacct. -/
theorem outcome_from_sacct_row : ∃ c, oneFinalizer.run stampedFromSacct = some c ∧
    (c.world.watch 0).lifecycle.finished = some ⟨.failed, .nonZeroExitCode, some 3, 0⟩ ∧
    ∃ e ∈ c.world.writes, IsStamp e ∧ FromSacct (.plain 7) e := by
  obtain ⟨c, hrun, hfin, hlisted⟩ : ∃ c, oneFinalizer.run stampedFromSacct = some c ∧
      ((c.world.watch 0).lifecycle.finished = some ⟨.failed, .nonZeroExitCode, some 3, 0⟩ ∧
        ∀ e ∈ c.world.writes, ¬ StillListed e) :=
    Config.exists_run (by decide +kernel)
  have htasks : Clients runCommand oneFinalizer.tasks := by
    intro t p ht
    simp only [oneFinalizer, Option.ite_none_right_eq_some, Option.some.injEq] at ht
    exact ⟨0, .inr ht.2.symm⟩
  obtain ⟨-, e, he, -, hstamp, -, hfrom⟩ :=
    (outcome_from_sacct htasks (fun _ => rfl) hrun 0).2 _ hfin
  exact ⟨c, hrun, hfin, e, he, hstamp, hfrom hlisted⟩

set_option maxRecDepth 10000 in
/-- **An outcome is recorded without sacct.**  The exit code is missing, and no sacct command has
been run at all. -/
theorem outcome_from_squeue : ∃ c, oneFinalizer.run stampedFromSqueue = some c ∧
    (c.world.watch 0).lifecycle.finished = some ⟨.failed, .nonZeroExitCode, none, 0⟩ ∧
    (∀ x ∈ c.world.calls, x.argv.head? ≠ some "sacct".toList) ∧
    ∀ e ∈ c.world.writes, ¬ FromSacct (.plain 7) e := by
  obtain ⟨c, hrun, hfin, hcalls, hheard⟩ : ∃ c, oneFinalizer.run stampedFromSqueue = some c ∧
      ((c.world.watch 0).lifecycle.finished = some ⟨.failed, .nonZeroExitCode, none, 0⟩ ∧
        (∀ x ∈ c.world.calls, x.argv.head? ≠ some "sacct".toList) ∧
        ∀ e ∈ c.world.writes, ∀ rd ∈ e.heard, rd.argv.head? ≠ some "sacct".toList) :=
    Config.exists_run (by decide +kernel)
  refine ⟨c, hrun, hfin, hcalls, fun e he ⟨rd, hrd, hargv, _⟩ => hheard e he rd hrd ?_⟩
  rw [hargv]
  rfl

end Sbatch

/-
# Submitting and waiting

`run_with` submits a job, waits until it is over and then asks once for its outcome.  The finalizer
that answers may find the job alive after all: it takes the vanish back, so that polling can resume,
but `run_with` polls no more and returns `MissingFinished` (`gives_up_on_pending`).  It ends on an
answer without a live row where no answer takes back what an earlier one has said (`run_ends_over`).
-/
import SlurmRunner.Sbatch.PollLoop
import SlurmRunner.Sbatch.SharedStore

namespace Sbatch

open Text Slurm Interact

/-! ## 1. The code

`run_with` of the source: a spawn, a wait, and a last `refresh_with_sacct` for the outcome. -/

inductive SbatchRunError where
  | spawn (e : SbatchSpawnError)
  | wait (e : Str)
  | sacct (e : Str)
  | missingFinished (jobid : JobId)
  | jobFailed (state : JobState) (exitCode : Option Int)
  | arrayNotSupported
deriving DecidableEq

/-- `SbatchManager::run_with`, for `fuel` rounds of its wait; `none` when it still polls then.  The
callback only gets the job id. -/
def runWith (cmd : SbatchCmd) (dirs : CurrentDirs) (pollInterval fuel : Nat) :
    Prog (sig Key) (Option (Except SbatchRunError FinishedInfo)) :=
  let dispatcher := handleDispatcher pollInterval runCommand
  if cmd.arraySpec.isSome then return some (.error .arrayNotSupported)
  else do
    match ← spawn cmd dirs with
    | .error e => return some (.error (.spawn e))
    | .ok h =>
      let snapshot ← borrow h
      match ← waitTerminal dispatcher h pollInterval fuel with
      | none => return none
      | some (.error e) => return some (.error (.wait e))
      | some (.ok _) =>
        match ← refreshWithSacct dispatcher h with
        | .error e => return some (.error (.sacct e))
        | .ok snap =>
          match snap.lifecycle.finished with
          | none => return some (.error (.missingFinished snapshot.jobid))
          | some finished =>
            if finished.finalState = .completed then return some (.ok finished)
            else return some (.error (.jobFailed finished.finalState finished.exitCode))

/-- The results that say how the job has ended, or that this is not known. -/
def Concludes : Except SbatchRunError FinishedInfo → Prop
  | .ok _ | .error (.jobFailed _ _) | .error (.missingFinished _) => True
  | _ => False

/-! ## 2. What the answers say

Which answers show a job alive, and which show it over. -/

/-- The row of job `j` in a squeue answer; `none` when the listing does not have it. -/
def squeueRowOf (j : JobId) (r : Answer) : Except Str (Option JobStatus) :=
  squeueListing (fun text => parseSqueue text j) none r

/-- The row of job `j` in an answer to one of the three queries for it. -/
def rowOf (j : JobId) (rd : Read) : Option JobStatus :=
  if rd.argv = qgroupArgv then qgroupStatus j rd.result
  else if rd.argv = squeueArgv (decimal j.toNat) then
    match squeueRowOf j rd.result with
    | .ok row => row
    | .error _ => none
  else if rd.argv = sacctArgv (decimal j.toNat) then
    match toolListing "sacct" (fun text => parseSacctWithExitCode text j) rd.result with
    | .ok oc => oc.map (·.status)
    | .error _ => none
  else none

/-- The answer has a row of the job in a known state that is not terminal. -/
def saysAlive (j : JobId) (rd : Read) : Bool :=
  (rowOf j rd).any fun s => s.state.isKnownLive

/-- The answer has a row of the job in a terminal state, or it is a squeue listing without one. -/
def saysOver (j : JobId) (rd : Read) : Bool :=
  ((rowOf j rd).any fun s => s.state.isTerminal) ||
    (rd.argv = squeueArgv (decimal j.toNat) && squeueRowOf j rd.result = .ok none)

/-- No answer (newest first) takes back that the job is over. -/
def NeverReappears (j : JobId) (reads : List Read) : Prop :=
  reads.Pairwise fun later earlier => saysOver j earlier = true → saysAlive j later = false

instance (j : JobId) (reads : List Read) : Decidable (NeverReappears j reads) :=
  inferInstanceAs (Decidable (List.Pairwise _ reads))

/-- The newest answer has no live row. -/
def EndsOver (j : JobId) (reads : List Read) : Prop :=
  ∃ rd older, reads = rd :: older ∧ saysAlive j rd = false

/-- **A refresh that ends a wait read that the job is over**, if the job had not left the listings
before. -/
theorem Observed.saysOver {snap : SbatchJobSnapshot} {new : List Read} {row : Option JobStatus}
    {now : Nat} (h : Observed snap new (.ok row)) (hsingle : snap.arrayTaskId = none)
    (hends : (snap.observed row now).endsWait) :
    (∃ rd ∈ new, Sbatch.saysOver snap.jobid rd = true) ∨
      snap.lifecycle.leftActiveListing = true := by
  have hkey : snap.squeueKey = decimal snap.jobid.toNat := by
    simp only [SbatchJobSnapshot.squeueKey, hsingle]
  have hstatus : ∀ r, squeueStatus snap r = squeueRowOf snap.jobid r := by
    intro r
    simp only [squeueStatus, hsingle, squeueRowOf]
  have hterminal : ∀ status, row = some status → status.state.isTerminal = true ∨
      snap.lifecycle.leftActiveListing = true := by
    rintro status rfl
    rcases hends with ht | hl
    · exact .inl (by simpa [SbatchJobSnapshot.observedTerminal, SbatchJobSnapshot.observed,
        SbatchJobSnapshot.listed] using ht)
    · exact .inr hl
  generalize hobs : Except.ok row = obs at h
  cases h with
  | task hidx => exact absurd (hsingle.symm.trans hidx) (by simp)
  | @qgroup rd status _ hargv hrow =>
    cases hobs
    rcases hterminal status rfl with ht | hl
    · refine .inl ⟨rd, List.mem_cons_self, ?_⟩
      simp [Sbatch.saysOver, rowOf, hargv, hrow, ht]
    · exact .inr hl
  | @squeue rd rq _ _ _ hargv =>
    rw [hstatus] at hobs
    rw [hkey] at hargv
    have hne := squeueArgv_ne_qgroupArgv (decimal snap.jobid.toNat)
    cases row with
    | none =>
      refine .inl ⟨rd, List.mem_cons_self, ?_⟩
      simp [Sbatch.saysOver, hargv, ← hobs]
    | some status =>
      rcases hterminal status rfl with ht | hl
      · refine .inl ⟨rd, List.mem_cons_self, ?_⟩
        simp [Sbatch.saysOver, rowOf, hargv, hne, ← hobs, ht]
      · exact .inr hl

/-! ## 3. The submission

The job id is that of the first confirming line, and the handle is made with it. -/

section Run

variable {p t : Nat} {w : World Key}

/-- sbatch was run with `argv` and printed the job id. -/
def SubmittedAs (t : Nat) (argv : Argv) (jobid : JobId) (w : World Key) : Prop :=
  ∃ c ∈ w.calls, c.tid = t ∧ c.argv = argv ∧ ∃ out, c.result = .ok out ∧ out.success = true ∧
    parseSubmittedJobid out.stdout = some jobid

/-- The submission is on record from then on. -/
theorem SubmittedAs.mono {argv : Argv} {jobid : JobId} {w w' : World Key}
    (h : SubmittedAs t argv jobid w) (hcalls : w.calls <:+ w'.calls) :
    SubmittedAs t argv jobid w' := by
  obtain ⟨c, hc, hrest⟩ := h
  exact ⟨c, hcalls.subset hc, hrest⟩

/-- A command of a client that runs alone. -/
theorem wp_runCommand_solo (argv : Argv) (hidle : Idle t w) :
    (solo (sessionAudit (some p))).wp t (runCommand argv)
      (fun r w' => (Ran t argv r w w' ∧ Idle t w') ∧ Dispatched t w w') w := by
  refine Context.wp_frame (fun h h' => h.trans h') (fun h => (solo_under.rely h).dispatched)
    (fun ho hp he => exec_dispatched ho hp he) (dispatchesOnly_runCommand argv) ?_
    (Dispatched.refl t w)
  refine Context.wp_mono (wp_runCommand solo_under argv
    (fun hq => absurd hq (sessionAudit_quiet _ t)) fun i hi => by cases hi) ?_
  rintro r w' ⟨hran, hfly, -, hslots, -⟩
  exact ⟨hran, hfly, fun i => hslots i (hidle.2 i)⟩

/-- The job id comes from the answer of the submission. -/
theorem wp_submit (argv : Argv) (hidle : Idle t w) :
    (solo (sessionAudit (some p))).wp t (submit argv) (fun r w' => Idle t w' ∧
      Dispatched t w w' ∧ ∀ jobid, r = .ok jobid → SubmittedAs t argv jobid w') w := by
  unfold submit
  refine Context.wp_seq (wp_runCommand_solo argv hidle) ?_
  rintro r w' ⟨⟨⟨c, -, hc, htid, hargv, hresult, -⟩, hid⟩, hdis⟩
  cases r with
  | error e => exact ⟨hid, hdis, fun _ hr => by cases hr⟩
  | ok out =>
    dsimp only
    split
    · rename_i hsuccess
      split
      · rename_i jobid hjobid
        refine ⟨hid, hdis, fun jobid' hr => ?_⟩
        cases hr
        exact ⟨c, hc, htid, hargv, out, hresult, hsuccess, hjobid⟩
      · exact ⟨hid, hdis, fun _ hr => by cases hr⟩
    · exact ⟨hid, hdis, fun _ hr => by cases hr⟩

/-- The handle is of a single job that was just submitted with `argv`, and nothing was read. -/
structure JustSpawned (cmd : SbatchCmd) (dirs : CurrentDirs) (t : Nat) (w : World Key) (h : Nat)
    (w' : World Key) : Prop where
  idle : Idle t w'
  readsOf : w'.readsOf t = w.readsOf t
  single : (w'.watch h).arrayTaskId = none
  listed : (w'.watch h).lifecycle.leftActiveListing = false
  submitted : ∃ argv, cmd.buildArgv dirs.chdir dirs.script = .ok argv ∧
    SubmittedAs t argv (w'.watch h).jobid w'

/-- **The rule of a spawn**: its handle has the snapshot of the submission. -/
theorem wp_spawn (cmd : SbatchCmd) (dirs : CurrentDirs) (hidle : Idle t w) :
    (solo (sessionAudit (some p))).wp t (spawn cmd dirs)
      (fun r w' => ∀ h, r = .ok h → JustSpawned cmd dirs t w h w') w := by
  have hC := solo_under (A := sessionAudit (some p))
  unfold spawn
  cases hargv : cmd.buildArgv dirs.chdir dirs.script with
  | error e => exact fun _ hr => by cases hr
  | ok argv =>
    refine Context.wp_seq (wp_submit argv hidle) ?_
    rintro r w₁ ⟨hid₁, hdis₁, hsubmitted⟩
    cases r with
    | error e => exact fun _ hr => by cases hr
    | ok jobid =>
      refine Context.wp_bind (wp_perform_sync hC rfl trivial fun _ uuid w₂ _ he _ => ?_)
      cases he
      dsimp only
      split
      · exact fun _ hr => by cases hr
      · rename_i path hpath
        refine Context.wp_bind (wp_utcNow hC fun _ => ?_)
        refine Context.wp_bind (wp_save hC (sessionAudit_quiet _) fun w₃ r hr hi hi' => ?_)
        cases r with
        | error e => exact fun _ hr => by cases hr
        | ok _ =>
          refine Context.wp_bind (wp_perform_sync hC rfl ⟨trivial, False.elim⟩
            fun _ h w₄ _ he _ => ?_)
          cases he
          intro h' hr'
          cases hr'
          have hclock : ClockOnly _ w₃ := hr
          obtain ⟨dt, utc, st, rfl, -⟩ := hclock
          have hwatch : Function.update w₁.watch w₁.handles
              (spawned cmd argv path jobid none (w₁.uuids.next w₁.drawn) w₁.utc) w₁.handles =
              spawned cmd argv path jobid none (w₁.uuids.next w₁.drawn) w₁.utc :=
            Function.update_self ..
          refine ⟨hid₁, hdis₁.readsOf, ?_, ?_, argv, hargv, ?_⟩
          · exact congrArg SbatchJobSnapshot.arrayTaskId hwatch
          · exact congrArg (fun s => s.lifecycle.leftActiveListing) hwatch
          · have hjobid := congrArg SbatchJobSnapshot.jobid hwatch
            exact hjobid ▸ (hsubmitted jobid rfl).mono List.suffix_rfl

/-! ## 4. The wait and the last call

The wait returns when one of its refreshes has read that the job is over, and the last call reads
again. So the last answer shows it over, unless it takes back what an earlier one has said. -/

/-- Handle `h` is of the single job `j`, and if that has left the listings, then one of the answers
since `base` has said so. -/
structure Waiting (t h : Nat) (argv : Argv) (j : JobId) (base : List Read) (w : World Key) :
    Prop where
  idle : Idle t w
  single : (w.watch h).arrayTaskId = none
  jobid : (w.watch h).jobid = j
  submitted : SubmittedAs t argv j w
  heard : ∃ new, w.readsOf t = new ++ base ∧
    ((w.watch h).lifecycle.leftActiveListing = true → ∃ rd ∈ new, saysOver j rd = true)

/-- One of the answers since `base` has said that the job is over. -/
def OverSince (t : Nat) (j : JobId) (base : List Read) (w : World Key) : Prop :=
  ∃ new, w.readsOf t = new ++ base ∧ ∃ rd ∈ new, saysOver j rd = true

/-- Task `t` has read an answer since `w`. -/
def ReadOn (t : Nat) (w w' : World Key) : Prop :=
  ∃ rd more, w'.readsOf t = rd :: more ++ w.readsOf t

/-- Between the calls only time passes. -/
theorem ClockOnly.waiting {h : Nat} {argv : Argv} {j : JobId} {base : List Read} {w w₁ : World Key}
    (hclock : ClockOnly w w₁) (hw : Waiting t h argv j base w) : Waiting t h argv j base w₁ := by
  obtain ⟨dt, utc, st, rfl, -⟩ := hclock
  exact ⟨hw.idle, hw.single, hw.jobid, hw.submitted, hw.heard⟩

/-- A refresh reads after the reads that were made before. -/
theorem Refreshed.readOn {A : Audit Key} {h : Nat} {w₁ w' : World Key}
    {r : Except Str SbatchJobSnapshot} (href : Refreshed A t h w₁ r w') : ReadOn t w₁ w' := by
  obtain ⟨new, obs, hobs, hheard, -⟩ := href
  obtain ⟨rd, more, rfl⟩ := List.exists_cons_of_ne_nil hobs.ne_nil
  exact ⟨rd, more, hheard.readsOf⟩

/-- **A round of the wait** keeps the job, and ends it only when the job is over. -/
theorem Waiting.refreshed {A : Audit Key} {h : Nat} {argv : Argv} {j : JobId} {base : List Read}
    {w₁ w' : World Key} {r : Except Str SbatchJobSnapshot} (hw : Waiting t h argv j base w₁)
    (href : Refreshed A t h w₁ r w') (hidle : Idle t w') :
    Waiting t h argv j base w' ∧ ∀ snap, r = .ok snap → snap.endsWait → OverSince t j base w' := by
  obtain ⟨new, obs, hobs, hheard, helapse, hrec⟩ := href
  obtain ⟨old, hold, hleft⟩ := hw.heard
  have hreads : w'.readsOf t = new ++ old ++ base := by
    rw [hheard.readsOf, hold, List.append_assoc]
  have hsubmitted := hw.submitted.mono helapse.calls
  have hsame : w'.watch h = w₁.watch h → Waiting t h argv j base w' := by
    intro hwatch
    refine ⟨hidle, hwatch ▸ hw.single, hwatch ▸ hw.jobid, hsubmitted, new ++ old, hreads, ?_⟩
    intro hl
    obtain ⟨rd, hrd, hover⟩ := hleft (hwatch ▸ hl)
    exact ⟨rd, List.mem_append_right _ hrd, hover⟩
  cases obs with
  | error e =>
    refine ⟨hsame hrec.2.1, fun snap hr => ?_⟩
    cases hr.symm.trans hrec.1
  | ok row =>
    have hover : ((w₁.watch h).observed row w₁.utc).endsWait →
        ∃ rd ∈ new ++ old, saysOver j rd = true := by
      intro hends
      rcases hobs.saysOver hw.single hends with ⟨rd, hrd, hover⟩ | hl
      · exact ⟨rd, List.mem_append_left _ hrd, hw.jobid ▸ hover⟩
      · obtain ⟨rd, hrd, hover⟩ := hleft hl
        exact ⟨rd, List.mem_append_right _ hrd, hover⟩
    obtain ⟨sv, -, -, -, ⟨e, -, hr, hwatch⟩ | ⟨-, hr, hwatch, -⟩⟩ := hrec
    · refine ⟨hsame hwatch, fun snap hok => ?_⟩
      cases hok.symm.trans hr
    · refine ⟨⟨hidle, ?_, ?_, hsubmitted, new ++ old, hreads, fun hl => hover (.inr (hwatch ▸ hl))⟩,
        fun snap hok hends => ⟨new ++ old, hreads, hover ?_⟩⟩
      · rw [hwatch, SbatchJobSnapshot.observed_arrayTaskId]
        exact hw.single
      · rw [hwatch, SbatchJobSnapshot.observed_jobid]
        exact hw.jobid
      · cases hok.symm.trans hr
        exact hends

/-- **The rule of the wait**: it has read that the job is over. -/
theorem wp_waitTerminal_over {h : Nat} {argv : Argv} {j : JobId} {base : List Read} (fuel : Nat)
    (hw : Waiting t h argv j base w) : (solo (sessionAudit (some p))).wp t
      (waitTerminal (handleDispatcher p runCommand) h p fuel) (fun r w' => ∀ snap,
        r = some (.ok snap) → Waiting t h argv j base w' ∧ OverSince t j base w') w := by
  have hC := solo_under (A := sessionAudit (some p))
  refine wp_waitTerminalFrom hC (sessionAudit_quiet _) (P := fun _ => Waiting t h argv j base)
    (fun k w₁ hw₁ => ?_) (fun _ _ hr => by cases hr) fuel hw
  refine Context.wp_mono (wp_refresh hC (serves_dispatcherOf (some p) t) (sessionAudit_quiet _)
    (sessionAudit_refresh _ t h) hw₁.idle) ?_
  rintro r w' ⟨w₂, hclock, -, href, hid⟩
  obtain ⟨hw', hover⟩ := (ClockOnly.waiting hclock hw₁).refreshed href hid
  cases r with
  | ok snap =>
    refine ⟨fun hends snap' hr => ?_, fun w'' hr _ _ => ClockOnly.waiting hr hw'⟩
    exact ⟨hw', hover snap rfl hends⟩
  | error e =>
    exact ⟨fun _ _ hr => (by cases hr), fun w'' hr _ _ => ClockOnly.waiting hr hw'⟩

/-- **The last call** reads on, for the same job. -/
theorem wp_refreshWithSacct_readOn {h : Nat} {argv : Argv} {j : JobId} {base : List Read}
    (hw : Waiting t h argv j base w) : (solo (sessionAudit (some p))).wp t
      (refreshWithSacct (handleDispatcher p runCommand) h)
      (fun _ w' => SubmittedAs t argv j w' ∧ ReadOn t w w') w := by
  have hC := solo_under (A := sessionAudit (some p))
  refine Context.wp_mono (wp_refreshWithSacct hC (serves_dispatcherOf (some p) t)
    (sessionAudit_quiet _) (sessionAudit_refresh _ t h) (sessionAudit_finalize _ t h _) hw.idle) ?_
  rintro r w' ⟨⟨w₁, r₁, w₂, hclock, -, href, hcases⟩, -⟩
  have hw₁ := ClockOnly.waiting hclock hw
  have hreads₁ : w₁.readsOf t = w.readsOf t := (ClockOnly.others hclock).dispatched.readsOf
  obtain ⟨-, -, -, -, helapse, -⟩ := id href
  have hsubmitted := hw₁.submitted.mono helapse.calls
  obtain ⟨rd, more, hmore⟩ := href.readOn
  rw [hreads₁] at hmore
  rcases hcases with ⟨-, rfl, -⟩ | ⟨carried, w₃, -, hclock', -, -, hfin⟩
  · exact ⟨hsubmitted, rd, more, hmore⟩
  · have hdis := (ClockOnly.others (t := t) hclock').dispatched
    obtain ⟨new, res, hres, hheard, helapse', -⟩ := hfin
    obtain ⟨rd', more', rfl⟩ := List.exists_cons_of_ne_nil hres.ne_nil
    refine ⟨(hsubmitted.mono hdis.calls).mono helapse'.calls, rd', more' ++ rd :: more, ?_⟩
    rw [hheard.readsOf, hdis.readsOf, hmore]
    simp only [List.cons_append, List.append_assoc]

/-- The command was submitted, and the newest of the answers that were read since `w` has no live
row, unless one of them takes back what another has said. -/
def RanOver (cmd : SbatchCmd) (dirs : CurrentDirs) (t : Nat) (w w' : World Key) : Prop :=
  ∃ argv jobid new, cmd.buildArgv dirs.chdir dirs.script = .ok argv ∧
    SubmittedAs t argv jobid w' ∧ w'.readsOf t = new ++ w.readsOf t ∧
    (NeverReappears jobid new → EndsOver jobid new)

/-- **The rule of the whole call.** -/
theorem wp_runWith (cmd : SbatchCmd) (dirs : CurrentDirs) (fuel : Nat) (hidle : Idle t w) :
    (solo (sessionAudit (some p))).wp t (runWith cmd dirs p fuel)
      (fun r w' => ∀ res, r = some res → Concludes res → RanOver cmd dirs t w w') w := by
  have hC := solo_under (A := sessionAudit (some p))
  unfold runWith
  dsimp only
  split
  · rintro res hr hcon
    cases hr
    exact hcon.elim
  · refine Context.wp_seq (wp_spawn cmd dirs hidle) ?_
    intro r w₁ hspawned
    cases r with
    | error e =>
      rintro res hr hcon
      cases hr
      exact hcon.elim
    | ok h =>
      obtain ⟨hid, hreads, hsingle, hlisted, argv, hargv, hsubmitted⟩ := hspawned h rfl
      refine Context.wp_bind (wp_borrow hC fun _ => ?_)
      have hw : Waiting t h argv (w₁.watch h).jobid (w.readsOf t) w₁ :=
        ⟨hid, hsingle, rfl, hsubmitted, [], hreads, fun hl => by rw [hlisted] at hl; cases hl⟩
      refine Context.wp_seq (wp_waitTerminal_over fuel hw) ?_
      intro r w₂ hover
      rcases r with _ | e | snap
      · intro res hr
        cases hr
      · rintro res hr hcon
        cases hr
        exact hcon.elim
      · obtain ⟨hw₂, new, hnew, rd, hrd, hsays⟩ := hover snap rfl
        refine Context.wp_seq (wp_refreshWithSacct_readOn hw₂) ?_
        rintro r w₃ ⟨hsubmitted₃, last, more, hlast⟩
        have hran : RanOver cmd dirs t w w₃ := by
          refine ⟨argv, _, last :: more ++ new, hargv, hsubmitted₃, ?_, fun hnever => ?_⟩
          · rw [hlast, hnew, List.append_assoc]
          · have hafter := (List.pairwise_cons.mp hnever).1 rd (List.mem_append_right _ hrd)
            exact ⟨last, more ++ new, rfl, hafter hsays⟩
        cases r with
        | error e =>
          rintro res hr hcon
          cases hr
          exact hcon.elim
        | ok snap =>
          dsimp only
          split
          · exact fun _ _ _ => hran
          · split <;> exact fun _ _ _ => hran

/-- **`run_with` ends on a job that is over**, where no answer takes back that it is: after any
calls of other clients, and with any answers, its last answer has no row of the job in a known state
that is not terminal. -/
theorem run_ends_over {cmd : SbatchCmd} {dirs : CurrentDirs} {scan : Store → Store}
    {uuids : Supply Nat} {utc n fuel : Nat} {snaps : Nat → SbatchJobSnapshot} {store : Store}
    {steps : List (ClientCall × List (Input ⊕ Tick))} {as : List ClientAnswer}
    {ms : List (Input ⊕ Tick)} {res : Except SbatchRunError FinishedInfo} {w' : World Key}
    (hbefore : (machine Key).serve t (ClientCall.program (some p) scan) steps
      (World.start uuids utc n snaps store) = some (as, w))
    (hcall : (machine Key).call t (runWith cmd dirs p fuel) ms w = some (some res, w'))
    (hres : Concludes res) : RanOver cmd dirs t w w' := by
  have hrest := ClientCall.serve_rest hbefore
  have hwp := wp_runWith (p := p) cmd dirs fuel hrest.idle
  obtain ⟨hran, -⟩ :=
    (solo (sessionAudit (some p))).wp_call ms _ w (some res) w' hrest.inv hwp hcall
  exact hran res rfl hres

end Run

/-! ### A job that is listed late -/

/-- Job 8 is submitted, the listings do not have it yet, and sacct prints `row`. -/
def listedLate (row : Str) : List (Input ⊕ Tick) :=
  goesOn 1 ++ answers "Submitted batch job 8\n" ++ goesOn 2 ++ storesIt ++
    goesOn 12 ++ answers "" ++
    goesOn 11 ++ answers "" ++ goesOn 4 ++ storesIt ++ goesOn 19 ++ storesIt ++ goesOn 17 ++
    answers row ++ goesOn 5 ++ storesIt ++ goesOn 2

def runJobSh : Prog (sig Key) (Option (Except SbatchRunError FinishedInfo)) :=
  runWith (.new "job.sh") ⟨.ok "/w", .ok "/w", .ok "/w"⟩ 60 1

def noJobs : World Key := World.start (.countFrom 0) 0 0 (fun _ => .submitted 1 8 none) []

set_option maxRecDepth 10000 in
/-- A job that is listed late and then completes. -/
theorem run_ends_over_completed : ∃ res w',
    (machine Key).call 0 runJobSh (listedLate "8|COMPLETED|None|0:0") noJobs = some (some res, w') ∧
      NeverReappears 8 (w'.readsOf 0) ∧
      RanOver (.new "job.sh") ⟨.ok "/w", .ok "/w", .ok "/w"⟩ 0 noJobs w' := by
  obtain ⟨r, w', hcall, hr, hnever⟩ : ∃ r w',
      (machine Key).call 0 runJobSh (listedLate "8|COMPLETED|None|0:0") noJobs = some (r, w') ∧
        (r.any fun res => decide (res = .ok ⟨.completed, .none, some 0, 0⟩)) = true ∧
        NeverReappears 8 (w'.readsOf 0) :=
    (machine Key).exists_call (by decide +kernel)
  obtain ⟨res, rfl, hres⟩ := (Option.any_eq_true _ _).mp hr
  have hconcludes : Concludes res := of_decide_eq_true hres ▸ trivial
  have hbefore : (machine Key).serve 0 (ClientCall.program (some 60) id) [] noJobs =
      some ([], noJobs) := rfl
  exact ⟨res, w', hcall, hnever, run_ends_over hbefore hcall hconcludes⟩

set_option maxRecDepth 10000 in
/-- **The job is pending, and `run_with` gives up on it.** -/
theorem gives_up_on_pending : ∃ w' rd older,
    (machine Key).call 0 runJobSh (listedLate "8|PENDING|None|0:0") noJobs =
        some (some (.error (.missingFinished 8)), w') ∧
      (∀ c ∈ w'.calls, ∃ out, c.result = .ok out ∧ out.exitCode = 0) ∧
      (∀ sv ∈ w'.saves, sv.result = .ok ()) ∧ w'.readsOf 0 = rd :: older ∧
      saysAlive 8 rd = true := by
  obtain ⟨r, w', hcall, hr, hcalls, hsaves, hlast⟩ : ∃ r w',
      (machine Key).call 0 runJobSh (listedLate "8|PENDING|None|0:0") noJobs = some (r, w') ∧
        (r.any fun res => decide (res = .error (.missingFinished 8))) = true ∧
        (∀ c ∈ w'.calls, (c.result.toOption.any fun out => out.exitCode == 0) = true) ∧
        (∀ sv ∈ w'.saves, sv.result = .ok ()) ∧
        ((w'.readsOf 0).head?.any (saysAlive 8)) = true :=
    (machine Key).exists_call (by decide +kernel)
  obtain ⟨res, rfl, hres⟩ := (Option.any_eq_true _ _).mp hr
  obtain rfl : res = .error (.missingFinished 8) := of_decide_eq_true hres
  obtain ⟨rd, hrd, halive⟩ := (Option.any_eq_true _ _).mp hlast
  obtain ⟨older, holder⟩ := List.head?_eq_some_iff.mp hrd
  refine ⟨w', rd, older, hcall, fun c hc => ?_, hsaves, holder, halive⟩
  have hzero := hcalls c hc
  cases hresult : c.result with
  | error e =>
    rw [hresult] at hzero
    cases hzero
  | ok out =>
    rw [hresult] at hzero
    exact ⟨out, rfl, by simpa [Except.toOption] using hzero⟩

end Sbatch

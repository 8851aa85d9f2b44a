/-
# A probe that was killed

A `squeue` that a signal terminates is answered for with exit code 0, so its output up to then is
read as a complete listing.  The handle takes the job for gone unless the row of the job had been
written by then.
-/
import SlurmRunner.Sbatch.Session
import SlurmRunner.Slurm.Process

namespace Sbatch

open Text Slurm Interact

/-- The row of the job, or of the task, in the text of a squeue listing. -/
def SbatchJobSnapshot.rowIn (snap : SbatchJobSnapshot) (text : Str) : Option JobStatus :=
  match snap.arrayTaskId with
  | some idx => parseSqueueArrayTask text (taskKey snap.jobid idx)
  | none => parseSqueue text snap.jobid

/-- Any successful answer is a listing. -/
theorem squeueStatus_success {snap : SbatchJobSnapshot} {out : CaptureOutput}
    (hsuccess : out.success = true) :
    squeueStatus snap (.ok out) = .ok (snap.rowIn out.stdout) := by
  have hvanish : squeueReportsVanished out = false := by
    have hcode : out.exitCode = 0 := by simpa [CaptureOutput.success] using hsuccess
    simp [squeueReportsVanished, hcode]
  unfold squeueStatus SbatchJobSnapshot.rowIn
  cases snap.arrayTaskId <;> simp [squeueListing, ensureQuerySuccess, hvanish, hsuccess]

/-- A handle takes what a killed squeue has written for the whole listing. -/
theorem squeueStatus_terminated {snap : SbatchJobSnapshot} {program : Str} {args : List Str}
    {output : ProcessOutput} (hsignal : output.status.byASignal = true) :
    squeueStatus snap (tokioCapture (program :: args) (.ok output)) =
      .ok (snap.rowIn (fromUtf8Lossy output.stdout)) := by
  obtain ⟨out, hout, hsuccess, hstdout⟩ := tokioCapture_terminated hsignal
  rw [hout, squeueStatus_success hsuccess, hstdout]

/-- The newest answer of a probe, if it is one to the squeue query of the handle, decides. -/
theorem Observed.of_squeue {snap : SbatchJobSnapshot} {rd : Read} {earlier : List Read}
    {obs : Except Str (Option JobStatus)} (h : Observed snap (rd :: earlier) obs)
    (hargv : rd.argv = squeueArgv snap.squeueKey) : obs = squeueStatus snap rd.result := by
  cases h with
  | task | squeue => rfl
  | qgroup _ hq _ => exact absurd (hq.symm.trans hargv) (by simp [qgroupArgv, squeueArgv])

section Call

variable {cache : Option Nat} {h : Nat} {w w' : World Key} {ms : List (Input ⊕ Tick)}
  {r : Except Str SbatchJobSnapshot}

/-- The flag `left_active_listing` of handle `h` goes up between two worlds. -/
def TakenForGone (h : Nat) (w w' : World Key) : Prop :=
  (w.watch h).lifecycle.leftActiveListing = false ∧
    (w'.watch h).lifecycle.leftActiveListing = true

/-- A save between two worlds that the store refused. -/
def SaveRefused (w w' : World Key) : Prop :=
  ∃ sv, w'.savesOf 0 = sv :: w.savesOf 0 ∧ ∃ e, sv.result = .error e

/-- **What a `refresh` makes of a killed squeue**, from a state in which nothing is pending. -/
theorem call_killed (hw : Rest cache 0 w)
    (hcall : (machine Key).call 0 (refresh (dispatcherOf cache) h) ms w = some (r, w'))
    {rd : Read} {earlier : List Read} (hread : w'.readsOf 0 = rd :: earlier)
    (hargv : rd.argv = squeueArgv (w.watch h).squeueKey) {program : Str} {args : List Str}
    {output : ProcessOutput} (hprobe : rd.result = tokioCapture (program :: args) (.ok output))
    (hsignal : output.status.byASignal = true) :
    TakenForGone h w w' ↔ (w.watch h).lifecycle.leftActiveListing = false ∧
      (w.watch h).rowIn (fromUtf8Lossy output.stdout) = none ∧ ¬ SaveRefused w w' := by
  obtain ⟨-, -, halone, w₁, hclock, new, obs, hobs, hheard, -, hrec⟩ := call_refresh hw hcall
  have hhead : ∃ tail, new = rd :: tail := by
    cases new with
    | nil => exact absurd rfl hobs.ne_nil
    | cons x tail =>
      have hlog := hheard.readsOf.symm.trans hread
      exact ⟨tail, by rw [(List.cons.inj hlog).1]⟩
  obtain ⟨tail, rfl⟩ := hhead
  have hwatch : w₁.watch h = w.watch h := by
    obtain ⟨dt, utc, st, rfl, -⟩ := hclock
    rfl
  rw [hwatch] at hobs hrec
  rw [hobs.of_squeue hargv, hprobe, squeueStatus_terminated hsignal] at hrec
  have hcommit := (Recorded.earlier hrec hclock).committed halone
  cases hrow : (w.watch h).rowIn (fromUtf8Lossy output.stdout) with
  | some status =>
    -- a listed job keeps its flag
    rw [hrow] at hcommit
    refine ⟨fun hgone => ?_, fun hc => absurd hc.2.1 (by simp)⟩
    have hkept : (w'.watch h).lifecycle.leftActiveListing =
        (w.watch h).lifecycle.leftActiveListing := by
      cases hcommit with
      | failed hwatch' => rw [hwatch']
      | stored hwatch' => rw [hwatch']; rfl
    rw [TakenForGone, hkept] at hgone
    exact absurd (hgone.1.symm.trans hgone.2) Bool.false_ne_true
  | none =>
    rw [hrow] at hcommit
    cases hcommit with
    | failed hwatch' _ hsaves =>
      refine ⟨fun hgone => ?_, fun hc => absurd ⟨_, hsaves, _, rfl⟩ hc.2.2⟩
      rw [TakenForGone, hwatch'] at hgone
      exact absurd (hgone.1.symm.trans hgone.2) Bool.false_ne_true
    | stored hwatch' _ hsaves =>
      refine ⟨fun hgone => ⟨hgone.1, rfl, ?_⟩, fun hc => ⟨hc.1, by rw [hwatch']; rfl⟩⟩
      rintro ⟨sv, hsv, e, he⟩
      rw [hsaves] at hsv
      rw [← (List.cons.inj hsv).1] at he
      cases he

end Call

/-- **When a killed probe is no vanish.**  After any session of calls on any number of handles, a
`refresh` whose squeue query was answered by `TokioDispatcher` from the process `output` meets "if a
signal terminated it, the flag does not go up" exactly when no signal did, or the flag was up, or
the output had a row of the job, or the save failed. -/
theorem killed_probe {uuids : Supply Nat} {utc n h : Nat} {snaps : Nat → SbatchJobSnapshot}
    {store : Store}
    {cache : Option Nat} {steps : List (Request × List (Input ⊕ Tick))}
    {rs : List (Except Str SbatchJobSnapshot)} {w w' : World Key} {ms : List (Input ⊕ Tick)}
    {r : Except Str SbatchJobSnapshot}
    (hbefore : (machine Key).serve 0 (Request.program (dispatcherOf cache)) steps
      (World.start uuids utc n snaps store) = some (rs, w))
    (hcall : (machine Key).call 0 (refresh (dispatcherOf cache) h) ms w = some (r, w'))
    {rd : Read} {earlier : List Read} (hread : w'.readsOf 0 = rd :: earlier)
    (hargv : rd.argv = squeueArgv (w.watch h).squeueKey) {program : Str} {args : List Str}
    {output : ProcessOutput} (hprobe : rd.result = tokioCapture (program :: args) (.ok output)) :
    (output.status.byASignal = true → ¬ TakenForGone h w w') ↔
      output.status.byASignal = false ∨ (w.watch h).lifecycle.leftActiveListing = true ∨
        ((w.watch h).rowIn (fromUtf8Lossy output.stdout)).isSome = true ∨ SaveRefused w w' := by
  have hkilled := call_killed (serve_rest (rest_start ..) hbefore) hcall hread hargv hprobe
  cases hsignal : output.status.byASignal with
  | false => simp
  | true =>
    rw [hkilled hsignal]
    cases (w.watch h).lifecycle.leftActiveListing <;>
      cases (w.watch h).rowIn (fromUtf8Lossy output.stdout) <;> simp

/-! ### Killed before and after the row of the job -/

/-- A squeue that the kernel kills after it has written `text`. -/
def killedAfter (text : Str) : ProcessOutput :=
  ⟨.terminated 9, text.map fun c => UInt8.ofNat c.toNat, []⟩

/-- A `refresh` of job 8 alone whose squeue is killed after it has written `text`. -/
def killedMoves (text : Str) : List (Input ⊕ Tick) :=
  goesOn 5 ++ answers "" ++ goesOn 3 ++
    [.inl (.output (tokioCapture (squeueArgv "8") (.ok (killedAfter text))))] ++ goesOn 1 ++
    storesIt ++ goesOn 2

/-- Job 8, just submitted. -/
def jobEight : World Key := World.start (.countFrom 0) 0 1 (fun _ => .submitted 1 8 none) []

/-- The newest answer that the caller read is that of this squeue. -/
def readsKilled (text : Str) (w : (machine Key).World) : Bool :=
  (w.readsOf 0).head?.any fun rd => rd.argv == squeueArgv "8" &&
    rd.result == tokioCapture (squeueArgv "8") (.ok (killedAfter text))

/-- The flag of handle 0 is up. -/
def flagUp (w : (machine Key).World) : Bool := (w.watch 0).lifecycle.leftActiveListing

/-- A `refresh` whose squeue is killed before it has written anything takes the job for gone. -/
theorem killed_taken_for_gone : ∃ r w',
    (machine Key).call 0 (refresh runCommand 0) (killedMoves "") jobEight = some (r, w') ∧
    readsKilled "" w' = true ∧ (killedAfter "").status.byASignal = true ∧
    TakenForGone 0 jobEight w' := by
  have hrun : ∃ r w', (machine Key).call 0 (refresh runCommand 0) (killedMoves "") jobEight =
      some (r, w') ∧ readsKilled "" w' = true ∧ flagUp w' = true :=
    (machine Key).exists_call (by decide +kernel)
  obtain ⟨r, w', hcall, hread, hgone⟩ := hrun
  exact ⟨r, w', hcall, hread, rfl, rfl, hgone⟩

theorem killed_probe_listed : ∃ r w',
    (machine Key).call 0 (refresh runCommand 0) (killedMoves "8 RUN") jobEight = some (r, w') ∧
    (killedAfter "8 RUN").status.byASignal = true ∧ ¬ TakenForGone 0 jobEight w' := by
  have hrun : ∃ r w', (machine Key).call 0 (refresh runCommand 0) (killedMoves "8 RUN") jobEight =
      some (r, w') ∧ readsKilled "8 RUN" w' = true :=
    (machine Key).exists_call (by decide +kernel)
  obtain ⟨r, w', hcall, hread⟩ := hrun
  cases hlog : w'.readsOf 0 with
  | nil => simp [readsKilled, hlog] at hread
  | cons rd earlier =>
    simp only [readsKilled, hlog, List.head?_cons, Option.any_some, Bool.and_eq_true,
      beq_iff_eq] at hread
    have hstart : (machine Key).serve 0 (Request.program (dispatcherOf none)) []
        (World.start (.countFrom 0) 0 1 (fun _ => .submitted 1 8 none) []) =
          some ([], jobEight) := rfl
    have hexact := killed_probe hstart hcall hlog hread.1 hread.2
    exact ⟨r, w', hcall, rfl, hexact.mpr (.inr (.inr (.inl (by decide +kernel)))) rfl⟩

end Sbatch

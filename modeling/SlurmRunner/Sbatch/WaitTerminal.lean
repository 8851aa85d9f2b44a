/-
# How many failures end a wait

`wait_terminal` gives up after five failed refreshes in a row.  A refresh fails because squeue does,
but through the caches of a manager several refreshes may read the one failure.  They do not where
the poll interval is at least the `ttl` of the caches, and the squeue cache holds no failure of the
job's own from before the wait.
-/
import SlurmRunner.Sbatch.Evidence

namespace Sbatch

open Text Slurm Interact

/-! ## 1. Failing squeue commands

A failure is counted here once for the call of squeue that has failed, however often it is replayed;
the loop of the source counts every refresh that fails. -/

/-- The command failed: it did not start, or exited nonzero without the vanish signal. -/
def squeueFailed : Answer → Bool
  | .error _ => true
  | .ok out => out.exitCode ≠ 0 && !squeueReportsVanished out

/-- The squeue commands among `calls` that completed since `start` and failed. -/
def squeueFailures (start : Nat) (calls : List Call) : List Call :=
  calls.filter fun c => decide (start ≤ c.doneAt) && squeueFailed c.result &&
    (squeueSummaryShape.parse c.argv).isSome

/-- An error of the listing is a failure of the command. -/
theorem squeueListing_eq_error {α : Type} {parse : Str → α} {empty : α} {r : Answer} {e : Str}
    (h : squeueListing parse empty r = .error e) : squeueFailed r = true := by
  unfold squeueListing at h
  cases r with
  | error e' => rfl
  | ok out =>
    dsimp only at h
    split at h
    · cases h
    · rename_i hv
      unfold ensureQuerySuccess at h
      split at h
      · rename_i hs
        split at hs
        · cases hs
        · rename_i hz
          simpa [squeueFailed, hv, CaptureOutput.success] using hz
      · cases h

/-- So is an error of the status. -/
theorem squeueStatus_eq_error {snap : SbatchJobSnapshot} {r : Answer} {e : Str}
    (h : squeueStatus snap r = .error e) : squeueFailed r = true := by
  unfold squeueStatus at h
  split at h <;> exact squeueListing_eq_error h

/-- An answer that is a failure comes from a command that failed. -/
theorem Source.failed {ttl : Nat} {rd : Read} {c : Call} (h : Source ttl rd c)
    (hf : squeueFailed rd.result = true) : squeueFailed c.result = true := by
  cases hc : c.result with
  | error e => rfl
  | ok out =>
    rw [(h.output out).mpr hc] at hf
    exact hf

/-- A probe that fails read a failing answer to the squeue query of its job. -/
theorem Observed.failed {snap : SbatchJobSnapshot} {new : List Read} {e : Str}
    (h : Observed snap new (.error e)) : ∃ rd ∈ new, rd.argv = squeueArgv snap.squeueKey ∧
      squeueFailed rd.result = true := by
  generalize hobs : Except.error e = obs at h
  cases h with
  | task _ hargv | squeue _ _ _ hargv =>
    exact ⟨_, List.mem_cons_self, hargv, squeueStatus_eq_error hobs.symm⟩
  | qgroup => cases hobs

/-! ## 2. The wait

With an entry that has expired, a refresh that fails has sent a command of its own, and this one has
failed. -/

/-- The handles keep their keys. -/
def waitAudit (ttl : Nat) (key : Nat → JobKey) : Audit Key where
  shape := toolShape
  quiet _ := False
  holds _ := none
  timely := False
  first h snap := snap.jobKey = key h
  read := CachedRead ttl
  seen := CachedSince ttl
  write e _ _ _ := e.after.jobKey = key e.handle
  read_mono hs h := h.mono hs
  write_mono _ _ h := h
  seen_mono hel hs h := h.mono hel hs

/-- A handle keeps its key. -/
theorem waitAudit_watch {ttl : Nat} {key : Nat → JobKey} {w : World Key}
    (hi : Inv (waitAudit ttl key) w) (h : Nat) : (w.watch h).jobKey = key h :=
  hi.watch_induct h (P := fun snap => snap.jobKey = key h) (fun _ hs => hs)
    fun _ _ hw _ he _ => he ▸ hw

/-- A refresh may publish what it saw of its own key. -/
theorem waitAudit_refresh (ttl : Nat) (key : Nat → JobKey) (t h : Nat) :
    RefreshAllowed (waitAudit ttl key) t h := fun _ _ _ _ hsec _ =>
  (SbatchJobSnapshot.observed_jobKey ..).trans (waitAudit_watch hsec.start h)

/-- So may the finalizer. -/
theorem waitAudit_finalize (ttl : Nat) (key : Nat → JobKey) (t h : Nat) (base : List Read) :
    FinalizeAllowed (waitAudit ttl key) t h base := by
  intro carried w₁ w₂ new oc u hsec _ hcar _
  obtain ⟨-, -, -, -, -, -, -, -, wr, hwr, -, hh, -, -, hafter⟩ := hcar.origin
  obtain ⟨older, -, -, hw⟩ := hsec.start.write_of_mem hwr
  have hkey : carried.jobKey = key h := by
    rw [← hafter, ← hh]
    exact hw
  exact ⟨fun _ => hkey, fun _ _ => hkey⟩

/-- The squeue cache has a failure to replay to the job. -/
def HoldsFailure (ttl : Nat) (key : JobKey) (w : World Key) : Prop :=
  ∃ e, (w.slots .squeue).entry = some e ∧ key ∈ e.keys ∧ squeueFailed e.result = true ∧
    w.instant < e.storedAt + ttl

/-- There are `k` separate failures since `start`, all of them at least `gap` ago. -/
def Failed (start k gap : Nat) (w : World Key) : Prop :=
  ∃ cs : List Call, cs.length = k ∧ cs.Nodup ∧
    ∀ c ∈ cs, c ∈ squeueFailures start w.calls ∧ c.doneAt + gap ≤ w.instant

/-- No failure has to have occurred before the first one. -/
theorem failed_zero (start gap : Nat) (w : World Key) : Failed start 0 gap w :=
  ⟨[], rfl, List.nodup_nil, fun _ h => by cases h⟩

/-- A failed call has failed. -/
theorem squeueFailures_mono {start : Nat} {calls calls' : List Call} (h : calls <:+ calls') :
    squeueFailures start calls ⊆ squeueFailures start calls' := by
  intro c hc
  rw [squeueFailures, List.mem_filter] at hc ⊢
  exact ⟨h.subset hc.1, hc.2⟩

/-- The gap since the last failure grows. -/
theorem Failed.elapse {start k gap d : Nat} {w w' : World Key} (h : Failed start k gap w)
    (hel : Elapse w w') (hd : w.instant + d ≤ w'.instant) : Failed start k (gap + d) w' := by
  obtain ⟨cs, hlen, hnodup, hcs⟩ := h
  refine ⟨cs, hlen, hnodup, fun c hc => ⟨squeueFailures_mono hel.calls (hcs c hc).1, ?_⟩⟩
  have := (hcs c hc).2
  omega

/-- The failures of the wait are different calls. -/
theorem Failed.le_length {start k gap : Nat} {w : World Key} (h : Failed start k gap w) :
    k ≤ (squeueFailures start w.calls).length := by
  obtain ⟨cs, rfl, hnodup, hcs⟩ := h
  exact (List.subperm_of_subset hnodup fun c hc => (hcs c hc).1).length_le

/-- **A failed refresh is a new failure**, if the last one is at least `ttl` ago. -/
theorem Failed.succ {ttl : Nat} {key : Nat → JobKey} {t h p k : Nat} {w₀ w w₁ w' : World Key}
    {new : List Read} {e : Str} (hp : 0 < p) (httl : ttl ≤ p)
    (hslot : ¬ HoldsFailure ttl (key h) w₀) (hel₀ : Elapse w₀ w) (hk : Failed w₀.instant k p w)
    (hel : Elapse w w₁) (hi : Inv (waitAudit ttl key) w₁)
    (hobs : Observed (w₁.watch h) new (.error e))
    (hheard : Heard (waitAudit ttl key) t w₁ w' new) (hel' : Elapse w₁ w')
    (hi' : Inv (waitAudit ttl key) w') : Failed w₀.instant (k + 1) 0 w' := by
  obtain ⟨cs, hlen, hnodup, hcs⟩ := hk
  obtain ⟨rd, hrd, hargv, hfail⟩ := hobs.failed
  have hseen : CachedSince ttl w₀ rd w'.calls :=
    (hheard.seen rd hrd).mono (hel₀.trans hel) List.suffix_rfl
  have hsince : w.instant ≤ rd.since := hel.instant.trans (hheard.since rd hrd).2
  obtain ⟨c, hc, hcov, hsrc, hfrom⟩ := hseen.source (hel₀.instant.trans hsince)
    (hargv ▸ parse_squeueKey (w₁.watch h))
  have hcf := hsrc.failed hfail
  obtain ⟨batch, hb, hkey⟩ := (hargv ▸ hcov).squeue
  -- the cache keeps a failure for less than `ttl`, so this one is younger than those before
  have hnew : ∀ x, x + p ≤ w.instant → x < c.doneAt := by
    intro x hx
    have := hsrc.started
    rcases hsrc.recent with h | h <;> omega
  have hstart : w₀.instant ≤ c.doneAt := by
    rcases hfrom with hlate | ⟨entry, hentry, hat, hres, hkeys⟩
    · exact hlate
    · by_contra hlt
      refine hslot ⟨entry, hentry, ?_, hres ▸ hcf, ?_⟩
      · rw [← waitAudit_watch hi h]
        exact hkeys _ (List.mem_singleton_self _)
      · have := hel₀.instant
        have := hsrc.started
        rcases hsrc.recent with h | h <;> omega
  have hmem : c ∈ squeueFailures w₀.instant w'.calls := by
    refine List.mem_filter.mpr ⟨hc, ?_⟩
    have hparse := JobKey.parseCsv_buildCsv (List.ne_nil_of_mem hkey)
    rw [← squeue_parse_squeueArgv, ← hb] at hparse
    simp [hstart, hcf, hparse]
  refine ⟨c :: cs, by simp [hlen], List.nodup_cons.mpr ⟨fun hold => ?_, hnodup⟩, fun x hx => ?_⟩
  · exact absurd (hnew _ (hcs c hold).2) (lt_irrefl _)
  · rcases List.mem_cons.mp hx with rfl | hx
    · exact ⟨hmem, (hi'.calls x hc).2⟩
    · have hel'' := hel.trans hel'
      have := hel''.instant
      have := (hcs x hx).2
      exact ⟨squeueFailures_mono hel''.calls (hcs x hx).1, by omega⟩

/-- A save has failed. -/
def SaveFailed (w : World Key) : Prop := ∃ sv ∈ w.saves, sv.result ≠ .ok ()

/-- A save that has failed has failed. -/
theorem SaveFailed.elapse {w w' : World Key} (h : SaveFailed w) (hel : Elapse w w') :
    SaveFailed w' := by
  obtain ⟨sv, hsv, hres⟩ := h
  exact ⟨sv, hel.saves.subset hsv, hres⟩

/-- A wait since `start` has given up for a reason: five failures, or one of a save. -/
def GivenUp (start : Nat) (r : Option (Except Str SbatchJobSnapshot)) (w : World Key) : Prop :=
  ∀ e, r = some (.error e) → SaveFailed w ∨ 5 ≤ (squeueFailures start w.calls).length

/-- What made a wait give up stays on record. -/
theorem GivenUp.elapse {start : Nat} {r : Option (Except Str SbatchJobSnapshot)}
    {w w' : World Key} (h : GivenUp start r w) (hel : Elapse w w') : GivenUp start r w' :=
  fun e he => (h e he).imp (·.elapse hel) fun hlen => hlen.trans
    ((hel.calls.sublist.filter _).length_le)

section Wait

variable {ttl : Nat} {key : Nat → JobKey} {t h p : Nat} {w₀ w : World Key}
  {C : Context (machine Key)}

/-- **A refresh that fails adds a failed squeue call**, or a save has failed. -/
theorem wp_refresh_countsOn (hC : Under (waitAudit ttl key) C) (hp : 0 < p) (httl : ttl ≤ p)
    (hslot : ¬ HoldsFailure ttl (key h) w₀) {k : Nat} (hi : Inv (waitAudit ttl key) w)
    (hel₀ : Elapse w₀ w) (hk : SaveFailed w ∨ Failed w₀.instant k p w) (hidle : Idle t w) :
    C.wp t (refresh (handleDispatcher ttl runCommand) h) (fun r w' =>
      Inv (waitAudit ttl key) w' ∧ Elapse w₀ w' ∧ Idle t w' ∧
      ∀ e, r = .error e → SaveFailed w' ∨ Failed w₀.instant (k + 1) 0 w') w := by
  have hd := serves_handleDispatcher hC (t := t) rfl rfl (fun _ _ _ h => h) (fun _ h => h)
    fun _ => rfl
  refine Context.wp_mono (Context.wp_inv (hC.inv.symm ▸ hi)
    (wp_refresh hC hd (fun _ h => h) (waitAudit_refresh ttl key t h) hidle)) ?_
  rintro r w' ⟨⟨w₁, hr, hi₁, ⟨new, obs, hobs, hheard, hel', hrec⟩, hid'⟩, hi'⟩
  replace hi' : Inv (waitAudit ttl key) w' := hC.inv ▸ hi'
  have hel := (hC.rely hr).dispatched.toElapse
  refine ⟨hi', (hel₀.trans hel).trans hel', hid', fun e he => ?_⟩
  cases obs with
  | error e' =>
    exact hk.imp (·.elapse (hel.trans hel'))
      (·.succ hp httl hslot hel₀ hel hi₁ hobs hheard hel' hi')
  | ok row =>
    obtain ⟨sv, hsv, -, -, ⟨e', hres, -, -⟩ | ⟨-, hr, -⟩⟩ := hrec
    · have hmem : sv ∈ w'.savesOf t := hsv ▸ List.mem_cons_self
      exact .inl ⟨sv, (List.mem_filter.mp hmem).1, by simp [hres]⟩
    · cases hr.symm.trans he

/-- **What a wait does.** -/
theorem wp_waitTerminal_givenUp (hC : Under (waitAudit ttl key) C) (hp : 0 < p) (httl : ttl ≤ p)
    (hslot : ¬ HoldsFailure ttl (key h) w) (fuel : Nat) (hi : Inv (waitAudit ttl key) w)
    (hidle : Idle t w) :
    C.wp t (waitTerminal (handleDispatcher ttl runCommand) h p fuel) (GivenUp w.instant) w := by
  have hlater : ∀ {k : Nat} {w' w'' : World Key}, Elapse w w' → Idle t w' →
      (SaveFailed w' ∨ Failed w.instant k 0 w') → C.rely t w' w'' →
      Inv (waitAudit ttl key) w'' → w'.instant + p ≤ w''.instant →
      Inv (waitAudit ttl key) w'' ∧ Elapse w w'' ∧ Idle t w'' ∧
        (SaveFailed w'' ∨ Failed w.instant k p w'') := by
    intro k w' w'' hel hid hk hr hi'' hwake
    have ho := hC.rely hr
    have hel' := ho.dispatched.toElapse
    refine ⟨hi'', hel.trans hel', ho.idle hid, hk.imp (·.elapse hel') fun hf => ?_⟩
    exact Nat.zero_add p ▸ hf.elapse hel' hwake
  refine wp_waitTerminalFrom hC (fun _ h => h) (P := fun k w' => Inv (waitAudit ttl key) w' ∧
    Elapse w w' ∧ Idle t w' ∧ (SaveFailed w' ∨ Failed w.instant k p w')) ?_
    (fun _ e he => by cases he) fuel ⟨hi, Elapse.refl w, hidle, .inr (failed_zero ..)⟩
  rintro k w₁ ⟨hi₁, hel₁, hid₁, hk⟩
  refine Context.wp_mono (wp_refresh_countsOn hC hp httl hslot hi₁ hel₁ hk hid₁) ?_
  rintro r w' ⟨-, hel', hid', hcount⟩
  cases r with
  | ok snap =>
    exact ⟨fun _ e he => (by cases he), fun _ => hlater hel' hid' (.inr (failed_zero ..))⟩
  | error e =>
    refine ⟨fun hmax _ _ => ?_, fun _ => hlater hel' hid' (hcount e rfl)⟩
    exact (hcount e rfl).imp_right fun hf => le_trans hmax hf.le_length

end Wait

/-! ## 3. Every run

Any number of clients, each at one of the calls of its handle. -/

/-- What the clients of a manager run, on any handle: a wait, or one of the calls. -/
inductive Client (d : Dispatcher Key) :
    Prog (sig Key) (Option (Except Str SbatchJobSnapshot)) → Prop
  | refresh (h) : Client d (do return some (← refresh d h))
  | refreshWithSacct (h) : Client d (do return some (← refreshWithSacct d h))
  | waitTerminal (h p fuel) : Client d (waitTerminal d h p fuel)

/-- A client begins at an await. -/
theorem Client.suspended {d : Dispatcher Key} {p : Prog (sig Key) _} (h : Client d p) :
    (machine Key).Suspended p := by
  cases h with
  | refresh | refreshWithSacct => rfl
  | waitTerminal h p fuel => cases fuel <;> trivial

/-- Its calls keep to the audit. -/
theorem Client.wp {ttl : Nat} {key : Nat → JobKey} {t : Nat} {w : World Key}
    {p : Prog (sig Key) (Option (Except Str SbatchJobSnapshot))}
    (h : Client (handleDispatcher ttl runCommand) p) (hidle : Idle t w) :
    (audit (waitAudit ttl key)).wp t p (fun _ _ => True) w := by
  have hd := serves_handleDispatcher (audit_under (A := waitAudit ttl key)) (t := t) rfl rfl
    (fun _ _ _ h => h) (fun _ h => h) fun _ => rfl
  cases h with
  | refresh h =>
    exact Context.wp_seq (wp_refresh audit_under hd (fun _ h => h) (waitAudit_refresh ttl key t h)
      hidle) fun _ _ _ => trivial
  | refreshWithSacct h =>
    exact Context.wp_seq (wp_refreshWithSacct audit_under hd (fun _ h => h)
      (waitAudit_refresh ttl key t h) (waitAudit_finalize ttl key t h _) hidle) fun _ _ _ => trivial
  | waitTerminal h p fuel =>
    refine wp_waitTerminalFrom audit_under (fun _ h => h) (P := fun _ => Idle t) (fun k w hid => ?_)
      (fun _ => trivial) fuel hidle
    refine Context.wp_mono (wp_refresh audit_under hd (fun _ h => h)
      (waitAudit_refresh ttl key t h) hid) ?_
    rintro r w' ⟨-, -, -, -, hid'⟩
    cases r with
    | ok snap => exact ⟨fun _ => trivial, fun w'' hr _ _ => hr.idle hid'⟩
    | error e => exact ⟨fun _ => trivial, fun w'' hr _ _ => hr.idle hid'⟩

/-- **A wait is ended by five failures**, if the poll interval is at least the `ttl` and the squeue
cache has no failure of the job's own when the wait starts.  The other clients do as they like, any
of them may be dropped, and the wait has as many rounds as it needs. -/
theorem wait_ended_by_failures {uuids : Supply Nat} {ttl utc n t h p fuel : Nat}
    {snaps : Nat → SbatchJobSnapshot}
    {store : Store} {tasks : Nat → Option (Prog (sig Key) (Option (Except Str SbatchJobSnapshot)))}
    {ms ms' : List (Move (machine Key))}
    {c c' : Config (machine Key) (Option (Except Str SbatchJobSnapshot))} {e : Str}
    (htasks : ∀ u q, tasks u = some q → Client (handleDispatcher ttl runCommand) q)
    (hwait : tasks t = some (waitTerminal (handleDispatcher ttl runCommand) h p fuel))
    (hbefore : Config.run ms ⟨World.start uuids utc n snaps store, tasks⟩ = some c)
    (hstarts : ∀ m ∈ ms, m.task ≠ some t) (hduring : c.run ms' = some c')
    (herror : c'.result t = some (some (.error e)))
    (hsaves : ∀ sv ∈ c'.world.saves, sv.result = .ok ()) (hp : 0 < p) (httl : ttl ≤ p)
    (hslot : ¬ HoldsFailure ttl (snaps h).jobKey c.world) :
    5 ≤ (squeueFailures c.world.instant c'.world.calls).length := by
  let A := waitAudit ttl fun h => (snaps h).jobKey
  have hsafe : Config.Safe (audit A) (fun _ _ _ => True)
      (⟨World.start uuids utc n snaps store, tasks⟩ : Config (machine Key) _) :=
    ⟨inv_start False.elim fun _ => rfl, fun u q hq => (htasks u q hq).suspended,
      fun u q hq => (htasks u q hq).wp (idle_start u uuids utc n snaps store)⟩
  have hstay : ∀ u (a : Option (Except Str SbatchJobSnapshot)) (w w' : World Key), True →
      (audit A).rely u w w' → True := fun _ _ _ _ _ _ => trivial
  obtain ⟨hrely, htask⟩ := Config.run_rely hstay hsafe hstarts hbefore
  have hsafe₁ := Config.run_sound hstay hsafe hbefore
  have hidle : Idle t c.world := hrely.idle (idle_start t uuids utc n snaps store)
  -- from here on the wait has the postcondition `GivenUp`
  have hsafe₂ : Config.Safe (audit A)
      (fun u r w => u = t → GivenUp c.world.instant r w) c := by
    refine ⟨hsafe₁.inv, hsafe₁.suspended, fun u q hq => ?_⟩
    by_cases hu : u = t
    · subst hu
      cases hq.symm.trans (htask.trans hwait)
      exact Context.wp_mono
        (wp_waitTerminal_givenUp audit_under hp httl hslot fuel hsafe₁.inv hidle)
        fun _ _ hg _ => hg
    · exact Context.wp_mono (hsafe₁.proved u q hq) fun _ _ _ hut => absurd hut hu
  have hend := Config.run_sound (fun u r w w' hg hr hut => (hg hut).elapse hr.dispatched.toElapse)
    hsafe₂ hduring
  rcases hend.post herror rfl e rfl with ⟨sv, hsv, hbad⟩ | hfive
  · exact absurd (hsaves sv hsv) hbad
  · exact hfive

/-- One wait, polling every `p` seconds, through caches of 60 s. -/
def oneWait (p : Nat) : Config (machine Key) (Option (Except Str SbatchJobSnapshot)) :=
  ⟨World.start (.countFrom 0) 0 1 (fun _ => .submitted 1 7 none) [],
    fun t => if t = 0 then some (waitTerminal (handleDispatcher 60 runCommand) 0 p 5) else none⟩

/-- The squeue command of task 0 fails. -/
def squeueFails : Move (machine Key) := .pass 0 (.output (.ok ⟨1, [], "timed out"⟩))

/-- A round of the wait that runs both commands, the second of which fails. -/
def failingRound : List (Move (machine Key)) :=
  [passes 0, passes 0, prints 0 "", passes 0, squeueFails]

/-- The sleep before the next round. -/
def sleeps (p : Nat) (round : List (Move (machine Key))) : List (Move (machine Key)) :=
  waits p 0 :: passes 0 :: round

/-- Five rounds, each with a failure of its own. -/
def fiveFailures : List (Move (machine Key)) :=
  failingRound ++ sleeps 60 failingRound ++ sleeps 60 failingRound ++ sleeps 60 failingRound ++
    sleeps 60 failingRound

/-- A failing round, and four that are answered from the caches. -/
def oneFailure : List (Move (machine Key)) :=
  failingRound ++ sleeps 5 [passes 0, passes 0, passes 0] ++
    sleeps 5 [passes 0, passes 0, passes 0] ++
    sleeps 5 [passes 0, passes 0, passes 0] ++ sleeps 5 [passes 0, passes 0, passes 0]

/-- What the wait returns. -/
def timedOut : Option (Except Str SbatchJobSnapshot) :=
  some (.error "`squeue` exited with 1: timed out")

set_option maxRecDepth 10000 in
/-- Five polls, each of which fails. -/
theorem wait_ended_by_failures_polled : ∃ c, (oneWait 60).run fiveFailures = some c ∧
    c.result 0 = some timedOut ∧ 5 ≤ (squeueFailures 0 c.world.calls).length := by
  obtain ⟨c, hrun, hres, hsaves⟩ : ∃ c, (oneWait 60).run fiveFailures = some c ∧
      (c.result 0 = some timedOut ∧ c.world.saves = []) :=
    Config.exists_run (by decide +kernel)
  have htasks : ∀ t q, (oneWait 60).tasks t = some q →
      Client (handleDispatcher 60 runCommand) q := by
    intro t q hq
    simp only [oneWait, Option.ite_none_right_eq_some, Option.some.injEq] at hq
    exact hq.2 ▸ .waitTerminal 0 60 5
  have hslot : ¬ HoldsFailure 60 (.plain 7) (oneWait 60).world := by
    rintro ⟨_, he, _⟩
    cases he
  have hbefore : Config.run ([] : List (Move (machine Key))) (oneWait 60) = some (oneWait 60) := rfl
  exact ⟨c, hrun, hres, wait_ended_by_failures (t := 0) htasks rfl hbefore
    (fun _ hm => by cases hm) hrun hres (fun sv hsv => by rw [hsaves] at hsv; cases hsv)
    (by decide) (le_refl _) hslot⟩

set_option maxRecDepth 10000 in
/-- **One failure ends a wait.**  The squeue cache replays it for a minute, the wait polls every
five seconds. -/
theorem wait_ended_by_one_failure : ∃ c, (oneWait 5).run oneFailure = some c ∧
    c.result 0 = some timedOut ∧ c.world.saves = [] ∧
    (squeueFailures 0 c.world.calls).length = 1 :=
  Config.exists_run (by decide +kernel)

end Sbatch

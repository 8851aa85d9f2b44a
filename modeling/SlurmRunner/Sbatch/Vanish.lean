/-
# No vanish is made up

A `refresh` declares a job gone when no listing has it.  Through the caches of a manager the listing
may be a replay, and may have been asked for by another handle; it is still a squeue listing of less
than `ttl` ago that was asked for this job's own key and does not have it.
-/
import SlurmRunner.Sbatch.Evidence

namespace Sbatch

open Text Slurm Interact

/-- The squeue command behind a published vanish.  The refresh that published `e` asked at
`rd.since` and was answered at `rd.readAt`; the command completed in between or less than `ttl`
before. -/
def VanishEvidence (ttl : Nat) (key : JobKey) (e : Write) (calls : List Call) : Prop :=
  ∃ rd ∈ e.heard, rd.readAt ≤ e.writtenAt ∧
    ∃ c ∈ calls, c.doneAt ≤ rd.readAt ∧ (rd.since ≤ c.doneAt ∨ rd.since < c.doneAt + ttl) ∧
      (∃ batch, c.argv = squeueArgv (JobKey.buildCsv batch) ∧ key ∈ batch) ∧
      ∃ out, c.result = .ok out ∧ SaysGone key out

/-- The handles keep their keys, and every vanish has its evidence. -/
def vanishAudit (ttl : Nat) (key : Nat → JobKey) : Audit Key where
  shape := toolShape
  quiet _ := False
  holds _ := none
  timely := False
  first h snap := snap.jobKey = key h
  read := CachedRead ttl
  write e _ _ calls := e.after.jobKey = key e.handle ∧
    (e.before.lifecycle.leftActiveListing = false → e.after.lifecycle.leftActiveListing = true →
      VanishEvidence ttl (key e.handle) e calls)
  read_mono hs h := h.mono hs
  write_mono _ hc h := by
    refine ⟨h.1, fun h1 h2 => ?_⟩
    obtain ⟨rd, hrd, hat, c, hmem, hrest⟩ := h.2 h1 h2
    exact ⟨rd, hrd, hat, c, hc.subset hmem, hrest⟩

theorem vanishAudit_watch {ttl : Nat} {key : Nat → JobKey} {w : World Key}
    (hi : Inv (vanishAudit ttl key) w) (h : Nat) : (w.watch h).jobKey = key h :=
  hi.watch_induct h (P := fun snap => snap.jobKey = key h) (fun _ hs => hs)
    fun _ _ hw _ he _ => he ▸ hw.1

/-- A missing row in an answer that the section heard is evidence. -/
theorem Section.vanishEvidence {ttl : Nat} {key : Nat → JobKey} {t h : Nat} {w₁ w₂ : World Key}
    {new : List Read} (hsec : Section (vanishAudit ttl key) t h w₁ w₂ new) {rd : Read}
    (hrd : rd ∈ new) (hargv : rd.argv = squeueArgv (w₁.watch h).squeueKey)
    (hgone : squeueStatus (w₁.watch h) rd.result = .ok none) (after : SbatchJobSnapshot) :
    VanishEvidence ttl (w₁.watch h).jobKey
      ⟨t, h, .vanish, w₁.watch h, after, w₂.instant, w₂.readsOf t⟩ w₂.calls := by
  obtain ⟨hle, hat, hread⟩ := hsec.now.reads rd (hsec.heard.mem hrd)
  obtain ⟨c, hc, hcov, hsrc⟩ := hread.source (hargv ▸ parse_squeueKey (w₁.watch h))
  obtain ⟨batch, hb, hkey⟩ := (hargv ▸ hcov).squeue
  obtain ⟨out, hout, hsays⟩ := squeueStatus_eq_none hgone
  refine ⟨rd, hsec.heard.readsOf ▸ List.mem_append_left _ hrd, hat, c, hc, hsrc.done, ?_,
    ⟨batch, hb, hkey⟩, out, (hsrc.output out).mp hout, hsays⟩
  exact hsrc.recent.imp_left fun h => h.trans (hsec.now.calls c hc).1

theorem vanishAudit_refresh (ttl : Nat) (key : Nat → JobKey) (t h : Nat) :
    RefreshAllowed (vanishAudit ttl key) t h := by
  intro w₁ w₂ new row hsec hobs
  have hkey := vanishAudit_watch hsec.start h
  refine ⟨(SbatchJobSnapshot.observed_jobKey ..).trans hkey, fun hbefore hafter => ?_⟩
  dsimp only
  rw [← hkey]
  cases row with
  | some status => exact absurd (hbefore.symm.trans hafter) (by simp)
  | none =>
    generalize hst : Except.ok (none : Option JobStatus) = obs at hobs
    cases hobs with
    | task _ hargv => exact hsec.vanishEvidence List.mem_cons_self hargv hst.symm _
    | qgroup => cases hst
    | squeue _ _ _ hargv => exact hsec.vanishEvidence List.mem_cons_self hargv hst.symm _

/-- The tasks of the clients: each is one call of `refresh`, on any handle. -/
def Refreshers (d : Dispatcher Key)
    (tasks : Nat → Option (Prog (sig Key) (Except Str SbatchJobSnapshot))) : Prop :=
  ∀ t p, tasks t = some p → ∃ h, p = refresh d h

/-- **No vanish is made up.**  In every run of any number of handles through the stacked caches of
their manager, with any answers of the inner commands, a job that a `refresh` declares gone was
missing from a squeue listing of its own key, less than `ttl` old. -/
theorem vanish_not_fabricated {uuids : Supply Nat} {ttl utc n : Nat}
    {snaps : Nat → SbatchJobSnapshot} {store : Store}
    {tasks : Nat → Option (Prog (sig Key) (Except Str SbatchJobSnapshot))}
    {ms : List (Move (machine Key))} {c : Config (machine Key) (Except Str SbatchJobSnapshot)}
    (htasks : Refreshers (handleDispatcher ttl runCommand) tasks)
    (hrun : Config.run ms ⟨World.start uuids utc n snaps store, tasks⟩ = some c) :
    ∀ e ∈ c.world.writes, e.before.lifecycle.leftActiveListing = false →
      e.after.lifecycle.leftActiveListing = true →
      VanishEvidence ttl (snaps e.handle).jobKey e c.world.calls := by
  have hi : Inv (vanishAudit ttl fun h => (snaps h).jobKey) c.world := by
    refine tasks_inv (inv_start False.elim fun _ => rfl) (fun t p ht => ?_) (fun t p ht => ?_) hrun
    · obtain ⟨h, rfl⟩ := htasks t p ht
      rfl
    · obtain ⟨h, rfl⟩ := htasks t p ht
      exact Context.wp_mono (wp_refresh audit_under (serves_handleDispatcher audit_under rfl rfl
        (fun _ _ _ _ => trivial) (fun _ h => h) fun _ => rfl)
        (fun _ h => h) (vanishAudit_refresh ttl _ t h)
        (idle_start t uuids utc n snaps store)) fun _ _ _ => trivial
  intro e he hbefore hafter
  obtain ⟨older, -, -, -, hev⟩ := hi.write_of_mem he
  exact hev hbefore hafter

/-- Two handles of one manager: a single job and a task of another array. -/
def twoJobs : Config (machine Key) (Except Str SbatchJobSnapshot) :=
  ⟨World.start (.countFrom 0) 0 2 (fun h => .submitted h 7 (if h = 0 then none else some 3)) [],
    fun t => if t < 3 then some (refresh (handleDispatcher 60 runCommand) (t % 2)) else none⟩

/-- The listing of the task's query also answers the refresh of the single job, which had registered
its key with an earlier query. -/
def vanishReplayed : List (Move (machine Key)) :=
  [passes 0, passes 0, prints 0 "", passes 0, prints 0 "7 RUNNING None", saves 0,
   waits 60 60,
   passes 1, passes 1, prints 1 "7_3 RUNNING None", saves 1,
   passes 2, passes 2, prints 2 "", passes 2, saves 2]

set_option maxRecDepth 10000 in
/-- The vanish that rests on a replay. -/
theorem vanish_not_fabricated_replay : ∃ c, twoJobs.run vanishReplayed = some c ∧
    c.world.calls.length = 4 ∧ ∃ e ∈ c.world.writes,
      (e.before.lifecycle.leftActiveListing = false ∧
        e.after.lifecycle.leftActiveListing = true) ∧
      VanishEvidence 60 (.plain 7) e c.world.calls := by
  obtain ⟨c, hrun, hlen, e, he, hh, h1, h2⟩ : ∃ c, twoJobs.run vanishReplayed = some c ∧
      (c.world.calls.length = 4 ∧ ∃ e ∈ c.world.writes, e.handle = 0 ∧
        e.before.lifecycle.leftActiveListing = false ∧
        e.after.lifecycle.leftActiveListing = true) :=
    Config.exists_run (by decide +kernel)
  have htasks : Refreshers (handleDispatcher 60 runCommand) twoJobs.tasks := by
    intro t p ht
    simp only [twoJobs, Option.ite_none_right_eq_some, Option.some.injEq] at ht
    exact ⟨t % 2, ht.2.symm⟩
  have hev := vanish_not_fabricated htasks hrun e he h1 h2
  rw [hh] at hev
  exact ⟨c, hrun, hlen, e, he, ⟨h1, h2⟩, hev⟩

end Sbatch

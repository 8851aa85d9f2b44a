/-
# Finished and running

`is_finished` says that an outcome has been recorded, `is_running` that the newest listing has the
job running.  A stamp records its outcome on a snapshot that does not run, but a later refresh keeps
the outcome whatever it reads.  So both hold where a refresh lists a finished job as running and
that job had not been missed by a listing before.
-/
import SlurmRunner.Sbatch.Publication

namespace Sbatch

open Text Slurm Interact

/-! ## 1. One publication

`is_running` reads the last status and `is_finished` reads the exit.  A stamp leaves the status of
the observation before it, so the two exclude each other as long as no later observation shows the
job running. -/

/-- The snapshot does not report a recorded outcome and a running job at once. -/
def SbatchJobSnapshot.Excludes (snap : SbatchJobSnapshot) : Prop :=
  snap.lifecycle.isFinished = true → snap.lifecycle.isRunning = false

/-- A refresh listed the job as running that had its outcome and had not left the listings. -/
def Write.RunsAgain (e : Write) : Prop :=
  e.before.lifecycle.isFinished = true ∧ e.before.lifecycle.leftActiveListing = false ∧
    ∃ status, e.ListedAs status ∧ status.state.isRunning = true

/-- A job that has left the listing is not running. -/
theorem isRunning_of_left {lifecycle : SbatchLifecycle} (h : lifecycle.leftActiveListing = true) :
    lifecycle.isRunning = false := by
  rw [SbatchLifecycle.isRunning, if_pos h]

/-- Of the others the last status decides. -/
theorem isRunning_of_present {lifecycle : SbatchLifecycle}
    (h : lifecycle.leftActiveListing = false) :
    lifecycle.isRunning =
      (lifecycle.lastObservedState.map fun s => s.state.isRunning).getD false := by
  rw [SbatchLifecycle.isRunning, if_neg (by simp [h])]

/-- A terminal state is no running one. -/
theorem not_isRunning_of_isTerminal {s : JobState} (h : s.isTerminal = true) :
    s.isRunning = false := by
  cases s <;> first | rfl | cases h

/-- A snapshot that is due for the finalizer does not run. -/
theorem SbatchJobSnapshot.endsWait.isRunning {snap : SbatchJobSnapshot} (h : snap.endsWait) :
    snap.lifecycle.isRunning = false := by
  by_cases hleft : snap.lifecycle.leftActiveListing = true
  · exact isRunning_of_left hleft
  · rw [isRunning_of_present (by simpa using hleft)]
    rcases h with hterm | h
    · rw [observedTerminal] at hterm
      cases hstate : snap.lifecycle.lastObservedState with
      | none => rfl
      | some status =>
        rw [hstate] at hterm
        exact not_isRunning_of_isTerminal hterm
    · exact absurd h hleft

/-- **A publication breaks the exclusion exactly if the job runs again.** -/
theorem Grounded.excludes_iff {e : Write} (h : Grounded e) : e.after.Excludes ↔ ¬ e.RunsAgain := by
  cases h with
  | observed hsaw hsite hafter =>
    rename_i row now
    rw [hafter]
    rcases row with _ | status
    · constructor
      · rintro - ⟨-, -, status, ⟨hhit, -⟩, -⟩
        cases hhit.symm.trans hsite
      · intro _ _
        exact isRunning_of_left rfl
    · have hpresent : e.before.lifecycle.leftActiveListing = false →
          (e.before.observed (some status) now).lifecycle.isRunning = status.state.isRunning :=
        fun hleft => isRunning_of_present hleft
      constructor
      · rintro hex ⟨hfin, hleft, status', ⟨-, hlisted⟩, hruns⟩
        cases hsaw.unique hlisted
        cases ((hpresent hleft).symm.trans (hex hfin)).symm.trans hruns
      · intro hagain hfin
        by_cases hleft : e.before.lifecycle.leftActiveListing = true
        · exact isRunning_of_left hleft
        · rw [Bool.not_eq_true] at hleft
          rw [hpresent hleft]
          by_contra hruns
          rw [Bool.not_eq_false] at hruns
          exact hagain ⟨hfin, hleft, status, ⟨hsite, hsaw⟩, hruns⟩
  | rolledBack _ hsite _ hnone hafter =>
    constructor
    · rintro - ⟨-, -, status, ⟨hhit, -⟩, -⟩
      cases hhit.symm.trans hsite
    · intro _ hfin
      rw [hafter, SbatchLifecycle.isFinished, SbatchJobSnapshot.rolledBack_finished, hnone] at hfin
      cases hfin
  | stamped _ hsite hdue hafter =>
    constructor
    · rintro - ⟨-, -, status, ⟨hhit, -⟩, -⟩
      cases hhit.symm.trans hsite
    · intro _ _
      rw [hafter]
      exact hdue.isRunning

/-! ## 2. Every run

By induction on the writes of the handle. -/

/-- The watch value is the newest of the values that the handle has had. -/
theorem Inv.watch_mem_history {A : Audit Key} {w : World Key} (hi : Inv A w) (h : Nat) :
    w.watch h ∈ w.history h := by
  rw [hi.watch h, current, World.history]
  split
  · rename_i e he
    have hhandle := List.find?_some he
    refine List.mem_append_left _ (List.mem_map_of_mem (List.mem_filter.mpr ?_))
    exact ⟨List.mem_of_find?_eq_some he, hhandle⟩
  · exact List.mem_append_right _ (List.mem_singleton_self _)

/-- **A handle is never finished and running, unless a finished job runs again.**  In every run of
calls and waits from freshly spawned snapshots, all values that a handle has had exclude it exactly
if none of its refreshes listed the finished job as running. -/
theorem finished_excludes_running {cache : Option Nat} {uuids : Supply Nat} {utc n : Nat}
    {snaps : Nat → SbatchJobSnapshot} {store : Store}
    {tasks : Nat → Option (Prog (sig Key) (Option (Except Str SbatchJobSnapshot)))}
    {ms : List (Move (machine Key))}
    {c : Config (machine Key) (Option (Except Str SbatchJobSnapshot))}
    (htasks : ∀ u q, tasks u = some q → Client (dispatcherOf cache) q)
    (hfresh : ∀ h, (snaps h).lifecycle = .default)
    (hrun : Config.run ms ⟨World.start uuids utc n snaps store, tasks⟩ = some c) (h : Nat) :
    c.world.watch h ∈ c.world.history h ∧
    ((∀ snap ∈ c.world.history h, snap.Excludes) ↔
      ∀ e ∈ c.world.writes, e.handle = h → ¬ e.RunsAgain) := by
  let spawned : SbatchJobSnapshot → Prop := fun snap => snap.lifecycle = .default
  have hi : Inv (groundedAudit cache spawned fun _ => False) c.world :=
    run_grounded htasks hfresh hrun
  have hground : ∀ e ∈ c.world.writes, Grounded e := by
    intro e he
    obtain ⟨-, -, -, hg, -⟩ := hi.write_of_mem he
    exact hg
  refine ⟨hi.watch_mem_history h, ?_, ?_⟩
  · intro hall e he hh
    refine (hground e he).excludes_iff.mp (hall _ (List.mem_append_left _ ?_))
    exact List.mem_map_of_mem (List.mem_filter.mpr ⟨he, by simpa using hh⟩)
  · intro hnone snap hsnap
    rcases List.mem_append.mp hsnap with hsnap | hsnap
    · obtain ⟨e, he, rfl⟩ := List.mem_map.mp hsnap
      obtain ⟨he, hh⟩ := List.mem_filter.mp he
      exact (hground e he).excludes_iff.mpr (hnone e he (by simpa using hh))
    · rw [List.mem_singleton.mp hsnap]
      have hfirst : (c.world.initial h).lifecycle = .default := hi.first h
      intro hfin
      rw [hfirst] at hfin
      cases hfin

/-- A task of an array is finalized, and then refreshed. -/
def finalizedOnce : Config (machine Key) (Option (Except Str SbatchJobSnapshot)) :=
  ⟨World.start (.countFrom 0) 0 1 (fun _ => .submitted 1 7 (some 3)) [], fun
    | 0 => some (do return some (← refreshWithSacct (dispatcherOf none) 0))
    | 1 => some (do return some (← refresh (dispatcherOf none) 0))
    | _ => none⟩

/-- Both listings have the task as completed. -/
def completes : List (Move (machine Key)) :=
  [passes 0, prints 0 "7_3 COMPLETED None", saves 0,
   passes 0, prints 0 "7_3|COMPLETED|None|0:0", saves 0]

/-- The task is requeued, and runs. -/
def requeues : List (Move (machine Key)) := [passes 1, prints 1 "7_3 RUNNING None", saves 1]

/-- Two clients, of which one finalizes and the other one refreshes. -/
theorem finalizedOnce_clients : ∀ u q, finalizedOnce.tasks u = some q →
    Client (dispatcherOf none) q := by
  intro u q hq
  match u, hq with
  | 0, hq => exact Option.some.inj hq ▸ .refreshWithSacct 0
  | 1, hq => exact Option.some.inj hq ▸ .refresh 0

set_option maxRecDepth 10000 in
/-- A job that completes and is stamped. -/
theorem finished_excludes_running_completed : ∃ c, finalizedOnce.run completes = some c ∧
    (c.world.watch 0).lifecycle.isFinished = true ∧
    ∀ snap ∈ c.world.history 0, snap.Excludes := by
  obtain ⟨c, hrun, hfin, hnew⟩ : ∃ c, finalizedOnce.run completes = some c ∧
      ((c.world.watch 0).lifecycle.isFinished = true ∧
        ∀ e ∈ c.world.writes, e.before.lifecycle.isFinished = false) :=
    Config.exists_run (by decide +kernel)
  refine ⟨c, hrun, hfin, ?_⟩
  refine (finished_excludes_running finalizedOnce_clients (fun _ => rfl) hrun 0).2.mpr ?_
  intro e he _ hagain
  cases (hnew e he).symm.trans hagain.1

set_option maxRecDepth 10000 in
/-- **Finished and running at once.**  The outcome was recorded, and the requeued task runs. -/
theorem finished_and_running : ∃ c, finalizedOnce.run (completes ++ requeues) = some c ∧
    (∀ s ∈ c.world.saves, s.result = .ok ()) ∧
    (c.world.watch 0).lifecycle.isFinished = true ∧
    (c.world.watch 0).lifecycle.isRunning = true :=
  Config.exists_run (by decide +kernel)

end Sbatch

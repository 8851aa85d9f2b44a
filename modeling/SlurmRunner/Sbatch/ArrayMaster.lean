/-
# The handle of an array as a whole

A handle without a task index may be that of an array: `spawn` permits it.  squeue answers its query
with one row for each task, and `parse_squeue` skips these, for their id column is no number.  So
the handle is declared gone while its tasks run, unless the listing has a row of the job id itself.
-/
import SlurmRunner.Sbatch.Publication

namespace Sbatch

open Text Slurm Interact

/-! ## 1. Rows of a job and of its tasks -/

/-- The listing has a row of the job id itself. -/
def OwnRow (j : JobId) (text : Str) : Prop :=
  ∃ line ∈ lines text, ∃ status, squeueRow line = some (j, status)

/-- The listing has a row of some task of the job in a state that is not terminal. -/
def LiveTaskRow (j : JobId) (text : Str) : Prop :=
  ∃ i, ∃ line ∈ lines text, ∃ status, squeueTaskRow (taskKey j i) line = some status ∧
    status.state.isTerminal = false

/-- The listing has a row of the job itself, or of some task of it, in a state that is not
terminal. -/
def LiveRow (j : JobId) (text : Str) : Prop :=
  (∃ line ∈ lines text, ∃ status, squeueRow line = some (j, status) ∧
    status.state.isTerminal = false) ∨ LiveTaskRow j text

theorem parseSqueue_eq_none_iff {j : JobId} {text : Str} :
    parseSqueue text j = none ↔ ¬ OwnRow j text := by
  rw [parseSqueue, lastRows_eq_none]
  constructor
  · rintro h ⟨line, hline, status, hrow⟩
    exact h line hline status hrow
  · intro h line hline status hrow
    exact h ⟨line, hline, status, hrow⟩

/-- Without a row of its own, the job has a live row exactly if a task of it has. -/
theorem liveRow_iff {j : JobId} {text : Str} (h : ¬ OwnRow j text) :
    LiveRow j text ↔ LiveTaskRow j text := by
  constructor
  · rintro (⟨line, hline, status, hrow, -⟩ | htask)
    · exact absurd ⟨line, hline, status, hrow⟩ h
    · exact htask
  · exact .inr

/-! ## 2. A refresh that reads the listing -/

/-- The publication of a `refresh` whose newest answer is the squeue listing `text`. -/
def Write.ReadListing (e : Write) (text : Str) : Prop :=
  (e.site = .hit ∨ e.site = .vanish) ∧ ∃ rd earlier, e.heard = rd :: earlier ∧
    rd.argv = squeueArgv e.before.squeueKey ∧ ∃ stderr, rd.result = .ok ⟨0, text, stderr⟩

theorem squeueStatus_listing {snap : SbatchJobSnapshot} (hplain : snap.arrayTaskId = none)
    (text stderr : Str) :
    squeueStatus snap (.ok ⟨0, text, stderr⟩) = .ok (parseSqueue text snap.jobid) := by
  rw [squeueStatus, hplain]
  rfl

/-- What a refresh without a task index makes of the listing that it read. -/
theorem Grounded.listing {e : Write} (h : Grounded e) (hplain : e.before.arrayTaskId = none)
    {text : Str} (hlist : e.ReadListing text) :
    e.site = siteOf (parseSqueue text e.before.jobid) := by
  obtain ⟨hsite', rd, earlier, hheard, hargv, stderr, hresult⟩ := hlist
  have hne : ∀ {keys : Str}, qgroupArgv ≠ squeueArgv keys :=
    fun {k} => (squeueArgv_ne_qgroupArgv k).symm
  cases h with
  | rolledBack _ hsite _ _ _ | stamped _ hsite _ _ =>
    rcases hsite' with hs | hs <;> cases hs.symm.trans hsite
  | observed hsaw hsite hafter =>
    rename_i row now
    obtain ⟨new, hnew, hobs⟩ := hsaw
    rw [hheard] at hnew
    generalize hrow : Except.ok row = obs at hobs
    cases hobs with
    | task hidx _ => cases hplain.symm.trans hidx
    | qgroup _ hq _ =>
      rw [prefix_cons_eq hnew (List.prefix_append [rd] earlier)] at hq
      exact absurd (hq.symm.trans hargv) hne
    | squeue _ _ _ _ =>
      rw [prefix_cons_eq hnew (List.prefix_append [rd] earlier), hresult,
        squeueStatus_listing hplain] at hrow
      rw [hsite, Except.ok.inj hrow]

/-! ## 3. Every run -/

/-- **When a live array is declared gone.**  For every refresh of a handle without a task index, in
every run, and the listing that it read: it publishes no vanish while the listing has a live row of
the job or of a task, exactly if the listing has a row of the job id itself or no live row of a
task. -/
theorem master_vanish_iff {cache : Option Nat} {uuids : Supply Nat} {utc n : Nat}
    {snaps : Nat → SbatchJobSnapshot}
    {store : Store} {tasks : Nat → Option (Prog (sig Key) (Option (Except Str SbatchJobSnapshot)))}
    {ms : List (Move (machine Key))}
    {c : Config (machine Key) (Option (Except Str SbatchJobSnapshot))}
    (htasks : ∀ u q, tasks u = some q → Client (dispatcherOf cache) q)
    (hrun : Config.run ms ⟨World.start uuids utc n snaps store, tasks⟩ = some c) {e : Write}
    (he : e ∈ c.world.writes) (hplain : e.before.arrayTaskId = none) {text : Str}
    (hlist : e.ReadListing text) :
    (e.site = .vanish → ¬ LiveRow e.before.jobid text) ↔
      OwnRow e.before.jobid text ∨ ¬ LiveTaskRow e.before.jobid text := by
  let any : SbatchJobSnapshot → Prop := fun _ => True
  have hi : Inv (groundedAudit cache any fun _ => False) c.world :=
    run_grounded htasks (fun _ => trivial) hrun
  obtain ⟨-, -, -, hground, -⟩ := hi.write_of_mem he
  rw [hground.listing hplain hlist]
  by_cases hown : OwnRow e.before.jobid text
  · have hhit : parseSqueue text e.before.jobid ≠ none := fun h => parseSqueue_eq_none_iff.mp h hown
    obtain ⟨status, hstatus⟩ := Option.ne_none_iff_exists'.mp hhit
    rw [hstatus]
    exact ⟨fun _ => .inl hown, fun _ h => by cases h⟩
  · rw [parseSqueue_eq_none_iff.mpr hown, liveRow_iff hown]
    constructor
    · intro h
      exact .inr (h rfl)
    · rintro (h | h) -
      · exact absurd h hown
      · exact h

/-- One refresh of a handle without a task index. -/
def masterHandle : Config (machine Key) (Option (Except Str SbatchJobSnapshot)) :=
  ⟨World.start (.countFrom 0) 0 1 (fun _ => .submitted 1 7 none) [],
    fun t => if t = 0 then some (do return some (← refresh (dispatcherOf none) 0)) else none⟩

/-- The qgroup listing is empty, and squeue answers with `text`. -/
def squeueAnswers (text : Str) : List (Move (machine Key)) :=
  [passes 0, prints 0 "", prints 0 text, saves 0]

theorem masterHandle_clients : ∀ u q, masterHandle.tasks u = some q →
    Client (dispatcherOf none) q := by
  intro u q hq
  simp only [masterHandle, Option.ite_none_right_eq_some, Option.some.injEq] at hq
  exact hq.2 ▸ .refresh 0

/-- The handle has published, from the listing `text`. -/
theorem masterHandle_readListing {text : Str} {e : Write}
    (hsite : e.site = .hit ∨ e.site = .vanish) (hbefore : e.before = .submitted 1 7 none)
    (hheard : ∃ rd ∈ e.heard.head?, rd.argv = squeueArgv "7" ∧ rd.result = .ok ⟨0, text, []⟩) :
    e.ReadListing text := by
  obtain ⟨rd, hrd, hargv, hresult⟩ := hheard
  obtain ⟨earlier, hearlier⟩ : ∃ earlier, e.heard = rd :: earlier := List.head?_eq_some_iff.mp hrd
  have hkey : (SbatchJobSnapshot.submitted 1 7 none).squeueKey = "7" := by decide +kernel
  exact ⟨hsite, rd, earlier, hearlier, hbefore ▸ hkey ▸ hargv, [], hresult⟩

set_option maxRecDepth 10000 in
/-- A listing with a row of the job id itself. -/
theorem master_vanish_iff_own : ∃ c,
    masterHandle.run (squeueAnswers "7 PENDING None\n7_1 RUNNING None") = some c ∧
    ∃ e ∈ c.world.writes, e.site = .hit ∧
      (e.site = .vanish → ¬ LiveRow e.before.jobid "7 PENDING None\n7_1 RUNNING None") := by
  obtain ⟨c, hrun, e, he, hsite, hbefore, hheard⟩ : ∃ c,
      masterHandle.run (squeueAnswers "7 PENDING None\n7_1 RUNNING None") = some c ∧
      ∃ e ∈ c.world.writes, e.site = .hit ∧ e.before = .submitted 1 7 none ∧
        ∃ rd ∈ e.heard.head?, rd.argv = squeueArgv "7" ∧
          rd.result = .ok ⟨0, "7 PENDING None\n7_1 RUNNING None", []⟩ :=
    Config.exists_run (by decide +kernel)
  have hown : OwnRow 7 "7 PENDING None\n7_1 RUNNING None" := by
    refine ⟨"7 PENDING None".toList, ?_, ⟨.pending, .none⟩, ?_⟩ <;> decide +kernel
  have hjob : e.before.jobid = 7 := by rw [hbefore]; rfl
  have hplain : e.before.arrayTaskId = none := by rw [hbefore]; rfl
  have hlist := masterHandle_readListing (.inl hsite) hbefore hheard
  exact ⟨c, hrun, e, he, hsite,
    (master_vanish_iff masterHandle_clients hrun he hplain hlist).mpr (.inl (hjob ▸ hown))⟩

set_option maxRecDepth 10000 in
/-- **A running array is declared gone.**  The listing has its task, and the handle has left the
listings. -/
theorem master_vanishes : ∃ c, masterHandle.run (squeueAnswers "7_1 RUNNING None") = some c ∧
    (c.world.watch 0).arrayTaskId = none ∧ (c.world.watch 0).lifecycle.leftActiveListing = true ∧
    ∃ e ∈ c.world.writes, e.site = .vanish ∧ e.ReadListing "7_1 RUNNING None" ∧
      LiveRow e.before.jobid "7_1 RUNNING None" := by
  obtain ⟨c, hrun, hidx, hleft, e, he, hsite, hbefore, hheard⟩ : ∃ c,
      masterHandle.run (squeueAnswers "7_1 RUNNING None") = some c ∧
      (c.world.watch 0).arrayTaskId = none ∧ (c.world.watch 0).lifecycle.leftActiveListing = true ∧
      ∃ e ∈ c.world.writes, e.site = .vanish ∧ e.before = .submitted 1 7 none ∧
        ∃ rd ∈ e.heard.head?, rd.argv = squeueArgv "7" ∧
          rd.result = .ok ⟨0, "7_1 RUNNING None", []⟩ :=
    Config.exists_run (by decide +kernel)
  have hlive : LiveTaskRow 7 "7_1 RUNNING None" := by
    refine ⟨1, "7_1 RUNNING None".toList, ?_, ⟨.running, .none⟩, ?_, rfl⟩ <;> decide +kernel
  have hjob : e.before.jobid = 7 := by rw [hbefore]; rfl
  exact ⟨c, hrun, hidx, hleft, e, he, hsite, masterHandle_readListing (.inr hsite) hbefore hheard,
    .inr (hjob ▸ hlive)⟩

end Sbatch

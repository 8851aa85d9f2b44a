/-
# What a publication rests on

A handle publishes three kinds of snapshots: what a `refresh` has observed, a rollback and a stamp.
Each is made from the newest answers that its task has heard.  `Grounded` says so of one record; it
holds of all of them in every run of calls and waits, over a bare dispatcher or through caches.
-/
import SlurmRunner.Sbatch.PollLoop
import SlurmRunner.Sbatch.Session
import SlurmRunner.Sbatch.WaitTerminal

namespace Sbatch

open Text Slurm Interact

/-! ## 1. One publication

What a publication shows is the row that the last probe of its task has found, or that there was
none. -/

/-- The newest answers that the task of `e` had heard are those of one probe, which saw `row`. -/
def Write.Saw (e : Write) (row : Option JobStatus) : Prop :=
  ∃ new, new <+: e.heard ∧ Observed e.before new (.ok row)

/-- The newest answers are those of one finalizer of `carried`, with the outcome `oc`. -/
def Write.Found (e : Write) (carried : SbatchJobSnapshot) (oc : JobOutcome) : Prop :=
  ∃ new, new <+: e.heard ∧ Resolved carried new (.ok oc)

inductive Grounded (e : Write) : Prop
  | observed {row : Option JobStatus} {now : Nat} (hsaw : e.Saw row) (hsite : e.site = siteOf row)
      (hafter : e.after = e.before.observed row now)
  | rolledBack {carried : SbatchJobSnapshot} {oc : JobOutcome} {now : Nat}
      (hfound : e.Found carried oc) (hsite : e.site = .rollback carried) (hlive : StillLive oc)
      (hnone : carried.lifecycle.finished = none)
      (hafter : e.after = carried.rolledBack oc.status now)
  | stamped {carried : SbatchJobSnapshot} {oc : JobOutcome} {now : Nat}
      (hfound : e.Found carried oc) (hsite : e.site = .stamp carried) (hdue : carried.endsWait)
      (hafter : e.after = carried.stamped oc now)

/-- Two beginnings of one list have the same head. -/
theorem prefix_cons_eq {α : Type} {a b : α} {as bs l : List α} (h : a :: as <+: l)
    (h' : b :: bs <+: l) : a = b := by
  obtain ⟨_, rfl⟩ := h
  obtain ⟨_, h'⟩ := h'
  exact (List.cons.inj h').1.symm

/-- **One probe has one result.** -/
theorem Observed.unique {snap : SbatchJobSnapshot} {new new' heard : List Read}
    {obs obs' : Except Str (Option JobStatus)} (h : Observed snap new obs)
    (h' : Observed snap new' obs') (hnew : new <+: heard) (hnew' : new' <+: heard) :
    obs = obs' := by
  have hargv : ∀ {keys : Str}, qgroupArgv ≠ squeueArgv keys :=
    fun {k} => (squeueArgv_ne_qgroupArgv k).symm
  cases h with
  | task hidx _ =>
    cases h' with
    | task _ _ => rw [prefix_cons_eq hnew hnew']
    | qgroup hnone _ _ | squeue hnone _ _ _ => cases hidx.symm.trans hnone
  | qgroup hnone hq hrow =>
    cases h' with
    | task hidx _ => cases hidx.symm.trans hnone
    | qgroup _ _ hrow' =>
      rw [prefix_cons_eq hnew hnew'] at hrow
      cases hrow.symm.trans hrow'
      rfl
    | squeue _ _ _ hs =>
      rw [prefix_cons_eq hnew hnew'] at hq
      exact absurd (hq.symm.trans hs) hargv
  | squeue hnone _ _ hs =>
    cases h' with
    | task hidx _ => cases hidx.symm.trans hnone
    | qgroup _ hq _ =>
      rw [prefix_cons_eq hnew hnew'] at hs
      exact absurd (hq.symm.trans hs) hargv
    | squeue _ _ _ _ => rw [prefix_cons_eq hnew hnew']

/-- A publication saw one row. -/
theorem Write.Saw.unique {e : Write} {row row' : Option JobStatus} (h : e.Saw row)
    (h' : e.Saw row') : row = row' := by
  obtain ⟨new, hnew, hobs⟩ := h
  obtain ⟨new', hnew', hobs'⟩ := h'
  exact Except.ok.inj (hobs.unique hobs' hnew hnew')

/-! ## 2. Every publication of a run

An audit: every write publishes what its own answers show, on top of what was there before. -/

/-- The handles start from snapshots that satisfy `first`.  Every publication is grounded, and those
of the tasks `only` are observations. -/
def groundedAudit (cache : Option Nat) (first : SbatchJobSnapshot → Prop) (only : Nat → Prop) :
    Audit Key :=
  { sessionAudit cache with
    first := fun _ => first
    write := fun e _ _ _ => Grounded e ∧ (only e.tid → ∃ row, e.site = siteOf row)
    write_mono := fun _ _ h => h }

section Grounded

variable {cache : Option Nat} {first : SbatchJobSnapshot → Prop} {only : Nat → Prop} {t h : Nat}

/-- No task is bound to be quiet. -/
theorem groundedAudit_quiet (u : Nat) : ¬ (groundedAudit cache first only).quiet u :=
  sessionAudit_quiet cache u

/-- A refresh publishes what it saw. -/
theorem groundedAudit_refresh : RefreshAllowed (groundedAudit cache first only) t h := by
  intro w₁ w₂ new row hsec hobs
  refine ⟨.observed ⟨new, ?_, hobs⟩ rfl rfl, fun _ => ⟨row, rfl⟩⟩
  exact hsec.heard.readsOf ▸ List.prefix_append new _

/-- The finalizer may do so, for a task that is not bound to refreshes. -/
theorem groundedAudit_finalize (hfree : ¬ only t) (base : List Read) :
    FinalizeAllowed (groundedAudit cache first only) t h base := by
  intro carried w₁ w₂ new oc u hsec hres hcar _
  have hfound : ∀ site after, Write.Found
      ⟨t, h, site, w₁.watch h, after, w₂.instant, w₂.readsOf t⟩ carried oc := fun _ _ =>
    ⟨new, hsec.heard.readsOf ▸ List.prefix_append new _, hres⟩
  refine ⟨fun hlive => ⟨.rolledBack (hfound _ _) rfl hlive hcar.finished rfl, fun ho => ?_⟩,
    fun _ _ => ⟨.stamped (hfound _ _) rfl hcar.due.symm rfl, fun ho => ?_⟩⟩
  · exact absurd ho hfree
  · exact absurd ho hfree

/-- The dispatcher of the handles serves the audit. -/
theorem serves_groundedAudit {C : Context (machine Key)}
    (hC : Under (groundedAudit cache first only) C) :
    Serves (groundedAudit cache first only) C t (dispatcherOf cache) := by
  cases cache with
  | none => exact serves_runCommand hC rfl (fun _ _ _ => trivial) (fun _ h => h) fun _ => rfl
  | some ttl =>
    exact serves_handleDispatcher hC rfl rfl (fun _ _ _ _ => trivial) (fun _ h => h) fun _ => rfl

/-- In the beginning nothing was published. -/
theorem groundedAudit_start {snaps : Nat → SbatchJobSnapshot} (hfirst : ∀ h, first (snaps h))
    (uuids : Supply Nat) (utc n : Nat) (store : Store) :
    Inv (groundedAudit cache first only) (World.start uuids utc n snaps store) := by
  cases cache <;> exact inv_start False.elim hfirst

/-- What a wait of task `t` on handle `h` returns was published by it. -/
def WaitPublished (t h : Nat) (r : Option (Except Str SbatchJobSnapshot)) (w : World Key) : Prop :=
  ∀ snap, r = some (.ok snap) → snap.endsWait ∧
    ∃ e ∈ w.writes, e.tid = t ∧ e.handle = h ∧ e.after = snap

/-- What a wait has published stays published. -/
theorem WaitPublished.elapse {r : Option (Except Str SbatchJobSnapshot)} {w w' : World Key}
    (hr : WaitPublished t h r w) (hel : Elapse w w') : WaitPublished t h r w' := by
  intro snap hsnap
  obtain ⟨hends, e, he, hrest⟩ := hr snap hsnap
  exact ⟨hends, e, hel.writes.subset he, hrest⟩

/-- **What a wait returns it has published**, by induction on its rounds. -/
theorem wp_waitTerminal_published {C : Context (machine Key)}
    (hC : Under (groundedAudit cache first only) C) (p fuel : Nat) {w : World Key}
    (hidle : Idle t w) :
    C.wp t (waitTerminal (dispatcherOf cache) h p fuel) (WaitPublished t h) w := by
  refine wp_waitTerminalFrom hC groundedAudit_quiet (P := fun _ => Idle t) (fun k w₁ hid => ?_)
    (fun _ _ hs => by cases hs) fuel hidle
  refine Context.wp_mono (wp_refresh hC (serves_groundedAudit hC) groundedAudit_quiet
    groundedAudit_refresh hid) ?_
  rintro r w' ⟨w₂, -, -, href, hid'⟩
  cases r with
  | error e => exact ⟨fun _ _ hs => (by cases hs), fun w'' hr _ _ => (hC.rely hr).idle hid'⟩
  | ok snap =>
    refine ⟨fun hends snap' hs => ?_, fun w'' hr _ _ => (hC.rely hr).idle hid'⟩
    cases hs
    obtain ⟨-, -, -, -, -, -, e, he, htid, hhandle, -, -, hafter⟩ := href.published
    exact ⟨hends, e, he, htid, hhandle, hafter⟩

/-- Every call of a client is within the audit. -/
theorem Client.wp_grounded {q : Prog (sig Key) (Option (Except Str SbatchJobSnapshot))}
    {w : World Key} (hq : Client (dispatcherOf cache) q) (hfree : ¬ only t) (hidle : Idle t w) :
    (audit (groundedAudit cache first only)).wp t q (fun _ _ => True) w := by
  cases hq with
  | refresh h =>
    exact Context.wp_seq (wp_refresh audit_under (serves_groundedAudit audit_under)
      groundedAudit_quiet groundedAudit_refresh hidle) fun _ _ _ => trivial
  | refreshWithSacct h =>
    exact Context.wp_seq (wp_refreshWithSacct audit_under (serves_groundedAudit audit_under)
      groundedAudit_quiet groundedAudit_refresh (groundedAudit_finalize hfree _) hidle)
      fun _ _ _ => trivial
  | waitTerminal h p fuel =>
    exact Context.wp_mono (wp_waitTerminal_published audit_under p fuel hidle) fun _ _ _ => trivial

end Grounded

/-- **Every publication of a run is grounded.** -/
theorem run_grounded {cache : Option Nat} {uuids : Supply Nat} {utc n : Nat}
    {snaps : Nat → SbatchJobSnapshot}
    {store : Store} {tasks : Nat → Option (Prog (sig Key) (Option (Except Str SbatchJobSnapshot)))}
    {ms : List (Move (machine Key))}
    {c : Config (machine Key) (Option (Except Str SbatchJobSnapshot))}
    {first : SbatchJobSnapshot → Prop}
    (htasks : ∀ u q, tasks u = some q → Client (dispatcherOf cache) q)
    (hfirst : ∀ h, first (snaps h))
    (hrun : Config.run ms ⟨World.start uuids utc n snaps store, tasks⟩ = some c) :
    Inv (groundedAudit cache first fun _ => False) c.world :=
  tasks_inv (groundedAudit_start hfirst ..) (fun u q hq => (htasks u q hq).suspended)
    (fun u q hq => (htasks u q hq).wp_grounded id (idle_start u uuids utc n snaps store)) hrun

/-! ## 3. Why a wait ends

A refresh ends a wait if the snapshot that it has published is over or gone.  That may be so because
of what it saw, or because of what was there before. -/

/-- A listing has the job, in this state. -/
def Write.ListedAs (e : Write) (status : JobStatus) : Prop := e.site = .hit ∧ e.Saw (some status)

/-- The refresh found the job in no listing, or saw it in a terminal state. -/
def Write.HasReason (e : Write) : Prop :=
  (e.site = .vanish ∧ e.Saw none) ∨ ∃ status, e.ListedAs status ∧ status.state.isTerminal = true

/-- The refresh started from a snapshot that had left the listings, and saw the job in a state that
is not terminal. -/
def Write.Stale (e : Write) : Prop :=
  e.before.lifecycle.leftActiveListing = true ∧
    ∃ status, e.ListedAs status ∧ status.state.isTerminal = false

/-- A write has a reason exactly if the row that it saw is over or missing. -/
theorem Write.hasReason_iff {e : Write} {row : Option JobStatus} (hsaw : e.Saw row)
    (hsite : e.site = siteOf row) :
    e.HasReason ↔ ∀ status, row = some status → status.state.isTerminal = true := by
  constructor
  · rintro (⟨-, hnone⟩ | ⟨status, ⟨-, hlisted⟩, hterm⟩) status' rfl
    · cases hsaw.unique hnone
    · cases hsaw.unique hlisted
      exact hterm
  · intro hall
    rcases row with _ | status
    · exact .inl ⟨hsite, hsaw⟩
    · exact .inr ⟨status, ⟨hsite, hsaw⟩, hall status rfl⟩

/-- An observation ends the wait for a reason, unless it is stale. -/
theorem Write.hasReason_of_ends_iff {e : Write} {row : Option JobStatus} {now : Nat}
    (hsaw : e.Saw row) (hsite : e.site = siteOf row)
    (hafter : e.after = e.before.observed row now) :
    (e.after.endsWait → e.HasReason) ↔ ¬ e.Stale := by
  rw [hasReason_iff hsaw hsite, hafter]
  rcases row with _ | status
  · constructor
    · rintro - ⟨-, status, ⟨-, hlisted⟩, -⟩
      cases hsaw.unique hlisted
    · rintro - - status' hs
      cases hs
  · have hends : (e.before.observed (some status) now).endsWait ↔
        status.state.isTerminal = true ∨ e.before.lifecycle.leftActiveListing = true := Iff.rfl
    rw [hends]
    constructor
    · rintro h ⟨hleft, status', ⟨-, hlisted⟩, hlive⟩
      cases hsaw.unique hlisted
      rw [h (.inr hleft) status rfl] at hlive
      cases hlive
    · rintro hstale (hterm | hleft) status' hs
      · cases hs
        exact hterm
      · cases hs
        by_contra hlive
        exact hstale ⟨hleft, status, ⟨hsite, hsaw⟩, by simpa using hlive⟩

/-- **A wait ends for a reason, unless a refresh of it is stale.**  In every run, from any
snapshots: what it returns was published by one of its refreshes, and a refresh that ends it saw the
job gone or in a terminal state, exactly if none saw it in another state after it had left the
listings. -/
theorem wait_ends_for_reason {cache : Option Nat} {uuids : Supply Nat} {utc n t h p fuel : Nat}
    {snaps : Nat → SbatchJobSnapshot} {store : Store}
    {tasks : Nat → Option (Prog (sig Key) (Option (Except Str SbatchJobSnapshot)))}
    {ms : List (Move (machine Key))}
    {c : Config (machine Key) (Option (Except Str SbatchJobSnapshot))}
    (htasks : ∀ u q, tasks u = some q → Client (dispatcherOf cache) q)
    (hwait : tasks t = some (waitTerminal (dispatcherOf cache) h p fuel))
    (hrun : Config.run ms ⟨World.start uuids utc n snaps store, tasks⟩ = some c) :
    (∀ snap, c.result t = some (some (.ok snap)) → snap.endsWait ∧
      ∃ e ∈ c.world.writes, e.tid = t ∧ e.handle = h ∧ e.after = snap) ∧
    ((∀ e ∈ c.world.writes, e.tid = t → e.after.endsWait → e.HasReason) ↔
      ∀ e ∈ c.world.writes, e.tid = t → ¬ e.Stale) := by
  have hsafe : Config.Safe (audit (groundedAudit cache (fun _ => True) (· = t)))
      (fun u r w => u = t → WaitPublished t h r w)
      (⟨World.start uuids utc n snaps store, tasks⟩ : Config (machine Key) _) := by
    refine ⟨groundedAudit_start (fun _ => trivial) ..,
      fun u q hq => (htasks u q hq).suspended, fun u q hq => ?_⟩
    have hidle : Idle u (World.start uuids utc n snaps store : World Key) :=
      idle_start u uuids utc n snaps store
    by_cases hu : u = t
    · subst hu
      cases hq.symm.trans hwait
      exact Context.wp_mono (wp_waitTerminal_published audit_under p fuel hidle) fun _ _ hr _ => hr
    · exact Context.wp_mono ((htasks u q hq).wp_grounded hu hidle) fun _ _ _ hut => absurd hut hu
  have hend := Config.run_sound (fun u r w w' hr hrely hut => (hr hut).elapse
    hrely.dispatched.toElapse) hsafe hrun
  refine ⟨fun snap hret => hend.post hret rfl snap rfl, ?_⟩
  refine forall_congr' fun e => forall_congr' fun he => forall_congr' fun htid => ?_
  have hi : Inv (groundedAudit cache (fun _ => True) (· = t)) c.world := hend.inv
  obtain ⟨-, -, -, hground, honly⟩ := hi.write_of_mem he
  obtain ⟨row, hrow⟩ := honly htid
  cases hground with
  | observed hsaw hsite hafter => exact Write.hasReason_of_ends_iff hsaw hsite hafter
  | rolledBack _ hsite _ _ _ =>
    cases row <;> cases hrow.symm.trans hsite
  | stamped _ hsite _ _ =>
    cases row <;> cases hrow.symm.trans hsite

/-- One wait on a task of an array, whose handle starts from `snap`. -/
def waitingOn (snap : SbatchJobSnapshot) :
    Config (machine Key) (Option (Except Str SbatchJobSnapshot)) :=
  ⟨World.start (.countFrom 0) 0 1 (fun _ => snap) [],
    fun t => if t = 0 then some (waitTerminal (dispatcherOf none) 0 60 3) else none⟩

/-- The task runs, and is gone a minute later. -/
def runsAndLeaves : List (Move (machine Key)) :=
  [passes 0, prints 0 "7_3 RUNNING None", saves 0, waits 60 60, passes 0,
   passes 0, prints 0 "", saves 0]

/-- The task runs. -/
def stillRuns : List (Move (machine Key)) := [passes 0, prints 0 "7_3 RUNNING None", saves 0]

/-- The snapshot of a task that a listing once missed. -/
def missedOnce : SbatchJobSnapshot := (SbatchJobSnapshot.submitted 1 7 (some 3)).vanished 0

/-- One client, which waits. -/
theorem waitingOn_clients (snap : SbatchJobSnapshot) : ∀ u q, (waitingOn snap).tasks u = some q →
    Client (dispatcherOf none) q := by
  intro u q hq
  simp only [waitingOn, Option.ite_none_right_eq_some, Option.some.injEq] at hq
  exact hq.2 ▸ .waitTerminal 0 60 3

set_option maxRecDepth 10000 in
/-- The job runs, and then it leaves the listing. -/
theorem wait_ends_for_reason_gone : ∃ c,
    (waitingOn (.submitted 1 7 (some 3))).run runsAndLeaves = some c ∧
    ∃ e ∈ c.world.writes, e.tid = 0 ∧ e.after.endsWait ∧ e.HasReason := by
  obtain ⟨c, hrun, ⟨e, he, htid, hends⟩, hfresh⟩ : ∃ c,
      (waitingOn (.submitted 1 7 (some 3))).run runsAndLeaves = some c ∧
      ((∃ e ∈ c.world.writes, e.tid = 0 ∧ e.after.lifecycle.leftActiveListing = true) ∧
        ∀ e ∈ c.world.writes, e.before.lifecycle.leftActiveListing = false) :=
    Config.exists_run (by decide +kernel)
  have hwait : (waitingOn (.submitted 1 7 (some 3))).tasks 0 =
      some (waitTerminal (dispatcherOf none) 0 60 3) := rfl
  have hreason := (wait_ends_for_reason (waitingOn_clients _) hwait hrun).2.mpr
  refine ⟨c, hrun, e, he, htid, .inr hends,
    hreason (fun e he _ hstale => ?_) e he htid (.inr hends)⟩
  cases (hfresh e he).symm.trans hstale.1

set_option maxRecDepth 10000 in
/-- **A wait ends while the job runs.**  The listing that once missed the task has it again. -/
theorem wait_ends_while_running : ∃ c, (waitingOn missedOnce).run stillRuns = some c ∧
    ∃ snap, c.result 0 = some (some (.ok snap)) ∧
    ∃ e ∈ c.world.writes, e.tid = 0 ∧ e.after = snap ∧ e.ListedAs ⟨.running, .none⟩ ∧
      ¬ e.HasReason := by
  obtain ⟨c, hrun, e, he, htid, hret, hsite, hbefore, rd, hheard, hargv, hst⟩ : ∃ c,
      (waitingOn missedOnce).run stillRuns = some c ∧
      ∃ e ∈ c.world.writes, e.tid = 0 ∧ c.result 0 = some (some (.ok e.after)) ∧ e.site = .hit ∧
        e.before = missedOnce ∧ ∃ rd ∈ e.heard.head?, rd.argv = squeueArgv missedOnce.squeueKey ∧
          squeueStatus missedOnce rd.result = .ok (some ⟨.running, .none⟩) :=
    Config.exists_run (by decide +kernel)
  have hsaw : e.Saw (some ⟨.running, .none⟩) := by
    obtain ⟨earlier, hearlier⟩ : ∃ earlier, e.heard = rd :: earlier :=
      List.head?_eq_some_iff.mp hheard
    refine ⟨[rd], ⟨earlier, hearlier.symm⟩, ?_⟩
    rw [hbefore, ← hst]
    exact .task rfl hargv
  refine ⟨c, hrun, e.after, hret, e, he, htid, rfl, ⟨hsite, hsaw⟩, fun hreason => ?_⟩
  have hall := (Write.hasReason_iff hsaw hsite).mp hreason
  cases hall _ rfl

end Sbatch

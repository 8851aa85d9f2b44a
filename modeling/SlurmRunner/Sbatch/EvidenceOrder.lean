/-
# The age of what is published

Each observation that a handle publishes rests on the output of one inner command (`Used`).  The
three caches of a manager expire independently, so that command may be older than the one behind the
observation it replaces: a finalizer whose qgroup answer is new may read a squeue listing from
before.  It is older by less than `ttl`.
-/
import SlurmRunner.Sbatch.Evidence

namespace Sbatch

open Text Slurm Interact

/-! ## 1. The command behind an observation

Of the answers that a refresh has read one decides on the row that it publishes. -/

/-- The answer `rd` is the one whose row, or missing row, the write `e` publishes.  A stamp
publishes no observation. -/
def Yields (e : Write) (rd : Read) : Prop :=
  match e.site with
  | .hit =>
    (rd.argv = qgroupArgv ∧
      qgroupStatus e.before.jobid rd.result = e.after.lifecycle.lastObservedState) ∨
    (rd.argv = squeueArgv e.before.squeueKey ∧
      squeueStatus e.before rd.result = .ok e.after.lifecycle.lastObservedState)
  | .vanish =>
    rd.argv = squeueArgv e.before.squeueKey ∧ squeueStatus e.before rd.result = .ok none
  | .rollback carried =>
    (rd.argv = squeueArgv carried.squeueKey ∧
      squeueStatus carried rd.result = .ok e.after.lifecycle.lastObservedState) ∨
    (rd.argv = sacctArgv (decimal carried.jobid.toNat) ∧
      (sacctOutcome carried rd.result).map (Option.map JobOutcome.status) =
        .ok e.after.lifecycle.lastObservedState)
  | .stamp _ => False

instance (e : Write) (rd : Read) : Decidable (Yields e rd) := by
  unfold Yields
  split <;> infer_instance

/-- The write `e` rests on the output of the command `c`. -/
def Used (ttl : Nat) (calls : List Call) (e : Write) (c : Call) : Prop :=
  c ∈ calls ∧ ∃ rd ∈ e.heard, rd.readAt ≤ e.writtenAt ∧ Yields e rd ∧ Covers rd.argv c ∧
    Source ttl rd c

/-- The command had completed when the observation was written. -/
theorem Used.done {ttl : Nat} {calls : List Call} {e : Write} {c : Call}
    (h : Used ttl calls e c) : c.doneAt ≤ e.writtenAt := by
  obtain ⟨-, rd, -, hat, -, -, hsrc⟩ := h
  exact hsrc.done.trans hat

/-- The write publishes an observation. -/
def Observes (e : Write) : Prop := ∀ carried, e.site ≠ .stamp carried

/-- Behind an observation there is the answer that shows its row. -/
theorem Observed.yields {snap : SbatchJobSnapshot} {new : List Read} {row : Option JobStatus}
    (h : Observed snap new (.ok row)) (t x u at' : Nat) (heard : List Read) :
    ∃ rd ∈ new, Yields ⟨t, x, siteOf row, snap, snap.observed row u, at', heard⟩ rd ∧
      ∃ i requested, (toolShape i).parse rd.argv = some requested := by
  generalize hobs : Except.ok row = obs at h
  have hquery : ∀ {rd : Read}, rd.argv = squeueArgv snap.squeueKey →
      ∃ i requested, (toolShape i).parse rd.argv = some requested := fun hargv =>
    ⟨.squeue, _, hargv ▸ parse_squeueKey snap⟩
  cases h with
  | qgroup _ hargv hrow =>
    cases hobs
    exact ⟨_, List.mem_cons_self, .inl ⟨hargv, hrow⟩, .qgroup, [], hargv ▸ qgroup_parse_qgroupArgv⟩
  | task _ hargv | squeue _ _ _ hargv =>
    refine ⟨_, List.mem_cons_self, ?_, hquery hargv⟩
    cases row with
    | some status => exact .inr ⟨hargv, hobs.symm⟩
    | none => exact ⟨hargv, hobs.symm⟩

/-- An outcome that says something was found. -/
theorem map_getD_eq_ok {r : Except Str (Option JobOutcome)} {oc : JobOutcome}
    (h : r.map (·.getD JobOutcome.default) = .ok oc) (hne : oc.status.state ≠ .unknown) :
    r = .ok (some oc) := by
  rcases r with e | _ | oc'
  · cases h
  · cases h
    exact absurd rfl hne
  · cases h
    rfl

/-- Behind a roll-back there is the answer that shows the job alive. -/
theorem Resolved.yields {snap : SbatchJobSnapshot} {new : List Read} {oc : JobOutcome}
    (h : Resolved snap new (.ok oc)) (hlive : StillLive oc) (t x u at' : Nat)
    (before : SbatchJobSnapshot) (heard : List Read) : ∃ rd ∈ new,
      Yields ⟨t, x, .rollback snap, before, snap.rolledBack oc.status u, at', heard⟩ rd ∧
      ∃ i requested, (toolShape i).parse rd.argv = some requested := by
  generalize hres : Except.ok oc = res at h
  cases h with
  | failed => cases hres
  | listed _ hargv hst =>
    cases hres
    exact ⟨_, List.mem_cons_self, .inl ⟨hargv, hst⟩, .squeue, _, hargv ▸ parse_squeueKey snap⟩
  | task _ hargv | sacct _ _ _ hargv =>
    refine ⟨_, List.mem_cons_self, .inr ⟨hargv, ?_⟩, .sacct, _, hargv ▸ parse_sacctArgv _⟩
    rw [map_getD_eq_ok hres.symm hlive.1]
    rfl

/-! ## 2. Every observation has its command

As an audit of the writes, which holds of all writes of a run. -/

/-- The command `c` is behind every earlier time `at'`, or ahead of it by less than `ttl`. -/
def Behind (ttl : Nat) (at' : Nat) (c : Call) : Prop :=
  at' ≤ c.startedAt ∨ at' < c.doneAt + ttl

/-- Every observation rests on a command that is not much older than the earlier writes. -/
def evidenceAudit (ttl : Nat) : Audit Key where
  shape := toolShape
  quiet _ := False
  holds _ := none
  timely := False
  first _ _ := True
  read := CachedRead ttl
  write e older _ calls := Observes e → ∃ c, Used ttl calls e c ∧
    ∀ e' ∈ older, e'.handle = e.handle → Behind ttl e'.writtenAt c
  read_mono hs h := h.mono hs
  write_mono _ hc h ho := by
    obtain ⟨c, ⟨hmem, hrest⟩, hbehind⟩ := h ho
    exact ⟨c, ⟨hc.subset hmem, hrest⟩, hbehind⟩

/-- An answer that the section heard is from a command that is not much older than what the handle
has published before the section. -/
theorem Section.used {ttl t h : Nat} {w₁ w₂ : World Key} {new : List Read}
    (hsec : Section (evidenceAudit ttl) t h w₁ w₂ new) {e : Write} (hhandle : e.handle = h)
    (hat : e.writtenAt = w₂.instant) (hheard : e.heard = w₂.readsOf t) {rd : Read} (hrd : rd ∈ new)
    (hyields : Yields e rd)
    (hquery : ∃ i requested, (toolShape i).parse rd.argv = some requested) :
    ∃ c, Used ttl w₂.calls e c ∧
      ∀ e' ∈ w₂.writes, e'.handle = e.handle → Behind ttl e'.writtenAt c := by
  obtain ⟨i, requested, hparse⟩ := hquery
  obtain ⟨-, hread, hcached⟩ := hsec.now.reads rd (hsec.heard.mem hrd)
  obtain ⟨c, hc, hcov, hsrc⟩ := hcached.source hparse
  obtain ⟨-, hsince⟩ := hsec.heard.since rd hrd
  have hmem : rd ∈ e.heard := by
    rw [hheard, hsec.heard.readsOf]
    exact List.mem_append_left _ hrd
  refine ⟨c, ⟨hc, rd, hmem, hat ▸ hread, hyields, hcov, hsrc⟩, fun e' he' hh => ?_⟩
  have hbefore := (hsec.start.written e' (hsec.writes e' he' (hh.trans hhandle))).1
  rcases hsrc.recent with hstart | hage
  · exact .inl ((hbefore.trans hsince).trans hstart)
  · exact .inr ((hbefore.trans hsince).trans_lt hage)

/-- A refresh may write what its answers show. -/
theorem evidenceAudit_refresh (ttl t h : Nat) : RefreshAllowed (evidenceAudit ttl) t h := by
  intro w₁ w₂ new row hsec hobs _
  obtain ⟨rd, hrd, hyields, hquery⟩ := hobs.yields t h w₁.utc w₂.instant (w₂.readsOf t)
  exact hsec.used rfl rfl rfl hrd hyields hquery

/-- So may the finalizer. -/
theorem evidenceAudit_finalize (ttl t h : Nat) : FinalizeAllowed (evidenceAudit ttl) t h [] := by
  intro carried w₁ w₂ new oc u hsec hres _ _
  refine ⟨fun hlive _ => ?_, fun _ _ ho => absurd rfl (ho carried)⟩
  obtain ⟨rd, hrd, hyields, hquery⟩ := hres.yields hlive t h u w₂.instant (w₁.watch h)
    (w₂.readsOf t)
  exact hsec.used rfl rfl rfl hrd hyields hquery

/-- The audit holds in every run. -/
theorem Clients.evidence {uuids : Supply Nat} {ttl utc n : Nat} {snaps : Nat → SbatchJobSnapshot}
    {store : Store}
    {tasks : Nat → Option (Prog (sig Key) (Except Str SbatchJobSnapshot))}
    {ms : List (Move (machine Key))} {c : Config (machine Key) (Except Str SbatchJobSnapshot)}
    (htasks : Clients (handleDispatcher ttl runCommand) tasks)
    (hrun : Config.run ms ⟨World.start uuids utc n snaps store, tasks⟩ = some c) :
    Inv (evidenceAudit ttl) c.world :=
  htasks.inv (fun _ => serves_handleDispatcher audit_under rfl rfl (fun _ _ _ _ => trivial)
    (fun _ h => h) fun _ => rfl)
    (fun _ h => h) (evidenceAudit_refresh ttl) (evidenceAudit_finalize ttl)
    (inv_start False.elim fun _ => trivial) (fun t => idle_start t uuids utc n snaps store)
    (fun _ => rfl) hrun

/-! ## 3. Every run

Two observations of one handle are ordered by the refresh lock, and the commands behind them by the
ages that the caches allow. -/

/-- **An observation goes back by less than `ttl`.**  In every run of any number of handles through
the caches of their manager, a command behind an observation of the handle that is replaced
completed before the new one's command was started, or at most ahead of its completion by less than
`ttl`. -/
theorem evidence_within_ttl {uuids : Supply Nat} {ttl utc n : Nat}
    {snaps : Nat → SbatchJobSnapshot} {store : Store}
    {tasks : Nat → Option (Prog (sig Key) (Except Str SbatchJobSnapshot))}
    {ms : List (Move (machine Key))} {c : Config (machine Key) (Except Str SbatchJobSnapshot)}
    (htasks : Clients (handleDispatcher ttl runCommand) tasks)
    (hrun : Config.run ms ⟨World.start uuids utc n snaps store, tasks⟩ = some c) :
    ∀ newer e older, c.world.writes = newer ++ e :: older → Observes e →
      ∃ x, Used ttl c.world.calls e x ∧
        ∀ e' ∈ older, e'.handle = e.handle → ∀ x', Used ttl c.world.calls e' x' →
          x'.doneAt ≤ x.startedAt ∨ x'.doneAt < x.doneAt + ttl := by
  intro newer e older hsplit ho
  obtain ⟨x, hx, hbehind⟩ := ((htasks.evidence hrun).writes newer e older hsplit).2 ho
  refine ⟨x, hx, fun e' he' hh x' hx' => ?_⟩
  rcases hbehind e' he' hh with h | h
  · exact .inl (hx'.done.trans h)
  · exact .inr (hx'.done.trans_lt h)

/-- Two calls on one handle: a `refresh`, and later a `refresh_with_sacct`. -/
def laterFinalizer : Config (machine Key) (Except Str SbatchJobSnapshot) :=
  ⟨World.start (.countFrom 0) 0 1 (fun _ => .submitted 1 7 none) [], fun t =>
    if t = 0 then some (refresh (handleDispatcher 60 runCommand) 0)
    else if t = 1 then some (refreshWithSacct (handleDispatcher 60 runCommand) 0)
    else none⟩

/-- The qgroup entry has expired, the squeue entry of ten seconds later has not. -/
def listingReplayed : List (Move (machine Key)) :=
  [passes 0, passes 0, prints 0 "", waits 10 10, passes 0, prints 0 "7 RUNNING None", saves 0,
   waits 55 65,
   passes 1, passes 1, prints 1 " gr u 7 | FINI", saves 1, passes 1, passes 1, saves 1]

/-- Two clients of one handle. -/
theorem clients_laterFinalizer : Clients (handleDispatcher 60 runCommand) laterFinalizer.tasks := by
  intro t p ht
  refine ⟨0, ?_⟩
  simp only [laterFinalizer] at ht
  split at ht
  · exact .inl (Option.some.inj ht).symm
  · split at ht
    · exact .inr (Option.some.inj ht).symm
    · cases ht

set_option maxRecDepth 10000 in
/-- The second call asks qgroup anew, and reads a replay of the listing that the first one got from
squeue. -/
theorem evidence_within_ttl_replay : ∃ c, laterFinalizer.run listingReplayed = some c ∧
    c.world.writes.length = 3 ∧
    ∀ newer e older, c.world.writes = newer ++ e :: older → Observes e →
      ∃ x, Used 60 c.world.calls e x ∧
        ∀ e' ∈ older, e'.handle = e.handle → ∀ x', Used 60 c.world.calls e' x' →
          x'.doneAt ≤ x.startedAt ∨ x'.doneAt < x.doneAt + 60 := by
  obtain ⟨c, hrun, hlen⟩ : ∃ c, laterFinalizer.run listingReplayed = some c ∧
      c.world.writes.length = 3 := Config.exists_run (by decide +kernel)
  exact ⟨c, hrun, hlen, evidence_within_ttl clients_laterFinalizer hrun⟩

/-- `P` holds of every command that printed an answer which `e` may rest on. -/
def ForUsed (calls : List Call) (e : Write) (P : Call → Prop) : Prop :=
  ∀ rd ∈ e.heard, Yields e rd → ∀ x ∈ calls,
    (∀ out ∈ rd.result.toOption, x.result = .ok out) → P x

instance (calls : List Call) (e : Write) (P : Call → Prop) [DecidablePred P] :
    Decidable (ForUsed calls e P) := by
  unfold ForUsed
  infer_instance

/-- What was checked of the commands behind a write. -/
theorem ForUsed.used {calls : List Call} {e : Write} {P : Call → Prop} (h : ForUsed calls e P)
    {ttl : Nat} {x : Call} (hx : Used ttl calls e x) : P x := by
  obtain ⟨hmem, rd, hrd, -, hyields, -, hsrc⟩ := hx
  refine h rd hrd hyields x hmem fun out hout => (hsrc.output out).mp ?_
  cases hr : rd.result with
  | error msg => rw [hr] at hout; cases hout
  | ok out' => rw [hr] at hout; cases hout; rfl

/-- The last write is a rollback of a hit, and rests on a command from before second 10 while the
hit rests on one from second 65. -/
def RolledBackLate (writes : List Write) (calls : List Call) : Prop :=
  match writes with
  | e :: e' :: _ =>
    e.site = .rollback e.before ∧ e'.site = .hit ∧ e.before = e'.after ∧
      ForUsed calls e (·.doneAt ≤ 10) ∧ ForUsed calls e' (65 ≤ ·.startedAt)
  | _ => False

instance (writes : List Write) (calls : List Call) : Decidable (RolledBackLate writes calls) := by
  unfold RolledBackLate
  split <;> infer_instance

set_option maxRecDepth 10000 in
/-- **An observation goes back to older evidence.**  The rollback rests on a squeue listing from
before the qgroup listing whose observation it replaces. -/
theorem evidence_goes_back : ∃ c, laterFinalizer.run listingReplayed = some c ∧
    (∀ s ∈ c.world.saves, s.result = .ok ()) ∧
    ∃ e e' rest carried, c.world.writes = e :: e' :: rest ∧ e.site = .rollback carried ∧
      e.before = e'.after ∧
      (∃ x, Used 60 c.world.calls e x) ∧
      (∃ x', Used 60 c.world.calls e' x') ∧
      ∀ x x', Used 60 c.world.calls e x → Used 60 c.world.calls e' x' →
        x.doneAt < x'.startedAt := by
  obtain ⟨c, hrun, hsaves, hlate⟩ : ∃ c, laterFinalizer.run listingReplayed = some c ∧
      ((∀ s ∈ c.world.saves, s.result = .ok ()) ∧
        RolledBackLate c.world.writes c.world.calls) :=
    Config.exists_run (by decide +kernel)
  have hi := clients_laterFinalizer.evidence hrun
  unfold RolledBackLate at hlate
  split at hlate
  · rename_i e e' rest hwrites
    obtain ⟨hsite, hsite', hbefore, hold, hnew⟩ := hlate
    have hobs : Observes e := fun carried h => by rw [hsite] at h; cases h
    have hobs' : Observes e' := fun carried h => by rw [hsite'] at h; cases h
    obtain ⟨x, hx, -⟩ := (hi.writes [] e (e' :: rest) hwrites).2 hobs
    obtain ⟨x', hx', -⟩ := (hi.writes [e] e' rest hwrites).2 hobs'
    refine ⟨c, hrun, hsaves, e, e', rest, _, hwrites, hsite, hbefore, ⟨x, hx⟩, ⟨x', hx'⟩, ?_⟩
    intro y y' hy hy'
    have h1 := hold.used hy
    have h2 := hnew.used hy'
    omega
  · exact hlate.elim

end Sbatch

/-
# Calls one after another

A client that calls `refresh` and `refresh_with_sacct` on several handles, in any order, and waits
for each call to return.  Nothing else runs, so a call leaves the snapshots of the other handles
alone, and its saves are the only ones.
-/
import SlurmRunner.Sbatch.HandleSpec

namespace Sbatch

open Text Slurm Interact

variable {ι : Type} {K : ι → Type}

/-! ## 1. Requests

The calls on a handle that refresh it, as one type, so that what is said of a session of calls is
said once. -/

/-- A call on a handle. -/
inductive Request where
  | refresh (h : Nat)
  | refreshWithSacct (h : Nat)
deriving DecidableEq, Repr

namespace Request

def handle : Request → Nat
  | refresh h | refreshWithSacct h => h

/-- The program of a call. -/
def program (d : Dispatcher K) : Request → Prog (sig K) (Except Str SbatchJobSnapshot)
  | refresh h => Sbatch.refresh d h
  | refreshWithSacct h => Sbatch.refreshWithSacct d h

end Request

/-! ## 2. The handle of a call

A call works on one handle: it borrows, saves and publishes under that handle's number.  This is a
fact about its program, so it is proved over the operations the program is made of. -/

/-- The operation publishes on no other handle than `h`. -/
def Op.onHandle (h : Nat) : Op K → Prop
  | .sendReplace x _ _ => x = h
  | .newHandle _ => False
  | _ => True

/-- The operations of a probe: those of the dispatcher, and the record of its answer. -/
def Op.onProbe : Op K → Bool
  | .read _ _ _ => true
  | o => o.onDispatch

/-- A query works on no handle at all. -/
theorem onHandle_of_onProbe {h : Nat} (o : Op K) (ho : o.onProbe = true) : o.onHandle h := by
  cases o <;> trivial

section Probe

variable {d : Dispatcher K} {P : Op K → Prop}

/-- A query through a dispatcher. -/
theorem uses_dynView (hd : DispatchesOnly d) (hP : ∀ o : Op K, o.onProbe = true → P o)
    (argv : Argv) : (dynView d argv).Uses P := by
  have hdispatch : ∀ o : Op K, o.onDispatch = true → P o := fun o ho => hP o (by
    cases o <;> trivial)
  exact Prog.uses_bind (Prog.uses_op (hP _ rfl)) fun _ =>
    Prog.uses_bind ((hd argv).mono hdispatch) fun _ =>
      Prog.uses_bind (Prog.uses_op (hP _ rfl)) fun _ => Prog.uses_ret _

/-- The observation of a refresh, for a job and for a task of an array. -/
theorem uses_observe (hd : DispatchesOnly d) (hP : ∀ o : Op K, o.onProbe = true → P o)
    (snap : SbatchJobSnapshot) : (observe (dynView d) snap).Uses P := by
  unfold observe
  split
  · exact Prog.uses_bind (uses_dynView hd hP _) fun _ => Prog.uses_ret _
  · refine Prog.uses_bind (uses_dynView hd hP _) fun r => ?_
    split
    · exact Prog.uses_ret _
    · exact Prog.uses_bind (uses_dynView hd hP _) fun _ => Prog.uses_ret _

/-- The resolution of an outcome by sacct. -/
theorem uses_resolve (hd : DispatchesOnly d) (hP : ∀ o : Op K, o.onProbe = true → P o)
    (snap : SbatchJobSnapshot) : (resolve (dynView d) snap).Uses P := by
  unfold resolve
  split
  · exact Prog.uses_bind (uses_dynView hd hP _) fun _ => Prog.uses_ret _
  · refine Prog.uses_bind (uses_dynView hd hP _) fun r => ?_
    split
    · exact Prog.uses_ret _
    · exact Prog.uses_ret _
    · exact Prog.uses_bind (uses_dynView hd hP _) fun _ => Prog.uses_ret _

end Probe

/-- The saving and publishing at the end of a refresh. -/
theorem uses_saveAndPublish (h : Nat) (site : Site) (snap : SbatchJobSnapshot) :
    (saveAndPublish h site snap : Prog (sig K) _).Uses (Op.onHandle h) := by
  refine Prog.uses_bind (Prog.uses_op trivial) fun r => ?_
  split
  · exact Prog.uses_ret _
  · exact Prog.uses_bind (Prog.uses_op rfl) fun _ => Prog.uses_ret _

/-- A refresh works on its handle. -/
theorem uses_refresh {d : Dispatcher K} (hd : DispatchesOnly d) (h : Nat) :
    (refresh d h).Uses (Op.onHandle h : Op K → Prop) := by
  refine Prog.uses_bind (Prog.uses_op trivial) fun _ => Prog.uses_bind (Prog.uses_op trivial)
    fun snap => Prog.uses_bind (Prog.uses_op trivial) fun now => Prog.uses_bind ?_ fun _ =>
      Prog.uses_bind (Prog.uses_op trivial) fun _ => Prog.uses_ret _
  rw [refreshLocked_eq]
  refine Prog.uses_bind (uses_observe hd onHandle_of_onProbe _) fun obs => ?_
  split
  · exact Prog.uses_ret _
  · exact uses_saveAndPublish h _ _

/-- So does the finalizer once it holds the lock. -/
theorem uses_finalizeLocked {d : Dispatcher K} (hd : DispatchesOnly d) (h : Nat)
    (snap : SbatchJobSnapshot) : (finalizeLocked d h snap).Uses (Op.onHandle h : Op K → Prop) := by
  rw [finalizeLocked_eq]
  refine Prog.uses_bind (uses_resolve hd onHandle_of_onProbe _) fun res => ?_
  split
  · exact Prog.uses_ret _
  · split
    · exact Prog.uses_ret _
    · split <;>
        exact Prog.uses_bind (Prog.uses_op trivial) fun _ => uses_saveAndPublish h _ _

/-- **A call works on its own handle only.** -/
theorem Request.uses_program {d : Dispatcher K} (hd : DispatchesOnly d) (req : Request) :
    (req.program d).Uses (Op.onHandle req.handle : Op K → Prop) := by
  cases req with
  | refresh h => exact uses_refresh hd h
  | refreshWithSacct h =>
    refine Prog.uses_bind (uses_refresh hd h) fun r => ?_
    split
    · exact Prog.uses_ret _
    · split
      · exact Prog.uses_ret _
      · split
        · exact Prog.uses_ret _
        · exact Prog.uses_bind (Prog.uses_op trivial) fun _ =>
            Prog.uses_bind (uses_finalizeLocked hd h _) fun _ =>
              Prog.uses_bind (Prog.uses_op trivial) fun _ => Prog.uses_ret _

/-! ## 3. What a call leaves alone

The other handles, the saves of other tasks, and all of the store but what the saves of the call put
there. -/

/-- The saves `new` (newest first) of task `t` turn the store `s` into `s'`. -/
inductive Stored (t : Nat) (s : Store) : List Save → Store → Prop
  | nil : Stored t s [] s
  | saved {new s' snap} (h : Stored t s new s') :
      Stored t s (⟨t, snap, s'.load snap.uuid, .ok ()⟩ :: new) (s'.save snap)
  | failed {new s' snap e} (h : Stored t s new s') :
      Stored t s (⟨t, snap, s'.load snap.uuid, .error e⟩ :: new) s'

/-- The saves of two steps after one another. -/
theorem Stored.trans {t : Nat} {s s' s'' : Store} {new new' : List Save} (h : Stored t s new s')
    (h' : Stored t s' new' s'') : Stored t s (new' ++ new) s'' := by
  induction h' with
  | nil => exact h
  | saved _ ih => exact .saved ih
  | failed _ ih => exact .failed ih

/-- Without a save the store is as it was. -/
theorem Stored.eq_of_nil {t : Nat} {s s' : Store} (h : Stored t s [] s') : s' = s := by
  cases h
  rfl

/-- A single save that went well is the whole change of the store. -/
theorem Stored.saved_of_single {t tid : Nat} {s s' : Store} {snap : SbatchJobSnapshot}
    {before : Option SbatchJobSnapshot} (h : Stored t s [⟨tid, snap, before, .ok ()⟩] s') :
    tid = t ∧ before = s.load snap.uuid ∧ s' = s.save snap := by
  cases h with
  | saved h =>
    rw [h.eq_of_nil]
    exact ⟨rfl, rfl, rfl⟩

/-- A single save that failed changes nothing. -/
theorem Stored.failed_of_single {t tid : Nat} {s s' : Store} {snap : SbatchJobSnapshot}
    {before : Option SbatchJobSnapshot} {e : Str}
    (h : Stored t s [⟨tid, snap, before, .error e⟩] s') :
    tid = t ∧ before = s.load snap.uuid ∧ s' = s := by
  cases h with
  | failed h =>
    rw [h.eq_of_nil]
    exact ⟨rfl, rfl, rfl⟩

/-- The saves are those of the task. -/
theorem Stored.tid {t : Nat} {s s' : Store} {new : List Save} (h : Stored t s new s') :
    ∀ sv ∈ new, sv.tid = t := by
  induction h with
  | nil => exact fun _ hsv => by cases hsv
  | saved _ ih | failed _ ih =>
    intro sv hsv
    rcases List.mem_cons.mp hsv with rfl | hsv
    · rfl
    · exact ih sv hsv

/-- Task `t` alone has been at work, and on no other handle than `h`. -/
structure Alone (t h : Nat) (w w' : World K) : Prop where
  watch : ∀ x, x ≠ h → w'.watch x = w.watch x
  saves : ∃ new, w'.saves = new ++ w.saves ∧ Stored t w.store new w'.store

/-- Nothing was done. -/
theorem Alone.refl (t h : Nat) (w : World K) : Alone t h w w := ⟨fun _ _ => rfl, [], rfl, .nil⟩

/-- What two steps leave alone, both together leave alone. -/
theorem Alone.trans {t h : Nat} {w w' w'' : World K} (ha : Alone t h w w')
    (ha' : Alone t h w' w'') : Alone t h w w'' := by
  obtain ⟨new, hnew, hst⟩ := ha.saves
  obtain ⟨new', hnew', hst'⟩ := ha'.saves
  refine ⟨fun x hx => (ha'.watch x hx).trans (ha.watch x hx), new' ++ new, ?_, hst.trans hst'⟩
  rw [hnew', hnew, List.append_assoc]

/-- The saves of a task that works alone are all there are. -/
theorem Alone.savesOf {t h : Nat} {w w' : World K} (ha : Alone t h w w') :
    ∃ new, w'.savesOf t = new ++ w.savesOf t ∧ Stored t w.store new w'.store := by
  obtain ⟨new, hnew, hst⟩ := ha.saves
  refine ⟨new, ?_, hst⟩
  rw [World.savesOf, World.savesOf, hnew, List.filter_append,
    List.filter_eq_self.mpr fun sv hsv => decide_eq_true (hst.tid sv hsv)]

/-- The passing of time leaves everything alone. -/
theorem ClockOnly.alone {t h : Nat} {w w' : World K} (hc : ClockOnly w w') : Alone t h w w' := by
  obtain ⟨dt, utc, st, rfl, -⟩ := hc
  exact ⟨fun _ _ => rfl, [], rfl, .nil⟩

variable [DecidableEq ι] {A : Audit K} {t h : Nat} {w : World K}

/-- Each operation extends the list of the saves by what it puts into the store. -/
theorem exec_stored {o : Op K} {i : Input} {w' : World K} {a : o.Ans}
    (he : exec t o i w = some (a, w')) :
    ∃ new, w'.saves = new ++ w.saves ∧ Stored t w.store new w'.store := by
  cases effect_of_exec he with
  | @save snap r =>
    refine ⟨[_], rfl, ?_⟩
    cases r with
    | ok _ => exact .saved .nil
    | error e => exact .failed .nil
  | _ => exact ⟨[], rfl, .nil⟩

/-- An operation on a handle leaves the other handles alone. -/
theorem exec_alone {o : Op K} {i : Input} {w' : World K} {a : o.Ans} (ho : o.onHandle h)
    (he : exec t o i w = some (a, w')) : Alone t h w w' := by
  refine ⟨fun x hx => ?_, exec_stored he⟩
  cases effect_of_exec he with
  | sendReplace _ =>
    cases ho
    exact Function.update_of_ne hx ..
  | newHandle => exact ho.elim
  | _ => rfl

/-! ## 4. The rule of a call

A call of a client that runs alone is `Served`, which says what it has returned, published and
stored. -/

/-- What a call has done, by its kind. -/
def Served (A : Audit K) (t : Nat) (req : Request) (w : World K) (r : Except Str SbatchJobSnapshot)
    (w' : World K) : Prop :=
  match req with
  | .refresh h => ∃ w₁ : World K, ClockOnly w w₁ ∧ Inv A w₁ ∧ Refreshed A t h w₁ r w'
  | .refreshWithSacct h => RefreshedWithSacct (solo A).toContext A t h w r w'

/-- The frame of a program run alone that publishes on no other handle than `h`. -/
theorem wp_alone {α : Type} {p : Prog (sig K) α} {Q : α → World K → Prop}
    (hp : p.Uses (Op.onHandle h : Op K → Prop)) (hwp : (solo A).wp t p Q w) :
    (solo A).wp t p (fun a w' => Q a w' ∧ Alone t h w w' ∧ Elapse w w') w := by
  refine Context.wp_frame (C := (solo A).toContext) (P := Op.onHandle h)
    (F := fun w w' : World K => Alone t h w w' ∧ Elapse w w') ?_ ?_ ?_
    hp hwp ⟨Alone.refl t h w, Elapse.refl w⟩
  · intro w w' w'' h h'
    exact ⟨h.1.trans h'.1, h.2.trans h'.2⟩
  · intro w w' hclock
    exact ⟨ClockOnly.alone hclock, (ClockOnly.others (t := t) hclock).dispatched.toElapse⟩
  · intro o i w a w' ho hp he
    exact ⟨exec_alone ho he, exec_elapse hp he⟩

/-- **The rule of a call**, whichever of the two it is. -/
theorem wp_request {d : Dispatcher K} (hd : Serves A (solo A).toContext t d)
    (hquiet : ∀ u, ¬ A.quiet u) (req : Request) (hallow : RefreshAllowed A t req.handle)
    (hallow' : FinalizeAllowed A t req.handle (w.readsOf t)) (hidle : Idle t w) :
    (solo A).wp t (req.program d) (fun r w' => (Served A t req w r w' ∧ Idle t w') ∧
      Alone t req.handle w w' ∧ Elapse w w') w := by
  refine wp_alone (req.uses_program hd.only) ?_
  cases req with
  | refresh h =>
    refine Context.wp_mono (wp_refresh solo_under hd hquiet hallow hidle) ?_
    rintro r w' ⟨w₁, hr, hi, href, hid⟩
    exact ⟨⟨w₁, hr, hi, href⟩, hid⟩
  | refreshWithSacct h => exact wp_refreshWithSacct solo_under hd hquiet hallow hallow' hidle

/-! ## 5. What a call stores

What is published is what is stored: the save of the call comes first, and nobody writes in
between. -/

/-- Nothing was stored, nor published on handle `h`. -/
structure Untouched (t h : Nat) (w w' : World K) : Prop where
  watch : w'.watch h = w.watch h
  store : w'.store = w.store
  savesOf : w'.savesOf t = w.savesOf t

/-- The snapshot was saved once and, if that worked, published and returned. -/
inductive Committed (t h : Nat) (snap : SbatchJobSnapshot) (w w' : World K) :
    Except Str SbatchJobSnapshot → Prop
  | failed {e} (hwatch : w'.watch h = w.watch h) (hstore : w'.store = w.store)
      (hsaves : w'.savesOf t = ⟨t, snap, w.store.load snap.uuid, .error e⟩ :: w.savesOf t) :
      Committed t h snap w w' (.error e)
  | stored (hwatch : w'.watch h = snap) (hstore : w'.store = w.store.save snap)
      (hsaves : w'.savesOf t = ⟨t, snap, w.store.load snap.uuid, .ok ()⟩ :: w.savesOf t) :
      Committed t h snap w w' (.ok snap)

omit [DecidableEq ι] in
/-- Who has neither published nor saved has left the handle untouched. -/
theorem Alone.untouched {w' : World K} (ha : Alone t h w w') (hwatch : w'.watch h = w.watch h)
    (hsaves : w'.savesOf t = w.savesOf t) : Untouched t h w w' := by
  obtain ⟨new, hnew, hst⟩ := ha.savesOf
  rw [hsaves, List.self_eq_append_left] at hnew
  exact ⟨hwatch, (hnew ▸ hst).eq_of_nil, hsaves⟩

omit [DecidableEq ι] in
/-- What is on record as published was saved just before, with the same snapshot. -/
theorem Recorded.committed {site : Site} {snap : SbatchJobSnapshot}
    {r : Except Str SbatchJobSnapshot} {w' : World K} (hrec : Recorded t h site snap w r w')
    (ha : Alone t h w w') : Committed t h snap w w' r := by
  obtain ⟨sv, hsv, -, rfl, hcases⟩ := hrec
  obtain ⟨new, hnew, hst⟩ := ha.savesOf
  have hone : [sv] = new := List.append_cancel_right (hsv.symm.trans hnew)
  obtain ⟨tid, snap, before, result⟩ := sv
  rcases hcases with ⟨e, rfl, rfl, hwatch⟩ | ⟨rfl, rfl, hwatch, -⟩
  · obtain ⟨rfl, rfl, hstore⟩ := (hone ▸ hst).failed_of_single
    exact .failed hwatch hstore hsv
  · obtain ⟨rfl, rfl, hstore⟩ := (hone ▸ hst).saved_of_single
    exact .stored hwatch hstore hsv

omit [DecidableEq ι] in
/-- The clocks may move before a record is made. -/
theorem Recorded.earlier {site : Site} {snap : SbatchJobSnapshot}
    {r : Except Str SbatchJobSnapshot} {w₁ w' : World K} (hrec : Recorded t h site snap w₁ r w')
    (hclock : ClockOnly w w₁) : Recorded t h site snap w r w' := by
  have hinst := (hclock.others (t := t)).dispatched.instant
  obtain ⟨dt, utc, st, rfl, -⟩ := hclock
  obtain ⟨sv, hsv, htid, hsnap, hfail | ⟨hres, hr, hwatch, wr, hwr, h1, h2, h3, h4, h5, hat⟩⟩ :=
    hrec
  · exact ⟨sv, hsv, htid, hsnap, .inl hfail⟩
  · exact ⟨sv, hsv, htid, hsnap,
      .inr ⟨hres, hr, hwatch, wr, hwr, h1, h2, h3, h4, h5, hinst.trans hat⟩⟩

/-- The finalizer of `refresh_with_sacct`: its second critical section, with the snapshot `snap` of
the first. -/
def finalizer (d : Dispatcher K) (h : Nat) (snap : SbatchJobSnapshot) :
    Prog (sig K) (Except Str SbatchJobSnapshot) := do
  lockRefresh h
  let r ← finalizeLocked d h snap
  unlockRefresh h
  return r

omit [DecidableEq ι] in
/-- The finalizer works on its handle. -/
theorem uses_finalizer {d : Dispatcher K} (hd : DispatchesOnly d) (h : Nat)
    (snap : SbatchJobSnapshot) : (finalizer d h snap).Uses (Op.onHandle h : Op K → Prop) :=
  Prog.uses_bind (Prog.uses_op trivial) fun _ =>
    Prog.uses_bind (uses_finalizeLocked hd h _) fun _ =>
      Prog.uses_bind (Prog.uses_op trivial) fun _ => Prog.uses_ret _

/-- The finalizer is due: the job has left the listings or was seen in a terminal state, and has no
outcome yet. -/
def SbatchJobSnapshot.due (snap : SbatchJobSnapshot) : Bool :=
  !snap.lifecycle.finished.isSome && (snap.lifecycle.leftActiveListing || snap.observedTerminal)

omit [DecidableEq ι] in
/-- `refresh_with_sacct` is a refresh, and after one that is due the finalizer. -/
theorem refreshWithSacct_eq (d : Dispatcher K) (h : Nat) :
    refreshWithSacct d h = (do
      match ← refresh d h with
      | .error e => return .error e
      | .ok snap => if snap.due then finalizer d h snap else return .ok snap) := by
  unfold refreshWithSacct SbatchJobSnapshot.due
  refine bind_congr fun r => ?_
  cases r with
  | error e => rfl
  | ok snap =>
    dsimp only
    cases snap.lifecycle.finished.isSome <;> cases snap.lifecycle.leftActiveListing <;>
      cases snap.observedTerminal <;> rfl

/-! ## 6. The dispatcher of a handle

A handle of a manager has the dispatcher with the caches, one that was made by itself the bare
one. -/

/-- Any answer that satisfies `read` may be read, anything may be published. -/
def readAudit (read : Read → List Call → Prop)
    (hmono : ∀ {rd calls calls'}, calls <:+ calls' → read rd calls → read rd calls') :
    Audit Key where
  shape := toolShape
  quiet _ := False
  holds _ := none
  timely := False
  first _ _ := True
  read := read
  write _ _ _ _ := True
  read_mono := hmono
  write_mono _ _ h := h

/-- The dispatcher of a handle: a bare one, or that of a manager with caches of the given `ttl`. -/
def dispatcherOf : Option Nat → Dispatcher Key
  | none => runCommand
  | some ttl => handleDispatcher ttl runCommand

/-- The audit of calls over it. -/
def sessionAudit : Option Nat → Audit Key
  | none => readAudit BareRead fun hs h => h.mono hs
  | some ttl => readAudit (CachedRead ttl) fun hs h => h.mono hs

/-- No task is bound to be quiet. -/
theorem sessionAudit_quiet (cache : Option Nat) (u : Nat) : ¬ (sessionAudit cache).quiet u := by
  cases cache <;> exact fun h => h

/-- Every refresh is allowed. -/
theorem sessionAudit_refresh (cache : Option Nat) (t h : Nat) :
    RefreshAllowed (sessionAudit cache) t h := by
  cases cache <;> exact fun _ _ _ _ _ _ => trivial

/-- Every finalizer is allowed. -/
theorem sessionAudit_finalize (cache : Option Nat) (t h : Nat) (base : List Read) :
    FinalizeAllowed (sessionAudit cache) t h base := by
  cases cache <;> exact fun _ _ _ _ _ _ _ _ _ _ => ⟨fun _ => trivial, fun _ _ => trivial⟩

/-- The dispatcher of a handle serves its calls, with the caches and without. -/
theorem serves_dispatcherOf (cache : Option Nat) (t : Nat) :
    Serves (sessionAudit cache) (solo (sessionAudit cache)).toContext t (dispatcherOf cache) := by
  cases cache with
  | none =>
      exact serves_runCommand solo_under rfl (fun _ _ _ => trivial) (fun _ h => h) fun _ => rfl
  | some ttl =>
    exact serves_handleDispatcher solo_under rfl rfl (fun _ _ _ _ => trivial) (fun _ h => h)
      fun _ => rfl

/-- What is known of the caches holds in the beginning, when they are empty. -/
theorem sessionAudit_start (cache : Option Nat) (uuids : Supply Nat) (utc n : Nat)
    (snaps : Nat → SbatchJobSnapshot)
    (store : Store) : Inv (sessionAudit cache) (World.start uuids utc n snaps store) := by
  cases cache <;> exact inv_start False.elim fun _ => trivial

/-! ## 7. Calls run alone

The rules of the calls as facts about runs: a run of a call that has returned is one that the rule
is about. -/

/-- Nothing is pending: so a session starts, and so every call leaves it. -/
structure Rest (cache : Option Nat) (t : Nat) (w : World Key) : Prop where
  inv : Inv (sessionAudit cache) w
  idle : Idle t w

section Calls

variable {cache : Option Nat} {t h : Nat} {w w' : World Key} {ms : List (Input ⊕ Tick)}
  {r : Except Str SbatchJobSnapshot}

/-- **The effect of a `refresh`**: it fails and leaves everything, or it commits its observation. -/
def Refreshes (t h : Nat) (w : World Key) (r : Except Str SbatchJobSnapshot) (w' : World Key) :
    Prop :=
  (Untouched t h w w' ∧ ∃ e, r = .error e) ∨
    ∃ row now, Committed t h ((w.watch h).observed row now) w w' r

/-- **The effect of a finalizer** with the snapshot `snap`. -/
def Finalizes (t h : Nat) (snap : SbatchJobSnapshot) (w : World Key)
    (r : Except Str SbatchJobSnapshot) (w' : World Key) : Prop :=
  (Untouched t h w w' ∧ (r = .ok snap ∨ ∃ e, r = .error e)) ∨
    (∃ status now, Committed t h (snap.rolledBack status now) w w' r) ∨
    ∃ outcome now, Committed t h (snap.stamped outcome now) w w' r

/-- A refresh that has returned, from a world at rest to a world at rest. -/
theorem call_refresh (hw : Rest cache t w)
    (hcall : (machine Key).call t (refresh (dispatcherOf cache) h) ms w = some (r, w')) :
    Refreshes t h w r w' ∧ Rest cache t w' ∧ Alone t h w w' ∧
      ∃ w₁, ClockOnly w w₁ ∧ Refreshed (sessionAudit cache) t h w₁ r w' := by
  have hwp := wp_request (serves_dispatcherOf cache t) (sessionAudit_quiet cache) (.refresh h)
    (sessionAudit_refresh cache t h) (sessionAudit_finalize cache t h _) hw.idle
  obtain ⟨⟨⟨⟨w₁, hclock, -, href⟩, hidle⟩, halone, -⟩, hi⟩ :=
    (solo (sessionAudit cache)).wp_call ms _ w r w' hw.inv hwp hcall
  refine ⟨?_, ⟨hi, hidle⟩, halone, w₁, hclock, href⟩
  obtain ⟨new, obs, -, -, -, hrec⟩ := href
  cases obs with
  | error e =>
    obtain ⟨dt, utc, st, rfl, -⟩ := hclock
    exact .inl ⟨halone.untouched hrec.2.1 hrec.2.2, e, hrec.1⟩
  | ok row =>
    have hcommit := (Recorded.earlier hrec hclock).committed halone
    obtain ⟨dt, utc, st, rfl, -⟩ := hclock
    exact .inr ⟨row, utc, hcommit⟩

/-- A finalizer that has returned, with the snapshot that was carried into it. -/
theorem call_finalizer {snap : SbatchJobSnapshot} {base : List Read} (hw : Rest cache t w)
    (hcarried : ∀ w₁ : World Key, ClockOnly w w₁ → Carried t h base snap w₁)
    (hcall : (machine Key).call t (finalizer (dispatcherOf cache) h snap) ms w = some (r, w')) :
    Finalizes t h snap w r w' ∧ Rest cache t w' ∧ Alone t h w w' := by
  have hd := serves_dispatcherOf cache t
  have hwp := wp_alone (uses_finalizer hd.only h snap) (wp_finalize solo_under hd
    (sessionAudit_quiet cache) (sessionAudit_finalize cache t h base) hcarried hw.idle)
  obtain ⟨⟨⟨w₁, hclock, -, hfin, hidle⟩, halone, -⟩, hi⟩ :=
    (solo (sessionAudit cache)).wp_call ms _ w r w' hw.inv hwp hcall
  refine ⟨?_, ⟨hi, hidle⟩, halone⟩
  obtain ⟨new, res, -, -, -, hcases⟩ := hfin
  have huntouched : w'.watch h = w₁.watch h → w'.savesOf t = w₁.savesOf t → Untouched t h w w' := by
    intro hwatch hsaves
    obtain ⟨dt, utc, st, rfl, -⟩ := hclock
    exact halone.untouched hwatch hsaves
  cases res with
  | error e => exact .inl ⟨huntouched hcases.2.1 hcases.2.2, .inr ⟨e, hcases.1⟩⟩
  | ok oc =>
    rcases hcases with ⟨-, hr, hwatch, hsaves⟩ | ⟨-, now, hrec⟩ | ⟨-, -, now, hrec⟩
    · exact .inl ⟨huntouched hwatch hsaves, .inl hr⟩
    · exact .inr (.inl ⟨oc.status, now, (hrec.earlier hclock).committed halone⟩)
    · exact .inr (.inr ⟨oc, now, (hrec.earlier hclock).committed halone⟩)

/-- **The effect of a `refresh_with_sacct`**: that of its `refresh`, and then that of the finalizer,
if it is due. -/
theorem call_refreshWithSacct (hw : Rest cache t w)
    (hcall : (machine Key).call t (refreshWithSacct (dispatcherOf cache) h) ms w = some (r, w')) :
    ∃ ms₁ ms₂ r₁ w₁, ms = ms₁ ++ ms₂ ∧
      (machine Key).call t (refresh (dispatcherOf cache) h) ms₁ w = some (r₁, w₁) ∧
      Refreshes t h w r₁ w₁ ∧ Rest cache t w' ∧ Alone t h w w' ∧
      ((r = r₁ ∧ w' = w₁ ∧ ∀ snap, r₁ = .ok snap → snap.due = false) ∨
        ∃ snap, r₁ = .ok snap ∧ snap.due = true ∧ Alone t h w₁ w' ∧
          Finalizes t h snap w₁ r w') := by
  rw [refreshWithSacct_eq] at hcall
  obtain ⟨ms₁, ms₂, r₁, w₁, rfl, h₁, h₂⟩ := (machine Key).call_bind hcall
  obtain ⟨heffect, hrest, halone, wm, hclock, href⟩ := call_refresh hw h₁
  refine ⟨ms₁, ms₂, r₁, w₁, rfl, h₁, heffect, ?_⟩
  have hdone : (∀ snap, r₁ = .ok snap → snap.due = false) →
      (machine Key).call t (.ret r₁) ms₂ w₁ = some (r, w') → Rest cache t w' ∧ Alone t h w w' ∧
        ((r = r₁ ∧ w' = w₁ ∧ ∀ snap, r₁ = .ok snap → snap.due = false) ∨
        ∃ snap, r₁ = .ok snap ∧ snap.due = true ∧ Alone t h w₁ w' ∧
          Finalizes t h snap w₁ r w') := by
    intro hnot hret
    cases ms₂ with
    | nil =>
      cases hret
      exact ⟨hrest, halone, .inl ⟨rfl, rfl, hnot⟩⟩
    | cons m ms => cases hret
  cases r₁ with
  | error e => exact hdone (fun snap hs => by cases hs) h₂
  | ok snap =>
    cases hdue : snap.due with
    | false =>
      simp only [hdue, Bool.false_eq_true, if_false] at h₂
      refine hdone (fun s hs => ?_) h₂
      cases hs
      exact hdue
    | true =>
      simp only [hdue, if_true] at h₂
      have hdue' := hdue
      simp only [SbatchJobSnapshot.due, Bool.and_eq_true, Bool.not_eq_true', Bool.or_eq_true,
        Option.isSome_eq_false_iff, Option.isNone_iff_eq_none] at hdue'
      obtain ⟨hfin, hrest', halone'⟩ := call_finalizer hrest
        (fun w₂ hclock₂ => href.carried hdue'.1 hdue'.2 hclock₂.others) h₂
      exact ⟨hrest', halone.trans halone', .inr ⟨snap, rfl, hdue, halone', hfin⟩⟩

/-- A call leaves the world at rest. -/
theorem call_rest {req : Request} (hw : Rest cache t w)
    (hcall : (machine Key).call t (req.program (dispatcherOf cache)) ms w = some (r, w')) :
    Rest cache t w' := by
  cases req with
  | refresh h => exact (call_refresh hw hcall).2.1
  | refreshWithSacct h =>
    obtain ⟨_, _, _, _, -, -, -, hrest, -⟩ := call_refreshWithSacct hw hcall
    exact hrest

/-- A session leaves nothing pending. -/
theorem serve_rest {steps : List (Request × List (Input ⊕ Tick))}
    {rs : List (Except Str SbatchJobSnapshot)} (hw : Rest cache t w)
    (hs : (machine Key).serve t (Request.program (dispatcherOf cache)) steps w = some (rs, w')) :
    Rest cache t w' :=
  (machine Key).serve_induct (P := fun _ _ => True) (J := Rest cache t)
    (fun _ _ _ _ _ hJ _ hc => call_rest hJ hc) hw
    ((machine Key).meets_of_forall (fun _ _ _ => trivial) _) hs

/-- The world is at rest in the beginning. -/
theorem rest_start (cache : Option Nat) (t : Nat) (uuids : Supply Nat) (utc n : Nat)
    (snaps : Nat → SbatchJobSnapshot)
    (store : Store) : Rest cache t (World.start uuids utc n snaps store) :=
  ⟨sessionAudit_start .., idle_start ..⟩

end Calls

end Sbatch

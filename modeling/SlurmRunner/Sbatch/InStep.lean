/-
# The store and the watch channel stay in step

Every path of a handle that records saves first and publishes after, so whatever fails, the entry of
the store is the published snapshot after each call.
-/
import SlurmRunner.Sbatch.Session

namespace Sbatch

open Text Slurm Interact

/-- The store and handle 0 are as they were. -/
structure Unchanged (w w' : World Key) : Prop where
  store : w'.store = w.store
  watch : w'.watch 0 = w.watch 0

/-- The store has the published snapshot of handle 0 under its uuid. -/
def InStep (uuid : Nat) (w : World Key) : Prop :=
  (w.watch 0).uuid = uuid ∧ w.store.load uuid = some (w.watch 0)

variable {t uuid : Nat} {w w' : World Key} {r : Except Str SbatchJobSnapshot}

/-- A call that has done nothing leaves the store and the watch value in step. -/
theorem Untouched.unchanged (h : Untouched t 0 w w') : Unchanged w w' := ⟨h.store, h.watch⟩

/-- And so they stay. -/
theorem Unchanged.inStep (h : Unchanged w w') (hw : InStep uuid w) : InStep uuid w' := by
  unfold InStep
  rw [h.store, h.watch]
  exact hw

/-- **A commit keeps them in step**: it changes both or none. -/
theorem Committed.inStep {snap : SbatchJobSnapshot} (h : Committed t 0 snap w w' r)
    (hw : InStep uuid w) (huuid : snap.uuid = uuid) :
    InStep uuid w' ∧ (∀ s, r = .ok s → w'.watch 0 = s) ∧ (∀ e, r = .error e → Unchanged w w') := by
  cases h with
  | failed hwatch hstore _ =>
    have hun : Unchanged w w' := ⟨hstore, hwatch⟩
    exact ⟨hun.inStep hw, fun s hs => (by cases hs), fun _ _ => hun⟩
  | stored hwatch hstore _ =>
    refine ⟨⟨hwatch ▸ huuid, ?_⟩, fun s hs => ?_, fun e he => (by cases he)⟩
    · rw [hstore, hwatch, ← huuid, Store.load_save_self]
    · cases hs
      exact hwatch

/-- A refresh stamps no exit. -/
theorem Refreshes.finished (h : Refreshes t 0 w r w') :
    (w'.watch 0).lifecycle.finished = (w.watch 0).lifecycle.finished := by
  rcases h with ⟨hun, -⟩ | ⟨row, now, hcommit⟩
  · rw [hun.watch]
  · cases hcommit with
    | failed hwatch => rw [hwatch]
    | stored hwatch =>
      rw [hwatch]
      exact SbatchJobSnapshot.observed_finished ..

/-- **A refresh keeps them in step**: it publishes what it has saved, or neither. -/
theorem Refreshes.inStep (h : Refreshes t 0 w r w') (hw : InStep uuid w) :
    InStep uuid w' ∧ (∀ s, r = .ok s → w'.watch 0 = s) ∧ (∀ e, r = .error e → Unchanged w w') := by
  rcases h with ⟨hun, e, rfl⟩ | ⟨row, now, hcommit⟩
  · exact ⟨hun.unchanged.inStep hw, fun s hs => (by cases hs), fun _ _ => hun.unchanged⟩
  · exact hcommit.inStep hw ((SbatchJobSnapshot.observed_uuid ..).trans hw.1)

/-- **And so does the finalizer.** -/
theorem Finalizes.inStep {snap : SbatchJobSnapshot} (h : Finalizes t 0 snap w r w')
    (hw : InStep uuid w) (hsnap : w.watch 0 = snap) :
    InStep uuid w' ∧ (∀ s, r = .ok s → w'.watch 0 = s) ∧ (∀ e, r = .error e → Unchanged w w') := by
  have huuid : snap.uuid = uuid := hsnap ▸ hw.1
  rcases h with ⟨hun, hr⟩ | ⟨status, now, hcommit⟩ | ⟨outcome, now, hcommit⟩
  · refine ⟨hun.unchanged.inStep hw, fun s hs => ?_, fun _ _ => hun.unchanged⟩
    rcases hr with rfl | ⟨e, rfl⟩
    · cases hs
      exact hun.watch.trans hsnap
    · cases hs
  · exact hcommit.inStep hw huuid
  · exact hcommit.inStep hw huuid

/-- What a failing call leaves: everything, or for a `refresh_with_sacct` the state that its inner
`refresh` made, with the recorded outcome as it was. -/
def LeftBy (cache : Option Nat) (req : Request) (ms : List (Input ⊕ Tick)) (w w' : World Key) :
    Prop :=
  Unchanged w w' ∨ req = .refreshWithSacct 0 ∧ ∃ ms₁ ms₂ snap w₁, ms = ms₁ ++ ms₂ ∧
    (machine Key).call 0 (refresh (dispatcherOf cache) 0) ms₁ w = some (.ok snap, w₁) ∧
    w₁.watch 0 = snap ∧ Unchanged w₁ w' ∧
    (w'.watch 0).lifecycle.finished = (w.watch 0).lifecycle.finished

variable {cache : Option Nat} {req : Request} {ms : List (Input ⊕ Tick)}

/-- **A call keeps them in step**, wherever it fails. -/
theorem call_inStep (hreq : req.handle = 0) (hrest : Rest cache 0 w) (hw : InStep uuid w)
    (hcall : (machine Key).call 0 (req.program (dispatcherOf cache)) ms w = some (r, w')) :
    Rest cache 0 w' ∧ InStep uuid w' ∧ (∀ s, r = .ok s → w'.watch 0 = s) ∧
      ∀ e, r = .error e → LeftBy cache req ms w w' := by
  cases req with
  | refresh h =>
    obtain rfl : h = 0 := hreq
    obtain ⟨heffect, hrest', -, -⟩ := call_refresh hrest hcall
    obtain ⟨hin, hok, herr⟩ := heffect.inStep hw
    exact ⟨hrest', hin, hok, fun e he => .inl (herr e he)⟩
  | refreshWithSacct h =>
    obtain rfl : h = 0 := hreq
    obtain ⟨ms₁, ms₂, r₁, w₁, hms, hinner, heffect, hrest', -, hcases⟩ :=
      call_refreshWithSacct hrest hcall
    obtain ⟨hin₁, hok₁, herr₁⟩ := heffect.inStep hw
    rcases hcases with ⟨rfl, rfl, -⟩ | ⟨snap, rfl, -, -, hfin⟩
    · exact ⟨hrest', hin₁, hok₁, fun e he => .inl (herr₁ e he)⟩
    · obtain ⟨hin, hok, herr⟩ := hfin.inStep hin₁ (hok₁ snap rfl)
      refine ⟨hrest', hin, hok, fun e he => .inr ⟨rfl, ms₁, ms₂, snap, w₁, hms, hinner,
        hok₁ snap rfl, herr e he, ?_⟩⟩
      rw [(herr e he).watch]
      exact heffect.finished

/-- **The store and the published snapshot stay in step** through any calls on a handle that starts
so, and each call returns what it has stored or leaves what was there. -/
theorem store_in_step {uuids : Supply Nat} {utc : Nat} {snap : SbatchJobSnapshot} {store : Store}
    {steps : List (Request × List (Input ⊕ Tick))} {rs : List (Except Str SbatchJobSnapshot)}
    (hstored : store.load snap.uuid = some snap) (hone : ∀ s ∈ steps, s.1.handle = 0)
    (hbefore : (machine Key).serve 0 (Request.program (dispatcherOf cache)) steps
      (World.start uuids utc 1 (fun _ => snap) store) = some (rs, w)) (hreq : req.handle = 0)
    (hcall : (machine Key).call 0 (req.program (dispatcherOf cache)) ms w = some (r, w')) :
    w.store.load snap.uuid = some (w.watch 0) ∧ w'.store.load snap.uuid = some (w'.watch 0) ∧
      (∀ s, r = .ok s → w'.watch 0 = s ∧ w'.store.load snap.uuid = some s) ∧
      ∀ e, r = .error e → LeftBy cache req ms w w' := by
  have hstart : Rest cache 0 (World.start uuids utc 1 (fun _ => snap) store) ∧
      InStep snap.uuid (World.start uuids utc 1 (fun _ => snap) store : World Key) :=
    ⟨rest_start .., rfl, hstored⟩
  obtain ⟨hrest, hin⟩ : Rest cache 0 w ∧ InStep snap.uuid w := by
    refine (machine Key).serve_induct (P := fun _ req => req.handle = 0)
      (J := fun w => Rest cache 0 w ∧ InStep snap.uuid w) (fun b ms w a w' hJ hb hc => ?_)
      hstart ((machine Key).meets_of_forall (fun s hs _ => hone s hs) _) hbefore
    obtain ⟨hrest, hin, -⟩ := call_inStep hb hJ.1 hJ.2 hc
    exact ⟨hrest, hin⟩
  obtain ⟨-, hin', hok, herr⟩ := call_inStep hreq hrest hin hcall
  refine ⟨hin.2, hin'.2, fun s hs => ⟨hok s hs, ?_⟩, herr⟩
  rw [← hok s hs]
  exact hin'.2

/-! ### A stamp that cannot be saved -/

def jobCompletedRow : Str := "8|COMPLETED|None|0:0"

def jobRunningRow : Str := "8 RUNNING None"

/-- The job runs, then it has left the listings, and the save of its outcome fails. -/
def stampSteps : List (Request × List (Input ⊕ Tick)) :=
  [(.refresh 0, goesOn 5 ++ answers "" ++ goesOn 3 ++ answers jobRunningRow ++ goesOn 1 ++
      storesIt ++ goesOn 2)]

def failingStamp : List (Input ⊕ Tick) :=
  goesOn 5 ++ answers "" ++ goesOn 3 ++ answers "" ++ goesOn 1 ++ storesIt ++ goesOn 2 ++
    goesOn 3 ++ answers "" ++ goesOn 3 ++ answers jobCompletedRow ++ goesOn 2 ++
    storeFails "disk full" ++ goesOn 1

set_option maxRecDepth 10000 in
/-- The stamp cannot be saved, so it is not published either. -/
theorem store_in_step_stamp : ∃ rs w r w',
    (machine Key).serve 0 (Request.program runCommand) stampSteps
      (World.start (.countFrom 0) 0 1 (fun _ => .submitted 1 8 none) [.submitted 1 8 none]) =
        some (rs, w) ∧
    (machine Key).call 0 (refreshWithSacct runCommand 0) failingStamp w = some (r, w') ∧
    r = .error "disk full" ∧ w'.store.load 1 = some (w'.watch 0) ∧
    LeftBy none (.refreshWithSacct 0) failingStamp w w' := by
  have hrun : ∃ rs w, (machine Key).serve 0 (Request.program runCommand) stampSteps
      (World.start (.countFrom 0) 0 1 (fun _ => .submitted 1 8 none) [.submitted 1 8 none]) =
        some (rs, w) ∧
        ((machine Key).call 0 (refreshWithSacct runCommand 0) failingStamp w).any
          (fun r => decide (r.1 = .error "disk full")) = true :=
    (machine Key).exists_serve (by decide +kernel)
  obtain ⟨rs, w, hs, hw⟩ := hrun
  obtain ⟨r, w', hcall, rfl⟩ :=
    (machine Key).exists_call (q := fun r _ => r = Except.error ("disk full" : Str)) hw
  have hbefore : (machine Key).serve 0 (Request.program (dispatcherOf none)) stampSteps
      (World.start (.countFrom 0) 0 1 (fun _ => .submitted 1 8 none) [.submitted 1 8 none]) =
        some (rs, w) := hs
  have hfinal : (machine Key).call 0 ((Request.refreshWithSacct 0).program (dispatcherOf none))
      failingStamp w = some (.error "disk full", w') := hcall
  obtain ⟨-, hin, -, hleft⟩ := store_in_step (by decide) (by decide) hbefore rfl hfinal
  exact ⟨rs, w, _, w', hs, hcall, rfl, hin, hleft _ rfl⟩

end Sbatch

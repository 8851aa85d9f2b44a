/-
# One cache, any number of concurrent calls

The guarantees of a `QueryCachingDispatcher` over a bare dispatcher, for any shape: what a call
returns, that one live query runs at a time, that a dropped call stores nothing, and that a command
line of another form passes through.
-/
import SlurmRunner.Sbatch.CacheSpec

namespace Sbatch

open Text Slurm Interact

variable {κ : Type} [LinearOrder κ]

/-- The one cache. -/
abbrev One (κ : Type) : Unit → Type := fun _ => κ

/-- What a call of `capture` has returned, and when it began and returned. -/
structure TimedAnswer where
  since : Nat
  result : Answer
  returnedAt : Nat

/-- One call of `capture`; it is made when the scheduler of tasks first lets it run.  Its caller
looks at the clock before and after it. -/
def captureCall (shape : QueryShape κ) (ttl : Nat) (argv : Argv) :
    Prog (sig (One κ)) TimedAnswer := do
  perform (.wake 0 : Op (One κ))
  let since ← now
  let result ← cachingCapture () shape ttl runCommand argv
  let returnedAt ← now
  return ⟨since, result, returnedAt⟩

/-- Each task is one call of `capture`, task `t` with the command line `argvs t`. -/
def Captures (shape : QueryShape κ) (ttl : Nat) (argvs : Nat → Argv)
    (tasks : Nat → Option (Prog (sig (One κ)) TimedAnswer)) : Prop :=
  ∀ t p, tasks t = some p → p = captureCall shape ttl (argvs t)

/-! ## 1. What a call guarantees -/

/-- The tasks store at most once, at their end, and those whose command line has the shape hold the
slot while their command runs. -/
def captureAudit (shape : QueryShape κ) (argvs : Nat → Argv) : Audit (One κ) where
  shape _ := shape
  quiet _ := True
  holds t := if (shape.parse (argvs t)).isSome then some () else none
  timely := False
  first _ _ := True
  read _ _ := True
  write _ _ _ _ := True
  read_mono _ h := h
  write_mono _ _ h := h

/-- What a call returns, by the form of its command line: the answer of its own query, or the one of
an earlier query of another call, which is younger than `ttl` when it is returned. -/
def Captured (shape : QueryShape κ) (ttl : Nat) (argv : Argv) (t : Nat) (out : TimedAnswer)
    (calls : List Call) : Prop :=
  match shape.parse argv with
  | some requested =>
    Answered shape ttl t requested out.since out.returnedAt out.result (·.tid ≠ t) calls
  | none => ∃ c ∈ calls, c.tid = t ∧ c.argv = argv ∧ out.since ≤ c.startedAt ∧
      c.doneAt = out.returnedAt ∧ c.result = out.result

omit [LinearOrder κ] in
theorem Captured.mono {shape : QueryShape κ} {ttl : Nat} {argv : Argv} {t : Nat}
    {out : TimedAnswer} {calls calls' : List Call} (h : Captured shape ttl argv t out calls)
    (hs : calls <:+ calls') : Captured shape ttl argv t out calls' := by
  unfold Captured at *
  split at h
  · exact h.mono (fun _ => id) hs
  · obtain ⟨c, hc, h⟩ := h
    exact ⟨c, hs.subset hc, h⟩

theorem wp_captureCall {shape : QueryShape κ} {ttl : Nat} {argvs : Nat → Argv} {t : Nat}
    {w : World (One κ)} (hidle : Idle t w) (hnew : NoFill t w) (hcalls : w.callsOf t = []) :
    (audit (captureAudit shape argvs)).wp t (captureCall shape ttl (argvs t))
      (fun out w' => Captured shape ttl (argvs t) t out w'.calls) w := by
  unfold captureCall
  refine Context.wp_bind (wp_perform_await audit_under (fun w₁ hr _ _ => ?_)
    fun w₁ _ _ w' hr _ he _ => ?_)
  · exact Others.noFill hr hnew
  · have hid : Idle t w₁ := Others.idle hr hidle
    have hno : NoFill t w₁ := Others.noFill hr hnew
    have hcalls₁ : w₁.callsOf t = [] := hr.callsOf.trans hcalls
    simp only [exec] at he
    split at he
    · cases he
      refine Context.wp_bind (wp_now audit_under fun _ => ?_)
      cases hparse : shape.parse (argvs t) with
      | some requested =>
        refine Context.wp_seq (wp_cachingCapture audit_under rfl (fun _ => rfl) hparse hid
          (fun _ => hno) fun _ _ => rfl) ?_
        rintro r w₂ ⟨-, hans⟩
        refine Context.wp_bind (wp_now audit_under fun _ => ?_)
        change Captured shape ttl (argvs t) t ⟨w₁.instant, r, w₂.instant⟩ w₂.calls
        unfold Captured
        rw [hparse]
        -- a call of the task itself would have been made before it began
        refine hans.mono (fun c hc htid => ?_) List.suffix_rfl
        have hown : c ∈ w₁.callsOf t := List.mem_filter.mpr ⟨hc.2 htid, by simpa using htid⟩
        rw [hcalls₁] at hown
        cases hown
      | none =>
        rw [cachingCapture_of_none hparse]
        refine Context.wp_seq (wp_runCommand audit_under _ (fun _ => hno) fun i hi => ?_) ?_
        · simp [captureAudit, hparse] at hi
        · rintro r w₂ ⟨⟨c, -, hc, htid, hargv, hres, hstart, hdone⟩, -⟩
          refine Context.wp_bind (wp_now audit_under fun _ => ?_)
          change Captured shape ttl (argvs t) t ⟨w₁.instant, r, w₂.instant⟩ w₂.calls
          unfold Captured
          rw [hparse]
          exact ⟨c, hc, htid, hargv, hstart, hdone, hres⟩
    · cases he

/-! ## 2. Every run -/

/-- What holds of the cache, whatever its calls have done so far. -/
structure CacheGuarantee (shape : QueryShape κ) (ttl : Nat) (argvs : Nat → Argv)
    (c : Config (machine (One κ)) TimedAnswer) : Prop where
  /-- A call returns the answer of its own query or a replay that is still good. -/
  answered : ∀ t out, c.tasks t = some (.ret out) →
    Captured shape ttl (argvs t) t out c.world.calls
  /-- At most one query of the shape is running. -/
  single : ∀ t u, (shape.parse (argvs t)).isSome → (shape.parse (argvs u)).isSome →
    c.world.inflight t ≠ none → c.world.inflight u ≠ none → t = u
  /-- The stored entry is the last one that some call stored. -/
  entry : (c.world.slots ()).entry = (c.world.fills ()).head?.map Prod.snd
  /-- A dropped call has stored nothing. -/
  dropped : ∀ t, c.tasks t = none → NoFill t c.world
  /-- Dropping a call leaves the slot as it is. -/
  drop : ∀ t c', c.next (.drop t) = some c' → c'.world.slots = c.world.slots
  /-- A command line of another form goes to the inner dispatcher as it is. -/
  forwarded : ∀ t, shape.parse (argvs t) = none → ∀ inner : Dispatcher (One κ),
    cachingCapture () shape ttl inner (argvs t) = inner (argvs t)
  /-- It does not touch the slot. -/
  untouched : ∀ t, shape.parse (argvs t) = none → ∀ i c', c.next (.pass t i) = some c' →
    c'.world.slots = c.world.slots

/-- The operations of a call: those of a command line of another form are not on the slot. -/
theorem captureCall_uses (shape : QueryShape κ) (ttl : Nat) (argv : Argv) :
    (captureCall shape ttl argv).Uses fun o : Op (One κ) =>
      shape.parse argv = none → o.onSlots = false := by
  unfold captureCall
  refine Prog.uses_bind (Prog.uses_op fun _ => rfl) fun _ => ?_
  refine Prog.uses_bind (Prog.uses_op fun _ => rfl) fun _ => ?_
  refine Prog.uses_bind ?_ fun _ => Prog.uses_bind (Prog.uses_op fun _ => rfl) fun _ => trivial
  cases hparse : shape.parse argv with
  | some requested =>
    exact (dispatchesOnly_cachingCapture dispatchesOnly_runCommand argv).mono
      fun _ _ h => absurd h (by simp)
  | none =>
    rw [cachingCapture_of_none hparse]
    exact Prog.uses_bind (Prog.uses_op fun _ => rfl) fun _ => Prog.uses_op fun _ => rfl

/-- **The contract of the cache.**  In every run of any number of concurrent calls, with any
answers, any interleaving and any dropped calls. -/
theorem cache_contract {shape : QueryShape κ} {uuids : Supply Nat} {ttl utc n : Nat}
    {snaps : Nat → SbatchJobSnapshot}
    {store : Store} {argvs : Nat → Argv} {tasks : Nat → Option (Prog (sig (One κ)) TimedAnswer)}
    {ms : List (Move (machine (One κ)))} {c : Config (machine (One κ)) TimedAnswer}
    (htasks : Captures shape ttl argvs tasks)
    (hrun : Config.run ms ⟨World.start uuids utc n snaps store, tasks⟩ = some c) :
    CacheGuarantee shape ttl argvs c := by
  have hidle := fun t => idle_start (K := One κ) t uuids utc n snaps store
  have hnew : ∀ t, NoFill t (World.start uuids utc n snaps store : World (One κ)) :=
    fun t i f hf => absurd hf List.not_mem_nil
  have hsafe : Config.Safe (audit (captureAudit shape argvs))
      (fun t out w => Captured shape ttl (argvs t) t out w.calls)
      (⟨World.start uuids utc n snaps store, tasks⟩ : Config (machine (One κ)) TimedAnswer) := by
    refine ⟨inv_start False.elim fun _ => trivial, fun t p ht => ?_, fun t p ht => ?_⟩
    · rw [htasks t p ht]
      rfl
    · rw [htasks t p ht]
      exact wp_captureCall (hidle t) (hnew t) rfl
  have hstable : ∀ t out (w w' : World (One κ)),
      Captured shape ttl (argvs t) t out w.calls → Others t w w' →
      Captured shape ttl (argvs t) t out w'.calls := fun t out w w' h ho =>
    h.mono ho.dispatched.calls
  have hsafe' := Config.run_sound hstable hsafe hrun
  have hi : Inv (captureAudit shape argvs) c.world := hsafe'.inv
  have huses := Config.run_uses
    (S := fun t (o : Op (One κ)) => shape.parse (argvs t) = none → o.onSlots = false)
    (fun t p ht => htasks t p ht ▸ captureCall_uses shape ttl (argvs t)) hrun
  refine ⟨fun t r ht => ?_, fun t u ht hu hft hfu => ?_, hi.fills (), ?_, fun t c' hm => ?_,
    fun t ht inner => cachingCapture_of_none ht, fun t ht i c' hm => ?_⟩
  · exact hsafe'.proved t _ ht
  · obtain ⟨x, hx⟩ := Option.ne_none_iff_exists'.mp hft
    obtain ⟨y, hy⟩ := Option.ne_none_iff_exists'.mp hfu
    have hown := (hi.flights t x hx).2 () (if_pos ht)
    rw [(hi.flights u y hy).2 () (if_pos hu)] at hown
    exact (Option.some.inj hown).symm
  · refine Config.run_dropped (G := fun t (w : World (One κ)) => NoFill t w) hstable
      (fun t w w' hno ho => Others.noFill ho hno) (fun t o w _ hawait hpre => ?_) hsafe
      (fun t _ => hnew t) hrun
    cases o with
    | wake _ | lockSlot _ _ | recv | lockRefresh _ | save _ | store => exact hpre trivial
    | _ => cases hawait
  · rcases Config.next_cases hm with ⟨u, i, o, k, a, w, p, hmove, -⟩ | ⟨e, hmove, -⟩ |
      ⟨u, o, k, -, -, hw, -⟩
    · cases hmove
    · cases hmove
    · rw [hw]
      rfl
  · exact Config.pass_frame (S := fun o : Op (One κ) => o.onSlots = false)
      (F := fun w w' : World (One κ) => w'.slots = w.slots) (fun _ => rfl)
      (fun h h' => h'.trans h) (fun ho he => (exec_slots_eq he ho).2.1)
      (fun p hp => (huses t p hp).mono fun _ h => h ht) hm

/-- Two queries of the same job, and a command of another form. -/
def threeArgvs : Nat → Argv
  | 0 | 1 => squeueArgv "7"
  | _ => ["sinfo"]

def threeCalls : Config (machine (One JobKey)) TimedAnswer :=
  ⟨World.start (.countFrom 0) 0 0 (fun _ => .submitted 0 0 none) [], fun t =>
    if t < 3 then some (captureCall squeueSummaryShape 60 (threeArgvs t)) else none⟩

/-- The first query is dropped while its command runs; the second one then runs its own. -/
def firstDropped : List (Move (machine (One JobKey))) :=
  [passes 0, passes 1, passes 2, passes 0, .drop 0, passes 1, prints 2 "idle", waits 1 1,
   prints 1 "7 RUNNING None"]

set_option maxRecDepth 10000 in
theorem cache_contract_dropped : ∃ c, threeCalls.run firstDropped = some c ∧
    (((c.tasks 0).isNone = true ∧ c.world.calls.length = 2 ∧ (c.world.fills ()).length = 1) ∧
      CacheGuarantee squeueSummaryShape 60 threeArgvs c) := by
  obtain ⟨c, hrun, hfacts⟩ : ∃ c, threeCalls.run firstDropped = some c ∧
      ((c.tasks 0).isNone = true ∧ c.world.calls.length = 2 ∧ (c.world.fills ()).length = 1) :=
    Config.exists_run (by decide +kernel)
  refine ⟨c, hrun, hfacts, cache_contract ?_ hrun⟩
  intro t p ht
  simp only [Option.ite_none_right_eq_some, Option.some.injEq] at ht
  exact ht.2.symm

end Sbatch

/-
# Watch values are written once

The tee tasks set a job id and a node only where there is none, and the wait task sets the exit
once.  A `refresh` replaces the whole watch value by what the store had, so a value that is set
stays set as long as no `refresh` publishes a snapshot in which it is missing.
-/
import SlurmRunner.Tssrun.Handle

namespace Tssrun

open Text Interact

/-! ## 1. What is set

A snapshot keeps another one if it has whatever is set there. -/

/-- Everything that is set in `s` is set in `s'`, to the same value. -/
structure TssrunJobSnapshot.Keeps (s s' : TssrunJobSnapshot) : Prop where
  jobid : ∀ v, s.jobid = some v → s'.jobid = some v
  node : ∀ v, s.node = some v → s'.node = some v
  finished : ∀ v, s.finished = some v → s'.finished = some v

namespace TssrunJobSnapshot.Keeps

variable {s s' s'' : TssrunJobSnapshot}

theorem refl (s : TssrunJobSnapshot) : s.Keeps s := ⟨fun _ h => h, fun _ h => h, fun _ h => h⟩

theorem trans (h : s.Keeps s') (h' : s'.Keeps s'') : s.Keeps s'' where
  jobid v hv := h'.jobid v (h.jobid v hv)
  node v hv := h'.node v (h.node v hv)
  finished v hv := h'.finished v (h.finished v hv)

/-- A job id may be set where there is none. -/
theorem setJobid (hs : s.jobid = none) (jid : UInt64) : s.Keeps { s with jobid := some jid } where
  jobid v hv := by rw [hs] at hv; cases hv
  node _ hv := hv
  finished _ hv := hv

/-- And so a node. -/
theorem setNode (hs : s.node = none) (node : Str) : s.Keeps { s with node := some node } where
  jobid _ hv := hv
  node v hv := by rw [hs] at hv; cases hv
  finished _ hv := hv

/-- And so an exit. -/
theorem setFinished (hs : s.finished = none) (info : FinishedInfo) :
    s.Keeps { s with finished := some info } where
  jobid _ hv := hv
  node _ hv := hv
  finished v hv := by rw [hs] at hv; cases hv

/-- Nothing is set in the older snapshot that is not set in the newer one. -/
theorem finished_eq_none (h : s.Keeps s') (hs' : s'.finished = none) : s.finished = none := by
  cases hs : s.finished with
  | none => rfl
  | some v => exact absurd (h.finished v hs) (by simp [hs'])

end TssrunJobSnapshot.Keeps

/-- The published snapshot lacks nothing that was set in the watch value. -/
structure Replacement.UpToDate (p : Replacement) : Prop where
  jobid : p.watch.jobid.isSome = true → p.loaded.jobid.isSome = true
  node : p.watch.node.isSome = true → p.loaded.node.isSome = true
  finished : p.watch.finished.isSome = true → p.loaded.finished.isSome = true

instance (p : Replacement) : Decidable p.UpToDate :=
  decidable_of_iff ((p.watch.jobid.isSome = true → p.loaded.jobid.isSome = true) ∧
    (p.watch.node.isSome = true → p.loaded.node.isSome = true) ∧
    (p.watch.finished.isSome = true → p.loaded.finished.isSome = true))
    ⟨fun h => ⟨h.1, h.2.1, h.2.2⟩, fun h => ⟨h.jobid, h.node, h.finished⟩⟩

/-- A value that both have, and that came from the watch value, is the same. -/
theorem eq_of_kept {α : Type} {loaded watch : Option α} (hset : watch.isSome = true →
    loaded.isSome = true) (hkept : ∀ v, loaded = some v → watch = some v) (v : α)
    (hv : watch = some v) : loaded = some v := by
  obtain ⟨u, hu⟩ := Option.isSome_iff_exists.mp (hset (by rw [hv]; rfl))
  rw [hu, ← hkept u hu, hv]

/-- A snapshot of an older watch value that lacks nothing is as good as the watch value. -/
theorem Replacement.UpToDate.keeps {p : Replacement} (h : p.UpToDate)
    (hold : p.loaded.Keeps p.watch) : p.watch.Keeps p.loaded where
  jobid := eq_of_kept h.jobid hold.jobid
  node := eq_of_kept h.node hold.node
  finished := eq_of_kept h.finished hold.finished

/-! ## 2. What a step does

What is published keeps what was published before, as long as no `refresh` has published a snapshot
that lacks something. -/

/-- No `refresh` so far has published a snapshot that lacked something. -/
def World.Fresh (w : World) : Prop := ∀ p ∈ w.replacements, p.UpToDate

/-- What the store has was in the watch value. -/
def Backed (w : World) : Prop := w.Fresh → ∀ s, w.stored = some s → s.Keeps w.watch

/-- The watch value only gains; the exit is set by task 2 alone. -/
def Gains (t : Nat) (w w' : World) : Prop :=
  w'.Fresh → w.Fresh ∧ w.watch.Keeps w'.watch ∧
    (t = 2 → w.watch.finished = none → w'.watch.finished = none)

theorem Gains.refl (t : Nat) (w : World) : Gains t w w :=
  fun h => ⟨h, .refl w.watch, fun _ hf => hf⟩

theorem Gains.trans {t : Nat} {w w' w'' : World} (h : Gains t w w') (h' : Gains t w' w'') :
    Gains t w w'' := by
  intro hfresh
  obtain ⟨hfresh', hkeeps', hfin'⟩ := h' hfresh
  obtain ⟨hfresh₀, hkeeps, hfin⟩ := h hfresh'
  exact ⟨hfresh₀, hkeeps.trans hkeeps', fun ht hf => hfin' ht (hfin ht hf)⟩

/-- What a task must know: what it saves or publishes was in the watch value; the exit has not been
set. -/
def Permit (t : Nat) : Op → World → Prop
  | .save snap, w | .sendReplace snap, w => w.Fresh → snap.Keeps w.watch
  | .setFinished _, w => t = 2 ∧ (w.Fresh → w.watch.finished = none)
  | _, _ => True

/-- **A permitted step keeps what the store has in the watch value, and the watch value gains.** -/
theorem exec_gains {t u : Nat} {o : Op} {i : Input} {w w' : World} {a : o.Ans} (hi : Backed w)
    (hp : Permit t o w) (he : exec t o i w = some (a, w')) :
    Backed w' ∧ (u ≠ t → Gains u w w') := by
  cases o with
  | nextLine | borrow | sleep =>
    cases he
    exact ⟨hi, fun _ => Gains.refl u w⟩
  | append _ _ | childWait | nowUnix | flush | load =>
    cases i <;> cases he
    exact ⟨hi, fun _ => Gains.refl u w⟩
  | setJobid jid =>
    simp only [exec] at he
    split at he
    · rename_i hnone
      cases he
      have hkeeps := TssrunJobSnapshot.Keeps.setJobid (Option.isNone_iff_eq_none.mp hnone) jid
      exact ⟨fun hf s hs => (hi hf s hs).trans hkeeps, fun _ hf => ⟨hf, hkeeps, fun _ h => h⟩⟩
    · cases he
      exact ⟨hi, fun _ => Gains.refl u w⟩
  | setNode node =>
    simp only [exec] at he
    split at he
    · rename_i hnone
      cases he
      have hkeeps := TssrunJobSnapshot.Keeps.setNode (Option.isNone_iff_eq_none.mp hnone) node
      exact ⟨fun hf s hs => (hi hf s hs).trans hkeeps, fun _ hf => ⟨hf, hkeeps, fun _ h => h⟩⟩
    · cases he
      exact ⟨hi, fun _ => Gains.refl u w⟩
  | setFinished info =>
    cases he
    obtain ⟨rfl, hnone⟩ := hp
    refine ⟨fun hf s hs => (hi hf s hs).trans (.setFinished (hnone hf) info), fun hu hf => ?_⟩
    exact ⟨hf, .setFinished (hnone hf) info, fun hu2 => absurd hu2 hu⟩
  | save snap =>
    cases i <;> cases he
    refine ⟨fun hf s hs => ?_, fun _ hf => ⟨hf, .refl _, fun _ h => h⟩⟩
    simp only [World.landed] at hs
    split at hs
    · exact Option.some.inj hs ▸ hp hf
    · exact hi hf s hs
  | sendReplace snap =>
    cases he
    -- the older worlds were fresh, so the snapshot had been in the watch value
    have hstep : (w.replaced snap).Fresh → w.Fresh ∧ w.watch.Keeps snap := by
      intro hf
      have hfresh : w.Fresh := fun p hmem => hf p (List.mem_cons_of_mem _ hmem)
      exact ⟨hfresh, (hf _ List.mem_cons_self).keeps (hp hfresh)⟩
    refine ⟨fun hf s hs => ?_, fun _ hf => ?_⟩
    · exact (hi (hstep hf).1 s hs).trans (hstep hf).2
    · exact ⟨(hstep hf).1, (hstep hf).2, fun _ hnone => (hp (hstep hf).1).finished_eq_none hnone⟩

/-- The logic of the handle's tasks and its callers. -/
def writeOnce : Logic machine where
  inv := Backed
  pre := Permit
  rely := Gains
  rely_refl := Gains.refl
  rely_trans := Gains.trans
  inv_exec {t _ _ _ _ _} hi hp he := (exec_gains (u := t) hi hp he).1
  inv_tick hi h := by
    cases h
    exact hi
  rely_tick {t _ w _} _ h := by
    cases h
    exact Gains.refl t w
  rely_exec hi hp he hu := (exec_gains hi hp he).2 hu
  inv_drop hi := hi
  rely_drop {_ u w} _ _ := Gains.refl u w

/-! ## 3. The tasks

The tee tasks and the wait task set fields that are not set; a `refresh` publishes what it has
loaded. -/

section Tasks

variable {t : Nat} {w : World}

/-- The snapshot was in the watch value. -/
def WasPublished (snap : TssrunJobSnapshot) (w : World) : Prop := w.Fresh → snap.Keeps w.watch

/-- What was published stays so. -/
theorem WasPublished.gains {snap : TssrunJobSnapshot} {w' : World} (h : WasPublished snap w)
    (hg : Gains t w w') : WasPublished snap w' := by
  intro hf
  obtain ⟨hfresh, hkeeps, -⟩ := hg hf
  exact (h hfresh).trans hkeeps

/-- The rule of an operation that needs no permission, where nothing is to be known after it. -/
theorem wp_free {o : Op} (hpre : ∀ w, Permit t o w) :
    writeOnce.wp t (perform o) (fun _ _ => True) w :=
  Context.wp_await (fun w₁ _ _ => hpre w₁) fun _ _ _ _ _ _ _ _ => trivial

theorem wp_borrow_published :
    writeOnce.wp t borrow (fun snap w' => WasPublished snap w') w := by
  refine Context.wp_await (fun _ _ _ => trivial) fun w₁ i a w' _ _ he _ => ?_
  cases he
  exact fun _ => .refl _

/-- A save of what was just read from the watch value. -/
theorem published_save (w : World) :
    writeOnce.wp t (do let snap ← borrow; persistWarn snap) (fun _ _ => True) w := by
  refine Context.wp_seq wp_borrow_published fun snap w₁ h => ?_
  refine Context.wp_seq (M := machine) (P := fun _ _ => True) ?_ fun _ _ h => h
  exact Context.wp_await (fun _ hr _ => h.gains hr) fun _ _ _ _ _ _ _ _ => trivial

/-- **A tee task publishes nothing of its own**: it sets what is not set, and saves the watch
value. -/
theorem published_teeLines (kind : LogStream) (stream : List Str) :
    writeOnce.wp t (teeLines kind stream) (fun _ _ => True) w := by
  refine (TaskLogic.ofContext writeOnce.toContext t).teeLines (R := fun _ => True) ?_ ?_ trivial
  · exact fun w _ => wp_free fun _ => trivial
  · intro line _ w _
    refine (TaskLogic.ofContext writeOnce.toContext t).teeLine (R := fun _ _ => True)
      ?_ ?_ ?_ ?_ trivial
    · exact fun w _ => wp_free fun _ => trivial
    · exact fun jid _ w _ => wp_free fun _ => trivial
    · exact fun node _ b w _ => wp_free fun _ => trivial
    · exact fun w _ => published_save w

/-- Nobody has set the exit. -/
def Running (w : World) : Prop := w.Fresh → w.watch.finished = none

/-- Nobody but the wait task sets the exit. -/
theorem Running.gains {w' : World} (h : Running w) (hg : Gains 2 w w') : Running w' := by
  intro hf
  obtain ⟨hfresh, -, hnone⟩ := hg hf
  exact hnone rfl (h hfresh)

/-- **The wait task** is the one that sets the exit, so it knows that there was none. -/
theorem published_waitTask (h : Running w) :
    writeOnce.wp 2 waitTask (fun _ _ => True) w := by
  have hkeeps : ∀ {o : Op} {w : World}, (∀ w, Permit 2 o w) →
      (∀ i a w w', exec 2 o i w = some (a, w') → w' = w) → Running w →
      writeOnce.wp 2 (perform o) (fun _ w' => Running w') w := by
    intro o w hpre hsame h
    exact Context.wp_await (fun w₁ _ _ => hpre w₁) fun w₁ i a w' hr _ he _ =>
      hsame i a w₁ w' he ▸ h.gains hr
  refine (TaskLogic.ofContext writeOnce.toContext 2).waitTask (R := Running)
    (X := fun _ => Running) (Y := fun _ _ => True) (Z := fun _ _ => True)
    ?_ (fun _ _ _ => trivial) ?_ ?_ ?_ ?_ h
  · exact fun w h => hkeeps (fun _ => trivial) (fun i a w w' he => by cases i <;> cases he; rfl) h
  · exact fun _ w h => hkeeps (fun _ => trivial) (fun i a w w' he => by cases i <;> cases he; rfl) h
  · exact fun _ _ w h =>
      Context.wp_await (fun _ hr _ => ⟨rfl, h.gains hr⟩) fun _ _ _ _ _ _ _ _ => trivial
  · exact fun _ w _ => published_save w
  · exact fun _ w _ => wp_free fun _ => trivial

/-- **A `refresh` publishes what was in the watch value before.** -/
theorem published_refresh : writeOnce.wp t refresh (fun _ _ => True) w := by
  unfold refresh
  refine Context.wp_seq wp_borrow_published fun current w₁ _ => ?_
  refine Context.wp_seq (M := machine)
    (P := fun r w' => ∀ snap, r = .ok (some snap) → WasPublished snap w') ?_ fun r w₂ h₂ => ?_
  · refine Context.wp_await (fun _ _ _ => trivial) fun w₂ i a w' _ hi he _ => ?_
    cases i with
    | go | exited _ | clock _ => cases he
    | done r =>
      cases he
      intro snap hsnap hf
      cases r with
      | error e => cases hsnap
      | ok _ => exact hi hf snap (Except.ok.inj hsnap)
  match r, h₂ with
  | .error e, _ => trivial
  | .ok none, _ => trivial
  | .ok (some snap), h₂ =>
    refine Context.wp_seq (M := machine) (P := fun _ _ => True) ?_ fun _ _ h => h
    exact Context.wp_await (fun _ hr _ => (h₂ snap rfl).gains hr) fun _ _ _ _ _ _ _ _ => trivial

/-- `wait_terminal`, by induction on its rounds. -/
theorem published_waitTerminal (rounds : Nat) :
    writeOnce.wp t (waitTerminal rounds) (fun _ _ => True) w := by
  induction rounds generalizing w with
  | zero => trivial
  | succ rounds ih =>
    refine Context.wp_seq published_refresh fun r w₁ _ => ?_
    cases r with
    | error e => trivial
    | ok snap =>
      dsimp only
      split
      · trivial
      · exact Context.wp_seq (M := machine) (P := fun _ _ => True) (wp_free fun _ => trivial)
          fun _ w₂ _ => ih

/-- A caller may do what it does at any time. -/
theorem Caller.wp_program (caller : Caller) :
    writeOnce.wp t caller.program (fun _ _ => True) w := by
  cases caller with
  | refresh => exact Context.wp_seq published_refresh fun _ _ h => h
  | waitTerminal rounds => exact Context.wp_seq (published_waitTerminal rounds) fun _ _ h => h

end Tasks

/-! ## 4. Every run

The condition is on what the calls of `refresh` load, at the moment at which they publish it. -/

variable {init : TssrunJobSnapshot} {first : Except Str Unit} {stdout stderr : List Str}
  {callers : Nat → Option Caller}

theorem safe_owned (hinit : init.finished = none) :
    Config.Safe writeOnce (fun _ _ _ => True) (owned init first stdout stderr callers) := by
  refine ⟨fun _ s hs => ?_, fun t p _ => ?_, fun t p ht => ?_⟩
  · change (World.started init first).stored = some s at hs
    unfold World.started at hs
    split at hs
    · exact Option.some.inj hs ▸ .refl init
    · cases hs
  · cases p <;> trivial
  · match t, ht with
    | 0, ht => exact Option.some.inj ht ▸ published_teeLines .stdout stdout
    | 1, ht => exact Option.some.inj ht ▸ published_teeLines .stderr stderr
    | 2, ht =>
      exact Option.some.inj ht ▸ Context.wp_seq (published_waitTask fun _ => hinit) fun _ _ h => h
    | t + 3, ht =>
      obtain ⟨caller, -, rfl⟩ := Option.map_eq_some_iff.mp ht
      exact caller.wp_program

/-- **Watch values are written once, if no `refresh` publishes a snapshot that lacks one.**  For any
streams, any callers, any interleaving, any dropped calls and any outcome of the saves, the first
one included: what is set in the watch value stays as it is. -/
theorem watch_write_once (hinit : init.finished = none) {ms ms' : List (Move machine)}
    {c c' : Config machine Unit} (hrun : (owned init first stdout stderr callers).run ms = some c)
    (hlater : c.run ms' = some c') (hloads : ∀ p ∈ c'.world.replacements, p.UpToDate) :
    c.world.watch.Keeps c'.world.watch := by
  have hsafe := Config.run_sound (fun _ _ _ _ _ _ => trivial) (safe_owned hinit) hrun
  refine (Config.run_induct (P := fun d => Config.Safe writeOnce (fun _ _ _ => True) d ∧
    Gains 0 c.world d.world) (fun d m d' hd hm => ?_) ms' c c' ⟨hsafe, Gains.refl 0 c.world⟩
    hlater).2 hloads |>.2.1
  refine ⟨hd.1.next (fun _ _ _ _ _ _ => trivial) hm, ?_⟩
  -- the watch value gains in the eyes of any task but the one that moves
  obtain ⟨u, hmove⟩ : ∃ u, m.task ≠ some u := by
    cases m.task with
    | none => exact ⟨0, by simp⟩
    | some t => exact ⟨t + 1, by simp⟩
  have hstep : Gains u d.world d'.world :=
    hd.1.rely hm (fun i hi => hmove (by rw [hi]; rfl)) (fun hdrop => hmove (by rw [hdrop]; rfl))
  refine hd.2.trans fun hf => ?_
  obtain ⟨hfresh, hkeeps, -⟩ := hstep hf
  exact ⟨hfresh, hkeeps, fun h0 => by cases h0⟩

/-! ### A job that gets its allocation while the owner polls -/

def polled : Config machine Unit :=
  owned ⟨1, 100, [], [], none, 0, .none, none, none, none⟩ (.ok ())
    ["salloc: Granted job allocation 42"] [] fun n => if n = 0 then some .refresh else none

/-- The tee task has set the job id and is about to save it. -/
def jobidSet : List (Move machine) := [.pass 0 .go, .pass 0 (.done (.ok ())), .pass 0 .go]

/-- The save works, then the owner calls `refresh`. -/
def savedThenPolled : List (Move machine) :=
  [.pass 0 .go, .pass 0 (.done (.ok ())), .pass 3 .go, .pass 3 (.done (.ok ())), .pass 3 .go]

/-- The same, but the save fails. -/
def failedThenPolled : List (Move machine) :=
  [.pass 0 .go, .pass 0 (.done (.error "disk full")), .pass 3 .go, .pass 3 (.done (.ok ())),
   .pass 3 .go]

theorem watch_write_once_saved : ∃ c c', polled.run jobidSet = some c ∧
    c.run savedThenPolled = some c' ∧ c'.world.replacements ≠ [] ∧ c.world.watch.jobid = some 42 ∧
    c.world.watch.Keeps c'.world.watch := by
  have hrun : ∃ c, polled.run jobidSet = some c ∧ (c.world.watch.jobid = some 42 ∧
      ((c.run savedThenPolled).any fun c' => decide (c'.world.replacements ≠ [] ∧
        ∀ p ∈ c'.world.replacements, p.UpToDate)) = true) :=
    Config.exists_run (by decide +kernel)
  obtain ⟨c, hrun, hjob, hany⟩ := hrun
  obtain ⟨c', hlater, hne, hloads⟩ := Config.exists_run (p := fun c' : Config machine Unit =>
    c'.world.replacements ≠ [] ∧ ∀ p ∈ c'.world.replacements, p.UpToDate) hany
  exact ⟨c, c', hrun, hlater, hne, hjob, watch_write_once rfl hrun hlater hloads⟩

/-- **A failed save takes the job id back.**  The watch value has it, the store does not, and a
`refresh` publishes what the store has. -/
theorem jobid_unset : ∃ c c', polled.run jobidSet = some c ∧
    c.run failedThenPolled = some c' ∧ c.world.watch.jobid = some 42 ∧
    c'.world.watch.jobid = none := by
  have hrun : ∃ c, polled.run jobidSet = some c ∧ (c.world.watch.jobid = some 42 ∧
      ((c.run failedThenPolled).any fun c' => decide (c'.world.watch.jobid = none)) = true) :=
    Config.exists_run (by decide +kernel)
  obtain ⟨c, hrun, hjob, hany⟩ := hrun
  obtain ⟨c', hlater, hnone⟩ := Config.exists_run
    (p := fun c' : Config machine Unit => c'.world.watch.jobid = none) hany
  exact ⟨c, c', hrun, hlater, hjob, hnone⟩

end Tssrun

/-
# What is in the store when the tasks have ended

Every update of the watch value is saved by the task that made it, from a clone that it takes
afterwards.  Clone and save are separate steps, so a save may land after a newer one of another task
and put an older snapshot into the store.  If no other task has a save to come, it stays there.
-/
import SlurmRunner.Tssrun.Handle

namespace Tssrun

open Text Interact

/-- The save is not out of date, or it will be followed by another one. -/
def Landing.InOrder (l : Landing) : Prop := l.snap = l.watch ∨ l.others ≠ []

instance (l : Landing) : Decidable l.InOrder := inferInstanceAs (Decidable (_ ∨ _))

/-- While all saves work and land in order, the store has the watch value or a task will save it. -/
structure Inv (w : World) : Prop where
  tids : ∀ t ∈ w.pending, t < 3
  stored : (∀ l ∈ w.landings, l.result = .ok () ∧ l.InOrder) →
    w.stored = some w.watch ∨ w.pending ≠ []

/-- An update leaves a save to come. -/
theorem Inv.update {w : World} (hi : Inv w) {t : Nat} (ht : t < 3) (snap : TssrunJobSnapshot) :
    Inv (w.update t snap) where
  tids u hu := by
    rcases List.mem_cons.mp hu with rfl | hu
    · exact ht
    · exact hi.tids u hu
  stored _ := .inr (List.cons_ne_nil _ _)

/-- A save that works and is in order stores the watch value, or another save will follow. -/
theorem Inv.landed {w : World} (hi : Inv w) (t : Nat) (snap : TssrunJobSnapshot)
    (r : Except Str Unit) : Inv (w.landed t snap r) where
  tids u hu := hi.tids u (List.mem_filter.mp hu).1
  stored h := by
    obtain ⟨hok, horder⟩ := h _ List.mem_cons_self
    dsimp only at hok
    subst hok
    exact horder.imp_left (congrArg some)

/-- The operation publishes what the store had. -/
def Op.replaces : Op → Bool
  | .sendReplace _ => true
  | _ => false

/-- What a step of a background task can do: nothing to the world, an update, or a save that
lands. -/
theorem exec_cases {t : Nat} {o : Op} {i : Input} {w w' : World} {a : o.Ans}
    (ho : o.replaces = false) (he : exec t o i w = some (a, w')) :
    w' = w ∨ (∃ snap, w' = w.update t snap) ∨ ∃ snap r, w' = w.landed t snap r := by
  cases o with
  | nextLine | borrow | sleep =>
    cases he
    exact .inl rfl
  | append _ _ | childWait | nowUnix | flush | load =>
    cases i <;> cases he
    exact .inl rfl
  | sendReplace _ => cases ho
  | setJobid _ | setNode _ =>
    simp only [exec] at he
    split at he
    · cases he
      exact .inr (.inl ⟨_, rfl⟩)
    · cases he
      exact .inl rfl
  | setFinished _ =>
    cases he
    exact .inr (.inl ⟨_, rfl⟩)
  | save snap =>
    cases i <;> cases he
    exact .inr (.inr ⟨snap, _, rfl⟩)

/-- **The operations of the tasks keep the invariant**, if none of them replaces the snapshot. -/
theorem inv_exec {t : Nat} {o : Op} {i : Input} {w w' : World} {a : o.Ans} (hi : Inv w)
    (ht : t < 3) (ho : o.replaces = false) (he : exec t o i w = some (a, w')) : Inv w' := by
  obtain rfl | ⟨snap, rfl⟩ | ⟨snap, r, rfl⟩ := exec_cases ho he
  · exact hi
  · exact hi.update ht snap
  · exact hi.landed t snap r

/-- Only task `t` itself makes and saves its updates. -/
def Others (t : Nat) (w w' : World) : Prop := t ∈ w'.pending ↔ t ∈ w.pending

/-- An operation changes nothing of what other tasks owe. -/
theorem exec_others {t u : Nat} {o : Op} {i : Input} {w w' : World} {a : o.Ans}
    (ho : o.replaces = false) (he : exec t o i w = some (a, w')) (hu : u ≠ t) :
    Others u w w' := by
  obtain rfl | ⟨snap, rfl⟩ | ⟨snap, r, rfl⟩ := exec_cases ho he
  · exact Iff.rfl
  · simp [Others, World.update, hu]
  · simp [Others, World.landed, hu]

/-- The logic of the three tasks. -/
def logic : Logic machine where
  inv := Inv
  pre t o _ := t < 3 ∧ Op.replaces o = false
  rely := Others
  rely_refl _ _ := Iff.rfl
  rely_trans h h' := h'.trans h
  inv_exec hi hp he := inv_exec hi hp.1 hp.2 he
  inv_tick hi h := by
    cases h
    exact hi
  rely_tick _ h := by
    cases h
    exact Iff.rfl
  rely_exec _ hp he hu := exec_others hp.2 he hu
  inv_drop hi := hi
  rely_drop _ _ := Iff.rfl

/-! ## 1. A task saves what it updates

A task that has updated the watch value owes a save, and only its own save pays for it. -/

section Tasks

variable {t : Nat} {w : World}

/-- Task `t` has an update to save exactly if `b`. -/
def Owes (t : Nat) (b : Bool) (w : World) : Prop := b = true ↔ t ∈ w.pending

theorem Owes.others {b : Bool} {w' : World} (h : Owes t b w) (ho : Others t w w') : Owes t b w' :=
  Iff.trans h ho.symm

/-- The rule of an operation that neither updates nor saves. -/
theorem wp_quiet (ht : t < 3) {o : Op} {b : Bool} (ho : o.replaces = false)
    (hsame : ∀ i a w w', exec t o i w = some (a, w') → w' = w) (h : Owes t b w) :
    logic.wp t (perform o) (fun _ w' => Owes t b w') w :=
  Context.wp_await (fun _ _ _ => ⟨ht, ho⟩) fun w₁ i a w' hr _ he _ =>
    hsame i a w₁ w' he ▸ h.others hr

/-- The rule of an operation that may update, for a task that may have updated before. -/
theorem wp_modify (ht : t < 3) {b : Bool} (o : Op) (ho : o.replaces = false)
    (changed : o.Ans → Bool)
    (hstep : ∀ i a w w', exec t o i w = some (a, w') →
      (changed a = true ∧ ∃ snap, w' = w.update t snap) ∨ (changed a = false ∧ w' = w))
    (h : Owes t b w) :
    logic.wp t (perform o) (fun a w' => Owes t (b || changed a) w') w := by
  refine Context.wp_await (fun _ _ _ => ⟨ht, ho⟩) fun w₁ i a w' hr _ he _ => ?_
  rcases hstep i a w₁ w' he with ⟨hc, snap, rfl⟩ | ⟨hc, rfl⟩
  · exact ⟨fun _ => List.mem_cons_self, fun _ => by rw [hc, Bool.or_true]⟩
  · rw [hc, Bool.or_false]
    exact h.others hr

/-- A task that has set the job id owes a save. -/
theorem owes_setJobid (ht : t < 3) (jid : UInt64) (h : Owes t false w) :
    logic.wp t (setJobid jid) (fun a w' => Owes t a w') w := by
  refine Context.wp_mono (wp_modify ht (.setJobid jid) rfl id (fun i a w w' he => ?_) h)
    fun a _ h => (Bool.false_or a) ▸ h
  simp only [exec] at he
  split at he
  · cases he
    exact .inl ⟨rfl, _, rfl⟩
  · cases he
    exact .inr ⟨rfl, rfl⟩

/-- So does one that has set the node. -/
theorem owes_setNode (ht : t < 3) {b : Bool} (node : Str) (h : Owes t b w) :
    logic.wp t (setNode node) (fun a w' => Owes t (b || a) w') w := by
  refine wp_modify ht (.setNode node) rfl id (fun i a w w' he => ?_) h
  simp only [exec] at he
  split at he
  · cases he
    exact .inl ⟨rfl, _, rfl⟩
  · cases he
    exact .inr ⟨rfl, rfl⟩

/-- After a save nothing is owed, whatever was owed before. -/
theorem owes_save (ht : t < 3) (w : World) :
    logic.wp t (do let snap ← borrow; persistWarn snap) (fun _ w' => Owes t false w') w := by
  refine Context.wp_seq (M := machine) (P := fun _ _ => True) ?_ fun snap w₁ _ => ?_
  · exact Context.wp_await (fun _ _ _ => ⟨ht, rfl⟩) fun _ _ _ _ _ _ _ _ => trivial
  refine Context.wp_seq (M := machine) (P := fun _ (w' : World) => Owes t false w') ?_
    fun _ _ h => h
  refine Context.wp_await (fun _ _ _ => ⟨ht, rfl⟩) fun w₂ i r w' _ _ he _ => ?_
  cases i <;> cases he
  refine ⟨fun h => absurd h Bool.false_ne_true, fun h => ?_⟩
  exact absurd (List.mem_filter.mp h).2 (by simp)

/-- **A tee task saves every update it has made**: it owes one between `set_jobid` and the save of
the same line only. -/
theorem owes_teeLines (ht : t < 3) (kind : LogStream) (stream : List Str) (h : Owes t false w) :
    logic.wp t (teeLines kind stream) (fun _ w' => Owes t false w') w := by
  refine (TaskLogic.ofContext logic.toContext t).teeLines (R := Owes t false) ?_ ?_ h
  · exact fun w h => wp_quiet ht rfl (fun i a w w' he => by cases he; rfl) h
  · intro line _ w h
    refine (TaskLogic.ofContext logic.toContext t).teeLine (R := Owes t) ?_ ?_ ?_ ?_ h
    · exact fun w h => wp_quiet ht rfl (fun i a w w' he => by cases i <;> cases he; rfl) h
    · exact fun jid _ w h => owes_setJobid ht jid h
    · exact fun node _ b w h => owes_setNode ht node h
    · exact fun w _ => owes_save ht w

/-- **The wait task saves its update.** -/
theorem owes_waitTask (ht : t < 3) (h : Owes t false w) :
    logic.wp t waitTask (fun _ w' => Owes t false w') w := by
  refine (TaskLogic.ofContext logic.toContext t).waitTask (R := Owes t false)
    (X := fun _ => Owes t false) (Y := fun _ _ => True) (Z := fun _ => Owes t false)
    ?_ (fun _ _ h => h) ?_ ?_ ?_ ?_ h
  · exact fun w h => wp_quiet ht rfl (fun i a w w' he => by cases i <;> cases he; rfl) h
  · exact fun _ w h => wp_quiet ht rfl (fun i a w w' he => by cases i <;> cases he; rfl) h
  · exact fun _ _ w _ =>
      Context.wp_await (fun _ _ _ => ⟨ht, rfl⟩) fun _ _ _ _ _ _ _ _ => trivial
  · exact fun _ w _ => owes_save ht w
  · exact fun _ w h => wp_quiet ht rfl (fun i a w w' he => by cases i <;> cases he; rfl) h

end Tasks

/-! ## 2. Every run

When all tasks have ended nothing is owed any more, so the store has the watch value if the saves
have landed in order. -/

/-- **The store ends with the watch value, if the saves land in order.**  In every run of the three
tasks, for any lines on the two streams, any interleaving of their steps and any outcome of the
child. -/
theorem stored_eq_watch {init : TssrunJobSnapshot} {stdout stderr : List Str}
    {ms : List (Move machine)} {c : Config machine Unit}
    (hrun : (spawned init stdout stderr).run ms = some c) (hended : ∀ t < 3, c.Ended t)
    (hsaves : ∀ l ∈ c.world.landings, l.result = .ok ())
    (horder : ∀ l ∈ c.world.landings, l.InOrder) : c.world.stored = some c.world.watch := by
  have hstart : ∀ t, Owes t false (World.spawned init) := fun t =>
    ⟨fun h => absurd h Bool.false_ne_true, fun h => absurd h List.not_mem_nil⟩
  have hsafe : Config.Safe logic (fun t _ w => Owes t false w) (spawned init stdout stderr) := by
    refine ⟨⟨fun t ht => absurd ht List.not_mem_nil, fun _ => .inl rfl⟩, fun t p ht => ?_,
      fun t p ht => ?_⟩
    · cases p <;> trivial
    · match t, ht with
      | 0, ht => exact Option.some.inj ht ▸ owes_teeLines (by decide) .stdout stdout (hstart 0)
      | 1, ht => exact Option.some.inj ht ▸ owes_teeLines (by decide) .stderr stderr (hstart 1)
      | 2, ht =>
        exact Option.some.inj ht ▸ Context.wp_seq (owes_waitTask (by decide) (hstart 2))
          fun _ _ h => h
  have hend := Config.run_sound (fun t _ _ _ h ho => h.others ho) hsafe hrun
  have hi : Inv c.world := hend.inv
  rcases hi.stored fun l hl => ⟨hsaves l hl, horder l hl⟩ with h | h
  · exact h
  · obtain ⟨t, ht⟩ := List.exists_mem_of_ne_nil _ h
    have hlt := hi.tids t ht
    obtain ⟨a, hret⟩ := Option.isSome_iff_exists.mp (hended t hlt)
    have howes : Owes t false c.world := hend.post hret
    exact absurd (howes.mpr ht) Bool.false_ne_true

/-- A job that prints its allocation on stdout. -/
def allocated : Config machine Unit :=
  spawned ⟨1, 100, [], [], none, 0, .none, none, none, none⟩
    ["salloc: Granted job allocation 42"] []

/-- Task `t` goes on; where it asks for something, the answer is `i`. -/
def goes (t : Nat) (i : Input) : Move machine := .pass t i

/-- The save of the job id lands before the child exits. -/
def savedInOrder : List (Move machine) :=
  [goes 0 .go, goes 0 (.done (.ok ())), goes 0 .go, goes 0 .go, goes 0 (.done (.ok ())), goes 0 .go,
   goes 1 .go,
   goes 2 (.exited (.ok (some 0))), goes 2 (.clock 9), goes 2 .go, goes 2 .go,
   goes 2 (.done (.ok ())), goes 2 (.done (.ok ()))]

/-- The child exits while the save of the job id is under way; that save lands last. -/
def savedLate : List (Move machine) :=
  [goes 0 .go, goes 0 (.done (.ok ())), goes 0 .go, goes 0 .go,
   goes 2 (.exited (.ok (some 0))), goes 2 (.clock 9), goes 2 .go, goes 2 .go,
   goes 2 (.done (.ok ())), goes 2 (.done (.ok ())),
   goes 0 (.done (.ok ())), goes 0 .go, goes 1 .go]

theorem stored_eq_watch_allocated : ∃ c, allocated.run savedInOrder = some c ∧
    c.world.watch.finished = some ⟨some 0, 9⟩ ∧ c.world.stored = some c.world.watch := by
  have hreached : ∃ c, allocated.run savedInOrder = some c ∧
      (c.world.watch.finished = some ⟨some 0, 9⟩ ∧ (∀ t < 3, c.Ended t) ∧
        ∀ l ∈ c.world.landings, l.result = .ok () ∧ l.InOrder) :=
    Config.exists_run (by decide +kernel)
  obtain ⟨c, hrun, hfin, hended, hlanded⟩ := hreached
  exact ⟨c, hrun, hfin, stored_eq_watch hrun hended (fun l hl => (hlanded l hl).1)
    fun l hl => (hlanded l hl).2⟩

/-- **The exit is lost.**  All saves work and all tasks have ended, and the store has no `finished`
though the watch value has one. -/
theorem exit_not_stored : ∃ c, allocated.run savedLate = some c ∧
    (∀ t < 3, c.Ended t) ∧ (∀ l ∈ c.world.landings, l.result = .ok ()) ∧
    c.world.watch.finished = some ⟨some 0, 9⟩ ∧ c.world.stored.map (·.finished) = some none ∧
    c.world.stored ≠ some c.world.watch :=
  Config.exists_run (by decide +kernel)

end Tssrun

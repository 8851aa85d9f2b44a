/-
# The drain is complete

A call of `wait` that has taken the handle of the wait task joins both readers and that task.  What
it knows then it knows for good: the readers stay at their end, and only the wait task, which has
returned, could change what the snapshot says of the exit.
-/
import SlurmRunner.Tssrun.DrainHistory

namespace Tssrun

open Text Interact

/-! ## 1. What the tasks know of each other

The wait task records how the child has ended before it returns, a reader marks its own end, and
only the call that has taken the handle of the wait task takes those of the readers. -/

/-- The child has ended so, and an exit code stands in the snapshot. -/
def DrainWorld.Reaped (w : DrainWorld) (r : Except Str (Option Int)) : Prop :=
  w.child = some r ∧ ∀ code, r = .ok code → ∃ unix, w.base.watch.finished = some ⟨code, unix⟩

structure DrainInv (w : DrainWorld) : Prop where
  /-- Who takes the handle of the wait task first finds those of the readers. -/
  handles : w.taker = none → ∀ kind, w.teeHandle kind = true
  reaped : ∀ r, w.waitEnded = some r → w.Reaped r

/-- What a task must know before it makes an operation. -/
def DrainPermit (t : Nat) (o : DrainOp) (w : DrainWorld) : Prop :=
  Asks t o ∧ match o with
    | .base .childWait | .base (.setFinished _) => w.waitEnded = none
    | .endWait r => w.waitEnded = none ∧ w.Reaped r
    | .takeTee _ => w.taker = some t
    | _ => True

/-- Nothing has changed of the end of the child. -/
structure SameExit (w w' : DrainWorld) : Prop where
  child : w'.child = w.child
  finished : w'.base.watch.finished = w.base.watch.finished
  waitEnded : w'.waitEnded = w.waitEnded

theorem SameExit.refl (w : DrainWorld) : SameExit w w := ⟨rfl, rfl, rfl⟩

theorem SameExit.trans {w w' w'' : DrainWorld} (h : SameExit w w') (h' : SameExit w' w'') :
    SameExit w w'' :=
  ⟨h'.child.trans h.child, h'.finished.trans h.finished, h'.waitEnded.trans h.waitEnded⟩

/-- The exit of the child that was reaped stays known. -/
theorem SameExit.reaped {w w' : DrainWorld} (h : SameExit w w') {r : Except Str (Option Int)}
    (hr : w.Reaped r) : w'.Reaped r :=
  ⟨h.child.trans hr.1, fun code hcode => h.finished ▸ hr.2 code hcode⟩

/-- What the world does while task `t` is suspended. -/
structure Proceeds (t : Nat) (w w' : DrainWorld) : Prop where
  taker : ∀ u, w.taker = some u → w'.taker = some u
  /-- Nobody else takes the handles for `t`, or from it. -/
  mine : w'.taker = some t → w.taker = some t ∧ w'.teeHandle = w.teeHandle
  teeEnded : ∀ kind, w.teeEnded kind = true → w'.teeEnded kind = true
  waitEnded : ∀ r, w.waitEnded = some r → w'.waitEnded = some r
  exit : t = 2 → SameExit w w'

theorem Proceeds.refl (t : Nat) (w : DrainWorld) : Proceeds t w w :=
  ⟨fun _ h => h, fun h => ⟨h, rfl⟩, fun _ h => h, fun _ h => h, fun _ => .refl w⟩

theorem Proceeds.trans {t : Nat} {w w' w'' : DrainWorld} (h : Proceeds t w w')
    (h' : Proceeds t w' w'') : Proceeds t w w'' where
  taker u hu := h'.taker u (h.taker u hu)
  mine hu := ⟨(h.mine (h'.mine hu).1).1, (h'.mine hu).2.trans (h.mine (h'.mine hu).1).2⟩
  teeEnded kind hk := h'.teeEnded kind (h.teeEnded kind hk)
  waitEnded r hr := h'.waitEnded r (h.waitEnded r hr)
  exit ht := (h.exit ht).trans (h'.exit ht)

/-- The operation may change what is known of the end of the child. -/
def Op.marksExit : Op → Bool
  | .childWait | .setFinished _ | .sendReplace _ => true
  | _ => false

/-- Most operations do not concern the end of the child. -/
theorem drainExec_sameExit {t : Nat} {o : Op} {i : Input} {w w' : DrainWorld} {a : o.Ans}
    (ho : o.marksExit = false) (he : drainExec t (.base o) i w = some (a, w')) : SameExit w w' := by
  have hwatch := watch_drainExec he
  obtain ⟨r, -, hr⟩ := Option.map_eq_some_iff.mp he
  cases hr
  refine ⟨?_, ?_, rfl⟩
  · cases o <;> first | rfl | cases ho
  · rw [hwatch]
    cases o <;> first | rfl | cases ho

/-- **A permitted step** keeps the invariant, and the other tasks see no more than they expect. -/
theorem drain_exec {t u : Nat} {o : DrainOp} {i : Input} {w w' : DrainWorld} {a : o.Ans}
    (hi : DrainInv w) (hp : DrainPermit t o w) (he : drainExec t o i w = some (a, w')) :
    DrainInv w' ∧ (u ≠ t → Proceeds u w w') := by
  obtain ⟨hasks, hp⟩ := hp
  rcases drainExec_cases he with ⟨o', base, child, rfl, rfl⟩ | rfl | ⟨rfl, hnone, rfl⟩ |
    ⟨kind, rfl, rfl⟩ | ⟨kind, rfl, rfl⟩ | ⟨r, rfl, rfl⟩
  · -- only the wait task, before it returns, changes what is known of the end of the child
    have hexit : (w.waitEnded = none ∧ t = 2) ∨
        SameExit w { w with base := base, child := child } := by
      cases hmarks : o'.marksExit with
      | false => exact .inr (drainExec_sameExit hmarks he)
      | true =>
        cases o' with
        | childWait | setFinished _ => exact .inl ⟨hp, hasks⟩
        | sendReplace _ => exact hasks.elim
        | _ => cases hmarks
    refine ⟨⟨hi.handles, fun r hr => ?_⟩, fun hu => ⟨fun _ h => h, fun h => ⟨h, rfl⟩, fun _ h => h,
      fun _ h => h, fun hu2 => ?_⟩⟩
    · rcases hexit with ⟨hrun, -⟩ | hsame
      · rw [hrun] at hr
        cases hr
      · exact hsame.reaped (hi.reaped r hr)
    · rcases hexit with ⟨-, ht⟩ | hsame
      · exact absurd (hu2.trans ht.symm) hu
      · exact hsame
  · exact ⟨hi, fun _ => .refl u _⟩
  · refine ⟨⟨fun h => (by cases h), hi.reaped⟩, fun hu => ⟨fun v hv => ?_, fun h => ?_,
      fun _ h => h, fun _ h => h, fun _ => ⟨rfl, rfl, rfl⟩⟩⟩
    · rw [hnone] at hv
      cases hv
    · exact absurd (Option.some.inj h).symm hu
  · refine ⟨⟨fun h => ?_, hi.reaped⟩, fun hu => ⟨fun _ h => h, fun h => ?_, fun _ h => h,
      fun _ h => h, fun _ => ⟨rfl, rfl, rfl⟩⟩⟩
    · exact absurd (hp.symm.trans h) (by simp)
    · exact absurd (Option.some.inj (h.symm.trans hp)) hu
  · refine ⟨⟨hi.handles, hi.reaped⟩, fun hu => ⟨fun _ h => h, fun h => ⟨h, rfl⟩, fun k hk => ?_,
      fun _ h => h, fun _ => ⟨rfl, rfl, rfl⟩⟩⟩
    by_cases hkind : k = kind
    · rw [hkind]
      exact Function.update_self kind true w.teeEnded
    · exact (Function.update_of_ne hkind _ _).trans hk
  · obtain ⟨hnone, hreaped⟩ := hp
    refine ⟨⟨hi.handles, fun r' hr' => ?_⟩, fun hu => ⟨fun _ h => h, fun h => ⟨h, rfl⟩,
      fun _ h => h, fun r' hr' => ?_, fun hu2 => absurd (hu2.trans hasks.symm) hu⟩⟩
    · cases hr'
      exact hreaped
    · rw [hnone] at hr'
      cases hr'

/-- The logic of a handle with its three tasks and its calls of `wait`. -/
def drain : Logic drainMachine where
  inv := DrainInv
  pre := DrainPermit
  rely := Proceeds
  rely_refl := Proceeds.refl
  rely_trans := Proceeds.trans
  inv_exec {t _ _ _ _ _} hi hp he := (drain_exec (u := t) hi hp he).1
  inv_tick hi h := by
    cases h
    exact hi
  rely_tick {t _ w _} _ h := by
    cases h
    exact Proceeds.refl t w
  rely_exec hi hp he hu := (drain_exec hi hp he).2 hu
  inv_drop hi := hi
  rely_drop {_ u w} _ _ := Proceeds.refl u w

/-! ## 2. The tasks and the calls

One rule for each program.  A call of `wait` gets past a join only when the task that it joins has
come to its end. -/

section Tasks

variable {t : Nat} {w : DrainWorld} {store : Bool}

/-- An operation is carried out on a world that has proceeded meanwhile. -/
theorem wp_drainOp {o : DrainOp} {Q : o.Ans → DrainWorld → Prop}
    (hpre : ∀ w₁, Proceeds t w w₁ → DrainPermit t o w₁)
    (h : ∀ w₁ i a w', Proceeds t w w₁ → DrainInv w₁ → drainExec t o i w₁ = some (a, w') → Q a w') :
    drain.wp t (drainOp o) Q w :=
  Context.wp_await (fun w₁ hr _ => hpre w₁ hr) fun w₁ i a w' hr hi he _ => h w₁ i a w' hr hi he

/-- A reader needs to know nothing. -/
theorem wp_teeTask (kind : LogStream) (bytes : List UInt8) :
    drain.wp kind.task (teeTask store kind bytes) (fun r _ => r = none) w := by
  have hpermit : ∀ {o : DrainOp} {w}, Asks kind.task o ∧ (∀ k, o ≠ .endTee k) → drain.inv w →
      drain.pre kind.task o w := by
    rintro o w ⟨hasks, -⟩ -
    refine ⟨hasks, ?_⟩
    have htask : kind.task < 2 := by cases kind <;> decide
    cases o with
    | base o =>
      cases o with
      | childWait | setFinished _ =>
        have : kind.task = 2 := hasks
        omega
      | _ => trivial
    | takeTee _ =>
      have : 3 ≤ kind.task := hasks
      omega
    | endWait _ =>
      have : kind.task = 2 := hasks
      omega
    | _ => trivial
  refine Context.wp_seq (M := drainMachine) (P := fun _ _ => True)
    (Context.wp_of_uses hpermit (teeStream_uses store kind bytes)) fun _ w₁ _ => ?_
  refine Context.wp_seq (M := drainMachine) (P := fun _ _ => True)
    (wp_drainOp (fun _ _ => ⟨rfl, trivial⟩) fun _ _ _ _ _ _ _ => trivial) fun _ w₂ _ => ?_
  exact rfl

/-- The rule of two programs of the handle, one after the other. -/
theorem wp_lower_seq {α β : Type} {p : Prog sig α} {f : α → Prog sig β}
    {P : α → DrainWorld → Prop} {Q : β → DrainWorld → Prop}
    (hp : drain.wp t (p.lower (handled store)) P w)
    (hf : ∀ a w', P a w' → drain.wp t ((f a).lower (handled store)) Q w') :
    drain.wp t ((p >>= f).lower (handled store)) Q w := by
  have heq := Prog.lower_bind (E := sig) (handled store) p f
  exact heq ▸ Context.wp_seq hp hf

/-- The same for an operation on the job. -/
theorem wp_perform {o : Op} {Q : o.Ans → DrainWorld → Prop}
    (h : drain.wp t (handled store o) Q w) :
    drain.wp t ((perform o).lower (handled store)) Q w :=
  Context.wp_seq h fun _ _ h => h

/-- **The rule of a program that is not about the end of the child**, in the task that is. -/
theorem wp_sameExit {α : Type} {p : Prog sig α}
    (hp : p.Uses fun o : Op => Asks 2 (.base o) ∧ o.marksExit = false) :
    drain.wp 2 (p.lower (handled store)) (fun _ w' => SameExit w w') w := by
  have huses : (p.lower (handled store)).Uses
      fun o : DrainOp => ∃ o', o = .base o' ∧ Asks 2 o ∧ o'.marksExit = false :=
    Prog.uses_lower hp fun o ho => handled_uses ⟨o, rfl, ho⟩
  have hfree : drain.wp 2 (p.lower (handled store)) (fun _ _ => True) w := by
    refine Context.wp_of_uses (fun {o w} ho _ => ?_) huses
    obtain ⟨o', rfl, hasks, hmarks⟩ := ho
    refine ⟨hasks, ?_⟩
    cases o' <;> trivial
  refine Context.wp_mono (Context.wp_frame (F := SameExit) SameExit.trans (fun h => h.exit rfl) ?_
    huses hfree (SameExit.refl w)) fun _ _ h => h.2
  rintro o i w₁ a w₂ ⟨o', rfl, -, hmarks⟩ - he
  exact drainExec_sameExit hmarks he

/-- The wait task returns how the child has ended, and nobody knows it yet. -/
theorem wp_reaping (hw : w.waitEnded = none) :
    drain.wp 2 (waitTask.lower (handled store))
      (fun r w' => w'.waitEnded = none ∧ w'.Reaped r) w := by
  refine wp_lower_seq (P := fun r w' => w'.waitEnded = none ∧ w'.child = some r) ?_
    fun r w₁ h₁ => ?_
  · refine wp_perform (wp_drainOp (fun w₁ hr => ⟨rfl, (hr.exit rfl).waitEnded.trans hw⟩)
      fun w₁ i a w' hr _ he => ?_)
    obtain ⟨⟨a', base⟩, hbase, hmap⟩ := Option.map_eq_some_iff.mp he
    cases i <;> cases hbase
    cases hmap
    exact ⟨(hr.exit rfl).waitEnded.trans hw, rfl⟩
  rcases r with e | code
  · exact ⟨h₁.1, h₁.2, fun code h => by cases h⟩
  refine wp_lower_seq (wp_sameExit (Prog.uses_op ⟨trivial, rfl⟩)) fun unix w₂ h₂ => ?_
  refine wp_lower_seq (P := fun _ w' => w'.waitEnded = none ∧ w'.Reaped (.ok code)) ?_
    fun _ w₃ h₃ => ?_
  · refine wp_perform (wp_drainOp (fun w₃ hr => ⟨rfl, ?_⟩) fun w₃ i a w' hr _ he => ?_)
    · exact (h₂.trans (hr.exit rfl)).waitEnded.trans h₁.1
    · have hsame := h₂.trans (hr.exit rfl)
      cases he
      refine ⟨hsame.waitEnded.trans h₁.1, hsame.child.trans h₁.2, fun code' hcode => ⟨unix, ?_⟩⟩
      cases hcode
      rfl
  -- what is left saves the snapshot and flushes the sink
  refine wp_lower_seq (wp_sameExit (Prog.uses_op ⟨trivial, rfl⟩)) fun snap w₄ h₄ => ?_
  refine wp_lower_seq (wp_sameExit (persistWarn_uses ⟨trivial, rfl⟩)) fun _ w₅ h₅ => ?_
  refine wp_lower_seq (wp_sameExit (Prog.uses_op ⟨trivial, rfl⟩)) fun _ w₆ h₆ => ?_
  have hsame := (h₄.trans h₅).trans h₆
  exact ⟨hsame.waitEnded.trans h₃.1, hsame.reaped h₃.2⟩

/-- The wait task has no answer of its own. -/
theorem wp_exitTask (hw : w.waitEnded = none) :
    drain.wp 2 (exitTask store) (fun r _ => r = none) w := by
  refine Context.wp_seq (wp_reaping hw) fun r w₁ h₁ => ?_
  refine Context.wp_seq (M := drainMachine) (P := fun _ _ => True)
    (wp_drainOp (fun w₂ hr => ?_) fun _ _ _ _ _ _ _ => trivial) fun _ w₂ _ => rfl
  have hsame := hr.exit rfl
  exact ⟨rfl, hsame.waitEnded.trans h₁.1, hsame.reaped h₁.2⟩

/-- A call that has all the handles has taken and joined a reader. -/
structure Joined (t : Nat) (kind : LogStream) (w w' : DrainWorld) : Prop where
  taker : w'.taker = some t
  handles : ∀ k, k ≠ kind → w'.teeHandle k = w.teeHandle k
  joined : w'.teeEnded kind = true
  teeEnded : ∀ k, w.teeEnded k = true → w'.teeEnded k = true

/-- A call that joins a reader goes on when this has ended. -/
theorem wp_drainTee {kind : LogStream} (ht : 3 ≤ t) (hw : w.taker = some t)
    (hhandle : w.teeHandle kind = true) :
    drain.wp t (drainTee kind) (fun _ w' => Joined t kind w w') w := by
  refine Context.wp_seq (M := drainMachine) (P := fun found w' => found = true ∧ w'.taker = some t ∧
    (∀ k, k ≠ kind → w'.teeHandle k = w.teeHandle k) ∧
      ∀ k, w.teeEnded k = true → w'.teeEnded k = true)
    (wp_drainOp (fun w₁ hr => ⟨ht, hr.taker t hw⟩) fun w₁ i a w' hr _ he => ?_)
    fun found w₂ h₂ => ?_
  · cases he
    have hsame := (hr.mine (hr.taker t hw)).2
    refine ⟨hsame ▸ hhandle, hr.taker t hw, fun k hk => ?_, hr.teeEnded⟩
    exact (Function.update_of_ne hk _ _).trans (congrFun hsame k)
  · obtain ⟨rfl, htaker, hhandles, hended⟩ := h₂
    refine wp_drainOp (fun _ _ => ⟨ht, trivial⟩) fun w₃ i a w' hr _ he => ?_
    simp only [drainExec] at he
    split at he
    · rename_i hjoined
      cases he
      refine ⟨hr.taker t htaker, fun k hk => ?_, hjoined, fun k hk => hr.teeEnded k (hended k hk)⟩
      rw [(hr.mine (hr.taker t htaker)).2]
      exact hhandles k hk
    · cases he

/-- What is known of a call of `wait` that has returned: another call has taken the handles, or both
readers have ended and this is what the wait task has returned. -/
def Returned (t : Nat) (r : WaitResult) (w : DrainWorld) : Prop :=
  (r = .error .notOwner ∧ ∃ u, u ≠ t ∧ w.taker = some u) ∨
    ((∀ kind, w.teeEnded kind = true) ∧ ∃ e, w.waitEnded = some e ∧ r = e.mapError .other)

/-- What was returned stays true. -/
theorem Returned.proceeds {r : WaitResult} {w' : DrainWorld} (h : Returned t r w)
    (hr : Proceeds t w w') : Returned t r w' := by
  rcases h with ⟨rfl, u, hu, htaker⟩ | ⟨hended, e, he, rfl⟩
  · exact .inl ⟨rfl, u, hu, hr.taker u htaker⟩
  · exact .inr ⟨fun kind => hr.teeEnded kind (hended kind), e, hr.waitEnded e he, rfl⟩

/-- **A call of `wait`** joins both readers and the wait task, if it is the first. -/
theorem wp_wait (ht : 3 ≤ t) (hw : w.taker ≠ some t) :
    drain.wp t wait (fun r w' => Returned t r w') w := by
  refine Context.wp_seq (M := drainMachine) (P := fun found w' =>
    (found = false ∧ ∃ u, u ≠ t ∧ w'.taker = some u) ∨
      (found = true ∧ w'.taker = some t ∧ ∀ kind, w'.teeHandle kind = true))
    (wp_drainOp (fun _ _ => ⟨ht, trivial⟩) fun w₁ i a w' hr hi he => ?_) fun found w₁ h₁ => ?_
  · simp only [drainExec] at he
    split at he
    · rename_i hnone
      cases he
      exact .inr ⟨rfl, rfl, hi.handles (Option.isNone_iff_eq_none.mp hnone)⟩
    · rename_i hsome
      cases he
      obtain ⟨u, hu⟩ := Option.ne_none_iff_exists'.mp (by simpa using hsome)
      refine .inl ⟨rfl, u, fun hut => hw (hr.mine ?_).1, hu⟩
      rw [hu, hut]
  · rcases h₁ with ⟨rfl, hother⟩ | ⟨rfl, htaker, hhandles⟩
    · exact .inl ⟨rfl, hother⟩
    refine Context.wp_seq (wp_drainTee ht htaker (hhandles .stdout)) fun _ w₂ h₂ => ?_
    have herr : w₂.teeHandle .stderr = true :=
      (h₂.handles .stderr (by decide)).trans (hhandles .stderr)
    refine Context.wp_seq (wp_drainTee ht h₂.taker herr) fun _ w₃ h₃ => ?_
    refine Context.wp_seq (M := drainMachine) (P := fun r w' => (∀ kind, w'.teeEnded kind = true) ∧
      w'.waitEnded = some r) (wp_drainOp (fun _ _ => ⟨ht, trivial⟩) fun w₄ i a w' hr _ he => ?_)
      fun inner w₄ h₄ => .inr ⟨h₄.1, inner, h₄.2, rfl⟩
    obtain ⟨r, hr', hmap⟩ := Option.map_eq_some_iff.mp he
    cases hmap
    refine ⟨fun kind => hr.teeEnded kind ?_, hr'⟩
    cases kind with
    | stdout => exact h₃.teeEnded .stdout h₂.joined
    | stderr => exact h₃.joined

end Tasks

/-! ## 3. Every run

However many tasks call `wait`, only the one that takes the handle of the wait task returns the
exit. -/

/-- Every task keeps its rules in every run. -/
theorem safe_drained {init : TssrunJobSnapshot} {first : Option (Except Str Unit)}
    {bytes : LogStream → List UInt8} {waits : Nat → Bool} :
    Config.Safe drain (fun t a w => ∀ r, a = some r → Returned t r w)
      (drained init first bytes waits) := by
  refine ⟨⟨fun _ _ => rfl, fun r hr => by cases hr⟩, fun t p _ => ?_, fun t p ht => ?_⟩
  · cases p <;> trivial
  · have hnone : ∀ {t w}, ∀ a : Option WaitResult, a = none → ∀ r, a = some r → Returned t r w := by
      rintro t w a rfl r hr
      cases hr
    match t, ht with
    | 0, ht =>
      exact Option.some.inj ht ▸ Context.wp_mono (wp_teeTask .stdout _) fun a _ h => hnone a h
    | 1, ht =>
      exact Option.some.inj ht ▸ Context.wp_mono (wp_teeTask .stderr _) fun a _ h => hnone a h
    | 2, ht =>
      exact Option.some.inj ht ▸ Context.wp_mono (wp_exitTask rfl) fun a _ h => hnone a h
    | t + 3, ht =>
      refine eq_waitCall ht ▸ Context.wp_seq (wp_wait (Nat.le_add_left 3 t) fun h => by cases h)
        fun r w h r' hr => ?_
      cases hr
      exact h

/-- What holds when a call of `wait` has returned `r`, after the moves `ms` from `c₀` to `c`. -/
structure Drained (text : LogStream → Str) (c₀ c : Config drainMachine (Option WaitResult))
    (ms : List (Move drainMachine)) (r : WaitResult) : Prop where
  /-- The sink was offered every line of a stream once, in their order. -/
  offered : ∀ kind, offeredLines kind (history c₀ ms) = lines (text kind)
  jobid : jobidBanner.Settled text c₀ c ms
  node : nodeBanner.Settled text c₀ c ms
  /-- The call returns how the child has ended, and the snapshot says so. -/
  exit : ∃ e, c.world.Reaped e ∧ r = e.mapError .other

/-- **The drain is complete.**  For any two streams that are texts, any interleaving, any errors of
the sink and the store and any number of calls: a call of `wait` that returns found the handles
taken by another call, or all is done.  Every line has been offered to the sink, each field of the
snapshot has the first banner that was found on a line of either stream, and the exit code is in
the snapshot. -/
theorem drain_complete {uuid : Nat} {pid : UInt32} {argv : List Str} {sentEnv : List (Str × Str)}
    {cwd : Option Str} {startedAtUnix : Int} {first : Option (Except Str Unit)}
    {bytes : LogStream → List UInt8} {text : LogStream → Str} {waits : Nat → Bool}
    (htext : ∀ kind, fromUtf8 (bytes kind) = some (text kind)) {ms : List (Move drainMachine)}
    {c : Config drainMachine (Option WaitResult)} {t : Nat} {r : WaitResult}
    (hrun : (drained (.atSpawn uuid pid argv sentEnv cwd startedAtUnix) first bytes waits).run ms =
      some c) (hret : c.result t = some (some r)) :
    (r = .error .notOwner ∧ ∃ u, u ≠ t ∧ c.world.taker = some u) ∨
      Drained text (drained (.atSpawn uuid pid argv sentEnv cwd startedAtUnix) first bytes waits) c
        ms r := by
  have hsafe := Config.run_sound (fun t a w w' hQ hr r ha => (hQ r ha).proceeds hr)
    safe_drained hrun
  rcases hsafe.post hret r rfl with hother | ⟨hended, e, he, hr⟩
  · exact .inl hother
  · exact .inr ⟨fun kind => offeredLines_eq (htext kind) hrun (hended kind),
      jobidBanner.settled htext rfl hrun hended, nodeBanner.settled htext rfl hrun hended,
      e, hsafe.inv.reaped e he, hr⟩

/-! ### A run with a banner on each stream -/

def bannerStreams : LogStream → List UInt8
  | .stdout => asciiBytes "salloc: Granted job allocation 42\n"
  | .stderr => asciiBytes
      "salloc: Granted job allocation 7\r\nsalloc: Nodes cnode3 are ready for job"

def bannerTexts : LogStream → Str
  | .stdout => "salloc: Granted job allocation 42\n".toList
  | .stderr =>
      "salloc: Granted job allocation 7\r\nsalloc: Nodes cnode3 are ready for job".toList

def bannerJob : Config drainMachine (Option WaitResult) :=
  drained (.atSpawn 1 100 [] [] none 0) (some (.ok ())) bannerStreams fun t => t = 0

def goTask (t : Nat) : Move drainMachine := .pass t .go

def doneTask (t : Nat) (r : Except Str Unit) : Move drainMachine := .pass t (.done r)

/-- The call waits first, then the reader of stderr is the faster one.  The sink refuses a line, the
store a snapshot, and a signal ends the child. -/
def bannerMoves : List (Move drainMachine) :=
  [goTask 3, goTask 3,
   goTask 1, doneTask 1 (.error "closed"), goTask 0, goTask 1, goTask 1,
   doneTask 1 (.error "disk full"), doneTask 0 (.ok ()), goTask 0, goTask 0, goTask 0,
   .pass 2 (.exited (.ok none)), .pass 2 (.clock 60), goTask 2, goTask 2, doneTask 2 (.ok ()),
   doneTask 2 (.ok ()), goTask 2,
   goTask 3, goTask 3, goTask 1, doneTask 1 (.ok ()), goTask 1, goTask 1, doneTask 1 (.ok ()),
   goTask 1, goTask 1, goTask 3, goTask 3]

theorem drain_complete_banners : ∃ c, bannerJob.run bannerMoves = some c ∧
    c.result 3 = some (some (.ok none)) ∧ c.world.base.watch.jobid = some 7 ∧
    c.world.base.watch.finished = some ⟨none, 60⟩ ∧
    Drained bannerTexts bannerJob c bannerMoves (.ok none) := by
  obtain ⟨c, hrun, hret, hjob, hfin⟩ : ∃ c, bannerJob.run bannerMoves = some c ∧
      (c.result 3 = some (some (.ok none)) ∧ c.world.base.watch.jobid = some 7 ∧
        c.world.base.watch.finished = some ⟨none, 60⟩) :=
    Config.exists_run (by decide +kernel)
  have htext : ∀ kind, fromUtf8 (bannerStreams kind) = some (bannerTexts kind) := by
    intro kind
    cases kind <;> decide +kernel
  refine ⟨c, hrun, hret, hjob, hfin, ?_⟩
  rcases drain_complete htext hrun hret with ⟨hother, -⟩ | hdrained
  · cases hother
  · exact hdrained

end Tssrun

/-
# Writes that outlive their calls

`FileSystemStateStore::save` writes the file in a blocking task and waits for it.  A call that is
dropped while it waits leaves the task running: it replaces the file at some later time, when the
refresh lock has long been released.  So the writes of several calls can land in any order, and the
file ends with the snapshot of the one that lands last.
-/
import SlurmRunner.Interact.Attempt
import SlurmRunner.Sbatch.Session

namespace Sbatch

open Text Slurm Interact

variable {ι : Type} [DecidableEq ι] {K : ι → Type}

/-! ## 1. The file system under the store

The blocking task of a save goes on when the future that waits for it is dropped. So a write that
was started lands at some later time, whoever still waits for it; only the replacement of the file
is atomic. -/

inductive FsOp {ι : Type} (K : ι → Type) where
  | base (o : Op K)
  /-- `tokio::task::spawn_blocking(move || write_atomic_json(..))`. -/
  | spawnWrite (snap : SbatchJobSnapshot)
  /-- `.await` of the join handle. -/
  | joinWrite (id : Nat)

def FsOp.Ans : FsOp K → Type
  | .base o => o.Ans
  | .spawnWrite _ => Nat
  | .joinWrite _ => Except Str Unit

variable (K) in
def fsSig : Sig := ⟨FsOp K, FsOp.Ans⟩

/-- The world over a file store, for the file of one uuid. -/
structure FsWorld {ι : Type} (K : ι → Type) where
  base : World K
  /-- How many writes have been started. -/
  started : Nat
  /-- The writes that are running. -/
  pending : List (Nat × SbatchJobSnapshot)
  results : Nat → Option (Except Str Unit)
  /-- What the file holds. -/
  file : Option SbatchJobSnapshot
  /-- The writes that have replaced the file, newest first. -/
  landed : List (Nat × SbatchJobSnapshot)

/-- The world before the first call, when the file holds the published snapshot of handle 0. -/
def FsWorld.start (base : World K) : FsWorld K :=
  ⟨base, 0, [], fun _ => none, some (base.watch 0), []⟩

/-- A move of the environment: the clocks go on, or a running write ends. -/
inductive FsTick where
  | clocks (e : Tick)
  | finish (id : Nat) (r : Except Str Unit)

def fsExec (t : Nat) : (o : FsOp K) → Input → FsWorld K → Option (o.Ans × FsWorld K)
  | .base o, i, w => (exec t o i w.base).map fun r => (r.1, { w with base := r.2 })
  | .spawnWrite snap, _, w =>
    some (w.started, { w with
      started := w.started + 1, pending := (w.started, snap) :: w.pending })
  | .joinWrite id, _, w => (w.results id).map fun r => (r, w)

/-- The blocking task of a write has ended. -/
def FsWorld.ended (w : FsWorld K) (id : Nat) (r : Except Str Unit) : FsWorld K :=
  { w with
    pending := w.pending.filter (·.1 ≠ id)
    results := Function.update w.results id (some r) }

/-- A write replaces the file by an atomic rename, or fails and leaves it. -/
def fsTick : FsTick → FsWorld K → Option (FsWorld K)
  | .clocks e, w => (tick e w.base).map fun base => { w with base := base }
  | .finish id r, w =>
    match w.pending.find? (·.1 = id) with
    | none => none
    | some p =>
      match r with
      | .ok () => some { w.ended id r with file := some p.2, landed := p :: w.landed }
      | .error _ => some (w.ended id r)

variable (K) in
def fsMachine : Machine (fsSig K) where
  World := FsWorld K
  In := Input
  go := .go
  Env := FsTick
  await
    | .base o => o.await
    | .spawnWrite _ => false
    | .joinWrite _ => true
  exec := fsExec
  tick := fsTick
  drop t w := { w with base := drop t w.base }

/-- `FileSystemStateStore::save`; all other operations are what they were. -/
def fileSystem : (o : Op K) → Prog (fsSig K) o.Ans
  | .save snap => do
    let id ← @Prog.op (fsSig K) (.spawnWrite snap)
    @Prog.op (fsSig K) (.joinWrite id)
  | o => @Prog.op (fsSig K) (.base o)

/-- The program of a call on a handle over the file store. -/
def Request.fsProgram (d : Dispatcher K) (req : Request) :
    Prog (fsSig K) (Except Str SbatchJobSnapshot) := (req.program d).lower fileSystem

/-! ## 2. Writes that land in order

The order in which writes are started and the one in which they land may differ after a drop.  A run
is orderly if they do not, and then the file is never older than the watch value. -/

/-- `snap'` is at least as recent as `snap`, and has an outcome if `snap` has one. -/
structure SbatchJobSnapshot.Covers (snap' snap : SbatchJobSnapshot) : Prop where
  notOlder : snap.NotOlder snap'
  finished : snap.lifecycle.finished.isSome = true → snap'.lifecycle.finished.isSome = true

/-- A snapshot covers itself. -/
theorem SbatchJobSnapshot.Covers.refl (snap : SbatchJobSnapshot) : snap.Covers snap :=
  ⟨.refl snap, fun h => h⟩

/-- The writes have replaced the file in the order in which they were started. -/
def FsWorld.InOrder (w : FsWorld K) : Prop := w.landed.Pairwise fun p q => q.1 < p.1

instance (w : FsWorld K) : Decidable w.InOrder :=
  inferInstanceAs (Decidable (List.Pairwise _ _))

/-- The writes land in order and the wall clock is not set back. -/
def FsWorld.Orderly (w : FsWorld K) : Prop := w.InOrder ∧ w.base.steady = true

/-- A write that was started later has replaced the file. -/
def FsWorld.Overtaken (w : FsWorld K) (id : Nat) : Prop := ∃ q ∈ w.landed, id < q.1

/-- What is known at every moment, as long as all was orderly. -/
structure FsInv (w : FsWorld K) : Prop where
  ids : ∀ p ∈ w.pending ++ w.landed, p.1 < w.started
  /-- The file holds the snapshot of the newest landing. -/
  newest : ∀ p ∈ w.landed.head?, w.file = some p.2
  /-- A write that has ended runs no more, and has replaced the file if it worked. -/
  results : ∀ id r, w.results id = some r → id < w.started ∧ (∀ p ∈ w.pending, p.1 ≠ id) ∧
    (r = .ok () → ∃ p ∈ w.landed, p.1 = id)
  file : ∃ f, w.file = some f ∧ (w.Orderly → f.Covers (w.base.watch 0))
  /-- What may still land in order is as good as the published snapshot. -/
  pending : w.Orderly → ∀ p ∈ w.pending, ¬ w.Overtaken p.1 → p.2.Covers (w.base.watch 0)
  timely : w.base.steady = true → Timely w.base.utc (w.base.watch 0)

/-- What the environment, and a task that only asks its dispatcher, can do. -/
structure Idles (w w' : FsWorld K) : Prop where
  watch : w'.base.watch = w.base.watch
  started : w'.started = w.started
  steady : w'.base.steady = true → w.base.steady = true ∧ w.base.utc ≤ w'.base.utc
  pending : ∀ p ∈ w'.pending, p ∈ w.pending
  landed : ∃ new, w'.landed = new ++ w.landed ∧ ∀ p ∈ new, p ∈ w.pending

omit [DecidableEq ι] in
/-- Nothing was started. -/
theorem Idles.refl (w : FsWorld K) : Idles w w :=
  ⟨rfl, rfl, fun h => ⟨h, Nat.le_refl _⟩, fun _ h => h, [], rfl, fun _ h => by cases h⟩

omit [DecidableEq ι] in
/-- Two intervals in which nothing was started. -/
theorem Idles.trans {w w' w'' : FsWorld K} (h : Idles w w') (h' : Idles w' w'') :
    Idles w w'' := by
  obtain ⟨new, hnew, hmem⟩ := h.landed
  obtain ⟨new', hnew', hmem'⟩ := h'.landed
  refine ⟨h'.watch.trans h.watch, h'.started.trans h.started, fun hs => ?_,
    fun p hp => h.pending p (h'.pending p hp), new' ++ new, ?_, fun p hp => ?_⟩
  · obtain ⟨hs', hle'⟩ := h'.steady hs
    obtain ⟨hs₀, hle⟩ := h.steady hs'
    exact ⟨hs₀, hle.trans hle'⟩
  · rw [hnew', hnew, List.append_assoc]
  · rcases List.mem_append.mp hp with hp | hp
    · exact h.pending p (hmem' p hp)
    · exact hmem p hp

omit [DecidableEq ι] in
/-- A write that overtakes another one is never taken back. -/
theorem Idles.orderly {w w' : FsWorld K} (h : Idles w w') (ho : w'.Orderly) : w.Orderly := by
  obtain ⟨new, hnew, -⟩ := h.landed
  obtain ⟨horder, hsteady⟩ := ho
  rw [FsWorld.InOrder, hnew] at horder
  exact ⟨(List.pairwise_append.mp horder).2.1, (h.steady hsteady).1⟩

/-- What a task must know before it starts a write, or publishes. -/
def FsPermit (o : FsOp K) (w : FsWorld K) : Prop :=
  match o with
  | .spawnWrite snap => w.Orderly → snap.Covers (w.base.watch 0)
  | .base (.sendReplace h _ snap) => h = 0 ∧ w.file.isSome = true ∧
      (w.Orderly → w.file = some snap ∧ ∀ p ∈ w.pending, w.Overtaken p.1) ∧
      (w.base.steady = true → Timely w.base.utc snap)
  | .base (.newHandle _) => False
  | _ => True

/-! ## 3. One step

Each operation keeps the invariant: a write that is started covers the watch value, and the watch
value is replaced when its write has landed. -/

/-- The operation changes a watch value. -/
def Op.publishes : Op K → Bool
  | .sendReplace _ _ _ | .newHandle _ => true
  | _ => false

/-- What publishes nothing leaves the watch value alone. -/
theorem exec_unpublished {t : Nat} {o : Op K} {i : Input} {w w' : World K} {a : o.Ans}
    (ho : o.publishes = false) (he : exec t o i w = some (a, w')) :
    w'.watch = w.watch ∧ w'.utc = w.utc ∧ w'.steady = w.steady := by
  cases effect_of_exec he with
  | sendReplace _ | newHandle => cases ho
  | _ => exact ⟨rfl, rfl, rfl⟩

omit [DecidableEq ι] in
/-- Nothing that the invariant is about has changed. -/
theorem FsInv.base {w : FsWorld K} (hi : FsInv w) {b : World K} (hwatch : b.watch = w.base.watch)
    (hutc : b.utc = w.base.utc) (hsteady : b.steady = w.base.steady) :
    FsInv { w with base := b } := by
  have horderly : ∀ {w' : FsWorld K}, w' = { w with base := b } → w'.Orderly → w.Orderly := by
    rintro w' rfl ⟨h, hs⟩
    exact ⟨h, hsteady ▸ hs⟩
  obtain ⟨f, hf, hcovers⟩ := hi.file
  refine ⟨hi.ids, hi.newest, hi.results, ⟨f, hf, fun ho => ?_⟩, fun ho p hp hnot => ?_,
    fun hs => ?_⟩
  · rw [hwatch]
    exact hcovers (horderly rfl ho)
  · rw [hwatch]
    exact hi.pending (horderly rfl ho) p hp hnot
  · rw [hwatch, hutc]
    exact hi.timely (hsteady ▸ hs)

omit [DecidableEq ι] in
/-- **A write is started** of a snapshot that covers the watch value. -/
theorem FsInv.spawned {w : FsWorld K} (hi : FsInv w) {snap : SbatchJobSnapshot}
    (hsnap : w.Orderly → snap.Covers (w.base.watch 0)) :
    FsInv { w with started := w.started + 1, pending := (w.started, snap) :: w.pending } where
  ids p hp := by
    rcases List.mem_cons.mp hp with rfl | hp
    · exact Nat.lt_succ_self _
    · exact (hi.ids p hp).trans (Nat.lt_succ_self _)
  newest := hi.newest
  results id r hr := by
    obtain ⟨hlt, hnot, hok⟩ := hi.results id r hr
    refine ⟨hlt.trans (Nat.lt_succ_self _), fun p hp => ?_, hok⟩
    rcases List.mem_cons.mp hp with rfl | hp
    · exact (Nat.ne_of_lt hlt).symm
    · exact hnot p hp
  file := hi.file
  pending ho p hp hnot := by
    rcases List.mem_cons.mp hp with rfl | hp
    · exact hsnap ho
    · exact hi.pending ho p hp hnot
  timely := hi.timely

omit [DecidableEq ι] in
/-- **The watch value is replaced** by what has just landed. -/
theorem FsInv.published {w : FsWorld K} (hi : FsInv w) {b : World K} {snap : SbatchJobSnapshot}
    (hwatch : b.watch 0 = snap) (hutc : b.utc = w.base.utc) (hsteady : b.steady = w.base.steady)
    (horder : w.Orderly → w.file = some snap ∧ ∀ p ∈ w.pending, w.Overtaken p.1)
    (htimely : w.base.steady = true → Timely w.base.utc snap) :
    FsInv { w with base := b } := by
  obtain ⟨f, hf, -⟩ := hi.file
  refine ⟨hi.ids, hi.newest, hi.results, ⟨f, hf, fun ho => ?_⟩, fun ho p hp hnot => ?_,
    fun hs => ?_⟩
  · have hfile := (horder ⟨ho.1, hsteady ▸ ho.2⟩).1
    rw [hf, Option.some.injEq] at hfile
    dsimp only
    rw [hwatch, hfile]
    exact .refl snap
  · exact absurd ((horder ⟨ho.1, hsteady ▸ ho.2⟩).2 p hp) hnot
  · dsimp only at hs ⊢
    rw [hwatch, hutc]
    exact htimely (hsteady ▸ hs)

omit [DecidableEq ι] in
/-- A write has one result. -/
theorem FsWorld.results_of_ended {w : FsWorld K} {id j : Nat} {r r' : Except Str Unit}
    (h : (w.ended id r).results j = some r') : (j = id ∧ r = r') ∨ w.results j = some r' := by
  unfold FsWorld.ended at h
  by_cases hj : j = id
  · subst hj
    simp only [Function.update_self, Option.some.injEq] at h
    exact .inl ⟨rfl, h⟩
  · simp only [Function.update_of_ne hj] at h
    exact .inr h

omit [DecidableEq ι] in
/-- **A write lands**: in order it replaces the file by something as good as the published
snapshot, and no write that it has overtaken matters any more. -/
theorem FsInv.finished {w w' : FsWorld K} (hi : FsInv w) {id : Nat} {r : Except Str Unit}
    (h : fsTick (.finish id r) w = some w') : FsInv w' ∧ Idles w w' := by
  simp only [fsTick] at h
  split at h
  · cases h
  · rename_i p hfind
    have hp : p ∈ w.pending := List.mem_of_find?_eq_some hfind
    have hid : p.1 = id := by simpa using List.find?_some hfind
    have hsub : ∀ q ∈ w.pending.filter (·.1 ≠ id), q ∈ w.pending :=
      fun q hq => (List.mem_filter.mp hq).1
    have hgone : ∀ q ∈ w.pending.filter (·.1 ≠ id), q.1 ≠ id :=
      fun q hq => of_decide_eq_true (List.mem_filter.mp hq).2
    have hlt : id < w.started := hid ▸ hi.ids p (List.mem_append_left _ hp)
    cases r with
    | error e =>
      cases h
      refine ⟨⟨fun q hq => ?_, hi.newest, fun j r' hj => ?_, hi.file, fun ho q hq hnot => ?_,
        hi.timely⟩, ⟨rfl, rfl, fun hs => ⟨hs, Nat.le_refl _⟩, hsub, [], rfl,
          fun _ hq => by cases hq⟩⟩
      · rcases List.mem_append.mp hq with hq | hq
        · exact hi.ids q (List.mem_append_left _ (hsub q hq))
        · exact hi.ids q (List.mem_append_right _ hq)
      · rcases FsWorld.results_of_ended hj with ⟨rfl, rfl⟩ | hj
        · exact ⟨hlt, hgone, fun hr => by cases hr⟩
        · obtain ⟨hj₁, hj₂, hj₃⟩ := hi.results j r' hj
          exact ⟨hj₁, fun q hq => hj₂ q (hsub q hq), hj₃⟩
      · exact hi.pending ho q (hsub q hq) hnot
    | ok _ =>
      cases h
      refine ⟨⟨fun q hq => ?_, fun q hq => ?_, fun j r' hj => ?_, ⟨p.2, rfl, fun ho => ?_⟩,
        fun ho q hq hnot => ?_, hi.timely⟩,
        ⟨rfl, rfl, fun hs => ⟨hs, Nat.le_refl _⟩, hsub, [p], rfl, fun q hq => ?_⟩⟩
      · rcases List.mem_append.mp hq with hq | hq
        · exact hi.ids q (List.mem_append_left _ (hsub q hq))
        · rcases List.mem_cons.mp hq with rfl | hq
          · exact hi.ids q (List.mem_append_left _ hp)
          · exact hi.ids q (List.mem_append_right _ hq)
      · rw [List.head?_cons, Option.mem_some_iff] at hq
        rw [hq]
      · rcases FsWorld.results_of_ended hj with ⟨rfl, -⟩ | hj
        · exact ⟨hlt, hgone, fun _ => ⟨p, List.mem_cons_self, hid⟩⟩
        · obtain ⟨hj₁, hj₂, hj₃⟩ := hi.results j r' hj
          refine ⟨hj₁, fun q hq => hj₂ q (hsub q hq), fun hr => ?_⟩
          obtain ⟨q, hq, hqj⟩ := hj₃ hr
          exact ⟨q, List.mem_cons_of_mem _ hq, hqj⟩
      · -- in order: what has landed before was started before
        have horder := List.pairwise_cons.mp ho.1
        refine hi.pending ⟨horder.2, ho.2⟩ p hp fun ⟨q, hq, hlt⟩ => ?_
        exact absurd (horder.1 q hq) (Nat.not_lt.mpr (Nat.le_of_lt hlt))
      · have horder := List.pairwise_cons.mp ho.1
        refine hi.pending ⟨horder.2, ho.2⟩ q (hsub q hq) fun ⟨x, hx, hlt⟩ => ?_
        exact hnot ⟨x, List.mem_cons_of_mem _ hx, hlt⟩
      · rw [List.mem_singleton] at hq
        exact hq ▸ hp

/-- A permitted operation keeps the invariant. -/
theorem FsInv.exec {t : Nat} {o : FsOp K} {i : Input} {w w' : FsWorld K} {a : o.Ans}
    (hi : FsInv w) (hp : FsPermit o w) (he : fsExec t o i w = some (a, w')) : FsInv w' := by
  cases o with
  | spawnWrite snap =>
    cases he
    exact hi.spawned hp
  | joinWrite id =>
    obtain ⟨r, -, hr⟩ := Option.map_eq_some_iff.mp he
    cases hr
    exact hi
  | base o =>
    obtain ⟨⟨a', b⟩, hbase, hr⟩ := Option.map_eq_some_iff.mp he
    cases hr
    cases o with
    | newHandle _ => exact hp.elim
    | sendReplace h site snap =>
      obtain ⟨rfl, -, horder, htimely⟩ := hp
      simp only [Sbatch.exec] at hbase
      split at hbase
      · cases hbase
        exact hi.published (Function.update_self 0 snap w.base.watch) rfl rfl horder htimely
      · cases hbase
    | _ =>
      obtain ⟨hwatch, hutc, hsteady⟩ := exec_unpublished rfl hbase
      exact hi.base hwatch hutc hsteady

omit [DecidableEq ι] in
/-- A write lands at a tick, and the task that has started it may be gone. -/
theorem FsInv.tick {e : FsTick} {w w' : FsWorld K} (hi : FsInv w) (h : fsTick e w = some w') :
    FsInv w' ∧ Idles w w' := by
  cases e with
  | finish id r => exact hi.finished h
  | clocks e =>
    simp only [fsTick, Sbatch.tick, Option.map_some, Option.some.injEq] at h
    subst h
    have hback : ∀ {s : Bool}, (w.base.steady && s) = true → w.base.steady = true ∧ s = true :=
      fun h => Bool.and_eq_true_iff.mp h
    obtain ⟨f, hf, hcovers⟩ := hi.file
    refine ⟨⟨hi.ids, hi.newest, hi.results, ⟨f, hf, fun ho => hcovers ⟨ho.1, (hback ho.2).1⟩⟩,
      fun ho => hi.pending ⟨ho.1, (hback ho.2).1⟩, fun hs => ?_⟩,
      ⟨rfl, rfl, fun hs => ?_, fun _ hp => hp, [], rfl, fun _ hq => by cases hq⟩⟩
    · obtain ⟨hs, hle⟩ := hback hs
      exact (hi.timely hs).mono (of_decide_eq_true hle)
    · obtain ⟨hs, hle⟩ := hback hs
      exact ⟨hs, of_decide_eq_true hle⟩

variable (K) in
/-- The logic of a session over the file store. -/
def fsLogic : SoloLogic (fsMachine K) where
  inv := FsInv
  pre _ := FsPermit
  rely _ := Idles
  rely_refl _ := Idles.refl
  rely_trans := Idles.trans
  inv_exec := FsInv.exec
  inv_tick hi h := (hi.tick h).1
  rely_tick hi h := (hi.tick h).2

/-! ## 4. The calls

The programs of the calls are those of the handle, with each save replaced by a detached write and
the wait for it. -/

section Calls

variable {d : Dispatcher K} {t : Nat} {w : FsWorld K} {α : Type}

/-- The operation neither publishes nor saves. -/
def Op.records : Op K → Bool
  | .save _ => true
  | o => o.publishes

omit [DecidableEq ι] in
/-- A query neither saves nor publishes. -/
theorem records_of_onProbe (o : Op K) (ho : o.onProbe = true) : o.records = false := by
  cases o <;> trivial

omit [DecidableEq ι] in
/-- All other operations are what they were. -/
theorem fileSystem_eq {o : Op K} (ho : o.records = false) :
    fileSystem o = @Prog.op (fsSig K) (.base o) := by
  cases o <;> first | rfl | cases ho

/-- They start no write. -/
theorem fsExec_idles {o : Op K} {i : Input} {w' : FsWorld K} {a : o.Ans}
    (ho : o.records = false) (he : fsExec t (.base o) i w = some (a, w')) : Idles w w' := by
  obtain ⟨⟨a', b⟩, hbase, hr⟩ := Option.map_eq_some_iff.mp he
  cases hr
  have hpub : o.publishes = false := by cases o <;> trivial
  obtain ⟨hwatch, hutc, hsteady⟩ := exec_unpublished hpub hbase
  exact ⟨hwatch, rfl, fun hs => ⟨hsteady ▸ hs, Nat.le_of_eq hutc.symm⟩, fun _ hp => hp,
    [], rfl, fun _ hq => by cases hq⟩

/-- **The rule of a program that records nothing**: it leaves the published snapshot and the writes
alone. -/
theorem wp_unrecorded {p : Prog (sig K) α} (hp : p.Uses fun o : Op K => o.records = false) :
    (fsLogic K).wp t (p.lower fileSystem) (fun _ w' => Idles w w') w := by
  have huses : (p.lower fileSystem).Uses
      fun o : FsOp K => ∃ o' : Op K, o = .base o' ∧ o'.records = false := by
    refine Prog.uses_lower hp fun o ho => ?_
    rw [fileSystem_eq ho]
    exact Prog.uses_op ⟨o, rfl, ho⟩
  have hfree : (fsLogic K).wp t (p.lower fileSystem) (fun _ _ => True) w := by
    refine Context.wp_of_uses (fun {o w} ho _ => ?_) huses
    obtain ⟨o', rfl, ho'⟩ := ho
    cases o' <;> trivial
  refine Context.wp_mono (Context.wp_frame (F := Idles) Idles.trans (fun h => h) ?_ huses hfree
    (Idles.refl w)) fun _ _ h => h.2
  rintro o i w₁ a w₂ ⟨o', rfl, ho'⟩ - he
  exact fsExec_idles ho' he

/-- What a task knows of the write that it waits for, if it was the last to start one. -/
structure Awaits (id : Nat) (snap : SbatchJobSnapshot) (w : FsWorld K) : Prop where
  last : w.started = id + 1
  is_snap : ∀ p ∈ w.pending ++ w.landed, p.1 = id → p.2 = snap

omit [DecidableEq ι] in
/-- A task that waits for its write still waits for it. -/
theorem Awaits.idles {id : Nat} {snap : SbatchJobSnapshot} {w' : FsWorld K}
    (h : Awaits id snap w) (hidles : Idles w w') : Awaits id snap w' := by
  obtain ⟨new, hnew, hmem⟩ := hidles.landed
  refine ⟨hidles.started.trans h.last, fun p hp hid => h.is_snap p ?_ hid⟩
  rcases List.mem_append.mp hp with hp | hp
  · exact List.mem_append_left _ (hidles.pending p hp)
  · rw [hnew] at hp
    rcases List.mem_append.mp hp with hp | hp
    · exact List.mem_append_left _ (hmem p hp)
    · exact List.mem_append_right _ hp

omit [DecidableEq ι] in
/-- **The write has landed**, in order: the file holds its snapshot, and it has overtaken all that
still run. -/
theorem Awaits.landed {id : Nat} {snap : SbatchJobSnapshot} (h : Awaits id snap w) (hi : FsInv w)
    (hdone : w.results id = some (.ok ())) (ho : w.Orderly) :
    w.file = some snap ∧ ∀ p ∈ w.pending, w.Overtaken p.1 := by
  obtain ⟨-, hended, hok⟩ := hi.results id _ hdone
  obtain ⟨q, hq, hqid⟩ := hok rfl
  have hqsnap : q.2 = snap := h.is_snap q (List.mem_append_right _ hq) hqid
  constructor
  · cases hl : w.landed with
    | nil =>
      rw [hl] at hq
      cases hq
    | cons p rest =>
      -- no write has a greater number, so it is the newest landing
      have hp : p = q := by
        rw [hl] at hq
        rcases List.mem_cons.mp hq with rfl | hrest
        · rfl
        · have horder : (p :: rest).Pairwise fun p q => q.1 < p.1 := hl ▸ ho.1
          have hlt := (List.pairwise_cons.mp horder).1 q hrest
          have hbound := hi.ids p (List.mem_append_right _ (hl ▸ List.mem_cons_self))
          rw [h.last] at hbound
          omega
      rw [hi.newest p (by rw [hl]; rfl), hp, hqsnap]
  · intro p hp
    have hbound := hi.ids p (List.mem_append_left _ hp)
    have hne := hended p hp
    rw [h.last] at hbound
    exact ⟨q, hq, by omega⟩

/-- The rule of two programs, one after the other. -/
theorem wp_then {β : Type} {p : Prog (sig K) α} {f : α → Prog (sig K) β}
    {P : α → FsWorld K → Prop} {Q : β → FsWorld K → Prop}
    (hp : (fsLogic K).wp t (p.lower fileSystem) P w)
    (hf : ∀ a w', P a w' → (fsLogic K).wp t ((f a).lower fileSystem) Q w') :
    (fsLogic K).wp t ((p >>= f).lower fileSystem) Q w := by
  have heq := Prog.lower_bind (E := sig K) fileSystem p f
  exact heq ▸ Context.wp_seq hp hf

/-- The watch value is read as it is. -/
theorem wp_borrow_fs {h : Nat} : (fsLogic K).wp t ((borrow h).lower fileSystem)
    (fun snap w' => w' = w ∧ snap = w.base.watch h ∧ FsInv w) w := by
  refine Context.wp_sync rfl (fun _ => trivial) fun i a w' hi he _ => ?_
  cases he
  exact ⟨rfl, rfl, hi⟩

/-- The clock is read as it is. -/
theorem wp_utcNow_fs : (fsLogic K).wp t (utcNow.lower fileSystem)
    (fun now w' => w' = w ∧ now = w.base.utc ∧ FsInv w) w := by
  refine Context.wp_sync rfl (fun _ => trivial) fun i a w' hi he _ => ?_
  cases he
  exact ⟨rfl, rfl, hi⟩

/-- A save: the write has been started, and it has ended with the result. -/
theorem wp_save_fs {snap : SbatchJobSnapshot}
    (hcovers : w.Orderly → snap.Covers (w.base.watch 0)) :
    (fsLogic K).wp t ((save snap).lower fileSystem) (fun r w' => (∃ id, w'.results id = some r ∧
      Awaits id snap w') ∧ (w'.base.steady = true → w.base.steady = true ∧
        w.base.utc ≤ w'.base.utc)) w := by
  refine Context.wp_bind (Context.wp_sync rfl (fun _ => hcovers) fun i id w₁ hi he _ => ?_)
  cases he
  have hawaits : Awaits w.started snap
      { w with started := w.started + 1, pending := (w.started, snap) :: w.pending } := by
    refine ⟨rfl, fun p hp hid => ?_⟩
    rcases List.mem_cons.mp hp with rfl | hp
    · rfl
    · exact absurd hid (Nat.ne_of_lt (hi.ids p hp))
  refine Context.wp_await (fun _ _ _ => trivial) fun w₂ i r w' hidles _ he _ => ?_
  obtain ⟨r', hr, hw⟩ := Option.map_eq_some_iff.mp he
  cases hw
  exact ⟨⟨w.started, hr, hawaits.idles hidles⟩, hidles.steady⟩

/-- **The rule of a publication**, with its write and the wait for it. -/
theorem wp_saveAndPublish_fs {site : Site} {snap : SbatchJobSnapshot}
    (hcovers : w.Orderly → snap.Covers (w.base.watch 0))
    (htimely : w.base.steady = true → Timely w.base.utc snap) :
    (fsLogic K).wp t ((saveAndPublish 0 site snap).lower fileSystem)
      (fun r w' => ∀ s, r = .ok s → w'.base.watch 0 = s) w := by
  refine wp_then (wp_save_fs hcovers) ?_
  rintro r w₁ ⟨⟨id, hr, hawaits⟩, hsteady⟩
  cases r with
  | error e => exact fun s hs => by cases hs
  | ok _ =>
    refine wp_then (P := fun _ w' => w'.base.watch 0 = snap) ?_ fun _ w₂ hw₂ s hs => ?_
    · refine Context.wp_sync rfl (fun hi => ?_) fun i a w' _ he _ => ?_
      · obtain ⟨f, hf, -⟩ := hi.file
        refine ⟨rfl, by rw [hf]; rfl, hawaits.landed hi hr, fun hs => ?_⟩
        obtain ⟨hs, hle⟩ := hsteady hs
        exact (htimely hs).mono hle
      · obtain ⟨⟨a', b⟩, hbase, hw⟩ := Option.map_eq_some_iff.mp he
        cases hw
        simp only [Sbatch.exec] at hbase
        split at hbase <;> cases hbase
        exact Function.update_self 0 snap w₁.base.watch
    · cases hs
      exact hw₂

/-- **A `refresh` starts a write only of what is as good as the published snapshot.** -/
theorem wp_refresh_fs (hd : DispatchesOnly d) :
    (fsLogic K).wp t ((refresh d 0).lower fileSystem)
      (fun r w' => ∀ s, r = .ok s → w'.base.watch 0 = s) w := by
  unfold refresh
  refine wp_then (wp_unrecorded (Prog.uses_op rfl)) fun _ w₁ _ => wp_then wp_borrow_fs ?_
  rintro snap w₁ ⟨rfl, rfl, hi⟩
  refine wp_then wp_utcNow_fs ?_
  rintro now w₁ ⟨rfl, rfl, -⟩
  refine wp_then (P := fun r w' => ∀ s, r = .ok s → w'.base.watch 0 = s) ?_ fun r w₂ h₂ => ?_
  · rw [refreshLocked_eq]
    refine wp_then (wp_unrecorded (uses_observe hd records_of_onProbe _)) fun obs w₂ hidles => ?_
    cases obs with
    | error e => exact fun s hs => by cases hs
    | ok row =>
      refine wp_saveAndPublish_fs (fun ho => ?_) fun hs x hx => ?_
      · rw [hidles.watch]
        refine ⟨SbatchJobSnapshot.notOlder_iff.mpr fun x hx => ⟨w₁.base.utc, by simp, ?_⟩, ?_⟩
        · exact hi.timely (hidles.orderly ho).2 x hx
        · exact fun h => (SbatchJobSnapshot.observed_finished ..).symm ▸ h
      · rw [SbatchJobSnapshot.observed_lastObservedAt, Option.some.injEq] at hx
        exact hx ▸ (hidles.steady hs).2
  · refine wp_then (wp_unrecorded (Prog.uses_op rfl)) fun _ w₃ hidles s hs => ?_
    rw [hidles.watch]
    exact h₂ s hs

/-- **The finalizer too**, if it starts from the published snapshot and that has no outcome. -/
theorem wp_finalizer_fs (hd : DispatchesOnly d) {snap : SbatchJobSnapshot}
    (hwatch : w.base.watch 0 = snap) (hfinished : snap.lifecycle.finished = none) :
    (fsLogic K).wp t ((finalizer d 0 snap).lower fileSystem) (fun _ _ => True) w := by
  unfold finalizer
  refine wp_then (wp_unrecorded (Prog.uses_op rfl)) fun _ w₁ h₁ => ?_
  refine wp_then (P := fun _ _ => True) ?_ fun r w₂ _ => ?_
  · rw [finalizeLocked_eq]
    refine wp_then (wp_unrecorded (uses_resolve hd records_of_onProbe _)) fun res w₂ h₂ => ?_
    have hw₂ : w₂.base.watch 0 = snap := by rw [h₂.watch, h₁.watch, hwatch]
    cases res with
    | error e => trivial
    | ok outcome =>
      dsimp only
      split
      · trivial
      split
      · refine wp_then wp_utcNow_fs ?_
        rintro now w₃ ⟨rfl, rfl, hi⟩
        refine Context.wp_mono (wp_saveAndPublish_fs (fun ho => ?_) fun hs x hx => ?_)
          fun _ _ _ => trivial
        · rw [hw₂]
          refine ⟨SbatchJobSnapshot.notOlder_iff.mpr fun x hx => ⟨w₃.base.utc, rfl, ?_⟩, ?_⟩
          · exact hi.timely ho.2 x (hw₂ ▸ hx)
          · exact fun h => absurd h (by simp [hfinished])
        · cases hx
          exact Nat.le_refl _
      · refine wp_then wp_utcNow_fs ?_
        rintro now w₃ ⟨rfl, rfl, hi⟩
        refine Context.wp_mono (wp_saveAndPublish_fs (fun ho => ?_) fun hs x hx => ?_)
          fun _ _ _ => trivial
        · rw [hw₂]
          exact ⟨SbatchJobSnapshot.notOlder_iff.mpr fun x hx => ⟨x, hx, Nat.le_refl x⟩,
            fun _ => rfl⟩
        · exact hi.timely hs x (hw₂ ▸ hx)
  · exact Context.wp_mono (wp_then (wp_unrecorded (Prog.uses_op rfl))
      (Q := fun _ _ => True) fun _ w₃ _ => trivial) fun _ _ _ => trivial

/-- **The rule of a call.** -/
theorem wp_fsProgram (hd : DispatchesOnly d) (req : Request) (hreq : req.handle = 0) :
    (fsLogic K).wp t (req.fsProgram d) (fun _ _ => True) w := by
  unfold Request.fsProgram
  cases req with
  | refresh h =>
    obtain rfl : h = 0 := hreq
    exact Context.wp_mono (wp_refresh_fs hd) fun _ _ _ => trivial
  | refreshWithSacct h =>
    obtain rfl : h = 0 := hreq
    rw [Request.program, refreshWithSacct_eq]
    refine wp_then (wp_refresh_fs hd) fun r w₁ h₁ => ?_
    cases r with
    | error e => trivial
    | ok snap =>
      dsimp only
      split
      · rename_i hdue
        simp only [SbatchJobSnapshot.due, Bool.and_eq_true, Bool.not_eq_true',
          Option.isSome_eq_false_iff, Option.isNone_iff_eq_none] at hdue
        exact wp_finalizer_fs hd (h₁ snap rfl) hdue.1
      · trivial

end Calls

/-! ## 5. Sessions

Any calls of one client, each of which may be dropped at any await, while writes of earlier ones are
still on their way. -/

/-- **The file is never older than the published snapshot, if the writes land in order** and the
wall clock is not set back: after any session of calls on a handle, each of which may be dropped at
any await, and at whatever time the writes that were started land. -/
theorem file_covers_watch {d : Dispatcher K} (hd : DispatchesOnly d) {base : World K}
    (htimely : Timely base.utc (base.watch 0))
    {steps : List ((Request × List (Input ⊕ FsTick)) ⊕ FsTick)}
    (hone : ∀ req ms, .inl (req, ms) ∈ steps → req.handle = 0) {w : FsWorld K}
    (hsession : (fsMachine K).attempts 0 (Request.fsProgram d) steps (.start base) = some w)
    (horder : w.InOrder) (hclock : w.base.steady = true) :
    ∃ f, w.file = some f ∧ f.Covers (w.base.watch 0) := by
  have hstart : FsInv (FsWorld.start base) :=
    ⟨fun p hp => (by cases hp), fun p hp => (by cases hp), fun id r hr => (by cases hr),
      ⟨_, rfl, fun _ => .refl _⟩, fun _ p hp => (by cases hp), fun _ => htimely⟩
  have hinv : FsInv w := by
    refine (fsLogic K).attempts_inv (P := fun req : Request => req.handle = 0)
      (Q := fun _ _ => True) (fun t w hi => ?_) (fun req w hreq _ => wp_fsProgram hd req hreq)
      hone hstart hsession
    exact FsInv.base hi rfl rfl rfl
  obtain ⟨f, hf, hcovers⟩ := hinv.file
  exact ⟨f, hf, hcovers ⟨horder, hclock⟩⟩

/-! ### A dropped call and one that returns -/

def fsGoesOn (n : Nat) : List (Input ⊕ FsTick) := List.replicate n (.inl .go)

def fsAnswers (text : Str) : List (Input ⊕ FsTick) := [.inl (.output (.ok ⟨0, text, []⟩))]

/-- A `refresh` of a running job up to the start of its write. -/
def upToWrite : List (Input ⊕ FsTick) :=
  fsGoesOn 5 ++ fsAnswers "" ++ fsGoesOn 3 ++ fsAnswers "8 RUNNING None" ++ fsGoesOn 2

/-- A `refresh` at 0 is dropped while its write runs; one at 5 waits for its write and returns. -/
def twoRefreshes (betweenCalls : List ((Request × List (Input ⊕ FsTick)) ⊕ FsTick)) :
    List ((Request × List (Input ⊕ FsTick)) ⊕ FsTick) :=
  .inl (.refresh 0, upToWrite) :: betweenCalls ++
    [.inr (.clocks ⟨5, 5⟩),
     .inl (.refresh 0, upToWrite ++ [.inr (.finish 1 (.ok ()))] ++ fsGoesOn 3)]

def jobOnFile : FsWorld Key :=
  .start (World.start (.countFrom 0) 0 1 (fun _ => .submitted 1 8 none) [])

/-- When the file's snapshot was observed, and the published one. -/
def observedTimes (w : (fsMachine Key).World) : Option (Option Nat) × Option Nat :=
  (w.file.map (·.lifecycle.lastObservedAt), (w.base.watch 0).lifecycle.lastObservedAt)

/-- The writes that are still running, and whether the wall clock was never set back. -/
def unfinished (w : (fsMachine Key).World) : Nat × Bool := (w.pending.length, w.base.steady)

/-- Whether the writes have landed in order. -/
def landedInOrder : (fsMachine Key).World → Bool := fun w : FsWorld Key => decide w.InOrder

/-- The first refresh is given up, its write lands, and then the second one is made. -/
theorem file_covers_watch_in_order : ∃ w : FsWorld Key,
    (fsMachine Key).attempts 0 (Request.fsProgram runCommand)
      (twoRefreshes [.inr (.finish 0 (.ok ()))]) jobOnFile = some w ∧
    (w.base.watch 0).lifecycle.lastObservedAt = some 5 ∧
    ∃ f, w.file = some f ∧ f.Covers (w.base.watch 0) := by
  have hrun : ∃ w, (fsMachine Key).attempts 0 (Request.fsProgram runCommand)
      (twoRefreshes [.inr (.finish 0 (.ok ()))]) jobOnFile = some w ∧
      (observedTimes w = (some (some 5), some 5) ∧ unfinished w = (0, true) ∧
        landedInOrder w = true) := (fsMachine Key).exists_attempts (by decide +kernel)
  obtain ⟨w, hrun, htimes, hdone, horder⟩ := hrun
  have hinorder : ∀ w : FsWorld Key, landedInOrder w = true → w.InOrder :=
    fun _ h => of_decide_eq_true h
  refine ⟨w, hrun, congrArg Prod.snd htimes, file_covers_watch dispatchesOnly_runCommand
    (fun x hx => (by cases hx)) (fun req ms hmem => ?_) hrun (hinorder w horder)
    (congrArg Prod.snd hdone)⟩
  simp only [twoRefreshes, List.cons_append, List.nil_append, List.mem_cons, Sum.inl.injEq,
    Prod.mk.injEq, reduceCtorEq, false_or, List.not_mem_nil, or_false] at hmem
  rcases hmem with ⟨rfl, -⟩ | ⟨rfl, -⟩ <;> rfl

/-- **The write of the dropped call lands last**: every write has worked and ended, and the file is
older than the published snapshot. -/
theorem dropped_write_lands_last : ∃ w : FsWorld Key,
    (fsMachine Key).attempts 0 (Request.fsProgram runCommand)
      (twoRefreshes [] ++ [.inr (.finish 0 (.ok ()))]) jobOnFile = some w ∧
    w.pending = [] ∧ w.base.steady = true ∧
    (w.base.watch 0).lifecycle.lastObservedAt = some 5 ∧
    w.file.map (·.lifecycle.lastObservedAt) = some (some 0) := by
  have hrun : ∃ w, (fsMachine Key).attempts 0 (Request.fsProgram runCommand)
      (twoRefreshes [] ++ [.inr (.finish 0 (.ok ()))]) jobOnFile = some w ∧
      (observedTimes w = (some (some 0), some 5) ∧ unfinished w = (0, true)) :=
    (fsMachine Key).exists_attempts (by decide +kernel)
  obtain ⟨w, hrun, htimes, hdone⟩ := hrun
  exact ⟨w, hrun, List.length_eq_zero_iff.mp (congrArg Prod.fst hdone), congrArg Prod.snd hdone,
    congrArg Prod.snd htimes, congrArg Prod.fst htimes⟩

end Sbatch

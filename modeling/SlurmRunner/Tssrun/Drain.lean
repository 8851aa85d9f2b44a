/-
# The drain of a tssrun job

`wait` of a handle that owns its child first joins the two tasks that read the child's output, and
then the task that waits for the child.  So when it returns, every line has gone to the sink, the
banners among them are in the snapshot, and the exit code that it returns is in the snapshot too.
The two readers share the snapshot, where the first banner wins, and which of two banners on two
streams is the first, only the run can tell.
-/
import SlurmRunner.Tssrun.Tee

namespace Tssrun

open Text Interact

/-! ## 1. The join handles

A spawned handle has the join handles of its three tasks, and a call of `wait` takes them.  A join
waits until its task has come to the end. -/

inductive DrainOp where
  | base (o : Op)
  /-- `self.wait_handle.take()`: whether it was there. -/
  | takeWait
  /-- `self.tee_stdout_handle.take()`, or that of stderr: whether it was there. -/
  | takeTee (kind : LogStream)
  /-- `.await` of the handle of a tee task. -/
  | joinTee (kind : LogStream)
  /-- `.await` of the handle of the wait task. -/
  | joinWait
  /-- A tee task has come to its end. -/
  | endTee (kind : LogStream)
  /-- The wait task has come to its end. -/
  | endWait (r : Except Str (Option Int))

def DrainOp.Ans : DrainOp → Type
  | .base o => o.Ans
  | .takeWait => Bool
  | .takeTee _ => Bool
  | .joinTee _ => Unit
  | .joinWait => Except Str (Option Int)
  | .endTee _ => Unit
  | .endWait _ => Unit

def drainSig : Sig := ⟨DrainOp, DrainOp.Ans⟩

/-- The world of a handle with its child. -/
structure DrainWorld where
  base : World
  /-- How the child has ended. -/
  child : Option (Except Str (Option Int))
  /-- The call that has taken the handle of the wait task. -/
  taker : Option Nat
  /-- The handle of the tee task is still there. -/
  teeHandle : LogStream → Bool
  teeEnded : LogStream → Bool
  /-- What the wait task has returned. -/
  waitEnded : Option (Except Str (Option Int))

/-- `from_spawn` after its first save, which a handle without a store does not make. -/
def DrainWorld.spawned (init : TssrunJobSnapshot) (first : Option (Except Str Unit)) :
    DrainWorld where
  base := match first with
    | some r => World.started init r
    | none => { World.spawned init with stored := none }
  child := none
  taker := none
  teeHandle _ := true
  teeEnded _ := false
  waitEnded := none

/-- How the child has ended, after operation `o`. -/
def childAfter (o : Op) (i : Input) (child : Option (Except Str (Option Int))) :
    Option (Except Str (Option Int)) :=
  match o, i with
  | .childWait, .exited r => some r
  | _, _ => child

def drainExec (t : Nat) : (o : DrainOp) → Input → DrainWorld → Option (o.Ans × DrainWorld)
  | .base o, i, w => (exec t o i w.base).map fun r =>
    (r.1, { w with base := r.2, child := childAfter o i w.child })
  | .takeWait, _, w =>
    if w.taker.isNone then some (true, { w with taker := some t }) else some (false, w)
  | .takeTee kind, _, w =>
    some (w.teeHandle kind, { w with teeHandle := Function.update w.teeHandle kind false })
  | .joinTee kind, _, w => if w.teeEnded kind then some ((), w) else none
  | .joinWait, _, w => w.waitEnded.map fun r => (r, w)
  | .endTee kind, _, w => some ((), { w with teeEnded := Function.update w.teeEnded kind true })
  | .endWait r, _, w => some ((), { w with waitEnded := some r })

def drainMachine : Machine drainSig where
  World := DrainWorld
  In := Input
  go := .go
  Env := Unit
  await _ := true
  exec := drainExec
  tick _ w := some w
  drop _ w := w

def drainOp (o : DrainOp) : Prog drainSig o.Ans := @Prog.op drainSig o

/-- An operation of a task of the handle; without a store there is nothing to save. -/
def handled (store : Bool) : (o : Op) → Prog drainSig o.Ans
  | .save snap => if store then drainOp (.base (.save snap)) else .ret (.ok ())
  | o => drainOp (.base o)

/-! ## 2. The tasks and the calls

The spawn starts the two tee tasks, which read the output, and the wait task.  Any number of tasks
may call `wait`. -/

inductive TssrunWaitError where
  | notOwner
  | other (e : Str)
deriving DecidableEq, Repr

abbrev WaitResult : Type := Except TssrunWaitError (Option Int)

/-- `if let Some(t) = self.tee_stdout_handle.take() { let _ = t.await; }`, or that of stderr. -/
def drainTee (kind : LogStream) : Prog drainSig Unit := do
  match ← drainOp (.takeTee kind) with
  | true => drainOp (.joinTee kind)
  | false => return ()

/-- `TssrunJobHandle::wait`. -/
def wait : Prog drainSig WaitResult := do
  match ← drainOp .takeWait with
  | false => return .error .notOwner
  | true =>
    drainTee .stdout
    drainTee .stderr
    let inner ← drainOp .joinWait
    return inner.mapError .other

/-- The number of the task that reads a stream. -/
def LogStream.task : LogStream → Nat
  | .stdout => 0
  | .stderr => 1

/-- The spawned task of `tee_stdout` or `tee_stderr`. -/
def teeTask (store : Bool) (kind : LogStream) (bytes : List UInt8) :
    Prog drainSig (Option WaitResult) := do
  (teeStream kind bytes).lower (handled store)
  drainOp (.endTee kind)
  return none

/-- The spawned task that waits for the child. -/
def exitTask (store : Bool) : Prog drainSig (Option WaitResult) := do
  let r ← waitTask.lower (handled store)
  drainOp (.endWait r)
  return none

/-- The owner's call of `wait`. -/
def waitCall : Prog drainSig (Option WaitResult) := do
  let r ← wait
  return some r

/-- A handle whose child writes these bytes, with its three tasks and any calls of `wait`. -/
def drained (init : TssrunJobSnapshot) (first : Option (Except Str Unit))
    (bytes : LogStream → List UInt8) (waits : Nat → Bool) :
    Config drainMachine (Option WaitResult) :=
  ⟨DrainWorld.spawned init first, fun
    | 0 => some (teeTask first.isSome .stdout (bytes .stdout))
    | 1 => some (teeTask first.isSome .stderr (bytes .stderr))
    | 2 => some (exitTask first.isSome)
    | t + 3 => if waits t then some waitCall else none⟩

/-- The snapshot with which `TssrunManager::spawn_with` calls `from_spawn`. -/
def TssrunJobSnapshot.atSpawn (uuid : Nat) (pid : UInt32) (argv : List Str)
    (sentEnv : List (Str × Str)) (cwd : Option Str) (startedAtUnix : Int) : TssrunJobSnapshot where
  uuid := uuid
  pid := pid
  argv := argv
  sentEnv := sentEnv
  cwd := cwd
  startedAtUnix := startedAtUnix
  logLocations := .none
  jobid := none
  node := none
  finished := none

/-! ## 3. Which task asks what

`Asks` tells which operations a task may ask for: a tee task those of its own stream, the wait task
those about the child, and a caller those of the join handles. -/

/-- Task `t` makes such an operation. -/
def Asks (t : Nat) : DrainOp → Prop
  | .base (.append kind _) => t = kind.task
  | .base (.setJobid _) | .base (.setNode _) => ∃ kind : LogStream, t = kind.task
  | .base .childWait | .base (.setFinished _) | .endWait _ => t = 2
  -- nobody calls `refresh`
  | .base (.sendReplace _) => False
  | .endTee kind => t = kind.task
  | .takeWait | .takeTee _ | .joinTee _ | .joinWait => 3 ≤ t
  | .base _ => True

theorem drainOp_uses {P : DrainOp → Prop} {o : DrainOp} (h : P o) : (drainOp o).Uses P :=
  Prog.uses_op (E := drainSig) h

theorem handled_uses {store : Bool} {P : DrainOp → Prop} {o : Op} (h : P (.base o)) :
    (handled store o).Uses P := by
  cases o with
  | save snap =>
    cases store with
    | true => exact drainOp_uses h
    | false => exact Prog.uses_ret _
  | _ => exact drainOp_uses h

theorem persistWarn_uses {P : Op → Prop} {snap : TssrunJobSnapshot} (h : P (.save snap)) :
    (persistWarn snap).Uses P :=
  Prog.uses_bind (Prog.uses_op h) fun _ => Prog.uses_ret _

/-- What a reader does with a line is its own business. -/
theorem teeLine_uses (kind : LogStream) (line : Str) :
    (teeLine kind line).Uses fun o => Asks kind.task (.base o) := by
  refine Prog.uses_bind (Prog.uses_op rfl) fun _ => Prog.uses_bind ?_ fun jobidUpdated =>
    Prog.uses_bind ?_ fun nodeUpdated => ?_
  · unfold updateJobid
    split
    · exact Prog.uses_op ⟨kind, rfl⟩
    · exact Prog.uses_ret _
  · unfold updateNode
    split
    · exact Prog.uses_op ⟨kind, rfl⟩
    · exact Prog.uses_ret _
  · split
    · exact Prog.uses_bind (Prog.uses_op trivial) fun snap => persistWarn_uses trivial
    · exact Prog.uses_ret _

theorem teeLines_uses (kind : LogStream) (stream : List Str) :
    (teeLines kind stream).Uses fun o => Asks kind.task (.base o) := by
  induction stream with
  | nil => exact Prog.uses_op trivial
  | cons line rest ih =>
    exact Prog.uses_bind (Prog.uses_op trivial) fun _ =>
      Prog.uses_bind (teeLine_uses kind line) fun _ => ih

theorem waitTask_uses : waitTask.Uses fun o => Asks 2 (.base o) := by
  refine Prog.uses_bind (Prog.uses_op rfl) fun r => ?_
  rcases r with e | code
  · exact Prog.uses_ret _
  · refine Prog.uses_bind (Prog.uses_op trivial) fun unix => ?_
    refine Prog.uses_bind (Prog.uses_op rfl) fun _ => ?_
    refine Prog.uses_bind (Prog.uses_op trivial) fun snap => ?_
    refine Prog.uses_bind (persistWarn_uses trivial) fun _ => ?_
    exact Prog.uses_bind (Prog.uses_op trivial) fun _ => Prog.uses_ret _

theorem teeStream_uses (store : Bool) (kind : LogStream) (bytes : List UInt8) :
    ((teeStream kind bytes).lower (handled store)).Uses fun o : DrainOp =>
      Asks kind.task o ∧ ∀ k, o ≠ .endTee k := by
  rw [teeStream, teeReads_eq]
  exact Prog.uses_lower (teeLines_uses kind _) fun o ho =>
    handled_uses ⟨ho, fun k h => by cases h⟩

theorem drainTee_uses {t : Nat} (ht : 3 ≤ t) (kind : LogStream) :
    (drainTee kind).Uses (Asks t) := by
  refine Prog.uses_bind (drainOp_uses ht) fun found => ?_
  cases found with
  | true => exact drainOp_uses ht
  | false => exact Prog.uses_ret _

/-- A caller asks for join handles only. -/
theorem wait_uses {t : Nat} (ht : 3 ≤ t) : wait.Uses (Asks t) := by
  refine Prog.uses_bind (drainOp_uses ht) fun found => ?_
  cases found with
  | false => exact Prog.uses_ret _
  | true =>
    exact Prog.uses_bind (drainTee_uses ht _) fun _ => Prog.uses_bind (drainTee_uses ht _) fun _ =>
      Prog.uses_bind (drainOp_uses ht) fun _ => Prog.uses_ret _

section

variable {init : TssrunJobSnapshot} {first : Option (Except Str Unit)}
  {bytes : LogStream → List UInt8} {waits : Nat → Bool}

/-- The tee task of each stream. -/
theorem tasks_reader (kind : LogStream) : (drained init first bytes waits).tasks kind.task =
    some (teeTask first.isSome kind (bytes kind)) := by
  cases kind <;> rfl

/-- All other tasks are callers. -/
theorem eq_waitCall {t : Nat} {p : Prog drainSig (Option WaitResult)}
    (h : (drained init first bytes waits).tasks (t + 3) = some p) : p = waitCall := by
  change (if waits t then some waitCall else none) = some p at h
  split at h
  · exact (Option.some.inj h).symm
  · cases h

/-- Every task of a handle keeps to its own operations. -/
theorem drained_uses :
    ∀ t p, (drained init first bytes waits).tasks t = some p → p.Uses (Asks t) := by
  have hreader : ∀ kind, (teeTask first.isSome kind (bytes kind)).Uses (Asks kind.task) := by
    intro kind
    exact Prog.uses_bind ((teeStream_uses _ kind _).mono fun _ h => h.1) fun _ =>
      Prog.uses_bind (drainOp_uses rfl) fun _ => Prog.uses_ret _
  intro t p hp
  match t, hp with
  | 0, hp => exact Option.some.inj hp ▸ hreader .stdout
  | 1, hp => exact Option.some.inj hp ▸ hreader .stderr
  | 2, hp =>
    exact Option.some.inj hp ▸ Prog.uses_bind
      (Prog.uses_lower waitTask_uses fun o ho => handled_uses ho)
      fun _ => Prog.uses_bind (drainOp_uses rfl) fun _ => Prog.uses_ret _
  | t + 3, hp =>
    exact eq_waitCall hp ▸ Prog.uses_bind (wait_uses (Nat.le_add_left 3 t)) fun _ => Prog.uses_ret _

end

end Tssrun

/-
# The tasks of a tssrun job

A spawned `TssrunJobHandle` is kept up to date by three tasks: one reads the lines of stdout, one
those of stderr, and one waits for the child.  They share the watch channel and the state store with
the callers of `refresh` and `wait_terminal`, which publish what the store has.  The tasks run on
several threads, so one may be overtaken by the others between any two of its steps.
-/
import SlurmRunner.Interact.Logic
import SlurmRunner.Text.Number

namespace Tssrun

open Text Interact

/-! ## 1. Snapshots -/

inductive LogLocations where
  | none
  | files (stdout stderr : Str)
deriving DecidableEq, Repr

/-- Recorded once the child exits. -/
structure FinishedInfo where
  exitCode : Option Int
  finishedAtUnix : Int
deriving DecidableEq, Repr

structure TssrunJobSnapshot where
  uuid : Nat
  pid : UInt32
  argv : List Str
  sentEnv : List (Str × Str)
  cwd : Option Str
  startedAtUnix : Int
  logLocations : LogLocations
  jobid : Option UInt64
  node : Option Str
  finished : Option FinishedInfo
deriving DecidableEq, Repr

/-! ## 2. The salloc lines -/

/-- `salloc: Granted job allocation N`. -/
def parseSallocJobid (line : Str) : Option UInt64 :=
  (stripStart "salloc: Granted job allocation " line).bind fun s => parseU64 (trim s)

/-- `salloc: Nodes <spec> are ready for job`; the spec is kept as it is. -/
def parseSallocNode (line : Str) : Option Str := do
  let rest ← stripStart "salloc: Nodes " line
  let (node, _) ← splitOnceStr " are ready for job" rest
  some node

/-! ## 3. The world of one handle -/

inductive LogStream where
  | stdout
  | stderr
deriving DecidableEq, Repr

/-- Record of a save that has landed: the clone that it wrote, the watch value at that time, and the
other tasks that have an update of the watch value still to save. -/
structure Landing where
  tid : Nat
  snap : TssrunJobSnapshot
  watch : TssrunJobSnapshot
  others : List Nat
  result : Except Str Unit
deriving DecidableEq

/-- Record of a `send_replace`: the snapshot that was published, and the watch value before. -/
structure Replacement where
  loaded : TssrunJobSnapshot
  watch : TssrunJobSnapshot
deriving DecidableEq

structure World where
  watch : TssrunJobSnapshot
  /-- What the store has under the uuid. -/
  stored : Option TssrunJobSnapshot
  /-- The tasks that have updated the watch value and not yet saved. -/
  pending : List Nat
  landings : List Landing
  replacements : List Replacement

/-- The world after `from_spawn` has saved the first snapshot. -/
def World.spawned (init : TssrunJobSnapshot) : World := ⟨init, some init, [], [], []⟩

/-- The world after `from_spawn` has tried to save the first snapshot. -/
def World.started (init : TssrunJobSnapshot) (first : Except Str Unit) : World :=
  { World.spawned init with
    stored := match first with
      | .ok () => some init
      | .error _ => none }

inductive Op where
  /-- `lines.next_line().await`: the reader has a line, or is at its end. -/
  | nextLine
  | append (stream : LogStream) (line : Str)
  | setJobid (jid : UInt64)
  | setNode (node : Str)
  | setFinished (info : FinishedInfo)
  | borrow
  | save (snap : TssrunJobSnapshot)
  /-- `child.wait().await`: the exit code, none after a signal. -/
  | childWait
  | nowUnix
  | flush
  /-- `store.load(uuid).await`. -/
  | load
  | sendReplace (snap : TssrunJobSnapshot)
  | sleep

def Op.Ans : Op → Type
  | .nextLine => Unit
  | .append _ _ => Except Str Unit
  | .setJobid _ => Bool
  | .setNode _ => Bool
  | .setFinished _ => Unit
  | .borrow => TssrunJobSnapshot
  | .save _ => Except Str Unit
  | .childWait => Except Str (Option Int)
  | .nowUnix => Int
  | .flush => Except Str Unit
  | .load => Except Str (Option TssrunJobSnapshot)
  | .sendReplace _ => Unit
  | .sleep => Unit

def sig : Sig := ⟨Op, Op.Ans⟩

inductive Input where
  | go
  | done (r : Except Str Unit)
  | exited (r : Except Str (Option Int))
  | clock (unix : Int)

/-- Task `t` has changed the watch value. -/
def World.update (w : World) (t : Nat) (snap : TssrunJobSnapshot) : World :=
  { w with watch := snap, pending := t :: w.pending }

/-- A save of task `t` has landed. -/
def World.landed (w : World) (t : Nat) (snap : TssrunJobSnapshot) (r : Except Str Unit) : World :=
  { w with
    stored := match r with
      | .ok () => some snap
      | .error _ => w.stored
    pending := w.pending.filter (· ≠ t)
    landings := ⟨t, snap, w.watch, w.pending.filter (· ≠ t), r⟩ :: w.landings }

/-- The watch value is replaced. -/
def World.replaced (w : World) (snap : TssrunJobSnapshot) : World :=
  { w with watch := snap, replacements := ⟨snap, w.watch⟩ :: w.replacements }

def exec (t : Nat) : (o : Op) → Input → World → Option (o.Ans × World)
  | .nextLine, _, w => some ((), w)
  | .append _ _, .done r, w => some (r, w)
  | .setJobid jid, _, w =>
    if w.watch.jobid.isNone then some (true, w.update t { w.watch with jobid := some jid })
    else some (false, w)
  | .setNode node, _, w =>
    if w.watch.node.isNone then some (true, w.update t { w.watch with node := some node })
    else some (false, w)
  | .setFinished info, _, w => some ((), w.update t { w.watch with finished := some info })
  | .borrow, _, w => some (w.watch, w)
  | .save snap, .done r, w => some (r, w.landed t snap r)
  | .childWait, .exited r, w => some (r, w)
  | .nowUnix, .clock unix, w => some (unix, w)
  | .flush, .done r, w => some (r, w)
  | .load, .done r, w => some (r.map fun _ => w.stored, w)
  | .sendReplace snap, _, w => some ((), w.replaced snap)
  | .sleep, _, w => some ((), w)
  | _, _, _ => none

def machine : Machine sig where
  World := World
  In := Input
  go := .go
  Env := Unit
  await _ := true
  exec := exec
  tick _ w := some w
  drop _ w := w

def perform (o : Op) : Prog sig o.Ans := @Prog.op sig o

def nextLine : Prog sig Unit := perform .nextLine

def append (stream : LogStream) (line : Str) : Prog sig (Except Str Unit) :=
  perform (.append stream line)

def setJobid (jid : UInt64) : Prog sig Bool := perform (.setJobid jid)

def setNode (node : Str) : Prog sig Bool := perform (.setNode node)

def setFinished (info : FinishedInfo) : Prog sig Unit := perform (.setFinished info)

def borrow : Prog sig TssrunJobSnapshot := perform .borrow

def save (snap : TssrunJobSnapshot) : Prog sig (Except Str Unit) := perform (.save snap)

def childWait : Prog sig (Except Str (Option Int)) := perform .childWait

def nowUnix : Prog sig Int := perform .nowUnix

def flush : Prog sig (Except Str Unit) := perform .flush

def load : Prog sig (Except Str (Option TssrunJobSnapshot)) := perform .load

def sendReplace (snap : TssrunJobSnapshot) : Prog sig Unit := perform (.sendReplace snap)

def sleep : Prog sig Unit := perform .sleep

/-! ## 4. The tasks -/

/-- `persist_warn`: a failed save is only logged. -/
def persistWarn (snap : TssrunJobSnapshot) : Prog sig Unit := do
  let _ ← save snap
  return ()

/-- The first job id is kept; the result says whether this line had it. -/
def updateJobid (line : Str) : Prog sig Bool :=
  match parseSallocJobid line with
  | some jid => setJobid jid
  | none => pure false

/-- The first node spec is kept. -/
def updateNode (line : Str) : Prog sig Bool :=
  match parseSallocNode line with
  | some node => setNode node
  | none => pure false

/-- What `tee_lines` does with one line. -/
def teeLine (kind : LogStream) (line : Str) : Prog sig Unit := do
  let _ ← append kind line
  let jobidUpdated ← updateJobid line
  let nodeUpdated ← updateNode line
  if jobidUpdated || nodeUpdated then
    let snap ← borrow
    persistWarn snap

/-- `tee_lines` on a stream of these lines; at its end, and at a read error, it stops. -/
def teeLines (kind : LogStream) : List Str → Prog sig Unit
  | [] => nextLine
  | line :: rest => do
    nextLine
    teeLine kind line
    teeLines kind rest

/-- The wait task of `from_spawn`. -/
def waitTask : Prog sig (Except Str (Option Int)) := do
  match ← childWait with
  | .error e => return .error e
  | .ok code =>
    let unix ← nowUnix
    setFinished ⟨code, unix⟩
    let snap ← borrow
    persistWarn snap
    let _ ← flush
    return .ok code

/-- The three tasks of a handle, after the first snapshot was saved. -/
def spawned (init : TssrunJobSnapshot) (stdout stderr : List Str) : Config machine Unit :=
  ⟨World.spawned init, fun
    | 0 => some (teeLines .stdout stdout)
    | 1 => some (teeLines .stderr stderr)
    | 2 => some (do
        let _ ← waitTask
        return ())
    | _ => none⟩

/-! ## 5. The calls -/

inductive TssrunRefreshError where
  | notFound (uuid : Nat)
  | store (e : Str)
deriving DecidableEq, Repr

/-- `TssrunJobHandle::refresh` of a handle with a store. -/
def refresh : Prog sig (Except TssrunRefreshError TssrunJobSnapshot) := do
  let current ← borrow
  match ← load with
  | .error e => return .error (.store e)
  | .ok none => return .error (.notFound current.uuid)
  | .ok (some snap) =>
    sendReplace snap
    return .ok snap

/-- `TssrunJobHandle::wait_terminal`, for so many rounds; `none` when it still polls then. -/
def waitTerminal : Nat → Prog sig (Option (Except TssrunRefreshError TssrunJobSnapshot))
  | 0 => return none
  | rounds + 1 => do
    match ← refresh with
    | .error e => return some (.error e)
    | .ok snap =>
      if snap.finished.isSome then
        return some (.ok snap)
      else
        sleep
        waitTerminal rounds

/-- A task of the owner's that calls the handle. -/
inductive Caller where
  | refresh
  | waitTerminal (rounds : Nat)
deriving DecidableEq, Repr

def Caller.program : Caller → Prog sig Unit
  | .refresh => do
    let _ ← Tssrun.refresh
    return ()
  | .waitTerminal rounds => do
    let _ ← Tssrun.waitTerminal rounds
    return ()

/-- A handle with its three tasks and any callers, after the first save has ended as `first`. -/
def owned (init : TssrunJobSnapshot) (first : Except Str Unit) (stdout stderr : List Str)
    (callers : Nat → Option Caller) : Config machine Unit :=
  ⟨World.started init first, fun
    | 0 => some (teeLines .stdout stdout)
    | 1 => some (teeLines .stderr stderr)
    | 2 => some (do
        let _ ← waitTask
        return ())
    | t + 3 => (callers t).map Caller.program⟩

/-! ## 6. Rules for the tasks -/

/-- A logic for the programs of a handle, whatever machine carries them out. -/
structure TaskLogic (W : Type) where
  proves : {α : Type} → Prog sig α → (α → W → Prop) → W → Prop
  ret : ∀ {α : Type} {a : α} {Q : α → W → Prop} {w : W}, Q a w → proves (.ret a) Q w
  seq : ∀ {α β : Type} {p : Prog sig α} {f : α → Prog sig β} {P : α → W → Prop}
    {Q : β → W → Prop} {w : W}, proves p P w → (∀ a w', P a w' → proves (f a) Q w') →
      proves (p >>= f) Q w

/-- The weakest preconditions of task `t`. -/
def TaskLogic.ofContext (C : Context machine) (t : Nat) : TaskLogic World where
  proves := C.wp t
  ret h := h
  seq := Context.wp_seq

namespace TaskLogic

variable {W : Type} (L : TaskLogic W) {w : W}

/-- One line: `R b` is what is known when there is an update to save exactly if `b`. -/
theorem teeLine {R : Bool → W → Prop} {kind : LogStream} {line : Str}
    (happend : ∀ w, R false w → L.proves (append kind line) (fun _ w' => R false w') w)
    (hjobid : ∀ jid, parseSallocJobid line = some jid → ∀ w, R false w →
      L.proves (setJobid jid) (fun b w' => R b w') w)
    (hnode : ∀ node, parseSallocNode line = some node → ∀ b w, R b w →
      L.proves (setNode node) (fun b' w' => R (b || b') w') w)
    (hsave : ∀ w, R true w →
      L.proves (do let snap ← borrow; persistWarn snap) (fun _ w' => R false w') w)
    (h : R false w) : L.proves (Tssrun.teeLine kind line) (fun _ w' => R false w') w := by
  unfold Tssrun.teeLine
  refine L.seq (happend w h) fun _ w₁ h₁ => ?_
  refine L.seq (P := fun b w' => R b w') ?_ fun b w₂ h₂ => ?_
  · unfold updateJobid
    cases hj : parseSallocJobid line with
    | none => exact L.ret h₁
    | some jid => exact hjobid jid hj w₁ h₁
  refine L.seq (P := fun b' w' => R (b || b') w') ?_ fun b' w₃ h₃ => ?_
  · unfold updateNode
    cases hn : parseSallocNode line with
    | none => exact L.ret ((Bool.or_false b).symm ▸ h₂)
    | some node => exact hnode node hn b w₂ h₂
  cases hb : b || b' with
  | false => exact L.ret (hb ▸ h₃)
  | true => exact hsave w₃ (hb ▸ h₃)

/-- A tee task, by induction on its lines. -/
theorem teeLines {R : W → Prop} {kind : LogStream} {stream : List Str}
    (hnext : ∀ w, R w → L.proves nextLine (fun _ w' => R w') w)
    (hline : ∀ line ∈ stream, ∀ w, R w →
      L.proves (Tssrun.teeLine kind line) (fun _ w' => R w') w)
    (h : R w) : L.proves (Tssrun.teeLines kind stream) (fun _ w' => R w') w := by
  induction stream generalizing w with
  | nil => exact hnext w h
  | cons line rest ih =>
    refine L.seq (hnext w h) fun _ w₁ h₁ => ?_
    refine L.seq (hline line List.mem_cons_self w₁ h₁) fun _ w₂ h₂ => ?_
    exact ih (fun l hl => hline l (List.mem_cons_of_mem _ hl)) h₂

/-- The wait task: `X` is known when the child has exited, `Y` when the exit was set, and `Z` when
it was saved. -/
theorem waitTask {R : W → Prop} {X : Except Str (Option Int) → W → Prop}
    {Y : Option Int → W → Prop} {Z : Except Str (Option Int) → W → Prop}
    (hwait : ∀ w, R w → L.proves childWait X w)
    (herror : ∀ e w, X (.error e) w → Z (.error e) w)
    (hclock : ∀ code w, X (.ok code) w → L.proves nowUnix (fun _ w' => X (.ok code) w') w)
    (hset : ∀ code unix w, X (.ok code) w →
      L.proves (setFinished ⟨code, unix⟩) (fun _ w' => Y code w') w)
    (hsave : ∀ code w, Y code w →
      L.proves (do let snap ← borrow; persistWarn snap) (fun _ w' => Z (.ok code) w') w)
    (hflush : ∀ code w, Z (.ok code) w → L.proves flush (fun _ w' => Z (.ok code) w') w)
    (h : R w) : L.proves Tssrun.waitTask Z w := by
  unfold Tssrun.waitTask
  refine L.seq (hwait w h) fun r w₁ h₁ => ?_
  cases r with
  | error e => exact L.ret (herror e w₁ h₁)
  | ok code =>
    refine L.seq (hclock code w₁ h₁) fun unix w₂ h₂ => ?_
    refine L.seq (hset code unix w₂ h₂) fun _ w₃ h₃ => ?_
    have hsaved := hsave code w₃ h₃
    change L.proves ((borrow >>= persistWarn) >>= fun _ => flush >>= fun _ => pure (.ok code)) Z w₃
    refine L.seq hsaved fun _ w₄ h₄ => ?_
    exact L.seq (hflush code w₄ h₄) fun _ w₅ h₅ => L.ret h₅

end TaskLogic

end Tssrun

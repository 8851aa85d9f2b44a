/-
# The tssrun manager

`TssrunManager` spawns jobs and attaches to stored ones.  Every handle has its own watch channel, a
spawned one also has its three tasks, and all of them share one in-memory store.  The store holds
the snapshots of an earlier program too, and a handle may be attached to any of them, or to a file
that need not come from a manager at all.

The tasks and the calls of a single handle are those of `Tssrun.Handle` and `Tssrun.Drain`: an
operation of handle `h` is carried out on its own part of the world, in which the store is seen at
the uuid of that handle.
-/
import SlurmRunner.Interact.Supply
import SlurmRunner.StateStore.AttachFile
import SlurmRunner.Tssrun.Cmd
import SlurmRunner.Tssrun.DrainHistory

namespace Tssrun

open Text Interact
open StateStore (AttachKey)

/-! ## 1. The world of a manager

The handles that were made, each with its job, and the store that they share. -/

/-- A child that was started, and which of its streams are piped. -/
structure SpawnedChild where
  pid : UInt32
  stdout : Bool
  stderr : Bool
deriving DecidableEq, Repr

structure ManagerWorld where
  /-- The number of handles made so far. -/
  handles : Nat
  job : Nat → DrainWorld
  /-- The tasks of the handle have been spawned. -/
  running : Nat → Bool
  /-- `InMemoryStateStore`: one snapshot for each uuid. -/
  store : List TssrunJobSnapshot
  /-- What `Uuid::now_v7()` gives, call after call. -/
  uuids : Supply Nat
  /-- How many uuids have been drawn. -/
  drawn : Nat
  /-- Record: who has drawn a uuid. -/
  drawer : Nat → Option Nat
  /-- Record: the snapshot that a handle was made with. -/
  initial : Nat → TssrunJobSnapshot
  /-- Record: the handle was made by a spawn. -/
  owned : Nat → Bool

inductive ManagerOp where
  /-- An operation on handle `h`. -/
  | on (h : Nat) (o : DrainOp)
  /-- `dispatcher.spawn(…).await`. -/
  | spawnChild (argv : List Str) (env : List (Str × Str)) (cwd : Option Str)
  /-- `Uuid::now_v7()`. -/
  | uuidNow
  | nowUnix
  /-- `watch::channel(init)` in `from_spawn`. -/
  | newJob (init : TssrunJobSnapshot)
  /-- `attach_snapshot`. -/
  | attachSnapshot (snap : TssrunJobSnapshot)
  /-- `tokio::spawn` of the three tasks. -/
  | start (h : Nat)
  /-- A task of the handle begins. -/
  | begins (h : Nat)
  | load (u : Nat)
  | list
  /-- The file is read and decoded. -/
  | readFile (path : Str)

def ManagerOp.Ans : ManagerOp → Type
  | .on _ o => o.Ans
  | .spawnChild _ _ _ => Except Str SpawnedChild
  | .uuidNow => Nat
  | .nowUnix => Int
  | .newJob _ => Nat
  | .attachSnapshot _ => Nat
  | .start _ => Unit
  | .begins _ => Unit
  | .load _ => Except Str (Option TssrunJobSnapshot)
  | .list => Except Str (List TssrunJobSnapshot)
  | .readFile _ => Except Str TssrunJobSnapshot

def managerSig : Sig := ⟨ManagerOp, ManagerOp.Ans⟩

inductive ManagerInput where
  | base (i : Input)
  | child (r : Except Str SpawnedChild)
  /-- The snapshots of the store in the order of the map. -/
  | listed (r : Except Str (List TssrunJobSnapshot))
  | file (r : Except Str TssrunJobSnapshot)

namespace ManagerWorld

/-- The store has this under a uuid. -/
def stored (w : ManagerWorld) (u : Nat) : Option TssrunJobSnapshot :=
  w.store.find? fun s => s.uuid = u

/-- The part of the world that handle `h` sees. -/
def view (w : ManagerWorld) (h : Nat) : DrainWorld :=
  { w.job h with
    base := { (w.job h).base with stored := w.stored (w.job h).base.watch.uuid } }

/-- The store after an operation on a handle. -/
def storeAfter (o : DrainOp) (i : Input) (store : List TssrunJobSnapshot) :
    List TssrunJobSnapshot :=
  match o, i with
  | .base (.save snap), .done (.ok ()) => snap :: store.filter fun s => s.uuid ≠ snap.uuid
  | _, _ => store

/-- A new handle, which has the handles of its tasks if it was spawned. -/
def entered (w : ManagerWorld) (t : Nat) (snap : TssrunJobSnapshot) (owned : Bool) :
    ManagerWorld :=
  let made := DrainWorld.spawned snap none
  { w with
    handles := w.handles + 1
    job := Function.update w.job w.handles <|
      if owned then made else { made with taker := some t, teeHandle := fun _ => false }
    initial := Function.update w.initial w.handles snap
    owned := Function.update w.owned w.handles owned }

/-- No handle yet, and a store with these snapshots. -/
def opened (store : List TssrunJobSnapshot) (uuids : Supply Nat) : ManagerWorld where
  handles := 0
  job _ := DrainWorld.spawned (.atSpawn 0 0 [] [] none 0) none
  running _ := false
  store := store
  uuids := uuids
  drawn := 0
  drawer _ := none
  initial _ := .atSpawn 0 0 [] [] none 0
  owned _ := false

end ManagerWorld

def managerExec (t : Nat) :
    (o : ManagerOp) → ManagerInput → ManagerWorld → Option (o.Ans × ManagerWorld)
  | .on h o, .base i, w =>
    if h < w.handles then
      (drainExec t o i (w.view h)).map fun r => (r.1,
        { w with
          job := Function.update w.job h r.2
          store := ManagerWorld.storeAfter o i w.store })
    else none
  | .spawnChild _ _ _, .child r, w => some (r, w)
  | .uuidNow, _, w => some (w.uuids.next w.drawn, { w with
      drawn := w.drawn + 1
      drawer := Function.update w.drawer (w.uuids.next w.drawn) (some t) })
  | .nowUnix, .base (.clock unix), w => some (unix, w)
  | .newJob init, _, w => some (w.handles, w.entered t init true)
  | .attachSnapshot snap, _, w => some (w.handles, w.entered t snap false)
  | .start h, _, w => some ((), { w with running := Function.update w.running h true })
  | .begins h, _, w => if w.running h then some ((), w) else none
  | .load u, .base (.done r), w => some (r.map fun _ => w.stored u, w)
  | .list, .listed (.ok snaps), w =>
    if snaps.isPerm w.store then some (.ok snaps, w) else none
  | .list, .listed (.error e), w => some (.error e, w)
  | .readFile _, .file r, w => some (r, w)
  | _, _, _ => none

def managerMachine : Machine managerSig where
  World := ManagerWorld
  In := ManagerInput
  go := .base .go
  Env := Unit
  await _ := true
  exec := managerExec
  tick _ w := some w
  drop _ w := w

def manage (o : ManagerOp) : Prog managerSig o.Ans := @Prog.op managerSig o

def onHandle (h : Nat) (o : DrainOp) : Prog managerSig o.Ans := manage (.on h o)

/-- What a task or a call does, on handle `h`. -/
def ofHandle {α : Type} (h : Nat) (p : Prog sig α) : Prog managerSig α :=
  (p.lower (handled true)).lower (onHandle h)

/-! ## 2. The manager

The code of `spawn` and of the calls of `attach`, over operations that ask the system around it for
a uuid, the time and a child. -/

inductive TssrunSpawnError where
  | argvBuild (e : Str)
  | spawnFailed (source : Str)
  | other (e : Str)
deriving DecidableEq, Repr

inductive TssrunAttachError where
  | notFound (key : AttachKey)
  | io (e : Str)

/-- `TssrunJobHandle::from_spawn`. -/
def fromSpawn (child : SpawnedChild) (init : TssrunJobSnapshot) :
    Prog managerSig (Except Str Nat) := do
  let h ← manage (.newJob init)
  let snap ← ofHandle h borrow
  ofHandle h (persistWarn snap)
  if child.stdout = false then
    return .error "BackgroundDispatcher returned a child without piped stdout"
  else if child.stderr = false then
    return .error "BackgroundDispatcher returned a child without piped stderr"
  else
    manage (.start h)
    return .ok h

/-- `TssrunManager::spawn_with`. -/
def spawnWith (cmd : TssrunCmd) (currentDir : Except Str Str) :
    Prog managerSig (Except TssrunSpawnError Nat) :=
  match cmd.buildArgv currentDir with
  | .error e => return .error (.argvBuild e)
  | .ok argv => do
    match ← manage (.spawnChild argv cmd.env cmd.cwd) with
    | .error e => return .error (.spawnFailed e)
    | .ok child =>
      let uuid ← manage .uuidNow
      let unix ← manage .nowUnix
      let r ← fromSpawn child (.atSpawn uuid child.pid argv cmd.env cmd.cwd unix)
      return r.mapError .other

/-- A new handle for what was found, if anything was. -/
def attachFound (key : AttachKey) (found : Option TssrunJobSnapshot) :
    Prog managerSig (Except TssrunAttachError Nat) :=
  match found with
  | none => return .error (.notFound key)
  | some snap => do
    let h ← manage (.attachSnapshot snap)
    return .ok h

/-- `store.list().await?.into_iter().find(…)`: `find_by_pid` and `find_by_jobid`. -/
def attachFirst (key : AttachKey) (fits : TssrunJobSnapshot → Bool) :
    Prog managerSig (Except TssrunAttachError Nat) := do
  match ← manage .list with
  | .error e => return .error (.io e)
  | .ok snaps => attachFound key (snaps.find? fits)

/-- `TssrunManager::attach`. -/
def attach (key : AttachKey) : Prog managerSig (Except TssrunAttachError Nat) :=
  match key with
  | .file path => do
    match ← manage (.readFile path) with
    | .error e => return .error (.io e)
    | .ok snap => attachFound key (some snap)
  | .uuid u => do
    match ← manage (.load u) with
    | .error e => return .error (.io e)
    | .ok found => attachFound key found
  | .pid p => attachFirst key fun s => s.pid = p
  | .jobId j => attachFirst key fun s => s.jobid = some j

/-! ## 3. Programs that use a manager

A client makes any calls of the manager and of handles, one after another. -/

inductive TssrunCall where
  | spawn (cmd : TssrunCmd) (currentDir : Except Str Str)
  | attach (key : AttachKey)
  | refresh (h : Nat)
  /-- For so many rounds. -/
  | waitTerminal (h rounds : Nat)
  | wait (h : Nat)

inductive TssrunAnswer where
  | spawned (r : Except TssrunSpawnError Nat)
  | attached (r : Except TssrunAttachError Nat)
  | refreshed (r : Except TssrunRefreshError TssrunJobSnapshot)
  | waited (r : Option (Except TssrunRefreshError TssrunJobSnapshot))
  | exited (r : WaitResult)

def TssrunCall.program : TssrunCall → Prog managerSig TssrunAnswer
  | .spawn cmd currentDir => do
    let r ← spawnWith cmd currentDir
    return .spawned r
  | .attach key => do
    let r ← Tssrun.attach key
    return .attached r
  | .refresh h => do
    let r ← ofHandle h Tssrun.refresh
    return .refreshed r
  | .waitTerminal h rounds => do
    let r ← ofHandle h (Tssrun.waitTerminal rounds)
    return .waited r
  | .wait h => do
    let r ← Tssrun.wait.lower (onHandle h)
    return .exited r

/-- A client makes its calls one after another. -/
def managerClient : List TssrunCall → Prog managerSig (List TssrunAnswer)
  | [] => return []
  | call :: calls => do
    let answer ← call.program
    let answers ← managerClient calls
    return answer :: answers

/-- A spawned task of handle `h`. -/
def background (h : Nat) (p : Prog drainSig (Option WaitResult)) :
    Prog managerSig (List TssrunAnswer) := do
  manage (.begins h)
  let _ ← p.lower (onHandle h)
  return []

/-- The clients, and the tasks of every handle that may come to be.  The child of handle `h` writes
`bytes h`. -/
def sessions (bytes : Nat → LogStream → List UInt8) (clients : Nat → Option (List TssrunCall))
    (w : ManagerWorld) : Config managerMachine (List TssrunAnswer) :=
  ⟨w, fun t =>
    match t % 4 with
    | 0 => (clients (t / 4)).map managerClient
    | 1 => some (background (t / 4) (teeTask true .stdout (bytes (t / 4) .stdout)))
    | 2 => some (background (t / 4) (teeTask true .stderr (bytes (t / 4) .stderr)))
    | _ => some (background (t / 4) (exitTask true))⟩

end Tssrun

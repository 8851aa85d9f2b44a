/-
# The manager and its clients

The calls of `SbatchManager` and of the handles that it makes.  A client makes one call after
another, and what it calls next depends on the answers that it has had.  So it can go on with a
handle that a call has made, whether it was the one to make it or another client was.

A wait polls for as long as its job runs.  The model follows it for a number of `rounds`, which all
waits are given at the start of a run, and a wait that still polls then has no result.
-/
import SlurmRunner.Sbatch.RunWith

namespace Sbatch

open Text Slurm Interact StateStore

/-! ## 1. Calls

The calls of the manager and those of its handles are one type.  A call on a handle names it by its
number, so it can be one that an earlier call has made. -/

inductive SbatchCancelError where
  | scancel (exitCode : Int) (output : Str)
  | other (e : Str)
deriving DecidableEq

/-- `SbatchManager::cancel`: it asks the bare dispatcher. -/
def cancel {ι : Type} {K : ι → Type} (scancelBin : Str) (jobid : JobId) :
    Prog (sig K) (Except SbatchCancelError Unit) := do
  let r ← runCommand [scancelBin, decimal jobid.toNat]
  match r with
  | .error e => return .error (.other e)
  | .ok out =>
    if out.success then return .ok ()
    else return .error (.scancel out.exitCode out.diagnostic)

/-- The manager, without its caches and its store, which are in the world. -/
structure SbatchManager where
  cmd : SbatchCmd
  pollInterval : Nat
  scancelBin : Str
  /-- The order in which the store lists its snapshots. -/
  scan : Store → Store

/-- A call on a manager or on a handle of it. -/
inductive ManagerCall where
  | refresh (h : Nat)
  | refreshWithSacct (h : Nat)
  | waitTerminal (h pollInterval : Nat)
  | spawn (dirs : CurrentDirs)
  | spawnArray (dirs : CurrentDirs) (arraySpec : SlurmArraySpec)
  | attachUuid (u : Nat)
  | attachJobid (j : JobId)
  | attachArrayJobid (j : JobId)
  | attachFile (decoded : Except SbatchAttachError SbatchJobSnapshot)
  | runWith (dirs : CurrentDirs)
  | cancel (j : JobId)

inductive ManagerAnswer where
  | refreshed (r : Except Str SbatchJobSnapshot)
  | waited (r : Option (Except Str SbatchJobSnapshot))
  | spawned (r : Except SbatchSpawnError Nat)
  | spawnedArray (r : Option (Except SbatchSpawnError (List Nat)))
  | attached (r : Except SbatchAttachError Nat)
  | attachedArray (r : Except SbatchAttachError (List Nat))
  | ran (r : Option (Except SbatchRunError FinishedInfo))
  | cancelled (r : Except SbatchCancelError Unit)

/-- The call has come to its end: it is no wait that still polls, and no expansion that never
ends. -/
def ManagerAnswer.complete : ManagerAnswer → Bool
  | .waited r => r.isSome
  | .spawnedArray r => r.isSome
  | .ran r => r.isSome
  | _ => true

/-- The code of a call. -/
def SbatchManager.program (mgr : SbatchManager) (rounds : Nat) :
    ManagerCall → Prog (sig Key) ManagerAnswer
  | .refresh h => .refreshed <$> Sbatch.refresh (handleDispatcher mgr.pollInterval runCommand) h
  | .refreshWithSacct h =>
    .refreshed <$> Sbatch.refreshWithSacct (handleDispatcher mgr.pollInterval runCommand) h
  | .waitTerminal h pollInterval => .waited <$>
    Sbatch.waitTerminal (handleDispatcher mgr.pollInterval runCommand) h pollInterval rounds
  | .spawn dirs => .spawned <$> Sbatch.spawn mgr.cmd dirs
  | .spawnArray dirs arraySpec => .spawnedArray <$> Sbatch.spawnArray mgr.cmd dirs arraySpec
  | .attachUuid u => .attached <$> Sbatch.attachUuid u
  | .attachJobid j => .attached <$> Sbatch.attachJobid mgr.scan j
  | .attachArrayJobid j => .attachedArray <$> Sbatch.attachArrayJobid mgr.scan j
  | .attachFile decoded => .attached <$> Sbatch.attachFile decoded
  | .runWith dirs => .ran <$> Sbatch.runWith mgr.cmd dirs mgr.pollInterval rounds
  | .cancel j => .cancelled <$> Sbatch.cancel mgr.scancelBin j

/-! ## 2. Clients

A client is a tree: which call comes next may depend on the answers until then, as in any program
that uses the library. -/

/-- A client: the call that it makes, and how it goes on after the answer. -/
inductive ManagerClient where
  | done
  | call (c : ManagerCall) (next : ManagerAnswer → ManagerClient)

namespace ManagerClient

/-- Whatever the client is told, its calls are as `P` says. -/
def Calls (P : ManagerCall → Prop) : ManagerClient → Prop
  | .done => True
  | .call c next => P c ∧ ∀ a, (next a).Calls P

/-- The client makes these calls, whatever it is told. -/
def ofList : List ManagerCall → ManagerClient
  | [] => .done
  | c :: cs => .call c fun _ => ofList cs

/-- What holds of each call of a list holds of the client that makes them all. -/
theorem calls_ofList {P : ManagerCall → Prop} {cs : List ManagerCall} (h : ∀ c ∈ cs, P c) :
    (ofList cs).Calls P := by
  induction cs with
  | nil => trivial
  | cons c cs ih =>
    exact ⟨h c List.mem_cons_self, fun _ => ih fun c' hc' => h c' (List.mem_cons_of_mem _ hc')⟩

end ManagerClient

namespace SbatchManager

/-- What a client runs; it collects its answers. -/
def client (mgr : SbatchManager) (rounds : Nat) :
    ManagerClient → Prog (sig Key) (List ManagerAnswer)
  | .done => return []
  | .call c next => do
    let a ← mgr.program rounds c
    let as ← mgr.client rounds (next a)
    return a :: as

/-- The first `n` tasks are the `clients` of a manager, in this world. -/
def serving (mgr : SbatchManager) (rounds n : Nat) (clients : Nat → ManagerClient)
    (w : World Key) : Config (machine Key) (List ManagerAnswer) where
  world := w
  tasks t := if t < n then some (mgr.client rounds (clients t)) else none

end SbatchManager

end Sbatch

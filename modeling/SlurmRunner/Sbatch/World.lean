/-
# The world of the sbatch handles

The operations that the cache and handle code asks of its surroundings, and their meaning: a
clock, the slots of a family of query caches (one slot for each `i : ι`, with keys in `K i`),
the inner commands that are running, the watch channel and the refresh lock of every handle, and
the state store.

The world also keeps records of what was done (`calls`, `fills`, `reads`, `writes`, `saves`).
No operation reads them; they are what the statements about runs are about.
-/
import SlurmRunner.Interact.Logic
import SlurmRunner.Interact.Supply
import SlurmRunner.Sbatch.Snapshot

namespace Sbatch

open Text Slurm Interact

/-! ## 1. State -/

/-- A stored answer of a query cache. -/
structure CachedEntry (κ : Type) where
  storedAt : Nat
  /-- The keys that the stored query asked about. -/
  keys : List κ
  /-- Output with any exit code, or the text of a spawn error. -/
  result : Answer

/-- The slot of a query cache. -/
structure Slot (κ : Type) where
  entry : Option (CachedEntry κ)
  /-- When each key was last asked for. -/
  recent : List (κ × Nat)

/-- The slot of a new cache. -/
def Slot.default (κ : Type) : Slot κ := ⟨none, []⟩

/-- A command that is running. -/
structure Command where
  argv : Argv
  startedAt : Nat
deriving DecidableEq, Repr

/-- Record of an inner command that has completed. -/
structure Call where
  tid : Nat
  argv : Argv
  startedAt : Nat
  doneAt : Nat
  result : Answer
deriving DecidableEq

/-- Record of an answer that a handle read: what its dispatcher returned at `readAt` to the query
that it was given at `since`. -/
structure Read where
  tid : Nat
  argv : Argv
  since : Nat
  readAt : Nat
  result : Answer
deriving DecidableEq

/-- The place in the code that publishes a snapshot.  The two in the finalizer start from a
snapshot that was read in an earlier critical section. -/
inductive Site where
  | hit
  | vanish
  | rollback (carried : SbatchJobSnapshot)
  | stamp (carried : SbatchJobSnapshot)
deriving DecidableEq

/-- Record of a published snapshot: what the watch channel held before and holds after, and the
answers that the publishing task had read until then, newest first. -/
structure Write where
  tid : Nat
  handle : Nat
  site : Site
  before : SbatchJobSnapshot
  after : SbatchJobSnapshot
  writtenAt : Nat
  heard : List Read
deriving DecidableEq

/-- Record of a save: the snapshot, what the store had under its uuid, and the outcome. -/
structure Save where
  tid : Nat
  snap : SbatchJobSnapshot
  before : Option SbatchJobSnapshot
  result : Except Str Unit
deriving DecidableEq

/-- The state store. -/
abbrev Store := List SbatchJobSnapshot

namespace Store

/-- `load`. -/
def load (s : Store) (u : Nat) : Option SbatchJobSnapshot := s.find? (·.uuid = u)

/-- `save`: it replaces the snapshot of the same uuid. -/
def save (s : Store) (snap : SbatchJobSnapshot) : Store :=
  snap :: s.filter (·.uuid ≠ snap.uuid)

/-- `find_all_by_jobid`. -/
def findAllByJobid (s : Store) (j : JobId) : List SbatchJobSnapshot := s.filter (·.jobid = j)

/-- What was saved is loaded. -/
theorem load_save_self (s : Store) (snap : SbatchJobSnapshot) :
    (s.save snap).load snap.uuid = some snap := by
  simp [load, save]

/-- A save of another uuid is none of this one. -/
theorem load_save_of_ne (s : Store) {snap : SbatchJobSnapshot} {u : Nat}
    (h : u ≠ snap.uuid) : (s.save snap).load u = s.load u := by
  have hne : ¬ snap.uuid = u := fun he => h he.symm
  simp only [load, save, List.find?_cons, decide_eq_true_eq, hne, decide_false,
    List.find?_filter]
  congr 1
  funext x
  by_cases hx : x.uuid = u
  · simp [hx, h]
  · simp [hx]

end Store

structure World {ι : Type} (K : ι → Type) where
  instant : Nat
  utc : Nat
  /-- The wall clock has never been set back. -/
  steady : Bool
  slots : (i : ι) → Slot (K i)
  slotOwner : ι → Option Nat
  inflight : Nat → Option Command
  calls : List Call
  /-- What each slot has stored, newest first, with the task that stored it. -/
  fills : (i : ι) → List (Nat × CachedEntry (K i))
  reads : List Read
  /-- How many handles there are. -/
  handles : Nat
  initial : Nat → SbatchJobSnapshot
  watch : Nat → SbatchJobSnapshot
  refreshOwner : Nat → Option Nat
  writes : List Write
  store : Store
  saves : List Save
  /-- What `Uuid::now_v7()` gives, call after call. -/
  uuids : Supply Nat
  /-- How many uuids have been drawn. -/
  drawn : Nat

/-- The world of a new manager with `n` handles at the wall-clock time `utc`: the caches are empty
and nothing is running. -/
def World.start {ι : Type} {K : ι → Type} (uuids : Supply Nat) (utc : Nat) (n : Nat)
    (snaps : Nat → SbatchJobSnapshot) (store : Store) : World K where
  instant := 0
  utc := utc
  steady := true
  slots i := Slot.default (K i)
  slotOwner _ := none
  inflight _ := none
  calls := []
  fills _ := []
  reads := []
  handles := n
  initial := snaps
  watch := snaps
  refreshOwner _ := none
  writes := []
  store := store
  saves := []
  uuids := uuids
  drawn := 0

/-- The answers that task `t` has read, newest first. -/
def World.readsOf {ι : Type} {K : ι → Type} (w : World K) (t : Nat) : List Read :=
  w.reads.filter (·.tid = t)

/-- The commands that task `t` has run. -/
def World.callsOf {ι : Type} {K : ι → Type} (w : World K) (t : Nat) : List Call :=
  w.calls.filter (·.tid = t)

/-- The saves that task `t` has made. -/
def World.savesOf {ι : Type} {K : ι → Type} (w : World K) (t : Nat) : List Save :=
  w.saves.filter (·.tid = t)

/-! ## 2. Operations -/

/-- What the surroundings supply to an operation. -/
inductive Input where
  | go
  | output (r : Answer)
  | saved (r : Except Str Unit)

inductive Op {ι : Type} (K : ι → Type) where
  -- clocks
  | now
  | utcNow
  | wake (deadline : Nat)
  -- query caches
  | lockSlot (i : ι) (requested : List (K i))
  | unlockSlot (i : ι)
  | getSlot (i : ι)
  | putRecent (i : ι) (recent : List (K i × Nat))
  | putEntry (i : ι) (entry : CachedEntry (K i))
  -- inner commands
  | send (argv : Argv)
  | recv
  | read (argv : Argv) (since : Nat) (result : Answer)
  -- handles
  | lockRefresh (h : Nat)
  | unlockRefresh (h : Nat)
  | borrow (h : Nat)
  | sendReplace (h : Nat) (site : Site) (snap : SbatchJobSnapshot)
  | newHandle (snap : SbatchJobSnapshot)
  -- store
  | save (snap : SbatchJobSnapshot)
  | store
  | uuidNow

variable {ι : Type} [DecidableEq ι] {K : ι → Type}

/-- The type of an operation's answer. -/
def Op.Ans : Op K → Type
  | .now => Nat
  | .utcNow => Nat
  | .wake _ => Unit
  | .lockSlot _ _ => Unit
  | .unlockSlot _ => Unit
  | .getSlot i => Slot (K i)
  | .putRecent _ _ => Unit
  | .putEntry _ _ => Unit
  | .send _ => Unit
  | .recv => Answer
  | .read _ _ _ => Unit
  | .lockRefresh _ => Unit
  | .unlockRefresh _ => Unit
  | .borrow _ => SbatchJobSnapshot
  | .sendReplace _ _ _ => Unit
  | .newHandle _ => Nat
  | .save _ => Except Str Unit
  | .store => Store
  | .uuidNow => Nat

/-- The operations at which a task may be suspended. -/
def Op.await : Op K → Bool
  | .wake _ | .lockSlot _ _ | .recv | .lockRefresh _ | .save _ | .store => true
  | _ => false

variable (K) in
/-- The signature of the cache and handle code. -/
def sig : Sig := ⟨Op K, Op.Ans⟩

/-- What the operation of task `t` does to the world. -/
def exec (t : Nat) : (o : Op K) → Input → World K → Option (o.Ans × World K)
  | .now, _, w => some (w.instant, w)
  | .utcNow, _, w => some (w.utc, w)
  | .wake d, _, w => if d ≤ w.instant then some ((), w) else none
  | .lockSlot i _, _, w =>
    match w.slotOwner i with
    | none => some ((), { w with slotOwner := Function.update w.slotOwner i (some t) })
    | some _ => none
  | .unlockSlot i, _, w => some ((), { w with slotOwner := Function.update w.slotOwner i none })
  | .getSlot i, _, w => some (w.slots i, w)
  | .putRecent i r, _, w =>
    some ((), { w with slots := Function.update w.slots i { w.slots i with recent := r } })
  | .putEntry i e, _, w =>
    some ((), { w with
      slots := Function.update w.slots i { w.slots i with entry := some e }
      fills := Function.update w.fills i ((t, e) :: w.fills i) })
  | .send argv, _, w =>
    some ((), { w with inflight := Function.update w.inflight t (some ⟨argv, w.instant⟩) })
  | .recv, .output r, w =>
    match w.inflight t with
    | some c => some (r, { w with
        inflight := Function.update w.inflight t none
        calls := ⟨t, c.argv, c.startedAt, w.instant, r⟩ :: w.calls })
    | none => none
  | .recv, _, _ => none
  | .read argv since r, _, w =>
    some ((), { w with reads := ⟨t, argv, since, w.instant, r⟩ :: w.reads })
  | .lockRefresh h, _, w =>
    if h < w.handles then
      match w.refreshOwner h with
      | none => some ((), { w with refreshOwner := Function.update w.refreshOwner h (some t) })
      | some _ => none
    else none
  | .unlockRefresh h, _, w =>
    some ((), { w with refreshOwner := Function.update w.refreshOwner h none })
  | .borrow h, _, w => some (w.watch h, w)
  | .sendReplace h site snap, _, w =>
    if h < w.handles then
      some ((), { w with
        watch := Function.update w.watch h snap
        writes := ⟨t, h, site, w.watch h, snap, w.instant, w.readsOf t⟩ :: w.writes })
    else none
  | .newHandle snap, _, w =>
    some (w.handles, { w with
      handles := w.handles + 1
      initial := Function.update w.initial w.handles snap
      watch := Function.update w.watch w.handles snap })
  | .save snap, .saved r, w =>
    some (r, { w with
      store := match r with
        | .ok () => w.store.save snap
        | .error _ => w.store
      saves := ⟨t, snap, w.store.load snap.uuid, r⟩ :: w.saves })
  | .save _, _, _ => none
  | .store, _, w => some (w.store, w)
  | .uuidNow, _, w => some (w.uuids.next w.drawn, { w with drawn := w.drawn + 1 })

/-- The operations that only look at the world. -/
def Op.looks : Op K → Bool
  | .now | .utcNow | .wake _ | .getSlot _ | .borrow _ | .store => true
  | _ => false

/-- What an operation of task `t` that is performed in `w` does: one case for each operation that
changes the world, with what has let it pass. -/
inductive Effect (t : Nat) (w : World K) : (o : Op K) → o.Ans → World K → Prop
  | look {o : Op K} {a : o.Ans} (ho : o.looks = true) : Effect t w o a w
  | lockSlot {j : ι} {requested : List (K j)} (hfree : w.slotOwner j = none) :
      Effect t w (.lockSlot j requested) ()
        { w with slotOwner := Function.update w.slotOwner j (some t) }
  | unlockSlot {j : ι} :
      Effect t w (.unlockSlot j) () { w with slotOwner := Function.update w.slotOwner j none }
  | putRecent {j : ι} {r : List (K j × Nat)} :
      Effect t w (.putRecent j r) ()
        { w with slots := Function.update w.slots j { w.slots j with recent := r } }
  | putEntry {j : ι} {e : CachedEntry (K j)} :
      Effect t w (.putEntry j e) ()
        { w with
          slots := Function.update w.slots j { w.slots j with entry := some e }
          fills := Function.update w.fills j ((t, e) :: w.fills j) }
  | send {argv : Argv} :
      Effect t w (.send argv) ()
        { w with inflight := Function.update w.inflight t (some ⟨argv, w.instant⟩) }
  | recv {r : Answer} {c : Command} (hc : w.inflight t = some c) :
      Effect t w .recv r
        { w with
          inflight := Function.update w.inflight t none
          calls := ⟨t, c.argv, c.startedAt, w.instant, r⟩ :: w.calls }
  | read {argv : Argv} {since : Nat} {r : Answer} :
      Effect t w (.read argv since r) ()
        { w with reads := ⟨t, argv, since, w.instant, r⟩ :: w.reads }
  | lockRefresh {h : Nat} (hlt : h < w.handles) (hfree : w.refreshOwner h = none) :
      Effect t w (.lockRefresh h) ()
        { w with refreshOwner := Function.update w.refreshOwner h (some t) }
  | unlockRefresh {h : Nat} :
      Effect t w (.unlockRefresh h) ()
        { w with refreshOwner := Function.update w.refreshOwner h none }
  | sendReplace {h : Nat} {site : Site} {snap : SbatchJobSnapshot} (hlt : h < w.handles) :
      Effect t w (.sendReplace h site snap) ()
        { w with
          watch := Function.update w.watch h snap
          writes := ⟨t, h, site, w.watch h, snap, w.instant, w.readsOf t⟩ :: w.writes }
  | newHandle {snap : SbatchJobSnapshot} :
      Effect t w (.newHandle snap) w.handles
        { w with
          handles := w.handles + 1
          initial := Function.update w.initial w.handles snap
          watch := Function.update w.watch w.handles snap }
  | save {snap : SbatchJobSnapshot} {r : Except Str Unit} :
      Effect t w (.save snap) r
        { w with
          store := match r with
            | .ok () => w.store.save snap
            | .error _ => w.store
          saves := ⟨t, snap, w.store.load snap.uuid, r⟩ :: w.saves }
  | uuidNow : Effect t w .uuidNow (w.uuids.next w.drawn) { w with drawn := w.drawn + 1 }

/-- **What an operation can do**, guards included; later proofs split on this and not on `exec`. -/
theorem effect_of_exec {t : Nat} {o : Op K} {i : Input} {w w' : World K} {a : o.Ans}
    (he : exec t o i w = some (a, w')) : Effect t w o a w' := by
  cases o with
  | now | utcNow | getSlot _ | borrow _ | store =>
    cases he
    exact .look rfl
  | wake _ =>
    simp only [exec] at he
    split at he
    · cases he
      exact .look rfl
    · cases he
  | lockSlot _ _ =>
    simp only [exec] at he
    split at he
    · rename_i hfree
      cases he
      exact .lockSlot hfree
    · cases he
  | unlockSlot _ =>
    cases he
    exact .unlockSlot
  | putRecent _ _ =>
    cases he
    exact .putRecent
  | putEntry _ _ =>
    cases he
    exact .putEntry
  | send _ =>
    cases he
    exact .send
  | recv =>
    cases i with
    | go | saved _ => cases he
    | output r =>
      simp only [exec] at he
      split at he
      · rename_i c hc
        cases he
        exact .recv hc
      · cases he
  | read _ _ _ =>
    cases he
    exact .read
  | lockRefresh _ =>
    simp only [exec] at he
    split at he
    · rename_i hlt
      split at he
      · rename_i hfree
        cases he
        exact .lockRefresh hlt hfree
      · cases he
    · cases he
  | unlockRefresh _ =>
    cases he
    exact .unlockRefresh
  | sendReplace _ _ _ =>
    simp only [exec] at he
    split at he
    · rename_i hlt
      cases he
      exact .sendReplace hlt
    · cases he
  | newHandle _ =>
    cases he
    exact .newHandle
  | save _ =>
    cases i with
    | go | output _ => cases he
    | saved r =>
      cases he
      exact .save
  | uuidNow =>
    cases he
    exact .uuidNow

/-- A move of the environment: time passes, and the wall clock is set. -/
structure Tick where
  dt : Nat
  utc : Nat

def tick (e : Tick) (w : World K) : Option (World K) :=
  some { w with
    instant := w.instant + e.dt, utc := e.utc, steady := w.steady && decide (w.utc ≤ e.utc) }

/-- Dropping a suspended task releases its locks and kills its command. -/
def drop (t : Nat) (w : World K) : World K :=
  { w with
    slotOwner := fun i => if w.slotOwner i = some t then none else w.slotOwner i
    refreshOwner := fun h => if w.refreshOwner h = some t then none else w.refreshOwner h
    inflight := Function.update w.inflight t none }

variable (K) in
/-- The machine of the cache and handle code. -/
def machine : Machine (sig K) where
  World := World K
  In := Input
  go := .go
  Env := Tick
  await := Op.await
  exec := exec
  tick := tick
  drop := drop

/-! ## 3. The operations as programs -/

/-- Make one operation. -/
def perform (o : Op K) : Prog (sig K) o.Ans := @Prog.op (sig K) o

/-- `Instant::now()`. -/
def now : Prog (sig K) Nat := perform (.now : Op K)

/-- `Utc::now()`. -/
def utcNow : Prog (sig K) Nat := perform (.utcNow : Op K)

/-- `tokio::time::sleep(d).await`. -/
def sleep (d : Nat) : Prog (sig K) Unit := do
  let t ← now
  perform (.wake (t + d) : Op K)

/-- `slot.lock().await`, by a call that asks for the keys `requested`. -/
def lockSlot (i : ι) (requested : List (K i)) : Prog (sig K) Unit :=
  perform (.lockSlot i requested : Op K)

def unlockSlot (i : ι) : Prog (sig K) Unit := perform (.unlockSlot i : Op K)

def getSlot (i : ι) : Prog (sig K) (Slot (K i)) := perform (.getSlot i : Op K)

def putRecent (i : ι) (r : List (K i × Nat)) : Prog (sig K) Unit :=
  perform (.putRecent i r : Op K)

def putEntry (i : ι) (e : CachedEntry (K i)) : Prog (sig K) Unit :=
  perform (.putEntry i e : Op K)

def lockRefresh (h : Nat) : Prog (sig K) Unit := perform (.lockRefresh h : Op K)

def unlockRefresh (h : Nat) : Prog (sig K) Unit := perform (.unlockRefresh h : Op K)

/-- `snapshot_tx.borrow().clone()`. -/
def borrow (h : Nat) : Prog (sig K) SbatchJobSnapshot := perform (.borrow h : Op K)

/-- `snapshot_tx.send_replace`. -/
def sendReplace (h : Nat) (site : Site) (snap : SbatchJobSnapshot) : Prog (sig K) Unit :=
  perform (.sendReplace h site snap : Op K)

def newHandle (snap : SbatchJobSnapshot) : Prog (sig K) Nat := perform (.newHandle snap : Op K)

/-- `store.save(&snap).await`. -/
def save (snap : SbatchJobSnapshot) : Prog (sig K) (Except Str Unit) :=
  perform (.save snap : Op K)

def loadStore : Prog (sig K) Store := perform (.store : Op K)

/-- `Uuid::now_v7()`. -/
def uuidNow : Prog (sig K) Nat := perform (.uuidNow : Op K)

/-! ## 4. Dispatchers -/

/-- `JobDispatcher::capture`. -/
abbrev Dispatcher (K : ι → Type) := Argv → Prog (sig K) Answer

/-- The dispatcher that runs a command: it starts the command and waits for its output. -/
def runCommand : Dispatcher K := fun argv => do
  perform (.send argv : Op K)
  perform (.recv : Op K)

/-- `DynView`: the view of a dispatcher through which a handle asks. -/
def dynView (d : Dispatcher K) : Dispatcher K := fun argv => do
  let since ← now
  let r ← d argv
  perform (.read argv since r : Op K)
  return r

/-! ## 5. Moves of a run -/

/-- Task `t` passes the await it is suspended at: a lock it gets, or a sleep that is over. -/
def passes (t : Nat) : Move (machine K) := .pass t .go

/-- The command of task `t` exits with code 0 and prints `text`. -/
def prints (t : Nat) (text : Str) : Move (machine K) := .pass t (.output (.ok ⟨0, text, []⟩))

/-- The save of task `t` succeeds. -/
def saves (t : Nat) : Move (machine K) := .pass t (.saved (.ok ()))

/-- The clocks go on by `dt`, to the wall-clock time `utc`. -/
def waits (dt utc : Nat) : Move (machine K) := .tick (⟨dt, utc⟩ : Tick)

/-! ## 6. Moves of a call that runs alone -/

/-- Operations that need nothing from outside. -/
def goesOn (n : Nat) : List (Input ⊕ Tick) := List.replicate n (.inl .go)

/-- The running command prints `text`. -/
def answers (text : Str) : List (Input ⊕ Tick) := [.inl (.output (.ok ⟨0, text, []⟩))]

/-- The save works. -/
def storesIt : List (Input ⊕ Tick) := [.inl (.saved (.ok ()))]

/-- The save fails with the error `e`. -/
def storeFails (e : Str) : List (Input ⊕ Tick) := [.inl (.saved (.error e))]

end Sbatch

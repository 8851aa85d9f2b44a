/-
# The ledger of a query cache

One cache, and any number of clients that make their queries through it one after another.  The
history of a run notes when a call takes the slot, when a live query starts and when the slot is
filled.

`Ledger.Step` is the cache as a state machine of its own: the slot, the live call and the history,
without tasks and programs.  `captures_ledger` proves that every run of the clients is one of it.
-/
import Mathlib.Logic.Relation
import SlurmRunner.Interact.Trace
import SlurmRunner.Sbatch.QueryCache

namespace Sbatch

open Text Slurm Interact

/-! ## 1. Clients of one cache

Each client sends its command lines through one cache, one after the other, and the world has
nothing else in it. -/

/-- The family of a single cache with keys in `κ`. -/
abbrev Solo (κ : Type) : Unit → Type := fun _ => κ

section Clients

variable {κ : Type} [LinearOrder κ] (shape : QueryShape κ) (ttl : Nat)

/-- A client that makes the queries `argvs`, one after another. -/
def captures : List Argv → Prog (sig (Solo κ)) Unit
  | [] => return
  | argv :: rest => do
    let _ ← cachingCapture (K := Solo κ) () shape ttl runCommand argv
    captures rest

/-- Where a client stands between two moves: before its next query, waiting for the command of a
live query, or waiting for a command that the cache has passed on. -/
inductive Point (κ : Type) where
  | calls (argvs : List Argv)
  | fetching (batch : List κ) (argvs : List Argv)
  | passing (argvs : List Argv)

/-- A query for `keys` that has just taken the slot, and the queries after it. -/
def locked (keys : List κ) (argvs : List Argv) : Prog (sig (Solo κ)) Unit := do
  let slot ← getSlot (K := Solo κ) ()
  let t ← now
  let recent := stampRecent slot.recent keys t
  putRecent (K := Solo κ) () recent
  match replayable slot.entry ttl keys t with
  | some _ =>
    unlockSlot ()
    captures shape ttl argvs
  | none =>
    let recent := retainRecent recent (Duration.saturatingMul ttl 2) t
    putRecent (K := Solo κ) () recent
    let batch := batchOf recent keys
    perform (.send (shape.build batch) : Op (Solo κ))
    let fetched ← perform (.recv : Op (Solo κ))
    let storedAt ← now
    putEntry (K := Solo κ) () ⟨storedAt, batch, fetched⟩
    unlockSlot ()
    captures shape ttl argvs

/-- The rest of the client. -/
def Point.program : Point κ → Prog (sig (Solo κ)) Unit
  | .calls argvs => captures shape ttl argvs
  | .fetching batch argvs => do
    let fetched ← perform (.recv : Op (Solo κ))
    let storedAt ← now
    putEntry (K := Solo κ) () ⟨storedAt, batch, fetched⟩
    unlockSlot ()
    captures shape ttl argvs
  | .passing argvs => do
    let _ ← perform (.recv : Op (Solo κ))
    captures shape ttl argvs

end Clients

/-! ## 2. The history

What a run notes of it: who asked for which keys, which batch was sent, and what was stored. -/

/-- What a cache does, for the record. -/
inductive Event (κ : Type) where
  /-- A call of task `tid` took the slot and asked for `keys`. -/
  | asked (tid : Nat) (keys : List κ) (askedAt : Nat)
  /-- It started the inner call `argv`. -/
  | sent (tid : Nat) (argv : Argv) (sentAt : Nat)
  /-- It stored the answer. -/
  | filled (tid : Nat) (entry : CachedEntry κ)

/-- The observer of the cache.  A command that is started without the slot is not its own. -/
def observer (κ : Type) : Observer (machine (Solo κ)) (Event κ) := fun t o w =>
  match o with
  | .lockSlot () keys => [.asked t keys w.instant]
  | .send argv => if w.slotOwner () = some t then [.sent t argv w.instant] else []
  | .putEntry () e => [.filled t e]
  | _ => []

/-! ## 3. The ledger

The state of the cache without its programs: the slot, the batch that is on its way, and the
history.  Its steps are the critical sections of `caching_capture`. -/

/-- A cache with its history. -/
structure Ledger (κ : Type) where
  instant : Nat
  slot : Slot κ
  /-- The live call: its task and its batch. -/
  busy : Option (Nat × List κ)
  log : List (Event κ)

namespace Ledger

variable {κ : Type} [LinearOrder κ]

def start (κ : Type) : Ledger κ := ⟨0, Slot.default κ, none, []⟩

/-- The registry at a live call that asks for `keys`. -/
def registry (s : Ledger κ) (ttl : Nat) (keys : List κ) : List (κ × Nat) :=
  retainRecent (stampRecent s.slot.recent keys s.instant) (Duration.saturatingMul ttl 2) s.instant

/-- What can happen to a cache; a live call is dropped only if `cancels` allows it. -/
inductive Step (shape : QueryShape κ) (ttl : Nat) (cancels : Prop) : Ledger κ → Ledger κ → Prop
  | replayed {s : Ledger κ} {t : Nat} {argv : Argv} {keys : List κ} {e : CachedEntry κ}
      (hkeys : shape.parse argv = some keys) (hfree : s.busy = none)
      (hentry : replayable s.slot.entry ttl keys s.instant = some e) :
      Step shape ttl cancels s { s with
        slot := { s.slot with recent := stampRecent s.slot.recent keys s.instant }
        log := .asked t keys s.instant :: s.log }
  | live {s : Ledger κ} {t : Nat} {argv : Argv} {keys : List κ}
      (hkeys : shape.parse argv = some keys) (hfree : s.busy = none)
      (hentry : replayable s.slot.entry ttl keys s.instant = none) :
      Step shape ttl cancels s { s with
        slot := { s.slot with recent := s.registry ttl keys }
        busy := some (t, batchOf (s.registry ttl keys) keys)
        log := .sent t (shape.build (batchOf (s.registry ttl keys) keys)) s.instant ::
          .asked t keys s.instant :: s.log }
  | filled {s : Ledger κ} {t : Nat} {batch : List κ} {r : Answer}
      (hbusy : s.busy = some (t, batch)) :
      Step shape ttl cancels s { s with
        slot := { s.slot with entry := some ⟨s.instant, batch, r⟩ }
        busy := none
        log := .filled t ⟨s.instant, batch, r⟩ :: s.log }
  | dropped {s : Ledger κ} (h : cancels) : Step shape ttl cancels s { s with busy := none }
  | elapsed {s : Ledger κ} (d : Nat) : Step shape ttl cancels s { s with instant := s.instant + d }

/-- The ledgers that a new cache can reach. -/
abbrev Reach (shape : QueryShape κ) (ttl : Nat) (cancels : Prop) : Ledger κ → Prop :=
  Relation.ReflTransGen (Step shape ttl cancels) (start κ)

end Ledger

/-! ## 4. Every run is a run of the ledger

A client is always at one of three points: before a call, with a batch on its way, or with a command
line on its way that the cache passes on.  What it does silently in between is executed here once
for each point. -/

section Refinement

variable {κ : Type} [LinearOrder κ] {shape : QueryShape κ} {ttl : Nat} {cancels : Prop}

/-- Task `t` stands at a point of a client; it waits for the command of a live query if and only if
the live call is its own. -/
def Stands (shape : QueryShape κ) (ttl : Nat) (busy : Option (Nat × List κ)) (t : Nat)
    (p : Prog (sig (Solo κ)) Unit) : Prop :=
  (∃ argvs, p = (Point.calls argvs).program shape ttl ∨
    p = (Point.passing argvs).program shape ttl) ∧
      (∀ batch, busy ≠ some (t, batch)) ∨
    ∃ batch argvs, p = (Point.fetching batch argvs).program shape ttl ∧ busy = some (t, batch)

/-- The ledger of a configuration. -/
structure Kept (shape : QueryShape κ) (ttl : Nat) (c : Config (machine (Solo κ)) Unit)
    (s : Ledger κ) : Prop where
  instant : c.world.instant = s.instant
  slot : c.world.slots () = s.slot
  owner : c.world.slotOwner () = s.busy.map Prod.fst
  stands : ∀ t p, c.tasks t = some p → Stands shape ttl s.busy t p

/-- A command line that the cache does not take is passed on. -/
theorem captures_of_none {argv : Argv} {argvs : List Argv} (h : shape.parse argv = none) :
    captures shape ttl (argv :: argvs) =
      .ask (.send argv) fun _ => (Point.passing argvs).program shape ttl := by
  simp only [captures, cachingCapture, h]
  rfl

/-- A command line with keys asks for the slot. -/
theorem captures_of_some {argv : Argv} {argvs : List Argv} {keys : List κ}
    (h : shape.parse argv = some keys) : captures shape ttl (argv :: argvs) = (do
      lockSlot (K := Solo κ) () keys
      locked shape ttl keys argvs) := by
  simp only [captures, cachingCapture, h, locked, bind_assoc]
  refine bind_congr fun _ => bind_congr fun slot => bind_congr fun t => bind_congr fun _ => ?_
  cases replayable slot.entry ttl keys t <;> rfl

variable {t : Nat} {w w' : World (Solo κ)} {p : Prog (sig (Solo κ)) Unit} {argvs : List Argv}

/-- What a client does before its next await: at most it starts a command that is passed on. -/
theorem settle_captures
    (hs : (machine (Solo κ)).settle t (captures shape ttl argvs) w = some (p, w'))
    (hown : w.slotOwner () ≠ some t) :
    (∀ busy, (∀ batch, busy ≠ some (t, batch)) → Stands shape ttl busy t p) ∧
    w'.instant = w.instant ∧ w'.slots = w.slots ∧ w'.slotOwner = w.slotOwner ∧
    (machine (Solo κ)).settleNotes (observer κ) t (captures shape ttl argvs) w = [] := by
  cases argvs with
  | nil =>
    cases hs
    exact ⟨fun _ hb => .inl ⟨⟨[], .inl rfl⟩, hb⟩, rfl, rfl, rfl, rfl⟩
  | cons argv rest =>
    cases hparse : shape.parse argv with
    | none =>
      rw [captures_of_none hparse] at hs ⊢
      cases hs
      exact ⟨fun _ hb => .inl ⟨⟨rest, .inr rfl⟩, hb⟩, rfl, rfl, rfl, if_neg hown⟩
    | some keys =>
      have hprog : captures shape ttl (argv :: rest) =
          .ask (.lockSlot () keys) fun _ => locked shape ttl keys rest := captures_of_some hparse
      cases ((machine (Solo κ)).settle_await rfl).symm.trans (hprog ▸ hs)
      exact ⟨fun _ hb => .inl ⟨⟨argv :: rest, .inl hprog.symm⟩, hb⟩, rfl, rfl, rfl,
        hprog ▸ Machine.settleNotes_await (M := machine (Solo κ)) (o := Op.lockSlot () keys) rfl⟩

/-- The world in which task `t` has stamped its keys. -/
def World.stamped (w : World (Solo κ)) (keys : List κ) : World (Solo κ) :=
  { w with slots := Function.update w.slots () { w.slots () with
      recent := stampRecent (w.slots ()).recent keys w.instant } }

/-- The registry at a live query. -/
def World.registry (w : World (Solo κ)) (ttl : Nat) (keys : List κ) : List (κ × Nat) :=
  retainRecent (stampRecent (w.slots ()).recent keys w.instant) (Duration.saturatingMul ttl 2)
    w.instant

variable {keys : List κ}

/-- An entry that can be replayed ends the call without a command. -/
theorem settle_replayed {e : CachedEntry κ}
    (he : replayable (w.slots ()).entry ttl keys w.instant = some e) :
    (machine (Solo κ)).settle t (locked shape ttl keys argvs) w =
      (machine (Solo κ)).settle t (captures shape ttl argvs)
        { w.stamped keys with slotOwner := Function.update w.slotOwner () none } ∧
    (machine (Solo κ)).settleNotes (observer κ) t (locked shape ttl keys argvs) w =
      (machine (Solo κ)).settleNotes (observer κ) t (captures shape ttl argvs)
        { w.stamped keys with slotOwner := Function.update w.slotOwner () none } := by
  refine Machine.block_silent (M := machine (Solo κ)) (w := w) (o := .getSlot ()) rfl rfl rfl ?_
  refine Machine.block_silent (M := machine (Solo κ)) (w := w) (o := .now) rfl rfl rfl ?_
  refine Machine.block_silent (M := machine (Solo κ)) (w := w) (o := .putRecent () _) rfl rfl rfl ?_
  rw [he]
  exact Machine.block_silent (M := machine (Solo κ)) (o := .unlockSlot ()) rfl rfl rfl ⟨rfl, rfl⟩

variable (shape argvs) in
/-- Otherwise the batch is made of what was asked for lately, and sent. -/
theorem settle_live (he : replayable (w.slots ()).entry ttl keys w.instant = none)
    (hown : w.slotOwner () = some t) :
    ∃ w', (machine (Solo κ)).settle t (locked shape ttl keys argvs) w =
        some ((Point.fetching (batchOf (w.registry ttl keys) keys) argvs).program shape ttl, w') ∧
      (machine (Solo κ)).settleNotes (observer κ) t (locked shape ttl keys argvs) w =
        [.sent t (shape.build (batchOf (w.registry ttl keys) keys)) w.instant] ∧
      w'.instant = w.instant ∧ w'.slots () = { w.slots () with recent := w.registry ttl keys } ∧
      w'.slotOwner () = some t := by
  have hblock : (machine (Solo κ)).settle t (locked shape ttl keys argvs) w =
        some ((Point.fetching (batchOf (w.registry ttl keys) keys) argvs).program shape ttl,
          { w.stamped keys with
            slots := Function.update (w.stamped keys).slots ()
              { (w.stamped keys).slots () with recent := w.registry ttl keys }
            inflight := Function.update w.inflight t
              (some ⟨shape.build (batchOf (w.registry ttl keys) keys), w.instant⟩) }) ∧
      (machine (Solo κ)).settleNotes (observer κ) t (locked shape ttl keys argvs) w =
        [] ++ observer κ t (.send (shape.build (batchOf (w.registry ttl keys) keys)))
          (w.stamped keys) := by
    refine Machine.block_silent (M := machine (Solo κ)) (w := w) (o := .getSlot ()) rfl rfl rfl ?_
    refine Machine.block_silent (M := machine (Solo κ)) (w := w) (o := .now) rfl rfl rfl ?_
    refine Machine.block_silent (M := machine (Solo κ)) (w := w)
      (o := .putRecent () _) rfl rfl rfl ?_
    rw [he]
    refine Machine.block_silent (M := machine (Solo κ)) (o := .putRecent () _) rfl rfl rfl ?_
    exact Machine.block_sync (M := machine (Solo κ))
      (o := .send _) rfl rfl (Machine.block_await rfl)
  refine ⟨_, hblock.1, hblock.2.trans (if_pos hown), rfl, ?_, hown⟩
  simp [World.stamped]

/-- The answer is stored with the keys of the batch. -/
theorem settle_filled {batch : List κ} {r : Answer} :
    (machine (Solo κ)).settle t (do
        let storedAt ← now
        putEntry (K := Solo κ) () ⟨storedAt, batch, r⟩
        unlockSlot ()
        captures shape ttl argvs) w =
      (machine (Solo κ)).settle t (captures shape ttl argvs) { w with
        slots := Function.update w.slots () { w.slots () with entry := some ⟨w.instant, batch, r⟩ }
        fills := Function.update w.fills () ((t, ⟨w.instant, batch, r⟩) :: w.fills ())
        slotOwner := Function.update w.slotOwner () none } ∧
    (machine (Solo κ)).settleNotes (observer κ) t (do
        let storedAt ← now
        putEntry (K := Solo κ) () ⟨storedAt, batch, r⟩
        unlockSlot ()
        captures shape ttl argvs) w =
      (machine (Solo κ)).settleNotes (observer κ) t (captures shape ttl argvs) { w with
        slots := Function.update w.slots () { w.slots () with entry := some ⟨w.instant, batch, r⟩ }
        fills := Function.update w.fills () ((t, ⟨w.instant, batch, r⟩) :: w.fills ())
        slotOwner := Function.update w.slotOwner () none } ++
          [.filled t ⟨w.instant, batch, r⟩] := by
  refine Machine.block_silent (M := machine (Solo κ)) (w := w) (o := .now) rfl rfl rfl ?_
  refine Machine.block_sync (M := machine (Solo κ)) (w := w) (o := .putEntry () _) rfl rfl ?_
  exact Machine.block_silent (M := machine (Solo κ)) (o := .unlockSlot ()) rfl rfl rfl ⟨rfl, rfl⟩

/-- Where a client stands depends on its own batch only. -/
theorem Stands.of_iff {busy busy' : Option (Nat × List κ)} (h : Stands shape ttl busy t p)
    (hbusy : ∀ b, busy' = some (t, b) ↔ busy = some (t, b)) : Stands shape ttl busy' t p := by
  rcases h with ⟨hat, hb⟩ | ⟨batch, argvs, rfl, hb⟩
  · exact .inl ⟨hat, fun batch hb' => hb batch ((hbusy batch).mp hb')⟩
  · exact .inr ⟨batch, argvs, rfl, (hbusy batch).mpr hb⟩

/-- One client moves, and the others stay where they stand. -/
theorem Stands.update {busy busy' : Option (Nat × List κ)} {q : Prog (sig (Solo κ)) Unit}
    {tasks tasks' : Nat → Option (Prog (sig (Solo κ)) Unit)}
    (hold : ∀ u p, tasks u = some p → Stands shape ttl busy u p)
    (hnew : tasks' = Function.update tasks t (some q)) (hq : Stands shape ttl busy' t q)
    (hbusy : ∀ u b, u ≠ t → (busy' = some (u, b) ↔ busy = some (u, b))) :
    ∀ u p, tasks' u = some p → Stands shape ttl busy' u p := by
  intro u p hp
  by_cases hu : u = t
  · subst hu
    rw [hnew, Function.update_self, Option.some.injEq] at hp
    exact hp ▸ hq
  · rw [hnew, Function.update_of_ne hu] at hp
    exact (hold u p hp).of_iff fun b => hbusy u b hu

variable {c c' : Config (machine (Solo κ)) Unit} {s : Ledger κ}

omit [LinearOrder κ] in
/-- While an answer comes in, the slot is as it was. -/
theorem exec_recv_slot {i : Input} {r : Answer}
    (he : exec t (.recv : Op (Solo κ)) i w = some (r, w')) :
    w'.instant = w.instant ∧ w'.slots = w.slots ∧ w'.slotOwner = w.slotOwner := by
  cases effect_of_exec he with
  | look ho => cases ho
  | recv _ => exact ⟨rfl, rfl, rfl⟩

/-- The configuration and the ledger after a move of one client. -/
theorem Kept.update {q : Prog (sig (Solo κ)) Unit} {s' : Ledger κ} (h : Kept shape ttl c s)
    (hinstant : c'.world.instant = s'.instant) (hslot : c'.world.slots () = s'.slot)
    (howner : c'.world.slotOwner () = s'.busy.map Prod.fst)
    (htasks : c'.tasks = Function.update c.tasks t (some q)) (hq : Stands shape ttl s'.busy t q)
    (hbusy : ∀ u b, u ≠ t → (s'.busy = some (u, b) ↔ s.busy = some (u, b))) :
    Kept shape ttl c' s' :=
  ⟨hinstant, hslot, howner, Stands.update h.stands htasks hq hbusy⟩

/-- Who has no batch on its way has no lock. -/
theorem Kept.notOwner (h : Kept shape ttl c s) (hidle : ∀ batch, s.busy ≠ some (t, batch)) :
    c.world.slotOwner () ≠ some t := by
  rw [h.owner]
  intro howner
  obtain ⟨⟨u, batch⟩, hb, rfl⟩ := Option.map_eq_some_iff.mp howner
  exact hidle batch hb

/-- A client that takes the slot. -/
theorem Kept.locked {argv : Argv} {i : Input} {u : Unit} (h : Kept shape ttl c s)
    (hparse : shape.parse argv = some keys)
    (he : exec t (.lockSlot () keys : Op (Solo κ)) i c.world = some (u, w))
    (hs : (machine (Solo κ)).settle t (locked shape ttl keys argvs) w = some (p, c'.world))
    (htasks : c'.tasks = Function.update c.tasks t (some p)) :
    ∃ s', Ledger.Step shape ttl cancels s s' ∧ Kept shape ttl c' s' ∧ s'.log =
      (machine (Solo κ)).settleNotes (observer κ) t (locked shape ttl keys argvs) w ++
        [.asked t keys c.world.instant] ++ s.log := by
  obtain ⟨hinstant, hslot, howner, -⟩ := id h
  obtain ⟨hfree, hinstant', hslot', howner'⟩ : c.world.slotOwner () = none ∧
      w.instant = s.instant ∧ w.slots () = s.slot ∧ w.slotOwner () = some t := by
    simp only [exec] at he
    split at he
    · rename_i hfree
      cases he
      exact ⟨hfree, hinstant, hslot, by simp⟩
    · cases he
  have hbusy : s.busy = none := Option.map_eq_none_iff.mp (howner.symm.trans hfree)
  cases hentry : replayable s.slot.entry ttl keys s.instant with
  | some e =>
    rw [← hslot', ← hinstant'] at hentry
    obtain ⟨hset, hnotes⟩ := settle_replayed (t := t) hentry
    obtain ⟨hp, hi, hsl, hown, hsilent⟩ := settle_captures (hset.symm.trans hs) (by simp)
    rw [hslot', hinstant'] at hentry
    refine ⟨_, .replayed (t := t) hparse hbusy hentry, h.update (hi.trans hinstant') ?_ ?_ htasks
      (hp _ (by simp [hbusy])) (fun _ _ _ => .rfl), ?_⟩
    · rw [hsl, ← hslot', ← hinstant']
      simp [World.stamped]
    · rw [hown, hbusy]
      simp
    · rw [hnotes, hsilent, hinstant]
      rfl
  | none =>
    rw [← hslot', ← hinstant'] at hentry
    obtain ⟨w', hset, hnotes, hi, hsl, hown⟩ := settle_live shape argvs hentry howner'
    have hreg : w.registry ttl keys = s.registry ttl keys := by
      rw [World.registry, hslot', hinstant', Ledger.registry]
    rw [hslot', hinstant'] at hentry
    cases hset.symm.trans hs
    refine ⟨_, .live (t := t) hparse hbusy hentry, h.update (hi.trans hinstant') ?_ hown htasks
      (.inr ⟨_, argvs, hreg ▸ rfl, rfl⟩) (fun u b hu => ?_), ?_⟩
    · rw [hsl, hslot', hreg]
    · simp [hbusy, hu.symm]
    · rw [hnotes, hreg, hinstant', hinstant]
      rfl

/-- A client whose live query comes back. -/
theorem Kept.filled {batch : List κ} {i : Input} {r : Answer} (h : Kept shape ttl c s)
    (hbusy : s.busy = some (t, batch))
    (he : exec t (.recv : Op (Solo κ)) i c.world = some (r, w))
    (hs : (machine (Solo κ)).settle t (do
        let storedAt ← now
        putEntry (K := Solo κ) () ⟨storedAt, batch, r⟩
        unlockSlot ()
        captures shape ttl argvs) w = some (p, c'.world))
    (htasks : c'.tasks = Function.update c.tasks t (some p)) :
    ∃ s', Ledger.Step shape ttl cancels s s' ∧ Kept shape ttl c' s' ∧ s'.log =
      (machine (Solo κ)).settleNotes (observer κ) t (do
        let storedAt ← now
        putEntry (K := Solo κ) () ⟨storedAt, batch, r⟩
        unlockSlot ()
        captures shape ttl argvs) w ++ s.log := by
  obtain ⟨hinstant, hslot, -⟩ := exec_recv_slot he
  obtain ⟨hset, hnotes⟩ := settle_filled (w := w)
  obtain ⟨hp, hi, hsl, hown, hsilent⟩ := settle_captures (hset.symm.trans hs) (by simp)
  refine ⟨_, .filled (r := r) hbusy, h.update (hi.trans (hinstant.trans h.instant)) ?_ ?_ htasks
    (hp _ (by simp)) ?_, ?_⟩
  · rw [hsl, ← h.slot, ← h.instant, ← hinstant, ← hslot]
    simp
  · rw [hown]
    simp
  · intro u b hu
    simp [hbusy, hu.symm]
  · rw [hnotes, hsilent, hinstant, h.instant]
    rfl

/-- **Every move of the clients is a step of the ledger**, or leaves it as it is. -/
theorem Kept.next {m : Move (machine (Solo κ))} (h : Kept shape ttl c s) (hm : c.next m = some c')
    (hcancels : (∃ t, m = .drop t) → cancels) :
    ∃ s', Relation.ReflTransGen (Ledger.Step shape ttl cancels) s s' ∧ Kept shape ttl c' s' ∧
      s'.log = c.nextNotes (observer κ) m ++ s.log := by
  rcases Config.next_cases hm with ⟨t, i, o, k, a, w, p, rfl, ht, he, hset, htasks⟩ |
    ⟨e, rfl, he, htasks⟩ | ⟨t, o, k, rfl, ht, hw, htasks⟩
  · rw [Config.nextNotes_pass ht he]
    rcases h.stands t _ ht with ⟨⟨argvs, hp | hp⟩, hidle⟩ | ⟨batch, argvs, hp, hbusy⟩
    · cases argvs with
      | nil => cases hp
      | cons argv rest =>
        cases hparse : shape.parse argv with
        | none =>
          cases hp.trans (captures_of_none hparse)
          cases he
          obtain ⟨rfl, hw⟩ := Prod.mk.inj (Option.some.inj hset)
          refine ⟨s, .refl, h.update (hw ▸ h.instant) (hw ▸ h.slot) (hw ▸ h.owner) htasks
            (.inl ⟨⟨rest, .inr rfl⟩, hidle⟩) (fun _ _ _ => .rfl), ?_⟩
          have hnote : observer κ t (.send argv) c.world = [] := if_neg (h.notOwner hidle)
          rw [hnote]
          rfl
        | some keys =>
          cases hp.trans (captures_of_some hparse)
          obtain ⟨s', hstep, hk, hlog⟩ := h.locked (i := i) hparse he hset htasks
          exact ⟨s', .single hstep, hk, hlog⟩
    · cases hp
      obtain ⟨hinstant, hslot, howner⟩ := exec_recv_slot he
      have hfree : w.slotOwner () ≠ some t := howner ▸ h.notOwner hidle
      obtain ⟨hp, hi, hsl, hown, hsilent⟩ := settle_captures hset hfree
      refine ⟨s, .refl, h.update (hi.trans (hinstant.trans h.instant)) ?_ ?_ htasks (hp _ hidle)
        (fun _ _ _ => .rfl), congrArg (· ++ [] ++ s.log) hsilent.symm⟩
      · rw [hsl, hslot, h.slot]
      · rw [hown, howner, h.owner]
    · cases hp
      obtain ⟨s', hstep, hk, hlog⟩ := h.filled hbusy he hset htasks
      exact ⟨s', .single hstep, hk, hlog.trans (congrArg (· ++ s.log) (List.append_nil _).symm)⟩
  · have hw := Option.some.inj he
    refine ⟨_, .single (.elapsed e.dt), ⟨?_, ?_, ?_, ?_⟩, rfl⟩
    · rw [← hw, ← h.instant]
    · rw [← hw]
      exact h.slot
    · rw [← hw]
      exact h.owner
    · rw [htasks]
      exact h.stands
  · have howner : c'.world.slotOwner () =
        if c.world.slotOwner () = some t then none else c.world.slotOwner () := by
      rw [hw]
      rfl
    have hgone : ∀ {busy : Option (Nat × List κ)}, (∀ u b, u ≠ t → (busy = some (u, b) ↔
        s.busy = some (u, b))) → ∀ u p, c'.tasks u = some p → Stands shape ttl busy u p := by
      intro busy hbusy u p hp
      by_cases hu : u = t
      · rw [htasks, hu, Function.update_self] at hp
        cases hp
      · rw [htasks, Function.update_of_ne hu] at hp
        exact (h.stands u p hp).of_iff fun b => hbusy u b hu
    by_cases hb : ∃ batch, s.busy = some (t, batch)
    · obtain ⟨batch, hb⟩ := hb
      refine ⟨_, .single (.dropped (hcancels ⟨t, rfl⟩)), ⟨hw ▸ h.instant, hw ▸ h.slot, ?_,
        hgone fun u b hu => ?_⟩, rfl⟩
      · rw [howner, h.owner, hb]
        simp
      · simp [hb, hu.symm]
    · have hidle : ∀ batch, s.busy ≠ some (t, batch) := fun batch h => hb ⟨batch, h⟩
      refine ⟨s, .refl, ⟨hw ▸ h.instant, hw ▸ h.slot, ?_, hgone fun _ _ _ => .rfl⟩, rfl⟩
      rw [howner, if_neg (h.notOwner hidle), h.owner]

/-- The clients of a new cache. -/
def clientsOf (shape : QueryShape κ) (ttl : Nat) (clients : Nat → Option (List Argv))
    (uuids : Supply Nat)
    (utc : Nat) :
    Config (machine (Solo κ)) Unit :=
  ⟨World.start uuids utc 0 (fun _ => .submitted 0 0 none) [],
    fun t => (clients t).map (captures shape ttl)⟩

/-- **Every run of the clients of a new cache is a run of its ledger.** -/
theorem captures_ledger {clients : Nat → Option (List Argv)} {ms : List (Move (machine (Solo κ)))}
    {uuids : Supply Nat} {utc : Nat} (hcancels : (∃ t, .drop t ∈ ms) → cancels)
    (hr : (clientsOf shape ttl clients uuids utc).run ms = some c') :
    ∃ s, Ledger.Reach shape ttl cancels s ∧ Kept shape ttl c' s ∧
      s.log = (clientsOf shape ttl clients uuids utc).notes (observer κ) ms := by
  have hstart : Kept shape ttl (clientsOf shape ttl clients uuids utc) (Ledger.start κ) := by
    refine ⟨rfl, rfl, rfl, fun t p hp => ?_⟩
    obtain ⟨argvs, -, rfl⟩ := Option.map_eq_some_iff.mp hp
    exact .inl ⟨⟨argvs, .inl rfl⟩, fun batch hb => by cases hb⟩
  rw [← List.append_nil (Config.notes _ _ _)]
  refine Config.run_notes_induct
    (P := fun c l => ∃ s, Ledger.Reach shape ttl cancels s ∧ Kept shape ttl c s ∧ s.log = l)
    (S := fun m => (∃ t, m = .drop t) → cancels) (fun c l m c' hc hm hnext => ?_)
    ⟨_, .refl, hstart, rfl⟩ (fun m hm ht => ?_) hr
  · obtain ⟨s, hreach, hk, rfl⟩ := hc
    obtain ⟨s', hsteps, hk', hlog⟩ := hk.next hnext hm
    exact ⟨s', hreach.trans hsteps, hk', hlog⟩
  · obtain ⟨t, rfl⟩ := ht
    exact hcancels ⟨t, hm⟩

end Refinement

end Sbatch

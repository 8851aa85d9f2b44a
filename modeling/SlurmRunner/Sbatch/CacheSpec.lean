/-
# What the cache answers

`Answered` is the contract of a caching dispatcher: the answer of its own live call, or the
replay of a call that completed less than `ttl` before the check; either way the inner command
asked for every requested key.  `wp_cachingCapture` proves it of the code, in any context of the
lock discipline, and `serves_handleDispatcher` of the three stacked caches of a manager.
-/
import SlurmRunner.Sbatch.Discipline

namespace Sbatch

open Text Slurm Interact

variable {ι : Type} {K : ι → Type} {A : Audit K} {t : Nat} {w : World K}

/-- Task `t` neither holds a slot nor has a command running. -/
def Idle (t : Nat) (w : World K) : Prop := w.inflight t = none ∧ ∀ i, w.slotOwner i ≠ some t

/-- What the other tasks do leaves a task idle. -/
theorem Others.idle {w' : World K} (h : Others t w w') (hi : Idle t w) : Idle t w' :=
  ⟨h.slots.inflight.trans hi.1, fun i => h.slots.notOwned i (hi.2 i)⟩

/-- In the beginning no task has a call in flight or a lock. -/
theorem idle_start (t : Nat) (uuids : Supply Nat) (utc n : Nat) (snaps : Nat → SbatchJobSnapshot)
    (store : Store) :
    Idle t (World.start uuids utc n snaps store : World K) := ⟨rfl, fun _ h => by cases h⟩

/-- What the other tasks store is not stored in this one's name. -/
theorem Others.noFill {w' : World K} (h : Others t w w') (hn : NoFill t w) : NoFill t w' :=
  fun i f hf ht => hn i f (h.slots.fills i f hf ht) ht

/-- The operations of a dispatcher. -/
def Op.onDispatch : Op K → Bool
  | .now | .lockSlot _ _ | .unlockSlot _ | .getSlot _ | .putRecent _ _ | .putEntry _ _ | .send _
  | .recv => true
  | _ => false

/-- Every operation of the dispatcher is a dispatcher's. -/
def DispatchesOnly (d : Dispatcher K) : Prop :=
  ∀ argv, (d argv).Uses fun o : Op K => o.onDispatch = true

/-- The bare dispatcher sends the command and does nothing else. -/
theorem dispatchesOnly_runCommand : DispatchesOnly (runCommand : Dispatcher K) := fun _ =>
  Prog.uses_bind (Prog.uses_op rfl) fun _ => Prog.uses_op rfl

/-- A cache makes its own operations on the slot and the clock, and what the dispatcher behind it
does. -/
theorem dispatchesOnly_cachingCapture {i : ι} [LinearOrder (K i)] {shape : QueryShape (K i)}
    {ttl : Nat} {inner : Dispatcher K} (h : DispatchesOnly inner) :
    DispatchesOnly (cachingCapture i shape ttl inner) := by
  intro argv
  unfold cachingCapture
  split
  · exact h argv
  · refine Prog.uses_bind (Prog.uses_op rfl) fun _ => Prog.uses_bind (Prog.uses_op rfl) fun _ =>
      Prog.uses_bind (Prog.uses_op rfl) fun _ => Prog.uses_bind (Prog.uses_op rfl) fun _ => ?_
    dsimp only
    split
    · exact Prog.uses_bind (Prog.uses_op rfl) fun _ => Prog.uses_ret _
    · exact Prog.uses_bind (Prog.uses_op rfl) fun _ => Prog.uses_bind (h _) fun _ =>
        Prog.uses_bind (Prog.uses_op rfl) fun _ => Prog.uses_bind (Prog.uses_op rfl) fun _ =>
        Prog.uses_bind (Prog.uses_op rfl) fun _ => Prog.uses_ret _

variable [DecidableEq ι] {C : Context (machine K)}

/-! ## 1. The rules of the operations

For an operation that awaits, the other tasks come first, and the rule speaks of the world `w₁` that
they leave; a silent one is carried out in the world as it is.  Each rule says what the answer is
and what becomes of the slot, so that the proofs about `caching_capture` never unfold `exec`. -/

section Rules

/-- A silent operation is made in the world in which the program has come to it. -/
theorem wp_perform_sync (hC : Under A C) {o : Op K} {Q : o.Ans → World K → Prop}
    (ho : o.await = false) (hp : Permit A t o w)
    (h : ∀ i a w', Inv A w → exec t o i w = some (a, w') → Inv A w' → Q a w') :
    C.wp t (perform o) Q w :=
  Context.wp_sync ho (fun _ => hC.pre ▸ hp)
    (fun i a w' hi he hi' => h i a w' (hC.inv ▸ hi) he (hC.inv ▸ hi'))

/-- An operation that awaits is made in a world that the others may have changed. -/
theorem wp_perform_await (hC : Under A C) {o : Op K} {Q : o.Ans → World K → Prop}
    (hp : ∀ w₁ : World K, C.rely t w w₁ → Inv A w₁ → Permit A t o w₁)
    (h : ∀ (w₁ : World K) i a w', C.rely t w w₁ → Inv A w₁ → exec t o i w₁ = some (a, w') →
      Inv A w' →
      Q a w') : C.wp t (perform o) Q w :=
  Context.wp_await (fun w₁ hr hi => hC.pre ▸ hp w₁ hr (hC.inv ▸ hi))
    (fun w₁ i a w' hr hi he hi' => h w₁ i a w' hr (hC.inv ▸ hi) he (hC.inv ▸ hi'))

/-- `Instant::now` reads the clock that never goes back. -/
theorem wp_now (hC : Under A C) {Q : Nat → World K → Prop} (h : Inv A w → Q w.instant w) :
    C.wp t now Q w :=
  wp_perform_sync hC rfl trivial fun _ _ _ hi he _ => by
    cases he
    exact h hi

/-- `Utc::now` reads the clock of the system. -/
theorem wp_utcNow (hC : Under A C) {Q : Nat → World K → Prop} (h : Inv A w → Q w.utc w) :
    C.wp t utcNow Q w :=
  wp_perform_sync hC rfl trivial fun _ _ _ hi he _ => by
    cases he
    exact h hi

/-- A slot is read as it is: its lock is held. -/
theorem wp_getSlot (hC : Under A C) {i : ι} {Q : Slot (K i) → World K → Prop}
    (h : Inv A w → Q (w.slots i) w) : C.wp t (getSlot i) Q w :=
  wp_perform_sync hC rfl trivial fun _ _ _ hi he _ => by
    cases he
    exact h hi

/-- The watch value of a handle is read as it is. -/
theorem wp_borrow (hC : Under A C) {x : Nat} {Q : SbatchJobSnapshot → World K → Prop}
    (h : Inv A w → Q (w.watch x) w) : C.wp t (borrow x) Q w :=
  wp_perform_sync hC rfl trivial fun _ _ _ hi he _ => by
    cases he
    exact h hi

/-- The lock of a slot is got when nobody has it, with the slot as the last one left it. -/
theorem wp_lockSlot (hC : Under A C) {i : ι} {requested : List (K i)} {Q : Unit → World K → Prop}
    (hq : ∀ w₁, Others t w w₁ → A.quiet t → NoFill t w₁)
    (h : ∀ w₁ : World K, C.rely t w w₁ → Inv A w₁ → w₁.slotOwner i = none →
      Q () { w₁ with slotOwner := Function.update w₁.slotOwner i (some t) }) :
    C.wp t (lockSlot i requested) Q w := by
  refine wp_perform_await hC (fun w₁ hr _ => hq w₁ (hC.rely hr)) fun w₁ _ _ w' hr hi he _ => ?_
  simp only [exec] at he
  split at he
  · rename_i hfree
    cases he
    exact h w₁ hr hi hfree
  · cases he

/-- The lock is released only when no call is in flight. -/
theorem wp_unlockSlot (hC : Under A C) {i : ι} {Q : Unit → World K → Prop}
    (hown : w.slotOwner i = some t) (hfly : w.inflight t = none)
    (h : Q () { w with slotOwner := Function.update w.slotOwner i none }) :
    C.wp t (unlockSlot i) Q w :=
  wp_perform_sync hC rfl ⟨hown, hfly⟩ fun _ _ _ _ he _ => by
    cases he
    exact h

/-- The keys that were asked for lately are stored under the lock of the slot. -/
theorem wp_putRecent (hC : Under A C) {i : ι} {r : List (K i × Nat)}
    {Q : Unit → World K → Prop} (hown : w.slotOwner i = some t)
    (h : Q () { w with slots := Function.update w.slots i { w.slots i with recent := r } }) :
    C.wp t (putRecent i r) Q w :=
  wp_perform_sync hC rfl hown fun _ _ _ _ he _ => by
    cases he
    exact h

/-- An entry is stored under the lock, with the instant of now, and with a call behind it that has
run. -/
theorem wp_putEntry (hC : Under A C) {i : ι} {e : CachedEntry (K i)} {Q : Unit → World K → Prop}
    (hown : w.slotOwner i = some t) (hat : e.storedAt = w.instant)
    (hb : Backed (A.shape i) e w.calls)
    (h : Q () { w with
      slots := Function.update w.slots i { w.slots i with entry := some e }
      fills := Function.update w.fills i ((t, e) :: w.fills i) }) :
    C.wp t (putEntry i e) Q w :=
  wp_perform_sync hC rfl ⟨hown, hat, hb⟩ fun _ _ _ _ he _ => by
    cases he
    exact h

end Rules

/-! ## 2. Running a command

A command is on its way between two steps of its task.  The call that answers it has begun after the
task came to it, and it is the last one in the list of the calls when the task goes on. -/

/-- Task `t` has run the command `argv` since `w`, and `r` came back just now. -/
def Ran (t : Nat) (argv : Argv) (r : Answer) (w w' : World K) : Prop :=
  ∃ c, w'.callsOf t = c :: w.callsOf t ∧ c ∈ w'.calls ∧ c.tid = t ∧ c.argv = argv ∧
    c.result = r ∧ w.instant ≤ c.startedAt ∧ c.doneAt = w'.instant

/-- The answer of a command is that of a call of its own, begun after `w`, and a slot that the task
holds is untouched. -/
theorem wp_runCommand (hC : Under A C) (argv : Argv) (hq : A.quiet t → NoFill t w)
    (hh : ∀ i, A.holds t = some i → w.slotOwner i = some t) :
    C.wp t (runCommand argv) (fun r w' => Ran t argv r w w' ∧ w'.inflight t = none ∧
      (∀ i, w.slotOwner i = some t → w'.slotOwner i = some t ∧ w'.slots i = w.slots i) ∧
      (∀ i, w.slotOwner i ≠ some t → w'.slotOwner i ≠ some t) ∧
      (A.quiet t → NoFill t w') ∧ w.instant ≤ w'.instant) w := by
  unfold runCommand
  refine Context.wp_bind (wp_perform_sync hC rfl hh fun _ _ _ _ he _ => ?_)
  cases he
  refine wp_perform_await hC (fun w₁ hr _ hqt => ?_) fun w₁ i r w' hr _ he _ => ?_
  · exact (hC.rely hr).noFill (hq hqt)
  · have ho := hC.rely hr
    have hfly : w₁.inflight t = some ⟨argv, w.instant⟩ := by
      rw [ho.slots.inflight]
      simp
    cases i with
    | go | saved _ => simp [exec] at he
    | output out =>
      simp only [exec, hfly] at he
      cases he
      refine ⟨⟨⟨t, argv, w.instant, w₁.instant, r⟩, ?_, by simp, rfl, rfl, rfl, le_refl _, rfl⟩,
        by simp, fun i hi => ho.slots.owned i hi, fun i hi => ho.slots.notOwned i hi,
        fun hqt => ho.noFill (hq hqt), ho.dispatched.instant⟩
      have hcalls : w₁.callsOf t = w.callsOf t := ho.callsOf
      simp [World.callsOf] at hcalls ⊢
      exact hcalls

/-! ## 3. The contract of a cache

`Answered` says where the answer of `caching_capture` comes from, and how old it is at the instant
at which the call has returned. It is proved with the lock of the slot held, so that between the
check of the entry and the return of a replay nothing else happens. -/

/-- **The contract.**  Between `since` and `now` task `tid` got the answer `r` to a request for
the keys `requested`, from an inner command `c` that asked for all of them: its own one, or one, of
which `P` holds, that had completed less than `ttl` before the check.  A replay is returned at the
instant of its check, and that is `now`. -/
def Answered {κ : Type} (shape : QueryShape κ) (ttl : Nat) (tid : Nat) (requested : List κ)
    (since now : Nat) (r : Answer) (P : Call → Prop) (calls : List Call) : Prop :=
  ∃ c ∈ calls, ∃ batch, c.argv = shape.build batch ∧ (∀ k ∈ requested, k ∈ batch) ∧
    c.startedAt ≤ c.doneAt ∧
    ((c.tid = tid ∧ since ≤ c.startedAt ∧ c.doneAt ≤ now ∧ r = c.result) ∨
     (since ≤ now ∧ c.doneAt ≤ now ∧ now < c.doneAt + ttl ∧
       r = replay c.result shape.replayMarker ∧ P c))

/-- What was answered stays so, as more calls come in. -/
theorem Answered.mono {κ : Type} {shape : QueryShape κ} {ttl : Nat} {tid : Nat}
    {requested : List κ} {since now : Nat} {r : Answer} {P P' : Call → Prop}
    {calls calls' : List Call} (h : Answered shape ttl tid requested since now r P calls)
    (hP : ∀ c, P c → P' c) (hs : calls <:+ calls') :
    Answered shape ttl tid requested since now r P' calls' := by
  obtain ⟨c, hc, batch, hargv, hkeys, hle, h⟩ := h
  refine ⟨c, hs.subset hc, batch, hargv, hkeys, hle, h.imp_right ?_⟩
  rintro ⟨h1, h2, h3, h4, h5⟩
  exact ⟨h1, h2, h3, h4, hP c h5⟩

/-- The call was stored in slot `i` since the world `w`, or is the one behind the entry that the
slot had then, with all the keys. -/
def FromSlot (w : World K) (i : ι) (requested : List (K i)) (c : Call) : Prop :=
  w.instant ≤ c.doneAt ∨ ∃ e, (w.slots i).entry = some e ∧ e.storedAt = c.doneAt ∧
    e.result = c.result ∧ ∀ k ∈ requested, k ∈ e.keys

omit [DecidableEq ι] in
/-- A call that was stored since a later world was stored since an earlier one. -/
theorem FromSlot.mono {w₀ w : World K} {i : ι} {requested : List (K i)} {c : Call}
    (h : FromSlot w i requested c) (hel : Elapse w₀ w) : FromSlot w₀ i requested c := by
  rcases h with h | ⟨e, he, hat, hres, hkeys⟩
  · exact .inl (hel.instant.trans h)
  · rcases hel.entry i with hsame | ⟨e', he', hat'⟩
    · exact .inr ⟨e, hsame ▸ he, hat, hres, hkeys⟩
    · rw [he, Option.some.injEq] at he'
      exact .inl (hat ▸ he' ▸ hat')

/-- The task has not run the command since the world `w`. -/
def Call.Before (c : Call) (t : Nat) (w : World K) : Prop := c.tid = t → c ∈ w.calls

/-- **When an entry is replayed**: it is there, it is younger than `ttl`, and it has every key that
is asked for. -/
theorem replayable_eq_some {κ : Type} [LinearOrder κ] {entry : Option (CachedEntry κ)}
    {ttl : Nat} {requested : List κ} {now : Nat} {e : CachedEntry κ} :
    replayable entry ttl requested now = some e ↔
      entry = some e ∧ now - e.storedAt < ttl ∧ ∀ k ∈ requested, k ∈ e.keys := by
  rw [replayable, Option.filter_eq_some_iff]
  simp

/-- **A caching dispatcher keeps its contract.** -/
theorem wp_cachingCapture (hC : Under A C) {i : ι} [LinearOrder (K i)] {shape : QueryShape (K i)}
    (hshape : A.shape i = shape) {ttl : Nat} {inner : Dispatcher K} {argv : Argv}
    {requested : List (K i)}
    (hinner : ∀ batch, inner (shape.build batch) = runCommand (shape.build batch))
    (hparse : shape.parse argv = some requested) (hidle : Idle t w)
    (hq : A.quiet t → NoFill t w) (hh : ∀ j, A.holds t = some j → j = i) :
    C.wp t (cachingCapture i shape ttl inner argv) (fun r w' => Idle t w' ∧
      Answered shape ttl t requested w.instant w'.instant r
        (fun c => FromSlot w i requested c ∧ c.Before t w) w'.calls) w := by
  subst hshape
  unfold cachingCapture
  simp only [hparse]
  refine Context.wp_bind (wp_lockSlot hC (fun w₁ ho hqt => ho.noFill (hq hqt)) ?_)
  intro w₁ hr hi₁ hfree
  have ho := hC.rely hr
  have hid₁ := ho.idle hidle
  refine Context.wp_bind (wp_getSlot hC fun _ => ?_)
  refine Context.wp_bind (wp_now hC fun _ => ?_)
  refine Context.wp_bind (wp_putRecent hC (by simp) ?_)
  have hlt : w.instant ≤ w₁.instant := ho.dispatched.instant
  -- the slots of other caches stay free throughout
  have hothers : ∀ j, j ≠ i → w₁.slotOwner j ≠ some t := fun j _ => hid₁.2 j
  dsimp only
  cases hrep : replayable (w₁.slots i).entry ttl requested w₁.instant with
  | some e =>
    obtain ⟨hentry, hage, hkeys⟩ := replayable_eq_some.mp hrep
    obtain ⟨hat, c, hc, hargv, hdone, hres⟩ := hi₁.entries i e hentry
    refine Context.wp_bind (wp_unlockSlot hC (by simp) hid₁.1 ?_)
    have hslot : FromSlot w₁ i requested c := .inr ⟨e, hentry, hdone.symm, hres.symm, hkeys⟩
    have hbefore : c.Before t w := by
      intro htid
      have hown : c ∈ w₁.callsOf t := List.mem_filter.mpr ⟨hc, by simpa using htid⟩
      rw [ho.callsOf] at hown
      exact List.mem_of_mem_filter hown
    have hstored : c.doneAt ≤ w₁.instant := hdone ▸ hat
    have hfresh : w₁.instant < c.doneAt + ttl := by omega
    refine ⟨⟨hid₁.1, fun j => ?_⟩, c, hc, e.keys, hargv, hkeys, (hi₁.calls c hc).1,
      .inr ⟨hlt, hstored, hfresh, by rw [hres], hslot.mono ho.dispatched.toElapse, hbefore⟩⟩
    by_cases hj : j = i
    · subst hj
      simp
    · simpa [Function.update_of_ne hj] using hothers j hj
  | none =>
    dsimp only
    refine Context.wp_bind (wp_putRecent hC (by simp) ?_)
    rw [hinner]
    refine Context.wp_seq (wp_runCommand hC _ (fun hqt => ?_) fun j hj => ?_) ?_
    · exact ho.noFill (hq hqt)
    · rw [hh j hj]
      simp
    intro r w₂ hpost
    obtain ⟨⟨c, -, hc, htid, hargv, hres, hstart, hdone⟩, hfly, hown, hnot, -, hle⟩ := hpost
    dsimp only at hstart hown hnot hle
    have hown_i : w₂.slotOwner i = some t := (hown i (by simp)).1
    refine Context.wp_bind (wp_now hC fun hi₂ => ?_)
    refine Context.wp_bind (wp_putEntry hC hown_i rfl ⟨c, hc, hargv, hdone, hres⟩ ?_)
    refine Context.wp_bind (wp_unlockSlot hC hown_i hfly ?_)
    refine ⟨⟨hfly, fun j => ?_⟩, c, hc, _, hargv, fun k hk => mem_batchOf_of_requested hk,
      (hi₂.calls c hc).1, .inl ⟨htid, hlt.trans hstart, hdone.le, hres.symm⟩⟩
    by_cases hj : j = i
    · subst hj
      simp
    · simpa [Function.update_of_ne hj] using
        hnot j (by simpa [Function.update_of_ne hj] using hothers j hj)

/-! ## 4. Dispatchers

What a program is told through a dispatcher it reads off one call.  A bare dispatcher makes a call
for each command, that of a manager answers three kinds of commands from its caches. -/

/-- A dispatcher leaves the handles, the store and the answers read so far alone. -/
theorem exec_dispatched {o : Op K} {i : Input} {w' : World K} {a : o.Ans}
    (ho : o.onDispatch = true) (hp : Permit A t o w) (he : exec t o i w = some (a, w')) :
    Dispatched t w w' := by
  have hh : o.onHandles = false := by cases o <;> first | rfl | cases ho
  obtain ⟨h1, h2, h3⟩ := exec_handles_eq he hh
  have hkept : HandlesKept t w w' :=
    ⟨fun x hx => ⟨h1 ▸ hx, by rw [h2], fun e hm _ => h3 ▸ hm⟩, fun x hx => h1 ▸ hx⟩
  have hrec : w'.reads = w.reads ∧ w'.saves = w.saves := by
    cases effect_of_exec he with
    | read | save => cases ho
    | _ => exact ⟨rfl, rfl⟩
  exact ⟨exec_elapse hp he, hkept, by rw [World.readsOf, hrec.1, World.readsOf],
    by rw [World.savesOf, hrec.2, World.savesOf]⟩

/-- What a handle needs of its dispatcher: every answer may be read. -/
structure Serves (A : Audit K) (C : Context (machine K)) (t : Nat) (d : Dispatcher K) : Prop where
  only : DispatchesOnly d
  answers : ∀ argv w, Idle t w → C.wp t (d argv) (fun r w' => Idle t w' ∧
    A.read ⟨t, argv, w.instant, w'.instant, r⟩ w'.calls ∧
    A.seen w ⟨t, argv, w.instant, w'.instant, r⟩ w'.calls) w

/-- While a dispatcher runs, the caller's handles are as it left them. -/
theorem Serves.dispatched (hC : Under A C) {d : Dispatcher K} (hd : Serves A C t d) (argv : Argv)
    (hidle : Idle t w) : C.wp t (d argv) (fun r w' => (Idle t w' ∧
      A.read ⟨t, argv, w.instant, w'.instant, r⟩ w'.calls ∧
      A.seen w ⟨t, argv, w.instant, w'.instant, r⟩ w'.calls) ∧ Dispatched t w w') w :=
  Context.wp_frame (fun h h' => h.trans h') (fun h => (hC.rely h).dispatched)
    (fun ho hp he => exec_dispatched ho (hC.pre ▸ hp) he) (hd.only argv)
    (hd.answers argv w hidle) (Dispatched.refl t w)

/-! ### A bare dispatcher -/

/-- An answer read straight from a command of the reader. -/
def BareRead (rd : Read) (calls : List Call) : Prop :=
  ∃ c ∈ calls, c.tid = rd.tid ∧ c.argv = rd.argv ∧ c.result = rd.result ∧
    rd.since ≤ c.startedAt ∧ c.doneAt ≤ rd.readAt

/-- More calls take nothing back. -/
theorem BareRead.mono {rd : Read} {calls calls' : List Call} (h : BareRead rd calls)
    (hs : calls <:+ calls') : BareRead rd calls' := by
  obtain ⟨c, hc, hrest⟩ := h
  exact ⟨c, hs.subset hc, hrest⟩

/-- The bare dispatcher answers each command with a call for this command. -/
theorem serves_runCommand (hC : Under A C) (hread : A.read = BareRead)
    (hseen : ∀ w rd calls, A.seen w rd calls) (hquiet : ∀ u, ¬ A.quiet u)
    (hholds : ∀ u, A.holds u = none) :
    Serves A C t (runCommand : Dispatcher K) where
  only := dispatchesOnly_runCommand
  answers argv w hidle := by
    refine Context.wp_mono (wp_runCommand hC argv (fun h => absurd h (hquiet t))
      fun i hi => by simp [hholds] at hi) ?_
    rintro r w' ⟨⟨c, -, hc, htid, hargv, hres, hstart, hdone⟩, hfly, -, hnot, -⟩
    refine ⟨⟨hfly, fun i => hnot i (hidle.2 i)⟩, ?_, hseen _ _ _⟩
    rw [hread]
    exact ⟨c, hc, htid, hargv, hres, hstart, hdone.le⟩

/-! ### The dispatcher of a manager -/

/-- The shape of each cache. -/
def toolShape : (i : Tool) → QueryShape (Key i)
  | .qgroup => qgroupListingShape
  | .squeue => squeueSummaryShape
  | .sacct => sacctExitCodeShape

/-- An answer read through the caches of a manager. -/
def CachedRead (ttl : Nat) (rd : Read) (calls : List Call) : Prop :=
  ∀ i requested, (toolShape i).parse rd.argv = some requested →
    Answered (toolShape i) ttl rd.tid requested rd.since rd.readAt rd.result (fun _ => True) calls

/-- The same, with what is known since the world `w` of the answers that are replays. -/
def CachedSince (ttl : Nat) (w : World Key) (rd : Read) (calls : List Call) : Prop :=
  ∀ i requested, (toolShape i).parse rd.argv = some requested →
    Answered (toolShape i) ttl rd.tid requested rd.since rd.readAt rd.result
      (FromSlot w i requested) calls

/-- Where the call was stored is forgotten. -/
theorem CachedSince.read {ttl : Nat} {w : World Key} {rd : Read} {calls : List Call}
    (h : CachedSince ttl w rd calls) : CachedRead ttl rd calls := fun i requested hp =>
  (h i requested hp).mono (fun _ _ => trivial) List.suffix_rfl

/-- More calls take nothing back. -/
theorem CachedRead.mono {ttl : Nat} {rd : Read} {calls calls' : List Call}
    (h : CachedRead ttl rd calls) (hs : calls <:+ calls') : CachedRead ttl rd calls' :=
  fun i requested hp => (h i requested hp).mono (fun _ => id) hs

/-- What is known since a world is known since an earlier one. -/
theorem CachedSince.mono {ttl : Nat} {w₀ w : World Key} {rd : Read} {calls calls' : List Call}
    (h : CachedSince ttl w rd calls) (hel : Elapse w₀ w) (hs : calls <:+ calls') :
    CachedSince ttl w₀ rd calls' := fun i requested hp =>
  (h i requested hp).mono (fun _ hc => hc.mono hel) hs

/-- The first cache takes one command line only. -/
theorem qgroup_parse_eq_some {argv : Argv} {ks : List JobId}
    (h : qgroupListingShape.parse argv = some ks) : argv = qgroupArgv ∧ ks = [] := by
  simp only [qgroupListingShape] at h
  split at h
  · rename_i ha
    cases h
    exact ⟨ha, rfl⟩
  · cases h

/-- The second cache takes the squeue queries with a list of keys. -/
theorem squeue_parse_eq_some {argv : Argv} {ks : List JobKey}
    (h : squeueSummaryShape.parse argv = some ks) :
    ∃ csv, argv = squeueArgv csv ∧ JobKey.parseCsv csv = some ks := by
  simp only [squeueSummaryShape] at h
  split at h
  · rename_i a₀ a₁ a₂ a₃ csv a₅ a₆
    split at h
    · rename_i ha
      obtain ⟨rfl, rfl, rfl, rfl, rfl, rfl⟩ := ha
      exact ⟨csv, rfl, h⟩
    · cases h
  · cases h

/-- The third cache takes the sacct queries with a list of keys. -/
theorem sacct_parse_eq_some {argv : Argv} {ks : List JobKey}
    (h : sacctExitCodeShape.parse argv = some ks) :
    ∃ csv, argv = sacctArgv csv ∧ JobKey.parseCsv csv = some ks := by
  simp only [sacctExitCodeShape] at h
  split at h
  · rename_i a₀ a₁ a₂ a₃ csv a₅ a₆
    split at h
    · rename_i ha
      obtain ⟨rfl, rfl, rfl, rfl, rfl, rfl⟩ := ha
      exact ⟨csv, rfl, h⟩
    · cases h
  · cases h

/-- The command lines of the three programs and the three caches: each cache takes its own. -/
@[simp] theorem qgroup_parse_qgroupArgv : qgroupListingShape.parse qgroupArgv = some [] := by
  simp [qgroupListingShape, qgroupArgv]

@[simp] theorem qgroup_parse_squeueArgv (csv : Str) :
    qgroupListingShape.parse (squeueArgv csv) = none := by
  refine Option.eq_none_iff_forall_ne_some.mpr fun ks h => ?_
  exact squeueArgv_ne_qgroupArgv csv (qgroup_parse_eq_some h).1

@[simp] theorem qgroup_parse_sacctArgv (csv : Str) :
    qgroupListingShape.parse (sacctArgv csv) = none := by
  refine Option.eq_none_iff_forall_ne_some.mpr fun ks h => ?_
  exact sacctArgv_ne_qgroupArgv csv (qgroup_parse_eq_some h).1

@[simp] theorem squeue_parse_qgroupArgv : squeueSummaryShape.parse qgroupArgv = none := rfl

@[simp] theorem squeue_parse_squeueArgv (csv : Str) :
    squeueSummaryShape.parse (squeueArgv csv) = JobKey.parseCsv csv := by
  unfold squeueSummaryShape squeueArgv
  dsimp only
  exact if_pos ⟨rfl, rfl, rfl, rfl, rfl, rfl⟩

@[simp] theorem squeue_parse_sacctArgv (csv : Str) :
    squeueSummaryShape.parse (sacctArgv csv) = none := by
  unfold squeueSummaryShape sacctArgv
  dsimp only
  exact if_neg fun h => absurd h.1 (by decide)

@[simp] theorem sacct_parse_qgroupArgv : sacctExitCodeShape.parse qgroupArgv = none := rfl

@[simp] theorem sacct_parse_squeueArgv (csv : Str) :
    sacctExitCodeShape.parse (squeueArgv csv) = none := by
  unfold sacctExitCodeShape squeueArgv
  dsimp only
  exact if_neg fun h => absurd h.1 (by decide)

@[simp] theorem sacct_parse_sacctArgv (csv : Str) :
    sacctExitCodeShape.parse (sacctArgv csv) = JobKey.parseCsv csv := by
  unfold sacctExitCodeShape sacctArgv
  dsimp only
  exact if_pos ⟨rfl, rfl, rfl, rfl, rfl, rfl⟩

/-- The query of the first cache has no keys in it. -/
theorem qgroup_build (batch : List JobId) : qgroupListingShape.build batch = qgroupArgv := rfl

/-- The query of the second cache is that of its keys in their order. -/
theorem squeue_build (batch : List JobKey) :
    squeueSummaryShape.build batch = squeueArgv (JobKey.buildCsv batch) := rfl

/-- The three wrappers intercept disjoint command lines, so each query meets one cache, over the
bare dispatcher. -/
theorem handleDispatcher_cases (ttl : Nat) (argv : Argv) :
    (∃ inner, argv = qgroupArgv ∧
      handleDispatcher ttl runCommand argv =
        cachingCapture .qgroup qgroupListingShape ttl inner argv ∧
      ∀ batch,
        inner (qgroupListingShape.build batch) = runCommand (qgroupListingShape.build batch)) ∨
    (∃ inner ks, squeueSummaryShape.parse argv = some ks ∧
      handleDispatcher ttl runCommand argv =
        cachingCapture .squeue squeueSummaryShape ttl inner argv ∧
      ∀ batch,
        inner (squeueSummaryShape.build batch) = runCommand (squeueSummaryShape.build batch)) ∨
    (∃ ks, sacctExitCodeShape.parse argv = some ks ∧
      handleDispatcher ttl runCommand argv =
        cachingCapture .sacct sacctExitCodeShape ttl runCommand argv) ∨
    (handleDispatcher ttl runCommand argv = runCommand argv ∧
      ∀ i, (toolShape i).parse argv = none) := by
  cases hq : qgroupListingShape.parse argv with
  | some ks =>
    obtain ⟨rfl, rfl⟩ := qgroup_parse_eq_some hq
    refine .inl ⟨_, rfl, rfl, fun batch => ?_⟩
    rw [qgroup_build, cachingCapture_of_none squeue_parse_qgroupArgv,
      cachingCapture_of_none sacct_parse_qgroupArgv]
  | none =>
    unfold handleDispatcher
    rw [cachingCapture_of_none hq]
    cases hs : squeueSummaryShape.parse argv with
    | some ks =>
      refine .inr (.inl ⟨_, ks, rfl, rfl, fun batch => ?_⟩)
      rw [squeue_build, cachingCapture_of_none (sacct_parse_squeueArgv _)]
    | none =>
      rw [cachingCapture_of_none hs]
      cases ha : sacctExitCodeShape.parse argv with
      | some ks => exact .inr (.inr (.inl ⟨ks, rfl, rfl⟩))
      | none =>
        refine .inr (.inr (.inr ⟨cachingCapture_of_none ha, fun i => ?_⟩))
        cases i
        · exact hq
        · exact hs
        · exact ha

/-- **The dispatcher of a manager keeps the contract of each cache.** -/
theorem serves_handleDispatcher {A : Audit Key} {C : Context (machine Key)} (hC : Under A C)
    {ttl : Nat} (hshape : A.shape = toolShape) (hread : A.read = CachedRead ttl)
    (hseen : ∀ w rd calls, CachedSince ttl w rd calls → A.seen w rd calls)
    (hquiet : ∀ u, ¬ A.quiet u) (hholds : ∀ u, A.holds u = none) :
    Serves A C t (handleDispatcher ttl runCommand) where
  only := dispatchesOnly_cachingCapture (dispatchesOnly_cachingCapture
    (dispatchesOnly_cachingCapture dispatchesOnly_runCommand))
  answers argv w hidle := by
    have hq : A.quiet t → NoFill t w := fun h => absurd h (hquiet t)
    have hh : ∀ i j, A.holds t = some j → j = i := fun i j hj => by simp [hholds] at hj
    have hpost : ∀ r (w' : World Key), Idle t w' →
        CachedSince ttl w ⟨t, argv, w.instant, w'.instant, r⟩ w'.calls → Idle t w' ∧
          A.read ⟨t, argv, w.instant, w'.instant, r⟩ w'.calls ∧
          A.seen w ⟨t, argv, w.instant, w'.instant, r⟩ w'.calls := fun r w' hid h =>
      ⟨hid, hread ▸ h.read, hseen _ _ _ h⟩
    -- each cache answers the command lines of its form; the other shapes do not parse them
    rcases handleDispatcher_cases ttl argv with
      ⟨inner, rfl, heq, hin⟩ | ⟨inner, ks, hks, heq, hin⟩ |
      ⟨ks, hks, heq⟩ | ⟨heq, hnone⟩
    · rw [heq]
      refine Context.wp_mono (wp_cachingCapture hC (by rw [hshape]; rfl) hin
        qgroup_parse_qgroupArgv hidle hq (hh _)) ?_
      rintro r w' ⟨hid, hans⟩
      refine hpost r w' hid fun i requested hp => ?_
      cases i with
      | qgroup =>
        cases hp.symm.trans qgroup_parse_qgroupArgv
        exact hans.mono (fun _ hc => hc.1) List.suffix_rfl
      | squeue => cases hp.symm.trans squeue_parse_qgroupArgv
      | sacct => cases hp.symm.trans sacct_parse_qgroupArgv
    · rw [heq]
      refine Context.wp_mono (wp_cachingCapture hC (by rw [hshape]; rfl) hin hks hidle hq (hh _)) ?_
      rintro r w' ⟨hid, hans⟩
      obtain ⟨csv, rfl, -⟩ := squeue_parse_eq_some hks
      refine hpost r w' hid fun i requested hp => ?_
      cases i with
      | qgroup => cases hp.symm.trans (qgroup_parse_squeueArgv csv)
      | squeue =>
        cases hp.symm.trans hks
        exact hans.mono (fun _ hc => hc.1) List.suffix_rfl
      | sacct => cases hp.symm.trans (sacct_parse_squeueArgv csv)
    · rw [heq]
      refine Context.wp_mono (wp_cachingCapture hC (by rw [hshape]; rfl) (fun _ => rfl) hks hidle hq
        (hh _)) ?_
      rintro r w' ⟨hid, hans⟩
      obtain ⟨csv, rfl, -⟩ := sacct_parse_eq_some hks
      refine hpost r w' hid fun i requested hp => ?_
      cases i with
      | qgroup => cases hp.symm.trans (qgroup_parse_sacctArgv csv)
      | squeue => cases hp.symm.trans (squeue_parse_sacctArgv csv)
      | sacct =>
        cases hp.symm.trans hks
        exact hans.mono (fun _ hc => hc.1) List.suffix_rfl
    · rw [heq]
      refine Context.wp_mono (wp_runCommand hC argv hq fun i hi => by simp [hholds] at hi) ?_
      rintro r w' ⟨-, hfly, -, hnot, -⟩
      refine hpost r w' ⟨hfly, fun i => hnot i (hidle.2 i)⟩ fun i requested hp => ?_
      rw [hnone i] at hp
      cases hp

end Sbatch

/-
# The discipline of the locks

What every task may do (`Permit`), what therefore always holds (`Inv`), and what the other tasks
cannot do to a suspended task (`Others`): it keeps its locks, what they guard and its running
command, and the records only grow.

An `Audit` says what the records must satisfy: each answer a handle reads (`read`) and each
snapshot it publishes (`write`).  `audit A` is the logic of interleaved tasks under the audit `A`,
`solo A` the logic of one task that runs alone.
-/
import SlurmRunner.Sbatch.Handle

namespace Sbatch

open Text Slurm Interact

variable {ι : Type} {K : ι → Type}

/-! ## 1. Relations between worlds

What a task may expect of the others while it is suspended.  It is said in parts: of the handles
whose lock it holds, of the slots, of what is dispatched, and of the clock, so that a proof names
the part that it uses. -/

/-- Whatever happens: time passes and the records grow; an entry is replaced by a younger one. -/
structure Elapse (w w' : World K) : Prop where
  instant : w.instant ≤ w'.instant
  steady : w'.steady = true → w.steady = true ∧ w.utc ≤ w'.utc
  calls : w.calls <:+ w'.calls
  reads : w.reads <:+ w'.reads
  writes : w.writes <:+ w'.writes
  saves : w.saves <:+ w'.saves
  entry : ∀ i, (w'.slots i).entry = (w.slots i).entry ∨
    ∃ e, (w'.slots i).entry = some e ∧ w.instant ≤ e.storedAt

/-- The handles whose refresh lock task `t` holds are left alone, and it gets no other lock. -/
structure HandlesKept (t : Nat) (w w' : World K) : Prop where
  owned : ∀ h, w.refreshOwner h = some t → w'.refreshOwner h = some t ∧ w'.watch h = w.watch h ∧
    ∀ e ∈ w'.writes, e.handle = h → e ∈ w.writes
  notOwned : ∀ h, w.refreshOwner h ≠ some t → w'.refreshOwner h ≠ some t

/-- The slots that task `t` has locked are left alone, and so is its running command. -/
structure SlotsKept (t : Nat) (w w' : World K) : Prop where
  owned : ∀ i, w.slotOwner i = some t → w'.slotOwner i = some t ∧ w'.slots i = w.slots i
  notOwned : ∀ i, w.slotOwner i ≠ some t → w'.slotOwner i ≠ some t
  inflight : w'.inflight t = w.inflight t
  fills : ∀ i, ∀ f ∈ w'.fills i, f.1 = t → f ∈ w.fills i

/-- What a dispatcher called by task `t` may do. -/
structure Dispatched (t : Nat) (w w' : World K) : Prop extends Elapse w w', HandlesKept t w w' where
  readsOf : w'.readsOf t = w.readsOf t
  savesOf : w'.savesOf t = w.savesOf t

/-- What the other tasks and the environment may do while task `t` is suspended. -/
structure Others (t : Nat) (w w' : World K) : Prop where
  dispatched : Dispatched t w w'
  slots : SlotsKept t w w'
  callsOf : w'.callsOf t = w.callsOf t

namespace Elapse

/-- No time has passed. -/
theorem refl (w : World K) : Elapse w w :=
  ⟨le_refl _, fun h => ⟨h, le_refl _⟩, List.suffix_rfl, List.suffix_rfl, List.suffix_rfl,
    List.suffix_rfl, fun _ => .inl rfl⟩

/-- The clocks go on and the lists grow. -/
theorem trans {w w' w'' : World K} (h : Elapse w w') (h' : Elapse w' w'') : Elapse w w'' where
  instant := h.instant.trans h'.instant
  steady hs := ⟨(h.steady (h'.steady hs).1).1, (h.steady (h'.steady hs).1).2.trans (h'.steady hs).2⟩
  calls := h.calls.trans h'.calls
  reads := h.reads.trans h'.reads
  writes := h.writes.trans h'.writes
  saves := h.saves.trans h'.saves
  entry i := by
    rcases h'.entry i with h2 | ⟨e, he, ht⟩
    · rcases h.entry i with h1 | ⟨e, he, ht⟩
      · exact .inl (h2.trans h1)
      · exact .inr ⟨e, h2.trans he, ht⟩
    · exact .inr ⟨e, he, h.instant.trans ht⟩

end Elapse

/-- Nothing has happened. -/
theorem HandlesKept.refl (t : Nat) (w : World K) : HandlesKept t w w :=
  ⟨fun _ h => ⟨h, rfl, fun _ he _ => he⟩, fun _ h => h⟩

/-- The handles that a task holds are untouched in both intervals. -/
theorem HandlesKept.trans {t : Nat} {w w' w'' : World K} (h : HandlesKept t w w')
    (h' : HandlesKept t w' w'') : HandlesKept t w w'' where
  owned x hx := by
    obtain ⟨h1, h2, h3⟩ := h.owned x hx
    obtain ⟨h4, h5, h6⟩ := h'.owned x h1
    exact ⟨h4, h5.trans h2, fun e he hh => h3 e (h6 e he hh) hh⟩
  notOwned x hx := h'.notOwned x (h.notOwned x hx)

theorem SlotsKept.refl (t : Nat) (w : World K) : SlotsKept t w w :=
  ⟨fun _ h => ⟨h, rfl⟩, fun _ h => h, rfl, fun _ _ h _ => h⟩

/-- So are the slots of which it holds the lock, and what it has stored. -/
theorem SlotsKept.trans {t : Nat} {w w' w'' : World K} (h : SlotsKept t w w')
    (h' : SlotsKept t w' w'') : SlotsKept t w w'' where
  owned i hi := by
    obtain ⟨h1, h2⟩ := h.owned i hi
    obtain ⟨h3, h4⟩ := h'.owned i h1
    exact ⟨h3, h4.trans h2⟩
  notOwned i hi := h'.notOwned i (h.notOwned i hi)
  inflight := h'.inflight.trans h.inflight
  fills i f hf ht := h.fills i f (h'.fills i f hf ht) ht

theorem Dispatched.refl (t : Nat) (w : World K) : Dispatched t w w :=
  ⟨Elapse.refl w, HandlesKept.refl t w, rfl, rfl⟩

/-- Its own calls and answers are those of before. -/
theorem Dispatched.trans {t : Nat} {w w' w'' : World K} (h : Dispatched t w w')
    (h' : Dispatched t w' w'') : Dispatched t w w'' :=
  ⟨h.toElapse.trans h'.toElapse, h.toHandlesKept.trans h'.toHandlesKept,
    h'.readsOf.trans h.readsOf, h'.savesOf.trans h.savesOf⟩

/-- Nothing has happened. -/
theorem Others.refl (t : Nat) (w : World K) : Others t w w :=
  ⟨Dispatched.refl t w, SlotsKept.refl t w, rfl⟩

/-- The rely condition is transitive, part by part. -/
theorem Others.trans {t : Nat} {w w' w'' : World K} (h : Others t w w')
    (h' : Others t w' w'') : Others t w w'' :=
  ⟨h.dispatched.trans h'.dispatched, h.slots.trans h'.slots, h'.callsOf.trans h.callsOf⟩

/-- Only the clocks have moved on. -/
def ClockOnly (w w' : World K) : Prop :=
  ∃ dt utc steady, w' = { w with instant := w.instant + dt, utc := utc, steady := steady } ∧
    (steady = true → w.steady = true ∧ w.utc ≤ utc)

theorem ClockOnly.refl (w : World K) : ClockOnly w w :=
  ⟨0, w.utc, w.steady, rfl, fun h => ⟨h, le_refl _⟩⟩

theorem ClockOnly.trans {w w' w'' : World K} (h : ClockOnly w w') (h' : ClockOnly w' w'') :
    ClockOnly w w'' := by
  obtain ⟨dt, utc, st, rfl, hs⟩ := h
  obtain ⟨dt', utc', st', rfl, hs'⟩ := h'
  exact ⟨dt + dt', utc', st', by simp [Nat.add_assoc], fun h =>
    ⟨(hs (hs' h).1).1, (hs (hs' h).1).2.trans (hs' h).2⟩⟩

/-- The passing of time is the least that others may do. -/
theorem ClockOnly.others {t : Nat} {w w' : World K} (h : ClockOnly w w') : Others t w w' := by
  obtain ⟨dt, utc, st, rfl, hs⟩ := h
  exact ⟨⟨{ Elapse.refl w with instant := Nat.le_add_right _ _, steady := hs },
    { HandlesKept.refl t w with }, rfl, rfl⟩, { SlotsKept.refl t w with }, rfl⟩

/-- A tick is what the other tasks may do at any time. -/
theorem tick_others {t : Nat} {e : Tick} {w w' : World K} (h : tick e w = some w') :
    Others t w w' := by
  cases h
  exact ⟨⟨{ Elapse.refl w with
      instant := Nat.le_add_right _ _
      steady := fun hs => by simpa using hs }, { HandlesKept.refl t w with }, rfl, rfl⟩,
    { SlotsKept.refl t w with }, rfl⟩

/-- So is the end of a task that is dropped: what it held is released. -/
theorem drop_others {t u : Nat} {w : World K} (hu : u ≠ t) : Others u w (drop t w) := by
  refine ⟨⟨{ Elapse.refl w with }, ⟨fun x hx => ?_, fun x hx => ?_⟩, rfl, rfl⟩,
    ⟨fun k hk => ?_, fun k hk => ?_, ?_, fun _ _ hf _ => hf⟩, rfl⟩
  · exact ⟨by simp [drop, hx, hu], rfl, fun _ h _ => h⟩
  · simp only [drop]
    split
    · simp
    · exact hx
  · exact ⟨by simp [drop, hk, hu], rfl⟩
  · simp only [drop]
    split
    · simp
    · exact hk
  · simp [drop, Function.update_of_ne hu]

/-! ## 2. Audits and the invariant

An audit says what the writes, the reads and the first snapshots of a development must be like.  The
invariant of the world carries it along, together with the facts that every development needs: the
entries of the caches are backed by calls, and the watch values are what was written last. -/

/-- A stored entry is the answer of a completed command that asked about the entry's keys. -/
def Backed {κ : Type} (shape : QueryShape κ) (e : CachedEntry κ) (calls : List Call) : Prop :=
  ∃ c ∈ calls, c.argv = shape.build e.keys ∧ c.doneAt = e.storedAt ∧ c.result = e.result

/-- The watch value of a handle after the given writes, newest first. -/
def current (initial : Nat → SbatchJobSnapshot) (writes : List Write) (h : Nat) :
    SbatchJobSnapshot :=
  match writes.find? (·.handle = h) with
  | some e => e.after
  | none => initial h

/-- What the handle `h` has published, newest first, down to its initial snapshot. -/
def World.history (w : World K) (h : Nat) : List SbatchJobSnapshot :=
  (w.writes.filter (·.handle = h)).map Write.after ++ [w.initial h]

/-- What is asked of the records. -/
structure Audit (K : ι → Type) where
  shape : (i : ι) → QueryShape (K i)
  /-- The tasks that store nothing before they return. -/
  quiet : Nat → Prop
  /-- The slot whose lock a task holds while its command runs. -/
  holds : Nat → Option ι
  /-- The wall clock is later than every published observation. -/
  timely : Prop
  /-- A handle may start from this snapshot. -/
  first : Nat → SbatchJobSnapshot → Prop
  /-- A handle may read this answer, given the commands that have completed. -/
  read : Read → List Call → Prop
  /-- What a task knows of an answer that it has asked for since the world `w`. -/
  seen (w : World K) (rd : Read) (calls : List Call) : Prop := True
  /-- A handle may publish this snapshot, given the earlier writes, and all reads and calls. -/
  write : Write → List Write → List Read → List Call → Prop
  read_mono : ∀ {rd calls calls'}, calls <:+ calls' → read rd calls → read rd calls'
  write_mono : ∀ {e older reads reads' calls calls'}, reads <:+ reads' → calls <:+ calls' →
    write e older reads calls → write e older reads' calls'
  seen_mono : ∀ {w₀ w rd calls calls'}, Elapse w₀ w → calls <:+ calls' → seen w rd calls →
    seen w₀ rd calls' := by
      intros
      trivial

/-- An observation time that the wall clock has reached. -/
def Timely (utc : Nat) (snap : SbatchJobSnapshot) : Prop :=
  ∀ x, snap.lifecycle.lastObservedAt = some x → x ≤ utc

/-- A published observation is not older than the one it replaces.  A stamp is none: it keeps the
observation time of the snapshot it carried. -/
def Advances (e : Write) : Prop :=
  match e.site with
  | .stamp _ => True
  | _ => e.before.NotOlder e.after

/-- Task `t` has stored nothing. -/
def NoFill (t : Nat) (w : World K) : Prop := ∀ i, ∀ f ∈ w.fills i, f.1 ≠ t

variable (A : Audit K)

/-- The invariant of all reachable worlds. -/
structure Inv (w : World K) : Prop where
  entries : ∀ i e, (w.slots i).entry = some e →
    e.storedAt ≤ w.instant ∧ Backed (A.shape i) e w.calls
  fills : ∀ i, (w.slots i).entry = (w.fills i).head?.map Prod.snd
  flights : ∀ t c, w.inflight t = some c →
    c.startedAt ≤ w.instant ∧ ∀ i, A.holds t = some i → w.slotOwner i = some t
  calls : ∀ c ∈ w.calls, c.startedAt ≤ c.doneAt ∧ c.doneAt ≤ w.instant
  reads : ∀ rd ∈ w.reads, rd.since ≤ rd.readAt ∧ rd.readAt ≤ w.instant ∧ A.read rd w.calls
  writes : ∀ newer e older, w.writes = newer ++ e :: older →
    e.before = current w.initial older e.handle ∧ A.write e older w.reads w.calls
  written : ∀ e ∈ w.writes, e.writtenAt ≤ w.instant ∧ e.handle < w.handles
  watch : ∀ h, w.watch h = current w.initial w.writes h
  owners : ∀ h t, w.refreshOwner h = some t → h < w.handles
  first : ∀ h, A.first h (w.initial h)
  timely : A.timely → w.steady = true → ∀ h, Timely w.utc (w.watch h)
  advances : A.timely → w.steady = true → ∀ e ∈ w.writes, Advances e

/-- What task `t` may do.  The first line is about the operations at which it is suspended. -/
def Permit (t : Nat) : Op K → World K → Prop
  | .wake _, w | .lockSlot _ _, w | .recv, w | .lockRefresh _, w | .save _, w | .store, w =>
    A.quiet t → NoFill t w
  | .unlockSlot i, w => w.slotOwner i = some t ∧ w.inflight t = none
  | .putRecent i _, w => w.slotOwner i = some t
  | .putEntry i e, w =>
    w.slotOwner i = some t ∧ e.storedAt = w.instant ∧ Backed (A.shape i) e w.calls
  | .send _, w => ∀ i, A.holds t = some i → w.slotOwner i = some t
  | .read argv since r, w =>
    since ≤ w.instant ∧ A.read ⟨t, argv, since, w.instant, r⟩ w.calls
  | .unlockRefresh h, w => w.refreshOwner h = some t
  | .sendReplace h site snap, w =>
    w.refreshOwner h = some t ∧
      A.write ⟨t, h, site, w.watch h, snap, w.instant, w.readsOf t⟩ w.writes w.reads w.calls ∧
      (A.timely → w.steady = true → Timely w.utc snap ∧
        Advances ⟨t, h, site, w.watch h, snap, w.instant, w.readsOf t⟩)
  | .newHandle snap, w =>
    A.first w.handles snap ∧ (A.timely → w.steady = true → Timely w.utc snap)
  | _, _ => True

variable {A}

/-- A call that has run remains so. -/
theorem Backed.mono {κ : Type} {shape : QueryShape κ} {e : CachedEntry κ} {calls calls' : List Call}
    (h : Backed shape e calls) (hs : calls <:+ calls') : Backed shape e calls' := by
  obtain ⟨c, hc, h1⟩ := h
  exact ⟨c, hs.subset hc, h1⟩

/-- The last write on a handle is what it has. -/
theorem current_cons_self (initial : Nat → SbatchJobSnapshot) (e : Write) (es : List Write) :
    current initial (e :: es) e.handle = e.after := by
  simp [current]

/-- A write on another handle changes nothing. -/
theorem current_cons_of_ne (initial : Nat → SbatchJobSnapshot) {e : Write} (es : List Write)
    {h : Nat} (hne : e.handle ≠ h) : current initial (e :: es) h = current initial es h := by
  simp [current, hne]

/-- A new handle does not change the value of the others. -/
theorem current_update {initial : Nat → SbatchJobSnapshot} {es : List Write} {n h : Nat}
    (snap : SbatchJobSnapshot) (hne : h ≠ n) :
    current (Function.update initial n snap) es h = current initial es h := by
  simp [current, Function.update_of_ne hne]

/-- The newest of the published snapshots is the current one. -/
theorem current_eq_head (initial : Nat → SbatchJobSnapshot) (es : List Write) (h : Nat) :
    ∃ tl, (es.filter (·.handle = h)).map Write.after ++ [initial h] =
      current initial es h :: tl := by
  cases hf : es.find? (·.handle = h) with
  | none =>
    have hnil : es.filter (·.handle = h) = [] := by
      rw [List.filter_eq_nil_iff]
      exact List.find?_eq_none.mp hf
    exact ⟨[], by simp [hnil, current, hf]⟩
  | some e =>
    have hhead : (es.filter (·.handle = h)).head? = some e := by
      rw [List.head?_filter]
      exact hf
    obtain ⟨tl, htl⟩ := List.head?_eq_some_iff.mp hhead
    exact ⟨tl.map Write.after ++ [initial h], by simp [htl, current, hf]⟩

/-- What each write keeps of the snapshot before it, every snapshot that a handle publishes keeps
of all earlier ones. -/
theorem Inv.pairwise_history {w : World K} (hi : Inv A w)
    {R : SbatchJobSnapshot → SbatchJobSnapshot → Prop} (htrans : ∀ {x y z}, R x y → R y z → R x z)
    {h : Nat} (hR : ∀ e ∈ w.writes, e.handle = h → R e.before e.after) :
    (w.history h).Pairwise fun newer older => R older newer := by
  have hsuffix : ∀ es, es <:+ w.writes →
      ((es.filter (·.handle = h)).map Write.after ++ [w.initial h]).Pairwise
        fun newer older => R older newer := by
    intro es
    induction es with
    | nil =>
      intro _
      simp
    | cons e es ih =>
      intro hsuf
      have ih' := ih ((List.suffix_cons e es).trans hsuf)
      by_cases he : e.handle = h
      · obtain ⟨newer, hnewer⟩ := hsuf
        have hbefore := (hi.writes newer e es hnewer.symm).1
        have hstep := hR e (hnewer ▸ by simp) he
        obtain ⟨tl, htl⟩ := current_eq_head w.initial es h
        rw [List.filter_cons_of_pos (by simpa using he), List.map_cons, List.cons_append,
          List.pairwise_cons]
        refine ⟨fun x hx => ?_, ih'⟩
        rw [htl] at hx ih'
        rw [hbefore, he] at hstep
        rcases List.mem_cons.mp hx with rfl | hx
        · exact hstep
        · exact htrans ((List.pairwise_cons.mp ih').1 x hx) hstep
      · rw [List.filter_cons_of_neg (by simpa using he)]
        exact ih'
  exact hsuffix w.writes List.suffix_rfl

/-- What the first snapshot of a handle has and every write to it keeps, every published snapshot
of the handle has. -/
theorem Inv.current_induct {w : World K} (hi : Inv A w) {h : Nat} {P : SbatchJobSnapshot → Prop}
    (hfirst : ∀ snap, A.first h snap → P snap)
    (hwrite : ∀ e older, A.write e older w.reads w.calls → e ∈ w.writes → e.handle = h →
      P e.before → P e.after)
    {es : List Write} (hes : es <:+ w.writes) : P (current w.initial es h) := by
  induction es with
  | nil => exact hfirst _ (hi.first h)
  | cons e es ih =>
    have ih' := ih ((List.suffix_cons e es).trans hes)
    by_cases he : e.handle = h
    · obtain ⟨newer, hnewer⟩ := hes
      obtain ⟨hbefore, hw⟩ := hi.writes newer e es hnewer.symm
      rw [← he, current_cons_self]
      refine hwrite e es hw (hnewer ▸ by simp) he ?_
      rw [hbefore, he]
      exact ih'
    · rw [current_cons_of_ne _ _ he]
      exact ih'

/-- **Induction on the writes of a handle**: what holds of the first snapshot and is kept by every
audited write holds of the watch value. -/
theorem Inv.watch_induct {w : World K} (hi : Inv A w) (h : Nat) {P : SbatchJobSnapshot → Prop}
    (hfirst : ∀ snap, A.first h snap → P snap)
    (hwrite : ∀ e older, A.write e older w.reads w.calls → e ∈ w.writes → e.handle = h →
      P e.before → P e.after) : P (w.watch h) := by
  rw [hi.watch h]
  exact hi.current_induct hfirst hwrite List.suffix_rfl

/-- What the audit asks of a write that is in the records. -/
theorem Inv.write_of_mem {w : World K} (hi : Inv A w) {e : Write} (he : e ∈ w.writes) :
    ∃ older, older <:+ w.writes ∧ e.before = current w.initial older e.handle ∧
      A.write e older w.reads w.calls := by
  obtain ⟨newer, older, hsplit⟩ := List.append_of_mem he
  exact ⟨older, hsplit ▸ (List.suffix_cons e older).trans (List.suffix_append newer _),
    hi.writes newer e older hsplit⟩

/-! ## 3. The invariant is kept

Operation by operation, and then by `exec`.  What an operation needs for it is its permission. -/

/-- It holds in the beginning, where nothing was written or cached. -/
theorem inv_start {uuids : Supply Nat} {utc n : Nat} {snaps : Nat → SbatchJobSnapshot}
    {store : Store}
    (htimely : A.timely → ∀ h, Timely utc (snaps h)) (hfirst : ∀ h, A.first h (snaps h)) :
    Inv A (World.start uuids utc n snaps store) where
  entries i e he := by cases he
  fills _ := rfl
  flights t c hc := by cases hc
  calls c hc := by cases hc
  reads rd hrd := by cases hrd
  writes newer e older h := by simp [World.start] at h
  written e he := by cases he
  watch _ := rfl
  owners h t hh := by cases hh
  first := hfirst
  timely ha _ := htimely ha
  advances _ _ e he := by cases he

/-- A tick changes the clocks only. -/
theorem inv_tick {e : Tick} {w w' : World K} (hi : Inv A w) (h : tick e w = some w') :
    Inv A w' := by
  simp only [tick, Option.some.injEq] at h
  subst h
  exact { hi with
    entries := fun i x hx => ⟨(hi.entries i x hx).1.trans (Nat.le_add_right _ _),
      (hi.entries i x hx).2⟩
    flights := fun t c hc => ⟨(hi.flights t c hc).1.trans (Nat.le_add_right _ _),
      (hi.flights t c hc).2⟩
    calls := fun c hc => ⟨(hi.calls c hc).1, (hi.calls c hc).2.trans (Nat.le_add_right _ _)⟩
    reads := fun rd hrd => ⟨(hi.reads rd hrd).1,
      (hi.reads rd hrd).2.1.trans (Nat.le_add_right _ _), (hi.reads rd hrd).2.2⟩
    written := fun x hx => ⟨(hi.written x hx).1.trans (Nat.le_add_right _ _),
      (hi.written x hx).2⟩
    timely := fun ha hs h x hx => by
      simp only [Bool.and_eq_true, decide_eq_true_eq] at hs
      exact (hi.timely ha hs.1 h x hx).trans hs.2
    advances := fun ha hs => by
      simp only [Bool.and_eq_true, decide_eq_true_eq] at hs
      exact hi.advances ha hs.1 }

/-- What a dropped task leaves is released, and nothing was written by it. -/
theorem inv_drop {t : Nat} {w : World K} (hi : Inv A w) : Inv A (drop t w) :=
  { hi with
    flights := fun u c hc => by
      by_cases hu : u = t
      · subst hu
        simp [drop] at hc
      · simp only [drop, Function.update_of_ne hu] at hc
        refine ⟨(hi.flights u c hc).1, fun i hh => ?_⟩
        have hown := (hi.flights u c hc).2 i hh
        simp [drop, hown, hu]
    owners := fun h u hh => by
      simp only [drop] at hh
      split at hh
      · cases hh
      · exact hi.owners h u hh }

/-- Adding a write to the records keeps what is asked of them. -/
theorem writes_cons {w : World K} (hi : Inv A w) {e₀ : Write}
    (hbefore : e₀.before = current w.initial w.writes e₀.handle)
    (hwrite : A.write e₀ w.writes w.reads w.calls) :
    ∀ newer e older, e₀ :: w.writes = newer ++ e :: older →
      e.before = current w.initial older e.handle ∧ A.write e older w.reads w.calls := by
  intro newer e older h
  cases newer with
  | nil =>
    simp only [List.nil_append, List.cons.injEq] at h
    obtain ⟨rfl, rfl⟩ := h
    exact ⟨hbefore, hwrite⟩
  | cons x newer =>
    simp only [List.cons_append, List.cons.injEq] at h
    exact hi.writes newer e older h.2

section Operations

variable {t : Nat} {w : World K}

/-- A command is sent out: the calls are those that have come back. -/
theorem Inv.send (hi : Inv A w) {argv : Argv} (hp : Permit A t (.send argv) w) :
    Inv A { w with inflight := Function.update w.inflight t (some ⟨argv, w.instant⟩) } := by
  refine { hi with flights := fun u c hc => ?_ }
  by_cases hu : u = t
  · subst hu
    simp only [Function.update_self, Option.some.injEq] at hc
    subst hc
    exact ⟨le_refl _, hp⟩
  · simp only [Function.update_of_ne hu] at hc
    exact hi.flights u c hc

/-- A command that has ended is one more record to rest on. -/
theorem Inv.recv (hi : Inv A w) {r : Answer} {c : Command} (hc : w.inflight t = some c) :
    Inv A { w with
      inflight := Function.update w.inflight t none
      calls := ⟨t, c.argv, c.startedAt, w.instant, r⟩ :: w.calls } := by
  have hsuf : w.calls <:+ ⟨t, c.argv, c.startedAt, w.instant, r⟩ :: w.calls :=
    List.suffix_cons _ _
  exact { hi with
    entries := fun k x hx => ⟨(hi.entries k x hx).1, (hi.entries k x hx).2.mono hsuf⟩
    flights := fun u x hx => by
      by_cases hu : u = t
      · subst hu
        simp at hx
      · simp only [Function.update_of_ne hu] at hx
        exact hi.flights u x hx
    calls := fun x hx => by
      rcases List.mem_cons.mp hx with rfl | hx
      · exact ⟨(hi.flights t c hc).1, le_refl _⟩
      · exact hi.calls x hx
    reads := fun rd hrd => ⟨(hi.reads rd hrd).1, (hi.reads rd hrd).2.1,
      A.read_mono hsuf (hi.reads rd hrd).2.2⟩
    writes := fun newer x older hx => ⟨(hi.writes newer x older hx).1,
      A.write_mono List.suffix_rfl hsuf (hi.writes newer x older hx).2⟩ }

/-- A read is put on record if the audit allows it. -/
theorem Inv.read (hi : Inv A w) {argv : Argv} {since : Nat} {r : Answer}
    (hp : Permit A t (.read argv since r) w) :
    Inv A { w with reads := ⟨t, argv, since, w.instant, r⟩ :: w.reads } :=
  { hi with
    reads := fun rd hrd => by
      rcases List.mem_cons.mp hrd with rfl | hrd
      · exact ⟨hp.1, le_refl _, hp.2⟩
      · exact hi.reads rd hrd
    writes := fun newer x older hx => ⟨(hi.writes newer x older hx).1,
      A.write_mono (List.suffix_cons _ _) List.suffix_rfl (hi.writes newer x older hx).2⟩ }

/-- A refresh lock is taken on a handle that is there. -/
theorem Inv.lockRefresh (hi : Inv A w) {h : Nat} (hlt : h < w.handles) :
    Inv A { w with refreshOwner := Function.update w.refreshOwner h (some t) } := by
  refine { hi with owners := fun x u hx => ?_ }
  by_cases hxh : x = h
  · exact hxh ▸ hlt
  · simp only [Function.update_of_ne hxh] at hx
    exact hi.owners x u hx

theorem Inv.unlockRefresh (hi : Inv A w) (h : Nat) :
    Inv A { w with refreshOwner := Function.update w.refreshOwner h none } := by
  refine { hi with owners := fun x u hx => ?_ }
  by_cases hxh : x = h
  · subst hxh
    simp at hx
  · simp only [Function.update_of_ne hxh] at hx
    exact hi.owners x u hx

/-- A write is one more record, and the value of its handle. -/
theorem Inv.sendReplace (hi : Inv A w) {h : Nat} {site : Site} {snap : SbatchJobSnapshot}
    (hlt : h < w.handles) (hp : Permit A t (.sendReplace h site snap) w) :
    Inv A { w with
      watch := Function.update w.watch h snap
      writes := ⟨t, h, site, w.watch h, snap, w.instant, w.readsOf t⟩ :: w.writes } := by
  obtain ⟨-, hwrite, htimely⟩ := hp
  exact { hi with
    writes := writes_cons hi (hi.watch h) hwrite
    written := fun x hx => by
      rcases List.mem_cons.mp hx with rfl | hx
      · exact ⟨le_refl _, hlt⟩
      · exact hi.written x hx
    watch := fun x => by
      dsimp only
      by_cases hx : x = h
      · subst hx
        rw [Function.update_self]
        exact (current_cons_self _ ⟨t, x, site, w.watch x, snap, w.instant, w.readsOf t⟩ _).symm
      · rw [Function.update_of_ne hx, hi.watch x]
        exact (current_cons_of_ne _ _ (Ne.symm hx)).symm
    timely := fun ha hs x => by
      by_cases hx : x = h
      · subst hx
        simp only [Function.update_self]
        exact (htimely ha hs).1
      · simp only [Function.update_of_ne hx]
        exact hi.timely ha hs x
    advances := fun ha hs x hx => by
      rcases List.mem_cons.mp hx with rfl | hx
      · exact (htimely ha hs).2
      · exact hi.advances ha hs x hx }

/-- A new handle has no writes yet. -/
theorem Inv.newHandle (hi : Inv A w) {snap : SbatchJobSnapshot}
    (hp : Permit A t (.newHandle snap) w) :
    Inv A { w with
      handles := w.handles + 1
      initial := Function.update w.initial w.handles snap
      watch := Function.update w.watch w.handles snap } :=
  { hi with
    writes := fun newer x older hx => by
      dsimp only at hx ⊢
      have hlt := (hi.written x (by rw [hx]; simp)).2
      rw [current_update snap (by omega)]
      exact hi.writes newer x older hx
    written := fun x hx => ⟨(hi.written x hx).1, Nat.lt_succ_of_lt (hi.written x hx).2⟩
    watch := fun x => by
      dsimp only
      by_cases hx : x = w.handles
      · subst hx
        have hnone : w.writes.find? (·.handle = w.handles) = none := by
          rw [List.find?_eq_none]
          intro e he
          have := (hi.written e he).2
          simp
          omega
        simp [current, hnone]
      · rw [Function.update_of_ne hx, current_update snap hx]
        exact hi.watch x
    owners := fun x u hx => Nat.lt_succ_of_lt (hi.owners x u hx)
    first := fun x => by
      by_cases hx : x = w.handles
      · subst hx
        simp only [Function.update_self]
        exact hp.1
      · simp only [Function.update_of_ne hx]
        exact hi.first x
    timely := fun ha hs x => by
      by_cases hx : x = w.handles
      · subst hx
        simp only [Function.update_self]
        exact hp.2 ha hs
      · simp only [Function.update_of_ne hx]
        exact hi.timely ha hs x }

variable [DecidableEq ι]

theorem Inv.lockSlot (hi : Inv A w) {j : ι} (hfree : w.slotOwner j = none) :
    Inv A { w with slotOwner := Function.update w.slotOwner j (some t) } := by
  refine { hi with flights := fun u c hc => ⟨(hi.flights u c hc).1, fun k hk => ?_⟩ }
  have hown := (hi.flights u c hc).2 k hk
  have hne : k ≠ j := by
    rintro rfl
    rw [hfree] at hown
    cases hown
  simp only [Function.update_of_ne hne, hown]

/-- A task that runs a command keeps the slot that the command is for. -/
theorem Inv.unlockSlot (hi : Inv A w) {j : ι} (hp : Permit A t (.unlockSlot j) w) :
    Inv A { w with slotOwner := Function.update w.slotOwner j none } := by
  refine { hi with flights := fun u c hc => ⟨(hi.flights u c hc).1, fun k hk => ?_⟩ }
  have hown := (hi.flights u c hc).2 k hk
  have hne : k ≠ j := by
    rintro rfl
    rw [hp.1, Option.some.injEq] at hown
    subst hown
    rw [hp.2] at hc
    cases hc
  simp only [Function.update_of_ne hne, hown]

theorem Inv.putRecent (hi : Inv A w) {j : ι} (r : List (K j × Nat)) :
    Inv A { w with slots := Function.update w.slots j { w.slots j with recent := r } } := by
  have hsame : ∀ k, (Function.update w.slots j { w.slots j with recent := r } k).entry =
      (w.slots k).entry := by
    intro k
    by_cases hk : k = j
    · subst hk
      rw [Function.update_self]
    · rw [Function.update_of_ne hk]
  exact { hi with
    entries := fun k x hx => hi.entries k x ((hsame k).symm.trans hx)
    fills := fun k => (hsame k).trans (hi.fills k) }

/-- **An entry is stored with the call behind it**, which is what its permission asks for. -/
theorem Inv.putEntry (hi : Inv A w) {j : ι} {e : CachedEntry (K j)}
    (hp : Permit A t (.putEntry j e) w) :
    Inv A { w with
      slots := Function.update w.slots j { w.slots j with entry := some e }
      fills := Function.update w.fills j ((t, e) :: w.fills j) } := by
  obtain ⟨-, hat, hb⟩ := hp
  refine { hi with entries := fun k x hx => ?_, fills := fun k => ?_ }
  · by_cases hk : k = j
    · subst hk
      simp only [Function.update_self, Option.some.injEq] at hx
      subst hx
      exact ⟨hat.le, hb⟩
    · simp only [Function.update_of_ne hk] at hx
      exact hi.entries k x hx
  · by_cases hk : k = j
    · subst hk
      simp
    · simp only [Function.update_of_ne hk]
      exact hi.fills k

/-- **A permitted operation keeps the invariant.** -/
theorem inv_exec {o : Op K} {i : Input} {w' : World K} {a : o.Ans} (hi : Inv A w)
    (hp : Permit A t o w) (he : exec t o i w = some (a, w')) : Inv A w' := by
  cases effect_of_exec he with
  | look _ => exact hi
  | lockSlot hfree => exact hi.lockSlot hfree
  | unlockSlot => exact hi.unlockSlot hp
  | putRecent => exact hi.putRecent _
  | putEntry => exact hi.putEntry hp
  | send => exact hi.send hp
  | recv hc => exact hi.recv hc
  | read => exact hi.read hp
  | lockRefresh hlt hfree => exact hi.lockRefresh hlt
  | unlockRefresh => exact hi.unlockRefresh _
  | sendReplace hlt => exact hi.sendReplace hlt hp
  | newHandle => exact hi.newHandle hp
  | save => exact { hi with }
  | uuidNow => exact { hi with }

end Operations

variable [DecidableEq ι]

/-! ## 4. What one operation leaves alone

Frame facts for the parts of the world, by the kind of the operation: most of them touch the
handles, the slots or the list of the calls, and none more than two of these. -/

/-- The operations on the handles themselves. -/
def Op.onHandles : Op K → Bool
  | .lockRefresh _ | .unlockRefresh _ | .sendReplace _ _ _ | .newHandle _ => true
  | _ => false

/-- The operations on the slots. -/
def Op.onSlots : Op K → Bool
  | .lockSlot _ _ | .unlockSlot _ | .putRecent _ _ | .putEntry _ _ => true
  | _ => false

section Frames

variable {t u : Nat} {o : Op K} {i : Input} {w w' : World K} {a : o.Ans}

/-- An operation that is none of the handles'. -/
theorem exec_handles_eq (he : exec t o i w = some (a, w')) (ho : o.onHandles = false) :
    w'.refreshOwner = w.refreshOwner ∧ w'.watch = w.watch ∧ w'.writes = w.writes := by
  cases effect_of_exec he with
  | lockRefresh _ _ | unlockRefresh | sendReplace _ | newHandle => cases ho
  | _ => exact ⟨rfl, rfl, rfl⟩

/-- An operation that is none of the slots'. -/
theorem exec_slots_eq (he : exec t o i w = some (a, w')) (ho : o.onSlots = false) :
    w'.slotOwner = w.slotOwner ∧ w'.slots = w.slots ∧ w'.fills = w.fills := by
  cases effect_of_exec he with
  | lockSlot _ | unlockSlot | putRecent | putEntry => cases ho
  | _ => exact ⟨rfl, rfl, rfl⟩

/-- The records of another task stay as they are. -/
theorem exec_records_eq (he : exec t o i w = some (a, w')) (hu : u ≠ t) :
    w'.inflight u = w.inflight u ∧ w'.callsOf u = w.callsOf u ∧ w'.readsOf u = w.readsOf u ∧
      w'.savesOf u = w.savesOf u := by
  have htu : ¬ t = u := Ne.symm hu
  cases effect_of_exec he with
  | send => exact ⟨by simp [Function.update_of_ne hu], rfl, rfl, rfl⟩
  | recv hc => exact ⟨by simp [Function.update_of_ne hu], by simp [World.callsOf, htu], rfl, rfl⟩
  | read => exact ⟨rfl, rfl, by simp [World.readsOf, htu], rfl⟩
  | save => exact ⟨rfl, rfl, rfl, by simp [World.savesOf, htu]⟩
  | _ => exact ⟨rfl, rfl, rfl, rfl⟩

/-- Every operation keeps the records and the clocks going forward. -/
theorem exec_elapse (hp : Permit A t o w) (he : exec t o i w = some (a, w')) :
    Elapse w w' := by
  cases effect_of_exec he with
  | @putRecent j r =>
    refine { Elapse.refl w with entry := fun k => .inl ?_ }
    by_cases hk : k = j
    · subst hk
      simp
    · simp [Function.update_of_ne hk]
  | @putEntry j e =>
    refine { Elapse.refl w with entry := fun k => ?_ }
    by_cases hk : k = j
    · subst hk
      exact .inr ⟨e, by simp, hp.2.1.ge⟩
    · exact .inl (by simp [Function.update_of_ne hk])
  | sendReplace _ => exact { Elapse.refl w with writes := List.suffix_cons _ _ }
  | recv _ => exact { Elapse.refl w with calls := List.suffix_cons _ _ }
  | read => exact { Elapse.refl w with reads := List.suffix_cons _ _ }
  | save => exact { Elapse.refl w with saves := List.suffix_cons _ _ }
  | _ => exact { Elapse.refl w with }

/-- No operation of one task touches a handle that another one has locked. -/
theorem exec_handlesKept (hi : Inv A w) (hp : Permit A t o w)
    (he : exec t o i w = some (a, w')) (hu : u ≠ t) : HandlesKept u w w' := by
  have htu : ∀ x : Nat, w.refreshOwner x = some t → w.refreshOwner x ≠ some u := by
    intro x hx hx'
    rw [hx, Option.some.injEq] at hx'
    exact hu hx'.symm
  cases effect_of_exec he with
  | @lockRefresh h hlt hfree =>
    refine ⟨fun x hx => ?_, fun x hx => ?_⟩
    · have hne : x ≠ h := by
        rintro rfl
        rw [hfree] at hx
        cases hx
      exact ⟨by simp [Function.update_of_ne hne, hx], rfl, fun _ h _ => h⟩
    · by_cases hxh : x = h
      · subst hxh
        simpa using Ne.symm hu
      · simpa [Function.update_of_ne hxh] using hx
  | @unlockRefresh h =>
    refine ⟨fun x hx => ?_, fun x hx => ?_⟩
    · have hne : x ≠ h := by
        rintro rfl
        exact htu x hp hx
      exact ⟨by simp [Function.update_of_ne hne, hx], rfl, fun _ h _ => h⟩
    · by_cases hxh : x = h
      · subst hxh
        simp
      · simpa [Function.update_of_ne hxh] using hx
  | @sendReplace h site snap hlt =>
    refine ⟨fun x hx => ?_, fun x hx => hx⟩
    have hne : x ≠ h := by
      rintro rfl
      exact htu x hp.1 hx
    refine ⟨hx, by simp [Function.update_of_ne hne], fun e he hex => ?_⟩
    rcases List.mem_cons.mp he with rfl | he
    · exact absurd hex.symm hne
    · exact he
  | newHandle =>
    refine ⟨fun x hx => ?_, fun x hx => hx⟩
    have hne : x ≠ w.handles := by
      have := hi.owners x u hx
      omega
    exact ⟨hx, by simp [Function.update_of_ne hne], fun _ h _ => h⟩
  | _ => exact ⟨fun x hx => ⟨hx, rfl, fun _ h _ => h⟩, fun x hx => hx⟩

/-- No operation of one task touches a slot that another one has locked. -/
theorem exec_slotsKept (hp : Permit A t o w) (he : exec t o i w = some (a, w')) (hu : u ≠ t) :
    SlotsKept u w w' := by
  have htu : ∀ k, w.slotOwner k = some t → w.slotOwner k ≠ some u := by
    intro k hk hk'
    rw [hk, Option.some.injEq] at hk'
    exact hu hk'.symm
  have hfly := (exec_records_eq he hu).1
  cases effect_of_exec he with
  | @lockSlot j _ hfree =>
    refine ⟨fun k hk => ?_, fun k hk => ?_, hfly, fun _ _ hf _ => hf⟩
    · have hne : k ≠ j := by
        rintro rfl
        rw [hfree] at hk
        cases hk
      exact ⟨by simp [Function.update_of_ne hne, hk], rfl⟩
    · by_cases hkj : k = j
      · subst hkj
        simpa using Ne.symm hu
      · simpa [Function.update_of_ne hkj] using hk
  | @unlockSlot j =>
    refine ⟨fun k hk => ?_, fun k hk => ?_, hfly, fun _ _ hf _ => hf⟩
    · have hne : k ≠ j := by
        rintro rfl
        exact htu k hp.1 hk
      exact ⟨by simp [Function.update_of_ne hne, hk], rfl⟩
    · by_cases hkj : k = j
      · subst hkj
        simp
      · simpa [Function.update_of_ne hkj] using hk
  | @putRecent j r =>
    refine ⟨fun k hk => ?_, fun k hk => hk, hfly, fun _ _ hf _ => hf⟩
    have hne : k ≠ j := by
      rintro rfl
      exact htu k hp hk
    exact ⟨hk, by simp [Function.update_of_ne hne]⟩
  | @putEntry j e =>
    refine ⟨fun k hk => ?_, fun k hk => hk, hfly, fun k f hf hft => ?_⟩
    · have hne : k ≠ j := by
        rintro rfl
        exact htu k hp.1 hk
      exact ⟨hk, by simp [Function.update_of_ne hne]⟩
    · by_cases hkj : k = j
      · subst hkj
        simp only [Function.update_self, List.mem_cons] at hf
        rcases hf with rfl | hf
        · exact absurd hft.symm hu
        · exact hf
      · simpa [Function.update_of_ne hkj] using hf
  | _ => exact ⟨fun k hk => ⟨hk, rfl⟩, fun k hk => hk, hfly, fun _ _ hf _ => hf⟩

/-- **A permitted operation is inside what every other task puts up with.** -/
theorem exec_others (hi : Inv A w) (hp : Permit A t o w) (he : exec t o i w = some (a, w'))
    (hu : u ≠ t) : Others u w w' := by
  obtain ⟨-, hc, hr, hs⟩ := exec_records_eq he hu
  exact ⟨⟨exec_elapse hp he, exec_handlesKept hi hp he hu, hr, hs⟩, exec_slotsKept hp he hu, hc⟩

end Frames

/-! ## 5. The logics

Both logics are of the same audit.  In the one, other tasks interfere as `Others` says; in the
other, the client runs alone and only time passes. -/

variable (A) in
/-- The logic of interleaved tasks. -/
def audit : Logic (machine K) where
  inv := Inv A
  pre := Permit A
  rely := Others
  rely_refl := Others.refl
  rely_trans := Others.trans
  inv_exec := inv_exec
  inv_tick := inv_tick
  rely_tick := fun _ h => tick_others h
  rely_exec := exec_others
  inv_drop := inv_drop
  rely_drop := fun _ h => drop_others h

variable (A) in
/-- The logic of a task that runs alone. -/
def solo : SoloLogic (machine K) where
  inv := Inv A
  pre := Permit A
  rely _ := ClockOnly
  rely_refl _ := ClockOnly.refl
  rely_trans := ClockOnly.trans
  inv_exec := inv_exec
  inv_tick := inv_tick
  rely_tick := fun _ h => by
    cases h
    exact ⟨_, _, _, rfl, fun hs => by simpa using hs⟩

/-- The contexts in which the proofs about the code are made: those of the audit `A`, with at
most the moves of other tasks at an await. -/
structure Under (A : Audit K) (C : Context (machine K)) : Prop where
  inv : C.inv = Inv A
  pre : C.pre = Permit A
  rely : ∀ {t w w'}, C.rely t w w' → Others t w w'

/-- The first one stays within the rely. -/
theorem audit_under : Under A (audit A).toContext := ⟨rfl, rfl, id⟩

/-- So does the second one, which allows less. -/
theorem solo_under : Under A (solo A).toContext := ⟨rfl, rfl, ClockOnly.others⟩

end Sbatch

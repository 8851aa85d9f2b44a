/-
# Every job keeps its record

A snapshot says which job it is about, and this part of it is written once, by the submission.  The
calls of a manager only ever write the lifecycle of a job: to the handle from which they read the
snapshot, and to the store under a uuid that names the same job there (`jobs_keep_identity`).

A task knows of a job because it has read the snapshot on a handle, has found it in the store, or
has drawn a new uuid for it.  The stages of the protocol below collect what it knows.
-/
import SlurmRunner.Interact.Progress
import SlurmRunner.Sbatch.Manager

namespace Sbatch

open Text Slurm Interact StateStore

/-! ## 1. The jobs on record

The identity of a job is what its snapshot says of it from the start: the uuid, the job id, the
index, the command and all the rest that is given with the submission. What is observed of the job
later is its lifecycle, and no part of the identity. -/

/-- What a snapshot says of its job, apart from the lifecycle. -/
def SbatchJobSnapshot.identity (snap : SbatchJobSnapshot) : SbatchJobSnapshot :=
  { snap with lifecycle := .default }

namespace SbatchJobSnapshot

/-- The uuid is part of the identity. -/
@[simp] theorem identity_uuid (snap : SbatchJobSnapshot) : snap.identity.uuid = snap.uuid := rfl

/-- An observation does not change it. -/
@[simp] theorem identity_observed (snap : SbatchJobSnapshot) (row : Option JobStatus) (now : Nat) :
    (snap.observed row now).identity = snap.identity := by
  cases row <;> rfl

end SbatchJobSnapshot

section Records

variable {ι : Type} {K : ι → Type} {past : List SbatchJobSnapshot} {stored : Store} {w w' : World K}
  {x : SbatchJobSnapshot}

/-- A job that is known: from before the run, from a handle, or since its snapshot was to be
saved. -/
def World.Known (past : List SbatchJobSnapshot) (w : World K) (x : SbatchJobSnapshot) : Prop :=
  (∃ snap ∈ past, snap.identity = x) ∨ (∃ h < w.handles, (w.initial h).identity = x) ∨
    ∃ sv ∈ w.saves, sv.snap.identity = x

/-- The records of a world go together: `stored` is what the store had at the beginning. -/
structure Coherent (past : List SbatchJobSnapshot) (stored : Store) (w : World K) : Prop where
  watch : ∀ h < w.handles, (w.watch h).identity = (w.initial h).identity
  unique : ∀ x y, w.Known past x → w.Known past y → x.uuid = y.uuid → x = y
  drawn : ∀ x, w.Known past x → ¬ w.uuids.Ahead w.drawn x.uuid
  store : ∀ snap ∈ w.store, w.Known past snap.identity
  kept : ∀ snap ∈ stored, ∃ s ∈ w.store, s.uuid = snap.uuid
  saved : ∀ sv ∈ w.saves, sv.result = .ok () → ∃ s ∈ w.store, s.uuid = sv.snap.uuid

/-- A save leaves no uuid without a snapshot. -/
theorem Store.exists_mem_save {s : Store} {u : Nat} (h : ∃ x ∈ s, x.uuid = u)
    (snap : SbatchJobSnapshot) : ∃ x ∈ s.save snap, x.uuid = u := by
  obtain ⟨x, hx, rfl⟩ := h
  by_cases hu : x.uuid = snap.uuid
  · exact ⟨snap, List.mem_cons_self, hu.symm⟩
  · exact ⟨x, List.mem_cons_of_mem _ (List.mem_filter.mpr ⟨hx, by simpa using hu⟩), rfl⟩

/-- What is stored under a uuid, by the job that it names. -/
theorem Coherent.load (h : Coherent past stored w) (hx : w.Known past x)
    (hu : ∃ s ∈ w.store, s.uuid = x.uuid) :
    ∃ s, w.store.load x.uuid = some s ∧ s.identity = x := by
  obtain ⟨s₀, hs₀, hu₀⟩ := hu
  obtain ⟨s, hs⟩ : ∃ s, w.store.load x.uuid = some s := by
    refine Option.isSome_iff_exists.mp (List.find?_isSome.mpr ⟨s₀, hs₀, by simpa using hu₀⟩)
  refine ⟨s, hs, h.unique _ _ (h.store s (List.mem_of_find?_eq_some hs)) hx ?_⟩
  simpa using List.find?_some hs

variable [DecidableEq ι] {t : Nat} {o : Op K} {i : Input} {a : o.Ans}

/-- Nothing is forgotten. -/
theorem World.Known.after (h : w.Known past x) (he : exec t o i w = some (a, w')) :
    w'.Known past x := by
  rcases h with h | ⟨n, hn, h⟩ | ⟨sv, hsv, h⟩
  · exact .inl h
  · refine .inr (.inl ?_)
    cases effect_of_exec he with
    | newHandle =>
      refine ⟨n, Nat.lt_succ_of_lt hn, ?_⟩
      simp [Function.update_of_ne (Nat.ne_of_lt hn), h]
    | _ => exact ⟨n, hn, h⟩
  · refine .inr (.inr ?_)
    cases effect_of_exec he with
    | save => exact ⟨sv, List.mem_cons_of_mem _ hsv, h⟩
    | _ => exact ⟨sv, hsv, h⟩

/-- The snapshot with which an operation may bring a new job on record. -/
def Op.recorded : Op K → Option SbatchJobSnapshot
  | .newHandle snap | .save snap => some snap
  | _ => none

/-- What becomes known is what an operation records. -/
theorem World.Known.before (h : w'.Known past x) (he : exec t o i w = some (a, w')) :
    w.Known past x ∨ ∃ snap, o.recorded = some snap ∧ x = snap.identity := by
  rcases h with h | ⟨n, hn, h⟩ | ⟨sv, hsv, h⟩
  · exact .inl (.inl h)
  · cases effect_of_exec he with
    | @newHandle snap =>
      by_cases hnew : n = w.handles
      · subst hnew
        simp only [Function.update_self] at h
        exact .inr ⟨snap, rfl, h.symm⟩
      · simp only [Function.update_of_ne hnew] at h
        exact .inl (.inr (.inl ⟨n, Nat.lt_of_le_of_ne (Nat.le_of_lt_succ hn) hnew, h⟩))
    | _ => exact .inl (.inr (.inl ⟨n, hn, h⟩))
  · cases effect_of_exec he with
    | @save snap r =>
      rcases List.mem_cons.mp hsv with rfl | hsv
      · exact .inr ⟨snap, rfl, h.symm⟩
      · exact .inl (.inr (.inr ⟨sv, hsv, h⟩))
    | _ => exact .inl (.inr (.inr ⟨sv, hsv, h⟩))

end Records

/-! ## 2. What a task knows

A task may save and publish only what it has come to know: it has read it on a handle, loaded it
from the store, made it with a new uuid, or was told it with a file.  What it knows grows with each
operation, and the protocol forbids the others. -/

/-- The handles below `handles` exist; the task has borrowed and seen these jobs, and has drawn
uuids that no job has. -/
structure Knowledge where
  handles : Nat
  borrowed : Set (Nat × SbatchJobSnapshot)
  seen : Set SbatchJobSnapshot
  drawn : Set Nat

section Protocol

variable {ι : Type} {K : ι → Type}

namespace Knowledge

/-- A job is written only by who knows it. -/
def Allows (s : Knowledge) : Op K → Prop
  | .borrow h => h < s.handles
  | .sendReplace h _ snap => (h, snap.identity) ∈ s.borrowed
  | .newHandle snap => snap.identity ∈ s.seen
  | .save snap => snap.identity ∈ s.seen ∨ snap.uuid ∈ s.drawn
  | _ => True

def next (s : Knowledge) : (o : Op K) → o.Ans → Knowledge
  | .lockRefresh h, _ => { s with handles := max s.handles (h + 1) }
  | .borrow h, (snap : SbatchJobSnapshot) =>
    { s with
      borrowed := insert (h, snap.identity) s.borrowed
      seen := insert snap.identity s.seen }
  | .newHandle _, (h : Nat) => { s with handles := max s.handles (h + 1) }
  | .save snap, _ =>
    { s with seen := insert snap.identity s.seen, drawn := s.drawn \ {snap.uuid} }
  | .store, (stored : Store) =>
    { s with seen := s.seen ∪ {x | ∃ snap ∈ stored, snap.identity = x} }
  | .uuidNow, (u : Nat) => { s with drawn := insert u s.drawn }
  | _, _ => s

end Knowledge

variable (K) in
/-- What every call of a manager keeps to. -/
abbrev recordProtocol : Protocol (sig K) where
  Stage := Knowledge
  allows s o := s.Allows o
  next s o a := s.next o a

/-- What a task knows is so. -/
structure Knows (past : List SbatchJobSnapshot) (s : Knowledge) (w : World K) : Prop where
  handles : s.handles ≤ w.handles
  borrowed : ∀ h x, (h, x) ∈ s.borrowed → h < w.handles ∧ (w.initial h).identity = x
  seen : ∀ x ∈ s.seen, w.Known past x
  drawn : ∀ u ∈ s.drawn, ¬ w.uuids.Ahead w.drawn u ∧ ∀ x, w.Known past x → x.uuid ≠ u

variable {past : List SbatchJobSnapshot} {stored : Store} {w w' : World K} {t u : Nat}
  {s s' : Knowledge} {o : Op K} {i : Input} {a : o.Ans}

/-- A job that an operation records was known, or its uuid was drawn for it. -/
theorem Knows.records (h : Knows past s w) (ho : s.Allows o) {snap : SbatchJobSnapshot}
    (hsnap : o.recorded = some snap) : w.Known past snap.identity ∨ snap.uuid ∈ s.drawn := by
  cases o with
  | newHandle snap' =>
    cases hsnap
    exact .inl (h.seen _ ho)
  | save snap' =>
    cases hsnap
    rcases ho with ho | ho
    · exact .inl (h.seen _ ho)
    · exact .inr ho
  | _ => cases hsnap

variable [DecidableEq ι]

/-- A uuid that is not to come any more does not come later. -/
theorem ahead_before {u : Nat} (he : exec t o i w = some (a, w'))
    (hu : w'.uuids.Ahead w'.drawn u) : w.uuids.Ahead w.drawn u := by
  cases effect_of_exec he with
  | uuidNow => exact hu.of_le (Nat.le_succ _)
  | _ => exact hu

/-- Handles are only added. -/
theorem handles_le (he : exec t o i w = some (a, w')) : w.handles ≤ w'.handles := by
  cases effect_of_exec he with
  | newHandle => exact Nat.le_succ _
  | _ => exact Nat.le_refl _

/-- The first snapshot of a handle stays what it was. -/
theorem initial_eq {h : Nat} (he : exec t o i w = some (a, w')) (hlt : h < w.handles) :
    w'.initial h = w.initial h := by
  cases effect_of_exec he with
  | newHandle => exact Function.update_of_ne (Nat.ne_of_lt hlt) ..
  | _ => rfl

/-- **An operation keeps the records together.** -/
theorem Coherent.step (h : Coherent past stored w) (hs : Knows past s w) (ho : s.Allows o)
    (he : exec t o i w = some (a, w')) : Coherent past stored w' where
  watch n hn := by
    cases effect_of_exec he with
    | @sendReplace n' site snap hlt =>
      by_cases hnn : n = n'
      · subst hnn
        simp only [Function.update_self]
        exact (hs.borrowed _ _ ho).2.symm
      · simp only [Function.update_of_ne hnn]
        exact h.watch n hn
    | newHandle =>
      by_cases hnew : n = w.handles
      · subst hnew
        simp only [Function.update_self]
      · simp only [Function.update_of_ne hnew]
        exact h.watch n (Nat.lt_of_le_of_ne (Nat.le_of_lt_succ hn) hnew)
    | _ => exact h.watch n hn
  unique x y hx hy hxy := by
    -- a job with a drawn uuid is another one than all that are known
    have hnew : ∀ {x snap}, w.Known past x → o.recorded = some snap → x.uuid = snap.identity.uuid →
        x = snap.identity := by
      intro x snap hx hsnap hu
      rcases hs.records ho hsnap with hknown | hdrawn
      · exact h.unique _ _ hx hknown hu
      · exact absurd hu ((hs.drawn _ hdrawn).2 x hx)
    rcases hx.before he with hx | ⟨snap, hsnap, rfl⟩ <;>
      rcases hy.before he with hy | ⟨snap', hsnap', rfl⟩
    · exact h.unique _ _ hx hy hxy
    · exact hnew hx hsnap' hxy
    · exact (hnew hy hsnap hxy.symm).symm
    · cases hsnap.symm.trans hsnap'
      rfl
  drawn x hx hahead := by
    have hahead := ahead_before he hahead
    rcases hx.before he with hx | ⟨snap, hsnap, rfl⟩
    · exact h.drawn x hx hahead
    · rcases hs.records ho hsnap with hknown | hdrawn
      · exact h.drawn _ hknown hahead
      · exact (hs.drawn _ hdrawn).1 hahead
  store snap hsnap := by
    cases effect_of_exec he with
    | @save new r =>
      cases r with
      | error e => exact (h.store snap hsnap).after he
      | ok _ =>
        rcases List.mem_cons.mp hsnap with rfl | hsnap
        · exact .inr (.inr ⟨_, List.mem_cons_self, rfl⟩)
        · exact (h.store snap (List.mem_of_mem_filter hsnap)).after he
    | _ => exact (h.store snap hsnap).after he
  kept snap hsnap := by
    cases effect_of_exec he with
    | @save new r =>
      cases r with
      | error e => exact h.kept snap hsnap
      | ok _ => exact Store.exists_mem_save (h.kept snap hsnap) new
    | _ => exact h.kept snap hsnap
  saved sv hsv hok := by
    cases effect_of_exec he with
    | @save new r =>
      rcases List.mem_cons.mp hsv with rfl | hold
      · cases hok
        exact ⟨new, List.mem_cons_self, rfl⟩
      · cases r with
        | error e => exact h.saved sv hold hok
        | ok _ => exact Store.exists_mem_save (h.saved sv hold hok) new
    | _ => exact h.saved sv hsv hok

/-- **What an operation adds to the knowledge of its task.** -/
theorem Knows.own (hc : Coherent past stored w) (h : Knows past s w) (ho : s.Allows o)
    (he : exec t o i w = some (a, w')) : Knows past (s.next o a) w' := by
  have hseen : ∀ x ∈ s.seen, w'.Known past x := fun x hx => (h.seen x hx).after he
  have hborrowed : ∀ n x, (n, x) ∈ s.borrowed → n < w'.handles ∧ (w'.initial n).identity = x := by
    intro n x hx
    obtain ⟨hn, hinitial⟩ := h.borrowed n x hx
    exact ⟨Nat.lt_of_lt_of_le hn (handles_le he), by rw [initial_eq he hn, hinitial]⟩
  have hhandles := Nat.le_trans h.handles (handles_le he)
  cases effect_of_exec he with
  | @look o a hlook =>
    cases o with
    | borrow n =>
      cases he
      have hn : n < w.handles := Nat.lt_of_lt_of_le ho h.handles
      have hwatch := (hc.watch n hn).symm
      refine ⟨h.handles, ?_, ?_, h.drawn⟩
      · rintro n' x (hx | hx)
        · cases hx
          exact ⟨hn, hwatch⟩
        · exact h.borrowed n' x hx
      · rintro x (rfl | hx)
        · exact .inr (.inl ⟨n, hn, hwatch⟩)
        · exact h.seen x hx
    | store =>
      cases he
      refine ⟨h.handles, h.borrowed, ?_, h.drawn⟩
      rintro x (hx | ⟨snap, hsnap, rfl⟩)
      · exact h.seen x hx
      · exact hc.store snap hsnap
    | now | utcNow | wake _ | getSlot _ => exact h
    | _ => cases hlook
  | lockRefresh hlt => exact ⟨max_le h.handles hlt, h.borrowed, h.seen, h.drawn⟩
  -- its job had been seen, so it has none of the uuids that are drawn for later
  | @newHandle snap =>
    refine ⟨max_le hhandles (Nat.le_refl _), hborrowed, hseen, fun u hu => ⟨(h.drawn u hu).1, ?_⟩⟩
    intro x hx
    rcases hx.before he with hx | ⟨_, hsnap, rfl⟩
    · exact (h.drawn u hu).2 x hx
    · cases hsnap
      exact (h.drawn u hu).2 _ (h.seen _ ho)
  | @save snap r =>
    refine ⟨h.handles, hborrowed, ?_, fun u hu => ⟨(h.drawn u hu.1).1, fun x hx => ?_⟩⟩
    · rintro x (rfl | hx)
      · exact .inr (.inr ⟨_, List.mem_cons_self, rfl⟩)
      · exact hseen x hx
    · rcases hx.before he with hx | ⟨_, hsnap, rfl⟩
      · exact (h.drawn u hu.1).2 x hx
      · cases hsnap
        exact fun heq => hu.2 heq.symm
  | uuidNow =>
    refine ⟨h.handles, h.borrowed, h.seen, ?_⟩
    rintro u (rfl | hu)
    · exact ⟨Supply.not_ahead_next (Nat.lt_succ_self _), fun x hx =>
        Supply.ne_next_of_not_ahead (hc.drawn x hx)⟩
    · exact ⟨fun hahead => (h.drawn u hu).1 (ahead_before he hahead), (h.drawn u hu).2⟩
  | _ => exact ⟨h.handles, h.borrowed, h.seen, h.drawn⟩

/-- Two tasks have drawn different uuids. -/
def Knowledge.Apart (s s' : Knowledge) : Prop := ∀ u ∈ s.drawn, u ∉ s'.drawn

/-- **Another task knows what it knew**, and what is drawn is drawn for one of them. -/
theorem Knows.other (h : Knows past s w) (ho : s.Allows o) (he : exec t o i w = some (a, w'))
    (h' : Knows past s' w) (hapart : s.Apart s') :
    Knows past s' w' ∧ (s.next o a).Apart s' := by
  refine ⟨⟨Nat.le_trans h'.handles (handles_le he), ?_,
    fun x hx => (h'.seen x hx).after he, ?_⟩, ?_⟩
  · intro n x hx
    obtain ⟨hn, hinitial⟩ := h'.borrowed n x hx
    exact ⟨Nat.lt_of_lt_of_le hn (handles_le he), by rw [initial_eq he hn, hinitial]⟩
  · intro u hu
    obtain ⟨hgone, hfree⟩ := h'.drawn u hu
    refine ⟨fun hahead => hgone (ahead_before he hahead), fun x hx => ?_⟩
    rcases hx.before he with hx | ⟨snap, hsnap, rfl⟩
    · exact hfree x hx
    · rcases h.records ho hsnap with hknown | hdrawn
      · exact hfree _ hknown
      · exact fun heq => hapart _ hdrawn (heq ▸ hu)
  · intro u hu hu'
    cases o with
    | uuidNow =>
      cases he
      rcases hu with rfl | hu
      · exact (h'.drawn _ hu').1 Supply.ahead_next
      · exact hapart u hu hu'
    | save snap => exact hapart u hu.1 hu'
    | _ => exact hapart u hu hu'

variable (K past stored) in
/-- **What the calls of a manager know of the jobs on record.** -/
def knowledge : Agreement (machine K) (recordProtocol K) where
  agrees _ s w := Coherent past stored w ∧ Knows past s w
  apart s s' := Knowledge.Apart s s'
  idle _ := True
  apart_symm h := fun u hu hu' => h u hu' hu
  own h ho he := ⟨h.1.step h.2 ho he, h.2.own h.1 ho he⟩
  other h ho he _ h' hapart := by
    obtain ⟨hknows, hapart'⟩ := h.2.other ho he h'.2 hapart
    exact ⟨⟨h.1.step h.2 ho he, hknows⟩, hapart'⟩
  tick he h := by
    cases he
    exact ⟨⟨h.1.watch, h.1.unique, h.1.drawn, h.1.store, h.1.kept, h.1.saved⟩,
      h.2.handles, h.2.borrowed, h.2.seen, h.2.drawn⟩
  drop_own {t s w} h :=
    ⟨s, trivial, ⟨⟨h.1.watch, h.1.unique, h.1.drawn, h.1.store, h.1.kept, h.1.saved⟩,
      h.2.handles, h.2.borrowed, h.2.seen, h.2.drawn⟩, fun _ hapart => hapart⟩
  drop_other _ h := ⟨⟨h.1.watch, h.1.unique, h.1.drawn, h.1.store, h.1.kept, h.1.saved⟩,
    h.2.handles, h.2.borrowed, h.2.seen, h.2.drawn⟩

end Protocol

/-! ## 3. The calls keep to it

Each call is followed through its program: what it saves is something it knows.  `Learns` is the
form in which this is proved, with what is known of the result. -/

section Programs

variable {ι : Type} {K : ι → Type} {α β : Type} {s s' s'' : Knowledge} {h : Nat}

/-- Nothing that was known is forgotten; a uuid that was drawn may have been used. -/
structure Knowledge.Grown (s s' : Knowledge) : Prop where
  handles : s.handles ≤ s'.handles
  borrowed : s.borrowed ⊆ s'.borrowed
  seen : s.seen ⊆ s'.seen

/-- Nothing was learned. -/
theorem Knowledge.Grown.refl (s : Knowledge) : s.Grown s := ⟨Nat.le_refl _, subset_rfl, subset_rfl⟩

/-- What is known is not forgotten. -/
theorem Knowledge.Grown.trans (h : s.Grown s') (h' : s'.Grown s'') : s.Grown s'' :=
  ⟨Nat.le_trans h.handles h'.handles, h.borrowed.trans h'.borrowed, h.seen.trans h'.seen⟩

/-- An operation adds to what is known. -/
theorem Knowledge.Grown.next (s : Knowledge) (o : Op K) (a : o.Ans) : s.Grown (s.next o a) := by
  cases o with
  | lockRefresh n => exact ⟨Nat.le_max_left _ _, subset_rfl, subset_rfl⟩
  | borrow n => exact ⟨Nat.le_refl _, Set.subset_insert _ _, Set.subset_insert _ _⟩
  | newHandle snap => exact ⟨Nat.le_max_left _ _, subset_rfl, subset_rfl⟩
  | save snap => exact ⟨Nat.le_refl _, subset_rfl, Set.subset_insert _ _⟩
  | store => exact ⟨Nat.le_refl _, subset_rfl, Set.subset_union_left⟩
  | _ => exact ⟨Nat.le_refl _, subset_rfl, subset_rfl⟩

variable (K) in
def recordGrowth : Prog.Growth (recordProtocol K) where
  le s s' := Knowledge.Grown s s'
  refl s := .refl s
  trans h h' := .trans h h'
  next s o a := .next s o a

/-- The program loses nothing that its task knows, and returns as `Q` says. -/
abbrev Learns (Q : Knowledge → α → Prop) (s : Knowledge) (p : Prog (sig K) α) : Prop :=
  p.Advances (recordGrowth K) Q s

/-- One operation and what follows it. -/
theorem learns_then {o : Op K} {R : Knowledge → β → Prop} {f : o.Ans → Prog (sig K) β}
    (ho : s.Allows o) (hf : ∀ a : o.Ans, Learns R (s.next o a) (f a)) :
    Learns R s (perform o >>= f) :=
  Prog.advances_then (P := recordProtocol K) ho hf

/-- The task has read the job `x` on handle `h`. -/
def Knowledge.Has (s : Knowledge) (h : Nat) (x : SbatchJobSnapshot) : Prop :=
  (h, x) ∈ s.borrowed ∧ x ∈ s.seen

/-- What a handle was known to have it is still known to have. -/
theorem Knowledge.Has.grown {x : SbatchJobSnapshot} (hx : s.Has h x) (hgrown : s.Grown s') :
    s'.Has h x := ⟨hgrown.borrowed hx.1, hgrown.seen hx.2⟩

/-- A snapshot that a call on handle `h` returns is one of its job. -/
def Reports (h : Nat) (s : Knowledge) (r : Except Str SbatchJobSnapshot) : Prop :=
  ∀ snap, r = .ok snap → s.Has h snap.identity

/-- An error reports no snapshot. -/
theorem reports_error (e : Str) : Reports h s (.error e) := fun snap he => by cases he

/-- A snapshot that is returned is of the handle's job. -/
theorem reports_ok {snap : SbatchJobSnapshot} (hsnap : s.Has h snap.identity) :
    Reports h s (.ok snap) := by
  rintro _ ⟨⟩
  exact hsnap

/-- The operations of a probe tell nothing of the records. -/
theorem steady_of_onProbe {p : Prog (sig K) α} (hp : p.Uses fun o : Op K => o.onProbe = true) :
    p.Steady (recordProtocol K) s := by
  refine Prog.steady_of_uses hp fun o ho => ?_
  cases o <;> first | exact absurd ho Bool.false_ne_true | exact ⟨trivial, fun _ => rfl⟩

/-- A query says nothing of the jobs on record. -/
theorem steady_of_dispatchesOnly {d : Dispatcher K} (hd : DispatchesOnly d) (argv : Argv) :
    (d argv).Steady (recordProtocol K) s :=
  steady_of_onProbe ((hd argv).mono fun o ho => by cases o <;> trivial)

/-- What is saved and published has the identity of what was read on the handle. -/
theorem learns_saveAndPublish {site : Site} {snap : SbatchJobSnapshot}
    (hsnap : s.Has h snap.identity) :
    Learns (Reports h) s (saveAndPublish h site snap : Prog (sig K) _) := by
  refine learns_then (o := (.save snap : Op K)) (.inl hsnap.2) fun r => ?_
  have hsnap' := hsnap.grown (.next s (.save snap : Op K) r)
  cases r with
  | error e => exact Prog.advances_ret (reports_error e)
  | ok _ => exact learns_then hsnap'.1 fun _ => Prog.advances_ret (reports_ok hsnap')

/-- A refresh observes the snapshot that it has read. -/
theorem learns_refresh {d : Dispatcher K} (hd : DispatchesOnly d) (h : Nat) :
    Learns (Reports h) s (refresh d h) := by
  -- a handle whose refresh lock was taken exists
  refine learns_then (o := (.lockRefresh h : Op K)) trivial fun _ => ?_
  refine learns_then (o := (.borrow h : Op K))
    (Nat.lt_of_lt_of_le (Nat.lt_succ_self h) (Nat.le_max_right _ _))
    fun (snap : SbatchJobSnapshot) => ?_
  refine learns_then trivial fun (now : Nat) => ?_
  have hsnap : ((s.next (.lockRefresh h : Op K) ()).next (.borrow h : Op K) snap).Has h
      snap.identity := ⟨Set.mem_insert _ _, Set.mem_insert _ _⟩
  rw [refreshLocked_eq]
  refine Prog.Advances.bind (Q := Reports h) ?_ fun s' r _ hr =>
    learns_then trivial fun _ => Prog.advances_ret hr
  refine (Prog.advances_of_steady (Q := fun (s' : Knowledge) _ => s'.Has h snap.identity)
    (steady_of_onProbe (uses_observe hd (fun _ ho => ho) snap)) fun _ => hsnap).bind ?_
  intro s' r _ hr
  cases r with
  | error e => exact Prog.advances_ret (reports_error e)
  | ok row => exact learns_saveAndPublish (by simpa using hr)

/-- So does the finalizer, with the snapshot that it was given. -/
theorem learns_finalizeLocked {d : Dispatcher K} (hd : DispatchesOnly d) {snap : SbatchJobSnapshot}
    (hsnap : s.Has h snap.identity) : Learns (Reports h) s (finalizeLocked d h snap) := by
  rw [finalizeLocked_eq]
  refine (Prog.advances_of_steady (Q := fun (s' : Knowledge) _ => s'.Has h snap.identity)
    (steady_of_onProbe (uses_resolve hd (fun _ ho => ho) snap)) fun _ => hsnap).bind ?_
  intro s' r _ hr
  cases r with
  | error e => exact Prog.advances_ret (reports_error e)
  | ok outcome =>
    dsimp only
    split_ifs
    · exact Prog.advances_ret (reports_ok hr)
    · exact learns_then trivial fun _ => learns_saveAndPublish hr
    · exact learns_then trivial fun _ => learns_saveAndPublish hr

/-- Both after another. -/
theorem learns_refreshWithSacct {d : Dispatcher K} (hd : DispatchesOnly d) (h : Nat) :
    Learns (Reports h) s (refreshWithSacct d h) := by
  refine (learns_refresh hd h).bind fun s' r _ hr => ?_
  cases r with
  | error e => exact Prog.advances_ret (reports_error e)
  | ok snap =>
    dsimp only
    split_ifs
    · exact Prog.advances_ret hr
    · exact Prog.advances_ret hr
    · refine learns_then (o := (.lockRefresh h : Op K)) trivial fun _ => ?_
      have hsnap := (hr snap rfl).grown (.next s' (.lockRefresh h : Op K) ())
      exact (learns_finalizeLocked hd hsnap).bind fun s₁ r _ hr₁ =>
        learns_then (o := (.unlockRefresh h : Op K)) trivial fun _ => Prog.advances_ret hr₁

/-- While it sleeps, a task learns nothing. -/
theorem learns_sleep {Q : Knowledge → β → Prop} {p : Prog (sig K) β} (d : Nat)
    (hp : Learns Q s p) : Learns Q s (sleep d >>= fun _ => p) :=
  learns_then trivial fun (t : Nat) => learns_then (o := (.wake (t + d) : Op K)) trivial fun _ => hp

/-- A wait is made of refreshes. -/
theorem learns_waitTerminalFrom {d : Dispatcher K} (hd : DispatchesOnly d)
    (h pollInterval rounds failures : Nat) :
    Learns (fun s' r => ∀ r', r = some r' → Reports h s' r') s
      (waitTerminalFrom d h pollInterval rounds failures) := by
  induction rounds generalizing failures s with
  | zero => exact Prog.advances_ret fun _ he => by cases he
  | succ rounds ih =>
    refine (learns_refresh hd h).bind fun s' r _ hr => ?_
    have hdone : Learns (fun s' r => ∀ r', r = some r' → Reports h s' r') s'
        (Prog.ret (some r) : Prog (sig K) _) := by
      refine Prog.advances_ret ?_
      rintro _ ⟨⟩
      exact hr
    cases r with
    | ok snap =>
      dsimp only
      split_ifs
      · exact hdone
      · exact hdone
      · exact learns_sleep _ (ih _)
    | error e =>
      dsimp only
      split_ifs
      · exact hdone
      · exact learns_sleep _ (ih _)

/-! ### Submitting -/

/-- The submission itself is a command. -/
theorem steady_submit_records (argv : Argv) :
    (submit argv : Prog (sig K) _).Steady (recordProtocol K) s := by
  refine (steady_of_dispatchesOnly dispatchesOnly_runCommand argv).bind fun r => ?_
  cases r with
  | error e => exact Prog.steady_ret _
  | ok out =>
    dsimp only
    split_ifs
    · cases parseSubmittedJobid out.stdout <;> exact Prog.steady_ret _
    · exact Prog.steady_ret _

/-- A snapshot with a uuid that has just been drawn is saved, and a handle made from it. -/
theorem learns_saveNew {snap : SbatchJobSnapshot} {f : Except Str Unit → Prog (sig K) β}
    {Q : Knowledge → β → Prop} (hdrawn : snap.uuid ∈ s.drawn)
    (herror : ∀ s' e, s.Grown s' → Learns Q s' (f (.error e)))
    (hok : ∀ s', s.Grown s' → snap.identity ∈ s'.seen → Learns Q s' (f (.ok ()))) :
    Learns Q s (save snap >>= f) := by
  refine learns_then (o := (.save snap : Op K)) (.inr hdrawn) fun r => ?_
  have hgrown := Knowledge.Grown.next s (.save snap : Op K) r
  cases r with
  | error e => exact herror _ e hgrown
  | ok _ => exact hok _ hgrown (Set.mem_insert _ _)

/-- A handle is made of something known. -/
theorem learns_newHandle {snap : SbatchJobSnapshot} {f : Nat → Prog (sig K) β}
    {Q : Knowledge → β → Prop} (hseen : snap.identity ∈ s.seen)
    (hf : ∀ (n : Nat) (s' : Knowledge), s.Grown s' → n < s'.handles → Learns Q s' (f n)) :
    Learns Q s (newHandle snap >>= f) :=
  learns_then (o := (.newHandle snap : Op K)) hseen fun (n : Nat) => hf n _
    (.next s (.newHandle snap : Op K) n)
    (Nat.lt_of_lt_of_le (Nat.lt_succ_self n) (Nat.le_max_right _ _))

/-- The handle that `spawn` returns exists. -/
theorem learns_spawn (cmd : SbatchCmd) (dirs : CurrentDirs) :
    Learns (fun s' r => ∀ h, r = .ok h → h < s'.handles) s (spawn cmd dirs : Prog (sig K) _) := by
  have hfail : ∀ (s' : Knowledge) (e : SbatchSpawnError),
      Learns (fun s' r => ∀ h, r = .ok h → h < s'.handles) s'
        (Prog.ret (.error e) : Prog (sig K) (Except SbatchSpawnError Nat)) :=
    fun s' e => Prog.advances_ret fun h he => by cases he
  unfold spawn
  cases cmd.buildArgv dirs.chdir dirs.script with
  | error e => exact hfail s e
  | ok argv =>
    refine Prog.Steady.then (steady_submit_records argv) fun r => ?_
    cases r with
    | error e => exact hfail s e
    | ok jobid =>
      refine learns_then trivial fun (uuid : Nat) => ?_
      cases scriptPath cmd dirs.submitted with
      | error e => exact hfail _ e
      | ok path =>
        refine learns_then trivial fun (now : Nat) => ?_
        refine learns_saveNew (Set.mem_insert _ _) (fun s' e _ => hfail s' _) fun s' _ hseen => ?_
        refine learns_newHandle hseen fun h s' _ hlt => Prog.advances_ret ?_
        rintro _ ⟨⟩
        exact hlt

/-- Each task of an array gets a uuid of its own, and its snapshot is made from that. -/
theorem learns_spawnTasks (cmd : SbatchCmd) (argv : Argv) (path : Str) (jobid : JobId)
    (indices : List TaskIndex) :
    Learns (fun _ _ => True) s (spawnTasks cmd argv path jobid indices : Prog (sig K) _) := by
  induction indices generalizing s with
  | nil => exact Prog.advances_ret trivial
  | cons idx indices ih =>
    refine learns_then trivial fun (uuid : Nat) => learns_then trivial fun (now : Nat) => ?_
    refine learns_saveNew (Set.mem_insert _ _) (fun s' e _ => Prog.advances_ret trivial)
      fun s' _ hseen => ?_
    refine learns_newHandle hseen fun h s' _ _ => ?_
    refine ih.bind fun s' r _ _ => ?_
    cases r <;> exact Prog.advances_ret trivial

/-- So all handles of an array are of new jobs. -/
theorem learns_spawnArray (cmd : SbatchCmd) (dirs : CurrentDirs) (arraySpec : SlurmArraySpec) :
    Learns (fun _ _ => True) s (spawnArray cmd dirs arraySpec : Prog (sig K) _) := by
  unfold spawnArray
  rcases expandArrayIndices arraySpec with _ | _ | ⟨idx, indices⟩
  · exact Prog.advances_ret trivial
  · exact Prog.advances_ret trivial
  · dsimp only
    cases SbatchCmd.buildArgv _ dirs.chdir dirs.script with
    | error e => exact Prog.advances_ret trivial
    | ok argv =>
      refine Prog.Steady.then (steady_submit_records argv) fun r => ?_
      cases r with
      | error e => exact Prog.advances_ret trivial
      | ok masterJobid =>
        dsimp only
        cases scriptPath _ dirs.submitted with
        | error e => exact Prog.advances_ret trivial
        | ok path =>
          exact (learns_spawnTasks _ _ _ _ _).bind fun s' r _ _ => Prog.advances_ret trivial

/-! ### Attaching -/

/-- Several handles, each made of something known. -/
theorem learns_newHandles {snaps : List SbatchJobSnapshot}
    (hseen : ∀ snap ∈ snaps, snap.identity ∈ s.seen) :
    Learns (fun _ _ => True) s (newHandles snaps : Prog (sig K) _) := by
  induction snaps generalizing s with
  | nil => exact Prog.advances_ret trivial
  | cons snap snaps ih =>
    refine learns_newHandle (hseen snap List.mem_cons_self) fun h s' hgrown _ => ?_
    refine (ih fun x hx => hgrown.seen (hseen x (List.mem_cons_of_mem _ hx))).bind ?_
    exact fun s' hs _ _ => Prog.advances_ret trivial

/-- Everything that is stored has then been seen. -/
theorem learns_loadStore {f : Store → Prog (sig K) β} {Q : Knowledge → β → Prop}
    (hf : ∀ (stored : Store) (s' : Knowledge), s.Grown s' →
      (∀ snap ∈ stored, snap.identity ∈ s'.seen) → Learns Q s' (f stored)) :
    Learns Q s (loadStore >>= f) :=
  learns_then trivial fun (stored : Store) => hf stored _ (.next s (.store : Op K) stored)
    fun snap hsnap => .inr ⟨snap, hsnap, rfl⟩

/-- What is attached by its uuid was loaded from the store. -/
theorem learns_attachUuid (u : Nat) :
    Learns (fun _ _ => True) s (attachUuid u : Prog (sig K) _) := by
  refine learns_loadStore fun stored s' _ hstored => ?_
  cases hload : stored.load u with
  | none => exact Prog.advances_ret trivial
  | some snap =>
    exact learns_newHandle (hstored snap (List.mem_of_find?_eq_some hload))
      fun _ _ _ _ => Prog.advances_ret trivial

variable {scan : Store → Store}

/-- What is attached by a job id was found in the store. -/
theorem learns_attachJobid (hscan : ∀ s, (scan s).Perm s) (j : JobId) :
    Learns (fun _ _ => True) s (attachJobid scan j : Prog (sig K) _) := by
  refine learns_loadStore fun stored s' _ hstored => ?_
  dsimp only
  split_ifs
  · exact Prog.advances_ret trivial
  · cases hhead : ((scan stored).findAllByJobid j).head? with
    | none => exact Prog.advances_ret trivial
    | some snap =>
      have hmem := List.mem_of_mem_filter (List.mem_of_mem_head? hhead)
      exact learns_newHandle (hstored snap ((hscan stored).mem_iff.mp hmem))
        fun _ _ _ _ => Prog.advances_ret trivial

/-- So were the tasks of an array. -/
theorem learns_attachArrayJobid (hscan : ∀ s, (scan s).Perm s) (j : JobId) :
    Learns (fun _ _ => True) s (attachArrayJobid scan j : Prog (sig K) _) := by
  refine learns_loadStore fun stored s' _ hstored => ?_
  refine (learns_newHandles fun snap hsnap => ?_).bind fun _ _ _ _ => Prog.advances_ret trivial
  have htask := ((sortedTasks_spec _).1.mem_iff.mp hsnap)
  have hmem := List.mem_of_mem_filter (List.mem_of_mem_filter htask)
  exact hstored snap ((hscan stored).mem_iff.mp hmem)

/-- What is attached from a file has to be known before. -/
theorem learns_attachFile {decoded : Except SbatchAttachError SbatchJobSnapshot}
    (hdecoded : ∀ snap, decoded = .ok snap → snap.identity ∈ s.seen) :
    Learns (fun _ _ => True) s (attachFile decoded : Prog (sig K) _) := by
  cases decoded with
  | error e => exact Prog.advances_ret trivial
  | ok snap =>
    exact learns_newHandle (hdecoded snap rfl) fun _ _ _ _ => Prog.advances_ret trivial

end Programs

/-! ## 4. Every job keeps its record

The protocol of the records is kept by all calls of all clients, so its invariant holds in every
run. -/

section Calls

variable {past known : List SbatchJobSnapshot} {s : Knowledge}

/-- The caches make no operation on the records. -/
theorem dispatchesOnly_handleDispatcher (ttl : Nat) :
    DispatchesOnly (handleDispatcher ttl runCommand) :=
  dispatchesOnly_cachingCapture <| dispatchesOnly_cachingCapture <|
    dispatchesOnly_cachingCapture dispatchesOnly_runCommand

/-- A `run_with` is a spawn and a wait. -/
theorem learns_runWith (cmd : SbatchCmd) (dirs : CurrentDirs) (pollInterval rounds : Nat) :
    Learns (fun _ _ => True) s (runWith cmd dirs pollInterval rounds) := by
  have hd := dispatchesOnly_handleDispatcher pollInterval
  unfold runWith
  dsimp only
  split_ifs
  · exact Prog.advances_ret trivial
  · refine (learns_spawn cmd dirs).bind fun s₁ r _ hlt => ?_
    cases r with
    | error e => exact Prog.advances_ret trivial
    | ok h =>
      refine learns_then (o := (.borrow h : Op Key)) (hlt h rfl) fun snap => ?_
      refine (learns_waitTerminalFrom hd h pollInterval rounds 0).bind fun s₃ r _ _ => ?_
      rcases r with _ | e | _
      · exact Prog.advances_ret trivial
      · exact Prog.advances_ret trivial
      · refine (learns_refreshWithSacct hd h).bind fun s₄ r _ _ => ?_
        cases r with
        | error e => exact Prog.advances_ret trivial
        | ok snap =>
          dsimp only
          split
          · exact Prog.advances_ret trivial
          · split_ifs <;> exact Prog.advances_ret trivial

/-- A cancellation is a command. -/
theorem learns_cancel (scancelBin : Str) (j : JobId) :
    Learns (fun _ _ => True) s (cancel scancelBin j : Prog (sig Key) _) := by
  refine Prog.Steady.then (steady_of_dispatchesOnly dispatchesOnly_runCommand _) fun r => ?_
  cases r with
  | error e => exact Prog.advances_ret trivial
  | ok out =>
    dsimp only
    split_ifs <;> exact Prog.advances_ret trivial

/-- The snapshots that an answer tells the client of. -/
def ManagerAnswer.snapshots : ManagerAnswer → List SbatchJobSnapshot
  | .refreshed (.ok snap) | .waited (some (.ok snap)) => [snap]
  | _ => []

/-- What is attached from a file is one of these jobs. -/
def ManagerCall.Attaches (known : List SbatchJobSnapshot) : ManagerCall → Prop
  | .attachFile decoded => ∀ snap, decoded = .ok snap → snap ∈ known
  | _ => True

/-- What the client attaches from a file is one of these jobs, or one that it has been told of. -/
def ManagerClient.Attaches : List SbatchJobSnapshot → ManagerClient → Prop
  | _, .done => True
  | known, .call c next => c.Attaches known ∧ ∀ a, (next a).Attaches (a.snapshots ++ known)

/-- **Every call writes only the jobs that it knows**, and tells of no others. -/
theorem SbatchManager.learns_program {mgr : SbatchManager} (hscan : ∀ s, (mgr.scan s).Perm s)
    (rounds : Nat) {call : ManagerCall} (hcall : call.Attaches known)
    (hs : ∀ snap ∈ known, snap.identity ∈ s.seen) :
    Learns (fun s' a => ∀ snap ∈ a.snapshots, snap.identity ∈ s'.seen) s
      (mgr.program rounds call) := by
  have hd := dispatchesOnly_handleDispatcher mgr.pollInterval
  have hreports : ∀ {h s' r}, Reports h s' r →
      ∀ snap ∈ (ManagerAnswer.refreshed r).snapshots, snap.identity ∈ s'.seen := by
    intro h s' r hr snap hsnap
    cases r with
    | error e => cases hsnap
    | ok snap' =>
      cases List.mem_singleton.mp hsnap
      exact (hr _ rfl).2
  -- the other answers tell of no snapshot
  have hnone : ∀ {α : Type} {f : α → ManagerAnswer} {Q} {p : Prog (sig Key) α},
      (∀ a, (f a).snapshots = []) → Learns Q s p →
      Learns (fun s' a => ∀ snap ∈ a.snapshots, snap.identity ∈ s'.seen) s (f <$> p) := by
    intro α f Q p hf hp
    refine Prog.Advances.map (hp.mono fun s' a _ _ snap hsnap => ?_)
    rw [hf a] at hsnap
    cases hsnap
  cases call with
  | refresh h => exact Prog.Advances.map ((learns_refresh hd h).mono fun s' r _ hr => hreports hr)
  | refreshWithSacct h =>
    exact Prog.Advances.map ((learns_refreshWithSacct hd h).mono fun s' r _ hr => hreports hr)
  | waitTerminal h pollInterval =>
    refine Prog.Advances.map ((learns_waitTerminalFrom hd h pollInterval rounds 0).mono ?_)
    intro s' r _ hr
    rcases r with _ | e | snap
    · exact fun snap hsnap => by cases hsnap
    · exact fun snap hsnap => by cases hsnap
    · exact hreports (hr _ rfl)
  | spawn dirs => exact hnone (fun _ => rfl) (learns_spawn mgr.cmd dirs)
  | spawnArray dirs arraySpec =>
      exact hnone (fun _ => rfl) (learns_spawnArray mgr.cmd dirs arraySpec)
  | attachUuid u => exact hnone (fun _ => rfl) (learns_attachUuid u)
  | attachJobid j => exact hnone (fun _ => rfl) (learns_attachJobid hscan j)
  | attachArrayJobid j => exact hnone (fun _ => rfl) (learns_attachArrayJobid hscan j)
  | attachFile decoded =>
    exact hnone (fun _ => rfl) (learns_attachFile fun snap hsnap => hs snap (hcall snap hsnap))
  | runWith dirs => exact hnone (fun _ => rfl) (learns_runWith mgr.cmd dirs mgr.pollInterval rounds)
  | cancel j => exact hnone (fun _ => rfl) (learns_cancel mgr.scancelBin j)

/-- **A client keeps to the protocol**, by induction on the calls that it makes, each of which may
depend on what the last one has returned. -/
theorem SbatchManager.learns_client {mgr : SbatchManager} (hscan : ∀ s, (mgr.scan s).Perm s)
    (rounds : Nat) {client : ManagerClient} (hclient : client.Attaches known)
    (hs : ∀ snap ∈ known, snap.identity ∈ s.seen) :
    Learns (fun _ _ => True) s (mgr.client rounds client) := by
  induction client generalizing s known with
  | done => exact Prog.advances_ret trivial
  | call c next ih =>
    refine (mgr.learns_program hscan rounds hclient.1 hs).bind fun s' a hgrown ha => ?_
    have hs' : ∀ snap ∈ a.snapshots ++ known, snap.identity ∈ s'.seen := by
      intro snap hsnap
      rcases List.mem_append.mp hsnap with hsnap | hsnap
      · exact ha snap hsnap
      · exact (hgrown : s.Grown s').seen (hs snap hsnap)
    exact (ih a (hclient.2 a) hs').bind fun _ _ _ _ => Prog.advances_ret trivial

/-- A uuid names one of these jobs, and it is none of those that will be drawn. -/
structure OneJobEach (past : List SbatchJobSnapshot) (uuids : Supply Nat) : Prop where
  unique : ∀ s ∈ past, ∀ s' ∈ past, s.uuid = s'.uuid → s.identity = s'.identity
  drawn : ∀ s ∈ past, ¬ uuids.Ahead 0 s.uuid

/-- The snapshot is the one of a handle, or it is stored. -/
def World.Holds {ι : Type} {K : ι → Type} (w : World K) (snap : SbatchJobSnapshot) : Prop :=
  (∃ h < w.handles, w.watch h = snap) ∨ snap ∈ w.store

/-- A snapshot that was stored at the beginning, or has been since. -/
def World.HasStored {ι : Type} {K : ι → Type} (stored : Store) (w : World K)
    (snap : SbatchJobSnapshot) : Prop :=
  snap ∈ stored ∨ ∃ sv ∈ w.saves, sv.snap = snap ∧ sv.result = .ok ()

variable {mgr : SbatchManager} {rounds n handles utc : Nat} {clients : Nat → ManagerClient}
  {uuids : Supply Nat} {snaps : Nat → SbatchJobSnapshot} {store : Store}

/-- At the start nothing is known but the jobs of before. -/
theorem SbatchManager.start_knowledge (hscan : ∀ s, (mgr.scan s).Perm s)
    (hpast : OneJobEach past uuids) (hstore : ∀ s ∈ store, s ∈ past)
    (hsnaps : ∀ h < handles, snaps h ∈ past) (hclients : ∀ t < n, (clients t).Attaches past) :
    (knowledge Key past store).Orderly (fun _ _ => True)
      (mgr.serving rounds n clients (.start uuids utc handles snaps store)) := by
  have hknown : ∀ {x}, (World.start uuids utc handles snaps store : World Key).Known past x →
      ∃ s ∈ past, s.identity = x := by
    rintro x (⟨s, hs, rfl⟩ | ⟨h, hh, rfl⟩ | ⟨sv, hsv, -⟩)
    · exact ⟨s, hs, rfl⟩
    · exact ⟨snaps h, hsnaps h hh, rfl⟩
    · cases hsv
  have hcoherent : Coherent past store (World.start uuids utc handles snaps store : World Key) := by
    refine ⟨fun _ _ => rfl, ?_, ?_, fun s hs => .inl ⟨s, hstore s hs, rfl⟩,
      fun s hs => ⟨s, hs, rfl⟩, ?_⟩
    · intro x y hx hy hxy
      obtain ⟨s, hs, rfl⟩ := hknown hx
      obtain ⟨s', hs', rfl⟩ := hknown hy
      exact hpast.unique s hs s' hs' hxy
    · intro x hx
      obtain ⟨s, hs, rfl⟩ := hknown hx
      exact hpast.drawn s hs
    · intro sv hsv
      cases hsv
  refine ⟨fun _ => ⟨0, ∅, {x | ∃ s ∈ past, s.identity = x}, ∅⟩, fun t => ⟨⟨hcoherent, ?_⟩, ?_⟩,
    fun _ _ _ u hu => hu.elim⟩
  · exact ⟨Nat.zero_le _, fun _ _ hx => hx.elim, fun x hx => .inl hx, fun _ hu => hu.elim⟩
  · by_cases ht : t < n
    · simp only [serving, if_pos ht]
      exact Prog.Keeps.mono (mgr.learns_client hscan rounds (hclients t ht)
        fun s hs => ⟨s, hs, rfl⟩) fun _ _ _ => trivial
    · simp only [serving, if_neg ht]
      trivial

/-- **Every job keeps its record.**  Whatever clients of one manager do, on any handles, with calls
given up at any await: a handle stays with its job, snapshots with the same uuid are about the same
job, and what is stored of a job can be loaded from then on.  `past` has the snapshots of before:
those that are stored, those of the handles that there are, and those that are attached from
files. -/
theorem jobs_keep_identity {ms : List (Move (machine Key))}
    {c : Config (machine Key) (List ManagerAnswer)} (hscan : ∀ s, (mgr.scan s).Perm s)
    (hpast : OneJobEach past uuids) (hstore : ∀ s ∈ store, s ∈ past)
    (hsnaps : ∀ h < handles, snaps h ∈ past) (hclients : ∀ t < n, (clients t).Attaches past)
    (hr : (mgr.serving rounds n clients (.start uuids utc handles snaps store)).run ms = some c) :
    (∀ h < c.world.handles, (c.world.watch h).identity = (c.world.initial h).identity) ∧
    (∀ s s', c.world.Holds s → c.world.Holds s' → s.uuid = s'.uuid → s.identity = s'.identity) ∧
    ∀ s, c.world.HasStored store s →
      ∃ s', c.world.store.load s.uuid = some s' ∧ s'.identity = s.identity := by
  have horderly := (SbatchManager.start_knowledge hscan hpast hstore hsnaps hclients).run hr
  obtain ⟨_, hc, -⟩ := horderly.exists_agrees 0
  have hholds : ∀ {s}, c.world.Holds s → c.world.Known past s.identity := by
    rintro s (⟨h, hh, rfl⟩ | hs)
    · exact .inr (.inl ⟨h, hh, (hc.watch h hh).symm⟩)
    · exact hc.store s hs
  refine ⟨hc.watch, fun s s' hs hs' hu => hc.unique _ _ (hholds hs) (hholds hs') hu, ?_⟩
  rintro s (hs | ⟨sv, hsv, rfl, hok⟩)
  · exact hc.load (.inl ⟨s, hstore s hs, rfl⟩) (hc.kept s hs)
  · exact hc.load (.inr (.inr ⟨sv, hsv, rfl⟩)) (hc.saved sv hsv hok)

/-- It attaches to a file, submits, and refreshes the handle of the new job. -/
def attachesAndSubmits : ManagerClient :=
  .call (.attachFile (.ok (.submitted 0 8 none))) fun _ =>
    .call (.spawn ⟨.error [], .error [], .error []⟩) fun a =>
      match a with
      | .spawned (.ok h) => .ofList [.refresh h]
      | _ => .done

/-- Another client refreshes the handle that is there. -/
def attachedAndSpawned : Config (machine Key) (List ManagerAnswer) :=
  (SbatchManager.mk (.new "/w/job.sh") 60 "scancel" id).serving 1 2
    (fun t => if t = 0 then attachesAndSubmits else .ofList [.refresh 0])
    (.start (.countFrom 1) 0 1 (fun _ => .submitted 0 8 none) [.submitted 0 8 none])

/-- The submission is stored while the other refresh waits for its `qgroup -l`; then that is given
up, and the new handle is refreshed. -/
def refreshedAfterSpawn : List (Move (machine Key)) :=
  [passes 0, passes 1, passes 1, prints 0 "Submitted batch job 7\n", saves 0, .drop 1, passes 0,
    passes 0, prints 0 "gr1 alice 7 RUN", saves 0]

/-- One client attaches the stored job, submits another one and refreshes its handle, while the
refresh of a second client is given up. -/
theorem jobs_keep_identity_spawned : ∃ c, attachedAndSpawned.run refreshedAfterSpawn = some c ∧
    (c.world.handles = 3 ∧ c.world.store.length = 2 ∧ c.world.writes.length = 1) ∧
    (∀ h < c.world.handles, (c.world.watch h).identity = (c.world.initial h).identity) ∧
    (∀ s s', c.world.Holds s → c.world.Holds s' → s.uuid = s'.uuid → s.identity = s'.identity) ∧
    ∀ s, c.world.HasStored [.submitted 0 8 none] s →
      ∃ s', c.world.store.load s.uuid = some s' ∧ s'.identity = s.identity := by
  have hreached : ∃ c, attachedAndSpawned.run refreshedAfterSpawn = some c ∧
      c.world.handles = 3 ∧ c.world.store.length = 2 ∧ c.world.writes.length = 1 :=
    Config.exists_run (by decide +kernel)
  have hpast : OneJobEach [.submitted 0 8 none] (.countFrom 1) := by
    refine ⟨fun s hs s' hs' _ => ?_, fun s hs => ?_⟩
    · rw [List.mem_singleton.mp hs, List.mem_singleton.mp hs']
    · rw [List.mem_singleton.mp hs]
      exact Supply.not_ahead_countFrom Nat.zero_lt_one
  obtain ⟨c, hr, hc⟩ := hreached
  refine ⟨c, hr, hc, jobs_keep_identity (fun s => .refl s) hpast (fun s hs => hs)
    (fun h _ => List.mem_singleton.mpr rfl) (fun t ht => ?_) hr⟩
  split
  · refine ⟨fun s hs => by cases hs; exact List.mem_singleton.mpr rfl,
      fun a => ⟨trivial, fun a => ?_⟩⟩
    rcases a with r | r | (e | h) | r | r | r | r | r
    all_goals first | exact trivial | exact ⟨trivial, fun _ => trivial⟩
  · exact ⟨trivial, fun _ => trivial⟩

end Calls

end Sbatch

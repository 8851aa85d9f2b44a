/-
# What a handle's calls do

One lemma for each function of the handle, over any dispatcher that `Serves` an audit and in any
context of the lock discipline.  `Observed` and `Resolved` say which answers a probe read and what
follows from them; `Refreshed` and `Finalized` say what a critical section read, saved and
published.

A caller shows that the audit allows what its calls publish (`RefreshAllowed`,
`FinalizeAllowed`); these see the whole critical section.
-/
import SlurmRunner.Sbatch.CacheSpec

namespace Sbatch

open Text Slurm Interact

/-! ## 1. What a probe reads

A refresh probes the scheduler by one or more commands.  `Observed` and `Resolved` list what these
were answered, so that what is said later of an observation can be traced to the answers. -/

/-- The answers (newest first) that a `refresh` of `snap` reads, and what it makes of them. -/
inductive Observed (snap : SbatchJobSnapshot) :
    List Read → Except Str (Option JobStatus) → Prop
  | task {rd idx} (hidx : snap.arrayTaskId = some idx)
      (hargv : rd.argv = squeueArgv snap.squeueKey) :
      Observed snap [rd] (squeueStatus snap rd.result)
  | qgroup {rd status} (hidx : snap.arrayTaskId = none) (hargv : rd.argv = qgroupArgv)
      (hrow : qgroupStatus snap.jobid rd.result = some status) :
      Observed snap [rd] (.ok (some status))
  | squeue {rd rq} (hidx : snap.arrayTaskId = none) (hqargv : rq.argv = qgroupArgv)
      (hmiss : qgroupStatus snap.jobid rq.result = none)
      (hargv : rd.argv = squeueArgv snap.squeueKey) :
      Observed snap [rd, rq] (squeueStatus snap rd.result)

/-- The answers (newest first) that the finalizer of `snap` reads, and what it makes of them. -/
inductive Resolved (snap : SbatchJobSnapshot) : List Read → Except Str JobOutcome → Prop
  | task {rd idx} (hidx : snap.arrayTaskId = some idx)
      (hargv : rd.argv = sacctArgv (decimal snap.jobid.toNat)) :
      Resolved snap [rd] ((sacctOutcome snap rd.result).map (·.getD JobOutcome.default))
  | failed {rd e} (hidx : snap.arrayTaskId = none) (hargv : rd.argv = squeueArgv snap.squeueKey)
      (hst : squeueStatus snap rd.result = .error e) : Resolved snap [rd] (.error e)
  | listed {rd status} (hidx : snap.arrayTaskId = none)
      (hargv : rd.argv = squeueArgv snap.squeueKey)
      (hst : squeueStatus snap rd.result = .ok (some status)) :
      Resolved snap [rd] (.ok ⟨status, none⟩)
  | sacct {rd rq} (hidx : snap.arrayTaskId = none) (hqargv : rq.argv = squeueArgv snap.squeueKey)
      (hst : squeueStatus snap rq.result = .ok none)
      (hargv : rd.argv = sacctArgv (decimal snap.jobid.toNat)) :
      Resolved snap [rd, rq] ((sacctOutcome snap rd.result).map (·.getD JobOutcome.default))

/-- There is no observation without an answer. -/
theorem Observed.ne_nil {snap : SbatchJobSnapshot} {new : List Read}
    {obs : Except Str (Option JobStatus)} (h : Observed snap new obs) : new ≠ [] := by
  cases h <;> exact List.cons_ne_nil _ _

/-- There is no outcome without an answer. -/
theorem Resolved.ne_nil {snap : SbatchJobSnapshot} {new : List Read} {res : Except Str JobOutcome}
    (h : Resolved snap new res) : new ≠ [] := by
  cases h <;> exact List.cons_ne_nil _ _

variable {ι : Type} {K : ι → Type} {A : Audit K} {t h : Nat} {w : World K}

/-- What a probe of task `t` leaves alone. -/
structure Probed (t : Nat) (w w' : World K) : Prop extends Elapse w w', HandlesKept t w w' where
  savesOf : w'.savesOf t = w.savesOf t

/-- Task `t` has read the answers `new` since `w`, newest first. -/
structure Heard (A : Audit K) (t : Nat) (w w' : World K) (new : List Read) : Prop where
  readsOf : w'.readsOf t = new ++ w.readsOf t
  since : ∀ rd ∈ new, rd.tid = t ∧ w.instant ≤ rd.since
  seen : ∀ rd ∈ new, A.seen w rd w'.calls

/-- A probe neither saves nor publishes. -/
theorem Dispatched.probed {w' : World K} (h : Dispatched t w w') : Probed t w w' :=
  ⟨h.toElapse, h.toHandlesKept, h.savesOf⟩

/-- Two probes after another. -/
theorem Probed.trans {w' w'' : World K} (h : Probed t w w') (h' : Probed t w' w'') :
    Probed t w w'' :=
  ⟨h.toElapse.trans h'.toElapse, h.toHandlesKept.trans h'.toHandlesKept,
    h'.savesOf.trans h.savesOf⟩

/-- What was heard in two intervals, the later first. -/
theorem Heard.trans {w' w'' : World K} {new new' : List Read} (h : Heard A t w w' new)
    (h' : Heard A t w' w'' new') (hel : Elapse w w') (hel' : Elapse w' w'') :
    Heard A t w w'' (new' ++ new) where
  readsOf := by rw [h'.readsOf, h.readsOf, List.append_assoc]
  since rd hrd := by
    rcases List.mem_append.mp hrd with hrd | hrd
    · exact ⟨(h'.since rd hrd).1, hel.instant.trans (h'.since rd hrd).2⟩
    · exact h.since rd hrd
  seen rd hrd := by
    rcases List.mem_append.mp hrd with hrd | hrd
    · exact A.seen_mono hel List.suffix_rfl (h'.seen rd hrd)
    · exact A.seen_mono (Elapse.refl w) hel'.calls (h.seen rd hrd)

/-- What was heard by `w'` has been heard later, and since any earlier world with the same reads. -/
theorem Heard.widen {w₀ w' w'' : World K} {new : List Read} (h : Heard A t w w' new)
    (hel : Elapse w₀ w) (hreads : w₀.readsOf t = w.readsOf t) (hel' : Elapse w' w'')
    (hreads' : w''.readsOf t = w'.readsOf t) : Heard A t w₀ w'' new where
  readsOf := by rw [hreads', h.readsOf, hreads]
  since rd hrd := ⟨(h.since rd hrd).1, hel.instant.trans (h.since rd hrd).2⟩
  seen rd hrd := A.seen_mono hel hel'.calls (h.seen rd hrd)

/-- An answer that was heard is in the records. -/
theorem Heard.mem {w' : World K} {new : List Read} (h : Heard A t w w' new) {rd : Read}
    (hrd : rd ∈ new) : rd ∈ w'.reads := by
  have hmem : rd ∈ w'.readsOf t := h.readsOf ▸ List.mem_append_left _ hrd
  exact (List.mem_filter.mp hmem).1

/-- The world after a save. -/
def World.saved (w : World K) (t : Nat) (snap : SbatchJobSnapshot) (r : Except Str Unit) :
    World K :=
  { w with
    store := match r with
      | .ok () => w.store.save snap
      | .error _ => w.store
    saves := ⟨t, snap, w.store.load snap.uuid, r⟩ :: w.saves }

/-- The world after a publication. -/
def World.published (w : World K) (t h : Nat) (site : Site) (snap : SbatchJobSnapshot) :
    World K :=
  { w with
    watch := Function.update w.watch h snap
    writes := ⟨t, h, site, w.watch h, snap, w.instant, w.readsOf t⟩ :: w.writes }

/-- The lock of a handle taken by task `t`. -/
def World.locked (w : World K) (t h : Nat) : World K :=
  { w with refreshOwner := Function.update w.refreshOwner h (some t) }

/-- What was heard while the lock was held, seen from before it was taken and after it is
released. -/
theorem Heard.outside {w' w'' : World K} {new : List Read} {owner : Nat → Option Nat}
    (hh : Heard A t (w.locked t h) w' new) (heq : w'' = { w' with refreshOwner := owner }) :
    Heard A t w w'' new := by
  subst heq
  exact hh.widen { Elapse.refl w with } rfl { Elapse.refl w' with } rfl

/-- A save is within what may happen to the world. -/
theorem elapse_saved (w : World K) (t : Nat) (snap : SbatchJobSnapshot) (r : Except Str Unit) :
    Elapse w (w.saved t snap r) :=
  { Elapse.refl w with saves := List.suffix_cons _ _ }

/-- So is a publication. -/
theorem elapse_published (w : World K) (t h : Nat) (site : Site) (snap : SbatchJobSnapshot) :
    Elapse w (w.published t h site snap) :=
  { Elapse.refl w with writes := List.suffix_cons _ _ }

/-- A save is on record, with what the store had before. -/
theorem savesOf_saved (w : World K) (t : Nat) (snap : SbatchJobSnapshot) (r : Except Str Unit) :
    (w.saved t snap r).savesOf t = ⟨t, snap, w.store.load snap.uuid, r⟩ :: w.savesOf t := by
  simp [World.savesOf, World.saved]

variable [DecidableEq ι] {C : Context (machine K)} {d : Dispatcher K}

/-- A query reads one answer. -/
theorem wp_dynView (hC : Under A C) (hd : Serves A C t d) (argv : Argv) (hidle : Idle t w) :
    C.wp t (dynView d argv) (fun r w' => ∃ rd, rd.argv = argv ∧ rd.result = r ∧
      Heard A t w w' [rd] ∧ Probed t w w' ∧ Idle t w') w := by
  unfold dynView
  refine Context.wp_bind (wp_now hC fun _ => ?_)
  refine Context.wp_seq (hd.dispatched hC argv hidle) ?_
  rintro r w₁ ⟨⟨hid, hread, hseen⟩, hdis⟩
  refine Context.wp_bind (wp_perform_sync hC rfl ⟨hdis.instant, hread⟩ fun _ _ _ _ he _ => ?_)
  cases he
  have helapse : Elapse w₁ { w₁ with
      reads := ⟨t, argv, w.instant, w₁.instant, r⟩ :: w₁.reads } :=
    { Elapse.refl w₁ with reads := List.suffix_cons _ _ }
  refine ⟨⟨t, argv, w.instant, w₁.instant, r⟩, rfl, rfl, ⟨?_, ?_, ?_⟩,
    hdis.probed.trans ⟨helapse, { HandlesKept.refl t w₁ with }, rfl⟩, hid⟩
  · have hreads : w₁.readsOf t = w.readsOf t := hdis.readsOf
    simp only [World.readsOf] at hreads ⊢
    simp [hreads]
  · intro rd hrd
    rw [List.mem_singleton] at hrd
    subst hrd
    exact ⟨rfl, le_refl _⟩
  · intro rd hrd
    rw [List.mem_singleton] at hrd
    subst hrd
    exact hseen

/-- **The rule of an observation**: it follows from the answers that were read for it. -/
theorem wp_observe (hC : Under A C) (hd : Serves A C t d) (snap : SbatchJobSnapshot)
    (hidle : Idle t w) :
    C.wp t (observe (dynView d) snap) (fun obs w' => ∃ new, Observed snap new obs ∧
      Heard A t w w' new ∧ Probed t w w' ∧ Idle t w') w := by
  unfold observe
  cases hidx : snap.arrayTaskId with
  | some idx =>
    refine Context.wp_seq (wp_dynView hC hd _ hidle) ?_
    rintro r w₁ ⟨rd, hargv, rfl, hheard, hprobed, hid⟩
    exact ⟨[rd], .task hidx hargv, hheard, hprobed, hid⟩
  | none =>
    refine Context.wp_seq (wp_dynView hC hd _ hidle) ?_
    rintro rq w₁ ⟨rdq, hqargv, rfl, hheard, hprobed, hid⟩
    cases hrow : qgroupStatus snap.jobid rdq.result with
    | some status => exact ⟨[rdq], .qgroup hidx hqargv hrow, hheard, hprobed, hid⟩
    | none =>
      refine Context.wp_seq (wp_dynView hC hd _ hid) ?_
      rintro r w₂ ⟨rd, hargv, rfl, hheard', hprobed', hid'⟩
      exact ⟨[rd, rdq], .squeue hidx hqargv hrow hargv,
        hheard.trans hheard' hprobed.toElapse hprobed'.toElapse, hprobed.trans hprobed', hid'⟩

/-- **The rule of an outcome**, likewise. -/
theorem wp_resolve (hC : Under A C) (hd : Serves A C t d) (snap : SbatchJobSnapshot)
    (hidle : Idle t w) :
    C.wp t (resolve (dynView d) snap) (fun res w' => ∃ new, Resolved snap new res ∧
      Heard A t w w' new ∧ Probed t w w' ∧ Idle t w') w := by
  unfold resolve
  cases hidx : snap.arrayTaskId with
  | some idx =>
    refine Context.wp_seq (wp_dynView hC hd _ hidle) ?_
    rintro r w₁ ⟨rd, hargv, rfl, hheard, hprobed, hid⟩
    exact ⟨[rd], .task hidx hargv, hheard, hprobed, hid⟩
  | none =>
    refine Context.wp_seq (wp_dynView hC hd _ hidle) ?_
    rintro rq w₁ ⟨rdq, hqargv, rfl, hheard, hprobed, hid⟩
    cases hst : squeueStatus snap rdq.result with
    | error e => exact ⟨[rdq], .failed hidx hqargv hst, hheard, hprobed, hid⟩
    | ok row =>
      cases row with
      | some status => exact ⟨[rdq], .listed hidx hqargv hst, hheard, hprobed, hid⟩
      | none =>
        refine Context.wp_seq (wp_dynView hC hd _ hid) ?_
        rintro r w₂ ⟨rd, hargv, rfl, hheard', hprobed', hid'⟩
        exact ⟨[rd, rdq], .sacct hidx hqargv hst hargv,
          hheard.trans hheard' hprobed.toElapse hprobed'.toElapse, hprobed.trans hprobed', hid'⟩

/-! ## 2. Recording

`save_and_publish` under the refresh lock.  The save can fail, and then nothing is published; the
watch value is replaced in the step in which the save returns. -/

/-- A critical section of task `t` on handle `h`, from its start to the moment it publishes. -/
structure Section (A : Audit K) (t h : Nat) (w₁ w₂ : World K) (new : List Read) : Prop where
  start : Inv A w₁
  now : Inv A w₂
  elapse : Elapse w₁ w₂
  watch : w₂.watch h = w₁.watch h
  writes : ∀ e ∈ w₂.writes, e.handle = h → e ∈ w₁.writes
  heard : Heard A t w₁ w₂ new

omit [DecidableEq ι] in
/-- An observation published in the section is not older than what it replaces. -/
theorem Section.observed_advances {w₁ w₂ : World K} {new : List Read}
    (hsec : Section A t h w₁ w₂ new) (ha : A.timely) (hs : w₂.steady = true)
    (row : Option JobStatus) : Timely w₂.utc ((w₁.watch h).observed row w₁.utc) ∧
      Advances ⟨t, h, siteOf row, w₁.watch h, (w₁.watch h).observed row w₁.utc, w₂.instant,
      w₂.readsOf t⟩ := by
  have hle := hsec.elapse.steady hs
  have hafter := SbatchJobSnapshot.observed_lastObservedAt (w₁.watch h) row w₁.utc
  refine ⟨fun x hx => ?_, ?_⟩
  · rw [hafter, Option.some.injEq] at hx
    exact hx ▸ hle.2
  · have hno : (w₁.watch h).NotOlder ((w₁.watch h).observed row w₁.utc) :=
      SbatchJobSnapshot.notOlder_iff.mpr fun x hx =>
        ⟨w₁.utc, hafter, hsec.start.timely ha hle.1 h x hx⟩
    cases row <;> exact hno

/-- The section has saved `snap` and, if that worked, published it. -/
def Recorded (t h : Nat) (site : Site) (snap : SbatchJobSnapshot) (w₁ : World K)
    (r : Except Str SbatchJobSnapshot) (w' : World K) : Prop :=
  ∃ sv, w'.savesOf t = sv :: w₁.savesOf t ∧ sv.tid = t ∧ sv.snap = snap ∧
    ((∃ e, sv.result = .error e ∧ r = .error e ∧ w'.watch h = w₁.watch h) ∨
     (sv.result = .ok () ∧ r = .ok snap ∧ w'.watch h = snap ∧
      ∃ wr ∈ w'.writes, wr.tid = t ∧ wr.handle = h ∧ wr.site = site ∧ wr.before = w₁.watch h ∧
        wr.after = snap ∧ w₁.instant ≤ wr.writtenAt))

/-- The result of a save comes from the surroundings, and a failed one leaves the store as it is. -/
theorem wp_save (hC : Under A C) {snap : SbatchJobSnapshot} {Q : Except Str Unit → World K → Prop}
    (hquiet : ∀ u, ¬ A.quiet u)
    (hQ : ∀ (w₁ : World K) r, C.rely t w w₁ → Inv A w₁ → Inv A (w₁.saved t snap r) →
      Q r (w₁.saved t snap r)) :
    C.wp t (save snap) Q w := by
  refine wp_perform_await hC (fun _ _ _ hq => absurd hq (hquiet t)) fun w₁ i r w' hr hi he hi' => ?_
  cases i with
  | go | output _ => simp [exec] at he
  | saved out =>
    cases he
    exact hQ w₁ _ hr hi hi'

/-- The watch value is replaced as the audit permits it. -/
theorem wp_sendReplace (hC : Under A C) {site : Site} {snap : SbatchJobSnapshot}
    {Q : Unit → World K → Prop} (hp : Permit A t (.sendReplace h site snap) w)
    (hQ : Q () (w.published t h site snap)) : C.wp t (sendReplace h site snap) Q w := by
  refine wp_perform_sync hC rfl hp fun i a w' _ he _ => ?_
  simp only [exec] at he
  split at he
  · cases he
    exact hQ
  · cases he

/-- The rule of `saveAndPublish`, at a world `w` in a section that started in `w₁`. -/
theorem wp_saveAndPublish (hC : Under A C) {site : Site} {snap : SbatchJobSnapshot}
    {w₁ : World K} {new : List Read} (hown₁ : w₁.refreshOwner h = some t) (hstart : Inv A w₁)
    (hquiet : ∀ u, ¬ A.quiet u) (hheard : Heard A t w₁ w new) (hprobed : Probed t w₁ w)
    (hidle : Idle t w)
    (hwrite : ∀ w₂, Section A t h w₁ w₂ new → Elapse w w₂ →
      A.write ⟨t, h, site, w₁.watch h, snap, w₂.instant, w₂.readsOf t⟩ w₂.writes w₂.reads w₂.calls ∧
        (A.timely → w₂.steady = true → Timely w₂.utc snap ∧
          Advances ⟨t, h, site, w₁.watch h, snap, w₂.instant, w₂.readsOf t⟩)) :
    C.wp t (saveAndPublish h site snap) (fun r w' => Recorded t h site snap w₁ r w' ∧
      Heard A t w₁ w' new ∧ Elapse w₁ w' ∧ w'.refreshOwner h = some t ∧ Idle t w') w := by
  unfold saveAndPublish
  refine Context.wp_bind (wp_save hC hquiet fun w₂ r hr _ hinv₃ => ?_)
  have ho := hC.rely hr
  have hown₂ := hprobed.owned h hown₁
  have hown₃ := ho.dispatched.owned h hown₂.1
  have hwatch : w₂.watch h = w₁.watch h := hown₃.2.1.trans hown₂.2.1
  have hid₂ : Idle t w₂ := ho.idle hidle
  have helapse : Elapse w (w₂.saved t snap r) :=
    ho.dispatched.toElapse.trans (elapse_saved w₂ t snap r)
  have helapse₃ : Elapse w₁ (w₂.saved t snap r) := hprobed.toElapse.trans helapse
  have hheard₃ : Heard A t w₁ (w₂.saved t snap r) new :=
    hheard.widen (Elapse.refl w₁) rfl helapse ho.dispatched.readsOf
  have hsaves : (w₂.saved t snap r).savesOf t =
      ⟨t, snap, w₂.store.load snap.uuid, r⟩ :: w₁.savesOf t := by
    rw [savesOf_saved, ho.dispatched.savesOf, hprobed.savesOf]
  cases r with
  | error e =>
    exact ⟨⟨_, hsaves, rfl, rfl, .inl ⟨e, rfl, rfl, hwatch⟩⟩, hheard₃, helapse₃, hown₃.1, hid₂⟩
  | ok _ =>
    have hsec : Section A t h w₁ (w₂.saved t snap (.ok ())) new :=
      ⟨hstart, hinv₃, helapse₃, hwatch,
        fun e he hh => hown₂.2.2 e (hown₃.2.2 e he hh) hh, hheard₃⟩
    obtain ⟨hw, htime⟩ := hwrite _ hsec helapse
    have hpermit : Permit A t (.sendReplace h site snap) (w₂.saved t snap (.ok ())) := by
      refine ⟨hown₃.1, ?_⟩
      rw [show (w₂.saved t snap (.ok ())).watch h = w₁.watch h from hwatch]
      exact ⟨hw, htime⟩
    refine Context.wp_bind (wp_sendReplace hC hpermit ?_)
    exact ⟨⟨_, hsaves, rfl, rfl, .inr ⟨rfl, rfl, by simp [World.published], _, List.mem_cons_self,
      rfl, rfl, rfl, hwatch, rfl, helapse₃.instant⟩⟩,
      hheard₃.widen (Elapse.refl w₁) rfl (elapse_published _ t h site snap) rfl,
      helapse₃.trans (elapse_published _ t h site snap), hown₃.1, hid₂⟩

/-! ## 3. The calls of a handle

One rule for each call, which says what it has read, published and returned.  `refresh_with_sacct`
takes the lock twice, so its rule carries the snapshot of the first critical section into the second
one. -/

/-- A read-out of the critical section of a `refresh` that started in `w₁`. -/
def Refreshed (A : Audit K) (t h : Nat) (w₁ : World K) (r : Except Str SbatchJobSnapshot)
    (w' : World K) : Prop :=
  ∃ new obs, Observed (w₁.watch h) new obs ∧ Heard A t w₁ w' new ∧ Elapse w₁ w' ∧
    match obs with
    | .error e => r = .error e ∧ w'.watch h = w₁.watch h ∧ w'.savesOf t = w₁.savesOf t
    | .ok row => Recorded t h (siteOf row) ((w₁.watch h).observed row w₁.utc) w₁ r w'

/-- The audit allows what a `refresh` publishes. -/
def RefreshAllowed (A : Audit K) (t h : Nat) : Prop :=
  ∀ w₁ w₂ new row, Section A t h w₁ w₂ new → Observed (w₁.watch h) new (.ok row) →
    A.write ⟨t, h, siteOf row, w₁.watch h, (w₁.watch h).observed row w₁.utc, w₂.instant,
      w₂.readsOf t⟩
      w₂.writes w₂.reads w₂.calls

/-- The lock is got when it is free; the others have been at work until then. -/
theorem wp_lockRefresh (hC : Under A C) {Q : Unit → World K → Prop} (hquiet : ∀ u, ¬ A.quiet u)
    (hQ : ∀ w₁ : World K, C.rely t w w₁ → Inv A w₁ → Inv A (w₁.locked t h) →
      Q () (w₁.locked t h)) :
    C.wp t (lockRefresh h) Q w := by
  refine wp_perform_await hC (fun _ _ _ hq => absurd hq (hquiet t)) fun w₁ i r w' hr hi he hi' => ?_
  simp only [exec] at he
  split at he
  · split at he
    · cases he
      exact hQ w₁ hr hi hi'
    · cases he
  · cases he

/-- The lock is given back. -/
theorem wp_unlockRefresh (hC : Under A C) {Q : Unit → World K → Prop}
    (hown : w.refreshOwner h = some t)
    (hQ : Q () { w with refreshOwner := Function.update w.refreshOwner h none }) :
    C.wp t (unlockRefresh h) Q w :=
  wp_perform_sync hC rfl hown fun _ _ _ _ he _ => by
    cases he
    exact hQ

/-- **What a `refresh` does**: it takes the lock in some later world `w₁`, and its section reads,
saves and publishes as `Refreshed` says. -/
theorem wp_refresh (hC : Under A C) (hd : Serves A C t d) (hquiet : ∀ u, ¬ A.quiet u)
    (hallow : RefreshAllowed A t h) (hidle : Idle t w) :
    C.wp t (refresh d h) (fun r w' => ∃ w₁ : World K, C.rely t w w₁ ∧ Inv A w₁ ∧
      Refreshed A t h w₁ r w' ∧ Idle t w') w := by
  unfold refresh
  refine Context.wp_bind (wp_lockRefresh hC hquiet fun w₁ hr hi _ => ?_)
  have hid₁ : Idle t (w₁.locked t h) := (hC.rely hr).idle hidle
  have hown : (w₁.locked t h).refreshOwner h = some t := Function.update_self ..
  refine Context.wp_bind (wp_borrow hC fun hinv => ?_)
  refine Context.wp_bind (wp_utcNow hC fun _ => ?_)
  rw [refreshLocked_eq, bind_assoc]
  refine Context.wp_seq (wp_observe hC hd _ hid₁) ?_
  rintro obs w₂ ⟨new, hobs, hheard, hprobed, hid₂⟩
  have hown₂ := hprobed.owned h hown
  cases obs with
  | error e =>
    refine Context.wp_bind (wp_unlockRefresh hC hown₂.1 ?_)
    exact ⟨w₁, hr, hi, ⟨new, .error e, hobs, hheard.outside rfl,
      { hprobed.toElapse with }, rfl, hown₂.2.1, hprobed.savesOf⟩, hid₂⟩
  | ok row =>
    refine Context.wp_seq (wp_saveAndPublish hC hown hinv hquiet hheard hprobed hid₂ ?_) ?_
    · intro w₃ hsec _
      exact ⟨hallow _ w₃ new row hsec hobs, fun ha hs => hsec.observed_advances ha hs row⟩
    · rintro r w₃ ⟨hrec, hheard₃, helapse₃, hown₃, hid₃⟩
      refine Context.wp_bind (wp_unlockRefresh hC hown₃ ?_)
      exact ⟨w₁, hr, hi, ⟨new, .ok row, hobs, hheard₃.outside rfl,
        { helapse₃ with }, hrec⟩, hid₃⟩

/-- No usable accounting row yet. -/
abbrev Unusable (oc : JobOutcome) : Prop := oc.status.state = .unknown ∧ oc.exitCode = none

/-- The row says that the job is alive after all. -/
abbrev StillLive (oc : JobOutcome) : Prop :=
  oc.status.state ≠ .unknown ∧ oc.status.state.isTerminal = false

/-- A read-out of the second critical section of `refresh_with_sacct`, started in `w₁` with the
snapshot `carried`. -/
def Finalized (A : Audit K) (t h : Nat) (carried : SbatchJobSnapshot) (w₁ : World K)
    (r : Except Str SbatchJobSnapshot) (w' : World K) : Prop :=
  ∃ new res, Resolved carried new res ∧ Heard A t w₁ w' new ∧ Elapse w₁ w' ∧
    match res with
    | .error e => r = .error e ∧ w'.watch h = w₁.watch h ∧ w'.savesOf t = w₁.savesOf t
    | .ok oc =>
      (Unusable oc ∧ r = .ok carried ∧ w'.watch h = w₁.watch h ∧ w'.savesOf t = w₁.savesOf t) ∨
      (StillLive oc ∧ ∃ u,
        Recorded t h (.rollback carried) (carried.rolledBack oc.status u) w₁ r w') ∨
      (¬ Unusable oc ∧ ¬ StillLive oc ∧
        ∃ u, Recorded t h (.stamp carried) (carried.stamped oc u) w₁ r w')

/-- The snapshot that task `t` carries into its second section: the one its `refresh` published,
after the answers `base` that the task had read before. -/
structure Carried (t h : Nat) (base : List Read) (carried : SbatchJobSnapshot) (w₁ : World K) :
    Prop where
  finished : carried.lifecycle.finished = none
  due : carried.lifecycle.leftActiveListing = true ∨ carried.observedTerminal = true
  origin : ∃ snap new row utc, Observed snap new (.ok row) ∧ w₁.readsOf t = new ++ base ∧
    carried = snap.observed row utc ∧ (w₁.steady = true → utc ≤ w₁.utc) ∧
    ∃ wr ∈ w₁.writes, wr.tid = t ∧ wr.handle = h ∧ wr.site = siteOf row ∧ wr.before = snap ∧
      wr.after = carried

omit [DecidableEq ι] in
/-- A time that is not later than now is not later than any time after. -/
theorem Timely.mono {u u' : Nat} {snap : SbatchJobSnapshot} (h : Timely u snap) (hu : u ≤ u') :
    Timely u' snap := fun x hx => (h x hx).trans hu

omit [DecidableEq ι] in
/-- A carried snapshot, also after the outcome is stamped on it, was observed by now. -/
theorem Carried.timely {base : List Read} {carried : SbatchJobSnapshot} {w₁ : World K}
    (hc : Carried t h base carried w₁) (hs : w₁.steady = true) : Timely w₁.utc carried := by
  obtain ⟨snap, new, row, utc, -, -, rfl, hutc, -⟩ := hc.origin
  intro x hx
  rw [SbatchJobSnapshot.observed_lastObservedAt, Option.some.injEq] at hx
  exact hx ▸ hutc hs

/-- The audit allows what a finalizer publishes. -/
def FinalizeAllowed (A : Audit K) (t h : Nat) (base : List Read) : Prop :=
  ∀ carried w₁ w₂ new oc u, Section A t h w₁ w₂ new → Resolved carried new (.ok oc) →
    Carried t h base carried w₁ → (w₂.steady = true → w₁.utc ≤ u ∧ u ≤ w₂.utc) →
    (StillLive oc → A.write ⟨t, h, .rollback carried, w₁.watch h,
      carried.rolledBack oc.status u, w₂.instant, w₂.readsOf t⟩ w₂.writes w₂.reads w₂.calls) ∧
    (¬ Unusable oc → ¬ StillLive oc → A.write ⟨t, h, .stamp carried, w₁.watch h,
      carried.stamped oc u, w₂.instant, w₂.readsOf t⟩ w₂.writes w₂.reads w₂.calls)

/-- **What the second section does.** -/
theorem wp_finalize (hC : Under A C) (hd : Serves A C t d) (hquiet : ∀ u, ¬ A.quiet u)
    {base : List Read} {carried : SbatchJobSnapshot} (hallow : FinalizeAllowed A t h base)
    (hcarried : ∀ w₁ : World K, C.rely t w w₁ → Carried t h base carried w₁) (hidle : Idle t w) :
    C.wp t (do
      lockRefresh h
      let r ← finalizeLocked d h carried
      unlockRefresh h
      return r) (fun r w' => ∃ w₁ : World K, C.rely t w w₁ ∧ Inv A w₁ ∧
        Finalized A t h carried w₁ r w' ∧ Idle t w') w := by
  refine Context.wp_bind (wp_lockRefresh hC hquiet fun w₁ hr hi hinv => ?_)
  have hid₁ : Idle t (w₁.locked t h) := (hC.rely hr).idle hidle
  have hown : (w₁.locked t h).refreshOwner h = some t := Function.update_self ..
  have hcar : Carried t h base carried (w₁.locked t h) := { hcarried w₁ hr with }
  rw [finalizeLocked_eq, bind_assoc]
  refine Context.wp_seq (wp_resolve hC hd carried hid₁) ?_
  rintro res w₂ ⟨new, hres, hheard, hprobed, hid₂⟩
  have hown₂ := hprobed.owned h hown
  -- the branches that save nothing give the lock back at once
  have hnothing : ∀ r, (∀ w' : World K, Heard A t w₁ w' new → Elapse w₁ w' →
      w'.watch h = w₁.watch h → w'.savesOf t = w₁.savesOf t → Finalized A t h carried w₁ r w') →
      C.wp t (do unlockRefresh h; return r) (fun r w' => ∃ w₁ : World K, C.rely t w w₁ ∧
        Inv A w₁ ∧ Finalized A t h carried w₁ r w' ∧ Idle t w') w₂ := by
    intro r hfin
    refine Context.wp_bind (wp_unlockRefresh hC hown₂.1 ?_)
    exact ⟨w₁, hr, hi, hfin _ (hheard.outside rfl) { hprobed.toElapse with }
      hown₂.2.1 hprobed.savesOf, hid₂⟩
  cases res with
  | error e =>
    refine hnothing (.error e) fun w' hh he hw hs => ?_
    exact ⟨new, .error e, hres, hh, he, rfl, hw, hs⟩
  | ok oc =>
    by_cases hun : Unusable oc
    · simp only [if_pos hun]
      refine hnothing (.ok carried) fun w' hh he hw hs => ?_
      exact ⟨new, .ok oc, hres, hh, he, .inl ⟨hun, rfl, hw, hs⟩⟩
    · simp only [if_neg hun]
      by_cases hlive : StillLive oc
      · simp only [if_pos hlive, bind_assoc]
        refine Context.wp_bind (wp_utcNow hC fun _ => ?_)
        refine Context.wp_seq (wp_saveAndPublish hC hown hinv hquiet hheard hprobed hid₂ ?_) ?_
        · intro w₃ hsec hel
          refine ⟨(hallow carried _ w₃ new oc w₂.utc hsec hres hcar fun hs =>
            ⟨(hprobed.steady (hel.steady hs).1).2, (hel.steady hs).2⟩).1 hlive, fun ha hs => ?_⟩
          have hle := hprobed.steady (hel.steady hs).1
          refine ⟨fun x hx => ?_, SbatchJobSnapshot.notOlder_iff.mpr fun x hx => ?_⟩
          · cases hx
            exact (hel.steady hs).2
          · exact ⟨w₂.utc, rfl, (hinv.timely ha hle.1 h x hx).trans hle.2⟩
        · rintro r w₃ ⟨hrec, hheard₃, helapse₃, hown₃, hid₃⟩
          refine Context.wp_bind (wp_unlockRefresh hC hown₃ ?_)
          exact ⟨w₁, hr, hi, ⟨new, .ok oc, hres, hheard₃.outside rfl,
            { helapse₃ with }, .inr (.inl ⟨hlive, _, hrec⟩)⟩, hid₃⟩
      · simp only [if_neg hlive, bind_assoc]
        refine Context.wp_bind (wp_utcNow hC fun _ => ?_)
        refine Context.wp_seq (wp_saveAndPublish hC hown hinv hquiet hheard hprobed hid₂ ?_) ?_
        · intro w₃ hsec hel
          refine ⟨(hallow carried _ w₃ new oc w₂.utc hsec hres hcar fun hs =>
            ⟨(hprobed.steady (hel.steady hs).1).2, (hel.steady hs).2⟩).2 hun hlive, ?_⟩
          intro _ hs
          have hle := hsec.elapse.steady hs
          exact ⟨(hcar.timely hle.1).mono hle.2, trivial⟩
        · rintro r w₃ ⟨hrec, hheard₃, helapse₃, hown₃, hid₃⟩
          refine Context.wp_bind (wp_unlockRefresh hC hown₃ ?_)
          exact ⟨w₁, hr, hi, ⟨new, .ok oc, hres, hheard₃.outside rfl,
            { helapse₃ with }, .inr (.inr ⟨hun, hlive, _, hrec⟩)⟩, hid₃⟩

/-- A call of `refresh_with_sacct` that starts in `w`: after the `refresh` (from `w₁` to `w₂`) it
returns what that returned, or runs the second section from `w₃`. -/
def RefreshedWithSacct (C : Context (machine K)) (A : Audit K) (t h : Nat) (w : World K)
    (r : Except Str SbatchJobSnapshot) (w' : World K) : Prop :=
  ∃ (w₁ : World K) (r₁ : Except Str SbatchJobSnapshot) (w₂ : World K),
    C.rely t w w₁ ∧ Inv A w₁ ∧ Refreshed A t h w₁ r₁ w₂ ∧
    ((r = r₁ ∧ w' = w₂ ∧ ∀ snap, r₁ = .ok snap → snap.lifecycle.finished ≠ none ∨
        (snap.lifecycle.leftActiveListing = false ∧ snap.observedTerminal = false)) ∨
     (∃ (carried : SbatchJobSnapshot) (w₃ : World K), r₁ = .ok carried ∧ C.rely t w₂ w₃ ∧
        Inv A w₃ ∧ Carried t h (w.readsOf t) carried w₃ ∧ Finalized A t h carried w₃ r w'))

omit [DecidableEq ι] in
/-- A `refresh` that returned a snapshot published it. -/
theorem Refreshed.published {w₁ w₂ : World K} {snap : SbatchJobSnapshot}
    (h' : Refreshed A t h w₁ (.ok snap) w₂) : ∃ new row, Observed (w₁.watch h) new (.ok row) ∧
      Heard A t w₁ w₂ new ∧ Elapse w₁ w₂ ∧ snap = (w₁.watch h).observed row w₁.utc ∧
      ∃ wr ∈ w₂.writes, wr.tid = t ∧ wr.handle = h ∧ wr.site = siteOf row ∧
        wr.before = w₁.watch h ∧ wr.after = snap := by
  obtain ⟨new, obs, hobs, hheard, helapse, hrec⟩ := h'
  cases obs with
  | error e => cases hrec.1
  | ok row =>
    obtain ⟨sv, -, -, -, ⟨e, -, hr, -⟩ | ⟨-, hr, -, wr, hwr, h1, h2, h3, h4, h5, -⟩⟩ := hrec
    · cases hr
    · cases hr
      exact ⟨new, row, hobs, hheard, helapse, rfl, wr, hwr, h1, h2, h3, h4, h5⟩

omit [DecidableEq ι] in
/-- A snapshot that a `refresh` returned and that is due for the finalizer is carried there. -/
theorem Refreshed.carried {w₁ w₂ w₃ : World K} {snap : SbatchJobSnapshot}
    (h' : Refreshed A t h w₁ (.ok snap) w₂) (hnone : snap.lifecycle.finished = none)
    (hdue : snap.lifecycle.leftActiveListing = true ∨ snap.observedTerminal = true)
    (ho : Others t w₂ w₃) : Carried t h (w₁.readsOf t) snap w₃ := by
  obtain ⟨new, row, hobs, hheard, helapse, hsnap, wr, hwr, hrest⟩ := h'.published
  have hd := ho.dispatched
  exact ⟨hnone, hdue, _, new, row, _, hobs, hd.readsOf.trans hheard.readsOf, hsnap,
    fun hs => (helapse.trans hd.toElapse).steady hs |>.2, wr, hd.writes.subset hwr, hrest⟩

omit [DecidableEq ι] in
/-- The snapshot that a `refresh` returned is the published one. -/
theorem Refreshed.watch {w₁ w₂ : World K} {r : Except Str SbatchJobSnapshot}
    {snap : SbatchJobSnapshot} (h' : Refreshed A t h w₁ r w₂) (hr : r = .ok snap) :
    w₂.watch h = snap := by
  obtain ⟨new, obs, -, -, -, hrec⟩ := h'
  subst hr
  cases obs with
  | error e => cases hrec.1
  | ok row =>
    obtain ⟨sv, -, -, -, ⟨e, -, hr, -⟩ | ⟨-, hr, hwatch, -⟩⟩ := hrec
    · cases hr
    · cases hr
      exact hwatch

/-- **What `refresh_with_sacct` does.** -/
theorem wp_refreshWithSacct (hC : Under A C) (hd : Serves A C t d) (hquiet : ∀ u, ¬ A.quiet u)
    (hallow : RefreshAllowed A t h) (hallow' : FinalizeAllowed A t h (w.readsOf t))
    (hidle : Idle t w) :
    C.wp t (refreshWithSacct d h)
      (fun r w' => RefreshedWithSacct C A t h w r w' ∧ Idle t w') w := by
  unfold refreshWithSacct
  refine Context.wp_seq (wp_refresh hC hd hquiet hallow hidle) ?_
  rintro r₁ w₂ ⟨w₁, hr₁, hi₁, href, hid₂⟩
  cases r₁ with
  | error e =>
    exact ⟨⟨w₁, _, w₂, hr₁, hi₁, href, .inl ⟨rfl, rfl, fun snap hs => by cases hs⟩⟩, hid₂⟩
  | ok snap =>
    dsimp only
    split
    · rename_i hfin
      refine ⟨⟨w₁, _, w₂, hr₁, hi₁, href, .inl ⟨rfl, rfl, fun s hs => .inl ?_⟩⟩, hid₂⟩
      cases hs
      exact Option.isSome_iff_ne_none.mp hfin
    · rename_i hfin
      split
      · rename_i hdue
        refine ⟨⟨w₁, _, w₂, hr₁, hi₁, href, .inl ⟨rfl, rfl, fun s hs => .inr ?_⟩⟩, hid₂⟩
        cases hs
        simpa using hdue
      · rename_i hdue
        have hnone : snap.lifecycle.finished = none := by simpa using hfin
        have hdue' : snap.lifecycle.leftActiveListing = true ∨ snap.observedTerminal = true := by
          simp only [Bool.and_eq_true, Bool.not_eq_true', not_and_or, Bool.not_eq_false] at hdue
          exact hdue
        have hbase : w₁.readsOf t = w.readsOf t := (hC.rely hr₁).dispatched.readsOf
        have hcar : ∀ w₃ : World K, C.rely t w₂ w₃ → Carried t h (w.readsOf t) snap w₃ :=
          fun w₃ hr₃ => hbase ▸ href.carried hnone hdue' (hC.rely hr₃)
        refine Context.wp_mono (wp_finalize hC hd hquiet hallow' hcar hid₂) ?_
        rintro r w' ⟨w₃, hr₃, hi₃, hfin', hid'⟩
        exact
          ⟨⟨w₁, _, w₂, hr₁, hi₁, href, .inr ⟨snap, w₃, rfl, hr₃, hi₃, hcar w₃ hr₃, hfin'⟩⟩, hid'⟩

/-- What a round of `wait_terminal` must leave behind, after `k` failures in a row: `Q` where the
wait ends with it, and `P` at the next round. -/
def AfterRound (C : Context (machine K)) (A : Audit K) (t p k : Nat) (P : Nat → World K → Prop)
    (Q : Option (Except Str SbatchJobSnapshot) → World K → Prop)
    (r : Except Str SbatchJobSnapshot) (w : World K) : Prop :=
  match r with
  | .ok snap =>
    (snap.observedTerminal = true ∨ snap.lifecycle.leftActiveListing = true → Q (some r) w) ∧
      ∀ w' : World K, C.rely t w w' → Inv A w' → w.instant + p ≤ w'.instant → P 0 w'
  | .error _ =>
    (maxConsecutiveRefreshFailures ≤ k + 1 → Q (some r) w) ∧
      ∀ w' : World K, C.rely t w w' → Inv A w' → w.instant + p ≤ w'.instant → P (k + 1) w'

/-- A sleep lasts at least as long as it was asked for. -/
theorem wp_sleep (hC : Under A C) (hquiet : ∀ u, ¬ A.quiet u) {p : Nat}
    {Q : Unit → World K → Prop} (hQ : ∀ w₁ : World K, C.rely t w w₁ → Inv A w₁ →
      w.instant + p ≤ w₁.instant → Q () w₁) : C.wp t (sleep p) Q w := by
  refine Context.wp_bind (wp_now hC fun _ => ?_)
  refine wp_perform_await hC (fun _ _ _ hq => absurd hq (hquiet t)) fun w₁ i r w' hr hi he hi' => ?_
  simp only [exec] at he
  split at he
  · rename_i hwake
    cases he
    exact hQ w₁ hr hi hwake
  · cases he

/-- **The rule of the polling loop**, by induction on its rounds. -/
theorem wp_waitTerminalFrom (hC : Under A C) (hquiet : ∀ u, ¬ A.quiet u) {p : Nat}
    {P : Nat → World K → Prop} {Q : Option (Except Str SbatchJobSnapshot) → World K → Prop}
    (hround : ∀ k w, P k w → C.wp t (refresh d h) (AfterRound C A t p k P Q) w)
    (hfuel : ∀ w, Q none w) (fuel : Nat) {k : Nat} (hP : P k w) :
    C.wp t (waitTerminalFrom d h p fuel k) Q w := by
  induction fuel generalizing k w with
  | zero => exact hfuel w
  | succ fuel ih =>
    unfold waitTerminalFrom
    refine Context.wp_seq (hround k w hP) ?_
    intro r w' hafter
    cases r with
    | ok snap =>
      obtain ⟨hQ, hnext⟩ := hafter
      dsimp only
      split
      · rename_i hterm
        exact hQ (.inl hterm)
      · split
        · rename_i hleft
          exact hQ (.inr hleft)
        · exact Context.wp_bind (wp_sleep hC hquiet fun w₁ hr hi hwake => ih (hnext w₁ hr hi hwake))
    | error e =>
      obtain ⟨hQ, hnext⟩ := hafter
      dsimp only
      split
      · rename_i hmax
        exact hQ hmax
      · exact Context.wp_bind (wp_sleep hC hquiet fun w₁ hr hi hwake => ih (hnext w₁ hr hi hwake))

/-! ## 4. Runs of client calls

The rules of the calls, put together for any number of clients: the invariant holds in every
configuration of every run. -/

/-- The tasks of the clients: each is one call of `refresh` or `refresh_with_sacct`, on any handle.
(A clone that calls several times in a row is several tasks that happen not to overlap.) -/
def Clients (d : Dispatcher K)
    (tasks : Nat → Option (Prog (sig K) (Except Str SbatchJobSnapshot))) : Prop :=
  ∀ t p, tasks t = some p → ∃ h, p = refresh d h ∨ p = refreshWithSacct d h

/-- **Interleaved runs.**  What the audit asks for holds at the end of every run of tasks that are
proved and suspended at its start. -/
theorem tasks_inv {α : Type} {tasks : Nat → Option (Prog (sig K) α)}
    {c' : Config (machine K) α} {ms : List (Move (machine K))} (hi : Inv A w)
    (hsuspended : ∀ t p, tasks t = some p → (machine K).Suspended p)
    (hproved : ∀ t p, tasks t = some p → (audit A).wp t p (fun _ _ => True) w)
    (hrun : Config.run ms ⟨w, tasks⟩ = some c') : Inv A c'.world := by
  have hsafe : Config.Safe (audit A) (fun _ _ _ => True) (⟨w, tasks⟩ : Config (machine K) α) :=
    ⟨hi, hsuspended, hproved⟩
  exact (Config.run_sound (fun _ _ _ _ _ _ => trivial) hsafe hrun).inv

/-- Interleaved runs of client calls. -/
theorem Clients.inv {tasks : Nat → Option (Prog (sig K) (Except Str SbatchJobSnapshot))}
    {c' : Config (machine K) (Except Str SbatchJobSnapshot)} {ms : List (Move (machine K))}
    (hc : Clients d tasks) (hd : ∀ t, Serves A (audit A).toContext t d)
    (hquiet : ∀ u, ¬ A.quiet u) (hallow : ∀ t h, RefreshAllowed A t h)
    (hallow' : ∀ t h, FinalizeAllowed A t h []) (hi : Inv A w) (hidle : ∀ t, Idle t w)
    (hnew : ∀ t, w.readsOf t = []) (hrun : Config.run ms ⟨w, tasks⟩ = some c') :
    Inv A c'.world := by
  refine tasks_inv hi (fun t p ht => ?_) (fun t p ht => ?_) hrun
  · obtain ⟨h, rfl | rfl⟩ := hc t p ht <;> rfl
  · obtain ⟨h, rfl | rfl⟩ := hc t p ht
    · exact Context.wp_mono (wp_refresh audit_under (hd t) hquiet (hallow t h) (hidle t))
        fun _ _ _ => trivial
    · exact Context.wp_mono (wp_refreshWithSacct audit_under (hd t) hquiet (hallow t h)
        ((hnew t).symm ▸ hallow' t h) (hidle t)) fun _ _ _ => trivial

end Sbatch

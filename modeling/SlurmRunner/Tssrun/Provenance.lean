/-
# The record of every job is its own

The handles of a manager share a store, and a `refresh` publishes whatever the store has.  Still no
job is ever told anything of another one: what a snapshot says was in the store before the program
began, or it is what the spawn of that job has put into it, a banner that the child of that job has
written, or the exit of that child (`jobs_keep_apart`).

Three facts carry this.  A uuid is drawn by one task and entered once, the tasks of a handle only
ever save what they have borrowed from it, and an attached handle saves nothing.
-/
import SlurmRunner.Tssrun.Manager

namespace Tssrun

open Text Interact
open StateStore (AttachKey)

/-! ## 1. Where a snapshot is from

A snapshot is about the job of a handle, or it was there before the run.  Its identity is all that
stays as the spawn has set it. -/

/-- What a snapshot says from the spawn on. -/
def TssrunJobSnapshot.identity (s : TssrunJobSnapshot) : TssrunJobSnapshot :=
  { s with jobid := none, node := none, finished := none }

/-- The uuid is part of the identity. -/
theorem TssrunJobSnapshot.uuid_eq_of_identity {s s' : TssrunJobSnapshot}
    (h : s.identity = s'.identity) : s.uuid = s'.uuid := by
  change s.identity.uuid = s'.identity.uuid
  rw [h]

/-- The task that waits for the child of handle `h`. -/
def waiter (h : Nat) : Nat := 4 * h + 3

section Records

variable (bytes : Nat → LogStream → List UInt8) (past : List TssrunJobSnapshot)

/-- The child of handle `h` has this line on one of its streams, where its tee task reads it. -/
def Wrote (h : Nat) (line : Str) : Prop :=
  ∃ kind, line ∈ linesRead (nextLines (bytes h kind))

/-- The snapshot is about the job that handle `h` was spawned for, and it says nothing but what was
found out about this job. -/
structure OfJob (w : ManagerWorld) (h : Nat) (s : TssrunJobSnapshot) : Prop where
  identity : s.identity = (w.initial h).identity
  jobid : ∀ j ∈ s.jobid, ∃ line, Wrote bytes h line ∧ parseSallocJobid line = some j
  node : ∀ n ∈ s.node, ∃ line, Wrote bytes h line ∧ parseSallocNode line = some n
  finished : ∀ f ∈ s.finished, (w.job h).child = some (.ok f.exitCode)

/-- The snapshot is from before the program began, or about a job that it has spawned. -/
def OnRecord (w : ManagerWorld) (s : TssrunJobSnapshot) : Prop :=
  s ∈ past ∨ ∃ h < w.handles, w.owned h = true ∧ OfJob bytes w h s

/-- Handle `h` was spawned. -/
def Owned (h : Nat) (w : ManagerWorld) : Prop := h < w.handles ∧ w.owned h = true

/-- Task `t` has drawn this uuid and has not used it yet. -/
def Mine (t u : Nat) (w : ManagerWorld) : Prop :=
  w.drawer u = some t ∧ ∀ h, Owned h w → (w.initial h).uuid ≠ u

/-- Nothing that is known of a handle is forgotten. -/
structure Grown (w w' : ManagerWorld) : Prop where
  handles : w.handles ≤ w'.handles
  initial : ∀ h < w.handles, w'.initial h = w.initial h
  owned : ∀ h < w.handles, w'.owned h = w.owned h
  child : ∀ h < w.handles, ∀ r, (w.job h).child = some r → (w'.job h).child = some r

/-- What the world does while task `t` is suspended. -/
structure GrownFor (t : Nat) (w w' : ManagerWorld) : Prop extends Grown w w' where
  /-- Nobody else waits for the child. -/
  unwaited : ∀ h, t = waiter h → (w.job h).child = none → (w'.job h).child = none
  mine : ∀ u, Mine t u w → Mine t u w'

theorem Grown.refl (w : ManagerWorld) : Grown w w :=
  ⟨Nat.le_refl _, fun _ _ => rfl, fun _ _ => rfl, fun _ _ _ h => h⟩

theorem Grown.trans {w w' w'' : ManagerWorld} (h : Grown w w') (h' : Grown w' w'') :
    Grown w w'' where
  handles := h.handles.trans h'.handles
  initial n hn := (h'.initial n (hn.trans_le h.handles)).trans (h.initial n hn)
  owned n hn := (h'.owned n (hn.trans_le h.handles)).trans (h.owned n hn)
  child n hn r hr := h'.child n (hn.trans_le h.handles) r (h.child n hn r hr)

theorem GrownFor.refl (t : Nat) (w : ManagerWorld) : GrownFor t w w :=
  ⟨.refl w, fun _ _ h => h, fun _ h => h⟩

theorem GrownFor.trans {t : Nat} {w w' w'' : ManagerWorld} (h : GrownFor t w w')
    (h' : GrownFor t w' w'') : GrownFor t w w'' where
  toGrown := h.toGrown.trans h'.toGrown
  unwaited n hn hr := h'.unwaited n hn (h.unwaited n hn hr)
  mine u hu := h'.mine u (h.mine u hu)

variable {bytes past}

/-- A handle stays the owner of its job. -/
theorem Owned.grown {h : Nat} {w w' : ManagerWorld} (ho : Owned h w) (hg : Grown w w') :
    Owned h w' :=
  ⟨ho.1.trans_le hg.handles, (hg.owned h ho.1).trans ho.2⟩

/-- What belongs to a job goes on to do so, as the job only gets more fields. -/
theorem OfJob.grown {w w' : ManagerWorld} {h : Nat} {s : TssrunJobSnapshot}
    (hs : OfJob bytes w h s) (hh : h < w.handles) (hg : Grown w w') : OfJob bytes w' h s where
  identity := by rw [hs.identity, hg.initial h hh]
  jobid := hs.jobid
  node := hs.node
  finished f hf := hg.child h hh _ (hs.finished f hf)

/-- What is on record stays on record. -/
theorem OnRecord.grown {w w' : ManagerWorld} {s : TssrunJobSnapshot}
    (hs : OnRecord bytes past w s) (hg : Grown w w') : OnRecord bytes past w' s := by
  rcases hs with hs | ⟨h, hh, ho, hs⟩
  · exact .inl hs
  · exact .inr ⟨h, hh.trans_le hg.handles, (hg.owned h hh).trans ho, hs.grown hh hg⟩

/-! ## 2. What holds in every world

The invariant: every watch value and every snapshot in the store is on record, and no two spawned
handles have the same uuid. -/

variable (bytes past)

/-- The records of a world whose program draws its uuids from `uuids`. -/
structure Kept (uuids : Supply Nat) (w : ManagerWorld) : Prop where
  source : w.uuids = uuids
  drawn : ∀ u t, w.drawer u = some t → uuids.Ahead 0 u ∧ ¬ uuids.Ahead w.drawn u
  /-- The uuid of a spawned job was drawn for it. -/
  entered : ∀ h, Owned h w → ∃ t, w.drawer (w.initial h).uuid = some t
  unique : ∀ h h', Owned h w → Owned h' w → (w.initial h).uuid = (w.initial h').uuid → h = h'
  running : ∀ h, w.running h = true → Owned h w
  watch : ∀ h, Owned h w → OfJob bytes w h (w.job h).base.watch
  attached : ∀ h < w.handles, w.owned h = false →
    (w.job h).base.watch.uuid = (w.initial h).uuid ∧
      ((w.job h).base.watch = w.initial h ∨ OnRecord bytes past w (w.job h).base.watch)
  store : ∀ s ∈ w.store, OnRecord bytes past w s
  ended : ∀ h < w.handles, ∀ r, (w.job h).waitEnded = some r → (w.job h).child = some r

/-- What task `t` must know before it makes an operation on handle `h`. -/
def HandlePermit (t h : Nat) : DrainOp → ManagerWorld → Prop
  | .base (.setJobid j), w =>
    Owned h w ∧ ∃ line, Wrote bytes h line ∧ parseSallocJobid line = some j
  | .base (.setNode n), w => Owned h w ∧ ∃ line, Wrote bytes h line ∧ parseSallocNode line = some n
  | .base (.setFinished info), w => Owned h w ∧ (w.job h).child = some (.ok info.exitCode)
  | .base (.save s), w => OnRecord bytes past w s
  | .base (.sendReplace s), w => OnRecord bytes past w s ∧ s.uuid = (w.initial h).uuid
  | .base .childWait, w => t = waiter h ∧ (w.job h).child = none
  | .endWait r, w => (w.job h).child = some r
  | _, _ => True

/-- What task `t` must know before it makes an operation. -/
def ManagerPermit (t : Nat) : ManagerOp → ManagerWorld → Prop
  | .on h o, w => HandlePermit bytes past t h o w
  | .newJob init, w => Mine t init.uuid w ∧ init.identity = init
  | .start h, w => Owned h w
  | _, _ => True

end Records

/-! ## 3. Operations on a handle

They change the watch value of one handle or what is known of its child, or save a snapshot; no
other handle is touched. -/

section Handles

variable {bytes : Nat → LogStream → List UInt8} {past : List TssrunJobSnapshot}
  {uuids : Supply Nat} {t h : Nat}
  {w w' : ManagerWorld}

def watchOn (o : DrainOp) (watch : TssrunJobSnapshot) : TssrunJobSnapshot :=
  match o with
  | .base o => watchAfter o watch
  | _ => watch

def childOn (o : DrainOp) (i : Input) (child : Option (Except Str (Option Int))) :
    Option (Except Str (Option Int)) :=
  match o with
  | .base o => childAfter o i child
  | _ => child

def endedOn (o : DrainOp) (ended : Option (Except Str (Option Int))) :
    Option (Except Str (Option Int)) :=
  match o with
  | .endWait r => some r
  | _ => ended

/-- What an operation does to the three parts of a handle that are on record. -/
theorem drain_fields {o : DrainOp} {i : Input} {d d' : DrainWorld} {a : o.Ans}
    (he : drainExec t o i d = some (a, d')) : d'.base.watch = watchOn o d.base.watch ∧
      d'.child = childOn o i d.child ∧ d'.waitEnded = endedOn o d.waitEnded := by
  cases o with
  | base o =>
    refine ⟨watch_drainExec he, ?_⟩
    obtain ⟨r, -, hr⟩ := Option.map_eq_some_iff.mp he
    cases hr
    exact ⟨rfl, rfl⟩
  | takeWait =>
    simp only [drainExec] at he
    split at he
    all_goals
      cases he
      exact ⟨rfl, rfl, rfl⟩
  | joinTee kind =>
    simp only [drainExec] at he
    split at he
    · cases he
      exact ⟨rfl, rfl, rfl⟩
    · cases he
  | joinWait =>
    obtain ⟨r, -, hr⟩ := Option.map_eq_some_iff.mp he
    cases hr
    exact ⟨rfl, rfl, rfl⟩
  | takeTee _ | endTee _ | endWait _ =>
    cases he
    exact ⟨rfl, rfl, rfl⟩

/-- An operation on a handle is one of its drain, and may save. -/
theorem on_cases {o : DrainOp} {i : ManagerInput} {a : o.Ans}
    (he : managerExec t (.on h o) i w = some (a, w')) : ∃ j d, i = .base j ∧ h < w.handles ∧
      drainExec t o j (w.view h) = some (a, d) ∧
      w' = { w with
        job := Function.update w.job h d
        store := ManagerWorld.storeAfter o j w.store } := by
  cases i with
  | base j =>
    simp only [managerExec] at he
    split at he
    · rename_i hh
      obtain ⟨⟨a', d⟩, hd, hr⟩ := Option.map_eq_some_iff.mp he
      cases hr
      exact ⟨j, d, rfl, hh, hd, rfl⟩
    · cases he
  | _ => cases he

/-- What is in the store afterwards was there or is what is saved. -/
theorem mem_storeAfter {o : DrainOp} {i : Input} {store : List TssrunJobSnapshot}
    {s : TssrunJobSnapshot} (hs : s ∈ ManagerWorld.storeAfter o i store) :
    s ∈ store ∨ o = .base (.save s) := by
  unfold ManagerWorld.storeAfter at hs
  split at hs
  · rcases List.mem_cons.mp hs with rfl | hs
    · exact .inr rfl
    · exact .inl (List.mem_filter.mp hs).1
  · exact .inl hs

/-- Only the task that waits for the child, before it has waited, says how the child has ended. -/
theorem childOn_eq {o : DrainOp} {i : Input} (hp : HandlePermit bytes past t h o w) :
    childOn o i (w.job h).child = (w.job h).child ∨ (t = waiter h ∧ (w.job h).child = none) := by
  cases o with
  | base o =>
    cases o with
    | childWait => exact .inr hp
    | _ => exact .inl rfl
  | _ => exact .inl rfl

/-- **What an operation on a handle changes for the others.** -/
theorem grownFor_on {o : DrainOp} {i : ManagerInput} {a : o.Ans} {u : Nat}
    (hp : HandlePermit bytes past t h o w) (he : managerExec t (.on h o) i w = some (a, w')) :
    Grown w w' ∧ (u ≠ t → GrownFor u w w') := by
  obtain ⟨j, d, -, hh, hd, rfl⟩ := on_cases he
  obtain ⟨-, hchild, -⟩ := drain_fields hd
  replace hchild : d.child = childOn o j (w.job h).child := hchild
  have hgrown : Grown w { w with
      job := Function.update w.job h d
      store := ManagerWorld.storeAfter o j w.store } := by
    refine ⟨Nat.le_refl _, fun _ _ => rfl, fun _ _ => rfl, fun n _ r hr => ?_⟩
    by_cases hn : n = h
    · subst hn
      dsimp only
      rw [Function.update_self, hchild]
      rcases childOn_eq (i := j) hp with hsame | ⟨-, hnone⟩
      · rw [hsame, hr]
      · rw [hnone] at hr
        cases hr
    · dsimp only
      rwa [Function.update_of_ne hn]
  refine ⟨hgrown, fun hu => ⟨hgrown, fun n hn hnone => ?_, fun v hv => hv⟩⟩
  by_cases hnh : n = h
  · subst hnh
    dsimp only
    rw [Function.update_self, hchild]
    rcases childOn_eq (i := j) hp with hsame | ⟨ht, -⟩
    · rw [hsame, hnone]
    · exact absurd (hn.trans ht.symm) hu
  · dsimp only
    rwa [Function.update_of_ne hnh]

/-- A handle keeps its uuid. -/
theorem Kept.uuid_watch (hk : Kept bytes past uuids w) (hh : h < w.handles) :
    (w.job h).base.watch.uuid = (w.initial h).uuid := by
  cases hown : w.owned h with
  | true => exact TssrunJobSnapshot.uuid_eq_of_identity (hk.watch h ⟨hh, hown⟩).identity
  | false => exact (hk.attached h hh hown).1

/-- What is on record under the uuid of a spawned job is about this job: no older snapshot has the
uuid, and no other job. -/
theorem Kept.ofJob (hk : Kept bytes past uuids w) (hpast : ∀ s ∈ past, ¬ uuids.Ahead 0 s.uuid)
    {s : TssrunJobSnapshot} (hs : OnRecord bytes past w s) (hown : Owned h w)
    (huuid : s.uuid = (w.initial h).uuid) : OfJob bytes w h s := by
  rcases hs with hmem | ⟨h', hh', hown', hs⟩
  · obtain ⟨v, hv⟩ := hk.entered h hown
    exact absurd (huuid ▸ (hk.drawn _ _ hv).1) (hpast s hmem)
  · have huuid' := TssrunJobSnapshot.uuid_eq_of_identity hs.identity
    have hsame := hk.unique h' h ⟨hh', hown'⟩ hown (huuid'.symm.trans huuid)
    exact hsame ▸ hs

/-- The watch value of a spawned job stays about it. -/
theorem OfJob.watchOn {o : DrainOp} {s : TssrunJobSnapshot} (hk : Kept bytes past uuids w)
    (hpast : ∀ s ∈ past, ¬ uuids.Ahead 0 s.uuid) (hown : Owned h w) (hs : OfJob bytes w h s)
    (hp : HandlePermit bytes past t h o w) : OfJob bytes w h (watchOn o s) := by
  cases o with
  | base o =>
    cases o with
    | setJobid j =>
      refine { hs with jobid := fun v hv => ?_ }
      rcases Option.or_eq_some_iff.mp hv with hv | ⟨-, hv⟩
      · exact hs.jobid v hv
      · cases hv
        exact hp.2
    | setNode n =>
      refine { hs with node := fun v hv => ?_ }
      rcases Option.or_eq_some_iff.mp hv with hv | ⟨-, hv⟩
      · exact hs.node v hv
      · cases hv
        exact hp.2
    | setFinished info =>
      refine { hs with finished := fun f hf => ?_ }
      cases hf
      exact hp.2
    | sendReplace snap =>
      exact hk.ofJob hpast hp.1 hown hp.2
    | _ => exact hs
  | _ => exact hs

/-- An operation on an attached handle leaves its watch value, or publishes what the store has. -/
theorem watchOn_attached {o : DrainOp} {s : TssrunJobSnapshot} (hown : w.owned h = false)
    (hp : HandlePermit bytes past t h o w) : watchOn o s = s ∨
      (OnRecord bytes past w (watchOn o s) ∧ (watchOn o s).uuid = (w.initial h).uuid) := by
  have hnot : ¬ Owned h w := fun ho => by
    rw [ho.2] at hown
    cases hown
  cases o with
  | base o =>
    cases o with
    | setJobid _ | setNode _ | setFinished _ => exact absurd hp.1 hnot
    | sendReplace snap => exact .inr hp
    | _ => exact .inl rfl
  | _ => exact .inl rfl

/-- **An operation on a handle keeps the records.** -/
theorem kept_on {o : DrainOp} {i : ManagerInput} {a : o.Ans}
    (hpast : ∀ s ∈ past, ¬ uuids.Ahead 0 s.uuid)
    (hk : Kept bytes past uuids w) (hp : HandlePermit bytes past t h o w)
    (he : managerExec t (.on h o) i w = some (a, w')) : Kept bytes past uuids w' := by
  have hgrown := (grownFor_on (u := t) hp he).1
  obtain ⟨j, d, -, hh, hd, rfl⟩ := on_cases he
  obtain ⟨hwatch, hchild, hended⟩ := drain_fields hd
  replace hwatch : d.base.watch = watchOn o (w.job h).base.watch := hwatch
  replace hchild : d.child = childOn o j (w.job h).child := hchild
  replace hended : d.waitEnded = endedOn o (w.job h).waitEnded := hended
  -- what is new of handle `h`
  have hnew : Function.update w.job h d h = d := Function.update_self ..
  have hold : ∀ n, n ≠ h → Function.update w.job h d n = w.job n := fun n hn =>
    Function.update_of_ne hn ..
  refine { hk with watch := fun n hn => ?_, attached := fun n hn hown => ?_,
                   store := fun s hs => ?_, ended := fun n hn r hr => ?_ }
  · replace hn : Owned n w := hn
    have hs : OfJob bytes w n (Function.update w.job h d n).base.watch := by
      by_cases hnh : n = h
      · subst hnh
        rw [hnew, hwatch]
        exact (hk.watch n hn).watchOn hk hpast hn hp
      · rw [hold n hnh]
        exact hk.watch n hn
    exact hs.grown hn.1 hgrown
  · replace hown : w.owned n = false := hown
    obtain ⟨huuid, hfrom⟩ := hk.attached n hn hown
    have hs : (Function.update w.job h d n).base.watch.uuid = (w.initial n).uuid ∧
        ((Function.update w.job h d n).base.watch = w.initial n ∨
          OnRecord bytes past w (Function.update w.job h d n).base.watch) := by
      by_cases hnh : n = h
      · subst hnh
        rw [hnew, hwatch]
        rcases watchOn_attached (s := (w.job n).base.watch) hown hp with hsame | ⟨hrec, hu⟩
        · rw [hsame]
          exact ⟨huuid, hfrom⟩
        · exact ⟨hu, .inr hrec⟩
      · rw [hold n hnh]
        exact ⟨huuid, hfrom⟩
    exact ⟨hs.1, hs.2.imp_right fun hrec => hrec.grown hgrown⟩
  · have hrec : OnRecord bytes past w s := by
      rcases mem_storeAfter hs with hs | rfl
      · exact hk.store s hs
      · exact hp
    exact hrec.grown hgrown
  · replace hn : n < w.handles := hn
    have hchild' : (w.job n).child = some r := by
      by_cases hnh : n = h
      · subst hnh
        dsimp only at hr
        rw [hnew, hended] at hr
        cases o with
        | endWait r' =>
          cases hr
          exact hp
        | _ => exact hk.ended n hn r hr
      · dsimp only at hr
        rw [hold n hnh] at hr
        exact hk.ended n hn r hr
    exact hgrown.child n hn r hchild'

end Handles

/-! ## 4. Operations of the manager

A new handle is entered with the next number, and no other operation changes which handles there
are. -/

section Manager

variable {bytes : Nat → LogStream → List UInt8} {past : List TssrunJobSnapshot}
  {uuids : Supply Nat} {t : Nat}
  {w w' : ManagerWorld}

/-- One handle is new, and no other changes hands. -/
theorem owned_entered {snap : TssrunJobSnapshot} {b : Bool} {h : Nat}
    (ho : Owned h (w.entered t snap b)) : Owned h w ∨ (h = w.handles ∧ b = true) := by
  obtain ⟨hh, hown⟩ := ho
  by_cases hn : h = w.handles
  · subst hn
    exact .inr ⟨rfl, by simpa [ManagerWorld.entered] using hown⟩
  · refine .inl ⟨Nat.lt_of_le_of_ne (Nat.le_of_lt_succ hh) hn, ?_⟩
    simpa [ManagerWorld.entered, hn] using hown

/-- The handles that there were stay as they are. -/
theorem grown_entered (snap : TssrunJobSnapshot) (b : Bool) : Grown w (w.entered t snap b) where
  handles := Nat.le_succ _
  initial h hh := Function.update_of_ne (Nat.ne_of_lt hh) _ _
  owned h hh := Function.update_of_ne (Nat.ne_of_lt hh) _ _
  child h hh r hr := by
    have hjob : (w.entered t snap b).job h = w.job h :=
      Function.update_of_ne (Nat.ne_of_lt hh) _ _
    rwa [hjob]

/-- A new handle is nobody else's. -/
theorem grownFor_entered {snap : TssrunJobSnapshot} {b : Bool} {u : Nat} (hu : u ≠ t)
    (hmine : b = true → Mine t snap.uuid w) : GrownFor u w (w.entered t snap b) where
  toGrown := grown_entered snap b
  unwaited h _ hnone := by
    by_cases hn : h = w.handles
    · subst hn
      cases b <;> simp [ManagerWorld.entered, DrainWorld.spawned]
    · simpa [ManagerWorld.entered, hn] using hnone
  mine v hv := by
    refine ⟨hv.1, fun h ho => ?_⟩
    rcases owned_entered ho with ho' | ⟨rfl, rfl⟩
    · rw [(grown_entered snap b).initial h ho'.1]
      exact hv.2 h ho'
    · have hinit : (w.entered t snap true).initial w.handles = snap := Function.update_self ..
      rw [hinit]
      rintro rfl
      exact hu (Option.some.inj (hv.1.symm.trans (hmine rfl).1))

theorem kept_entered {snap : TssrunJobSnapshot} {b : Bool} (hk : Kept bytes past uuids w)
    (hmine : b = true → Mine t snap.uuid w ∧ snap.identity = snap) :
    Kept bytes past uuids (w.entered t snap b) := by
  have hgrown : Grown w (w.entered t snap b) := grown_entered snap b
  have hinit : (w.entered t snap b).initial w.handles = snap := Function.update_self ..
  have hwatch : ((w.entered t snap b).job w.handles).base.watch = snap := by
    cases b <;> simp [ManagerWorld.entered, DrainWorld.spawned, World.spawned]
  have hjob : ∀ h < w.handles, (w.entered t snap b).job h = w.job h := fun h hh =>
    Function.update_of_ne (Nat.ne_of_lt hh) _ _
  -- each field holds of the handles of before; what is left is the new one
  refine ⟨hk.source, hk.drawn, fun h ho => ?_, fun h h' ho ho' huuid => ?_, fun h hr => ?_,
    fun h ho => ?_, fun h hh hown => ?_, fun s hs => (hk.store s hs).grown hgrown,
    fun h hh r hr => ?_⟩
  · rcases owned_entered ho with ho' | ⟨rfl, rfl⟩
    · rw [hgrown.initial h ho'.1]
      exact hk.entered h ho'
    · rw [hinit]
      exact ⟨t, (hmine rfl).1.1⟩
  · rcases owned_entered ho with ho₁ | ⟨rfl, rfl⟩
    · rcases owned_entered ho' with ho₂ | ⟨rfl, rfl⟩
      · rw [hgrown.initial h ho₁.1, hgrown.initial h' ho₂.1] at huuid
        exact hk.unique h h' ho₁ ho₂ huuid
      · rw [hgrown.initial h ho₁.1, hinit] at huuid
        exact absurd huuid ((hmine rfl).1.2 h ho₁)
    · rcases owned_entered ho' with ho₂ | ⟨rfl, -⟩
      · rw [hgrown.initial h' ho₂.1, hinit] at huuid
        exact absurd huuid.symm ((hmine rfl).1.2 h' ho₂)
      · rfl
  · exact (hk.running h hr).grown hgrown
  · rcases owned_entered ho with ho' | ⟨rfl, rfl⟩
    · rw [hjob h ho'.1]
      exact (hk.watch h ho').grown ho'.1 hgrown
    · rw [hwatch]
      obtain ⟨-, hblank⟩ := hmine rfl
      refine ⟨by rw [hinit], fun j hj => ?_, fun n hn => ?_, fun f hf => ?_⟩
      · rw [← hblank] at hj
        cases hj
      · rw [← hblank] at hn
        cases hn
      · rw [← hblank] at hf
        cases hf
  · by_cases hn : h = w.handles
    · subst hn
      rw [hwatch, hinit]
      exact ⟨rfl, .inl rfl⟩
    · have hlt : h < w.handles := Nat.lt_of_le_of_ne (Nat.le_of_lt_succ hh) hn
      rw [hgrown.owned h hlt] at hown
      rw [hjob h hlt, hgrown.initial h hlt]
      obtain ⟨huuid, hfrom⟩ := hk.attached h hlt hown
      exact ⟨huuid, hfrom.imp_right fun hrec => hrec.grown hgrown⟩
  · by_cases hn : h = w.handles
    · subst hn
      cases b <;> simp [ManagerWorld.entered, DrainWorld.spawned] at hr
    · have hlt : h < w.handles := Nat.lt_of_le_of_ne (Nat.le_of_lt_succ hh) hn
      rw [hjob h hlt] at hr ⊢
      exact hk.ended h hlt r hr

/-- Nothing has changed of the handles and of the store. -/
structure SameJobs (w w' : ManagerWorld) : Prop where
  handles : w'.handles = w.handles
  job : w'.job = w.job
  store : w'.store = w.store
  initial : w'.initial = w.initial
  owned : w'.owned = w.owned

/-- Where nothing of the jobs changes, nothing is lost. -/
theorem SameJobs.grown (h : SameJobs w w') : Grown w w' where
  handles := Nat.le_of_eq h.handles.symm
  initial _ _ := by rw [h.initial]
  owned _ _ := by rw [h.owned]
  child _ _ _ hr := by rwa [h.job]

theorem SameJobs.owned_iff (h : SameJobs w w') {n : Nat} : Owned n w' ↔ Owned n w := by
  rw [Owned, Owned, h.handles, h.owned]

/-- The uuids and the tasks may have moved on. -/
theorem Kept.sameJobs (hk : Kept bytes past uuids w) (h : SameJobs w w')
    (hsource : w'.uuids = uuids)
    (hdrawn : ∀ u v, w'.drawer u = some v → uuids.Ahead 0 u ∧ ¬ uuids.Ahead w'.drawn u)
    (hentered : ∀ n, Owned n w → ∃ v, w'.drawer (w.initial n).uuid = some v)
    (hrunning : ∀ n, w'.running n = true → Owned n w) : Kept bytes past uuids w' where
  source := hsource
  drawn := hdrawn
  entered n hn := by
    rw [h.initial]
    exact hentered n (h.owned_iff.mp hn)
  unique n m hn hm huuid := by
    rw [h.initial] at huuid
    exact hk.unique n m (h.owned_iff.mp hn) (h.owned_iff.mp hm) huuid
  running n hn := h.owned_iff.mpr (hrunning n hn)
  watch n hn := by
    have hn' := h.owned_iff.mp hn
    rw [h.job]
    exact (hk.watch n hn').grown hn'.1 h.grown
  attached n hn hown := by
    rw [h.handles] at hn
    rw [h.owned] at hown
    rw [h.job, h.initial]
    obtain ⟨huuid, hfrom⟩ := hk.attached n hn hown
    exact ⟨huuid, hfrom.imp_right fun hrec => hrec.grown h.grown⟩
  store s hs := by
    rw [h.store] at hs
    exact (hk.store s hs).grown h.grown
  ended n hn r hr := by
    rw [h.handles] at hn
    rw [h.job] at hr ⊢
    exact hk.ended n hn r hr

/-- The next uuid is one that nobody has drawn. -/
theorem Kept.ne_next (hk : Kept bytes past uuids w) {u v : Nat} (hv : w.drawer u = some v) :
    u ≠ w.uuids.next w.drawn :=
  hk.source ▸ Supply.ne_next_of_not_ahead (hk.drawn u v hv).2

/-- A uuid is drawn by one task. -/
theorem kept_uuidNow (hk : Kept bytes past uuids w) :
    Kept bytes past uuids { w with
      drawn := w.drawn + 1
      drawer := Function.update w.drawer (w.uuids.next w.drawn) (some t) } := by
  refine hk.sameJobs ⟨rfl, rfl, rfl, rfl, rfl⟩ hk.source (fun u v hv => ?_)
    (fun h ho => ?_) hk.running
  · dsimp only at hv ⊢
    by_cases hu : u = w.uuids.next w.drawn
    · subst hu
      rw [hk.source]
      exact ⟨Supply.ahead_next.of_le (Nat.zero_le _), Supply.not_ahead_next (Nat.lt_succ_self _)⟩
    · rw [Function.update_of_ne hu] at hv
      obtain ⟨hours, hgone⟩ := hk.drawn u v hv
      exact ⟨hours, fun hahead => hgone (hahead.of_le (Nat.le_succ _))⟩
  · obtain ⟨v, hv⟩ := hk.entered h ho
    exact ⟨v, (Function.update_of_ne (hk.ne_next hv) _ _).trans hv⟩

/-- An operation that only answers. -/
def ManagerOp.asks : ManagerOp → Bool
  | .spawnChild _ _ _ | .nowUnix | .begins _ | .load _ | .list | .readFile _ => true
  | _ => false

/-- The questions of a manager to the system around it change nothing. -/
theorem managerExec_asks {o : ManagerOp} {i : ManagerInput} {a : o.Ans} (ho : o.asks = true)
    (he : managerExec t o i w = some (a, w')) : w' = w := by
  cases o with
  | spawnChild _ _ _ | readFile _ =>
    cases i <;> cases he
    rfl
  | nowUnix | load _ =>
    rcases i with (_ | _ | _ | _) | _ | _ | _ <;> cases he
    rfl
  | begins h =>
    simp only [managerExec] at he
    split at he
    · cases he
      rfl
    · cases he
  | list =>
    rcases i with _ | _ | (_ | snaps) | _
    · cases he
    · cases he
    · cases he
      rfl
    · simp only [managerExec] at he
      split at he
      · cases he
        rfl
      · cases he
    · cases he
  | _ => cases ho

/-- **A permitted operation keeps the records, and the other tasks see no more than they
expect.** -/
theorem manager_exec {o : ManagerOp} {i : ManagerInput} {a : o.Ans}
    (hpast : ∀ s ∈ past, ¬ uuids.Ahead 0 s.uuid) (hk : Kept bytes past uuids w)
    (hp : ManagerPermit bytes past t o w) (he : managerExec t o i w = some (a, w')) :
    Kept bytes past uuids w' ∧ Grown w w' ∧ ∀ u, u ≠ t → GrownFor u w w' := by
  cases o with
  | on h o =>
    exact ⟨kept_on hpast hk hp he, (grownFor_on (u := t) hp he).1,
      fun u hu => (grownFor_on hp he).2 hu⟩
  | uuidNow =>
    cases he
    have hsame : SameJobs w { w with
        drawn := w.drawn + 1
        drawer := Function.update w.drawer (w.uuids.next w.drawn) (some t) } :=
      ⟨rfl, rfl, rfl, rfl, rfl⟩
    refine ⟨kept_uuidNow hk, hsame.grown, fun u hu => ⟨hsame.grown, fun _ _ h => h, fun v hv => ?_⟩⟩
    exact ⟨(Function.update_of_ne (hk.ne_next hv.1) _ _).trans hv.1, hv.2⟩
  | newJob init =>
    cases he
    exact ⟨kept_entered hk fun _ => hp, grown_entered init true,
      fun u hu => grownFor_entered hu fun _ => hp.1⟩
  | attachSnapshot snap =>
    cases he
    exact ⟨kept_entered hk nofun, grown_entered snap false,
      fun u hu => grownFor_entered hu nofun⟩
  | start h =>
    cases he
    have hsame : SameJobs w { w with running := Function.update w.running h true } :=
      ⟨rfl, rfl, rfl, rfl, rfl⟩
    refine ⟨hk.sameJobs hsame hk.source hk.drawn hk.entered fun n hn => ?_, hsame.grown, fun u _ =>
      ⟨hsame.grown, fun _ _ h => h, fun _ h => h⟩⟩
    by_cases hnh : n = h
    · exact hnh ▸ hp
    · dsimp only at hn
      rw [Function.update_of_ne hnh] at hn
      exact hk.running n hn
  | spawnChild _ _ _ | nowUnix | begins _ | load _ | list | readFile _ =>
    cases managerExec_asks rfl he
    exact ⟨hk, .refl w, fun u _ => .refl u w⟩

end Manager

end Tssrun

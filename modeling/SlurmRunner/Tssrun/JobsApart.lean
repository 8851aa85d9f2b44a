/-
# No job is told of another one

The tasks of the handles and the clients of a manager keep to what the records allow, so in every
run of any number of them the records stay true.  A client is told the truth too: the job that it
has spawned is the one that it asked for, a handle that it has attached fits the key, and what a
`refresh` returns is about the job of the handle.
-/
import SlurmRunner.Tssrun.Provenance

namespace Tssrun

open Text Interact
open StateStore (AttachKey)

/-! ## 1. What a client is told

A snapshot that a call returns is on record, and it is about the job of its handle (`About`) or fits
the key that was asked for (`Fits`).  Both go on to hold. -/

section Told

variable (bytes : Nat → LogStream → List UInt8) (past : List TssrunJobSnapshot)

/-- The snapshot is on record, under the uuid of handle `h`. -/
def About (h : Nat) (s : TssrunJobSnapshot) (w : ManagerWorld) : Prop :=
  h < w.handles ∧ OnRecord bytes past w s ∧ s.uuid = (w.initial h).uuid

/-- Handle `h` was spawned with this command. -/
def Spawned (cmd : TssrunCmd) (currentDir : Except Str Str) (h : Nat) (w : ManagerWorld) : Prop :=
  Owned h w ∧ ∃ uuid pid argv unix, cmd.buildArgv currentDir = .ok argv ∧
    w.initial h = .atSpawn uuid pid argv cmd.env cmd.cwd unix

/-- What an attached handle was made with fits the key. -/
def Fits (key : AttachKey) (s : TssrunJobSnapshot) (w : ManagerWorld) : Prop :=
  match key with
  | .uuid u => OnRecord bytes past w s ∧ s.uuid = u
  | .pid p => OnRecord bytes past w s ∧ s.pid = p
  | .jobId j => OnRecord bytes past w s ∧ s.jobid = some j
  -- whatever the file had
  | .file _ => True

/-- Handle `h` was attached by this key. -/
def Attached (key : AttachKey) (h : Nat) (w : ManagerWorld) : Prop :=
  h < w.handles ∧ w.owned h = false ∧ Fits bytes past key (w.initial h) w

/-- `wait` of handle `h` returns how its child has ended. -/
def Exited (h : Nat) (r : WaitResult) (w : ManagerWorld) : Prop :=
  r = .error .notOwner ∨
    ∃ inner, h < w.handles ∧ (w.job h).child = some inner ∧ r = inner.mapError .other

/-- The answer to a call is true. -/
def TssrunCall.Truthful (call : TssrunCall) (answer : TssrunAnswer) (w : ManagerWorld) : Prop :=
  match call, answer with
  | .spawn cmd currentDir, .spawned r => ∀ h, r = .ok h → Spawned cmd currentDir h w
  | .attach key, .attached r => ∀ h, r = .ok h → Attached bytes past key h w
  | .refresh h, .refreshed r => ∀ s, r = .ok s → About bytes past h s w
  | .waitTerminal h _, .waited r => ∀ s, r = some (.ok s) →
      About bytes past h s w ∧ s.finished.isSome = true
  | .wait h, .exited r => Exited h r w
  | _, _ => False

variable {bytes past}

/-- What is known of a job stays true. -/
theorem About.grown {h : Nat} {s : TssrunJobSnapshot} {w w' : ManagerWorld}
    (hs : About bytes past h s w) (hg : Grown w w') : About bytes past h s w' :=
  ⟨hs.1.trans_le hg.handles, hs.2.1.grown hg, hs.2.2.trans (by rw [hg.initial h hs.1])⟩

/-- And so does what fits a key. -/
theorem Fits.grown {key : AttachKey} {s : TssrunJobSnapshot} {w w' : ManagerWorld}
    (hs : Fits bytes past key s w) (hg : Grown w w') : Fits bytes past key s w' := by
  cases key with
  | file _ => trivial
  | _ => exact ⟨hs.1.grown hg, hs.2⟩

/-- What was true stays true. -/
theorem TssrunCall.Truthful.grown {call : TssrunCall} {answer : TssrunAnswer} {w w' : ManagerWorld}
    (h : call.Truthful bytes past answer w) (hg : Grown w w') :
    call.Truthful bytes past answer w' := by
  cases call <;> cases answer <;> try exact h.elim
  · rintro h' rfl
    obtain ⟨ho, uuid, pid, argv, unix, hargv, hinit⟩ := h h' rfl
    exact ⟨ho.grown hg, uuid, pid, argv, unix, hargv, (hg.initial h' ho.1).trans hinit⟩
  · rintro h' rfl
    obtain ⟨hlt, hown, hfits⟩ := h h' rfl
    refine ⟨hlt.trans_le hg.handles, (hg.owned h' hlt).trans hown, ?_⟩
    rw [hg.initial h' hlt]
    exact hfits.grown hg
  · exact fun s hs => (h s hs).grown hg
  · exact fun s hs => ⟨(h s hs).1.grown hg, (h s hs).2⟩
  · exact h.imp_right fun ⟨inner, hh, hchild, hr⟩ =>
      ⟨inner, hh.trans_le hg.handles, hg.child _ hh _ hchild, hr⟩

end Told

/-! ## 2. The logic of the records

Each operation of a task must keep the records: it may save only what is on record, and set in a
watch value only what the child of the same handle has written.  The programs of one handle are
carried out on this handle by `ofHandle`. -/

/-- What is given when a program begins: what its children will write, and an older store, which has
none of the uuids that the program draws. -/
structure Setting where
  bytes : Nat → LogStream → List UInt8
  past : List TssrunJobSnapshot
  uuids : Supply Nat
  older : ∀ s ∈ past, ¬ uuids.Ahead 0 s.uuid

namespace Setting

variable (S : Setting)

def records : Logic managerMachine where
  inv := Kept S.bytes S.past S.uuids
  pre := ManagerPermit S.bytes S.past
  rely := GrownFor
  rely_refl := GrownFor.refl
  rely_trans := GrownFor.trans
  inv_exec hi hp he := (manager_exec S.older hi hp he).1
  inv_tick hi he := by
    cases he
    exact hi
  rely_tick _ he := by
    cases he
    exact .refl ..
  rely_exec hi hp he hu := (manager_exec S.older hi hp he).2.2 _ hu
  inv_drop hi := hi
  rely_drop _ _ := .refl ..

variable {S} {α β : Type} {t h : Nat} {w : ManagerWorld}

/-- A program forgets nothing. -/
theorem wp_grown {p : Prog managerSig α} {Q : α → ManagerWorld → Prop}
    (hp : S.records.wp t p Q w) : S.records.wp t p (fun a w' => Q a w' ∧ Grown w w') w :=
  Context.wp_grows (fun h h' => h.trans h') (fun h => h.toGrown)
    (fun hi hpre he => (manager_exec S.older hi hpre he).2.1) hp (.refl w)

/-- Sequencing, where nothing is forgotten. -/
theorem wp_then {p : Prog managerSig α} {f : α → Prog managerSig β}
    {P : α → ManagerWorld → Prop} {Q : β → ManagerWorld → Prop} (hp : S.records.wp t p P w)
    (hf : ∀ a w', P a w' → Grown w w' → S.records.wp t (f a) Q w') :
    S.records.wp t (p >>= f) Q w :=
  Context.wp_seq (wp_grown hp) fun a w' h => hf a w' h.1 h.2

theorem handled_true (o : Op) : handled true o = drainOp (.base o) := by
  cases o <;> rfl

theorem ofHandle_perform (o : Op) : ofHandle h (perform o) = onHandle h (.base o) := by
  change ((handled true o >>= Prog.ret).lower (onHandle h) : Prog managerSig o.Ans) = _
  rw [handled_true]
  rfl

/-- A program on a handle is carried out step by step. -/
theorem ofHandle_bind (p : Prog sig α) (f : α → Prog sig β) :
    ofHandle h (p >>= f) = ofHandle h p >>= fun a => ofHandle h (f a) := by
  exact (congrArg _ (Prog.lower_bind (handled true) p f)).trans
    (Prog.lower_bind (E := drainSig) (onHandle h) _ _)

/-- First the one program on the handle, then the other, with what the first has found out. -/
theorem wp_thenOn {p : Prog sig α} {f : α → Prog sig β} {P : α → ManagerWorld → Prop}
    {Q : β → ManagerWorld → Prop} (hp : S.records.wp t (ofHandle h p) P w)
    (hf : ∀ a w', P a w' → Grown w w' → S.records.wp t (ofHandle h (f a)) Q w') :
    S.records.wp t (ofHandle h (p >>= f)) Q w := by
  rw [ofHandle_bind]
  exact wp_then hp hf

/-- The rule of an operation on a handle. -/
theorem wp_on {o : DrainOp} {Q : o.Ans → ManagerWorld → Prop}
    (hpre : ∀ w₁, GrownFor t w w₁ → HandlePermit S.bytes S.past t h o w₁)
    (hQ : ∀ w₁ j a d w', GrownFor t w w₁ → Kept S.bytes S.past S.uuids w₁ → h < w₁.handles →
      drainExec t o j (w₁.view h) = some (a, d) → w'.job h = d → Grown w₁ w' → Q a w') :
    S.records.wp t (onHandle h o) Q w := by
  refine Context.wp_await (fun w₁ hr _ => hpre w₁ hr) fun w₁ i a w' hr hk he _ => ?_
  obtain ⟨j, d, -, hh, hd, hw⟩ := on_cases he
  refine hQ w₁ j a d w' hr hk hh hd ?_ (grownFor_on (u := t) (hpre w₁ hr) he).1
  rw [hw]
  exact Function.update_self ..

/-- An operation on a handle whose answer says nothing. -/
theorem wp_onTrue {o : DrainOp}
    (hpre : ∀ w₁, GrownFor t w w₁ → HandlePermit S.bytes S.past t h o w₁) :
    S.records.wp t (onHandle h o) (fun _ _ => True) w :=
  wp_on hpre fun _ _ _ _ _ _ _ _ _ _ _ => trivial

/-- A program that is a single operation. -/
theorem wp_perform {o : Op} {Q : o.Ans → ManagerWorld → Prop}
    (hp : S.records.wp t (onHandle h (.base o)) Q w) :
    S.records.wp t (ofHandle h (perform o)) Q w := by
  rw [ofHandle_perform]
  exact hp

/-- An operation whose answer does not matter. -/
theorem wp_performTrue {o : Op}
    (hpre : ∀ w₁, GrownFor t w w₁ → HandlePermit S.bytes S.past t h (.base o) w₁) :
    S.records.wp t (ofHandle h (perform o)) (fun _ _ => True) w :=
  wp_perform (wp_onTrue hpre)

/-! ## 3. The tasks of a handle

The tasks that `spawn` starts for a handle: the two tee tasks and the wait task. -/

/-- What the watch of an owned handle has is on record. -/
theorem wp_borrow (ho : Owned h w) :
    S.records.wp t (ofHandle h borrow) (fun s w' => OnRecord S.bytes S.past w' s) w := by
  refine wp_perform (o := .borrow) <| wp_on (fun _ _ => trivial) ?_
  intro w₁ j s d w' hr hk hh hd _ hg
  cases hd
  have ho₁ := ho.grown hr.toGrown
  have hs : OnRecord S.bytes S.past w₁ (w₁.job h).base.watch := .inr ⟨h, hh, ho₁.2, hk.watch h ho₁⟩
  exact hs.grown hg

/-- A snapshot that is on record may be saved. -/
theorem wp_persistWarn {snap : TssrunJobSnapshot} (hs : OnRecord S.bytes S.past w snap) :
    S.records.wp t (ofHandle h (persistWarn snap)) (fun _ _ => True) w :=
  wp_thenOn (wp_performTrue fun _ hr => hs.grown hr.toGrown) fun _ _ _ _ => trivial

/-- The owner saves what its watch has. -/
theorem records_save (ho : Owned h w) :
    S.records.wp t (ofHandle h (do let snap ← borrow; persistWarn snap)) (fun _ _ => True) w :=
  wp_thenOn (wp_borrow ho) fun _ _ hs _ => wp_persistWarn hs

/-- The rules of the tasks of handle `h`, carried out on the manager's world by task `t`. -/
def taskLogic (S : Setting) (t h : Nat) : TaskLogic ManagerWorld where
  proves p := S.records.wp t (ofHandle h p)
  ret hq := hq
  seq hp hf := wp_thenOn hp fun a w' hw _ => hf a w' hw

/-- What growth keeps is still known after a program of the handle. -/
theorem wp_keeps {K : ManagerWorld → Prop} (hK : ∀ w', K w → Grown w w' → K w') (hk : K w)
    {p : Prog sig α} (hp : S.records.wp t (ofHandle h p) (fun _ _ => True) w) :
    (S.taskLogic t h).proves p (fun _ w' => K w') w :=
  Context.wp_mono (wp_grown hp) fun _ w' hq => hK w' hk hq.2

/-- **A tee task saves only what is on record**: it sets the job id and the node its child wrote. -/
theorem records_teeLines {kind : LogStream} {stream : List Str} (ho : Owned h w)
    (hstream : ∀ line ∈ stream, Wrote S.bytes h line) :
    S.records.wp t (ofHandle h (teeLines kind stream)) (fun _ _ => True) w := by
  have hkeeps : ∀ {β : Type} {p : Prog sig β} (w : ManagerWorld), Owned h w →
      S.records.wp t (ofHandle h p) (fun _ _ => True) w →
        (S.taskLogic t h).proves p (fun _ w' => Owned h w') w :=
    fun w ho hp => wp_keeps (fun w' ho hg => ho.grown hg) ho hp
  refine Context.wp_mono (Q := fun _ => Owned h) ?_ fun _ _ _ => trivial
  refine (S.taskLogic t h).teeLines (R := Owned h) ?_ ?_ ho
  · exact fun w ho => hkeeps w ho (wp_performTrue fun _ _ => trivial)
  · intro line hmem w ho
    have hline := hstream line hmem
    refine (S.taskLogic t h).teeLine (R := fun _ => Owned h) ?_ ?_ ?_ ?_ ho
    · exact fun w ho => hkeeps w ho (wp_performTrue fun _ _ => trivial)
    · exact fun jid hjid w ho =>
        hkeeps w ho (wp_performTrue fun _ hr => ⟨ho.grown hr.toGrown, line, hline, hjid⟩)
    · exact fun node hnode _ w ho =>
        hkeeps w ho (wp_performTrue fun _ hr => ⟨ho.grown hr.toGrown, line, hline, hnode⟩)
    · exact fun w ho => hkeeps w ho (records_save ho)

/-- The exit of a child that was waited for, on a handle that was spawned. -/
def ChildExited (h : Nat) (r : Except Str (Option Int)) (w : ManagerWorld) : Prop :=
  Owned h w ∧ (w.job h).child = some r

/-- How the child has ended stays as it was. -/
theorem ChildExited.grown {r : Except Str (Option Int)} {w' : ManagerWorld} (he : ChildExited h r w)
    (hg : Grown w w') : ChildExited h r w' :=
  ⟨he.1.grown hg, hg.child h he.1.1 _ he.2⟩

/-- The wait task returns how the child has ended. -/
theorem records_waitTask (ho : Owned h w) (ht : t = waiter h) (hnone : (w.job h).child = none) :
    S.records.wp t (ofHandle h waitTask) (fun r w' => (w'.job h).child = some r) w := by
  have hkeeps : ∀ {β : Type} {p : Prog sig β} {r : Except Str (Option Int)} (w : ManagerWorld),
      ChildExited h r w → S.records.wp t (ofHandle h p) (fun _ _ => True) w →
        (S.taskLogic t h).proves p (fun _ w' => ChildExited h r w') w :=
    fun w he hp => wp_keeps (fun w' he hg => he.grown hg) he hp
  refine Context.wp_mono (Q := ChildExited h) ?_ fun _ _ he => he.2
  refine (S.taskLogic t h).waitTask (R := fun w => Owned h w ∧ (w.job h).child = none)
    (X := ChildExited h) (Y := fun code => ChildExited h (.ok code)) (Z := ChildExited h)
    ?_ (fun _ _ he => he) ?_ ?_ ?_ ?_ ⟨ho, hnone⟩
  · rintro w ⟨ho, hnone⟩
    have hwait : S.records.wp t (ofHandle h childWait) (fun r w' => (w'.job h).child = some r)
        w := by
      refine wp_perform (o := .childWait) <| wp_on (fun _ hr => ⟨ht, hr.unwaited h ht hnone⟩) ?_
      intro w₁ j r d w' _ _ _ hd hw _
      rw [hw]
      cases j <;> cases hd
      rfl
    exact Context.wp_mono (wp_grown hwait) fun r w' hq => ⟨ho.grown hq.2, hq.1⟩
  · exact fun _ w he => hkeeps w he (wp_performTrue fun _ _ => trivial)
  · exact fun _ _ w he => hkeeps w he (wp_performTrue fun _ hr => he.grown hr.toGrown)
  · exact fun _ w he => hkeeps w he (records_save he.1)
  · exact fun _ w he => hkeeps w he (wp_performTrue fun _ _ => trivial)

theorem ofHandle_lower {p : Prog drainSig α} {f : α → Prog drainSig β} :
    (p >>= f).lower (onHandle h) =
      p.lower (onHandle h) >>= fun a => (f a).lower (onHandle h) :=
  Prog.lower_bind (E := drainSig) (onHandle h) p f

theorem wp_thenLower {p : Prog drainSig α} {f : α → Prog drainSig β}
    {P : α → ManagerWorld → Prop} {Q : β → ManagerWorld → Prop}
    (hp : S.records.wp t (p.lower (onHandle h)) P w)
    (hf : ∀ a w', P a w' → Grown w w' → S.records.wp t ((f a).lower (onHandle h)) Q w') :
    S.records.wp t ((p >>= f).lower (onHandle h)) Q w := by
  rw [ofHandle_lower]
  exact wp_then hp hf

theorem wp_drainOp {o : DrainOp} {Q : o.Ans → ManagerWorld → Prop}
    (hp : S.records.wp t (onHandle h o) Q w) :
    S.records.wp t ((drainOp o).lower (onHandle h)) Q w := by
  have heq : (drainOp o).lower (onHandle h) = onHandle h o := Prog.bind_ret _
  rw [heq]
  exact hp

/-- A tee task does no more than its stream says. -/
theorem wp_teeTask (ho : Owned h w) (kind : LogStream) :
    S.records.wp t ((teeTask true kind (S.bytes h kind)).lower (onHandle h)) (fun _ _ => True)
      w := by
  have hread : S.records.wp t (ofHandle h (teeStream kind (S.bytes h kind))) (fun _ _ => True)
      w := by
    rw [teeStream, teeReads_eq]
    exact records_teeLines ho fun line hline => ⟨kind, hline⟩
  exact wp_thenLower hread fun _ _ _ _ =>
    wp_thenLower (wp_drainOp (wp_onTrue fun _ _ => trivial)) fun _ _ _ _ => trivial

/-- The wait task returns how the child of its handle has ended. -/
theorem wp_exitTask (ho : Owned h w) (ht : t = waiter h) (hnone : (w.job h).child = none) :
    S.records.wp t ((exitTask true).lower (onHandle h)) (fun _ _ => True) w := by
  refine wp_thenLower (records_waitTask ho ht hnone) fun r w₁ hchild h₁ => ?_
  refine wp_thenLower (wp_drainOp (wp_onTrue fun w₂ hr => ?_)) fun _ _ _ _ => trivial
  exact hr.toGrown.child h (ho.1.trans_le h₁.handles) _ hchild

/-- A task begins once its handle has been spawned. -/
theorem wp_background {p : Prog drainSig (Option WaitResult)}
    {Q : List TssrunAnswer → ManagerWorld → Prop} (hQ : ∀ w', Q [] w')
    (hp : ∀ w', GrownFor t w w' → Owned h w' →
      S.records.wp t (p.lower (onHandle h)) (fun _ _ => True) w') :
    S.records.wp t (background h p) Q w := by
  have hbegins : S.records.wp t (manage (.begins h)) (fun _ w' => GrownFor t w w' ∧ Owned h w')
      w := by
    refine Context.wp_await (fun _ _ _ => trivial) fun w₁ i a w' hr hk he _ => ?_
    simp only [managerMachine, managerExec] at he
    split at he
    · rename_i hrunning
      cases he
      exact ⟨hr, hk.running h hrunning⟩
    · cases he
  refine wp_then hbegins fun _ w₁ h₁ _ => ?_
  exact wp_then (hp w₁ h₁.1 h₁.2) fun _ w' _ _ => hQ w'

/-! ## 4. The calls of a handle

`refresh`, `wait_terminal`, `wait` and the joins of the readers, on a handle that there is
already. -/

/-- What the store has under the uuid of a handle is on record. -/
theorem wp_load : S.records.wp t (ofHandle h load)
    (fun r w' => ∀ s, r = .ok (some s) → About S.bytes S.past h s w') w := by
  refine wp_perform (o := .load) <| wp_on (fun _ _ => trivial) ?_
  intro w₁ j r d w' _ hk hh hd _ hg s hs
  obtain ⟨r', hr'⟩ : ∃ r', j = .done r' := by
    cases j with
    | done r' => exact ⟨r', rfl⟩
    | _ => cases hd
  subst hr'
  cases hd
  cases r' with
  | error e => cases hs
  | ok _ =>
    have hfound : w₁.stored (w₁.job h).base.watch.uuid = some s := Except.ok.inj hs
    have hmem : s ∈ w₁.store := List.mem_of_find?_eq_some hfound
    have huuid : s.uuid = (w₁.job h).base.watch.uuid := by simpa using List.find?_some hfound
    rw [hk.uuid_watch hh] at huuid
    exact About.grown ⟨hh, hk.store s hmem, huuid⟩ hg

/-- A refresh returns a snapshot of the job. -/
theorem wp_refresh : S.records.wp t (ofHandle h refresh)
    (fun r w' => ∀ s, r = .ok s → About S.bytes S.past h s w') w := by
  refine wp_thenOn (wp_performTrue fun _ _ => trivial) fun current w₁ _ _ => ?_
  refine wp_thenOn wp_load fun r w₂ hr _ => ?_
  rcases r with e | _ | snap
  · exact nofun
  · exact nofun
  · have hs := hr snap rfl
    refine wp_thenOn (wp_performTrue fun w₃ hg => ?_) fun _ w₄ _ hg => ?_
    · exact (hs.grown hg.toGrown).2
    · rintro s ⟨⟩
      exact hs.grown hg

/-- What is waited for has ended, and is the job's. -/
theorem wp_waitTerminal (rounds : Nat) : S.records.wp t (ofHandle h (waitTerminal rounds))
    (fun r w' => ∀ s, r = some (.ok s) →
      About S.bytes S.past h s w' ∧ s.finished.isSome = true) w := by
  induction rounds generalizing w with
  | zero => exact nofun
  | succ rounds ih =>
    refine wp_thenOn wp_refresh fun r w₁ hr _ => ?_
    cases r with
    | error e => exact nofun
    | ok snap =>
      by_cases hfin : snap.finished.isSome = true
      · simp only [if_pos hfin]
        rintro s ⟨⟩
        exact ⟨hr snap rfl, hfin⟩
      · simp only [if_neg hfin]
        exact wp_thenOn (wp_performTrue fun _ _ => trivial) fun _ _ _ _ => ih

/-- The join of a reader. -/
theorem wp_drainTee (kind : LogStream) :
    S.records.wp t ((drainTee kind).lower (onHandle h)) (fun _ _ => True) w := by
  refine wp_thenLower (wp_drainOp (wp_onTrue fun _ _ => trivial)) fun found _ _ _ => ?_
  cases found with
  | true => exact wp_drainOp (wp_onTrue fun _ _ => trivial)
  | false => trivial

/-- The exit that `wait` returns is that of the child. -/
theorem wp_wait : S.records.wp t (wait.lower (onHandle h)) (fun r w' => Exited h r w') w := by
  refine wp_thenLower (wp_drainOp (wp_onTrue fun _ _ => trivial)) fun found _ _ _ => ?_
  cases found with
  | false => exact .inl rfl
  | true =>
    refine wp_thenLower (wp_drainTee .stdout) fun _ _ _ _ => ?_
    refine wp_thenLower (wp_drainTee .stderr) fun _ w₁ _ _ => ?_
    have hjoin : S.records.wp t ((drainOp .joinWait).lower (onHandle h))
        (fun r w' => h < w'.handles ∧ (w'.job h).child = some r) w₁ := by
      refine wp_drainOp (wp_on (fun _ _ => trivial) ?_)
      intro w₂ j r d w' _ hk hh hd _ hg
      obtain ⟨r', hended, hr⟩ := Option.map_eq_some_iff.mp hd
      cases hr
      exact ⟨hh.trans_le hg.handles, hg.child h hh _ (hk.ended h hh r hended)⟩
    exact wp_thenLower hjoin fun inner w' hinner _ => .inr ⟨inner, hinner.1, hinner.2, rfl⟩

/-! ## 5. The calls of the manager

`spawn` and the calls of `attach` make handles.  The handle of a spawn is the one that is numbered
next, and its snapshot has a uuid of its own. -/

/-- The new handle owns its job, and starts with the snapshot that it was given. -/
theorem wp_fromSpawn {child : SpawnedChild} {init : TssrunJobSnapshot} (hmine : Mine t init.uuid w)
    (hblank : init.identity = init) : S.records.wp t (fromSpawn child init)
      (fun r w' => ∀ h, r = .ok h → Owned h w' ∧ w'.initial h = init) w := by
  have hnew : S.records.wp t (manage (.newJob init))
      (fun h w' => Owned h w' ∧ w'.initial h = init) w := by
    refine Context.wp_await (fun w₁ hr _ => ⟨hr.mine _ hmine, hblank⟩) fun w₁ i h w' _ _ he _ => ?_
    cases he
    exact ⟨⟨Nat.lt_succ_self _, Function.update_self ..⟩, Function.update_self ..⟩
  refine wp_then hnew fun h w₁ hh _ => ?_
  have hkeep : ∀ w', Grown w₁ w' → Owned h w' ∧ w'.initial h = init := fun w' hg =>
    ⟨hh.1.grown hg, (hg.initial h hh.1.1).trans hh.2⟩
  refine wp_then (wp_borrow hh.1) fun snap w₂ hs h₂ => ?_
  refine wp_then (wp_persistWarn hs) fun _ w₃ _ h₃ => ?_
  have hgrown := h₂.trans h₃
  split
  · exact nofun
  · split
    · exact nofun
    · have hstart : S.records.wp t (manage (.start h)) (fun _ _ => True) w₃ :=
        Context.wp_await (fun w₄ hr _ => (hkeep w₄ (hgrown.trans hr.toGrown)).1)
          fun _ _ _ _ _ _ _ _ => trivial
      refine wp_then hstart fun _ w₄ _ h₄ => ?_
      rintro h' ⟨⟩
      exact hkeep w₄ (hgrown.trans h₄)

/-- An operation of the manager that only answers. -/
theorem wp_asks {o : ManagerOp} (ho : o.asks = true) :
    S.records.wp t (manage o) (fun _ _ => True) w := by
  refine Context.wp_await (fun w₁ _ _ => ?_) fun _ _ _ _ _ _ _ _ => trivial
  cases o with
  | on _ _ | newJob _ | start _ => cases ho
  | _ => trivial

/-- **A spawned handle is about the command that it was spawned with.** -/
theorem wp_spawnWith {cmd : TssrunCmd} {currentDir : Except Str Str} :
    S.records.wp t (spawnWith cmd currentDir)
      (fun r w' => ∀ h, r = .ok h → Spawned cmd currentDir h w') w := by
  unfold spawnWith
  split
  · exact nofun
  · rename_i argv hargv
    refine wp_then (wp_asks rfl) fun r w₁ _ _ => ?_
    cases r with
    | error e => exact nofun
    | ok child =>
      have huuid : S.records.wp t (manage .uuidNow) (fun u w' => Mine t u w') w₁ := by
        refine Context.wp_await (fun _ _ _ => trivial) fun w₂ i u w' _ hk he _ => ?_
        cases he
        refine ⟨Function.update_self .., fun h ho heq => ?_⟩
        obtain ⟨v, hv⟩ := hk.entered h ho
        exact hk.ne_next hv heq
      refine wp_then huuid fun uuid w₂ hmine _ => ?_
      have hclock : S.records.wp t (manage .nowUnix) (fun _ w' => Mine t uuid w') w₂ :=
        Context.wp_await (fun _ _ _ => trivial) fun w₃ i unix w' hr _ he _ =>
          managerExec_asks rfl he ▸ hr.mine _ hmine
      refine wp_then hclock fun unix w₃ hmine₃ _ => ?_
      refine wp_then (wp_fromSpawn hmine₃ rfl) fun r w₄ hr _ => ?_
      cases r with
      | error e => exact nofun
      | ok h =>
        rintro h' ⟨⟩
        obtain ⟨ho, hinit⟩ := hr h rfl
        exact ⟨ho, uuid, child.pid, argv, unix, hargv, hinit⟩

/-- A handle is attached to the snapshot that was found, and to no other. -/
theorem wp_attachFound {key : AttachKey} {found : Option TssrunJobSnapshot}
    (hfits : ∀ s, found = some s → Fits S.bytes S.past key s w) :
    S.records.wp t (attachFound key found)
      (fun r w' => ∀ h, r = .ok h → Attached S.bytes S.past key h w') w := by
  cases found with
  | none => exact nofun
  | some snap =>
    have hnew : S.records.wp t (manage (.attachSnapshot snap))
        (fun h w' => Attached S.bytes S.past key h w') w := by
      refine Context.wp_await (fun _ _ _ => trivial) fun w₁ i h w' hr _ he _ => ?_
      have hsnap := (hfits snap rfl).grown hr.toGrown
      cases he
      refine ⟨Nat.lt_succ_self _, Function.update_self .., ?_⟩
      have hinit : (w₁.entered t snap false).initial w₁.handles = snap := Function.update_self ..
      rw [hinit]
      exact hsnap.grown (grown_entered snap false)
    refine wp_then hnew fun h w₁ hh _ => ?_
    rintro h' ⟨⟩
    exact hh

/-- The first snapshot that fits is found in the store. -/
theorem wp_attachFirst {key : AttachKey} {fits : TssrunJobSnapshot → Bool}
    (hfits : ∀ s w, fits s = true → OnRecord S.bytes S.past w s → Fits S.bytes S.past key s w) :
    S.records.wp t (attachFirst key fits)
      (fun r w' => ∀ h, r = .ok h → Attached S.bytes S.past key h w') w := by
  have hlist : S.records.wp t (manage .list)
      (fun r w' => ∀ snaps, r = .ok snaps → ∀ s ∈ snaps, OnRecord S.bytes S.past w' s) w := by
    refine Context.wp_await (fun _ _ _ => trivial) fun w₁ i r w' _ hk he _ => ?_
    rcases i with _ | _ | (_ | listed) | _
    · cases he
    · cases he
    · cases he
      intro snaps h
      cases h
    · simp only [managerMachine, managerExec] at he
      split at he
      · rename_i hperm
        cases he
        rintro snaps ⟨⟩ s hs
        exact hk.store s ((List.isPerm_iff.mp hperm).mem_iff.mp hs)
      · cases he
    · cases he
  refine wp_then hlist fun r w₁ hr _ => ?_
  cases r with
  | error e =>
    intro h' hh
    cases hh
  | ok snaps =>
    refine wp_attachFound fun s hs => ?_
    exact hfits s w₁ (List.find?_some hs) (hr snaps rfl s (List.mem_of_find?_eq_some hs))

/-- **An attached handle fits its key.** -/
theorem wp_attach {key : AttachKey} : S.records.wp t (Tssrun.attach key)
    (fun r w' => ∀ h, r = .ok h → Attached S.bytes S.past key h w') w := by
  cases key with
  | file path =>
    refine wp_then (wp_asks rfl) fun r w₁ _ _ => ?_
    cases r with
    | error e => exact nofun
    | ok snap => exact wp_attachFound fun _ _ => trivial
  | uuid u =>
    have hload : S.records.wp t (manage (.load u)) (fun r w' => ∀ s, r = .ok (some s) →
        OnRecord S.bytes S.past w' s ∧ s.uuid = u) w := by
      refine Context.wp_await (fun _ _ _ => trivial) fun w₁ i r w' _ hk he _ => ?_
      rcases i with (_ | r' | _ | _) | _ | _ | _ <;> cases he
      rintro s hs
      cases r' with
      | error e => cases hs
      | ok _ =>
        have hfound : w₁.stored u = some s := Except.ok.inj hs
        exact ⟨hk.store s (List.mem_of_find?_eq_some hfound), by simpa using List.find?_some hfound⟩
    refine wp_then hload fun r w₁ hr _ => ?_
    cases r with
    | error e => exact nofun
    | ok found => exact wp_attachFound fun s hs => hr s (by rw [hs])
  | pid p => exact wp_attachFirst fun s w hs hrec => ⟨hrec, by simpa using hs⟩
  | jobId j => exact wp_attachFirst fun s w hs hrec => ⟨hrec, by simpa using hs⟩

/-! ## 6. The clients

A client makes calls of both kinds, one after another. -/

/-- What every call returns is true. -/
theorem wp_call (call : TssrunCall) : S.records.wp t call.program
    (fun answer w' => call.Truthful S.bytes S.past answer w') w := by
  cases call with
  | spawn cmd currentDir => exact wp_then wp_spawnWith fun r w' hr _ => hr
  | attach key => exact wp_then wp_attach fun r w' hr _ => hr
  | refresh h => exact wp_then wp_refresh fun r w' hr _ => hr
  | waitTerminal h rounds => exact wp_then (wp_waitTerminal rounds) fun r w' hr _ => hr
  | wait h => exact wp_then wp_wait fun r w' hr _ => hr

/-- And so of the calls of a client, one after another. -/
theorem wp_client (calls : List TssrunCall) : S.records.wp t (managerClient calls)
    (fun answers w' => List.Forall₂ (fun call answer => call.Truthful S.bytes S.past answer w')
      calls answers) w := by
  induction calls generalizing w with
  | nil => exact .nil
  | cons call calls ih =>
    refine wp_then (wp_call call) fun answer w₁ hanswer _ => ?_
    refine wp_then ih fun answers w₂ hanswers hg => ?_
    exact .cons (hanswer.grown hg) hanswers

end Setting

/-! ## 7. Every run

The tasks of every handle that comes to be are tasks of the run from its start, where they wait
until there is their handle. -/

section Runs

variable {bytes : Nat → LogStream → List UInt8} {clients : Nat → Option (List TssrunCall)}
  {past : List TssrunJobSnapshot} {uuids : Supply Nat} {ms : List (Move managerMachine)}
  {c : Config managerMachine (List TssrunAnswer)}

/-- At the start there is no handle, and the store has what was there before. -/
theorem kept_opened : Kept bytes past uuids (.opened past uuids) where
  source := rfl
  drawn := nofun
  entered _ ho := absurd ho.1 (Nat.not_lt_zero _)
  unique _ _ ho := absurd ho.1 (Nat.not_lt_zero _)
  running := nofun
  watch _ ho := absurd ho.1 (Nat.not_lt_zero _)
  attached _ hh := absurd hh (Nat.not_lt_zero _)
  store _ hs := .inl hs
  ended _ hh := absurd hh (Nat.not_lt_zero _)

/-- What a client has been told, of the tasks that are clients. -/
def Told (bytes : Nat → LogStream → List UInt8) (past : List TssrunJobSnapshot)
    (clients : Nat → Option (List TssrunCall)) (t : Nat) (answers : List TssrunAnswer)
    (w : ManagerWorld) : Prop :=
  t % 4 = 0 → ∀ calls, clients (t / 4) = some calls →
    List.Forall₂ (fun call answer => call.Truthful bytes past answer w) calls answers

/-- A task is a client, reads a stream of a handle, or waits for its child. -/
theorem sessions_tasks {w : ManagerWorld} {t : Nat} {p : Prog managerSig (List TssrunAnswer)}
    (hp : (sessions bytes clients w).tasks t = some p) :
    (t % 4 = 0 ∧ ∃ calls, clients (t / 4) = some calls ∧ p = managerClient calls) ∨
    (t % 4 ≠ 0 ∧ ∃ kind, p = background (t / 4) (teeTask true kind (bytes (t / 4) kind))) ∨
    (t = waiter (t / 4) ∧ t % 4 ≠ 0 ∧ p = background (t / 4) (exitTask true)) := by
  have hmod : t % 4 = 0 ∨ t % 4 = 1 ∨ t % 4 = 2 ∨ t % 4 = 3 := by omega
  have hwaiter : t % 4 = 3 → t = waiter (t / 4) := by
    unfold waiter
    omega
  rcases hmod with hk | hk | hk | hk
  all_goals
    simp only [sessions, hk] at hp
  · obtain ⟨calls, hcalls, rfl⟩ := Option.map_eq_some_iff.mp hp
    exact .inl ⟨hk, calls, hcalls, rfl⟩
  · exact .inr (.inl ⟨by omega, .stdout, (Option.some.inj hp).symm⟩)
  · exact .inr (.inl ⟨by omega, .stderr, (Option.some.inj hp).symm⟩)
  · exact .inr (.inr ⟨hwaiter hk, by omega, (Option.some.inj hp).symm⟩)

theorem sessions_safe (S : Setting) : Config.Safe S.records (Told S.bytes S.past clients)
    (sessions S.bytes clients (.opened S.past S.uuids)) where
  inv := kept_opened
  suspended t p _ := by
    cases p <;> trivial
  proved t p hp := by
    rcases sessions_tasks hp with ⟨-, calls, hcalls, rfl⟩ | ⟨hk, kind, rfl⟩ | ⟨hwaiter, hk, rfl⟩
    · refine Context.wp_mono (Setting.wp_client calls) fun answers w' h _ calls' hcalls' => ?_
      cases hcalls.symm.trans hcalls'
      exact h
    · exact Setting.wp_background (fun _ h0 => absurd h0 hk) fun _ _ ho =>
        Setting.wp_teeTask ho kind
    · exact Setting.wp_background (fun _ h0 => absurd h0 hk) fun w' hg ho =>
        Setting.wp_exitTask ho hwaiter (hg.unwaited _ hwaiter rfl)

/-- The world of a program that draws its uuids from `uuids` keeps its jobs apart. -/
structure JobsApart (bytes : Nat → LogStream → List UInt8) (past : List TssrunJobSnapshot)
    (uuids : Supply Nat) (w : ManagerWorld) : Prop where
  /-- What a spawned handle shows was found out about its job. -/
  watch : ∀ h, Owned h w → OfJob bytes w h (w.job h).base.watch
  /-- Its uuid was drawn by the program, and no other one has it. -/
  fresh : ∀ h, Owned h w → uuids.Ahead 0 (w.initial h).uuid
  unique : ∀ h h', Owned h w → Owned h' w → (w.initial h).uuid = (w.initial h').uuid → h = h'
  /-- An attached handle shows what it was attached to, or what is on record under the uuid. -/
  attached : ∀ h < w.handles, w.owned h = false →
    (w.job h).base.watch.uuid = (w.initial h).uuid ∧
      ((w.job h).base.watch = w.initial h ∨ OnRecord bytes past w (w.job h).base.watch)
  store : ∀ s ∈ w.store, OnRecord bytes past w s
  /-- What is on record under the uuid of a spawned job is about this job. -/
  ofJob : ∀ s, OnRecord bytes past w s → ∀ h, Owned h w → s.uuid = (w.initial h).uuid →
    OfJob bytes w h s

/-- **The jobs of a manager keep apart.**  In every run of any number of clients, and of the tasks
of all the handles that they make, under every interleaving: what a handle of a spawned job shows,
and what the store has under its uuid, is what was found out about that job, and each client is told
the truth.  The older store has none of the new uuids. -/
theorem jobs_keep_apart (hpast : ∀ s ∈ past, ¬ uuids.Ahead 0 s.uuid)
    (hrun : (sessions bytes clients (.opened past uuids)).run ms = some c) :
    JobsApart bytes past uuids c.world ∧
      ∀ k calls answers, clients k = some calls → c.result (4 * k) = some answers →
        List.Forall₂ (fun call answer => call.Truthful bytes past answer c.world)
          calls answers := by
  let S : Setting := ⟨bytes, past, uuids, hpast⟩
  have hstable : ∀ t answers w w', Told bytes past clients t answers w → GrownFor t w w' →
      Told bytes past clients t answers w' := by
    intro t answers w w' h hg ht calls hcalls
    exact (h ht calls hcalls).imp fun call answer hanswer => hanswer.grown hg.toGrown
  have hsafe := Config.run_sound (L := S.records) hstable (sessions_safe S) hrun
  have hk : Kept bytes past uuids c.world := hsafe.inv
  refine ⟨⟨hk.watch, fun h ho => ?_, hk.unique, hk.attached, hk.store, fun s hs h ho huuid =>
    hk.ofJob hpast hs ho huuid⟩, fun k calls answers hcalls hres => ?_⟩
  · obtain ⟨t, ht⟩ := hk.entered h ho
    exact (hk.drawn _ _ ht).1
  · refine hsafe.post hres (by omega) calls ?_
    rw [Nat.mul_div_cancel_left k (by decide)]
    exact hcalls

/-- The first child prints its banner on stderr. -/
def bannerChild : Nat → LogStream → List UInt8
  | 0, .stderr => asciiBytes "salloc: Granted job allocation 42\n"
  | _, _ => []

/-- One client spawns a job and waits for it; another one attaches to it and refreshes. -/
def spawnedAndAttached : Nat → Option (List TssrunCall)
  | 0 => some [.spawn (.new "/w/job.sh") (.ok "/"), .wait 0]
  | 1 => some [.attach (.uuid 5), .refresh 1]
  | _ => none

/-- Task `t` makes operations that need nothing. -/
def goesOn (t n : Nat) : List (Move managerMachine) := List.replicate n (.pass t (.base .go))

/-- A save or a read of the store or of the sink goes well. -/
def goesWell (t : Nat) : Move managerMachine := .pass t (.base (.done (.ok ())))

/-- The second client attaches before the banner is read, and refreshes after the child has
ended. -/
def attachedEarly : List (Move managerMachine) :=
  [.pass 0 (.child (.ok ⟨4242, true, true⟩))] ++ goesOn 0 1 ++ [.pass 0 (.base (.clock 100))] ++
    goesOn 0 2 ++ [goesWell 0] ++ goesOn 0 1 ++ [goesWell 4] ++ goesOn 4 1 ++
    goesOn 1 3 ++ goesOn 2 2 ++ [goesWell 2] ++ goesOn 2 2 ++ [goesWell 2] ++ goesOn 2 2 ++
    goesOn 3 1 ++ [.pass 3 (.base (.exited (.ok (some 0)))), .pass 3 (.base (.clock 200))] ++
    goesOn 3 2 ++ [goesWell 3, goesWell 3] ++ goesOn 3 1 ++ goesOn 0 6 ++
    goesOn 4 1 ++ [goesWell 4] ++ goesOn 4 1

theorem jobs_keep_apart_attached : ∃ c,
    (sessions bannerChild spawnedAndAttached
      (.opened [.atSpawn 3 4242 [] [] none 0] (.countFrom 5))).run
      attachedEarly = some c ∧
    ((c.result 0).isSome = true ∧ (c.result 4).isSome = true ∧ c.world.owned 1 = false ∧
      (c.world.job 1).base.watch.jobid = some 42 ∧
      (c.world.job 1).base.watch.finished = some ⟨some 0, 200⟩) ∧
    JobsApart bannerChild [.atSpawn 3 4242 [] [] none 0] (.countFrom 5) c.world ∧
    ∀ k calls answers, spawnedAndAttached k = some calls → c.result (4 * k) = some answers →
      List.Forall₂ (fun call answer =>
        call.Truthful bannerChild [.atSpawn 3 4242 [] [] none 0] answer c.world) calls answers := by
  have hreached : ∃ c,
      (sessions bannerChild spawnedAndAttached
        (.opened [.atSpawn 3 4242 [] [] none 0] (.countFrom 5))).run
        attachedEarly = some c ∧
      (c.result 0).isSome = true ∧ (c.result 4).isSome = true ∧ c.world.owned 1 = false ∧
        (c.world.job 1).base.watch.jobid = some 42 ∧
        (c.world.job 1).base.watch.finished = some ⟨some 0, 200⟩ :=
    Config.exists_run (by decide +kernel)
  obtain ⟨c, hrun, hc⟩ := hreached
  refine ⟨c, hrun, hc, jobs_keep_apart (fun s hs => ?_) hrun⟩
  rw [List.mem_singleton.mp hs]
  exact Supply.not_ahead_countFrom (by decide)

end Runs

end Tssrun

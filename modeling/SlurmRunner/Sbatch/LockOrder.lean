/-
# The order of the locks

The locks of a manager are taken in one order: the refresh lock of a handle, then the slot of at
most one cache, and under the slot only the command itself runs.  Each of the three caches passes
the batches of the others on, so no task asks for a second slot.  A call that is given up releases
what it held.  So a task waits for a task with a later lock, or for nothing (`lockOrder`), and every
call gives back what it takes (`SbatchManager.rests_client`).

A handle is published on under its refresh lock, and a refresh of a handle that nobody has made
waits for it.
-/
import SlurmRunner.Interact.Progress
import SlurmRunner.Sbatch.Manager

namespace Sbatch

open Text Slurm Interact StateStore

/-! ## 1. The stages of a task

A stage is what a task has in hand: a refresh lock, a slot, and whether a command is on its
way.  The ranks are those of what it may be suspended at: the lock of a handle, the lock of a slot,
and then what the surroundings answer. -/

section Stages

variable {ι : Type} [DecidableEq ι] {K : ι → Type}

/-- What a task has in hand. -/
structure Stage (ι : Type) where
  slot : Option ι
  refresh : Option Nat
  /-- It has started a command and not yet waited for it. -/
  sent : Bool

/-- The order of the locks; a handle is published on under its refresh lock. -/
def Stage.Allows (s : Stage ι) : Op K → Prop
  | .lockRefresh _ => s.refresh = none ∧ s.slot = none
  | .unlockRefresh h => s.refresh = some h
  | .lockSlot _ _ => s.slot = none
  | .unlockSlot i => s.slot = some i
  | .recv => s.sent = true
  | .sendReplace h _ _ => s.refresh = some h
  | _ => True

def Stage.next (s : Stage ι) : (o : Op K) → o.Ans → Stage ι
  | .lockRefresh h, _ => { s with refresh := some h }
  | .unlockRefresh _, _ => { s with refresh := none }
  | .lockSlot i _, _ => { s with slot := some i }
  | .unlockSlot _, _ => { s with slot := none }
  | .send _, _ => { s with sent := true }
  | .recv, _ => { s with sent := false }
  | _, _ => s

variable (K) in
/-- What every call of a manager keeps to. -/
abbrev protocol : Protocol (sig K) where
  Stage := Stage ι
  allows s o := s.Allows o
  next s o a := s.next o a

/-- A task has nothing in hand. -/
def Stage.Idle (s : Stage ι) : Prop := s.slot = none ∧ s.refresh = none

/-- The world is as task `t` expects at stage `s`. -/
structure Expects (t : Nat) (s : Stage ι) (w : World K) : Prop where
  slot : ∀ i, w.slotOwner i = some t ↔ s.slot = some i
  refresh : ∀ h, w.refreshOwner h = some t ↔ s.refresh = some h
  sent : s.sent = true → ∃ c, w.inflight t = some c
  made : ∀ h, s.refresh = some h → h < w.handles

variable {t u : Nat} {s s' : Stage ι} {w w' : World K}

omit [DecidableEq ι] in
/-- The stage speaks of nothing else. -/
theorem Expects.congr (h : Expects t s w) (hslot : w'.slotOwner = w.slotOwner)
    (hrefresh : w'.refreshOwner = w.refreshOwner) (hflight : w'.inflight t = w.inflight t)
    (hhandles : w.handles ≤ w'.handles) : Expects t s w' where
  slot i := by rw [hslot]; exact h.slot i
  refresh x := by rw [hrefresh]; exact h.refresh x
  sent hs := by rw [hflight]; exact h.sent hs
  made x hx := Nat.lt_of_lt_of_le (h.made x hx) hhandles

/-- The owner of a lock that was taken. -/
theorem owner_taken {κ : Type} [DecidableEq κ] {owner : κ → Option Nat} {held : Option κ} {k : κ}
    (h : ∀ x, owner x = some t ↔ held = some x) (hnone : held = none) (x : κ) :
    Function.update owner k (some t) x = some t ↔ some k = some x := by
  by_cases hx : x = k
  · subst hx
    simp
  · rw [Function.update_of_ne hx, h x, hnone]
    simp [Ne.symm hx]

/-- The owner of a lock that was given back. -/
theorem owner_freed {κ : Type} [DecidableEq κ] {owner : κ → Option Nat} {held : Option κ} {k : κ}
    (h : ∀ x, owner x = some t ↔ held = some x) (hheld : held = some k) (x : κ) :
    Function.update owner k none x = some t ↔ none = some x := by
  by_cases hx : x = k
  · subst hx
    simp
  · rw [Function.update_of_ne hx, h x, hheld]
    simp [Ne.symm hx]

/-- The locks of another task are not touched. -/
theorem owner_other {κ : Type} [DecidableEq κ] {owner : κ → Option Nat} {k : κ} {o : Option Nat}
    (hnow : owner k ≠ some u) (hthen : o ≠ some u) (x : κ) :
    Function.update owner k o x = some u ↔ owner x = some u := by
  by_cases hx : x = k
  · subst hx
    simp [hnow, hthen]
  · rw [Function.update_of_ne hx]

/-- Two tasks are not the same owner. -/
theorem some_ne_of_ne (h : u ≠ t) : some t ≠ some u := fun he => h (Option.some.inj he).symm

/-- **What an operation does to the stage of its task.** -/
theorem Expects.own {o : Op K} {i : Input} {a : o.Ans} (h : Expects t s w) (ho : s.Allows o)
    (he : exec t o i w = some (a, w')) : Expects t (s.next o a) w' := by
  cases effect_of_exec he with
  | look hlook => cases o <;> first | exact absurd hlook Bool.false_ne_true | exact h
  | lockSlot hfree => exact ⟨owner_taken h.slot ho, h.refresh, h.sent, h.made⟩
  | unlockSlot => exact ⟨owner_freed h.slot ho, h.refresh, h.sent, h.made⟩
  | putRecent | putEntry | read | save | uuidNow => exact h.congr rfl rfl rfl (Nat.le_refl _)
  | send => exact ⟨h.slot, h.refresh, fun _ => ⟨_, Function.update_self ..⟩, h.made⟩
  | recv hc => exact ⟨h.slot, h.refresh, fun hs => absurd hs Bool.false_ne_true, h.made⟩
  | lockRefresh hlt hfree =>
    refine ⟨h.slot, owner_taken h.refresh ho.1, h.sent, ?_⟩
    rintro _ ⟨⟩
    exact hlt
  | unlockRefresh =>
    refine ⟨h.slot, owner_freed h.refresh ho, h.sent, ?_⟩
    rintro _ ⟨⟩
  | sendReplace hlt => exact h.congr rfl rfl rfl (Nat.le_refl _)
  | newHandle => exact h.congr rfl rfl rfl (Nat.le_succ _)

/-- **What an operation does to the stage of another task.** -/
theorem Expects.other {o : Op K} {i : Input} {a : o.Ans} (h : Expects t s w) (ho : s.Allows o)
    (he : exec t o i w = some (a, w')) (hu : u ≠ t) (h' : Expects u s' w) : Expects u s' w' := by
  cases effect_of_exec he with
  | look hlook => exact h'
  | lockSlot hfree =>
    refine ⟨fun x => ?_, h'.refresh, h'.sent, h'.made⟩
    rw [owner_other (by simp [hfree]) (some_ne_of_ne hu)]
    exact h'.slot x
  | @unlockSlot j =>
    refine ⟨fun x => ?_, h'.refresh, h'.sent, h'.made⟩
    have hj : w.slotOwner j ≠ some u := by
      rw [(h.slot j).mpr ho]
      exact some_ne_of_ne hu
    rw [owner_other hj (by simp)]
    exact h'.slot x
  | putRecent | putEntry | read | save | uuidNow => exact h'.congr rfl rfl rfl (Nat.le_refl _)
  | send => exact h'.congr rfl rfl (Function.update_of_ne hu ..) (Nat.le_refl _)
  | recv hc => exact h'.congr rfl rfl (Function.update_of_ne hu ..) (Nat.le_refl _)
  | lockRefresh hlt hfree =>
    refine ⟨h'.slot, fun x => ?_, h'.sent, h'.made⟩
    rw [owner_other (by simp [hfree]) (some_ne_of_ne hu)]
    exact h'.refresh x
  | @unlockRefresh x₀ =>
    refine ⟨h'.slot, fun x => ?_, h'.sent, h'.made⟩
    have hx₀ : w.refreshOwner x₀ ≠ some u := by
      rw [(h.refresh x₀).mpr ho]
      exact some_ne_of_ne hu
    rw [owner_other hx₀ (by simp)]
    exact h'.refresh x
  | sendReplace hlt => exact h'.congr rfl rfl rfl (Nat.le_refl _)
  | newHandle => exact h'.congr rfl rfl rfl (Nat.le_succ _)

omit [DecidableEq ι] in
/-- A dropped task has given everything back. -/
theorem exists_expects_drop (t : Nat) (w : World K) :
    ∃ s' : Stage ι, s'.Idle ∧ Expects t s' (drop t w) := by
  have hnone : ∀ o : Option Nat, (if o = some t then none else o) ≠ some t := by
    intro o
    split <;> simp_all
  refine ⟨⟨none, none, false⟩, ⟨rfl, rfl⟩, fun i => ?_, fun x => ?_, ?_, fun x hx => ?_⟩
  · exact ⟨fun hi => absurd hi (hnone _), fun hi => by cases hi⟩
  · exact ⟨fun hx => absurd hx (hnone _), fun hx => by cases hx⟩
  · exact fun hs => absurd hs Bool.false_ne_true
  · cases hx

omit [DecidableEq ι] in
/-- The end of another task takes nothing away from this one. -/
theorem Expects.drop_other (hu : u ≠ t) (h : Expects u s w) : Expects u s (drop t w) := by
  have hkeep : ∀ o : Option Nat, (if o = some t then none else o) = some u ↔ o = some u := by
    intro o
    split
    · rename_i ho
      simp [ho, Ne.symm hu]
    · rfl
  refine ⟨fun i => ?_, fun x => ?_, fun hs => ?_, h.made⟩
  · exact (hkeep _).trans (h.slot i)
  · exact (hkeep _).trans (h.refresh x)
  · obtain ⟨c, hc⟩ := h.sent hs
    exact ⟨c, (Function.update_of_ne hu ..).trans hc⟩

/-- The rank of what an operation waits for. -/
def Op.rank : Op K → Nat
  | .lockRefresh _ => 0
  | .lockSlot _ _ => 1
  | _ => 2

omit [DecidableEq ι] in
/-- There are three ranks. -/
theorem Op.rank_le (o : Op K) : o.rank ≤ 2 := by
  cases o <;> simp [Op.rank]

/-- The handle of a refresh has not been made. -/
def Unmade : Op K → World K → Prop
  | .lockRefresh h, w => w.handles ≤ h
  | _, _ => False

/-- The store takes no snapshot. -/
def Input.SaveFails (i : Input) : Prop := i ≠ .saved (.ok ())

/-- An operation that needs no time to pass. -/
theorem exists_exec_of_idle {o : Op K} (i : Input) (hi : i.SaveFails)
    (h : ∀ w₁ : World K, w₁.slotOwner = w.slotOwner → w₁.refreshOwner = w.refreshOwner →
      w₁.inflight = w.inflight → w₁.handles = w.handles → ∃ r, exec t o i w₁ = some r) :
    ∃ (e : Tick) (w₁ : World K) (i : Input) (r : o.Ans × World K),
      tick e w = some w₁ ∧ exec t o i w₁ = some r ∧ i.SaveFails := by
  obtain ⟨w₁, htick⟩ : ∃ w₁, tick ⟨0, w.utc⟩ w = some w₁ := ⟨_, rfl⟩
  obtain ⟨r, he⟩ : ∃ r, exec t o i w₁ = some r := by
    cases htick
    exact h _ rfl rfl rfl rfl
  exact ⟨_, w₁, i, r, htick, he, hi⟩

/-- Nothing but a lock holds a task up. -/
theorem Expects.ready {o : Op K} (h : Expects t s w) (ho : s.Allows o) (hawait : o.await = true) :
    (∃ (e : Tick) (w₁ : World K) (i : Input) (r : o.Ans × World K),
      tick e w = some w₁ ∧ exec t o i w₁ = some r ∧ i.SaveFails) ∨
    (∃ u, ∀ s' : Stage ι, Expects u s' w → ¬ s'.Idle ∧
      ∀ o' : Op K, s'.Allows o' → o'.await = true → o.rank < o'.rank) ∨ Unmade o w := by
  have hgo : Input.go.SaveFails := nofun
  cases o with
  | wake d =>
    exact .inl ⟨⟨d, w.utc⟩, _, .go, _, rfl, if_pos (Nat.le_add_left d w.instant), hgo⟩
  | recv =>
    obtain ⟨c, hc⟩ := h.sent ho
    refine .inl (exists_exec_of_idle (.output (.error [])) nofun fun w₁ _ _ hflight _ => ?_)
    simp [exec, hflight, hc]
  | save snap =>
    refine .inl (exists_exec_of_idle (.saved (.error [])) ?_ fun _ _ _ _ _ => ⟨_, rfl⟩)
    rintro ⟨⟩
  | store => exact .inl (exists_exec_of_idle .go hgo fun _ _ _ _ _ => ⟨_, rfl⟩)
  | lockSlot j requested =>
    cases hj : w.slotOwner j with
    | none =>
      refine .inl (exists_exec_of_idle .go hgo fun w₁ hslot _ _ _ => ?_)
      simp [exec, hslot, hj]
    | some u =>
      -- the owner of a slot runs a command
      refine .inr (.inl ⟨u, fun s' h' => ?_⟩)
      have hslot := (h'.slot j).mp hj
      refine ⟨fun hidle => by simp [hidle.1] at hslot, fun o' ho' hawait' => ?_⟩
      cases o' with
      | lockRefresh x => exact absurd ho'.2 (by simp [hslot])
      | lockSlot i _ => exact absurd ho' (by simp [Stage.Allows, hslot])
      | wake _ | recv | save _ | store => simp [Op.rank]
      | _ => exact absurd hawait' Bool.false_ne_true
  | lockRefresh x =>
    by_cases hlt : x < w.handles
    · cases hx : w.refreshOwner x with
      | none =>
        refine .inl (exists_exec_of_idle .go hgo fun w₁ _ hrefresh _ hhandles => ?_)
        simp [exec, hrefresh, hhandles, hlt, hx]
      | some u =>
        -- the owner of a refresh lock waits for no other one
        refine .inr (.inl ⟨u, fun s' h' => ?_⟩)
        have hrefresh := (h'.refresh x).mp hx
        refine ⟨fun hidle => by simp [hidle.2] at hrefresh, fun o' ho' hawait' => ?_⟩
        cases o' with
        | lockRefresh x => exact absurd ho'.1 (by simp [hrefresh])
        | lockSlot _ _ | wake _ | recv | save _ | store => simp [Op.rank]
        | _ => exact absurd hawait' Bool.false_ne_true
    · exact .inr (.inr (Nat.le_of_not_lt hlt))
  | _ => exact absurd hawait Bool.false_ne_true

/-- What is no await can be done at once. -/
theorem Expects.sync {o : Op K} (h : Expects t s w) (ho : s.Allows o) (hawait : o.await = false) :
    ∃ r, exec t o .go w = some r := by
  cases o with
  | wake _ | lockSlot _ _ | recv | lockRefresh _ | save _ | store =>
    exact absurd hawait.symm Bool.false_ne_true
  | sendReplace x site snap =>
    exact ⟨_, if_pos (h.made x ho)⟩
  | _ => exact ⟨_, rfl⟩

variable (K) in
/-- **The order of the locks of a manager.** -/
def lockOrder : LockOrder (machine K) (protocol K) where
  agrees t s w := Expects t s w
  apart _ _ := True
  idle s := Stage.Idle s
  apart_symm _ := trivial
  rank o := Op.rank o
  top := 2
  rank_le o := Op.rank_le o
  own h ho he := Expects.own h ho he
  other h ho he hu h' _ := ⟨Expects.other h ho he hu h', trivial⟩
  tick he h := by
    cases he
    exact h.congr rfl rfl rfl (Nat.le_refl _)
  drop_own {t _ w} _ := by
    obtain ⟨s', hidle, h'⟩ := exists_expects_drop t w
    exact ⟨s', hidle, h', fun _ _ => trivial⟩
  drop_other hu h := Expects.drop_other hu h
  moves w := ⟨(⟨0, w.utc⟩ : Tick), _, rfl⟩
  absent o w := Unmade o w
  rank_absent {o _} h := by
    cases o <;> first | rfl | exact h.elim
  gives i := Input.SaveFails i
  gives_go := nofun
  sync h ho hawait := Expects.sync h ho hawait
  ready h ho hawait := Expects.ready h ho hawait

end Stages

/-! ## 2. The calls keep the order

Each call is followed through its program.  A query comes back to the stage it began at, a call
takes its refresh lock at the stage where nothing is in hand, and gives it back on every way out. -/

section Programs

variable {ι : Type} {K : ι → Type} {α β : Type} {s : Stage ι}

/-- The program leaves its task at the stage at which it found it. -/
abbrev Steady (s : Stage ι) (p : Prog (sig K) α) : Prop := p.Steady (protocol K) s

/-- The rule of a step in a program. -/
theorem keeps_perform {o : Op K} {f : o.Ans → Prog (sig K) β} {Q : Stage ι → β → Prop}
    (ho : s.Allows o) (hf : ∀ a : o.Ans, (f a).Keeps (protocol K) Q (s.next o a)) :
    (perform o >>= f).Keeps (protocol K) Q s := ⟨ho, hf⟩

/-- The operations that no stage speaks of. -/
def Op.neutral : Op K → Bool
  | .now | .utcNow | .wake _ | .getSlot _ | .putRecent _ _ | .putEntry _ _ | .read _ _ _
  | .borrow _ | .newHandle _ | .save _ | .store | .uuidNow => true
  | _ => false

/-- An operation on no lock does not change the stage. -/
theorem steady_perform {o : Op K} (ho : o.neutral = true) : Steady s (perform o) := by
  refine Prog.keeps_op ?_ fun a => ?_
  · cases o <;> trivial
  · cases o <;> first | rfl | exact absurd ho Bool.false_ne_true

/-- A sleep has no lock in its hands to give back. -/
theorem steady_sleep (d : Nat) : Steady s (sleep d : Prog (sig K) Unit) :=
  (steady_perform rfl).bind fun _ => steady_perform rfl

/-- A command is started and waited for. -/
theorem steady_runCommand (hsent : s.sent = false) (argv : Argv) :
    Steady s (runCommand argv : Prog (sig K) Answer) := by
  refine ⟨trivial, fun _ => ⟨rfl, fun _ => ?_⟩⟩
  obtain ⟨slot, refresh, sent⟩ := s
  cases hsent
  rfl

/-- **A cache** that its task asks without holding a slot, if the batches that it asks for are
answered under the slot. -/
theorem steady_cachingCapture {i : ι} [LinearOrder (K i)] {shape : QueryShape (K i)} {ttl : Nat}
    {inner : Dispatcher K} {argv : Argv} (hslot : s.slot = none)
    (hinner : shape.parse argv = none → Steady s (inner argv))
    (hbatch : ∀ batch, Steady { s with slot := some i } (inner (shape.build batch))) :
    Steady s (cachingCapture i shape ttl inner argv) := by
  have hback : ({ s with slot := none } : Stage ι) = s := by
    obtain ⟨slot, refresh, sent⟩ := s
    cases hslot
    rfl
  unfold cachingCapture
  cases hparse : shape.parse argv with
  | none => exact hinner hparse
  | some requested =>
    refine keeps_perform hslot fun _ => ?_
    refine Prog.Steady.then (steady_perform rfl) fun slot => ?_
    refine Prog.Steady.then (steady_perform rfl) fun t => ?_
    refine Prog.Steady.then (steady_perform rfl) fun _ => ?_
    cases replayable slot.entry ttl requested t with
    | some entry => exact keeps_perform rfl fun _ => hback
    | none =>
      refine Prog.Steady.then (steady_perform rfl) fun _ => ?_
      refine (hbatch _).then fun fetched => ?_
      refine Prog.Steady.then (steady_perform rfl) fun _ => ?_
      refine Prog.Steady.then (steady_perform rfl) fun _ => ?_
      exact keeps_perform rfl fun _ => hback

/-- A dispatcher that a task may ask while it holds no slot. -/
def Orderly (d : Dispatcher K) : Prop :=
  ∀ (s : Stage ι), s.slot = none → s.sent = false → ∀ argv, Steady s (d argv)

/-- The dispatcher of a manager takes one slot at a time. -/
theorem orderly_handleDispatcher (ttl : Nat) : Orderly (handleDispatcher ttl runCommand) := by
  intro s hslot hsent argv
  rcases handleDispatcher_cases ttl argv with ⟨inner, rfl, heq, hbatch⟩ |
    ⟨inner, ks, hparse, heq, hbatch⟩ | ⟨ks, hparse, heq⟩ | ⟨heq, -⟩
  · rw [heq]
    refine steady_cachingCapture hslot (fun h => ?_) fun batch => ?_
    · rw [qgroup_parse_qgroupArgv] at h
      cases h
    · rw [hbatch]
      exact steady_runCommand (s := { s with slot := some Tool.qgroup }) hsent _
  · rw [heq]
    refine steady_cachingCapture hslot (fun h => ?_) fun batch => ?_
    · rw [hparse] at h
      cases h
    · rw [hbatch]
      exact steady_runCommand (s := { s with slot := some Tool.squeue }) hsent _
  · rw [heq]
    exact steady_cachingCapture hslot (fun _ => steady_runCommand hsent _) fun batch =>
      steady_runCommand (s := { s with slot := some Tool.sacct }) hsent _
  · rw [heq]
    exact steady_runCommand hsent _

variable {d : Dispatcher K} {h : Nat}

/-- A query comes back to the stage it began at. -/
theorem steady_dynView (hd : Orderly d) (hslot : s.slot = none) (hsent : s.sent = false)
    (argv : Argv) : Steady s (dynView d argv) := by
  refine Prog.Steady.bind (steady_perform rfl) fun _ => ?_
  refine (hd s hslot hsent argv).bind fun r => ?_
  exact Prog.Steady.bind (steady_perform rfl) fun _ => Prog.steady_ret _

/-- So does an observation, whichever commands it takes. -/
theorem steady_observe (hd : Orderly d) (hslot : s.slot = none) (hsent : s.sent = false)
    (snap : SbatchJobSnapshot) : Steady s (observe (dynView d) snap) := by
  have hview := fun argv => steady_dynView hd hslot hsent argv
  unfold observe
  cases snap.arrayTaskId with
  | some idx => exact (hview _).bind fun r => Prog.steady_ret _
  | none =>
    refine (hview _).bind fun rq => ?_
    cases qgroupStatus snap.jobid rq with
    | some status => exact Prog.steady_ret _
    | none => exact (hview _).bind fun r => Prog.steady_ret _

/-- So does the resolution of an outcome. -/
theorem steady_resolve (hd : Orderly d) (hslot : s.slot = none) (hsent : s.sent = false)
    (snap : SbatchJobSnapshot) : Steady s (resolve (dynView d) snap) := by
  have hview := fun argv => steady_dynView hd hslot hsent argv
  unfold resolve
  cases snap.arrayTaskId with
  | some idx => exact (hview _).bind fun r => Prog.steady_ret _
  | none =>
    refine (hview _).bind fun r => ?_
    rcases squeueStatus snap r with e | _ | status
    · exact Prog.steady_ret _
    · exact (hview _).bind fun r => Prog.steady_ret _
    · exact Prog.steady_ret _

/-- A publication is made under the refresh lock. -/
theorem steady_saveAndPublish (hlock : s.refresh = some h) (site : Site)
    (snap : SbatchJobSnapshot) : Steady s (saveAndPublish h site snap : Prog (sig K) _) := by
  refine Prog.Steady.bind (steady_perform rfl) fun r => ?_
  cases r with
  | error e => exact Prog.steady_ret _
  | ok _ => exact keeps_perform hlock fun _ => rfl

/-- Between two calls: nothing is in hand. -/
def Stage.rest : Stage ι := ⟨none, none, false⟩

/-- In a critical section of handle `h`. -/
def Stage.under (h : Nat) : Stage ι := ⟨none, some h, false⟩

/-- The program is started between two calls and gives back what it takes. -/
abbrev Rests (p : Prog (sig K) α) : Prop := Steady (Stage.rest : Stage ι) p

/-- A critical section under the refresh lock. -/
theorem rests_section {p : Prog (sig K) α} (hp : Steady (Stage.under h) p) : Rests (do
    lockRefresh h
    let r ← p
    unlockRefresh h
    return r) := by
  refine keeps_perform ⟨rfl, rfl⟩ fun _ => ?_
  refine Prog.Steady.then hp fun r => ?_
  exact keeps_perform (s := Stage.under h) rfl fun _ => rfl

/-- **A refresh takes its lock and gives it back**, whatever the probe and the save are answered. -/
theorem rests_refresh (hd : Orderly d) (h : Nat) : Rests (refresh d h) := by
  have hbody : ∀ snap t, Steady (Stage.under h) (refreshLocked d h snap t) := by
    intro snap t
    rw [refreshLocked_eq]
    refine (steady_observe (s := Stage.under h) hd rfl rfl snap).bind fun r => ?_
    cases r with
    | error e => exact Prog.steady_ret _
    | ok row => exact steady_saveAndPublish (s := Stage.under h) rfl _ _
  have hsection := rests_section (p := (do
    let snap ← borrow h
    let t ← utcNow
    refreshLocked d h snap t : Prog (sig K) _))
    (Prog.Steady.bind (steady_perform rfl) fun snap =>
    Prog.Steady.bind (steady_perform rfl) fun t =>
      hbody snap t)
  simpa only [refresh, bind_assoc] using hsection

/-- The finalizer works under the lock. -/
theorem steady_finalizeLocked (hd : Orderly d) (snap : SbatchJobSnapshot) :
    Steady (Stage.under h) (finalizeLocked d h snap) := by
  rw [finalizeLocked_eq]
  refine (steady_resolve (s := Stage.under h) hd rfl rfl snap).bind fun r => ?_
  cases r with
  | error e => exact Prog.steady_ret _
  | ok outcome =>
    dsimp only
    split_ifs
    · exact Prog.steady_ret _
    · exact Prog.Steady.bind (steady_perform rfl) fun t => steady_saveAndPublish rfl _ _
    · exact Prog.Steady.bind (steady_perform rfl) fun t => steady_saveAndPublish rfl _ _

/-- The lock is given back between the two critical sections. -/
theorem rests_refreshWithSacct (hd : Orderly d) (h : Nat) : Rests (refreshWithSacct d h) := by
  refine (rests_refresh hd h).bind fun r => ?_
  cases r with
  | error e => exact Prog.steady_ret _
  | ok snap =>
    dsimp only
    split_ifs
    · exact Prog.steady_ret _
    · exact Prog.steady_ret _
    · exact rests_section (steady_finalizeLocked hd snap)

/-- A wait holds nothing between its refreshes. -/
theorem rests_waitTerminalFrom (hd : Orderly d) (h pollInterval : Nat) : ∀ rounds failures,
    Rests (waitTerminalFrom d h pollInterval rounds failures)
  | 0, _ => Prog.steady_ret _
  | rounds + 1, failures => by
    unfold waitTerminalFrom
    refine (rests_refresh hd h).bind fun r => ?_
    cases r with
    | ok snap =>
      dsimp only
      split_ifs
      · exact Prog.steady_ret _
      · exact Prog.steady_ret _
      · exact (steady_sleep _).bind fun _ => rests_waitTerminalFrom hd h _ _ _
    | error e =>
      dsimp only
      split_ifs
      · exact Prog.steady_ret _
      · exact (steady_sleep _).bind fun _ => rests_waitTerminalFrom hd h _ _ _

/-! ### Calls that make handles -/

/-- An operation on no lock. -/
theorem rests_perform {o : Op K} (ho : o.neutral = true) : Rests (perform o) := steady_perform ho

/-- A command without a lock. -/
theorem rests_runCommand (argv : Argv) : Rests (runCommand argv : Prog (sig K) Answer) :=
  steady_runCommand rfl argv

/-- The submission is a command. -/
theorem rests_submit (argv : Argv) : Rests (submit argv : Prog (sig K) _) := by
  refine (rests_runCommand argv).bind fun r => ?_
  cases r with
  | error e => exact Prog.steady_ret _
  | ok out =>
    dsimp only
    split_ifs
    · cases parseSubmittedJobid out.stdout <;> exact Prog.steady_ret _
    · exact Prog.steady_ret _

/-- A spawn holds no lock at all. -/
theorem rests_spawn (cmd : SbatchCmd) (dirs : CurrentDirs) :
    Rests (spawn cmd dirs : Prog (sig K) _) := by
  unfold spawn
  cases cmd.buildArgv dirs.chdir dirs.script with
  | error e => exact Prog.steady_ret _
  | ok argv =>
    refine (rests_submit argv).bind fun r => ?_
    cases r with
    | error e => exact Prog.steady_ret _
    | ok jobid =>
      refine Prog.Steady.bind (rests_perform rfl) fun uuid => ?_
      cases scriptPath cmd dirs.submitted with
      | error e => exact Prog.steady_ret _
      | ok path =>
        refine Prog.Steady.bind (rests_perform rfl) fun submittedAt => ?_
        refine Prog.Steady.bind (rests_perform rfl) fun r => ?_
        cases r with
        | error source => exact Prog.steady_ret _
        | ok _ => exact Prog.Steady.bind (rests_perform rfl) fun h => Prog.steady_ret _

/-- The tasks are saved one after another, without a lock. -/
theorem rests_spawnTasks (cmd : SbatchCmd) (argv : Argv) (path : Str) (jobid : JobId) :
    ∀ indices, Rests (spawnTasks cmd argv path jobid indices : Prog (sig K) _)
  | [] => Prog.steady_ret _
  | idx :: indices => by
    refine Prog.Steady.bind (rests_perform rfl) fun uuid => ?_
    refine Prog.Steady.bind (rests_perform rfl) fun submittedAt => ?_
    refine Prog.Steady.bind (rests_perform rfl) fun r => ?_
    cases r with
    | error source => exact Prog.steady_ret _
    | ok _ =>
      refine Prog.Steady.bind (rests_perform rfl) fun h => ?_
      refine Prog.Steady.bind (rests_spawnTasks cmd argv path jobid indices) fun r => ?_
      cases r <;> exact Prog.steady_ret _

/-- So a `spawn_array` holds none. -/
theorem rests_spawnArray (cmd : SbatchCmd) (dirs : CurrentDirs) (arraySpec : SlurmArraySpec) :
    Rests (spawnArray cmd dirs arraySpec : Prog (sig K) _) := by
  unfold spawnArray
  rcases expandArrayIndices arraySpec with _ | _ | ⟨idx, indices⟩
  · exact Prog.steady_ret _
  · exact Prog.steady_ret _
  · dsimp only
    cases SbatchCmd.buildArgv _ dirs.chdir dirs.script with
    | error e => exact Prog.steady_ret _
    | ok argv =>
      refine (rests_submit argv).bind fun r => ?_
      cases r with
      | error e => exact Prog.steady_ret _
      | ok masterJobid =>
        dsimp only
        cases scriptPath _ dirs.submitted with
        | error e => exact Prog.steady_ret _
        | ok path => exact (rests_spawnTasks _ _ _ _ _).bind fun r => Prog.steady_ret _

/-- Attaching only makes handles. -/
theorem rests_of_attaches {p : Prog (sig K) α} (hp : p.Uses Attaches) : Rests p := by
  refine Prog.steady_of_uses hp fun o ho => ?_
  cases o <;> first | exact ho.elim | exact ⟨trivial, fun _ => rfl⟩

end Programs

/-! ### The calls of a manager -/

section Calls

/-- Nor does a `run_with` between its calls. -/
theorem rests_runWith (cmd : SbatchCmd) (dirs : CurrentDirs) (pollInterval rounds : Nat) :
    Rests (runWith cmd dirs pollInterval rounds) := by
  have hd := orderly_handleDispatcher pollInterval
  unfold runWith
  dsimp only
  split_ifs
  · exact Prog.steady_ret _
  · refine (rests_spawn cmd dirs).bind fun r => ?_
    cases r with
    | error e => exact Prog.steady_ret _
    | ok h =>
      refine Prog.Steady.bind (rests_perform rfl) fun snapshot => ?_
      refine (rests_waitTerminalFrom hd h _ _ _).bind fun r => ?_
      rcases r with _ | e | snap
      · exact Prog.steady_ret _
      · exact Prog.steady_ret _
      · refine (rests_refreshWithSacct hd h).bind fun r => ?_
        cases r with
        | error e => exact Prog.steady_ret _
        | ok snap =>
          dsimp only
          split
          · exact Prog.steady_ret _
          · split_ifs <;> exact Prog.steady_ret _

/-- A cancellation is a command. -/
theorem rests_cancel (scancelBin : Str) (j : JobId) :
    Rests (cancel scancelBin j : Prog (sig Key) _) := by
  refine (rests_runCommand _).bind fun r => ?_
  cases r with
  | error e => exact Prog.steady_ret _
  | ok out =>
    dsimp only
    split_ifs <;> exact Prog.steady_ret _

/-- The result does not matter. -/
theorem Rests.map {α β : Type} {p : Prog (sig Key) α} (f : α → β) (hp : Rests p) :
    Rests (f <$> p) := by
  rw [map_eq_pure_bind]
  exact hp.bind fun a => Prog.steady_ret _

/-- **Every call keeps the order of the locks** and gives back what it took. -/
theorem SbatchManager.rests_program (mgr : SbatchManager) (rounds : Nat) (call : ManagerCall) :
    Rests (mgr.program rounds call) := by
  have hd := orderly_handleDispatcher mgr.pollInterval
  cases call with
  | refresh h => exact Rests.map _ (rests_refresh hd h)
  | refreshWithSacct h => exact Rests.map _ (rests_refreshWithSacct hd h)
  | waitTerminal h pollInterval => exact Rests.map _ (rests_waitTerminalFrom hd h _ _ _)
  | spawn dirs => exact Rests.map _ (rests_spawn mgr.cmd dirs)
  | spawnArray dirs arraySpec => exact Rests.map _ (rests_spawnArray mgr.cmd dirs arraySpec)
  | attachUuid u => exact Rests.map _ (rests_of_attaches (attachUuid_attaches u))
  | attachJobid j => exact Rests.map _ (rests_of_attaches (attachJobid_attaches mgr.scan j))
  | attachArrayJobid j =>
    exact Rests.map _ (rests_of_attaches (attachArrayJobid_attaches mgr.scan j))
  | attachFile decoded => exact Rests.map _ (rests_of_attaches (attachFile_attaches decoded))
  | runWith dirs => exact Rests.map _ (rests_runWith mgr.cmd dirs mgr.pollInterval rounds)
  | cancel j => exact Rests.map _ (rests_cancel mgr.scancelBin j)

/-- **A client has nothing in hand between its calls**, and when it is done. -/
theorem SbatchManager.rests_client (mgr : SbatchManager) (rounds : Nat) (client : ManagerClient) :
    Rests (mgr.client rounds client) := by
  induction client with
  | done => exact Prog.steady_ret _
  | call c next ih =>
    exact (mgr.rests_program rounds c).bind fun a => (ih a).bind fun as => Prog.steady_ret _

end Calls

end Sbatch

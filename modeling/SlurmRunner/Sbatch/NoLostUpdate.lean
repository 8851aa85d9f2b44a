/-
# Concurrent calls on one handle

Clones of a handle share its watch channel and its refresh lock.  `refresh` reads and publishes in
one critical section; `refresh_with_sacct` publishes a second time in another one, from the snapshot
that it carried over from the first.  So an update can be lost exactly where that snapshot is out of
date when the second section publishes.

The dispatcher is a bare one: its answers are arbitrary.
-/
import SlurmRunner.Sbatch.HandleSpec

namespace Sbatch

open Text Slurm Interact

/-! ## 1. What it is to lose no update -/

/-- `snap'` keeps the recorded outcome of `snap` and is not an older observation. -/
def Keeps (snap snap' : SbatchJobSnapshot) : Prop :=
  (snap.lifecycle.finished = none ∨ snap'.lifecycle.finished = snap.lifecycle.finished) ∧
    snap.NotOlder snap'

instance (snap snap' : SbatchJobSnapshot) : Decidable (Keeps snap snap') :=
  inferInstanceAs (Decidable (_ ∧ _))

theorem Keeps.trans {x y z : SbatchJobSnapshot} (h : Keeps x y) (h' : Keeps y z) : Keeps x z := by
  refine ⟨?_, h.2.trans h'.2⟩
  rcases h.1 with hx | hxy
  · exact .inl hx
  · rcases h'.1 with hy | hyz
    · exact .inl (hxy ▸ hy)
    · exact .inr (hyz.trans hxy)

/-- When the finalizer publishes, the snapshot that it carried is still good: no outcome has been
recorded and, where it is the carried observation that is published, no newer one has been made. -/
def Fresh (e : Write) : Prop :=
  match e.site with
  | .hit | .vanish => True
  | .rollback _ => e.before.lifecycle.finished = none
  | .stamp carried => e.before.lifecycle.finished = none ∧ e.before.NotOlder carried

instance (e : Write) : Decidable (Fresh e) :=
  match e with
  | { site := .hit, .. } => inferInstanceAs (Decidable True)
  | { site := .vanish, .. } => inferInstanceAs (Decidable True)
  | { site := .rollback _, before, .. } =>
    inferInstanceAs (Decidable (before.lifecycle.finished = none))
  | { site := .stamp carried, before, .. } =>
    inferInstanceAs (Decidable (before.lifecycle.finished = none ∧ before.NotOlder carried))

/-! ## 2. What each site publishes -/

/-- The parts of a published snapshot that matter here. -/
def Published (e : Write) : Prop :=
  match e.site with
  | .hit | .vanish => e.after.lifecycle.finished = e.before.lifecycle.finished
  | .rollback _ => True
  | .stamp carried => e.after.lifecycle.lastObservedAt = carried.lifecycle.lastObservedAt

/-- A fresh write keeps what was published before it. -/
theorem Published.keeps {e : Write} (hpub : Published e) (hadv : Advances e) (hfresh : Fresh e) :
    Keeps e.before e.after := by
  unfold Published Advances Fresh at *
  cases hsite : e.site with
  | hit | vanish =>
    simp only [hsite] at hpub hadv
    exact ⟨.inr hpub, hadv⟩
  | rollback carried =>
    simp only [hsite] at hadv hfresh
    exact ⟨.inl hfresh, hadv⟩
  | stamp carried =>
    simp only [hsite] at hpub hfresh
    refine ⟨.inl hfresh.1, ?_⟩
    rw [SbatchJobSnapshot.notOlder_iff] at hfresh ⊢
    rw [hpub]
    exact hfresh.2

/-- Every write is as its site publishes, over a bare dispatcher and with a clock that matters. -/
def updateAudit : Audit Key where
  shape := toolShape
  quiet _ := False
  holds _ := none
  timely := True
  first _ _ := True
  read := BareRead
  write e _ _ _ := Published e
  read_mono hs h := h.mono hs
  write_mono _ _ h := h

theorem updateAudit_refresh (t h : Nat) : RefreshAllowed updateAudit t h := by
  intro w₁ w₂ new row _ _
  cases row <;> rfl

theorem updateAudit_finalize (t h : Nat) : FinalizeAllowed updateAudit t h [] :=
  fun _ _ _ _ _ _ _ _ _ _ => ⟨fun _ => trivial, fun _ _ => rfl⟩

/-! ## 3. Every run -/

/-- **No update is lost while the finalizers' snapshots are fresh.**  Any number of concurrent
calls, any answers, any interleaving, any dropped calls; the wall clock is never set back. -/
theorem no_update_lost {uuids : Supply Nat} {utc n : Nat} {snaps : Nat → SbatchJobSnapshot}
    {store : Store}
    {tasks : Nat → Option (Prog (sig Key) (Except Str SbatchJobSnapshot))}
    {ms : List (Move (machine Key))} {c : Config (machine Key) (Except Str SbatchJobSnapshot)}
    (htasks : Clients runCommand tasks) (hclock : ∀ h, Timely utc (snaps h))
    (hrun : Config.run ms ⟨World.start uuids utc n snaps store, tasks⟩ = some c)
    (hsteady : c.world.steady = true) (hfresh : ∀ e ∈ c.world.writes, Fresh e) (h : Nat) :
    (c.world.history h).Pairwise fun newer older => Keeps older newer := by
  have hi : Inv updateAudit c.world :=
    htasks.inv (fun t => serves_runCommand audit_under rfl (fun _ _ _ => trivial)
      (fun _ h => h) fun _ => rfl)
      (fun _ h => h) updateAudit_refresh updateAudit_finalize
      (inv_start (fun _ => hclock) fun _ => trivial)
      (fun t => idle_start t uuids utc n snaps store) (fun _ => rfl) hrun
  refine hi.pairwise_history (R := Keeps) Keeps.trans fun e he _ => ?_
  obtain ⟨older, -, -, hpub⟩ := hi.write_of_mem he
  exact hpub.keeps (hi.advances trivial hsteady e he) (hfresh e he)

/-- Two clones of a handle, each in one call of `refresh_with_sacct`. -/
def twoFinalizers : Config (machine Key) (Except Str SbatchJobSnapshot) :=
  ⟨World.start (.countFrom 0) 0 1 (fun _ => .submitted 1 7 none) [],
    fun t => if t < 2 then some (refreshWithSacct runCommand 0) else none⟩

/-- Both see the job vanish; task 1 stamps its outcome, then task 0 does, a second later. -/
def stampedTwice : List (Move (machine Key)) :=
  [passes 0, prints 0 "", prints 0 "", saves 0,
   passes 1, prints 1 "", prints 1 "", saves 1,
   passes 1, prints 1 "", prints 1 "7|COMPLETED|None|0:0", saves 1,
   waits 1 1,
   passes 0, prints 0 "", prints 0 "7|COMPLETED|None|0:0", saves 0]

set_option maxRecDepth 10000 in
/-- One call alone: its vanish and its stamp are both kept. -/
theorem no_update_lost_once : ∃ c, twoFinalizers.run (stampedTwice.drop 4 |>.take 8) = some c ∧
    (c.world.writes.length = 2 ∧ c.world.steady = true ∧ (∀ e ∈ c.world.writes, Fresh e)) ∧
    (c.world.history 0).Pairwise fun newer older => Keeps older newer := by
  obtain ⟨c, hrun, hfacts⟩ : ∃ c, twoFinalizers.run (stampedTwice.drop 4 |>.take 8) = some c ∧
      (c.world.writes.length = 2 ∧ c.world.steady = true ∧ ∀ e ∈ c.world.writes, Fresh e) :=
    Config.exists_run (by decide +kernel)
  have htasks : Clients runCommand twoFinalizers.tasks := by
    intro t p ht
    simp only [twoFinalizers, Option.ite_none_right_eq_some, Option.some.injEq] at ht
    exact ⟨0, .inr ht.2.symm⟩
  exact ⟨c, hrun, hfacts, no_update_lost htasks (fun _ x hx => by cases hx) hrun hfacts.2.1
    hfacts.2.2 0⟩

set_option maxRecDepth 10000 in
/-- **An update is lost.**  The second stamp replaces the outcome that the first one recorded. -/
theorem stamped_twice : ∃ c, twoFinalizers.run stampedTwice = some c ∧
    (∀ s ∈ c.world.saves, s.result = .ok ()) ∧ c.world.steady = true ∧
    ¬ (c.world.history 0).Pairwise fun newer older => Keeps older newer :=
  Config.exists_run (by decide +kernel)

end Sbatch

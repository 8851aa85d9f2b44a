/-
# Waiting for a terminal snapshot

`wait_terminal` refreshes before it looks at anything, so what it returns is a function of the
outcomes of its refreshes alone.  A handle whose snapshot is already finished is answered for by its
store, if it has one.
-/
import SlurmRunner.Tssrun.Handle

namespace Tssrun

open Text Interact

/-! ## 1. Handles with and without a store

A `refresh` of a handle without a store is an error, and so `wait_terminal` returns at once. -/

/-- `TssrunRefreshError`, with the one of a handle that has no store. -/
inductive RefreshError where
  | noStore
  | refresh (e : TssrunRefreshError)
deriving DecidableEq, Repr

/-- `TssrunJobHandle::refresh`. -/
def refreshWith (store : Bool) : Prog sig (Except RefreshError TssrunJobSnapshot) :=
  if store then do
    let r ← refresh
    return r.mapError .refresh
  else return .error .noStore

/-- `TssrunJobHandle::wait_terminal`, for so many rounds; `none` when it still polls then. -/
def waitTerminalWith (store : Bool) :
    Nat → Prog sig (Option (Except RefreshError TssrunJobSnapshot))
  | 0 => return none
  | rounds + 1 => do
    match ← refreshWith store with
    | .error e => return some (.error e)
    | .ok snap =>
      if snap.finished.isSome then
        return some (.ok snap)
      else
        sleep
        waitTerminalWith store rounds

/-- With a store these are the calls of `Tssrun.Handle`. -/
theorem waitTerminalWith_store (rounds : Nat) : waitTerminalWith true rounds =
    (waitTerminal rounds >>= fun r => return r.map (Except.mapError .refresh)) := by
  induction rounds with
  | zero => rfl
  | succ rounds ih =>
    rw [waitTerminalWith, waitTerminal, refreshWith, if_pos rfl, bind_assoc, bind_assoc]
    refine bind_congr fun r => ?_
    cases r with
    | error e => rfl
    | ok snap =>
      rw [pure_bind]
      simp only [Except.mapError]
      split
      · rfl
      · rw [bind_assoc]
        exact bind_congr fun _ => ih

/-! ## 2. What a call meets

The surroundings give the answer of each load, and the wait returns the outcome of the first refresh
that ends it. -/

/-- The surroundings of a call: what the watch channel has at its `k`-th refresh, and what the store
answers there. -/
structure Surroundings where
  seen : Nat → TssrunJobSnapshot
  answers : Nat → Except Str (Option TssrunJobSnapshot)

/-- The answers to the operations of a call, after `k` loads. -/
def Surroundings.script (s : Surroundings) : (o : sig.Op) → Nat → sig.Ans o × Nat
  | Op.borrow, k => (s.seen k, k)
  | Op.load, k => (s.answers k, k + 1)
  | Op.sendReplace _, k | Op.sleep, k | Op.nextLine, k | Op.setFinished _, k => ((), k)
  | Op.setJobid _, k | Op.setNode _, k => (false, k)
  | Op.append _ _, k | Op.save _, k | Op.flush, k => (Except.ok (), k)
  | Op.childWait, k => (Except.ok none, k)
  | Op.nowUnix, k => ((0 : Int), k)

/-- The call returns `r`. -/
def WaitReturns (store : Bool) (s : Surroundings) (r : Except RefreshError TssrunJobSnapshot) :
    Prop :=
  ∃ rounds, ((waitTerminalWith store rounds).replay s.script 0).2 = some r

/-- The outcome of the `k`-th refresh. -/
def Surroundings.outcome (s : Surroundings) (store : Bool) (k : Nat) :
    Except RefreshError TssrunJobSnapshot :=
  if store then
    match s.answers k with
    | .error e => .error (.refresh (.store e))
    | .ok none => .error (.refresh (.notFound (s.seen k).uuid))
    | .ok (some snap) => .ok snap
  else .error .noStore

/-- A refresh that ends the wait: an error, or a finished snapshot. -/
def EndsWait : Except RefreshError TssrunJobSnapshot → Prop
  | .error _ => True
  | .ok snap => snap.finished.isSome = true

/-- `r` is the outcome of the first refresh that ends the wait. -/
def FirstEnd (store : Bool) (s : Surroundings) (r : Except RefreshError TssrunJobSnapshot) : Prop :=
  ∃ k, s.outcome store k = r ∧ EndsWait r ∧ ∀ j < k, ¬ EndsWait (s.outcome store j)

/-- A refresh with a store asks for the watch value, loads and publishes. -/
theorem refreshWith_bind {α : Type} (f : Except RefreshError TssrunJobSnapshot → Prog sig α) :
    (refreshWith true >>= f) = .ask .borrow fun current => .ask .load fun answer =>
      match answer with
      | .error e => f (.error (.refresh (.store e)))
      | .ok none => f (.error (.refresh (.notFound current.uuid)))
      | .ok (some snap) => .ask (.sendReplace snap) fun _ => f (.ok snap) := by
  refine congrArg (Prog.ask (E := sig) Op.borrow) (funext fun current => ?_)
  refine congrArg (Prog.ask (E := sig) Op.load) (funext fun answer => ?_)
  rcases answer with e | _ | snap <;> rfl

/-- One round: the outcome of the refresh, or the rounds after it. -/
theorem replay_succ (store : Bool) (s : Surroundings) (rounds k : Nat) :
    ((waitTerminalWith store (rounds + 1)).replay s.script k).2 =
      match s.outcome store k with
      | .error e => some (.error e)
      | .ok snap =>
        if snap.finished.isSome then some (.ok snap)
        else ((waitTerminalWith store rounds).replay s.script (k + 1)).2 := by
  cases store with
  | false => rfl
  | true =>
    rw [waitTerminalWith, refreshWith_bind]
    unfold Surroundings.outcome
    rw [if_pos rfl]
    simp only [Prog.replay, Surroundings.script]
    rcases hanswer : s.answers k with e | _ | snap
    · rfl
    · rfl
    · simp only [Prog.replay, Surroundings.script]
      split
      · rfl
      · rfl

/-- The rounds end with the first outcome that ends the wait, if there are enough of them. -/
theorem replay_eq_some_iff {store : Bool} {s : Surroundings}
    {r : Except RefreshError TssrunJobSnapshot} {rounds k : Nat} :
    ((waitTerminalWith store rounds).replay s.script k).2 = some r ↔
      ∃ n < rounds, s.outcome store (k + n) = r ∧ EndsWait r ∧
        ∀ j < n, ¬ EndsWait (s.outcome store (k + j)) := by
  induction rounds generalizing k with
  | zero => simp [waitTerminalWith, Prog.replay]
  | succ rounds ih =>
    have hshift : ∀ n, k + 1 + n = k + (n + 1) := fun n => by omega
    have ih := @ih (k + 1)
    simp only [hshift] at ih
    rw [replay_succ]
    constructor
    · intro h
      cases hout : s.outcome store k with
      | error e =>
        rw [hout] at h
        cases h
        exact ⟨0, Nat.succ_pos rounds, hout, trivial, fun j hj => absurd hj (Nat.not_lt_zero j)⟩
      | ok snap =>
        rw [hout] at h
        dsimp only at h
        split at h
        · rename_i hfin
          cases h
          exact ⟨0, Nat.succ_pos rounds, hout, hfin, fun j hj => absurd hj (Nat.not_lt_zero j)⟩
        · rename_i hfin
          obtain ⟨n, hn, hr, hends, hbefore⟩ := ih.mp h
          refine ⟨n + 1, Nat.succ_lt_succ hn, hr, hends, fun j hj => ?_⟩
          cases j with
          | zero =>
            rw [Nat.add_zero, hout]
            exact hfin
          | succ j => exact hbefore j (Nat.lt_of_succ_lt_succ hj)
    · rintro ⟨n, hn, hr, hends, hbefore⟩
      cases n with
      | zero =>
        rw [Nat.add_zero] at hr
        rw [hr]
        cases r with
        | error e => rfl
        | ok snap => exact if_pos hends
      | succ n =>
        have hfirst := hbefore 0 (Nat.succ_pos n)
        rw [Nat.add_zero] at hfirst
        cases hout : s.outcome store k with
        | error e =>
          rw [hout] at hfirst
          exact absurd trivial hfirst
        | ok snap =>
          rw [hout] at hfirst
          refine Eq.trans (if_neg hfirst)
            (ih.mpr ⟨n, Nat.lt_of_succ_lt_succ hn, hr, hends, fun j hj =>
            hbefore (j + 1) (Nat.succ_lt_succ hj)⟩)

/-- **What a call returns** is the outcome of the first refresh that ends the wait. -/
theorem waitReturns_iff {store : Bool} {s : Surroundings}
    {r : Except RefreshError TssrunJobSnapshot} : WaitReturns store s r ↔ FirstEnd store s r := by
  unfold WaitReturns FirstEnd
  simp only [replay_eq_some_iff, Nat.zero_add]
  constructor
  · rintro ⟨rounds, n, -, h⟩
    exact ⟨n, h⟩
  · rintro ⟨n, h⟩
    exact ⟨n + 1, n, Nat.lt_succ_self n, h⟩

/-! ## 3. The current snapshot

Whether the snapshot of the handle is finished already plays no part: a refresh comes first. -/

/-- What `wait_terminal` is for: a finished current snapshot is returned, and otherwise the first
refresh that ends the wait decides. -/
def MeetsWait (current : TssrunJobSnapshot) (store : Bool) (s : Surroundings) : Prop :=
  (current.finished.isSome = true → ∀ r, WaitReturns store s r ↔ r = .ok current) ∧
    (current.finished = none → ∀ r, WaitReturns store s r ↔ FirstEnd store s r)

/-- The store says of the job what the handle knows, after snapshots that are not finished. -/
def StoreAgrees (current : TssrunJobSnapshot) (s : Surroundings) : Prop :=
  ∃ k, s.answers k = .ok (some current) ∧
    ∀ j < k, ∃ snap, s.answers j = .ok (some snap) ∧ snap.finished = none

theorem outcome_eq_ok {store : Bool} {s : Surroundings} {k : Nat} {snap : TssrunJobSnapshot} :
    s.outcome store k = .ok snap ↔ store = true ∧ s.answers k = .ok (some snap) := by
  unfold Surroundings.outcome
  cases store with
  | false => simp
  | true =>
    rw [if_pos rfl]
    rcases s.answers k with e | _ | snap' <;> simp

theorem not_endsWait_iff {store : Bool} {s : Surroundings} {k : Nat} :
    ¬ EndsWait (s.outcome store k) ↔
      store = true ∧ ∃ snap, s.answers k = .ok (some snap) ∧ snap.finished = none := by
  cases hout : s.outcome store k with
  | error e =>
    have hnone :
        ¬ (store = true ∧ ∃ snap, s.answers k = .ok (some snap) ∧ snap.finished = none) := by
      rintro ⟨hstore, snap, hanswer, -⟩
      rw [outcome_eq_ok.mpr ⟨hstore, hanswer⟩] at hout
      cases hout
    exact iff_of_false (fun h => h trivial) hnone
  | ok snap =>
    obtain ⟨hstore, hanswer⟩ := outcome_eq_ok.mp hout
    simp [EndsWait, hstore, hanswer]

/-- **The wait does what it is for if and only if** the current snapshot is not finished, or the
handle has a store that agrees with it. -/
theorem wait_terminal_meets_iff (current : TssrunJobSnapshot) (store : Bool) (s : Surroundings) :
    MeetsWait current store s ↔
      current.finished = none ∨ store = true ∧ StoreAgrees current s := by
  have hends : ∀ {snap : TssrunJobSnapshot}, EndsWait (.ok snap) ↔ snap.finished.isSome = true :=
    Iff.rfl
  constructor
  · rintro ⟨hfinished, -⟩
    cases hcurrent : current.finished with
    | none => exact .inl rfl
    | some info =>
      right
      have hsome : current.finished.isSome = true := by simp [hcurrent]
      obtain ⟨k, hk, -, hbefore⟩ := waitReturns_iff.mp ((hfinished hsome _).mpr rfl)
      obtain ⟨hstore, hanswer⟩ := outcome_eq_ok.mp hk
      exact ⟨hstore, k, hanswer, fun j hj => (not_endsWait_iff.mp (hbefore j hj)).2⟩
  · intro h
    refine ⟨fun hsome r => ?_, fun _ r => waitReturns_iff⟩
    rcases h with hnone | ⟨hstore, k, hanswer, hbefore⟩
    · simp [hnone] at hsome
    · have hk := outcome_eq_ok.mpr ⟨hstore, hanswer⟩
      have hskip : ∀ j < k, ¬ EndsWait (s.outcome store j) := fun j hj =>
        not_endsWait_iff.mpr ⟨hstore, hbefore j hj⟩
      rw [waitReturns_iff]
      constructor
      · rintro ⟨n, hn, hstop, hfirst⟩
        rcases Nat.lt_trichotomy n k with hlt | rfl | hlt
        · exact absurd (hn ▸ hstop) (hskip n hlt)
        · exact hn.symm.trans hk
        · exact absurd (hk ▸ hends.mpr hsome) (hfirst k hlt)
      · rintro rfl
        exact ⟨k, hk, hends.mpr hsome, hskip⟩

/-- A finished job. -/
def finishedSnapshot : TssrunJobSnapshot where
  uuid := 1
  pid := 7
  argv := ["tssrun"]
  sentEnv := []
  cwd := none
  startedAtUnix := 0
  logLocations := .none
  jobid := some 42
  node := none
  finished := some ⟨some 0, 1⟩

/-- A handle that was attached to a finished job without a store fails to wait for it. -/
theorem wait_terminal_no_store :
    ¬ MeetsWait finishedSnapshot false ⟨fun _ => finishedSnapshot, fun _ => .ok none⟩ := by
  rintro ⟨hfinished, -⟩
  obtain ⟨rounds, hrounds⟩ := (hfinished rfl (.ok finishedSnapshot)).mpr rfl
  cases rounds with
  | zero => cases hrounds
  | succ rounds => cases hrounds

end Tssrun

/-
# The polling loop

`wait_terminal` asks for two things only, refreshes and sleeps.  So it is the loop `poll` over these
two operations, carried out by `refresh` and `sleep`, and which refreshes it makes and what it
returns is a function of the outcomes of its refreshes.  `Stops` names the outcome at which it
ends: the first terminal snapshot, or the fifth failure of the first unbroken run of five.
-/
import SlurmRunner.Sbatch.Handle

namespace Sbatch

open Text Slurm Interact

/-! ## 1. The loop -/

/-- What a polling loop asks for. -/
inductive PollOp
  | refresh
  | sleep
deriving DecidableEq, Repr

def pollSig : Sig where
  Op := PollOp
  Ans
    | .refresh => Except Str SbatchJobSnapshot
    | .sleep => Unit

/-- The loop of `wait_terminal`, for `fuel` rounds. -/
def poll : Nat → Nat → Prog pollSig (Option (Except Str SbatchJobSnapshot))
  | 0, _ => return none
  | fuel + 1, consecutiveFailures =>
    .ask .refresh fun
      | .ok snap =>
        if snap.observedTerminal then
          return some (.ok snap)
        else if snap.lifecycle.leftActiveListing then
          return some (.ok snap)
        else .ask .sleep fun _ => poll fuel 0
      | .error e =>
        if consecutiveFailures + 1 ≥ maxConsecutiveRefreshFailures then
          return some (.error e)
        else .ask .sleep fun _ => poll fuel (consecutiveFailures + 1)

/-- How a handle carries the loop out. -/
def pollWith {ι : Type} {K : ι → Type} (dispatcher : Dispatcher K) (h pollInterval : Nat) :
    (o : pollSig.Op) → Prog (sig K) (pollSig.Ans o)
  | PollOp.refresh => refresh dispatcher h
  | PollOp.sleep => sleep pollInterval

theorem waitTerminalFrom_eq_poll {ι : Type} {K : ι → Type} (dispatcher : Dispatcher K)
    (h pollInterval fuel k : Nat) :
    waitTerminalFrom dispatcher h pollInterval fuel k =
      (poll fuel k).lower (pollWith dispatcher h pollInterval) := by
  induction fuel generalizing k with
  | zero => rfl
  | succ fuel ih =>
    rw [waitTerminalFrom, poll]
    change (refresh dispatcher h >>= _) = (refresh dispatcher h >>= _)
    refine bind_congr fun r => ?_
    cases r with
    | ok snap =>
      dsimp only
      split
      · rfl
      · split
        · rfl
        · exact bind_congr fun _ => ih 0
    | error e =>
      dsimp only
      split
      · rfl
      · exact bind_congr fun _ => ih (k + 1)

/-! ## 2. What ends it -/

/-- The outcomes of the refreshes of a loop, in the order in which they are made. -/
abbrev Outcomes : Type := Nat → Except Str SbatchJobSnapshot

/-- The `i`-th refresh has the `i`-th outcome. -/
def pollScript (outcomes : Outcomes) : (o : pollSig.Op) → Nat → pollSig.Ans o × Nat
  | PollOp.refresh, i => (outcomes i, i + 1)
  | PollOp.sleep, i => ((), i)

/-- The terminal predicate of `wait_terminal`. -/
def SbatchJobSnapshot.endsWait (snap : SbatchJobSnapshot) : Prop :=
  snap.observedTerminal = true ∨ snap.lifecycle.leftActiveListing = true

/-- The refresh returned a snapshot that ends the wait. -/
def EndsOk (r : Except Str SbatchJobSnapshot) : Prop := ∃ snap, r = .ok snap ∧ snap.endsWait

def Fails (r : Except Str SbatchJobSnapshot) : Prop := ∃ e, r = .error e

/-- The refreshes `n - 4`, …, `n` fail: `n` is the fifth failure of an unbroken run. -/
def FifthFailure (outcomes : Outcomes) (n : Nat) : Prop :=
  ∃ i, n = i + 4 ∧ ∀ j, i ≤ j → j ≤ n → Fails (outcomes j)

/-- The loop ends with the `n`-th refresh, if it has come so far. -/
def Stops (outcomes : Outcomes) (n : Nat) : Prop :=
  EndsOk (outcomes n) ∨ FifthFailure outcomes n

/-- The failures counted by the loop after a refresh. -/
def failures (k : Nat) : Except Str SbatchJobSnapshot → Nat
  | .ok _ => 0
  | .error _ => k + 1

/-- The failures counted before refresh `n`. -/
def failuresBefore (outcomes : Outcomes) : Nat → Nat
  | 0 => 0
  | n + 1 => failures (failuresBefore outcomes n) (outcomes n)

/-- The count is the length of the unbroken run of failures before refresh `n`. -/
theorem le_failuresBefore {outcomes : Outcomes} {n m : Nat} : m ≤ failuresBefore outcomes n ↔
    m ≤ n ∧ ∀ j, n ≤ j + m → j < n → Fails (outcomes j) := by
  induction n generalizing m with
  | zero =>
    constructor
    · intro h
      exact ⟨h, fun j _ hj => absurd hj (Nat.not_lt_zero j)⟩
    · intro h
      exact h.1
  | succ n ih =>
    rw [failuresBefore]
    rcases hr : outcomes n with e | snap
    · constructor
      · intro h
        obtain ⟨hle, hall⟩ := ih.mp (show m - 1 ≤ failuresBefore outcomes n by
          simp only [failures] at h
          omega)
        refine ⟨by simp only [failures] at h; omega, fun j hj hjn => ?_⟩
        by_cases hlast : j = n
        · exact hlast ▸ ⟨e, hr⟩
        · exact hall j (by omega) (by omega)
      · rintro ⟨hle, hall⟩
        have : m - 1 ≤ failuresBefore outcomes n :=
          ih.mpr ⟨by omega, fun j hj hjn => hall j (by omega) (by omega)⟩
        simp only [failures]
        omega
    · constructor
      · intro h
        simp only [failures, Nat.le_zero] at h
        exact ⟨by omega, fun j hj hjn => absurd hj (by omega)⟩
      · rintro ⟨hle, hall⟩
        by_contra hm
        obtain ⟨e, he⟩ := hall n (by simp only [failures] at hm; omega) (Nat.lt_succ_self n)
        cases hr.symm.trans he

/-- The test of the loop, with `k` failures counted. -/
def Ends (k : Nat) (r : Except Str SbatchJobSnapshot) : Prop :=
  EndsOk r ∨ Fails r ∧ maxConsecutiveRefreshFailures ≤ k + 1

theorem ends_failuresBefore {outcomes : Outcomes} {n : Nat} :
    Ends (failuresBefore outcomes n) (outcomes n) ↔ Stops outcomes n := by
  refine or_congr_right ⟨?_, ?_⟩
  · rintro ⟨hlast, hmax⟩
    obtain ⟨hle, hall⟩ := le_failuresBefore.mp
      (show 4 ≤ failuresBefore outcomes n by
        simp only [maxConsecutiveRefreshFailures] at hmax
        omega)
    refine ⟨n - 4, by omega, fun j hj hjn => ?_⟩
    by_cases h : j = n
    · exact h ▸ hlast
    · exact hall j (by omega) (by omega)
  · rintro ⟨i, rfl, hall⟩
    have : 4 ≤ failuresBefore outcomes (i + 4) :=
      le_failuresBefore.mpr ⟨by omega, fun j hj hjn => hall j (by omega) (by omega)⟩
    exact ⟨hall _ (by omega) (le_refl _), Nat.succ_le_succ this⟩

/-! ## 3. Every sequence of outcomes -/

/-- `n` refreshes that did not end the loop, each with its sleep. -/
def rounds (n : Nat) : List PollOp := (List.replicate n [.refresh, .sleep]).flatten

theorem rounds_succ (n : Nat) : rounds (n + 1) = .refresh :: .sleep :: rounds n := by
  rw [rounds, List.replicate_succ, List.flatten_cons]
  rfl

section Replay

variable {outcomes : Outcomes}

/-- A round that ends the loop. -/
theorem replay_ends {fuel k i : Nat} (h : Ends k (outcomes i)) :
    (poll (fuel + 1) k).replay (pollScript outcomes) i = ([.refresh], some (outcomes i)) := by
  rw [poll]
  simp only [Prog.replay, pollScript]
  rcases h with ⟨snap, hr, ht | hl⟩ | ⟨⟨e, hr⟩, hmax⟩
  · rw [hr]
    simp only [ht, if_true]
    rfl
  · rw [hr]
    simp only [hl, if_true, ite_self]
    rfl
  · rw [hr]
    simp only [ge_iff_le, hmax, if_true]
    rfl

/-- A round that goes on. -/
theorem replay_goes_on {fuel k i : Nat} (h : ¬ Ends k (outcomes i)) :
    (poll (fuel + 1) k).replay (pollScript outcomes) i =
      (.refresh :: .sleep ::
        ((poll fuel (failures k (outcomes i))).replay (pollScript outcomes) (i + 1)).1,
        ((poll fuel (failures k (outcomes i))).replay (pollScript outcomes) (i + 1)).2) := by
  rw [poll]
  simp only [Prog.replay, pollScript]
  rcases hr : outcomes i with e | snap
  · have hmax : ¬ maxConsecutiveRefreshFailures ≤ k + 1 := fun hm => h (.inr ⟨⟨e, hr⟩, hm⟩)
    simp only [ge_iff_le, hmax, if_false]
    rfl
  · have ht : ¬ snap.observedTerminal = true := fun ht => h (.inl ⟨snap, hr, .inl ht⟩)
    have hl : ¬ snap.lifecycle.leftActiveListing = true := fun hl => h (.inl ⟨snap, hr, .inr hl⟩)
    simp only [ht, hl]
    rfl

/-- The loop from refresh `i` on, where it ends with refresh `i + n`. -/
theorem replay_stops {n fuel i : Nat} (hfuel : n < fuel) (hstop : Stops outcomes (i + n))
    (hfirst : ∀ m, i ≤ m → m < i + n → ¬ Stops outcomes m) :
    (poll fuel (failuresBefore outcomes i)).replay (pollScript outcomes) i =
      (rounds n ++ [.refresh], some (outcomes (i + n))) := by
  induction n generalizing fuel i with
  | zero =>
    obtain ⟨fuel, rfl⟩ := Nat.exists_eq_succ_of_ne_zero (Nat.ne_zero_of_lt hfuel)
    exact replay_ends (ends_failuresBefore.mpr hstop)
  | succ n ih =>
    obtain ⟨fuel, rfl⟩ := Nat.exists_eq_succ_of_ne_zero (Nat.ne_zero_of_lt hfuel)
    have hgo := hfirst i (le_refl i) (by omega)
    have hidx : i + (n + 1) = i + 1 + n := by omega
    rw [hidx] at hstop hfirst ⊢
    rw [replay_goes_on fun h => hgo (ends_failuresBefore.mp h), ← failuresBefore,
      ih (by omega) hstop fun m him hm => hfirst m (by omega) hm, rounds_succ]
    rfl

/-- The loop from refresh `i` on, where nothing ends it. -/
theorem replay_polls {fuel i : Nat} (h : ∀ m, i ≤ m → m < i + fuel → ¬ Stops outcomes m) :
    (poll fuel (failuresBefore outcomes i)).replay (pollScript outcomes) i =
      (rounds fuel, none) := by
  induction fuel generalizing i with
  | zero => rfl
  | succ fuel ih =>
    have hgo := h i (le_refl i) (by omega)
    rw [replay_goes_on fun he => hgo (ends_failuresBefore.mp he), ← failuresBefore,
      ih fun m him hm => h m (by omega) (by omega), rounds_succ]
    rfl

end Replay

/-- **The wait is decided by the outcomes of its refreshes.**  It returns the first snapshot that
ends it, unless five failures in a row come first, and then the fifth of the first such run.  It
makes the refreshes up to there, with one sleep between two of them. -/
theorem wait_terminal_polls {ι : Type} {K : ι → Type} (dispatcher : Dispatcher K)
    (h pollInterval fuel : Nat) (outcomes : Outcomes) :
    waitTerminal dispatcher h pollInterval fuel =
      (poll fuel 0).lower (pollWith dispatcher h pollInterval) ∧
    (∀ n snap, outcomes n = .ok snap → snap.endsWait → (∀ m < n, ¬ Stops outcomes m) → n < fuel →
      (poll fuel 0).replay (pollScript outcomes) 0 =
        (rounds n ++ [.refresh], some (.ok snap))) ∧
    (∀ n e, outcomes n = .error e → FifthFailure outcomes n → (∀ m < n, ¬ Stops outcomes m) →
      n < fuel →
      (poll fuel 0).replay (pollScript outcomes) 0 =
        (rounds n ++ [.refresh], some (.error e))) ∧
    ((∀ m < fuel, ¬ Stops outcomes m) →
      (poll fuel 0).replay (pollScript outcomes) 0 = (rounds fuel, none)) := by
  have hends : ∀ n, Stops outcomes n → (∀ m < n, ¬ Stops outcomes m) → n < fuel →
      (poll fuel 0).replay (pollScript outcomes) 0 =
        (rounds n ++ [.refresh], some (outcomes n)) := by
    intro n hn hfirst hfuel
    have hall : ∀ m, 0 ≤ m → m < 0 + n → ¬ Stops outcomes m :=
      fun m _ hm => hfirst m (Nat.zero_add n ▸ hm)
    rw [← Nat.zero_add n] at hn
    have hrun := replay_stops hfuel hn hall
    rwa [Nat.zero_add] at hrun
  refine ⟨waitTerminalFrom_eq_poll dispatcher h pollInterval fuel 0, ?_, ?_, ?_⟩
  · intro n snap hr ht hfirst hfuel
    rw [← hr]
    exact hends n (.inl ⟨snap, hr, ht⟩) hfirst hfuel
  · intro n e hr hfive hfirst hfuel
    rw [← hr]
    exact hends n (.inr hfive) hfirst hfuel
  · intro hnever
    have hall : ∀ m, 0 ≤ m → m < 0 + fuel → ¬ Stops outcomes m :=
      fun m _ hm => hnever m (Nat.zero_add fuel ▸ hm)
    exact replay_polls hall

/-- Four failures, a snapshot that does not end the wait, four failures, and then the same one with
the job gone. -/
def flaky : Outcomes := fun n =>
  if n = 4 then .ok (.submitted 1 7 none)
  else if n = 9 then .ok ((SbatchJobSnapshot.submitted 1 7 none).vanished 0)
  else .error "`squeue` exited with 1: timed out"

theorem not_stops_flaky {m : Nat} (hm : m < 9) : ¬ Stops flaky m := by
  rintro (⟨snap, hr, hends⟩ | ⟨i, rfl, hall⟩)
  · unfold flaky at hr
    split at hr
    · cases hr
      rcases hends with h | h <;> cases h
    · split at hr
      · omega
      · cases hr
  · -- the run would have to contain the fifth refresh
    obtain ⟨e, he⟩ := hall 4 (by omega) (by omega)
    cases he

theorem wait_terminal_polls_flaky :
    (poll 12 0).replay (pollScript flaky) 0 =
      (rounds 9 ++ [.refresh], some (.ok ((SbatchJobSnapshot.submitted 1 7 none).vanished 0))) :=
  (wait_terminal_polls (runCommand : Dispatcher fun _ : Unit => Unit) 0 60 12 flaky).2.1 9 _ rfl
    (.inr rfl)
    (fun _ hm => not_stops_flaky hm) (by decide)

end Sbatch

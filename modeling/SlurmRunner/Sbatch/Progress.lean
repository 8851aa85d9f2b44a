/-
# No call waits for ever

The locks of a manager are taken in an order, so no cycle of waiting tasks can arise.  The other
thing that could keep a call is the loop of a wait, which polls while its job runs.  It takes at
most five failed refreshes in a row, so it ends once the store takes no snapshot any more: from then
on every refresh fails.

Whatever a run has done, the calls that are left can therefore all end (`no_deadlock`).
-/
import SlurmRunner.Sbatch.LockOrder

namespace Sbatch

open Text Slurm Interact StateStore

/-! ## 1. How long a wait polls

The loop of `wait_terminal` is modelled with a number of rounds. Each round has a snapshot saved or
is a failure, and the fifth failure in a row ends the wait, so a wait that has used up its rounds
has had a snapshot saved in every five of them (`PolledOut`). A move of a run saves one snapshot at
most, so with more rounds than five times the moves this has not happened. -/

section Tally

variable {ι : Type} {K : ι → Type} {α β : Type} {n : Nat} {t u : Nat} {w w' : World K}

/-- How many snapshots of task `t` the store has taken. -/
def World.takenOf (w : World K) (t : Nat) : Nat :=
  (w.savesOf t).countP fun sv => sv.result.isOk

/-- How many snapshots the store takes with an operation. -/
def Op.taken : (o : Op K) → o.Ans → Nat
  | .save _, (r : Except Str Unit) => if r.isOk then 1 else 0
  | _, _ => 0

variable (K) in
/-- A stage is the number of snapshots of the task that the store has taken. -/
abbrev tallyProtocol : Protocol (sig K) where
  Stage := Nat
  allows _ _ := True
  next n o a := n + Op.taken o a

variable (K) in
def tallyGrowth : Prog.Growth (tallyProtocol K) where
  le n n' := Nat.le n n'
  refl n := Nat.le_refl n
  trans h h' := Nat.le_trans h h'
  next n _ _ := Nat.le_add_right n _

/-- Started when the store has taken `n` snapshots of its task, the program returns as `Q` says. -/
abbrev Counts (Q : Nat → α → Prop) (n : Nat) (p : Prog (sig K) α) : Prop :=
  p.Advances (tallyGrowth K) Q n

/-- Nothing is claimed of the result. -/
theorem counts_any {Q : Nat → α → Prop} {p : Prog (sig K) α} (h : ∀ n' a, Q n' a) : Counts Q n p :=
  (Prog.advances_of_allows fun _ _ => trivial).mono fun n' a _ _ => h n' a

/-- Each operation adds what the store takes with it. -/
theorem counts_then {Q : Nat → β → Prop} {o : Op K} {f : o.Ans → Prog (sig K) β}
    (hf : ∀ a : o.Ans, Counts Q (n + o.taken a) (f a)) : Counts Q n (perform o >>= f) :=
  Prog.advances_then (P := tallyProtocol K) trivial hf

/-- An operation that saves nothing. -/
theorem counts_quiet {Q : Nat → β → Prop} {o : Op K} {f : o.Ans → Prog (sig K) β}
    (ho : ∀ a : o.Ans, o.taken a = 0) (hf : ∀ a : o.Ans, Counts Q n (f a)) :
    Counts Q n (perform o >>= f) :=
  counts_then fun a => by
    rw [ho a]
    exact hf a

variable [DecidableEq ι]

/-- A step of the task adds what the store has taken with it. -/
theorem takenOf_exec {o : Op K} {i : Input} {a : o.Ans} (he : exec t o i w = some (a, w')) :
    w'.takenOf t = w.takenOf t + o.taken a := by
  cases effect_of_exec he with
  | look hlook => cases o <;> first | exact absurd hlook Bool.false_ne_true | rfl
  | @save snap r => simp [World.takenOf, World.savesOf, Op.taken, List.countP_cons]
  | _ => rfl

/-- The snapshots of other tasks are not counted. -/
theorem takenOf_exec_other {o : Op K} {i : Input} {a : o.Ans} (he : exec t o i w = some (a, w'))
    (hu : u ≠ t) : w'.takenOf u = w.takenOf u := by
  cases effect_of_exec he with
  | @save snap r => simp [World.takenOf, World.savesOf, hu.symm]
  | _ => rfl

variable (K) in
/-- **The stages count what the store has taken.** -/
def tally : Agreement (machine K) (tallyProtocol K) where
  agrees t n w := w.takenOf t = n
  apart _ _ := True
  idle _ := True
  apart_symm _ := trivial
  own h _ he := h ▸ takenOf_exec he
  other h _ he hu h' _ := ⟨h' ▸ takenOf_exec_other he hu, trivial⟩
  tick he h := by
    cases he
    exact h
  drop_own h := ⟨_, trivial, h, fun _ _ => trivial⟩
  drop_other _ h := h

/-- The snapshots that the store takes with input `i`. -/
def Input.takes : Input → Nat
  | .saved (.ok ()) => 1
  | _ => 0

/-- With an input that lets no save succeed the store takes nothing. -/
theorem Input.SaveFails.takes_eq {i : Input} (h : i.SaveFails) : i.takes = 0 := by
  rcases i with _ | r | e | ⟨⟨⟩⟩
  · rfl
  · rfl
  · rfl
  · exact absurd rfl h

/-- With one input the store takes one snapshot at most. -/
theorem Input.takes_le_one (i : Input) : i.takes ≤ 1 := by
  rcases i with _ | r | e | ⟨⟨⟩⟩
  · exact Nat.zero_le 1
  · exact Nat.zero_le 1
  · exact Nat.zero_le 1
  · exact Nat.le_refl 1

/-- Whether a save succeeds is for the input to say. -/
theorem taken_le {o : Op K} {i : Input} {a : o.Ans} (he : exec t o i w = some (a, w')) :
    o.taken a ≤ i.takes := by
  cases o with
  | save snap =>
    cases i with
    | go | output _ => cases he
    | saved r =>
      cases he
      rcases a with e | ⟨⟨⟩⟩
      · exact Nat.le_refl 0
      · exact Nat.le_refl 1
  | _ => exact Nat.zero_le _

/-- The store takes no more snapshots than the moves of a run let it. -/
theorem run_takenOf {ms : List (Move (machine K))} {c c' : Config (machine K) α}
    (hr : c.run ms = some c') (t : Nat) :
    c'.world.takenOf t ≤ c.world.takenOf t + (ms.map (Config.cost Input.takes)).sum := by
  refine Config.run_le (f := fun w : World K => w.takenOf t) (g := Input.takes) rfl ?_ ?_ ?_ hr
  · intro u o i w a w' he
    by_cases hu : t = u
    · subst hu
      rw [takenOf_exec he]
      exact Nat.add_le_add_left (taken_le he) _
    · rw [takenOf_exec_other he hu]
      exact Nat.le_add_right _ _
  · intro e w w' he
    cases he
    exact Nat.le_refl _
  · exact fun _ _ => Nat.le_refl _

/-- So the store takes no more snapshots than a run has moves. -/
theorem cost_le_length (ms : List (Move (machine K))) :
    (ms.map (Config.cost Input.takes)).sum ≤ ms.length := by
  have hcost : ∀ m : Move (machine K), Config.cost Input.takes m ≤ 1 := by
    rintro (⟨t, i⟩ | e | t)
    · exact i.takes_le_one
    · exact Nat.zero_le 1
    · exact Nat.zero_le 1
  induction ms with
  | nil => exact Nat.le_refl 0
  | cons m ms ih =>
    rw [List.map_cons, List.sum_cons, List.length_cons]
    have hm := hcost m
    omega

/-- And in a run that lets no save succeed it takes none. -/
theorem cost_eq_zero {ms : List (Move (machine K))}
    (h : ∀ m ∈ ms, Config.Goes Input.SaveFails m) :
    (ms.map (Config.cost Input.takes)).sum = 0 := by
  refine List.sum_eq_zero fun x hx => ?_
  obtain ⟨m, hm, rfl⟩ := List.mem_map.mp hx
  cases m with
  | pass t i => exact (h _ hm : i.SaveFails).takes_eq
  | tick e => rfl
  | drop t => rfl

omit [DecidableEq ι]

/-! ### The calls -/

/-- A call that succeeds has saved a snapshot since there were `n`. -/
def Saves (n n' : Nat) (r : Except Str SbatchJobSnapshot) : Prop := r.isOk = true → n < n'

/-- A call that fails need not have saved anything. -/
theorem saves_error {n' : Nat} (e : Str) : Saves n n' (.error e) :=
  fun h => absurd h Bool.false_ne_true

/-- A publication that succeeds has saved its snapshot before. -/
theorem counts_saveAndPublish (h : Nat) (site : Site) (snap : SbatchJobSnapshot) :
    Counts (Saves n) n (saveAndPublish h site snap : Prog (sig K) _) := by
  refine counts_then (o := (.save snap : Op K)) fun (r : Except Str Unit) => ?_
  cases r with
  | error e => exact Prog.advances_ret (saves_error e)
  | ok _ =>
    refine counts_quiet (o := (.sendReplace h site snap : Op K)) (fun _ => rfl) fun _ => ?_
    exact Prog.advances_ret fun _ => Nat.lt_succ_self n

/-- A refresh that succeeds has saved its snapshot. -/
theorem counts_refresh (d : Dispatcher K) (h : Nat) : Counts (Saves n) n (refresh d h) := by
  have hbody : ∀ snap t, Counts (Saves n) n (refreshLocked d h snap t) := by
    intro snap t
    rw [refreshLocked_eq]
    refine Prog.Advances.bind (counts_any (Q := fun _ _ => True) fun _ _ => trivial)
      fun n' r hle _ => ?_
    cases r with
    | error e => exact Prog.advances_ret (saves_error e)
    | ok row =>
      refine (counts_saveAndPublish h _ _).mono fun n'' r _ hr hok => ?_
      exact Nat.lt_of_le_of_lt hle (hr hok)
  refine counts_quiet (fun _ => rfl) fun _ => counts_quiet (fun _ => rfl) fun snap => ?_
  refine counts_quiet (fun _ => rfl) fun t => (hbody snap t).bind fun n' r _ hr => ?_
  exact counts_quiet (fun _ => rfl) fun _ => Prog.advances_ret hr

/-- The store has taken so many snapshots that a wait may have polled for all its rounds. -/
def PolledOut (rounds n : Nat) : Prop := rounds ≤ 5 * n + 4

/-- **A wait whose rounds run out** has saved a snapshot after every five of them: each refresh that
fails counts, and the fifth in a row ends the wait. -/
theorem counts_waitTerminalFrom (d : Dispatcher K) (h pollInterval rounds : Nat) {failures n : Nat}
    (hfailures : failures < maxConsecutiveRefreshFailures) :
    Counts (fun n' r => r = none → rounds + failures + 5 * n ≤ 5 * n' + 4) n
      (waitTerminalFrom d h pollInterval rounds failures) := by
  induction rounds generalizing failures n with
  | zero =>
    refine Prog.advances_ret fun _ => ?_
    rw [maxConsecutiveRefreshFailures] at hfailures
    omega
  | succ rounds ih =>
    unfold waitTerminalFrom
    have hsleep : ∀ {p : Prog (sig K) (Option (Except Str SbatchJobSnapshot))} {Q} {n},
        Counts Q n p → Counts Q n (sleep pollInterval >>= fun _ => p) :=
      fun hp => counts_quiet (fun _ => rfl) fun t => counts_quiet (fun _ => rfl) fun _ => hp
    refine (counts_refresh d h).bind fun n₁ r hle hr => ?_
    have hle : n ≤ n₁ := hle
    rw [maxConsecutiveRefreshFailures] at hfailures
    cases r with
    | ok snap =>
      have hlt : n < n₁ := hr rfl
      dsimp only
      split_ifs
      · exact Prog.advances_ret fun hnone => by cases hnone
      · exact Prog.advances_ret fun hnone => by cases hnone
      · refine hsleep ((ih (by decide)).mono ?_)
        intro n' r _ hr hnone
        have hrest := hr hnone
        omega
    | error e =>
      dsimp only
      split_ifs with hmax
      · exact Prog.advances_ret fun hnone => by cases hnone
      · refine hsleep ((ih (Nat.lt_of_not_le hmax)).mono ?_)
        intro n' r _ hr hnone
        have hrest := hr hnone
        omega

/-- The same from the first round on. -/
theorem counts_waitTerminal (d : Dispatcher K) (h pollInterval rounds : Nat) :
    Counts (fun n' r => r = none → PolledOut rounds n') n
      (waitTerminal d h pollInterval rounds) := by
  refine (counts_waitTerminalFrom d h pollInterval rounds (by decide)).mono ?_
  intro n' r _ hr hnone
  have hrest := hr hnone
  unfold PolledOut
  omega

/-- The only loop of `run_with` is its wait. -/
theorem counts_runWith (cmd : SbatchCmd) (dirs : CurrentDirs) (pollInterval rounds : Nat) :
    Counts (fun n' r => r = none → PolledOut rounds n') n
      (runWith cmd dirs pollInterval rounds) := by
  have hany : ∀ {β : Type} {m} {p : Prog (sig Key) β}, Counts (fun _ _ => True) m p :=
    counts_any fun _ _ => trivial
  unfold runWith
  dsimp only
  split_ifs
  · exact Prog.advances_ret nofun
  · refine Prog.Advances.bind hany fun n₁ r _ _ => ?_
    cases r with
    | error e => exact Prog.advances_ret nofun
    | ok h =>
      refine Prog.Advances.bind hany fun n₂ snapshot _ _ => ?_
      refine (counts_waitTerminal _ h pollInterval rounds).bind fun n₃ r _ hr => ?_
      rcases r with _ | e | snap
      · exact Prog.advances_ret fun _ => hr rfl
      · exact Prog.advances_ret nofun
      · refine Prog.Advances.bind hany fun n₄ r _ _ => ?_
        cases r with
        | error e => exact Prog.advances_ret nofun
        | ok snap =>
          dsimp only
          split
          · exact Prog.advances_ret nofun
          · split_ifs <;> exact Prog.advances_ret nofun

/-- Where the expansion of the indices ends, a `spawn_array` has a result. -/
theorem counts_spawnArray (cmd : SbatchCmd) (dirs : CurrentDirs) {arraySpec : SlurmArraySpec}
    (hspec : (expandArrayIndices arraySpec).isSome = true) :
    Counts (fun _ r => r.isSome = true) n (spawnArray cmd dirs arraySpec : Prog (sig K) _) := by
  have hany : ∀ {β : Type} {m} {p : Prog (sig K) β}, Counts (fun _ _ => True) m p :=
    counts_any fun _ _ => trivial
  unfold spawnArray
  rcases hindices : expandArrayIndices arraySpec with _ | _ | ⟨idx, indices⟩
  · rw [hindices] at hspec
    cases hspec
  · exact Prog.advances_ret rfl
  · dsimp only
    cases SbatchCmd.buildArgv _ dirs.chdir dirs.script with
    | error e => exact Prog.advances_ret rfl
    | ok argv =>
      refine Prog.Advances.bind hany fun n₁ r _ _ => ?_
      cases r with
      | error e => exact Prog.advances_ret rfl
      | ok masterJobid =>
        dsimp only
        cases scriptPath _ dirs.submitted with
        | error e => exact Prog.advances_ret rfl
        | ok path => exact Prog.Advances.bind hany fun n₂ r _ _ => Prog.advances_ret rfl

/-- An array is given by a specification whose expansion ends. -/
def ManagerCall.Expands : ManagerCall → Prop
  | .spawnArray _ arraySpec => (expandArrayIndices arraySpec).isSome = true
  | _ => True

/-- **A call that does not come to its end** is a wait that has polled for all its rounds. -/
theorem SbatchManager.counts_program (mgr : SbatchManager) (rounds : Nat) {call : ManagerCall}
    (hcall : call.Expands) :
    Counts (fun n' a => a.complete = false → PolledOut rounds n') n (mgr.program rounds call) := by
  cases call with
  | waitTerminal h pollInterval =>
    refine Prog.Advances.map ((counts_waitTerminal _ h pollInterval rounds).mono ?_)
    intro n' r _ hr hcomplete
    exact hr (Option.isNone_iff_eq_none.mp (by simpa [ManagerAnswer.complete] using hcomplete))
  | runWith dirs =>
    refine Prog.Advances.map ((counts_runWith _ dirs mgr.pollInterval rounds).mono ?_)
    intro n' r _ hr hcomplete
    exact hr (Option.isNone_iff_eq_none.mp (by simpa [ManagerAnswer.complete] using hcomplete))
  | spawnArray dirs arraySpec =>
    refine Prog.Advances.map ((counts_spawnArray mgr.cmd dirs hcall).mono ?_)
    intro n' r _ hr hcomplete
    simp [ManagerAnswer.complete, hr] at hcomplete
  | _ => exact Prog.Advances.map (counts_any fun n' r hcomplete => by cases hcomplete)

/-- **All calls of a client come to their end**, or one of them was a wait that has polled for all
its rounds; by induction on the calls, each of which may depend on the last answer. -/
theorem SbatchManager.counts_client (mgr : SbatchManager) (rounds : Nat) {client : ManagerClient}
    (hclient : client.Calls ManagerCall.Expands) :
    Counts (fun n' as => ∀ a ∈ as, a.complete = false → PolledOut rounds n') n
      (mgr.client rounds client) := by
  induction client generalizing n with
  | done => exact Prog.advances_ret fun a ha => by cases ha
  | call c next ih =>
    refine (mgr.counts_program rounds hclient.1).bind fun n₁ a _ ha => ?_
    refine (ih a (hclient.2 a)).bind fun n₂ as hle has => Prog.advances_ret ?_
    intro a' ha' hcomplete
    have hle : n₁ ≤ n₂ := hle
    rcases List.mem_cons.mp ha' with rfl | ha'
    · have hout : rounds ≤ 5 * n₁ + 4 := ha hcomplete
      exact Nat.le_trans hout (Nat.add_le_add_right (Nat.mul_le_mul_left 5 hle) 4)
    · exact has a' ha' hcomplete

end Tally

/-! ## 2. No deadlock

The lock order says that some task can always go on, so the tasks that are left can all return. From
then on no save succeeds, so what the store has taken it has taken in the run, and no wait runs out
of its rounds. -/

section Calls

variable {mgr : SbatchManager} {rounds n : Nat} {clients : Nat → ManagerClient}

/-- There are as many tasks as clients. -/
theorem SbatchManager.serving_within (w : World Key) :
    (mgr.serving rounds n clients w).Within n := by
  intro t p hp
  by_contra hlt
  simp [serving, hlt] at hp

/-- At the start every client is between two calls. -/
theorem SbatchManager.start_orderly {uuids : Supply Nat} {utc handles : Nat}
    {snaps : Nat → SbatchJobSnapshot} {store : Store} :
    (lockOrder Key).Orderly (fun s _ => s.Idle)
      (mgr.serving rounds n clients (.start uuids utc handles snaps store)) := by
  refine ⟨fun _ => Stage.rest, fun t => ⟨?_, ?_⟩, fun _ _ _ => trivial⟩
  · exact ⟨fun i => by simp [serving, World.start, Stage.rest],
      fun h => by simp [serving, World.start, Stage.rest],
      fun hs => absurd hs Bool.false_ne_true, fun _ hs => by cases hs⟩
  · have hidle : Stage.Idle (Stage.rest : Stage Tool) := ⟨rfl, rfl⟩
    by_cases ht : t < n
    · simp only [serving, if_pos ht]
      refine Prog.Keeps.mono (mgr.rests_client rounds (clients t)) ?_
      rintro _ _ rfl
      exact hidle
    · simp only [serving, if_neg ht]
      exact hidle

/-- At the start the store has taken nothing. -/
theorem SbatchManager.start_tally (hclients : ∀ t < n, (clients t).Calls ManagerCall.Expands)
    {uuids : Supply Nat} {utc handles : Nat} {snaps : Nat → SbatchJobSnapshot} {store : Store} :
    (tally Key).Orderly (fun k as => ∀ a ∈ as, a.complete = false → PolledOut rounds k)
      (mgr.serving rounds n clients (.start uuids utc handles snaps store)) := by
  refine ⟨fun _ => (0 : Nat), fun t => ⟨rfl, ?_⟩, fun _ _ _ => trivial⟩
  by_cases ht : t < n
  · simp only [serving, if_pos ht]
    exact Prog.Keeps.mono (mgr.counts_client rounds (hclients t ht)) fun _ _ h => h.2
  · simp only [serving, if_neg ht]
    trivial

/-- **No call waits for ever.**  Whatever a run of clients of one manager has done, with calls given
up at any await, every client that is left can still make all its calls and each of them can come to
its end, without another one being given up for it.  Only a call on a handle that nobody makes has
to wait.  `rounds` bounds the loop of a wait, and any bound from five times the length of the run on
is enough. -/
theorem no_deadlock {uuids : Supply Nat} {utc handles : Nat} {snaps : Nat → SbatchJobSnapshot}
    {store : Store} {ms : List (Move (machine Key))} {c : Config (machine Key) (List ManagerAnswer)}
    (hclients : ∀ t < n, (clients t).Calls ManagerCall.Expands)
    (hrounds : 5 * (ms.length + 1) ≤ rounds)
    (hr : (mgr.serving rounds n clients (.start uuids utc handles snaps store)).run ms = some c) :
    ∃ ms' c', (∀ m ∈ ms', ∀ t, m ≠ .drop t) ∧ c.run ms' = some c' ∧
      ∀ t, c.tasks t ≠ none →
        (∃ as, c'.result t = some as ∧ ∀ a ∈ as, a.complete = true) ∨
        ∃ h k, c'.tasks t = some (.ask (.lockRefresh h : Op Key) k) ∧ c'.world.handles ≤ h := by
  obtain ⟨ms', c', hgoes, hr', hall⟩ := LockOrder.exists_ended (fun _ _ h => h)
    SbatchManager.start_orderly (SbatchManager.serving_within _) hr
  refine ⟨ms', c', ?_, hr', fun t ht => ?_⟩
  · rintro m hm u rfl
    exact hgoes _ hm
  rcases hall t ht with hended | ⟨o, k, hask, hunmade⟩
  · obtain ⟨as, has⟩ := Option.isSome_iff_exists.mp hended
    refine .inl ⟨as, has, fun a ha => ?_⟩
    obtain ⟨taken, htaken, hpolled⟩ :=
      (((SbatchManager.start_tally hclients).run hr).run hr').result has
    -- the store has taken a snapshot with each move of the run at most, and none since
    have hbefore := run_takenOf hr t
    have hsince := run_takenOf hr' t
    rw [cost_eq_zero hgoes] at hsince
    have hmoves := cost_le_length ms
    have hstart : (World.start uuids utc handles snaps store : World Key).takenOf t = 0 := rfl
    have hcount : c'.world.takenOf t = taken := htaken
    by_contra hincomplete
    have hout : rounds ≤ 5 * taken + 4 := hpolled a ha (by simpa using hincomplete)
    change c.world.takenOf t ≤ World.takenOf (World.start uuids utc handles snaps store) t + _
      at hbefore
    omega
  · cases o with
    | lockRefresh h => exact .inr ⟨h, k, hask, hunmade⟩
    | _ => exact hunmade.elim

/-- It submits a job and waits for it. -/
def submitsAndWaits : ManagerClient :=
  .call (.spawn ⟨.error [], .error [], .error []⟩) fun a =>
    match a with
    | .spawned (.ok h) => .call (.waitTerminal h 1) fun _ => .done
    | _ => .done

/-- A manager of one job, and two clients: one refreshes its handle, and the other one submits
another job. -/
def refreshedAndAwaited : Config (machine Key) (List ManagerAnswer) :=
  (SbatchManager.mk (.new "/w/job.sh") 60 "scancel" id).serving 40 2
    (fun t => if t = 0 then .ofList [.refresh 0] else submitsAndWaits)
    (.start (.countFrom 0) 0 1 (fun _ => .submitted 1 8 none) [])

/-- The refresh holds the slot of `qgroup -l` and the wait asks for it; then the refresh is given
up. -/
def givenUp : List (Move (machine Key)) :=
  [passes 1, passes 0, passes 0, prints 1 "Submitted batch job 7\n", saves 1, passes 1, .drop 0]

/-- The refresh that holds the lock is given up, and the wait behind it comes to its end. -/
theorem no_deadlock_given_up :
    ∃ c, refreshedAndAwaited.run givenUp = some c ∧
      ((c.tasks 0).isNone && (c.tasks 1).isSome && (c.result 1).isNone) = true ∧
      ∃ ms' c', (∀ m ∈ ms', ∀ t, m ≠ .drop t) ∧ c.run ms' = some c' ∧
        ∀ t, c.tasks t ≠ none →
          (∃ as, c'.result t = some as ∧ ∀ a ∈ as, a.complete = true) ∨
          ∃ h k, c'.tasks t = some (.ask (.lockRefresh h : Op Key) k) ∧ c'.world.handles ≤ h := by
  have hreached : ∃ c, refreshedAndAwaited.run givenUp = some c ∧
      ((c.tasks 0).isNone && (c.tasks 1).isSome && (c.result 1).isNone) = true :=
    Config.exists_run (by decide +kernel)
  obtain ⟨c, hr, hc⟩ := hreached
  refine ⟨c, hr, hc, no_deadlock (fun t ht => ?_) (by decide) hr⟩
  split
  · exact ManagerClient.calls_ofList fun call hcall => by
      cases List.mem_singleton.mp hcall
      trivial
  · refine ⟨trivial, fun a => ?_⟩
    rcases a with r | r | (e | h) | r | r | r | r | r
    all_goals first | exact trivial | exact ⟨trivial, fun _ => trivial⟩

end Calls

end Sbatch

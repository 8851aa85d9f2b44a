/-
# The two batch queries

`query_job_states_batch_with` asks squeue for a list of ids and sacct for those that squeue does not
list; `query_job_states_with_exit_code_with` does the same with one more column of sacct.  The two
are written out twice in the source.  `BatchQuery.Run` is the one specification that both meet:
which commands a run makes, over which ids, and what its map says of each id.
-/
import SlurmRunner.Sbatch.Handle

namespace Sbatch

open Text Slurm Interact

/-! ## 1. The specification

Both batch queries ask squeue first and sacct for the ids that are left, and put the answers
together id by id.  They differ in the rows that they read and in what they make of them. -/

/-- What the two queries differ in: the sacct command and its parser, and how the status of a squeue
row and a missing row are given back. -/
structure BatchQuery (β : Type) where
  sacct : Str → Argv
  parse : Str → Map JobId β
  ofSqueue : JobStatus → β
  unknown : β

/-- `query_job_states_batch_with`. -/
def statusQuery : BatchQuery JobStatus := ⟨sacctStatusArgv, parseSacct, id, .default⟩

/-- `query_job_states_with_exit_code_with`. -/
def outcomeQuery : BatchQuery JobOutcome :=
  ⟨sacctArgv, parseSacctWithExitCode, fun status => ⟨status, none⟩, .default⟩

/-- The ids of a list, each once, in the order of their first occurrences. -/
structure FirstOccurrences (ids unique : List JobId) : Prop where
  mem : ∀ j, j ∈ unique ↔ j ∈ ids
  ordered : unique.Pairwise fun a b => ids.idxOf a < ids.idxOf b

namespace BatchQuery

variable {β : Type} (q : BatchQuery β)

/-- The row of squeue, else that of sacct, else what stands for neither. -/
def pick (active : Map JobId JobStatus) (history : Map JobId β) (j : JobId) : β :=
  match active j with
  | some status => q.ofSqueue status
  | none => (history j).getD q.unknown

/-- The map has exactly the given ids. -/
def Resolves (ids : List JobId) (active : Map JobId JobStatus) (history map : Map JobId β) : Prop :=
  ∀ j, map j = if j ∈ ids then some (q.pick active history j) else none

/-- A run of the query on `ids` that asked these commands, with these answers, and returned `r`. -/
inductive Run (ids : List JobId) : List (Argv × Answer) → Except Str (Map JobId β) → Prop
  | empty (hids : ids = []) : Run ids [] (.ok Map.empty)
  | squeueFailed {unique rq e} (hids : ids ≠ []) (hunique : FirstOccurrences ids unique)
      (hsqueue : squeueListing parseSqueue Map.empty rq = .error e) :
      Run ids [(squeueArgv (csvJoin unique), rq)] (.error e)
  | listed {unique rq active map} (hids : ids ≠ []) (hunique : FirstOccurrences ids unique)
      (hsqueue : squeueListing parseSqueue Map.empty rq = .ok active)
      (hall : ∀ j ∈ ids, active j ≠ none) (hmap : q.Resolves ids active Map.empty map) :
      Run ids [(squeueArgv (csvJoin unique), rq)] (.ok map)
  | sacctFailed {unique rq active rs e} (hids : ids ≠ []) (hunique : FirstOccurrences ids unique)
      (hsqueue : squeueListing parseSqueue Map.empty rq = .ok active)
      (hmissing : ∃ j ∈ ids, active j = none)
      (hsacct : toolListing "sacct" q.parse rs = .error e) :
      Run ids [(squeueArgv (csvJoin unique), rq),
        (q.sacct (csvJoin (unique.filter fun j => (active j).isNone)), rs)] (.error e)
  | completed {unique rq active rs history map} (hids : ids ≠ [])
      (hunique : FirstOccurrences ids unique)
      (hsqueue : squeueListing parseSqueue Map.empty rq = .ok active)
      (hmissing : ∃ j ∈ ids, active j = none)
      (hsacct : toolListing "sacct" q.parse rs = .ok history)
      (hmap : q.Resolves ids active history map) :
      Run ids [(squeueArgv (csvJoin unique), rq),
        (q.sacct (csvJoin (unique.filter fun j => (active j).isNone)), rs)] (.ok map)

end BatchQuery

/-! ## 2. Lists of ids

The ids are asked for once each, in the order in which they are given first. -/

/-- Leaving out other elements keeps the order of first occurrences. -/
theorem idxOf_lt_of_filter {p : JobId → Bool} {a b : JobId} (ha : p a = true) (hb : p b = true)
    {l : List JobId} (h : (l.filter p).idxOf a < (l.filter p).idxOf b) :
    l.idxOf a < l.idxOf b := by
  induction l with
  | nil => exact h
  | cons c l ih =>
    by_cases hc : p c = true
    · rw [List.filter_cons_of_pos hc] at h
      simp only [List.idxOf_cons] at h ⊢
      cases hca : c == a <;> cases hcb : c == b <;>
        simp only [hca, hcb, cond_true, cond_false] at h ⊢
      · have := ih (by omega)
        omega
      · omega
      · omega
      · omega
    · rw [List.filter_cons_of_neg hc] at h
      have hca : c ≠ a := fun he => hc (he ▸ ha)
      have hcb : c ≠ b := fun he => hc (he ▸ hb)
      rw [List.idxOf_cons_ne _ hca, List.idxOf_cons_ne _ hcb]
      have := ih h
      omega

/-- What is left has the same ids, each once. -/
theorem firstOccurrences_dedupe : ∀ ids : List JobId,
    FirstOccurrences ids (dedupePreservingOrder ids)
  | [] => ⟨fun _ => by simp [dedupePreservingOrder], .nil⟩
  | j :: ids => by
    have ih := firstOccurrences_dedupe (ids.filter fun i => !i == j)
    rw [dedupePreservingOrder] at ih ⊢
    have hmem : ∀ i ∈ (ids.filter fun i => !i == j).eraseDups, i ≠ j := by
      intro i hi
      rw [List.mem_eraseDups, List.mem_filter] at hi
      simpa using hi.2
    refine ⟨fun i => List.mem_eraseDups, ?_⟩
    rw [List.eraseDups_cons]
    refine List.pairwise_cons.mpr ⟨?_, ?_⟩
    · intro i hi
      rw [List.idxOf_cons_self, List.idxOf_cons_ne _ (hmem i hi).symm]
      exact Nat.succ_pos _
    · refine ih.ordered.imp_of_mem ?_
      intro a b ha hb hab
      rw [List.idxOf_cons_ne _ (hmem a ha).symm, List.idxOf_cons_ne _ (hmem b hb).symm]
      have := idxOf_lt_of_filter (by simpa using hmem a ha) (by simpa using hmem b hb) hab
      omega
termination_by ids => ids.length
decreasing_by exact Nat.lt_succ_of_le (List.length_filter_le ..)

/-- A map that is filled id by id has the ids of the list. -/
theorem foldl_insert_apply {β : Type} (f : JobId → β) (ids : List JobId) (m : Map JobId β)
    (j : JobId) :
    ids.foldl (fun out jid => out.insert jid (f jid)) m j =
      if j ∈ ids then some (f j) else m j := by
  induction ids generalizing m with
  | nil => simp
  | cons jid ids ih =>
    rw [List.foldl_cons, ih]
    by_cases hj : j ∈ ids
    · simp [hj]
    · by_cases he : j = jid
      · subst he
        simp [hj]
      · rw [if_neg hj, Map.insert_of_ne m (f jid) he, if_neg (by simp [hj, he])]

/-! ## 3. One program for both

The source writes the two functions out one after the other; here they are two instances of one
program. -/

section Program

variable {ι : Type} {K : ι → Type} {β : Type}

/-- Both queries, by what they differ in. -/
def BatchQuery.program (q : BatchQuery β) (dispatcher : Dispatcher K) (jobids : List JobId) :
    Prog (sig K) (Except Str (Map JobId β)) := do
  if jobids.isEmpty then
    return .ok Map.empty
  let unique := dedupePreservingOrder jobids
  let r ← dispatcher (squeueArgv (csvJoin unique))
  match squeueListing parseSqueue Map.empty r with
  | .error e => return .error e
  | .ok active =>
    let missing := unique.filter fun j => (active j).isNone
    let history ←
      if missing.isEmpty then pure (.ok Map.empty)
      else do
        let r ← dispatcher (q.sacct (csvJoin missing))
        pure (toolListing "sacct" q.parse r)
    match history with
    | .error e => return .error e
    | .ok history =>
      return .ok
        (jobids.foldl (fun out jid => out.insert jid (q.pick active history jid)) Map.empty)

/-- The query of the states, step for step. -/
theorem queryJobStatesBatchWith_eq (dispatcher : Dispatcher K) (jobids : List JobId) :
    queryJobStatesBatchWith dispatcher jobids = statusQuery.program dispatcher jobids := by
  have hmerge : ∀ (active history : Map JobId JobStatus), mergeResults jobids active history =
      jobids.foldl (fun out jid => out.insert jid (statusQuery.pick active history jid))
        Map.empty := by
    intro active history
    have hpick : ∀ j, ((active j).or (history j)).getD .default =
        statusQuery.pick active history j := by
      intro j
      unfold BatchQuery.pick
      cases active j <;> rfl
    simp only [mergeResults, hpick]
  unfold queryJobStatesBatchWith BatchQuery.program
  cases jobids.isEmpty with
  | true => rfl
  | false =>
    simp only [Bool.false_eq_true, if_false]
    refine bind_congr fun r => ?_
    cases squeueListing parseSqueue Map.empty r with
    | error e => rfl
    | ok active =>
      dsimp only
      split
      · simp only [pure_bind, hmerge]
      · refine bind_congr fun r => ?_
        have hparse : statusQuery.parse = parseSacct := rfl
        simp only [pure_bind, hmerge, hparse]
        cases toolListing "sacct" parseSacct r <;> rfl

/-- The query of the outcomes, step for step. -/
theorem queryJobStatesWithExitCodeWith_eq (dispatcher : Dispatcher K) (jobids : List JobId) :
    queryJobStatesWithExitCodeWith dispatcher jobids = outcomeQuery.program dispatcher jobids := by
  unfold queryJobStatesWithExitCodeWith BatchQuery.program
  cases jobids.isEmpty with
  | true => rfl
  | false =>
    simp only [Bool.false_eq_true, if_false]
    refine bind_congr fun r => ?_
    cases squeueListing parseSqueue Map.empty r with
    | error e => rfl
    | ok active =>
      dsimp only
      split
      · rfl
      · refine bind_congr fun r => ?_
        have hparse : outcomeQuery.parse = parseSacctWithExitCode := rfl
        simp only [pure_bind, hparse]
        cases toolListing "sacct" parseSacctWithExitCode r <;> rfl

/-! ## 4. What a run asks

The commands of a run and their answers, in order, are read off the calls on record. -/

variable [DecidableEq ι] {t : Nat} {ms : List (Input ⊕ Tick)} {w w' : World K}

/-- The commands `asked`, in this order, are the ones that were run since `w`, with these
answers. -/
def Asked (w w' : World K) (asked : List (Argv × Answer)) : Prop :=
  w'.calls.map (fun c => (c.argv, c.result)) =
    asked.reverse ++ w.calls.map fun c => (c.argv, c.result)

omit [DecidableEq ι] in
/-- A run has one list of commands and answers. -/
theorem Asked.unique {asked asked' : List (Argv × Answer)} (h : Asked w w' asked)
    (h' : Asked w w' asked') : asked = asked' :=
  List.reverse_injective (List.append_cancel_right (h.symm.trans h'))

omit [DecidableEq ι] in
/-- The commands of two parts, one after another. -/
theorem Asked.trans {w'' : World K} {asked asked' : List (Argv × Answer)} (h : Asked w w' asked)
    (h' : Asked w' w'' asked') : Asked w w'' (asked ++ asked') := by
  rw [Asked] at h h' ⊢
  rw [h', h, List.reverse_append, List.append_assoc]

/-- A command that runs alone is the one call that is made. -/
theorem call_runCommand {argv : Argv} {r : Answer}
    (h : (machine K).call t (runCommand argv) ms w = some (r, w')) : Asked w w' [(argv, r)] := by
  have htick : ∀ {e : Tick} {w w₁ w₂ : World K}, (machine K).tick e w = some w₁ →
      (w₂.calls = w₁.calls ∧ w₂.inflight = w₁.inflight) →
        w₂.calls = w.calls ∧ w₂.inflight = w.inflight := by
    intro e w w₁ w₂ he hR
    cases he
    exact hR
  obtain ⟨i, ms', w₁, a, w₂, ⟨hcalls, -⟩, he, h⟩ := (machine K).call_ask
    (R := fun w w' : World K => w'.calls = w.calls ∧ w'.inflight = w.inflight)
    (fun _ => ⟨rfl, rfl⟩) htick h
  cases he
  obtain ⟨i, ms', w₃, a, w₄, ⟨hcalls', hinflight⟩, he, h⟩ := (machine K).call_ask
    (R := fun w w' : World K => w'.calls = w.calls ∧ w'.inflight = w.inflight)
    (fun _ => ⟨rfl, rfl⟩) htick h
  obtain ⟨rfl, rfl⟩ := (machine K).call_ret h
  cases i with
  | go | saved _ => cases he
  | output out =>
    have hrun : w₃.inflight t = some ⟨argv, w₁.instant⟩ := by
      rw [hinflight]
      exact Function.update_self ..
    have he' : exec t (.recv : Op K) (.output out) w₃ = some (r, w') := he
    simp only [exec, hrun] at he'
    cases he'
    simp only [Asked, List.map_cons, List.reverse_singleton, List.singleton_append, hcalls', hcalls]

/-- **What a run of either query asks and returns.** -/
theorem BatchQuery.call_program (q : BatchQuery β) {ids : List JobId}
    {r : Except Str (Map JobId β)}
    (h : (machine K).call t (q.program runCommand ids) ms w = some (r, w')) :
    ∃ asked, Asked w w' asked ∧ q.Run ids asked r := by
  unfold BatchQuery.program at h
  by_cases hids : ids = []
  · subst hids
    obtain ⟨rfl, rfl⟩ := (machine K).call_ret h
    exact ⟨[], rfl, .empty rfl⟩
  have hne : ids.isEmpty = false := by simpa using hids
  simp only [hne, Bool.false_eq_true, if_false] at h
  have hunique := firstOccurrences_dedupe ids
  obtain ⟨ms₁, ms₂, rq, w₁, rfl, h₁, h₂⟩ := (machine K).call_bind h
  have hasked := call_runCommand h₁
  cases hsqueue : squeueListing parseSqueue Map.empty rq with
  | error e =>
    rw [hsqueue] at h₂
    obtain ⟨rfl, rfl⟩ := (machine K).call_ret h₂
    exact ⟨_, hasked, .squeueFailed hids hunique hsqueue⟩
  | ok active =>
    rw [hsqueue] at h₂
    dsimp only at h₂
    split at h₂
    · rename_i hmissing
      obtain ⟨rfl, rfl⟩ := (machine K).call_ret h₂
      refine ⟨_, hasked, .listed hids hunique hsqueue (fun j hj hnone => ?_) fun j => ?_⟩
      · have hj' := (hunique.mem j).mpr hj
        rw [List.isEmpty_iff, List.filter_eq_nil_iff] at hmissing
        exact hmissing j hj' (by rw [hnone]; rfl)
      · rw [foldl_insert_apply]
        rfl
    · rename_i hmissing
      have hsome : ∃ j ∈ ids, active j = none := by
        rw [List.isEmpty_iff, List.filter_eq_nil_iff, not_forall] at hmissing
        obtain ⟨j, hj⟩ := hmissing
        rw [Classical.not_imp, not_not, Option.isNone_iff_eq_none] at hj
        exact ⟨j, (hunique.mem j).mp hj.1, hj.2⟩
      obtain ⟨ms₃, ms₄, rs, w₂, rfl, h₃, h₄⟩ := (machine K).call_bind h₂
      have hasked' := hasked.trans (call_runCommand h₃)
      rw [pure_bind] at h₄
      cases hsacct : toolListing "sacct" q.parse rs with
      | error e =>
        rw [hsacct] at h₄
        obtain ⟨rfl, rfl⟩ := (machine K).call_ret h₄
        exact ⟨_, hasked', .sacctFailed hids hunique hsqueue hsome hsacct⟩
      | ok history =>
        rw [hsacct] at h₄
        obtain ⟨rfl, rfl⟩ := (machine K).call_ret h₄
        refine ⟨_, hasked', .completed hids hunique hsqueue hsome hsacct fun j => ?_⟩
        rw [foldl_insert_apply]
        rfl

end Program

/-! ## 5. One listing with and without the exit codes

The two sacct programs print the same rows, one of them with a column more. -/

/-- `row'` is the row `row`, of three columns, with one more. -/
def WithExitCode (row row' : Str) : Prop :=
  row.count '|' = 2 ∧ ∃ code, '|' ∉ code ∧ row' = row ++ '|' :: code

/-- The second listing is the first with a column of exit codes. -/
def WithExitCodes (text text' : Str) : Prop :=
  List.Forall₂ WithExitCode (lines text) (lines text')

/-- The commands were answered alike: squeue with the same listing, sacct with the same rows. -/
inductive SameAnswers : List (Argv × Answer) → List (Argv × Answer) → Prop
  | empty : SameAnswers [] []
  | squeue {a a' r} : SameAnswers [(a, r)] [(a', r)]
  | sacct {a a' r b b' out out'} (hsacct : WithExitCodes out.stdout out'.stdout) :
      SameAnswers [(a, r), (b, .ok out)] [(a', r), (b', .ok out')]

/-- The exit code does not change what the row says. -/
theorem WithExitCode.status {row row' : Str} (h : WithExitCode row row') :
    (sacctRow row').map (Prod.map id JobOutcome.status) = sacctStatusRow row := by
  obtain ⟨hcount, code, hcode, rfl⟩ := h
  obtain ⟨id, rest, rfl, hid, hrest⟩ := exists_append_of_count hcount
  obtain ⟨state, reason, rfl, hstate, hreason⟩ := exists_append_of_count hrest
  have hreason' : '|' ∉ reason := List.count_eq_zero.mp hreason
  have hthree : splitN '|' 3 (id ++ '|' :: (state ++ '|' :: reason)) = [id, state, reason] := by
    rw [splitN_append hid, splitN_append hstate]
    rfl
  have hfour : splitN '|' 4 (id ++ '|' :: (state ++ '|' :: reason) ++ '|' :: code) =
      [id, state, reason, code] := by
    rw [List.append_assoc, List.cons_append, List.append_assoc, List.cons_append,
      splitN_append hid, splitN_append hstate, splitN_append hreason']
    rfl
  simp only [sacctRow, sacctStatusRow, hthree, hfour]
  split
  · rfl
  · rw [Option.map_map]
    rfl

/-- So both listings say the same of the states. -/
theorem WithExitCodes.parse {text text' : Str} (h : WithExitCodes text text') (j : JobId) :
    (parseSacctWithExitCode text' j).map JobOutcome.status = parseSacct text j :=
  lastRows_map _ (h.imp fun _ _ => WithExitCode.status) j

/-- A listing that was read was printed. -/
theorem toolListing_ok {α : Type} {tool : Str} {parse : Str → α} {out : CaptureOutput} {a : α}
    (h : toolListing tool parse (.ok out) = .ok a) : a = parse out.stdout := by
  simp only [toolListing] at h
  split at h
  · cases h
  · cases h
    rfl

/-- Without its exit code an outcome is the state. -/
theorem pick_status {active : Map JobId JobStatus} {history : Map JobId JobStatus}
    {history' : Map JobId JobOutcome} (j : JobId)
    (h : (history' j).map JobOutcome.status = history j) :
    (outcomeQuery.pick active history' j).status = statusQuery.pick active history j := by
  simp only [BatchQuery.pick]
  cases active j with
  | some status => rfl
  | none =>
    rw [← h]
    cases history' j <;> rfl

/-- **The two queries give the same statuses** to ids that are answered alike. -/
theorem BatchQuery.Run.agree {ids : List JobId} {asked asked' : List (Argv × Answer)}
    {statuses : Map JobId JobStatus} {outcomes : Map JobId JobOutcome}
    (h : statusQuery.Run ids asked (.ok statuses)) (h' : outcomeQuery.Run ids asked' (.ok outcomes))
    (hsame : SameAnswers asked asked') (j : JobId) :
    (outcomes j).map JobOutcome.status = statuses j := by
  have hresolve : ∀ {active history history'}, statusQuery.Resolves ids active history statuses →
      outcomeQuery.Resolves ids active history' outcomes →
      (history' j).map JobOutcome.status = history j →
        (outcomes j).map JobOutcome.status = statuses j := by
    intro active history history' hm hm' hh
    rw [hm j, hm' j]
    split
    · rw [Option.map_some, pick_status j hh]
    · rfl
  -- the two runs take the same branch, as they have the same answers
  cases h with
  | empty hids =>
    cases h' with
    | empty => rfl
    | listed hids' | completed hids' => exact absurd hids hids'
  | listed hids hunique hsqueue hall hmap =>
    cases h' with
    | empty hids' => exact absurd hids' hids
    | listed _ _ hsqueue' _ hmap' =>
      cases hsame
      cases hsqueue.symm.trans hsqueue'
      exact hresolve hmap hmap' rfl
    | completed => cases hsame
  | completed hids hunique hsqueue hmissing hsacct hmap =>
    cases h' with
    | empty hids' => exact absurd hids' hids
    | listed => cases hsame
    | completed _ _ hsqueue' _ hsacct' hmap' =>
      cases hsame with
      | sacct hrows =>
        cases hsqueue.symm.trans hsqueue'
        cases toolListing_ok hsacct
        cases toolListing_ok hsacct'
        exact hresolve hmap hmap' (hrows.parse j)

/-! ## 6. The runs

Every run of either program meets the specification, and so the two agree wherever the scheduler
gives them the same answers. -/

section Runs

variable {ι : Type} [DecidableEq ι] {K : ι → Type}

/-- **Both queries meet the specification**, and their statuses agree where they are answered
alike. -/
theorem batch_queries_agree (ids : List JobId) :
    (∀ {t ms r} {w w' : World K},
      (machine K).call t (queryJobStatesBatchWith runCommand ids) ms w = some (r, w') →
        ∃ asked, Asked w w' asked ∧ statusQuery.Run ids asked r) ∧
    (∀ {t ms r} {w w' : World K},
      (machine K).call t (queryJobStatesWithExitCodeWith runCommand ids) ms w = some (r, w') →
        ∃ asked, Asked w w' asked ∧ outcomeQuery.Run ids asked r) ∧
    ∀ {t t' ms ms' statuses outcomes asked asked'} {w w' u u' : World K},
      (machine K).call t (queryJobStatesBatchWith runCommand ids) ms w =
        some (.ok statuses, w') →
      (machine K).call t' (queryJobStatesWithExitCodeWith runCommand ids) ms' u =
        some (.ok outcomes, u') →
      Asked w w' asked → Asked u u' asked' → SameAnswers asked asked' →
        ∀ j, (outcomes j).map JobOutcome.status = statuses j := by
  have hstatus : ∀ {t ms r} {w w' : World K},
      (machine K).call t (queryJobStatesBatchWith runCommand ids) ms w = some (r, w') →
        ∃ asked, Asked w w' asked ∧ statusQuery.Run ids asked r := by
    intro t ms r w w' h
    rw [queryJobStatesBatchWith_eq] at h
    exact statusQuery.call_program h
  have houtcome : ∀ {t ms r} {w w' : World K},
      (machine K).call t (queryJobStatesWithExitCodeWith runCommand ids) ms w = some (r, w') →
        ∃ asked, Asked w w' asked ∧ outcomeQuery.Run ids asked r := by
    intro t ms r w w' h
    rw [queryJobStatesWithExitCodeWith_eq] at h
    exact outcomeQuery.call_program h
  refine ⟨hstatus, houtcome, ?_⟩
  intro t t' ms ms' statuses outcomes asked asked' w w' u u' h h' hasked hasked' hsame j
  obtain ⟨asked₁, hasked₁, hrun⟩ := hstatus h
  obtain ⟨asked₂, hasked₂, hrun'⟩ := houtcome h'
  rw [hasked.unique hasked₁, hasked'.unique hasked₂] at hsame
  exact hrun.agree hrun' hsame j

end Runs

/-- Job 7 runs, job 8 has completed. -/
def twoAnswers (sacctText : Str) : List (Input ⊕ Tick) :=
  goesOn 1 ++ answers "7 RUNNING None\n" ++ goesOn 1 ++ answers sacctText

/-- What is asked of them, with sacct's answer. -/
def twoAsked (sacct : Str → Argv) (sacctText : Str) : List (Argv × Answer) :=
  [(squeueArgv "7,8", .ok ⟨0, "7 RUNNING None\n", []⟩), (sacct "8", .ok ⟨0, sacctText, []⟩)]

/-- What was asked, newest first. -/
def askedSoFar (w : (machine Key).World) : List (Argv × Answer) :=
  (World.calls w).map fun c => (c.argv, c.result)

/-- What the map says of jobs 7, 8 and 9. -/
def threeStatuses {β : Type} (r : Except Str (Map JobId β)) : List (Option β) :=
  match r with
  | .ok map => [map 7, map 8, map 9]
  | .error _ => []

/-- Nothing has been asked, and there is no handle. -/
def nothingAsked : World Key := .start (.countFrom 0) 0 0 (fun _ => .submitted 0 0 none) []

/-- One job is listed, one has gone, and of the third nothing is known. -/
theorem batch_queries_agree_two : ∃ statuses outcomes,
    threeStatuses (.ok statuses) = [some ⟨.running, .none⟩, some ⟨.completed, .none⟩, none] ∧
    threeStatuses (.ok outcomes) =
      [some ⟨⟨.running, .none⟩, none⟩, some ⟨⟨.completed, .none⟩, some 0⟩, none] ∧
    ∀ j, (outcomes j).map JobOutcome.status = statuses j := by
  obtain ⟨r, w', hcall, hr, hasked⟩ : ∃ r w', (machine Key).call 0
      (queryJobStatesBatchWith runCommand [7, 8, 7]) (twoAnswers "8|COMPLETED|None\n")
      nothingAsked = some (r, w') ∧
        threeStatuses r = [some ⟨.running, .none⟩, some ⟨.completed, .none⟩, none] ∧
        askedSoFar w' = (twoAsked sacctStatusArgv "8|COMPLETED|None\n").reverse :=
    (machine Key).exists_call (by decide +kernel)
  obtain ⟨r', u', hcall', hr', hasked'⟩ : ∃ r w', (machine Key).call 0
      (queryJobStatesWithExitCodeWith runCommand [7, 8, 7]) (twoAnswers "8|COMPLETED|None|0:0\n")
      nothingAsked = some (r, w') ∧
        threeStatuses r =
          [some ⟨⟨.running, .none⟩, none⟩, some ⟨⟨.completed, .none⟩, some 0⟩, none] ∧
        askedSoFar w' = (twoAsked sacctArgv "8|COMPLETED|None|0:0\n").reverse :=
    (machine Key).exists_call (by decide +kernel)
  cases r with
  | error e => cases hr
  | ok statuses =>
    cases r' with
    | error e => cases hr'
    | ok outcomes =>
      refine ⟨statuses, outcomes, hr, hr', ?_⟩
      have hrows : WithExitCodes "8|COMPLETED|None\n" "8|COMPLETED|None|0:0\n" := by
        have hrow : WithExitCode "8|COMPLETED|None" "8|COMPLETED|None|0:0" :=
          ⟨by decide +kernel, "0:0", by decide +kernel, by decide +kernel⟩
        exact .cons hrow .nil
      have hasked₁ : Asked nothingAsked w' (twoAsked sacctStatusArgv "8|COMPLETED|None\n") :=
        hasked.trans (List.append_nil _).symm
      have hasked₂ : Asked nothingAsked u' (twoAsked sacctArgv "8|COMPLETED|None|0:0\n") :=
        hasked'.trans (List.append_nil _).symm
      exact (batch_queries_agree [7, 8, 7]).2.2 hcall hcall' hasked₁ hasked₂ (.sacct hrows)

end Sbatch

/-
# Where an answer comes from

An answer that a handle reads through the caches was printed by some inner command.  `Source` says
how the two are related in time, and the `squeueStatus_*` lemmas what the text of the answer says
about the one job that the handle is about.
-/
import SlurmRunner.Sbatch.HandleSpec

namespace Sbatch

open Text Slurm Interact

/-! ## 1. The command behind an answer

An answer that a program reads may be a replay.  The command behind it is one that asked for the
key, and it completed less than `ttl` before the answer was read. -/

/-- The answer `rd` was printed by `c`: by a command that was started for it, or by an older one
that had completed less than `ttl` before. -/
structure Source (ttl : Nat) (rd : Read) (c : Call) : Prop where
  started : c.startedAt ≤ c.doneAt
  done : c.doneAt ≤ rd.readAt
  recent : rd.since ≤ c.startedAt ∨ rd.since < c.doneAt + ttl
  output : ∀ out, rd.result = .ok out ↔ c.result = .ok out

/-- A replay of an answer that was good is this answer. -/
theorem replay_eq_ok {r : Answer} {marker : Str} {out : CaptureOutput} :
    replay r marker = .ok out ↔ r = .ok out := by
  cases r <;> simp [replay]

/-- **Behind every answer there is a call**, not much older than the read. -/
theorem Answered.source {κ : Type} {shape : QueryShape κ} {ttl : Nat} {requested : List κ}
    {rd : Read} {P : Call → Prop} {calls : List Call}
    (h : Answered shape ttl rd.tid requested rd.since rd.readAt rd.result P calls) :
    ∃ c ∈ calls, ∃ batch, c.argv = shape.build batch ∧ (∀ k ∈ requested, k ∈ batch) ∧
      Source ttl rd c ∧ (rd.since ≤ c.startedAt ∨ P c) := by
  obtain ⟨c, hc, batch, hargv, hkeys, hle, ⟨-, hstart, hdone, hres⟩ |
    ⟨hnow, hdone, hage, hres, hP⟩⟩ := h
  · exact ⟨c, hc, batch, hargv, hkeys, ⟨hle, hdone, .inl hstart, fun out => hres ▸ Iff.rfl⟩,
      .inl hstart⟩
  · exact ⟨c, hc, batch, hargv, hkeys,
      ⟨hle, hdone, .inr (hnow.trans_lt hage), fun out => hres ▸ replay_eq_ok⟩, .inr hP⟩

/-- The command `c` has the form of the query `argv` and asked for all of its keys. -/
def Covers (argv : Argv) (c : Call) : Prop :=
  ∃ i requested batch, (toolShape i).parse argv = some requested ∧
    c.argv = (toolShape i).build batch ∧ ∀ k ∈ requested, k ∈ batch

/-- An answer to a query of a handle comes from a command that asked for all it asked for. -/
theorem CachedRead.source {ttl : Nat} {rd : Read} {calls : List Call} (h : CachedRead ttl rd calls)
    {i : Tool} {requested : List (Key i)} (hparse : (toolShape i).parse rd.argv = some requested) :
    ∃ c ∈ calls, Covers rd.argv c ∧ Source ttl rd c := by
  obtain ⟨c, hc, batch, hb, hkeys, hsrc, -⟩ := (h i requested hparse).source
  exact ⟨c, hc, ⟨i, requested, batch, hparse, hb, hkeys⟩, hsrc⟩

/-- The same for an answer to a query made since the world `w`: a command that completed before `w`
is the one behind the entry that the cache had then. -/
theorem CachedSince.source {ttl : Nat} {w : World Key} {rd : Read} {calls : List Call}
    (h : CachedSince ttl w rd calls) (hw : w.instant ≤ rd.since) {i : Tool}
    {requested : List (Key i)} (hparse : (toolShape i).parse rd.argv = some requested) :
    ∃ c ∈ calls, Covers rd.argv c ∧ Source ttl rd c ∧ FromSlot w i requested c := by
  obtain ⟨c, hc, batch, hb, hkeys, hsrc, hslot⟩ := (h i requested hparse).source
  refine ⟨c, hc, ⟨i, requested, batch, hparse, hb, hkeys⟩, hsrc, ?_⟩
  rcases hslot with hown | hslot
  · exact .inl ((hw.trans hown).trans hsrc.started)
  · exact hslot

/-- A squeue query for one key is one that the squeue cache takes. -/
theorem parse_squeueArgv (k : JobKey) :
    (toolShape .squeue).parse (squeueArgv k.display) = some [k] := by
  have h : JobKey.parseCsv (JobKey.buildCsv [k]) = some [k] :=
    JobKey.parseCsv_buildCsv (List.cons_ne_nil k [])
  rw [JobKey.buildCsv, List.map_singleton, List.intercalate_singleton] at h
  exact (squeue_parse_squeueArgv _).trans h

/-- The query of a refresh is one of these. -/
theorem parse_squeueKey (snap : SbatchJobSnapshot) :
    (toolShape .squeue).parse (squeueArgv snap.squeueKey) = some [snap.jobKey] :=
  snap.squeueKey_eq ▸ parse_squeueArgv snap.jobKey

/-- And the query of the finalizer is one that the sacct cache takes. -/
theorem parse_sacctArgv (j : JobId) :
    (toolShape .sacct).parse (sacctArgv (decimal j.toNat)) = some [.plain j] := by
  have h : JobKey.parseCsv (JobKey.buildCsv [.plain j]) = some [.plain j] :=
    JobKey.parseCsv_buildCsv (List.cons_ne_nil (JobKey.plain j) [])
  rw [JobKey.buildCsv, List.map_singleton, List.intercalate_singleton] at h
  exact (sacct_parse_sacctArgv _).trans h

/-- A query for one key is covered by the commands whose batch has that key. -/
theorem Covers.squeue {snap : SbatchJobSnapshot} {c : Call}
    (h : Covers (squeueArgv snap.squeueKey) c) :
    ∃ batch, c.argv = squeueArgv (JobKey.buildCsv batch) ∧ snap.jobKey ∈ batch := by
  obtain ⟨i, requested, batch, hparse, hb, hkeys⟩ := h
  cases i with
  | qgroup => cases hparse.symm.trans (qgroup_parse_squeueArgv _)
  | squeue =>
    cases hparse.symm.trans (parse_squeueKey snap)
    exact ⟨batch, hb, hkeys _ (List.mem_singleton_self _)⟩
  | sacct => cases hparse.symm.trans (sacct_parse_squeueArgv _)

/-! ## 2. What a squeue answer says of one job

A listing that has a row of the key has a status for it, so a job that is found gone had no row. -/

/-- The text has a usable row (at least two columns) whose id column is the key. -/
def HasRow (key : JobKey) (text : Str) : Prop :=
  ∃ line ∈ lines text, ∃ state rest, splitWhitespace line = key.display :: state :: rest

/-- A row of a job is read. -/
theorem parseSqueue_ne_none {text : Str} {j : JobId} (h : HasRow (.plain j) text) :
    parseSqueue text j ≠ none := by
  obtain ⟨line, hline, state, rest, hsplit⟩ := h
  intro hnone
  refine lastRows_eq_none.mp hnone line hline ⟨.parse state, .parse (rest.headD [])⟩ ?_
  refine squeueRow_eq_some.mpr ⟨_, state, rest, hsplit, ?_, rfl⟩
  exact parseU64_decimal j

/-- A row of a task is read. -/
theorem parseSqueueArrayTask_ne_none {text : Str} {key : JobKey} (h : HasRow key text) :
    parseSqueueArrayTask text key.display ≠ none := by
  obtain ⟨line, hline, state, rest, hsplit⟩ := h
  intro hnone
  have hrow := List.findSome?_eq_none_iff.mp hnone line hline
  rw [squeueTaskRow_eq_some.mpr ⟨state, rest, hsplit, rfl⟩] at hrow
  cases hrow

/-- squeue answers that there is no such job, or it prints a listing. -/
theorem squeueListing_eq_ok {α : Type} {parse : Str → α} {empty x : α} {r : Answer}
    (h : squeueListing parse empty r = .ok x) : ∃ out, r = .ok out ∧
      ((squeueReportsVanished out = true ∧ x = empty) ∨
        (out.exitCode = 0 ∧ x = parse out.stdout)) := by
  unfold squeueListing at h
  cases r with
  | error e => cases h
  | ok out =>
    refine ⟨out, rfl, ?_⟩
    dsimp only at h
    split at h
    · rename_i hv
      cases h
      exact .inl ⟨hv, rfl⟩
    · unfold ensureQuerySuccess at h
      split at h
      · cases h
      · rename_i hs
        split at hs
        · rename_i hz
          cases h
          exact .inr ⟨by simpa [CaptureOutput.success] using hz, rfl⟩
        · cases hs

/-- squeue says that the job is gone: the vanish signal, or a listing without its row. -/
def SaysGone (key : JobKey) (out : CaptureOutput) : Prop :=
  (out.exitCode = 0 ∧ ¬ HasRow key out.stdout) ∨
    (out.exitCode ≠ 0 ∧ contains "Invalid job id specified" out.stderr = true)

/-- **A missing row is the absence of a row.** -/
theorem squeueStatus_eq_none {snap : SbatchJobSnapshot} {r : Answer}
    (h : squeueStatus snap r = .ok none) : ∃ out, r = .ok out ∧ SaysGone snap.jobKey out := by
  unfold squeueStatus at h
  unfold SbatchJobSnapshot.jobKey
  cases hidx : snap.arrayTaskId with
  | some idx =>
    rw [hidx] at h
    obtain ⟨out, hr, ⟨hv, -⟩ | ⟨hz, hx⟩⟩ := squeueListing_eq_ok h
    · exact ⟨out, hr, .inr (by simpa [squeueReportsVanished] using hv)⟩
    · exact ⟨out, hr, .inl ⟨hz, fun hrow => parseSqueueArrayTask_ne_none hrow hx.symm⟩⟩
  | none =>
    rw [hidx] at h
    obtain ⟨out, hr, ⟨hv, -⟩ | ⟨hz, hx⟩⟩ := squeueListing_eq_ok h
    · exact ⟨out, hr, .inr (by simpa [squeueReportsVanished] using hv)⟩
    · exact ⟨out, hr, .inl ⟨hz, fun hrow => parseSqueue_ne_none hrow hx.symm⟩⟩

end Sbatch

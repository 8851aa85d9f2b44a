/-
# The id of a submitted job

What `parseSubmittedJobid` finds in the output of sbatch, said without the scan: the number of the
first line that confirms a submission, whatever stands around it.
-/
import SlurmRunner.Sbatch.Cmd

namespace Sbatch

open Text Slurm

/-- What sbatch prints before the id. -/
def submittedPrefix : Str := "Submitted batch job "

/-- The trimmed line confirms the job `n`: after the prefix comes a run of digits, which ends where
the line ends or `rest` begins. -/
def Confirms (line : Str) (n : JobId) : Prop :=
  ∃ ds rest, trim line = submittedPrefix ++ ds ++ rest ∧ Digits ds n.toNat ∧
    ∀ c, rest.head? = some c → c.isDigit = false

/-- A run of digits ends at the first character that is none. -/
theorem takeWhile_isDigit_append {ds rest : Str} (hds : ∀ c ∈ ds, c.isDigit = true)
    (hrest : ∀ c, rest.head? = some c → c.isDigit = false) :
    (ds ++ rest).takeWhile Char.isDigit = ds := by
  rw [List.takeWhile_append_of_pos hds]
  cases rest with
  | nil => simp
  | cons c rest => simp [hrest c rfl]

/-- The run of digits at the front of a text. -/
theorem exists_run (s : Str) : ∃ rest, s = s.takeWhile Char.isDigit ++ rest ∧
    ∀ c, rest.head? = some c → c.isDigit = false := by
  refine ⟨s.dropWhile Char.isDigit, List.takeWhile_append_dropWhile.symm, fun c hc => ?_⟩
  have hhead := List.head?_dropWhile_not Char.isDigit s
  rw [hc] at hhead
  simpa using hhead

/-- **One line** is read as the id that it confirms. -/
theorem submittedLine_eq_some_iff {line : Str} {n : JobId} :
    submittedLine line = some n ↔ Confirms line n := by
  unfold submittedLine
  simp only [bind, Option.bind_eq_some_iff, stripStart_eq_some_iff]
  constructor
  · rintro ⟨text, htext, h⟩
    split at h
    · cases h
    obtain ⟨rest, hrun, hrest⟩ := exists_run text
    have hdigits : Digits (text.takeWhile Char.isDigit) n.toNat := by
      refine (parseU64_eq_some_iff.mp h).digits fun hplus => ?_
      have hdigit := List.mem_takeWhile_imp hplus
      cases hdigit
    refine ⟨_, rest, ?_, hdigits, hrest⟩
    rw [htext, List.append_assoc, ← hrun]
    rfl
  · rintro ⟨ds, rest, htext, hdigits, hrest⟩
    refine ⟨ds ++ rest, by rw [htext, List.append_assoc]; rfl, ?_⟩
    rw [takeWhile_isDigit_append (fun _ => hdigits.isDigit) hrest, if_neg hdigits.ne_nil]
    exact parseU64_eq_some_iff.mpr hdigits.signed

/-- **The first confirmation is found**, whatever stands before it, behind it or after its digits,
and nothing is found exactly if there is none. -/
theorem submitted_jobid_first (stdout : Str) :
    (∀ n, parseSubmittedJobid stdout = some n ↔
      ∃ before line after, lines stdout = before ++ line :: after ∧ Confirms line n ∧
        ∀ l ∈ before, ∀ m, ¬ Confirms l m) ∧
      (parseSubmittedJobid stdout = none ↔ ∀ l ∈ lines stdout, ∀ m, ¬ Confirms l m) := by
  have hnone : ∀ l, submittedLine l = none ↔ ∀ m, ¬ Confirms l m := by
    intro l
    simp only [Option.eq_none_iff_forall_not_mem, Option.mem_def, submittedLine_eq_some_iff]
  refine ⟨fun n => ?_, ?_⟩
  · simp only [parseSubmittedJobid, List.findSome?_eq_some_iff, submittedLine_eq_some_iff, hnone]
  · simp only [parseSubmittedJobid, List.findSome?_eq_none_iff, hnone]

/-- A warning and a number that is too long come first, and the name of a cluster follows. -/
example : parseSubmittedJobid ("sbatch: warning: x\nSubmitted batch job 99999999999999999999\n" ++
    "  Submitted batch job 42 on cluster c\n" : String) = some 42 := by decide +kernel

end Sbatch

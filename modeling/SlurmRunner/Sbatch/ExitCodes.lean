/-
# Exit codes

The `ExitCode` column of sacct is `<exit>:<signal>`, and a job that a signal ended has the exit code
`128 + signal`.  The sum is taken in `i32`: it wraps, or panics where overflow is checked, so that
the parsers are exact on the listings whose signals leave room for it.
-/
import SlurmRunner.Sbatch.Projection
import SlurmRunner.Text.Separated

namespace Sbatch

open Text Slurm

/-! ## 1. The column

`ExitCode` has two numbers with a colon between them, the exit code of the program and the signal
that has ended it. -/

/-- `n` is a value of `i32`. -/
def InI32 (n : Int) : Prop := -2 ^ 31 ≤ n ∧ n ≤ 2 ^ 31 - 1

instance (n : Int) : Decidable (InI32 n) :=
  inferInstanceAs (Decidable (-2 ^ 31 ≤ n ∧ n ≤ 2 ^ 31 - 1))

/-- The field is `<exit>:<signal>`, with both parts in `i32`. -/
def ExitPair (field : Str) (exit signal : Int) : Prop :=
  ∃ a b, field = a ++ ':' :: b ∧ parseI32 a = some exit ∧ parseI32 b = some signal

/-- The exit code that the two parts stand for. -/
def exitValue (exit signal : Int) : Int := if signal ≠ 0 then 128 + signal else exit

/-- `parse_sacct_exit_code` where overflow is checked: the sum panics. -/
def checkedExitCode (field : Str) : Except Str (Option Int) :=
  match splitOnce ':' field with
  | none => .ok none
  | some (exitS, signalS) =>
    match parseI32 exitS, parseI32 signalS with
    | some exit, some signal =>
      if signal ≠ 0 then
        if InI32 (128 + signal) then .ok (some (128 + signal))
        else .error "attempt to add with overflow"
      else .ok (some exit)
    | _, _ => .ok none

/-- What is parsed is an `i32`. -/
theorem inI32_of_parseI32 {s : Str} {n : Int} (h : parseI32 s = some n) : InI32 n := by
  unfold parseI32 at h
  split at h
  · obtain ⟨m, hm, rfl⟩ := Option.map_eq_some_iff.mp h
    obtain ⟨k, hk, heq⟩ := Option.bind_eq_some_iff.mp hm
    cases heq
    have hle : k ≤ 2 ^ 31 := by simpa using (Option.filter_eq_some_iff.mp hk).2
    constructor <;> omega
  · obtain ⟨m, hm, rfl⟩ := Option.map_eq_some_iff.mp h
    have hlt := (parseUnsigned_eq_some_iff.mp hm).2
    constructor <;> simp only [Int.ofNat_eq_natCast] <;> omega

/-- A number has no colon, so the column is split in one way. -/
theorem colon_not_mem_of_parseI32 {s : Str} {n : Int} (h : parseI32 s = some n) : ':' ∉ s := by
  unfold parseI32 at h
  split at h
  · obtain ⟨m, hm, -⟩ := Option.map_eq_some_iff.mp h
    obtain ⟨k, hk, -⟩ := Option.bind_eq_some_iff.mp hm
    have hdigits : Digits _ k := (Option.filter_eq_some_iff.mp hk).1
    simp [hdigits.not_mem]
  · obtain ⟨m, hm, -⟩ := Option.map_eq_some_iff.mp h
    exact (parseUnsigned_eq_some_iff.mp hm).1.not_mem rfl (by decide)

/-- The column has two numbers exactly if both parts are parsed. -/
theorem exitPair_iff {field : Str} {exit signal : Int} : ExitPair field exit signal ↔
    ∃ a b, splitOnce ':' field = some (a, b) ∧ parseI32 a = some exit ∧
      parseI32 b = some signal := by
  constructor
  · rintro ⟨a, b, rfl, ha, hb⟩
    exact ⟨a, b, splitOnce_append (colon_not_mem_of_parseI32 ha) b, ha, hb⟩
  · rintro ⟨a, b, hsplit, ha, hb⟩
    exact ⟨a, b, (splitOnce_eq_some_iff.mp hsplit).1, ha, hb⟩

/-- The two parts are read in one way. -/
theorem ExitPair.unique {field : Str} {e s e' s' : Int} (h : ExitPair field e s)
    (h' : ExitPair field e' s') : e = e' ∧ s = s' := by
  obtain ⟨a, b, hsplit, ha, hb⟩ := exitPair_iff.mp h
  obtain ⟨a', b', hsplit', ha', hb'⟩ := exitPair_iff.mp h'
  rw [hsplit] at hsplit'
  cases hsplit'
  exact ⟨Option.some.inj (ha.symm.trans ha'), Option.some.inj (hb.symm.trans hb')⟩

/-- The field is a pair, or the parser of the column refuses it, checked or not. -/
theorem exitCode_cases (field : Str) :
    (∃ exit signal, ExitPair field exit signal ∧
      parseSacctExitCode field =
        some (if signal ≠ 0 then (128 + signal).bmod (2 ^ 32) else exit) ∧
      checkedExitCode field =
        if signal ≠ 0 then
          if InI32 (128 + signal) then .ok (some (128 + signal))
          else .error "attempt to add with overflow"
        else .ok (some exit)) ∨
      (∀ exit signal, ¬ ExitPair field exit signal) ∧ parseSacctExitCode field = none ∧
        checkedExitCode field = .ok none := by
  by_cases hpair : ∃ exit signal, ExitPair field exit signal
  · left
    obtain ⟨exit, signal, h⟩ := hpair
    obtain ⟨a, b, hsplit, ha, hb⟩ := exitPair_iff.mp h
    refine ⟨exit, signal, h, ?_, ?_⟩
    · by_cases hzero : signal = 0 <;> simp [parseSacctExitCode, hsplit, ha, hb, hzero]
    · simp only [checkedExitCode, hsplit, ha, hb]
  · right
    refine ⟨fun exit signal h => hpair ⟨exit, signal, h⟩, ?_⟩
    cases hsplit : splitOnce ':' field with
    | none => simp [parseSacctExitCode, checkedExitCode, hsplit]
    | some p =>
      cases ha : parseI32 p.1 with
      | none => simp [parseSacctExitCode, checkedExitCode, hsplit, ha]
      | some exit =>
        cases hb : parseI32 p.2 with
        | none => simp [parseSacctExitCode, checkedExitCode, hsplit, ha, hb]
        | some signal =>
          exact absurd ⟨exit, signal, exitPair_iff.mpr ⟨p.1, p.2, hsplit, ha, hb⟩⟩ hpair

/-! ## 2. Exact codes

A program that a signal has ended gets the code 128 plus the signal, as a shell reports it, and the
sum is one of `i32`. So the code is exact where the sum does not wrap. -/

/-- The code is the exact value of the field, and there is none where that is no `i32`. -/
def ExactCode (field : Option Str) (code : Option Int) : Prop :=
  ∀ v, code = some v ↔ ∃ f exit signal, field = some f ∧ ExitPair f exit signal ∧
    v = exitValue exit signal ∧ InI32 v

/-- The signal of the field leaves room for the sum. -/
def Roomy (field : Option Str) : Prop :=
  ∀ f exit signal, field = some f → ExitPair f exit signal → signal ≤ 2 ^ 31 - 1 - 128

/-- **One field** is read without a panic if and only if it is roomy, and then as without checks. -/
theorem checkedExitCode_eq_ok {f : Str} {r : Option Int} :
    checkedExitCode f = .ok r ↔ r = parseSacctExitCode f ∧ Roomy (some f) := by
  rcases exitCode_cases f with ⟨exit, signal, hpair, hcode, hchecked⟩ | ⟨hnone, hcode, hchecked⟩
  · have hroomy : Roomy (some f) ↔ signal ≤ 2 ^ 31 - 1 - 128 := by
      constructor
      · intro h
        exact h f exit signal rfl hpair
      · rintro h f' exit' signal' hf hpair'
        cases hf
        rw [← (hpair.unique hpair').2]
        exact h
    obtain ⟨a, b, -, -, hb⟩ := hpair
    have hrange := inI32_of_parseI32 hb
    rw [hcode, hchecked, hroomy]
    by_cases hzero : signal = 0
    · subst hzero
      simp [eq_comm]
    · have hsum : InI32 (128 + signal) ↔ signal ≤ 2 ^ 31 - 1 - 128 := by
        unfold InI32 at hrange ⊢
        omega
      by_cases hle : signal ≤ 2 ^ 31 - 1 - 128
      · have hbmod : (128 + signal).bmod (2 ^ 32) = 128 + signal := by
          obtain ⟨hlow, hhigh⟩ := hsum.mpr hle
          rw [Int.bmod_def]
          split <;> omega
        rw [if_pos hzero, if_pos hzero, if_pos (hsum.mpr hle), hbmod, and_iff_left hle]
        simp [eq_comm]
      · rw [if_pos hzero, if_neg (mt hsum.mp hle)]
        constructor
        · intro h
          cases h
        · rintro ⟨-, h⟩
          exact absurd h hle
  · have hroomy : Roomy (some f) := by
      rintro f' exit signal hf hpair
      cases hf
      exact absurd hpair (hnone exit signal)
    rw [hcode, hchecked]
    simp [hroomy, eq_comm]

/-- A roomy field is read exactly. -/
theorem exactCode_of_roomy {field : Option Str} (h : Roomy field) :
    ExactCode field (field.bind parseSacctExitCode) := by
  intro v
  cases field with
  | none => simp
  | some f =>
    rw [Option.bind_some]
    rcases exitCode_cases f with ⟨exit, signal, hpair, hcode, -⟩ | ⟨hnone, hcode, -⟩
    · have hle := h f exit signal rfl hpair
      have hvalue : (if signal ≠ 0 then (128 + signal).bmod (2 ^ 32) else exit) =
          exitValue exit signal ∧ InI32 (exitValue exit signal) := by
        obtain ⟨a, b, -, ha, hb⟩ := hpair
        obtain ⟨hlow, hhigh⟩ := inI32_of_parseI32 hb
        unfold exitValue
        by_cases hzero : signal = 0
        · simp only [hzero, ne_eq, not_true_eq_false, if_false, true_and]
          exact inI32_of_parseI32 ha
        · rw [if_pos hzero, if_pos hzero, Int.bmod_def]
          constructor
          · split <;> omega
          · constructor <;> omega
      rw [hcode, hvalue.1]
      constructor
      · intro hv
        cases hv
        exact ⟨f, exit, signal, rfl, hpair, rfl, hvalue.2⟩
      · rintro ⟨f', exit', signal', hf, hpair', rfl, -⟩
        cases hf
        obtain ⟨rfl, rfl⟩ := hpair.unique hpair'
        rfl
    · rw [hcode]
      constructor
      · intro hv
        cases hv
      · rintro ⟨f', exit', signal', hf, hpair', -⟩
        cases hf
        exact absurd hpair' (hnone exit' signal')

/-! ## 3. Rows

A row of the job itself, not of one of its steps, with four columns. -/

/-- The fourth column. -/
def exitField (line : Str) : Option Str := (splitN '|' 4 line)[3]?

/-- `parse_sacct_with_exit_code` on one line, where overflow is checked. -/
def sacctRowChecked (line : Str) : Except Str (Option (JobId × JobOutcome)) :=
  match splitN '|' 4 line with
  | jidStr :: stateStr :: rest =>
    if '.' ∈ jidStr then .ok none
    else match parseU64 jidStr with
      | none => .ok none
      | some jid =>
        ((rest[1]?.map checkedExitCode).getD (.ok none)).map fun exitCode =>
          some (jid, ⟨⟨.parse stateStr, .parse (rest.headD [])⟩, exitCode⟩)
  | _ => .ok none

/-- `parse_sacct_array_task_with_exit_code` on one line, where overflow is checked. -/
def sacctTaskRowChecked (key : Str) (line : Str) : Except Str (Option JobOutcome) :=
  match splitN '|' 4 line with
  | jidStr :: stateStr :: rest =>
    if jidStr = key then
      ((rest[1]?.map checkedExitCode).getD (.ok none)).map fun exitCode =>
        some ⟨⟨.parse stateStr, .parse (rest.headD [])⟩, exitCode⟩
    else .ok none
  | _ => .ok none

/-- A row of a job: the id column is a job id, and there is a second column. -/
def JobRow (line : Str) : Prop := (∃ j, sacctJob line = some j) ∧ '|' ∈ line

/-- A row of a task. -/
def TaskRow (key line : Str) : Prop := sacctIdColumn line = key ∧ '|' ∈ line

/-- Without a separator a line has one column. -/
theorem splitN_of_not_mem {line : Str} (h : '|' ∉ line) : splitN '|' 4 line = [line] := by
  rw [splitN, splitOnce_eq_none h]

/-- The columns of a line that has at least two. -/
theorem exists_columns {line : Str} (h : '|' ∈ line) :
    ∃ state rest, splitN '|' 4 line = sacctIdColumn line :: state :: rest ∧
      exitField line = rest[1]? := by
  obtain ⟨rest, hcolumns⟩ := splitN_bar 2 line
  cases rest with
  | nil =>
    obtain ⟨a, b, rfl, ha⟩ := List.eq_append_cons_of_mem h
    rw [splitN_append ha] at hcolumns
    have hrest := (List.cons.inj hcolumns).2
    rw [splitN] at hrest
    split at hrest <;> cases hrest
  | cons state rest => exact ⟨state, rest, hcolumns, by rw [exitField, hcolumns]; rfl⟩

/-- The optional field is read without a panic if and only if it is roomy. -/
theorem checkedField_eq_ok {α : Type} {field : Option Str} {mk : Option Int → α} {r : α} :
    ((field.map checkedExitCode).getD (.ok none)).map mk = .ok r ↔
      r = mk (field.bind parseSacctExitCode) ∧ Roomy field := by
  rw [map_eq_ok]
  cases field with
  | none =>
    have hroomy : Roomy none := by
      intro f exit signal hf
      cases hf
    simp [hroomy, eq_comm]
  | some f =>
    simp only [Option.map_some, Option.getD_some, Option.bind_some, checkedExitCode_eq_ok]
    constructor
    · rintro ⟨a, ⟨rfl, hroomy⟩, rfl⟩
      exact ⟨rfl, hroomy⟩
    · rintro ⟨rfl, hroomy⟩
      exact ⟨_, ⟨rfl, hroomy⟩, rfl⟩

/-- **A line of the map parser** can be read if and only if it is no row or its field is roomy. -/
theorem sacctRowChecked_eq_ok {line : Str} {r : Option (JobId × JobOutcome)} :
    sacctRowChecked line = .ok r ↔ r = sacctRow line ∧ (JobRow line → Roomy (exitField line)) := by
  by_cases hbar : '|' ∈ line
  · obtain ⟨state, rest, hcolumns, hfield⟩ := exists_columns hbar
    have hjob : JobRow line ↔ ∃ j, parseU64 (sacctIdColumn line) = some j :=
      and_iff_left hbar
    rw [sacctRowChecked, sacctRow, hcolumns, hjob, hfield]
    dsimp only
    by_cases hdot : '.' ∈ sacctIdColumn line
    · rw [if_pos hdot, if_pos hdot, parseU64_eq_none hdot rfl (by decide)]
      simp [eq_comm]
    · rw [if_neg hdot, if_neg hdot]
      cases parseU64 (sacctIdColumn line) with
      | none => simp [eq_comm]
      | some jid =>
        dsimp only
        rw [checkedField_eq_ok]
        simp
  · have hjob : ¬ JobRow line := fun h => hbar h.2
    rw [sacctRowChecked, sacctRow, splitN_of_not_mem hbar]
    simp [hjob, eq_comm]

/-- **A line of the search** likewise. -/
theorem sacctTaskRowChecked_eq_ok {key line : Str} {r : Option JobOutcome} :
    sacctTaskRowChecked key line = .ok r ↔
      r = sacctTaskRow key line ∧ (TaskRow key line → Roomy (exitField line)) := by
  by_cases hbar : '|' ∈ line
  · obtain ⟨state, rest, hcolumns, hfield⟩ := exists_columns hbar
    have htask : TaskRow key line ↔ sacctIdColumn line = key := and_iff_left hbar
    rw [sacctTaskRowChecked, sacctTaskRow, hcolumns, htask, hfield]
    dsimp only
    by_cases hkey : sacctIdColumn line = key
    · rw [if_pos hkey, if_pos hkey, checkedField_eq_ok]
      simp [hkey]
    · rw [if_neg hkey, if_neg hkey]
      simp [hkey, eq_comm]
  · have htask : ¬ TaskRow key line := fun h => hbar h.2
    rw [sacctTaskRowChecked, sacctTaskRow, splitN_of_not_mem hbar]
    simp [htask, eq_comm]

/-- The code of a row is what its fourth column is read as. -/
theorem exitCode_of_sacctRow {line : Str} {j : JobId} {o : JobOutcome}
    (h : sacctRow line = some (j, o)) :
    JobRow line ∧ o.exitCode = (exitField line).bind parseSacctExitCode := by
  have hjob := (sacctJob_of_row h).1
  by_cases hbar : '|' ∈ line
  · obtain ⟨state, rest, hcolumns, hfield⟩ := exists_columns hbar
    refine ⟨⟨⟨j, hjob⟩, hbar⟩, ?_⟩
    rw [sacctRow, hcolumns] at h
    dsimp only at h
    split at h
    · cases h
    · obtain ⟨jid, -, heq⟩ := Option.map_eq_some_iff.mp h
      cases heq
      rw [hfield]
  · rw [sacctRow, splitN_of_not_mem hbar] at h
    cases h

/-- The outcome of a row has the code of its exit field. -/
theorem exitCode_of_sacctTaskRow {key line : Str} {o : JobOutcome}
    (h : sacctTaskRow key line = some o) :
    TaskRow key line ∧ o.exitCode = (exitField line).bind parseSacctExitCode := by
  by_cases hbar : '|' ∈ line
  · obtain ⟨state, rest, hcolumns, hfield⟩ := exists_columns hbar
    refine ⟨⟨sacctIdColumn_of_row h, hbar⟩, ?_⟩
    rw [sacctTaskRow, hcolumns] at h
    dsimp only at h
    split at h
    · cases h
      rw [hfield]
    · cases h
  · rw [sacctTaskRow, splitN_of_not_mem hbar] at h
    cases h

/-- A line is no row of the key exactly if it does not show it. -/
theorem sacctTaskRow_eq_none {key line : Str} :
    sacctTaskRow key line = none ↔ ¬ TaskRow key line := by
  constructor
  · rintro h ⟨hkey, hbar⟩
    obtain ⟨state, rest, hcolumns, -⟩ := exists_columns hbar
    rw [sacctTaskRow, hcolumns] at h
    dsimp only at h
    rw [if_pos hkey] at h
    cases h
  · intro h
    exact Option.eq_none_iff_forall_ne_some.mpr fun o ho => h (exitCode_of_sacctTaskRow ho).1

/-! ## 4. Texts

The parser of the map takes the last row of a job, the one of a task the first row. -/

/-- `parse_sacct_with_exit_code`, where overflow is checked. -/
def parseSacctWithExitCodeChecked (text : Str) : Except Str (Map JobId JobOutcome) :=
  lastRowsM sacctRowChecked (lines text)

/-- `parse_sacct_array_task_with_exit_code`, where overflow is checked. -/
def parseSacctArrayTaskChecked (text key : Str) : Except Str (Option JobOutcome) :=
  (lines text).findSomeM? (sacctTaskRowChecked key)

/-- The map parser does not overflow, and each of its rows has the exact code. -/
def ExactMap (text : Str) : Prop :=
  parseSacctWithExitCodeChecked text = .ok (parseSacctWithExitCode text) ∧
    ∀ line ∈ lines text, ∀ j o, sacctRow line = some (j, o) → ExactCode (exitField line) o.exitCode

/-- The search for a task does not overflow, and the row that it finds has the exact code. -/
def ExactTask (text key : Str) : Prop :=
  parseSacctArrayTaskChecked text key = .ok (parseSacctArrayTaskWithExitCode text key) ∧
    ∀ before line after o, lines text = before ++ line :: after →
      (∀ l ∈ before, sacctTaskRow key l = none) → sacctTaskRow key line = some o →
      parseSacctArrayTaskWithExitCode text key = some o ∧ ExactCode (exitField line) o.exitCode

/-- **Exit codes are exact if and only if the signals leave room for the sum**, those of all rows of
jobs, or that of the first row of a task. -/
theorem exit_code_exact_iff (text : Str) :
    (ExactMap text ↔ ∀ line ∈ lines text, JobRow line → Roomy (exitField line)) ∧
      ∀ key, ExactTask text key ↔
        ∀ before line after, lines text = before ++ line :: after →
          (∀ l ∈ before, ¬ TaskRow key l) → TaskRow key line → Roomy (exitField line) := by
  refine ⟨⟨?_, ?_⟩, fun key => ⟨?_, ?_⟩⟩
  · rintro ⟨hok, -⟩
    exact ((lastRowsM_eq_ok fun _ _ => sacctRowChecked_eq_ok).mp hok).2
  · intro h
    refine ⟨(lastRowsM_eq_ok fun _ _ => sacctRowChecked_eq_ok).mpr ⟨rfl, h⟩, ?_⟩
    intro line hline j o hrow
    obtain ⟨hjob, hcode⟩ := exitCode_of_sacctRow hrow
    rw [hcode]
    exact exactCode_of_roomy (h line hline hjob)
  · rintro ⟨hok, -⟩ before line after hlines hbefore
    refine ((findSomeM?_eq_ok fun _ _ => sacctTaskRowChecked_eq_ok).mp hok).2 before line after
      hlines ?_
    exact fun l hl => sacctTaskRow_eq_none.mpr (hbefore l hl)
  · intro h
    refine ⟨(findSomeM?_eq_ok fun _ _ => sacctTaskRowChecked_eq_ok).mpr ⟨rfl, ?_⟩, ?_⟩
    · intro before line after hlines hbefore
      exact h before line after hlines fun l hl => sacctTaskRow_eq_none.mp (hbefore l hl)
    · intro before line after o hlines hbefore hrow
      obtain ⟨htask, hcode⟩ := exitCode_of_sacctTaskRow hrow
      refine ⟨?_, ?_⟩
      · exact List.findSome?_eq_some_iff.mpr ⟨before, line, after, hlines, hrow, hbefore⟩
      · rw [hcode]
        exact exactCode_of_roomy (h before line after hlines
          (fun l hl => sacctTaskRow_eq_none.mp (hbefore l hl)) htask)

/-- The largest signal overflows: with checks the parser panics, without them the code wraps. -/
theorem exit_code_overflows : ¬ ExactMap "1|FAILED|None|0:2147483647" ∧
    (parseSacctWithExitCode "1|FAILED|None|0:2147483647" 1).bind JobOutcome.exitCode =
      some (-2147483521) := by
  refine ⟨?_, by decide +kernel⟩
  rintro ⟨hok, -⟩
  have hpanic : (parseSacctWithExitCodeChecked "1|FAILED|None|0:2147483647").isOk = false := by
    decide +kernel
  rw [hok] at hpanic
  cases hpanic

end Sbatch

/-
# Reading the command line back

`build_argv` flattens the fields of a command into one list of words.  The options of sbatch that it
writes are a table of options, and its command line is the one written from that table
(`buildArgv_eq`), so that the fields, the script and its arguments can be read back from it
(`argv_decodable`).
-/
import SlurmRunner.Sbatch.Cmd
import SlurmRunner.Text.OptionTable

namespace Sbatch

open Text Slurm

/-! ## 1. The options of the command line -/

/-- The options, in the order in which they are written. -/
inductive SbatchOption where
  | jobName
  | partition
  | timeLimit
  | rsc
  | output
  | error
  | chdir
  | arraySpec
  | env
  | dependency
  | mailUser
  | mailType
  | signal
  | noRequeue
  | comment
  | nice
deriving DecidableEq, Repr

namespace SbatchOption

def all : List SbatchOption :=
  [jobName, partition, timeLimit, rsc, output, error, chdir, arraySpec, env, dependency, mailUser,
    mailType, signal, noRequeue, comment, nice]

theorem mem_all (o : SbatchOption) : o ∈ all := by
  cases o <;> decide

def word : SbatchOption → Str
  | jobName => "-J"
  | partition => "-p"
  | timeLimit => "-t"
  | rsc => "--rsc"
  | output => "-o"
  | error => "-e"
  | chdir => "--chdir"
  | arraySpec => "-a"
  | env => "--export="
  | dependency => "-d"
  | mailUser => "--mail-user"
  | mailType => "--mail-type"
  | signal => "--signal"
  | noRequeue => "--no-requeue"
  | comment => "--comment"
  | nice => "--nice="

def form : SbatchOption → ValueForm
  | env | nice => .joined
  | noRequeue => .alone
  | _ => .next

theorem prefixFree : ∀ o ∈ all, ∀ o' ∈ all, o.word <+: o'.word → o = o' := by decide +kernel

/-- Every word begins with a hyphen. -/
theorem head_word : ∀ o ∈ all, o.word.head? = some '-' := by decide +kernel

end SbatchOption

/-- The options of sbatch. -/
def sbatchOptions : OptionTable SbatchOption where
  options := SbatchOption.all
  word := SbatchOption.word
  form := SbatchOption.form
  prefixFree := SbatchOption.prefixFree

/-! ## 2. The rendered fields of a command -/

/-- What a command says to sbatch. -/
structure Rendered where
  field : SbatchOption → Option Str
  script : Str
  args : List Str

/-- The options that are set, in their order. -/
def Rendered.settings (r : Rendered) : List (SbatchOption × Str) := sbatchOptions.settings r.field

/-- The value of `--export=`; an empty environment is not exported. -/
def SbatchCmd.exportValue (cmd : SbatchCmd) : Except SbatchSpawnError (Option Str) :=
  if cmd.env = [] then .ok none else (renderExport cmd.env).map some

/-- The fields as they are rendered, where the directory, the environment and the script are
given. -/
def SbatchCmd.renderedWith (cmd : SbatchCmd) (chdir exported : Option Str) (script : Str) :
    Rendered where
  field
    | .jobName => cmd.jobName
    | .partition => cmd.partition
    | .timeLimit => cmd.timeLimit.map JobTimeLimit.toStr
    | .rsc => (cmd.rsc.map ResourceSpec.toStr).filter (· ≠ [])
    | .output => cmd.output
    | .error => cmd.error
    | .chdir => chdir
    | .arraySpec => cmd.arraySpec.map SlurmArraySpec.toStr
    | .env => exported
    | .dependency => cmd.dependency.map SlurmDependency.toStr
    | .mailUser => cmd.mailUser
    | .mailType => cmd.mailTypes.map MailTypeInput.toStr
    | .signal => cmd.signal.map SlurmSignalSpec.toStr
    | .noRequeue => if cmd.noRequeue then some [] else none
    | .comment => cmd.comment
    | .nice => cmd.nice.map showI32
  script := script
  args := cmd.args

/-- The fields of a command as they are rendered. -/
def SbatchCmd.rendered (cmd : SbatchCmd) (chdirDir scriptDir : Except Str Str) :
    Except SbatchSpawnError Rendered := do
  let chdir ← cmd.chdirValue chdirDir
  let exported ← cmd.exportValue
  let script ← absolutize scriptDir cmd.script
  return cmd.renderedWith chdir exported script

/-! ## 3. The command line is written from the table -/

theorem SbatchCmd.exportFlag_eq (cmd : SbatchCmd) :
    cmd.exportFlag = cmd.exportValue.map fun v => (v.map (sbatchOptions.emit .env)).getD [] := by
  unfold exportFlag exportValue
  split
  · rfl
  · cases renderExport cmd.env with
    | error e => rfl
    | ok s => rfl

/-- **The command line is the written form of the rendered fields.** -/
theorem SbatchCmd.buildArgv_eq (cmd : SbatchCmd) (chdirDir scriptDir : Except Str Str) :
    cmd.buildArgv chdirDir scriptDir = (cmd.rendered chdirDir scriptDir).map fun r =>
      cmd.sbatchBin :: sbatchOptions.write r.field r.script r.args := by
  unfold buildArgv rendered
  rw [exportFlag_eq]
  rcases cmd.chdirValue chdirDir with e | chdir
  · rfl
  rcases cmd.exportValue with e | exported
  · rfl
  rcases absolutize scriptDir cmd.script with e | script
  · rfl
  have hrequeue : (if cmd.noRequeue then [("--no-requeue" : Str)] else []) =
      ((if cmd.noRequeue then some [] else none).map (sbatchOptions.emit .noRequeue)).getD [] := by
    cases cmd.noRequeue
    · rfl
    · rfl
  have hnice : (cmd.nice.map fun n => ("--nice=" : Str) ++ showI32 n).toList =
      ((cmd.nice.map showI32).map (sbatchOptions.emit .nice)).getD [] := by
    cases cmd.nice
    · rfl
    · rfl
  refine congrArg Except.ok ?_
  dsimp only
  rw [OptionTable.write, OptionTable.flatMap_settings, hrequeue, hnice]
  simp only [sbatchOptions, SbatchOption.all, List.flatMap_cons, List.flatMap_nil,
    List.append_assoc,
    List.cons_append, List.nil_append]
  rfl

/-! ## 4. Reading it back -/

/-- What the scan reads determines what the command says. -/
theorem Rendered.eq_of_settings {r r' : Rendered} (hsettings : r.settings = r'.settings)
    (hscript : r.script = r'.script) (hargs : r.args = r'.args) : r = r' := by
  obtain ⟨field, script, args⟩ := r
  obtain ⟨field', script', args'⟩ := r'
  rw [Rendered.mk.injEq]
  exact ⟨OptionTable.settings_inj SbatchOption.mem_all hsettings, hscript, hargs⟩

/-- What rendering a command has asked for. -/
theorem SbatchCmd.rendered_ok {cmd : SbatchCmd} {chdirDir scriptDir : Except Str Str}
    {r : Rendered} (h : cmd.rendered chdirDir scriptDir = .ok r) :
    ∃ chdir exported script, absolutize scriptDir cmd.script = .ok script ∧
      r = cmd.renderedWith chdir exported script := by
  unfold rendered at h
  rcases hchdir : cmd.chdirValue chdirDir with e | chdir
  · rw [hchdir] at h
    cases h
  rcases hexport : cmd.exportValue with e | exported
  · rw [hchdir, hexport] at h
    cases h
  rcases hscript : absolutize scriptDir cmd.script with e | script
  · rw [hchdir, hexport, hscript] at h
    cases h
  rw [hchdir, hexport, hscript] at h
  cases h
  exact ⟨chdir, exported, script, rfl, rfl⟩

/-- An option that stands alone is rendered without a value. -/
theorem SbatchCmd.renderedWith_alone {cmd : SbatchCmd} {chdir exported : Option Str} {script : Str}
    {o : SbatchOption} {v : Str} (hv : (cmd.renderedWith chdir exported script).field o = some v)
    (ho : o.form = .alone) : v = [] := by
  obtain rfl : o = .noRequeue := by
    cases o
    case noRequeue => rfl
    all_goals cases ho
  dsimp only [renderedWith] at hv
  split at hv
  · exact (Option.some.inj hv).symm
  · cases hv

/-- **The scan reads the rendered fields back.** -/
theorem SbatchCmd.scan_buildArgv {cmd : SbatchCmd} {chdirDir scriptDir : Except Str Str}
    {argv : Argv} (h : cmd.buildArgv chdirDir scriptDir = .ok argv)
    (hscript : ∀ q, absolutize scriptDir cmd.script = .ok q → q.head? = some '/') :
    ∃ r, cmd.rendered chdirDir scriptDir = .ok r ∧
      sbatchOptions.scan argv.tail = some (r.settings, r.script, r.args) := by
  rw [buildArgv_eq] at h
  cases hr : cmd.rendered chdirDir scriptDir with
  | error e =>
    rw [hr] at h
    cases h
  | ok r =>
    rw [hr] at h
    cases h
    obtain ⟨chdir, exported, script, habs, rfl⟩ := rendered_ok hr
    refine ⟨_, rfl, OptionTable.scan_write ⟨fun o v => renderedWith_alone, ?_⟩ cmd.args⟩
    · -- a path begins with a slash, and an option with a hyphen
      intro o ho hprefix
      have hslash : script.head? = some '/' := hscript script habs
      obtain ⟨rest, hrest⟩ : o.word <+: script := hprefix
      rw [← hrest, List.head?_append, SbatchOption.head_word o ho] at hslash
      cases hslash

/-- **The command line can be read back.** -/
theorem argv_decodable {cmd : SbatchCmd} {chdirDir scriptDir : Except Str Str} {argv : Argv}
    (h : cmd.buildArgv chdirDir scriptDir = .ok argv)
    (hscript : ∀ q, absolutize scriptDir cmd.script = .ok q → q.head? = some '/') :
    ∃ r, cmd.rendered chdirDir scriptDir = .ok r ∧
      sbatchOptions.scan argv.tail = some (r.settings, r.script, r.args) ∧
      ∀ cmd' chdirDir' scriptDir', SbatchCmd.buildArgv cmd' chdirDir' scriptDir' = .ok argv →
        (∀ q, absolutize scriptDir' cmd'.script = .ok q → q.head? = some '/') →
        cmd'.rendered chdirDir' scriptDir' = .ok r := by
  obtain ⟨r, hr, hscan⟩ := SbatchCmd.scan_buildArgv h hscript
  refine ⟨r, hr, hscan, ?_⟩
  intro cmd' chdirDir' scriptDir' h' hscript'
  obtain ⟨r', hr', hscan'⟩ := SbatchCmd.scan_buildArgv h' hscript'
  rw [hscan, Option.some.injEq, Prod.mk.injEq, Prod.mk.injEq] at hscan'
  obtain ⟨hsettings, hscripts, hargs⟩ := hscan'
  rw [hr', Rendered.eq_of_settings hsettings hscripts hargs]

/-- A value that looks like an option, and an argument that does. -/
theorem argv_decodable_values : ∃ r : Rendered,
    sbatchOptions.scan ["-J", "-p", "--comment", "--nice=1", "/work/job.sh", "-J"] =
        some (r.settings, r.script, r.args) ∧
      r.settings = [(SbatchOption.jobName, ("-p" : Str)), (.comment, "--nice=1")] ∧
        r.script = "/work/job.sh" ∧
      r.args = ["-J"] := by
  have hscript : ∀ q, absolutize (.ok "/") "/work/job.sh" = .ok q → q.head? = some '/' := by
    intro q hq
    cases hq
    decide +kernel
  have hbuild : SbatchCmd.buildArgv { SbatchCmd.new "/work/job.sh" with
      jobName := some "-p"
      comment := some "--nice=1"
      args := ["-J"] } (.ok "/") (.ok "/") =
      .ok ["sbatch", "-J", "-p", "--comment", "--nice=1", "/work/job.sh", "-J"] := by
    decide +kernel
  have hread : sbatchOptions.scan ["-J", "-p", "--comment", "--nice=1", "/work/job.sh", "-J"] =
      some ([(SbatchOption.jobName, ("-p" : Str)), (.comment, "--nice=1")], ("/work/job.sh" : Str),
        [("-J" : Str)]) := by
    decide +kernel
  obtain ⟨r, -, hscan, -⟩ := argv_decodable hbuild hscript
  obtain ⟨hsettings, hrest⟩ := Prod.mk.inj (Option.some.inj (hscan.symm.trans hread))
  obtain ⟨hword, hargs⟩ := Prod.mk.inj hrest
  exact ⟨r, hscan, hsettings, hword, hargs⟩

end Sbatch
